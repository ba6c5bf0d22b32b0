import ResourceServer.Http.Session

/-!
# The codes of an answer

Every verdict other than `NO_REQUEST` leads to a code that `process_write` answers, and
leaves the response empty until then.
-/

namespace ResourceServer
namespace Http

open CString

/-- The codes that `process_write` answers. -/
def HttpCode.Answers (code : HttpCode) : Prop := code ≠ .noRequest ∧ code ≠ .closedConnection

instance (code : HttpCode) : Decidable code.Answers :=
  inferInstanceAs (Decidable (code ≠ .noRequest ∧ code ≠ .closedConnection))

/-- `parse_content` writes into the buffer only, and its code is answered. -/
theorem parseContent_frame {c c' : Conn} {text : ℕ} {v : Verdict}
    (h : parseContent c text = .ok (c', v)) :
    c'.toOutgoing = c.toOutgoing ∧ c'.linger = c.linger ∧ ∀ code, v = .code code → code.Answers := by
  rcases parseContent_cases h with ⟨-, rfl, rfl⟩ | ⟨-, rfl, rfl⟩
  · exact ⟨rfl, rfl, fun code hcode => by cases hcode; decide⟩
  · refine ⟨rfl, rfl, fun code hcode => ?_⟩
    obtain ⟨-, rfl⟩ := contentVerdict_eq_code hcode
    decide

theorem dispatch_frame {c c' : Conn} {d : Dispatch} {v : Verdict} (h : c.dispatch d = .ok (c', v)) :
    c'.toOutgoing = c.toOutgoing ∧ c'.linger = c.linger ∧ ∀ code, v = .code code → code.Answers := by
  cases d with
  | run k =>
    cases h
    exact ⟨rfl, rfl, nofun⟩
  | notFound =>
    cases h
    exact ⟨rfl, rfl, fun code hcode => by cases hcode; decide⟩
  | content => exact parseContent_frame (c := { c with checkState := .content }) h

/-- The head that a read ended with. -/
def Progress.head : Progress → Head
  | .incomplete h _ | .rejected h _ | .complete h _ => h

/-- An answered request leaves an empty response and the `Connection` setting of its head. -/
theorem Refines.answered {n : ℕ} {c' : Conn} {v : Verdict} {progress : Progress}
    (h : Refines n (.ok (c', v)) progress) (hv : v ≠ .code .noRequest) :
    c'.toOutgoing = .empty ∧ c'.linger = progress.head.state.linger ∧
      ∀ code, v = .code code → code.Answers := by
  cases progress with
  | incomplete h' pending =>
    obtain ⟨d, hd, -⟩ := h
    cases hd
    exact absurd rfl hv
  | rejected h' rest =>
    obtain ⟨d, hd, hout, hlinger⟩ := h
    cases hd
    exact ⟨hout, hlinger, fun code hcode => by cases hcode; decide⟩
  | complete h' rest =>
    obtain ⟨d, pre, hr, -, hd⟩ := h
    obtain ⟨hout, hlinger, hcode⟩ := dispatch_frame hd.symm
    exact ⟨hout.trans hr.outgoing, hlinger.trans (congrArg RequestState.linger hr.state), hcode⟩

def AnswersCode (result : HandlerResult) (_ : List (Event services)) : Prop := (caught result).1.Answers

abbrev AnyCall (_ : ServiceCall) (_ : List (Event services)) : Prop := True

theorem refuse_answers {code : HttpCode} {json : Bytes} (hcode : code.Answers)
    (past : List (Event services)) : (refuse code json).Traces AnyCall AnswersCode past := hcode

theorem respond_answers {lib : JsonLib} {success : HttpCode} {query : Service.ServiceQuery}
    (hsuccess : success.Answers) (past : List (Event services)) :
    (respond lib success query).Traces AnyCall AnswersCode past := by
  refine ⟨trivial, fun response => ?_⟩
  change (caught (answer lib success response)).1.Answers
  unfold answer
  cases lib.dump response with
  | none => exact ⟨nofun, nofun⟩
  | some text =>
    rw [Option.bind_some]
    split_ifs
    · cases errorMessage lib response <;> exact ⟨nofun, nofun⟩
    · exact hsuccess

theorem withUser_answers {r : Request} {next : ℤ → HandlerProg}
    (hnext : ∀ u past, (next u).Traces AnyCall AnswersCode past) (past : List (Event services)) :
    (withUser r next).Traces AnyCall AnswersCode past := by
  refine ⟨trivial, fun user => ?_⟩
  rcases user with _ | u
  · exact refuse_answers (by decide) _
  · exact hnext u _

theorem withBody_answers {lib : JsonLib} {r : Request} {next : Json → HandlerProg}
    (hnext : ∀ j past, (next j).Traces AnyCall AnswersCode past) (past : List (Event services)) :
    (withBody lib r next).Traces AnyCall AnswersCode past := by
  unfold withBody
  split
  · exact refuse_answers (by decide) _
  · exact refuse_answers (by decide) _
  · exact hnext _ _

theorem handle_answers (lib : JsonLib) (r : Request) (past : List (Event services)) :
    (handle lib r).Traces AnyCall AnswersCode past := by
  unfold handle
  cases r.handler with
  | health =>
    change (caught (Option.map _ _)).1.Answers
    cases lib.dump (.status (ascii "ok")) <;> exact ⟨nofun, nofun⟩
  | register | login =>
    refine withBody_answers (fun j past => ?_) past
    split
    · exact respond_answers (by decide) _
    · exact refuse_answers (by decide) _
  | logout =>
    refine withUser_answers (fun u past => ?_) past
    refine ⟨trivial, fun response : Json => ?_⟩
    change (caught (Option.bind _ _)).1.Answers
    cases lib.dump response with
    | none => exact ⟨nofun, nofun⟩
    | some text =>
      rw [Option.bind_some]
      split <;> exact ⟨nofun, nofun⟩
  | getResources =>
    refine withUser_answers (fun u past => ?_) past
    split
    · exact respond_answers (by decide) _
    · split
      · exact refuse_answers (by decide) _
      · exact respond_answers (by decide) _
  | deleteResource | createDownloadUrl =>
    refine withUser_answers (fun u past => ?_) past
    split
    · exact refuse_answers (by decide) _
    · exact respond_answers (by decide) _
  | postResource =>
    refine withUser_answers (fun u past => withBody_answers (fun j past => ?_) past) past
    split
    · exact refuse_answers (by decide) _
    · split
      · exact refuse_answers (by decide) _
      · split
        · exact refuse_answers (by decide) _
        · exact respond_answers (by decide) _
  | putResource =>
    refine withUser_answers (fun u past => withBody_answers (fun j past => ?_) past) past
    split
    · exact refuse_answers (by decide) _
    · split
      · exact respond_answers (by decide) _
      · exact ⟨nofun, nofun⟩
  | createUploadUrl =>
    refine withUser_answers (fun u past => withBody_answers (fun j past => ?_) past) past
    split
    · exact respond_answers (by decide) _
    · exact refuse_answers (by decide) _

theorem Outcome.answers {lib : JsonLib} {verify : Bytes → Option ℤ} {v : Verdict}
    {calls : List (Event services)} {result : HttpCode × Bytes} (h : Outcome lib verify v calls result)
    (hv : ∀ code, v = .code code → code.Answers) : result.1.Answers := by
  cases h with
  | code code => exact hv code rfl
  | handler r hexec =>
    exact (hexec.along (I := fun _ _ => True) (handle_answers lib r [])
      (fun _ _ _ _ _ _ _ _ => trivial) trivial).1

/-- `process_write` queues the answer to every complete or rejected request. -/
theorem Refines.queues {lib : JsonLib} {verify : Bytes → Option ℤ} {n : ℕ} {c' : Conn} {v : Verdict}
    {progress : Progress} {calls : List (Event services)} {result : HttpCode × Bytes}
    (h : Refines n (.ok (c', v)) progress) (hv : v ≠ .code .noRequest)
    (houtcome : Outcome lib verify v calls result) :
    Queues { c' with jsonRes := result.2 }
      (Conn.processWrite { c' with jsonRes := result.2 } result.1) := by
  obtain ⟨hout, -, hcode⟩ := h.answered hv
  have hbuf : ({ c' with jsonRes := result.2 } : Conn).writeBuf = [] :=
    congrArg Outgoing.writeBuf hout
  obtain ⟨hrequest, hclosed⟩ := houtcome.answers hcode
  exact processWrite_queues hbuf hrequest hclosed

end Http
end ResourceServer

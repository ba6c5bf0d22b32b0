import ResourceServer.Http.Framing
import ResourceServer.Http.Mediation
import ResourceServer.Service.Statements

/-!
# What a handler asks for

A handler checks its token if it needs one, asks one service at most, and takes its answer
from that service's. Its status is 200 when that is an answer without an error.
-/

namespace ResourceServer
namespace Http

open CString Service

def Handler.success : Handler → HttpCode
  | .register | .postResource => .addResource
  | .putResource => .updateResource
  | .logout | .deleteResource => .deleteResource
  | .login | .getResources | .createUploadUrl | .createDownloadUrl | .health => .getResource

def Handler.changesRows : Handler → Bool
  | .postResource | .putResource | .deleteResource => true
  | _ => false

/-- The codes that `process_write` answers with 200. -/
def HttpCode.succeeds : HttpCode → Bool
  | .getResource | .addResource | .updateResource | .deleteResource => true
  | _ => false

theorem Handler.success_succeeds (k : Handler) : k.success.succeeds = true := by
  cases k <;> rfl

theorem Reply.status_iff {code : HttpCode} {json : Bytes} {r : Reply} (hr : Reply.of code json = some r) :
    r.status = 200 ↔ code.succeeds = true := by
  cases code with
  | noRequest | closedConnection => cases hr
  | badRequest =>
    simp only [Reply.of] at hr
    split_ifs at hr
    all_goals
      cases hr
      exact iff_of_false (by simp) (by decide)
  | internalError | noResource | forbiddenRequest =>
    cases hr
    exact iff_of_false (by simp) (by decide)
  | getResource | addResource | updateResource | deleteResource =>
    cases hr
    exact iff_of_true rfl rfl

/-- The first question of a handler whose token means `u`. -/
def question (u : ℤ) : HandlerProg → Option ServiceQuery
  | .ret _ => none
  | .call (.getUserIdFromToken _) k => question u (k (some u))
  | .call (.ask q) _ => some q

/-- The statement that a request asks for, if it comes from `u`. -/
def Request.asked (lib : JsonLib) (r : Request) (u : ℤ) : Option Action :=
  (question u (handle lib r)).bind ServiceQuery.statement

/-- What precedes the question of a handler that has checked its token for `user`, or none. -/
def checked (r : Request) : Option ℤ → List (Event services)
  | none => []
  | some u => [⟨.getUserIdFromToken r.token, some u⟩]

/-- The calls a request may make behind others: its own token's check, and questions for the user
that the check named. -/
def Allowed (r : Request) (op : ServiceCall) (past : List (Event services)) : Prop :=
  match op with
  | .getUserIdFromToken token => token = r.token
  | .ask q => ∃ user, past = checked r user ∧ ∀ u, q.actingUser = some u → user = some u

/-- How a handler comes to its result. -/
inductive Concludes (lib : JsonLib) (r : Request) (result : HandlerResult) :
    List (Event services) → Prop where
  | unasked {past : List (Event services)} (hpast : ∀ e ∈ past, ∃ token, e.op = .getUserIdFromToken token)
      (hresult : r.handler ≠ .health → (caught result).1.succeeds = false) : Concludes lib r result past
  | asked {user : Option ℤ} {q : ServiceQuery} {response : Json}
      (huser : ∀ u, q.actingUser = some u → user = some u)
      (hq : q.statement.isSome = r.handler.changesRows)
      (hresult : r.handler ≠ .logout → result = answer lib r.handler.success response) :
      Concludes lib r result (checked r user ++ [⟨.ask q, response⟩])

section Pieces

variable {lib : JsonLib} {r : Request} {user : Option ℤ}

theorem checked_ops : ∀ e ∈ checked r user, ∃ token, e.op = .getUserIdFromToken token := by
  intro e he
  cases user with
  | none => cases he
  | some u => exact ⟨r.token, by rw [List.mem_singleton.mp he]⟩

theorem refuse_traces {code : HttpCode} (json : Bytes) (hcode : code.succeeds = false) :
    (refuse code json).Traces (Allowed r) (Concludes lib r) (checked r user) :=
  .unasked checked_ops fun _ => hcode

theorem throws_traces : (Prog.ret none : HandlerProg).Traces (Allowed r) (Concludes lib r) (checked r user) :=
  .unasked checked_ops fun _ => rfl

theorem ask_traces {q : ServiceQuery} {f : Json → HandlerResult}
    (huser : ∀ u, q.actingUser = some u → user = some u)
    (hq : q.statement.isSome = r.handler.changesRows)
    (hresult : ∀ response, r.handler ≠ .logout → f response = answer lib r.handler.success response) :
    (Prog.call (E := services) (.ask q) fun response : Json => .ret (f response)).Traces (Allowed r)
      (Concludes lib r) (checked r user) :=
  ⟨⟨user, rfl, huser⟩, fun response => .asked huser hq (hresult response)⟩

theorem withBody_traces {next : Json → HandlerProg}
    (hnext : ∀ j, (next j).Traces (Allowed r) (Concludes lib r) (checked r user)) :
    (withBody lib r next).Traces (Allowed r) (Concludes lib r) (checked r user) := by
  unfold withBody
  split
  · exact refuse_traces _ rfl
  · exact refuse_traces _ rfl
  · exact hnext _

theorem withUser_traces {next : ℤ → HandlerProg}
    (hnext : ∀ u, (next u).Traces (Allowed r) (Concludes lib r) (checked r (some u))) :
    (withUser r next).Traces (Allowed r) (Concludes lib r) [] := by
  refine ⟨rfl, fun user => ?_⟩
  cases user with
  | none =>
    refine .unasked (fun e he => ?_) fun _ => rfl
    exact ⟨r.token, by rw [List.mem_singleton.mp he]⟩
  | some u => exact hnext u

theorem respond_traces {success : HttpCode} {u : ℤ} {q : ServiceQuery} (hsuccess : r.handler.success = success)
    (hu : q.actingUser = some u) (hq : q.statement.isSome = r.handler.changesRows) :
    (respond lib success q).Traces (Allowed r) (Concludes lib r) (checked r (some u)) :=
  ask_traces (fun _ hu' => hu.symm.trans hu') hq fun response _ => by rw [hsuccess]

end Pieces

theorem handle_traces (lib : JsonLib) (r : Request) :
    (handle lib r).Traces (Allowed r) (Concludes lib r) [] := by
  unfold handle
  cases hk : r.handler with
  | register =>
    change (withBody lib r _).Traces (Allowed r) (Concludes lib r) (checked r none)
    refine withBody_traces fun j => ?_
    split
    · exact ask_traces nofun (by rw [hk]; rfl) fun _ _ => by rw [hk]; rfl
    · exact refuse_traces _ rfl
  | login =>
    change (withBody lib r _).Traces (Allowed r) (Concludes lib r) (checked r none)
    refine withBody_traces fun j => ?_
    split
    · exact ask_traces nofun (by rw [hk]; rfl) fun _ _ => by rw [hk]; rfl
    · exact refuse_traces _ rfl
  | logout =>
    exact withUser_traces fun u => ask_traces nofun (by rw [hk]; rfl) fun _ hlogout => absurd hk hlogout
  | health => exact .unasked nofun fun hhealth => absurd hk hhealth
  | getResources =>
    refine withUser_traces fun u => ?_
    split
    · exact respond_traces (by rw [hk]; rfl) rfl (by rw [hk]; rfl)
    · split
      · exact refuse_traces _ rfl
      · exact respond_traces (by rw [hk]; rfl) rfl (by rw [hk]; rfl)
  | deleteResource =>
    refine withUser_traces fun u => ?_
    split
    · exact refuse_traces _ rfl
    · exact respond_traces (by rw [hk]; rfl) rfl (by rw [hk]; rfl)
  | createDownloadUrl =>
    refine withUser_traces fun u => ?_
    split
    · exact refuse_traces _ rfl
    · exact respond_traces (by rw [hk]; rfl) rfl (by rw [hk]; rfl)
  | postResource =>
    refine withUser_traces fun u => withBody_traces fun j => ?_
    split
    · exact refuse_traces _ rfl
    · split
      · exact refuse_traces _ rfl
      · split
        · exact refuse_traces _ rfl
        · exact respond_traces (by rw [hk]; rfl) rfl (by rw [hk]; rfl)
  | putResource =>
    refine withUser_traces fun u => withBody_traces fun j => ?_
    split
    · exact refuse_traces _ rfl
    · split
      · exact respond_traces (by rw [hk]; rfl) rfl (by rw [hk]; rfl)
      · exact throws_traces
  | createUploadUrl =>
    refine withUser_traces fun u => withBody_traces fun j => ?_
    split
    · exact respond_traces (by rw [hk]; rfl) rfl (by rw [hk]; rfl)
    · exact refuse_traces _ rfl

/-- Every check in the history named `u`. -/
def Named (u : ℤ) (past : List (Event services)) : Prop :=
  ∀ e ∈ past, ∃ token, e = ⟨.getUserIdFromToken token, some u⟩

/-- A first question is the one that the handler asks for `u`. -/
def Poses (p₀ : HandlerProg) (op : ServiceCall) (past : List (Event services)) : Prop :=
  ∀ q u, op = .ask q → Named u past → question u p₀ = some q

theorem poses_traces (p₀ : HandlerProg) : p₀.Traces (Poses p₀) (fun _ _ => True) [] := by
  have hfrom : ∀ (p : HandlerProg) past, (∀ u, Named u past → question u p₀ = question u p) →
      p.Traces (Poses p₀) (fun _ _ => True) past := by
    intro p
    induction p with
    | ret result => exact fun _ _ => trivial
    | call op k ih =>
      intro past hpast
      constructor
      · rintro q u rfl hnamed
        exact hpast u hnamed
      · refine fun r => ih r _ fun u hnamed => ?_
        obtain ⟨token, hevent⟩ := hnamed ⟨op, r⟩ (List.mem_append_right past (List.mem_singleton.mpr rfl))
        cases hevent
        exact hpast u fun e he => hnamed e (List.mem_append_left _ he)
  exact hfrom p₀ [] fun _ _ => rfl

def Posed (p₀ : HandlerProg) (past : List (Event services)) : Prop :=
  ∀ before q response u, past = before ++ [⟨.ask q, response⟩] → Named u before → question u p₀ = some q

theorem handle_poses (lib : JsonLib) (r : Request) :
    (handle lib r).Traces (fun op past => Allowed r op past ∧ Poses (handle lib r) op past)
      (fun result past => Concludes lib r result past ∧ Posed (handle lib r) past) [] := by
  refine ((handle_traces lib r).and (poses_traces (handle lib r))).track (I := Posed (handle lib r)) ?_ ?_ ?_
  · rintro op result past ⟨-, hposes⟩ - before q response u hpast hnamed
    obtain ⟨rfl, hevent⟩ := List.append_inj' hpast rfl
    cases hevent
    exact hposes q u rfl hnamed
  · exact fun result past hconcludes hposed => ⟨hconcludes.1, hposed⟩
  · intro before q response u hnil
    simp at hnil

theorem withUser_within {r : Request} {n : ℕ} {next : ℤ → HandlerProg} (hnext : ∀ user, (next user).Within n) :
    (withUser r next).Within (n + 1) := by
  refine ⟨Nat.succ_pos n, fun user => ?_⟩
  cases user with
  | none => trivial
  | some user => exact hnext user

theorem withBody_within {lib : JsonLib} {r : Request} {n : ℕ} {next : Json → HandlerProg}
    (hnext : ∀ j, (next j).Within n) : (withBody lib r next).Within n := by
  unfold withBody
  rcases lib.parse r.body with (_ | _) | j
  · trivial
  · trivial
  · exact hnext j

theorem respond_within (lib : JsonLib) (success : HttpCode) (query : ServiceQuery) :
    (respond lib success query).Within 1 := ⟨Nat.one_pos, fun _ => trivial⟩

/-- A handler checks the token and calls one service, at most. -/
theorem handle_within (lib : JsonLib) (r : Request) : (handle lib r).Within 2 := by
  unfold handle
  cases r.handler with
  | register =>
    refine withBody_within fun j => ?_
    split
    · exact (respond_within ..).mono (by decide)
    · trivial
  | login =>
    refine withBody_within fun j => ?_
    split
    · exact (respond_within ..).mono (by decide)
    · trivial
  | logout => exact withUser_within (n := 1) fun user => ⟨Nat.one_pos, fun _ => trivial⟩
  | getResources =>
    refine withUser_within (n := 1) fun user => ?_
    cases queryOf r.target with
    | none => exact respond_within ..
    | some query =>
      dsimp only
      cases numberParameter query (ascii "id") with
      | none => trivial
      | some id => exact respond_within ..
  | deleteResource =>
    refine withUser_within (n := 1) fun user => ?_
    cases (queryOf r.target).bind (numberParameter · (ascii "id")) with
    | none => trivial
    | some id => exact respond_within ..
  | postResource =>
    refine withUser_within (n := 1) fun user => withBody_within fun j => ?_
    cases optionalField j "title" Json.asString? [] with
    | none => trivial
    | some title =>
      cases optionalField j "content" Json.asString? [] with
      | none => trivial
      | some content =>
        cases optionalField j "is_file" Json.asBool? false with
        | none => trivial
        | some isFile => exact respond_within ..
  | putResource =>
    refine withUser_within (n := 1) fun user => withBody_within fun j => ?_
    split
    · trivial
    · split
      · exact respond_within ..
      · trivial
  | createUploadUrl =>
    refine withUser_within (n := 1) fun user => withBody_within fun j => ?_
    split
    · exact respond_within ..
    · trivial
  | createDownloadUrl =>
    refine withUser_within (n := 1) fun user => ?_
    cases (queryOf r.target).bind (numberParameter · (ascii "resource_id")) with
    | none => trivial
    | some id => exact respond_within ..
  | health => trivial

theorem answer_succeeds {lib : JsonLib} {k : Handler} {response : Json}
    (hdump : response.error? = none → (lib.dump response).isSome) :
    (caught (answer lib k.success response)).1.succeeds = true ↔ response.error? = none := by
  cases herror : response.error? with
  | none =>
    obtain ⟨text, htext⟩ := Option.isSome_iff_exists.mp (hdump herror)
    rw [answer, htext, Option.bind_some, herror]
    exact iff_of_true k.success_succeeds rfl
  | some error =>
    refine iff_of_false ?_ nofun
    rw [answer, Bool.not_eq_true]
    cases lib.dump response with
    | none => rfl
    | some text =>
      rw [Option.bind_some, herror, Option.isSome_some, if_pos rfl]
      cases errorMessage lib response <;> rfl

end Http
end ResourceServer

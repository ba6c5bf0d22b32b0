import ResourceServer.Http.Session

/-!
# Index and arithmetic safety

Every access of the parser is in bounds except the write behind the body. Its index and
the sum it is guarded by come from the client's `Content-Length`, which may be negative
or close to the largest `int`, and a body that fills the buffer to its last cell has none
left behind it.
-/

namespace ResourceServer
namespace Http

open CString

/-- The end of the announced body, an offset in the read buffer. -/
def Head.bodyEnd (h : Head) (bytes rest : Bytes) : ℤ :=
  h.state.contentLength + (bytes.length - rest.length : ℕ)

/-- If `bytes` hold a complete head of a route with a body, the announced body ends neither
before the buffer nor beyond the range of `int`, nor with the last cell of a full buffer. -/
def BodyEndInRange (bytes : Bytes) : Prop :=
  match Head.initial.read bytes with
  | .complete h rest => h.state.endOfHeaders = .content → EndInRange (h.bodyEnd bytes rest) bytes.length
  | _ => True

theorem parseContent_fault {c : Conn} (text : ℕ) (htext : text = c.checkedIndex)
    (hsize : c.readIndex ≤ readBufferSize) :
    (∃ f, parseContent c text = .error f) ↔
      ¬ EndInRange (c.contentLength + c.checkedIndex) c.readIndex := by
  subst htext
  rw [← parseContent_ok_iff hsize]
  cases hresult : parseContent c c.checkedIndex with
  | error f => exact iff_of_true ⟨f, rfl⟩ (by simp)
  | ok r => exact iff_of_false (by simp) (not_not.mpr ⟨r.1, r.2, rfl⟩)

/-- `process_read` makes an access out of bounds or overflows exactly on an announced
body end out of range. -/
theorem processRead_fault {n : ℕ} {bytes : Bytes} {result : Except Fault (Conn × Verdict)}
    (hspec : Refines n result (Head.initial.read bytes)) (hn : n = bytes.length)
    (hsize : n ≤ readBufferSize) : (∃ f, result = .error f) ↔ ¬ BodyEndInRange bytes := by
  unfold BodyEndInRange
  cases hp : Head.initial.read bytes with
  | incomplete h pending =>
    rw [hp] at hspec
    obtain ⟨c, rfl, -⟩ := hspec
    exact iff_of_false (by simp) (by simp)
  | rejected h rest =>
    rw [hp] at hspec
    obtain ⟨c, rfl, -⟩ := hspec
    exact iff_of_false (by simp) (by simp)
  | complete h rest =>
    rw [hp] at hspec
    obtain ⟨c, pre, hr, hindex, rfl⟩ := hspec
    cases hd : h.state.endOfHeaders with
    | run k => exact iff_of_false (by simp [Conn.dispatch]) (by simp [hd])
    | notFound => exact iff_of_false (by simp [Conn.dispatch]) (by simp [hd])
    | content =>
      have hchecked : c.checkedIndex = bytes.length - rest.length := by
        have : c.readIndex = pre.length + rest.length := by simp [Conn.readIndex, hr.buffer]
        rw [hr.checked, List.length_nil]
        omega
      have hend : c.contentLength + c.checkedIndex = h.bodyEnd bytes rest := by
        rw [hchecked, Head.bodyEnd, ← hr.state]
      have hfault := parseContent_fault (c := { c with checkState := .content }) c.checkedIndex rfl
        (by rw [← hindex] at hsize; exact hsize)
      have hreceived : Conn.readIndex { c with checkState := .content } = bytes.length := hindex.trans hn
      rw [hreceived] at hfault
      dsimp only at hfault
      rw [hend] at hfault
      exact hfault.trans (not_congr (imp_iff_right hd).symm)

namespace Session

/-- What a step must meet: the head that a `read()` completes announces a body end in
range. -/
def BodyEndsInRange (s : Session) : Input → Prop
  | .readable a true => ∀ c, s.conn.read a = (c, true) → s.phase = .reading →
      BodyEndInRange (s.afterRead c).received
  | _ => True

/-- An access out of bounds or an overflow has happened. -/
def Faulted (s : Session) : Prop := ∃ f, s.phase = .faulted f

theorem Readable.fault_iff {s : Session} (hs : s.Readable) (hphase : s.phase = .reading)
    {a : Arrival} {c : Conn} (hread : s.conn.read a = (c, true)) :
    (∃ f, processRead c = .error f) ↔ ¬ s.BodyEndsInRange (.readable a true) := by
  obtain ⟨hspec, hsize⟩ := hs.read hphase hread
  rw [processRead_fault hspec rfl hsize]
  refine not_congr ⟨fun h c' hc' _ => ?_, fun h => h c hread hphase⟩
  rw [hread] at hc'
  cases hc'
  exact h

theorem Readable.faulted_iff {lib : JsonLib} {verify : Bytes → Option ℤ} {s s' : Session}
    {i : Input} (hs : s.Readable) (hstep : Step lib verify s i s') :
    s'.Faulted ↔ ¬ s.BodyEndsInRange i := by
  cases hstep with
  | accept peer hphase => exact iff_of_false (fun ⟨f, hf⟩ => by cases hf) (fun h => h trivial)
  | hangup hphase => exact iff_of_false (fun ⟨f, hf⟩ => by cases hf) (fun h => h trivial)
  | @readFails a queued c hphase hread =>
    refine iff_of_false (fun ⟨f, hf⟩ => by cases hf) (fun h => h ?_)
    cases queued with
    | false => trivial
    | true =>
      intro c' hc'
      rw [hread] at hc'
      cases hc'
  | rejected hphase hread => exact iff_of_false (fun ⟨f, hf⟩ => by cases hf) (fun h => h trivial)
  | fault hphase hread hparse =>
    rw [← hs.fault_iff hphase hread]
    exact iff_of_true ⟨_, rfl⟩ ⟨_, hparse⟩
  | wait hphase hread hparse =>
    rw [← hs.fault_iff hphase hread]
    refine iff_of_false (fun ⟨f, hf⟩ => ?_) (fun ⟨f, hf⟩ => by simp [hparse] at hf)
    exact absurd (hphase.symm.trans hf) nofun
  | answer hphase hread hparse hverdict houtcome =>
    rw [← hs.fault_iff hphase hread]
    refine iff_of_false (fun ⟨f, hf⟩ => ?_) (fun ⟨f, hf⟩ => by simp [hparse] at hf)
    rcases reply_phase _ _ _ _ _ _ with hr | hr <;> exact absurd (hr.symm.trans hf) nofun
  | blocked hphase hwrite =>
    exact iff_of_false (fun ⟨f, hf⟩ => by simp [hphase] at hf) (fun h => h trivial)
  | finished hphase hwrite => exact iff_of_false (fun ⟨f, hf⟩ => by cases hf) (fun h => h trivial)
  | ended hphase hwrite hend => exact iff_of_false (fun ⟨f, hf⟩ => by cases hf) (fun h => h trivial)

/-- A run stays in bounds as long as every announced body end is in range, and the first
one that is not is an access out of bounds or an overflow. -/
theorem parser_safe (lib : JsonLib) (verify : Bytes → Option ℤ) (peer : Peer) :
    (∀ s, Runs (Step lib verify) BodyEndsInRange (accepted peer) s → ¬ s.Faulted) ∧
      ∀ s i s', Reaches (Step lib verify) (accepted peer) s → Step lib verify s i s' →
        (s'.Faulted ↔ ¬ s.BodyEndsInRange i) := by
  refine ⟨fun s hrun => ?_, fun s i s' hrun hstep => (readable_of_reaches hrun).faulted_iff hstep⟩
  have hstart : (accepted peer).Readable ∧ ¬ (accepted peer).Faulted :=
    ⟨.accepted peer, fun ⟨f, hf⟩ => by cases hf⟩
  have hend : s.Readable ∧ ¬ s.Faulted := by
    refine Runs.invariant (I := fun s => s.Readable ∧ ¬ s.Faulted) hrun ?_ hstart
    intro s i s' hs hrange hstep
    exact ⟨hs.1.step hstep, fun hf => (hs.1.faulted_iff hstep).mp hf hrange⟩
  exact hend.2

end Session

/-- A login that announces a body of -200 bytes. -/
def negativeLength : Bytes :=
  ascii "POST /api/login HTTP/1.1\r\nContent-Length: -200\r\n\r\n"

theorem negative_length_out_of_bounds :
    ∃ c, (Conn.accepted ⟨5, []⟩).read ⟨[negativeLength], .again, .again⟩ = (c, true) ∧
      processRead c = .error (.outOfBounds (-150)) :=
  ⟨(Conn.accepted ⟨5, []⟩).receive negativeLength, by decide +kernel, by decide +kernel⟩

end Http
end ResourceServer

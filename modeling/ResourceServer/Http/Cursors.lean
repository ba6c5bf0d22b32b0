import ResourceServer.Foundation.Loop
import ResourceServer.Foundation.Transition
import ResourceServer.Http.Receiving
import ResourceServer.Http.Resumption

/-!
# Cursors of the request parser

`m_start_line`, `m_checked_index` and `m_read_index` stay in this order in any sequence of
`read()` and `process_read()`, also behind an answer. The loop of `process_read` ends: a line
moves `m_checked_index` over its CRLF, and the content state returns.
-/

namespace ResourceServer
namespace Http

open CString

structure Conn.Ordered (c : Conn) : Prop where
  start : c.startLine ≤ c.checkedIndex
  checked : c.checkedIndex ≤ c.readIndex
  size : c.readIndex ≤ readBufferSize

/-- The scan has no CR right behind it, so `parse_line` never ends a line at an LF alone. -/
structure Conn.Scanned (c : Conn) : Prop extends Conn.Ordered c where
  ended : ∀ i : ℕ, i + 1 = c.checkedIndex → c.readBuf[i]? ≠ some cr

/-- `b` is `a` with NULs written into it. -/
structure Blots (a b : Bytes) : Prop where
  length : b.length = a.length
  bytes : ∀ i : ℕ, b[i]? = a[i]? ∨ b[i]? = some nul

theorem Blots.refl (a : Bytes) : Blots a a := ⟨rfl, fun _ => Or.inl rfl⟩

theorem Blots.set {a b : Bytes} (h : Blots a b) (i : ℕ) : Blots a (b.set i nul) := by
  refine ⟨List.length_set.trans h.length, fun j => ?_⟩
  rw [List.getElem?_set]
  split_ifs with hij hlt
  · exact Or.inr rfl
  · left
    rw [← hij, List.getElem?_eq_none (by rw [← h.length]; omega)]
  · exact h.bytes j

/-- A parser function that leaves the cursors where they are. -/
structure Conn.Blotted (c d : Conn) : Prop where
  start : d.startLine = c.startLine
  checked : d.checkedIndex = c.checkedIndex
  buffer : Blots c.readBuf d.readBuf

namespace Conn

variable {c d : Conn}

theorem Blotted.scanned (h : c.Blotted d) (hc : c.Scanned) : d.Scanned := by
  have hread : d.readIndex = c.readIndex := h.buffer.length
  refine ⟨⟨?_, ?_, ?_⟩, fun i hi => ?_⟩
  · rw [h.start, h.checked]
    exact hc.start
  · rw [h.checked, hread]
    exact hc.checked
  · rw [hread]
    exact hc.size
  · rw [h.checked] at hi
    rcases h.buffer.bytes i with hbyte | hbyte
    · rw [hbyte]
      exact hc.ended i hi
    · rw [hbyte]
      decide

theorem scanned_accepted (peer : Peer) : (accepted peer).Scanned :=
  ⟨⟨Nat.le_refl _, Nat.le_refl _, Nat.zero_le _⟩, nofun⟩

theorem Scanned.receive (hc : c.Scanned) {bs : Bytes} (hsize : c.readIndex + bs.length ≤ readBufferSize) :
    (c.receive bs).Scanned := by
  refine ⟨⟨hc.start, ?_, ?_⟩, fun i hi => ?_⟩
  · rw [readIndex_receive]
    exact Nat.le_add_right_of_le hc.checked
  · rw [readIndex_receive]
    exact hsize
  · have hlt : i < c.readBuf.length := by
      have hchecked : c.checkedIndex ≤ c.readBuf.length := hc.checked
      have hi : i + 1 = c.checkedIndex := hi
      omega
    rw [Conn.receive, List.getElem?_append_left hlt]
    exact hc.ended i hi

/-- The scanned part of the buffer and the rest. -/
theorem Scanned.split (hc : c.Scanned) : ∃ pre tail, c.readBuf = pre ++ tail ∧
    c.checkedIndex = pre.length ∧ pre.getLast? ≠ some cr := by
  have hchecked : c.checkedIndex ≤ c.readBuf.length := hc.checked
  refine ⟨c.readBuf.take c.checkedIndex, c.readBuf.drop c.checkedIndex, ?_, ?_, ?_⟩
  · exact (List.take_append_drop ..).symm
  · rw [List.length_take, Nat.min_eq_left hchecked]
  · rw [List.getLast?_take]
    split_ifs with hzero
    · decide
    · have h := hc.ended (c.checkedIndex - 1) (by omega)
      rw [List.getElem?_eq_getElem (by omega)] at h ⊢
      exact h

theorem scanned_of_split (pre tail : Bytes) (hbuf : c.readBuf = pre ++ tail)
    (hchecked : c.checkedIndex = pre.length) (hstart : c.startLine ≤ c.checkedIndex)
    (hsize : c.readIndex ≤ readBufferSize) (hended : pre.getLast? ≠ some cr) : c.Scanned := by
  refine ⟨⟨hstart, ?_, hsize⟩, fun i hi => ?_⟩
  · rw [hchecked, readIndex, hbuf, List.length_append]
    exact Nat.le_add_right _ _
  · rw [hchecked] at hi
    rw [List.getLast?_eq_getElem?] at hended
    have hi' : i = pre.length - 1 := by omega
    rw [hbuf, List.getElem?_append_left (by omega), hi']
    exact hended

end Conn

section Parsers

variable {c d : Conn}

theorem parseRequestLine_blotted (c : Conn) (text : ℕ) : c.Blotted (parseRequestLine c text).1 := by
  have hblots : Blots c.readBuf c.readBuf := .refl _
  unfold parseRequestLine
  split
  · exact ⟨rfl, rfl, hblots⟩
  · dsimp only
    split
    · exact ⟨rfl, rfl, hblots.set _⟩
    · have hblots' (i j : ℕ) : Blots c.readBuf ((c.readBuf.set i nul).set j nul) := (hblots.set i).set j
      split_ifs
      · exact ⟨rfl, rfl, hblots' _ _⟩
      · split
        · exact ⟨rfl, rfl, hblots' _ _⟩
        · split_ifs <;> exact ⟨rfl, rfl, hblots' _ _⟩

theorem parseHeaders_blotted (c : Conn) (text : ℕ) : c.Blotted (parseHeaders c text).1 := by
  have hblots : Blots c.readBuf c.readBuf := .refl _
  unfold parseHeaders
  dsimp only
  split_ifs
  · cases c.endOfHeaders <;> exact ⟨rfl, rfl, hblots⟩
  · exact ⟨rfl, rfl, hblots⟩

theorem parseContent_blotted {text : ℕ} {v : Verdict} (h : parseContent c text = .ok (d, v)) :
    c.Blotted d := by
  have hblots : Blots c.readBuf c.readBuf := .refl _
  rcases parseContent_cases h with ⟨-, rfl, -⟩ | ⟨-, rfl, -⟩
  · exact ⟨rfl, rfl, hblots⟩
  · exact ⟨rfl, rfl, hblots.set _⟩

theorem parseContent_ne_outOfFuel {text : ℕ} : parseContent c text ≠ .error .outOfFuel := by
  rw [parseContent_eq, Conn.poke]
  split_ifs <;> simp [Except.map]

/-- A line that `parse_line` takes is at least its CRLF. -/
theorem parseLine_scanned (hc : c.Scanned) :
    ∃ d status, parseLine c = .ok (d, status) ∧ d.Scanned ∧ d.checkState = c.checkState ∧
      d.readIndex = c.readIndex ∧ (status = .lineOk → c.checkedIndex + 2 ≤ d.checkedIndex) := by
  obtain ⟨pre, tail, hbuf, hchecked, hended⟩ := hc.split
  have hstart : c.startLine ≤ pre.length := hchecked ▸ hc.start
  cases hline : nextLine tail with
  | none =>
    obtain ⟨more, stop, status, rfl, hmore, hstatus, hparse⟩ :=
      parseLine_none hbuf hchecked hc.size hended hline
    refine ⟨_, status, hparse, ?_, rfl, rfl, fun h => absurd h hstatus⟩
    apply Conn.scanned_of_split (pre ++ more) stop
    · simp [hbuf]
    · simp
    · exact Nat.le_add_right_of_le hstart
    · exact hc.size
    · exact getLast?_append_plain hended hmore
  | some p =>
    obtain ⟨line, rest⟩ := p
    have hread : (pre ++ (line ++ nul :: nul :: rest)).length = c.readIndex := by
      have hlength := nextLine_length hline
      rw [Conn.readIndex, hbuf]
      simp only [List.length_append, List.length_cons]
      omega
    refine ⟨_, .lineOk, parseLine_some hbuf hchecked hc.size hline, ?_, rfl, hread, fun _ => ?_⟩
    · apply Conn.scanned_of_split (pre ++ (line ++ [nul, nul])) rest
      · simp
      · simp [Nat.add_assoc]
      · exact Nat.le_add_right_of_le (Nat.le_add_right_of_le hstart)
      · exact hread.trans_le hc.size
      · simpa using (by decide : nul ≠ cr)
    · rw [hchecked]
      dsimp only
      omega

end Parsers

/-- One execution of the loop body, from the evaluation of the condition to its end. -/
structure Iteration where
  before : Conn
  after : Conn

def Iteration.InContent (e : Iteration) : Bool := e.before.checkState = .content

/-- The condition; it may call `parse_line`. -/
def loopCondition (status : LineStatus) (c : Conn) : Except Fault (Conn × LineStatus) :=
  if c.checkState = .content ∧ status = .lineOk then .ok (c, status) else parseLine c

/-- The body, with the connection `c` before the condition and `d` behind it. -/
def loopBody (c d : Conn) : Pass (LineStatus × Conn) Iteration (Except Fault (Conn × Verdict)) :=
  let text := d.startLine
  let d := { d with startLine := d.checkedIndex }
  match d.checkState with
  | .requestLine =>
    match parseRequestLine d text with
    | (c', .badRequest) => .ret ⟨c, c'⟩ (.ok (c', .code .badRequest))
    | (c', _) => .again ⟨c, c'⟩ (.lineOk, c')
  | .header =>
    match parseHeaders d text with
    | (c', .code .noRequest) => .again ⟨c, c'⟩ (.lineOk, c')
    | (c', verdict) => .ret ⟨c, c'⟩ (.ok (c', verdict))
  | .content =>
    match parseContent d text with
    -- the access is undefined; the cursors are those it is made with
    | .error f => .ret ⟨c, d⟩ (.error f)
    | .ok (c', .code .noRequest) => .again ⟨c, c'⟩ (.lineOpen, c')
    | .ok (c', verdict) => .ret ⟨c, c'⟩ (.ok (c', verdict))

def processReadPass (s : LineStatus × Conn) :
    Pass (LineStatus × Conn) Iteration (Except Fault (Conn × Verdict)) :=
  match loopCondition s.1 s.2 with
  | .error f => .skip (.error f)
  | .ok (d, status) => if status ≠ .lineOk then .skip (.ok (d, .code .noRequest)) else loopBody s.2 d

theorem afterLine_lineOk (next : LineStatus → Conn → Except Fault (Conn × Verdict)) (c d : Conn) :
    Conn.afterLine next d .lineOk =
      match loopBody c d with
      | .skip b => b
      | .ret _ b => b
      | .again _ s => next s.1 s.2 := by
  unfold Conn.afterLine loopBody
  dsimp only
  rw [if_neg (not_not.mpr rfl)]
  cases d.checkState with
  | requestLine =>
    rcases parseRequestLine { d with startLine := d.checkedIndex } d.startLine with ⟨c', code⟩
    cases code <;> rfl
  | header =>
    rcases parseHeaders { d with startLine := d.checkedIndex } d.startLine with ⟨c', verdict⟩
    rcases verdict with code | r
    · cases code <;> rfl
    · rfl
  | content =>
    rcases parseContent { d with startLine := d.checkedIndex } d.startLine with f | ⟨c', verdict⟩
    · rfl
    · rcases verdict with code | r
      · cases code <;> rfl
      · rfl

theorem processReadPass_error {status : LineStatus} {c : Conn} {f : Fault}
    (h : loopCondition status c = .error f) : processReadPass (status, c) = .skip (.error f) := by
  rw [processReadPass, h]

theorem processReadPass_stop {status status' : LineStatus} {c d : Conn}
    (h : loopCondition status c = .ok (d, status')) (hstatus : status' ≠ .lineOk) :
    processReadPass (status, c) = .skip (.ok (d, .code .noRequest)) := by
  rw [processReadPass, h]
  exact if_pos hstatus

theorem processReadPass_lineOk {status : LineStatus} {c d : Conn}
    (h : loopCondition status c = .ok (d, .lineOk)) : processReadPass (status, c) = loopBody c d := by
  rw [processReadPass, h]
  rfl

theorem processReadLoop_eq_runLoop (fuel : ℕ) (status : LineStatus) (c : Conn) :
    processReadLoop fuel status c =
      runLoop processReadPass (.error .outOfFuel) fuel (status, c) := by
  induction fuel generalizing status c with
  | zero => rfl
  | succ fuel ih =>
    have hloop : processReadLoop (fuel + 1) status c =
        loopCondition status c >>= fun r => Conn.afterLine (processReadLoop fuel) r.1 r.2 :=
      c.processReadLoop_eq fuel status
    rw [hloop, runLoop]
    cases hcondition : loopCondition status c with
    | error f =>
      rw [processReadPass_error hcondition]
      rfl
    | ok r =>
      obtain ⟨d, status'⟩ := r
      change Conn.afterLine (processReadLoop fuel) d status' = _
      by_cases hstatus : status' = .lineOk
      · subst hstatus
        rw [processReadPass_lineOk hcondition, afterLine_lineOk _ c]
        cases loopBody c d with
        | again e s => exact ih s.1 s.2
        | skip b | ret e b => rfl
      · rw [processReadPass_stop hcondition hstatus]
        exact if_pos hstatus

structure Iteration.Sound (e : Iteration) : Prop where
  before : e.before.Ordered
  after : e.after.Ordered
  advances : e.before.checkState ≠ .content → e.before.checkedIndex + 2 ≤ e.after.checkedIndex

/-- What a pass from `c` with `LINE_OK` guarantees. A fault is an access of `parse_content`. -/
def PassSound (c : Conn) : Pass (LineStatus × Conn) Iteration (Except Fault (Conn × Verdict)) → Prop
  | .skip b => ∃ d, b = .ok (d, .code .noRequest) ∧ d.Scanned
  | .ret e b => e.Sound ∧
      ((∃ v, b = .ok (e.after, v) ∧ e.after.Scanned) ∨
        ∃ f, b = .error f ∧ f ≠ .outOfFuel ∧ e.InContent = true)
  | .again e s => e.Sound ∧ e.InContent = false ∧ s = (.lineOk, e.after) ∧ e.after.Scanned ∧
      c.checkedIndex + 2 ≤ e.after.checkedIndex ∧ e.after.readIndex = c.readIndex

section Passes

variable {c d : Conn}

theorem loopCondition_scanned (hc : c.Scanned) :
    ∃ d status, loopCondition .lineOk c = .ok (d, status) ∧ d.Scanned ∧
      d.checkState = c.checkState ∧ d.readIndex = c.readIndex ∧
      (status = .lineOk → c.checkState ≠ .content → c.checkedIndex + 2 ≤ d.checkedIndex) := by
  by_cases hcontent : c.checkState = .content
  · exact ⟨c, .lineOk, if_pos ⟨hcontent, rfl⟩, hc, rfl, rfl, fun _ h => absurd hcontent h⟩
  · obtain ⟨d, status, hparse, hd, hstate, hread, hline⟩ := parseLine_scanned hc
    refine ⟨d, status, ?_, hd, hstate, hread, fun hstatus _ => hline hstatus⟩
    rw [loopCondition, if_neg (fun h => hcontent h.1), hparse]

theorem loopBody_sound (hc : c.Scanned) (hd : d.Scanned) (hstate : d.checkState = c.checkState)
    (hread : d.readIndex = c.readIndex)
    (hline : c.checkState ≠ .content → c.checkedIndex + 2 ≤ d.checkedIndex) :
    PassSound c (loopBody c d) := by
  have hstarted : Conn.Scanned { d with startLine := d.checkedIndex } :=
    ⟨⟨Nat.le_refl _, hd.checked, hd.size⟩, hd.ended⟩
  -- whatever the parser function does, the cursors are those behind the line
  have hsound {c' : Conn} (h : Conn.Blotted { d with startLine := d.checkedIndex } c') :
      Iteration.Sound ⟨c, c'⟩ :=
    ⟨hc.toOrdered, (h.scanned hstarted).toOrdered, fun hcontent => h.checked ▸ hline hcontent⟩
  have hagain {c' : Conn} (h : Conn.Blotted { d with startLine := d.checkedIndex } c')
      (hcontent : c.checkState ≠ .content) : PassSound c (.again ⟨c, c'⟩ (.lineOk, c')) :=
    ⟨hsound h, decide_eq_false hcontent, rfl, h.scanned hstarted, h.checked ▸ hline hcontent,
      h.buffer.length.trans hread⟩
  have hret {c' : Conn} (h : Conn.Blotted { d with startLine := d.checkedIndex } c') (v : Verdict) :
      PassSound c (.ret ⟨c, c'⟩ (.ok (c', v))) :=
    ⟨hsound h, Or.inl ⟨v, rfl, h.scanned hstarted⟩⟩
  unfold loopBody
  dsimp only
  cases hcheck : d.checkState with
  | requestLine =>
    have hcontent : c.checkState ≠ .content := by rw [← hstate, hcheck]; decide
    have hblotted := parseRequestLine_blotted { d with startLine := d.checkedIndex } d.startLine
    generalize parseRequestLine { d with startLine := d.checkedIndex } d.startLine = r at hblotted ⊢
    obtain ⟨c', code⟩ := r
    cases code with
    | badRequest => exact hret hblotted _
    | _ => exact hagain hblotted hcontent
  | header =>
    have hcontent : c.checkState ≠ .content := by rw [← hstate, hcheck]; decide
    have hblotted := parseHeaders_blotted { d with startLine := d.checkedIndex } d.startLine
    generalize parseHeaders { d with startLine := d.checkedIndex } d.startLine = r at hblotted ⊢
    obtain ⟨c', code | r⟩ := r
    · cases code with
      | noRequest => exact hagain hblotted hcontent
      | _ => exact hret hblotted _
    · exact hret hblotted _
  | content =>
    have hcontent : c.checkState = .content := by rw [← hstate, hcheck]
    cases hparse : parseContent { d with startLine := d.checkedIndex } d.startLine with
    | error f =>
      refine ⟨⟨hc.toOrdered, hstarted.toOrdered, fun h => absurd hcontent h⟩, Or.inr ⟨f, rfl, ?_, ?_⟩⟩
      · rintro rfl
        exact parseContent_ne_outOfFuel hparse
      · exact decide_eq_true hcontent
    | ok r =>
      obtain ⟨c', code | r⟩ := r
      · cases code with
        | noRequest => exact absurd rfl (parseContent_ne_noRequest hparse)
        | _ => exact hret (parseContent_blotted hparse) _
      · exact hret (parseContent_blotted hparse) _

theorem processReadPass_sound (hc : c.Scanned) : PassSound c (processReadPass (.lineOk, c)) := by
  obtain ⟨d, status, hcondition, hd, hstate, hread, hline⟩ := loopCondition_scanned hc
  by_cases hstatus : status = .lineOk
  · subst hstatus
    rw [processReadPass_lineOk hcondition]
    exact loopBody_sound hc hd hstate hread (hline rfl)
  · rw [processReadPass_stop hcondition hstatus]
    exact ⟨d, rfl, hd⟩

end Passes

inductive Call where
  | read (a : Arrival)
  | processRead

/-- The calls since `init()`, whatever they return. -/
inductive CallStep : Conn → Call → Conn → Prop where
  | read (c : Conn) (a : Arrival) : CallStep c (.read a) (c.read a).1
  | processRead {c c' : Conn} {v : Verdict} (hparse : processRead c = .ok (c', v)) :
      CallStep c .processRead c'

namespace Conn

variable {c c' : Conn}

theorem Scanned.read (hc : c.Scanned) (a : Arrival) : (c.read a).1.Scanned := by
  unfold Conn.read
  split_ifs with hfull
  · exact hc
  · obtain ⟨got, hgot, hsize⟩ := c.readLoop_spec a hc.size
    rw [hgot]
    exact hc.receive hsize

/-- What holds at the condition of the loop. -/
def AtCondition (s : LineStatus × Conn) : Prop := s.1 = .lineOk ∧ s.2.Scanned

theorem AtCondition.pass {s : LineStatus × Conn}
    {p : Pass (LineStatus × Conn) Iteration (Except Fault (Conn × Verdict))} (hs : AtCondition s)
    (hpass : processReadPass s = p) : PassSound s.2 p := by
  obtain ⟨status, c⟩ := s
  obtain ⟨rfl, hc⟩ := hs
  rw [← hpass]
  exact processReadPass_sound hc

/-- Every execution of the body but the last takes two of the bytes that are not yet scanned. -/
def unscanned (s : LineStatus × Conn) : ℕ := (s.2.readIndex - s.2.checkedIndex) / 2

theorem AtCondition.again {s s' : LineStatus × Conn} {e : Iteration} (hs : AtCondition s)
    (hpass : processReadPass s = .again e s') : AtCondition s' ∧ unscanned s' < unscanned s := by
  obtain ⟨-, -, rfl, hscanned, hlt, hread⟩ := hs.pass hpass
  have hchecked := hscanned.checked
  refine ⟨⟨rfl, hscanned⟩, ?_⟩
  unfold unscanned
  dsimp only
  omega

/-- What a call of `process_read` leaves behind. -/
def Returned (r : Except Fault (Conn × Verdict)) : Prop :=
  (∃ c v, r = .ok (c, v) ∧ c.Scanned) ∨ ∃ f, r = .error f ∧ f ≠ .outOfFuel

theorem AtCondition.loop {s : LineStatus × Conn} {es : List Iteration}
    {r : Except Fault (Conn × Verdict)} (hs : AtCondition s) (h : Loops processReadPass s es r) :
    (∀ e ∈ es, e.Sound) ∧ Returned r := by
  apply h.rule (I := AtCondition) _ _ _ hs
  · intro s b hs hpass
    obtain ⟨d, rfl, hd⟩ := hs.pass hpass
    exact Or.inl ⟨d, _, rfl, hd⟩
  · intro s e b hs hpass
    obtain ⟨he, ⟨v, rfl, hafter⟩ | ⟨f, rfl, hf, -⟩⟩ := hs.pass hpass
    · exact ⟨he, Or.inl ⟨_, v, rfl, hafter⟩⟩
    · exact ⟨he, Or.inr ⟨f, rfl, hf⟩⟩
  · intro s e s' hs hpass
    obtain ⟨he, -⟩ := hs.pass hpass
    exact ⟨he, (hs.again hpass).1⟩

theorem AtCondition.countP_inContent {s : LineStatus × Conn} {es : List Iteration}
    {r : Except Fault (Conn × Verdict)} (hs : AtCondition s) (h : Loops processReadPass s es r) :
    es.countP Iteration.InContent ≤ 1 := by
  apply h.countP_le_one (I := AtCondition) _ hs
  intro s e s' hs hpass
  obtain ⟨-, he, -⟩ := hs.pass hpass
  exact ⟨he, (hs.again hpass).1⟩

theorem AtCondition.inContent_of_error {s : LineStatus × Conn} {es : List Iteration}
    {r : Except Fault (Conn × Verdict)} (hs : AtCondition s) (h : Loops processReadPass s es r)
    {f : Fault} (hr : r = .error f) : ∃ e ∈ es, e.InContent = true := by
  apply h.exists_event (I := AtCondition) (Q := fun r => r = .error f) _ _ _ hs hr
  · rintro s b hs hpass rfl
    obtain ⟨d, hd, -⟩ := hs.pass hpass
    cases hd
  · rintro s e b hs hpass rfl
    obtain ⟨-, ⟨v, hv, -⟩ | ⟨f, -, -, he⟩⟩ := hs.pass hpass
    · cases hv
    · exact he
  · intro s e s' hs hpass
    exact (hs.again hpass).1

/-- The budget of `processRead` is never spent. -/
theorem Scanned.exists_loops (hc : c.Scanned) :
    ∃ es, Loops processReadPass (.lineOk, c) es (processRead c) ∧
      es.length ≤ (c.readIndex - c.checkedIndex) / 2 + 1 := by
  have hs : AtCondition (.lineOk, c) := ⟨rfl, hc⟩
  obtain ⟨es, r, hloops, hlength⟩ :=
    Loops.exists_of_measure unscanned (fun _ _ _ h hpass => h.again hpass) hs
  have hbudget : es.length < c.readIndex + 2 := by
    have hmeasure : unscanned (.lineOk, c) ≤ c.readIndex :=
      Nat.div_le_of_le_mul (Nat.le_trans (Nat.sub_le _ _) (Nat.le_mul_of_pos_left _ Nat.two_pos))
    omega
  have hresult : processRead c = r := by
    rw [processRead, processReadLoop_eq_runLoop]
    exact hloops.runLoop_eq _ _ hbudget
  exact ⟨es, hresult ▸ hloops, hlength⟩

theorem Scanned.processRead (hc : c.Scanned) {v : Verdict} (hparse : processRead c = .ok (c', v)) :
    c'.Scanned := by
  obtain ⟨es, hloops, -⟩ := hc.exists_loops
  have hs : AtCondition (.lineOk, c) := ⟨rfl, hc⟩
  obtain ⟨-, ⟨d, w, hd, hscanned⟩ | ⟨f, hf, -⟩⟩ := hs.loop hloops
  · rw [hparse] at hd
    cases hd
    exact hscanned
  · rw [hparse] at hf
    cases hf

theorem scanned_of_reaches {peer : Peer} (hreach : Reaches CallStep (accepted peer) c) : c.Scanned := by
  apply hreach.invariant _ (scanned_accepted peer)
  intro c l c' hc hstep
  cases hstep with
  | read a => exact hc.read a
  | processRead hparse => exact hc.processRead hparse

/-- **The parser ends with its cursors in order.** `es` are the executions of the loop body. A
fault is an undefined access of `parse_content`, and the cursors are in order there too. -/
theorem process_read_ends {peer : Peer} (hreach : Reaches CallStep (accepted peer) c) :
    c.Ordered ∧ (∀ c' v, Http.processRead c = .ok (c', v) → c'.Ordered) ∧
      (∀ f, Http.processRead c = .error f → f ≠ .outOfFuel) ∧
      ∃ es, Loops processReadPass (.lineOk, c) es (Http.processRead c) ∧
        (∀ e ∈ es, e.Sound) ∧ es.countP Iteration.InContent ≤ 1 ∧
        es.length ≤ (c.readIndex - c.checkedIndex) / 2 + 1 ∧
        (∀ n, es.length < n → processReadLoop n .lineOk c = Http.processRead c) ∧
        (∀ f, Http.processRead c = .error f → ∃ e ∈ es, e.InContent = true) := by
  have hc := scanned_of_reaches hreach
  have hs : AtCondition (.lineOk, c) := ⟨rfl, hc⟩
  obtain ⟨es, hloops, hlength⟩ := hc.exists_loops
  obtain ⟨hsound, hreturned⟩ := hs.loop hloops
  refine ⟨hc.toOrdered, ?_, ?_, es, hloops, hsound, hs.countP_inContent hloops, hlength, ?_, ?_⟩
  · intro c' v hparse
    exact (hc.processRead hparse).toOrdered
  · intro f hf
    obtain ⟨d, w, hd, -⟩ | ⟨f', hf', hfuel⟩ := hreturned
    · rw [hd] at hf
      cases hf
    · rw [hf'] at hf
      cases hf
      exact hfuel
  · intro n hn
    rw [processReadLoop_eq_runLoop]
    exact hloops.runLoop_eq _ n hn
  · intro f hf
    exact hs.inContent_of_error hloops hf

/-- A head that is cut between the CR and the LF of its second line, and parsed so far. -/
theorem cut_head_ends :
    ∃ c, Reaches CallStep (accepted ⟨5, []⟩) c ∧ c.checkState = .header ∧ c.checkedIndex = 33 ∧
      c.Ordered ∧ ∃ es, Loops processReadPass (.lineOk, c) es (Http.processRead c) := by
  have hread := CallStep.read (accepted ⟨5, []⟩)
    ⟨[ascii "GET /api/health HTTP/1.1\r\n", ascii "Host: a\r"], .again, .again⟩
  generalize hc : ((accepted ⟨5, []⟩).read
    ⟨[ascii "GET /api/health HTTP/1.1\r\n", ascii "Host: a\r"], .again, .again⟩).1 = c at hread
  have hcursors : (Http.processRead c).map (fun r => (r.1.checkState, r.1.checkedIndex)) =
      .ok (.header, 33) := by
    rw [← hc]
    decide +kernel
  cases hparse : Http.processRead c with
  | error f =>
    rw [hparse] at hcursors
    cases hcursors
  | ok r =>
    rw [hparse] at hcursors
    obtain ⟨hstate, hchecked⟩ := Prod.mk.inj (Except.ok.inj hcursors)
    have hreach : Reaches CallStep (accepted ⟨5, []⟩) r.1 :=
      (Runs.refl.snoc hread trivial).snoc (.processRead hparse) trivial
    obtain ⟨hordered, -, -, es, hloops, -⟩ := process_read_ends hreach
    exact ⟨r.1, hreach, hstate, hchecked, hordered, es, hloops⟩

end Conn

end Http
end ResourceServer

import ResourceServer.Http.Parser

/-!
# Reading a request head line by line

The reader below consumes a byte string one CRLF-terminated line at a time and keeps
only the parser variables and the target string. It stops when the request line is
rejected, when the header block ends, or when no line is left.
-/

namespace ResourceServer
namespace Http

open CString

def notEol (b : UInt8) : Bool := b != cr && b != lf

/-- The first line and the bytes after its CRLF. A CR or LF that is not part of a CRLF
ends no line. -/
def nextLine (bs : Bytes) : Option (Bytes × Bytes) :=
  match bs.dropWhile notEol with
  | 13 :: 10 :: rest => some (bs.takeWhile notEol, rest)
  | _ => none

def crlf : Bytes := [cr, lf]

theorem lf_ne_cr : lf ≠ cr := by decide

theorem nextLine_eq_some {bs line rest : Bytes} :
    nextLine bs = some (line, rest) ↔ bs = line ++ cr :: lf :: rest ∧ ∀ b ∈ line, notEol b := by
  constructor
  · intro h
    unfold nextLine at h
    split at h
    · rename_i tail heq
      simp only [Option.some.injEq, Prod.mk.injEq] at h
      obtain ⟨rfl, rfl⟩ := h
      refine ⟨?_, fun b hb => List.mem_takeWhile_imp hb⟩
      rw [← heq, List.takeWhile_append_dropWhile]
    · cases h
  · rintro ⟨rfl, hline⟩
    have hdrop : (line ++ cr :: lf :: rest).dropWhile notEol = cr :: lf :: rest := by
      rw [List.dropWhile_append_of_pos hline]
      rfl
    have htake : (line ++ cr :: lf :: rest).takeWhile notEol = line := by
      rw [List.takeWhile_append_of_pos hline]
      simp [notEol]
    simp [nextLine, hdrop, htake]

theorem nextLine_append {bs line rest : Bytes} (h : nextLine bs = some (line, rest)) (b : Bytes) :
    nextLine (bs ++ b) = some (line, rest ++ b) := by
  rw [nextLine_eq_some] at h ⊢
  refine ⟨?_, h.2⟩
  rw [h.1]
  simp

theorem nextLine_plain_append {clean : Bytes} (hclean : ∀ b ∈ clean, notEol b) (tail : Bytes) :
    nextLine (clean ++ tail) = (nextLine tail).map fun p => (clean ++ p.1, p.2) := by
  unfold nextLine
  rw [List.dropWhile_append_of_pos hclean, List.takeWhile_append_of_pos hclean]
  split <;> rfl

theorem nextLine_length {bs line rest : Bytes} (h : nextLine bs = some (line, rest)) :
    bs.length = line.length + 2 + rest.length := by
  rw [(nextLine_eq_some.mp h).1]
  simp
  omega

theorem nextLine_rest_lt {bs line rest : Bytes} (h : nextLine bs = some (line, rest)) :
    rest.length < bs.length := by
  rw [nextLine_length h]
  omega

/-- What stands after the bytes already scanned when no line is complete. -/
inductive Unfinished : Bytes → Prop where
  | empty : Unfinished []
  | carriage : Unfinished [cr]
  | bareCr (b : UInt8) (rest : Bytes) : b ≠ lf → Unfinished (cr :: b :: rest)
  | bareLf (rest : Bytes) : Unfinished (lf :: rest)

theorem unfinished_of_nextLine {bs : Bytes} (h : nextLine bs = none) :
    Unfinished (bs.dropWhile notEol) := by
  unfold nextLine at h
  cases hd : bs.dropWhile notEol with
  | nil => exact .empty
  | cons x tail =>
    have hx : notEol x = false := by
      have := List.head?_dropWhile_not notEol bs
      rw [hd] at this
      simpa using this
    have hcases : x = cr ∨ x = lf := by
      simp only [notEol, Bool.and_eq_false_iff, bne_eq_false_iff_eq] at hx
      exact hx
    rcases hcases with rfl | rfl
    · cases tail with
      | nil => exact .carriage
      | cons y rest =>
        refine .bareCr y rest ?_
        rintro rfl
        rw [hd] at h
        simp at h
    · exact .bareLf tail

/-- The parser variables and the target string. -/
structure Head where
  state : RequestState
  target : Bytes
  deriving DecidableEq, Repr

namespace Head

def initial : Head := ⟨.initial, []⟩

theorem initial_checkState : initial.state.checkState = .requestLine := rfl

/-- `parse_request_line` on the text of the line; `none` is `BAD_REQUEST`. -/
def requestLine (h : Head) (line : Bytes) : Option Head :=
  match strpbrk line blanks with
  | none => none
  | some i =>
    let rest := line.drop (i + 1)
    match strpbrk rest blanks with
    | none => none
    | some j =>
      let url := rest.take j
      if !strcasecmp (rest.drop (j + 1)) (ascii "HTTP/1.1") then none
      else
        match pathOffset url with
        | none => none
        | some k =>
          if (url.drop k).head? ≠ some slash then none
          else some
            { state := { h.state with
                method := methodOf (line.take i) h.state.method
                apireq := routeOf url h.state.apireq
                checkState := .header }
              target := url.drop k }

def headerLine (h : Head) (line : Bytes) : Head := { h with state := h.state.headerLine line }

end Head

/-- How far a head can be read. -/
inductive Progress where
  | incomplete (h : Head) (pending : Bytes)
  | rejected (h : Head) (rest : Bytes)
  | complete (h : Head) (rest : Bytes)

namespace Head

def read (h : Head) (pending : Bytes) : Progress :=
  match hline : nextLine pending with
  | none => .incomplete h pending
  | some (line, rest) =>
    have : rest.length < pending.length := nextLine_rest_lt hline
    if h.state.checkState = .requestLine then
      match h.requestLine (cstr line) with
      | none => .rejected h rest
      | some h' => read h' rest
    else if cstr line = [] then .complete h rest
    else read (h.headerLine (cstr line)) rest
termination_by pending.length

theorem read_none {h : Head} {pending : Bytes} (hline : nextLine pending = none) :
    h.read pending = .incomplete h pending := by
  rw [read]
  split
  · rfl
  · simp_all

theorem read_some {h : Head} {pending line rest : Bytes}
    (hline : nextLine pending = some (line, rest)) :
    h.read pending =
      if h.state.checkState = .requestLine then
        match h.requestLine (cstr line) with
        | none => .rejected h rest
        | some h' => read h' rest
      else if cstr line = [] then .complete h rest
      else read (h.headerLine (cstr line)) rest := by
  rw [read]
  split
  · simp_all
  · rename_i line' rest' heq
    rw [hline] at heq
    cases heq
    rfl

end Head

def Progress.IsIncomplete : Progress → Prop
  | .incomplete _ _ => True
  | _ => False

/-- What `more` bytes add to a read. -/
def Progress.resume (more : Bytes) : Progress → Progress
  | .incomplete h pending => h.read (pending ++ more)
  | .rejected h rest => .rejected h (rest ++ more)
  | .complete h rest => .complete h (rest ++ more)

namespace Head

/-- An accepted request line sets three of the parser variables. -/
theorem requestLine_frame {h h' : Head} {line : Bytes} (hread : h.requestLine line = some h') :
    ∃ method apireq, h'.state =
      { h.state with method := method, apireq := apireq, checkState := .header } := by
  unfold requestLine at hread
  split at hread
  · cases hread
  · dsimp only at hread
    split at hread
    · cases hread
    · split_ifs at hread
      split at hread
      · cases hread
      · split_ifs at hread
        cases hread
        exact ⟨_, _, rfl⟩

theorem requestLine_checkState {h h' : Head} {line : Bytes} (hread : h.requestLine line = some h') :
    h'.state.checkState = .header := by
  obtain ⟨method, apireq, hstate⟩ := requestLine_frame hread
  rw [hstate]

end Head

namespace RequestState

theorem headerLine_checkState (s : RequestState) (line : Bytes) :
    (s.headerLine line).checkState = s.checkState := by
  unfold headerLine
  split_ifs <;> simp only <;> split_ifs <;> rfl

theorem headerLine_method (s : RequestState) (line : Bytes) :
    (s.headerLine line).method = s.method := by
  unfold headerLine
  split_ifs <;> simp only <;> split_ifs <;> rfl

theorem headerLine_contentLength (s : RequestState) (line : Bytes) :
    (s.headerLine line).contentLength =
      if ¬ strncasecmp line (ascii "Connection:") 11 ∧
          strncasecmp line (ascii "Content-Length:") 15 then
        toInt32 (atol (skipBlanks (line.drop 15)))
      else s.contentLength := by
  unfold headerLine
  split_ifs <;> simp_all <;> split_ifs <;> rfl

end RequestState

namespace Head

/-- An incomplete read goes on from where it stopped; the others keep their outcome. -/
theorem read_append (h : Head) (pending more : Bytes) :
    h.read (pending ++ more) = (h.read pending).resume more := by
  fun_induction read h pending with
  | case1 h pending hline => rfl
  | case2 h pending line rest hline hlen hstate hreq =>
    rw [read_some (nextLine_append hline more), if_pos hstate, hreq]
    rfl
  | case3 h pending line rest hline hlen hstate h' hreq ih =>
    rw [read_some (nextLine_append hline more), if_pos hstate, hreq]
    exact ih
  | case4 h pending line rest hline hlen hstate hempty =>
    rw [read_some (nextLine_append hline more), if_neg hstate, if_pos hempty]
    rfl
  | case5 h pending line rest hline hlen hstate hempty ih =>
    rw [read_some (nextLine_append hline more), if_neg hstate, if_neg hempty]
    exact ih

theorem read_incomplete {h h' : Head} {pending pending' : Bytes}
    (hread : h.read pending = .incomplete h' pending') :
    h'.read pending' = .incomplete h' pending' := by
  have := read_append h pending []
  rw [hread, List.append_nil, hread] at this
  simpa [Progress.resume] using this.symm

end Head

end Http
end ResourceServer

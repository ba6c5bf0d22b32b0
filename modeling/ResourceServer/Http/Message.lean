import ResourceServer.Foundation.Delimited
import ResourceServer.Http.Framing
import ResourceServer.Http.Fragmentation

/-!
# Messages as a client reads them

A client takes lines off the stream up to the blank one, looks for the announced length and
takes that many bytes for the body. It knows nothing else of the server.
-/

namespace ResourceServer
namespace Http

open CString

structure Message where
  startLine : Bytes
  headers : List Bytes
  body : Bytes
  deriving DecidableEq, Repr

namespace Message

def encode (m : Message) : Bytes := lines (m.startLine :: m.headers) ++ crlf ++ m.body

/-- The value of the first `Content-Length`. -/
def announced (headers : List Bytes) : Option ℕ :=
  (headers.find? fun line => strncasecmp line (ascii "Content-Length:") 15).map fun line =>
    digitsValue ((skipBlanks (line.drop 15)).takeWhile isDigit)

/-- The lines up to the blank one, at most `fuel` of them. -/
def block : ℕ → Decoder (List Bytes) UInt8
  | 0, _ => none
  | fuel + 1, s =>
    match nextLine s with
    | none => none
    | some (line, rest) =>
      if line = [] then some ([], rest)
      else (block fuel rest).map fun p => (line :: p.1, p.2)

def decode : Decoder Message UInt8 := fun s =>
  match block s.length s with
  | none | some ([], _) => none
  | some (startLine :: headers, rest) =>
    match announced headers with
    | none => none
    | some n =>
      if n ≤ rest.length then some (⟨startLine, headers, rest.take n⟩, rest.drop n) else none

/-- The messages that a client can tell apart from what follows them. -/
structure WellFormed (m : Message) : Prop where
  plain : ∀ line ∈ m.startLine :: m.headers, ∀ b ∈ line, notEol b
  ne_nil : ∀ line ∈ m.startLine :: m.headers, line ≠ []
  length : announced m.headers = some m.body.length

theorem nextLine_line {line : Bytes} (hplain : ∀ b ∈ line, notEol b) (rest : Bytes) :
    nextLine (line ++ crlf ++ rest) = some (line, rest) :=
  nextLine_eq_some.mpr ⟨List.append_assoc line crlf rest, hplain⟩

theorem block_lines (ls : List Bytes) (hplain : ∀ line ∈ ls, ∀ b ∈ line, notEol b)
    (hne : ∀ line ∈ ls, line ≠ []) (rest : Bytes) {fuel : ℕ} (hfuel : ls.length < fuel) :
    block fuel (lines ls ++ crlf ++ rest) = some (ls, rest) := by
  induction ls generalizing fuel with
  | nil =>
    obtain ⟨fuel, rfl⟩ := Nat.exists_eq_add_one.mpr hfuel
    rw [block, lines_nil, nextLine_line (by simp)]
    rfl
  | cons line ls ih =>
    rw [List.length_cons] at hfuel
    obtain ⟨fuel, rfl⟩ : ∃ n, fuel = n + 1 := Nat.exists_eq_add_one.mpr (by omega)
    have hrest : lines (line :: ls) ++ crlf ++ rest = line ++ crlf ++ (lines ls ++ crlf ++ rest) := by
      simp only [lines_cons, List.append_assoc]
    have hfuel' : ls.length < fuel := by omega
    have hblock := ih (fun l hl => hplain l (List.mem_cons_of_mem _ hl))
      (fun l hl => hne l (List.mem_cons_of_mem _ hl)) hfuel'
    rw [hrest, block, nextLine_line (hplain line List.mem_cons_self)]
    dsimp only
    rw [if_neg (hne line List.mem_cons_self), hblock]
    rfl

theorem block_append {fuel fuel' : ℕ} {s rest : Bytes} {ls : List Bytes}
    (h : block fuel s = some (ls, rest)) (hfuel : fuel ≤ fuel') (more : Bytes) :
    block fuel' (s ++ more) = some (ls, rest ++ more) := by
  induction fuel generalizing fuel' s ls with
  | zero => cases h
  | succ fuel ih =>
    obtain ⟨fuel', rfl⟩ : ∃ n, fuel' = n + 1 := Nat.exists_eq_add_one.mpr (by omega)
    rw [block] at h
    split at h
    · cases h
    · next line after hline =>
      rw [block, nextLine_append hline more]
      dsimp only
      split_ifs at h ⊢ with hblank
      · cases h
        rfl
      · obtain ⟨⟨ls', rest'⟩, hblock, hp⟩ := Option.map_eq_some_iff.mp h
        cases hp
        rw [ih hblock (by omega)]
        rfl

theorem block_shorter {fuel : ℕ} {s rest : Bytes} {ls : List Bytes}
    (h : block fuel s = some (ls, rest)) : rest.length < s.length := by
  induction fuel generalizing s ls with
  | zero => cases h
  | succ fuel ih =>
    rw [block] at h
    split at h
    · cases h
    · next line after hline =>
      have hlt := nextLine_rest_lt hline
      split_ifs at h with hblank
      · cases h
        exact hlt
      · obtain ⟨⟨ls', rest'⟩, hblock, hp⟩ := Option.map_eq_some_iff.mp h
        cases hp
        exact (ih hblock).trans hlt

theorem decode_eq_some {s rest : Bytes} {m : Message} (h : decode s = some (m, rest)) :
    ∃ after n, block s.length s = some (m.startLine :: m.headers, after) ∧
      announced m.headers = some n ∧ n ≤ after.length ∧ m.body = after.take n ∧
      rest = after.drop n := by
  unfold decode at h
  split at h
  · cases h
  · cases h
  · next startLine headers after hblock =>
    split at h
    · cases h
    · next n hn =>
      split_ifs at h with hle
      cases h
      exact ⟨after, n, hblock, hn, hle, rfl, rfl⟩

theorem decode_of_block {s after : Bytes} {startLine : Bytes} {headers : List Bytes} {n : ℕ}
    (hblock : block s.length s = some (startLine :: headers, after))
    (hn : announced headers = some n) (hle : n ≤ after.length) :
    decode s = some (⟨startLine, headers, after.take n⟩, after.drop n) := by
  rw [decode, hblock]
  dsimp only
  rw [hn]
  exact if_pos hle

theorem lines_length_le (ls : List Bytes) : ls.length ≤ (lines ls).length := by
  induction ls with
  | nil => exact Nat.le_refl 0
  | cons line ls ih =>
    have hcrlf : crlf.length = 2 := rfl
    simp only [lines_cons, List.length_append, List.length_cons, hcrlf]
    omega

/-- **A message on the wire.** A client reads back what was sent, and reading on does not change it. -/
theorem inverts : Decoder.Inverts decode encode WellFormed where
  encoded m hm rest := by
    have hsize : (m.startLine :: m.headers).length < (m.encode ++ rest).length := by
      have hle := lines_length_le (m.startLine :: m.headers)
      have hcrlf : crlf.length = 2 := rfl
      rw [encode, List.length_append, List.length_append, List.length_append, hcrlf]
      omega
    have hblock := block_lines (m.startLine :: m.headers) hm.plain hm.ne_nil (m.body ++ rest) hsize
    rw [← List.append_assoc, ← encode] at hblock
    have hle : m.body.length ≤ (m.body ++ rest).length := by simp
    rw [decode_of_block hblock hm.length hle, List.take_left, List.drop_left]
  append {s m rest} h more := by
    obtain ⟨after, n, hblock, hn, hle, hbody, rfl⟩ := decode_eq_some h
    have hlonger : s.length ≤ (s ++ more).length := by simp
    have hle' : n ≤ (after ++ more).length := by
      rw [List.length_append]
      omega
    rw [decode_of_block (block_append hblock hlonger more) hn hle', List.take_append_of_le_length hle,
      List.drop_append_of_le_length hle, ← hbody]
  shorter {s m rest} h := by
    obtain ⟨after, n, hblock, -, -, -, rfl⟩ := decode_eq_some h
    have hlt := block_shorter hblock
    rw [List.length_drop]
    omega

end Message

namespace Reply

/-- The reply with the `Connection` setting of its request. -/
def message (r : Reply) (linger : Bool) : Message where
  startLine := r.statusLine
  headers := [contentLength r.body.length, r.contentType, connection linger]
  body := r.body

theorem message_encode (r : Reply) (linger : Bool) :
    (r.message linger).encode = r.head r.body.length linger ++ r.body := by
  have hcrlf : ascii "\r\n" = crlf := rfl
  simp only [Message.encode, message, head, Reply.lines, Http.lines, hcrlf, List.flatMap_def]

theorem skipBlanks_number (n : ℕ) : skipBlanks (32 :: Decimal.ofNat n) = Decimal.ofNat n := by
  have hfirst : (Decimal.ofNat n).takeWhile (blanks.contains ·) = [] := by
    cases hdigits : Decimal.ofNat n with
    | nil => rfl
    | cons b rest =>
      have hdigit : isDigit b = true := Decimal.isDigit_of_mem (hdigits ▸ List.mem_cons_self)
      refine List.takeWhile_cons_of_neg fun hblank => ?_
      have hmem : b = 32 ∨ b = 9 := by simpa [blanks, ascii] using hblank
      rcases hmem with rfl | rfl <;> cases hdigit
  rw [skipBlanks, strspn, List.takeWhile_cons_of_pos (by decide), hfirst]
  rfl

theorem announced_message (r : Reply) (linger : Bool) :
    Message.announced (r.message linger).headers = some r.body.length := by
  have hname : strncasecmp (contentLength r.body.length) (ascii "Content-Length:") 15 = true := by
    simp [contentLength, strncasecmp, strcasecmp, ascii]
  have hdrop : (contentLength r.body.length).drop 15 = 32 :: Decimal.ofNat r.body.length := rfl
  have hdigits : (Decimal.ofNat r.body.length).takeWhile isDigit = Decimal.ofNat r.body.length :=
    List.takeWhile_eq_self_iff.mpr fun b hb => Decimal.isDigit_of_mem hb
  have hfind : (r.message linger).headers.find? (fun line => strncasecmp line (ascii "Content-Length:") 15) =
      some (contentLength r.body.length) := List.find?_cons_of_pos hname
  rw [Message.announced, hfind, Option.map_some, hdrop, skipBlanks_number, hdigits,
    Decimal.digitsValue_ofNat]

theorem message_wellFormed {r : Reply} (hr : r.Printable) (linger : Bool) :
    (r.message linger).WellFormed where
  plain line hline b hb := by
    have hline : line ∈ r.lines r.body.length linger := hline
    obtain ⟨hcr, hlf⟩ := lines_unbroken hr line hline b hb
    rw [notEol, Bool.and_eq_true, bne_iff_ne, bne_iff_ne]
    exact ⟨hcr, hlf⟩
  ne_nil line hline := by
    have hcases : line = r.statusLine ∨ line = contentLength r.body.length ∨ line = r.contentType ∨
        line = connection linger := by simpa [message] using hline
    rcases hcases with rfl | rfl | rfl | rfl <;>
      simp [statusLine, contentLength, contentType, connection, ascii]
  length := announced_message r linger

end Reply

end Http
end ResourceServer

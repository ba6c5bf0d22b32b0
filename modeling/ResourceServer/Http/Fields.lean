import ResourceServer.Http.ContentLength

/-!
# Header fields

Header lines as clients write them: a name, a colon and a blank, and a value. Whatever other
fields stand around them, the parser reads the token and the length of the fields that are
named so.
-/

namespace ResourceServer
namespace Http

open CString

def fieldLine (f : Bytes × Bytes) : Bytes := f.1 ++ 58 :: 32 :: f.2

/-- Names are compared without regard to case. -/
def named (name : Bytes) (f : Bytes × Bytes) : Bool := strcasecmp f.1 name

def valuesOf (name : Bytes) (fields : List (Bytes × Bytes)) : List Bytes :=
  (fields.filter (named name)).map Prod.snd

theorem toLower_eq_colon {b : UInt8} : toLower b = 58 ↔ b = 58 := by
  constructor
  · intro h
    unfold toLower at h
    split_ifs at h with hupper
    · have hb := hupper
      simp only [UInt8.le_iff_toNat_le] at hb
      have hsum : (b + 32).toNat = 58 := congrArg UInt8.toNat h
      simp only [UInt8.toNat_add, UInt8.reduceToNat] at hsum hb
      omega
    · exact h
  · rintro rfl
    rfl

theorem colon_notMem_map_toLower {s : Bytes} (hs : 58 ∉ s) : 58 ∉ s.map toLower := by
  intro h
  obtain ⟨b, hb, hlower⟩ := List.mem_map.mp h
  exact hs (toLower_eq_colon.mp hlower ▸ hb)

theorem takeWhile_colon {s : Bytes} (hs : 58 ∉ s) (rest : Bytes) :
    (s ++ 58 :: rest).takeWhile (· ≠ 58) = s := by
  have hall : ∀ b ∈ s, decide (b ≠ 58) = true := by
    intro b hb
    rw [decide_eq_true_eq]
    rintro rfl
    exact hs hb
  rw [List.takeWhile_append_of_pos hall, List.takeWhile_cons_of_neg (by simp), List.append_nil]

theorem strncasecmp_fieldLine {name : Bytes} (hname : 58 ∉ name) {f : Bytes × Bytes} (hf : 58 ∉ f.1) :
    strncasecmp (fieldLine f) (name ++ [58]) (name.length + 1) = named name f := by
  have hpattern : (name ++ [58]).take (name.length + 1) = name ++ [58] := List.take_of_length_le (by simp)
  rw [strncasecmp, hpattern, named, Bool.eq_iff_iff]
  simp only [strcasecmp, beq_iff_eq, List.map_append, List.map_take]
  have hline : (fieldLine f).map toLower = f.1.map toLower ++ 58 :: (32 :: f.2).map toLower := by
    rw [fieldLine, List.map_append, List.map_cons]
    rfl
  rw [hline]
  constructor
  · intro h
    have hsplit := List.take_append_drop (name.length + 1) (f.1.map toLower ++ 58 :: (32 :: f.2).map toLower)
    rw [h, List.append_assoc] at hsplit
    have hsame := congrArg (List.takeWhile (· ≠ 58)) hsplit
    rw [takeWhile_colon (colon_notMem_map_toLower hf)] at hsame
    exact hsame.symm.trans (takeWhile_colon (colon_notMem_map_toLower hname) _)
  · intro h
    rw [h, List.take_append, List.length_map, List.take_of_length_le (by simp),
      Nat.add_sub_cancel_left]
    rfl

theorem lastValue_fields {α : Type} {name : Bytes} {value? read : Bytes → Option α}
    {fields : List (Bytes × Bytes)}
    (hread : ∀ f ∈ fields, value? (fieldLine f) = if named name f then read f.2 else none) :
    lastValue value? (fields.map fieldLine) = lastValue read (valuesOf name fields) := by
  induction fields using List.reverseRecOn with
  | nil => rfl
  | append_singleton fields f ih =>
    have hf := hread f (by simp)
    rw [List.map_append, List.map_cons, List.map_nil, lastValue_append,
      ih fun g hg => hread g (List.mem_append_left _ hg), hf, valuesOf, valuesOf, List.filter_append,
      List.map_append]
    cases hnamed : named name f with
    | true =>
      rw [List.filter_cons_of_pos hnamed, List.filter_nil, List.map_cons, List.map_nil, lastValue_append,
        if_pos rfl]
    | false =>
      rw [List.filter_cons_of_neg (by rw [hnamed]; exact Bool.false_ne_true), List.filter_nil,
        List.map_nil, List.append_nil]
      rfl

theorem drop_fieldLine {name : Bytes} {f : Bytes × Bytes} (h : named name f = true) :
    (fieldLine f).drop (name.length + 1) = 32 :: f.2 := by
  have hlength : f.1.length = name.length := by
    simpa using congrArg List.length (beq_iff_eq.mp h)
  rw [fieldLine, ← hlength, List.drop_append, List.drop_of_length_le (by omega), Nat.add_sub_cancel_left]
  rfl

theorem skipBlanks_cons (s : Bytes) : skipBlanks (32 :: s) = skipBlanks s := by
  rw [skipBlanks_eq, skipBlanks_eq]
  rfl

/-- The token of an `Authorization` value. -/
def bearerToken? (value : Bytes) : Option Bytes :=
  let auth := skipBlanks value
  if (ascii "Bearer ").isPrefixOf auth then some (auth.drop 7) else none

theorem bearer?_fieldLine {f : Bytes × Bytes} (hf : 58 ∉ f.1) : bearer? (fieldLine f) =
    if named (ascii "Authorization") f then bearerToken? f.2 else none := by
  have hname : 58 ∉ ascii "Authorization" := by decide
  have hmatch := strncasecmp_fieldLine hname hf
  rw [bearer?]
  rw [show strncasecmp (fieldLine f) (ascii "Authorization:") 14 = named (ascii "Authorization") f from hmatch]
  cases hnamed : named (ascii "Authorization") f with
  | true =>
    have hdrop : (fieldLine f).drop 14 = 32 :: f.2 := drop_fieldLine hnamed
    simp only [hdrop, skipBlanks_cons, bearerToken?]
  | false => rfl

theorem contentLength?_fieldLine {f : Bytes × Bytes} (hf : 58 ∉ f.1) : contentLength? (fieldLine f) =
    if named (ascii "Content-Length") f then some (announced (skipBlanks f.2)) else none := by
  have hname : 58 ∉ ascii "Content-Length" := by decide
  have hmatch := strncasecmp_fieldLine hname hf
  rw [contentLength?]
  rw [show strncasecmp (fieldLine f) (ascii "Content-Length:") 15 = named (ascii "Content-Length") f from
    hmatch]
  cases hnamed : named (ascii "Content-Length") f with
  | true =>
    have hdrop : (fieldLine f).drop 15 = 32 :: f.2 := drop_fieldLine hnamed
    simp only [hdrop, skipBlanks_cons, announced]
  | false => rfl

/-- A printed length is read back. -/
theorem announced_ofNat {n : ℕ} (hn : n < readBufferSize) :
    announced (skipBlanks (Decimal.ofNat n)) = n := by
  have hdigits : ∀ b ∈ Decimal.ofNat n, isDigit b = true := fun b hb => Decimal.isDigit_of_mem hb
  have hblank : skipBlanks (Decimal.ofNat n) = Decimal.ofNat n := by
    rw [skipBlanks_eq, List.dropWhile_eq_self_iff]
    intro hpos
    have hdigit := hdigits _ (List.getElem_mem hpos)
    intro hblank
    have hspace : (Decimal.ofNat n)[0] = 32 ∨ (Decimal.ofNat n)[0] = 9 := by
      simpa [blanks, ascii] using hblank
    rcases hspace with h | h
    · rw [h] at hdigit
      exact absurd hdigit (by decide)
    · rw [h] at hdigit
      exact absurd hdigit (by decide)
  have hlength : IsLength (Decimal.ofNat n) := by
    constructor
    · simp only [isNumber, Bool.and_eq_true, Bool.not_eq_true', List.isEmpty_eq_false_iff, List.all_eq_true]
      exact ⟨Decimal.ofNat_ne_nil n, hdigits⟩
    · rw [Decimal.digitsValue_ofNat]
      simp only [readBufferSize] at hn
      simp only [intMax]
      omega
  rw [hblank, announced_of_isLength hlength, Decimal.digitsValue_ofNat]

theorem Head.foldl_target (headers : List Bytes) (h : Head) :
    (headers.foldl (fun h line => h.headerLine (cstr line)) h).target = h.target := by
  induction headers generalizing h with
  | nil => rfl
  | cons line headers ih => exact ih _

end Http
end ResourceServer

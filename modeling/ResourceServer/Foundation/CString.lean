import Mathlib.Data.Int.Basic
import Mathlib.Data.List.Basic
import Mathlib.Data.List.TakeWhile
import Mathlib.Tactic

/-!
# Byte strings and the C string library

A `std::string` or a `char` buffer is a list of bytes. A C string is the part of
one before its first NUL. The functions below are the library calls of the C
locale: comparison with a length bound, case folding, character search, the
saturating `strtol`, and the narrowing of a `long` to an `int`.
-/

namespace ResourceServer

abbrev Bytes := List UInt8

def ascii (s : String) : Bytes := s.toList.map fun c => UInt8.ofNat c.toNat

namespace CString

abbrev nul : UInt8 := 0
abbrev cr : UInt8 := 13
abbrev lf : UInt8 := 10

/-- The C string that starts at the head of `b`. -/
def cstr (b : Bytes) : Bytes := b.takeWhile (· != nul)

theorem cstr_append_nul (a b : Bytes) (ha : nul ∈ a) : cstr (a ++ b) = cstr a := by
  induction a with
  | nil => simp at ha
  | cons x xs ih =>
    by_cases hx : x = nul
    · simp [cstr, hx]
    · have hmem : nul ∈ xs := by
        rcases List.mem_cons.mp ha with h | h
        · exact absurd h.symm hx
        · exact h
      have := ih hmem
      simp only [cstr] at this
      simp [cstr, hx, this]

theorem cstr_of_not_mem (a b : Bytes) (ha : nul ∉ a) : cstr (a ++ nul :: b) = a := by
  induction a with
  | nil => simp [cstr]
  | cons x xs ih =>
    simp only [List.mem_cons, not_or] at ha
    have := ih ha.2
    simp only [cstr] at this
    simp [cstr, Ne.symm ha.1, this]

theorem nul_notMem_cstr (a : Bytes) : nul ∉ cstr a := by
  intro h
  have := List.mem_takeWhile_imp h
  simp at this

theorem cstr_eq_self {a : Bytes} (ha : nul ∉ a) : cstr a = a := by
  rw [cstr, List.takeWhile_eq_self_iff]
  intro x hx
  have : x ≠ nul := fun h => ha (h ▸ hx)
  simpa using this

/-- Two zero bytes written after a line end its C string there. -/
theorem cstr_line (line rest : Bytes) : cstr (line ++ nul :: rest) = cstr line := by
  by_cases h : nul ∈ line
  · exact cstr_append_nul line _ h
  · rw [cstr_of_not_mem line rest h, cstr_eq_self h]

def toLower (b : UInt8) : UInt8 := if 65 ≤ b ∧ b ≤ 90 then b + 32 else b

/-- `strncmp(s, t, n) == 0` for C strings. -/
def strncmp (s t : Bytes) (n : ℕ) : Bool := s.take n == t.take n

/-- `strcasecmp(s, t) == 0`. -/
def strcasecmp (s t : Bytes) : Bool := s.map toLower == t.map toLower

/-- `strncasecmp(s, t, n) == 0`. -/
def strncasecmp (s t : Bytes) (n : ℕ) : Bool := strcasecmp (s.take n) (t.take n)

/-- Offset of the first byte of `s` that occurs in `accept`. -/
def strpbrk (s accept : Bytes) : Option ℕ := s.findIdx? (accept.contains ·)

/-- Offset of the first `c` in `s`. -/
def strchr (s : Bytes) (c : UInt8) : Option ℕ := s.findIdx? (· == c)

/-- Length of the prefix of `s` made of bytes of `accept`. -/
def strspn (s accept : Bytes) : ℕ := (s.takeWhile (accept.contains ·)).length

def isSpace (b : UInt8) : Bool := b == 32 || (9 ≤ b && b ≤ 13)

def isDigit (b : UInt8) : Bool := 48 ≤ b && b ≤ 57

/-- The number a run of decimal digits denotes. -/
def digitsValue (ds : Bytes) : ℕ := ds.foldl (fun n d => n * 10 + (d.toNat - 48)) 0

def clampLong (n : ℤ) : ℤ := max (-2 ^ 63) (min (2 ^ 63 - 1) n)

def splitSign : Bytes → Bool × Bytes
  | 45 :: s => (true, s)
  | 43 :: s => (false, s)
  | s => (false, s)

/-- `strtol(s, &end, 10)`: the value, and what `end` points at. Without a digit
nothing is consumed. -/
def strtol (s : Bytes) : ℤ × Bytes :=
  let signed := splitSign (s.dropWhile isSpace)
  let digits := signed.2.takeWhile isDigit
  if digits = [] then (0, s)
  else
    let value : ℤ := digitsValue digits
    (clampLong (if signed.1 then -value else value), signed.2.drop digits.length)

def atol (s : Bytes) : ℤ := (strtol s).1

/-- Narrowing to a 32-bit `int`. -/
def toInt32 (n : ℤ) : ℤ := n.bmod (2 ^ 32)

abbrev intMax : ℤ := 2 ^ 31 - 1

theorem toInt32_range (n : ℤ) : -2 ^ 31 ≤ toInt32 n ∧ toInt32 n ≤ intMax := by
  have h1 := Int.le_bmod (x := n) (m := 2 ^ 32) (by norm_num)
  have h2 := Int.bmod_lt (x := n) (m := 2 ^ 32) (by norm_num)
  norm_num at h1 h2
  simp only [toInt32, intMax]
  norm_num
  omega

theorem toInt32_of_range {n : ℤ} (h1 : -2 ^ 31 ≤ n) (h2 : n ≤ intMax) : toInt32 n = n := by
  simp only [intMax] at h2
  unfold toInt32
  rw [Int.bmod_eq_of_le] <;> norm_num at * <;> omega

example : atol (ascii " -12x") = -12 := by decide
example : toInt32 (atol (ascii "4294967295")) = -1 := by decide

theorem cstr_append_of_notMem {a : Bytes} (ha : nul ∉ a) (b : Bytes) : cstr (a ++ b) = a ++ cstr b := by
  rw [cstr, List.takeWhile_append_of_pos]
  · rfl
  · intro x hx
    have : x ≠ nul := fun h => ha (h ▸ hx)
    simpa using this

theorem cstr_isPrefix (s : Bytes) : cstr s <+: s := List.takeWhile_prefix _

theorem dropWhile_cstr {p : UInt8 → Bool} (hp : p nul = false) (s : Bytes) :
    (cstr s).dropWhile p = cstr (s.dropWhile p) := by
  induction s with
  | nil => rfl
  | cons b s ih =>
    by_cases hb : b = nul
    · subst hb
      simp [cstr, hp]
    · have hcons : cstr (b :: s) = b :: cstr s := by simp [cstr, hb]
      rw [hcons]
      by_cases hpb : p b = true
      · rw [List.dropWhile_cons_of_pos hpb, List.dropWhile_cons_of_pos hpb, ih]
      · rw [List.dropWhile_cons_of_neg hpb, List.dropWhile_cons_of_neg hpb, hcons]

theorem takeWhile_cstr {p : UInt8 → Bool} (hp : p nul = false) (s : Bytes) :
    (cstr s).takeWhile p = s.takeWhile p := by
  induction s with
  | nil => rfl
  | cons b s ih =>
    by_cases hb : b = nul
    · subst hb
      simp [cstr, hp]
    · have hcons : cstr (b :: s) = b :: cstr s := by simp [cstr, hb]
      rw [hcons, List.takeWhile_cons, List.takeWhile_cons, ih]

theorem splitSign_cstr (s : Bytes) : splitSign (cstr s) = ((splitSign s).1, cstr (splitSign s).2) := by
  cases s with
  | nil => rfl
  | cons b s =>
    by_cases hb : b = nul
    · subst hb
      rfl
    · have hcons : cstr (b :: s) = b :: cstr s := by simp [cstr, hb]
      rw [hcons]
      unfold splitSign
      split <;> rename_i heq
      · cases heq
        rfl
      · cases heq
        rfl
      · split <;> simp_all

/-- A number ends in front of a NUL anyway. -/
theorem atol_cstr (s : Bytes) : atol (cstr s) = atol s := by
  unfold atol strtol
  simp only [dropWhile_cstr (p := isSpace) rfl, splitSign_cstr, takeWhile_cstr (p := isDigit) rfl]
  split_ifs <;> rfl

theorem toLower_eq_nul {b : UInt8} (h : toLower b = nul) : b = nul := by
  unfold toLower at h
  split_ifs at h with hupper
  · have hb := hupper
    simp only [UInt8.le_iff_toNat_le] at hb
    have hsum : (b + 32).toNat = 0 := congrArg UInt8.toNat h
    simp only [UInt8.toNat_add, UInt8.reduceToNat] at hsum hb
    omega
  · exact h

theorem nul_notMem_of_map_toLower {s t : Bytes} (ht : nul ∉ t) (h : s.map toLower = t.map toLower) :
    nul ∉ s := by
  intro hs
  have hmem : nul ∈ t.map toLower := h ▸ List.mem_map.mpr ⟨nul, hs, rfl⟩
  obtain ⟨b, hb, hlower⟩ := List.mem_map.mp hmem
  exact ht (toLower_eq_nul hlower ▸ hb)

/-- A match of a name without NULs lies in front of the first NUL. -/
theorem strncasecmp_split {s t : Bytes} {n : ℕ} (hn : t.length = n) (ht : nul ∉ t)
    (h : strncasecmp s t n = true) : cstr s = s.take n ++ cstr (s.drop n) ∧ (s.take n).length = n := by
  have heq : (s.take n).map toLower = t.map toLower := by
    simpa [strncasecmp, strcasecmp, ← hn] using h
  have hlen : (s.take n).length = n := by simpa [hn] using congrArg List.length heq
  refine ⟨?_, hlen⟩
  conv_lhs => rw [← List.take_append_drop n s]
  exact cstr_append_of_notMem (nul_notMem_of_map_toLower ht heq) _

theorem strncasecmp_cstr {t : Bytes} {n : ℕ} (hn : t.length = n) (ht : nul ∉ t) (s : Bytes) :
    strncasecmp (cstr s) t n = strncasecmp s t n := by
  rw [Bool.eq_iff_iff]
  constructor
  · intro h
    have hlen := (strncasecmp_split hn ht h).2
    have htake : (cstr s).take n = s.take n := by
      obtain ⟨rest, hrest⟩ := cstr_isPrefix s
      rw [List.length_take] at hlen
      conv_rhs => rw [← hrest, List.take_append_of_le_length (by omega)]
    rwa [strncasecmp, ← htake]
  · intro h
    obtain ⟨hsplit, hlen⟩ := strncasecmp_split hn ht h
    rw [strncasecmp, hsplit, List.take_left' hlen]
    exact h

theorem drop_cstr {s t : Bytes} {n : ℕ} (hn : t.length = n) (ht : nul ∉ t)
    (h : strncasecmp s t n = true) : (cstr s).drop n = cstr (s.drop n) := by
  obtain ⟨hsplit, hlen⟩ := strncasecmp_split hn ht h
  rw [hsplit, List.drop_left' hlen]

end CString

namespace Decimal

open CString

def ofNat (n : ℕ) : Bytes := (Nat.toDigits 10 n).map fun c => UInt8.ofNat c.toNat

/-- `std::to_string` of an `int`. -/
def ofInt : ℤ → Bytes
  | .ofNat n => ofNat n
  | .negSucc n => 45 :: ofNat (n + 1)

theorem digit_range {n : ℕ} {c : Char} (hc : c ∈ Nat.toDigits 10 n) :
    48 ≤ c.toNat ∧ c.toNat ≤ 57 := by
  have h := Nat.isDigit_of_mem_toDigits (by decide) (by decide) hc
  simp only [Char.isDigit, Bool.and_eq_true, decide_eq_true_eq, ge_iff_le,
    UInt32.le_iff_toNat_le] at h
  exact h

theorem isDigit_of_mem {n : ℕ} {b : UInt8} (hb : b ∈ ofNat n) : isDigit b = true := by
  obtain ⟨c, hc, rfl⟩ := List.mem_map.mp hb
  have h := digit_range hc
  have hmod : c.toNat % 256 = c.toNat := Nat.mod_eq_of_lt (by omega)
  simp [isDigit, UInt8.le_iff_toNat_le, hmod, h]

/-- Reading the printed digits back gives the number. -/
theorem digitsValue_ofNat (n : ℕ) : digitsValue (ofNat n) = n := by
  have hread := Nat.ofDigitChars_ten_toDigits (n := n)
  rw [Nat.ofDigitChars_eq_foldl] at hread
  rw [digitsValue, ofNat, List.foldl_map]
  calc
    _ = (Nat.toDigits 10 n).foldl (fun sofar c => 10 * sofar + (c.toNat - '0'.toNat)) 0 := by
      apply List.foldl_ext
      intro acc c hc
      have h := digit_range hc
      have hmod : c.toNat % 256 = c.toNat := Nat.mod_eq_of_lt (by omega)
      have hzero : '0'.toNat = 48 := rfl
      simp only [UInt8.toNat_ofNat', Nat.reducePow, hmod, hzero]
      omega
    _ = n := hread

theorem ofNat_injective : Function.Injective ofNat := by
  intro m n h
  rw [← digitsValue_ofNat m, h, digitsValue_ofNat]

theorem ofNat_ne_nil (n : ℕ) : ofNat n ≠ [] := by
  simp [ofNat]

/-- A printed natural number never starts with the minus sign. -/
theorem ofNat_ne_minus (n : ℕ) (rest : Bytes) : ofNat n ≠ 45 :: rest := by
  intro h
  have hmem : (45 : UInt8) ∈ ofNat n := by rw [h]; exact List.mem_cons_self
  exact absurd (isDigit_of_mem hmem) (by decide)

theorem ofInt_injective : Function.Injective ofInt := by
  intro m n h
  cases m with
  | ofNat a =>
    cases n with
    | ofNat b => exact congrArg Int.ofNat (ofNat_injective h)
    | negSucc b => exact absurd h (ofNat_ne_minus a _)
  | negSucc a =>
    cases n with
    | ofNat b => exact absurd h.symm (ofNat_ne_minus b _)
    | negSucc b =>
      have htail : ofNat (a + 1) = ofNat (b + 1) := (List.cons.inj h).2
      have := ofNat_injective htail
      rw [Nat.succ_injective this]

theorem takeWhile_ofNat (n : ℕ) {c : UInt8} (hc : isDigit c = false) (s : Bytes) :
    (ofNat n ++ c :: s).takeWhile isDigit = ofNat n := by
  rw [List.takeWhile_append_of_pos fun b hb => isDigit_of_mem hb, List.takeWhile_cons_of_neg (by simp [hc]),
    List.append_nil]

theorem ofNat_append_injective {m n : ℕ} {c : UInt8} (hc : isDigit c = false) {s t : Bytes}
    (h : ofNat m ++ c :: s = ofNat n ++ c :: t) : m = n ∧ s = t := by
  have hmn : m = n := by
    apply ofNat_injective
    rw [← takeWhile_ofNat m hc s, h, takeWhile_ofNat n hc t]
  subst hmn
  exact ⟨rfl, (List.cons.inj (List.append_cancel_left h)).2⟩

theorem ofInt_append_injective {m n : ℤ} {c : UInt8} (hc : isDigit c = false) {s t : Bytes}
    (h : ofInt m ++ c :: s = ofInt n ++ c :: t) : m = n ∧ s = t := by
  have hsign : ∀ {a : ℕ} {u v : Bytes}, ofNat a ++ u ≠ 45 :: v := by
    intro a u v h
    obtain ⟨b, rest, hb⟩ := List.exists_cons_of_ne_nil (ofNat_ne_nil a)
    rw [hb] at h
    have hdigit : isDigit b = true := isDigit_of_mem (n := a) (by rw [hb]; exact List.mem_cons_self)
    rw [(List.cons.inj h).1] at hdigit
    exact absurd hdigit (by decide)
  cases m with
  | ofNat a =>
    cases n with
    | ofNat b =>
      obtain ⟨rfl, hst⟩ := ofNat_append_injective hc h
      exact ⟨rfl, hst⟩
    | negSucc b => exact absurd h hsign
  | negSucc a =>
    cases n with
    | ofNat b => exact absurd h.symm hsign
    | negSucc b =>
      obtain ⟨hab, hst⟩ := ofNat_append_injective hc (List.cons.inj h).2
      rw [Nat.succ_injective hab]
      exact ⟨rfl, hst⟩

theorem mem_ofInt {n : ℤ} {b : UInt8} (hb : b ∈ ofInt n) : b = 45 ∨ isDigit b = true := by
  cases n with
  | ofNat a => exact Or.inr (isDigit_of_mem hb)
  | negSucc a =>
    rcases List.mem_cons.mp hb with h | h
    · exact Or.inl h
    · exact Or.inr (isDigit_of_mem h)

theorem colon_notMem_ofInt (n : ℤ) : (58 : UInt8) ∉ ofInt n := by
  intro h
  rcases mem_ofInt h with h | h
  · exact absurd h (by decide)
  · exact absurd h (by decide)

theorem ofNat_length {n k : ℕ} (hk : 0 < k) (hn : n < 10 ^ k) : (ofNat n).length ≤ k := by
  rw [ofNat, List.length_map]
  exact (Nat.length_toDigits_le_iff (by decide) hk).mpr hn

/-- The text of a 32-bit `int` has at most eleven characters. -/
theorem ofInt_length {n : ℤ} (h1 : -2 ^ 31 ≤ n) (h2 : n ≤ intMax) : (ofInt n).length ≤ 11 := by
  simp only [intMax] at h2
  cases n with
  | ofNat a =>
    have : a < 10 ^ 11 := by simp only [Int.ofNat_eq_natCast] at h2; norm_num at *; omega
    exact ofNat_length (by decide) this
  | negSucc a =>
    have : a + 1 < 10 ^ 10 := by rw [Int.negSucc_eq] at h1; norm_num at *; omega
    have := ofNat_length (by decide) this
    simp only [ofInt, List.length_cons]
    omega

theorem isSpace_of_isDigit {b : UInt8} (hb : isDigit b = true) : isSpace b = false := by
  simp only [isDigit, Bool.and_eq_true, decide_eq_true_eq, UInt8.le_iff_toNat_le] at hb
  simp only [isSpace, Bool.or_eq_false_iff, beq_eq_false_iff_ne, ne_eq, ← UInt8.toNat_inj,
    Bool.and_eq_false_iff, decide_eq_false_iff_not, UInt8.le_iff_toNat_le]
  have h48 : (48 : UInt8).toNat = 48 := rfl
  have h32 : (32 : UInt8).toNat = 32 := rfl
  have h13 : (13 : UInt8).toNat = 13 := rfl
  omega

theorem splitSign_of_isDigit {b : UInt8} (hb : isDigit b = true) (rest : Bytes) :
    splitSign (b :: rest) = (false, b :: rest) := by
  unfold splitSign
  split
  · rename_i h
    obtain rfl := (List.cons.inj h).1
    exact absurd hb (by decide)
  · rename_i h
    obtain rfl := (List.cons.inj h).1
    exact absurd hb (by decide)
  · rfl

/-- A run of digits is read as the number it denotes, saturated to a `long`. -/
theorem strtol_digits {d : Bytes} (hne : d ≠ []) (hd : ∀ b ∈ d, isDigit b = true) :
    strtol d = (clampLong (digitsValue d), []) := by
  have hdigits : d.takeWhile isDigit = d := List.takeWhile_eq_self_iff.mpr hd
  obtain ⟨b, rest, rfl⟩ := List.exists_cons_of_ne_nil hne
  have hb : isDigit b = true := hd b List.mem_cons_self
  have hspace : (b :: rest).dropWhile isSpace = b :: rest := by
    rw [List.dropWhile_cons_of_neg]
    simp [isSpace_of_isDigit hb]
  simp only [strtol, hspace, splitSign_of_isDigit hb, hdigits, if_neg hne, Bool.false_eq_true,
    if_false, List.drop_length]

theorem clampLong_of_le {n : ℕ} (hn : (n : ℤ) ≤ intMax) : clampLong n = n := by
  simp only [clampLong, intMax] at *
  omega

/-- `strtol` reads back what was printed. -/
theorem strtol_ofNat {n : ℕ} (hn : (n : ℤ) ≤ intMax) : strtol (ofNat n) = ((n : ℤ), []) := by
  rw [strtol_digits (ofNat_ne_nil n) fun _ => isDigit_of_mem, digitsValue_ofNat, clampLong_of_le hn]

example : ofInt (-120) = ascii "-120" := by decide

end Decimal

namespace CString

/-- `s` as `strtol` reads a number to its end: blanks, at most one sign, and digits. -/
structure SignedNumeral (s blanks sign digits : Bytes) : Prop where
  split : s = blanks ++ (sign ++ digits)
  blanks : ∀ b ∈ blanks, isSpace b = true
  sign : sign = [] ∨ sign = [43] ∨ sign = [45]
  nonempty : digits ≠ []
  digits : ∀ b ∈ digits, isDigit b = true

def signedValue (sign digits : Bytes) : ℤ :=
  if sign = [45] then -(digitsValue digits : ℤ) else digitsValue digits

/-- `s` is a numeral of value `v`. -/
def Denotes (s : Bytes) (v : ℤ) : Prop :=
  ∃ blanks sign digits, SignedNumeral s blanks sign digits ∧ signedValue sign digits = v

theorem splitSign_append {sign digits : Bytes} (hsign : sign = [] ∨ sign = [43] ∨ sign = [45])
    (hne : digits ≠ []) (hd : ∀ b ∈ digits, isDigit b = true) :
    splitSign (sign ++ digits) = (decide (sign = [45]), digits) := by
  rcases hsign with rfl | rfl | rfl
  · obtain ⟨b, rest, rfl⟩ := List.exists_cons_of_ne_nil hne
    exact Decimal.splitSign_of_isDigit (hd b List.mem_cons_self) rest
  · rfl
  · rfl

theorem exists_sign (s : Bytes) : ∃ sign, (sign = [] ∨ sign = [43] ∨ sign = [45]) ∧
    s = sign ++ (splitSign s).2 := by
  unfold splitSign
  split
  · exact ⟨[45], Or.inr (Or.inr rfl), rfl⟩
  · exact ⟨[43], Or.inr (Or.inl rfl), rfl⟩
  · exact ⟨[], Or.inl rfl, rfl⟩

section SignedNumerals

variable {s blanks sign digits : Bytes}

theorem SignedNumeral.ne_nil (h : SignedNumeral s blanks sign digits) : s ≠ [] := by
  rw [h.split]
  simp [h.nonempty]

theorem SignedNumeral.dropWhile (h : SignedNumeral s blanks sign digits) :
    s.dropWhile isSpace = sign ++ digits := by
  have hstop : (sign ++ digits).dropWhile isSpace = sign ++ digits := by
    rcases h.sign with hs | hs | hs
    · obtain ⟨b, rest, hdigits⟩ := List.exists_cons_of_ne_nil h.nonempty
      have hb := Decimal.isSpace_of_isDigit (h.digits b (by simp [hdigits]))
      rw [hs, hdigits, List.nil_append, List.dropWhile_cons_of_neg (by simp [hb])]
    · rw [hs]
      rfl
    · rw [hs]
      rfl
  rw [h.split, List.dropWhile_append_of_pos h.blanks, hstop]

/-- `strtol` reads a numeral to its end, and saturates its value to a `long`. -/
theorem SignedNumeral.strtol (h : SignedNumeral s blanks sign digits) :
    strtol s = (clampLong (signedValue sign digits), []) := by
  have htake : digits.takeWhile isDigit = digits := List.takeWhile_eq_self_iff.mpr h.digits
  simp only [CString.strtol, h.dropWhile, splitSign_append h.sign h.nonempty h.digits, htake,
    if_neg h.nonempty, decide_eq_true_eq, signedValue, List.drop_length]

/-- What `strtol` reads to the end is a numeral. -/
theorem exists_signedNumeral (hread : (CString.strtol s).2 ≠ s) (hend : (CString.strtol s).2 = []) :
    ∃ blanks sign digits, SignedNumeral s blanks sign digits := by
  have hblanks : s.takeWhile isSpace ++ s.dropWhile isSpace = s := List.takeWhile_append_dropWhile
  obtain ⟨sign, hsign, hsplit⟩ := exists_sign (s.dropWhile isSpace)
  unfold CString.strtol at hread hend
  dsimp only at hread hend
  generalize (splitSign (s.dropWhile isSpace)).2 = rest at hread hend hsplit
  by_cases hdigits : rest.takeWhile isDigit = []
  · rw [if_pos hdigits] at hread
    exact absurd rfl hread
  · rw [if_neg hdigits] at hend
    have hall : rest.takeWhile isDigit = rest := by
      apply (List.takeWhile_prefix isDigit).eq_of_length_le
      simpa using hend
    rw [hall] at hdigits
    refine ⟨s.takeWhile isSpace, sign, rest, ?_, ?_, hsign, hdigits, ?_⟩
    · rw [← hsplit, hblanks]
    · intro b hb
      exact List.mem_takeWhile_imp hb
    · intro b hb
      rw [← hall] at hb
      exact List.mem_takeWhile_imp hb

end SignedNumerals

theorem Denotes.ne_nil {s : Bytes} {v : ℤ} (h : Denotes s v) : s ≠ [] := by
  obtain ⟨blanks, sign, digits, hnumeral, -⟩ := h
  exact hnumeral.ne_nil

theorem Denotes.strtol {s : Bytes} {v : ℤ} (h : Denotes s v) : strtol s = (clampLong v, []) := by
  obtain ⟨blanks, sign, digits, hnumeral, rfl⟩ := h
  exact hnumeral.strtol

theorem exists_denotes {s : Bytes} (hread : (strtol s).2 ≠ s) (hend : (strtol s).2 = []) :
    ∃ v, Denotes s v := by
  obtain ⟨blanks, sign, digits, hnumeral⟩ := exists_signedNumeral hread hend
  exact ⟨_, blanks, sign, digits, hnumeral, rfl⟩

/-- A value inside the range of a `long` is the only one that reads so. -/
theorem Denotes.eq_of_mem_long {s : Bytes} {v w : ℤ} (hv : Denotes s v) (hw : Denotes s w)
    (h1 : -2 ^ 63 < v) (h2 : v < 2 ^ 63 - 1) : w = v := by
  have hclamp : clampLong v = clampLong w :=
    congrArg Prod.fst (hv.strtol.symm.trans hw.strtol)
  simp only [clampLong] at hclamp
  omega

/-- `s` as `strtol` reads a number that is not negative: blanks, at most a plus sign, and
digits to the end. -/
structure Numeral (s blanks sign digits : Bytes) : Prop where
  split : s = blanks ++ (sign ++ digits)
  blanks : ∀ b ∈ blanks, isSpace b = true
  sign : sign = [] ∨ sign = [43]
  nonempty : digits ≠ []
  digits : ∀ b ∈ digits, isDigit b = true

section Numerals

variable {s blanks sign digits : Bytes}

theorem Numeral.mem (h : Numeral s blanks sign digits) {b : UInt8} (hb : b ∈ s) :
    isSpace b = true ∨ b = 43 ∨ isDigit b = true := by
  rw [h.split] at hb
  rcases List.mem_append.mp hb with hb | hb
  · exact Or.inl (h.blanks b hb)
  · rcases List.mem_append.mp hb with hb | hb
    · rcases h.sign with hs | hs
      · rw [hs] at hb
        cases hb
      · rw [hs] at hb
        exact Or.inr (Or.inl (List.mem_singleton.mp hb))
    · exact Or.inr (Or.inr (h.digits b hb))

theorem Numeral.signed (h : Numeral s blanks sign digits) : SignedNumeral s blanks sign digits :=
  ⟨h.split, h.blanks, h.sign.imp_right Or.inl, h.nonempty, h.digits⟩

theorem Numeral.strtol (h : Numeral s blanks sign digits) :
    strtol s = (clampLong (digitsValue digits), []) := by
  have hsign : sign ≠ [45] := by
    rcases h.sign with hs | hs <;> rw [hs] <;> decide
  rw [h.signed.strtol, signedValue, if_neg hsign]

/-- What `strtol` reads to the end as a positive number has no minus sign. -/
theorem exists_numeral (hread : (CString.strtol s).2 ≠ s) (hend : (CString.strtol s).2 = [])
    (hpos : 0 < (CString.strtol s).1) : ∃ blanks sign digits, Numeral s blanks sign digits := by
  obtain ⟨blanks, sign, digits, h⟩ := exists_signedNumeral hread hend
  refine ⟨blanks, sign, digits, h.split, h.blanks, ?_, h.nonempty, h.digits⟩
  rcases h.sign with hs | hs | hs
  · exact Or.inl hs
  · exact Or.inr hs
  · rw [h.strtol, signedValue, if_pos hs] at hpos
    dsimp only [clampLong] at hpos
    omega

end Numerals

end CString
end ResourceServer

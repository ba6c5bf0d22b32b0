import Mathlib.Data.FinEnum
import ResourceServer.Service.Tokens

/-!
# The subject of a token

`create_jwt` prints the user id as the subject and `verify_jwt_and_get_user_id` reads it
back with `strtol`, which is laxer than the printer: it skips blanks and a plus sign, stops
at a NUL, and its `long` is narrowed after the check.
-/

namespace ResourceServer
namespace Service

open CString

namespace JwtUtils

/-- The id that the subject of an accepted token is taken for. -/
def readSubject (subject : Bytes) : Option ℤ :=
  let parsed := strtol (cstr subject)
  if parsed.2 = cstr subject ∨ parsed.2 ≠ [] ∨ parsed.1 ≤ 0 then none else some (toInt32 parsed.1)

/-- The id that a subject denotes: its digits, as a positive `int`. -/
def denoted (subject : Bytes) : Option ℤ :=
  if subject ≠ [] ∧ (∀ b ∈ subject, isDigit b = true) ∧ 1 ≤ digitsValue subject ∧
      (digitsValue subject : ℤ) ≤ intMax then
    some (digitsValue subject)
  else none

variable {P : Platform} {lib : JwtLib} {now : ℤ} {token subject : Bytes}

theorem verify_accepted (hsecret : getSecret P ≠ []) (htoken : token ≠ [])
    (hverify : lib.verify (getSecret P) (getIssuer P) token now = .ok subject) :
    verifyJwtAndGetUserId P lib now token = readSubject subject := by
  rw [verifyJwtAndGetUserId, if_neg (not_or.mpr ⟨hsecret, htoken⟩), hverify]
  rfl

theorem verify_refused {e : Thrown}
    (hverify : lib.verify (getSecret P) (getIssuer P) token now = .error e) :
    verifyJwtAndGetUserId P lib now token = none := by
  rw [verifyJwtAndGetUserId, hverify]
  exact ite_self none

theorem readSubject_numeral {blanks sign digits : Bytes}
    (h : Numeral (cstr subject) blanks sign digits) (hpos : 0 < digitsValue digits) :
    readSubject subject = some (toInt32 (clampLong (digitsValue digits))) := by
  have hne : ([] : Bytes) ≠ cstr subject := by
    rw [h.split]
    simp [h.nonempty]
  have hvalue : ¬ clampLong (digitsValue digits) ≤ 0 := by
    simp only [clampLong]
    omega
  rw [readSubject, h.strtol, if_neg (by simp [hne, hvalue])]

theorem readSubject_eq_some {k : ℤ} (h : readSubject subject = some k) :
    ∃ blanks sign digits, Numeral (cstr subject) blanks sign digits ∧ 0 < digitsValue digits ∧
      k = toInt32 (clampLong (digitsValue digits)) := by
  unfold readSubject at h
  dsimp only at h
  split_ifs at h with hbad
  rw [not_or, not_or, not_not, not_le] at hbad
  obtain ⟨hread, hend, hpos⟩ := hbad
  obtain ⟨blanks, sign, digits, hnumeral⟩ := exists_numeral hread hend hpos
  rw [hnumeral.strtol] at hpos h
  refine ⟨blanks, sign, digits, hnumeral, ?_, (Option.some.inj h).symm⟩
  dsimp only [clampLong] at hpos
  omega

theorem denoted_eq_some {k : ℤ} : denoted subject = some k ↔
    subject ≠ [] ∧ (∀ b ∈ subject, isDigit b = true) ∧ k = digitsValue subject ∧ 1 ≤ k ∧
      k ≤ intMax := by
  unfold denoted
  split_ifs with h
  · obtain ⟨hne, hdigits, hpos, hmax⟩ := h
    constructor
    · intro hk
      obtain rfl := Option.some.inj hk
      exact ⟨hne, hdigits, rfl, by omega, hmax⟩
    · rintro ⟨-, -, rfl, -⟩
      rfl
  · refine iff_of_false nofun ?_
    rintro ⟨hne, hdigits, rfl, hpos, hmax⟩
    exact h ⟨hne, hdigits, by omega, hmax⟩

theorem nul_notMem_digits (hdigits : ∀ b ∈ subject, isDigit b = true) : nul ∉ subject := by
  intro hmem
  exact absurd (hdigits nul hmem) (by decide)

theorem readSubject_denoted {k : ℤ} (h : denoted subject = some k) : readSubject subject = some k := by
  obtain ⟨hne, hdigits, rfl, hpos, hmax⟩ := denoted_eq_some.mp h
  have hcstr : cstr subject = subject := cstr_eq_self (nul_notMem_digits hdigits)
  have hnumeral : Numeral (cstr subject) [] [] subject :=
    ⟨hcstr, nofun, Or.inl rfl, hne, hdigits⟩
  rw [readSubject_numeral hnumeral (by omega), Decimal.clampLong_of_le hmax,
    toInt32_of_range (by omega) hmax]

/-- A subject that reads as a positive number up to its first NUL is a plain `int`. -/
def PlainSubject (subject : Bytes) : Prop :=
  ∀ blanks sign digits, Numeral (cstr subject) blanks sign digits → 0 < digitsValue digits →
    blanks = [] ∧ sign = [] ∧ nul ∉ subject ∧ (digitsValue digits : ℤ) ≤ intMax

theorem readSubject_eq_denoted_iff : readSubject subject = denoted subject ↔ PlainSubject subject := by
  constructor
  · intro h blanks sign digits hnumeral hpos
    rw [readSubject_numeral hnumeral hpos] at h
    obtain ⟨-, hdigits, -, -, -⟩ := denoted_eq_some.mp h.symm
    have hnul := nul_notMem_digits hdigits
    have hsplit := hnumeral.split
    rw [cstr_eq_self hnul] at hsplit
    -- neither a blank nor a sign is a digit
    have hblanks : blanks = [] := by
      cases blanks with
      | nil => rfl
      | cons b rest =>
        have hb := hdigits b (by simp [hsplit])
        have hspace := hnumeral.blanks b List.mem_cons_self
        rw [Decimal.isSpace_of_isDigit hb] at hspace
        cases hspace
    have hsign : sign = [] := by
      rcases hnumeral.sign with hs | hs
      · exact hs
      · have hplus := hdigits 43 (by simp [hsplit, hs])
        exact absurd hplus (by decide)
    have hsubject : subject = digits := by simpa [hblanks, hsign] using hsplit
    obtain ⟨-, -, hk, -, hmax⟩ := denoted_eq_some.mp h.symm
    rw [hk, hsubject] at hmax
    exact ⟨hblanks, hsign, hnul, hmax⟩
  · intro hplain
    cases hread : readSubject subject with
    | none =>
      cases hdenoted : denoted subject with
      | none => rfl
      | some k =>
        rw [readSubject_denoted hdenoted] at hread
        cases hread
    | some k =>
      obtain ⟨blanks, sign, digits, hnumeral, hpos, rfl⟩ := readSubject_eq_some hread
      obtain ⟨rfl, rfl, hnul, hmax⟩ := hplain blanks sign digits hnumeral hpos
      have hsubject : subject = digits := by
        have hsplit := hnumeral.split
        rwa [cstr_eq_self hnul] at hsplit
      have hdenoted : denoted subject = some (digitsValue digits : ℤ) := by
        rw [denoted_eq_some, hsubject]
        exact ⟨hnumeral.nonempty, hnumeral.digits, rfl, by omega, hmax⟩
      rw [hdenoted, Decimal.clampLong_of_le hmax, toInt32_of_range (by omega) hmax]

/-- The subject of an accepted token is taken for the id that it denotes exactly if it is
plain. -/
theorem subject_decoded_iff (P : Platform) (lib : JwtLib) (now : ℤ) (token subject : Bytes)
    (hsecret : getSecret P ≠ []) (htoken : token ≠ [])
    (hverify : lib.verify (getSecret P) (getIssuer P) token now = .ok subject) :
    verifyJwtAndGetUserId P lib now token = denoted subject ↔ PlainSubject subject := by
  rw [verify_accepted hsecret htoken hverify]
  exact readSubject_eq_denoted_iff

end JwtUtils

/-- A token is accepted under the secret and the issuer it was signed with, until it expires,
and gives back the subject. Whether it still is in the second of its expiry is left open. -/
def JwtLib.Exact (lib : JwtLib) : Prop :=
  ∀ secret issuer subject issuedAt expiresAt, ∃ token,
    lib.sign secret issuer subject issuedAt expiresAt = .ok token ∧ token ≠ [] ∧
      ∀ secret' issuer' now,
        (secret' = secret → issuer' = issuer → now < expiresAt →
          lib.verify secret' issuer' token now = .ok subject) ∧
        (secret' ≠ secret ∨ issuer' ≠ issuer ∨ expiresAt < now →
          ∃ e, lib.verify secret' issuer' token now = .error e)

namespace JwtUtils

/-- A printed id is read back if it is positive. -/
theorem readSubject_ofInt {userId : ℤ} (hmax : userId ≤ intMax) :
    readSubject (Decimal.ofInt userId) = if 0 < userId then some userId else none := by
  cases userId with
  | ofNat n =>
    cases n with
    | zero => decide
    | succ n =>
      have hpos : 0 < Int.ofNat (n + 1) := Int.natCast_pos.mpr n.succ_pos
      have hdenoted : denoted (Decimal.ofNat (n + 1)) = some (Int.ofNat (n + 1)) := by
        rw [denoted_eq_some]
        refine ⟨Decimal.ofNat_ne_nil _, fun b hb => Decimal.isDigit_of_mem hb, ?_, hpos, hmax⟩
        rw [Decimal.digitsValue_ofNat]
        rfl
      rw [if_pos hpos]
      exact readSubject_denoted hdenoted
  | negSucc n =>
    rw [if_neg (by omega)]
    cases hread : readSubject (Decimal.ofInt (.negSucc n)) with
    | none => rfl
    | some k =>
      -- no numeral contains a minus sign
      obtain ⟨blanks, sign, digits, hnumeral, -⟩ := readSubject_eq_some hread
      have hminus : (45 : UInt8) ∈ cstr (Decimal.ofInt (.negSucc n)) := List.mem_cons_self
      rcases hnumeral.mem hminus with h | h | h <;> exact absurd h (by decide)

/-- **Round trip.** The token of an id gives back the id, if it is positive, until it expires,
and nothing afterwards or under another secret or issuer. -/
theorem token_round_trip (lib : JwtLib) (hlib : lib.Exact) (P : Platform) (hsecret : getSecret P ≠ [])
    (hexpires : 0 < getExpiresSeconds P) (userId : ℤ)
    (hmax : userId ≤ intMax) (created : ℤ) :
    ∃ token, createJwt P lib created userId = .ok token ∧ token ≠ [] ∧
      ∀ (Q : Platform) (later : ℤ),
        (getSecret Q = getSecret P → getIssuer Q = getIssuer P →
          later < created + getExpiresSeconds P →
          verifyJwtAndGetUserId Q lib later token = if 0 < userId then some userId else none) ∧
        (getSecret Q ≠ getSecret P ∨ getIssuer Q ≠ getIssuer P ∨
            created + getExpiresSeconds P < later →
          verifyJwtAndGetUserId Q lib later token = none) := by
  obtain ⟨token, hsign, hne, hverify⟩ := hlib (getSecret P) (getIssuer P) (Decimal.ofInt userId)
    created (created + getExpiresSeconds P)
  refine ⟨token, ?_, hne, ?_⟩
  · exact (createJwt_of_configured hsecret hexpires created userId).trans hsign
  · intro Q later
    obtain ⟨haccepted, hrefused⟩ := hverify (getSecret Q) (getIssuer Q) later
    constructor
    · intro hsame hissuer huntil
      rw [verify_accepted (hsame ▸ hsecret) hne (haccepted hsame hissuer huntil)]
      exact readSubject_ofInt hmax
    · intro hother
      obtain ⟨e, he⟩ := hrefused hother
      exact verify_refused he

end JwtUtils

/-- Tokens that list what they were signed with, each byte behind a 1 and each field closed
by a 0. -/
def sealField (field : Bytes) : Bytes := field.flatMap (fun b => [1, b]) ++ [0]

def readField : Bytes → Option (Bytes × Bytes)
  | 0 :: rest => some ([], rest)
  | 1 :: b :: rest => (readField rest).map fun p => (b :: p.1, p.2)
  | _ => none

def readInt : Bytes → ℤ
  | 45 :: digits => -digitsValue digits
  | digits => digitsValue digits

def sealedTokens : JwtLib where
  sign secret issuer subject _ expiresAt :=
    .ok (sealField secret ++ (sealField issuer ++ (sealField subject ++
      (sealField (Decimal.ofInt expiresAt) ++ []))))
  verify secret issuer token now :=
    match readField token with
    | none => .error .unknown
    | some (signed, rest) =>
      match readField rest with
      | none => .error .unknown
      | some (issued, rest) =>
        match readField rest with
        | none => .error .unknown
        | some (subject, rest) =>
          match readField rest with
          | none => .error .unknown
          | some (expiry, _) =>
            if signed = secret ∧ issued = issuer ∧ now ≤ readInt expiry then .ok subject
            else .error .unknown

theorem readField_seal (field rest : Bytes) : readField (sealField field ++ rest) = some (field, rest) := by
  induction field with
  | nil => rfl
  | cons b field ih =>
    have hstep : sealField (b :: field) ++ rest = 1 :: b :: (sealField field ++ rest) := rfl
    rw [hstep, readField, ih]
    rfl

theorem readInt_ofInt (n : ℤ) : readInt (Decimal.ofInt n) = n := by
  cases n with
  | ofNat n =>
    have hminus := Decimal.ofNat_ne_minus n
    change readInt (Decimal.ofNat n) = n
    unfold readInt
    split
    · rename_i digits hdigits
      exact absurd hdigits (hminus digits)
    · rw [Decimal.digitsValue_ofNat]
  | negSucc n =>
    change -(digitsValue (Decimal.ofNat (n + 1)) : ℤ) = _
    rw [Decimal.digitsValue_ofNat, Int.negSucc_eq]
    rfl

theorem sealedTokens_exact : sealedTokens.Exact := by
  intro secret issuer subject issuedAt expiresAt
  refine ⟨_, rfl, ?_, ?_⟩
  · simp [sealField]
  · intro secret' issuer' now
    simp only [sealedTokens, readField_seal, readInt_ofInt]
    constructor
    · rintro rfl rfl hnow
      rw [if_pos ⟨rfl, rfl, hnow.le⟩]
    · intro hother
      refine ⟨.unknown, if_neg ?_⟩
      rintro ⟨rfl, rfl, hnow⟩
      rcases hother with h | h | h
      · exact h rfl
      · exact h rfl
      · omega

/-- A server that signs its tokens. -/
def issuing : Platform where
  json := { dump := fun _ => none, parse := fun _ => .error .parseError }
  getenv name := if name = ascii "JWT_SECRET" then some (ascii "secret") else none
  sha256 := id

namespace JwtUtils

theorem seven_round_trip :
    ∃ token, createJwt issuing sealedTokens 100 7 = .ok token ∧
      verifyJwtAndGetUserId issuing sealedTokens 200 token = some 7 := by
  obtain ⟨token, hcreate, -, hverify⟩ := token_round_trip sealedTokens sealedTokens_exact issuing
    (by decide) (by decide) 7 (by decide) 100
  exact ⟨token, hcreate, (hverify issuing 200).1 rfl rfl (by decide)⟩

theorem seven_decoded :
    ∃ token, verifyJwtAndGetUserId issuing sealedTokens 200 token = denoted (ascii "7") := by
  obtain ⟨token, -, hne, hverify⟩ := sealedTokens_exact (getSecret issuing) (getIssuer issuing)
    (ascii "7") 100 3700
  have haccepted := (hverify _ _ 200).1 rfl rfl (by decide)
  refine ⟨token, (subject_decoded_iff issuing sealedTokens 200 token _ (by decide) hne haccepted).mpr ?_⟩
  apply readSubject_eq_denoted_iff.mp
  decide +kernel

/-- The subject `4294967297` is taken for user 1. -/
theorem wrapped_subject :
    ∃ token, sealedTokens.verify (getSecret issuing) (getIssuer issuing) token 200 =
        .ok (ascii "4294967297") ∧
      verifyJwtAndGetUserId issuing sealedTokens 200 token = some 1 ∧
      ¬ ∀ k, verifyJwtAndGetUserId issuing sealedTokens 200 token = some k →
        (∀ b ∈ ascii "4294967297", isDigit b = true) ∧ k = digitsValue (ascii "4294967297") ∧
          1 ≤ k ∧ k ≤ intMax := by
  obtain ⟨token, -, hne, hverify⟩ := sealedTokens_exact (getSecret issuing) (getIssuer issuing)
    (ascii "4294967297") 100 3700
  have haccepted := (hverify _ _ 200).1 rfl rfl (by decide)
  have hone : verifyJwtAndGetUserId issuing sealedTokens 200 token = some 1 := by
    rw [verify_accepted (by decide) hne haccepted]
    decide
  refine ⟨token, haccepted, hone, fun h => ?_⟩
  obtain ⟨-, hk, -⟩ := h 1 hone
  exact absurd hk (by decide)

end JwtUtils

end Service
end ResourceServer

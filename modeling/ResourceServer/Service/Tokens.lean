import ResourceServer.Service.Storage

/-!
# Password hashes and bearer tokens

`sha256` prints a digest as lowercase hex; `JwtUtils` signs a user id as the subject of a
JWT and reads it back. The digest and the JWT library are no code of the repository.
-/

namespace ResourceServer
namespace Service

open CString

namespace AuthUtils

/-- A hexadecimal digit, in lower case. -/
def hexDigit (n : ℕ) : UInt8 := if n < 10 then UInt8.ofNat (48 + n) else UInt8.ofNat (87 + n)

/-- A byte under `std::hex`, `setw(2)` and `setfill('0')`. -/
def hexByte (b : UInt8) : Bytes := [hexDigit (b.toNat / 16), hexDigit (b.toNat % 16)]

/-- `sha256`, over the digest that `SHA256` computes. -/
def sha256 (digest : Bytes → Bytes) (input : Bytes) : Bytes := (digest input).flatMap hexByte

theorem hexDigit_ne_nul {n : ℕ} (hn : n < 16) : hexDigit n ≠ nul := by
  interval_cases n <;> decide

theorem hexDigit_injective {m n : ℕ} (hm : m < 16) (hn : n < 16) (h : hexDigit m = hexDigit n) :
    m = n := by
  interval_cases m <;> interval_cases n <;> first | rfl | exact absurd h (by decide)

theorem toNat_div_lt (b : UInt8) : b.toNat / 16 < 16 := by
  have := b.toNat_lt
  omega

theorem toNat_mod_lt (b : UInt8) : b.toNat % 16 < 16 := Nat.mod_lt _ (by decide)

theorem hexByte_injective : Function.Injective hexByte := by
  intro b c h
  simp only [hexByte, List.cons.injEq, and_true] at h
  have hhigh := hexDigit_injective (toNat_div_lt b) (toNat_div_lt c) h.1
  have hlow := hexDigit_injective (toNat_mod_lt b) (toNat_mod_lt c) h.2
  apply UInt8.toNat_inj.mp
  omega

theorem flatMap_hexByte_injective : Function.Injective fun d : Bytes => d.flatMap hexByte := by
  intro d e h
  induction d generalizing e with
  | nil =>
    cases e with
    | nil => rfl
    | cons c e => simp [hexByte] at h
  | cons b d ih =>
    cases e with
    | nil => simp [hexByte] at h
    | cons c e =>
      simp only [List.flatMap_cons] at h
      obtain ⟨hbyte, hrest⟩ := List.append_inj h rfl
      rw [hexByte_injective hbyte, ih hrest]

/-- Hashes agree exactly where the digests do. -/
theorem sha256_eq_iff {digest : Bytes → Bytes} {p q : Bytes} :
    sha256 digest p = sha256 digest q ↔ digest p = digest q :=
  flatMap_hexByte_injective.eq_iff

/-- A hash is stored whole. -/
theorem cstr_sha256 (digest : Bytes → Bytes) (input : Bytes) :
    cstr (sha256 digest input) = sha256 digest input := by
  apply cstr_eq_self
  intro h
  obtain ⟨b, -, hb⟩ := List.mem_flatMap.mp h
  simp only [hexByte, List.mem_cons, List.not_mem_nil, or_false] at hb
  rcases hb with hb | hb
  · exact hexDigit_ne_nul (toNat_div_lt b) hb.symm
  · exact hexDigit_ne_nul (toNat_mod_lt b) hb.symm

end AuthUtils

/-- Signing with HS256, and the subject of a token that is accepted. -/
structure JwtLib where
  sign (secret issuer subject : Bytes) (issuedAt expiresAt : ℤ) : Except Thrown Bytes
  verify (secret issuer token : Bytes) (now : ℤ) : Except Thrown Bytes

/-- Every subject can be signed, and is read back until the token expires. -/
def JwtLib.Correct (lib : JwtLib) : Prop :=
  ∀ secret issuer subject issuedAt expiresAt, ∃ token,
    lib.sign secret issuer subject issuedAt expiresAt = .ok token ∧ token ≠ [] ∧
      ∀ now, issuedAt ≤ now → now < expiresAt → lib.verify secret issuer token now = .ok subject

namespace JwtUtils

variable (P : Platform) (lib : JwtLib)

def getSecret : Bytes := P.getEnvOrDefault "JWT_SECRET" []

def getIssuer : Bytes := P.getEnvOrDefault "JWT_ISSUER" (ascii "webserver")

def getExpiresSeconds : ℤ := P.getEnvIntOrDefault "JWT_EXPIRES_SECONDS" 3600

/-- Without a secret or a lifetime there is no token. -/
def createJwt (now userId : ℤ) : Except Thrown Bytes :=
  if getSecret P = [] ∨ getExpiresSeconds P ≤ 0 then .ok []
  else lib.sign (getSecret P) (getIssuer P) (Decimal.ofInt userId) now (now + getExpiresSeconds P)

/-- The subject has to be a positive number and nothing else. -/
def verifyJwtAndGetUserId (now : ℤ) (token : Bytes) : Option ℤ :=
  if getSecret P = [] ∨ token = [] then none
  else
    match lib.verify (getSecret P) (getIssuer P) token now with
    | .error _ => none
    | .ok subject =>
      let parsed := strtol (cstr subject)
      if parsed.2 = cstr subject ∨ parsed.2 ≠ [] ∨ parsed.1 ≤ 0 then none
      else some (toInt32 parsed.1)

variable {P lib}

theorem createJwt_of_configured (hsecret : getSecret P ≠ []) (hexpires : 0 < getExpiresSeconds P)
    (now userId : ℤ) : createJwt P lib now userId =
      lib.sign (getSecret P) (getIssuer P) (Decimal.ofInt userId) now (now + getExpiresSeconds P) := by
  apply if_neg
  rintro (h | h)
  · exact hsecret h
  · exact absurd hexpires (not_lt.mpr h)

theorem createJwt_verifies (hlib : lib.Correct) (hsecret : getSecret P ≠ [])
    (hexpires : 0 < getExpiresSeconds P) {userId : ℤ} (hpos : 0 < userId) (hmax : userId ≤ intMax)
    (now : ℤ) :
    ∃ token, createJwt P lib now userId = .ok token ∧ token ≠ [] ∧
      ∀ later, now ≤ later → later < now + getExpiresSeconds P →
        verifyJwtAndGetUserId P lib later token = some userId := by
  obtain ⟨n, rfl⟩ := Int.eq_ofNat_of_zero_le hpos.le
  obtain ⟨token, hsign, hne, hverify⟩ := hlib (getSecret P) (getIssuer P) (Decimal.ofNat n) now
    (now + getExpiresSeconds P)
  refine ⟨token, ?_, hne, ?_⟩
  · exact (createJwt_of_configured hsecret hexpires now n).trans hsign
  · intro later hfrom huntil
    have hsubject : cstr (Decimal.ofNat n) = Decimal.ofNat n := by
      apply cstr_eq_self
      intro h
      exact absurd (Decimal.isDigit_of_mem h) (by decide)
    have hread : ¬ (([] : Bytes) = Decimal.ofNat n ∨ ([] : Bytes) ≠ [] ∨ (n : ℤ) ≤ 0) := by
      rintro (h | h | h)
      · exact Decimal.ofNat_ne_nil n h.symm
      · exact h rfl
      · exact absurd hpos (not_lt.mpr h)
    have hrange : -2 ^ 31 ≤ (n : ℤ) := by omega
    rw [verifyJwtAndGetUserId, if_neg (not_or.mpr ⟨hsecret, hne⟩), hverify later hfrom huntil]
    simp only [hsubject, Decimal.strtol_ofNat hmax, if_neg hread]
    rw [toInt32_of_range hrange hmax]

end JwtUtils

end Service
end ResourceServer

import ResourceServer.Http.Identifiers
import ResourceServer.Service.Tokens

/-!
# Integer settings

`get_env_int_or_default` reads an environment variable with `strtol` and narrows the `long` to
an `int`. `main` checks the token lifetime and `MAX_FD` at its start, and `create_jwt` reads the
lifetime again for each token.
-/

namespace ResourceServer
namespace Runtime

open CString Service Http

def defaultMaxFd : ℤ := 4096

/-- What `main` logs, and its exit code. -/
structure Refusal where
  message : String
  code : ℤ
  deriving DecidableEq, Repr

/-- What `main` reads before it checks. -/
structure Settings where
  jwtSecret : Bytes
  jwtExpiresSeconds : ℤ
  maxFd : ℤ
  deriving DecidableEq, Repr

def readSettings (P : Platform) : Settings where
  jwtSecret := P.getEnvOrDefault "JWT_SECRET" []
  jwtExpiresSeconds := P.getEnvIntOrDefault "JWT_EXPIRES_SECONDS" 3600
  maxFd := P.getEnvIntOrDefault "MAX_FD" defaultMaxFd

/-- The checks. The server goes on with `max_fd`. -/
def Settings.check (s : Settings) : Except Refusal ℤ :=
  if s.jwtSecret = [] ∨ s.jwtExpiresSeconds ≤ 0 then .error ⟨"invalid JWT configuration", 1⟩
  else if s.maxFd ≤ 0 then .error ⟨"invalid MAX_FD configuration", 1⟩
  else .ok s.maxFd

/-- `create_jwt` with a lifetime of `expiresSeconds`. -/
def createJwtFor (P : Platform) (lib : JwtLib) (expiresSeconds now userId : ℤ) : Except Thrown Bytes :=
  if JwtUtils.getSecret P = [] ∨ expiresSeconds ≤ 0 then .ok []
  else
    lib.sign (JwtUtils.getSecret P) (JwtUtils.getIssuer P) (Decimal.ofInt userId) now
      (now + expiresSeconds)

theorem createJwt_eq (P : Platform) (lib : JwtLib) (now userId : ℤ) :
    JwtUtils.createJwt P lib now userId =
      createJwtFor P lib (JwtUtils.getExpiresSeconds P) now userId := rfl

/-- The value of a numeral that fits, and the fallback for anything else. -/
def Configured (setting : Option Bytes) (fallback result : ℤ) : Prop :=
  (∃ s, setting = some s ∧ Denotes s result ∧ FitsInt result) ∨
    (∀ s v, setting = some s → Denotes s v → ¬ FitsInt v) ∧ result = fallback

/-- A value that saturation and narrowing turn into `n`. -/
def WrapsTo (v n : ℤ) : Prop :=
  -2 ^ 63 ≤ v ∧ v < 2 ^ 63 ∧ 2 ^ 32 ∣ v - n ∨ 2 ^ 63 ≤ v ∧ n = -1 ∨ v < -2 ^ 63 ∧ n = 0

/-- A numeral fits, or else happens to wrap to the fallback. -/
def Unwrapped (setting : Option Bytes) (fallback : ℤ) : Prop :=
  ∀ s v, setting = some s → Denotes s v → FitsInt v ∨ WrapsTo v fallback

section Values

variable {s : Bytes} {v n : ℤ}

theorem toInt32_eq_iff (hn : FitsInt n) : toInt32 v = n ↔ 2 ^ 32 ∣ v - n := by
  obtain ⟨hlow, hhigh⟩ := hn
  simp only [intMax] at hhigh
  rw [toInt32, Int.bmod_def]
  norm_num
  split_ifs <;> omega

theorem clampLong_of_fits (hv : FitsInt v) : clampLong v = v := by
  obtain ⟨hlow, hhigh⟩ := hv
  simp only [clampLong, intMax] at *
  omega

theorem wrapsTo_iff (hn : FitsInt n) : WrapsTo v n ↔ toInt32 (clampLong v) = n := by
  rw [toInt32_eq_iff hn]
  obtain ⟨hlow, hhigh⟩ := hn
  simp only [WrapsTo, clampLong, intMax] at *
  omega

theorem eq_of_denotes (hv : Denotes s v) (hfits : FitsInt v) (hn : Denotes s n) : n = v := by
  obtain ⟨hlow, hhigh⟩ := hfits
  simp only [intMax] at hhigh
  exact hv.eq_of_mem_long hn (by omega) (by omega)

theorem unwrapped_of_fits {setting : Option Bytes} (hs : setting = some s) (hv : Denotes s v)
    (hfits : FitsInt v) : Unwrapped setting n := by
  intro s' v' hs' hv'
  obtain rfl : s' = s := Option.some.inj (hs'.symm.trans hs)
  rw [eq_of_denotes hv hfits hv']
  exact Or.inl hfits

end Values

section Reads

variable {P : Platform} {name : String} {fallback : ℤ}

theorem getEnvInt_of_denotes {s : Bytes} {v : ℤ} (hname : P.getenv (ascii name) = some s)
    (hv : Denotes s v) : P.getEnvIntOrDefault name fallback = toInt32 (clampLong v) := by
  have hne := hv.ne_nil
  unfold Platform.getEnvIntOrDefault
  rw [hname]
  cases s with
  | nil => exact absurd rfl hne
  | cons b s =>
    dsimp only
    rw [hv.strtol, if_neg]
    rintro (h | h)
    · exact hne h.symm
    · exact h rfl

theorem getEnvInt_of_not_denotes
    (h : ∀ s v, P.getenv (ascii name) = some s → ¬ Denotes s v) :
    P.getEnvIntOrDefault name fallback = fallback := by
  unfold Platform.getEnvIntOrDefault
  split
  · rfl
  · rfl
  · rename_i s _ hname
    dsimp only
    split_ifs with hbad
    · rfl
    · rw [not_or, not_not] at hbad
      obtain ⟨v, hv⟩ := exists_denotes hbad.1 hbad.2
      exact absurd hv (h s v hname)

/-- **Which settings are read exactly.** -/
theorem configured_iff (hfallback : FitsInt fallback) :
    Configured (P.getenv (ascii name)) fallback (P.getEnvIntOrDefault name fallback) ↔
      Unwrapped (P.getenv (ascii name)) fallback := by
  by_cases hnumeral : ∃ s v, P.getenv (ascii name) = some s ∧ Denotes s v
  · obtain ⟨s, v, hname, hv⟩ := hnumeral
    rw [getEnvInt_of_denotes hname hv]
    constructor
    · rintro (⟨s', hs', hread, hfits⟩ | ⟨-, hread⟩)
      · exact unwrapped_of_fits hs' hread hfits
      · intro s₁ v₁ hs₁ hv₁
        obtain rfl : s₁ = s := Option.some.inj (hs₁.symm.trans hname)
        have hclamp : clampLong v₁ = clampLong v := congrArg Prod.fst (hv₁.strtol.symm.trans hv.strtol)
        rw [← hclamp] at hread
        exact Or.inr ((wrapsTo_iff hfallback).mpr hread)
    · intro h
      by_cases hfits : FitsInt v
      · left
        rw [clampLong_of_fits hfits, toInt32_of_range hfits.1 hfits.2]
        exact ⟨s, hname, hv, hfits⟩
      · right
        refine ⟨?_, (wrapsTo_iff hfallback).mp ((h s v hname hv).resolve_left hfits)⟩
        intro s₁ v₁ hs₁ hv₁ hfits₁
        obtain rfl : s₁ = s := Option.some.inj (hs₁.symm.trans hname)
        rw [← eq_of_denotes hv₁ hfits₁ hv] at hfits₁
        exact hfits hfits₁
  · have hnone : ∀ s v, P.getenv (ascii name) = some s → ¬ Denotes s v :=
      fun s v hname hv => hnumeral ⟨s, v, hname, hv⟩
    rw [getEnvInt_of_not_denotes hnone]
    refine iff_of_true (Or.inr ⟨fun s v hname hv => absurd hv (hnone s v hname), rfl⟩) ?_
    intro s v hname hv
    exact absurd hv (hnone s v hname)

end Reads

section Consumers

variable {P : Platform} {setting : Option Bytes} {fallback m n : ℤ}

theorem Configured.unique (hm : Configured setting fallback m) (hn : Configured setting fallback n) :
    m = n := by
  rcases hm with ⟨s, hs, hdenotes, hfits⟩ | ⟨hnone, rfl⟩
  · rcases hn with ⟨s', hs', hdenotes', -⟩ | ⟨hnone, -⟩
    · obtain rfl : s' = s := Option.some.inj (hs'.symm.trans hs)
      exact (eq_of_denotes hdenotes hfits hdenotes').symm
    · exact absurd hfits (hnone s m hs hdenotes)
  · rcases hn with ⟨s, hs, hdenotes, hfits⟩ | ⟨-, rfl⟩
    · exact absurd hfits (hnone s n hs hdenotes)
    · rfl

theorem Configured.unwrapped (hn : Configured setting fallback n) (hne : n ≠ fallback) :
    Unwrapped setting fallback := by
  rcases hn with ⟨s, hs, hdenotes, hfits⟩ | ⟨-, hn⟩
  · exact unwrapped_of_fits hs hdenotes hfits
  · exact absurd hn hne

/-- Two lifetimes that no token tells apart are the same, or allow no token. -/
theorem eq_of_createJwtFor_eq (hsecret : JwtUtils.getSecret P ≠ [])
    (h : ∀ lib now userId, createJwtFor P lib m now userId = createJwtFor P lib n now userId) :
    m = n ∨ m ≤ 0 ∧ n ≤ 0 := by
  have hsign := h ⟨fun _ _ _ _ expiresAt => .ok (if expiresAt = n then [49] else [50]),
    fun _ _ _ _ => .error .unknown⟩ 0 1
  simp only [createJwtFor, hsecret, false_or, zero_add] at hsign
  by_cases hm : m ≤ 0
  · by_cases hn : n ≤ 0
    · exact Or.inr ⟨hm, hn⟩
    · rw [if_pos hm, if_neg hn] at hsign
      cases hsign
  · left
    rw [if_neg hm] at hsign
    by_contra hne
    rw [if_neg hne] at hsign
    split_ifs at hsign <;> cases hsign

theorem createJwt_acts_iff (hn : Configured (P.getenv (ascii "JWT_EXPIRES_SECONDS")) 3600 n) :
    (∀ lib now userId, JwtUtils.createJwt P lib now userId = createJwtFor P lib n now userId) ↔
      JwtUtils.getSecret P = [] ∨ Unwrapped (P.getenv (ascii "JWT_EXPIRES_SECONDS")) 3600 := by
  have hread : Configured (P.getenv (ascii "JWT_EXPIRES_SECONDS")) 3600 (JwtUtils.getExpiresSeconds P) ↔
      Unwrapped (P.getenv (ascii "JWT_EXPIRES_SECONDS")) 3600 := configured_iff (by decide)
  constructor
  · intro h
    by_cases hsecret : JwtUtils.getSecret P = []
    · exact Or.inl hsecret
    · right
      rcases eq_of_createJwtFor_eq hsecret h with heq | ⟨-, hle⟩
      · rw [heq] at hread
        exact hread.mp hn
      · exact hn.unwrapped (by omega)
  · rintro (hsecret | hunwrapped) lib now userId
    · rw [createJwt_eq, createJwtFor, createJwtFor, if_pos (Or.inl hsecret), if_pos (Or.inl hsecret)]
    · rw [createJwt_eq, (hread.mpr hunwrapped).unique hn]

/-- The numbers that the checks of `main` act on. -/
theorem readSettings_iff (hm : Configured (P.getenv (ascii "JWT_EXPIRES_SECONDS")) 3600 m)
    (hn : Configured (P.getenv (ascii "MAX_FD")) defaultMaxFd n) :
    readSettings P = ⟨P.getEnvOrDefault "JWT_SECRET" [], m, n⟩ ↔
      Unwrapped (P.getenv (ascii "JWT_EXPIRES_SECONDS")) 3600 ∧
        Unwrapped (P.getenv (ascii "MAX_FD")) defaultMaxFd := by
  rw [← configured_iff (by decide), ← configured_iff (by decide), readSettings, Settings.mk.injEq]
  constructor
  · rintro ⟨-, hexpires, hmaxFd⟩
    rw [hexpires, hmaxFd]
    exact ⟨hm, hn⟩
  · rintro ⟨hexpires, hmaxFd⟩
    exact ⟨rfl, hexpires.unique hm, hmaxFd.unique hn⟩

end Consumers

/-- **Exact settings.** What is read is what the variable stands for just where its value fits,
is no numeral, or wraps to the fallback. Just then `create_jwt` and the checks of `main` act on
the numbers that are configured. -/
theorem settings_exact_iff (P : Platform) :
    (∀ name fallback, FitsInt fallback →
      (Configured (P.getenv (ascii name)) fallback (P.getEnvIntOrDefault name fallback) ↔
        Unwrapped (P.getenv (ascii name)) fallback)) ∧
    (∀ lifetime, Configured (P.getenv (ascii "JWT_EXPIRES_SECONDS")) 3600 lifetime →
      ((∀ lib now userId,
          JwtUtils.createJwt P lib now userId = createJwtFor P lib lifetime now userId) ↔
        JwtUtils.getSecret P = [] ∨ Unwrapped (P.getenv (ascii "JWT_EXPIRES_SECONDS")) 3600)) ∧
    (∀ lifetime maxFd, Configured (P.getenv (ascii "JWT_EXPIRES_SECONDS")) 3600 lifetime →
      Configured (P.getenv (ascii "MAX_FD")) defaultMaxFd maxFd →
      (readSettings P = ⟨P.getEnvOrDefault "JWT_SECRET" [], lifetime, maxFd⟩ ↔
        Unwrapped (P.getenv (ascii "JWT_EXPIRES_SECONDS")) 3600 ∧
          Unwrapped (P.getenv (ascii "MAX_FD")) defaultMaxFd)) := by
  refine ⟨fun name fallback hfallback => configured_iff hfallback, ?_, ?_⟩
  · intro lifetime hlifetime
    exact createJwt_acts_iff hlifetime
  · intro lifetime maxFd hlifetime hmaxFd
    exact readSettings_iff hlifetime hmaxFd

/-- A lifetime of one second more than a turn of an `int`. -/
def overlong : Platform where
  json := { dump := fun _ => none, parse := fun _ => .error .parseError }
  getenv name :=
    if name = ascii "JWT_SECRET" then some (ascii "secret")
    else if name = ascii "JWT_EXPIRES_SECONDS" then some (ascii "4294967297")
    else none
  sha256 _ := []

/-- The server starts, and its tokens expire after a second. -/
theorem overlong_lifetime :
    ¬ Configured (overlong.getenv (ascii "JWT_EXPIRES_SECONDS")) 3600
        (overlong.getEnvIntOrDefault "JWT_EXPIRES_SECONDS" 3600) ∧
      JwtUtils.getExpiresSeconds overlong = 1 ∧ (readSettings overlong).check = .ok 4096 := by
  refine ⟨?_, by decide, by decide⟩
  intro h
  have hdenotes : Denotes (ascii "4294967297") 4294967297 :=
    ⟨[], [], ascii "4294967297", ⟨rfl, nofun, Or.inl rfl, by decide +kernel, by decide +kernel⟩, by decide +kernel⟩
  have hwraps := (configured_iff (by decide)).mp h (ascii "4294967297") 4294967297 (by decide) hdenotes
  unfold FitsInt WrapsTo at hwraps
  revert hwraps
  decide

end Runtime
end ResourceServer

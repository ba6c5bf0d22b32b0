import ResourceServer.Service.Actions

/-!
# Resource cache

The Redis keys of a user's resources and of the list of them, and the cache functions of
the services. The two key formats never collide.
-/

namespace ResourceServer
namespace Service

open CString

/-- The entries of the cache. -/
inductive CacheKey where
  | resource (userId id : ℤ)
  | list (userId : ℤ)
  deriving DecidableEq, Repr

namespace CacheKey

/-- `resource_key` and `resources_key`. -/
def text : CacheKey → Bytes
  | .resource userId id =>
    ascii "resource:" ++ Decimal.ofInt userId ++ ascii ":" ++ Decimal.ofInt id
  | .list userId => ascii "resources:user:" ++ Decimal.ofInt userId

/-- Single-resource entries can live longer because they are invalidated by id. -/
def ttl : CacheKey → ℕ
  | .resource .. => 300
  | .list _ => 120

/-- The user whose data an entry holds. -/
def owner : CacheKey → ℤ
  | .resource userId _ => userId
  | .list userId => userId

end CacheKey

namespace ResourceCache

def get (k : CacheKey) : ServiceProg (Option Bytes) := act (.redisGet k.text)

def set (k : CacheKey) (value : Bytes) : ServiceProg Bool :=
  act (.redisSetex k.text k.ttl value)

def invalidate (k : CacheKey) : ServiceProg Bool := act (.redisDel k.text)

def getResource (userId id : ℤ) : ServiceProg (Option Bytes) := get (.resource userId id)

def setResource (userId id : ℤ) (value : Bytes) : ServiceProg Bool := set (.resource userId id) value

def invalidateResource (userId id : ℤ) : ServiceProg Bool := invalidate (.resource userId id)

def getResources (userId : ℤ) : ServiceProg (Option Bytes) := get (.list userId)

def setResources (userId : ℤ) (value : Bytes) : ServiceProg Bool := set (.list userId) value

def invalidateResources (userId : ℤ) : ServiceProg Bool := invalidate (.list userId)

end ResourceCache

theorem ofInt_stop_injective {stop : UInt8} (hstop : ∀ k : ℤ, stop ∉ Decimal.ofInt k) {m n : ℤ}
    {s t : Bytes} (h : Decimal.ofInt m ++ stop :: s = Decimal.ofInt n ++ stop :: t) :
    m = n ∧ s = t := by
  have htake (k : ℤ) (rest : Bytes) :
      (Decimal.ofInt k ++ stop :: rest).takeWhile (· != stop) = Decimal.ofInt k := by
    rw [List.takeWhile_append_of_pos, List.takeWhile_cons_of_neg (by simp), List.append_nil]
    intro b hb
    have : b ≠ stop := fun h => hstop k (h ▸ hb)
    simpa using this
  have hnum : Decimal.ofInt m = Decimal.ofInt n := by rw [← htake m s, h, htake]
  rw [hnum] at h
  exact ⟨Decimal.ofInt_injective hnum, (List.cons.inj (List.append_cancel_left h)).2⟩

theorem ofInt_colon_injective {m n : ℤ} {s t : Bytes}
    (h : Decimal.ofInt m ++ 58 :: s = Decimal.ofInt n ++ 58 :: t) : m = n ∧ s = t :=
  ofInt_stop_injective Decimal.colon_notMem_ofInt h

theorem CacheKey.text_injective : Function.Injective CacheKey.text := by
  intro k k' h
  cases k with
  | resource u i =>
    cases k' with
    | resource u' i' =>
      simp only [text, List.append_assoc] at h
      obtain ⟨rfl, hid⟩ := ofInt_colon_injective (List.append_cancel_left h)
      rw [Decimal.ofInt_injective hid]
    | list u' => exact absurd (congrArg (·[8]?) h) (by simp [text, ascii])
  | list u =>
    cases k' with
    | resource u' i' => exact absurd (congrArg (·[8]?) h) (by simp [text, ascii])
    | list u' =>
      rw [Decimal.ofInt_injective (List.append_cancel_left h)]

end Service
end ResourceServer

import Mathlib.Data.List.Nodup
import Mathlib.Logic.Function.Basic

/-!
# Assignments that may be cut short

Assignments to the keys of a store, carried out one after another until one fails. A
failure leaves the assignments before it behind; the store is as it was just where these
assigned what the keys held.
-/

namespace ResourceServer
namespace Assignments

variable {κ ν : Type} [DecidableEq κ]

def assign (s : κ → ν) (w : κ × ν) : κ → ν := Function.update s w.1 w.2

def assignAll (s : κ → ν) (ws : List (κ × ν)) : κ → ν := ws.foldl assign s

/-- How many of `n` calls succeed before the first failure. -/
def carriedOut (fails : ℕ → Bool) : ℕ → ℕ
  | 0 => 0
  | n + 1 => if fails 0 then 0 else carriedOut (fun i => fails (i + 1)) n + 1

/-- The assignments until the first that fails, with whether none has. -/
def attempt (fails : ℕ → Bool) : List (κ × ν) → (κ → ν) → Bool × (κ → ν)
  | [], s => (true, s)
  | w :: ws, s => if fails 0 then (false, s) else attempt (fun i => fails (i + 1)) ws (assign s w)

variable {s : κ → ν} {ws : List (κ × ν)} {fails : ℕ → Bool}

theorem carriedOut_le (fails : ℕ → Bool) (n : ℕ) : carriedOut fails n ≤ n := by
  induction n generalizing fails with
  | zero => exact Nat.le_refl _
  | succ n ih =>
    rw [carriedOut]
    split_ifs
    · exact Nat.zero_le _
    · exact Nat.succ_le_succ (ih _)

theorem attempt_eq (fails : ℕ → Bool) (ws : List (κ × ν)) (s : κ → ν) :
    attempt fails ws s = (decide (carriedOut fails ws.length = ws.length),
      assignAll s (ws.take (carriedOut fails ws.length))) := by
  induction ws generalizing fails s with
  | nil => rfl
  | cons w ws ih =>
    rw [attempt, List.length_cons, carriedOut]
    split_ifs with hfails
    · simp [assignAll]
    · rw [ih]
      simp [assignAll]

theorem assignAll_of_notMem {key : κ} (h : key ∉ ws.map Prod.fst) : assignAll s ws key = s key := by
  induction ws generalizing s with
  | nil => rfl
  | cons w ws ih =>
    rw [List.map_cons, List.mem_cons, not_or] at h
    exact (ih h.2).trans (Function.update_of_ne h.1 ..)

theorem assignAll_of_mem (hkeys : (ws.map Prod.fst).Nodup) {w : κ × ν} (hw : w ∈ ws) :
    assignAll s ws w.1 = w.2 := by
  induction ws generalizing s with
  | nil => cases hw
  | cons w' ws ih =>
    rw [List.map_cons, List.nodup_cons] at hkeys
    rcases List.mem_cons.mp hw with rfl | hw
    · exact (assignAll_of_notMem hkeys.1).trans (Function.update_self ..)
    · exact ih hkeys.2 hw

theorem assignAll_eq_self_iff (hkeys : (ws.map Prod.fst).Nodup) :
    assignAll s ws = s ↔ ∀ w ∈ ws, s w.1 = w.2 := by
  constructor
  · intro h w hw
    rw [← assignAll_of_mem (s := s) hkeys hw, h]
  · intro h
    funext key
    by_cases hkey : key ∈ ws.map Prod.fst
    · obtain ⟨w, hw, rfl⟩ := List.mem_map.mp hkey
      exact (assignAll_of_mem hkeys hw).trans (h w hw).symm
    · exact assignAll_of_notMem hkey

theorem assignAll_eq_self_of_keys {keys : List κ} (hsub : ws.map Prod.fst ⊆ keys)
    (h : ∀ key ∈ keys, assignAll s ws key = s key) : assignAll s ws = s := by
  funext key
  by_cases hkey : key ∈ keys
  · exact h key hkey
  · exact assignAll_of_notMem fun hmem => hkey (hsub hmem)

/-- What was assigned before the failure was there already. -/
def Idle (fails : ℕ → Bool) (ws : List (κ × ν)) (s : κ → ν) : Prop :=
  carriedOut fails ws.length < ws.length →
    ∀ w ∈ ws.take (carriedOut fails ws.length), s w.1 = w.2

/-- **All or nothing.** -/
theorem attempt_undone_iff (hkeys : (ws.map Prod.fst).Nodup) :
    ((attempt fails ws s).1 = false → (attempt fails ws s).2 = s) ↔ Idle fails ws s := by
  have htake : ((ws.take (carriedOut fails ws.length)).map Prod.fst).Nodup := by
    rw [List.map_take]
    exact hkeys.sublist (List.take_sublist ..)
  have hlt : carriedOut fails ws.length < ws.length ↔ ¬ carriedOut fails ws.length = ws.length := by
    have := carriedOut_le fails ws.length
    omega
  rw [attempt_eq, Idle, assignAll_eq_self_iff htake, hlt, decide_eq_false_iff_not]

theorem attempt_done (h : (attempt fails ws s).1 = true) : (attempt fails ws s).2 = assignAll s ws := by
  rw [attempt_eq, decide_eq_true_eq] at h
  rw [attempt_eq, h, List.take_length]

end Assignments
end ResourceServer

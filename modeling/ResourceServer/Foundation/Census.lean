import Mathlib.Algebra.BigOperators.Group.Finset.Basic
import Mathlib.Data.Fintype.Basic
import Mathlib.Data.Finset.Card
import Mathlib.Logic.Function.Basic

/-!
# Counting agents

How many agents of a finite collection are in a given condition, and how that number, or any
sum over the agents, changes when one agent moves.
-/

namespace ResourceServer

variable {ι α β : Type} [Fintype ι]

/-- The number of agents in condition `p`. -/
def census (p : α → Prop) [DecidablePred p] (f : ι → α) : ℕ :=
  (Finset.univ.filter fun i => p (f i)).card

variable {p : α → Prop} [DecidablePred p] {f : ι → α}

theorem census_pos_iff : 0 < census p f ↔ ∃ i, p (f i) := by
  unfold census
  rw [Finset.card_pos]
  constructor
  · rintro ⟨i, hi⟩
    exact ⟨i, (Finset.mem_filter.mp hi).2⟩
  · rintro ⟨i, hi⟩
    exact ⟨i, Finset.mem_filter.mpr ⟨Finset.mem_univ i, hi⟩⟩

theorem census_eq_zero (h : ∀ i, ¬ p (f i)) : census p f = 0 := by
  by_contra hne
  obtain ⟨i, hi⟩ := census_pos_iff.mp (Nat.pos_of_ne_zero hne)
  exact h i hi

/-- Where at most one agent is counted, two counted agents are the same. -/
theorem eq_of_census_le_one (h : census p f ≤ 1) {i j : ι} (hi : p (f i)) (hj : p (f j)) : i = j := by
  unfold census at h
  exact Finset.card_le_one.mp h i (Finset.mem_filter.mpr ⟨Finset.mem_univ i, hi⟩) j
    (Finset.mem_filter.mpr ⟨Finset.mem_univ j, hj⟩)

variable [DecidableEq ι]

/-- The census after agent `i` has moved to `a`. -/
theorem census_update (f : ι → α) (i : ι) (a : α) :
    census p (Function.update f i a) + (if p (f i) then 1 else 0) =
      census p f + (if p a then 1 else 0) := by
  have hrest (g : ι → α) : census p g =
      (if p (g i) then 1 else 0) + ((Finset.univ.erase i).filter fun j => p (g j)).card := by
    unfold census
    rw [← Finset.insert_erase (Finset.mem_univ i), Finset.filter_insert]
    split_ifs with hi
    · rw [Finset.card_insert_of_notMem (by simp), Finset.insert_erase (Finset.mem_univ i)]
      omega
    · rw [Finset.insert_erase (Finset.mem_univ i)]
      omega
  have hothers : ((Finset.univ.erase i).filter fun j => p (Function.update f i a j)) =
      (Finset.univ.erase i).filter fun j => p (f j) := by
    apply Finset.filter_congr
    intro j hj
    rw [Function.update_of_ne (Finset.ne_of_mem_erase hj)]
  rw [hrest (Function.update f i a), hrest f, hothers, Function.update_self]
  omega

/-- Two sums over the agents that differ at agent `i` only. -/
theorem sum_of_eq_off {f g : ι → ℕ} (i : ι) (h : ∀ j, j ≠ i → g j = f j) :
    (∑ j, g j) + f i = (∑ j, f j) + g i := by
  have hrest : ∑ j ∈ Finset.univ.erase i, g j = ∑ j ∈ Finset.univ.erase i, f j :=
    Finset.sum_congr rfl fun j hj => h j (Finset.ne_of_mem_erase hj)
  rw [← Finset.add_sum_erase _ g (Finset.mem_univ i), ← Finset.add_sum_erase _ f (Finset.mem_univ i), hrest]
  omega

/-- A sum over the agents after agent `i` has moved to `a`. -/
theorem sum_update {w : α → ℕ} (f : ι → α) (i : ι) (a : α) :
    (∑ j, w (Function.update f i a j)) + w (f i) = (∑ j, w (f j)) + w a := by
  have hsum := sum_of_eq_off (f := fun j => w (f j)) (g := fun j => w (Function.update f i a j)) i
    fun j hj => by rw [Function.update_of_ne hj]
  rwa [Function.update_self] at hsum

end ResourceServer

import Mathlib.Data.List.Induction
import Mathlib.Data.Nat.Notation
import Mathlib.Logic.Relation

/-!
# Labelled transition systems

Runs of a step relation whose every step satisfies a condition on the state before it
and its label. Reachability is the case without a condition.
-/

namespace ResourceServer

variable {σ ℓ : Type}

/-- Runs in which every step satisfies `C`. -/
def Runs (step : σ → ℓ → σ → Prop) (C : σ → ℓ → Prop) : σ → σ → Prop :=
  Relation.ReflTransGen fun s s' => ∃ l, step s l s' ∧ C s l

def Reaches (step : σ → ℓ → σ → Prop) : σ → σ → Prop := Runs step fun _ _ => True

namespace Runs

variable {step : σ → ℓ → σ → Prop} {C D : σ → ℓ → Prop} {s s' s'' : σ}

theorem refl : Runs step C s s := Relation.ReflTransGen.refl

theorem snoc {l : ℓ} (hrun : Runs step C s s') (hstep : step s' l s'') (hC : C s' l) :
    Runs step C s s'' := Relation.ReflTransGen.tail hrun ⟨l, hstep, hC⟩

theorem cons {l : ℓ} (hstep : step s l s') (hC : C s l) (hrun : Runs step C s' s'') :
    Runs step C s s'' := Relation.ReflTransGen.head ⟨l, hstep, hC⟩ hrun

theorem trans (hrun : Runs step C s s') (hrun' : Runs step C s' s'') : Runs step C s s'' :=
  Relation.ReflTransGen.trans hrun hrun'

theorem mono (h : ∀ s l, C s l → D s l) (hrun : Runs step C s s') : Runs step D s s' :=
  Relation.ReflTransGen.mono (fun _ _ ⟨l, hstep, hC⟩ => ⟨l, hstep, h _ l hC⟩) _ _ hrun

theorem reaches (hrun : Runs step C s s') : Reaches step s s' := hrun.mono fun _ _ _ => trivial

/-- What holds at the start and is kept by every step of a run holds at its end. -/
theorem invariant {I : σ → Prop} (hrun : Runs step C s s')
    (hstep : ∀ s l s', I s → C s l → step s l s' → I s') (hs : I s) : I s' := by
  induction hrun with
  | refl => exact hs
  | tail _ h ih =>
    obtain ⟨l, h, hC⟩ := h
    exact hstep _ l _ ih hC h

end Runs

/-- Runs with their labels. -/
inductive Path (step : σ → ℓ → σ → Prop) : σ → List ℓ → σ → Prop where
  | nil (s : σ) : Path step s [] s
  | cons {s s' s'' : σ} {l : ℓ} {ls : List ℓ} (hstep : step s l s') (hpath : Path step s' ls s'') :
      Path step s (l :: ls) s''

theorem Path.snoc {step : σ → ℓ → σ → Prop} {s s' s'' : σ} {l : ℓ} {ls : List ℓ} (hpath : Path step s ls s')
    (hstep : step s' l s'') : Path step s (ls ++ [l]) s'' := by
  induction hpath with
  | nil => exact .cons hstep (.nil s'')
  | cons hfirst _ ih => exact .cons hfirst (ih hstep)

theorem Path.append {step : σ → ℓ → σ → Prop} {s s' s'' : σ} {ls ls' : List ℓ}
    (hpath : Path step s ls s') (hrest : Path step s' ls' s'') : Path step s (ls ++ ls') s'' := by
  induction hpath with
  | nil => exact hrest
  | cons hstep _ ih => exact .cons hstep (ih hrest)

theorem Path.split {step : σ → ℓ → σ → Prop} {s s' : σ} {ls ls' : List ℓ}
    (hpath : Path step s (ls ++ ls') s') : ∃ s₁, Path step s ls s₁ ∧ Path step s₁ ls' s' := by
  induction ls generalizing s with
  | nil => exact ⟨s, .nil s, hpath⟩
  | cons l ls ih =>
    cases hpath with
    | cons hstep htail =>
      obtain ⟨s₁, hfirst, hrest⟩ := ih htail
      exact ⟨s₁, .cons hstep hfirst, hrest⟩

/-- What holds at the start and is kept by every step, of a path whose labels meet a condition on
those before them, holds at its end. -/
theorem Path.invariant {step : σ → ℓ → σ → Prop} {C : List ℓ → ℓ → Prop} {I : List ℓ → σ → Prop}
    {s s' : σ} {ls : List ℓ} (hpath : Path step s ls s')
    (hC : ∀ before l after, ls = before ++ l :: after → C before l)
    (hstep : ∀ before s₁ l s₂, Path step s before s₁ → I before s₁ → C before l → step s₁ l s₂ →
      I (before ++ [l]) s₂) (hs : I [] s) : I ls s' := by
  induction ls using List.reverseRecOn generalizing s' with
  | nil =>
    cases hpath
    exact hs
  | append_singleton ls l ih =>
    obtain ⟨s₁, hfirst, hlast⟩ := hpath.split
    cases hlast with
    | cons h htail =>
      cases htail
      have hI : I ls s₁ := ih hfirst fun before l' after hls =>
        hC before l' (after ++ [l]) (by rw [hls, List.append_assoc, List.cons_append])
      exact hstep ls s₁ l s' hfirst hI (hC ls l [] rfl) h

/-- A run whose condition is one on the labels is a path of such labels. -/
theorem Runs.exists_path {step : σ → ℓ → σ → Prop} {C : ℓ → Prop} {s s' : σ}
    (hrun : Runs step (fun _ l => C l) s s') : ∃ ls, Path step s ls s' ∧ ∀ l ∈ ls, C l := by
  induction hrun using Relation.ReflTransGen.head_induction_on with
  | refl => exact ⟨[], .nil s', nofun⟩
  | head hfirst _ ih =>
    obtain ⟨l, hstep, hC⟩ := hfirst
    obtain ⟨ls, hpath, hls⟩ := ih
    refine ⟨l :: ls, .cons hstep hpath, fun l' hl' => ?_⟩
    rcases List.mem_cons.mp hl' with rfl | hl'
    · exact hC
    · exact hls l' hl'

theorem Path.simulate {τ : Type} {step : σ → ℓ → σ → Prop} {step' : τ → ℓ → τ → Prop}
    {C : ℓ → Prop} {J : σ → τ → Prop} {s s' : σ} {ls : List ℓ} (hpath : Path step s ls s')
    (hstep : ∀ s l s' t, C l → J s t → step s l s' → ∃ t', step' t l t' ∧ J s' t')
    (hC : ∀ l ∈ ls, C l) {t : τ} (hJ : J s t) : ∃ t', Path step' t ls t' ∧ J s' t' := by
  induction hpath generalizing t with
  | nil s => exact ⟨t, .nil t, hJ⟩
  | cons h _ ih =>
    obtain ⟨t₁, ht₁, hJ₁⟩ := hstep _ _ _ t (hC _ List.mem_cons_self) hJ h
    obtain ⟨t', ht', hJ'⟩ := ih (fun l hl => hC l (List.mem_cons_of_mem _ hl)) hJ₁
    exact ⟨t', .cons ht₁ ht', hJ'⟩

/-- Where every step lowers `μ`, a path is no longer than `μ` says at its start. -/
theorem Path.length_le {step : σ → ℓ → σ → Prop} {C : ℓ → Prop} {I : σ → Prop} {s s' : σ} {ls : List ℓ}
    (μ : σ → ℕ) (hpath : Path step s ls s')
    (hstep : ∀ s l s', I s → C l → step s l s' → I s' ∧ μ s' < μ s) (hC : ∀ l ∈ ls, C l) (hs : I s) :
    ls.length + μ s' ≤ μ s := by
  induction hpath with
  | nil => exact Nat.le_of_eq (Nat.zero_add _)
  | cons h _ ih =>
    obtain ⟨hnext, hlt⟩ := hstep _ _ _ hs (hC _ List.mem_cons_self) h
    have hle := ih (fun l hl => hC l (List.mem_cons_of_mem _ hl)) hnext
    rw [List.length_cons]
    omega

/-- Where no step raises `μ` and every step in `p` lowers it, a path has no more steps in `p` than
`μ` says at its start. -/
theorem Path.countP_le {step : σ → ℓ → σ → Prop} {I : σ → Prop} {s s' : σ} {ls : List ℓ} (μ : σ → ℕ)
    (p : ℓ → Bool) (hpath : Path step s ls s')
    (hstep : ∀ s l s', I s → step s l s' → I s' ∧ μ s' ≤ μ s ∧ (p l → μ s' < μ s)) (hs : I s) :
    ls.countP p + μ s' ≤ μ s := by
  induction hpath with
  | nil => exact Nat.le_of_eq (Nat.zero_add _)
  | @cons s s₁ s' l ls h _ ih =>
    obtain ⟨hnext, hle, hlt⟩ := hstep _ _ _ hs h
    have hrest := ih hnext
    rw [List.countP_cons]
    by_cases hl : p l
    · have hlower := hlt hl
      rw [if_pos hl]
      omega
    · rw [if_neg hl]
      omega

theorem Reaches.invariant {step : σ → ℓ → σ → Prop} {I : σ → Prop} {s s' : σ}
    (hrun : Reaches step s s') (hstep : ∀ s l s', I s → step s l s' → I s') (hs : I s) : I s' :=
  Runs.invariant hrun (fun s l s' hI _ h => hstep s l s' hI h) hs

/-- **Progress.** Where `D` does not hold, some step keeps `I` and lowers `μ`. -/
theorem Reaches.exists_of_measure {step : σ → ℓ → σ → Prop} {I D : σ → Prop} {s : σ} (μ : σ → ℕ)
    (hstep : ∀ s, I s → D s ∨ ∃ l s', step s l s' ∧ I s' ∧ μ s' < μ s) (hs : I s) :
    ∃ s', Reaches step s s' ∧ D s' := by
  induction hn : μ s using Nat.strongRecOn generalizing s with
  | ind n ih =>
    rcases hstep s hs with hdone | ⟨l, s₁, hfirst, hs₁, hlt⟩
    · exact ⟨s, .refl, hdone⟩
    · rw [hn] at hlt
      obtain ⟨s', hrun, hdone⟩ := ih (μ s₁) hlt hs₁ rfl
      exact ⟨s', .cons hfirst trivial hrun, hdone⟩

end ResourceServer

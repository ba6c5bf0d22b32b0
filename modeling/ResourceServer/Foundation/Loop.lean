import Mathlib.Data.List.Count

/-!
# Loops that may not end

One pass of a loop evaluates its condition and, if that holds, runs the body, which returns
or comes back to the condition. `Loops` are the runs that end, with one event for each
execution of the body. A loop whose passes lower a measure ends, and any budget above the
number of its events computes the same.
-/

namespace ResourceServer

inductive Pass (σ ε β : Type) where
  -- the condition fails
  | skip (b : β)
  -- the body returns from the function
  | ret (e : ε) (b : β)
  | again (e : ε) (s : σ)

variable {σ ε β : Type}

def runLoop (pass : σ → Pass σ ε β) (spent : β) : ℕ → σ → β
  | 0, _ => spent
  | n + 1, s =>
    match pass s with
    | .skip b => b
    | .ret _ b => b
    | .again _ s' => runLoop pass spent n s'

inductive Loops (pass : σ → Pass σ ε β) : σ → List ε → β → Prop where
  | skip {s : σ} {b : β} (hpass : pass s = .skip b) : Loops pass s [] b
  | ret {s : σ} {e : ε} {b : β} (hpass : pass s = .ret e b) : Loops pass s [e] b
  | again {s s' : σ} {e : ε} {es : List ε} {b : β} (hpass : pass s = .again e s')
      (hrest : Loops pass s' es b) : Loops pass s (e :: es) b

namespace Loops

variable {pass : σ → Pass σ ε β} {s : σ} {es : List ε} {b : β} {I : σ → Prop}

/-- A run that ends needs no more budget than one pass beyond its events. -/
theorem runLoop_eq (h : Loops pass s es b) (spent : β) :
    ∀ n, es.length < n → runLoop pass spent n s = b := by
  induction h with
  | skip hpass =>
    intro n hn
    obtain ⟨n, rfl⟩ := Nat.exists_eq_add_one.mpr (Nat.zero_lt_of_lt hn)
    rw [runLoop, hpass]
  | ret hpass =>
    intro n hn
    obtain ⟨n, rfl⟩ := Nat.exists_eq_add_one.mpr (Nat.zero_lt_of_lt hn)
    rw [runLoop, hpass]
  | again hpass hrest ih =>
    intro n hn
    obtain ⟨n, rfl⟩ := Nat.exists_eq_add_one.mpr (Nat.zero_lt_of_lt hn)
    rw [runLoop, hpass]
    exact ih n (Nat.lt_of_succ_lt_succ hn)

/-- **Termination.** Each pass that comes back keeps `I` and lowers `μ`. -/
theorem exists_of_measure (μ : σ → ℕ)
    (hagain : ∀ s e s', I s → pass s = .again e s' → I s' ∧ μ s' < μ s) (hs : I s) :
    ∃ es b, Loops pass s es b ∧ es.length ≤ μ s + 1 := by
  induction hn : μ s using Nat.strongRecOn generalizing s with
  | ind n ih =>
    cases hpass : pass s with
    | skip b => exact ⟨[], b, .skip hpass, Nat.zero_le _⟩
    | ret e b => exact ⟨[e], b, .ret hpass, Nat.succ_le_succ (Nat.zero_le _)⟩
    | again e s' =>
      obtain ⟨hs', hlt⟩ := hagain s e s' hs hpass
      rw [hn] at hlt
      obtain ⟨es, b, hloops, hlength⟩ := ih (μ s') hlt hs' rfl
      refine ⟨e :: es, b, .again hpass hloops, ?_⟩
      rw [List.length_cons]
      omega

/-- What every pass guarantees of its event and its result holds of all events and of the
result of the loop. -/
theorem rule {P : ε → Prop} {Q : β → Prop} (hskip : ∀ s b, I s → pass s = .skip b → Q b)
    (hret : ∀ s e b, I s → pass s = .ret e b → P e ∧ Q b)
    (hagain : ∀ s e s', I s → pass s = .again e s' → P e ∧ I s')
    (h : Loops pass s es b) (hs : I s) : (∀ e ∈ es, P e) ∧ Q b := by
  induction h with
  | skip hpass => exact ⟨nofun, hskip _ _ hs hpass⟩
  | ret hpass =>
    obtain ⟨he, hb⟩ := hret _ _ _ hs hpass
    exact ⟨List.forall_mem_singleton.mpr he, hb⟩
  | again hpass hrest ih =>
    obtain ⟨he, hs'⟩ := hagain _ _ _ hs hpass
    obtain ⟨hes, hb⟩ := ih hs'
    exact ⟨List.forall_mem_cons.mpr ⟨he, hes⟩, hb⟩

/-- A result that only an execution of the body can bring about has its event. -/
theorem exists_event {P : ε → Prop} {Q : β → Prop} (hskip : ∀ s b, I s → pass s = .skip b → ¬ Q b)
    (hret : ∀ s e b, I s → pass s = .ret e b → Q b → P e)
    (hagain : ∀ s e s', I s → pass s = .again e s' → I s')
    (h : Loops pass s es b) (hs : I s) (hb : Q b) : ∃ e ∈ es, P e := by
  induction h with
  | skip hpass => exact absurd hb (hskip _ _ hs hpass)
  | ret hpass => exact ⟨_, List.mem_cons_self, hret _ _ _ hs hpass hb⟩
  | again hpass hrest ih =>
    obtain ⟨e, he, hP⟩ := ih (hagain _ _ _ hs hpass) hb
    exact ⟨e, List.mem_cons_of_mem _ he, hP⟩

/-- Events after which the loop does not come back happen at most once. -/
theorem countP_le_one {p : ε → Bool}
    (hagain : ∀ s e s', I s → pass s = .again e s' → p e = false ∧ I s')
    (h : Loops pass s es b) (hs : I s) : es.countP p ≤ 1 := by
  induction h with
  | skip hpass => exact Nat.zero_le _
  | ret hpass => exact List.countP_le_length
  | again hpass hrest ih =>
    obtain ⟨he, hs'⟩ := hagain _ _ _ hs hpass
    rw [List.countP_cons_of_neg (by simp [he])]
    exact ih hs'

end Loops
end ResourceServer

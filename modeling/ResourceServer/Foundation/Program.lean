import Mathlib.Logic.Function.Basic
import ResourceServer.Foundation.Transition

/-!
# Programs over an environment

A program performs operations of an environment one at a time and goes on with what
each returns. An environment relates the state before an operation to its result and
the state after it, so an operation may fail or return different results. `Exec` runs a
program alone, and `Pool.Step` interleaves any number of programs on a shared state.
`Traces` states what holds of a program's own history in either case.
-/

namespace ResourceServer

/-- The operations of an environment and what each returns. -/
structure Signature where
  Op : Type
  Ret : Op → Type

inductive Prog (E : Signature) (α : Type) where
  | ret (a : α)
  | call (op : E.Op) (k : E.Ret op → Prog E α)

/-- An operation with its result. -/
structure Event (E : Signature) where
  op : E.Op
  result : E.Ret op

abbrev Env (E : Signature) (σ : Type) := (op : E.Op) → σ → E.Ret op → σ → Prop

namespace Prog

variable {E : Signature} {σ τ α β γ : Type}

def bind : Prog E α → (α → Prog E β) → Prog E β
  | .ret a, f => f a
  | .call op k, f => .call op fun r => (k r).bind f

instance : Monad (Prog E) where
  pure := .ret
  bind := bind

@[simp] theorem call_bind (op : E.Op) (k : E.Ret op → Prog E α) (f : α → Prog E β) :
    (Prog.call op k >>= f) = .call op fun r => k r >>= f := rfl

/-- Every operation on every path satisfies `P`. -/
def Calls (P : E.Op → Prop) : Prog E α → Prop
  | .ret _ => True
  | .call op k => P op ∧ ∀ r, (k r).Calls P

theorem Calls.bind {P : E.Op → Prop} {p : Prog E α} {f : α → Prog E β} (hp : p.Calls P)
    (hf : ∀ a, (f a).Calls P) : (p >>= f).Calls P := by
  induction p with
  | ret a => exact hf a
  | call op k ih => exact ⟨hp.1, fun r => ih r (hp.2 r)⟩

/-- No path has more than `n` operations. -/
def Within : Prog E α → ℕ → Prop
  | .ret _, _ => True
  | .call _ k, n => 0 < n ∧ ∀ r, (k r).Within (n - 1)

theorem Within.mono {p : Prog E α} {m n : ℕ} (h : p.Within m) (hle : m ≤ n) : p.Within n := by
  induction p generalizing m n with
  | ret a => trivial
  | call op k ih => exact ⟨Nat.lt_of_lt_of_le h.1 hle, fun r => ih r (h.2 r) (Nat.sub_le_sub_right hle 1)⟩

theorem Within.bind {p : Prog E α} {f : α → Prog E β} {m n : ℕ} (hp : p.Within m)
    (hf : ∀ a, (f a).Within n) : (p >>= f).Within (m + n) := by
  induction p generalizing m with
  | ret a => exact (hf a).mono (Nat.le_add_left n m)
  | call op k ih =>
    obtain ⟨hpos, hk⟩ := hp
    refine ⟨Nat.add_pos_left hpos n, fun r => ?_⟩
    have hrest := ih r (hk r)
    exact hrest.mono (by omega)

inductive Exec (R : Env E σ) : σ → Prog E α → List (Event E) → σ → α → Prop where
  | ret (s : σ) (a : α) : Exec R s (.ret a) [] s a
  | call {s s' s'' : σ} {op : E.Op} {r : E.Ret op} {k : E.Ret op → Prog E α}
      {t : List (Event E)} {a : α} (hstep : R op s r s') (htail : Exec R s' (k r) t s'' a) :
      Exec R s (.call op k) (⟨op, r⟩ :: t) s'' a

variable {R : Env E σ}

theorem exec_ret_iff {s s' : σ} {a b : α} {t : List (Event E)} :
    Exec R s (.ret a) t s' b ↔ t = [] ∧ s' = s ∧ b = a := by
  constructor
  · rintro ⟨⟩
    exact ⟨rfl, rfl, rfl⟩
  · rintro ⟨rfl, rfl, rfl⟩
    exact .ret _ _

theorem exec_call_iff {s s'' : σ} {op : E.Op} {k : E.Ret op → Prog E α} {t : List (Event E)}
    {a : α} : Exec R s (.call op k) t s'' a ↔
      ∃ r s' t', R op s r s' ∧ t = ⟨op, r⟩ :: t' ∧ Exec R s' (k r) t' s'' a := by
  constructor
  · rintro (_ | ⟨hstep, htail⟩)
    exact ⟨_, _, _, hstep, rfl, htail⟩
  · rintro ⟨r, s', t', hstep, rfl, htail⟩
    exact .call hstep htail

theorem exec_bind_iff {s s'' : σ} {p : Prog E α} {f : α → Prog E β} {t : List (Event E)} {b : β} :
    Exec R s (p >>= f) t s'' b ↔
      ∃ t₁ s' a t₂, Exec R s p t₁ s' a ∧ Exec R s' (f a) t₂ s'' b ∧ t = t₁ ++ t₂ := by
  induction p generalizing s t with
  | ret a =>
    constructor
    · exact fun h => ⟨[], s, a, t, .ret s a, h, rfl⟩
    · rintro ⟨t₁, s', a', t₂, h₁, h₂, rfl⟩
      obtain ⟨rfl, rfl, rfl⟩ := exec_ret_iff.mp h₁
      exact h₂
  | call op k ih =>
    rw [call_bind, exec_call_iff]
    constructor
    · rintro ⟨r, s', t', hstep, rfl, htail⟩
      obtain ⟨t₁, s₁, a, t₂, h₁, h₂, rfl⟩ := (ih r).mp htail
      exact ⟨⟨op, r⟩ :: t₁, s₁, a, t₂, .call hstep h₁, h₂, rfl⟩
    · rintro ⟨t₁, s₁, a, t₂, h₁, h₂, rfl⟩
      obtain ⟨r, s', t', hstep, rfl, htail⟩ := exec_call_iff.mp h₁
      exact ⟨r, s', t' ++ t₂, hstep, rfl, (ih r).mpr ⟨t', s₁, a, t₂, htail, h₂, rfl⟩⟩

/-- In an environment that answers everything every program comes to an end. -/
theorem exists_exec (hR : ∀ op s, ∃ r s', R op s r s') (p : Prog E α) (s : σ) : ∃ t s' a, Exec R s p t s' a := by
  induction p generalizing s with
  | ret a => exact ⟨[], s, a, .ret s a⟩
  | call op k ih =>
    obtain ⟨r, s', hstep⟩ := hR op s
    obtain ⟨t, s'', a, htail⟩ := ih r s'
    exact ⟨⟨op, r⟩ :: t, s'', a, .call hstep htail⟩

theorem Exec.events {P : E.Op → Prop} {p : Prog E α} {s s' : σ} {t : List (Event E)} {a : α}
    (hexec : Exec R s p t s' a) (hcalls : p.Calls P) : ∀ e ∈ t, P e.op := by
  induction hexec with
  | ret s a => simp
  | call _ _ ih =>
    intro e he
    rcases List.mem_cons.mp he with rfl | he
    · exact hcalls.1
    · exact ih (hcalls.2 _) e he

/-- Every event of a run is a step of the environment. -/
theorem Exec.does {p : Prog E α} {s s' : σ} {t : List (Event E)} {a : α} {e : Event E}
    (hexec : Exec R s p t s' a) (he : e ∈ t) : ∃ s₁ s₂, R e.op s₁ e.result s₂ := by
  induction hexec with
  | ret s a => cases he
  | call hstep _ ih =>
    rcases List.mem_cons.mp he with rfl | he
    · exact ⟨_, _, hstep⟩
    · exact ih he

/-- A run seen through a map of the states that turns every step into one of another
environment. -/
theorem Exec.map {S : Env E τ} {f : σ → τ} (hstep : ∀ op s r s', R op s r s' → S op (f s) r (f s'))
    {p : Prog E α} {s s' : σ} {t : List (Event E)} {a : α} (hexec : Exec R s p t s' a) :
    Exec S (f s) p t (f s') a := by
  induction hexec with
  | ret s a => exact .ret (f s) a
  | call h _ ih => exact .call (hstep _ _ _ _ h) ih

/-- The environment `S` amid the steps of another system: any number of these lie before and behind
each operation. -/
def Amid {ℓ : Type} (step : σ → ℓ → σ → Prop) (S : Env E σ) : Env E σ := fun op s r s' =>
  ∃ s₁ s₂, Reaches step s s₁ ∧ S op s₁ r s₂ ∧ Reaches step s₂ s'

/-- The other system need not take a step. -/
theorem amid_of {ℓ : Type} {step : σ → ℓ → σ → Prop} {S : Env E σ} {op : E.Op} {s s' : σ} {r : E.Ret op}
    (h : S op s r s') : Amid step S op s r s' := ⟨s, s', .refl, h, .refl⟩

/-- Behind the same events, the same operation has the same result in both histories. -/
def Consistent (t t' : List (Event E)) : Prop :=
  ∀ past e e', past ++ [e] <+: t → past ++ [e'] <+: t' → e.op = e'.op → e = e'

theorem Consistent.of_append {l t t' : List (Event E)} (h : Consistent (l ++ t) (l ++ t')) :
    Consistent t t' := by
  intro past e e' ht ht' hop
  refine h (l ++ past) e e' ?_ ?_ hop
  · rw [List.append_assoc]
    exact (List.prefix_append_right_inj l).mpr ht
  · rw [List.append_assoc]
    exact (List.prefix_append_right_inj l).mpr ht'

/-- A program has one run, whatever follows it, where the environment answers the same. -/
theorem Exec.unique {S : Env E τ} {p : Prog E α} {s s' : σ} {u u' : τ} {t t' r r' : List (Event E)}
    {a b : α} (h : Exec R s p t s' a) (h' : Exec S u p t' u' b)
    (hsame : Consistent (t ++ r) (t' ++ r')) : t = t' ∧ a = b := by
  induction h generalizing u t' with
  | ret s a =>
    obtain ⟨rfl, -, rfl⟩ := exec_ret_iff.mp h'
    exact ⟨rfl, rfl⟩
  | @call s s₁ s₂ op result k t a _ _ ih =>
    obtain ⟨result', u₁, t₁, -, rfl, htail⟩ := exec_call_iff.mp h'
    have hevent : (⟨op, result⟩ : Event E) = ⟨op, result'⟩ :=
      hsame [] _ _ (List.prefix_append [_] _) (List.prefix_append [_] _) rfl
    cases hevent
    obtain ⟨rfl, rfl⟩ := ih htail (Consistent.of_append (l := [⟨op, result⟩]) hsame)
    exact ⟨rfl, rfl⟩

/-- Every element of `l` is in `P` with those before it. -/
def Along {δ : Type} (P : List δ → δ → Prop) (l : List δ) : Prop :=
  ∀ before d after, l = before ++ d :: after → P before d

theorem along_nil {δ : Type} (P : List δ → δ → Prop) : Along P [] := by
  intro before d after h
  simp at h

theorem Along.of_append {δ : Type} {P : List δ → δ → Prop} {l l' : List δ}
    (h : Along P (l ++ l')) : Along P l :=
  fun before d after hl => h before d (after ++ l') (by simp [hl])

theorem along_snoc {δ : Type} {P : List δ → δ → Prop} {l : List δ} {d : δ} :
    Along P (l ++ [d]) ↔ Along P l ∧ P l d := by
  constructor
  · exact fun h => ⟨h.of_append, h l d [] rfl⟩
  · rintro ⟨hl, hd⟩ before e after h
    rcases List.eq_nil_or_concat after with rfl | ⟨after, last, rfl⟩
    · obtain ⟨rfl, hde⟩ := List.append_inj' h rfl
      cases hde
      exact hd
    · rw [List.concat_eq_append, ← List.cons_append, ← List.append_assoc] at h
      exact hl before e after (List.append_inj' h rfl).1

/-- `p`, with `past` behind it, only performs operations that `G` allows and ends as `Q`
says. -/
def Traces (G : E.Op → List (Event E) → Prop) (Q : α → List (Event E) → Prop) :
    Prog E α → List (Event E) → Prop
  | .ret a, past => Q a past
  | .call op k, past => G op past ∧ ∀ r, (k r).Traces G Q (past ++ [⟨op, r⟩])

variable {G : E.Op → List (Event E) → Prop}

theorem traces_bind {Q : β → List (Event E) → Prop} {p : Prog E α} {f : α → Prog E β}
    {past : List (Event E)} :
    (p >>= f).Traces G Q past ↔ p.Traces G (fun a => (f a).Traces G Q) past := by
  induction p generalizing past with
  | ret a => rfl
  | call op k ih => exact and_congr_right fun _ => forall_congr' fun r => ih r

/-- Two promises are kept together. -/
theorem Traces.and {H : E.Op → List (Event E) → Prop} {Q Q' : α → List (Event E) → Prop}
    {p : Prog E α} {past : List (Event E)} (hp : p.Traces G Q past) (hp' : p.Traces H Q' past) :
    p.Traces (fun op past => G op past ∧ H op past) (fun a past => Q a past ∧ Q' a past) past := by
  induction p generalizing past with
  | ret a => exact ⟨hp, hp'⟩
  | call op k ih => exact ⟨⟨hp.1, hp'.1⟩, fun r => ih r (hp.2 r) (hp'.2 r)⟩

theorem Traces.exists_end (hresults : ∀ op, Nonempty (E.Ret op)) {Q : α → List (Event E) → Prop} {p : Prog E α}
    {past : List (Event E)} (hp : p.Traces G Q past) : ∃ tail a, Q a (past ++ tail) := by
  induction p generalizing past with
  | ret a =>
    refine ⟨[], a, ?_⟩
    rw [List.append_nil]
    exact hp
  | call op k ih =>
    obtain ⟨r⟩ := hresults op
    obtain ⟨tail, a, hQ⟩ := ih r (hp.2 r)
    refine ⟨⟨op, r⟩ :: tail, a, ?_⟩
    rw [List.append_assoc] at hQ
    exact hQ

/-- What every allowed operation keeps of the history holds at the end of it. -/
theorem Traces.track {Q Q' : α → List (Event E) → Prop} {I : List (Event E) → Prop} {p : Prog E α}
    {past : List (Event E)} (hp : p.Traces G Q past)
    (hstep : ∀ op r past, G op past → I past → I (past ++ [⟨op, r⟩]))
    (hend : ∀ a past, Q a past → I past → Q' a past) (hpast : I past) : p.Traces G Q' past := by
  induction p generalizing past with
  | ret a => exact hend a past hp hpast
  | call op k ih => exact ⟨hp.1, fun r => ih r (hp.2 r) (hstep op r past hp.1 hpast)⟩

/-- A program that runs alone: its answer is as promised, every operation was allowed
where it was performed, and an invariant of state and history is kept. -/
theorem Exec.along {I : σ → List (Event E) → Prop} {Q : α → List (Event E) → Prop} {p : Prog E α} {s s' : σ}
    {t past : List (Event E)} {a : α} (hexec : Exec R s p t s' a) (hp : p.Traces G Q past)
    (hstep : ∀ op s r s' past, G op past → I s past → R op s r s' → I s' (past ++ [⟨op, r⟩]))
    (hs : I s past) :
    Q a (past ++ t) ∧ I s' (past ++ t) ∧
      ∀ before e after, t = before ++ e :: after → G e.op (past ++ before) := by
  induction hexec generalizing past with
  | ret s a =>
    rw [List.append_nil]
    exact ⟨hp, hs, by simp⟩
  | @call s s₁ s₂ op r k t a h _ ih =>
    obtain ⟨hop, hk⟩ := hp
    obtain ⟨hQ, hI, hG⟩ := ih (hk r) (hstep _ _ _ _ _ hop hs h)
    rw [← List.append_cons] at hQ hI
    refine ⟨hQ, hI, fun before e after ht => ?_⟩
    cases before with
    | nil =>
      cases ht
      simpa using hop
    | cons e' before =>
      obtain rfl := (List.cons.inj ht).1
      rw [List.append_cons]
      exact hG before e after (List.cons.inj ht).2

/-- What a program does in one environment it can do in another that follows its guarded
operations, with the same events and answer. -/
theorem Exec.simulate {S : Env E τ} {J : σ → τ → List (Event E) → Prop}
    {Q : α → List (Event E) → Prop} {p : Prog E α} {s s' : σ} {t past : List (Event E)} {a : α}
    (hexec : Exec R s p t s' a) (hp : p.Traces G Q past)
    (hstep : ∀ op s r s' u past, G op past → J s u past → R op s r s' →
      ∃ u', S op u r u' ∧ J s' u' (past ++ [⟨op, r⟩])) {u : τ} (hs : J s u past) :
    ∃ u', Exec S u p t u' a := by
  induction hexec generalizing u past with
  | ret s a => exact ⟨u, .ret u a⟩
  | call h _ ih =>
    obtain ⟨hop, hk⟩ := hp
    obtain ⟨u₁, hu₁, hJ⟩ := hstep _ _ _ _ _ _ hop hs h
    obtain ⟨u', hu'⟩ := ih (hk _) hJ
    exact ⟨u', .call hu₁ hu'⟩

end Prog

structure Thread (E : Signature) (α : Type) where
  past : List (Event E)
  prog : Prog E α

/-- Threads on a shared state. -/
structure Pool (E : Signature) (σ α ι : Type) where
  shared : σ
  threads : ι → Thread E α

namespace Pool

variable {E : Signature} {σ α ι : Type} [DecidableEq ι]

/-- Nothing has run yet. -/
def start (s : σ) (progs : ι → Prog E α) : Pool E σ α ι where
  shared := s
  threads i := ⟨[], progs i⟩

def Finished (pool : Pool E σ α ι) : Prop := ∀ i, ∃ a, (pool.threads i).prog = .ret a

/-- Thread `l.1` performs its next operation, as the event `l.2`. -/
inductive Step (R : Env E σ) : Pool E σ α ι → ι × Event E → Pool E σ α ι → Prop where
  | mk {pool : Pool E σ α ι} {i : ι} {e : Event E} {s' : σ} {k : E.Ret e.op → Prog E α}
      (hprog : (pool.threads i).prog = .call e.op k) (hstep : R e.op pool.shared e.result s') :
      Step R pool (i, e)
        ⟨s', Function.update pool.threads i ⟨(pool.threads i).past ++ [e], k e.result⟩⟩

variable {R : Env E σ} {G : ι → E.Op → List (Event E) → Prop} {Q : ι → α → List (Event E) → Prop}

/-- Every thread will keep to what its history promises. -/
def Keeps (G : ι → E.Op → List (Event E) → Prop) (Q : ι → α → List (Event E) → Prop)
    (pool : Pool E σ α ι) : Prop :=
  ∀ i, (pool.threads i).prog.Traces (G i) (Q i) (pool.threads i).past

theorem Keeps.step {pool pool' : Pool E σ α ι} {i : ι} {e : Event E} (hkeeps : pool.Keeps G Q)
    (hstep : Step R pool (i, e) pool') :
    G i e.op (pool.threads i).past ∧ pool'.Keeps G Q := by
  obtain ⟨hprog, -⟩ := hstep
  have hi := hkeeps i
  rw [hprog] at hi
  obtain ⟨hop, hk⟩ := hi
  refine ⟨hop, fun j => ?_⟩
  by_cases hj : j = i
  · subst hj
    simpa using hk e.result
  · simpa [hj] using hkeeps j

theorem Step.spec {pool pool' : Pool E σ α ι} {i : ι} {e : Event E}
    (hstep : Step R pool (i, e) pool') :
    R e.op pool.shared e.result pool'.shared ∧
      (pool'.threads i).past = (pool.threads i).past ++ [e] ∧
      ∀ j ≠ i, (pool'.threads j).past = (pool.threads j).past := by
  obtain ⟨-, hR⟩ := hstep
  exact ⟨hR, by simp, fun j hj => by simp [hj]⟩

/-- A run goes on with thread `i`. -/
theorem runs_act {C : Pool E σ α ι → ι × Event E → Prop} {pool pool' : Pool E σ α ι}
    (hrun : Runs (Step R) C pool pool') (i : ι) (e : Event E) {s' : σ} {k : E.Ret e.op → Prog E α}
    (hprog : (pool'.threads i).prog = .call e.op k) (hstep : R e.op pool'.shared e.result s')
    (hC : C pool' (i, e)) : Runs (Step R) C pool
      ⟨s', Function.update pool'.threads i ⟨(pool'.threads i).past ++ [e], k e.result⟩⟩ :=
  hrun.snoc (.mk hprog hstep) hC

theorem path_act {pool pool' : Pool E σ α ι} {trace : List (ι × Event E)}
    (hpath : Path (Step R) pool trace pool') (i : ι) (e : Event E) {s' : σ} {k : E.Ret e.op → Prog E α}
    (hprog : (pool'.threads i).prog = .call e.op k) (hstep : R e.op pool'.shared e.result s') :
    Path (Step R) pool (trace ++ [(i, e)])
      ⟨s', Function.update pool'.threads i ⟨(pool'.threads i).past ++ [e], k e.result⟩⟩ :=
  hpath.snoc (.mk hprog hstep)

theorem Keeps.path {pool pool' : Pool E σ α ι} {trace : List (ι × Event E)} (hkeeps : pool.Keeps G Q)
    (hpath : Path (Step R) pool trace pool') : pool'.Keeps G Q := by
  induction hpath with
  | nil => exact hkeeps
  | cons hstep _ ih => exact ih (hkeeps.step hstep).2

def pastIn (trace : List (ι × Event E)) (i : ι) : List (Event E) :=
  (trace.filter fun l => l.1 = i).map Prod.snd

@[simp] theorem pastIn_append (trace trace' : List (ι × Event E)) (i : ι) :
    pastIn (trace ++ trace') i = pastIn trace i ++ pastIn trace' i := by
  simp [pastIn]

theorem mem_pastIn {trace : List (ι × Event E)} {i : ι} {e : Event E} :
    e ∈ pastIn trace i ↔ (i, e) ∈ trace := by
  simp only [pastIn, List.mem_map, List.mem_filter, decide_eq_true_eq]
  exact ⟨fun ⟨_, ⟨hmem, hi⟩, he⟩ => hi ▸ he ▸ hmem, fun hmem => ⟨_, ⟨hmem, rfl⟩, rfl⟩⟩

theorem past_of_path {pool pool' : Pool E σ α ι} {trace : List (ι × Event E)}
    (hpath : Path (Step R) pool trace pool') (i : ι) :
    (pool'.threads i).past = (pool.threads i).past ++ pastIn trace i := by
  induction hpath with
  | nil => simp [pastIn]
  | @cons _ _ _ l trace hstep _ ih =>
    obtain ⟨j, e⟩ := l
    obtain ⟨-, hpast, hothers⟩ := hstep.spec
    rw [ih, ← List.singleton_append, pastIn_append, ← List.append_assoc]
    by_cases hij : i = j
    · subst hij
      rw [hpast]
      simp [pastIn]
    · rw [hothers i hij]
      simp [pastIn, Ne.symm hij]

theorem not_mem_of_ret {pool pool' : Pool E σ α ι} {trace : List (ι × Event E)}
    (hpath : Path (Step R) pool trace pool') {i : ι} {a : α} (hret : (pool.threads i).prog = .ret a)
    (e : Event E) : (i, e) ∉ trace := by
  induction hpath with
  | nil => exact List.not_mem_nil
  | cons hstep _ ih =>
    cases hstep with
    | @mk j e' s' k hprog hR =>
      have hij : i ≠ j := by
        rintro rfl
        rw [hret] at hprog
        cases hprog
      rw [List.mem_cons, not_or]
      refine ⟨fun h => hij (congrArg Prod.fst h), ih ?_⟩
      simpa [hij] using hret

omit [DecidableEq ι] in
theorem Keeps.answer {pool : Pool E σ α ι} (hkeeps : pool.Keeps G Q) {i : ι} {a : α}
    (hprog : (pool.threads i).prog = .ret a) : Q i a (pool.threads i).past := by
  have hi := hkeeps i
  rw [hprog] at hi
  exact hi

end Pool
end ResourceServer

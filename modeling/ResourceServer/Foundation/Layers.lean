import Mathlib.Algebra.GroupWithZero.Nat
import ResourceServer.Foundation.Program

/-!
# Programs over programs

A program whose operations are carried out by programs of another signature, one step of
those at a time. Where every body keeps its own promise, so does the program above, whatever
else changes the state between its steps; seen from above, each operation is one step.
-/

namespace ResourceServer

variable {E F : Signature} {σ α : Type}

/-- How the operations of `E` are carried out: by a program of `F`, or at once. -/
structure Layer (E F : Signature) where
  body : (op : E.Op) → Option (Prog F (E.Ret op))
  /-- The results of the operations without a body. -/
  atomic : (op : E.Op) → E.Ret op → Prop

/-- A finished operation with the events of its body. -/
structure Entry (E F : Signature) where
  event : Event E
  inner : List (Event F)

/-- A program somewhere on its way. -/
inductive Task (E F : Signature) (α : Type) where
  | between (done : List (Entry E F)) (prog : Prog E α)
  | inside (done : List (Entry E F)) (op : E.Op) (k : E.Ret op → Prog E α)
      (thread : Thread F (E.Ret op))

namespace Task

def start (p : Prog E α) : Task E F α := .between [] p

def done : Task E F α → List (Entry E F)
  | .between done _ | .inside done _ _ _ => done

/-- The operations so far. -/
def past (t : Task E F α) : List (Event E) := t.done.map Entry.event

/-- The events of all bodies so far, the one under way included. -/
def inner : Task E F α → List (Event F)
  | .between done _ => done.flatMap Entry.inner
  | .inside done _ _ thread => done.flatMap Entry.inner ++ thread.past

/-- One step, with the event of the lower program if it is one of those. -/
inductive Step (L : Layer E F) (R : Env F σ) :
    σ × Task E F α → Option (Event F) → σ × Task E F α → Prop where
  | atomic {s : σ} {done : List (Entry E F)} {op : E.Op} {k : E.Ret op → Prog E α} {r : E.Ret op}
      (hbody : L.body op = none) (hr : L.atomic op r) :
      Step L R (s, .between done (.call op k)) none (s, .between (done ++ [⟨⟨op, r⟩, []⟩]) (k r))
  | enter {s : σ} {done : List (Entry E F)} {op : E.Op} {k : E.Ret op → Prog E α}
      {p : Prog F (E.Ret op)} (hbody : L.body op = some p) :
      Step L R (s, .between done (.call op k)) none (s, .inside done op k ⟨[], p⟩)
  | act {s s' : σ} {done : List (Entry E F)} {op : E.Op} {k : E.Ret op → Prog E α}
      {past : List (Event F)} {e : Event F} {next : F.Ret e.op → Prog F (E.Ret op)}
      (hstep : R e.op s e.result s') :
      Step L R (s, .inside done op k ⟨past, .call e.op next⟩) (some e)
        (s', .inside done op k ⟨past ++ [e], next e.result⟩)
  | leave {s : σ} {done : List (Entry E F)} {op : E.Op} {k : E.Ret op → Prog E α}
      {past : List (Event F)} {r : E.Ret op} :
      Step L R (s, .inside done op k ⟨past, .ret r⟩) none
        (s, .between (done ++ [⟨⟨op, r⟩, past⟩]) (k r))

variable {L : Layer E F} {R : Env F σ} {s s' : σ} {t t' : Task E F α} {l : Option (Event F)}

/-- A step does what its event says to the state, and nothing without one. -/
theorem Step.shared (hstep : Step L R (s, t) l (s', t')) :
    (l = none ∧ s' = s ∧ t'.inner = t.inner) ∨
      ∃ e, l = some e ∧ R e.op s e.result s' ∧ t'.inner = t.inner ++ [e] := by
  cases hstep with
  | atomic => exact Or.inl ⟨rfl, rfl, by simp [inner]⟩
  | enter => exact Or.inl ⟨rfl, rfl, by simp [inner]⟩
  | act hR => exact Or.inr ⟨_, rfl, hR, by simp [inner]⟩
  | leave => exact Or.inl ⟨rfl, rfl, by simp [inner]⟩

/-- What a finished operation has left: its body's promise, or one of its results. -/
inductive Ends (L : Layer E F) (Q : (op : E.Op) → E.Ret op → List (Event F) → Prop) : Entry E F → Prop where
  | atomic {op : E.Op} {r : E.Ret op} (hbody : L.body op = none) (hr : L.atomic op r) :
      Ends L Q ⟨⟨op, r⟩, []⟩
  | body {op : E.Op} {r : E.Ret op} {past : List (Event F)} (hbody : L.body op ≠ none)
      (hr : Q op r past) : Ends L Q ⟨⟨op, r⟩, past⟩

/-- What the operations of the two levels may be, and what they promise. -/
structure Terms (E F : Signature) (α : Type) where
  guard : E.Op → List (Event E) → Prop
  promise : α → List (Event E) → Prop
  innerGuard : E.Op → F.Op → List (Event F) → Prop
  innerPromise : (op : E.Op) → E.Ret op → List (Event F) → Prop

def Terms.Bodies (T : Terms E F α) (L : Layer E F) : Prop :=
  ∀ op p, L.body op = some p → p.Traces (T.innerGuard op) (T.innerPromise op) []

/-- The task has kept to its terms, and will. -/
structure Keeps (L : Layer E F) (T : Terms E F α) (t : Task E F α) : Prop where
  ended : ∀ d ∈ t.done, Ends L T.innerPromise d
  going : match t with
    | .between _ prog => prog.Traces T.guard T.promise t.past
    | .inside _ op k thread => L.body op ≠ none ∧ T.guard op t.past ∧
        (∀ r, (k r).Traces T.guard T.promise (t.past ++ [⟨op, r⟩])) ∧
        thread.prog.Traces (T.innerGuard op) (T.innerPromise op) thread.past

variable {T : Terms E F α}

theorem Keeps.start {p : Prog E α} (hp : p.Traces T.guard T.promise []) :
    (Task.start p : Task E F α).Keeps L T where
  ended := nofun
  going := hp

theorem Keeps.between {done : List (Entry E F)} {d : Entry E F} {p : Prog E α}
    (hended : ∀ d ∈ done, Ends L T.innerPromise d) (hd : Ends L T.innerPromise d)
    (hp : p.Traces T.guard T.promise (done.map Entry.event ++ [d.event])) :
    (Task.between (done ++ [d]) p).Keeps L T where
  ended d' hd' := by
    rcases List.mem_append.mp hd' with hd' | hd'
    · exact hended d' hd'
    · rw [List.mem_singleton.mp hd']
      exact hd
  going := by
    simpa [past, Task.done] using hp

theorem Keeps.step (hbodies : T.Bodies L) (h : t.Keeps L T) (hstep : Step L R (s, t) l (s', t')) :
    t'.Keeps L T := by
  obtain ⟨hended, hgoing⟩ := h
  cases hstep with
  | @atomic _ _ op _ r hbody hr => exact .between hended (.atomic hbody hr) (hgoing.2 r)
  | @enter _ _ op _ p hbody =>
    refine ⟨hended, ?_, hgoing.1, hgoing.2, hbodies op p hbody⟩
    rw [hbody]
    nofun
  | act =>
    obtain ⟨hbody, hguard, hk, hthread⟩ := hgoing
    exact ⟨hended, hbody, hguard, hk, hthread.2 _⟩
  | leave =>
    obtain ⟨hbody, -, hk, hthread⟩ := hgoing
    exact .between hended (.body hbody hthread) (hk _)

theorem Keeps.guards {e : Event F} (h : t.Keeps L T) (hstep : Step L R (s, t) (some e) (s', t')) :
    ∃ op past, T.guard op t.past ∧ T.innerGuard op e.op past := by
  cases hstep with
  | act =>
    obtain ⟨-, hguard, -, hthread⟩ := h.going
    exact ⟨_, _, hguard, hthread.1⟩

/-- The steps so far; into a body and out of it is one each. -/
def spent : Task E F α → ℕ
  | .between done _ => (done.map fun d => d.inner.length + 2).sum
  | .inside done _ _ thread => (done.map fun d => d.inner.length + 2).sum + 1 + thread.past.length

/-- At most `bound` steps lie between the start and the end, where no body has more than `m`
operations. -/
def Fits (m bound : ℕ) (t : Task E F α) : Prop :=
  match t with
  | .between _ prog => ∃ n, prog.Within n ∧ t.spent + n * (m + 2) ≤ bound
  | .inside _ _ k thread => ∃ n l, (∀ r, (k r).Within n) ∧ thread.prog.Within l ∧
      t.spent + (l + 1) + n * (m + 2) ≤ bound

variable {m n bound : ℕ}

theorem Fits.start {p : Prog E α} (hp : p.Within n) : (Task.start p : Task E F α).Fits m (n * (m + 2)) :=
  ⟨n, hp, by simp [Task.start, spent]⟩

theorem Fits.spent_le (h : t.Fits m bound) : t.spent ≤ bound := by
  cases t with
  | between done prog =>
    obtain ⟨n, -, hle⟩ := h
    omega
  | inside done op k thread =>
    obtain ⟨n, l, -, -, hle⟩ := h
    omega

theorem Fits.step (hbodies : ∀ op p, L.body op = some p → p.Within m) (h : t.Fits m bound)
    (hstep : Step L R (s, t) l (s', t')) : t'.Fits m bound ∧ t.spent < t'.spent := by
  have hpred {n : ℕ} (hpos : 0 < n) : n * (m + 2) = (n - 1) * (m + 2) + (m + 2) := by
    rw [← Nat.succ_mul, Nat.succ_eq_add_one, Nat.sub_add_cancel hpos]
  cases hstep with
  | atomic hbody hr =>
    obtain ⟨n, ⟨hpos, hk⟩, hle⟩ := h
    have hn := hpred hpos
    refine ⟨⟨n - 1, hk _, ?_⟩, ?_⟩
    · simp only [spent, List.map_append, List.sum_append, List.map_cons, List.map_nil, List.sum_singleton,
        List.length_nil] at hle ⊢
      omega
    · simp only [spent, List.map_append, List.sum_append, List.map_cons, List.map_nil, List.sum_singleton]
      omega
  | enter hbody =>
    obtain ⟨n, ⟨hpos, hk⟩, hle⟩ := h
    have hn := hpred hpos
    refine ⟨⟨n - 1, m, hk, hbodies _ _ hbody, ?_⟩, ?_⟩
    · simp only [spent, List.length_nil] at hle ⊢
      omega
    · simp only [spent, List.length_nil]
      omega
  | act =>
    obtain ⟨n, l, hk, ⟨hpos, hrest⟩, hle⟩ := h
    refine ⟨⟨n, l - 1, hk, hrest _, ?_⟩, ?_⟩
    · simp only [spent, List.length_append, List.length_singleton] at hle ⊢
      omega
    · simp only [spent, List.length_append, List.length_singleton]
      omega
  | leave =>
    obtain ⟨n, l, hk, -, hle⟩ := h
    refine ⟨⟨n, hk _, ?_⟩, ?_⟩
    · simp only [spent, List.map_append, List.sum_append, List.map_cons, List.map_nil,
        List.sum_singleton] at hle ⊢
      omega
    · simp only [spent, List.map_append, List.sum_append, List.map_cons, List.map_nil, List.sum_singleton]
      omega

/-- A task goes on until it has an answer, where every operation has a result. -/
theorem exists_step (hR : ∀ op s, ∃ r s', R op s r s')
    (hatomic : ∀ op, L.body op = none → ∃ r, L.atomic op r) (s : σ) (t : Task E F α) :
    (∃ done a, t = .between done (.ret a)) ∨ ∃ l s' t', Step L R (s, t) l (s', t') := by
  cases t with
  | between done prog =>
    cases prog with
    | ret a => exact Or.inl ⟨done, a, rfl⟩
    | call op k =>
      cases hbody : L.body op with
      | none =>
        obtain ⟨r, hr⟩ := hatomic op hbody
        exact Or.inr ⟨_, _, _, .atomic hbody hr⟩
      | some p => exact Or.inr ⟨_, _, _, .enter hbody⟩
  | inside done op k thread =>
    obtain ⟨past, prog⟩ := thread
    cases prog with
    | ret r => exact Or.inr ⟨_, _, _, .leave⟩
    | call inner next =>
      obtain ⟨r, s', hstep⟩ := hR inner s
      exact Or.inr ⟨_, _, _, .act (e := ⟨inner, r⟩) hstep⟩

/-- What the task still runs completes a run of `p`, with each operation as one step. -/
def Continues (S : Env E Unit) (p : Prog E α) : Task E F α → Prop
  | .between done prog => ∀ rest a, Prog.Exec S () prog rest () a →
      Prog.Exec S () p (done.map Entry.event ++ rest) () a
  | .inside done op k _ => ∀ r rest a, S op () r () → Prog.Exec S () (k r) rest () a →
      Prog.Exec S () p (done.map Entry.event ++ ⟨op, r⟩ :: rest) () a

theorem Continues.start {S : Env E Unit} (p : Prog E α) : (Task.start p : Task E F α).Continues S p :=
  fun _ _ hexec => hexec

theorem Continues.between {S : Env E Unit} {p q : Prog E α} {done : List (Entry E F)} {d : Entry E F}
    (h : ∀ rest a, Prog.Exec S () q rest () a →
      Prog.Exec S () p (done.map Entry.event ++ d.event :: rest) () a) :
    (Task.between (done ++ [d]) q).Continues S p := by
  intro rest a hexec
  rw [List.map_append, List.append_assoc]
  exact h rest a hexec

/-- **Seen from above.** A step of the task is no step of the program above, or one. -/
theorem Continues.step {S : Env E Unit} (hatomic : ∀ op r, L.body op = none → L.atomic op r → S op () r ())
    (hbody : ∀ op r, L.body op ≠ none → S op () r ()) {p : Prog E α} (hkeeps : t.Keeps L T)
    (h : t.Continues S p) (hstep : Step L R (s, t) l (s', t')) : t'.Continues S p := by
  cases hstep with
  | atomic hnone hr =>
    exact .between fun rest a hexec => h _ a (.call (hatomic _ _ hnone hr) hexec)
  | enter => exact fun r rest a hr hexec => h _ a (.call hr hexec)
  | act => exact h
  | @leave _ _ op _ _ r =>
    have hsome := hkeeps.going.1
    exact .between fun rest a hexec => h r rest a (hbody op r hsome) hexec

theorem Continues.exec {S : Env E Unit} {p : Prog E α} {done : List (Entry E F)} {a : α}
    (h : (Task.between done (.ret a)).Continues S p) :
    Prog.Exec S () p (done.map Entry.event) () a := by
  have hexec := h [] a (.ret () a)
  rwa [List.append_nil] at hexec

end Task
end ResourceServer

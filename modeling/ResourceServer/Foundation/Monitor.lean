import ResourceServer.Foundation.Census
import ResourceServer.Foundation.Transition
import Mathlib.Algebra.BigOperators.Group.Finset.Basic
import Mathlib.Algebra.Order.BigOperators.Group.Finset
import Mathlib.Data.Fintype.Card

/-!
# Waiting on a condition variable

Threads change a state under a lock. Some of them wait until there is something to take or
all is closed: they look, sleep until a notification wakes them, and look again. Notifications
are sent outside the lock and may come late, and a thread may wake without one. No wakeup is
lost, and where every command lowers a measure all threads come to rest.
-/

namespace ResourceServer

inductive Notify where
  | one | all
  deriving DecidableEq, Repr

/-- Where a thread stands with respect to the condition variable. -/
inductive Mode where
  | running
  -- in `wait`, before its look at the predicate
  | looking
  | asleep
  -- behind the lock, before its notification
  | notifying (n : Notify)
  deriving DecidableEq, Repr

def Mode.behind : Option Notify → Mode
  | none => .running
  | some n => .notifying n

/-- A notification of all wakes those that sleep. -/
def Mode.woken : Mode → Mode
  | .asleep => .looking
  | mode => mode

/-- What the threads do under the lock. -/
structure Guarded (β ι A : Type) where
  /-- A step with the notification that follows it. -/
  step : β → A → Option Notify → β → Prop
  agent : A → ι
  /-- The step begins a new command. -/
  starts : A → Prop
  /-- The thread stands in `wait`. -/
  waits : β → ι → Prop
  stock : β → ℕ
  closed : β → Prop

structure Monitor (β ι : Type) where
  state : β
  mode : ι → Mode

inductive MonitorAct (ι A : Type) where
  | run (a : A)
  | sleep (i : ι)
  | notify (i : ι)
  -- without a notification
  | wake (i : ι)

namespace Guarded

variable {β ι A : Type}

/-- The predicate of the wait. -/
def Ready (G : Guarded β ι A) (b : β) : Prop := G.closed b ∨ 0 < G.stock b

structure Lawful (G : Guarded β ι A) : Prop where
  others : ∀ {b a n b' j}, G.step b a n b' → j ≠ G.agent a → (G.waits b' j ↔ G.waits b j)
  arrives : ∀ {b a n b'}, G.step b a n b' → G.waits b' (G.agent a) → n = none ∧ ¬ G.waits b (G.agent a)
  /-- A thread that waits goes on with something, or because all is closed. -/
  leaves : ∀ {b a n b'}, G.step b a n b' → G.waits b (G.agent a) →
    n = none ∧ (G.closed b' ∨ G.stock b' < G.stock b)
  gives : ∀ {b a n b'}, G.step b a n b' → G.stock b' ≤ G.stock b + if n = some .one then 1 else 0
  closes : ∀ {b a n b'}, G.step b a n b' → G.closed b' → G.closed b ∨ n = some .all

end Guarded

/-- What a thread in this mode still costs. -/
def Mode.cost (ι : Type) [Fintype ι] : Mode → ℕ
  | .running | .asleep => 0
  | .looking => 1
  | .notifying .one => 2
  | .notifying .all => Fintype.card ι + 1

section Cost

variable (ι : Type) [Fintype ι]

@[simp] theorem Mode.cost_running : Mode.running.cost ι = 0 := rfl
@[simp] theorem Mode.cost_asleep : Mode.asleep.cost ι = 0 := rfl
@[simp] theorem Mode.cost_looking : Mode.looking.cost ι = 1 := rfl
@[simp] theorem Mode.cost_one : (Mode.notifying .one).cost ι = 2 := rfl
@[simp] theorem Mode.cost_all : (Mode.notifying .all).cost ι = Fintype.card ι + 1 := rfl

theorem Mode.cost_woken (mode : Mode) : mode.woken.cost ι ≤ mode.cost ι + 1 := by
  cases mode with
  | asleep => rfl
  | _ => exact Nat.le_succ _

end Cost

/-- Every step but the first of a command lowers `μ`, and by more than its notification costs. -/
def Guarded.Sinks {β ι A : Type} [Fintype ι] (G : Guarded β ι A) (μ : β → ℕ) : Prop :=
  ∀ {b a n b'}, G.step b a n b' → ¬ G.starts a → μ b' + (Mode.behind n).cost ι + 2 ≤ μ b

/-- A step that goes on with what has begun. -/
def MonitorAct.Working {β ι A : Type} (G : Guarded β ι A) : MonitorAct ι A → Prop
  | .run a => ¬ G.starts a
  | .sleep _ | .notify _ => True
  | .wake _ => False

namespace Monitor

variable {β ι A : Type} [DecidableEq ι]

inductive Step (G : Guarded β ι A) : Monitor β ι → MonitorAct ι A → Monitor β ι → Prop where
  | run {m : Monitor β ι} {a : A} {n : Option Notify} {b : β} (hstep : G.step m.state a n b)
      (hmode : m.mode (G.agent a) = .running ∨ m.mode (G.agent a) = .looking)
      (hleft : ¬ G.waits b (G.agent a)) :
      Step G m (.run a) ⟨b, Function.update m.mode (G.agent a) (Mode.behind n)⟩
  | arrive {m : Monitor β ι} {a : A} {n : Option Notify} {b : β} (hstep : G.step m.state a n b)
      (hmode : m.mode (G.agent a) = .running) (hwaits : G.waits b (G.agent a)) :
      Step G m (.run a) ⟨b, Function.update m.mode (G.agent a) .looking⟩
  | sleep {m : Monitor β ι} {i : ι} (hmode : m.mode i = .looking) (hready : ¬ G.Ready m.state) :
      Step G m (.sleep i) { m with mode := Function.update m.mode i .asleep }
  | notifyOne {m : Monitor β ι} {i j : ι} (hmode : m.mode i = .notifying .one)
      (hasleep : m.mode j = .asleep) :
      Step G m (.notify i)
        { m with mode := Function.update (Function.update m.mode i .running) j .looking }
  | notifyNobody {m : Monitor β ι} {i : ι} (hmode : m.mode i = .notifying .one)
      (hnobody : ∀ j, m.mode j ≠ .asleep) :
      Step G m (.notify i) { m with mode := Function.update m.mode i .running }
  | notifyAll {m : Monitor β ι} {i : ι} (hmode : m.mode i = .notifying .all) :
      Step G m (.notify i)
        { m with mode := Function.update (fun j => (m.mode j).woken) i .running }
  | wake {m : Monitor β ι} {i : ι} (hmode : m.mode i = .asleep) :
      Step G m (.wake i) { m with mode := Function.update m.mode i .looking }

variable {G : Guarded β ι A} {m m' : Monitor β ι} {l : MonitorAct ι A}

theorem Step.state (hstep : Step G m l m') :
    m'.state = m.state ∨ ∃ a n, l = .run a ∧ G.step m.state a n m'.state := by
  cases hstep with
  | run hstep => exact Or.inr ⟨_, _, rfl, hstep⟩
  | arrive hstep => exact Or.inr ⟨_, _, rfl, hstep⟩
  | _ => exact Or.inl rfl

theorem state_invariant {I : β → Prop} (hrun : Reaches (Step G) m m')
    (hkept : ∀ b a n b', I b → G.step b a n b' → I b') (hm : I m.state) : I m'.state := by
  refine Reaches.invariant (I := fun m => I m.state) hrun (fun m l m' h hstep => ?_) hm
  rcases hstep.state with hsame | ⟨a, n, -, hstep⟩
  · rw [hsame]
    exact h
  · exact hkept _ _ _ _ h hstep

variable [Fintype ι]

/-- The threads in `wait` look or sleep; while one sleeps, whatever there is to take has a thread
that looks for it or a notification on its way. -/
structure Alert (G : Guarded β ι A) (m : Monitor β ι) : Prop where
  waits_iff : ∀ i, G.waits m.state i ↔ m.mode i = .looking ∨ m.mode i = .asleep
  alert : (∀ i, m.mode i ≠ .asleep) ∨ (∃ i, m.mode i = .notifying .all) ∨
    ¬ G.closed m.state ∧ G.stock m.state ≤
      census (· = .looking) m.mode + census (· = .notifying .one) m.mode

omit [DecidableEq ι] in
/-- While a thread sleeps although there is something to take, another is awake. -/
theorem Alert.exists_awake (h : Alert G m) (hready : G.Ready m.state) {j : ι} (hj : m.mode j = .asleep) :
    ∃ i, m.mode i = .looking ∨ ∃ n, m.mode i = .notifying n := by
  rcases h.alert with hnone | ⟨i, hi⟩ | ⟨hopen, hle⟩
  · exact absurd hj (hnone j)
  · exact ⟨i, Or.inr ⟨.all, hi⟩⟩
  · have hstock := hready.resolve_left hopen
    by_cases hlooking : 0 < census (· = .looking) m.mode
    · obtain ⟨i, hi⟩ := census_pos_iff.mp hlooking
      exact ⟨i, Or.inl hi⟩
    · have hpos : 0 < census (· = .notifying .one) m.mode := by omega
      obtain ⟨i, hi⟩ := census_pos_iff.mp hpos
      exact ⟨i, Or.inr ⟨.one, hi⟩⟩

section Steps

variable {b : β} {i j : ι} {x : Mode}

omit [Fintype ι] in
/-- The modes that a step leaves, of the thread that moves and of the others. -/
theorem waits_iff_update (hwaits : ∀ i, G.waits m.state i ↔ m.mode i = .looking ∨ m.mode i = .asleep)
    (hothers : ∀ j, j ≠ i → (G.waits b j ↔ G.waits m.state j))
    (hi : G.waits b i ↔ x = .looking ∨ x = .asleep) :
    ∀ j, G.waits b j ↔
      Function.update m.mode i x j = .looking ∨ Function.update m.mode i x j = .asleep := by
  intro j
  by_cases hj : j = i
  · subst hj
    rw [Function.update_self]
    exact hi
  · rw [Function.update_of_ne hj, hothers j hj]
    exact hwaits j

omit [Fintype ι] in
/-- A thread that does not fall asleep leaves no sleeper behind. -/
theorem none_asleep_update (hnone : ∀ i, m.mode i ≠ .asleep) (hx : x ≠ .asleep) :
    ∀ j, Function.update m.mode i x j ≠ .asleep := by
  intro j
  by_cases hj : j = i
  · subst hj
    rw [Function.update_self]
    exact hx
  · rw [Function.update_of_ne hj]
    exact hnone j

omit [Fintype ι] in
/-- A notification of all stays on its way while its thread does not move. -/
theorem notifying_update (hi : m.mode i ≠ .notifying .all) (hall : ∃ j, m.mode j = .notifying .all) :
    ∃ j, Function.update m.mode i x j = .notifying .all := by
  obtain ⟨j, hj⟩ := hall
  refine ⟨j, ?_⟩
  rw [Function.update_of_ne, hj]
  rintro rfl
  exact hi hj

end Steps

theorem Alert.step (hlaws : G.Lawful) (h : Alert G m) (hstep : Step G m l m') : Alert G m' := by
  have hlooking (i : ι) (x : Mode) := census_update (p := (· = Mode.looking)) m.mode i x
  have hone (i : ι) (x : Mode) := census_update (p := (· = Mode.notifying .one)) m.mode i x
  cases hstep with
  | @run a n b hstep hmode hleft =>
    refine ⟨waits_iff_update h.waits_iff (fun j hj => hlaws.others hstep hj) (iff_of_false hleft ?_), ?_⟩
    · cases n <;> simp [Mode.behind]
    have hnot : m.mode (G.agent a) ≠ .notifying .all := by
      rcases hmode with hmode | hmode <;> rw [hmode] <;> simp
    rcases h.alert with hnone | hall | ⟨hopen, hle⟩
    · exact Or.inl (none_asleep_update hnone (by cases n <;> simp [Mode.behind]))
    · exact Or.inr (Or.inl (notifying_update hnot hall))
    · by_cases hclosed : G.closed b
      · obtain rfl := (hlaws.closes hstep hclosed).resolve_left hopen
        exact Or.inr (Or.inl ⟨G.agent a, Function.update_self ..⟩)
      · refine Or.inr (Or.inr ⟨hclosed, ?_⟩)
        have hl := hlooking (G.agent a) (Mode.behind n)
        have ho := hone (G.agent a) (Mode.behind n)
        rcases hmode with hmode | hmode
        · have hgives := hlaws.gives hstep
          rcases n with _ | _ | _ <;> simp [hmode, Mode.behind] at hl ho hgives ⊢ <;> omega
        · obtain ⟨rfl, hleaves⟩ := hlaws.leaves hstep ((h.waits_iff _).mpr (Or.inl hmode))
          have hless := hleaves.resolve_left hclosed
          simp [hmode, Mode.behind] at hl ho ⊢
          omega
  | @arrive a n b hstep hmode hwaits =>
    obtain ⟨rfl, -⟩ := hlaws.arrives hstep hwaits
    refine ⟨waits_iff_update h.waits_iff (fun j hj => hlaws.others hstep hj)
      (iff_of_true hwaits (Or.inl rfl)), ?_⟩
    rcases h.alert with hnone | hall | ⟨hopen, hle⟩
    · exact Or.inl (none_asleep_update hnone (by simp))
    · exact Or.inr (Or.inl (notifying_update (by simp [hmode]) hall))
    · have hclosed : ¬ G.closed b := fun hclosed => by
        rcases hlaws.closes hstep hclosed with hbefore | hnone
        · exact hopen hbefore
        · cases hnone
      refine Or.inr (Or.inr ⟨hclosed, ?_⟩)
      have hl := hlooking (G.agent a) .looking
      have ho := hone (G.agent a) .looking
      have hgives := hlaws.gives hstep
      simp [hmode] at hl ho hgives ⊢
      omega
  | @sleep i hmode hready =>
    refine ⟨waits_iff_update h.waits_iff (fun _ _ => Iff.rfl)
      (iff_of_true ((h.waits_iff i).mpr (Or.inl hmode)) (Or.inr rfl)), Or.inr (Or.inr ⟨?_, ?_⟩)⟩
    · exact fun hclosed => hready (Or.inl hclosed)
    · have hnone : ¬ 0 < G.stock m.state := fun hpos => hready (Or.inr hpos)
      dsimp only
      omega
  | @notifyOne i j hmode hasleep =>
    have hj : Function.update m.mode i .running j = .asleep := by
      rw [Function.update_of_ne, hasleep]
      rintro rfl
      cases hmode.symm.trans hasleep
    have hwaits := waits_iff_update (i := i) (x := .running) h.waits_iff (fun _ _ => Iff.rfl)
      (iff_of_false (by rw [h.waits_iff, hmode]; simp) (by simp))
    refine ⟨waits_iff_update (m := ⟨m.state, Function.update m.mode i .running⟩) hwaits
      (fun _ _ => Iff.rfl) (iff_of_true ((hwaits j).mpr (Or.inr hj)) (Or.inl rfl)), ?_⟩
    rcases h.alert with hnone | hall | ⟨hopen, hle⟩
    · exact absurd hasleep (hnone j)
    · exact Or.inr (Or.inl (notifying_update (m := ⟨m.state, Function.update m.mode i .running⟩)
        (by simp [hj]) (notifying_update (by simp [hmode]) hall)))
    · refine Or.inr (Or.inr ⟨hopen, ?_⟩)
      have hl := hlooking i .running
      have ho := hone i .running
      have hl' := census_update (p := (· = Mode.looking)) (Function.update m.mode i .running) j .looking
      have ho' := census_update (p := (· = Mode.notifying .one)) (Function.update m.mode i .running) j .looking
      simp [hmode] at hl ho
      simp [hj] at hl' ho' ⊢
      omega
  | @notifyNobody i hmode hnobody =>
    refine ⟨waits_iff_update h.waits_iff (fun _ _ => Iff.rfl) (iff_of_false ?_ (by simp)),
      Or.inl (none_asleep_update hnobody (by simp))⟩
    rw [h.waits_iff, hmode]
    simp
  | @notifyAll i hmode =>
    have hwoken (j : ι) : (m.mode j).woken ≠ .asleep := by cases m.mode j <;> simp [Mode.woken]
    have hwaits (j : ι) : G.waits m.state j ↔ (m.mode j).woken = .looking ∨ (m.mode j).woken = .asleep := by
      rw [h.waits_iff]
      cases m.mode j <;> simp [Mode.woken]
    refine ⟨waits_iff_update (m := ⟨m.state, fun j => (m.mode j).woken⟩) hwaits (fun _ _ => Iff.rfl)
      (iff_of_false ?_ (by simp)),
      Or.inl (none_asleep_update (m := ⟨m.state, fun j => (m.mode j).woken⟩) hwoken (by simp))⟩
    rw [h.waits_iff, hmode]
    simp
  | @wake i hmode =>
    refine ⟨waits_iff_update h.waits_iff (fun _ _ => Iff.rfl)
      (iff_of_true ((h.waits_iff i).mpr (Or.inr hmode)) (Or.inl rfl)), ?_⟩
    rcases h.alert with hnone | hall | ⟨hopen, hle⟩
    · exact absurd hmode (hnone i)
    · exact Or.inr (Or.inl (notifying_update (by simp [hmode]) hall))
    · refine Or.inr (Or.inr ⟨hopen, ?_⟩)
      have hl := hlooking i .looking
      have ho := hone i .looking
      simp [hmode] at hl ho ⊢
      omega

theorem alert_of_reaches (hlaws : G.Lawful) (hrun : Reaches (Step G) m m') (h : Alert G m) : Alert G m' :=
  Reaches.invariant (I := Alert G) hrun (fun _ _ _ h hstep => h.step hlaws hstep) h

def effort (μ : β → ℕ) (m : Monitor β ι) : ℕ := μ m.state + ∑ i, (m.mode i).cost ι

theorem effort_lt {μ : β → ℕ} (hsinks : G.Sinks μ) (hworking : l.Working G) (hstep : Step G m l m') :
    effort μ m' < effort μ m := by
  have hsum (i : ι) (x : Mode) := sum_update (w := Mode.cost ι) m.mode i x
  unfold effort
  cases hstep with
  | @run a n b hstep hmode hleft =>
    have hdrop := hsinks hstep hworking
    have hcost := hsum (G.agent a) (Mode.behind n)
    dsimp only
    omega
  | @arrive a n b hstep hmode hwaits =>
    have hdrop := hsinks hstep hworking
    have hcost := hsum (G.agent a) .looking
    rw [hmode] at hcost
    simp only [Mode.cost_running, Mode.cost_looking] at hcost
    dsimp only
    omega
  | @sleep i hmode hready =>
    have hcost := hsum i .asleep
    rw [hmode] at hcost
    simp only [Mode.cost_asleep, Mode.cost_looking] at hcost
    dsimp only
    omega
  | @notifyOne i j hmode hasleep =>
    have hcost := hsum i .running
    have hcost' := sum_update (w := Mode.cost ι) (Function.update m.mode i .running) j .looking
    have hj : Function.update m.mode i .running j = .asleep := by
      rw [Function.update_of_ne, hasleep]
      rintro rfl
      cases hmode.symm.trans hasleep
    rw [hmode] at hcost
    rw [hj] at hcost'
    simp only [Mode.cost_running, Mode.cost_one] at hcost
    simp only [Mode.cost_looking, Mode.cost_asleep] at hcost'
    dsimp only
    omega
  | @notifyNobody i hmode hnobody =>
    have hcost := hsum i .running
    rw [hmode] at hcost
    simp only [Mode.cost_running, Mode.cost_one] at hcost
    dsimp only
    omega
  | @notifyAll i hmode =>
    have hcost := sum_update (w := Mode.cost ι) (fun j => (m.mode j).woken) i .running
    have hwoken : ∑ j, ((m.mode j).woken).cost ι ≤ (∑ j, (m.mode j).cost ι) + Fintype.card ι := by
      rw [Fintype.card, Finset.card_eq_sum_ones, ← Finset.sum_add_distrib]
      exact Finset.sum_le_sum fun j _ => (m.mode j).cost_woken ι
    have hi : (m.mode i).woken.cost ι = Fintype.card ι + 1 := by
      rw [hmode]
      rfl
    rw [Mode.cost_running, hi] at hcost
    dsimp only
    omega
  | wake => exact hworking.elim

/-- A run without new commands, and in which nobody wakes unasked, is no longer than the effort. -/
theorem length_le_effort {μ : β → ℕ} (hsinks : G.Sinks μ) {ls : List (MonitorAct ι A)}
    (hpath : Path (Step G) m ls m') (hworking : ∀ l ∈ ls, l.Working G) :
    ls.length + effort μ m' ≤ effort μ m :=
  Path.length_le (I := fun _ => True) (effort μ) hpath
    (fun _ _ _ _ hworking hstep => ⟨trivial, effort_lt hsinks hworking hstep⟩) hworking trivial

/-- Nothing is under way: no notification, no step of a thread that has begun, and no thread
waits for what is there. -/
structure Quiet (G : Guarded β ι A) (m : Monitor β ι) : Prop where
  sent : ∀ i n, m.mode i ≠ .notifying n
  idle : ∀ a n b, G.step m.state a n b → ¬ G.starts a → G.waits m.state (G.agent a)
  unready : ∀ i, G.waits m.state i → ¬ G.Ready m.state

/-- **No thread is stuck.** Where nothing more can happen, nothing is under way. -/
theorem Alert.quiet (hlaws : G.Lawful) (h : Alert G m)
    (hwakes : ∀ i, G.waits m.state i → G.Ready m.state → ∃ a n b, G.step m.state a n b ∧ G.agent a = i ∧
      ¬ G.starts a)
    (hstuck : ∀ l m', Step G m l m' → ¬ l.Working G) : Quiet G m := by
  have hsent (i : ι) (n : Notify) : m.mode i ≠ .notifying n := by
    intro hmode
    cases n with
    | all => exact hstuck _ _ (.notifyAll hmode) trivial
    | one =>
      by_cases hnobody : ∀ j, m.mode j ≠ .asleep
      · exact hstuck _ _ (.notifyNobody hmode hnobody) trivial
      · obtain ⟨j, hj⟩ := not_forall_not.mp hnobody
        exact hstuck _ _ (.notifyOne hmode hj) trivial
  have hruns {a : A} {n : Option Notify} {b : β} (hstep : G.step m.state a n b) (hstarts : ¬ G.starts a)
      (hmode : m.mode (G.agent a) = .running ∨ m.mode (G.agent a) = .looking)
      (hleft : m.mode (G.agent a) = .looking → ¬ G.waits b (G.agent a)) : False := by
    by_cases hwaits : G.waits b (G.agent a)
    · exact hstuck _ _ (.arrive hstep (hmode.resolve_right fun h => hleft h hwaits) hwaits) hstarts
    · exact hstuck _ _ (.run hstep hmode hwaits) hstarts
  refine ⟨hsent, fun a n b hstep hstarts => ?_, fun i hwaits hready => ?_⟩
  · by_contra hnot
    rw [h.waits_iff] at hnot
    cases hmode : m.mode (G.agent a) with
    | running => exact hruns hstep hstarts (Or.inl hmode) (by simp [hmode])
    | looking => exact hnot (Or.inl hmode)
    | asleep => exact hnot (Or.inr hmode)
    | notifying n => exact hsent _ _ hmode
  · have hlooks {j : ι} (hmode : m.mode j = .looking) : False := by
      have hwaiting := (h.waits_iff j).mpr (Or.inl hmode)
      obtain ⟨a, n, b, hstep, rfl, hstarts⟩ := hwakes j hwaiting hready
      exact hruns hstep hstarts (Or.inr hmode) fun _ hwaits => (hlaws.arrives hstep hwaits).2 hwaiting
    rcases (h.waits_iff i).mp hwaits with hmode | hmode
    · exact hlooks hmode
    · obtain ⟨j, hj | ⟨n, hj⟩⟩ := h.exists_awake hready hmode
      · exact hlooks hj
      · exact hsent j n hj

end Monitor
end ResourceServer

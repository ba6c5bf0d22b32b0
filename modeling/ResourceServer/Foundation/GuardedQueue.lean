import ResourceServer.Foundation.Census
import ResourceServer.Foundation.Transition

/-!
# A queue guarded by a counting semaphore

A producer pushes an item and then releases a permit; a consumer acquires a permit and
then pops an item. Queue and semaphore are updated by separate atomic steps, so the two
counts differ while agents stand between theirs. No interleaving lets a consumer with a
permit find the queue empty.
-/

namespace ResourceServer

/-- Where an agent stands: between a push and its release, between an acquire and its pop,
or neither. -/
inductive Stage where
  | outside | pushed | granted
  deriving DecidableEq, Repr

structure GuardedQueue (α ι : Type) where
  items : List α
  permits : ℕ
  stage : ι → Stage

namespace GuardedQueue

variable {α ι : Type} [DecidableEq ι]

inductive Step : GuardedQueue α ι → ι → GuardedQueue α ι → Prop where
  | push {q : GuardedQueue α ι} {i : ι} (a : α) (hi : q.stage i = .outside) :
      Step q i { q with items := q.items ++ [a], stage := Function.update q.stage i .pushed }
  | release {q : GuardedQueue α ι} {i : ι} (hi : q.stage i = .pushed) :
      Step q i { q with permits := q.permits + 1, stage := Function.update q.stage i .outside }
  | acquire {q : GuardedQueue α ι} {i : ι} {n : ℕ} (hi : q.stage i = .outside)
      (hpermits : q.permits = n + 1) :
      Step q i { q with permits := n, stage := Function.update q.stage i .granted }
  | pop {q : GuardedQueue α ι} {i : ι} {a : α} {rest : List α} (hi : q.stage i = .granted)
      (hitems : q.items = a :: rest) :
      Step q i { q with items := rest, stage := Function.update q.stage i .outside }

variable [Fintype ι]

/-- Every item has its permit in the semaphore, on its way there, or with a consumer. -/
def Balanced (q : GuardedQueue α ι) : Prop :=
  q.items.length = q.permits + census (· = .granted) q.stage + census (· = .pushed) q.stage

theorem Balanced.step {q q' : GuardedQueue α ι} {i : ι} (hq : q.Balanced) (hstep : Step q i q') :
    q'.Balanced := by
  unfold Balanced at hq ⊢
  have hgranted (s : Stage) := census_update (p := (· = Stage.granted)) q.stage i s
  have hpushed (s : Stage) := census_update (p := (· = Stage.pushed)) q.stage i s
  cases hstep with
  | push a hi =>
    have hg := hgranted .pushed
    have hp := hpushed .pushed
    simp [hi] at hg hp
    simp
    omega
  | release hi =>
    have hg := hgranted .outside
    have hp := hpushed .outside
    simp [hi] at hg hp
    simp
    omega
  | acquire hi hpermits =>
    have hg := hgranted .granted
    have hp := hpushed .granted
    simp [hi] at hg hp
    simp
    omega
  | pop hi hitems =>
    have hg := hgranted .outside
    have hp := hpushed .outside
    simp [hi] at hg hp
    simp [hitems] at hq ⊢
    omega

omit [DecidableEq ι] in
/-- A consumer with a permit finds an item. -/
theorem Balanced.items_ne_nil {q : GuardedQueue α ι} (hq : q.Balanced) {i : ι}
    (hi : q.stage i = .granted) : q.items ≠ [] := by
  have hpos : 0 < census (· = .granted) q.stage := census_pos_iff.mpr ⟨i, hi⟩
  apply List.ne_nil_of_length_pos
  unfold Balanced at hq
  omega

end GuardedQueue
end ResourceServer

import Mathlib.Algebra.BigOperators.Group.Finset.Basic
import Mathlib.Algebra.Order.BigOperators.Group.Finset
import Mathlib.Data.Set.Card
import ResourceServer.Runtime.Teardown

/-!
# Shutdown of the worker queue

`~threadpool` sets `m_stop`, releases one permit for each worker and joins them. The pool may
be in any state before, with any permits and requests left over, and producers and workers go
on during all of it.
-/

namespace ResourceServer
namespace Runtime

/-- Where `~threadpool` stands. -/
inductive Destructor where
  | outside
  -- behind `m_stop = true`
  | stopped
  -- behind `m_queuestat.release(m_thread_number)`
  | joining
  | returned
  deriving DecidableEq, Repr

namespace Worker

variable {α : Type}

def atAcquire : Worker α → Bool
  | .acquiring => true
  | _ => false

theorem atAcquire_iff {w : Worker α} : w.atAcquire = true ↔ w = .acquiring := by
  cases w <;> simp [atAcquire]

@[simp] theorem atAcquire_afterPop (r : Option α) : (Worker.afterPop r).atAcquire = false := by
  cases r <;> rfl

/-- A bound on the steps that a worker of a stopped pool has left. -/
def stepsLeft : Worker α → ℕ
  | .exited => 0
  | .entering | .granted => 1
  | .acquiring | .processing _ => 2
  | .popping => 3

theorem stepsLeft_le (w : Worker α) : w.stepsLeft ≤ 3 := by
  cases w <;> simp [stepsLeft]

theorem stepsLeft_afterPop (r : Option α) : (Worker.afterPop r).stepsLeft < 3 := by
  cases r <;> simp [afterPop, stepsLeft]

end Worker

namespace ThreadPool

variable {α ι κ : Type}

/-- The worker that a step moves. -/
def Act.worker : Act α ι κ → Option κ
  | .run k | .take k _ | .done k => some k
  | _ => none

variable [DecidableEq ι] [DecidableEq κ] {maxRequests : ℕ} {s s' : ThreadPool α ι κ} {a : Act α ι κ}

/-- In a stopped pool, no worker comes to `acquire()` any more, and one that leaves it takes
a permit. -/
theorem Step.stopped_cases (hstep : Step maxRequests s a s') (ha : a ≠ .stop)
    (hstop : s.stopped = true) :
    s'.stopped = true ∧
      (a.worker = none ∧ s'.workers = s.workers ∧ s.queuestat ≤ s'.queuestat ∨
        ∃ k w, a.worker = some k ∧ s'.workers = Function.update s.workers k w ∧
          w.atAcquire = false ∧ w.stepsLeft < (s.workers k).stepsLeft ∧
          s.queuestat = s'.queuestat + (s.workers k).atAcquire.toNat) := by
  refine ⟨?_, ?_⟩
  · cases hstep with
    | stop => rfl
    | _ => exact hstop
  · cases hstep with
    | push | refuse => exact Or.inl ⟨rfl, rfl, Nat.le_refl _⟩
    | release => exact Or.inl ⟨rfl, rfl, Nat.le_succ _⟩
    | enter _ hstarted | goOn _ hstarted => exact absurd (hstop.symm.trans hstarted) nofun
    | acquire hk hpermits =>
      refine Or.inr ⟨_, .granted, rfl, rfl, rfl, ?_, ?_⟩
      · simp [hk, Worker.stepsLeft]
      · rw [hk, hpermits]
        rfl
    | leave hk =>
      refine Or.inr ⟨_, .exited, rfl, rfl, rfl, ?_, ?_⟩
      · rcases hk with hk | hk <;> simp [hk, Worker.stepsLeft]
      · rcases hk with hk | hk <;> rw [hk] <;> rfl
    | popEmpty hk =>
      refine Or.inr ⟨_, .entering, rfl, rfl, rfl, ?_, ?_⟩
      · simp [hk, Worker.stepsLeft]
      · rw [hk]
        rfl
    | @pop k r rest hk hqueue =>
      refine Or.inr ⟨_, .afterPop r, rfl, rfl, Worker.atAcquire_afterPop r, ?_, ?_⟩
      · rw [hk]
        exact Worker.stepsLeft_afterPop r
      · rw [hk]
        rfl
    | done hk =>
      refine Or.inr ⟨_, .entering, rfl, rfl, rfl, ?_, ?_⟩
      · simp [hk, Worker.stepsLeft]
      · rw [hk]
        rfl
    | stop => exact absurd rfl ha

/-- A worker of a stopped pool that has not left waits for nothing but a permit. -/
theorem exists_step (maxRequests : ℕ) (hstop : s.stopped = true) {k : κ} (hk : s.workers k ≠ .exited)
    (hpermit : s.workers k = .acquiring → 0 < s.queuestat) :
    ∃ a s', a ≠ .stop ∧ a.worker = some k ∧ Step maxRequests s a s' := by
  cases hworker : s.workers k with
  | entering => exact ⟨.run k, _, nofun, rfl, .leave (Or.inl hworker) hstop⟩
  | acquiring =>
    obtain ⟨n, hn⟩ := Nat.exists_eq_add_one.mpr (hpermit hworker)
    exact ⟨.run k, _, nofun, rfl, .acquire hworker hn⟩
  | granted => exact ⟨.run k, _, nofun, rfl, .leave (Or.inr hworker) hstop⟩
  | popping =>
    cases hqueue : s.workqueue with
    | nil => exact ⟨.run k, _, nofun, rfl, .popEmpty hworker hqueue⟩
    | cons r rest => exact ⟨.take k r, _, nofun, rfl, .pop hworker hqueue⟩
  | processing r => exact ⟨.done k, _, nofun, rfl, .done hworker⟩
  | exited => exact absurd hworker hk

end ThreadPool

structure Shutdown (α ι κ : Type) where
  pool : ThreadPool α ι κ
  destructor : Destructor
  -- how often each worker has executed `acquire()` since `m_stop = true`
  acquires : κ → ℕ

inductive ShutdownAct (α ι κ : Type) where
  | agent (act : ThreadPool.Act α ι κ)
  -- a statement of `~threadpool`
  | proceed
  deriving DecidableEq, Repr

def ShutdownAct.moves {α ι κ : Type} [DecidableEq κ] (k : κ) : ShutdownAct α ι κ → Bool
  | .agent act => act.worker = some k
  | .proceed => false

namespace Shutdown

variable {α ι κ : Type}

/-- Any state of the pool, before its destructor is called. -/
def start (pool : ThreadPool α ι κ) : Shutdown α ι κ := ⟨pool, .outside, fun _ => 0⟩

/-- Behind `m_queuestat.release(m_thread_number)`. -/
def Released (s : Shutdown α ι κ) : Prop := s.destructor = .joining ∨ s.destructor = .returned

theorem Released.ne_outside {s : Shutdown α ι κ} (h : s.Released) : s.destructor ≠ .outside := by
  intro houtside
  rcases h with h | h <;> rw [houtside] at h <;> cases h

variable [DecidableEq ι] [DecidableEq κ]

def countAcquire (s : Shutdown α ι κ) : Option κ → κ → ℕ
  | none => s.acquires
  | some k => Function.update s.acquires k (s.acquires k + (s.pool.workers k).atAcquire.toNat)

/-- The workers, one for each element of `κ`, and the producers go on whatever the destructor
does. -/
inductive Step [Fintype κ] (maxRequests : ℕ) :
    Shutdown α ι κ → ShutdownAct α ι κ → Shutdown α ι κ → Prop where
  | agent {s : Shutdown α ι κ} {act : ThreadPool.Act α ι κ} {pool : ThreadPool α ι κ}
      (hact : act ≠ .stop) (hpool : s.pool.Step maxRequests act pool) :
      Step maxRequests s (.agent act) ⟨pool, s.destructor, s.countAcquire act.worker⟩
  | stop {s : Shutdown α ι κ} (hstage : s.destructor = .outside) :
      Step maxRequests s .proceed ⟨{ s.pool with stopped := true }, .stopped, fun _ => 0⟩
  | release {s : Shutdown α ι κ} (hstage : s.destructor = .stopped) :
      Step maxRequests s .proceed
        ⟨{ s.pool with queuestat := s.pool.queuestat + Fintype.card κ }, .joining, s.acquires⟩
  | join {s : Shutdown α ι κ} (hstage : s.destructor = .joining)
      (hexited : ∀ k, s.pool.workers k = .exited) :
      Step maxRequests s .proceed { s with destructor := .returned }

variable [Fintype κ]

structure Settling (s : Shutdown α ι κ) : Prop where
  stopped : s.pool.stopped = true
  /-- A worker that stands at `acquire()` has not executed it since. -/
  once : ∀ k, s.acquires k + (s.pool.workers k).atAcquire.toNat ≤ 1
  /-- There are enough permits, or they are still to be released. -/
  permits : census (·.atAcquire = true) s.pool.workers ≤ s.pool.queuestat ∨ s.destructor = .stopped

/-- Until the destructor is called, nothing is asked of the pool. -/
def Sound (s : Shutdown α ι κ) : Prop := s.destructor ≠ .outside → s.Settling

variable {maxRequests : ℕ} {s s' : Shutdown α ι κ} {act : ShutdownAct α ι κ}

omit [DecidableEq ι] in
theorem census_le_of_move {w : Worker α} {k : κ} {pool : ThreadPool α ι κ}
    (hworkers : pool.workers = Function.update s.pool.workers k w) (hw : w.atAcquire = false)
    (hqueuestat : s.pool.queuestat = pool.queuestat + (s.pool.workers k).atAcquire.toNat)
    (hs : census (·.atAcquire = true) s.pool.workers ≤ s.pool.queuestat) :
    census (·.atAcquire = true) pool.workers ≤ pool.queuestat := by
  have hmoved := census_update (p := fun w : Worker α => w.atAcquire = true) s.pool.workers k w
  rw [← hworkers, hw] at hmoved
  cases hk : (s.pool.workers k).atAcquire <;> simp [hk] at hmoved hqueuestat <;> omega

theorem Settling.agent (hs : s.Settling) {a : ThreadPool.Act α ι κ} {pool : ThreadPool α ι κ}
    (ha : a ≠ .stop) (hpool : s.pool.Step maxRequests a pool) :
    Settling ⟨pool, s.destructor, s.countAcquire a.worker⟩ := by
  obtain ⟨hstopped, hcases⟩ := hpool.stopped_cases ha hs.stopped
  rcases hcases with ⟨hworker, hworkers, hqueuestat⟩ | ⟨k, w, hworker, hworkers, hw, -, hqueuestat⟩
  · refine ⟨hstopped, ?_, ?_⟩
    · intro j
      rw [hworker, hworkers]
      exact hs.once j
    · rw [hworkers]
      exact hs.permits.imp_left fun h => h.trans hqueuestat
  · refine ⟨hstopped, ?_, ?_⟩
    · intro j
      rw [hworker, hworkers]
      by_cases hj : j = k
      · subst hj
        simpa [countAcquire, hw] using hs.once j
      · simpa [countAcquire, hj] using hs.once j
    · exact hs.permits.imp_left (census_le_of_move hworkers hw hqueuestat)

theorem Sound.step (hs : s.Sound) (hstep : Step maxRequests s act s') : s'.Sound := by
  cases hstep with
  | agent hact hpool => exact fun hstage => (hs hstage).agent hact hpool
  | stop hstage =>
    refine fun _ => ⟨rfl, fun k => ?_, Or.inr rfl⟩
    rw [Nat.zero_add]
    exact Bool.toNat_le _
  | release hstage =>
    have hsettling := hs (by rw [hstage]; nofun)
    refine fun _ => ⟨hsettling.stopped, hsettling.once, Or.inl ?_⟩
    -- there are no more workers than permits
    exact (Finset.card_le_univ _).trans (Nat.le_add_left _ _)
  | join hstage =>
    have hsettling := hs (by rw [hstage]; nofun)
    refine fun _ => ⟨hsettling.stopped, hsettling.once, Or.inl (hsettling.permits.resolve_right ?_)⟩
    rw [hstage]
    nofun

theorem sound_of_reaches {pool : ThreadPool α ι κ} (hrun : Reaches (Step maxRequests) (start pool) s) :
    s.Sound :=
  hrun.invariant (fun _ _ _ => Sound.step) fun h => absurd rfl h

/-- Some run goes on to a state in which the worker stands at `acquire()`. -/
def MayAcquire (maxRequests : ℕ) (s : Shutdown α ι κ) (k : κ) : Prop :=
  ∃ s', Reaches (Step maxRequests) s s' ∧ s'.pool.workers k = .acquiring

/-- Behind `m_stop = true`, no worker comes to `acquire()`. -/
theorem atAcquire_step {k : κ} (hstopped : s.pool.stopped = true)
    (hk : (s.pool.workers k).atAcquire = false) (hstep : Step maxRequests s act s') :
    s'.pool.stopped = true ∧ (s'.pool.workers k).atAcquire = false := by
  cases hstep with
  | agent hact hpool =>
    obtain ⟨hstopped', ⟨-, hworkers, -⟩ | ⟨j, w, -, hworkers, hw, -⟩⟩ := hpool.stopped_cases hact hstopped
    · exact ⟨hstopped', by rwa [hworkers]⟩
    · refine ⟨hstopped', ?_⟩
      rw [hworkers]
      by_cases hj : k = j
      · subst hj
        rwa [Function.update_self]
      · rwa [Function.update_of_ne hj]
  | stop => exact ⟨rfl, hk⟩
  | release | join => exact ⟨hstopped, hk⟩

theorem MayAcquire.atAcquire {k : κ} (hstopped : s.pool.stopped = true) (h : s.MayAcquire maxRequests k) :
    (s.pool.workers k).atAcquire = true := by
  obtain ⟨s', hrun, hacquiring⟩ := h
  by_contra hk
  rw [Bool.not_eq_true] at hk
  have hend : s'.pool.stopped = true ∧ (s'.pool.workers k).atAcquire = false := by
    refine Reaches.invariant
      (I := fun s : Shutdown α ι κ => s.pool.stopped = true ∧ (s.pool.workers k).atAcquire = false) hrun ?_
      ⟨hstopped, hk⟩
    rintro s act s' ⟨hstopped, hk⟩ hstep
    exact atAcquire_step hstopped hk hstep
  rw [hacquiring] at hend
  exact absurd hend.2 nofun

theorem ncard_mayAcquire_le (hstopped : s.pool.stopped = true) :
    {k | s.MayAcquire maxRequests k}.ncard ≤ census (·.atAcquire = true) s.pool.workers := by
  unfold census
  rw [← Set.ncard_coe_finset]
  apply Set.ncard_le_ncard _ (Set.toFinite _)
  intro k hk
  rw [Finset.coe_filter]
  exact ⟨Finset.mem_univ k, MayAcquire.atAcquire hstopped hk⟩

omit [DecidableEq ι] [DecidableEq κ] in
theorem Settling.census_le (hs : s.Settling) (hreleased : s.Released) :
    census (·.atAcquire = true) s.pool.workers ≤ s.pool.queuestat := by
  refine hs.permits.resolve_right fun hstopped => ?_
  rcases hreleased with h | h <;> rw [hstopped] at h <;> cases h

omit [DecidableEq ι] [DecidableEq κ] in
/-- A worker at `acquire()` has its permit. -/
theorem Settling.permit_pos (hs : s.Settling) (hreleased : s.Released) {k : κ}
    (hk : s.pool.workers k = .acquiring) : 0 < s.pool.queuestat := by
  have hpos : 0 < census (·.atAcquire = true) s.pool.workers :=
    census_pos_iff.mpr ⟨k, Worker.atAcquire_iff.mpr hk⟩
  exact hpos.trans_le (hs.census_le hreleased)

/-- A step of the destructor or of a worker brings the end nearer. -/
def stepsLeft (s : Shutdown α ι κ) : ℕ :=
  (match s.destructor with
    | .outside => 3
    | .stopped => 2
    | .joining => 1
    | .returned => 0) + ∑ k, (s.pool.workers k).stepsLeft

omit [DecidableEq ι] in
theorem sum_stepsLeft_lt {w : Worker α} {k : κ} {pool : ThreadPool α ι κ}
    (hworkers : pool.workers = Function.update s.pool.workers k w)
    (hlt : w.stepsLeft < (s.pool.workers k).stepsLeft) :
    ∑ i, (pool.workers i).stepsLeft < ∑ i, (s.pool.workers i).stepsLeft := by
  have hle : ∀ i, (pool.workers i).stepsLeft ≤ (s.pool.workers i).stepsLeft := by
    rw [hworkers]
    apply (Function.forall_update_iff s.pool.workers
      fun i w => w.stepsLeft ≤ (s.pool.workers i).stepsLeft).mpr
    exact ⟨hlt.le, fun _ _ => Nat.le_refl _⟩
  apply Finset.sum_lt_sum fun i _ => hle i
  refine ⟨k, Finset.mem_univ k, ?_⟩
  rwa [hworkers, Function.update_self]

/-- The destructor waits for workers only, and they wait for no one. -/
theorem exists_step_down (hs : s.Sound) :
    s.destructor = .returned ∨
      ∃ act s', Step maxRequests s act s' ∧ s'.Sound ∧ s'.stepsLeft < s.stepsLeft := by
  cases hstage : s.destructor with
  | outside =>
    have hstep : Step maxRequests s .proceed _ := .stop hstage
    refine Or.inr ⟨_, _, hstep, hs.step hstep, ?_⟩
    simp [stepsLeft, hstage]
  | stopped =>
    have hstep : Step maxRequests s .proceed _ := .release hstage
    refine Or.inr ⟨_, _, hstep, hs.step hstep, ?_⟩
    simp [stepsLeft, hstage]
  | joining =>
    right
    by_cases hexited : ∀ k, s.pool.workers k = .exited
    · have hstep : Step maxRequests s .proceed _ := .join hstage hexited
      refine ⟨_, _, hstep, hs.step hstep, ?_⟩
      simp [stepsLeft, hstage]
    · obtain ⟨k, hk⟩ := not_forall.mp hexited
      have hsettling := hs (by rw [hstage]; nofun)
      obtain ⟨a, pool, ha, hworker, hpool⟩ := ThreadPool.exists_step maxRequests
        hsettling.stopped hk (hsettling.permit_pos (Or.inl hstage))
      have hstep : Step maxRequests s (.agent a) _ := .agent ha hpool
      refine ⟨_, _, hstep, hs.step hstep, ?_⟩
      obtain ⟨-, ⟨hnone, -⟩ | ⟨j, w, hj, hworkers, -, hlt, -⟩⟩ := hpool.stopped_cases ha hsettling.stopped
      · rw [hworker] at hnone
        cases hnone
      · unfold stepsLeft
        exact Nat.add_lt_add_left (sum_stepsLeft_lt hworkers hlt) _
  | returned => exact Or.inl rfl

theorem exists_returned (hs : s.Sound) :
    ∃ s', Reaches (Step maxRequests) s s' ∧ s'.destructor = .returned :=
  Reaches.exists_of_measure stepsLeft (fun _ => exists_step_down) hs

theorem stepsLeft_step {k : κ} (hstopped : s.pool.stopped = true) (hstep : Step maxRequests s act s') :
    s'.pool.stopped = true ∧ (s'.pool.workers k).stepsLeft + (act.moves k).toNat ≤
      (s.pool.workers k).stepsLeft := by
  cases hstep with
  | agent hact hpool =>
    obtain ⟨hstopped', ⟨hnone, hworkers, -⟩ | ⟨j, w, hworker, hworkers, -, hlt, -⟩⟩ :=
      hpool.stopped_cases hact hstopped
    · refine ⟨hstopped', ?_⟩
      simp [ShutdownAct.moves, hnone, hworkers]
    · refine ⟨hstopped', ?_⟩
      by_cases hj : j = k
      · subst hj
        simpa [ShutdownAct.moves, hworker, hworkers] using hlt
      · simp [ShutdownAct.moves, hworker, hworkers, hj, Ne.symm hj]
  | stop => exact ⟨rfl, Nat.le_refl _⟩
  | release | join => exact ⟨hstopped, Nat.le_refl _⟩

/-- Behind `m_stop = true`, a worker has few steps left, whatever the others do. -/
theorem countP_moves_le {k : κ} {acts : List (ShutdownAct α ι κ)} (hpath : Path (Step maxRequests) s acts s')
    (hstopped : s.pool.stopped = true) :
    acts.countP (·.moves k) ≤ (s.pool.workers k).stepsLeft := by
  induction hpath with
  | nil => exact Nat.zero_le _
  | @cons s s₁ s' act acts hstep hpath ih =>
    obtain ⟨hstopped₁, hle⟩ := stepsLeft_step (k := k) hstopped hstep
    have hrest := ih hstopped₁
    rw [List.countP_cons]
    cases hmoves : act.moves k <;> simp [hmoves] at hle ⊢ <;> omega

/-- **No worker stays blocked.** From any state of the pool and in any interleaving, once the
permits are released there is one for each worker that may still acquire. A worker acquires
at most once after `m_stop = true` and can go on until it has left, which takes at most three
steps, and the destructor can return. -/
theorem no_worker_blocked (pool : ThreadPool α ι κ) (hrun : Reaches (Step maxRequests) (start pool) s)
    (hreleased : s.Released) :
    {k | s.MayAcquire maxRequests k}.ncard ≤ s.pool.queuestat ∧ (∀ k, s.acquires k ≤ 1) ∧
      (∀ k, s.pool.workers k = .acquiring → 0 < s.pool.queuestat) ∧
      (∀ k, s.pool.workers k ≠ .exited →
        ∃ act s', act.worker = some k ∧ Step maxRequests s (.agent act) s') ∧
      (∀ k acts s', Path (Step maxRequests) s acts s' → acts.countP (·.moves k) ≤ 3) ∧
      ∃ s', Reaches (Step maxRequests) s s' ∧ s'.destructor = .returned := by
  have hsound := sound_of_reaches hrun
  have hsettling := hsound hreleased.ne_outside
  refine ⟨?_, ?_, ?_, ?_, ?_, exists_returned hsound⟩
  · exact (ncard_mayAcquire_le hsettling.stopped).trans (hsettling.census_le hreleased)
  · intro k
    exact (Nat.le_add_right _ _).trans (hsettling.once k)
  · intro k hk
    exact hsettling.permit_pos hreleased hk
  · intro k hk
    obtain ⟨act, pool, hact, hworker, hpool⟩ := ThreadPool.exists_step maxRequests
      hsettling.stopped hk (hsettling.permit_pos hreleased)
    exact ⟨act, _, hworker, .agent hact hpool⟩
  · intro k acts s' hpath
    exact (countP_moves_le hpath hsettling.stopped).trans (Worker.stepsLeft_le _)

/-- One worker is in `process()`, the other waits, and a request is left without a permit. -/
def interrupted : ThreadPool ℕ Unit Bool :=
  { ThreadPool.new with
    workqueue := [some 8]
    workers := fun k => if k then .acquiring else .processing 7 }

theorem interrupted_not_blocked :
    {k | (⟨{ interrupted with stopped := true, queuestat := 2 }, .joining, fun _ => 0⟩ :
      Shutdown ℕ Unit Bool).MayAcquire 1 k}.ncard ≤ 2 := by
  have hstop : Step 1 (start interrupted) .proceed _ := .stop rfl
  have hrelease : Step 1 (⟨{ interrupted with stopped := true }, .stopped, fun _ => 0⟩ :
    Shutdown ℕ Unit Bool) .proceed _ := .release rfl
  exact (no_worker_blocked interrupted ((Runs.refl.snoc hstop trivial).snoc hrelease trivial)
    (Or.inl rfl)).1

end Shutdown

def MainStage.destructor : MainStage → Destructor
  | .releasing => .stopped
  | .joining => .joining
  | .returned => .returned
  | _ => .outside

namespace Main

variable {κ : Type} [DecidableEq κ] [Fintype κ] {lib : JsonLib} {verify : Bytes → Option ℤ}
  {maxFd maxRequests : ℕ} {s s' : Main κ} {act : MainAct κ}

theorem Step.shutdown_step (hstep : Step lib verify maxFd maxRequests s act s') (acquires : κ → ℕ) :
    ∃ acquires', Reaches (Shutdown.Step maxRequests) ⟨s.server.pool, s.stage.destructor, acquires⟩
      ⟨s'.server.pool, s'.stage.destructor, acquires'⟩ := by
  cases hstep with
  | agent _ hserver =>
    rcases hserver.pool_step with h | ⟨act, hact, hpool⟩
    · rw [h]
      exact ⟨acquires, .refl⟩
    · exact ⟨_, Runs.refl.snoc (.agent hact hpool) trivial⟩
  | stop hstage =>
    rw [hstage]
    exact ⟨_, Runs.refl.snoc (.stop rfl) trivial⟩
  | release hstage =>
    rw [hstage]
    exact ⟨_, Runs.refl.snoc (.release rfl) trivial⟩
  | join hstage hexited =>
    rw [hstage]
    exact ⟨_, Runs.refl.snoc (.join rfl hexited) trivial⟩
  | socketFails hstage | socket hstage | leaveLoop hstage | closeEpoll hstage | closeListen hstage
  | deleteUsers hstage =>
    rw [hstage]
    exact ⟨acquires, .refl⟩

/-- `main` shuts the pool down in a run of `Shutdown`. -/
theorem reaches_shutdown {others : Finset ℕ}
    (hrun : Reaches (Step lib verify maxFd maxRequests) (start others) s) :
    ∃ acquires, Reaches (Shutdown.Step maxRequests) (Shutdown.start .new)
      ⟨s.server.pool, s.stage.destructor, acquires⟩ := by
  refine Reaches.invariant (I := fun s : Main κ => ∃ acquires, Reaches (Shutdown.Step maxRequests)
    (Shutdown.start .new) ⟨s.server.pool, s.stage.destructor, acquires⟩) hrun ?_ ⟨_, .refl⟩
  rintro s act s' ⟨acquires, hreach⟩ hstep
  obtain ⟨acquires', hnext⟩ := hstep.shutdown_step acquires
  exact ⟨acquires', hreach.trans hnext⟩

/-- While `main` joins the workers, none of them waits for a permit. -/
theorem permit_of_joining {others : Finset ℕ}
    (hrun : Reaches (Step lib verify maxFd maxRequests) (start others) s) (hstage : s.stage = .joining)
    {k : κ} (hk : s.server.pool.workers k = .acquiring) : 0 < s.server.pool.queuestat := by
  obtain ⟨acquires, hreach⟩ := reaches_shutdown hrun
  have hreleased : Shutdown.Released (⟨s.server.pool, s.stage.destructor, acquires⟩ : Shutdown ℕ Unit κ) := by
    rw [hstage]
    exact Or.inl rfl
  exact (Shutdown.sound_of_reaches hreach hreleased.ne_outside).permit_pos hreleased hk

end Main
end Runtime
end ResourceServer

import Mathlib.Data.Fintype.Sum
import Mathlib.Data.Sum.Basic
import ResourceServer.Foundation.GuardedQueue

/-!
# Worker queue

`threadpool`: producers append pointers to requests, workers run `run()`. Three histories
are kept for the proofs: the pointers that `append` accepted, those it refused, and those
that workers have taken, each in order.
-/

namespace ResourceServer
namespace Runtime

/-- Where a producer stands in `append`. -/
inductive Producer where
  | outside
  -- behind the push, before `m_queuestat.release()`
  | pushed
  deriving DecidableEq, Repr

/-- Where a worker stands in `run`. -/
inductive Worker (α : Type) where
  -- at the test of the loop
  | entering
  | acquiring
  -- behind `m_queuestat.acquire()`
  | granted
  -- behind the second test of `m_stop`
  | popping
  | processing (request : α)
  | exited
  deriving DecidableEq, Repr

def Producer.stage : Producer → Stage
  | .outside => .outside
  | .pushed => .pushed

def Worker.stage {α : Type} : Worker α → Stage
  | .granted | .popping => .granted
  | _ => .outside

/-- A worker that popped a null pointer drops it. -/
def Worker.afterPop {α : Type} : Option α → Worker α
  | none => .entering
  | some r => .processing r

def Worker.request {α : Type} : Worker α → Option α
  | .processing r => some r
  | _ => none

@[simp] theorem Worker.request_afterPop {α : Type} (r : Option α) : (Worker.afterPop r).request = r := by
  cases r <;> rfl

@[simp] theorem Worker.stage_afterPop {α : Type} (r : Option α) :
    (Worker.afterPop r).stage = .outside := by
  cases r <;> rfl

structure ThreadPool (α ι κ : Type) where
  workqueue : List (Option α)
  queuestat : ℕ
  stopped : Bool
  producers : ι → Producer
  workers : κ → Worker α
  accepted : List (Option α)
  refused : List (Option α)
  taken : List (κ × Option α)

namespace ThreadPool

variable {α ι κ : Type}

def new : ThreadPool α ι κ where
  workqueue := []
  queuestat := 0
  stopped := false
  producers _ := .outside
  workers _ := .entering
  accepted := []
  refused := []
  taken := []

/-- What a step does. A request is `none` for a null pointer. -/
inductive Act (α ι κ : Type) where
  | append (i : ι) (request : Option α) (ok : Bool)
  | release (i : ι)
  -- a worker goes on without a request in its hands
  | run (k : κ)
  | take (k : κ) (request : Option α)
  | done (k : κ)
  | stop
  deriving DecidableEq, Repr

variable [DecidableEq ι] [DecidableEq κ]

def moveProducer (s : ThreadPool α ι κ) (i : ι) (p : Producer) : ThreadPool α ι κ :=
  { s with producers := Function.update s.producers i p }

def moveWorker (s : ThreadPool α ι κ) (k : κ) (w : Worker α) : ThreadPool α ι κ :=
  { s with workers := Function.update s.workers k w }

inductive Step (maxRequests : ℕ) : ThreadPool α ι κ → Act α ι κ → ThreadPool α ι κ → Prop where
  | push {s : ThreadPool α ι κ} {i : ι} (r : Option α) (hi : s.producers i = .outside)
      (hroom : s.workqueue.length < maxRequests) :
      Step maxRequests s (.append i r true) { s.moveProducer i .pushed with
        workqueue := s.workqueue ++ [r], accepted := s.accepted ++ [r] }
  | refuse {s : ThreadPool α ι κ} {i : ι} (r : Option α) (hi : s.producers i = .outside)
      (hfull : maxRequests ≤ s.workqueue.length) :
      Step maxRequests s (.append i r false) { s with refused := s.refused ++ [r] }
  | release {s : ThreadPool α ι κ} {i : ι} (hi : s.producers i = .pushed) :
      Step maxRequests s (.release i) { s.moveProducer i .outside with queuestat := s.queuestat + 1 }
  | enter {s : ThreadPool α ι κ} {k : κ} (hk : s.workers k = .entering) (hstop : s.stopped = false) :
      Step maxRequests s (.run k) (s.moveWorker k .acquiring)
  | acquire {s : ThreadPool α ι κ} {k : κ} {n : ℕ} (hk : s.workers k = .acquiring)
      (hpermits : s.queuestat = n + 1) :
      Step maxRequests s (.run k) { s.moveWorker k .granted with queuestat := n }
  | goOn {s : ThreadPool α ι κ} {k : κ} (hk : s.workers k = .granted) (hstop : s.stopped = false) :
      Step maxRequests s (.run k) (s.moveWorker k .popping)
  | leave {s : ThreadPool α ι κ} {k : κ} (hk : s.workers k = .entering ∨ s.workers k = .granted)
      (hstop : s.stopped = true) : Step maxRequests s (.run k) (s.moveWorker k .exited)
  -- the permit is gone
  | popEmpty {s : ThreadPool α ι κ} {k : κ} (hk : s.workers k = .popping) (hqueue : s.workqueue = []) :
      Step maxRequests s (.run k) (s.moveWorker k .entering)
  | pop {s : ThreadPool α ι κ} {k : κ} {r : Option α} {rest : List (Option α)}
      (hk : s.workers k = .popping) (hqueue : s.workqueue = r :: rest) :
      Step maxRequests s (.take k r) { s.moveWorker k (Worker.afterPop r) with
        workqueue := rest, taken := s.taken ++ [(k, r)] }
  | done {s : ThreadPool α ι κ} {k : κ} {r : α} (hk : s.workers k = .processing r) :
      Step maxRequests s (.done k) (s.moveWorker k .entering)
  -- the destructor, which releases `m_thread_number` permits
  | stop {s : ThreadPool α ι κ} (threadNumber : ℕ) (hstop : s.stopped = false) :
      Step maxRequests s .stop { s with stopped := true, queuestat := s.queuestat + threadNumber }

section Effects

variable {maxRequests : ℕ} {s s' : ThreadPool α ι κ}

theorem Step.append_accepted {i : ι} {r : Option α} (hstep : Step maxRequests s (.append i r true) s') :
    s'.workqueue = s.workqueue ++ [r] ∧ s'.refused = s.refused ∧ s'.workers = s.workers := by
  cases hstep
  exact ⟨rfl, rfl, rfl⟩

theorem Step.append_refused {i : ι} {r : Option α} (hstep : Step maxRequests s (.append i r false) s') :
    maxRequests ≤ s.workqueue.length ∧ s'.workqueue = s.workqueue ∧
      s'.refused = s.refused ++ [r] ∧ s'.workers = s.workers := by
  cases hstep with
  | refuse _ _ hfull => exact ⟨hfull, rfl, rfl, rfl⟩

theorem Step.release_frame {i : ι} (hstep : Step maxRequests s (.release i) s') :
    s'.workqueue = s.workqueue ∧ s'.refused = s.refused ∧ s'.workers = s.workers := by
  cases hstep
  exact ⟨rfl, rfl, rfl⟩

theorem Step.take_spec {k : κ} {r : Option α} (hstep : Step maxRequests s (.take k r) s') :
    s.workqueue = r :: s'.workqueue ∧ s'.refused = s.refused ∧ (s.workers k).request = none ∧
      s'.workers = Function.update s.workers k (.afterPop r) := by
  cases hstep with
  | pop hk hqueue => exact ⟨hqueue, rfl, by rw [hk]; rfl, rfl⟩

theorem Step.done_spec {k : κ} (hstep : Step maxRequests s (.done k) s') :
    s'.workqueue = s.workqueue ∧ s'.refused = s.refused ∧
      s'.workers = Function.update s.workers k .entering := by
  cases hstep
  exact ⟨rfl, rfl, rfl⟩

theorem Step.run_frame {k : κ} (hstep : Step maxRequests s (.run k) s') :
    s'.workqueue = s.workqueue ∧ s'.refused = s.refused ∧
      ∀ j, (s'.workers j).request = (s.workers j).request := by
  have hmove (w : Worker α) (hw : w.request = none) (hk : (s.workers k).request = none) :
      ∀ j, ((s.moveWorker k w).workers j).request = (s.workers j).request := by
    apply (Function.forall_update_iff s.workers fun j w => w.request = (s.workers j).request).mpr
    exact ⟨hw.trans hk.symm, fun _ _ => rfl⟩
  cases hstep with
  | enter hk | goOn hk | popEmpty hk => exact ⟨rfl, rfl, hmove _ rfl (by rw [hk]; rfl)⟩
  | acquire hk hpermits => exact ⟨rfl, rfl, hmove _ rfl (by rw [hk]; rfl)⟩
  | leave hk hstop =>
    refine ⟨rfl, rfl, hmove _ rfl ?_⟩
    rcases hk with hk | hk <;> rw [hk] <;> rfl

end Effects

def guarded (s : ThreadPool α ι κ) : GuardedQueue (Option α) (ι ⊕ κ) where
  items := s.workqueue
  permits := s.queuestat
  stage := Sum.elim (Producer.stage ∘ s.producers) (Worker.stage ∘ s.workers)

omit [DecidableEq ι] [DecidableEq κ] in
@[simp] theorem guarded_producer (s : ThreadPool α ι κ) (i : ι) :
    s.guarded.stage (.inl i) = (s.producers i).stage := rfl

omit [DecidableEq ι] [DecidableEq κ] in
@[simp] theorem guarded_worker (s : ThreadPool α ι κ) (k : κ) :
    s.guarded.stage (.inr k) = (s.workers k).stage := rfl

theorem stage_moveProducer (s : ThreadPool α ι κ) (i : ι) (p : Producer) :
    (s.moveProducer i p).guarded.stage = Function.update s.guarded.stage (.inl i) p.stage := by
  unfold guarded moveProducer
  rw [Function.comp_update, Sum.update_elim_inl]

theorem stage_moveWorker (s : ThreadPool α ι κ) (k : κ) (w : Worker α) :
    (s.moveWorker k w).guarded.stage = Function.update s.guarded.stage (.inr k) w.stage := by
  unfold guarded moveWorker
  rw [Function.comp_update, Sum.update_elim_inr]

theorem Step.refines {maxRequests : ℕ} {s s' : ThreadPool α ι κ} {a : Act α ι κ}
    (hstep : Step maxRequests s a s') (hstop : s'.stopped = false)
    (hqueue : ∀ k, s.workers k = .popping → s.workqueue ≠ []) :
    s'.guarded = s.guarded ∨ ∃ agent, GuardedQueue.Step s.guarded agent s'.guarded := by
  have hkeep (k : κ) (w : Worker α) (hw : w.stage = (s.workers k).stage) :
      (s.moveWorker k w).guarded = s.guarded := by
    have hstage := stage_moveWorker s k w
    rw [hw, ← guarded_worker, Function.update_eq_self] at hstage
    exact congrArg (GuardedQueue.mk s.workqueue s.queuestat) hstage
  cases hstep with
  | @push i r hi hroom =>
    have h : GuardedQueue.Step s.guarded (.inl i) _ := .push r (by simp [hi, Producer.stage])
    rw [← show Producer.stage .pushed = .pushed from rfl, ← stage_moveProducer] at h
    exact Or.inr ⟨.inl i, h⟩
  | refuse r hi hfull => exact Or.inl rfl
  | @release i hi =>
    have h : GuardedQueue.Step s.guarded (.inl i) _ := .release (by simp [hi, Producer.stage])
    rw [← show Producer.stage .outside = .outside from rfl, ← stage_moveProducer] at h
    exact Or.inr ⟨.inl i, h⟩
  | @enter k hk _ => exact Or.inl (hkeep k _ (by simp [hk, Worker.stage]))
  | @acquire k n hk hpermits =>
    have h : GuardedQueue.Step s.guarded (.inr k) _ := .acquire (by simp [hk, Worker.stage]) hpermits
    rw [← show (Worker.granted : Worker α).stage = .granted from rfl, ← stage_moveWorker] at h
    exact Or.inr ⟨.inr k, h⟩
  | @goOn k hk _ => exact Or.inl (hkeep k _ (by simp [hk, Worker.stage]))
  | leave hk hstopped => exact absurd (hstopped.symm.trans hstop) nofun
  | @popEmpty k hk hnil => exact absurd hnil (hqueue k hk)
  | @pop k r rest hk hcons =>
    have h : GuardedQueue.Step s.guarded (.inr k) _ := .pop (by simp [hk, Worker.stage]) hcons
    rw [← Worker.stage_afterPop r, ← stage_moveWorker] at h
    exact Or.inr ⟨.inr k, h⟩
  | @done k r hk => exact Or.inl (hkeep k _ (by simp [hk, Worker.stage]))
  | stop => cases hstop

/-- The calls of `process()`, in the order the requests were taken. -/
def calls (s : ThreadPool α ι κ) : List (κ × α) :=
  s.taken.filterMap fun call => call.2.map (call.1, ·)

structure Delivers (s : ThreadPool α ι κ) (maxRequests : ℕ) : Prop where
  /-- What was accepted has been taken in this order, or is still queued. -/
  fifo : s.accepted = s.taken.map Prod.snd ++ s.workqueue
  bounded : s.workqueue.length ≤ maxRequests
  /-- A request at work has been taken by its worker. -/
  working : ∀ k r, s.workers k = .processing r → (k, some r) ∈ s.taken

omit [DecidableEq ι] [DecidableEq κ] in
theorem Delivers.new (maxRequests : ℕ) : (new : ThreadPool α ι κ).Delivers maxRequests :=
  ⟨rfl, Nat.zero_le _, nofun⟩

theorem Delivers.step {maxRequests : ℕ} {s s' : ThreadPool α ι κ} {a : Act α ι κ}
    (hs : s.Delivers maxRequests) (hstep : Step maxRequests s a s') : s'.Delivers maxRequests := by
  obtain ⟨hfifo, hbounded, hworking⟩ := hs
  have hmoved (k : κ) (w : Worker α) (hw : ∀ r, w ≠ .processing r) :
      ∀ k' r, (s.moveWorker k w).workers k' = .processing r → (k', some r) ∈ s.taken := by
    apply (Function.forall_update_iff s.workers fun j w => ∀ r, w = .processing r →
      (j, some r) ∈ s.taken).mpr
    exact ⟨fun r hr => absurd hr (hw r), fun j _ => hworking j⟩
  cases hstep with
  | push r hi hroom =>
    refine ⟨?_, ?_, hworking⟩
    · simp only [hfifo, List.append_assoc]
      rfl
    · simp only [List.length_append, List.length_singleton]
      omega
  | refuse r hi hfull => exact ⟨hfifo, hbounded, hworking⟩
  | release hi => exact ⟨hfifo, hbounded, hworking⟩
  | enter hk hstop => exact ⟨hfifo, hbounded, hmoved _ _ nofun⟩
  | acquire hk hpermits => exact ⟨hfifo, hbounded, hmoved _ _ nofun⟩
  | goOn hk hstop => exact ⟨hfifo, hbounded, hmoved _ _ nofun⟩
  | leave hk hstop => exact ⟨hfifo, hbounded, hmoved _ _ nofun⟩
  | popEmpty hk hnil => exact ⟨hfifo, hbounded, hmoved _ _ nofun⟩
  | @pop k r rest hk hcons =>
    refine ⟨?_, ?_, fun k' r' hk' => ?_⟩
    · simp [hfifo, hcons, moveWorker]
    · rw [hcons, List.length_cons] at hbounded
      exact Nat.le_of_succ_le hbounded
    · by_cases heq : k' = k
      · subst heq
        have hw : Worker.afterPop r = .processing r' := by
          simpa [moveWorker] using hk'
        cases r with
        | none => cases hw
        | some r =>
          cases hw
          exact List.mem_append_right _ (List.mem_singleton.mpr rfl)
      · exact List.mem_append_left _ (hworking k' r' ((Function.update_of_ne heq ..).symm.trans hk'))
  | done hk => exact ⟨hfifo, hbounded, hmoved _ _ nofun⟩
  | stop threadNumber hstop => exact ⟨hfifo, hbounded, hworking⟩

variable [Fintype ι] [Fintype κ]

/-- Until the pool is stopped, a worker with a permit finds a request. -/
def Permitted (s : ThreadPool α ι κ) : Prop := s.stopped = false → s.guarded.Balanced

omit [DecidableEq ι] [DecidableEq κ] in
theorem Permitted.workqueue_ne_nil {s : ThreadPool α ι κ} (hs : s.Permitted) (hstop : s.stopped = false)
    {k : κ} (hk : s.workers k = .popping) : s.workqueue ≠ [] :=
  (hs hstop).items_ne_nil (i := .inr k) (by simp [hk, Worker.stage])

omit [DecidableEq ι] [DecidableEq κ] in
theorem Permitted.new : (new : ThreadPool α ι κ).Permitted := by
  intro _
  have hstage : (ThreadPool.new : ThreadPool α ι κ).guarded.stage = fun _ => .outside := by
    funext agent
    cases agent <;> rfl
  unfold GuardedQueue.Balanced
  rw [hstage, census_eq_zero fun _ => nofun, census_eq_zero fun _ => nofun]
  rfl

theorem Permitted.step {maxRequests : ℕ} {s s' : ThreadPool α ι κ} {a : Act α ι κ}
    (hs : s.Permitted) (hstep : Step maxRequests s a s') : s'.Permitted := by
  intro hstop
  have hbefore : s.stopped = false := by
    cases hstep with
    | stop => cases hstop
    | _ => exact hstop
  rcases hstep.refines hstop fun _ => hs.workqueue_ne_nil hbefore with h | ⟨agent, h⟩
  · rw [h]
    exact hs hbefore
  · exact (hs hbefore).step h

/-- **Delivery.** In every interleaving of `append` and `run`, what `append` accepted is
taken by one worker each, in this order, or still queued; before the pool is stopped, no
permit is lost on an empty queue. -/
theorem delivers_exactly_once (maxRequests : ℕ) (s : ThreadPool α ι κ)
    (hrun : Reaches (Step maxRequests) new s) :
    s.accepted.filterMap id = s.calls.map Prod.snd ++ s.workqueue.filterMap id ∧
      s.Delivers maxRequests ∧ (∀ call ∈ s.calls, some call.2 ∈ s.accepted) ∧
      (s.stopped = false → ∀ k, s.workers k = .popping → s.workqueue ≠ []) := by
  have hdelivers : s.Delivers maxRequests :=
    Reaches.invariant (I := (Delivers · maxRequests)) hrun (fun _ _ _ => Delivers.step) (.new _)
  have hpermitted : s.Permitted :=
    Reaches.invariant (I := Permitted) hrun (fun _ _ _ => Permitted.step) .new
  refine ⟨?_, hdelivers, ?_, fun hstop k hk => hpermitted.workqueue_ne_nil hstop hk⟩
  · rw [hdelivers.fifo, List.filterMap_append, calls, List.map_filterMap, List.filterMap_map]
    congr 2
    funext call
    rcases call with ⟨k, _ | r⟩ <;> rfl
  · intro call hcall
    obtain ⟨⟨k, r⟩, htaken, hr⟩ := List.mem_filterMap.mp hcall
    obtain ⟨r', rfl, rfl⟩ := Option.map_eq_some_iff.mp hr
    rw [hdelivers.fifo]
    exact List.mem_append_left _ (List.mem_map.mpr ⟨_, htaken, rfl⟩)

/-- A queue of one place, with request 7 in it. -/
def filled : ThreadPool ℕ Bool Unit :=
  { new.moveProducer false .pushed with workqueue := [some 7], accepted := [some 7] }

/-- The other producer has been refused. -/
def overflowed : ThreadPool ℕ Bool Unit := { filled with refused := [some 8] }

theorem overflowed_delivers : overflowed.accepted.filterMap id =
    overflowed.calls.map Prod.snd ++ overflowed.workqueue.filterMap id := by
  have hpush : Step 1 new (.append false (some 7) true) filled := .push (some 7) rfl (by decide)
  have hrefuse : Step 1 filled (.append true (some 8) false) overflowed :=
    .refuse (some 8) rfl (by decide)
  exact (delivers_exactly_once 1 overflowed
    (Runs.snoc (Runs.snoc .refl hpush trivial) hrefuse trivial)).1

end ThreadPool
end Runtime
end ResourceServer

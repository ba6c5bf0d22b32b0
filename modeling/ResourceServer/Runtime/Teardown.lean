import ResourceServer.Runtime.Descriptors

/-!
# Teardown

`main` from `socket` to its end. The workers run from before to after the event loop:
`delete [] users` comes before `delete pool`, and only the latter waits for them.
-/

namespace ResourceServer
namespace Runtime

open Http

/-- Where `main` stands. -/
inductive MainStage where
  -- before `socket`, with the pool and `users` there
  | opening
  -- in the event loop
  | looping
  -- before `close(epollfd)`
  | closingEpoll
  | closingListen
  -- before `delete [] users`
  | deletingUsers
  -- in `~threadpool`, before `m_stop = true`
  | stopping
  -- before `m_queuestat.release(m_thread_number)`
  | releasing
  | joining
  | returned
  deriving DecidableEq, Repr

namespace MainStage

def usersDeleted : MainStage → Bool
  | .stopping | .releasing | .joining | .returned => true
  | _ => false

/-- Behind the event loop, with `users` there. -/
def ended : MainStage → Bool
  | .closingEpoll | .closingListen | .deletingUsers => true
  | _ => false

end MainStage

structure Main (κ : Type) where
  server : Server κ
  stage : MainStage

inductive MainAct (κ : Type) where
  | agent (agent : Agent κ)
  | deleteUsers
  -- any other statement of `main`
  | proceed
  deriving DecidableEq, Repr

namespace Main

variable {κ : Type}

def start (others : Finset ℕ) : Main κ := ⟨.start others, .opening⟩

def setPool (s : Main κ) (pool : ThreadPool ℕ Unit κ) (stage : MainStage) : Main κ :=
  ⟨{ s.server with pool := pool }, stage⟩

variable [DecidableEq κ] [Fintype κ]

/-- The workers, one for each element of `κ`, go on whatever `main` does. -/
inductive Step (lib : JsonLib) (verify : Bytes → Option ℤ) (maxFd maxRequests : ℕ) :
    Main κ → MainAct κ → Main κ → Prop where
  | agent {s : Main κ} {agent : Agent κ} {server : Server κ}
      (hloop : agent = .loop → s.stage = .looping)
      (hstep : Server.Step lib verify maxFd maxRequests s.server agent server) :
      Step lib verify maxFd maxRequests s (.agent agent) ⟨server, s.stage⟩
  | socketFails {s : Main κ} (hstage : s.stage = .opening) :
      Step lib verify maxFd maxRequests s .proceed { s with stage := .deletingUsers }
  | socket {s : Main κ} (hstage : s.stage = .opening) :
      Step lib verify maxFd maxRequests s .proceed { s with stage := .looping }
  -- `epoll_wait` fails, other than with `EINTR`
  | leaveLoop {s : Main κ} (hstage : s.stage = .looping) (hwaiting : s.server.loop = .waiting) :
      Step lib verify maxFd maxRequests s .proceed { s with stage := .closingEpoll }
  | closeEpoll {s : Main κ} (hstage : s.stage = .closingEpoll) :
      Step lib verify maxFd maxRequests s .proceed { s with stage := .closingListen }
  | closeListen {s : Main κ} (hstage : s.stage = .closingListen) :
      Step lib verify maxFd maxRequests s .proceed { s with stage := .deletingUsers }
  | deleteUsers {s : Main κ} (hstage : s.stage = .deletingUsers) :
      Step lib verify maxFd maxRequests s .deleteUsers { s with stage := .stopping }
  | stop {s : Main κ} (hstage : s.stage = .stopping) :
      Step lib verify maxFd maxRequests s .proceed
        (s.setPool { s.server.pool with stopped := true } .releasing)
  | release {s : Main κ} (hstage : s.stage = .releasing) :
      Step lib verify maxFd maxRequests s .proceed
        (s.setPool { s.server.pool with queuestat := s.server.pool.queuestat + Fintype.card κ } .joining)
  | join {s : Main κ} (hstage : s.stage = .joining) (hexited : ∀ k, s.server.pool.workers k = .exited) :
      Step lib verify maxFd maxRequests s .proceed { s with stage := .returned }

end Main

namespace ThreadPool

variable {α ι κ : Type} [DecidableEq ι] [DecidableEq κ]

omit [DecidableEq ι] in
@[simp] theorem moveWorker_self (s : ThreadPool α ι κ) (k : κ) (w : Worker α) :
    (s.moveWorker k w).workers k = w := Function.update_self ..

omit [DecidableEq ι] [DecidableEq κ] in
theorem exists_permit [Fintype ι] [Fintype κ] {s : ThreadPool α ι κ} (hbalanced : s.guarded.Balanced)
    (hproducers : ∀ i, s.producers i = .outside) (hworkers : ∀ k, (s.workers k).stage = .outside)
    (hqueue : s.workqueue ≠ []) : ∃ n, s.queuestat = n + 1 := by
  have houtside (agent : ι ⊕ κ) : s.guarded.stage agent = .outside := by
    cases agent with
    | inl i => rw [guarded_producer, hproducers i]; rfl
    | inr k => exact hworkers k
  have hgranted : census (· = .granted) s.guarded.stage = 0 :=
    census_eq_zero fun agent => by rw [houtside agent]; nofun
  have hpushed : census (· = .pushed) s.guarded.stage = 0 :=
    census_eq_zero fun agent => by rw [houtside agent]; nofun
  have hlength : s.workqueue.length = s.queuestat := by
    rw [GuardedQueue.Balanced, hgranted, hpushed] at hbalanced
    exact hbalanced
  have hpos := List.length_pos_iff.mpr hqueue
  exact Nat.exists_eq_add_one.mpr (hlength ▸ hpos)

/-- Without `stop`, no worker leaves. -/
theorem Step.manned {maxRequests : ℕ} {s s' : ThreadPool α ι κ} {a : Act α ι κ}
    (hstep : Step maxRequests s a s') (ha : a ≠ .stop) (hstop : s.stopped = false)
    (hpresent : ∀ k, s.workers k ≠ .exited) :
    s'.stopped = false ∧ ∀ k, s'.workers k ≠ .exited := by
  have hmoved (k : κ) (w : Worker α) (hw : w ≠ .exited) : ∀ j, (s.moveWorker k w).workers j ≠ .exited := by
    apply (Function.forall_update_iff s.workers fun _ w => w ≠ .exited).mpr
    exact ⟨hw, fun j _ => hpresent j⟩
  cases hstep with
  | push | refuse | release => exact ⟨hstop, hpresent⟩
  | enter | acquire | goOn | popEmpty | done => exact ⟨hstop, hmoved _ _ nofun⟩
  | leave _ hstopped => exact absurd (hstopped.symm.trans hstop) nofun
  | @pop k r => exact ⟨hstop, hmoved k _ (by cases r <;> nofun)⟩
  | stop => exact absurd rfl ha

end ThreadPool

namespace Server

variable {κ : Type}

/-- No request is queued, and no worker is in `process()` or about to call it. -/
def Quiet (s : Server κ) : Prop := s.pool.workqueue = [] ∧ ∀ k, (s.pool.workers k).request = none

variable [DecidableEq κ] {lib : JsonLib} {verify : Bytes → Option ℤ} {maxFd maxRequests : ℕ}
  {s s' : Server κ} {agent : Agent κ}

theorem Step.pool_step (hstep : Step lib verify maxFd maxRequests s agent s') :
    s'.pool = s.pool ∨ ∃ act, act ≠ .stop ∧ s.pool.Step maxRequests act s'.pool := by
  cases hstep with
  | append _ hpool | refuse _ hpool | release _ hpool | run hpool | take hpool | done _ hpool =>
    refine Or.inr ⟨_, ?_, hpool⟩
    exact nofun
  | close | workerCloses =>
    rw [closeConn]
    split_ifs <;> exact Or.inl rfl
  | _ => exact Or.inl rfl

/-- Without the event loop, nothing comes into a quiet pool. -/
theorem Quiet.step (hs : s.Quiet) (hagent : agent ≠ .loop)
    (hstep : Step lib verify maxFd maxRequests s agent s') : s'.Quiet := by
  obtain ⟨hqueue, hworkers⟩ := hs
  have hidle {k : κ} {fd : ℕ} (hk : s.pool.workers k = .processing fd) : False := by
    have h := hworkers k
    rw [hk] at h
    cases h
  cases hstep with
  | run hpool =>
    obtain ⟨hqueue', -, hrequest⟩ := hpool.run_frame
    exact ⟨hqueue'.trans hqueue, fun k => (hrequest k).trans (hworkers k)⟩
  | take hpool =>
    have h := hpool.take_spec.1
    rw [hqueue] at h
    cases h
  | done hstage hpool =>
    cases hpool with
    | done hk => exact (hidle hk).elim
  | fault hk | incomplete hk | answer hk | unanswered hk | rearm hk | workerCloses hk =>
    exact (hidle hk).elim
  | elsewhere => exact ⟨hqueue, hworkers⟩
  | _ => exact absurd rfl hagent

theorem Step.loop_eq (hagent : agent ≠ .loop) (hstep : Step lib verify maxFd maxRequests s agent s') :
    s'.loop = s.loop := by
  cases hstep with
  | workerCloses =>
    rw [closeConn]
    split_ifs <;> rfl
  | run | take | fault | incomplete | answer | unanswered | rearm | done | elsewhere => rfl
  | _ => exact absurd rfl hagent

/-- What holds until the pool is stopped. -/
structure Manned [Fintype κ] (s : Server κ) (maxFd : ℕ) : Prop where
  indexed : s.Indexed maxFd
  balanced : s.pool.guarded.Balanced
  stopped : s.pool.stopped = false
  present : ∀ k, s.pool.workers k ≠ .exited
  releasing : s.pool.producers () = .pushed → ∃ events, s.loop = .releasing events

omit [DecidableEq κ] in
theorem Manned.start [Fintype κ] (others : Finset ℕ) : (Server.start others : Server κ).Manned maxFd where
  indexed := .start others maxFd
  balanced := ThreadPool.Permitted.new rfl
  stopped := rfl
  present := nofun
  releasing := nofun

theorem Manned.step [Fintype κ] (hs : s.Manned maxFd)
    (hstep : Step lib verify maxFd maxRequests s agent s') : s'.Manned maxFd := by
  obtain ⟨hindexed, hbalanced, hstopped, hpresent, hreleasing⟩ := hs
  have hkept : s'.pool.guarded.Balanced ∧ s'.pool.stopped = false ∧ ∀ k, s'.pool.workers k ≠ .exited := by
    rcases hstep.pool_step with h | ⟨act, hact, hpool⟩
    · rw [h]
      exact ⟨hbalanced, hstopped, hpresent⟩
    · obtain ⟨hstopped', hpresent'⟩ := hpool.manned hact hstopped hpresent
      have hpermitted : s.pool.Permitted := fun _ => hbalanced
      exact ⟨hpermitted.step hpool hstopped', hstopped', hpresent'⟩
  refine ⟨hindexed.step hstep, hkept.1, hkept.2.1, hkept.2.2, ?_⟩
  have helsewhere (hloop : ∀ events, s.loop ≠ .releasing events) {p : Prop}
      (hpushed : s.pool.producers () = .pushed) : p := by
    obtain ⟨events, h⟩ := hreleasing hpushed
    exact absurd h (hloop events)
  cases hstep with
  | append hloop hpool => exact fun _ => ⟨_, rfl⟩
  | refuse hloop hpool =>
    cases hpool
    exact helsewhere (by simp [hloop])
  | release hloop hpool =>
    cases hpool
    intro h
    have houtside : (s.pool.moveProducer () .outside).producers () = .outside := by
      simp [ThreadPool.moveProducer]
    exact absurd (houtside.symm.trans h) (by simp)
  | run hpool | take hpool | done _ hpool =>
    cases hpool <;> exact hreleasing
  | close hloop =>
    rw [closeConn]
    split_ifs <;> exact helsewhere (by simp [hloop])
  | workerCloses =>
    rw [closeConn]
    split_ifs <;> exact hreleasing
  | wait _ hloop | back hloop | acceptFails hloop | turnAway hloop | accept _ hloop | init hloop
  | hangup hloop | readable hloop | writable hloop | read hloop | readFails hloop | blocked hloop
  | finished hloop | writeEnds hloop | writeFails hloop =>
    exact helsewhere (by simp [hloop])
  | _ => exact hreleasing

end Server

namespace Main

variable {κ : Type}

/-- Once `users` is deleted, no worker is in `process()`. -/
def Orderly (s : Main κ) : Prop :=
  s.stage.usersDeleted = true → ∀ k, (s.server.pool.workers k).request = none

variable [DecidableEq κ] [Fintype κ] {lib : JsonLib} {verify : Bytes → Option ℤ}
  {maxFd maxRequests : ℕ} {s s' : Main κ} {act : MainAct κ}

theorem quiet_step (hstage : s.stage ≠ .looping) (hs : s.server.Quiet)
    (hstep : Step lib verify maxFd maxRequests s act s') : s'.server.Quiet := by
  cases hstep with
  | agent hloop hstep => exact hs.step (fun h => hstage (hloop h)) hstep
  | _ => exact hs

theorem Step.usersDeleted (hstep : Step lib verify maxFd maxRequests s act s')
    (hdeleted : s'.stage.usersDeleted = true) :
    s.stage.usersDeleted = true ∨ act = .deleteUsers ∧ s'.server = s.server := by
  cases hstep with
  | agent => exact Or.inl hdeleted
  | socketFails | socket | leaveLoop | closeEpoll | closeListen => cases hdeleted
  | deleteUsers => exact Or.inr ⟨rfl, rfl⟩
  | stop hstage | release hstage | join hstage =>
    rw [hstage]
    exact Or.inl rfl

/-- In a run in which the pool is quiet when `users` is deleted, it is quiet from then on. -/
theorem quiet_of_runs {others : Finset ℕ}
    (hrun : Runs (Step lib verify maxFd maxRequests) (fun s act => act = .deleteUsers → s.server.Quiet)
      (start others) s) : s.stage.usersDeleted = true → s.server.Quiet := by
  refine Runs.invariant (I := fun s : Main κ => s.stage.usersDeleted = true → s.server.Quiet) hrun ?_ nofun
  intro s act s' hs hquiet hstep hdeleted
  rcases hstep.usersDeleted hdeleted with h | ⟨hact, hserver⟩
  · refine quiet_step ?_ (hs h) hstep
    intro hlooping
    rw [hlooping] at h
    cases h
  · rw [hserver]
    exact hquiet hact

/-- From the end of the event loop on. -/
def Behind (s : Main κ) : Prop := s.stage.ended = true ∨ s.stage.usersDeleted = true

omit [DecidableEq κ] [Fintype κ] in
theorem Behind.ne_looping (hs : s.Behind) : s.stage ≠ .looping := by
  intro h
  rw [Behind, h] at hs
  rcases hs with hs | hs <;> cases hs

theorem Behind.step (hs : s.Behind) (hstep : Step lib verify maxFd maxRequests s act s') : s'.Behind := by
  cases hstep with
  | agent => exact hs
  | socketFails | leaveLoop | closeEpoll | closeListen => exact Or.inl rfl
  | deleteUsers | stop | release | join => exact Or.inr rfl
  | socket hstage =>
    rw [Behind, hstage] at hs
    rcases hs with hs | hs <;> cases hs

theorem quiet_of_reaches (hbehind : s.Behind) (hs : s.server.Quiet)
    (hrun : Reaches (Step lib verify maxFd maxRequests) s s') : s'.server.Quiet := by
  have hkept : s'.Behind ∧ s'.server.Quiet := by
    refine Reaches.invariant (I := fun s : Main κ => s.Behind ∧ s.server.Quiet) hrun ?_ ⟨hbehind, hs⟩
    rintro s act s' ⟨hbehind, hs⟩ hstep
    exact ⟨hbehind.step hstep, quiet_step hbehind.ne_looping hs hstep⟩
  exact hkept.2

structure Sound (s : Main κ) (maxFd : ℕ) : Prop where
  waiting : s.stage ≠ .looping → s.server.loop = .waiting
  manned : s.stage.usersDeleted = false → s.server.Manned maxFd

omit [DecidableEq κ] in
theorem Sound.start (others : Finset ℕ) : (start others : Main κ).Sound maxFd :=
  ⟨fun _ => rfl, fun _ => .start others⟩

theorem Sound.step (hs : s.Sound maxFd) (hstep : Step lib verify maxFd maxRequests s act s') :
    s'.Sound maxFd := by
  obtain ⟨hwaiting, hmanned⟩ := hs
  cases hstep with
  | agent hloop hstep =>
    refine ⟨fun hstage => ?_, fun hdeleted => (hmanned hdeleted).step hstep⟩
    rw [hstep.loop_eq fun h => hstage (hloop h)]
    exact hwaiting hstage
  | leaveLoop hstage hloop => exact ⟨fun _ => hloop, fun _ => hmanned (by rw [hstage]; rfl)⟩
  | socketFails hstage | socket hstage | closeEpoll hstage | closeListen hstage =>
    rw [hstage] at hwaiting hmanned
    exact ⟨fun _ => hwaiting nofun, fun _ => hmanned rfl⟩
  | deleteUsers hstage | stop hstage | release hstage | join hstage =>
    rw [hstage] at hwaiting
    exact ⟨fun _ => hwaiting nofun, nofun⟩

/-- Workers alone can bring one of them into `process()`. -/
def Leads (lib : JsonLib) (verify : Bytes → Option ℤ) (maxFd maxRequests : ℕ) (s : Main κ) : Prop :=
  ∃ s', Reaches (Step lib verify maxFd maxRequests) s s' ∧ s'.stage = s.stage ∧
    ∃ k fd, (s'.server.pool.workers k).request = some fd

/-- A worker steps outside of `process()`. -/
theorem Leads.of_run {k : κ} {pool : ThreadPool ℕ Unit κ}
    (hpool : s.server.pool.Step maxRequests (.run k) pool)
    (h : Leads lib verify maxFd maxRequests (s.setPool pool s.stage)) :
    Leads lib verify maxFd maxRequests s := by
  obtain ⟨s', hrun, hstage, hrequest⟩ := h
  have hstep : Step lib verify maxFd maxRequests s (.agent (.worker k)) (s.setPool pool s.stage) :=
    .agent nofun (.run hpool)
  exact ⟨s', .cons hstep trivial hrun, hstage, hrequest⟩

section Woken

variable {k : κ} {fd : ℕ} {rest : List (Option ℕ)}

theorem leads_of_popping (hk : s.server.pool.workers k = .popping)
    (hqueue : s.server.pool.workqueue = some fd :: rest) : Leads lib verify maxFd maxRequests s := by
  have htake : s.server.pool.Step maxRequests (.take k (some fd)) _ := .pop hk hqueue
  have hstep : Step lib verify maxFd maxRequests s (.agent (.worker k)) _ := .agent nofun (.take htake)
  refine ⟨_, Runs.refl.snoc hstep trivial, rfl, k, fd, ?_⟩
  exact congrArg Worker.request (Function.update_self k (Worker.processing fd) s.server.pool.workers)

theorem leads_of_granted (hk : s.server.pool.workers k = .granted)
    (hstop : s.server.pool.stopped = false) (hqueue : s.server.pool.workqueue = some fd :: rest) :
    Leads lib verify maxFd maxRequests s := by
  apply Leads.of_run (.goOn hk hstop)
  exact leads_of_popping (k := k) (ThreadPool.moveWorker_self ..) hqueue

theorem leads_of_acquiring {n : ℕ} (hk : s.server.pool.workers k = .acquiring)
    (hpermits : s.server.pool.queuestat = n + 1) (hstop : s.server.pool.stopped = false)
    (hqueue : s.server.pool.workqueue = some fd :: rest) : Leads lib verify maxFd maxRequests s := by
  apply Leads.of_run (.acquire hk hpermits)
  exact leads_of_granted (k := k) (ThreadPool.moveWorker_self ..) hstop hqueue

theorem leads_of_entering {n : ℕ} (hk : s.server.pool.workers k = .entering)
    (hpermits : s.server.pool.queuestat = n + 1) (hstop : s.server.pool.stopped = false)
    (hqueue : s.server.pool.workqueue = some fd :: rest) : Leads lib verify maxFd maxRequests s := by
  apply Leads.of_run (.enter hk hstop)
  exact leads_of_acquiring (k := k) (ThreadPool.moveWorker_self ..) hpermits
    hstop hqueue

theorem leads_of_queued [Nonempty κ] (hs : s.server.Manned maxFd)
    (hproducers : ∀ i, s.server.pool.producers i = .outside)
    (hworkers : ∀ k, (s.server.pool.workers k).request = none)
    (hqueue : s.server.pool.workqueue = some fd :: rest) : Leads lib verify maxFd maxRequests s := by
  obtain ⟨-, hbalanced, hstopped, hpresent, -⟩ := hs
  by_cases hgranted : ∃ k, (s.server.pool.workers k).stage = .granted
  · obtain ⟨k, hk⟩ := hgranted
    cases hworker : s.server.pool.workers k with
    | granted => exact leads_of_granted hworker hstopped hqueue
    | popping => exact leads_of_popping hworker hqueue
    | entering | acquiring | processing | exited =>
      rw [hworker] at hk
      cases hk
  · have houtside (k : κ) : (s.server.pool.workers k).stage = .outside := by
      have hk : ¬ (s.server.pool.workers k).stage = .granted := fun h => hgranted ⟨k, h⟩
      cases hworker : s.server.pool.workers k with
      | granted | popping =>
        rw [hworker] at hk
        exact absurd rfl hk
      | entering | acquiring | processing | exited => rfl
    have hne : s.server.pool.workqueue ≠ [] := by
      rw [hqueue]
      exact List.cons_ne_nil _ _
    obtain ⟨n, hpermits⟩ := ThreadPool.exists_permit hbalanced hproducers houtside hne
    obtain ⟨k⟩ := ‹Nonempty κ›
    cases hworker : s.server.pool.workers k with
    | entering => exact leads_of_entering hworker hpermits hstopped hqueue
    | acquiring => exact leads_of_acquiring hworker hpermits hstopped hqueue
    | granted | popping => exact absurd (hworker ▸ houtside k) nofun
    | processing fd => exact absurd (hworker ▸ hworkers k) nofun
    | exited => exact absurd hworker (hpresent k)

end Woken

theorem Sound.leads [Nonempty κ] (hs : s.Sound maxFd) (hended : s.stage.ended = true)
    (hquiet : ¬ s.server.Quiet) : Leads lib verify maxFd maxRequests s := by
  have hdeleted : s.stage.usersDeleted = false := by
    cases hstage : s.stage <;> rw [hstage] at hended <;> first | rfl | cases hended
  have hloop : s.server.loop = .waiting := by
    apply hs.waiting
    intro h
    rw [h] at hended
    cases hended
  have hmanned := hs.manned hdeleted
  have hproducers (i : Unit) : s.server.pool.producers i = .outside := by
    cases hi : s.server.pool.producers i with
    | outside => rfl
    | pushed =>
      obtain ⟨events, h⟩ := hmanned.releasing hi
      exact absurd (hloop.symm.trans h) nofun
  by_cases hworkers : ∀ k, (s.server.pool.workers k).request = none
  · have hqueue : s.server.pool.workqueue ≠ [] := fun h => hquiet ⟨h, hworkers⟩
    obtain ⟨r, rest, hcons⟩ := List.exists_cons_of_ne_nil hqueue
    cases r with
    | none => exact absurd (hcons ▸ List.mem_cons_self) hmanned.indexed.queued
    | some fd => exact leads_of_queued hmanned hproducers hworkers hcons
  · obtain ⟨k, hk⟩ := not_forall.mp hworkers
    obtain ⟨fd, hfd⟩ := Option.ne_none_iff_exists'.mp hk
    exact ⟨s, .refl, rfl, k, fd, hfd⟩

/-- `main` deletes `users` without waiting for anyone. -/
theorem exists_deleted (hended : s.stage.ended = true) :
    ∃ s', Reaches (Step lib verify maxFd maxRequests) s s' ∧ s'.server = s.server ∧
      s'.stage.usersDeleted = true := by
  have hdelete (server : Server κ) : Reaches (Step lib verify maxFd maxRequests)
      ⟨server, .deletingUsers⟩ ⟨server, .stopping⟩ := Runs.refl.snoc (.deleteUsers rfl) trivial
  have hlisten (server : Server κ) : Reaches (Step lib verify maxFd maxRequests)
      ⟨server, .closingListen⟩ ⟨server, .stopping⟩ := .cons (.closeListen rfl) trivial (hdelete server)
  obtain ⟨server, stage⟩ := s
  cases stage with
  | closingEpoll => exact ⟨_, .cons (.closeEpoll rfl) trivial (hlisten server), rfl, rfl⟩
  | closingListen => exact ⟨_, hlisten server, rfl, rfl⟩
  | deletingUsers => exact ⟨_, hdelete server, rfl, rfl⟩
  | _ => cases hended

theorem exists_disorder [Nonempty κ] {others : Finset ℕ}
    (hrun : Reaches (Step lib verify maxFd maxRequests) (start others) s)
    (hended : s.stage.ended = true) (hquiet : ¬ s.server.Quiet) :
    ∃ s', Reaches (Step lib verify maxFd maxRequests) s s' ∧ ¬ s'.Orderly := by
  have hsound : s.Sound maxFd :=
    Reaches.invariant (I := fun s : Main κ => s.Sound maxFd) hrun (fun _ _ _ hs hstep => hs.step hstep)
      (.start others)
  obtain ⟨s₁, hrun₁, hstage, k, fd, hrequest⟩ :
    Leads lib verify maxFd maxRequests s := hsound.leads hended hquiet
  rw [← hstage] at hended
  obtain ⟨s₂, hrun₂, hserver, hdeleted⟩ : ∃ s', Reaches (Step lib verify maxFd maxRequests) s₁ s' ∧
    s'.server = s₁.server ∧ s'.stage.usersDeleted = true := exists_deleted hended
  refine ⟨s₂, hrun₁.trans hrun₂, fun horderly => ?_⟩
  have h := horderly hdeleted k
  rw [hserver, hrequest] at h
  cases h

/-- **Orderly teardown.** In every run in which no request is queued and no worker is in
`process()` when `main` deletes `users`, no worker is in `process()` after that. Behind the
event loop, all that can follow is orderly just where this is the case. -/
theorem teardown_orderly_iff [Nonempty κ] (others : Finset ℕ) (s : Main κ) :
    (Runs (Step lib verify maxFd maxRequests) (fun s act => act = .deleteUsers → s.server.Quiet)
      (start others) s → s.Orderly) ∧
    (Reaches (Step lib verify maxFd maxRequests) (start others) s → s.stage.ended = true →
      ((∀ s', Reaches (Step lib verify maxFd maxRequests) s s' → s'.Orderly) ↔ s.server.Quiet)) := by
  constructor
  · intro hrun hdeleted
    exact (quiet_of_runs hrun hdeleted).2
  · intro hrun hended
    constructor
    · intro horderly
      by_contra hquiet
      obtain ⟨s', hrun', hdisorder⟩ := exists_disorder hrun hended hquiet
      exact hdisorder (horderly s' hrun')
    · intro hquiet s' hrun' _
      exact (quiet_of_reaches (Or.inl hended) hquiet hrun').2

/-- Without a socket there is nothing to wait for. -/
theorem socketless_orderly :
    (⟨.start ∅, .stopping⟩ : Main (Fin 10)).Orderly ∧
      ((∀ s' : Main (Fin 10), Reaches (Step Server.mute (fun _ => none) 65536 10000)
        ⟨.start ∅, .deletingUsers⟩ s' → s'.Orderly) ↔ (Server.start ∅ : Server (Fin 10)).Quiet) := by
  have hfails : Step Server.mute (fun _ => none) 65536 10000 (start ∅ : Main (Fin 10)) .proceed
      ⟨.start ∅, .deletingUsers⟩ := .socketFails rfl
  have hdelete : Step Server.mute (fun _ => none) 65536 10000
      (⟨.start ∅, .deletingUsers⟩ : Main (Fin 10)) .deleteUsers ⟨.start ∅, .stopping⟩ := .deleteUsers rfl
  have hquiet : (Server.start ∅ : Server (Fin 10)).Quiet := ⟨rfl, fun _ => rfl⟩
  exact ⟨(teardown_orderly_iff ∅ _).1 ((Runs.refl.snoc hfails nofun).snoc hdelete fun _ => hquiet),
    (teardown_orderly_iff ∅ _).2 (Runs.refl.snoc hfails trivial) rfl⟩

theorem reaches_looping {server server' : Server κ}
    (hrun : Reaches (Server.Step lib verify maxFd maxRequests) server server') :
    Reaches (Step lib verify maxFd maxRequests) ⟨server, .looping⟩ ⟨server', .looping⟩ := by
  refine Reaches.invariant (I := fun server' : Server κ =>
    Reaches (Step lib verify maxFd maxRequests) ⟨server, .looping⟩ ⟨server', .looping⟩) hrun ?_ .refl
  intro server₁ agent server₂ hrun₁ hstep
  exact hrun₁.snoc (.agent (fun _ => rfl) hstep) trivial

/-- The loop ends with one request queued, and a worker processes it after the deletion. -/
theorem users_deleted_under_worker : ∃ s : Main (Fin 10),
    Reaches (Step Server.mute (fun _ => none) 65536 10000) (start (Finset.range 8)) s ∧ ¬ s.Orderly := by
  obtain ⟨server, hrun, h⟩ : ∃ s : Server (Fin 10),
      Runs (Server.Step Server.mute (fun _ => none) 65536 10000) (Server.Room 10000)
        (Server.start (Finset.range 8)) s ∧ Server.Backlog 8 1 s :=
    Server.exists_backlog (by simp) (by decide) (by decide)
  have hsocket : Step Server.mute (fun _ => none) 65536 10000 (start (Finset.range 8) : Main (Fin 10))
      .proceed ⟨.start (Finset.range 8), .looping⟩ := .socket rfl
  have hlooping : Reaches (Step Server.mute (fun _ => none) 65536 10000)
      (start (Finset.range 8)) ⟨server, .looping⟩ := .cons hsocket trivial (reaches_looping hrun.reaches)
  have hended : Reaches (Step Server.mute (fun _ => none) 65536 10000)
      (start (Finset.range 8)) ⟨server, .closingEpoll⟩ := hlooping.snoc (.leaveLoop rfl h.loop) trivial
  obtain ⟨s, hrun', hdisorder⟩ := exists_disorder hended rfl fun hquiet => by
    have hsize := h.size
    rw [hquiet.1] at hsize
    cases hsize
  exact ⟨s, hended.trans hrun', hdisorder⟩

end Main
end Runtime
end ResourceServer

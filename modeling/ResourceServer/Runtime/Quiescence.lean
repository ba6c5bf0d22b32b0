import ResourceServer.Runtime.Backend

/-!
# The server comes to rest

Between two calls of `epoll_wait` that report something, the event loop and the workers have
a bounded number of steps to go. Where they can go no further, the event loop is at
`epoll_wait`, the queue is empty and every open connection is armed, unless its worker has
faulted or the queue has refused it.
-/

namespace ResourceServer
namespace Runtime

open Http Service

/-- What is left to a worker; one outside of `process()` is in no stage. -/
def Worker.load (stage : ProcessStage) : Worker ℕ → ℕ
  | .popping => 1
  | .granted => 2
  | .acquiring => 3
  | .entering => 4
  | .exited => 0
  | .processing _ =>
    match stage with
    | .faulted => 0
    | .returning => 5
    | .rearming _ | .closing => 6
    | .parsing => 7

def LoopStage.load : LoopStage → ℕ
  | .waiting => 0
  | .dispatching events => 20 * events.length + 1
  | .accepted _ _ events | .closing _ events | .releasing events => 20 * events.length + 2
  | .reading _ events | .writing _ events => 20 * events.length + 18
  | .appending _ events => 20 * events.length + 17

/-- Where the event loop stands in `append`. -/
def LoopStage.producer : LoopStage → Producer
  | .releasing _ => .pushed
  | _ => .outside

namespace Server

variable {κ : Type} [Fintype κ]

/-- What is left to the whole server. -/
def work (s : Server κ) : ℕ :=
  s.loop.load + 10 * s.pool.workqueue.length + ∑ k, (s.pool.workers k).load (s.stages k)

/-- The pool runs, has a permit for every request, and is in step with the event loop. -/
structure Staffed (s : Server κ) : Prop where
  running : s.pool.stopped = false
  balanced : s.pool.guarded.Balanced
  producer : s.pool.producers () = s.loop.producer
  staying : ∀ k, s.pool.workers k ≠ .exited

/-- A step that goes on with what has been reported. -/
def Working (s : Server κ) : Agent κ → Prop
  | .loop => s.loop ≠ .waiting
  | .worker _ => True
  | .elsewhere => False

variable [DecidableEq κ] {lib : JsonLib} {verify : Bytes → Option ℤ} {maxFd maxRequests : ℕ}
  {s s' : Server κ} {agent : Agent κ}

omit [DecidableEq κ] in
theorem Staffed.start (others : Finset ℕ) : (Server.start others : Server κ).Staffed where
  running := rfl
  balanced := ThreadPool.Permitted.new rfl
  producer := rfl
  staying k := by
    change Worker.entering ≠ Worker.exited
    simp

theorem Staffed.pool (h : s.Staffed) {a : ThreadPool.Act ℕ Unit κ} {pool : ThreadPool ℕ Unit κ}
    (hpool : s.pool.Step maxRequests a pool) (ha : a ≠ .stop) :
    pool.stopped = false ∧ pool.guarded.Balanced ∧ ∀ k, pool.workers k ≠ .exited := by
  have hrunning : pool.stopped = false := by
    cases hpool with
    | stop => exact absurd rfl ha
    | _ => exact h.running
  refine ⟨hrunning, ThreadPool.Permitted.step (fun _ => h.balanced) hpool hrunning, ?_⟩
  have hmove (k : κ) {w : Worker ℕ} (hw : w ≠ .exited) :
      ∀ j, (s.pool.moveWorker k w).workers j ≠ .exited := by
    apply (Function.forall_update_iff s.pool.workers fun _ w => w ≠ .exited).mpr
    exact ⟨hw, fun j _ => h.staying j⟩
  cases hpool with
  | push | refuse | release => exact h.staying
  | enter | goOn | popEmpty | done | acquire => exact hmove _ (by simp)
  | @pop k r => exact hmove k (by cases r <;> simp [Worker.afterPop])
  | leave hk hstop => exact absurd (h.running.symm.trans hstop) (by simp)
  | stop => exact absurd rfl ha

omit [DecidableEq κ] in
/-- A step that leaves the pool alone. -/
theorem Staffed.loop (h : s.Staffed) (hpool : s'.pool = s.pool) (hproducer : s'.loop.producer = s.loop.producer) :
    s'.Staffed where
  running := hpool ▸ h.running
  balanced := hpool ▸ h.balanced
  producer := by
    rw [hpool, hproducer]
    exact h.producer
  staying := hpool ▸ h.staying

/-- A step of a worker's `run`. -/
theorem Staffed.worker (h : s.Staffed) {a : ThreadPool.Act ℕ Unit κ} {pool : ThreadPool ℕ Unit κ}
    (hpool : s.pool.Step maxRequests a pool) {k : κ} (ha : a = .run k ∨ a = .done k ∨ ∃ r, a = .take k r)
    (hpool' : s'.pool = pool) (hloop : s'.loop = s.loop) : s'.Staffed := by
  obtain ⟨hrunning, hbalanced, hstaying⟩ := h.pool hpool (by rcases ha with rfl | rfl | ⟨r, rfl⟩ <;> simp)
  refine ⟨hpool' ▸ hrunning, hpool' ▸ hbalanced, ?_, hpool' ▸ hstaying⟩
  rw [hpool', hloop, ← h.producer]
  rcases ha with rfl | rfl | ⟨r, rfl⟩
  all_goals
    cases hpool
    all_goals rfl

theorem Staffed.step (h : s.Staffed) (hstep : Step lib verify maxFd maxRequests s agent s') : s'.Staffed := by
  cases hstep with
  | wait events hloop | back hloop | acceptFails hloop | turnAway hloop | accept _ hloop | init hloop
  | hangup hloop | readable hloop | writable hloop | read hloop | readFails hloop | blocked hloop
  | finished hloop | writeEnds hloop | writeFails hloop =>
    refine h.loop rfl ?_
    rw [hloop]
    rfl
  | @close fd events hloop =>
    refine h.loop (s.closeConn_pool fd).1 ?_
    rw [hloop]
    rfl
  | append hloop hpool =>
    obtain ⟨hrunning, hbalanced, hstaying⟩ := h.pool hpool (by simp)
    refine ⟨hrunning, hbalanced, ?_, hstaying⟩
    cases hpool
    exact Function.update_self () Producer.pushed s.pool.producers
  | refuse hloop hpool =>
    obtain ⟨hrunning, hbalanced, hstaying⟩ := h.pool hpool (by simp)
    refine ⟨hrunning, hbalanced, ?_, hstaying⟩
    cases hpool with
    | refuse _ hi => exact hi
  | release hloop hpool =>
    obtain ⟨hrunning, hbalanced, hstaying⟩ := h.pool hpool (by simp)
    refine ⟨hrunning, hbalanced, ?_, hstaying⟩
    cases hpool
    exact Function.update_self () Producer.outside s.pool.producers
  | @run k pool hpool => exact h.worker hpool (k := k) (Or.inl rfl) rfl rfl
  | @take k r pool hpool => exact h.worker hpool (k := k) (Or.inr (Or.inr ⟨r, rfl⟩)) rfl rfl
  | @done k pool _ hpool => exact h.worker hpool (k := k) (Or.inr (Or.inl rfl)) rfl rfl
  | fault | incomplete | answer | unanswered | rearm | elsewhere => exact h.loop rfl rfl
  | @workerCloses k fd =>
    refine h.loop (s.closeConn_pool fd).1 ?_
    change (s.closeConn fd).loop.producer = s.loop.producer
    unfold closeConn
    split_ifs <;> rfl

theorem staffed_of_reaches {others : Finset ℕ}
    (hrun : Reaches (Step lib verify maxFd maxRequests) (Server.start others) s) : s.Staffed :=
  hrun.invariant (fun _ _ _ h hstep => h.step hstep) (.start others)

omit [DecidableEq κ] in
theorem work_lt_of_loop (hload : s'.loop.load + 10 * s'.pool.workqueue.length <
      s.loop.load + 10 * s.pool.workqueue.length)
    (hworkers : s'.pool.workers = s.pool.workers) (hstages : s'.stages = s.stages) : s'.work < s.work := by
  unfold work
  rw [hworkers, hstages]
  omega

/-- A step of worker `k`. -/
theorem work_lt_of_worker (k : κ) (hloop : s'.loop = s.loop)
    (hothers : ∀ j, j ≠ k → s'.pool.workers j = s.pool.workers j ∧ s'.stages j = s.stages j)
    (hload : (s'.pool.workers k).load (s'.stages k) + 10 * s'.pool.workqueue.length <
      (s.pool.workers k).load (s.stages k) + 10 * s.pool.workqueue.length) : s'.work < s.work := by
  have hsum := sum_of_eq_off (f := fun j => (s.pool.workers j).load (s.stages j))
    (g := fun j => (s'.pool.workers j).load (s'.stages j)) k fun j hj => by
      rw [(hothers j hj).1, (hothers j hj).2]
  unfold work
  rw [hloop]
  omega

/-- A worker's step in `process()`. -/
theorem work_lt_of_stage {k : κ} {fd : ℕ} {stage : ProcessStage} (hk : s.pool.workers k = .processing fd)
    (hpool : s'.pool = s.pool) (hloop : s'.loop = s.loop) (hstages : s'.stages = Function.update s.stages k stage)
    (hload : (Worker.processing fd).load stage < (Worker.processing fd).load (s.stages k)) :
    s'.work < s.work := by
  refine work_lt_of_worker k hloop (fun j hj => ?_) ?_
  · rw [hpool, hstages, Function.update_of_ne hj]
    exact ⟨rfl, rfl⟩
  · rw [hpool, hstages, Function.update_self, hk]
    omega

/-- A worker's step outside of `process()`. -/
theorem work_lt_of_move {k : κ} {w : Worker ℕ} {pool : ThreadPool ℕ Unit κ}
    (hworkers : pool.workers = Function.update s.pool.workers k w)
    (hload : w.load (s.stages k) + 10 * pool.workqueue.length <
      (s.pool.workers k).load (s.stages k) + 10 * s.pool.workqueue.length) :
    work { s with pool := pool } < s.work := by
  refine work_lt_of_worker k rfl (fun j hj => ?_) ?_
  · refine ⟨?_, rfl⟩
    dsimp only
    rw [hworkers, Function.update_of_ne hj]
  · dsimp only
    rw [hworkers, Function.update_self]
    exact hload

theorem Staffed.work_lt (h : s.Staffed) (hworking : s.Working agent)
    (hstep : Step lib verify maxFd maxRequests s agent s') : s'.work < s.work := by
  cases hstep with
  | wait events hloop => exact absurd hloop hworking
  | elsewhere => exact hworking.elim
  | back hloop | acceptFails hloop | turnAway hloop | accept _ hloop | init hloop
  | hangup hloop | readable hloop | writable hloop | read hloop | readFails hloop | blocked hloop
  | finished hloop | writeEnds hloop | writeFails hloop =>
    refine work_lt_of_loop ?_ rfl rfl
    rw [hloop]
    simp only [LoopStage.load, setUser, modfd, List.length_cons, List.length_nil]
    omega
  | @close fd events hloop =>
    obtain ⟨hpool, hstages⟩ := s.closeConn_pool fd
    refine work_lt_of_loop ?_ (congrArg ThreadPool.workers hpool) hstages
    rw [hloop]
    change LoopStage.load (.dispatching events) + 10 * (s.closeConn fd).pool.workqueue.length < _
    rw [hpool]
    simp only [LoopStage.load]
    omega
  | append hloop hpool =>
    obtain ⟨hqueue, -, hworkers⟩ := hpool.append_accepted
    refine work_lt_of_loop ?_ hworkers rfl
    dsimp only
    rw [hloop, hqueue, List.length_append, List.length_singleton]
    simp only [LoopStage.load]
    omega
  | refuse hloop hpool =>
    obtain ⟨-, hqueue, -, hworkers⟩ := hpool.append_refused
    refine work_lt_of_loop ?_ hworkers rfl
    dsimp only
    rw [hloop, hqueue]
    simp only [LoopStage.load]
    omega
  | release hloop hpool =>
    obtain ⟨hqueue, -, hworkers⟩ := hpool.release_frame
    refine work_lt_of_loop ?_ hworkers rfl
    dsimp only
    rw [hloop, hqueue]
    simp only [LoopStage.load]
    omega
  | @run k pool hpool =>
    cases hpool with
    | enter hk | acquire hk | goOn hk =>
      refine work_lt_of_move (k := k) rfl ?_
      rw [hk]
      simp [ThreadPool.moveWorker, Worker.load]
    | leave hk hstop => exact absurd (h.running.symm.trans hstop) (by simp)
    | popEmpty hk hqueue =>
      exact absurd hqueue (ThreadPool.Permitted.workqueue_ne_nil (fun _ => h.balanced) h.running hk)
  | @take k r pool hpool =>
    obtain ⟨hqueue, -, -, hworkers⟩ := hpool.take_spec
    have hk : s.pool.workers k = .popping := by
      cases hpool with
      | pop hk => exact hk
    refine work_lt_of_worker k rfl (fun j hj => ?_) ?_
    · dsimp only
      rw [hworkers, moveStage_stages, Function.update_of_ne hj, Function.update_of_ne hj]
      exact ⟨rfl, rfl⟩
    · dsimp only
      rw [hworkers, moveStage_stages, Function.update_self, Function.update_self, hqueue, hk, List.length_cons]
      cases r <;> simp only [Worker.afterPop, Worker.load] <;> omega
  | @done k pool hstage hpool =>
    cases hpool with
    | done hk =>
      refine work_lt_of_move (k := k) rfl ?_
      rw [hk, hstage]
      simp [ThreadPool.moveWorker, Worker.load]
  | fault hk hstage | incomplete hk hstage | answer hk hstage | unanswered hk hstage | rearm hk hstage =>
    refine work_lt_of_stage hk rfl rfl rfl ?_
    rw [hstage]
    simp [Worker.load]
  | @workerCloses k fd hk hstage =>
    obtain ⟨hpool, hstages⟩ := s.closeConn_pool fd
    have hmoved : ((s.closeConn fd).moveStage k .returning).stages = Function.update s.stages k .returning :=
      congrArg (Function.update · k _) hstages
    refine work_lt_of_stage hk hpool ?_ hmoved ?_
    · change (s.closeConn fd).loop = s.loop
      unfold closeConn
      split_ifs <;> rfl
    · rw [hstage]
      simp [Worker.load]

omit [Fintype κ] [DecidableEq κ] in
theorem exists_outcome (lib : JsonLib) (verify : Bytes → Option ℤ) (v : Verdict) :
    ∃ calls result, Outcome lib verify v calls result := by
  cases v with
  | code code => exact ⟨[], (code, []), .code code⟩
  | handler r =>
    have hanswers : ∀ (op : ServiceCall) (s : Unit), ∃ a s', oracle verify op s a s' := by
      intro op s
      cases op with
      | getUserIdFromToken token => exact ⟨verify token, (), rfl⟩
      | ask q => exact ⟨Json.null, (), trivial⟩
    obtain ⟨calls, _, result, hexec⟩ := Prog.exists_exec (R := oracle verify) hanswers (handle lib r) ()
    exact ⟨calls, caught result, .handler r hexec⟩

/-- Nothing that has been reported is left to do. -/
def Stuck (lib : JsonLib) (verify : Bytes → Option ℤ) (maxFd maxRequests : ℕ) (s : Server κ) : Prop :=
  ∀ agent s', Step lib verify maxFd maxRequests s agent s' → ¬ s.Working agent

omit [Fintype κ] in
theorem Stuck.waiting (hproducer : s.pool.producers () = s.loop.producer)
    (hstuck : Stuck lib verify maxFd maxRequests s) : s.loop = .waiting := by
  by_contra hbusy
  have hnone {s' : Server κ} (hstep : Step lib verify maxFd maxRequests s .loop s') : False :=
    hstuck _ _ hstep hbusy
  cases hloop : s.loop with
  | waiting => exact hbusy hloop
  | dispatching events =>
    match events with
    | [] => exact hnone (.back hloop)
    | .incoming :: _ => exact hnone (.acceptFails hloop)
    | .hangup _ :: _ => exact hnone (.hangup hloop)
    | .readable _ :: _ => exact hnone (.readable hloop)
    | .writable _ :: _ => exact hnone (.writable hloop)
  | accepted fd address events => exact hnone (.init hloop)
  | reading fd events =>
    cases hread : (s.users fd).conn.read ⟨[], .again, .again⟩ with
    | mk c ok =>
      cases ok with
      | true => exact hnone (.read hloop hread)
      | false => exact hnone (.readFails hloop hread)
  | appending fd events =>
    have houtside : s.pool.producers () = .outside := by
      rw [hproducer, hloop]
      rfl
    by_cases hroom : s.pool.workqueue.length < maxRequests
    · exact hnone (.append hloop (.push (some fd) houtside hroom))
    · exact hnone (.refuse hloop (.refuse (some fd) houtside (Nat.not_lt.mp hroom)))
  | releasing events =>
    have hpushed : s.pool.producers () = .pushed := by
      rw [hproducer, hloop]
      rfl
    exact hnone (.release hloop (.release hpushed))
  | writing fd events =>
    rcases hwrite : (s.users fd).conn.write [] with ⟨c, out, e⟩
    cases e with
    | blocked => exact hnone (.blocked hloop hwrite)
    | finished => exact hnone (.finished hloop hwrite)
    | closing => exact hnone (.writeEnds hloop hwrite)
    | failed => exact hnone (.writeFails hloop hwrite)
  | closing fd events => exact hnone (.close hloop)

theorem Stuck.worker (h : s.Staffed) (hstuck : Stuck lib verify maxFd maxRequests s) (k : κ) :
    s.pool.workers k = .acquiring ∧ s.pool.queuestat = 0 ∨
      ∃ fd, s.pool.workers k = .processing fd ∧ s.stages k = .faulted := by
  have hnone {s' : Server κ} (hstep : Step lib verify maxFd maxRequests s (.worker k) s') : False :=
    hstuck _ _ hstep trivial
  cases hk : s.pool.workers k with
  | entering => exact (hnone (.run (.enter hk h.running))).elim
  | granted => exact (hnone (.run (.goOn hk h.running))).elim
  | exited => exact absurd hk (h.staying k)
  | popping =>
    cases hqueue : s.pool.workqueue with
    | nil => exact (hnone (.run (.popEmpty hk hqueue))).elim
    | cons r rest => exact (hnone (.take (.pop hk hqueue))).elim
  | acquiring =>
    refine Or.inl ⟨rfl, Nat.eq_zero_of_not_pos fun hpos => ?_⟩
    obtain ⟨n, hn⟩ := Nat.exists_eq_add_one.mpr hpos
    exact hnone (.run (.acquire hk hn))
  | processing fd =>
    refine Or.inr ⟨fd, rfl, ?_⟩
    cases hstage : s.stages k with
    | faulted => rfl
    | rearming i => exact (hnone (.rearm hk hstage)).elim
    | closing => exact (hnone (.workerCloses hk hstage)).elim
    | returning => exact (hnone (.done hstage (.done hk))).elim
    | parsing =>
      exfalso
      cases hparse : processRead (s.users fd).conn with
      | error f => exact hnone (.fault hk hstage hparse)
      | ok p =>
        obtain ⟨c', v⟩ := p
        by_cases hv : v = .code .noRequest
        · subst hv
          exact hnone (.incomplete hk hstage hparse)
        · obtain ⟨calls, result, houtcome⟩ := exists_outcome lib verify v
          cases hwrite : (Conn.processWrite { c' with jsonRes := result.2 } result.1).2 with
          | true => exact hnone (.answer hk hstage hparse hv houtcome hwrite)
          | false => exact hnone (.unanswered hk hstage hparse hv houtcome hwrite)

/-- All that was reported is done. -/
structure AtRest (lib : JsonLib) (verify : Bytes → Option ℤ) (s : Server κ) : Prop where
  loop : s.loop = .waiting
  workers : ∀ k, s.pool.workers k = .acquiring ∨
    ∃ fd, s.pool.workers k = .processing fd ∧ s.stages k = .faulted
  queue : (∃ k, s.pool.workers k = .acquiring) → s.pool.workqueue = []
  connections : ∀ fd ∈ s.opened,
    (∃ i, s.armed fd = some i ∧ Settled lib verify (s.users fd) ∧ (s.users fd).phase = i.phase) ∨
    some fd ∈ s.pool.workqueue ∨ some fd ∈ s.pool.refused ∨
    ∃ k, s.pool.workers k = .processing fd ∧ s.stages k = .faulted

theorem Stuck.atRest {others : Finset ℕ}
    (hrun : Reaches (Step lib verify maxFd maxRequests) (Server.start others) s)
    (hstuck : Stuck lib verify maxFd maxRequests s) : AtRest lib verify s := by
  have hstaffed := staffed_of_reaches hrun
  have hwaiting := hstuck.waiting hstaffed.producer
  have hworker := hstuck.worker hstaffed
  obtain ⟨hs, -⟩ := accounted_of_reaches hrun
  refine ⟨hwaiting, fun k => (hworker k).imp_left And.left, ?_, fun fd hfd => ?_⟩
  · rintro ⟨k, hk⟩
    have hpermits : s.pool.queuestat = 0 := by
      rcases hworker k with ⟨-, hpermits⟩ | ⟨fd, hprocessing, -⟩
      · exact hpermits
      · cases hk.symm.trans hprocessing
    have houtside (a : Unit ⊕ κ) : s.pool.guarded.stage a = .outside := by
      cases a with
      | inl _ =>
        change (s.pool.producers ()).stage = .outside
        rw [hstaffed.producer, hwaiting]
        rfl
      | inr j =>
        change (s.pool.workers j).stage = .outside
        rcases hworker j with ⟨hj, -⟩ | ⟨fd, hj, -⟩ <;> rw [hj] <;> rfl
    have hnone (stage : Stage) (hne : stage ≠ .outside) : census (· = stage) s.pool.guarded.stage = 0 :=
      census_eq_zero fun a ha => hne (ha.symm.trans (houtside a))
    have hbalanced := hstaffed.balanced
    unfold GuardedQueue.Balanced at hbalanced
    rw [hnone _ (by simp), hnone _ (by simp)] at hbalanced
    exact List.eq_nil_of_length_eq_zero (hbalanced.trans hpermits)
  · by_cases hrefused : some fd ∈ s.pool.refused
    · exact Or.inr (Or.inr (Or.inl hrefused))
    · rcases hs.attended hwaiting hfd hrefused with harmed | hqueued | ⟨k, hk⟩
      · obtain ⟨i, hi⟩ := Option.ne_none_iff_exists'.mp harmed
        obtain ⟨hsettled, hphase⟩ := armed_settled hrun hwaiting hi
        exact Or.inl ⟨i, hi, hsettled, hphase⟩
      · exact Or.inr (Or.inl hqueued)
      · rcases hworker k with ⟨hacquiring, -⟩ | ⟨g, hg, hfaulted⟩
        · cases hacquiring.symm.trans hk
        · exact Or.inr (Or.inr (Or.inr ⟨k, hk, hfaulted⟩))

/-- Some of these steps lead to where none is left. -/
theorem exists_stuck (hs : s.Staffed) : ∃ s', Reaches (Step lib verify maxFd maxRequests) s s' ∧
    Stuck lib verify maxFd maxRequests s' := by
  refine Reaches.exists_of_measure (I := Staffed) work (fun s hs => ?_) hs
  by_cases hstuck : Stuck lib verify maxFd maxRequests s
  · exact Or.inl hstuck
  · simp only [Stuck, not_forall, not_not] at hstuck
    obtain ⟨agent, s', hstep, hworking⟩ := hstuck
    exact Or.inr ⟨agent, s', hstep, hs.step hstep, hs.work_lt hworking hstep⟩

/-- **The server comes to rest.** Behind every reachable state, the steps that nothing new is reported
for are bounded. Where none is left, every request in the queue has been taken while a worker is
there to take it, and every open connection is a session armed for what it waits for, except where
the queue has refused it or its worker has faulted. -/
theorem comes_to_rest {others : Finset ℕ}
    (hrun : Reaches (Step lib verify maxFd maxRequests) (Server.start others) s) :
    (∀ agents s', Path (fun s agent s' => Step lib verify maxFd maxRequests s agent s' ∧ s.Working agent)
      s agents s' → agents.length ≤ s.work) ∧
    (Stuck lib verify maxFd maxRequests s → AtRest lib verify s) := by
  refine ⟨fun agents s' hpath => ?_, Stuck.atRest hrun⟩
  have hle := Path.length_le (C := fun _ => True) (I := Staffed) work hpath
    (fun _ _ _ hs _ hstep => ⟨hs.step hstep.1, hs.work_lt hstep.2 hstep.1⟩) (fun _ _ => trivial)
    (staffed_of_reaches hrun)
  omega

/-- A first request is about to be parsed. -/
theorem parsing_rests : ∃ s s' : Server Unit, s.stages () = .parsing ∧
    (∀ agents t, Path (fun s agent t => Step listing.json (fun _ => none) 4096 10000 s agent t ∧ s.Working agent)
      s agents t → agents.length ≤ s.work) ∧
    Reaches (Step listing.json (fun _ => none) 4096 10000) s s' ∧
    AtRest listing.json (fun _ => none) s' := by
  obtain ⟨s, hrun, hparses⟩ :=
    Backend.exists_parsing listing.json (fun _ => none) Backend.listConn_spec.1
  obtain ⟨s', hrest, hstuck⟩ := exists_stuck (staffed_of_reaches hrun.reaches)
  exact ⟨s, s', hparses.stage, (comes_to_rest hrun.reaches).1, hrest,
    (comes_to_rest (hrun.reaches.trans hrest)).2 hstuck⟩

end Server
end Runtime
end ResourceServer

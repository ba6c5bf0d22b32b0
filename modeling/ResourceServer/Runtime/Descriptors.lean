import ResourceServer.Foundation.Census
import ResourceServer.Http.Peers
import ResourceServer.Runtime.EventLoop

/-!
# Descriptors

A connection is always in exactly one place: armed in epoll, noticed, in the hands of the
event loop, queued, at a worker, or refused by the full queue. Only from the last it never
comes back.
-/

namespace ResourceServer
namespace Runtime

open Http

namespace Server

variable {κ : Type}

/-- The `users` entry that a worker works on. -/
def uses (s : Server κ) (k : κ) : Option ℕ :=
  if s.stages k = .returning then none else (s.pool.workers k).request

/-- How often a descriptor occurs in epoll and at the event loop. One that is armed and
about to be closed counts once. -/
def loopPlaces (armed : ℕ → Option Interest) (loop : LoopStage) (fd : ℕ) : ℕ :=
  (if armed fd ≠ none ∧ loop.doomed ≠ some fd then 1 else 0) +
    (if loop.hand = some fd then 1 else 0) + (loop.events.filterMap Notice.fd?).count fd

variable [Fintype κ]

/-- How often a descriptor occurs in the worker pool. -/
def poolPlaces (s : Server κ) (fd : ℕ) : ℕ :=
  s.pool.workqueue.count (some fd) + census (· = some fd) s.uses + s.pool.refused.count (some fd)

structure Accounted (s : Server κ) : Prop where
  once : ∀ fd, loopPlaces s.armed s.loop fd + s.poolPlaces fd = if fd ∈ s.opened then 1 else 0
  own : ∀ fd ∈ s.opened, (∀ address events, s.loop ≠ .accepted fd address events) → s.sockfd fd = fd

theorem Accounted.start (others : Finset ℕ) : (Server.start others : Server κ).Accounted where
  once fd := by
    have huses : (Server.start others : Server κ).uses = fun _ => none := rfl
    rw [poolPlaces, huses, census_eq_zero fun _ => nofun]
    rfl
  own fd hfd := absurd hfd (Finset.notMem_empty fd)

variable [DecidableEq κ]

theorem LoopStage.hand_of_doomed {loop : LoopStage} {fd : ℕ} (h : loop.doomed = some fd) :
    loop.hand = some fd := by
  cases loop <;> first | exact h | cases h

section LoopPlaces

variable {armed : ℕ → Option Interest} {loop : LoopStage} {fd₀ fd : ℕ}

theorem loopPlaces_dispatching (events : List Notice) : loopPlaces armed (.dispatching events) fd =
    (if armed fd ≠ none then 1 else 0) + (events.filterMap Notice.fd?).count fd := by
  simp [loopPlaces, LoopStage.doomed, LoopStage.hand, LoopStage.events]

theorem loopPlaces_cons (n : Notice) (events : List Notice) :
    loopPlaces armed (.dispatching (n :: events)) fd =
      loopPlaces armed (.dispatching events) fd + if n.fd? = some fd then 1 else 0 := by
  rw [loopPlaces_dispatching, loopPlaces_dispatching, List.filterMap_cons]
  cases n.fd? with
  | none => simp
  | some g =>
    simp only [List.count_cons, beq_iff_eq, Option.some.injEq]
    omega

theorem loopPlaces_hand (loop : LoopStage) (hhand : loop.hand = some fd₀) (harmed : armed fd₀ = none) :
    loopPlaces armed loop fd = loopPlaces armed (.dispatching loop.events) fd +
      if fd₀ = fd then 1 else 0 := by
  rw [loopPlaces_dispatching, loopPlaces, hhand]
  simp only [Option.some.injEq]
  by_cases hfd : fd₀ = fd
  · subst hfd
    simp only [harmed, ne_eq, not_true_eq_false, false_and, if_false, if_true]
    omega
  · have hdoomed : loop.doomed ≠ some fd := by
      intro h
      exact hfd (Option.some.inj (hhand.symm.trans (LoopStage.hand_of_doomed h)))
    simp only [hdoomed, ne_eq, not_false_eq_true, and_true, hfd, if_false]
    omega

/-- Whether a descriptor about to be closed is armed does not count. -/
theorem loopPlaces_doomed (hdoomed : loop.doomed = some fd₀) (x : Option Interest) :
    loopPlaces (Function.update armed fd₀ x) loop fd = loopPlaces armed loop fd := by
  rw [loopPlaces, loopPlaces]
  by_cases hfd : fd = fd₀
  · subst hfd
    simp [hdoomed]
  · rw [Function.update_of_ne hfd]

theorem loopPlaces_arm (harmed : armed fd₀ = none) (hdoomed : loop.doomed ≠ some fd₀) (i : Interest) :
    loopPlaces (Function.update armed fd₀ (some i)) loop fd =
      loopPlaces armed loop fd + if fd₀ = fd then 1 else 0 := by
  rw [loopPlaces, loopPlaces]
  by_cases hfd : fd₀ = fd
  · subst hfd
    simp only [Function.update_self, harmed, hdoomed, ne_eq, reduceCtorEq, not_false_eq_true,
      and_true, if_true, not_true_eq_false, if_false]
    omega
  · rw [Function.update_of_ne (Ne.symm hfd), if_neg hfd, Nat.add_zero]

theorem loopPlaces_arm_dispatching (harmed : armed fd₀ = none) (events : List Notice) (i : Interest) :
    loopPlaces (Function.update armed fd₀ (some i)) (.dispatching events) fd =
      loopPlaces armed (.dispatching events) fd + if fd₀ = fd then 1 else 0 :=
  loopPlaces_arm harmed (by simp [LoopStage.doomed]) i

theorem loopPlaces_deliver {events : List Notice} (hdistinct : (events.filterMap Notice.fd?).Nodup)
    (hdue : ∀ n ∈ events, n.Due armed) (fd : ℕ) :
    loopPlaces (fun fd => if fd ∈ events.filterMap Notice.fd? then none else armed fd)
      (.dispatching events) fd = loopPlaces armed .waiting fd := by
  have hwaiting : loopPlaces armed .waiting fd = if armed fd ≠ none then 1 else 0 := by
    simp [loopPlaces, LoopStage.doomed, LoopStage.hand, LoopStage.events]
  rw [loopPlaces_dispatching, hwaiting]
  by_cases hfd : fd ∈ events.filterMap Notice.fd?
  · obtain ⟨n, hn, hnfd⟩ := List.mem_filterMap.mp hfd
    have harmed : armed fd ≠ none := by
      have := hdue n hn
      cases n <;> cases hnfd <;> simp_all [Notice.Due]
    rw [if_pos hfd, List.count_eq_one_of_mem hdistinct hfd, if_neg (by simp), if_pos harmed]
  · rw [if_neg hfd, List.count_eq_zero_of_not_mem hfd, Nat.add_zero]

end LoopPlaces

omit [Fintype κ] [DecidableEq κ] in
theorem uses_congr {s s' : Server κ} (hstages : s'.stages = s.stages)
    (hrequests : ∀ k, (s'.pool.workers k).request = (s.pool.workers k).request) : s'.uses = s.uses := by
  funext k
  rw [uses, uses, hstages, hrequests]

omit [Fintype κ] [DecidableEq κ] in
theorem processing_of_uses {s : Server κ} {k : κ} {fd : ℕ} (h : s.uses k = some fd) :
    s.pool.workers k = .processing fd := by
  rw [uses] at h
  split_ifs at h
  cases hw : s.pool.workers k <;> rw [hw] at h <;> cases h
  rfl

omit [Fintype κ] in
theorem uses_moveStage (s : Server κ) (k : κ) (stage : ProcessStage) :
    (s.moveStage k stage).uses = Function.update s.uses k
      (if stage = .returning then none else (s.pool.workers k).request) := by
  funext j
  by_cases hj : j = k
  · subst hj
    simp [uses, moveStage]
  · simp [uses, moveStage, hj]

omit [Fintype κ] in
theorem uses_take {s : Server κ} {k : κ} {r : Option ℕ} {pool : ThreadPool ℕ Unit κ}
    (hworkers : pool.workers = Function.update s.pool.workers k (.afterPop r)) :
    uses { s.moveStage k .parsing with pool := pool } = Function.update s.uses k r := by
  funext j
  by_cases hj : j = k
  · subst hj
    simp [uses, hworkers]
  · simp [uses, hworkers, hj]

omit [Fintype κ] in
theorem uses_done {s : Server κ} {k : κ} {pool : ThreadPool ℕ Unit κ} (hstage : s.stages k = .returning)
    (hworkers : pool.workers = Function.update s.pool.workers k .entering) :
    uses { s with pool := pool } = s.uses := by
  funext j
  by_cases hj : j = k
  · subst hj
    simp [uses, hstage]
  · simp [uses, hworkers, hj]

omit [DecidableEq κ] in
theorem poolPlaces_congr {s s' : Server κ} (hqueue : s'.pool.workqueue = s.pool.workqueue)
    (huses : s'.uses = s.uses) (hrefused : s'.pool.refused = s.pool.refused) :
    s'.poolPlaces = s.poolPlaces := by
  funext fd
  rw [poolPlaces, poolPlaces, hqueue, huses, hrefused]

/-- Worker `k` lets go of its descriptor. -/
theorem poolPlaces_return {s : Server κ} {k : κ} {fd : ℕ} (huses : s.uses k = some fd) (g : ℕ) :
    (s.moveStage k .returning).poolPlaces g + (if fd = g then 1 else 0) = s.poolPlaces g := by
  have hcensus := census_update (p := (· = some g)) s.uses k none
  rw [poolPlaces, poolPlaces, uses_moveStage, if_pos rfl]
  rw [huses] at hcensus
  simp only [Option.some.injEq, reduceCtorEq, if_false] at hcensus
  change s.pool.workqueue.count (some g) + _ + s.pool.refused.count (some g) + _ = _
  omega

/-- Worker `k` takes the head of the queue. -/
theorem poolPlaces_take {s s' : Server κ} {k : κ} {r : Option ℕ}
    (hqueue : s.pool.workqueue = r :: s'.pool.workqueue) (hk : s.uses k = none)
    (huses : s'.uses = Function.update s.uses k r) (hrefused : s'.pool.refused = s.pool.refused) :
    s'.poolPlaces = s.poolPlaces := by
  funext fd
  have hcensus := census_update (p := (· = some fd)) s.uses k r
  rw [hk] at hcensus
  simp only [reduceCtorEq, if_false] at hcensus
  rw [poolPlaces, poolPlaces, hqueue, huses, hrefused, List.count_cons]
  simp only [beq_iff_eq]
  omega

section Unique

variable {s : Server κ} (hs : s.Accounted) {fd : ℕ}

include hs

omit [DecidableEq κ] in
theorem Accounted.places_le_one (fd : ℕ) : loopPlaces s.armed s.loop fd + s.poolPlaces fd ≤ 1 := by
  rw [hs.once]
  split_ifs <;> omega

omit [DecidableEq κ] in
theorem Accounted.mem_opened (fd : ℕ) (h : 0 < loopPlaces s.armed s.loop fd + s.poolPlaces fd) :
    fd ∈ s.opened := by
  rw [hs.once] at h
  by_contra hfd
  rw [if_neg hfd] at h
  omega

omit [DecidableEq κ] in
theorem Accounted.disarmed (hfd : fd ∉ s.opened) (hdoomed : s.loop.doomed ≠ some fd) :
    s.armed fd = none := by
  have honce := hs.once fd
  rw [if_neg hfd, loopPlaces] at honce
  by_contra harmed
  rw [if_pos ⟨harmed, hdoomed⟩] at honce
  omega

omit [DecidableEq κ] in
theorem Accounted.hand_only (fd : ℕ) (hhand : s.loop.hand = some fd) :
    fd ∈ s.opened ∧ (s.loop.doomed = none → s.armed fd = none) ∧
      (s.loop.events.filterMap Notice.fd?).count fd = 0 ∧ s.poolPlaces fd = 0 := by
  have hle := hs.places_le_one fd
  have hopened := hs.mem_opened fd
  simp only [loopPlaces, hhand, if_true] at hle hopened
  refine ⟨hopened (by omega), fun hdoomed => ?_, by omega, by omega⟩
  by_contra harmed
  rw [if_pos ⟨harmed, by rw [hdoomed]; nofun⟩] at hle
  omega

omit [DecidableEq κ] in
/-- A noticed descriptor is nowhere else. -/
theorem Accounted.noticed_only {n : Notice} {events : List Notice}
    (hloop : s.loop = .dispatching (n :: events)) (hn : n.fd? = some fd) :
    s.armed fd = none ∧ (events.filterMap Notice.fd?).count fd = 0 ∧ s.poolPlaces fd = 0 := by
  have hle := hs.places_le_one fd
  rw [hloop, loopPlaces_cons, if_pos hn, loopPlaces_dispatching] at hle
  refine ⟨?_, by omega, by omega⟩
  by_contra harmed
  rw [if_pos harmed] at hle
  omega

omit [DecidableEq κ] in
/-- A descriptor at a worker is nowhere else. -/
theorem Accounted.uses_only {k : κ} (huses : s.uses k = some fd) :
    fd ∈ s.opened ∧ s.armed fd = none ∧ s.loop.hand ≠ some fd ∧
      (s.loop.events.filterMap Notice.fd?).count fd = 0 ∧ s.pool.workqueue.count (some fd) = 0 ∧
      ∀ j, s.uses j = some fd → j = k := by
  have hle := hs.places_le_one fd
  have hopened := hs.mem_opened fd
  have hcensus : 0 < census (· = some fd) s.uses := census_pos_iff.mpr ⟨k, huses⟩
  simp only [loopPlaces, poolPlaces] at hle hopened
  have hhand : s.loop.hand ≠ some fd := by
    intro hhand
    rw [if_pos hhand] at hle
    omega
  refine ⟨hopened (by omega), ?_, hhand, by omega, by omega, fun j hj => ?_⟩
  · by_contra harmed
    rw [if_pos ⟨harmed, fun h => hhand (LoopStage.hand_of_doomed h)⟩] at hle
    omega
  · exact eq_of_census_le_one (p := (· = some fd)) (by omega) hj huses

end Unique

section Moves

variable {s : Server κ} (hs : s.Accounted)

include hs

omit [DecidableEq κ] in
theorem Accounted.move {s' : Server κ} (hopened : s'.opened = s.opened) (hsock : s'.sockfd = s.sockfd)
    (haccepted : ∀ fd address events, s.loop = .accepted fd address events → s'.loop = s.loop)
    (hplaces : ∀ fd, loopPlaces s'.armed s'.loop fd + s'.poolPlaces fd =
      loopPlaces s.armed s.loop fd + s.poolPlaces fd) : s'.Accounted where
  once fd := by rw [hplaces, hopened, hs.once]
  own fd hfd hloop := by
    rw [hsock]
    rw [hopened] at hfd
    exact hs.own fd hfd fun address events h => hloop address events ((haccepted _ _ _ h).trans h)

omit [DecidableEq κ] in
theorem Accounted.setUser {fd : ℕ} {x : Session} (hx : x.conn.toPeer = (s.users fd).conn.toPeer) :
    (s.setUser fd x).Accounted := by
  refine hs.move rfl ?_ (fun _ _ _ _ => rfl) fun _ => rfl
  funext g
  rw [sockfd, sockfd, setUser_users]
  by_cases hg : g = fd
  · subst hg
    rw [Function.update_self, hx]
  · rw [Function.update_of_ne hg]

variable {fd : ℕ} {events : List Notice}

omit [DecidableEq κ] in
theorem Accounted.hold {loop : LoopStage}
    (hloop : s.loop = .reading fd events ∨ s.loop = .writing fd events)
    (hhand : loop.hand = some fd) (hevents : loop.events = events) :
    Accounted { s with loop := loop } := by
  have hbefore : s.loop.hand = some fd := by rcases hloop with h | h <;> rw [h] <;> rfl
  have hdoomed : s.loop.doomed = none := by rcases hloop with h | h <;> rw [h] <;> rfl
  have hsame : s.loop.events = events := by rcases hloop with h | h <;> rw [h] <;> rfl
  obtain ⟨-, harmed, -⟩ := hs.hand_only fd hbefore
  refine hs.move rfl rfl (fun _ _ _ h => ?_) fun g => ?_
  · rcases hloop with h' | h' <;> cases h.symm.trans h'
  · change loopPlaces s.armed loop g + s.poolPlaces g = _
    rw [loopPlaces_hand loop hhand (harmed hdoomed), loopPlaces_hand s.loop hbefore (harmed hdoomed),
      hevents, hsame]

omit [DecidableEq κ] in
/-- The event loop arms the descriptor in its hands and goes on to the next. -/
theorem Accounted.rearm (hloop : s.loop = .writing fd events) (i : Interest) :
    Accounted { s.modfd fd i with loop := .dispatching events } := by
  obtain ⟨hfd, harmed, -⟩ := hs.hand_only fd (by rw [hloop]; rfl)
  have harmed := harmed (by rw [hloop]; rfl)
  have hown := hs.own fd hfd (by rw [hloop]; nofun)
  refine hs.move rfl rfl (by rw [hloop]; nofun) fun g => ?_
  change loopPlaces (Function.update s.armed (s.sockfd fd).toNat (some i)) (.dispatching events) g +
    s.poolPlaces g = _
  rw [hown, Int.toNat_natCast, loopPlaces_arm_dispatching harmed, hloop,
    loopPlaces_hand (.writing fd events) rfl harmed]
  rfl

omit [DecidableEq κ] in
/-- Arming a descriptor that is closed next does not matter. -/
theorem Accounted.arm_doomed (hloop : s.loop = .closing fd events) (i : Interest) :
    (s.modfd fd i).Accounted := by
  obtain ⟨hfd, -⟩ := hs.hand_only fd (by rw [hloop]; rfl)
  have hown := hs.own fd hfd (by rw [hloop]; nofun)
  refine hs.move rfl rfl (fun _ _ _ _ => rfl) fun g => ?_
  change loopPlaces (Function.update s.armed (s.sockfd fd).toNat (some i)) s.loop g + s.poolPlaces g = _
  rw [hown, Int.toNat_natCast, loopPlaces_doomed (by rw [hloop]; rfl)]

omit [DecidableEq κ] in
theorem Accounted.openFd (hloop : s.loop = .dispatching (.incoming :: events)) (hfd : fd ∉ s.opened)
    (address : Bytes) :
    Accounted { s with opened := insert fd s.opened, loop := .accepted fd address events } := by
  have harmed : s.armed fd = none := hs.disarmed hfd (by rw [hloop]; nofun)
  refine ⟨fun g => ?_, fun g hg hloop' => ?_⟩
  · have h := hs.once g
    rw [hloop, loopPlaces_cons] at h
    change loopPlaces s.armed (.accepted fd address events) g + s.poolPlaces g =
      if g ∈ insert fd s.opened then 1 else 0
    rw [loopPlaces_hand (.accepted fd address events) rfl harmed]
    by_cases hgfd : fd = g
    · subst hgfd
      rw [if_neg hfd] at h
      rw [if_pos rfl, if_pos (Finset.mem_insert_self fd s.opened)]
      simp only [LoopStage.events]
      omega
    · have hmem : g ∈ insert fd s.opened ↔ g ∈ s.opened := by
        rw [Finset.mem_insert, or_iff_right (Ne.symm hgfd)]
      simp only [hmem, hgfd, if_false]
      exact h
  · have hne : g ≠ fd := by
      rintro rfl
      exact hloop' address events rfl
    exact hs.own g (Finset.mem_of_mem_insert_of_ne hg hne) (by rw [hloop]; nofun)

omit [DecidableEq κ] in
theorem Accounted.init {address : Bytes} (hloop : s.loop = .accepted fd address events) :
    Accounted { s.setUser fd (.accepted ⟨fd, address⟩) with
      armed := Function.update s.armed fd (some .input)
      userCount := s.userCount + 1
      loop := .dispatching events } := by
  obtain ⟨-, harmed, -⟩ := hs.hand_only fd (by rw [hloop]; rfl)
  have harmed := harmed (by rw [hloop]; rfl)
  refine ⟨fun g => ?_, fun g hg _ => ?_⟩
  · have h := hs.once g
    rw [hloop, loopPlaces_hand (.accepted fd address events) rfl harmed] at h
    exact (congrArg (· + s.poolPlaces g) (loopPlaces_arm_dispatching harmed events .input)).trans h
  · change ((Function.update s.users fd (.accepted ⟨fd, address⟩)) g).conn.sockfd = g
    by_cases hgfd : g = fd
    · subst hgfd
      rw [Function.update_self]
      rfl
    · rw [Function.update_of_ne hgfd]
      exact hs.own g hg fun _ _ h => hgfd (LoopStage.accepted.inj (h.symm.trans hloop)).1

omit [DecidableEq κ] in
theorem Accounted.close (hloop : s.loop = .closing fd events) :
    Accounted { s.closeConn fd with loop := .dispatching events } := by
  obtain ⟨hfd, -⟩ := hs.hand_only fd (by rw [hloop]; rfl)
  have hown := hs.own fd hfd (by rw [hloop]; nofun)
  rw [closeConn, if_pos (by omega), hown, Int.toNat_natCast]
  refine ⟨fun g => ?_, fun g hg _ => ?_⟩
  · have h := hs.once g
    rw [hloop, ← loopPlaces_doomed rfl none,
      loopPlaces_hand (.closing fd events) rfl (Function.update_self ..)] at h
    change loopPlaces (Function.update s.armed fd none) (.dispatching events) g + _ + _ = _ at h
    change loopPlaces (Function.update s.armed fd none) (.dispatching events) g + s.poolPlaces g =
      if g ∈ s.opened.erase fd then 1 else 0
    by_cases hgfd : fd = g
    · subst hgfd
      rw [if_pos hfd, if_pos rfl] at h
      rw [if_neg (Finset.notMem_erase fd s.opened)]
      omega
    · simp only [Finset.mem_erase, ne_eq, Ne.symm hgfd, not_false_eq_true, true_and]
      simpa [hgfd] using h
  · obtain ⟨hgfd, hg⟩ := Finset.mem_erase.mp hg
    change ((Function.update s.users fd (s.users fd).close) g).conn.sockfd = g
    rw [Function.update_of_ne hgfd]
    exact hs.own g hg (by rw [hloop]; nofun)

omit [DecidableEq κ] in
theorem Accounted.setPool {s' : Server κ} (hopened : s'.opened = s.opened) (husers : s'.users = s.users)
    (harmed : s'.armed = s.armed) (hloop : s'.loop = s.loop) (hplaces : s'.poolPlaces = s.poolPlaces) :
    s'.Accounted := by
  have hsock : s'.sockfd = s.sockfd := by
    funext g
    rw [sockfd, sockfd, husers]
  exact hs.move hopened hsock (fun _ _ _ _ => hloop) fun g => by rw [harmed, hloop, hplaces]

omit [DecidableEq κ] in
theorem Accounted.handOver {pool : ThreadPool ℕ Unit κ} {loop : LoopStage}
    (hloop : s.loop = .appending fd events)
    (hloop' : loopPlaces s.armed loop = loopPlaces s.armed (.dispatching events))
    (hpool : ∀ g, pool.workqueue.count (some g) + pool.refused.count (some g) =
      s.pool.workqueue.count (some g) + s.pool.refused.count (some g) + [some fd].count (some g))
    (hworkers : pool.workers = s.pool.workers) : { s with pool := pool, loop := loop }.Accounted := by
  obtain ⟨-, harmed, -⟩ := hs.hand_only fd (by rw [hloop]; rfl)
  have harmed := harmed (by rw [hloop]; rfl)
  have huses : uses { s with pool := pool, loop := loop } = s.uses :=
    uses_congr rfl fun k => congrArg Worker.request (congrFun hworkers k)
  refine hs.move rfl rfl (by rw [hloop]; nofun) fun g => ?_
  have hplaces := hpool g
  rw [List.count_singleton] at hplaces
  simp only [beq_iff_eq, Option.some.injEq] at hplaces
  rw [hloop', hloop, loopPlaces_hand (.appending fd events) rfl harmed, poolPlaces, poolPlaces, huses]
  change loopPlaces s.armed (.dispatching events) g + _ = loopPlaces s.armed (.dispatching events) g + _ + _
  dsimp only
  omega

theorem Accounted.moveStage {k : κ} {stage : ProcessStage} (hk : s.stages k ≠ .returning)
    (hstage : stage ≠ .returning) : (s.moveStage k stage).Accounted := by
  have huses : (s.moveStage k stage).uses = s.uses := by
    have hsame : s.uses k = (s.pool.workers k).request := by rw [uses, if_neg hk]
    rw [uses_moveStage, if_neg hstage, ← hsame, Function.update_eq_self]
  exact hs.setPool rfl rfl rfl rfl (poolPlaces_congr rfl huses rfl)

theorem Accounted.workerRearms {k : κ} (huses : s.uses k = some fd) (i : Interest) :
    ((s.modfd fd i).moveStage k .returning).Accounted := by
  obtain ⟨hfd, harmed, hhand, -⟩ := hs.uses_only huses
  have hown := hs.own fd hfd fun _ _ h => hhand (by rw [h]; rfl)
  have hdoomed : s.loop.doomed ≠ some fd := fun h => hhand (LoopStage.hand_of_doomed h)
  refine hs.move rfl rfl (fun _ _ _ _ => rfl) fun g => ?_
  have hpool := poolPlaces_return huses g
  change loopPlaces (Function.update s.armed (s.sockfd fd).toNat (some i)) s.loop g +
    (s.moveStage k .returning).poolPlaces g = _
  rw [hown, Int.toNat_natCast, loopPlaces_arm harmed hdoomed]
  omega

theorem Accounted.workerCloses {k : κ} (huses : s.uses k = some fd) :
    ((s.closeConn fd).moveStage k .returning).Accounted := by
  obtain ⟨hfd, harmed, hhand, -⟩ := hs.uses_only huses
  have hown := hs.own fd hfd fun _ _ h => hhand (by rw [h]; rfl)
  have hstill : Function.update s.armed fd none = s.armed := by rw [← harmed, Function.update_eq_self]
  rw [closeConn, if_pos (by omega), hown, Int.toNat_natCast, hstill]
  refine ⟨fun g => ?_, fun g hg hloop => ?_⟩
  · have h := hs.once g
    have hpool := poolPlaces_return huses g
    change loopPlaces s.armed s.loop g + (s.moveStage k .returning).poolPlaces g =
      if g ∈ s.opened.erase fd then 1 else 0
    by_cases hgfd : fd = g
    · subst hgfd
      rw [if_pos hfd] at h
      rw [if_pos rfl] at hpool
      rw [if_neg (Finset.notMem_erase fd s.opened)]
      omega
    · rw [if_neg hgfd, Nat.add_zero] at hpool
      simp only [Finset.mem_erase, ne_eq, Ne.symm hgfd, not_false_eq_true, true_and]
      rw [hpool, h]
  · obtain ⟨hgfd, hg⟩ := Finset.mem_erase.mp hg
    change ((Function.update s.users fd (s.users fd).close) g).conn.sockfd = g
    rw [Function.update_of_ne hgfd]
    exact hs.own g hg hloop

end Moves

variable {lib : JsonLib} {verify : Bytes → Option ℤ} {maxFd maxRequests : ℕ}

theorem Accounted.step {s s' : Server κ} {agent : Agent κ} (hs : s.Accounted)
    (hstep : Step lib verify maxFd maxRequests s agent s') : s'.Accounted := by
  cases hstep with
  | back hloop | acceptFails hloop | turnAway hloop =>
    refine hs.move rfl rfl (by rw [hloop]; nofun) fun g => ?_
    rw [hloop]
    rfl
  | wait events hloop hlength hdistinct hdue =>
    refine hs.move rfl rfl (by rw [hloop]; nofun) fun g => ?_
    rw [hloop]
    exact congrArg (· + s.poolPlaces g) (loopPlaces_deliver hdistinct hdue g)
  | accept address hloop hfresh hroom => exact hs.openFd hloop hfresh.1 address
  | init hloop => exact hs.init hloop
  | @hangup fd events hloop | @readable fd events hloop | @writable fd events hloop =>
    obtain ⟨harmed, -, -⟩ := hs.noticed_only hloop rfl
    refine hs.move rfl rfl (by rw [hloop]; nofun) fun g => ?_
    rw [hloop, loopPlaces_cons, loopPlaces_hand _ rfl harmed]
    simp only [Notice.fd?, Option.some.injEq]
    rfl
  | @read fd events a c hloop hread | @readFails fd events a c hloop hread =>
    have hpeer := Conn.read_toPeer (s.users fd).conn a
    rw [hread] at hpeer
    exact (hs.setUser (x := (s.users fd).afterRead c) hpeer).hold (Or.inl hloop) rfl rfl
  | @append fd events pool hloop hpool =>
    obtain ⟨hqueue, hrefused, hworkers⟩ := hpool.append_accepted
    refine hs.handOver hloop (by rfl) (fun g => ?_) hworkers
    rw [hqueue, hrefused, List.count_append]
    omega
  | @refuse fd events pool hloop hpool =>
    obtain ⟨-, hqueue, hrefused, hworkers⟩ := hpool.append_refused
    refine hs.handOver hloop (by rfl) (fun g => ?_) hworkers
    rw [hqueue, hrefused, List.count_append]
    omega
  | @release events pool hloop hpool =>
    obtain ⟨hqueue, hrefused, hworkers⟩ := hpool.release_frame
    have huses : uses { s with pool := pool, loop := .dispatching events } = s.uses :=
      uses_congr rfl fun k => congrArg Worker.request (congrFun hworkers k)
    refine hs.move rfl rfl (by rw [hloop]; nofun) fun g => ?_
    rw [hloop, poolPlaces, poolPlaces, huses, hqueue, hrefused]
    rfl
  | @blocked fd events results c out hloop hwrite | @finished fd events results c out hloop hwrite =>
    have hpeer := Conn.write_toPeer (s.users fd).conn results
    rw [hwrite] at hpeer
    exact (hs.setUser hpeer).rearm hloop _
  | @writeEnds fd events results c out hloop hwrite =>
    have hpeer := Conn.write_toPeer (s.users fd).conn results
    rw [hwrite] at hpeer
    exact ((hs.setUser hpeer).hold (Or.inr hloop) rfl rfl).arm_doomed rfl .input
  | @writeFails fd events results c out hloop hwrite =>
    have hpeer := Conn.write_toPeer (s.users fd).conn results
    rw [hwrite] at hpeer
    exact (hs.setUser hpeer).hold (Or.inr hloop) rfl rfl
  | close hloop => exact hs.close hloop
  | run hpool =>
    obtain ⟨hqueue, hrefused, hrequests⟩ := hpool.run_frame
    exact hs.setPool rfl rfl rfl rfl (poolPlaces_congr hqueue (uses_congr rfl hrequests) hrefused)
  | @take k r pool hpool =>
    obtain ⟨hqueue, hrefused, hk, hworkers⟩ := hpool.take_spec
    have huses : uses { s.moveStage k .parsing with pool := pool } = Function.update s.uses k r :=
      uses_take hworkers
    have hidle : s.uses k = none := by
      rw [uses, hk]
      split_ifs <;> rfl
    exact hs.setPool rfl rfl rfl rfl (poolPlaces_take hqueue hidle huses hrefused)
  | fault hk hstage hparse => exact hs.moveStage (by rw [hstage]; nofun) nofun
  | incomplete hk hstage hparse =>
    exact (hs.setUser (Conn.processRead_toPeer hparse)).moveStage
      (fun h => absurd (hstage.symm.trans h) nofun) nofun
  | @answer k fd c' v calls result hk hstage hparse hverdict houtcome hwrite =>
    have hpeer : ((s.users fd).reply c' v calls result.1 result.2).conn.toPeer =
        (s.users fd).conn.toPeer := by
      have hparsed := Conn.processRead_toPeer hparse
      rw [Session.reply, if_pos hwrite]
      exact (Conn.processWrite_toPeer _ _).trans hparsed
    exact (hs.setUser hpeer).moveStage (fun h => absurd (hstage.symm.trans h) nofun) nofun
  | @unanswered k fd c' v calls result hk hstage hparse hverdict houtcome hwrite =>
    have hparsed := Conn.processRead_toPeer hparse
    have hpeer := (Conn.processWrite_toPeer { c' with jsonRes := result.2 } result.1).trans hparsed
    exact (hs.setUser hpeer).moveStage (fun h => absurd (hstage.symm.trans h) nofun) nofun
  | rearm hk hstage => exact hs.workerRearms (by rw [uses, hstage, hk]; rfl) _
  | workerCloses hk hstage => exact hs.workerCloses (by rw [uses, hstage, hk]; rfl)
  | @done k pool hstage hpool =>
    obtain ⟨hqueue, hrefused, hworkers⟩ := hpool.done_spec
    have huses : uses { s with pool := pool } = s.uses := uses_done hstage hworkers
    exact hs.setPool rfl rfl rfl rfl (poolPlaces_congr hqueue huses hrefused)
  | elsewhere others hothers => exact hs.setPool rfl rfl rfl rfl rfl

/-- The descriptors in use are indices of `users`, and the queue holds pointers into it. -/
structure Indexed (s : Server κ) (maxFd : ℕ) : Prop where
  opened : ∀ fd ∈ s.opened, fd < maxFd
  queued : none ∉ s.pool.workqueue

omit [Fintype κ] [DecidableEq κ] in
theorem Indexed.start (others : Finset ℕ) (maxFd : ℕ) : (Server.start others : Server κ).Indexed maxFd :=
  ⟨by simp [Server.start], by simp [Server.start, ThreadPool.new]⟩

omit [Fintype κ] [DecidableEq κ] in
theorem Indexed.closeConn {s : Server κ} (hs : s.Indexed maxFd) (fd : ℕ) :
    (s.closeConn fd).Indexed maxFd := by
  rw [Server.closeConn]
  split_ifs
  · exact ⟨fun g hg => hs.opened g (Finset.mem_of_mem_erase hg), hs.queued⟩
  · exact hs

omit [Fintype κ] in
theorem Indexed.step {s s' : Server κ} {agent : Agent κ} (hs : s.Indexed maxFd)
    (hstep : Step lib verify maxFd maxRequests s agent s') : s'.Indexed maxFd := by
  obtain ⟨hopened, hqueued⟩ := hs
  cases hstep with
  | accept address hloop hfresh hroom =>
    refine ⟨fun g hg => ?_, hqueued⟩
    rcases Finset.mem_insert.mp hg with rfl | hg
    · omega
    · exact hopened g hg
  | append hloop hpool =>
    refine ⟨hopened, ?_⟩
    rw [hpool.append_accepted.1]
    simpa using hqueued
  | refuse hloop hpool => exact ⟨hopened, hpool.append_refused.2.1 ▸ hqueued⟩
  | release hloop hpool => exact ⟨hopened, hpool.release_frame.1 ▸ hqueued⟩
  | run hpool => exact ⟨hopened, hpool.run_frame.1 ▸ hqueued⟩
  | done hstage hpool => exact ⟨hopened, hpool.done_spec.1 ▸ hqueued⟩
  | take hpool =>
    refine ⟨hopened, fun h => hqueued ?_⟩
    rw [hpool.take_spec.1]
    exact List.mem_cons_of_mem _ h
  | @close fd _ _ | @workerCloses _ fd _ _ =>
    obtain ⟨hopened', hqueued'⟩ := (Indexed.mk hopened hqueued).closeConn fd
    exact ⟨hopened', hqueued'⟩
  | _ => exact ⟨hopened, hqueued⟩

/-- Armed, queued or being processed. -/
def Attended (s : Server κ) (fd : ℕ) : Prop :=
  s.armed fd ≠ none ∨ some fd ∈ s.pool.workqueue ∨ ∃ k, s.pool.workers k = .processing fd

def Room (maxRequests : ℕ) (s : Server κ) (agent : Agent κ) : Prop :=
  agent = .loop → ∀ fd events, s.loop = .appending fd events → s.pool.workqueue.length < maxRequests

omit [DecidableEq κ] in
/-- At `epoll_wait` a connection is attended to unless the queue has refused it. -/
theorem Accounted.attended {s : Server κ} (hs : s.Accounted) (hwaiting : s.loop = .waiting) {fd : ℕ}
    (hfd : fd ∈ s.opened) (hrefused : some fd ∉ s.pool.refused) : s.Attended fd := by
  have honce := hs.once fd
  rw [if_pos hfd, hwaiting, loopPlaces, poolPlaces, List.count_eq_zero_of_not_mem hrefused] at honce
  by_cases harmed : s.armed fd = none
  · by_cases hqueued : some fd ∈ s.pool.workqueue
    · exact Or.inr (Or.inl hqueued)
    · rw [List.count_eq_zero_of_not_mem hqueued] at honce
      simp only [harmed, ne_eq, not_true_eq_false, false_and, if_false, LoopStage.hand,
        LoopStage.events, List.filterMap_nil, List.count_nil, reduceCtorEq] at honce
      obtain ⟨k, hk⟩ := census_pos_iff.mp (by omega : 0 < census (· = some fd) s.uses)
      exact Or.inr (Or.inr ⟨k, processing_of_uses hk⟩)
  · exact Or.inl harmed

theorem accounted_of_reaches {others : Finset ℕ} {s : Server κ}
    (hrun : Reaches (Step lib verify maxFd maxRequests) (Server.start others) s) :
    s.Accounted ∧ s.Indexed maxFd := by
  refine Reaches.invariant (I := fun s : Server κ => s.Accounted ∧ s.Indexed maxFd) hrun ?_
    ⟨.start others, .start others maxFd⟩
  rintro s agent s' ⟨hs, hindexed⟩ hstep
  exact ⟨hs.step hstep, hindexed.step hstep⟩

/-- As many connections as the queue has places always find room. -/
theorem room_of_le (hle : maxFd ≤ maxRequests) (others : Finset ℕ) (s : Server κ)
    (hrun : Reaches (Step lib verify maxFd maxRequests) (Server.start others) s) (agent : Agent κ) :
    s.Room maxRequests agent := by
  intro _ fd events hloop
  obtain ⟨hs, hindexed⟩ := accounted_of_reaches hrun
  obtain ⟨hfd, -, -, hpool⟩ := hs.hand_only fd (by rw [hloop]; rfl)
  -- the queue holds distinct descriptors other than the one in hand
  have hnodup : s.pool.workqueue.Nodup := by
    refine List.nodup_iff_count_le_one.mpr fun r => ?_
    cases r with
    | none => rw [List.count_eq_zero_of_not_mem hindexed.queued]; exact Nat.zero_le 1
    | some g =>
      have hle := hs.places_le_one g
      rw [poolPlaces] at hle
      omega
  have hsub : s.pool.workqueue.toFinset ⊆ ((Finset.range maxFd).erase fd).image some := by
    intro r hr
    have hr := List.mem_toFinset.mp hr
    cases r with
    | none => exact absurd hr hindexed.queued
    | some g =>
      have hcount := List.count_pos_iff.mpr hr
      have hne : g ≠ fd := by
        rintro rfl
        rw [poolPlaces] at hpool
        omega
      have hopened : g ∈ s.opened := hs.mem_opened g (by rw [poolPlaces]; omega)
      exact Finset.mem_image_of_mem some (Finset.mem_erase.mpr
        ⟨hne, Finset.mem_range.mpr (hindexed.opened g hopened)⟩)
  have hcard := (Finset.card_le_card hsub).trans Finset.card_image_le
  rw [List.toFinset_card_of_nodup hnodup, Finset.card_erase_of_mem
    (Finset.mem_range.mpr (hindexed.opened fd hfd)), Finset.card_range] at hcard
  have hpos := hindexed.opened fd hfd
  omega

/-- `n` connections are queued, on descriptors counted from `first`, and no worker has come. -/
structure Backlog (first n : ℕ) (s : Server κ) : Prop where
  loop : s.loop = .waiting
  opened : ∀ fd ∈ s.opened, fd < first + n
  others : ∀ fd ∈ s.others, fd < first
  armed : ∀ fd, s.armed fd = none
  size : s.pool.workqueue.length = n
  queued : ∀ fd, some fd ∈ s.pool.workqueue → fd < first + n
  producer : s.pool.producers () = .outside
  workers : ∀ k, s.pool.workers k = .entering
  count : s.userCount = n

omit [Fintype κ] [DecidableEq κ] in
theorem Backlog.start {first : ℕ} {others : Finset ℕ} (hothers : ∀ fd ∈ others, fd < first) :
    Backlog first 0 (Server.start others : Server κ) :=
  ⟨rfl, by simp [Server.start], hothers, fun _ => rfl, rfl, nofun, rfl, fun _ => rfl, rfl⟩

/-- The next connection has been accepted. -/
structure Backlog.Admitted (first n : ℕ) (s s' : Server κ) : Prop where
  loop : s'.loop = .waiting
  user : s'.users (first + n) = .accepted ⟨(first + n : ℕ), []⟩
  opened : s'.opened = insert (first + n) s.opened
  others : s'.others = s.others
  armed : s'.armed = Function.update s.armed (first + n) (some .input)
  pool : s'.pool = s.pool
  count : s'.userCount = s.userCount + 1

/-- The next connection has sent a byte and is about to be queued. -/
structure Backlog.Next (first n : ℕ) (s s' : Server κ) : Prop where
  loop : s'.loop = .appending (first + n) []
  opened : s'.opened = insert (first + n) s.opened
  others : s'.others = s.others
  armed : ∀ fd, s'.armed fd = none
  pool : s'.pool = s.pool
  count : s'.userCount = s.userCount + 1

omit [Fintype κ] [DecidableEq κ] in
theorem room_of_loop {s : Server κ} {agent : Agent κ}
    (hloop : ∀ fd events, s.loop ≠ .appending fd events) : s.Room maxRequests agent :=
  fun _ fd events h => absurd h (hloop fd events)

section Overload

variable {first n : ℕ} {s₀ s : Server κ} (h : Backlog first n s)
  (hrun : Runs (Step lib verify maxFd maxRequests) (Room maxRequests) s₀ s)

include h hrun

omit [Fintype κ] in
theorem Backlog.accept (hfd : first + n < maxFd) :
    ∃ s', Runs (Step lib verify maxFd maxRequests) (Room maxRequests) s₀ s' ∧ Admitted first n s s' := by
  have hfresh : s.Fresh (first + n) := by
    refine ⟨fun hmem => ?_, fun hmem => ?_⟩
    · exact absurd (h.opened _ hmem) (Nat.lt_irrefl _)
    · have := h.others _ hmem
      omega
  have hroom : ¬ ((maxFd : ℤ) ≤ s.userCount ∨ maxFd ≤ first + n) := by
    rw [h.count]
    omega
  have hwait := hrun.snoc (.wait [.incoming] h.loop (by decide) List.nodup_nil
    (by simp [Notice.Due])) (room_of_loop (by rw [h.loop]; nofun))
  have haccept := hwait.snoc (.accept [] rfl hfresh hroom) (room_of_loop nofun)
  have hinit := haccept.snoc (.init rfl) (room_of_loop nofun)
  have hback := hinit.snoc (.back rfl) (room_of_loop nofun)
  exact ⟨_, hback, rfl, Function.update_self .., rfl, rfl, rfl, rfl, rfl⟩

omit [Fintype κ] in
theorem Backlog.next (hfd : first + n < maxFd) :
    ∃ s', Runs (Step lib verify maxFd maxRequests) (Room maxRequests) s₀ s' ∧ Next first n s s' := by
  obtain ⟨t, hrun, ht⟩ := h.accept hrun hfd
  have hnotice := hrun.snoc (.wait [.readable (first + n)] ht.loop (by simp [maxEventNumber])
    (List.nodup_singleton _) (by simp [Notice.Due, ht.armed])) (room_of_loop (by rw [ht.loop]; nofun))
  have hdispatch := hnotice.snoc (.readable rfl) (room_of_loop nofun)
  have hbyte : (t.users (first + n)).conn.read ⟨[[71]], .again, .again⟩ =
      ((Conn.accepted ⟨(first + n : ℕ), []⟩).receive [71], true) := by
    rw [ht.user]
    rfl
  have hread := hdispatch.snoc (.read rfl hbyte) (room_of_loop nofun)
  refine ⟨_, hread, rfl, ht.opened, ht.others, fun fd => ?_, ht.pool, ht.count⟩
  change (if fd ∈ [first + n] then none else t.armed fd) = none
  by_cases hfd : fd = first + n
  · rw [if_pos (List.mem_singleton.mpr hfd)]
  · rw [if_neg (by simpa using hfd), ht.armed, Function.update_of_ne hfd, h.armed]

omit [Fintype κ] in
theorem Backlog.succ (hfd : first + n < maxFd) (hn : n < maxRequests) :
    ∃ s', Runs (Step lib verify maxFd maxRequests) (Room maxRequests) s₀ s' ∧
      Backlog first (n + 1) s' := by
  obtain ⟨t, hrun, ht⟩ := h.next hrun hfd
  have hproducer : t.pool.producers () = .outside := by rw [ht.pool, h.producer]
  have hsize : t.pool.workqueue.length = n := by rw [ht.pool, h.size]
  have happend := hrun.snoc (.append ht.loop (.push (some (first + n)) hproducer (by omega)))
    (fun _ _ _ _ => by omega)
  have hpushed := Function.update_self () Producer.pushed t.pool.producers
  have hrelease := happend.snoc (.release rfl (.release hpushed)) (room_of_loop nofun)
  have hback := hrelease.snoc (.back rfl) (room_of_loop nofun)
  refine ⟨_, hback, rfl, ?_, ?_, ht.armed, ?_, ?_, ?_, ?_, ?_⟩
  · change ∀ fd ∈ t.opened, fd < first + (n + 1)
    rw [ht.opened]
    intro fd hfd
    rcases Finset.mem_insert.mp hfd with rfl | hfd
    · omega
    · have := h.opened fd hfd
      omega
  · change ∀ fd ∈ t.others, fd < first
    rw [ht.others]
    exact h.others
  · change (t.pool.workqueue ++ [some (first + n)]).length = n + 1
    rw [List.length_append, hsize]
    rfl
  · change ∀ fd, some fd ∈ t.pool.workqueue ++ [some (first + n)] → fd < first + (n + 1)
    rw [ht.pool]
    intro fd hfd
    rcases List.mem_append.mp hfd with hfd | hfd
    · have := h.queued fd hfd
      omega
    · cases List.mem_singleton.mp hfd
      omega
  · exact Function.update_self () Producer.outside (t.pool.moveProducer () .pushed).producers
  · change ∀ k, t.pool.workers k = .entering
    rw [ht.pool]
    exact h.workers
  · change t.userCount = ((n + 1 : ℕ) : ℤ)
    rw [ht.count, h.count]
    omega

end Overload

omit [Fintype κ] in
theorem exists_backlog {first n : ℕ} {others : Finset ℕ} (hothers : ∀ fd ∈ others, fd < first)
    (hfd : first + n ≤ maxFd) (hn : n ≤ maxRequests) :
    ∃ s : Server κ, Runs (Step lib verify maxFd maxRequests) (Room maxRequests) (Server.start others) s ∧
      Backlog first n s := by
  induction n with
  | zero => exact ⟨_, .refl, .start hothers⟩
  | succ n ih =>
    obtain ⟨s, hrun, h⟩ := ih (by omega) (by omega)
    exact h.succ hrun (by omega) (by omega)

/-- A library that writes no text and parses none. -/
def mute : JsonLib where
  dump _ := none
  parse _ := .error .parseError

end Server
end Runtime
end ResourceServer

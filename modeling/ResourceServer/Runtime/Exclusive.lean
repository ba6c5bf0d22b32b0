import ResourceServer.Http.Codes
import ResourceServer.Runtime.Descriptors

/-!
# Exclusive use of a connection

No lock guards a `users` entry. That a connection is in one place at a time is enough: every
place leaves the entry as the next expects it, so seen from one connection the event loop
and the workers together are the session of `Http.Session`.
-/

namespace ResourceServer
namespace Runtime

open Http

def Interest.phase : Interest → Phase
  | .input => .reading
  | .output => .writing

inductive Duty where
  -- armed, noticed, or about to be read or written
  | ready (i : Interest)
  -- its peer is gone
  | woken
  -- read, and not yet parsed
  | filled
  -- about to be closed
  | doomed
  -- cannot happen
  | never
  | any
  deriving DecidableEq, Repr

variable (lib : JsonLib) (verify : Bytes → Option ℤ)

/-- A session that steps of `Http.Session` lead to. -/
def Settled (x : Session) : Prop :=
  ∃ peer, Reaches (Session.Step lib verify) (Session.accepted peer) x

def Duty.Fits (x : Session) : Duty → Prop
  | .ready i => Settled lib verify x ∧ x.phase = i.phase
  | .woken => Settled lib verify x ∧ (x.phase = .reading ∨ x.phase = .writing)
  | .filled => ∃ x₀ a c, Settled lib verify x₀ ∧ x₀.phase = .reading ∧
      x₀.conn.read a = (c, true) ∧ x = x₀.afterRead c
  | .doomed => Settled lib verify x.close
  | .never => False
  | .any => True

def Notice.duty : Notice → Duty
  | .incoming => .any
  | .hangup _ => .woken
  | .readable _ => .ready .input
  | .writable _ => .ready .output

def LoopStage.duty : LoopStage → Duty
  | .reading _ _ => .ready .input
  | .appending _ _ => .filled
  | .writing _ _ => .ready .output
  | .closing _ _ => .doomed
  | .waiting | .dispatching _ | .accepted _ _ _ | .releasing _ => .any

def ProcessStage.duty : ProcessStage → Duty
  | .parsing => .filled
  | .rearming i => .ready i
  | .closing => .never
  | .returning | .faulted => .any

namespace Server

variable {κ : Type}

/-- The descriptor is in a place with this duty. -/
inductive Owes (s : Server κ) (fd : ℕ) : Duty → Prop where
  | armed {i : Interest} (h : s.armed fd = some i) (hdoomed : s.loop.doomed ≠ some fd) :
      Owes s fd (.ready i)
  | noticed {n : Notice} (h : n ∈ s.loop.events) (hn : n.fd? = some fd) : Owes s fd n.duty
  | hand (h : s.loop.hand = some fd) : Owes s fd s.loop.duty
  | queued (h : some fd ∈ s.pool.workqueue) : Owes s fd .filled
  | working {k : κ} (h : s.uses k = some fd) : Owes s fd (s.stages k).duty

def Slots (s : Server κ) : Prop := ∀ fd duty, s.Owes fd duty → duty.Fits lib verify (s.users fd)

variable {lib verify}

/-- The duties of a descriptor that a step does not concern. -/
theorem Owes.mono {s s' : Server κ} {fd : ℕ} {duty : Duty} (h : s'.Owes fd duty)
    (harmed : s'.armed fd = s.armed fd)
    (hloop : s'.loop = s.loop ∨ s.loop.hand ≠ some fd ∧ s'.loop.hand ≠ some fd ∧
      ∀ n ∈ s'.loop.events, n ∈ s.loop.events)
    (hqueue : some fd ∈ s'.pool.workqueue → some fd ∈ s.pool.workqueue)
    (huses : ∀ k, s'.uses k = some fd → s.uses k = some fd ∧ s'.stages k = s.stages k) :
    s.Owes fd duty := by
  cases h with
  | armed h hdoomed =>
    refine .armed (harmed ▸ h) fun hd => ?_
    rcases hloop with hloop | ⟨hhand, -, -⟩
    · exact hdoomed (hloop ▸ hd)
    · exact hhand (LoopStage.hand_of_doomed hd)
  | noticed h hn =>
    rcases hloop with hloop | ⟨-, -, hevents⟩
    · exact .noticed (hloop ▸ h) hn
    · exact .noticed (hevents _ h) hn
  | hand h =>
    rcases hloop with hloop | ⟨-, hhand, -⟩
    · rw [hloop] at h ⊢
      exact .hand h
    · exact absurd h hhand
  | queued h => exact .queued (hqueue h)
  | working h =>
    obtain ⟨h, hstage⟩ := huses _ h
    rw [hstage]
    exact .working h

variable [Fintype κ]

theorem Owes.counted {s : Server κ} {fd : ℕ} {duty : Duty} (h : s.Owes fd duty) :
    ((if s.armed fd ≠ none ∧ s.loop.doomed ≠ some fd then 1 else 0) = 1 ∧
        ∃ i, s.armed fd = some i ∧ duty = .ready i) ∨
      ((if s.loop.hand = some fd then 1 else 0) = 1 ∧ duty = s.loop.duty) ∨
      (0 < (s.loop.events.filterMap Notice.fd?).count fd ∧
        ∃ n ∈ s.loop.events, n.fd? = some fd ∧ duty = n.duty) ∨
      (0 < s.pool.workqueue.count (some fd) ∧ duty = .filled) ∨
      (0 < census (· = some fd) s.uses ∧ ∃ k, s.uses k = some fd ∧ duty = (s.stages k).duty) := by
  cases h with
  | armed h hdoomed => exact Or.inl ⟨if_pos ⟨by rw [h]; nofun, hdoomed⟩, _, h, rfl⟩
  | hand h => exact Or.inr (Or.inl ⟨if_pos h, rfl⟩)
  | noticed h hn =>
    exact Or.inr (Or.inr (Or.inl ⟨List.count_pos_iff.mpr (List.mem_filterMap.mpr ⟨_, h, hn⟩), _, h, hn, rfl⟩))
  | queued h => exact Or.inr (Or.inr (Or.inr (Or.inl ⟨List.count_pos_iff.mpr h, rfl⟩)))
  | working h =>
    exact Or.inr (Or.inr (Or.inr (Or.inr ⟨census_pos_iff.mpr ⟨_, h⟩, _, h, rfl⟩)))

theorem eq_of_noticed {events : List Notice} {fd : ℕ} {n n' : Notice}
    (hcount : (events.filterMap Notice.fd?).count fd ≤ 1) (hn : n ∈ events) (hn' : n' ∈ events)
    (hfd : n.fd? = some fd) (hfd' : n'.fd? = some fd) : n = n' := by
  induction events with
  | nil => cases hn
  | cons m events ih =>
    have hmem {x : Notice} (hx : x ∈ events) (hxfd : x.fd? = some fd) :
        0 < (events.filterMap Notice.fd?).count fd :=
      List.count_pos_iff.mpr (List.mem_filterMap.mpr ⟨x, hx, hxfd⟩)
    by_cases hm : m.fd? = some fd
    · rw [List.filterMap_cons_some hm, List.count_cons_self] at hcount
      have hall {x : Notice} (hx : x ∈ m :: events) (hxfd : x.fd? = some fd) : x = m := by
        rcases List.mem_cons.mp hx with rfl | hx
        · rfl
        · have := hmem hx hxfd
          omega
      rw [hall hn hfd, hall hn' hfd']
    · have hrest {x : Notice} (hx : x ∈ m :: events) (hxfd : x.fd? = some fd) : x ∈ events := by
        rcases List.mem_cons.mp hx with rfl | hx
        · exact absurd hxfd hm
        · exact hx
      have hle : (events.filterMap Notice.fd?).count fd ≤ 1 :=
        ((List.sublist_cons_self m events).filterMap _).count_le fd |>.trans hcount
      exact ih hle (hrest hn hfd) (hrest hn' hfd')

theorem Owes.unique {s : Server κ} (hs : s.Accounted) {fd : ℕ} {duty duty' : Duty}
    (h : s.Owes fd duty) (h' : s.Owes fd duty') : duty = duty' := by
  have hle := hs.places_le_one fd
  rw [loopPlaces, poolPlaces] at hle
  rcases h.counted with ⟨h, i, hi, hd⟩ | ⟨h, hd⟩ | ⟨h, n, hn, hfd, hd⟩ | ⟨h, hd⟩ | ⟨h, k, hk, hd⟩ <;>
    rcases h'.counted with
      ⟨h', i', hi', hd'⟩ | ⟨h', hd'⟩ | ⟨h', n', hn', hfd', hd'⟩ | ⟨h', hd'⟩ | ⟨h', k', hk', hd'⟩ <;>
    try omega
  · rw [hd, hd', Option.some.inj (hi.symm.trans hi')]
  · rw [hd, hd']
  · rw [hd, hd', eq_of_noticed (by omega) hn hn' hfd hfd']
  · rw [hd, hd']
  · rw [hd, hd', eq_of_census_le_one (p := (· = some fd)) (by omega) hk hk']

theorem Owes.opened {s : Server κ} (hs : s.Accounted) {fd : ℕ} {duty : Duty} (h : s.Owes fd duty) :
    fd ∈ s.opened := by
  apply hs.mem_opened fd
  rw [loopPlaces, poolPlaces]
  rcases h.counted with ⟨h, -⟩ | ⟨h, -⟩ | ⟨h, -⟩ | ⟨h, -⟩ | ⟨h, -⟩ <;> omega

theorem not_owes_of_refused {s : Server κ} (hs : s.Accounted) {fd : ℕ}
    (hrefused : some fd ∈ s.pool.refused) (duty : Duty) : ¬ s.Owes fd duty := by
  intro h
  have hle := hs.places_le_one fd
  have hcount := List.count_pos_iff.mpr hrefused
  rw [loopPlaces, poolPlaces] at hle
  rcases h.counted with ⟨h, -⟩ | ⟨h, -⟩ | ⟨h, -⟩ | ⟨h, -⟩ | ⟨h, -⟩ <;> omega

/-- It is enough to look at one place of a descriptor. -/
theorem Owes.fits {s : Server κ} (hs : s.Accounted) {fd : ℕ} {duty₀ duty : Duty}
    (h₀ : s.Owes fd duty₀) (hfits : duty₀.Fits lib verify (s.users fd)) (h : s.Owes fd duty) :
    duty.Fits lib verify (s.users fd) := by
  rw [h.unique hs h₀]
  exact hfits

theorem Duty.Fits.woken {x : Session} {i : Interest} (h : (Duty.ready i).Fits lib verify x) :
    Duty.woken.Fits lib verify x := by
  obtain ⟨hx, hphase⟩ := h
  refine ⟨hx, ?_⟩
  cases i
  · exact Or.inl hphase
  · exact Or.inr hphase

theorem settled_step {x x' : Session} {i : Input} (hx : Settled lib verify x)
    (hstep : Session.Step lib verify x i x') : Settled lib verify x' := by
  obtain ⟨peer, hrun⟩ := hx
  exact ⟨peer, hrun.snoc hstep trivial⟩

theorem settled_readable {x : Session} (hx : Settled lib verify x) : x.Readable := by
  obtain ⟨peer, hrun⟩ := hx
  exact Session.readable_of_reaches hrun

/-- `process_write` never fails on a connection that was read. -/
theorem Duty.Fits.queues {x : Session} (hx : Duty.filled.Fits lib verify x) {c' : Conn} {v : Verdict}
    {calls : List (Event services)} {result : HttpCode × Bytes}
    (hparse : processRead x.conn = .ok (c', v)) (hverdict : v ≠ .code .noRequest)
    (houtcome : Outcome lib verify v calls result) :
    (Conn.processWrite { c' with jsonRes := result.2 } result.1).2 = true := by
  obtain ⟨x₀, a, c, hx₀, hphase, hread, rfl⟩ := hx
  obtain ⟨hspec, -⟩ := (settled_readable hx₀).read hphase hread
  have hparse : processRead c = .ok (c', v) := hparse
  rw [hparse] at hspec
  exact (hspec.queues hverdict houtcome).ok

variable [DecidableEq κ] {maxFd maxRequests : ℕ}

omit [Fintype κ] [DecidableEq κ] in
/-- A step of the descriptor `fd`. -/
theorem Slots.move {s s' : Server κ} (hslots : s.Slots lib verify) (fd : ℕ)
    (hfd : ∀ duty, s'.Owes fd duty → duty.Fits lib verify (s'.users fd))
    (husers : ∀ g ≠ fd, s'.users g = s.users g)
    (howes : ∀ g ≠ fd, ∀ duty, s'.Owes g duty → s.Owes g duty) : s'.Slots lib verify := by
  intro g duty h
  by_cases hg : g = fd
  · subst hg
    exact hfd duty h
  · rw [husers g hg]
    exact hslots g duty (howes g hg duty h)

section Loop

variable {s : Server κ} (hslots : s.Slots lib verify) {fd : ℕ} {events : List Notice}

include hslots

omit [DecidableEq κ] in
theorem Slots.dispatched {n : Notice} {loop : LoopStage} (hs' : Accounted { s with loop := loop })
    (hloop : s.loop = .dispatching (n :: events)) (hhand : loop.hand = some fd)
    (hevents : loop.events = events) (hfits : loop.duty.Fits lib verify (s.users fd)) :
    Slots lib verify { s with loop := loop } := by
  refine hslots.move fd (fun duty h => Owes.fits hs' (.hand hhand) hfits h)
    (fun _ _ => rfl) fun g hg duty h => h.mono rfl (Or.inr ⟨?_, ?_, ?_⟩) id fun _ h => ⟨h, rfl⟩
  · rw [hloop]
    nofun
  · exact fun h => hg (Option.some.inj (h.symm.trans hhand))
  · rw [hloop, hevents]
    exact fun _ => List.mem_cons_of_mem _

omit [Fintype κ] [DecidableEq κ] in
theorem Slots.reading (hloop : s.loop = .reading fd events) :
    Settled lib verify (s.users fd) ∧ (s.users fd).phase = .reading := by
  have hready := hslots fd _ (.hand (by rw [hloop]; rfl))
  rw [hloop] at hready
  exact hready

omit [Fintype κ] [DecidableEq κ] in
theorem Slots.writing (hloop : s.loop = .writing fd events) :
    Settled lib verify (s.users fd) ∧ (s.users fd).phase = .writing := by
  have hready := hslots fd _ (.hand (by rw [hloop]; rfl))
  rw [hloop] at hready
  exact hready

omit [DecidableEq κ] in
/-- The event loop changes the entry in its hands and goes on with it. -/
theorem Slots.held {x : Session} {loop : LoopStage}
    (hs' : Accounted { s.setUser fd x with loop := loop })
    (hloop : s.loop = .reading fd events ∨ s.loop = .writing fd events)
    (hhand : loop.hand = some fd) (hevents : loop.events = events)
    (hfits : loop.duty.Fits lib verify x) : Slots lib verify { s.setUser fd x with loop := loop } := by
  have hbefore : s.loop.hand = some fd := by rcases hloop with h | h <;> rw [h] <;> rfl
  have hsame : s.loop.events = events := by rcases hloop with h | h <;> rw [h] <;> rfl
  refine hslots.move fd (fun duty h => Owes.fits hs' (.hand hhand) ?_ h)
    (fun g hg => Function.update_of_ne hg ..) fun g hg duty h =>
      h.mono rfl (Or.inr ⟨?_, ?_, ?_⟩) id fun _ h => ⟨h, rfl⟩
  · change loop.duty.Fits lib verify (Function.update s.users fd x fd)
    rw [Function.update_self]
    exact hfits
  · exact fun h => hg (Option.some.inj (h.symm.trans hbefore))
  · exact fun h => hg (Option.some.inj (h.symm.trans hhand))
  · rw [hsame, hevents]
    exact fun _ => id

omit [DecidableEq κ] in
theorem Slots.rearmed {x : Session} {i : Interest} (hs : s.Accounted)
    (hs' : Accounted { (s.setUser fd x).modfd fd i with loop := .dispatching events })
    (hloop : s.loop = .writing fd events) (hpeer : x.conn.toPeer = (s.users fd).conn.toPeer)
    (hfits : (Duty.ready i).Fits lib verify x) :
    Slots lib verify { (s.setUser fd x).modfd fd i with loop := .dispatching events } := by
  obtain ⟨hfd, -⟩ := hs.hand_only fd (by rw [hloop]; rfl)
  have hsock : (s.setUser fd x).sockfd fd = fd := by
    rw [sockfd, setUser_users, Function.update_self, hpeer]
    exact hs.own fd hfd (by simp [hloop])
  have harmed (g : ℕ) : ((s.setUser fd x).modfd fd i).armed g = Function.update s.armed fd (some i) g := by
    rw [modfd, hsock, Int.toNat_natCast]
    rfl
  refine hslots.move fd (fun duty h => ?_) (fun g hg => Function.update_of_ne hg ..)
    fun g hg duty h => ?_
  · refine Owes.fits hs' (.armed ((harmed fd).trans (Function.update_self ..)) (by simp [LoopStage.doomed])) ?_ h
    change (Duty.ready i).Fits lib verify (Function.update s.users fd x fd)
    rw [Function.update_self]
    exact hfits
  · refine h.mono ((harmed g).trans (Function.update_of_ne hg ..)) (Or.inr ⟨?_, by simp [LoopStage.hand], ?_⟩) id
      fun _ h => ⟨h, rfl⟩
    · rw [hloop]
      exact fun h => hg (Option.some.inj h).symm
    · rw [hloop]
      exact fun _ => id

omit [Fintype κ] [DecidableEq κ] in
/-- Arming a descriptor that is closed next gives it no duty. -/
theorem Slots.arm_doomed (hloop : s.loop = .closing fd events) (hsock : s.sockfd fd = fd) (i : Interest) :
    (s.modfd fd i).Slots lib verify := by
  intro g duty h
  by_cases hg : g = fd
  · subst hg
    refine hslots g duty ?_
    cases h with
    | armed h hdoomed =>
      change s.loop.doomed ≠ some g at hdoomed
      rw [hloop] at hdoomed
      exact absurd rfl hdoomed
    | noticed h hn => exact .noticed h hn
    | hand h => exact .hand h
    | queued h => exact .queued h
    | working h => exact .working h
  · refine hslots g duty (h.mono ?_ (Or.inl rfl) id fun _ h => ⟨h, rfl⟩)
    rw [modfd, hsock, Int.toNat_natCast]
    exact Function.update_of_ne hg ..

omit [DecidableEq κ] in
theorem Slots.close (hs : s.Accounted) (hs' : Accounted { s.closeConn fd with loop := .dispatching events })
    (hloop : s.loop = .closing fd events) :
    Slots lib verify { s.closeConn fd with loop := .dispatching events } := by
  obtain ⟨hfd, -⟩ := hs.hand_only fd (by rw [hloop]; rfl)
  have hown := hs.own fd hfd (by simp [hloop])
  have hclose : s.closeConn fd = { s.setUser fd (s.users fd).close with
      armed := Function.update s.armed fd none
      opened := s.opened.erase fd
      userCount := s.userCount - 1 } := by
    rw [closeConn, if_pos (by omega), hown, Int.toNat_natCast]
  rw [hclose] at hs' ⊢
  refine hslots.move fd (fun duty h => ?_) (fun g hg => Function.update_of_ne hg ..)
    fun g hg duty h => h.mono (Function.update_of_ne hg ..) (Or.inr ⟨?_, by simp [LoopStage.hand], ?_⟩) id
      fun _ h => ⟨h, rfl⟩
  · exact absurd (h.opened hs') (Finset.notMem_erase fd s.opened)
  · rw [hloop]
    exact fun h => hg (Option.some.inj h).symm
  · rw [hloop]
    exact fun _ => id

omit [Fintype κ] [DecidableEq κ] in
/-- What `epoll_wait` reports about a descriptor fits what it was armed for. -/
theorem Slots.delivered (hloop : s.loop = .waiting) (hdue : ∀ n ∈ events, n.Due s.armed) :
    (s.deliver events).Slots lib verify := by
  intro fd duty h
  cases h with
  | armed h hdoomed =>
    change (if fd ∈ events.filterMap Notice.fd? then none else s.armed fd) = _ at h
    split_ifs at h
    exact hslots fd _ (.armed h (by rw [hloop]; nofun))
  | @noticed n hn hfd =>
    have hn := hdue n hn
    cases n with
    | incoming => trivial
    | hangup g =>
      cases hfd
      obtain ⟨i, hi⟩ := Option.ne_none_iff_exists'.mp hn
      exact Duty.Fits.woken (hslots fd _ (.armed hi (by rw [hloop]; nofun)))
    | readable g | writable g =>
      cases hfd
      exact hslots fd _ (.armed hn (by rw [hloop]; nofun))
  | hand h => cases h
  | queued h => exact hslots fd _ (.queued h)
  | working h => exact hslots fd _ (.working h)

omit [DecidableEq κ] in
theorem Slots.accepted {address : Bytes}
    (hs' : Accounted { s with opened := insert fd s.opened, loop := .accepted fd address events })
    (hloop : s.loop = .dispatching (.incoming :: events)) :
    Slots lib verify { s with opened := insert fd s.opened, loop := .accepted fd address events } := by
  refine hslots.move fd (fun duty h => Owes.fits hs' (.hand rfl) trivial h) (fun _ _ => rfl)
    fun g hg duty h => h.mono rfl (Or.inr ⟨?_, ?_, ?_⟩) id fun _ h => ⟨h, rfl⟩
  · rw [hloop]
    nofun
  · exact fun h => hg (Option.some.inj h).symm
  · rw [hloop]
    exact fun _ => List.mem_cons_of_mem _

omit [DecidableEq κ] in
/-- `init` on an accepted connection starts its session. -/
theorem Slots.armedNew {address : Bytes}
    (hs' : Accounted { s.setUser fd (.accepted ⟨fd, address⟩) with
      armed := Function.update s.armed fd (some .input)
      userCount := s.userCount + 1
      loop := .dispatching events })
    (hloop : s.loop = .accepted fd address events) :
    Slots lib verify { s.setUser fd (.accepted ⟨fd, address⟩) with
      armed := Function.update s.armed fd (some .input)
      userCount := s.userCount + 1
      loop := .dispatching events } := by
  refine hslots.move fd (fun duty h => ?_) (fun g hg => Function.update_of_ne hg ..)
    fun g hg duty h =>
      h.mono (Function.update_of_ne hg ..) (Or.inr ⟨?_, nofun, ?_⟩) id fun _ h => ⟨h, rfl⟩
  · refine Owes.fits hs' (.armed (Function.update_self ..) nofun) ?_ h
    change (Duty.ready .input).Fits lib verify (Function.update s.users fd _ fd)
    rw [Function.update_self]
    exact ⟨⟨_, .refl⟩, rfl⟩
  · rw [hloop]
    exact fun h => hg (Option.some.inj h).symm
  · rw [hloop]
    exact fun _ => id

omit [DecidableEq κ] in
theorem Slots.appended {pool : ThreadPool ℕ Unit κ}
    (hs' : Accounted { s with pool := pool, loop := .releasing events })
    (hloop : s.loop = .appending fd events) (hqueue : pool.workqueue = s.pool.workqueue ++ [some fd])
    (hworkers : pool.workers = s.pool.workers) :
    Slots lib verify { s with pool := pool, loop := .releasing events } := by
  have hfilled := hslots fd _ (.hand (by rw [hloop]; rfl))
  rw [hloop] at hfilled
  have hqueued : some fd ∈ pool.workqueue := by
    rw [hqueue]
    exact List.mem_append_right _ (List.mem_singleton.mpr rfl)
  refine hslots.move fd (fun duty h => Owes.fits hs' (.queued hqueued) hfilled h) (fun _ _ => rfl)
    fun g hg duty h => h.mono rfl (Or.inr ⟨?_, nofun, ?_⟩) (fun h => ?_) fun k h => ⟨?_, rfl⟩
  · rw [hloop]
    exact fun h => hg (Option.some.inj h).symm
  · rw [hloop]
    exact fun _ => id
  · rw [hqueue] at h
    exact (List.mem_append.mp h).resolve_right (by simpa using hg)
  · rwa [uses, hworkers] at h

end Loop

section Workers

variable {s : Server κ} (hslots : s.Slots lib verify) {k : κ} {fd : ℕ}

include hslots

omit [Fintype κ] [DecidableEq κ] in
/-- A worker in `process()` uses the entry of its request, as its stage says. -/
theorem Slots.working {stage : ProcessStage} (hstage : s.stages k = stage) (hne : stage ≠ .returning)
    (hk : s.pool.workers k = .processing fd) :
    s.uses k = some fd ∧ stage.duty.Fits lib verify (s.users fd) := by
  have huses : s.uses k = some fd := by
    rw [uses, hstage, if_neg hne, hk]
    rfl
  have hfits := hslots fd _ (.working huses)
  rw [hstage] at hfits
  exact ⟨huses, hfits⟩

/-- A worker changes the entry it uses and goes on with it. -/
theorem Slots.processed {x : Session} {stage : ProcessStage}
    (hs' : ((s.setUser fd x).moveStage k stage).Accounted) (huses : s.uses k = some fd)
    (hstage : stage ≠ .returning) (hfits : stage.duty.Fits lib verify x) :
    ((s.setUser fd x).moveStage k stage).Slots lib verify := by
  have hk : ((s.setUser fd x).moveStage k stage).uses = s.uses := by
    rw [uses_moveStage, if_neg hstage]
    have hrequest : ((s.setUser fd x).pool.workers k).request = s.uses k := by
      rw [huses, show (s.setUser fd x).pool = s.pool from rfl, processing_of_uses huses]
      rfl
    rw [hrequest]
    exact Function.update_eq_self ..
  refine hslots.move fd (fun duty h => ?_) (fun g hg => Function.update_of_ne hg ..)
    fun g hg duty h => h.mono rfl (Or.inl rfl) id fun j hj => ?_
  · have hplace := Owes.working (s := (s.setUser fd x).moveStage k stage) (k := k)
      ((congrFun hk k).trans huses)
    refine Owes.fits hs' hplace ?_ h
    rw [moveStage_stages, Function.update_self]
    change stage.duty.Fits lib verify (Function.update s.users fd x fd)
    rw [Function.update_self]
    exact hfits
  · rw [hk] at hj
    have hne : j ≠ k := by
      rintro rfl
      exact hg (Option.some.inj (hj.symm.trans huses))
    exact ⟨hj, Function.update_of_ne hne ..⟩

theorem Slots.workerRearms {i : Interest} (hs : s.Accounted)
    (hs' : ((s.modfd fd i).moveStage k .returning).Accounted) (huses : s.uses k = some fd)
    (hfits : (Duty.ready i).Fits lib verify (s.users fd)) :
    ((s.modfd fd i).moveStage k .returning).Slots lib verify := by
  obtain ⟨hfd, -, hhand, -⟩ := hs.uses_only huses
  have hown := hs.own fd hfd fun _ _ h => hhand (by rw [h]; rfl)
  have harmed (g : ℕ) : (s.modfd fd i).armed g = Function.update s.armed fd (some i) g := by
    rw [modfd, hown, Int.toNat_natCast]
  refine hslots.move fd (fun duty h => ?_) (fun _ _ => rfl) fun g hg duty h =>
    h.mono ((harmed g).trans (Function.update_of_ne hg ..)) (Or.inl rfl) id fun j hj => ?_
  · refine Owes.fits hs' (.armed ((harmed fd).trans (Function.update_self ..)) ?_) hfits h
    exact fun hd => hhand (LoopStage.hand_of_doomed hd)
  · rw [uses_moveStage, if_pos rfl] at hj
    have hne : j ≠ k := by
      rintro rfl
      rw [Function.update_self] at hj
      cases hj
    rw [Function.update_of_ne hne] at hj
    exact ⟨hj, Function.update_of_ne hne ..⟩

/-- A worker takes a descriptor from the queue. -/
theorem Slots.taken {r : Option ℕ} {pool : ThreadPool ℕ Unit κ}
    (hs' : Accounted { s.moveStage k .parsing with pool := pool })
    (hqueue : s.pool.workqueue = r :: pool.workqueue)
    (hworkers : pool.workers = Function.update s.pool.workers k (.afterPop r)) :
    Slots lib verify { s.moveStage k .parsing with pool := pool } := by
  have huses : uses { s.moveStage k .parsing with pool := pool } = Function.update s.uses k r :=
    uses_take hworkers
  have hother {j : κ} {g : ℕ} (hj : uses { s.moveStage k .parsing with pool := pool } j = some g)
      (hne : j ≠ k) : s.uses j = some g ∧ (s.moveStage k .parsing).stages j = s.stages j := by
    rw [huses, Function.update_of_ne hne] at hj
    exact ⟨hj, Function.update_of_ne hne ..⟩
  have hqueued (g : ℕ) : some g ∈ pool.workqueue → some g ∈ s.pool.workqueue :=
    fun h => hqueue ▸ List.mem_cons_of_mem r h
  cases r with
  | none =>
    refine fun fd duty h => hslots fd duty (h.mono rfl (Or.inl rfl) (hqueued fd) fun j hj => hother hj ?_)
    rintro rfl
    rw [huses, Function.update_self] at hj
    cases hj
  | some fd =>
    refine hslots.move fd (fun duty h => ?_) (fun _ _ => rfl) fun g hg duty h =>
      h.mono rfl (Or.inl rfl) (hqueued g) fun j hj => hother hj ?_
    · have hplace := Owes.working (s := { s.moveStage k .parsing with pool := pool }) (k := k)
        ((congrFun huses k).trans (Function.update_self ..))
      have hstage : (s.moveStage k .parsing).stages k = .parsing := Function.update_self ..
      refine Owes.fits hs' hplace ?_ h
      change ((s.moveStage k .parsing).stages k).duty.Fits lib verify (s.users fd)
      rw [hstage]
      exact hslots fd _ (.queued (by rw [hqueue]; exact List.mem_cons_self))
    · rintro rfl
      rw [huses, Function.update_self] at hj
      exact hg (Option.some.inj hj).symm

end Workers

theorem Slots.step {s s' : Server κ} {agent : Agent κ} (hs : s.Accounted) (hslots : s.Slots lib verify)
    (hstep : Step lib verify maxFd maxRequests s agent s') : s'.Slots lib verify := by
  have hs' := hs.step hstep
  cases hstep with
  | back hloop | acceptFails hloop | turnAway hloop =>
    refine fun fd duty h => hslots fd duty (h.mono rfl (Or.inr ⟨?_, by simp [LoopStage.hand], ?_⟩) id
      fun _ h => ⟨h, rfl⟩)
    · rw [hloop]
      simp [LoopStage.hand]
    · rw [hloop]
      first
        | exact fun _ => id
        | exact fun _ => List.mem_cons_of_mem _
  | wait events hloop hlength hdistinct hdue => exact hslots.delivered hloop hdue
  | accept address hloop hfresh hroom => exact hslots.accepted hs' hloop
  | init hloop => exact hslots.armedNew hs' hloop
  | @hangup fd events hloop =>
    obtain ⟨hx, hphase⟩ := hslots fd _ (.noticed (by rw [hloop]; exact List.mem_cons_self) rfl)
    exact hslots.dispatched hs' hloop rfl rfl (settled_step hx (.hangup _ hphase))
  | @readable fd events hloop | @writable fd events hloop =>
    have hready := hslots fd _ (.noticed (by rw [hloop]; exact List.mem_cons_self) rfl)
    exact hslots.dispatched hs' hloop rfl rfl hready
  | @read fd events a c hloop hread =>
    obtain ⟨hx, hphase⟩ := hslots.reading hloop
    exact hslots.held hs' (Or.inl hloop) rfl rfl ⟨_, a, c, hx, hphase, hread, rfl⟩
  | @readFails fd events a c hloop hread =>
    obtain ⟨hx, hphase⟩ := hslots.reading hloop
    have hclose : Session.Step lib verify (s.users fd) (.readable a true) _ := .readFails hphase hread
    exact hslots.held hs' (Or.inl hloop) rfl rfl (settled_step hx hclose)
  | append hloop hpool =>
    obtain ⟨hqueue, -, hworkers⟩ := hpool.append_accepted
    exact hslots.appended hs' hloop hqueue hworkers
  | @refuse fd events pool hloop hpool =>
    obtain ⟨-, hqueue, hrefused, hworkers⟩ := hpool.append_refused
    refine hslots.move fd (fun duty h => ?_) (fun _ _ => rfl) fun g hg duty h => ?_
    · have hmem : some fd ∈ pool.refused := by
        rw [hrefused]
        exact List.mem_append_right _ (List.mem_singleton.mpr rfl)
      exact absurd h (not_owes_of_refused hs' hmem duty)
    · refine h.mono rfl (Or.inr ⟨?_, by simp [LoopStage.hand], ?_⟩) (hqueue ▸ id) fun k h => ⟨?_, rfl⟩
      · rw [hloop]
        exact fun h => hg (Option.some.inj h).symm
      · rw [hloop]
        exact fun _ => id
      · rwa [uses, hworkers] at h
  | @release events pool hloop hpool =>
    obtain ⟨hqueue, -, hworkers⟩ := hpool.release_frame
    refine fun fd duty h => hslots fd duty (h.mono rfl (Or.inr ⟨?_, by simp [LoopStage.hand], ?_⟩)
      (hqueue ▸ id) fun k h => ⟨?_, rfl⟩)
    · rw [hloop]
      simp [LoopStage.hand]
    · rw [hloop]
      exact fun _ => id
    · rwa [uses, hworkers] at h
  | @blocked fd events results c out hloop hwrite =>
    have hpeer := Conn.write_toPeer (s.users fd).conn results
    rw [hwrite] at hpeer
    obtain ⟨hx, hphase⟩ := hslots.writing hloop
    exact hslots.rearmed hs hs' hloop hpeer ⟨settled_step hx (.blocked hphase hwrite), hphase⟩
  | @finished fd events results c out hloop hwrite =>
    have hpeer := Conn.write_toPeer (s.users fd).conn results
    rw [hwrite] at hpeer
    obtain ⟨hx, hphase⟩ := hslots.writing hloop
    exact hslots.rearmed hs hs' hloop hpeer ⟨settled_step hx (.finished hphase hwrite), rfl⟩
  | @writeEnds fd events results c out hloop hwrite =>
    have hpeer := Conn.write_toPeer (s.users fd).conn results
    rw [hwrite] at hpeer
    obtain ⟨hx, hphase⟩ := hslots.writing hloop
    obtain ⟨hfd, -⟩ := hs.hand_only fd (by rw [hloop]; rfl)
    have hheld : Slots lib verify { s.setUser fd { s.users fd with
        conn := c, wire := (s.users fd).wire ++ out } with loop := .closing fd events } :=
      hslots.held ((hs.setUser hpeer).hold (Or.inr hloop) rfl rfl) (Or.inr hloop) rfl rfl
        (settled_step hx (.ended hphase hwrite (Or.inl rfl)))
    refine hheld.arm_doomed rfl ?_ .input
    change (Function.update s.users fd _ fd).conn.sockfd = fd
    rw [Function.update_self]
    exact (congrArg Peer.sockfd hpeer).trans (hs.own fd hfd (by simp [hloop]))
  | @writeFails fd events results c out hloop hwrite =>
    obtain ⟨hx, hphase⟩ := hslots.writing hloop
    exact hslots.held hs' (Or.inr hloop) rfl rfl
      (settled_step hx (.ended hphase hwrite (Or.inr rfl)))
  | close hloop => exact hslots.close hs hs' hloop
  | run hpool =>
    obtain ⟨hqueue, -, hrequests⟩ := hpool.run_frame
    refine fun fd duty h => hslots fd duty (h.mono rfl (Or.inl rfl) (hqueue ▸ id) fun k h => ⟨?_, rfl⟩)
    rwa [uses, hrequests] at h
  | take hpool =>
    obtain ⟨hqueue, -, -, hworkers⟩ := hpool.take_spec
    exact hslots.taken hs' hqueue hworkers
  | @fault k fd f hk hstage hparse =>
    obtain ⟨huses, -⟩ := hslots.working hstage (by simp) hk
    have hsame : s.setUser fd (s.users fd) = s := by rw [setUser, Function.update_eq_self]
    have hmoved : ((s.setUser fd (s.users fd)).moveStage k .faulted).Slots lib verify :=
      hslots.processed (by rwa [hsame]) huses (by simp) trivial
    rwa [hsame] at hmoved
  | @incomplete k fd c' hk hstage hparse =>
    obtain ⟨huses, x₀, a, c, hx₀, hphase, hread, hx⟩ := hslots.working hstage (by simp) hk
    refine hslots.processed hs' huses (by simp) ?_
    rw [hx] at hparse ⊢
    exact ⟨settled_step hx₀ (.wait hphase hread hparse), hphase⟩
  | @answer k fd c' v calls result hk hstage hparse hverdict houtcome hwrite =>
    obtain ⟨huses, x₀, a, c, hx₀, hphase, hread, hx⟩ := hslots.working hstage (by simp) hk
    refine hslots.processed hs' huses (by simp) ?_
    rw [hx] at hparse ⊢
    refine ⟨settled_step hx₀ (.answer hphase hread hparse hverdict houtcome), ?_⟩
    rw [Session.reply, if_pos hwrite]
    rfl
  | @unanswered k fd c' v calls result hk hstage hparse hverdict houtcome hwrite =>
    obtain ⟨-, hfilled⟩ := hslots.working hstage (by simp) hk
    have hqueued := Duty.Fits.queues hfilled hparse hverdict houtcome
    rw [hwrite] at hqueued
    cases hqueued
  | @rearm k fd i hk hstage =>
    obtain ⟨huses, hready⟩ := hslots.working hstage (by simp) hk
    exact hslots.workerRearms hs hs' huses hready
  | @workerCloses k fd hk hstage =>
    obtain ⟨-, hnever⟩ := hslots.working hstage (by simp) hk
    exact hnever.elim
  | @done k pool hstage hpool =>
    obtain ⟨hqueue, -, hworkers⟩ := hpool.done_spec
    refine fun fd duty h => hslots fd duty (h.mono rfl (Or.inl rfl) (hqueue ▸ id) fun j hj => ⟨?_, rfl⟩)
    rwa [uses_done hstage hworkers] at hj
  | elsewhere others hothers =>
    exact fun fd duty h => hslots fd duty (h.mono rfl (Or.inl rfl) id fun _ h => ⟨h, rfl⟩)

theorem slots_of_reaches {others : Finset ℕ} {s : Server κ}
    (hrun : Reaches (Step lib verify maxFd maxRequests) (Server.start others) s) :
    s.Accounted ∧ s.Slots lib verify := by
  refine Reaches.invariant (I := fun s : Server κ => s.Accounted ∧ s.Slots lib verify) hrun ?_
    ⟨.start others, fun fd duty h => ?_⟩
  · rintro s agent s' ⟨hs, hslots⟩ hstep
    exact ⟨hs.step hstep, hslots.step hs hstep⟩
  · exact absurd (h.opened (.start others)) (Finset.notMem_empty fd)

/-- An armed connection is a session of `Http.Session` that waits for what it is armed for. -/
theorem armed_settled {others : Finset ℕ} {s : Server κ}
    (hrun : Reaches (Step lib verify maxFd maxRequests) (Server.start others) s)
    (hwaiting : s.loop = .waiting) {fd : ℕ} {i : Interest} (harmed : s.armed fd = some i) :
    Settled lib verify (s.users fd) ∧ (s.users fd).phase = i.phase :=
  (slots_of_reaches hrun).2 fd _ (.armed harmed (by rw [hwaiting]; nofun))

end Server
end Runtime
end ResourceServer

import ResourceServer.Foundation.Monitor
import ResourceServer.Runtime.Logger
import ResourceServer.Runtime.RedisPool

/-!
# The condition variables of the Redis client and the logger

`RedisClient` and `Logger` each have a mutex and a condition variable, and send their
notifications outside the lock. The models of the two say when a thread may go on; here it
sleeps until it is woken. None of it sleeps on with work to do: every command on the cache
comes to its end, and every line is printed.
-/

namespace ResourceServer
namespace Runtime

/-- What is left to a thread of its command. -/
def RedisCaller.stepsLeft (ι : Type) [Fintype ι] : RedisCaller → ℕ
  | .idle => 0
  | .releasing _ => 4
  | .givingUp => Fintype.card ι + 3
  | .rejecting _ => Fintype.card ι + 5
  | .checking _ checks => Fintype.card ι + 2 * checks.length + 7
  | .connecting => Fintype.card ι + 15
  | .discarding _ => Fintype.card ι + 17
  | .leased _ => Fintype.card ι + 19
  | .waiting => Fintype.card ι + 21

theorem RedisConfig.length_checks_le (cfg : RedisConfig) : cfg.checks.length ≤ 3 := by
  unfold checks
  split_ifs <;> simp

namespace RedisPool

variable {ι : Type} [DecidableEq ι] {cfg : RedisConfig} {s s' : RedisPool ι} {a : Act ι}

def Act.agent : Act ι → ι
  | .lease i _ | .run i => i

/-- The notification behind a step of thread `i`. -/
def notify (s : RedisPool ι) (i : ι) : Option Notify :=
  match s.callers i with
  | .releasing _ => if s.available then some .one else none
  | .givingUp => some .all
  | _ => none

/-- A step, and whether it begins a command. -/
def guarded (cfg : RedisConfig) : Guarded (RedisPool ι) ι (Act ι × Bool) where
  step s a n s' := Step cfg s a.1 s' ∧ n = s.notify a.1.agent ∧ (a.2 = true ↔ s.callers a.1.agent = .idle)
  agent a := a.1.agent
  starts a := a.2 = true
  waits s i := s.callers i = .waiting
  stock s := s.connPool.length
  closed s := s.available = false

/-- What a step of thread `i` does when it moves to `w`. -/
structure Effect [Fintype ι] (s : RedisPool ι) (i : ι) (w : RedisCaller) (s' : RedisPool ι) : Prop where
  callers : s'.callers = Function.update s.callers i w
  arrives : w = .waiting → s.callers i = .idle
  leaves : s.callers i = .waiting → s'.available = false ∨ s'.connPool.length < s.connPool.length
  gives : s'.connPool.length ≤ s.connPool.length + if s.notify i = some .one then 1 else 0
  closes : s'.available = false → s.available = false ∨ s.notify i = some .all
  sinks : s.callers i ≠ .idle →
    w.stepsLeft ι + (Mode.behind (s.notify i)).cost ι + 2 ≤ (s.callers i).stepsLeft ι

theorem Effect.of_same [Fintype ι] {i : ι} {w : RedisCaller} (hcallers : s'.callers = Function.update s.callers i w)
    (hw : w ≠ .waiting) (hi : s.callers i ≠ .waiting) (hpool : s'.connPool = s.connPool)
    (havailable : s'.available = s.available)
    (hsinks : w.stepsLeft ι + (Mode.behind (s.notify i)).cost ι + 2 ≤ (s.callers i).stepsLeft ι) :
    Effect s i w s' where
  callers := hcallers
  arrives h := absurd h hw
  leaves h := absurd h hi
  gives := by
    rw [hpool]
    exact Nat.le_add_right _ _
  closes h := Or.inl (havailable ▸ h)
  sinks _ := hsinks

theorem Step.effect [Fintype ι] (hstep : Step cfg s a s') : ∃ w, Effect s a.agent w s' := by
  have hlength := cfg.length_checks_le
  have hnone {i : ι} (hi : ∀ c, s.callers i ≠ .releasing c) (hi' : s.callers i ≠ .givingUp) :
      s.notify i = none := by
    unfold notify
    split
    · next c h => exact absurd h (hi c)
    · next h => exact absurd h hi'
    · rfl
  cases hstep with
  | @wait i hi =>
    exact ⟨_, rfl, fun _ => hi, fun h => absurd (hi.symm.trans h) (by simp), Nat.le_add_right _ _, Or.inl,
      fun h => absurd hi h⟩
  | @lease i hi hready =>
    have hsilent : s.notify i = none := by
      rcases hi with hi | hi <;> exact hnone (by simp [hi]) (by simp [hi])
    have hw : RedisCaller.afterLease s.getConnection.1 ≠ .waiting := by
      cases s.getConnection.1 <;> simp [RedisCaller.afterLease]
    have hleft : (RedisCaller.afterLease s.getConnection.1).stepsLeft ι ≤ Fintype.card ι + 19 := by
      cases s.getConnection.1 <;> simp [RedisCaller.afterLease, RedisCaller.stepsLeft]
    refine ⟨_, rfl, fun h => absurd h hw, fun _ => ?_, ?_, Or.inl, fun hbusy => ?_⟩
    · change s.available = false ∨ s.getConnection.2.length < s.connPool.length
      cases havailable : s.available with
      | false => exact Or.inl rfl
      | true =>
        obtain ⟨c, rest, hpool⟩ := List.exists_cons_of_ne_nil (hready.resolve_left (by simp [havailable]))
        simp [getConnection, havailable, hpool]
    · change s.getConnection.2.length ≤ s.connPool.length + if s.notify i = some .one then 1 else 0
      rw [hsilent, if_neg (by simp), getConnection]
      split_ifs <;> simp
    · have hwaiting : s.callers i = .waiting := hi.resolve_left hbusy
      have hbefore : (s.callers i).stepsLeft ι = Fintype.card ι + 21 := by
        rw [hwaiting]
        rfl
      have hcost : (Mode.behind (s.notify i)).cost ι = 0 := by
        rw [hsilent]
        rfl
      change _ + (Mode.behind (s.notify i)).cost ι + 2 ≤ (s.callers i).stepsLeft ι
      omega
  | @release i c hi havailable =>
    refine ⟨_, rfl, by simp, fun h => absurd (hi.symm.trans h) (by simp), ?_, Or.inl, fun _ => ?_⟩
    · simp [Act.agent, notify, hi, havailable]
    · simp [Act.agent, notify, hi, havailable, RedisCaller.stepsLeft, Mode.behind]
  | @giveUp i hi =>
    refine ⟨_, rfl, by simp, fun h => absurd (hi.symm.trans h) (by simp), by simp, fun _ => Or.inr ?_, fun _ => ?_⟩
    · simp [Act.agent, notify, hi]
    · simp [Act.agent, notify, hi, RedisCaller.stepsLeft, Mode.behind]
  | @releaseLate i c hi havailable =>
    refine ⟨_, .of_same rfl (by simp) (by simp [Act.agent, hi]) rfl rfl ?_⟩
    simp [Act.agent, notify, hi, havailable, RedisCaller.stepsLeft, Mode.behind]
  | @reply i c hi | @noReply i c hi | @discard i c hi | @connectFails i hi | @connectError i hi
  | @connect i hi | @check i c k rest hi | @checkFails i c k rest hi | @checked i c hi | @reject i c hi =>
    refine ⟨_, .of_same rfl (by simp) (by simp [Act.agent, hi]) rfl rfl ?_⟩
    simp [Act.agent, notify, hi, RedisCaller.stepsLeft, Mode.behind] <;> omega

variable [Fintype ι]

theorem Effect.callers_self {i : ι} {w : RedisCaller} (h : Effect s i w s') : s'.callers i = w := by
  rw [h.callers, Function.update_self]

theorem guarded_lawful (cfg : RedisConfig) : (guarded cfg : Guarded (RedisPool ι) ι _).Lawful where
  others := by
    rintro s a n s' j ⟨hstep, -, -⟩ hj
    obtain ⟨w, heffect⟩ := hstep.effect
    have hj : j ≠ a.1.agent := hj
    change s'.callers j = .waiting ↔ s.callers j = .waiting
    rw [heffect.callers, Function.update_of_ne hj]
  arrives := by
    rintro s a n s' ⟨hstep, rfl, -⟩ hwaits
    obtain ⟨w, heffect⟩ := hstep.effect
    have hidle := heffect.arrives (heffect.callers_self.symm.trans hwaits)
    refine ⟨?_, fun hwaiting => ?_⟩
    · simp [notify, hidle]
    · cases hidle.symm.trans hwaiting
  leaves := by
    rintro s a n s' ⟨hstep, rfl, -⟩ hwaits
    obtain ⟨w, heffect⟩ := hstep.effect
    have hwaits : s.callers a.1.agent = .waiting := hwaits
    refine ⟨?_, heffect.leaves hwaits⟩
    simp [notify, hwaits]
  gives := by
    rintro s a n s' ⟨hstep, rfl, -⟩
    obtain ⟨w, heffect⟩ := hstep.effect
    exact heffect.gives
  closes := by
    rintro s a n s' ⟨hstep, rfl, -⟩ hclosed
    obtain ⟨w, heffect⟩ := hstep.effect
    exact heffect.closes hclosed

/-- What is left to all threads of their commands. -/
def work (s : RedisPool ι) : ℕ := ∑ i, (s.callers i).stepsLeft ι

theorem guarded_sinks (cfg : RedisConfig) : (guarded cfg : Guarded (RedisPool ι) ι _).Sinks work := by
  rintro s a n s' ⟨hstep, rfl, hfresh⟩ hstarts
  obtain ⟨w, heffect⟩ := hstep.effect
  have hsinks := heffect.sinks fun hidle => hstarts (hfresh.mpr hidle)
  have hsum := sum_update (w := RedisCaller.stepsLeft ι) s.callers a.1.agent w
  unfold work
  rw [heffect.callers]
  omega

omit [Fintype ι] in
/-- A thread in the middle of a command can go on. -/
theorem exists_step (cfg : RedisConfig) {i : ι} (hi : (s.callers i).HasSlot) : ∃ s', Step cfg s (.run i) s' := by
  obtain ⟨hidle, hwaiting⟩ := hi
  cases hcaller : s.callers i with
  | idle => exact absurd hcaller hidle
  | waiting => exact absurd hcaller hwaiting
  | leased c => exact ⟨_, .reply hcaller⟩
  | releasing c =>
    cases havailable : s.available with
    | true => exact ⟨_, .release hcaller havailable⟩
    | false => exact ⟨_, .releaseLate hcaller havailable⟩
  | discarding c => exact ⟨_, .discard hcaller⟩
  | connecting => exact ⟨_, .connectFails hcaller⟩
  | checking c checks =>
    cases checks with
    | nil => exact ⟨_, .checked hcaller⟩
    | cons k rest => exact ⟨_, .check hcaller⟩
  | rejecting c => exact ⟨_, .reject hcaller⟩
  | givingUp => exact ⟨_, .giveUp hcaller⟩

/-- The client behind `init`, before any command. -/
def watched (cfg : RedisConfig) : Monitor (RedisPool ι) ι := ⟨init cfg, fun _ => .running⟩

omit [DecidableEq ι] [Fintype ι] in
theorem init_callers (cfg : RedisConfig) (i : ι) : (init cfg : RedisPool ι).callers i = .idle := by
  obtain ⟨log, hstate, -⟩ := foldl_connect (ι := ι) cfg defaultRedisPoolSize
  unfold init
  rw [hstate]
  rfl

theorem watched_alert (cfg : RedisConfig) : (watched cfg : Monitor (RedisPool ι) ι).Alert (guarded cfg) where
  waits_iff i := by
    refine iff_of_false ?_ (by simp [watched])
    change (init cfg).callers i ≠ .waiting
    rw [init_callers]
    simp
  alert := Or.inl fun i => by simp [watched]

variable {m m' : Monitor (RedisPool ι) ι}

/-- A client where nothing is under way has no command left. -/
theorem idle_of_quiet (hs : m.state.Owned) (h : m.Quiet (guarded cfg)) (i : ι) : m.state.callers i = .idle := by
  have hrest (j : ι) : m.state.callers j = .idle ∨ m.state.callers j = .waiting := by
    by_contra hnot
    have hslot : (m.state.callers j).HasSlot := not_or.mp hnot
    obtain ⟨s', hstep⟩ := exists_step cfg hslot
    have hwaiting : m.state.callers j = .waiting :=
      h.idle (.run j, false) _ s' ⟨hstep, rfl, iff_of_false nofun hslot.1⟩ nofun
    exact hslot.2 hwaiting
  refine (hrest i).resolve_right fun hwaiting => h.unready i hwaiting ?_
  cases havailable : m.state.available with
  | false => exact Or.inl havailable
  | true =>
    have hnone : m.state.slots = 0 := census_eq_zero fun j hslot => by
      rcases hrest j with hj | hj
      · exact hslot.1 hj
      · exact hslot.2 hj
    have hall := hs.slots havailable
    rw [hnone] at hall
    refine Or.inr ?_
    change 0 < m.state.connPool.length
    rw [← Nat.add_zero m.state.connPool.length, hall]
    decide

/-- **No command on the cache hangs.** While a thread sleeps although there is a context, or the
client has given up, another has looked up or is about to notify. Without new commands a run is
bounded, and where it can go no further every command has returned. -/
theorem commands_end (cfg : RedisConfig) (hrun : Reaches (Monitor.Step (guarded cfg)) (watched cfg) m) :
    Reaches (Step cfg) (init cfg) m.state ∧
    (∀ j, m.mode j = .asleep → m.state.available = false ∨ m.state.connPool ≠ [] →
      ∃ i, m.mode i = .looking ∨ ∃ n, m.mode i = .notifying n) ∧
    (∀ ls m', Path (Monitor.Step (guarded cfg)) m ls m' → (∀ l ∈ ls, l.Working (guarded cfg)) →
      ls.length ≤ m.effort work) ∧
    ((∀ l m', Monitor.Step (guarded cfg) m l m' → ¬ l.Working (guarded cfg)) →
      ∀ i, m.state.callers i = .idle) := by
  have halert := Monitor.alert_of_reaches (guarded_lawful cfg) hrun (watched_alert cfg)
  have hreaches : Reaches (Step cfg) (init cfg) m.state :=
    Monitor.state_invariant (I := Reaches (Step cfg) (init cfg)) hrun
      (fun s a n s' h hstep => h.snoc hstep.1 trivial) .refl
  have hs : m.state.Owned := Reaches.invariant (I := Owned) hreaches (fun _ _ _ => Owned.step) (.init cfg)
  refine ⟨hreaches, fun j hj hready => ?_, fun ls m' hpath hworking => ?_, fun hstuck => ?_⟩
  · refine halert.exists_awake ?_ hj
    exact hready.imp_right List.length_pos_of_ne_nil
  · have hle := Monitor.length_le_effort (μ := work) (guarded_sinks cfg) hpath hworking
    omega
  · refine idle_of_quiet hs (halert.quiet (guarded_lawful cfg) (fun i hwaits hready => ?_) hstuck)
    have hwaits : m.state.callers i = .waiting := hwaits
    refine ⟨(.lease i m.state.getConnection.1, false), _, _, ⟨.lease (Or.inr hwaits) ?_, rfl, ?_⟩, rfl, nofun⟩
    · exact hready.imp_right List.ne_nil_of_length_pos
    · refine iff_of_false nofun ?_
      change m.state.callers i ≠ .idle
      rw [hwaits]
      simp

/-- One thread has used a context and put it back. -/
theorem released_ends : ∃ m : Monitor (RedisPool Unit) Unit, m.mode () = .notifying .one ∧
    ∀ ls m', Path (Monitor.Step (guarded ⟨false, []⟩)) m ls m' →
      (∀ l ∈ ls, l.Working (guarded ⟨false, []⟩)) → ls.length ≤ 2 := by
  have hstart : Reaches (Monitor.Step (guarded ⟨false, []⟩))
      (watched ⟨false, []⟩ : Monitor (RedisPool Unit) Unit) (watched ⟨false, []⟩) := .refl
  have hleased := hstart.snoc (.run (a := (.lease () (some 0), true)) (b := firstLease ⟨false, []⟩)
    ⟨.lease (Or.inl rfl) (Or.inr (by decide)), rfl, iff_of_true rfl rfl⟩ (Or.inl rfl) nofun) trivial
  have hreplied := hleased.snoc (.run (a := (.run (), false)) ⟨.reply rfl, rfl, iff_of_false nofun nofun⟩
    (Or.inl rfl) nofun) trivial
  have hreleased := hreplied.snoc (.run (a := (.run (), false)) ⟨.release rfl rfl, rfl, iff_of_false nofun nofun⟩
    (Or.inl rfl) nofun) trivial
  exact ⟨_, rfl, (commands_end ⟨false, []⟩ hreleased).2.2.1⟩

end RedisPool

/-- The threads that share the logger. -/
inductive LogThread (C : Type) where
  | client (c : C)
  | worker
  -- the thread that runs the destructor
  | destructor
  deriving DecidableEq, Fintype

inductive LogMove (C : Type) where
  | log (c : C) (time : Bytes) (level : LogLevel) (message : Bytes)
  | worker
  | stop
  | join

namespace LogMove

variable {C : Type}

def agent : LogMove C → LogThread C
  | .log c .. => .client c
  | .worker => .worker
  | .stop | .join => .destructor

def act : LogMove C → Logger.Act
  | .log _ time level message => .log time level message
  | .worker => .worker
  | .stop | .join => .destructor

/-- The notification behind a step. -/
def notify : LogMove C → Option Notify
  | .log .. => some .one
  | .stop => some .all
  | .worker | .join => none

end LogMove

namespace Logger

variable {C : Type} {s s' : Logger} {a : LogMove C}

/-- Calls of `log` and the destructor's begin from outside. -/
def guarded (C : Type) : Guarded Logger (LogThread C) (LogMove C) where
  step s a n s' := Step s a.act s' ∧ n = a.notify ∧ (a = .stop → s.teardown = .alive) ∧
    (a = .join → s.teardown ≠ .alive)
  agent := LogMove.agent
  starts a := a ≠ .worker ∧ a ≠ .join
  waits s i := i = .worker ∧ s.worker = .waiting
  stock s := s.logQueue.length
  closed s := s.running = false

def work (s : Logger) : ℕ :=
  8 * s.logQueue.length +
    (match s.worker with
    | .waiting => 2
    | .printing lines => 2 * lines.length + 6
    | .exited => 0) +
    match s.teardown with
    | .joining _ => 2
    | .alive | .destroyed _ => 0

theorem guarded_lawful (C : Type) : (guarded C).Lawful where
  others := by
    rintro s a n s' j ⟨hstep, -, -, -⟩ hj
    refine and_congr_right fun hworker => ?_
    subst hworker
    cases a with
    | worker => exact absurd rfl hj
    | log | stop | join =>
      cases hstep
      all_goals exact Iff.rfl
  arrives := by
    rintro s a n s' ⟨hstep, rfl, -, -⟩ ⟨hagent, hwaits⟩
    cases a with
    | log | stop | join => cases hagent
    | worker =>
      refine ⟨rfl, fun hbefore => ?_⟩
      have hbefore : s.worker = .waiting := hbefore.2
      cases hstep with
      | exit => cases hwaits
      | splice => cases hwaits
      | print => cases hwaits
      | next hworker => cases hworker.symm.trans hbefore
  leaves := by
    rintro s a n s' ⟨hstep, rfl, -, -⟩ ⟨hagent, hwaits⟩
    cases a with
    | log | stop | join => cases hagent
    | worker =>
      refine ⟨rfl, ?_⟩
      cases hstep with
      | exit hworker hrunning => exact Or.inl hrunning
      | splice hworker hqueue => exact Or.inr (List.length_pos_of_ne_nil hqueue)
      | print hworker | next hworker => cases hworker.symm.trans hwaits
  gives := by
    rintro s a n s' ⟨hstep, rfl, -, -⟩
    cases a with
    | log c time level message =>
      cases hstep
      simp [guarded, LogMove.notify]
    | worker | stop | join =>
      cases hstep
      all_goals simp [guarded, LogMove.notify]
  closes := by
    rintro s a n s' ⟨hstep, rfl, -, hjoin⟩ hclosed
    cases a with
    | stop => exact Or.inr rfl
    | log | worker =>
      cases hstep
      all_goals exact Or.inl hclosed
    | join =>
      cases hstep with
      | stop halive => exact absurd halive (hjoin rfl)
      | join => exact Or.inl hclosed

variable [Fintype C]

theorem guarded_sinks : (guarded C).Sinks work := by
  rintro s a n s' ⟨hstep, rfl, -, hjoin⟩ hstarts
  cases a with
  | log | stop => exact absurd ⟨nofun, nofun⟩ hstarts
  | worker =>
    change work s' + 0 + 2 ≤ work s
    cases hstep with
    | exit hworker | next hworker =>
      simp only [work, hworker, List.length_nil]
      omega
    | splice hworker hqueue =>
      have hpos := List.length_pos_of_ne_nil hqueue
      simp only [work, hworker, List.length_nil]
      omega
    | print hworker =>
      simp only [work, hworker, List.length_cons]
      omega
  | join =>
    change work s' + 0 + 2 ≤ work s
    cases hstep with
    | stop halive => exact absurd halive (hjoin rfl)
    | join hteardown hworker =>
      simp only [work, hteardown]
      omega

/-- The logger behind its constructor. -/
def watched (C : Type) : Monitor Logger (LogThread C) where
  state := new
  mode
    | .worker => .looking
    | .client _ | .destructor => .running

theorem watched_alert : (watched C).Alert (guarded C) where
  waits_iff i := by
    cases i with
    | worker => exact iff_of_true ⟨rfl, rfl⟩ (Or.inl rfl)
    | client | destructor => exact iff_of_false (fun h => by cases h.1) (by simp [watched])
  alert := Or.inl fun i => by cases i <;> simp [watched]

/-- The destructor begins by stopping the logger. -/
theorem not_running_step {s s' : Logger} {a : Act} (hs : s.teardown ≠ .alive → s.running = false)
    (hstep : Step s a s') : s'.teardown ≠ .alive → s'.running = false := by
  cases hstep with
  | stop => exact fun _ => rfl
  | join hteardown => exact fun _ => hs (by simp [hteardown])
  | log | exit | splice | print | next => exact hs

variable {m m' : Monitor Logger (LogThread C)} [DecidableEq C]

omit [Fintype C] [DecidableEq C] in
/-- Where nothing is under way, the worker has printed everything and sleeps, or the destructor has
returned. -/
theorem settled_of_quiet (hs : m.state.Orderly)
    (hstops : m.state.teardown ≠ .alive → m.state.running = false) (h : m.Quiet (guarded C)) :
    (m.state.running = true ∧ m.state.teardown = .alive ∧ m.state.printed = m.state.enqueued) ∨
      ∃ before, m.state.teardown = .destroyed before ∧ before <+: m.state.printed := by
  have hbusy {s' : Logger} (hstep : Step m.state .worker s') : m.state.worker = .waiting :=
    (h.idle .worker none s' ⟨hstep, rfl, nofun, nofun⟩ fun h => h.1 rfl).2
  have hjoined {before : List Bytes} (hteardown : m.state.teardown = .joining before) :
      m.state.worker ≠ .exited := by
    intro hworker
    have hwaits := h.idle .join none _ ⟨.join hteardown hworker, rfl, nofun, fun _ => by simp [hteardown]⟩
      fun h => h.2 rfl
    cases hwaits.1
  cases hworker : m.state.worker with
  | printing lines =>
    cases lines with
    | nil => cases hworker.symm.trans (hbusy (.next hworker))
    | cons line rest => cases hworker.symm.trans (hbusy (.print hworker))
  | waiting =>
    have hready := h.unready .worker ⟨rfl, hworker⟩
    obtain ⟨hopen, hempty⟩ := not_or.mp hready
    have hrunning : m.state.running = true := Bool.not_eq_false _ ▸ hopen
    have hqueue : m.state.logQueue = [] := List.eq_nil_of_length_eq_zero (Nat.eq_zero_of_not_pos hempty)
    refine Or.inl ⟨hrunning, ?_, ?_⟩
    · by_contra halive
      cases hrunning.symm.trans (hstops halive)
    · rw [← hs.order, hqueue]
      simp [pending, hworker]
  | exited =>
    have hended := hs.stopped (hs.exited hworker)
    cases hteardown : m.state.teardown with
    | alive => exact absurd hteardown hended
    | joining before => exact absurd hworker (hjoined hteardown)
    | destroyed before =>
      have hflushed := hs.flushed hworker
      rw [hteardown] at hflushed
      exact Or.inr ⟨before, rfl, hflushed⟩

/-- **Every line gets printed.** While the worker sleeps although there is a line, or the logger is
stopped, a notification is on its way. Without new calls a run is bounded, and where it can go no
further everything is printed, or the destructor has returned behind all that came before it. -/
theorem lines_printed (hrun : Reaches (Monitor.Step (guarded C)) (watched C) m) :
    Reaches Step new m.state ∧
    (∀ j, m.mode j = .asleep → m.state.running = false ∨ m.state.logQueue ≠ [] →
      ∃ i, m.mode i = .looking ∨ ∃ n, m.mode i = .notifying n) ∧
    (∀ ls m', Path (Monitor.Step (guarded C)) m ls m' → (∀ l ∈ ls, l.Working (guarded C)) →
      ls.length ≤ m.effort work) ∧
    ((∀ l m', Monitor.Step (guarded C) m l m' → ¬ l.Working (guarded C)) →
      (m.state.running = true ∧ m.state.teardown = .alive ∧ m.state.printed = m.state.enqueued) ∨
        ∃ before, m.state.teardown = .destroyed before ∧ before <+: m.state.printed) := by
  have halert := Monitor.alert_of_reaches (guarded_lawful C) hrun watched_alert
  have hreaches : Reaches Step new m.state :=
    Monitor.state_invariant (I := Reaches Step new) hrun (fun s a n s' h hstep => h.snoc hstep.1 trivial) .refl
  have hs : m.state.Orderly := Reaches.invariant (I := Orderly) hreaches (fun _ _ _ => Orderly.step) .new
  have hstops : m.state.teardown ≠ .alive → m.state.running = false :=
    Reaches.invariant (I := fun s => s.teardown ≠ .alive → s.running = false) hreaches
      (fun _ _ _ => not_running_step) fun h => absurd rfl h
  refine ⟨hreaches, fun j hj hready => ?_, fun ls m' hpath hworking => ?_, fun hstuck => ?_⟩
  · exact halert.exists_awake (hready.imp_right List.length_pos_of_ne_nil) hj
  · have hle := Monitor.length_le_effort (μ := work) guarded_sinks hpath hworking
    omega
  · refine settled_of_quiet hs hstops (halert.quiet (guarded_lawful C) (fun i hwaits hready => ?_) hstuck)
    obtain ⟨rfl, hworker⟩ := hwaits
    have hstep : ∃ s', Step m.state .worker s' := by
      by_cases hqueue : m.state.logQueue = []
      · refine ⟨_, .exit hworker (hready.resolve_right ?_) hqueue⟩
        rw [Nat.not_lt, Nat.le_zero]
        exact congrArg List.length hqueue
      · exact ⟨_, .splice hworker hqueue⟩
    obtain ⟨s', hstep⟩ := hstep
    exact ⟨.worker, none, s', ⟨hstep, rfl, nofun, nofun⟩, rfl, fun h => h.1 rfl⟩

/-- One line is enqueued while the worker sleeps. -/
theorem startLine_printed : ∃ m : Monitor Logger (LogThread Unit), m.state = logged ∧
    m.mode .worker = .asleep ∧ ∃ i, m.mode i = .looking ∨ ∃ n, m.mode i = .notifying n := by
  have hstart : Reaches (Monitor.Step (guarded Unit)) (watched Unit) (watched Unit) := .refl
  have hasleep := hstart.snoc (.sleep (i := .worker) rfl (by simp [Guarded.Ready, guarded, watched, new])) trivial
  have hlogged := hasleep.snoc (.run (a := .log () (ascii "2024-05-01 12:00:00") .info (ascii "start"))
    ⟨.log .., rfl, nofun, nofun⟩ (Or.inl rfl) fun h => by cases h.1) trivial
  exact ⟨_, rfl, rfl, (lines_printed hlogged).2.1 .worker rfl (Or.inr nofun)⟩

end Logger
end Runtime
end ResourceServer

import Mathlib.Data.List.Count
import ResourceServer.Foundation.CString
import ResourceServer.Foundation.Census
import ResourceServer.Foundation.Program

/-!
# Redis connection pool

`RedisClient` behind its mutex, and the threads in `get`, `set` and `del`, which use their
context alike. A command without a reply has its context freed and replaced outside the
lock; if that fails, the client gives up and frees the whole pool. The log records what
happens to each context.
-/

namespace ResourceServer
namespace Runtime

open CString

def defaultRedisPoolSize : ℕ := 10

/-- How `create_connection` validates a new context. -/
inductive Check where
  | tls | auth | ping
  deriving DecidableEq, Repr

structure RedisConfig where
  useTls : Bool
  password : Bytes

def RedisConfig.checks (cfg : RedisConfig) : List Check :=
  (if cfg.useTls then [.tls] else []) ++ (if cfg.password ≠ [] then [.auth] else []) ++ [.ping]

/-- Contexts are named in the order in which `redisConnect` opened them. -/
inductive ContextEvent where
  | opened (context : ℕ)
  | used (context : ℕ)
  | freed (context : ℕ)
  deriving DecidableEq, Repr

/-- Where a thread stands in a command. -/
inductive RedisCaller where
  | idle
  -- in `cv_.wait`
  | waiting
  | leased (context : ℕ)
  -- before `release_connection`
  | releasing (context : ℕ)
  -- in `discard_connection`, before `redisFree`
  | discarding (context : ℕ)
  -- in `create_connection`, before `redisConnect`
  | connecting
  | checking (context : ℕ) (checks : List Check)
  -- in `create_connection`, before the `redisFree` of the new context
  | rejecting (context : ℕ)
  -- no replacement; before `available_ = false`
  | givingUp
  deriving DecidableEq, Repr

namespace RedisCaller

/-- Where a thread goes on behind `get_connection`. -/
def afterLease : Option ℕ → RedisCaller
  | none => .idle
  | some c => .leased c

/-- The context a thread has in its hands. -/
def context : RedisCaller → Option ℕ
  | .leased c | .releasing c | .discarding c | .checking c _ | .rejecting c => some c
  | .idle | .waiting | .connecting | .givingUp => none

/-- The thread has a context, or is replacing one. -/
def HasSlot (c : RedisCaller) : Prop := c ≠ .idle ∧ c ≠ .waiting

instance : DecidablePred HasSlot := fun c => inferInstanceAs (Decidable (c ≠ .idle ∧ c ≠ .waiting))

@[simp] theorem context_afterLease (result : Option ℕ) : (afterLease result).context = result := by
  cases result <;> rfl

@[simp] theorem hasSlot_afterLease (result : Option ℕ) :
    (afterLease result).HasSlot ↔ result.isSome = true := by
  cases result <;> simp [afterLease, HasSlot]

end RedisCaller

structure RedisPool (ι : Type) where
  available : Bool
  connPool : List ℕ
  opened : ℕ
  log : List ContextEvent
  callers : ι → RedisCaller

namespace RedisPool

variable {ι : Type}

def new : RedisPool ι where
  available := false
  connPool := []
  opened := 0
  log := []
  callers _ := .idle

/-- One round of the loop of `init`, with a `create_connection` that succeeds. -/
def connect (cfg : RedisConfig) (s : RedisPool ι) (context : ℕ) : RedisPool ι :=
  { s with
    connPool := s.connPool ++ [context]
    opened := s.opened + 1
    log := s.log ++ .opened context :: cfg.checks.map fun _ => .used context }

/-- A successful `init`. -/
def init (cfg : RedisConfig) : RedisPool ι :=
  { (List.range defaultRedisPoolSize).foldl (connect cfg) new with available := true }

variable [DecidableEq ι]

def move (s : RedisPool ι) (i : ι) (c : RedisCaller) : RedisPool ι :=
  { s with callers := Function.update s.callers i c }

@[simp] theorem move_connPool (s : RedisPool ι) (i : ι) (c : RedisCaller) :
    (s.move i c).connPool = s.connPool := rfl

@[simp] theorem move_opened (s : RedisPool ι) (i : ι) (c : RedisCaller) :
    (s.move i c).opened = s.opened := rfl

@[simp] theorem move_log (s : RedisPool ι) (i : ι) (c : RedisCaller) : (s.move i c).log = s.log := rfl

/-- What `get_connection` returns under the lock, with the pool it leaves. -/
def getConnection (s : RedisPool ι) : Option ℕ × List ℕ :=
  if s.available then (s.connPool.head?, s.connPool.tail) else (none, s.connPool)

/-- The thread of a step, and what its `get_connection` returned if it did. -/
inductive Act (ι : Type) where
  | lease (i : ι) (result : Option ℕ)
  | run (i : ι)
  deriving DecidableEq, Repr

inductive Step (cfg : RedisConfig) : RedisPool ι → Act ι → RedisPool ι → Prop where
  | wait {s : RedisPool ι} {i : ι} (hi : s.callers i = .idle) (havailable : s.available = true)
      (hpool : s.connPool = []) : Step cfg s (.run i) (s.move i .waiting)
  -- the predicate of the wait holds, at once or behind a notification
  | lease {s : RedisPool ι} {i : ι} (hi : s.callers i = .idle ∨ s.callers i = .waiting)
      (hready : s.available = false ∨ s.connPool ≠ []) :
      Step cfg s (.lease i s.getConnection.1)
        { s.move i (RedisCaller.afterLease s.getConnection.1) with connPool := s.getConnection.2 }
  | reply {s : RedisPool ι} {i : ι} {c : ℕ} (hi : s.callers i = .leased c) :
      Step cfg s (.run i) { s.move i (.releasing c) with log := s.log ++ [.used c] }
  | noReply {s : RedisPool ι} {i : ι} {c : ℕ} (hi : s.callers i = .leased c) :
      Step cfg s (.run i) { s.move i (.discarding c) with log := s.log ++ [.used c] }
  | release {s : RedisPool ι} {i : ι} {c : ℕ} (hi : s.callers i = .releasing c)
      (havailable : s.available = true) :
      Step cfg s (.run i) { s.move i .idle with connPool := s.connPool ++ [c] }
  | releaseLate {s : RedisPool ι} {i : ι} {c : ℕ} (hi : s.callers i = .releasing c)
      (havailable : s.available = false) :
      Step cfg s (.run i) { s.move i .idle with log := s.log ++ [.freed c] }
  | discard {s : RedisPool ι} {i : ι} {c : ℕ} (hi : s.callers i = .discarding c) :
      Step cfg s (.run i) { s.move i .connecting with log := s.log ++ [.freed c] }
  -- no context could be allocated
  | connectFails {s : RedisPool ι} {i : ι} (hi : s.callers i = .connecting) :
      Step cfg s (.run i) (s.move i .givingUp)
  | connectError {s : RedisPool ι} {i : ι} (hi : s.callers i = .connecting) :
      Step cfg s (.run i) { s.move i (.rejecting s.opened) with
        opened := s.opened + 1, log := s.log ++ [.opened s.opened] }
  | connect {s : RedisPool ι} {i : ι} (hi : s.callers i = .connecting) :
      Step cfg s (.run i) { s.move i (.checking s.opened cfg.checks) with
        opened := s.opened + 1, log := s.log ++ [.opened s.opened] }
  | check {s : RedisPool ι} {i : ι} {c : ℕ} {k : Check} {rest : List Check}
      (hi : s.callers i = .checking c (k :: rest)) :
      Step cfg s (.run i) { s.move i (.checking c rest) with log := s.log ++ [.used c] }
  | checkFails {s : RedisPool ι} {i : ι} {c : ℕ} {k : Check} {rest : List Check}
      (hi : s.callers i = .checking c (k :: rest)) :
      Step cfg s (.run i) { s.move i (.rejecting c) with log := s.log ++ [.used c] }
  | checked {s : RedisPool ι} {i : ι} {c : ℕ} (hi : s.callers i = .checking c []) :
      Step cfg s (.run i) (s.move i (.releasing c))
  | reject {s : RedisPool ι} {i : ι} {c : ℕ} (hi : s.callers i = .rejecting c) :
      Step cfg s (.run i) { s.move i .givingUp with log := s.log ++ [.freed c] }
  -- `clear_pool`
  | giveUp {s : RedisPool ι} {i : ι} (hi : s.callers i = .givingUp) :
      Step cfg s (.run i) { s.move i .idle with
        available := false, connPool := [], log := s.log ++ s.connPool.map .freed }

/-- No context is used behind its `redisFree`. -/
def WellUsed (log : List ContextEvent) : Prop :=
  Prog.Along (fun before e => ∀ c, e = .used c → .freed c ∉ before) log

variable [Fintype ι]

/-- The threads that have `c` in their hands. -/
def holders (s : RedisPool ι) (c : ℕ) : ℕ := census (·.context = some c) s.callers

/-- The contexts and replacements in the hands of threads. -/
def slots (s : RedisPool ι) : ℕ := census RedisCaller.HasSlot s.callers

structure Owned (s : RedisPool ι) : Prop where
  placed : ∀ c, s.connPool.count c + s.holders c + s.log.count (.freed c) =
    (List.range s.opened).count c
  wellUsed : WellUsed s.log
  slots : s.available = true → s.connPool.length + s.slots = defaultRedisPoolSize
  drained : s.available = false → s.connPool = []

omit [DecidableEq ι] in
theorem Owned.freed_notMem {s : RedisPool ι} (hs : s.Owned) {i : ι} {c : ℕ}
    (hi : (s.callers i).context = some c) : .freed c ∉ s.log := by
  intro hmem
  have hfreed := List.count_pos_iff.mpr hmem
  have hholds : 0 < s.holders c := census_pos_iff.mpr ⟨i, hi⟩
  have hone := List.nodup_iff_count_le_one.mp (List.nodup_range (n := s.opened)) c
  have := hs.placed c
  omega

omit [DecidableEq ι] [Fintype ι] in
theorem WellUsed.snoc {log : List ContextEvent} (h : WellUsed log) {e : ContextEvent}
    (he : ∀ c, e = .used c → .freed c ∉ log) : WellUsed (log ++ [e]) :=
  Prog.along_snoc.mpr ⟨h, he⟩

omit [DecidableEq ι] [Fintype ι] in
theorem WellUsed.append_freed {log : List ContextEvent} (h : WellUsed log) (contexts : List ℕ) :
    WellUsed (log ++ contexts.map .freed) := by
  induction contexts generalizing log with
  | nil => simpa using h
  | cons c contexts ih =>
    rw [List.map_cons, List.append_cons]
    exact ih (h.snoc nofun)

omit [DecidableEq ι] [Fintype ι] in
theorem WellUsed.append_used {log : List ContextEvent} (h : WellUsed log) {c : ℕ} (hc : .freed c ∉ log)
    (checks : List Check) : WellUsed (log ++ checks.map fun _ => .used c) := by
  induction checks generalizing log with
  | nil => simpa using h
  | cons k checks ih =>
    rw [List.map_cons, List.append_cons]
    refine ih (h.snoc ?_) (by simpa using hc)
    rintro _ ⟨⟩
    exact hc

/-- What a step has to keep when thread `i` moves to `w`. -/
theorem Owned.move {s s' : RedisPool ι} {i : ι} {w : RedisCaller} (hs : s.Owned)
    (hcallers : s'.callers = Function.update s.callers i w)
    (hplaced : ∀ c, s'.connPool.count c + (if w.context = some c then 1 else 0) +
        s'.log.count (.freed c) + (List.range s.opened).count c =
      s.connPool.count c + (if (s.callers i).context = some c then 1 else 0) +
        s.log.count (.freed c) + (List.range s'.opened).count c)
    (hused : WellUsed s'.log)
    (hslots : s'.available = true → s.available = true ∧
      s'.connPool.length + (if w.HasSlot then 1 else 0) =
        s.connPool.length + (if (s.callers i).HasSlot then 1 else 0))
    (hdrained : s'.available = false → s'.connPool = []) : s'.Owned := by
  refine ⟨fun c => ?_, hused, fun havailable => ?_, hdrained⟩
  · have hholders := census_update (p := (·.context = some c)) s.callers i w
    have hbefore := hs.placed c
    have hafter := hplaced c
    unfold holders at hbefore ⊢
    rw [hcallers]
    omega
  · obtain ⟨hbefore, hafter⟩ := hslots havailable
    have hslots := census_update (p := RedisCaller.HasSlot) s.callers i w
    have htotal := hs.slots hbefore
    unfold RedisPool.slots at htotal ⊢
    rw [hcallers]
    omega

theorem Owned.step {cfg : RedisConfig} {s s' : RedisPool ι} {a : Act ι} (hs : s.Owned)
    (hstep : Step cfg s a s') : s'.Owned := by
  have huse {i : ι} {c : ℕ} (hi : (s.callers i).context = some c) : WellUsed (s.log ++ [.used c]) := by
    apply hs.wellUsed.snoc
    rintro _ ⟨⟩
    exact hs.freed_notMem hi
  cases hstep with
  | wait hi havailable hpool =>
    refine hs.move rfl (fun c => ?_) hs.wellUsed (fun h => ⟨h, ?_⟩) hs.drained
    · simp [hi, RedisCaller.context]
    · simp [hi, RedisCaller.HasSlot]
  | @lease i hi hready =>
    have hcontext : (s.callers i).context = none := by rcases hi with hi | hi <;> rw [hi] <;> rfl
    have hslot : ¬ (s.callers i).HasSlot := by rcases hi with hi | hi <;> simp [hi, RedisCaller.HasSlot]
    cases havailable : s.available with
    | false =>
      have hlease : s.getConnection = (none, s.connPool) := by simp [getConnection, havailable]
      rw [hlease]
      refine hs.move rfl (fun c => ?_) hs.wellUsed (fun h => ⟨h, ?_⟩) hs.drained
      · simp [hcontext]
      · simp [hslot]
    | true =>
      have hne : s.connPool ≠ [] := hready.resolve_left (by simp [havailable])
      obtain ⟨context, rest, hpool⟩ := List.exists_cons_of_ne_nil hne
      have hlease : s.getConnection = (some context, rest) := by
        simp [getConnection, havailable, hpool]
      rw [hlease]
      refine hs.move rfl (fun c => ?_) hs.wellUsed (fun h => ⟨h, ?_⟩) fun h => ?_
      · simp [hcontext, hpool, List.count_cons]
      · simp [hslot, hpool]
      · exact absurd (havailable.symm.trans h) nofun
  | reply hi | noReply hi =>
    refine hs.move rfl (fun c => ?_) (huse (by rw [hi]; rfl)) (fun h => ⟨h, ?_⟩) hs.drained
    · simp [hi, RedisCaller.context]
    · simp [hi, RedisCaller.HasSlot]
  | release hi havailable =>
    refine hs.move rfl (fun c => ?_) hs.wellUsed (fun h => ⟨h, ?_⟩) fun h => ?_
    · simp [hi, RedisCaller.context, List.count_singleton]
    · simp [hi, RedisCaller.HasSlot]
    · exact absurd (havailable.symm.trans h) nofun
  | releaseLate hi havailable =>
    refine hs.move rfl (fun c => ?_) (hs.wellUsed.snoc nofun) (fun h => ?_) hs.drained
    · simp [hi, RedisCaller.context, List.count_singleton]
      omega
    · exact absurd (havailable.symm.trans h) nofun
  | discard hi =>
    refine hs.move rfl (fun c => ?_) (hs.wellUsed.snoc nofun) (fun h => ⟨h, ?_⟩) hs.drained
    · simp [hi, RedisCaller.context, List.count_singleton]
      omega
    · simp [hi, RedisCaller.HasSlot]
  | connectFails hi =>
    refine hs.move rfl (fun c => ?_) hs.wellUsed (fun h => ⟨h, ?_⟩) hs.drained
    · simp [hi, RedisCaller.context]
    · simp [hi, RedisCaller.HasSlot]
  | connectError hi | connect hi =>
    refine hs.move rfl (fun c => ?_) (hs.wellUsed.snoc nofun) (fun h => ⟨h, ?_⟩) hs.drained
    · simp [hi, RedisCaller.context, List.range_succ, List.count_singleton]
      omega
    · simp [hi, RedisCaller.HasSlot]
  | check hi | checkFails hi =>
    refine hs.move rfl (fun c => ?_) (huse (by rw [hi]; rfl)) (fun h => ⟨h, ?_⟩) hs.drained
    · simp [hi, RedisCaller.context]
    · simp [hi, RedisCaller.HasSlot]
  | checked hi =>
    refine hs.move rfl (fun c => ?_) hs.wellUsed (fun h => ⟨h, ?_⟩) hs.drained
    · simp [hi, RedisCaller.context]
    · simp [hi, RedisCaller.HasSlot]
  | reject hi =>
    refine hs.move rfl (fun c => ?_) (hs.wellUsed.snoc nofun) (fun h => ⟨h, ?_⟩) hs.drained
    · simp [hi, RedisCaller.context, List.count_singleton]
      omega
    · simp [hi, RedisCaller.HasSlot]
  | giveUp hi =>
    refine hs.move rfl (fun c => ?_) (hs.wellUsed.append_freed s.connPool) nofun fun _ => rfl
    have hfreed : (s.connPool.map ContextEvent.freed).count (.freed c) = s.connPool.count c :=
      List.count_map_of_injective _ _ (fun _ _ h => ContextEvent.freed.inj h) c
    simp [hi, RedisCaller.context, hfreed]
    omega

omit [DecidableEq ι] [Fintype ι] in
theorem foldl_connect (cfg : RedisConfig) (n : ℕ) :
    ∃ log, (List.range n).foldl (connect cfg) (new : RedisPool ι) =
        { new with connPool := List.range n, opened := n, log := log } ∧
      WellUsed log ∧ ∀ c, .freed c ∉ log := by
  induction n with
  | zero => exact ⟨[], rfl, Prog.along_nil _, by simp⟩
  | succ n ih =>
    obtain ⟨log, hstate, hused, hfreed⟩ := ih
    refine ⟨log ++ .opened n :: cfg.checks.map fun _ => .used n, ?_, ?_, fun c => ?_⟩
    · rw [List.range_succ, List.foldl_append, hstate]
      rfl
    · have hopened : WellUsed (log ++ [.opened n]) := hused.snoc nofun
      rw [List.append_cons]
      exact hopened.append_used (by simp [hfreed n]) _
    · simp [hfreed c]

omit [DecidableEq ι] in
theorem Owned.init (cfg : RedisConfig) : (init cfg : RedisPool ι).Owned := by
  obtain ⟨log, hstate, hused, hfreed⟩ := foldl_connect (ι := ι) cfg defaultRedisPoolSize
  unfold RedisPool.init
  rw [hstate]
  have hidle (c : ℕ) : census (·.context = some c) (fun _ : ι => RedisCaller.idle) = 0 :=
    census_eq_zero fun _ => nofun
  have hslots : census RedisCaller.HasSlot (fun _ : ι => RedisCaller.idle) = 0 :=
    census_eq_zero fun _ h => h.1 rfl
  refine ⟨fun c => ?_, hused, fun _ => ?_, nofun⟩
  · change (List.range _).count c + census (·.context = some c) (fun _ : ι => RedisCaller.idle) +
      log.count (.freed c) = _
    rw [hidle, List.count_eq_zero.mpr (hfreed c)]
    rfl
  · change (List.range _).length + census RedisCaller.HasSlot (fun _ : ι => RedisCaller.idle) = _
    rw [hslots, List.length_range]
    rfl

omit [Fintype ι] in
/-- A client that has given up stays so, and leases nothing. -/
theorem Step.unavailable {cfg : RedisConfig} {s s' : RedisPool ι} {a : Act ι}
    (hstep : Step cfg s a s') (havailable : s.available = false) :
    s'.available = false ∧ ∀ i result, a = .lease i result → result = none := by
  cases hstep with
  | lease hi hready =>
    refine ⟨havailable, ?_⟩
    rintro i result ⟨⟩
    simp [getConnection, havailable]
  | giveUp hi => exact ⟨rfl, nofun⟩
  | _ => exact ⟨havailable, nofun⟩

/-- **Ownership.** Every context opened is in the pool, in the hands of one thread or freed,
and in one of these places only; none is used behind its `redisFree`; an available client
has all its slots; one that has given up keeps an empty pool and leases nothing. -/
theorem contexts_owned (cfg : RedisConfig) (s : RedisPool ι) (hrun : Reaches (Step cfg) (init cfg) s) :
    (∀ c < s.opened, s.connPool.count c + s.holders c + s.log.count (.freed c) = 1) ∧
    WellUsed s.log ∧
    (s.available = true → s.connPool.length + s.slots = defaultRedisPoolSize) ∧
    (s.available = false → ∀ s', Reaches (Step cfg) s s' →
      s'.available = false ∧ s'.connPool = [] ∧
        ∀ i result s'', Step cfg s' (.lease i result) s'' → result = none) := by
  have hs : s.Owned := Reaches.invariant (I := Owned) hrun (fun _ _ _ => Owned.step) (.init cfg)
  refine ⟨fun c hc => ?_, hs.wellUsed, hs.slots, fun havailable s' hrun' => ?_⟩
  · rw [hs.placed]
    exact List.count_eq_one_of_mem List.nodup_range (List.mem_range.mpr hc)
  · have hs' : s'.Owned ∧ s'.available = false :=
      Reaches.invariant (I := fun s => s.Owned ∧ s.available = false) hrun'
        (fun _ _ _ h hstep => ⟨h.1.step hstep, (hstep.unavailable h.2).1⟩) ⟨hs, havailable⟩
    refine ⟨hs'.2, hs'.1.drained hs'.2, fun i result s'' hstep => ?_⟩
    exact (hstep.unavailable hs'.2).2 i result rfl

/-- The only thread has leased the first context. -/
def firstLease (cfg : RedisConfig) : RedisPool Unit :=
  { (init cfg).move () (.leased 0) with connPool := (List.range defaultRedisPoolSize).tail }

theorem firstLease_owned : (firstLease ⟨false, []⟩).connPool.length +
    (firstLease ⟨false, []⟩).slots = defaultRedisPoolSize := by
  have hlease : Step ⟨false, []⟩ (init ⟨false, []⟩) (.lease () _) (firstLease ⟨false, []⟩) :=
    .lease (Or.inl rfl) (Or.inr nofun)
  exact (contexts_owned ⟨false, []⟩ _ (Runs.snoc .refl hlease trivial)).2.2.1 rfl

end RedisPool
end Runtime
end ResourceServer

import Mathlib.Data.List.Perm.Basic
import ResourceServer.Foundation.GuardedQueue

/-!
# PostgreSQL connection pool

`connection_pool` and the threads that lease from it. A DAO call takes a permit, pops a
connection under the lock, and gives it back through `ConnectionReleaser` however it
leaves the scope of its `ConnectionPtr`.
-/

namespace ResourceServer
namespace Runtime

/-- Where a thread stands in a DAO call. Connections are named in the order in which
`init` opened them. -/
inductive Caller where
  | idle
  | acquired
  -- `get_connection` returned `NULL`
  | refused
  | leased (conn : ℕ)
  -- in the releaser, before the lock
  | releasing (conn : ℕ)
  -- behind the push, before `reserve->release()`
  | returned
  deriving DecidableEq, Repr

/-- How a DAO call leaves the scope of its lease. -/
inductive ScopeExit where
  | normal | earlyReturn | exception
  deriving DecidableEq, Repr

structure ConnectionPool (ι : Type) where
  maxConn : ℕ
  connList : List ℕ
  freeConn : ℤ
  curConn : ℤ
  reserve : ℕ
  callers : ι → Caller

namespace ConnectionPool

variable {ι : Type}

/-- The constructor. -/
def new (maxConn : ℕ) : ConnectionPool ι where
  maxConn := maxConn
  connList := []
  freeConn := 0
  curConn := 0
  reserve := 0
  callers _ := .idle

/-- One round of the loop of `init`. -/
def connect (s : ConnectionPool ι) (conn : ℕ) : ConnectionPool ι :=
  { s with connList := s.connList ++ [conn], freeConn := s.freeConn + 1 }

/-- `init`; a connection that cannot be opened ends the process. -/
def init (maxConn : ℕ) : ConnectionPool ι :=
  let opened := (List.range maxConn).foldl connect (new maxConn)
  { opened with reserve := opened.freeConn.toNat }

variable [DecidableEq ι]

def move (s : ConnectionPool ι) (i : ι) (c : Caller) : ConnectionPool ι :=
  { s with callers := Function.update s.callers i c }

@[simp] theorem move_maxConn (s : ConnectionPool ι) (i : ι) (c : Caller) :
    (s.move i c).maxConn = s.maxConn := rfl

@[simp] theorem move_connList (s : ConnectionPool ι) (i : ι) (c : Caller) :
    (s.move i c).connList = s.connList := rfl

@[simp] theorem move_callers (s : ConnectionPool ι) (i : ι) (c : Caller) :
    (s.move i c).callers = Function.update s.callers i c := rfl

inductive Step : ConnectionPool ι → ι → ConnectionPool ι → Prop where
  | acquire {s : ConnectionPool ι} {i : ι} {n : ℕ} (hi : s.callers i = .idle)
      (hreserve : s.reserve = n + 1) : Step s i { s.move i .acquired with reserve := n }
  | popEmpty {s : ConnectionPool ι} {i : ι} (hi : s.callers i = .acquired) (hlist : s.connList = []) :
      Step s i (s.move i .refused)
  | pop {s : ConnectionPool ι} {i : ι} {conn : ℕ} {rest : List ℕ} (hi : s.callers i = .acquired)
      (hlist : s.connList = conn :: rest) :
      Step s i { s.move i (.leased conn) with
        connList := rest, freeConn := s.freeConn - 1, curConn := s.curConn + 1 }
  -- "DB connection failed."
  | fail {s : ConnectionPool ι} {i : ι} (hi : s.callers i = .refused) : Step s i (s.move i .idle)
  | leave {s : ConnectionPool ι} {i : ι} {conn : ℕ} (exit : ScopeExit)
      (hi : s.callers i = .leased conn) : Step s i (s.move i (.releasing conn))
  | push {s : ConnectionPool ι} {i : ι} {conn : ℕ} (hi : s.callers i = .releasing conn) :
      Step s i { s.move i .returned with
        connList := s.connList ++ [conn], freeConn := s.freeConn + 1, curConn := s.curConn - 1 }
  | release {s : ConnectionPool ι} {i : ι} (hi : s.callers i = .returned) :
      Step s i { s.move i .idle with reserve := s.reserve + 1 }

def stage : Caller → Stage
  | .acquired => .granted
  | .returned => .pushed
  | _ => .outside

def guarded (s : ConnectionPool ι) : GuardedQueue ℕ ι where
  items := s.connList
  permits := s.reserve
  stage := stage ∘ s.callers

omit [DecidableEq ι] in
@[simp] theorem guarded_stage (s : ConnectionPool ι) (i : ι) : s.guarded.stage i = stage (s.callers i) := rfl

theorem guarded_move (s : ConnectionPool ι) (i : ι) (c : Caller) :
    (s.move i c).guarded = { s.guarded with stage := Function.update s.guarded.stage i (stage c) } := by
  unfold guarded move
  rw [Function.comp_update]

theorem Step.refines {s s' : ConnectionPool ι} {i : ι} (hstep : Step s i s')
    (hlist : s.callers i = .acquired → s.connList ≠ []) :
    s'.guarded = s.guarded ∨ GuardedQueue.Step s.guarded i s'.guarded := by
  have hkeep (c : Caller) (hc : stage c = s.guarded.stage i) : (s.move i c).guarded = s.guarded := by
    rw [guarded_move, hc, Function.update_eq_self]
  cases hstep with
  | popEmpty hi hnil => exact absurd hnil (hlist hi)
  | fail hi => exact Or.inl (hkeep _ (by simp [hi, stage]))
  | leave _ hi => exact Or.inl (hkeep _ (by simp [hi, stage]))
  | acquire hi hreserve =>
    have h : GuardedQueue.Step s.guarded i _ := .acquire (by simp [hi, stage]) hreserve
    exact Or.inr (by simpa [guarded, move, Function.comp_update, stage] using h)
  | pop hi hcons =>
    have h : GuardedQueue.Step s.guarded i _ := .pop (by simp [hi, stage]) hcons
    exact Or.inr (by simpa [guarded, move, Function.comp_update, stage] using h)
  | @push conn hi =>
    have h : GuardedQueue.Step s.guarded i _ := .push conn (by simp [hi, stage])
    exact Or.inr (by simpa [guarded, move, Function.comp_update, stage] using h)
  | release hi =>
    have h : GuardedQueue.Step s.guarded i _ := .release (by simp [hi, stage])
    exact Or.inr (by simpa [guarded, move, Function.comp_update, stage] using h)

/-- The thread has `conn` on lease. -/
def Holds (conn : ℕ) (c : Caller) : Prop := c = .leased conn ∨ c = .releasing conn

instance (conn : ℕ) : DecidablePred (Holds conn) := fun c =>
  inferInstanceAs (Decidable (c = .leased conn ∨ c = .releasing conn))

variable [Fintype ι]

structure Accounted (s : ConnectionPool ι) : Prop where
  balanced : s.guarded.Balanced
  free : s.freeConn = s.connList.length
  total : s.freeConn + s.curConn = s.maxConn
  /-- A connection is in the list or on lease, and in one place only. -/
  placed : ∀ conn, s.connList.count conn + census (Holds conn) s.callers =
    (List.range s.maxConn).count conn
  served : ∀ i, s.callers i ≠ .refused

omit [DecidableEq ι] in
theorem Accounted.connList_ne_nil {s : ConnectionPool ι} (hs : s.Accounted) {i : ι}
    (hi : s.callers i = .acquired) : s.connList ≠ [] :=
  hs.balanced.items_ne_nil (i := i) (by rw [guarded_stage, hi]; rfl)

theorem Accounted.step {s s' : ConnectionPool ι} {i : ι} (hs : s.Accounted) (hstep : Step s i s') :
    s'.Accounted := by
  have hbalanced : s'.guarded.Balanced := by
    rcases hstep.refines hs.connList_ne_nil with h | h
    · rw [h]
      exact hs.balanced
    · exact hs.balanced.step h
  have hlist (hi : s.callers i = .acquired) : s.connList ≠ [] := hs.connList_ne_nil hi
  obtain ⟨-, hfree, htotal, hplaced, hserved⟩ := hs
  have hmoved (conn : ℕ) (c : Caller) := census_update (p := Holds conn) s.callers i c
  have hkept (c : Caller) (hc : c ≠ .refused) : ∀ j, Function.update s.callers i c j ≠ .refused := by
    apply (Function.forall_update_iff s.callers fun _ c => c ≠ .refused).mpr
    exact ⟨hc, fun j _ => hserved j⟩
  cases hstep with
  | popEmpty hi hnil => exact absurd hnil (hlist hi)
  | acquire hi hreserve =>
    refine ⟨hbalanced, hfree, htotal, fun conn => ?_, hkept _ (by simp)⟩
    have h := hmoved conn .acquired
    simp [hi, Holds] at h
    simpa [h] using hplaced conn
  | @pop lease rest hi hcons =>
    rw [hcons, List.length_cons] at hfree
    refine ⟨hbalanced, ?_, ?_, fun conn => ?_, hkept _ (by simp)⟩
    · simp only
      omega
    · simp only [move_maxConn]
      omega
    · have h := hmoved conn (.leased lease)
      have hp := hplaced conn
      simp [hi, Holds] at h
      simp only [hcons, List.count_cons, beq_iff_eq, move_maxConn, move_callers] at hp ⊢
      omega
  | fail hi => exact absurd hi (hserved i)
  | @leave lease exit hi =>
    refine ⟨hbalanced, hfree, htotal, fun conn => ?_, hkept _ (by simp)⟩
    have h := hmoved conn (.releasing lease)
    simp [hi, Holds] at h
    simpa [h] using hplaced conn
  | push hi =>
    refine ⟨hbalanced, ?_, ?_, fun conn => ?_, hkept _ (by simp)⟩
    · simp only [List.length_append, List.length_singleton]
      omega
    · simp only [move_maxConn]
      omega
    · have h := hmoved conn .returned
      have hp := hplaced conn
      simp [hi, Holds] at h
      simp only [List.count_append, List.count_singleton, beq_iff_eq, move_maxConn, move_callers] at hp ⊢
      omega
  | release hi =>
    refine ⟨hbalanced, hfree, htotal, fun conn => ?_, hkept _ (by simp)⟩
    have h := hmoved conn .idle
    simp [hi, Holds] at h
    simpa [h] using hplaced conn

omit [DecidableEq ι] [Fintype ι] in
theorem foldl_connect (n : ℕ) (s : ConnectionPool ι) : (List.range n).foldl connect s =
    { s with connList := s.connList ++ List.range n, freeConn := s.freeConn + n } := by
  induction n with
  | zero => simp
  | succ n ih =>
    rw [List.range_succ, List.foldl_append, ih]
    simp [connect]
    omega

omit [DecidableEq ι] in
theorem Accounted.init (maxConn : ℕ) : (init maxConn : ConnectionPool ι).Accounted := by
  have hinit : (ConnectionPool.init maxConn : ConnectionPool ι) =
      { new maxConn with connList := List.range maxConn, freeConn := maxConn, reserve := maxConn } := by
    simp [ConnectionPool.init, foldl_connect, new]
  rw [hinit]
  refine ⟨?_, by simp, by simp [new], fun conn => ?_, nofun⟩
  · have hgranted : census (· = Stage.granted) (fun _ : ι => Stage.outside) = 0 :=
      census_eq_zero fun _ => nofun
    have hpushed : census (· = Stage.pushed) (fun _ : ι => Stage.outside) = 0 :=
      census_eq_zero fun _ => nofun
    change (List.range maxConn).length = maxConn + census (· = Stage.granted) (fun _ : ι => Stage.outside) +
      census (· = Stage.pushed) (fun _ : ι => Stage.outside)
    simp [hgranted, hpushed]
  · have hnone : census (Holds conn) (fun _ : ι => Caller.idle) = 0 :=
      census_eq_zero fun _ => by simp [Holds]
    change _ + census (Holds conn) (fun _ : ι => Caller.idle) = _
    rw [hnone]
    rfl

structure Accounting (s : ConnectionPool ι) (maxConn : ℕ) : Prop where
  exclusive : ∀ i j conn, Holds conn (s.callers i) → Holds conn (s.callers j) → i = j
  leased : ∀ i conn, Holds conn (s.callers i) → conn ∉ s.connList
  free : s.freeConn = s.connList.length
  total : s.freeConn + s.curConn = maxConn
  available : ∀ i, s.callers i = .acquired → s.connList ≠ []
  served : ∀ i, s.callers i ≠ .refused
  returned : (∀ i, s.callers i = .idle) → s.connList.Perm (List.range maxConn)

omit [DecidableEq ι] in
theorem Accounted.accounting {s : ConnectionPool ι} (hs : s.Accounted) : s.Accounting s.maxConn := by
  have hone (conn : ℕ) : s.connList.count conn + census (Holds conn) s.callers ≤ 1 := by
    rw [hs.placed]
    exact List.nodup_iff_count_le_one.mp List.nodup_range conn
  refine ⟨fun i j conn hi hj => ?_, fun i conn hi hmem => ?_, hs.free, hs.total,
    fun i hi => hs.connList_ne_nil hi, hs.served, fun hidle => ?_⟩
  · have hle : census (Holds conn) s.callers ≤ 1 := by
      have := hone conn
      omega
    exact eq_of_census_le_one hle hi hj
  · have hcount := List.count_pos_iff.mpr hmem
    have hcensus : 0 < census (Holds conn) s.callers := census_pos_iff.mpr ⟨i, hi⟩
    have := hone conn
    omega
  · rw [List.perm_iff_count]
    intro conn
    have hnone : census (Holds conn) s.callers = 0 :=
      census_eq_zero fun i => by simp [hidle i, Holds]
    rw [← hs.placed, hnone, Nat.add_zero]

/-- **Accounting.** Every interleaving of DAO calls of any number of threads keeps the
books of the pool. -/
theorem pool_accounted (maxConn : ℕ) (s : ConnectionPool ι) (hrun : Reaches Step (init maxConn) s) :
    s.Accounting maxConn := by
  have hs : s.Accounted ∧ s.maxConn = maxConn := by
    refine Reaches.invariant (I := fun s => s.Accounted ∧ s.maxConn = maxConn) hrun ?_ ⟨.init maxConn, ?_⟩
    · rintro s i s' ⟨hs, hmax⟩ hstep
      refine ⟨hs.step hstep, ?_⟩
      rw [← hmax]
      cases hstep <;> rfl
    · simp [init, foldl_connect, new]
  rw [← hs.2]
  exact hs.1.accounting

/-- One of two threads has taken the only permit. -/
def granted : ConnectionPool Bool := { (init 1).move false .acquired with reserve := 0 }

def onLease : ConnectionPool Bool :=
  { granted.move false (.leased 0) with connList := [], freeConn := 0, curConn := 1 }

theorem onLease_accounted : onLease.Accounting 1 := by
  have hacquire : Step (init 1) false granted := .acquire rfl rfl
  have hpop : Step granted false onLease := .pop rfl rfl
  exact pool_accounted 1 onLease (Runs.snoc (Runs.snoc .refl hacquire trivial) hpop trivial)

end ConnectionPool
end Runtime
end ResourceServer

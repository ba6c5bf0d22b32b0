import ResourceServer.Runtime.ConnectionPool

/-!
# DAO calls come to their end

The threads have a number of DAO calls to make, and a thread that finds no permit waits in
`reserve->acquire()`. The semaphore loses no permit, so no thread waits for ever: however the calls
interleave and however they leave their scopes, each leases one connection and puts it back.
-/

namespace ResourceServer
namespace Runtime

def Caller.stepsLeft : Caller → ℕ
  | .idle => 0
  | .returned => 1
  | .releasing _ => 2
  | .leased _ => 3
  | .acquired => 4
  -- not met by any thread
  | .refused => 1

@[simp] theorem Caller.stepsLeft_idle : Caller.idle.stepsLeft = 0 := rfl

/-- The pool, and the calls that the threads have not begun. -/
structure Workload (ι : Type) where
  pool : ConnectionPool ι
  calls : ι → ℕ

namespace Workload

variable {ι : Type} [DecidableEq ι]

inductive Step : Workload ι → ι → Workload ι → Prop where
  | begin {w : Workload ι} {i : ι} {n : ℕ} {pool : ConnectionPool ι} (hi : w.pool.callers i = .idle)
      (hcalls : w.calls i = n + 1) (hstep : ConnectionPool.Step w.pool i pool) :
      Step w i ⟨pool, Function.update w.calls i n⟩
  | goOn {w : Workload ι} {i : ι} {pool : ConnectionPool ι} (hi : w.pool.callers i ≠ .idle)
      (hstep : ConnectionPool.Step w.pool i pool) : Step w i ⟨pool, w.calls⟩

/-- The pool behind `init`, before any call. -/
def start (maxConn : ℕ) (calls : ι → ℕ) : Workload ι := ⟨.init maxConn, calls⟩

theorem Step.pool {w w' : Workload ι} {i : ι} (hstep : Step w i w') :
    ConnectionPool.Step w.pool i w'.pool := by
  cases hstep with
  | begin _ _ h => exact h
  | goOn _ h => exact h

variable [Fintype ι] {w w' : Workload ι} {i : ι}

def left (w : Workload ι) : ℕ := ∑ i, (5 * w.calls i + (w.pool.callers i).stepsLeft)

theorem stepsLeft_step {s s' : ConnectionPool ι} (hs : s.Accounted) (hstep : ConnectionPool.Step s i s') :
    ∃ c, s'.callers = Function.update s.callers i c ∧
      c.stepsLeft + 1 = if s.callers i = .idle then 5 else (s.callers i).stepsLeft := by
  cases hstep with
  | acquire hi hreserve => exact ⟨_, rfl, by rw [if_pos hi]; rfl⟩
  | popEmpty hi hnil => exact absurd hnil (hs.connList_ne_nil hi)
  | fail hi => exact absurd hi (hs.served i)
  | pop hi | leave _ hi | push hi | release hi => exact ⟨_, rfl, by simp [hi, Caller.stepsLeft]⟩

theorem left_step (hs : w.pool.Accounted) (hstep : Step w i w') : w'.left + 1 = w.left := by
  have hsum := sum_of_eq_off (f := fun j => 5 * w.calls j + (w.pool.callers j).stepsLeft)
    (g := fun j => 5 * w'.calls j + (w'.pool.callers j).stepsLeft) i
  obtain ⟨c, hcallers, hc⟩ := stepsLeft_step hs hstep.pool
  cases hstep with
  | @begin n pool hi hcalls =>
    rw [if_pos hi] at hc
    have hpool : pool.callers = Function.update w.pool.callers i c := hcallers
    have hsum := hsum fun j hj => by
      simp only [hpool, Function.update_of_ne hj]
    simp only [hpool, Function.update_self, hi, hcalls, Caller.stepsLeft_idle] at hsum
    unfold left
    simp only [hpool]
    omega
  | @goOn pool hi =>
    rw [if_neg hi] at hc
    have hpool : pool.callers = Function.update w.pool.callers i c := hcallers
    have hsum := hsum fun j hj => by
      simp only [hpool, Function.update_of_ne hj]
    simp only [hpool, Function.update_self] at hsum
    unfold left
    simp only [hpool]
    omega

omit [Fintype ι] in
theorem maxConn_step {s s' : ConnectionPool ι} (hstep : ConnectionPool.Step s i s') : s'.maxConn = s.maxConn := by
  cases hstep <;> rfl

theorem accounted_of_reaches {maxConn : ℕ} {calls : ι → ℕ} (hrun : Reaches Step (start maxConn calls) w) :
    w.pool.Accounted ∧ w.pool.maxConn = maxConn := by
  refine Reaches.invariant (I := fun w : Workload ι => w.pool.Accounted ∧ w.pool.maxConn = maxConn) hrun ?_ ?_
  · rintro w i w' ⟨hw, hmax⟩ hstep
    refine ⟨hw.step hstep.pool, ?_⟩
    exact (maxConn_step hstep.pool).trans hmax
  · exact ⟨.init maxConn, by simp [start, ConnectionPool.init, ConnectionPool.foldl_connect, ConnectionPool.new]⟩

theorem exists_step (hw : w.pool.Accounted) (hi : w.pool.callers i ≠ .idle) : ∃ w', Step w i w' := by
  have hgo {pool : ConnectionPool ι} (hstep : ConnectionPool.Step w.pool i pool) : ∃ w', Step w i w' :=
    ⟨_, .goOn hi hstep⟩
  cases hcaller : w.pool.callers i with
  | idle => exact absurd hcaller hi
  | refused => exact absurd hcaller (hw.served i)
  | acquired =>
    obtain ⟨conn, rest, hlist⟩ := List.exists_cons_of_ne_nil (hw.connList_ne_nil hcaller)
    exact hgo (.pop hcaller hlist)
  | leased conn => exact hgo (.leave .normal hcaller)
  | releasing conn => exact hgo (.push hcaller)
  | returned => exact hgo (.release hcaller)

omit [DecidableEq ι] in
theorem reserve_of_idle {s : ConnectionPool ι} (hs : s.Accounted) (hidle : ∀ i, s.callers i = .idle) :
    s.reserve = s.maxConn := by
  have hnone (stage : Stage) (hstage : stage ≠ .outside) : census (· = stage) s.guarded.stage = 0 := by
    refine census_eq_zero fun i => ?_
    rw [ConnectionPool.guarded_stage, hidle i]
    exact hstage.symm
  have hbalanced := hs.balanced
  rw [GuardedQueue.Balanced, hnone .granted (by decide), hnone .pushed (by decide)] at hbalanced
  have hlength := (hs.accounting.returned hidle).length_eq
  rw [List.length_range] at hlength
  have hitems : s.connList.length = s.reserve + 0 + 0 := hbalanced
  omega

/-- **Every DAO call comes to its end.** With a connection in the pool, every run takes five steps for
each call, and where it can go no further all calls have returned and the pool is as `init` left it. -/
theorem calls_end {maxConn : ℕ} (hpos : 0 < maxConn) {calls : ι → ℕ}
    (hrun : Reaches Step (start maxConn calls) w) :
    (∀ is w', Path Step w is w' → is.length + w'.left = w.left) ∧
    ((∀ i w', ¬ Step w i w') → w.left = 0 ∧ (∀ i, w.pool.callers i = .idle ∧ w.calls i = 0) ∧
      w.pool.reserve = maxConn ∧ w.pool.connList.Perm (List.range maxConn)) := by
  obtain ⟨hw, hmax⟩ := accounted_of_reaches hrun
  constructor
  · intro is w' hpath
    induction hpath with
    | nil => exact Nat.zero_add _
    | cons hstep _ ih =>
      have hnext := hrun.snoc hstep trivial
      have hlength := ih hnext (accounted_of_reaches hnext).1 (accounted_of_reaches hnext).2
      have hone := left_step hw hstep
      rw [List.length_cons]
      omega
  · intro hstuck
    have hidle (i : ι) : w.pool.callers i = .idle := by
      by_contra hi
      obtain ⟨w', hstep⟩ := exists_step hw hi
      exact hstuck i w' hstep
    have hreserve := reserve_of_idle hw hidle
    have hcalls (i : ι) : w.calls i = 0 := by
      by_contra hne
      obtain ⟨n, hn⟩ := Nat.exists_eq_succ_of_ne_zero hne
      obtain ⟨m, hm⟩ := Nat.exists_eq_succ_of_ne_zero (show w.pool.reserve ≠ 0 by omega)
      exact hstuck i _ (.begin (hidle i) hn (.acquire (hidle i) hm))
    refine ⟨?_, fun i => ⟨hidle i, hcalls i⟩, hreserve.trans hmax, hmax ▸ hw.accounting.returned hidle⟩
    exact Finset.sum_eq_zero fun i _ => by rw [hidle i, hcalls i]; rfl

/-- One of two threads has the only connection; the other has still to make its call. -/
def contested : Workload Bool := ⟨ConnectionPool.onLease, Function.update (fun _ => 1) false 0⟩

theorem contested_ends : contested.left = 8 ∧ ∀ is w', Path Step contested is w' → is.length + w'.left = 8 := by
  have hstart : Reaches Step (start 1 fun _ => 1) (start 1 fun _ : Bool => 1) := .refl
  have hgranted := hstart.snoc (.begin (i := false) rfl rfl (.acquire rfl rfl)) trivial
  have hleased := hgranted.snoc (.goOn (i := false) nofun (.pop rfl rfl)) trivial
  exact ⟨rfl, (calls_end (w := contested) (by decide) hleased).1⟩

end Workload
end Runtime
end ResourceServer

import ResourceServer.Service.Transparency

/-!
# Server processes that share their stores

Several processes serve calls on one database, one Redis and one object store, each with its
own error strings and its own `RedisClient`. A Redis command may fail; the client then
reconnects, or gives Redis up for good.
-/

namespace ResourceServer
namespace Service

/-- What a process has of its own: the static error strings, and `available_`. -/
structure Process where
  msg : Dao → Bytes
  available : Bool

structure Cluster (ι : Type) where
  resources : Table Row Row.id
  users : Table User User.id
  cache : Bytes → Option Bytes
  objects : Set (Bytes × Bytes)
  processes : ι → Process

namespace Cluster

variable {ι : Type} [DecidableEq ι]

/-- The stores as process `i` sees them. -/
def view (c : Cluster ι) (i : ι) : World where
  resources := c.resources
  users := c.users
  cache := c.cache
  msg := (c.processes i).msg
  objects := c.objects

/-- The stores that process `i` leaves. -/
def put (c : Cluster ι) (i : ι) (w : World) : Cluster ι where
  resources := w.resources
  users := w.users
  cache := w.cache
  objects := w.objects
  processes := Function.update c.processes i { c.processes i with msg := w.msg }

/-- `discard_connection` without a replacement: `available_ = false`. -/
def giveUp (c : Cluster ι) (i : ι) : Cluster ι :=
  { c with processes := Function.update c.processes i { c.processes i with available := false } }

/-- A command that failed leaves the connection pool, or no pool. -/
def FailedFrom (c : Cluster ι) (i : ι) (c' : Cluster ι) : Prop := c' = c ∨ c' = c.giveUp i

/-- The actions of process `i`. Without Redis a command fails and has no effect; one that
fails otherwise may have reached the server. -/
def does (faults : Faults) (order : RowOrder) (i : ι) : Env actions (Cluster ι)
  | .redisGet key, c, value, c' =>
    if (c.processes i).available then
      value = c.cache key ∧ c' = c ∨ value = none ∧ c.FailedFrom i c'
    else value = none ∧ c' = c
  | .redisSetex key _ value, c, ok, c' =>
    if (c.processes i).available then
      ok = true ∧ c' = c.put i ((c.view i).store key value) ∨
        ok = false ∧ (c.FailedFrom i c' ∨ (c.put i ((c.view i).store key value)).FailedFrom i c')
    else ok = false ∧ c' = c
  | .redisDel key, c, ok, c' =>
    if (c.processes i).available then
      ok = true ∧ c' = c.put i ((c.view i).evict key) ∨
        ok = false ∧ (c.FailedFrom i c' ∨ (c.put i ((c.view i).evict key)).FailedFrom i c')
    else ok = false ∧ c' = c
  | a, c, r, c' => ∃ w', World.does faults order a (c.view i) r w' ∧ c' = c.put i w'

/-- Calls are served one after another, each by some process. -/
inductive Step (P : Platform) (faults : Faults) (order : RowOrder) :
    Cluster ι → Turn → Cluster ι → Prop where
  | served {c c' : Cluster ι} (i : ι) {query : ServiceQuery} {calls : List (Event actions)}
      {answer : Json} (hexec : Prog.Exec (does faults order i) c (serve P query) calls c' answer) :
      Step P faults order c (.served query calls answer) c'
  | expired (c : Cluster ι) (key : Bytes) :
      Step P faults order c (.expired key) { c with cache := Function.update c.cache key none }

@[simp] theorem view_put (c : Cluster ι) (i : ι) (w : World) : (c.put i w).view i = w := by
  simp [view, put]

@[simp] theorem put_view (c : Cluster ι) (i : ι) : c.put i (c.view i) = c := by
  simp [put, view]

@[simp] theorem put_put (c : Cluster ι) (i : ι) (w w' : World) :
    (c.put i w).put i w' = c.put i w' := by
  simp [put]

@[simp] theorem view_giveUp (c : Cluster ι) (i : ι) : (c.giveUp i).view i = c.view i := by
  simp [view, giveUp]

theorem FailedFrom.view {c c' : Cluster ι} {i : ι} (h : c.FailedFrom i c') :
    c'.view i = c.view i := by
  rcases h with rfl | rfl
  · rfl
  · exact view_giveUp c i

variable {P : Platform} {faults : Faults} {order : RowOrder} {i : ι} {c c' : Cluster ι}

theorem write_view {ok : Bool} {w : World}
    (h : ok = true ∧ c' = c.put i w ∨
      ok = false ∧ (c.FailedFrom i c' ∨ (c.put i w).FailedFrom i c')) :
    ok = true ∧ c'.view i = w ∨ True ∧ ok = false ∧ (c'.view i = c.view i ∨ c'.view i = w) := by
  rcases h with ⟨rfl, rfl⟩ | ⟨rfl, hfailed | hfailed⟩
  · exact Or.inl ⟨rfl, view_put ..⟩
  · exact Or.inr ⟨trivial, rfl, Or.inl hfailed.view⟩
  · exact Or.inr ⟨trivial, rfl, Or.inr (hfailed.view.trans (view_put ..))⟩

theorem does_view {a : Action} {r : a.Ret} (h : does faults order i a c r c') :
    World.does { faults with redis := True } order a (c.view i) r (c'.view i) := by
  cases a with
  | redisGet key =>
    simp only [does] at h
    split_ifs at h
    · rcases h with ⟨rfl, rfl⟩ | ⟨rfl, hfailed⟩
      · exact ⟨rfl, Or.inl rfl⟩
      · exact ⟨hfailed.view, Or.inr ⟨trivial, rfl⟩⟩
    · obtain ⟨rfl, rfl⟩ := h
      exact ⟨rfl, Or.inr ⟨trivial, rfl⟩⟩
  | redisSetex | redisDel =>
    simp only [does] at h
    split_ifs at h
    · exact write_view h
    · obtain ⟨rfl, rfl⟩ := h
      exact Or.inr ⟨trivial, rfl, Or.inl rfl⟩
  | _ =>
    obtain ⟨w', hdoes, rfl⟩ := h
    rw [view_put]
    exact hdoes

theorem exec_view {α : Type} {p : ServiceProg α} {calls : History} {answer : α}
    (hexec : Prog.Exec (does faults order i) c p calls c' answer) :
    Prog.Exec (World.does { faults with redis := True } order) (c.view i) p calls (c'.view i)
      answer :=
  hexec.map (f := fun c => c.view i) fun _ _ _ _ h => does_view h

theorem available_put (w : World) (j : ι) :
    ((c.put i w).processes j).available = (c.processes j).available := by
  by_cases hj : j = i
  · subst hj
    simp [put]
  · simp [put, hj]

theorem available_of_failed {j : ι} (h : c.FailedFrom i c')
    (hj : (c'.processes j).available = true) : (c.processes j).available = true := by
  rcases h with rfl | rfl
  · exact hj
  · by_cases hij : j = i
    · subst hij
      simp [giveUp] at hj
    · simpa [giveUp, hij] using hj

/-- No action brings Redis back. -/
theorem does_available {a : Action} {r : a.Ret} {j : ι} (h : does faults order i a c r c')
    (hj : (c'.processes j).available = true) : (c.processes j).available = true := by
  have hput {w : World} (hj : ((c.put i w).processes j).available = true) :
      (c.processes j).available = true := available_put w j ▸ hj
  cases a with
  | redisGet key =>
    simp only [does] at h
    split_ifs at h
    · rcases h with ⟨-, rfl⟩ | ⟨-, hfailed⟩
      · exact hj
      · exact available_of_failed hfailed hj
    · exact h.2 ▸ hj
  | redisSetex | redisDel =>
    simp only [does] at h
    split_ifs at h
    · rcases h with ⟨-, rfl⟩ | ⟨-, hfailed | hfailed⟩
      · exact hput hj
      · exact available_of_failed hfailed hj
      · exact hput (available_of_failed hfailed hj)
    · exact h.2 ▸ hj
  | _ =>
    obtain ⟨w', -, rfl⟩ := h
    exact hput hj

theorem exec_available {α : Type} {p : ServiceProg α} {calls : History} {answer : α} {j : ι}
    (hexec : Prog.Exec (does faults order i) c p calls c' answer)
    (hj : (c'.processes j).available = true) : (c.processes j).available = true := by
  induction hexec with
  | ret c answer => exact hj
  | call hstep _ ih => exact does_available hstep (ih hj)

theorem exec_hit {α : Type} {p : ServiceProg α} {calls : History} {answer : α} {key text : Bytes}
    (hexec : Prog.Exec (does faults order i) c p calls c' answer)
    (hhit : ⟨.redisGet key, some text⟩ ∈ calls) : (c.processes i).available = true := by
  induction hexec with
  | ret c answer => cases hhit
  | call hstep _ ih =>
    rcases List.mem_cons.mp hhit with heq | hrest
    · cases heq
      simp only [does] at hstep
      split_ifs at hstep with havailable
      · exact havailable
      · cases hstep.1
    · exact does_available hstep (ih hrest)

theorem Step.available {turn : Turn} {j : ι} (h : Step P faults order c turn c')
    (hj : (c'.processes j).available = true) : (c.processes j).available = true := by
  cases h with
  | served i hexec => exact exec_available hexec hj
  | expired key => exact hj

end Cluster
end Service
end ResourceServer

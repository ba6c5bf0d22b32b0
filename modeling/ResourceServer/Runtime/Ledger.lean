import ResourceServer.Runtime.Reports
import ResourceServer.Service.Budgets

/-!
# The books of the backend

Beside a run, the requests that have been answered and the actions on the stores. Of all that the
workers did, in any interleaving, the table of resources is what the statements of the answered
requests make of it, each applied once, with those of the handlers still under way.
-/

namespace ResourceServer
namespace Runtime

open CString Http Service

/-- A request whose handler has come to its end. -/
structure Record where
  request : Request
  result : HandlerResult
  calls : History

/-- The actions on the stores in a move. -/
def Move.events {κ : Type} : Move κ → History
  | .act _ (some e) => [e]
  | _ => []

/-- How often a handler under way has carried out `a`. -/
def carriedOut (a : Action) : Option Job → ℕ
  | none => 0
  | some job => (changes job.task.inner).count a

/-- What the calls of `r` have changed so far: nothing, or what it asks for. -/
def Underway (lib : JsonLib) (checks : Bytes → Option ℤ → Prop) (r : Request) (calls : History) : Prop :=
  changes calls = [] ∨ ∃ u a, checks r.token (some u) ∧ r.asked lib u = some a ∧ changes calls = [a]

namespace Backend

variable {κ : Type}

/-- The requests that a move ends. -/
def finished (s : Backend κ) : Move κ → List Record
  | .reply k =>
    match s.jobs k with
    | some ⟨_, r, .between done (.ret result)⟩ => [⟨r, result, done.flatMap Entry.inner⟩]
    | _ => []
  | _ => []

variable [DecidableEq κ]

/-- A run with its books. -/
inductive Ledger (P : Platform) (checks : Bytes → Option ℤ → Prop) (faults : Faults) (order : RowOrder)
    (maxFd maxRequests : ℕ) (s₀ : Backend κ) : Backend κ → List Record → History → Prop where
  | start : Ledger P checks faults order maxFd maxRequests s₀ s₀ [] []
  | step {s s' : Backend κ} {m : Move κ} {records : List Record} {events : History}
      (h : Ledger P checks faults order maxFd maxRequests s₀ s records events)
      (hstep : Step P checks faults order maxFd maxRequests s m s') :
      Ledger P checks faults order maxFd maxRequests s₀ s' (records ++ s.finished m) (events ++ m.events)

variable {P : Platform} {checks : Bytes → Option ℤ → Prop} {faults : Faults} {order : RowOrder}
  {maxFd maxRequests : ℕ} {s₀ s s' : Backend κ} {m : Move κ} {records : List Record} {events : History}

theorem Ledger.reaches (h : Ledger P checks faults order maxFd maxRequests s₀ s records events) :
    Reaches (Step P checks faults order maxFd maxRequests) s₀ s := by
  induction h with
  | start => exact .refl
  | step _ hstep ih => exact ih.snoc hstep trivial

theorem exists_ledger (hrun : Reaches (Step P checks faults order maxFd maxRequests) s₀ s) :
    ∃ records events, Ledger P checks faults order maxFd maxRequests s₀ s records events := by
  refine hrun.invariant (I := fun s => ∃ records events,
    Ledger P checks faults order maxFd maxRequests s₀ s records events) ?_ ⟨[], [], .start⟩
  rintro s m s' ⟨records, events, h⟩ hstep
  exact ⟨_, _, h.step hstep⟩

/-- A move makes of the table what its statements say. -/
theorem Step.alters (hstep : Step P checks faults order maxFd maxRequests s m s') :
    changes m.events = [] ∧ s'.world.resources = s.world.resources ∨
      ∃ a, changes m.events = [a] ∧ Alters s.world.resources a s'.world.resources := by
  cases hstep with
  | server | call | answer | unanswered | expire => exact Or.inl ⟨rfl, rfl⟩
  | @act k job e w' task' hjob htask =>
    rcases htask.shared with ⟨rfl, hw, -⟩ | ⟨e, rfl, hdoes, -⟩
    · exact Or.inl ⟨rfl, congrArg World.resources hw⟩
    · rcases World.does_of_doesShared hdoes with hdoes | ⟨d, hop, hw⟩
      · cases heffect : takesEffect e with
        | true => exact Or.inr ⟨e.op, by simp [Move.events, changes, heffect], World.does_alters hdoes heffect⟩
        | false => exact Or.inl ⟨by simp [Move.events, changes, heffect], World.does_unchanged hdoes heffect⟩
      · have hreads : takesEffect e = false := takesEffect_of_reads (by rw [hop]; rfl)
        exact Or.inl ⟨by simp [Move.events, changes, hreads], congrArg World.resources hw⟩

theorem Ledger.table (h : Ledger P checks faults order maxFd maxRequests s₀ s records events) :
    Path Alters s₀.world.resources (changes events) s.world.resources := by
  induction h with
  | start => exact .nil _
  | step _ hstep ih =>
    rw [changes_append]
    rcases hstep.alters with ⟨hnone, hsame⟩ | ⟨a, hone, halters⟩
    · rw [hnone, List.append_nil, hsame]
      exact ih
    · rw [hone]
      exact ih.snoc halters

variable [Fintype κ]

theorem sum_setJob (s : Backend κ) (k : κ) (job : Option Job) (a : Action) :
    (∑ j, carriedOut a ((s.setJob k job).jobs j)) + carriedOut a (s.jobs k) =
      (∑ j, carriedOut a (s.jobs j)) + carriedOut a job :=
  sum_update s.jobs k job

/-- A move carries out in its events what it adds to the handlers under way and the records. -/
theorem Step.counts (hstep : Step P checks faults order maxFd maxRequests s m s') (a : Action) :
    (∑ k, carriedOut a (s.jobs k)) + (changes m.events).count a =
      (∑ k, carriedOut a (s'.jobs k)) + ((s.finished m).map fun x => (changes x.calls).count a).sum := by
  cases hstep with
  | server | expire => rfl
  | @call k fd c' r hk hstage hparse hjob =>
    have hsum := sum_setJob s k (some ⟨c', r, .start (handle P.json r)⟩) a
    rw [hjob] at hsum
    exact hsum.symm
  | @act k job e w' task' hjob htask =>
    have hsum := sum_setJob s k (some { job with task := task' }) a
    have hadded : carriedOut a (some { job with task := task' }) =
        carriedOut a (some job) + (changes (Move.events (.act k e))).count a := by
      rcases htask.shared with ⟨rfl, -, hinner⟩ | ⟨e, rfl, -, hinner⟩
      · rw [carriedOut, carriedOut, hinner]
        rfl
      · rw [carriedOut, carriedOut, hinner, changes_append, List.count_append]
        rfl
    rw [hjob] at hsum
    change _ = (∑ j, carriedOut a ((s.setJob k (some { job with task := task' })).jobs j)) + 0
    omega
  | @answer k fd c' r done result hk hjob hwrite | @unanswered k fd c' r done result hk hjob hwrite =>
    have hsum := sum_setJob s k none a
    have hfinished : s.finished (.reply k) = [⟨r, result, done.flatMap Entry.inner⟩] := by
      rw [finished, hjob]
    rw [hjob] at hsum
    rw [hfinished]
    exact hsum.symm

theorem Ledger.counted (hs₀ : ∀ k, s₀.jobs k = none)
    (h : Ledger P checks faults order maxFd maxRequests s₀ s records events) (a : Action) :
    (changes events).count a =
      (records.map fun x => (changes x.calls).count a).sum + ∑ k, carriedOut a (s.jobs k) := by
  induction h with
  | start =>
    have hnone : ∑ k, carriedOut a (s₀.jobs k) = 0 := Finset.sum_eq_zero fun k _ => by rw [hs₀ k]; rfl
    rw [hnone]
    rfl
  | step _ hstep ih =>
    have hmove := hstep.counts a
    rw [changes_append, List.count_append, List.map_append, List.sum_append]
    omega

omit [DecidableEq κ] [Fintype κ] in
/-- Part of what a question may change is nothing or its statement. -/
theorem underway_of_asked {r : Request} {user : Option ℤ} {done : List (Entry services actions)}
    {q : ServiceQuery} {answer : Json} {calls tail : History}
    (hended : ∀ d ∈ done, Task.Ends (serviceLayer P checks) (terms P r).innerPromise d)
    (hevents : done.map Entry.event = checked r user) (huser : ∀ u, q.actingUser = some u → user = some u)
    (hposed : ∀ u, Named u (checked r user) → question u (handle P.json r) = some q)
    (htells : Tells q answer (calls ++ tail)) : Underway P.json checks r (done.flatMap Entry.inner ++ calls) := by
  have hchanges := htells.changes
  rw [changes_append] at hchanges
  rw [inner_of_checks hended (hevents ▸ checked_ops), List.nil_append]
  split_ifs at hchanges with herror
  · cases ha : q.statement with
    | none =>
      rw [ha] at hchanges
      exact Or.inl (List.append_eq_nil_iff.mp hchanges).1
    | some a =>
      rw [ha] at hchanges
      rcases List.append_eq_singleton_iff.mp hchanges with ⟨hnone, -⟩ | ⟨hone, -⟩
      · exact Or.inl hnone
      · obtain ⟨u, hchecked, hasked⟩ := asks_for hended hevents huser hposed ha
        exact Or.inr ⟨u, a, hchecked, hasked, hone⟩
  · exact Or.inl (List.append_eq_nil_iff.mp hchanges).1

omit [DecidableEq κ] [Fintype κ] in
theorem keeps_underway {r : Request} {t : Task services actions HandlerResult}
    (hkeeps : t.Keeps (serviceLayer P checks) (terms P r)) : Underway P.json checks r t.inner := by
  obtain ⟨hended, hgoing⟩ := hkeeps
  cases t with
  | between done prog =>
    have hended : ∀ d ∈ done, Task.Ends (serviceLayer P checks) (terms P r).innerPromise d := hended
    have hresults (op : ServiceCall) : Nonempty op.Ret := by
      cases op with
      | getUserIdFromToken token => exact ⟨none⟩
      | ask q => exact ⟨Json.null⟩
    obtain ⟨tail, result, hconcludes, hposed⟩ := Prog.Traces.exists_end hresults hgoing
    generalize hpast : (Task.between done prog).past ++ tail = past at hconcludes hposed
    have hevents : done.map Entry.event ++ tail = past := hpast
    cases hconcludes with
    | unasked hops hresult =>
      refine Or.inl (congrArg changes (inner_of_checks hended fun e he => hops e ?_))
      rw [← hevents]
      exact List.mem_append_left _ he
    | @asked user q response huser hq hresult =>
      rcases List.eq_nil_or_concat tail with rfl | ⟨rest, last, rfl⟩
      · rw [List.append_nil] at hevents
        obtain ⟨before, last, rfl, hbefore, hlast⟩ := List.map_eq_append_iff.mp hevents
        obtain ⟨d, rest, rfl, hd, hrest⟩ := List.map_eq_cons_iff.mp hlast
        obtain rfl := List.map_eq_nil_iff.mp hrest
        have htells := ends_asked (hended d (List.mem_append_right _ List.mem_cons_self)) hd
        have hinner : (Task.between (before ++ [d]) prog).inner = before.flatMap Entry.inner ++ d.inner := by
          rw [Task.inner, List.flatMap_append, List.flatMap_singleton]
        rw [hinner]
        have hwhole : Tells q response (d.inner ++ []) := by rwa [List.append_nil]
        exact underway_of_asked (fun x hx => hended x (List.mem_append_left _ hx)) hbefore huser
          (fun u => hposed _ q response u rfl) hwhole
      · -- the question is still to come
        rw [List.concat_eq_append, ← List.append_assoc] at hevents
        obtain ⟨hchecks, -⟩ := List.append_inj' hevents rfl
        have hops : ∀ e ∈ checked r user, ∃ token, e.op = .getUserIdFromToken token := checked_ops
        rw [← hchecks] at hops
        exact Or.inl (congrArg changes (inner_of_checks hended fun e he => hops e (List.mem_append_left _ he)))
  | inside done op k thread =>
    obtain ⟨hbody, ⟨hallowed, hposes⟩, -, hthread⟩ := hgoing
    cases op with
    | getUserIdFromToken token => exact absurd rfl hbody
    | ask q =>
      obtain ⟨user, hpast, huser⟩ := hallowed
      have hevents : done.map Entry.event = checked r user := hpast
      have hresults (a : Action) : Nonempty a.Ret := by
        have hfaults : Faults.any.database := trivial
        obtain ⟨result, -, -⟩ := World.exists_doesShared hfaults ⟨id, fun _ => .refl _⟩ a
          (.initial (.empty User User.id) ∅)
        exact ⟨result⟩
      obtain ⟨tail, answer, htells⟩ := Prog.Traces.exists_end hresults hthread
      refine underway_of_asked hended hevents huser (fun u hnamed => hposes q u rfl ?_) htells
      rw [hpast]
      exact hnamed

omit [DecidableEq κ] in
theorem finished_honest (hdump : ∀ text ∈ statusTexts, (P.json.dump (.status text)).isSome = true)
    (hsound : s.Sound P checks) {x : Record} (hx : x ∈ s.finished m) {reply : Reply}
    (hreply : Reply.of (caught x.result).1 (caught x.result).2 = some reply) :
    Honest P.json checks x.request reply.status x.calls := by
  cases m with
  | reply k =>
    rw [finished] at hx
    split at hx
    · rename_i hjob
      obtain rfl := List.mem_singleton.mp hx
      exact keeps_honest hdump (hsound.keeps k _ hjob) hreply
    · cases hx
  | server | call | act | expire => cases hx

theorem Ledger.honest {others : Finset ℕ} {w : World}
    (hdump : ∀ text ∈ statusTexts, (P.json.dump (.status text)).isSome = true)
    (h : Ledger P checks faults order maxFd maxRequests (Backend.start others w) s records events) :
    ∀ x ∈ records, ∀ reply, Reply.of (caught x.result).1 (caught x.result).2 = some reply →
      Honest P.json checks x.request reply.status x.calls := by
  induction h with
  | start =>
    intro x hx
    cases hx
  | step h _ ih =>
    intro x hx reply hreply
    rcases List.mem_append.mp hx with hx | hx
    · exact ih x hx reply hreply
    · exact finished_honest hdump (sound_of_reaches h.reaches) hx hreply

/-- **No update is lost, and none is made twice.** In every run of the backend, the table of resources
is what the statements in its books have made of it, one behind the other. Each of them was carried
out as often as by the requests answered so far and the handlers under way. An answered request has
changed what its status says, and a handler under way has carried out its statement once, or not yet. -/
theorem updates_once {others : Finset ℕ} {w : World}
    (hdump : ∀ text ∈ statusTexts, (P.json.dump (.status text)).isSome = true)
    (hrun : Ledger P checks faults order maxFd maxRequests (start others w) s records events) :
    Path Alters w.resources (changes events) s.world.resources ∧
    (∀ a, (changes events).count a =
      (records.map fun x => (changes x.calls).count a).sum + ∑ k, carriedOut a (s.jobs k)) ∧
    (∀ x ∈ records, ∀ reply, Reply.of (caught x.result).1 (caught x.result).2 = some reply →
      Honest P.json checks x.request reply.status x.calls) ∧
    ∀ k job, s.jobs k = some job → Underway P.json checks job.request job.task.inner := by
  refine ⟨hrun.table, hrun.counted fun _ => rfl, hrun.honest hdump, fun k job hjob => ?_⟩
  exact keeps_underway ((sound_of_reaches hrun.reaches).keeps k job hjob)

/-- User 1 has deleted the only resource, and the books show it. -/
theorem deleted_once : ∃ (s : Backend Unit) (records : List Record) (events : History),
    s.world.resources.rows = [] ∧ Path Alters oneResource.resources (changes events) s.world.resources ∧
    ∀ a, (changes events).count a =
      (records.map fun x => (changes x.calls).count a).sum + ∑ k, carriedOut a (s.jobs k) := by
  obtain ⟨s, done, result, reply, hrun, hjob, hreply, h200, hrows⟩ := exists_deleted
  obtain ⟨records, events, hledger⟩ := exists_ledger hrun
  obtain ⟨htable, hcounted, -, -⟩ := updates_once reporting_dump hledger
  exact ⟨s, records, events, hrows, htable, hcounted⟩

end Backend
end Runtime
end ResourceServer

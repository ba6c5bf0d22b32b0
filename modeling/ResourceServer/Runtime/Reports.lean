import ResourceServer.Runtime.Backend

/-!
# What the status of an answer stands for

A client that is told 200 for a `POST`, `PUT` or `DELETE` of a resource knows that exactly the
statement it asked for has changed rows; with any other status nothing has changed. That holds
however the request's own actions interleave with those of others, and whatever fails.
-/

namespace ResourceServer
namespace Runtime

open CString Http Service

/-- The status of the answer to `r` tells what the calls have changed. -/
structure Honest (lib : JsonLib) (checks : Bytes → Option ℤ → Prop) (r : Request) (status : ℕ)
    (calls : History) : Prop where
  done : status = 200 → r.handler.changesRows = true →
    ∃ u a, checks r.token (some u) ∧ r.asked lib u = some a ∧ changes calls = [a]
  undone : status ≠ 200 ∨ r.handler.changesRows = false → changes calls = []

namespace Backend

variable {κ : Type} [DecidableEq κ] [Fintype κ] {P : Platform} {checks : Bytes → Option ℤ → Prop}
  {faults : Faults} {order : RowOrder} {maxFd maxRequests : ℕ}

section Entries

variable {r : Request} {d : Entry services actions}

omit [Fintype κ] [DecidableEq κ] in
/-- A finished check did nothing else. -/
theorem ends_check {token : Bytes} (hd : Task.Ends (serviceLayer P checks) (terms P r).innerPromise d)
    (hop : d.event.op = .getUserIdFromToken token) : d.inner = [] := by
  cases hd with
  | atomic => rfl
  | @body op result past hbody _ =>
    obtain rfl : op = .getUserIdFromToken token := hop
    exact absurd rfl hbody

theorem ends_checked {token : Bytes} {user : Option ℤ}
    (hd : Task.Ends (serviceLayer P checks) (terms P r).innerPromise d)
    (hevent : d.event = ⟨.getUserIdFromToken token, user⟩) : checks token user := by
  cases hd with
  | @atomic op result hbody hr =>
    cases hevent
    exact hr
  | @body op result past hbody _ =>
    cases hevent
    exact absurd rfl hbody

/-- A finished question has its service's answer. -/
theorem ends_asked {q : ServiceQuery} {response : Json}
    (hd : Task.Ends (serviceLayer P checks) (terms P r).innerPromise d)
    (hevent : d.event = ⟨.ask q, response⟩) : Tells q response d.inner := by
  cases hd with
  | atomic hbody _ =>
    cases hevent
    cases hbody
  | body _ hr =>
    cases hevent
    exact hr

end Entries

/-- Checks alone change nothing. -/
theorem inner_of_checks {r : Request} {done : List (Entry services actions)}
    (hended : ∀ d ∈ done, Task.Ends (serviceLayer P checks) (terms P r).innerPromise d)
    (hops : ∀ e ∈ done.map Entry.event, ∃ token, e.op = .getUserIdFromToken token) :
    done.flatMap Entry.inner = [] := by
  refine List.flatMap_eq_nil_iff.mpr fun d hd => ?_
  obtain ⟨token, hop⟩ := hops d.event (List.mem_map_of_mem hd)
  exact ends_check (hended d hd) hop

theorem asks_for {r : Request} {user : Option ℤ} {done : List (Entry services actions)} {q : ServiceQuery}
    {a : Action} (hended : ∀ d ∈ done, Task.Ends (serviceLayer P checks) (terms P r).innerPromise d)
    (hevents : done.map Entry.event = checked r user) (huser : ∀ u, q.actingUser = some u → user = some u)
    (hposed : ∀ u, Named u (checked r user) → question u (handle P.json r) = some q)
    (ha : q.statement = some a) : ∃ u, checks r.token (some u) ∧ r.asked P.json u = some a := by
  have hsome : q.statement ≠ none := by
    rw [ha]
    nofun
  obtain ⟨u, hu⟩ := ServiceQuery.actingUser_of_statement hsome
  obtain rfl := huser u hu
  obtain ⟨check, rest, rfl, hcheck, -⟩ := List.map_eq_cons_iff.mp hevents
  refine ⟨u, ends_checked (hended check List.mem_cons_self) hcheck, ?_⟩
  have hquestion := hposed u fun e he => ⟨r.token, List.mem_singleton.mp he⟩
  rw [Request.asked, hquestion]
  exact ha

theorem keeps_honest (hdump : ∀ text ∈ statusTexts, (P.json.dump (.status text)).isSome = true)
    {r : Request} {done : List (Entry services actions)} {result : HandlerResult}
    (hkeeps : (Task.between done (Prog.ret result)).Keeps (serviceLayer P checks) (terms P r)) {reply : Reply}
    (hreply : Reply.of (caught result).1 (caught result).2 = some reply) :
    Honest P.json checks r reply.status (done.flatMap Entry.inner) := by
  obtain ⟨hended, hconcludes, hposed⟩ := hkeeps
  have hended : ∀ d ∈ done, Task.Ends (serviceLayer P checks) (terms P r).innerPromise d := hended
  have hstatus := Reply.status_iff hreply
  generalize hpast : Task.past (Task.between done (Prog.ret result)) = past at hconcludes hposed
  have hevents : done.map Entry.event = past := hpast
  cases hconcludes with
  | unasked hops hresult =>
    have hinner := inner_of_checks hended (hevents ▸ hops)
    rw [hinner]
    refine ⟨fun h200 hchanges => ?_, fun _ => rfl⟩
    have hfailed := hresult fun hhealth => by rw [hhealth] at hchanges; cases hchanges
    rw [hstatus.mp h200] at hfailed
    cases hfailed
  | @asked user q response huser hq hresult =>
    obtain ⟨before, last, rfl, hbefore, hlast⟩ := List.map_eq_append_iff.mp hevents
    obtain ⟨d, rest, rfl, hd, hrest⟩ := List.map_eq_cons_iff.mp hlast
    obtain rfl := List.map_eq_nil_iff.mp hrest
    have hended' : ∀ d ∈ before, Task.Ends (serviceLayer P checks) (terms P r).innerPromise d :=
      fun d hd => hended d (List.mem_append_left _ hd)
    have htells := ends_asked (hended d (List.mem_append_right _ List.mem_cons_self)) hd
    have hinner : (before ++ [d]).flatMap Entry.inner = d.inner := by
      rw [List.flatMap_append, inner_of_checks hended' (hbefore ▸ checked_ops), List.flatMap_singleton]
      rfl
    rw [hinner]
    cases hchanges : r.handler.changesRows with
    | false =>
      rw [hchanges, Option.isSome_eq_false_iff, Option.isNone_iff_eq_none] at hq
      refine ⟨fun _ h => absurd (hchanges.symm.trans h) nofun, fun _ => ?_⟩
      rw [htells.changes, hq]
      simp
    | true =>
      rw [hchanges] at hq
      obtain ⟨a, ha⟩ := Option.isSome_iff_exists.mp hq
      have hsome : q.statement ≠ none := by
        rw [ha]
        nofun
      rw [hresult (fun hlogout => by rw [hlogout] at hchanges; cases hchanges)] at hstatus
      have hanswer := hstatus.trans <| answer_succeeds fun herror => by
        obtain ⟨text, htext, rfl⟩ := htells.status hsome herror
        exact hdump text htext
      refine ⟨fun h200 _ => ?_, fun hnot => ?_⟩
      · obtain ⟨u, hchecked, hasked⟩ := asks_for hended' hbefore huser (fun u => hposed _ q response u rfl) ha
        refine ⟨u, a, hchecked, hasked, ?_⟩
        rw [htells.changes, if_pos (hanswer.mp h200), ha]
        rfl
      · have hfailed : reply.status ≠ 200 := hnot.resolve_right (by rw [hchanges]; simp)
        rw [htells.changes, if_neg fun herror => hfailed (hanswer.mpr herror)]

/-- **The status tells the truth.** In every run of the backend, when a handler is done, its status
tells what the request has changed: the statement it asked for, or nothing. -/
theorem status_tells {others : Finset ℕ} {w : World} {s : Backend κ}
    (hdump : ∀ text ∈ statusTexts, (P.json.dump (.status text)).isSome = true)
    (hrun : Reaches (Step P checks faults order maxFd maxRequests) (start others w) s) {k : κ} {c' : Conn}
    {r : Request} {done : List (Entry services actions)} {result : HandlerResult}
    (hjob : s.jobs k = some ⟨c', r, .between done (.ret result)⟩) {reply : Reply}
    (hreply : Reply.of (caught result).1 (caught result).2 = some reply) :
    Honest P.json checks r reply.status (done.flatMap Entry.inner) :=
  keeps_honest hdump ((sound_of_reaches hrun).keeps k _ hjob) hreply

def deleteRequest : Bytes :=
  ascii "DELETE /api/resources?id=1 HTTP/1.1\r\nAuthorization: Bearer t\r\n\r\n"

def deleteJob : Request := ⟨.deleteResource, .delete, ascii "/api/resources?id=1", ascii "t", []⟩

def deleteConn : Conn := ((Conn.accepted ⟨5, []⟩).read ⟨[deleteRequest], .again, .again⟩).1

theorem deleteConn_spec : (Conn.accepted ⟨5, []⟩).read ⟨[deleteRequest], .again, .again⟩ = (deleteConn, true) ∧
    processRead deleteConn = .ok (Session.parsed deleteConn, .handler deleteJob) :=
  ⟨Prod.ext rfl (by decide +kernel), by decide +kernel⟩

/-- The token `t` means user 1. -/
def isOne (token : Bytes) (user : Option ℤ) : Prop := user = if token = ascii "t" then some 1 else none

/-- Writes what tells of a change. -/
def reporting : Platform where
  json := Session.statusLib
  getenv _ := none
  sha256 _ := []

theorem exists_deleted : ∃ (s : Backend Unit) (done : List (Entry services actions)) (result : HandlerResult)
    (reply : Reply),
    Reaches (Step reporting isOne .never ⟨id, fun _ => .refl _⟩ 4096 10000) (start ∅ oneResource) s ∧
    s.jobs () = some ⟨Session.parsed deleteConn, deleteJob, .between done (.ret result)⟩ ∧
    Reply.of (caught result).1 (caught result).2 = some reply ∧ reply.status = 200 ∧
    s.world.resources.rows = [] := by
  obtain ⟨server, hparses, hcalled⟩ := exists_call reporting isOne .never ⟨id, fun _ => .refl _⟩ oneResource
    (C := fun _ _ => True) (fun _ _ => trivial) (fun _ => trivial) deleteConn_spec.1 deleteConn_spec.2
  have hchecked := hcalled.snoc (.act (k := ()) rfl (.atomic rfl rfl)) trivial
  have hentered := hchecked.snoc (.act (k := ()) rfl (.enter rfl)) trivial
  have hfound := runs_act (runs_act hentered
    () ⟨.clearMsg .resource, ()⟩ rfl rfl trivial)
    () ⟨.selectResource 1 1, Except.ok (some ⟨1, ascii "note", ascii "text", false⟩)⟩ rfl
      (Or.inl ⟨rfl, rfl⟩) trivial
  have hdeleted := runs_act (runs_act hfound
    () ⟨.clearMsg .resource, ()⟩ rfl rfl trivial)
    () ⟨.deleteResource 1 1, Except.ok 1⟩ rfl (Or.inl ⟨rfl, rfl⟩) trivial
  have hevicted := runs_act (runs_act hdeleted
    () ⟨.redisDel (CacheKey.resource 1 1).text, true⟩ rfl (Or.inl ⟨rfl, rfl⟩) trivial)
    () ⟨.redisDel (CacheKey.list 1).text, true⟩ rfl (Or.inl ⟨rfl, rfl⟩) trivial
  have hleft := hevicted.snoc (.act (k := ()) rfl .leave) trivial
  exact ⟨_, _, _, _, hleft, rfl, rfl, rfl, rfl⟩

theorem reporting_dump : ∀ text ∈ statusTexts, (reporting.json.dump (.status text)).isSome = true :=
  fun _ _ => rfl

/-- User 1 has deleted a resource and is told so. -/
theorem deleted_tells : ∃ (s : Backend Unit) (done : List (Entry services actions)),
    Reaches (Step reporting isOne .never ⟨id, fun _ => .refl _⟩ 4096 10000) (start ∅ oneResource) s ∧
    s.world.resources.rows = [] ∧
    Honest reporting.json isOne deleteJob 200 (done.flatMap Entry.inner) := by
  obtain ⟨s, done, result, reply, hrun, hjob, hreply, h200, hrows⟩ := exists_deleted
  exact ⟨s, done, hrun, hrows, h200 ▸ status_tells reporting_dump hrun hjob hreply⟩

end Backend
end Runtime
end ResourceServer

import ResourceServer.Http.Conversation
import ResourceServer.Runtime.Quiescence
import ResourceServer.Service.Budgets

/-!
# The whole backend comes to rest

The steps of `Runtime.Quiescence`, with each handler as the actions it performs on the stores
between those of all others. Handlers are short and none waits for another, so a bounded number
of steps leads from one report of `epoll_wait` to where the next is needed. There every answer
is on its wire, but for bytes that a socket has yet to take.
-/

namespace ResourceServer
namespace Runtime

open CString Http Service

/-- No handler takes more steps, those of its service call included. -/
def longestJob : ℕ := 2 * (longestCall + 2)

/-- What is left to a worker's handler, the call of it included. -/
def jobLoad : Option Job → ℕ
  | none => longestJob + 1
  | some job => longestJob - job.task.spent

/-- Moves that bring a request further. -/
def Move.advances {κ : Type} : Move κ → Bool
  | .server .elsewhere | .expire _ => false
  | .server .loop | .server (.worker _) | .call _ _ | .act _ _ | .reply _ => true

namespace Backend

variable {κ : Type}

/-- `epoll_wait` returns with something new. -/
def Reports (s : Backend κ) (m : Move κ) : Prop := m = .server .loop ∧ s.server.loop = .waiting

/-- Every handler under way is in time. -/
def Timely (s : Backend κ) : Prop :=
  ∀ k job, s.jobs k = some job → job.task.Fits longestCall longestJob

variable [Fintype κ]

/-- What is left to the whole backend. -/
def work (s : Backend κ) : ℕ := (longestJob + 2) * s.server.work + ∑ k, jobLoad (s.jobs k)

variable [DecidableEq κ] {P : Platform} {checks : Bytes → Option ℤ → Prop} {faults : Faults}
  {order : RowOrder} {maxFd maxRequests : ℕ} {s s' : Backend κ} {m : Move κ}

theorem serviceLayer_within (P : Platform) (checks : Bytes → Option ℤ → Prop) :
    ∀ op p, (serviceLayer P checks).body op = some p → p.Within longestCall := by
  intro op p hbody
  cases op with
  | getUserIdFromToken token => cases hbody
  | ask q =>
    obtain rfl : serve P q = p := Option.some.inj hbody
    exact serve_within P q

omit [Fintype κ] in
theorem Timely.step (h : s.Timely) (hstep : Step P checks faults order maxFd maxRequests s m s') : s'.Timely := by
  cases hstep with
  | server | expire => exact h
  | call =>
    refine forall_setJob (fun j x _ hx => h j x hx) ?_
    rintro _ ⟨⟩
    exact .start (handle_within P.json _)
  | @act k job e w' task' hjob htask =>
    refine forall_setJob (fun j x _ hx => h j x hx) ?_
    rintro _ ⟨⟩
    exact ((h k job hjob).step (serviceLayer_within P checks) htask).1
  | answer | unanswered => exact forall_setJob (fun j x _ hx => h j x hx) (by rintro _ ⟨⟩)

/-- A backend whose handlers and workers keep to their bounds. -/
structure Bounded (P : Platform) (checks : Bytes → Option ℤ → Prop) (s : Backend κ) : Prop where
  sound : s.Sound P checks
  staffed : s.server.Staffed
  timely : s.Timely

omit [DecidableEq κ] in
theorem Bounded.start (others : Finset ℕ) (w : World) : (start others w : Backend κ).Bounded P checks where
  sound := .start others w
  staffed := .start others
  timely k job hjob := by cases hjob

theorem Bounded.step (h : s.Bounded P checks) (hstep : Step P checks faults order maxFd maxRequests s m s') :
    s'.Bounded P checks := by
  refine ⟨h.sound.step hstep, ?_, h.timely.step hstep⟩
  cases hstep with
  | server hserver => exact h.staffed.step hserver
  | call | act | expire => exact h.staffed
  | answer | unanswered => exact h.staffed.loop rfl rfl

theorem bounded_of_reaches {others : Finset ℕ} {w : World}
    (hrun : Reaches (Step P checks faults order maxFd maxRequests) (start others w) s) : s.Bounded P checks :=
  hrun.invariant (fun _ _ _ h hstep => h.step hstep) (.start others w)

theorem work_lt_of_job {k : κ} {job : Option Job} (hserver : s'.server = s.server)
    (hjobs : s'.jobs = Function.update s.jobs k job) (hload : jobLoad job < jobLoad (s.jobs k)) :
    s'.work < s.work := by
  have hsum := sum_update (w := jobLoad) s.jobs k job
  unfold work
  rw [hserver, hjobs]
  omega

/-- The server goes on, and at most one handler has ended. -/
theorem work_lt_of_server (hserver : s'.server.work < s.server.work)
    (hjobs : s'.jobs = s.jobs ∨ ∃ k, s'.jobs = Function.update s.jobs k none) : s'.work < s.work := by
  have hmul : (longestJob + 2) * s'.server.work + (longestJob + 2) ≤ (longestJob + 2) * s.server.work := by
    rw [← Nat.mul_succ]
    exact Nat.mul_le_mul_left _ hserver
  unfold work
  rcases hjobs with hjobs | ⟨k, hjobs⟩
  · rw [hjobs]
    omega
  · have hsum := sum_update (w := jobLoad) s.jobs k none
    have hnone : jobLoad none = longestJob + 1 := rfl
    rw [hjobs]
    omega

theorem Bounded.work_lt (h : s.Bounded P checks) (hadvances : m.advances = true) (hnew : ¬ s.Reports m)
    (hstep : Step P checks faults order maxFd maxRequests s m s') : s'.work < s.work := by
  -- a reply ends the worker's parsing
  have hreply {k : κ} {fd : ℕ} {job : Job} {x : Session} {stage : ProcessStage}
      (hk : s.server.pool.workers k = .processing fd) (hjob : s.jobs k = some job)
      (hload : (Worker.processing fd).load stage < (Worker.processing fd).load .parsing) :
      ((s.server.setUser fd x).moveStage k stage).work < s.server.work := by
    obtain ⟨_, _, hparses, -⟩ := h.sound.pinned k job hjob
    refine Server.work_lt_of_stage hk rfl rfl rfl ?_
    rw [hparses.stage]
    exact hload
  cases hstep with
  | @server verify agent server hserver hidle =>
    refine work_lt_of_server (h.staffed.work_lt ?_ hserver) (Or.inl rfl)
    cases agent with
    | loop => exact fun hwaiting => hnew ⟨rfl, hwaiting⟩
    | worker k => trivial
    | elsewhere => cases hadvances
  | @call k fd c' r hk hstage hparse hjob =>
    refine work_lt_of_job (k := k) rfl rfl ?_
    rw [hjob]
    exact Nat.lt_succ_of_le (Nat.sub_le longestJob _)
  | @act k job e w' task' hjob htask =>
    obtain ⟨hfits, hspent⟩ := (h.timely k job hjob).step (serviceLayer_within P checks) htask
    have hle := hfits.spent_le
    refine work_lt_of_job (k := k) rfl rfl ?_
    rw [hjob]
    dsimp only [jobLoad]
    omega
  | @answer k fd c' r done result hk hjob hwrite =>
    exact work_lt_of_server (hreply hk hjob (by simp [Worker.load])) (Or.inr ⟨k, rfl⟩)
  | @unanswered k fd c' r done result hk hjob hwrite =>
    exact work_lt_of_server (hreply hk hjob (by simp [Worker.load])) (Or.inr ⟨k, rfl⟩)
  | expire key => cases hadvances

theorem Bounded.work_le (h : s.Bounded P checks) (hnew : ¬ s.Reports m)
    (hstep : Step P checks faults order maxFd maxRequests s m s') : s'.work ≤ s.work := by
  by_cases hadvances : m.advances = true
  · exact (h.work_lt hadvances hnew hstep).le
  · cases hstep with
    | @server verify agent server hserver hidle =>
      cases agent with
      | loop => exact absurd rfl hadvances
      | worker k => exact absurd rfl hadvances
      | elsewhere =>
        cases hserver
        exact le_rfl
    | call | act | answer | unanswered => exact absurd rfl hadvances
    | expire key => exact le_rfl

/-- What brings a request further would be something new. -/
def Stuck (P : Platform) (checks : Bytes → Option ℤ → Prop) (faults : Faults) (order : RowOrder)
    (maxFd maxRequests : ℕ) (s : Backend κ) : Prop :=
  ∀ m s', Step P checks faults order maxFd maxRequests s m s' → m.advances = true → s.Reports m

variable {verify : Bytes → Option ℤ}

/-- A handler under way can go on. -/
theorem Bounded.exists_job_step (order : RowOrder) (maxFd maxRequests : ℕ) (h : s.Bounded P checks)
    (hchecks : ∀ token, ∃ user, checks token user) (hdatabase : faults.database) {k : κ} {job : Job}
    (hjob : s.jobs k = some job) :
    ∃ m s', Step P checks faults order maxFd maxRequests s m s' ∧ m.advances = true ∧ ¬ s.Reports m := by
  have hanswers (op : ServiceCall) (hnone : (serviceLayer P checks).body op = none) :
      ∃ user, (serviceLayer P checks).atomic op user := by
    cases op with
    | getUserIdFromToken token => exact hchecks token
    | ask q => cases hnone
  rcases Task.exists_step (World.exists_doesShared hdatabase order) hanswers s.world job.task with
    ⟨done, result, hdone⟩ | ⟨e, w', task', htask⟩
  · obtain ⟨c', r, task⟩ := job
    obtain rfl : task = .between done (.ret result) := hdone
    obtain ⟨fd, _, hparses, -⟩ := h.sound.pinned k _ hjob
    cases hwrite : (Conn.processWrite { c' with jsonRes := (caught result).2 } (caught result).1).2 with
    | true => exact ⟨_, _, .answer hparses.working hjob hwrite, rfl, by rintro ⟨⟨⟩, -⟩⟩
    | false => exact ⟨_, _, .unanswered hparses.working hjob hwrite, rfl, by rintro ⟨⟨⟩, -⟩⟩
  · exact ⟨_, _, .act hjob htask, rfl, by rintro ⟨⟨⟩, -⟩⟩

/-- No handler is under way. -/
theorem Stuck.jobs_eq_none (h : s.Bounded P checks) (hchecks : ∀ token, ∃ user, checks token user)
    (hdatabase : faults.database) (hstuck : Stuck P checks faults order maxFd maxRequests s) (k : κ) :
    s.jobs k = none := by
  cases hjob : s.jobs k with
  | none => rfl
  | some job =>
    obtain ⟨m, s', hstep, hadvances, hnew⟩ :=
      h.exists_job_step order maxFd maxRequests hchecks hdatabase hjob
    exact absurd (hstuck m s' hstep hadvances) hnew

omit [Fintype κ] in
theorem Stuck.server (hjobs : ∀ k, s.jobs k = none) (hstuck : Stuck P checks faults order maxFd maxRequests s) :
    Server.Stuck P.json verify maxFd maxRequests s.server := by
  intro agent server' hstep hworking
  cases agent with
  | loop => exact hworking (hstuck _ _ (.server hstep (by rintro k ⟨⟩)) rfl).2
  | elsewhere => exact hworking
  | worker k =>
    by_cases hat : s.server.AtHandler k
    · obtain ⟨fd, c', r, hk, hstage, hparse⟩ := hat
      cases (hstuck _ _ (.call hk hstage hparse (hjobs k)) rfl).1
    · refine absurd (hstuck _ _ (.server hstep ?_) rfl).1 (by rintro ⟨⟩)
      rintro j ⟨⟩
      exact ⟨hjobs k, hat⟩

/-- A connection armed for `i` whose answers are `ms`: the rest of a request is to come and all
answers are on the wire, or the socket has yet to take the end of them. -/
def Rests (x : Session) (ms : List Message) : Interest → Prop
  | .input => (Head.initial.read x.received).IsIncomplete ∧ x.wire = ms.flatMap Message.encode
  | .output => ∃ left, left ≠ [] ∧ x.wire ++ left = ms.flatMap Message.encode

theorem rests_of_settled {lib : JsonLib} {x : Session} {i : Interest} (hx : Settled lib verify x)
    (hphase : x.phase = i.phase) (hfits : ∀ a ∈ x.answers, (a.response.length : ℤ) ≤ intMax) :
    ∃ ms, List.Forall₂ (Shows lib verify) x.answers ms ∧ Rests x ms i := by
  obtain ⟨peer, hrun⟩ := hx
  obtain ⟨ms, hms⟩ := Session.converses_of_reaches hrun hfits
  refine ⟨ms, hms.shown, ?_⟩
  cases i with
  | input =>
    obtain ⟨h, pending, hhead, -⟩ := Session.readable_of_reaches hrun hphase
    refine ⟨?_, (hms.reading hphase).1⟩
    rw [hhead]
    trivial
  | output =>
    obtain ⟨-, head, body, -, hne, hall⟩ := hms.writing hphase
    exact ⟨head ++ body, hne, hall⟩

/-- All that was reported is done, and nobody waits for an answer. -/
structure AtRest (lib : JsonLib) (verify : Bytes → Option ℤ) (s : Backend κ) : Prop where
  server : s.server.AtRest lib verify
  jobs : ∀ k, s.jobs k = none
  answered : ∀ fd i, s.server.armed fd = some i →
    (∀ a ∈ (s.server.users fd).answers, (a.response.length : ℤ) ≤ intMax) →
      ∃ ms, List.Forall₂ (Shows lib verify) (s.server.users fd).answers ms ∧ Rests (s.server.users fd) ms i

/-- **Every request is answered.** Behind every reachable state, whatever the stores return and
however the handlers' actions interleave, the moves that bring a request further are bounded until
`epoll_wait` reports something new. Where none is left, no handler is under way, the server is at
rest, and an armed connection has all its answers on the wire and waits for the rest of a request,
or its socket has yet to take the end of the last one. -/
theorem requests_answered (hchecks : ∀ token user, checks token user ↔ user = verify token)
    (hdatabase : faults.database) {others : Finset ℕ} {w : World}
    (hrun : Reaches (Step P checks faults order maxFd maxRequests) (start others w) s) :
    (∀ moves s', Path (fun s m s' => Step P checks faults order maxFd maxRequests s m s' ∧ ¬ s.Reports m)
      s moves s' → moves.countP Move.advances ≤ s.work) ∧
    (Stuck P checks faults order maxFd maxRequests s → s.AtRest P.json verify) := by
  have hbounded := bounded_of_reaches hrun
  refine ⟨fun moves s' hpath => ?_, fun hstuck => ?_⟩
  · have hle := Path.countP_le (I := Bounded P checks) work Move.advances hpath
      (fun _ _ _ h hstep => ⟨h.step hstep.1, h.work_le hstep.2 hstep.1,
        fun hadvances => h.work_lt hadvances hstep.2 hstep.1⟩) hbounded
    omega
  · have hjobs := hstuck.jobs_eq_none hbounded (fun token => ⟨verify token, (hchecks token _).mpr rfl⟩) hdatabase
    obtain ⟨-, -, hserver⟩ := follows_of_reaches (fun token user h => (hchecks token user).mp h) hrun
    have hrest := (hstuck.server hjobs).atRest hserver
    refine ⟨hrest, hjobs, fun fd i harmed hfits => ?_⟩
    obtain ⟨hsettled, hphase⟩ := Server.armed_settled hserver hrest.loop harmed
    exact rests_of_settled hsettled hphase hfits

/-- User 7 has asked for a list. -/
theorem called_answered : ∃ s : Backend Unit, (∃ job, s.jobs () = some job) ∧
    (∀ moves s', Path (fun s m s' => Step listing sevens .any ⟨id, fun _ => .refl _⟩ 4096 10000 s m s' ∧
      ¬ s.Reports m) s moves s' → moves.countP Move.advances ≤ s.work) ∧
    (Stuck listing sevens .any ⟨id, fun _ => .refl _⟩ 4096 10000 s →
      s.AtRest listing.json fun token => if token = ascii "t" then some 7 else none) := by
  obtain ⟨server, -, hrun⟩ := exists_call listing sevens .any ⟨id, fun _ => .refl _⟩ oneResource
    (C := fun _ _ => True) (fun _ _ => trivial) (fun _ => trivial) listConn_spec.1 listConn_spec.2
  have hjob : (setJob ⟨server, oneResource, fun _ => none⟩ ()
      (some ⟨Session.parsed listConn, listJob, .start (handle listing.json listJob)⟩)).jobs () ≠ none := by
    simp [setJob]
  exact ⟨_, Option.ne_none_iff_exists'.mp hjob, requests_answered (fun _ _ => Iff.rfl) trivial hrun⟩

end Backend
end Runtime
end ResourceServer

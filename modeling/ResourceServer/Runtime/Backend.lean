import ResourceServer.Foundation.Layers
import ResourceServer.Http.Asking
import ResourceServer.Http.Stream
import ResourceServer.Runtime.Exclusive
import ResourceServer.Service.Interleaving

/-!
# The whole backend

The event loop, the workers and the stores together. A worker that runs a handler performs one
action on the stores at a time, between those of all other workers. The connection is written
back when the handler is done: no one else looks at it before, so to every connection the
handler is one step.
-/

namespace ResourceServer
namespace Runtime

open CString Http Service

namespace Server

variable {κ : Type}

/-- Worker `k` is about to call a handler. -/
def AtHandler (s : Server κ) (k : κ) : Prop :=
  ∃ fd c' r, s.pool.workers k = .processing fd ∧ s.stages k = .parsing ∧
    processRead (s.users fd).conn = .ok (c', .handler r)

theorem closeConn_users_of_ne (s : Server κ) {fd g : ℕ} (hne : g ≠ fd) :
    (s.closeConn fd).users g = s.users g := by
  unfold closeConn
  split_ifs
  · exact Function.update_of_ne hne _ _
  · rfl

theorem closeConn_pool (s : Server κ) (fd : ℕ) :
    (s.closeConn fd).pool = s.pool ∧ (s.closeConn fd).stages = s.stages := by
  unfold closeConn
  split_ifs
  · exact ⟨rfl, rfl⟩
  · exact ⟨rfl, rfl⟩

variable [Fintype κ] [DecidableEq κ] {lib : JsonLib} {verify : Bytes → Option ℤ} {maxFd maxRequests : ℕ}

/-- Worker `k` parses what has arrived for `fd`. -/
structure Parses (s : Server κ) (k : κ) (fd : ℕ) (x : Session) : Prop where
  working : s.pool.workers k = .processing fd
  stage : s.stages k = .parsing
  user : s.users fd = x

omit [Fintype κ] [DecidableEq κ] in
theorem Parses.uses {s : Server κ} {k : κ} {fd : ℕ} {x : Session} (h : s.Parses k fd x) :
    s.uses k = some fd := by
  rw [Server.uses, h.stage, if_neg (by rintro ⟨⟩), h.working]
  rfl

theorem Parses.processed {s : Server κ} {k j : κ} {fd g : ℕ} {x : Session} (hs : s.Accounted)
    (h : s.Parses k fd x) (hj : s.pool.workers j = .processing g) (hstage : s.stages j ≠ .returning)
    (hne : j ≠ k) (x' : Session) (stage : ProcessStage) :
    ((s.setUser g x').moveStage j stage).Parses k fd x := by
  refine ⟨h.working, ?_, ?_⟩
  · exact (Function.update_of_ne (Ne.symm hne) _ _).trans h.stage
  · refine (Function.update_of_ne ?_ _ _).trans h.user
    rintro rfl
    obtain ⟨-, -, -, -, -, honly⟩ := hs.uses_only h.uses
    apply hne
    apply honly
    rw [Server.uses, if_neg hstage, hj]
    rfl

theorem Parses.step {s s' : Server κ} {agent : Agent κ} {k : κ} {fd : ℕ} {x : Session} (hs : s.Accounted)
    (h : s.Parses k fd x) (hother : agent ≠ .worker k)
    (hstep : Step lib verify maxFd maxRequests s agent s') : s'.Parses k fd x := by
  obtain ⟨hk, hstage, rfl⟩ := h
  obtain ⟨-, -, hhand, -, -, honly⟩ := hs.uses_only (Parses.uses ⟨hk, hstage, rfl⟩)
  have hloop {g : ℕ} {loop : LoopStage} {x : Session} (h : s.loop = loop) (hg : loop.hand = some g) :
      Function.update s.users g x fd = s.users fd := by
    apply Function.update_of_ne
    rintro rfl
    rw [h] at hhand
    exact hhand hg
  have hmove {j : κ} {stage : ProcessStage} (hne : j ≠ k) :
      Function.update s.stages j stage k = .parsing := by
    rw [Function.update_of_ne (Ne.symm hne), hstage]
  cases hstep with
  | wait | back | acceptFails | turnAway | accept | hangup | readable | writable | elsewhere =>
    exact ⟨hk, hstage, rfl⟩
  | init h | read h | readFails h | blocked h | finished h | writeEnds h | writeFails h =>
    exact ⟨hk, hstage, hloop h rfl⟩
  | append _ hpool =>
    obtain ⟨-, -, hworkers⟩ := hpool.append_accepted
    exact ⟨(congrFun hworkers k).trans hk, hstage, rfl⟩
  | refuse _ hpool =>
    obtain ⟨-, -, -, hworkers⟩ := hpool.append_refused
    exact ⟨(congrFun hworkers k).trans hk, hstage, rfl⟩
  | release _ hpool =>
    obtain ⟨-, -, hworkers⟩ := hpool.release_frame
    exact ⟨(congrFun hworkers k).trans hk, hstage, rfl⟩
  | @close g _ h =>
    obtain ⟨hpool, hstages⟩ := s.closeConn_pool g
    refine ⟨?_, ?_, s.closeConn_users_of_ne ?_⟩
    · exact (congrArg (fun pool : ThreadPool ℕ Unit κ => pool.workers k) hpool).trans hk
    · exact (congrFun hstages k).trans hstage
    · rintro rfl
      rw [h] at hhand
      exact hhand rfl
  | @run j pool hpool =>
    obtain ⟨-, -, hrequests⟩ := hpool.run_frame
    have hrequest := hrequests k
    rw [hk] at hrequest
    refine ⟨?_, hstage, rfl⟩
    show pool.workers k = .processing fd
    cases hw : pool.workers k with
    | processing g =>
      rw [hw] at hrequest
      cases hrequest
      rfl
    | _ =>
      rw [hw] at hrequest
      cases hrequest
  | @take j r pool hpool =>
    have hne : j ≠ k := fun h => hother (congrArg Agent.worker h)
    obtain ⟨-, -, -, hworkers⟩ := hpool.take_spec
    refine ⟨?_, hmove hne, rfl⟩
    show pool.workers k = .processing fd
    rw [hworkers, Function.update_of_ne (Ne.symm hne), hk]
  | @fault j _ _ _ _ _ | @rearm j =>
    have hne : j ≠ k := fun h => hother (congrArg Agent.worker h)
    exact ⟨hk, hmove hne, rfl⟩
  | @incomplete j g c' hj hstage' =>
    have hne : j ≠ k := fun h => hother (congrArg Agent.worker h)
    exact Parses.processed hs ⟨hk, hstage, rfl⟩ hj (by rw [hstage']; rintro ⟨⟩) hne _ _
  | @answer j g c' v calls result hj hstage' =>
    have hne : j ≠ k := fun h => hother (congrArg Agent.worker h)
    exact Parses.processed hs ⟨hk, hstage, rfl⟩ hj (by rw [hstage']; rintro ⟨⟩) hne _ _
  | @unanswered j g c' v calls result hj hstage' =>
    have hne : j ≠ k := fun h => hother (congrArg Agent.worker h)
    exact Parses.processed hs ⟨hk, hstage, rfl⟩ hj (by rw [hstage']; rintro ⟨⟩) hne _ _
  | @workerCloses j g hj hstage' =>
    have hne : j ≠ k := fun h => hother (congrArg Agent.worker h)
    obtain ⟨hpool, hstages⟩ := s.closeConn_pool g
    refine ⟨?_, ?_, s.closeConn_users_of_ne ?_⟩
    · exact (congrArg (fun pool : ThreadPool ℕ Unit κ => pool.workers k) hpool).trans hk
    · show Function.update (s.closeConn g).stages j _ k = .parsing
      rw [hstages]
      exact hmove hne
    · rintro rfl
      apply hne
      apply honly
      rw [Server.uses, hstage', hj]
      rfl
  | @done j pool hstage' hpool =>
    have hne : j ≠ k := fun h => hother (congrArg Agent.worker h)
    obtain ⟨-, -, hworkers⟩ := hpool.done_spec
    refine ⟨?_, hstage, rfl⟩
    show pool.workers k = .processing fd
    rw [hworkers, Function.update_of_ne (Ne.symm hne), hk]

omit [Fintype κ] in
theorem Step.tokenless {verify' : Bytes → Option ℤ} {s s' : Server κ} {agent : Agent κ}
    (hstep : Step lib verify maxFd maxRequests s agent s')
    (hidle : ∀ k, agent = .worker k → ¬ s.AtHandler k) :
    Step lib verify' maxFd maxRequests s agent s' := by
  cases hstep with
  | @answer k fd c' v calls result hk hstage hparse hverdict houtcome hwrite =>
    cases houtcome with
    | code code => exact .answer hk hstage hparse hverdict (.code code) hwrite
    | handler r hexec => exact absurd ⟨fd, c', r, hk, hstage, hparse⟩ (hidle k rfl)
  | @unanswered k fd c' v calls result hk hstage hparse hverdict houtcome hwrite =>
    cases houtcome with
    | code code => exact .unanswered hk hstage hparse hverdict (.code code) hwrite
    | handler r hexec => exact absurd ⟨fd, c', r, hk, hstage, hparse⟩ (hidle k rfl)
  | wait events hloop hlength hdistinct hdue => exact .wait events hloop hlength hdistinct hdue
  | back hloop => exact .back hloop
  | acceptFails hloop => exact .acceptFails hloop
  | turnAway hloop hfresh hfull => exact .turnAway hloop hfresh hfull
  | accept address hloop hfresh hroom => exact .accept address hloop hfresh hroom
  | init hloop => exact .init hloop
  | hangup hloop => exact .hangup hloop
  | readable hloop => exact .readable hloop
  | writable hloop => exact .writable hloop
  | read hloop hread => exact .read hloop hread
  | readFails hloop hread => exact .readFails hloop hread
  | append hloop hpool => exact .append hloop hpool
  | refuse hloop hpool => exact .refuse hloop hpool
  | release hloop hpool => exact .release hloop hpool
  | blocked hloop hwrite => exact .blocked hloop hwrite
  | finished hloop hwrite => exact .finished hloop hwrite
  | writeEnds hloop hwrite => exact .writeEnds hloop hwrite
  | writeFails hloop hwrite => exact .writeFails hloop hwrite
  | close hloop => exact .close hloop
  | run hpool => exact .run hpool
  | take hpool => exact .take hpool
  | fault hk hstage hparse => exact .fault hk hstage hparse
  | incomplete hk hstage hparse => exact .incomplete hk hstage hparse
  | rearm hk hstage => exact .rearm hk hstage
  | workerCloses hk hstage => exact .workerCloses hk hstage
  | done hstage hpool => exact .done hstage hpool
  | elsewhere others hothers => exact .elsewhere others hothers

end Server

/-- The services as the handlers see them: a token is checked at once, a question is a service
call. What a token means may change as time passes. -/
def serviceLayer (P : Platform) (checks : Bytes → Option ℤ → Prop) : Layer services actions where
  body
    | .getUserIdFromToken _ => none
    | .ask q => some (serve P q)
  atomic
    | .getUserIdFromToken token, user => checks token user
    | .ask _, _ => False

/-- A handler under way, with the connection as `process_read` has left it. -/
structure Job where
  conn : Conn
  request : Request
  task : Task services actions HandlerResult

structure Backend (κ : Type) where
  server : Server κ
  world : World
  jobs : κ → Option Job

inductive Move (κ : Type) where
  | server (agent : Agent κ)
  -- the handler of `r` is called
  | call (k : κ) (r : Request)
  | act (k : κ) (e : Option (Event actions))
  | reply (k : κ)
  | expire (key : Bytes)

namespace Backend

variable {κ : Type}

def start (others : Finset ℕ) (w : World) : Backend κ where
  server := .start others
  world := w
  jobs _ := none

variable [DecidableEq κ]

def setJob (s : Backend κ) (k : κ) (job : Option Job) : Backend κ :=
  { s with jobs := Function.update s.jobs k job }

inductive Step (P : Platform) (checks : Bytes → Option ℤ → Prop) (faults : Faults) (order : RowOrder)
    (maxFd maxRequests : ℕ) : Backend κ → Move κ → Backend κ → Prop where
  | server {s : Backend κ} {verify : Bytes → Option ℤ} {agent : Agent κ} {server : Server κ}
      (hstep : Server.Step P.json verify maxFd maxRequests s.server agent server)
      (hidle : ∀ k, agent = .worker k → s.jobs k = none ∧ ¬ s.server.AtHandler k) :
      Step P checks faults order maxFd maxRequests s (.server agent) { s with server := server }
  | call {s : Backend κ} {k : κ} {fd : ℕ} {c' : Conn} {r : Request}
      (hk : s.server.pool.workers k = .processing fd) (hstage : s.server.stages k = .parsing)
      (hparse : processRead (s.server.users fd).conn = .ok (c', .handler r)) (hjob : s.jobs k = none) :
      Step P checks faults order maxFd maxRequests s (.call k r)
        (s.setJob k (some ⟨c', r, .start (handle P.json r)⟩))
  | act {s : Backend κ} {k : κ} {job : Job} {e : Option (Event actions)} {w' : World}
      {task' : Task services actions HandlerResult} (hjob : s.jobs k = some job)
      (htask : Task.Step (serviceLayer P checks) (World.doesShared faults order)
        (s.world, job.task) e (w', task')) :
      Step P checks faults order maxFd maxRequests s (.act k e)
        { s.setJob k (some { job with task := task' }) with world := w' }
  | answer {s : Backend κ} {k : κ} {fd : ℕ} {c' : Conn} {r : Request}
      {done : List (Entry services actions)} {result : HandlerResult}
      (hk : s.server.pool.workers k = .processing fd)
      (hjob : s.jobs k = some ⟨c', r, .between done (.ret result)⟩)
      (hwrite : (Conn.processWrite { c' with jsonRes := (caught result).2 } (caught result).1).2 = true) :
      Step P checks faults order maxFd maxRequests s (.reply k)
        { s.setJob k none with
          server := (s.server.setUser fd ((s.server.users fd).reply c' (.handler r)
            (done.map Entry.event) (caught result).1 (caught result).2)).moveStage k (.rearming .output) }
  -- `process_write` has returned false
  | unanswered {s : Backend κ} {k : κ} {fd : ℕ} {c' : Conn} {r : Request}
      {done : List (Entry services actions)} {result : HandlerResult}
      (hk : s.server.pool.workers k = .processing fd)
      (hjob : s.jobs k = some ⟨c', r, .between done (.ret result)⟩)
      (hwrite : (Conn.processWrite { c' with jsonRes := (caught result).2 } (caught result).1).2 = false) :
      Step P checks faults order maxFd maxRequests s (.reply k)
        { s.setJob k none with
          server := (s.server.setUser fd { s.server.users fd with
            conn := (Conn.processWrite { c' with jsonRes := (caught result).2 } (caught result).1).1 }
              ).moveStage k .closing }
  | expire {s : Backend κ} (key : Bytes) :
      Step P checks faults order maxFd maxRequests s (.expire key) { s with world := s.world.evict key }

/-- What a handler and its service call keep to. -/
def terms (P : Platform) (r : Request) : Task.Terms services actions HandlerResult where
  guard op past := Allowed r op past ∧ Poses (handle P.json r) op past
  promise result past := Concludes P.json r result past ∧ Posed (handle P.json r) past
  innerGuard
    | .getUserIdFromToken _, _, _ => False
    | .ask q, a, past => Guard P q a past
  innerPromise
    | .getUserIdFromToken _, _, _ => False
    | .ask q, answer, past => Tells q answer past

variable {P : Platform} {checks : Bytes → Option ℤ → Prop} {faults : Faults} {order : RowOrder}
  {maxFd maxRequests : ℕ} {s s' : Backend κ} {m : Move κ}

theorem terms_bodies (P : Platform) (checks : Bytes → Option ℤ → Prop) (r : Request) :
    (terms P r).Bodies (serviceLayer P checks) := by
  intro op p hbody
  cases op with
  | getUserIdFromToken token => cases hbody
  | ask q =>
    obtain rfl : serve P q = p := Option.some.inj hbody
    exact serve_tells P q

/-- Worker `k` holds the connection that the handler was called for. -/
def Pinned (server : Server κ) (k : κ) (job : Job) : Prop :=
  ∃ fd x, server.Parses k fd x ∧ processRead x.conn = .ok (job.conn, .handler job.request)

/-- What holds of a backend that runs. -/
structure Sound (P : Platform) (checks : Bytes → Option ℤ → Prop) [Fintype κ] (s : Backend κ) : Prop where
  accounted : s.server.Accounted
  pinned : ∀ k job, s.jobs k = some job → Pinned s.server k job
  keeps : ∀ k job, s.jobs k = some job → job.task.Keeps (serviceLayer P checks) (terms P job.request)

variable [Fintype κ]

omit [DecidableEq κ] in
theorem Sound.start (others : Finset ℕ) (w : World) : (start others w : Backend κ).Sound P checks where
  accounted := .start others
  pinned k job hjob := by cases hjob
  keeps k job hjob := by cases hjob

omit [Fintype κ] in
theorem forall_setJob {k : κ} {job : Option Job} {I : κ → Job → Prop}
    (h : ∀ j x, j ≠ k → s.jobs j = some x → I j x) (hjob : ∀ x, job = some x → I k x) :
    ∀ j x, (s.setJob k job).jobs j = some x → I j x := by
  intro j x hx
  dsimp only [setJob] at hx
  by_cases hj : j = k
  · subst hj
    rw [Function.update_self] at hx
    exact hjob x hx
  · rw [Function.update_of_ne hj] at hx
    exact h j x hj hx

theorem Sound.reply (h : s.Sound P checks) {k : κ} {fd : ℕ} {job : Job}
    (hk : s.server.pool.workers k = .processing fd) (hjob : s.jobs k = some job) {x : Session}
    {stage : ProcessStage} (hpeer : x.conn.toPeer = (s.server.users fd).conn.toPeer)
    (hstage : stage ≠ .returning) :
    Sound P checks { s.setJob k none with server := (s.server.setUser fd x).moveStage k stage } where
  accounted := by
    obtain ⟨_, _, hparses, -⟩ := h.pinned k job hjob
    refine (h.accounted.setUser hpeer).moveStage (fun hreturning => ?_) hstage
    exact absurd (hparses.stage.symm.trans hreturning) (by rintro ⟨⟩)
  pinned := by
    obtain ⟨_, _, hparses, -⟩ := h.pinned k job hjob
    refine forall_setJob (I := Pinned _) (fun j y hj hy => ?_) (by rintro _ ⟨⟩)
    obtain ⟨g, z, hparses', hparsed⟩ := h.pinned j y hy
    refine ⟨g, z, hparses'.processed h.accounted hk ?_ (Ne.symm hj) _ _, hparsed⟩
    rw [hparses.stage]
    rintro ⟨⟩
  keeps := forall_setJob (fun j y _ hy => h.keeps j y hy) (by rintro _ ⟨⟩)

theorem Sound.step (h : s.Sound P checks) (hstep : Step P checks faults order maxFd maxRequests s m s') :
    s'.Sound P checks := by
  cases hstep with
  | @server verify agent server hstep hidle =>
    refine ⟨h.accounted.step hstep, fun k job hjob => ?_, h.keeps⟩
    obtain ⟨fd, x, hparses, hparsed⟩ := h.pinned k job hjob
    refine ⟨fd, x, hparses.step h.accounted ?_ hstep, hparsed⟩
    rintro rfl
    obtain ⟨hnone, -⟩ := hidle k rfl
    cases hnone.symm.trans hjob
  | @call k fd c' r hk hstage hparse hjob =>
    refine ⟨h.accounted, forall_setJob (fun j x _ hx => h.pinned j x hx) ?_,
      forall_setJob (fun j x _ hx => h.keeps j x hx) ?_⟩
    · rintro _ ⟨⟩
      exact ⟨fd, _, ⟨hk, hstage, rfl⟩, hparse⟩
    · rintro _ ⟨⟩
      exact .start (handle_poses P.json r)
  | @act k job e w' task' hjob htask =>
    refine ⟨h.accounted, forall_setJob (fun j x _ hx => h.pinned j x hx) ?_,
      forall_setJob (fun j x _ hx => h.keeps j x hx) ?_⟩
    · rintro _ ⟨⟩
      exact h.pinned k job hjob
    · rintro _ ⟨⟩
      exact (h.keeps k job hjob).step (terms_bodies P checks job.request) htask
  | @answer k fd c' r done result hk hjob hwrite =>
    obtain ⟨g, x, hparses, hparsed⟩ := h.pinned k _ hjob
    cases hparses.working.symm.trans hk
    have hpeer := Conn.processRead_toPeer hparsed
    refine h.reply hk hjob ?_ (by rintro ⟨⟩)
    rw [Session.reply, if_pos hwrite, hparses.user]
    exact (Conn.processWrite_toPeer _ _).trans hpeer
  | @unanswered k fd c' r done result hk hjob hwrite =>
    obtain ⟨g, x, hparses, hparsed⟩ := h.pinned k _ hjob
    cases hparses.working.symm.trans hk
    have hpeer := Conn.processRead_toPeer hparsed
    refine h.reply hk hjob ?_ (by rintro ⟨⟩)
    rw [hparses.user]
    exact (Conn.processWrite_toPeer _ _).trans hpeer
  | expire key => exact ⟨h.accounted, h.pinned, h.keeps⟩

theorem sound_of_reaches {others : Finset ℕ} {w : World}
    (hrun : Reaches (Step P checks faults order maxFd maxRequests) (start others w) s) :
    s.Sound P checks :=
  hrun.invariant (fun _ _ _ h hstep => h.step hstep) (.start others w)

variable {verify : Bytes → Option ℤ}

omit [Fintype κ] in
theorem runs_server {C : Backend κ → Move κ → Prop} (hC : ∀ s agent, C s (.server agent)) (w : World)
    {server server' : Server κ}
    (hrun : Runs (Server.Step P.json verify maxFd maxRequests)
      (fun s agent => ∀ k, agent = .worker k → ¬ s.AtHandler k) server server') :
    Runs (Step P checks faults order maxFd maxRequests) C ⟨server, w, fun _ => none⟩
      ⟨server', w, fun _ => none⟩ := by
  induction hrun with
  | refl => exact .refl
  | tail _ hlast ih =>
    obtain ⟨agent, hstep, hidle⟩ := hlast
    exact ih.snoc (.server hstep fun k hk => ⟨rfl, hidle k hk⟩) (hC _ _)

omit [Fintype κ] [DecidableEq κ] in
theorem not_atHandler {server : Server κ} {k : κ} (hk : (server.pool.workers k).request = none) :
    ¬ server.AtHandler k := by
  rintro ⟨fd, c', r, hprocessing, -⟩
  rw [hprocessing] at hk
  cases hk

theorem exists_parsing (lib : JsonLib) (verify : Bytes → Option ℤ) {a : Arrival} {c : Conn}
    (hread : (Conn.accepted ⟨5, []⟩).read a = (c, true)) :
    ∃ server : Server Unit, Runs (Server.Step lib verify 4096 10000)
      (fun s agent => ∀ k, agent = .worker k → ¬ s.AtHandler k) (.start ∅) server ∧
      server.Parses () 5 ((Session.accepted ⟨5, []⟩).afterRead c) := by
  have hstart : Runs (Server.Step lib verify 4096 10000)
      (fun s agent => ∀ k, agent = .worker k → ¬ s.AtHandler k) (.start ∅ : Server Unit) (.start ∅) := .refl
  have hnotice := hstart.snoc (.wait [.incoming] rfl (by decide) List.nodup_nil (by simp [Notice.Due]))
    (by rintro _ ⟨⟩)
  have haccept := hnotice.snoc (.accept [] rfl ⟨Finset.notMem_empty 5, Finset.notMem_empty 5⟩ (by decide))
    (by rintro _ ⟨⟩)
  have hback := (haccept.snoc (.init rfl) (by rintro _ ⟨⟩)).snoc (.back rfl) (by rintro _ ⟨⟩)
  have hreadable := hback.snoc (.wait [.readable 5] rfl (by decide) (List.nodup_singleton 5)
    (by simp [Notice.Due])) (by rintro _ ⟨⟩)
  have hfilled := (hreadable.snoc (.readable rfl) (by rintro _ ⟨⟩)).snoc (.read rfl hread) (by rintro _ ⟨⟩)
  have hqueued := (hfilled.snoc (.append rfl (.push (some 5) rfl (show 0 < 10000 by decide))) (by rintro _ ⟨⟩)).snoc
    (.release rfl (.release rfl)) (by rintro _ ⟨⟩)
  have hentered := hqueued.snoc (.run (k := ()) (.enter rfl rfl)) fun _ _ => not_atHandler rfl
  have hgranted := hentered.snoc (.run (k := ()) (.acquire rfl rfl)) fun _ _ => not_atHandler rfl
  have hpopping := hgranted.snoc (.run (k := ()) (.goOn rfl rfl)) fun _ _ => not_atHandler rfl
  have htaken := hpopping.snoc (.take (k := ()) (.pop rfl rfl)) fun _ _ => not_atHandler rfl
  exact ⟨_, htaken, rfl, rfl, rfl⟩

theorem exists_call (P : Platform) (checks : Bytes → Option ℤ → Prop) (faults : Faults) (order : RowOrder)
    (w : World) {C : Backend Unit → Move Unit → Prop} (hserver : ∀ s agent, C s (.server agent))
    {a : Arrival} {c c' : Conn} {r : Request} (hcall : ∀ s, C s (.call () r))
    (hread : (Conn.accepted ⟨5, []⟩).read a = (c, true)) (hparse : processRead c = .ok (c', .handler r)) :
    ∃ server : Server Unit, server.Parses () 5 ((Session.accepted ⟨5, []⟩).afterRead c) ∧
      Runs (Step P checks faults order 4096 10000) C (start ∅ w)
        (setJob ⟨server, w, fun _ => none⟩ () (some ⟨c', r, .start (handle P.json r)⟩)) := by
  obtain ⟨server, hrun, hparses⟩ := exists_parsing P.json (fun _ => none) hread
  refine ⟨server, hparses, (runs_server hserver w hrun).snoc ?_ (hcall _)⟩
  refine .call hparses.working hparses.stage ?_ rfl
  rw [hparses.user]
  exact hparse

/-- The token `t` means user 7. -/
def sevens (token : Bytes) (user : Option ℤ) : Prop := user = if token = ascii "t" then some 7 else none

def listJob : Request := ⟨.getResources, .get, ascii "/api/resources", ascii "t", []⟩

def listConn : Conn := ((Conn.accepted ⟨5, []⟩).read ⟨[listRequest], .again, .again⟩).1

theorem listConn_spec : (Conn.accepted ⟨5, []⟩).read ⟨[listRequest], .again, .again⟩ = (listConn, true) ∧
    processRead listConn = .ok (Session.parsed listConn, .handler listJob) :=
  ⟨Prod.ext rfl (by decide +kernel), by decide +kernel⟩

omit [Fintype κ] in
/-- A run goes on with an action of worker `k`. -/
theorem runs_act {C : Backend κ → Move κ → Prop} {t : Backend κ}
    (hrun : Runs (Step P checks faults order maxFd maxRequests) C s t) (k : κ) (e : Event actions)
    {c : Conn} {r : Request} {done : List (Entry services actions)} {op : ServiceCall}
    {next : ServiceCall.Ret op → HandlerProg} {past : History}
    {prog : e.op.Ret → ServiceProg (ServiceCall.Ret op)} {w' : World}
    (hjob : t.jobs k = some ⟨c, r, .inside done op next ⟨past, .call e.op prog⟩⟩)
    (hdoes : World.doesShared faults order e.op t.world e.result w') (hC : C t (.act k (some e))) :
    Runs (Step P checks faults order maxFd maxRequests) C s
      { t.setJob k (some ⟨c, r, .inside done op next ⟨past ++ [e], prog e.result⟩⟩) with world := w' } :=
  hrun.snoc (.act hjob (.act hdoes)) hC

theorem exists_listed {C : Backend Unit → Move Unit → Prop} (hserver : ∀ s agent, C s (.server agent))
    (hcall : ∀ s, C s (.call () listJob)) (hact : ∀ s e, C s (.act () e)) (hreply : ∀ s, C s (.reply ())) :
    ∃ s : Backend Unit, Runs (Step listing sevens .never ⟨id, fun _ => .refl _⟩ 4096 10000) C
      (start ∅ oneResource) s ∧ s.world.cache (CacheKey.list 7).text = some emptyList ∧
      (s.server.users 5).answers.length = 1 ∧
      ∀ a ∈ (s.server.users 5).answers, (a.response.length : ℤ) ≤ intMax := by
  obtain ⟨server, hparses, hcalled⟩ := exists_call listing sevens .never ⟨id, fun _ => .refl _⟩ oneResource
    hserver hcall listConn_spec.1 listConn_spec.2
  have hchecked := hcalled.snoc (.act rfl (.atomic rfl rfl)) (hact _ _)
  have hentered := hchecked.snoc (.act rfl (.enter rfl)) (hact _ _)
  have hselected := runs_act (runs_act (runs_act hentered
    () ⟨.redisGet (CacheKey.list 7).text, none⟩ rfl ⟨rfl, Or.inl rfl⟩ (hact _ _))
    () ⟨.clearMsg .resource, ()⟩ rfl rfl (hact _ _))
    () ⟨.selectResources 7, Except.ok []⟩ rfl (Or.inl ⟨rfl, rfl⟩) (hact _ _)
  have hstored := runs_act (runs_act hselected
    () ⟨.readMsg .resource, []⟩ rfl rfl (hact _ _))
    () ⟨.redisSetex (CacheKey.list 7).text 120 emptyList, true⟩ rfl (Or.inl ⟨rfl, rfl⟩) (hact _ _)
  have hleft := hstored.snoc (.act rfl .leave) (hact _ _)
  have hwrite : (Conn.processWrite { Session.parsed listConn with jsonRes := emptyList } .getResource).2 = true := by
    decide +kernel
  have hfits : ((Conn.processWrite { Session.parsed listConn with jsonRes := emptyList }
      .getResource).1.offered.length : ℤ) ≤ intMax := by
    decide +kernel
  have hreplied := hleft.snoc (.answer hparses.working rfl hwrite) (hreply _)
  refine ⟨_, hreplied, World.store_cache (oneResource.setMsg .resource []) (CacheKey.list 7).text emptyList, ?_⟩
  change (Function.update server.users 5 ((server.users 5).reply _ _ _ .getResource emptyList) 5).answers.length = 1 ∧
    ∀ a ∈ (Function.update server.users 5 ((server.users 5).reply _ _ _ .getResource emptyList) 5).answers,
      (a.response.length : ℤ) ≤ intMax
  rw [Function.update_self, Session.reply, if_pos hwrite, hparses.user]
  refine ⟨rfl, fun a ha => ?_⟩
  rw [List.mem_singleton.mp ha]
  exact hfits

/-- Every job is a run of its handler so far. -/
def Follows (P : Platform) (verify : Bytes → Option ℤ) (s : Backend κ) : Prop :=
  ∀ k job, s.jobs k = some job → job.task.Continues (oracle verify) (handle P.json job.request)

omit [Fintype κ] [DecidableEq κ] in
theorem continues_step (hchecks : ∀ token user, checks token user → user = verify token) {r : Request}
    {p : HandlerProg} {w w' : World} {t t' : Task services actions HandlerResult}
    {e : Option (Event actions)} (hkeeps : t.Keeps (serviceLayer P checks) (terms P r))
    (h : t.Continues (oracle verify) p)
    (htask : Task.Step (serviceLayer P checks) (World.doesShared faults order) (w, t) e (w', t')) :
    t'.Continues (oracle verify) p := by
  refine h.step ?_ ?_ hkeeps htask
  · intro op r hnone hr
    cases op with
    | getUserIdFromToken token => exact hchecks token r hr
    | ask q => cases hnone
  · intro op r hsome
    cases op with
    | getUserIdFromToken token => exact absurd rfl hsome
    | ask q => trivial

omit [Fintype κ] [DecidableEq κ] in
/-- A reply is what the handler, run in one piece, could have answered. -/
theorem Follows.outcome (h : s.Follows P verify) {k : κ} {c' : Conn} {r : Request}
    {done : List (Entry services actions)} {result : HandlerResult}
    (hjob : s.jobs k = some ⟨c', r, .between done (.ret result)⟩) :
    Outcome P.json verify (.handler r) (done.map Entry.event) (caught result) :=
  .handler r (h k _ hjob).exec

theorem Follows.step (hchecks : ∀ token user, checks token user → user = verify token)
    (hsound : s.Sound P checks) (h : s.Follows P verify)
    (hstep : Step P checks faults order maxFd maxRequests s m s') : s'.Follows P verify := by
  cases hstep with
  | server | expire => exact h
  | call =>
    refine forall_setJob (fun j x _ hx => h j x hx) ?_
    rintro _ ⟨⟩
    exact .start _
  | @act k job e w' task' hjob htask =>
    refine forall_setJob (fun j x _ hx => h j x hx) ?_
    rintro _ ⟨⟩
    exact continues_step hchecks (hsound.keeps k job hjob) (h k job hjob) htask
  | answer | unanswered => exact forall_setJob (fun j x _ hx => h j x hx) (by rintro _ ⟨⟩)

theorem Step.refines (hsound : s.Sound P checks) (h : s.Follows P verify)
    (hstep : Step P checks faults order maxFd maxRequests s m s') :
    s'.server = s.server ∨
      ∃ agent, Server.Step P.json verify maxFd maxRequests s.server agent s'.server := by
  cases hstep with
  | call | act | expire => exact Or.inl rfl
  | @server verify' agent server hstep hidle =>
    exact Or.inr ⟨agent, hstep.tokenless fun k hk => (hidle k hk).2⟩
  | @answer k fd c' r done result hk hjob hwrite =>
    obtain ⟨g, x, hparses, hparsed⟩ := hsound.pinned k _ hjob
    cases hparses.working.symm.trans hk
    obtain ⟨-, hstage, rfl⟩ := hparses
    exact Or.inr ⟨.worker k, .answer hk hstage hparsed (by rintro ⟨⟩) (h.outcome hjob) hwrite⟩
  | @unanswered k fd c' r done result hk hjob hwrite =>
    obtain ⟨g, x, hparses, hparsed⟩ := hsound.pinned k _ hjob
    cases hparses.working.symm.trans hk
    obtain ⟨-, hstage, rfl⟩ := hparses
    exact Or.inr ⟨.worker k, .unanswered hk hstage hparsed (by rintro ⟨⟩) (h.outcome hjob) hwrite⟩

theorem follows_of_reaches (hchecks : ∀ token user, checks token user → user = verify token)
    {others : Finset ℕ} {w : World}
    (hrun : Reaches (Step P checks faults order maxFd maxRequests) (start others w) s) :
    s.Sound P checks ∧ s.Follows P verify ∧
      Reaches (Server.Step P.json verify maxFd maxRequests) (Server.start others) s.server := by
  refine Reaches.invariant (I := fun s : Backend κ => s.Sound P checks ∧ s.Follows P verify ∧
    Reaches (Server.Step P.json verify maxFd maxRequests) (Server.start others) s.server) hrun ?_ ?_
  · rintro s m s' ⟨hsound, hfollows, hserver⟩ hstep
    refine ⟨hsound.step hstep, hfollows.step hchecks hsound hstep, ?_⟩
    rcases hstep.refines hsound hfollows with hsame | ⟨agent, hserverStep⟩
    · rw [hsame]
      exact hserver
    · exact hserver.snoc hserverStep trivial
  · refine ⟨.start others w, ?_, .refl⟩
    intro k job hjob
    cases hjob

/-- **Handlers are atomic for the connections.** However the actions of the workers' handlers
interleave on the stores, the connections, the event loop and the queue go through a run in which
each handler is one step. -/
theorem refines_server (hchecks : ∀ token user, checks token user → user = verify token)
    {others : Finset ℕ} {w : World}
    (hrun : Reaches (Step P checks faults order maxFd maxRequests) (start others w) s) :
    Reaches (Server.Step P.json verify maxFd maxRequests) (Server.start others) s.server :=
  (follows_of_reaches hchecks hrun).2.2

theorem listed_refines : ∃ s : Backend Unit, (s.server.users 5).answers.length = 1 ∧
    Reaches (Server.Step listing.json (fun token => if token = ascii "t" then some 7 else none) 4096 10000)
      (.start ∅) s.server := by
  obtain ⟨s, hrun, -, hanswers, -⟩ := exists_listed (C := fun _ _ => True) (fun _ _ => trivial)
    (fun _ => trivial) (fun _ _ => trivial) fun _ => trivial
  exact ⟨s, hanswers, refines_server (fun _ _ h => h) hrun⟩

end Backend
end Runtime
end ResourceServer

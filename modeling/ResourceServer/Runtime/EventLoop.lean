import Mathlib.Data.Finset.Basic
import ResourceServer.Http.Session
import ResourceServer.Runtime.ThreadPool

/-!
# Event loop

The main thread of the server: it waits at `epoll_wait`, accepts, reads, writes and
closes, and hands what it has read to the worker pool. A connection has no lock: its
descriptor is registered with `EPOLLONESHOT`, so the kernel disarms it when it delivers an
event, until `modfd` arms it again. A worker that runs into undefined behaviour goes no
further.
-/

namespace ResourceServer
namespace Runtime

open Http CString

/-- `MAX_EVENT_NUMBER`. -/
def maxEventNumber : ℕ := 4096

/-- What a descriptor is armed for, hangups aside. -/
inductive Interest where
  | input | output
  deriving DecidableEq, Repr

/-- One entry of `events`. -/
inductive Notice where
  -- the listening socket
  | incoming
  | hangup (fd : ℕ)
  | readable (fd : ℕ)
  | writable (fd : ℕ)
  deriving DecidableEq, Repr

def Notice.fd? : Notice → Option ℕ
  | .incoming => none
  | .hangup fd | .readable fd | .writable fd => some fd

/-- The kernel may deliver the notice. -/
def Notice.Due (armed : ℕ → Option Interest) : Notice → Prop
  | .incoming => True
  | .hangup fd => armed fd ≠ none
  | .readable fd => armed fd = some .input
  | .writable fd => armed fd = some .output

/-- Where the event loop stands, with the entries of `events` it has not looked at. -/
inductive LoopStage where
  -- at `epoll_wait`
  | waiting
  -- at the head of the `for` loop
  | dispatching (events : List Notice)
  -- behind `accept` and the tests of the descriptor
  | accepted (fd : ℕ) (address : Bytes) (events : List Notice)
  | reading (fd : ℕ) (events : List Notice)
  | appending (fd : ℕ) (events : List Notice)
  -- behind the push, before `m_queuestat.release()`
  | releasing (events : List Notice)
  | writing (fd : ℕ) (events : List Notice)
  | closing (fd : ℕ) (events : List Notice)
  deriving DecidableEq, Repr

namespace LoopStage

/-- The descriptor whose `users` entry the event loop works on. -/
def hand : LoopStage → Option ℕ
  | .waiting | .dispatching _ | .releasing _ => none
  | .accepted fd _ _ | .reading fd _ | .appending fd _ | .writing fd _ | .closing fd _ => some fd

def events : LoopStage → List Notice
  | .waiting => []
  | .dispatching events | .accepted _ _ events | .reading _ events | .appending _ events
  | .releasing events | .writing _ events | .closing _ events => events

/-- The descriptor about to be closed. -/
def doomed : LoopStage → Option ℕ
  | .closing fd _ => some fd
  | _ => none

end LoopStage

/-- Where a worker stands in `process()`. -/
inductive ProcessStage where
  | parsing
  -- before `modfd`
  | rearming (interest : Interest)
  -- before `close_conn`
  | closing
  -- behind the last access to the connection
  | returning
  | faulted
  deriving DecidableEq, Repr

/-- The process, with workers `κ`. `users` is indexed by descriptor; `others` are the
descriptors that are open for anything else. -/
structure Server (κ : Type) where
  users : ℕ → Session
  userCount : ℤ
  opened : Finset ℕ
  others : Finset ℕ
  armed : ℕ → Option Interest
  loop : LoopStage
  pool : ThreadPool ℕ Unit κ
  stages : κ → ProcessStage

inductive Agent (κ : Type) where
  | loop
  | worker (k : κ)
  | elsewhere
  deriving DecidableEq, Repr

namespace Server

variable {κ : Type}

def start (others : Finset ℕ) : Server κ where
  users _ := (Session.accepted ⟨-1, []⟩).close
  userCount := 0
  opened := ∅
  others := others
  armed _ := none
  loop := .waiting
  pool := .new
  stages _ := .returning

/-- `m_sockfd` of a `users` entry. -/
def sockfd (s : Server κ) (fd : ℕ) : ℤ := (s.users fd).conn.sockfd

def setUser (s : Server κ) (fd : ℕ) (x : Session) : Server κ :=
  { s with users := Function.update s.users fd x }

@[simp] theorem setUser_users (s : Server κ) (fd : ℕ) (x : Session) :
    (s.setUser fd x).users = Function.update s.users fd x := rfl

/-- `modfd(m_epollfd, m_sockfd, ev)` of a `users` entry. -/
def modfd (s : Server κ) (fd : ℕ) (i : Interest) : Server κ :=
  { s with armed := Function.update s.armed (s.sockfd fd).toNat (some i) }

/-- `close_conn()` of a `users` entry. -/
def closeConn (s : Server κ) (fd : ℕ) : Server κ :=
  if s.sockfd fd ≠ -1 then
    { s.setUser fd (s.users fd).close with
      armed := Function.update s.armed (s.sockfd fd).toNat none
      opened := s.opened.erase (s.sockfd fd).toNat
      userCount := s.userCount - 1 }
  else s

/-- The state after `epoll_wait` has delivered `events`. -/
def deliver (s : Server κ) (events : List Notice) : Server κ :=
  { s with
    armed := fun fd => if fd ∈ events.filterMap Notice.fd? then none else s.armed fd
    loop := .dispatching events }

/-- Descriptors the kernel may hand out. -/
def Fresh (s : Server κ) (fd : ℕ) : Prop := fd ∉ s.opened ∧ fd ∉ s.others

variable [DecidableEq κ]

def moveStage (s : Server κ) (k : κ) (stage : ProcessStage) : Server κ :=
  { s with stages := Function.update s.stages k stage }

@[simp] theorem moveStage_stages (s : Server κ) (k : κ) (stage : ProcessStage) :
    (s.moveStage k stage).stages = Function.update s.stages k stage := rfl

inductive Step (lib : JsonLib) (verify : Bytes → Option ℤ) (maxFd maxRequests : ℕ) :
    Server κ → Agent κ → Server κ → Prop where
  | wait {s : Server κ} (events : List Notice) (hloop : s.loop = .waiting)
      (hlength : events.length ≤ maxEventNumber) (hdistinct : (events.filterMap Notice.fd?).Nodup)
      (hdue : ∀ n ∈ events, n.Due s.armed) :
      Step lib verify maxFd maxRequests s .loop (s.deliver events)
  | back {s : Server κ} (hloop : s.loop = .dispatching []) :
      Step lib verify maxFd maxRequests s .loop { s with loop := .waiting }
  -- `accept` returns an error
  | acceptFails {s : Server κ} {events : List Notice} (hloop : s.loop = .dispatching (.incoming :: events)) :
      Step lib verify maxFd maxRequests s .loop { s with loop := .dispatching events }
  | turnAway {s : Server κ} {fd : ℕ} {events : List Notice}
      (hloop : s.loop = .dispatching (.incoming :: events)) (hfresh : s.Fresh fd)
      (hfull : (maxFd : ℤ) ≤ s.userCount ∨ maxFd ≤ fd) :
      Step lib verify maxFd maxRequests s .loop { s with loop := .dispatching events }
  | accept {s : Server κ} {fd : ℕ} {events : List Notice} (address : Bytes)
      (hloop : s.loop = .dispatching (.incoming :: events)) (hfresh : s.Fresh fd)
      (hroom : ¬ ((maxFd : ℤ) ≤ s.userCount ∨ maxFd ≤ fd)) :
      Step lib verify maxFd maxRequests s .loop
        { s with opened := insert fd s.opened, loop := .accepted fd address events }
  -- `init(sockfd, addr)` with `addfd`
  | init {s : Server κ} {fd : ℕ} {address : Bytes} {events : List Notice}
      (hloop : s.loop = .accepted fd address events) :
      Step lib verify maxFd maxRequests s .loop
        { s.setUser fd (.accepted ⟨fd, address⟩) with
          armed := Function.update s.armed fd (some .input)
          userCount := s.userCount + 1
          loop := .dispatching events }
  | hangup {s : Server κ} {fd : ℕ} {events : List Notice}
      (hloop : s.loop = .dispatching (.hangup fd :: events)) :
      Step lib verify maxFd maxRequests s .loop { s with loop := .closing fd events }
  | readable {s : Server κ} {fd : ℕ} {events : List Notice}
      (hloop : s.loop = .dispatching (.readable fd :: events)) :
      Step lib verify maxFd maxRequests s .loop { s with loop := .reading fd events }
  | writable {s : Server κ} {fd : ℕ} {events : List Notice}
      (hloop : s.loop = .dispatching (.writable fd :: events)) :
      Step lib verify maxFd maxRequests s .loop { s with loop := .writing fd events }
  | read {s : Server κ} {fd : ℕ} {events : List Notice} {a : Arrival} {c : Conn}
      (hloop : s.loop = .reading fd events) (hread : (s.users fd).conn.read a = (c, true)) :
      Step lib verify maxFd maxRequests s .loop
        { s.setUser fd ((s.users fd).afterRead c) with loop := .appending fd events }
  | readFails {s : Server κ} {fd : ℕ} {events : List Notice} {a : Arrival} {c : Conn}
      (hloop : s.loop = .reading fd events) (hread : (s.users fd).conn.read a = (c, false)) :
      Step lib verify maxFd maxRequests s .loop
        { s.setUser fd ((s.users fd).afterRead c) with loop := .closing fd events }
  | append {s : Server κ} {fd : ℕ} {events : List Notice} {pool : ThreadPool ℕ Unit κ}
      (hloop : s.loop = .appending fd events)
      (hpool : s.pool.Step maxRequests (.append () (some fd) true) pool) :
      Step lib verify maxFd maxRequests s .loop { s with pool := pool, loop := .releasing events }
  -- the result of `append` is not looked at
  | refuse {s : Server κ} {fd : ℕ} {events : List Notice} {pool : ThreadPool ℕ Unit κ}
      (hloop : s.loop = .appending fd events)
      (hpool : s.pool.Step maxRequests (.append () (some fd) false) pool) :
      Step lib verify maxFd maxRequests s .loop { s with pool := pool, loop := .dispatching events }
  | release {s : Server κ} {events : List Notice} {pool : ThreadPool ℕ Unit κ}
      (hloop : s.loop = .releasing events) (hpool : s.pool.Step maxRequests (.release ()) pool) :
      Step lib verify maxFd maxRequests s .loop { s with pool := pool, loop := .dispatching events }
  | blocked {s : Server κ} {fd : ℕ} {events : List Notice} {results : List WritevResult} {c : Conn}
      {out : Bytes} (hloop : s.loop = .writing fd events)
      (hwrite : (s.users fd).conn.write results = (c, out, .blocked)) :
      Step lib verify maxFd maxRequests s .loop
        { (s.setUser fd { s.users fd with conn := c, wire := (s.users fd).wire ++ out }).modfd fd .output
            with loop := .dispatching events }
  | finished {s : Server κ} {fd : ℕ} {events : List Notice} {results : List WritevResult} {c : Conn}
      {out : Bytes} (hloop : s.loop = .writing fd events)
      (hwrite : (s.users fd).conn.write results = (c, out, .finished)) :
      Step lib verify maxFd maxRequests s .loop
        { (s.setUser fd { s.users fd with
            conn := c, phase := .reading, received := [], wire := (s.users fd).wire ++ out }).modfd fd .input
            with loop := .dispatching events }
  -- armed again although it is closed next
  | writeEnds {s : Server κ} {fd : ℕ} {events : List Notice} {results : List WritevResult} {c : Conn}
      {out : Bytes} (hloop : s.loop = .writing fd events)
      (hwrite : (s.users fd).conn.write results = (c, out, .closing)) :
      Step lib verify maxFd maxRequests s .loop
        { (s.setUser fd { s.users fd with conn := c, wire := (s.users fd).wire ++ out }).modfd fd .input
            with loop := .closing fd events }
  | writeFails {s : Server κ} {fd : ℕ} {events : List Notice} {results : List WritevResult} {c : Conn}
      {out : Bytes} (hloop : s.loop = .writing fd events)
      (hwrite : (s.users fd).conn.write results = (c, out, .failed)) :
      Step lib verify maxFd maxRequests s .loop
        { s.setUser fd { s.users fd with conn := c, wire := (s.users fd).wire ++ out } with
          loop := .closing fd events }
  | close {s : Server κ} {fd : ℕ} {events : List Notice} (hloop : s.loop = .closing fd events) :
      Step lib verify maxFd maxRequests s .loop { s.closeConn fd with loop := .dispatching events }
  -- a worker outside of `process()`
  | run {s : Server κ} {k : κ} {pool : ThreadPool ℕ Unit κ}
      (hpool : s.pool.Step maxRequests (.run k) pool) :
      Step lib verify maxFd maxRequests s (.worker k) { s with pool := pool }
  | take {s : Server κ} {k : κ} {r : Option ℕ} {pool : ThreadPool ℕ Unit κ}
      (hpool : s.pool.Step maxRequests (.take k r) pool) :
      Step lib verify maxFd maxRequests s (.worker k) { s.moveStage k .parsing with pool := pool }
  | fault {s : Server κ} {k : κ} {fd : ℕ} {f : Fault} (hk : s.pool.workers k = .processing fd)
      (hstage : s.stages k = .parsing) (hparse : processRead (s.users fd).conn = .error f) :
      Step lib verify maxFd maxRequests s (.worker k) (s.moveStage k .faulted)
  | incomplete {s : Server κ} {k : κ} {fd : ℕ} {c' : Conn} (hk : s.pool.workers k = .processing fd)
      (hstage : s.stages k = .parsing)
      (hparse : processRead (s.users fd).conn = .ok (c', .code .noRequest)) :
      Step lib verify maxFd maxRequests s (.worker k)
        ((s.setUser fd { s.users fd with conn := c' }).moveStage k (.rearming .input))
  | answer {s : Server κ} {k : κ} {fd : ℕ} {c' : Conn} {v : Verdict} {calls : List (Event services)}
      {result : HttpCode × Bytes} (hk : s.pool.workers k = .processing fd)
      (hstage : s.stages k = .parsing) (hparse : processRead (s.users fd).conn = .ok (c', v))
      (hverdict : v ≠ .code .noRequest) (houtcome : Outcome lib verify v calls result)
      (hwrite : (Conn.processWrite { c' with jsonRes := result.2 } result.1).2 = true) :
      Step lib verify maxFd maxRequests s (.worker k)
        ((s.setUser fd ((s.users fd).reply c' v calls result.1 result.2)).moveStage k (.rearming .output))
  -- `process_write` has returned false
  | unanswered {s : Server κ} {k : κ} {fd : ℕ} {c' : Conn} {v : Verdict}
      {calls : List (Event services)} {result : HttpCode × Bytes}
      (hk : s.pool.workers k = .processing fd) (hstage : s.stages k = .parsing)
      (hparse : processRead (s.users fd).conn = .ok (c', v)) (hverdict : v ≠ .code .noRequest)
      (houtcome : Outcome lib verify v calls result)
      (hwrite : (Conn.processWrite { c' with jsonRes := result.2 } result.1).2 = false) :
      Step lib verify maxFd maxRequests s (.worker k)
        ((s.setUser fd { s.users fd with
          conn := (Conn.processWrite { c' with jsonRes := result.2 } result.1).1 }).moveStage k .closing)
  | rearm {s : Server κ} {k : κ} {fd : ℕ} {i : Interest} (hk : s.pool.workers k = .processing fd)
      (hstage : s.stages k = .rearming i) :
      Step lib verify maxFd maxRequests s (.worker k) ((s.modfd fd i).moveStage k .returning)
  | workerCloses {s : Server κ} {k : κ} {fd : ℕ} (hk : s.pool.workers k = .processing fd)
      (hstage : s.stages k = .closing) :
      Step lib verify maxFd maxRequests s (.worker k) ((s.closeConn fd).moveStage k .returning)
  | done {s : Server κ} {k : κ} {pool : ThreadPool ℕ Unit κ} (hstage : s.stages k = .returning)
      (hpool : s.pool.Step maxRequests (.done k) pool) :
      Step lib verify maxFd maxRequests s (.worker k) { s with pool := pool }
  -- the rest of the process opens and closes descriptors
  | elsewhere {s : Server κ} (others : Finset ℕ) (hothers : Disjoint others s.opened) :
      Step lib verify maxFd maxRequests s .elsewhere { s with others := others }

end Server
end Runtime
end ResourceServer

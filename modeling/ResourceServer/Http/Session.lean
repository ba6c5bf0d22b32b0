import ResourceServer.Http.Handlers
import ResourceServer.Http.Receiving
import ResourceServer.Http.Response
import ResourceServer.Http.Verdict

/-!
# Sessions

The life of one `http_conn` object under the event loop: `read()` and `process()` when
the socket is readable, `write()` when it is writable, `close_conn()` and a later
`accept`. `EPOLLONESHOT` lets one event at a time in, so a phase says which event is
armed. Three histories are kept for the proofs: the bytes received since the last
`init()`, and the answers given and bytes handed to the socket since the last `accept`.
-/

namespace ResourceServer
namespace Http

open CString

/-- What the object waits for. A connection whose task the full worker queue rejected is
never armed again. -/
inductive Phase where
  | closed | reading | writing | stalled
  | faulted (f : Fault)
  deriving DecidableEq, Repr

/-- One `process()` that answered. -/
structure Answer where
  received : Bytes
  verdict : Verdict
  calls : List (Event services)
  code : HttpCode
  response : Bytes

structure Session where
  conn : Conn
  phase : Phase
  received : Bytes
  answers : List Answer
  wire : Bytes

namespace Session

def accepted (peer : Peer) : Session where
  conn := .accepted peer
  phase := .reading
  received := []
  answers := []
  wire := []

def close (s : Session) : Session :=
  { s with conn := { s.conn with sockfd := -1 }, phase := .closed }

/-- `process_write` and what `process()` does with its result. -/
def reply (s : Session) (c : Conn) (verdict : Verdict) (calls : List (Event services))
    (code : HttpCode) (json : Bytes) : Session :=
  let w := Conn.processWrite { c with jsonRes := json } code
  if w.2 then
    { s with
      conn := w.1
      phase := .writing
      answers := s.answers ++ [⟨s.received, verdict, calls, code, w.1.offered⟩] }
  else { s with conn := w.1 }.close

end Session

def oracle (verify : Bytes → Option ℤ) : Env services Unit
  | .getUserIdFromToken token, _, user, _ => user = verify token
  | .ask _, _, _, _ => True

/-- `process()` turns an exception into `INTERNAL_ERROR`. -/
def caught (result : HandlerResult) : HttpCode × Bytes :=
  result.getD (.internalError, errorText "internal server error")

/-- How a verdict becomes a code and a `json_res`, with the service calls on the way. -/
inductive Outcome (lib : JsonLib) (verify : Bytes → Option ℤ) :
    Verdict → List (Event services) → HttpCode × Bytes → Prop where
  | code (code : HttpCode) : Outcome lib verify (.code code) [] (code, [])
  | handler (r : Request) {calls : List (Event services)} {result : HandlerResult}
      (hexec : Prog.Exec (oracle verify) () (handle lib r) calls () result) :
      Outcome lib verify (.handler r) calls (caught result)

/-- What the event loop sees. -/
inductive Input where
  | accept (peer : Peer)
  | hangup
  | readable (a : Arrival) (queued : Bool)
  | writable (results : List WritevResult)

namespace Session

/-- The bytes a `read()` that leaves `c` has added. -/
def gained (s : Session) (c : Conn) : Bytes := c.readBuf.drop s.conn.readIndex

/-- The session with `c` as its connection after a `read()`. -/
def afterRead (s : Session) (c : Conn) : Session :=
  { s with conn := c, received := s.received ++ s.gained c }

inductive Step (lib : JsonLib) (verify : Bytes → Option ℤ) : Session → Input → Session → Prop where
  | accept (s : Session) (peer : Peer) (hphase : s.phase = .closed) :
      Step lib verify s (.accept peer) (accepted peer)
  | hangup (s : Session) (hphase : s.phase = .reading ∨ s.phase = .writing) :
      Step lib verify s .hangup s.close
  | readFails {s : Session} {a : Arrival} {queued : Bool} {c : Conn} (hphase : s.phase = .reading)
      (hread : s.conn.read a = (c, false)) :
      Step lib verify s (.readable a queued) (s.afterRead c).close
  | rejected {s : Session} {a : Arrival} {c : Conn} (hphase : s.phase = .reading)
      (hread : s.conn.read a = (c, true)) :
      Step lib verify s (.readable a false) { s.afterRead c with phase := .stalled }
  | fault {s : Session} {a : Arrival} {c : Conn} {f : Fault} (hphase : s.phase = .reading)
      (hread : s.conn.read a = (c, true)) (hparse : processRead c = .error f) :
      Step lib verify s (.readable a true) { s.afterRead c with phase := .faulted f }
  | wait {s : Session} {a : Arrival} {c c' : Conn} (hphase : s.phase = .reading)
      (hread : s.conn.read a = (c, true))
      (hparse : processRead c = .ok (c', .code .noRequest)) :
      Step lib verify s (.readable a true) { s.afterRead c with conn := c' }
  | answer {s : Session} {a : Arrival} {c c' : Conn} {v : Verdict}
      {calls : List (Event services)} {result : HttpCode × Bytes} (hphase : s.phase = .reading)
      (hread : s.conn.read a = (c, true)) (hparse : processRead c = .ok (c', v))
      (hverdict : v ≠ .code .noRequest) (houtcome : Outcome lib verify v calls result) :
      Step lib verify s (.readable a true) ((s.afterRead c).reply c' v calls result.1 result.2)
  | blocked {s : Session} {results : List WritevResult} {c : Conn} {out : Bytes}
      (hphase : s.phase = .writing) (hwrite : s.conn.write results = (c, out, .blocked)) :
      Step lib verify s (.writable results) { s with conn := c, wire := s.wire ++ out }
  | finished {s : Session} {results : List WritevResult} {c : Conn} {out : Bytes}
      (hphase : s.phase = .writing) (hwrite : s.conn.write results = (c, out, .finished)) :
      Step lib verify s (.writable results)
        { s with conn := c, phase := .reading, received := [], wire := s.wire ++ out }
  | ended {s : Session} {results : List WritevResult} {c : Conn} {out : Bytes} {e : WriteEnd}
      (hphase : s.phase = .writing) (hwrite : s.conn.write results = (c, out, e))
      (hend : e = .closing ∨ e = .failed) :
      Step lib verify s (.writable results) { s with conn := c, wire := s.wire ++ out }.close

end Session

namespace Session

theorem reply_phase (s : Session) (c : Conn) (v : Verdict) (calls : List (Event services))
    (code : HttpCode) (json : Bytes) :
    (s.reply c v calls code json).phase = .writing ∨
      (s.reply c v calls code json).phase = .closed := by
  unfold reply
  dsimp only
  split_ifs
  · exact Or.inl rfl
  · exact Or.inr rfl

/-- A session that waits for bytes holds an incomplete head, and its parser stands where
the reader stopped. -/
def Readable (s : Session) : Prop :=
  s.phase = .reading → ∃ h pending, Head.initial.read s.received = .incomplete h pending ∧
    Resumable s.conn h pending ∧ s.conn.readIndex = s.received.length

theorem Readable.accepted (peer : Peer) : (accepted peer).Readable :=
  fun _ => ⟨.initial, [], Head.read_none rfl, resumable_init (.accepted peer), rfl⟩

/-- After a `read()`, `process_read` refines the reader on all bytes of the request so far,
which the buffer holds. -/
theorem Readable.read {s : Session} (hs : s.Readable) (hphase : s.phase = .reading) {a : Arrival}
    {c : Conn} (hread : s.conn.read a = (c, true)) :
    Refines (s.afterRead c).received.length (processRead c)
        (Head.initial.read (s.afterRead c).received) ∧
      (s.afterRead c).received.length ≤ readBufferSize := by
  obtain ⟨h, pending, hhead, hr, hindex⟩ := hs hphase
  obtain ⟨got, rfl, hle⟩ := Conn.read_spec hread
  have hgained : s.gained (s.conn.receive got) = got := by
    simp [gained, Conn.receive, Conn.readIndex]
  have hreceived : (s.afterRead (s.conn.receive got)).received = s.received ++ got := by
    simp [afterRead, hgained]
  have hspec := processRead_spec (hr.receive got hle)
  have htotal : (s.conn.receive got).readIndex = (s.received ++ got).length := by
    simp only [Conn.readIndex, Conn.receive, List.length_append] at hindex ⊢
    omega
  rw [htotal] at hspec
  rw [hreceived, Head.read_append, hhead]
  refine ⟨hspec, ?_⟩
  rw [List.length_append]
  omega

theorem Readable.step {lib : JsonLib} {verify : Bytes → Option ℤ} {s s' : Session} {i : Input}
    (hs : s.Readable) (hstep : Step lib verify s i s') : s'.Readable := by
  cases hstep with
  | accept peer => exact .accepted peer
  | hangup => exact nofun
  | readFails => exact nofun
  | rejected => exact nofun
  | fault => exact nofun
  | blocked hphase => exact fun h => absurd (hphase.symm.trans h) nofun
  | ended => exact nofun
  | wait hphase hread hparse =>
    intro _
    obtain ⟨hspec, -⟩ := hs.read hphase hread
    rw [hparse] at hspec
    obtain ⟨h, pending, hhead, hr, hindex⟩ := hspec.noRequest
    exact ⟨h, pending, hhead, hr, hindex⟩
  | answer hphase hread hparse hverdict houtcome =>
    intro h
    rcases reply_phase _ _ _ _ _ _ with hr | hr <;> exact absurd (hr.symm.trans h) nofun
  | finished hphase hwrite =>
    intro _
    rw [write_finished hwrite]
    exact ⟨.initial, [], Head.read_none rfl, resumable_init _, rfl⟩

theorem readable_of_reaches {lib : JsonLib} {verify : Bytes → Option ℤ} {peer : Peer} {s : Session}
    (hrun : Reaches (Step lib verify) (accepted peer) s) : s.Readable :=
  hrun.invariant (fun _ _ _ hs hstep => hs.step hstep) (.accepted peer)

end Session
end Http
end ResourceServer

import ResourceServer.Http.Parser
import ResourceServer.Http.Response

/-!
# Independence of the peer

No function of `http_conn` looks at the socket descriptor or the address in the object:
on another socket each does the same, and leaves the socket as it was.
-/

namespace ResourceServer
namespace Http

open CString

/-- The same object on another socket. -/
def Conn.withPeer (c : Conn) (p : Peer) : Conn := { c with toPeer := p }

/-- The result of the same call on another socket. -/
def onPeer {α : Type} (p : Peer) (r : Conn × α) : Conn × α := (r.1.withPeer p, r.2)

def atPeer {α : Type} (p : Peer) : Except Fault (Conn × α) → Except Fault (Conn × α) :=
  Except.map (onPeer p)

namespace Conn

variable (c : Conn) (p : Peer)

@[simp] theorem withPeer_toRequestState : (c.withPeer p).toRequestState = c.toRequestState := rfl

@[simp] theorem withPeer_toOutgoing : (c.withPeer p).toOutgoing = c.toOutgoing := rfl

@[simp] theorem withPeer_readIndex : (c.withPeer p).readIndex = c.readIndex := rfl

@[simp] theorem withPeer_checkedIndex : (c.withPeer p).checkedIndex = c.checkedIndex := rfl

@[simp] theorem withPeer_startLine : (c.withPeer p).startLine = c.startLine := rfl

@[simp] theorem withPeer_cstrAt (off : ℕ) : (c.withPeer p).cstrAt off = c.cstrAt off := rfl

@[simp] theorem withPeer_peek (i : ℤ) : (c.withPeer p).peek i = c.peek i := rfl

theorem poke_withPeer (i : ℤ) (b : UInt8) :
    (c.withPeer p).poke i b = (c.poke i b).map (·.withPeer p) := by
  unfold poke
  split_ifs <;> rfl

theorem readLoop_withPeer (last full : RecvEnd) (chunks : List Bytes) :
    (c.withPeer p).readLoop last full chunks = onPeer p (c.readLoop last full chunks) := by
  induction chunks generalizing c with
  | nil =>
    rw [readLoop, readLoop, withPeer_readIndex]
    split_ifs <;> rfl
  | cons chunk chunks ih =>
    rw [readLoop, readLoop, withPeer_readIndex]
    split_ifs
    · rfl
    · rfl
    · exact ih (c.receive _)

theorem read_withPeer (a : Arrival) :
    (c.withPeer p).read a = onPeer p (c.read a) := by
  rw [read, read, withPeer_readIndex]
  split_ifs
  · rfl
  · exact c.readLoop_withPeer p a.last a.full a.chunks

theorem parseLineFrom_withPeer (n : ℕ) :
    parseLineFrom n (c.withPeer p) = atPeer p (parseLineFrom n c) := by
  induction n generalizing c with
  | zero => rfl
  | succ n ih =>
    rw [parseLineFrom, parseLineFrom, withPeer_peek, withPeer_checkedIndex, withPeer_readIndex]
    cases c.peek c.checkedIndex with
    | error f => rfl
    | ok temp =>
      simp only [bind, Except.bind]
      split_ifs
      · rfl
      · rw [withPeer_peek]
        cases c.peek (c.checkedIndex + 1) with
        | error f => rfl
        | ok next =>
          dsimp only
          split_ifs
          · rw [poke_withPeer]
            cases c.poke c.checkedIndex nul with
            | error f => rfl
            | ok d =>
              simp only [Except.map]
              rw [poke_withPeer, withPeer_checkedIndex]
              cases d.poke (d.checkedIndex + 1) nul <;> rfl
          · rfl
      · rw [withPeer_peek]
        cases c.peek (c.checkedIndex - 1) with
        | error f => rfl
        | ok prev =>
          dsimp only
          split_ifs
          · rw [poke_withPeer]
            cases c.poke (c.checkedIndex - 1) nul with
            | error f => rfl
            | ok d =>
              simp only [Except.map]
              rw [poke_withPeer, withPeer_checkedIndex]
              cases d.poke d.checkedIndex nul <;> rfl
          · rfl
      · rfl
      · exact ih { c with checkedIndex := c.checkedIndex + 1 }

theorem parseLine_withPeer : parseLine (c.withPeer p) = atPeer p (parseLine c) :=
  c.parseLineFrom_withPeer p _

/-- `parse_request_line` behind the version. -/
def parseTarget (c : Conn) (url : ℕ) : Conn × HttpCode :=
  match pathOffset (c.cstrAt url) with
  | none => ({ c with url := none }, .badRequest)
  | some k =>
    if (c.cstrAt (url + k)).head? ≠ some slash then ({ c with url := some (url + k) }, .badRequest)
    else ({ c with url := some (url + k), checkState := .header }, .noRequest)

/-- `parse_request_line` behind the method. -/
def parseVersion (c : Conn) (url : ℕ) : Conn × HttpCode :=
  match strpbrk (c.cstrAt url) blanks with
  | none => ({ c with version := none }, .badRequest)
  | some j =>
    let version := url + j + 1
    let c := { c with version := some version, readBuf := c.readBuf.set (url + j) nul }
    if !strcasecmp (c.cstrAt version) (ascii "HTTP/1.1") then (c, .badRequest)
    else parseTarget { c with apireq := routeOf (c.cstrAt url) c.apireq } url

theorem parseRequestLine_eq (text : ℕ) : parseRequestLine c text =
    match strpbrk (c.cstrAt text) blanks with
    | none => ({ c with url := none }, .badRequest)
    | some i =>
      let url := text + i + 1
      let c := { c with url := some url, readBuf := c.readBuf.set (text + i) nul }
      parseVersion { c with method := methodOf (c.cstrAt text) c.method } url := rfl

theorem parseTarget_withPeer (url : ℕ) :
    parseTarget (c.withPeer p) url = onPeer p (parseTarget c url) := by
  rw [parseTarget, parseTarget, withPeer_cstrAt]
  cases pathOffset (c.cstrAt url) with
  | none => rfl
  | some k =>
    dsimp only
    rw [withPeer_cstrAt]
    split_ifs <;> rfl

theorem parseVersion_withPeer (url : ℕ) :
    parseVersion (c.withPeer p) url = onPeer p (parseVersion c url) := by
  rw [parseVersion, parseVersion, withPeer_cstrAt]
  cases strpbrk (c.cstrAt url) blanks with
  | none => rfl
  | some j =>
    let d : Conn :=
      { c with version := some (url + j + 1), readBuf := c.readBuf.set (url + j) nul }
    change (if !strcasecmp ((d.withPeer p).cstrAt (url + j + 1)) (ascii "HTTP/1.1") then
        (d.withPeer p, HttpCode.badRequest)
      else parseTarget (Conn.withPeer { d with apireq := routeOf (d.cstrAt url) d.apireq } p) url) = _
    rw [withPeer_cstrAt, parseTarget_withPeer]
    dsimp only [d]
    split_ifs <;> rfl

theorem parseRequestLine_withPeer (text : ℕ) :
    parseRequestLine (c.withPeer p) text =
      onPeer p (parseRequestLine c text) := by
  rw [parseRequestLine_eq, parseRequestLine_eq, withPeer_cstrAt]
  cases strpbrk (c.cstrAt text) blanks with
  | none => rfl
  | some i =>
    let d : Conn := { c with url := some (text + i + 1), readBuf := c.readBuf.set (text + i) nul }
    exact parseVersion_withPeer { d with method := methodOf (d.cstrAt text) d.method } p (text + i + 1)

theorem parseHeaders_withPeer (text : ℕ) :
    parseHeaders (c.withPeer p) text =
      onPeer p (parseHeaders c text) := by
  rw [parseHeaders, parseHeaders, withPeer_cstrAt]
  dsimp only
  split_ifs
  · rw [withPeer_toRequestState]
    cases c.endOfHeaders <;> rfl
  · rfl

theorem parseContent_withPeer (text : ℕ) :
    parseContent (c.withPeer p) text = atPeer p (parseContent c text) := by
  rw [parseContent, parseContent, withPeer_toRequestState, withPeer_checkedIndex,
    withPeer_readIndex, poke_withPeer]
  split_ifs
  · rfl
  · cases c.poke (text + c.contentLength) nul with
    | error f => rfl
    | ok d =>
      simp only [Except.map, bind, Except.bind, withPeer_toRequestState]
      cases d.contentHandler <;> rfl
  · rfl

theorem afterLine_withPeer {next : LineStatus → Conn → Except Fault (Conn × Verdict)}
    (hnext : ∀ status c, next status (c.withPeer p) = atPeer p (next status c))
    (status : LineStatus) :
    afterLine next (c.withPeer p) status = atPeer p (afterLine next c status) := by
  by_cases hstatus : status = .lineOk
  case neg =>
    rw [afterLine, afterLine, if_pos hstatus, if_pos hstatus]
    rfl
  case pos =>
    let d : Conn := { c with startLine := c.checkedIndex }
    have hd : { c.withPeer p with startLine := (c.withPeer p).checkedIndex } = d.withPeer p := rfl
    subst hstatus
    simp only [afterLine, ne_eq, not_true_eq_false, if_false, hd]
    have hstate : (c.withPeer p).checkState = c.checkState := rfl
    rw [hstate]
    cases c.checkState with
    | requestLine =>
      dsimp only
      rw [withPeer_startLine, parseRequestLine_withPeer]
      rcases parseRequestLine d c.startLine with ⟨e, code⟩
      cases code <;> first | exact hnext .lineOk e | rfl
    | header =>
      dsimp only
      rw [withPeer_startLine, parseHeaders_withPeer]
      rcases parseHeaders d c.startLine with ⟨e, verdict⟩
      rcases verdict with code | r
      · cases code <;> first | exact hnext .lineOk e | rfl
      · rfl
    | content =>
      dsimp only
      rw [withPeer_startLine, parseContent_withPeer]
      rcases parseContent d c.startLine with f | ⟨e, verdict⟩
      · rfl
      · rcases verdict with code | r
        · cases code <;> first | exact hnext .lineOpen e | rfl
        · rfl

theorem processReadLoop_withPeer (fuel : ℕ) (status : LineStatus) :
    processReadLoop fuel status (c.withPeer p) = atPeer p (processReadLoop fuel status c) := by
  induction fuel generalizing status c with
  | zero => rfl
  | succ fuel ih =>
    have hnext : ∀ status c, processReadLoop fuel status (Conn.withPeer c p) =
        atPeer p (processReadLoop fuel status c) := fun status c => ih c status
    rw [processReadLoop_eq, processReadLoop_eq, withPeer_toRequestState]
    split_ifs
    · exact afterLine_withPeer c p hnext status
    · rw [parseLine_withPeer]
      rcases parseLine c with f | ⟨d, status⟩
      · rfl
      · exact afterLine_withPeer d p hnext status

theorem processRead_withPeer : processRead (c.withPeer p) = atPeer p (processRead c) :=
  c.processReadLoop_withPeer p _ _

theorem addResponse_withPeer (text : Bytes) :
    (c.withPeer p).addResponse text = onPeer p (c.addResponse text) := by
  rw [addResponse, addResponse, withPeer_toOutgoing]
  split_ifs <;> rfl

theorem andThen_onPeer (r : Conn × Bool) {f : Conn → Conn × Bool}
    (hf : ∀ c, f (Conn.withPeer c p) = onPeer p (f c)) :
    andThen (onPeer p r) f = onPeer p (andThen r f) := by
  rcases r with ⟨d, done⟩
  cases done
  · rfl
  · exact hf d

theorem queued_onPeer (queue : Conn → Conn) (r : Conn × Bool)
    (hqueue : ∀ c, queue (Conn.withPeer c p) = (queue c).withPeer p) :
    (if (onPeer p r).2 then (queue (onPeer p r).1, true) else onPeer p r) =
      onPeer p (if r.2 then (queue r.1, true) else r) := by
  rcases r with ⟨d, done⟩
  cases done
  · rfl
  · exact congrArg (fun e => (e, true)) (hqueue d)

theorem addHeaders_withPeer (length : ℤ) (type : Bytes) :
    (c.withPeer p).addHeaders length type = onPeer p (c.addHeaders length type) := by
  have hlinger (d : Conn) : (d.withPeer p).addLinger = onPeer p d.addLinger :=
    d.addResponse_withPeer p _
  have hblank (d : Conn) : (d.withPeer p).addBlankLine = onPeer p d.addBlankLine :=
    d.addResponse_withPeer p _
  have htype (d : Conn) : (d.withPeer p).addContentType type = onPeer p (d.addContentType type) :=
    d.addResponse_withPeer p _
  have hlength : (c.withPeer p).addContentLength length = onPeer p (c.addContentLength length) :=
    c.addResponse_withPeer p _
  rw [addHeaders, addHeaders, hlength, andThen_onPeer p _ htype, andThen_onPeer p _ hlinger,
    andThen_onPeer p _ hblank]

theorem addJsonResponse_withPeer (status : ℕ) (title : Bytes) :
    (c.withPeer p).addJsonResponse status title = onPeer p (c.addJsonResponse status title) := by
  have hstatus : (c.withPeer p).addStatusLine status title = onPeer p (c.addStatusLine status title) :=
    c.addResponse_withPeer p _
  rw [addJsonResponse, addJsonResponse, withPeer_toOutgoing, hstatus,
    andThen_onPeer p _ fun d => d.addHeaders_withPeer p _ _]
  exact queued_onPeer p queueJson _ fun _ => rfl

theorem addFormResponse_withPeer (status : ℕ) (title form : Bytes) :
    (c.withPeer p).addFormResponse status title form =
      onPeer p (c.addFormResponse status title form) := by
  have hstatus : (c.withPeer p).addStatusLine status title = onPeer p (c.addStatusLine status title) :=
    c.addResponse_withPeer p _
  have hcontent (d : Conn) : (d.withPeer p).addContent form = onPeer p (d.addContent form) :=
    d.addResponse_withPeer p _
  have hheaders (d : Conn) (length : ℤ) :
      ((d.withPeer p).addHeaders length (ascii "text")).1 =
        (d.addHeaders length (ascii "text")).1.withPeer p :=
    congrArg Prod.fst (d.addHeaders_withPeer p length _)
  have hform : (((c.withPeer p).addStatusLine status title).1.addHeaders form.length
      (ascii "text")).1.addContent form =
      onPeer p (((c.addStatusLine status title).1.addHeaders form.length
        (ascii "text")).1.addContent form) := by
    rw [hstatus, ← hcontent, ← hheaders]
    rfl
  rw [addFormResponse, addFormResponse]
  rw [hform]
  exact queued_onPeer p queueHead _ fun _ => rfl

theorem processWrite_withPeer (code : HttpCode) :
    (c.withPeer p).processWrite code = onPeer p (c.processWrite code) := by
  cases code with
  | internalError | noResource | forbiddenRequest => exact c.addFormResponse_withPeer p _ _ _
  | getResource | addResource | updateResource | deleteResource =>
    exact c.addJsonResponse_withPeer p _ _
  | noRequest | closedConnection => rfl
  | badRequest =>
    rw [processWrite, processWrite, withPeer_toOutgoing]
    split_ifs
    · exact c.addJsonResponse_withPeer p _ _
    · exact c.addFormResponse_withPeer p _ _ _

theorem passHead_withPeer (n : ℕ) : (c.withPeer p).passHead n = (c.passHead n).withPeer p := by
  have hbody (d : Conn) (k : ℕ) : (d.withPeer p).advanceBody k = (d.advanceBody k).withPeer p := by
    rw [advanceBody, advanceBody, withPeer_toOutgoing]
    split_ifs <;> rfl
  rw [passHead, passHead, withPeer_toOutgoing, hbody]
  split_ifs
  · exact hbody { c with iv0 := .zero } _
  · rfl

theorem writeLoop_withPeer (results : List WritevResult) :
    (c.withPeer p).writeLoop results = onPeer p (c.writeLoop results) := by
  induction results generalizing c with
  | nil => rfl
  | cons result results ih =>
    cases result with
    | again => rfl
    | error => rfl
    | sent n =>
      have hoffered : (c.withPeer p).offered = c.offered := rfl
      have hleft (d : Conn) : (d.withPeer p).bytesToSend = d.bytesToSend := rfl
      have hlinger (d : Conn) : (d.withPeer p).linger = d.linger := rfl
      rw [writeLoop, writeLoop, hoffered, withPeer_toOutgoing, passHead_withPeer]
      dsimp only
      rw [hleft, hlinger]
      split_ifs
      · have hadvance := ih { c with iv0 := c.iv0.advance (c.offered.take n).length }
        exact congrArg (fun r => (r.1, c.offered.take n ++ r.2.1, r.2.2)) hadvance
      · rfl
      · rfl
      · exact congrArg (fun r => (r.1, c.offered.take n ++ r.2.1, r.2.2))
          (ih (c.passHead (c.offered.take n).length))

theorem write_withPeer (results : List WritevResult) :
    (c.withPeer p).write results = onPeer p (c.write results) := by
  have hleft : (c.withPeer p).bytesToSend = c.bytesToSend := rfl
  rw [write, write, hleft]
  split_ifs
  · rfl
  · exact c.writeLoop_withPeer p results

theorem withPeer_self : c.withPeer c.toPeer = c := rfl

theorem toPeer_of_onPeer {α : Type} {p : Peer} {r : Conn × α} (h : r = onPeer p r) :
    r.1.toPeer = p := by
  rw [h]
  rfl

theorem read_toPeer (a : Arrival) : (c.read a).1.toPeer = c.toPeer := by
  apply toPeer_of_onPeer
  rw [← read_withPeer, withPeer_self]

theorem processWrite_toPeer (code : HttpCode) : (c.processWrite code).1.toPeer = c.toPeer := by
  apply toPeer_of_onPeer
  rw [← processWrite_withPeer, withPeer_self]

theorem write_toPeer (results : List WritevResult) : (c.write results).1.toPeer = c.toPeer := by
  apply toPeer_of_onPeer
  rw [← write_withPeer, withPeer_self]

theorem processRead_toPeer {c c' : Conn} {v : Verdict} (hparse : processRead c = .ok (c', v)) :
    c'.toPeer = c.toPeer := by
  have hself := c.processRead_withPeer c.toPeer
  rw [withPeer_self, hparse] at hself
  have hconn : c' = c'.withPeer c.toPeer := (Prod.mk.inj (Except.ok.inj hself)).1
  rw [hconn]
  rfl

end Conn
end Http
end ResourceServer

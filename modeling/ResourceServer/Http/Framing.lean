import ResourceServer.Http.Codes

/-!
# Framing of a response

What `process_write` queues is fixed by the code, the JSON text and `m_linger`: a status
line, three headers and a blank line, then a body. The helpers that append the head fail
only on a full buffer, which no head reaches.
-/

namespace ResourceServer
namespace Http

open CString

/-- What is answered for a code. -/
structure Reply where
  status : ℕ
  title : Bytes
  type : Bytes
  body : Bytes
  deriving DecidableEq, Repr

namespace Reply

def statusLine (r : Reply) : Bytes :=
  ascii "HTTP/1.1 " ++ Decimal.ofNat r.status ++ ascii " " ++ r.title

def contentLength (announced : ℤ) : Bytes := ascii "Content-Length: " ++ Decimal.ofInt announced

def contentType (r : Reply) : Bytes := ascii "Content-Type: " ++ r.type

def connection (linger : Bool) : Bytes :=
  ascii "Connection: " ++ if linger then ascii "keep-alive" else ascii "close"

/-- The status line and the three headers. -/
def lines (r : Reply) (announced : ℤ) (linger : Bool) : List Bytes :=
  [r.statusLine, contentLength announced, r.contentType, connection linger]

def head (r : Reply) (announced : ℤ) (linger : Bool) : Bytes :=
  ((r.lines announced linger).map (· ++ ascii "\r\n")).flatten ++ ascii "\r\n"

/-- The replies of `process_write`. -/
def of : HttpCode → Bytes → Option Reply
  | .internalError, _ => some ⟨500, ascii "Internal Error", ascii "text", Conn.error500Form⟩
  | .badRequest, json =>
    if json ≠ [] then some ⟨400, ascii "Bad Request", ascii "application/json", json⟩
    else some ⟨400, ascii "Bad Request", ascii "text", Conn.error400Form⟩
  | .noResource, _ => some ⟨404, ascii "Not Found", ascii "text", Conn.error404Form⟩
  | .forbiddenRequest, _ => some ⟨403, ascii "Forbidden", ascii "text", Conn.error403Form⟩
  | .getResource, json | .addResource, json | .updateResource, json | .deleteResource, json =>
    some ⟨200, ascii "OK", ascii "application/json", json⟩
  | .noRequest, _ | .closedConnection, _ => none

/-- Status, title and type are short, and each stays on its line. -/
structure Printable (r : Reply) : Prop where
  status : r.status < 10 ^ 3
  title : r.title.length ≤ 14
  type : r.type.length ≤ 16
  title_line : ∀ b ∈ r.title, b ≠ 13 ∧ b ≠ 10
  type_line : ∀ b ∈ r.type, b ≠ 13 ∧ b ≠ 10

theorem of_answers {code : HttpCode} (hcode : code.Answers) (json : Bytes) :
    ∃ r, of code json = some r := by
  cases code with
  | noRequest => exact absurd rfl hcode.1
  | closedConnection => exact absurd rfl hcode.2
  | badRequest =>
    simp only [of]
    split_ifs <;> exact ⟨_, rfl⟩
  | internalError | noResource | forbiddenRequest | getResource | addResource | updateResource
  | deleteResource => exact ⟨_, rfl⟩

theorem printable_of {code : HttpCode} {json : Bytes} {r : Reply} (hr : of code json = some r) :
    r.Printable := by
  cases code with
  | noRequest | closedConnection => exact absurd hr nofun
  | badRequest =>
    simp only [of] at hr
    split_ifs at hr <;> cases hr <;> constructor <;> dsimp only <;> decide +kernel
  | internalError | noResource | forbiddenRequest | getResource | addResource | updateResource
  | deleteResource =>
    cases hr
    constructor <;> dsimp only <;> decide +kernel

theorem body_length_le {code : HttpCode} {json : Bytes} {r : Reply} (hr : of code json = some r)
    (hjson : (json.length : ℤ) ≤ intMax) : (r.body.length : ℤ) ≤ intMax := by
  cases code with
  | noRequest | closedConnection => exact absurd hr nofun
  | badRequest =>
    simp only [of] at hr
    split_ifs at hr <;> cases hr
    · exact hjson
    · dsimp only
      decide
  | internalError | noResource | forbiddenRequest =>
    cases hr
    dsimp only
    decide
  | getResource | addResource | updateResource | deleteResource =>
    cases hr
    exact hjson

variable {r : Reply} {announced : ℤ} {linger : Bool}

theorem statusLine_length (hr : r.Printable) : r.statusLine.length ≤ 27 := by
  have hstatus := Decimal.ofNat_length (by decide) hr.status
  have htitle := hr.title
  simp [statusLine, ascii]
  omega

theorem contentLength_length (h1 : -2 ^ 31 ≤ announced) (h2 : announced ≤ intMax) :
    (contentLength announced).length ≤ 27 := by
  have hdigits := Decimal.ofInt_length h1 h2
  simp [contentLength, ascii]
  omega

theorem contentType_length (hr : r.Printable) : r.contentType.length ≤ 30 := by
  have htype := hr.type
  simp [contentType, ascii]
  omega

theorem connection_length (linger : Bool) : (connection linger).length ≤ 22 := by
  cases linger <;> decide

theorem head_length (linger : Bool) (hr : r.Printable) (h1 : -2 ^ 31 ≤ announced) (h2 : announced ≤ intMax) :
    (r.head announced linger).length ≤ 116 := by
  have hstatus := statusLine_length hr
  have hlength := contentLength_length h1 h2
  have htype := contentType_length hr
  have hconnection := connection_length linger
  have hcrlf : (ascii "\r\n").length = 2 := rfl
  simp only [head, lines, List.map_cons, List.map_nil, List.flatten_cons, List.flatten_nil,
    List.length_append, List.length_nil, hcrlf]
  omega

theorem lines_unbroken (hr : r.Printable) : ∀ line ∈ r.lines announced linger,
    ∀ b ∈ line, b ≠ 13 ∧ b ≠ 10 := by
  have hdigit : ∀ b : UInt8, isDigit b = true → b ≠ 13 ∧ b ≠ 10 := by
    intro b hb
    constructor <;> rintro rfl <;> simp [isDigit] at hb
  intro line hline b hb
  simp only [lines, List.mem_cons, List.not_mem_nil, or_false] at hline
  rcases hline with rfl | rfl | rfl | rfl
  · simp only [statusLine, List.mem_append] at hb
    rcases hb with ((hb | hb) | hb) | hb
    · exact (by decide +kernel : ∀ b ∈ ascii "HTTP/1.1 ", b ≠ 13 ∧ b ≠ 10) b hb
    · exact hdigit b (Decimal.isDigit_of_mem hb)
    · exact (by decide +kernel : ∀ b ∈ ascii " ", b ≠ 13 ∧ b ≠ 10) b hb
    · exact hr.title_line b hb
  · rcases List.mem_append.mp hb with hb | hb
    · exact (by decide +kernel : ∀ b ∈ ascii "Content-Length: ", b ≠ 13 ∧ b ≠ 10) b hb
    · rcases Decimal.mem_ofInt hb with rfl | hb
      · decide
      · exact hdigit b hb
  · rcases List.mem_append.mp hb with hb | hb
    · exact (by decide +kernel : ∀ b ∈ ascii "Content-Type: ", b ≠ 13 ∧ b ≠ 10) b hb
    · exact hr.type_line b hb
  · cases linger with
    | true => exact (by decide +kernel : ∀ b ∈ connection true, b ≠ 13 ∧ b ≠ 10) b hb
    | false => exact (by decide +kernel : ∀ b ∈ connection false, b ≠ 13 ∧ b ≠ 10) b hb

end Reply

namespace Conn

/-- The connection with more text in `m_write_buf`. -/
def wrote (c : Conn) (text : Bytes) : Conn := { c with writeBuf := c.writeBuf ++ text }

variable {c : Conn}

@[simp] theorem wrote_writeBuf (text : Bytes) : (c.wrote text).writeBuf = c.writeBuf ++ text := rfl

@[simp] theorem wrote_linger (text : Bytes) : (c.wrote text).linger = c.linger := rfl

@[simp] theorem wrote_wrote (text more : Bytes) : (c.wrote text).wrote more = c.wrote (text ++ more) := by
  simp [wrote]

theorem andThen_ok (d : Conn) (f : Conn → Conn × Bool) : andThen (d, true) f = f d := rfl

theorem addResponse_eq {text : Bytes}
    (hfit : c.writeBuf.length + text.length < writeBufferSize - 1) :
    c.addResponse text = (c.wrote text, true) := by
  have hroom : ¬ writeBufferSize ≤ c.writeBuf.length := by omega
  have hlen : ¬ writeBufferSize - 1 - c.writeBuf.length ≤ text.length := by omega
  rw [addResponse, if_neg hroom, if_neg hlen, wrote]

/-- A line of less than half the buffer fits in the first half of it. -/
theorem addLine_eq (line : Bytes) (hbuf : c.writeBuf.length ≤ 500) (hline : line.length ≤ 500) :
    c.addResponse (line ++ ascii "\r\n") = (c.wrote (line ++ ascii "\r\n"), true) := by
  have hcrlf : (ascii "\r\n").length = 2 := rfl
  have hsize : writeBufferSize = 1024 := rfl
  apply addResponse_eq
  rw [List.length_append, hcrlf]
  omega

variable {r : Reply} {announced : ℤ}

theorem addHeaders_eq (hbuf : c.writeBuf.length ≤ 300) (hr : r.Printable)
    (h1 : -2 ^ 31 ≤ announced) (h2 : announced ≤ intMax) :
    c.addHeaders announced r.type =
      (c.wrote ((Reply.contentLength announced ++ ascii "\r\n") ++
        (r.contentType ++ ascii "\r\n") ++ (Reply.connection c.linger ++ ascii "\r\n") ++
          ascii "\r\n"), true) := by
  have hlength := Reply.contentLength_length h1 h2
  have htype := Reply.contentType_length hr
  have hconnection := Reply.connection_length c.linger
  have hcrlf : (ascii "\r\n").length = 2 := rfl
  have hcl : c.addContentLength announced = _ :=
    addLine_eq (Reply.contentLength announced) (by omega) (by omega)
  have hct : ∀ d : Conn, d.writeBuf.length ≤ 329 →
      d.addContentType r.type = (d.wrote (r.contentType ++ ascii "\r\n"), true) := by
    intro d hd
    exact addLine_eq r.contentType (by omega) (by omega)
  have hli : ∀ d : Conn, d.linger = c.linger → d.writeBuf.length ≤ 361 →
      d.addLinger = (d.wrote (Reply.connection c.linger ++ ascii "\r\n"), true) := by
    intro d hd hlen
    rw [← hd]
    exact addLine_eq (Reply.connection d.linger) (by omega) (by rw [hd]; omega)
  have hbl : ∀ d : Conn, d.writeBuf.length ≤ 385 →
      d.addBlankLine = (d.wrote (ascii "\r\n"), true) := by
    intro d hd
    exact addLine_eq [] (by omega) (by decide)
  rw [addHeaders, hcl, andThen_ok,
    hct _ (by simp only [wrote_writeBuf, List.length_append, hcrlf]; omega), andThen_ok,
    hli _ (by rfl) (by simp only [wrote_writeBuf, List.length_append, hcrlf]; omega), andThen_ok,
    hbl _ (by simp only [wrote_writeBuf, List.length_append, hcrlf]; omega)]
  simp only [wrote_wrote]

/-- The head of a reply fits into the empty buffer. -/
theorem addHead_eq (hbuf : c.writeBuf = []) (hr : r.Printable) (h1 : -2 ^ 31 ≤ announced)
    (h2 : announced ≤ intMax) :
    ∃ line : Bytes, c.addStatusLine r.status r.title = (c.wrote line, true) ∧
      (c.wrote line).addHeaders announced r.type =
        (c.wrote (r.head announced c.linger), true) := by
  have hstatus := Reply.statusLine_length hr
  have hcrlf : (ascii "\r\n").length = 2 := rfl
  have hline : c.addStatusLine r.status r.title = _ :=
    addLine_eq r.statusLine (by simp [hbuf]) (by omega)
  have hfit : (c.wrote (r.statusLine ++ ascii "\r\n")).writeBuf.length ≤ 300 := by
    simp only [wrote_writeBuf, hbuf, List.nil_append, List.length_append, hcrlf]
    omega
  refine ⟨_, hline, ?_⟩
  rw [addHeaders_eq hfit hr h1 h2]
  simp [Reply.head, Reply.lines]

theorem queueJson_offered (c : Conn) : c.queueJson.offered = c.writeBuf ++ c.jsonRes := by
  simp [queueJson, offered, Iovec.bytes, region]

theorem queueHead_offered (c : Conn) : c.queueHead.offered = c.writeBuf := by
  simp [queueHead, offered, Iovec.bytes, region]

end Conn

/-- `q` is the reply `r` to `c`, queued whole. -/
structure Replies (c : Conn) (r : Reply) (q : Conn × Bool) : Prop where
  ok : q.2 = true
  short : q.1.writeBuf.length < writeBufferSize - 1
  offered : q.1.offered = r.head (toInt32 r.body.length) c.linger ++ r.body

variable {c : Conn} {r : Reply}

theorem addJsonResponse_replies (hbuf : c.writeBuf = []) (hr : r.Printable)
    (hbody : r.body = c.jsonRes) (htype : r.type = ascii "application/json") :
    Replies c r (c.addJsonResponse r.status r.title) := by
  obtain ⟨h1, h2⟩ := toInt32_range c.jsonRes.length
  obtain ⟨line, hline, hheaders⟩ := Conn.addHead_eq hbuf hr h1 h2
  have hlen := Reply.head_length c.linger hr h1 h2
  rw [Conn.addJsonResponse, hline, Conn.andThen_ok, ← htype, hheaders]
  constructor
  · rfl
  · change (c.writeBuf ++ _).length < 1023
    rw [hbuf, List.nil_append]
    omega
  · change (Conn.queueJson _).offered = _
    rw [Conn.queueJson_offered, Conn.wrote_writeBuf, hbuf, List.nil_append, hbody]
    rfl

theorem addFormResponse_replies (hbuf : c.writeBuf = []) (hr : r.Printable)
    (hbody : r.body.length ≤ 100) (htype : r.type = ascii "text") :
    Replies c r (c.addFormResponse r.status r.title r.body) := by
  have h2 : (r.body.length : ℤ) ≤ intMax := by
    norm_num [intMax]
    omega
  have hint := toInt32_of_range (n := r.body.length) (by omega) h2
  have hlow : -2 ^ 31 ≤ (r.body.length : ℤ) := by omega
  obtain ⟨line, hline, hheaders⟩ := Conn.addHead_eq hbuf hr hlow h2
  have hlen := Reply.head_length c.linger hr hlow h2
  have hsize : writeBufferSize = 1024 := rfl
  have hcontent : Conn.addContent (c.wrote (r.head r.body.length c.linger)) r.body = _ :=
    Conn.addResponse_eq (by simp only [Conn.wrote_writeBuf, hbuf, List.nil_append]; omega)
  rw [Conn.addFormResponse, hline]
  dsimp only
  rw [← htype, hheaders]
  dsimp only
  rw [hcontent, Conn.wrote_wrote]
  constructor
  · rfl
  · change (c.writeBuf ++ _).length < 1023
    rw [hbuf, List.nil_append, List.length_append]
    omega
  · change (Conn.queueHead _).offered = _
    rw [Conn.queueHead_offered, Conn.wrote_writeBuf, hbuf, List.nil_append, hint]

/-- `process_write` queues the reply of its table. -/
theorem processWrite_replies (hbuf : c.writeBuf = []) {code : HttpCode}
    (hr : Reply.of code c.jsonRes = some r) : Replies c r (c.processWrite code) := by
  have hprint := Reply.printable_of hr
  cases code with
  | noRequest | closedConnection => exact absurd hr nofun
  | badRequest =>
    simp only [Reply.of] at hr
    unfold Conn.processWrite
    split_ifs at hr with hjson <;> cases hr
    · rw [if_pos hjson]
      exact addJsonResponse_replies hbuf hprint rfl rfl
    · rw [if_neg hjson]
      exact addFormResponse_replies hbuf hprint (by decide) rfl
  | internalError | noResource | forbiddenRequest =>
    cases hr
    exact addFormResponse_replies hbuf hprint (by dsimp only; decide) rfl
  | getResource | addResource | updateResource | deleteResource =>
    cases hr
    exact addJsonResponse_replies hbuf hprint rfl rfl

/-- The response depends on nothing but the code, the JSON text and `m_linger`. -/
theorem processWrite_offered {d : Conn} (hc : c.writeBuf = []) (hd : d.writeBuf = [])
    (hlinger : c.linger = d.linger) (hjson : c.jsonRes = d.jsonRes) {code : HttpCode}
    (hcode : code.Answers) : (c.processWrite code).1.offered = (d.processWrite code).1.offered := by
  obtain ⟨r, hr⟩ := Reply.of_answers hcode c.jsonRes
  have hfirst := (processWrite_replies hc hr).offered
  have hsecond := (processWrite_replies hd (hjson ▸ hr)).offered
  rw [hfirst, hsecond, hlinger]

namespace Conn

@[simp] theorem advanceBody_writeBuf (c : Conn) (n : ℕ) :
    (c.advanceBody n).writeBuf = c.writeBuf := by
  unfold advanceBody
  split <;> rfl

theorem passHead_writeBuf (c : Conn) (n : ℕ) : (c.passHead n).writeBuf = c.writeBuf := by
  unfold passHead
  split_ifs <;> simp

/-- Sending leaves the buffer alone until `init()` empties it. -/
theorem writeLoop_writeBuf (results : List WritevResult) (c : Conn) :
    (c.writeLoop results).1.writeBuf <+: c.writeBuf := by
  induction results generalizing c with
  | nil => exact List.prefix_rfl
  | cons result results ih =>
    cases result with
    | again => exact List.prefix_rfl
    | error => exact List.prefix_rfl
    | sent n =>
      rw [writeLoop]
      dsimp only
      split_ifs
      · exact ih _
      · exact List.nil_prefix
      · rw [passHead_writeBuf]
      · have h := ih (c.passHead (c.offered.take n).length)
        rwa [passHead_writeBuf] at h

theorem write_writeBuf (results : List WritevResult) (c : Conn) :
    (c.write results).1.writeBuf <+: c.writeBuf := by
  unfold write
  split_ifs
  · exact List.nil_prefix
  · exact writeLoop_writeBuf results c

theorem read_writeBuf (a : Arrival) (c : Conn) : (c.read a).1.writeBuf = c.writeBuf := by
  unfold read
  split_ifs with hfull
  · rfl
  · obtain ⟨got, hgot, -⟩ := c.readLoop_spec a (by omega)
    rw [hgot]
    rfl

end Conn

namespace Session

/-- `m_write_index` stays below `WRITE_BUFFER_SIZE - 1`. -/
def Bounded (s : Session) : Prop := s.conn.writeBuf.length < writeBufferSize - 1

theorem Bounded.of_prefix {s : Session} (hs : s.Bounded) {c : Conn}
    (h : c.writeBuf <+: s.conn.writeBuf) : c.writeBuf.length < writeBufferSize - 1 :=
  Nat.lt_of_le_of_lt h.length_le hs

/-- A complete or rejected request leaves the write buffer empty. -/
theorem Readable.writeBuf_nil {s : Session} (hs : s.Readable) (hphase : s.phase = .reading)
    {a : Arrival} {c c' : Conn} {v : Verdict} (hread : s.conn.read a = (c, true))
    (hparse : processRead c = .ok (c', v)) (hv : v ≠ .code .noRequest) : c'.writeBuf = [] := by
  obtain ⟨hspec, -⟩ := hs.read hphase hread
  rw [hparse] at hspec
  exact congrArg Outgoing.writeBuf (hspec.answered hv).1

theorem Readable.replies {s : Session} (hs : s.Readable) (hphase : s.phase = .reading) {a : Arrival}
    {c c' : Conn} {v : Verdict} (hread : s.conn.read a = (c, true))
    (hparse : processRead c = .ok (c', v)) (hv : v ≠ .code .noRequest) {code : HttpCode}
    (hcode : code.Answers) (json : Bytes) (linger : Bool) :
    ∃ r, Reply.of code json = some r ∧
      Replies { c' with jsonRes := json, linger := linger } r
        (Conn.processWrite { c' with jsonRes := json, linger := linger } code) := by
  have hbuf := hs.writeBuf_nil hphase hread hparse hv
  obtain ⟨r, hr⟩ := Reply.of_answers hcode json
  exact ⟨r, hr, processWrite_replies (c := { c' with jsonRes := json, linger := linger }) hbuf hr⟩

theorem Bounded.step {lib : JsonLib} {verify : Bytes → Option ℤ} {s s' : Session} {i : Input}
    (hreadable : s.Readable) (hs : s.Bounded) (hstep : Step lib verify s i s') : s'.Bounded := by
  have hwrote : ∀ {results : List WritevResult} {c : Conn} {out : Bytes} {e : WriteEnd},
      s.conn.write results = (c, out, e) → c.writeBuf <+: s.conn.writeBuf := by
    intro results c out e hwrite
    have h := Conn.write_writeBuf results s.conn
    rwa [hwrite] at h
  have hgot : ∀ {a : Arrival} {c : Conn} {b : Bool}, s.conn.read a = (c, b) →
      c.writeBuf <+: s.conn.writeBuf := by
    intro a c b hread
    have h := Conn.read_writeBuf a s.conn
    rw [hread] at h
    rw [← h]
  cases hstep with
  | accept peer => exact (by decide : 0 < writeBufferSize - 1)
  | hangup => exact hs
  | @readFails a queued c hphase hread => exact hs.of_prefix (c := c) (hgot hread)
  | rejected hphase hread => exact hs.of_prefix (hgot hread)
  | fault hphase hread => exact hs.of_prefix (hgot hread)
  | blocked hphase hwrite => exact hs.of_prefix (hwrote hwrite)
  | finished hphase hwrite => exact hs.of_prefix (hwrote hwrite)
  | @ended results c out e hphase hwrite => exact hs.of_prefix (c := c) (hwrote hwrite)
  | wait hphase hread hparse =>
    obtain ⟨hspec, -⟩ := hreadable.read hphase hread
    rw [hparse] at hspec
    obtain ⟨h, pending, -, ⟨pre, clean, tail, -, hr⟩, -⟩ := hspec.noRequest
    apply hs.of_prefix
    rw [congrArg Outgoing.writeBuf hr.outgoing]
    exact List.nil_prefix
  | @answer a c c' v calls result hphase hread hparse hverdict houtcome =>
    obtain ⟨hspec, -⟩ := hreadable.read hphase hread
    rw [hparse] at hspec
    obtain ⟨-, -, hcodes⟩ := hspec.answered hverdict
    obtain ⟨r, -, hok, hshort, -⟩ := hreadable.replies hphase hread hparse hverdict
      (houtcome.answers hcodes) result.2 c'.linger
    unfold reply
    dsimp only at hok ⊢
    rw [if_pos hok]
    exact hshort

theorem bounded_of_reaches {lib : JsonLib} {verify : Bytes → Option ℤ} {peer : Peer} {s : Session}
    (hrun : Reaches (Step lib verify) (accepted peer) s) : s.Bounded := by
  have h : s.Readable ∧ s.Bounded := by
    refine hrun.invariant (I := fun s => s.Readable ∧ s.Bounded) ?_
      ⟨.accepted peer, (by decide : 0 < writeBufferSize - 1)⟩
    intro s i s' hs hstep
    exact ⟨hs.1.step hstep, hs.2.step hs.1 hstep⟩
  exact h.2

end Session

/-- `wire` is a status line, three headers and a blank line, then a body of the length that
`Content-Length` gives. -/
def Framed (r : Reply) (linger : Bool) (wire : Bytes) : Prop :=
  wire = r.head r.body.length linger ++ r.body ∧
    ∀ line ∈ r.lines r.body.length linger, ∀ b ∈ line, b ≠ 13 ∧ b ≠ 10

theorem Replies.framed {q : Conn × Bool} (h : Replies c r q) (hr : r.Printable)
    (hbody : (r.body.length : ℤ) ≤ intMax) : Framed r c.linger q.1.offered := by
  have hint := toInt32_of_range (n := r.body.length) (by omega) hbody
  refine ⟨?_, Reply.lines_unbroken hr⟩
  rw [h.offered, hint]

/-- Every code of an answer is answered with a well framed response, whatever the JSON text
and the `Connection` setting, and the write buffer never fills up. -/
theorem response_framing (lib : JsonLib) (verify : Bytes → Option ℤ) (peer : Peer) (s : Session)
    (hrun : Reaches (Session.Step lib verify) (Session.accepted peer) s) :
    s.conn.writeBuf.length < writeBufferSize - 1 ∧
      ∀ (a : Arrival) (c c' : Conn) (v : Verdict), s.phase = .reading →
        s.conn.read a = (c, true) → processRead c = .ok (c', v) → v ≠ .code .noRequest →
        (∀ calls result, Outcome lib verify v calls result → result.1.Answers) ∧
        ∀ (code : HttpCode) (json : Bytes) (linger : Bool), code.Answers →
          (json.length : ℤ) ≤ intMax →
          c'.writeBuf = [] ∧
          (Conn.processWrite { c' with jsonRes := json, linger := linger } code).2 = true ∧
          (Conn.processWrite { c' with jsonRes := json, linger := linger } code).1.writeBuf.length <
            writeBufferSize - 1 ∧
          ∃ r, Reply.of code json = some r ∧ Framed r linger
            (Conn.processWrite { c' with jsonRes := json, linger := linger } code).1.offered := by
  have hreadable := Session.readable_of_reaches hrun
  refine ⟨Session.bounded_of_reaches hrun, fun a c c' v hphase hread hparse hv => ?_⟩
  obtain ⟨hspec, -⟩ := hreadable.read hphase hread
  rw [hparse] at hspec
  obtain ⟨-, -, hcodes⟩ := hspec.answered hv
  refine ⟨fun calls result houtcome => houtcome.answers hcodes, ?_⟩
  intro code json linger hcode hjson
  obtain ⟨r, hr, hreply⟩ := hreadable.replies hphase hread hparse hv hcode json linger
  exact ⟨hreadable.writeBuf_nil hphase hread hparse hv, hreply.ok, hreply.short, r, hr,
    hreply.framed (Reply.printable_of hr) (Reply.body_length_le hr hjson)⟩

/-- A request for a path that no route has. -/
def strayRequest : Bytes := ascii "GET / HTTP/1.1\r\n\r\n"

theorem strayRequest_framed :
    ∃ c', processRead ((Conn.accepted ⟨5, []⟩).receive strayRequest) =
        .ok (c', .code .noResource) ∧
      ∃ r, Reply.of .noResource [] = some r ∧ Framed r true
        (Conn.processWrite { c' with jsonRes := [], linger := true } .noResource).1.offered := by
  have hread : (Conn.accepted ⟨5, []⟩).read ⟨[strayRequest], .again, .again⟩ =
      ((Conn.accepted ⟨5, []⟩).receive strayRequest, true) := by decide +kernel
  obtain ⟨c', hparse⟩ : ∃ c', processRead ((Conn.accepted ⟨5, []⟩).receive strayRequest) =
      .ok (c', .code .noResource) := processRead_of_verdict (by decide +kernel)
  have h := (response_framing ⟨fun _ => none, fun _ => .error .parseError⟩ (fun _ => none) ⟨5, []⟩ _ .refl).2
    _ _ _ _ rfl hread hparse nofun
  exact ⟨c', hparse, (h.2 .noResource [] true (by decide) (by decide)).2.2.2⟩

end Http
end ResourceServer

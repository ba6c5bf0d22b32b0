import ResourceServer.Http.Fragmentation
import ResourceServer.Http.Framing
import ResourceServer.Http.Safety

/-!
# Streams of requests

Several requests follow each other on a connection that stays open. The server keeps them
apart as long as no `read()` ends inside a request behind the point where it is answered,
or takes in bytes of the request after it.
-/

namespace ResourceServer
namespace Http

open CString

/-- A request with an optional body that does not ask for the connection to be closed. -/
structure StreamRequest extends RequestText where
  body_length : (body.length : ℤ) = declaredLength headers
  persistent :
    (headers.foldl (fun s line => s.headerLine (cstr line)) RequestState.initial).linger = true

def stream (rs : List StreamRequest) : Bytes := rs.flatMap (·.bytes)

@[simp] theorem stream_nil : stream [] = [] := rfl

@[simp] theorem stream_cons (r : StreamRequest) (rs : List StreamRequest) :
    stream (r :: rs) = r.bytes ++ stream rs := rfl

@[simp] theorem stream_append (rs rs' : List StreamRequest) :
    stream (rs ++ rs') = stream rs ++ stream rs' := List.flatMap_append

namespace RequestText

theorem decisionPoint_pos (r : RequestText) : 0 < r.decisionPoint := by
  unfold decisionPoint
  split <;> simp [crlf]

theorem decisionPoint_le (r : RequestText) : r.decisionPoint ≤ r.bytes.length := by
  by_contra hlt
  have hread := (r.read_take r.bytes.length).mpr (by omega)
  rw [List.take_length, r.read_bytes] at hread
  cases hreq : Head.initial.requestLine (cstr r.requestLine) <;> simp [hreq, Progress.IsIncomplete] at hread

end RequestText

theorem headerLine_linger (s t : RequestState) (h : s.linger = t.linger) (line : Bytes) :
    (s.headerLine line).linger = (t.headerLine line).linger := by
  unfold RequestState.headerLine
  split_ifs <;> first | exact h | (dsimp only; split_ifs <;> first | rfl | exact h)

theorem foldl_linger (headers : List Bytes) {s t : RequestState} (h : s.linger = t.linger) :
    (headers.foldl (fun s line => s.headerLine (cstr line)) s).linger =
      (headers.foldl (fun s line => s.headerLine (cstr line)) t).linger := by
  induction headers generalizing s t with
  | nil => exact h
  | cons line headers ih => exact ih (headerLine_linger s t h _)

theorem requestLine_linger {h : Head} {line : Bytes} (hread : Head.initial.requestLine line = some h) :
    h.state.linger = true := by
  obtain ⟨method, apireq, hstate⟩ := Head.requestLine_frame hread
  rw [hstate]
  rfl

namespace StreamRequest

variable (r : StreamRequest)

theorem head_linger : (Head.initial.read r.bytes).head.state.linger = true := by
  rw [r.read_bytes]
  cases hreq : Head.initial.requestLine (cstr r.requestLine) with
  | none => rfl
  | some h =>
    simp only [Progress.head, Head.foldl_state]
    rw [foldl_linger r.headers (t := .initial) (requestLine_linger hreq)]
    exact r.persistent

theorem head_contentLength {h : Head} {rest : Bytes}
    (hread : Head.initial.read r.bytes = .complete h rest) :
    rest = r.body ∧ h.state.contentLength = rest.length := by
  obtain ⟨h₁, hreq, hstate, rfl⟩ := RequestText.complete_of_read hread
  obtain ⟨-, hlength⟩ := Head.requestLine_state hreq
  refine ⟨rfl, ?_⟩
  rw [hstate, r.body_length]
  exact Head.foldl_contentLength _ hlength

end StreamRequest

namespace Session

variable {lib : JsonLib} {verify : Bytes → Option ℤ}

def takes (s : Session) : Input → Bytes
  | .readable a _ => s.gained (s.conn.read a).1
  | _ => []

/-- Steps of a session, with the bytes it has taken from the socket in `seen`. -/
inductive Receives (lib : JsonLib) (verify : Bytes → Option ℤ) :
    Session × Bytes → Input → Session × Bytes → Prop where
  | mk {s s' : Session} {i : Input} (seen : Bytes) (hstep : Step lib verify s i s') :
      Receives lib verify (s, seen) i (s', seen ++ s.takes i)

/-- The peer stays and neither the socket nor the worker queue fails. -/
def Undisturbed (s : Session) : Input → Prop
  | .accept _ | .hangup => False
  | .readable a queued => queued = true ∧ (s.conn.read a).2 = true
  | .writable results => .error ∉ results

/-- A `read()` leaves the request that is being received short of the point where it is
answered, or takes in all of it and nothing else, with a cell of the buffer left behind its body. -/
def Aligned (rs : List StreamRequest) (s : Session) (i : Input) : Prop :=
  ∀ a queued, i = .readable a queued → ∀ r, rs[s.answers.length]? = some r →
    (s.received ++ s.takes i).length < r.decisionPoint ∨
      (s.received ++ s.takes i).length = r.bytes.length ∧ BodyEndInRange r.bytes

/-- The answer was computed from the bytes of `r` alone: parsed on a new connection they lead to
its verdict, the verdict to its code with a JSON text, and there `process_write` turns these two
into its response. -/
structure OwnAnswer (lib : JsonLib) (verify : Bytes → Option ℤ) (r : StreamRequest) (a : Answer) :
    Prop where
  received : a.received = r.bytes
  computed : ∃ json, Outcome lib verify a.verdict a.calls (a.code, json) ∧
    ∀ peer, ∃ c, (Conn.accepted peer).round r.bytes = some (.ok (c, a.verdict)) ∧
      a.response = (Conn.processWrite { c with jsonRes := json } a.code).1.offered

def responses (s : Session) : Bytes := s.answers.flatMap Answer.response

/-- Where a session stands in a stream: `done` is answered, `todo` is to come. -/
structure Serving (lib : JsonLib) (verify : Bytes → Option ℤ) (done todo : List StreamRequest)
    (s : Session) (seen : Bytes) : Prop where
  own : List.Forall₂ (OwnAnswer lib verify) done s.answers
  live : s.phase = .reading ∨ s.phase = .writing
  reading : s.phase = .reading → seen = stream done ++ s.received ∧ s.wire = s.responses ∧
    ∀ r, todo.head? = some r → s.received.length < r.decisionPoint
  writing : s.phase = .writing → seen = stream done ∧ s.conn.linger = true ∧
    ∃ head body, Sending s.conn head body ∧ s.wire ++ (head ++ body) = s.responses

theorem Serving.next {done todo : List StreamRequest} {s : Session} {seen : Bytes}
    (h : Serving lib verify done todo s seen) : (done ++ todo)[s.answers.length]? = todo.head? := by
  rw [← h.own.length_eq, List.getElem?_append_right le_rfl, Nat.sub_self, List.head?_eq_getElem?]

theorem Serving.accepted (rs : List StreamRequest) (peer : Peer) :
    Serving lib verify [] rs (accepted peer) [] :=
  ⟨.nil, Or.inl rfl, fun _ => ⟨rfl, rfl, fun r _ => r.decisionPoint_pos⟩, nofun⟩

theorem Serving.received_prefix {done todo : List StreamRequest} {s : Session} {seen : Bytes}
    {c : Conn} (h : Serving lib verify done todo s seen) (hphase : s.phase = .reading)
    (hseen : seen ++ s.gained c <+: stream (done ++ todo)) :
    (s.afterRead c).received <+: stream todo := by
  rw [(h.reading hphase).1, stream_append, List.append_assoc] at hseen
  exact (List.prefix_append_right_inj _).mp hseen

theorem received_cases {r : StreamRequest} {todo : List StreamRequest} {received : Bytes}
    (hpre : received <+: stream (r :: todo))
    (h : received.length < r.decisionPoint ∨
      received.length = r.bytes.length ∧ BodyEndInRange r.bytes) :
    (Head.initial.read received).IsIncomplete ∧ received.length < r.decisionPoint ∨
      received = r.bytes ∧ BodyEndInRange r.bytes := by
  have hle := r.decisionPoint_le
  have htake : received.length ≤ r.bytes.length → received = r.bytes.take received.length := by
    intro hlen
    have := List.prefix_iff_eq_take.mp hpre
    rw [stream_cons, List.take_append_of_le_length hlen] at this
    exact this
  rcases h with hlt | ⟨heq, hinside⟩
  · left
    refine ⟨?_, hlt⟩
    rw [htake (by omega)]
    exact (r.read_take _).mpr hlt
  · right
    refine ⟨?_, hinside⟩
    rw [htake heq.le, heq, List.take_length]

/-- Parsed on a new connection, a whole request gets the same verdict, and leaves the same to
`process_write`. -/
theorem round_answered (r : StreamRequest) {n : ℕ} {c' : Conn} {v : Verdict}
    (hspec : Refines n (.ok (c', v)) (Head.initial.read r.bytes)) (hn : n = r.bytes.length)
    (hsize : n ≤ readBufferSize) (hv : v ≠ .code .noRequest) (peer : Peer) :
    ∃ c, (Conn.accepted peer).round r.bytes = some (.ok (c, v)) ∧
      c.toOutgoing = c'.toOutgoing ∧ c.linger = c'.linger := by
  have hne : r.bytes ≠ [] := by
    intro hnil
    have hpos := r.decisionPoint_pos
    have hle := r.decisionPoint_le
    rw [hnil] at hle
    simp at hle
    omega
  have hzero : (Conn.accepted peer).readIndex = 0 := rfl
  have hinit : (Conn.accepted peer).init.readIndex = 0 := rfl
  rw [Conn.round_eq hne (by omega)]
  have hwhole := processRead_spec ((resumable_init (.accepted peer)).receive r.bytes (by omega))
  rw [List.nil_append] at hwhole
  have hindex : ((Conn.accepted peer).receive r.bytes).readIndex = n := by
    simp [Conn.readIndex, Conn.receive, Conn.accepted, hn]
  have hwhole' : Refines n (processRead ((Conn.accepted peer).receive r.bytes))
      (Head.initial.read r.bytes) := hindex ▸ hwhole
  have hsame := hwhole'.verdict_unique hspec fun h rest hread => by
    rw [(r.head_contentLength hread).2]
    omega
  cases hresult : processRead ((Conn.accepted peer).receive r.bytes) with
  | error f =>
    rw [hresult] at hsame
    cases hsame
  | ok p =>
    obtain ⟨c, v'⟩ := p
    rw [hresult] at hsame hwhole'
    cases hsame
    obtain ⟨hout, hlinger, -⟩ := hwhole'.answered hv
    obtain ⟨hout', hlinger', -⟩ := hspec.answered hv
    exact ⟨c, rfl, hout.trans hout'.symm, hlinger.trans hlinger'.symm⟩

/-- A `read()` on a stream: what it leaves is incomplete and awaited, or a whole request. -/
theorem Serving.arrival {done todo : List StreamRequest} {s : Session} {seen : Bytes} {a : Arrival}
    {c : Conn} (h : Serving lib verify done todo s seen) (hphase : s.phase = .reading)
    (hread : s.conn.read a = (c, true)) (haligned : s.Aligned (done ++ todo) (.readable a true))
    (hseen : seen ++ s.gained c <+: stream (done ++ todo)) :
    ((Head.initial.read (s.afterRead c).received).IsIncomplete ∧
      ∀ r, todo.head? = some r → (s.afterRead c).received.length < r.decisionPoint) ∨
    ∃ r todo', todo = r :: todo' ∧ (s.afterRead c).received = r.bytes ∧ BodyEndInRange r.bytes := by
  have hpre := h.received_prefix hphase hseen
  have htakes : s.takes (.readable a true) = s.gained c := by rw [takes, hread]
  cases todo with
  | nil =>
    left
    rw [List.prefix_nil.mp hpre]
    exact ⟨by rw [Head.read_none rfl]; trivial, nofun⟩
  | cons r todo =>
    have hlength := haligned a true rfl r h.next
    rw [htakes] at hlength
    rcases received_cases hpre hlength with ⟨hincomplete, hlt⟩ | ⟨hwhole, hinside⟩
    · left
      refine ⟨hincomplete, fun r' hr' => ?_⟩
      cases hr'
      exact hlt
    · exact Or.inr ⟨r, todo, rfl, hwhole, hinside⟩

/-- An incomplete head gets no answer. -/
theorem verdict_of_incomplete {n : ℕ} {result : Except Fault (Conn × Verdict)} {progress : Progress}
    (hspec : Refines n result progress) (h : progress.IsIncomplete) :
    ∃ c', result = .ok (c', .code .noRequest) := by
  cases progress with
  | incomplete h' pending =>
    obtain ⟨c', hc', -⟩ := hspec
    exact ⟨c', hc'⟩
  | rejected h' rest => exact h.elim
  | complete h' rest => exact h.elim

theorem Serving.reply {done todo : List StreamRequest} {r : StreamRequest} {s : Session}
    {seen : Bytes} {c c' : Conn} {v : Verdict} {calls : List (Event services)}
    {result : HttpCode × Bytes} (h : Serving lib verify done (r :: todo) s seen)
    (hphase : s.phase = .reading) (hreceived : (s.afterRead c).received = r.bytes)
    (hspec : Refines (s.afterRead c).received.length (.ok (c', v)) (Head.initial.read r.bytes))
    (hsize : (s.afterRead c).received.length ≤ readBufferSize) (hv : v ≠ .code .noRequest)
    (houtcome : Outcome lib verify v calls result)
    (hfits : ∀ a ∈ ((s.afterRead c).reply c' v calls result.1 result.2).answers,
      (a.response.length : ℤ) ≤ intMax) :
    Serving lib verify (done ++ [r]) todo ((s.afterRead c).reply c' v calls result.1 result.2)
      (seen ++ s.gained c) := by
  have hqueues := hspec.queues hv houtcome
  obtain ⟨hempty, hlinger, hcode⟩ := hspec.answered hv
  obtain ⟨hseen, hwire, -⟩ := h.reading hphase
  unfold Session.reply at hfits ⊢
  rw [if_pos hqueues.ok] at hfits ⊢
  have hown : OwnAnswer lib verify r ⟨(s.afterRead c).received, v, calls, result.1,
      (Conn.processWrite { c' with jsonRes := result.2 } result.1).1.offered⟩ := by
    refine ⟨hreceived, result.2, houtcome, fun peer => ?_⟩
    obtain ⟨d, hround, hout, hsame⟩ :=
      round_answered r hspec (congrArg List.length hreceived) hsize hv peer
    exact ⟨d, hround, processWrite_offered (c := { c' with jsonRes := result.2 })
      (d := { d with jsonRes := result.2 }) (congrArg Outgoing.writeBuf hempty)
      (congrArg Outgoing.writeBuf (hout.trans hempty)) hsame.symm rfl (houtcome.answers hcode)⟩
  obtain ⟨head, body, hsending⟩ := hqueues.sending (hfits _ (List.mem_append_right _ (List.mem_singleton.mpr rfl)))
  refine ⟨List.rel_append h.own (.cons hown .nil), Or.inr rfl, nofun, fun _ => ⟨?_, ?_, head, body, hsending, ?_⟩⟩
  · rw [hseen, stream_append, List.append_assoc, stream_cons, stream_nil, List.append_nil]
    exact congrArg _ hreceived
  · exact hqueues.linger.trans (hlinger.trans r.head_linger)
  · rw [← hsending.offered]
    simp only [responses, List.flatMap_append, List.flatMap_singleton]
    exact congrArg (· ++ _) hwire

/-- `writev` results without an error do not make `write()` fail. -/
theorem writeLoop_ne_failed (results : List WritevResult) (hresults : .error ∉ results) (c : Conn) :
    (c.writeLoop results).2.2 ≠ .failed := by
  induction results generalizing c with
  | nil => simp [Conn.writeLoop]
  | cons r results ih =>
    simp only [List.mem_cons, not_or] at hresults
    cases r with
    | again => simp [Conn.writeLoop]
    | error => exact absurd rfl hresults.1
    | sent n =>
      rw [Conn.writeLoop]
      dsimp only
      split_ifs
      · exact ih hresults.2 _
      · simp
      · simp
      · exact ih hresults.2 _

theorem write_ne_failed {results : List WritevResult} (hresults : .error ∉ results) (c : Conn) :
    (c.write results).2.2 ≠ .failed := by
  unfold Conn.write
  split_ifs
  · nofun
  · exact writeLoop_ne_failed results hresults c

/-- A `write()` on a stream sends on, or ends the response and waits for the next request. -/
theorem Serving.write {done todo : List StreamRequest} {s : Session} {seen : Bytes}
    {results : List WritevResult} (h : Serving lib verify done todo s seen)
    (hphase : s.phase = .writing) (hresults : .error ∉ results) :
    (∃ c out, s.conn.write results = (c, out, .blocked) ∧
      Serving lib verify done todo { s with conn := c, wire := s.wire ++ out } seen) ∨
    ∃ out, s.conn.write results = (s.conn.init, out, .finished) ∧
      Serving lib verify done todo
        { s with conn := s.conn.init, phase := .reading, received := [], wire := s.wire ++ out } seen := by
  obtain ⟨hseen, hlinger, head, body, hsending, hwire⟩ := h.writing hphase
  have hwrite := write_spec results hsending
  have hfailed := write_ne_failed hresults s.conn
  generalize s.conn.write results = w at hwrite hfailed
  cases hwrite with
  | blocked c' out head' body' hl hp hs' hleft =>
    refine Or.inl ⟨c', out, rfl, h.own, Or.inr hphase, fun hr => ?_, fun _ => ⟨hseen, hl.trans hlinger,
      head', body', hs', ?_⟩⟩
    · exact absurd (hphase.symm.trans hr) nofun
    · rw [List.append_assoc, hleft]
      exact hwire
  | finished =>
    refine Or.inr ⟨_, rfl, h.own, Or.inl rfl, fun _ => ⟨?_, hwire, fun r _ => r.decisionPoint_pos⟩, nofun⟩
    rw [List.append_nil]
    exact hseen
  | closing c' hl => simp [hlinger] at hl
  | failed c' out hout => exact absurd rfl hfailed

theorem Serving.step {done todo : List StreamRequest} {s s' : Session} {seen : Bytes} {i : Input}
    (hs : s.Readable) (h : Serving lib verify done todo s seen) (hundisturbed : s.Undisturbed i)
    (haligned : s.Aligned (done ++ todo) i) (hstep : Step lib verify s i s')
    (hseen : seen ++ s.takes i <+: stream (done ++ todo))
    (hfits : ∀ a ∈ s'.answers, (a.response.length : ℤ) ≤ intMax) :
    ∃ done' todo', done' ++ todo' = done ++ todo ∧
      Serving lib verify done' todo' s' (seen ++ s.takes i) := by
  have htakes {a : Arrival} {queued : Bool} {c : Conn} {ok : Bool} (hread : s.conn.read a = (c, ok)) :
      s.takes (.readable a queued) = s.gained c := by rw [takes, hread]
  cases hstep with
  | accept | hangup => exact hundisturbed.elim
  | readFails hphase hread => exact absurd (congrArg Prod.snd hread ▸ hundisturbed.2) nofun
  | rejected => exact absurd hundisturbed.1 nofun
  | fault hphase hread hparse =>
    obtain ⟨hspec, hsize⟩ := hs.read hphase hread
    rw [htakes hread] at hseen
    rcases h.arrival hphase hread haligned hseen with ⟨hincomplete, -⟩ | ⟨r, todo', rfl, hwhole, hinside⟩
    · obtain ⟨c', hc'⟩ := verdict_of_incomplete hspec hincomplete
      exact absurd (hparse.symm.trans hc') nofun
    · rw [hwhole] at hspec hsize
      exact absurd hinside ((processRead_fault hspec rfl hsize).mp ⟨_, hparse⟩)
  | wait hphase hread hparse =>
    obtain ⟨hspec, -⟩ := hs.read hphase hread
    rw [htakes hread] at hseen ⊢
    rcases h.arrival hphase hread haligned hseen with ⟨-, hlt⟩ | ⟨r, todo', rfl, hwhole, -⟩
    · obtain ⟨hseen', hwire, -⟩ := h.reading hphase
      refine ⟨done, todo, rfl, h.own, Or.inl hphase, fun _ => ⟨?_, hwire, hlt⟩, fun hw => ?_⟩
      · rw [hseen', List.append_assoc]
        rfl
      · exact absurd (hphase.symm.trans hw) nofun
    · rw [hparse, hwhole] at hspec
      obtain ⟨h', pending, hincomplete, -⟩ := hspec.noRequest
      have hle := r.decisionPoint_le
      have hlt := (r.read_take r.bytes.length).mp (by rw [List.take_length, hincomplete]; trivial)
      omega
  | answer hphase hread hparse hverdict houtcome =>
    obtain ⟨hspec, hsize⟩ := hs.read hphase hread
    rw [htakes hread] at hseen ⊢
    rcases h.arrival hphase hread haligned hseen with ⟨hincomplete, -⟩ | ⟨r, todo', rfl, hwhole, -⟩
    · obtain ⟨c', hc'⟩ := verdict_of_incomplete hspec hincomplete
      cases hparse.symm.trans hc'
      exact absurd rfl hverdict
    · rw [hparse] at hspec
      refine ⟨done ++ [r], todo', by simp, h.reply hphase hwhole ?_ hsize hverdict houtcome hfits⟩
      rwa [hwhole] at hspec ⊢
  | blocked hphase hwrite =>
    rw [show s.takes (.writable _) = [] from rfl, List.append_nil]
    rcases h.write hphase hundisturbed with ⟨c, out, hc, hserving⟩ | ⟨out, hc, -⟩
    · cases hwrite.symm.trans hc
      exact ⟨done, todo, rfl, hserving⟩
    · cases hwrite.symm.trans hc
  | finished hphase hwrite =>
    rw [show s.takes (.writable _) = [] from rfl, List.append_nil]
    rcases h.write hphase hundisturbed with ⟨c, out, hc, -⟩ | ⟨out, hc, hserving⟩
    · cases hwrite.symm.trans hc
    · cases hwrite.symm.trans hc
      exact ⟨done, todo, rfl, hserving⟩
  | ended hphase hwrite hend =>
    rcases h.write hphase hundisturbed with ⟨c, out, hc, -⟩ | ⟨out, hc, -⟩
    all_goals
      cases hwrite.symm.trans hc
      rcases hend with hend | hend <;> cases hend

/-- What a stream is promised: one answer for each request, in order and of its own bytes,
every response on the wire before the next request, and nothing dropped. -/
structure Framed (lib : JsonLib) (verify : Bytes → Option ℤ) (rs : List StreamRequest) (s : Session)
    (seen : Bytes) : Prop where
  own : List.Forall₂ (OwnAnswer lib verify) (rs.take s.answers.length) s.answers
  live : s.phase = .reading ∨ s.phase = .writing
  sent : s.phase = .reading → s.wire = s.responses
  complete : s.phase = .reading → seen = stream rs → s.answers.length = rs.length

theorem Serving.framed {done todo : List StreamRequest} {s : Session} {seen : Bytes}
    (h : Serving lib verify done todo s seen) : Framed lib verify (done ++ todo) s seen := by
  refine ⟨?_, h.live, fun hphase => (h.reading hphase).2.1, fun hphase hseen => ?_⟩
  · rw [← h.own.length_eq, List.take_left]
    exact h.own
  · obtain ⟨hdone, -, hlt⟩ := h.reading hphase
    rw [hseen, stream_append] at hdone
    have hleft : stream todo = s.received := List.append_cancel_left hdone
    cases todo with
    | nil => rw [List.append_nil, h.own.length_eq]
    | cons r todo =>
      have hpoint := hlt r rfl
      have hle := r.decisionPoint_le
      rw [← hleft, stream_cons, List.length_append] at hpoint
      omega

/-- The connection that `process_read` leaves. -/
def parsed (c : Conn) : Conn := ((processRead c).toOption.map Prod.fst).getD c

/-- One `read()` and `process()` that answers. -/
def served (s : Session) (a : Arrival) (v : Verdict) (result : HttpCode × Bytes) : Session :=
  (s.afterRead (s.conn.read a).1).reply (parsed (s.conn.read a).1) v [] result.1 result.2

theorem step_served {s : Session} {a : Arrival} {v : Verdict} {result : HttpCode × Bytes}
    (hphase : s.phase = .reading) (hread : (s.conn.read a).2 = true)
    (hparse : processRead (s.conn.read a).1 = .ok (parsed (s.conn.read a).1, v))
    (hv : v ≠ .code .noRequest) (houtcome : Outcome lib verify v [] result) :
    Step lib verify s (.readable a true) (s.served a v result) :=
  .answer hphase (Prod.ext rfl hread) hparse hv houtcome

def healthRequest : StreamRequest where
  requestLine := ascii "GET /health HTTP/1.1"
  headers := []
  body := []
  plain := by decide +kernel
  headers_ne_nil := by decide
  body_length := by decide
  persistent := by decide

/-- Writes objects with one text field, and reads the empty object. -/
def statusLib : JsonLib where
  dump
    | .obj [(key, .str text)] => some (ascii "\x7b\"" ++ key ++ ascii "\":\"" ++ text ++ ascii "\"\x7d")
    | _ => none
  parse text := if text = ascii "\x7b\x7d" then .ok (.obj []) else .error .parseError

/-- The session after a `write()` that ends the response. -/
def flushed (s : Session) (results : List WritevResult) : Session :=
  { s with
    conn := (s.conn.write results).1
    phase := .reading
    received := []
    wire := s.wire ++ (s.conn.write results).2.1 }

theorem triple_eq {α β γ : Type} {p : α × β × γ} {c : γ} (h : p.2.2 = c) : p = (p.1, p.2.1, c) := by
  subst h
  rfl

theorem step_flushed {s : Session} (results : List WritevResult) (hphase : s.phase = .writing)
    (hend : (s.conn.write results).2.2 = .finished) :
    Step lib verify s (.writable results) (s.flushed results) :=
  .finished hphase (triple_eq hend)

def healthVerdict : Verdict := .handler ⟨.health, .get, ascii "/health", [], []⟩

def healthAnswer : HttpCode × Bytes := (.getResource, ascii "\x7b\"status\":\"ok\"\x7d")

theorem health_outcome (verify : Bytes → Option ℤ) :
    Outcome statusLib verify healthVerdict [] healthAnswer := by
  have hexec : Prog.Exec (oracle verify) () (handleHealth statusLib) [] () (some healthAnswer) := .ret () _
  exact .handler ⟨.health, .get, ascii "/health", [], []⟩ hexec

def healthServed : Session :=
  ((accepted ⟨5, []⟩).served ⟨[healthRequest.bytes], .again, .again⟩ healthVerdict healthAnswer).flushed [.sent 1000]

theorem health_steps (verify : Bytes → Option ℤ) :
    Step statusLib verify (accepted ⟨5, []⟩) (.readable ⟨[healthRequest.bytes], .again, .again⟩ true)
        ((accepted ⟨5, []⟩).served ⟨[healthRequest.bytes], .again, .again⟩ healthVerdict healthAnswer) ∧
      Step statusLib verify
        ((accepted ⟨5, []⟩).served ⟨[healthRequest.bytes], .again, .again⟩ healthVerdict healthAnswer)
        (.writable [.sent 1000]) healthServed :=
  ⟨step_served rfl (by decide +kernel) (by decide +kernel) (by decide) (health_outcome _),
    step_flushed [.sent 1000] rfl (by decide +kernel)⟩

end Session
end Http
end ResourceServer

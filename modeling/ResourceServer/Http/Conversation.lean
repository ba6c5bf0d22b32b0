import ResourceServer.Http.Message
import ResourceServer.Http.Stream

/-!
# Conversations

Everything that one connection puts on the wire, from `accept` to the close, read by a client
that knows only how messages are framed. Whatever arrives, in whatever pieces, and however the
socket takes the responses, the client reads the answers in their order, each whole, and at
most one of them is still under way.
-/

namespace ResourceServer
namespace Http

open CString

namespace Message

/-- The connection stays open behind the message. -/
def KeepsAlive (m : Message) : Prop := Reply.connection true ∈ m.headers

instance (m : Message) : Decidable m.KeepsAlive :=
  inferInstanceAs (Decidable (Reply.connection true ∈ m.headers))

/-- The messages that have arrived, with the beginning of the next one. -/
def readAll (s : Bytes) : List Message × Bytes := Decoder.all decode s

end Message

theorem Reply.message_keepsAlive (r : Reply) : (r.message true).KeepsAlive :=
  List.mem_cons_of_mem _ (List.mem_cons_of_mem _ List.mem_cons_self)

/-- `m` is what `process_write` makes of the code and the JSON text of the answer `a`. -/
inductive Shows (lib : JsonLib) (verify : Bytes → Option ℤ) (a : Answer) : Message → Prop where
  | mk {json : Bytes} {r : Reply} (linger : Bool)
      (houtcome : Outcome lib verify a.verdict a.calls (a.code, json))
      (hreply : Reply.of a.code json = some r) (hresponse : a.response = (r.message linger).encode) :
      Shows lib verify a (r.message linger)

namespace Shows

variable {lib : JsonLib} {verify : Bytes → Option ℤ} {a : Answer} {m : Message}

theorem response_eq (h : Shows lib verify a m) : a.response = m.encode := by
  obtain ⟨linger, -, -, hresponse⟩ := h
  exact hresponse

theorem wellFormed (h : Shows lib verify a m) : m.WellFormed := by
  obtain ⟨linger, -, hreply, -⟩ := h
  exact Reply.message_wellFormed (Reply.printable_of hreply) linger

theorem all_wellFormed {answers : List Answer} {ms : List Message}
    (h : List.Forall₂ (Shows lib verify) answers ms) : ∀ m ∈ ms, m.WellFormed := by
  induction h with
  | nil => exact nofun
  | cons hshows _ ih =>
    intro m hm
    rcases List.mem_cons.mp hm with rfl | hm
    · exact hshows.wellFormed
    · exact ih m hm

end Shows

/-- What a `write()` that blocks leaves is not empty, and one that goes on to the next request has
found the connection kept alive. -/
structure Proper (c : Conn) (r : Conn × Bytes × WriteEnd) : Prop where
  blocked : r.2.2 = .blocked → r.1.bytesToSend ≠ 0
  finished : r.2.2 = .finished → c.linger = true

theorem Proper.of_linger {c c' : Conn} {r : Conn × Bytes × WriteEnd} (h : Proper c' r)
    (hlinger : c'.linger = c.linger) (out : Bytes) : Proper c (r.1, out ++ r.2.1, r.2.2) :=
  ⟨h.blocked, fun hend => hlinger ▸ h.finished hend⟩

theorem Sending.bytesToSend_ne_zero {c : Conn} {head body : Bytes} (hs : Sending c head body)
    (hne : head ++ body ≠ []) : c.bytesToSend ≠ 0 := by
  rw [hs.bytesToSend, Ne, Int.natCast_eq_zero, List.length_eq_zero_iff]
  exact hne

theorem writeLoop_proper (results : List WritevResult) {c : Conn} {head body : Bytes}
    (hs : Sending c head body) (hne : head ++ body ≠ []) : Proper c (c.writeLoop results) := by
  induction results generalizing c head body with
  | nil => exact ⟨fun _ => hs.bytesToSend_ne_zero hne, by rintro ⟨⟩⟩
  | cons r results ih =>
    cases r with
    | again => exact ⟨fun _ => hs.bytesToSend_ne_zero hne, by rintro ⟨⟩⟩
    | error => exact ⟨by rintro ⟨⟩, by rintro ⟨⟩⟩
    | sent n =>
      rw [Conn.writeLoop, hs.offered, hs.head_len, hs.first.len_eq]
      generalize hout : (head ++ body).take n = out
      by_cases hin : 0 < head.length ∧ (out.length : ℤ) < head.length
      · -- the head is not out
        have hleft : head.drop out.length ++ body ≠ [] := by
          intro hnil
          have hlen := congrArg List.length (List.append_eq_nil_iff.mp hnil).1
          rw [List.length_drop, List.length_nil] at hlen
          omega
        rw [if_pos hin]
        dsimp only
        have hrest := ih (hs.advance_head out.length) hleft
        exact hrest.of_linger (c := c) rfl out
      · have hpass := hs.pass_head (k := out.length) (by omega)
        rw [if_neg hin]
        dsimp only
        by_cases hdone : (c.passHead out.length).bytesToSend ≤ 0
        · rw [if_pos hdone, passHead_linger]
          cases hlinger : c.linger with
          | true => exact ⟨by rintro ⟨⟩, fun _ => hlinger⟩
          | false => exact ⟨by rintro ⟨⟩, by rintro ⟨⟩⟩
        · have hleft : [] ++ body.drop (out.length - head.length) ≠ [] := by
            intro hnil
            rw [hpass.bytesToSend, hnil] at hdone
            exact hdone le_rfl
          rw [if_neg hdone]
          have hrest := ih hpass hleft
          exact hrest.of_linger (passHead_linger c out.length) out

theorem write_proper (results : List WritevResult) {c : Conn} {head body : Bytes}
    (hs : Sending c head body) (hne : head ++ body ≠ []) : Proper c (c.write results) := by
  rw [Conn.write, if_neg (hs.bytesToSend_ne_zero hne)]
  exact writeLoop_proper results hs hne

namespace Session

variable {lib : JsonLib} {verify : Bytes → Option ℤ}

/-- The answers of a session appear as `ms`, and the wire has got all of them but what is left
of the last. -/
structure Conversing (lib : JsonLib) (verify : Bytes → Option ℤ) (ms : List Message) (s : Session) :
    Prop where
  shown : List.Forall₂ (Shows lib verify) s.answers ms
  kept : ∀ m ∈ ms.dropLast, m.KeepsAlive
  begun : ms.dropLast.flatMap Message.encode <+: s.wire
  within : s.wire <+: ms.flatMap Message.encode
  reading : s.phase = .reading → s.wire = ms.flatMap Message.encode ∧ ∀ m ∈ ms, m.KeepsAlive
  writing : s.phase = .writing → (s.conn.linger = true → ∀ m ∈ ms, m.KeepsAlive) ∧
    ∃ head body, Sending s.conn head body ∧ head ++ body ≠ [] ∧
      s.wire ++ (head ++ body) = ms.flatMap Message.encode

namespace Conversing

variable {ms : List Message} {s : Session}

theorem accepted (lib : JsonLib) (verify : Bytes → Option ℤ) (peer : Peer) :
    Conversing lib verify [] (accepted peer) where
  shown := .nil
  kept := nofun
  begun := List.nil_prefix
  within := List.nil_prefix
  reading _ := ⟨rfl, nofun⟩
  writing := nofun

theorem ended (h : Conversing lib verify ms s) {s' : Session} (hanswers : s'.answers = s.answers)
    (hwire : s'.wire = s.wire) (hreading : s'.phase ≠ .reading) (hwriting : s'.phase ≠ .writing) :
    Conversing lib verify ms s' where
  shown := hanswers ▸ h.shown
  kept := h.kept
  begun := hwire ▸ h.begun
  within := hwire ▸ h.within
  reading hphase := absurd hphase hreading
  writing hphase := absurd hphase hwriting

/-- More of the last response on the wire. -/
theorem sent (h : Conversing lib verify ms s) {s' : Session} {out : Bytes}
    (hanswers : s'.answers = s.answers) (hwire : s'.wire = s.wire ++ out)
    (hwithin : s.wire ++ out <+: ms.flatMap Message.encode)
    (hreading : s'.phase = .reading → s.wire ++ out = ms.flatMap Message.encode ∧ ∀ m ∈ ms, m.KeepsAlive)
    (hwriting : s'.phase = .writing → (s'.conn.linger = true → ∀ m ∈ ms, m.KeepsAlive) ∧
      ∃ head body, Sending s'.conn head body ∧ head ++ body ≠ [] ∧
        s.wire ++ out ++ (head ++ body) = ms.flatMap Message.encode) :
    Conversing lib verify ms s' where
  shown := hanswers ▸ h.shown
  kept := h.kept
  begun := hwire ▸ h.begun.trans (List.prefix_append _ _)
  within := hwire ▸ hwithin
  reading := by
    rw [hwire]
    exact hreading
  writing := by
    rw [hwire]
    exact hwriting

theorem answered (h : Conversing lib verify ms s) (hphase : s.phase = .reading) {a : Answer}
    {m : Message} (hshows : Shows lib verify a m) {s' : Session} (hanswers : s'.answers = s.answers ++ [a])
    (hwire : s'.wire = s.wire) (hphase' : s'.phase = .writing)
    (hlinger : s'.conn.linger = true → m.KeepsAlive) {head body : Bytes}
    (hsending : Sending s'.conn head body) (hresponse : head ++ body = a.response) :
    Conversing lib verify (ms ++ [m]) s' := by
  obtain ⟨hsent, hkept⟩ := h.reading hphase
  have hall : (ms ++ [m]).flatMap Message.encode = s.wire ++ m.encode := by
    rw [List.flatMap_append, List.flatMap_singleton, hsent]
  have hreading : s'.phase ≠ .reading := by
    rw [hphase']
    nofun
  refine ⟨?_, ?_, ?_, ?_, fun hread => absurd hread hreading, fun _ => ⟨fun hl => ?_, head, body, hsending, ?_, ?_⟩⟩
  · rw [hanswers]
    exact List.rel_append h.shown (.cons hshows .nil)
  · rw [List.dropLast_concat]
    exact hkept
  · rw [List.dropLast_concat, hwire, hsent]
  · rw [hall, hwire]
    exact List.prefix_append _ _
  · intro m' hm'
    rcases List.mem_append.mp hm' with hm' | hm'
    · exact hkept m' hm'
    · rw [List.mem_singleton.mp hm']
      exact hlinger hl
  · rw [hresponse, hshows.response_eq]
    exact Message.inverts.encode_ne_nil hshows.wellFormed
  · rw [hall, hwire, hresponse, hshows.response_eq]

end Conversing

/-- The response to a request is the message of its reply. -/
theorem Readable.shows {s : Session} (hs : s.Readable) (hphase : s.phase = .reading) {a : Arrival}
    {c c' : Conn} {v : Verdict} (hread : s.conn.read a = (c, true))
    (hparse : processRead c = .ok (c', v)) (hv : v ≠ .code .noRequest) {calls : List (Event services)}
    {result : HttpCode × Bytes} (houtcome : Outcome lib verify v calls result) (received : Bytes)
    (hfits : ((Conn.processWrite { c' with jsonRes := result.2 } result.1).1.offered.length : ℤ) ≤ intMax) :
    ∃ m, Shows lib verify ⟨received, v, calls, result.1,
        (Conn.processWrite { c' with jsonRes := result.2 } result.1).1.offered⟩ m ∧
      (c'.linger = true → m.KeepsAlive) := by
  obtain ⟨hspec, -⟩ := hs.read hphase hread
  rw [hparse] at hspec
  obtain ⟨-, -, hcodes⟩ := hspec.answered hv
  obtain ⟨r, hr, hreply⟩ := hs.replies hphase hread hparse hv (houtcome.answers hcodes) result.2 c'.linger
  have hoffered : (Conn.processWrite { c' with jsonRes := result.2 } result.1).1.offered =
      r.head (toInt32 r.body.length) c'.linger ++ r.body := hreply.offered
  have hbody : (r.body.length : ℤ) ≤ intMax := by
    rw [hoffered, List.length_append] at hfits
    omega
  rw [toInt32_of_range (by omega) hbody, ← Reply.message_encode] at hoffered
  refine ⟨r.message c'.linger, ⟨c'.linger, houtcome, hr, hoffered⟩, fun hlinger => ?_⟩
  rw [hlinger]
  exact r.message_keepsAlive

theorem Conversing.step {ms : List Message} {s s' : Session} {i : Input} (hs : s.Readable)
    (h : Conversing lib verify ms s) (hstep : Step lib verify s i s')
    (hfits : ∀ a ∈ s'.answers, (a.response.length : ℤ) ≤ intMax) :
    ∃ ms', Conversing lib verify ms' s' := by
  cases hstep with
  | accept peer => exact ⟨[], .accepted lib verify peer⟩
  | hangup | readFails | rejected | fault => exact ⟨ms, h.ended rfl rfl nofun nofun⟩
  | wait hphase hread hparse =>
    refine ⟨ms, h.shown, h.kept, h.begun, h.within, fun _ => h.reading hphase, fun hwriting => ?_⟩
    exact absurd (hphase.symm.trans hwriting) nofun
  | @answer a c c' v calls result hphase hread hparse hv houtcome =>
    obtain ⟨hspec, -⟩ := hs.read hphase hread
    rw [hparse] at hspec
    have hqueues := hspec.queues hv houtcome
    unfold Session.reply at hfits ⊢
    rw [if_pos hqueues.ok] at hfits ⊢
    have hfit := hfits _ (List.mem_append_right _ (List.mem_singleton.mpr rfl))
    obtain ⟨m, hshows, hkeeps⟩ := hs.shows hphase hread hparse hv houtcome (s.afterRead c).received hfit
    obtain ⟨head, body, hsending⟩ := hqueues.sending hfit
    exact ⟨ms ++ [m], h.answered hphase hshows rfl rfl rfl
      (fun hl => hkeeps (hqueues.linger.symm.trans hl)) hsending hsending.offered.symm⟩
  | @blocked results c out hphase hwrite =>
    obtain ⟨hkept, head, body, hsending, hne, hall⟩ := h.writing hphase
    have hspec := write_spec results hsending
    have hproper := write_proper results hsending hne
    rw [hwrite] at hspec hproper
    cases hspec with
    | blocked _ _ head' body' hlinger _ hsending' hleft =>
      have hwire : s.wire ++ out ++ (head' ++ body') = ms.flatMap Message.encode := by
        rw [List.append_assoc, hleft, hall]
      have hne' : head' ++ body' ≠ [] := by
        intro hnil
        apply hproper.blocked rfl
        rw [hsending'.bytesToSend, hnil]
        rfl
      refine ⟨ms, h.sent rfl rfl ⟨_, hwire⟩ (fun hreading => ?_) fun _ =>
        ⟨fun hl => hkept (hlinger.symm.trans hl), head', body', hsending', hne', hwire⟩⟩
      exact absurd (hphase.symm.trans hreading) nofun
  | @finished results c out hphase hwrite =>
    obtain ⟨hkept, head, body, hsending, hne, hall⟩ := h.writing hphase
    have hspec := write_spec results hsending
    have hproper := write_proper results hsending hne
    rw [hwrite] at hspec hproper
    cases hspec with
    | finished => exact ⟨ms, h.sent rfl rfl ⟨[], by rw [hall, List.append_nil]⟩
        (fun _ => ⟨hall, hkept (hproper.finished rfl)⟩) nofun⟩
  | @ended results c out e hphase hwrite hend =>
    obtain ⟨-, head, body, hsending, -, hall⟩ := h.writing hphase
    have hspec := write_spec results hsending
    rw [hwrite] at hspec
    have hout : out <+: head ++ body := by
      cases hspec with
      | blocked => exact absurd hend (by simp)
      | finished => exact absurd hend (by simp)
      | closing => exact List.prefix_rfl
      | failed _ _ hout => exact hout
    have hwithin : s.wire ++ out <+: ms.flatMap Message.encode := by
      rw [← hall]
      exact (List.prefix_append_right_inj _).mpr hout
    exact ⟨ms, h.sent rfl rfl hwithin nofun nofun⟩

theorem Step.answers_mono {s s' : Session} {i : Input} (hstep : Step lib verify s i s')
    (hopen : s.phase ≠ .closed) : s.answers <+: s'.answers := by
  cases hstep with
  | accept peer hphase => exact absurd hphase hopen
  | answer =>
    unfold Session.reply
    dsimp only
    split_ifs
    · exact List.prefix_append _ _
    · exact List.prefix_rfl
  | _ => exact List.prefix_rfl

def Converses (lib : JsonLib) (verify : Bytes → Option ℤ) (s : Session) : Prop :=
  (∀ a ∈ s.answers, (a.response.length : ℤ) ≤ intMax) → ∃ ms, Conversing lib verify ms s

theorem Converses.step {s s' : Session} {i : Input} (hs : s.Readable) (h : s.Converses lib verify)
    (hstep : Step lib verify s i s') : s'.Converses lib verify := by
  intro hfits
  by_cases hopen : s.phase = .closed
  · cases hstep with
    | accept peer => exact ⟨[], .accepted lib verify peer⟩
    | hangup hphase => rcases hphase with hphase | hphase <;> exact absurd (hopen.symm.trans hphase) nofun
    | readFails hphase | rejected hphase | fault hphase | wait hphase | answer hphase | blocked hphase
    | finished hphase | ended hphase => exact absurd (hopen.symm.trans hphase) nofun
  · have hmono := hstep.answers_mono hopen
    obtain ⟨ms, hms⟩ := h fun a ha => hfits a (hmono.subset ha)
    exact hms.step hs hstep hfits

theorem converses_of_reaches {peer : Peer} {s : Session}
    (hrun : Reaches (Step lib verify) (accepted peer) s) : s.Converses lib verify := by
  have hkept : s.Readable ∧ s.Converses lib verify := by
    refine Reaches.invariant (I := fun s => s.Readable ∧ s.Converses lib verify) hrun ?_ ?_
    · intro s i s' hs hstep
      exact ⟨hs.1.step hstep, hs.2.step hs.1 hstep⟩
    · exact ⟨.accepted peer, fun _ => ⟨[], .accepted lib verify peer⟩⟩
  exact hkept.2

/-- What a client makes of the bytes of a session. -/
structure Understood (lib : JsonLib) (verify : Bytes → Option ℤ) (s : Session)
    (read pending : List Message) (tail : Bytes) : Prop where
  wire : Message.readAll s.wire = (read, tail)
  shown : List.Forall₂ (Shows lib verify) s.answers (read ++ pending)
  kept : ∀ m ∈ (read ++ pending).dropLast, m.KeepsAlive
  underway : pending.length ≤ 1
  begun : ∀ m ∈ pending, tail <+: m.encode
  reading : s.phase = .reading → pending = [] ∧ tail = [] ∧ ∀ m ∈ read, m.KeepsAlive

theorem Conversing.understood {ms : List Message} {s : Session} (h : Conversing lib verify ms s) :
    ∃ read pending tail, Understood lib verify s read pending tail := by
  obtain ⟨read, pending, tail, rfl, hwire, hread, hlast, hnext⟩ :=
    Message.inverts.take_stream ms (Shows.all_wellFormed h.shown) h.within le_rfl
  have hpending : pending.length ≤ 1 := by
    have hle := Decoder.length_le_of_whole rfl hwire hnext (List.dropLast_prefix _) h.begun
    rw [List.length_dropLast, List.length_append] at hle
    omega
  refine ⟨read, pending, tail, hread, h.shown, h.kept, hpending, ?_, ?_⟩
  · intro m hm
    cases pending with
    | nil => cases hm
    | cons m' rest =>
      obtain rfl : rest = [] := by
        apply List.eq_nil_of_length_eq_zero
        rw [List.length_cons] at hpending
        omega
      rw [List.mem_singleton.mp hm]
      exact (hnext m' rfl).1
  · intro hphase
    obtain ⟨hall, hkept⟩ := h.reading hphase
    have hle := Decoder.length_le_of_whole rfl hwire hnext List.prefix_rfl (hall ▸ List.prefix_rfl)
    rw [List.length_append] at hle
    obtain rfl : pending = [] := List.eq_nil_of_length_eq_zero (by omega)
    exact ⟨rfl, hlast rfl, fun m hm => hkept m (List.mem_append_left _ hm)⟩

/-- **A client understands the server.** Whatever arrives on a connection, in whatever pieces, and
however the socket takes the responses, the bytes on the wire are the answers in their order,
each whole, then at most one that is still under way. Every answer but the last announces that
the connection stays open. -/
theorem wire_understood {peer : Peer} {s : Session}
    (hrun : Reaches (Step lib verify) (accepted peer) s)
    (hfits : ∀ a ∈ s.answers, (a.response.length : ℤ) ≤ intMax) :
    ∃ read pending tail, Understood lib verify s read pending tail := by
  obtain ⟨ms, hms⟩ := converses_of_reaches hrun hfits
  exact hms.understood

theorem health_understood : ∃ read pending tail,
    Understood statusLib (fun _ => none) healthServed read pending tail := by
  obtain ⟨hread, hwrite⟩ := health_steps fun _ => none
  have hrun : Reaches (Step statusLib fun _ => none) (Session.accepted ⟨5, []⟩) healthServed :=
    (Runs.refl.snoc hread trivial).snoc hwrite trivial
  exact wire_understood hrun (by decide +kernel)

end Session
end Http
end ResourceServer

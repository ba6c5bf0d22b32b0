import ResourceServer.Http.Peers
import ResourceServer.Http.Stream

/-!
# A connection forgets its past

What `init()` leaves depends on the peer alone, and every response that `write()` finishes
ends in `init()`. So a session that starts a request goes on as a fresh one would, however
many requests, partial writes and owners its slot has seen.
-/

namespace ResourceServer
namespace Http

variable {lib : JsonLib} {verify : Bytes → Option ℤ}

theorem Outcome.unique {v : Verdict} {calls calls' r r' : List (Event services)}
    {result result' : HttpCode × Bytes} (h : Outcome lib verify v calls result)
    (h' : Outcome lib verify v calls' result') (hsame : Prog.Consistent (calls ++ r) (calls' ++ r')) :
    calls = calls' ∧ result = result' := by
  cases h with
  | code code =>
    cases h'
    exact ⟨rfl, rfl⟩
  | handler request hexec =>
    cases h' with
    | handler _ hexec' =>
      obtain ⟨rfl, rfl⟩ := hexec.unique hexec' hsame
      exact ⟨rfl, rfl⟩

/-- The arrival of an input, and whether the worker queue has room for it. -/
def Input.arrival : Input → Option (Arrival × Bool)
  | .readable a queued => some (a, queued)
  | .accept _ | .hangup | .writable _ => none

def Input.Continues (i : Input) : Prop := ∀ peer, i ≠ .accept peer

namespace Session

/-- A session about to read the first byte of a request: just accepted, or behind a
response that `write()` finished. -/
inductive Initialised (lib : JsonLib) (verify : Bytes → Option ℤ) : Session → Prop where
  | accepted (peer : Peer) : Initialised lib verify (accepted peer)
  | finished {peer : Peer} {s s' : Session} {results : List WritevResult}
      (hrun : Reaches (Step lib verify) (accepted peer) s)
      (hstep : Step lib verify s (.writable results) s') (hphase : s'.phase = .reading) :
      Initialised lib verify s'

/-- `t` holds what `s` holds, on the socket `p`. -/
structure Alike (p : Peer) (s t : Session) : Prop where
  conn : t.conn = s.conn.withPeer p
  phase : t.phase = s.phase
  received : t.received = s.received

/-- `t` has gone on from `t₀` as `s` has from `s₀`. -/
structure Follows (s₀ t₀ s t : Session) : Prop where
  alike : ∃ p, Alike p s t
  answers : ∃ new, s.answers = s₀.answers ++ new ∧ t.answers = t₀.answers ++ new
  wire : ∃ out, s.wire = s₀.wire ++ out ∧ t.wire = t₀.wire ++ out

theorem Follows.refl {p : Peer} {s t : Session} (h : Alike p s t) : Follows s t s t where
  alike := ⟨p, h⟩
  answers := ⟨[], by simp⟩
  wire := ⟨[], by simp⟩

theorem Initialised.spec {s : Session} (h : Initialised lib verify s) :
    s.conn = .accepted s.conn.toPeer ∧ s.phase = .reading ∧ s.received = [] ∧ s.Readable := by
  cases h with
  | accepted peer => exact ⟨rfl, rfl, rfl, .accepted peer⟩
  | finished hrun hstep hphase =>
    have hreadable := (readable_of_reaches hrun).step hstep
    cases hstep with
    | blocked hwriting hwrite => exact absurd (hwriting.symm.trans hphase) nofun
    | finished hwriting hwrite =>
      have hinit := write_finished hwrite
      subst hinit
      exact ⟨rfl, rfl, rfl, hreadable⟩
    | ended hwriting hwrite hend => exact absurd hphase nofun

theorem Initialised.alike {s t : Session} (hs : Initialised lib verify s)
    (ht : Initialised lib verify t) : Alike t.conn.toPeer s t := by
  obtain ⟨hconn, hphase, hreceived, -⟩ := hs.spec
  obtain ⟨hconn', hphase', hreceived', -⟩ := ht.spec
  refine ⟨?_, hphase'.trans hphase.symm, hreceived'.trans hreceived.symm⟩
  rw [hconn, hconn']
  rfl

section Alike

variable {p : Peer} {s t s₀ t₀ : Session} (h : Alike p s t)

include h

theorem Alike.read {a : Arrival} {c : Conn} {ok : Bool} (hread : s.conn.read a = (c, ok)) :
    t.conn.read a = (c.withPeer p, ok) := by
  rw [h.conn, Conn.read_withPeer, hread]
  rfl

theorem Alike.afterRead (c : Conn) : Alike p (s.afterRead c) (t.afterRead (c.withPeer p)) where
  conn := rfl
  phase := h.phase
  received := by
    have hgained : t.gained (c.withPeer p) = s.gained c := by
      rw [gained, gained, h.conn]
      rfl
    rw [Session.afterRead, Session.afterRead, h.received, hgained]

theorem Alike.write {results : List WritevResult} {c : Conn} {out : Bytes} {e : WriteEnd}
    (hwrite : s.conn.write results = (c, out, e)) :
    t.conn.write results = (c.withPeer p, out, e) := by
  rw [h.conn, Conn.write_withPeer, hwrite]
  rfl

theorem Alike.close : Alike ⟨-1, p.address⟩ s.close t.close where
  conn := by
    rw [Session.close, Session.close, h.conn]
    rfl
  phase := rfl
  received := h.received

theorem Alike.parse {a : Arrival} {c : Conn} (hread : s.conn.read a = (c, true))
    {r : Except Fault (Conn × Verdict)} (hparse : processRead c = r) :
    t.conn.read a = (c.withPeer p, true) ∧ processRead (c.withPeer p) = atPeer p r := by
  rw [Conn.processRead_withPeer, hparse]
  exact ⟨h.read hread, rfl⟩

/-- `process_write` answers both alike. -/
theorem Alike.reply (c : Conn) (v : Verdict) (calls : List (Event services)) (code : HttpCode)
    (json : Bytes) : ∃ p' new, Alike p' (s.reply c v calls code json)
        (t.reply (c.withPeer p) v calls code json) ∧
      (s.reply c v calls code json).answers = s.answers ++ new ∧
      (t.reply (c.withPeer p) v calls code json).answers = t.answers ++ new ∧
      (s.reply c v calls code json).wire = s.wire ∧
      (t.reply (c.withPeer p) v calls code json).wire = t.wire := by
  have hwrite : ({ c.withPeer p with jsonRes := json } : Conn).processWrite code =
      onPeer p (Conn.processWrite { c with jsonRes := json } code) :=
    Conn.processWrite_withPeer { c with jsonRes := json } p code
  unfold Session.reply
  rw [hwrite]
  dsimp only [onPeer]
  split_ifs
  · refine ⟨p, _, ⟨rfl, rfl, h.received⟩, rfl, ?_, rfl, rfl⟩
    rw [h.received]
    rfl
  · exact ⟨⟨-1, p.address⟩, [], ⟨rfl, rfl, h.received⟩, (List.append_nil _).symm,
      (List.append_nil _).symm, rfl, rfl⟩

end Alike

theorem Follows.step {s₀ t₀ s s' t : Session} {i : Input} (h : Follows s₀ t₀ s t)
    (hstep : Step lib verify s i s') (hi : i.Continues) :
    ∃ t', Step lib verify t i t' ∧ Follows s₀ t₀ s' t' := by
  obtain ⟨⟨p, halike⟩, hanswers, hwire⟩ := h
  have hphase {phase : Phase} (hs : s.phase = phase) : t.phase = phase := halike.phase.trans hs
  cases hstep with
  | accept peer => exact absurd rfl (hi peer)
  | hangup hwaits =>
    exact ⟨_, .hangup t (hwaits.imp hphase hphase), ⟨_, halike.close⟩, hanswers, hwire⟩
  | readFails hreading hread =>
    exact ⟨_, .readFails (hphase hreading) (halike.read hread),
      ⟨_, (halike.afterRead _).close⟩, hanswers, hwire⟩
  | rejected hreading hread =>
    exact ⟨_, .rejected (hphase hreading) (halike.read hread),
      ⟨p, rfl, rfl, (halike.afterRead _).received⟩, hanswers, hwire⟩
  | fault hreading hread hparse =>
    obtain ⟨hread', hparse'⟩ := halike.parse hread hparse
    exact ⟨_, .fault (hphase hreading) hread' hparse',
      ⟨p, rfl, rfl, (halike.afterRead _).received⟩, hanswers, hwire⟩
  | wait hreading hread hparse =>
    obtain ⟨hread', hparse'⟩ := halike.parse hread hparse
    exact ⟨_, .wait (hphase hreading) hread' hparse',
      ⟨p, rfl, halike.phase, (halike.afterRead _).received⟩, hanswers, hwire⟩
  | @answer a c c' v calls result hreading hread hparse hverdict houtcome =>
    obtain ⟨hread', hparse'⟩ := halike.parse hread hparse
    obtain ⟨p', more, hreply, hs, ht, hsw, htw⟩ :=
      (halike.afterRead c).reply c' v calls result.1 result.2
    obtain ⟨new, hsnew, htnew⟩ := hanswers
    refine ⟨_, .answer (hphase hreading) hread' hparse' hverdict houtcome,
      ⟨p', hreply⟩, ⟨new ++ more, ?_, ?_⟩, ?_⟩
    · rw [hs, ← List.append_assoc, ← hsnew]
      rfl
    · rw [ht, ← List.append_assoc, ← htnew]
      rfl
    · rw [hsw, htw]
      exact hwire
  | @blocked results c out hwriting hwrite =>
    obtain ⟨old, hs, ht⟩ := hwire
    exact ⟨_, .blocked (hphase hwriting) (halike.write hwrite),
      ⟨p, rfl, halike.phase, halike.received⟩, hanswers, old ++ out, by simp [hs], by simp [ht]⟩
  | @finished results c out hwriting hwrite =>
    obtain ⟨old, hs, ht⟩ := hwire
    exact ⟨_, .finished (hphase hwriting) (halike.write hwrite),
      ⟨p, rfl, rfl, rfl⟩, hanswers, old ++ out, by simp [hs], by simp [ht]⟩
  | @ended results c out e hwriting hwrite hend =>
    obtain ⟨old, hs, ht⟩ := hwire
    exact ⟨_, .ended (hphase hwriting) (halike.write hwrite) hend,
      ⟨⟨-1, p.address⟩, rfl, rfl, halike.received⟩, hanswers, old ++ out,
      by simp [hs, Session.close], by simp [ht, Session.close]⟩

def calls (answers : List Answer) : List (Event services) := answers.flatMap (·.calls)

/-- The request that a readable event completes, with the connection before and after
`process_read`. -/
def completes (s : Session) (a : Arrival) (queued : Bool) : Option (Conn × Conn × Verdict) :=
  match s.conn.read a, queued with
  | (c, true), true =>
    match processRead c with
    | .error _ => none
    | .ok (c', v) => if v = .code .noRequest then none else some (c, c', v)
  | _, _ => none

/-- The session behind a readable event that completes no request. -/
def incomplete (s : Session) (a : Arrival) (queued : Bool) : Session :=
  match s.conn.read a, queued with
  | (c, false), _ => (s.afterRead c).close
  | (c, true), false => { s.afterRead c with phase := .stalled }
  | (c, true), true =>
    match processRead c with
    | .error f => { s.afterRead c with phase := .faulted f }
    | .ok (c', _) => { s.afterRead c with conn := c' }

theorem Step.readable_cases {s s' : Session} {a : Arrival} {queued : Bool}
    (hstep : Step lib verify s (.readable a queued) s') :
    (s.completes a queued = none ∧ s' = s.incomplete a queued) ∨
      ∃ c c' v calls result, s.completes a queued = some (c, c', v) ∧
        s.conn.read a = (c, true) ∧ processRead c = .ok (c', v) ∧ v ≠ .code .noRequest ∧
        Outcome lib verify v calls result ∧
        s' = (s.afterRead c).reply c' v calls result.1 result.2 := by
  cases hstep with
  | readFails hphase hread => exact Or.inl (by simp [completes, incomplete, hread])
  | rejected hphase hread => exact Or.inl (by simp [completes, incomplete, hread])
  | fault hphase hread hparse => exact Or.inl (by simp [completes, incomplete, hread, hparse])
  | wait hphase hread hparse => exact Or.inl (by simp [completes, incomplete, hread, hparse])
  | answer hphase hread hparse hverdict houtcome =>
    exact Or.inr ⟨_, _, _, _, _, by simp [completes, hread, hparse, hverdict], hread, hparse,
      hverdict, houtcome, rfl⟩

theorem incomplete_answers (s : Session) (a : Arrival) (queued : Bool) :
    (s.incomplete a queued).answers = s.answers := by
  unfold incomplete
  rcases s.conn.read a with ⟨c, ok⟩
  cases ok
  · rfl
  · cases queued
    · rfl
    · dsimp only
      cases processRead c <;> rfl

theorem reply_answers {s : Session} (hs : s.Readable) (hphase : s.phase = .reading) {a : Arrival}
    {c c' : Conn} {v : Verdict} {events : List (Event services)} {result : HttpCode × Bytes}
    (hread : s.conn.read a = (c, true)) (hparse : processRead c = .ok (c', v))
    (hv : v ≠ .code .noRequest) (houtcome : Outcome lib verify v events result) :
    ∃ answer : Answer, answer.calls = events ∧
      ((s.afterRead c).reply c' v events result.1 result.2).answers = s.answers ++ [answer] := by
  obtain ⟨hspec, -⟩ := hs.read hphase hread
  rw [hparse] at hspec
  have hqueues := hspec.queues hv houtcome
  rw [Session.reply, if_pos hqueues.ok]
  exact ⟨_, rfl, rfl⟩

theorem Step.unique {s s' s'' : Session} {a : Arrival} {queued : Bool} (hs : s.Readable)
    (hphase : s.phase = .reading) (h : Step lib verify s (.readable a queued) s')
    (h' : Step lib verify s (.readable a queued) s'') :
    ∃ new new', s'.answers = s.answers ++ new ∧ s''.answers = s.answers ++ new' ∧
      ∀ r r', Prog.Consistent (calls new ++ r) (calls new' ++ r') → s' = s'' := by
  rcases h.readable_cases with ⟨hnone, rfl⟩ |
    ⟨c, c', v, events, result, hsome, hread, hparse, hv, houtcome, rfl⟩
  · rcases h'.readable_cases with ⟨-, rfl⟩ | ⟨c, c', v, events, result, hsome, -⟩
    · exact ⟨[], [], by simp [incomplete_answers], by simp [incomplete_answers], fun _ _ _ => rfl⟩
    · rw [hnone] at hsome
      cases hsome
  · rcases h'.readable_cases with ⟨hnone, -⟩ |
      ⟨d, d', w, events', result', hsome', -, -, -, houtcome', rfl⟩
    · rw [hnone] at hsome
      cases hsome
    · rw [hsome] at hsome'
      cases hsome'
      obtain ⟨answer, hcalls, hanswers⟩ := reply_answers hs hphase hread hparse hv houtcome
      obtain ⟨answer', hcalls', hanswers'⟩ := reply_answers hs hphase hread hparse hv houtcome'
      refine ⟨[answer], [answer'], hanswers, hanswers', fun r r' hsame => ?_⟩
      simp only [calls, List.flatMap_singleton, hcalls, hcalls'] at hsame
      obtain ⟨rfl, rfl⟩ := houtcome.unique houtcome' hsame
      rfl

/-- Waiting for input or for room to send. -/
def Live (s : Session) : Prop := s.phase = .reading ∨ s.phase = .writing

/-- The session with its response out. -/
def resumed (s : Session) : Session :=
  if s.phase = .writing then { s with conn := s.conn.init, phase := .reading, received := [] } else s

def Twin (s t : Session) : Prop := ∃ p, Alike p s t

theorem Twin.refl (s : Session) : Twin s s := ⟨s.conn.toPeer, rfl, rfl, rfl⟩

theorem Twin.symm {s t : Session} (h : Twin s t) : Twin t s := by
  obtain ⟨p, h⟩ := h
  refine ⟨s.conn.toPeer, ?_, h.phase.symm, h.received.symm⟩
  rw [h.conn]
  rfl

theorem Twin.trans {s t u : Session} (h : Twin s t) (h' : Twin t u) : Twin s u := by
  obtain ⟨p, h⟩ := h
  obtain ⟨q, h'⟩ := h'
  refine ⟨q, ?_, h'.phase.trans h.phase, h'.received.trans h.received⟩
  rw [h'.conn, h.conn]
  rfl

theorem Twin.resumed {s t : Session} (h : Twin s t) : Twin s.resumed t.resumed := by
  obtain ⟨p, h⟩ := h
  refine ⟨p, ?_⟩
  rw [Session.resumed, Session.resumed, h.phase]
  split_ifs
  · refine ⟨?_, rfl, rfl⟩
    rw [h.conn]
    rfl
  · exact h

/-- What a session does while no byte arrives. -/
structure Quiet (s s' : Session) : Prop where
  answers : s'.answers = s.answers
  resumed : s'.Live → s.Live ∧ Twin s.resumed s'.resumed

theorem Quiet.refl (s : Session) : Quiet s s := ⟨rfl, fun h => ⟨h, .refl s.resumed⟩⟩

theorem Quiet.trans {s s' s'' : Session} (h : Quiet s s') (h' : Quiet s' s'') : Quiet s s'' where
  answers := h'.answers.trans h.answers
  resumed hlive := by
    obtain ⟨hlive', htwin'⟩ := h'.resumed hlive
    obtain ⟨hlive, htwin⟩ := h.resumed hlive'
    exact ⟨hlive, htwin.trans htwin'⟩

theorem Step.quiet {s s' : Session} {i : Input} (hstep : Step lib verify s i s')
    (hi : i.Continues) (harrival : i.arrival = none) : Quiet s s' := by
  cases hstep with
  | accept peer => exact absurd rfl (hi _)
  | readFails | rejected | fault | wait | answer => cases harrival
  | hangup => exact ⟨rfl, fun h => by rcases h with h | h <;> cases h⟩
  | ended => exact ⟨rfl, fun h => by rcases h with h | h <;> cases h⟩
  | blocked hphase hwrite =>
    refine ⟨rfl, fun _ => ⟨Or.inr hphase, ?_⟩⟩
    rw [Session.resumed, Session.resumed, if_pos hphase, if_pos hphase]
    exact ⟨_, rfl, rfl, rfl⟩
  | finished hphase hwrite =>
    refine ⟨rfl, fun _ => ⟨Or.inr hphase, ?_⟩⟩
    rw [Session.resumed, Session.resumed, if_pos hphase, if_neg nofun, write_finished hwrite]
    exact ⟨_, rfl, rfl, rfl⟩

/-- A run up to its first arrival, or to its end. -/
theorem quiet_path {s s' : Session} {inputs : List Input} (hpath : Path (Step lib verify) s inputs s')
    (hinputs : ∀ i ∈ inputs, i.Continues) (hs : s.Readable) :
    match inputs.filterMap Input.arrival with
    | [] => Quiet s s'
    | x :: xs => ∃ m m' rest, Quiet s m ∧ m.Readable ∧ Step lib verify m (.readable x.1 x.2) m' ∧
        Path (Step lib verify) m' rest s' ∧ (∀ i ∈ rest, i.Continues) ∧
        rest.filterMap Input.arrival = xs := by
  induction hpath with
  | nil s => exact .refl s
  | @cons s s₁ s' i inputs hstep hpath ih =>
    have hi := hinputs i List.mem_cons_self
    have hrest : ∀ j ∈ inputs, j.Continues := fun j hj => hinputs j (List.mem_cons_of_mem _ hj)
    cases harrival : i.arrival with
    | some x =>
      cases i with
      | accept | hangup | writable => cases harrival
      | readable a queued =>
        cases harrival
        exact ⟨s, s₁, inputs, .refl s, hs, hstep, hpath, hrest, rfl⟩
    | none =>
      have hquiet := hstep.quiet hi harrival
      have hlater := ih hrest (hs.step hstep)
      rw [List.filterMap_cons_none harrival]
      cases hxs : inputs.filterMap Input.arrival with
      | nil =>
        rw [hxs] at hlater
        exact hquiet.trans hlater
      | cons x xs =>
        rw [hxs] at hlater
        obtain ⟨m, m', rest, hm, hlater⟩ := hlater
        exact ⟨m, m', rest, hquiet.trans hm, hlater⟩

theorem Alike.path {p : Peer} {s t s' : Session} (h : Alike p s t) {inputs : List Input}
    (hpath : Path (Step lib verify) s inputs s') (hinputs : ∀ i ∈ inputs, i.Continues) :
    ∃ t', Path (Step lib verify) t inputs t' ∧ Follows s t s' t' :=
  hpath.simulate (fun _ _ _ _ hi hfollows hstep => hfollows.step hstep hi) hinputs (.refl h)

theorem path_answers {s s' : Session} {inputs : List Input}
    (hpath : Path (Step lib verify) s inputs s') (hinputs : ∀ i ∈ inputs, i.Continues) :
    ∃ new, s'.answers = s.answers ++ new := by
  obtain ⟨p, h⟩ := Twin.refl s
  obtain ⟨t', -, hfollows⟩ := h.path hpath hinputs
  obtain ⟨new, hnew, -⟩ := hfollows.answers
  exact ⟨new, hnew⟩

/-- Two sessions that will parse their next request alike. -/
structure Meets (s t : Session) : Prop where
  left : s.Readable
  right : t.Readable
  twin : s.Live → t.Live → Twin s.resumed t.resumed

theorem Step.phase_reading {s s' : Session} {a : Arrival} {queued : Bool}
    (hstep : Step lib verify s (.readable a queued) s') : s.phase = .reading := by
  cases hstep <;> assumption

theorem resumed_reading {s : Session} (hphase : s.phase = .reading) : s.resumed = s := by
  rw [resumed, hphase, if_neg nofun]

theorem Meets.answers_eq {s t s' t' : Session} {inputs inputs' : List Input} {new new' : List Answer}
    (h : Meets s t) (hpath : Path (Step lib verify) s inputs s')
    (hpath' : Path (Step lib verify) t inputs' t') (hinputs : ∀ i ∈ inputs, i.Continues)
    (hinputs' : ∀ i ∈ inputs', i.Continues)
    (harrivals : inputs.filterMap Input.arrival = inputs'.filterMap Input.arrival)
    (hnew : s'.answers = s.answers ++ new) (hnew' : t'.answers = t.answers ++ new')
    (hsame : Prog.Consistent (calls new) (calls new')) : new = new' := by
  induction hxs : inputs.filterMap Input.arrival
    generalizing s t inputs inputs' new new' with
  | nil =>
    have hs := quiet_path hpath hinputs h.left
    have ht := quiet_path hpath' hinputs' h.right
    rw [hxs] at hs
    rw [← harrivals, hxs] at ht
    have hnil : new = [] := by simpa [hs.answers] using hnew
    have hnil' : new' = [] := by simpa [ht.answers] using hnew'
    rw [hnil, hnil']
  | cons x xs ih =>
    have hs := quiet_path hpath hinputs h.left
    have ht := quiet_path hpath' hinputs' h.right
    rw [hxs] at hs
    rw [← harrivals, hxs] at ht
    obtain ⟨m, m', rest, hm, hmread, hmstep, hmpath, hmrest, hmxs⟩ := hs
    obtain ⟨n, n', rest', hn, hnread, hnstep, hnpath, hnrest, hnxs⟩ := ht
    have hmphase := hmstep.phase_reading
    have hnphase := hnstep.phase_reading
    -- both stand before the same request
    obtain ⟨hslive, hsm⟩ := hm.resumed (Or.inl hmphase)
    obtain ⟨htlive, htn⟩ := hn.resumed (Or.inl hnphase)
    have htwin : Twin m.resumed n.resumed := (hsm.symm.trans (h.twin hslive htlive)).trans htn
    rw [resumed_reading hmphase, resumed_reading hnphase] at htwin
    obtain ⟨p, halike⟩ := htwin
    obtain ⟨n'', hnstep', hfollows⟩ := (Follows.refl halike).step hmstep nofun
    obtain ⟨first, hfirst, hfirst''⟩ := hfollows.answers
    obtain ⟨copy, first', hcopy, hfirst', hunique⟩ := hnstep'.unique hnread hnphase hnstep
    obtain rfl : copy = first := List.append_cancel_left (hcopy.symm.trans hfirst'')
    obtain ⟨later, hlater⟩ := path_answers hmpath hmrest
    obtain ⟨later', hlater'⟩ := path_answers hnpath hnrest
    obtain rfl : new = copy ++ later := by
      rw [hlater, hfirst, hm.answers, List.append_assoc] at hnew
      exact (List.append_cancel_left hnew).symm
    obtain rfl : new' = first' ++ later' := by
      rw [hlater', hfirst', hn.answers, List.append_assoc] at hnew'
      exact (List.append_cancel_left hnew').symm
    simp only [calls, List.flatMap_append] at hsame
    obtain rfl := hunique _ _ hsame
    obtain rfl : copy = first' := List.append_cancel_left (hcopy.symm.trans hfirst')
    have hmeets : Meets m' n'' :=
      ⟨hmread.step hmstep, hnread.step hnstep, fun _ _ => Twin.resumed hfollows.alike⟩
    rw [ih hmeets hmpath hnpath hmrest hnrest (hmxs.trans hnxs.symm) hlater hlater'
      hsame.of_append hmxs]

/-- A session that starts a request holds nothing of its past but the peer. On the same
inputs it goes through the same as any other such session, a fresh one included: the same
verdicts, service calls, codes, responses and bytes sent. And however the later responses
are taken by the sockets, the answers to the same arrivals are the same as long as the
services return the same. -/
theorem forgets_past {s t : Session} (hs : Initialised lib verify s)
    (ht : Initialised lib verify t) :
    t.conn = s.conn.withPeer t.conn.toPeer ∧
      (∀ inputs s', (∀ i ∈ inputs, i.Continues) → Path (Step lib verify) s inputs s' →
        ∃ t', Path (Step lib verify) t inputs t' ∧ Follows s t s' t') ∧
      ∀ inputs inputs' s' t' new new', (∀ i ∈ inputs, i.Continues) → (∀ i ∈ inputs', i.Continues) →
        inputs.filterMap Input.arrival = inputs'.filterMap Input.arrival →
        Path (Step lib verify) s inputs s' → Path (Step lib verify) t inputs' t' →
        s'.answers = s.answers ++ new → t'.answers = t.answers ++ new' →
        Prog.Consistent (calls new) (calls new') → new = new' := by
  have halike := hs.alike ht
  have hmeets : Meets s t := by
    obtain ⟨-, hphase, -, hread⟩ := hs.spec
    obtain ⟨-, hphase', -, hread'⟩ := ht.spec
    exact ⟨hread, hread', fun _ _ => Twin.resumed ⟨_, halike⟩⟩
  refine ⟨halike.conn, ?_, ?_⟩
  · intro inputs s' hinputs hpath
    exact halike.path hpath hinputs
  · intro inputs inputs' s' t' new new' hinputs hinputs' harrivals hpath hpath' hnew hnew' hsame
    exact hmeets.answers_eq hpath hpath' hinputs hinputs' harrivals hnew hnew' hsame

theorem health_forgotten : Conn.accepted ⟨7, []⟩ = healthServed.conn.withPeer ⟨7, []⟩ ∧
    ∀ inputs s', (∀ i ∈ inputs, i.Continues) →
      Path (Step statusLib fun _ => none) healthServed inputs s' →
      ∃ t', Path (Step statusLib fun _ => none) (accepted ⟨7, []⟩) inputs t' ∧
        Follows healthServed (accepted ⟨7, []⟩) s' t' := by
  obtain ⟨hread, hwrite⟩ := health_steps fun _ => none
  obtain ⟨hconn, hruns, -⟩ := forgets_past (.finished (Runs.snoc .refl hread trivial) hwrite rfl)
    (.accepted ⟨7, []⟩)
  exact ⟨hconn, hruns⟩

end Session
end Http
end ResourceServer

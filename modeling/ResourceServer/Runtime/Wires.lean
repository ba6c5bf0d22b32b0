import ResourceServer.Http.Conversation
import ResourceServer.Runtime.Backend

/-!
# What the clients of the whole server read

Every `users` entry has at all times the answers and the wire of a session of its own, wherever
the event loop and the workers stand. So each client understands what it is sent, however the
connections, the handlers and their actions on the stores interleave.
-/

namespace ResourceServer
namespace Runtime

open CString Http Service

namespace Server

variable {κ : Type} {lib : JsonLib} {verify : Bytes → Option ℤ} {maxFd maxRequests : ℕ}

/-- `x` has the answers and the wire of a session. -/
def Told (lib : JsonLib) (verify : Bytes → Option ℤ) (x : Session) : Prop :=
  ∃ y, Settled lib verify y ∧ x.answers = y.answers ∧ x.wire = y.wire

theorem Told.of_settled {x : Session} (h : Settled lib verify x) : Told lib verify x := ⟨x, h, rfl, rfl⟩

theorem Told.same {x x' : Session} (h : Told lib verify x) (hanswers : x'.answers = x.answers)
    (hwire : x'.wire = x.wire) : Told lib verify x' := by
  obtain ⟨y, hy, hsame, hsame'⟩ := h
  exact ⟨y, hy, hanswers.trans hsame, hwire.trans hsame'⟩

theorem Told.of_eq {x x' : Session} (h : Settled lib verify x) (hanswers : x'.answers = x.answers)
    (hwire : x'.wire = x.wire) : Told lib verify x' := (Told.of_settled h).same hanswers hwire

variable {s s' : Server κ}

/-- One entry changes. -/
theorem told_update (h : ∀ fd, Told lib verify (s.users fd)) {fd : ℕ} {x : Session} (hx : Told lib verify x) :
    ∀ g, Told lib verify (Function.update s.users fd x g) :=
  (Function.forall_update_iff s.users fun _ x => Told lib verify x).mpr ⟨hx, fun g _ => h g⟩

theorem told_closeConn (h : ∀ fd, Told lib verify (s.users fd)) (fd : ℕ) :
    ∀ g, Told lib verify ((s.closeConn fd).users g) := by
  unfold closeConn
  split_ifs
  · exact told_update h ((h fd).same rfl rfl)
  · exact h

variable [Fintype κ] [DecidableEq κ]

omit [Fintype κ] in
theorem told_step (hslots : s.Slots lib verify) (h : ∀ fd, Told lib verify (s.users fd)) {agent : Agent κ}
    (hstep : Step lib verify maxFd maxRequests s agent s') : ∀ fd, Told lib verify (s'.users fd) := by
  cases hstep with
  | wait | back | acceptFails | turnAway | accept | hangup | readable | writable | append | refuse | release
  | run | take | fault | rearm | done | elsewhere => exact h
  | @init fd address => exact told_update h (.of_settled ⟨⟨fd, address⟩, .refl⟩)
  | @read fd | @readFails fd => exact told_update h ((h fd).same rfl rfl)
  | @blocked fd events results c out hloop hwrite =>
    obtain ⟨hx, hphase⟩ := hslots.writing hloop
    exact told_update h (.of_settled (settled_step hx (.blocked hphase hwrite)))
  | @finished fd events results c out hloop hwrite =>
    obtain ⟨hx, hphase⟩ := hslots.writing hloop
    exact told_update h (.of_settled (settled_step hx (.finished hphase hwrite)))
  | @writeEnds fd events results c out hloop hwrite =>
    obtain ⟨hx, hphase⟩ := hslots.writing hloop
    exact told_update h (.of_eq (settled_step hx (.ended hphase hwrite (Or.inl rfl))) rfl rfl)
  | @writeFails fd events results c out hloop hwrite =>
    obtain ⟨hx, hphase⟩ := hslots.writing hloop
    exact told_update h (.of_eq (settled_step hx (.ended hphase hwrite (Or.inr rfl))) rfl rfl)
  | @close fd | @workerCloses k fd => exact told_closeConn h fd
  | @incomplete k fd | @unanswered k fd => exact told_update h ((h fd).same rfl rfl)
  | @answer k fd c' v calls result hk hstage hparse hverdict houtcome hwrite =>
    obtain ⟨-, x₀, a, c, hx₀, hphase, hread, hx⟩ := hslots.working hstage (by simp) hk
    rw [hx] at hparse ⊢
    exact told_update h (.of_settled (settled_step hx₀ (.answer hphase hread hparse hverdict houtcome)))

theorem told_of_reaches {others : Finset ℕ}
    (hrun : Reaches (Step lib verify maxFd maxRequests) (Server.start others) s) :
    ∀ fd, Told lib verify (s.users fd) := by
  have hkept : (s.Accounted ∧ s.Slots lib verify) ∧ ∀ fd, Told lib verify (s.users fd) := by
    refine Reaches.invariant (I := fun s : Server κ =>
      (s.Accounted ∧ s.Slots lib verify) ∧ ∀ fd, Told lib verify (s.users fd)) hrun ?_ ?_
    · rintro s agent s' ⟨⟨hs, hslots⟩, h⟩ hstep
      exact ⟨⟨hs.step hstep, hslots.step hs hstep⟩, told_step hslots h hstep⟩
    · have hstart : Reaches (Step lib verify maxFd maxRequests) (Server.start others : Server κ)
        (.start others) := .refl
      refine ⟨slots_of_reaches hstart, fun fd => ?_⟩
      exact .of_eq (x := Session.accepted ⟨-1, []⟩) ⟨_, .refl⟩ rfl rfl
  exact hkept.2

end Server

namespace Backend

variable {κ : Type} [DecidableEq κ] [Fintype κ] {P : Platform} {checks : Bytes → Option ℤ → Prop}
  {verify : Bytes → Option ℤ} {faults : Faults} {order : RowOrder} {maxFd maxRequests : ℕ} {s : Backend κ}

/-- **Every client understands what it is sent.** In every run of the backend, whatever is on the wire
of a connection are its answers in their order, each whole, then at most one that is under way, and
each is an answer to its own request. -/
theorem wires_understood (hchecks : ∀ token user, checks token user → user = verify token)
    {others : Finset ℕ} {w : World}
    (hrun : Reaches (Step P checks faults order maxFd maxRequests) (start others w) s) (fd : ℕ)
    (hfits : ∀ a ∈ (s.server.users fd).answers, (a.response.length : ℤ) ≤ intMax) :
    ∃ x read pending tail, (s.server.users fd).answers = x.answers ∧ (s.server.users fd).wire = x.wire ∧
      Session.Understood P.json verify x read pending tail := by
  obtain ⟨-, -, hserver⟩ := follows_of_reaches hchecks hrun
  obtain ⟨x, ⟨peer, hsession⟩, hanswers, hwire⟩ := Server.told_of_reaches hserver fd
  obtain ⟨ms, hms⟩ := Session.converses_of_reaches hsession (hanswers ▸ hfits)
  obtain ⟨read, pending, tail, hunderstood⟩ := hms.understood
  exact ⟨x, read, pending, tail, hanswers, hwire, hunderstood⟩

theorem listed_understood : ∃ s : Backend Unit, (s.server.users 5).answers.length = 1 ∧
    ∃ x read pending tail, (s.server.users 5).answers = x.answers ∧ (s.server.users 5).wire = x.wire ∧
      Session.Understood listing.json (fun token => if token = ascii "t" then some 7 else none) x read
        pending tail := by
  obtain ⟨s, hrun, -, hanswers, hfits⟩ := exists_listed (C := fun _ _ => True) (fun _ _ => trivial)
    (fun _ => trivial) (fun _ _ => trivial) fun _ => trivial
  exact ⟨s, hanswers, wires_understood (fun _ _ h => h) hrun 5 hfits⟩

end Backend
end Runtime
end ResourceServer

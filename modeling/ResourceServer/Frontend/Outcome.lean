import ResourceServer.Frontend.Contract
import ResourceServer.Runtime.Reports

/-!
# What the client learns from its calls

A promise that resolves stands for the statement that its caller meant, done once for the user of
the token; an `ApiError` with a status stands for none. So a user who is shown an error may try
again, and one who is not need not.
-/

namespace ResourceServer
namespace Frontend

open CString Http Service ResourceServer.Runtime

/-- What `axios` makes of a reply: it resolves for the statuses 2xx and rejects for all others. -/
structure Receives (axios : AxiosRequestConfig → AxiosOutcome) (parse : Bytes → Json)
    (a : AxiosRequestConfig) (reply : Reply) : Prop where
  resolves : 200 ≤ reply.status → reply.status < 300 → axios a = .resolved (parse reply.body)
  rejects : ¬ (200 ≤ reply.status ∧ reply.status < 300) →
    axios a = .rejected reply.status (parse reply.body)

/-- What the caller has learnt from the outcome of a call, of what a handler has done for it. -/
structure Learns (lib : JsonLib) (checks : Bytes → Option ℤ → Prop) (parse : Bytes → Json)
    (token : Option Bytes) (call : ApiCall) (outcome : Except ApiError (Option Json))
    (done : List (Entry services actions)) : Prop where
  resolved : ∀ value, outcome = .ok value → ∃ u,
    (call.handler.changesRows = true → checks ((call.sentToken token).getD []) (some u)) ∧
    changes (done.flatMap Entry.inner) = (call.intent u).statement.toList
  rejected : ∀ e, outcome = .error e → changes (done.flatMap Entry.inner) = []
  answered : ∀ q j, ⟨.ask q, j⟩ ∈ done.map Entry.event → ∃ u, q = call.intent u ∧
    (q.actingUser = some u → checks ((call.sentToken token).getD []) (some u)) ∧
    ∀ text, lib.dump j = some text → text ≠ [] → parse text = j →
      (j.error? = none → outcome = .ok (call.select j)) ∧
      ∀ m, j.error? = some (.str m) → outcome = .error ⟨m, 400⟩

theorem statuses {code : HttpCode} {json : Bytes} {reply : Reply} (h : Reply.of code json = some reply) :
    reply.status = 200 ∨ 300 ≤ reply.status := by
  cases code with
  | noRequest | closedConnection => cases h
  | badRequest =>
    simp only [Reply.of] at h
    split_ifs at h
    all_goals
      cases h
      exact Or.inr (Nat.le_of_ble_eq_true rfl)
  | internalError | noResource | forbiddenRequest =>
    cases h
    exact Or.inr (by decide)
  | getResource | addResource | updateResource | deleteResource =>
    cases h
    exact Or.inl rfl

namespace Receives

variable {axios : AxiosRequestConfig → AxiosOutcome} {parse : Bytes → Json} {token : Option Bytes}
  {call : ApiCall} {reply : Reply}

theorem result_ok (h : Receives axios parse (call.config token) reply) (hstatus : reply.status = 200) :
    call.result axios token = .ok (call.select (parse reply.body)) := by
  have haxios := h.resolves (by omega) (by omega)
  rw [ApiCall.config] at haxios
  rw [ApiCall.result, apiFetch, haxios]
  rfl

theorem result_error (h : Receives axios parse (call.config token) reply) (hstatus : 300 ≤ reply.status) :
    call.result axios token =
      .error ⟨responseMessage reply.status (parse reply.body), reply.status⟩ := by
  have haxios := h.rejects (by omega)
  rw [ApiCall.config] at haxios
  rw [ApiCall.result, apiFetch, haxios]
  rfl

end Receives

theorem ApiCall.statement_intent {call : ApiCall} (hchanges : call.handler.changesRows = false) (u : ℤ) :
    (call.intent u).statement = none := by
  cases call with
  | createTextResource | createFileResource | updateTextResource | deleteResource => cases hchanges
  | _ => rfl

theorem ApiCall.handler_ne_logout (call : ApiCall) : call.handler ≠ .logout := by
  cases call <;> rintro ⟨⟩

section Settled

variable {lib : JsonLib} {axios : AxiosRequestConfig → AxiosOutcome} {parse : Bytes → Json}
  {token : Option Bytes} {call : ApiCall} {reply : Reply}

theorem result_answer (h : Receives axios parse (call.config token) reply) {k : Handler} {j : Json}
    (hreply : Reply.of (caught (answer lib k.success j)).1 (caught (answer lib k.success j)).2 = some reply)
    {text : Bytes} (htext : lib.dump j = some text) (hne : text ≠ []) (hparse : parse text = j) :
    (j.error? = none → call.result axios token = .ok (call.select j)) ∧
      ∀ m, j.error? = some (.str m) → call.result axios token = .error ⟨m, 400⟩ := by
  rw [answer, htext, Option.bind_some] at hreply
  constructor
  · intro herror
    rw [herror] at hreply
    have hok : Reply.of k.success text = some reply := hreply
    have hbody : reply.body = text := by
      cases k <;> cases hok <;> rfl
    rw [h.result_ok ((Reply.status_iff hok).mpr k.success_succeeds), hbody, hparse]
  · intro m herror
    rw [errorMessage, herror] at hreply
    have hbad : Reply.of .badRequest text = some reply := hreply
    rw [Reply.of, if_pos hne] at hbad
    cases hbad
    rw [h.result_error (Nat.le_of_ble_eq_true rfl), hparse, responseMessage, herror]

end Settled

variable {κ : Type} [DecidableEq κ] [Fintype κ] {P : Platform} {checks : Bytes → Option ℤ → Prop}
  {faults : Faults} {order : RowOrder} {maxFd maxRequests : ℕ}

omit [DecidableEq κ] [Fintype κ] in
theorem asked_intent {call : ApiCall} {token : Option Bytes} (hid : call.IdFits)
    (hparse : ∀ p, call.payload = some p → P.json.parse (stringify p) = .ok p.json)
    {done : List (Entry services actions)} {result : HandlerResult}
    (hkeeps : (Task.between done (Prog.ret result)).Keeps (serviceLayer P checks)
      (Backend.terms P (call.request token))) {q : ServiceQuery} {j : Json}
    (hasked : ⟨.ask q, j⟩ ∈ done.map Entry.event) :
    result = answer P.json call.handler.success j ∧ ∃ u, q = call.intent u ∧
      (q.actingUser = some u → checks ((call.sentToken token).getD []) (some u)) := by
  obtain ⟨hended, hconcludes, hposed⟩ := hkeeps
  generalize hpast : Task.past (Task.between done (Prog.ret result)) = past at hconcludes hposed
  have hevents : done.map Entry.event = past := hpast
  rw [hevents] at hasked
  cases hconcludes with
  | unasked hops hresult =>
    obtain ⟨token', hop⟩ := hops _ hasked
    cases hop
  | @asked user q' response huser hq hresult =>
    rcases List.mem_append.mp hasked with hcheck | hlast
    · obtain ⟨token', hop⟩ := checked_ops _ hcheck
      cases hop
    · cases List.mem_singleton.mp hlast
      refine ⟨hresult call.handler_ne_logout, ?_⟩
      have hmeant (u : ℤ) (hnamed : Named u (checked (call.request token) user)) : q = call.intent u := by
        have hquestion := hposed _ q j u rfl hnamed
        rw [(call.question_request hparse u).mpr hid] at hquestion
        exact (Option.some.inj hquestion).symm
      cases user with
      | none =>
        refine ⟨0, hmeant 0 nofun, fun hacting => ?_⟩
        cases huser 0 hacting
      | some u =>
        refine ⟨u, hmeant u fun e he => ⟨_, List.mem_singleton.mp he⟩, fun _ => ?_⟩
        obtain ⟨d, rest, rfl, hd, -⟩ := List.map_eq_cons_iff.mp hevents
        exact Backend.ends_checked (hended d List.mem_cons_self) hd

/-- **What the client learns is true.** In every run of the backend, once the handler of a call is
done and `axios` has its reply, a resolved promise stands for the statement that its caller meant,
an error for no change at all; and the value or the message is the one that the service gave. -/
theorem client_learns {others : Finset ℕ} {w : World} {s : Backend κ}
    (hdump : ∀ text ∈ statusTexts, (P.json.dump (.status text)).isSome = true)
    (hrun : Reaches (Backend.Step P checks faults order maxFd maxRequests) (Backend.start others w) s)
    {call : ApiCall} {token : Option Bytes} {fields : List (Bytes × Bytes)} {q : RequestText}
    (hcarries : Carries (call.config token) fields q) (hid : call.IdFits)
    (hparse : ∀ p, call.payload = some p → P.json.parse (stringify p) = .ok p.json)
    {c c₁ c' : Conn} {cut : Chunking q.bytes} (hfeed : c.init.feed cut.before = some c₁) {r : Request}
    (hround : c₁.round cut.last = some (.ok (c', .handler r))) {k : κ}
    {done : List (Entry services actions)} {result : HandlerResult}
    (hjob : s.jobs k = some ⟨c', r, .between done (.ret result)⟩) {reply : Reply}
    (hreply : Reply.of (caught result).1 (caught result).2 = some reply)
    {axios : AxiosRequestConfig → AxiosOutcome} {parse : Bytes → Json}
    (hreceives : Receives axios parse (call.config token) reply) :
    Learns P.json checks parse token call (call.result axios token) done := by
  obtain ⟨d, hcall⟩ := ApiCall.round hcarries hfeed
  rw [hround] at hcall
  cases hcall
  have hkeeps := (Backend.sound_of_reaches hrun).keeps k _ hjob
  have hhonest := Backend.keeps_honest hdump hkeeps hreply
  have hstatus : ∀ value, call.result axios token = .ok value → reply.status = 200 := by
    intro value hvalue
    refine (statuses hreply).resolve_right fun hfailed => ?_
    rw [hreceives.result_error hfailed] at hvalue
    cases hvalue
  constructor
  · intro value hvalue
    have h200 := hstatus value hvalue
    cases hchanges : call.handler.changesRows with
    | false =>
      refine ⟨0, nofun, ?_⟩
      rw [hhonest.undone (Or.inr hchanges), ApiCall.statement_intent hchanges]
      rfl
    | true =>
      obtain ⟨u, a, hchecks, hasked, hdone⟩ := hhonest.done h200 hchanges
      rw [Request.asked, (call.question_request hparse u).mpr hid, Option.bind_some] at hasked
      refine ⟨u, fun _ => hchecks, ?_⟩
      rw [hdone, hasked]
      rfl
  · intro e he
    refine hhonest.undone (Or.inl fun h200 => ?_)
    rw [hreceives.result_ok h200] at he
    cases he
  · intro q' j hasked
    obtain ⟨rfl, u, hmeant, hchecks⟩ := asked_intent hid hparse hkeeps hasked
    exact ⟨u, hmeant, hchecks, fun text htext hne hread => result_answer hreceives hreply htext hne hread⟩

/-- The client asks to delete resource 1. -/
def deletion : ApiCall := .deleteResource 1

def deletionFields : List (Bytes × Bytes) := [(ascii "Authorization", ascii "Bearer t")]

def deletionText : RequestText where
  requestLine := ascii "DELETE /api/resources?id=1 HTTP/1.1"
  headers := deletionFields.map fieldLine
  body := []
  plain := by decide +kernel
  headers_ne_nil := by decide +kernel

theorem deletionText_carries : Carries (deletion.config (some (ascii "t"))) deletionFields deletionText where
  requestLine := by decide +kernel
  headers := rfl
  clean := by decide +kernel
  authorization := by decide +kernel
  contentLength := nofun
  body := Or.inl ⟨rfl, rfl⟩
  size := by decide +kernel

theorem deletionText_round : (Conn.accepted ⟨5, []⟩).init.round deletionText.bytes =
    some (.ok (Session.parsed Backend.deleteConn, .handler Backend.deleteJob)) := by
  have hbytes : deletionText.bytes = Backend.deleteRequest := by decide +kernel
  obtain ⟨hread, hparse⟩ := Backend.deleteConn_spec
  rw [hbytes, Conn.round, show (Conn.accepted ⟨5, []⟩).init = .accepted ⟨5, []⟩ from rfl, hread]
  exact congrArg some hparse

/-- Reads one answer, and leaves any other text as it is. -/
def readDeleted (text : Bytes) : Json :=
  if text = ascii "\x7b\"status\":\"deleted\"\x7d" then .status (ascii "deleted") else .str text

/-- The client deletes the resource and learns of it. -/
theorem deletion_learns : ∃ (s : Backend Unit) (done : List (Entry services actions))
    (axios : AxiosRequestConfig → AxiosOutcome),
    Reaches (Backend.Step Backend.reporting Backend.isOne .never ⟨id, fun _ => .refl _⟩ 4096 10000)
      (Backend.start ∅ oneResource) s ∧ s.world.resources.rows = [] ∧
    Learns Backend.reporting.json Backend.isOne readDeleted (some (ascii "t")) deletion
      (deletion.result axios (some (ascii "t"))) done := by
  obtain ⟨s, done, result, reply, hrun, hjob, hreply, h200, hrows⟩ := Backend.exists_deleted
  have hreceives : Receives (fun _ => .resolved (readDeleted reply.body)) readDeleted
      (deletion.config (some (ascii "t"))) reply := by
    refine ⟨fun _ _ => rfl, fun h => absurd ?_ h⟩
    rw [h200]
    decide
  have hwhole : deletionText.bytes ≠ [] := by decide +kernel
  have hfeed : (Conn.accepted ⟨5, []⟩).init.feed (Chunking.whole hwhole).before =
      some (Conn.accepted ⟨5, []⟩).init := rfl
  exact ⟨s, done, _, hrun, hrows, client_learns Backend.reporting_dump hrun deletionText_carries
    ⟨by decide, by decide⟩ nofun hfeed deletionText_round hjob hreply hreceives⟩

end Frontend
end ResourceServer

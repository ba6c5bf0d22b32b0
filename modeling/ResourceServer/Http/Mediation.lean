import ResourceServer.Http.Session

/-!
# Complete mediation

Every service call that acts for a user comes from a request whose own bearer token was
verified to be that user's. The token of a request is read off its bytes here, line by
line and without the parser.
-/

namespace ResourceServer
namespace Http

open CString Service

/-- The token of a header line that carries one. -/
def bearer? (line : Bytes) : Option Bytes :=
  if strncasecmp line (ascii "Authorization:") 14 then
    let auth := skipBlanks (line.drop 14)
    if (ascii "Bearer ").isPrefixOf auth then some (auth.drop 7) else none
  else none

def textLines (bytes : Bytes) : List Bytes :=
  match hline : nextLine bytes with
  | none => []
  | some (line, rest) =>
    have : rest.length < bytes.length := nextLine_rest_lt hline
    cstr line :: textLines rest
termination_by bytes.length
decreasing_by exact this

/-- The header lines: behind the request line and in front of the first empty one. -/
def headerTexts (bytes : Bytes) : List Bytes := (textLines bytes).tail.takeWhile (· ≠ [])

/-- The last of the bearer tokens in `headers`, or `token` without one. -/
def lastBearer (token : Bytes) (headers : List Bytes) : Bytes :=
  headers.foldl (fun token line => (bearer? line).getD token) token

theorem lastBearer_cons (token line : Bytes) (headers : List Bytes) :
    lastBearer token (line :: headers) = lastBearer ((bearer? line).getD token) headers := rfl

def bearerToken (bytes : Bytes) : Bytes := lastBearer [] (headerTexts bytes)

theorem textLines_some {bytes line rest : Bytes} (hline : nextLine bytes = some (line, rest)) :
    textLines bytes = cstr line :: textLines rest := by
  rw [textLines]
  split
  · simp_all
  · rename_i line' rest' heq
    rw [hline] at heq
    cases heq
    rfl

/-- Strings that agree up to case on a prefix agree on its first byte. -/
theorem strncasecmp_head {s t : Bytes} {n : ℕ} (h : strncasecmp s t (n + 1) = true) :
    s.head?.map toLower = t.head?.map toLower := by
  have h : (s.take (n + 1)).map toLower = (t.take (n + 1)).map toLower := by
    simpa [strncasecmp, strcasecmp] using h
  cases s <;> cases t <;> simp_all

theorem headerLine_token (s : RequestState) (line : Bytes) :
    (s.headerLine line).token = (bearer? line).getD s.token := by
  have hdisjoint : strncasecmp line (ascii "Authorization:") 14 = true →
      strncasecmp line (ascii "Connection:") 11 = false ∧
        strncasecmp line (ascii "Content-Length:") 15 = false ∧
        strncasecmp line (ascii "Host:") 5 = false := by
    intro hauth
    have hhead := strncasecmp_head hauth
    refine ⟨?_, ?_, ?_⟩
    all_goals
      by_contra hother
      rw [Bool.not_eq_false] at hother
      have := strncasecmp_head hother
      rw [hhead] at this
      exact absurd this (by decide)
  unfold RequestState.headerLine bearer?
  by_cases hauth : strncasecmp line (ascii "Authorization:") 14 = true
  · obtain ⟨h1, h2, h3⟩ := hdisjoint hauth
    simp only [hauth, h1, h2, h3, if_true, Bool.false_eq_true, if_false]
    split_ifs <;> rfl
  · simp only [hauth, Bool.false_eq_true, if_false, Option.getD_none]
    split_ifs <;> rfl

namespace Head

theorem requestLine_token {h h' : Head} {line : Bytes} (hread : h.requestLine line = some h') :
    h'.state.token = h.state.token := by
  obtain ⟨method, apireq, hstate⟩ := requestLine_frame hread
  rw [hstate]

theorem read_token_of_header {h h' : Head} {pending rest : Bytes}
    (hstate : h.state.checkState = .header) (hread : h.read pending = .complete h' rest) :
    h'.state.token = lastBearer h.state.token ((textLines pending).takeWhile (· ≠ [])) := by
  fun_induction Head.read h pending with
  | case1 => cases hread
  | case2 => cases hread
  | case3 h pending line rest' hline hlen hcheck => simp [hstate] at hcheck
  | case4 h pending line rest' hline hlen hcheck hempty =>
    cases hread
    simp [textLines_some hline, hempty, lastBearer]
  | case5 h pending line rest' hline hlen hcheck hempty ih =>
    rw [ih (by rw [headerLine, RequestState.headerLine_checkState, hstate]) hread,
      textLines_some hline, List.takeWhile_cons_of_pos (by simpa using hempty), lastBearer_cons,
      ← headerLine_token]
    rfl

theorem read_token {bytes rest : Bytes} {h : Head}
    (hread : initial.read bytes = .complete h rest) : h.state.token = bearerToken bytes := by
  cases hline : nextLine bytes with
  | none => simp [read_none hline] at hread
  | some found =>
    obtain ⟨line, rest'⟩ := found
    rw [read_some hline, if_pos initial_checkState] at hread
    cases hreq : initial.requestLine (cstr line) with
    | none => simp [hreq] at hread
    | some h₁ =>
      rw [hreq] at hread
      have := read_token_of_header (requestLine_checkState hreq) hread
      rw [this, requestLine_token hreq, bearerToken, headerTexts, textLines_some hline]
      rfl

end Head

theorem dispatch_token {c c' : Conn} {d : Dispatch} {r : Request}
    (hresult : c.dispatch d = .ok (c', .handler r)) : r.token = c.token := by
  cases d with
  | run k =>
    cases hresult
    rfl
  | notFound => cases hresult
  | content =>
    rcases parseContent_cases hresult with ⟨-, -, hverdict⟩ | ⟨-, rfl, hverdict⟩
    · cases hverdict
    · obtain ⟨k, -, rfl⟩ := contentVerdict_eq_handler hverdict.symm
      rfl

theorem Refines.handler_token {n : ℕ} {bytes : Bytes} {c : Conn} {r : Request}
    (hspec : Refines n (.ok (c, .handler r)) (Head.initial.read bytes)) :
    r.token = bearerToken bytes := by
  cases hp : Head.initial.read bytes with
  | incomplete h pending =>
    rw [hp] at hspec
    obtain ⟨d, hd, -⟩ := hspec
    cases hd
  | rejected h rest =>
    rw [hp] at hspec
    obtain ⟨d, hd, -⟩ := hspec
    cases hd
  | complete h rest =>
    rw [hp] at hspec
    obtain ⟨d, pre, hr, -, hd⟩ := hspec
    rw [dispatch_token hd.symm, ← Head.read_token hp, ← hr.state]

def ServiceCall.actingUser : ServiceCall → Option ℤ
  | .getUserIdFromToken _ => none
  | .ask query => query.actingUser

def Handler.requiresToken : Handler → Bool
  | .register | .login | .health => false
  | _ => true

abbrev ActsOnlyFor (u : ℤ) (op : ServiceCall) : Prop := op.actingUser = some u ∨ op.actingUser = none

theorem withBody_calls {P : ServiceCall → Prop} (lib : JsonLib) (r : Request)
    {next : Json → HandlerProg} (hnext : ∀ j, (next j).Calls P) : (withBody lib r next).Calls P := by
  unfold withBody
  split
  · trivial
  · trivial
  · exact hnext _

theorem respond_calls {P : ServiceCall → Prop} (lib : JsonLib) (success : HttpCode)
    {query : ServiceQuery} (hquery : P (.ask query)) : (respond lib success query).Calls P :=
  ⟨hquery, fun _ => trivial⟩

theorem handle_guarded (lib : JsonLib) (r : Request) (hguard : r.handler.requiresToken = true) :
    ∃ next, handle lib r = withUser r next ∧ ∀ u, (next u).Calls (ActsOnlyFor u) := by
  unfold handle
  cases hk : r.handler with
  | register => simp [hk, Handler.requiresToken] at hguard
  | login => simp [hk, Handler.requiresToken] at hguard
  | health => simp [hk, Handler.requiresToken] at hguard
  | logout => exact ⟨_, rfl, fun u => ⟨Or.inr rfl, fun _ => trivial⟩⟩
  | getResources =>
    refine ⟨_, rfl, fun u => ?_⟩
    split
    · exact respond_calls _ _ (Or.inl rfl)
    · split
      · trivial
      · exact respond_calls _ _ (Or.inl rfl)
  | deleteResource =>
    refine ⟨_, rfl, fun u => ?_⟩
    split
    · trivial
    · exact respond_calls _ _ (Or.inl rfl)
  | createDownloadUrl =>
    refine ⟨_, rfl, fun u => ?_⟩
    split
    · trivial
    · exact respond_calls _ _ (Or.inl rfl)
  | postResource =>
    refine ⟨_, rfl, fun u => withBody_calls lib r fun j => ?_⟩
    split
    · trivial
    · split
      · trivial
      · split
        · trivial
        · exact respond_calls _ _ (Or.inl rfl)
  | putResource =>
    refine ⟨_, rfl, fun u => withBody_calls lib r fun j => ?_⟩
    split
    · trivial
    · split
      · exact respond_calls _ _ (Or.inl rfl)
      · trivial
  | createUploadUrl =>
    refine ⟨_, rfl, fun u => withBody_calls lib r fun j => ?_⟩
    split
    · exact respond_calls _ _ (Or.inl rfl)
    · trivial

theorem handle_unguarded (lib : JsonLib) (r : Request) (hguard : r.handler.requiresToken = false) :
    (handle lib r).Calls fun op : ServiceCall => op.actingUser = none := by
  unfold handle
  cases hk : r.handler with
  | register =>
    refine withBody_calls lib r fun j => ?_
    split
    · exact respond_calls _ _ rfl
    · trivial
  | login =>
    refine withBody_calls lib r fun j => ?_
    split
    · exact respond_calls _ _ rfl
    · trivial
  | health => trivial
  | logout | getResources | deleteResource | postResource | putResource | createUploadUrl
  | createDownloadUrl => simp [hk, Handler.requiresToken] at hguard

/-- Calls for a user come behind the check that named the user; a request that fails the
check makes no other call and is forbidden. -/
structure Mediated (verify : Bytes → Option ℤ) (token : Bytes) (v : Verdict)
    (calls : List (Event services)) (code : HttpCode) : Prop where
  acting : ∀ before e after u, calls = before ++ e :: after → e.op.actingUser = some u →
    verify token = some u ∧ (⟨.getUserIdFromToken token, some u⟩ : Event services) ∈ before
  refused : ∀ r, v = .handler r → r.handler.requiresToken = true → verify token = none →
    calls = [⟨.getUserIdFromToken token, none⟩] ∧ code = .forbiddenRequest

theorem exec_withUser {verify : Bytes → Option ℤ} {r : Request} {next : ℤ → HandlerProg}
    {calls : List (Event services)} {result : HandlerResult}
    (hexec : Prog.Exec (oracle verify) () (withUser r next) calls () result) :
    (verify r.token = none ∧ calls = [⟨.getUserIdFromToken r.token, none⟩] ∧
      result = some (.forbiddenRequest, errorText "unauthorized")) ∨
    ∃ u rest, verify r.token = some u ∧ calls = ⟨.getUserIdFromToken r.token, some u⟩ :: rest ∧
      Prog.Exec (oracle verify) () (next u) rest () result := by
  obtain ⟨user, ⟨⟩, rest, huser, rfl, hrest⟩ := Prog.exec_call_iff.mp hexec
  have huser : user = verify r.token := huser
  cases hu : verify r.token with
  | none =>
    rw [hu] at huser
    subst huser
    obtain ⟨rfl, -, rfl⟩ := Prog.exec_ret_iff.mp hrest
    exact Or.inl ⟨rfl, rfl, rfl⟩
  | some u =>
    rw [hu] at huser
    subst huser
    exact Or.inr ⟨u, rest, rfl, rfl, hrest⟩

theorem exec_ask {verify : Bytes → Option ℤ} {q : ServiceQuery} {f : Json → HandlerResult}
    {calls : List (Event services)} {result : HandlerResult} :
    Prog.Exec (oracle verify) () (.call (.ask q) fun response : Json => .ret (f response)) calls ()
        result ↔ ∃ response : Json, calls = [⟨.ask q, response⟩] ∧ result = f response := by
  constructor
  · intro hexec
    obtain ⟨response, ⟨⟩, rest, -, rfl, hrest⟩ := Prog.exec_call_iff.mp hexec
    obtain ⟨rfl, -, rfl⟩ := Prog.exec_ret_iff.mp hrest
    exact ⟨response, rfl, rfl⟩
  · rintro ⟨response, rfl, rfl⟩
    exact .call trivial (.ret () _)

theorem exec_respond {lib : JsonLib} {verify : Bytes → Option ℤ} {success : HttpCode} {q : ServiceQuery}
    {calls : List (Event services)} {result : HandlerResult} :
    Prog.Exec (oracle verify) () (respond lib success q) calls () result ↔
      ∃ response : Json, calls = [⟨.ask q, response⟩] ∧ result = answer lib success response :=
  exec_ask

theorem exec_withUser_iff {verify : Bytes → Option ℤ} {r : Request} {u : ℤ} (hu : verify r.token = some u)
    {next : ℤ → HandlerProg} {calls : List (Event services)} {result : HandlerResult} :
    Prog.Exec (oracle verify) () (withUser r next) calls () result ↔
      ∃ rest, calls = ⟨.getUserIdFromToken r.token, some u⟩ :: rest ∧
        Prog.Exec (oracle verify) () (next u) rest () result := by
  constructor
  · intro hexec
    rcases exec_withUser hexec with ⟨hnone, -⟩ | ⟨u', rest, hu', rfl, hrest⟩
    · rw [hu] at hnone
      cases hnone
    · rw [hu] at hu'
      cases hu'
      exact ⟨rest, rfl, hrest⟩
  · rintro ⟨rest, rfl, hrest⟩
    exact .call hu.symm hrest

theorem Outcome.mediated {lib : JsonLib} {verify : Bytes → Option ℤ} {token : Bytes} {v : Verdict}
    {calls : List (Event services)} {result : HttpCode × Bytes}
    (houtcome : Outcome lib verify v calls result)
    (htoken : ∀ r, v = .handler r → r.token = token) :
    Mediated verify token v calls result.1 := by
  cases houtcome with
  | code code => exact ⟨fun before e after u h => by simp at h, nofun⟩
  | handler r hexec =>
    cases htoken r rfl
    cases hguard : r.handler.requiresToken with
    | false =>
      refine ⟨fun before e after u hcalls hacting => ?_, fun r' hr' hguard' => ?_⟩
      · have hnone := hexec.events (handle_unguarded lib r hguard) e (by simp [hcalls])
        rw [hnone] at hacting
        cases hacting
      · cases hr'
        rw [hguard] at hguard'
        cases hguard'
    | true =>
      obtain ⟨next, hnext, honly⟩ := handle_guarded lib r hguard
      rw [hnext] at hexec
      rcases exec_withUser hexec with ⟨hverify, rfl, rfl⟩ | ⟨u, rest, hverify, rfl, hrest⟩
      · refine ⟨fun before e after u hcalls hacting => ?_, fun _ _ _ _ => ⟨rfl, rfl⟩⟩
        have he : e ∈ [⟨.getUserIdFromToken r.token, none⟩] := by simp [hcalls]
        rw [List.mem_singleton.mp he] at hacting
        cases hacting
      · refine ⟨fun before e after u' hcalls hacting => ?_, fun _ _ _ h => ?_⟩
        · cases before with
          | nil =>
            cases hcalls
            cases hacting
          | cons first before =>
            obtain ⟨rfl, hrest'⟩ := List.cons.inj hcalls
            have honly := hrest.events (honly u) e (by simp [hrest'])
            rw [ActsOnlyFor, hacting] at honly
            cases honly.resolve_right (by simp)
            exact ⟨hverify, List.mem_cons_self⟩
        · rw [hverify] at h
          cases h

/-- `read()` and `process()` on a readable session: the bytes of the request so far, the
verdict of `process_read`, the service calls, and the code with its `json_res`. -/
inductive Session.Processes (lib : JsonLib) (verify : Bytes → Option ℤ) (s : Session) :
    Bytes → Verdict → List (Event services) → HttpCode × Bytes → Prop where
  | mk {a : Arrival} {c c' : Conn} {v : Verdict} {calls : List (Event services)}
      {result : HttpCode × Bytes} (hphase : s.phase = .reading) (hread : s.conn.read a = (c, true))
      (hparse : processRead c = .ok (c', v)) (houtcome : Outcome lib verify v calls result) :
      Processes lib verify s (s.afterRead c).received v calls result

/-- **Complete mediation.** Whatever a session has been through, the calls it makes while
it processes a request are mediated by the bearer token of that request's bytes. -/
theorem Session.complete_mediation (lib : JsonLib) (verify : Bytes → Option ℤ) (peer : Peer)
    (s : Session) (hrun : Reaches (Step lib verify) (accepted peer) s) (bytes : Bytes) (v : Verdict)
    (calls : List (Event services)) (result : HttpCode × Bytes)
    (hprocess : s.Processes lib verify bytes v calls result) :
    Mediated verify (bearerToken bytes) v calls result.1 := by
  obtain ⟨hphase, hread, hparse, houtcome⟩ := hprocess
  refine houtcome.mediated fun r hr => ?_
  obtain ⟨hspec, -⟩ := (readable_of_reaches hrun).read hphase hread
  rw [hparse, hr] at hspec
  exact hspec.handler_token

/-- A request for the resources of whoever holds the token `t`. -/
def listRequest : Bytes :=
  ascii "GET /api/resources HTTP/1.1\r\nAuthorization: Bearer t\r\n\r\n"

/-- Writes an empty list answer, and nothing else. -/
def emptyListLib : JsonLib where
  dump
    | .obj [(key, .arr [])] =>
      if key = ascii "data" then some (ascii "\x7b\"data\":[]\x7d") else none
    | _ => none
  parse _ := .error .parseError

theorem listRequest_mediated :
    Mediated (fun token => if token = ascii "t" then some 7 else none) (bearerToken listRequest)
      (.handler ⟨.getResources, .get, ascii "/api/resources", ascii "t", []⟩)
      [⟨.getUserIdFromToken (ascii "t"), some (7 : ℤ)⟩,
        ⟨.ask (.getResources 7), Json.obj [(ascii "data", .arr [])]⟩]
      .getResource := by
  have hread : (Conn.accepted ⟨5, []⟩).read ⟨[listRequest], .again, .again⟩ =
      ((Conn.accepted ⟨5, []⟩).receive listRequest, true) := by decide +kernel
  obtain ⟨c', hparse⟩ : ∃ c', processRead ((Conn.accepted ⟨5, []⟩).receive listRequest) =
      .ok (c', .handler ⟨.getResources, .get, ascii "/api/resources", ascii "t", []⟩) :=
    processRead_of_verdict (by decide +kernel)
  exact Session.complete_mediation emptyListLib _ ⟨5, []⟩ _ .refl listRequest _ _
    (caught (some (.getResource, ascii "\x7b\"data\":[]\x7d")))
    (.mk rfl hread hparse (.handler _ (Prog.exec_call_iff.mpr ⟨_, (), _, rfl, rfl, .call trivial (.ret () _)⟩)))

end Http
end ResourceServer

import ResourceServer.Http.Framing
import ResourceServer.Http.Validation

/-!
# JSON errors on the wire

A handler that rejects a request chooses a code and sets `json_res` to an error object. Only
`BAD_REQUEST` makes `process_write` send that object; a request that is forbidden, or that
ends in an exception, is answered with a fixed text.
-/

namespace ResourceServer
namespace Http

open CString Service

/-- A rejection with an error in `json_res`. -/
def Rejects (result : HttpCode × Bytes) : Prop :=
  (result.1 = .badRequest ∨ result.1 = .forbiddenRequest ∨ result.1 = .internalError) ∧
    result.2 ≠ []

/-- `wire` is a response of class 4xx or 5xx that carries `json`. -/
def CarriesError (json wire : Bytes) : Prop :=
  ∃ (r : Reply) (announced : ℤ) (linger : Bool), r.Printable ∧ 400 ≤ r.status ∧ r.status < 600 ∧
    r.type = ascii "application/json" ∧ r.body = json ∧ wire = r.head announced linger ++ r.body

theorem not_carriesError {json wire : Bytes} (h : ¬ ascii "application/json" <:+: wire) :
    ¬ CarriesError json wire := by
  rintro ⟨r, announced, linger, -, -, -, htype, -, rfl⟩
  apply h
  refine ⟨r.statusLine ++ ascii "\r\n" ++ (Reply.contentLength announced ++ ascii "\r\n") ++
    ascii "Content-Type: ", ascii "\r\n" ++ (Reply.connection linger ++ ascii "\r\n") ++
    ascii "\r\n" ++ r.body, ?_⟩
  simp [Reply.head, Reply.lines, Reply.contentType, htype]

theorem carriesError_iff {c : Conn} (hbuf : c.writeBuf = []) {code : HttpCode}
    (hreject : Rejects (code, c.jsonRes)) :
    CarriesError c.jsonRes (c.processWrite code).1.offered ↔ code = .badRequest := by
  obtain ⟨hcode, hjson⟩ := hreject
  have htext : ∀ {status : ℕ} {title form : Bytes},
      Reply.of code c.jsonRes = some ⟨status, title, ascii "text", form⟩ →
      (∀ linger, ¬ ascii "application/json" <:+:
        (Reply.mk status title (ascii "text") form).head (toInt32 form.length) linger ++ form) →
      ¬ CarriesError c.jsonRes (c.processWrite code).1.offered := by
    intro status title form hr hnone
    rw [(processWrite_replies hbuf hr).offered]
    exact not_carriesError (hnone c.linger)
  rcases hcode with rfl | rfl | rfl
  · have hr : Reply.of .badRequest c.jsonRes =
        some ⟨400, ascii "Bad Request", ascii "application/json", c.jsonRes⟩ := by
      simp only [Reply.of]
      rw [if_pos hjson]
    have hreply := processWrite_replies hbuf hr
    exact iff_of_true ⟨_, _, _, Reply.printable_of hr, le_rfl, by norm_num, rfl, rfl,
      hreply.offered⟩ rfl
  · exact iff_of_false (htext rfl (by decide +kernel)) (by simp)
  · exact iff_of_false (htext rfl (by decide +kernel)) (by simp)

/-- A service answer that the handler can pass on: it can be written, and its error text,
which is a string for a logout, can be read. -/
def Passes (lib : JsonLib) (k : Handler) (response : Json) : Prop :=
  (lib.dump response).isSome ∧
    if k = .logout then ∀ e, response.error? = some e → e.asString?.isSome
    else (errorMessage lib response).isSome

/-- The request itself can only be a bad request: its token is valid, its body does not make
the JSON library throw anything but a `parse_error`, and the fields of a `PUT` do not throw. -/
@[mk_iff]
structure Undisturbed (lib : JsonLib) (verify : Bytes → Option ℤ) (r : Request) : Prop where
  token : r.handler.requiresToken = true → (verify r.token).isSome
  parse : r.handler.readsBody = true → lib.parse r.body ≠ .error .other
  fields : r.handler = .putResource → ∀ j, lib.parse r.body = .ok j →
    Handler.putResource.slips j = false
  health : r.handler = .health → (lib.dump (.status (ascii "ok"))).isSome

def AllPass (lib : JsonLib) (k : Handler) (calls : List (Event services)) : Prop :=
  ∀ query, ∀ response : Json, ⟨.ask query, response⟩ ∈ calls → Passes lib k response

variable {lib : JsonLib} {verify : Bytes → Option ℤ} {k : Handler} {r : Request}

theorem allPass_nil : AllPass lib k [] := nofun

theorem allPass_ask {query : ServiceQuery} {response : Json} :
    AllPass lib k [⟨.ask query, response⟩] ↔ Passes lib k response := by
  constructor
  · intro h
    exact h query response (List.mem_singleton.mpr rfl)
  · intro h q response' hmem
    cases List.mem_singleton.mp hmem
    exact h

theorem allPass_token {token : Bytes} {user : Option ℤ} {calls : List (Event services)} :
    AllPass lib k (⟨.getUserIdFromToken token, user⟩ :: calls) ↔ AllPass lib k calls := by
  constructor
  · intro h query response hmem
    exact h query response (List.mem_cons_of_mem _ hmem)
  · intro h query response hmem
    rcases List.mem_cons.mp hmem with heq | hmem
    · cases heq
    · exact h query response hmem

/-- A program whose rejections are bad requests exactly if the request is `fine` and the
answers of the services pass. -/
def Blames (lib : JsonLib) (verify : Bytes → Option ℤ) (k : Handler) (fine : Prop)
    (p : HandlerProg) : Prop :=
  ∀ calls result, Prog.Exec (oracle verify) () p calls () result → Rejects (caught result) →
    ((caught result).1 = .badRequest ↔ fine ∧ AllPass lib k calls)

def HttpCode.Succeeds (code : HttpCode) : Prop :=
  code ≠ .badRequest ∧ code ≠ .forbiddenRequest ∧ code ≠ .internalError

instance (code : HttpCode) : Decidable code.Succeeds :=
  inferInstanceAs (Decidable (code ≠ .badRequest ∧ code ≠ .forbiddenRequest ∧ code ≠ .internalError))

theorem HttpCode.Succeeds.not_rejects {code : HttpCode} (h : code.Succeeds) (json : Bytes) :
    ¬ Rejects (code, json) := by
  rintro ⟨hcode | hcode | hcode, -⟩
  · exact h.1 hcode
  · exact h.2.1 hcode
  · exact h.2.2 hcode

namespace Blames

theorem congr {fine fine' : Prop} {p : HandlerProg} (h : Blames lib verify k fine p)
    (hfine : fine ↔ fine') : Blames lib verify k fine' p := by
  rwa [← propext hfine]

theorem refuse (json : Bytes) : Blames lib verify k True (refuse .badRequest json) := by
  intro calls result hexec hreject
  obtain ⟨rfl, -, rfl⟩ := Prog.exec_ret_iff.mp hexec
  exact iff_of_true rfl ⟨trivial, allPass_nil⟩

theorem throws : Blames lib verify k False (.ret none) := by
  intro calls result hexec hreject
  obtain ⟨rfl, -, rfl⟩ := Prog.exec_ret_iff.mp hexec
  exact iff_of_false nofun (fun h => h.1)

theorem respond (hk : k ≠ .logout) {success : HttpCode} (hsuccess : success.Succeeds)
    (query : ServiceQuery) : Blames lib verify k True (respond lib success query) := by
  intro calls result hexec hreject
  obtain ⟨response, rfl, rfl⟩ := exec_respond.mp hexec
  rw [allPass_ask, Passes, if_neg hk]
  unfold answer at hreject ⊢
  cases hdump : lib.dump response with
  | none => exact iff_of_false nofun (by simp)
  | some text =>
    rw [hdump, Option.bind_some] at hreject
    rw [Option.bind_some]
    split_ifs at hreject ⊢ with herror
    · cases hmessage : errorMessage lib response with
      | none => exact iff_of_false nofun (by simp)
      | some message => exact iff_of_true rfl (by simp)
    · exact absurd hreject (hsuccess.not_rejects text)

theorem withBody {fields : Json → Prop} {next : Json → HandlerProg}
    (hnext : ∀ j, Blames lib verify k (fields j) (next j)) :
    Blames lib verify k (lib.parse r.body ≠ .error .other ∧
      ∀ j, lib.parse r.body = .ok j → fields j) (withBody lib r next) := by
  cases hparse : lib.parse r.body with
  | error failure =>
    cases failure with
    | parseError =>
      rw [withBody_parseError hparse]
      exact (refuse _).congr (iff_of_true trivial ⟨nofun, nofun⟩)
    | other =>
      rw [withBody_other hparse]
      intro calls result hexec hreject
      obtain ⟨rfl, -, rfl⟩ := Prog.exec_ret_iff.mp hexec
      exact iff_of_false nofun (fun h => h.1.1 rfl)
  | ok j =>
    rw [withBody_ok hparse]
    apply (hnext j).congr
    constructor
    · intro h
      refine ⟨nofun, fun j' hj => ?_⟩
      cases hj
      exact h
    · intro h
      exact h.2 j rfl

theorem withUser {fine : Prop} {next : ℤ → HandlerProg}
    (hnext : ∀ u, Blames lib verify k fine (next u)) :
    Blames lib verify k ((verify r.token).isSome ∧ fine) (withUser r next) := by
  intro calls result hexec hreject
  rcases exec_withUser hexec with ⟨hnone, rfl, rfl⟩ | ⟨u, rest, hu, rfl, hrest⟩
  · exact iff_of_false nofun (by simp [hnone])
  · rw [hnext u rest result hrest hreject, allPass_token, hu, and_assoc]
    exact (and_iff_right rfl).symm

end Blames

/-- The error text of a logout is used as a string. -/
theorem logout_blames : Blames lib verify .logout ((verify r.token).isSome ∧ True)
    (handleLogout lib r) := by
  refine .withUser fun u calls result hexec hreject => ?_
  obtain ⟨response, rfl, rfl⟩ := exec_ask.mp hexec
  rw [allPass_ask, Passes, if_pos rfl]
  cases hdump : lib.dump response with
  | none => exact iff_of_false nofun (by simp)
  | some text =>
    rw [hdump] at hreject
    cases herror : response.error? with
    | none =>
      rw [herror] at hreject
      have hsuccess : HttpCode.Succeeds .deleteResource := ⟨nofun, nofun, nofun⟩
      exact absurd hreject (hsuccess.not_rejects text)
    | some e =>
      cases e with
      | str message => exact iff_of_true rfl (by simp [Json.asString?])
      | null | bool _ | int _ | float _ | arr _ | obj _ =>
        exact iff_of_false nofun (by simp [Json.asString?])

theorem health_blames : Blames lib verify .health (lib.dump (.status (ascii "ok"))).isSome
    (handleHealth lib) := by
  intro calls result hexec hreject
  obtain ⟨rfl, -, rfl⟩ := Prog.exec_ret_iff.mp hexec
  cases hdump : lib.dump (.status (ascii "ok")) with
  | none => exact iff_of_false nofun (by simp)
  | some text =>
    rw [hdump] at hreject
    have hsuccess : HttpCode.Succeeds .getResource := ⟨nofun, nofun, nofun⟩
    exact absurd hreject (hsuccess.not_rejects text)

theorem putResource_slips (j : Json) :
    Handler.putResource.slips j = (((j.get? (ascii "id")).bind Json.asInt?).isSome &&
      !((optionalField j "title" Json.asString? []).isSome &&
        (optionalField j "content" Json.asString? []).isSome)) := by
  rw [Handler.slips, putResource_expects, ← integerField_isSome]
  cases ((j.get? (ascii "id")).bind Json.asInt?).isSome <;> rfl

/-- A body that slips through the checks of a `PUT` throws. -/
theorem put_blames : Blames lib verify .putResource ((verify r.token).isSome ∧
    (lib.parse r.body ≠ .error .other ∧ ∀ j, lib.parse r.body = .ok j →
      Handler.putResource.slips j = false)) (handlePutResource lib r) := by
  refine .withUser fun u => .withBody fun j => ?_
  rw [putResource_slips]
  cases hid : (j.get? (ascii "id")).bind Json.asInt? with
  | none => exact (Blames.refuse _).congr (by simp)
  | some id =>
    cases htitle : optionalField j "title" Json.asString? [] with
    | none => exact Blames.throws.congr (by simp)
    | some title =>
      cases hcontent : optionalField j "content" Json.asString? [] with
      | none => exact Blames.throws.congr (by simp)
      | some content => exact (Blames.respond (by decide) (by decide) _).congr (by simp)

theorem handle_blames (lib : JsonLib) (verify : Bytes → Option ℤ) (r : Request) :
    Blames lib verify r.handler (Undisturbed lib verify r) (handle lib r) := by
  unfold handle
  cases hk : r.handler with
  | health =>
    apply health_blames.congr
    simp [undisturbed_iff, hk, Handler.requiresToken, Handler.readsBody]
  | logout =>
    apply logout_blames.congr
    simp [undisturbed_iff, hk, Handler.requiresToken, Handler.readsBody]
  | putResource =>
    apply put_blames.congr
    simp [undisturbed_iff, hk, Handler.requiresToken, Handler.readsBody]
  | register | login =>
    refine (@Blames.withBody lib verify _ r (fun _ => True) _ fun j => ?_).congr ?_
    · split
      · exact .respond (by decide) (by decide) _
      · exact .refuse _
    · simp [undisturbed_iff, hk, Handler.requiresToken, Handler.readsBody]
  | getResources =>
    refine (@Blames.withUser lib verify _ r True _ fun u => ?_).congr ?_
    · split
      · exact .respond (by decide) (by decide) _
      · split
        · exact .refuse _
        · exact .respond (by decide) (by decide) _
    · simp [undisturbed_iff, hk, Handler.requiresToken, Handler.readsBody]
  | deleteResource | createDownloadUrl =>
    refine (@Blames.withUser lib verify _ r True _ fun u => ?_).congr ?_
    · split
      · exact .refuse _
      · exact .respond (by decide) (by decide) _
    · simp [undisturbed_iff, hk, Handler.requiresToken, Handler.readsBody]
  | postResource =>
    refine (Blames.withUser fun u => @Blames.withBody lib verify _ r (fun _ => True) _ fun j => ?_).congr ?_
    · split
      · exact .refuse _
      · split
        · exact .refuse _
        · split
          · exact .refuse _
          · exact .respond (by decide) (by decide) _
    · simp [undisturbed_iff, hk, Handler.requiresToken, Handler.readsBody]
  | createUploadUrl =>
    refine (Blames.withUser fun u => @Blames.withBody lib verify _ r (fun _ => True) _ fun j => ?_).congr ?_
    · split
      · exact .respond (by decide) (by decide) _
      · exact .refuse _
    · simp [undisturbed_iff, hk, Handler.requiresToken, Handler.readsBody]

/-- A rejected request reaches the client as its JSON error exactly if its token is valid,
its body and the fields of a `PUT` do not throw, and the services' answers pass. -/
theorem rejection_carried_iff (lib : JsonLib) (verify : Bytes → Option ℤ) (peer : Peer)
    (s : Session) (hrun : Reaches (Session.Step lib verify) (Session.accepted peer) s)
    (hphase : s.phase = .reading) (a : Arrival) (c c' : Conn) (r : Request)
    (hread : s.conn.read a = (c, true)) (hparse : processRead c = .ok (c', .handler r))
    (calls : List (Event services)) (result : HttpCode × Bytes)
    (houtcome : Outcome lib verify (.handler r) calls result) (hreject : Rejects result) :
    CarriesError result.2 (Conn.processWrite { c' with jsonRes := result.2 } result.1).1.offered ↔
      Undisturbed lib verify r ∧ ∀ query, ∀ response : Json,
        ⟨.ask query, response⟩ ∈ calls → Passes lib r.handler response := by
  have hbuf := (Session.readable_of_reaches hrun).writeBuf_nil hphase hread hparse nofun
  rw [carriesError_iff (c := { c' with jsonRes := result.2 }) hbuf hreject]
  cases houtcome with
  | handler r hexec => exact handle_blames lib verify r calls _ hexec hreject

/-- A request of the holder of the token `t` for a resource that is no number. -/
def badIdRequest : Bytes :=
  ascii "GET /api/resources?id=x HTTP/1.1\r\nAuthorization: Bearer t\r\n\r\n"

theorem badIdRequest_carried :
    ∃ c', processRead ((Conn.accepted ⟨5, []⟩).receive badIdRequest) =
        .ok (c', .handler ⟨.getResources, .get, ascii "/api/resources?id=x", ascii "t", []⟩) ∧
      CarriesError (errorText "invalid parameter") (Conn.processWrite
        { c' with jsonRes := errorText "invalid parameter" } .badRequest).1.offered := by
  have hread : (Conn.accepted ⟨5, []⟩).read ⟨[badIdRequest], .again, .again⟩ =
      ((Conn.accepted ⟨5, []⟩).receive badIdRequest, true) := by decide +kernel
  obtain ⟨c', hparse⟩ : ∃ c', processRead ((Conn.accepted ⟨5, []⟩).receive badIdRequest) =
      .ok (c', .handler ⟨.getResources, .get, ascii "/api/resources?id=x", ascii "t", []⟩) :=
    processRead_of_verdict (by decide +kernel)
  have hrun : Outcome emptyListLib (fun _ => some 7)
      (.handler ⟨.getResources, .get, ascii "/api/resources?id=x", ascii "t", []⟩)
      [⟨.getUserIdFromToken (ascii "t"), some (7 : ℤ)⟩]
      (caught (some (.badRequest, errorText "invalid parameter"))) :=
    .handler _ (.call rfl (.ret () _))
  refine ⟨c', hparse, (rejection_carried_iff emptyListLib (fun _ => some 7) ⟨5, []⟩ _ .refl rfl _ _ _
    _ hread hparse _ _ hrun ⟨Or.inl rfl, by decide +kernel⟩).mpr ⟨⟨fun _ => rfl, nofun, nofun, nofun⟩, ?_⟩⟩
  intro query response hmem
  cases List.mem_singleton.mp hmem

/-- A request for the list without a token. -/
def noTokenRequest : Bytes := ascii "GET /api/resources HTTP/1.1\r\n\r\n"

/-- A client without a token gets a text where its error should be. -/
theorem unauthorized_text :
    ∃ c' calls result, processRead ((Conn.accepted ⟨5, []⟩).receive noTokenRequest) =
        .ok (c', .handler ⟨.getResources, .get, ascii "/api/resources", [], []⟩) ∧
      Outcome emptyListLib (fun _ => none)
        (.handler ⟨.getResources, .get, ascii "/api/resources", [], []⟩) calls result ∧
      Rejects result ∧ result.2 = errorText "unauthorized" ∧ ¬ CarriesError result.2
        (Conn.processWrite { c' with jsonRes := result.2 } result.1).1.offered := by
  have hread : (Conn.accepted ⟨5, []⟩).read ⟨[noTokenRequest], .again, .again⟩ =
      ((Conn.accepted ⟨5, []⟩).receive noTokenRequest, true) := by decide +kernel
  obtain ⟨c', hparse⟩ : ∃ c', processRead ((Conn.accepted ⟨5, []⟩).receive noTokenRequest) =
      .ok (c', .handler ⟨.getResources, .get, ascii "/api/resources", [], []⟩) :=
    processRead_of_verdict (by decide +kernel)
  have hrun : Outcome emptyListLib (fun _ => none)
      (.handler ⟨.getResources, .get, ascii "/api/resources", [], []⟩)
      [⟨.getUserIdFromToken [], (none : Option ℤ)⟩]
      (caught (some (.forbiddenRequest, errorText "unauthorized"))) :=
    .handler _ (.call rfl (.ret () _))
  have hreject : Rejects (.forbiddenRequest, errorText "unauthorized") :=
    ⟨Or.inr (Or.inl rfl), by decide +kernel⟩
  have hbuf := (Session.Readable.accepted ⟨5, []⟩).writeBuf_nil rfl hread hparse nofun
  refine ⟨c', _, _, hparse, hrun, hreject, rfl, fun h => ?_⟩
  have hcode := (carriesError_iff (c := { c' with jsonRes := errorText "unauthorized" }) hbuf
    hreject).mp h
  cases hcode

end Http
end ResourceServer

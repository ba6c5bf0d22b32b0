import ResourceServer.Frontend.Messages
import ResourceServer.Http.Asking
import ResourceServer.Http.Identifiers

/-!
# What the server makes of the client's calls

The server runs the handler that a call is meant for, on the values that the caller gave, and asks
for what the caller means exactly if the id of the resource is an `int`.
-/

namespace ResourceServer
namespace Frontend

open CString Http Service

namespace ApiCall

def handler : ApiCall → Handler
  | .registerUser _ => .register
  | .loginUser _ => .login
  | .listResources | .getResource _ => .getResources
  | .createTextResource _ | .createFileResource _ => .postResource
  | .updateTextResource _ _ => .putResource
  | .deleteResource _ => .deleteResource
  | .requestUploadUrl _ => .createUploadUrl
  | .requestDownloadUrl _ => .createDownloadUrl

/-- What the caller means, for the user `u` that the token stands for. -/
def intent (u : ℤ) : ApiCall → ServiceQuery
  | .registerUser payload => .createUser ⟨payload.name, payload.email, payload.password⟩
  | .loginUser payload => .login ⟨[], payload.email, payload.password⟩
  | .listResources => .getResources u
  | .getResource id => .getResource u id
  | .createTextResource values => .createResource ⟨0, u, values.title, values.content, false⟩
  | .createFileResource values => .createResource ⟨0, u, values.title, values.content, true⟩
  | .updateTextResource id values => .updateResource ⟨id, u, values.title, values.content, false⟩
  | .deleteResource id => .deleteResource u id
  | .requestUploadUrl payload => .createUploadUrl u payload.filename payload.contentType
  | .requestDownloadUrl id => .getFileDownloadUrl u id

/-- The id of the resource, if there is one, is an `int`; in a URL it has no sign. -/
def IdFits : ApiCall → Prop
  | .getResource id | .deleteResource id | .requestDownloadUrl id => 0 ≤ id ∧ id ≤ intMax
  | .updateTextResource id _ => FitsInt id
  | _ => True

/-- The object that is sent. -/
def payload : ApiCall → Option Payload
  | .registerUser payload => some [(ascii "name", .str payload.name), (ascii "email", .str payload.email),
      (ascii "password", .str payload.password)]
  | .loginUser payload => some [(ascii "email", .str payload.email), (ascii "password", .str payload.password)]
  | .createTextResource values => some [(ascii "title", .str values.title),
      (ascii "content", .str values.content), (ascii "is_file", .bool false)]
  | .createFileResource values => some [(ascii "title", .str values.title),
      (ascii "content", .str values.content), (ascii "is_file", .bool true)]
  | .updateTextResource id values => some [(ascii "id", .num id), (ascii "title", .str values.title),
      (ascii "content", .str values.content)]
  | .requestUploadUrl payload => some [(ascii "filename", .str payload.filename),
      (ascii "content_type", .str payload.contentType)]
  | .listResources | .getResource _ | .deleteResource _ | .requestDownloadUrl _ => none

def sentToken (token : Option Bytes) : ApiCall → Option Bytes
  | .registerUser _ | .loginUser _ => none
  | _ => token.filter (· ≠ [])

/-- What the handler is to be given. -/
def request (token : Option Bytes) (call : ApiCall) : Request where
  handler := call.handler
  method := call.handler.method
  target := (call.config token).url
  token := (call.sentToken token).getD []
  body := (call.payload.map stringify).getD []

theorem config_data (token : Option Bytes) (call : ApiCall) :
    (call.config token).data = (call.payload.map stringify).map .string := by
  cases call <;> rfl

theorem config_method (token : Option Bytes) (call : ApiCall) :
    (call.config token).method = call.handler.method.name := by
  cases call <;> rfl

/-- What stands behind the path. -/
def query : ApiCall → Bytes
  | .getResource id | .deleteResource id => ascii "?id=" ++ Decimal.ofInt id
  | .requestDownloadUrl id => ascii "?resource_id=" ++ Decimal.ofInt id
  | _ => []

theorem config_url (token : Option Bytes) (call : ApiCall) :
    (call.config token).url = call.handler.path ++ call.query := by
  cases call with
  | registerUser | loginUser | listResources | createTextResource | createFileResource | updateTextResource
  | requestUploadUrl => exact (List.append_nil _).symm
  | getResource | deleteResource | requestDownloadUrl => rfl

theorem isWordByte_of_mem_path (k : Handler) : ∀ b ∈ k.path, isWordByte b = true := by
  cases k <;> decide +kernel

theorem isWordByte_of_mem_ofInt {n : ℤ} {b : UInt8} (hb : b ∈ Decimal.ofInt n) : isWordByte b = true := by
  have hne (x : UInt8) (hx : x ≠ 45) (hdigit : isDigit x = false) : b ≠ x := by
    rintro rfl
    rcases Decimal.mem_ofInt hb with h | h
    · exact hx h
    · rw [hdigit] at h
      cases h
  have hblank : b ∉ blanks := by
    have h32 := hne 32 (by decide) (by decide)
    have h9 := hne 9 (by decide) (by decide)
    simp [blanks, ascii, h32, h9]
  simp [isWordByte, notEol, hblank, hne nul (by decide) (by decide), hne cr (by decide) (by decide),
    hne lf (by decide) (by decide)]

theorem isWordByte_of_mem_query (call : ApiCall) : ∀ b ∈ call.query, isWordByte b = true := by
  have hid {name : Bytes} (hname : ∀ b ∈ name, isWordByte b = true) (id : ℤ) :
      ∀ b ∈ name ++ Decimal.ofInt id, isWordByte b = true := by
    intro b hb
    rcases List.mem_append.mp hb with hb | hb
    · exact hname b hb
    · exact isWordByte_of_mem_ofInt hb
  cases call with
  | getResource id | deleteResource id | requestDownloadUrl id => exact hid (by decide +kernel) id
  | registerUser | loginUser | listResources | createTextResource | createFileResource | updateTextResource
  | requestUploadUrl =>
    intro b hb
    cases hb

theorem config_leadsTo (token : Option Bytes) (call : ApiCall) : LeadsTo (call.config token) call.handler where
  method := config_method token call
  path := by
    constructor
    · exact ⟨call.query, (config_url token call).symm⟩
    · cases call <;> rintro ⟨⟩
  url := by
    intro b hb
    rw [config_url] at hb
    rcases List.mem_append.mp hb with hb | hb
    · exact isWordByte_of_mem_path _ b hb
    · exact isWordByte_of_mem_query call b hb
  data := by
    rw [config_data, Option.isSome_map, Option.isSome_map]
    cases call <;> rfl
  body := by
    intro s hs
    rw [config_data] at hs
    cases hp : call.payload with
    | none =>
      rw [hp] at hs
      cases hs
    | some p =>
      rw [hp] at hs
      cases hs
      exact ⟨stringify_ne_nil p, nul_notMem_stringify p⟩

/-- The token is sent as `Bearer`, unless it is empty. -/
theorem config_authorization (token : Option Bytes) (call : ApiCall) :
    valuesOf (ascii "Authorization") (call.config token).headers =
      ((call.sentToken token).map (ascii "Bearer " ++ ·)).toList := by
  rcases token with _ | _ | ⟨b, token⟩
  · cases call <;> rfl
  · cases call <;> rfl
  · cases call <;> rfl

/-- A number in a URL is read back if it is an `int` without a sign. -/
theorem numberParameter_ofInt {name : Bytes} (hname : 61 ∉ name) (id : ℤ) :
    numberParameter (name ++ 61 :: Decimal.ofInt id) name = some id ↔ 0 ≤ id ∧ id ≤ intMax := by
  cases id with
  | ofNat n =>
    have hdigits : ∀ b ∈ Decimal.ofNat n, isDigit b = true := fun b hb => Decimal.isDigit_of_mem hb
    have hvalue : (digitsValue (Decimal.ofNat n) : ℤ) = n := by rw [Decimal.digitsValue_ofNat]
    rw [Decimal.ofInt, numberParameter_digits hname (Decimal.ofNat_ne_nil n) hdigits, Option.some.injEq]
    constructor
    · intro hread
      have hrange := (toInt32_range (atol (Decimal.ofNat n))).2
      rw [← atoi, hread] at hrange
      exact ⟨Int.natCast_nonneg n, hrange⟩
    · rintro ⟨hpos, hmax⟩
      have hfits : FitsInt (digitsValue (Decimal.ofNat n)) := by
        rw [hvalue]
        exact ⟨le_trans (by decide) hpos, hmax⟩
      exact (atoi_digits (Decimal.ofNat_ne_nil n) hdigits hfits).trans hvalue
  | negSucc n =>
    have hsign : isNumber (Decimal.ofInt (.negSucc n)) = false := rfl
    rw [numberParameter, parseQuery_pair hname]
    simp only [hsign, ne_eq, not_true_eq_false, Bool.not_false, or_true, if_true]
    refine iff_of_false (fun h => ?_) fun h => absurd h.1 (by omega)
    cases h

variable {lib : JsonLib} {token : Option Bytes}

theorem strchr_append {s : Bytes} {b : UInt8} (hb : b ∉ s) (rest : Bytes) :
    strchr (s ++ b :: rest) b = some s.length := by
  rw [strchr, List.findIdx?_eq_some_iff_getElem]
  refine ⟨by simp, by simp, fun i hi => ?_⟩
  rw [List.getElem_append_left hi]
  intro heq
  exact hb (beq_iff_eq.mp heq ▸ List.getElem_mem hi)

theorem queryOf_request {call : ApiCall} {query : Bytes} (hquery : call.query = 63 :: query) :
    queryOf (call.request token).target = some query := by
  rw [request, config_url, hquery, queryOf, strchr_append call.handler.query_notMem_path]
  simp

/-- A handler that reads an id from the URL asks about the one that the caller gave, if it fits. -/
theorem question_parameter {name : Bytes} (hname : 61 ∉ name) {q : ℤ → ServiceQuery}
    (hq : Function.Injective q) (success : HttpCode) (u id : ℤ) :
    question u (match numberParameter (name ++ 61 :: Decimal.ofInt id) name with
      | none => refuse .badRequest (errorText "invalid parameter")
      | some id => respond lib success (q id)) = some (q id) ↔ 0 ≤ id ∧ id ≤ intMax := by
  rw [← numberParameter_ofInt hname]
  cases numberParameter (name ++ 61 :: Decimal.ofInt id) name with
  | none => exact iff_of_false nofun nofun
  | some n =>
    show some (q n) = some (q id) ↔ some n = some id
    rw [Option.some.injEq, Option.some.injEq, hq.eq_iff]

theorem question_request (call : ApiCall)
    (hparse : ∀ p, call.payload = some p → lib.parse (stringify p) = .ok p.json) (u : ℤ) :
    question u (handle lib (call.request token)) = some (call.intent u) ↔ call.IdFits := by
  cases call with
  | registerUser payload =>
    show question u (handleRegister lib _) = _ ↔ _
    rw [handleRegister, withBody_ok (hparse _ rfl)]
    exact iff_of_true rfl trivial
  | loginUser payload =>
    show question u (handleLogin lib _) = _ ↔ _
    rw [handleLogin, withBody_ok (hparse _ rfl)]
    exact iff_of_true rfl trivial
  | createTextResource values | createFileResource values | requestUploadUrl payload =>
    show question u (withBody lib _ _) = _ ↔ _
    rw [withBody_ok (hparse _ rfl)]
    exact iff_of_true rfl trivial
  | updateTextResource id values =>
    show question u (withBody lib _ _) = _ ↔ _
    rw [withBody_ok (hparse _ rfl)]
    show some (ServiceQuery.updateResource ⟨toInt32 id, u, values.title, values.content, false⟩) =
      some (.updateResource ⟨id, u, values.title, values.content, false⟩) ↔ FitsInt id
    constructor
    · intro h
      have hid : toInt32 id = id := by
        injection h with h
        injection h with h
        injection h
      exact hid ▸ toInt32_range id
    · rintro ⟨hmin, hmax⟩
      rw [toInt32_of_range hmin hmax]
  | listResources => exact iff_of_true rfl trivial
  | getResource id =>
    have hquery : queryOf (request token (.getResource id)).target =
        some (ascii "id" ++ 61 :: Decimal.ofInt id) := queryOf_request rfl
    show question u (handleGetResources lib _) = _ ↔ _
    rw [handleGetResources, hquery]
    exact question_parameter (by decide) (fun _ _ h => by injection h) _ u id
  | deleteResource id =>
    have hquery : queryOf (request token (.deleteResource id)).target =
        some (ascii "id" ++ 61 :: Decimal.ofInt id) := queryOf_request rfl
    show question u (handleDeleteResource lib _) = _ ↔ _
    rw [handleDeleteResource, hquery]
    exact question_parameter (by decide) (fun _ _ h => by injection h) _ u id
  | requestDownloadUrl id =>
    have hquery : queryOf (request token (.requestDownloadUrl id)).target =
        some (ascii "resource_id" ++ 61 :: Decimal.ofInt id) := queryOf_request rfl
    show question u (handleCreateDownloadUrl lib _) = _ ↔ _
    rw [handleCreateDownloadUrl, hquery]
    exact question_parameter (by decide) (fun _ _ h => by injection h) _ u id

theorem request_body {fields : List (Bytes × Bytes)} {q : RequestText} {call : ApiCall}
    (h : Carries (call.config token) fields q) : (call.request token).body = q.body := by
  have hbody := h.body
  rw [config_data] at hbody
  rw [request]
  cases hp : call.payload with
  | none =>
    rw [hp] at hbody
    rcases hbody with ⟨-, hbody⟩ | hbody
    · exact hbody.symm
    · cases hbody
  | some p =>
    rw [hp] at hbody
    rcases hbody with ⟨hnone, -⟩ | hbody
    · cases hnone
    · injection hbody with hbody
      injection hbody

theorem round {fields : List (Bytes × Bytes)} {q : RequestText} {call : ApiCall}
    (h : Carries (call.config token) fields q) {c c' : Conn} {cut : Chunking q.bytes}
    (hfeed : c.init.feed cut.before = some c') :
    ∃ d, c'.round cut.last = some (.ok (d, .handler (call.request token))) := by
  obtain ⟨d, hround⟩ := h.round (config_leadsTo token call) (config_authorization token call) hfeed
  refine ⟨d, hround.trans ?_⟩
  rw [← request_body h]
  rfl

end ApiCall

/-- **The server understands the client.** However the header block of a call's message is cut, the
server runs the call's handler with the call's token, and for whatever user that is it asks for what
the caller means exactly if the id of the resource fits. -/
theorem call_understood {lib : JsonLib} {call : ApiCall} {token : Option Bytes}
    {fields : List (Bytes × Bytes)} {q : RequestText} (h : Carries (call.config token) fields q)
    (hparse : ∀ p, call.payload = some p → lib.parse (stringify p) = .ok p.json) (c : Conn)
    (cut : Chunking q.bytes)
    (hcut : cut.before.flatten.length < (lines (q.requestLine :: q.headers) ++ crlf).length) :
    ∃ c' d r, c.init.feed cut.before = some c' ∧ c'.round cut.last = some (.ok (d, .handler r)) ∧
      r.handler = call.handler ∧ r.token = (call.sentToken token).getD [] ∧
      ∀ u, question u (handle lib r) = some (call.intent u) ↔ call.IdFits := by
  obtain ⟨c', hfeed⟩ := h.feed_isSome (ApiCall.config_leadsTo token call) c cut hcut
  obtain ⟨d, hround⟩ := ApiCall.round h hfeed
  exact ⟨c', d, call.request token, hfeed, hround, rfl, rfl, call.question_request hparse⟩

/-- Reads back the text of one object. -/
def readingLib (p : Payload) : JsonLib where
  dump _ := none
  parse text := if text = stringify p then .ok p.json else .error .parseError

theorem readingLib_parse (p : Payload) : (readingLib p).parse (stringify p) = .ok p.json := if_pos rfl

/-- Resource 3 gets a new title and a new content. -/
def update : ApiCall := .updateTextResource 3 ⟨ascii "a\"", ascii "b"⟩

def updatePayload : Payload :=
  [(ascii "id", .num 3), (ascii "title", .str (ascii "a\"")), (ascii "content", .str (ascii "b"))]

def updateFields : List (Bytes × Bytes) :=
  [(ascii "Host", ascii "localhost"), (ascii "authorization", ascii "Bearer t"),
    (ascii "Content-Length", ascii "36"), (ascii "Connection", ascii "close")]

def updateText : RequestText where
  requestLine := ascii "PUT /api/resources HTTP/1.1"
  headers := updateFields.map fieldLine
  body := stringify updatePayload
  plain := by decide +kernel
  headers_ne_nil := by decide +kernel

theorem updateText_carries : Carries (update.config (some (ascii "t"))) updateFields updateText where
  requestLine := by decide +kernel
  headers := rfl
  clean := by decide +kernel
  authorization := by decide +kernel
  contentLength := by
    rintro s hs
    cases hs
    decide +kernel
  body := Or.inr rfl
  size := by decide +kernel

/-- Cut within the header block. -/
def updateCut : Chunking updateText.bytes where
  before := [updateText.bytes.take 40]
  last := updateText.bytes.drop 40
  nonempty := by decide +kernel
  flatten := by simp

theorem update_understood : ∃ c' d r, (Conn.accepted ⟨5, []⟩).init.feed updateCut.before = some c' ∧
    c'.round updateCut.last = some (.ok (d, .handler r)) ∧ r.handler = .putResource ∧ r.token = ascii "t" ∧
    ∀ u, question u (handle (readingLib updatePayload) r) = some (update.intent u) ↔ update.IdFits :=
  call_understood updateText_carries (by rintro p ⟨⟩; exact readingLib_parse _) _ updateCut (by decide +kernel)

end Frontend
end ResourceServer

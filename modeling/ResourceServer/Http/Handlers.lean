import ResourceServer.Foundation.Json
import ResourceServer.Foundation.Program
import ResourceServer.Http.Parser
import ResourceServer.Service.Query

/-!
# Route handlers

A handler is a program over the services: it checks the token, reads its arguments from
the target or the body, calls one service and turns the answer into a code and a JSON
text. Logging is left out.
-/

namespace ResourceServer
namespace Http

open CString Service

inductive ServiceCall where
  | getUserIdFromToken (token : Bytes)
  | ask (query : ServiceQuery)
  deriving DecidableEq, Repr

def ServiceCall.Ret : ServiceCall → Type
  | .getUserIdFromToken _ => Option ℤ
  | .ask _ => Json

abbrev services : Signature := ⟨ServiceCall, ServiceCall.Ret⟩

/-- Code and `json_res` of a handler that returns; `none` if it throws. -/
abbrev HandlerResult := Option (HttpCode × Bytes)

abbrev HandlerProg := Prog services HandlerResult

def refuse (code : HttpCode) (json : Bytes) : HandlerProg := .ret (some (code, json))

def errorText (message : String) : Bytes := ascii ("\x7b\"error\":\"" ++ message ++ "\"\x7d")

/-- The token check at the head of a handler. -/
def withUser (r : Request) (next : ℤ → HandlerProg) : HandlerProg :=
  .call (.getUserIdFromToken r.token) fun user : Option ℤ =>
    match user with
    | none => refuse .forbiddenRequest (errorText "unauthorized")
    | some user => next user

def withBody (lib : JsonLib) (r : Request) (next : Json → HandlerProg) : HandlerProg :=
  match lib.parse r.body with
  | .error .parseError => refuse .badRequest (errorText "invalid JSON format")
  | .error .other => refuse .internalError (errorText "internal error")
  | .ok j => next j

/-- `json_error_message`. -/
def errorMessage (lib : JsonLib) (response : Json) : Option Bytes :=
  match response.error? with
  | none => some (ascii "unknown error")
  | some (.str text) => some text
  | some other => lib.dump other

/-- What a handler makes of a service answer. -/
def answer (lib : JsonLib) (success : HttpCode) (response : Json) : HandlerResult :=
  (lib.dump response).bind fun text =>
    if response.error?.isSome then
      (errorMessage lib response).map fun _ => (.badRequest, text)
    else some (success, text)

def respond (lib : JsonLib) (success : HttpCode) (query : ServiceQuery) : HandlerProg :=
  .call (.ask query) fun response : Json => .ret (answer lib success response)

def stringField (j : Json) (key : String) : Option Bytes := (j.get? (ascii key)).bind Json.asString?

/-- `parse_query`: what stands before and behind the first `=`. -/
def parseQuery (query : Bytes) : Bytes × Bytes :=
  match strchr query 61 with
  | none => ([], [])
  | some i => (query.take i, query.drop (i + 1))

/-- The part of the target behind the first `?`. -/
def queryOf (target : Bytes) : Option Bytes := (strchr target 63).map fun i => target.drop (i + 1)

def isNumber (value : Bytes) : Bool := !value.isEmpty && value.all isDigit

def atoi (s : Bytes) : ℤ := toInt32 (atol s)

/-- The number behind `name=`, if the query is exactly that. -/
def numberParameter (query : Bytes) (name : Bytes) : Option ℤ :=
  let pair := parseQuery query
  if pair.1 ≠ name ∨ !isNumber pair.2 then none else some (atoi pair.2)

def handleRegister (lib : JsonLib) (r : Request) : HandlerProg :=
  withBody lib r fun j =>
    match stringField j "name", stringField j "email", stringField j "password" with
    | some name, some email, some password =>
      respond lib .addResource (.createUser ⟨name, email, password⟩)
    | _, _, _ => refuse .badRequest (errorText "missing fields")

def handleLogin (lib : JsonLib) (r : Request) : HandlerProg :=
  withBody lib r fun j =>
    match stringField j "email", stringField j "password" with
    | some email, some password =>
      respond lib .getResource (.login ⟨[], email, password⟩)
    | _, _ => refuse .badRequest (errorText "missing fields")

/-- The error text is used as a string, whatever it is. -/
def handleLogout (lib : JsonLib) (r : Request) : HandlerProg :=
  withUser r fun _ =>
    .call (.ask (.logout r.token)) fun response : Json => .ret <|
      (lib.dump response).bind fun text =>
        match response.error? with
        | none => some (.deleteResource, text)
        | some (.str _) => some (.badRequest, text)
        | some _ => none

def handleGetResources (lib : JsonLib) (r : Request) : HandlerProg :=
  withUser r fun user =>
    match queryOf r.target with
    | none => respond lib .getResource (.getResources user)
    | some query =>
      match numberParameter query (ascii "id") with
      | none => refuse .badRequest (errorText "invalid parameter")
      | some id => respond lib .getResource (.getResource user id)

def handleDeleteResource (lib : JsonLib) (r : Request) : HandlerProg :=
  withUser r fun user =>
    match (queryOf r.target).bind (numberParameter · (ascii "id")) with
    | none => refuse .badRequest (errorText "invalid parameter")
    | some id => respond lib .deleteResource (.deleteResource user id)

def optionalField {α : Type} (j : Json) (key : String) (read : Json → Option α) (absent : α) :
    Option α :=
  match j.get? (ascii key) with
  | none => some absent
  | some value => read value

def handlePostResource (lib : JsonLib) (r : Request) : HandlerProg :=
  withUser r fun user =>
    withBody lib r fun j =>
      match optionalField j "title" Json.asString? [] with
      | none => refuse .badRequest (errorText "invalid title")
      | some title =>
        match optionalField j "content" Json.asString? [] with
        | none => refuse .badRequest (errorText "invalid content")
        | some content =>
          match optionalField j "is_file" Json.asBool? false with
          | none => refuse .badRequest (errorText "invalid is_file")
          | some isFile =>
            respond lib .addResource (.createResource ⟨0, user, title, content, isFile⟩)

/-- Unlike `POST`, a title or content that is no string throws. -/
def handlePutResource (lib : JsonLib) (r : Request) : HandlerProg :=
  withUser r fun user =>
    withBody lib r fun j =>
      match (j.get? (ascii "id")).bind Json.asInt? with
      | none => refuse .badRequest (errorText "invalid id")
      | some id =>
        match optionalField j "title" Json.asString? [],
            optionalField j "content" Json.asString? [] with
        | some title, some content =>
          respond lib .updateResource
            (.updateResource ⟨toInt32 id, user, title, content, false⟩)
        | _, _ => .ret none

def handleCreateUploadUrl (lib : JsonLib) (r : Request) : HandlerProg :=
  withUser r fun user =>
    withBody lib r fun j =>
      match stringField j "filename", stringField j "content_type" with
      | some filename, some contentType =>
        respond lib .getResource (.createUploadUrl user filename contentType)
      | _, _ => refuse .badRequest (errorText "missing fields")

def handleCreateDownloadUrl (lib : JsonLib) (r : Request) : HandlerProg :=
  withUser r fun user =>
    match (queryOf r.target).bind (numberParameter · (ascii "resource_id")) with
    | none => refuse .badRequest (errorText "invalid parameter")
    | some id => respond lib .getResource (.getFileDownloadUrl user id)

def handleHealth (lib : JsonLib) : HandlerProg :=
  .ret ((lib.dump (.status (ascii "ok"))).map fun text => (.getResource, text))

def handle (lib : JsonLib) (r : Request) : HandlerProg :=
  match r.handler with
  | .register => handleRegister lib r
  | .login => handleLogin lib r
  | .logout => handleLogout lib r
  | .getResources => handleGetResources lib r
  | .deleteResource => handleDeleteResource lib r
  | .postResource => handlePostResource lib r
  | .putResource => handlePutResource lib r
  | .createUploadUrl => handleCreateUploadUrl lib r
  | .createDownloadUrl => handleCreateDownloadUrl lib r
  | .health => handleHealth lib

end Http
end ResourceServer

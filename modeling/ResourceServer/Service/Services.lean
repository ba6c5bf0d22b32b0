import ResourceServer.Service.Cache
import ResourceServer.Service.Storage

/-!
# Resource and user services

The service functions a handler calls. `dump` may throw; the services turn that into an
answer of their own.
-/

namespace ResourceServer
namespace Service

open CString

/-- Cached text that does not parse counts as a miss. -/
def parseCachedJson (lib : JsonLib) (cached : Option Bytes) : Option Json :=
  cached.bind fun text =>
    match lib.parse text with
    | .ok j => some j
    | .error _ => none

namespace Resource

def json (r : Resource) : Json :=
  .obj [(ascii "id", .int r.id), (ascii "title", .str r.title), (ascii "content", .str r.content),
    (ascii "is_file", .bool r.isFile)]

/-- The answer that lists `rs`. -/
def listJson (rs : List Resource) : Json := .obj [(ascii "data", .arr (rs.map json))]

@[simp] theorem error?_json (r : Resource) : r.json.error? = none := rfl

@[simp] theorem error?_listJson (rs : List Resource) : (listJson rs).error? = none := rfl

end Resource

namespace ResourceService

variable (P : Platform)

def unavailable : Json := .error (ascii "resource service unavailable")

def createResource (info : ResourceInfo) : ServiceProg Json := do
  let ok ← ResourceDAO.createResource info.userId info.title info.content info.isFile
  if !ok then
    return .error (← readMsg .resource)
  else
    let _ ← ResourceCache.invalidateResources info.userId
    return .status (ascii "created")

/-- What `get_resources` makes of the rows it loaded. -/
def listLoaded (userId : ℤ) (vec : List Resource) : ServiceProg Json := do
  let msg ← readMsg .resource
  if msg ≠ [] then
    return .error (← readMsg .resource)
  else
    match P.json.dump (Resource.listJson vec) with
    | none => return unavailable
    | some text =>
      let _ ← ResourceCache.setResources userId text
      return Resource.listJson vec

def getResources (userId : ℤ) : ServiceProg Json := do
  let cached ← ResourceCache.getResources userId
  match parseCachedJson P.json cached with
  | some cached => return cached
  | none =>
    let vec ← ResourceDAO.getResources userId
    listLoaded P userId vec

def getResource (userId id : ℤ) : ServiceProg Json := do
  let cached ← ResourceCache.getResource userId id
  match parseCachedJson P.json cached with
  | some cached => return cached
  | none =>
    let resource ← ResourceDAO.getResource userId id
    match resource with
    | none => return .error (← readMsg .resource)
    | some r =>
      match P.json.dump r.json with
      | none => return unavailable
      | some text =>
        let _ ← ResourceCache.setResource userId id text
        return r.json

def getFileDownloadUrl (userId id : ℤ) : ServiceProg Json := do
  let resource ← ResourceDAO.getResource userId id
  match resource with
  | none => return .error (← readMsg .resource)
  | some r =>
    if !r.isFile then return .error (ascii "resource is not file")
    else StorageService.createDownloadUrl P r.content

def updateResource (info : ResourceInfo) : ServiceProg Json := do
  let ok ← ResourceDAO.updateResource info.id info.userId info.title info.content
  if !ok then
    return .error (← readMsg .resource)
  else
    let _ ← ResourceCache.invalidateResource info.userId info.id
    let _ ← ResourceCache.invalidateResources info.userId
    return .status (ascii "updated")

/-- The row's `DELETE` and what follows it. -/
def deleteRow (userId id : ℤ) : ServiceProg Json := do
  let ok ← ResourceDAO.deleteResource userId id
  if !ok then
    return .error (← readMsg .resource)
  else
    let _ ← ResourceCache.invalidateResource userId id
    let _ ← ResourceCache.invalidateResources userId
    return .status (ascii "deleted")

/-- The object of a file resource is removed before its row. -/
def deleteResource (userId id : ℤ) : ServiceProg Json := do
  let resource ← ResourceDAO.getResource userId id
  match resource with
  | none => return .error (← readMsg .resource)
  | some r =>
    if r.isFile then
      let removed ← StorageService.deleteFile P r.content
      match removed with
      | .error message => return .error message
      | .ok _ => deleteRow userId id
    else deleteRow userId id

end ResourceService

namespace UserService

variable (P : Platform)

def createUser (info : UserInfo) : ServiceProg Json := do
  let ok ← UserDAO.createUser info.name info.email (P.sha256 info.password)
  if !ok then
    return .error (← readMsg .user)
  else
    return .status (ascii "created")

/-- `user_service_error`: the static message is overwritten too. -/
def serviceError (doing : Bytes) (t : Thrown) : ServiceProg Json := do
  assignMsg .user <|
    match t with
    | .exception what => ascii "User service error while " ++ doing ++ ascii ": " ++ what
    | .unknown => ascii "User service error while " ++ doing ++ ascii "."
  return .error (ascii "user service unavailable")

/-- A login step that failed. -/
def refuse (reason : Bytes) : ServiceProg Json := do
  assignMsg .user reason
  return .error (← readMsg .user)

def login (info : UserInfo) : ServiceProg Json := do
  let user ← UserDAO.getUserByEmail info.email
  match user with
  | none => return .error (← readMsg .user)
  | some user =>
    if user.password ≠ P.sha256 info.password then refuse (ascii "wrong password")
    else
      let result : Except Thrown Bytes ← act (.createJwt user.id)
      match result with
      | .error t => serviceError (ascii "logging in") t
      | .ok [] => refuse (ascii "token generation failed")
      | .ok token =>
        return .obj [(ascii "token", .str token), (ascii "user_id", .int user.id),
          (ascii "name", .str user.name)]

def logout : ServiceProg Json := return .status (ascii "logout success")

end UserService

/-- The service function a query calls. -/
def serve (P : Platform) : ServiceQuery → ServiceProg Json
  | .logout _ => UserService.logout
  | .createUser info => UserService.createUser P info
  | .login info => UserService.login P info
  | .createResource info => ResourceService.createResource info
  | .getResources userId => ResourceService.getResources P userId
  | .getResource userId id => ResourceService.getResource P userId id
  | .getFileDownloadUrl userId id => ResourceService.getFileDownloadUrl P userId id
  | .updateResource info => ResourceService.updateResource info
  | .deleteResource userId id => ResourceService.deleteResource P userId id
  | .createUploadUrl userId filename contentType =>
    StorageService.createUploadUrl P userId filename contentType

theorem readError_exec {σ : Type} {R : Env actions σ} {s s' : σ} {d : Dao}
    {calls : List (Event actions)} {answer : Json}
    (hexec : Prog.Exec R s (readMsg d >>= fun text => return Json.error text) calls s' answer) :
    ∃ text, R (.readMsg d) s text s' ∧ calls = [⟨.readMsg d, text⟩] ∧ answer = .error text := by
  obtain ⟨text, s₁, rest, hread, rfl, hrest⟩ := exec_act_iff.mp hexec
  obtain ⟨rfl, rfl, rfl⟩ := Prog.exec_ret_iff.mp hrest
  exact ⟨text, hread, rfl, rfl⟩

theorem succeeded_exec {σ : Type} {R : Env actions σ} {s s' : σ} {d : Dao} {dao : ServiceProg Bool}
    {rest : ServiceProg Json} {calls : List (Event actions)} {answer : Json}
    (hexec : Prog.Exec R s (dao >>= fun ok =>
      if !ok then readMsg d >>= fun text => return Json.error text else rest) calls s' answer)
    (hok : answer.error? = none) :
    ∃ first s₁ last, Prog.Exec R s₁ rest last s' answer ∧ calls = first ++ last := by
  obtain ⟨first, s₁, ok, last, -, hlast, rfl⟩ := Prog.exec_bind_iff.mp hexec
  cases ok with
  | false =>
    obtain ⟨text, -, -, rfl⟩ := readError_exec hlast
    exact absurd hok (Json.error?_error_ne_none text)
  | true => exact ⟨first, s₁, last, hlast, rfl⟩

end Service
end ResourceServer

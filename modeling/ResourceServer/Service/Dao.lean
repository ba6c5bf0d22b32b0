import ResourceServer.Service.Actions

/-!
# Data access objects

A DAO function clears the `msg` of its class, runs one statement and assigns `msg` when
it reports failure. Parameters reach the statement as C strings.
-/

namespace ResourceServer
namespace Service

open CString

def clearMsg (d : Dao) : ServiceProg Unit := act (.clearMsg d)

def assignMsg (d : Dao) (text : Bytes) : ServiceProg Unit := act (.assignMsg d text)

def readMsg (d : Dao) : ServiceProg Bytes := act (.readMsg d)

/-- The name a DAO goes by in its messages. -/
def Dao.label : Dao → Bytes
  | .resource => ascii "Resource"
  | .user => ascii "User"

/-- The message for a statement that failed during `doing`. -/
def Dao.failureText (d : Dao) (doing : Bytes) : DbFailure → Bytes
  | .noConnection => ascii "DB connection failed."
  | .query message => ascii "Query failed: " ++ message
  | .thrown (.exception what) =>
    d.label ++ ascii " database error while " ++ doing ++ ascii ": " ++ what
  | .thrown .unknown => d.label ++ ascii " database error while " ++ doing ++ ascii "."

/-- No failure leaves an empty message. -/
theorem Dao.failureText_ne_nil (d : Dao) (doing : Bytes) (f : DbFailure) :
    d.failureText doing f ≠ [] := by
  rcases f with _ | _ | _ | _ <;> cases d <;> simp [failureText, label, ascii]

/-- `msg = text`, and the value that reports failure. -/
def failWith {α : Type} (d : Dao) (text : Bytes) (result : α) : ServiceProg α := do
  assignMsg d text
  return result

namespace ResourceDAO

def createResource (userId : ℤ) (title content : Bytes) (isFile : Bool) : ServiceProg Bool := do
  clearMsg .resource
  let result : Except DbFailure Unit ←
    act (.insertResource userId (cstr title) (cstr content) isFile)
  match result with
  | .error f => failWith .resource (Dao.resource.failureText (ascii "creating a resource") f) false
  | .ok _ => return true

/-- A failed load is an empty list too; only `msg` tells the difference. -/
def getResources (userId : ℤ) : ServiceProg (List Resource) := do
  clearMsg .resource
  let result : Except DbFailure (List Resource) ← act (.selectResources userId)
  match result with
  | .error f => failWith .resource (Dao.resource.failureText (ascii "loading resources") f) []
  | .ok rows => return rows

def getResource (userId id : ℤ) : ServiceProg (Option Resource) := do
  clearMsg .resource
  let result : Except DbFailure (Option Resource) ← act (.selectResource userId id)
  match result with
  | .error f => failWith .resource (Dao.resource.failureText (ascii "loading a resource") f) none
  | .ok none => failWith .resource (ascii "Resource not found.") none
  | .ok (some r) => return some r

def updateResource (id userId : ℤ) (title content : Bytes) : ServiceProg Bool := do
  clearMsg .resource
  let result : Except DbFailure ℕ ←
    act (.updateResource (cstr title) (cstr content) userId id)
  match result with
  | .error f => failWith .resource (Dao.resource.failureText (ascii "updating a resource") f) false
  | .ok 0 => failWith .resource (ascii "No change proceeded.") false
  | .ok (_ + 1) => return true

def deleteResource (userId id : ℤ) : ServiceProg Bool := do
  clearMsg .resource
  let result : Except DbFailure ℕ ← act (.deleteResource id userId)
  match result with
  | .error f => failWith .resource (Dao.resource.failureText (ascii "deleting a resource") f) false
  | .ok 0 => failWith .resource (ascii "Resource not found.") false
  | .ok (_ + 1) => return true

end ResourceDAO

namespace UserDAO

def createUser (name email password : Bytes) : ServiceProg Bool := do
  clearMsg .user
  let result : Except DbFailure Unit ←
    act (.insertUser (cstr name) (cstr email) (cstr password))
  match result with
  | .error f => failWith .user (Dao.user.failureText (ascii "creating a user") f) false
  | .ok _ => return true

def getUserByEmail (email : Bytes) : ServiceProg (Option User) := do
  clearMsg .user
  let result : Except DbFailure (Option User) ← act (.selectUser (cstr email))
  match result with
  | .error f => failWith .user (Dao.user.failureText (ascii "loading a user") f) none
  | .ok none => failWith .user (ascii "User not found") none
  | .ok (some u) => return some u

end UserDAO

end Service
end ResourceServer

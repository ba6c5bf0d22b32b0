import ResourceServer.Foundation.CString

/-!
# The interface of the services

What a handler may ask `ResourceService`, `UserService` and `StorageService`, and the
user each question is asked for.
-/

namespace ResourceServer
namespace Service

structure ResourceInfo where
  id : ℤ
  userId : ℤ
  title : Bytes
  content : Bytes
  isFile : Bool
  deriving DecidableEq, Repr

structure UserInfo where
  name : Bytes
  email : Bytes
  password : Bytes
  deriving DecidableEq, Repr

/-- The service functions that answer with JSON. -/
inductive ServiceQuery where
  | logout (token : Bytes)
  | createUser (info : UserInfo)
  | login (info : UserInfo)
  | createResource (info : ResourceInfo)
  | getResources (userId : ℤ)
  | getResource (userId id : ℤ)
  | getFileDownloadUrl (userId id : ℤ)
  | updateResource (info : ResourceInfo)
  | deleteResource (userId id : ℤ)
  | createUploadUrl (userId : ℤ) (filename contentType : Bytes)
  deriving DecidableEq, Repr

namespace ServiceQuery

def actingUser : ServiceQuery → Option ℤ
  | .createResource info => some info.userId
  | .getResources u => some u
  | .getResource u _ => some u
  | .getFileDownloadUrl u _ => some u
  | .updateResource info => some info.userId
  | .deleteResource u _ => some u
  | .createUploadUrl u _ _ => some u
  | .logout _ | .createUser _ | .login _ => none

def resourceId : ServiceQuery → Option ℤ
  | .getResource _ id | .getFileDownloadUrl _ id | .deleteResource _ id => some id
  | .updateResource info => some info.id
  | _ => none

end ServiceQuery

end Service
end ResourceServer

import ResourceServer.Foundation.Json
import ResourceServer.Foundation.Program
import ResourceServer.Service.Query

/-!
# What the services do to the outside

Redis commands, SQL statements, storage SDK calls, and the accesses to the static error
strings of the two DAOs. Every service function is a program over these actions. Logging
and the leasing of pooled connections are left out; a lease that fails is a way for a
statement to fail.
-/

namespace ResourceServer
namespace Service

/-- What a `SELECT` returns of a row of `resources`. -/
structure Resource where
  id : ℤ
  title : Bytes
  content : Bytes
  isFile : Bool
  deriving DecidableEq, Repr

structure User where
  id : ℤ
  name : Bytes
  email : Bytes
  password : Bytes
  deriving DecidableEq, Repr

/-- The classes with a static `msg`. -/
inductive Dao where
  | resource | user
  deriving DecidableEq, Repr

/-- What a `catch` clause sees. -/
inductive Thrown where
  | exception (what : Bytes)
  | unknown
  deriving DecidableEq, Repr

/-- How a statement fails: no connection, a result with an error message, or an
exception. -/
inductive DbFailure where
  | noConnection
  | query (message : Bytes)
  | thrown (t : Thrown)
  deriving DecidableEq, Repr

inductive SdkFailure where
  | rejected (message : Bytes)
  | thrown (t : Thrown)
  deriving DecidableEq, Repr

inductive ObjectMethod where
  | get | put
  deriving DecidableEq, Repr

/-- The storage client a call builds from the environment. -/
inductive SdkClient where
  | minio (host : Bytes) (https : Bool) (region accessKey secretKey : Bytes)
  | aws (region accessKey secretKey : Bytes)
  deriving DecidableEq, Repr

inductive Action where
  | redisGet (key : Bytes)
  | redisSetex (key : Bytes) (ttl : ℕ) (value : Bytes)
  | redisDel (key : Bytes)
  | insertResource (userId : ℤ) (title content : Bytes) (isFile : Bool)
  | selectResources (userId : ℤ)
  | selectResource (userId id : ℤ)
  | updateResource (title content : Bytes) (userId id : ℤ)
  | deleteResource (id userId : ℤ)
  | insertUser (name email password : Bytes)
  | selectUser (email : Bytes)
  | clearMsg (d : Dao)
  | assignMsg (d : Dao) (text : Bytes)
  | readMsg (d : Dao)
  | epochMillis
  | createJwt (userId : ℤ)
  | presign (client : SdkClient) (method : ObjectMethod) (bucket key : Bytes) (expires : ℤ)
  | removeObject (client : SdkClient) (bucket key : Bytes)
  deriving DecidableEq, Repr

def Action.Ret : Action → Type
  | .redisGet _ => Option Bytes
  | .redisSetex .. | .redisDel _ => Bool
  | .insertResource .. | .insertUser .. => Except DbFailure Unit
  | .selectResources _ => Except DbFailure (List Resource)
  | .selectResource .. => Except DbFailure (Option Resource)
  | .updateResource .. | .deleteResource .. => Except DbFailure ℕ
  | .selectUser _ => Except DbFailure (Option User)
  | .clearMsg _ | .assignMsg .. => Unit
  | .readMsg _ => Bytes
  | .epochMillis => ℤ
  | .createJwt _ => Except Thrown Bytes
  | .presign .. => Except SdkFailure Bytes
  | .removeObject .. => Except SdkFailure Unit

abbrev actions : Signature := ⟨Action, Action.Ret⟩

abbrev ServiceProg := Prog actions

def act (a : Action) : ServiceProg a.Ret := .call a .ret

/-- A run that starts with an action: its result, and the run of the rest. -/
theorem exec_act_iff {α σ : Type} {R : Env actions σ} {s s'' : σ} {a : Action}
    {f : a.Ret → ServiceProg α} {t : List (Event actions)} {b : α} :
    Prog.Exec R s (act a >>= f) t s'' b ↔
      ∃ r s' t', R a s r s' ∧ t = ⟨a, r⟩ :: t' ∧ Prog.Exec R s' (f r) t' s'' b :=
  Prog.exec_call_iff

/-- The parts of the process that are no code of the repository: the JSON library, the
environment variables and SHA-256. -/
structure Platform where
  json : JsonLib
  getenv : Bytes → Option Bytes
  sha256 : Bytes → Bytes

end Service
end ResourceServer

import ResourceServer.Http.Handlers
import ResourceServer.Service.JsonText

/-!
# The API client

`client.ts` and the `api.ts` of the features: what each call asks `axios` to send, and what it
makes of the outcome. Strings are the bytes of their UTF-8 text; the token is what
`getAuthToken()` has returned.
-/

namespace ResourceServer
namespace Frontend

open CString Service

/-- A value in one of the flat objects that are sent. -/
inductive Scalar where
  | str (s : Bytes)
  | num (n : ℤ)
  | bool (b : Bool)
  deriving DecidableEq, Repr

abbrev Payload := List (Bytes × Scalar)

def Scalar.json : Scalar → Json
  | .str s => .str s
  | .num n => .int n
  | .bool b => .bool b

def Payload.json (p : Payload) : Json := .obj (p.map fun field => (field.1, field.2.json))

/-- A byte inside a quoted string. -/
def quoteByte (b : UInt8) : Bytes :=
  if b = 34 ∨ b = 92 then [92, b]
  else if b = 8 then [92, 98]
  else if b = 9 then [92, 116]
  else if b = 10 then [92, 110]
  else if b = 12 then [92, 102]
  else if b = 13 then [92, 114]
  else if b < 32 then 92 :: (ascii "u00" ++ AuthUtils.hexByte b)
  else [b]

def quote (s : Bytes) : Bytes := 34 :: (s.flatMap quoteByte ++ [34])

def Scalar.stringify : Scalar → Bytes
  | .str s => quote s
  | .num n => Decimal.ofInt n
  | .bool b => boolText b

def member (field : Bytes × Scalar) : Bytes := quote field.1 ++ 58 :: field.2.stringify

def stringify : Payload → Bytes
  | [] => [123, 125]
  | field :: fields => 123 :: (member field ++ (fields.flatMap (44 :: member ·) ++ [125]))

inductive BodyInit where
  | string (s : Bytes)
  | formData (entries : List (Bytes × Bytes))
  deriving DecidableEq, Repr

/-- `RequestInit`, as far as the callers fill it. -/
structure RequestInit where
  method : Option Bytes := none
  headers : List (Bytes × Bytes) := []
  body : Option BodyInit := none

structure AxiosRequestConfig where
  url : Bytes
  method : Bytes
  headers : List (Bytes × Bytes)
  data : Option BodyInit
  deriving DecidableEq, Repr

/-- How `axios.request` ends. -/
inductive AxiosOutcome where
  | resolved (data : Json)
  -- an `AxiosError` with a response, and one without
  | rejected (status : ℕ) (data : Json)
  | unanswered
  -- anything else: the message of an `Error`, or none
  | thrown (message : Option Bytes)

structure ApiError where
  message : Bytes
  status : ℕ
  deriving DecidableEq, Repr

/-- `{ ...o, ...updates }` -/
def spread (o updates : List (Bytes × Bytes)) : List (Bytes × Bytes) :=
  updates.foldl (fun o field =>
    if o.any (·.1 = field.1) then o.map fun f => if f.1 = field.1 then field else f else o ++ [field]) o

def messageFromUnknownError (error : Option Bytes) : Bytes :=
  match error with
  | some (b :: message) => b :: message
  | _ => ascii "Request failed. Please try again."

def isFormData : Option BodyInit → Bool
  | some (.formData _) => true
  | _ => false

def apiConfig (path : Bytes) (options : RequestInit) : AxiosRequestConfig where
  url := path
  method := options.method.getD (ascii "GET")
  headers := spread (if isFormData options.body then [] else [(ascii "Content-Type", ascii "application/json")])
    options.headers
  data := options.body

/-- The message for an error response. -/
def responseMessage (status : ℕ) (body : Json) : Bytes :=
  match body.error? with
  | some (.str message) => message
  | _ => ascii "Request failed with status " ++ Decimal.ofNat status

def apiFetch (axios : AxiosRequestConfig → AxiosOutcome) (path : Bytes) (options : RequestInit) :
    Except ApiError Json :=
  match axios (apiConfig path options) with
  | .resolved data => .ok data
  | .rejected status body => .error ⟨responseMessage status body, status⟩
  | .unanswered => .error ⟨ascii "Network request failed. Please try again.", 0⟩
  | .thrown error => .error ⟨messageFromUnknownError error, 0⟩

structure RegisterRequest where
  name : Bytes
  email : Bytes
  password : Bytes
  deriving DecidableEq, Repr

structure LoginRequest where
  email : Bytes
  password : Bytes
  deriving DecidableEq, Repr

structure ResourceFormValues where
  title : Bytes
  content : Bytes
  deriving DecidableEq, Repr

structure UploadUrlRequest where
  filename : Bytes
  contentType : Bytes
  deriving DecidableEq, Repr

/-- The arguments of `apiFetch`. -/
structure Fetch where
  path : Bytes
  options : RequestInit

def authHeaders : Option Bytes → List (Bytes × Bytes)
  | some (b :: token) => [(ascii "Authorization", ascii "Bearer " ++ b :: token)]
  | _ => []

def registerUser (payload : RegisterRequest) : Fetch where
  path := ascii "/api/register"
  options := {
    method := some (ascii "POST")
    body := some <| .string <| stringify [(ascii "name", .str payload.name),
      (ascii "email", .str payload.email), (ascii "password", .str payload.password)] }

def loginUser (payload : LoginRequest) : Fetch where
  path := ascii "/api/login"
  options := {
    method := some (ascii "POST")
    body := some <| .string <| stringify [(ascii "email", .str payload.email),
      (ascii "password", .str payload.password)] }

section Authorized

variable (token : Option Bytes)

def listResources : Fetch where
  path := ascii "/api/resources"
  options := { headers := authHeaders token }

def getResource (id : ℤ) : Fetch where
  path := ascii "/api/resources?id=" ++ Decimal.ofInt id
  options := { headers := authHeaders token }

def createTextResource (values : ResourceFormValues) : Fetch where
  path := ascii "/api/resources"
  options := {
    method := some (ascii "POST")
    headers := authHeaders token
    body := some <| .string <| stringify [(ascii "title", .str values.title),
      (ascii "content", .str values.content), (ascii "is_file", .bool false)] }

def createFileResource (values : ResourceFormValues) : Fetch where
  path := ascii "/api/resources"
  options := {
    method := some (ascii "POST")
    headers := authHeaders token
    body := some <| .string <| stringify [(ascii "title", .str values.title),
      (ascii "content", .str values.content), (ascii "is_file", .bool true)] }

def updateTextResource (id : ℤ) (values : ResourceFormValues) : Fetch where
  path := ascii "/api/resources"
  options := {
    method := some (ascii "PUT")
    headers := authHeaders token
    body := some <| .string <| stringify [(ascii "id", .num id), (ascii "title", .str values.title),
      (ascii "content", .str values.content)] }

def deleteResource (id : ℤ) : Fetch where
  path := ascii "/api/resources?id=" ++ Decimal.ofInt id
  options := { method := some (ascii "DELETE"), headers := authHeaders token }

def requestUploadUrl (payload : UploadUrlRequest) : Fetch where
  path := ascii "/api/files/upload-url"
  options := {
    method := some (ascii "POST")
    headers := authHeaders token
    body := some <| .string <| stringify [(ascii "filename", .str payload.filename),
      (ascii "content_type", .str payload.contentType)] }

def requestDownloadUrl (resourceId : ℤ) : Fetch where
  path := ascii "/api/files/download-url?resource_id=" ++ Decimal.ofInt resourceId
  options := { headers := authHeaders token }

end Authorized

/-- A call of one of these functions. -/
inductive ApiCall where
  | registerUser (payload : RegisterRequest)
  | loginUser (payload : LoginRequest)
  | listResources
  | getResource (id : ℤ)
  | createTextResource (values : ResourceFormValues)
  | createFileResource (values : ResourceFormValues)
  | updateTextResource (id : ℤ) (values : ResourceFormValues)
  | deleteResource (id : ℤ)
  | requestUploadUrl (payload : UploadUrlRequest)
  | requestDownloadUrl (resourceId : ℤ)
  deriving DecidableEq, Repr

namespace ApiCall

def fetch (token : Option Bytes) : ApiCall → Fetch
  | .registerUser payload => Frontend.registerUser payload
  | .loginUser payload => Frontend.loginUser payload
  | .listResources => Frontend.listResources token
  | .getResource id => Frontend.getResource token id
  | .createTextResource values => Frontend.createTextResource token values
  | .createFileResource values => Frontend.createFileResource token values
  | .updateTextResource id values => Frontend.updateTextResource token id values
  | .deleteResource id => Frontend.deleteResource token id
  | .requestUploadUrl payload => Frontend.requestUploadUrl token payload
  | .requestDownloadUrl id => Frontend.requestDownloadUrl token id

def config (token : Option Bytes) (call : ApiCall) : AxiosRequestConfig :=
  apiConfig (call.fetch token).path (call.fetch token).options

/-- `listResources` takes `data` out of the answer, and `undefined` is `none`. -/
def select (call : ApiCall) (response : Json) : Option Json :=
  if call = .listResources then response.get? (ascii "data") else some response

/-- What the caller gets. -/
def result (axios : AxiosRequestConfig → AxiosOutcome) (token : Option Bytes) (call : ApiCall) :
    Except ApiError (Option Json) :=
  (apiFetch axios (call.fetch token).path (call.fetch token).options).map call.select

end ApiCall

end Frontend
end ResourceServer

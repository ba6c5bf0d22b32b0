import Mathlib.Data.List.DropRight
import ResourceServer.Service.Dao

/-!
# Object storage

`StorageService`: the object key of an upload, the presigned URLs, and the removal of the
object that a public URL names.
-/

namespace ResourceServer
namespace Service

open CString

namespace Platform

variable (P : Platform)

def getEnvOrDefault (name : String) (fallback : Bytes) : Bytes :=
  match P.getenv (ascii name) with
  | none | some [] => fallback
  | some value => value

/-- Trailing characters make the fallback count; a value out of range does not. -/
def getEnvIntOrDefault (name : String) (fallback : ℤ) : ℤ :=
  match P.getenv (ascii name) with
  | none | some [] => fallback
  | some value =>
    let parsed := strtol value
    if parsed.2 = value ∨ parsed.2 ≠ [] then fallback else toInt32 parsed.1

def getStorageEnv (s3Name minioName : String) (fallback : Bytes) : Bytes :=
  match P.getEnvOrDefault s3Name [] with
  | [] => P.getEnvOrDefault minioName fallback
  | value => value

def getStorageEnvInt (s3Name minioName : String) (fallback : ℤ) : ℤ :=
  match P.getEnvOrDefault s3Name [] with
  | [] => P.getEnvIntOrDefault minioName fallback
  | _ => P.getEnvIntOrDefault s3Name fallback

end Platform

def trimTrailingSlash (value : Bytes) : Bytes := value.rdropWhile (· = 47)

namespace Platform

variable (P : Platform)

def bucket : Bytes := P.getStorageEnv "S3_BUCKET" "MINIO_BUCKET" (ascii "webserver-files")

def publicEndpoint : Bytes :=
  trimTrailingSlash
    (P.getStorageEnv "S3_PUBLIC_ENDPOINT" "MINIO_PUBLIC_ENDPOINT" (ascii "http://localhost:9000"))

def internalEndpoint : Bytes :=
  trimTrailingSlash (P.getStorageEnv "S3_ENDPOINT" "MINIO_ENDPOINT" P.publicEndpoint)

def region : Bytes := P.getStorageEnv "S3_REGION" "MINIO_REGION" (ascii "us-east-1")

/-- `make_minio_base_url` and `make_minio_provider`. -/
def minioClient (endpoint : Bytes) : SdkClient :=
  let host := trimTrailingSlash endpoint
  let access := P.getStorageEnv "S3_ACCESS_KEY" "MINIO_ACCESS_KEY" (ascii "minioadmin")
  let secret := P.getStorageEnv "S3_SECRET_KEY" "MINIO_SECRET_KEY" (ascii "minioadmin")
  if (ascii "http://").isPrefixOf host then .minio (host.drop 7) false P.region access secret
  else if (ascii "https://").isPrefixOf host then .minio (host.drop 8) true P.region access secret
  else .minio host true P.region access secret

end Platform

def isAlnum (b : UInt8) : Bool := isDigit b || (65 ≤ b && b ≤ 90) || (97 ≤ b && b ≤ 122)

/-- Bytes other than letters, digits, `.`, `-` and `_` become `_`; an empty or dot-only
name is rejected by an empty result. -/
def sanitizeFilename (filename : Bytes) : Bytes :=
  let clean := filename.map fun b => if isAlnum b || b = 46 || b = 45 || b = 95 then b else 95
  if clean = [] ∨ clean = ascii "." ∨ clean = ascii ".." then [] else clean

/-- From the last dot on, lowercased. -/
def fileExtension (filename : Bytes) : Bytes :=
  if filename.contains 46 then (46 :: filename.rtakeWhile (· ≠ 46)).map toLower else []

def hasPathTraversal (filename : Bytes) : Bool :=
  filename.contains 47 || filename.contains 92 || decide (ascii ".." <:+: filename)

def allowedContentTypes : List Bytes :=
  [ascii "text/plain", ascii "application/pdf", ascii "image/png", ascii "image/jpeg",
    ascii "application/msword",
    ascii "application/vnd.openxmlformats-officedocument.wordprocessingml.document"]

def isAllowedContentType (contentType : Bytes) : Bool :=
  allowedContentTypes.contains (contentType.map toLower)

def blockedExtensions : List Bytes :=
  [ascii ".bat", ascii ".cmd", ascii ".com", ascii ".dll", ascii ".exe", ascii ".js", ascii ".ps1",
    ascii ".sh"]

def isBlockedExtension (filename : Bytes) : Bool :=
  blockedExtensions.contains (fileExtension filename)

/-- The first check an upload fails. -/
def uploadRefusal (P : Platform) (filename contentType : Bytes) : Option Bytes :=
  let clean := sanitizeFilename filename
  let maxLength := P.getStorageEnvInt "S3_MAX_FILENAME_LENGTH" "MINIO_MAX_FILENAME_LENGTH" 255
  if clean = [] then some (ascii "invalid filename")
  -- the bound is compared as a `size_t`
  else if maxLength % 2 ^ 64 < filename.length then some (ascii "filename too long")
  else if hasPathTraversal filename then some (ascii "invalid filename")
  else if isBlockedExtension clean then some (ascii "blocked file type")
  else if contentType = [] then some (ascii "invalid content_type")
  else if !isAllowedContentType contentType then some (ascii "unsupported content_type")
  else none

def uploadPrefix (userId : ℤ) : Bytes := ascii "users/" ++ Decimal.ofInt userId ++ ascii "/uploads/"

def extractObjectKey (publicUrl publicEndpoint bucket : Bytes) : Bytes :=
  let pre := publicEndpoint ++ ascii "/" ++ bucket ++ ascii "/"
  if pre.isPrefixOf publicUrl then publicUrl.drop pre.length else []

def Platform.objectKey (P : Platform) (publicUrl : Bytes) : Bytes :=
  extractObjectKey publicUrl P.publicEndpoint P.bucket

/-- `create_aws_sdk_presigned_url`; `none` if it throws. -/
def createAwsSdkPresignedUrl (P : Platform) (method : ObjectMethod) (bucket key : Bytes)
    (expires : ℤ) : ServiceProg (Option Json) :=
  let access := P.getStorageEnv "S3_ACCESS_KEY" "MINIO_ACCESS_KEY" []
  let secret := P.getStorageEnv "S3_SECRET_KEY" "MINIO_SECRET_KEY" []
  if access = [] ∨ secret = [] then return some (.error (ascii "missing S3 credentials"))
  else do
    let result : Except SdkFailure Bytes ←
      act (.presign (.aws P.region access secret) method bucket key expires)
    match result with
    | .error (.thrown _) => return none
    | .error (.rejected _) | .ok [] =>
      return some (.error (ascii "failed to create AWS S3 presigned URL"))
    | .ok url => return some (.obj [(ascii "url", .str url)])

/-- `create_presigned_url`; `none` if it throws. -/
def createPresignedUrl (P : Platform) (method : ObjectMethod) (endpoint bucket key : Bytes)
    (expires : ℤ) : ServiceProg (Option Json) :=
  if ascii "amazonaws.com" <:+: endpoint then
    createAwsSdkPresignedUrl P method bucket key expires
  else do
    let result : Except SdkFailure Bytes ←
      act (.presign (P.minioClient endpoint) method bucket key expires)
    match result with
    | .error (.thrown _) => return none
    | .error (.rejected message) => return some (.error message)
    | .ok url => return some (.obj [(ascii "url", .str url)])

namespace StorageService

def unavailable : Json := .error (ascii "storage service unavailable")

def createUploadUrl (P : Platform) (userId : ℤ) (filename contentType : Bytes) :
    ServiceProg Json :=
  match uploadRefusal P filename contentType with
  | some message => return .error message
  | none => do
    let millis : ℤ ← act .epochMillis
    let key := uploadPrefix userId ++ Decimal.ofInt millis ++ ascii "-" ++ sanitizeFilename filename
    let publicUrl := P.publicEndpoint ++ ascii "/" ++ P.bucket ++ ascii "/" ++ key
    let expires := P.getStorageEnvInt "S3_UPLOAD_URL_EXPIRES" "MINIO_UPLOAD_URL_EXPIRES" 300
    let upload ← createPresignedUrl P .put P.publicEndpoint P.bucket key expires
    match upload with
    | none => return unavailable
    | some upload =>
      if upload.error?.isSome then return upload
      else return .obj [(ascii "upload_url", (upload.get? (ascii "url")).getD .null),
        (ascii "public_url", .str publicUrl), (ascii "object_key", .str key),
        (ascii "bucket", .str P.bucket), (ascii "content_type", .str contentType),
        (ascii "expires_in", .int expires)]

def createDownloadUrl (P : Platform) (publicUrl : Bytes) : ServiceProg Json :=
  let key := P.objectKey publicUrl
  if key = [] then return .error (ascii "invalid file url")
  else do
    let expires := P.getStorageEnvInt "S3_DOWNLOAD_URL_EXPIRES" "MINIO_DOWNLOAD_URL_EXPIRES" 300
    let download ← createPresignedUrl P .get P.publicEndpoint P.bucket key expires
    match download with
    | none => return unavailable
    | some download =>
      if download.error?.isSome then return download
      else return .obj [(ascii "download_url", (download.get? (ascii "url")).getD .null),
        (ascii "public_url", .str publicUrl), (ascii "object_key", .str key),
        (ascii "bucket", .str P.bucket), (ascii "expires_in", .int expires)]

def removalText : SdkFailure → Bytes
  | .rejected message => message
  | .thrown (.exception what) => ascii "storage delete error: " ++ what
  | .thrown .unknown => ascii "storage delete error"

/-- The error text, or success. -/
def deleteFile (P : Platform) (publicUrl : Bytes) : ServiceProg (Except Bytes Unit) :=
  let key := P.objectKey publicUrl
  if key = [] then return .error (ascii "invalid file url")
  else do
    let result : Except SdkFailure Unit ←
      act (.removeObject (P.minioClient P.internalEndpoint) P.bucket key)
    match result with
    | .ok _ => return .ok ()
    | .error f => return .error (removalText f)

end StorageService

end Service
end ResourceServer

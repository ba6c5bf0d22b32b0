import ResourceServer.Http.Connection

/-!
# The resumable request parser

`process_read` and the functions it calls. A handler is called in tail position, so
`parse_headers` and `parse_content` return which handler runs and on what; the
handlers themselves are in `Http/Handlers.lean`. Every access that `process_read`,
`parse_line` and `parse_content` make to `m_read_buf` goes through `peek` or `poke`.
-/

namespace ResourceServer
namespace Http

open CString

inductive Handler where
  | register | login | logout | getResources | deleteResource | postResource
  | putResource | createUploadUrl | createDownloadUrl | health
  deriving DecidableEq, Repr

/-- A handler call with all it reads from the connection. -/
structure Request where
  handler : Handler
  method : Method
  target : Bytes
  token : Bytes
  body : Bytes
  deriving DecidableEq, Repr

/-- What `process_read` returns: a code of its own, or that of the handler it calls. -/
inductive Verdict where
  | code (c : HttpCode)
  | handler (r : Request)
  deriving DecidableEq, Repr

/-- The scan of `parse_line`, with `n` received bytes left from `m_checked_index`. -/
def parseLineFrom : ℕ → Conn → Except Fault (Conn × LineStatus)
  | 0, c => .ok (c, .lineOpen)
  | n + 1, c => do
    let temp ← c.peek c.checkedIndex
    if temp = cr then
      if c.checkedIndex + 1 = c.readIndex then return (c, .lineOpen)
      else
        let next ← c.peek (c.checkedIndex + 1)
        if next = lf then
          let c ← c.poke c.checkedIndex nul
          let c ← c.poke (c.checkedIndex + 1) nul
          return ({ c with checkedIndex := c.checkedIndex + 2 }, .lineOk)
        else return (c, .lineBad)
    else if temp = lf then
      if 1 < c.checkedIndex then
        let prev ← c.peek (c.checkedIndex - 1)
        if prev = cr then
          let c ← c.poke (c.checkedIndex - 1) nul
          let c ← c.poke c.checkedIndex nul
          return ({ c with checkedIndex := c.checkedIndex + 1 }, .lineOk)
        else return (c, .lineBad)
      else return (c, .lineBad)
    else parseLineFrom n { c with checkedIndex := c.checkedIndex + 1 }

def parseLine (c : Conn) : Except Fault (Conn × LineStatus) :=
  parseLineFrom (c.readIndex - c.checkedIndex) c

def blanks : Bytes := ascii " \t"

abbrev slash : UInt8 := 47

/-- The method comparisons; an unknown token leaves `m_method` as it is. -/
def methodOf (token : Bytes) (current : Method) : Method :=
  if strcasecmp token (ascii "POST") then .post
  else if strcasecmp token (ascii "PUT") then .put
  else if strcasecmp token (ascii "GET") then .get
  else if strcasecmp token (ascii "DELETE") then .delete
  else current

/-- The route comparisons, the last match winning. -/
def routeOf (url : Bytes) (apireq : ℕ) : ℕ :=
  let apireq := if strncmp url (ascii "/api/resources") 14 then 1 else apireq
  let apireq := if strncmp url (ascii "/api/login") 10 then 2 else apireq
  let apireq := if strncmp url (ascii "/api/logout") 11 then 3 else apireq
  let apireq := if strncmp url (ascii "/api/register") 13 then 4 else apireq
  let apireq := if strncmp url (ascii "/api/files/upload-url") 21 then 5 else apireq
  let apireq := if strncmp url (ascii "/api/files/download-url") 23 then 6 else apireq
  if url = ascii "/health" then 7 else apireq

/-- Offset of the path inside the target: behind the authority of an absolute form,
or none when that has no path. -/
def pathOffset (url : Bytes) : Option ℕ :=
  if strncasecmp url (ascii "http://") 7 then (strchr (url.drop 7) slash).map (7 + ·) else some 0

def parseRequestLine (c : Conn) (text : ℕ) : Conn × HttpCode :=
  match strpbrk (c.cstrAt text) blanks with
  | none => ({ c with url := none }, .badRequest)
  | some i =>
    let url := text + i + 1
    let c := { c with url := some url, readBuf := c.readBuf.set (text + i) nul }
    let c := { c with method := methodOf (c.cstrAt text) c.method }
    match strpbrk (c.cstrAt url) blanks with
    | none => ({ c with version := none }, .badRequest)
    | some j =>
      let version := url + j + 1
      let c := { c with version := some version, readBuf := c.readBuf.set (url + j) nul }
      if !strcasecmp (c.cstrAt version) (ascii "HTTP/1.1") then (c, .badRequest)
      else
        let c := { c with apireq := routeOf (c.cstrAt url) c.apireq }
        match pathOffset (c.cstrAt url) with
        | none => ({ c with url := none }, .badRequest)
        | some k =>
          let c := { c with url := some (url + k) }
          if (c.cstrAt (url + k)).head? ≠ some slash then (c, .badRequest)
          else ({ c with checkState := .header }, .noRequest)

def skipBlanks (text : Bytes) : Bytes := text.drop (strspn text blanks)

/-- The effect of one header line on the parser variables. -/
def RequestState.headerLine (s : RequestState) (text : Bytes) : RequestState :=
  if strncasecmp text (ascii "Connection:") 11 then
    let value := skipBlanks (text.drop 11)
    if strcasecmp value (ascii "keep-alive") then { s with linger := true }
    else if strcasecmp value (ascii "close") then { s with linger := false }
    else s
  else if strncasecmp text (ascii "Content-Length:") 15 then
    { s with contentLength := toInt32 (atol (skipBlanks (text.drop 15))) }
  else if strncasecmp text (ascii "Host:") 5 then s
  else if strncasecmp text (ascii "Authorization:") 14 then
    let auth := skipBlanks (text.drop 14)
    if (ascii "Bearer ").isPrefixOf auth then { s with token := auth.drop 7 } else s
  else s

/-- `m_host` after a header line whose text starts at `off`. -/
def hostAfter (host : Option ℕ) (off : ℕ) (text : Bytes) : Option ℕ :=
  if strncasecmp text (ascii "Connection:") 11 then host
  else if strncasecmp text (ascii "Content-Length:") 15 then host
  else if strncasecmp text (ascii "Host:") 5 then some (off + 5 + strspn (text.drop 5) blanks)
  else host

inductive Dispatch where
  | run (h : Handler)
  | content
  | notFound
  deriving DecidableEq, Repr

/-- Where a complete header block leads. -/
def RequestState.endOfHeaders (s : RequestState) : Dispatch :=
  if s.apireq = 1 ∧ s.method = .delete then .run .deleteResource
  else if s.apireq = 1 ∧ s.method = .get then .run .getResources
  else if s.method = .post ∧ (s.apireq = 2 ∨ s.apireq = 3 ∨ s.apireq = 4 ∨ s.apireq = 5) then
    .content
  else if s.apireq = 6 ∧ s.method = .get then .run .createDownloadUrl
  else if s.apireq = 7 ∧ s.method = .get then .run .health
  else if s.contentLength ≠ 0 then .content
  else .notFound

/-- The target string that handlers read through `m_url`. -/
def Conn.target (c : Conn) : Bytes := (c.url.map c.cstrAt).getD []

def Conn.request (c : Conn) (h : Handler) (body : Bytes) : Request where
  handler := h
  method := c.method
  target := c.target
  token := c.token
  body := body

def parseHeaders (c : Conn) (text : ℕ) : Conn × Verdict :=
  let line := c.cstrAt text
  if line = [] then
    match c.endOfHeaders with
    | .run h => (c, .handler (c.request h []))
    | .content => ({ c with checkState := .content }, .code .noRequest)
    | .notFound => (c, .code .noResource)
  else
    ({ c with toRequestState := c.headerLine line, host := hostAfter c.host text line },
      .code .noRequest)

/-- The handler that a body is given to. -/
def RequestState.contentHandler (s : RequestState) : Option Handler :=
  if s.apireq = 1 then
    if s.method = .post then some .postResource
    else if s.method = .put then some .putResource
    else none
  else if s.method = .post ∧ s.apireq = 2 then some .login
  else if s.method = .post ∧ s.apireq = 3 then some .logout
  else if s.method = .post ∧ s.apireq = 4 then some .register
  else if s.method = .post ∧ s.apireq = 5 then some .createUploadUrl
  else none

def parseContent (c : Conn) (text : ℕ) : Except Fault (Conn × Verdict) :=
  let bodyEnd := c.contentLength + c.checkedIndex
  if intMax < bodyEnd then .error .intOverflow
  else if bodyEnd ≤ c.readIndex then do
    let c ← c.poke (text + c.contentLength) nul
    match c.contentHandler with
    | some h => return (c, .handler (c.request h (c.cstrAt text)))
    | none => return (c, .code .noResource)
  else return (c, .code .badRequest)

/-- The `while` loop of `process_read`; `fuel` bounds its iterations. -/
def processReadLoop : ℕ → LineStatus → Conn → Except Fault (Conn × Verdict)
  | 0, _, _ => .error .outOfFuel
  | fuel + 1, status, c => do
    let (c, status) ←
      if c.checkState = .content ∧ status = .lineOk then pure (c, status) else parseLine c
    if status ≠ .lineOk then return (c, .code .noRequest)
    else
      let text := c.startLine
      let c := { c with startLine := c.checkedIndex }
      match c.checkState with
      | .requestLine =>
        match parseRequestLine c text with
        | (c, .badRequest) => return (c, .code .badRequest)
        | (c, _) => processReadLoop fuel status c
      | .header =>
        match parseHeaders c text with
        | (c, .code .noRequest) => processReadLoop fuel status c
        | (c, verdict) => return (c, verdict)
      | .content =>
        match ← parseContent c text with
        | (c, .code .noRequest) => processReadLoop fuel .lineOpen c
        | (c, verdict) => return (c, verdict)

def processRead (c : Conn) : Except Fault (Conn × Verdict) :=
  processReadLoop (c.readIndex + 2) .lineOk c

namespace Conn

/-- One iteration of the loop of `process_read` behind `parse_line`. -/
def afterLine (next : LineStatus → Conn → Except Fault (Conn × Verdict)) (c : Conn)
    (status : LineStatus) : Except Fault (Conn × Verdict) :=
  if status ≠ .lineOk then return (c, .code .noRequest)
  else
    let text := c.startLine
    let c := { c with startLine := c.checkedIndex }
    match c.checkState with
    | .requestLine =>
      match parseRequestLine c text with
      | (c, .badRequest) => return (c, .code .badRequest)
      | (c, _) => next status c
    | .header =>
      match parseHeaders c text with
      | (c, .code .noRequest) => next status c
      | (c, verdict) => return (c, verdict)
    | .content => do
      match ← parseContent c text with
      | (c, .code .noRequest) => next .lineOpen c
      | (c, verdict) => return (c, verdict)

theorem processReadLoop_eq (c : Conn) (fuel : ℕ) (status : LineStatus) :
    processReadLoop (fuel + 1) status c =
      (if c.checkState = .content ∧ status = .lineOk then pure (c, status) else parseLine c) >>=
        fun r => afterLine (processReadLoop fuel) r.1 r.2 := by
  rw [processReadLoop]
  split_ifs <;> rfl

end Conn
end Http
end ResourceServer

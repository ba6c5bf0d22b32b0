import ResourceServer.Foundation.CString

/-!
# Connection state of the HTTP server

One `Conn` is the `http_conn` object of a client socket. `readBuf` holds the first
`m_read_index` cells of `m_read_buf`, with the NULs the parser writes into them; the
cells after it hold the zeros of `init`. Pointers into the buffer are offsets.
-/

namespace ResourceServer
namespace Http

open CString

def readBufferSize : ℕ := 65536
def writeBufferSize : ℕ := 1024

inductive Method where
  | get | post | head | put | delete
  deriving DecidableEq, Repr

inductive CheckState where
  | requestLine | header | content
  deriving DecidableEq, Repr

inductive HttpCode where
  | noRequest | badRequest | noResource | forbiddenRequest | internalError
  | closedConnection | getResource | addResource | updateResource | deleteResource
  deriving DecidableEq, Repr

inductive LineStatus where
  | lineOk | lineBad | lineOpen
  deriving DecidableEq, Repr

/-- Behaviour the language leaves undefined: an access outside `m_read_buf`, or an
`int` sum that overflows. `outOfFuel` would be a parser loop that does not end. -/
inductive Fault where
  | outOfBounds (index : ℤ)
  | intOverflow
  | outOfFuel
  deriving DecidableEq, Repr

/-- The buffer an `iovec` points into. -/
inductive Region where
  | writeBuf | jsonRes
  deriving DecidableEq, Repr

/-- `base = none` is the null pointer. -/
structure Iovec where
  base : Option (Region × ℕ)
  len : ℕ
  deriving DecidableEq, Repr

def Iovec.zero : Iovec := ⟨none, 0⟩

/-- The parser variables that hold plain values. -/
structure RequestState where
  checkState : CheckState
  method : Method
  contentLength : ℤ
  linger : Bool
  token : Bytes
  apireq : ℕ
  deriving DecidableEq, Repr

def RequestState.initial : RequestState where
  checkState := .requestLine
  method := .get
  contentLength := 0
  linger := true
  token := []
  apireq := 0

/-- The response under construction or transmission. -/
structure Outgoing where
  jsonRes : Bytes
  writeBuf : Bytes
  iv0 : Iovec
  iv1 : Iovec
  ivCount : ℕ
  deriving DecidableEq, Repr

def Outgoing.empty : Outgoing where
  jsonRes := []
  writeBuf := []
  iv0 := .zero
  iv1 := .zero
  ivCount := 0

/-- The client socket and its address. -/
structure Peer where
  sockfd : ℤ
  address : Bytes
  deriving DecidableEq, Repr

structure Conn extends Peer, RequestState, Outgoing where
  readBuf : Bytes
  checkedIndex : ℕ
  startLine : ℕ
  url : Option ℕ
  version : Option ℕ
  host : Option ℕ
  deriving DecidableEq, Repr

namespace Conn

/-- `init(sockfd, addr)` of a newly accepted socket: everything but the peer is reset. -/
def accepted (peer : Peer) : Conn where
  toPeer := peer
  toRequestState := .initial
  toOutgoing := .empty
  readBuf := []
  checkedIndex := 0
  startLine := 0
  url := none
  version := none
  host := none

/-- `init()` for the next request. -/
def init (c : Conn) : Conn := accepted c.toPeer

/-- `m_read_index`. -/
def readIndex (c : Conn) : ℕ := c.readBuf.length

/-- The C string at an offset of the read buffer. -/
def cstrAt (c : Conn) (off : ℕ) : Bytes := cstr (c.readBuf.drop off)

/-- Bytes that `recv` stores behind the buffered ones. -/
def receive (c : Conn) (bs : Bytes) : Conn := { c with readBuf := c.readBuf ++ bs }

/-- Read of one cell of `m_read_buf`. -/
def peek (c : Conn) (i : ℤ) : Except Fault UInt8 :=
  if 0 ≤ i ∧ i.toNat < readBufferSize then .ok (c.readBuf.getD i.toNat 0)
  else .error (.outOfBounds i)

/-- Write of one cell of `m_read_buf`. -/
def poke (c : Conn) (i : ℤ) (b : UInt8) : Except Fault Conn :=
  if 0 ≤ i ∧ i.toNat < readBufferSize then .ok { c with readBuf := c.readBuf.set i.toNat b }
  else .error (.outOfBounds i)

end Conn

/-- How a burst of `recv` calls ends. -/
inductive RecvEnd where
  | again | shutdown | error
  deriving DecidableEq, Repr

/-- What the socket delivers to one `read()`: the chunks of successive `recv` calls, the result
behind them, and in `full` what a `recv` of length zero reports with nothing queued, which is
`EAGAIN` on Linux. -/
structure Arrival where
  chunks : List Bytes
  last : RecvEnd
  full : RecvEnd
  deriving DecidableEq, Repr

/-- The `recv` loop. With no room left the next call has length zero, and returns zero if bytes
are still queued. -/
def Conn.readLoop (last full : RecvEnd) : List Bytes → Conn → Conn × Bool
  | [], c =>
    if c.readIndex = readBufferSize then (c, full = .again) else (c, last = .again)
  | chunk :: chunks, c =>
    let got := chunk.take (readBufferSize - c.readIndex)
    if got = [] then (c, false)
    else if got.length < chunk.length then (c.receive got, false)
    else readLoop last full chunks (c.receive got)

def Conn.read (c : Conn) (a : Arrival) : Conn × Bool :=
  if readBufferSize ≤ c.readIndex then (c, false) else c.readLoop a.last a.full a.chunks

end Http
end ResourceServer

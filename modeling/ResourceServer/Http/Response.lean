import ResourceServer.Http.Connection

/-!
# Building and transmitting a response

`process_write` formats a head into `m_write_buf` and queues it with the JSON body in
two `iovec`s; `write` hands them to `writev` until nothing is left. The only memory of
the progress is in the two base and length pairs.
-/

namespace ResourceServer
namespace Http

open CString

namespace Conn

/-- `add_response` of a formatted text; one that does not fit is not added. -/
def addResponse (c : Conn) (text : Bytes) : Conn × Bool :=
  if writeBufferSize ≤ c.writeBuf.length then (c, false)
  else if writeBufferSize - 1 - c.writeBuf.length ≤ text.length then (c, false)
  else ({ c with writeBuf := c.writeBuf ++ text }, true)

def addStatusLine (c : Conn) (status : ℕ) (title : Bytes) : Conn × Bool :=
  c.addResponse (ascii "HTTP/1.1 " ++ Decimal.ofNat status ++ ascii " " ++ title ++ ascii "\r\n")

def addContentType (c : Conn) (type : Bytes) : Conn × Bool :=
  c.addResponse (ascii "Content-Type: " ++ type ++ ascii "\r\n")

def addContentLength (c : Conn) (length : ℤ) : Conn × Bool :=
  c.addResponse (ascii "Content-Length: " ++ Decimal.ofInt length ++ ascii "\r\n")

def addLinger (c : Conn) : Conn × Bool :=
  c.addResponse (ascii "Connection: " ++
    (if c.linger then ascii "keep-alive" else ascii "close") ++ ascii "\r\n")

def addBlankLine (c : Conn) : Conn × Bool := c.addResponse (ascii "\r\n")

/-- `a && b` on formatting steps: the second is not run when the first fails. -/
def andThen (r : Conn × Bool) (f : Conn → Conn × Bool) : Conn × Bool :=
  if r.2 then f r.1 else r

def addHeaders (c : Conn) (length : ℤ) (type : Bytes) : Conn × Bool :=
  andThen (andThen (andThen (c.addContentLength length) (addContentType · type)) addLinger)
    addBlankLine

def addContent (c : Conn) (content : Bytes) : Conn × Bool := c.addResponse content

def queueHead (c : Conn) : Conn :=
  { c with iv0 := ⟨some (.writeBuf, 0), c.writeBuf.length⟩, ivCount := 1 }

def queueJson (c : Conn) : Conn :=
  { c with
    iv0 := ⟨some (.writeBuf, 0), c.writeBuf.length⟩
    iv1 := ⟨some (.jsonRes, 0), c.jsonRes.length⟩
    ivCount := 2 }

def addJsonResponse (c : Conn) (status : ℕ) (title : Bytes) : Conn × Bool :=
  let r := andThen (c.addStatusLine status title)
    (addHeaders · (toInt32 c.jsonRes.length) (ascii "application/json"))
  if r.2 then (r.1.queueJson, true) else r

/-- The text responses: the results of the first two steps are not looked at. -/
def addFormResponse (c : Conn) (status : ℕ) (title form : Bytes) : Conn × Bool :=
  let c := (c.addStatusLine status title).1
  let c := (c.addHeaders form.length (ascii "text")).1
  let r := c.addContent form
  if r.2 then (r.1.queueHead, true) else r

def error400Form : Bytes :=
  ascii "Your request has bad syntax or is inherently impossible to satisfy.\n"
def error403Form : Bytes := ascii "You do not have permission to access this resource.\n"
def error404Form : Bytes := ascii "The requested route was not found on this server.\n"
def error500Form : Bytes := ascii "There was an unusual problem serving the request.\n"

def processWrite (c : Conn) : HttpCode → Conn × Bool
  | .internalError => c.addFormResponse 500 (ascii "Internal Error") error500Form
  | .badRequest =>
    if c.jsonRes ≠ [] then c.addJsonResponse 400 (ascii "Bad Request")
    else c.addFormResponse 400 (ascii "Bad Request") error400Form
  | .noResource => c.addFormResponse 404 (ascii "Not Found") error404Form
  | .forbiddenRequest => c.addFormResponse 403 (ascii "Forbidden") error403Form
  | .getResource | .addResource | .updateResource | .deleteResource =>
    c.addJsonResponse 200 (ascii "OK")
  | .noRequest | .closedConnection => (c, false)

end Conn

/-- Result of one `writev`: a byte count, or -1 with `EAGAIN` or another error. -/
inductive WritevResult where
  | sent (n : ℕ)
  | again
  | error
  deriving DecidableEq, Repr

/-- How one `write()` ends: it waits for `EPOLLOUT`, it re-initialises the connection
for the next request, it returns false behind a `Connection: close` response, or it
returns false on an error. -/
inductive WriteEnd where
  | blocked | finished | closing | failed
  deriving DecidableEq, Repr

/-- The bytes an `iovec` stands for. -/
def Iovec.bytes (iv : Iovec) (region : Region → Bytes) : Bytes :=
  match iv.base with
  | none => []
  | some (r, off) => ((region r).drop off).take iv.len

def Iovec.advance (iv : Iovec) (n : ℕ) : Iovec where
  base := iv.base.map fun (r, off) => (r, off + n)
  len := iv.len - n

namespace Conn

def region (c : Conn) : Region → Bytes
  | .writeBuf => c.writeBuf
  | .jsonRes => c.jsonRes

/-- What `writev` is offered. -/
def offered (c : Conn) : Bytes :=
  c.iv0.bytes c.region ++ if c.ivCount = 2 then c.iv1.bytes c.region else []

def bytesToSend (c : Conn) : ℤ :=
  toInt32 (c.iv0.len + if c.ivCount = 2 then c.iv1.len else 0 : ℕ)

/-- The second `iovec` after `n` bytes went out behind the first. -/
def advanceBody (c : Conn) (n : ℕ) : Conn :=
  if c.ivCount = 2 ∧ 0 < n then { c with iv1 := c.iv1.advance n } else c

/-- Both `iovec`s after `n` bytes that reach the end of the first. -/
def passHead (c : Conn) (n : ℕ) : Conn :=
  if 0 < c.iv0.len then advanceBody { c with iv0 := .zero } (n - c.iv0.len) else c.advanceBody n

/-- The `writev` loop with the bytes it hands to the socket. When no result is left the
socket is full. -/
def writeLoop : List WritevResult → Conn → Conn × Bytes × WriteEnd
  | [], c => (c, [], .blocked)
  | .again :: _, c => (c, [], .blocked)
  | .error :: _, c => (c, [], .failed)
  | .sent n :: results, c =>
    let out := c.offered.take n
    if 0 < c.iv0.len ∧ (out.length : ℤ) < toInt32 c.iv0.len then
      let r := writeLoop results { c with iv0 := c.iv0.advance out.length }
      (r.1, out ++ r.2.1, r.2.2)
    else
      let c := c.passHead out.length
      if c.bytesToSend ≤ 0 then
        if c.linger then (c.init, out, .finished) else (c, out, .closing)
      else
        let r := writeLoop results c
        (r.1, out ++ r.2.1, r.2.2)

def write (results : List WritevResult) (c : Conn) : Conn × Bytes × WriteEnd :=
  if c.bytesToSend = 0 then (c.init, [], .finished) else c.writeLoop results

/-- `write()` calls on successive `EPOLLOUT` events, up to the one that ends the
response. -/
def transmit : List (List WritevResult) → Conn → Conn × Bytes × WriteEnd
  | [], c => (c, [], .blocked)
  | results :: calls, c =>
    let w := c.write results
    if w.2.2 = .blocked then
      let r := transmit calls w.1
      (r.1, w.2.1 ++ r.2.1, r.2.2)
    else w

end Conn

/-- `iv` stands for `bs`, all of it inside its buffer. -/
structure Iovec.Holds (iv : Iovec) (region : Region → Bytes) (bs : Bytes) : Prop where
  bytes_eq : iv.bytes region = bs
  len_eq : iv.len = bs.length

theorem Iovec.Holds.advance {iv : Iovec} {region : Region → Bytes} {bs : Bytes}
    (h : iv.Holds region bs) (n : ℕ) : (iv.advance n).Holds region (bs.drop n) := by
  obtain ⟨rfl, hlen⟩ := h
  refine ⟨?_, by simp [Iovec.advance, hlen]⟩
  cases hb : iv.base with
  | none => simp [Iovec.bytes, Iovec.advance, hb]
  | some p => simp [Iovec.bytes, Iovec.advance, hb, List.drop_take]

theorem Iovec.holds_zero (region : Region → Bytes) : Iovec.zero.Holds region [] := ⟨rfl, rfl⟩

/-- `head` and `body` are what is left to send, queued in one `iovec` or in two. -/
structure Sending (c : Conn) (head body : Bytes) : Prop where
  count : c.ivCount = 1 ∨ c.ivCount = 2
  first : c.iv0.Holds c.region head
  second : c.ivCount = 2 → c.iv1.Holds c.region body
  single : c.ivCount = 1 → body = []
  size : ((head ++ body).length : ℤ) ≤ intMax

namespace Sending

variable {c : Conn} {head body : Bytes}

theorem offered (hs : Sending c head body) : c.offered = head ++ body := by
  rcases hs.count with hc | hc
  · simp [Conn.offered, hs.first.bytes_eq, hc, hs.single hc]
  · simp [Conn.offered, hs.first.bytes_eq, hc, (hs.second hc).bytes_eq]

theorem bytesToSend (hs : Sending c head body) : c.bytesToSend = (head ++ body).length := by
  have hlen : (c.iv0.len + if c.ivCount = 2 then c.iv1.len else 0) = (head ++ body).length := by
    rcases hs.count with hc | hc
    · simp [hs.first.len_eq, hc, hs.single hc]
    · simp [hs.first.len_eq, hc, (hs.second hc).len_eq]
  have hsize := hs.size
  rw [Conn.bytesToSend, hlen, toInt32_of_range (by omega) hsize]

theorem head_len (hs : Sending c head body) : toInt32 c.iv0.len = head.length := by
  have hsize := hs.size
  rw [List.length_append] at hsize
  rw [hs.first.len_eq, toInt32_of_range (by omega) (by omega)]

/-- A count that ends inside the head. -/
theorem advance_head (hs : Sending c head body) (n : ℕ) :
    Sending { c with iv0 := c.iv0.advance n } (head.drop n) body where
  count := hs.count
  first := hs.first.advance n
  second := hs.second
  single := hs.single
  size := by
    have hsize := hs.size
    simp only [List.length_append, List.length_drop] at hsize ⊢
    omega

/-- The head is out; a spent first `iovec` is cleared. -/
theorem clear_head (hs : Sending c head body) : Sending { c with iv0 := .zero } [] body where
  count := hs.count
  first := Iovec.holds_zero _
  second := hs.second
  single := hs.single
  size := by
    have hsize := hs.size
    simp only [List.length_append, List.length_nil] at hsize ⊢
    omega

theorem advance_body (hs : Sending c [] body) (n : ℕ) :
    Sending (c.advanceBody n) [] (body.drop n) := by
  have hsize : (([] ++ body.drop n : Bytes).length : ℤ) ≤ intMax := by
    have hsize := hs.size
    simp only [List.length_append, List.length_drop, List.length_nil] at hsize ⊢
    omega
  unfold Conn.advanceBody
  split
  · exact ⟨hs.count, hs.first, fun hc => (hs.second hc).advance n,
      fun hc => by simp [hs.single hc], hsize⟩
  · rename_i hstay
    have hdrop : body.drop n = body := by
      rcases hs.count with hc | hc
      · simp [hs.single hc]
      · have : n = 0 := by omega
        rw [this, List.drop_zero]
    rw [hdrop] at hsize ⊢
    exact hs

end Sending

@[simp] theorem advanceBody_linger (c : Conn) (n : ℕ) : (c.advanceBody n).linger = c.linger := by
  unfold Conn.advanceBody
  split <;> rfl

@[simp] theorem advanceBody_toPeer (c : Conn) (n : ℕ) : (c.advanceBody n).toPeer = c.toPeer := by
  unfold Conn.advanceBody
  split <;> rfl

theorem passHead_linger (c : Conn) (n : ℕ) : (c.passHead n).linger = c.linger := by
  unfold Conn.passHead
  split_ifs <;> simp

theorem passHead_toPeer (c : Conn) (n : ℕ) : (c.passHead n).toPeer = c.toPeer := by
  unfold Conn.passHead
  split_ifs <;> simp

theorem passHead_init (c : Conn) (n : ℕ) : (c.passHead n).init = c.init := by
  rw [Conn.init, passHead_toPeer, Conn.init]

/-- The result of sending while `left` is to be sent: nothing is repeated or skipped,
and an ended response is out whole. -/
inductive Transmits (c : Conn) (left : Bytes) : Conn × Bytes × WriteEnd → Prop where
  | blocked (c' : Conn) (out head body : Bytes) (hlinger : c'.linger = c.linger)
      (hpeer : c'.toPeer = c.toPeer) (hs : Sending c' head body)
      (hleft : out ++ (head ++ body) = left) : Transmits c left (c', out, .blocked)
  | finished : Transmits c left (c.init, left, .finished)
  | closing (c' : Conn) (hlinger : c.linger = false) : Transmits c left (c', left, .closing)
  | failed (c' : Conn) (out : Bytes) (hout : out <+: left) : Transmits c left (c', out, .failed)

theorem Transmits.append {c c' : Conn} {left : Bytes} {r : Conn × Bytes × WriteEnd}
    (hr : Transmits c' left r) (out : Bytes) (hlinger : c'.linger = c.linger)
    (hpeer : c'.toPeer = c.toPeer) :
    Transmits c (out ++ left) (r.1, out ++ r.2.1, r.2.2) := by
  cases hr with
  | blocked d more head body hl hp hs hleft =>
    exact .blocked d _ head body (hl.trans hlinger) (hp.trans hpeer) hs
      (by rw [List.append_assoc, hleft])
  | finished =>
    have : c'.init = c.init := by rw [Conn.init, hpeer, Conn.init]
    rw [this]
    exact .finished
  | closing d hl => exact .closing d (hlinger ▸ hl)
  | failed d more hmore => exact .failed d _ ((List.prefix_append_right_inj out).mpr hmore)

/-- `c` after `k` sent bytes that reach the end of the head. -/
theorem Sending.pass_head {c : Conn} {head body : Bytes} (hs : Sending c head body) {k : ℕ}
    (hk : head.length ≤ k) :
    Sending (c.passHead k) [] (body.drop (k - head.length)) := by
  rw [Conn.passHead, hs.first.len_eq]
  by_cases hhead : 0 < head.length
  · rw [if_pos hhead]
    exact hs.clear_head.advance_body _
  · have hnil : head = [] := List.length_eq_zero_iff.mp (by omega)
    subst hnil
    rw [if_neg hhead]
    exact hs.advance_body k

/-- One `writev` that takes `n` bytes. -/
theorem writeLoop_sent {c : Conn} {head body : Bytes} (hs : Sending c head body) (n : ℕ)
    (results : List WritevResult)
    (ih : ∀ {c : Conn} {head body : Bytes}, Sending c head body →
      Transmits c (head ++ body) (c.writeLoop results)) :
    Transmits c (head ++ body) (c.writeLoop (.sent n :: results)) := by
  rw [Conn.writeLoop, hs.offered, hs.head_len, hs.first.len_eq]
  obtain ⟨k, hk, htake⟩ : ∃ k ≤ (head ++ body).length, (head ++ body).take n = (head ++ body).take k :=
    ⟨min n (head ++ body).length, Nat.min_le_right _ _, List.take_eq_take_min⟩
  have hlen : ((head ++ body).take k).length = k := List.length_take_of_le hk
  rw [htake, hlen]
  by_cases hin : 0 < head.length ∧ (k : ℤ) < head.length
  · -- the count ends inside the head
    have hkhead : k ≤ head.length := by omega
    have hleft : (head ++ body).take k ++ (head.drop k ++ body) = head ++ body := by
      rw [List.take_append_of_le_length hkhead, ← List.append_assoc, List.take_append_drop]
    have hrest := (ih (hs.advance_head k)).append (c := c) ((head ++ body).take k) rfl rfl
    rw [if_pos hin]
    rw [hleft] at hrest
    exact hrest
  · -- the head is out, and the rest of the count goes to the body
    have hhead : head.length ≤ k := by omega
    have hpass := hs.pass_head hhead
    have hleft : (head ++ body).take k ++ ([] ++ body.drop (k - head.length)) = head ++ body := by
      rw [List.take_append, List.take_of_length_le hhead, List.nil_append, List.append_assoc,
        List.take_append_drop]
    rw [if_neg hin]
    dsimp only
    rw [hpass.bytesToSend, passHead_linger, passHead_init]
    by_cases hdone : body.drop (k - head.length) = []
    · rw [hdone, List.append_nil, List.append_nil] at hleft
      rw [hdone, if_pos (by simp)]
      rw [hleft]
      cases hl : c.linger with
      | true => exact .finished
      | false => exact .closing _ hl
    · have hpos : ¬ ((([] ++ body.drop (k - head.length) : Bytes).length : ℤ) ≤ 0) := by
        rw [List.nil_append]
        have := List.length_pos_iff.mpr hdone
        omega
      have hrest := (ih hpass).append ((head ++ body).take k)
        (passHead_linger c k) (passHead_toPeer c k)
      rw [if_neg hpos]
      rw [hleft] at hrest
      exact hrest

theorem writeLoop_spec (results : List WritevResult) {c : Conn} {head body : Bytes}
    (hs : Sending c head body) : Transmits c (head ++ body) (c.writeLoop results) := by
  induction results generalizing c head body with
  | nil => exact .blocked c [] head body rfl rfl hs rfl
  | cons r results ih =>
    cases r with
    | sent n => exact writeLoop_sent hs n results ih
    | again => exact .blocked c [] head body rfl rfl hs rfl
    | error => exact .failed c [] List.nil_prefix

theorem write_spec (results : List WritevResult) {c : Conn} {head body : Bytes}
    (hs : Sending c head body) : Transmits c (head ++ body) (c.write results) := by
  rw [Conn.write, hs.bytesToSend]
  by_cases hnil : head ++ body = []
  · rw [hnil]
    exact .finished
  · have hlen : ¬ ((head ++ body).length : ℤ) = 0 := by
      rw [Int.natCast_eq_zero, List.length_eq_zero_iff]
      exact hnil
    rw [if_neg hlen]
    exact writeLoop_spec results hs

theorem transmit_spec (calls : List (List WritevResult)) {c : Conn} {head body : Bytes}
    (hs : Sending c head body) : Transmits c (head ++ body) (c.transmit calls) := by
  induction calls generalizing c head body with
  | nil => exact .blocked c [] head body rfl rfl hs rfl
  | cons results calls ih =>
    have hwrite := write_spec results hs
    rw [Conn.transmit]
    generalize c.write results = w at hwrite
    cases hwrite with
    | blocked d out head' body' hl hp hs' hleft =>
      rw [← hleft]
      exact (ih hs').append out hl hp
    | finished => exact .finished
    | closing d hl => exact .closing d hl
    | failed d out hout => exact .failed d out hout

/-- A response that ends on a kept connection leaves it as `init()` does, whatever was
queued. -/
theorem writeLoop_finished (results : List WritevResult) {c c' : Conn} {out : Bytes}
    (hwrite : c.writeLoop results = (c', out, .finished)) : c' = c.init := by
  induction results generalizing c out with
  | nil => simp [Conn.writeLoop] at hwrite
  | cons r results ih =>
    cases r with
    | again => simp [Conn.writeLoop] at hwrite
    | error => simp [Conn.writeLoop] at hwrite
    | sent n =>
      rw [Conn.writeLoop] at hwrite
      dsimp only at hwrite
      split_ifs at hwrite
      · simp only [Prod.mk.injEq] at hwrite
        exact ih (c := { c with iv0 := c.iv0.advance (c.offered.take n).length })
          (Prod.ext hwrite.1 (Prod.ext rfl hwrite.2.2))
      · simp only [Prod.mk.injEq] at hwrite
        rw [← hwrite.1, passHead_init]
      · simp at hwrite
      · simp only [Prod.mk.injEq] at hwrite
        rw [← passHead_init c (c.offered.take n).length]
        exact ih (Prod.ext hwrite.1 (Prod.ext rfl hwrite.2.2))

theorem write_finished {results : List WritevResult} {c c' : Conn} {out : Bytes}
    (hwrite : c.write results = (c', out, .finished)) : c' = c.init := by
  unfold Conn.write at hwrite
  split_ifs at hwrite
  · cases hwrite
    rfl
  · exact writeLoop_finished results hwrite

/-- Whatever `writev` accepts and however often `write()` is re-entered, the socket gets
a prefix of the response, and all of it when the response ends. -/
theorem response_exactly_once (c : Conn) (head body : Bytes) (hs : Sending c head body)
    (calls : List (List WritevResult)) :
    (c.transmit calls).2.1 <+: head ++ body ∧
      ((c.transmit calls).2.2 = .finished →
        (c.transmit calls).2.1 = head ++ body ∧ (c.transmit calls).1 = c.init) ∧
      ((c.transmit calls).2.2 = .closing →
        (c.transmit calls).2.1 = head ++ body ∧ c.linger = false) := by
  have hspec := transmit_spec calls hs
  generalize c.transmit calls = r at hspec
  cases hspec with
  | blocked c' out head' body' hl hp hs' hleft => exact ⟨⟨_, hleft⟩, nofun, nofun⟩
  | finished => exact ⟨List.prefix_rfl, fun _ => ⟨rfl, rfl⟩, nofun⟩
  | closing c' hl => exact ⟨List.prefix_rfl, nofun, fun _ => ⟨rfl, hl⟩⟩
  | failed c' out hout => exact ⟨hout, nofun, nofun⟩

/-- A short response, queued in two `iovec`s. -/
def shortResponse : Conn :=
  Conn.queueJson { Conn.accepted ⟨5, []⟩ with
    writeBuf := ascii "HTTP/1.1 200 OK\r\n\r\n"
    jsonRes := ascii "\x7b\x7d" }

theorem shortResponse_exactly_once :
    Sending shortResponse (ascii "HTTP/1.1 200 OK\r\n\r\n") (ascii "\x7b\x7d") ∧
      (shortResponse.transmit [[.sent 4, .again], [.sent 16, .sent 5]]).2.1 =
        ascii "HTTP/1.1 200 OK\r\n\r\n" ++ ascii "\x7b\x7d" := by
  have hs : Sending shortResponse (ascii "HTTP/1.1 200 OK\r\n\r\n") (ascii "\x7b\x7d") :=
    ⟨Or.inr rfl, ⟨by decide, by decide⟩, fun _ => ⟨by decide, by decide⟩, nofun, by decide⟩
  have hend : (shortResponse.transmit [[.sent 4, .again], [.sent 16, .sent 5]]).2.2 = .finished := by
    decide +kernel
  exact ⟨hs, ((response_exactly_once _ _ _ hs _).2.1 hend).1⟩

/-- `r` is `c` with at most `n` more formatted bytes. -/
structure Appends (c : Conn) (r : Conn × Bool) (n : ℕ) : Prop where
  ok : r.2 = true
  text : ∃ t : Bytes, t.length ≤ n ∧ r.1 = { c with writeBuf := c.writeBuf ++ t }

namespace Appends

theorem addResponse (c : Conn) (text : Bytes) {n : ℕ} (htext : text.length ≤ n)
    (hfit : c.writeBuf.length + n < writeBufferSize - 1) : Appends c (c.addResponse text) n := by
  have h1 : ¬ writeBufferSize ≤ c.writeBuf.length := by omega
  have h2 : ¬ writeBufferSize - 1 - c.writeBuf.length ≤ text.length := by omega
  rw [Conn.addResponse, if_neg h1, if_neg h2]
  exact ⟨rfl, text, htext, rfl⟩

theorem andThen {c : Conn} {r : Conn × Bool} {f : Conn → Conn × Bool} {m n : ℕ}
    (hr : Appends c r m) (hf : ∀ d : Conn, d.linger = c.linger →
      d.writeBuf.length ≤ c.writeBuf.length + m → Appends d (f d) n) :
    Appends c (Conn.andThen r f) (m + n) := by
  obtain ⟨hok, t, ht, hr1⟩ := hr
  rw [Conn.andThen, if_pos hok, hr1]
  obtain ⟨hok', t', ht', hf1⟩ := hf { c with writeBuf := c.writeBuf ++ t } rfl (by simp [ht])
  exact ⟨hok', t ++ t', by simp; omega, by rw [hf1]; simp⟩

theorem addHeaders (c : Conn) {length : ℤ} (h1 : -2 ^ 31 ≤ length) (h2 : length ≤ intMax)
    {type : Bytes} (htype : type.length ≤ 16)
    (hfit : c.writeBuf.length + 87 < writeBufferSize - 1) :
    Appends c (c.addHeaders length type) 87 := by
  have hlength := Decimal.ofInt_length h1 h2
  have hcl : Appends c (c.addContentLength length) 29 :=
    addResponse c _ (by simp [ascii]; omega) (by omega)
  have hct := hcl.andThen (f := (·.addContentType type)) (n := 32) fun d _ hd =>
    addResponse d _ (by simp [ascii]; omega) (by omega)
  have hli := hct.andThen (f := Conn.addLinger) (n := 24) fun d _ hd =>
    addResponse d _ (by cases d.linger <;> decide) (by omega)
  exact hli.andThen (f := Conn.addBlankLine) (n := 2) fun d _ hd =>
    addResponse d _ (by decide) (by omega)

end Appends

/-- `r` is a queued response of `c`, in transmission if an `int` counts its bytes. -/
structure Queues (c : Conn) (r : Conn × Bool) : Prop where
  ok : r.2 = true
  linger : r.1.linger = c.linger
  peer : r.1.toPeer = c.toPeer
  sending : (r.1.offered.length : ℤ) ≤ intMax → ∃ head body, Sending r.1 head body

theorem queueJson_queues (c : Conn) (text : Bytes) :
    Queues c (Conn.queueJson { c with writeBuf := text }, true) := by
  have hfirst : (Conn.queueJson { c with writeBuf := text }).iv0.bytes
      (Conn.queueJson { c with writeBuf := text }).region = text := by
    simp [Conn.queueJson, Iovec.bytes, Conn.region]
  have hsecond : (Conn.queueJson { c with writeBuf := text }).iv1.bytes
      (Conn.queueJson { c with writeBuf := text }).region = c.jsonRes := by
    simp [Conn.queueJson, Iovec.bytes, Conn.region]
  have hoffered : (Conn.queueJson { c with writeBuf := text }).offered = text ++ c.jsonRes := by
    rw [Conn.offered, hfirst, hsecond]
    rfl
  refine ⟨rfl, rfl, rfl, fun hsize => ⟨text, c.jsonRes, Or.inr rfl, ⟨hfirst, rfl⟩,
    fun _ => ⟨hsecond, rfl⟩, nofun, ?_⟩⟩
  rwa [hoffered] at hsize

theorem queueHead_queues (c : Conn) (text : Bytes) :
    Queues c (Conn.queueHead { c with writeBuf := text }, true) := by
  have hfirst : (Conn.queueHead { c with writeBuf := text }).iv0.bytes
      (Conn.queueHead { c with writeBuf := text }).region = text := by
    simp [Conn.queueHead, Iovec.bytes, Conn.region]
  have hoffered : (Conn.queueHead { c with writeBuf := text }).offered = text ++ [] := by
    rw [Conn.offered, hfirst]
    rfl
  refine ⟨rfl, rfl, rfl, fun hsize => ⟨text, [], Or.inl rfl, ⟨hfirst, rfl⟩, nofun, fun _ => rfl, ?_⟩⟩
  rwa [hoffered] at hsize

theorem addJsonResponse_queues {c : Conn} (hbuf : c.writeBuf = []) {status : ℕ} {title : Bytes}
    (htitle : title.length ≤ 14) (hstatus : status < 10 ^ 3) :
    Queues c (c.addJsonResponse status title) := by
  have hdigits := Decimal.ofNat_length (by decide) hstatus
  have hline : Appends c (c.addStatusLine status title) 29 :=
    Appends.addResponse c _ (by simp [ascii]; omega) (by simp [hbuf, writeBufferSize])
  have hsize : writeBufferSize = 1024 := rfl
  obtain ⟨hok, t, ht, heq⟩ := hline.andThen
    (f := (·.addHeaders (toInt32 c.jsonRes.length) (ascii "application/json"))) fun d _ hd =>
      Appends.addHeaders d (toInt32_range _).1 (toInt32_range _).2 (by decide)
        (by simp only [hbuf, List.length_nil] at hd; omega)
  unfold Conn.addJsonResponse
  dsimp only
  rw [if_pos hok, heq]
  exact queueJson_queues c _

theorem addFormResponse_queues {c : Conn} (hbuf : c.writeBuf = []) {status : ℕ}
    {title form : Bytes} (htitle : title.length ≤ 14) (hstatus : status < 10 ^ 3)
    (hform : form.length ≤ 100) : Queues c (c.addFormResponse status title form) := by
  have hdigits := Decimal.ofNat_length (by decide) hstatus
  have hsize : writeBufferSize = 1024 := rfl
  obtain ⟨-, t₁, ht₁, heq₁⟩ : Appends c (c.addStatusLine status title) 29 :=
    Appends.addResponse c _ (by simp [ascii]; omega) (by simp [hbuf, writeBufferSize])
  obtain ⟨-, t₂, ht₂, heq₂⟩ : Appends { c with writeBuf := c.writeBuf ++ t₁ }
      (Conn.addHeaders { c with writeBuf := c.writeBuf ++ t₁ } form.length (ascii "text")) 87 :=
    Appends.addHeaders _ (by omega) (by norm_num [intMax]; omega) (by decide)
      (by simp only [hbuf, List.nil_append]; omega)
  obtain ⟨hok, t₃, ht₃, heq₃⟩ : Appends { c with writeBuf := c.writeBuf ++ t₁ ++ t₂ }
      (Conn.addContent { c with writeBuf := c.writeBuf ++ t₁ ++ t₂ } form) 100 :=
    Appends.addResponse _ _ hform (by simp only [hbuf, List.nil_append, List.length_append]; omega)
  unfold Conn.addFormResponse
  rw [heq₁]
  dsimp only
  rw [heq₂]
  dsimp only
  rw [if_pos hok, heq₃]
  exact queueHead_queues c _

theorem processWrite_queues {c : Conn} (hbuf : c.writeBuf = []) {code : HttpCode} (h1 : code ≠ .noRequest)
    (h2 : code ≠ .closedConnection) : Queues c (c.processWrite code) := by
  cases code with
  | noRequest => exact absurd rfl h1
  | closedConnection => exact absurd rfl h2
  | badRequest =>
    unfold Conn.processWrite
    split_ifs
    · exact addJsonResponse_queues hbuf (by decide) (by decide)
    · exact addFormResponse_queues hbuf (by decide) (by decide) (by decide)
  | internalError | noResource | forbiddenRequest =>
    exact addFormResponse_queues hbuf (by decide) (by decide) (by decide)
  | getResource | addResource | updateResource | deleteResource =>
    exact addJsonResponse_queues hbuf (by decide) (by decide)

end Http
end ResourceServer

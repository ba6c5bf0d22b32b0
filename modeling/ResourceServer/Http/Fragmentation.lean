import ResourceServer.Http.Receiving
import ResourceServer.Http.Verdict

/-!
# Requests that arrive in pieces

A complete request is cut into chunks and each chunk goes through one `read()` and one
`process_read()`. The head of the request may be cut anywhere. Its body may not: when
the header block ends, `parse_content` answers at once, whether or not the body is
there.
-/

namespace ResourceServer
namespace Http

open CString

def lines (ls : List Bytes) : Bytes := ls.flatMap (· ++ crlf)

@[simp] theorem lines_nil : lines [] = [] := rfl

@[simp] theorem lines_cons (line : Bytes) (ls : List Bytes) :
    lines (line :: ls) = line ++ crlf ++ lines ls := rfl

def requestMethod (line : Bytes) : Method :=
  match strpbrk (cstr line) blanks with
  | none => .get
  | some i => methodOf ((cstr line).take i) .get

def declaredLength (headers : List Bytes) : ℤ :=
  (headers.foldl (fun s line => s.headerLine (cstr line)) RequestState.initial).contentLength

/-- A request as a client sends it: lines without CR or LF, the blank line, and a body. -/
structure RequestText where
  requestLine : Bytes
  headers : List Bytes
  body : Bytes
  plain : ∀ line ∈ requestLine :: headers, ∀ b ∈ line, notEol b
  headers_ne_nil : ∀ line ∈ headers, cstr line ≠ []

namespace RequestText

def bytes (r : RequestText) : Bytes := lines (r.requestLine :: r.headers) ++ crlf ++ r.body

end RequestText

/-- One request with a body of the announced length for `POST` and `PUT` only. -/
structure CompleteRequest extends RequestText where
  body_length : (body.length : ℤ) =
    if requestMethod requestLine = .post ∨ requestMethod requestLine = .put then
      declaredLength headers
    else 0
  size : (lines (requestLine :: headers) ++ crlf ++ body).length < readBufferSize

/-- A cut of `bytes` into non-empty chunks. -/
structure Chunking (bytes : Bytes) where
  before : List Bytes
  last : Bytes
  nonempty : ∀ chunk ∈ before ++ [last], chunk ≠ []
  flatten : (before ++ [last]).flatten = bytes

/-- All bytes at once. -/
def Chunking.whole {bytes : Bytes} (hbytes : bytes ≠ []) : Chunking bytes where
  before := []
  last := bytes
  nonempty := by simpa using hbytes
  flatten := by simp

/-- One `read()` that gets `chunk`, with nothing queued behind it, and one `process_read()`;
`none` if `read()` fails. -/
def Conn.round (c : Conn) (chunk : Bytes) : Option (Except Fault (Conn × Verdict)) :=
  match c.read ⟨[chunk], .again, .again⟩ with
  | (c, true) => some (processRead c)
  | (_, false) => none

/-- Rounds that all return `NO_REQUEST`. -/
def Conn.feed : Conn → List Bytes → Option Conn
  | c, [] => some c
  | c, chunk :: chunks =>
    match c.round chunk with
    | some (.ok (c, .code .noRequest)) => c.feed chunks
    | _ => none

/-- Every chunk before the last returns `NO_REQUEST`, and the last one has the verdict
of the request sent whole: the same code, or the same handler with the same method,
target, token and body. -/
def FragmentationIndependent (c : Conn) (r : CompleteRequest) (cut : Chunking r.bytes) : Prop :=
  ∃ c', c.init.feed cut.before = some c' ∧
    (c'.round cut.last).map (Except.map Prod.snd) = (c.init.round r.bytes).map (Except.map Prod.snd)

/-- How many bytes make `process_read` answer: those up to the end of the header block,
or a request line that is rejected. -/
def RequestText.decisionPoint (r : RequestText) : ℕ :=
  match Head.initial.requestLine (cstr r.requestLine) with
  | none => (lines [r.requestLine]).length
  | some _ => (lines (r.requestLine :: r.headers) ++ crlf).length

theorem nextLine_take (line rest : Bytes) (hplain : ∀ b ∈ line, notEol b) (n : ℕ) :
    nextLine ((line ++ crlf ++ rest).take n) =
      if n < line.length + 2 then none else some (line, rest.take (n - (line.length + 2))) := by
  split
  · rename_i hlt
    cases hfound : nextLine ((line ++ crlf ++ rest).take n) with
    | none => rfl
    | some found =>
      obtain ⟨line', rest'⟩ := found
      have hlen := nextLine_length hfound
      have happ := nextLine_append hfound ((line ++ crlf ++ rest).drop n)
      rw [List.take_append_drop] at happ
      have hwhole : nextLine (line ++ crlf ++ rest) = some (line, rest) :=
        nextLine_eq_some.mpr ⟨by simp [crlf], hplain⟩
      rw [hwhole] at happ
      simp only [Option.some.injEq, Prod.mk.injEq] at happ
      rw [List.length_take, ← happ.1] at hlen
      omega
  · rename_i hge
    refine nextLine_eq_some.mpr ⟨?_, hplain⟩
    have : (line ++ crlf).length = line.length + 2 := by simp [crlf]
    rw [List.take_append, List.take_of_length_le (by omega), this]
    simp [crlf]

namespace Head

theorem read_incomplete_take {h : Head} (line rest : Bytes) (hplain : ∀ b ∈ line, notEol b)
    {n : ℕ} (hn : n < line.length + 2) :
    (h.read ((line ++ crlf ++ rest).take n)).IsIncomplete := by
  rw [read_none (by rw [nextLine_take line rest hplain, if_pos hn])]
  trivial

theorem read_headers_take (h : Head) (hstate : h.state.checkState = .header)
    (headers : List Bytes) (hplain : ∀ line ∈ headers, ∀ b ∈ line, notEol b)
    (hne : ∀ line ∈ headers, cstr line ≠ []) (rest : Bytes) (n : ℕ) :
    if n < (lines headers ++ crlf).length then
      (h.read ((lines headers ++ crlf ++ rest).take n)).IsIncomplete
    else
      h.read ((lines headers ++ crlf ++ rest).take n) =
        .complete (headers.foldl (fun h line => h.headerLine (cstr line)) h)
          (rest.take (n - (lines headers ++ crlf).length)) := by
  induction headers generalizing h n with
  | nil =>
    split
    · rename_i hn
      exact read_incomplete_take [] rest (by simp) hn
    · rename_i hn
      have hline := nextLine_take [] rest (by simp) n
      rw [if_neg (show ¬ n < ([] : Bytes).length + 2 from hn)] at hline
      exact (read_some hline).trans (by simp [hstate, cstr, crlf])
  | cons line headers ih =>
    have hbytes : lines (line :: headers) ++ crlf ++ rest =
        line ++ crlf ++ (lines headers ++ crlf ++ rest) := by simp
    have hlen : (lines (line :: headers) ++ crlf).length =
        line.length + 2 + (lines headers ++ crlf).length := by simp [crlf]; omega
    have hline := nextLine_take line (lines headers ++ crlf ++ rest)
      (hplain line List.mem_cons_self) n
    rw [hbytes, hlen]
    by_cases hn : n < line.length + 2
    · rw [if_pos (by omega)]
      exact read_incomplete_take line _ (hplain line List.mem_cons_self) hn
    · rw [if_neg hn] at hline
      have hnot : ¬ h.state.checkState = .requestLine := by simp [hstate]
      have hnext := ih (h.headerLine (cstr line)) (by rw [headerLine, RequestState.headerLine_checkState, hstate])
        (fun l hl => hplain l (List.mem_cons_of_mem _ hl))
        (fun l hl => hne l (List.mem_cons_of_mem _ hl)) (n - (line.length + 2))
      rw [read_some hline, if_neg hnot, if_neg (hne line List.mem_cons_self), List.foldl_cons]
      by_cases hend : n < line.length + 2 + (lines headers ++ crlf).length
      · rw [if_pos (by omega)] at hnext
        rw [if_pos hend]
        exact hnext
      · rw [if_neg (by omega), Nat.sub_sub] at hnext
        rw [if_neg hend]
        exact hnext

end Head

namespace RequestText

theorem bytes_eq (r : RequestText) :
    r.bytes = r.requestLine ++ crlf ++ (lines r.headers ++ crlf ++ r.body) := by
  simp [bytes]

theorem requestLine_plain (r : RequestText) : ∀ b ∈ r.requestLine, notEol b :=
  r.plain r.requestLine List.mem_cons_self

theorem headers_plain (r : RequestText) : ∀ line ∈ r.headers, ∀ b ∈ line, notEol b :=
  fun line hl => r.plain line (List.mem_cons_of_mem _ hl)

theorem read_requestLine (r : RequestText) {n : ℕ} (hn : r.requestLine.length + 2 ≤ n) :
    Head.initial.read (r.bytes.take n) =
      match Head.initial.requestLine (cstr r.requestLine) with
      | none => .rejected .initial
          ((lines r.headers ++ crlf ++ r.body).take (n - (r.requestLine.length + 2)))
      | some h =>
          h.read ((lines r.headers ++ crlf ++ r.body).take (n - (r.requestLine.length + 2))) := by
  have hline := nextLine_take r.requestLine (lines r.headers ++ crlf ++ r.body)
    r.requestLine_plain n
  rw [if_neg (by omega)] at hline
  cases hreq : Head.initial.requestLine (cstr r.requestLine) with
  | none => simp only [bytes_eq, Head.read_some hline, Head.initial_checkState, hreq, if_true]
  | some h => simp only [bytes_eq, Head.read_some hline, Head.initial_checkState, hreq, if_true]

theorem read_take (r : RequestText) (n : ℕ) :
    (Head.initial.read (r.bytes.take n)).IsIncomplete ↔ n < r.decisionPoint := by
  have hcrlf : crlf.length = 2 := rfl
  by_cases hn : n < r.requestLine.length + 2
  · refine iff_of_true (r.bytes_eq ▸ Head.read_incomplete_take _ _ r.requestLine_plain hn) ?_
    rw [decisionPoint]
    cases Head.initial.requestLine (cstr r.requestLine) <;> simp [hcrlf] <;> omega
  · rw [r.read_requestLine (by omega), decisionPoint]
    cases hreq : Head.initial.requestLine (cstr r.requestLine) with
    | none =>
      refine iff_of_false (fun h => h) ?_
      simp [hcrlf]
      omega
    | some h =>
      have hread := Head.read_headers_take h (Head.requestLine_checkState hreq) r.headers
        r.headers_plain r.headers_ne_nil r.body (n - (r.requestLine.length + 2))
      have hlen : (lines (r.requestLine :: r.headers) ++ crlf).length =
          r.requestLine.length + 2 + (lines r.headers ++ crlf).length := by
        simp [hcrlf]
        omega
      dsimp only
      rw [hlen]
      by_cases hend : n - (r.requestLine.length + 2) < (lines r.headers ++ crlf).length
      · rw [if_pos hend] at hread
        exact iff_of_true hread (by omega)
      · rw [if_neg hend] at hread
        rw [hread]
        exact iff_of_false (fun h => h) (by omega)

theorem read_bytes (r : RequestText) :
    Head.initial.read r.bytes =
      match Head.initial.requestLine (cstr r.requestLine) with
      | none => .rejected .initial (lines r.headers ++ crlf ++ r.body)
      | some h => .complete (r.headers.foldl (fun h line => h.headerLine (cstr line)) h) r.body := by
  have hlen : r.bytes.length = r.requestLine.length + 2 +
      (lines r.headers ++ crlf ++ r.body).length := by
    rw [bytes_eq]
    simp [crlf]
    omega
  have hread := r.read_requestLine (n := r.bytes.length) (by omega)
  rw [List.take_length, hlen, Nat.add_sub_cancel_left, List.take_length] at hread
  rw [hread]
  cases hreq : Head.initial.requestLine (cstr r.requestLine) with
  | none => rfl
  | some h =>
    have hhead := Head.read_headers_take h (Head.requestLine_checkState hreq) r.headers
      r.headers_plain r.headers_ne_nil r.body (lines r.headers ++ crlf ++ r.body).length
    rw [if_neg (by simp), List.take_length, List.length_append, Nat.add_sub_cancel_left,
      List.take_length] at hhead
    exact hhead

end RequestText

theorem Conn.round_eq {c : Conn} {chunk : Bytes} (hchunk : chunk ≠ [])
    (hsize : c.readIndex + chunk.length ≤ readBufferSize) :
    c.round chunk = some (processRead (c.receive chunk)) := by
  have hdelivers := delivers_singleton hchunk .again
  have hbytes : Arrival.bytes ⟨[chunk], .again, .again⟩ = chunk := by
    rw [bytes_of_delivers hdelivers, List.flatten_singleton]
  have hpos : 0 < chunk.length := List.length_pos_of_ne_nil hchunk
  rw [round, read_of_room hdelivers (by omega) (by rwa [hbytes]) fun _ => rfl, hbytes]

theorem Conn.feed_spec {c : Conn} {h : Head} {pending : Bytes} (chunks : List Bytes)
    (hr : Resumable c h pending) (hpending : h.read pending = .incomplete h pending)
    (hne : ∀ chunk ∈ chunks, chunk ≠ [])
    (hsize : c.readIndex + chunks.flatten.length < readBufferSize) :
    match h.read (pending ++ chunks.flatten) with
    | .incomplete h' pending' => ∃ c', c.feed chunks = some c' ∧ Resumable c' h' pending' ∧
        c'.readIndex = c.readIndex + chunks.flatten.length
    | _ => c.feed chunks = none := by
  induction chunks generalizing c h pending with
  | nil =>
    simp only [List.flatten_nil, List.append_nil, hpending]
    exact ⟨c, rfl, hr, rfl⟩
  | cons chunk chunks ih =>
    simp only [List.flatten_cons, List.length_append] at hsize ⊢
    have hround := Conn.round_eq (c := c) (hne chunk List.mem_cons_self) (by omega)
    have hspec := processRead_spec (hr.receive chunk (by omega))
    have hindex : (c.receive chunk).readIndex = c.readIndex + chunk.length := by
      simp [receive, readIndex]
    rw [← List.append_assoc, Head.read_append]
    cases hp : h.read (pending ++ chunk) with
    | incomplete h' pending' =>
      rw [hp] at hspec
      obtain ⟨c', hc', hindex', hr'⟩ := hspec
      have hfeed : c.feed (chunk :: chunks) = c'.feed chunks := by simp [feed, hround, hc']
      have := ih hr' (Head.read_incomplete hp)
        (fun b hb => hne b (List.mem_cons_of_mem _ hb)) (by omega)
      simp only [Progress.resume, hfeed]
      rw [hindex', hindex, Nat.add_assoc] at this
      exact this
    | rejected h' rest =>
      rw [hp] at hspec
      obtain ⟨c', hc', -⟩ := hspec
      simp [feed, hround, hc', Progress.resume]
    | complete h' rest =>
      rw [hp] at hspec
      obtain ⟨c', pre, hr', -, hc'⟩ := hspec
      cases hd : c'.dispatch h'.state.endOfHeaders with
      | error e => simp [feed, hround, hc', hd, Progress.resume]
      | ok result =>
        obtain ⟨d, v⟩ := result
        have hv := dispatch_ne_noRequest hd
        simp only [feed, hround, hc', hd, Progress.resume]
        split
        · rename_i heq
          simp only [Option.some.injEq, Except.ok.injEq, Prod.mk.injEq] at heq
          exact absurd heq.2 hv
        · rfl

theorem Conn.round_some {c : Conn} {chunk : Bytes} {result : Except Fault (Conn × Verdict)}
    (hround : c.round chunk = some result) :
    c.readIndex + chunk.length ≤ readBufferSize ∧ result = processRead (c.receive chunk) := by
  have hread : (c.read ⟨[chunk], .again, .again⟩).2 = true := by
    by_contra hfailed
    rw [Bool.not_eq_true] at hfailed
    rw [round, ← Prod.mk.eta (p := c.read _), hfailed] at hround
    cases hround
  obtain ⟨-, hnil, hle, -⟩ := read_snd_iff.mp hread
  rw [List.flatten_singleton] at hle
  have hchunk : chunk ≠ [] := by
    rintro rfl
    exact hnil List.mem_cons_self
  rw [round_eq hchunk hle] at hround
  exact ⟨hle, (Option.some.inj hround).symm⟩

/-- Rounds that all return `NO_REQUEST` have read an incomplete head. -/
theorem Conn.feed_resumable {c d : Conn} {h : Head} {pending : Bytes} {chunks : List Bytes}
    (hr : Resumable c h pending) (hpending : h.read pending = .incomplete h pending)
    (hfeed : c.feed chunks = some d) :
    ∃ h' pending', h.read (pending ++ chunks.flatten) = .incomplete h' pending' ∧
      Resumable d h' pending' ∧ d.readIndex = c.readIndex + chunks.flatten.length := by
  induction chunks generalizing c h pending with
  | nil =>
    cases hfeed
    exact ⟨h, pending, by simpa using hpending, hr, rfl⟩
  | cons chunk chunks ih =>
    rw [feed] at hfeed
    split at hfeed
    · rename_i c' hround
      obtain ⟨hle, hresult⟩ := round_some hround
      have hspec := processRead_spec (hr.receive chunk hle)
      rw [← hresult] at hspec
      obtain ⟨h₁, pending₁, hread, hr₁, hindex⟩ := hspec.noRequest
      obtain ⟨h', pending', hread', hr', hindex'⟩ := ih hr₁ (Head.read_incomplete hread) hfeed
      refine ⟨h', pending', ?_, hr', ?_⟩
      · rw [List.flatten_cons, ← List.append_assoc, Head.read_append, hread]
        exact hread'
      · rw [hindex', hindex, receive, readIndex, readIndex, List.length_append, List.flatten_cons,
          List.length_append, Nat.add_assoc]
    · cases hfeed

/-- The last round, behind rounds that all returned `NO_REQUEST`, decides on all the bytes. -/
theorem Conn.feed_round (c : Conn) {bytes : Bytes} (cut : Chunking bytes)
    (hsize : bytes.length < readBufferSize) {c' : Conn} (hfeed : c.init.feed cut.before = some c') :
    ∃ result, c'.round cut.last = some result ∧
      Refines bytes.length result (Head.initial.read bytes) := by
  have hflatten : cut.before.flatten ++ cut.last = bytes := by simpa using cut.flatten
  have hlen : cut.before.flatten.length + cut.last.length = bytes.length := by
    rw [← List.length_append, hflatten]
  have hzero : c.init.readIndex = 0 := rfl
  obtain ⟨h, pending, hread, hr, hindex⟩ :=
    feed_resumable (resumable_init c) (Head.read_none rfl) hfeed
  have hlast : cut.last ≠ [] := cut.nonempty _ (by simp)
  refine ⟨_, round_eq hlast (by omega), ?_⟩
  have hspec := processRead_spec (hr.receive cut.last (by omega))
  have hprogress : h.read (pending ++ cut.last) = Head.initial.read bytes := by
    have := Head.read_append .initial cut.before.flatten cut.last
    rw [hflatten, show Head.initial.read cut.before.flatten = _ from hread] at this
    exact this.symm
  have htotal : (c'.receive cut.last).readIndex = bytes.length := by
    simp only [receive, readIndex, List.length_append] at hindex hzero ⊢
    omega
  rwa [hprogress, htotal] at hspec

namespace Head

theorem foldl_state (headers : List Bytes) (h : Head) :
    (headers.foldl (fun h line => h.headerLine (cstr line)) h).state =
      headers.foldl (fun s line => s.headerLine (cstr line)) h.state := by
  induction headers generalizing h with
  | nil => rfl
  | cons line headers ih => exact ih _

theorem foldl_method (headers : List Bytes) (s : RequestState) :
    (headers.foldl (fun s line => s.headerLine (cstr line)) s).method = s.method := by
  induction headers generalizing s with
  | nil => rfl
  | cons line headers ih => rw [List.foldl_cons, ih, RequestState.headerLine_method]

theorem foldl_contentLength (headers : List Bytes) {s t : RequestState}
    (h : s.contentLength = t.contentLength) :
    (headers.foldl (fun s line => s.headerLine (cstr line)) s).contentLength =
      (headers.foldl (fun s line => s.headerLine (cstr line)) t).contentLength := by
  induction headers generalizing s t with
  | nil => exact h
  | cons line headers ih =>
    refine ih ?_
    rw [RequestState.headerLine_contentLength, RequestState.headerLine_contentLength, h]

theorem requestLine_state {h : Head} {line : Bytes}
    (hread : initial.requestLine (cstr line) = some h) :
    h.state.method = requestMethod line ∧ h.state.contentLength = 0 := by
  unfold requestLine at hread
  unfold requestMethod
  cases hi : strpbrk (cstr line) blanks with
  | none =>
    rw [hi] at hread
    cases hread
  | some i =>
    rw [hi] at hread
    dsimp only at hread ⊢
    split at hread
    · cases hread
    · split_ifs at hread
      split at hread
      · cases hread
      · split_ifs at hread
        cases hread
        exact ⟨rfl, rfl⟩

end Head

theorem RequestText.complete_of_read {r : RequestText} {h : Head} {rest : Bytes}
    (hread : Head.initial.read r.bytes = .complete h rest) :
    ∃ h₁, Head.initial.requestLine (cstr r.requestLine) = some h₁ ∧
      h.state = r.headers.foldl (fun s line => s.headerLine (cstr line)) h₁.state ∧ rest = r.body := by
  rw [r.read_bytes] at hread
  cases hreq : Head.initial.requestLine (cstr r.requestLine) with
  | none => simp [hreq] at hread
  | some h₁ =>
    simp only [hreq, Progress.complete.injEq] at hread
    obtain ⟨rfl, rfl⟩ := hread
    exact ⟨h₁, rfl, Head.foldl_state .., rfl⟩

theorem Reading.pre_length {c : Conn} {h : Head} {pre : Bytes} {r : RequestText}
    (hr : Reading c h pre [] r.body) (hindex : c.readIndex = r.bytes.length) :
    pre.length = (lines (r.requestLine :: r.headers) ++ crlf).length := by
  have hlen : pre.length + r.body.length = r.bytes.length := by
    rw [← hindex, Conn.readIndex, hr.buffer, List.length_append]
    rfl
  have hbytes : r.bytes.length = (lines (r.requestLine :: r.headers) ++ crlf).length + r.body.length :=
    List.length_append
  omega

theorem RequestText.round_dispatch {r : RequestText} (hsize : r.bytes.length < readBufferSize)
    {h : Head} (haccepted : Head.initial.requestLine (cstr r.requestLine) = some h) {c c' : Conn}
    {cut : Chunking r.bytes} {result : Except Fault (Conn × Verdict)}
    (hfeed : c.init.feed cut.before = some c') (hround : c'.round cut.last = some result) :
    ∃ (d : Conn) (pre : Bytes),
      Reading d (r.headers.foldl (fun h line => h.headerLine (cstr line)) h) pre [] r.body ∧
      d.readIndex = r.bytes.length ∧
      pre.length = (lines (r.requestLine :: r.headers) ++ crlf).length ∧
      result = d.dispatch (r.headers.foldl (fun h line => h.headerLine (cstr line)) h).state.endOfHeaders := by
  obtain ⟨result', hround', hspec⟩ := c.feed_round cut hsize hfeed
  cases hround.symm.trans hround'
  rw [r.read_bytes, haccepted] at hspec
  obtain ⟨d, pre, hr, hindex, hresult⟩ := hspec
  exact ⟨d, pre, hr, hindex, hr.pre_length hindex, hresult⟩

theorem CompleteRequest.contentLength_nonneg (r : CompleteRequest) {h : Head} {rest : Bytes}
    (hread : Head.initial.read r.bytes = .complete h rest) :
    0 ≤ h.state.contentLength ∨ h.state.contentHandler = none := by
  obtain ⟨h₁, hreq, hstate, -⟩ := RequestText.complete_of_read hread
  obtain ⟨hmethod, hlength⟩ := Head.requestLine_state hreq
  have hN : h.state.contentLength = declaredLength r.headers := by
    rw [hstate, declaredLength]
    exact Head.foldl_contentLength _ hlength
  have hm : h.state.method = requestMethod r.requestLine := by
    rw [hstate, Head.foldl_method, hmethod]
  have hbody := r.body_length
  rw [← hm, ← hN] at hbody
  by_cases hbodied : h.state.method = .post ∨ h.state.method = .put
  · rw [if_pos hbodied] at hbody
    omega
  · refine Or.inr ?_
    rw [not_or] at hbodied
    unfold RequestState.contentHandler
    split_ifs <;> simp_all

theorem Refines.verdict_unique {n : ℕ} {x y : Except Fault (Conn × Verdict)} {progress : Progress}
    (hx : Refines n x progress) (hy : Refines n y progress)
    (hN : ∀ h rest, progress = .complete h rest →
      0 ≤ h.state.contentLength ∨ h.state.contentHandler = none) :
    x.map Prod.snd = y.map Prod.snd := by
  cases progress with
  | incomplete h pending =>
    obtain ⟨c, rfl, -⟩ := hx
    obtain ⟨d, rfl, -⟩ := hy
    rfl
  | rejected h rest =>
    obtain ⟨c, rfl, -⟩ := hx
    obtain ⟨d, rfl, -⟩ := hy
    rfl
  | complete h rest =>
    obtain ⟨c, pre, hc, hindex, rfl⟩ := hx
    obtain ⟨d, pre', hd, hindex', rfl⟩ := hy
    have hlen : pre.length = pre'.length := by
      simp only [Conn.readIndex, hc.buffer, hd.buffer, List.nil_append, List.length_append]
        at hindex hindex'
      omega
    have := hN h rest rfl
    rw [hc.verdict this, hd.verdict this, hlen]

/-- The server's answer is independent of a cut if and only if the decision is left to
the last chunk. -/
theorem fragmentation_independent_iff (c : Conn) (r : CompleteRequest) (cut : Chunking r.bytes) :
    FragmentationIndependent c r cut ↔ cut.before.flatten.length < r.decisionPoint := by
  have hflatten : cut.before.flatten ++ cut.last = r.bytes := by
    simpa using cut.flatten
  have hlen : cut.before.flatten.length + cut.last.length < readBufferSize := by
    rw [← List.length_append, hflatten]
    exact r.size
  have hpre : cut.before.flatten = r.bytes.take cut.before.flatten.length := by
    have := congrArg (List.take cut.before.flatten.length) hflatten
    rwa [List.take_left] at this
  have hfeed := Conn.feed_spec cut.before (resumable_init c) (Head.read_none rfl)
    (fun chunk hc => cut.nonempty chunk (List.mem_append_left _ hc))
    (by simp only [Conn.readIndex, Conn.init, Conn.accepted, List.length_nil]; omega)
  rw [List.nil_append] at hfeed
  have hiff := r.read_take cut.before.flatten.length
  rw [← hpre] at hiff
  rw [← hiff]
  cases hp : Head.initial.read cut.before.flatten with
  | rejected h rest =>
    rw [hp] at hfeed
    refine iff_of_false ?_ id
    rintro ⟨c', hc', -⟩
    simp [hfeed] at hc'
  | complete h rest =>
    rw [hp] at hfeed
    refine iff_of_false ?_ id
    rintro ⟨c', hc', -⟩
    simp [hfeed] at hc'
  | incomplete h pending =>
    rw [hp] at hfeed
    obtain ⟨c', hc', -, -⟩ := hfeed
    refine iff_of_true ⟨c', hc', ?_⟩ trivial
    have hlast : cut.last ≠ [] := cut.nonempty _ (by simp)
    have hbytes : r.bytes ≠ [] := fun hnil => hlast (List.append_eq_nil_iff.mp (hflatten.trans hnil)).2
    obtain ⟨result, hround, hresult⟩ := c.feed_round cut r.size hc'
    obtain ⟨whole, hwhole, hrefines⟩ := c.feed_round (.whole hbytes) r.size rfl
    rw [hround, show c.init.round r.bytes = some whole from hwhole]
    exact congrArg some (hresult.verdict_unique hrefines
      (fun h rest hread => r.contentLength_nonneg hread))

def lateBody : CompleteRequest where
  requestLine := ascii "POST /api/login HTTP/1.1"
  headers := [ascii "Content-Length: 2"]
  body := ascii "\x7b\x7d"
  plain := by decide +kernel
  headers_ne_nil := by decide
  body_length := by decide
  size := by decide

def lateBodyCut : Chunking lateBody.bytes where
  before := [lines [ascii "POST /api/login HTTP/1.1", ascii "Content-Length: 2", []]]
  last := ascii "\x7b\x7d"
  nonempty := by decide
  flatten := by decide

theorem late_body_dependent :
    ¬ FragmentationIndependent (.accepted ⟨5, []⟩) lateBody lateBodyCut := by
  rintro ⟨c', hfeed, -⟩
  have hnone : (Conn.accepted ⟨5, []⟩).init.feed lateBodyCut.before = none := by decide +kernel
  rw [hnone] at hfeed
  cases hfeed

end Http
end ResourceServer

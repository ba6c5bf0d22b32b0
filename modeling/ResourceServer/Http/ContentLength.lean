import Mathlib.Data.List.DropRight
import ResourceServer.Http.HeaderBlock
import ResourceServer.Http.Routing
import ResourceServer.Http.Validation

/-!
# The extent of a body

The length of a body is read with `atol` and narrowed to an `int`, whatever its header says,
and the body is then cut by a NUL and read as a C string.
-/

namespace ResourceServer
namespace Http

open CString

def isBlank (b : UInt8) : Bool := blanks.contains b

/-- A header value without the blanks around it. -/
def trimBlanks (s : Bytes) : Bytes := (skipBlanks s).rdropWhile isBlank

/-- The value of a `Content-Length` line. -/
def lengthValue? (line : Bytes) : Option Bytes :=
  if strncasecmp line (ascii "Content-Length:") 15 then some (trimBlanks (line.drop 15)) else none

/-- A non-negative decimal number that fits an `int`. -/
def IsLength (value : Bytes) : Prop := isNumber value = true ∧ (digitsValue value : ℤ) ≤ intMax

instance (value : Bytes) : Decidable (IsLength value) := inferInstanceAs (Decidable (_ ∧ _))

/-- The `int` that the parser makes of a value. -/
def announced (value : Bytes) : ℤ := toInt32 (atol value)

theorem takeWhile_concat {p : UInt8 → Bool} {x : UInt8} (hx : p x = false) (s : Bytes) :
    (s ++ [x]).takeWhile p = s.takeWhile p := by
  induction s with
  | nil => simp [hx]
  | cons b s ih => rw [List.cons_append, List.takeWhile_cons, List.takeWhile_cons, ih]

theorem splitSign_concat {x : UInt8} (b : UInt8) (s : Bytes) :
    splitSign (b :: s ++ [x]) = ((splitSign (b :: s)).1, (splitSign (b :: s)).2 ++ [x]) := by
  unfold splitSign
  split <;> rename_i heq
  · cases heq
    rfl
  · cases heq
    rfl
  · split <;> simp_all

/-- A blank behind a number changes nothing. -/
theorem atol_concat {x : UInt8} (hx : isBlank x = true) (s : Bytes) : atol (s ++ [x]) = atol s := by
  have hspace : isSpace x = true := by
    simp only [isBlank, blanks, ascii] at hx
    simp at hx
    rcases hx with rfl | rfl <;> decide
  have hdigit : isDigit x = false := by
    by_contra h
    rw [Bool.not_eq_false] at h
    rw [Decimal.isSpace_of_isDigit h] at hspace
    cases hspace
  unfold atol strtol
  rw [List.dropWhile_append]
  cases s.dropWhile isSpace with
  | nil => simp [hspace, splitSign]
  | cons b w =>
    rw [List.isEmpty_cons, if_neg Bool.false_ne_true, splitSign_concat]
    simp only [takeWhile_concat hdigit]
    split_ifs <;> rfl

theorem atol_rdropWhile (s : Bytes) : atol (s.rdropWhile isBlank) = atol s := by
  induction s using List.reverseRecOn with
  | nil => rfl
  | append_singleton s x ih =>
    by_cases hx : isBlank x = true
    · rw [List.rdropWhile_concat_pos isBlank s x hx, ih, atol_concat hx]
    · rw [List.rdropWhile_concat_neg isBlank s x hx]

theorem contentLength?_eq (line : Bytes) : contentLength? line = (lengthValue? line).map announced := by
  unfold contentLength? lengthValue?
  split_ifs
  · rw [Option.map_some, announced, trimBlanks, atol_rdropWhile]
  · rfl

theorem announced_of_isLength {value : Bytes} (h : IsLength value) : announced value = digitsValue value := by
  obtain ⟨hnumber, hfits⟩ := h
  simp only [isNumber, Bool.and_eq_true, Bool.not_eq_true', List.isEmpty_eq_false_iff,
    List.all_eq_true] at hnumber
  rw [announced, atol, Decimal.strtol_digits hnumber.1 hnumber.2, Decimal.clampLong_of_le hfits]
  exact toInt32_of_range (by omega) hfits

/-- A `POST` or `PUT` request that has a `Content-Length`; the last one counts. -/
structure LengthRequest extends RequestText where
  value : Bytes
  head : Head
  announces : lastValue lengthValue? headers = some value
  accepted : Head.initial.requestLine (cstr requestLine) = some head
  method : head.state.method = .post ∨ head.state.method = .put
  size : (lines (requestLine :: headers) ++ crlf ++ body).length < readBufferSize

namespace LengthRequest

/-- The number of bytes in front of the body. -/
def bodyStart (r : LengthRequest) : ℕ := (lines (r.requestLine :: r.headers) ++ crlf).length

def ForBody (r : LengthRequest) : Prop := ∃ k : Handler, r.head.state.Decodes k ∧ k.readsBody = true

end LengthRequest

/-- With all of the request in the buffer, the body given to a handler is the announced one;
and without a proper length there is no handler. -/
structure ExtractsExactly (r : LengthRequest) : Prop where
  body : ∀ (c : Conn) (cut : Chunking r.bytes) (c' d : Conn) (q : Request),
    c.init.feed cut.before = some c' → c'.round cut.last = some (.ok (d, .handler q)) →
      isNumber r.value = true → digitsValue r.value ≤ r.body.length → q.handler.readsBody = true →
        q.body = r.body.take (digitsValue r.value)
  refused : ∀ (c : Conn) (cut : Chunking r.bytes) (c' : Conn) (result : Except Fault (Conn × Verdict)),
    c.init.feed cut.before = some c' → c'.round cut.last = some result → ¬ IsLength r.value →
      ∃ d, result = .ok (d, .code .badRequest)

theorem Handler.behindBody_of_readsBody {k : Handler} (h : k.readsBody = true) : k.behindBody = true := by
  revert h
  cases k <;> decide

theorem parseContent_badRequest_iff {c : Conn} :
    (∃ d, parseContent c c.checkedIndex = .ok (d, .code .badRequest)) ↔
      c.contentLength + c.checkedIndex ≤ intMax ∧ (c.readIndex : ℤ) < c.contentLength + c.checkedIndex := by
  constructor
  · rintro ⟨d, hresult⟩
    rcases parseContent_cases hresult with ⟨hshort, -⟩ | ⟨-, -, hverdict⟩
    · refine ⟨?_, hshort⟩
      by_contra hmax
      rw [parseContent_eq, if_pos (not_le.mp hmax)] at hresult
      cases hresult
    · cases (contentVerdict_eq_code hverdict.symm).2
  · rintro ⟨hmax, hshort⟩
    rw [parseContent_eq, if_neg (not_lt.mpr hmax), if_neg (not_le.mpr hshort)]
    exact ⟨c, rfl⟩

theorem Reading.dispatch_badRequest_iff {c : Conn} {h : Head} {pre rest : Bytes}
    (hr : Reading c h pre [] rest) :
    (∃ d, c.dispatch h.state.endOfHeaders = .ok (d, .code .badRequest)) ↔
      h.state.endOfHeaders = .content ∧ h.state.contentLength + pre.length ≤ intMax ∧
        (c.readIndex : ℤ) < h.state.contentLength + pre.length := by
  cases hdispatch : h.state.endOfHeaders with
  | run k =>
    refine iff_of_false ?_ nofun
    rintro ⟨d, hresult⟩
    cases hresult
  | notFound =>
    refine iff_of_false ?_ nofun
    rintro ⟨d, hresult⟩
    cases hresult
  | content =>
    have hiff := parseContent_badRequest_iff (c := { c with checkState := .content })
    rw [hr.atBody.checked, hr.atBody.state] at hiff
    rw [Conn.dispatch, hr.atBody.checked, hiff]
    exact ⟨fun h => ⟨rfl, h⟩, fun h => h.2⟩

namespace LengthRequest

variable {r : LengthRequest} {c c' d : Conn} {cut : Chunking r.bytes}

/-- A head with the length, the method and the path of the request. -/
structure Decoded (r : LengthRequest) (h : Head) : Prop where
  contentLength : h.state.contentLength = announced r.value
  decodes : ∀ k, h.state.Decodes k ↔ r.head.state.Decodes k
  method : h.state.method = .post ∨ h.state.method = .put

theorem round_dispatch {result : Except Fault (Conn × Verdict)} (hfeed : c.init.feed cut.before = some c')
    (hround : c'.round cut.last = some result) :
    ∃ (d : Conn) (h : Head) (pre : Bytes), Reading d h pre [] r.body ∧ r.Decoded h ∧
      d.readIndex = r.bytes.length ∧ pre.length = r.bodyStart ∧
      result = d.dispatch h.state.endOfHeaders := by
  obtain ⟨d, pre, hr, hindex, hpre, hresult⟩ :=
    RequestText.round_dispatch r.size r.accepted hfeed hround
  refine ⟨d, _, pre, hr, ⟨?_, fun k => ?_, ?_⟩, hindex, hpre, hresult⟩
  · rw [Head.foldl_state, foldl_headerLine headerLine_contentLength_eq]
    simp only [contentLength?_cstr]
    simp only [contentLength?_eq, lastValue_map]
    rw [show lastValue (fun line => lengthValue? line) r.headers = some r.value from r.announces]
    rfl
  · rw [Head.foldl_state, RequestState.Decodes, Head.foldl_method, foldl_apireq]
    rfl
  · rw [Head.foldl_state, Head.foldl_method]
    exact r.method

/-- `POST` and `PUT` run no handler without a body. -/
theorem Decoded.endOfHeaders {h : Head} (hdecoded : r.Decoded h) (hlength : announced r.value ≠ 0) :
    h.state.endOfHeaders = .content := by
  refine RequestState.endOfHeaders_eq_content_iff.mpr ⟨fun k hk => ?_, Or.inr ?_⟩
  · have hmethod := hdecoded.method
    rw [hk.1] at hmethod
    cases k <;> simp_all [Handler.method, Handler.behindBody]
  · rwa [hdecoded.contentLength]

theorem round_badRequest_iff {result : Except Fault (Conn × Verdict)}
    (hfeed : c.init.feed cut.before = some c') (hround : c'.round cut.last = some result) :
    (∃ d, result = .ok (d, .code .badRequest)) ↔
      (r.body.length : ℤ) < announced r.value ∧ announced r.value + r.bodyStart ≤ intMax := by
  obtain ⟨d, h, pre, hr, hdecoded, hindex, hpre, rfl⟩ := round_dispatch hfeed hround
  have hbytes : r.bytes.length = r.bodyStart + r.body.length := List.length_append
  rw [hr.dispatch_badRequest_iff, hdecoded.contentLength, hindex, hpre, hbytes]
  constructor
  · rintro ⟨-, hmax, hmissing⟩
    exact ⟨by omega, hmax⟩
  · rintro ⟨hmissing, hmax⟩
    exact ⟨hdecoded.endOfHeaders (by omega), hmax, by omega⟩

theorem round_body {q : Request} (hlength : IsLength r.value)
    (hfeed : c.init.feed cut.before = some c') (hround : c'.round cut.last = some (.ok (d, .handler q)))
    (hreads : q.handler.readsBody = true) :
    r.ForBody ∧ q.body = cstr (r.body.take (digitsValue r.value)) := by
  obtain ⟨e, h, pre, hr, hdecoded, -, -, hresult⟩ := round_dispatch hfeed hround
  have hannounced := hdecoded.contentLength.trans (announced_of_isLength hlength)
  refine ⟨⟨q.handler, (hdecoded.decodes _).mp (hr.dispatch_handler hresult.symm), hreads⟩, ?_⟩
  have hverdict := hr.verdict (Or.inl (by omega))
  rw [← hresult, Head.verdict] at hverdict
  cases hdispatch : h.state.endOfHeaders with
  | run k =>
    rw [hdispatch] at hverdict
    cases hverdict
    obtain ⟨hbody, -⟩ := RequestState.endOfHeaders_eq_run_iff.mp hdispatch
    rw [Handler.behindBody_of_readsBody (k := k) hreads] at hbody
    cases hbody
  | notFound =>
    rw [hdispatch] at hverdict
    cases hverdict
  | content =>
    rw [hdispatch] at hverdict
    simp only [Head.content, hannounced] at hverdict
    split_ifs at hverdict
    · cases hverdict
    · cases hk : h.state.contentHandler with
      | none =>
        rw [hk] at hverdict
        cases hverdict
      | some k =>
        rw [hk] at hverdict
        cases hverdict
        rfl
    · cases hverdict
    · cases hverdict

theorem round_handler {result : Except Fault (Conn × Verdict)} (hlength : IsLength r.value)
    (hne : digitsValue r.value ≠ 0) (hle : digitsValue r.value ≤ r.body.length) (hbody : r.ForBody)
    (hfeed : c.init.feed cut.before = some c') (hround : c'.round cut.last = some result) :
    ∃ d q, result = .ok (d, .handler q) ∧ q.handler.readsBody = true := by
  obtain ⟨e, h, pre, hr, hdecoded, hindex, hpre, rfl⟩ := round_dispatch hfeed hround
  have hannounced := announced_of_isLength hlength
  have hcontent := hdecoded.endOfHeaders (by omega)
  have hcontentLength := hdecoded.contentLength.trans hannounced
  have hverdict := hr.verdict (Or.inl (by omega))
  obtain ⟨k, hdecodes, hreads⟩ := hbody
  have hk : h.state.contentHandler = some k := RequestState.contentHandler_eq_some_iff.mpr
    ⟨Handler.behindBody_of_readsBody hreads, (hdecoded.decodes k).mpr hdecodes⟩
  have hsize := r.size
  have hbytes : r.bytes.length = r.bodyStart + r.body.length := List.length_append
  have hlt : r.bytes.length < readBufferSize := hsize
  simp only [readBufferSize] at hlt
  rw [Head.verdict, hcontent] at hverdict
  simp only [Head.content, hcontentLength, hk] at hverdict
  rw [if_neg (by simp only [intMax]; omega), if_pos (by omega),
    if_pos (by simp only [readBufferSize]; omega)] at hverdict
  cases hresult : e.dispatch .content with
  | error f =>
    rw [hresult] at hverdict
    cases hverdict
  | ok p =>
    obtain ⟨d, v⟩ := p
    rw [hresult] at hverdict
    simp only [Except.map, Except.ok.injEq] at hverdict
    subst hverdict
    rw [hcontent, hresult]
    exact ⟨d, _, rfl, hreads⟩

end LengthRequest

namespace ExtractsExactly

variable {r : LengthRequest}

theorem nul_notMem (hexact : ExtractsExactly r) (hlength : IsLength r.value)
    (hle : digitsValue r.value ≤ r.body.length) (hbody : r.ForBody) :
    nul ∉ r.body.take (digitsValue r.value) := by
  have hbytes : r.bytes ≠ [] := by simp [RequestText.bytes, crlf]
  obtain ⟨result, hwhole, -⟩ := (Conn.accepted ⟨0, []⟩).feed_round (.whole hbytes) r.size rfl
  by_cases hne : digitsValue r.value = 0
  · simp [hne]
  · obtain ⟨d, q, rfl, hreads⟩ :=
      LengthRequest.round_handler hlength hne hle hbody rfl hwhole
    have hcstr := (LengthRequest.round_body hlength rfl hwhole hreads).2
    rw [← hexact.body _ (.whole hbytes) _ d q rfl hwhole hlength.1 hle hreads, hcstr]
    exact nul_notMem_cstr _

theorem announced_range (hexact : ExtractsExactly r) (himproper : ¬ IsLength r.value) :
    (r.body.length : ℤ) < announced r.value ∧ announced r.value + r.bodyStart ≤ intMax := by
  have hbytes : r.bytes ≠ [] := by simp [RequestText.bytes, crlf]
  obtain ⟨result, hwhole, -⟩ := (Conn.accepted ⟨0, []⟩).feed_round (.whole hbytes) r.size rfl
  exact (LengthRequest.round_badRequest_iff rfl hwhole).mp
    (hexact.refused _ (.whole hbytes) _ result rfl hwhole himproper)

end ExtractsExactly

/-- A body is extracted exactly if and only if its length is proper and, where a handler reads
the body, the announced bytes have no NUL; or the `int` read from an improper length is more
than the bytes behind the head, and added to the head's length still an `int`. -/
theorem body_extracted_iff (r : LengthRequest) :
    ExtractsExactly r ↔
      (IsLength r.value → digitsValue r.value ≤ r.body.length → r.ForBody →
        nul ∉ r.body.take (digitsValue r.value)) ∧
      (¬ IsLength r.value →
        (r.body.length : ℤ) < announced r.value ∧ announced r.value + r.bodyStart ≤ intMax) := by
  constructor
  · intro hexact
    exact ⟨hexact.nul_notMem, hexact.announced_range⟩
  · rintro ⟨hproper, himproper⟩
    constructor
    · intro c cut c' d q hfeed hround hnumber hle hreads
      have hlength : IsLength r.value := by
        refine ⟨hnumber, ?_⟩
        have hsize := r.size
        simp only [List.length_append, readBufferSize] at hsize
        simp only [intMax]
        omega
      obtain ⟨hbody, hcstr⟩ := LengthRequest.round_body hlength hfeed hround hreads
      rw [hcstr, cstr_eq_self (hproper hlength hle hbody)]
    · intro c cut c' result hfeed hround hvalue
      exact (LengthRequest.round_badRequest_iff hfeed hround).mpr (himproper hvalue)

/-- A body of three bytes with a NUL in the middle. -/
def nulBody : LengthRequest where
  requestLine := ascii "POST /api/resources HTTP/1.1"
  headers := [ascii "Content-Length: 3"]
  body := [97, nul, 98]
  plain := by decide +kernel
  headers_ne_nil := by decide
  value := ascii "3"
  head := ⟨{ RequestState.initial with method := .post, apireq := 1, checkState := .header },
    ascii "/api/resources"⟩
  announces := by decide +kernel
  accepted := by decide +kernel
  method := Or.inl rfl
  size := by decide

def signedLength : LengthRequest where
  requestLine := ascii "POST /api/resources HTTP/1.1"
  headers := [ascii "Content-Length: -1"]
  body := ascii "\x7b\x7d"
  plain := by decide +kernel
  headers_ne_nil := by decide
  value := ascii "-1"
  head := ⟨{ RequestState.initial with method := .post, apireq := 1, checkState := .header },
    ascii "/api/resources"⟩
  announces := by decide +kernel
  accepted := by decide +kernel
  method := Or.inl rfl
  size := by decide

/-- The first is cut in front of its NUL, the second is given to a handler. -/
theorem bodies_not_exact : ¬ ExtractsExactly nulBody ∧ ¬ ExtractsExactly signedLength := by
  constructor
  · intro hexact
    have hbody : nulBody.ForBody := ⟨.postResource, ⟨rfl, rfl⟩, rfl⟩
    exact hexact.nul_notMem (by decide) (by decide) hbody (by decide)
  · intro hexact
    have hrange := hexact.announced_range (by decide)
    exact absurd hrange.1 (by decide)

end Http
end ResourceServer

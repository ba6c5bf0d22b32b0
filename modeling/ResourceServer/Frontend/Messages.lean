import ResourceServer.Frontend.Client
import ResourceServer.Http.Fields

/-!
# Messages that carry a call

What `axios` is asked to send becomes an HTTP message: the request line and the body of the call,
and its headers among any others. The server reads from it what was given to `axios`.
-/

namespace ResourceServer
namespace Frontend

open CString Http Service

theorem nul_notMem_hexByte (b : UInt8) : nul ∉ AuthUtils.hexByte b := by
  have hdigit (n : ℕ) (hn : n < 16) : nul ≠ AuthUtils.hexDigit n := (AuthUtils.hexDigit_ne_nul hn).symm
  have hb := b.toNat_lt
  rw [AuthUtils.hexByte, List.mem_cons, List.mem_singleton, not_or]
  exact ⟨hdigit _ (by omega), hdigit _ (by omega)⟩

theorem nul_notMem_quoteByte (b : UInt8) : nul ∉ quoteByte b := by
  unfold quoteByte
  split_ifs with hquoted h8 h9 h10 h12 h13 hcontrol
  · rcases hquoted with rfl | rfl
    · decide
    · decide
  · decide
  · decide
  · decide
  · decide
  · decide
  · intro h
    rw [List.mem_cons, List.mem_append] at h
    rcases h with h | h | h
    · exact absurd h (by decide)
    · exact absurd h (by decide)
    · exact nul_notMem_hexByte b h
  · intro h
    rw [← List.mem_singleton.mp h] at hcontrol
    exact hcontrol (by decide)

theorem nul_notMem_quote (s : Bytes) : nul ∉ quote s := by
  intro h
  rw [quote, List.mem_cons, List.mem_append, List.mem_flatMap] at h
  rcases h with h | ⟨b, -, h⟩ | h
  · exact absurd h (by decide)
  · exact nul_notMem_quoteByte b h
  · exact absurd h (by decide)

theorem Scalar.nul_notMem_stringify (v : Scalar) : nul ∉ v.stringify := by
  cases v with
  | str s => exact nul_notMem_quote s
  | num n =>
    intro h
    rcases Decimal.mem_ofInt h with h | h
    · exact absurd h (by decide)
    · exact absurd h (by decide)
  | bool b => cases b <;> decide

theorem nul_notMem_member (field : Bytes × Scalar) : nul ∉ member field := by
  intro h
  rw [member, List.mem_append, List.mem_cons] at h
  rcases h with h | h | h
  · exact nul_notMem_quote _ h
  · exact absurd h (by decide)
  · exact field.2.nul_notMem_stringify h

theorem nul_notMem_stringify (p : Payload) : nul ∉ stringify p := by
  cases p with
  | nil => decide
  | cons field fields =>
    intro h
    rw [stringify, List.mem_cons, List.mem_append, List.mem_append, List.mem_flatMap] at h
    rcases h with h | h | ⟨f, -, h⟩ | h
    · exact absurd h (by decide)
    · exact nul_notMem_member _ h
    · rcases List.mem_cons.mp h with h | h
      · exact absurd h (by decide)
      · exact nul_notMem_member _ h
    · exact absurd h (by decide)

theorem stringify_ne_nil (p : Payload) : stringify p ≠ [] := by
  cases p with
  | nil => exact List.cons_ne_nil _ _
  | cons field fields => exact List.cons_ne_nil _ _

/-- A message for what `axios` is asked to send. Other fields may stand around its own, as long as
the whole is shorter than the read buffer. -/
structure Carries (a : AxiosRequestConfig) (fields : List (Bytes × Bytes)) (q : RequestText) : Prop where
  requestLine : q.requestLine = requestLineOf a.method a.url
  headers : q.headers = fields.map fieldLine
  clean : ∀ f ∈ fields, 58 ∉ f.1 ∧ nul ∉ fieldLine f
  authorization : valuesOf (ascii "Authorization") fields = valuesOf (ascii "Authorization") a.headers
  contentLength : ∀ s, a.data = some (.string s) →
    valuesOf (ascii "Content-Length") fields = [Decimal.ofNat s.length]
  body : a.data = none ∧ q.body = [] ∨ a.data = some (.string q.body)
  size : q.bytes.length < readBufferSize

/-- The head behind a request line that names `k`. -/
def AxiosRequestConfig.lineHead (a : AxiosRequestConfig) (k : Handler) : Head where
  state := { RequestState.initial with method := k.method, apireq := k.apireq, checkState := .header }
  target := a.url

/-- What `axios` is asked to send leads to `k`. -/
structure LeadsTo (a : AxiosRequestConfig) (k : Handler) : Prop where
  method : a.method = k.method.name
  path : k.path <+: a.url ∧ (k = .health → a.url = k.path)
  url : ∀ b ∈ a.url, isWordByte b = true
  data : a.data.isSome = k.behindBody
  body : ∀ s, a.data = some (.string s) → s ≠ [] ∧ nul ∉ s

namespace Carries

variable {a : AxiosRequestConfig} {fields : List (Bytes × Bytes)} {q : RequestText}

theorem cstr_fieldLine (h : Carries a fields q) {f : Bytes × Bytes} (hf : f ∈ fields) :
    cstr (fieldLine f) = fieldLine f := cstr_eq_self (h.clean f hf).2

theorem token (h : Carries a fields q) {token : Option Bytes}
    (htoken : valuesOf (ascii "Authorization") a.headers = (token.map (ascii "Bearer " ++ ·)).toList) :
    lastValue (fun line => bearer? (cstr line)) q.headers = token := by
  have hread : ∀ f ∈ fields, bearer? (cstr (fieldLine f)) =
      if named (ascii "Authorization") f then bearerToken? f.2 else none := by
    intro f hf
    rw [h.cstr_fieldLine hf, bearer?_fieldLine (h.clean f hf).1]
  rw [h.headers, lastValue_fields hread, h.authorization, htoken]
  cases token with
  | none => rfl
  | some token => rfl

theorem body_le (h : Carries a fields q) : q.body.length < readBufferSize := by
  refine lt_of_le_of_lt ?_ h.size
  rw [RequestText.bytes, List.length_append]
  exact Nat.le_add_left _ _

theorem length (h : Carries a fields q) (hdata : a.data = some (.string q.body)) :
    lastValue (fun line => contentLength? (cstr line)) q.headers = some (q.body.length : ℤ) := by
  let read (value : Bytes) : Option ℤ := some (announced (skipBlanks value))
  have hread : ∀ f ∈ fields, contentLength? (cstr (fieldLine f)) =
      if named (ascii "Content-Length") f then read f.2 else none := by
    intro f hf
    rw [h.cstr_fieldLine hf, contentLength?_fieldLine (h.clean f hf).1]
  rw [h.headers, lastValue_fields hread, h.contentLength _ hdata]
  exact congrArg some (announced_ofNat h.body_le)

theorem accepted (h : Carries a fields q) {k : Handler} (hk : LeadsTo a k) :
    Head.initial.requestLine (cstr q.requestLine) = some (a.lineHead k) := by
  have horigin : a.url.head? = some slash := by
    obtain ⟨rest, hrest⟩ := hk.path.1
    rw [← hrest]
    cases k <;> rfl
  have hmethod : ∀ b ∈ a.method, isWordByte b = true := by
    rw [hk.method]
    cases k <;> decide +kernel
  rw [h.requestLine, requestLine_of_words hmethod hk.url (pathOffset_origin horigin) horigin, hk.method,
    Handler.methodOf_name, (routeOf_eq_iff k).mpr hk.path]
  rfl

theorem decoded (h : Carries a fields q) (k : Handler) {token : Option Bytes}
    (htoken : valuesOf (ascii "Authorization") a.headers = (token.map (ascii "Bearer " ++ ·)).toList)
    {head : Head} (hhead : q.headers.foldl (fun h line => h.headerLine (cstr line)) (a.lineHead k) = head) :
    head.state.Decodes k ∧
      (∀ body, head.request k body = ⟨k, k.method, a.url, token.getD [], body⟩) ∧
      (a.data = some (.string q.body) → head.state.contentLength = q.body.length) := by
  have hstate : head.state =
      q.headers.foldl (fun s line => s.headerLine (cstr line)) (a.lineHead k).state := by
    rw [← hhead, Head.foldl_state]
  have hmethod : head.state.method = k.method := by
    rw [hstate, Head.foldl_method]
    rfl
  have hroute : head.state.apireq = k.apireq := by
    rw [hstate, foldl_apireq]
    rfl
  have hlast : head.state.token = token.getD [] := by
    rw [hstate, foldl_headerLine headerLine_token, h.token htoken]
    rfl
  have htarget : head.target = a.url := by
    rw [← hhead, Head.foldl_target]
    rfl
  refine ⟨⟨hmethod, hroute⟩, fun body => ?_, fun hdata => ?_⟩
  · rw [Head.request, hmethod, htarget, hlast]
  · rw [hstate, foldl_headerLine headerLine_contentLength_eq, h.length hdata]
    rfl

/-- The server waits until the header block is complete. -/
theorem feed_isSome (h : Carries a fields q) {k : Handler} (hk : LeadsTo a k) (c : Conn)
    (cut : Chunking q.bytes)
    (hcut : cut.before.flatten.length < (lines (q.requestLine :: q.headers) ++ crlf).length) :
    ∃ c', c.init.feed cut.before = some c' := by
  have hflatten : cut.before.flatten ++ cut.last = q.bytes := by simpa using cut.flatten
  have hpre : cut.before.flatten = q.bytes.take cut.before.flatten.length := by
    have htake := congrArg (List.take cut.before.flatten.length) hflatten
    rwa [List.take_left] at htake
  have hsize : cut.before.flatten.length < readBufferSize := by
    have hlength := congrArg List.length hflatten
    have hfits := h.size
    rw [List.length_append] at hlength
    omega
  have hdecision : q.decisionPoint = (lines (q.requestLine :: q.headers) ++ crlf).length := by
    rw [RequestText.decisionPoint, h.accepted hk]
  have hread := q.read_take cut.before.flatten.length
  rw [← hpre, hdecision] at hread
  apply Option.isSome_iff_exists.mp
  rw [feed_isSome_iff c (fun chunk hc => cut.nonempty chunk (List.mem_append_left _ hc)) hsize]
  exact hread.mpr hcut

theorem round (h : Carries a fields q) {k : Handler} (hk : LeadsTo a k) {token : Option Bytes}
    (htoken : valuesOf (ascii "Authorization") a.headers = (token.map (ascii "Bearer " ++ ·)).toList)
    {c c' : Conn} {cut : Chunking q.bytes} (hfeed : c.init.feed cut.before = some c') :
    ∃ d, c'.round cut.last = some (.ok (d, .handler ⟨k, k.method, a.url, token.getD [], q.body⟩)) := by
  obtain ⟨result, hround, -⟩ := c.feed_round cut h.size hfeed
  obtain ⟨d, pre, hr, hindex, hpre, hresult⟩ :=
    RequestText.round_dispatch h.size (h.accepted hk) hfeed hround
  rw [hround, hresult]
  generalize hhead : List.foldl _ _ q.headers = head at hr
  obtain ⟨hdecodes, hrequest, hlength⟩ := h.decoded k htoken hhead
  rcases h.body with ⟨hnone, hbody⟩ | hsome
  · have hrun : head.state.endOfHeaders = .run k := by
      refine RequestState.endOfHeaders_eq_run_iff.mpr ⟨?_, hdecodes⟩
      rw [← hk.data, hnone]
      rfl
    rw [hrun, hbody, ← hrequest, ← hr.request]
    exact ⟨d, rfl⟩
  · obtain ⟨hne, hnul⟩ := hk.body _ hsome
    replace hlength := hlength hsome
    have hbehind : k.behindBody = true := by
      rw [← hk.data, hsome]
      rfl
    have hcontent : head.state.endOfHeaders = .content := by
      refine RequestState.endOfHeaders_eq_content_iff.mpr ⟨fun k' hk' => ?_, Or.inr ?_⟩
      · rw [Handler.eq_of_method_apireq (hk'.1.symm.trans hdecodes.1) (hk'.2.symm.trans hdecodes.2)]
        exact hbehind
      · rw [hlength]
        exact_mod_cast fun h => hne (List.eq_nil_of_length_eq_zero h)
    have hhandler : head.state.contentHandler = some k :=
      RequestState.contentHandler_eq_some_iff.mpr ⟨hbehind, hdecodes⟩
    have hsize : pre.length + q.body.length < readBufferSize := by
      have hbytes : q.bytes.length = pre.length + q.body.length := by
        rw [hpre, RequestText.bytes, List.length_append]
      exact hbytes ▸ h.size
    have hmax : (readBufferSize : ℤ) ≤ intMax := by decide
    have hverdict := hr.verdict (Or.inl (by omega))
    rw [Head.verdict, hcontent] at hverdict
    simp only [Head.content, hlength, hhandler] at hverdict
    rw [if_neg (by omega), if_pos (by push_cast; omega), if_pos (by omega), Int.toNat_natCast, List.take_length,
      cstr_eq_self hnul, hrequest] at hverdict
    rw [hcontent]
    cases hdispatch : d.dispatch .content with
    | error f =>
      rw [hdispatch] at hverdict
      cases hverdict
    | ok answer =>
      obtain ⟨d', v⟩ := answer
      rw [hdispatch] at hverdict
      cases hverdict
      exact ⟨d', rfl⟩

end Carries

end Frontend
end ResourceServer

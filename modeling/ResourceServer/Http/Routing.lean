import ResourceServer.Http.Fragmentation

/-!
# Routing

Every handler has one method and one path. The parser compares the method ignoring case and
takes a method it does not know for `GET`, and it compares every path but `/health` as a
prefix of the target.
-/

namespace ResourceServer
namespace Http

open CString

def Method.name : Method → Bytes
  | .get => ascii "GET"
  | .post => ascii "POST"
  | .head => ascii "HEAD"
  | .put => ascii "PUT"
  | .delete => ascii "DELETE"

namespace Handler

def method : Handler → Method
  | .getResources | .createDownloadUrl | .health => .get
  | .register | .login | .logout | .postResource | .createUploadUrl => .post
  | .putResource => .put
  | .deleteResource => .delete

def path : Handler → Bytes
  | .getResources | .postResource | .putResource | .deleteResource => ascii "/api/resources"
  | .register => ascii "/api/register"
  | .login => ascii "/api/login"
  | .logout => ascii "/api/logout"
  | .createUploadUrl => ascii "/api/files/upload-url"
  | .createDownloadUrl => ascii "/api/files/download-url"
  | .health => ascii "/health"

/-- The handlers that `parse_content` calls. -/
def behindBody : Handler → Bool
  | .register | .login | .logout | .postResource | .putResource | .createUploadUrl => true
  | _ => false

/-- The number `apireq` of a path. -/
def apireq : Handler → ℕ
  | .getResources | .postResource | .putResource | .deleteResource => 1
  | .login => 2
  | .logout => 3
  | .register => 4
  | .createUploadUrl => 5
  | .createDownloadUrl => 6
  | .health => 7

end Handler

/-- The bytes of a method or a target. -/
def isWordByte (b : UInt8) : Bool := b ≠ nul && notEol b && !blanks.contains b

/-- The part of a target before the first `?`. -/
def pathOf (target : Bytes) : Bytes := target.takeWhile (· ≠ 63)

def requestLineOf (method target : Bytes) : Bytes := method ++ 32 :: (target ++ 32 :: ascii "HTTP/1.1")

theorem notEol_of_isWordByte {b : UInt8} (h : isWordByte b = true) : notEol b = true := by
  simp only [isWordByte, Bool.and_eq_true] at h
  exact h.1.2

theorem ne_nul_of_isWordByte {b : UInt8} (h : isWordByte b = true) : b ≠ nul := by
  simp only [isWordByte, Bool.and_eq_true, decide_eq_true_eq] at h
  exact h.1.1

theorem notBlank_of_isWordByte {b : UInt8} (h : isWordByte b = true) : blanks.contains b = false := by
  simp only [isWordByte, Bool.and_eq_true, Bool.not_eq_true'] at h
  exact h.2

theorem requestLineOf_plain {method target : Bytes} (hmethod : ∀ b ∈ method, isWordByte b = true)
    (htarget : ∀ b ∈ target, isWordByte b = true) :
    ∀ b ∈ requestLineOf method target, notEol b = true ∧ b ≠ nul := by
  have hword : ∀ {b : UInt8}, isWordByte b = true → notEol b = true ∧ b ≠ nul := fun h =>
    ⟨notEol_of_isWordByte h, ne_nul_of_isWordByte h⟩
  intro b hb
  simp only [requestLineOf, List.mem_append, List.mem_cons] at hb
  rcases hb with hb | rfl | hb | rfl | hb
  · exact hword (hmethod b hb)
  · decide
  · exact hword (htarget b hb)
  · decide
  · have hversion : ∀ b ∈ ascii "HTTP/1.1", notEol b = true ∧ b ≠ nul := by decide +kernel
    exact hversion b hb

/-- A request with any method token and any origin-form target. -/
structure RoutedRequest where
  method : Bytes
  target : Bytes
  headers : List Bytes
  body : Bytes
  method_word : ∀ b ∈ method, isWordByte b
  target_word : ∀ b ∈ target, isWordByte b
  origin : target.head? = some slash
  headers_plain : ∀ line ∈ headers, ∀ b ∈ line, notEol b
  headers_ne_nil : ∀ line ∈ headers, cstr line ≠ []
  size : (lines (requestLineOf method target :: headers) ++ crlf ++ body).length < readBufferSize

namespace RoutedRequest

def requestLine (q : RoutedRequest) : Bytes := requestLineOf q.method q.target

theorem requestLine_plain (q : RoutedRequest) : ∀ b ∈ q.requestLine, notEol b := fun b hb =>
  (requestLineOf_plain q.method_word q.target_word b hb).1

def text (q : RoutedRequest) : RequestText where
  requestLine := q.requestLine
  headers := q.headers
  body := q.body
  plain line hline := by
    rcases List.mem_cons.mp hline with rfl | hline
    · exact q.requestLine_plain
    · exact q.headers_plain line hline
  headers_ne_nil := q.headers_ne_nil

/-- The documented pair of method and path is that of `k`. -/
def Names (q : RoutedRequest) (k : Handler) : Prop := q.method = k.method.name ∧ pathOf q.target = k.path

instance (q : RoutedRequest) (k : Handler) : Decidable (q.Names k) :=
  inferInstanceAs (Decidable (_ ∧ _))

/-- The method and the target are taken for those of `k`. -/
def TakenFor (q : RoutedRequest) (k : Handler) : Prop :=
  methodOf q.method .get = k.method ∧ (k.path <+: q.target ∧ (k = .health → q.target = k.path))

end RoutedRequest

/-- Only the handler of the documented pair is reached, and a request without such a pair is
answered without a handler. -/
def RoutesExactly (q : RoutedRequest) : Prop :=
  ∀ (c : Conn) (cut : Chunking q.text.bytes) (c' : Conn) (result : Except Fault (Conn × Verdict)),
    c.init.feed cut.before = some c' → c'.round cut.last = some result →
      (∀ d r, result = .ok (d, .handler r) → q.Names r.handler) ∧
      ((∀ k, ¬ q.Names k) → ∃ d code, result = .ok (d, .code code) ∧
        (code = .badRequest ∨ code = .noResource))

theorem strpbrk_word {word rest : Bytes} (hword : ∀ b ∈ word, isWordByte b = true) :
    strpbrk (word ++ 32 :: rest) blanks = some word.length := by
  rw [strpbrk, List.findIdx?_eq_some_iff_getElem]
  refine ⟨by simp, by simp [blanks]; decide, fun i hi => ?_⟩
  rw [List.getElem_append_left hi]
  have := notBlank_of_isWordByte (hword _ (List.getElem_mem hi))
  simpa using this

theorem pathOffset_origin {url : Bytes} (horigin : url.head? = some slash) : pathOffset url = some 0 := by
  have hscheme : strncasecmp url (ascii "http://") 7 = false := by
    by_contra h
    rw [Bool.not_eq_false] at h
    have hhead : (url.take 7).map toLower = ((ascii "http://").take 7).map toLower := by
      simpa [strncasecmp, strcasecmp] using h
    cases url with
    | nil => simp at horigin
    | cons b rest =>
      cases horigin
      have hfirst := (List.cons.inj hhead).1
      exact absurd hfirst (by decide)
  rw [pathOffset, hscheme]
  rfl

theorem requestLine_of_words {method target : Bytes} {k : ℕ}
    (hmethod : ∀ b ∈ method, isWordByte b = true) (htarget : ∀ b ∈ target, isWordByte b = true)
    (hpath : pathOffset target = some k) (hslash : (target.drop k).head? = some slash) :
    Head.initial.requestLine (cstr (requestLineOf method target)) = some
      { state := { RequestState.initial with
          method := methodOf method .get
          apireq := routeOf target 0
          checkState := .header }
        target := target.drop k } := by
  have hnul : nul ∉ requestLineOf method target := fun h =>
    (requestLineOf_plain hmethod htarget nul h).2 rfl
  have hfirst : strpbrk (requestLineOf method target) blanks = some method.length := strpbrk_word hmethod
  have hrest : (requestLineOf method target).drop (method.length + 1) =
      target ++ 32 :: ascii "HTTP/1.1" := by
    simp [requestLineOf]
  have hsecond : strpbrk (target ++ 32 :: ascii "HTTP/1.1") blanks = some target.length :=
    strpbrk_word htarget
  have htake : (requestLineOf method target).take method.length = method := by simp [requestLineOf]
  have hurl : (target ++ 32 :: ascii "HTTP/1.1").take target.length = target := List.take_left
  have hversion : (target ++ 32 :: ascii "HTTP/1.1").drop (target.length + 1) = ascii "HTTP/1.1" := by
    simp
  have haccepted : strcasecmp (ascii "HTTP/1.1") (ascii "HTTP/1.1") = true := by decide
  rw [cstr_eq_self hnul, Head.requestLine, hfirst]
  simp only [hrest, hsecond, htake, hurl, hversion, haccepted, hpath]
  simp [hslash, Head.initial, RequestState.initial]

theorem RoutedRequest.requestLine_eq (q : RoutedRequest) :
    Head.initial.requestLine (cstr q.requestLine) = some
      { state := { RequestState.initial with
          method := methodOf q.method .get
          apireq := routeOf q.target 0
          checkState := .header }
        target := q.target } :=
  requestLine_of_words q.method_word q.target_word (pathOffset_origin q.origin) q.origin

theorem prefix_of_strncmp {url p : Bytes} {n : ℕ} (hn : p.length = n) (h : strncmp url p n = true) :
    p <+: url := by
  have htake : url.take n = p.take n := by simpa [strncmp] using h
  rw [List.prefix_iff_eq_take, hn, htake, ← hn, List.take_length]

/-- The number of a path is given to the targets that start with it. -/
theorem routeOf_eq_iff {url : Bytes} (k : Handler) :
    routeOf url 0 = k.apireq ↔ k.path <+: url ∧ (k = .health → url = k.path) := by
  constructor
  · intro h
    unfold routeOf at h
    dsimp only at h
    split_ifs at h with h7 h6 h5 h4 h3 h2 h1
    · cases k <;> cases h
      exact ⟨h7 ▸ List.prefix_rfl, fun _ => h7⟩
    · cases k <;> cases h
      exact ⟨prefix_of_strncmp rfl h6, nofun⟩
    · cases k <;> cases h
      exact ⟨prefix_of_strncmp rfl h5, nofun⟩
    · cases k <;> cases h
      exact ⟨prefix_of_strncmp rfl h4, nofun⟩
    · cases k <;> cases h
      exact ⟨prefix_of_strncmp rfl h3, nofun⟩
    · cases k <;> cases h
      exact ⟨prefix_of_strncmp rfl h2, nofun⟩
    · cases k <;> cases h
      all_goals exact ⟨prefix_of_strncmp rfl h1, nofun⟩
    · cases k <;> cases h
  · rintro ⟨⟨tail, rfl⟩, hhealth⟩
    cases k with
    | health =>
      rw [hhealth rfl]
      rfl
    | register | login | logout | getResources | deleteResource | postResource | putResource
    | createUploadUrl | createDownloadUrl => rfl

namespace RequestState

/-- The method and the path number of `k`. -/
def Decodes (s : RequestState) (k : Handler) : Prop := s.method = k.method ∧ s.apireq = k.apireq

theorem endOfHeaders_eq_run_iff {s : RequestState} {k : Handler} :
    s.endOfHeaders = .run k ↔ k.behindBody = false ∧ s.Decodes k := by
  unfold endOfHeaders Decodes
  constructor
  · intro h
    split_ifs at h <;> cases h <;> simp_all [Handler.behindBody, Handler.method, Handler.apireq]
  · rintro ⟨hbody, hmethod, hroute⟩
    rw [hmethod, hroute]
    cases k <;> first | rfl | cases hbody

theorem contentHandler_eq_some_iff {s : RequestState} {k : Handler} :
    s.contentHandler = some k ↔ k.behindBody = true ∧ s.Decodes k := by
  unfold contentHandler Decodes
  constructor
  · intro h
    split_ifs at h <;> cases h <;> simp_all [Handler.behindBody, Handler.method, Handler.apireq]
  · rintro ⟨hbody, hmethod, hroute⟩
    rw [hmethod, hroute]
    cases k <;> first | rfl | cases hbody

/-- `parse_content` is reached on four routes of `POST`, and elsewhere with a length. -/
theorem endOfHeaders_eq_content_iff {s : RequestState} :
    s.endOfHeaders = .content ↔ (∀ k, s.Decodes k → k.behindBody = true) ∧
      ((∃ k, s.Decodes k ∧ k.method = .post ∧ k ≠ .postResource) ∨ s.contentLength ≠ 0) := by
  constructor
  · intro h
    constructor
    · intro k hk
      by_contra hbody
      rw [Bool.not_eq_true] at hbody
      rw [endOfHeaders_eq_run_iff.mpr ⟨hbody, hk⟩] at h
      cases h
    · unfold endOfHeaders at h
      split_ifs at h with h1 h2 hpost h4 h5 hlength
      · obtain ⟨hmethod, hroute | hroute | hroute | hroute⟩ := hpost
        · exact Or.inl ⟨.login, ⟨hmethod, hroute⟩, rfl, nofun⟩
        · exact Or.inl ⟨.logout, ⟨hmethod, hroute⟩, rfl, nofun⟩
        · exact Or.inl ⟨.register, ⟨hmethod, hroute⟩, rfl, nofun⟩
        · exact Or.inl ⟨.createUploadUrl, ⟨hmethod, hroute⟩, rfl, nofun⟩
      · exact Or.inr hlength
  · rintro ⟨hbody, ⟨k, ⟨hmethod, hroute⟩, hpost, hne⟩ | hlength⟩
    · rw [endOfHeaders, hmethod, hroute]
      cases k <;> first | rfl | exact absurd rfl hne | cases hpost
    · unfold endOfHeaders
      split_ifs with h1 h2 h3 h4 h5
      · cases hbody .deleteResource ⟨h1.2, h1.1⟩
      · cases hbody .getResources ⟨h2.2, h2.1⟩
      · rfl
      · cases hbody .createDownloadUrl ⟨h4.2, h4.1⟩
      · cases hbody .health ⟨h5.2, h5.1⟩
      · rfl

end RequestState

namespace Handler

theorem eq_of_method_apireq {k k' : Handler} (hmethod : k.method = k'.method)
    (hroute : k.apireq = k'.apireq) : k = k' := by
  revert hmethod hroute
  cases k <;> cases k' <;> decide

theorem methodOf_name (k : Handler) : methodOf k.method.name .get = k.method := by
  cases k <;> decide +kernel

theorem query_notMem_path (k : Handler) : (63 : UInt8) ∉ k.path := by
  cases k <;> decide

end Handler

namespace RoutedRequest

variable {q : RoutedRequest} {k k' : Handler}

theorem Names.unique (hnames : q.Names k) (htaken : q.TakenFor k') : k' = k := by
  obtain ⟨hmethod, hpath⟩ := hnames
  obtain ⟨hmethod', hpath', hhealth⟩ := htaken
  have hmethods : k'.method = k.method := by rw [← hmethod', hmethod, k.methodOf_name]
  have hsplit : q.target = k.path ++ q.target.dropWhile (· ≠ 63) := by
    rw [← hpath, pathOf, List.takeWhile_append_dropWhile]
  -- the path of `k'` has no `?`, so it ends within that of `k`
  have hwithin : k'.path <+: k.path := by
    rw [← hpath]
    obtain ⟨tail, htail⟩ := hpath'
    have htake : pathOf q.target = k'.path ++ pathOf tail := by
      rw [← htail, pathOf, List.takeWhile_append_of_pos]
      · rfl
      · intro b hb
        have : b ≠ 63 := fun heq => k'.query_notMem_path (heq ▸ hb)
        simpa using this
    exact ⟨pathOf tail, htake.symm⟩
  have hroutes : k'.apireq = k.apireq := by
    revert hwithin
    cases k <;> cases k' <;> decide
  exact Handler.eq_of_method_apireq hmethods hroutes

end RoutedRequest

theorem parseContent_answered_iff {c : Conn} (hsize : c.readIndex < readBufferSize) :
    (∃ d code, parseContent c c.checkedIndex = .ok (d, .code code) ∧
        (code = .badRequest ∨ code = .noResource)) ↔
      0 ≤ c.contentLength + c.checkedIndex ∧ c.contentLength + c.checkedIndex ≤ intMax ∧
        (c.contentHandler.isSome → (c.readIndex : ℤ) < c.contentLength + c.checkedIndex) := by
  constructor
  · rintro ⟨d, code, hresult, -⟩
    obtain ⟨hlow, hmax, -⟩ := (parseContent_ok_iff hsize.le).mp ⟨d, _, hresult⟩
    refine ⟨hlow, hmax, fun hk => ?_⟩
    rcases parseContent_cases hresult with ⟨hshort, -⟩ | ⟨-, rfl, hverdict⟩
    · exact hshort
    · have hnone : c.contentHandler = none := (contentVerdict_eq_code hverdict.symm).1
      rw [hnone] at hk
      cases hk
  · rintro ⟨hlow, hmax, hbody⟩
    have hinside := (endInRange_of_room hsize).mpr ⟨hlow, hmax⟩
    obtain ⟨d, v, hresult⟩ := (parseContent_ok_iff hsize.le).mpr hinside
    rcases parseContent_cases hresult with ⟨-, -, rfl⟩ | ⟨hfull, hd, rfl⟩
    · exact ⟨d, .badRequest, hresult, Or.inl rfl⟩
    · have hnone : d.contentHandler = none := by
        rw [hd]
        by_contra hk
        exact absurd (hbody (Option.isSome_iff_ne_none.mpr hk)) (not_lt.mpr hfull)
      rw [Conn.contentVerdict, hnone] at hresult
      exact ⟨d, .noResource, hresult, Or.inr rfl⟩

theorem parseContent_handler {c d : Conn} {text : ℕ} {r : Request}
    (hresult : parseContent c text = .ok (d, .handler r)) : c.contentHandler = some r.handler := by
  rcases parseContent_cases hresult with ⟨-, -, hverdict⟩ | ⟨-, rfl, hverdict⟩
  · cases hverdict
  · obtain ⟨k, hk, rfl⟩ := contentVerdict_eq_handler hverdict.symm
    exact hk

namespace Reading

variable {c : Conn} {h : Head} {pre rest : Bytes}

theorem dispatch_handler (hr : Reading c h pre [] rest) {d : Conn} {r : Request}
    (hresult : c.dispatch h.state.endOfHeaders = .ok (d, .handler r)) : h.state.Decodes r.handler := by
  cases hdispatch : h.state.endOfHeaders with
  | run k =>
    rw [hdispatch] at hresult
    cases hresult
    exact (RequestState.endOfHeaders_eq_run_iff.mp hdispatch).2
  | notFound =>
    rw [hdispatch] at hresult
    cases hresult
  | content =>
    rw [hdispatch] at hresult
    have hhandler := parseContent_handler hresult
    rw [hr.atBody.state] at hhandler
    exact (RequestState.contentHandler_eq_some_iff.mp hhandler).2

theorem dispatch_answered_iff (hr : Reading c h pre [] rest) (hsize : c.readIndex < readBufferSize) :
    (∃ d code, c.dispatch h.state.endOfHeaders = .ok (d, .code code) ∧
        (code = .badRequest ∨ code = .noResource)) ↔
      (∀ k, h.state.Decodes k → k.behindBody = true) ∧
        (h.state.endOfHeaders = .content →
          0 ≤ h.state.contentLength + pre.length ∧ h.state.contentLength + pre.length ≤ intMax ∧
            (h.state.contentHandler.isSome → (c.readIndex : ℤ) < h.state.contentLength + pre.length)) := by
  cases hdispatch : h.state.endOfHeaders with
  | run k =>
    refine iff_of_false ?_ ?_
    · rintro ⟨d, code, hresult, -⟩
      cases hresult
    · rintro ⟨hbody, -⟩
      obtain ⟨hk, hdecodes⟩ := RequestState.endOfHeaders_eq_run_iff.mp hdispatch
      rw [hbody k hdecodes] at hk
      cases hk
  | notFound =>
    refine iff_of_true ⟨c, .noResource, rfl, Or.inr rfl⟩ ⟨fun k hk => ?_, nofun⟩
    by_contra hbody
    rw [Bool.not_eq_true] at hbody
    rw [RequestState.endOfHeaders_eq_run_iff.mpr ⟨hbody, hk⟩] at hdispatch
    cases hdispatch
  | content =>
    have hparse := parseContent_answered_iff (c := { c with checkState := .content }) hsize
    have hbody := hr.atBody
    rw [hbody.checked, hbody.state] at hparse
    refine Iff.trans ?_ (hparse.trans ?_)
    · rw [Conn.dispatch, hbody.checked]
    · exact ⟨fun hc => ⟨(RequestState.endOfHeaders_eq_content_iff.mp hdispatch).1, fun _ => hc⟩,
        fun hc => hc.2 rfl⟩

end Reading

theorem RequestState.headerLine_apireq (s : RequestState) (line : Bytes) :
    (s.headerLine line).apireq = s.apireq := by
  unfold headerLine
  split_ifs <;> simp only <;> split_ifs <;> rfl

theorem foldl_apireq (headers : List Bytes) (s : RequestState) :
    (headers.foldl (fun s line => s.headerLine (cstr line)) s).apireq = s.apireq := by
  induction headers generalizing s with
  | nil => rfl
  | cons line headers ih => rw [List.foldl_cons, ih, RequestState.headerLine_apireq]

namespace RoutedRequest

variable {q : RoutedRequest}

def bodyStart (q : RoutedRequest) : ℕ := (lines (q.requestLine :: q.headers) ++ crlf).length

/-- Where the body ends if its length is the announced one. -/
def bodyEnd (q : RoutedRequest) : ℤ := declaredLength q.headers + q.bodyStart

/-- Four routes of `POST` wait for a body, and so does any request with a length. -/
def AnnouncesBody (q : RoutedRequest) : Prop :=
  (∃ k, q.TakenFor k ∧ k.method = .post ∧ k ≠ .postResource) ∨ declaredLength q.headers ≠ 0

/-- No handler is reached: none without a body, and none behind one because the body is not
complete; and the end of the body is an `int`. -/
def Falls (q : RoutedRequest) : Prop :=
  (∀ k, q.TakenFor k → k.behindBody = true) ∧
    (q.AnnouncesBody → 0 ≤ q.bodyEnd ∧ q.bodyEnd ≤ intMax ∧
      ((∃ k, q.TakenFor k) → (q.text.bytes.length : ℤ) < q.bodyEnd))

theorem decodes_iff {s : RequestState} (hmethod : s.method = methodOf q.method .get)
    (hroute : s.apireq = routeOf q.target 0) (k : Handler) : s.Decodes k ↔ q.TakenFor k := by
  rw [RequestState.Decodes, TakenFor, hmethod, hroute, routeOf_eq_iff]

theorem round_spec {c c' : Conn} {cut : Chunking q.text.bytes} {result : Except Fault (Conn × Verdict)}
    (hfeed : c.init.feed cut.before = some c') (hround : c'.round cut.last = some result) :
    (∀ d r, result = .ok (d, .handler r) → q.TakenFor r.handler) ∧
      ((∃ d code, result = .ok (d, .code code) ∧ (code = .badRequest ∨ code = .noResource)) ↔ q.Falls) := by
  obtain ⟨d, pre, hr, hindex, hpre, rfl⟩ :=
    RequestText.round_dispatch (r := q.text) q.size q.requestLine_eq hfeed hround
  have hpre : pre.length = q.bodyStart := hpre
  generalize hh : List.foldl _ _ q.text.headers = h at hr hround ⊢
  have hdecodes (k : Handler) : h.state.Decodes k ↔ q.TakenFor k := by
    subst hh
    refine decodes_iff ?_ ?_ k
    · rw [Head.foldl_state, Head.foldl_method]
    · rw [Head.foldl_state, foldl_apireq]
  have hlength : h.state.contentLength = declaredLength q.headers := by
    subst hh
    rw [Head.foldl_state]
    exact Head.foldl_contentLength _ rfl
  constructor
  · rintro d' r hresult
    exact (hdecodes _).mp (hr.dispatch_handler hresult)
  · rw [hr.dispatch_answered_iff (hindex.trans_lt q.size), RequestState.endOfHeaders_eq_content_iff,
      hindex, hpre, hlength]
    simp only [hdecodes]
    refine and_congr_right fun hbody => ?_
    have hsome : h.state.contentHandler.isSome ↔ ∃ k, q.TakenFor k := by
      rw [Option.isSome_iff_exists]
      refine exists_congr fun k => ?_
      rw [RequestState.contentHandler_eq_some_iff, hdecodes]
      exact ⟨And.right, fun hk => ⟨hbody k hk, hk⟩⟩
    rw [hsome]
    exact ⟨fun hcontent hannounces => hcontent ⟨hbody, hannounces⟩,
      fun hcontent hcase => hcontent hcase.2⟩

end RoutedRequest

/-- One read of the whole request shows what it is taken for. -/
theorem RoutesExactly.falls {q : RoutedRequest} (hexact : RoutesExactly q) (hnone : ∀ k, ¬ q.Names k) :
    q.Falls := by
  have hne : q.text.bytes ≠ [] := by simp [RequestText.bytes, crlf]
  obtain ⟨result, hround, -⟩ := (Conn.accepted ⟨0, []⟩).feed_round (.whole hne) q.size rfl
  have hanswered := (hexact _ (.whole hne) _ _ rfl hround).2 hnone
  exact (RoutedRequest.round_spec rfl hround).2.mp hanswered

/-- A request is routed exactly if and only if its method and path are documented, or what
they are taken for leads to no handler either. -/
theorem routing_exact_iff (q : RoutedRequest) :
    RoutesExactly q ↔ (∃ k, q.Names k) ∨ q.Falls := by
  constructor
  · intro hexact
    by_cases hnames : ∃ k, q.Names k
    · exact Or.inl hnames
    · exact Or.inr (hexact.falls (not_exists.mp hnames))
  · rintro hcases c cut c' result hfeed hround
    obtain ⟨htaken, hfalls⟩ := RoutedRequest.round_spec hfeed hround
    constructor
    · rintro d r rfl
      rcases hcases with ⟨k, hnames⟩ | hcase
      · rwa [hnames.unique (htaken d r rfl)]
      · obtain ⟨d', code, hcode, -⟩ := hfalls.mpr hcase
        cases hcode
    · intro hnone
      exact hfalls.mpr (hcases.resolve_left (not_exists.mpr hnone))

/-- A path that is no route, but starts like one. -/
def longerPath : RoutedRequest where
  method := ascii "GET"
  target := ascii "/api/resourcesX"
  headers := []
  body := []
  method_word := by decide +kernel
  target_word := by decide +kernel
  origin := by decide
  headers_plain := by simp
  headers_ne_nil := by simp
  size := by decide

/-- A method that the server does not have. -/
def unknownMethod : RoutedRequest where
  method := ascii "PATCH"
  target := ascii "/api/resources"
  headers := []
  body := []
  method_word := by decide +kernel
  target_word := by decide +kernel
  origin := by decide
  headers_plain := by simp
  headers_ne_nil := by simp
  size := by decide

/-- Both are answered with a list of resources. -/
theorem stray_requests_listed : ¬ RoutesExactly longerPath ∧ ¬ RoutesExactly unknownMethod := by
  constructor
  · intro hexact
    have htaken : longerPath.TakenFor .getResources := ⟨by decide, by decide, nofun⟩
    have hfalls := hexact.falls fun k => by cases k <;> decide
    cases hfalls.1 _ htaken
  · intro hexact
    have htaken : unknownMethod.TakenFor .getResources := ⟨by decide, by decide, nofun⟩
    have hfalls := hexact.falls fun k => by cases k <;> decide
    cases hfalls.1 _ htaken

end Http
end ResourceServer

import ResourceServer.Http.Routing

/-!
# Absolute-form targets

A target `http://host/path` is cut down to its path, but only after the routes have been
compared with the whole target, so that no absolute form has a route.
-/

namespace ResourceServer
namespace Http

open CString

/-- A request whose target can also be given with a scheme and a host in front. -/
structure HostedRequest extends RoutedRequest where
  host : Bytes
  host_word : ∀ b ∈ host, isWordByte b
  host_authority : slash ∉ host
  absolute_size : (lines (requestLineOf method (ascii "http://" ++ host ++ target) :: headers) ++
    crlf ++ body).length < readBufferSize

namespace HostedRequest

def absoluteTarget (q : HostedRequest) : Bytes := ascii "http://" ++ q.host ++ q.target

theorem absoluteTarget_word (q : HostedRequest) : ∀ b ∈ q.absoluteTarget, isWordByte b = true := by
  have hscheme : ∀ b ∈ ascii "http://", isWordByte b = true := by decide +kernel
  intro b hb
  simp only [absoluteTarget, List.mem_append] at hb
  rcases hb with (hb | hb) | hb
  · exact hscheme b hb
  · exact q.host_word b hb
  · exact q.target_word b hb

theorem pathOffset_absolute (q : HostedRequest) :
    pathOffset q.absoluteTarget = some (7 + q.host.length) := by
  have hscheme : strncasecmp q.absoluteTarget (ascii "http://") 7 = true := by
    rw [absoluteTarget, List.append_assoc]
    simp [strncasecmp, strcasecmp, ascii]
  have hdrop : q.absoluteTarget.drop 7 = q.host ++ q.target := by
    rw [absoluteTarget, List.append_assoc]
    rfl
  have hfirst : strchr (q.host ++ q.target) slash = some q.host.length := by
    obtain ⟨rest, hrest⟩ : ∃ rest, q.target = slash :: rest := by
      cases ht : q.target with
      | nil =>
        have horigin := q.origin
        rw [ht] at horigin
        cases horigin
      | cons b rest =>
        have horigin := q.origin
        rw [ht] at horigin
        cases horigin
        exact ⟨rest, rfl⟩
    rw [hrest, strchr, List.findIdx?_eq_some_iff_getElem]
    refine ⟨by simp, by simp, fun i hi => ?_⟩
    rw [List.getElem_append_left hi]
    have hne : q.host[i] ≠ slash := fun h => q.host_authority (h ▸ List.getElem_mem hi)
    simpa using hne
  rw [pathOffset, hscheme, hdrop, hfirst]
  rfl

/-- No route starts like a scheme. -/
theorem routeOf_absolute (q : HostedRequest) : routeOf q.absoluteTarget 0 = 0 := by
  obtain ⟨rest, hrest⟩ : ∃ rest, q.absoluteTarget = 104 :: rest := by
    rw [absoluteTarget, List.append_assoc]
    exact ⟨_, rfl⟩
  rw [hrest]
  rfl

def absolute (q : HostedRequest) : RequestText where
  requestLine := requestLineOf q.method q.absoluteTarget
  headers := q.headers
  body := q.body
  plain line hline := by
    rcases List.mem_cons.mp hline with rfl | hline
    · exact fun b hb => (requestLineOf_plain q.method_word q.absoluteTarget_word b hb).1
    · exact q.headers_plain line hline
  headers_ne_nil := q.headers_ne_nil

theorem absolute_requestLine (q : HostedRequest) :
    Head.initial.requestLine (cstr q.absolute.requestLine) = some
      { state := { RequestState.initial with
          method := methodOf q.method .get
          apireq := 0
          checkState := .header }
        target := q.target } := by
  have hdrop : q.absoluteTarget.drop (7 + q.host.length) = q.target := by
    have hlen : 7 + q.host.length = (ascii "http://" ++ q.host).length := by
      simp [ascii]
      omega
    rw [absoluteTarget, hlen, List.drop_left]
  have h := requestLine_of_words q.method_word q.absoluteTarget_word q.pathOffset_absolute
    (by rw [hdrop]; exact q.origin)
  rw [hdrop, q.routeOf_absolute] at h
  exact h

end HostedRequest

/-- The handler with its parameters, or the code; none where the parser has left the buffer or
the range of `int`. -/
def answerOf (result : Except Fault (Conn × Verdict)) : Option Verdict := result.toOption.map Prod.snd

/-- A handler is called behind this head, with `available` bytes of a body from `start` on. -/
def RequestState.CallsHandler (s : RequestState) (start available : ℕ) : Prop :=
  (∃ k, s.endOfHeaders = .run k) ∨ s.endOfHeaders = .content ∧ s.contentHandler.isSome ∧
    s.contentLength ≤ available ∧ 0 ≤ s.contentLength + start

/-- The answer to a request for which no handler is called. -/
def fallen (length : ℤ) (start available : ℕ) : Option Verdict :=
  if length = 0 then some (.code .noResource)
  else if length + start < 0 ∨ intMax < length + start then none
  else if available < length then some (.code .badRequest) else some (.code .noResource)

namespace AtBody

variable {c : Conn} {h : Head} {pre rest : Bytes}

theorem readIndex (hc : AtBody c h pre rest) : c.readIndex = pre.length + rest.length := by
  simp [Conn.readIndex, hc.buffer]

theorem bodyEnd (hc : AtBody c h pre rest) :
    c.contentLength + c.checkedIndex = h.state.contentLength + pre.length := by
  rw [hc.checked, hc.state]

theorem answer_none (hc : AtBody c h pre rest) (hsize : c.readIndex < readBufferSize)
    (hrange : h.state.contentLength + pre.length < 0 ∨
      intMax < h.state.contentLength + pre.length) :
    answerOf (parseContent c c.checkedIndex) = none := by
  have hok := parseContent_ok_iff hsize.le
  rw [hc.bodyEnd, endInRange_of_room hsize] at hok
  cases hresult : parseContent c c.checkedIndex with
  | error f => rfl
  | ok p =>
    obtain ⟨hlow, hmax⟩ := hok.mp ⟨p.1, p.2, hresult⟩
    omega

theorem answer_some (hc : AtBody c h pre rest) (hsize : c.readIndex < readBufferSize)
    (hlow : 0 ≤ h.state.contentLength + pre.length)
    (hmax : h.state.contentLength + pre.length ≤ intMax) :
    (rest.length : ℤ) < h.state.contentLength ∧
        answerOf (parseContent c c.checkedIndex) = some (.code .badRequest) ∨
      h.state.contentLength ≤ rest.length ∧
        (h.state.contentHandler = none →
          answerOf (parseContent c c.checkedIndex) = some (.code .noResource)) ∧
        (h.state.contentHandler.isSome →
          ∃ r, answerOf (parseContent c c.checkedIndex) = some (.handler r)) := by
  have hindex := hc.readIndex
  have hhandler : c.contentHandler = h.state.contentHandler := by
    rw [hc.state]
    rfl
  have hok := parseContent_ok_iff hsize.le
  rw [hc.bodyEnd, endInRange_of_room hsize] at hok
  obtain ⟨d, v, hresult⟩ := hok.mpr ⟨hlow, hmax⟩
  have hanswer : answerOf (parseContent c c.checkedIndex) = some v := by
    rw [hresult]
    rfl
  rw [hanswer]
  rcases parseContent_cases hresult with ⟨hshort, -, rfl⟩ | ⟨hfull, hd, rfl⟩
  · left
    rw [hc.bodyEnd] at hshort
    exact ⟨by omega, rfl⟩
  · right
    rw [hc.bodyEnd] at hfull
    have hsame : d.contentHandler = h.state.contentHandler := by
      rw [hd]
      exact hhandler
    refine ⟨by omega, fun hnone => ?_, fun hsome => ?_⟩
    · rw [Conn.contentVerdict, hsame, hnone]
    · obtain ⟨k, hk⟩ := Option.isSome_iff_exists.mp hsome
      rw [Conn.contentVerdict, hsame, hk]
      exact ⟨_, rfl⟩

end AtBody

namespace Reading

variable {d : Conn} {h : Head} {pre rest : Bytes}

theorem answer_calls (hr : Reading d h pre [] rest) (hsize : d.readIndex < readBufferSize)
    (hcalls : h.state.CallsHandler pre.length rest.length) :
    ∃ r, answerOf (d.dispatch h.state.endOfHeaders) = some (.handler r) := by
  rcases hcalls with ⟨k, hrun⟩ | ⟨hcontent, hhandler, hle, hlow⟩
  · rw [hrun]
    exact ⟨_, rfl⟩
  · have hindex : d.readIndex = pre.length + rest.length := hr.atBody.readIndex
    have hmax : h.state.contentLength + pre.length ≤ intMax := by
      simp only [readBufferSize] at hsize
      simp only [intMax]
      omega
    rw [hcontent]
    rcases hr.atBody.answer_some hsize hlow hmax with ⟨hshort, -⟩ | ⟨-, -, hsome⟩
    · omega
    · exact hsome hhandler

theorem answer_fallen (hr : Reading d h pre [] rest) (hsize : d.readIndex < readBufferSize)
    (hcalls : ¬ h.state.CallsHandler pre.length rest.length) :
    answerOf (d.dispatch h.state.endOfHeaders) =
      fallen h.state.contentLength pre.length rest.length := by
  rw [RequestState.CallsHandler, not_or, not_exists] at hcalls
  obtain ⟨hrun, hbody⟩ := hcalls
  cases hdispatch : h.state.endOfHeaders with
  | run k => exact absurd hdispatch (hrun k)
  | notFound =>
    have hzero : h.state.contentLength = 0 := by
      unfold RequestState.endOfHeaders at hdispatch
      split_ifs at hdispatch with h1 h2 h3 h4 h5 h6
      exact not_not.mp h6
    rw [fallen, if_pos hzero]
    rfl
  | content =>
    have hindex : d.readIndex = pre.length + rest.length := hr.atBody.readIndex
    by_cases hrange : h.state.contentLength + pre.length < 0 ∨
        intMax < h.state.contentLength + pre.length
    · have hne : h.state.contentLength ≠ 0 := by
        intro hzero
        simp only [readBufferSize] at hsize
        simp only [hzero, intMax] at hrange
        omega
      rw [fallen, if_neg hne, if_pos hrange]
      exact hr.atBody.answer_none hsize hrange
    · have hlow : 0 ≤ h.state.contentLength + pre.length := by omega
      have hmax : h.state.contentLength + pre.length ≤ intMax := by omega
      rcases hr.atBody.answer_some hsize hlow hmax with ⟨hshort, hanswer⟩ | ⟨hfull, hnone, -⟩
      · rw [fallen, if_neg (by omega), if_neg hrange, if_pos hshort]
        exact hanswer
      · have hhandler : h.state.contentHandler = none := by
          by_contra hsome
          exact hbody ⟨hdispatch, Option.isSome_iff_ne_none.mpr hsome, hfull, hlow⟩
        have hthere : ¬ (rest.length : ℤ) < h.state.contentLength := not_lt.mpr hfull
        rw [fallen, if_neg hrange, if_neg hthere, ite_self]
        exact hnone hhandler

end Reading

/-- The place of the body shows only in whether there is an answer. -/
theorem fallen_eq_some_iff {length : ℤ} {start start' available : ℕ} :
    (∃ v, fallen length start available = some v ∧ fallen length start' available = some v) ↔
      (length ≠ 0 → (0 ≤ length + start ∧ length + start ≤ intMax) ∧
        0 ≤ length + start' ∧ length + start' ≤ intMax) := by
  unfold fallen
  by_cases hzero : length = 0
  · simp [hzero]
  · rw [if_neg hzero, if_neg hzero]
    by_cases hout : length + start < 0 ∨ intMax < length + start
    · rw [if_pos hout]
      exact iff_of_false (fun ⟨_, hv, _⟩ => nomatch hv) (by omega)
    · by_cases hout' : length + start' < 0 ∨ intMax < length + start'
      · rw [if_pos hout']
        exact iff_of_false (fun ⟨_, _, hv⟩ => nomatch hv) (by omega)
      · rw [if_neg hout, if_neg hout']
        refine iff_of_true ?_ (by omega)
        split_ifs <;> exact ⟨_, rfl, rfl⟩

namespace RoutedRequest

def CallsHandler (q : RoutedRequest) : Prop :=
  ∃ k, q.TakenFor k ∧ (k.behindBody = true →
    q.AnnouncesBody ∧ declaredLength q.headers ≤ q.body.length ∧ 0 ≤ q.bodyEnd)

theorem callsHandler_iff {q : RoutedRequest} {s : RequestState}
    (hdecodes : ∀ k, s.Decodes k ↔ q.TakenFor k) (hlength : s.contentLength = declaredLength q.headers) :
    s.CallsHandler q.bodyStart q.body.length ↔ q.CallsHandler := by
  constructor
  · rintro (⟨k, hrun⟩ | ⟨hcontent, hhandler, hle, hlow⟩)
    · obtain ⟨hbody, hk⟩ := RequestState.endOfHeaders_eq_run_iff.mp hrun
      exact ⟨k, (hdecodes k).mp hk, fun h => by rw [hbody] at h; cases h⟩
    · obtain ⟨k, hk⟩ := Option.isSome_iff_exists.mp hhandler
      obtain ⟨-, hk⟩ := RequestState.contentHandler_eq_some_iff.mp hk
      obtain ⟨-, hannounces⟩ := RequestState.endOfHeaders_eq_content_iff.mp hcontent
      rw [hlength] at hannounces hle hlow
      simp only [hdecodes] at hannounces
      exact ⟨k, (hdecodes k).mp hk, fun _ => ⟨hannounces, hle, hlow⟩⟩
  · rintro ⟨k, hk, hbody⟩
    have hk := (hdecodes k).mpr hk
    cases hbehind : k.behindBody with
    | false => exact Or.inl ⟨k, RequestState.endOfHeaders_eq_run_iff.mpr ⟨hbehind, hk⟩⟩
    | true =>
      obtain ⟨hannounces, hle, hlow⟩ := hbody hbehind
      have honly : ∀ k', s.Decodes k' → k'.behindBody = true := by
        intro k' hk'
        rw [Handler.eq_of_method_apireq (hk'.1.symm.trans hk.1) (hk'.2.symm.trans hk.2)]
        exact hbehind
      rw [AnnouncesBody, ← hlength] at hannounces
      simp only [← hdecodes] at hannounces
      refine Or.inr ⟨RequestState.endOfHeaders_eq_content_iff.mpr ⟨honly, hannounces⟩, ?_, ?_, ?_⟩
      · rw [RequestState.contentHandler_eq_some_iff.mpr ⟨hbehind, hk⟩]
        rfl
      · rwa [hlength]
      · rwa [hlength]

end RoutedRequest

/-- The two forms of a target get one answer, however each request arrives: neither parse leaves
the buffer or the range of `int`, and their verdicts are equal. -/
def SameAnswer (q : HostedRequest) : Prop :=
  ∀ (c₁ c₂ : Conn) (cut₁ : Chunking q.text.bytes) (cut₂ : Chunking q.absolute.bytes)
    (d₁ d₂ : Conn) (result₁ result₂ : Except Fault (Conn × Verdict)),
    c₁.init.feed cut₁.before = some d₁ → d₁.round cut₁.last = some result₁ →
    c₂.init.feed cut₂.before = some d₂ → d₂.round cut₂.last = some result₂ →
    ∃ v, answerOf result₁ = some v ∧ answerOf result₂ = some v

namespace HostedRequest

variable {q : HostedRequest} {c d : Conn} {result : Except Fault (Conn × Verdict)}

def absoluteStart (q : HostedRequest) : ℕ := q.bodyStart + 7 + q.host.length

/-- With its path as the target, the request is routed. -/
theorem origin_answer (cut : Chunking q.text.bytes) (hfeed : c.init.feed cut.before = some d)
    (hround : d.round cut.last = some result) :
    (q.CallsHandler → ∃ r, answerOf result = some (.handler r)) ∧
      (¬ q.CallsHandler →
        answerOf result = fallen (declaredLength q.headers) q.bodyStart q.body.length) := by
  obtain ⟨d', pre, hr, hindex, hpre, rfl⟩ :=
    RequestText.round_dispatch (r := q.text) q.size q.requestLine_eq hfeed hround
  have hpre : pre.length = q.bodyStart := hpre
  have hsize : d'.readIndex < readBufferSize := hindex.trans_lt q.size
  generalize hh : List.foldl _ _ q.text.headers = h at hr ⊢
  have hlength : h.state.contentLength = declaredLength q.headers := by
    rw [← hh, Head.foldl_state]
    exact Head.foldl_contentLength _ rfl
  have hdecodes (k : Handler) : h.state.Decodes k ↔ q.TakenFor k := by
    apply RoutedRequest.decodes_iff
    · rw [← hh, Head.foldl_state, Head.foldl_method]
    · rw [← hh, Head.foldl_state, foldl_apireq]
  have hcalls : h.state.CallsHandler pre.length q.body.length ↔ q.CallsHandler := by
    rw [hpre]
    exact RoutedRequest.callsHandler_iff hdecodes hlength
  constructor
  · intro hcase
    exact hr.answer_calls hsize (hcalls.mpr hcase)
  · intro hcase
    have hanswer := hr.answer_fallen hsize (mt hcalls.mp hcase)
    rwa [hlength, hpre] at hanswer

/-- With a scheme and a host in front, it falls through. -/
theorem absolute_answer (cut : Chunking q.absolute.bytes) (hfeed : c.init.feed cut.before = some d)
    (hround : d.round cut.last = some result) :
    answerOf result = fallen (declaredLength q.headers) q.absoluteStart q.body.length := by
  obtain ⟨d', pre, hr, hindex, hpre, rfl⟩ :=
    RequestText.round_dispatch (r := q.absolute) q.absolute_size q.absolute_requestLine hfeed hround
  have hsize : d'.readIndex < readBufferSize := hindex.trans_lt q.absolute_size
  have hpre : pre.length = q.absoluteStart := by
    rw [hpre]
    simp [absolute, absoluteStart, RoutedRequest.bodyStart, RoutedRequest.requestLine, requestLineOf,
      absoluteTarget, ascii]
    omega
  generalize hh : List.foldl _ _ q.absolute.headers = h at hr ⊢
  have hlength : h.state.contentLength = declaredLength q.headers := by
    rw [← hh, Head.foldl_state]
    exact Head.foldl_contentLength _ rfl
  have hroute : h.state.apireq = 0 := by
    rw [← hh, Head.foldl_state, foldl_apireq]
  have hnone : ∀ k, ¬ h.state.Decodes k := by
    rintro k ⟨-, hk⟩
    rw [hroute] at hk
    cases k <;> cases hk
  have hcalls : ¬ h.state.CallsHandler pre.length q.body.length := by
    rintro (⟨k, hrun⟩ | ⟨-, hhandler, -⟩)
    · exact hnone k (RequestState.endOfHeaders_eq_run_iff.mp hrun).2
    · obtain ⟨k, hk⟩ := Option.isSome_iff_exists.mp hhandler
      exact hnone k (RequestState.contentHandler_eq_some_iff.mp hk).2
  have hanswer := hr.answer_fallen hsize hcalls
  rwa [hlength, hpre] at hanswer

/-- In both forms the announced body ends neither before the buffer nor beyond the range of
`int`. -/
def EndsInRange (q : HostedRequest) : Prop :=
  declaredLength q.headers ≠ 0 →
    (0 ≤ declaredLength q.headers + q.bodyStart ∧ declaredLength q.headers + q.bodyStart ≤ intMax) ∧
      0 ≤ declaredLength q.headers + q.absoluteStart ∧
        declaredLength q.headers + q.absoluteStart ≤ intMax

/-- The two forms are equivalent exactly if the path leads to no handler, and the body they
announce ends in range in both. -/
theorem same_answer_iff (q : HostedRequest) : SameAnswer q ↔ ¬ q.CallsHandler ∧ q.EndsInRange := by
  constructor
  · intro hsame
    have hne₁ : q.text.bytes ≠ [] := by simp [RequestText.bytes, crlf]
    have hne₂ : q.absolute.bytes ≠ [] := by simp [RequestText.bytes, crlf]
    obtain ⟨result₁, hround₁, -⟩ := (Conn.accepted ⟨0, []⟩).feed_round (.whole hne₁) q.size rfl
    obtain ⟨result₂, hround₂, -⟩ :=
      (Conn.accepted ⟨0, []⟩).feed_round (.whole hne₂) q.absolute_size rfl
    obtain ⟨v, horigin, habsolute⟩ :=
      hsame _ _ (.whole hne₁) (.whole hne₂) _ _ _ _ rfl hround₁ rfl hround₂
    obtain ⟨hcalls, hfalls⟩ := origin_answer (.whole hne₁) rfl hround₁
    rw [absolute_answer (.whole hne₂) rfl hround₂] at habsolute
    have hno : ¬ q.CallsHandler := by
      intro hcase
      obtain ⟨r, hr⟩ := hcalls hcase
      cases hr.symm.trans horigin
      rw [fallen] at habsolute
      split_ifs at habsolute <;> cases habsolute
    rw [hfalls hno] at horigin
    exact ⟨hno, fallen_eq_some_iff.mp ⟨v, horigin, habsolute⟩⟩
  · rintro ⟨hno, hends⟩ c₁ c₂ cut₁ cut₂ d₁ d₂ result₁ result₂ hfeed₁ hround₁ hfeed₂ hround₂
    rw [(origin_answer cut₁ hfeed₁ hround₁).2 hno, absolute_answer cut₂ hfeed₂ hround₂]
    exact fallen_eq_some_iff.mpr hends

end HostedRequest

/-- A health check that names the host. -/
def hostedHealth : HostedRequest where
  method := ascii "GET"
  target := ascii "/health"
  headers := []
  body := []
  method_word := longerPath.method_word
  target_word := by decide +kernel
  origin := by decide
  headers_plain := longerPath.headers_plain
  headers_ne_nil := longerPath.headers_ne_nil
  size := by decide
  host := ascii "a"
  host_word := by decide +kernel
  host_authority := by decide
  absolute_size := by decide +kernel

/-- `GET /health` is answered by its handler, `GET http://a/health` with `NO_RESOURCE`. -/
theorem hosted_health_lost :
    ((Conn.accepted ⟨5, []⟩).round hostedHealth.text.bytes).map answerOf =
        some (some (.handler ⟨.health, .get, ascii "/health", [], []⟩)) ∧
      ((Conn.accepted ⟨5, []⟩).round hostedHealth.absolute.bytes).map answerOf =
        some (some (.code .noResource)) ∧
      ¬ SameAnswer hostedHealth := by
  have horigin : ((Conn.accepted ⟨5, []⟩).round hostedHealth.text.bytes).map answerOf =
      some (some (.handler ⟨.health, .get, ascii "/health", [], []⟩)) := by decide +kernel
  have habsolute : ((Conn.accepted ⟨5, []⟩).round hostedHealth.absolute.bytes).map answerOf =
      some (some (.code .noResource)) := by decide +kernel
  refine ⟨horigin, habsolute, fun hsame => ?_⟩
  obtain ⟨result₁, hround₁, hanswer₁⟩ := Option.map_eq_some_iff.mp horigin
  obtain ⟨result₂, hround₂, hanswer₂⟩ := Option.map_eq_some_iff.mp habsolute
  have hne₁ : hostedHealth.text.bytes ≠ [] := by simp [RequestText.bytes, crlf]
  have hne₂ : hostedHealth.absolute.bytes ≠ [] := by simp [RequestText.bytes, crlf]
  obtain ⟨v, hv₁, hv₂⟩ := hsame (.accepted ⟨5, []⟩) (.accepted ⟨5, []⟩) (.whole hne₁) (.whole hne₂)
    _ _ _ _ rfl hround₁ rfl hround₂
  cases hanswer₁.symm.trans hv₁
  cases hanswer₂.symm.trans hv₂

end Http
end ResourceServer

import ResourceServer.Http.Reading

/-!
# Resuming a request head

`processRead` refines `Head.read` from every connection that satisfies `Reading`, and
an incomplete read leaves such a connection behind. A later call therefore goes on
where the earlier one stopped.
-/

namespace ResourceServer
namespace Http

open CString

/-- The buffer is consumed up to `pre`, scanned without a line end through `clean`, and
not looked at in `tail`; the parser variables are those of `h`. -/
structure Reading (c : Conn) (h : Head) (pre clean tail : Bytes) : Prop where
  buffer : c.readBuf = pre ++ (clean ++ tail)
  start : c.startLine = pre.length
  checked : c.checkedIndex = pre.length + clean.length
  plain : ∀ b ∈ clean, notEol b
  size : c.readIndex ≤ readBufferSize
  ended : pre.getLast? ≠ some cr
  state : c.toRequestState = h.state
  target : c.target = h.target
  terminated : ∀ u, c.url = some u → nul ∈ pre.drop u
  notContent : h.state.checkState ≠ .content
  outgoing : c.toOutgoing = .empty

/-- `pending` is the part of the buffer that no line has been taken from. -/
def Resumable (c : Conn) (h : Head) (pending : Bytes) : Prop :=
  ∃ pre clean tail, pending = clean ++ tail ∧ Reading c h pre clean tail

theorem resumable_init (c : Conn) : Resumable c.init .initial [] := by
  refine ⟨[], [], [], rfl, rfl, rfl, rfl, by simp, Nat.zero_le _, by simp, rfl, rfl, ?_, ?_, rfl⟩
  · intro u hu
    simp [Conn.init, Conn.accepted] at hu
  · simp [Head.initial, RequestState.initial]

theorem cstr_drop_append {pre : Bytes} {u : ℕ} (h : nul ∈ pre.drop u) (post : Bytes) :
    cstr ((pre ++ post).drop u) = cstr (pre.drop u) := by
  have hu : u ≤ pre.length := by
    by_contra hlt
    rw [List.drop_eq_nil_of_le (by omega)] at h
    simp at h
  rw [List.drop_append_of_le_length hu, cstr_append_nul _ _ h]

theorem target_eq_of_append {c d : Conn} {pre post post' : Bytes} (hc : c.readBuf = pre ++ post)
    (hd : d.readBuf = pre ++ post') (hurl : d.url = c.url)
    (hterm : ∀ u, c.url = some u → nul ∈ pre.drop u) : d.target = c.target := by
  cases hu : c.url with
  | none => simp [Conn.target, hurl, hu]
  | some u =>
    have := hterm u hu
    simp [Conn.target, hurl, hu, Conn.cstrAt, hc, hd, cstr_drop_append this]

theorem Resumable.receive {c : Conn} {h : Head} {pending : Bytes} (hr : Resumable c h pending)
    (more : Bytes) (hsize : c.readIndex + more.length ≤ readBufferSize) :
    Resumable (c.receive more) h (pending ++ more) := by
  obtain ⟨pre, clean, tail, rfl, hc⟩ := hr
  refine ⟨pre, clean, tail ++ more, by simp, ?_⟩
  have hbuf : (c.receive more).readBuf = pre ++ (clean ++ (tail ++ more)) := by
    simp [Conn.receive, hc.buffer]
  exact
    { buffer := hbuf
      start := hc.start
      checked := hc.checked
      plain := hc.plain
      size := by simpa [Conn.readIndex, Conn.receive] using hsize
      ended := hc.ended
      state := hc.state
      target := (target_eq_of_append hc.buffer hbuf rfl hc.terminated).trans hc.target
      terminated := hc.terminated
      notContent := hc.notContent
      outgoing := hc.outgoing }

theorem Reading.parseLine_none {c : Conn} {h : Head} {pre clean tail : Bytes}
    (hr : Reading c h pre clean tail) (hline : nextLine (clean ++ tail) = none) :
    ∃ c' status, parseLine c = .ok (c', status) ∧ status ≠ .lineOk ∧
      c'.readIndex = c.readIndex ∧ Resumable c' h (clean ++ tail) := by
  rw [nextLine_plain_append hr.plain, Option.map_eq_none_iff] at hline
  have hbuf : c.readBuf = (pre ++ clean) ++ tail := by simp [hr.buffer]
  obtain ⟨more, stop, status, rfl, hmore, hstatus, hparse⟩ := Http.parseLine_none hbuf
    (by simp [hr.checked]) hr.size (getLast?_append_plain hr.ended hr.plain) hline
  refine ⟨_, status, hparse, hstatus, rfl, pre, clean ++ more, stop, by simp, ?_⟩
  exact
    { buffer := by simp [hr.buffer]
      start := hr.start
      checked := by simp [Nat.add_assoc]
      plain := List.forall_mem_append.mpr ⟨hr.plain, hmore⟩
      size := hr.size
      ended := hr.ended
      state := hr.state
      target := hr.target
      terminated := hr.terminated
      notContent := hr.notContent
      outgoing := hr.outgoing }

theorem Reading.parseLine_some {c : Conn} {h : Head} {pre clean tail line rest : Bytes}
    (hr : Reading c h pre clean tail) (hline : nextLine (clean ++ tail) = some (line, rest)) :
    parseLine c = .ok ({ c with
      readBuf := pre ++ (line ++ nul :: nul :: rest)
      checkedIndex := pre.length + line.length + 2 }, .lineOk) := by
  rw [nextLine_plain_append hr.plain] at hline
  obtain ⟨⟨more, rest'⟩, htail, hsplit⟩ := Option.map_eq_some_iff.mp hline
  cases hsplit
  have hbuf : c.readBuf = (pre ++ clean) ++ tail := by simp [hr.buffer]
  rw [Http.parseLine_some hbuf (by simp [hr.checked]) hr.size htail]
  simp [Nat.add_assoc]

theorem cstr_split (line : Bytes) : ∃ b, line ++ [nul] = cstr line ++ nul :: b := by
  by_cases hmem : nul ∈ line
  · obtain ⟨a, b, rfl, ha⟩ := List.eq_append_cons_of_mem hmem
    exact ⟨b ++ [nul], by simp [cstr_of_not_mem a b ha]⟩
  · exact ⟨[], by rw [cstr_eq_self hmem]⟩

theorem Reading.next {c : Conn} {h : Head} {pre rest : Bytes} (hbuf : c.readBuf = pre ++ rest)
    (hstart : c.startLine = pre.length) (hchecked : c.checkedIndex = pre.length)
    (hsize : c.readIndex ≤ readBufferSize) (hended : pre.getLast? = some nul)
    (hstate : c.toRequestState = h.state) (htarget : c.target = h.target)
    (hterm : ∀ u, c.url = some u → nul ∈ pre.drop u) (hcontent : h.state.checkState ≠ .content)
    (hout : c.toOutgoing = .empty) : Reading c h pre [] rest where
  buffer := hbuf
  start := hstart
  checked := hchecked
  plain := by simp
  size := hsize
  ended := by rw [hended]; decide
  state := hstate
  target := htarget
  terminated := hterm
  notContent := hcontent
  outgoing := hout

/-- The connection in the loop body, once `line` is taken and `m_start_line` moved. -/
def Conn.taken (c : Conn) (pre line rest : Bytes) : Conn :=
  { c with
    readBuf := pre ++ (line ++ nul :: nul :: rest)
    checkedIndex := pre.length + line.length + 2
    startLine := pre.length + line.length + 2 }

theorem Reading.readIndex_line {c : Conn} {h : Head} {pre clean tail line rest : Bytes}
    (hr : Reading c h pre clean tail) (hline : nextLine (clean ++ tail) = some (line, rest)) :
    c.readIndex = pre.length + (line.length + 2 + rest.length) := by
  have hlen := nextLine_length hline
  simp only [Conn.readIndex, hr.buffer, List.length_append] at hlen ⊢
  omega

theorem Reading.readIndex_taken {c : Conn} {h : Head} {pre clean tail line rest : Bytes}
    (hr : Reading c h pre clean tail) (hline : nextLine (clean ++ tail) = some (line, rest)) :
    (c.taken pre line rest).readIndex = c.readIndex := by
  rw [hr.readIndex_line hline]
  simp only [Conn.readIndex, Conn.taken, List.length_append, List.length_cons]
  omega

theorem Reading.requestLine {c : Conn} {h : Head} {pre clean tail line rest : Bytes}
    (hr : Reading c h pre clean tail) (hline : nextLine (clean ++ tail) = some (line, rest)) :
    ∃ c', match h.requestLine (cstr line) with
      | none => parseRequestLine (c.taken pre line rest) pre.length = (c', .badRequest) ∧
          c'.toOutgoing = .empty ∧ c'.linger = h.state.linger
      | some h' => parseRequestLine (c.taken pre line rest) pre.length = (c', .noRequest) ∧
          c'.readIndex = c.readIndex ∧ ∃ pre', Reading c' h' pre' [] rest := by
  obtain ⟨b, hb⟩ := cstr_split line
  have hlen : line.length = (cstr line).length + b.length := by
    have := congrArg List.length hb
    simp only [List.length_append, List.length_cons, List.length_nil] at this
    omega
  have hbuf : (c.taken pre line rest).readBuf =
      pre ++ (cstr line ++ nul :: (b ++ nul :: rest)) := by
    have : line ++ nul :: nul :: rest = (line ++ [nul]) ++ nul :: rest := by simp
    rw [Conn.taken, this, hb]
    simp
  obtain ⟨c', code, hparse, hframe, hresult⟩ :=
    parseRequestLine_spec hbuf (nul_notMem_cstr line) (h := h) hr.state
  refine ⟨c', ?_⟩
  cases hreq : h.requestLine (cstr line) with
  | none =>
    rw [hreq] at hresult
    cases hresult
    exact ⟨hparse, hframe.outgoing.trans hr.outgoing,
      hframe.linger.trans (congrArg RequestState.linger hr.state)⟩
  | some h' =>
    rw [hreq] at hresult
    obtain ⟨rfl, hstate, u, hu, hurl, htarget⟩ := hresult
    refine ⟨hparse, ?_⟩
    obtain ⟨line', hlen', hbuf'⟩ := hframe.buffer
    let pre' := (pre ++ (line' ++ nul :: b)) ++ [nul]
    have hpre' : pre'.length = pre.length + line.length + 2 := by
      simp only [pre', List.length_append, List.length_cons, List.length_nil, hlen', hlen]
      omega
    have hbuf'' : c'.readBuf = pre' ++ rest := by simp [hbuf', pre']
    have hindex : c'.readIndex = c.readIndex := by
      rw [hr.readIndex_line hline, Conn.readIndex, hbuf'', List.length_append, hpre']
      omega
    refine ⟨hindex, pre', Reading.next hbuf'' ?_ ?_ (hindex ▸ hr.size) (List.getLast?_concat ..)
      hstate ?_ ?_ ?_ ?_⟩
    · rw [hframe.startLine, hpre', Conn.taken]
    · rw [hframe.checkedIndex, hpre', Conn.taken]
    · simp [Conn.target, hurl, htarget]
    · intro v hv
      rw [hurl] at hv
      cases hv
      have : pre'.drop u = (pre ++ line').drop u ++ (nul :: b ++ [nul]) := by
        rw [← List.drop_append_of_le_length (by simp [hlen']; omega)]
        simp [pre']
      simp [this]
    · rw [Head.requestLine_checkState hreq]
      decide
    · exact hframe.outgoing.trans hr.outgoing

theorem Reading.taken {c : Conn} {h : Head} {pre clean tail line rest : Bytes}
    (hr : Reading c h pre clean tail) (hline : nextLine (clean ++ tail) = some (line, rest)) :
    Reading (c.taken pre line rest) h (pre ++ (line ++ [nul, nul])) [] rest := by
  have hbuf : (c.taken pre line rest).readBuf = (pre ++ (line ++ [nul, nul])) ++ rest := by
    simp [Conn.taken]
  refine Reading.next hbuf ?_ ?_ ((hr.readIndex_taken hline).trans_le hr.size) ?_ hr.state ?_ ?_
    hr.notContent hr.outgoing
  · simp [Conn.taken, Nat.add_assoc]
  · simp [Conn.taken, Nat.add_assoc]
  · simp
  · rw [← hr.target]
    have htaken : (c.taken pre line rest).readBuf = pre ++ (line ++ nul :: nul :: rest) := rfl
    exact target_eq_of_append hr.buffer htaken rfl hr.terminated
  · intro u hu
    have := hr.terminated u hu
    have hle : u ≤ pre.length := by
      by_contra hlt
      rw [List.drop_eq_nil_of_le (by omega)] at this
      simp at this
    rw [List.drop_append_of_le_length hle]
    exact List.mem_append_left _ this

theorem Reading.headerLine {c : Conn} {h : Head} {pre clean tail line rest : Bytes}
    (hr : Reading c h pre clean tail) (hline : nextLine (clean ++ tail) = some (line, rest))
    (hempty : cstr line ≠ []) :
    ∃ c' pre', parseHeaders (c.taken pre line rest) pre.length = (c', .code .noRequest) ∧
      c'.readIndex = c.readIndex ∧ Reading c' (h.headerLine (cstr line)) pre' [] rest := by
  have htext : (c.taken pre line rest).cstrAt pre.length = cstr line := by
    simp [Conn.cstrAt, Conn.taken, cstr_line]
  have ht := hr.taken hline
  refine ⟨_, pre ++ (line ++ [nul, nul]), by rw [parseHeaders, htext, if_neg hempty], ?_, ?_⟩
  · exact hr.readIndex_taken hline
  exact
    { buffer := ht.buffer
      start := ht.start
      checked := ht.checked
      plain := ht.plain
      size := ht.size
      ended := ht.ended
      state := congrArg (fun s : RequestState => s.headerLine (cstr line)) ht.state
      target := ht.target
      terminated := ht.terminated
      notContent := by
        rw [Head.headerLine, RequestState.headerLine_checkState]
        exact ht.notContent
      outgoing := ht.outgoing }

/-- What follows a complete header block. -/
def Conn.dispatch (c : Conn) : Dispatch → Except Fault (Conn × Verdict)
  | .run k => .ok (c, .handler (c.request k []))
  | .content => parseContent { c with checkState := .content } c.checkedIndex
  | .notFound => .ok (c, .code .noResource)

/-- What `process_read` does where the reader gets to, with `total` bytes buffered:
`dispatch` decides behind a complete head. -/
def Refines (total : ℕ) (result : Except Fault (Conn × Verdict)) : Progress → Prop
  | .incomplete h pending =>
    ∃ c', result = .ok (c', .code .noRequest) ∧ c'.readIndex = total ∧ Resumable c' h pending
  | .rejected h _ =>
    ∃ c', result = .ok (c', .code .badRequest) ∧ c'.toOutgoing = .empty ∧
      c'.linger = h.state.linger
  | .complete h rest =>
    ∃ c' pre, Reading c' h pre [] rest ∧ c'.readIndex = total ∧
      result = c'.dispatch h.state.endOfHeaders

/-- The verdict on a body that is fully read. -/
def Conn.contentVerdict (c : Conn) (text : ℕ) : Verdict :=
  match c.contentHandler with
  | some h => .handler (c.request h (c.cstrAt text))
  | none => .code .noResource

theorem parseContent_eq (c : Conn) (text : ℕ) :
    parseContent c text =
      if intMax < c.contentLength + c.checkedIndex then .error .intOverflow
      else if c.contentLength + c.checkedIndex ≤ c.readIndex then
        (c.poke (text + c.contentLength) nul).map fun c' => (c', c'.contentVerdict text)
      else .ok (c, .code .badRequest) := by
  unfold parseContent
  dsimp only
  split_ifs
  · rfl
  · cases c.poke (text + c.contentLength) nul with
    | error e => rfl
    | ok c' =>
      simp only [bind, Except.bind, Except.map, Conn.contentVerdict]
      cases c'.contentHandler <;> rfl
  · rfl

theorem contentVerdict_eq_handler {c : Conn} {text : ℕ} {r : Request}
    (h : c.contentVerdict text = .handler r) :
    ∃ k, c.contentHandler = some k ∧ r = c.request k (c.cstrAt text) := by
  unfold Conn.contentVerdict at h
  cases hk : c.contentHandler with
  | none =>
    rw [hk] at h
    cases h
  | some k =>
    rw [hk] at h
    cases h
    exact ⟨k, rfl, rfl⟩

theorem contentVerdict_eq_code {c : Conn} {text : ℕ} {code : HttpCode}
    (h : c.contentVerdict text = .code code) : c.contentHandler = none ∧ code = .noResource := by
  unfold Conn.contentVerdict at h
  cases hk : c.contentHandler with
  | none =>
    rw [hk] at h
    cases h
    exact ⟨rfl, rfl⟩
  | some k =>
    rw [hk] at h
    cases h

/-- `parse_content` ends with `BAD_REQUEST` in front of the body's end, and else with the verdict
behind the NUL it wrote there. -/
theorem parseContent_cases {c d : Conn} {text : ℕ} {v : Verdict}
    (h : parseContent c text = .ok (d, v)) :
    ((c.readIndex : ℤ) < c.contentLength + c.checkedIndex ∧ d = c ∧ v = .code .badRequest) ∨
      c.contentLength + c.checkedIndex ≤ c.readIndex ∧
        d = { c with readBuf := c.readBuf.set (text + c.contentLength).toNat nul } ∧
        v = d.contentVerdict text := by
  rw [parseContent_eq] at h
  split_ifs at h with hmax hfull
  · right
    unfold Conn.poke at h
    split_ifs at h
    · cases h
      exact ⟨hfull, rfl, rfl⟩
    · cases h
  · left
    cases h
    exact ⟨by omega, rfl, rfl⟩

theorem parseContent_ne_noRequest {c c' : Conn} {text : ℕ} {v : Verdict}
    (h : parseContent c text = .ok (c', v)) : v ≠ .code .noRequest := by
  rintro rfl
  rcases parseContent_cases h with ⟨-, -, hcode⟩ | ⟨-, -, hcode⟩
  · cases hcode
  · cases (contentVerdict_eq_code hcode.symm).2

theorem dispatch_ne_noRequest {c c' : Conn} {d : Dispatch} {v : Verdict}
    (h : c.dispatch d = .ok (c', v)) : v ≠ .code .noRequest := by
  cases d with
  | run k =>
    cases h
    simp
  | content => exact parseContent_ne_noRequest h
  | notFound =>
    cases h
    decide

/-- `NO_REQUEST` is only returned for an incomplete head. -/
theorem Refines.noRequest {n : ℕ} {c' : Conn} {progress : Progress}
    (h : Refines n (.ok (c', .code .noRequest)) progress) :
    ∃ h' pending, progress = .incomplete h' pending ∧ Resumable c' h' pending ∧
      c'.readIndex = n := by
  cases progress with
  | incomplete h' pending =>
    obtain ⟨d, hd, hindex, hr⟩ := h
    cases hd
    exact ⟨h', pending, rfl, hr, hindex⟩
  | rejected h' rest =>
    obtain ⟨d, hd, -⟩ := h
    cases hd
  | complete h' rest =>
    obtain ⟨d, pre, -, -, hd⟩ := h
    exact absurd rfl (dispatch_ne_noRequest hd.symm)

theorem processReadLoop_content {fuel : ℕ} {c : Conn} (hc : c.checkState = .content) :
    processReadLoop (fuel + 1) .lineOk c =
      parseContent { c with startLine := c.checkedIndex } c.startLine := by
  rw [processReadLoop]
  simp only [hc, and_self, if_true, pure_bind, ne_eq, not_true_eq_false, if_false]
  cases h : parseContent { c with startLine := c.checkedIndex } c.startLine with
  | error e => rfl
  | ok r =>
    obtain ⟨c', v⟩ := r
    have := parseContent_ne_noRequest h
    simp only [bind, Except.bind]
    rfl

theorem Reading.processReadLoop_line {c : Conn} {h : Head} {pre clean tail line rest : Bytes}
    (hr : Reading c h pre clean tail) (hline : nextLine (clean ++ tail) = some (line, rest))
    (fuel : ℕ) (status : LineStatus) :
    processReadLoop (fuel + 1) status c =
      if h.state.checkState = .requestLine then
        match parseRequestLine (c.taken pre line rest) pre.length with
        | (c', .badRequest) => .ok (c', .code .badRequest)
        | (c', _) => processReadLoop fuel .lineOk c'
      else
        match parseHeaders (c.taken pre line rest) pre.length with
        | (c', .code .noRequest) => processReadLoop fuel .lineOk c'
        | (c', verdict) => .ok (c', verdict) := by
  have hstate : c.checkState = h.state.checkState := congrArg RequestState.checkState hr.state
  have hcontent : ¬ (c.checkState = .content ∧ status = .lineOk) := by
    rw [hstate]
    exact fun hc => hr.notContent hc.1
  rw [processReadLoop, if_neg hcontent, hr.parseLine_some hline]
  simp only [bind, Except.bind, ne_eq, not_true_eq_false, if_false, hr.start, hstate]
  cases hcs : h.state.checkState with
  | requestLine => rfl
  | header => rfl
  | content => exact absurd hcs hr.notContent

theorem processReadLoop_spec (fuel : ℕ) (status : LineStatus) (c : Conn) (h : Head)
    (pending : Bytes) (hfuel : pending.length + 2 ≤ fuel) (hr : Resumable c h pending) :
    Refines c.readIndex (processReadLoop fuel status c) (h.read pending) := by
  obtain ⟨fuel, rfl⟩ : ∃ n, fuel = n + 1 := ⟨fuel - 1, by omega⟩
  fun_induction Head.read h pending generalizing fuel status c with
  | case1 h pending hline =>
    obtain ⟨pre, clean, tail, rfl, hr⟩ := hr
    have hcontent : ¬ (c.checkState = .content ∧ status = .lineOk) := by
      rw [show c.checkState = h.state.checkState from congrArg RequestState.checkState hr.state]
      exact fun hc => hr.notContent hc.1
    obtain ⟨c', status', hparse, hstatus, hindex, hr'⟩ := hr.parseLine_none hline
    refine ⟨c', ?_, hindex, hr'⟩
    rw [processReadLoop, if_neg hcontent, hparse]
    simp only [bind, Except.bind, if_pos hstatus]
    rfl
  | case2 h pending line rest hline hlen hstate hreq =>
    obtain ⟨pre, clean, tail, rfl, hr⟩ := hr
    rw [hr.processReadLoop_line hline, if_pos hstate]
    obtain ⟨c', hc'⟩ := hr.requestLine hline
    rw [hreq] at hc'
    rw [hc'.1]
    exact ⟨c', rfl, hc'.2⟩
  | case3 h pending line rest hline hlen hstate h' hreq ih =>
    obtain ⟨pre, clean, tail, rfl, hr⟩ := hr
    rw [hr.processReadLoop_line hline, if_pos hstate]
    obtain ⟨c', hc'⟩ := hr.requestLine hline
    rw [hreq] at hc'
    rw [hc'.1]
    obtain ⟨-, hindex, pre', hnext⟩ := hc'
    obtain ⟨fuel, rfl⟩ : ∃ n, fuel = n + 1 := ⟨fuel - 1, by omega⟩
    rw [← hindex]
    exact ih .lineOk c' ⟨pre', [], rest, rfl, hnext⟩ fuel (by omega)
  | case4 h pending line rest hline hlen hstate hempty =>
    obtain ⟨pre, clean, tail, rfl, hr⟩ := hr
    rw [hr.processReadLoop_line hline, if_neg hstate]
    have htext : (c.taken pre line rest).cstrAt pre.length = [] := by
      simp [Conn.cstrAt, Conn.taken, cstr_line, hempty]
    have ht := hr.taken hline
    have hend : (c.taken pre line rest).endOfHeaders = h.state.endOfHeaders :=
      congrArg RequestState.endOfHeaders ht.state
    refine ⟨c.taken pre line rest, _, ht, hr.readIndex_taken hline, ?_⟩
    rw [parseHeaders, htext, if_pos rfl, hend]
    cases h.state.endOfHeaders with
    | run k => rfl
    | content =>
      obtain ⟨fuel, rfl⟩ : ∃ n, fuel = n + 1 := ⟨fuel - 1, by omega⟩
      exact processReadLoop_content rfl
    | notFound => rfl
  | case5 h pending line rest hline hlen hstate hempty ih =>
    obtain ⟨pre, clean, tail, rfl, hr⟩ := hr
    rw [hr.processReadLoop_line hline, if_neg hstate]
    obtain ⟨c', pre', hparse, hindex, hnext⟩ := hr.headerLine hline hempty
    rw [hparse, ← hindex]
    obtain ⟨fuel, rfl⟩ : ∃ n, fuel = n + 1 := ⟨fuel - 1, by omega⟩
    exact ih .lineOk c' ⟨pre', [], rest, rfl, hnext⟩ fuel (by omega)

theorem processRead_spec {c : Conn} {h : Head} {pending : Bytes} (hr : Resumable c h pending) :
    Refines c.readIndex (processRead c) (h.read pending) := by
  refine processReadLoop_spec _ _ c h pending ?_ hr
  obtain ⟨pre, clean, tail, rfl, hr⟩ := hr
  simp only [Conn.readIndex, hr.buffer, List.length_append]
  omega

end Http
end ResourceServer

import ResourceServer.Http.Resumption

/-!
# Verdicts on a complete head

Behind a complete head the route decides, and for routes with a body the bytes that
are buffered decide with it. `Head.verdict` says how, without a buffer or cursors.
-/

namespace ResourceServer
namespace Http

open CString

namespace Head

def request (h : Head) (k : Handler) (body : Bytes) : Request where
  handler := k
  method := h.state.method
  target := h.target
  token := h.state.token
  body := body

/-- The answer to a body that starts at offset `start`, with `rest` buffered from there. -/
def content (h : Head) (start : ℕ) (rest : Bytes) : Except Fault Verdict :=
  let bodyEnd := h.state.contentLength + start
  if intMax < bodyEnd then .error .intOverflow
  else if bodyEnd ≤ (start + rest.length : ℕ) then
    if 0 ≤ bodyEnd ∧ bodyEnd.toNat < readBufferSize then
      match h.state.contentHandler with
      | some k => .ok (.handler (h.request k (cstr (rest.take h.state.contentLength.toNat))))
      | none => .ok (.code .noResource)
    else .error (.outOfBounds bodyEnd)
  else .ok (.code .badRequest)

def verdict (h : Head) (start : ℕ) (rest : Bytes) : Except Fault Verdict :=
  match h.state.endOfHeaders with
  | .run k => .ok (.handler (h.request k []))
  | .content => h.content start rest
  | .notFound => .ok (.code .noResource)

end Head

/-- Cutting a buffer with a NUL at `n` or before it gives the same C string. -/
theorem cstr_set_nul (rest : Bytes) (n : ℕ) : cstr (rest.set n nul) = cstr (rest.take n) := by
  by_cases hn : n < rest.length
  · have : rest.set n nul = rest.take n ++ nul :: rest.drop (n + 1) := by
      rw [List.set_eq_take_append_cons_drop, if_pos hn]
    rw [this, cstr_line]
  · rw [List.set_eq_of_length_le (by omega), List.take_of_length_le (by omega)]

theorem Reading.request {c : Conn} {h : Head} {pre clean tail : Bytes}
    (hr : Reading c h pre clean tail) (k : Handler) (body : Bytes) :
    c.request k body = h.request k body := by
  simp [Conn.request, Head.request, hr.state, hr.target]

/-- A connection whose head is complete and whose body starts behind `pre`. -/
structure AtBody (c : Conn) (h : Head) (pre rest : Bytes) : Prop where
  buffer : c.readBuf = pre ++ rest
  checked : c.checkedIndex = pre.length
  state : c.toRequestState = { h.state with checkState := .content }
  target : c.target = h.target
  terminated : ∀ u, c.url = some u → nul ∈ pre.drop u

theorem Reading.atBody {c : Conn} {h : Head} {pre rest : Bytes} (hr : Reading c h pre [] rest) :
    AtBody { c with checkState := .content } h pre rest where
  buffer := by simpa using hr.buffer
  checked := by simp [hr.checked]
  state := by rw [← hr.state]
  target := hr.target
  terminated := hr.terminated

theorem AtBody.contentVerdict {c : Conn} {h : Head} {pre rest : Bytes} (hc : AtBody c h pre rest)
    (hN : 0 ≤ h.state.contentLength ∨ h.state.contentHandler = none) :
    Conn.contentVerdict
        { c with readBuf := c.readBuf.set (pre.length + h.state.contentLength).toNat nul }
        pre.length =
      match h.state.contentHandler with
      | some k => .handler (h.request k (cstr (rest.take h.state.contentLength.toNat)))
      | none => .code .noResource := by
  have hhandler : c.contentHandler = h.state.contentHandler := by
    rw [hc.state]
    rfl
  rw [Conn.contentVerdict, hhandler]
  cases hk : h.state.contentHandler with
  | none => rfl
  | some k =>
    have hpos : 0 ≤ h.state.contentLength := by
      rcases hN with hN | hN
      · exact hN
      · rw [hk] at hN
        cases hN
    obtain ⟨n, hn⟩ := Int.eq_ofNat_of_zero_le hpos
    have hset : c.readBuf.set (pre.length + h.state.contentLength).toNat nul =
        pre ++ rest.set n nul := by
      rw [hn, hc.buffer, show ((pre.length : ℤ) + (n : ℤ)).toNat = pre.length + n by omega,
        List.set_append_right _ _ (by omega), Nat.add_sub_cancel_left]
    have htarget := (target_eq_of_append (d := { c with readBuf := pre ++ rest.set n nul })
      hc.buffer rfl rfl hc.terminated).trans hc.target
    rw [hset]
    simpa [Conn.request, Head.request, Conn.cstrAt, cstr_set_nul, hc.state, hn] using htarget

/-- With a body that does not end before it starts, `parse_content` answers what the
reader does. -/
theorem AtBody.content {c : Conn} {h : Head} {pre rest : Bytes} (hc : AtBody c h pre rest)
    (hN : 0 ≤ h.state.contentLength ∨ h.state.contentHandler = none) :
    (parseContent c c.checkedIndex).map Prod.snd = h.content pre.length rest := by
  have hindex : c.readIndex = pre.length + rest.length := by simp [Conn.readIndex, hc.buffer]
  have hlength : c.contentLength = h.state.contentLength := by rw [hc.state]
  have hverdict := hc.contentVerdict hN
  rw [Int.add_comm] at hverdict
  rw [parseContent_eq, Head.content, hc.checked, hlength, hindex, Int.add_comm (pre.length : ℤ)]
  split_ifs with hmax hfull hin
  · rfl
  · rw [Conn.poke, if_pos hin, Except.map, Except.map, hverdict]
    cases h.state.contentHandler <;> rfl
  · rw [Conn.poke, if_neg hin]
    rfl
  · rfl

/-- The verdict of `process_read` behind a complete head. -/
theorem Reading.verdict {c : Conn} {h : Head} {pre rest : Bytes} (hr : Reading c h pre [] rest)
    (hN : 0 ≤ h.state.contentLength ∨ h.state.contentHandler = none) :
    (c.dispatch h.state.endOfHeaders).map Prod.snd = h.verdict pre.length rest := by
  rw [Head.verdict]
  cases h.state.endOfHeaders with
  | run k => simp [Conn.dispatch, Except.map, hr.request]
  | content => exact hr.atBody.content hN
  | notFound => rfl

/-- A body end that `parse_content` can take, with `received` bytes buffered: not before the
buffer nor beyond the range of `int`, and not behind the last cell of a full buffer. -/
structure EndInRange (bodyEnd : ℤ) (received : ℕ) : Prop where
  low : 0 ≤ bodyEnd
  high : bodyEnd ≤ intMax
  room : ¬ (bodyEnd = readBufferSize ∧ received = readBufferSize)

theorem endInRange_of_room {bodyEnd : ℤ} {received : ℕ} (hroom : received < readBufferSize) :
    EndInRange bodyEnd received ↔ 0 ≤ bodyEnd ∧ bodyEnd ≤ intMax :=
  ⟨fun h => ⟨h.low, h.high⟩, fun h => ⟨h.1, h.2, fun hfull => hroom.ne hfull.2⟩⟩

/-- `parse_content` stays within the buffer and within `int` if and only if the end of the
body does. -/
theorem parseContent_ok_iff {c : Conn} (hsize : c.readIndex ≤ readBufferSize) :
    (∃ d v, parseContent c c.checkedIndex = .ok (d, v)) ↔
      EndInRange (c.contentLength + c.checkedIndex) c.readIndex := by
  have hmiss (h : ¬ (0 ≤ c.checkedIndex + c.contentLength ∧
      (c.checkedIndex + c.contentLength).toNat < readBufferSize)) :
      ¬ ∃ d v, ((c.poke (c.checkedIndex + c.contentLength) nul).map fun c' =>
        (c', c'.contentVerdict c.checkedIndex)) = .ok (d, v) := by
    rintro ⟨d, v, hresult⟩
    rw [Conn.poke, if_neg h] at hresult
    cases hresult
  rw [parseContent_eq]
  split_ifs with hmax hreceived
  · exact iff_of_false (by simp) fun h => absurd h.high (not_le.mpr hmax)
  · by_cases hneg : c.contentLength + c.checkedIndex < 0
    · exact iff_of_false (hmiss (by omega)) fun h => absurd h.low (not_le.mpr hneg)
    · by_cases hfull : c.contentLength + c.checkedIndex = readBufferSize ∧ c.readIndex = readBufferSize
      · exact iff_of_false (hmiss (by omega)) fun h => h.room hfull
      · rw [Conn.poke, if_pos (by omega)]
        exact iff_of_true ⟨_, _, rfl⟩ ⟨not_lt.mp hneg, not_lt.mp hmax, hfull⟩
  · exact iff_of_true ⟨_, _, rfl⟩ ⟨by omega, not_lt.mp hmax, by omega⟩

theorem Reading.dispatch_ok_iff {c : Conn} {h : Head} {pre rest : Bytes} (hr : Reading c h pre [] rest)
    (hsize : c.readIndex ≤ readBufferSize) :
    (∃ d v, c.dispatch h.state.endOfHeaders = .ok (d, v)) ↔
      (h.state.endOfHeaders = .content →
        EndInRange (h.state.contentLength + pre.length) c.readIndex) := by
  cases hdispatch : h.state.endOfHeaders with
  | run k => exact iff_of_true ⟨_, _, rfl⟩ nofun
  | notFound => exact iff_of_true ⟨_, _, rfl⟩ nofun
  | content =>
    have hok := parseContent_ok_iff (c := { c with checkState := .content }) hsize
    rw [hr.atBody.checked, hr.atBody.state] at hok
    rw [Conn.dispatch, hr.atBody.checked, hok]
    exact ⟨fun h _ => h, fun h => h rfl⟩

theorem processRead_of_verdict {c : Conn} {v : Verdict}
    (h : (processRead c).toOption.map Prod.snd = some v) : ∃ c', processRead c = .ok (c', v) := by
  cases hresult : processRead c with
  | error f => simp [hresult, Except.toOption] at h
  | ok p =>
    simp only [hresult, Except.toOption, Option.map_some, Option.some.injEq] at h
    exact ⟨p.1, by rw [← h]⟩

end Http
end ResourceServer

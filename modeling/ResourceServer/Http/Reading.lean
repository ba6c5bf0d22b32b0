import ResourceServer.Http.Head

/-!
# Specifications of `parse_line` and `parse_request_line`

Both are stated on a buffer split at the cursors. `parse_line` finds the lines that
`nextLine` finds; `parse_request_line` accepts what the reader accepts and writes NULs
into its own line only.
-/

namespace ResourceServer
namespace Http

open CString

theorem peek_eq {c : Conn} {pre tail : Bytes} {b : UInt8} (hbuf : c.readBuf = pre ++ b :: tail)
    (hsize : c.readIndex ≤ readBufferSize) : c.peek pre.length = .ok b := by
  have hlen : pre.length < readBufferSize := by
    simp only [Conn.readIndex, hbuf, List.length_append, List.length_cons] at hsize
    omega
  simp [Conn.peek, hlen, hbuf]

theorem poke_eq {c : Conn} {pre tail : Bytes} {b : UInt8} (hbuf : c.readBuf = pre ++ b :: tail)
    (hsize : c.readIndex ≤ readBufferSize) (x : UInt8) :
    c.poke pre.length x = .ok { c with readBuf := pre ++ x :: tail } := by
  have hlen : pre.length < readBufferSize := by
    simp only [Conn.readIndex, hbuf, List.length_append, List.length_cons] at hsize
    omega
  simp [Conn.poke, hlen, hbuf]

/-- With at least one byte left the scan looks at it. -/
theorem parseLine_unfold {c : Conn} {pre tail : Bytes} {b : UInt8}
    (hbuf : c.readBuf = pre ++ b :: tail) (hcheck : c.checkedIndex = pre.length) :
    parseLine c = parseLineFrom (tail.length + 1) c := by
  have : c.readIndex - c.checkedIndex = tail.length + 1 := by
    simp only [Conn.readIndex, hbuf, List.length_append, List.length_cons, hcheck]
    omega
  rw [parseLine, this]

theorem parseLine_skip {c : Conn} (pre clean tail : Bytes)
    (hbuf : c.readBuf = pre ++ (clean ++ tail)) (hcheck : c.checkedIndex = pre.length)
    (hsize : c.readIndex ≤ readBufferSize) (hclean : ∀ b ∈ clean, notEol b) :
    parseLine c = parseLine { c with checkedIndex := pre.length + clean.length } := by
  induction clean generalizing c pre with
  | nil => simp [← hcheck]
  | cons b clean ih =>
    have hb : b ≠ cr ∧ b ≠ lf := by
      have := hclean b List.mem_cons_self
      simpa [notEol] using this
    have hstep : parseLine c = parseLine { c with checkedIndex := (pre ++ [b]).length } := by
      have hbuf' : c.readBuf = pre ++ b :: (clean ++ tail) := hbuf
      have hnext : Conn.readIndex { c with checkedIndex := (pre ++ [b]).length } -
          (pre ++ [b]).length = (clean ++ tail).length := by
        simp only [Conn.readIndex, hbuf', List.length_append, List.length_cons, List.length_nil]
        omega
      rw [parseLine_unfold hbuf' hcheck, parseLine, hnext, parseLineFrom, hcheck,
        peek_eq hbuf' hsize]
      simp [bind, Except.bind, hb]
    rw [hstep, ih (c := { c with checkedIndex := (pre ++ [b]).length }) (pre ++ [b])
      (by simpa using hbuf) rfl hsize (fun x hx => hclean x (List.mem_cons_of_mem _ hx))]
    simp only [List.length_append, List.length_cons, List.length_nil]
    congr 2
    omega

theorem parseLine_crlf {c : Conn} (pre rest : Bytes)
    (hbuf : c.readBuf = pre ++ cr :: lf :: rest) (hcheck : c.checkedIndex = pre.length)
    (hsize : c.readIndex ≤ readBufferSize) :
    parseLine c = .ok ({ c with readBuf := pre ++ nul :: nul :: rest,
                                checkedIndex := pre.length + 2 }, .lineOk) := by
  have hbuf' : c.readBuf = (pre ++ [cr]) ++ lf :: rest := by simpa using hbuf
  have hnext : c.peek (pre.length + 1) = .ok lf := by
    have := peek_eq hbuf' hsize
    simpa using this
  have hlast : ¬ c.checkedIndex + 1 = c.readIndex := by
    simp only [Conn.readIndex, hbuf, hcheck, List.length_append, List.length_cons]
    omega
  have hfirst := poke_eq hbuf hsize nul
  have hsecond : Conn.poke { c with readBuf := pre ++ nul :: lf :: rest } (pre.length + 1) nul =
      .ok { c with readBuf := pre ++ nul :: nul :: rest } := by
    have hlen : pre.length + 1 < readBufferSize := by
      simp only [Conn.readIndex, hbuf, List.length_append, List.length_cons] at hsize
      omega
    simp only [Conn.poke]
    rw [if_pos (by omega)]
    simp [List.set_append_right]
  rw [parseLine_unfold hbuf hcheck, parseLineFrom]
  simp only [hcheck] at hlast hfirst hsecond ⊢
  simp [peek_eq hbuf hsize, bind, Except.bind, hlast, hnext, hfirst, hsecond, pure, Except.pure]

/-- Without a CRLF the scan stops in front of the first CR or LF, or at the end. -/
theorem parseLine_unfinished {c : Conn} (pre tail : Bytes) (hbuf : c.readBuf = pre ++ tail)
    (hcheck : c.checkedIndex = pre.length) (hsize : c.readIndex ≤ readBufferSize)
    (hprev : pre.getLast? ≠ some cr) (h : Unfinished tail) :
    ∃ status, status ≠ LineStatus.lineOk ∧ parseLine c = .ok (c, status) := by
  cases h with
  | empty =>
    refine ⟨.lineOpen, by decide, ?_⟩
    have : c.readIndex - c.checkedIndex = 0 := by simp [Conn.readIndex, hbuf, hcheck]
    rw [parseLine, this, parseLineFrom]
  | carriage =>
    refine ⟨.lineOpen, by decide, ?_⟩
    have hlast : c.checkedIndex + 1 = c.readIndex := by simp [Conn.readIndex, hbuf, hcheck]
    rw [parseLine_unfold hbuf hcheck, parseLineFrom]
    simp only [hcheck] at hlast ⊢
    simp [peek_eq hbuf hsize, bind, Except.bind, hlast, pure, Except.pure]
  | bareCr b rest hb =>
    refine ⟨.lineBad, by decide, ?_⟩
    have hlast : ¬ c.checkedIndex + 1 = c.readIndex := by
      simp only [Conn.readIndex, hbuf, hcheck, List.length_append, List.length_cons]
      omega
    have hnext : c.peek (pre.length + 1) = .ok b := by
      have hbuf' : c.readBuf = (pre ++ [cr]) ++ b :: rest := by simpa using hbuf
      simpa using peek_eq hbuf' hsize
    rw [parseLine_unfold hbuf hcheck, parseLineFrom]
    simp only [hcheck] at hlast ⊢
    simp [peek_eq hbuf hsize, bind, Except.bind, hlast, hnext, hb, pure, Except.pure]
  | bareLf rest =>
    refine ⟨.lineBad, by decide, ?_⟩
    rw [parseLine_unfold hbuf hcheck, parseLineFrom]
    simp only [hcheck, peek_eq hbuf hsize]
    by_cases hone : 1 < pre.length
    · obtain ⟨front, x, rfl⟩ : ∃ front x, pre = front ++ [x] :=
        ⟨pre.dropLast, pre.getLast (by rintro rfl; simp at hone),
          (List.dropLast_append_getLast _).symm⟩
      have hx : x ≠ cr := by simpa using hprev
      have hpeek : c.peek front.length = .ok x := peek_eq (by simpa using hbuf) hsize
      have hpos : ((front ++ [x]).length : ℤ) - 1 = front.length := by simp
      simp only [bind, Except.bind, hpos, hpeek]
      simp [hx, lf_ne_cr, pure, Except.pure]
    · simp [bind, Except.bind, hone, lf_ne_cr, pure, Except.pure]

theorem getLast?_append_plain {pre more : Bytes} (hpre : pre.getLast? ≠ some cr)
    (hmore : ∀ b ∈ more, notEol b) : (pre ++ more).getLast? ≠ some cr := by
  intro hlast
  by_cases hnil : more = []
  · rw [hnil, List.append_nil] at hlast
    exact hpre hlast
  · rw [List.getLast?_append_of_ne_nil _ hnil] at hlast
    exact absurd (hmore cr (List.mem_of_getLast? hlast)) (by decide)

theorem parseLine_some {c : Conn} {pre tail line rest : Bytes} (hbuf : c.readBuf = pre ++ tail)
    (hcheck : c.checkedIndex = pre.length) (hsize : c.readIndex ≤ readBufferSize)
    (hline : nextLine tail = some (line, rest)) :
    parseLine c = .ok ({ c with
      readBuf := pre ++ (line ++ nul :: nul :: rest)
      checkedIndex := pre.length + line.length + 2 }, .lineOk) := by
  obtain ⟨rfl, hplain⟩ := nextLine_eq_some.mp hline
  have hend := parseLine_crlf (c := { c with checkedIndex := pre.length + line.length })
    (pre ++ line) rest (by simp [hbuf]) (by simp) hsize
  rw [parseLine_skip pre line (cr :: lf :: rest) hbuf hcheck hsize hplain, hend]
  simp

/-- Otherwise it passes over plain bytes and stops at a CR or LF it cannot use, or at the end. -/
theorem parseLine_none {c : Conn} {pre tail : Bytes} (hbuf : c.readBuf = pre ++ tail)
    (hcheck : c.checkedIndex = pre.length) (hsize : c.readIndex ≤ readBufferSize)
    (hprev : pre.getLast? ≠ some cr) (hline : nextLine tail = none) :
    ∃ more stop status, tail = more ++ stop ∧ (∀ b ∈ more, notEol b) ∧ status ≠ LineStatus.lineOk ∧
      parseLine c = .ok ({ c with checkedIndex := pre.length + more.length }, status) := by
  have hplain (b : UInt8) (hb : b ∈ tail.takeWhile notEol) : notEol b := List.mem_takeWhile_imp hb
  have hsplit : tail.takeWhile notEol ++ tail.dropWhile notEol = tail := List.takeWhile_append_dropWhile
  obtain ⟨status, hstatus, hend⟩ := parseLine_unfinished
    (c := { c with checkedIndex := pre.length + (tail.takeWhile notEol).length })
    (pre ++ tail.takeWhile notEol) (tail.dropWhile notEol) (by simp [hbuf]) (by simp) hsize
    (getLast?_append_plain hprev hplain) (unfinished_of_nextLine hline)
  refine ⟨tail.takeWhile notEol, tail.dropWhile notEol, status, hsplit.symm, hplain, hstatus, ?_⟩
  rw [parseLine_skip pre _ (tail.dropWhile notEol) (by rw [hsplit, hbuf]) hcheck hsize hplain, hend]

theorem strpbrk_split {s accept : Bytes} {i : ℕ} (h : strpbrk s accept = some i) :
    ∃ a x r, s = a ++ x :: r ∧ a.length = i := by
  obtain ⟨hi, -⟩ := List.findIdx?_eq_some_iff_getElem.mp h
  refine ⟨s.take i, s[i], s.drop (i + 1), ?_, ?_⟩
  · rw [List.getElem_cons_drop, List.take_append_drop]
  · rw [List.length_take]
    omega

theorem cstrAt_eq {c : Conn} {text : Bytes} {off : ℕ} (pre post : Bytes)
    (hbuf : c.readBuf = pre ++ (text ++ nul :: post)) (htext : nul ∉ text)
    (hoff : off = pre.length) : c.cstrAt off = text := by
  rw [Conn.cstrAt, hbuf, hoff, List.drop_left, cstr_of_not_mem text post htext]

theorem pathOffset_le {url : Bytes} {k : ℕ} (h : pathOffset url = some k) : k ≤ url.length := by
  unfold pathOffset at h
  split at h
  · obtain ⟨j, hj, rfl⟩ := Option.map_eq_some_iff.mp h
    obtain ⟨hlt, -⟩ := List.findIdx?_eq_some_iff_getElem.mp hj
    rw [List.length_drop] at hlt
    omega
  · cases h
    exact Nat.zero_le _

/-- What `parse_request_line` may do to a connection whose line text has length `n`
and starts at `pre.length`: it overwrites bytes of the line only. -/
structure RequestLineFrame (c c' : Conn) (pre post : Bytes) (n : ℕ) : Prop where
  peer : c'.toPeer = c.toPeer
  outgoing : c'.toOutgoing = c.toOutgoing
  linger : c'.linger = c.linger
  checkedIndex : c'.checkedIndex = c.checkedIndex
  startLine : c'.startLine = c.startLine
  buffer : ∃ line, line.length = n ∧ c'.readBuf = pre ++ (line ++ nul :: post)

/-- The outcome of `parse_request_line` is that of the abstract reader. -/
def RequestLineResult (c' : Conn) (code : HttpCode) (limit : ℕ) : Option Head → Prop
  | none => code = .badRequest
  | some h' => code = .noRequest ∧ c'.toRequestState = h'.state ∧
      ∃ u ≤ limit, c'.url = some u ∧ c'.cstrAt u = h'.target

theorem parseRequestLine_spec {c : Conn} {h : Head} {pre line post : Bytes}
    (hbuf : c.readBuf = pre ++ (line ++ nul :: post)) (hline : nul ∉ line)
    (hstate : c.toRequestState = h.state) :
    ∃ c' code, parseRequestLine c pre.length = (c', code) ∧
      RequestLineFrame c c' pre post line.length ∧
      RequestLineResult c' code (pre.length + line.length) (h.requestLine line) := by
  have htext := cstrAt_eq pre post hbuf hline rfl
  unfold parseRequestLine Head.requestLine
  rw [htext]
  cases hi : strpbrk line blanks with
  | none => exact ⟨_, _, rfl, ⟨rfl, rfl, rfl, rfl, rfl, line, rfl, hbuf⟩, rfl⟩
  | some i =>
    obtain ⟨a, x, r, rfl, rfl⟩ := strpbrk_split hi
    simp only [List.mem_append, List.mem_cons, not_or] at hline
    obtain ⟨ha, -, hr⟩ := hline
    have htake : (a ++ x :: r).take a.length = a := List.take_left
    have hdrop : (a ++ x :: r).drop (a.length + 1) = r := by simp
    have hset : c.readBuf.set (pre.length + a.length) nul =
        pre ++ (a ++ nul :: (r ++ nul :: post)) := by
      simp [hbuf]
    -- with the blank behind the method a NUL, the rest of the line is the next C string
    have hmethod : ∀ d : Conn, d.readBuf = pre ++ (a ++ nul :: (r ++ nul :: post)) →
        d.cstrAt pre.length = a := fun d hd => cstrAt_eq _ _ hd ha rfl
    have hrest : ∀ d : Conn, d.readBuf = pre ++ (a ++ nul :: (r ++ nul :: post)) →
        d.cstrAt (pre.length + a.length + 1) = r := fun d hd =>
      cstrAt_eq (pre ++ (a ++ [nul])) post (by simp [hd]) hr (by simp [Nat.add_assoc])
    simp only [hset, hmethod, hrest, htake, hdrop]
    cases hj : strpbrk r blanks with
    | none => exact ⟨_, _, rfl, ⟨rfl, rfl, rfl, rfl, rfl, a ++ nul :: r, by simp, by simp⟩, rfl⟩
    | some j =>
      obtain ⟨u, y, v, rfl, rfl⟩ := strpbrk_split hj
      simp only [List.mem_append, List.mem_cons, not_or] at hr
      obtain ⟨hu, -, hv⟩ := hr
      have hutake : (u ++ y :: v).take u.length = u := List.take_left
      have hudrop : (u ++ y :: v).drop (u.length + 1) = v := by simp
      have hset2 : (pre ++ (a ++ nul :: (u ++ y :: v ++ nul :: post))).set
          (pre.length + a.length + 1 + u.length) nul =
          pre ++ (a ++ nul :: (u ++ nul :: (v ++ nul :: post))) := by
        simp [Nat.add_assoc, Nat.add_comm, Nat.add_left_comm]
      -- and behind the second blank the target and the version are C strings of their own
      have hurl : ∀ k ≤ u.length, ∀ d : Conn,
          d.readBuf = pre ++ (a ++ nul :: (u ++ nul :: (v ++ nul :: post))) →
          d.cstrAt (pre.length + a.length + 1 + k) = u.drop k := by
        intro k hk d hd
        have hsplit : d.readBuf =
            (pre ++ (a ++ nul :: u.take k)) ++ (u.drop k ++ nul :: (v ++ nul :: post)) := by
          rw [hd]
          simp only [List.append_assoc, List.cons_append]
          rw [← List.append_assoc (u.take k), List.take_append_drop]
        refine cstrAt_eq _ _ hsplit (fun hmem => hu (List.mem_of_mem_drop hmem)) ?_
        simp [Nat.min_eq_left hk]
        omega
      have hurl0 : ∀ d : Conn,
          d.readBuf = pre ++ (a ++ nul :: (u ++ nul :: (v ++ nul :: post))) →
          d.cstrAt (pre.length + a.length + 1) = u := fun d hd => hurl 0 (Nat.zero_le _) d hd
      have hversion : ∀ d : Conn,
          d.readBuf = pre ++ (a ++ nul :: (u ++ nul :: (v ++ nul :: post))) →
          d.cstrAt (pre.length + a.length + 1 + u.length + 1) = v := fun d hd =>
        cstrAt_eq (pre ++ (a ++ nul :: (u ++ [nul]))) post (by simp [hd]) hv
          (by simp; omega)
      have hbuffer : ∃ line : Bytes, line.length = (a ++ x :: (u ++ y :: v)).length ∧
          pre ++ (a ++ nul :: (u ++ nul :: (v ++ nul :: post))) = pre ++ (line ++ nul :: post) :=
        ⟨a ++ nul :: (u ++ nul :: v), by simp, by simp⟩
      simp only [hset2, hversion, hurl0, hutake, hudrop]
      by_cases hver : strcasecmp v (ascii "HTTP/1.1") = true
      · simp only [hver, Bool.not_true, Bool.false_eq_true, if_false]
        cases hk : pathOffset u with
        | none => exact ⟨_, _, rfl, ⟨rfl, rfl, rfl, rfl, rfl, hbuffer⟩, rfl⟩
        | some k =>
          have hkle := pathOffset_le hk
          simp only [hurl k hkle]
          by_cases hslash : (u.drop k).head? = some slash
          · simp only [hslash, ne_eq, not_true_eq_false, if_false]
            refine ⟨_, _, rfl, ⟨rfl, rfl, rfl, rfl, rfl, hbuffer⟩, rfl, ?_, ?_⟩
            · simp [hstate]
            · refine ⟨_, ?_, rfl, hurl k hkle _ rfl⟩
              simp only [List.length_append, List.length_cons]
              omega
          · simp only [ne_eq, hslash, not_false_eq_true, if_true]
            exact ⟨_, _, rfl, ⟨rfl, rfl, rfl, rfl, rfl, hbuffer⟩, rfl⟩
      · simp only [hver, Bool.not_false, if_true]
        exact ⟨_, _, rfl, ⟨rfl, rfl, rfl, rfl, rfl, hbuffer⟩, rfl⟩

end Http
end ResourceServer

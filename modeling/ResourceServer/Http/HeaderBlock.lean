import ResourceServer.Http.Fragmentation
import ResourceServer.Http.Mediation

/-!
# Header blocks of arbitrary bytes

`parse_line` ends every line by its CRLF, but the text of the line is then read as a C
string. The reference below takes each line whole: a header is recognised and its value read
from all the bytes of the line, and the last recognised value of each kind counts.
-/

namespace ResourceServer
namespace Http

open CString

/-- The setting of a `Connection` line. -/
def connection? (line : Bytes) : Option Bool :=
  if strncasecmp line (ascii "Connection:") 11 then
    let value := skipBlanks (line.drop 11)
    if strcasecmp value (ascii "keep-alive") then some true
    else if strcasecmp value (ascii "close") then some false
    else none
  else none

/-- The number of a `Content-Length` line. -/
def contentLength? (line : Bytes) : Option ℤ :=
  if strncasecmp line (ascii "Content-Length:") 15 then
    some (toInt32 (atol (skipBlanks (line.drop 15))))
  else none

/-- What the last line with a value gives. -/
def lastValue {α : Type} (value? : Bytes → Option α) (headers : List Bytes) : Option α :=
  headers.reverse.findSome? value?

theorem lastValue_append {α : Type} (value? : Bytes → Option α) (headers : List Bytes) (line : Bytes) :
    lastValue value? (headers ++ [line]) = (value? line).or (lastValue value? headers) := by
  rw [lastValue, List.reverse_append, List.reverse_singleton, List.singleton_append,
    List.findSome?_cons]
  cases value? line <;> rfl

theorem lastValue_eq_some_iff {α : Type} {value? : Bytes → Option α} {headers : List Bytes} {a : α} :
    lastValue value? headers = some a ↔ ∃ before line after, headers = before ++ line :: after ∧
      value? line = some a ∧ ∀ l ∈ after, value? l = none := by
  rw [lastValue, List.findSome?_eq_some_iff]
  constructor
  · rintro ⟨after, line, before, hsplit, hline, hafter⟩
    refine ⟨before.reverse, line, after.reverse, ?_, hline, fun l hl => hafter l (List.mem_reverse.mp hl)⟩
    rw [← List.reverse_reverse headers, hsplit]
    simp
  · rintro ⟨before, line, after, rfl, hline, hafter⟩
    exact ⟨after.reverse, line, before.reverse, by simp, hline,
      fun l hl => hafter l (List.mem_reverse.mp hl)⟩

theorem lastValue_eq_none_iff {α : Type} {value? : Bytes → Option α} {headers : List Bytes} :
    lastValue value? headers = none ↔ ∀ line ∈ headers, value? line = none := by
  simp [lastValue]

theorem foldl_lastValue {α : Type} (value? : Bytes → Option α) (headers : List Bytes) (a : α) :
    headers.foldl (fun a line => (value? line).getD a) a = (lastValue value? headers).getD a := by
  induction headers using List.reverseRecOn with
  | nil => rfl
  | append_singleton headers line ih =>
    rw [List.foldl_append, List.foldl_cons, List.foldl_nil, ih, lastValue_append]
    cases value? line <;> rfl

theorem skipBlanks_eq (s : Bytes) : skipBlanks s = s.dropWhile (blanks.contains ·) := by
  have hsplit := List.takeWhile_append_dropWhile (p := (blanks.contains ·)) (l := s)
  rw [skipBlanks, strspn]
  calc
    _ = (s.takeWhile (blanks.contains ·) ++ s.dropWhile (blanks.contains ·)).drop
        (s.takeWhile (blanks.contains ·)).length := by rw [hsplit]
    _ = s.dropWhile (blanks.contains ·) := List.drop_left

theorem skipBlanks_cstr (s : Bytes) : skipBlanks (cstr s) = cstr (skipBlanks s) := by
  rw [skipBlanks_eq, skipBlanks_eq, dropWhile_cstr (by decide)]

theorem contentLength?_cstr (line : Bytes) : contentLength? (cstr line) = contentLength? line := by
  have hnul : nul ∉ ascii "Content-Length:" := by decide
  unfold contentLength?
  rw [strncasecmp_cstr (n := 15) rfl hnul]
  by_cases hname : strncasecmp line (ascii "Content-Length:") 15 = true
  · rw [if_pos hname, if_pos hname, drop_cstr (n := 15) rfl hnul hname, skipBlanks_cstr, atol_cstr]
  · rw [if_neg hname, if_neg hname]

/-- A token is cut at its NUL. -/
theorem bearer?_cstr (line : Bytes) : bearer? (cstr line) = (bearer? line).map cstr := by
  have hnul : nul ∉ ascii "Authorization:" := by decide
  unfold bearer?
  rw [strncasecmp_cstr (n := 14) rfl hnul]
  by_cases hname : strncasecmp line (ascii "Authorization:") 14 = true
  · rw [if_pos hname, if_pos hname, drop_cstr (n := 14) rfl hnul hname, skipBlanks_cstr]
    generalize skipBlanks (line.drop 14) = auth
    dsimp only
    by_cases hscheme : ascii "Bearer " <+: auth
    · obtain ⟨token, rfl⟩ := hscheme
      rw [cstr_append_of_notMem (by decide)]
      rfl
    · have hcut : ¬ ascii "Bearer " <+: cstr auth := fun h => hscheme (h.trans (cstr_isPrefix auth))
      rw [if_neg (by rwa [List.isPrefixOf_iff_prefix]), if_neg (by rwa [List.isPrefixOf_iff_prefix])]
      rfl
  · rw [if_neg hname, if_neg hname]
    rfl

theorem nul_notMem_of_connection? {line : Bytes} {b : Bool} (h : connection? line = some b) :
    nul ∉ line := by
  unfold connection? at h
  split_ifs at h with hname
  have hvalue : nul ∉ skipBlanks (line.drop 11) := by
    dsimp only at h
    split_ifs at h with halive hclose
    · exact nul_notMem_of_map_toLower (t := ascii "keep-alive") (by decide)
        (by simpa [strcasecmp] using halive)
    · exact nul_notMem_of_map_toLower (t := ascii "close") (by decide)
        (by simpa [strcasecmp] using hclose)
  have hnul : nul ∉ ascii "Connection:" := by decide
  obtain ⟨hsplit, -⟩ := strncasecmp_split (n := 11) rfl hnul hname
  have hrest : nul ∉ line.drop 11 := by
    rw [skipBlanks_eq] at hvalue
    rw [← List.takeWhile_append_dropWhile (p := (blanks.contains ·)) (l := line.drop 11),
      List.mem_append, not_or]
    refine ⟨fun hmem => ?_, hvalue⟩
    have := List.mem_takeWhile_imp hmem
    exact absurd this (by decide)
  rw [cstr_eq_self hrest, List.take_append_drop] at hsplit
  exact hsplit ▸ nul_notMem_cstr line

theorem headerLine_linger_eq (s : RequestState) (line : Bytes) :
    (s.headerLine line).linger = (connection? line).getD s.linger := by
  unfold RequestState.headerLine connection?
  split_ifs with hname
  · dsimp only
    split_ifs <;> rfl
  all_goals try (dsimp only; split_ifs)
  all_goals rfl

theorem not_connection_of_contentLength {line : Bytes}
    (h : strncasecmp line (ascii "Content-Length:") 15 = true) :
    strncasecmp line (ascii "Connection:") 11 = false := by
  by_contra hother
  rw [Bool.not_eq_false] at hother
  have hlength : (line.take 15).map toLower = ((ascii "Content-Length:").take 15).map toLower := by
    simpa [strncasecmp, strcasecmp] using h
  have hconnection : (line.take 11).map toLower = ((ascii "Connection:").take 11).map toLower := by
    simpa [strncasecmp, strcasecmp] using hother
  have h4 := congrArg (List.take 4) hlength
  rw [← List.map_take, List.take_take, show min 4 15 = min 4 11 from rfl, ← List.take_take,
    List.map_take, hconnection] at h4
  exact absurd h4 (by decide)

theorem headerLine_contentLength_eq (s : RequestState) (line : Bytes) :
    (s.headerLine line).contentLength = (contentLength? line).getD s.contentLength := by
  rw [RequestState.headerLine_contentLength, contentLength?]
  by_cases hname : strncasecmp line (ascii "Content-Length:") 15 = true
  · rw [if_pos ⟨by simp [not_connection_of_contentLength hname], hname⟩, if_pos hname]
    rfl
  · rw [if_neg (fun h => hname h.2), if_neg hname]
    rfl

theorem foldl_headerLine {α : Type} {get : RequestState → α} {value? : Bytes → Option α}
    (hget : ∀ s line, get (RequestState.headerLine s line) = (value? line).getD (get s))
    (headers : List Bytes) (s : RequestState) :
    get (headers.foldl (fun s line => s.headerLine (cstr line)) s) =
      (lastValue (fun line => value? (cstr line)) headers).getD (get s) := by
  rw [← foldl_lastValue]
  induction headers generalizing s with
  | nil => rfl
  | cons line headers ih => rw [List.foldl_cons, List.foldl_cons, ih, hget]

theorem lastValue_map {α β : Type} (f : α → β) (value? : Bytes → Option α) (headers : List Bytes) :
    lastValue (fun line => (value? line).map f) headers = (lastValue value? headers).map f := by
  induction headers using List.reverseRecOn with
  | nil => rfl
  | append_singleton headers line ih =>
    rw [lastValue_append, lastValue_append, ih]
    cases value? line <;> rfl

/-- A request whose lines hold any bytes but CR and LF, with an accepted request line. -/
structure RawRequest where
  requestLine : Bytes
  headers : List Bytes
  body : Bytes
  plain : ∀ line ∈ requestLine :: headers, ∀ b ∈ line, notEol b
  nonempty : ∀ line ∈ headers, line ≠ []
  accepted : (Head.initial.requestLine (cstr requestLine)).isSome
  size : (lines (requestLine :: headers) ++ crlf ++ body).length < readBufferSize

namespace RawRequest

def bytes (r : RawRequest) : Bytes := lines (r.requestLine :: r.headers) ++ crlf ++ r.body

/-- The bytes up to the first empty line and its CRLF. -/
def blockEnd (r : RawRequest) : ℕ := (lines (r.requestLine :: r.headers) ++ crlf).length

def linger (r : RawRequest) : Bool := (lastValue connection? r.headers).getD true

def contentLength (r : RawRequest) : ℤ := (lastValue contentLength? r.headers).getD 0

def token (r : RawRequest) : Bytes := (lastValue bearer? r.headers).getD []

end RawRequest

/-- `process_read` asks for more up to the end of the first empty line and no longer, in any
chunking; and in front of its last byte the three variables are those of the reference. -/
structure DelimitsExactly (r : RawRequest) : Prop where
  delimits : ∀ (c : Conn) (chunks : List Bytes), (∀ chunk ∈ chunks, chunk ≠ []) →
    chunks.flatten <+: r.bytes → ((c.init.feed chunks).isSome ↔ chunks.flatten.length < r.blockEnd)
  values : ∀ (c : Conn) (chunks : List Bytes) (c' : Conn), c.init.feed chunks = some c' →
    chunks.flatten <+: r.bytes → chunks.flatten.length + 1 = r.blockEnd →
      c'.linger = r.linger ∧ c'.contentLength = r.contentLength ∧ c'.token = r.token

/-- A `Connection` line whose text up to a NUL is recognised, with no recognised line behind. -/
def CutConnection (headers : List Bytes) (b : Bool) : Prop :=
  ∃ before line after, headers = before ++ line :: after ∧ nul ∈ line ∧
    connection? (cstr line) = some b ∧ ∀ l ∈ after, connection? (cstr l) = none

theorem linger_eq_iff (headers : List Bytes) :
    (lastValue (fun line => connection? (cstr line)) headers).getD true =
        (lastValue connection? headers).getD true ↔
      ∀ b, CutConnection headers b → b = (lastValue connection? headers).getD true := by
  have hwhole {line : Bytes} (hcut : connection? (cstr line) = none) : connection? line = none := by
    by_contra h
    obtain ⟨b, hb⟩ := Option.ne_none_iff_exists'.mp h
    rw [cstr_eq_self (nul_notMem_of_connection? hb), hb] at hcut
    cases hcut
  constructor
  · rintro heq b ⟨before, line, after, hsplit, -, hline, hafter⟩
    rw [lastValue_eq_some_iff.mpr ⟨before, line, after, hsplit, hline, hafter⟩] at heq
    exact heq
  · intro hcut
    cases hlast : lastValue (fun line => connection? (cstr line)) headers with
    | none =>
      rw [lastValue_eq_none_iff] at hlast
      rw [lastValue_eq_none_iff.mpr fun line hl => hwhole (hlast line hl)]
    | some b =>
      obtain ⟨before, line, after, hsplit, hline, hafter⟩ := lastValue_eq_some_iff.mp hlast
      by_cases hnul : nul ∈ line
      · exact hcut b ⟨before, line, after, hsplit, hnul, hline, hafter⟩
      · rw [cstr_eq_self hnul] at hline
        rw [lastValue_eq_some_iff.mpr ⟨before, line, after, hsplit, hline,
          fun l hl => hwhole (hafter l hl)⟩]

theorem token_eq_iff (headers : List Bytes) :
    ((lastValue bearer? headers).map cstr).getD [] = (lastValue bearer? headers).getD [] ↔
      nul ∉ (lastValue bearer? headers).getD [] := by
  cases lastValue bearer? headers with
  | none => simp
  | some token =>
    simp only [Option.map_some, Option.getD_some]
    exact ⟨fun h => h ▸ nul_notMem_cstr token, cstr_eq_self⟩

theorem cstr_ne_nil_iff {line : Bytes} (hne : line ≠ []) : cstr line ≠ [] ↔ line.head? ≠ some nul := by
  cases line with
  | nil => exact absurd rfl hne
  | cons b line => by_cases hb : b = nul <;> simp [cstr, hb]

namespace Head

theorem read_headers_cr {h : Head} (hstate : h.state.checkState = .header) {headers : List Bytes}
    (hplain : ∀ line ∈ headers, ∀ b ∈ line, notEol b) (hne : ∀ line ∈ headers, cstr line ≠ []) :
    h.read (lines headers ++ [cr]) =
      .incomplete (headers.foldl (fun h line => h.headerLine (cstr line)) h) [cr] := by
  induction headers generalizing h with
  | nil => exact read_none rfl
  | cons line headers ih =>
    have hline : nextLine (lines (line :: headers) ++ [cr]) = some (line, lines headers ++ [cr]) :=
      nextLine_eq_some.mpr ⟨by simp [crlf], hplain line List.mem_cons_self⟩
    have hnot : ¬ h.state.checkState = .requestLine := by simp [hstate]
    rw [read_some hline, if_neg hnot, if_neg (hne line List.mem_cons_self), List.foldl_cons]
    exact ih (by rw [headerLine, RequestState.headerLine_checkState, hstate])
      (fun l hl => hplain l (List.mem_cons_of_mem _ hl)) (fun l hl => hne l (List.mem_cons_of_mem _ hl))

theorem read_headers_early {h : Head} (hstate : h.state.checkState = .header) {headers : List Bytes}
    (hplain : ∀ line ∈ headers, ∀ b ∈ line, notEol b) (hempty : ∃ line ∈ headers, cstr line = []) :
    ¬ (h.read (lines headers)).IsIncomplete := by
  induction headers generalizing h with
  | nil =>
    obtain ⟨line, hl, -⟩ := hempty
    cases hl
  | cons line headers ih =>
    have hline : nextLine (lines (line :: headers)) = some (line, lines headers) :=
      nextLine_eq_some.mpr ⟨by simp [crlf], hplain line List.mem_cons_self⟩
    have hnot : ¬ h.state.checkState = .requestLine := by simp [hstate]
    rw [read_some hline, if_neg hnot]
    by_cases hfirst : cstr line = []
    · rw [if_pos hfirst]
      exact fun h => h
    · rw [if_neg hfirst]
      refine ih (by rw [headerLine, RequestState.headerLine_checkState, hstate])
        (fun l hl => hplain l (List.mem_cons_of_mem _ hl)) ?_
      obtain ⟨l, hl, hcstr⟩ := hempty
      rcases List.mem_cons.mp hl with rfl | hl
      · exact absurd hcstr hfirst
      · exact ⟨l, hl, hcstr⟩

end Head

namespace RawRequest

variable {r : RawRequest}

theorem read_requestLine (r : RawRequest) (rest : Bytes) :
    ∃ h, Head.initial.requestLine (cstr r.requestLine) = some h ∧
      Head.initial.read (r.requestLine ++ crlf ++ rest) = h.read rest := by
  obtain ⟨h, hreq⟩ := Option.isSome_iff_exists.mp r.accepted
  have hline : nextLine (r.requestLine ++ crlf ++ rest) = some (r.requestLine, rest) :=
    nextLine_eq_some.mpr ⟨by simp [crlf], r.plain _ List.mem_cons_self⟩
  refine ⟨h, hreq, ?_⟩
  rw [Head.read_some hline, if_pos Head.initial_checkState, hreq]

/-- Without a NUL at the head of a line, the request as the parser's lemmas take it. -/
def text (r : RawRequest) (hhead : ∀ line ∈ r.headers, line.head? ≠ some nul) : RequestText where
  requestLine := r.requestLine
  headers := r.headers
  body := r.body
  plain := r.plain
  headers_ne_nil line hl := (cstr_ne_nil_iff (r.nonempty line hl)).mpr (hhead line hl)

theorem decisionPoint_text (hhead : ∀ line ∈ r.headers, line.head? ≠ some nul) :
    (r.text hhead).decisionPoint = r.blockEnd := by
  obtain ⟨h, hreq⟩ := Option.isSome_iff_exists.mp r.accepted
  rw [RequestText.decisionPoint, show (r.text hhead).requestLine = r.requestLine from rfl, hreq]
  rfl

theorem state_before_end (hhead : ∀ line ∈ r.headers, line.head? ≠ some nul) {c c' : Conn}
    {chunks : List Bytes} (hfeed : c.init.feed chunks = some c') (hsent : chunks.flatten <+: r.bytes)
    (hlen : chunks.flatten.length + 1 = r.blockEnd) :
    c'.linger = (lastValue (fun line => connection? (cstr line)) r.headers).getD true ∧
      c'.contentLength = r.contentLength ∧
      c'.token = ((lastValue bearer? r.headers).map cstr).getD [] := by
  obtain ⟨h', pending, hread, hr, -⟩ :=
    Conn.feed_resumable (resumable_init c) (Head.read_none rfl) hfeed
  have hbytes : chunks.flatten = r.requestLine ++ crlf ++ (lines r.headers ++ [cr]) := by
    rw [List.prefix_iff_eq_take] at hsent
    have hblock : r.bytes = (r.requestLine ++ crlf ++ (lines r.headers ++ [cr])) ++ (lf :: r.body) := by
      simp [bytes, crlf]
    have hcount : chunks.flatten.length = (r.requestLine ++ crlf ++ (lines r.headers ++ [cr])).length := by
      simp [blockEnd, crlf] at hlen ⊢
      omega
    rw [hsent, hblock, hcount, List.take_left]
  obtain ⟨h, hreq, hrest⟩ := r.read_requestLine (lines r.headers ++ [cr])
  rw [List.nil_append, hbytes, hrest, Head.read_headers_cr (Head.requestLine_checkState hreq)
    (fun l hl => r.plain l (List.mem_cons_of_mem _ hl))
    (fun l hl => (cstr_ne_nil_iff (r.nonempty l hl)).mpr (hhead l hl))] at hread
  cases hread
  obtain ⟨pre, clean, tail, -, hreading⟩ := hr
  obtain ⟨method, apireq, hstate⟩ := Head.requestLine_frame hreq
  have hfold := hreading.state.trans (Head.foldl_state _ _)
  rw [hstate] at hfold
  refine ⟨?_, ?_, ?_⟩
  · rw [hfold, foldl_headerLine headerLine_linger_eq]
    rfl
  · rw [hfold, foldl_headerLine headerLine_contentLength_eq]
    simp only [contentLength?_cstr]
    rfl
  · rw [hfold, foldl_headerLine headerLine_token]
    simp only [bearer?_cstr, lastValue_map]
    rfl

end RawRequest

theorem feed_isSome_iff (c : Conn) {chunks : List Bytes} (hne : ∀ chunk ∈ chunks, chunk ≠ [])
    (hsize : chunks.flatten.length < readBufferSize) :
    (c.init.feed chunks).isSome ↔ (Head.initial.read chunks.flatten).IsIncomplete := by
  have hzero : c.init.readIndex = 0 := rfl
  have hspec := Conn.feed_spec chunks (resumable_init c) (Head.read_none rfl) hne (by omega)
  rw [List.nil_append] at hspec
  cases hread : Head.initial.read chunks.flatten with
  | incomplete h pending =>
    rw [hread] at hspec
    obtain ⟨c', hc', -⟩ := hspec
    exact iff_of_true (by rw [hc']; rfl) trivial
  | rejected h rest =>
    rw [hread] at hspec
    exact iff_of_false (by rw [hspec]; exact Bool.false_ne_true) (fun h => h)
  | complete h rest =>
    rw [hread] at hspec
    exact iff_of_false (by rw [hspec]; exact Bool.false_ne_true) (fun h => h)

namespace RawRequest

variable {r : RawRequest}

theorem length_lt {sent : Bytes} (hsent : sent <+: r.bytes) : sent.length < readBufferSize :=
  hsent.length_le.trans_lt r.size

theorem feed_isSome_iff_lt (hhead : ∀ line ∈ r.headers, line.head? ≠ some nul) (c : Conn)
    {chunks : List Bytes} (hne : ∀ chunk ∈ chunks, chunk ≠ []) (hsent : chunks.flatten <+: r.bytes) :
    (c.init.feed chunks).isSome ↔ chunks.flatten.length < r.blockEnd := by
  rw [feed_isSome_iff c hne (length_lt hsent), ← decisionPoint_text hhead,
    ← (r.text hhead).read_take, show (r.text hhead).bytes = r.bytes from rfl,
    ← List.prefix_iff_eq_take.mp hsent]

theorem two_le_blockEnd (r : RawRequest) : 2 ≤ r.blockEnd := by
  simp [blockEnd, crlf]
  omega

end RawRequest

theorem DelimitsExactly.head_ne_nul {r : RawRequest} (hexact : DelimitsExactly r) :
    ∀ line ∈ r.headers, line.head? ≠ some nul := by
  intro line hl hnul
  have hcstr : cstr line = [] := by
    by_contra h
    exact (cstr_ne_nil_iff (r.nonempty line hl)).mp h hnul
  -- all the header lines, without the blank line
  let sent := r.requestLine ++ crlf ++ lines r.headers
  have hsent : [sent].flatten <+: r.bytes := ⟨crlf ++ r.body, by simp [sent, RawRequest.bytes]⟩
  have hne : ∀ chunk ∈ [sent], chunk ≠ [] := by simp [sent, crlf]
  have hlt : [sent].flatten.length < r.blockEnd := by simp [sent, RawRequest.blockEnd, crlf]
  have hsome := (hexact.delimits (.accepted ⟨0, []⟩) [sent] hne hsent).mpr hlt
  rw [feed_isSome_iff _ hne (RawRequest.length_lt hsent)] at hsome
  obtain ⟨h, hreq, hread⟩ := r.read_requestLine (lines r.headers)
  rw [List.flatten_singleton, hread] at hsome
  exact Head.read_headers_early (Head.requestLine_checkState hreq)
    (fun l hl => r.plain l (List.mem_cons_of_mem _ hl)) ⟨line, hl, hcstr⟩ hsome

theorem RawRequest.exists_before_end {r : RawRequest} (hhead : ∀ line ∈ r.headers, line.head? ≠ some nul) :
    ∃ (c c' : Conn) (chunks : List Bytes), c.init.feed chunks = some c' ∧ chunks.flatten <+: r.bytes ∧
      chunks.flatten.length + 1 = r.blockEnd := by
  have htwo := r.two_le_blockEnd
  have hend : r.blockEnd ≤ r.bytes.length := by
    rw [RawRequest.bytes, List.length_append]
    exact Nat.le_add_right _ _
  have hlen : (r.bytes.take (r.blockEnd - 1)).length = r.blockEnd - 1 := by
    rw [List.length_take]
    omega
  have hsent : [r.bytes.take (r.blockEnd - 1)].flatten <+: r.bytes := by
    rw [List.flatten_singleton]
    exact List.take_prefix _ _
  have hne : ∀ chunk ∈ [r.bytes.take (r.blockEnd - 1)], chunk ≠ [] := by
    intro chunk hchunk
    rw [List.mem_singleton.mp hchunk, ← List.length_pos_iff, hlen]
    omega
  have hsome := (RawRequest.feed_isSome_iff_lt hhead (.accepted ⟨0, []⟩) hne hsent).mpr
    (by rw [List.flatten_singleton]; omega)
  obtain ⟨c', hc'⟩ := Option.isSome_iff_exists.mp hsome
  exact ⟨_, c', _, hc', hsent, by rw [List.flatten_singleton]; omega⟩

/-- A header block is delimited exactly if and only if no line starts with NUL, the last
bearer token has no NUL, and no `Connection` line cut at a NUL changes the setting. -/
theorem header_block_exact_iff (r : RawRequest) :
    DelimitsExactly r ↔ (∀ line ∈ r.headers, line.head? ≠ some nul) ∧ nul ∉ r.token ∧
      ∀ b, CutConnection r.headers b → b = r.linger := by
  constructor
  · intro hexact
    have hhead := hexact.head_ne_nul
    obtain ⟨c, c', chunks, hfeed, hsent, hlen⟩ := RawRequest.exists_before_end hhead
    obtain ⟨hlinger, -, htoken⟩ := RawRequest.state_before_end hhead hfeed hsent hlen
    obtain ⟨hlinger', -, htoken'⟩ := hexact.values c chunks c' hfeed hsent hlen
    exact ⟨hhead, (token_eq_iff r.headers).mp (htoken.symm.trans htoken'),
      (linger_eq_iff r.headers).mp (hlinger.symm.trans hlinger')⟩
  · rintro ⟨hhead, htoken, hlinger⟩
    refine ⟨fun c chunks hne hsent => RawRequest.feed_isSome_iff_lt hhead c hne hsent,
      fun c chunks c' hfeed hsent hlen => ?_⟩
    obtain ⟨hlinger', hlength, htoken'⟩ := RawRequest.state_before_end hhead hfeed hsent hlen
    exact ⟨hlinger'.trans ((linger_eq_iff r.headers).mpr hlinger), hlength,
      htoken'.trans ((token_eq_iff r.headers).mpr htoken)⟩

def hiddenLength : RawRequest where
  requestLine := ascii "POST /api/login HTTP/1.1"
  headers := [nul :: ascii "X", ascii "Content-Length: 2"]
  body := ascii "\x7b\x7d"
  plain := by decide +kernel
  nonempty := by decide
  accepted := by decide +kernel
  size := by decide

/-- The block is taken to end in front of the length. -/
theorem hidden_length_not_exact : ¬ DelimitsExactly hiddenLength := by
  intro hexact
  exact hexact.head_ne_nul (nul :: ascii "X") (by decide) rfl

end Http
end ResourceServer

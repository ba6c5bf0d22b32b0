import ResourceServer.Http.Fragmentation

/-!
# Bare line ends

`parse_line` reports `LINE_BAD` for a CR or an LF that is not part of a CRLF, and
`process_read` leaves its loop for it as for a line that is not finished yet. The cursor
stays in front of the byte, so no later call gets past it either.
-/

namespace ResourceServer
namespace Http

open CString

/-- A CR with another byte than LF behind it, or an LF with another byte than CR before it. -/
def hasBareEol : Bytes → Bool
  | 13 :: 10 :: rest => hasBareEol rest
  | [13] => false
  | 13 :: _ :: _ => true
  | 10 :: _ => true
  | _ :: rest => hasBareEol rest
  | [] => false

theorem hasBareEol_cons {b : UInt8} (hb : notEol b = true) (rest : Bytes) :
    hasBareEol (b :: rest) = hasBareEol rest := by
  have h13 : b ≠ 13 := by rintro rfl; cases hb
  have h10 : b ≠ 10 := by rintro rfl; cases hb
  rw [hasBareEol]
  · exact fun _ h => absurd h h13
  · exact fun h _ => absurd h h13
  · exact fun _ _ h => absurd h h13
  · exact fun h => absurd h h10

theorem hasBareEol_cr {b : UInt8} (hb : b ≠ lf) (rest : Bytes) : hasBareEol (cr :: b :: rest) = true := by
  rw [hasBareEol]
  exact fun h => hb h

theorem hasBareEol_append {clean : Bytes} (hclean : ∀ b ∈ clean, notEol b = true) (rest : Bytes) :
    hasBareEol (clean ++ rest) = hasBareEol rest := by
  induction clean with
  | nil => rfl
  | cons b clean ih =>
    rw [List.cons_append, hasBareEol_cons (hclean b List.mem_cons_self),
      ih fun x hx => hclean x (List.mem_cons_of_mem _ hx)]

theorem hasBareEol_of_nextLine {bytes line rest : Bytes} (hline : nextLine bytes = some (line, rest)) :
    hasBareEol bytes = hasBareEol rest := by
  obtain ⟨rfl, hplain⟩ := nextLine_eq_some.mp hline
  rw [hasBareEol_append hplain]
  rfl

theorem unfinished_split {pending : Bytes} (hnone : nextLine pending = none) :
    ∃ clean stop, (∀ b ∈ clean, notEol b = true) ∧ Unfinished stop ∧ pending = clean ++ stop := by
  refine ⟨pending.takeWhile notEol, pending.dropWhile notEol, ?_, unfinished_of_nextLine hnone, ?_⟩
  · intro b hb
    exact List.mem_takeWhile_imp hb
  · exact List.takeWhile_append_dropWhile.symm

theorem nextLine_of_bare {pending : Bytes} (hnone : nextLine pending = none)
    (hbare : hasBareEol pending = true) (more : Bytes) : nextLine (pending ++ more) = none := by
  obtain ⟨clean, stop, hplain, hstop, rfl⟩ := unfinished_split hnone
  rw [hasBareEol_append hplain] at hbare
  rw [nextLine, List.append_assoc, List.dropWhile_append_of_pos hplain]
  cases hstop with
  | empty => cases hbare
  | carriage => cases hbare
  | bareCr b rest hb =>
    split
    · rename_i heq
      cases heq
      exact absurd rfl hb
    · rfl
  | bareLf rest => rfl

theorem clean_of_not_bare {pending : Bytes} (hnone : nextLine pending = none)
    (hbare : hasBareEol pending = false) :
    ∃ clean, (∀ b ∈ clean, notEol b = true) ∧ (pending = clean ∨ pending = clean ++ [cr]) := by
  obtain ⟨clean, stop, hplain, hstop, rfl⟩ := unfinished_split hnone
  rw [hasBareEol_append hplain] at hbare
  refine ⟨clean, hplain, ?_⟩
  cases hstop with
  | empty => exact Or.inl (List.append_nil clean)
  | carriage => exact Or.inr rfl
  | bareCr b rest hb =>
    rw [hasBareEol_cr hb] at hbare
    cases hbare
  | bareLf rest => cases hbare

/-- How the line under way ends: with the LF that a CR is waiting for, or with more text and
a CRLF. -/
theorem nextLine_ended {pending more line rest : Bytes} (hnone : nextLine pending = none)
    (hline : nextLine (pending ++ more) = some (line, rest)) :
    (pending = line ++ [cr] ∧ more = lf :: rest) ∨
      ∃ pad, pending.getLast? ≠ some cr ∧ line = pending ++ pad ∧ more = pad ++ cr :: lf :: rest := by
  have hbare : hasBareEol pending = false := by
    by_contra hbare
    rw [Bool.not_eq_false] at hbare
    rw [nextLine_of_bare hnone hbare] at hline
    cases hline
  obtain ⟨hsplit, hplain⟩ := nextLine_eq_some.mp hline
  have htake : (pending ++ more).takeWhile notEol = line := by
    rw [hsplit, List.takeWhile_append_of_pos hplain]
    simp [notEol]
  obtain ⟨clean, hclean, rfl | rfl⟩ := clean_of_not_bare hnone hbare
  · right
    rw [List.takeWhile_append_of_pos hclean] at htake
    refine ⟨more.takeWhile notEol, fun hlast => ?_, htake.symm, ?_⟩
    · exact absurd (hclean cr (List.mem_of_getLast? hlast)) (by decide)
    · rw [← htake, List.append_assoc] at hsplit
      exact List.append_cancel_left hsplit
  · left
    rw [List.append_assoc, List.takeWhile_append_of_pos hclean] at htake
    have heq : clean = line := by simpa [notEol] using htake
    subst heq
    rw [List.append_assoc] at hsplit
    exact ⟨rfl, (List.cons.inj (List.append_cancel_left hsplit)).2⟩

namespace Head

theorem read_hasBareEol {h h' : Head} {bytes pending : Bytes}
    (hread : h.read bytes = .incomplete h' pending) :
    nextLine pending = none ∧ hasBareEol bytes = hasBareEol pending := by
  fun_induction read h bytes with
  | case1 h bytes hline =>
    cases hread
    exact ⟨hline, rfl⟩
  | case2 => cases hread
  | case3 h bytes line rest hline hlen hstate h₁ hreq ih =>
    rw [hasBareEol_of_nextLine hline]
    exact ih hread
  | case4 => cases hread
  | case5 h bytes line rest hline hlen hstate hempty ih =>
    rw [hasBareEol_of_nextLine hline]
    exact ih hread

end Head

def Answerable (c : Conn) : Prop :=
  ∃ chunks last d e v, c.feed chunks = some d ∧ d.round last = some (.ok (e, v)) ∧ v ≠ .code .noRequest

/-- Where the body can start once the line under way has ended, with `received` bytes buffered. -/
def BodyStart (received : ℕ) (pending : Bytes) (start : ℕ) : Prop :=
  if pending.getLast? = some cr then start = received + 1
  else received + 2 ≤ start ∧ start ≤ readBufferSize

/-- The line under way can only be the blank line, and wherever it ends, the announced length
takes `parse_content` out of the buffer or out of `int`. -/
structure Doomed (h : Head) (pending : Bytes) (received : ℕ) : Prop where
  header : h.state.checkState = .header
  blank : pending = [cr] ∨ pending.head? = some nul
  content : h.state.endOfHeaders = .content
  outside : ∀ start, BodyStart received pending start →
    ¬ (0 ≤ h.state.contentLength + start ∧ h.state.contentLength + start ≤ intMax)

section
variable {c : Conn} {h : Head} {pending : Bytes}

theorem Resumable.continued (hr : Resumable c h pending) (hpending : h.read pending = .incomplete h pending)
    {chunks : List Bytes} {last : Bytes} {d : Conn} {result : Except Fault (Conn × Verdict)}
    (hfeed : c.feed chunks = some d) (hround : d.round last = some result) :
    c.readIndex + (chunks.flatten ++ last).length ≤ readBufferSize ∧
      Refines (c.readIndex + (chunks.flatten ++ last).length) result
        (h.read (pending ++ (chunks.flatten ++ last))) := by
  obtain ⟨h', pending', hread, hr', hindex⟩ := Conn.feed_resumable hr hpending hfeed
  obtain ⟨hle, rfl⟩ := Conn.round_some hround
  have htotal : (d.receive last).readIndex = c.readIndex + (chunks.flatten ++ last).length := by
    simp only [Conn.receive, Conn.readIndex, List.length_append] at hindex ⊢
    omega
  have hspec := processRead_spec (hr'.receive last hle)
  rw [htotal] at hspec
  refine ⟨?_, ?_⟩
  · rw [← htotal]
    simpa [Conn.receive, Conn.readIndex] using hle
  · rw [← List.append_assoc, Head.read_append, hread]
    exact hspec

/-- No continuation gets past a bare line end: `process_read` goes on asking for more. -/
theorem Resumable.stuck (hr : Resumable c h pending) (hnone : nextLine pending = none)
    (hbare : hasBareEol pending = true) {chunks : List Bytes} {last : Bytes} {d : Conn}
    {result : Except Fault (Conn × Verdict)} (hfeed : c.feed chunks = some d)
    (hround : d.round last = some result) : ∃ e, result = .ok (e, .code .noRequest) := by
  obtain ⟨-, hspec⟩ := hr.continued (Head.read_none hnone) hfeed hround
  rw [Head.read_none (nextLine_of_bare hnone hbare _)] at hspec
  obtain ⟨e, he, -⟩ := hspec
  exact ⟨e, he⟩

theorem blank_line {more line rest : Bytes} (hblank : pending = [cr] ∨ pending.head? = some nul)
    (hnone : nextLine pending = none) (hline : nextLine (pending ++ more) = some (line, rest)) :
    cstr line = [] := by
  rcases nextLine_ended hnone hline with ⟨hpending, -⟩ | ⟨pad, hlast, rfl, -⟩
  · rcases hblank with hblank | hblank
    · rw [hblank] at hpending
      have hnil : line = [] := by simpa using hpending.symm
      rw [hnil]
      rfl
    · rw [hpending] at hblank
      cases line with
      | nil => cases hblank
      | cons b line =>
        cases hblank
        rfl
  · rcases hblank with rfl | hblank
    · exact absurd rfl hlast
    · cases pending with
      | nil => cases hblank
      | cons b pending =>
        cases hblank
        rfl

theorem bodyStart_of_line {more line rest : Bytes} (hnone : nextLine pending = none)
    (hline : nextLine (pending ++ more) = some (line, rest)) {received start : ℕ}
    (hstart : start + rest.length = received + more.length)
    (hroom : received + more.length ≤ readBufferSize) : BodyStart received pending start := by
  rcases nextLine_ended hnone hline with ⟨hpending, rfl⟩ | ⟨pad, hlast, rfl, rfl⟩
  · rw [BodyStart, if_pos (by simp [hpending])]
    simp only [List.length_cons] at hstart
    omega
  · rw [BodyStart, if_neg hlast]
    simp only [List.length_append, List.length_cons] at hstart hroom
    omega

/-- In a doomed state every continuation that is decided runs into undefined behaviour. -/
theorem Resumable.not_answerable_of_doomed (hr : Resumable c h pending) (hnone : nextLine pending = none)
    (hdoomed : Doomed h pending c.readIndex) : ¬ Answerable c := by
  rintro ⟨chunks, last, d, e, v, hfeed, hround, hv⟩
  obtain ⟨hsize, hspec⟩ := hr.continued (Head.read_none hnone) hfeed hround
  generalize chunks.flatten ++ last = more at hsize hspec
  cases hline : nextLine (pending ++ more) with
  | none =>
    rw [Head.read_none hline] at hspec
    obtain ⟨e', he, -⟩ := hspec
    cases he
    exact hv rfl
  | some found =>
    obtain ⟨line, rest⟩ := found
    have hstate : ¬ h.state.checkState = .requestLine := by
      rw [hdoomed.header]
      decide
    rw [Head.read_some hline, if_neg hstate, if_pos (blank_line hdoomed.blank hnone hline)] at hspec
    obtain ⟨c', pre, hr', hindex, hresult⟩ := hspec
    have hstart : pre.length + rest.length = c.readIndex + more.length := by
      rw [← hindex, Conn.readIndex, hr'.buffer, List.length_append]
      rfl
    have hinside := (hr'.dispatch_ok_iff (hindex.trans_le hsize)).mp ⟨e, v, hresult.symm⟩ hdoomed.content
    exact hdoomed.outside _ (bodyStart_of_line hnone hline hstart hsize) ⟨hinside.low, hinside.high⟩

/-- A header line that announces no body, and the blank line. -/
def resetLength : Bytes := ascii "Content-Length: 0\r\n\r\n"

theorem read_resetLength (hstate : h.state.checkState = .header) :
    ∃ h', h.read resetLength = .complete h' [] ∧ h'.state.contentLength = 0 := by
  have hfirst : nextLine resetLength = some (ascii "Content-Length: 0", crlf) := by decide
  have hblank : nextLine crlf = some ([], []) := by decide
  have hcstr : cstr (ascii "Content-Length: 0") = ascii "Content-Length: 0" := by decide
  have hne : ¬ ascii "Content-Length: 0" = [] := by decide
  have hnot : ¬ h.state.checkState = .requestLine := by
    rw [hstate]
    decide
  have hnot' : ¬ (h.headerLine (ascii "Content-Length: 0")).state.checkState = .requestLine := by
    rwa [Head.headerLine, RequestState.headerLine_checkState]
  refine ⟨h.headerLine (ascii "Content-Length: 0"), ?_, ?_⟩
  · rw [Head.read_some hfirst, if_neg hnot, hcstr, if_neg hne, Head.read_some hblank, if_neg hnot']
    rfl
  · rw [Head.headerLine, RequestState.headerLine_contentLength, if_pos (by decide)]
    decide

theorem Resumable.answerable_of_read (hr : Resumable c h pending) {more : Bytes} (hmore : more ≠ [])
    (hsize : c.readIndex + more.length ≤ readBufferSize)
    (hread : match h.read (pending ++ more) with
      | .incomplete _ _ => False
      | .rejected _ _ => True
      | .complete h' rest => h'.state.endOfHeaders = .content → ∀ start : ℕ,
          start + rest.length = c.readIndex + more.length →
            EndInRange (h'.state.contentLength + start) (c.readIndex + more.length)) :
    Answerable c := by
  have hround := Conn.round_eq hmore hsize
  have hspec := processRead_spec (hr.receive more hsize)
  have htotal : (c.receive more).readIndex = c.readIndex + more.length := by
    simp [Conn.receive, Conn.readIndex]
  cases hp : h.read (pending ++ more) with
  | incomplete h' pending' =>
    rw [hp] at hread
    exact hread.elim
  | rejected h' rest =>
    rw [hp] at hspec
    obtain ⟨e, he, -⟩ := hspec
    exact ⟨[], more, c, e, _, rfl, hround.trans (congrArg some he), by decide⟩
  | complete h' rest =>
    rw [hp] at hspec hread
    obtain ⟨c', pre, hr', hindex, hresult⟩ := hspec
    have hstart : pre.length + rest.length = c.readIndex + more.length := by
      rw [← htotal, ← hindex, Conn.readIndex, hr'.buffer, List.length_append]
      rfl
    have hreceived : c'.readIndex = c.readIndex + more.length := hindex.trans htotal
    obtain ⟨e, v, hok⟩ := (hr'.dispatch_ok_iff (hreceived.trans_le hsize)).mpr fun hcontent =>
      hreceived ▸ hread hcontent _ hstart
    exact ⟨[], more, c, e, v, rfl, hround.trans (congrArg some (hresult.trans hok)),
      dispatch_ne_noRequest hok⟩

/-- Without a bare line end the line under way can be ended. -/
theorem exists_ending {clean : Bytes} (hclean : ∀ b ∈ clean, notEol b = true)
    (hpending : pending = clean ∨ pending = clean ++ [cr]) :
    ∃ ending, ending ≠ [] ∧ ending.length ≤ 2 ∧
      ∀ rest, nextLine (pending ++ (ending ++ rest)) = some (clean, rest) := by
  rcases hpending with rfl | rfl
  · exact ⟨crlf, by decide, by decide, fun rest => nextLine_eq_some.mpr ⟨by simp [crlf], hclean⟩⟩
  · exact ⟨[lf], by decide, by decide, fun rest => nextLine_eq_some.mpr ⟨by simp, hclean⟩⟩

theorem exists_more_of_bodyStart {clean : Bytes} (hclean : ∀ b ∈ clean, notEol b = true)
    (hpending : pending = clean ∨ pending = clean ++ [cr]) {received start : ℕ}
    (hstart : BodyStart received pending start) :
    ∃ more line, nextLine (pending ++ more) = some (line, []) ∧ received + more.length = start := by
  unfold BodyStart at hstart
  rcases hpending with rfl | rfl
  · have hlast : pending.getLast? ≠ some cr := fun hlast =>
      absurd (hclean cr (List.mem_of_getLast? hlast)) (by decide)
    rw [if_neg hlast] at hstart
    refine ⟨List.replicate (start - (received + 2)) nul ++ crlf,
      pending ++ List.replicate (start - (received + 2)) nul, nextLine_eq_some.mpr ⟨?_, ?_⟩, ?_⟩
    · simp [crlf]
    · intro b hb
      rcases List.mem_append.mp hb with hb | hb
      · exact hclean b hb
      · rw [List.eq_of_mem_replicate hb]
        decide
    · simp [crlf]
      omega
  · rw [if_pos (by simp)] at hstart
    exact ⟨[lf], clean, nextLine_eq_some.mpr ⟨by simp, hclean⟩, hstart.symm⟩

theorem BodyStart.inRange {received start : ℕ} {length : ℤ} (hroom : received + 23 < readBufferSize)
    (hstart : BodyStart received pending start) (hlow : 0 ≤ length + start)
    (hhigh : length + start ≤ intMax) : ∃ start' ≤ readBufferSize, BodyStart received pending start' ∧
      EndInRange (length + start') start' := by
  have hbuffer : readBufferSize = 65536 := rfl
  have hmax : intMax = 2147483647 := rfl
  by_cases hfull : length + start = readBufferSize ∧ start = readBufferSize
  · by_cases hlast : pending.getLast? = some cr
    · rw [BodyStart, if_pos hlast] at hstart
      omega
    · refine ⟨received + 2, by omega, ?_, ?_⟩
      · rw [BodyStart, if_neg hlast]
        omega
      · rw [endInRange_of_room (by omega)]
        omega
  · refine ⟨start, ?_, hstart, hlow, hhigh, hfull⟩
    unfold BodyStart at hstart
    split_ifs at hstart <;> omega

theorem Resumable.answerable_of_blank (hr : Resumable c h pending) {more line : Bytes}
    (hstate : h.state.checkState = .header) (hnone : nextLine pending = none)
    (hblank : pending = [cr] ∨ pending.head? = some nul)
    (hline : nextLine (pending ++ more) = some (line, []))
    (hsize : c.readIndex + more.length ≤ readBufferSize)
    (hinside : h.state.endOfHeaders = .content →
      EndInRange (h.state.contentLength + (c.readIndex + more.length : ℕ)) (c.readIndex + more.length)) :
    Answerable c := by
  have hmore : more ≠ [] := by
    rintro rfl
    rw [List.append_nil, hnone] at hline
    cases hline
  have hnot : ¬ h.state.checkState = .requestLine := by
    rw [hstate]
    decide
  refine hr.answerable_of_read hmore hsize ?_
  rw [Head.read_some hline, if_neg hnot, if_pos (blank_line hblank hnone hline)]
  intro hcontent start hstart
  rw [List.length_nil, Nat.add_zero] at hstart
  rw [hstart]
  exact hinside hcontent

theorem Resumable.answerable_of_reset (hr : Resumable c h pending) {ending : Bytes} {h₁ : Head}
    (hstate : h₁.state.checkState = .header)
    (hread : h.read (pending ++ (ending ++ resetLength)) = h₁.read resetLength)
    (hsize : c.readIndex + (ending ++ resetLength).length < readBufferSize) : Answerable c := by
  obtain ⟨h', hcomplete, hlength⟩ := read_resetLength hstate
  have hmore : ending ++ resetLength ≠ [] := by simp [resetLength, ascii]
  refine hr.answerable_of_read hmore hsize.le ?_
  rw [hread, hcomplete]
  intro _ start hstart
  rw [hlength, endInRange_of_room hsize]
  simp only [List.length_nil, readBufferSize, intMax] at *
  omega

theorem Resumable.answerable (hr : Resumable c h pending) (hnone : nextLine pending = none)
    (hbare : hasBareEol pending = false) (hroom : c.readIndex + 23 < readBufferSize)
    (hdoomed : ¬ Doomed h pending c.readIndex) : Answerable c := by
  obtain ⟨clean, hclean, hpending⟩ := clean_of_not_bare hnone hbare
  obtain ⟨ending, hne, hlen, hending⟩ := exists_ending hclean hpending
  have hsize : c.readIndex + (ending ++ resetLength).length < readBufferSize := by
    have hreset : resetLength.length = 21 := by decide
    rw [List.length_append, hreset]
    omega
  have hline := hending resetLength
  cases hstate : h.state.checkState with
  | content =>
    obtain ⟨pre, clean, tail, -, hr⟩ := hr
    exact absurd hstate hr.notContent
  | requestLine =>
    cases hreq : h.requestLine (cstr clean) with
    | none =>
      have hmore : ending ++ resetLength ≠ [] := by simp [hne]
      refine hr.answerable_of_read hmore hsize.le ?_
      rw [Head.read_some hline, if_pos hstate, hreq]
      trivial
    | some h₁ =>
      refine hr.answerable_of_reset (Head.requestLine_checkState hreq) ?_ hsize
      rw [Head.read_some hline, if_pos hstate, hreq]
  | header =>
    have hnot : ¬ h.state.checkState = .requestLine := by
      rw [hstate]
      decide
    by_cases hcstr : cstr clean = []
    · by_cases hnil : pending = []
      · subst hnil
        have hread : h.read ([] ++ ([] ++ resetLength)) = h.read resetLength := rfl
        exact hr.answerable_of_reset hstate hread (by simp [resetLength, ascii]; omega)
      · have hblank : pending = [cr] ∨ pending.head? = some nul := by
          cases clean with
          | nil => exact Or.inl (hpending.resolve_left hnil)
          | cons b clean =>
            have hb : b = nul := by
              by_contra hb
              simp [cstr, hb] at hcstr
            subst hb
            rcases hpending with rfl | rfl <;> exact Or.inr rfl
        by_cases hcontent : h.state.endOfHeaders = .content
        · obtain ⟨start, hstart, hinside⟩ : ∃ start, BodyStart c.readIndex pending start ∧
              0 ≤ h.state.contentLength + start ∧ h.state.contentLength + start ≤ intMax := by
            by_contra hall
            exact hdoomed ⟨hstate, hblank, hcontent, fun start hs hin => hall ⟨start, hs, hin⟩⟩
          obtain ⟨start, hle, hstart, hinside⟩ := hstart.inRange hroom hinside.1 hinside.2
          obtain ⟨more, line, hend, rfl⟩ := exists_more_of_bodyStart hclean hpending hstart
          exact hr.answerable_of_blank hstate hnone hblank hend hle fun _ => hinside
        · have hend := hending []
          rw [List.append_nil] at hend
          exact hr.answerable_of_blank hstate hnone hblank hend (by omega) fun h => absurd h hcontent
    · have hread : h.read (pending ++ (ending ++ resetLength)) =
          (h.headerLine (cstr clean)).read resetLength := by
        rw [Head.read_some hline, if_neg hnot, if_neg hcstr]
      refine hr.answerable_of_reset ?_ hread hsize
      rwa [Head.headerLine, RequestState.headerLine_checkState]

theorem Head.read_continues_iff (hnone : nextLine pending = none) (hstate : h.state.checkState ≠ .content) :
    (∃ more, ¬ (h.read (pending ++ more)).IsIncomplete) ↔ hasBareEol pending = false := by
  constructor
  · rintro ⟨more, hmore⟩
    by_contra hbare
    rw [Bool.not_eq_false] at hbare
    rw [Head.read_none (nextLine_of_bare hnone hbare more)] at hmore
    exact hmore trivial
  · intro hbare
    obtain ⟨clean, hclean, hpending⟩ := clean_of_not_bare hnone hbare
    obtain ⟨ending, -, -, hending⟩ := exists_ending hclean hpending
    refine ⟨ending ++ resetLength, ?_⟩
    have hreset {h₁ : Head} (h₁state : h₁.state.checkState = .header) :
        ¬ (h₁.read resetLength).IsIncomplete := by
      obtain ⟨h', hread, -⟩ := read_resetLength h₁state
      rw [hread]
      exact fun h => h
    rw [Head.read_some (hending resetLength)]
    split_ifs with hrequest hcstr
    · cases hreq : h.requestLine (cstr clean) with
      | none => exact fun h => h
      | some h₁ => exact hreset (Head.requestLine_checkState hreq)
    · exact fun h => h
    · refine hreset ?_
      rw [Head.headerLine, RequestState.headerLine_checkState]
      cases hcheck : h.state.checkState with
      | requestLine => exact absurd hcheck hrequest
      | header => rfl
      | content => exact absurd hcheck hstate

end

/-- Behind a bare line end every later `process_read` returns `NO_REQUEST` as well. -/
theorem stuck_of_bare {c c' : Conn} {chunks : List Bytes} (hfeed : c.init.feed chunks = some c')
    (hbare : hasBareEol chunks.flatten = true) {more : List Bytes} {last : Bytes} {d : Conn}
    {result : Except Fault (Conn × Verdict)} (hmore : c'.feed more = some d)
    (hround : d.round last = some result) : ∃ e, result = .ok (e, .code .noRequest) := by
  obtain ⟨h, pending, hread, hr, -⟩ := Conn.feed_resumable (resumable_init c) (Head.read_none rfl) hfeed
  obtain ⟨hnone, hpending⟩ := Head.read_hasBareEol hread
  exact hr.stuck hnone (hpending.symm.trans hbare) hmore hround

theorem not_answerable_of_bare {c c' : Conn} {chunks : List Bytes} (hfeed : c.init.feed chunks = some c')
    (hbare : hasBareEol chunks.flatten = true) : ¬ Answerable c' := by
  rintro ⟨more, last, d, e, v, hmore, hround, hv⟩
  obtain ⟨e', he⟩ := stuck_of_bare hfeed hbare hmore hround
  cases he
  exact hv rfl

/-- With only `NO_REQUEST` so far, a stream can still be answered if and only if it has no bare
line end and is not bound for a body out of range. Behind a bare line end every later
`process_read` returns `NO_REQUEST` too, with a buffer of any size. -/
theorem answerable_iff (c : Conn) (chunks : List Bytes) (c' : Conn)
    (hfeed : c.init.feed chunks = some c') :
    (chunks.flatten.length + 23 < readBufferSize →
      (Answerable c' ↔ hasBareEol chunks.flatten = false ∧
        ∀ h pending, Head.initial.read chunks.flatten = .incomplete h pending →
          ¬ Doomed h pending chunks.flatten.length)) ∧
    (hasBareEol chunks.flatten = true → ∀ more last d result, c'.feed more = some d →
      d.round last = some result → ∃ e, result = .ok (e, .code .noRequest)) ∧
    ((∃ more, ¬ (Head.initial.read (chunks.flatten ++ more)).IsIncomplete) ↔
      hasBareEol chunks.flatten = false) := by
  obtain ⟨h, pending, hread, hr, hindex⟩ :=
    Conn.feed_resumable (resumable_init c) (Head.read_none rfl) hfeed
  rw [List.nil_append] at hread
  have hindex : c'.readIndex = chunks.flatten.length := hindex.trans (Nat.zero_add _)
  obtain ⟨hnone, hbare⟩ := Head.read_hasBareEol hread
  refine ⟨fun hroom => ⟨fun hanswer => ⟨?_, ?_⟩, ?_⟩, ?_, ?_⟩
  · by_contra hbare
    rw [Bool.not_eq_false] at hbare
    exact not_answerable_of_bare hfeed hbare hanswer
  · intro h' pending' heq hdoomed
    cases hread.symm.trans heq
    exact hr.not_answerable_of_doomed hnone (hindex ▸ hdoomed) hanswer
  · rintro ⟨hclean, hdoomed⟩
    exact hr.answerable hnone (hbare.symm.trans hclean) (by omega) (hindex ▸ hdoomed h pending hread)
  · intro hbare more last d result
    exact stuck_of_bare hfeed hbare
  · have hresume (more : Bytes) :
        Head.initial.read (chunks.flatten ++ more) = h.read (pending ++ more) := by
      rw [Head.read_append, hread]
      rfl
    obtain ⟨pre, clean, tail, -, hreading⟩ := hr
    simp only [hresume, hbare]
    exact Head.read_continues_iff hnone hreading.notContent

/-- The first chunks of a request line. -/
theorem request_line_answerable : ∃ c', (Conn.accepted ⟨5, []⟩).init.feed [ascii "GE", ascii "T /"] =
    some c' ∧ Answerable c' := by
  have hsome : ((Conn.accepted ⟨5, []⟩).init.feed [ascii "GE", ascii "T /"]).isSome = true := by decide
  obtain ⟨c', hfeed⟩ := Option.isSome_iff_exists.mp hsome
  refine ⟨c', hfeed, ((answerable_iff _ _ c' hfeed).1 (by decide)).mpr ⟨by decide, ?_⟩⟩
  intro h pending hread hdoomed
  have hnone : nextLine [ascii "GE", ascii "T /"].flatten = none := by decide
  rw [Head.read_none hnone] at hread
  cases hread
  cases hdoomed.header

/-- A CR inside a request line. -/
theorem bare_cr_stuck : ∃ c', (Conn.accepted ⟨5, []⟩).init.feed [ascii "GET /\rx"] = some c' ∧
    ¬ Answerable c' := by
  have hsome : ((Conn.accepted ⟨5, []⟩).init.feed [ascii "GET /\rx"]).isSome = true := by decide
  obtain ⟨c', hfeed⟩ := Option.isSome_iff_exists.mp hsome
  exact ⟨c', hfeed, not_answerable_of_bare hfeed (by decide)⟩

end Http
end ResourceServer

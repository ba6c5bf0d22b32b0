import ResourceServer.Http.Connection

/-!
# Receiving

`read()` stores what the socket delivers as long as a cell of the buffer stays free. Behind
the last cell the next `recv` has length zero, and what it reports decides: a zero is taken for
the end of the stream, `EAGAIN` ends the loop as usual.
-/

namespace ResourceServer
namespace Http

/-- The bytes delivered before a `recv` that returns zero. -/
def Arrival.bytes (a : Arrival) : Bytes := (a.chunks.takeWhile (· ≠ [])).flatten

/-- Every `recv` delivers bytes until one reports `EAGAIN`. -/
def Arrival.Delivers (a : Arrival) : Prop := [] ∉ a.chunks ∧ a.last = .again

namespace Conn

variable {c c' : Conn} {a : Arrival} {last full : RecvEnd}

theorem receive_nil (c : Conn) : c.receive [] = c := by
  rw [receive, List.append_nil]

theorem receive_receive (c : Conn) (bs bs' : Bytes) :
    (c.receive bs).receive bs' = c.receive (bs ++ bs') := by
  simp only [receive, List.append_assoc]

@[simp] theorem readIndex_receive (c : Conn) (bs : Bytes) :
    (c.receive bs).readIndex = c.readIndex + bs.length := List.length_append

theorem readLoop_fits {chunk : Bytes} (hchunk : chunk ≠ [])
    (hfits : c.readIndex + chunk.length ≤ readBufferSize) (chunks : List Bytes) :
    c.readLoop last full (chunk :: chunks) = (c.receive chunk).readLoop last full chunks := by
  have hall : chunk.take (readBufferSize - c.readIndex) = chunk :=
    List.take_of_length_le (by omega)
  rw [readLoop, hall, if_neg hchunk, if_neg (lt_irrefl _)]

theorem readLoop_exceeds {chunk : Bytes} (hsize : c.readIndex ≤ readBufferSize)
    (hexceeds : readBufferSize < c.readIndex + chunk.length) (chunks : List Bytes) :
    c.readLoop last full (chunk :: chunks) =
      (c.receive (chunk.take (readBufferSize - c.readIndex)), false) := by
  rw [readLoop]
  split_ifs with hnil hshort
  · rw [hnil, receive_nil]
  · rfl
  · rw [List.length_take] at hshort
    omega

theorem bytes_cons {chunk : Bytes} (hchunk : chunk ≠ []) (chunks : List Bytes) :
    Arrival.bytes ⟨chunk :: chunks, last, full⟩ = chunk ++ Arrival.bytes ⟨chunks, last, full⟩ := by
  simp [Arrival.bytes, hchunk]

theorem bytes_of_delivers (h : a.Delivers) : a.bytes = a.chunks.flatten := by
  have hall : a.chunks.takeWhile (· ≠ []) = a.chunks := by
    rw [List.takeWhile_eq_self_iff]
    intro chunk hchunk
    rw [decide_eq_true_eq]
    rintro rfl
    exact h.1 hchunk
  rw [Arrival.bytes, hall]

theorem readLoop_fst (chunks : List Bytes) (c : Conn) (hsize : c.readIndex ≤ readBufferSize) :
    (c.readLoop last full chunks).1 =
      c.receive ((Arrival.bytes ⟨chunks, last, full⟩).take (readBufferSize - c.readIndex)) := by
  induction chunks generalizing c with
  | nil =>
    have hbytes : Arrival.bytes ⟨[], last, full⟩ = [] := rfl
    rw [readLoop, hbytes, List.take_nil, receive_nil]
    split_ifs <;> rfl
  | cons chunk chunks ih =>
    by_cases hchunk : chunk = []
    · simp [readLoop, hchunk, Arrival.bytes, receive_nil]
    · rw [bytes_cons hchunk]
      by_cases hfits : c.readIndex + chunk.length ≤ readBufferSize
      · have hrest : readBufferSize - (c.readIndex + chunk.length) =
            readBufferSize - c.readIndex - chunk.length := by omega
        have hall : chunk.take (readBufferSize - c.readIndex) = chunk :=
          List.take_of_length_le (by omega)
        rw [readLoop_fits hchunk hfits, ih _ (by rwa [readIndex_receive]), receive_receive,
          readIndex_receive, hrest, List.take_append, hall]
      · rw [readLoop_exceeds hsize (by omega), List.take_append_of_le_length (by omega)]

/-- It succeeds on `EAGAIN`, for a `recv` of length zero if the bytes fill the buffer. -/
theorem readLoop_snd_iff (chunks : List Bytes) (c : Conn) (hsize : c.readIndex ≤ readBufferSize) :
    (c.readLoop last full chunks).2 = true ↔
      [] ∉ chunks ∧ c.readIndex + chunks.flatten.length ≤ readBufferSize ∧
        (if c.readIndex + chunks.flatten.length = readBufferSize then full else last) = .again := by
  induction chunks generalizing c with
  | nil =>
    rw [readLoop, List.flatten_nil, List.length_nil, Nat.add_zero]
    split_ifs <;> simp [hsize]
  | cons chunk chunks ih =>
    rw [List.flatten_cons, List.length_append]
    by_cases hchunk : chunk = []
    · simp [readLoop, hchunk]
    · by_cases hfits : c.readIndex + chunk.length ≤ readBufferSize
      · rw [readLoop_fits hchunk hfits, ih _ (by rwa [readIndex_receive]), readIndex_receive,
          Nat.add_assoc, List.mem_cons, not_or]
        exact and_congr_left fun _ => (and_iff_right (Ne.symm hchunk)).symm
      · rw [readLoop_exceeds hsize (by omega)]
        exact iff_of_false Bool.false_ne_true fun h => by omega

theorem readLoop_spec (c : Conn) (a : Arrival) (hsize : c.readIndex ≤ readBufferSize) :
    ∃ got, (c.readLoop a.last a.full a.chunks).1 = c.receive got ∧
      c.readIndex + got.length ≤ readBufferSize := by
  refine ⟨_, readLoop_fst a.chunks c hsize, ?_⟩
  rw [List.length_take]
  omega

theorem read_spec (hread : c.read a = (c', true)) :
    ∃ got, c' = c.receive got ∧ c.readIndex + got.length ≤ readBufferSize := by
  unfold read at hread
  split_ifs at hread with hfull
  · simp at hread
  · obtain ⟨got, hgot, hle⟩ := c.readLoop_spec a (by omega)
    rw [hread] at hgot
    exact ⟨got, hgot, hle⟩

/-- What is delivered and fits is stored, and nothing else counts as a failure than the end of
the stream, an error, or a buffer that was full before. -/
structure ReadsFaithfully (c : Conn) (a : Arrival) : Prop where
  stored : c.readIndex < readBufferSize → a.Delivers →
    c.readIndex + a.bytes.length ≤ readBufferSize → c.read a = (c.receive a.bytes, true)
  failed : (c.read a).2 = false →
    readBufferSize ≤ c.readIndex ∨ [] ∈ a.chunks ∨ a.last = .shutdown ∨ a.last = .error

theorem read_snd_iff : (c.read a).2 = true ↔ c.readIndex < readBufferSize ∧ [] ∉ a.chunks ∧
    c.readIndex + a.chunks.flatten.length ≤ readBufferSize ∧
      (if c.readIndex + a.chunks.flatten.length = readBufferSize then a.full else a.last) = .again := by
  by_cases hfull : readBufferSize ≤ c.readIndex
  · rw [read, if_pos hfull]
    exact iff_of_false nofun fun h => h.1.not_ge hfull
  · rw [read, if_neg hfull, readLoop_snd_iff a.chunks c (by omega)]
    exact (and_iff_right (not_le.mp hfull)).symm

/-- Bytes that leave a cell of the buffer free are stored, and so are bytes that do not, with
`EAGAIN` for the `recv` behind them. -/
theorem read_of_room (ha : a.Delivers) (hroom : c.readIndex < readBufferSize)
    (hle : c.readIndex + a.bytes.length ≤ readBufferSize)
    (hfull : c.readIndex + a.bytes.length = readBufferSize → a.full = .again) :
    c.read a = (c.receive a.bytes, true) := by
  have hall : a.bytes.take (readBufferSize - c.readIndex) = a.bytes :=
    List.take_of_length_le (by omega)
  have hstored : (c.read a).1 = c.receive a.bytes := by
    rw [read, if_neg (by omega), readLoop_fst a.chunks c (by omega)]
    exact congrArg c.receive hall
  rw [bytes_of_delivers ha] at hle hfull
  refine Prod.ext hstored (read_snd_iff.mpr ⟨hroom, ha.1, hle, ?_⟩)
  split_ifs with heq
  · exact hfull heq
  · exact ha.2

/-- **Reading.** `read()` is faithful exactly if the delivered bytes do not reach the last cell
of the buffer, or end there with `EAGAIN` for the `recv` behind that cell. -/
theorem reads_faithfully_iff (c : Conn) (a : Arrival) : c.ReadsFaithfully a ↔
    (c.readIndex < readBufferSize → a.Delivers → c.readIndex + a.bytes.length < readBufferSize ∨
      c.readIndex + a.bytes.length = readBufferSize ∧ a.full = .again) := by
  constructor
  · intro h hroom ha
    by_contra hfilled
    have hread : (c.read a).2 = false := by
      rw [bytes_of_delivers ha] at hfilled
      rw [Bool.eq_false_iff, Ne, read_snd_iff]
      rintro ⟨-, -, hle, hend⟩
      split_ifs at hend with heq
      · exact hfilled (Or.inr ⟨heq, hend⟩)
      · exact hfilled (Or.inl (Nat.lt_of_le_of_ne hle heq))
    rcases h.failed hread with hfull | hzero | hlast | hlast
    · omega
    · exact ha.1 hzero
    · exact absurd (ha.2.symm.trans hlast) (by decide)
    · exact absurd (ha.2.symm.trans hlast) (by decide)
  · intro hroom
    refine ⟨fun hlt ha hle => read_of_room ha hlt hle fun heq => ?_, fun hread => ?_⟩
    · rcases hroom hlt ha with hshort | ⟨-, hfull⟩
      · exact absurd heq hshort.ne
      · exact hfull
    by_contra hother
    rw [not_or, not_or, not_or, not_le] at hother
    obtain ⟨hlt, hzero, hshutdown, herror⟩ := hother
    have ha : a.Delivers := by
      refine ⟨hzero, ?_⟩
      cases hlast : a.last with
      | again => rfl
      | shutdown => exact absurd hlast hshutdown
      | error => exact absurd hlast herror
    have hstored : c.read a = (c.receive a.bytes, true) := by
      rcases hroom hlt ha with hshort | ⟨heq, hfull⟩
      · exact read_of_room ha hlt hshort.le fun heq => absurd heq hshort.ne
      · exact read_of_room ha hlt heq.le fun _ => hfull
    rw [hstored] at hread
    cases hread

theorem delivers_singleton {chunk : Bytes} (hchunk : chunk ≠ []) (full : RecvEnd) :
    Arrival.Delivers ⟨[chunk], .again, full⟩ := by
  refine ⟨?_, rfl⟩
  rw [List.mem_singleton]
  exact hchunk.symm

/-- A chunk that fills the buffer, with a zero for the `recv` behind it. -/
theorem filled_unfaithful {chunk : Bytes} (hroom : c.readIndex < readBufferSize)
    (hfilled : c.readIndex + chunk.length = readBufferSize) :
    ¬ c.ReadsFaithfully ⟨[chunk], .again, .shutdown⟩ := by
  have hchunk : chunk ≠ [] := by
    rintro rfl
    exact hroom.ne hfilled
  have ha := delivers_singleton hchunk .shutdown
  have hbytes : Arrival.bytes ⟨[chunk], .again, .shutdown⟩ = chunk := by
    rw [bytes_of_delivers ha, List.flatten_singleton]
  intro h
  have hread := h.stored hroom ha (by rw [hbytes, hfilled])
  have hfull := (read_snd_iff.mp (congrArg Prod.snd hread)).2.2.2
  rw [List.flatten_singleton, if_pos hfilled] at hfull
  cases hfull

/-- A request of just the size of the buffer is taken for the end of the stream where a `recv`
of length zero returns zero. -/
theorem full_buffer_unfaithful :
    ¬ (accepted ⟨5, []⟩).ReadsFaithfully ⟨[List.replicate readBufferSize 65], .again, .shutdown⟩ := by
  apply filled_unfaithful
  · decide
  · rw [List.length_replicate]
    exact Nat.zero_add _

end Conn
end Http
end ResourceServer

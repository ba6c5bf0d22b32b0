import Mathlib.Data.List.Infix
import Mathlib.Data.Nat.Notation

/-!
# Self-delimiting encodings

Values written one behind another, and a decoder that takes one value off the front of what
has arrived so far. Where reading on never changes what has been read, any part of a stream
decodes to the values that are in it whole.
-/

namespace ResourceServer

/-- Takes one value off the front, with what follows it; `none` while more has to arrive. -/
abbrev Decoder (α β : Type) := List β → Option (α × List β)

namespace Decoder

variable {α β : Type} {decode : Decoder α β} {encode : α → List β} {P : α → Prop}

/-- The decoder reads back the values that satisfy `P`, and decides once and for all. -/
structure Inverts (decode : Decoder α β) (encode : α → List β) (P : α → Prop) : Prop where
  encoded : ∀ a, P a → ∀ rest, decode (encode a ++ rest) = some (a, rest)
  append : ∀ {s a rest}, decode s = some (a, rest) → ∀ more, decode (s ++ more) = some (a, rest ++ more)
  shorter : ∀ {s a rest}, decode s = some (a, rest) → rest.length < s.length

/-- The values at the front of `s`, at most `fuel` of them, and what is left. -/
def take (decode : Decoder α β) : ℕ → List β → List α × List β
  | 0, s => ([], s)
  | fuel + 1, s =>
    match decode s with
    | none => ([], s)
    | some (a, rest) => (a :: (take decode fuel rest).1, (take decode fuel rest).2)

/-- All the values at the front of `s`. -/
def all (decode : Decoder α β) (s : List β) : List α × List β := take decode s.length s

theorem take_of_none {s : List β} (hread : decode s = none) (fuel : ℕ) : take decode fuel s = ([], s) := by
  cases fuel with
  | zero => rfl
  | succ fuel => rw [take, hread]

theorem take_of_some {s rest tail : List β} {a : α} {as : List α} {fuel : ℕ}
    (hread : decode s = some (a, rest)) (hrest : take decode fuel rest = (as, tail)) :
    take decode (fuel + 1) s = (a :: as, tail) := by
  rw [take, hread]
  dsimp only
  rw [hrest]

/-- What has arrived of a stream has its first value whole, or only a part of it. -/
theorem arrived_cases {a : α} {s more : List β} (hs : s <+: encode a ++ more) :
    (∃ s', s = encode a ++ s' ∧ s' <+: more) ∨ s <+: encode a ∧ s ≠ encode a := by
  rcases List.prefix_or_prefix_of_prefix hs (List.prefix_append (encode a) more) with hpart | ⟨s', rfl⟩
  · by_cases hwhole : s = encode a
    · exact Or.inl ⟨[], by rw [hwhole, List.append_nil], List.nil_prefix⟩
    · exact Or.inr ⟨hpart, hwhole⟩
  · exact Or.inl ⟨s', rfl, (List.prefix_append_right_inj _).mp hs⟩

/-- The values that have arrived whole are among those read. -/
theorem length_le_of_whole {as done todo whole : List α} {s tail : List β} (has : as = done ++ todo)
    (hs : s = done.flatMap encode ++ tail)
    (hnext : ∀ a, todo.head? = some a → tail <+: encode a ∧ tail ≠ encode a)
    (hwhole : whole <+: as) (harrived : whole.flatMap encode <+: s) : whole.length ≤ done.length := by
  by_contra hlt
  rw [has] at hwhole
  obtain ⟨more, rfl⟩ : done <+: whole :=
    List.prefix_of_prefix_length_le (List.prefix_append done todo) hwhole (by omega)
  cases more with
  | nil => simp at hlt
  | cons a more =>
    obtain ⟨after, hafter⟩ := (List.prefix_append_right_inj done).mp hwhole
    obtain ⟨hpart, hne⟩ := hnext a (by rw [← hafter]; rfl)
    apply hne
    apply hpart.eq_of_length_le
    have hle := harrived.length_le
    rw [hs] at hle
    simp only [List.flatMap_append, List.flatMap_cons, List.length_append] at hle
    omega

namespace Inverts

variable (h : Inverts decode encode P)

include h

theorem decode_nil : decode [] = none := by
  cases hd : decode [] with
  | none => rfl
  | some p =>
    have hlt := h.shorter hd
    exact absurd hlt (Nat.not_lt_zero _)

/-- A value that has not arrived whole is not read. -/
theorem decode_part {a : α} {s : List β} (ha : P a) (hs : s <+: encode a) (hne : s ≠ encode a) :
    decode s = none := by
  cases hd : decode s with
  | none => rfl
  | some p =>
    obtain ⟨a', rest⟩ := p
    obtain ⟨more, hmore⟩ := hs
    have hwhole := h.encoded a ha []
    rw [List.append_nil, ← hmore, h.append hd more, Option.some.injEq, Prod.mk.injEq] at hwhole
    obtain ⟨-, hmore'⟩ := List.append_eq_nil_iff.mp hwhole.2
    rw [hmore', List.append_nil] at hmore
    exact absurd hmore hne

theorem encode_ne_nil {a : α} (ha : P a) : encode a ≠ [] := by
  intro hnil
  have hwhole := h.encoded a ha []
  rw [hnil, List.nil_append, h.decode_nil] at hwhole
  cases hwhole

/-- **Decoding a stream.** What has arrived of a stream decodes to the values that are there
whole; what is left is the beginning of the next one. -/
theorem take_stream (as : List α) (has : ∀ a ∈ as, P a) {s : List β} (hs : s <+: as.flatMap encode)
    {fuel : ℕ} (hfuel : s.length ≤ fuel) :
    ∃ done todo tail, as = done ++ todo ∧ s = done.flatMap encode ++ tail ∧
      take decode fuel s = (done, tail) ∧
      (todo = [] → tail = []) ∧ ∀ a, todo.head? = some a → tail <+: encode a ∧ tail ≠ encode a := by
  induction as generalizing s fuel with
  | nil =>
    obtain rfl := List.prefix_nil.mp hs
    exact ⟨[], [], [], rfl, rfl, take_of_none h.decode_nil fuel, fun _ => rfl, nofun⟩
  | cons a as ih =>
    have ha : P a := has a List.mem_cons_self
    rw [List.flatMap_cons] at hs
    rcases arrived_cases hs with ⟨s', rfl, hs'⟩ | ⟨hpart, hne⟩
    · have hpos := List.length_pos_iff.mpr (h.encode_ne_nil ha)
      rw [List.length_append] at hfuel
      obtain ⟨fuel, rfl⟩ : ∃ n, fuel = n + 1 := Nat.exists_eq_add_one.mpr (by omega)
      have hfuel' : s'.length ≤ fuel := by omega
      obtain ⟨done, todo, tail, rfl, rfl, htake, hlast, hnext⟩ :=
        ih (fun b hb => has b (List.mem_cons_of_mem a hb)) hs' hfuel'
      refine ⟨a :: done, todo, tail, rfl, ?_, take_of_some (h.encoded a ha _) htake, hlast, hnext⟩
      rw [List.flatMap_cons, List.append_assoc]
    · refine ⟨[], a :: as, s, rfl, rfl, take_of_none (h.decode_part ha hpart hne) fuel, nofun, ?_⟩
      intro b hb
      cases hb
      exact ⟨hpart, hne⟩

end Inverts
end Decoder
end ResourceServer

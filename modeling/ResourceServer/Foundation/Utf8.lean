import ResourceServer.Foundation.CString

/-!
# Unicode text

The byte strings that are the UTF-8 form of some text. A NUL byte is the whole of a character
there, so cutting a text at its first NUL leaves a text.
-/

namespace ResourceServer

open CString

def utf8 (chars : List Char) : Bytes := chars.flatMap String.utf8EncodeChar

def IsText (s : Bytes) : Prop := ∃ chars, s = utf8 chars

theorem nul_notMem_encodeChar {c : Char} (hc : c.val ≠ 0) : nul ∉ String.utf8EncodeChar c := by
  have hpos : c.val.toNat ≠ 0 := fun h => hc (UInt32.toNat_inj.mp h)
  have hbyte {n : ℕ} (hn : n % 256 ≠ 0) : nul ≠ UInt8.ofNat n := by
    intro h
    have hzero := congrArg UInt8.toNat h
    rw [UInt8.toNat_ofNat'] at hzero
    exact hn hzero.symm
  intro h
  unfold String.utf8EncodeChar at h
  dsimp only at h
  split_ifs at h
  all_goals simp only [List.mem_cons, List.not_mem_nil, or_false] at h
  · exact hbyte (by omega) h
  · rcases h with h | h
    all_goals exact hbyte (by omega) h
  · rcases h with h | h | h
    all_goals exact hbyte (by omega) h
  · rcases h with h | h | h | h
    all_goals exact hbyte (by omega) h

theorem IsText.cstr {s : Bytes} (h : IsText s) : IsText (cstr s) := by
  obtain ⟨chars, rfl⟩ := h
  induction chars with
  | nil => exact ⟨[], rfl⟩
  | cons c chars ih =>
    by_cases hc : c.val = 0
    · refine ⟨[], ?_⟩
      have hnul : String.utf8EncodeChar c = [nul] := by
        have hzero : c = Char.ofNat 0 := Char.ext hc
        rw [hzero]
        decide
      rw [utf8, List.flatMap_cons, hnul]
      rfl
    · obtain ⟨chars', hchars⟩ := ih
      refine ⟨c :: chars', ?_⟩
      rw [utf8, List.flatMap_cons, cstr_append_of_notMem (nul_notMem_encodeChar hc)]
      exact congrArg (String.utf8EncodeChar c ++ ·) hchars

end ResourceServer

import Highlight.Token
import Mathlib.Tactic.Common

/-! # Tokens are slices

The tokens of a text are slices of it, one behind the other. Both facts hold of every state of the
scan: the pending run ends where the rest of the text begins.
-/

namespace Highlight

namespace Token

theorem mem_close {pending : List Char} {offset : Nat} {t : Token}
    (h : t ∈ close pending offset) : t = ⟨offset - pending.length, offset, pending.reverse⟩ := by
  rw [close] at h
  split at h
  · cases h
  · exact List.mem_singleton.mp h

theorem scan_start {isSeparator : Char → Bool} {offset : Nat} {pending text : List Char}
    {t : Token} (h : t ∈ scan isSeparator offset pending text) :
    offset - pending.length ≤ t.start := by
  induction text generalizing offset pending with
  | nil => exact Nat.le_of_eq (congrArg Token.start (mem_close h)).symm
  | cons c text ih =>
      rw [scan] at h
      split at h
      · rcases List.mem_append.mp h with first | rest
        · exact Nat.le_of_eq (congrArg Token.start (mem_close first)).symm
        · have := ih rest
          simp only [List.length_nil] at this
          omega
      · split at h
        · rcases List.mem_append.mp h with first | rest
          · exact Nat.le_of_eq (congrArg Token.start (mem_close first)).symm
          · rcases List.mem_cons.mp rest with rfl | rest
            · exact Nat.sub_le _ _
            · have := ih rest
              simp only [List.length_nil] at this
              omega
        · have := ih h
          simp only [List.length_cons] at this
          omega

theorem scan_ordered (isSeparator : Char → Bool) (offset : Nat) (pending text : List Char) :
    (scan isSeparator offset pending text).Pairwise fun a b => a.stop ≤ b.start := by
  have closed (offset : Nat) (pending : List Char) :
      (close pending offset).Pairwise fun a b => a.stop ≤ b.start := by
    rw [close]
    split
    · exact .nil
    · exact List.pairwise_singleton _ _
  induction text generalizing offset pending with
  | nil => exact closed offset pending
  | cons c text ih =>
      have later {t : Token} (h : t ∈ scan isSeparator (offset + 1) [] text) :
          offset + 1 ≤ t.start := scan_start h
      rw [scan]
      split
      · refine List.pairwise_append.mpr ⟨closed _ _, ih _ _, ?_⟩
        intro a ha b hb
        rw [mem_close ha]
        exact Nat.le_of_succ_le (later hb)
      · split
        · refine List.pairwise_append.mpr ⟨closed _ _, List.pairwise_cons.mpr ⟨?_, ih _ _⟩, ?_⟩
          · intro b hb
            exact later hb
          · intro a ha b hb
            rw [mem_close ha]
            rcases List.mem_cons.mp hb with rfl | hb
            · exact Nat.le_refl _
            · exact Nat.le_of_succ_le (later hb)
        · exact ih _ _

theorem close_slice {before pending rest : List Char} {t : Token}
    (h : t ∈ close pending (before.length + pending.length)) :
    ((before ++ pending.reverse ++ rest).take t.stop).drop t.start = t.text := by
  rw [mem_close h]
  have stop : before.length + pending.length = (before ++ pending.reverse).length := by simp
  simp only [Nat.add_sub_cancel]
  rw [stop, List.take_left, List.drop_left]

theorem scan_slice {isSeparator : Char → Bool} (before pending text : List Char) {t : Token}
    (h : t ∈ scan isSeparator (before.length + pending.length) pending text) :
    ((before ++ pending.reverse ++ text).take t.stop).drop t.start = t.text := by
  induction text generalizing before pending with
  | nil => exact close_slice h
  | cons c text ih =>
      -- Behind a blank or a separator the scan starts over, with all it has read before it.
      have restart (rest : t ∈ scan isSeparator (before.length + pending.length + 1) [] text) :
          ((before ++ pending.reverse ++ c :: text).take t.stop).drop t.start = t.text := by
        have := ih (before ++ pending.reverse ++ [c]) [] (by simpa [Nat.add_assoc] using rest)
        simpa using this
      rw [scan] at h
      split at h
      · rcases List.mem_append.mp h with first | rest
        · exact close_slice first
        · exact restart rest
      · split at h
        · rcases List.mem_append.mp h with first | rest
          · exact close_slice first
          · rcases List.mem_cons.mp rest with rfl | rest
            · have start : before.length + pending.length = (before ++ pending.reverse).length := by
                simp
              have stop : before.length + pending.length + 1 =
                  (before ++ pending.reverse ++ [c]).length := by simp [Nat.add_assoc]
              simp only
              rw [List.append_cons, stop, List.take_left, start, List.drop_left]
            · exact restart rest
        · have := ih before (c :: pending) h
          simpa using this

end Token

theorem tokenize_ordered (isSeparator : Char → Bool) (text : List Char) :
    (tokenize isSeparator text).Pairwise fun a b => a.stop ≤ b.start :=
  Token.scan_ordered isSeparator 0 [] text

theorem tokenize_slice {isSeparator : Char → Bool} {text : List Char} {t : Token}
    (h : t ∈ tokenize isSeparator text) : (text.take t.stop).drop t.start = t.text := by
  simpa using Token.scan_slice [] [] text h

end Highlight

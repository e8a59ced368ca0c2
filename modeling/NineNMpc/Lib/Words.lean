-- SUMMARY: The words of a text: its pieces between separators, without the empty ones; and what is behind its last separator.
import Mathlib.Data.List.DropRight

/-! # Words -/

namespace List

variable {α : Type} [DecidableEq α] {sep : α} {l l' w : List α}

def words (sep : α) (l : List α) : List (List α) := (l.splitOn sep).filter (· ≠ [])

@[simp] theorem words_nil : words sep ([] : List α) = [] := by simp [words]

theorem words_append_cons : words sep (l ++ sep :: l') = words sep l ++ words sep l' := by
  rw [words, splitOn_append_cons_self, filter_append]
  rfl

/-- A text without the separator is one word. -/
theorem words_of_notMem (h : sep ∉ l) (hne : l ≠ []) : words sep l = [l] := by
  simp [words, splitOn_eq_singleton h, hne]

theorem notMem_of_mem_splitOn (h : w ∈ l.splitOn sep) : sep ∉ w := by
  induction l generalizing w with
  | nil => simp_all
  | cons a l ih =>
    rw [splitOn_cons_eq_if_modifyHead] at h
    split at h
    · rcases mem_cons.mp h with rfl | h
      · exact not_mem_nil
      · exact ih h
    · next hne =>
      obtain ⟨v, ws, hws⟩ := exists_cons_of_ne_nil (splitOn_ne_nil sep l)
      rw [hws] at ih h
      rcases mem_cons.mp h with rfl | h
      · rw [mem_cons, not_or]
        exact ⟨fun heq => hne (by simp [heq]), ih (by simp)⟩
      · exact ih (by simp [h])

theorem subset_of_mem_splitOn (h : w ∈ l.splitOn sep) : w ⊆ l := by
  induction l generalizing w with
  | nil => simp_all
  | cons a l ih =>
    rw [splitOn_cons_eq_if_modifyHead] at h
    split at h
    · rcases mem_cons.mp h with rfl | h
      · exact nil_subset _
      · exact subset_cons_of_subset a (ih h)
    · obtain ⟨v, ws, hws⟩ := exists_cons_of_ne_nil (splitOn_ne_nil sep l)
      rw [hws] at ih h
      rcases mem_cons.mp h with rfl | h
      · exact cons_subset_cons a (ih mem_cons_self)
      · exact subset_cons_of_subset a (ih (mem_cons_of_mem v h))

theorem notMem_of_mem_words (h : w ∈ words sep l) : sep ∉ w :=
  notMem_of_mem_splitOn (mem_filter.mp h).1

theorem ne_nil_of_mem_words (h : w ∈ words sep l) : w ≠ [] := by
  simpa using (mem_filter.mp h).2

theorem subset_of_mem_words (h : w ∈ words sep l) : w ⊆ l :=
  subset_of_mem_splitOn (mem_filter.mp h).1

/-! ## Behind the last separator -/

omit [DecidableEq α] in
theorem rtakeWhile_append_of_pos {p : α → Bool} (h : ∀ a ∈ w, p a) :
    (l ++ w).rtakeWhile p = l.rtakeWhile p ++ w := by
  rw [rtakeWhile, reverse_append, takeWhile_append_of_pos (by simpa using h), reverse_append,
    reverse_reverse, rtakeWhile]

omit [DecidableEq α] in
theorem suffix_rtakeWhile_iff {p : α → Bool} (h : ∀ a ∈ w, p a) :
    w <:+ l.rtakeWhile p ↔ w <:+ l := by
  constructor
  · exact fun hsuf => hsuf.trans (rtakeWhile_suffix _ _)
  · rintro ⟨l', rfl⟩
    rw [rtakeWhile_append_of_pos h]
    exact suffix_append _ _

theorem rtakeWhile_append_cons (h : sep ∉ w) : (l ++ sep :: w).rtakeWhile (· ≠ sep) = w := by
  have hw : ∀ a ∈ w, decide (a ≠ sep) = true := fun a ha => decide_eq_true fun heq => h (heq ▸ ha)
  rw [append_cons, rtakeWhile_append_of_pos hw, rtakeWhile_concat_neg _ _ _ (by simp), nil_append]

/-- A text ends in a separator and a piece without one exactly when that piece is behind its last
    separator. -/
theorem cons_suffix_iff (h : sep ∉ w) : sep :: w <:+ l ↔ sep ∈ l ∧ l.rtakeWhile (· ≠ sep) = w := by
  constructor
  · rintro ⟨l', rfl⟩
    exact ⟨by simp, rtakeWhile_append_cons h⟩
  · rintro ⟨hmem, rfl⟩
    obtain ⟨before, after, hsplit, hnot⟩ := eq_append_cons_of_mem (mem_reverse.mpr hmem)
    obtain rfl : l = after.reverse ++ sep :: before.reverse := by
      have hrev := congrArg reverse hsplit
      simpa using hrev
    rw [rtakeWhile_append_cons (by simpa using hnot)]
    exact suffix_append _ _

end List

import Mathlib.Data.List.Basic
/-!
# Words

A list is cut at its separators. Those in a row count as one, and those at the ends
do not count.
-/
namespace Lib.Words

variable {α : Type}

/-- The pieces between the separators that have elements. -/
def words (sep : α → Bool) (l : List α) : List (List α) := (l.splitOnP sep).filter fun w => !w.isEmpty

/-- Elements that are cut nowhere. -/
structure Word (sep : α → Bool) where
  text : List α
  ne_nil : text ≠ []
  free : ∀ a ∈ text, sep a = false

theorem forall_of_all {p : α → Bool} {b : Bool} {l : List α} (h : (l.all fun a => p a == b) = true) :
    ∀ a ∈ l, p a = b := by
  simpa using h

/-- Separators in a row. -/
structure Gap (sep : α → Bool) where
  text : List α
  ne_nil : text ≠ []
  all : ∀ a ∈ text, sep a = true

variable {sep : α → Bool}

section
variable [DecidableEq α] {a : α} {l : List α}

/-- What is before the first of a separator, and the rest. -/
theorem takeWhile_ne_append (h : a ∉ l) (r : List α) : (l ++ a :: r).takeWhile (· ≠ a) = l := by
  have hall : ∀ b ∈ l, decide (b ≠ a) = true := fun b hb => decide_eq_true (ne_of_mem_of_not_mem hb h)
  rw [List.takeWhile_append_of_pos hall]
  simp

theorem dropWhile_ne_append (h : a ∉ l) (r : List α) : (l ++ a :: r).dropWhile (· ≠ a) = a :: r := by
  have hall : ∀ b ∈ l, decide (b ≠ a) = true := fun b hb => decide_eq_true (ne_of_mem_of_not_mem hb h)
  rw [List.dropWhile_append_of_pos hall]
  simp

end

/-- Nothing is taken beyond an element that stops it. -/
theorem takeWhile_append_stop {p : α → Bool} {a : α} (h : p a = false) (l r : List α) :
    (l ++ a :: r).takeWhile p = l.takeWhile p := by
  induction l with
  | nil => simp [h]
  | cons b l ih => by_cases hb : p b = true <;> simp [hb, ih]

theorem dropWhile_append_stop {p : α → Bool} {a : α} (h : p a = false) (l r : List α) :
    (l ++ a :: r).dropWhile p = l.dropWhile p ++ a :: r := by
  induction l with
  | nil => simp [h]
  | cons b l ih => by_cases hb : p b = true <;> simp [hb, ih]

/-- Words, a gap before each; the gaps are numbered from `n`. -/
def joined (gaps : Nat → Gap sep) : Nat → List (Word sep) → List α
  | _, [] => []
  | n, w :: ws => (gaps n).text ++ (w.text ++ joined gaps (n + 1) ws)

theorem words_cons_sep {a : α} (h : sep a = true) (l : List α) : words sep (a :: l) = words sep l := by
  simp [words, List.splitOnP_cons_eq_if_modifyHead, h]

theorem words_gap_append {gap : List α} (h : ∀ a ∈ gap, sep a = true) (l : List α) :
    words sep (gap ++ l) = words sep l := by
  induction gap with
  | nil => rfl
  | cons a gap ih =>
    simp only [List.mem_cons, forall_eq_or_imp] at h
    rw [List.cons_append, words_cons_sep h.1, ih h.2]

theorem words_word (w : Word sep) : words sep w.text = [w.text] := by
  unfold words
  simp [List.splitOnP_eq_singleton w.free, w.ne_nil]

theorem words_word_append (w : Word sep) {a : α} (h : sep a = true) (l : List α) :
    words sep (w.text ++ a :: l) = w.text :: words sep l := by
  unfold words
  simp [List.splitOnP_append_cons_of_forall_mem w.free a h l, w.ne_nil]

/-- A word, then gaps with words after them. -/
theorem words_append_joined (gaps : Nat → Gap sep) (n : Nat) (w : Word sep) (ws : List (Word sep)) :
    words sep (w.text ++ joined gaps n ws) = w.text :: ws.map Word.text := by
  induction ws generalizing n w with
  | nil => rw [joined, List.append_nil, words_word, List.map_nil]
  | cons v vs ih =>
    -- `w` ends where the gap starts
    obtain ⟨a, gap, hgap⟩ := List.exists_cons_of_ne_nil (gaps n).ne_nil
    have hall := (gaps n).all
    rw [hgap] at hall
    simp only [List.mem_cons, forall_eq_or_imp] at hall
    rw [joined, hgap, List.cons_append, words_word_append w hall.1, words_gap_append hall.2, ih, List.map_cons]

/-! ## Pieces between separators -/

section
variable {β : Type} [BEq β] [LawfulBEq β]

/-- There is no separator in a piece, and nothing that was not in the text. -/
theorem mem_splitOn {sep : β} {text piece : List β} (h : piece ∈ text.splitOn sep) :
    sep ∉ piece ∧ ∀ c ∈ piece, c ∈ text := by
  induction text generalizing piece with
  | nil =>
    rw [List.splitOn_nil, List.mem_singleton] at h
    simp [h]
  | cons c text ih =>
    obtain ⟨l, ls, hl⟩ := List.exists_cons_of_ne_nil (List.splitOn_ne_nil sep text)
    rw [List.splitOn_cons_eq_if_modifyHead, hl] at h
    rw [hl] at ih
    split at h
    · rcases List.mem_cons.1 h with rfl | h
      · simp
      · obtain ⟨hn, hm⟩ := ih h
        exact ⟨hn, fun a ha => List.mem_cons_of_mem _ (hm a ha)⟩
    · next hc =>
      rcases List.mem_cons.1 h with rfl | h
      · obtain ⟨hn, hm⟩ := ih List.mem_cons_self
        refine ⟨?_, fun a ha => ?_⟩
        · rw [List.mem_cons, not_or]
          exact ⟨fun he => hc (beq_iff_eq.2 he.symm), hn⟩
        · rcases List.mem_cons.1 ha with rfl | ha
          · exact List.mem_cons_self
          · exact List.mem_cons_of_mem _ (hm a ha)
      · obtain ⟨hn, hm⟩ := ih (List.mem_cons_of_mem _ h)
        exact ⟨hn, fun a ha => List.mem_cons_of_mem _ (hm a ha)⟩

end

theorem mem_of_mem_intercalate {sep c : α} {ls : List (List α)} (h : c ∈ [sep].intercalate ls) :
    c = sep ∨ ∃ l ∈ ls, c ∈ l := by
  induction ls with
  | nil => exact absurd h List.not_mem_nil
  | cons l ls ih =>
    by_cases hls : ls = []
    · subst hls
      rw [List.intercalate_singleton] at h
      exact .inr ⟨l, List.mem_cons_self, h⟩
    · rw [List.intercalate_cons_of_ne_nil hls, List.append_assoc, List.mem_append, List.mem_append] at h
      rcases h with h | h | h
      · exact .inr ⟨l, List.mem_cons_self, h⟩
      · exact .inl (List.mem_singleton.1 h)
      · exact (ih h).imp_right fun ⟨l', hl, hc⟩ => ⟨l', List.mem_cons_of_mem _ hl, hc⟩

end Lib.Words

import Mathlib.Data.List.Basic
/-!
# Replacing in texts

`text.replace(old, new)` goes from left to right and never over what it has replaced. It is
`new` between the pieces that `text.split(old)` gives, and that is how its properties are shown:
what is an infix of the result is one of a piece, unless it overlaps `new`.
-/
namespace Lib.Replace

variable {α : Type}

section
variable [DecidableEq α]

/-- The pieces between the occurrences of `old`, after so many elements. -/
def splitFrom (old : List α) : Nat → List α → List (List α)
  | _, [] => [[]]
  | n + 1, _ :: text => splitFrom old n text
  | 0, a :: text =>
    if old.isPrefixOf (a :: text) then [] :: splitFrom old (old.length - 1) text
    else match splitFrom old 0 text with
      | [] => [[a]]
      | piece :: pieces => (a :: piece) :: pieces

/-- `text.split(old)` -/
def split (old text : List α) : List (List α) := splitFrom old 0 text

/-- `new` for each occurrence of `old`, after so many elements. -/
def replaceFrom (old new : List α) : Nat → List α → List α
  | _, [] => []
  | n + 1, _ :: text => replaceFrom old new n text
  | 0, a :: text =>
    if old.isPrefixOf (a :: text) then new ++ replaceFrom old new (old.length - 1) text
    else a :: replaceFrom old new 0 text

/-- `text.replace(old, new)`, for an `old` that is not empty. -/
def replace (old new text : List α) : List α := replaceFrom old new 0 text

end

/-! ## Pieces -/

theorem intercalate_cons (sep piece : List α) {pieces : List (List α)} (h : pieces ≠ []) :
    sep.intercalate (piece :: pieces) = piece ++ (sep ++ sep.intercalate pieces) := by
  obtain ⟨next, rest, rfl⟩ := List.exists_cons_of_ne_nil h
  rw [List.intercalate_cons_cons, List.append_assoc]

theorem intercalate_cons_head (sep : List α) (a : α) (piece : List α) (pieces : List (List α)) :
    sep.intercalate ((a :: piece) :: pieces) = a :: sep.intercalate (piece :: pieces) := by
  by_cases h : pieces = []
  · simp [h]
  · rw [intercalate_cons sep _ h, intercalate_cons sep _ h, List.cons_append]

theorem piece_infix {sep piece : List α} {pieces : List (List α)} (h : piece ∈ pieces) :
    piece <:+: sep.intercalate pieces := by
  induction pieces with
  | nil => cases h
  | cons first pieces ih =>
    by_cases hn : pieces = []
    · rw [hn, List.mem_singleton] at h
      simp [hn, h]
    · rw [intercalate_cons sep first hn]
      rcases List.mem_cons.1 h with rfl | h
      · exact List.infix_append_left
      · exact ((ih h).trans List.infix_append_right).trans List.infix_append_right

section
variable [DecidableEq α]

theorem splitFrom_ne_nil (old : List α) (n : Nat) (text : List α) : splitFrom old n text ≠ [] := by
  induction text generalizing n with
  | nil => simp [splitFrom]
  | cons a text ih =>
    cases n with
    | succ n => exact ih n
    | zero =>
      unfold splitFrom
      split
      · simp
      · split <;> simp

theorem splitFrom_eq (old : List α) (n : Nat) (text : List α) : splitFrom old n text = split old (text.drop n) := by
  induction text generalizing n with
  | nil => cases n <;> rfl
  | cons a text ih =>
    cases n with
    | zero => rfl
    | succ n => exact ih n

theorem split_append {old : List α} (hold : old ≠ []) (text : List α) :
    split old (old ++ text) = [] :: split old text := by
  obtain ⟨a, rest, rfl⟩ := List.exists_cons_of_ne_nil hold
  have hbegins : (a :: rest).isPrefixOf (a :: (rest ++ text)) = true :=
    List.isPrefixOf_iff_prefix.2 (List.prefix_append (a :: rest) text)
  rw [List.cons_append, split, splitFrom, if_pos hbegins, splitFrom_eq]
  simp

theorem split_cons {old : List α} {a : α} {text : List α} (h : ¬old <+: a :: text) :
    ∃ piece pieces, split old text = piece :: pieces ∧ split old (a :: text) = (a :: piece) :: pieces := by
  obtain ⟨piece, pieces, hp⟩ := List.exists_cons_of_ne_nil (splitFrom_ne_nil old 0 text)
  refine ⟨piece, pieces, hp, ?_⟩
  have hbegins : old.isPrefixOf (a :: text) = false := by
    by_contra hn
    exact h (List.isPrefixOf_iff_prefix.1 (by simpa using hn))
  rw [split, splitFrom, if_neg (by simp [hbegins]), hp]

/-- Either the text begins with `old`, or with a single element. -/
theorem split_induction {old : List α} (hold : old ≠ []) {motive : List α → Prop} (nil : motive [])
    (found : ∀ text, motive text → motive (old ++ text))
    (other : ∀ a text, ¬old <+: a :: text → motive text → motive (a :: text)) (text : List α) : motive text := by
  induction hn : text.length using Nat.strongRecOn generalizing text with
  | _ n ih =>
    cases text with
    | nil => exact nil
    | cons a text =>
      by_cases hp : old <+: a :: text
      · obtain ⟨rest, hrest⟩ := hp
        have hlength : rest.length < n := by
          have hpos := List.length_pos_iff.2 hold
          rw [← hn, ← hrest, List.length_append]
          omega
        rw [← hrest]
        exact found rest (ih _ hlength rest rfl)
      · exact other a text hp (ih text.length (by simp [← hn]) text rfl)

theorem split_ne_nil (old text : List α) : split old text ≠ [] := splitFrom_ne_nil old 0 text

/-- With `old` between them, the pieces are the text. -/
theorem intercalate_split {old : List α} (hold : old ≠ []) (text : List α) :
    old.intercalate (split old text) = text := by
  induction text using split_induction hold with
  | nil => rfl
  | found text ih =>
    rw [split_append hold, intercalate_cons old [] (split_ne_nil old text), ih, List.nil_append]
  | other a text h ih =>
    obtain ⟨piece, pieces, hp, ha⟩ := split_cons h
    rw [ha, intercalate_cons_head, ← hp, ih]

theorem replaceFrom_eq (old new : List α) (n : Nat) (text : List α) :
    replaceFrom old new n text = new.intercalate (splitFrom old n text) := by
  induction text generalizing n with
  | nil => simp [replaceFrom, splitFrom]
  | cons a text ih =>
    cases n with
    | succ n => exact ih n
    | zero =>
      unfold replaceFrom splitFrom
      by_cases h : old.isPrefixOf (a :: text) = true
      · rw [if_pos h, if_pos h, ih, intercalate_cons new [] (splitFrom_ne_nil old _ text), List.nil_append]
      · obtain ⟨piece, pieces, hp⟩ := List.exists_cons_of_ne_nil (splitFrom_ne_nil old 0 text)
        rw [if_neg h, if_neg h, ih, hp]
        exact (intercalate_cons_head new a piece pieces).symm

/-- With `new` between them, they are the result. -/
theorem replace_eq (old new text : List α) : replace old new text = new.intercalate (split old text) :=
  replaceFrom_eq old new 0 text

theorem piece_infix_text {old : List α} (hold : old ≠ []) {piece text : List α} (h : piece ∈ split old text) :
    piece <:+: text := by
  have hp : piece <:+: old.intercalate (split old text) := piece_infix h
  rwa [intercalate_split hold] at hp

/-- No piece has `old` in it. -/
theorem not_infix_piece {old : List α} (hold : old ≠ []) {piece text : List α} (h : piece ∈ split old text) :
    ¬old <:+: piece := by
  induction text using split_induction hold generalizing piece with
  | nil =>
    rw [show split old [] = [[]] from rfl, List.mem_singleton] at h
    simp [h, hold]
  | found text ih =>
    rw [split_append hold] at h
    rcases List.mem_cons.1 h with rfl | h
    · simp [hold]
    · exact ih h
  | other a text hnot ih =>
    obtain ⟨first, pieces, hp, ha⟩ := split_cons hnot
    rw [ha] at h
    rcases List.mem_cons.1 h with rfl | h
    · -- The piece goes on with `a`, and what begins at `a` is not `old`.
      have hfirst : first <+: text := by
        have htext := intercalate_split hold text
        rw [hp] at htext
        by_cases hn : pieces = []
        · rw [hn, List.intercalate_singleton] at htext
          exact htext ▸ List.prefix_rfl
        · rw [intercalate_cons old first hn] at htext
          exact ⟨_, htext⟩
      rw [List.infix_cons_iff]
      rintro (hbegins | hin)
      · exact hnot (hbegins.trans (List.prefix_cons_inj a |>.2 hfirst))
      · exact ih (hp ▸ List.mem_cons_self) hin
    · exact ih (hp ▸ List.mem_cons_of_mem first h)

end

/-! ## Infixes of the result -/

/-- An occurrence of `word` does not overlap `sep`. -/
def Apart (word sep : List α) : Prop :=
  ∀ before rest, word <:+: before ++ (sep ++ rest) → word <:+: before ∨ word <:+: rest

/-- A word whose later elements are not `m` is on one side of where `m` is. -/
theorem infix_append_cons {word before rest : List α} {m : α} (hm : m ∉ word.tail)
    (h : word <:+: before ++ m :: rest) : word <:+: before ∨ word <:+: m :: rest := by
  rcases List.infix_append_iff_ne_nil.1 h with h | h | ⟨l₁, l₂, hl₁, hl₂, rfl, -, hbegins⟩
  · exact .inl h
  · exact .inr h
  · -- It would go over from `before` to `m`.
    obtain ⟨a, l₁, rfl⟩ := List.exists_cons_of_ne_nil hl₁
    obtain ⟨b, l₂, rfl⟩ := List.exists_cons_of_ne_nil hl₂
    have hb : b = m := (List.cons_prefix_cons.1 hbegins).1
    exact absurd (by simp [hb]) hm

/-- A word whose first element is not there begins later. -/
theorem infix_of_head {word before rest : List α} {a : α} (ha : a ∉ before) (h : a :: word <:+: before ++ rest) :
    a :: word <:+: rest := by
  rcases List.infix_append_iff_ne_nil.1 h with h | h | ⟨l₁, l₂, hl₁, -, hword, hsuffix, -⟩
  · exact absurd (h.subset List.mem_cons_self) ha
  · exact h
  · obtain ⟨b, l₁, rfl⟩ := List.exists_cons_of_ne_nil hl₁
    have hb : a = b := (List.cons.inj hword).1
    exact absurd (hsuffix.subset (hb ▸ List.mem_cons_self)) ha

theorem apart_of_disjoint {word sep : List α} (hword : word ≠ []) (hsep : sep ≠ []) (h : ∀ a ∈ word, a ∉ sep) :
    Apart word sep := by
  obtain ⟨a, word, rfl⟩ := List.exists_cons_of_ne_nil hword
  obtain ⟨m, sep, rfl⟩ := List.exists_cons_of_ne_nil hsep
  intro before rest hin
  have hm : m ∉ (a :: word).tail := fun hm => h m (List.mem_cons_of_mem a hm) List.mem_cons_self
  rw [List.cons_append] at hin
  refine (infix_append_cons hm hin).imp_right ?_
  rw [← List.cons_append]
  exact infix_of_head (h a List.mem_cons_self)

/-- Two words of the same length that begin with a mark that is nowhere else in them. -/
theorem apart_of_mark {word sep : List α} {m : α} (hword : m ∉ word) (hsep : m ∉ sep)
    (hlength : word.length = sep.length) (hne : word ≠ sep) : Apart (m :: word) (m :: sep) := by
  intro before rest hin
  rw [List.cons_append] at hin
  refine (infix_append_cons (by simpa using hword) hin).imp_right ?_
  intro h
  rcases List.infix_cons_iff.1 h with h | h
  · have hbegins : word <+: sep ++ rest := (List.cons_prefix_cons.1 h).2
    have hsame := List.prefix_of_prefix_length_le hbegins (List.prefix_append sep rest) (Nat.le_of_eq hlength)
    exact absurd (hsame.eq_of_length hlength) hne
  · exact infix_of_head hsep h

/-- What does not overlap the separator is in a piece. -/
theorem infix_intercalate {word sep : List α} (h : Apart word sep) (hword : word ≠ []) {pieces : List (List α)}
    (hin : word <:+: sep.intercalate pieces) : ∃ piece ∈ pieces, word <:+: piece := by
  induction pieces with
  | nil => simp [hword] at hin
  | cons piece pieces ih =>
    by_cases hn : pieces = []
    · exact ⟨piece, by simp, by simpa [hn] using hin⟩
    · rw [intercalate_cons sep piece hn] at hin
      rcases h _ _ hin with hin | hin
      · exact ⟨piece, List.mem_cons_self, hin⟩
      · obtain ⟨found, hf, hi⟩ := ih hin
        exact ⟨found, List.mem_cons_of_mem piece hf, hi⟩

section
variable [DecidableEq α]

/-- What is replaced is gone. -/
theorem not_infix_replace {old new : List α} (hold : old ≠ []) (h : Apart old new) (text : List α) :
    ¬old <:+: replace old new text := by
  rw [replace_eq]
  intro hin
  obtain ⟨piece, hp, hi⟩ := infix_intercalate h hold hin
  exact not_infix_piece hold hp hi

/-- A word that does not overlap the new one has been there before. -/
theorem infix_of_infix_replace {old new word text : List α} (hold : old ≠ []) (hword : word ≠ []) (h : Apart word new)
    (hin : word <:+: replace old new text) : word <:+: text := by
  rw [replace_eq] at hin
  obtain ⟨piece, hp, hi⟩ := infix_intercalate h hword hin
  exact hi.trans (piece_infix_text hold hp)

/-! ## Back again -/

/-- Before a mark that is nowhere else in it, `sep` is not found where it was not. -/
theorem split_piece {sep : List α} {m : α} (hm : m ∉ sep) {piece : List α} (h : ¬m :: sep <:+: piece) (rest : List α) :
    split (m :: sep) (piece ++ (m :: sep ++ rest)) = piece :: split (m :: sep) rest := by
  induction piece with
  | nil => exact split_append (List.cons_ne_nil m sep) rest
  | cons a piece ih =>
    have hnot : ¬m :: sep <+: a :: (piece ++ (m :: sep ++ rest)) := by
      intro hbegins
      rcases List.prefix_or_prefix_of_prefix hbegins (List.prefix_append (a :: piece) _) with hp | ⟨more, hmore⟩
      · exact h hp.isInfix
      · have hrest : more <+: m :: sep ++ rest := by
          apply (List.prefix_append_right_inj (a :: piece)).1
          rw [hmore]
          exact hbegins
        cases more with
        | nil => exact h (by simp [← hmore])
        | cons b more =>
          have hb : b = m := (List.cons_prefix_cons.1 hrest).1
          have hsep : sep = piece ++ b :: more := (List.cons.inj hmore).2.symm
          exact hm (by simp [hsep, hb])
    have hpiece : ¬m :: sep <:+: piece := fun hi => h (hi.trans (List.suffix_cons a piece).isInfix)
    obtain ⟨first, pieces, hp, ha⟩ := split_cons hnot
    rw [ih hpiece] at hp
    obtain ⟨rfl, rfl⟩ := List.cons.inj hp
    exact ha

theorem split_of_not_infix {old text : List α} (h : ¬old <:+: text) : split old text = [text] := by
  induction text with
  | nil => rfl
  | cons a text ih =>
    have hnot : ¬old <+: a :: text := fun hp => h hp.isInfix
    have htext : ¬old <:+: text := fun hi => h (hi.trans (List.suffix_cons a text).isInfix)
    obtain ⟨first, pieces, hp, ha⟩ := split_cons hnot
    rw [ih htext] at hp
    obtain ⟨rfl, rfl⟩ := List.cons.inj hp
    exact ha

theorem split_intercalate {sep : List α} {m : α} (hm : m ∉ sep) {pieces : List (List α)} (hne : pieces ≠ [])
    (h : ∀ piece ∈ pieces, ¬m :: sep <:+: piece) : split (m :: sep) ((m :: sep).intercalate pieces) = pieces := by
  induction pieces with
  | nil => exact absurd rfl hne
  | cons piece pieces ih =>
    simp only [List.mem_cons, forall_eq_or_imp] at h
    by_cases hn : pieces = []
    · rw [hn, List.intercalate_singleton, split_of_not_infix h.1]
    · rw [intercalate_cons _ piece hn, split_piece hm h.1, ih hn h.2]

/-- A text without the new word comes back. -/
theorem replace_back {old new : List α} {m : α} (hold : old ≠ []) (hm : m ∉ new) {text : List α}
    (h : ¬m :: new <:+: text) : replace (m :: new) old (replace old (m :: new) text) = text := by
  have hpieces : ∀ piece ∈ split old text, ¬m :: new <:+: piece :=
    fun piece hp hi => h (hi.trans (piece_infix_text hold hp))
  rw [replace_eq old, replace_eq, split_intercalate hm (split_ne_nil old text) hpieces, intercalate_split hold]

end

end Lib.Replace

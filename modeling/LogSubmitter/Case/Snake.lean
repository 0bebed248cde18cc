import LogSubmitter.Case
/-!
# Where the underscores go

Two rules of the loop put `_` before a character, and each looks at the last of what
there is so far. Once one of them has put it, the last is no letter, and so not both do.
-/
namespace LogSubmitter.Case

variable {u : Unicode}

/-- What a name is in snake case, `snaked`, says of the name. -/
structure Snaked (u : Unicode) (text snaked : Text) : Prop where
  chars : ∀ c ∈ snaked, c.isLower = true ∨ c.isDigit = true ∨ c = '_'
  first : snaked.head? ≠ some '_'
  last : snaked.getLast? ≠ some '_'
  single : ∀ before rest, snaked ≠ before ++ '_' :: '_' :: rest
  letters : snaked.filter (· ≠ '_') = u.lower text
  /-- What is before `_` tells the index. -/
  upper : ∀ before c rest, snaked = before ++ '_' :: c :: rest →
    ∃ original, text[(before.filter (· ≠ '_')).length]? = some original ∧ original.isUpper = true ∧ original.toLower = c

/-! ## One round -/

/-- Not both rules put `_`. -/
theorem separate_cases (rest snaked : Text) :
    separate u rest snaked = snaked ∨ separate u rest snaked = '_' :: snaked := by
  have hunderscore : u.isAlpha '_' = false := u.isAlpha_ascii '_' (by decide)
  unfold separate
  cases snaked.find? u.isAlpha with
  | none =>
    dsimp only
    split
    · exact .inr rfl
    · exact .inl rfl
  | some letter =>
    dsimp only
    by_cases hl : u.isLower letter = true
    · right
      simp [hl, hunderscore]
    · rw [if_neg hl]
      split
      · exact .inr rfl
      · exact .inl rfl

theorem toNat_of_isAlphanum {c : Char} (h : c.isAlphanum = true) : c.toNat < 128 := by
  simp [Char.isAlphanum, Char.isAlpha, Char.isUpper, Char.isLower, Char.isDigit, UInt32.le_iff_toNat_le] at h
  omega

/-- A character of a name, with `_` before it or not. -/
structure Mark where
  char : Char
  separated : Bool
  isAlphanum : char.isAlphanum = true
  isUpper : separated = true → char.isUpper = true

def Mark.text (m : Mark) : Text := if m.separated then ['_', m.char] else [m.char]

/-- A round adds the character, and `_` before it at most if it is an upper-case letter that is not the first. -/
theorem snakeChar_mark {c : Char} (hc : c.isAlphanum = true) (i : Nat) (rest snaked : Text) :
    ∃ m : Mark, m.char = c ∧ (i = 0 → m.separated = false) ∧
      snakeChar u i c rest snaked = m.text.reverse ++ snaked := by
  have plain : snakeChar u i c rest snaked = c :: snaked → ∃ m : Mark, m.char = c ∧
      (i = 0 → m.separated = false) ∧ snakeChar u i c rest snaked = m.text.reverse ++ snaked := by
    intro h
    exact ⟨⟨c, false, hc, by simp⟩, rfl, fun _ => rfl, h⟩
  by_cases htaken : (u.isNumeric c || u.isLower c) = true
  · apply plain
    unfold snakeChar
    rw [if_pos htaken]
  · by_cases hi : i = 0
    · apply plain
      unfold snakeChar
      simp [htaken, hi]
    · rcases separate_cases (u := u) rest snaked with hs | hs
      · apply plain
        unfold snakeChar
        simp [htaken, hs]
      · have hascii := toNat_of_isAlphanum hc
        have hupper : c.isUpper = true := by
          rw [u.isNumeric_ascii c hascii, u.isLower_ascii c hascii] at htaken
          simp only [Char.isAlphanum, Char.isAlpha, Bool.or_eq_true] at hc htaken
          rcases hc with (h | h) | h
          · exact h
          · exact absurd (.inr h) htaken
          · exact absurd (.inl h) htaken
        refine ⟨⟨c, true, hc, fun _ => hupper⟩, rfl, fun h => absurd h hi, ?_⟩
        unfold snakeChar
        simp [htaken, hi, hs, Mark.text]

/-! ## The whole name -/

/-- The loop, character by character. -/
theorem snakeFrom_marks {text : Text} (h : ∀ c ∈ text, c.isAlphanum = true) (i : Nat) (snaked : Text) :
    ∃ marks : List Mark, marks.map Mark.char = text ∧ (i = 0 → ∀ m ∈ marks.head?, m.separated = false) ∧
      snakeFrom u i text snaked = (marks.flatMap Mark.text).reverse ++ snaked := by
  induction text generalizing i snaked with
  | nil => exact ⟨[], rfl, by simp, rfl⟩
  | cons c rest ih =>
    rw [List.forall_mem_cons] at h
    obtain ⟨m, hchar, hfirst, hround⟩ := snakeChar_mark (u := u) h.1 i rest snaked
    obtain ⟨marks, hchars, -, hrun⟩ := ih h.2 (i + 1) (snakeChar u i c rest snaked)
    refine ⟨m :: marks, by simp [hchar, hchars], ?_, ?_⟩
    · intro hi
      simpa using hfirst hi
    · rw [snakeFrom, hrun, hround]
      simp

/-- What is written for a character, in lower case. -/
def Mark.lower (m : Mark) : Text := if m.separated then ['_', m.char.toLower] else [m.char.toLower]

theorem Mark.map_toLower (m : Mark) : m.text.map Char.toLower = m.lower := by
  unfold text lower
  cases m.separated <;> rfl

theorem Mark.mem_text {m : Mark} {c : Char} (h : c ∈ m.text) : c = '_' ∨ c = m.char := by
  unfold text at h
  split at h
  · simpa using h
  · exact .inr (List.mem_singleton.1 h)

theorem Mark.mem_lower {m : Mark} {c : Char} (h : c ∈ m.lower) : c = '_' ∨ c = m.char.toLower := by
  rw [← m.map_toLower] at h
  obtain ⟨d, hd, rfl⟩ := List.mem_map.1 h
  rcases Mark.mem_text hd with rfl | rfl
  · exact .inl rfl
  · exact .inr rfl

theorem Mark.toLower_char (m : Mark) : m.char.toLower.isLower = true ∨ m.char.toLower.isDigit = true := by
  have h := m.isAlphanum
  simp only [Char.isAlphanum, Bool.or_eq_true] at h
  rcases h with h | h
  · left
    simp [h]
  · right
    rw [Char.toLower_eq_of_not_isUpper]
    · exact h
    · intro hupper
      rw [(toNat_of_isUpper hupper).2] at h
      cases h

theorem Mark.ne_underscore (m : Mark) : m.char.toLower ≠ '_' := by
  intro h
  have hc := m.toLower_char
  rw [h] at hc
  exact absurd hc (by decide)

theorem Mark.filter_lower (m : Mark) : m.lower.filter (· ≠ '_') = [m.char.toLower] := by
  have h := m.ne_underscore
  unfold lower
  cases m.separated <;> simp [h]

theorem filter_flatMap_lower (marks : List Mark) :
    (marks.flatMap Mark.lower).filter (· ≠ '_') = (marks.map Mark.char).map Char.toLower := by
  induction marks with
  | nil => rfl
  | cons m marks ih =>
    rw [List.flatMap_cons, List.filter_append, m.filter_lower, ih]
    rfl

/-- After a `_` comes the character that it separates. -/
theorem exists_of_underscore {marks : List Mark} {before rest : Text}
    (h : marks.flatMap Mark.lower = before ++ '_' :: rest) :
    ∃ l m r, marks = l ++ m :: r ∧ m.separated = true ∧ before = l.flatMap Mark.lower ∧
      rest = m.char.toLower :: r.flatMap Mark.lower := by
  induction marks generalizing before with
  | nil => simp at h
  | cons m marks ih =>
    have hne := m.ne_underscore
    -- The `_` is not of this character.
    have later : ∀ before', before = m.lower ++ before' → marks.flatMap Mark.lower = before' ++ '_' :: rest →
        ∃ l n r, m :: marks = l ++ n :: r ∧ n.separated = true ∧ before = l.flatMap Mark.lower ∧
          rest = n.char.toLower :: r.flatMap Mark.lower := by
      intro before' hb hm
      obtain ⟨l, n, r, rfl, hsep, rfl, hrest⟩ := ih hm
      exact ⟨m :: l, n, r, rfl, hsep, hb, hrest⟩
    rw [List.flatMap_cons] at h
    cases hsep : m.separated with
    | false =>
      have hm : m.lower = [m.char.toLower] := by simp [Mark.lower, hsep]
      rw [hm, List.singleton_append] at h
      cases before with
      | nil => exact absurd (List.cons.inj h).1 hne
      | cons c before =>
        obtain ⟨rfl, hrun⟩ := List.cons.inj h
        exact later before (by rw [hm]; rfl) hrun
    | true =>
      have hm : m.lower = ['_', m.char.toLower] := by simp [Mark.lower, hsep]
      rw [hm, List.cons_append, List.singleton_append] at h
      cases before with
      | nil => exact ⟨[], m, marks, rfl, hsep, rfl, (List.cons.inj h).2.symm⟩
      | cons c before =>
        obtain ⟨rfl, hrun⟩ := List.cons.inj h
        cases before with
        | nil => exact absurd (List.cons.inj hrun).1 hne
        | cons c before =>
          obtain ⟨rfl, hmarks⟩ := List.cons.inj hrun
          exact later before (by rw [hm]; rfl) hmarks

theorem lower_ascii {text : Text} (h : ∀ c ∈ text, c.toNat < 128) : u.lower text = text.map Char.toLower := by
  apply u.lower_eq
  intro c hc
  exact .inl (h c hc)

theorem snakeCase_marks {text : Text} (h : ∀ c ∈ text, c.isAlphanum = true) :
    ∃ marks : List Mark, marks.map Mark.char = text ∧ (∀ m ∈ marks.head?, m.separated = false) ∧
      snakeCase u text = marks.flatMap Mark.lower := by
  obtain ⟨marks, hchars, hfirst, hrun⟩ := snakeFrom_marks (u := u) h 0 []
  have hascii : ∀ c ∈ marks.flatMap Mark.text, c.toNat < 128 := by
    intro c hc
    obtain ⟨m, -, hm⟩ := List.mem_flatMap.1 hc
    rcases Mark.mem_text hm with rfl | rfl
    · decide
    · exact toNat_of_isAlphanum m.isAlphanum
  refine ⟨marks, hchars, hfirst rfl, ?_⟩
  unfold snakeCase
  rw [hrun, List.append_nil, List.reverse_reverse, lower_ascii hascii, List.map_flatMap]
  simp only [Mark.map_toLower]

/-- In snake case a name of letters and digits has single underscores inside, only before what was in upper case, and
is else the name in lower case. -/
theorem snakeCase_snaked (u : Unicode) {text : Text} (h : ∀ c ∈ text, c.isAlphanum = true) :
    Snaked u text (snakeCase u text) := by
  obtain ⟨marks, rfl, hfirst, hsnake⟩ := snakeCase_marks (u := u) h
  rw [hsnake]
  constructor
  case chars =>
    intro c hc
    obtain ⟨m, -, hm⟩ := List.mem_flatMap.1 hc
    rcases Mark.mem_lower hm with rfl | rfl
    · exact .inr (.inr rfl)
    · exact m.toLower_char.imp_right .inl
  case first =>
    cases marks with
    | nil => simp
    | cons m marks =>
      have hsep : m.separated = false := hfirst m rfl
      simp [Mark.lower, hsep, m.ne_underscore]
  case last =>
    intro hlast
    obtain ⟨before, hb⟩ := List.getLast?_eq_some_iff.1 hlast
    obtain ⟨l, m, r, -, -, -, hrest⟩ := exists_of_underscore hb
    cases hrest
  case single =>
    intro before rest hb
    obtain ⟨l, m, r, -, -, -, hrest⟩ := exists_of_underscore hb
    exact m.ne_underscore (List.cons.inj hrest).1.symm
  case letters =>
    rw [filter_flatMap_lower, lower_ascii]
    intro c hc
    exact toNat_of_isAlphanum (h c hc)
  case upper =>
    intro before c rest hb
    obtain ⟨l, m, r, rfl, hsep, rfl, hrest⟩ := exists_of_underscore hb
    refine ⟨m.char, ?_, m.isUpper hsep, (List.cons.inj hrest).1.symm⟩
    rw [filter_flatMap_lower]
    simp

theorem snakeCase_displayType : Snaked ascii "HDMIDisplay2Type".toList "hdmi_display2_type".toList := by
  have h : snakeCase ascii "HDMIDisplay2Type".toList = "hdmi_display2_type".toList := by decide +kernel
  rw [← h]
  apply snakeCase_snaked
  rw [← List.all_eq_true]
  decide +kernel

end LogSubmitter.Case

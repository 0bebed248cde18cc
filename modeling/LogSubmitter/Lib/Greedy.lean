import LogSubmitter.Lib.Regex
/-!
# How far a repetition goes

A repetition of characters is tried from its longest match down. If what comes after it in the
pattern cannot begin with such a character, the longest is the only one that counts.
-/
namespace Lib.Regex

variable {holds : Char → Bool} {before text : List Char}

/-! ## The matches of a repetition -/

theorem run_many_nil (least : Nat) :
    run (many (char holds) least none) ⟨before, []⟩ = if least = 0 then [(⟨before, []⟩, [])] else [] := by
  simp [run, repeated]

theorem run_many_cons (least : Nat) (c : Char) (cs : List Char) :
    run (many (char holds) least none) ⟨before, c :: cs⟩ =
      (if holds c then run (many (char holds) (least - 1) none) ⟨c :: before, cs⟩ else []) ++
        if least = 0 then [(⟨before, c :: cs⟩, [])] else [] := by
  simp only [run, List.length_cons]
  rw [repeated]
  by_cases hc : holds c = true
  · simp [hc]
  · simp [hc]

/-- The first that a repetition leads to. -/
theorem findSome_many {β : Type} (least : Nat) (c : Char) (cs : List Char) (f : Found → Option β) :
    (run (many (char holds) least none) ⟨before, c :: cs⟩).findSome? f =
      (if holds c then (run (many (char holds) (least - 1) none) ⟨c :: before, cs⟩).findSome? f else none).or
        (if least = 0 then f (⟨before, c :: cs⟩, []) else none) := by
  rw [run_many_cons, List.findSome?_append]
  split <;> split <;> simp

/-- Where the longest match ends. -/
def longest (holds : Char → Bool) (p : Place) : Place :=
  ⟨(p.after.takeWhile holds).reverse ++ p.before, p.after.dropWhile holds⟩

/-- The longest match counts, if it leads anywhere or nothing is found inside a run of such characters. -/
theorem findSome_longest {β : Type} {f : Found → Option β}
    (hf : ∀ before c cs, holds c = true →
      f (⟨before, c :: cs⟩, []) = none ∨ (f (longest holds ⟨before, c :: cs⟩, [])).isSome = true)
    (least : Nat) (before text : List Char) :
    (run (many (char holds) least none) ⟨before, text⟩).findSome? f =
      if least ≤ (text.takeWhile holds).length then f (longest holds ⟨before, text⟩, []) else none := by
  induction text generalizing least before with
  | nil =>
    rw [run_many_nil]
    cases least with
    | zero => simp [longest]
    | succ least => simp
  | cons c cs ih =>
    rw [findSome_many]
    by_cases hc : holds c = true
    · have hlongest : longest holds ⟨before, c :: cs⟩ = longest holds ⟨c :: before, cs⟩ := by simp [longest, hc]
      have hhere := hf before c cs hc
      rw [if_pos hc, ih, List.takeWhile_cons_of_pos hc, List.length_cons, hlongest]
      rw [hlongest] at hhere
      cases least with
      | zero =>
        rcases hhere with hnone | hsome
        · simp [hnone]
        · obtain ⟨found, hfound⟩ := Option.isSome_iff_exists.1 hsome
          simp [hfound]
      | succ least => simp
    · have hlongest : longest holds ⟨before, c :: cs⟩ = ⟨before, c :: cs⟩ := by simp [longest, hc]
      rw [if_neg hc, hlongest, List.takeWhile_cons_of_neg hc, Option.none_or]
      cases least <;> simp

/-! ## What comes after -/

variable {b : Regex}

theorem first_seq (a b : Regex) (p : Place) :
    first (seq a b) p = (run a p).findSome? fun m => (first b m.1).map fun n => (n.1, n.2 ++ m.2) := by
  simp only [first, run, List.head?_flatMap, List.head?_map]

theorem first_empty (p : Place) : first (all []) p = some (p, []) := by
  simp [first, all, run, repeated]

theorem first_seq_char (holds : Char → Bool) (b : Regex) (before : List Char) (c : Char) (cs : List Char) :
    first (seq (char holds) b) ⟨before, c :: cs⟩ = if holds c then first b ⟨c :: before, cs⟩ else none := by
  rw [first_seq]
  simp only [run]
  split <;> simp

theorem first_seq_char_nil (holds : Char → Bool) (b : Regex) (before : List Char) :
    first (seq (char holds) b) ⟨before, []⟩ = none := by
  rw [first_seq]
  rfl

theorem run_all_char (l : List Char) (p : Place) :
    run (all (l.map fun c => char (· == c))) p =
      if l <+: p.after then [(⟨l.reverse ++ p.before, p.after.drop l.length⟩, [])] else [] := by
  induction l generalizing p with
  | nil => simp [all, run, repeated]
  | cons c l ih =>
    obtain ⟨before, text⟩ := p
    have hall : all ((c :: l).map fun c => char (· == c)) =
        seq (char (· == c)) (all (l.map fun c => char (· == c))) := rfl
    rw [hall]
    cases text with
    | nil => simp [run]
    | cons d cs =>
      by_cases hd : d = c
      · simp [run, ih, hd]
      · simp [run, hd, Ne.symm hd]

theorem first_literal (text : String) (b : Regex) (p : Place) :
    first (seq (literal text) b) p =
      if text.toList <+: p.after then first b ⟨text.toList.reverse ++ p.before, p.after.drop text.toList.length⟩
      else none := by
  rw [first_seq, literal, run_all_char]
  split <;> simp

theorem first_seq_group (name : String) (a b : Regex) (p : Place) :
    first (seq (group name a) b) p =
      (run a p).findSome? fun m => (first b m.1).map fun n => (n.1, n.2 ++ (name, between p m.1) :: m.2) := by
  have hrun : run (group name a) p = (run a p).map fun m => (m.1, (name, between p m.1) :: m.2) := by
    rw [run]
  rw [first_seq, hrun, List.findSome?_map]
  rfl

/-- What comes after cannot begin with such a character. -/
theorem first_seq_many (h : ∀ before c cs, holds c = true → first b ⟨before, c :: cs⟩ = none) (least : Nat)
    (before text : List Char) :
    first (seq (many (char holds) least none) b) ⟨before, text⟩ =
      if least ≤ (text.takeWhile holds).length then first b (longest holds ⟨before, text⟩) else none := by
  rw [first_seq, findSome_longest]
  · simp
  · intro before c cs hc
    left
    simp [h before c cs hc]

/-- One or more characters, if the rest of the pattern cannot begin with one. -/
theorem first_atLeastOne (h : ∀ before c cs, holds c = true → first b ⟨before, c :: cs⟩ = none)
    (before text : List Char) :
    first (seq (atLeastOne holds) b) ⟨before, text⟩ =
      if text.takeWhile holds = [] then none else first b (longest holds ⟨before, text⟩) := by
  unfold atLeastOne
  rw [first_seq_many h]
  by_cases hnil : text.takeWhile holds = []
  · simp [hnil]
  · have hlength : 1 ≤ (text.takeWhile holds).length := List.length_pos_iff.2 hnil
    rw [if_pos hlength, if_neg hnil]

/-- What comes after always matches. -/
theorem first_seq_group_many {name : String} (h : ∀ p, (first b p).isSome = true) (least : Nat)
    (before text : List Char) :
    first (seq (group name (many (char holds) least none)) b) ⟨before, text⟩ =
      if least ≤ (text.takeWhile holds).length then
        (first b (longest holds ⟨before, text⟩)).map fun n => (n.1, n.2 ++ [(name, text.takeWhile holds)])
      else none := by
  have hbetween : between ⟨before, text⟩ (longest holds ⟨before, text⟩) = text.takeWhile holds := by
    simp [between, longest]
  rw [first_seq_group, findSome_longest]
  · simp [hbetween]
  · intro before c cs hc
    right
    simp [h]

end Lib.Regex

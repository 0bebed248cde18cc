import LogSubmitter.Appid
import LogSubmitter.Lib.Greedy
/-!
# What the pattern for `/proc/<pid>/stat` finds

A name is between parentheses, and can have some of its own. The pattern tries the last `)` of
the line first, and goes back to one that a state and a number follow.
-/
namespace LogSubmitter.Appid

open Lib Json

/-! ## After a name -/

/-- What is after white space. -/
def spaces (text : Text) : Option Text :=
  if text.takeWhile Str.isSpace = [] then none else some (text.dropWhile Str.isSpace)

/-- What is after a letter. -/
def letter : Text → Option Text
  | [] => none
  | c :: cs => if c.isAlpha then some cs else none

/-- The digits at the beginning. -/
def digits (text : Text) : Option Text :=
  if text.takeWhile Kdump.isDigit = [] then none else some (text.takeWhile Kdump.isDigit)

/-- The group of `\s+[A-Za-z]\s+(\d+)`. -/
def status (text : Text) : Option Text := (((spaces text).bind letter).bind spaces).bind digits

/-- The status after a `)`. -/
def closed : Text → Option Text
  | [] => none
  | c :: cs => if c = ')' then status cs else none

/-- What is before the last `)` of the line that a status follows, and the number of this. -/
def claimed : Text → Option (Text × Text)
  | [] => none
  | c :: cs =>
    if c = '\n' then none
    else ((claimed cs).map fun m => (c :: m.1, m.2)).or ((closed (c :: cs)).map fun n => ([], n))

/-! ## Characters -/

theorem toNat_of_isAlpha {c : Char} (h : c.isAlpha = true) : 65 ≤ c.toNat ∧ c.toNat ≤ 122 := by
  change (decide (65 ≤ c.val ∧ c.val ≤ 90) || (decide (97 ≤ c.val) && decide (c.val ≤ 122))) = true at h
  simp [UInt32.le_iff_toNat_le] at h
  omega

theorem not_isAlpha_of_isSpace {c : Char} (h : Str.isSpace c = true) : c.isAlpha = false := by
  rw [Bool.eq_false_iff]
  intro ha
  have hletter := toNat_of_isAlpha ha
  simp [Str.isSpace] at h
  omega

theorem not_isDigit_of_isSpace {c : Char} (h : Str.isSpace c = true) : Kdump.isDigit c = false := by
  have hzeros : ∀ z ∈ Str.zeros, z = 0x30 ∨ 0x660 ≤ z ∧ z ≤ 0x1090 ∨ 0x17e0 ≤ z ∧ z ≤ 0x1c50 ∨ 0xa620 ≤ z := by decide
  have hnone : (Str.zeros.find? fun z => z ≤ c.toNat && c.toNat < z + 10) = none := by
    rw [List.find?_eq_none]
    intro z hz
    have hz := hzeros z hz
    simp [Str.isSpace] at h
    simp only [Bool.and_eq_true, decide_eq_true_eq]
    omega
  unfold Kdump.isDigit Str.digit
  rw [hnone]
  rfl

theorem not_isSpace_of_isDigit {c : Char} (h : Kdump.isDigit c = true) : Str.isSpace c = false := by
  rw [Bool.eq_false_iff]
  intro hs
  rw [not_isDigit_of_isSpace hs] at h
  cases h

theorem isDigit_of_mem_toDigits {n : Nat} {c : Char} (h : c ∈ Nat.toDigits 10 n) : Kdump.isDigit c = true := by
  unfold Kdump.isDigit
  rw [Str.digit_of_isDigit (Nat.isDigit_of_mem_toDigits (by decide) (by decide) h)]
  rfl

/-! ## The pattern -/

section
open Regex

/-- `\s+[A-Za-z]\s+(\d+)` -/
def statusRe : Regex :=
  all [atLeastOne Str.isSpace, char Char.isAlpha, atLeastOne Str.isSpace, group "2" (atLeastOne Kdump.isDigit)]

theorem statParse_eq : statParse =
    seq (atLeastOne Kdump.isDigit) (seq (atLeastOne Str.isSpace) (seq (literal "(")
      (seq (group "1" (anyNumber (· ≠ '\n'))) (seq (literal ")") statusRe)))) :=
  rfl

theorem first_number (before text : Text) :
    (first (seq (group "2" (atLeastOne Kdump.isDigit)) (all [])) ⟨before, text⟩).map Prod.snd =
      (digits text).map fun n => [("2", n)] := by
  unfold atLeastOne digits
  rw [first_seq_group_many (by simp [first_empty]), first_empty]
  by_cases hnil : text.takeWhile Kdump.isDigit = []
  · simp [hnil]
  · have hlength : 1 ≤ (text.takeWhile Kdump.isDigit).length := List.length_pos_iff.2 hnil
    simp [hnil, hlength]

/-- The groups of the status at a place. -/
theorem first_statusRe (before text : Text) :
    (first statusRe ⟨before, text⟩).map Prod.snd = (status text).map fun n => [("2", n)] := by
  have hdigit : ∀ before c cs, Str.isSpace c = true →
      first (seq (group "2" (atLeastOne Kdump.isDigit)) (all [])) ⟨before, c :: cs⟩ = none := by
    intro before c cs hc
    have h := first_number before (c :: cs)
    simpa [digits, not_isDigit_of_isSpace hc] using h
  have hletter : ∀ before c cs, Str.isSpace c = true → first (seq (char Char.isAlpha) (seq (atLeastOne Str.isSpace)
      (seq (group "2" (atLeastOne Kdump.isDigit)) (all [])))) ⟨before, c :: cs⟩ = none := by
    intro before c cs hc
    rw [first_seq_char, not_isAlpha_of_isSpace hc]
    rfl
  have hall : statusRe = seq (atLeastOne Str.isSpace) (seq (char Char.isAlpha) (seq (atLeastOne Str.isSpace)
      (seq (group "2" (atLeastOne Kdump.isDigit)) (all [])))) := rfl
  rw [hall, first_atLeastOne hletter]
  unfold status spaces
  by_cases hnil : text.takeWhile Str.isSpace = []
  · simp [hnil]
  · rw [if_neg hnil, if_neg hnil, Option.bind_some]
    unfold longest
    dsimp only
    cases text.dropWhile Str.isSpace with
    | nil => rw [first_seq_char_nil]; rfl
    | cons c cs =>
      rw [first_seq_char]
      by_cases hc : c.isAlpha = true
      · rw [if_pos hc, letter, if_pos hc, Option.bind_some, first_atLeastOne hdigit]
        by_cases hspace : cs.takeWhile Str.isSpace = []
        · simp [hspace]
        · simp [hspace, longest, first_number]
      · simp [letter, hc]

theorem first_closed (before text : Text) :
    (first (seq (literal ")") statusRe) ⟨before, text⟩).map Prod.snd = (closed text).map fun n => [("2", n)] := by
  rw [first_literal]
  cases text with
  | nil => rfl
  | cons c cs =>
    by_cases hc : c = ')'
    · simp [closed, hc, first_statusRe]
    · simp [closed, hc, Ne.symm hc]

/-- What is found once some of the name has been taken. -/
theorem first_taken (before text name rest : Text) :
    ((first (seq (literal ")") statusRe) ⟨name.reverse ++ before, rest⟩).map fun n =>
      n.2 ++ [("1", between ⟨before, text⟩ ⟨name.reverse ++ before, rest⟩)]) =
      (closed rest).map fun n => [("2", n), ("1", name)] := by
  have h := congrArg (Option.map fun g => g ++ [("1", name)]) (first_closed (name.reverse ++ before) rest)
  have hbetween : between ⟨before, text⟩ ⟨name.reverse ++ before, rest⟩ = name := by simp [between]
  rw [Option.map_map, Option.map_map] at h
  rw [hbetween]
  exact h

/-- The name goes on to the end of the line, and back from there. -/
theorem findSome_name (before text rest name : Text) :
    ((run (anyNumber (· ≠ '\n')) ⟨name.reverse ++ before, rest⟩).findSome? fun m =>
      (first (seq (literal ")") statusRe) m.1).map fun n => n.2 ++ ("1", between ⟨before, text⟩ m.1) :: m.2) =
      (claimed rest).map fun m => [("2", m.2), ("1", name ++ m.1)] := by
  unfold anyNumber
  induction rest generalizing name with
  | nil =>
    rw [run_many_nil]
    simp [first_taken, closed, claimed]
  | cons c cs ih =>
    have hnext := ih (name ++ [c])
    rw [List.reverse_append, List.reverse_singleton, List.singleton_append, List.cons_append] at hnext
    rw [findSome_many, first_taken]
    by_cases hc : c = '\n'
    · simp [hc, claimed, closed]
    · rw [if_pos (by simpa using hc), if_pos rfl, hnext, claimed, if_neg hc, Option.map_or]
      simp [Function.comp_def]

/-- The groups, from where the name begins. -/
theorem first_name (before text : Text) :
    (first (seq (group "1" (anyNumber (· ≠ '\n'))) (seq (literal ")") statusRe)) ⟨before, text⟩).map Prod.snd =
      (claimed text).map fun m => [("2", m.2), ("1", m.1)] := by
  have h := findSome_name before text text []
  simp only [List.reverse_nil, List.nil_append] at h
  rw [first_seq_group, List.map_findSome?, ← h]
  congr 1
  funext m
  rw [Function.comp_apply, Option.map_map]
  rfl

/-- The whole pattern, from the number of the process on. -/
theorem statMatch_eq (pid : Nat) (text : Text) :
    statMatch (Nat.toDigits 10 pid ++ ' ' :: '(' :: text) =
      (claimed text).map fun m => [("2", m.2), ("1", m.1)] := by
  have hdigits : ∀ c ∈ Nat.toDigits 10 pid, Kdump.isDigit c = true := fun c => isDigit_of_mem_toDigits
  have hspace : Kdump.isDigit ' ' = false := not_isDigit_of_isSpace rfl
  have hopen : ∀ b before c cs, Str.isSpace c = true → first (seq (literal "(") b) ⟨before, c :: cs⟩ = none := by
    intro b before c cs hc
    rw [first_literal, if_neg]
    intro h
    obtain ⟨rest, hrest⟩ := h
    rw [← (List.cons.inj hrest).1] at hc
    exact absurd hc (by decide)
  have hafter : ∀ b before c cs, Kdump.isDigit c = true →
      first (seq (atLeastOne Str.isSpace) (seq (literal "(") b)) ⟨before, c :: cs⟩ = none := by
    intro b before c cs hc
    rw [first_atLeastOne (hopen b), List.takeWhile_cons_of_neg (by simp [not_isSpace_of_isDigit hc])]
    rfl
  have htake : (Nat.toDigits 10 pid ++ ' ' :: '(' :: text).takeWhile Kdump.isDigit = Nat.toDigits 10 pid := by
    rw [List.takeWhile_append_of_pos hdigits, List.takeWhile_cons_of_neg (by simp [hspace]), List.append_nil]
  have hdrop : (Nat.toDigits 10 pid ++ ' ' :: '(' :: text).dropWhile Kdump.isDigit = ' ' :: '(' :: text := by
    rw [List.dropWhile_append_of_pos hdigits, List.dropWhile_cons_of_neg (by simp [hspace])]
  unfold statMatch
  rw [statParse_eq, first_atLeastOne (hafter _), htake, if_neg Nat.toDigits_ne_nil]
  unfold longest
  dsimp only
  rw [htake, hdrop, first_atLeastOne (hopen _)]
  have hblank : (' ' :: '(' :: text).takeWhile Str.isSpace = [' '] := rfl
  have hname : (' ' :: '(' :: text).dropWhile Str.isSpace = '(' :: text := rfl
  have hparen : "(".toList = ['('] := rfl
  rw [hblank, if_neg (by simp), first_literal, hparen]
  unfold longest
  dsimp only
  rw [hname, if_pos (by simp)]
  exact first_name _ _

end

/-! ## A name and what follows it -/

/-- A `)` is none of the characters of a status, and so nothing after it counts. -/
theorem status_append (text rest : Text) : status (text ++ ')' :: rest) = status text := by
  have hspace : Str.isSpace ')' = false := rfl
  have hdigit : Kdump.isDigit ')' = false := by decide
  have hspaces : ∀ text : Text, spaces (text ++ ')' :: rest) = (spaces text).map (· ++ ')' :: rest) := by
    intro text
    unfold spaces
    rw [Words.takeWhile_append_stop hspace, Words.dropWhile_append_stop hspace]
    split <;> rfl
  have hletter : ∀ text : Text, letter (text ++ ')' :: rest) = (letter text).map (· ++ ')' :: rest) := by
    intro text
    cases text with
    | nil => rfl
    | cons c cs => by_cases hc : c.isAlpha = true <;> simp [letter, hc]
  have hdigits : ∀ text : Text, digits (text ++ ')' :: rest) = digits text := by
    intro text
    unfold digits
    rw [Words.takeWhile_append_stop hdigit]
  unfold status
  rw [hspaces]
  cases spaces text with
  | none => rfl
  | some text =>
    simp only [Option.map_some, Option.bind_some, hletter]
    cases letter text with
    | none => rfl
    | some text =>
      simp only [Option.map_some, Option.bind_some, hspaces]
      cases spaces text with
      | none => rfl
      | some text => simp [hdigits]

theorem claimed_eq_none {text : Text} (h : ')' ∉ text) : claimed text = none := by
  induction text with
  | nil => rfl
  | cons c cs ih =>
    rw [List.mem_cons, not_or] at h
    rw [claimed, ih h.2, closed, if_neg (Ne.symm h.1)]
    simp

/-- A line that ends in the name: what follows the name does not count. -/
theorem claimed_of_newline {name : Text} (h : '\n' ∈ name) (rest : Text) :
    claimed (name ++ ')' :: rest) = claimed name := by
  induction name with
  | nil => cases h
  | cons c cs ih =>
    by_cases hc : c = '\n'
    · simp [claimed, hc]
    · have hmem : '\n' ∈ cs := (List.mem_cons.1 h).resolve_left (Ne.symm hc)
      have hclosed : closed (c :: (cs ++ ')' :: rest)) = closed (c :: cs) := by
        simp [closed, status_append]
      rw [List.cons_append, claimed, claimed, ih hmem, hclosed]

/-- A name in one line: the `)` after it is the last one. -/
theorem claimed_of_line {name rest n : Text} (h : '\n' ∉ name) (hrest : ')' ∉ rest) (hstatus : status rest = some n) :
    claimed (name ++ ')' :: rest) = some (name, n) := by
  induction name with
  | nil => simp [claimed, closed, claimed_eq_none hrest, hstatus]
  | cons c cs ih =>
    rw [List.mem_cons, not_or] at h
    rw [List.cons_append, claimed, ih h.2, if_neg (Ne.symm h.1)]
    rfl

end LogSubmitter.Appid

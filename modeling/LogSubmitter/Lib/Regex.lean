import Mathlib.Data.List.Basic
/-!
# Regular expressions

A matcher that goes back: all matches of a pattern at a place, in the order in
which they are tried. The first of them is the match.
-/
namespace Lib

inductive Regex where
  | char (holds : Char → Bool)
  | start
  /-- `\b`, given what a word is made of. -/
  | boundary (word : Char → Bool)
  | seq (a b : Regex)
  | alt (a b : Regex)
  /-- As often as possible. -/
  | many (a : Regex) (least : Nat) (most : Option Nat)
  | group (name : String) (a : Regex)

namespace Regex

/-- A place in a text. What is before it is in reverse. -/
structure Place where
  before : List Char
  after : List Char

/-- The texts of groups. A later one of a name goes first. -/
abbrev Groups := List (String × List Char)

abbrev Found := Place × Groups

/-- The characters between two places. -/
def between (p q : Place) : List Char := (q.before.take (q.before.length - p.before.length)).reverse

/-- `step` as often as possible. The first argument bounds how often. -/
def repeated (step : Place → List Found) : Nat → Nat → Option Nat → Place → List Found
  | 0, least, _, p => if least = 0 then [(p, [])] else []
  | n + 1, least, most, p =>
    (if most = some 0 then [] else (step p).flatMap fun (q, g) =>
      (repeated step n (least - 1) (most.map (· - 1)) q).map fun (r, g') => (r, g' ++ g)) ++
      if least = 0 then [(p, [])] else []

/-- All matches that begin at a place. -/
def run : Regex → Place → List Found
  | char holds, p =>
    match p.after with
    | [] => []
    | c :: cs => if holds c then [(⟨c :: p.before, cs⟩, [])] else []
  | start, p => if p.before = [] then [(p, [])] else []
  | boundary word, p => if p.before.head?.any word ≠ p.after.head?.any word then [(p, [])] else []
  | seq a b, p => (run a p).flatMap fun (q, g) => (run b q).map fun (r, g') => (r, g' ++ g)
  | alt a b, p => run a p ++ run b p
  | many a least most, p => repeated (run a) (p.after.length + 1) least most p
  | group name a, p => (run a p).map fun (q, g) => (q, (name, between p q) :: g)

/-! ## Patterns -/

/-- One after the other. -/
def all (l : List Regex) : Regex := l.foldr seq (many start 0 (some 0))

def literal (text : String) : Regex := all (text.toList.map fun c => char (· == c))

/-- `|` -/
def oneOf (a : Regex) (l : List Regex) : Regex := l.foldl alt a

/-- `?` -/
def optional (a : Regex) : Regex := many a 0 (some 1)

/-- `{n}` of characters. -/
def exactly (n : Nat) (holds : Char → Bool) : Regex := many (char holds) n (some n)

/-- `*` of characters. -/
def anyNumber (holds : Char → Bool) : Regex := many (char holds) 0 none

/-- `+` of characters. -/
def atLeastOne (holds : Char → Bool) : Regex := many (char holds) 1 none

/-! ## Matching -/

/-- `pattern.match` -/
def first (r : Regex) (p : Place) : Option Found := (run r p).head?

/-- `pattern.search`, with the place where the match begins. -/
def searchFrom (r : Regex) (before : List Char) : List Char → Option (Place × Found)
  | [] => (first r ⟨before, []⟩).map fun m => (⟨before, []⟩, m)
  | c :: cs =>
    match first r ⟨before, c :: cs⟩ with
    | some m => some (⟨before, c :: cs⟩, m)
    | none => searchFrom r (c :: before) cs

/-- The groups of the first match in a text. -/
def search (r : Regex) (text : List Char) : Option Groups := (searchFrom r [] text).map fun m => m.2.2

/-- What is between the matches of a pattern that does not match the empty text, and the
groups of these. The first argument bounds their number. -/
def scan (r : Regex) : Nat → Place → List (List Char × Groups) × List Char
  | 0, p => ([], p.after)
  | n + 1, p =>
    match searchFrom r p.before p.after with
    | none => ([], p.after)
    | some (q, m) =>
      let rest := scan r n m.1
      ((between p q, m.2) :: rest.1, rest.2)

/-- `pattern.findall` -/
def findall (r : Regex) (text : List Char) : List Groups := (scan r (text.length + 1) ⟨[], text⟩).1.map Prod.snd

/-- `pattern.sub('', text)` -/
def remove (r : Regex) (text : List Char) : List Char :=
  let s := scan r (text.length + 1) ⟨[], text⟩
  s.1.flatMap Prod.fst ++ s.2

/-- The first match at a place, and not that of the empty text if it must advance. -/
def firstFrom (r : Regex) (advance : Bool) (p : Place) : Option Found :=
  (run r p).find? fun m => !advance || m.1.after.length < p.after.length

/-- `pattern.search` that must advance where it begins. -/
def searchNext (r : Regex) (advance : Bool) (before : List Char) : List Char → Option (Place × Found)
  | [] => (firstFrom r advance ⟨before, []⟩).map fun m => (⟨before, []⟩, m)
  | c :: cs =>
    match firstFrom r advance ⟨before, c :: cs⟩ with
    | some m => some (⟨before, c :: cs⟩, m)
    | none => searchFrom r (c :: before) cs

/-- What `replace` makes of each match, and what is between them. After a match of the empty text
the next one must advance. The first argument bounds their number. -/
def subFrom (r : Regex) (replace : Groups → List Char) : Nat → Bool → Place → List Char
  | 0, _, p => p.after
  | n + 1, advance, p =>
    match searchNext r advance p.before p.after with
    | none => p.after
    | some (q, m) => between p q ++ (replace m.2 ++ subFrom r replace n (m.1.after.length = q.after.length) m.1)

/-- `pattern.sub(replace, text)` -/
def sub (r : Regex) (replace : Groups → List Char) (text : List Char) : List Char :=
  subFrom r replace (2 * text.length + 2) false ⟨[], text⟩

theorem between_self (p : Place) : between p p = [] := by simp [between]

theorem firstFrom_false (r : Regex) (p : Place) : firstFrom r false p = first r p := by
  unfold firstFrom first
  cases run r p <;> simp

theorem searchNext_false (r : Regex) (before text : List Char) :
    searchNext r false before text = searchFrom r before text := by
  cases text with
  | nil => rw [searchNext, searchFrom, firstFrom_false]
  | cons c cs => rw [searchNext, searchFrom, firstFrom_false]

/-- A match begins where the search does or later. -/
theorem before_of_searchFrom {r : Regex} {before text : List Char} {q : Place} {m : Found}
    (h : searchFrom r before text = some (q, m)) : ∃ l, q.before = l ++ before := by
  induction text generalizing before with
  | nil =>
    rw [searchFrom, Option.map_eq_some_iff] at h
    obtain ⟨_, _, hq⟩ := h
    exact ⟨[], by simp [← (Prod.mk.inj hq).1]⟩
  | cons c cs ih =>
    rw [searchFrom] at h
    split at h
    · exact ⟨[], by simp [← (Prod.mk.inj (Option.some.inj h)).1]⟩
    · obtain ⟨l, hl⟩ := ih h
      exact ⟨l ++ [c], by simp [hl]⟩

section
variable {r : Regex} {replace : Groups → List Char} {n : Nat} {advance : Bool}

theorem subFrom_nil {before : List Char} (h : firstFrom r advance ⟨before, []⟩ = none) :
    subFrom r replace (n + 1) advance ⟨before, []⟩ = [] := by
  rw [subFrom, searchNext, h]
  rfl

/-- A character where nothing matches stays. -/
theorem subFrom_skip {before cs : List Char} {c : Char} (h : firstFrom r advance ⟨before, c :: cs⟩ = none) :
    subFrom r replace (n + 1) advance ⟨before, c :: cs⟩ = c :: subFrom r replace (n + 1) false ⟨c :: before, cs⟩ := by
  rw [subFrom, subFrom, searchNext, h, searchNext_false]
  dsimp only
  cases hs : searchFrom r (c :: before) cs with
  | none => rfl
  | some found =>
    obtain ⟨l, hl⟩ := before_of_searchFrom hs
    have hlen : l.length + (before.length + 1) - before.length = l.length + 1 := by omega
    have hb : between ⟨before, c :: cs⟩ found.1 = c :: between ⟨c :: before, cs⟩ found.1 := by
      simp [between, hl, hlen, List.take_append, List.take_of_length_le]
    simp only [hb, List.cons_append]

theorem subFrom_match {p : Place} {m : Found} (h : firstFrom r advance p = some m) :
    subFrom r replace (n + 1) advance p =
      replace m.2 ++ subFrom r replace n (m.1.after.length = p.after.length) m.1 := by
  obtain ⟨before, text⟩ := p
  have hs : searchNext r advance before text = some (⟨before, text⟩, m) := by
    cases text with
    | nil => rw [searchNext, h, Option.map_some]
    | cons c cs => rw [searchNext, h]
  rw [subFrom, hs]
  simp only [between_self, List.nil_append]

end

end Regex

end Lib

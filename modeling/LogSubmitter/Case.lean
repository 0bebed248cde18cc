import LogSubmitter.Lib.Regex
import Mathlib
/-!
# Camel case and snake case

The daemon names the objects of its helpers in camel case, and the client makes
names of helpers from those of the objects. One way is a substitution, the other a
loop that looks back over what it has made and one character ahead.
-/
namespace LogSubmitter.Case

open Lib

abbrev Text := List Char

/-- What Python knows of the characters of all scripts. -/
structure Unicode where
  isAlpha : Char → Bool
  isLower : Char → Bool
  isNumeric : Char → Bool
  isDigit : Char → Bool
  lower : Text → Text
  isAlpha_ascii : ∀ c, c.toNat < 128 → isAlpha c = c.isAlpha
  isLower_ascii : ∀ c, c.toNat < 128 → isLower c = c.isLower
  isNumeric_ascii : ∀ c, c.toNat < 128 → isNumeric c = c.isDigit
  isDigit_ascii : ∀ c, c.toNat < 128 → isDigit c = c.isDigit
  isNumeric_of_isDigit : ∀ c, isDigit c = true → isNumeric c = true
  isAlpha_of_isDigit : ∀ c, isDigit c = true → isAlpha c = false
  /-- Only those of ASCII change. -/
  lower_eq : ∀ text, (∀ c ∈ text, c.toNat < 128 ∨ isLower c = true ∨ isDigit c = true) →
    lower text = text.map Char.toLower

/-! ## The code -/

section
open Regex

/-- `(^|_)([a-z])?` -/
def wordStart : Regex := seq (group "1" (alt start (char (· == '_')))) (Regex.optional (group "2" (char Char.isLower)))

end

/-- `replace`, which has letters of ASCII only to make upper case. -/
def replace (groups : Regex.Groups) : Text :=
  match groups.lookup "2" with
  | some letter => letter.map Char.toUpper
  | none => []

def camelCase (text : Text) : Text := Regex.sub wordStart replace text

variable (u : Unicode)

/-- What the loop puts before a character that is neither lower case nor a number. The last of
`snaked` goes first, and `rest` is what follows the character. -/
def separate (rest snaked : Text) : Text :=
  let snaked :=
    match snaked.find? u.isAlpha with
    | some letter => if u.isLower letter then '_' :: snaked else snaked
    | none => snaked
  if snaked.head?.any u.isAlpha && rest.head?.any u.isLower then '_' :: snaked else snaked

/-- The body of the loop, at index `i`. -/
def snakeChar (i : Nat) (char : Char) (rest snaked : Text) : Text :=
  if u.isNumeric char || u.isLower char then char :: snaked
  else char :: (if i ≠ 0 then separate u rest snaked else snaked)

/-- The loop from index `i` on. -/
def snakeFrom : Nat → Text → Text → Text
  | _, [], snaked => snaked
  | i, char :: rest, snaked => snakeFrom (i + 1) rest (snakeChar u i char rest snaked)

def snakeCase (text : Text) : Text := u.lower (snakeFrom u 0 text []).reverse

/-- Where all characters are ASCII. -/
def ascii : Unicode where
  isAlpha := Char.isAlpha
  isLower := Char.isLower
  isNumeric := Char.isDigit
  isDigit := Char.isDigit
  lower text := text.map Char.toLower
  isAlpha_ascii _ _ := rfl
  isLower_ascii _ _ := rfl
  isNumeric_ascii _ _ := rfl
  isDigit_ascii _ _ := rfl
  isNumeric_of_isDigit _ h := h
  isAlpha_of_isDigit c h := by
    simp [Char.isDigit, Char.isAlpha, Char.isUpper, Char.isLower, UInt32.le_iff_toNat_le] at h ⊢
    omega
  lower_eq _ _ := rfl

example : camelCase "_ab__c_2d".toList = "AbC2d".toList ∧ snakeCase ascii "aBCa2A".toList = "a_b_ca2_a".toList := by
  decide +kernel

/-! ## Names -/

/-- A part of a name. -/
structure Segment where
  first : Char
  second : Char
  rest : Text
  first_lower : first.isLower = true
  second_lower : second.isLower = true
  rest_lower : ∀ c ∈ rest, u.isLower c = true ∨ u.isDigit c = true

/-- Parts with `_` between them. -/
structure Name where
  segments : List (Segment u)
  nonempty : segments ≠ []

variable {u}

def Segment.text (s : Segment u) : Text := s.first :: s.second :: s.rest

def Name.text (n : Name u) : Text := ['_'].intercalate (n.segments.map Segment.text)

/-! ## Camel case -/

/-- The text without `_`, and each letter of ASCII that starts a word in upper case. The flag tells
whether the text does. -/
def capitals : Bool → Text → Text
  | _, [] => []
  | start, c :: cs =>
    if start && c.isLower then c.toUpper :: capitals false cs
    else if c = '_' then capitals true cs
    else c :: capitals false cs

theorem capitals_true_of_not_lower {text : Text} (h : text.head?.any Char.isLower = false) :
    capitals true text = capitals false text := by
  cases text with
  | nil => rfl
  | cons c cs =>
    have hc : c.isLower = false := by simpa using h
    rw [capitals, capitals, hc]
    rfl

section
open Regex

/-- What `([a-z])?` finds: the letter, if there is one, and then nothing. -/
theorem run_letter (p : Place) : run (Regex.optional (group "2" (char Char.isLower))) p =
    (match p.after with
      | [] => []
      | c :: cs => if c.isLower then [(⟨c :: p.before, cs⟩, [("2", [c])])] else []) ++ [(p, [])] := by
  obtain ⟨before, text⟩ := p
  cases text with
  | nil => simp [Regex.optional, run, repeated]
  | cons c cs =>
    by_cases hc : c.isLower = true
    · simp [Regex.optional, run, repeated, hc, between]
    · simp [Regex.optional, run, repeated, hc]

/-- The match that begins with `word`, which the first group has: the letter at `p`, if there is one. -/
def wordAt (word : Text) (p : Place) : Found :=
  match p.after with
  | [] => (p, [("1", word)])
  | c :: cs => if c.isLower then (⟨c :: p.before, cs⟩, [("2", [c]), ("1", word)]) else (p, [("1", word)])

/-- All matches that begin with `word`. -/
theorem run_word (word : Text) (p : Place) :
    ∃ rest, ((run (Regex.optional (group "2" (char Char.isLower))) p).map fun m => (m.1, m.2 ++ [("1", word)])) =
      wordAt word p :: rest := by
  obtain ⟨before, text⟩ := p
  rw [run_letter]
  unfold wordAt
  cases text with
  | nil => exact ⟨_, rfl⟩
  | cons c cs =>
    by_cases hc : c.isLower = true
    · exact ⟨_, by simp [hc]; rfl⟩
    · exact ⟨_, by simp [hc]; rfl⟩

theorem first_start (text : Text) : firstFrom wordStart false ⟨[], text⟩ = some (wordAt [] ⟨[], text⟩) := by
  obtain ⟨rest, hrest⟩ := run_word [] ⟨[], text⟩
  simp [firstFrom, wordStart, run, hrest, between]

/-- No word starts here, unless there is a `_`. -/
def Inside (advance : Bool) (before text : Text) : Prop :=
  before ≠ [] ∨ advance = true ∧ text.head?.any Char.isLower = false

theorem first_underscore {advance : Bool} {before cs : Text} (hi : Inside advance before ('_' :: cs)) :
    firstFrom wordStart advance ⟨before, '_' :: cs⟩ = some (wordAt ['_'] ⟨'_' :: before, cs⟩) := by
  obtain ⟨rest, hrest⟩ := run_word ['_'] ⟨'_' :: before, cs⟩
  have hle : (wordAt ['_'] ⟨'_' :: before, cs⟩).1.after.length ≤ cs.length := by
    unfold wordAt
    cases cs with
    | nil => simp
    | cons c cs => by_cases hc : c.isLower = true <;> simp [hc]
  have hu : '_'.isLower = false := by decide
  by_cases hb : before = []
  · obtain ⟨hadvance, -⟩ := hi.resolve_left (not_not.2 hb)
    subst hb hadvance
    have hstart : run (Regex.optional (group "2" (char Char.isLower))) ⟨[], '_' :: cs⟩ = [(⟨[], '_' :: cs⟩, [])] := by
      simp [run_letter, hu]
    simp [firstFrom, wordStart, run, hstart, hrest, hle, between]
  · simp [firstFrom, wordStart, run, hrest, hle, hb, between]

theorem first_other {advance : Bool} {before text : Text} (hi : Inside advance before text)
    (h : text.head? ≠ some '_') : firstFrom wordStart advance ⟨before, text⟩ = none := by
  cases text with
  | nil =>
    by_cases hb : before = []
    · obtain ⟨hadvance, -⟩ := hi.resolve_left (not_not.2 hb)
      simp [firstFrom, wordStart, run, run_letter, hadvance, hb]
    · simp [firstFrom, wordStart, run, hb]
  | cons c cs =>
    have hc : c ≠ '_' := by simpa using h
    by_cases hb : before = []
    · obtain ⟨hadvance, hlower⟩ := hi.resolve_left (not_not.2 hb)
      have hl : c.isLower = false := by simpa using hlower
      simp [firstFrom, wordStart, run, run_letter, hadvance, hb, hc, hl]
    · simp [firstFrom, wordStart, run, hb, hc]

/-- The rest of the text, where no word starts, is substituted as `capitals` says. -/
def Substituted (n : Nat) (text : Text) : Prop :=
  ∀ advance before, Inside advance before text →
    subFrom wordStart replace n advance ⟨before, text⟩ = capitals false text

/-- A word is substituted if what follows its first letter is. -/
theorem subFrom_wordAt {n : Nat} {word before text : Text} {advance : Bool}
    (hs : ∀ text' : Text, text'.length ≤ text.length → Substituted n text')
    (ha : text.head?.any Char.isLower = false → before ≠ [] ∨ advance = true) :
    replace (wordAt word ⟨before, text⟩).2 ++
      subFrom wordStart replace n advance (wordAt word ⟨before, text⟩).1 = capitals true text := by
  by_cases hl : text.head?.any Char.isLower = false
  · have hword : wordAt word ⟨before, text⟩ = (⟨before, text⟩, [("1", word)]) := by
      cases text with
      | nil => rfl
      | cons c cs =>
        have hc : c.isLower = false := by simpa using hl
        simp [wordAt, hc]
    have hi : Inside advance before text := (ha hl).imp_right fun h => ⟨h, hl⟩
    rw [hword, hs text le_rfl advance before hi, capitals_true_of_not_lower hl]
    rfl
  · cases text with
    | nil => exact absurd rfl hl
    | cons c cs =>
      have hc : c.isLower = true := by simpa using hl
      have hword : wordAt word ⟨before, c :: cs⟩ = (⟨c :: before, cs⟩, [("2", [c]), ("1", word)]) := by
        simp [wordAt, hc]
      have hi : Inside advance (c :: before) cs := .inl (List.cons_ne_nil c before)
      rw [hword, hs cs (by simp) advance _ hi, capitals, hc]
      rfl

theorem substituted {n : Nat} {text : Text} (h : text.length < n) : Substituted n text := by
  induction hk : text.length using Nat.strong_induction_on generalizing text n with
  | _ k ih =>
    obtain ⟨n, rfl⟩ := Nat.exists_eq_add_one_of_ne_zero (Nat.ne_zero_of_lt h)
    intro advance before hi
    cases text with
    | nil => exact subFrom_nil (first_other hi (by simp))
    | cons c cs =>
      rw [List.length_cons] at h hk
      have hshort : ∀ text : Text, text.length ≤ cs.length → Substituted n text := by
        intro text ht
        exact ih text.length (by omega) (by omega) rfl
      by_cases hc : c = '_'
      · subst hc
        have hcapitals : capitals false ('_' :: cs) = capitals true cs := by simp [capitals]
        rw [subFrom_match (first_underscore hi), hcapitals]
        exact subFrom_wordAt hshort fun _ => .inl (List.cons_ne_nil _ _)
      · have hcapitals : capitals false (c :: cs) = c :: capitals false cs := by simp [capitals, hc]
        have hnext : Substituted (n + 1) cs := ih cs.length (by omega) (by omega) rfl
        rw [subFrom_skip (first_other hi (by simpa using hc)), hcapitals]
        rw [hnext false (c :: before) (.inl (List.cons_ne_nil c before))]

/-- What the substitution comes to, for every text. -/
theorem camelCase_eq (text : Text) : camelCase text = capitals true text := by
  have hs : ∀ text' : Text, text'.length ≤ text.length → Substituted (2 * text.length + 1) text' := by
    intro text' h
    exact substituted (by omega)
  unfold camelCase sub
  rw [subFrom_match (first_start text)]
  apply subFrom_wordAt hs
  intro hl
  right
  cases text with
  | nil => rfl
  | cons c cs =>
    have hc : c.isLower = false := by simpa using hl
    simp [wordAt, hc]

end

/-! ## The way there and back -/

/-- A segment in camel case. -/
def Segment.capital (s : Segment u) : Text := s.first.toUpper :: s.second :: s.rest

theorem toNat_of_isLower {c : Char} (h : c.isLower = true) : c.toNat < 128 := by
  simp [Char.isLower, UInt32.le_iff_toNat_le] at h
  omega

theorem toNat_of_isUpper {c : Char} (h : c.isUpper = true) : c.toNat < 128 ∧ c.isDigit = false := by
  simp [Char.isUpper, Char.isDigit, UInt32.le_iff_toNat_le] at h ⊢
  omega

/-- The characters that the loop only takes over. -/
def Plain (u : Unicode) (c : Char) : Prop := u.isLower c = true ∨ u.isDigit c = true

theorem plain_of_isLower {c : Char} (h : c.isLower = true) : Plain u c :=
  .inl ((u.isLower_ascii c (toNat_of_isLower h)).trans h)

theorem Plain.ne_underscore {c : Char} (h : Plain u c) : c ≠ '_' := by
  rintro rfl
  have hl : u.isLower '_' = false := u.isLower_ascii '_' (by decide)
  have hd : u.isDigit '_' = false := u.isDigit_ascii '_' (by decide)
  rcases h with h | h
  · simp [hl] at h
  · simp [hd] at h

theorem Plain.toLower_eq {c : Char} (h : Plain u c) : c.toLower = c := by
  apply Char.toLower_eq_of_not_isUpper
  intro hupper
  obtain ⟨hascii, hdigit⟩ := toNat_of_isUpper hupper
  rcases h with h | h
  · rw [u.isLower_ascii c hascii] at h
    exact Char.not_isLower_of_isUpper hupper h
  · rw [u.isDigit_ascii c hascii, hdigit] at h
    cases h

theorem Segment.plain (s : Segment u) : ∀ c ∈ s.second :: s.rest, Plain u c := by
  intro c hc
  rcases List.mem_cons.1 hc with rfl | hc
  · exact plain_of_isLower s.second_lower
  · exact s.rest_lower c hc

theorem Segment.map_capital (s : Segment u) : s.capital.map Char.toLower = s.text := by
  have hfirst : s.first.toUpper.toLower = s.first := by
    rw [Char.toLower_toUpper_eq_toLower]
    exact (plain_of_isLower (u := u) s.first_lower).toLower_eq
  have hrest : (s.second :: s.rest).map Char.toLower = s.second :: s.rest :=
    (List.map_congr_left fun c hc => (s.plain c hc).toLower_eq).trans (List.map_id _)
  unfold capital text
  rw [List.map_cons, hfirst, hrest]

theorem intercalate_eq (first : Text) (rest : List Text) :
    ['_'].intercalate (first :: rest) = first ++ rest.flatMap ('_' :: ·) := by
  induction rest generalizing first with
  | nil => simp
  | cons next rest ih => rw [List.intercalate_cons_cons, ih, List.flatMap_cons, List.append_assoc]; rfl

/-! ### There -/

theorem capitals_append {l : Text} (h : ∀ c ∈ l, c ≠ '_') (text : Text) :
    capitals false (l ++ text) = l ++ capitals false text := by
  induction l with
  | nil => rfl
  | cons c l ih =>
    rw [List.forall_mem_cons] at h
    rw [List.cons_append, capitals, ih h.2]
    simp [h.1]

theorem capitals_segment (s : Segment u) (text : Text) :
    capitals true (s.text ++ text) = s.capital ++ capitals false text := by
  have happend := capitals_append (fun c hc => (s.plain c hc).ne_underscore) text
  unfold Segment.text Segment.capital
  rw [List.cons_append, capitals, s.first_lower, happend]
  rfl

theorem capitals_segments (segments : List (Segment u)) :
    capitals false ((segments.map Segment.text).flatMap ('_' :: ·)) = segments.flatMap Segment.capital := by
  induction segments with
  | nil => rfl
  | cons s segments ih =>
    have hunderscore : ∀ text, capitals false ('_' :: text) = capitals true text := by simp [capitals]
    rw [List.map_cons, List.flatMap_cons, List.cons_append, hunderscore, capitals_segment, ih, List.flatMap_cons]

theorem camelCase_name (name : Name u) : camelCase name.text = name.segments.flatMap Segment.capital := by
  obtain ⟨segments, hne⟩ := name
  obtain ⟨s, segments, rfl⟩ := List.exists_cons_of_ne_nil hne
  unfold Name.text
  rw [camelCase_eq, List.map_cons, intercalate_eq, capitals_segment, capitals_segments, List.flatMap_cons]

/-! ### Back -/

/-- The last letter of `snaked` is in lower case. -/
def Ready (u : Unicode) (snaked : Text) : Prop :=
  ∃ letter, snaked.find? u.isAlpha = some letter ∧ u.isLower letter = true

theorem snakeFrom_plain {l : Text} (h : ∀ c ∈ l, Plain u c) (i : Nat) (rest snaked : Text) :
    snakeFrom u i (l ++ rest) snaked = snakeFrom u (i + l.length) rest (l.reverse ++ snaked) := by
  induction l generalizing i snaked with
  | nil => rfl
  | cons c l ih =>
    rw [List.forall_mem_cons] at h
    have hc : (u.isNumeric c || u.isLower c) = true := by
      rcases h.1 with hl | hd
      · simp [hl]
      · simp [u.isNumeric_of_isDigit c hd]
    rw [List.cons_append, snakeFrom, snakeChar, if_pos hc, ih h.2, List.length_cons, List.reverse_cons]
    simp [Nat.add_assoc, Nat.add_comm 1]

/-- Digits are no letters, so at the latest the second letter of a segment is found. -/
theorem ready_plain {l : Text} (h : ∀ c ∈ l, Plain u c) {snaked : Text} (hs : Ready u snaked) :
    Ready u (l.reverse ++ snaked) := by
  induction l generalizing snaked with
  | nil => exact hs
  | cons c l ih =>
    rw [List.forall_mem_cons] at h
    rw [List.reverse_cons, List.append_assoc]
    apply ih h.2
    by_cases ha : u.isAlpha c = true
    · have hl : u.isLower c = true := by
        apply h.1.resolve_right
        intro hd
        simp [u.isAlpha_of_isDigit c hd] at ha
      exact ⟨c, by simp [ha], hl⟩
    · obtain ⟨letter, hfind, hl⟩ := hs
      exact ⟨letter, by simp [ha, hfind], hl⟩

theorem ready_segment (s : Segment u) (snaked : Text) : Ready u (s.capital.reverse ++ snaked) := by
  have hascii := toNat_of_isLower s.second_lower
  have hsecond : Ready u (s.second :: s.first.toUpper :: snaked) := by
    refine ⟨s.second, ?_, (u.isLower_ascii _ hascii).trans s.second_lower⟩
    simp [u.isAlpha_ascii _ hascii, Char.isAlpha, s.second_lower]
  have hready := ready_plain s.rest_lower hsecond
  simpa [Segment.capital] using hready

/-- What the loop makes of the first letter of a segment: `_` goes before it, unless it is the first of all. -/
theorem snakeChar_first (s : Segment u) {i : Nat} {snaked : Text} (h : i ≠ 0 → Ready u snaked) (rest : Text) :
    snakeChar u i s.first.toUpper rest snaked = s.first.toUpper :: (if i ≠ 0 then '_' :: snaked else snaked) := by
  have hupper : s.first.toUpper.isUpper = true := by simp [Char.isAlpha, s.first_lower]
  obtain ⟨hascii, hdigit⟩ := toNat_of_isUpper hupper
  have hnumeric : u.isNumeric s.first.toUpper = false := (u.isNumeric_ascii _ hascii).trans hdigit
  have hlower : u.isLower s.first.toUpper = false := by
    rw [u.isLower_ascii _ hascii]
    simp
  have halpha : u.isAlpha '_' = false := u.isAlpha_ascii '_' (by decide)
  unfold snakeChar
  by_cases hi : i = 0
  · simp [hnumeric, hlower, hi]
  · obtain ⟨letter, hfind, hl⟩ := h hi
    simp [hnumeric, hlower, hi, separate, hfind, hl, halpha]

theorem snakeFrom_segment (s : Segment u) {i : Nat} {snaked : Text} (h : i ≠ 0 → Ready u snaked) (rest : Text) :
    snakeFrom u i (s.capital ++ rest) snaked =
      snakeFrom u (i + s.capital.length) rest (s.capital.reverse ++ (if i ≠ 0 then '_' :: snaked else snaked)) := by
  have hplain := snakeFrom_plain s.plain (i + 1) rest (s.first.toUpper :: (if i ≠ 0 then '_' :: snaked else snaked))
  unfold Segment.capital
  rw [List.cons_append, snakeFrom, snakeChar_first s h, hplain]
  simp [Nat.add_assoc, Nat.add_comm 1]

theorem snakeFrom_segments (segments : List (Segment u)) {i : Nat} {snaked : Text} (hi : i ≠ 0) (h : Ready u snaked) :
    snakeFrom u i (segments.flatMap Segment.capital) snaked =
      (segments.flatMap fun s => '_' :: s.capital).reverse ++ snaked := by
  induction segments generalizing i snaked with
  | nil => rfl
  | cons s segments ih =>
    have hready := ready_segment s ('_' :: snaked)
    rw [List.flatMap_cons, snakeFrom_segment s (fun _ => h), if_pos hi, ih (by omega) hready]
    simp

theorem snakeFrom_name (name : Name u) :
    (snakeFrom u 0 (camelCase name.text) []).reverse = ['_'].intercalate (name.segments.map Segment.capital) := by
  obtain ⟨segments, hne⟩ := name
  obtain ⟨s, segments, rfl⟩ := List.exists_cons_of_ne_nil hne
  have hlength : 0 + s.capital.length ≠ 0 := by simp [Segment.capital]
  rw [camelCase_name, List.flatMap_cons, snakeFrom_segment s (absurd rfl), snakeFrom_segments segments hlength
    (ready_segment s _), List.map_cons, intercalate_eq]
  simp [List.flatMap_map]

theorem Segment.mem_capital (s : Segment u) {c : Char} (h : c ∈ s.capital) : c.isUpper = true ∨ Plain u c := by
  rcases List.mem_cons.1 h with rfl | h
  · left
    simp [Char.isAlpha, s.first_lower]
  · exact .inr (s.plain c h)

theorem Segment.known (s : Segment u) {c : Char} (h : c ∈ s.capital) :
    c.toNat < 128 ∨ u.isLower c = true ∨ u.isDigit c = true :=
  (s.mem_capital h).imp_left fun hupper => (toNat_of_isUpper hupper).1

/-- Lower case, segment by segment. -/
theorem lower_segments (s : Segment u) (segments : List (Segment u)) :
    u.lower (['_'].intercalate ((s :: segments).map Segment.capital)) =
      ['_'].intercalate ((s :: segments).map Segment.text) := by
  rw [List.map_cons, List.map_cons, intercalate_eq, intercalate_eq, u.lower_eq, List.map_append, s.map_capital]
  · have hmap : ∀ s : Segment u, ('_' :: s.capital).map Char.toLower = '_' :: s.text := by
      intro s
      rw [List.map_cons, s.map_capital]
      rfl
    simp only [List.flatMap_map, List.map_flatMap, hmap]
  · intro c hc
    rcases List.mem_append.1 hc with hc | hc
    · exact s.known hc
    · simp only [List.flatMap_map, List.mem_flatMap, List.mem_cons] at hc
      obtain ⟨s, _, rfl | hc⟩ := hc
      · exact .inl (by decide)
      · exact s.known hc

/-- The name is found again in its camel case. -/
theorem snakeCase_camelCase (name : Name u) : snakeCase u (camelCase name.text) = name.text := by
  unfold snakeCase
  rw [snakeFrom_name]
  obtain ⟨segments, hne⟩ := name
  obtain ⟨s, segments, rfl⟩ := List.exists_cons_of_ne_nil hne
  exact lower_segments s segments

/-- The characters of an object path, between slashes. -/
theorem slash_notMem_camelCase (name : Name u) : '/' ∉ camelCase name.text := by
  rw [camelCase_name]
  intro h
  obtain ⟨s, _, hc⟩ := List.mem_flatMap.1 h
  have hl : u.isLower '/' = false := u.isLower_ascii '/' (by decide)
  have hd : u.isDigit '/' = false := u.isDigit_ascii '/' (by decide)
  rcases s.mem_capital hc with hupper | hlower | hdigit
  · exact absurd hupper (by decide)
  · simp [hl] at hlower
  · simp [hd] at hdigit

theorem camelCase_ne_nil (name : Name u) : camelCase name.text ≠ [] := by
  rw [camelCase_name]
  obtain ⟨segments, hne⟩ := name
  obtain ⟨s, segments, rfl⟩ := List.exists_cons_of_ne_nil hne
  simp [Segment.capital]

end LogSubmitter.Case

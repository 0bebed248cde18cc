import LogSubmitter.Lib.Dict
import LogSubmitter.Lib.Words
import Mathlib.Data.List.DropRight
/-!
# Files of sections and options

What `configparser` writes and reads: names of sections in brackets, options with a delimiter, and
values that go on in lines that are indented. The reader goes through the lines, and knows the
section and the option it is in.
-/
namespace Lib.Ini

abbrev Text := List Char

/-- White space, the form in which names of options are kept, and the section of the defaults. -/
structure Dialect where
  space : Char → Bool
  optionxform : String → String
  defaultSection : String
  blank : ∀ c ∈ [' ', '\t', '\n'], space c = true
  solid : ∀ c ∈ ['[', ']', '=', ':'], space c = false

/-- Sections with their options. Those of the defaults are kept under the name of their section. -/
abbrev Doc := Dict String (Dict String String)

variable (d : Dialect)

/-! ## Lines -/

/-- The lines of a file in text mode, after the start of one: a line ends with LF, with CR, or with both. -/
def linesFrom (start : Text) : Text → List Text
  | [] => if start = [] then [] else [start]
  | '\r' :: '\n' :: text => start :: linesFrom [] text
  | '\r' :: text => start :: linesFrom [] text
  | '\n' :: text => start :: linesFrom [] text
  | c :: text => linesFrom (start ++ [c]) text

def lines (text : Text) : List Text := linesFrom [] text

def unlines (ls : List Text) : Text := ls.flatMap (· ++ ['\n'])

def rstrip (text : Text) : Text := text.rdropWhile d.space

def strip (text : Text) : Text := rstrip d (text.dropWhile d.space)

/-! ## Writing -/

/-- `key = value`, where the lines of the value that follow are indented. -/
def optionLines (o : String × String) : List Text :=
  match o.2.toList.splitOn '\n' with
  | [] => [o.1.toList ++ [' ', '=', ' ']]
  | first :: rest => (o.1.toList ++ ' ' :: '=' :: ' ' :: first) :: rest.map ('\t' :: ·)

def sectionLines (s : String × Dict String String) : List Text :=
  ('[' :: (s.1.toList ++ [']'])) :: s.2.items.flatMap optionLines ++ [[]]

/-- The text of the sections. The defaults come first, if there are any. -/
def print (doc : Doc) : Text :=
  let defaults := doc.items.filter fun s => s.1 = d.defaultSection ∧ s.2.items ≠ []
  unlines ((defaults ++ doc.items.filter fun s => s.1 ≠ d.defaultSection).flatMap sectionLines)

/-! ## Reading -/

/-- Where the reader is. The values are still lines. -/
structure Reader where
  sections : Dict String (Dict String (List Text))
  place : Option String
  option : Option String
  indent : Nat
  failed : Bool

/-- `\[(.+)\]`, at the start of a line. -/
def header : Text → Option String
  | '[' :: rest =>
    match rest.reverse.dropWhile (· ≠ ']') with
    | _ :: c :: before => some (String.ofList (c :: before).reverse)
    | _ => none
  | _ => none

def isDelimiter (c : Char) : Bool := c = '=' || c = ':'

/-- The name before the first delimiter, and what comes after it. -/
def optionLine (value : Text) : Option (Text × Text) :=
  match value.dropWhile fun c => !isDelimiter c with
  | [] => none
  | _ :: rest => some (rstrip d (value.takeWhile fun c => !isDelimiter c), strip d rest)

def isComment : Text → Bool
  | '#' :: _ => true
  | ';' :: _ => true
  | _ => false

namespace Reader

def options (r : Reader) (name : String) : Dict String (List Text) := (r.sections.get? name).getD .empty

def put (r : Reader) (name key : String) (ls : List Text) : Reader :=
  { r with sections := r.sections.insert name ((r.options name).insert key ls) }

/-- The value of the option goes on. -/
def append (r : Reader) (line : Text) : Reader :=
  match r.place, r.option with
  | some name, some key => r.put name key (((r.options name).get? key).getD [] ++ [line])
  | _, _ => r

/-- Only the defaults may come again. -/
def openSection (r : Reader) (name : String) : Option Reader :=
  match r.sections.get? name with
  | none => some { r with sections := r.sections.insert name .empty, place := some name, option := none }
  | some _ => if name = d.defaultSection then some { r with place := some name, option := none } else none

def openOption (r : Reader) (name : String) (key value : Text) : Option Reader :=
  let key' := d.optionxform (String.ofList key)
  if ((r.options name).get? key').isSome then none
  else some { r.put name key' [value] with option := some key', failed := r.failed || key = [] }

/-- A line that does not go on with a value. One that has no delimiter is an error, which is raised in the end. -/
def start (r : Reader) (value : Text) : Option Reader :=
  match header value with
  | some name => r.openSection d name
  | none =>
    match r.place, optionLine d value with
    | none, _ => none
    | some _, none => some { r with failed := true }
    | some name, some (key, text) => r.openOption d name key text

/-- One line, without what ends it. -/
def next (r : Reader) (line : Text) : Option Reader :=
  let value := strip d line
  if isComment value then some r
  else if value = [] then some (r.append [])
  else
    let indent := (line.takeWhile d.space).length
    if r.place.isSome && r.option.isSome && r.indent < indent then some (r.append value)
    else start d { r with indent := indent } value

end Reader

/-- The value whose lines these are. -/
def join (ls : List Text) : String := String.ofList (rstrip d (['\n'].intercalate ls))

def Reader.doc (r : Reader) : Doc := r.sections.map fun options => options.map (join d)

def fresh : Reader := { sections := .empty, place := none, option := none, indent := 0, failed := false }

/-- What a text says, if it can be read. -/
def parse (text : Text) : Option Doc :=
  ((lines text).foldlM (Reader.next d) fresh).bind fun r => if r.failed then none else some (r.doc d)

/-! ## White space -/

section
variable {d}

theorem space_of_blank {c : Char} (h : c ∈ [' ', '\t', '\n'] := by simp) : d.space c = true := d.blank c h

theorem rstrip_append_solid {c : Char} (h : d.space c = false) (l r : Text) :
    rstrip d (l ++ c :: r) = l ++ c :: rstrip d r := by
  unfold rstrip List.rdropWhile
  rw [List.reverse_append, List.reverse_cons, List.append_assoc, List.singleton_append,
    Words.dropWhile_append_stop h]
  simp

@[simp] theorem strip_nil : strip d [] = [] := rfl

theorem strip_cons_space {c : Char} (h : d.space c = true) (l : Text) : strip d (c :: l) = strip d l := by
  simp [strip, h]

theorem strip_cons_solid {c : Char} (h : d.space c = false) (l : Text) : strip d (c :: l) = c :: rstrip d l := by
  unfold strip
  rw [List.dropWhile_cons_of_neg (by simp [h])]
  exact rstrip_append_solid h [] l

theorem rstrip_rstrip (l : Text) : rstrip d (rstrip d l) = rstrip d l := List.rdropWhile_idempotent _ _

theorem strip_rstrip (l : Text) : strip d (rstrip d l) = strip d l := by
  induction l with
  | nil => rfl
  | cons c l ih =>
    cases hc : d.space c with
    | false =>
      have hr : rstrip d (c :: l) = c :: rstrip d l := rstrip_append_solid hc [] l
      rw [hr, strip_cons_solid hc, strip_cons_solid hc, rstrip_rstrip]
    | true =>
      rw [strip_cons_space hc, ← ih]
      by_cases hall : ∀ a ∈ l, d.space a = true
      · have hnil : rstrip d l = [] := List.rdropWhile_eq_nil_iff.2 hall
        have hnil' : rstrip d (c :: l) = [] := List.rdropWhile_eq_nil_iff.2 (by simpa [hc] using hall)
        rw [hnil, hnil']
      · obtain ⟨a, ha, hsolid⟩ : ∃ a ∈ l, d.space a = false := by simpa using hall
        obtain ⟨l₁, l₂, rfl⟩ := List.append_of_mem ha
        have hr : rstrip d (c :: (l₁ ++ a :: l₂)) = c :: rstrip d (l₁ ++ a :: l₂) := by
          rw [rstrip_append_solid hsolid, ← List.cons_append, rstrip_append_solid hsolid, List.cons_append]
        rw [hr, strip_cons_space hc]

/-- What is stripped starts and ends with something. -/
theorem strip_cases (l : Text) : strip d l = [] ∨ ∃ c r, strip d l = c :: r ∧ d.space c = false ∧ rstrip d r = r := by
  induction l with
  | nil => exact .inl rfl
  | cons c l ih =>
    cases hc : d.space c with
    | true => rwa [strip_cons_space hc]
    | false => exact .inr ⟨c, rstrip d l, strip_cons_solid hc l, hc, rstrip_rstrip l⟩

theorem strip_strip (l : Text) : strip d (strip d l) = strip d l := by
  rcases strip_cases (d := d) l with h | ⟨c, r, h, hc, hr⟩
  · rw [h, strip_nil]
  · rw [h, strip_cons_solid hc, hr]

/-- A name with nothing to strip. -/
theorem strip_eq_self {l : Text} (h : strip d l = l) (hne : l ≠ []) :
    ∃ c r, l = c :: r ∧ d.space c = false ∧ rstrip d l = l := by
  rcases strip_cases (d := d) l with hn | ⟨c, r, hl, hc, hr⟩
  · exact absurd (h.symm.trans hn) hne
  · rw [h] at hl
    refine ⟨c, r, hl, hc, ?_⟩
    rw [hl]
    exact (rstrip_append_solid hc [] r).trans (by rw [hr]; rfl)

end

/-! ## What is written and read -/

/-- The lines of a value that are read again: all but those that look like comments. -/
def readAgain : List Text → List Text
  | [] => []
  | first :: rest => strip d first :: (rest.map (strip d)).filter fun line => !isComment line

/-- What a value is once it has been written and read. -/
def restored (value : String) : String := join d (readAgain d (value.toList.splitOn '\n'))

/-- No line ends in the text. -/
def OneLine (text : Text) : Prop := '\n' ∉ text ∧ '\r' ∉ text

instance (text : Text) : Decidable (OneLine text) := inferInstanceAs (Decidable (_ ∧ _))

structure IsSection (name : String) : Prop where
  ne_nil : name.toList ≠ []
  oneLine : OneLine name.toList
  notDefault : name ≠ d.defaultSection

/-- The name of an option, which is kept as it is. -/
structure IsKey (key : String) : Prop where
  ne_nil : key.toList ≠ []
  oneLine : OneLine key.toList
  noDelimiter : ∀ c ∈ key.toList, isDelimiter c = false
  start : ∀ c ∈ key.toList.head?, c ∉ ['#', ';', '[']
  stripped : strip d key.toList = key.toList
  kept : d.optionxform key = key

/-- The names can be read. Nothing is asked of the values, but that no CR ends a line in them. -/
structure Printable (doc : Doc) : Prop where
  sections : ∀ s ∈ doc.items, IsSection d s.1
  keys : ∀ s ∈ doc.items, ∀ o ∈ s.2.items, IsKey d o.1
  values : ∀ s ∈ doc.items, ∀ o ∈ s.2.items, '\r' ∉ o.2.toList

section
variable {d}

theorem printable_empty : Printable d .empty :=
  ⟨fun _ h => absurd h List.not_mem_nil, fun _ h => absurd h List.not_mem_nil, fun _ h => absurd h List.not_mem_nil⟩

theorem Printable.insert {doc : Doc} (h : Printable d doc) {name : String} (hn : IsSection d name)
    {opts : Dict String String} (ho : ∀ o ∈ opts.items, IsKey d o.1 ∧ '\r' ∉ o.2.toList) :
    Printable d (Dict.insert doc name opts) where
  sections s hs := by
    rcases Dict.mem_items_insert hs with rfl | hs
    · exact hn
    · exact h.sections s hs
  keys s hs := by
    rcases Dict.mem_items_insert hs with rfl | hs
    · exact fun o hm => (ho o hm).1
    · exact h.keys s hs
  values s hs := by
    rcases Dict.mem_items_insert hs with rfl | hs
    · exact fun o hm => (ho o hm).2
    · exact h.values s hs

/-- The options of a section of what can be printed. -/
theorem Printable.options {doc : Doc} (h : Printable d doc) (name : String) :
    ∀ o ∈ ((doc.get? name).getD .empty).items, IsKey d o.1 ∧ '\r' ∉ o.2.toList := by
  cases hg : doc.get? name with
  | none => exact fun o hm => absurd hm List.not_mem_nil
  | some opts =>
    have hs := Dict.get?_eq_some.1 hg
    exact fun o hm => ⟨h.keys _ hs o hm, h.values _ hs o hm⟩

theorem lines_unlines {ls : List Text} (h : ∀ l ∈ ls, OneLine l) : lines (unlines ls) = ls := by
  have hline : ∀ l : Text, OneLine l → ∀ start rest, linesFrom start (l ++ '\n' :: rest) =
      (start ++ l) :: linesFrom [] rest := by
    intro l hl
    induction l with
    | nil =>
      intro start rest
      rw [List.append_nil]
      rfl
    | cons c l ih =>
      obtain ⟨hn, hr⟩ := hl
      simp only [List.mem_cons, not_or] at hn hr
      intro start rest
      rw [List.cons_append, linesFrom, ih ⟨hn.2, hr.2⟩, List.append_assoc, List.singleton_append]
      · exact fun _ hc _ => hr.1 hc.symm
      · exact fun hc => hr.1 hc.symm
      · exact fun hc => hn.1 hc.symm
  unfold lines
  induction ls with
  | nil => rfl
  | cons l ls ih =>
    rw [unlines, List.flatMap_cons, List.append_assoc, List.singleton_append, hline l (h l List.mem_cons_self),
      List.nil_append]
    exact congrArg _ (ih fun l' hl => h l' (List.mem_cons_of_mem _ hl))

/-! ### Options -/

theorem Reader.doc_put (r : Reader) (name key : String) (ls : List Text) :
    (r.put name key ls).doc d = (r.doc d).insert name ((((r.doc d).get? name).getD .empty).insert key (join d ls)) := by
  unfold put doc options
  simp only [Dict.map_insert, Dict.get?_map]
  cases r.sections.get? name <;> rfl

theorem intercalate_concat (sep last : Text) {ls : List Text} (h : ls ≠ []) :
    sep.intercalate (ls ++ [last]) = sep.intercalate ls ++ (sep ++ last) := by
  induction ls with
  | nil => exact absurd rfl h
  | cons l ls ih =>
    by_cases hls : ls = []
    · subst hls
      simp [List.intercalate_cons_cons]
    · rw [List.cons_append, List.intercalate_cons_of_ne_nil (by simp), ih hls, List.intercalate_cons_of_ne_nil hls]
      simp only [List.append_assoc]

/-- A blank line at the end of a value does not count. -/
theorem join_append_blank (ls : List Text) : join d (ls ++ [[]]) = join d ls := by
  by_cases hls : ls = []
  · subst hls
    rfl
  · have hstrip : rstrip d (['\n'].intercalate ls ++ ['\n']) = rstrip d (['\n'].intercalate ls) :=
      List.rdropWhile_concat_pos _ _ _ space_of_blank
    unfold join
    rw [intercalate_concat _ _ hls, List.append_nil, hstrip]

/-! ### Names of options -/

namespace IsKey

variable {key : String} (hk : IsKey d key) {rest first : Text}

include hk

theorem exists_cons : ∃ c k, key.toList = c :: k ∧ d.space c = false ∧ rstrip d key.toList = key.toList ∧
    c ≠ '#' ∧ c ≠ ';' ∧ c ≠ '[' := by
  obtain ⟨c, k, hc, hsolid, hr⟩ := strip_eq_self hk.stripped hk.ne_nil
  have hstart : c ∉ ['#', ';', '['] := hk.start c (by simp [hc])
  simp only [List.mem_cons, List.not_mem_nil, or_false, not_or] at hstart
  exact ⟨c, k, hc, hsolid, hr, hstart⟩

theorem strip_line : strip d (key.toList ++ ' ' :: '=' :: rest) = key.toList ++ ' ' :: '=' :: rstrip d rest := by
  obtain ⟨c, k, hc, hsolid, -⟩ := hk.exists_cons
  have heq : d.space '=' = false := d.solid _ (by simp)
  have hr := rstrip_append_solid heq (k ++ [' ']) rest
  rw [hc, List.cons_append, strip_cons_solid hsolid]
  simpa using hr

theorem not_comment : isComment (key.toList ++ rest) = false := by
  obtain ⟨c, k, hc, -, -, hhash, hsemicolon, -⟩ := hk.exists_cons
  rw [hc, List.cons_append]
  unfold isComment
  split
  · next heq => exact absurd (List.cons.inj heq).1 hhash
  · next heq => exact absurd (List.cons.inj heq).1 hsemicolon
  · rfl

theorem not_header : header (key.toList ++ rest) = none := by
  obtain ⟨c, k, hc, -, -, -, -, hbracket⟩ := hk.exists_cons
  rw [hc, List.cons_append]
  unfold header
  split
  · next heq => exact absurd (List.cons.inj heq).1 hbracket
  · rfl

theorem not_indented : (key.toList ++ rest).takeWhile d.space = [] := by
  obtain ⟨c, k, hc, hsolid, -⟩ := hk.exists_cons
  rw [hc, List.cons_append, List.takeWhile_cons_of_neg (by simp [hsolid])]

theorem optionLine_eq : optionLine d (key.toList ++ ' ' :: '=' :: rstrip d (' ' :: first)) =
    some (key.toList, strip d first) := by
  obtain ⟨-, -, -, -, hr, -⟩ := hk.exists_cons
  have hspace : d.space ' ' = true := space_of_blank
  have hnot : ∀ a ∈ key.toList ++ [' '], (!isDelimiter a) = true := by
    intro a ha
    rcases List.mem_append.1 ha with ha | ha
    · simp [hk.noDelimiter a ha]
    · rw [List.mem_singleton.1 ha]
      rfl
  have hname : rstrip d (key.toList ++ [' ']) = key.toList := by
    refine Eq.trans ?_ hr
    exact List.rdropWhile_concat_pos _ _ _ hspace
  have hcons : key.toList ++ ' ' :: '=' :: rstrip d (' ' :: first) =
      (key.toList ++ [' ']) ++ '=' :: rstrip d (' ' :: first) := by simp
  unfold optionLine
  rw [hcons, List.dropWhile_append_of_pos hnot, List.takeWhile_append_of_pos hnot]
  simp [isDelimiter, hname, strip_rstrip, strip_cons_space hspace]

end IsKey

/-! ### One line -/

namespace Reader

variable {r : Reader} {name key : String}

/-- The reader is in an option whose line is not indented. -/
def inOption (r : Reader) (key : String) : Reader := { r with option := some key, indent := 0 }

theorem append_put (hp : r.place = some name) (ho : r.option = some key) (ls : List Text) (line : Text) :
    (r.put name key ls).append line = r.put name key (ls ++ [line]) := by
  have hget : ((r.put name key ls).options name).get? key = some ls := by
    simp [put, options]
  unfold append
  simp only [show (r.put name key ls).place = some name from hp, show (r.put name key ls).option = some key from ho,
    hget, Option.getD_some]
  simp [put, options, Dict.insert_insert]

/-- The option the reader is in, if any, is in its section. -/
def Settled (r : Reader) : Prop :=
  ∀ key ∈ r.option, ∃ name ∈ r.place, ((r.options name).get? key).isSome

/-- A blank line changes no value. -/
theorem doc_append_blank (h : r.Settled) : (r.append []).doc d = r.doc d := by
  unfold append
  cases ho : r.option with
  | none => cases r.place <;> rfl
  | some key =>
    obtain ⟨name, hp, hsome⟩ := h key ho
    obtain ⟨ls, hls⟩ := Option.isSome_iff_exists.1 hsome
    rw [hp]
    dsimp only
    rw [doc_put, hls, Option.getD_some, join_append_blank]
    -- It has the value that is put there.
    cases hn : r.sections.get? name with
    | none =>
      simp [options, hn] at hls
    | some opts =>
      have hopts : (r.doc d).get? name = some (opts.map (join d)) := by
        unfold doc
        rw [Dict.get?_map, hn]
        rfl
      have hkey : (opts.map (join d)).get? key = some (join d ls) := by
        rw [Dict.get?_map]
        simp only [options, hn, Option.getD_some] at hls
        rw [hls]
        rfl
      rw [hopts, Option.getD_some, Dict.insert_of_get? hkey, Dict.insert_of_get? hopts]

/-- The line of an option that is new in its section. -/
theorem next_first (hp : r.place = some name) (hk : IsKey d key) (hnew : (r.options name).get? key = none)
    (first : Text) : r.next d (key.toList ++ ' ' :: '=' :: ' ' :: first) =
      some ((r.inOption key).put name key [strip d first]) := by
  have hempty : key.toList ++ ' ' :: '=' :: rstrip d (' ' :: first) ≠ [] := by simp
  unfold next
  simp only [hk.strip_line, hk.not_comment, hempty, hk.not_indented, List.length_nil, Nat.not_lt_zero, decide_false,
    Bool.and_false, if_false, Bool.false_eq_true]
  unfold start
  simp only [hk.not_header, hp, hk.optionLine_eq]
  unfold openOption
  rw [String.ofList_toList, hk.kept]
  have hnone : ¬((r.options name).get? key).isSome = true := by simp [hnew]
  refine (if_neg hnone).trans ?_
  simp [hk.ne_nil, put, options, inOption, hp]

/-- A line of a value that goes on. -/
theorem next_rest (hp : r.place = some name) (ho : r.option = some key) (hi : r.indent = 0) (ls : List Text)
    (line : Text) : (r.put name key ls).next d ('\t' :: line) =
      some (r.put name key (ls ++ [strip d line].filter fun line => !isComment line)) := by
  have htab : d.space '\t' = true := space_of_blank
  unfold next
  simp only [strip_cons_space htab]
  cases hcomment : isComment (strip d line) with
  | true => simp [hcomment]
  | false =>
    have hindent : (r.put name key ls).indent < (('\t' :: line).takeWhile d.space).length := by
      rw [List.takeWhile_cons_of_pos htab, show (r.put name key ls).indent = 0 from hi]
      simp
    have hin : ((r.put name key ls).place.isSome && (r.put name key ls).option.isSome &&
        decide ((r.put name key ls).indent < (('\t' :: line).takeWhile d.space).length)) = true := by
      rw [show (r.put name key ls).place = some name from hp, show (r.put name key ls).option = some key from ho]
      simpa using hindent
    by_cases hempty : strip d line = []
    · simp [hempty, append_put hp ho, isComment]
    · simp [hcomment, hempty, hin, append_put hp ho]

/-- The lines of one option. -/
theorem reads_option (hp : r.place = some name) (hk : IsKey d key) (hnew : (r.options name).get? key = none)
    (value : String) : (optionLines (key, value)).foldlM (next d) r =
      some ((r.inOption key).put name key (readAgain d (value.toList.splitOn '\n'))) := by
  have hrest : ∀ (rest ls : List Text),
      (rest.map ('\t' :: ·)).foldlM (next d) ((r.inOption key).put name key ls) =
        some ((r.inOption key).put name key
          (ls ++ (rest.map (strip d)).filter fun line => !isComment line)) := by
    intro rest
    induction rest with
    | nil =>
      intro ls
      rw [List.map_nil, List.map_nil, List.filter_nil, List.append_nil]
      rfl
    | cons line rest ih =>
      intro ls
      rw [List.map_cons, List.foldlM_cons, next_rest (r := r.inOption key) hp rfl rfl, Option.bind_eq_bind,
        Option.bind_some, ih,
        List.append_assoc, ← List.filter_append, List.map_cons, List.singleton_append]
  unfold optionLines readAgain
  dsimp only
  cases hsplit : value.toList.splitOn '\n' with
  | nil => exact absurd hsplit (List.splitOn_ne_nil _ _)
  | cons first rest =>
    dsimp only
    rw [List.foldlM_cons, next_first hp hk hnew, Option.bind_eq_bind, Option.bind_some, hrest]
    rfl

theorem options_put_self (r : Reader) (name key : String) (ls : List Text) :
    (r.put name key ls).options name = (r.options name).insert key ls := by
  simp [put, options]

/-- The lines of the options of a section, all of them new. -/
theorem reads_options {items : List (String × String)} (hkeys : ∀ o ∈ items, IsKey d o.1) (hp : r.place = some name)
    (hs : r.Settled) (hnew : ((r.options name).keys ++ items.map Prod.fst).Nodup) {opts : Dict String String}
    (hopts : (r.doc d).get? name = some opts) :
    ∃ r', (items.flatMap optionLines).foldlM (next d) r = some r' ∧ r'.place = some name ∧ r'.failed = r.failed ∧
      r'.Settled ∧
        r'.doc d = (r.doc d).insert name (items.foldl (fun os o => os.insert o.1 (restored d o.2)) opts) := by
  induction items generalizing r opts with
  | nil => exact ⟨r, rfl, hp, rfl, hs, (Dict.insert_of_get? hopts).symm⟩
  | cons o items ih =>
    obtain ⟨key, value⟩ := o
    have hnone : (r.options name).get? key = none := by
      rw [Dict.get?_eq_none]
      intro hm
      exact List.disjoint_of_nodup_append hnew hm (by simp)
    let r₁ := (r.inOption key).put name key
      (readAgain d (value.toList.splitOn '\n'))
    have hdoc : r₁.doc d = (r.doc d).insert name (opts.insert key (restored d value)) := by
      refine (doc_put _ _ _ _).trans ?_
      rw [show (r.inOption key).doc d = r.doc d from rfl, hopts, Option.getD_some]
      rfl
    have hnext : ((r₁.options name).keys ++ items.map Prod.fst).Nodup := by
      have hkeys₁ : (r₁.options name).keys = (r.options name).keys ++ [key] := by
        rw [options_put_self]
        exact Dict.keys_insert_of_not_mem (Dict.get?_eq_none.1 hnone) _
      rw [hkeys₁, List.append_assoc]
      exact hnew
    have hs₁ : r₁.Settled := by
      rintro k hk
      cases hk
      refine ⟨name, hp, ?_⟩
      rw [options_put_self]
      simp
    have hopts₁ : (r₁.doc d).get? name = some (opts.insert key (restored d value)) := by
      rw [hdoc, Dict.get?_insert_self]
    obtain ⟨r', hr', hp', hf', hs', hd'⟩ :=
      ih (r := r₁) (fun o ho => hkeys o (List.mem_cons_of_mem _ ho)) hp hs₁ hnext hopts₁
    refine ⟨r', ?_, hp', hf', hs', ?_⟩
    · rw [List.flatMap_cons, List.foldlM_append,
        reads_option hp (hkeys _ List.mem_cons_self) hnone, Option.bind_eq_bind, Option.bind_some]
      exact hr'
    · rw [hd', hdoc, Dict.insert_insert]
      rfl

theorem next_header (hn : IsSection d name) (hnew : r.sections.get? name = none) :
    r.next d ('[' :: (name.toList ++ [']'])) =
      some { r with sections := r.sections.insert name .empty, place := some name, option := none, indent := 0 } := by
  have hopen : d.space '[' = false := d.solid _ (by simp)
  have hclose : d.space ']' = false := d.solid _ (by simp)
  have hstrip : strip d ('[' :: (name.toList ++ [']'])) = '[' :: (name.toList ++ [']']) := by
    rw [strip_cons_solid hopen]
    exact congrArg _ (rstrip_append_solid hclose name.toList [])
  have hheader : header ('[' :: (name.toList ++ [']'])) = some name := by
    obtain ⟨c, before, hrev⟩ : ∃ c before, name.toList.reverse = c :: before :=
      List.exists_cons_of_ne_nil (by simpa using hn.ne_nil)
    have hdrop : (name.toList ++ [']']).reverse.dropWhile (· ≠ ']') = ']' :: c :: before := by
      rw [List.reverse_append, hrev]
      rfl
    simp only [header, hdrop]
    rw [← hrev, List.reverse_reverse, String.ofList_toList]
  have hindent : ('[' :: (name.toList ++ [']'])).takeWhile d.space = [] := by
    rw [List.takeWhile_cons_of_neg (by simp [hopen])]
  have hcomment : isComment ('[' :: (name.toList ++ [']'])) = false := rfl
  unfold next
  simp only [hstrip, hcomment, hindent, List.length_nil, Nat.not_lt_zero, decide_false, Bool.and_false, if_false,
    Bool.false_eq_true, reduceCtorEq]
  unfold start
  simp only [hheader]
  unfold openSection
  simp only [hnew]

/-- The lines of a new section. -/
theorem reads_section {s : String × Dict String String} (hn : IsSection d s.1) (hkeys : ∀ o ∈ s.2.items, IsKey d o.1)
    (hnew : s.1 ∉ (r.doc d).keys) :
    ∃ r', (sectionLines s).foldlM (next d) r = some r' ∧ r'.failed = r.failed ∧
      r'.doc d = (r.doc d).insert s.1 (s.2.mapValues (restored d)) := by
  obtain ⟨name, opts⟩ := s
  have hnone : r.sections.get? name = none := by
    rw [Dict.get?_eq_none]
    unfold doc at hnew
    rwa [Dict.keys_map] at hnew
  let r₁ : Reader :=
    { r with sections := r.sections.insert name .empty, place := some name, option := none, indent := 0 }
  have hdoc : r₁.doc d = (r.doc d).insert name .empty := Dict.map_insert _ _ _ _
  have hempty : r₁.options name = .empty := by
    simp [r₁, options]
  have hopts : (r₁.doc d).get? name = some .empty := by rw [hdoc, Dict.get?_insert_self]
  obtain ⟨r', hr', -, hf', hs', hd'⟩ := reads_options hkeys rfl (fun k hk => (by cases hk))
    (by rw [hempty]; exact opts.nodup) hopts
  refine ⟨r'.append [], ?_, ?_, ?_⟩
  · unfold sectionLines
    rw [List.cons_append, List.foldlM_cons, next_header hn hnone, Option.bind_eq_bind, Option.bind_some,
      List.foldlM_append, hr', Option.bind_eq_bind, Option.bind_some]
    rfl
  · rw [← show r'.failed = r.failed from hf']
    unfold append
    split <;> rfl
  · rw [doc_append_blank hs', hd', hdoc, Dict.insert_insert]
    exact congrArg _ (Dict.foldl_insert_map (restored d) opts)

theorem reads_sections {l : List (String × Dict String String)} (hn : ∀ s ∈ l, IsSection d s.1)
    (hkeys : ∀ s ∈ l, ∀ o ∈ s.2.items, IsKey d o.1) (hnew : ((r.doc d).keys ++ l.map Prod.fst).Nodup) :
    ∃ r', (l.flatMap sectionLines).foldlM (next d) r = some r' ∧ r'.failed = r.failed ∧
      r'.doc d = l.foldl (fun doc s => doc.insert s.1 (s.2.mapValues (restored d))) (r.doc d) := by
  induction l generalizing r with
  | nil => exact ⟨r, rfl, rfl, rfl⟩
  | cons s l ih =>
    have hs : s.1 ∉ (r.doc d).keys := by
      intro hm
      exact List.disjoint_of_nodup_append hnew hm (by simp)
    obtain ⟨r₁, hr₁, hf₁, hd₁⟩ := reads_section (hn s List.mem_cons_self) (hkeys s List.mem_cons_self) hs
    have hnext : ((r₁.doc d).keys ++ l.map Prod.fst).Nodup := by
      rw [hd₁, Dict.keys_insert_of_not_mem hs, List.append_assoc]
      exact hnew
    obtain ⟨r', hr', hf', hd'⟩ := ih (fun s hs => hn s (List.mem_cons_of_mem _ hs))
      (fun s hs => hkeys s (List.mem_cons_of_mem _ hs)) hnext
    refine ⟨r', ?_, hf'.trans hf₁, ?_⟩
    · rw [List.flatMap_cons, List.foldlM_append, hr₁, Option.bind_eq_bind, Option.bind_some, hr']
    · rw [hd', hd₁]
      rfl

end Reader

/-! ## The whole text -/

theorem OneLine.append {l r : Text} (hl : OneLine l) (hr : OneLine r) : OneLine (l ++ r) := by
  simp [OneLine, hl.1, hl.2, hr.1, hr.2]

theorem oneLine_of_mem_optionLines {o : String × String} (hk : OneLine o.1.toList) (hv : '\r' ∉ o.2.toList)
    {line : Text} (h : line ∈ optionLines o) : OneLine line := by
  have hpiece : ∀ l ∈ o.2.toList.splitOn '\n', OneLine l := fun l hl =>
    ⟨(Words.mem_splitOn hl).1, fun hm => hv ((Words.mem_splitOn hl).2 _ hm)⟩
  unfold optionLines at h
  cases hsplit : o.2.toList.splitOn '\n' with
  | nil => exact absurd hsplit (List.splitOn_ne_nil _ _)
  | cons first rest =>
    simp only [hsplit, List.mem_cons, List.mem_map] at h hpiece
    rcases h with rfl | ⟨l, hl, rfl⟩
    · have hfirst : OneLine (' ' :: '=' :: ' ' :: first) := .append (l := [' ', '=', ' ']) (by simp [OneLine])
        (hpiece first (.inl rfl))
      exact hk.append hfirst
    · exact .append (l := ['\t']) (by simp [OneLine]) (hpiece l (.inr hl))

theorem oneLine_of_mem_sectionLines {s : String × Dict String String} (hn : IsSection d s.1)
    (hkeys : ∀ o ∈ s.2.items, IsKey d o.1) (hvalues : ∀ o ∈ s.2.items, '\r' ∉ o.2.toList) {line : Text}
    (h : line ∈ sectionLines s) : OneLine line := by
  simp only [sectionLines, List.cons_append, List.mem_cons, List.mem_append, List.mem_flatMap, List.not_mem_nil,
    or_false] at h
  rcases h with rfl | ⟨o, ho, hl⟩ | rfl
  · exact .append (l := ['[']) (by simp [OneLine]) (hn.oneLine.append (by simp [OneLine]))
  · exact oneLine_of_mem_optionLines (hkeys o ho).oneLine (hvalues o ho) hl
  · simp [OneLine]

/-- What is written can be read, and each option has the value that its lines give. No value makes a section or an
option of its own. -/
theorem parse_print {doc : Doc} (h : Printable d doc) :
    parse d (print d doc) = some (doc.map fun options => options.mapValues (restored d)) := by
  have hprint : print d doc = unlines (doc.items.flatMap sectionLines) := by
    have hdefaults : (doc.items.filter fun s => s.1 = d.defaultSection ∧ s.2.items ≠ []) = [] :=
      List.filter_eq_nil_iff.2 fun s hs hdefault => (h.sections s hs).notDefault (of_decide_eq_true hdefault).1
    have hall : (doc.items.filter fun s => s.1 ≠ d.defaultSection) = doc.items :=
      List.filter_eq_self.2 fun s hs => decide_eq_true (h.sections s hs).notDefault
    simp only [print, hdefaults, hall, List.nil_append]
  have hlines : lines (print d doc) = doc.items.flatMap sectionLines := by
    rw [hprint]
    apply lines_unlines
    intro line hl
    obtain ⟨s, hs, hl⟩ := List.mem_flatMap.1 hl
    exact oneLine_of_mem_sectionLines (h.sections s hs) (h.keys s hs) (h.values s hs) hl
  obtain ⟨r', hr', hf', hd'⟩ := Reader.reads_sections (r := fresh) h.sections h.keys doc.nodup
  unfold parse
  rw [hlines, hr', Option.bind_some, if_neg (by rw [hf']; simp [fresh]), hd']
  exact congrArg some (Dict.foldl_insert_map (fun options => options.mapValues (restored d)) doc)

/-! ## A value that was read -/

theorem mem_of_mem_rstrip {c : Char} {l : Text} (h : c ∈ rstrip d l) : c ∈ l :=
  (List.rdropWhile_prefix _ _).subset h

theorem mem_of_mem_strip {c : Char} {l : Text} (h : c ∈ strip d l) : c ∈ l :=
  (List.dropWhile_suffix _).subset (mem_of_mem_rstrip h)

/-- A line of a value that was read. -/
structure IsValueLine (line : Text) : Prop where
  stripped : strip d line = line
  noNewline : '\n' ∉ line

theorem isValueLine_of_mem_readAgain {value : Text} {line : Text} (h : line ∈ readAgain d (value.splitOn '\n')) :
    IsValueLine (d := d) line := by
  have hstrip : ∀ l ∈ value.splitOn '\n', IsValueLine (d := d) (strip d l) := fun l hl =>
    ⟨strip_strip l, fun hm => (Words.mem_splitOn hl).1 (mem_of_mem_strip hm)⟩
  cases hsplit : value.splitOn '\n' with
  | nil => exact absurd hsplit (List.splitOn_ne_nil _ _)
  | cons first rest =>
    rw [hsplit] at h hstrip
    rcases List.mem_cons.1 h with rfl | h
    · exact hstrip first List.mem_cons_self
    · obtain ⟨l, hl, rfl⟩ := List.mem_map.1 (List.mem_filter.1 h).1
      exact hstrip l (List.mem_cons_of_mem _ hl)

/-- Lines that are stripped and are no comments are read as they are. -/
theorem readAgain_eq_self {first : Text} {rest : List Text} (hstripped : ∀ l ∈ first :: rest, strip d l = l)
    (hcomment : ∀ l ∈ rest, isComment l = false) : readAgain d (first :: rest) = first :: rest := by
  have hmap : rest.map (strip d) = rest := by
    refine (List.map_congr_left fun l hl => ?_).trans (List.map_id rest)
    exact hstripped l (List.mem_cons_of_mem _ hl)
  rw [readAgain, hstripped first List.mem_cons_self, hmap]
  exact congrArg _ (List.filter_eq_self.2 fun l hl => by simp [hcomment l hl])

/-- What is stripped of the end of a value are whole lines. -/
theorem rstrip_intercalate {ls : List Text} (h : ∀ l ∈ ls, IsValueLine (d := d) l) (hne : ls ≠ []) :
    ∃ ms, ms <+: ls ∧ ms ≠ [] ∧ rstrip d (['\n'].intercalate ls) = ['\n'].intercalate ms ∧
      rstrip d (['\n'].intercalate ms) = ['\n'].intercalate ms := by
  induction ls using List.reverseRecOn with
  | nil => exact absurd rfl hne
  | append_singleton ls last ih =>
    by_cases hls : ls = []
    · subst hls
      have hlast : rstrip d last = last := by
        rw [← (h last (by simp)).stripped]
        exact rstrip_rstrip _
      exact ⟨[last], List.prefix_rfl, by simp, by simpa using hlast, by simpa using hlast⟩
    · by_cases hlast : last = []
      · subst hlast
        obtain ⟨ms, hpre, hms, heq, hself⟩ := ih (fun l hl => h l (List.mem_append_left _ hl)) hls
        refine ⟨ms, hpre.trans (List.prefix_append _ _), hms, ?_, hself⟩
        rw [intercalate_concat _ _ hls, List.append_nil, ← heq]
        exact List.rdropWhile_concat_pos _ _ _ space_of_blank
      · obtain ⟨c, r, -, -, hr⟩ := strip_eq_self (h last (by simp)).stripped hlast
        have hsolid : ∀ before, rstrip d (before ++ last) = before ++ last := by
          intro before
          have hlast' := List.rdropWhile_eq_self_iff.1 hr hlast
          refine List.rdropWhile_eq_self_iff.2 fun hne => ?_
          rwa [List.getLast_append_of_ne_nil _ hlast]
        have hself : rstrip d (['\n'].intercalate (ls ++ [last])) = ['\n'].intercalate (ls ++ [last]) := by
          rw [intercalate_concat _ _ hls, ← List.append_assoc, hsolid]
        exact ⟨ls ++ [last], List.prefix_rfl, by simp, hself, hself⟩

theorem readAgain_cases (value : Text) :
    ∃ first rest, readAgain d (value.splitOn '\n') = first :: rest ∧ ∀ l ∈ rest, isComment l = false := by
  cases hsplit : value.splitOn '\n' with
  | nil => exact absurd hsplit (List.splitOn_ne_nil _ _)
  | cons first rest => exact ⟨_, _, rfl, fun l hl => by simpa using (List.mem_filter.1 hl).2⟩

/-- Writing and reading changes no value a second time. -/
theorem restored_restored (value : String) : restored d (restored d value) = restored d value := by
  obtain ⟨first, rest, hls, hcomment⟩ := readAgain_cases (d := d) value.toList
  have hlines : ∀ l ∈ first :: rest, IsValueLine (d := d) l := fun l hl =>
    @isValueLine_of_mem_readAgain d value.toList l (by rw [hls]; exact hl)
  obtain ⟨ms, hpre, hne, heq, hself⟩ := rstrip_intercalate hlines (List.cons_ne_nil _ _)
  have hvalue : restored d value = String.ofList (['\n'].intercalate ms) := by
    rw [restored, hls, join, heq]
  have hms : ∀ l ∈ ms, IsValueLine (d := d) l := fun l hl => hlines l (hpre.subset hl)
  have hread : readAgain d ms = ms := by
    obtain ⟨m, ms, rfl⟩ := List.exists_cons_of_ne_nil hne
    exact readAgain_eq_self (fun l hl => (hms l hl).stripped)
      fun l hl => hcomment l ((List.cons_prefix_cons.1 hpre).2.subset hl)
  rw [hvalue, restored, String.toList_ofList, List.splitOn_intercalate _ (fun l hl => (hms l hl).noNewline) hne, hread,
    join, hself]

/-- A value of one line, with nothing to strip, is read as it is. -/
theorem restored_eq_self {value : String} (hline : '\n' ∉ value.toList) (hstrip : strip d value.toList = value.toList) :
    restored d value = value := by
  have hread : readAgain d [value.toList] = [value.toList] :=
    readAgain_eq_self (by simpa using hstrip) (by simp)
  have hself : rstrip d value.toList = value.toList := by
    rw [← hstrip]
    exact rstrip_rstrip _
  rw [restored, List.splitOn_eq_singleton hline, hread, join, List.intercalate_singleton, hself, String.ofList_toList]

/-- Nothing gets into a value that was not in it. -/
theorem mem_of_mem_restored {c : Char} {value : String} (hc : c ≠ '\n') (h : c ∈ (restored d value).toList) :
    c ∈ value.toList := by
  rw [restored, join, String.toList_ofList] at h
  obtain ⟨l, hl, hm⟩ := (Words.mem_of_mem_intercalate (mem_of_mem_rstrip h)).resolve_left hc
  obtain ⟨line, hline, rfl⟩ : ∃ line ∈ value.toList.splitOn '\n', l = strip d line := by
    cases hsplit : value.toList.splitOn '\n' with
    | nil => exact absurd hsplit (List.splitOn_ne_nil _ _)
    | cons first rest =>
      rw [hsplit] at hl
      rcases List.mem_cons.1 hl with rfl | hl
      · exact ⟨first, List.mem_cons_self, rfl⟩
      · obtain ⟨line, hline, rfl⟩ := List.mem_map.1 (List.mem_filter.1 hl).1
        exact ⟨line, List.mem_cons_of_mem _ hline, rfl⟩
  exact (Words.mem_splitOn hline).2 c (mem_of_mem_strip hm)

/-- What was read can be written again. -/
theorem Printable.map_restored {doc : Doc} (h : Printable d doc) :
    Printable d (doc.map fun options => options.mapValues (restored d)) where
  sections s hs := by
    obtain ⟨t, ht, rfl⟩ := List.mem_map.1 hs
    exact h.sections t ht
  keys s hs o ho := by
    obtain ⟨t, ht, rfl⟩ := List.mem_map.1 hs
    obtain ⟨o', ho', rfl⟩ := List.mem_map.1 ho
    exact h.keys t ht o' ho'
  values s hs o ho := by
    obtain ⟨t, ht, rfl⟩ := List.mem_map.1 hs
    obtain ⟨o', ho', rfl⟩ := List.mem_map.1 ho
    exact fun hm => h.values t ht o' ho' (mem_of_mem_restored (by decide) hm)

theorem map_restored_restored (doc : Doc) :
    ((doc.map fun options => options.mapValues (restored d)).map fun options => options.mapValues (restored d)) =
      doc.map fun options => options.mapValues (restored d) := by
  apply Dict.ext_items
  simp [Dict.map, Dict.mapValues, Function.comp_def, restored_restored]

end

end Lib.Ini

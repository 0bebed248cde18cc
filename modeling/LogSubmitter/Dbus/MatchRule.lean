import LogSubmitter.Lib.Dict
/-!
# Match rules

A match rule is a list of clauses `key=value`. `MatchRule` cuts it at `=` and `,`
where these are not quoted, and compares messages with what it found.
-/
namespace LogSubmitter.Dbus

open Lib

abbrev Text := List Char

/-! ## `_tokenize_string` -/

/-- The variables of the loop. -/
structure Scan where
  buffer : Text
  quoted : Bool
  escaping : Bool
  deriving DecidableEq

/-- What a character does that does not end the loop. -/
def Scan.next (s : Scan) (c : Char) : Scan :=
  if c = '\'' then
    if s.escaping then { s with buffer := s.buffer ++ ['\''], escaping := false }
    else if s.quoted then { s with quoted := false }
    else { s with quoted := true }
  else if c = '\\' then
    if s.escaping then { s with buffer := s.buffer ++ ['\\'], escaping := false }
    else if s.quoted then { s with buffer := s.buffer ++ ['\\'] }
    else { s with escaping := true }
  else { s with buffer := (if s.escaping then s.buffer ++ ['\\'] else s.buffer) ++ [c], escaping := false }

/-- The loop, with `raw[i:]` after it. Where it does not break, `i` is that of the last character. -/
def scan (delimiter : Char) : Scan → Text → Scan × Text
  | s, [] => (s, [])
  | s, [c] => if c = delimiter ∧ s.quoted = false then (s, [c]) else (s.next c, [c])
  | s, c :: d :: raw =>
    if c = delimiter ∧ s.quoted = false then (s, c :: d :: raw) else scan delimiter (s.next c) (d :: raw)

/-- The text in the buffer. A backslash at the end escapes nothing. -/
def Scan.token (s : Scan) : Text := if s.escaping then s.buffer ++ ['\\'] else s.buffer

def tokenizeString (raw : Text) (delimiter : Char) : Text × Text :=
  let r := scan delimiter ⟨[], false, false⟩ raw
  (r.1.token, r.2)

/-! ## `_parse_string` -/

/-- A round of the loop, `none` for a `break`. -/
def parseClause (raw : Text) : Option ((Text × Text) × Text) :=
  match tokenizeString raw '=' with
  | (_, []) => none
  | (key, _ :: raw) =>
    match tokenizeString raw ',' with
    | (_, []) => none
    | (value, _ :: raw) => some ((key, value), raw)

theorem length_scan_le (delimiter : Char) (s : Scan) (raw : Text) : (scan delimiter s raw).2.length ≤ raw.length := by
  induction raw generalizing s with
  | nil => simp [scan]
  | cons c raw ih =>
    cases raw with
    | nil => unfold scan; split <;> simp
    | cons d raw =>
      unfold scan
      split
      · simp
      · exact Nat.le_succ_of_le (ih _)

theorem length_tokenizeString_le (raw : Text) (delimiter : Char) :
    (tokenizeString raw delimiter).2.length ≤ raw.length :=
  length_scan_le delimiter _ raw

theorem length_parseClause_lt {raw rest : Text} {pair : Text × Text} (h : parseClause raw = some (pair, rest)) :
    rest.length < raw.length := by
  have hkey := length_tokenizeString_le raw '='
  unfold parseClause at h
  split at h
  · cases h
  · next key c raw' heq =>
    have hvalue := length_tokenizeString_le raw' ','
    rw [heq] at hkey
    split at h
    · cases h
    · next value d raw'' heq' =>
      cases h
      rw [heq'] at hvalue
      simp only [List.length_cons] at hkey hvalue
      omega

/-- The loop. -/
def parseLoop (kv : Dict Text Text) (raw : Text) : Dict Text Text :=
  if raw = [] then kv
  else
    match _h : parseClause raw with
    | none => kv
    | some (pair, rest) => parseLoop (kv.insert pair.1 pair.2) rest
termination_by raw.length
decreasing_by exact length_parseClause_lt _h

def parseString (raw : Text) : Dict Text Text := parseLoop .empty raw

example : (parseString "a='b,c=d',e='it'\\''s',f=".toList).items =
    [("a".toList, "b,c=d".toList), ("e".toList, "it's".toList)] := by decide +kernel

/-! ## Clauses as they are written -/

inductive Form where
  | bare
  | quoted
  deriving DecidableEq, Repr

/-- A key or a value, as it is written before a delimiter or at the end. -/
structure Piece (delimiter : Char) where
  text : Text
  form : Form
  plain : form = .bare → ∀ c ∈ text, c ≠ '\'' ∧ c ≠ '\\' ∧ c ≠ delimiter

/-- An apostrophe is not quoted, but escaped between two quoted texts. -/
def quoteChar (c : Char) : Text := if c = '\'' then "'\\''".toList else [c]

def quote (text : Text) : Text := '\'' :: (text.flatMap quoteChar ++ ['\''])

def Piece.print {delimiter : Char} (p : Piece delimiter) : Text :=
  match p.form with
  | .bare => p.text
  | .quoted => quote p.text

structure Clause where
  key : Piece '='
  value : Piece ','

def Clause.print (c : Clause) : Text := c.key.print ++ '=' :: c.value.print

def Clause.pair (c : Clause) : Text × Text := (c.key.text, c.value.text)

/-- Nothing is written for the value. -/
def Clause.blank (c : Clause) : Prop := c.value.print = []

instance (c : Clause) : Decidable c.blank := inferInstanceAs (Decidable (c.value.print = []))

/-- Clauses for different keys. -/
structure Rule where
  clauses : List Clause
  nodup : ((clauses.map Clause.pair).map Prod.fst).Nodup

/-- The clauses, joined by commas. -/
def Rule.text (rule : Rule) : Text := [','].intercalate (rule.clauses.map Clause.print)

/-! ## Reading a piece -/

/-- The loop gets over a text without a break. -/
inductive Reads (delimiter : Char) : Scan → Text → Scan → Prop
  | nil (s : Scan) : Reads delimiter s [] s
  | cons {s s' : Scan} {c : Char} {cs : Text} (hc : c ≠ delimiter ∨ s.quoted = true)
      (h : Reads delimiter (s.next c) cs s') : Reads delimiter s (c :: cs) s'

theorem Reads.append {delimiter : Char} {s s' s'' : Scan} {cs ds : Text} (h : Reads delimiter s cs s')
    (h' : Reads delimiter s' ds s'') : Reads delimiter s (cs ++ ds) s'' := by
  induction h with
  | nil s => exact h'
  | cons hc _ ih => exact .cons hc (ih h')

theorem not_breaks {delimiter c : Char} {s : Scan} (hc : c ≠ delimiter ∨ s.quoted = true) :
    ¬ (c = delimiter ∧ s.quoted = false) := by
  rintro ⟨rfl, hq⟩
  rcases hc with h | h
  · exact h rfl
  · rw [hq] at h
    cases h

theorem Reads.scan_append {delimiter : Char} {s s' : Scan} {cs : Text} (h : Reads delimiter s cs s') (c : Char)
    (rest : Text) : scan delimiter s (cs ++ c :: rest) = scan delimiter s' (c :: rest) := by
  induction h with
  | nil s => rfl
  | @cons s s' a cs ha _ ih =>
    cases cs with
    | nil =>
      rw [List.singleton_append, scan, if_neg (not_breaks ha)]
      exact ih
    | cons b cs =>
      rw [List.cons_append, List.cons_append, scan, if_neg (not_breaks ha)]
      exact ih

theorem Reads.scan_end {delimiter : Char} {s s' : Scan} {cs : Text} (h : Reads delimiter s cs s') (hne : cs ≠ []) :
    ∃ c, scan delimiter s cs = (s', [c]) := by
  induction h with
  | nil s => exact absurd rfl hne
  | @cons s s' a cs ha hr ih =>
    cases cs with
    | nil =>
      cases hr
      exact ⟨a, by rw [scan, if_neg (not_breaks ha)]⟩
    | cons b cs =>
      obtain ⟨c, hscan⟩ := ih (List.cons_ne_nil b cs)
      exact ⟨c, by rw [scan, if_neg (not_breaks ha), hscan]⟩

section
variable {delimiter : Char}

theorem reads_bare {text : Text} (h : ∀ c ∈ text, c ≠ '\'' ∧ c ≠ '\\' ∧ c ≠ delimiter) (buffer : Text) :
    Reads delimiter ⟨buffer, false, false⟩ text ⟨buffer ++ text, false, false⟩ := by
  induction text generalizing buffer with
  | nil =>
    rw [List.append_nil]
    exact .nil _
  | cons c text ih =>
    simp only [List.mem_cons, forall_eq_or_imp] at h
    have hnext : Scan.next ⟨buffer, false, false⟩ c = ⟨buffer ++ [c], false, false⟩ := by
      simp [Scan.next, h.1]
    apply Reads.cons (.inl h.1.2.2)
    rw [hnext]
    simpa using ih h.2 (buffer ++ [c])

theorem reads_quoteChar (hd : delimiter ≠ '\'' ∧ delimiter ≠ '\\') (c : Char) (buffer : Text) :
    Reads delimiter ⟨buffer, true, false⟩ (quoteChar c) ⟨buffer ++ [c], true, false⟩ := by
  unfold quoteChar
  split
  · next hc =>
    subst hc
    -- the quotes are closed, the apostrophe is escaped, and they are opened again
    exact .cons (.inr rfl) (.cons (.inl hd.2.symm) (.cons (.inl hd.1.symm) (.cons (.inl hd.1.symm) (.nil _))))
  · next hc =>
    have hnext : Scan.next ⟨buffer, true, false⟩ c = ⟨buffer ++ [c], true, false⟩ := by
      unfold Scan.next
      rw [if_neg hc]
      split
      · next hb => simp [hb]
      · simp
    apply Reads.cons (.inr rfl)
    rw [hnext]
    exact .nil _

theorem reads_quote (hd : delimiter ≠ '\'' ∧ delimiter ≠ '\\') (text : Text) :
    Reads delimiter ⟨[], false, false⟩ (quote text) ⟨text, false, false⟩ := by
  have hbody : ∀ buffer,
      Reads delimiter ⟨buffer, true, false⟩ (text.flatMap quoteChar) ⟨buffer ++ text, true, false⟩ := by
    induction text with
    | nil =>
      intro buffer
      rw [List.append_nil]
      exact .nil _
    | cons c text ih =>
      intro buffer
      rw [List.flatMap_cons]
      apply (reads_quoteChar hd c buffer).append
      simpa using ih (buffer ++ [c])
  exact .cons (.inl hd.1.symm) ((hbody []).append (.cons (.inr rfl) (.nil _)))

theorem Piece.reads (hd : delimiter ≠ '\'' ∧ delimiter ≠ '\\') (p : Piece delimiter) :
    Reads delimiter ⟨[], false, false⟩ p.print ⟨p.text, false, false⟩ := by
  unfold Piece.print
  split
  · next hform => exact reads_bare (p.plain hform) []
  · exact reads_quote hd p.text

/-- Up to the delimiter. -/
theorem tokenizeString_print (hd : delimiter ≠ '\'' ∧ delimiter ≠ '\\') (p : Piece delimiter) (rest : Text) :
    tokenizeString (p.print ++ delimiter :: rest) delimiter = (p.text, delimiter :: rest) := by
  have hstop : scan delimiter ⟨p.text, false, false⟩ (delimiter :: rest) =
      (⟨p.text, false, false⟩, delimiter :: rest) := by
    cases rest <;> simp [scan]
  unfold tokenizeString
  rw [(p.reads hd).scan_append, hstop]
  rfl

/-- At the end, where something is written, the rest is a character of it. -/
theorem tokenizeString_end (hd : delimiter ≠ '\'' ∧ delimiter ≠ '\\') {p : Piece delimiter} (h : p.print ≠ []) :
    ∃ c, tokenizeString p.print delimiter = (p.text, [c]) := by
  obtain ⟨c, hscan⟩ := (p.reads hd).scan_end h
  unfold tokenizeString
  rw [hscan]
  exact ⟨c, rfl⟩

end

/-! ## Reading clauses -/

theorem parseClause_print (c : Clause) (rest : Text) :
    parseClause (c.print ++ ',' :: rest) = some (c.pair, rest) := by
  have hkey := tokenizeString_print (by decide) c.key (c.value.print ++ ',' :: rest)
  have hvalue := tokenizeString_print (by decide) c.value rest
  unfold parseClause Clause.print
  rw [List.append_assoc, List.cons_append, hkey]
  dsimp only
  rw [hvalue]
  rfl

theorem parseClause_last {c : Clause} (h : ¬ c.blank) : parseClause c.print = some (c.pair, []) := by
  have hkey := tokenizeString_print (by decide) c.key c.value.print
  obtain ⟨d, hvalue⟩ := tokenizeString_end (by decide) h
  unfold parseClause Clause.print
  rw [hkey]
  dsimp only
  rw [hvalue]
  rfl

theorem parseClause_blank {c : Clause} (h : c.blank) : parseClause c.print = none := by
  have hkey := tokenizeString_print (by decide) c.key c.value.print
  have hvalue : tokenizeString c.value.print ',' = ([], []) := by
    rw [h]
    rfl
  unfold parseClause Clause.print
  rw [hkey]
  dsimp only
  rw [hvalue]

theorem parseLoop_of_some {kv : Dict Text Text} {raw rest : Text} {pair : Text × Text}
    (h : parseClause raw = some (pair, rest)) : parseLoop kv raw = parseLoop (kv.insert pair.1 pair.2) rest := by
  have hne : raw ≠ [] := by
    rintro rfl
    cases h
  rw [parseLoop, if_neg hne]
  split
  · next hnone => rw [h] at hnone; cases hnone
  · next hsome => rw [h] at hsome; cases hsome; rfl

theorem parseLoop_of_none {kv : Dict Text Text} {raw : Text} (h : parseClause raw = none) : parseLoop kv raw = kv := by
  rw [parseLoop]
  split
  · rfl
  · split
    · rfl
    · next hsome => rw [h] at hsome; cases hsome

/-- The clauses but a blank one at the end. -/
def kept : List Clause → List Clause
  | [] => []
  | [c] => if c.blank then [] else [c]
  | c :: d :: clauses => c :: kept (d :: clauses)

theorem parseLoop_join (kv : Dict Text Text) (clauses : List Clause) :
    parseLoop kv ([','].intercalate (clauses.map Clause.print)) =
      ((kept clauses).map Clause.pair).foldl (fun kv p => kv.insert p.1 p.2) kv := by
  induction clauses generalizing kv with
  | nil =>
    rw [parseLoop]
    rfl
  | cons c clauses ih =>
    cases clauses with
    | nil =>
      rw [List.map_singleton, List.intercalate_singleton]
      by_cases h : c.blank
      · rw [parseLoop_of_none (parseClause_blank h), kept, if_pos h]
        rfl
      · rw [parseLoop_of_some (parseClause_last h), kept, if_neg h, parseLoop]
        rfl
    | cons d clauses =>
      have hjoin : [','].intercalate ((c :: d :: clauses).map Clause.print) =
          c.print ++ ',' :: [','].intercalate ((d :: clauses).map Clause.print) := by
        simp [List.intercalate]
      rw [hjoin, parseLoop_of_some (parseClause_print c _), ih, kept]
      rfl

namespace Rule

variable (rule : Rule)

/-- The blank clause at the end, if there is one. -/
def dropped : Option Clause := rule.clauses.getLast?.filter fun c => c.blank

theorem kept_append_dropped (clauses : List Clause) :
    kept clauses ++ (clauses.getLast?.filter fun c => c.blank).toList = clauses := by
  induction clauses with
  | nil => rfl
  | cons c clauses ih =>
    cases clauses with
    | nil => by_cases h : c.blank <;> simp [kept, h]
    | cons d clauses =>
      rw [kept, List.cons_append, List.getLast?_cons_cons, ih]

/-- What is read of a rule. -/
theorem items_parseString : (parseString rule.text).items = (kept rule.clauses).map Clause.pair := by
  have hn := rule.nodup
  rw [← kept_append_dropped rule.clauses, List.map_append, List.map_append] at hn
  have hn := (List.nodup_append.1 hn).1
  unfold parseString Rule.text
  rw [parseLoop_join, Dict.items_foldl_insert]
  · rfl
  · exact hn

/-- A rule in which something is written for every value is read as its keys and values, in their order. -/
theorem items_parseString_of_not_blank (h : ∀ c ∈ rule.clauses, ¬ c.blank) :
    (parseString rule.text).items = rule.clauses.map Clause.pair := by
  have hlast : rule.clauses.getLast?.filter (fun c => c.blank) = none := by
    cases hlast : rule.clauses.getLast? with
    | none => rfl
    | some c => simp [Option.filter, h c (List.mem_of_getLast? hlast)]
  have hkept := kept_append_dropped rule.clauses
  rw [hlast, Option.toList_none, List.append_nil] at hkept
  rw [rule.items_parseString, hkept]

theorem get?_of_mem {c : Clause} (h : c ∈ rule.clauses) (hc : rule.dropped ≠ some c) :
    (parseString rule.text).get? c.key.text = some c.value.text := by
  rw [← kept_append_dropped rule.clauses] at h
  rcases List.mem_append.1 h with h | h
  · apply Dict.get?_eq_some.2
    rw [rule.items_parseString]
    exact List.mem_map.2 ⟨c, h, rfl⟩
  · exact absurd (Option.mem_toList.1 h) hc

theorem get?_dropped {c : Clause} (h : rule.dropped = some c) : (parseString rule.text).get? c.key.text = none := by
  have hn := rule.nodup
  rw [← kept_append_dropped rule.clauses, show rule.clauses.getLast?.filter _ = some c from h, Option.toList_some,
    List.map_append, List.map_append] at hn
  apply Dict.get?_eq_none.2
  unfold Dict.keys
  rw [rule.items_parseString]
  intro hm
  exact List.disjoint_of_nodup_append hn hm (by simp [Clause.pair])

/-- What is dropped of one order, and missing in the other, is dropped there. -/
theorem dropped_of_get? {rule rule' : Rule} (h : rule.clauses.Perm rule'.clauses)
    (hget : ∀ k, (parseString rule.text).get? k = (parseString rule'.text).get? k) {c : Clause}
    (hc : rule.dropped = some c) : rule'.dropped = some c := by
  have hmem : c ∈ rule'.clauses := h.mem_iff.1 (List.mem_of_getLast? (Option.filter_eq_some_iff.1 hc).1)
  by_contra hne
  have hsome := rule'.get?_of_mem hmem hne
  rw [← hget, rule.get?_dropped hc] at hsome
  cases hsome

/-- Two orders of the clauses give the same values if the same clause is dropped. -/
theorem get?_congr_dropped {rule rule' : Rule} (h : rule.clauses.Perm rule'.clauses)
    (hd : rule.dropped = rule'.dropped) (k : Text) :
    (parseString rule.text).get? k = (parseString rule'.text).get? k := by
  have hkept : (kept rule.clauses).Perm (kept rule'.clauses) := by
    rw [← kept_append_dropped rule.clauses, ← kept_append_dropped rule'.clauses] at h
    unfold dropped at hd
    rw [hd] at h
    exact (List.perm_append_right_iff _).1 h
  apply Dict.get?_congr_perm
  rw [rule.items_parseString, rule'.items_parseString]
  exact hkept.map _

end Rule

/-- Whether a text can be written without quotes. -/
def isPlain (delimiter : Char) (text : Text) : Bool :=
  text.all fun c => c ≠ '\'' && c ≠ '\\' && c ≠ delimiter

def barePiece (delimiter : Char) (text : String) (h : isPlain delimiter text.toList = true) : Piece delimiter where
  text := text.toList
  form := .bare
  plain _ c hc := by simpa [and_assoc] using List.all_eq_true.1 h c hc

def bareClause (key value : String) (hkey : isPlain '=' key.toList = true) (hvalue : isPlain ',' value.toList = true) :
    Clause :=
  ⟨barePiece '=' key hkey, barePiece ',' value hvalue⟩

def quotedClause (key value : String) (hkey : isPlain '=' key.toList = true) : Clause :=
  ⟨barePiece '=' key hkey, ⟨value.toList, .quoted, fun h => by cases h⟩⟩

def quotedRule : Rule where
  clauses := [quotedClause "arg0" "it's, a\\=b" (by decide), bareClause "member" "Fly" (by decide) (by decide)]
  nodup := by decide

theorem items_quotedRule : (parseString quotedRule.text).items = quotedRule.clauses.map Clause.pair :=
  quotedRule.items_parseString_of_not_blank (by decide +kernel)

/-! ## `MatchRule` -/

structure MatchRule where
  raw : Text
  type : Option Text
  sender : Option Text
  interface : Option Text
  member : Option Text
  path : Option Text
  pathNamespace : Option Text
  destination : Option Text
  args : List (Option Text)
  argsPath : List (Option Text)
  arg0namespace : Option Text
  eavesdrop : Option Text

/-- `__init__`, with `parts.get`. -/
def MatchRule.ofParts (rule : Text) (get : String → Option Text) : MatchRule where
  raw := rule
  type := get "type"
  sender := get "sender"
  interface := get "interface"
  member := get "member"
  path := get "path"
  pathNamespace := get "path_namespace"
  destination := get "destination"
  args := (List.range 64).map fun i => get ("arg" ++ toString i)
  argsPath := (List.range 64).map fun i => get ("arg" ++ toString i ++ "path")
  arg0namespace := get "arg0namespace"
  eavesdrop := get "eavesdrop"

/-- `MatchRule(rule)` -/
def matchRule (rule : Text) : MatchRule := .ofParts rule fun name => (parseString rule).get? name.toList

/-- What `matches` looks at of a `dbus.Message`. -/
structure Message where
  destination : Option Text
  sender : Option Text
  path : Option Text
  interface : Option Text
  member : Option Text

/-- `field is None or field == value` -/
def agrees (field value : Option Text) : Bool := field.isNone || field = value

/-- Whether the path is the namespace or below it. A message without a path is not looked at. -/
def inNamespace (pathNamespace path : Option Text) : Bool :=
  match pathNamespace, path with
  | some start, some path => start = path || (start ++ ['/']).isPrefixOf path
  | _, _ => true

/-- `matches` -/
def MatchRule.accepts (rule : MatchRule) (msg : Message) : Bool :=
  if !agrees rule.destination msg.destination then false
  else if !agrees rule.sender msg.sender then false
  else if !agrees rule.path msg.path then false
  else if !inNamespace rule.pathNamespace msg.path then false
  else if !agrees rule.interface msg.interface then false
  else if !agrees rule.member msg.member then false
  else true

/-- Only the values that are read of a rule matter for its messages. -/
theorem accepts_congr {rule rule' : Text} (h : ∀ k, (parseString rule).get? k = (parseString rule').get? k)
    (msg : Message) : (matchRule rule).accepts msg = (matchRule rule').accepts msg := by
  unfold matchRule MatchRule.accepts MatchRule.ofParts
  simp only [h]

/-- Two orders of the clauses of a rule are read alike just if the same clause is dropped, or none. -/
theorem parseString_perm {rule rule' : Rule} (h : rule.clauses.Perm rule'.clauses) :
    ((∀ k, (parseString rule.text).get? k = (parseString rule'.text).get? k) ∧
      ∀ msg, (matchRule rule.text).accepts msg = (matchRule rule'.text).accepts msg) ↔
        rule.dropped = rule'.dropped := by
  constructor
  · rintro ⟨hget, -⟩
    apply Option.ext
    intro c
    constructor
    · exact Rule.dropped_of_get? h hget
    · exact Rule.dropped_of_get? h.symm fun k => (hget k).symm
  · intro hd
    have hget := Rule.get?_congr_dropped h hd
    exact ⟨hget, accepts_congr hget⟩

def flying : Rule where
  clauses := [bareClause "member" "Fly" (by decide) (by decide), bareClause "interface" "a.b" (by decide) (by decide)]
  nodup := by decide

def flyingTurned : Rule where
  clauses := [bareClause "interface" "a.b" (by decide) (by decide), bareClause "member" "Fly" (by decide) (by decide)]
  nodup := by decide

/-- `member=Fly,interface=a.b` in both orders. -/
theorem flying_perm :
    (∀ k, (parseString flying.text).get? k = (parseString flyingTurned.text).get? k) ∧
      (∀ msg, (matchRule flying.text).accepts msg = (matchRule flyingTurned.text).accepts msg) ∧
      (parseString flying.text).items =
        [("member".toList, "Fly".toList), ("interface".toList, "a.b".toList)] := by
  obtain ⟨hget, haccepts⟩ := (@parseString_perm flying flyingTurned (List.Perm.swap _ _ _)).2 rfl
  exact ⟨hget, haccepts, by decide +kernel⟩

def blankLast : Rule where
  clauses := [bareClause "member" "Fly" (by decide) (by decide), bareClause "interface" "" (by decide) (by decide)]
  nodup := by decide

def blankFirst : Rule where
  clauses := [bareClause "interface" "" (by decide) (by decide), bareClause "member" "Fly" (by decide) (by decide)]
  nodup := by decide

/-- `member=Fly,interface=` takes messages of every interface, `interface=,member=Fly` none. -/
theorem blankLast_accepts :
    blankLast.clauses.Perm blankFirst.clauses ∧ blankLast.text = "member=Fly,interface=".toList ∧
      blankFirst.text = "interface=,member=Fly".toList ∧
      (parseString blankLast.text).get? "interface".toList ≠ (parseString blankFirst.text).get? "interface".toList ∧
      (matchRule blankLast.text).accepts ⟨none, none, none, some "a.b".toList, some "Fly".toList⟩ = true ∧
      (matchRule blankFirst.text).accepts ⟨none, none, none, some "a.b".toList, some "Fly".toList⟩ = false := by
  refine ⟨List.Perm.swap _ _ _, ?_⟩
  decide +kernel

end LogSubmitter.Dbus

import LogSubmitter.Lib.Words
import LogSubmitter.Str
/-!
# A line of the trace

`TraceLine` takes the command from a field of fixed width and the rest from
columns between white space. The command may have white space, and whatever else
separates columns.
-/
namespace LogSubmitter.Trace.Line

open Lib.Words (Word Gap joined words_append_joined)

abbrev Text := List Char

inductive Raised where
  | indexError
  | valueError
  deriving DecidableEq, Repr

structure TraceLine where
  raw : Text
  comm : Text
  pid : Int
  cpu : Int
  /-- As `float` is given it. -/
  timestamp : Text
  function : Text
  extraArgs : List Text
  deriving DecidableEq, Repr

/-! ## Reading -/

/-- `Column` -/
inductive Column where
  | pid
  | cpu
  | bits
  | timestamp
  | function

/-- The value of the enumeration. -/
def Column.index : Column → Nat
  | .pid => 0
  | .cpu => 1
  | .bits => 2
  | .timestamp => 3
  | .function => 4

/-- `sequence[i]` -/
def item {α : Type} (sequence : List α) (i : Nat) : Except Raised α :=
  match sequence[i]? with
  | some a => .ok a
  | none => .error .indexError

/-- `int(text)` -/
def int (text : Text) : Except Raised Int := (Str.int (String.ofList text)).elim (.error .valueError) .ok

/-- `float(text)`, for a text that is kept. -/
def float (text : Text) : Except Raised Text :=
  if Str.isFloat (String.ofList text) then .ok text else .error .valueError

/-- `text[1:-1]` -/
def inner (text : Text) : Text := (text.drop 1).dropLast

/-- `TraceLine(line)` -/
def traceLine (line : Text) : Except Raised TraceLine :=
  let comm := line.take 16
  let columns := Str.words (line.drop 17)
  if columns.length < 5 then .error .valueError
  else do
    let dash ← item line 16
    if dash ≠ '-' then .error .valueError
    else
      let pid ← int (← item columns Column.pid.index)
      let cpu ← int (inner (← item columns Column.cpu.index))
      let timestamp ← float (Str.rstripChar ':' (← item columns Column.timestamp.index))
      let function ← item columns Column.function.index
      .ok { raw := line, comm := Str.lstrip comm, pid, cpu, timestamp, function := Str.rstripChar ':' function,
            extraArgs := columns.drop (Column.function.index + 1) }

/-! ## Every text -/

theorem item_of_getElem? {α : Type} {sequence : List α} {i : Nat} {a : α} (h : sequence[i]? = some a) :
    item sequence i = .ok a := by
  simp [item, h]

/-- A text with columns enough has the character before them. -/
theorem length_of_words {line : Text} (h : (Str.words (line.drop 17)).length ≠ 0) : 16 < line.length := by
  by_contra hlen
  rw [List.drop_eq_nil_of_le (by omega)] at h
  exact h (by simp [Str.words, Lib.Words.words])

theorem int_cases (text : Text) : (∃ n, int text = .ok n) ∨ int text = .error .valueError := by
  unfold int
  cases Str.int (String.ofList text) with
  | none => exact .inr rfl
  | some n => exact .inl ⟨n, rfl⟩

theorem float_cases (text : Text) : float text = .ok text ∨ float text = .error .valueError := by
  unfold float
  split
  · exact .inl rfl
  · exact .inr rfl

theorem traceLine_short {line : Text} (h : (Str.words (line.drop 17)).length < 5) :
    traceLine line = .error .valueError := by
  unfold traceLine
  rw [if_pos h]

/-- The columns by name. -/
theorem traceLine_columns {text p c b t f : Text} {args : List Text} {dash : Char}
    (h : Str.words (text.drop 17) = p :: c :: b :: t :: f :: args) (hdash : text[16]? = some dash) :
    traceLine text =
      if dash ≠ '-' then .error .valueError
      else (int p).bind fun pid => (int (inner c)).bind fun cpu => (float (Str.rstripChar ':' t)).map fun timestamp =>
        { raw := text, comm := Str.lstrip (text.take 16), pid, cpu, timestamp, function := Str.rstripChar ':' f,
          extraArgs := args } := by
  have hfive : ¬ (Str.words (text.drop 17)).length < 5 := by
    rw [h]
    simp
  have hp : item (p :: c :: b :: t :: f :: args) Column.pid.index = .ok p := rfl
  have hc : item (p :: c :: b :: t :: f :: args) Column.cpu.index = .ok c := rfl
  have ht : item (p :: c :: b :: t :: f :: args) Column.timestamp.index = .ok t := rfl
  have hf : item (p :: c :: b :: t :: f :: args) Column.function.index = .ok f := rfl
  unfold traceLine
  rw [if_neg hfive, item_of_getElem? hdash, h, hp, hc, ht, hf]
  dsimp only [bind, Except.bind]
  split
  · rfl
  · cases int p <;> cases int (inner c) <;> cases float (Str.rstripChar ':' t) <;> rfl

theorem exists_columns {columns : List Text} (h : ¬ columns.length < 5) :
    ∃ p c b t f args, columns = p :: c :: b :: t :: f :: args := by
  match columns, h with
  | p :: c :: b :: t :: f :: args, _ => exact ⟨p, c, b, t, f, args, rfl⟩
  | [], h | [_], h | [_, _], h | [_, _, _], h | [_, _, _, _], h => exact absurd (by simp) h

theorem traceLine_cases (line : Text) :
    (∃ t, traceLine line = .ok t) ∨ traceLine line = .error .valueError := by
  by_cases hfive : (Str.words (line.drop 17)).length < 5
  · exact .inr (traceLine_short hfive)
  · have hlen : 16 < line.length := length_of_words (by omega)
    obtain ⟨p, c, b, t, f, args, hcolumns⟩ := exists_columns hfive
    rw [traceLine_columns hcolumns (List.getElem?_eq_getElem hlen)]
    split
    · exact .inr rfl
    · obtain ⟨pid, hpid⟩ | hpid := int_cases p
      · obtain ⟨cpu, hcpu⟩ | hcpu := int_cases (inner c)
        · obtain htimestamp | htimestamp := float_cases (Str.rstripChar ':' t)
          · rw [hpid, hcpu, htimestamp]
            exact .inl ⟨_, rfl⟩
          · rw [hpid, hcpu, htimestamp]
            exact .inr rfl
        · rw [hpid, hcpu]
          exact .inr rfl
      · rw [hpid]
        exact .inr rfl

/-! ## Printed events -/

/-- What an event prints. `int` reads the digits of the numbers. -/
structure Event where
  comm : Text
  pid : Nat
  cpu : Nat
  flags : Word Str.isSpace
  timestamp : Str.Decimal
  function : Text
  args : List (Word Str.isSpace)
  comm_length : comm.length ≤ 16
  comm_start : ∀ c ∈ comm.head?, Str.isSpace c = false
  function_free : ∀ c ∈ function, Str.isSpace c = false
  function_end : function.getLast? ≠ some ':'

/-- How it is printed: with zeros before the CPU, with gaps between the columns, and with a colon after the
function or without one. -/
structure Layout (event : Event) where
  zeros : Nat
  gaps : Nat → Gap Str.isSpace
  colon : Bool
  pid_digits : (Str.numeral 0 event.pid).length ≤ Str.maxDigits
  cpu_digits : (Str.numeral zeros event.cpu).length ≤ Str.maxDigits
  function_printed : event.function ≠ [] ∨ colon = true

namespace Layout

variable {event : Event} (layout : Layout event)

def pidColumn (event : Event) : Word Str.isSpace where
  text := Str.numeral 0 event.pid
  ne_nil := Str.numeral_ne_nil 0 event.pid
  free _ h := Str.not_isSpace_of_isDigit (Str.isDigit_of_mem_numeral h)

def cpuColumn : Word Str.isSpace where
  text := '[' :: (Str.numeral layout.zeros event.cpu ++ [']'])
  ne_nil := List.cons_ne_nil _ _
  free c h := by
    simp only [List.mem_cons, List.mem_append, List.not_mem_nil, or_false] at h
    rcases h with rfl | h | rfl
    · rfl
    · exact Str.not_isSpace_of_isDigit (Str.isDigit_of_mem_numeral h)
    · rfl

def timestampColumn (event : Event) : Word Str.isSpace where
  text := event.timestamp.text ++ [':']
  ne_nil := by simp
  free c h := by
    rcases List.mem_append.1 h with h | h
    · exact event.timestamp.not_isSpace h
    · rw [List.mem_singleton.1 h]
      rfl

def functionColumn : Word Str.isSpace where
  text := event.function ++ if layout.colon then [':'] else []
  ne_nil := by
    rcases layout.function_printed with h | h <;> simp [h]
  free c h := by
    rcases List.mem_append.1 h with h | h
    · exact event.function_free c h
    · split at h
      · rw [List.mem_singleton.1 h]
        rfl
      · cases h

/-- The columns after the pid. -/
def columns : List (Word Str.isSpace) :=
  layout.cpuColumn :: event.flags :: timestampColumn event :: layout.functionColumn :: event.args

/-- The command, right-aligned. -/
def commField (event : Event) : Text := List.replicate (16 - event.comm.length) ' ' ++ event.comm

/-- The line. -/
def print : Text := commField event ++ '-' :: ((pidColumn event).text ++ joined layout.gaps 0 layout.columns)

theorem length_commField (event : Event) : (commField event).length = 16 := by
  have h := event.comm_length
  simp [commField]
  omega

theorem take_print : layout.print.take 16 = commField event := by
  unfold print
  rw [← length_commField event, List.take_left]

theorem getElem?_print : layout.print[16]? = some '-' := by
  have h := length_commField event
  unfold print
  rw [List.getElem?_append_right (by omega), h]
  rfl

theorem words_print : Str.words (layout.print.drop 17) = (pidColumn event).text :: layout.columns.map Word.text := by
  have hdrop : layout.print.drop 17 = (pidColumn event).text ++ joined layout.gaps 0 layout.columns := by
    unfold print
    rw [List.drop_append, length_commField, List.drop_eq_nil_of_le (by rw [length_commField]; omega)]
    rfl
  rw [hdrop]
  exact words_append_joined _ _ _ _

theorem lstrip_commField (event : Event) : Str.lstrip (commField event) = event.comm := by
  have hpad : ∀ c ∈ List.replicate (16 - event.comm.length) ' ', Str.isSpace c = true := by
    intro c hc
    rw [List.eq_of_mem_replicate hc]
    rfl
  have hstart := event.comm_start
  unfold Str.lstrip commField
  rw [List.dropWhile_append_of_pos hpad]
  cases hcomm : event.comm with
  | nil => rfl
  | cons c cs => simp [hstart c (by simp [hcomm])]

theorem rstripChar_timestamp (event : Event) :
    Str.rstripChar ':' (timestampColumn event).text = event.timestamp.text := by
  apply Str.rstripChar_concat
  intro hlast
  rcases event.timestamp.mem_text (List.mem_of_getLast? hlast) with h | h
  · exact absurd h (by decide)
  · exact absurd h (by decide)

theorem rstripChar_function : Str.rstripChar ':' layout.functionColumn.text = event.function := by
  unfold functionColumn
  dsimp only
  split
  · exact Str.rstripChar_concat event.function_end
  · rw [List.append_nil]
    exact Str.rstripChar_eq_self event.function_end

theorem inner_cpu : inner layout.cpuColumn.text = Str.numeral layout.zeros event.cpu := by
  simp [inner, cpuColumn]

end Layout

/-- The command, the pid, the CPU, the function and the arguments of an event are those of its line, and
`traceLine` raises nothing else than a `ValueError` on any text. -/
theorem traceLine_print_and_cases :
    (∀ (event : Event) (layout : Layout event), ∃ t, traceLine layout.print = .ok t ∧ t.comm = event.comm ∧
      t.pid = event.pid ∧ t.cpu = event.cpu ∧ t.function = event.function ∧
      t.extraArgs = event.args.map Word.text) ∧
    ∀ line, (∃ t, traceLine line = .ok t) ∨ traceLine line = .error .valueError := by
  refine ⟨?_, traceLine_cases⟩
  intro event layout
  have hwords := layout.words_print
  rw [Layout.columns] at hwords
  simp only [List.map_cons] at hwords
  have hpid : int (Layout.pidColumn event).text = .ok (event.pid : Int) := by
    unfold int
    rw [Layout.pidColumn, Str.int_numeral layout.pid_digits]
    rfl
  have hcpu : int (inner layout.cpuColumn.text) = .ok (event.cpu : Int) := by
    unfold int
    rw [layout.inner_cpu, Str.int_numeral layout.cpu_digits]
    rfl
  have htimestamp : float (Str.rstripChar ':' (Layout.timestampColumn event).text) = .ok event.timestamp.text := by
    unfold float
    rw [Layout.rstripChar_timestamp, if_pos (Str.isFloat_decimal event.timestamp)]
  rw [traceLine_columns hwords layout.getElem?_print, hpid, hcpu, htimestamp, layout.take_print,
    Layout.lstrip_commField, layout.rstripChar_function]
  exact ⟨_, rfl, rfl, rfl, rfl, rfl, rfl⟩

example : (traceLine " GamepadUI-Input-4886    [003] .N.1. 23828.572941: mark_victim: pid=14351".toList).toOption.map
    (fun t => (t.comm, t.pid, t.cpu, t.function)) =
      some ("GamepadUI-Input".toList, 4886, 3, "mark_victim".toList) := by decide +kernel

end LogSubmitter.Trace.Line

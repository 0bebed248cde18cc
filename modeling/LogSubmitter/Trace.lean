import LogSubmitter.Journal.Read
import LogSubmitter.Str
/-!
# What a trace event captures of the kernel's journal

`TraceHelper.read_journal` asks for the entries after its cursor, keeps the
lines from a start to an end, and moves the cursor to where it stopped.
-/
namespace LogSubmitter.Trace

open Journal (Entry lastCursor)

inductive EventType where
  | oom
  | splitLock
  deriving DecidableEq, Repr

def EventType.name : EventType → String
  | .oom => "oom"
  | .splitLock => "split_lock"

/-- The key of the cursor in the helper's data. -/
def cursorName (type : EventType) : String := type.name ++ ".cursor"

theorem cursorName_inj {type type' : EventType} (h : cursorName type = cursorName type') : type = type' := by
  cases type <;> cases type' <;> first | rfl | exact absurd h (by decide)

/-! ## Patterns -/

/-- A part of a regular expression: characters of a kind, so many times. -/
structure Piece where
  holds : Char → Bool
  least : Nat := 1
  most : Option Nat := some 1

def literal (text : String) : List Piece := text.toList.map fun c => { holds := (· == c) }

/-- `.` -/
def anyChar (c : Char) : Bool := c ≠ '\n'

/-- `pattern.match` -/
def matchesHere : List Piece → List Char → Bool
  | [], _ => true
  | piece :: rest, text =>
    (List.range (text.length + 1)).any fun n =>
      piece.least ≤ n && piece.most.all (n ≤ ·) && (text.take n).all piece.holds && matchesHere rest (text.drop n)

/-- `pattern.search` -/
def search (pattern : List Piece) (text : String) : Bool := text.toList.tails.any (matchesHere pattern)

/-- `JOURNAL_STARTS`. `#AC: .{1,15}/\d+ .+ split_lock trap` has a name and a pid. -/
def journalStarts : EventType → Option (List (List Piece))
  | .oom => some [literal "invoked oom-killer"]
  | .splitLock => some [literal "x86/split lock detection: #AC: " ++ [{ holds := anyChar, most := some 15 }] ++
      literal "/" ++ [{ holds := fun c => (Str.digit c).isSome, most := none }] ++ literal " " ++
      [{ holds := anyChar, most := none }] ++ literal " split_lock trap"]

/-- `JOURNAL_ENDS` -/
def journalEnds : EventType → Option (List (List Piece))
  | .oom => some [literal "Out of memory: Killed process"]
  | .splitLock => none

/-! ## The loop -/

/-- `TIMING_BUFFER` -/
def timingBuffer : Int := 100000

/-- The message of a line, `some none` if the line is passed over, `none` if an exception is raised. -/
def readLine (startUsec : Int) (line : Entry) : Option (Option String) :=
  match (line.fields.get? "_SOURCE_MONOTONIC_TIMESTAMP").getD (.str "0") with
  | .str timestamp =>
    match Str.int timestamp with
    | none => none
    | some usec =>
      if usec < startUsec - timingBuffer then some none
      else
        match (line.fields.get? "MESSAGE").getD .null with
        | .null => some none
        | .str message => some (some message)
        | _ => none
  | _ => none

/-- One-line messages have no end expression. -/
def ends (type : EventType) (message : String) : Bool :=
  match journalEnds type with
  | none => true
  | some patterns => patterns.any (search · message)

/-- The loop over the lines, with the patterns of the start: the lines captured with their messages, and
the cursor of the one that ended the capture. -/
def captureLoop (type : EventType) (starts : List (List Piece)) (startUsec : Int) :
    Bool → List (Entry × String) → List Entry → Option (List (Entry × String) × Option String)
  | _, capture, [] => some (capture, none)
  | capturing, capture, line :: lines =>
    match readLine startUsec line with
    | none => none
    | some none => captureLoop type starts startUsec capturing capture lines
    | some (some message) =>
      if capturing || starts.any (search · message) then
        if ends type message then some (capture ++ [(line, message)], some line.cursor)
        else captureLoop type starts startUsec true (capture ++ [(line, message)]) lines
      else captureLoop type starts startUsec false capture lines

/-- What follows the `await`, given the lines: what is captured, and the cursor to store, if there is one. -/
def finish (type : EventType) (starts : List (List Piece)) (startUsec : Int) (lines : List Entry) :
    Option (List (Entry × String) × Option String) :=
  (captureLoop type starts startUsec false [] lines).map fun r => (r.1, r.2.or (lastCursor lines))

/-- `capture`: the messages, line by line. -/
def journalText (capture : List (Entry × String)) : List String := capture.flatMap fun p => Str.split '\n' p.2

/-! ## What it keeps -/

/-- Lines are captured in order, up to the one that ends the capture or to the last. -/
theorem captureLoop_eq_some {type : EventType} {starts : List (List Piece)} {startUsec : Int} {capturing : Bool}
    {capture : List (Entry × String)} {lines : List Entry} {r : List (Entry × String) × Option String}
    (h : captureLoop type starts startUsec capturing capture lines = some r) :
    ∃ more, r.1 = capture ++ more ∧
      ((r.2 = none ∧ (more.map Prod.fst).Sublist lines) ∨
        ∃ a e b, lines = a ++ e :: b ∧ r.2 = some e.cursor ∧ (more.map Prod.fst).Sublist (a ++ [e])) := by
  induction lines generalizing capturing capture with
  | nil =>
    cases h
    exact ⟨[], (List.append_nil _).symm, .inl ⟨rfl, List.nil_sublist _⟩⟩
  | cons line lines ih =>
    -- What the rest captures, with `line` before it or passed over.
    have pass : ∀ {capturing capture}, captureLoop type starts startUsec capturing capture lines = some r →
        ∀ kept, (kept.map Prod.fst).Sublist [line] → ∃ more, r.1 = capture ++ more ∧
          ((r.2 = none ∧ ((kept ++ more).map Prod.fst).Sublist (line :: lines)) ∨
            ∃ a e b, line :: lines = a ++ e :: b ∧ r.2 = some e.cursor ∧
              ((kept ++ more).map Prod.fst).Sublist (a ++ [e])) := by
      intro capturing capture h kept hk
      obtain ⟨more, hr, hm⟩ := ih h
      refine ⟨more, hr, hm.imp (fun ⟨hn, hs⟩ => ⟨hn, ?_⟩) fun ⟨a, e, b, hl, hc, hs⟩ => ⟨line :: a, e, b, ?_, hc, ?_⟩⟩
      · rw [List.map_append]
        exact hk.append hs
      · rw [hl, List.cons_append]
      · rw [List.map_append]
        exact hk.append hs
    rw [captureLoop] at h
    cases hline : readLine startUsec line with
    | none => simp only [hline] at h; cases h
    | some message =>
      cases message with
      | none =>
        simp only [hline] at h
        exact pass h [] (List.nil_sublist _)
      | some message =>
        simp only [hline] at h
        split at h
        · split at h
          · cases h
            exact ⟨[(line, message)], rfl, .inr ⟨[], line, lines, rfl, rfl, List.Sublist.refl _⟩⟩
          · obtain ⟨more, hr, hm⟩ := pass h [(line, message)] (List.Sublist.refl _)
            exact ⟨(line, message) :: more, by rw [hr, List.append_assoc]; rfl, hm⟩
        · exact pass h [] (List.nil_sublist _)

/-- The new cursor is that of an entry, and what is captured comes before it or is it; without lines there
is no cursor. -/
theorem finish_eq_some {type : EventType} {starts : List (List Piece)} {startUsec : Int} {lines : List Entry}
    {r : List (Entry × String) × Option String} (h : finish type starts startUsec lines = some r) :
    (lines = [] ∧ r = ([], none)) ∨
      ∃ a e b, lines = a ++ e :: b ∧ r.2 = some e.cursor ∧ (r.1.map Prod.fst).Sublist (a ++ [e]) := by
  obtain ⟨⟨capture, closing⟩, hloop, rfl⟩ := Option.map_eq_some_iff.1 h
  obtain ⟨more, hmore, ⟨hn, hs⟩ | ⟨a, e, b, hl, hc, hs⟩⟩ := captureLoop_eq_some hloop
  · simp only [List.nil_append] at hmore hn
    subst hmore hn
    rcases List.eq_nil_or_concat lines with rfl | ⟨a, e, rfl⟩
    · have hnil : capture = [] := List.map_eq_nil_iff.1 (List.sublist_nil.1 hs)
      subst hnil
      exact .inl ⟨rfl, rfl⟩
    · rw [List.concat_eq_append] at hs ⊢
      exact .inr ⟨a, e, [], rfl, by simp [lastCursor], hs⟩
  · simp only [List.nil_append] at hmore hc
    subst hmore hc
    exact .inr ⟨a, e, b, hl, rfl, hs⟩

end LogSubmitter.Trace

import LogSubmitter.Trace
import Mathlib.Logic.Function.Basic
/-!
# Which lines an event gets

The loop of `read_journal` passes over lines, starts to capture, and stops. Of the lines
that count, this is the part from the first start to the first end after it.
-/
namespace LogSubmitter.Trace

open Journal (Entry)

/-! ## `read_journal` -/

/-- `cls.data[f'{type}.cursor'] = cursor`, if there is one. -/
def storeCursor (type : EventType) (cursor : Option String) (data : String → Option String) : String → Option String :=
  if cursor = none then data else Function.update data (cursorName type) cursor

/-- `TraceHelper.read_journal`, given what `sls.util.read_journal` returns for a cursor: the lines captured, if there
are patterns and the journal could be read, and the data. `none` if an exception is raised. -/
def readJournal (read : Option String → Option (List Entry) × Option String) (type : EventType) (startUsec : Int)
    (data : String → Option String) : Option (Option (List String) × (String → Option String)) :=
  match journalStarts type with
  | none => some (none, data)
  | some starts =>
    match read (data (cursorName type)) with
    | (none, _) => some (none, data)
    | (some lines, cursor) =>
      (captureLoop type starts startUsec false [] lines).map fun r =>
        (some (journalText r.1), storeCursor type (r.2.or cursor) data)

/-! ## The part that is captured -/

/-- The time stamp of a line, if it is a number. -/
def stamp (line : Entry) : Option Int :=
  match (line.fields.get? "_SOURCE_MONOTONIC_TIMESTAMP").getD (.str "0") with
  | .str timestamp => Str.int timestamp
  | _ => none

def message (line : Entry) : Option String := line.text "MESSAGE"

/-- The time stamp is a number, and the message a text, where there is one. -/
structure WellFormed (line : Entry) : Prop where
  stamp : stamp line ≠ none
  message : line.fields.get? "MESSAGE" = none ∨ message line ≠ none

/-- A line is not before the event. -/
def inTime (startUsec : Int) (line : Entry) : Bool := (stamp line).any (startUsec - timingBuffer ≤ ·)

/-- The lines that count, with their messages. -/
def eligible (startUsec : Int) (lines : List Entry) : List (Entry × String) :=
  (lines.filter (inTime startUsec)).filterMap fun line => (message line).map fun message => (line, message)

def fromStart (starts : List (List Piece)) (lines : List (Entry × String)) : List (Entry × String) :=
  lines.dropWhile fun p => !starts.any (search · p.2)

/-- The line that ends the capture, the first one where there are no patterns for it. -/
def closing (type : EventType) (lines : List (Entry × String)) : Option (Entry × String) :=
  match journalEnds type with
  | none => lines.head?
  | some patterns => lines.find? fun p => patterns.any (search · p.2)

/-- The lines up to this one. -/
def captured (type : EventType) (lines : List (Entry × String)) : List (Entry × String) :=
  match journalEnds type with
  | none => lines.take 1
  | some patterns => lines.takeWhile (fun p => !patterns.any (search · p.2)) ++ (closing type lines).toList

theorem closing_cons (type : EventType) (p : Entry × String) (lines : List (Entry × String)) :
    closing type (p :: lines) = if ends type p.2 then some p else closing type lines := by
  unfold closing ends
  cases journalEnds type with
  | none => rfl
  | some patterns => by_cases h : patterns.any (search · p.2) = true <;> simp only [List.find?_cons, h] <;> rfl

theorem captured_cons (type : EventType) (p : Entry × String) (lines : List (Entry × String)) :
    captured type (p :: lines) = p :: if ends type p.2 then [] else captured type lines := by
  have hclosing := closing_cons type p lines
  unfold captured
  rw [hclosing]
  unfold ends
  cases journalEnds type with
  | none => rfl
  | some patterns =>
    by_cases h : patterns.any (search · p.2) = true
    · simp only [h, List.takeWhile_cons, Bool.not_true, if_true]
      rfl
    · simp only [h, List.takeWhile_cons, Bool.not_false, if_true]
      rfl

/-! ## The loop -/

/-- What a well-formed line is to the loop. -/
theorem readLine_eq (startUsec : Int) {line : Entry} (h : WellFormed line) :
    readLine startUsec line = some (if inTime startUsec line then message line else none) := by
  obtain ⟨usec, husec⟩ := Option.ne_none_iff_exists'.1 h.stamp
  have htime : inTime startUsec line = decide (startUsec - timingBuffer ≤ usec) := by
    unfold inTime
    rw [husec]
    rfl
  rw [htime]
  unfold stamp at husec
  unfold readLine
  generalize (line.fields.get? "_SOURCE_MONOTONIC_TIMESTAMP").getD (.str "0") = value at husec ⊢
  cases value with
  | str timestamp =>
    simp only at husec
    simp only [husec, decide_eq_true_eq]
    by_cases hlate : usec < startUsec - timingBuffer
    · rw [if_pos hlate, if_neg (by omega)]
    · rw [if_neg hlate, if_pos (by omega)]
      have hm := h.message
      unfold message Entry.text at hm ⊢
      cases hf : line.fields.get? "MESSAGE" with
      | none => rfl
      | some value => cases value <;> simp_all
  | _ => cases husec

theorem eligible_cons (startUsec : Int) {line : Entry} (h : WellFormed line) (lines : List Entry) :
    ∃ found, readLine startUsec line = some found ∧
      eligible startUsec (line :: lines) =
        (found.map fun message => (line, message)).toList ++ eligible startUsec lines := by
  refine ⟨_, readLine_eq startUsec h, ?_⟩
  unfold eligible
  by_cases hl : inTime startUsec line = true
  · cases hm : message line <;> simp [hl, hm]
  · simp [hl]

/-- The lines that are left for the capture. -/
def remaining (starts : List (List Piece)) (capturing : Bool) (lines : List (Entry × String)) : List (Entry × String) :=
  if capturing then lines else fromStart starts lines

theorem captureLoop_eq (type : EventType) (starts : List (List Piece)) (startUsec : Int) {lines : List Entry}
    (h : ∀ line ∈ lines, WellFormed line) (capturing : Bool) (capture : List (Entry × String)) :
    captureLoop type starts startUsec capturing capture lines =
      some (capture ++ captured type (remaining starts capturing (eligible startUsec lines)),
        (closing type (remaining starts capturing (eligible startUsec lines))).map fun p => p.1.cursor) := by
  induction lines generalizing capturing capture with
  | nil =>
    have hnone : remaining starts capturing (eligible startUsec []) = [] := by
      cases capturing <;> rfl
    rw [hnone]
    cases type <;> simp [captureLoop, captured, closing, journalEnds]
  | cons line lines ih =>
    simp only [List.mem_cons, forall_eq_or_imp] at h
    obtain ⟨found, hread, heligible⟩ := eligible_cons startUsec h.1 lines
    unfold captureLoop
    rw [hread, heligible]
    cases found with
    | none => exact ih h.2 capturing capture
    | some message =>
      simp only [Option.map_some, Option.toList_some, List.singleton_append]
      by_cases hc : (capturing || starts.any (search · message)) = true
      · -- The line is captured, and may be the last.
        have hremaining : remaining starts capturing ((line, message) :: eligible startUsec lines) =
            (line, message) :: eligible startUsec lines := by
          cases capturing with
          | true => rfl
          | false => simpa [remaining, fromStart] using hc
        rw [if_pos hc, hremaining, captured_cons, closing_cons]
        by_cases he : ends type message = true
        · simp [he]
        · simp [he, ih h.2 true, remaining]
      · have hremaining : remaining starts capturing ((line, message) :: eligible startUsec lines) =
            remaining starts capturing (eligible startUsec lines) := by
          cases capturing with
          | true => simp at hc
          | false =>
            have hstart : starts.any (search · message) = false := by simpa using hc
            simp [remaining, fromStart, hstart]
        have hfalse : capturing = false := by
          by_contra ht
          exact hc (by simp [ht])
        rw [if_neg hc, hremaining, hfalse]
        exact ih h.2 false capture

/-- A read that fails changes nothing. Otherwise the lines captured are, of those that count, the ones from the first
start to the first end from there on, and the cursor is that of this end, or that of the read. -/
theorem readJournal_eq (read : Option String → Option (List Entry) × Option String) {type : EventType}
    {starts : List (List Piece)} (hstarts : journalStarts type = some starts) (startUsec : Int)
    (data : String → Option String) :
    (∀ cursor, read (data (cursorName type)) = (none, cursor) →
      readJournal read type startUsec data = some (none, data)) ∧
    ∀ lines cursor, read (data (cursorName type)) = (some lines, cursor) → (∀ line ∈ lines, WellFormed line) →
      readJournal read type startUsec data =
        some (some ((captured type (fromStart starts (eligible startUsec lines))).flatMap fun p => Str.split '\n' p.2),
          storeCursor type
            (((closing type (fromStart starts (eligible startUsec lines))).map fun p => p.1.cursor).or cursor)
            data) := by
  refine ⟨?_, ?_⟩
  · intro cursor hread
    unfold readJournal
    rw [hstarts, hread]
  · intro lines cursor hread hlines
    have hloop := captureLoop_eq type starts startUsec hlines false []
    unfold readJournal
    rw [hstarts, hread]
    dsimp only
    rw [hloop]
    rfl

/-- A line of the kernel with a time stamp. -/
def kernelLine (cursor message timestamp : String) : Entry :=
  Entry.ofTexts cursor [("MESSAGE", message), ("_SOURCE_MONOTONIC_TIMESTAMP", timestamp)] (by simp)

/-- An early line, a start, a line in between, an end, and one more line. -/
def oomLines : List Entry :=
  [kernelLine "a" "invoked oom-killer" "0", kernelLine "b" "steam invoked oom-killer" "300000",
    kernelLine "c" "Mem-Info:\nactive" "300001", kernelLine "d" "Out of memory: Killed process 7" "300002",
    kernelLine "e" "reaped" "300003"]

theorem oomLines_captured :
    readJournal (fun _ => (some oomLines, some "e")) .oom 300000 (fun _ => none) =
      some (some ((captured .oom (fromStart [literal "invoked oom-killer"] (eligible 300000 oomLines))).flatMap
          fun p => Str.split '\n' p.2),
        storeCursor .oom (((closing .oom (fromStart [literal "invoked oom-killer"] (eligible 300000 oomLines))).map
          fun p => p.1.cursor).or (some "e")) fun _ => none) := by
  refine (readJournal_eq (fun _ => (some oomLines, some "e")) rfl 300000 fun _ => none).2 oomLines (some "e") rfl ?_
  intro line hline
  have hall : ∀ line ∈ oomLines, stamp line ≠ none ∧ message line ≠ none := by decide +kernel
  exact ⟨(hall line hline).1, .inr (hall line hline).2⟩

example : ((captured .oom (fromStart [literal "invoked oom-killer"] (eligible 300000 oomLines))).map
    fun p => p.1.cursor) = ["b", "c", "d"] := by decide +kernel

end LogSubmitter.Trace

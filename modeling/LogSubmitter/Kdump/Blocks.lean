import LogSubmitter.Kdump.Traces
/-!
# Blocks of call traces

`get_summaries` takes the lines between ` <TASK>` and ` </TASK>`, and between ` <IRQ>`
and ` </IRQ>`, of all blocks together, without the last of them. Frames then depend on
what is in a later block.
-/
namespace LogSubmitter.Kdump

open Lib

/-! ## The window of a crash -/

def triggers (line : Line) : Bool := firstLines.any (Str.contains · line)

/-- The lines up to one that ends the crash, and this one. -/
def upToEnd : List Line → List Line
  | [] => []
  | line :: lines => if ends line then [line] else line :: upToEnd lines

/-- From the first trigger on. -/
def window (dmesg : List Line) : List Line := upToEnd (dmesg.dropWhile fun line => !triggers line)

theorem upToEnd_append {lines : List Line} (h : ∀ line ∈ lines, ends line = false) (rest : List Line) :
    upToEnd (lines ++ rest) = lines ++ upToEnd rest := by
  induction lines with
  | nil => rfl
  | cons line lines ih =>
    simp only [List.mem_cons, forall_eq_or_imp] at h
    simp [upToEnd, h.1, ih h.2]

theorem upToEnd_of_ends {lines : List Line} (h : ∀ line ∈ lines.head?, ends line = true) :
    upToEnd lines = lines.take 1 := by
  cases lines with
  | nil => rfl
  | cons line lines => simp [upToEnd, h line rfl]

/-! ## Blocks -/

/-- The type of the block that a line opens, the last where it names both. -/
def opens (line : Line) : Option String :=
  (traceTypes.filter fun type => Str.contains (" <" ++ type ++ ">") line).getLast?

def closes (type : String) (line : Line) : Bool := Str.contains (" </" ++ type ++ ">") line

/-- The lines of a window are lines of blocks, markers, and lines that do not matter. A marker of another type
in a block is a line of it. -/
inductive Blocks : List Line → List Line → Prop
  | none {lines : List Line} : (∀ line ∈ lines, opens line = Option.none) → Blocks lines []
  | block {before body rest inside : List Line} {first last : Line} {type : String} :
      (∀ line ∈ before, opens line = Option.none) → opens first = some type →
      (∀ line ∈ body, closes type line = false) → closes type last = true → Blocks rest inside →
      Blocks (before ++ first :: body ++ last :: rest) (body ++ inside)

/-- The block that is open after a line. -/
def openAfter : Option String → Line → Option String
  | none, line => opens line
  | some type, line => if closes type line then none else some type

/-- The lines of blocks, one being open or none. -/
def inside : Option String → List Line → List Line
  | _, [] => []
  | none, line :: lines => inside (opens line) lines
  | some type, line :: lines => if closes type line then inside none lines else line :: inside (some type) lines

theorem inside_append (grab : Option String) (lines more : List Line) :
    inside grab (lines ++ more) = inside grab lines ++ inside (lines.foldl openAfter grab) more := by
  induction lines generalizing grab with
  | nil => cases grab <;> cases more <;> rfl
  | cons line lines ih =>
    cases grab with
    | none => simp [inside, openAfter, ih]
    | some type => by_cases h : closes type line = true <;> simp [inside, openAfter, h, ih]

theorem inside_none {lines : List Line} (h : ∀ line ∈ lines, opens line = none) :
    inside none lines = [] ∧ lines.foldl openAfter none = none := by
  induction lines with
  | nil => exact ⟨rfl, rfl⟩
  | cons line lines ih =>
    simp only [List.mem_cons, forall_eq_or_imp] at h
    simpa [inside, openAfter, h.1] using ih h.2

theorem inside_body {type : String} {lines : List Line} (h : ∀ line ∈ lines, closes type line = false) :
    inside (some type) lines = lines ∧ lines.foldl openAfter (some type) = some type := by
  induction lines with
  | nil => exact ⟨rfl, rfl⟩
  | cons line lines ih =>
    simp only [List.mem_cons, forall_eq_or_imp] at h
    simpa [inside, openAfter, h.1] using ih h.2

theorem inside_of_blocks {lines found : List Line} (h : Blocks lines found) : inside none lines = found := by
  induction h with
  | none hopens => exact (inside_none hopens).1
  | @block before body rest found first last type hbefore hfirst hbody hlast hrest ih =>
    rw [List.append_assoc, inside_append, (inside_none hbefore).1, (inside_none hbefore).2, List.nil_append,
      List.cons_append, inside, hfirst, inside_append, (inside_body hbody).1, (inside_body hbody).2, inside,
      if_pos hlast, ih]

/-! ## What `get_summaries` parses -/

/-- The variables for the call traces are as they were, and a crash has begun or not. -/
structure SameTraces (s t : Summary) : Prop where
  crashSummary : t.crashSummary = s.crashSummary
  callTrace : t.callTrace = s.callTrace
  callTraceGrab : t.callTraceGrab = s.callTraceGrab

theorem listModules_same (s : Summary) (modules : List String) (line : Line) :
    SameTraces s (s.listModules modules line) := by
  unfold Summary.listModules
  dsimp only
  split <;> exact ⟨rfl, rfl, rfl⟩

theorem rest_same (s : Summary) (line : Line) : SameTraces s (s.rest line) := by
  unfold Summary.rest
  split
  · exact listModules_same s _ _
  · split
    · exact listModules_same s _ _
    · exact ⟨rfl, rfl, rfl⟩

theorem crash_callTrace (s : Summary) (line : Line) :
    (s.crash line).callTrace = s.callTrace ++ inside s.callTraceGrab [line] ∧
      (s.crash line).callTraceGrab = openAfter s.callTraceGrab line := by
  unfold Summary.crash
  cases s.callTraceGrab with
  | none =>
    refine ⟨by simp [inside], ?_⟩
    by_cases ht : Str.contains " <TASK>" line = true <;> by_cases hi : Str.contains " <IRQ>" line = true <;>
      simp [openAfter, opens, traceTypes, ht, hi]
  | some type =>
    by_cases h : Str.contains (" </" ++ type ++ ">") line = true <;> simp [inside, openAfter, closes, h]

theorem crash_crashSummary (s : Summary) (line : Line) : (s.crash line).crashSummary = s.crashSummary ++ [line] := by
  unfold Summary.crash
  dsimp only
  split
  · split <;> rfl
  · rfl

/-- A line of the crash, and what follows it. -/
theorem read_cons {s : Summary} {line : Line} (h : s.crashed line = true) {dmesg : List Line}
    (ih : ∀ t : Summary, t.crashSummary ≠ [] →
      (t.read dmesg).1.callTrace = t.callTrace ++ inside t.callTraceGrab (upToEnd dmesg)) :
    (s.read (line :: dmesg)).1.callTrace = s.callTrace ++ inside s.callTraceGrab (upToEnd (line :: dmesg)) := by
  obtain ⟨htrace, hgrab⟩ := crash_callTrace s line
  unfold Summary.read upToEnd
  rw [if_pos h]
  by_cases he : ends line = true
  · simp [he, htrace]
  · have hsame := rest_same (s.crash line) line
    have hbegun : ((s.crash line).rest line).crashSummary ≠ [] := by
      rw [hsame.crashSummary, crash_crashSummary]
      simp
    have happend := inside_append s.callTraceGrab [line] (upToEnd dmesg)
    rw [List.foldl_cons, List.foldl_nil, List.singleton_append] at happend
    rw [if_neg he, if_neg he, ih _ hbegun, hsame.callTrace, hsame.callTraceGrab, htrace, hgrab, happend,
      List.append_assoc]

/-- Once a crash has begun, all lines up to its end are read. -/
theorem read_crashed (dmesg : List Line) (s : Summary) (h : s.crashSummary ≠ []) :
    (s.read dmesg).1.callTrace = s.callTrace ++ inside s.callTraceGrab (upToEnd dmesg) := by
  induction dmesg generalizing s with
  | nil => cases hg : s.callTraceGrab <;> simp [Summary.read, upToEnd, inside]
  | cons line dmesg ih => exact read_cons (by simp [Summary.crashed, h]) ih

theorem read_callTrace {s : Summary} (h : s.crashSummary = []) (dmesg : List Line) :
    (s.read dmesg).1.callTrace = s.callTrace ++ inside s.callTraceGrab (window dmesg) := by
  induction dmesg generalizing s with
  | nil => cases hg : s.callTraceGrab <;> simp [Summary.read, window, upToEnd, inside]
  | cons line dmesg ih =>
    have hcrashed : s.crashed line = triggers line := by simp [Summary.crashed, h, triggers]
    by_cases ht : triggers line = true
    · have hwindow : window (line :: dmesg) = upToEnd (line :: dmesg) := by simp [window, ht]
      rw [hwindow]
      exact read_cons (hcrashed.trans ht) (read_crashed dmesg)
    · have hwindow : window (line :: dmesg) = window dmesg := by simp [window, ht]
      have hsame := rest_same s line
      unfold Summary.read
      rw [hcrashed, if_neg ht, ih (hsame.crashSummary.trans h), hsame.callTrace, hsame.callTraceGrab, hwindow]

/-- The lines of blocks, without the last. -/
def parsed (dmesg : List Line) : List Line := (inside none (window dmesg)).dropLast

theorem getSummaries_traces (alphabet : Alphabet) (dmesg : List Line) :
    (getSummaries alphabet dmesg).2.1 = parseTraces alphabet (parsed dmesg) := by
  have hread : (Summary.read {} dmesg).1.callTrace = inside none (window dmesg) := read_callTrace rfl dmesg
  unfold parsed
  simp only [getSummaries, hread]
  by_cases h : inside none (window dmesg) = []
  · simp only [h]
    rfl
  · rw [if_neg h]

/-! ## The last line -/

section
variable (alphabet : Alphabet)

/-- A line without a frame to keep: none, one with a mark, or one that is ignored or internal. -/
def Frameless (line : Line) : Prop := ∀ f ∈ unmarked line, ignored f = true ∨ internal f = true

/-- A line that adds nothing to the traces, after a segment. -/
def Idle (segment : List Line) (line : Line) : Prop :=
  Frameless line ∧
    (isRip line = true ∨ framesOf segment = [] ∨
      unmarked line = none ∧ ∀ reg value, Assoc.get reg (definitions alphabet line).reverse = some value →
        Assoc.get reg (segment.flatMap (definitions alphabet)).reverse = some value)

/-- The last of the lines adds nothing, if there is one. -/
def LastIdle (lines : List Line) : Prop :=
  ∀ line ∈ lines.getLast?, Idle alphabet (Segments.current isRip (lines.dropLast.map strip)) (strip line)

theorem framesOf_append (segment : List Line) (line : Line) :
    framesOf (segment ++ [line]) =
      match unmarked line with
      | none => framesOf segment
      | some f =>
        if ignored f then [] else if framesOf segment = [] ∧ internal f then [] else framesOf segment ++ [f] := by
  unfold framesOf
  cases h : unmarked line with
  | none => simp [h]
  | some f =>
    have hline : (segment ++ [line]).filterMap unmarked = segment.filterMap unmarked ++ [f] := by simp [h]
    rw [hline]
    dsimp only
    split
    · rename_i hi
      exact kept_ignored _ hi
    · rename_i hi
      split
      · rename_i hk
        exact kept_internal hk.1 hk.2
      · rename_i hk
        exact kept_frame (by simpa using hi) hk

theorem framesOf_append_eq_iff (segment : List Line) (line : Line) :
    framesOf (segment ++ [line]) = framesOf segment ↔
      unmarked line = none ∨ Frameless line ∧ framesOf segment = [] := by
  rw [framesOf_append]
  unfold Frameless
  cases h : unmarked line with
  | none => simp
  | some f =>
    by_cases hi : ignored f = true
    · simp only [hi, if_true, Option.mem_def, reduceCtorEq, false_or]
      constructor
      · intro hn
        exact ⟨by simp [hi], hn.symm⟩
      · rintro ⟨-, hn⟩
        exact hn.symm
    · by_cases hk : framesOf segment = [] <;> simp [hi, hk]

theorem registersOf_append_eq_iff (segment : List Line) (line : Line) :
    registersOf alphabet (segment ++ [line]) = registersOf alphabet segment ↔
      ∀ reg value, Assoc.get reg (definitions alphabet line).reverse = some value →
        Assoc.get reg (segment.flatMap (definitions alphabet)).reverse = some value := by
  unfold registersOf
  rw [List.flatMap_append, List.flatMap_singleton]
  exact Assoc.assigned_append_eq_iff _ _

theorem frameless_of_none {line : Line} (h : unmarked line = none) : Frameless line := by
  simp [Frameless, h]

theorem traceOf_eq_none_iff (segment : List Line) : traceOf alphabet segment = none ↔ framesOf segment = [] := by
  unfold traceOf
  split <;> simp_all

/-- Where no segment begins, the trace of the current one stays as it is. -/
theorem traceOf_append_eq_iff (segment : List Line) (line : Line) :
    traceOf alphabet (segment ++ [line]) = traceOf alphabet segment ↔
      Frameless line ∧ (framesOf segment = [] ∨
        unmarked line = none ∧ registersOf alphabet (segment ++ [line]) = registersOf alphabet segment) := by
  have hframes := framesOf_append_eq_iff segment line
  by_cases hs : framesOf segment = []
  · rw [(traceOf_eq_none_iff alphabet segment).2 hs, traceOf_eq_none_iff]
    rw [hs] at hframes
    rw [hframes]
    constructor
    · rintro (hn | hn)
      · exact ⟨frameless_of_none hn, .inl hs⟩
      · exact ⟨hn.1, .inl hs⟩
    · rintro ⟨hn, -⟩
      exact .inr ⟨hn, rfl⟩
  · have hsame : framesOf (segment ++ [line]) = framesOf segment ↔ unmarked line = none := by simp [hframes, hs]
    constructor
    · intro h
      have hne : framesOf (segment ++ [line]) ≠ [] := by
        rw [Ne, ← traceOf_eq_none_iff alphabet, h, traceOf_eq_none_iff]
        exact hs
      unfold traceOf at h
      rw [if_neg hne, if_neg hs] at h
      simp only [Option.some.injEq, Trace.mk.injEq, List.reverse_inj] at h
      have hnone := hsame.1 h.1
      exact ⟨frameless_of_none hnone, .inr ⟨hnone, h.2⟩⟩
    · rintro ⟨-, h⟩
      obtain ⟨hnone, hregisters⟩ := h.resolve_left hs
      unfold traceOf
      rw [hsame.2 hnone, hregisters]

/-- A line more, and the same traces. -/
theorem parseTraces_append_eq_iff (lines : List Line) (line : Line) :
    parseTraces alphabet (lines ++ [line]) = parseTraces alphabet lines ↔
      Idle alphabet (Segments.current isRip (lines.map strip)) (strip line) := by
  unfold Idle
  rw [parseTraces_loop, parseTraces_loop, List.map_append, List.map_singleton, ← registersOf_append_eq_iff]
  by_cases h : isRip (strip line) = true
  · -- The line is a segment of its own.
    obtain ⟨hclosed, hcurrent⟩ := Segments.closed_append_cons (lines.map strip) (.inl h) (m := []) (by simp)
    have htrace : traceOf alphabet [strip line] = none ↔ Frameless (strip line) := by
      rw [traceOf_eq_none_iff]
      have hframes := framesOf_append_eq_iff [] (strip line)
      rw [show framesOf [] = [] from rfl, List.nil_append] at hframes
      rw [hframes]
      exact ⟨fun hn => hn.elim frameless_of_none And.left, fun hn => .inr ⟨hn, rfl⟩⟩
    rw [hclosed, hcurrent, filterMap_cut, List.append_right_eq_self, Option.toList_eq_nil_iff, htrace]
    simp [h]
  · have hother : isRip (strip line) = false := by simpa using h
    have hothers : ∀ l ∈ [strip line], isRip l = false := by simpa using hother
    obtain ⟨hclosed, hcurrent⟩ := Segments.append_others (lines.map strip) hothers
    have htoList : ∀ a b : Option Trace, a.toList = b.toList ↔ a = b := by
      intro a b
      cases a <;> cases b <;> simp
    rw [hclosed, hcurrent, List.append_cancel_left_eq, htoList, traceOf_append_eq_iff]
    simp [hother]

theorem dropLast_eq_iff (lines : List Line) :
    parseTraces alphabet lines.dropLast = parseTraces alphabet lines ↔ LastIdle alphabet lines := by
  unfold LastIdle
  rcases List.eq_nil_or_concat lines with rfl | ⟨lines, line, rfl⟩
  · simp
  · rw [List.concat_eq_append, List.dropLast_concat, eq_comm, parseTraces_append_eq_iff]
    simp

/-- The traces are those of the lines of all blocks if the last line adds nothing. -/
theorem getSummaries_traces_iff {dmesg found : List Line} (h : Blocks (window dmesg) found) :
    (getSummaries alphabet dmesg).2.1 = parseTraces alphabet found ↔ LastIdle alphabet found := by
  rw [getSummaries_traces, parsed, inside_of_blocks h]
  exact dropLast_eq_iff alphabet found

end

/-- Everything beyond ASCII is taken for a letter. -/
def wideAlphabet : Alphabet where
  alnum c := c.isAlphanum || decide (128 ≤ c.toNat)
  ascii c h := by simp [Nat.not_le.2 h]

/-- Two frames in a block, and then one with a mark. -/
def markedLast : List Line :=
  ["Kernel panic - not syncing\n".toList] ++ " <TASK>\n".toList ::
    ["vfs_write+0x1/0x2\n".toList, "do_syscall_64+0x3/0x4\n".toList, "? entry+0x5/0x6\n".toList] ++
    " </TASK>\n".toList :: []

theorem markedLast_blocks : Blocks (window markedLast) (markedLast.extract 2 5) := by
  have h : window markedLast = markedLast := by decide +kernel
  have hopens : opens " <TASK>\n".toList = some "TASK" := by decide +kernel
  rw [h]
  exact .block (by decide +kernel) hopens (by decide +kernel) (by decide +kernel) (.none (by simp))

theorem markedLast_traces :
    (getSummaries wideAlphabet markedLast).2.1 = parseTraces wideAlphabet (markedLast.extract 2 5) ∧
      (getSummaries wideAlphabet markedLast).2.1.map (·.frames.map (·.function)) =
        [["do_syscall_64", "vfs_write"]] := by
  refine ⟨(getSummaries_traces_iff wideAlphabet markedLast_blocks).2 ?_, by decide +kernel⟩
  -- Nothing can be read of the line with the mark.
  have hunmarked : unmarked (strip "? entry+0x5/0x6\n".toList) = none := by decide +kernel
  have hdefinitions : definitions wideAlphabet (strip "? entry+0x5/0x6\n".toList) = [] := by decide +kernel
  have hlast : (markedLast.extract 2 5).getLast? = some "? entry+0x5/0x6\n".toList := rfl
  intro line hline
  rw [hlast] at hline
  cases hline
  refine ⟨fun f hf => ?_, .inr (.inr ⟨hunmarked, fun reg value h => ?_⟩)⟩
  · rw [hunmarked] at hf
    cases hf
  · rw [hdefinitions] at h
    cases h

/-- Two frames in a block. -/
def twoFrames : List Line :=
  ["Kernel panic - not syncing\n".toList] ++ " <TASK>\n".toList ::
    ["vfs_write+0x1/0x2\n".toList, "do_syscall_64+0x3/0x4\n".toList] ++ " </TASK>\n".toList :: []

theorem twoFrames_blocks : Blocks (window twoFrames) (twoFrames.extract 2 4) := by
  have h : window twoFrames = twoFrames := by decide +kernel
  have hopens : opens " <TASK>\n".toList = some "TASK" := by decide +kernel
  rw [h]
  exact .block (by decide +kernel) hopens (by decide +kernel) (by decide +kernel) (.none (by simp))

/-- The outermost frame is lost. -/
theorem last_frame_lost :
    Blocks (window twoFrames) (twoFrames.extract 2 4) ∧
      (getSummaries wideAlphabet twoFrames).2.1 ≠ parseTraces wideAlphabet (twoFrames.extract 2 4) :=
  ⟨twoFrames_blocks, by decide +kernel⟩

end LogSubmitter.Kdump

import LogSubmitter.Kdump
import LogSubmitter.Lib.Segments
/-!
# Call traces, segment by segment

`parse_traces` goes over the lines once, with the frames it has so far. Here the same is
said of all the lines: they are cut before each `RIP: `, and each segment has at most one
trace. What the last segment has so far is what the loop has.
-/
namespace LogSubmitter.Kdump

open Lib

/-! ## Segments -/

def isRip (line : Line) : Bool := Str.startsWith "RIP: " line

/-- The stripped lines, cut before each that starts with `RIP: `. -/
def segments (log : List Line) : List (List Line) := Segments.cut isRip (log.map strip)

/-- The frame of a line, if there is one without a mark. -/
def unmarked (line : Line) : Option Frame :=
  (frameRe.search line).bind fun groups =>
    if part? "q" groups = none then some ⟨part "symbol" groups, part "offset" groups, part? "module" groups⟩ else none

def ignored (f : Frame) : Bool := f.function ∈ ignoreFrames

def internal (f : Frame) : Bool := Str.startsWith "__" f.function.toList

/-- What follows the last ignored frame, without internal frames at its beginning. -/
def kept (frames : List Frame) : List Frame := (frames.rtakeWhile fun f => !ignored f).dropWhile internal

def framesOf (segment : List Line) : List Frame := kept (segment.filterMap unmarked)

section
variable (alphabet : Alphabet)

/-- The registers that a line defines, if it has no frame. -/
def definitions (line : Line) : List (String × String) :=
  match frameRe.search line, rspRe.search line with
  | some _, _ => []
  | none, some groups => [("rsp", "0x" ++ part "rsp" groups)]
  | none, none =>
    ((registersRe alphabet).findall line).map fun groups => ((part "reg" groups).toLower, "0x" ++ part "addr" groups)

/-- Each register, with the value defined last. -/
def registersOf (segment : List Line) : List (String × String) :=
  Assoc.assigned (segment.flatMap (definitions alphabet))

/-- A segment has a trace if frames remain. -/
def traceOf (segment : List Line) : Option Trace :=
  if framesOf segment = [] then none else some ⟨(framesOf segment).reverse, registersOf alphabet segment⟩

end

/-! ## One more line -/

theorem ignored_of_internal {f : Frame} (h : internal f = true) : ignored f = false := by
  by_contra hi
  have hm : f.function ∈ ignoreFrames := by simpa [ignored] using hi
  have hall : ∀ name ∈ ignoreFrames, Str.startsWith "__" name.toList = false := by decide
  exact absurd h (by simp [internal, hall f.function hm])

@[simp] theorem kept_nil : kept [] = [] := rfl

theorem kept_ignored (frames : List Frame) {f : Frame} (h : ignored f = true) : kept (frames ++ [f]) = [] := by
  simp [kept, h]

theorem kept_internal {frames : List Frame} {f : Frame} (hk : kept frames = []) (h : internal f = true) :
    kept (frames ++ [f]) = [] := by
  unfold kept at hk ⊢
  simp [List.dropWhile_append, ignored_of_internal h, hk, h]

theorem kept_frame {frames : List Frame} {f : Frame} (hi : ignored f = false)
    (h : ¬(kept frames = [] ∧ internal f = true)) : kept (frames ++ [f]) = kept frames ++ [f] := by
  unfold kept at h ⊢
  by_cases hk : (frames.rtakeWhile fun f => !ignored f).dropWhile internal = []
  · have hf : internal f = false := by simpa [hk] using h
    simp [List.dropWhile_append, hi, hk, hf]
  · simp [List.dropWhile_append, hi, hk]

/-! ## The loop -/

section
variable (alphabet : Alphabet)

/-- What the loop does with a stripped line. -/
def Parsing.take (s : Parsing) (line : Line) : Parsing :=
  match frameRe.search line with
  | some groups => s.frame groups
  | none => s.setRegisters alphabet line

/-- What it has of a segment, after some traces. -/
def Parsing.of (traces : List Trace) (segment : List Line) : Parsing :=
  ⟨traces, framesOf segment, registersOf alphabet segment⟩

theorem append_of (traces : List Trace) (segment : List Line) :
    (Parsing.of alphabet traces segment).append = traces ++ (traceOf alphabet segment).toList := by
  by_cases h : framesOf segment = [] <;> simp [Parsing.append, Parsing.of, traceOf, h]

theorem registersOf_append (segment : List Line) (line : Line) :
    registersOf alphabet (segment ++ [line]) =
      (definitions alphabet line).foldl (fun l p => Assoc.set p.1 p.2 l) (registersOf alphabet segment) := by
  unfold registersOf
  rw [List.flatMap_append, List.flatMap_singleton, ← Assoc.foldl_set, List.foldl_append, Assoc.foldl_set]

theorem take_frame (traces : List Trace) (segment : List Line) {line : Line} {groups : Regex.Groups}
    (h : frameRe.search line = some groups) :
    (Parsing.of alphabet traces segment).frame groups = Parsing.of alphabet traces (segment ++ [line]) := by
  have hregisters : registersOf alphabet (segment ++ [line]) = registersOf alphabet segment := by
    rw [registersOf_append]; simp [definitions, h]
  unfold Parsing.frame Parsing.of
  rw [hregisters]
  by_cases hq : part? "q" groups = none
  · let f : Frame := ⟨part "symbol" groups, part "offset" groups, part? "module" groups⟩
    have hline : framesOf (segment ++ [line]) = kept (segment.filterMap unmarked ++ [f]) := by
      simp [framesOf, unmarked, h, hq, f]
    simp only [hq, ne_eq, not_true_eq_false, if_false]
    rw [hline]
    split
    · rename_i hi
      rw [kept_internal (f := f) hi.1 hi.2, hi.1]
    · rename_i hn
      split
      · rename_i hi
        rw [kept_ignored _ (show ignored f = true by simpa [ignored] using hi)]
      · rename_i hi
        rw [kept_frame (show ignored f = false by simpa [ignored] using hi) hn]
        rfl
  · have hline : framesOf (segment ++ [line]) = framesOf segment := by simp [framesOf, unmarked, h, hq]
    rw [if_pos hq, hline]

theorem take_registers (traces : List Trace) (segment : List Line) {line : Line} (h : frameRe.search line = none) :
    (Parsing.of alphabet traces segment).setRegisters alphabet line =
      Parsing.of alphabet traces (segment ++ [line]) := by
  have hframes : framesOf (segment ++ [line]) = framesOf segment := by simp [framesOf, unmarked, h]
  unfold Parsing.setRegisters Parsing.of
  rw [registersOf_append, hframes]
  cases hr : rspRe.search line with
  | some groups => simp [definitions, h, hr, setRegister]
  | none => simp [definitions, h, hr, setRegister, List.foldl_map]

/-- One line more, one line more of the segment. -/
theorem take_of (traces : List Trace) (segment : List Line) (line : Line) :
    (Parsing.of alphabet traces segment).take alphabet line = Parsing.of alphabet traces (segment ++ [line]) := by
  unfold Parsing.take
  cases h : frameRe.search line with
  | some groups => exact take_frame alphabet traces segment h
  | none => exact take_registers alphabet traces segment h

/-- A stripped line: where it starts a segment, the trace of the one before is added. -/
def Parsing.stripped (s : Parsing) (line : Line) : Parsing :=
  (if isRip line then { traces := s.append } else s).take alphabet line

theorem stripped_rip (traces : List Trace) (segment : List Line) {line : Line} (h : isRip line = true) :
    (Parsing.of alphabet traces segment).stripped alphabet line =
      Parsing.of alphabet (traces ++ (traceOf alphabet segment).toList) [line] := by
  unfold Parsing.stripped
  rw [if_pos h, append_of]
  exact take_of alphabet _ [] line

theorem stripped_other (traces : List Trace) (segment : List Line) {line : Line} (h : isRip line = false) :
    (Parsing.of alphabet traces segment).stripped alphabet line = Parsing.of alphabet traces (segment ++ [line]) := by
  unfold Parsing.stripped
  rw [h]
  exact take_of alphabet traces segment line

theorem traceOf_nil : traceOf alphabet [] = none := rfl

/-- The traces of all segments are those of the closed ones, and that of the current one. -/
theorem filterMap_cut (lines : List Line) :
    (Segments.cut isRip lines).filterMap (traceOf alphabet) =
      (Segments.closed isRip lines).filterMap (traceOf alphabet) ++
        (traceOf alphabet (Segments.current isRip lines)).toList := by
  by_cases h : lines = []
  · simp [h, traceOf_nil]
  · rw [Segments.cut_eq h, List.filterMap_append]
    cases h : traceOf alphabet (Segments.current isRip lines) <;> simp [h]

/-- What the loop has: the traces of the closed segments, and the current one. -/
theorem foldl_stripped (lines : List Line) :
    lines.foldl (Parsing.stripped alphabet) {} =
      Parsing.of alphabet ((Segments.closed isRip lines).filterMap (traceOf alphabet))
        (Segments.current isRip lines) := by
  induction lines using List.reverseRecOn with
  | nil => rfl
  | append_singleton lines line ih =>
    rw [List.foldl_append, ih, List.foldl_cons, List.foldl_nil]
    by_cases h : isRip line = true
    · obtain ⟨hclosed, hcurrent⟩ := Segments.closed_append_cons lines (.inl h) (m := []) (by simp)
      rw [stripped_rip alphabet _ _ h, hclosed, hcurrent, filterMap_cut]
    · have hother : isRip line = false := by simpa using h
      have hothers : ∀ l ∈ [line], isRip l = false := by simpa using hother
      obtain ⟨hclosed, hcurrent⟩ := Segments.append_others lines hothers
      rw [stripped_other alphabet _ _ hother, hclosed, hcurrent]

theorem parseTraces_loop (log : List Line) :
    parseTraces alphabet log = (Segments.closed isRip (log.map strip)).filterMap (traceOf alphabet) ++
      (traceOf alphabet (Segments.current isRip (log.map strip))).toList := by
  have hloop : log.foldl (Parsing.next alphabet) {} = (log.map strip).foldl (Parsing.stripped alphabet) {} := by
    rw [List.foldl_map]
    rfl
  unfold parseTraces
  rw [hloop, foldl_stripped, append_of]

/-- The loop gives the traces of the segments. -/
theorem parseTraces_eq (log : List Line) :
    parseTraces alphabet log = (segments log).filterMap (traceOf alphabet) := by
  unfold segments
  rw [parseTraces_loop, filterMap_cut]

end

end LogSubmitter.Kdump

import LogSubmitter.Lib.Dict
import LogSubmitter.Lib.Regex
import LogSubmitter.Str
/-!
# What is read of a kernel's last messages

`KdumpHelper.get_summaries` keeps the lines of a crash, the lines of its call traces
and the modules. `parse_traces` makes frames and registers of the lines of traces.
-/
namespace LogSubmitter.Kdump

open Lib

/-- A line, with its end. -/
abbrev Line := List Char

/-! ## Patterns -/

/-- What `str.isalnum` says of a character, by the tables of Unicode. -/
structure Alphabet where
  alnum : Char → Bool
  ascii : ∀ c, c.toNat < 128 → alnum c = c.isAlphanum

/-- `\w` -/
def Alphabet.word (alphabet : Alphabet) (c : Char) : Bool := alphabet.alnum c || c = '_'

/-- `\d` -/
def isDigit (c : Char) : Bool := (Str.digit c).isSome

/-- `[0-9a-f]` -/
def isHex (c : Char) : Bool := c.isDigit || ('a' ≤ c && c ≤ 'f')

/-- `[_a-zA-Z0-9]` -/
def isName (c : Char) : Bool := c.isAlphanum || c = '_'

section
open Regex

/-- `^(?:<\d>)?\[\s*\d+\.\d+\] ` -/
def stripRe : Regex :=
  all [start, optional (all [literal "<", char isDigit, literal ">"]), literal "[", anyNumber Str.isSpace,
    atLeastOne isDigit, literal ".", atLeastOne isDigit, literal "] "]

/-- `0x[0-9a-f]+` -/
def hexNumber : Regex := all [literal "0x", atLeastOne isHex]

/-- `(?P<q>\? )?(?:[0-9a-f]{4}:)?(?P<symbol>[_a-zA-Z][_a-zA-Z0-9.]*)\+(?P<offset>…)/(?P<size>…)`, and then
`(?: \[(?P<module>[_a-zA-Z0-9]+)(?: [0-9a-f]+)?\])?`. -/
def frameRe : Regex :=
  all [optional (group "q" (literal "? ")), optional (all [exactly 4 isHex, literal ":"]),
    group "symbol" (all [char fun c => c.isAlpha || c = '_', anyNumber fun c => isName c || c = '.']), literal "+",
    group "offset" hexNumber, literal "/", group "size" hexNumber,
    optional (all [literal " [", group "module" (atLeastOne isName), optional (all [literal " ", atLeastOne isHex]),
      literal "]"])]

/-- `RSP: [0-9a-f]{4}:([0-9a-f]{16})` -/
def rspRe : Regex := all [literal "RSP: ", exactly 4 isHex, literal ":", group "rsp" (exactly 16 isHex)]

/-- `\b([A-Z0-9]{2,3}): *([0-9a-f]{4,16})` -/
def registersRe (alphabet : Alphabet) : Regex :=
  all [boundary alphabet.word, group "reg" (many (char fun c => c.isUpper || c.isDigit) 2 (some 3)), literal ":",
    anyNumber (· = ' '), group "addr" (many (char isHex) 4 (some 16))]

/-- `\[[^]]*\]` -/
def moduleStripRe : Regex := all [literal "[", anyNumber (· ≠ ']'), literal "]"]

/-- `\[last unloaded: ([^]]+)]*\]` -/
def lastUnloadedModuleRe : Regex :=
  all [literal "[last unloaded: ", group "modules" (atLeastOne (· ≠ ']')), anyNumber (· = ']'), literal "]"]

end

/-- `strip_re.sub('', line.strip())` -/
def strip (line : Line) : Line := stripRe.remove (Str.strip line)

/-! ## Call traces -/

structure Frame where
  function : String
  instructionAddr : String
  package : Option String
  deriving DecidableEq

/-- A call trace. Registers are there if any were found. -/
structure Trace where
  frames : List Frame
  registers : List (String × String)
  deriving DecidableEq

def ignoreFrames : List String := ["asm_exc_page_fault", "dump_stack_lvl", "panic"]

/-- The variables of `parse_traces`. No frames and no registers are both `None` and empty. -/
structure Parsing where
  traces : List Trace := []
  frames : List Frame := []
  registers : List (String × String) := []

/-- `append`, if there are frames. -/
def Parsing.append (s : Parsing) : List Trace :=
  if s.frames = [] then s.traces else s.traces ++ [⟨s.frames.reverse, s.registers⟩]

/-- The text of a group, if it took part. -/
def part? (name : String) (groups : Regex.Groups) : Option String := (Assoc.get name groups).map String.ofList

def part (name : String) (groups : Regex.Groups) : String := (part? name groups).getD ""

/-- A line with a frame. -/
def Parsing.frame (s : Parsing) (groups : Regex.Groups) : Parsing :=
  let symbol := part "symbol" groups
  if part? "q" groups ≠ none then s
  else if s.frames = [] ∧ Str.startsWith "__" symbol.toList then s
  else if symbol ∈ ignoreFrames then { s with frames := [] }
  else { s with frames := s.frames ++ [⟨symbol, part "offset" groups, part? "module" groups⟩] }

/-- `registers[reg] = '0x' + addr` -/
def setRegister (reg addr : String) (registers : List (String × String)) : List (String × String) :=
  Assoc.set reg ("0x" ++ addr) registers

/-- A line with none. -/
def Parsing.setRegisters (alphabet : Alphabet) (s : Parsing) (line : Line) : Parsing :=
  match rspRe.search line with
  | some groups => { s with registers := setRegister "rsp" (part "rsp" groups) s.registers }
  | none =>
    let found := (registersRe alphabet).findall line
    { s with
      registers :=
        found.foldl (fun l groups => setRegister (part "reg" groups).toLower (part "addr" groups) l) s.registers }

/-- The loop of `parse_traces`. -/
def Parsing.next (alphabet : Alphabet) (s : Parsing) (line : Line) : Parsing :=
  let line := strip line
  let s := if Str.startsWith "RIP: " line then { traces := s.append } else s
  match frameRe.search line with
  | some groups => s.frame groups
  | none => s.setRegisters alphabet line

def parseTraces (alphabet : Alphabet) (log : List Line) : List Trace :=
  (log.foldl (Parsing.next alphabet) {}).append

/-! ## Summaries -/

def firstLines : List String :=
  ["Kernel panic -", "BUG: unable to handle page fault for address", "PREEMPT SMP NOPTI", "general protection fault",
    "BUG: kernel NULL pointer dereference, address"]

def traceTypes : List String := ["TASK", "IRQ"]

/-- The variables of `get_summaries`. The `metadata` is `modules` and `lastUnloaded`. -/
structure Summary where
  crashSummary : List Line := []
  callTrace : List Line := []
  callTraceGrab : Option String := none
  gettingModules : Bool := false
  modules : Option (List String) := none
  lastUnloaded : Option (List String) := none
  /-- There is a list to extend. -/
  listed : gettingModules = true → modules.isSome = true := by exact fun h => absurd h Bool.false_ne_true

/-- A line of the crash. -/
def Summary.crash (s : Summary) (line : Line) : Summary :=
  let s := { s with crashSummary := s.crashSummary ++ [line] }
  match s.callTraceGrab with
  | some type =>
    if Str.contains (" </" ++ type ++ ">") line then { s with callTraceGrab := none }
    else { s with callTrace := s.callTrace ++ [line] }
  | none =>
    { s with
      callTraceGrab :=
        traceTypes.foldl (fun grab type => if Str.contains (" <" ++ type ++ ">") line then some type else grab) none }

/-- The line that ends the crash. -/
def ends (line : Line) : Bool := Str.contains "Kernel Offset:" line || Str.contains "Sending NMI" line

/-- A line in which modules are listed, after those found so far. -/
def Summary.listModules (s : Summary) (modules : List String) (line : Line) : Summary :=
  let line := strip line
  if Str.startsWith "---" line || Str.startsWith "Unloaded tainted modules:" line || Str.startsWith "CR2:" line then
    { s with
      gettingModules := false
      modules := some modules
      listed := fun _ => rfl }
  else
    let lastUnloaded := (lastUnloadedModuleRe.findall line).map (part "modules")
    { s with
      gettingModules := true
      modules := some (modules ++ Str.split ' ' (String.ofList (Str.strip (moduleStripRe.remove line))))
      lastUnloaded := if lastUnloaded = [] then s.lastUnloaded else some lastUnloaded
      listed := fun _ => rfl }

/-- What follows in a line that does not end the crash. -/
def Summary.rest (s : Summary) (line : Line) : Summary :=
  if Str.contains "Modules linked in: " line then s.listModules [] (Str.after "Modules linked in:" line)
  else if h : s.gettingModules = true then s.listModules (s.modules.get (s.listed h)) line
  else s

/-- A line is of the crash from one of the `first_lines` on. -/
def Summary.crashed (s : Summary) (line : Line) : Bool := s.crashSummary ≠ [] || firstLines.any (Str.contains · line)

/-- The loop of `get_summaries`, and whether it was left before the lines were over. -/
def Summary.read (s : Summary) : List Line → Summary × Bool
  | [] => (s, false)
  | line :: dmesg =>
    if s.crashed line then
      if ends line then ({ s.crash line with crashSummary := s.crashSummary }, true)
      else ((s.crash line).rest line).read dmesg
    else (s.rest line).read dmesg

/-- Whether what follows these lines is not read. -/
def stopsIn (dmesg : List Line) : Bool := (Summary.read {} dmesg).2

/-- The crash summary, the call traces and the metadata. -/
def getSummaries (alphabet : Alphabet) (dmesg : List Line) : String × List Trace × List (String × List String) :=
  let s := (Summary.read {} dmesg).1
  (String.ofList (s.crashSummary.flatMap stripRe.remove),
    if s.callTrace = [] then [] else parseTraces alphabet s.callTrace.dropLast,
    (s.modules.elim [] fun l => [("kernel.modules", l.mergeSort)]) ++
      (s.lastUnloaded.elim [] fun l => [("kernel.last_unloaded_modules", l)]))

end LogSubmitter.Kdump

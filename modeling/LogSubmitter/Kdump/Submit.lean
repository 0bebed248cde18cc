import LogSubmitter.Kdump
import LogSubmitter.Submit
/-!
# Crash dumps

`KdumpHelper.submit` goes through the members of an archive. The kernel's messages
are read line by line, and only as far as needed, so undecodable bytes after that do
not matter.
-/
namespace LogSubmitter.Kdump

open Lib Json Submit
open Runner (HelperResult)

/-! ## Text files -/

/-- Universal newlines. -/
def translate : List Char → List Char
  | [] => []
  | '\r' :: '\n' :: cs => '\n' :: translate cs
  | c :: cs => (if c = '\r' then '\n' else c) :: translate cs

/-- Lines with their ends. -/
def lines : List Char → List Line
  | [] => []
  | c :: cs =>
    if c = '\n' then [c] :: lines cs
    else match lines cs with
      | [] => [[c]]
      | line :: rest => (c :: line) :: rest

/-- `io.TextIOWrapper`: the lines it gives, and whether a `UnicodeDecodeError` comes after them. It reads
ahead, so how many lines it gives of a text that cannot be decoded depends on its buffer. -/
structure TextReader where
  read : List UInt8 → List Line × Bool
  decoded : ∀ data text, decode data = some text → read data = (lines (translate text), false)
  undecodable : ∀ data, decode data = none → (read data).2 = true ∧
    ∃ n text, decode (data.take n) = some text ∧ (read data).1 <+: lines (translate text)

/-- `val.strip('"')` of a value in quotes. -/
def unquote (val : List Char) : List Char :=
  if 2 ≤ val.length ∧ val.head? = some '"' ∧ val.getLast? = some '"' then
    (val.dropWhile (· = '"')).rdropWhile (· = '"')
  else val

/-- `get_file_key` -/
def getFileKey (key : String) : List Line → Option String
  | [] => none
  | line :: rest =>
    let name := line.takeWhile (· ≠ '=')
    if '=' ∈ line ∧ name = key.toList then
      some (String.ofList (unquote (Str.strip (line.drop (name.length + 1)))))
    else getFileKey key rest

/-! ## Time stamps -/

section
open Regex

def digitsOf (first : List Char) (second : Char → Bool) : Regex := all [char (first.contains ·), char second]

/-- `%Y%m%d%H%M` -/
def timeFormat : Regex :=
  all [group "Y" (exactly 4 isDigit),
    group "m" (oneOf (digitsOf ['1'] "012".toList.contains)
      [digitsOf ['0'] "123456789".toList.contains, char "123456789".toList.contains]),
    group "d" (oneOf (digitsOf ['3'] "01".toList.contains)
      [digitsOf ['1', '2'] isDigit, digitsOf ['0'] "123456789".toList.contains, char "123456789".toList.contains,
        digitsOf [' '] "123456789".toList.contains]),
    group "H" (oneOf (digitsOf ['2'] "0123".toList.contains) [digitsOf ['0', '1'] isDigit, char isDigit]),
    group "M" (oneOf (digitsOf "012345".toList isDigit) [char isDigit])]

end

def isLeap (year : Int) : Bool := year % 4 = 0 && (year % 100 ≠ 0 || year % 400 = 0)

/-- The lengths of the months. -/
def months (year : Int) : List Int := [31, if isLeap year then 29 else 28, 31, 30, 31, 30, 31, 31, 30, 31, 30, 31]

/-- `datetime.date.toordinal`, `none` where there is no such day. -/
def toordinal (year month day : Int) : Option Int :=
  let y := year - 1
  if 1 ≤ year ∧ 1 ≤ day ∧ day ≤ ((months year)[(month - 1).toNat]?.getD 0) then
    some (y * 365 + y / 4 - y / 100 + y / 400 + ((months year).take (month - 1).toNat).foldl (· + ·) 0 + day)
  else none

/-- `calendar.timegm(time.strptime(text, '%Y%m%d%H%M'))`, `none` for a `ValueError`. -/
def parseTime (text : List Char) : Option Int :=
  match timeFormat.first ⟨[], text⟩ with
  | none => none
  | some (place, groups) =>
    let number (name : String) : Int := (Str.int (part name groups)).getD 0
    if place.after ≠ [] then none
    else (toordinal (number "Y") (number "m") (number "d")).map fun days =>
      (((days - 719163) * 24 + number "H") * 60 + number "M") * 60

/-- `name.split('-')[-1]` -/
def timeText (fname : List Char) : List Char := ((stem fname).reverse.takeWhile (· ≠ '-')).reverse

/-! ## Values of the event -/

def Frame.json (f : Frame) : Json :=
  .obj ([("function", .str f.function), ("instruction_addr", .str f.instructionAddr), ("addr_mode", .str "rel")] ++
    f.package.elim [] fun module => [("package", .str module)])

def Trace.json (t : Trace) : Json :=
  .obj (("frames", .arr (t.frames.map Frame.json)) ::
    if t.registers = [] then [] else [("registers", .obj (t.registers.map fun p => (p.1, .str p.2)))])

/-- `==` of dicts, which have no order. -/
def Trace.same (a b : Trace) : Bool :=
  a.frames = b.frames && a.registers.length = b.registers.length &&
    a.registers.all fun p => Assoc.get p.1 b.registers = some p.2

/-- The loop over `stack`: `pruned_stack` and `last_stack`. -/
def prune : List Trace × Option Trace → List Trace → List Trace
  | (pruned, _), [] => pruned
  | (pruned, none), frames :: stack => prune (pruned ++ [frames], some frames) stack
  | (pruned, some last), frames :: stack =>
    if frames.same last then prune (pruned, some last) stack
    else if frames.frames ≠ last.frames then prune (pruned ++ [frames], some frames) stack
    else if frames.registers ≠ [] ∧ last.registers = [] then prune (pruned.dropLast ++ [frames], some frames) stack
    else prune (pruned, some last) stack

/-! ## `submit` -/

section
variable (alphabet : Alphabet) (reader : TextReader)

/-- What has been read of the archive. -/
structure Progress where
  event : Event
  stack : List Trace := []

/-- `if not event.message` -/
def unset : Message → Bool
  | .value v => !v.truthy
  | .format _ => false

def isVersion (zname : String) : Bool := Str.startsWith "version" zname.toList

def isBuild (zname : String) : Bool := Str.startsWith "build" zname.toList

def isDmesg (zname : String) : Bool := Str.startsWith "dmesg" zname.toList

/-- `event.tags['kernel'] = data.decode().strip()` -/
def setKernel (data : List UInt8) (event : Event) : Except Raised Event :=
  match decode data with
  | none => .error .unicodeDecodeError
  | some text => .ok { event with tags := Assoc.set "kernel" (.str (String.ofList (Str.strip text))) event.tags }

def setBuild (data : List UInt8) (event : Event) : Event :=
  let build := lines (decodeReplace data)
  { event with
    osBuild := getFileKey "BUILD_ID" build
    version := getFileKey "VERSION_ID" build }

/-- What is done with the result of `get_summaries`. -/
def Progress.summarize (s : Progress) (summary : String × List Trace × List (String × List String)) : Progress where
  event :=
    if unset s.event.message then
      { s.event with
        message := .value (.str summary.1)
        extra := summary.2.2.map fun p => (p.1, .arr (p.2.map .str)) }
    else s.event
  stack := s.stack ++ summary.2.1

/-- `get_summaries` of a member. -/
def Progress.dmesg (s : Progress) (data : List UInt8) : Except Raised Progress :=
  if (reader.read data).2 && !stopsIn (reader.read data).1 then .error .unicodeDecodeError
  else .ok (s.summarize (getSummaries alphabet (reader.read data).1))

/-- The loop over the members. -/
def Progress.member (s : Progress) (zname : String) (data : List UInt8) : Except Raised Progress := do
  let event := { s.event with attachments := s.event.attachments ++ [⟨data, some zname, some "text/plain"⟩] }
  let event ← if isVersion zname then setKernel data event else .ok event
  let event := if isBuild zname then setBuild data event else event
  if isDmesg zname then Progress.dmesg alphabet reader { s with event := event } data
  else return { s with event := event }

/-- What is done when the archive has been read. -/
def Progress.finish (s : Progress) (fname : List Char) (attachment : List UInt8) : Submission :=
  match s.event.message with
  | .value .null => permanentError
  | _ =>
    match parseTime (timeText fname) with
    | none => .error .valueError
    | some timestamp => .ok (.send { s.event with
        attachments := s.event.attachments ++ [⟨attachment, some "kdump.zip", some "application/zip"⟩]
        timestamp := .num timestamp
        exceptions := (prune ([], none) s.stack).map fun frames =>
          .obj [("stacktrace", frames.json), ("type", .str "PANIC")] })

/-- `KdumpHelper.submit`. The archive is opened first, then the file itself. -/
def submit (new : Event) (fname : List Char) (zip : ZipFile) (file : Option (List UInt8)) : Submission :=
  match zip with
  | .unreadable => transientError
  | .bad => permanentError
  | .members m => do
    let s ← m.items.foldlM (fun s p => Progress.member alphabet reader s p.1 p.2) { event := new }
    match file with
    | none => transientError
    | some attachment => s.finish fname attachment

end

example : ["202401021504", "2024010215045", "20240230", "200002290000"].map (fun t => parseTime t.toList) =
    [some 1704207840, none, none, some 951782400] := by decide +kernel

end LogSubmitter.Kdump

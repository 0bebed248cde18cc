import LogSubmitter.Hooks.Coredump
import LogSubmitter.Lib.Raise
import LogSubmitter.Submit.Logs
import LogSubmitter.Submit.Stored
import LogSubmitter.Trace.Capture
import LogSubmitter.Trace.Line
/-!
# From a trace line to its event

`LogEvent` stores a log of a line of the trace, and `submit` of the same helper makes an
event of the log.
-/
namespace LogSubmitter.Trace.Logged

open Lib Json Raise
open Line (TraceLine traceLine)
open Submit (Fields stored setSome)

abbrev Text := List Char

/-! ## `prepare_event` -/

inductive Raised where
  | indexError
  | overflowError
  | unicodeDecodeError
  | valueError
  /-- What `read_journal` raises. -/
  | journal
  /-- Nothing is raised, but the call does not come back. -/
  | endless
  deriving DecidableEq

/-- `TraceEvent` -/
structure TraceEvent where
  type : EventType
  /-- An `int`, and a `bool` is one. -/
  appid : Option Json := none
  pid : Option Int := none
  timestamp : FloatText
  uptime : FloatText
  journal : Option (List String) := none
  path : Option String := none
  executable : Option String := none
  comm : Option String := none
  buildId : Option String := none
  pkgname : Option String := none
  pkgver : Option String := none

/-- What a call of `LogEvent` finds outside. -/
structure System where
  ts : Nat
  /-- `ts / 1_000_000_000` -/
  seconds : FloatText
  /-- `time.time()` -/
  now : FloatText
  /-- `str(v)` -/
  str : Json → String
  str_text : ∀ text, str (.str text) = text
  /-- `float(text)` -/
  float : Text → FloatText
  /-- `int(uptime * 1_000_000)` -/
  usec : FloatText → Except Raised Int
  world : Appid.World
  /-- What comes of `get_appid`, `none` where it does not end. -/
  getAppid : Int → Option (Except Appid.Raised (Option Int))
  getAppid_eq : ∀ pid res, getAppid pid = some res ↔ ∃ fuel, Appid.getAppid world fuel pid = some res
  /-- What comes of `get_exe_build_id` and of `get_path_package`. -/
  getExeBuildId : String → Except Raised (Option String)
  getPathPackage : String → Except Raised (Option (String × String))
  /-- What `sls.util.read_journal` returns for a cursor. -/
  read : Option String → Option (List Journal.Entry) × Option String

def lineRaised : Line.Raised → Raised
  | .indexError => .indexError
  | .valueError => .valueError

section
variable (sys : System)

/-- The pid in the first of the extra arguments. -/
def victim (trace : TraceLine) : Except Raised Int :=
  match trace.extraArgs with
  | [] => .error .valueError
  | arg :: _ =>
    if Str.startsWith "pid=" arg then (Str.int (String.ofList (arg.drop 4))).elim (.error .valueError) .ok
    else .error .valueError

/-- The event with its type. Only a victim has a pid already. -/
def typed (trace : TraceLine) : Except Raised (EventType × Option Int) :=
  if trace.function = "mark_victim".toList then (victim trace).map fun pid => (.oom, some pid)
  else if trace.function = "split_lock_warn".toList then .ok (.splitLock, none)
  else .error .valueError

/-- `isinstance(v, int)` -/
def isInt : Json → Bool
  | .num _ => true
  | .bool _ => true
  | _ => false

/-- The id that comes with the line. -/
def givenAppid (data : Fields) : Except Raised (Option Json) :=
  match Assoc.get "appid" data with
  | none => .ok none
  | some v => if isInt v then .ok (some v) else .error .valueError

/-- What the path of the program tells. -/
def setPath (event : TraceEvent) : Option Json → Except Raised TraceEvent
  | none => .ok event
  | some v => do
    let path := sys.str v
    let buildId ← sys.getExeBuildId path
    let package ← sys.getPathPackage path
    return { event with
      path := some path
      executable := some (Submit.basename path.toList)
      buildId := buildId
      pkgname := package.map Prod.fst
      pkgver := package.map Prod.snd }

def setAppid (event : TraceEvent) : Except Raised TraceEvent :=
  match event.appid, event.pid with
  | none, some pid =>
    match sys.getAppid pid with
    | none => .error .endless
    | some (.error .unicodeDecodeError) => .error .unicodeDecodeError
    | some (.error .valueError) => .error .valueError
    | some (.ok appid) => .ok { event with appid := appid.map .num }
  | _, _ => .ok event

/-- The lines of the journal, with the cursors that are left. -/
def setJournal (event : TraceEvent) (cursors : String → Option String) :
    Except Raised (TraceEvent × (String → Option String)) := do
  match readJournal sys.read event.type (← sys.usec event.uptime) cursors with
  | none => .error .journal
  | some (journal, cursors) => return ({ event with journal := journal }, cursors)

/-- `TraceHelper.prepare_event` -/
def prepareEvent (line : Text) (data : Fields) (cursors : String → Option String) :
    Except Raised (TraceEvent × (String → Option String)) := do
  let trace ← (traceLine line).mapError lineRaised
  let (type, pid) ← typed trace
  let appid ← givenAppid data
  let event : TraceEvent := {
    type := type
    appid := appid
    pid := pid.or (some trace.pid)
    timestamp := sys.now
    uptime := sys.float trace.timestamp
    comm := some (((Assoc.get "comm" data).map sys.str).getD (String.ofList trace.comm)) }
  let event ← setPath sys event (Assoc.get "path" data)
  let event ← setAppid sys event
  setJournal sys event cursors

end

/-! ## `LogEvent` -/

/-- `TraceEvent.to_json`, before it is a text. -/
def TraceEvent.toJson (event : TraceEvent) : Fields :=
  let data : Fields := [("type", .str event.type.name)]
  let data := setSome "timestamp" (if event.timestamp.isZero then none else some (.float event.timestamp)) data
  let data := setSome "uptime" (if event.uptime.isZero then none else some (.float event.uptime)) data
  let data := setSome "pid" (event.pid.map .num) data
  let data := setSome "appid" event.appid data
  let data := setSome "journal" (event.journal.map fun lines => .arr (lines.map .str)) data
  let data := setSome "path" (event.path.map .str) data
  let data := setSome "executable" (event.executable.map .str) data
  let data := setSome "comm" (event.comm.map .str) data
  let data := setSome "build_id" (event.buildId.map .str) data
  let data := setSome "pkgname" (event.pkgname.map .str) data
  setSome "pkgver" (event.pkgver.map .str) data

/-- `TraceInterface.LogEvent`: the event that is stored, and the cursors. -/
def logEvent (sys : System) (line : Text) (data : Fields) (cursors : String → Option String) :
    Except Raised (TraceEvent × (String → Option String)) :=
  (prepareEvent sys line data cursors).map fun r => ({ r.1 with timestamp := sys.seconds }, r.2)

/-- `f'{ts}.json'` -/
def logName (sys : System) : Text := Nat.toDigits 10 sys.ts ++ ['.', 'j', 's', 'o', 'n']

/-- The file, as `submit` reads it. -/
def TraceEvent.file (event : TraceEvent) : Submit.LogFile where
  data := stored (.obj event.toJson)
  json := Submit.Content.ofBytes (stored (.obj event.toJson))

/-! ## `submit` -/

/-- `TraceHelper`, as far as the names of its logs go. -/
def helper : Helpers.Helper := { name := "trace", validExtensions := [".json"] }

/-- The tags, in their order. -/
def TraceEvent.labels (event : TraceEvent) : List (String × String) :=
  [("executable", event.executable), ("comm", event.comm), ("path", event.path), ("build_id", event.buildId),
    ("pkgname", event.pkgname), ("pkgver", event.pkgver)].filterMap fun l => l.2.map fun text => (l.1, text)

/-- The event that is sent for a log with a name. -/
def TraceEvent.sent (event : TraceEvent) (comm : String) (new : Submit.Event) : Submit.Event :=
  { new with
    attachments := new.attachments ++ [⟨event.file.data, some "trace.json", some "application/json"⟩]
    appid := event.appid.getD .null
    timestamp := if event.timestamp.isZero then .null else .float event.timestamp
    tags := event.labels.foldl (fun tags l => Assoc.set l.1 (.str l.2) tags) new.tags
    message := .format [.shown (.str event.type.name), .text ": ", .shown (.str (event.executable.getD comm))] }

section
variable {sys : System} {event : TraceEvent}

theorem unique_toJson (h : ∀ v ∈ event.appid, isInt v = true) : unique (.obj event.toJson) = true := by
  have htext : ∀ (text : Option String), ∀ v ∈ text.map Json.str, unique v = true := by
    rintro (_ | text) v ⟨⟩
    rfl
  have hpid : ∀ v ∈ event.pid.map Json.num, unique v = true := by
    intro v hv
    obtain ⟨n, -, rfl⟩ := Option.map_eq_some_iff.1 hv
    rfl
  have hfloat : ∀ f : FloatText, ∀ v ∈ (if f.isZero then none else some (Json.float f)), unique v = true := by
    intro f v hv
    split at hv
    · cases hv
    · cases hv
      rfl
  have happid : ∀ v ∈ event.appid, unique v = true := by
    intro v hv
    have hint := h v hv
    cases v <;> first | rfl | cases hint
  have hjournal : ∀ v ∈ event.journal.map (fun lines => Json.arr (lines.map .str)), unique v = true := by
    intro v hv
    obtain ⟨lines, -, rfl⟩ := Option.map_eq_some_iff.1 hv
    exact Submit.unique_texts lines
  unfold TraceEvent.toJson
  exact Submit.unique_setSome (htext _) (Submit.unique_setSome (htext _) (Submit.unique_setSome (htext _)
    (Submit.unique_setSome (htext _) (Submit.unique_setSome (htext _) (Submit.unique_setSome (htext _)
      (Submit.unique_setSome hjournal (Submit.unique_setSome happid (Submit.unique_setSome hpid
        (Submit.unique_setSome (hfloat _) (Submit.unique_setSome (hfloat _) rfl))))))))))

/-- What `submit` reads of the log. -/
theorem get_toJson : Assoc.get "type" event.toJson = some (.str event.type.name) ∧
    Assoc.get "timestamp" event.toJson =
      (if event.timestamp.isZero then none else some (.float event.timestamp)) ∧
    Assoc.get "appid" event.toJson = event.appid ∧
    Assoc.get "executable" event.toJson = event.executable.map .str ∧
    Assoc.get "comm" event.toJson = event.comm.map .str ∧ Assoc.get "path" event.toJson = event.path.map .str ∧
    Assoc.get "build_id" event.toJson = event.buildId.map .str ∧
    Assoc.get "pkgname" event.toJson = event.pkgname.map .str ∧
    Assoc.get "pkgver" event.toJson = event.pkgver.map .str := by
  unfold TraceEvent.toJson
  refine ⟨?_, ?_, ?_, ?_, ?_, ?_, ?_, ?_, ?_⟩ <;> simp [Submit.get_setSome, Assoc.get_cons]

/-- The loop over the attributes. -/
theorem copyItems_toJson (tags : Fields) :
    Submit.traceAttributes.foldlM (Submit.copyItem (.obj event.toJson)) tags =
      .ok (event.labels.foldl (fun tags l => Assoc.set l.1 (.str l.2) tags) tags) := by
  obtain ⟨-, -, -, hexecutable, hcomm, hpath, hbuildId, hpkgname, hpkgver⟩ := @get_toJson event
  unfold Submit.traceAttributes TraceEvent.labels
  simp only [List.foldlM_cons, List.foldlM_nil, Submit.copyItem_obj, Submit.ok_bind, hexecutable, hcomm, hpath,
    hbuildId, hpkgname, hpkgver]
  cases event.executable <;> cases event.comm <;> cases event.path <;> cases event.buildId <;>
    cases event.pkgname <;> cases event.pkgver <;> rfl

theorem submit_file (h : ∀ v ∈ event.appid, isInt v = true) {comm : String} (hc : event.comm = some comm)
    (new : Submit.Event) : Submit.Trace.submit new (some event.file) = .ok (.send (event.sent comm new)) := by
  obtain ⟨htype, htimestamp, happid, hexecutable, hcomm, -⟩ := @get_toJson event
  have hread : event.file.json = .value (.obj event.toJson) := Submit.ofBytes_stored (unique_toJson h)
  unfold Submit.Trace.submit
  simp only [hread]
  unfold Submit.Trace.submitLog
  simp only [Submit.get_obj, Submit.field, Submit.has_obj, Submit.item_obj, Submit.ok_bind, copyItems_toJson, htype,
    htimestamp, happid, hexecutable, hcomm, hc]
  unfold TraceEvent.sent
  cases event.executable with
  | none => cases event.timestamp.isZero <;> rfl
  | some executable => cases event.timestamp.isZero <;> rfl

/-! ## What comes with the line -/

theorem setPath_ok {event' : TraceEvent} {v : Option Json} (h : setPath sys event v = .ok event') :
    event'.appid = event.appid ∧ event'.comm = event.comm ∧
      event'.path = (v.map sys.str).or event.path ∧
      event'.executable = (v.map fun v => Submit.basename (sys.str v).toList).or event.executable := by
  cases v with
  | none =>
    cases h
    exact ⟨rfl, rfl, rfl, rfl⟩
  | some v =>
    obtain ⟨buildId, -, h⟩ := bind_eq_ok.1 h
    obtain ⟨package, -, h⟩ := bind_eq_ok.1 h
    cases h
    exact ⟨rfl, rfl, rfl, rfl⟩

/-- Only the id may be new. -/
theorem setAppid_ok {event' : TraceEvent} (h : setAppid sys event = .ok event') :
    ∃ appid, event' = { event with appid := appid } ∧ (∀ v, event.appid = some v → appid = some v) ∧
      ((∀ v ∈ event.appid, isInt v = true) → ∀ v ∈ appid, isInt v = true) := by
  unfold setAppid at h
  split at h
  · next hnone _ =>
    split at h
    · cases h
    · cases h
    · cases h
    · next appid _ =>
      cases h
      refine ⟨_, rfl, fun v hv => ?_, fun _ v hv => ?_⟩
      · rw [hnone] at hv
        cases hv
      · obtain ⟨n, -, rfl⟩ := Option.map_eq_some_iff.1 hv
        rfl
  · cases h
    exact ⟨event.appid, rfl, fun _ hv => hv, fun hint => hint⟩

theorem setJournal_ok {cursors : String → Option String} {r : TraceEvent × (String → Option String)}
    (h : setJournal sys event cursors = .ok r) : ∃ journal, r.1 = { event with journal := journal } := by
  obtain ⟨usec, -, h⟩ := bind_eq_ok.1 h
  split at h
  · cases h
  · cases h
    exact ⟨_, rfl⟩

theorem givenAppid_ok {data : Fields} {appid : Option Json} (h : givenAppid data = .ok appid) :
    appid = Assoc.get "appid" data ∧ ∀ v ∈ appid, isInt v = true := by
  unfold givenAppid at h
  split at h
  · next hnone =>
    cases h
    exact ⟨hnone.symm, fun v hv => (by cases hv)⟩
  · next v hsome =>
    split at h
    · next hint =>
      cases h
      refine ⟨hsome.symm, fun w hw => ?_⟩
      cases hw
      exact hint
    · cases h

theorem prepareEvent_ok {line : Text} {data : Fields} {cursors : String → Option String}
    {r : TraceEvent × (String → Option String)} (h : prepareEvent sys line data cursors = .ok r) :
    ∃ trace, traceLine line = .ok trace ∧ (∀ v ∈ r.1.appid, isInt v = true) ∧
      (∀ v, Assoc.get "appid" data = some v → r.1.appid = some v) ∧
      r.1.comm = some (((Assoc.get "comm" data).map sys.str).getD (String.ofList trace.comm)) ∧
      r.1.path = (Assoc.get "path" data).map sys.str ∧
      r.1.executable = (Assoc.get "path" data).map fun v => Submit.basename (sys.str v).toList := by
  obtain ⟨trace, htrace, h⟩ := bind_eq_ok.1 h
  have hline : traceLine line = .ok trace := by
    cases ht : traceLine line with
    | error err =>
      rw [ht] at htrace
      cases htrace
    | ok t =>
      rw [ht] at htrace
      cases htrace
      rfl
  obtain ⟨type, -, h⟩ := bind_eq_ok.1 h
  obtain ⟨given, hgiven, h⟩ := bind_eq_ok.1 h
  obtain ⟨withPath, hwithPath, h⟩ := bind_eq_ok.1 h
  obtain ⟨withAppid, hwithAppid, h⟩ := bind_eq_ok.1 h
  obtain ⟨rfl, hint⟩ := givenAppid_ok hgiven
  obtain ⟨hsame, hcomm, hpath, hexecutable⟩ := setPath_ok hwithPath
  obtain ⟨appid, rfl, hkept, hints⟩ := setAppid_ok hwithAppid
  obtain ⟨journal, hr⟩ := setJournal_ok h
  rw [hsame] at hkept hints
  rw [hr]
  refine ⟨trace, hline, hints hint, hkept, hcomm, hpath.trans ?_, hexecutable.trans ?_⟩
  · exact Option.or_none
  · exact Option.or_none

end

/-- A log that `LogEvent` stores is listed, and sent: with the game, the name and the program that came with the line,
if they did, and else with the name in the line. -/
theorem logged_is_submitted {sys : System} {line : Text} {data : Fields} {cursors cursors' : String → Option String}
    {event : TraceEvent} (h : logEvent sys line data cursors = .ok (event, cursors')) :
    ∃ trace comm, traceLine line = .ok trace ∧ event.comm = some comm ∧
      comm = ((Assoc.get "comm" data).map sys.str).getD (String.ofList trace.comm) ∧
      (∀ v, Assoc.get "appid" data = some v → event.appid = some v) ∧
      event.path = (Assoc.get "path" data).map sys.str ∧
      event.executable = ((Assoc.get "path" data).map fun v => Submit.basename (sys.str v).toList) ∧
      helper.filterLog (String.ofList (logName sys)) = true ∧ event.file.json = .value (.obj event.toJson) ∧
      ∀ new, Submit.Trace.submit new (some event.file) = .ok (.send (event.sent comm new)) := by
  obtain ⟨⟨prepared, left⟩, hprepared, hevent⟩ := map_eq_ok.1 h
  obtain ⟨trace, hline, hint, happid, hcomm, hpath, hexecutable⟩ := prepareEvent_ok hprepared
  cases hevent
  exact ⟨trace, _, hline, hcomm, rfl, happid, hpath, hexecutable,
    Helpers.filterLog_stamped (by decide) (by decide) (by decide) _,
    Submit.ofBytes_stored (@unique_toJson { prepared with timestamp := sys.seconds } hint),
    @submit_file { prepared with timestamp := sys.seconds } hint _ hcomm⟩

def someTime : FloatText := ⟨"1700000060.0".toList, by decide +kernel⟩

def lineTime : FloatText := ⟨"23828.572941".toList, by decide +kernel⟩

/-- `str(value)` of a text. -/
def ownText : Json → String
  | .str text => text
  | _ => ""

/-- A machine that knows of no processes, and has no journal. -/
def bare : System where
  ts := 1700000060000000000
  seconds := someTime
  now := someTime
  str := ownText
  str_text _ := rfl
  float _ := lineTime
  usec _ := .ok 23828572941
  world := Hooks.Coredump.unread
  getAppid _ := some (.ok none)
  getAppid_eq := Hooks.Coredump.getAppid_unread
  getExeBuildId _ := .ok none
  getPathPackage _ := .ok (some ("game", "1.0-1"))
  read _ := (none, none)

def victimLine : Text := " GamepadUI-Input-4886    [003] .N.1. 23828.572941: mark_victim: pid=14351".toList

def victimEvent : TraceEvent where
  type := .oom
  appid := some (.num 1091500)
  pid := some 14351
  timestamp := bare.seconds
  uptime := bare.float []
  path := some "/usr/bin/game"
  executable := some "game"
  comm := some "GamepadUI-Input"
  pkgname := some "game"
  pkgver := some "1.0-1"

theorem victim_is_submitted : ∃ event,
    Submit.Trace.submit { osBuild := none, version := none } (some victimEvent.file) = .ok (.send event) ∧
    event.appid = .num 1091500 ∧ event.message = .format [.shown (.str "oom"), .text ": ", .shown (.str "game")] ∧
    event.tags = [("executable", .str "game"), ("comm", .str "GamepadUI-Input"), ("path", .str "/usr/bin/game"),
      ("pkgname", .str "game"), ("pkgver", .str "1.0-1")] := by
  have hlogged : logEvent bare victimLine [("appid", .num 1091500), ("path", .str "/usr/bin/game")] (fun _ => none) =
      .ok (victimEvent, fun _ => none) := by
    rfl
  obtain ⟨trace, comm, -, hcomm, -, -, -, -, -, -, hsent⟩ := logged_is_submitted hlogged
  cases hcomm
  exact ⟨_, hsent _, rfl, rfl, by decide +kernel⟩

end LogSubmitter.Trace.Logged

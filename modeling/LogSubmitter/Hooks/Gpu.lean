import LogSubmitter.Appid
import LogSubmitter.Hooks
import LogSubmitter.Journal.Read
import LogSubmitter.Lib.Raise
import LogSubmitter.Submit.Archives
import LogSubmitter.Submit.Stored
/-!
# From a GPU reset to its event

The hook puts what it finds out into the metadata of an archive, and the helper makes
tags, a fingerprint and a message of these.
-/
namespace LogSubmitter.Hooks.Gpu

open Lib Json Raise
open Submit (Fields stored setSome)

/-! ## The hook -/

inductive Raised where
  | indexError
  | typeError
  | unicodeDecodeError
  | valueError
  /-- Nothing is raised, but the call does not come back. -/
  | endless
  deriving DecidableEq

/-- What the hook finds outside, but for the dumps. -/
structure System where
  ts : Nat
  /-- `ts / 1_000_000_000` -/
  seconds : FloatText
  release : String
  branch : Option String
  environ : Dict String String
  world : Appid.World
  /-- What comes of `get_appid`, `none` where it does not end. -/
  getAppid : Int → Option (Except Appid.Raised (Option Int))
  getAppid_eq : ∀ pid res, getAppid pid = some res ↔ ∃ fuel, Appid.getAppid world fuel pid = some res
  /-- `/proc/*/comm`, with what is in the files. -/
  comms : List (String × Option (List UInt8))
  readlink : String → Option String
  /-- The output of a program and its errors, `none` for an exception. -/
  run : List String → Option (String × String)
  exec : Journal.Command → Option (List Journal.Entry)
  /-- Messages are values of `json.loads`. -/
  unique : ∀ c lines, exec c = some lines → ∀ e ∈ lines, ∀ v ∈ e.fields.get? "MESSAGE", Json.unique v = true

section
variable (sys : System)

def System.appid (pid : Int) : Except Raised (Option Int) :=
  match sys.getAppid pid with
  | none => .error .endless
  | some (.error .unicodeDecodeError) => .error .unicodeDecodeError
  | some (.error .valueError) => .error .valueError
  | some (.ok appid) => .ok appid

/-- `PID`, if it is a number. -/
def envPid : Option Int := (sys.environ.get? "PID").bind Str.int

/-- What follows `pci-` in `ID_PATH`. -/
def pciPath : Option String :=
  (sys.environ.get? "ID_PATH").bind fun path =>
    if Str.startsWith "pci-" path.toList then some (String.ofList (path.toList.drop 4)) else none

/-- The loop over the processes, with the `pid` of the last one named `reaper`, and the first id of a game. -/
def reapers : Option Int → List (String × Option (List UInt8)) → Except Raised (Option Int × Option Int)
  | pid, [] => .ok (pid, none)
  | pid, (fcomm, data) :: comms =>
    match Appid.contents data with
    | .osError => reapers pid comms
    | .undecodable => .error .unicodeDecodeError
    | .text comm =>
      if comm.rdropWhile Str.isSpace = "reaper".toList then
        match (Str.split '/' fcomm)[2]?.bind Str.int with
        | none => reapers pid comms
        | some pid => do
          match ← sys.appid pid with
          | some appid => return (some pid, some appid)
          | none => reapers (some pid) comms
      else reapers pid comms

/-- The process, and the id of its game. -/
def process : Except Raised (Option Int × Option Int) :=
  match envPid sys with
  | some pid => if pid ≠ 0 then return (some pid, ← sys.appid pid) else reapers sys (some pid) sys.comms
  | none => reapers sys none sys.comms

def executable (pid : Option Int) : Option String :=
  (sys.readlink ("/proc/" ++ pid.elim "None" toString ++ "/exe")).map fun path => Submit.basename path.toList

/-- The second word of what `pacman -Q` prints. -/
def version (package : String) : Except Raised (Option String) :=
  match sys.run ["pacman", "-Q", package] with
  | none => .ok none
  | some (stdout, _) =>
    match (Str.split ' ' (String.ofList (Str.strip stdout.toList)))[1]? with
    | none => .error .indexError
    | some version => .ok (some version)

/-! ### The journal -/

/-- The first of the contexts that is in a message. -/
def context (message : Json) : List String → Except Raised (Option String)
  | [] => .ok none
  | c :: contexts =>
    match Submit.has message c with
    | .error _ => .error .typeError
    | .ok true => .ok (some c)
    | .ok false => context message contexts

section
open Regex

/-- `\*ERROR\* ring ([^ ]+) timeout` -/
def ringRe : Regex := all [literal "*ERROR* ring ", group "1" (atLeastOne (· ≠ ' ')), literal " timeout"]

end

def searchRing (ring : Option String) : Json → Except Raised (Option String)
  | .str message => .ok ((ringRe.search message.toList).elim ring fun groups => some (Kdump.part "1" groups))
  | _ => .error .typeError

/-- A relevant line. The ring is looked for in those of one driver. -/
def addLine (s : List Json × Option String) (message : Json) (c : String) :
    Except Raised (List Json × Option String) :=
  (if c = "amdgpu" then searchRing s.2 message else .ok s.2).map fun ring => (s.1 ++ [message], ring)

/-- A round of the loop over the lines, with `relevant` and `ring`. -/
def readLine (s : List Json × Option String) (line : Journal.Entry) : Except Raised (List Json × Option String) := do
  let message := (line.fields.get? "MESSAGE").getD (.str "")
  match ← context message ["amdgpu", "drm", "i915", "nouveau"] with
  | none => return s
  | some c => addLine s message c

def lines : List Journal.Entry :=
  (Journal.readJournal sys.exec "kernel" none { currentBoot := true, startAgoMs := some 15000 }).1.getD []

/-- The relevant lines, if there are lines at all, and the ring. -/
def journal : Except Raised (Option (List Json) × Option String) :=
  if lines sys = [] then .ok (none, none)
  else do
    let (relevant, ring) ← (lines sys).foldlM readLine ([], none)
    return (some relevant, ring)

/-! ### Waves and rings -/

/-- The output, with the errors if there are any. -/
def printed (p : String × String) : Json :=
  .obj (("stdout", .str p.1) :: if p.2 = "" then [] else [("stderr", .str p.2)])

def umr (ring : Option String) : Option Json :=
  match pciPath sys, ring with
  | some path, some ring =>
    let wave := sys.run ["umr", "--by-pci", path, "-O", "bits,halt_waves", "-go", "0", "-wa", ring, "-go", "1"]
    let log := setSome "wave" (wave.map printed) []
    let log := setSome "ring" ((sys.run ["umr", "--by-pci", path, "-RS", "gfx_0.0.0"]).map printed) log
    if log = [] then none else some (.obj log)
  | _, _ => none

/-! ### The archive -/

/-- What has been found out. -/
structure Findings where
  pid : Option Int
  appid : Option Int
  executable : Option String
  comm : Option String
  mesa : Option String
  radv : Option String
  journal : Option (List Json)
  umr : Option Json

def findings : Except Raised Findings := do
  let (pid, appid) ← process sys
  let mesa ← version sys "mesa"
  let radv ← version sys "vulkan-radeon"
  let (relevant, ring) ← journal sys
  return {
    pid := (envPid sys).filter (· ≠ 0)
    appid := appid
    executable := executable sys pid
    comm := (sys.environ.get? "NAME").filter (· ≠ "")
    mesa := mesa
    radv := radv
    journal := relevant
    umr := umr sys ring }

/-- `log` -/
def Findings.log (f : Findings) : Fields :=
  let log : Fields := [("timestamp", .float sys.seconds), ("kernel", .str sys.release),
    ("branch", sys.branch.elim .null .str), ("env", .obj (sys.environ.items.map fun p => (p.1, .str p.2)))]
  let log := setSome "pid" (f.pid.map .num) log
  let log := setSome "appid" (f.appid.map .num) log
  let log := setSome "executable" (f.executable.map .str) log
  let log := setSome "comm" (f.comm.map .str) log
  let log := setSome "mesa" (f.mesa.map .str) log
  let log := setSome "radv" (f.radv.map .str) log
  let log := setSome "journal" (f.journal.map .arr) log
  setSome "umr" f.umr log

/-- `f'{ts}.zip'` -/
def zipName : List Char := Nat.toDigits 10 sys.ts ++ ['.', 'z', 'i', 'p']

/-- The members of the archive, if one is published. The dumps are looked for under `DEVPATH`. -/
def archive (env : GpuEnv) : Except Raised (Option (Dict String (List UInt8))) := do
  let f ← findings sys
  let outcome := Gpu.run { env with devpath := (sys.environ.get? "DEVPATH").map String.toList }
  let members := Dict.empty.insert "metadata.json" (stored (.obj (f.log sys)))
  return outcome.archive.map fun devcd => devcd.elim members fun dump => members.insert "devcd" dump.2

/-! ## The event -/

/-- `GPUHelper`, as far as the names of its logs go. -/
def helper : Helpers.Helper := { name := "gpu", validExtensions := [".zip"] }

/-- What is known of a reset, by tag. Empty texts are passed over. -/
def Findings.labels (f : Findings) : List (String × String) :=
  [("executable", f.executable.filter (· ≠ "")), ("comm", f.comm.filter (· ≠ "")), ("kernel", some sys.release),
    ("mesa", f.mesa.filter (· ≠ ""))].filterMap fun l => l.2.map fun text => (l.1, text)

/-- The game goes before the program. -/
def Findings.message (f : Findings) : Submit.FString :=
  match f.appid, (f.executable.filter (· ≠ "")).or (f.comm.filter (· ≠ "")) with
  | some appid, _ => [.text "GPU reset (", .text (toString appid), .text ")"]
  | none, some name => [.text "GPU reset (", .shown (.str name), .text ")"]
  | none, none => [.text "GPU reset"]

/-- The event for an archive. -/
def Findings.event (f : Findings) (new : Submit.Event) (zip : List UInt8) : Submit.Event :=
  { new with
    attachments := new.attachments ++ [⟨stored (.obj (f.log sys)), some "metadata.json", some "application/json"⟩,
      ⟨zip, some (String.ofList (zipName sys)), some "application/zip"⟩]
    appid := f.appid.elim .null .num
    timestamp := .float sys.seconds
    tags := (f.labels sys).map fun l => (l.1, .str l.2)
    fingerprint := (f.labels sys).map fun l => [.text (l.1 ++ ":"), .shown (.str l.2)]
    message := .format f.message }

end

section
variable {sys : System} {f : Findings}

/-- No object in what was found has a key twice. -/
structure Findings.Unique (f : Findings) : Prop where
  journal : ∀ l ∈ f.journal, unique (.arr l) = true
  umr : ∀ v ∈ f.umr, unique v = true

theorem unique_umr (ring : Option String) : ∀ v ∈ umr sys ring, unique v = true := by
  intro v hv
  have hprinted : ∀ (out : Option (String × String)), ∀ w ∈ out.map printed, unique w = true := by
    rintro (_ | ⟨stdout, stderr⟩) w ⟨⟩
    unfold printed
    split <;> simp [unique, uniqueFields]
  unfold umr at hv
  split at hv
  · dsimp only at hv
    split at hv
    · cases hv
    · cases hv
      exact Submit.unique_setSome (hprinted _) (Submit.unique_setSome (hprinted _) rfl)
  · cases hv

theorem unique_readLine {s s' : List Json × Option String} {line : Journal.Entry}
    (hline : ∀ v ∈ line.fields.get? "MESSAGE", unique v = true) (hs : ∀ v ∈ s.1, unique v = true)
    (h : readLine s line = .ok s') : ∀ v ∈ s'.1, unique v = true := by
  have hmessage : unique ((line.fields.get? "MESSAGE").getD (.str "")) = true := by
    cases hm : line.fields.get? "MESSAGE" with
    | none => rfl
    | some v => exact hline v hm
  obtain ⟨c, -, h⟩ := bind_eq_ok.1 h
  cases c with
  | none =>
    cases h
    exact hs
  | some c =>
    obtain ⟨ring, -, rfl⟩ := map_eq_ok.1 h
    simp only [List.forall_mem_append, List.forall_mem_singleton]
    exact ⟨hs, hmessage⟩

theorem unique_lines : ∀ line ∈ lines sys, ∀ v ∈ line.fields.get? "MESSAGE", unique v = true := by
  intro line hline
  unfold lines Journal.readJournal at hline
  split at hline
  · cases hline
  · next hexec =>
    dsimp only [Option.getD_some] at hline
    rw [Journal.readLines_eq] at hline
    exact sys.unique _ _ hexec line (List.mem_of_mem_filter hline)

theorem unique_journal {r : Option (List Json) × Option String} (h : journal sys = .ok r) :
    ∀ l ∈ r.1, unique (.arr l) = true := by
  unfold journal at h
  split at h
  · cases h
    rintro l ⟨⟩
  · obtain ⟨s, hs, h⟩ := bind_eq_ok.1 h
    cases h
    rintro l ⟨⟩
    rw [unique, uniqueAll_iff]
    exact foldlM_keeps (p := fun s => ∀ v ∈ s.1, unique v = true)
      (fun line hline _ _ hs h => unique_readLine (unique_lines line hline) hs h)
      (fun _ hv => absurd hv List.not_mem_nil) hs

theorem unique_findings (h : findings sys = .ok f) : f.Unique := by
  unfold findings at h
  obtain ⟨process, -, h⟩ := bind_eq_ok.1 h
  obtain ⟨mesa, -, h⟩ := bind_eq_ok.1 h
  obtain ⟨radv, -, h⟩ := bind_eq_ok.1 h
  obtain ⟨journal, hjournal, h⟩ := bind_eq_ok.1 h
  cases h
  exact ⟨unique_journal hjournal, unique_umr _⟩

theorem unique_log (h : f.Unique) : unique (.obj (f.log sys)) = true := by
  have hbase : unique (.obj [("timestamp", .float sys.seconds), ("kernel", .str sys.release),
      ("branch", sys.branch.elim .null .str), ("env", .obj (sys.environ.items.map fun p => (p.1, .str p.2)))]) =
      true := by
    have henv := Submit.unique_dict sys.environ
    cases hbranch : sys.branch <;> simp [unique, uniqueFields] at henv ⊢ <;> exact henv
  have htext : ∀ (text : Option String), ∀ v ∈ text.map Json.str, unique v = true := by
    rintro (_ | text) v ⟨⟩
    rfl
  have hnumber : ∀ (n : Option Int), ∀ v ∈ n.map Json.num, unique v = true := by
    rintro (_ | n) v ⟨⟩
    rfl
  have hjournal : ∀ v ∈ f.journal.map Json.arr, unique v = true := by
    intro v hv
    obtain ⟨l, hl, rfl⟩ := Option.map_eq_some_iff.1 hv
    exact h.journal l hl
  unfold Findings.log
  exact Submit.unique_setSome h.umr (Submit.unique_setSome hjournal (Submit.unique_setSome (htext _)
    (Submit.unique_setSome (htext _) (Submit.unique_setSome (htext _) (Submit.unique_setSome (htext _)
      (Submit.unique_setSome (hnumber _) (Submit.unique_setSome (hnumber _) hbase)))))))

/-- What the helper reads of the metadata. -/
theorem get_log : Assoc.get "timestamp" (f.log sys) = some (.float sys.seconds) ∧
    Assoc.get "kernel" (f.log sys) = some (.str sys.release) ∧
    Assoc.get "appid" (f.log sys) = f.appid.map .num ∧
    Assoc.get "executable" (f.log sys) = f.executable.map .str ∧
    Assoc.get "comm" (f.log sys) = f.comm.map .str ∧ Assoc.get "mesa" (f.log sys) = f.mesa.map .str := by
  unfold Findings.log
  refine ⟨?_, ?_, ?_, ?_, ?_, ?_⟩ <;> simp [Submit.get_setSome, Assoc.get_cons]

/-- A text is taken for a value unless it is empty. -/
theorem truthy_text (text : Option String) :
    ((text.map Json.str).getD .null).truthy = false ∧ text.filter (· ≠ "") = none ∨
      ∃ t, (text.map Json.str).getD .null = .str t ∧ (Json.str t).truthy = true ∧ text.filter (· ≠ "") = some t := by
  cases text with
  | none => exact .inl ⟨rfl, rfl⟩
  | some t =>
    by_cases ht : t = ""
    · subst ht
      exact .inl ⟨rfl, rfl⟩
    · exact .inr ⟨t, rfl, by simpa [Json.truthy] using ht, by simp [Option.filter, ht]⟩

theorem addName_text (l : Submit.Gpu.Labels) (key : String) (text : Option String) :
    l.addName key ((text.map Json.str).getD .null) =
      (text.filter (· ≠ "")).elim l fun t => { l.add key (.str t) with
        message := l.message.or (some [.text "GPU reset (", .shown (.str t), .text ")"]) } := by
  unfold Submit.Gpu.Labels.addName
  rcases truthy_text text with ⟨hfalse, hnone⟩ | ⟨t, hvalue, htrue, hsome⟩
  · rw [hfalse, hnone]
    rfl
  · rw [hvalue, if_pos htrue, hsome]
    rfl

theorem add_text (l : Submit.Gpu.Labels) (key : String) (text : Option String) :
    (if ((text.map Json.str).getD .null).truthy then l.add key ((text.map Json.str).getD .null) else l) =
      (text.filter (· ≠ "")).elim l fun t => l.add key (.str t) := by
  rcases truthy_text text with ⟨hfalse, hnone⟩ | ⟨t, hvalue, htrue, hsome⟩
  · rw [hfalse, hnone]
    rfl
  · rw [hvalue, if_pos htrue, hsome]
    rfl

theorem submitLog_log (new : Submit.Event) (fname : List Char) (metadata zip : List UInt8) :
    Submit.Gpu.submitLog new fname metadata zip (.obj (f.log sys)) = .ok (.send { f.event sys new zip with
      attachments := new.attachments ++ [⟨metadata, some "metadata.json", some "application/json"⟩,
        ⟨zip, some (Submit.basename fname), some "application/zip"⟩] }) := by
  obtain ⟨htimestamp, hkernel, happid, hexecutable, hcomm, hmesa⟩ := @get_log sys f
  have hconverted : Submit.Gpu.converted Submit.int (.obj (f.log sys)) "appid" = .ok f.appid := by
    unfold Submit.Gpu.converted
    simp only [Submit.has_obj, Submit.item_obj, happid]
    cases f.appid <;> rfl
  have hfloat : Submit.Gpu.converted Submit.float (.obj (f.log sys)) "timestamp" =
      .ok (some (.float sys.seconds)) := by
    unfold Submit.Gpu.converted
    simp only [Submit.has_obj, Submit.item_obj, htimestamp]
    rfl
  unfold Submit.Gpu.submitLog
  simp only [hconverted, hfloat, Submit.get_obj, Submit.field, hexecutable, hcomm, hkernel, hmesa, Submit.ok_bind,
    addName_text, add_text]
  unfold Findings.event Findings.labels Findings.message
  generalize f.executable.filter _ = executable
  generalize f.comm.filter _ = comm
  generalize f.mesa.filter _ = mesa
  cases f.appid <;> cases executable <;> cases comm <;> cases mesa <;> rfl

end

/-- An archive that the hook leaves is listed, and sent: with the game, with the names, and with all that the hook has
found out. -/
theorem reset_is_submitted {sys : System} {env : GpuEnv} {members : Dict String (List UInt8)}
    (h : archive sys env = .ok (some members)) :
    ∃ f, findings sys = .ok f ∧ helper.filterLog (String.ofList (zipName sys)) = true ∧
      Submit.Content.ofBytes (stored (.obj (f.log sys))) = .value (.obj (f.log sys)) ∧
      ∀ new dir zip, Submit.Gpu.submit new (dir ++ '/' :: zipName sys) (.members members) (some zip) =
        .ok (.send (f.event sys new zip)) := by
  obtain ⟨f, hf, h⟩ := bind_eq_ok.1 h
  obtain ⟨devcd, -, hmembers⟩ := Option.map_eq_some_iff.1 (Except.ok.inj h)
  have hmetadata : members.get? "metadata.json" = some (stored (.obj (f.log sys))) := by
    rw [← hmembers]
    cases devcd with
    | none => exact Dict.get?_insert_self _ _ _
    | some dump =>
      rw [Option.elim_some, Dict.get?_insert_of_ne _ (by decide)]
      exact Dict.get?_insert_self _ _ _
  have hread : Submit.Content.ofBytes (stored (.obj (f.log sys))) = .value (.obj (f.log sys)) :=
    Submit.ofBytes_stored (unique_log (unique_findings hf))
  have hlog := @Helpers.filterLog_stamped helper ['z', 'i', 'p'] (by decide) (by decide) (by decide) sys.ts
  refine ⟨f, hf, hlog, hread, fun new dir zip => ?_⟩
  have hslash : '/' ∉ zipName sys := by
    rw [zipName, List.mem_append, not_or]
    exact ⟨Helpers.not_mem_toDigits (by decide), by decide⟩
  have hname : Submit.basename (dir ++ '/' :: zipName sys) = String.ofList (zipName sys) :=
    congrArg String.ofList (Helpers.basename_append dir hslash)
  unfold Submit.Gpu.submit
  simp only [hmetadata, hread, submitLog_log, hname]
  rfl

/-- A game that is under `reaper`. -/
def gaming : Appid.World := fun _ =>
  { environ := some (encode "SteamGameId=1091500".toList), stat := none, cmdline := none }

def gamingAppid (pid : Int) : Option (Except Appid.Raised (Option Int)) :=
  some (.ok (if 1 < pid then some 1091500 else none))

theorem gamingAppid_eq (pid : Int) (res : Except Appid.Raised (Option Int)) :
    gamingAppid pid = some res ↔ ∃ fuel, Appid.getAppid gaming fuel pid = some res := by
  have hround : Appid.round gaming (pid, none) = .done (.ok (if 1 < pid then some 1091500 else none)) := by
    by_cases h : 1 < pid
    · rw [Appid.round_of_lt h, if_pos h]
      rfl
    · rw [Appid.round_of_le (by omega), if_neg h]
      rfl
  have hyields := Loop.yields_of_done (c := res) hround
  unfold gamingAppid
  rw [Option.some.injEq, eq_comm]
  exact hyields.symm

/-- There is no journal. -/
theorem deck_unique : ∀ (_ : Journal.Command) (lines : List Journal.Entry), none = some lines → ∀ e ∈ lines,
    ∀ v ∈ e.fields.get? "MESSAGE", Json.unique v = true := by
  simp

def deck : System where
  ts := 1700000030000000000
  seconds := ⟨"1700000030.0".toList, by decide +kernel⟩
  release := "6.1.52-valve16-1-neptune-61"
  branch := some "stable"
  environ := ⟨[("PID", "1234"), ("NAME", "game.exe"), ("DEVPATH", "/devices/pci0/drm/card0")], by decide⟩
  world := gaming
  getAppid := gamingAppid
  getAppid_eq := gamingAppid_eq
  comms := []
  readlink path := if path = "/proc/1234/exe" then some "/usr/bin/wine64-preloader" else none
  run args := if args = ["pacman", "-Q", "mesa"] then some ("mesa 23.3.0-1\n", "") else none
  exec _ := none
  unique := deck_unique

/-- Without dumps. -/
def noDumps : GpuEnv where
  cwd := root
  devpath := none
  devcds := []
  nodup := List.nodup_nil
  opens := true
  publishes := true

def deckFindings : Findings where
  pid := some 1234
  appid := some 1091500
  executable := some "wine64-preloader"
  comm := some "game.exe"
  mesa := some "23.3.0-1"
  radv := none
  journal := none
  umr := none

theorem deck_is_submitted : ∃ members event, archive deck noDumps = .ok (some members) ∧
    Submit.Gpu.submit { osBuild := none, version := none } ("/pending/gpu".toList ++ '/' :: zipName deck)
      (.members members) (some [80, 75]) = .ok (.send event) ∧ event.appid = .num 1091500 ∧
    event.tags = [("executable", .str "wine64-preloader"), ("comm", .str "game.exe"),
      ("kernel", .str "6.1.52-valve16-1-neptune-61"), ("mesa", .str "23.3.0-1")] := by
  obtain ⟨f, hf, -, -, hsent⟩ := @reset_is_submitted deck noDumps _ rfl
  have hfindings : findings deck = .ok deckFindings := rfl
  rw [hfindings] at hf
  cases hf
  exact ⟨_, _, rfl, hsent _ _ _, rfl, by decide +kernel⟩

end LogSubmitter.Hooks.Gpu

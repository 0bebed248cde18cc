import LogSubmitter.Hooks
import LogSubmitter.Journal.Read
import LogSubmitter.Str
import LogSubmitter.Submit.Archives
import LogSubmitter.Submit.Stored
/-!
# From a device coredump to its event

The hook leaves an archive under the name of the driver and of the device, and the
helper makes a message of both.
-/
namespace LogSubmitter.Hooks.Devcoredump

open Lib Json Path
open Submit (Fields stored setSome)

/-! ## The hook -/

/-- What the hook finds outside. -/
structure System where
  env : DevcoredumpEnv
  /-- `ts / 1_000_000_000` -/
  seconds : FloatText
  release : String
  branch : Option String
  exec : Journal.Command → Option (List Journal.Entry)
  /-- Messages are values of `json.loads`. -/
  unique : ∀ c lines, exec c = some lines → ∀ e ∈ lines, ∀ v ∈ e.fields.get? "MESSAGE", Json.unique v = true
  /-- The data of the dump. -/
  data : Dump
  /-- The staging file can be created, and it can be renamed. -/
  opens : Bool
  publishes : Bool

section
variable (sys : System)

/-- The messages of the kernel, which are read if there is a driver. -/
def journal (driver : Option Text) : Option (List Json) :=
  driver.bind fun _ =>
    (Journal.readJournal sys.exec "kernel" none { currentBoot := true, startAgoMs := some 15000 }).1.map fun lines =>
      lines.filterMap fun line => line.fields.get? "MESSAGE"

def textOf (text : Text) : Json := .str (String.ofList text)

/-- `metadata` -/
def metadata (report : Report) : Fields :=
  let log : Fields := [("timestamp", .float sys.seconds), ("kernel", .str sys.release),
    ("branch", sys.branch.elim .null .str)]
  let log := setSome "failing_device" (report.failingDevice.map textOf) log
  let log := setSome "driver" (report.driver.map textOf) log
  setSome "journal" ((journal sys report.driver).map .arr) log

/-- What gets into the archive of the data. It is written as it is read. -/
def copied : Dump → List UInt8
  | .unreadable => []
  | .breaks read => read
  | .content bytes => bytes

/-- The archive that gets to the helper, with its name. An error in the data does not keep it back. -/
def archive : Option (Text × Dict String (List UInt8)) :=
  if sys.opens && sys.publishes then
    (run sys.env).map fun report =>
      (report.fileName, (Dict.empty.insert "metadata.json" (stored (.obj (metadata sys report)))).insert "dump"
        (copied sys.data))
  else none

/-! ## The event -/

/-- `DevcoredumpHelper`, as far as the names of its logs go. -/
def helper : Helpers.Helper := { name := "devcoredump", validExtensions := [".zip"] }

/-- The tags, in their order. -/
def labels (report : Report) : Fields :=
  [("kernel", .str sys.release), ("branch", sys.branch.elim .null .str)] ++
    (report.failingDevice.elim [] fun dev => [("failing_device", textOf dev)]) ++
    report.driver.elim [] fun driver => [("driver", textOf driver)]

def message (report : Report) : Submit.FString :=
  match report.driver, report.failingDevice with
  | some driver, some dev => [.shown (textOf driver), .text ": ", .shown (textOf dev)]
  | none, some dev => [.shown (textOf dev)]
  | some driver, none => [.shown (textOf driver)]
  | none, none => [.text "Unknown device"]

/-- The event for an archive. -/
def event (report : Report) (new : Submit.Event) (zip : List UInt8) : Submit.Event :=
  { new with
    attachments := new.attachments ++ [⟨zip, some (String.ofList report.fileName), some "application/zip"⟩,
      ⟨stored (.obj (metadata sys report)), some "metadata.json", some "application/json"⟩]
    timestamp := .float sys.seconds
    tags := (labels sys report).foldl (fun tags l => Assoc.set l.1 l.2 tags) new.tags
    fingerprint := new.fingerprint ++
      report.driver.elim [] fun driver => [[.text "driver:", .shown (textOf driver)]]
    message := .format (message report) }

end

section
variable {sys : System} {report : Report}

theorem unique_metadata : unique (.obj (metadata sys report)) = true := by
  have htext : ∀ (text : Option Text), ∀ v ∈ text.map textOf, unique v = true := by
    rintro (_ | text) v ⟨⟩
    rfl
  have hjournal : ∀ v ∈ (journal sys report.driver).map Json.arr, unique v = true := by
    intro v hv
    obtain ⟨l, hl, rfl⟩ := Option.map_eq_some_iff.1 hv
    obtain ⟨_, -, hl⟩ := Option.bind_eq_some_iff.1 hl
    obtain ⟨lines, hlines, rfl⟩ := Option.map_eq_some_iff.1 hl
    rw [unique, uniqueAll_iff]
    intro message hm
    obtain ⟨line, hline, hmessage⟩ := List.mem_filterMap.1 hm
    unfold Journal.readJournal at hlines
    split at hlines
    · cases hlines
    · next hexec =>
      cases hlines
      rw [Journal.readLines_eq] at hline
      exact sys.unique _ _ hexec line (List.mem_of_mem_filter hline) message hmessage
  unfold metadata
  refine Submit.unique_setSome hjournal (Submit.unique_setSome (htext _) (Submit.unique_setSome (htext _) ?_))
  cases sys.branch <;> rfl

/-- What the helper reads of the metadata. -/
theorem get_metadata : Assoc.get "timestamp" (metadata sys report) = some (.float sys.seconds) ∧
    Assoc.get "kernel" (metadata sys report) = some (.str sys.release) ∧
    Assoc.get "branch" (metadata sys report) = some (sys.branch.elim .null .str) ∧
    Assoc.get "failing_device" (metadata sys report) = report.failingDevice.map textOf ∧
    Assoc.get "driver" (metadata sys report) = report.driver.map textOf := by
  unfold metadata
  refine ⟨?_, ?_, ?_, ?_, ?_⟩ <;> simp [Submit.get_setSome, Assoc.get_cons]

theorem submitLog_metadata (new : Submit.Event) (fname : List Char) (zip data : List UInt8) :
    Submit.Devcoredump.submitLog new fname zip data (.obj (metadata sys report)) =
      .ok (.send { event sys report new zip with
        attachments := new.attachments ++ [⟨zip, some (Submit.basename fname), some "application/zip"⟩,
          ⟨data, some "metadata.json", some "application/json"⟩] }) := by
  obtain ⟨htimestamp, hkernel, hbranch, hdevice, hdriver⟩ := @get_metadata sys report
  unfold Submit.Devcoredump.submitLog event labels message
  simp only [List.foldlM_cons, List.foldlM_nil, Submit.copyItem_obj, Submit.has_obj, Submit.item_obj, htimestamp,
    hkernel, hbranch, hdevice, hdriver, Submit.ok_bind]
  cases report.driver with
  | none =>
    rw [Option.elim_none, Option.elim_none, List.append_nil, List.append_nil]
    cases report.failingDevice <;> rfl
  | some driver => cases report.failingDevice <;> rfl

/-! ### The name -/

/-- The time is what follows the last dash. -/
theorem fileName_eq (dev driver : Option Text) (ts : Nat) :
    ∃ start, fileName dev driver ts = (start ++ '-' :: Nat.toDigits 10 ts) ++ '.' :: ['z', 'i', 'p'] := by
  have hzip : ".zip".toList = '.' :: ['z', 'i', 'p'] := by decide
  have hend : ∀ start, start ++ '-' :: (Nat.toDigits 10 ts ++ ".zip".toList) =
      (start ++ '-' :: Nat.toDigits 10 ts) ++ '.' :: ['z', 'i', 'p'] := fun start => by
    rw [hzip, List.append_assoc, List.cons_append]
  cases dev with
  | none => exact ⟨_, hend _⟩
  | some dev =>
    cases driver with
    | none => exact ⟨_, hend _⟩
    | some driver =>
      refine ⟨driver ++ '-' :: devname dev, ?_⟩
      rw [← hend, List.append_assoc, List.cons_append]
      rfl

/-- Archives of different times do not replace each other. -/
theorem fileName_inj {dev dev' driver driver' : Option Text} {ts ts' : Nat}
    (h : fileName dev driver ts = fileName dev' driver' ts') : ts = ts' := by
  obtain ⟨start, hname⟩ := fileName_eq dev driver ts
  obtain ⟨start', hname'⟩ := fileName_eq dev' driver' ts'
  rw [hname, hname', List.append_cancel_right_eq] at h
  have hrev := congrArg (fun l => (l.reverse.takeWhile (· ≠ '-')).reverse) h
  have hdash : ∀ n, '-' ∉ (Nat.toDigits 10 n).reverse := fun n hm =>
    Helpers.not_mem_toDigits (by decide) (List.mem_reverse.1 hm)
  simp only [List.reverse_append, List.reverse_cons, List.append_assoc, List.singleton_append,
    Words.takeWhile_ne_append (hdash _), List.reverse_reverse] at hrev
  rw [← Nat.ofDigitChars_ten_toDigits (n := ts), hrev, Nat.ofDigitChars_ten_toDigits]

theorem slash_not_mem_basename (path : Text) : '/' ∉ basename path := by
  unfold basename
  cases hlast : (parts path).getLast? with
  | none => exact List.not_mem_nil
  | some part => exact no_slash_of_mem_parts (List.mem_of_getLast? hlast)

theorem run_eq_some (h : run sys.env = some report) : report.driver = sys.env.driver.map basename ∧
    report.fileName = fileName report.failingDevice report.driver sys.env.ts := by
  unfold run at h
  dsimp only at h
  split at h
  · cases h
  · cases h
    exact ⟨rfl, rfl⟩

theorem slash_not_mem_fileName (h : run sys.env = some report) : '/' ∉ report.fileName := by
  have hdevname : ∀ dev, '/' ∉ devname dev := by
    intro dev hm
    obtain ⟨c, -, hc⟩ := List.mem_map.1 hm
    split at hc
    · cases hc
    · next hne => exact hne hc
  have hend : '/' ∉ '-' :: (Nat.toDigits 10 sys.env.ts ++ ".zip".toList) := by
    rw [List.mem_cons, List.mem_append, not_or, not_or]
    exact ⟨by decide, Helpers.not_mem_toDigits (by decide), by decide⟩
  obtain ⟨hdriver, hname⟩ := run_eq_some h
  rw [hname, hdriver]
  unfold fileName
  dsimp only
  split
  · rw [List.mem_append, not_or]
    exact ⟨by decide, hend⟩
  · rw [List.mem_append, not_or]
    exact ⟨hdevname _, hend⟩
  · next hpath =>
    obtain ⟨path, -, rfl⟩ := Option.map_eq_some_iff.1 hpath
    rw [List.mem_append, List.mem_cons, List.mem_append, not_or, not_or, not_or]
    exact ⟨slash_not_mem_basename path, by decide, hdevname _, hend⟩

/-- An archive is a log, unless its name is that of a hidden file. -/
theorem filterLog_fileName (h : run sys.env = some report) :
    helper.filterLog (String.ofList report.fileName) = true ↔ report.fileName.head? ≠ some '.' := by
  have hslash := slash_not_mem_fileName h
  obtain ⟨start, hname⟩ := fileName_eq report.failingDevice report.driver sys.env.ts
  rw [(run_eq_some h).2, hname] at hslash ⊢
  rw [Helpers.filterLog_append hslash (by decide) ⟨'-', by simp, by decide⟩ (by decide)]
  cases start <;> simp

end

/-- The archive, if there is one, is that of a report. -/
theorem archive_eq_some {sys : System} {name : Text} {members : Dict String (List UInt8)}
    (h : archive sys = some (name, members)) : ∃ report, run sys.env = some report ∧ name = report.fileName ∧
      members = (Dict.empty.insert "metadata.json" (stored (.obj (metadata sys report)))).insert "dump"
        (copied sys.data) := by
  unfold archive at h
  split at h
  · obtain ⟨report, hrun, hr⟩ := Option.map_eq_some_iff.1 h
    cases hr
    exact ⟨report, hrun, rfl, rfl⟩
  · cases h

/-- An archive that the hook leaves is sent, whatever its data: with the driver and the device as they are in its name,
and with all the metadata. No archive of another time replaces it. -/
theorem dump_is_submitted {sys : System} {name : Text} {members : Dict String (List UInt8)}
    (h : archive sys = some (name, members)) :
    ∃ report, run sys.env = some report ∧ name = report.fileName ∧
      (helper.filterLog (String.ofList name) = true ↔ name.head? ≠ some '.') ∧
      (∀ sys' members', archive sys' = some (name, members') → sys'.env.ts = sys.env.ts) ∧
      members.get? "dump" = some (copied sys.data) ∧
      Submit.Content.ofBytes (stored (.obj (metadata sys report))) = .value (.obj (metadata sys report)) ∧
      ∀ new dir zip, Submit.Devcoredump.submit new (dir ++ '/' :: name) (some zip) (.members members) =
        .ok (.send (event sys report new zip)) := by
  obtain ⟨report, hrun, rfl, rfl⟩ := archive_eq_some h
  have hread : Submit.Content.ofBytes (stored (.obj (metadata sys report))) = .value (.obj (metadata sys report)) :=
    Submit.ofBytes_stored unique_metadata
  refine ⟨report, hrun, rfl, filterLog_fileName hrun, fun sys' members' h' => ?_, Dict.get?_insert_self _ _ _, hread,
    fun new dir zip => ?_⟩
  · obtain ⟨report', hrun', hname, -⟩ := archive_eq_some h'
    rw [(run_eq_some hrun).2, (run_eq_some hrun').2] at hname
    exact (fileName_inj hname).symm
  · have hname : Submit.basename (dir ++ '/' :: report.fileName) = String.ofList report.fileName :=
      congrArg String.ofList (Helpers.basename_append dir (slash_not_mem_fileName hrun))
    unfold Submit.Devcoredump.submit
    simp only [Dict.get?_insert_of_ne _ (show "metadata.json" ≠ "dump" by decide), Dict.get?_insert_self, hread,
      submitLog_metadata, hname]
    rfl

/-- The firmware of a network card crashes, and its dump breaks off. -/
def wifi : System where
  env :=
    { cwd := root
      failingDevice := some "/sys/devices/pci0000:00/0000:03:00.0".toList
      driver := some "../../../bus/pci/drivers/iwlwifi".toList
      blocked := []
      toClear := []
      ts := 1700000000000000000 }
  seconds := ⟨"1700000000.0".toList, by decide +kernel⟩
  release := "6.1.52-valve16-1-neptune-61"
  branch := none
  exec _ := none
  unique := by simp
  data := .breaks [1, 2]
  opens := true
  publishes := true

def wifiReport : Report where
  failingDevice := some "/sys/devices/pci0000:00/0000:03:00.0".toList
  driver := some "iwlwifi".toList
  fileName := "iwlwifi-devices_pci0000:00_0000:03:00.0-1700000000000000000.zip".toList
  clears := false

theorem wifi_is_submitted : ∃ members event, archive wifi = some (wifiReport.fileName, members) ∧
    helper.filterLog (String.ofList wifiReport.fileName) = true ∧ members.get? "dump" = some [1, 2] ∧
    Submit.Devcoredump.submit { osBuild := none, version := none }
      ("/pending/devcoredump".toList ++ '/' :: wifiReport.fileName) (some [80, 75]) (.members members) =
      .ok (.send event) ∧
    event.tags = [("kernel", .str "6.1.52-valve16-1-neptune-61"), ("branch", .null),
      ("failing_device", .str "/sys/devices/pci0000:00/0000:03:00.0"), ("driver", .str "iwlwifi")] := by
  have hrun : run wifi.env = some wifiReport := by decide +kernel
  obtain ⟨members, harchive⟩ : ∃ members, archive wifi = some (wifiReport.fileName, members) := by
    unfold archive
    rw [hrun]
    exact ⟨_, rfl⟩
  obtain ⟨report, hreport, -, hlog, -, hdump, -, hsent⟩ := dump_is_submitted harchive
  rw [hrun] at hreport
  cases hreport
  exact ⟨members, _, harchive, hlog.2 (by decide), hdump, hsent _ _ _, by decide +kernel⟩

end LogSubmitter.Hooks.Devcoredump

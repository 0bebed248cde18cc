import LogSubmitter.Journal.Names
import LogSubmitter.Journal.Awaits
import LogSubmitter.Submit.Contents
import LogSubmitter.Submit.Stored
/-!
# What is sent of the journal

Whatever a number of collects has left in `pending/journal`, `submit` makes an event of
it: the unit is told by the name of the file, and the message is that of its lines.
-/
namespace LogSubmitter.Journal

open Lib Json

/-! ## What is kept -/

/-- A line as `journalctl` prints it: its values are those of `json.loads`, its message is a text, bytes or too long,
and its ids have neither spaces nor slashes. -/
structure Printed (e : Entry) : Prop where
  unique : ∀ key v, e.fields.get? key = some v → Json.unique v = true
  message : Submit.Journal.messageFits (Submit.field e.fields.items "MESSAGE") = true
  ids : ∀ key ∈ idFields, ∀ id, e.text key = some id → ' ' ∉ id.toList ∧ '/' ∉ id.toList

/-- What `journalctl` prints in a collect. -/
def PrintsLines (io : Io) : Prop := ∀ user unit c lines, io.exec user unit c = some lines → ∀ e ∈ lines, Printed e

/-- A line that is kept does not tell of the machine. -/
structure Kept (e : Entry) : Prop where
  unique : ∀ key v, e.fields.get? key = some v → Json.unique v = true
  message : Submit.Journal.messageFits (Submit.field e.fields.items "MESSAGE") = true
  hostname : e.fields.get? "_HOSTNAME" = none
  machineId : e.fields.get? "_MACHINE_ID" = none

/-- A file is that of an invocation of one of the units, and it has lines that are kept. -/
structure Tidy (file : String) (content : Content) : Prop where
  name : ∃ user, ∃ unit ∈ units user, ∃ invocation : Invocation, file = fileName (unitName user unit) invocation.id
  lines : ∀ logs, content = .journal logs → ∀ e ∈ logs, Kept e

def Store.Tidy (s : Store) : Prop := ∀ file content, s.pending file = some content → Journal.Tidy file content

section
variable {io : Io} {user : Bool} {unit : String}

theorem kept_anonymous {e : Entry} (h : Printed e) : Kept (anonymous e) := by
  have hother : ∀ key, key ≠ "_HOSTNAME" → key ≠ "_MACHINE_ID" →
      (anonymous e).fields.get? key = e.fields.get? key := by
    intro key hh hm
    exact (Dict.get?_erase_of_ne _ hm).trans (Dict.get?_erase_of_ne _ hh)
  have hhostname : (anonymous e).fields.get? "_HOSTNAME" = none :=
    (Dict.get?_erase_of_ne _ (by decide)).trans (Dict.get?_erase_self _ _)
  have hmachineId : (anonymous e).fields.get? "_MACHINE_ID" = none := Dict.get?_erase_self _ _
  have hmessage : Submit.field (anonymous e).fields.items "MESSAGE" = Submit.field e.fields.items "MESSAGE" :=
    congrArg (Option.getD · Json.null) (hother "MESSAGE" (by decide) (by decide))
  refine ⟨fun key v hv => ?_, hmessage ▸ h.message, hhostname, hmachineId⟩
  by_cases hh : key = "_HOSTNAME"
  · rw [hh, hhostname] at hv
    cases hv
  · by_cases hm : key = "_MACHINE_ID"
    · rw [hm, hmachineId] at hv
      cases hv
    · rw [hother key hh hm] at hv
      exact h.unique key v hv

/-- The lines that are read are some of those that are printed. -/
theorem printed_of_readJournal (h : PrintsLines io) {name : String} {cursor : Option String} {q : Query} {e : Entry}
    (he : e ∈ (readJournal (io.exec user name) unit cursor q).1.getD []) : Printed e := by
  unfold readJournal at he
  cases hexec : io.exec user name (command unit cursor q) with
  | none =>
    rw [hexec] at he
    cases he
  | some lines =>
    rw [hexec] at he
    dsimp only [Option.getD_some] at he
    rw [readLines_eq] at he
    exact h _ _ _ _ hexec e (List.mem_of_mem_filter he)

/-- The id of an invocation is one of the line. -/
theorem invocation_of_printed {e : Entry} (h : Printed e) (user : Bool) :
    ' ' ∉ (lineInvocation user e).toList ∧ '/' ∉ (lineInvocation user e).toList := by
  have hkey : invocationKey user ∈ idFields := by cases user <;> decide
  have hgetD : ' ' ∉ ((e.text "_SYSTEMD_INVOCATION_ID").getD "").toList ∧
      '/' ∉ ((e.text "_SYSTEMD_INVOCATION_ID").getD "").toList := by
    cases hid : e.text "_SYSTEMD_INVOCATION_ID" with
    | none => exact ⟨List.not_mem_nil, List.not_mem_nil⟩
    | some id => exact h.ids _ (by decide) id hid
  unfold lineInvocation
  split
  · exact hgetD
  · exact hgetD
  · next id _ hid => exact h.ids _ hkey id hid

/-- What is collected for the invocations of a unit: ids that may be part of a name, and lines that are kept. -/
def Found (results : Dict String (List Entry)) : Prop :=
  ∀ p ∈ results.items, (' ' ∉ p.1.toList ∧ '/' ∉ p.1.toList) ∧ ∀ e ∈ p.2, Kept e

theorem found_addLine {results : Dict String (List Entry)} (hr : Found results) {log : Entry} (hlog : Printed log)
    (invocations : List String) : Found (addLine user invocations results log) := by
  have hold : ∀ e ∈ (results.get? (lineInvocation user log)).getD [], Kept e := by
    cases hget : results.get? (lineInvocation user log) with
    | none => exact fun e he => absurd he List.not_mem_nil
    | some old => exact (hr _ (Dict.get?_eq_some.1 hget)).2
  intro p hp
  unfold addLine at hp
  split at hp
  · rcases Dict.mem_items_insert hp with rfl | hp
    · refine ⟨invocation_of_printed hlog user, fun e he => ?_⟩
      rcases List.mem_append.1 he with he | he
      · exact hold e he
      · rw [List.mem_singleton.1 he]
        exact kept_anonymous hlog
    · exact hr p hp
  · exact hr p hp

theorem found_readUnit (h : PrintsLines io) (invocations : List String) (cursor : Option String) :
    Found (readUnit (io.exec user unit) unit invocations user cursor).1 :=
  List.foldlRecOn _ _ (fun _ hp => absurd hp List.not_mem_nil) fun _ hr _ hlog =>
    found_addLine hr (printed_of_readJournal h hlog) invocations

/-! ## What a collect leaves -/

theorem tidy_appendLogs (hu : unit ∈ units user) {s : Store} (hs : s.Tidy) {p : String × List Entry}
    (hid : ' ' ∉ p.1.toList ∧ '/' ∉ p.1.toList) (hnew : ∀ e ∈ p.2, Kept e) :
    (appendLogs io (unitName user unit) s p).Tidy := by
  have hname : ∃ user', ∃ unit' ∈ units user', ∃ invocation : Invocation,
      fileName (unitName user unit) p.1 = fileName (unitName user' unit') invocation.id :=
    ⟨user, unit, hu, ⟨p.1, hid.1, hid.2⟩, rfl⟩
  have hset : ∀ content, (∀ logs, content = .journal logs → ∀ e ∈ logs, Kept e) →
      (s.setPending (fileName (unitName user unit) p.1) content).Tidy := by
    intro content hlines file content' hc
    unfold Store.setPending at hc
    dsimp only at hc
    split at hc
    · next hfile =>
      cases hc
      exact ⟨hfile ▸ hname, hlines⟩
    · exact hs file content' hc
  unfold appendLogs
  cases hload : loadJournal io (fileName (unitName user unit) p.1) s with
  | none => exact hs
  | some old =>
    have hold : ∀ e ∈ old, Kept e := by
      unfold loadJournal at hload
      split at hload
      · cases hload
        exact fun e he => absurd he List.not_mem_nil
      · next content hcontent =>
        split at hload
        · split at hload
          · cases hload
            exact (hs _ _ hcontent).lines _ rfl
          · cases hload
            exact fun e he => absurd he List.not_mem_nil
        · cases hload
    dsimp only
    split
    · exact hs
    · unfold dumpJournal
      split
      · refine hset _ fun logs hlogs e he => ?_
        cases hlogs
        exact (List.mem_append.1 he).elim (hold e) (hnew e)
      · exact hs
      · exact hset _ fun logs hlogs => by cases hlogs

theorem tidy_setData {s : Store} (hs : s.Tidy) (key : String) (value : Option String) : (s.setData key value).Tidy := hs

theorem tidy_collectUnit (h : PrintsLines io) (hu : unit ∈ units user) {failed : Dict String (List String)} {s : Store}
    (hs : s.Tidy) : (collectUnit io user failed s unit).Tidy := by
  unfold collectUnit
  split
  · exact hs
  · dsimp only
    split
    · exact hs
    · refine tidy_setData (List.foldlRecOn _ _ hs fun s hs p hp => ?_) _ _
      obtain ⟨hid, hnew⟩ := found_readUnit h _ _ p hp
      exact tidy_appendLogs hu hs hid hnew

theorem tidy_collectInner (h : PrintsLines io) (user : Bool) {s : Store} (hs : s.Tidy) :
    (collectInner io user s).Tidy :=
  List.foldlRecOn _ _ (tidy_setData hs _ _) fun _ hs _ hm =>
    tidy_collectUnit h ((io.order_perm user).mem_iff.1 hm) hs

theorem tidy_collect (h : PrintsLines io) {s : Store} (hs : s.Tidy) : (collect io s).Tidy :=
  tidy_collectInner h true (tidy_collectInner h false hs)

end

/-- What happens to the pending files: a collect, or a submission that moves one away. -/
inductive Act where
  | collect (io : Io)
  | move (file : String)

def Store.act (s : Store) : Act → Store
  | .collect io => Journal.collect io s
  | .move file => { s with pending := fun f => if f = file then none else s.pending f }

/-- What `journalctl` prints in the collects of a run. -/
def Act.Prints : Act → Prop
  | .collect io => PrintsLines io
  | .move _ => True

theorem tidy_act {s : Store} (hs : s.Tidy) {act : Act} (h : act.Prints) : (s.act act).Tidy := by
  cases act with
  | collect io => exact tidy_collect h hs
  | move moved =>
    intro file content hc
    unfold Store.act at hc
    dsimp only at hc
    split at hc
    · cases hc
    · exact hs file content hc

theorem tidy_acts {acts : List Act} (h : ∀ act ∈ acts, act.Prints) {s : Store} (hs : s.Tidy) :
    (acts.foldl Store.act s).Tidy :=
  List.foldlRecOn _ _ hs fun _ hs act hact => tidy_act hs (h act hact)

/-! ## The event -/

/-- `JournalHelper`, as far as the names of its logs go. -/
def helper : Helpers.Helper := { name := "journal", validExtensions := [".json"] }

/-- An element of `bytes(line)`. -/
def byteOf : Json → UInt8
  | .num n => UInt8.ofNat n.toNat
  | .bool b => if b then 1 else 0
  | _ => 0

/-- The message of a line, if there is one. -/
def messageOf (e : Entry) : Option String :=
  match Submit.field e.fields.items "MESSAGE" with
  | .str text => some text
  | .arr l => some (String.ofList (decodeReplace (l.map byteOf)))
  | _ => none

def Content.messages : Content → List String
  | .journal logs => logs.filterMap messageOf
  | .malformed => []

def logsJson (logs : List Entry) : Json := .arr (logs.map fun e => .obj e.fields.items)

/-- The file has this in it. -/
def Content.IsIn (log : Submit.LogFile) : Content → Prop
  | .journal logs => log =
    ⟨Submit.stored (logsJson logs), Submit.Content.ofBytes (Submit.stored (logsJson logs))⟩
  | .malformed => log.json = .invalid

/-- The unit, as it is sent. -/
def sentName (user : Bool) (unit : String) : String := if user then "user." ++ unit else unit

theorem unique_logsJson {logs : List Entry} (h : ∀ e ∈ logs, Kept e) : unique (logsJson logs) = true := by
  unfold logsJson
  rw [unique, uniqueAll_iff]
  intro v hv
  obtain ⟨e, he, rfl⟩ := List.mem_map.1 hv
  simp only [unique, Bool.and_eq_true, decide_eq_true_eq, uniqueFields_iff]
  exact ⟨e.fields.nodup, fun p hp => (h e he).unique _ _ (Dict.get?_eq_some.2 hp)⟩

theorem byte_of_fits {v : Json} (h : Submit.Journal.byteFits v = true) : Submit.Journal.byte v = .ok (byteOf v) := by
  cases v with
  | num n =>
    simp only [Submit.Journal.byteFits, Bool.and_eq_true, decide_eq_true_eq] at h
    exact if_pos h
  | bool b => rfl
  | _ => cases h

theorem mapM_ok_of_forall {α β : Type} {f : α → Except Submit.Raised β} {g : α → β} {l : List α}
    (h : ∀ a ∈ l, f a = .ok (g a)) : l.mapM f = .ok (l.map g) := by
  induction l with
  | nil => rfl
  | cons a l ih =>
    rw [List.mapM_cons, h a List.mem_cons_self, Submit.ok_bind, ih fun b hb => h b (List.mem_cons_of_mem _ hb)]
    rfl

theorem line_of_fits {e : Entry}
    (h : Submit.Journal.messageFits (Submit.field e.fields.items "MESSAGE") = true) :
    Submit.Journal.line (.obj e.fields.items) = .ok ((messageOf e).map .str) := by
  unfold Submit.Journal.line messageOf
  rw [Submit.get_obj, Submit.ok_bind]
  cases hv : Submit.field e.fields.items "MESSAGE" with
  | null => rfl
  | str text => rfl
  | arr l =>
    rw [hv] at h
    dsimp only
    rw [mapM_ok_of_forall fun v hv => byte_of_fits (List.all_eq_true.1 h v hv)]
    rfl
  | _ =>
    rw [hv] at h
    cases h

theorem join_texts (texts : List String) :
    Submit.Journal.join (texts.map .str) = .ok (String.intercalate "\n" texts) := by
  have htexts : (texts.map Json.str).mapM Submit.Journal.text = .ok texts := by
    rw [List.mapM_map]
    exact (mapM_ok_of_forall fun _ _ => rfl).trans (congrArg Except.ok (List.map_id _))
  unfold Submit.Journal.join
  rw [htexts]
  rfl

/-- The event that is made of a file. -/
def sentEvent (user : Bool) (unit file : String) (content : Content) (log : Submit.LogFile) (new : Submit.Event) :
    Submit.Event :=
  { new with
    attachments := new.attachments ++ [⟨log.data, some file, some "application/json"⟩]
    tags := [("unit", .str (sentName user unit))]
    fingerprint := [[.text "unit:", .text (sentName user unit)]]
    message := .value (.str (String.intercalate "\n" (sentName user unit :: content.messages))) }

/-- `submit` of lines with these messages. -/
theorem submitLog_arr (new : Submit.Event) (fname : List Char) (data : List UInt8) {logs : List Entry}
    (h : ∀ e ∈ logs, Kept e) :
    let unit := Submit.Journal.unescape (Str.beforeLast ' ' (Submit.stem fname))
    Submit.Journal.submitLog new fname data (logsJson logs) = .ok (.send { new with
      attachments := new.attachments ++ [⟨data, some (Submit.basename fname), some "application/json"⟩]
      tags := [("unit", .str unit)]
      fingerprint := [[.text "unit:", .text unit]]
      message := .value (.str (String.intercalate "\n" (unit :: logs.filterMap messageOf))) }) := by
  intro unit
  have hlines : (logs.map fun e => Json.obj e.fields.items).mapM Submit.Journal.line =
      .ok (logs.map fun e => (messageOf e).map .str) := by
    rw [List.mapM_map]
    exact mapM_ok_of_forall fun e he => line_of_fits (h e he).message
  have hmessages : (logs.map fun e => (messageOf e).map Json.str).filterMap id =
      (logs.filterMap messageOf).map .str := by
    rw [List.filterMap_map, List.map_filterMap]
    rfl
  have hentries : Submit.Journal.entries (logsJson logs) = .ok (logs.map fun e => Json.obj e.fields.items) := rfl
  unfold Submit.Journal.submitLog
  rw [hentries, Submit.ok_bind, hlines, Submit.ok_bind, hmessages, ← List.map_cons, join_texts]
  rfl

theorem unitName_ascii {user : Bool} {unit : String} (h : unit ∈ units user) : ∀ c ∈ unit.toList, c.toNat < 128 := by
  have hall : ∀ user, ∀ unit ∈ units user, unit.toList.all (fun c => c.toNat < 128) = true := by decide +kernel
  exact fun c hc => of_decide_eq_true (List.all_eq_true.1 (hall user unit h) c hc)

theorem filterLog_fileName (user : Bool) (unit : String) (invocation : Invocation) :
    helper.filterLog (fileName (unitName user unit) invocation.id) = true := by
  have hjson : ".json".toList = '.' :: ['j', 's', 'o', 'n'] := by decide
  have hslash := slash_not_mem_fileName (slash_not_mem_unitName user unit) invocation
  have hname := toList_fileName (unitName user unit) invocation.id
  rw [hjson] at hname
  rw [hname] at hslash
  rw [← String.ofList_toList (s := fileName (unitName user unit) invocation.id), hname]
  refine (Helpers.filterLog_append hslash (by decide) ⟨' ', by simp, by decide⟩ (by decide)).2 ?_
  cases user with
  | true => simp [unitName]
  | false =>
    have hdot := dot_not_mem_escape unit
    unfold unitName
    rw [if_neg (by decide)]
    cases hescape : (escape unit).toList with
    | nil => simp
    | cons c cs =>
      rw [hescape, List.mem_cons, not_or] at hdot
      simpa using Ne.symm hdot.1

/-- Each file that is pending after a run of collects and submissions is a log. What is made of it is an event for its
unit, with the messages of its lines in their order, and none of the lines tells of the machine. -/
theorem pending_is_sent {acts : List Act} (h : ∀ act ∈ acts, act.Prints) {s : Store} (hs : s.Tidy) {file : String}
    {content : Content} (hc : (acts.foldl Store.act s).pending file = some content) {log : Submit.LogFile}
    (hlog : content.IsIn log) :
    (∀ logs, content = .journal logs →
      ∀ e ∈ logs, e.fields.get? "_HOSTNAME" = none ∧ e.fields.get? "_MACHINE_ID" = none) ∧
    ∃ user, ∃ unit ∈ units user, helper.filterLog file = true ∧
      ∀ new dir, Submit.Journal.submit new (dir ++ '/' :: file.toList) (some log) =
        .ok (.send (sentEvent user unit file content log new)) := by
  obtain ⟨⟨user, unit, hu, invocation, rfl⟩, hlines⟩ := tidy_acts h hs file content hc
  refine ⟨fun logs hl e he => ⟨(hlines logs hl e he).hostname, (hlines logs hl e he).machineId⟩, user, unit, hu, ?_,
    fun new dir => ?_⟩
  · exact filterLog_fileName user unit invocation
  · have hslash := slash_not_mem_unitName user unit
    have hunit : Submit.Journal.unescape (Str.beforeLast ' ' (Submit.stem (dir ++ '/' ::
        (fileName (unitName user unit) invocation.id).toList))) = sentName user unit := by
      rw [beforeLast_stem dir hslash invocation]
      exact unescape_unitName user ⟨unit, unitName_ascii hu⟩
    have hbase : Submit.basename (dir ++ '/' :: (fileName (unitName user unit) invocation.id).toList) =
        fileName (unitName user unit) invocation.id := by
      unfold Submit.basename
      rw [Helpers.basename_append dir (slash_not_mem_fileName hslash invocation), String.ofList_toList]
    cases content with
    | journal logs =>
      cases hlog
      unfold Submit.Journal.submit
      dsimp only
      rw [Submit.ofBytes_stored (unique_logsJson (hlines logs rfl))]
      dsimp only
      rw [submitLog_arr new _ _ (hlines logs rfl), hunit, hbase]
      rfl
    | malformed =>
      have hinvalid : log.json = .invalid := hlog
      unfold Submit.Journal.submit
      dsimp only
      rw [hinvalid]
      have hnone : ∀ e ∈ ([] : List Entry), Kept e := fun e he => absurd he List.not_mem_nil
      have hempty := submitLog_arr new (dir ++ '/' :: (fileName (unitName user unit) invocation.id).toList) log.data
        hnone
      rw [hunit, hbase] at hempty
      exact hempty

/-! ## A run -/

/-- `vpower.service` has a line on the host's journal, and fails. -/
def vpowerJournal : List Entry :=
  [.ofTexts "1" [("_SYSTEMD_UNIT", "vpower.service"), ("_SYSTEMD_INVOCATION_ID", "a"), ("_HOSTNAME", "steamdeck"),
      ("MESSAGE", "No battery")] (by simp),
    vpowerFailure "2" "a"]

def vpowerIo : Io := (Cut.first 2).io bySystemdUnit vpowerJournal

theorem printed_vpowerJournal : ∀ e ∈ vpowerJournal, Printed e := by
  have hcheck : ∀ e ∈ vpowerJournal,
      (e.fields.items.all fun p => Json.unique p.2) = true ∧
      Submit.Journal.messageFits (Submit.field e.fields.items "MESSAGE") = true ∧
      (idFields.all fun key => (e.text key).all fun id =>
        id.toList.all fun c => decide (c ≠ ' ' ∧ c ≠ '/')) = true := by
    decide +kernel
  intro e he
  obtain ⟨hunique, hmessage, hids⟩ := hcheck e he
  refine ⟨fun key v hv => List.all_eq_true.1 hunique (key, v) (Dict.get?_eq_some.1 hv), hmessage,
    fun key hkey id hid => ?_⟩
  have hchars := List.all_eq_true.1 hids key hkey
  rw [hid] at hchars
  exact ⟨fun hm => (of_decide_eq_true (List.all_eq_true.1 hchars _ hm)).1 rfl,
    fun hm => (of_decide_eq_true (List.all_eq_true.1 hchars _ hm)).2 rfl⟩

theorem vpowerIo_prints : PrintsLines vpowerIo := by
  intro user unit c lines hlines e he
  cases hlines
  have hafter := (Cursor.after_suffix Entry.cursor _ _).mem (List.mem_of_mem_filter he)
  refine printed_vpowerJournal e ?_
  split at hafter
  · exact hafter
  · exact hafter

/-- The message is sent, and not the host's name. -/
theorem vpower_is_sent : ∃ logs log, Content.IsIn log (.journal logs) ∧
    ([.collect vpowerIo].foldl Store.act emptyStore).pending vpowerFile = some (.journal logs) ∧
    logs.filterMap messageOf = ["No battery"] ∧
    (∀ e ∈ logs, e.fields.get? "_HOSTNAME" = none ∧ e.fields.get? "_MACHINE_ID" = none) ∧
    ∃ user, ∃ unit ∈ units user, helper.filterLog vpowerFile = true ∧
      ∀ new dir, Submit.Journal.submit new (dir ++ '/' :: vpowerFile.toList) (some log) =
        .ok (.send (sentEvent user unit vpowerFile (.journal logs) log new)) := by
  obtain ⟨logs, hc, hmessages⟩ : ∃ logs,
      ([.collect vpowerIo].foldl Store.act emptyStore).pending vpowerFile = some (.journal logs) ∧
        logs.filterMap messageOf = ["No battery"] := by
    have hsome : ((([.collect vpowerIo].foldl Store.act emptyStore).pending vpowerFile).map Content.messages) =
        some ["No battery"] := by decide +kernel
    cases hc : ([.collect vpowerIo].foldl Store.act emptyStore).pending vpowerFile with
    | none =>
      rw [hc] at hsome
      cases hsome
    | some content =>
      rw [hc] at hsome
      cases content with
      | journal logs => exact ⟨logs, rfl, Option.some.inj hsome⟩
      | malformed => cases hsome
  have hprints : ∀ act ∈ [Act.collect vpowerIo], act.Prints := fun act hact =>
    List.mem_singleton.1 hact ▸ vpowerIo_prints
  obtain ⟨hanonymous, hsent⟩ := pending_is_sent hprints (fun _ _ h => by cases h) hc rfl
  exact ⟨logs, _, rfl, hc, hmessages, hanonymous logs rfl, hsent⟩

end LogSubmitter.Journal

import LogSubmitter.Journal.Read
/-!
# The journal helper

`JournalHelper.collect` looks for failed invocations among the manager's
entries and appends the lines of each to a pending file of its own. Two kinds
of cursor keep the place: one for the manager's entries, one for each unit.
-/
namespace LogSubmitter.Journal

open Lib

/-- `system_units`. -/
def systemUnits : List String :=
  ["gpu-trace.service", "holo-boot.service", "holo-cfs-debugfs-tunings.service", "holo-create-homedir.service",
    "holo-dump-info.service", "holo-install-grub.service", "holo-install-steamcl.service", "holo-offload.target",
    "jupiter-biosupdate.service", "jupiter-controller-update.service", "jupiter-fan-control.service", "rauc.service",
    "steam-web-debug-portforward.service", "steamos-boot.service", "steamos-cfs-debugfs-tunings.service",
    "steamos-create-homedir.service", "steamos-devkit-service.service", "steamos-dump-info.service",
    "steamos-finish-oobe-migration.service", "steamos-install-grub.service", "steamos-install-steamcl.service",
    "steamos-kdumpst-layer.service", "steamos-log-submitter.service", "steamos-manager.service",
    "steamos-mkvarboot.service", "steamos-offload.target", "steamos-post-update.service",
    "steamos-settings-importer.service", "vpower.service"]

/-- `user_units`. -/
def userUnits : List String :=
  ["gamescope-mangoapp.service", "gamescope-session.service", "gamescope-xbindkeys.service", "steam-launcher.service",
    "steam-notif-daemon.service", "steamos-manager.service", "steamos-powerbuttond.service"]

def units (user : Bool) : List String := if user then userUnits else systemUnits

/-! ## Failed invocations -/

def invocationKey (user : Bool) : String := if user then "USER_INVOCATION_ID" else "INVOCATION_ID"

def unitKey (user : Bool) : String := if user then "USER_UNIT" else "UNIT"

/-- The manager's own unit. -/
def managerUnit (user : Bool) : String := if user then "user@1000.service" else "init.scope"

def failedResults : List String :=
  ["resources", "protocol", "timeout", "exit-code", "signal", "core-dump", "watchdog"]

/-- The entry says that a unit has failed. -/
def marksFailure (log : Entry) : Bool :=
  failedResults.any (fun result => decide (log.fields.get? "UNIT_RESULT" = some (.str result))) ||
    decide (log.fields.get? "JOB_RESULT" = some (.str "failed"))

/-- The unit and the invocation that failed, by this entry. -/
def failure (user : Bool) (log : Entry) : Option (String × String) :=
  if !marksFailure log then none
  else
    let invocation :=
      match log.text (invocationKey user) with
      | none | some "" => log.text "_SYSTEMD_INVOCATION_ID"
      | some invocation => some invocation
    match log.text (unitKey user), invocation with
    | some unit, some invocation => some (unit, invocation)
    | _, _ => none

/-- `this_unit.add(invocation)`. -/
def addInvocation (invocations : List String) (invocation : String) : List String :=
  if invocation ∈ invocations then invocations else invocations ++ [invocation]

def addFailure (failed : Dict String (List String)) (p : String × String) : Dict String (List String) :=
  failed.insert p.1 (addInvocation ((failed.get? p.1).getD []) p.2)

/-- The manager's entries after the cursor. The first run asks for 30 days. -/
def readManager (exec : Command → Option (List Entry)) (user : Bool) (cursor : Option String) :
    Option (List Entry) × Option String :=
  match cursor with
  | some cursor => readJournal exec (managerUnit user) (some cursor) {}
  | none => readJournal exec (managerUnit user) none { startAgoMs := some 2592000000 }

/-- `failed_units`. -/
def failedUnits (exec : Command → Option (List Entry)) (user : Bool) (cursor : Option String) :
    Dict String (List String) × Option String :=
  let r := readManager exec user cursor
  (((r.1.getD []).filterMap (failure user)).foldl addFailure .empty, r.2)

/-! ## The lines of a unit -/

/-- The invocation a line belongs to. -/
def lineInvocation (user : Bool) (log : Entry) : String :=
  match log.text (invocationKey user) with
  | none | some "" => (log.text "_SYSTEMD_INVOCATION_ID").getD ""
  | some invocation => invocation

/-- The line without the host's name and id. -/
def anonymous (log : Entry) : Entry :=
  (log.erase "_HOSTNAME" (by decide)).erase "_MACHINE_ID" (by decide)

def addLine (user : Bool) (invocations : List String) (results : Dict String (List Entry)) (log : Entry) :
    Dict String (List Entry) :=
  if lineInvocation user log ∈ invocations then
    results.insert (lineInvocation user log) ((results.get? (lineInvocation user log)).getD [] ++ [anonymous log])
  else results

/-- `JournalHelper.read_journal`: the lines by invocation. -/
def readUnit (exec : Command → Option (List Entry)) (unit : String) (invocations : List String) (user : Bool)
    (cursor : Option String) : Dict String (List Entry) × Option String :=
  let r := readJournal exec unit cursor { allowUser := user, allowSystem := !user }
  ((r.1.getD []).foldl (addLine user invocations) .empty, r.2)

/-! ## Names -/

/-- `f'{char:2x}'`. -/
def hex2 (n : Nat) : List Char :=
  if n < 16 then [' ', Nat.digitChar n] else [Nat.digitChar (n / 16), Nat.digitChar (n % 16)]

/-- A byte of the name, if it is a letter or a digit, or its code. -/
def escapeByte (b : UInt8) : List Char :=
  if (Char.ofNat b.toNat).isAlphanum then [Char.ofNat b.toNat] else '_' :: hex2 b.toNat

def escape (name : String) : String :=
  String.ofList (name.toUTF8.data.toList.flatMap escapeByte)

def unitName (user : Bool) (unit : String) : String := if user then "user." ++ escape unit else escape unit

/-- The file of an invocation in `pending/journal`. -/
def fileName (unitName invocation : String) : String := unitName ++ " " ++ invocation ++ ".json"

def cursorName (user : Bool) : String := if user then "user_cursor" else "system_cursor"

def unitCursorName (unitName : String) : String := unitName ++ ".cursor"

/-! ## `collect` -/

/-- A pending file: the journal that was dumped, or what cannot be decoded. -/
inductive Content where
  | journal (logs : List Entry)
  | malformed

/-- The helper's data and the directory `pending/journal`. -/
structure Store where
  data : String → Option String
  pending : String → Option Content

def Store.setData (s : Store) (key : String) (value : Option String) : Store :=
  { s with data := fun k => if k = key then value else s.data k }

def Store.setPending (s : Store) (file : String) (content : Content) : Store :=
  { s with pending := fun f => if f = file then some content else s.pending f }

/-- What becomes of opening and writing a file. -/
inductive Dump where
  | ok
  | openFails
  | breaksOff

/-- What the calls of one `collect` come to: `exec` for the manager of a unit
or the unit itself, and the order in which the units are gone through. -/
structure Io where
  exec : Bool → String → Command → Option (List Entry)
  load : String → Bool
  dump : String → Dump
  order : Bool → List String
  order_perm : ∀ user, (order user).Perm (units user)

/-- The journal in the file, if it can be opened and read. -/
def loadJournal (io : Io) (file : String) (s : Store) : Option (List Entry) :=
  match s.pending file with
  | none => some []
  | some content =>
    if io.load file then
      match content with
      | .journal logs => some logs
      | .malformed => some []
    else none

def dumpJournal (io : Io) (file : String) (logs : List Entry) (s : Store) : Store :=
  match io.dump file with
  | .ok => s.setPending file (.journal logs)
  | .openFails => s
  | .breaksOff => s.setPending file .malformed

/-- One round of `for invocation, new_logs in journal.items()`. -/
def appendLogs (io : Io) (name : String) (s : Store) (p : String × List Entry) : Store :=
  match loadJournal io (fileName name p.1) s with
  | none => s
  | some old => if old ++ p.2 = [] then s else dumpJournal io (fileName name p.1) (old ++ p.2) s

/-- One round of `for unit in units`. -/
def collectUnit (io : Io) (user : Bool) (failed : Dict String (List String)) (s : Store) (unit : String) : Store :=
  match failed.get? unit with
  | none => s
  | some invocations =>
    let name := unitName user unit
    let r := readUnit (io.exec user unit) unit invocations user (s.data (unitCursorName name))
    if r.1.items = [] then s
    else (r.1.items.foldl (appendLogs io name) s).setData (unitCursorName name) r.2

/-- `collect_inner`. -/
def collectInner (io : Io) (user : Bool) (s : Store) : Store :=
  let r := failedUnits (io.exec user (managerUnit user)) user (s.data (cursorName user))
  (io.order user).foldl (collectUnit io user r.1) (s.setData (cursorName user) r.2)

/-- `collect`. -/
def collect (io : Io) (s : Store) : Store := collectInner io true (collectInner io false s)

/-! ## Different names -/

def hexValue (c : Char) : Nat := if c = ' ' then 0 else if c.isDigit then c.toNat - 48 else c.toNat - 87

/-- Reading the two characters of a code back gives the number. -/
theorem hex2_value : ∀ n : Fin 256, (hex2 n).foldl (fun value c => 16 * value + hexValue c) 0 = n := by decide +kernel

theorem hex2_inj {a b : UInt8} (h : hex2 a.toNat = hex2 b.toNat) : a = b := by
  have ha := hex2_value ⟨a.toNat, a.toNat_lt⟩
  have hb := hex2_value ⟨b.toNat, b.toNat_lt⟩
  simp only [h] at ha
  exact UInt8.toNat_inj.1 (ha.symm.trans hb)

theorem length_hex2 (n : Nat) : (hex2 n).length = 2 := by
  unfold hex2
  split <;> rfl

theorem ofNat_byte_inj {a b : UInt8} (h : Char.ofNat a.toNat = Char.ofNat b.toNat) : a = b := by
  have valid : ∀ n : Fin 256, (Char.ofNat n).toNat = n := by decide +kernel
  have ha := valid ⟨a.toNat, a.toNat_lt⟩
  have hb := valid ⟨b.toNat, b.toNat_lt⟩
  simp only [h] at ha
  exact UInt8.toNat_inj.1 (ha.symm.trans hb)

/-- No byte's code is the start of another's. -/
theorem escapeByte_append_inj {a b : UInt8} {l l' : List Char} (h : escapeByte a ++ l = escapeByte b ++ l') :
    a = b ∧ l = l' := by
  unfold escapeByte at h
  split at h <;> split at h
  · simp only [List.singleton_append, List.cons.injEq] at h
    exact ⟨ofNat_byte_inj h.1, h.2⟩
  · rename_i ha _
    simp only [List.cons_append, List.cons.injEq] at h
    rw [h.1] at ha
    cases ha
  · rename_i hb
    simp only [List.cons_append, List.cons.injEq] at h
    rw [← h.1] at hb
    cases hb
  · simp only [List.cons_append, List.cons.injEq, true_and] at h
    obtain ⟨hc, hl⟩ := List.append_inj h (by rw [length_hex2, length_hex2])
    exact ⟨hex2_inj hc, hl⟩

theorem escapeByte_ne_nil (b : UInt8) : escapeByte b ≠ [] := by
  unfold escapeByte
  split <;> simp

theorem flatMap_escapeByte_inj {as bs : List UInt8} (h : as.flatMap escapeByte = bs.flatMap escapeByte) : as = bs := by
  induction as generalizing bs with
  | nil =>
    cases bs with
    | nil => rfl
    | cons b bs => simp [escapeByte_ne_nil] at h
  | cons a as ih =>
    cases bs with
    | nil => simp [escapeByte_ne_nil] at h
    | cons b bs =>
      obtain ⟨rfl, h'⟩ := escapeByte_append_inj h
      rw [ih h']

theorem escape_inj {a b : String} (h : escape a = escape b) : a = b := by
  have hb := flatMap_escapeByte_inj (String.ofList_injective h)
  exact String.toByteArray_inj.1 (ByteArray.ext (Array.toList_inj.1 hb))

theorem mem_escape {name : String} {c : Char} :
    c ∈ (escape name).toList ↔ ∃ b ∈ name.toUTF8.data.toList, c ∈ escapeByte b := by
  simp [escape]

/-- A character that no byte from `least` on is escaped with. -/
theorem not_mem_escape {c : Char} {least : Nat}
    (hc : ∀ n : Fin 256, least ≤ n.val → c ∉ escapeByte (UInt8.ofNat n)) {name : String}
    (h : ∀ b ∈ name.toUTF8.data.toList, least ≤ b.toNat) : c ∉ (escape name).toList := by
  rw [mem_escape]
  rintro ⟨b, hm, hb⟩
  have hnot := hc ⟨b.toNat, b.toNat_lt⟩ (h b hm)
  rw [UInt8.ofNat_toNat] at hnot
  exact hnot hb

theorem dot_not_mem_escape (name : String) : '.' ∉ (escape name).toList := by
  have no_dot : ∀ n : Fin 256, 0 ≤ n.val → '.' ∉ escapeByte (UInt8.ofNat n) := by decide +kernel
  exact not_mem_escape no_dot fun b _ => Nat.zero_le b.toNat

/-- Only control characters leave a space in the escaped name. -/
theorem space_not_mem_escape {name : String} (h : ∀ b ∈ name.toUTF8.data.toList, 16 ≤ b) :
    ' ' ∉ (escape name).toList := by
  have no_space : ∀ n : Fin 256, 16 ≤ n.val → ' ' ∉ escapeByte (UInt8.ofNat n) := by decide +kernel
  exact not_mem_escape no_space fun b hb => UInt8.le_iff_toNat_le.1 (h b hb)

theorem unitName_inj {user user' : Bool} {unit unit' : String} (h : unitName user unit = unitName user' unit') :
    user = user' ∧ unit = unit' := by
  have dotted : ∀ a b, "user." ++ escape a ≠ escape b := fun a b he => by
    refine dot_not_mem_escape b ?_
    rw [← he]
    simp
  cases user <;> cases user' <;> simp only [unitName] at h
  · exact ⟨rfl, escape_inj h⟩
  · exact absurd h.symm (dotted _ _)
  · exact absurd h (dotted _ _)
  · exact ⟨rfl, escape_inj (by simpa using h)⟩

/-- The names of the tracked units have no space. -/
theorem space_not_mem_unitName {user : Bool} {unit : String} (h : unit ∈ units user) :
    ' ' ∉ (unitName user unit).toList := by
  have printable : ∀ user, ∀ unit ∈ units user, ∀ b ∈ unit.toUTF8.data.toList, 16 ≤ b := by decide +kernel
  have hs := space_not_mem_escape (printable user unit h)
  cases user
  · exact hs
  · simpa [unitName] using hs

theorem append_cons_inj {l l' r r' : List Char} {c : Char} (hl : c ∉ l) (hl' : c ∉ l')
    (h : l ++ c :: r = l' ++ c :: r') : l = l' ∧ r = r' := by
  induction l generalizing l' with
  | nil =>
    cases l' with
    | nil => exact ⟨rfl, by simpa using h⟩
    | cons d l' =>
      simp only [List.nil_append, List.cons_append, List.cons.injEq] at h
      exact absurd (by rw [h.1]; exact List.mem_cons_self) hl'
  | cons d l ih =>
    cases l' with
    | nil =>
      simp only [List.nil_append, List.cons_append, List.cons.injEq] at h
      exact absurd (by rw [h.1]; exact List.mem_cons_self) hl
    | cons d' l' =>
      simp only [List.cons_append, List.cons.injEq, List.mem_cons, not_or] at h hl hl'
      obtain ⟨rfl, rfl⟩ := ih hl.2 hl'.2 h.2
      exact ⟨by rw [h.1], rfl⟩

theorem fileName_inj {name name' invocation invocation' : String} (hn : ' ' ∉ name.toList) (hn' : ' ' ∉ name'.toList)
    (h : fileName name invocation = fileName name' invocation') : name = name' ∧ invocation = invocation' := by
  have hl : name.toList ++ ' ' :: (invocation ++ ".json").toList =
      name'.toList ++ ' ' :: (invocation' ++ ".json").toList := by
    have := congrArg String.toList h
    simpa [fileName] using this
  obtain ⟨h1, h2⟩ := append_cons_inj hn hn' hl
  exact ⟨String.toList_inj.1 h1, by simpa using String.toList_inj.1 h2⟩

theorem unitCursorName_inj {name name' : String} (h : unitCursorName name = unitCursorName name') : name = name' := by
  simpa [unitCursorName] using h

/-- The unit's cursor is not kept under the name of a manager's. -/
theorem unitCursorName_ne (name : String) (user : Bool) : unitCursorName name ≠ cursorName user := by
  intro h
  have hl := congrArg (fun s => s.toList.reverse.take 7) h
  cases user <;> simp [unitCursorName, cursorName] at hl

end LogSubmitter.Journal

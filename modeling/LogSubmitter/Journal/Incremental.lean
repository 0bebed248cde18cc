import LogSubmitter.Journal.Collect
import LogSubmitter.Lib.Cursor
import LogSubmitter.Lib.Runs
/-!
# Collecting in pieces

Collects at growing prefixes of a journal, against one collect over the whole
of it. Each unit's cursor moves past all lines of the unit once some of them
are stored, so what is stored later depends on which invocations were known to
have failed by then.
-/
namespace LogSubmitter.Journal

open Lib Lib.Cursor

/-! ## `journalctl` -/

/-- What `journalctl` prints for the commands of a collect: what comes after
the cursor, or after the first `old` entries, which are older than `-S` asks
for, and is selected by `-u`. -/
def printed (selects : String → Entry → Bool) (journal : List Entry) (old : Nat) (c : Command) : List Entry :=
  (after Entry.cursor c.afterCursor (if c.startAgoMs.isSome then journal.drop old else journal)).filter fun e =>
    c.unit.all fun unit => selects unit e

/-- A collect that sees the first `count` entries of the journal, of which
`old` are older than 30 days. -/
structure Cut where
  count : Nat
  old : Nat
  order : Bool → List String
  order_perm : ∀ user, (order user).Perm (units user)

/-- Every read and write of the collect succeeds. -/
def Cut.io (selects : String → Entry → Bool) (journal : List Entry) (cut : Cut) : Io where
  exec := fun _ _ c => some (printed selects (journal.take cut.count) cut.old c)
  load := fun _ => true
  dump := fun _ => .ok
  order := cut.order
  order_perm := cut.order_perm

theorem Cut.clean (selects : String → Entry → Bool) (journal : List Entry) (cut : Cut) :
    Clean (cut.io selects journal) :=
  ⟨fun _ => rfl, fun _ => rfl⟩

/-- `-u` selects at least what the unit wrote itself. -/
def SelectsOwn (selects : String → Entry → Bool) : Prop :=
  ∀ unit e, e.fields.get? "_SYSTEMD_UNIT" = some (.str unit) → selects unit e = true

/-- The entry was written by the unit. -/
def ofUnit (user : Bool) (unit : String) (e : Entry) : Bool := keeps unit { allowUser := user, allowSystem := !user } e

/-- The entries of the manager a collect reads. -/
def managerEntries (journal : List Entry) (old : Nat) (user : Bool) (cursor : Option String) : List Entry :=
  (after Entry.cursor cursor (if cursor = none then journal.drop old else journal)).filter
    (ofUnit false (managerUnit user))

theorem filter_selects {selects : String → Entry → Bool} (hs : SelectsOwn selects) (user : Bool) (unit : String)
    (hk : unit ≠ "kernel") (l : List Entry) :
    (l.filter fun e => (command unit none { allowUser := user, allowSystem := !user }).unit.all
      fun unit => selects unit e).filter (ofUnit user unit) = l.filter (ofUnit user unit) := by
  rw [List.filter_filter]
  refine List.filter_congr fun e _ => ?_
  cases user with
  | true => simp [command, hk]
  | false =>
    by_cases h : e.fields.get? "_SYSTEMD_UNIT" = some (.str unit)
    · simp [command, hk, hs unit e h]
    · simp [ofUnit, keeps, h]

theorem units_ne_kernel (user : Bool) : ∀ unit ∈ units user, unit ≠ "kernel" := by
  revert user
  decide +kernel

section
variable {selects : String → Entry → Bool} {journal : List Entry} {cut : Cut}

theorem unitLogs_io (hs : SelectsOwn selects) {user user' : Bool} {unit unit' : String} (hu : unit ∈ units user)
    (cursor : Option String) :
    unitLogs ((cut.io selects journal).exec user' unit') user unit cursor =
      (after Entry.cursor cursor (journal.take cut.count)).filter (ofUnit user unit) := by
  rw [← filter_selects hs user unit (units_ne_kernel user unit hu)]
  simp only [unitLogs, readJournal, Cut.io, readLines_eq, Option.getD_some]
  rfl

theorem managerLogs_io (hs : SelectsOwn selects) {user user' : Bool} {unit' : String} (cursor : Option String) :
    managerLogs ((cut.io selects journal).exec user' unit') user cursor =
      managerEntries (journal.take cut.count) cut.old user cursor := by
  have hk : managerUnit user ≠ "kernel" := by cases user <;> decide
  rw [managerEntries, ← filter_selects hs false (managerUnit user) hk]
  cases cursor with
  | none =>
    simp only [managerLogs, readManager, readJournal, Cut.io, readLines_eq, Option.getD_some]
    rfl
  | some c =>
    simp only [managerLogs, readManager, readJournal, Cut.io, readLines_eq, Option.getD_some]
    rfl

end

/-! ## The lines that are stored -/

/-- The content of a file the lines are stored in. -/
def stored (logs : List Entry) : Option Content := if logs = [] then none else some (.journal logs)

/-- The store, and how much of the journal the last collect saw. -/
structure State where
  store : Store
  count : Nat

def emptyStore : Store := { data := fun _ => none, pending := fun _ => none }

/-- A collect at a prefix of the journal that is not shorter than the last. -/
def Step (selects : String → Entry → Bool) (journal : List Entry) (s : State) (cut : Cut) (s' : State) : Prop :=
  s.count ≤ cut.count ∧ s' = { store := collect (cut.io selects journal) s.store, count := cut.count }

def unitCursorOf (s : Store) (user : Bool) (unit : String) : Option String :=
  s.data (unitCursorName (unitName user unit))

/-- The lines of the unit that the collect has not read yet. -/
def unread (journal : List Entry) (s : Store) (user : Bool) (unit : String) : List Entry :=
  (after Entry.cursor (unitCursorOf s user unit) journal).filter (ofUnit user unit)

/-- The collect finds the invocation failed. -/
def FailedNow (journal : List Entry) (cut : Cut) (s : Store) (user : Bool) (unit i : String) : Prop :=
  Failed (managerEntries (journal.take cut.count) cut.old user (s.data (cursorName user))) user unit i

/-- What a unit's files and cursor always are: the files hold lines up to the cursor. -/
structure Progress (journal : List Entry) (user : Bool) (unit : String) (s : State) : Prop where
  valid : Valid Entry.cursor (unitCursorOf s.store user unit) (journal.take s.count)
  files : ∀ i, ∃ logs, s.store.pending (fileName (unitName user unit) i) = stored logs ∧
    ∀ e ∈ logs, e.cursor ∈ (upTo Entry.cursor (unitCursorOf s.store user unit) journal).map Entry.cursor

section
variable {selects : String → Entry → Bool} {journal : List Entry} {cut : Cut} {user : Bool} {unit : String}

theorem mem_foundFailed_io (hs : SelectsOwn selects) {s : Store} {i : String} :
    i ∈ foundFailed (cut.io selects journal) s user unit ↔ FailedNow journal cut s user unit i := by
  rw [mem_foundFailed, managerLogs_io hs]
  rfl

variable {last : Cut}

end

/-! ## A failure that comes late -/

/-- A line of `vpower.service`. -/
def vpowerLine (cursor invocation : String) : Entry :=
  .ofTexts cursor [("_SYSTEMD_UNIT", "vpower.service"), ("_SYSTEMD_INVOCATION_ID", invocation)] (by simp)

/-- The manager says that `vpower.service` has failed. -/
def vpowerFailure (cursor invocation : String) : Entry :=
  .ofTexts cursor [("_SYSTEMD_UNIT", "init.scope"), ("UNIT", "vpower.service"), ("INVOCATION_ID", invocation),
    ("UNIT_RESULT", "exit-code")] (by simp)

def lateFailure : List Entry :=
  [vpowerLine "1" "a", vpowerFailure "2" "b", vpowerLine "3" "b", vpowerFailure "4" "a"]

def bySystemdUnit (unit : String) (e : Entry) : Bool := decide (e.fields.get? "_SYSTEMD_UNIT" = some (.str unit))

/-- A collect that sees the first `count` entries, none of them old. -/
def Cut.first (count : Nat) : Cut := { count := count, old := 0, order := units, order_perm := fun _ => .refl _ }

theorem bySystemdUnit_own : SelectsOwn bySystemdUnit := fun _ _ h => decide_eq_true h

end LogSubmitter.Journal

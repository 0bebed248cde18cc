import LogSubmitter.Json
import Mathlib.Data.List.Induction
/-!
# Reading the journal

`util.read_journal` selects the entries of a unit twice: `journalctl` gets
arguments for it, and the loop over the printed lines compares fields.
-/
namespace LogSubmitter.Journal

open Lib

/-! ## Entries -/

/-- The fields with the name of a unit or the id of an invocation. -/
def idFields : List String := ["INVOCATION_ID", "USER_INVOCATION_ID", "_SYSTEMD_INVOCATION_ID", "UNIT", "USER_UNIT"]

/-- A line of `journalctl -o json`. It has a cursor, and ids are texts. -/
structure Entry where
  fields : Dict String Json
  cursor : String
  cursor_eq : fields.get? "__CURSOR" = some (.str cursor)
  ids : ∀ key ∈ idFields, ∀ value, fields.get? key = some value → ∃ text, value = .str text

namespace Entry

/-- `log.get(key)`, where it is a text. -/
def text (e : Entry) (key : String) : Option String :=
  match e.fields.get? key with
  | some (.str text) => some text
  | _ => none

/-- `del log[key]` of a field that is neither the cursor nor an id. -/
def erase (e : Entry) (key : String) (h : key ≠ "__CURSOR" ∧ key ∉ idFields) : Entry where
  fields := e.fields.erase key
  cursor := e.cursor
  cursor_eq := by rw [Dict.get?_erase_of_ne _ h.1.symm, e.cursor_eq]
  ids := fun k hk value hv => e.ids k hk value (by
    rwa [Dict.get?_erase_of_ne] at hv
    rintro rfl
    exact h.2 hk)

/-- An entry whose fields are texts. -/
def ofTexts (cursor : String) (texts : List (String × String)) (h : ("__CURSOR" :: texts.map Prod.fst).Nodup) :
    Entry where
  fields := ⟨("__CURSOR", .str cursor) :: texts.map fun p => (p.1, .str p.2), by simpa [Function.comp_def] using h⟩
  cursor := cursor
  cursor_eq := by simp [Dict.get?, Assoc.get_cons]
  ids := fun key _ value hv => by
    have hm := (Assoc.get_eq_some (by simpa [Function.comp_def] using h)).1 hv
    simp only [List.mem_cons, Prod.mk.injEq, List.mem_map] at hm
    rcases hm with ⟨-, rfl⟩ | ⟨p, -, -, rfl⟩
    · exact ⟨_, rfl⟩
    · exact ⟨_, rfl⟩

@[simp] theorem cursor_erase (e : Entry) (key : String) (h) : (e.erase key h).cursor = e.cursor := rfl

end Entry

/-! ## `read_journal` -/

/-- What `journalctl` is asked for. -/
structure Command where
  kernel : Bool
  unit : Option String
  afterCursor : Option String
  currentBoot : Bool
  startAgoMs : Option Nat

/-- `cmd`. -/
def Command.args (c : Command) : List String :=
  ["journalctl", "-o", "json"] ++ (if c.kernel then ["-k"] else []) ++ (c.unit.elim [] fun unit => ["-u", unit]) ++
    (c.afterCursor.elim [] fun cursor => ["--after-cursor", cursor]) ++
    (if c.currentBoot then ["-b", "0"] else []) ++
    (c.startAgoMs.elim [] fun ms => ["-S", "-" ++ toString ms ++ "ms"])

/-- The keyword arguments of `read_journal`, with their defaults. -/
structure Query where
  currentBoot : Bool := false
  startAgoMs : Option Nat := none
  uid : Option Nat := none
  allowSystem : Bool := true
  allowUser : Bool := false

/-- The selection made by the command line. -/
def command (unit : String) (cursor : Option String) (q : Query) : Command where
  kernel := unit = "kernel"
  unit := if unit = "kernel" then none else if q.allowSystem && !q.allowUser then some unit else none
  afterCursor := cursor
  currentBoot := q.currentBoot
  startAgoMs := q.startAgoMs

/-- The selection made in the loop. -/
def keeps (unit : String) (q : Query) (log : Entry) : Bool :=
  if q.uid.any fun uid => log.fields.get? "_UID" ≠ some (.str (toString uid)) then false
  else
    q.allowSystem && decide (log.fields.get? "_SYSTEMD_UNIT" = some (.str unit)) ||
      q.allowUser && decide (log.fields.get? "_SYSTEMD_USER_UNIT" = some (.str unit))

/-- The loop over the printed lines. -/
def readLines (unit : String) (q : Query) (lines : List Entry) : List Entry × Option String :=
  lines.foldl (fun acc log => (if keeps unit q log then acc.1 ++ [log] else acc.1, some log.cursor)) ([], none)

/-- `util.read_journal`. `exec` is `none` where `journalctl` cannot be run. -/
def readJournal (exec : Command → Option (List Entry)) (unit : String) (cursor : Option String) (q : Query) :
    Option (List Entry) × Option String :=
  match exec (command unit cursor q) with
  | none => (none, none)
  | some lines => ((some (readLines unit q lines).1), (readLines unit q lines).2)

/-- The cursor of the last entry. -/
def lastCursor (entries : List Entry) : Option String := entries.getLast?.map Entry.cursor

/-- The loop keeps what the filter lets through, and the last cursor of all. -/
theorem readLines_eq (unit : String) (q : Query) (lines : List Entry) :
    readLines unit q lines = (lines.filter (keeps unit q), lastCursor lines) := by
  induction lines using List.reverseRecOn with
  | nil => rfl
  | append_singleton lines log ih =>
    rw [readLines] at ih ⊢
    rw [List.foldl_append, ih]
    by_cases h : keeps unit q log <;> simp [h, lastCursor]

/-! ## The kernel's entries -/

/-- An entry of the kernel. It belongs to no unit. -/
structure Kernel (e : Entry) : Prop where
  transport : e.fields.get? "_TRANSPORT" = some (.str "kernel")
  no_unit : e.fields.get? "_SYSTEMD_UNIT" = none
  no_user_unit : e.fields.get? "_SYSTEMD_USER_UNIT" = none

theorem Kernel.not_keeps {e : Entry} (h : Kernel e) (unit : String) (q : Query) : keeps unit q e = false := by
  simp [keeps, h.no_unit, h.no_user_unit]

/-- Of a kernel journal, `read_journal` returns what was printed just when
nothing was. -/
theorem read_kernel_iff {exec : Command → Option (List Entry)} {cursor : Option String} {currentBoot : Bool}
    {startAgoMs : Option Nat} {lines : List Entry}
    (h : exec (command "kernel" cursor { currentBoot := currentBoot, startAgoMs := startAgoMs }) = some lines)
    (hk : ∀ e ∈ lines, Kernel e) :
    readJournal exec "kernel" cursor { currentBoot := currentBoot, startAgoMs := startAgoMs } =
      (some lines, lastCursor lines) ↔ lines = [] := by
  have none_kept : lines.filter (keeps "kernel" { currentBoot := currentBoot, startAgoMs := startAgoMs }) = [] :=
    List.filter_eq_nil_iff.2 fun e he => by simp [(hk e he).not_keeps]
  simp only [readJournal, h, readLines_eq, none_kept, Prod.mk.injEq, and_true, Option.some.injEq]
  exact eq_comm

/-- A line of the kernel. -/
def kernelLine : Entry :=
  .ofTexts "i=2fc0d5e" [("_TRANSPORT", "kernel"), ("MESSAGE", "Bluetooth: RFCOMM TTY layer initialized")] (by decide)

theorem kernelLine_kernel : Kernel kernelLine := ⟨by decide, by decide, by decide⟩

theorem read_kernel_one : readJournal (fun _ => some [kernelLine]) "kernel" none {} =
    (some [kernelLine], lastCursor [kernelLine]) ↔ [kernelLine] = [] :=
  read_kernel_iff rfl (by simpa using kernelLine_kernel)

/-- The one line `journalctl` printed is dropped. -/
theorem read_kernel_drops : Kernel kernelLine ∧
    (readJournal (fun _ => some [kernelLine]) "kernel" none {}).1 = some [] ∧
    readJournal (fun _ => some [kernelLine]) "kernel" none {} ≠ (some [kernelLine], lastCursor [kernelLine]) := by
  refine ⟨kernelLine_kernel, by rfl, fun h => ?_⟩
  have hlen := congrArg (fun r => r.1.map List.length) h
  revert hlen
  decide

end LogSubmitter.Journal

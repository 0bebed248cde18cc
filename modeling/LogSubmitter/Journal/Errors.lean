import LogSubmitter.Journal.Incremental
/-!
# Collects with errors

A collect stores the cursors no matter what becomes of the lines: the manager's
before the units are read, a unit's after its files, some of which may not have
been written. What an error leaves out is found again only if the error leaves
out nothing.
-/
namespace LogSubmitter.Journal

open Lib Lib.Cursor

/-- A collect in which the journal of some units cannot be read, and some files neither read nor
written. -/
structure Attempt extends Cut where
  reads : Bool → String → Bool
  load : String → Bool
  dump : String → Dump

def Attempt.io (selects : String → Entry → Bool) (journal : List Entry) (a : Attempt) : Io where
  exec := fun user unit c =>
    if unit = managerUnit user ∨ a.reads user unit = true then (a.toCut.io selects journal).exec user unit c else none
  load := a.load
  dump := a.dump
  order := a.order
  order_perm := a.order_perm

def AttemptStep (selects : String → Entry → Bool) (journal : List Entry) (s : Store) (a : Attempt) (s' : Store) :
    Prop :=
  s' = collect (a.io selects journal) s

/-- The collects of the run, had none of them met an error. -/
def withoutErrors (selects : String → Entry → Bool) (journal : List Entry) (s : Store) (tr : List (Store × Attempt)) :
    Store :=
  tr.foldl (fun s p => collect (p.2.toCut.io selects journal) s) s

/-- Where the collect finds a line of a failed invocation that is not stored yet, the unit's
journal can be read, and the file of the invocation read and written. -/
def Harmless (journal : List Entry) (s : Store) (a : Attempt) : Prop :=
  ∀ user, ∀ unit ∈ units user, ∀ e ∈ unread (journal.take a.count) s user unit,
    FailedNow journal a.toCut s user unit (lineInvocation user e) →
      a.reads user unit = true ∧ a.load (fileName (unitName user unit) (lineInvocation user e)) = true ∧
        a.dump (fileName (unitName user unit) (lineInvocation user e)) = .ok

/-- The same files and cursors of the units, and the same cursors of the managers. -/
structure Same (s t : Store) : Prop where
  unit : ∀ user, ∀ unit ∈ units user, SameUnit user unit s t
  manager : ∀ user, t.data (cursorName user) = s.data (cursorName user)

section
variable {selects : String → Entry → Bool} {journal : List Entry} {a : Attempt} {user : Bool} {unit : String}

theorem readManager_io (user : Bool) (cursor : Option String) :
    readManager ((a.io selects journal).exec user (managerUnit user)) user cursor =
      readManager ((a.toCut.io selects journal).exec user (managerUnit user)) user cursor := by
  have hexec : (a.io selects journal).exec user (managerUnit user) =
      (a.toCut.io selects journal).exec user (managerUnit user) := funext fun c => if_pos (.inl rfl)
  rw [hexec]

theorem foundFailed_io (s : Store) :
    foundFailed (a.io selects journal) s user unit = foundFailed (a.toCut.io selects journal) s user unit := by
  rw [foundFailed, failedUnits, readManager_io]
  rfl

theorem managerUnit_not_mem (user : Bool) : managerUnit user ∉ units user := by
  revert user
  decide +kernel

/-- A collect whose errors are harmless does what it does without them. -/
theorem collect_of_harmless (hs : SelectsOwn selects) (hu : unit ∈ units user) {s : Store}
    (h : Harmless journal s a) :
    Collects ((a.toCut.io selects journal).exec user unit) user unit
      (foundFailed (a.toCut.io selects journal) s user unit) s (collect (a.io selects journal) s) := by
  have ha := collect_appends (a.io selects journal) hu s
  rw [foundFailed_io] at ha
  set failed := foundFailed (a.toCut.io selects journal) s user unit with hfailed
  have hharm : ∀ e ∈ unread (journal.take a.count) s user unit, lineInvocation user e ∈ failed →
      a.reads user unit = true ∧ a.load (fileName (unitName user unit) (lineInvocation user e)) = true ∧
        a.dump (fileName (unitName user unit) (lineInvocation user e)) = .ok := fun e he hf =>
    h user unit hu e he ((mem_foundFailed_io hs).1 hf)
  have hlogs : unitLogs ((a.toCut.io selects journal).exec user unit) user unit
      (s.data (unitCursorName (unitName user unit))) = unread (journal.take a.count) s user unit := unitLogs_io hs hu _
  by_cases hr : a.reads user unit = true
  · have hexec : (a.io selects journal).exec user unit = (a.toCut.io selects journal).exec user unit :=
      funext fun c => if_pos (.inr hr)
    refine ⟨fun i => ?_, ?_⟩
    · rw [ha.pending, unitLines, get?_readUnit, hexec, hlogs]
      by_cases hnew : newLogs user failed (unread (journal.take a.count) s user unit) i = []
      · simp only [if_pos hnew]
      · rw [newLogs_eq_nil] at hnew
        push Not at hnew
        obtain ⟨hi, e, he, rfl⟩ := hnew
        obtain ⟨-, hl, hd⟩ := hharm e he hi
        have hne : newLogs user failed (unread (journal.take a.count) s user unit) (lineInvocation user e) ≠ [] :=
          fun hnil => newLogs_eq_nil.1 hnil hi e he rfl
        simp only [if_neg hne]
        exact appendTo_of_ok hl hd _ hne
    · rw [ha.cursor]
      simp only [unitLines, readUnit_items_eq_nil, hexec]
      rfl
  · -- Nothing is read, and there is nothing to store.
    have hnone : ∀ c, (a.io selects journal).exec user unit c = none := by
      intro c
      refine if_neg ?_
      rintro (rfl | hread)
      · exact managerUnit_not_mem user hu
      · exact hr hread
    have hitems : (unitLines (a.io selects journal) user unit failed s).1.items = [] := by
      refine readUnit_items_eq_nil.2 fun e he => ?_
      simp [unitLogs, readJournal, hnone] at he
    have hno : ∀ e ∈ unread (journal.take a.count) s user unit, lineInvocation user e ∉ failed := fun e he hf =>
      hr (hharm e he hf).1
    refine ⟨fun i => ?_, ?_⟩
    · rw [ha.pending, Dict.get?, hitems, hlogs]
      exact (if_pos (newLogs_eq_nil.2 fun hi e he hl => hno e he (hl ▸ hi))).symm
    · rw [ha.cursor, if_pos hitems]
      simp only [hlogs]
      exact (if_pos hno).symm

/-- What a collect without errors does depends on the unit's files and cursor. -/
theorem Collects.same {exec : Command → Option (List Entry)} {invocations : List String} {s s' t t' : Store}
    (h : Collects exec user unit invocations s s') (h' : Collects exec user unit invocations t t')
    (hst : SameUnit user unit s t) : SameUnit user unit s' t' := by
  refine ⟨fun i => ?_, ?_⟩
  · rw [h'.pending, h.pending, hst.cursor, hst.pending]
  · rw [h'.cursor, h.cursor, hst.cursor]

theorem foundFailed_same {io : Io} {s t : Store} (h : Same s t) :
    foundFailed io t user unit = foundFailed io s user unit := by
  rw [foundFailed, h.manager, foundFailed]

/-- After the same history, a collect with harmless errors leaves what one without errors leaves. -/
theorem collect_same (hs : SelectsOwn selects) {s t : Store} (hst : Same s t) (h : Harmless journal s a) :
    Same (collect (a.io selects journal) s) (collect (a.toCut.io selects journal) t) := by
  refine ⟨fun user unit hu => ?_, fun user => ?_⟩
  · have hc := collect_collects (a.toCut.clean selects journal) hu t
    rw [foundFailed_same hst] at hc
    exact (collect_of_harmless hs hu h).same hc (hst.unit user unit hu)
  · rw [collect_manager, collect_manager, hst.manager, readManager_io]

theorem Same.refl (s : Store) : Same s s := ⟨fun _ _ _ => .refl .., fun _ => rfl⟩

theorem run_same (hs : SelectsOwn selects) {s₀ s : Store} {tr : List (Store × Attempt)}
    (h : Run (AttemptStep selects journal) s₀ tr s) (hok : ∀ p ∈ tr, Harmless journal p.1 p.2) :
    Same s (withoutErrors selects journal s₀ tr) := by
  induction h with
  | nil => exact .refl s₀
  | @snoc tr s a s' _ hstep ih =>
    have hih := ih fun p hp => hok p (List.mem_append_left _ hp)
    obtain rfl := hstep
    rw [withoutErrors, List.foldl_append]
    exact collect_same hs hih (hok (s, a) (by simp))

/-- In every run of collects in which no error concerns a line that is still to be stored, the
pending files are, after one more collect without errors, those of the run without errors. -/
theorem errors_recovered (hs : SelectsOwn selects) {s₀ s : Store} {tr : List (Store × Attempt)}
    (h : Run (AttemptStep selects journal) s₀ tr s) (hok : ∀ p ∈ tr, Harmless journal p.1 p.2) (last : Cut) :
    ∀ user, ∀ unit ∈ units user, ∀ i,
      (collect (last.io selects journal) s).pending (fileName (unitName user unit) i) =
        (collect (last.io selects journal) (withoutErrors selects journal s₀ tr)).pending
          (fileName (unitName user unit) i) := by
  intro user unit hu i
  have hsame := run_same hs h hok
  have hc := collect_collects (last.clean selects journal) hu (withoutErrors selects journal s₀ tr)
  rw [foundFailed_same hsame] at hc
  exact (((collect_collects (last.clean selects journal) hu s).same hc (hsame.unit user unit hu)).pending i).symm

end

/-! ## Errors that lose lines -/

def oneFailure : List Entry := [vpowerLine "1" "a", vpowerFailure "2" "a"]

/-- A collect over all of it, in which a unit's journal may not be read, or a file not be written. -/
def attempt (read : Bool) (dump : Dump) : Attempt where
  toCut := Cut.first 2
  reads := fun _ _ => read
  load := fun _ => true
  dump := fun _ => dump

def attempts (read : Bool) (dump : Dump) : List (Store × Attempt) := [(emptyStore, attempt read dump)]

theorem attempts_run (read : Bool) (dump : Dump) : Run (AttemptStep bySystemdUnit oneFailure) emptyStore
    (attempts read dump) (collect ((attempt read dump).io bySystemdUnit oneFailure) emptyStore) :=
  Run.nil.snoc rfl

theorem attempts_recovered : ∃ tr s, Run (AttemptStep bySystemdUnit oneFailure) emptyStore tr s ∧ tr.length = 1 ∧
    ∀ user, ∀ unit ∈ units user, ∀ i,
      (collect ((Cut.first 2).io bySystemdUnit oneFailure) s).pending (fileName (unitName user unit) i) =
        (collect ((Cut.first 2).io bySystemdUnit oneFailure)
          (withoutErrors bySystemdUnit oneFailure emptyStore tr)).pending (fileName (unitName user unit) i) := by
  refine ⟨_, _, attempts_run true .ok, rfl,
    errors_recovered bySystemdUnit_own (attempts_run true .ok) (fun p hp => ?_) (Cut.first 2)⟩
  rw [attempts, List.mem_singleton] at hp
  subst hp
  exact fun _ _ _ _ _ _ => ⟨rfl, rfl, rfl⟩

/-- A line is in no file after a collect without errors, as it would be without the error before. -/
def Loses (read : Bool) (dump : Dump) : Prop :=
  ∃ tr s, Run (AttemptStep bySystemdUnit oneFailure) emptyStore tr s ∧ tr = attempts read dump ∧
    ¬ ∀ user, ∀ unit ∈ units user, ∀ i,
      ∀ e ∈ logsOf ((collect ((Cut.first 2).io bySystemdUnit oneFailure)
        (withoutErrors bySystemdUnit oneFailure emptyStore tr)).pending (fileName (unitName user unit) i)),
      e.cursor ∈ (logsOf ((collect ((Cut.first 2).io bySystemdUnit oneFailure) s).pending
        (fileName (unitName user unit) i))).map Entry.cursor

theorem loses_of_stored {read : Bool} {dump : Dump}
    (hclean : (logsOf ((collect ((Cut.first 2).io bySystemdUnit oneFailure)
      (withoutErrors bySystemdUnit oneFailure emptyStore (attempts read dump))).pending
        (fileName (unitName false "vpower.service") "a"))).map Entry.cursor = ["1"])
    (herr : (logsOf ((collect ((Cut.first 2).io bySystemdUnit oneFailure)
      (collect ((attempt read dump).io bySystemdUnit oneFailure) emptyStore)).pending
        (fileName (unitName false "vpower.service") "a"))).map Entry.cursor = []) : Loses read dump := by
  refine ⟨_, _, attempts_run read dump, rfl, fun h => ?_⟩
  have hunit : "vpower.service" ∈ units false := by decide +kernel
  obtain ⟨e, he, -⟩ := List.mem_map.1 (hclean ▸ List.mem_singleton_self "1")
  have hmem := h false "vpower.service" hunit "a" e he
  rw [herr] at hmem
  cases hmem

/-- The file of a failed invocation cannot be opened or written, or the journal of its unit not be read. -/
theorem error_loses_line : Loses true .openFails ∧ Loses true .breaksOff ∧ Loses false .ok :=
  ⟨loses_of_stored (by decide +kernel) (by decide +kernel), loses_of_stored (by decide +kernel) (by decide +kernel),
    loses_of_stored (by decide +kernel) (by decide +kernel)⟩

end LogSubmitter.Journal

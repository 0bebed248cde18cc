import LogSubmitter.Journal.Helper
/-!
# What a collect does

A collect without I/O errors, seen from one unit: which lines go to which
files, where the unit's cursor ends up, and that no other unit is touched.
-/
namespace LogSubmitter.Journal

open Lib

/-! ## Failed invocations -/

/-- One of the entries marks the invocation of the unit as failed. -/
def Failed (logs : List Entry) (user : Bool) (unit invocation : String) : Prop :=
  ∃ e ∈ logs, failure user e = some (unit, invocation)

theorem mem_addInvocation {invocations : List String} {i j : String} :
    j ∈ addInvocation invocations i ↔ j ∈ invocations ∨ j = i := by
  unfold addInvocation
  split
  · rename_i h
    constructor
    · exact .inl
    · rintro (hj | rfl)
      · exact hj
      · exact h
  · simp

theorem mem_foldl_addFailure {ps : List (String × String)} {failed : Dict String (List String)} {unit i : String} :
    i ∈ ((ps.foldl addFailure failed).get? unit).getD [] ↔ i ∈ (failed.get? unit).getD [] ∨ (unit, i) ∈ ps := by
  induction ps generalizing failed with
  | nil => simp
  | cons p ps ih =>
    obtain ⟨u, j⟩ := p
    rw [List.foldl_cons, ih, addFailure, Dict.get?_insert]
    by_cases h : unit = u
    · subst h; simp [mem_addInvocation, or_assoc]
    · simp [h]

/-- The manager's entries `failed_units` looks at. -/
def managerLogs (exec : Command → Option (List Entry)) (user : Bool) (cursor : Option String) : List Entry :=
  (readManager exec user cursor).1.getD []

theorem mem_failedUnits {exec : Command → Option (List Entry)} {user : Bool} {cursor : Option String}
    {unit i : String} :
    i ∈ ((failedUnits exec user cursor).1.get? unit).getD [] ↔ Failed (managerLogs exec user cursor) user unit i := by
  rw [failedUnits, mem_foldl_addFailure]
  simp [Failed, managerLogs, List.mem_filterMap]

/-! ## The lines of an invocation -/

/-- The lines of a failed invocation, as they are stored. -/
def newLogs (user : Bool) (invocations : List String) (lines : List Entry) (i : String) : List Entry :=
  (lines.filter fun e => lineInvocation user e = i ∧ i ∈ invocations).map anonymous

theorem newLogs_eq_nil {user : Bool} {invocations : List String} {lines : List Entry} {i : String} :
    newLogs user invocations lines i = [] ↔ i ∈ invocations → ∀ e ∈ lines, lineInvocation user e ≠ i := by
  simp only [newLogs, List.map_eq_nil_iff, List.filter_eq_nil_iff, decide_eq_true_eq, not_and]
  exact ⟨fun h hi e he hl => h e he hl hi, fun h e he hl hi => h hi e he hl⟩

theorem get?_foldl_addLine (user : Bool) (invocations : List String) (lines : List Entry)
    (results : Dict String (List Entry)) (i : String) :
    (lines.foldl (addLine user invocations) results).get? i =
      if newLogs user invocations lines i = [] then results.get? i
      else some ((results.get? i).getD [] ++ newLogs user invocations lines i) := by
  induction lines generalizing results with
  | nil => simp [newLogs]
  | cons log lines ih =>
    rw [List.foldl_cons, ih]
    by_cases h : lineInvocation user log = i ∧ i ∈ invocations
    -- A line of this failed invocation is appended.
    · obtain ⟨rfl, hi⟩ := h
      have hcons : newLogs user invocations (log :: lines) (lineInvocation user log) =
          anonymous log :: newLogs user invocations lines (lineInvocation user log) := by simp [newLogs, hi]
      have hadd : (addLine user invocations results log).get? (lineInvocation user log) =
          some ((results.get? (lineInvocation user log)).getD [] ++ [anonymous log]) := by simp [addLine, hi]
      rw [hcons, hadd]
      split
      · rename_i hnil; simp [hnil]
      · simp
    -- Any other line leaves what is collected for it.
    · have hcons : newLogs user invocations (log :: lines) i = newLogs user invocations lines i := by
        simp [newLogs, h]
      have hadd : (addLine user invocations results log).get? i = results.get? i := by
        unfold addLine
        split
        · rename_i hm
          refine Dict.get?_insert_of_ne _ (fun he => h ?_) _
          subst he
          exact ⟨rfl, hm⟩
        · rfl
      rw [hcons, hadd]

/-- The lines `read_journal` of the unit goes through. -/
def unitLogs (exec : Command → Option (List Entry)) (user : Bool) (unit : String) (cursor : Option String) :
    List Entry :=
  ((readJournal exec unit cursor { allowUser := user, allowSystem := !user }).1).getD []

theorem get?_readUnit (exec : Command → Option (List Entry)) (unit : String) (invocations : List String) (user : Bool)
    (cursor : Option String) (i : String) :
    (readUnit exec unit invocations user cursor).1.get? i =
      if newLogs user invocations (unitLogs exec user unit cursor) i = [] then none
      else some (newLogs user invocations (unitLogs exec user unit cursor) i) := by
  simp only [readUnit, get?_foldl_addLine, Dict.get?_empty, Option.getD_none, List.nil_append]
  rfl

/-- The unit has a line of a failed invocation. -/
theorem readUnit_items_eq_nil {exec : Command → Option (List Entry)} {unit : String} {invocations : List String}
    {user : Bool} {cursor : Option String} :
    (readUnit exec unit invocations user cursor).1.items = [] ↔
      ∀ e ∈ unitLogs exec user unit cursor, lineInvocation user e ∉ invocations := by
  constructor
  · intro h e he hi
    have hget := get?_readUnit exec unit invocations user cursor (lineInvocation user e)
    rw [if_neg (fun hnil => newLogs_eq_nil.1 hnil hi e he rfl), Dict.get?, h] at hget
    cases hget
  · intro h
    by_contra hne
    obtain ⟨p, hp⟩ := List.exists_mem_of_ne_nil _ hne
    have hget := get?_readUnit exec unit invocations user cursor p.1
    rw [Dict.get?_eq_some.2 hp] at hget
    split at hget
    · cases hget
    · rename_i hne
      exact hne (newLogs_eq_nil.2 fun hi e he hl => h e he (hl ▸ hi))

/-! ## The pending files -/

/-- The journal in a file, as `json.load` sees it. -/
def logsOf : Option Content → List Entry
  | some (.journal logs) => logs
  | _ => []

/-- No open, read or write fails. -/
structure Clean (io : Io) : Prop where
  load : ∀ file, io.load file = true
  dump : ∀ file, io.dump file = .ok

theorem fileName_inj_left {name i j : String} (h : fileName name i = fileName name j) : i = j := by
  simpa [fileName, String.append_assoc] using h

/-- What appending lines to a file makes of its content. -/
def appendTo (io : Io) (file : String) (content : Option Content) (new : List Entry) : Option Content :=
  match loadJournal io file { data := fun _ => none, pending := fun _ => content } with
  | none => content
  | some old =>
    if old ++ new = [] then content
    else
      match io.dump file with
      | .ok => some (.journal (old ++ new))
      | .openFails => content
      | .breaksOff => some .malformed

theorem appendLogs_pending (io : Io) (name : String) (s : Store) (p : String × List Entry) (file : String) :
    (appendLogs io name s p).pending file =
      if file = fileName name p.1 then appendTo io file (s.pending file) p.2 else s.pending file := by
  have hload : loadJournal io (fileName name p.1) s = loadJournal io (fileName name p.1)
      { data := fun _ => none, pending := fun _ => s.pending (fileName name p.1) } := rfl
  unfold appendLogs appendTo dumpJournal
  by_cases hf : file = fileName name p.1
  · subst hf
    rw [if_pos rfl, hload]
    cases loadJournal io (fileName name p.1)
        { data := fun _ => none, pending := fun _ => s.pending (fileName name p.1) } with
    | none => rfl
    | some old =>
      simp only
      split
      · rfl
      · cases io.dump (fileName name p.1) <;> simp [Store.setPending]
  · rw [if_neg hf]
    split
    · rfl
    · split
      · rfl
      · cases io.dump (fileName name p.1) <;> simp [Store.setPending, hf]

theorem appendTo_of_ok {io : Io} {file : String} (hl : io.load file = true) (hd : io.dump file = .ok)
    (content : Option Content) {new : List Entry} (hn : new ≠ []) :
    appendTo io file content new = some (.journal (logsOf content ++ new)) := by
  unfold appendTo loadJournal
  cases content with
  | none => simp [hd, hn, logsOf]
  | some content => cases content <;> simp [hl, hd, hn, logsOf]

theorem foldl_appendLogs_data (io : Io) (name : String) (items : List (String × List Entry)) (s : Store) :
    (items.foldl (appendLogs io name) s).data = s.data := by
  induction items generalizing s with
  | nil => rfl
  | cons p items ih =>
    rw [List.foldl_cons, ih]
    unfold appendLogs dumpJournal
    split
    · rfl
    · split
      · rfl
      · split <;> rfl

theorem foldl_appendLogs_other (io : Io) {name file : String} (items : List (String × List Entry)) (s : Store)
    (hf : ∀ i, file ≠ fileName name i) : (items.foldl (appendLogs io name) s).pending file = s.pending file := by
  induction items generalizing s with
  | nil => rfl
  | cons p items ih => rw [List.foldl_cons, ih, appendLogs_pending, if_neg (hf p.1)]

/-- Each file gets the lines of its own invocation. -/
theorem foldl_appendLogs_pending (io : Io) (name : String) {items : List (String × List Entry)}
    (hn : (items.map Prod.fst).Nodup) (s : Store) (i : String) :
    (items.foldl (appendLogs io name) s).pending (fileName name i) =
      match Assoc.get i items with
      | none => s.pending (fileName name i)
      | some logs => appendTo io (fileName name i) (s.pending (fileName name i)) logs := by
  induction items generalizing s with
  | nil => rfl
  | cons p items ih =>
    obtain ⟨j, logs⟩ := p
    obtain ⟨hnot, hn⟩ := List.nodup_cons.1 hn
    rw [List.foldl_cons, ih hn, appendLogs_pending, Assoc.get_cons]
    by_cases hj : j = i
    · subst hj
      have hnone : Assoc.get j items = none := Assoc.get_eq_none.2 hnot
      simp only [hnone, if_true]
    · have hfile : fileName name i ≠ fileName name j := fun he => hj (fileName_inj_left he).symm
      simp only [if_neg hj, if_neg hfile]

/-! ## One unit -/

/-- The cursor after the lines of a unit. -/
def unitCursor (exec : Command → Option (List Entry)) (user : Bool) (unit : String) (cursor : Option String) :
    Option String :=
  (readJournal exec unit cursor { allowUser := user, allowSystem := !user }).2

/-- The lines of a unit that a collect reads, by invocation, when these have failed. -/
def unitLines (io : Io) (user : Bool) (unit : String) (invocations : List String) (s : Store) :
    Dict String (List Entry) × Option String :=
  readUnit (io.exec user unit) unit invocations user (s.data (unitCursorName (unitName user unit)))

/-- What a collect does for a unit with failed `invocations`: it appends the lines of each to its
file, and moves the unit's cursor if there are any. -/
structure Appends (io : Io) (user : Bool) (unit : String) (invocations : List String) (s s' : Store) : Prop where
  pending : ∀ i, s'.pending (fileName (unitName user unit) i) =
    match (unitLines io user unit invocations s).1.get? i with
    | none => s.pending (fileName (unitName user unit) i)
    | some new =>
      appendTo io (fileName (unitName user unit) i) (s.pending (fileName (unitName user unit) i)) new
  cursor : s'.data (unitCursorName (unitName user unit)) =
    if (unitLines io user unit invocations s).1.items = [] then s.data (unitCursorName (unitName user unit))
    else (unitLines io user unit invocations s).2

/-- A unit's files and its cursor are the same. -/
structure SameUnit (user : Bool) (unit : String) (s s' : Store) : Prop where
  pending : ∀ i, s'.pending (fileName (unitName user unit) i) = s.pending (fileName (unitName user unit) i)
  cursor : s'.data (unitCursorName (unitName user unit)) = s.data (unitCursorName (unitName user unit))

theorem SameUnit.refl (user : Bool) (unit : String) (s : Store) : SameUnit user unit s s := ⟨fun _ => rfl, rfl⟩

theorem SameUnit.trans {user : Bool} {unit : String} {s s' s'' : Store} (h : SameUnit user unit s s')
    (h' : SameUnit user unit s' s'') : SameUnit user unit s s'' :=
  ⟨fun i => (h'.pending i).trans (h.pending i), h'.cursor.trans h.cursor⟩

theorem Appends.congr {io : Io} {user : Bool} {unit : String} {invocations : List String} {s a b s' : Store}
    (h : Appends io user unit invocations a b) (hs : SameUnit user unit s a) (hs' : SameUnit user unit b s') :
    Appends io user unit invocations s s' := by
  have hlines : unitLines io user unit invocations a = unitLines io user unit invocations s := by
    rw [unitLines, hs.cursor, unitLines]
  refine ⟨fun i => ?_, ?_⟩
  · rw [hs'.pending, h.pending, hlines, hs.pending]
  · rw [hs'.cursor, h.cursor, hlines, hs.cursor]

theorem collectUnit_appends (io : Io) (user : Bool) (failed : Dict String (List String)) (s : Store) (unit : String) :
    Appends io user unit ((failed.get? unit).getD []) s (collectUnit io user failed s unit) := by
  unfold collectUnit
  cases hf : failed.get? unit with
  | none =>
    have hnil : (unitLines io user unit [] s).1.items = [] :=
      readUnit_items_eq_nil.2 fun _ _ => List.not_mem_nil
    simp only [Option.getD_none]
    refine ⟨fun i => ?_, ?_⟩
    · rw [Dict.get?, hnil]
      rfl
    · rw [if_pos hnil]
  | some invocations =>
    simp only [Option.getD_some]
    split
    · rename_i hnil
      change (unitLines io user unit invocations s).1.items = [] at hnil
      refine ⟨fun i => ?_, ?_⟩
      · rw [Dict.get?, hnil]
        rfl
      · rw [if_pos hnil]
    · rename_i hne
      refine ⟨fun i => ?_, ?_⟩
      · exact foldl_appendLogs_pending io (unitName user unit) (Dict.nodup _) s i
      · rw [Store.setData]
        exact (if_pos rfl).trans (if_neg hne).symm

/-! ## The other units -/

theorem collectUnit_same {io : Io} {user user' : Bool} {failed : Dict String (List String)} {s : Store}
    {unit unit' : String} (hu : unit ∈ units user) (hu' : unit' ∈ units user')
    (hne : ¬ (user = user' ∧ unit = unit')) : SameUnit user unit s (collectUnit io user' failed s unit') := by
  have hname : unitName user unit ≠ unitName user' unit' := fun he => hne (unitName_inj he)
  unfold collectUnit
  cases failed.get? unit' with
  | none => exact .refl ..
  | some invocations =>
    simp only
    split
    · exact .refl ..
    · refine ⟨fun i => ?_, ?_⟩
      · refine foldl_appendLogs_other _ _ _ fun j he => hname ?_
        exact (fileName_inj (space_not_mem_unitName hu) (space_not_mem_unitName hu') he).1
      · have hcursor : unitCursorName (unitName user unit) ≠ unitCursorName (unitName user' unit') :=
          fun he => hname (unitCursorName_inj he)
        simp [Store.setData, hcursor, foldl_appendLogs_data]

theorem collectUnit_manager (io : Io) (user user' : Bool) (failed : Dict String (List String)) (s : Store)
    (unit : String) : (collectUnit io user failed s unit).data (cursorName user') = s.data (cursorName user') := by
  unfold collectUnit
  cases failed.get? unit with
  | none => rfl
  | some invocations =>
    simp only
    split
    · rfl
    · simp [Store.setData, (unitCursorName_ne _ _).symm, foldl_appendLogs_data]

theorem foldl_collectUnit_manager (io : Io) (user user' : Bool) (failed : Dict String (List String))
    (us : List String) (s : Store) :
    (us.foldl (collectUnit io user failed) s).data (cursorName user') = s.data (cursorName user') := by
  induction us generalizing s with
  | nil => rfl
  | cons u us ih => rw [List.foldl_cons, ih, collectUnit_manager]

theorem foldl_collectUnit_same {io : Io} {user user' : Bool} {failed : Dict String (List String)}
    {us : List String} {s : Store} {unit : String} (hu : unit ∈ units user) (hus : ∀ u ∈ us, u ∈ units user')
    (hne : ∀ u ∈ us, ¬ (user = user' ∧ unit = u)) :
    SameUnit user unit s (us.foldl (collectUnit io user' failed) s) := by
  induction us generalizing s with
  | nil => exact .refl ..
  | cons u us ih =>
    have h1 : SameUnit user unit s (collectUnit io user' failed s u) :=
      collectUnit_same hu (hus u List.mem_cons_self) (hne u List.mem_cons_self)
    exact h1.trans (ih (fun v hv => hus v (List.mem_cons_of_mem _ hv)) fun v hv => hne v (List.mem_cons_of_mem _ hv))

theorem foldl_collectUnit_appends {io : Io} {user : Bool} {failed : Dict String (List String)}
    {us : List String} {s : Store} {unit : String} (hn : us.Nodup) (hus : ∀ u ∈ us, u ∈ units user)
    (hu : unit ∈ us) :
    Appends io user unit ((failed.get? unit).getD []) s (us.foldl (collectUnit io user failed) s) := by
  induction us generalizing s with
  | nil => cases hu
  | cons u us ih =>
    obtain ⟨hnu, hn⟩ := List.nodup_cons.1 hn
    have hus' : ∀ v ∈ us, v ∈ units user := fun v hv => hus v (List.mem_cons_of_mem _ hv)
    rcases List.mem_cons.1 hu with rfl | hu
    · refine (collectUnit_appends io user failed s unit).congr (.refl ..) ?_
      exact foldl_collectUnit_same (hus unit List.mem_cons_self) hus' fun v hv he => hnu (he.2 ▸ hv)
    · refine (ih hn hus' hu).congr ?_ (.refl ..)
      exact collectUnit_same (hus' unit hu) (hus u List.mem_cons_self) fun he => hnu (he.2 ▸ hu)

/-! ## The whole collect -/

theorem units_nodup (user : Bool) : (units user).Nodup := by
  revert user
  decide +kernel

theorem setData_same (user user' : Bool) (unit : String) (s : Store) (value : Option String) :
    SameUnit user unit s (s.setData (cursorName user') value) :=
  ⟨fun _ => rfl, by simp [Store.setData, unitCursorName_ne]⟩

theorem collectInner_same {io : Io} {user user' : Bool} {unit : String} (hu : unit ∈ units user)
    (hne : user ≠ user') (s : Store) : SameUnit user unit s (collectInner io user' s) := by
  exact (setData_same user user' unit s _).trans
    (foldl_collectUnit_same hu (fun u hm => ((io.order_perm user').mem_iff).1 hm) fun u _ he => hne he.1)

theorem collectInner_manager (io : Io) (user user' : Bool) (s : Store) :
    (collectInner io user s).data (cursorName user') =
      if user' = user then (readManager (io.exec user (managerUnit user)) user (s.data (cursorName user))).2
      else s.data (cursorName user') := by
  rw [collectInner, foldl_collectUnit_manager]
  cases user <;> cases user' <;> simp [Store.setData, cursorName, failedUnits]

/-- The invocations of a unit that a collect finds failed. -/
def foundFailed (io : Io) (s : Store) (user : Bool) (unit : String) : List String :=
  ((failedUnits (io.exec user (managerUnit user)) user (s.data (cursorName user))).1.get? unit).getD []

theorem mem_foundFailed {io : Io} {s : Store} {user : Bool} {unit i : String} :
    i ∈ foundFailed io s user unit ↔
      Failed (managerLogs (io.exec user (managerUnit user)) user (s.data (cursorName user))) user unit i :=
  mem_failedUnits

theorem collectInner_appends (io : Io) {user : Bool} {unit : String} (hu : unit ∈ units user) (s : Store) :
    Appends io user unit (foundFailed io s user unit) s (collectInner io user s) := by
  refine (foldl_collectUnit_appends ((io.order_perm user).nodup_iff.2 (units_nodup user))
    (fun u hm => ((io.order_perm user).mem_iff).1 hm) (((io.order_perm user).mem_iff).2 hu)).congr ?_ (.refl ..)
  exact setData_same user user unit s _

/-- For each unit a collect appends the lines of the invocations it finds failed. -/
theorem collect_appends (io : Io) {user : Bool} {unit : String} (hu : unit ∈ units user) (s : Store) :
    Appends io user unit (foundFailed io s user unit) s (collect io s) := by
  cases user with
  | false => exact (collectInner_appends io hu s).congr (.refl ..) (collectInner_same hu (by decide) _)
  | true =>
    have hf : foundFailed io (collectInner io false s) true unit = foundFailed io s true unit := by
      rw [foundFailed, collectInner_manager]; rfl
    rw [← hf]
    exact (collectInner_appends io hu _).congr (collectInner_same hu (by decide) s) (.refl ..)

theorem collect_manager (io : Io) (user : Bool) (s : Store) :
    (collect io s).data (cursorName user) =
      (readManager (io.exec user (managerUnit user)) user (s.data (cursorName user))).2 := by
  cases user <;> simp [collect, collectInner_manager]

/-! ## A collect without errors -/

/-- What a collect does for a unit with failed `invocations`, of which `exec` prints the lines. -/
structure Collects (exec : Command → Option (List Entry)) (user : Bool) (unit : String) (invocations : List String)
    (s s' : Store) : Prop where
  pending : ∀ i, s'.pending (fileName (unitName user unit) i) =
    let new := newLogs user invocations (unitLogs exec user unit (s.data (unitCursorName (unitName user unit)))) i
    if new = [] then s.pending (fileName (unitName user unit) i)
    else some (.journal (logsOf (s.pending (fileName (unitName user unit) i)) ++ new))
  cursor : s'.data (unitCursorName (unitName user unit)) =
    let before := s.data (unitCursorName (unitName user unit))
    if ∀ e ∈ unitLogs exec user unit before, lineInvocation user e ∉ invocations then before
    else unitCursor exec user unit before

/-- Where no file fails, each gets the new lines of its invocation. -/
theorem Appends.collects {io : Io} (h : Clean io) {user : Bool} {unit : String} {invocations : List String}
    {s s' : Store} (ha : Appends io user unit invocations s s') :
    Collects (io.exec user unit) user unit invocations s s' := by
  refine ⟨fun i => ?_, ?_⟩
  · rw [ha.pending, unitLines, get?_readUnit]
    by_cases hnew : newLogs user invocations
        (unitLogs (io.exec user unit) user unit (s.data (unitCursorName (unitName user unit)))) i = []
    · simp only [if_pos hnew]
    · simp only [if_neg hnew, appendTo_of_ok (h.load _) (h.dump _) _ hnew]
  · rw [ha.cursor]
    simp only [unitLines, readUnit_items_eq_nil]
    rfl

theorem collect_collects {io : Io} (h : Clean io) {user : Bool} {unit : String} (hu : unit ∈ units user) (s : Store) :
    Collects (io.exec user unit) user unit (foundFailed io s user unit) s (collect io s) :=
  (collect_appends io hu s).collects h

end LogSubmitter.Journal

import LogSubmitter.Journal.Incremental
import Mathlib.Data.List.Nodup
/-!
# What the cursors keep

A manager's cursor is lost whenever `journalctl` prints nothing or cannot be
run, and old failures are found once more. A unit's cursor moves past all lines
it is read with, so nothing is stored twice.
-/
namespace LogSubmitter.Journal

open Lib Lib.Cursor

/-! ## What `journalctl` answers -/

/-- Every call of `journalctl` fails, prints nothing, or prints what it is asked for of the journal, as
far as it goes by then. -/
def Answers (selects : String → Entry → Bool) (journal : List Entry) (io : Io) : Prop :=
  ∀ user unit c, io.exec user unit c = none ∨ io.exec user unit c = some [] ∨
    ∃ count old, io.exec user unit c = some (printed selects (journal.take count) old c)

/-- A collect, whatever its calls come to. -/
def CollectStep (selects : String → Entry → Bool) (journal : List Entry) (s : Store) (io : Io) (s' : Store) : Prop :=
  Answers selects journal io ∧ s' = collect io s

section
variable {selects : String → Entry → Bool} {journal : List Entry} {io : Io}

/-- Lines printed after a cursor, up to the last of them. -/
theorem printed_split {count old : Nat} {c : Command} (hs : c.startAgoMs = none) {e : Entry} {lines : List Entry}
    (hp : printed selects (journal.take count) old c = e :: lines) :
    ∃ a last b, after Entry.cursor c.afterCursor journal = a ++ last :: b ∧
      lastCursor (e :: lines) = some last.cursor ∧ ∀ x ∈ e :: lines, x ∈ a ++ [last] := by
  set p : Entry → Bool := fun e => c.unit.all fun unit => selects unit e with hp'
  have hfilter : (after Entry.cursor c.afterCursor (journal.take count)).filter p = e :: lines := by
    rw [← hp, printed, hs]
    rfl
  have he := List.mem_filter.1 (hfilter ▸ List.mem_cons_self : e ∈ (after Entry.cursor c.afterCursor
    (journal.take count)).filter p)
  obtain ⟨a, last, b, hsplit, hlast, hb⟩ := split_last he.1 he.2
  refine ⟨a, last, b ++ journal.drop count, ?_, by rw [lastCursor, ← hfilter, hlast, Option.map_some],
    fun x hx => ?_⟩
  · conv_lhs => rw [← List.take_append_drop count journal]
    rw [after_append (valid_of_mem_after he.1), hsplit]
    simp
  · rw [← hfilter] at hx
    obtain ⟨hx, hpx⟩ := List.mem_filter.1 hx
    rw [hsplit, List.append_cons] at hx
    rcases List.mem_append.1 hx with hx | hx
    · exact hx
    · rw [hb x hx] at hpx
      cases hpx

/-! ## The managers' cursors -/

/-- `k'` is the same cursor or a later one, and no cursor is lost. -/
def NotBefore (journal : List Entry) (c c' : Option String) : Prop :=
  ∀ k, c = some k → ∃ k', c' = some k' ∧ (k' = k ∨ k' ∈ (after Entry.cursor (some k) journal).map Entry.cursor)

/-- `journalctl` prints a line of the manager after the cursor. -/
def Prints (io : Io) (user : Bool) (cursor : String) : Prop :=
  ∃ e lines, io.exec user (managerUnit user) (command (managerUnit user) (some cursor) {}) = some (e :: lines)

/-- Where the manager's cursor is after a collect that found one. -/
theorem collect_manager_some {s : Store} {user : Bool} {k : String} (hk : s.data (cursorName user) = some k) :
    (collect io s).data (cursorName user) =
      (io.exec user (managerUnit user) (command (managerUnit user) (some k) {})).bind lastCursor := by
  rw [collect_manager, hk, readManager, readJournal]
  cases io.exec user (managerUnit user) (command (managerUnit user) (some k) {}) with
  | none => rfl
  | some lines => exact congrArg Prod.snd (readLines_eq _ _ lines)

theorem notBefore_iff (ha : Answers selects journal io) (s : Store) (user : Bool) :
    NotBefore journal (s.data (cursorName user)) ((collect io s).data (cursorName user)) ↔
      ∀ k, s.data (cursorName user) = some k → Prints io user k := by
  refine forall_congr' fun k => forall_congr' fun hk => ?_
  rw [collect_manager_some hk]
  rcases ha user (managerUnit user) (command (managerUnit user) (some k) {}) with hx | hx | ⟨count, old, hx⟩
  · simp [Prints, hx]
  · simp [Prints, hx, lastCursor]
  · cases hp : printed selects (journal.take count) old (command (managerUnit user) (some k) {}) with
    | nil => simp [Prints, hx, hp, lastCursor]
    | cons e lines =>
      refine iff_of_true ?_ ⟨e, lines, by rw [hx, hp]⟩
      obtain ⟨a, last, b, hsplit, hlast, -⟩ := printed_split (by rfl) hp
      refine ⟨last.cursor, by rw [hx, hp, Option.bind_some, hlast], .inr ?_⟩
      have hafter : after Entry.cursor (some k) journal = a ++ last :: b := hsplit
      rw [hafter]
      simp

/-- In every run the managers' cursors stay or move on just when each collect that
has a cursor finds a new entry of the manager. -/
theorem cursors_move_on_iff {s₀ s : Store} {tr : List (Store × Io)}
    (h : Run (CollectStep selects journal) s₀ tr s) :
    (∀ p ∈ tr, ∀ user, NotBefore journal (p.1.data (cursorName user)) ((collect p.2 p.1).data (cursorName user))) ↔
      ∀ p ∈ tr, ∀ user k, p.1.data (cursorName user) = some k → Prints p.2 user k := by
  refine forall_congr' fun p => forall_congr' fun hp => forall_congr' fun user => ?_
  obtain ⟨_, _, -, -, ha, -⟩ := h.prefix_of_mem p hp
  exact notBefore_iff ha p.1 user

end

theorem Cut.answers (selects : String → Entry → Bool) (journal : List Entry) (cut : Cut) :
    Answers selects journal (cut.io selects journal) :=
  fun _ _ _ => .inr (.inr ⟨cut.count, cut.old, rfl⟩)

/-- A collect that sees the first entries of the journal, and one that sees some more. -/
def collectTwice (count count' : Nat) : List (Store × Io) :=
  let io := (Cut.first count).io bySystemdUnit lateFailure
  [(emptyStore, io), (collect io emptyStore, (Cut.first count').io bySystemdUnit lateFailure)]

theorem collectTwice_run (count count' : Nat) :
    ∃ s, Run (CollectStep bySystemdUnit lateFailure) emptyStore (collectTwice count count') s :=
  ⟨_, (Run.nil.snoc ⟨Cut.answers _ _ (Cut.first count), rfl⟩).snoc ⟨Cut.answers _ _ (Cut.first count'), rfl⟩⟩

theorem collectTwice_moves_on : ∃ tr s, Run (CollectStep bySystemdUnit lateFailure) emptyStore tr s ∧ tr.length = 2 ∧
    ((∀ p ∈ tr, ∀ user,
      NotBefore lateFailure (p.1.data (cursorName user)) ((collect p.2 p.1).data (cursorName user))) ↔
        ∀ p ∈ tr, ∀ user k, p.1.data (cursorName user) = some k → Prints p.2 user k) := by
  obtain ⟨s, h⟩ := collectTwice_run 3 4
  exact ⟨_, s, h, rfl, cursors_move_on_iff h⟩

/-- The second collect finds nothing new, and the cursor is lost. -/
theorem idle_collect_loses_cursor : ∃ tr s, Run (CollectStep bySystemdUnit lateFailure) emptyStore tr s ∧
    ¬ ∀ p ∈ tr, ∀ user,
      NotBefore lateFailure (p.1.data (cursorName user)) ((collect p.2 p.1).data (cursorName user)) := by
  obtain ⟨s, h⟩ := collectTwice_run 4 4
  have hcursors : (collect ((Cut.first 4).io bySystemdUnit lateFailure) emptyStore).data "system_cursor" = some "4" ∧
      (collect ((Cut.first 4).io bySystemdUnit lateFailure)
        (collect ((Cut.first 4).io bySystemdUnit lateFailure) emptyStore)).data "system_cursor" = none := by
    decide +kernel
  refine ⟨_, s, h, fun hall => ?_⟩
  obtain ⟨k', hk', -⟩ := hall _ (List.mem_cons_of_mem _ List.mem_cons_self) false "4" hcursors.1
  rw [show cursorName false = "system_cursor" from rfl, hcursors.2] at hk'
  cases hk'

/-! ## The lines that are stored -/

/-- The file can be opened and read, and then opened for writing. -/
def appends (io : Io) (name : String) (s : Store) (item : String × List Entry) : Bool :=
  (loadJournal io (fileName name item.1) s).isSome &&
    match io.dump (fileName name item.1) with
    | .openFails => false
    | _ => true

/-- The lines of a unit that a collect appends to pending files. -/
def appended (p : Store × Io) (user : Bool) (unit : String) : List Entry :=
  ((unitLines p.2 user unit (foundFailed p.2 p.1 user unit) p.1).1.items.filter
    (appends p.2 (unitName user unit) p.1)).flatMap Prod.snd

/-- All lines that the collects of a run append. -/
def allAppended (tr : List (Store × Io)) : List Entry :=
  [false, true].flatMap fun user => (units user).flatMap fun unit => tr.flatMap fun p => appended p user unit

/-- What a tracked unit of the system writes belongs to no unit of a user. -/
def OneUnit (journal : List Entry) : Prop :=
  ∀ e ∈ journal, ∀ unit ∈ systemUnits, e.fields.get? "_SYSTEMD_UNIT" = some (.str unit) →
    e.fields.get? "_SYSTEMD_USER_UNIT" = none

section
variable {selects : String → Entry → Bool} {journal : List Entry} {io : Io} {user user' : Bool} {unit unit' : String}

theorem ofUnit_iff {e : Entry} : ofUnit user unit e = true ↔
    e.fields.get? (if user then "_SYSTEMD_USER_UNIT" else "_SYSTEMD_UNIT") = some (.str unit) := by
  cases user <;> simp [ofUnit, keeps]

theorem unit_unique (ho : OneUnit journal) {e : Entry} (he : e ∈ journal) (hu : unit ∈ units user)
    (hu' : unit' ∈ units user') (h : ofUnit user unit e = true) (h' : ofUnit user' unit' e = true) :
    user = user' ∧ unit = unit' := by
  rw [ofUnit_iff] at h h'
  cases user <;> cases user'
  · rw [h, Option.some.injEq, Json.str.injEq] at h'
    exact ⟨rfl, h'⟩
  · rw [if_pos rfl, ho e he unit hu h] at h'
    cases h'
  · rw [if_pos rfl, ho e he unit' hu' h'] at h
    cases h
  · rw [h, Option.some.injEq, Json.str.injEq] at h'
    exact ⟨rfl, h'⟩

/-- The new lines of an invocation, and of the unit. -/
theorem mem_unitLines {invocations : List String} {s : Store} {i : String} {logs : List Entry}
    (h : (i, logs) ∈ (unitLines io user unit invocations s).1.items) :
    logs = newLogs user invocations (unitLogs (io.exec user unit) user unit (unitCursorOf s user unit)) i := by
  have hget := Dict.get?_eq_some.2 h
  rw [unitLines, get?_readUnit] at hget
  split at hget
  · cases hget
  · exact (Option.some.inj hget).symm

/-- A line that is stored is one of the unit's, without the host's name. -/
theorem mem_newLogs {invocations : List String} {lines : List Entry} {i : String} {e : Entry}
    (h : e ∈ newLogs user invocations lines i) :
    ∃ x ∈ lines, lineInvocation user x = i ∧ e.cursor = x.cursor := by
  obtain ⟨x, hx, rfl⟩ := List.mem_map.1 h
  obtain ⟨hx, hi⟩ := List.mem_filter.1 hx
  exact ⟨x, hx, (of_decide_eq_true hi).1, rfl⟩

theorem cursor_inj {l : List Entry} (hn : (l.map Entry.cursor).Nodup) {x y : Entry} (hx : x ∈ l) (hy : y ∈ l)
    (h : x.cursor = y.cursor) : x = y :=
  List.inj_on_of_nodup_map hn hx hy h

/-- One collect appends no line of the unit twice. -/
theorem appended_nodup {p : Store × Io}
    (hn : ((unitLogs (p.2.exec user unit) user unit (unitCursorOf p.1 user unit)).map Entry.cursor).Nodup) :
    ((appended p user unit).map Entry.cursor).Nodup := by
  rw [appended, List.map_flatMap]
  have hkeys := (unitLines p.2 user unit (foundFailed p.2 p.1 user unit) p.1).1.nodup
  refine List.nodup_flatMap.2 ⟨fun item hi => ?_, ?_⟩
  · rw [mem_unitLines (List.mem_filter.1 hi).1, newLogs, List.map_map]
    exact (List.filter_sublist.map Entry.cursor).nodup hn
  · refine List.Pairwise.imp_of_mem ?_ ((List.filter_sublist.map Prod.fst).nodup hkeys |> List.pairwise_map.1)
    intro a b ha hb hne c hca hcb
    obtain ⟨e, he, rfl⟩ := List.mem_map.1 hca
    obtain ⟨e', he', hee⟩ := List.mem_map.1 hcb
    rw [mem_unitLines (List.mem_filter.1 ha).1] at he
    rw [mem_unitLines (List.mem_filter.1 hb).1] at he'
    obtain ⟨x, hx, hxi, hxc⟩ := mem_newLogs he
    obtain ⟨y, hy, hyi, hyc⟩ := mem_newLogs he'
    obtain rfl := cursor_inj hn hx hy (by rw [← hxc, ← hee, hyc])
    exact hne (hxi.symm.trans hyi)

/-- The command a unit's lines are read with. -/
def unitCommand (user : Bool) (unit : String) (cursor : Option String) : Command :=
  command unit cursor { allowUser := user, allowSystem := !user }

/-- A unit's lines are those of what was printed, if anything was. -/
theorem unitLogs_eq (user : Bool) (unit : String) (cursor : Option String) :
    unitLogs (io.exec user unit) user unit cursor =
      ((io.exec user unit (unitCommand user unit cursor)).getD []).filter (ofUnit user unit) := by
  rw [unitLogs, readJournal, unitCommand]
  cases io.exec user unit (command unit cursor { allowUser := user, allowSystem := !user }) with
  | none => rfl
  | some lines => exact congrArg Prod.fst (readLines_eq _ _ lines)

theorem unitCursor_eq (user : Bool) (unit : String) (cursor : Option String) :
    unitCursor (io.exec user unit) user unit cursor =
      (io.exec user unit (unitCommand user unit cursor)).bind lastCursor := by
  rw [unitCursor, readJournal, unitCommand]
  cases io.exec user unit (command unit cursor { allowUser := user, allowSystem := !user }) with
  | none => rfl
  | some lines => exact congrArg Prod.snd (readLines_eq _ _ lines)

theorem printed_sublist (count old : Nat) (c : Command) :
    (printed selects (journal.take count) old c).Sublist journal := by
  rw [printed]
  refine List.filter_sublist.trans ((after_suffix _ _ _).sublist.trans ?_)
  split
  · exact (List.drop_sublist _ _).trans (List.take_sublist _ _)
  · exact List.take_sublist _ _

theorem unitLogs_sublist (ha : Answers selects journal io) (user : Bool) (unit : String) (cursor : Option String) :
    (unitLogs (io.exec user unit) user unit cursor).Sublist journal := by
  rw [unitLogs_eq]
  refine List.filter_sublist.trans ?_
  rcases ha user unit (unitCommand user unit cursor) with hx | hx | ⟨count, old, hx⟩
  · rw [hx]
    exact List.nil_sublist _
  · rw [hx]
    exact List.nil_sublist _
  · rw [hx]
    exact printed_sublist count old _

/-- A collect moves a unit's cursor over all lines it has read, or leaves it and appends none. -/
theorem unit_step (ha : Answers selects journal io) (hn : (journal.map Entry.cursor).Nodup) (hu : unit ∈ units user)
    (s : Store) :
    ∃ read, upTo Entry.cursor (unitCursorOf (collect io s) user unit) journal =
        upTo Entry.cursor (unitCursorOf s user unit) journal ++ read ∧
      (∀ x ∈ read, x ∈ after Entry.cursor (unitCursorOf s user unit) journal) ∧
      ∀ e ∈ appended (s, io) user unit, ∃ x ∈ read, ofUnit user unit x = true ∧ e.cursor = x.cursor := by
  have hc := (collect_appends io hu s).cursor
  by_cases hnil : (unitLines io user unit (foundFailed io s user unit) s).1.items = []
  · rw [if_pos hnil] at hc
    refine ⟨[], ?_, by simp, fun e he => ?_⟩
    · rw [List.append_nil, unitCursorOf, hc]
      rfl
    · simp only [appended, hnil, List.filter_nil, List.flatMap_nil] at he
      cases he
  · rw [if_neg hnil] at hc
    -- There is a line to store, so something was printed.
    obtain ⟨e, lines, hexec⟩ : ∃ e lines,
        io.exec user unit (unitCommand user unit (unitCursorOf s user unit)) = some (e :: lines) := by
      by_contra hno
      refine hnil (readUnit_items_eq_nil.2 fun x hx => ?_)
      rw [show unitLogs (io.exec user unit) user unit (s.data (unitCursorName (unitName user unit))) = _ from
        unitLogs_eq user unit (unitCursorOf s user unit)] at hx
      cases hex : io.exec user unit (unitCommand user unit (unitCursorOf s user unit)) with
      | none =>
        rw [hex] at hx
        cases hx
      | some lines =>
        cases lines with
        | nil =>
          rw [hex] at hx
          cases hx
        | cons e lines => exact absurd ⟨e, lines, hex⟩ hno
    obtain ⟨count, old, hp⟩ : ∃ count old,
        printed selects (journal.take count) old (unitCommand user unit (unitCursorOf s user unit)) = e :: lines := by
      rcases ha user unit (unitCommand user unit (unitCursorOf s user unit)) with h | h | ⟨count, old, h⟩
      · rw [hexec] at h
        cases h
      · rw [hexec] at h
        cases h
      · exact ⟨count, old, Option.some.inj (h.symm.trans hexec)⟩
    obtain ⟨a, last, b, hsplit, hlast, hin⟩ := printed_split rfl hp
    have hcursor : unitCursorOf (collect io s) user unit = some last.cursor := by
      refine hc.trans ((unitCursor_eq user unit (unitCursorOf s user unit)).trans ?_)
      rw [hexec, Option.bind_some, hlast]
    refine ⟨a ++ [last], ?_, fun x hx => ?_, fun x hx => ?_⟩
    · rw [hcursor]
      exact (after_read hn hsplit).2
    · rw [show after Entry.cursor (unitCursorOf s user unit) journal = _ from hsplit, List.append_cons]
      exact List.mem_append_left _ hx
    · obtain ⟨item, hi, hx'⟩ := List.mem_flatMap.1 hx
      rw [mem_unitLines (List.mem_filter.1 hi).1] at hx'
      obtain ⟨y, hy, -, hyc⟩ := mem_newLogs hx'
      rw [unitLogs_eq, hexec] at hy
      obtain ⟨hy, hown⟩ := List.mem_filter.1 hy
      exact ⟨y, hin y hy, hown, hyc⟩

end
/-! ## Nothing is stored twice -/

section
variable {selects : String → Entry → Bool} {journal : List Entry} {user : Bool} {unit : String} {s₀ s : Store}
  {tr : List (Store × Io)}

/-- What a run has appended of a unit: no entry twice, and only entries that the unit's cursor has moved over. -/
structure Stored (journal : List Entry) (user : Bool) (unit : String) (tr : List (Store × Io)) (s : Store) : Prop where
  nodup : ((tr.flatMap fun p => appended p user unit).map Entry.cursor).Nodup
  read : ∀ e ∈ tr.flatMap fun p => appended p user unit, ∃ x ∈ upTo Entry.cursor (unitCursorOf s user unit) journal,
    ofUnit user unit x = true ∧ e.cursor = x.cursor

theorem Stored.collect {io : Io} (h : Stored journal user unit tr s) (ha : Answers selects journal io)
    (hn : (journal.map Entry.cursor).Nodup) (hu : unit ∈ units user) :
    Stored journal user unit (tr ++ [(s, io)]) (collect io s) := by
  obtain ⟨read, hread, hafter, hnew⟩ := unit_step ha hn hu s
  have hone : ((appended (s, io) user unit).map Entry.cursor).Nodup := appended_nodup
    ((unitLogs_sublist ha user unit (unitCursorOf s user unit)).map Entry.cursor |>.nodup hn)
  refine ⟨?_, fun e he => ?_⟩
  · rw [List.flatMap_append, List.flatMap_singleton, List.map_append]
    refine List.nodup_append.2 ⟨h.nodup, hone, fun c hc c' hc' heq => ?_⟩
    obtain ⟨e, he, rfl⟩ := List.mem_map.1 hc
    obtain ⟨e', he', rfl⟩ := List.mem_map.1 hc'
    obtain ⟨x, hx, -, hxc⟩ := h.read e he
    obtain ⟨y, hy, -, hyc⟩ := hnew e' he'
    exact upTo_disjoint hn x hx y (hafter y hy) (by rw [← hxc, heq, hyc])
  · rw [List.flatMap_append, List.flatMap_singleton] at he
    rw [hread]
    rcases List.mem_append.1 he with he | he
    · obtain ⟨x, hx, hown⟩ := h.read e he
      exact ⟨x, List.mem_append_left _ hx, hown⟩
    · obtain ⟨x, hx, hown⟩ := hnew e he
      exact ⟨x, List.mem_append_right _ hx, hown⟩

theorem run_stored (h : Run (CollectStep selects journal) s₀ tr s) (hn : (journal.map Entry.cursor).Nodup)
    (hu : unit ∈ units user) : Stored journal user unit tr s := by
  induction h with
  | nil => exact ⟨List.nodup_nil, by simp⟩
  | snoc _ ht ih =>
    obtain ⟨ha, rfl⟩ := ht
    exact ih.collect ha hn hu

/-- What a run appends of a unit are lines of the unit in the journal. -/
theorem Stored.mem (h : Stored journal user unit tr s) {c : String}
    (hc : c ∈ (tr.flatMap fun p => appended p user unit).map Entry.cursor) :
    ∃ x ∈ journal, ofUnit user unit x = true ∧ x.cursor = c := by
  obtain ⟨e, he, rfl⟩ := List.mem_map.1 hc
  obtain ⟨x, hx, hown, hxc⟩ := h.read e he
  exact ⟨x, List.mem_of_mem_take hx, hown, hxc.symm⟩

/-- No collect appends a line that it or one before it has appended: not for the same unit,
and for no other unit either if no entry belongs to two. -/
theorem appended_once (h : Run (CollectStep selects journal) s₀ tr s) (hn : (journal.map Entry.cursor).Nodup)
    (ho : OneUnit journal) :
    ((allAppended tr).map Entry.cursor).Nodup ∧
      ∀ p ∈ tr, ∀ user, ∀ unit ∈ units user,
        Appends p.2 user unit (foundFailed p.2 p.1 user unit) p.1 (collect p.2 p.1) := by
  refine ⟨?_, fun p _ user unit hu => collect_appends p.2 hu p.1⟩
  rw [allAppended, List.map_flatMap]
  have hstored : ∀ {user unit}, unit ∈ units user → Stored journal user unit tr s := fun hu => run_stored h hn hu
  refine List.nodup_flatMap.2 ⟨fun user _ => ?_, ?_⟩
  -- Two units of one manager have no line in common.
  · rw [List.map_flatMap]
    refine List.nodup_flatMap.2 ⟨fun unit hu => (hstored hu).nodup, ?_⟩
    refine (units_nodup user).imp_of_mem fun {unit unit'} hu hu' hne c hc hc' => ?_
    obtain ⟨x, hx, hown, rfl⟩ := (hstored hu).mem hc
    obtain ⟨y, hy, hown', hxy⟩ := (hstored hu').mem hc'
    obtain rfl := cursor_inj hn hy hx hxy
    exact hne (unit_unique ho hx hu hu' hown hown').2
  -- Nor have units of the user's manager and of the system's.
  · refine List.pairwise_pair.2 fun c hc hc' => ?_
    obtain ⟨e, he, rfl⟩ := List.mem_map.1 hc
    obtain ⟨e', he', hee⟩ := List.mem_map.1 hc'
    obtain ⟨unit, hu, he⟩ := List.mem_flatMap.1 he
    obtain ⟨unit', hu', he'⟩ := List.mem_flatMap.1 he'
    obtain ⟨x, hx, hown, hxc⟩ := (hstored hu).mem (List.mem_map_of_mem he)
    obtain ⟨y, hy, hown', hyc⟩ := (hstored hu').mem (List.mem_map_of_mem he')
    obtain rfl := cursor_inj hn hx hy (by rw [hxc, hyc, hee])
    cases (unit_unique ho hx hu hu' hown hown').1

end

theorem collectTwice_appended_once : ∃ tr s, Run (CollectStep bySystemdUnit lateFailure) emptyStore tr s ∧
    ((allAppended tr).map Entry.cursor).Nodup ∧ allAppended tr ≠ [] ∧
      ∀ p ∈ tr, ∀ user, ∀ unit ∈ units user,
        Appends p.2 user unit (foundFailed p.2 p.1 user unit) p.1 (collect p.2 p.1) := by
  obtain ⟨s, h⟩ := collectTwice_run 3 4
  have hsystem : ∀ e ∈ lateFailure, e.fields.get? "_SYSTEMD_USER_UNIT" = none := by decide +kernel
  obtain ⟨hone, hall⟩ := appended_once h (by decide) fun e he _ _ _ => hsystem e he
  exact ⟨_, s, h, hone, by decide +kernel, hall⟩

end LogSubmitter.Journal

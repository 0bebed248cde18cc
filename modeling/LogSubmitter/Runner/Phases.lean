import LogSubmitter.Runner
import LogSubmitter.Json
import Mathlib.Data.List.Induction
/-!
# The two phases

`runner.collect` and `runner.submit` create a helper for each category and a
task for each helper that takes part, and wait for the tasks. What a helper's
own task raises stays there. What `create_helper` raises ends the phase.
-/
namespace LogSubmitter.Runner

open Lib

/-- Exceptions, by the classes that creating a helper tells apart. -/
inductive Exn where
  | moduleNotFoundError
  | fileNotFoundError
  | osError
  | syntaxError
  | keyError
  | assertionError
  | lockHeldError
  | other (name : String)
  deriving DecidableEq, Repr

/-- A helper's class, and what its parts come to in a phase: the data file when it is loaded,
`setupMore` what an override of `_setup` does after the inherited one, the lock, `collect`, and the
listing of the pending logs, unless `os.listdir` raises. -/
structure Helper (α : Type) where
  name : String
  isSetup : Bool
  data : Option (Dict String Json)
  file : Except Exn (Dict String Json)
  setupMore : Except Exn Bool
  isHelper : Bool
  enabled : Bool
  collectEnabled : Bool
  submitEnabled : Bool
  lock : Except Exn Unit
  collect : Except Exn (List String)
  listing : Option (List String)
  env : Env Exn
  dirs : Dirs α

/-- The package of the helpers: `list_helpers`, and what `import_module` gives, with the module's
`helper` if it has one. The names are those of modules. -/
structure Package (α : Type) where
  names : List String
  importModule : String → Except Exn (Option (Helper α))
  nodup : names.Nodup
  noSlash : ∀ name ∈ names, '/' ∉ name.toList
  named : ∀ name h, importModule name = .ok (some h) → h.name = name

/-- The order in which `asyncio.wait` gives the tasks that are done. -/
structure Wait (α : Type) where
  done : List (Helper α) → List (Helper α)
  perm : ∀ tasks, (done tasks).Perm tasks

variable {α β : Type}

/-! ## Creating a helper -/

/-- `DataStore.__init__`. -/
def loadData : Except Exn (Dict String Json) → Except Exn (Dict String Json)
  | .ok data => .ok data
  | .error .fileNotFoundError => .ok .empty
  | .error .osError => .ok .empty
  | .error .syntaxError => .ok .empty
  | .error .keyError => .ok .empty
  | .error e => .error e

/-- `get_data`: what `datastore` has already is not loaded. -/
def Helper.getData (h : Helper α) : Except Exn (Dict String Json) :=
  match h.data with
  | some data => .ok data
  | none => loadData h.file

/-- `Helper._setup`. -/
def Helper.baseSetup (h : Helper α) : Except Exn Bool := if h.isSetup then .ok true else h.getData.map fun _ => true

/-- `_setup`, with what a class adds to it. -/
def Helper.setup (h : Helper α) : Except Exn Bool :=
  h.baseSetup.bind fun done => if done then h.setupMore else .ok false

/-- `create_helper`. -/
def createHelper (pkg : Package α) (category : String) : Except Exn (Option (Helper α)) :=
  match pkg.importModule category with
  | .error .moduleNotFoundError => .ok none
  | .error e => .error e
  | .ok none => .ok none
  | .ok (some h) =>
    (if h.isSetup then .ok true else h.setup).bind fun isSetup =>
      if h.isHelper then .ok (some { h with isSetup := isSetup }) else .error .assertionError

/-! ## A phase -/

/-- The tasks of a phase whose helpers could be locked, and what the phase returns. -/
structure Phase (α β : Type) where
  ran : List (Helper α)
  returned : Except Exn β

/-- The loop over `list_helpers()`: the helpers it creates tasks for, and what ends it early. -/
def createTasks (wanted : Helper α → Bool) (pkg : Package α) : List String → List (Helper α) × Option Exn
  | [] => ([], none)
  | category :: rest =>
    match createHelper pkg category with
    | .error e => ([], some e)
    | .ok none => createTasks wanted pkg rest
    | .ok (some h) =>
      let r := createTasks wanted pkg rest
      if wanted h then (h :: r.1, r.2) else r

/-- A phase that is on. The tasks that were created run, also if nothing waits for them. -/
def phase (wanted : Helper α → Bool) (gather : List (Helper α) → β) (pkg : Package α) : Phase α β :=
  let r := createTasks wanted pkg pkg.names
  { ran := r.1.filter fun h => h.lock.isOk
    returned := match r.2 with
      | some e => .error e
      | none => .ok (gather r.1) }

/-- `collect_category`. -/
def collectCategory (h : Helper α) : List String :=
  match h.lock with
  | .error _ => []
  | .ok _ =>
    match h.collect with
    | .error _ => []
    | .ok logs => logs

/-- `helper.name/log`. -/
def logPath (name log : String) : String := String.ofList (name.toList ++ '/' :: log.toList)

/-- `runner.collect`. -/
def collect (on : Bool) (wait : Wait α) (pkg : Package α) : Phase α (List String) :=
  if on then
    phase (fun h => h.enabled && h.collectEnabled)
      (fun tasks => (wait.done tasks).flatMap fun h => (collectCategory h).map (logPath h.name)) pkg
  else { ran := [], returned := .ok [] }

/-- What `submit_category` does once it has the lock. -/
def processLogs (h : Helper α) (logs : List String) : State α Exn :=
  submitLogs h.env logs { dirs := h.dirs, calls := [], submitted := .empty }

/-- The dict that `submit_category` returns. -/
def submittedOf (h : Helper α) : Dict String (Except Exn HelperResult) :=
  match h.lock with
  | .error _ => .empty
  | .ok _ => (processLogs h (h.listing.getD [])).submitted

/-- `submitted.update(task.result())`. -/
def update (submitted : Dict String (Except Exn HelperResult)) (h : Helper α) :
    Dict String (Except Exn HelperResult) :=
  (submittedOf h).items.foldl (fun d item => d.insert (logPath h.name item.1) item.2) submitted

/-- `runner.submit`. -/
def submit (on online : Bool) (wait : Wait α) (pkg : Package α) :
    Phase α (Dict String (Except Exn HelperResult)) :=
  if on && online then
    phase (fun h => h.enabled && h.submitEnabled && h.listing.isSome)
      (fun tasks => (wait.done tasks).foldl update .empty) pkg
  else { ran := [], returned := .ok .empty }

/-! ## Faulty helpers -/

/-- The data file cannot be loaded, and `DataStore` does not expect it. -/
def BadData (file : Except Exn (Dict String Json)) : Prop :=
  ∃ e, file = .error e ∧ e ∉ [Exn.fileNotFoundError, .osError, .syntaxError, .keyError]

/-- Setting up the class raises. -/
def BadSetup (h : Helper α) : Prop :=
  h.isSetup = false ∧ (h.data = none ∧ BadData h.file ∨ ∃ e, h.setupMore = .error e)

/-- The module of a category cannot be used, and this is not because there is no such module or class. -/
def Broken (pkg : Package α) (category : String) : Prop :=
  match pkg.importModule category with
  | .error e => e ≠ .moduleNotFoundError
  | .ok none => False
  | .ok (some h) => BadSetup h ∨ h.isHelper = false

/-- The helper of a category can be used, and `takes` says that it takes part. -/
def Takes (takes : Helper α → Prop) (pkg : Package α) (category : String) : Prop :=
  ∃ h, pkg.importModule category = .ok (some h) ∧ ¬ Broken pkg category ∧ takes h

/-- Enabled for collecting, with a free lock, and collecting raises nothing. -/
def Collects (on : Bool) (h : Helper α) : Prop :=
  on = true ∧ h.enabled = true ∧ h.collectEnabled = true ∧ h.lock = .ok () ∧ ∃ logs, h.collect = .ok logs

/-- Enabled for submission, with a free lock and pending logs that can be listed. -/
def Submits (on online : Bool) (h : Helper α) : Prop :=
  on = true ∧ online = true ∧ h.enabled = true ∧ h.submitEnabled = true ∧ h.lock = .ok () ∧
    ∃ logs, h.listing = some logs

/-- The logs of a helper that collects are among those returned. -/
def Included (h : Helper α) (returned : List String) : Prop :=
  ∀ logs, h.collect = .ok logs → ∀ log ∈ logs, logPath h.name log ∈ returned

/-- The results of a helper's pending logs are among those returned. -/
def Recorded (h : Helper α) (returned : Dict String (Except Exn HelperResult)) : Prop :=
  ∀ logs, h.listing = some logs → ∀ log result, (processLogs h logs).submitted.get? log = some result →
    returned.get? (logPath h.name log) = some result

/-- Every helper that is not at fault collects, and its logs are returned. -/
def CollectIsolates (on : Bool) (wait : Wait α) (pkg : Package α) : Prop :=
  ∀ category ∈ pkg.names, ∀ h, createHelper pkg category = .ok (some h) → Collects on h →
    h ∈ (collect on wait pkg).ran ∧ ∃ returned, (collect on wait pkg).returned = .ok returned ∧ Included h returned

/-- The pending logs of every helper that is not at fault are processed, and the results are returned. -/
def SubmitIsolates (on online : Bool) (wait : Wait α) (pkg : Package α) : Prop :=
  ∀ category ∈ pkg.names, ∀ h, createHelper pkg category = .ok (some h) → Submits on online h →
    h ∈ (submit on online wait pkg).ran ∧ ∃ returned, (submit on online wait pkg).returned = .ok returned ∧
      Recorded h returned

/-! ## Which helpers are created -/

theorem loadData_error {file : Except Exn (Dict String Json)} : (∃ e, loadData file = .error e) ↔ BadData file := by
  unfold loadData BadData
  split <;> simp_all

theorem setup_error {h : Helper α} (hs : h.isSetup = false) :
    (∃ e, h.setup = .error e) ↔ h.data = none ∧ BadData h.file ∨ ∃ e, h.setupMore = .error e := by
  rw [← loadData_error, Helper.setup, Helper.baseSetup, if_neg (by rw [hs]; exact Bool.false_ne_true), Helper.getData]
  cases h.data with
  | some data => simp [Except.map, Except.bind]
  | none => cases loadData h.file <;> simp [Except.map, Except.bind]

/-- `create_helper` raises just when the helper is broken. -/
theorem createHelper_error {pkg : Package α} {category : String} :
    (∃ e, createHelper pkg category = .error e) ↔ Broken pkg category := by
  unfold createHelper Broken
  cases pkg.importModule category with
  | error e => cases e <;> simp
  | ok o =>
    cases o with
    | none => simp
    | some h =>
      cases hs : h.isSetup with
      | true =>
        simp only [BadSetup, hs, Bool.true_eq_false, false_and, false_or, if_true, Except.bind]
        split <;> simp_all
      | false =>
        have := setup_error hs
        simp only [BadSetup, hs, true_and]
        rw [← this]
        cases h.setup <;> cases h.isHelper <;> simp [Except.bind]

/-- What is created is the module's class, and is set up or not. -/
theorem createHelper_some {pkg : Package α} {category : String} {h : Helper α}
    (hc : createHelper pkg category = .ok (some h)) :
    ∃ h₀ b, pkg.importModule category = .ok (some h₀) ∧ h = { h₀ with isSetup := b } := by
  unfold createHelper at hc
  split at hc
  · cases hc
  · cases hc
  · cases hc
  · rename_i h₀ himport
    cases hs : (if h₀.isSetup then Except.ok true else h₀.setup) with
    | error e =>
      rw [hs] at hc
      cases hc
    | ok b =>
      rw [hs, Except.bind] at hc
      split at hc
      · exact ⟨h₀, b, himport, (Option.some.inj (Except.ok.inj hc)).symm⟩
      · cases hc

theorem createHelper_name {pkg : Package α} {category : String} {h : Helper α}
    (hc : createHelper pkg category = .ok (some h)) : h.name = category := by
  obtain ⟨h₀, b, himport, rfl⟩ := createHelper_some hc
  exact pkg.named category h₀ himport

/-- A helper takes part in a phase just when it is created and does not depend on having been set up before. -/
theorem takes_iff {takes : Helper α → Prop} (ht : ∀ h b, takes { h with isSetup := b } ↔ takes h)
    {pkg : Package α} {category : String} :
    Takes takes pkg category ↔ ∃ h, createHelper pkg category = .ok (some h) ∧ takes h := by
  constructor
  · rintro ⟨h₀, himport, hbroken, htakes⟩
    cases hc : createHelper pkg category with
    | error e => exact absurd (createHelper_error.1 ⟨e, hc⟩) hbroken
    | ok o =>
      cases o with
      | some h =>
        obtain ⟨h₁, b, himport', rfl⟩ := createHelper_some hc
        obtain rfl : h₀ = h₁ := Option.some.inj (Except.ok.inj (himport.symm.trans himport'))
        exact ⟨_, rfl, (ht h₀ b).2 htakes⟩
      | none =>
        simp only [createHelper, himport] at hc
        cases hs : (if h₀.isSetup then Except.ok true else h₀.setup) <;> rw [hs, Except.bind] at hc
        · cases hc
        · split at hc <;> cases hc
  · rintro ⟨h, hc, htakes⟩
    obtain ⟨h₀, b, himport, rfl⟩ := createHelper_some hc
    refine ⟨h₀, himport, fun hbroken => ?_, (ht h₀ b).1 htakes⟩
    obtain ⟨e, he⟩ := createHelper_error.2 hbroken
    rw [hc] at he
    cases he

/-! ## The loop over the categories -/

theorem createTasks_none {wanted : Helper α → Bool} {pkg : Package α} {l : List String} :
    (createTasks wanted pkg l).2 = none ↔ ∀ category ∈ l, ¬ Broken pkg category := by
  induction l with
  | nil => simp [createTasks]
  | cons category l ih =>
    rw [createTasks, List.forall_mem_cons, ← ih, ← createHelper_error]
    cases hc : createHelper pkg category with
    | error e => simp
    | ok o =>
      cases o with
      | none => simp
      | some h => by_cases hw : wanted h = true <;> simp [hw]

/-- The tasks are those of the wanted helpers, if nothing ends the loop. -/
theorem mem_createTasks {wanted : Helper α → Bool} {pkg : Package α} {l : List String}
    (hn : (createTasks wanted pkg l).2 = none) {h : Helper α} :
    h ∈ (createTasks wanted pkg l).1 ↔
      ∃ category ∈ l, createHelper pkg category = .ok (some h) ∧ wanted h = true := by
  induction l with
  | nil => simp [createTasks]
  | cons category l ih =>
    rw [createTasks] at hn ⊢
    cases hc : createHelper pkg category with
    | error e =>
      rw [hc] at hn
      cases hn
    | ok o =>
      cases o with
      | none =>
        rw [hc] at hn
        simp [hc, ih hn]
      | some h' =>
        by_cases hw : wanted h' = true
        · simp only [hc, hw, if_true] at hn ⊢
          rw [List.mem_cons, ih hn, List.exists_mem_cons_iff, hc]
          refine or_congr_left ⟨?_, fun he => (Option.some.inj (Except.ok.inj he.1)).symm⟩
          rintro rfl
          exact ⟨rfl, hw⟩
        · simp only [hc, hw] at hn ⊢
          rw [if_neg Bool.false_ne_true] at hn ⊢
          rw [ih hn, List.exists_mem_cons_iff, hc]
          -- A helper that is not wanted has no task.
          refine (or_iff_right fun he => ?_).symm
          rw [Option.some.inj (Except.ok.inj he.1)] at hw
          exact hw he.2

/-- Each category has one task at most. -/
theorem createTasks_names (wanted : Helper α → Bool) (pkg : Package α) (l : List String) :
    ((createTasks wanted pkg l).1.map Helper.name).Sublist l := by
  induction l with
  | nil => exact List.Sublist.refl _
  | cons category l ih =>
    rw [createTasks]
    cases hc : createHelper pkg category with
    | error e => exact List.nil_sublist _
    | ok o =>
      cases o with
      | none => exact ih.cons _
      | some h =>
        by_cases hw : wanted h = true
        · simp only [hw, if_true, List.map_cons, createHelper_name hc]
          exact ih.cons_cons _
        · simp only [hw]
          exact ih.cons _

/-! ## What a phase keeps of its helpers -/

/-- A phase has every helper that takes part and its results just when it meets no broken helper
or no helper takes part. -/
theorem phase_isolates {wanted : Helper α → Bool} {gather : List (Helper α) → β} {pkg : Package α}
    {takes : Helper α → Prop} {includes : Helper α → β → Prop} (ht : ∀ h b, takes { h with isSetup := b } ↔ takes h)
    (hw : ∀ h, takes h → wanted h = true ∧ h.lock = .ok ())
    (hg : ∀ tasks, (tasks.map Helper.name).Nodup → (∀ h ∈ tasks, h.name ∈ pkg.names) →
      ∀ h ∈ tasks, takes h → includes h (gather tasks)) :
    (∀ category ∈ pkg.names, ∀ h, createHelper pkg category = .ok (some h) → takes h →
      h ∈ (phase wanted gather pkg).ran ∧ ∃ returned, (phase wanted gather pkg).returned = .ok returned ∧
        includes h returned) ↔
    (∀ category ∈ pkg.names, ¬ Broken pkg category) ∨ ∀ category ∈ pkg.names, ¬ Takes takes pkg category := by
  rw [← @createTasks_none α wanted]
  constructor
  · intro hall
    by_contra hno
    rw [not_or] at hno
    obtain ⟨hbroken, hnone⟩ := hno
    push Not at hnone
    -- A helper that raises ends the loop, and nothing is returned for the one that takes part.
    obtain ⟨category, hc, htakes⟩ := hnone
    obtain ⟨h, hcreate, htakes⟩ := (takes_iff ht).1 htakes
    obtain ⟨-, returned, hr, -⟩ := hall category hc h hcreate htakes
    cases hend : (createTasks wanted pkg pkg.names).2 with
    | none => exact hbroken hend
    | some e =>
      simp only [phase, hend] at hr
      cases hr
  · rintro (hend | hnone) category hc h hcreate htakes
    · obtain ⟨hwanted, hlock⟩ := hw h htakes
      have hmem := (mem_createTasks hend).2 ⟨category, hc, hcreate, hwanted⟩
      have hsub := createTasks_names wanted pkg pkg.names
      refine ⟨List.mem_filter.2 ⟨hmem, by rw [hlock]; rfl⟩, _, by simp only [phase, hend],
        hg _ (hsub.nodup pkg.nodup) (fun h' hh' => hsub.subset (List.mem_map_of_mem hh')) h hmem htakes⟩
    · exact absurd ((takes_iff ht).2 ⟨h, hcreate, htakes⟩) (hnone category hc)

theorem mem_collected (wait : Wait α) {tasks : List (Helper α)} {h : Helper α} (hm : h ∈ tasks)
    (hlock : h.lock = .ok ()) {logs : List String} (hl : h.collect = .ok logs) {log : String} (hlog : log ∈ logs) :
    logPath h.name log ∈ (wait.done tasks).flatMap fun h => (collectCategory h).map (logPath h.name) := by
  refine List.mem_flatMap.2 ⟨h, (wait.perm tasks).mem_iff.2 hm, List.mem_map_of_mem ?_⟩
  simp only [collectCategory, hlock, hl, hlog]

theorem logPath_injective (name : String) : Function.Injective (logPath name) := by
  intro a b h
  have := String.ofList_injective h
  rw [List.append_cancel_left_eq, List.cons.injEq] at this
  exact String.toList_injective this.2

/-- Helpers' names have no slash, so a path tells the helper. -/
theorem logPath_name {name name' log log' : String} (hn : '/' ∉ name.toList) (hn' : '/' ∉ name'.toList)
    (h : logPath name log = logPath name' log') : name = name' := by
  have := congrArg (List.takeWhile (· ≠ '/')) (String.ofList_injective h)
  rw [Words.takeWhile_ne_append hn, Words.takeWhile_ne_append hn'] at this
  exact String.toList_injective this

/-- The results of one task are found, whatever other helpers' tasks come before and after. -/
theorem get?_foldl_update {tasks : List (Helper α)} (hn : (tasks.map Helper.name).Nodup)
    (hs : ∀ h ∈ tasks, '/' ∉ h.name.toList) {h : Helper α} (hm : h ∈ tasks) {log : String}
    {result : Except Exn HelperResult} (hr : (submittedOf h).get? log = some result)
    (d : Dict String (Except Exn HelperResult)) :
    (tasks.foldl update d).get? (logPath h.name log) = some result := by
  induction tasks using List.reverseRecOn with
  | nil => cases hm
  | append_singleton tasks last ih =>
    rw [List.foldl_append, List.foldl_cons, List.foldl_nil, update]
    by_cases hlast : h.name = last.name
    · obtain rfl : h = last := List.inj_on_of_nodup_map hn hm (by simp) hlast
      exact Dict.get?_foldl_insert (logPath_injective _) (submittedOf h).nodup (Dict.get?_eq_some.1 hr) _
    · rw [Dict.get?_foldl_insert_of_ne fun p _ he => hlast (logPath_name (hs h hm) (hs last (by simp)) he)]
      rcases List.mem_append.1 hm with hm | hm
      · rw [List.map_append] at hn
        exact ih hn.of_append_left (fun h' hh' => hs h' (List.mem_append_left _ hh')) hm
      · exact absurd (congrArg Helper.name (List.mem_singleton.1 hm)) hlast

/-- The other helpers collect and submit, and their results are returned, just when no helper is broken
or no other takes part. -/
theorem isolates_iff (on online : Bool) (wait : Wait α) (pkg : Package α) :
    (CollectIsolates on wait pkg ↔
      (∀ category ∈ pkg.names, ¬ Broken pkg category) ∨ ∀ category ∈ pkg.names, ¬ Takes (Collects on) pkg category) ∧
    (SubmitIsolates on online wait pkg ↔
      (∀ category ∈ pkg.names, ¬ Broken pkg category) ∨
        ∀ category ∈ pkg.names, ¬ Takes (Submits on online) pkg category) := by
  constructor
  · cases on with
    | false =>
      -- `on` is false: no helper takes part.
      refine iff_of_true (fun _ _ _ _ h => ?_) (.inr fun _ _ ht => ?_)
      · cases h.1
      · obtain ⟨_, -, -, h⟩ := ht
        cases h.1
    | true =>
      simp only [CollectIsolates, collect, if_true]
      refine @phase_isolates α _ _ _ pkg (Collects true) Included (fun _ _ => Iff.rfl) (fun h ht => ?_)
        fun tasks _ _ h hm ht => ?_
      · obtain ⟨-, he, hc, hlock, -⟩ := ht
        exact ⟨by rw [he, hc]; rfl, hlock⟩
      · intro logs hl log hlog
        exact mem_collected wait hm ht.2.2.2.1 hl hlog
  · cases hon : on && online with
    | false =>
      -- Off or offline: no helper takes part.
      have hoff : ∀ h : Helper α, ¬ Submits on online h := by
        rintro h ⟨rfl, rfl, -⟩
        cases hon
      refine iff_of_true (fun _ _ _ _ h => absurd h (hoff _)) (.inr fun _ _ ht => ?_)
      obtain ⟨h, -, -, ht⟩ := ht
      exact hoff h ht
    | true =>
      simp only [SubmitIsolates, submit, hon, if_true]
      refine @phase_isolates α _ _ _ pkg (Submits on online) Recorded (fun _ _ => Iff.rfl) (fun h ht => ?_)
        fun tasks hn hnames h hm ht => ?_
      · obtain ⟨-, -, he, hs, hlock, logs, hl⟩ := ht
        exact ⟨by rw [he, hs, hl]; rfl, hlock⟩
      · intro logs hl log result hr
        obtain ⟨-, -, -, -, hlock, -⟩ := ht
        refine get?_foldl_update (((wait.perm tasks).map Helper.name).nodup_iff.2 hn) (fun h' hh' => ?_)
          ((wait.perm tasks).mem_iff.2 hm) (by simp only [submittedOf, hlock, hl, Option.getD_some, hr]) _
        exact pkg.noSlash _ (hnames h' ((wait.perm tasks).mem_iff.1 hh'))

/-- A helper that is enabled for all and has one log. -/
def oneLog (name : String) (file : Except Exn (Dict String Json)) : Helper String where
  name := name
  isSetup := false
  data := none
  file := file
  setupMore := .ok true
  isHelper := true
  enabled := true
  collectEnabled := true
  submitEnabled := true
  lock := .ok ()
  collect := .ok ["a"]
  listing := some ["a"]
  env := { submit := fun _ => .ok .ok, replace := fun _ _ => .ok (), fileNotFoundError := .fileNotFoundError }
  dirs := fun dir log => if dir = .pending ∧ log = "a" then some "" else none

/-- The data file of the first helper is not JSON. -/
def corruptData : Package String where
  names := ["kdump", "minidump"]
  importModule name :=
    .ok (some (oneLog name (if name = "kdump" then .error (.other "JSONDecodeError") else .ok .empty)))
  nodup := by decide
  noSlash := by decide
  named := by
    rintro name h himport
    obtain rfl := Option.some.inj (Except.ok.inj himport)
    rfl

theorem corrupt_data_stops_both : ∃ (pkg : Package String) (wait : Wait String),
    ¬ CollectIsolates true wait pkg ∧ ¬ SubmitIsolates true true wait pkg := by
  have hcreate : createHelper corruptData "minidump" =
    .ok (some { oneLog "minidump" (.ok .empty) with isSetup := true }) := rfl
  refine ⟨corruptData, ⟨id, fun _ => .refl _⟩, fun hall => ?_, fun hall => ?_⟩
  · obtain ⟨-, returned, hr, -⟩ := hall "minidump" (by decide) _ hcreate ⟨rfl, rfl, rfl, rfl, ["a"], rfl⟩
    cases hr
  · obtain ⟨-, returned, hr, -⟩ := hall "minidump" (by decide) _ hcreate ⟨rfl, rfl, rfl, rfl, rfl, ["a"], rfl⟩
    cases hr

end LogSubmitter.Runner

import LogSubmitter.Runner.Awaits
import LogSubmitter.Lib.Runs
import Mathlib.Logic.Function.Basic
/-!
# System reports

`send_report` copies a report to `pending`, submits it with `submit_category`
and moves it to `failed` unless the result is `OK`. It holds no lock when it
copies, and where another submission has the lock there is no result.
-/
namespace LogSubmitter.Sysreport

open Lib Runner

variable {α ε : Type}

def alphabet : List Char := "34679ABEHJKLMNPSTUWXYZ".toList

/-- The letters that `random.choices` gives for an id. -/
structure Id where
  letters : List Char
  length : letters.length = 8
  mem : ∀ c ∈ letters, c ∈ alphabet
  deriving DecidableEq

/-- `make_id`. -/
def Id.text (id : Id) : String := String.ofList (id.letters.take 4 ++ '-' :: id.letters.drop 4)

/-- `f'{id}.zip'`. -/
def zipName (id : Id) : String := id.text ++ ".zip"

/-- How `send_report` ends. -/
inductive Answer (ε : Type) where
  | id (id : Id)
  | result (result : HelperResult)
  | raised (e : ε)

/-- A task: in `send_report` or in `runner.submit_category`, waiting for the answer to an upload, or over. -/
inductive Task (α ε : Type) where
  | idle
  | report (id : Id) (content : α) (sub : Submission α ε)
  | category (sub : Submission α ε)
  | sent (id : Id) (content : α) (answer : Answer ε)
  | ended

/-- The helper's directories, the task that has locked them, the ids that were made, and the
submissions that came to an end, with what `helper.submit` returned or raised. -/
structure World (α ε : Type) where
  dirs : Dirs α
  lock : Option Nat
  tasks : Nat → Task α ε
  ids : List Id
  attempts : List (String × Except ε HelperResult)

/-- A call of `send_report` for a file with `content`, a call of `submit_category`, and the answer to an
upload. `cleanup` says whether `send_report` could move the file to `failed`. -/
inductive Event (α ε : Type) where
  | sendReport (task : Nat) (id : Id) (content : α) (io : Io ε) (cleanup : Bool)
  | submitCategory (task : Nat) (logs : List String) (io : Io ε)
  | respond (task : Nat) (io : Io ε) (cleanup : Bool)

/-- `shutil.copyfile` to `pending`. -/
def copy (dirs : Dirs α) (name : String) (content : α) : Dirs α := fun dir n =>
  if dir = .pending ∧ n = name then some content else dirs dir n

/-- `os.replace(new_path, f'{sls.failed}/...')`, errors of which are logged. -/
def cleanUp (cleanup : Bool) (name : String) (dirs : Dirs α) : Dirs α :=
  match dirs .pending name with
  | none => dirs
  | some content => if cleanup then move dirs .failed name content else dirs

/-- What `send_report` does with the result of its submission. -/
def afterSubmission (cleanup : Bool) (id : Id) (submitted : Dict String (Except ε HelperResult)) (dirs : Dirs α) :
    Dirs α × Answer ε :=
  match submitted.get? (zipName id) with
  | some (.ok .ok) => (dirs, .id id)
  | some (.ok result) => (cleanUp cleanup (zipName id) dirs, .result result)
  | some (.error e) => (cleanUp cleanup (zipName id) dirs, .raised e)
  | none => (cleanUp cleanup (zipName id) dirs, .result .permanentError)

/-- The submission of a report is at its next await, or at its end. -/
def World.goOnReport (w : World α ε) (task : Nat) (id : Id) (content : α) (cleanup : Bool) :
    Next α ε → World α ε
  | .awaits sub => { w with lock := some task, tasks := Function.update w.tasks task (.report id content sub) }
  | .returns submitted =>
    let r := afterSubmission cleanup id submitted w.dirs
    { w with dirs := r.1, lock := none, tasks := Function.update w.tasks task (.sent id content r.2) }

def World.goOnCategory (w : World α ε) (task : Nat) : Next α ε → World α ε
  | .awaits sub => { w with lock := some task, tasks := Function.update w.tasks task (.category sub) }
  | .returns _ => { w with lock := none, tasks := Function.update w.tasks task .ended }

/-- The attempts on logs that could not be read. -/
def unreadAttempts (logs : List String) : List (String × Except ε HelperResult) :=
  logs.map fun log => (log, .ok .transientError)

/-- One task runs to its next await. -/
def next : Event α ε → World α ε → Option (World α ε)
  | .sendReport task id content io cleanup, w =>
    match w.tasks task with
    | .idle =>
      if id ∈ w.ids then none
      else
        let copied := { w with dirs := copy w.dirs (zipName id) content, ids := w.ids ++ [id] }
        match w.lock with
        | some _ =>
          let r := afterSubmission cleanup id .empty copied.dirs
          some { copied with dirs := r.1, tasks := Function.update w.tasks task (.sent id content r.2) }
        | none =>
          let r := goOn { io with yields := fun _ => true } copied.dirs [zipName id] .empty
          some (World.goOnReport { copied with attempts := w.attempts ++ unreadAttempts r.1 } task id content
            cleanup r.2)
    | _ => none
  | .submitCategory task logs io, w =>
    match w.tasks task with
    | .idle =>
      match w.lock with
      | some _ => some { w with tasks := Function.update w.tasks task .ended }
      | none =>
        let r := goOn io w.dirs logs .empty
        some (World.goOnCategory { w with attempts := w.attempts ++ unreadAttempts r.1 } task r.2)
    | _ => none
  | .respond task io cleanup, w =>
    match w.tasks task with
    | .report id content sub =>
      let r := Runner.respond io sub w.dirs
      some (World.goOnReport
        { w with dirs := r.1, attempts := w.attempts ++ (sub.log, io.submit sub.log) :: unreadAttempts r.2.1 }
        task id content cleanup r.2.2)
    | .category sub =>
      let r := Runner.respond io sub w.dirs
      some (World.goOnCategory
        { w with dirs := r.1, attempts := w.attempts ++ (sub.log, io.submit sub.log) :: unreadAttempts r.2.1 }
        task r.2.2)
    | _ => none

/-- No task, and nobody has the lock. -/
structure Fresh (w : World α ε) : Prop where
  tasks : ∀ t, w.tasks t = .idle
  lock : w.lock = none

/-- No submission has the lock when a report is sent, and a report that is accepted can be moved. -/
def Clear (w : World α ε) : Event α ε → Prop
  | .sendReport _ _ _ _ _ => w.lock = none
  | .submitCategory _ _ _ => True
  | .respond task io _ => ∀ id content sub, w.tasks task = .report id content sub → io.submit sub.log = .ok .ok →
    (io.replace .uploaded sub.log).isOk = true

/-- The copy can be read, and the server accepts it. -/
def Accepts : Event α ε → Prop
  | .sendReport _ id _ io _ => io.reads (zipName id) = true
  | .submitCategory _ _ _ => True
  | .respond _ io _ => ∀ log, io.submit log = .ok .ok

/-! ## Names -/

theorem text_inj {id id' : Id} (h : id.text = id'.text) : id = id' := by
  have happ := String.ofList_injective h
  have hlen : (id.letters.take 4).length = (id'.letters.take 4).length := by
    rw [List.length_take, List.length_take, id.length, id'.length]
  obtain ⟨htake, hdrop⟩ := List.append_inj happ hlen
  have hletters : id.letters = id'.letters := by
    rw [← List.take_append_drop 4 id.letters, htake, (List.cons.inj hdrop).2, List.take_append_drop]
  cases id
  cases id'
  cases hletters
  rfl

theorem zipName_inj {id id' : Id} (h : zipName id = zipName id') : id = id' := by
  refine text_inj ?_
  have htoList := congrArg String.toList h
  simp only [zipName, String.toList_append] at htoList
  exact String.toList_injective (List.append_cancel_right htoList)

/-- An id begins with a letter of the alphabet. -/
theorem zipName_shown (id : Id) : Runner.hidden (zipName id) = false := by
  obtain ⟨letters, hlen, hmem⟩ := id
  cases letters with
  | nil => cases hlen
  | cons c letters =>
    have hc : c ≠ '.' := by
      rintro rfl
      exact absurd (hmem _ List.mem_cons_self) (by decide)
    have hlist : (zipName ⟨c :: letters, hlen, hmem⟩).toList =
        c :: (letters.take 3 ++ '-' :: letters.drop 3 ++ ".zip".toList) := by
      rw [zipName, Id.text, String.toList_append, String.toList_ofList]
      rfl
    rw [Runner.hidden, hlist]
    simp [List.isPrefixOf, Ne.symm hc]

/-! ## What a step does -/

section
variable {w w' : World α ε} {io : Io ε} {dirs : Dirs α} {id : Id} {content : α} {cleanup : Bool}

/-- A report waits for its upload as soon as it is copied. -/
def submissionOf (id : Id) (content : α) : Submission α ε := ⟨zipName id, content, [], .empty⟩

theorem goOn_report (h : dirs .pending (zipName id) = some content) :
    goOn { io with yields := fun _ => true } dirs [zipName id] .empty =
      if io.reads (zipName id) then ([], .awaits (submissionOf id content))
      else ([zipName id], .returns (Dict.insert .empty (zipName id) (.ok .transientError))) := by
  rw [goOn, if_neg (by simp [zipName_shown]), readLog, h]
  cases io.reads (zipName id) <;> rfl

theorem respond_report (h : dirs .pending (zipName id) = some content) :
    Runner.respond io (submissionOf id content) dirs =
      (if place io.toEnv (zipName id) = .pending then dirs
        else move dirs (place io.toEnv (zipName id)) (zipName id) content, [],
        .returns (Dict.insert .empty (zipName id) (recorded io.toEnv (zipName id)))) := by
  refine Prod.ext (respond_dirs h) ((respond_next h).trans ?_)
  split <;> rfl

end

/-- What a step does, when a report that is sent finds the lock free. -/
inductive Effect (w : World α ε) : Event α ε → World α ε → Prop
  | waits {task id content io cleanup} (hnew : id ∉ w.ids) (hlock : w.lock = none) :
    Effect w (.sendReport task id content io cleanup)
      { w with
        dirs := copy w.dirs (zipName id) content
        lock := some task
        tasks := Function.update w.tasks task (.report id content (submissionOf id content))
        ids := w.ids ++ [id] }
  | unread {task id content io cleanup} (hnew : id ∉ w.ids) (hlock : w.lock = none)
      (hread : io.reads (zipName id) = false) :
    Effect w (.sendReport task id content io cleanup)
      { dirs := cleanUp cleanup (zipName id) (copy w.dirs (zipName id) content)
        lock := none
        tasks := Function.update w.tasks task (.sent id content (.result .transientError))
        ids := w.ids ++ [id]
        attempts := w.attempts ++ [(zipName id, .ok .transientError)] }
  | answered {task id content sub io cleanup} (ht : w.tasks task = .report id content sub) :
    Effect w (.respond task io cleanup)
      (World.goOnReport
        { w with
          dirs := (Runner.respond io sub w.dirs).1
          attempts := w.attempts ++ (sub.log, io.submit sub.log) :: unreadAttempts (Runner.respond io sub w.dirs).2.1 }
        task id content cleanup (Runner.respond io sub w.dirs).2.2)
  | refused {task logs io} : Effect w (.submitCategory task logs io)
      { w with tasks := Function.update w.tasks task .ended }
  | started {task logs io} (hlock : w.lock = none) : Effect w (.submitCategory task logs io)
      (World.goOnCategory
        { w with attempts := w.attempts ++ unreadAttempts (goOn io w.dirs logs .empty).1 } task
        (goOn io w.dirs logs .empty).2)
  | goesOn {task sub io cleanup} (ht : w.tasks task = .category sub) :
    Effect w (.respond task io cleanup)
      (World.goOnCategory
        { w with
          dirs := (Runner.respond io sub w.dirs).1
          attempts := w.attempts ++ (sub.log, io.submit sub.log) :: unreadAttempts (Runner.respond io sub w.dirs).2.1 }
        task (Runner.respond io sub w.dirs).2.2)

theorem copy_pending (dirs : Dirs α) (name : String) (content : α) :
    copy dirs name content .pending name = some content := if_pos ⟨rfl, rfl⟩

theorem effect_of_next {w w' : World α ε} {e : Event α ε} (hc : Clear w e) (h : next e w = some w') :
    Effect w e w' := by
  cases e with
  | sendReport task id content io cleanup =>
    have hlock : w.lock = none := hc
    simp only [next] at h
    split at h
    · split at h
      · cases h
      · rename_i hnew
        rw [hlock] at h
        simp only [goOn_report (copy_pending w.dirs (zipName id) content), Option.some.injEq] at h
        subst h
        cases hread : io.reads (zipName id) with
        | true =>
          have hw := @Effect.waits α ε w task id content io cleanup hnew hlock
          simpa [World.goOnReport, unreadAttempts] using hw
        | false =>
          have hw := @Effect.unread α ε w task id content io cleanup hnew hlock hread
          simpa [World.goOnReport, unreadAttempts, afterSubmission] using hw
    · cases h
  | submitCategory task logs io =>
    simp only [next] at h
    split at h
    · split at h
      · cases h
        exact .refused
      · rename_i hlock
        cases h
        exact .started hlock
    · cases h
  | respond task io cleanup =>
    simp only [next] at h
    split at h
    · rename_i id content sub ht
      cases h
      exact .answered ht
    · rename_i sub ht
      cases h
      exact .goesOn ht
    · cases h

/-! ## In every run -/

/-- The task waits for the answer to an upload. -/
def Task.InFlight : Task α ε → Prop
  | .report _ _ _ => True
  | .category _ => True
  | _ => False

/-- Of the files in `failed`, each that was not there at the start had an attempt that was not `OK`. -/
def FailedAttempted (w₀ w : World α ε) : Prop :=
  ∀ log, w.dirs .failed log ≠ w₀.dirs .failed log → ∃ r, (log, r) ∈ w.attempts ∧ r ≠ .ok .ok

/-- Who waits has the lock, and what it has read is still in `pending`. -/
structure Inv (w₀ w : World α ε) : Prop where
  flight : ∀ t, (w.tasks t).InFlight → w.lock = some t
  category : ∀ t sub, w.tasks t = .category sub → w.dirs .pending sub.log = some sub.attachment
  report : ∀ t id content sub, w.tasks t = .report id content sub →
    sub = submissionOf id content ∧ w.dirs .pending (zipName id) = some content
  failed : FailedAttempted w₀ w

section
variable {w₀ w w' : World α ε} {io : Io ε} {dirs : Dirs α} {id : Id} {content : α} {cleanup : Bool} {log : String}

theorem Fresh.inv (h : Fresh w) : Inv w w := by
  refine ⟨fun t ht => ?_, fun t sub ht => ?_, fun t id content sub ht => ?_, fun log hne => absurd rfl hne⟩ <;>
    rw [h.tasks] at ht <;> cases ht

theorem Inv.alone (hi : Inv w₀ w) {task : Nat} (h : w.lock = none ∨ w.lock = some task) :
    ∀ t, t ≠ task → ¬ (w.tasks t).InFlight := by
  intro t hne hf
  have hlock := hi.flight t hf
  rcases h with h | h <;> rw [h] at hlock <;> cases hlock
  exact hne rfl

/-- Only the task that takes the step waits after it. -/
theorem inv_of_only {tasks : Nat → Task α ε} {task : Nat} {x : Task α ε} {lock : Option Nat} {ids : List Id}
    {attempts : List (String × Except ε HelperResult)} (hother : ∀ t, t ≠ task → ¬ (tasks t).InFlight)
    (hlock : x.InFlight → lock = some task)
    (hcategory : ∀ sub, x = .category sub → dirs .pending sub.log = some sub.attachment)
    (hreport : ∀ id content sub, x = .report id content sub →
      sub = submissionOf id content ∧ dirs .pending (zipName id) = some content)
    (hfailed : FailedAttempted w₀ ⟨dirs, lock, Function.update tasks task x, ids, attempts⟩) :
    Inv w₀ ⟨dirs, lock, Function.update tasks task x, ids, attempts⟩ := by
  have self : ∀ t, (Function.update tasks task x t).InFlight → t = task := by
    intro t hf
    by_contra hne
    rw [Function.update_of_ne hne] at hf
    exact hother t hne hf
  refine ⟨fun t hf => ?_, fun t sub ht => ?_, fun t id content sub ht => ?_, hfailed⟩
  · obtain rfl := self t hf
    simp only [Function.update_self] at hf
    exact hlock hf
  · have ht : Function.update tasks task x t = .category sub := ht
    obtain rfl := self t (by rw [ht]; trivial)
    rw [Function.update_self] at ht
    exact hcategory sub ht
  · have ht : Function.update tasks task x t = .report id content sub := ht
    obtain rfl := self t (by rw [ht]; trivial)
    rw [Function.update_self] at ht
    exact hreport id content sub ht

/-- What comes to `failed` in a step has an attempt that was not `OK`. -/
theorem FailedAttempted.step (h : FailedAttempted w₀ w) (hs : ∀ a ∈ w.attempts, a ∈ w'.attempts)
    (hnew : ∀ log, w'.dirs .failed log ≠ w.dirs .failed log → ∃ r, (log, r) ∈ w'.attempts ∧ r ≠ .ok .ok) :
    FailedAttempted w₀ w' := by
  intro log hne
  by_cases hsame : w'.dirs .failed log = w.dirs .failed log
  · rw [hsame] at hne
    obtain ⟨r, hr, hne⟩ := h log hne
    exact ⟨r, hs _ hr, hne⟩
  · exact hnew log hsame

theorem move_failed {name : String} {dst : Dir} (h : move dirs dst name content .failed log ≠ dirs .failed log) :
    log = name ∧ dst = .failed := by
  by_contra hne
  refine h ?_
  unfold move
  split
  · rename_i hn
    rw [if_neg fun hd => hne ⟨hn, hd.symm⟩, if_neg (by decide)]
  · rfl

theorem cleanUp_failed {name : String} (h : cleanUp cleanup name dirs .failed log ≠ dirs .failed log) : log = name := by
  unfold cleanUp at h
  cases hp : dirs .pending name with
  | none =>
    rw [hp] at h
    exact absurd rfl h
  | some content =>
    rw [hp] at h
    cases cleanup with
    | true => exact (move_failed h).1
    | false => exact absurd rfl h

/-- An answer moves a log to `failed` only if it is not `OK`. -/
theorem respond_failed {sub : Submission α ε} (hp : dirs .pending sub.log = some content)
    (h : (Runner.respond io sub dirs).1 .failed log ≠ dirs .failed log) :
    log = sub.log ∧ io.submit sub.log ≠ .ok .ok := by
  rw [respond_dirs hp] at h
  split at h
  · exact absurd rfl h
  · obtain ⟨rfl, hplace⟩ := move_failed h
    refine ⟨rfl, fun hok => ?_⟩
    rw [(place_failed.1 hplace).1] at hok
    cases hok

/-- The result is `OK` when the server's answer is and the log could be moved. -/
theorem recorded_ok (hok : io.submit log = .ok .ok) (hr : (io.replace .uploaded log).isOk = true) :
    recorded io.toEnv log = .ok .ok := by
  unfold recorded
  rw [hok]
  cases hm : io.replace .uploaded log with
  | error e =>
    rw [hm] at hr
    cases hr
  | ok => rfl

/-- `send_report` moves its report only if the result is not `OK`. -/
theorem afterSubmission_failed {submitted : Dict String (Except ε HelperResult)}
    (h : (afterSubmission cleanup id submitted dirs).1 .failed log ≠ dirs .failed log) :
    log = zipName id ∧ submitted.get? (zipName id) ≠ some (.ok .ok) := by
  unfold afterSubmission at h
  cases hget : submitted.get? (zipName id) with
  | none =>
    rw [hget] at h
    exact ⟨cleanUp_failed h, (Option.some_ne_none _).symm⟩
  | some r =>
    rw [hget] at h
    cases r with
    | error e =>
      refine ⟨cleanUp_failed h, fun he => ?_⟩
      cases he
    | ok result =>
      cases result with
      | ok => exact absurd rfl h
      | transientError | permanentError | classError =>
        refine ⟨cleanUp_failed h, fun he => ?_⟩
        cases he

/-- The answer to a report leaves in `failed` only a report that was not accepted. -/
theorem answered_failed (hp : dirs .pending (zipName id) = some content)
    (hr : io.submit (zipName id) = .ok .ok → (io.replace .uploaded (zipName id)).isOk = true)
    (h : (afterSubmission cleanup id (Dict.insert .empty (zipName id) (recorded io.toEnv (zipName id)))
      (if place io.toEnv (zipName id) = .pending then dirs
        else move dirs (place io.toEnv (zipName id)) (zipName id) content)).1 .failed log ≠ dirs .failed log) :
    log = zipName id ∧ io.submit (zipName id) ≠ .ok .ok := by
  generalize hmoved : (if place io.toEnv (zipName id) = .pending then dirs
    else move dirs (place io.toEnv (zipName id)) (zipName id) content) = moved at h
  have hresponded : (Runner.respond io (submissionOf id content) dirs).1 = moved :=
    (congrArg Prod.fst (respond_report hp)).trans hmoved
  by_cases hsame : moved .failed log = dirs .failed log
  · -- `send_report` has moved it, for an answer that is not `OK`.
    rw [← hsame] at h
    obtain ⟨rfl, hget⟩ := afterSubmission_failed h
    refine ⟨rfl, fun hok => hget ?_⟩
    rw [Dict.get?_insert_self, recorded_ok hok (hr hok)]
  · exact respond_failed hp (hresponded ▸ hsame)

/-- A task that ends without having waited changes nothing for the others. -/
theorem Inv.ended (hi : Inv w₀ w) (task : Nat) :
    Inv w₀ { w with tasks := Function.update w.tasks task .ended } := by
  have keep : ∀ t, (Function.update w.tasks task .ended t).InFlight →
      Function.update w.tasks task .ended t = w.tasks t := by
    intro t hf
    by_cases hne : t = task
    · subst hne
      rw [Function.update_self] at hf
      exact hf.elim
    · exact Function.update_of_ne hne ..
  refine ⟨fun t hf => ?_, fun t sub ht => ?_, fun t id content sub ht => ?_, hi.failed⟩
  · exact hi.flight t (keep t hf ▸ hf)
  · have ht : Function.update w.tasks task .ended t = .category sub := ht
    exact hi.category t sub ((keep t (by rw [ht]; trivial)).symm.trans ht)
  · have ht : Function.update w.tasks task .ended t = .report id content sub := ht
    exact hi.report t id content sub ((keep t (by rw [ht]; trivial)).symm.trans ht)

theorem inv_goOnCategory {task : Nat} {n : Next α ε} (hother : ∀ t, t ≠ task → ¬ (w.tasks t).InFlight)
    (hfailed : FailedAttempted w₀ w) (hn : ∀ sub, n = .awaits sub → w.dirs .pending sub.log = some sub.attachment) :
    Inv w₀ (w.goOnCategory task n) := by
  cases n with
  | returns submitted =>
    exact inv_of_only hother (fun h => h.elim) (fun _ h => by cases h) (fun _ _ _ h => by cases h) hfailed
  | awaits sub =>
    refine inv_of_only hother (fun _ => rfl) (fun sub' h => ?_) (fun _ _ _ h => by cases h) hfailed
    cases h
    exact hn _ rfl

end

/-- Every step keeps it. -/
theorem inv_next {w₀ w w' : World α ε} {e : Event α ε} (hi : Inv w₀ w) (hc : Clear w e) (h : next e w = some w') :
    Inv w₀ w' := by
  cases effect_of_next hc h with
  | @waits task id content io cleanup hnew hlock =>
    -- The report is copied to `pending`, and its upload is awaited.
    refine inv_of_only (hi.alone (.inl hlock)) (fun _ => rfl) (fun _ h => by cases h) (fun _ _ _ h => ?_)
      (hi.failed.step (fun _ h => h) fun log hne => absurd rfl hne)
    cases h
    exact ⟨rfl, copy_pending ..⟩
  | @unread task id content io cleanup hnew hlock hread =>
    refine inv_of_only (hi.alone (.inl hlock)) (fun h => h.elim) (fun _ h => by cases h) (fun _ _ _ h => by cases h)
      (hi.failed.step (fun _ => List.mem_append_left _) fun log hne => ?_)
    obtain rfl := cleanUp_failed hne
    exact ⟨_, List.mem_append_right _ List.mem_cons_self, fun h => by cases h⟩
  | @answered task id content sub io cleanup ht =>
    have hother := hi.alone (.inr (hi.flight task (by rw [ht]; trivial)))
    obtain ⟨rfl, hp⟩ := hi.report task id content sub ht
    rw [respond_report hp]
    refine inv_of_only hother (fun h => h.elim) (fun _ h => by cases h) (fun _ _ _ h => by cases h)
      (hi.failed.step (fun _ => List.mem_append_left _) fun log hne => ?_)
    obtain ⟨rfl, hnot⟩ := answered_failed hp (hc id content _ ht) hne
    exact ⟨_, List.mem_append_right _ List.mem_cons_self, hnot⟩
  | @refused task => exact hi.ended task
  | @started task logs io hlock =>
    refine inv_goOnCategory (hi.alone (.inl hlock)) ?_ fun sub h => goOn_awaits h
    exact hi.failed.step (fun _ => List.mem_append_left _) fun log hne => absurd rfl hne
  | @goesOn task sub io cleanup ht =>
    have hp := hi.category task sub ht
    refine inv_goOnCategory (hi.alone (.inr (hi.flight task (by rw [ht]; trivial)))) ?_ fun _ h => respond_awaits hp h
    refine hi.failed.step (fun _ => List.mem_append_left _) fun log hne => ?_
    obtain ⟨rfl, hnot⟩ := respond_failed hp hne
    exact ⟨_, List.mem_append_right _ List.mem_cons_self, hnot⟩

/-! ## While the server accepts -/

/-- Each report that was sent has its id for an answer and is in `uploaded`. -/
structure Delivered (w : World α ε) : Prop where
  report : ∀ t id content sub, w.tasks t = .report id content sub → id ∈ w.ids
  sent : ∀ t id content answer, w.tasks t = .sent id content answer →
    answer = .id id ∧ w.dirs .uploaded (zipName id) = some content ∧ w.dirs .pending (zipName id) = none ∧ id ∈ w.ids

section
variable {w₀ w w' : World α ε} {io : Io ε} {dirs : Dirs α} {id : Id} {content : α} {cleanup : Bool} {name log : String}

theorem Fresh.delivered (h : Fresh w) : Delivered w := by
  refine ⟨fun t id content sub ht => ?_, fun t id content answer ht => ?_⟩ <;> rw [h.tasks] at ht <;> cases ht

theorem copy_of_ne (h : log ≠ name) (dir : Dir) : copy dirs name content dir log = dirs dir log :=
  if_neg fun ⟨_, he⟩ => h he

theorem move_of_ne (h : log ≠ name) (dst dir : Dir) : move dirs dst name content dir log = dirs dir log := if_neg h

theorem respond_of_ne {sub : Submission α ε} (hp : dirs .pending sub.log = some content) (h : log ≠ sub.log)
    (dir : Dir) : (Runner.respond io sub dirs).1 dir log = dirs dir log := by
  rw [respond_dirs hp]
  split
  · rfl
  · exact move_of_ne h _ _

/-- What other tasks have sent stays, where their files are left alone. -/
theorem Delivered.step {tasks : Nat → Task α ε} {task : Nat} {x : Task α ε} {lock : Option Nat} {ids : List Id}
    {attempts : List (String × Except ε HelperResult)} (h : Delivered w) (htasks : tasks = w.tasks)
    (hids : ∀ id ∈ w.ids, id ∈ ids)
    (hdirs : ∀ t id content answer, w.tasks t = .sent id content answer →
      ∀ dir, dirs dir (zipName id) = w.dirs dir (zipName id))
    (hreport : ∀ id content sub, x = .report id content sub → id ∈ ids)
    (hsent : ∀ id content answer, x = .sent id content answer → answer = .id id ∧
      dirs .uploaded (zipName id) = some content ∧ dirs .pending (zipName id) = none ∧ id ∈ ids) :
    Delivered ⟨dirs, lock, Function.update tasks task x, ids, attempts⟩ := by
  subst htasks
  refine ⟨fun t id content sub ht => ?_, fun t id content answer ht => ?_⟩
  · have ht : Function.update w.tasks task x t = .report id content sub := ht
    by_cases hne : t = task
    · subst hne
      rw [Function.update_self] at ht
      exact hreport id content sub ht
    · rw [Function.update_of_ne hne] at ht
      exact hids id (h.report t id content sub ht)
  · have ht : Function.update w.tasks task x t = .sent id content answer := ht
    by_cases hne : t = task
    · subst hne
      rw [Function.update_self] at ht
      exact hsent id content answer ht
    · rw [Function.update_of_ne hne] at ht
      obtain ⟨ha, hup, hpend, hid⟩ := h.sent t id content answer ht
      exact ⟨ha, (hdirs t id content answer ht .uploaded).trans hup,
        (hdirs t id content answer ht .pending).trans hpend, hids id hid⟩

/-- A log that is still pending is none that was sent. -/
theorem Delivered.ne_of_pending (h : Delivered w) {t : Nat} {answer : Answer ε}
    (ht : w.tasks t = .sent id content answer) {c : α} (hp : w.dirs .pending log = some c) : zipName id ≠ log := by
  rintro rfl
  rw [(h.sent t id content answer ht).2.2.1] at hp
  cases hp

theorem Delivered.goOnCategory (h : Delivered w) {task : Nat} {dirs : Dirs α}
    {attempts : List (String × Except ε HelperResult)} (n : Next α ε)
    (hdirs : ∀ t id content answer, w.tasks t = .sent id content answer →
      ∀ dir, dirs dir (zipName id) = w.dirs dir (zipName id)) :
    Delivered (World.goOnCategory { w with dirs := dirs, attempts := attempts } task n) := by
  cases n with
  | returns submitted =>
    exact h.step rfl (fun _ h => h) hdirs (fun _ _ _ h => by cases h) (fun _ _ _ h => by cases h)
  | awaits sub => exact h.step rfl (fun _ h => h) hdirs (fun _ _ _ h => by cases h) (fun _ _ _ h => by cases h)

/-- An accepted report is moved to `uploaded`, and its id is the answer. -/
theorem answered_accepted (hp : dirs .pending (zipName id) = some content) (hok : io.submit (zipName id) = .ok .ok)
    (hr : (io.replace .uploaded (zipName id)).isOk = true) :
    Runner.respond io (submissionOf id content) dirs =
      (move dirs .uploaded (zipName id) content, [], .returns (Dict.insert .empty (zipName id) (.ok .ok))) := by
  have hplace : place io.toEnv (zipName id) = .uploaded := place_uploaded.2 ⟨hok, hr⟩
  rw [respond_report hp, hplace, if_neg (by decide), recorded_ok hok hr]

theorem afterSubmission_accepted (cleanup : Bool) (id : Id) (dirs : Dirs α) :
    afterSubmission cleanup id (Dict.insert .empty (zipName id) (.ok .ok : Except ε HelperResult)) dirs =
      (dirs, .id id) := by
  rw [afterSubmission, Dict.get?_insert_self]

end

theorem delivered_next {w₀ w w' : World α ε} {e : Event α ε} (hd : Delivered w) (hi : Inv w₀ w) (hc : Clear w e)
    (ha : Accepts e) (h : next e w = some w') : Delivered w' := by
  cases effect_of_next hc h with
  | @waits task id content io cleanup hnew hlock =>
    refine hd.step rfl (fun _ => List.mem_append_left _) (fun t id' content' answer ht dir => ?_) (fun _ _ _ h => ?_)
      (fun _ _ _ h => by cases h)
    -- The copy has a new id, so a name that no report has.
    · refine copy_of_ne (fun he => hnew ?_) dir
      exact zipName_inj he ▸ (hd.sent t id' content' answer ht).2.2.2
    · cases h
      exact List.mem_append_right _ List.mem_cons_self
  | unread _ _ hread =>
    rw [show _ = true from ha] at hread
    cases hread
  | @answered task id content sub io cleanup ht =>
    obtain ⟨rfl, hp⟩ := hi.report task id content sub ht
    rw [answered_accepted hp (ha _) (hc id content _ ht (ha _))]
    simp only [World.goOnReport, afterSubmission_accepted]
    refine hd.step rfl (fun _ h => h) (fun t id' content' answer ht' dir => ?_) (fun _ _ _ h => by cases h)
      (fun _ _ _ h => ?_)
    · exact move_of_ne (hd.ne_of_pending ht' hp) _ _
    · cases h
      exact ⟨rfl, by simp [move], by simp [move], hd.report task id content _ ht⟩
  | refused =>
    exact hd.step rfl (fun _ h => h) (fun _ _ _ _ _ _ => rfl) (fun _ _ _ h => by cases h) (fun _ _ _ h => by cases h)
  | @started task logs io hlock => exact hd.goOnCategory _ fun _ _ _ _ _ _ => rfl
  | @goesOn task sub io cleanup ht =>
    have hp := hi.category task sub ht
    exact hd.goOnCategory _ fun t id content answer ht' dir => respond_of_ne hp (hd.ne_of_pending ht' hp) dir

/-- In every run where a report is sent only while no submission has the lock, and what is accepted can be moved:
while the server accepts, every call returns its id, at the answer to its upload, and its report is in
`uploaded`; and what comes to `failed` was attempted, with a result that was not `OK`. -/
theorem reports_sent {w₀ w : World α ε} {tr : List (World α ε × Event α ε)}
    (h : Run (fun w e w' => next e w = some w') w₀ tr w) (h0 : Fresh w₀) (hc : ∀ p ∈ tr, Clear p.1 p.2) :
    ((∀ p ∈ tr, Accepts p.2) →
      (∀ t id content answer, w.tasks t = .sent id content answer →
        answer = .id id ∧ w.dirs .uploaded (zipName id) = some content) ∧
      ∀ t id content sub io cleanup, w.tasks t = .report id content sub → io.submit sub.log = .ok .ok →
        (io.replace .uploaded sub.log).isOk = true →
        ∃ w', next (.respond t io cleanup) w = some w' ∧ w'.tasks t = .sent id content (.id id)) ∧
    FailedAttempted w₀ w := by
  have hi : Inv w₀ w := h.inv (Inv w₀) (fun _ _ _ hi hc hs => inv_next hi hc hs) h0.inv hc
  refine ⟨fun ha => ⟨fun t id content answer ht => ?_, fun t id content sub io cleanup ht hok hr => ?_⟩, hi.failed⟩
  · have hboth : Inv w₀ w ∧ Delivered w :=
      @Run.inv _ _ _ (fun w e => Clear w e ∧ Accepts e) (fun w => Inv w₀ w ∧ Delivered w)
        (fun _ _ _ hi hok hs => ⟨inv_next hi.1 hok.1 hs, delivered_next hi.2 hi.1 hok.1 hok.2 hs⟩) _ _ _ h
        ⟨h0.inv, h0.delivered⟩ fun p hp => ⟨hc p hp, ha p hp⟩
    obtain ⟨hans, hup, -⟩ := hboth.2.sent t id content answer ht
    exact ⟨hans, hup⟩
  · obtain ⟨rfl, hp⟩ := hi.report t id content sub ht
    simp only [next, ht, answered_accepted hp hok hr]
    refine ⟨_, rfl, ?_⟩
    rw [World.goOnReport, afterSubmission_accepted]
    exact Function.update_self ..

/-! ## Two reports -/

theorem mem_alphabet_of_all {letters : List Char} (h : letters.all (alphabet.contains ·) = true) :
    ∀ c ∈ letters, c ∈ alphabet := by
  intro c hc
  simpa using List.all_eq_true.1 h c hc

def firstId : Id := ⟨"34679ABE".toList, by decide, mem_alphabet_of_all (by decide)⟩
def secondId : Id := ⟨"HJKLMNPS".toList, by decide, mem_alphabet_of_all (by decide)⟩

/-- All files can be read and moved, and the server accepts. -/
def smooth : Io String where
  submit _ := .ok .ok
  replace _ _ := .ok ()
  fileNotFoundError := "FileNotFoundError"
  yields _ := true
  reads _ := true

def noReports : World String String := ⟨fun _ _ => none, none, fun _ => .idle, [], []⟩

theorem noReports_fresh : Fresh noReports := ⟨fun _ => rfl, rfl⟩

/-- The second report is sent when the first has had its answer. -/
def oneByOne : List (Event String String) :=
  [.sendReport 0 firstId "a" smooth true, .respond 0 smooth true, .sendReport 1 secondId "b" smooth true,
    .respond 1 smooth true]

/-- The second report is sent while the first waits for its answer. -/
def overlapping : List (Event String String) :=
  [.sendReport 0 firstId "a" smooth true, .sendReport 1 secondId "b" smooth true, .respond 0 smooth true]

def sends : Event String String → Bool
  | .sendReport _ _ _ _ _ => true
  | _ => false

/-- The id that a task has sent. -/
def sentId : Task String String → Option Id
  | .sent id _ _ => some id
  | _ => none

theorem overlapping_accepts : ∀ e ∈ overlapping, Accepts e := by
  simp [overlapping, Accepts, smooth]

theorem smooth_clear {w : World String String} {task : Nat} {cleanup : Bool} : Clear w (.respond task smooth cleanup) :=
  fun _ _ _ _ _ => rfl

theorem one_by_one_sent : ∃ tr w, Run (fun w e w' => next e w = some w') noReports tr w ∧ tr.length = 4 ∧
    ((∀ p ∈ tr, Accepts p.2) →
      (∀ t id content answer, w.tasks t = .sent id content answer →
        answer = .id id ∧ w.dirs .uploaded (zipName id) = some content) ∧
      ∀ t id content sub io cleanup, w.tasks t = .report id content sub → io.submit sub.log = .ok .ok →
        (io.replace .uploaded sub.log).isOk = true →
        ∃ w', next (.respond t io cleanup) w = some w' ∧ w'.tasks t = .sent id content (.id id)) ∧
    FailedAttempted noReports w := by
  obtain ⟨⟨tr, w⟩, hr, hlen, hfree⟩ : ∃ r ∈ runEvents next oneByOne noReports, r.1.length = 4 ∧
      ∀ p ∈ r.1, sends p.2 = true → p.1.lock = none := by decide +kernel
  have hrun := run_of_events hr
  refine ⟨tr, w, hrun, hlen, reports_sent hrun noReports_fresh ?_⟩
  rintro ⟨w', e⟩ hp
  have he : e ∈ oneByOne := by
    rw [← events_of_runEvents hr]
    exact List.mem_map_of_mem hp
  simp only [oneByOne, List.mem_cons, List.not_mem_nil, or_false] at he
  rcases he with rfl | rfl | rfl | rfl
  · exact hfree _ hp rfl
  · exact smooth_clear
  · exact hfree _ hp rfl
  · exact smooth_clear

/-- The second report is moved to `failed` without an attempt. -/
theorem overlapping_fails : ∃ tr w, Run (fun w e w' => next e w = some w') noReports tr w ∧
    (∀ p ∈ tr, Accepts p.2) ∧
    (¬ ∀ t id content answer, w.tasks t = .sent id content answer →
      answer = .id id ∧ w.dirs .uploaded (zipName id) = some content) ∧ ¬ FailedAttempted noReports w := by
  obtain ⟨⟨tr, w⟩, hr, hsent, hfailed, hup, hattempts⟩ : ∃ r ∈ runEvents next overlapping noReports,
      sentId (r.2.tasks 1) = some secondId ∧ r.2.dirs .failed (zipName secondId) = some "b" ∧
        r.2.dirs .uploaded (zipName secondId) = none ∧ r.2.attempts = [(zipName firstId, .ok .ok)] := by
    decide +kernel
  refine ⟨tr, w, run_of_events hr, fun p hp => ?_, fun hall => ?_, fun hall => ?_⟩
  · refine overlapping_accepts p.2 ?_
    rw [← events_of_runEvents hr]
    exact List.mem_map_of_mem hp
  · cases ht : w.tasks 1 with
    | sent id content answer =>
      simp only [ht, sentId, Option.some.injEq] at hsent
      subst hsent
      have hin := (hall 1 secondId content answer ht).2
      rw [hup] at hin
      cases hin
    | idle | ended | report | category =>
      rw [ht] at hsent
      cases hsent
  · obtain ⟨r, hmem, -⟩ := hall (zipName secondId) (by rw [hfailed]; exact Option.some_ne_none _)
    rw [hattempts, List.mem_singleton] at hmem
    exact absurd (zipName_inj (congrArg Prod.fst hmem)) (by decide)

end LogSubmitter.Sysreport

import LogSubmitter.Lockfile
/-!
# Submitting a category

`runner.submit_category` submits the pending logs of one helper under its lock
and moves each to `uploaded` or `failed`, by the result. A `CLASS_ERROR` ends
the loop, an exception only the round of its log.
-/
namespace LogSubmitter.Runner

open Lib Lock

/-- `HelperResult`. -/
inductive HelperResult where
  | ok
  | transientError
  | permanentError
  | classError
  deriving DecidableEq, Repr

/-- The directories of a helper. -/
inductive Dir where
  | pending
  | uploaded
  | failed
  deriving DecidableEq, Repr

variable {α ε : Type}

/-- What each directory holds under a name. -/
abbrev Dirs (α : Type) := Dir → String → Option α

/-- What the calls of `helper.submit` and of `os.replace` come to, by log. -/
structure Env (ε : Type) where
  submit : String → Except ε HelperResult
  replace : Dir → String → Except ε Unit
  fileNotFoundError : ε

/-- What `submit_category` has done so far: `calls` are the logs given to
`helper.submit`, `submitted` is the dict it returns. -/
structure State (α ε : Type) where
  dirs : Dirs α
  calls : List String
  submitted : Dict String (Except ε HelperResult)

/-- `log.startswith('.')`. -/
def hidden (log : String) : Bool := ".".toList.isPrefixOf log.toList

/-- The pending log's `content` under another directory. -/
def move (dirs : Dirs α) (dst : Dir) (log : String) (content : α) : Dirs α := fun dir name =>
  if name = log then
    if dir = dst then some content else if dir = .pending then none else dirs dir name
  else dirs dir name

/-- `os.replace` of a pending log. -/
def replace (env : Env ε) (dst : Dir) (log : String) (s : State α ε) : Except ε (State α ε) :=
  match s.dirs .pending log with
  | none => .error env.fileNotFoundError
  | some content => (env.replace dst log).map fun _ => { s with dirs := move s.dirs dst log content }

/-- The moves after a submission. The `Bool` says whether the loop is left. -/
def settle (env : Env ε) (log : String) (s : State α ε) : HelperResult → Except ε (State α ε × Bool)
  | .ok => (replace env .uploaded log s).map (·, false)
  | .permanentError => (replace env .failed log s).map (·, false)
  | .classError => .ok (s, true)
  | .transientError => .ok (s, false)

/-- The body of the loop for a log that is not hidden. -/
def attempt (env : Env ε) (log : String) (s : State α ε) : State α ε × Bool :=
  let called := { s with calls := s.calls ++ [log] }
  match env.submit log with
  | .error e => ({ called with submitted := s.submitted.insert log (.error e) }, false)
  | .ok result =>
    let noted := { called with submitted := s.submitted.insert log (.ok result) }
    match settle env log noted result with
    | .ok r => r
    | .error e => ({ noted with submitted := noted.submitted.insert log (.error e) }, false)

/-- `for log in logs`. -/
def submitLogs (env : Env ε) : List String → State α ε → State α ε
  | [], s => s
  | log :: logs, s =>
    if hidden log then submitLogs env logs s
    else
      let r := attempt env log s
      if r.2 then r.1 else submitLogs env logs r.1

/-- `submit_category`, with the `Lockfile` object and the files its lock lives
in. The numbers are those the system gives out in `lock()`. -/
def submitCategory (env : Env ε) (fd : Fd) (ino : Ino) (o : Lockfile) (f : Files) (logs : List String)
    (dirs : Dirs α) : Option (Lockfile × Files × State α ε) :=
  (lock fd ino o f).bind fun r =>
    if r.1.outcome = .returned then
      let s := submitLogs env logs { dirs := dirs, calls := [], submitted := .empty }
      (unlock r.1 r.2).map fun r' => (r'.1, r'.2, s)
    else some (r.1, r.2, { dirs := dirs, calls := [], submitted := .empty })

/-! ## What the loop should do -/

/-- The logs up to and including the first with a `CLASS_ERROR`. -/
def upToClassError (env : Env ε) (logs : List String) : List String :=
  let others := logs.takeWhile fun log => !isClassError (env.submit log)
  others ++ (logs.drop others.length).take 1
where
  isClassError : Except ε HelperResult → Bool
    | .ok .classError => true
    | _ => false

/-- Where a log is after its attempt. -/
def place (env : Env ε) (log : String) : Dir :=
  match env.submit log with
  | .ok .ok => if (env.replace .uploaded log).isOk then .uploaded else .pending
  | .ok .permanentError => if (env.replace .failed log).isOk then .failed else .pending
  | _ => .pending

/-- What the dict has for an attempted log: the result, or the exception of the
submission or the move. -/
def recorded (env : Env ε) (log : String) : Except ε HelperResult :=
  match env.submit log with
  | .ok .ok => (env.replace .uploaded log).map fun _ => .ok
  | .ok .permanentError => (env.replace .failed log).map fun _ => .permanentError
  | r => r

/-- The attempted logs were submitted once each, in order, the dict has exactly
their names, and each log is in one directory. -/
structure Submitted (env : Env ε) (logs : List String) (before : Dirs α) (s : State α ε) : Prop where
  calls : s.calls = upToClassError env logs
  keys : s.submitted.keys = upToClassError env logs
  results : ∀ log ∈ upToClassError env logs, s.submitted.get? log = some (recorded env log)
  uploaded : ∀ log ∈ logs, ∀ content, before .pending log = some content →
    (s.dirs .uploaded log = some content ↔ log ∈ upToClassError env logs ∧ env.submit log = .ok .ok ∧
      (env.replace .uploaded log).isOk)
  failed : ∀ log ∈ logs, ∀ content, before .pending log = some content →
    (s.dirs .failed log = some content ↔ log ∈ upToClassError env logs ∧ env.submit log = .ok .permanentError ∧
      (env.replace .failed log).isOk)
  one : ∀ log ∈ logs, ∀ content, before .pending log = some content →
    ∃ dir, ∀ dir', s.dirs dir' log = if dir' = dir then some content else none
  others : ∀ name, name ∉ logs → ∀ dir, s.dirs dir name = before dir name

/-! ## One attempt -/

/-- The directories with the log in `dir` only. -/
def relocate (dirs : Dirs α) (log : String) (dir : Dir) (content : α) : Dirs α := fun dir' name =>
  if name = log then if dir' = dir then some content else none else dirs dir' name

/-- The log is pending, and in no other directory. -/
structure OnlyPending (dirs : Dirs α) (log : String) (content : α) : Prop where
  pending : dirs .pending log = some content
  uploaded : dirs .uploaded log = none
  failed : dirs .failed log = none

theorem relocate_pending {dirs : Dirs α} {log : String} {content : α} (h : OnlyPending dirs log content) :
    relocate dirs log .pending content = dirs := by
  funext dir name
  unfold relocate
  split
  · rename_i hn
    subst hn
    cases dir
    · simp [h.pending]
    · simp [h.uploaded]
    · simp [h.failed]
  · rfl

theorem move_eq_relocate {dirs : Dirs α} {log : String} {content : α} (h : OnlyPending dirs log content) {dst : Dir}
    (hd : dst ≠ .pending) : move dirs dst log content = relocate dirs log dst content := by
  funext dir name
  unfold move relocate
  split
  · rename_i hn
    subst hn
    cases dst <;> cases dir <;> simp_all [h.uploaded, h.failed]
  · rfl

theorem replace_eq {env : Env ε} {dst : Dir} {log : String} {s : State α ε} {content : α}
    (h : s.dirs .pending log = some content) :
    replace env dst log s = (env.replace dst log).map fun _ => { s with dirs := move s.dirs dst log content } := by
  simp only [replace, h]

/-- What an attempt does with a pending log, in one equation. -/
theorem attempt_of_pending {env : Env ε} {log : String} {s : State α ε} {content : α}
    (h : s.dirs .pending log = some content) :
    attempt env log s =
      ({ dirs := if place env log = .pending then s.dirs else move s.dirs (place env log) log content
         calls := s.calls ++ [log]
         submitted := s.submitted.insert log (recorded env log) },
        upToClassError.isClassError (env.submit log)) := by
  have hmove (dst : Dir) (t : State α ε) (ht : t.dirs = s.dirs) :=
    @replace_eq α ε env dst log t content (ht ▸ h)
  unfold attempt
  cases hs : env.submit log with
  | error e => simp [place, recorded, hs, upToClassError.isClassError]
  | ok result =>
    cases result with
    | ok =>
      cases hr : env.replace .uploaded log with
      | error e =>
        simp [settle, hmove, hr, place, recorded, hs, upToClassError.isClassError, Except.map, Except.isOk,
          Except.toBool, Dict.insert_insert]
      | ok u =>
        simp [settle, hmove, hr, place, recorded, hs, upToClassError.isClassError, Except.map, Except.isOk,
          Except.toBool]
    | permanentError =>
      cases hr : env.replace .failed log with
      | error e =>
        simp [settle, hmove, hr, place, recorded, hs, upToClassError.isClassError, Except.map, Except.isOk,
          Except.toBool, Dict.insert_insert]
      | ok u =>
        simp [settle, hmove, hr, place, recorded, hs, upToClassError.isClassError, Except.map, Except.isOk,
          Except.toBool]
    | classError => simp [settle, place, recorded, hs, upToClassError.isClassError]
    | transientError => simp [settle, place, recorded, hs, upToClassError.isClassError]

/-- What it does with one that is in no other directory. -/
theorem attempt_eq {env : Env ε} {log : String} {s : State α ε} {content : α} (h : OnlyPending s.dirs log content) :
    attempt env log s =
      ({ dirs := relocate s.dirs log (place env log) content
         calls := s.calls ++ [log]
         submitted := s.submitted.insert log (recorded env log) },
        upToClassError.isClassError (env.submit log)) := by
  have hdirs : (if place env log = .pending then s.dirs else move s.dirs (place env log) log content) =
      relocate s.dirs log (place env log) content := by
    by_cases hp : place env log = .pending
    · rw [if_pos hp, hp, relocate_pending h]
    · rw [if_neg hp, move_eq_relocate h hp]
  rw [attempt_of_pending h.pending, hdirs]

/-! ## The loop -/

theorem upToClassError_nil (env : Env ε) : upToClassError env [] = [] := rfl

theorem upToClassError_cons (env : Env ε) (log : String) (logs : List String) :
    upToClassError env (log :: logs) =
      if upToClassError.isClassError (env.submit log) then [log] else log :: upToClassError env logs := by
  unfold upToClassError
  cases h : upToClassError.isClassError (env.submit log) <;> simp [h]

theorem upToClassError_subset (env : Env ε) (logs : List String) : ∀ log ∈ upToClassError env logs, log ∈ logs := by
  induction logs with
  | nil => simp [upToClassError_nil]
  | cons log logs ih =>
    intro name hn
    rw [upToClassError_cons] at hn
    split at hn
    · exact List.mem_singleton.1 hn ▸ List.mem_cons_self
    · rcases List.mem_cons.1 hn with rfl | hn
      · exact List.mem_cons_self
      · exact List.mem_cons_of_mem _ (ih name hn)

theorem OnlyPending.relocate {dirs : Dirs α} {log name : String} {content : α} (h : OnlyPending dirs name content)
    (hn : name ≠ log) (dir : Dir) (other : α) : OnlyPending (relocate dirs log dir other) name content :=
  ⟨by simp [Runner.relocate, hn, h.pending], by simp [Runner.relocate, hn, h.uploaded],
    by simp [Runner.relocate, hn, h.failed]⟩

/-- The loop attempts the logs up to the first `CLASS_ERROR`, and each goes
where its own outcome says. -/
theorem submitLogs_spec {env : Env ε} {logs : List String} {s : State α ε} (hn : logs.Nodup)
    (hh : ∀ log ∈ logs, hidden log = false) (hp : ∀ log ∈ logs, ∃ content, OnlyPending s.dirs log content)
    (hk : ∀ log ∈ logs, log ∉ s.submitted.keys) :
    (submitLogs env logs s).calls = s.calls ++ upToClassError env logs ∧
    (submitLogs env logs s).submitted.keys = s.submitted.keys ++ upToClassError env logs ∧
    (∀ log, (submitLogs env logs s).submitted.get? log =
      if log ∈ upToClassError env logs then some (recorded env log) else s.submitted.get? log) ∧
    ∀ log dir, (submitLogs env logs s).dirs dir log =
      if log ∈ upToClassError env logs then if dir = place env log then s.dirs .pending log else none
      else s.dirs dir log := by
  induction logs generalizing s with
  | nil => simp [submitLogs, upToClassError_nil]
  | cons log logs ih =>
    obtain ⟨content, hc⟩ := hp log List.mem_cons_self
    obtain ⟨hlog, hn⟩ := List.nodup_cons.1 hn
    have hkey := hk log List.mem_cons_self
    rw [submitLogs, hh log List.mem_cons_self]
    simp only [Bool.false_eq_true, if_false, attempt_eq hc, upToClassError_cons]
    split
    -- `CLASS_ERROR`: the loop stops after this log.
    · refine ⟨rfl, Dict.keys_insert_of_not_mem hkey _, fun name => ?_, fun name dir => ?_⟩
      · by_cases hname : name = log
        · subst hname; simp
        · simp [hname, Dict.get?_insert_of_ne]
      · by_cases hname : name = log
        · subst hname; simp [relocate, hc.pending]
        · simp [relocate, hname]
    · have hne : ∀ name ∈ logs, name ≠ log := fun name hm he => hlog (he ▸ hm)
      have hp' : ∀ name ∈ logs, ∃ c, OnlyPending (relocate s.dirs log (place env log) content) name c := by
        intro name hm
        obtain ⟨c, h⟩ := hp name (List.mem_cons_of_mem _ hm)
        exact ⟨c, h.relocate (hne name hm) _ _⟩
      have hk' : ∀ name ∈ logs, name ∉ (s.submitted.insert log (recorded env log)).keys := fun name hm => by
        rw [Dict.keys_insert_of_not_mem hkey]
        simp [hk name (List.mem_cons_of_mem _ hm), hne name hm]
      obtain ⟨hcalls, hkeys, hget, hdirs⟩ :=
        ih (s := ⟨relocate s.dirs log (place env log) content, s.calls ++ [log],
          s.submitted.insert log (recorded env log)⟩) hn (fun name hm => hh name (List.mem_cons_of_mem _ hm)) hp' hk'
      have hup : log ∉ upToClassError env logs := fun hm => hlog (upToClassError_subset env logs log hm)
      -- The rest does not touch this log.
      refine ⟨?_, ?_, fun name => ?_, fun name dir => ?_⟩
      · rw [hcalls]; simp
      · rw [hkeys, Dict.keys_insert_of_not_mem hkey]; simp
      · rw [hget]
        by_cases hname : name = log
        · subst hname; simp [hup]
        · simp [hname, Dict.get?_insert_of_ne]
      · rw [hdirs]
        by_cases hname : name = log
        · subst hname; simp [hup, relocate, hc.pending]
        · simp [hname, relocate]

/-! ## The whole call -/

/-- The pending logs to submit: distinct names, none hidden, each in no other directory. -/
structure Pending (dirs : Dirs α) (logs : List String) : Prop where
  nodup : logs.Nodup
  shown : ∀ log ∈ logs, hidden log = false
  only : ∀ log ∈ logs, ∃ content, OnlyPending dirs log content

theorem place_uploaded {env : Env ε} {log : String} :
    place env log = .uploaded ↔ env.submit log = .ok .ok ∧ (env.replace .uploaded log).isOk := by
  unfold place
  split
  case h_1 hs => simp [hs]
  case h_2 hs => rw [hs]; split <;> simp
  case h_3 => simp_all

theorem place_failed {env : Env ε} {log : String} :
    place env log = .failed ↔ env.submit log = .ok .permanentError ∧ (env.replace .failed log).isOk := by
  unfold place
  split
  case h_1 hs => rw [hs]; split <;> simp
  case h_2 hs => simp [hs]
  case h_3 => simp_all

theorem submitted_of_pending {env : Env ε} {logs : List String} {dirs : Dirs α} (h : Pending dirs logs) :
    Submitted env logs dirs (submitLogs env logs { dirs := dirs, calls := [], submitted := .empty }) := by
  obtain ⟨hcalls, hkeys, hget, hdirs⟩ := @submitLogs_spec α ε env logs
    { dirs := dirs, calls := [], submitted := .empty } h.nodup h.shown h.only (by simp)
  have sub := upToClassError_subset env logs
  have at_ : ∀ log ∈ logs, ∀ content, dirs .pending log = some content → ∀ dir,
      (submitLogs env logs { dirs := dirs, calls := [], submitted := .empty }).dirs dir log =
        if dir = (if log ∈ upToClassError env logs then place env log else .pending) then some content else none := by
    intro log hm content hc dir
    obtain ⟨_, ho⟩ := h.only log hm
    rw [hdirs]
    split
    · simp [hc]
    · cases dir <;> simp [hc, ho.uploaded, ho.failed]
  refine ⟨by simpa using hcalls, by simpa using hkeys, fun log hm => by rw [hget, if_pos hm], ?_, ?_, ?_, ?_⟩
  · intro log hm content hc
    rw [at_ log hm content hc, ← place_uploaded]
    by_cases hup : log ∈ upToClassError env logs <;> simp [hup, eq_comm]
  · intro log hm content hc
    rw [at_ log hm content hc, ← place_failed]
    by_cases hup : log ∈ upToClassError env logs <;> simp [hup, eq_comm]
  · exact fun log hm content hc => ⟨_, at_ log hm content hc⟩
  · intro name hname dir
    rw [hdirs, if_neg fun hm => hname (sub name hm)]

/-- With the lock free, `submit_category` submits the pending logs up to the
first `CLASS_ERROR` and leaves each in the one directory its outcome asks for,
and the lock is free again. -/
theorem submit_category_spec {env : Env ε} {fd : Fd} {ino : Ino} {o : Lockfile} {f : Files} {logs : List String}
    {dirs : Dirs α} (hl : Pending dirs logs) (hpc : o.pc = .unlocked) (hf : Free f) (hfd : f.FdFree o.pid fd)
    (hino : f.InoFree ino) :
    ∃ o' f' s, submitCategory env fd ino o f logs dirs = some (o', f', s) ∧ Submitted env logs dirs s ∧
      o'.pc = .unlocked ∧ f'.link = none := by
  have hlock := lock_of_free hpc hf hfd hino
  have hunlock := unlock_of_locked (f := f.taken o.pid fd ino)
    (o := { o with pc := .locked fd, outcome := .returned }) rfl (by simp)
  refine ⟨{ o with pc := .unlocked, outcome := .returned }, (f.taken o.pid fd ino).released o.pid fd, _, ?_,
    submitted_of_pending hl, rfl, rfl⟩
  simp only [submitCategory, hlock, Option.bind_some, if_true, hunlock, Option.map_some]

/-- Three logs, the second of which stops the loop, under a stale lock. -/
theorem submit_category_class_error :
    let env : Env String :=
      { submit := fun log => if log = "b" then .ok .classError else .ok .ok
        replace := fun _ _ => .ok ()
        fileNotFoundError := "FileNotFoundError" }
    let dirs : Dirs String := fun dir log => if dir = .pending ∧ log ∈ ["a", "b", "c"] then some log else none
    let o : Lockfile := { pid := 100, pc := .unlocked, outcome := .returned }
    let f : Files := { link := some 7, text := fun _ => Files.procPath 99 3, fds := [] }
    ∃ o' f' s, submitCategory env 3 8 o f ["a", "b", "c"] dirs = some (o', f', s) ∧
      Submitted env ["a", "b", "c"] dirs s ∧ o'.pc = .unlocked ∧ f'.link = none := by
  refine submit_category_spec ⟨by decide, by decide, fun log hm => ⟨log, ?_, rfl, rfl⟩⟩ rfl ?_ (by decide) (by decide)
  · exact if_pos ⟨rfl, hm⟩
  · rintro i - -
    exact .inl rfl

end LogSubmitter.Runner

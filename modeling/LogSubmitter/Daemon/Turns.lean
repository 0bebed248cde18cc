import LogSubmitter.Daemon
/-!
# What a turn does

Every turn of a coroutine is one of four: it stays out of `_trigger`, it takes
the lock `_trigger_active` and starts a run, it goes on with the run it owns, or
it is a helper's.
-/
namespace LogSubmitter.Daemon

open Lib Lib.Asyncio

/-- In `_trigger`, past its guard. -/
def Pc.inside : Pc → Bool
  | .collecting | .submitting | .replacing _ => true
  | _ => false

/-- In `runner.trigger`. -/
def Pc.running : Pc → Bool
  | .collecting | .submitting => true
  | _ => false

def Pc.isHelper : Pc → Bool
  | .helper _ => true
  | _ => false

/-- Neither in `_trigger` nor a helper's. -/
def Pc.idle (pc : Pc) : Bool := !pc.inside && !pc.isHelper

/-- What is awaited at a place. -/
def Pc.waits : Pc → Wait → Bool
  | .collecting, .all _ | .submitting, .all _ => true
  | .awaitingStored, .task _ | .awaitingAsync, .task _ | .toggleAsync _ _, .task _ | .shutdownAsync, .task _ => true
  | .replacing t, .task u | .toggleCancel t, .task u | .suspendCancel t, .task u | .suspendSchedule t, .task u
  | .shutdownCancel t, .task u => t = u
  | .sleeping, .external | .updating, .external | .wakeupDelay, .external | .connecting, .external
  | .requestingName, .external | .startingHelpers, .external | .subscribing, .external | .helper _, .external => true
  | _, _ => false

theorem Pc.inside_of_running {pc : Pc} (h : pc.running = true) : pc.inside = true := by
  cases pc <;> first | rfl | cases h

theorem Pc.not_inside_of_idle {pc : Pc} (h : pc.idle = true) : pc.inside = false := by
  cases pc <;> first | rfl | cases h

/-! ## Staying out -/

/-- Task `i` has not ended, and is at a place in `p`. -/
def LiveAt (p : Pc → Bool) (d : Daemon) (i : TaskId) : Prop := Live (fun c : Coro => p c.pc = true) d.tasks i

theorem not_liveAt {p : Pc → Bool} {d : Daemon}
    (h : ∀ task ∈ d.tasks, task.isDone = false → p task.coro.pc = false) (i : TaskId) : ¬ LiveAt p d i := by
  rintro ⟨task, hg, hd, hp⟩
  have hp' := h task (List.mem_of_getElem? hg) hd
  rw [hp] at hp'
  cases hp'

/-- `runner.trigger` is in progress in task `i`. -/
abbrev Running (d : Daemon) (i : TaskId) : Prop := LiveAt Pc.running d i

/-- Task `i` is in `_trigger`, past its guard. -/
abbrev Inside (d : Daemon) (i : TaskId) : Prop := LiveAt Pc.inside d i

/-- A helper collects or submits in task `i`. -/
abbrev Helping (d : Daemon) (i : TaskId) : Prop := LiveAt Pc.isHelper d i

theorem LiveAt.imp {p q : Pc → Bool} {d : Daemon} {i : TaskId} (h : LiveAt p d i)
    (hpq : ∀ pc, p pc = true → q pc = true) : LiveAt q d i := by
  obtain ⟨x, hg, hd, hx⟩ := h
  exact ⟨x, hg, hd, hpq _ hx⟩

/-- A live task that is at `task` is there in a place in `p`. -/
theorem LiveAt.at {p : Pc → Bool} {d : Daemon} {i : TaskId} {task : Asyncio.Task Coro} (h : LiveAt p d i)
    (hg : d.tasks[i]? = some task) : p task.coro.pc = true := by
  obtain ⟨x, hx, -, hp⟩ := h
  rw [hg, Option.some.injEq] at hx
  exact hx ▸ hp

theorem not_live_of_pc {p : Pc → Bool} {d : Daemon} {i : TaskId} {task : Asyncio.Task Coro}
    (hg : d.tasks[i]? = some task) (hp : p task.coro.pc = false) : ¬ LiveAt p d i := by
  intro h
  rw [h.at hg] at hp
  cases hp

theorem Running.inside {d : Daemon} {i : TaskId} (h : Running d i) : Inside d i :=
  h.imp fun _ => Pc.inside_of_running

/-- The asynchronous trigger that has not started. -/
def Pc.isAsync : Pc → Bool
  | .asyncTrigger => true
  | _ => false

/-- From `d` to `d'` tasks at `p` are added, the lock and the count of runs stay, and
`_async_trigger` is kept, dropped, or a new task. -/
structure Frame (p : Pc → Bool) (d d' : Daemon) : Prop where
  adds : Adds (fun c : Coro => p c.pc = true) d.tasks d'.tasks
  lock : d'.state.triggerActive = d.state.triggerActive
  runs : d'.state.runs = d.state.runs
  async : ∀ u, d'.state.asyncTrigger = some u → d.state.asyncTrigger = some u ∨
    d.tasks.length ≤ u ∧ LiveAt Pc.isAsync d' u

namespace Frame
variable {p : Pc → Bool} {d d' d'' : Daemon}

theorem refl (p : Pc → Bool) (d : Daemon) : Frame p d d := ⟨.refl _ _, rfl, rfl, fun _ => .inl⟩

theorem trans (h : Frame p d d') (h' : Frame p d' d'') : Frame p d d'' := by
  refine ⟨h.adds.trans h'.adds, h'.lock.trans h.lock, h'.runs.trans h.runs, fun u hu => ?_⟩
  rcases h'.async u hu with hu | ⟨hlen, hl⟩
  · rcases h.async u hu with hu | ⟨hlen, hl⟩
    · exact .inl hu
    · exact .inr ⟨hlen, h'.adds.live_mono hl⟩
  · exact .inr ⟨Nat.le_trans h.adds.length hlen, hl⟩

theorem modify {f : State → State} (hl : (f d.state).triggerActive = d.state.triggerActive)
    (hr : (f d.state).runs = d.state.runs)
    (ha : ∀ u, (f d.state).asyncTrigger = some u → d.state.asyncTrigger = some u) : Frame p d (modify f d) :=
  ⟨.refl _ _, hl, hr, fun u hu => .inl (ha u hu)⟩

theorem createTask {c : Coro} (hc : p c.pc = true) (d : Daemon) : Frame p d (createTask c d) :=
  ⟨createTask_adds (fun c : Coro => p c.pc = true) hc d, rfl, rfl, fun _ => .inl⟩

theorem createPeriodic (hp : p .periodic = true) (d : Daemon) : Frame p d (createPeriodic d) :=
  (createTask hp d).trans (modify rfl rfl fun _ => id)

theorem cancel {t : TaskId} {r : List (Asyncio.Task Coro) × Bool} (h : cancel recursionLimit t d.tasks = some r) :
    Frame p d { d with tasks := r.1 } :=
  ⟨cancel_adds _ h, rfl, rfl, fun _ => .inl⟩

end Frame

/-- The turn neither enters `_trigger` nor is in it at its end. -/
structure Outside (d : Daemon) (r : Result) : Prop where
  frame : Frame Pc.idle d r.1
  flow : ∀ pc w, r.2 = .await pc w → pc.idle = true
  waits : ∀ pc w, r.2 = .await pc w → pc.waits w = true

theorem outside_done (d : Daemon) (o : Outcome) : Outside d (d, .done o) := ⟨.refl _ d, by simp, by simp⟩

theorem outside_await (d : Daemon) {pc : Pc} {w : Wait} (h : pc.idle = true) (hw : pc.waits w = true) :
    Outside d (d, .await pc w) :=
  ⟨.refl _ d, by rintro pc' w' ⟨⟩; exact h, by rintro pc' w' ⟨⟩; exact hw⟩

theorem Outside.after {d d' : Daemon} {r : Result} (h : Outside d' r) (hf : Frame Pc.idle d d') : Outside d r :=
  ⟨hf.trans h.frame, h.flow, h.waits⟩

theorem outside_cancelPeriodic {waits : TaskId → Pc} (hi : ∀ t, (waits t).idle = true)
    (hw : ∀ t, (waits t).waits (.task t) = true) {d : Daemon}
    {rest : Daemon → Result} (hr : ∀ d, Outside d (rest d)) : Outside d (cancelPeriodic waits d rest) := by
  unfold cancelPeriodic
  split
  · exact hr d
  · split
    · exact outside_done d .error
    · rename_i hc
      refine Outside.after ?_ (Frame.cancel hc)
      simp only
      split
      · exact outside_await _ (hi _) (hw _)
      · exact outside_done _ _
      · exact (hr _).after (.modify rfl rfl fun _ => id)

theorem outside_cancelledPeriodic {o : Outcome} {d : Daemon} {rest : Daemon → Result}
    (hr : ∀ d, Outside d (rest d)) : Outside d (cancelledPeriodic o d rest) := by
  unfold cancelledPeriodic
  split
  · exact outside_done _ _
  · exact (hr _).after (.modify rfl rfl fun _ => id)

theorem outside_updateSchedule {waits : TaskId → Pc} (hi : ∀ t, (waits t).idle = true)
    (hw : ∀ t, (waits t).waits (.task t) = true) {d : Daemon}
    {rest : Daemon → Result} (hr : ∀ d, Outside d (rest d)) : Outside d (updateSchedule waits d rest) := by
  unfold updateSchedule
  split
  · exact outside_cancelPeriodic hi hw hr
  · split
    · exact (hr _).after (.createPeriodic rfl d)
    · exact hr d

theorem outside_emit (d : Daemon) : Outside d (emit d) := outside_done d _

theorem outside_writeSetting (env : Env) (setting : Setting) (state : Bool) (d : Daemon) :
    Outside d (writeSetting env setting state d) := by
  have hf : Frame Pc.idle d (modify (fun s => s.set setting state) d) := by
    cases setting <;> exact .modify rfl rfl fun _ => id
  refine Outside.after ?_ hf
  unfold writeSetting
  simp only
  split
  · exact outside_done _ _
  · exact outside_updateSchedule (fun _ => rfl) (fun t => by simp [Pc.waits]) outside_emit

theorem outside_toggle (env : Env) (setting : Setting) (state : Bool) (d : Daemon) :
    Outside d (toggle env setting state d) := by
  unfold toggle
  split
  · exact outside_done _ _
  · split
    · split
      · exact outside_writeSetting ..
      · split
        · exact outside_await _ rfl rfl
        · exact outside_writeSetting ..
        · exact outside_done _ _
    · exact outside_writeSetting ..

theorem outside_reschedule (d : Daemon) : Outside d (reschedule d) :=
  outside_updateSchedule (fun _ => rfl) (fun t => by simp [Pc.waits]) fun d => outside_done d _

theorem outside_leaveSuspend (value : String) (d : Daemon) : Outside d (leaveSuspend value d) := by
  have hf : Frame Pc.idle d (modify (fun s => { s with suspend := value }) d) := .modify rfl rfl fun _ => id
  unfold leaveSuspend
  split
  · exact outside_done _ _
  · refine Outside.after ?_ hf
    simp only
    split
    · split
      · exact outside_done _ _
      · exact outside_await _ rfl rfl
    · exact outside_done _ _

theorem outside_connect (d : Daemon) : Outside d (connect d) := by
  unfold connect
  split
  · exact outside_await d rfl rfl
  · exact (outside_await _ rfl rfl).after (.modify rfl rfl fun _ => id)

theorem outside_start (env : Env) (d : Daemon) : Outside d (start env d) := by
  unfold start
  split
  · exact outside_done _ _
  · refine Outside.after ?_ (.modify rfl rfl (fun _ => id) : Frame Pc.idle d
      (modify (fun s => { s with serving := true, nextTrigger := firstTrigger env s.lastTrigger }) d))
    simp only
    split
    · exact (outside_connect _).after (.createPeriodic rfl _)
    · exact outside_connect _

theorem outside_unexport (d : Daemon) : Outside d (unexport d) := outside_done d _

theorem outside_shutdownPeriodic (d : Daemon) : Outside d (shutdownPeriodic d) :=
  outside_cancelPeriodic (fun _ => rfl) (fun t => by simp [Pc.waits]) outside_unexport

theorem outside_shutdown (d : Daemon) : Outside d (shutdown d) := by
  have hf : Frame Pc.idle d (modify (fun s => { s with serving := false }) d) := .modify rfl rfl fun _ => id
  unfold shutdown
  refine Outside.after ?_ hf
  simp only
  split
  · exact outside_shutdownPeriodic _
  · split
    · exact outside_await _ rfl rfl
    · exact (outside_shutdownPeriodic _).after (.modify rfl rfl fun _ h => by cases h)
    · exact outside_done _ _

/-! ## Runs -/

/-- The owner of the lock waits in `_trigger`, or has released the lock, or died with it. -/
inductive Owns (r : Result) : Prop
  | stays {pc w} (hf : r.2 = .await pc w) (hp : pc.inside = true) (hl : r.1.state.triggerActive = true)
  | releases (hf : r.2 = .done .ok) (hl : r.1.state.triggerActive = false) (ha : r.1.state.asyncTrigger = none)
  | dies {o} (hf : r.2 = .done o) (ho : o ≠ .ok) (hl : r.1.state.triggerActive = true)

/-- Not in `_trigger`. -/
def Pc.notInside (pc : Pc) : Bool := !pc.inside

/-- A step inside a run that leaves the lock and the settings, and adds nothing that is in `_trigger` itself. -/
structure Continues (d d' : Daemon) : Prop extends Frame Pc.notInside d d' where
  enabled : d'.state.enabled = d.state.enabled
  inhibited : d'.state.inhibited = d.state.inhibited

theorem Continues.refl (d : Daemon) : Continues d d := ⟨.refl _ _, rfl, rfl⟩

theorem Continues.trans {d d' d'' : Daemon} (h : Continues d d') (h' : Continues d' d'') : Continues d d'' :=
  ⟨h.toFrame.trans h'.toFrame, h'.enabled.trans h.enabled, h'.inhibited.trans h.inhibited⟩

theorem continues_modify {f : State → State} {d : Daemon} (hl : (f d.state).triggerActive = d.state.triggerActive)
    (hr : (f d.state).runs = d.state.runs) (ha : (f d.state).asyncTrigger = d.state.asyncTrigger)
    (he : (f d.state).enabled = d.state.enabled) (hi : (f d.state).inhibited = d.state.inhibited) :
    Continues d (modify f d) :=
  ⟨.modify hl hr fun _ h => ha ▸ h, he, hi⟩

theorem continues_cancel {d : Daemon} {t : TaskId} {r : List (Asyncio.Task Coro) × Bool}
    (h : cancel recursionLimit t d.tasks = some r) : Continues d { d with tasks := r.1 } :=
  ⟨.cancel h, rfl, rfl⟩

theorem continues_createTask {c : Coro} (hc : c.pc.notInside = true) (d : Daemon) : Continues d (createTask c d) :=
  ⟨.createTask hc d, rfl, rfl⟩

theorem continues_createPeriodic (d : Daemon) : Continues d (createPeriodic d) := ⟨.createPeriodic rfl d, rfl, rfl⟩

/-- What a turn in `_trigger` does, past the guard. -/
structure Ran (d : Daemon) (r : Result) : Prop where
  adds : Adds (fun c : Coro => c.pc.notInside = true) d.tasks r.1.tasks
  enabled : r.1.state.enabled = d.state.enabled
  inhibited : r.1.state.inhibited = d.state.inhibited
  runs : r.1.state.runs = d.state.runs
  async : ∀ u, r.1.state.asyncTrigger = some u → d.state.asyncTrigger = some u ∨
    d.tasks.length ≤ u ∧ LiveAt Pc.isAsync r.1 u
  waits : ∀ pc w, r.2 = .await pc w → pc.waits w = true
  owns : d.state.triggerActive = true → Owns r

theorem Ran.after {d d' : Daemon} {r : Result} (h : Ran d' r) (hc : Continues d d') : Ran d r := by
  refine ⟨hc.adds.trans h.adds, h.enabled.trans hc.enabled, h.inhibited.trans hc.inhibited, h.runs.trans hc.runs,
    fun u hu => ?_, h.waits, fun hl => h.owns (hc.lock.trans hl)⟩
  rcases h.async u hu with hu | ⟨hlen, hl⟩
  · rcases hc.async u hu with hu | ⟨hlen, hl⟩
    · exact .inl hu
    · exact .inr ⟨hlen, h.adds.live_mono hl⟩
  · exact .inr ⟨Nat.le_trans hc.adds.length hlen, hl⟩

theorem ran_release (d : Daemon) : Ran d (release d) :=
  ⟨.refl _ _, rfl, rfl, rfl, by rintro u ⟨⟩, by rintro pc w ⟨⟩, fun _ => .releases rfl rfl rfl⟩

theorem ran_dies (d : Daemon) {o : Outcome} (ho : o ≠ .ok) : Ran d (d, .done o) :=
  ⟨.refl _ _, rfl, rfl, rfl, fun _ => .inl, by rintro pc w ⟨⟩, fun hl => .dies rfl ho hl⟩

theorem ran_stays (d : Daemon) {pc : Pc} {w : Wait} (hp : pc.inside = true) (hw : pc.waits w = true) :
    Ran d (d, .await pc w) :=
  ⟨.refl _ _, rfl, rfl, rfl, fun _ => .inl, by rintro pc' w' ⟨⟩; exact hw, fun hl => .stays rfl hp hl⟩

theorem ran_replace (task : TaskId) (d : Daemon) : Ran d (replace task d) := by
  unfold replace
  split
  · exact ran_dies d (by decide)
  · rename_i hc
    refine Ran.after ?_ (continues_cancel hc)
    simp only
    split
    · exact ran_stays _ rfl (decide_eq_true rfl)
    · exact ran_dies _ (by decide)
    · exact ran_release _

theorem ran_afterRun (env : Env) (d : Daemon) : Ran d (afterRun env d) := by
  have hl : Continues d (modify (fun s => { s with lastTrigger := some env.now }) d) :=
    continues_modify rfl rfl rfl rfl rfl
  have hn : ∀ d, Continues d (modify (fun s => { s with nextTrigger := env.now + interval }) d) :=
    fun d => continues_modify rfl rfl rfl rfl rfl
  unfold afterRun
  refine Ran.after ?_ hl
  simp only
  split
  · exact ran_dies _ (by decide)
  · refine Ran.after ?_ (hn _)
    split <;> split
    · exact (ran_release _).after (continues_createPeriodic _)
    · exact ran_release _
    · exact (ran_replace _ _).after (continues_createPeriodic _)
    · exact ran_replace _ _

theorem continues_startHelpers (phase : Phase) (plans : List Plan) (d : Daemon) :
    Continues d (startHelpers phase plans d).1 := by
  induction plans generalizing d with
  | nil => exact .refl d
  | cons plan plans ih =>
    cases plan with
    | skip => exact ih d
    | raises => exact .refl d
    | task => exact (continues_createTask rfl d).trans (ih _)

theorem ran_runSubmit (env : Env) (d : Daemon) : Ran d (runSubmit env d) := by
  unfold runSubmit
  refine Ran.after ?_ (continues_startHelpers .submit env.submit d)
  simp only
  split
  · exact ran_afterRun _ _
  · exact ran_stays _ rfl rfl

theorem ran_runCollect (env : Env) (d : Daemon) : Ran d (runCollect env d) := by
  unfold runCollect
  refine Ran.after ?_ (continues_startHelpers .collect env.collect d)
  simp only
  split
  · exact ran_runSubmit _ _
  · exact ran_stays _ rfl rfl

/-! ## Turns -/

/-- The lock is taken, and `runner.trigger` called. -/
def enter (d : Daemon) : Daemon := modify (fun s => { s with triggerActive := true, runs := s.runs + 1 }) d

/-- `last_applist_update` is written. -/
def stamp (lastApplistUpdate : Option Int) (d : Daemon) : Daemon :=
  modify (fun s => { s with lastApplistUpdate := lastApplistUpdate }) d

/-- A turn that may start a run: it stays out, or it finds the daemon on and the lock free. -/
inductive Triggers (env : Env) (d : Daemon) (r : Result) : Prop
  | outside (h : Outside d r)
  | enters (update : Option Int) (hon : d.state.on = true) (hl : d.state.triggerActive = false)
      (h : r = runCollect env (enter (stamp update d)))

theorem triggers_innerTrigger (env : Env) (d : Daemon) : Triggers env d (innerTrigger env d) := by
  unfold innerTrigger
  split
  · exact .outside ((outside_done _ _).after (.modify rfl rfl fun _ h => by cases h))
  · rename_i hn
    simp only [Bool.not_eq_true', not_or, Bool.not_eq_false, Bool.not_eq_true] at hn
    exact .enters d.state.lastApplistUpdate hn.1 hn.2 rfl

theorem outside_storedEnded (d : Daemon) : Outside d (storedEnded d) := outside_done d _

/-- `trigger(wait=False)` leaves the run to a task of its own. -/
theorem outside_triggerAsync (env : Env) (d : Daemon) : Outside d (trigger env false d) := by
  simp only [trigger, Bool.not_false, if_true, Bool.false_eq_true, if_false]
  split
  · exact outside_done _ _
  · split
    · exact outside_done _ _
    · split
      · exact outside_done _ _
      · refine ⟨⟨createTask_adds (fun c : Coro => c.pc.idle = true) rfl d, rfl, rfl, fun u hu => .inr ?_⟩, ?_, ?_⟩
        · cases hu
          exact ⟨Nat.le_refl _, _, List.getElem?_concat_length, rfl, rfl⟩
        · rintro pc w ⟨⟩
        · rintro pc w ⟨⟩

theorem triggers_trigger (env : Env) (d : Daemon) : Triggers env d (trigger env true d) := by
  simp only [trigger, Bool.not_true, Bool.false_eq_true, if_false, if_true]
  split
  · exact .outside (outside_done _ _)
  · split
    · refine .outside ?_
      split
      · exact outside_done _ _
      · split
        · exact outside_await _ rfl rfl
        · exact outside_storedEnded _
        · exact outside_done _ _
    · split
      · refine .outside ?_
        split
        · exact outside_await _ rfl rfl
        · exact outside_done _ _
      · exact triggers_innerTrigger env d

theorem triggers_afterUpdate (env : Env) (d : Daemon) : Triggers env d (afterUpdate env d) := by
  unfold afterUpdate
  split
  · exact .outside (outside_done _ _)
  · exact triggers_trigger env d

theorem triggers_afterSleep (env : Env) (d : Daemon) : Triggers env d (afterSleep env d) := by
  unfold afterSleep
  split
  · exact .outside (outside_await _ rfl rfl)
  · exact triggers_afterUpdate env d

theorem triggers_triggerPeriodic (env : Env) (d : Daemon) : Triggers env d (triggerPeriodic env d) := by
  unfold triggerPeriodic
  split
  · exact .outside (outside_await _ rfl rfl)
  · exact triggers_afterSleep env d

theorem triggers_applistUpdated (env : Env) (d : Daemon) : Triggers env d (applistUpdated env d) := by
  have hf : Frame Pc.idle d (stamp (some env.now) d) := .modify rfl rfl fun _ => id
  unfold applistUpdated
  simp only
  split
  · exact .outside ((outside_done _ _).after hf)
  · cases triggers_afterUpdate env (stamp (some env.now) d) with
    | outside h => exact .outside (h.after hf)
    | enters update hon hl h => exact .enters update hon hl h

/-- Where a turn may come to `_trigger`. -/
def Pc.triggers : Pc → Bool
  | .periodic | .sleeping | .updating | .asyncTrigger => true
  | .trigger wait => wait
  | _ => false

theorem triggers_turn {env : Env} {pc : Pc} (hp : pc.triggers = true) (d : Daemon) :
    Triggers env d (turn env pc .ok d) := by
  cases pc <;> try exact absurd hp Bool.false_ne_true
  case periodic => exact triggers_triggerPeriodic env d
  case sleeping => exact triggers_afterSleep env d
  case updating => exact triggers_applistUpdated env d
  case trigger wait =>
    cases wait
    · exact absurd hp Bool.false_ne_true
    · exact triggers_trigger env d
  case asyncTrigger => exact triggers_innerTrigger env d

/-- A turn from outside `_trigger` that does not come to it. -/
theorem outside_turn {env : Env} {pc : Pc} (hp : pc.idle = true) {o : Outcome}
    (ho : pc.triggers = true → o ≠ .ok) (d : Daemon) : Outside d (turn env pc o d) := by
  cases pc <;> try exact absurd hp Bool.false_ne_true
  case toggleCancel => exact outside_cancelledPeriodic outside_emit
  case suspendCancel => exact outside_cancelledPeriodic outside_reschedule
  case suspendSchedule => exact outside_cancelledPeriodic fun d => outside_done d .ok
  case shutdownCancel => exact outside_cancelledPeriodic outside_unexport
  all_goals cases o <;> try exact absurd rfl (ho rfl)
  case trigger.ok wait =>
    cases wait
    · exact outside_triggerAsync env d
    · exact absurd rfl (ho rfl)
  case awaitingStored.ok => exact outside_storedEnded d
  case toggle.ok setting state => exact outside_toggle env setting state d
  case toggleAsync.ok setting state => exact outside_writeSetting env setting state d
  case leaveSuspend.ok value => exact outside_leaveSuspend value d
  case wakeupDelay.ok => exact outside_cancelPeriodic (fun _ => rfl) (fun t => by simp [Pc.waits]) outside_reschedule
  case start.ok => exact outside_start env d
  case connecting.ok => exact (outside_await _ rfl rfl).after (.modify rfl rfl fun _ => id)
  case requestingName.ok => exact (outside_await _ rfl rfl).after (.modify rfl rfl fun _ => id)
  case requestingName.error =>
    simp only [turn]
    split
    · exact (outside_await _ rfl rfl).after (.modify rfl rfl fun _ => id)
    · exact outside_done _ _
  case startingHelpers.ok => exact outside_await d rfl rfl
  case subscribing.error => exact outside_done _ _
  case shutdown.ok => exact outside_shutdown d
  case shutdownAsync.ok => exact (outside_shutdownPeriodic _).after (.modify rfl rfl fun _ h => by cases h)
  all_goals exact outside_done d _

/-- A turn from inside `_trigger`. -/
theorem ran_turn {env : Env} {pc : Pc} (hp : pc.inside = true) (o : Outcome) (d : Daemon) :
    Ran d (turn env pc o d) := by
  cases pc <;> try exact absurd hp Bool.false_ne_true
  all_goals cases o
  case collecting.ok | collecting.error => exact ran_runSubmit env d
  case submitting.ok | submitting.error => exact ran_afterRun env d
  case replacing.ok | replacing.cancelled => exact ran_release d
  all_goals exact ran_dies d (by decide)

/-- A helper's turn awaits again or ends, and touches nothing. -/
theorem helper_turn {env : Env} {pc : Pc} (hp : pc.isHelper = true) (o : Outcome) (d : Daemon) :
    (turn env pc o d).1 = d ∧ ∀ pc' w, (turn env pc o d).2 = .await pc' w → pc' = pc ∧ pc'.waits w = true := by
  cases pc <;> try exact absurd hp Bool.false_ne_true
  rename_i phase
  have hok : (turn env (.helper phase) .ok d).1 = d ∧ ∀ pc' w,
      (turn env (.helper phase) .ok d).2 = .await pc' w → pc' = .helper phase ∧ pc'.waits w = true := by
    simp only [turn]
    cases env.helperEnds with
    | none => exact ⟨rfl, by rintro pc' w ⟨⟩; exact ⟨rfl, rfl⟩⟩
    | some raises => exact ⟨rfl, by rintro pc' w ⟨⟩⟩
  cases o
  case ok => exact hok
  case error => exact hok
  case cancelled => exact ⟨rfl, by rintro pc' w ⟨⟩⟩

/-- The four kinds of turns. -/
inductive TurnCase (env : Env) (pc : Pc) (o : Outcome) (d : Daemon) (r : Result) : Prop
  | outside (hp : pc.idle = true) (h : Outside d r)
  | enters (hp : pc.triggers = true) (ho : o = .ok) (update : Option Int) (hon : d.state.on = true)
      (hl : d.state.triggerActive = false) (h : r = runCollect env (enter (stamp update d)))
  | inside (hp : pc.inside = true) (h : Ran d r)
  | helper (hp : pc.isHelper = true) (hd : r.1 = d)
    (hf : ∀ pc' w, r.2 = .await pc' w → pc' = pc ∧ pc'.waits w = true)

theorem turnCase (env : Env) (pc : Pc) (o : Outcome) (d : Daemon) : TurnCase env pc o d (turn env pc o d) := by
  cases hin : pc.inside with
  | true => exact .inside hin (ran_turn hin o d)
  | false =>
    cases hh : pc.isHelper with
    | true =>
      obtain ⟨hd, hf⟩ := @helper_turn env _ hh o d
      exact .helper hh hd hf
    | false =>
      have hidle : pc.idle = true := by
        rw [Pc.idle, hin, hh]
        rfl
      by_cases ht : pc.triggers = true ∧ o = .ok
      · obtain ⟨ht, rfl⟩ := ht
        cases triggers_turn ht d with
        | outside h => exact .outside hidle h
        | enters update hon hl h => exact .enters ht rfl update hon hl h
      · exact .outside hidle (outside_turn hidle (fun h ho => ht ⟨h, ho⟩) d)

theorem turn_waits {env : Env} {pc pc' : Pc} {o : Outcome} {d : Daemon} {w : Wait}
    (h : (turn env pc o d).2 = .await pc' w) : pc'.waits w = true := by
  cases turnCase env pc o d with
  | outside _ ho => exact ho.waits pc' w h
  | enters _ _ _ _ _ hr => exact (ran_runCollect env _).waits pc' w (hr ▸ h)
  | inside _ hran => exact hran.waits pc' w h
  | helper _ _ hf => exact (hf pc' w h).2

/-- What a turn adds is not in `_trigger`. -/
theorem turn_adds (env : Env) (pc : Pc) (o : Outcome) (d : Daemon) :
    Adds (fun c : Coro => c.pc.notInside = true) d.tasks (turn env pc o d).1.tasks := by
  cases turnCase env pc o d with
  | outside _ ho => exact ho.frame.adds.mono fun c hc => by rw [Pc.notInside, Pc.not_inside_of_idle hc]; rfl
  | enters _ _ update _ _ hr =>
    rw [hr]
    exact (ran_runCollect env (enter (stamp update d))).adds
  | inside _ hran => exact hran.adds
  | helper _ hd _ =>
    rw [hd]
    exact .refl _ _

/-! ## Steps -/

/-- From `d` to `d'` task `t`, at `task`, is resumed with `o`. -/
structure TurnOf (env : Env) (t : TaskId) (task : Asyncio.Task Coro) (o : Outcome) (d d' : Daemon) : Prop where
  get : d.tasks[t]? = some task
  due : task.due = some o
  state : d'.state = (turn env task.coro.pc o (unmark t d)).1.state
  tasks : d'.tasks = settle t (run env task.coro o (unmark t d)).2 (turn env task.coro.pc o (unmark t d)).1.tasks
  turned : ∀ p, Adds p (unmark t d).tasks (turn env task.coro.pc o (unmark t d)).1.tasks →
    Turned p t task.coro (run env task.coro o (unmark t d)).2 d.tasks d'.tasks

theorem TurnOf.live {env : Env} {t : TaskId} {task : Asyncio.Task Coro} {o : Outcome} {d d' : Daemon}
    (h : TurnOf env t task o d d') {p : Pc → Bool} (hp : p task.coro.pc = true) : LiveAt p d t := by
  exact ⟨task, h.get, task.isDone_of_due h.due, hp⟩

/-- The other tasks stay where they are, and the new ones are in `q`. -/
theorem TurnOf.live_others {env : Env} {t : TaskId} {task : Asyncio.Task Coro} {o : Outcome} {d d' : Daemon}
    (h : TurnOf env t task o d d') {p q : Pc → Bool} (hpq : ∀ pc, p pc = true → q pc = false)
    (ha : Adds (fun c : Coro => q c.pc = true) (unmark t d).tasks (turn env task.coro.pc o (unmark t d)).1.tasks)
    {i : TaskId} (hi : i ≠ t) (hl : LiveAt p d' i) : LiveAt p d i := by
  rcases (h.turned _ ha).others.live hi hl with hl | ⟨⟨x, -, -, hp, hq⟩, -⟩
  · exact hl
  · rw [hpq _ hp] at hq
    cases hq

theorem TurnOf.live_mono {env : Env} {t : TaskId} {task : Asyncio.Task Coro} {o : Outcome} {d d' : Daemon}
    (h : TurnOf env t task o d d') {p : Pc → Bool} {q : Coro → Prop}
    (ha : Adds q (unmark t d).tasks (turn env task.coro.pc o (unmark t d)).1.tasks)
    {i : TaskId} (hi : i ≠ t) (hl : LiveAt p d i) : LiveAt p d' i :=
  (h.turned _ ha).others.live_mono hi hl

/-- What is left of another task after the turn. -/
theorem TurnOf.settled {env : Env} {t : TaskId} {task : Asyncio.Task Coro} {o : Outcome} {d d' : Daemon}
    (h : TurnOf env t task o d d') {i : TaskId} (hi : i ≠ t) {x : Asyncio.Task Coro}
    (hg : (turn env task.coro.pc o (unmark t d)).1.tasks[i]? = some x) :
    ∃ x', d'.tasks[i]? = some x' ∧ Meanwhile d'.tasks x x' := by
  rw [h.tasks]
  exact (settle_others (fun _ => True) t _ _).keep i x hi hg

/-- A task that the turn added is live after it. -/
theorem TurnOf.live_added {env : Env} {t : TaskId} {task : Asyncio.Task Coro} {o : Outcome} {d d' : Daemon}
    (h : TurnOf env t task o d d') {p : Pc → Bool} {i : TaskId} (hi : (unmark t d).tasks.length ≤ i)
    (hl : LiveAt p (turn env task.coro.pc o (unmark t d)).1 i) : LiveAt p d' i := by
  have hlt := (List.getElem?_eq_some_iff.1 h.get).1
  simp only [unmark, List.length_modify] at hi
  have hne : i ≠ t := Nat.ne_of_gt (Nat.lt_of_lt_of_le hlt hi)
  rw [LiveAt, h.tasks]
  exact settle_live hne hl

/-- After its turn a task is live where it awaits. -/
theorem TurnOf.live_self {env : Env} {t : TaskId} {task : Asyncio.Task Coro} {o : Outcome} {d d' : Daemon}
    (h : TurnOf env t task o d d') {p q : Pc → Bool}
    (ha : Adds (fun c : Coro => q c.pc = true) (unmark t d).tasks (turn env task.coro.pc o (unmark t d)).1.tasks) :
    LiveAt p d' t ↔ ∃ pc w, (turn env task.coro.pc o (unmark t d)).2 = .await pc w ∧ p pc = true := by
  rw [LiveAt, (h.turned _ ha).live_self]
  simp only [run]
  constructor
  · rintro ⟨c, w, hf, hp⟩
    split at hf
    · rename_i pc w' hr
      cases hf
      exact ⟨pc, w, hr, hp⟩
    · cases hf
  · rintro ⟨pc, w, hr, hp⟩
    rw [hr]
    exact ⟨_, w, rfl, hp⟩

/-- A step calls, completes, or is a turn. -/
inductive StepOf (e : Event) (d d' : Daemon) : Prop
  | call (c : Call) (he : e = .call c) (hd : d' = createTask { periodic := false, pc := c.pc } d)
  | complete (t fails) (he : e = .complete t fails) (hs : d'.state = d.state)
      (ha : Adds (fun _ => False) d.tasks d'.tasks)
  | turn (t env task o) (he : e = .resume t env) (h : TurnOf env t task o d d')

theorem stepOf_next {e : Event} {d d' : Daemon} (h : next e d = some d') : StepOf e d d' := by
  cases e with
  | call c =>
    cases h
    exact .call c rfl rfl
  | complete t fails =>
    simp only [next] at h
    split at h
    · cases h
    · obtain ⟨ha, hs⟩ := complete_adds (fun _ => False) h
      exact .complete t fails rfl hs ha
  | resume t env =>
    obtain ⟨task, o, hg, hs, hst, htasks, ht⟩ := resume_turned h
    exact .turn t env task o rfl ⟨hg, hs, hst, htasks, ht⟩

/-- If the event is a turn, what it is given meets `P`. -/
def OnTurn (P : TaskId → Env → Pc → Outcome → Prop) (d : Daemon) : Event → Prop
  | .resume t env => ∀ task ∈ d.tasks[t]?, ∀ o ∈ task.due, P t env task.coro.pc o
  | _ => True

instance {P : TaskId → Env → Pc → Outcome → Prop} [∀ t env pc o, Decidable (P t env pc o)] (d : Daemon) (e : Event) :
    Decidable (OnTurn P d e) :=
  match e with
  | .call _ | .complete _ _ => .isTrue trivial
  | .resume t env => inferInstanceAs (Decidable (∀ task ∈ d.tasks[t]?, ∀ o ∈ task.due, P t env task.coro.pc o))

theorem TurnOf.onTurn {P : TaskId → Env → Pc → Outcome → Prop} {env : Env} {t : TaskId} {task : Asyncio.Task Coro}
    {o : Outcome} {d d' : Daemon} (h : TurnOf env t task o d d') (hp : OnTurn P d (.resume t env)) :
    P t env task.coro.pc o :=
  hp task h.get o h.due

/-- A task stays where it is in every step that is not its turn. -/
theorem next_meanwhile {e : Event} {d d' : Daemon} (h : next e d = some d') {i : TaskId} {task : Asyncio.Task Coro}
    (hg : d.tasks[i]? = some task) (hi : ∀ env, e ≠ .resume i env) :
    ∃ task', d'.tasks[i]? = some task' ∧ Meanwhile d'.tasks task task' := by
  cases stepOf_next h with
  | call c he hd =>
    subst hd
    exact (createTask_adds (fun _ => True) trivial d).keep i task hg
  | complete t fails he hs ha => exact ha.keep i task hg
  | turn t env task₀ o he h =>
    have hne : i ≠ t := by
      rintro rfl
      exact hi env he
    exact (h.turned _ (turn_adds env task₀.coro.pc o (unmark t d))).others.keep i task hne hg

/-- A task that has ended stays so. -/
theorem next_outcomeOf {e : Event} {d d' : Daemon} (h : next e d = some d') {i : TaskId} {o : Outcome}
    (ho : outcomeOf i d.tasks = some o) : outcomeOf i d'.tasks = some o := by
  obtain ⟨task, hg, hout⟩ := Option.bind_eq_some_iff.1 ho
  have hi : ∀ env, e ≠ .resume i env := by
    rintro env rfl
    obtain ⟨task', o', hg', hd, -⟩ := resume_turned h
    rw [hg, Option.some.injEq] at hg'
    subst hg'
    rw [task.outcome_of_due hd] at hout
    cases hout
  obtain ⟨task', hg', hm⟩ := next_meanwhile h hg hi
  rw [outcomeOf, hg', Option.bind_some, hm.outcome, hout]

theorem Call.pc_idle (c : Call) : c.pc.idle = true := by cases c <;> rfl

/-- A call or a completion moves no task and adds none but the call's. -/
theorem live_of_created {p : Pc → Bool} {c : Coro} {d : Daemon} (hc : p c.pc = false) {i : TaskId}
    (hl : LiveAt p (createTask c d) i) : LiveAt p d i := by
  rcases (createTask_adds (fun x : Coro => p x.pc = false) hc d).live hl with hl | ⟨⟨x, -, -, hp, hq⟩, -⟩
  · exact hl
  · rw [hp] at hq
    cases hq

theorem live_of_completed {p : Pc → Bool} {d d' : Daemon} (ha : Adds (fun _ : Coro => False) d.tasks d'.tasks)
    {i : TaskId} (hl : LiveAt p d' i) : LiveAt p d i := by
  rcases ha.live hl with hl | ⟨⟨x, -, -, -, hf⟩, -⟩
  · exact hl
  · exact hf.elim

/-- Each waiting task waits for what its place is waiting for. -/
def Typed (d : Daemon) : Prop :=
  ∀ (i : TaskId) task w, d.tasks[i]? = some task → task.status = .waiting w → task.coro.pc.waits w = true

theorem typed_init (enabled inhibited : Bool) (lastTrigger lastApplistUpdate : Option Int) :
    Typed (init enabled inhibited lastTrigger lastApplistUpdate) := by
  rintro i task w ⟨⟩

theorem typed_of_adds {p : Coro → Prop} {d d' : Daemon} (h : Typed d) (ha : Adds p d.tasks d'.tasks) : Typed d' := by
  intro i task' w hg hs
  obtain ⟨task, hg₀, hs₀, hc⟩ := ha.waiting hg hs
  exact hc ▸ h i task w hg₀ hs₀

theorem typed_next {e : Event} {d d' : Daemon} (hy : Typed d) (h : next e d = some d') : Typed d' := by
  cases stepOf_next h with
  | call c he hd =>
    subst hd
    exact typed_of_adds hy (createTask_adds (fun _ => True) trivial d)
  | complete t fails he hs ha => exact typed_of_adds hy ha
  | turn t env task o he h =>
    have ht := h.turned _ (turn_adds env task.coro.pc o (unmark t d))
    intro i task' w hg hs
    by_cases hne : i = t
    · subst hne
      obtain ⟨x, hx, hl⟩ := ht.self
      rw [hg, Option.some.injEq] at hx
      subst hx
      cases hr : (turn env task.coro.pc o (unmark i d)).2 with
      | done o' =>
        simp only [run, hr, Landed] at hl
        obtain ⟨-, o'', hs', -⟩ := hl
        rw [hs] at hs'
        cases hs'
      | await pc' w' =>
        simp only [run, hr, Landed] at hl
        obtain ⟨hc, hs' | ⟨o'', hs', -⟩⟩ := hl
        · rw [hs] at hs'
          cases hs'
          rw [hc]
          exact turn_waits hr
        · rw [hs] at hs'
          cases hs'
    · obtain ⟨x, hx, hs₀, hc⟩ := ht.others.waiting hne hg hs
      exact hc ▸ hy i x w hx hs₀

theorem typed_run {enabled inhibited : Bool} {lastTrigger lastApplistUpdate : Option Int}
    {tr : List (Daemon × Event)} {d : Daemon}
    (h : DaemonRun (init enabled inhibited lastTrigger lastApplistUpdate) tr d) : Typed d :=
  h.always Typed (fun _ _ _ => typed_next) (typed_init enabled inhibited lastTrigger lastApplistUpdate)

end LogSubmitter.Daemon

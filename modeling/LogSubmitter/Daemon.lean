import LogSubmitter.Lib.Asyncio
import LogSubmitter.Lib.Runs
/-!
# The daemon

`Daemon` as tasks of one event loop: the periodic task, the asynchronous
trigger, the D-Bus calls and callbacks, and the tasks `runner.collect` and
`runner.submit` start for the helpers. A step is a turn of one task, from where
it waits to where it waits next, with what the world outside answers in it.

`_trigger` is the last thing `trigger` does, and `trigger` the last thing the
periodic task does, so a task inside them needs no note of where it returns to.
-/
namespace LogSubmitter.Daemon

open Lib Lib.Asyncio

/-! ## Tasks -/

/-- `enable` or `inhibit`, in the base configuration. -/
inductive Setting where
  | enable
  | inhibit
  deriving DecidableEq, Repr

inductive Phase where
  | collect
  | submit
  deriving DecidableEq, Repr

/-- Where a coroutine starts or waits. -/
inductive Pc where
  -- `_trigger_periodic`
  | periodic
  | sleeping
  | updating
  -- `trigger`
  | trigger (wait : Bool)
  | awaitingStored
  | awaitingAsync
  -- `_trigger`: the last is `await task`, the others are in `runner.trigger`
  | asyncTrigger
  | collecting
  | submitting
  | replacing (task : TaskId)
  -- `enable` and `inhibit`
  | toggle (setting : Setting) (state : Bool)
  | toggleAsync (setting : Setting) (state : Bool)
  | toggleCancel (task : TaskId)
  -- `_leave_suspend`
  | leaveSuspend (value : String)
  | wakeupDelay
  | suspendCancel (task : TaskId)
  | suspendSchedule (task : TaskId)
  -- `start`
  | start
  | connecting
  | requestingName
  | startingHelpers
  | subscribing
  -- `shutdown`
  | shutdown
  | shutdownAsync
  | shutdownCancel (task : TaskId)
  -- `helper.collect` or `helper.submit`, for one helper
  | helper (phase : Phase)
  deriving DecidableEq, Repr

/-- A suspended coroutine. `periodic` says that the task is a `_trigger_periodic()`. -/
structure Coro where
  periodic : Bool
  pc : Pc
  deriving DecidableEq, Repr

/-- The daemon's fields and what it reads and writes of the configuration.
Times are in milliseconds. `bus` and `connected` are those of the module `dbus`.
`runs` counts the calls of `runner.trigger`. -/
structure State where
  enabled : Bool
  inhibited : Bool
  serving : Bool
  triggerActive : Bool
  periodicTask : Option TaskId
  asyncTrigger : Option TaskId
  suspend : String
  nextTrigger : Int
  lastTrigger : Option Int
  lastApplistUpdate : Option Int
  bus : Bool
  connected : Bool
  iface : Bool
  runs : Nat
  deriving DecidableEq, Repr

abbrev Daemon := Loop Coro State

/-- What a coroutine's turn comes to. -/
abbrev Result := Daemon × Flow Pc

def startupDelay : Int := 20000
def interval : Int := 3600000
def applistUpdateInterval : Int := 86400000

/-- What happens to a helper in a phase: it is not there or not enabled, its
module or its configuration raises, or a task is started for it. A phase that is
off, or offline, has none of them. -/
inductive Plan where
  | skip
  | raises
  | task
  deriving DecidableEq, Repr

/-- What the world outside answers in a turn. -/
structure Env where
  now : Int := 0
  collect : List Plan := []
  submit : List Plan := []
  /-- `write_config` raises, after the app list, after a run, or in a toggle. -/
  applistWriteFails : Bool := false
  triggerWriteFails : Bool := false
  toggleWriteFails : Bool := false
  /-- The exception is one of the bus. -/
  dbusError : Bool := false
  /-- What a helper's task does: it awaits again, or it ends, with an exception or without. -/
  helperEnds : Option Bool := some false

/-- `enabled()` and not `inhibited()`. -/
def State.on (s : State) : Bool := s.enabled && !s.inhibited

def modify (f : State → State) (d : Daemon) : Daemon := { d with state := f d.state }

/-! ## The periodic task -/

/-- `self._periodic_task = asyncio.create_task(self._trigger_periodic())`. -/
def createPeriodic (d : Daemon) : Daemon :=
  modify (fun s => { s with periodicTask := some d.tasks.length })
    (createTask { periodic := true, pc := .periodic } d)

/-- `_cancel_periodic`, and what comes after it. -/
def cancelPeriodic (waits : TaskId → Pc) (d : Daemon) (rest : Daemon → Result) : Result :=
  match d.state.periodicTask with
  | none => rest d
  | some t =>
    match cancel recursionLimit t d.tasks with
    | none => (d, .done .error)
    | some r =>
      let d := { d with tasks := r.1 }
      match outcomeOf t d.tasks with
      | none => (d, .await (waits t) (.task t))
      | some .error => (d, .done .error)
      | some _ => rest (modify (fun s => { s with periodicTask := none }) d)

/-- `_cancel_periodic` when its `await` gives an outcome. -/
def cancelledPeriodic (o : Outcome) (d : Daemon) (rest : Daemon → Result) : Result :=
  match o with
  | .error => (d, .done .error)
  | _ => rest (modify (fun s => { s with periodicTask := none }) d)

/-- `_update_schedule`, and what comes after it. -/
def updateSchedule (waits : TaskId → Pc) (d : Daemon) (rest : Daemon → Result) : Result :=
  if !d.state.on then cancelPeriodic waits d rest
  else if d.state.periodicTask = none then rest (createPeriodic d)
  else rest d

/-! ## A run -/

/-- The tasks for the helpers of a phase, and whether the loop over them raised. -/
def startHelpers (phase : Phase) : List Plan → Daemon → Daemon × List TaskId × Bool
  | [], d => (d, [], false)
  | .skip :: plans, d => startHelpers phase plans d
  | .raises :: _, d => (d, [], true)
  | .task :: plans, d =>
    let r := startHelpers phase plans (createTask { periodic := false, pc := .helper phase } d)
    (r.1, d.tasks.length :: r.2.1, r.2.2)

/-- The end of `_trigger`. -/
def release (d : Daemon) : Result :=
  (modify (fun s => { s with triggerActive := false, asyncTrigger := none }) d, .done .ok)

/-- `task.cancel()` and `await task` of the periodic task that was replaced. -/
def replace (task : TaskId) (d : Daemon) : Result :=
  match cancel recursionLimit task d.tasks with
  | none => (d, .done .error)
  | some r =>
    let d := { d with tasks := r.1 }
    match outcomeOf task d.tasks with
    | none => (d, .await (.replacing task) (.task task))
    | some .error => (d, .done .error)
    | some _ => release d

/-- `_trigger` after `runner.trigger`. -/
def afterRun (env : Env) (d : Daemon) : Result :=
  let d := modify (fun s => { s with lastTrigger := some env.now }) d
  if env.triggerWriteFails then (d, .done .error)
  else
    let d := modify (fun s => { s with nextTrigger := env.now + interval }) d
    let task := d.state.periodicTask
    let d := if d.state.serving then createPeriodic d else d
    match task with
    | none => release d
    | some task => replace task d

/-- `runner.submit` in `runner.trigger`, which catches what it raises. -/
def runSubmit (env : Env) (d : Daemon) : Result :=
  let r := startHelpers .submit env.submit d
  if r.2.2 ∨ r.2.1 = [] then afterRun env r.1 else (r.1, .await .submitting (.all r.2.1))

/-- `runner.collect` in `runner.trigger`, which catches what it raises. -/
def runCollect (env : Env) (d : Daemon) : Result :=
  let r := startHelpers .collect env.collect d
  if r.2.2 ∨ r.2.1 = [] then runSubmit env r.1 else (r.1, .await .collecting (.all r.2.1))

/-- `_trigger`. -/
def innerTrigger (env : Env) (d : Daemon) : Result :=
  if !d.state.on ∨ d.state.triggerActive then
    (modify (fun s => { s with asyncTrigger := none }) d, .done .ok)
  else runCollect env (modify (fun s => { s with triggerActive := true, runs := s.runs + 1 }) d)

/-- The end of `trigger` after `await stored_coro`: the lock should be free. -/
def storedEnded (d : Daemon) : Result := (d, .done (if d.state.triggerActive then .error else .ok))

/-- `trigger`. -/
def trigger (env : Env) (wait : Bool) (d : Daemon) : Result :=
  if !d.state.on then (d, .done .ok)
  else if d.state.triggerActive then
    if !wait then (d, .done .ok)
    else
      match d.state.asyncTrigger.or d.state.periodicTask with
      | none => (d, .done .ok)
      | some t =>
        match outcomeOf t d.tasks with
        | none => (d, .await .awaitingStored (.task t))
        | some .ok => storedEnded d
        | some o => (d, .done o)
  else
    match d.state.asyncTrigger with
    | some t =>
      if !wait then (d, .done .ok)
      else
        match outcomeOf t d.tasks with
        | none => (d, .await .awaitingAsync (.task t))
        | some o => (d, .done o)
    | none =>
      if wait then innerTrigger env d
      else
        (modify (fun s => { s with asyncTrigger := some d.tasks.length })
          (createTask { periodic := false, pc := .asyncTrigger } d), .done .ok)

/-! ## `_trigger_periodic` -/

def afterUpdate (env : Env) (d : Daemon) : Result :=
  if !d.state.serving then (d, .done .ok) else trigger env true d

def afterSleep (env : Env) (d : Daemon) : Result :=
  if d.state.lastApplistUpdate.getD 0 + applistUpdateInterval ≤ env.now then (d, .await .updating .external)
  else afterUpdate env d

def triggerPeriodic (env : Env) (d : Daemon) : Result :=
  if 0 < d.state.nextTrigger - env.now then (d, .await .sleeping .external) else afterSleep env d

/-- `_trigger_periodic` after `update_app_list`. -/
def applistUpdated (env : Env) (d : Daemon) : Result :=
  let d := modify (fun s => { s with lastApplistUpdate := some env.now }) d
  if env.applistWriteFails then (d, .done .error) else afterUpdate env d

/-! ## `enable` and `inhibit` -/

def State.setting (s : State) : Setting → Bool
  | .enable => s.enabled
  | .inhibit => s.inhibited

def State.set (s : State) : Setting → Bool → State
  | .enable, state => { s with enabled := state }
  | .inhibit, state => { s with inhibited := state }

/-- The value that stops the daemon. -/
def Setting.stops : Setting → Bool → Bool
  | .enable, state => !state
  | .inhibit, state => state

/-- `emit_properties_changed`, once the interface exists. -/
def emit (d : Daemon) : Result := (d, .done (if d.state.iface then .ok else .error))

def writeSetting (env : Env) (setting : Setting) (state : Bool) (d : Daemon) : Result :=
  let d := modify (fun s => s.set setting state) d
  if env.toggleWriteFails then (d, .done .error) else updateSchedule .toggleCancel d emit

/-- `enable` or `inhibit`. -/
def toggle (env : Env) (setting : Setting) (state : Bool) (d : Daemon) : Result :=
  if d.state.setting setting = state then (d, .done .ok)
  else if setting.stops state then
    match d.state.asyncTrigger with
    | none => writeSetting env setting state d
    | some t =>
      match outcomeOf t d.tasks with
      | none => (d, .await (.toggleAsync setting state) (.task t))
      | some .ok => writeSetting env setting state d
      | some o => (d, .done o)
  else writeSetting env setting state d

/-! ## `_leave_suspend`, `start` and `shutdown` -/

def leaveSuspend (value : String) (d : Daemon) : Result :=
  if value = d.state.suspend then (d, .done .ok)
  else
    let d := modify (fun s => { s with suspend := value }) d
    if value = "inactive" then
      if d.state.triggerActive then (d, .done .ok) else (d, .await .wakeupDelay .external)
    else (d, .done .ok)

/-- `_leave_suspend` after `_cancel_periodic`. -/
def reschedule (d : Daemon) : Result := updateSchedule .suspendSchedule d fun d => (d, .done .ok)

/-- When the periodic task of a started daemon is due. -/
def firstTrigger (env : Env) (lastTrigger : Option Int) : Int :=
  let first := env.now + startupDelay
  match lastTrigger with
  | none => first
  | some last => if last + interval > first then last + interval else first

/-- `start` from `dbus.connect` on. -/
def connect (d : Daemon) : Result :=
  if d.state.connected then (d, .await .requestingName .external)
  else (modify (fun s => { s with bus := true }) d, .await .connecting .external)

def start (env : Env) (d : Daemon) : Result :=
  if d.state.serving then (d, .done .ok)
  else
    let d := modify (fun s => { s with serving := true, nextTrigger := firstTrigger env s.lastTrigger }) d
    if d.state.on then connect (createPeriodic d) else connect d

/-- The end of `shutdown`: what was exported is taken back. -/
def unexport (d : Daemon) : Result := (d, .done (if d.state.bus && !d.state.iface then .error else .ok))

/-- `shutdown` after the asynchronous trigger. -/
def shutdownPeriodic (d : Daemon) : Result := cancelPeriodic .shutdownCancel d unexport

def shutdown (d : Daemon) : Result :=
  let d := modify (fun s => { s with serving := false }) d
  match d.state.asyncTrigger with
  | none => shutdownPeriodic d
  | some t =>
    match outcomeOf t d.tasks with
    | none => (d, .await .shutdownAsync (.task t))
    | some .ok => shutdownPeriodic (modify (fun s => { s with asyncTrigger := none }) d)
    | some o => (d, .done o)

/-! ## Turns -/

/-- The turn of a coroutine whose `await` gives an outcome. -/
def turn (env : Env) (pc : Pc) (o : Outcome) (d : Daemon) : Result :=
  match pc, o with
  | .periodic, .ok => triggerPeriodic env d
  | .sleeping, .ok => afterSleep env d
  | .updating, .ok => applistUpdated env d
  | .trigger wait, .ok => trigger env wait d
  | .awaitingStored, .ok => storedEnded d
  | .asyncTrigger, .ok => innerTrigger env d
  -- `runner.trigger` catches exceptions, but not `CancelledError`
  | .collecting, .ok | .collecting, .error => runSubmit env d
  | .submitting, .ok | .submitting, .error => afterRun env d
  | .replacing _, .ok | .replacing _, .cancelled => release d
  | .toggle setting state, .ok => toggle env setting state d
  | .toggleAsync setting state, .ok => writeSetting env setting state d
  | .toggleCancel _, o => cancelledPeriodic o d emit
  | .leaveSuspend value, .ok => leaveSuspend value d
  | .wakeupDelay, .ok => cancelPeriodic .suspendCancel d reschedule
  | .suspendCancel _, o => cancelledPeriodic o d reschedule
  | .suspendSchedule _, o => cancelledPeriodic o d fun d => (d, .done .ok)
  | .start, .ok => start env d
  | .connecting, .ok => (modify (fun s => { s with connected := true }) d, .await .requestingName .external)
  | .requestingName, .ok => (modify (fun s => { s with iface := true }) d, .await .startingHelpers .external)
  | .requestingName, .error =>
    if env.dbusError then (modify (fun s => { s with iface := true }) d, .await .startingHelpers .external)
    else (d, .done .error)
  | .startingHelpers, .ok => (d, .await .subscribing .external)
  | .subscribing, .error => (d, .done (if env.dbusError then .ok else .error))
  | .shutdown, .ok => shutdown d
  | .shutdownAsync, .ok => shutdownPeriodic (modify (fun s => { s with asyncTrigger := none }) d)
  | .shutdownCancel _, o => cancelledPeriodic o d unexport
  | .helper phase, .ok | .helper phase, .error =>
    match env.helperEnds with
    | none => (d, .await (.helper phase) .external)
    | some raises => (d, .done (if raises then .error else .ok))
  | _, o => (d, .done o)

/-- The coroutine goes on as the same task. -/
def run (env : Env) (c : Coro) (o : Outcome) (d : Daemon) : Daemon × Flow Coro :=
  let r := turn env c.pc o d
  (r.1, match r.2 with
    | .await pc w => .await { c with pc := pc } w
    | .done o => .done o)

/-! ## The system -/

/-- A call from outside, in a task of its own. -/
inductive Call where
  | trigger (wait : Bool)
  | toggle (setting : Setting) (state : Bool)
  | leaveSuspend (value : String)
  | start
  | shutdown
  deriving DecidableEq, Repr

def Call.pc : Call → Pc
  | .trigger wait => .trigger wait
  | .toggle setting state => .toggle setting state
  | .leaveSuspend value => .leaveSuspend value
  | .start => .start
  | .shutdown => .shutdown

/-- What a task awaits from outside may raise. A sleep does not. -/
def Pc.mayFail : Pc → Bool
  | .sleeping | .wakeupDelay => false
  | _ => true

inductive Event where
  | call (c : Call)
  | complete (t : TaskId) (fails : Bool)
  | resume (t : TaskId) (env : Env)

def next : Event → Daemon → Option Daemon
  | .call c, d => some (createTask { periodic := false, pc := c.pc } d)
  | .complete t fails, d =>
    if fails ∧ ¬ (d.tasks[t]?.any fun task => task.coro.pc.mayFail) then none
    else complete t (if fails then .error else .ok) d
  | .resume t env, d => resume (run env) t d

/-- A daemon that is not started yet, with the settings of its configuration. -/
def init (enabled inhibited : Bool) (lastTrigger lastApplistUpdate : Option Int) : Daemon where
  tasks := []
  state :=
    { enabled := enabled, inhibited := inhibited, serving := false, triggerActive := false, periodicTask := none
      asyncTrigger := none, suspend := "inactive", nextTrigger := 0, lastTrigger := lastTrigger
      lastApplistUpdate := lastApplistUpdate, bus := false, connected := false, iface := false, runs := 0 }

/-- The daemon's runs: every order of calls, answers and turns. -/
abbrev DaemonRun (d : Daemon) : List (Daemon × Event) → Daemon → Prop := Run (fun d e d' => next e d = some d') d

end LogSubmitter.Daemon

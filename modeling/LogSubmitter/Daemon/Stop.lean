import LogSubmitter.Daemon.Lock
/-!
# Stopping the daemon

`enable(False)` and `inhibit(True)` wait for the asynchronous trigger and cancel
the periodic task. A run that a D-Bus caller waits for goes on, and so do the
tasks of helpers that a cancelled run has started.
-/
namespace LogSubmitter.Daemon

open Lib Lib.Asyncio

/-- This turn writes a setting, and stops the daemon. -/
def stopping (d : Daemon) : Pc → Outcome → Bool
  | .toggle setting state, .ok =>
    setting.stops state && d.state.setting setting != state &&
      (d.state.asyncTrigger.isNone || (d.state.asyncTrigger.bind (outcomeOf · d.tasks)) == some .ok)
  | .toggleAsync setting state, .ok => setting.stops state && d.state.setting setting != state
  | _, _ => false

/-- When a call stops the daemon, no helper is at work, and a run that is in progress is that of
the periodic task, which the call cancels. -/
def StopsIdle (d : Daemon) : Event → Prop :=
  OnTurn (fun _ env pc o => stopping d pc o = true → env.toggleWriteFails = false →
    (∀ i, ¬ Helping d i) ∧ ∀ i, Running d i → d.state.periodicTask = some i) d

/-- In the step from `d`, the call of task `t` changed a setting, to a value that stops the daemon. -/
def StoppedIn (t : TaskId) (d : Daemon) (e : Event) : Prop :=
  ∃ env task d' setting state, e = .resume t env ∧ d.tasks[t]? = some task ∧ next e d = some d' ∧
    (task.coro.pc = .toggle setting state ∨ task.coro.pc = .toggleAsync setting state) ∧
    setting.stops state = true ∧ d.state.setting setting ≠ state ∧ d'.state.setting setting = state

/-- A call that stopped the daemon has returned, and the daemon has not been on since. -/
def Stopped (tr : List (Daemon × Event)) (d : Daemon) : Prop :=
  ∃ t tr₀ d₀ e tr₁, tr = tr₀ ++ (d₀, e) :: tr₁ ∧ StoppedIn t d₀ e ∧ (∀ p ∈ tr₁, p.1.state.on = false) ∧
    d.state.on = false ∧ outcomeOf t d.tasks = some .ok

/-! ## The step that stops it -/

/-- Task `i` gets `CancelledError` in its next turn. -/
def Doomed (d : Daemon) (i : TaskId) : Prop := ∃ task, d.tasks[i]? = some task ∧ task.due = some .cancelled

/-- Task `t` waits for task `i`. -/
def WaitsFor (d : Daemon) (t i : TaskId) : Prop :=
  ∃ task, d.tasks[t]? = some task ∧ task.status = .waiting (.task i)

/-- The call `t` has failed, or what it has left of a run is cancelled, and it waits for its end. -/
def Quits (t : TaskId) (d : Daemon) : Prop :=
  (∃ o, outcomeOf t d.tasks = some o ∧ o ≠ .ok) ∨
    (∀ i, ¬ Helping d i) ∧ ∀ i, Running d i → Doomed d i ∧ WaitsFor d t i

theorem on_of_stops {s : State} {setting : Setting} {state : Bool} (h : setting.stops state = true) :
    (s.set setting state).on = false := by
  cases setting <;> cases state <;> simp_all [Setting.stops, State.set, State.on]

/-- A toggle changes its setting only where it writes it. -/
theorem toggle_writes {env : Env} {setting : Setting} {state : Bool} {d : Daemon}
    (hs : setting.stops state = true) (hne : d.state.setting setting ≠ state)
    (hd : (toggle env setting state d).1.state.setting setting = state) :
    toggle env setting state d = writeSetting env setting state d ∧ stopping d (.toggle setting state) .ok = true := by
  revert hd
  simp only [toggle, hs, if_true, stopping, Bool.true_and, bne_iff_ne, ne_eq, hne, not_false_eq_true,
    Bool.and_eq_true, true_and]
  cases ha : d.state.asyncTrigger with
  | none => exact fun _ => ⟨rfl, rfl⟩
  | some u =>
    simp only
    cases ho : outcomeOf u d.tasks with
    | none => exact fun hd => absurd hd hne
    | some o => cases o <;> simp_all

/-- The turn in which the daemon is stopped fails, or finds nothing to cancel, or waits for the
periodic task it has cancelled. -/
inductive StopEnds (env : Env) (d : Daemon) (r : Result) : Prop
  | fails (hf : r.2 = .done .error) (ha : Adds (fun _ => False) d.tasks r.1.tasks)
  | idle (hw : env.toggleWriteFails = false) (o : Outcome) (hf : r.2 = .done o)
      (hp : ∀ p, d.state.periodicTask = some p → (outcomeOf p d.tasks).isSome = true)
      (ha : Adds (fun _ => False) d.tasks r.1.tasks)
  | cancels (hw : env.toggleWriteFails = false) (p : TaskId) (c : List (Asyncio.Task Coro) × Bool)
      (hp : d.state.periodicTask = some p) (hc : cancel recursionLimit p d.tasks = some c)
      (ht : r.1.tasks = c.1) (hf : r.2 = .await (.toggleCancel p) (.task p))

theorem writeSetting_stops {env : Env} {setting : Setting} {state : Bool} {d : Daemon}
    (hs : setting.stops state = true) : StopEnds env d (writeSetting env setting state d) := by
  have hoff := @on_of_stops d.state _ _ hs
  have hper : (d.state.set setting state).periodicTask = d.state.periodicTask := by cases setting <;> rfl
  simp only [writeSetting, updateSchedule, modify, hoff, Bool.not_false, if_true, cancelPeriodic, hper]
  cases hw : env.toggleWriteFails with
  | true => exact .fails rfl (.refl _ _)
  | false =>
    simp only [Bool.false_eq_true, if_false]
    cases hp : d.state.periodicTask with
    | none => exact .idle hw _ rfl (by rw [hp]; rintro p ⟨⟩) (.refl _ _)
    | some p =>
      simp only
      cases hc : cancel recursionLimit p d.tasks with
      | none => exact .fails rfl (.refl _ _)
      | some c =>
        have ha := cancel_adds (fun _ => False) hc
        simp only
        cases ho : outcomeOf p c.1 with
        | none => exact .cancels hw p c hp hc rfl rfl
        | some o =>
          have hsome : ∀ q, d.state.periodicTask = some q → (outcomeOf q d.tasks).isSome = true := by
            rw [hp]
            rintro q ⟨⟩
            rw [ha.outcomeOf_some ho]
            rfl
          cases o with
          | error => exact .fails rfl ha
          | ok => exact .idle hw _ rfl hsome ha
          | cancelled => exact .idle hw _ rfl hsome ha

theorem outcomeOf_of_done {env : Env} {t : TaskId} {task : Asyncio.Task Coro} {o o' : Outcome} {d d' : Daemon}
    (h : TurnOf env t task o d d') (hf : (turn env task.coro.pc o (unmark t d)).2 = .done o') :
    ∃ o'', outcomeOf t d'.tasks = some o'' ∧ (o'' = .ok → o' = .ok) := by
  obtain ⟨x, hg, hl⟩ := (h.turned _ (turn_adds env task.coro.pc o (unmark t d))).self
  simp only [run, hf, Landed] at hl
  obtain ⟨-, o'', hs, ho⟩ := hl
  exact ⟨o'', by rw [outcomeOf, hg, Option.bind_some, Task.outcome, hs], ho⟩

theorem stopping_unmark (t : TaskId) (d : Daemon) (pc : Pc) (o : Outcome) :
    stopping (unmark t d) pc o = stopping d pc o := by
  cases pc <;> cases o <;> simp only [stopping, outcomeOf_unmark] <;> rfl

/-- The turn that changed the setting is one that writes it. -/
theorem writes_of_changed {env : Env} {pc : Pc} {o : Outcome} {t : TaskId} {d : Daemon} {setting : Setting}
    {state : Bool} (hpc : pc = .toggle setting state ∨ pc = .toggleAsync setting state)
    (hs : setting.stops state = true) (hne : d.state.setting setting ≠ state)
    (hset : (turn env pc o (unmark t d)).1.state.setting setting = state) :
    turn env pc o (unmark t d) = writeSetting env setting state (unmark t d) ∧ stopping d pc o = true := by
  rcases hpc with rfl | rfl <;> cases o <;> try exact absurd hset hne
  · obtain ⟨hw, hst⟩ := toggle_writes hs (d := unmark t d) hne hset
    exact ⟨hw, stopping_unmark t d _ _ ▸ hst⟩
  · exact ⟨rfl, by simp [stopping, hs, hne]⟩

theorem Typed.running {d : Daemon} (hy : Typed d) {i : TaskId} {task : Asyncio.Task Coro} (hg : d.tasks[i]? = some task)
    (hp : task.coro.pc.running = true) (u : TaskId) : task.status ≠ .waiting (.task u) := by
  intro hs
  have hw := hy i task _ hg hs
  revert hp hw
  cases task.coro.pc <;>
    first | exact fun h => absurd h Bool.false_ne_true | exact fun _ h => absurd h Bool.false_ne_true

section
variable {env : Env} {t : TaskId} {task : Asyncio.Task Coro} {o : Outcome} {d d' : Daemon}

/-- A turn that adds no task: what of the others is live after it was so before. -/
theorem TurnOf.live_before (h : TurnOf env t task o d d')
    (ha : Adds (fun _ => False) (unmark t d).tasks (turn env task.coro.pc o (unmark t d)).1.tasks) {p : Pc → Bool}
    {i : TaskId} (hi : i ≠ t) (hl : LiveAt p d' i) : LiveAt p d i :=
  h.live_others (q := fun _ => false) (fun _ _ => rfl) (ha.mono fun _ hf => hf.elim) hi hl

/-- A task whose turn awaits at no place in `p` is not live there after it. -/
theorem TurnOf.ne_of_live (h : TurnOf env t task o d d') {p : Pc → Bool}
    (hp : ∀ pc w, (turn env task.coro.pc o (unmark t d)).2 = .await pc w → p pc = false) {i : TaskId}
    (hl : LiveAt p d' i) : i ≠ t := by
  rintro rfl
  obtain ⟨pc, w, hf, hpc⟩ := (h.live_self (turn_adds env task.coro.pc o (unmark i d))).1 hl
  rw [hp pc w hf] at hpc
  cases hpc

/-- A run that the turn cancels is ready, or waits for its helpers: it gets the cancellation itself. -/
theorem TurnOf.doomed_of_cancels (h : TurnOf env t task o d d') (hy : Typed d) {p : TaskId}
    {c : List (Asyncio.Task Coro) × Bool} (hc : cancel recursionLimit p (unmark t d).tasks = some c)
    (htasks : (turn env task.coro.pc o (unmark t d)).1.tasks = c.1) (hp : p ≠ t) (hl : Running d p) : Doomed d' p := by
  obtain ⟨x, hx, hd, hr⟩ := hl
  obtain ⟨x', o', hx', hs', hm⟩ := cancel_marks hc (by rw [unmark_get_ne hp, hx]) hd (hy.running hx hr)
  obtain ⟨x'', hx'', hmean⟩ := h.settled hp (htasks ▸ hx')
  exact ⟨x'', hx'', hmean.due (Task.due_cancelled hs' hm)⟩

theorem TurnOf.waitsFor_of_await (h : TurnOf env t task o d d') {pc : Pc} {p : TaskId}
    (hf : (turn env task.coro.pc o (unmark t d)).2 = .await pc (.task p)) (hp : p ≠ t) : WaitsFor d' t p := by
  obtain ⟨x, hx, hl⟩ := (h.turned _ (turn_adds env task.coro.pc o (unmark t d))).self
  simp only [run, hf, Landed] at hl
  obtain ⟨-, hs | ⟨_, -, hown⟩⟩ := hl
  · exact ⟨x, hx, hs⟩
  · exact absurd (hown p rfl) hp

/-- The turn in which the call writes the setting, with no helper at work and no run but the periodic task's. -/
theorem quits_of_ends (hy : Typed d) (h : TurnOf env t task o d d')
    (hquiet : env.toggleWriteFails = false →
      (∀ i, ¬ Helping d i) ∧ ∀ i, Running d i → d.state.periodicTask = some i)
    (hends : StopEnds env (unmark t d) (turn env task.coro.pc o (unmark t d))) : Quits t d' := by
  cases hends with
  | fails hf ha =>
    obtain ⟨o', ho', hok⟩ := outcomeOf_of_done h hf
    exact .inl ⟨o', ho', fun h => by cases hok h⟩
  | idle hw o' hf hp ha =>
    obtain ⟨hhelp, hrun⟩ := hquiet hw
    have before : ∀ {p : Pc → Bool} {i : TaskId}, LiveAt p d' i → LiveAt p d i := fun hl =>
      h.live_before ha (h.ne_of_live (fun pc w ha => by rw [hf] at ha; cases ha) hl) hl
    refine .inr ⟨fun i hl => hhelp i (before hl), fun i hl => ?_⟩
    -- What is stored has ended, so no run is in progress.
    have hsome := hp i (hrun i (before hl))
    rw [outcomeOf_unmark, (before hl).outcomeOf] at hsome
    cases hsome
  | cancels hw p c hp hc htasks hf =>
    obtain ⟨hhelp, hrun⟩ := hquiet hw
    have ha : Adds (fun _ => False) (unmark t d).tasks (turn env task.coro.pc o (unmark t d)).1.tasks := by
      rw [htasks]
      exact cancel_adds _ hc
    have apart : ∀ {q : Pc → Bool} {i : TaskId}, q (.toggleCancel p) = false → LiveAt q d' i → i ≠ t := fun hq hl =>
      h.ne_of_live (fun pc w ha => by rw [hf] at ha; cases ha; exact hq) hl
    refine .inr ⟨fun i hl => hhelp i (h.live_before ha (apart rfl hl) hl), fun i hl => ?_⟩
    have hit := apart rfl hl
    have hl' := h.live_before ha hit hl
    obtain rfl : p = i := Option.some.inj (hp.symm.trans (hrun i hl'))
    exact ⟨h.doomed_of_cancels hy hc htasks hit hl', h.waitsFor_of_await hf hit⟩

end

/-- The step in which a call stops a daemon that is idle, or runs in the periodic task only. -/
theorem quits_of_stopped {t : TaskId} {d d' : Daemon} {e : Event} (hy : Typed d) (hi : StopsIdle d e)
    (hs : StoppedIn t d e) (h : next e d = some d') : Quits t d' := by
  obtain ⟨env, task, d₁, setting, state, rfl, hg, hn, hpc, hstops, hne, hset⟩ := hs
  rw [h, Option.some.injEq] at hn
  subst hn
  cases stepOf_next h with
  | call c he _ => cases he
  | complete _ _ he _ _ => cases he
  | turn t' env' task' o he ht =>
    cases he
    have hgt := ht.get
    rw [hg, Option.some.injEq] at hgt
    subst hgt
    rw [ht.state] at hset
    obtain ⟨hturn, hstop⟩ := writes_of_changed hpc hstops hne hset
    have hends := @writeSetting_stops env setting state (unmark t d) hstops
    rw [← hturn] at hends
    exact quits_of_ends hy ht (ht.onTurn hi hstop) hends

/-! ## While the daemon is off -/

/-- In a run, or a helper's. -/
def Pc.working (pc : Pc) : Bool := pc.running || pc.isHelper

theorem Pc.working_of_running {pc : Pc} (h : pc.running = true) : pc.working = true := by
  rw [working, h, Bool.true_or]

theorem Pc.working_of_isHelper {pc : Pc} (h : pc.isHelper = true) : pc.working = true := by
  rw [working, h, Bool.or_true]

theorem Pc.idle_of_working {pc : Pc} (h : pc.working = true) : pc.idle = false := by
  cases pc <;> first | rfl | cases h

/-- A turn that gives the lock back, or ends a cancelled run. -/
theorem turn_ends {env : Env} {pc : Pc} {o : Outcome} {d : Daemon} (hp : pc.inside = true)
    (hr : pc.running = true → o = .cancelled) :
    (turn env pc o d).1.tasks = d.tasks ∧ ∃ o', (turn env pc o d).2 = .done o' := by
  cases pc <;> try exact absurd hp Bool.false_ne_true
  case collecting => rw [hr rfl]; exact ⟨rfl, _, rfl⟩
  case submitting => rw [hr rfl]; exact ⟨rfl, _, rfl⟩
  case replacing => cases o <;> exact ⟨rfl, _, rfl⟩

/-- After a step of a daemon that is off, with no helper at work and its runs cancelled, only what
has not taken its turn is in a run, or a helper's. -/
theorem working_next {e : Event} {d d' : Daemon} (h : next e d = some d') (hoff : d.state.on = false)
    (hh : ∀ i, ¬ Helping d i) (hr : ∀ i, Running d i → Doomed d i) {i : TaskId} (hl : LiveAt Pc.working d' i) :
    LiveAt Pc.working d i ∧ ∀ env, e ≠ .resume i env := by
  cases stepOf_next h with
  | call c he hd =>
    subst hd he
    -- No call starts in a run.
    refine ⟨live_of_created ?_ hl, by rintro env ⟨⟩⟩
    cases c <;> rfl
  | complete t fails he hs ha =>
    subst he
    exact ⟨live_of_completed ha hl, by rintro env ⟨⟩⟩
  | turn t env task o he ht =>
    have hout : ∀ q : Pc → Bool, (∀ pc, pc.working = true → q pc = false) →
        Adds (fun c : Coro => q c.pc = true) (unmark t d).tasks (turn env task.coro.pc o (unmark t d)).1.tasks →
        (∀ pc w, (turn env task.coro.pc o (unmark t d)).2 = .await pc w → pc.working = false) →
        LiveAt Pc.working d i ∧ ∀ env, e ≠ .resume i env := by
      intro q hq ha hf
      have hne : i ≠ t := by
        rintro rfl
        obtain ⟨pc, w, hr, hp⟩ := (ht.live_self ha).1 hl
        rw [hf pc w hr] at hp
        cases hp
      exact ⟨ht.live_others hq ha hne hl, fun env' he' => hne (by rw [he] at he'; cases he'; rfl)⟩
    cases turnCase env task.coro.pc o (unmark t d) with
    | outside _ ho =>
      refine hout Pc.idle (fun _ => Pc.idle_of_working) ho.frame.adds fun pc w hf => ?_
      by_contra hw
      have hidle := ho.flow pc w hf
      rw [Pc.idle_of_working (Bool.not_eq_false _ ▸ hw)] at hidle
      cases hidle
    | enters _ _ _ hon _ _ =>
      exact absurd hon (by rw [show (unmark t d).state = d.state from rfl, hoff]; exact Bool.false_ne_true)
    | helper hp _ _ => exact absurd (ht.live hp) (hh t)
    | inside hp _ =>
      -- The runs are cancelled: the turn ends the coroutine.
      have hcancel : task.coro.pc.running = true → o = .cancelled := by
        intro hrun
        obtain ⟨x, hg, hdue⟩ := hr t (ht.live hrun)
        rw [ht.get, Option.some.injEq] at hg
        subst hg
        rw [ht.due] at hdue
        exact Option.some.inj hdue
      obtain ⟨htasks, o', hf⟩ := @turn_ends env _ o (unmark t d) hp hcancel
      refine hout (fun _ => false) (fun _ _ => rfl) ?_ fun pc w hf' => by rw [hf] at hf'; cases hf'
      rw [htasks]
      exact .refl _ _

theorem quits_next {t : TaskId} {e : Event} {d d' : Daemon} (hq : Quits t d) (hoff : d.state.on = false)
    (h : next e d = some d') : Quits t d' := by
  rcases hq with ⟨o, ho, hne⟩ | ⟨hh, hr⟩
  · exact .inl ⟨o, next_outcomeOf h ho, hne⟩
  · -- Whatever is in a run, or a helper's, was there before, at the same place.
    have hback : ∀ p : Pc → Bool, (∀ pc, p pc = true → pc.working = true) → ∀ i, LiveAt p d' i →
        LiveAt p d i ∧ ∀ env, e ≠ .resume i env := by
      intro p hp i hl
      obtain ⟨⟨x, hg, hd, -⟩, hi⟩ := working_next h hoff hh (fun i hi => (hr i hi).1) (hl.imp hp)
      obtain ⟨x', hg', hm⟩ := next_meanwhile h hg hi
      obtain ⟨y, hy, -, hp'⟩ := hl
      rw [hg', Option.some.injEq] at hy
      subst hy
      exact ⟨⟨x, hg, hd, hm.coro ▸ hp'⟩, hi⟩
    refine .inr ⟨fun i hl => ?_, fun i hl => ?_⟩
    · exact hh i (hback Pc.isHelper (fun _ => Pc.working_of_isHelper) i hl).1
    · obtain ⟨hl', hi⟩ := hback Pc.running (fun _ => Pc.working_of_running) i hl
      obtain ⟨⟨x, hx, hdue⟩, y, hy, hw⟩ := hr i hl'
      obtain ⟨x', hx', hmx⟩ := next_meanwhile h hx hi
      have ht : ∀ env, e ≠ .resume t env := by
        rintro env rfl
        obtain ⟨z, o, hz, hdz, -⟩ := resume_turned h
        rw [hy, Option.some.injEq] at hz
        subst hz
        rw [Task.due, hw] at hdz
        cases hdz
      obtain ⟨y', hy', hmy⟩ := next_meanwhile h hy ht
      exact ⟨⟨x', hx', hmx.due hdue⟩, y', hy', hmy.waiting hw hl.outcomeOf⟩

theorem Quits.quiet {t : TaskId} {d : Daemon} (hq : Quits t d) (ht : outcomeOf t d.tasks = some .ok) :
    (∀ i, ¬ Running d i) ∧ ∀ i, ¬ Helping d i := by
  rcases hq with ⟨o, ho, hne⟩ | ⟨hh, hr⟩
  · rw [ht, Option.some.injEq] at ho
    exact absurd ho.symm hne
  · refine ⟨fun i hi => ?_, hh⟩
    obtain ⟨-, y, hy, hw⟩ := hr i hi
    rw [outcomeOf, hy, Option.bind_some, Task.outcome, hw] at ht
    cases ht

/-- In every run in which the daemon is stopped only when no helper is at work and
no run but the periodic task's is in progress: once a call that stopped it has
returned, and until it is on again, no run is in progress, no helper is at work,
and no helper's task takes a step. -/
theorem stopped_quiet {enabled inhibited : Bool} {lastTrigger lastApplistUpdate : Option Int}
    {tr : List (Daemon × Event)} {d : Daemon}
    (h : DaemonRun (init enabled inhibited lastTrigger lastApplistUpdate) tr d)
    (hi : ∀ p ∈ tr, StopsIdle p.1 p.2) (hs : Stopped tr d) :
    (∀ i, ¬ Running d i) ∧ (∀ i, ¬ Helping d i) ∧
      ∀ i env task, d.tasks[i]? = some task → task.coro.pc.isHelper = true → next (.resume i env) d = none := by
  obtain ⟨t, tr₀, d₀, e, tr₁, rfl, hst, hoff, -, hret⟩ := hs
  obtain ⟨d₁, h₀, hstep, h₁⟩ := h.split
  have hq₁ : Quits t d₁ := quits_of_stopped (typed_run h₀) (hi (d₀, e) (by simp)) hst hstep
  have step : ∀ d e d', Quits t d → d.state.on = false → next e d = some d' → Quits t d' :=
    fun _ _ _ hq hoff hs => quits_next hq hoff hs
  obtain ⟨hr, hh⟩ := (h₁.inv _ step hq₁ hoff).quiet hret
  refine ⟨hr, hh, fun i env task hg hp => ?_⟩
  by_contra hne
  obtain ⟨d', hd'⟩ := Option.ne_none_iff_exists'.1 hne
  obtain ⟨task', o, hg', hdue, -⟩ := resume_turned hd'
  rw [hg, Option.some.injEq] at hg'
  subst hg'
  exact hh i ⟨task, hg, task.isDone_of_due hdue, hp⟩

theorem stoppedIn_of_turn {t : TaskId} {env : Env} {task : Asyncio.Task Coro} {setting : Setting} {state : Bool}
    {d d' : Daemon} (hg : d.tasks[t]? = some task) (h : next (.resume t env) d = some d')
    (hpc : task.coro.pc = .toggle setting state ∨ task.coro.pc = .toggleAsync setting state)
    (hs : setting.stops state = true) (hne : d.state.setting setting ≠ state)
    (hset : d'.state.setting setting = state) : StoppedIn t d (.resume t env) :=
  ⟨env, task, d', setting, state, rfl, hg, h, hpc, hs, hne, hset⟩

/-- The asynchronous trigger runs, and `enable(False)` waits for it. -/
def triggeredThenDisabled : List Event :=
  started ++ [.call (.trigger false), .resume 2 {}, .resume 3 oneHelper, .call (.toggle .enable false), .resume 5 {},
    .resume 4 {}, .resume 3 oneHelper, .resume 6 {}, .resume 3 {}, .resume 1 {}, .resume 3 {}]

/-- No step of the run stops the daemon. -/
abbrev NoneStops (tr : List (Daemon × Event)) : Prop :=
  ∀ p ∈ tr, OnTurn (fun _ _ pc o => stopping p.1 pc o = false) p.1 p.2

theorem NoneStops.idle {tr : List (Daemon × Event)} (h : NoneStops tr) : ∀ p ∈ tr, StopsIdle p.1 p.2 := by
  rintro ⟨d, e⟩ hp
  cases e with
  | call | complete => exact trivial
  | resume t env => exact fun task hg o ho hs => by rw [h _ hp task hg o ho] at hs; cases hs

set_option synthInstance.maxSize 512 in
theorem triggered_then_disabled_quiet : ∃ tr d, DaemonRun (init true false none none) tr d ∧ d.state.runs = 1 ∧
    Stopped tr d ∧ (∀ i, ¬ Running d i) ∧ (∀ i, ¬ Helping d i) ∧
      ∀ i env task, d.tasks[i]? = some task → task.coro.pc.isHelper = true → next (.resume i env) d = none := by
  obtain ⟨⟨tr₀, d₀⟩, hr₀, hi₀, hidle, task, hg, hpc, hon, d₁, hd₁, hset, ⟨tr₁, d⟩, hr₁, hi₁, hoff, hoff', hret, hruns⟩ :
      ∃ r ∈ runEvents next triggeredThenDisabled (init true false none none), NoneStops r.1 ∧
        (∀ task ∈ r.2.tasks, task.isDone = false → task.coro.pc.working = false) ∧
        ∃ task ∈ r.2.tasks[5]?, task.coro.pc = .toggleAsync .enable false ∧ r.2.state.enabled = true ∧
        ∃ d₁ ∈ next (.resume 5 {}) r.2, d₁.state.enabled = false ∧
        ∃ r' ∈ runEvents next [.resume 7 {}, .resume 5 {}] d₁, NoneStops r'.1 ∧
          (∀ p ∈ r'.1, p.1.state.on = false) ∧ r'.2.state.on = false ∧
          outcomeOf 5 r'.2.tasks = some .ok ∧ r'.2.state.runs = 1 := by decide
  have hne : d₀.state.setting .enable ≠ false := by rw [State.setting, hon]; exact Bool.noConfusion
  have hs : Stopped (tr₀ ++ (d₀, .resume 5 {}) :: tr₁) d :=
    ⟨5, tr₀, d₀, _, tr₁, rfl, stoppedIn_of_turn hg hd₁ (.inr hpc) rfl hne hset, hoff, hoff', hret⟩
  have hrun : DaemonRun (init true false none none) (tr₀ ++ (d₀, .resume 5 {}) :: tr₁) d :=
    (run_of_events hr₀).trans (.of_cons hd₁ (run_of_events hr₁))
  have hi : ∀ p ∈ tr₀ ++ (d₀, .resume 5 {}) :: tr₁, StopsIdle p.1 p.2 := by
    intro p hp
    rcases List.mem_append.1 hp with hp | hp
    · exact hi₀.idle p hp
    · rcases List.mem_cons.1 hp with rfl | hp
      · have hnot : ∀ i, ¬ LiveAt Pc.working d₀ i := not_liveAt hidle
        exact fun _ _ _ _ _ _ => ⟨fun i hl => hnot i (hl.imp fun _ => Pc.working_of_isHelper),
          fun i hl => absurd (hl.imp fun _ => Pc.working_of_running) (hnot i)⟩
      · exact hi₁.idle p hp
  exact ⟨_, d, hrun, hruns, hs, stopped_quiet hrun hi hs⟩

/-- A D-Bus caller waits for its run; `enable(False)` cancels the periodic task, and returns. -/
def disabledInTrigger : List Event :=
  started ++ [.call (.trigger true), .resume 2 oneHelper, .call (.toggle .enable false)]

set_option synthInstance.maxSize 512 in
/-- The call has returned, and the helper goes on collecting. -/
theorem disabled_run_goes_on : ∃ tr d, DaemonRun (init true false none none) tr d ∧ Stopped tr d ∧
    ¬ ((∀ i, ¬ Running d i) ∧ (∀ i, ¬ Helping d i) ∧
      ∀ i env task, d.tasks[i]? = some task → task.coro.pc.isHelper = true → next (.resume i env) d = none) := by
  obtain ⟨⟨tr₀, d₀⟩, hr₀, task, hg, hpc, hon, d₁, hd₁, hset, ⟨tr₁, d⟩, hr₁, hoff, hoff', hret, helper, hh, hlive, hp⟩ :
      ∃ r ∈ runEvents next disabledInTrigger (init true false none none),
        ∃ task ∈ r.2.tasks[4]?, task.coro.pc = .toggle .enable false ∧ r.2.state.enabled = true ∧
        ∃ d₁ ∈ next (.resume 4 {}) r.2, d₁.state.enabled = false ∧
        ∃ r' ∈ runEvents next [.resume 1 {}, .resume 4 {}] d₁,
          (∀ p ∈ r'.1, p.1.state.on = false) ∧ r'.2.state.on = false ∧ outcomeOf 4 r'.2.tasks = some .ok ∧
          ∃ helper ∈ r'.2.tasks[3]?, helper.isDone = false ∧ helper.coro.pc.isHelper = true := by decide
  have hne : d₀.state.setting .enable ≠ false := by rw [State.setting, hon]; exact Bool.noConfusion
  exact ⟨_, d, (run_of_events hr₀).trans (.of_cons hd₁ (run_of_events hr₁)),
    ⟨4, tr₀, d₀, _, tr₁, rfl, stoppedIn_of_turn hg hd₁ (.inl hpc) rfl hne hset, hoff, hoff', hret⟩,
    fun h => h.2.1 3 ⟨helper, hh, hlive, hp⟩⟩

end LogSubmitter.Daemon

import LogSubmitter.Daemon.Lock
/-!
# Giving the lock back

`_trigger` has no `finally`: the lock is given back on its last line only. When
nothing raises between the guard and that line, the lock is free whenever no
task is between them, and the next trigger reaches `runner.trigger`.
-/
namespace LogSubmitter.Daemon

open Lib Lib.Asyncio

/-! ## Runs that reach their last line -/

/-- The phase starts no task that is waited for: a helper raises, or none has anything to do. -/
abbrev Waitless (plans : List Plan) : Prop := .raises ∈ plans ∨ .task ∉ plans

theorem startHelpers_raised {phase : Phase} {plans : List Plan} {d : Daemon}
    (h : (startHelpers phase plans d).2.2 = true) : .raises ∈ plans := by
  induction plans generalizing d with
  | nil => cases h
  | cons plan plans ih =>
    cases plan with
    | raises => exact List.mem_cons_self
    | skip => exact List.mem_cons_of_mem _ (ih h)
    | task => exact List.mem_cons_of_mem _ (ih h)

theorem startHelpers_empty {phase : Phase} {plans : List Plan} {d : Daemon}
    (h : (startHelpers phase plans d).2.1 = []) : Waitless plans := by
  induction plans generalizing d with
  | nil => exact .inr List.not_mem_nil
  | cons plan plans ih =>
    cases plan with
    | raises => exact .inl List.mem_cons_self
    | task => cases h
    | skip =>
      rcases ih h with hr | ht
      · exact .inl (List.mem_cons_of_mem _ hr)
      · exact .inr (by simpa using ht)

theorem startHelpers_waitless {phase : Phase} {plans : List Plan} {d : Daemon}
    (h : (startHelpers phase plans d).2.2 = true ∨ (startHelpers phase plans d).2.1 = []) : Waitless plans :=
  h.elim (fun hr => .inl (startHelpers_raised hr)) startHelpers_empty

/-- The stored periodic task has not ended with an exception, and does not wait in a circle. -/
def Replaceable (d : Daemon) : Prop :=
  ∀ p ∈ d.state.periodicTask, outcomeOf p d.tasks ≠ some .error ∧ (cancel recursionLimit p d.tasks).isSome = true

instance (d : Daemon) : Decidable (Replaceable d) :=
  inferInstanceAs (Decidable (∀ p ∈ d.state.periodicTask,
    outcomeOf p d.tasks ≠ some .error ∧ (cancel recursionLimit p d.tasks).isSome = true))

/-- The turn does not end with an exception or a cancellation. -/
def Survives (r : Result) : Prop := ∀ o, r.2 = .done o → o = .ok

theorem survives_release (d : Daemon) : Survives (release d) := by
  rintro o ⟨⟩
  rfl

theorem survives_await (d : Daemon) (pc : Pc) (w : Wait) : Survives (d, .await pc w) := by
  rintro o ⟨⟩

theorem survives_replace {p : TaskId} {d : Daemon} (he : outcomeOf p d.tasks ≠ some .error)
    (hc : (cancel recursionLimit p d.tasks).isSome = true) : Survives (replace p d) := by
  unfold replace
  split
  · rename_i hn
    rw [hn] at hc
    cases hc
  · rename_i r hr
    simp only
    split
    · exact survives_await _ _ _
    · rename_i ho
      exact absurd ((cancel_adds (fun _ => True) hr).outcomeOf_some ho) he
    · exact survives_release _

theorem Replaceable.of_adds {d d' : Daemon} {p : Coro → Prop} (h : Replaceable d) (ha : Adds p d.tasks d'.tasks)
    (hp : d'.state.periodicTask = d.state.periodicTask) : Replaceable d' := by
  intro q hq
  obtain ⟨he, hc⟩ := h q (hp ▸ hq)
  exact ⟨fun ho => he (ha.outcomeOf_some ho), ha.cancel_isSome hc⟩

theorem startHelpers_periodicTask (phase : Phase) (plans : List Plan) (d : Daemon) :
    (startHelpers phase plans d).1.state.periodicTask = d.state.periodicTask := by
  induction plans generalizing d with
  | nil => rfl
  | cons plan plans ih =>
    cases plan with
    | skip => exact ih d
    | raises => rfl
    | task => exact ih _

theorem survives_afterRun {env : Env} {d : Daemon} (hw : env.triggerWriteFails = false) (hr : Replaceable d) :
    Survives (afterRun env d) := by
  unfold afterRun
  simp only [hw, Bool.false_eq_true, if_false]
  split
  · exact survives_release _
  · rename_i p hp
    obtain ⟨he, hc⟩ := hr p hp
    split
    · have ha := createTask_adds (fun _ => True) trivial (c := { periodic := true, pc := .periodic }) d
      exact survives_replace (fun ho => he (ha.outcomeOf_some ho)) (ha.cancel_isSome hc)
    · exact survives_replace he hc

theorem survives_runSubmit {env : Env} {d : Daemon}
    (h : Waitless env.submit → env.triggerWriteFails = false ∧ Replaceable d) : Survives (runSubmit env d) := by
  unfold runSubmit
  simp only
  split
  · rename_i hw
    obtain ⟨hf, hr⟩ := h (startHelpers_waitless hw)
    exact survives_afterRun hf (hr.of_adds (continues_startHelpers .submit env.submit d).adds
      (startHelpers_periodicTask .submit env.submit d))
  · exact survives_await _ _ _

theorem survives_runCollect {env : Env} {d : Daemon}
    (h : Waitless env.collect → Waitless env.submit → env.triggerWriteFails = false ∧ Replaceable d) :
    Survives (runCollect env d) := by
  unfold runCollect
  simp only
  split
  · rename_i hw
    refine survives_runSubmit fun hs => ?_
    obtain ⟨hf, hr⟩ := h (startHelpers_waitless hw) hs
    exact ⟨hf, hr.of_adds (continues_startHelpers .collect env.collect d).adds
      (startHelpers_periodicTask .collect env.collect d)⟩
  · exact survives_await _ _ _

/-! ## The lock is free when no run is in progress -/

/-- Something is raised that ends `_trigger` early: an asynchronous trigger is cancelled before it
starts, or `runner.trigger` is, or the replaced periodic task ended with an exception. -/
def Pc.interrupted : Pc → Outcome → Bool
  | .asyncTrigger, o => o ≠ .ok
  | .collecting, o | .submitting, o => o = .cancelled
  | .replacing _, o => o = .error
  | _, _ => false

/-- A run that this turn goes on with, or may start, comes to its end in it. -/
def endsRun (env : Env) (s : State) : Pc → Outcome → Bool
  | .submitting, o => o ≠ .cancelled
  | .collecting, o => o ≠ .cancelled ∧ Waitless env.submit
  | pc, o => pc.triggers ∧ o = .ok ∧ s.on ∧ ¬ s.triggerActive ∧ Waitless env.collect ∧ Waitless env.submit

/-- If the step is a turn in `_trigger`, nothing is raised there. -/
def Unharmed (d : Daemon) : Event → Prop :=
  OnTurn (fun _ env pc o => pc.interrupted o = false ∧
    (endsRun env d.state pc o = true → env.triggerWriteFails = false ∧ Replaceable d)) d

instance (d : Daemon) (e : Event) : Decidable (Unharmed d e) :=
  inferInstanceAs (Decidable (OnTurn _ d e))

theorem Replaceable.unmark {d : Daemon} (h : Replaceable d) (t : TaskId) : Replaceable (unmark t d) := by
  intro p hp
  obtain ⟨he, hc⟩ := h p hp
  rw [outcomeOf_unmark]
  exact ⟨he, cancel_isSome (fun i task' u hg hs => unmark_waiting hg hs) hc⟩

/-- Such a turn of a task in `_trigger` does not end it early. -/
theorem survives_inside {env : Env} {pc : Pc} {o : Outcome} {d : Daemon} (hin : pc.inside = true)
    (hn : pc.interrupted o = false)
    (he : endsRun env d.state pc o = true → env.triggerWriteFails = false ∧ Replaceable d) :
    Survives (turn env pc o d) := by
  cases pc <;> try exact absurd hin Bool.false_ne_true
  all_goals cases o <;> try exact absurd hn Bool.noConfusion
  case collecting.ok | collecting.error =>
    exact survives_runSubmit fun h => he (decide_eq_true ⟨Outcome.noConfusion, h⟩)
  case submitting.ok | submitting.error =>
    obtain ⟨hw, hr⟩ := he rfl
    exact survives_afterRun hw hr
  case replacing.ok | replacing.cancelled => exact survives_release _

theorem endsRun_of_triggers {env : Env} {s : State} {pc : Pc} (hp : pc.triggers = true) (hon : s.on = true)
    (hl : s.triggerActive = false) (hc : Waitless env.collect) (hs : Waitless env.submit) :
    endsRun env s pc .ok = true := by
  have hends := decide_eq_true (⟨hp, rfl, hon, hl ▸ Bool.false_ne_true, hc, hs⟩ : pc.triggers = true ∧
    Outcome.ok = .ok ∧ s.on = true ∧ ¬ s.triggerActive = true ∧ Waitless env.collect ∧ Waitless env.submit)
  cases pc <;> first | exact absurd hp Bool.false_ne_true | exact hends

/-- Before the guard of `_trigger`, in a task of its own, or past it. -/
def Pc.entering : Pc → Bool
  | .asyncTrigger | .collecting | .submitting | .replacing _ => true
  | _ => false

theorem Pc.entering_of_inside {pc : Pc} (h : pc.inside = true) : pc.entering = true := by
  cases pc <;> first | rfl | cases h

theorem Pc.entering_of_isAsync {pc : Pc} (h : pc.isAsync = true) : pc.entering = true := by
  cases pc <;> first | rfl | cases h

theorem Pc.isAsync_of_entering {pc : Pc} (h : pc.entering = true) (hn : pc.inside ≠ true) : pc.isAsync = true := by
  cases pc <;> first | rfl | exact absurd rfl hn | cases h

theorem Pc.not_entering_of_isHelper {pc : Pc} (h : pc.isHelper = true) : pc.entering = false := by
  cases pc <;> first | rfl | cases h

/-- The lock is held only inside `_trigger`, and `_async_trigger` has not started or is there. -/
structure Free (d : Daemon) : Prop where
  free : (∀ i, ¬ Inside d i) → d.state.triggerActive = false
  async : ∀ u, d.state.asyncTrigger = some u → LiveAt Pc.entering d u

theorem free_init (enabled inhibited : Bool) (lastTrigger lastApplistUpdate : Option Int) :
    Free (init enabled inhibited lastTrigger lastApplistUpdate) :=
  ⟨fun _ => rfl, by rintro u ⟨⟩⟩

theorem Free.of_adds {d d' : Daemon} {p : Coro → Prop} (h : Free d) (ha : Adds p d.tasks d'.tasks)
    (hs : d'.state = d.state) : Free d' := by
  refine ⟨fun hn => ?_, fun u hu => ha.live_mono (h.async u (hs ▸ hu))⟩
  rw [hs]
  exact h.free fun i hi => hn i (ha.live_mono hi)

/-- A turn that starts a run or goes on with it, and survives. -/
theorem free_of_ran {env : Env} {t : TaskId} {task : Asyncio.Task Coro} {o : Outcome} {d d' dr : Daemon}
    (hf : Free d) (h : TurnOf env t task o d d') (hr : Ran dr (turn env task.coro.pc o (unmark t d)))
    (htasks : dr.tasks = (unmark t d).tasks) (ha : dr.state.asyncTrigger = d.state.asyncTrigger)
    (hl : dr.state.triggerActive = true) (hs : Survives (turn env task.coro.pc o (unmark t d))) : Free d' := by
  have hadds := htasks ▸ hr.adds
  cases hr.owns hl with
  | dies hd ho => exact absurd (hs _ hd) ho
  | releases _ hfree hnone =>
    exact ⟨fun _ => by rw [h.state, hfree], fun u hu => by rw [h.state, hnone] at hu; cases hu⟩
  | stays hw hp _ =>
    have hin : Inside d' t := (h.live_self hadds).2 ⟨_, _, hw, hp⟩
    refine ⟨fun hn => absurd hin (hn t), fun u hu => ?_⟩
    rw [h.state] at hu
    rcases hr.async u hu with hu | ⟨hlen, hlu⟩
    · by_cases hne : u = t
      · subst hne
        exact hin.imp fun _ => Pc.entering_of_inside
      · exact h.live_mono hadds hne (hf.async u (ha ▸ hu))
    · exact (h.live_added (htasks ▸ hlen) hlu).imp fun _ => Pc.entering_of_isAsync

theorem innerTrigger_async {env : Env} {d : Daemon} (h : Outside d (innerTrigger env d)) :
    (innerTrigger env d).1.state.asyncTrigger = none := by
  revert h
  unfold innerTrigger
  split
  · exact fun _ => rfl
  · intro h
    have hruns := h.frame.runs
    rw [(ran_runCollect env _).runs] at hruns
    exact absurd hruns (Nat.succ_ne_self _)

/-- An asynchronous trigger that stays out is not `_async_trigger` any more. -/
theorem async_of_outside {env : Env} {pc : Pc} {o : Outcome} {d : Daemon} (he : pc.entering = true)
    (hp : pc.idle = true) (hn : pc.interrupted o = false) (h : Outside d (turn env pc o d)) :
    (turn env pc o d).1.state.asyncTrigger = none := by
  cases pc <;> try first | exact absurd he Bool.false_ne_true | exact absurd hp Bool.false_ne_true
  cases o <;> try exact absurd hn Bool.noConfusion
  exact innerTrigger_async h

theorem TurnOf.at {env : Env} {t : TaskId} {task : Asyncio.Task Coro} {o : Outcome} {d d' : Daemon}
    (h : TurnOf env t task o d d') {p : Pc → Bool} (hl : LiveAt p d t) : p task.coro.pc = true :=
  hl.at h.get

theorem free_turn {env : Env} {t : TaskId} {task : Asyncio.Task Coro} {o : Outcome} {d d' : Daemon} (hk : Locked d)
    (hf : Free d) (h : TurnOf env t task o d d') (hn : task.coro.pc.interrupted o = false)
    (he : endsRun env d.state task.coro.pc o = true → env.triggerWriteFails = false ∧ Replaceable d) : Free d' := by
  have he' : endsRun env d.state task.coro.pc o = true → env.triggerWriteFails = false ∧ Replaceable (unmark t d) :=
    fun h => (he h).imp id (Replaceable.unmark · t)
  cases turnCase env task.coro.pc o (unmark t d) with
  | inside hp hran =>
    exact free_of_ran hf h hran rfl rfl (hk.held t (h.live hp)) (survives_inside hp hn he')
  | enters hp ho update hon hl hr =>
    have hran : Ran (enter (stamp update (unmark t d))) (turn env task.coro.pc o (unmark t d)) := by
      rw [hr]
      exact ran_runCollect env _
    refine free_of_ran hf h hran rfl rfl rfl ?_
    rw [hr]
    exact survives_runCollect fun hc hs => he' (ho ▸ endsRun_of_triggers hp hon hl hc hs)
  | outside hp ho =>
    -- The turn stays outside `_trigger`: who is in it goes on, and `_async_trigger` is kept, dropped or new.
    refine ⟨fun hno => ?_, fun u hu => ?_⟩
    · rw [h.state, ho.frame.lock]
      refine hf.free fun i hi => ?_
      by_cases hne : i = t
      · subst hne
        exact absurd (h.at hi) (by rw [Pc.not_inside_of_idle hp]; exact Bool.false_ne_true)
      · exact hno i (h.live_mono ho.frame.adds hne hi)
    · rw [h.state] at hu
      rcases ho.frame.async u hu with hu' | ⟨hlen, hlu⟩
      · by_cases hne : u = t
        · subst hne
          rw [async_of_outside (h.at (hf.async u hu')) hp hn ho] at hu
          cases hu
        · exact h.live_mono ho.frame.adds hne (hf.async u hu')
      · exact (h.live_added hlen hlu).imp fun _ => Pc.entering_of_isAsync
  | helper hp hd hw =>
    have ha : Adds (fun _ : Coro => False) (unmark t d).tasks (turn env task.coro.pc o (unmark t d)).1.tasks := by
      rw [hd]
      exact .refl _ _
    -- A helper's turn leaves the state as it is.
    have hst : d'.state = d.state := by
      rw [h.state, hd]
      rfl
    have hne : ∀ i, LiveAt Pc.entering d i → i ≠ t := by
      rintro i hi rfl
      exact absurd (h.at hi) (by rw [Pc.not_entering_of_isHelper hp]; exact Bool.false_ne_true)
    refine ⟨fun hno => ?_, fun u hu => ?_⟩
    · rw [hst]
      refine hf.free fun i hi => ?_
      exact hno i (h.live_mono ha (hne i (hi.imp fun _ => Pc.entering_of_inside)) hi)
    · rw [hst] at hu
      exact h.live_mono ha (hne u (hf.async u hu)) (hf.async u hu)

theorem free_next {e : Event} {d d' : Daemon} (hk : Locked d) (hf : Free d) (hu : Unharmed d e)
    (h : next e d = some d') : Free d' := by
  cases stepOf_next h with
  | call c he hd =>
    subst hd
    exact hf.of_adds (createTask_adds (fun _ => True) trivial d) rfl
  | complete t fails he hs ha => exact hf.of_adds ha hs
  | turn t env task o he h =>
    obtain ⟨hn, hw⟩ := h.onTurn (he ▸ hu)
    exact free_turn hk hf h hn hw

theorem free_run {enabled inhibited : Bool} {lastTrigger lastApplistUpdate : Option Int} {tr : List (Daemon × Event)}
    {d : Daemon} (h : DaemonRun (init enabled inhibited lastTrigger lastApplistUpdate) tr d)
    (hu : ∀ p ∈ tr, Unharmed p.1 p.2) : Free d := by
  have step : ∀ d e d', Locked d ∧ Free d → Unharmed d e → next e d = some d' → Locked d' ∧ Free d' :=
    fun _ _ _ hi hok hs => ⟨locked_next hi.1 hs, free_next hi.1 hi.2 hok hs⟩
  exact (h.inv _ step ⟨locked_init .., free_init ..⟩ hu).2

theorem innerTrigger_runs {d : Daemon} (hon : d.state.on = true) (hl : d.state.triggerActive = false) (env : Env) :
    (innerTrigger env d).1.state.runs = d.state.runs + 1 := by
  unfold innerTrigger
  simp only [hon, hl, Bool.not_true, Bool.false_eq_true, or_self, if_false]
  exact (ran_runCollect env _).runs

/-- `trigger(wait=True)` calls `runner.trigger`, or waits for an asynchronous trigger that is about
to call it; `trigger(wait=False)` leaves such an asynchronous trigger. -/
structure Reaches (env : Env) (d : Daemon) : Prop where
  waiting : (trigger env true d).1.state.runs = d.state.runs + 1 ∨
    ∃ u, (trigger env true d).2 = .await .awaitingAsync (.task u) ∧ LiveAt Pc.isAsync d u
  async : ∃ u, (trigger env false d).1.state.asyncTrigger = some u ∧ LiveAt Pc.isAsync (trigger env false d).1 u
  inner : (innerTrigger env d).1.state.runs = d.state.runs + 1

theorem reaches {d : Daemon} (hf : Free d) (hn : ∀ i, ¬ Inside d i) (hon : d.state.on = true) (env : Env) :
    Reaches env d := by
  have hl := hf.free hn
  have hinner := innerTrigger_runs hon hl env
  cases ha : d.state.asyncTrigger with
  | none =>
    have hwait : trigger env true d = innerTrigger env d := by simp [trigger, hon, hl, ha]
    have hasync : trigger env false d = (modify (fun s => { s with asyncTrigger := some d.tasks.length })
        (createTask { periodic := false, pc := .asyncTrigger } d), .done .ok) := by simp [trigger, hon, hl, ha]
    refine ⟨.inl (hwait ▸ hinner), ⟨d.tasks.length, ?_⟩, hinner⟩
    rw [hasync]
    exact ⟨rfl, _, List.getElem?_concat_length, rfl, rfl⟩
  | some u =>
    have hu : LiveAt Pc.isAsync d u := by
      obtain ⟨x, hg, hd, hx⟩ := hf.async u ha
      exact ⟨x, hg, hd, Pc.isAsync_of_entering hx fun h => hn u ⟨x, hg, hd, h⟩⟩
    have hwait : (trigger env true d).2 = .await .awaitingAsync (.task u) := by
      simp [trigger, hon, hl, ha, hu.outcomeOf]
    have hasync : trigger env false d = (d, .done .ok) := by simp [trigger, hon, hl, ha]
    refine ⟨.inr ⟨u, hwait, hu⟩, ⟨u, ?_⟩, hinner⟩
    rw [hasync]
    exact ⟨ha, hu⟩

/-- In every run in which nothing is raised in `_trigger`, the lock is free
whenever no task is past the guard, and the next trigger of a daemon that is on
reaches `runner.trigger`. -/
theorem lock_given_back {enabled inhibited : Bool} {lastTrigger lastApplistUpdate : Option Int}
    {tr : List (Daemon × Event)} {d : Daemon}
    (h : DaemonRun (init enabled inhibited lastTrigger lastApplistUpdate) tr d)
    (hu : ∀ p ∈ tr, Unharmed p.1 p.2) (hn : ∀ i, ¬ Inside d i) :
    d.state.triggerActive = false ∧ (d.state.on = true → ∀ env, Reaches env d) :=
  ⟨(free_run h hu).free hn, reaches (free_run h hu) hn⟩

/-- A D-Bus caller triggers a run, and a helper collects and then submits. -/
def triggered : List Event :=
  [.call (.trigger true), .resume 0 oneHelper, .resume 1 {}, .resume 0 oneHelper, .resume 2 {}, .resume 0 {}]

theorem triggered_lock_given_back : ∃ tr d, DaemonRun (init true false none none) tr d ∧ d.state.runs = 1 ∧
    d.state.triggerActive = false ∧ (d.state.on = true → ∀ env, Reaches env d) := by
  obtain ⟨⟨tr, d⟩, hr, hruns, hu, hn⟩ : ∃ r ∈ runEvents next triggered (init true false none none),
      r.2.state.runs = 1 ∧ (∀ p ∈ r.1, Unharmed p.1 p.2) ∧
        ∀ task ∈ r.2.tasks, task.isDone = false → task.coro.pc.inside = false := by decide
  exact ⟨tr, d, run_of_events hr, hruns, lock_given_back (run_of_events hr) hu (not_liveAt hn)⟩

/-- The periodic task runs while a helper collects; `enable(False)` cancels it, and `enable(True)` makes a new one. -/
def disabledInRun : List Event :=
  started ++ [.complete 1 false, .resume 1 { oneHelper with now := startupDelay }, .call (.toggle .enable false),
    .resume 3 {}, .resume 1 {}, .resume 3 {}, .call (.toggle .enable true), .resume 4 {}]

/-- A daemon that is on keeps its lock with nobody in `_trigger`, and `trigger()` does nothing any more. -/
theorem disabled_in_run_keeps_lock : ∃ tr d, DaemonRun (init true false none none) tr d ∧ d.state.on = true ∧
    ¬ ((∀ i, ¬ Inside d i) → d.state.triggerActive = false) := by
  obtain ⟨⟨tr, d⟩, hr, hon, hl, hn⟩ : ∃ r ∈ runEvents next disabledInRun (init true false none none),
      r.2.state.on = true ∧ r.2.state.triggerActive = true ∧
        ∀ task ∈ r.2.tasks, task.isDone = false → task.coro.pc.inside = false := by decide
  refine ⟨tr, d, run_of_events hr, hon, fun h => ?_⟩
  simp only at hl
  rw [h (not_liveAt hn)] at hl
  cases hl

end LogSubmitter.Daemon

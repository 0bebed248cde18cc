import LogSubmitter.Daemon.Turns
/-!
# The lock of a run

`_trigger_active` is a lock that one task holds from the guard of `_trigger` to
its last line. At most one task is there, whatever happens. The lock is lost
when that task ends before its last line.
-/
namespace LogSubmitter.Daemon

open Lib Lib.Asyncio

/-! ## One run at a time -/

/-- At most one task is past the guard, and it holds the lock. -/
structure Locked (d : Daemon) : Prop where
  unique : ∀ i j, Inside d i → Inside d j → i = j
  held : ∀ i, Inside d i → d.state.triggerActive = true

theorem locked_init (enabled inhibited : Bool) (lastTrigger lastApplistUpdate : Option Int) :
    Locked (init enabled inhibited lastTrigger lastApplistUpdate) := by
  have none_inside : ∀ i, ¬ Inside (init enabled inhibited lastTrigger lastApplistUpdate) i := by
    rintro i ⟨task, hg, -⟩
    cases hg
  exact ⟨fun i _ hi => absurd hi (none_inside i), fun i hi => absurd hi (none_inside i)⟩

theorem Locked.of_inside {d d' : Daemon} (h : Locked d) (hi : ∀ i, Inside d' i → Inside d i)
    (hl : d'.state.triggerActive = d.state.triggerActive) : Locked d' :=
  ⟨fun i j hi' hj' => h.unique i j (hi i hi') (hi j hj'), fun i hi' => hl ▸ h.held i (hi i hi')⟩

theorem Pc.idle_of_inside {pc : Pc} (h : pc.inside = true) : pc.idle = false := by
  rw [Pc.idle, h]
  rfl

theorem Pc.notInside_of_inside {pc : Pc} (h : pc.inside = true) : pc.notInside = false := by
  rw [Pc.notInside, h]
  rfl

/-- A turn that ends a run, or goes on with it, when no other task is past the guard. -/
theorem locked_of_ran {env : Env} {t : TaskId} {task : Asyncio.Task Coro} {o : Outcome} {d d' dr : Daemon}
    (h : TurnOf env t task o d d') (hr : Ran dr (turn env task.coro.pc o (unmark t d)))
    (htasks : dr.tasks = (unmark t d).tasks) (hl : dr.state.triggerActive = true)
    (hothers : ∀ i, i ≠ t → ¬ Inside d i) : Locked d' := by
  have ha := htasks ▸ hr.adds
  have only : ∀ i, Inside d' i → i = t := by
    intro i hi
    by_contra hne
    exact hothers i hne (h.live_others (fun _ => Pc.notInside_of_inside) ha hne hi)
  refine ⟨fun i j hi hj => (only i hi).trans (only j hj).symm, fun i hi => ?_⟩
  rw [only i hi, Inside, h.live_self ha] at hi
  obtain ⟨pc, w, hf, -⟩ := hi
  rw [h.state]
  cases hr.owns hl with
  | stays _ _ hl => exact hl
  | releases hf' => rw [hf] at hf'; cases hf'
  | dies hf' => rw [hf] at hf'; cases hf'

/-- A turn that stays out, with tasks that are not past the guard. -/
theorem locked_of_out {env : Env} {t : TaskId} {task : Asyncio.Task Coro} {o : Outcome} {d d' : Daemon}
    (hk : Locked d) (h : TurnOf env t task o d d')
    (ha : Adds (fun c : Coro => c.pc.idle = true) (unmark t d).tasks (turn env task.coro.pc o (unmark t d)).1.tasks)
    (hl : (turn env task.coro.pc o (unmark t d)).1.state.triggerActive = d.state.triggerActive)
    (hf : ∀ pc w, (turn env task.coro.pc o (unmark t d)).2 = .await pc w → pc.inside = false) : Locked d' := by
  refine hk.of_inside (fun i hi => ?_) (by rw [h.state, hl])
  by_cases hne : i = t
  · subst hne
    obtain ⟨pc, w, hr, hp⟩ := (h.live_self ha).1 hi
    rw [hf pc w hr] at hp
    cases hp
  · exact h.live_others (fun _ => Pc.idle_of_inside) ha hne hi

theorem Locked.free {d : Daemon} (hk : Locked d) (hl : d.state.triggerActive = false) (i : TaskId) : ¬ Inside d i := by
  intro hi
  rw [hk.held i hi] at hl
  cases hl

theorem locked_turn {env : Env} {t : TaskId} {task : Asyncio.Task Coro} {o : Outcome} {d d' : Daemon}
    (hk : Locked d) (h : TurnOf env t task o d d') : Locked d' := by
  cases turnCase env task.coro.pc o (unmark t d) with
  | outside _ ho =>
    exact locked_of_out hk h ho.frame.adds ho.frame.lock fun pc w hr => Pc.not_inside_of_idle (ho.flow pc w hr)
  | helper hp hd hf =>
    refine locked_of_out hk h (by rw [hd]; exact .refl _ _) (by rw [hd]; rfl) fun pc w hr => ?_
    rw [(hf pc w hr).1]
    revert hp
    cases task.coro.pc <;> first | exact fun _ => rfl | exact fun h => absurd h Bool.false_ne_true
  | enters _ _ update _ hl hr =>
    have hran : Ran (enter (stamp update (unmark t d))) (turn env task.coro.pc o (unmark t d)) := by
      rw [hr]
      exact ran_runCollect env _
    exact locked_of_ran h hran rfl rfl fun i _ => hk.free hl i
  | inside hp hran =>
    have ht : Inside d t := h.live hp
    exact locked_of_ran h hran rfl (hk.held t ht) fun i hne hi => hne (hk.unique i t hi ht)

theorem locked_next {e : Event} {d d' : Daemon} (hk : Locked d) (h : next e d = some d') : Locked d' := by
  cases stepOf_next h with
  | call c he hd =>
    subst hd
    exact hk.of_inside (fun i hi => live_of_created (Pc.not_inside_of_idle c.pc_idle) hi) rfl
  | complete t fails he hs ha => exact hk.of_inside (fun i hi => live_of_completed ha hi) (by rw [hs])
  | turn t env task o he h => exact locked_turn hk h

/-- The step calls `runner.trigger` at most once, and only when no run is in progress. -/
theorem runs_next {e : Event} {d d' : Daemon} (hk : Locked d) (h : next e d = some d') :
    d'.state.runs = d.state.runs ∨ d'.state.runs = d.state.runs + 1 ∧ ∀ i, ¬ Running d i := by
  cases stepOf_next h with
  | call c he hd => exact .inl (by rw [hd]; rfl)
  | complete t fails he hs ha => exact .inl (by rw [hs])
  | turn t env task o he h =>
    rw [h.state]
    cases turnCase env task.coro.pc o (unmark t d) with
    | outside _ ho => exact .inl ho.frame.runs
    | helper _ hd _ => exact .inl (by rw [hd]; rfl)
    | enters _ _ update _ hl hr =>
      exact .inr ⟨by rw [hr, (ran_runCollect env _).runs]; rfl, fun i hi => hk.free hl i hi.inside⟩
    | inside _ hran => exact .inl hran.runs

theorem locked_run {enabled inhibited : Bool} {lastTrigger lastApplistUpdate : Option Int}
    {tr : List (Daemon × Event)} {d : Daemon}
    (h : DaemonRun (init enabled inhibited lastTrigger lastApplistUpdate) tr d) : Locked d :=
  h.always Locked (fun _ _ _ => locked_next) (locked_init enabled inhibited lastTrigger lastApplistUpdate)

/-- Whatever happens, at most one call of `runner.trigger` is in progress, and
none is made while one is. -/
theorem one_run_at_a_time {enabled inhibited : Bool} {lastTrigger lastApplistUpdate : Option Int}
    {tr : List (Daemon × Event)} {d : Daemon}
    (h : DaemonRun (init enabled inhibited lastTrigger lastApplistUpdate) tr d) :
    (∀ i j, Running d i → Running d j → i = j) ∧
    ∀ e d', next e d = some d' →
      d'.state.runs = d.state.runs ∨ d'.state.runs = d.state.runs + 1 ∧ ∀ i, ¬ Running d i :=
  ⟨fun i j hi hj => (locked_run h).unique i j hi.inside hj.inside, fun _ _ hs => runs_next (locked_run h) hs⟩

/-- One helper collects, and then submits. -/
def oneHelper : Env := { collect := [.task], submit := [.task] }

/-- `start`, up to where the bus answers calls. -/
def started : List Event :=
  [.call .start, .resume 0 {}, .complete 0 false, .resume 0 {}, .complete 0 false, .resume 0 {}, .resume 1 {}]

/-- A D-Bus caller triggers a run and waits for it, and another one triggers while it is in progress. -/
def triggeredTwice : List Event :=
  [.call (.trigger true), .resume 0 oneHelper, .call (.trigger false), .resume 2 oneHelper]

theorem triggered_twice_one_run : ∃ tr d, DaemonRun (init true false none none) tr d ∧ Running d 0 ∧ d.state.runs = 1 ∧
    (∀ i j, Running d i → Running d j → i = j) ∧
    ∀ e d', next e d = some d' →
      d'.state.runs = d.state.runs ∨ d'.state.runs = d.state.runs + 1 ∧ ∀ i, ¬ Running d i := by
  obtain ⟨⟨tr, d⟩, hr, ⟨task, hg, hd, hp⟩, hruns⟩ : ∃ r ∈ runEvents next triggeredTwice (init true false none none),
      (∃ task ∈ r.2.tasks[0]?, task.isDone = false ∧ task.coro.pc.running = true) ∧ r.2.state.runs = 1 := by decide
  exact ⟨tr, d, run_of_events hr, ⟨task, hg, hd, hp⟩, hruns, one_run_at_a_time (run_of_events hr)⟩

end LogSubmitter.Daemon

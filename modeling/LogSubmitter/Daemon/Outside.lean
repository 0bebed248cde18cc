import LogSubmitter.Daemon.Promise
/-!
# Steps outside a run

Calls, answers, and the turns of tasks that hold no lock: `start`, the helpers,
the periodic task before it triggers, and the callers that come back.
-/
namespace LogSubmitter.Daemon

open Lib Lib.Asyncio

/-! ## Calls -/

/-- The daemon is started and triggered, and nothing else is asked of it. -/
def OnlyTriggers : Event → Prop
  | .call .start | .call (.trigger _) => True
  | .call _ => False
  | _ => True

instance : DecidablePred OnlyTriggers
  | .call .start | .call (.trigger _) | .complete _ _ | .resume _ _ => .isTrue trivial
  | .call (.toggle _ _) | .call (.leaveSuspend _) | .call .shutdown => .isFalse id

/-- The app list is to be updated. -/
def State.outdated (env : Env) (s : State) : Bool := s.lastApplistUpdate.getD 0 + applistUpdateInterval ≤ env.now

/-- The turn comes to `trigger(wait=True)`. -/
def Pc.asks (env : Env) (s : State) : Pc → Bool
  | .trigger wait => wait
  | .periodic => s.serving && !decide (0 < s.nextTrigger - env.now) && !s.outdated env
  | .sleeping => s.serving && !s.outdated env
  | .updating => s.serving && !env.applistWriteFails
  | _ => false

/-! ## Turns outside a run -/

/-- The turn touches nothing that the others depend on. -/
structure Calm (d : Daemon) (r : Result) : Prop where
  tasks : r.1.tasks = d.tasks
  state : Same d.state r.1.state

theorem calm_refl (d : Daemon) (f : Flow Pc) : Calm d (d, f) := ⟨rfl, .refl _⟩

/-- A helper's turn, or one of `start` once the daemon serves. -/
theorem aside_turn {env : Env} {pc : Pc} {o : Outcome} {d : Daemon} (hp : pc.aside = true)
    (hs : pc = .start → o = .ok → d.state.serving = true) :
    Calm d (turn env pc o d) ∧ ((∃ o', (turn env pc o d).2 = .done o') ∨
      ∃ pc', (turn env pc o d).2 = .await pc' .external ∧ pc'.aside = true ∧ (pc.isHelper = true → pc' = pc)) := by
  cases pc <;> try exact absurd hp Bool.false_ne_true
  all_goals cases o
  case start.ok =>
    rw [turn, start, if_pos (hs rfl rfl)]
    exact ⟨calm_refl _ _, .inl ⟨_, rfl⟩⟩
  case connecting.ok => exact ⟨⟨rfl, ⟨rfl, rfl, rfl, rfl, rfl, rfl⟩⟩, .inr ⟨_, rfl, rfl, by rintro ⟨⟩⟩⟩
  case requestingName.ok => exact ⟨⟨rfl, ⟨rfl, rfl, rfl, rfl, rfl, rfl⟩⟩, .inr ⟨_, rfl, rfl, by rintro ⟨⟩⟩⟩
  case requestingName.error =>
    simp only [turn]
    split
    · exact ⟨⟨rfl, ⟨rfl, rfl, rfl, rfl, rfl, rfl⟩⟩, .inr ⟨_, rfl, rfl, by rintro ⟨⟩⟩⟩
    · exact ⟨calm_refl _ _, .inl ⟨_, rfl⟩⟩
  case startingHelpers.ok => exact ⟨calm_refl _ _, .inr ⟨_, rfl, rfl, by rintro ⟨⟩⟩⟩
  case helper.ok | helper.error =>
    simp only [turn]
    split
    · exact ⟨calm_refl _ _, .inr ⟨_, rfl, rfl, fun _ => rfl⟩⟩
    · exact ⟨calm_refl _ _, .inl ⟨_, rfl⟩⟩
  all_goals exact ⟨calm_refl _ _, .inl ⟨_, rfl⟩⟩

/-- A turn of the periodic task that does not come to `trigger`. -/
theorem quiet_turn {env : Env} {pc : Pc} {d : Daemon} (hp : pc.isQuiet = true) (hs : d.state.serving = true)
    (ha : pc.asks env d.state = false) :
    Calm d (turn env pc .ok d) ∧ ((∃ pc', (turn env pc .ok d).2 = .await pc' .external ∧ pc'.isQuiet = true) ∨
      pc = .updating ∧ env.applistWriteFails = true ∧ (turn env pc .ok d).2 = .done .error) := by
  have slept : ∀ {d : Daemon}, d.state.serving = true → (d.state.serving && !d.state.outdated env) = false →
      Calm d (afterSleep env d) ∧ ∃ pc', (afterSleep env d).2 = .await pc' .external ∧ pc'.isQuiet = true := by
    intro d hs ha
    rw [hs, Bool.true_and, Bool.not_eq_false'] at ha
    rw [afterSleep, if_pos (by simpa [State.outdated] using ha)]
    exact ⟨calm_refl _ _, _, rfl, rfl⟩
  cases pc <;> try exact absurd hp Bool.false_ne_true
  case periodic =>
    simp only [turn, triggerPeriodic]
    split
    · exact ⟨calm_refl _ _, .inl ⟨_, rfl, rfl⟩⟩
    · rename_i hnow
      have ha' : (d.state.serving && !d.state.outdated env) = false := by
        rw [Pc.asks, decide_eq_false hnow, Bool.not_false, Bool.and_true] at ha
        exact ha
      exact (slept hs ha').imp id .inl
  case sleeping => exact (slept hs ha).imp id .inl
  case updating =>
    have hw : env.applistWriteFails = true := by simpa [Pc.asks, hs] using ha
    rw [turn, applistUpdated, if_pos hw]
    exact ⟨⟨rfl, ⟨rfl, rfl, rfl, rfl, rfl, rfl⟩⟩, .inr ⟨rfl, hw, rfl⟩⟩

/-- A turn that comes to `trigger(wait=True)` goes on with it. -/
theorem asks_turn {env : Env} {pc : Pc} {d : Daemon} (ha : pc.asks env d.state = true) :
    ∃ update, turn env pc .ok d = trigger env true (stamp update d) := by
  have slept : (d.state.serving && !d.state.outdated env) = true → afterSleep env d = trigger env true d := by
    intro h
    rw [Bool.and_eq_true, Bool.not_eq_true'] at h
    rw [afterSleep, if_neg (by simpa [State.outdated] using h.2), afterUpdate, h.1]
    rfl
  cases pc <;> try exact absurd ha Bool.false_ne_true
  case trigger wait =>
    rw [show wait = true from ha]
    exact ⟨d.state.lastApplistUpdate, rfl⟩
  case periodic =>
    simp only [Pc.asks, Bool.and_eq_true, Bool.not_eq_true', decide_eq_false_iff_not] at ha
    obtain ⟨⟨hs, hnow⟩, hup⟩ := ha
    refine ⟨d.state.lastApplistUpdate, ?_⟩
    rw [turn, triggerPeriodic, if_neg hnow, slept (by rw [hs, hup]; rfl)]
    rfl
  case sleeping => exact ⟨d.state.lastApplistUpdate, slept ha⟩
  case updating =>
    simp only [Pc.asks, Bool.and_eq_true, Bool.not_eq_true'] at ha
    refine ⟨some env.now, ?_⟩
    simp only [turn, applistUpdated, afterUpdate, ha.2, Bool.false_eq_true, if_false]
    rw [if_neg (by simp [modify, ha.1])]
    rfl

theorem trigger_waits {env : Env} {d : Daemon} {q : TaskId} (hon : d.state.on = true)
    (hl : d.state.triggerActive = true) (hq : d.state.asyncTrigger.or d.state.periodicTask = some q)
    (hout : outcomeOf q d.tasks = none) : trigger env true d = (d, .await .awaitingStored (.task q)) := by
  simp [trigger, hon, hl, hq, hout]

theorem trigger_nothing {env : Env} {d : Daemon} (hon : d.state.on = true) (hl : d.state.triggerActive = true)
    (hq : d.state.asyncTrigger.or d.state.periodicTask = none) : trigger env true d = (d, .done .ok) := by
  simp [trigger, hon, hl, hq]

theorem trigger_joins {env : Env} {d : Daemon} {q : TaskId} (hon : d.state.on = true)
    (hl : d.state.triggerActive = false) (hs : d.state.asyncTrigger = some q) (hout : outcomeOf q d.tasks = none) :
    trigger env true d = (d, .await .awaitingAsync (.task q)) := by
  simp [trigger, hon, hl, hs, hout]

theorem innerTrigger_runs_collect {env : Env} {d : Daemon} (hon : d.state.on = true)
    (hl : d.state.triggerActive = false) : innerTrigger env d = runCollect env (enter d) := by
  simp only [innerTrigger, hon, hl, Bool.not_true, Bool.false_eq_true, or_self, if_false]
  rfl

theorem trigger_runs {env : Env} {d : Daemon} (hon : d.state.on = true) (hl : d.state.triggerActive = false)
    (hs : d.state.asyncTrigger = none) : trigger env true d = runCollect env (enter d) := by
  rw [← innerTrigger_runs_collect hon hl]
  simp [trigger, hon, hl, hs]

/-! ## Steps outside a run -/

/-- A step outside a run keeps the lock, and stores only what was not stored. -/
structure Stores (d d' : Daemon) : Prop where
  on : d'.state.on = d.state.on
  lock : d'.state.triggerActive = d.state.triggerActive
  runs : d'.state.runs = d.state.runs
  serving : d'.state.serving = d'.state.periodicTask.isSome
  periodic : d'.state.periodicTask = d.state.periodicTask ∨ d.state.periodicTask = none ∧
    ∃ p, d'.state.periodicTask = some p ∧ d.tasks.length ≤ p ∧ LiveAt Pc.isQuiet d' p
  async : d'.state.asyncTrigger = d.state.asyncTrigger ∨ d.state.asyncTrigger = none ∧ d.state.triggerActive = false ∧
    ∃ u, d'.state.asyncTrigger = some u ∧ LiveAt Pc.isAsync d' u

theorem Same.stores {d d' : Daemon} (h : Same d.state d'.state) (ho : InOrder d) : Stores d d' :=
  ⟨h.on, h.lock, h.runs, by rw [h.serving, ho.serving, h.periodic], .inl h.periodic, .inl h.async⟩

/-- A task outside `_trigger` moves, or comes, and may store another. -/
theorem good_outside {t : TaskId} {d d' : Daemon} (ho : InOrder d) (hs : Stores d d')
    (length : d.tasks.length ≤ d'.tasks.length)
    (forth : ∀ i y, i ≠ t → d.tasks[i]? = some y → ∃ y', d'.tasks[i]? = some y' ∧ Woken t d'.tasks y y')
    (fresh : ∀ i y, d.tasks.length ≤ i → i ≠ t → d'.tasks[i]? = some y →
      Placed d' i y ∧ y.coro.pc.inside = false ∧ ∃ o, y.status = .ready o)
    (self : ∀ y, d'.tasks[t]? = some y → Placed d' t y)
    (live : ∀ y, d.tasks[t]? = some y → y.isDone = false ∧ ∀ u, y.status ≠ .waiting (.task u))
    (outside : ¬ Inside d t) (outside' : ¬ Inside d' t) (notAsync : ¬ LiveAt Pc.isAsync d t)
    (quiet : LiveAt Pc.isQuiet d t → d.state.periodicTask = some t →
      LiveAt Pc.isQuiet d' t ∨ Unawaited d t ∧ outcomeOf t d'.tasks = some .error)
    (doomed : LiveAt Pc.isQuiet d t → Doomed d t → outcomeOf t d'.tasks = some .cancelled)
    (waits : ∀ i, WaitsFor d' t i → Promises 0 d' i)
    (helper : ∀ x, d.tasks[t]? = some x → x.coro.pc.isHelper = true →
      ∃ x', d'.tasks[t]? = some x' ∧ x'.coro.pc.isHelper = true)
    (back : ∀ x, d.tasks[t]? = some x → x.coro.pc.attends = true → x.due = some .ok →
      outcomeOf t d'.tasks = some .ok) : Good t none d d' := by
  have keeps : ∀ {p : Pc → Bool} {i : TaskId}, i ≠ t → LiveAt p d i → LiveAt p d' i := by
    rintro p i hi ⟨x, hx, hd, hp⟩
    obtain ⟨x', hx', hw⟩ := forth i x hi hx
    exact ⟨x', hx', hw.isDone.trans hd, hw.coro ▸ hp⟩
  have apart : ∀ {p : Pc → Bool} {i : TaskId}, LiveAt p d i → ¬ LiveAt p d t → i ≠ t := by
    rintro p i hl hn rfl
    exact hn hl
  have same : ∀ {a a' : Option TaskId} {i : TaskId} {P : Prop}, (a' = a ∨ a = none ∧ P) → a = some i → a' = some i := by
    rintro a a' i P (h | ⟨h, -⟩) ha
    · exact h.trans ha
    · rw [h] at ha
      cases ha
  refine
    { length := length, forth := fun i y hi _ => forth i y hi, self := self, live := live, on := hs.on.trans ho.on
      fresh := fresh
      victim := fun i h => nomatch h
      serving := hs.serving
      keepsAsync := fun i _ h _ => same hs.async h
      keepsStored := fun i _ _ h => same hs.periodic h
      newStored := fun i hi h => ?_
      runs := Nat.le_of_eq hs.runs.symm
      running := fun h => absurd h.inside outside'
      doomed := doomed, waits := fun i hi => .inr (waits i hi), helper := helper, back := back
      lock := fun hl => ?_, stored := fun p hp => ?_, async := fun u hu => ?_, promises := fun b hb => ?_ }
  -- Who has the lock is not `t`, and has not moved.
  · obtain ⟨i, hi⟩ := ho.lock (hs.lock ▸ hl)
    exact ⟨i, keeps (apart hi outside) hi⟩
  -- The periodic task that is stored is the one from before, or has just been made.
  · rcases hs.periodic with hper | ⟨-, q, hq, -, hl⟩
    · rw [hper] at hp
      by_cases hpt : p = t
      · subst hpt
        rcases ho.stored p hp with hl | hl | hout
        · rcases quiet hl hp with hl' | ⟨-, hout⟩
          · exact .inr (.inl hl')
          · exact .inr (.inr (.inr hout))
        · exact absurd hl.inside outside
        · obtain ⟨x, hx, hxo⟩ := Option.bind_eq_some_iff.1 hout
          have hdone := (live x hx).1
          rw [Task.isDone, hxo] at hdone
          cases hdone
      · exact .inl ⟨hp, hpt, nofun⟩
    · rw [hq, Option.some.injEq] at hp
      exact .inr (.inl (hp ▸ hl))
  -- So is the asynchronous trigger.
  · rw [hs.lock]
    rcases hs.async with has | ⟨-, hfree, w, hw, hl⟩
    · rw [has] at hu
      rcases ho.async u hu with hl | ⟨hl, hfree⟩
      · exact .inl (keeps (apart hl outside) hl)
      · exact .inr ⟨keeps (apart hl notAsync) hl, hfree⟩
    · rw [hw, Option.some.injEq] at hu
      exact .inr ⟨hu ▸ hl, hfree⟩
  · rcases hs.periodic with hper | ⟨-, p, hp, hlen, -⟩
    · exact hper.symm.trans h
    · rw [hp, Option.some.injEq] at h
      exact absurd hi (Nat.not_lt.2 (h ▸ hlen))
  -- Outside a run, only the stored periodic task promises one.
  · cases hb with
    | running h => exact absurd h.inside outside
    | replacing h => exact absurd (h.imp fun _ => Pc.inside_of_isReplacing) outside
    | async _ h => exact absurd h notAsync
    | stored hp h hb =>
      rcases quiet h hp with hl' | ⟨hu, -⟩
      · refine .inr (.inl ⟨.stored (same hs.periodic hp) hl' ?_, fun h => absurd h outside⟩)
        rw [hs.runs]
        exact hb
      · exact .inl ⟨h, hu⟩

theorem good_call {c : Call} {d : Daemon} (ho : InOrder d) (hc : OnlyTriggers (.call c)) :
    Good d.tasks.length none d (createTask { periodic := false, pc := c.pc } d) := by
  have hnone : d.tasks[d.tasks.length]? = none := List.getElem?_eq_none (Nat.le_refl _)
  have notLive : ∀ p, ¬ LiveAt p d d.tasks.length := by
    rintro p ⟨x, hx, -⟩
    rw [hnone] at hx
    cases hx
  have new : (createTask { periodic := false, pc := c.pc } d).tasks[d.tasks.length]? =
      some (.fresh { periodic := false, pc := c.pc }) := List.getElem?_concat_length
  have placed : Placed (createTask { periodic := false, pc := c.pc } d) d.tasks.length
      (.fresh { periodic := false, pc := c.pc }) := by
    cases c with
    | start => exact .aside rfl
    | trigger wait => exact .called wait rfl rfl rfl
    | toggle | leaveSuspend | shutdown => exact hc.elim
  have hlive : outcomeOf d.tasks.length (createTask { periodic := false, pc := c.pc } d).tasks = none := by
    rw [outcomeOf, new]
    rfl
  refine good_outside ho (Same.stores (.refl _) ho) (by simp [createTask])
    (fun i y _ hy => ⟨y, ?_, .same (fun _ => hlive) fun _ _ => .inl hlive⟩) (fun i y hi hne hy => ?_) (fun y hy => ?_)
    (fun y hy => ?_) (notLive _) ?_ (notLive _) (fun h => absurd h (notLive _))
    (fun h => absurd h (notLive _)) (fun i hi => ?_) (fun x hx => ?_) (fun x hx => ?_)
  -- The others are where they were, and the task that comes is the call's.
  · rw [createTask_tasks, List.getElem?_append_left (List.getElem?_eq_some_iff.1 hy).1]
    exact hy
  · have hlt := (List.getElem?_eq_some_iff.1 hy).1
    rw [createTask_tasks, List.length_append, List.length_singleton] at hlt
    exact absurd (Nat.le_antisymm (Nat.lt_succ_iff.1 hlt) hi) hne
  · rw [new, Option.some.injEq] at hy
    subst hy
    exact placed
  · rw [hnone] at hy
    cases hy
  · exact not_live_of_pc new (Pc.not_inside_of_idle c.pc_idle)
  · obtain ⟨x, hx, hs⟩ := hi
    rw [new, Option.some.injEq] at hx
    subst hx
    cases hs
  · rw [hnone] at hx
    cases hx
  · rw [hnone] at hx
    cases hx

theorem good_complete {t : TaskId} {o : Outcome} {d d' : Daemon} (ho : InOrder d)
    (hne : ∀ x, d.tasks[t]? = some x → x.coro.pc.isQuiet = true → x.status = .waiting .external →
      o = .ok ∨ o = .error ∧ x.coro.pc = .updating)
    (h : complete t o d = some d') : Good t none d d' := by
  unfold complete at h
  split at h
  · rename_i c m hg
    cases h
    have hself : (d.tasks.set t { coro := c, status := .ready o, mustCancel := m })[t]? =
        some { coro := c, status := .ready o, mustCancel := m } :=
      List.getElem?_set_self (List.getElem?_eq_some_iff.1 hg).1
    have hlive : outcomeOf t (d.tasks.set t { coro := c, status := .ready o, mustCancel := m }) = none := by
      rw [outcomeOf, hself]
      rfl
    -- It waited for the world outside, as the periodic task may, `start` and the helpers.
    have hpc : c.pc.aside = true ∨ c.pc.isQuiet = true ∧ m = false ∧ d.state.periodicTask = some t := by
      cases ho.tasks t _ hg with
      | ended h => cases h
      | aside hp => exact .inl hp
      | called _ _ hs => cases hs
      | async _ hs => cases hs
      | running _ _ hs => rcases hs with hs | ⟨_, hs, _⟩ <;> cases hs
      | itself _ hs => cases hs
      | replaces _ _ _ hs => rcases hs with hs | ⟨hs, _⟩ <;> cases hs
      | stored hp hm _ hs => exact .inr ⟨hp, hm, hs⟩
      | replaced _ hs => cases hs
      | attends _ _ hs => rcases hs with hs | ⟨_, hs, _⟩ <;> cases hs
    have hout : c.pc.inside = false ∧ c.pc.isAsync = false ∧ c.pc.attends = false := by
      rcases hpc with hp | ⟨hp, -⟩ <;> revert hp <;> cases c.pc <;>
        first | exact fun _ => ⟨rfl, rfl, rfl⟩ | exact fun h => Bool.noConfusion h
    refine good_outside ho (Same.stores (.refl _) ho) (by simp)
      (fun i y hi hy => ⟨y, ?_, .same (fun _ => hlive) fun _ _ => .inl hlive⟩)
      (fun i y hi _ hy => ?_) (fun y hy => ?_) (fun y hy => ?_) (not_live_of_pc hg hout.1) (not_live_of_pc hself hout.1)
      (not_live_of_pc hg hout.2.1) (fun hl _ => .inl ?_) (fun _ hd => ?_) (fun i hi => ?_) (fun x hx hp => ?_)
      (fun x hx hp => ?_)
    · rw [List.getElem?_set_ne (Ne.symm hi)]
      exact hy
    · rw [List.getElem?_eq_none (by simpa using hi)] at hy
      cases hy
    · rw [hself, Option.some.injEq] at hy
      subst hy
      rcases hpc with hp | ⟨hp, hm, hs⟩
      · exact .aside hp
      · refine .stored hp hm (fun o' h => ?_) hs
        obtain rfl : o = o' := by cases h; rfl
        exact hne { coro := c, status := .waiting .external, mustCancel := m } hg hp rfl
    · rw [hg, Option.some.injEq] at hy
      subst hy
      exact ⟨rfl, by rintro q ⟨⟩⟩
    · have hp := hl.at hg
      exact ⟨_, hself, rfl, hp⟩
    · obtain ⟨x, hx, hdue⟩ := hd
      rw [hg, Option.some.injEq] at hx
      subst hx
      cases hdue
    · obtain ⟨x, hx, hs⟩ := hi
      rw [hself, Option.some.injEq] at hx
      subst hx
      cases hs
    · rw [hg, Option.some.injEq] at hx
      subst hx
      exact ⟨_, hself, hp⟩
    · rw [hg, Option.some.injEq] at hx
      subst hx
      rw [hout.2.2] at hp
      cases hp
  · cases h

/-- How a turn of a task outside `_trigger` may end that leaves the rest as it is. -/
inductive Passes (t : TaskId) (d : Daemon) (task : Asyncio.Task Coro) : Flow Pc → Prop
  | aside (hp : task.coro.pc.aside = true) {f} (hf : (∃ o, f = .done o) ∨
      ∃ pc', f = .await pc' .external ∧ pc'.aside = true ∧ (task.coro.pc.isHelper = true → pc' = task.coro.pc)) :
      Passes t d task f
  | sleeps (hp : task.coro.pc.isQuiet = true) (hs : d.state.periodicTask = some t) (hd : task.due ≠ some .cancelled)
      {pc'} (hp' : pc'.isQuiet = true) : Passes t d task (.await pc' .external)
  | fails (hp : task.coro.pc.isQuiet = true) (hd : task.due ≠ some .cancelled) (hu : Unawaited d t) :
      Passes t d task (.done .error)
  | cancelled (hp : task.coro.pc.isQuiet = true) (hs : d.state.periodicTask ≠ some t) :
      Passes t d task (.done .cancelled)
  | called (wait : Bool) (hp : task.coro.pc = .trigger wait) (o : Outcome) : Passes t d task (.done o)
  | attends (wait : Bool) (hp : task.coro.pc = .trigger wait) {pc' q} (hp' : pc'.attends = true) (hq : q ≠ t)
      (hpr : Promises 0 d q) : Passes t d task (.await pc' (.task q))
  | back (hp : task.coro.pc.attends = true) : Passes t d task (.done .ok)

/-- What a turn leaves that cancels nothing and does not wait for itself. -/
structure Left (t : TaskId) (task : Asyncio.Task Coro) (f : Flow Pc) (cs : List Coro) (d d' : Daemon) : Prop where
  grown : Grown t cs d.tasks d'.tasks
  done : ∀ o, f = .done o → d'.tasks[t]? = some { task with status := .done o, mustCancel := false }
  waits : ∀ pc w, f = .await pc w →
    d'.tasks[t]? = some { coro := { task.coro with pc := pc }, status := .waiting w, mustCancel := false }

theorem TurnOf.left {env : Env} {t : TaskId} {task : Asyncio.Task Coro} {o : Outcome} {d d' : Daemon}
    (h : TurnOf env t task o d d') {d₁ : Daemon} (hg : d₁.tasks[t]? = some task) {cs : List Coro}
    (ht : (turn env task.coro.pc o (unmark t d)).1.tasks = (unmark t d₁).tasks ++ cs.map .fresh)
    (hw : ∀ pc, (turn env task.coro.pc o (unmark t d)).2 ≠ .await pc (.task t)) :
    Left t task (turn env task.coro.pc o (unmark t d)).2 cs d₁ d' := by
  have hself := unmark_get hg
  have hlt : t < (unmark t d₁).tasks.length := (List.getElem?_eq_some_iff.1 hself).1
  have hself' : ((unmark t d₁).tasks ++ cs.map .fresh)[t]? = some { task with mustCancel := false } := by
    rw [List.getElem?_append_left hlt, hself]
  have hlen : (unmark t d₁).tasks.length = d₁.tasks.length := by simp [unmark]
  have hd := h.tasks
  rw [ht] at hd
  refine ⟨?_, fun o' ho => ?_, fun pc w ho => ?_⟩
  · rw [hd]
    exact settle_grown hlen (fun i hi => unmark_get_ne hi d₁) hself (.inl rfl) cs
  · simp only [run, ho] at hd
    rw [hd]
    exact settle_done_self hself' rfl o'
  · simp only [run, ho] at hd
    rw [hd]
    exact settle_await_self hself' rfl _ fun h => hw pc (h ▸ ho)

/-- Where the task is after a turn that leaves the rest as it is. -/
structure Passed (t : TaskId) (d d' : Daemon) (task x : Asyncio.Task Coro) : Prop where
  placed : Placed d' t x
  outside : x.coro.pc.inside = false
  quiet : task.coro.pc.isQuiet = true → d.state.periodicTask = some t →
    x.isDone = false ∧ x.coro.pc.isQuiet = true ∨ Unawaited d t ∧ x.outcome = some .error
  doomed : task.coro.pc.isQuiet = true → task.due = some .cancelled → x.outcome = some .cancelled
  waits : ∀ i, x.status = .waiting (.task i) → Promises 0 d' i
  helper : task.coro.pc.isHelper = true → x.coro.pc.isHelper = true
  back : task.coro.pc.attends = true → x.outcome = some .ok

theorem Pc.aside_of_isHelper {pc : Pc} (h : pc.isHelper = true) : pc.aside = true := by
  cases pc <;> first | rfl | cases h

theorem Pc.not_isQuiet_of_aside {pc : Pc} (h : pc.aside = true) : pc.isQuiet = false := by
  cases pc <;> first | rfl | cases h

theorem Pc.not_attends_of_aside {pc : Pc} (h : pc.aside = true) : pc.attends = false := by
  cases pc <;> first | rfl | cases h

theorem Pc.not_inside_of_aside {pc : Pc} (h : pc.aside = true) : pc.inside = false := by
  cases pc <;> first | rfl | cases h

theorem of_false {b : Bool} {P : Prop} (h : b = false) (h' : b = true) : P := absurd h' (ne_true_of_eq_false h)

theorem Passes.passed {t : TaskId} {task : Asyncio.Task Coro} {f : Flow Pc} {d d' : Daemon} (hk : Locked d')
    (hs : Same d.state d'.state) (hl : Left t task f [] d d') (hf : Passes t d task f) :
    ∃ x, d'.tasks[t]? = some x ∧ Passed t d d' task x := by
  cases hf with
  | aside hp hf =>
    rcases hf with ⟨o, rfl⟩ | ⟨pc', rfl, hp', hh⟩
    · exact ⟨_, hl.done o rfl, .ended rfl, Pc.not_inside_of_aside hp, of_false (Pc.not_isQuiet_of_aside hp),
        of_false (Pc.not_isQuiet_of_aside hp), nofun, id, of_false (Pc.not_attends_of_aside hp)⟩
    · exact ⟨_, hl.waits _ _ rfl, .aside hp', Pc.not_inside_of_aside hp', of_false (Pc.not_isQuiet_of_aside hp),
        of_false (Pc.not_isQuiet_of_aside hp), nofun, fun h => hh h ▸ h, of_false (Pc.not_attends_of_aside hp)⟩
  | @sleeps hp hper hd pc' hp' =>
    refine ⟨_, hl.waits _ _ rfl, .stored hp' rfl nofun (hs.periodic.trans hper), ?_, fun _ _ => .inl ⟨rfl, hp'⟩,
      fun _ h => absurd h hd, nofun, fun h => ?_, fun h => ?_⟩
    · revert hp'
      cases pc' <;> first | exact fun _ => rfl | exact fun h => Bool.noConfusion h
    · exact of_false (Pc.not_isQuiet_of_isHelper h) hp
    · exact of_false (Pc.not_isQuiet_of_attends h) hp
  | fails hp hd hu =>
    refine ⟨_, hl.done _ rfl, .ended rfl, Pc.not_inside_of_isQuiet hp, fun _ _ => .inr ⟨hu, rfl⟩,
      fun _ h => absurd h hd, nofun, fun h => ?_, fun h => ?_⟩
    · exact of_false (Pc.not_isQuiet_of_isHelper h) hp
    · exact of_false (Pc.not_isQuiet_of_attends h) hp
  | cancelled hp hper =>
    refine ⟨_, hl.done _ rfl, .ended rfl, Pc.not_inside_of_isQuiet hp, fun _ h => absurd h hper,
      fun _ _ => rfl, nofun, fun h => ?_, fun h => ?_⟩
    · exact of_false (Pc.not_isQuiet_of_isHelper h) hp
    · exact of_false (Pc.not_isQuiet_of_attends h) hp
  | called wait hp o =>
    refine ⟨_, hl.done _ rfl, .ended rfl, ?_, ?_, ?_, nofun, ?_, ?_⟩ <;> simp only [hp] <;>
      first | rfl | exact of_false rfl
  | attends wait hp hp' hq hpr =>
    have hpr' : Promises 0 d' _ := hpr.of_same hk hs fun _ => hl.grown.live hq
    refine ⟨_, hl.waits _ _ rfl, .attends hp' rfl (.inr ⟨_, rfl, hpr'⟩),
      Pc.not_inside_of_attends hp', ?_, ?_, fun i hi => ?_, ?_, ?_⟩
    · rw [hp]
      exact of_false rfl
    · rw [hp]
      exact of_false rfl
    · cases hi
      exact hpr'
    · rw [hp]
      exact of_false rfl
    · rw [hp]
      exact of_false rfl
  | back hp =>
    refine ⟨_, hl.done _ rfl, .ended rfl, Pc.not_inside_of_attends hp,
      of_false (Pc.not_isQuiet_of_attends hp), of_false (Pc.not_isQuiet_of_attends hp), nofun, fun h => ?_,
      fun _ => rfl⟩
    · revert hp h
      cases task.coro.pc <;> first | exact fun h _ => Bool.noConfusion h | exact fun _ h => Bool.noConfusion h

theorem good_calm {env : Env} {t : TaskId} {task : Asyncio.Task Coro} {o : Outcome} {d d' : Daemon} (hk : Locked d')
    (ho : InOrder d) (h : TurnOf env t task o d d') (hc : Calm (unmark t d) (turn env task.coro.pc o (unmark t d)))
    (hf : Passes t d task (turn env task.coro.pc o (unmark t d)).2) : Good t none d d' := by
  have hs : Same d.state d'.state := h.state ▸ hc.state
  have hl : Left t task (turn env task.coro.pc o (unmark t d)).2 [] d d' := by
    refine h.left h.get (by rw [hc.tasks, List.map_nil, List.append_nil]) fun pc hr => ?_
    rw [hr] at hf
    cases hf with
    | aside _ hf => rcases hf with ⟨_, hf⟩ | ⟨_, hf, -⟩ <;> cases hf
    | attends _ _ _ hq => exact hq rfl
  generalize (turn env task.coro.pc o (unmark t d)).2 = f at hf hl
  have hout : task.coro.pc.inside = false ∧ task.coro.pc.isAsync = false := by
    cases hf with
    | called _ hp | attends _ hp => rw [hp]; exact ⟨rfl, rfl⟩
    | aside hp | sleeps hp | fails hp | cancelled hp | back hp =>
      revert hp
      cases task.coro.pc <;> first | exact fun _ => ⟨rfl, rfl⟩ | exact fun h => Bool.noConfusion h
  obtain ⟨x, hx, hpass⟩ := hf.passed hk hs hl
  have here : ∀ {p : Pc → Bool}, LiveAt p d t → p task.coro.pc = true := h.at
  have outcome : outcomeOf t d'.tasks = x.outcome := by rw [outcomeOf, hx]; rfl
  refine good_outside ho (hs.stores ho) (Nat.le_of_eq hl.grown.length.symm) hl.grown.others
    (fun i y hi _ hy => ?_) (fun y hy => ?_) (fun y hy => ?_) (not_live_of_pc h.get hout.1)
    (not_live_of_pc hx hpass.outside) (not_live_of_pc h.get hout.2) (fun hq hp => ?_) (fun hq hd => ?_)
    (fun i hi => ?_) (fun y hy hp => ?_) (fun y hy hp _ => ?_)
  · obtain ⟨k, c, hk, -⟩ := hl.grown.only hi hy
    cases hk
  · rw [hx, Option.some.injEq] at hy
    exact hy ▸ hpass.placed
  · rw [h.get, Option.some.injEq] at hy
    subst hy
    exact ⟨task.isDone_of_due h.due, fun u => Task.not_waiting_of_due h.due (.task u)⟩
  · rw [outcome]
    exact (hpass.quiet (here hq) hp).imp (fun hl => ⟨x, hx, hl.1, hl.2⟩) id
  · obtain ⟨y, hy, hdue⟩ := hd
    rw [h.get, Option.some.injEq] at hy
    subst hy
    exact outcome.trans (hpass.doomed (here hq) hdue)
  · obtain ⟨y, hy, hw⟩ := hi
    rw [hx, Option.some.injEq] at hy
    subst hy
    exact hpass.waits i hw
  · rw [h.get, Option.some.injEq] at hy
    subst hy
    exact ⟨x, hx, hpass.helper hp⟩
  · rw [h.get, Option.some.injEq] at hy
    subst hy
    exact outcome.trans (hpass.back hp)

/-! ## A task is made -/

/-- A turn that makes one task, and stores it. -/
theorem good_creates {env : Env} {t : TaskId} {task : Asyncio.Task Coro} {d d' : Daemon} (ho : InOrder d)
    (h : TurnOf env t task .ok d d') {c : Coro}
    (ht : (turn env task.coro.pc .ok (unmark t d)).1.tasks = (unmark t d).tasks ++ [c].map .fresh)
    (hf : (turn env task.coro.pc .ok (unmark t d)).2 = .done .ok ∨
      ∃ pc', (turn env task.coro.pc .ok (unmark t d)).2 = .await pc' .external ∧ pc'.aside = true)
    (hp : task.coro.pc = .start ∨ task.coro.pc = .trigger false) (hc : c.pc.inside = false)
    (hs : d'.tasks[d.tasks.length]? = some (.fresh c) → Stores d d')
    (placed : Stores d d' → Placed d' d.tasks.length (.fresh c)) : Good t none d d' := by
  have hl : Left t task (turn env task.coro.pc .ok (unmark t d)).2 [c] d d' := by
    refine h.left h.get ht fun pc hpc => ?_
    rcases hf with hf | ⟨pc', hf, -⟩ <;> rw [hf] at hpc <;> cases hpc
  have hstores : Stores d d' := hs (hl.grown.fresh 0 c rfl)
  have off : ∀ {p : Pc → Bool}, p .start = false → p (.trigger false) = false → p task.coro.pc = false := by
    intro p h₁ h₂
    rcases hp with hp | hp <;> rw [hp] <;> assumption
  obtain ⟨x, hx, hplaced, hin, hstatus⟩ : ∃ x, d'.tasks[t]? = some x ∧ Placed d' t x ∧ x.coro.pc.inside = false ∧
      ∀ u, x.status ≠ .waiting (.task u) := by
    rcases hf with hf | ⟨pc', hf, hp'⟩
    · exact ⟨_, hl.done _ hf, .ended rfl, off rfl rfl, nofun⟩
    · exact ⟨_, hl.waits _ _ hf, .aside hp', Pc.not_inside_of_aside hp', nofun⟩
  refine good_outside ho hstores (by rw [hl.grown.length]; exact Nat.le_add_right _ _) hl.grown.others
    (fun i y hi _ hy => ?_) (fun y hy => ?_) (fun y hy => ?_) (not_live_of_pc h.get (off rfl rfl))
    (not_live_of_pc hx hin) (not_live_of_pc h.get (off rfl rfl))
    (fun hq => absurd hq (not_live_of_pc h.get (off rfl rfl)))
    (fun hq => absurd hq (not_live_of_pc h.get (off rfl rfl)))
    (fun i hi => ?_) (fun y hy hpy => ?_) (fun y hy hpy => ?_)
  · obtain ⟨k, c', hk, rfl, rfl⟩ := hl.grown.only hi hy
    cases k with
    | zero =>
      cases hk
      exact ⟨placed hstores, hc, _, rfl⟩
    | succ k => cases hk
  · rw [hx, Option.some.injEq] at hy
    exact hy ▸ hplaced
  · rw [h.get, Option.some.injEq] at hy
    subst hy
    exact ⟨task.isDone_of_due h.due, fun u => Task.not_waiting_of_due h.due (.task u)⟩
  · obtain ⟨y, hy, hw⟩ := hi
    rw [hx, Option.some.injEq] at hy
    exact absurd hw (hy ▸ hstatus i)
  · rw [h.get, Option.some.injEq] at hy
    subst hy
    rw [off (p := Pc.isHelper) rfl rfl] at hpy
    cases hpy
  · rw [h.get, Option.some.injEq] at hy
    subst hy
    rw [off (p := Pc.attends) rfl rfl] at hpy
    cases hpy

/-- What `create_task` gets for a periodic task. -/
abbrev newPeriodic : Coro := { periodic := true, pc := .periodic }

/-- What `start` leaves of a daemon that is on. -/
structure Started (d : Daemon) (r : Result) : Prop where
  tasks : r.1.tasks = d.tasks ++ [newPeriodic].map .fresh
  on : r.1.state.on = d.state.on
  lock : r.1.state.triggerActive = d.state.triggerActive
  runs : r.1.state.runs = d.state.runs
  serving : r.1.state.serving = true
  periodic : r.1.state.periodicTask = some d.tasks.length
  async : r.1.state.asyncTrigger = d.state.asyncTrigger
  flow : ∃ pc', r.2 = .await pc' .external ∧ pc'.aside = true

theorem start_turn {env : Env} {d : Daemon} (hon : d.state.on = true) (hs : d.state.serving = false) :
    Started d (turn env .start .ok d) := by
  have hon' : (modify (fun s => { s with serving := true, nextTrigger := firstTrigger env s.lastTrigger }) d).state.on =
      true := hon
  simp only [turn, start, hs, Bool.false_eq_true, if_false, hon', if_true]
  unfold connect
  split
  · exact ⟨rfl, rfl, rfl, rfl, rfl, rfl, rfl, _, rfl, rfl⟩
  · exact ⟨rfl, rfl, rfl, rfl, rfl, rfl, rfl, _, rfl, rfl⟩

/-- `start` makes the first periodic task. -/
theorem good_start {env : Env} {t : TaskId} {task : Asyncio.Task Coro} {d d' : Daemon} (ho : InOrder d)
    (h : TurnOf env t task .ok d d') (hp : task.coro.pc = .start) (hs : d.state.serving = false) :
    Good t none d d' := by
  have hnone : d.state.periodicTask = none := by
    have hserving := ho.serving
    rw [hs] at hserving
    exact Option.not_isSome_iff_eq_none.1 (Bool.eq_false_iff.1 hserving.symm)
  have hturn : Started (unmark t d) (turn env task.coro.pc .ok (unmark t d)) := by
    rw [hp]
    exact start_turn ho.on hs
  have hper : d'.state.periodicTask = some d.tasks.length := by
    rw [h.state, hturn.periodic, unmark, List.length_modify]
  refine good_creates ho h hturn.tasks (.inr hturn.flow) (.inl hp) rfl (fun hnew => ?_) fun _ => ?_
  · refine ⟨by rw [h.state]; exact hturn.on, by rw [h.state]; exact hturn.lock, by rw [h.state]; exact hturn.runs, ?_,
      .inr ⟨hnone, _, hper, Nat.le_refl _, _, hnew, rfl, rfl⟩, .inl (by rw [h.state]; exact hturn.async)⟩
    rw [hper, h.state, hturn.serving]
    rfl
  · exact .stored rfl rfl (fun o h => .inl (by cases h; rfl)) hper

theorem async_turn {env : Env} {d : Daemon} (hon : d.state.on = true) (hl : d.state.triggerActive = false)
    (hs : d.state.asyncTrigger = none) : turn env (.trigger false) .ok d =
      (modify (fun s => { s with asyncTrigger := some d.tasks.length })
        (createTask { periodic := false, pc := .asyncTrigger } d), .done .ok) := by
  simp [turn, trigger, hon, hl, hs]

/-- `trigger(wait=False)` makes an asynchronous trigger. -/
theorem good_async {env : Env} {t : TaskId} {task : Asyncio.Task Coro} {d d' : Daemon} (ho : InOrder d)
    (h : TurnOf env t task .ok d d') (hp : task.coro.pc = .trigger false) (hl : d.state.triggerActive = false)
    (hs : d.state.asyncTrigger = none) : Good t none d d' := by
  have hturn : turn env task.coro.pc .ok (unmark t d) = _ := hp ▸ async_turn (d := unmark t d) ho.on hl hs
  have hstate : d'.state = { d.state with asyncTrigger := some (unmark t d).tasks.length } := by
    rw [h.state, hturn]
    rfl
  have hasync : d'.state.asyncTrigger = some d.tasks.length := by
    rw [hstate, unmark, List.length_modify]
  refine good_creates ho h (by rw [hturn]; rfl) (.inl (by rw [hturn])) (.inr hp) rfl (fun hnew => ?_) fun _ => ?_
  · refine ⟨by rw [hstate]; rfl, by rw [hstate], by rw [hstate], by rw [hstate]; exact ho.serving,
      .inl (by rw [hstate]), .inr ⟨hs, hl, _, hasync, _, hnew, rfl, rfl⟩⟩
  · exact .async rfl rfl rfl hasync

end LogSubmitter.Daemon

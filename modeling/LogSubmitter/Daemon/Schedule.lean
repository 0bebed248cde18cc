import LogSubmitter.Daemon.Periodic
/-!
# The schedule

A daemon that is on should have one periodic task that has not ended, the stored
one, and a daemon that is off none. The turns that keep it so are those that do
not forget a periodic task that goes on, store one in a daemon that is off, or
end what the schedule depends on.
-/
namespace LogSubmitter.Daemon

open Lib Lib.Asyncio

/-! ## The end of a run -/

/-- What keeps the schedule when the run of `t` ends: its time is written down, the daemon is on, and
the periodic task that is replaced is about to end, or can be cancelled. -/
structure EndsWell (env : Env) (t : TaskId) (d : Daemon) : Prop where
  fails : env.triggerWriteFails = true → Kept t d
  on : env.triggerWriteFails = false → d.state.serving = true → d.state.on = true
  replaced : env.triggerWriteFails = false → d.state.serving = true → ∀ p, d.state.periodicTask = some p → p ≠ t →
    Pending d p → Leaving d p ∨ (cancel recursionLimit p d.tasks).isSome = true

section Runs
variable {env : Env} {t : TaskId} {c : Coro} {d d' : Daemon}

theorem EndsWell.adds (ha : Adds (fun c : Coro => c.periodic = false) d.tasks d'.tasks)
    (hs : SameSchedule d.state d'.state) (h : EndsWell env t d) : EndsWell env t d' where
  fails hw := (h.fails hw).adds ha hs
  on hw hserving := hs.on ▸ h.on hw (hs.serving ▸ hserving)
  replaced hw hserving p hp hne hpend :=
    (h.replaced hw (hs.serving ▸ hserving) p (hs.periodic ▸ hp) hne (hpend.of_adds ha)).imp
      (Leaving.adds ha hpend.outcomeOf) ha.cancel_isSome

theorem EndsWell.modified {f : State → State} (h : EndsWell env t d) (hs : SameSchedule d.state (f d.state)) :
    EndsWell env t (modify f d) := by
  have ha : Adds (fun c : Coro => c.periodic = false) d.tasks (modify f d).tasks := .refl _ _
  exact h.adds ha hs

theorem leaves_release (h : Beside t c nobody d) (hk : Kept t d) : Leaves t c (release d) :=
  leaves_done (h.modified ⟨rfl, rfl, rfl⟩) (hk.modified ⟨rfl, rfl, rfl⟩) .ok

theorem leaves_replace {p : TaskId} (h : Beside t c (p = ·) d)
    (hn : cancel recursionLimit p d.tasks = none → Beside t c nobody d) (hk : Kept t d) :
    Leaves t c (replace p d) := by
  unfold replace
  split
  · rename_i hnone
    exact leaves_done (hn hnone) hk .error
  · rename_i r hr
    have ha := cancel_adds (fun c : Coro => c.periodic = false) hr
    have h₁ : Beside t c (p = ·) { d with tasks := r.1 } := h.adds ha ⟨rfl, rfl, rfl⟩
    have hk₁ : Kept t { d with tasks := r.1 } := hk.adds ha ⟨rfl, rfl, rfl⟩
    have ended : ∀ {o}, outcomeOf p r.1 = some o → Beside t c nobody { d with tasks := r.1 } := by
      intro o ho
      refine h₁.shrink fun i _ hp he => ?_
      subst he
      have hlive := hp.outcomeOf
      rw [ho] at hlive
      cases hlive
    simp only
    split
    · exact leaves_inside (h₁.shrink fun i _ _ he => .inr ⟨.replacing p, by rw [he], rfl⟩) rfl (.inr hk₁)
    · rename_i ho
      exact leaves_done (ended ho) hk₁ .error
    · rename_i o _ ho
      exact leaves_release (ended ho) hk₁

/-- The next periodic task takes the place of the one that was stored. -/
theorem leaves_replaces (h : Beside t c nobody d) (he : EndsWell env t d) (hw : env.triggerWriteFails = false) :
    Leaves t c (match d.state.periodicTask with
      | none => release (if d.state.serving = true then createPeriodic d else d)
      | some p => replace p (if d.state.serving = true then createPeriodic d else d)) := by
  cases hserving : d.state.serving with
  | false =>
    have hk : Kept t d := fun hs => by rw [hserving] at hs; cases hs
    simp only [Bool.false_eq_true, if_false]
    split
    · exact leaves_release h hk
    · exact leaves_replace (h.shrink fun _ _ _ => False.elim) (fun _ => h) hk
  | true =>
    have hon := he.on hw hserving
    have hk : Kept t (createPeriodic d) := fun _ _ => h.self.kept_creates
    simp only [if_true]
    split
    · rename_i hnone
      exact leaves_release (h.creates hon fun i _ _ hs => by rw [hnone] at hs; cases hs) hk
    · rename_i p hp
      have isStored : ∀ {i}, d.state.periodicTask = some i → p = i := fun hs => by
        rw [hp] at hs
        exact Option.some.inj hs
      refine leaves_replace (h.creates hon fun i _ _ hs => .inr (isStored hs)) (fun hnone => ?_) hk
      refine h.creates hon fun i hi hl hs => .inl ?_
      obtain rfl := isStored hs
      refine (he.replaced hw hserving p hp hi hl).resolve_right fun hsome => ?_
      have hsome' := (createPeriodic_adds d).cancel_isSome hsome
      rw [hnone] at hsome'
      cases hsome'

theorem leaves_afterRun (h : Beside t c nobody d) (he : EndsWell env t d) : Leaves t c (afterRun env d) := by
  unfold afterRun
  simp only
  split
  · rename_i hw
    exact leaves_done (h.modified ⟨rfl, rfl, rfl⟩) ((he.fails hw).modified ⟨rfl, rfl, rfl⟩) .error
  · rename_i hw
    have h₁ : Beside t c nobody (modify (fun s => { s with lastTrigger := some env.now }) d) :=
      h.modified ⟨rfl, rfl, rfl⟩
    exact leaves_replaces (h₁.modified ⟨rfl, rfl, rfl⟩) ((he.modified ⟨rfl, rfl, rfl⟩).modified ⟨rfl, rfl, rfl⟩)
      (Bool.eq_false_iff.2 hw)

/-- The tasks for the helpers are none of `_trigger_periodic`. -/
theorem startHelpers_adds (phase : Phase) (plans : List Plan) (d : Daemon) :
    Adds (fun c : Coro => c.periodic = false) d.tasks (startHelpers phase plans d).1.tasks ∧
      SameSchedule d.state (startHelpers phase plans d).1.state := by
  induction plans generalizing d with
  | nil => exact ⟨.refl _ _, rfl, rfl, rfl⟩
  | cons plan plans ih =>
    cases plan with
    | skip => exact ih d
    | raises => exact ⟨.refl _ _, rfl, rfl, rfl⟩
    | task =>
      obtain ⟨ha, hs⟩ := ih (createTask { periodic := false, pc := .helper phase } d)
      exact ⟨(createTask_adds (fun c : Coro => c.periodic = false) rfl d).trans ha, hs.on, hs.serving, hs.periodic⟩

theorem leaves_runSubmit (h : Beside t c nobody d) (he : Waitless env.submit → EndsWell env t d) :
    Leaves t c (runSubmit env d) := by
  obtain ⟨ha, hs⟩ := startHelpers_adds .submit env.submit d
  unfold runSubmit
  simp only
  split
  · rename_i hw
    exact leaves_afterRun (h.adds ha hs) ((he (startHelpers_waitless hw)).adds ha hs)
  · exact leaves_inside ((h.adds ha hs).shrink fun _ _ _ => False.elim) rfl (.inl rfl)

theorem leaves_runCollect (h : Beside t c nobody d)
    (he : Waitless env.collect → Waitless env.submit → EndsWell env t d) : Leaves t c (runCollect env d) := by
  obtain ⟨ha, hs⟩ := startHelpers_adds .collect env.collect d
  unfold runCollect
  simp only
  split
  · rename_i hw
    exact leaves_runSubmit (h.adds ha hs) fun hsub => (he (startHelpers_waitless hw) hsub).adds ha hs
  · exact leaves_inside ((h.adds ha hs).shrink fun _ _ _ => False.elim) rfl (.inl rfl)

/-- `_trigger`, from its guard. -/
theorem leaves_innerTrigger (h : Beside t c nobody d)
    (hk : d.state.on = true → d.state.triggerActive = true → Kept t d)
    (he : d.state.on = true → d.state.triggerActive = false → Waitless env.collect → Waitless env.submit →
      EndsWell env t d) : Leaves t c (innerTrigger env d) := by
  have kept : (!d.state.on) = true ∨ d.state.triggerActive = true → Kept t d := by
    intro hor
    cases hon : d.state.on with
    | false => exact .of_off hon
    | true =>
      rw [hon] at hor
      exact hk hon (hor.resolve_left Bool.false_ne_true)
  unfold innerTrigger
  split
  · rename_i hor
    exact leaves_done (h.modified ⟨rfl, rfl, rfl⟩) ((kept hor).modified ⟨rfl, rfl, rfl⟩) .ok
  · rename_i hn
    simp only [Bool.not_eq_true', not_or, Bool.not_eq_false, Bool.not_eq_true] at hn
    exact leaves_runCollect (h.modified ⟨rfl, rfl, rfl⟩) fun hc hs => (he hn.1 hn.2 hc hs).modified ⟨rfl, rfl, rfl⟩

/-! ## `trigger` -/

/-- What keeps the schedule when the turn of `t` comes to `trigger`: if it ends there, it is not what
the schedule depends on. -/
structure Triggering (env : Env) (wait : Bool) (t : TaskId) (d : Daemon) : Prop where
  async : wait = false → Kept t d
  ended : ∀ u ∈ d.state.asyncTrigger, (outcomeOf u d.tasks).isSome = true → Kept t d
  ends : wait = true → d.state.on = true → d.state.triggerActive = false → d.state.asyncTrigger = none →
    Waitless env.collect → Waitless env.submit → EndsWell env t d

theorem leaves_trigger {wait : Bool} (h : Beside t c nobody d) (ho : Own t c d) (hw : Triggering env wait t d) :
    Leaves t c (trigger env wait d) := by
  have done : ∀ o, Kept t d → Leaves t c (d, .done o) := fun o hk => leaves_done h hk o
  have ended : ∀ {u : TaskId} {o}, outcomeOf u d.tasks = some o →
      d.state.asyncTrigger = some u ∨ d.state.asyncTrigger = none ∧ d.state.periodicTask = some u → Kept t d := by
    intro u o hu hor
    rcases hor with hs | ⟨-, hs⟩
    · exact hw.ended u hs (by rw [hu]; rfl)
    · refine fun hserving hon => (ho.kept hserving hon).resolve_right fun ht => ?_
      rw [hs, Option.some.injEq] at ht
      rw [ht, h.self.outcomeOf] at hu
      cases hu
  unfold trigger
  split
  · rename_i hoff
    -- Off: `trigger` returns.
    exact done .ok (.of_off (by simpa using hoff))
  · rename_i hon
    split
    · split
      · rename_i hwait
        exact done .ok (hw.async (by simpa using hwait))
      · split
        · rename_i hnone
          obtain ⟨-, hs⟩ := Option.or_eq_none_iff.1 hnone
          refine done .ok fun hserving hon => (ho.kept hserving hon).resolve_right fun ht => ?_
          rw [hs] at ht
          cases ht
        · rename_i u hu
          -- `_trigger_active`, and the caller waits for what is stored.
          have hs : d.state.asyncTrigger = some u ∨ d.state.asyncTrigger = none ∧ d.state.periodicTask = some u :=
            Option.or_eq_some_iff.1 hu
          split
          · exact leaves_waits h ho rfl
          · rename_i hout
            exact done _ (ended hout hs)
          · rename_i o _ hout
            exact done o (ended hout hs)
    · rename_i hfree
      split
      · rename_i u hu
        split
        · rename_i hwait
          exact done .ok (hw.async (by simpa using hwait))
        · split
          · exact leaves_waits h ho rfl
          · rename_i o hout
            exact done o (ended hout (.inl hu))
      · rename_i hnone
        split
        · rename_i hwait
          exact leaves_innerTrigger h (fun _ hl => absurd hl hfree) (hw.ends hwait · · hnone)
        · rename_i hwait
          -- `wait=False`: a task is made, and stored in `_async_trigger`.
          have ha := createTask_adds (fun c : Coro => c.periodic = false) (c := ⟨false, .asyncTrigger⟩) rfl d
          have hk : Kept t d := hw.async (by simpa using hwait)
          exact leaves_done ((h.adds ha ⟨rfl, rfl, rfl⟩).modified ⟨rfl, rfl, rfl⟩)
            ((hk.adds ha ⟨rfl, rfl, rfl⟩).modified ⟨rfl, rfl, rfl⟩) .ok

/-- A turn of the periodic task before it triggers, or in which it does. -/
theorem leaves_quiet {pc : Pc} (hp : pc.isQuiet = true) (h : Beside t c nobody d) (ho : Own t c d)
    (hw : pc.asks env d.state = true → Triggering env true t d)
    (hf : pc = .updating → env.applistWriteFails = true → Kept t d) : Leaves t c (turn env pc .ok d) := by
  have stamped : ∀ update, Beside t c nobody (stamp update d) ∧ Own t c (stamp update d) := fun update =>
    ⟨h.modified ⟨rfl, rfl, rfl⟩, ho.modified ⟨rfl, rfl, rfl⟩ h.self.outcomeOf⟩
  cases ha : pc.asks env d.state with
  | true =>
    obtain ⟨update, hturn⟩ := asks_turn ha
    obtain ⟨h₁, ho₁⟩ := stamped update
    have hw := hw ha
    rw [hturn]
    refine leaves_trigger h₁ ho₁ ⟨nofun, fun u hu hd => ?_, fun hwait hon hl hn hc hs => ?_⟩
    · exact (hw.ended u hu hd).modified ⟨rfl, rfl, rfl⟩
    · exact (hw.ends hwait hon hl hn hc hs).modified ⟨rfl, rfl, rfl⟩
  | false =>
    cases hserving : d.state.serving with
    | false =>
      have hk : Kept t d := fun hs => by rw [hserving] at hs; cases hs
      have slept : Leaves t c (afterSleep env d) := by
        rw [afterSleep, afterUpdate, hserving]
        split
        · exact leaves_waits h ho rfl
        · exact leaves_done h hk .ok
      cases pc <;> try exact absurd hp Bool.false_ne_true
      case periodic =>
        rw [turn, triggerPeriodic]
        split
        · exact leaves_waits h ho rfl
        · exact slept
      case sleeping => exact slept
      case updating =>
        have hoff : (modify (fun s => { s with lastApplistUpdate := some env.now }) d).state.serving = false := hserving
        simp only [turn, applistUpdated, afterUpdate, hoff, Bool.not_false, if_true]
        split <;> exact leaves_done (stamped (some env.now)).1 (hk.modified ⟨rfl, rfl, rfl⟩) _
    | true =>
      obtain ⟨hcalm, hflow⟩ := quiet_turn hp hserving ha
      generalize turn env pc .ok d = r at hcalm hflow
      obtain ⟨d₁, f⟩ := r
      have hs : SameSchedule d.state d₁.state := ⟨hcalm.state.on, hcalm.state.serving, hcalm.state.periodic⟩
      have ha : Adds (fun c : Coro => c.periodic = false) d.tasks d₁.tasks := by
        rw [show d₁.tasks = d.tasks from hcalm.tasks]
        exact .refl _ _
      have h₁ := h.adds ha hs
      rcases hflow with ⟨pc', hf', hq⟩ | ⟨hupd, hfail, hf'⟩ <;> obtain rfl : f = _ := hf'
      · exact leaves_waits h₁ (ho.adds ha hs h₁.self.outcomeOf) (by cases pc' <;> first | rfl | cases hq)
      · exact leaves_done h₁ ((hf hupd hfail).adds ha hs) _

end Runs

/-! ## `_cancel_periodic` and `_update_schedule` -/

section Calls
variable {env : Env} {t : TaskId} {c : Coro} {d : Daemon}

/-- With the stored periodic task ended, or on its way out, what keeps the schedule is elsewhere. -/
theorem Kept.forget (hk : Kept t d) (hp : ∀ p, d.state.periodicTask = some p → ¬ Pending d p) :
    Kept t (modify (fun s => { s with periodicTask := none }) d) := by
  intro hserving hon
  cases hk hserving hon with
  | stored p _ hs hl => exact absurd hl (hp p hs)
  | running h => exact .running h
  | cancels h => exact .cancels h

/-- What comes after `_cancel_periodic`, with nothing stored. -/
def Rests (t : TaskId) (c : Coro) (rest : Daemon → Result) : Prop :=
  ∀ d, d.state.periodicTask = none → Beside t c nobody d → Kept t d → Leaves t c (rest d)

theorem leaves_cancelPeriodic {waits : TaskId → Pc} {rest : Daemon → Result} (hw : ∀ p, (waits p).cancels = true)
    (hc : c.periodic = false) (h : Beside t c (fun i => d.state.periodicTask = some i) d)
    (hn : (∀ p, d.state.periodicTask = some p → cancel recursionLimit p d.tasks = none) → Beside t c nobody d)
    (hk : Kept t d) (hr : Rests t c rest) : Leaves t c (cancelPeriodic waits d rest) := by
  unfold cancelPeriodic
  split
  · rename_i hnone
    exact hr d hnone (hn fun p hp => by rw [hnone] at hp; cases hp) hk
  · rename_i p hp
    split
    · rename_i hcancel
      refine leaves_done (hn fun q hq => ?_) hk .error
      rw [hp, Option.some.injEq] at hq
      rw [← hq, hcancel]
    · rename_i r hcancel
      have ha := cancel_adds (fun c : Coro => c.periodic = false) hcancel
      have h₁ : Beside t c (fun i => d.state.periodicTask = some i) { d with tasks := r.1 } := h.adds ha ⟨rfl, rfl, rfl⟩
      have hk₁ : Kept t { d with tasks := r.1 } := hk.adds ha ⟨rfl, rfl, rfl⟩
      have isStored : ∀ {i}, d.state.periodicTask = some i → p = i := fun hs => by
        rw [hp] at hs
        exact Option.some.inj hs
      have ended : ∀ {o}, outcomeOf p r.1 = some o → ∀ i, d.state.periodicTask = some i →
          ¬ Pending { d with tasks := r.1 } i := by
        intro o ho i hs hl
        have hlive := hl.outcomeOf
        rw [← isStored hs, ho] at hlive
        cases hlive
      simp only
      split
      · refine leaves_call (h₁.shrink fun i _ _ hs => .inr ⟨waits p, by rw [isStored hs], ?_⟩) hc (.inl (hw p))
        exact Pc.busy_of_cancels (hw p)
      · rename_i ho
        exact leaves_done (h₁.shrink fun i _ hl hs => absurd hl (ended ho i hs)) hk₁ .error
      · rename_i o _ ho
        have h₂ : Beside t c nobody { d with tasks := r.1 } := h₁.shrink fun i _ hl hs => absurd hl (ended ho i hs)
        exact hr _ rfl (h₂.forget fun i _ hl hs => absurd hl (ended ho i hs)) (hk₁.forget (ended ho))

/-- `_cancel_periodic` of a daemon whose schedule is kept. -/
theorem leaves_cancels {waits : TaskId → Pc} {rest : Daemon → Result} (hw : ∀ p, (waits p).cancels = true)
    (hc : c.periodic = false) (h : Beside t c nobody d) (hk : Kept t d) (hr : Rests t c rest) :
    Leaves t c (cancelPeriodic waits d rest) :=
  leaves_cancelPeriodic hw hc (h.shrink fun _ _ _ => False.elim) (fun _ => h) hk hr

/-- `_update_schedule` of `_leave_suspend`, with nothing stored. -/
theorem leaves_reschedule (hnone : d.state.periodicTask = none) (h : Beside t c nobody d) :
    Leaves t c (reschedule d) := by
  rw [reschedule, updateSchedule, if_pos hnone]
  split
  · rename_i hoff
    rw [cancelPeriodic, hnone]
    exact leaves_done h (.of_off (by simpa using hoff)) .ok
  · rename_i hon
    refine leaves_done (h.creates (by simpa using hon) fun i _ _ hs => ?_) (fun _ _ => h.self.kept_creates) .ok
    rw [hnone] at hs
    cases hs

theorem leaves_cancelledPeriodic {o : Outcome} {rest : Daemon → Result} (h : Beside t c nobody d)
    (hk : o = .error → Kept t d) (hs : o ≠ .error → ∀ p, d.state.periodicTask = some p → Pending d p → Leaving d p)
    (hr : ∀ d', o ≠ .error → d'.state.periodicTask = none → d'.state.serving = d.state.serving →
      d'.state.on = d.state.on →
      d'.tasks = d.tasks → Beside t c nobody d' → Leaves t c (rest d')) : Leaves t c (cancelledPeriodic o d rest) := by
  have forgets : o ≠ .error → Leaves t c (rest (modify (fun s => { s with periodicTask := none }) d)) := fun ho =>
    hr _ ho rfl rfl rfl rfl (h.forget fun i _ hl hp => hs ho i hp hl)
  cases o with
  | error => exact leaves_done h (hk rfl) .error
  | ok => exact forgets nofun
  | cancelled => exact forgets nofun

/-! ## Toggles -/

/-- What keeps the schedule when a setting is written. -/
structure Writes (env : Env) (setting : Setting) (state : Bool) (t : TaskId) (d : Daemon) : Prop where
  off : d.state.on = true → (d.state.set setting state).on = false → env.toggleWriteFails = false ∧
    (∀ p, d.state.periodicTask = some p → (cancel recursionLimit p d.tasks).isSome = true) ∨
      ∀ i, Pending d i → Leaving d i
  on : d.state.on = false → (d.state.set setting state).on = true → d.state.serving = true →
    env.toggleWriteFails = false ∧ d.state.periodicTask = none ∨ KeptWithout t d

theorem leaves_emit (h : Beside t c nobody d) (hk : Kept t d) : Leaves t c (emit d) := leaves_done h hk _

/-- The setting has its new value, and nothing else has happened. -/
abbrev withSetting (setting : Setting) (state : Bool) (d : Daemon) : Daemon := modify (fun s => s.set setting state) d

theorem withSetting_periodic (setting : Setting) (state : Bool) (d : Daemon) :
    (withSetting setting state d).state.periodicTask = d.state.periodicTask := by cases setting <;> rfl

theorem withSetting_serving (setting : Setting) (state : Bool) (d : Daemon) :
    (withSetting setting state d).state.serving = d.state.serving := by cases setting <;> rfl

/-- The daemon is off with the setting. -/
theorem leaves_writesOff {setting : Setting} {state : Bool} (hc : c.periodic = false) (h : Beside t c nobody d)
    (hw : Writes env setting state t d) (hoff : (withSetting setting state d).state.on = false) :
    Leaves t c (writeSetting env setting state d) := by
  have hs := withSetting_periodic setting state d
  have plain : d.state.on = false ∨ (∀ i, Pending d i → Leaving d i) →
      Beside t c nobody (withSetting setting state d) := fun hor =>
    h.set hs (fun _ i hi hp => hor.elim (h.off · i hi hp) fun hl => .inl (hl i hp)) fun _ => id
  unfold writeSetting
  simp only
  split
  · rename_i hf
    refine leaves_done (plain ?_) (.of_off hoff) .error
    cases hon : d.state.on with
    | false => exact .inl rfl
    | true =>
      refine .inr ((hw.off hon hoff).resolve_left fun hor => ?_)
      rw [hf] at hor
      cases hor.1
  · have stored : Beside t c (fun i => (withSetting setting state d).state.periodicTask = some i)
        (withSetting setting state d) :=
      h.set hs (fun _ i hi hp => (h.one i hi hp).symm.imp (·.elim id False.elim) (hs.trans ·)) fun _ => False.elim
    rw [updateSchedule, if_pos (by rw [hoff]; rfl)]
    refine leaves_cancelPeriodic (fun _ => rfl) hc stored (fun hnone => ?_) (.of_off hoff) fun _ _ => leaves_emit
    cases hon : d.state.on with
    | false => exact plain (.inl hon)
    | true =>
      rcases hw.off hon hoff with ⟨-, hsome⟩ | hl
      · refine stored.shrink fun i _ _ hi => ?_
        have hcancel := hsome i (hs.symm.trans hi)
        rw [show cancel recursionLimit i d.tasks = none from hnone i hi] at hcancel
        cases hcancel
      · exact plain (.inr hl)

/-- The daemon is on with the setting. -/
theorem leaves_writesOn {setting : Setting} {state : Bool} (h : Beside t c nobody d) (hk : Kept t d)
    (hw : Writes env setting state t d) (hon : (withSetting setting state d).state.on = true) :
    Leaves t c (writeSetting env setting state d) := by
  have hs := withSetting_periodic setting state d
  have h₁ : Beside t c nobody (withSetting setting state d) :=
    h.set hs (fun hoff => Bool.noConfusion (hoff.symm.trans hon)) fun _ => id
  have kept : (d.state.on = false → d.state.serving = true → KeptWithout t d) →
      Kept t (withSetting setting state d) := by
    intro hkept hserving _
    have hserving₀ : d.state.serving = true := (withSetting_serving setting state d).symm.trans hserving
    have hkw : KeptWithout t d := by
      cases hon₀ : d.state.on with
      | false => exact hkept hon₀ hserving₀
      | true => exact hk hserving₀ hon₀
    have ha : Adds (fun _ => True) d.tasks (withSetting setting state d).tasks := .refl _ _
    exact hkw.adds ha hs
  unfold writeSetting
  simp only
  split
  · rename_i hf
    refine leaves_done h₁ (kept fun hoff hserving => (hw.on hoff hon hserving).resolve_left fun hor => ?_) .error
    rw [hf] at hor
    cases hor.1
  · rw [updateSchedule, if_neg (by rw [hon]; exact Bool.false_ne_true)]
    split
    · rename_i hnone
      refine leaves_emit (h₁.creates hon fun i _ _ hi => ?_) fun _ _ => h₁.self.kept_creates
      rw [hnone] at hi
      cases hi
    · rename_i hsome
      refine leaves_emit h₁ (kept fun hoff hserving => (hw.on hoff hon hserving).resolve_left fun hor => ?_)
      exact hsome (hs.trans hor.2)

theorem leaves_writeSetting {setting : Setting} {state : Bool} (hc : c.periodic = false) (h : Beside t c nobody d)
    (hk : Kept t d) (hw : Writes env setting state t d) : Leaves t c (writeSetting env setting state d) := by
  cases hon : (withSetting setting state d).state.on with
  | false => exact leaves_writesOff hc h hw hon
  | true => exact leaves_writesOn h hk hw hon

/-- `enable` or `inhibit`, which may wait for the asynchronous trigger before it writes. -/
theorem leaves_toggle {setting : Setting} {state : Bool} (hc : c.periodic = false) (h : Beside t c nobody d)
    (hk : Kept t d)
    (hw : (setting.stops state = true → ∀ u, d.state.asyncTrigger = some u → outcomeOf u d.tasks = some .ok) →
      Writes env setting state t d) : Leaves t c (toggle env setting state d) := by
  unfold toggle
  split
  · exact leaves_done h hk .ok
  · split
    · split
      · rename_i hnone
        exact leaves_writeSetting hc h hk (hw fun _ u hu => by rw [hnone] at hu; cases hu)
      · rename_i u hu
        split
        · exact leaves_call (h.shrink fun _ _ _ => False.elim) hc (.inr hk)
        · rename_i hout
          refine leaves_writeSetting hc h hk (hw fun _ u' hu' => ?_)
          rw [hu, Option.some.injEq] at hu'
          rw [← hu', hout]
        · exact leaves_done h hk _
    · rename_i hstarts
      exact leaves_writeSetting hc h hk (hw fun hstops => absurd hstops hstarts)

/-! ## `_leave_suspend`, `start` and `shutdown` -/

theorem leaves_leaveSuspend (value : String) (hc : c.periodic = false) (h : Beside t c nobody d) (hk : Kept t d) :
    Leaves t c (leaveSuspend value d) := by
  have h₁ : Beside t c nobody (modify (fun s => { s with suspend := value }) d) := h.modified ⟨rfl, rfl, rfl⟩
  have hk₁ : Kept t (modify (fun s => { s with suspend := value }) d) := hk.modified ⟨rfl, rfl, rfl⟩
  unfold leaveSuspend
  split
  · exact leaves_done h hk .ok
  · simp only
    split
    · split
      · exact leaves_done h₁ hk₁ .ok
      · exact leaves_call (h₁.shrink fun _ _ _ => False.elim) hc (.inr hk₁)
    · exact leaves_done h₁ hk₁ .ok

theorem leaves_connect (hc : c.periodic = false) (h : Beside t c nobody d) (hk : Kept t d) :
    Leaves t c (connect d) := by
  unfold connect
  split
  · exact leaves_call (h.shrink fun _ _ _ => False.elim) hc (.inr hk)
  · exact leaves_call ((h.modified ⟨rfl, rfl, rfl⟩).shrink fun _ _ _ => False.elim) hc
      (.inr (hk.modified ⟨rfl, rfl, rfl⟩))

/-- `start` makes the first periodic task, whatever is stored. -/
theorem leaves_start (hc : c.periodic = false) (h : Beside t c nobody d) (hk : Kept t d)
    (hs : d.state.serving = false → d.state.on = true →
      ∀ p, d.state.periodicTask = some p → Pending d p → Leaving d p) : Leaves t c (start env d) := by
  unfold start
  split
  · exact leaves_done h hk .ok
  · rename_i hserving
    have hserving : d.state.serving = false := by simpa using hserving
    have h₁ : Beside t c nobody
        (modify (fun s => { s with serving := true, nextTrigger := firstTrigger env s.lastTrigger }) d) :=
      h.set rfl h.off fun _ => id
    simp only
    split
    · rename_i hon
      exact leaves_connect hc (h₁.creates hon fun i _ hp hi => .inl (hs hserving hon i hi hp))
        fun _ _ => h₁.self.kept_creates
    · rename_i hoff
      exact leaves_connect hc h₁ (.of_off (by simpa using hoff))

theorem leaves_shutdownPeriodic (hc : c.periodic = false) (h : Beside t c nobody d) (hk : Kept t d) :
    Leaves t c (shutdownPeriodic d) :=
  leaves_cancels (fun _ => rfl) hc h hk fun _ _ h hk => leaves_done h hk _

theorem leaves_shutdown (hc : c.periodic = false) (h : Beside t c nobody d) : Leaves t c (shutdown d) := by
  have h₁ : Beside t c nobody (modify (fun s => { s with serving := false }) d) := h.set rfl h.off fun _ => id
  have hk₁ : Kept t (modify (fun s => { s with serving := false }) d) := nofun
  unfold shutdown
  simp only
  split
  · exact leaves_shutdownPeriodic hc h₁ hk₁
  · split
    · exact leaves_call (h₁.shrink fun _ _ _ => False.elim) hc (.inr hk₁)
    · exact leaves_shutdownPeriodic hc (h₁.modified ⟨rfl, rfl, rfl⟩) nofun
    · exact leaves_done h₁ hk₁ _

end Calls

end LogSubmitter.Daemon

import LogSubmitter.Daemon.Inside
/-!
# Waiting for a run

The steps that harm nobody who waits keep the daemon in order, so each call of
`trigger(wait=True)` returns, and after a run. A run that ends while a caller
waits for the periodic task it replaces is one that does harm.
-/
namespace LogSubmitter.Daemon

open Lib Lib.Asyncio

/-! ## Calls and runs -/

/-- In the step from `d`, task `t` calls `trigger(wait=True)` of a serving daemon. -/
def Asks (t : TaskId) (d : Daemon) (e : Event) : Prop :=
  ∃ env task, e = .resume t env ∧ d.tasks[t]? = some task ∧ task.due = some .ok ∧
    task.coro.pc.asks env d.state = true ∧ d.state.serving = true

/-- The `n`th run is in progress in `d`, or has not started. -/
def Since (d : Daemon) (n : Nat) : Prop := d.state.runs < n ∨ n = d.state.runs ∧ ∃ i, Running d i

/-- Each call of `trigger(wait=True)` returns, and only after a run has ended that was in progress
or had not started when it was made. -/
def Attended (tr : List (Daemon × Event)) (d : Daemon) : Prop :=
  ∀ t tr₀ d₀ e tr₁, tr = tr₀ ++ (d₀, e) :: tr₁ → Asks t d₀ e →
    (∀ o, outcomeOf t d.tasks = some o → o = .ok ∧ ∃ n, Since d₀ n ∧ Returned n d) ∧
    (outcomeOf t d.tasks = none → UnderWay d.tasks t)

/-! ## What must not happen -/

/-- A run starts in this turn. -/
def starts (env : Env) (s : State) (pc : Pc) (o : Outcome) : Bool :=
  o = .ok ∧ s.on ∧ ¬ s.triggerActive ∧ (pc = .asyncTrigger ∨ pc.asks env s ∧ s.asyncTrigger = none)

/-- A run ends in this turn. -/
def finishes (env : Env) (s : State) : Pc → Outcome → Bool
  | .submitting, o => o ≠ .cancelled
  | .collecting, o => o ≠ .cancelled ∧ Waitless env.submit
  | pc, o => starts env s pc o ∧ Waitless env.collect ∧ Waitless env.submit

/-- What a turn meets that does nobody who waits any harm. -/
structure Orderly (d : Daemon) (t : TaskId) (env : Env) (pc : Pc) (o : Outcome) : Prop where
  /-- The run that ends is written down, and it is the periodic task's, or it replaces one that has
  not failed and that nobody waits for. -/
  ends : finishes env d.state pc o = true → env.triggerWriteFails = false ∧
    ∀ p ∈ d.state.periodicTask, outcomeOf p d.tasks ≠ some .error ∧ (p = t ∨ Unawaited d p)
  /-- A caller that finds a run in progress finds the asynchronous trigger in `runner.trigger`, or a
  periodic task that has not failed. -/
  finds : pc = .trigger true → d.state.triggerActive = true → (∀ u ∈ d.state.asyncTrigger, Running d u) ∧
    (d.state.asyncTrigger = none → ∀ p ∈ d.state.periodicTask, outcomeOf p d.tasks ≠ some .error)
  /-- The periodic task finds no run in progress, and none about to start. -/
  periodic : pc.isQuiet = true → o = .ok → pc.asks env d.state = true →
    d.state.triggerActive = false ∧ d.state.asyncTrigger = none
  /-- No other run has started when the caller comes back. -/
  wakes : pc = .awaitingStored → d.state.triggerActive = false
  /-- The periodic task does not fail while it is waited for. -/
  updates : pc = .updating → o = .error ∨ o = .ok ∧ env.applistWriteFails = true → Unawaited d t

set_option synthInstance.maxSize 512 in
instance (d : Daemon) (t : TaskId) (env : Env) (pc : Pc) (o : Outcome) : Decidable (Orderly d t env pc o) :=
  decidable_of_iff
    ((finishes env d.state pc o = true → env.triggerWriteFails = false ∧
      ∀ p ∈ d.state.periodicTask, outcomeOf p d.tasks ≠ some .error ∧ (p = t ∨ Unawaited d p)) ∧
    (pc = .trigger true → d.state.triggerActive = true → (∀ u ∈ d.state.asyncTrigger, Running d u) ∧
      (d.state.asyncTrigger = none → ∀ p ∈ d.state.periodicTask, outcomeOf p d.tasks ≠ some .error)) ∧
    (pc.isQuiet = true → o = .ok → pc.asks env d.state = true →
      d.state.triggerActive = false ∧ d.state.asyncTrigger = none) ∧
    (pc = .awaitingStored → d.state.triggerActive = false) ∧
    (pc = .updating → o = .error ∨ o = .ok ∧ env.applistWriteFails = true → Unawaited d t))
    ⟨fun ⟨h₁, h₂, h₃, h₄, h₅⟩ => ⟨h₁, h₂, h₃, h₄, h₅⟩, fun h => ⟨h.ends, h.finds, h.periodic, h.wakes, h.updates⟩⟩

/-- If the step is a turn, it does no harm. -/
def Harmless (d : Daemon) : Event → Prop := OnTurn (Orderly d) d

instance (d : Daemon) (e : Event) : Decidable (Harmless d e) := inferInstanceAs (Decidable (OnTurn _ d e))

/-! ## Every step -/

/-- A caller waits for a task that promises a run. -/
theorem good_attends {env : Env} {t q : TaskId} {task : Asyncio.Task Coro} {d d' : Daemon} {update : Option Int}
    {pc : Pc} {b : Nat} (hk : Locked d') (ho : InOrder d) (h : TurnOf env t task .ok d d')
    (hpc : task.coro.pc = .trigger true)
    (hr : turn env task.coro.pc .ok (unmark t d) = (stamp update (unmark t d), .await pc (.task q)))
    (hp : pc.attends = true) (hq : q ≠ t) (hpr : Promises b d q) : Good t none d d' ∧ Served b t d' := by
  have hc : Calm (unmark t d) (turn env task.coro.pc .ok (unmark t d)) := by
    rw [hr]
    exact ⟨rfl, rfl, rfl, rfl, rfl, rfl, rfl⟩
  have hgood : Good t none d d' :=
    good_calm hk ho h hc (by rw [hr]; exact .attends true hpc hp hq (hpr.zero ho.toLocked))
  have hl : Left t task (turn env task.coro.pc .ok (unmark t d)).2 [] d d' := by
    refine h.left h.get (by rw [hc.tasks, List.map_nil, List.append_nil]) fun pc' hpc' => ?_
    rw [hr] at hpc'
    cases hpc'
    exact hq rfl
  exact ⟨hgood, .waits _ q (hl.waits pc (.task q) (by rw [hr])) hp rfl rfl (hgood.promises_of hq nofun hpr)⟩

theorem finishes_of_starts {env : Env} {s : State} {pc : Pc} (hs : starts env s pc .ok = true)
    (hp : pc.inside = false) (hc : Waitless env.collect) (hw : Waitless env.submit) : finishes env s pc .ok = true := by
  have hf : starts env s pc .ok = true ∧ Waitless env.collect ∧ Waitless env.submit := ⟨hs, hc, hw⟩
  cases pc <;> first | exact decide_eq_true hf | cases hp

/-- A run that ends in an orderly turn is written down, and replaces a task that nobody waits for. -/
theorem Orderly.ended {d : Daemon} {t : TaskId} {env : Env} {pc : Pc} {o : Outcome} (hd : Orderly d t env pc o)
    (hf : finishes env d.state pc o = true) : Ends env t d :=
  ⟨(hd.ends hf).1, (hd.ends hf).2⟩

/-- A run that starts in an orderly turn may end in it, too. -/
theorem Orderly.ended_of_starts {d : Daemon} {t : TaskId} {env : Env} {pc : Pc} (hd : Orderly d t env pc .ok)
    (hs : starts env d.state pc .ok = true) (hp : pc.inside = false) (hw : Waitless env.collect ∧ Waitless env.submit) :
    Ends env t d :=
  hd.ended (finishes_of_starts hs hp hw.1 hw.2)

section
variable {env : Env} {t : TaskId} {task : Asyncio.Task Coro} {o : Outcome} {d d' : Daemon}

/-- A turn that changes nothing. -/
theorem good_still (hk : Locked d') (ho : InOrder d) (h : TurnOf env t task o d d') {f : Flow Pc}
    (hturn : turn env task.coro.pc o (unmark t d) = (unmark t d, f)) (hf : Passes t d task f) : Good t none d d' :=
  good_calm hk ho h (by rw [hturn]; exact calm_refl _ _) (by rw [hturn]; exact hf)

/-- A stored task that the lock's holder leaves in `_async_trigger` or `_periodic_task` promises a run. -/
theorem promises_of_stored {q : TaskId} (ho : InOrder d)
    (hq : d.state.asyncTrigger.or d.state.periodicTask = some q) (ha : ∀ u ∈ d.state.asyncTrigger, Running d u)
    (hper : d.state.asyncTrigger = none → ∀ p ∈ d.state.periodicTask, outcomeOf p d.tasks ≠ some .error) :
    (Inside d q ∨ LiveAt Pc.isQuiet d q) ∧ ∃ b, Promises b d q ∧ Since d b := by
  have running : Running d q → (Inside d q ∨ LiveAt Pc.isQuiet d q) ∧ ∃ b, Promises b d q ∧ Since d b := fun hrun =>
    ⟨.inl hrun.inside, _, .running hrun (Nat.le_refl _), .inr ⟨rfl, q, hrun⟩⟩
  cases hs : d.state.asyncTrigger with
  | some u =>
    rw [hs] at hq
    cases hq
    exact running (ha q hs)
  | none =>
    have hp : d.state.periodicTask = some q := by
      rw [hs] at hq
      exact hq
    rcases ho.stored q hp with hquiet | hrun | herr
    · exact ⟨.inr hquiet, _, .stored hp hquiet (Nat.le_refl _), .inl (Nat.lt_succ_self _)⟩
    · exact running hrun
    · exact absurd herr (hper hs q hp)

/-- `trigger(wait=True)` that finds a run in progress waits for the task that keeps it, or for the next. -/
theorem good_finds (hk : Locked d') (ho : InOrder d) (h : TurnOf env t task .ok d d')
    (hd : Orderly d t env task.coro.pc .ok) (hpc : task.coro.pc = .trigger true) (hl : d.state.triggerActive = true) :
    Good t none d d' ∧ (d.state.serving = true → ∃ b, Since d b ∧ Served b t d') := by
  obtain ⟨update, hturn⟩ := @asks_turn env task.coro.pc (unmark t d) (by rw [hpc]; rfl)
  have hon : d.state.on = true := ho.on
  obtain ⟨hasync, hper⟩ := hd.finds hpc hl
  cases hq : d.state.asyncTrigger.or d.state.periodicTask with
  | none =>
    have hres := hturn.trans (trigger_nothing hon hl hq)
    have hgood : Good t none d d' := good_calm hk ho h (by rw [hres]; exact ⟨rfl, rfl, rfl, rfl, rfl, rfl, rfl⟩)
      (by rw [hres]; exact .called true hpc .ok)
    refine ⟨hgood, fun hserving => ?_⟩
    rw [ho.serving, (Option.or_eq_none_iff.1 hq).2] at hserving
    cases hserving
  | some q =>
    obtain ⟨hlive, b, hpr, hb⟩ := promises_of_stored ho hq hasync hper
    have hne : q ≠ t := by
      rintro rfl
      rcases hlive with hl | hl
      · exact not_live_of_pc h.get (by rw [hpc]; rfl) hl
      · exact not_live_of_pc h.get (by rw [hpc]; rfl) hl
    have hout : outcomeOf q (stamp update (unmark t d)).tasks = none := (outcomeOf_unmark t q d).trans hpr.live
    obtain ⟨hgood, hserved⟩ :=
      good_attends hk ho h hpc (hturn.trans (trigger_waits hon hl hq hout)) rfl hne hpr
    exact ⟨hgood, fun _ => ⟨b, hb, hserved⟩⟩

/-- `trigger(wait=True)` that finds no run waits for the asynchronous trigger that is to start one. -/
theorem good_joins (hk : Locked d') (ho : InOrder d) (h : TurnOf env t task .ok d d')
    (hpc : task.coro.pc = .trigger true) (hl : d.state.triggerActive = false) {u : TaskId}
    (hs : d.state.asyncTrigger = some u) : Good t none d d' ∧ ∃ b, Since d b ∧ Served b t d' := by
  obtain ⟨update, hturn⟩ := @asks_turn env task.coro.pc (unmark t d) (by rw [hpc]; rfl)
  rcases ho.async u hs with hin | ⟨hlive, -⟩
  · rw [ho.held u hin] at hl
    cases hl
  · have hout : outcomeOf u (stamp update (unmark t d)).tasks = none := (outcomeOf_unmark t u d).trans hlive.outcomeOf
    have hne : u ≠ t := by
      rintro rfl
      exact not_live_of_pc (p := Pc.isAsync) h.get (by rw [hpc]; rfl) hlive
    obtain ⟨hgood, hserved⟩ := good_attends hk ho h hpc (hturn.trans (trigger_joins ho.on hl hs hout)) rfl hne
      (.async hs hlive (Nat.le_refl _))
    exact ⟨hgood, _, .inl (Nat.lt_succ_self _), hserved⟩

/-- A turn that takes the lock and starts a run, as `trigger` and the asynchronous trigger do. -/
theorem good_enters (hy : Typed d) (ho : InOrder d) (h : TurnOf env t task .ok d d')
    (hd : Orderly d t env task.coro.pc .ok) {update : Option Int}
    (hturn : turn env task.coro.pc .ok (unmark t d) = runCollect env (enter (stamp update (unmark t d))))
    (hl : d.state.triggerActive = false) (hm : d.state.asyncTrigger = none ∨ d.state.asyncTrigger = some t)
    (hpc : task.coro.pc = .trigger true ∨ task.coro.pc.isAsync = true ∨ task.coro.pc.isQuiet = true)
    (hs : starts env d.state task.coro.pc .ok = true) (hp : task.coro.pc.inside = false) :
    ∃ v, Good t v d d' ∧ ∃ b, Since d b ∧ Served b t d' := by
  have hr : Runner t task d (enter (stamp update (unmark t d))) :=
    ⟨h.get, h.due, rfl, rfl, rfl, rfl, rfl, rfl, fun i _ => ho.free hl i, hm, .inr ⟨hpc, rfl⟩⟩
  obtain ⟨v, hgood, hended⟩ :=
    good_runTurn hy ho h hr (hturn ▸ runTurn_runCollect env _) (hd.ended_of_starts hs hp)
  exact ⟨v, hgood, _, .inl (Nat.lt_succ_self _), served_of_ended hended (Nat.le_refl _)⟩

/-- `trigger(wait=True)` runs, or waits for a task that promises a run. -/
theorem good_asks (hy : Typed d) (hk : Locked d') (ho : InOrder d) (h : TurnOf env t task .ok d d')
    (hd : Orderly d t env task.coro.pc .ok) (ha : task.coro.pc.asks env d.state = true)
    (hpc : task.coro.pc = .trigger true ∨ task.coro.pc.isQuiet = true) :
    ∃ v, Good t v d d' ∧ (d.state.serving = true → ∃ b, Since d b ∧ Served b t d') := by
  -- The periodic task finds no run in progress, and none about to start.
  have called : d.state.triggerActive = true ∨ d.state.asyncTrigger ≠ none → task.coro.pc = .trigger true := by
    intro hbusy
    refine hpc.resolve_right fun hq => ?_
    obtain ⟨hl, hs⟩ := hd.periodic hq rfl ha
    rcases hbusy with hbusy | hbusy
    · rw [hl] at hbusy
      cases hbusy
    · exact hbusy hs
  cases hl : d.state.triggerActive with
  | true => exact ⟨none, good_finds hk ho h hd (called (.inl hl)) hl⟩
  | false =>
    cases hs : d.state.asyncTrigger with
    | some u =>
      obtain ⟨hgood, hserved⟩ := good_joins hk ho h (called (.inr (by rw [hs]; exact Option.some_ne_none u))) hl hs
      exact ⟨none, hgood, fun _ => hserved⟩
    | none =>
      obtain ⟨update, hturn⟩ := @asks_turn env task.coro.pc (unmark t d) ha
      have hstarts : starts env d.state task.coro.pc .ok = true := by
        simp only [starts, ho.on, hl, ha, hs]
        simp
      have hout : task.coro.pc.inside = false := hpc.elim (fun hp => by rw [hp]; rfl) Pc.not_inside_of_isQuiet
      obtain ⟨v, hgood, hserved⟩ := good_enters hy ho h hd (hturn.trans (trigger_runs ho.on hl hs)) hl (.inl hs)
        (hpc.imp id .inr) hstarts hout
      exact ⟨v, hgood, fun _ => hserved⟩

/-- `trigger(wait=False)` leaves the rest to the run in progress or about to start, or makes a task that starts one. -/
theorem good_leaves (hk : Locked d') (ho : InOrder d) (h : TurnOf env t task .ok d d')
    (hp : task.coro.pc = .trigger false) : Good t none d d' := by
  have hon : (unmark t d).state.on = true := ho.on
  cases hl : d.state.triggerActive with
  | true =>
    have hl' : (unmark t d).state.triggerActive = true := hl
    exact good_still hk ho h (by simp [hp, turn, trigger, hon, hl']) (.called false hp .ok)
  | false =>
    have hl' : (unmark t d).state.triggerActive = false := hl
    cases hs : d.state.asyncTrigger with
    | none => exact good_async ho h hp hl hs
    | some u =>
      have hs' : (unmark t d).state.asyncTrigger = some u := hs
      exact good_still hk ho h (by simp [hp, turn, trigger, hon, hl', hs']) (.called false hp .ok)

/-- The asynchronous trigger starts its run. -/
theorem good_asyncTrigger (hy : Typed d) (ho : InOrder d) (h : TurnOf env t task .ok d d')
    (hd : Orderly d t env task.coro.pc .ok) (hp : task.coro.pc = .asyncTrigger)
    (hs : d.state.asyncTrigger = some t) : ∃ v, Good t v d d' := by
  have hl : d.state.triggerActive = false := by
    rcases ho.async t hs with hin | ⟨-, hl⟩
    · exact absurd hin (not_live_of_pc h.get (by rw [hp]; rfl))
    · exact hl
  have hturn : turn env task.coro.pc .ok (unmark t d) =
      runCollect env (enter (stamp d.state.lastApplistUpdate (unmark t d))) := by
    rw [hp]
    exact innerTrigger_runs_collect ho.on hl
  obtain ⟨v, hgood, -⟩ := good_enters hy ho h hd hturn hl (.inr hs) (.inr (.inl (by rw [hp]; rfl)))
    (by simp [starts, hp, ho.on, hl]) (by rw [hp]; rfl)
  exact ⟨v, hgood⟩

/-- A run goes on when the helpers it waited for are done. -/
theorem good_goesOn (hy : Typed d) (ho : InOrder d) (h : TurnOf env t task .ok d d')
    (hd : Orderly d t env task.coro.pc .ok) (hp : task.coro.pc.running = true) : ∃ v, Good t v d d' := by
  have hrun : Running d t := h.live hp
  have hr : Runner t task d (unmark t d) :=
    ⟨h.get, h.due, rfl, rfl, rfl, rfl, rfl, ho.held t hrun.inside, fun i hi hi' => hi (ho.unique i t hi' hrun.inside),
      ho.mine hrun.inside, .inl ⟨hp, rfl⟩⟩
  cases hpc : task.coro.pc <;> try exact absurd hp (by rw [hpc]; exact Bool.noConfusion)
  case collecting =>
    have hturn : turn env task.coro.pc .ok (unmark t d) = runSubmit env (unmark t d) := by rw [hpc]; rfl
    obtain ⟨v, hgood, -⟩ := good_runTurn hy ho h hr (hturn ▸ runTurn_runSubmit env _) fun hw =>
      hd.ended (by rw [hpc]; exact decide_eq_true ⟨Outcome.noConfusion, hw⟩)
    exact ⟨v, hgood⟩
  case submitting =>
    have hturn : turn env task.coro.pc .ok (unmark t d) = afterRun env (unmark t d) := by rw [hpc]; rfl
    obtain ⟨v, hgood, -⟩ := good_runTurn hy ho h hr (hturn ▸ runTurn_afterRun env _) fun _ =>
      hd.ended (by rw [hpc]; rfl)
    exact ⟨v, hgood⟩

/-- The periodic task sleeps on, fails, or triggers. -/
theorem good_periodic (hy : Typed d) (hk : Locked d') (ho : InOrder d) (h : TurnOf env t task o d d')
    (hd : Orderly d t env task.coro.pc o) (hp : task.coro.pc.isQuiet = true) (hs : d.state.periodicTask = some t)
    (ho' : o = .ok ∨ o = .error ∧ task.coro.pc = .updating) : ∃ v, Good t v d d' := by
  have hserving : d.state.serving = true := by
    rw [ho.serving, hs]
    rfl
  rcases ho' with rfl | ⟨rfl, hpc⟩
  · have hdue : task.due ≠ some .cancelled := by rw [h.due]; rintro ⟨⟩
    cases ha : task.coro.pc.asks env d.state with
    | true =>
      obtain ⟨v, hgood, -⟩ := good_asks hy hk ho h hd ha (.inr hp)
      exact ⟨v, hgood⟩
    | false =>
      obtain ⟨hc, ⟨pc', hf, hp'⟩ | ⟨hpc, hw, hf⟩⟩ := @quiet_turn env _ (unmark t d) hp hserving ha
      · exact ⟨none, good_calm hk ho h hc (by rw [hf]; exact .sleeps hp hs hdue hp')⟩
      · have hu := hd.updates hpc (.inr ⟨rfl, hw⟩)
        exact ⟨none, good_calm hk ho h hc (by rw [hf]; exact .fails hp hdue hu)⟩
  · have hdue : task.due ≠ some .cancelled := by rw [h.due]; rintro ⟨⟩
    have hturn : turn env task.coro.pc .error (unmark t d) = (unmark t d, .done .error) := by rw [hpc]; rfl
    exact ⟨none, good_still hk ho h hturn (.fails hp hdue (hd.updates hpc (.inl rfl)))⟩

/-- The caller that waited returns. -/
theorem good_back (hk : Locked d') (ho : InOrder d) (h : TurnOf env t task .ok d d')
    (hd : Orderly d t env task.coro.pc .ok) (hp : task.coro.pc.attends = true) : Good t none d d' := by
  have hturn : turn env task.coro.pc .ok (unmark t d) = (unmark t d, .done .ok) := by
    cases hpc : task.coro.pc <;> try exact absurd hp (by rw [hpc]; exact Bool.noConfusion)
    case awaitingStored =>
      have hl : (unmark t d).state.triggerActive = false := hd.wakes hpc
      rw [turn, storedEnded, hl]
      rfl
    case awaitingAsync => rfl
  exact good_still hk ho h hturn (.back hp)

/-- An orderly turn is good, wherever the task is. -/
theorem good_turn (hy : Typed d) (hk : Locked d') (ho : InOrder d) (h : TurnOf env t task o d d')
    (hd : Orderly d t env task.coro.pc o) : ∃ v, Good t v d d' := by
  cases ho.tasks t task h.get with
  | ended hdone => exact of_false (task.isDone_of_due h.due) hdone
  | aside hp =>
    by_cases hst : task.coro.pc = .start ∧ o = .ok ∧ d.state.serving = false
    · obtain ⟨hpc, rfl, hs⟩ := hst
      exact ⟨none, good_start ho h hpc hs⟩
    · obtain ⟨hc, hf⟩ := @aside_turn env _ o (unmark t d) hp fun hpc hok => by
        by_contra hs
        exact hst ⟨hpc, hok, Bool.eq_false_iff.2 hs⟩
      exact ⟨none, good_calm hk ho h hc (.aside hp hf)⟩
  | called wait hp hx hm =>
    obtain rfl := Task.eq_of_due h.due hx hm
    cases wait with
    | true =>
      obtain ⟨v, hgood, -⟩ := good_asks hy hk ho h hd (by rw [hp]; rfl) (.inl hp)
      exact ⟨v, hgood⟩
    | false => exact ⟨none, good_leaves hk ho h hp⟩
  | async hp hx hm hs =>
    obtain rfl := Task.eq_of_due h.due hx hm
    exact good_asyncTrigger hy ho h hd hp hs
  | running hp hm hx =>
    rcases hx with hx | ⟨us, hx, -⟩
    · obtain rfl := Task.eq_of_due h.due hx hm
      exact good_goesOn hy ho h hd hp
    · exact absurd hx (Task.not_waiting_of_due h.due _)
  | itself hp hx =>
    obtain rfl : o = .cancelled := Option.some.inj (h.due.symm.trans hx)
    exact ⟨none, good_replacing ho h (by rw [hp]; rfl)⟩
  | replaces q hp hm hx =>
    rcases hx with hx | ⟨hx, -⟩
    · obtain rfl := Task.eq_of_due h.due hx hm
      exact ⟨none, good_replacing ho h (by rw [hp]; rfl)⟩
    · exact absurd hx (Task.not_waiting_of_due h.due _)
  | stored hp hm hx hs =>
    obtain ⟨o', hready⟩ := Task.ready_of_due h.due
    obtain rfl := Task.eq_of_due h.due hready hm
    exact good_periodic hy hk ho h hd hp hs (hx o hready)
  | replaced hp hx hs hw =>
    obtain rfl : o = .cancelled := Option.some.inj (h.due.symm.trans hx)
    have hturn : turn env task.coro.pc .cancelled (unmark t d) = (unmark t d, .done .cancelled) := by
      revert hp
      cases task.coro.pc <;> first | exact fun _ => rfl | exact fun h => Bool.noConfusion h
    exact ⟨none, good_still hk ho h hturn (.cancelled hp hs)⟩
  | attends hp hm hx =>
    rcases hx with hx | ⟨q, hx, -⟩
    · obtain rfl := Task.eq_of_due h.due hx hm
      exact ⟨none, good_back hk ho h hd hp⟩
    · exact absurd hx (Task.not_waiting_of_due h.due _)

end

theorem good_next {e : Event} {d d' : Daemon} (hy : Typed d) (ho : InOrder d) (hc : OnlyTriggers e) (hd : Harmless d e)
    (h : next e d = some d') : ∃ t v, Good t v d d' := by
  have hk : Locked d' := locked_next ho.toLocked h
  cases e with
  | call c =>
    cases h
    exact ⟨_, none, good_call ho hc⟩
  | resume t env =>
    cases stepOf_next h with
    | call _ he => cases he
    | complete _ _ he => cases he
    | turn t' env' task o he ht =>
      cases he
      obtain ⟨v, hgood⟩ := good_turn hy hk ho ht (ht.onTurn hd)
      exact ⟨t, v, hgood⟩
  | complete t fails =>
    simp only [next] at h
    split at h
    · cases h
    · rename_i hmay
      refine ⟨t, none, good_complete ho (fun x hx hq hs => ?_) h⟩
      have hw := hy t x _ hx hs
      have hfail : fails = true → x.coro.pc.mayFail = true := by
        intro hf
        by_contra hn
        exact hmay ⟨hf, by rw [hx, Option.any_some]; exact hn⟩
      cases fails with
      | false => exact .inl rfl
      | true =>
        have hm := hfail rfl
        refine .inr ⟨rfl, ?_⟩
        revert hq hw hm
        cases x.coro.pc <;> intro hq hw hm <;>
          first | rfl | exact Bool.noConfusion hq | exact Bool.noConfusion hw | exact Bool.noConfusion hm

/-! ## No call waits for ever -/

/-- A task that waits for the world outside, if it waits, is under way. -/
theorem underWay_of_waits {p : Pc → Bool} (hp : ∀ pc w, p pc = true → pc.waits w = true → w = .external) {d : Daemon}
    (hy : Typed d) {u : TaskId} (hl : LiveAt p d u) : UnderWay d.tasks u := by
  obtain ⟨x, hx, hd, hpx⟩ := hl
  cases hs : x.status with
  | ready o => exact .ready hx hs
  | done o =>
    rw [Task.isDone, Task.outcome, hs] at hd
    cases hd
  | waiting w =>
    obtain rfl := hp _ w hpx (hy u x w hx hs)
    exact .external hx hs

theorem underWay_of_helping {d : Daemon} (hy : Typed d) {u : TaskId} (hl : Helping d u) : UnderWay d.tasks u := by
  refine underWay_of_waits (fun pc w hp hw => ?_) hy hl
  cases pc <;> try exact Bool.noConfusion hp
  cases w <;> first | rfl | cases hw

theorem underWay_of_quiet {d : Daemon} (hy : Typed d) {q : TaskId} (hl : LiveAt Pc.isQuiet d q) :
    UnderWay d.tasks q := by
  refine underWay_of_waits (fun pc w hp hw => ?_) hy hl
  cases pc <;> try exact Bool.noConfusion hp
  all_goals cases w <;> first | rfl | cases hw

theorem underWay_of_async {d : Daemon} (hy : Typed d) {q : TaskId} (hl : LiveAt Pc.isAsync d q) :
    UnderWay d.tasks q := by
  refine underWay_of_waits (fun pc w hp hw => ?_) hy hl
  cases pc <;> try exact Bool.noConfusion hp
  cases hw

/-- What promises is under way. -/
theorem Promises.underWay {b : Nat} {d : Daemon} {q : TaskId} (ho : InOrder d) (hy : Typed d) (h : Promises b d q) :
    UnderWay d.tasks q := by
  have inside : Inside d q → UnderWay d.tasks q := by
    rintro ⟨x, hx, hd, hp⟩
    have hready : x.due = some .cancelled → UnderWay d.tasks q := fun h =>
      have ⟨_, ho⟩ := Task.ready_of_due h
      .ready hx ho
    cases ho.tasks q x hx with
    | ended h => rw [hd] at h; cases h
    | itself _ hs => exact hready hs
    | replaced _ hs => exact hready hs
    | called _ _ hs => exact .ready hx hs
    | async _ hs => exact .ready hx hs
    | aside hp' => rw [Pc.not_aside_of_inside hp] at hp'; cases hp'
    | stored hp' => rw [Pc.not_isQuiet_of_inside hp] at hp'; cases hp'
    | attends hp' => rw [Pc.not_attends_of_inside hp] at hp'; cases hp'
    | running _ _ hs =>
      rcases hs with hs | ⟨us, hs, hu⟩
      · exact .ready hx hs
      · obtain ⟨u, hmem, hl⟩ := hu.live
        refine .all hx hs ⟨u, hmem, hl.outcomeOf⟩ fun u hmem hout => ?_
        obtain ⟨y, hy', hpy⟩ := hu.helper u hmem
        refine underWay_of_helping hy ⟨y, hy', ?_, hpy⟩
        rw [outcomeOf, hy', Option.bind_some] at hout
        rw [Task.isDone, hout]
        rfl
    | replaces q' _ _ hs =>
      rcases hs with hs | ⟨hs, hl, -⟩
      · exact .ready hx hs
      · exact .task hx hs (underWay_of_quiet hy hl)
  cases h with
  | running h => exact inside h.inside
  | replacing h => exact inside (h.imp fun _ => Pc.inside_of_isReplacing)
  | stored _ h => exact underWay_of_quiet hy h
  | async _ h => exact underWay_of_async hy h

/-- A call that is served has returned, or is under way. -/
theorem Served.underWay {b : Nat} {t : TaskId} {d : Daemon} (ho : InOrder d) (hy : Typed d) (h : Served b t d)
    (hn : outcomeOf t d.tasks = none) : UnderWay d.tasks t := by
  cases h with
  | returned h => rw [hn] at h; cases h
  | back x hx _ hs => exact .ready hx hs
  | waits x q hx _ hs _ hq => exact .task hx hs (hq.underWay ho hy)
  | runs _ hp => exact hp.underWay ho hy

/-- A call that is served ends well, and after a run. -/
theorem Served.ended {b : Nat} {t : TaskId} {d : Daemon} (h : Served b t d) {o : Outcome}
    (ho : outcomeOf t d.tasks = some o) : o = .ok ∧ Returned b d := by
  cases h with
  | returned h hb =>
    rw [ho] at h
    cases h
    exact ⟨rfl, hb⟩
  | back x hx _ hs =>
    rw [outcomeOf, hx, Option.bind_some, Task.outcome, hs] at ho
    cases ho
  | waits x q hx _ hs =>
    rw [outcomeOf, hx, Option.bind_some, Task.outcome, hs] at ho
    cases ho
  | runs h =>
    rw [h.outcomeOf] at ho
    cases ho

/-! ## In every run -/

theorem inOrder_init (lastTrigger lastApplistUpdate : Option Int) :
    InOrder (init true false lastTrigger lastApplistUpdate) :=
  { locked_init true false lastTrigger lastApplistUpdate with
    on := rfl, lock := nofun, serving := rfl, stored := nofun, async := nofun
    tasks := fun i x hx => by cases hx }

theorem inOrder_next {e : Event} {d d' : Daemon} (hi : Typed d ∧ InOrder d) (hok : OnlyTriggers e ∧ Harmless d e)
    (h : next e d = some d') : Typed d' ∧ InOrder d' := by
  obtain ⟨t, v, hgood⟩ := good_next hi.1 hi.2 hok.1 hok.2 h
  exact ⟨typed_next hi.1 h, hi.2.of_good hi.1 (locked_next hi.2.toLocked h) hgood⟩

/-- In every run of a daemon that is started and triggered only, and whose turns do no harm, each
call of `trigger(wait=True)` returns, and only after a run has ended that was in progress or had not
started when it was made. -/
theorem attended {lastTrigger lastApplistUpdate : Option Int} {tr : List (Daemon × Event)} {d : Daemon}
    (h : DaemonRun (init true false lastTrigger lastApplistUpdate) tr d) (hc : ∀ p ∈ tr, OnlyTriggers p.2)
    (hd : ∀ p ∈ tr, Harmless p.1 p.2) : Attended tr d := by
  rintro t tr₀ d₀ e tr₁ rfl ⟨env, task, rfl, hg, hdue, hask, hserving⟩
  obtain ⟨d₁, h₀, hstep, h₁⟩ := h.split
  have hok : ∀ p ∈ tr₀ ++ (d₀, .resume t env) :: tr₁, OnlyTriggers p.2 ∧ Harmless p.1 p.2 :=
    fun p hp => ⟨hc p hp, hd p hp⟩
  have hok₀ := hok (d₀, .resume t env) (by simp)
  have stays : ∀ d e d', Typed d ∧ InOrder d → OnlyTriggers e ∧ Harmless d e → next e d = some d' →
      Typed d' ∧ InOrder d' := fun _ _ _ => inOrder_next
  have hi₀ : Typed d₀ ∧ InOrder d₀ := h₀.inv _ stays
    ⟨typed_init true false lastTrigger lastApplistUpdate, inOrder_init lastTrigger lastApplistUpdate⟩
    fun p hp => hok p (List.mem_append_left _ hp)
  obtain ⟨b, hb, hserved⟩ : ∃ b, Since d₀ b ∧ Served b t d₁ := by
    cases stepOf_next hstep with
    | call _ he => cases he
    | complete _ _ he => cases he
    | turn t' env' task' o he ht =>
      cases he
      have hget := ht.get
      rw [hg, Option.some.injEq] at hget
      subst hget
      obtain rfl : .ok = o := Option.some.inj (hdue.symm.trans ht.due)
      have hpc : task.coro.pc = .trigger true ∨ task.coro.pc.isQuiet = true := by
        cases hpc : task.coro.pc <;> rw [hpc] at hask <;> try exact Bool.noConfusion hask
        case trigger wait => exact .inl (by rw [show wait = true from hask])
        all_goals exact .inr rfl
      obtain ⟨v, -, hserved⟩ := good_asks hi₀.1 (locked_next hi₀.2.toLocked hstep) hi₀.2 ht (ht.onTurn hok₀.2) hask hpc
      exact hserved hserving
  have step : ∀ d e d', (Typed d ∧ InOrder d) ∧ Served b t d → OnlyTriggers e ∧ Harmless d e → next e d = some d' →
      (Typed d' ∧ InOrder d') ∧ Served b t d' := by
    intro d e d' hi hok hs
    obtain ⟨t', v, hgood⟩ := good_next hi.1.1 hi.1.2 hok.1 hok.2 hs
    exact ⟨inOrder_next hi.1 hok hs, hi.2.of_good hgood⟩
  obtain ⟨⟨hy, ho⟩, hs⟩ := h₁.inv _ step ⟨inOrder_next hi₀ hok₀ hstep, hserved⟩ fun p hp =>
    hok p (List.mem_append_right _ (List.mem_cons_of_mem _ hp))
  refine ⟨fun o hout => ?_, hs.underWay ho hy⟩
  obtain ⟨rfl, hret⟩ := hs.ended hout
  exact ⟨rfl, b, hb, hret⟩

/-- The asynchronous trigger runs, and a D-Bus caller waits for it. -/
def waitedFor : List Event :=
  started ++ [.call (.trigger false), .resume 2 {}, .resume 3 oneHelper, .call (.trigger true), .resume 5 {},
    .resume 4 {}, .resume 3 oneHelper, .resume 6 {}, .resume 3 {}, .resume 1 {}, .resume 3 {}, .resume 5 {}]

theorem waited_for_attended : ∃ tr d, DaemonRun (init true false none none) tr d ∧ outcomeOf 5 d.tasks = some .ok ∧
    Attended tr d := by
  obtain ⟨⟨tr, d⟩, hr, hout, hc, hd⟩ : ∃ r ∈ runEvents next waitedFor (init true false none none),
      outcomeOf 5 r.2.tasks = some .ok ∧ (∀ p ∈ r.1, OnlyTriggers p.2) ∧ ∀ p ∈ r.1, Harmless p.1 p.2 := by
    decide +kernel
  exact ⟨tr, d, run_of_events hr, hout, attended (run_of_events hr) hc hd⟩

/-- A D-Bus caller waits for its run. -/
def triggeredByCaller : List Event :=
  started ++ [.call (.trigger true), .resume 2 oneHelper, .call (.trigger true)]

/-- Another waits for the periodic task, which the run cancels at its end. -/
def waiterLeft : List Event :=
  [.resume 3 {}, .resume 2 oneHelper, .resume 5 {}, .resume 2 {}, .resume 1 {}, .resume 4 {}]

/-- The caller that waits gets `CancelledError`. -/
theorem waiter_cancelled : ∃ tr d, DaemonRun (init true false none none) tr d ∧ (∀ p ∈ tr, OnlyTriggers p.2) ∧
    ¬ Attended tr d := by
  obtain ⟨⟨tr₀, d₀⟩, hr₀, hc₀, task, hg, hdue, hask, hserving, d₁, hd₁, ⟨tr₁, d⟩, hr₁, hc₁, hout⟩ :
      ∃ r ∈ runEvents next triggeredByCaller (init true false none none), (∀ p ∈ r.1, OnlyTriggers p.2) ∧
        ∃ task ∈ r.2.tasks[4]?, task.due = some .ok ∧ task.coro.pc.asks {} r.2.state = true ∧
        r.2.state.serving = true ∧ ∃ d₁ ∈ next (.resume 4 {}) r.2, ∃ r' ∈ runEvents next waiterLeft d₁,
          (∀ p ∈ r'.1, OnlyTriggers p.2) ∧ outcomeOf 4 r'.2.tasks = some .cancelled := by decide +kernel
  refine ⟨tr₀ ++ (d₀, .resume 4 {}) :: tr₁, d, (run_of_events hr₀).trans (.of_cons hd₁ (run_of_events hr₁)),
    fun p hp => ?_, fun h => ?_⟩
  · rcases List.mem_append.1 hp with hp | hp
    · exact hc₀ p hp
    · rcases List.mem_cons.1 hp with rfl | hp
      · exact trivial
      · exact hc₁ p hp
  · cases ((h 4 tr₀ d₀ _ tr₁ rfl ⟨{}, task, rfl, hg, hdue, hask, hserving⟩).1 _ hout).1

end LogSubmitter.Daemon

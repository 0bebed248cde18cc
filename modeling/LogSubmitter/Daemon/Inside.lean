import LogSubmitter.Daemon.Outside
/-!
# Steps in a run

The turns of the task that runs: it waits for the helpers, replaces the
periodic task, or has replaced itself, and gives the lock back.
-/
namespace LogSubmitter.Daemon

open Lib Lib.Asyncio

/-! ## Turns in a run -/

/-- The helpers' tasks for the coroutines `cs` are there, too. -/
def withTasks (cs : List Coro) (d : Daemon) : Daemon := { d with tasks := d.tasks ++ cs.map .fresh }

theorem withTasks_nil (d : Daemon) : withTasks [] d = d := by
  rw [withTasks, List.map_nil, List.append_nil]

theorem withTasks_append (cs cs' : List Coro) (d : Daemon) :
    withTasks cs' (withTasks cs d) = withTasks (cs ++ cs') d := by
  simp only [withTasks, List.map_append, List.append_assoc]

theorem withTasks_cons (c : Coro) (cs : List Coro) (d : Daemon) :
    withTasks cs (createTask c d) = withTasks (c :: cs) d :=
  withTasks_append [c] cs d

/-- The tasks that `startHelpers` returns are those it creates. -/
theorem startHelpers_spec (phase : Phase) (plans : List Plan) (d : Daemon) :
    ∃ cs : List Coro, (∀ c ∈ cs, c.pc.isHelper = true) ∧ (startHelpers phase plans d).1 = withTasks cs d ∧
      ∀ u ∈ (startHelpers phase plans d).2.1, d.tasks.length ≤ u ∧ u < (withTasks cs d).tasks.length := by
  induction plans generalizing d with
  | nil => exact ⟨[], by simp, (withTasks_nil d).symm, fun _ hu => absurd hu List.not_mem_nil⟩
  | cons plan plans ih =>
    cases plan with
    | skip => exact ih d
    | raises => exact ⟨[], by simp, (withTasks_nil d).symm, fun _ hu => absurd hu List.not_mem_nil⟩
    | task =>
      obtain ⟨cs, hc, hd, hu⟩ := ih (createTask { periodic := false, pc := .helper phase } d)
      rw [withTasks_cons] at hd hu
      refine ⟨{ periodic := false, pc := .helper phase } :: cs, ?_, hd, fun u hmem => ?_⟩
      · rintro c (_ | ⟨_, hmem⟩)
        · rfl
        · exact hc c hmem
      · rcases List.mem_cons.1 hmem with rfl | hmem
        · exact ⟨Nat.le_refl _, by simp [withTasks]⟩
        · have hlen := (hu u hmem).1
          rw [createTask_tasks, List.length_append] at hlen
          exact ⟨Nat.le_trans (Nat.le_add_right _ _) hlen, (hu u hmem).2⟩

/-- A turn in a run starts helpers' tasks, and waits for some, or ends the run. -/
inductive RunTurn (env : Env) (ended : Prop) (d : Daemon) (r : Result) : Prop
  | works (cs : List Coro) (hc : ∀ c ∈ cs, c.pc.isHelper = true) (hd : r.1 = withTasks cs d) (pc : Pc)
      (us : List TaskId) (hp : pc.running = true) (hf : r.2 = .await pc (.all us)) (hne : us ≠ [])
      (hu : ∀ u ∈ us, d.tasks.length ≤ u ∧ u < (withTasks cs d).tasks.length)
  | ends (cs : List Coro) (hc : ∀ c ∈ cs, c.pc.isHelper = true) (he : ended) (h : r = afterRun env (withTasks cs d))

theorem RunTurn.after {env : Env} {p q : Prop} {cs : List Coro} {d : Daemon} {r : Result}
    (h : RunTurn env p (withTasks cs d) r) (hc : ∀ c ∈ cs, c.pc.isHelper = true) (hpq : p → q) : RunTurn env q d r := by
  have all_helpers : ∀ cs', (∀ c ∈ cs', c.pc.isHelper = true) → ∀ c ∈ cs ++ cs', c.pc.isHelper = true :=
    fun cs' hc' c hmem => (List.mem_append.1 hmem).elim (hc c) (hc' c)
  cases h with
  | works cs' hc' hd pc us hp hf hne hu =>
    rw [withTasks_append] at hd hu
    refine .works _ (all_helpers cs' hc') hd pc us hp hf hne fun u hmem => ⟨?_, (hu u hmem).2⟩
    exact Nat.le_trans (by simp [withTasks]) (hu u hmem).1
  | ends cs' hc' he h => exact .ends _ (all_helpers cs' hc') (hpq he) (withTasks_append cs cs' d ▸ h)

theorem runTurn_afterRun (env : Env) (d : Daemon) : RunTurn env True d (afterRun env d) :=
  .ends [] (by simp) trivial (by rw [withTasks_nil])

theorem runTurn_runSubmit (env : Env) (d : Daemon) : RunTurn env (Waitless env.submit) d (runSubmit env d) := by
  obtain ⟨cs, hc, hd, hu⟩ := startHelpers_spec .submit env.submit d
  unfold runSubmit
  simp only
  split
  · rename_i hw
    rw [hd]
    exact (runTurn_afterRun env _).after hc fun _ => startHelpers_waitless hw
  · rename_i hw
    exact .works cs hc hd _ _ rfl rfl (fun h => hw (.inr h)) hu

theorem runTurn_runCollect (env : Env) (d : Daemon) :
    RunTurn env (Waitless env.collect ∧ Waitless env.submit) d (runCollect env d) := by
  obtain ⟨cs, hc, hd, hu⟩ := startHelpers_spec .collect env.collect d
  unfold runCollect
  simp only
  split
  · rename_i hw
    rw [hd]
    exact (runTurn_runSubmit env _).after hc fun hs => ⟨startHelpers_waitless hw, hs⟩
  · rename_i hw
    exact .works cs hc hd _ _ rfl rfl (fun h => hw (.inr h)) hu

/-! ## Steps in a run -/

/-- In `e` task `t`, which is at `task` in `d`, is in a run, and no other is. -/
structure Runner (t : TaskId) (task : Asyncio.Task Coro) (d e : Daemon) : Prop where
  get : d.tasks[t]? = some task
  due : task.due = some .ok
  tasks : e.tasks = (unmark t d).tasks
  on : e.state.on = d.state.on
  serving : e.state.serving = d.state.serving
  periodic : e.state.periodicTask = d.state.periodicTask
  async : e.state.asyncTrigger = d.state.asyncTrigger
  lock : e.state.triggerActive = true
  alone : ∀ i, i ≠ t → ¬ Inside d i
  mine : d.state.asyncTrigger = none ∨ d.state.asyncTrigger = some t
  place : task.coro.pc.running = true ∧ e.state.runs = d.state.runs ∨
    (task.coro.pc = .trigger true ∨ task.coro.pc.isAsync = true ∨ task.coro.pc.isQuiet = true) ∧
      e.state.runs = d.state.runs + 1

namespace Runner
variable {t : TaskId} {task : Asyncio.Task Coro} {d e : Daemon}

theorem at_running (h : Runner t task d e) (hl : Running d t) : e.state.runs = d.state.runs := by
  have hp := hl.at h.get
  rcases h.place with ⟨-, hr⟩ | ⟨hpc, -⟩
  · exact hr
  · exfalso
    rcases hpc with hpc | hpc | hpc
    · rw [hpc] at hp
      cases hp
    · rw [Pc.not_isAsync_of_inside (Pc.inside_of_running hp)] at hpc
      cases hpc
    · rw [Pc.not_isQuiet_of_inside (Pc.inside_of_running hp)] at hpc
      cases hpc

theorem runs (h : Runner t task d e) : d.state.runs ≤ e.state.runs := by
  rcases h.place with ⟨-, hr⟩ | ⟨-, hr⟩ <;> omega

theorem not_place {p : Pc → Bool} (h : Runner t task d e) (hr : ∀ pc, pc.running = true → p pc = false)
    (ht : p (.trigger true) = false) (ha : ∀ pc, pc.isAsync = true → p pc = false)
    (hq : ∀ pc, pc.isQuiet = true → p pc = false) : p task.coro.pc = false := by
  rcases h.place with ⟨hp, -⟩ | ⟨hp | hp | hp, -⟩
  · exact hr _ hp
  · rw [hp]
    exact ht
  · exact ha _ hp
  · exact hq _ hp

/-- What the task promises, the run that is in progress will keep. -/
theorem promised (h : Runner t task d e) {b : Nat} (hb : Promises b d t) : b ≤ e.state.runs := by
  have later : task.coro.pc.inside = false → b ≤ d.state.runs + 1 → b ≤ e.state.runs := by
    intro hin hb
    rcases h.place with ⟨hp, -⟩ | ⟨-, hr⟩
    · rw [Pc.inside_of_running hp] at hin
      cases hin
    · omega
  cases hb with
  | running hl hb =>
    have hr := h.at_running hl
    omega
  | replacing hl =>
    have hn := @Runner.not_place _ _ _ _ Pc.isReplacing h (fun pc hp => by cases pc <;> first | rfl | cases hp) rfl
      (fun pc hp => by cases pc <;> first | rfl | cases hp) fun pc hp => by cases pc <;> first | rfl | cases hp
    rw [hl.at h.get] at hn
    cases hn
  | async _ hl hb => exact later (Pc.not_inside_of_isAsync (hl.at h.get)) hb
  | stored _ hl hb => exact later (Pc.not_inside_of_isQuiet (hl.at h.get)) hb

theorem not_isHelper (h : Runner t task d e) : task.coro.pc.isHelper = false :=
  h.not_place (fun pc hp => by cases pc <;> first | rfl | cases hp) rfl
    (fun pc hp => by cases pc <;> first | rfl | cases hp) fun pc hp => by cases pc <;> first | rfl | cases hp

theorem not_attends (h : Runner t task d e) : task.coro.pc.attends = false :=
  h.not_place (fun _ hp => Pc.not_attends_of_inside (Pc.inside_of_running hp)) rfl
    (fun pc hp => by cases pc <;> first | rfl | cases hp) fun pc hp => by cases pc <;> first | rfl | cases hp

theorem running (h : Runner t task d e) : Running d t ∨ d.state.runs < e.state.runs := by
  rcases h.place with ⟨hp, -⟩ | ⟨-, hr⟩
  · exact .inl ⟨task, h.get, task.isDone_of_due h.due, hp⟩
  · exact .inr (by omega)

end Runner

/-- The task goes on in its run, the `n`th, or it has given the lock back. -/
structure Ended (n : Nat) (t : TaskId) (d d' : Daemon) : Prop where
  after : (Inside d' t ∧ d'.state.triggerActive = true ∧ d'.state.asyncTrigger = d.state.asyncTrigger) ∨
    outcomeOf t d'.tasks = some .ok ∧ d'.state.triggerActive = false ∧ d'.state.asyncTrigger = none
  promises : ∀ b, b ≤ n → Promises b d' t ∨ outcomeOf t d'.tasks = some .ok ∧ Returned b d'

theorem good_of_run {t : TaskId} {v : Option TaskId} {task : Asyncio.Task Coro} {d d' : Daemon} (ho : InOrder d)
    (get : d.tasks[t]? = some task) (due : ∃ o, task.due = some o)
    (mine : d.state.asyncTrigger = none ∨ d.state.asyncTrigger = some t)
    (helper : task.coro.pc.isHelper = false) (attends : task.coro.pc.attends = false)
    (quiet : task.coro.pc.isQuiet = true → task.due = some .ok)
    (length : d.tasks.length ≤ d'.tasks.length)
    (forth : ∀ i y, i ≠ t → v ≠ some i → d.tasks[i]? = some y → ∃ y', d'.tasks[i]? = some y' ∧ Woken t d'.tasks y y')
    (fresh : ∀ i y, d.tasks.length ≤ i → d'.tasks[i]? = some y → ∃ c : Coro, y = .fresh c ∧
      (c.pc.isHelper = true ∨ c.pc = .periodic ∧ d'.state.periodicTask = some i))
    (self : ∃ y, d'.tasks[t]? = some y ∧ Placed d' t y ∧ (∀ u, y.status = .waiting (.task u) → Inside d' t))
    (victim : ∀ i, v = some i → i ≠ t ∧ Unawaited d i ∧ LiveAt Pc.isQuiet d i ∧ d'.state.periodicTask ≠ some i ∧
      ∃ y, d'.tasks[i]? = some y ∧ y.coro.pc.isQuiet = true ∧ y.due = some .cancelled)
    (on : d'.state.on = d.state.on) (serving : d'.state.serving = d.state.serving)
    (periodic : (d'.state.periodicTask = d.state.periodicTask ∧ v = none ∧
        (d.state.periodicTask = some t → Running d' t)) ∨
      ∃ p, d'.state.periodicTask = some p ∧ d.tasks.length ≤ p ∧ LiveAt Pc.isQuiet d' p ∧
        d.state.serving = true ∧ ∀ q, q ≠ t → d.state.periodicTask = some q → v = some q)
    (runs : d.state.runs ≤ d'.state.runs)
    (running : Running d' t → Running d t ∨ d.state.runs < d'.state.runs) {n : Nat}
    (promised : ∀ b, Promises b d t → b ≤ n) (ended : Ended n t d d') : Good t v d d' := by
  have hlt : t < d.tasks.length := (List.getElem?_eq_some_iff.1 get).1
  refine
    { length := length, forth := forth, victim := victim, on := on.trans ho.on, runs := runs, running := running
      fresh := fun i y hi hne hy => ?_, self := fun y hy => ?_, live := fun y hy => ?_, lock := fun hl => ?_
      serving := ?_, stored := fun p hp => ?_, async := fun u hu => ?_, keepsAsync := fun i hi hs hl => ?_
      keepsStored := fun i hi hv hp => ?_, newStored := fun i hi hp => ?_, promises := fun b hb => ?_
      doomed := fun hq hd => ?_, waits := fun i hi => ?_, helper := fun x hx hp => ?_, back := fun x hx hp => ?_ }
  -- The tasks that come are the helpers', or the new periodic task.
  · obtain ⟨c, rfl, hc⟩ := fresh i y hi hy
    rcases hc with hc | ⟨hc, hper⟩
    · exact ⟨.aside (Pc.aside_of_isHelper hc), Pc.not_inside_of_aside (Pc.aside_of_isHelper hc), _, rfl⟩
    · have hok : ∀ o, (Task.fresh c).status = .ready o → o = .ok ∨ o = .error ∧ c.pc = .updating := by
        rintro o ⟨⟩
        exact .inl rfl
      exact ⟨.stored (congrArg Pc.isQuiet hc) rfl hok hper, congrArg Pc.inside hc, _, rfl⟩
  · obtain ⟨x, hx, hp, -⟩ := self
    rw [hx, Option.some.injEq] at hy
    exact hy ▸ hp
  · rw [get, Option.some.injEq] at hy
    subst hy
    obtain ⟨o, hdue⟩ := due
    exact ⟨task.isDone_of_due hdue, fun u => Task.not_waiting_of_due hdue (.task u)⟩
  -- The task still has the lock, or it is free.
  · rcases ended.after with ⟨hin, -, -⟩ | ⟨-, hfree, -⟩
    · exact ⟨t, hin⟩
    · exact of_false hfree hl
  · rcases periodic with ⟨hp, -, -⟩ | ⟨p, hp, -, -, hs, -⟩
    · rw [serving, ho.serving, hp]
    · rw [serving, hs, hp]
      rfl
  -- The stored periodic task is the one from before, which may be `t`, or the new one.
  · rcases periodic with ⟨hper, hv, hrun⟩ | ⟨q, hq, -, hl, -, -⟩
    · rw [hper] at hp
      by_cases hpt : p = t
      · exact .inr (.inr (.inl (hpt ▸ hrun (hpt ▸ hp))))
      · exact .inl ⟨hp, hpt, by rw [hv]; rintro ⟨⟩⟩
    · rw [hq, Option.some.injEq] at hp
      exact .inr (.inl (hp ▸ hl))
  -- `_async_trigger` is `t` while it runs, and `None` when it has ended.
  · rcases ended.after with ⟨hin, -, hs⟩ | ⟨-, -, hs⟩
    · rw [hs] at hu
      rcases mine with hm | hm
      · rw [hm] at hu
        cases hu
      · rw [hm, Option.some.injEq] at hu
        exact .inl (hu ▸ hin)
    · rw [hs] at hu
      cases hu
  · rcases mine with hm | hm
    · rw [hm] at hs
      cases hs
    · rw [hm, Option.some.injEq] at hs
      exact absurd hs.symm hi
  · rcases periodic with ⟨hper, -, -⟩ | ⟨-, -, -, -, -, hold⟩
    · exact hper.trans hp
    · exact absurd (hold i hi hp) hv
  · rcases periodic with ⟨hper, -, -⟩ | ⟨q, hq, hlen, -, -, -⟩
    · exact hper.symm.trans hp
    · rw [hq, Option.some.injEq] at hp
      exact absurd hi (Nat.not_lt.2 (hp ▸ hlen))
  -- What `t` has promised it still does, or has kept.
  · rcases ended.promises b (promised b hb) with hp | hr
    · refine .inr (.inl ⟨hp, fun _ => ?_⟩)
      rcases ended.after with ⟨hin, -, -⟩ | ⟨hout, -, -⟩
      · exact hin
      · rw [hp.live] at hout
        cases hout
    · exact .inr (.inr hr)
  · obtain ⟨x, hx, -, hpx⟩ := hq
    obtain ⟨y, hy, hdue⟩ := hd
    rw [get, Option.some.injEq] at hx hy
    subst hx hy
    rw [quiet hpx] at hdue
    cases hdue
  · obtain ⟨x, hx, hs⟩ := hi
    obtain ⟨y, hy, -, hw⟩ := self
    rw [hx, Option.some.injEq] at hy
    exact .inl (hw i (hy ▸ hs))
  · rw [get, Option.some.injEq] at hx
    exact of_false helper (hx ▸ hp)
  · rw [get, Option.some.injEq] at hx
    exact of_false attends (hx ▸ hp)

/-- The run waits for its helpers. -/
theorem good_works {env : Env} {t : TaskId} {task : Asyncio.Task Coro} {d d' e : Daemon} (ho : InOrder d)
    (h : TurnOf env t task .ok d d') (hr : Runner t task d e) {cs : List Coro} (hc : ∀ c ∈ cs, c.pc.isHelper = true)
    (hd : (turn env task.coro.pc .ok (unmark t d)).1 = withTasks cs e) {pc : Pc} {us : List TaskId}
    (hp : pc.running = true) (hf : (turn env task.coro.pc .ok (unmark t d)).2 = .await pc (.all us)) (hne : us ≠ [])
    (hu : ∀ u ∈ us, e.tasks.length ≤ u ∧ u < (withTasks cs e).tasks.length) :
    Good t none d d' ∧ Ended e.state.runs t d d' := by
  have hlen : e.tasks.length = d.tasks.length := by rw [hr.tasks]; simp [unmark]
  have hl : Left t task (turn env task.coro.pc .ok (unmark t d)).2 cs d d' :=
    h.left h.get (by rw [hd, withTasks, hr.tasks]) fun pc hpc => by rw [hf] at hpc; cases hpc
  have hstate : d'.state = e.state := by rw [h.state, hd, withTasks]
  have helper : ∀ u ∈ us, ∃ c : Coro, d'.tasks[u]? = some (.fresh c) ∧ c.pc.isHelper = true := by
    intro u hmem
    obtain ⟨hle, hlt⟩ := hu u hmem
    obtain ⟨k, rfl⟩ := Nat.exists_eq_add_of_le (hlen ▸ hle)
    simp only [withTasks, List.length_append, List.length_map, hlen] at hlt
    have hk : k < cs.length := Nat.lt_of_add_lt_add_left hlt
    exact ⟨cs[k], hl.grown.fresh k _ (List.getElem?_eq_getElem hk), hc _ (List.getElem_mem hk)⟩
  have helpers : Helpers d' us := by
    refine ⟨fun u hmem => ?_, ?_⟩
    · obtain ⟨c, hx, hp⟩ := helper u hmem
      exact ⟨_, hx, hp⟩
    · obtain ⟨u, hmem⟩ := List.exists_mem_of_ne_nil us hne
      obtain ⟨c, hx, hp⟩ := helper u hmem
      exact ⟨u, hmem, _, hx, rfl, hp⟩
  have hx := hl.waits pc _ hf
  have hrun : Running d' t := ⟨_, hx, rfl, hp⟩
  have ended : Ended e.state.runs t d d' :=
    ⟨.inl ⟨hrun.inside, by rw [hstate]; exact hr.lock, by rw [hstate, hr.async]⟩,
      fun b hb => .inl (.running hrun (by rw [hstate]; exact hb))⟩
  refine ⟨good_of_run ho h.get ⟨_, h.due⟩ hr.mine hr.not_isHelper hr.not_attends (fun _ => h.due)
    (by rw [hl.grown.length]; exact Nat.le_add_right _ _) (fun i y hi _ => hl.grown.others i y hi) (fun i y hi hy => ?_)
    ⟨_, hx, .running hp rfl (.inr ⟨us, rfl, helpers⟩), by rintro q ⟨⟩⟩ (by rintro q ⟨⟩) (by rw [hstate, hr.on])
    (by rw [hstate, hr.serving]) (.inl ⟨by rw [hstate, hr.periodic], rfl, fun _ => hrun⟩)
    (by rw [hstate]; exact hr.runs)
    (fun _ => by rw [hstate]; exact hr.running) (fun _ => hr.promised) ended, ended⟩
  obtain ⟨k, c, hk, -, rfl⟩ := hl.grown.only hi hy
  exact ⟨c, rfl, .inl (hc c (List.mem_of_getElem? hk))⟩

theorem Pc.not_running_of_isHelper {pc : Pc} (h : pc.isHelper = true) : pc.running = false := by
  cases pc <;> first | rfl | cases h

/-- With the run of `t` over, the runs so far have returned. -/
theorem returned_of_grown {t : TaskId} {cs : List Coro} {d₁ d' : Daemon} (alone : ∀ i, i ≠ t → ¬ Inside d₁ i)
    (hg : Grown t cs d₁.tasks d'.tasks) (hc : ∀ c ∈ cs, c.pc.running = false) (hn : ¬ Running d' t)
    {b : Nat} (hb : b ≤ d'.state.runs) : Returned b d' := by
  refine ⟨hb, fun _ i hi => ?_⟩
  by_cases hit : i = t
  · exact hn (hit ▸ hi)
  · have hold : Running d₁ i := hg.live_of (fun c hmem h => by rw [hc c hmem] at h; cases h) hit hi
    exact alone i hit hold.inside

/-- The lock is given back. -/
theorem good_release {env : Env} {t : TaskId} {task : Asyncio.Task Coro} {o : Outcome} {d d' e : Daemon}
    (ho : InOrder d) (h : TurnOf env t task o d d') {cs : List Coro} (hc : ∀ c ∈ cs, c.pc.isHelper = true)
    (hr : turn env task.coro.pc o (unmark t d) = release e) (tasks : e.tasks = (unmark t d).tasks ++ cs.map .fresh)
    (on : e.state.on = d.state.on) (serving : e.state.serving = d.state.serving)
    (periodic : e.state.periodicTask = d.state.periodicTask) (notStored : d.state.periodicTask ≠ some t)
    (runs : d.state.runs ≤ e.state.runs) (alone : ∀ i, i ≠ t → ¬ Inside d i)
    (mine : d.state.asyncTrigger = none ∨ d.state.asyncTrigger = some t)
    (helper : task.coro.pc.isHelper = false) (attends : task.coro.pc.attends = false)
    (quiet : task.coro.pc.isQuiet = true → task.due = some .ok) (promised : ∀ b, Promises b d t → b ≤ e.state.runs) :
    Good t none d d' ∧ Ended e.state.runs t d d' := by
  have hl : Left t task (turn env task.coro.pc o (unmark t d)).2 cs d d' :=
    h.left h.get (by rw [hr]; exact tasks) fun pc hpc => by rw [hr] at hpc; cases hpc
  have hstate : d'.state = (release e).1.state := by rw [h.state, hr]
  have hx := hl.done .ok (by rw [hr]; rfl)
  have hout : outcomeOf t d'.tasks = some .ok := by
    rw [outcomeOf, hx]
    rfl
  have hn : ¬ Running d' t := fun hrun => by rw [hrun.outcomeOf] at hout; cases hout
  have ended : Ended e.state.runs t d d' :=
    ⟨.inr ⟨hout, by rw [hstate]; rfl, by rw [hstate]; rfl⟩, fun b hb => .inr ⟨hout, returned_of_grown alone hl.grown
      (fun c hmem => Pc.not_running_of_isHelper (hc c hmem)) hn (by rw [hstate]; exact hb)⟩⟩
  refine ⟨good_of_run ho h.get ⟨_, h.due⟩ mine helper attends quiet
    (by rw [hl.grown.length]; exact Nat.le_add_right _ _) (fun i y hi _ => hl.grown.others i y hi) (fun i y hi hy => ?_)
    ⟨_, hx, .ended rfl, by rintro q ⟨⟩⟩ (by rintro q ⟨⟩) (by rw [hstate]; exact on) (by rw [hstate]; exact serving)
    (.inl ⟨by rw [hstate]; exact periodic, rfl, fun h => absurd h notStored⟩) (by rw [hstate]; exact runs)
    (fun hrun => absurd hrun hn) promised ended, ended⟩
  obtain ⟨k, c, hk, -, rfl⟩ := hl.grown.only hi hy
  exact ⟨c, rfl, .inl (hc c (List.mem_of_getElem? hk))⟩

/-- The daemon after a run, with its time written down and a new periodic task. -/
def recorded (env : Env) (d : Daemon) : Daemon :=
  createPeriodic (modify (fun s => { s with lastTrigger := some env.now, nextTrigger := env.now + interval }) d)

theorem afterRun_some {env : Env} {d : Daemon} {p : TaskId} (hw : env.triggerWriteFails = false)
    (hs : d.state.serving = true) (hp : d.state.periodicTask = some p) :
    afterRun env d = replace p (recorded env d) := by
  obtain ⟨tasks, enabled, inhibited, serving, active, periodicTask⟩ := d
  cases hs
  cases hp
  rw [afterRun, hw]
  rfl

theorem recorded_tasks (env : Env) (d : Daemon) :
    (recorded env d).tasks = d.tasks ++ [.fresh newPeriodic] := rfl

/-- What the end of a run asks of its end. -/
structure Ends (env : Env) (t : TaskId) (d : Daemon) : Prop where
  written : env.triggerWriteFails = false
  replaced : ∀ p ∈ d.state.periodicTask, outcomeOf p d.tasks ≠ some .error ∧ (p = t ∨ Unawaited d p)

theorem fresh_of_grown {t : TaskId} {cs : List Coro} {d₁ d' : Daemon} (hc : ∀ c ∈ cs, c.pc.isHelper = true)
    (hg : Grown t (cs ++ [newPeriodic]) d₁.tasks d'.tasks)
    (hp : d'.state.periodicTask = some (d₁.tasks.length + cs.length)) {i : TaskId} {y : Asyncio.Task Coro}
    (hi : d₁.tasks.length ≤ i) (hy : d'.tasks[i]? = some y) :
    ∃ c : Coro, y = .fresh c ∧ (c.pc.isHelper = true ∨ c.pc = .periodic ∧ d'.state.periodicTask = some i) := by
  obtain ⟨k, c, hk, rfl, rfl⟩ := hg.only hi hy
  refine ⟨c, rfl, ?_⟩
  rcases Nat.lt_or_ge k cs.length with hlt | hge
  · rw [List.getElem?_append_left hlt] at hk
    exact .inl (hc c (List.mem_of_getElem? hk))
  · rw [List.getElem?_append_right hge] at hk
    have hlt : k - cs.length < 1 := (List.getElem?_eq_some_iff.1 hk).1
    obtain rfl : k = cs.length := Nat.le_antisymm (Nat.sub_eq_zero_iff_le.1 (Nat.lt_one_iff.1 hlt)) hge
    rw [Nat.sub_self] at hk
    cases hk
    exact .inr ⟨rfl, hp⟩

/-- `replace` cancels a task that can take a turn, or waits for the world outside, and waits for it. -/
theorem replace_awaits {p : TaskId} {d : Daemon} {x : Asyncio.Task Coro} (hg : d.tasks[p]? = some x)
    (hs : (∃ o, x.status = .ready o) ∨ x.status = .waiting .external) :
    ∃ x', x'.coro = x.coro ∧ x'.due = some .cancelled ∧
      ((∃ o, x.status = .ready o) → x' = { x with mustCancel := true }) ∧
      replace p d = ({ d with tasks := d.tasks.set p x' }, .await (.replacing p) (.task p)) := by
  obtain ⟨x', hc, hcoro, hdue, hmark⟩ := @cancel_self _ 999 p d.tasks x hg hs
  have hout : outcomeOf p (d.tasks.set p x') = none := by
    rw [outcomeOf, List.getElem?_set_self (List.getElem?_eq_some_iff.1 hg).1]
    exact x'.outcome_of_due hdue
  refine ⟨x', hcoro, hdue, hmark, ?_⟩
  rw [replace, show recursionLimit = 999 + 1 from rfl, hc]
  simp only [hout]

theorem Runner.served {env : Env} {t p : TaskId} {task : Asyncio.Task Coro} {d e : Daemon} (hr : Runner t task d e)
    (ho : InOrder d) (hw : env.triggerWriteFails = false) (hp : d.state.periodicTask = some p) (cs : List Coro) :
    afterRun env (withTasks cs e) = replace p (recorded env (withTasks cs e)) := by
  refine afterRun_some hw ?_ (hr.periodic.trans hp)
  show e.state.serving = true
  rw [hr.serving, ho.serving, hp]
  rfl

theorem Runner.recorded_tasks {t : TaskId} {task : Asyncio.Task Coro} {d e : Daemon} (hr : Runner t task d e)
    (env : Env) (cs : List Coro) : (recorded env (withTasks cs e)).tasks =
      (unmark t d).tasks ++ (cs ++ [newPeriodic]).map .fresh := by
  rw [Daemon.recorded_tasks, withTasks, hr.tasks, List.map_append, List.append_assoc]
  rfl

theorem Runner.recorded_periodic {t : TaskId} {task : Asyncio.Task Coro} {d e : Daemon} (hr : Runner t task d e)
    (env : Env) (cs : List Coro) :
    (recorded env (withTasks cs e)).state.periodicTask = some (d.tasks.length + cs.length) := by
  show some (e.tasks ++ cs.map Task.fresh).length = _
  rw [hr.tasks, List.length_append, List.length_map, unmark, List.length_modify]

theorem not_running_of_new {cs : List Coro} (hc : ∀ c ∈ cs, c.pc.isHelper = true) :
    ∀ c ∈ cs ++ [newPeriodic], c.pc.running = false := by
  intro c hmem
  rcases List.mem_append.1 hmem with hmem | hmem
  · exact Pc.not_running_of_isHelper (hc c hmem)
  · rw [List.mem_singleton] at hmem
    subst hmem
    rfl

/-- The periodic task ends its own run: it has stored another, and cancels itself. -/
theorem good_itself {env : Env} {t : TaskId} {task : Asyncio.Task Coro} {d d' e : Daemon} (ho : InOrder d)
    (h : TurnOf env t task .ok d d') (hr : Runner t task d e) {cs : List Coro} (hc : ∀ c ∈ cs, c.pc.isHelper = true)
    (hf : turn env task.coro.pc .ok (unmark t d) = afterRun env (withTasks cs e)) (he : Ends env t d)
    (hp : d.state.periodicTask = some t) : Good t none d d' ∧ Ended e.state.runs t d d' := by
  obtain ⟨o, hready⟩ := Task.ready_of_due h.due
  have hself := unmark_get h.get
  have hlt : t < (unmark t d).tasks.length := (List.getElem?_eq_some_iff.1 hself).1
  have htasks := hr.recorded_tasks env cs
  have hget : (recorded env (withTasks cs e)).tasks[t]? = some { task with mustCancel := false } := by
    rw [htasks, List.getElem?_append_left hlt, hself]
  obtain ⟨x', -, -, hx', hrep⟩ := replace_awaits hget (.inl ⟨o, hready⟩)
  obtain rfl := hx' ⟨o, hready⟩
  have hturn := hf.trans ((hr.served ho he.written hp cs).trans hrep)
  have hstate : d'.state = (recorded env (withTasks cs e)).state := by rw [h.state, hturn]
  have hd := h.tasks
  simp only [run, hturn, htasks, List.set_append_left _ _ hlt] at hd
  have hget' : ((unmark t d).tasks.set t { task with mustCancel := true })[t]? =
      some { task with mustCancel := true } :=
    List.getElem?_set_self hlt
  have hgr : Grown t (cs ++ [newPeriodic]) d.tasks d'.tasks := by
    rw [hd]
    refine settle_grown (by simp [unmark]) (fun i hi => ?_) hget' (.inr ⟨_, rfl⟩) _
    rw [List.getElem?_set_ne (Ne.symm hi), unmark_get_ne hi]
  have hx : d'.tasks[t]? =
      some { coro := { task.coro with pc := .replacing t }, status := .ready .error, mustCancel := true } := by
    have hown : ((unmark t d).tasks.set t { task with mustCancel := true } ++
        (cs ++ [newPeriodic]).map Task.fresh)[t]? = some { task with mustCancel := true } := by
      rw [List.getElem?_append_left (by simpa using hlt), hget']
    rw [hd]
    exact settle_await_own hown _
  have hper : d'.state.periodicTask = some (d.tasks.length + cs.length) := by rw [hstate, hr.recorded_periodic]
  have hin : LiveAt Pc.isReplacing d' t := ⟨_, hx, rfl, rfl⟩
  have hn : ¬ Running d' t := not_live_of_pc hx rfl
  have ended : Ended e.state.runs t d d' :=
    ⟨.inl ⟨hin.imp fun _ => Pc.inside_of_isReplacing, by rw [hstate]; exact hr.lock, by rw [hstate]; exact hr.async⟩,
      fun b hb => .inl (.replacing hin
        (returned_of_grown hr.alone hgr (not_running_of_new hc) hn (by rw [hstate]; exact hb)))⟩
  refine ⟨good_of_run ho h.get ⟨_, h.due⟩ hr.mine hr.not_isHelper hr.not_attends (fun _ => h.due)
    (by rw [hgr.length]; exact Nat.le_add_right _ _) (fun i y hi _ => hgr.others i y hi)
    (fun i y => fresh_of_grown hc hgr hper) ⟨_, hx, .itself rfl rfl, by rintro q ⟨⟩⟩ (by rintro q ⟨⟩)
    (by rw [hstate]; exact hr.on)
    (by rw [hstate]; exact hr.serving) (.inr ⟨_, hper, Nat.le_add_right _ _, ?_, ?_, fun q hq hpq => ?_⟩)
    (by rw [hstate]; exact hr.runs) (fun hrun => absurd hrun hn) (fun _ => hr.promised) ended, ended⟩
  · exact ⟨_, hgr.fresh cs.length newPeriodic List.getElem?_concat_length, rfl, rfl⟩
  · rw [ho.serving, hp]
    rfl
  · rw [hp, Option.some.injEq] at hpq
    exact absurd hpq.symm hq

/-- A run ends, and cancels the periodic task. -/
theorem good_replaces {env : Env} {t p : TaskId} {task : Asyncio.Task Coro} {d d' e : Daemon} (hy : Typed d)
    (ho : InOrder d) (h : TurnOf env t task .ok d d') (hr : Runner t task d e) {cs : List Coro}
    (hc : ∀ c ∈ cs, c.pc.isHelper = true) (hf : turn env task.coro.pc .ok (unmark t d) = afterRun env (withTasks cs e))
    (he : Ends env t d) (hp : d.state.periodicTask = some p) (hpt : p ≠ t) :
    Good t (some p) d d' ∧ Ended e.state.runs t d d' := by
  obtain ⟨herr, hun⟩ := he.replaced p hp
  have hquiet : LiveAt Pc.isQuiet d p := by
    rcases ho.stored p hp with hl | hl | hl
    · exact hl
    · exact absurd hl.inside (hr.alone p hpt)
    · exact absurd hl herr
  obtain ⟨x, hx, hlive, hpx⟩ := hquiet
  have hstatus : (∃ o, x.status = .ready o) ∨ x.status = .waiting .external := by
    cases hs : x.status with
    | ready o => exact .inl ⟨o, rfl⟩
    | done o =>
      rw [Task.isDone, Task.outcome, hs] at hlive
      cases hlive
    | waiting w =>
      have hw := hy p x w hx hs
      revert hpx hw
      cases x.coro.pc <;> intro hpx hw <;> try exact Bool.noConfusion hpx
      all_goals cases w <;> first | exact .inr rfl | cases hw
  have hltp : p < d.tasks.length := (List.getElem?_eq_some_iff.1 hx).1
  have htasks := hr.recorded_tasks env cs
  have hget : (recorded env (withTasks cs e)).tasks[p]? = some x := by
    rw [htasks, List.getElem?_append_left (by simpa [unmark] using hltp), unmark_get_ne hpt, hx]
  obtain ⟨x', hcoro, hdue, -, hrep⟩ := replace_awaits hget hstatus
  have hturn := hf.trans ((hr.served ho he.written hp cs).trans hrep)
  have hstate : d'.state = (recorded env (withTasks cs e)).state := by rw [h.state, hturn]
  -- The turn is one from `d` with `p` cancelled.
  generalize hd₁ : ({ d with tasks := d.tasks.set p x' } : Daemon) = d₁
  have htasks₁ : d₁.tasks = d.tasks.set p x' := hd₁ ▸ rfl
  have hget₁ : d₁.tasks[t]? = some task := by rw [htasks₁, List.getElem?_set_ne hpt, h.get]
  have hp₁ : d₁.tasks[p]? = some x' := by rw [htasks₁, List.getElem?_set_self hltp]
  have hlen₁ : d₁.tasks.length = d.tasks.length := by rw [htasks₁, List.length_set]
  have hkeep : ∀ i, i ≠ p → d₁.tasks[i]? = d.tasks[i]? := fun i hi => by
    rw [htasks₁, List.getElem?_set_ne (Ne.symm hi)]
  have hl : Left t task (turn env task.coro.pc .ok (unmark t d)).2 (cs ++ [newPeriodic]) d₁ d' := by
    refine h.left hget₁ ?_ fun pc hpc => ?_
    · rw [hturn, ← hd₁, ← unmark_set_ne hpt]
      simp only [htasks]
      rw [List.set_append_left _ _ (by simpa [unmark] using hltp)]
    · rw [hturn] at hpc
      cases hpc
      exact hpt rfl
  have hgr := hl.grown
  have hx₁ := hl.waits (.replacing p) (.task p) (by rw [hturn])
  obtain ⟨o, hready⟩ := Task.ready_of_due hdue
  have hvictim : d'.tasks[p]? = some x' := by
    obtain ⟨y, hy', hw⟩ := hgr.others p x' hpt hp₁
    rw [hy', hw.eq_of_ready hready]
  have hquiet' : x'.coro.pc.isQuiet = true := by rw [hcoro]; exact hpx
  have alone : ∀ i, i ≠ t → ¬ Inside d₁ i := by
    rintro i hi ⟨y, hy', hd, hpy⟩
    by_cases hip : i = p
    · subst hip
      rw [hp₁, Option.some.injEq] at hy'
      subst hy'
      rw [Pc.not_isQuiet_of_inside hpy] at hquiet'
      cases hquiet'
    · exact hr.alone i hi ⟨y, hkeep i hip ▸ hy', hd, hpy⟩
  have hper : d'.state.periodicTask = some (d₁.tasks.length + cs.length) := by
    rw [hstate, hr.recorded_periodic, hlen₁]
  have hin : LiveAt Pc.isReplacing d' t := ⟨_, hx₁, rfl, rfl⟩
  have hn : ¬ Running d' t := not_live_of_pc hx₁ rfl
  have hlive' : x'.isDone = false := x'.isDone_of_due hdue
  have ended : Ended e.state.runs t d d' :=
    ⟨.inl ⟨hin.imp fun _ => Pc.inside_of_isReplacing, by rw [hstate]; exact hr.lock, by rw [hstate]; exact hr.async⟩,
      fun b hb => .inl (.replacing hin
        (returned_of_grown alone hgr (not_running_of_new hc) hn (by rw [hstate]; exact hb)))⟩
  refine ⟨good_of_run ho h.get ⟨_, h.due⟩ hr.mine hr.not_isHelper hr.not_attends (fun _ => h.due)
    (by rw [hgr.length, hlen₁]; exact Nat.le_add_right _ _)
    (fun i y hi hv hy => hgr.others i y hi (by rw [hkeep i fun hip => hv (hip ▸ rfl), hy]))
    (fun i y hi => fresh_of_grown hc hgr hper (hlen₁ ▸ hi))
    ⟨_, hx₁, .replaces p rfl rfl (.inr ⟨rfl, ⟨x', hvictim, hlive', hquiet'⟩, x', hvictim, hdue⟩),
      fun _ _ => hin.imp fun _ => Pc.inside_of_isReplacing⟩ (fun i hi => ?_) (by rw [hstate]; exact hr.on)
    (by rw [hstate]; exact hr.serving)
    (.inr ⟨_, hper, by rw [hlen₁]; exact Nat.le_add_right _ _, ?_, ?_, fun q _ hpq => ?_⟩)
    (by rw [hstate]; exact hr.runs) (fun hrun => absurd hrun hn) (fun _ => hr.promised) ended, ended⟩
  · cases hi
    refine ⟨hpt, hun.resolve_left hpt, ⟨x, hx, hlive, hpx⟩, ?_, x', hvictim, hquiet', hdue⟩
    rw [hper, hlen₁]
    exact fun h => absurd (Option.some.inj h) (Nat.ne_of_gt (Nat.lt_of_lt_of_le hltp (Nat.le_add_right _ _)))
  · exact ⟨_, hgr.fresh cs.length newPeriodic List.getElem?_concat_length, rfl, rfl⟩
  · rw [ho.serving, hp]
    rfl
  · rw [hp] at hpq
    exact hpq

theorem good_ends {env : Env} {t : TaskId} {task : Asyncio.Task Coro} {d d' e : Daemon} (hy : Typed d) (ho : InOrder d)
    (h : TurnOf env t task .ok d d') (hr : Runner t task d e) {cs : List Coro} (hc : ∀ c ∈ cs, c.pc.isHelper = true)
    (hf : turn env task.coro.pc .ok (unmark t d) = afterRun env (withTasks cs e)) (he : Ends env t d) :
    ∃ v, Good t v d d' ∧ Ended e.state.runs t d d' := by
  cases hp : d.state.periodicTask with
  | some p =>
    by_cases hpt : p = t
    · exact ⟨none, good_itself ho h hr hc hf he (hpt ▸ hp)⟩
    · exact ⟨some p, good_replaces hy ho h hr hc hf he hp hpt⟩
  | none =>
    have hs : e.state.serving = false := by rw [hr.serving, ho.serving, hp]; rfl
    have hper : e.state.periodicTask = none := hr.periodic.trans hp
    generalize he₁ : modify (fun s => { s with lastTrigger := some env.now, nextTrigger := env.now + interval })
      (withTasks cs e) = e₁
    have hrel : afterRun env (withTasks cs e) = release e₁ := by
      subst he₁
      obtain ⟨tasks, enabled, inhibited, serving, active, periodicTask⟩ := e
      cases hs
      cases hper
      rw [afterRun, he.written]
      rfl
    have notStored : d.state.periodicTask ≠ some t := by rw [hp]; nofun
    have hruns : e₁.state.runs = e.state.runs := he₁ ▸ rfl
    have hgood := good_release ho h hc (hf.trans hrel) (by rw [← he₁, ← hr.tasks]; rfl)
      (by rw [← he₁]; exact hr.on) (by rw [← he₁]; exact hr.serving) (by rw [← he₁]; exact hr.periodic) notStored
      (by rw [hruns]; exact hr.runs) hr.alone hr.mine hr.not_isHelper hr.not_attends (fun _ => h.due)
      fun _ hb => by rw [hruns]; exact hr.promised hb
    exact ⟨none, hruns ▸ hgood⟩

theorem good_runTurn {env : Env} {t : TaskId} {task : Asyncio.Task Coro} {d d' e : Daemon} {p : Prop} (hy : Typed d)
    (ho : InOrder d) (h : TurnOf env t task .ok d d') (hr : Runner t task d e)
    (hrun : RunTurn env p e (turn env task.coro.pc .ok (unmark t d))) (he : p → Ends env t d) :
    ∃ v, Good t v d d' ∧ Ended e.state.runs t d d' := by
  cases hrun with
  | works cs hc hd pc us hp hf hne hu => exact ⟨none, good_works ho h hr hc hd hp hf hne hu⟩
  | ends cs hc hp hf => exact good_ends hy ho h hr hc hf (he hp)

/-- While a task is past the guard, no other is the asynchronous trigger. -/
theorem InOrder.mine {d : Daemon} {t : TaskId} (ho : InOrder d) (hin : Inside d t) :
    d.state.asyncTrigger = none ∨ d.state.asyncTrigger = some t := by
  cases hs : d.state.asyncTrigger with
  | none => exact .inl rfl
  | some u =>
    rcases ho.async u hs with hu | ⟨-, hfree⟩
    · exact .inr (by rw [ho.unique u t hu hin])
    · rw [ho.held t hin] at hfree
      cases hfree

/-- The owner of a run is told that the replaced task has ended. -/
theorem good_replacing {env : Env} {t : TaskId} {task : Asyncio.Task Coro} {d d' : Daemon} (ho : InOrder d)
    (h : TurnOf env t task .cancelled d d') (hp : task.coro.pc.isReplacing = true) : Good t none d d' := by
  have hl : LiveAt Pc.isReplacing d t := h.live hp
  have hin : Inside d t := hl.imp fun _ => Pc.inside_of_isReplacing
  have hturn : turn env task.coro.pc .cancelled (unmark t d) = release (unmark t d) := by
    revert hp
    cases task.coro.pc <;> first | exact fun _ => rfl | exact fun h => Bool.noConfusion h
  have notStored : d.state.periodicTask ≠ some t := by
    intro hs
    rcases ho.stored t hs with hq | hr | herr
    · exact hin.absurd hq fun _ => Pc.not_isQuiet_of_inside
    · exact hl.absurd hr fun _ => Pc.not_running_of_isReplacing
    · rw [hin.outcomeOf] at herr
      cases herr
  have off : ∀ {p : Pc → Bool}, (∀ pc, pc.isReplacing = true → p pc = false) → p task.coro.pc = false := fun h => h _ hp
  have noneNew : ∀ c ∈ ([] : List Coro), c.pc.isHelper = true := nofun
  refine (good_release ho h noneNew hturn (by rw [List.map_nil, List.append_nil]) rfl rfl rfl notStored
    (Nat.le_refl _) (fun i hi hi' => hi (ho.unique i t hi' hin)) (ho.mine hin)
    (off fun pc hp => by cases pc <;> first | rfl | cases hp) (off fun pc hp => by cases pc <;> first | rfl | cases hp)
    (fun hq => ?_) fun b hb => ?_).1
  · rw [Pc.not_isQuiet_of_inside (Pc.inside_of_isReplacing hp)] at hq
    cases hq
  · cases hb with
    | running hr => exact (hl.absurd hr fun _ => Pc.not_running_of_isReplacing).elim
    | replacing _ hb => exact hb.1
    | async _ ha => exact (hin.absurd ha fun _ => Pc.not_isAsync_of_inside).elim
    | stored _ hq => exact (hin.absurd hq fun _ => Pc.not_isQuiet_of_inside).elim

/-- The turn of a task that is in its run. -/
theorem served_of_ended {t : TaskId} {d d' : Daemon} {n b : Nat} (h : Ended n t d d') (hb : b ≤ n) : Served b t d' := by
  rcases h.promises b hb with hp | ⟨hout, hret⟩
  · rcases h.after with ⟨hin, -⟩ | ⟨hout, -⟩
    · exact .runs hin hp
    · rw [hp.live] at hout
      cases hout
  · exact .returned hout hret

end LogSubmitter.Daemon

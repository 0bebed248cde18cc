import LogSubmitter.Daemon.Schedule
import LogSubmitter.Daemon.Wait
/-!
# The schedule in every run

Each step keeps the schedule that harms nothing it depends on, so a daemon that
serves, with no call in progress, has its one periodic task when it is on, and
none when it is off.
-/
namespace LogSubmitter.Daemon

open Lib Lib.Asyncio

/-! ## What is kept -/

/-- In `_trigger`, `enable`, `inhibit`, `_leave_suspend` or `_cancel_periodic`. -/
def Pc.inCall : Pc → Bool
  | .asyncTrigger | .collecting | .submitting | .replacing _ | .toggle _ _ | .toggleAsync _ _ | .toggleCancel _
  | .leaveSuspend _ | .wakeupDelay | .suspendCancel _ | .suspendSchedule _ | .shutdownCancel _ => true
  | _ => false

/-- No such call is in progress. -/
def Quiescent (d : Daemon) : Prop := ∀ i, ¬ LiveAt Pc.inCall d i

/-- A daemon that is on has one periodic task that has not ended, the stored one, and one that is off has none. -/
structure OnSchedule (d : Daemon) : Prop where
  on : d.state.on = true → ∃ p, d.state.periodicTask = some p ∧ ∀ i, Pending d i ↔ i = p
  off : d.state.on = false → ∀ i, ¬ Pending d i

/-! ## What must not happen -/

/-- The turn is the last of a task in `_trigger_periodic`, `_trigger` or `_cancel_periodic`. -/
def Pc.isLast : Pc → Outcome → Bool
  | .awaitingStored, _ | .awaitingAsync, _ | .replacing _, _ => true
  | .periodic, o | .sleeping, o | .updating, o => o ≠ .ok
  | .collecting, o | .submitting, o => o = .cancelled
  | .toggleCancel _, o | .suspendCancel _, o | .suspendSchedule _, o | .shutdownCancel _, o => o = .error
  | _, _ => false

/-- The turn ends a task before it has stored another periodic task: it is told to, the configuration
is not written, or the asynchronous trigger it comes to has ended. -/
def givesUp (env : Env) (d : Daemon) (pc : Pc) (o : Outcome) : Bool :=
  pc.isLast o || pc = .updating && env.applistWriteFails || finishes env d.state pc o && env.triggerWriteFails ||
    pc.isQuiet && pc.asks env d.state && d.state.asyncTrigger.any fun u => (outcomeOf u d.tasks).isSome

/-- `_cancel_periodic` returns, with nothing stored. -/
def Pc.forgets : Pc → Outcome → Bool
  | .toggleCancel _, o | .suspendCancel _, o | .suspendSchedule _, o | .shutdownCancel _, o => o ≠ .error
  | _, _ => false

/-- The turn stores a periodic task, or none, whatever is stored. -/
def overwrites (s : State) (pc : Pc) (o : Outcome) : Bool :=
  pc.forgets o || pc = .start && o = .ok && !s.serving && s.on

/-- A daemon that is off is on after this turn, which writes a setting. -/
def starting (s : State) : Pc → Outcome → Bool
  | .toggle setting state, .ok | .toggleAsync setting state, .ok => !s.on && (s.set setting state).on
  | _, _ => false

def Pc.isSuspendCancel : Pc → Bool
  | .suspendCancel _ => true
  | _ => false

/-- What a turn meets that does the schedule no harm. -/
structure Punctual (d : Daemon) (t : TaskId) (env : Env) (pc : Pc) (o : Outcome) : Prop where
  /-- The turn is not the last of all that the schedule depends on. -/
  keeps : givesUp env d pc o = true → d.state.serving = true → d.state.on = true → KeptWithout t d
  /-- A run ends in a daemon that is on, and the periodic task that it replaces can be cancelled. -/
  ends : finishes env d.state pc o = true → env.triggerWriteFails = false → d.state.serving = true →
    d.state.on = true ∧ ∀ p ∈ d.state.periodicTask, p ≠ t → Pending d p →
      Leaving d p ∨ (cancel recursionLimit p d.tasks).isSome = true
  /-- The periodic task that is overwritten is about to end. -/
  overwrites : overwrites d.state pc o = true → ∀ p ∈ d.state.periodicTask, Pending d p → Leaving d p
  /-- When `_cancel_periodic` returns in a daemon that is on, a run or another one is in progress. -/
  forgets : pc.forgets o = true → pc.isSuspendCancel = false → d.state.serving = true → d.state.on = true →
    Elsewhere Pc.running t d ∨ Elsewhere Pc.cancels t d
  /-- The setting that stops the daemon is written, and the periodic task can be cancelled. -/
  stops : stopping d pc o = true → d.state.on = true → env.toggleWriteFails = false ∧
    (∀ p ∈ d.state.periodicTask, (cancel recursionLimit p d.tasks).isSome = true) ∨ ∀ i, Pending d i → Leaving d i
  /-- The setting that starts it is written, and no periodic task is stored that has ended. -/
  starts : starting d.state pc o = true → d.state.serving = true →
    env.toggleWriteFails = false ∧ d.state.periodicTask = none ∨ KeptWithout t d

section Decidable

instance (d : Daemon) (i : TaskId) : Decidable (Pending d i) :=
  decidable_of_iff (∃ task ∈ d.tasks[i]?, task.isDone = false ∧ task.coro.periodic = true) Iff.rfl

instance (d : Daemon) (i : TaskId) : Decidable (Leaving d i) := inferInstanceAs (Decidable (Inside d i ∨
  ∃ x ∈ d.tasks, x.status = .waiting (.task i) ∧ x.coro.pc.busy = true))

instance (p : Pc → Bool) (t : TaskId) (d : Daemon) : Decidable (Elsewhere p t d) :=
  decidable_of_iff (∃ i ∈ List.range d.tasks.length, i ≠ t ∧ LiveAt p d i)
    ⟨fun ⟨i, _, hi⟩ => ⟨i, hi⟩, fun ⟨i, hi⟩ => ⟨i, hi.2.mem_range, hi⟩⟩

instance (d : Daemon) : Decidable (∀ i, Pending d i → Leaving d i) :=
  decidable_of_iff (∀ i ∈ List.range d.tasks.length, Pending d i → Leaving d i)
    ⟨fun h i hp => h i hp.mem_range hp, fun h i _ => h i⟩

instance (t : TaskId) (d : Daemon) : Decidable (KeptWithout t d) :=
  decidable_of_iff ((∃ p ∈ d.state.periodicTask, p ≠ t ∧ Pending d p) ∨ Elsewhere Pc.running t d ∨
      Elsewhere Pc.cancels t d)
    ⟨fun h => h.elim (fun ⟨p, hs, ht, hp⟩ => .stored p ht hs hp) (·.elim .running .cancels),
      fun h => by cases h with
        | stored p ht hs hp => exact .inl ⟨p, hs, ht, hp⟩
        | running h => exact .inr (.inl h)
        | cancels h => exact .inr (.inr h)⟩

set_option synthInstance.maxSize 512 in
instance (d : Daemon) (t : TaskId) (env : Env) (pc : Pc) (o : Outcome) : Decidable (Punctual d t env pc o) :=
  decidable_of_iff
    ((givesUp env d pc o = true → d.state.serving = true → d.state.on = true → KeptWithout t d) ∧
    (finishes env d.state pc o = true → env.triggerWriteFails = false → d.state.serving = true →
      d.state.on = true ∧ ∀ p ∈ d.state.periodicTask, p ≠ t → Pending d p →
        Leaving d p ∨ (cancel recursionLimit p d.tasks).isSome = true) ∧
    (Daemon.overwrites d.state pc o = true → ∀ p ∈ d.state.periodicTask, Pending d p → Leaving d p) ∧
    (pc.forgets o = true → pc.isSuspendCancel = false → d.state.serving = true → d.state.on = true →
      Elsewhere Pc.running t d ∨ Elsewhere Pc.cancels t d) ∧
    (stopping d pc o = true → d.state.on = true → env.toggleWriteFails = false ∧
      (∀ p ∈ d.state.periodicTask, (cancel recursionLimit p d.tasks).isSome = true) ∨ ∀ i, Pending d i → Leaving d i) ∧
    (starting d.state pc o = true → d.state.serving = true →
      env.toggleWriteFails = false ∧ d.state.periodicTask = none ∨ KeptWithout t d))
    ⟨fun ⟨h₁, h₂, h₃, h₄, h₅, h₆⟩ => ⟨h₁, h₂, h₃, h₄, h₅, h₆⟩,
      fun h => ⟨h.keeps, h.ends, h.overwrites, h.forgets, h.stops, h.starts⟩⟩

/-- If the step is a turn, it does the schedule no harm. -/
def OnTime (d : Daemon) : Event → Prop := OnTurn (Punctual d) d

instance (d : Daemon) (e : Event) : Decidable (OnTime d e) := inferInstanceAs (Decidable (OnTurn _ d e))

end Decidable

/-! ## What every step keeps -/

/-- Whatever is in progress, each pending periodic task is stored or about to end, and a daemon that
is on keeps its schedule. -/
structure Schedule (d : Daemon) : Prop extends Placing d where
  one : ∀ i, Pending d i → d.state.periodicTask = some i ∨ Leaving d i
  off : d.state.on = false → ∀ i, Pending d i → Leaving d i
  kept : d.state.serving = true → d.state.on = true →
    (∃ p, d.state.periodicTask = some p ∧ Pending d p) ∨ (∃ i, Running d i) ∨ ∃ i, LiveAt Pc.cancels d i

/-! ## After a turn -/

section Settled
variable {env : Env} {t : TaskId} {task : Asyncio.Task Coro} {o : Outcome} {d d' : Daemon}

/-- What the turn has left of another task is there after it, too. -/
theorem Covered.settled (h : TurnOf env t task o d d')
    (ht : HasTurn t task.coro (turn env task.coro.pc o (unmark t d)).1) {i : TaskId} (hi : outcomeOf i d'.tasks = none)
    (hc : Covered (turn env task.coro.pc o (unmark t d)).1 i) : Covered d' i := by
  obtain ⟨x, hx, hs, hb⟩ := hc
  obtain ⟨k, hk⟩ := List.getElem?_of_mem hx
  have hne : k ≠ t := by
    rintro rfl
    obtain ⟨y, o', hy, -, ho⟩ := ht
    rw [hk, Option.some.injEq] at hy
    rw [← hy, hs] at ho
    cases ho
  obtain ⟨x', hk', hm⟩ := h.settled hne hk
  exact ⟨x', List.mem_of_getElem? hk', hm.waiting hs hi, hm.coro ▸ hb⟩

theorem TurnOf.settled_live (h : TurnOf env t task o d d') {q : Coro → Prop} {i : TaskId} (hi : i ≠ t)
    (hl : Live q (turn env task.coro.pc o (unmark t d)).1.tasks i) : Live q d'.tasks i := by
  rw [h.tasks]
  exact settle_live hi hl

theorem Leaving.settled (h : TurnOf env t task o d d')
    (ht : HasTurn t task.coro (turn env task.coro.pc o (unmark t d)).1) {i : TaskId} (hne : i ≠ t)
    (hi : outcomeOf i d'.tasks = none) (hl : Leaving (turn env task.coro.pc o (unmark t d)).1 i) : Leaving d' i :=
  hl.imp (h.settled_live hne) (Covered.settled h ht hi)

/-- The task after its turn. -/
theorem TurnOf.landed (h : TurnOf env t task o d d')
    (ht : HasTurn t task.coro (turn env task.coro.pc o (unmark t d)).1) :
    ∃ x, d'.tasks[t]? = some x ∧ Landed t (run env task.coro o (unmark t d)).2 task.coro x := by
  obtain ⟨y, o', hy, hc, -⟩ := ht
  have hself := (settle_turned (fun _ => True) (run env task.coro o (unmark t d)).2 hy).self
  rw [hc, ← h.tasks] at hself
  exact hself

/-- A task that the turn's end waits for is covered. -/
theorem Takes.covered (h : TurnOf env t task o d d')
    (ht : HasTurn t task.coro (turn env task.coro.pc o (unmark t d)).1) {i : TaskId} (hne : i ≠ t)
    (hi : Takes (turn env task.coro.pc o (unmark t d)).2 i) : Covered d' i := by
  obtain ⟨pc, hf, hb⟩ := hi
  obtain ⟨x, hx, hl⟩ := h.landed ht
  simp only [run, hf, Landed] at hl
  obtain ⟨hc, hs | ⟨o', -, hself⟩⟩ := hl
  · exact ⟨x, List.mem_of_getElem? hx, hs, by rw [hc]; exact hb⟩
  · exact absurd (hself i rfl) hne

/-- Where the task awaits it is live. -/
theorem TurnOf.live_awaits (h : TurnOf env t task o d d')
    (ht : HasTurn t task.coro (turn env task.coro.pc o (unmark t d)).1) {pc : Pc} {w : Wait}
    (hf : (turn env task.coro.pc o (unmark t d)).2 = .await pc w) :
    ∃ x, d'.tasks[t]? = some x ∧ x.isDone = false ∧ x.coro = { task.coro with pc := pc } := by
  obtain ⟨x, hx, hl⟩ := h.landed ht
  simp only [run, hf, Landed] at hl
  obtain ⟨hc, hs⟩ := hl
  refine ⟨x, hx, ?_, hc⟩
  rcases hs with hs | ⟨o', hs, -⟩ <;> rw [Task.isDone, Task.outcome, hs] <;> rfl

/-- After its turn a coroutine is of the kind it was. -/
theorem TurnOf.periodic_self (h : TurnOf env t task o d d')
    (ht : HasTurn t task.coro (turn env task.coro.pc o (unmark t d)).1) {x : Asyncio.Task Coro}
    (hx : d'.tasks[t]? = some x) : x.coro.periodic = task.coro.periodic := by
  obtain ⟨y, hy, hl⟩ := h.landed ht
  rw [hx, Option.some.injEq] at hy
  subst hy
  cases hf : (turn env task.coro.pc o (unmark t d)).2 with
  | await pc w =>
    simp only [run, hf, Landed] at hl
    rw [hl.1]
  | done o' =>
    simp only [run, hf, Landed] at hl
    rw [hl.1]

/-- A periodic task that is pending after its turn awaits something. -/
theorem TurnOf.pending_self (h : TurnOf env t task o d d')
    (ht : HasTurn t task.coro (turn env task.coro.pc o (unmark t d)).1) (hp : Pending d' t) :
    ∃ pc w, (turn env task.coro.pc o (unmark t d)).2 = .await pc w ∧ task.coro.periodic = true := by
  obtain ⟨y, hy, hd, hper⟩ := hp
  obtain ⟨x, hx, hl⟩ := h.landed ht
  rw [hy, Option.some.injEq] at hx
  subst hx
  cases hf : (turn env task.coro.pc o (unmark t d)).2 with
  | await pc w => exact ⟨pc, w, rfl, (h.periodic_self ht hy).symm.trans hper⟩
  | done o' =>
    simp only [run, hf, Landed] at hl
    obtain ⟨-, o'', hs, -⟩ := hl
    rw [Task.isDone, Task.outcome, hs] at hd
    cases hd

theorem placing_of_leaves (h : TurnOf env t task o d d')
    (hl : Leaves t task.coro (turn env task.coro.pc o (unmark t d))) : Placing d' := by
  obtain ⟨x, hx, hland⟩ := h.landed hl.self
  have sameKind : x.coro.periodic = task.coro.periodic := h.periodic_self hl.self hx
  obtain ⟨y, o', hy, hyc, -⟩ := hl.self
  refine ⟨fun i x' hg hp => ?_, fun p hp => ?_⟩
  · by_cases hi : i = t
    · subst hi
      rw [hg, Option.some.injEq] at hx
      subst hx
      rw [sameKind] at hp
      cases hf : (turn env task.coro.pc o (unmark i d)).2 with
      | await pc w =>
        simp only [run, hf, Landed] at hland
        rw [hland.1]
        exact (hl.own hp pc w hf).1
      | done o' =>
        simp only [run, hf, Landed] at hland
        rw [hland.1, ← hyc]
        exact hl.coros i y hy (hyc ▸ hp)
    · have hlt : i < (turn env task.coro.pc o (unmark t d)).1.tasks.length := by
        by_contra hn
        rw [h.tasks] at hg
        exact ((settle_others (fun _ => False) t _ _).fresh i x' (Nat.le_of_not_lt hn) hg hi).1
      obtain ⟨z, hz⟩ : ∃ z, (turn env task.coro.pc o (unmark t d)).1.tasks[i]? = some z :=
        ⟨_, List.getElem?_eq_getElem hlt⟩
      obtain ⟨z', hz', hm⟩ := h.settled hi hz
      rw [hg, Option.some.injEq] at hz'
      subst hz'
      rw [hm.coro] at hp ⊢
      exact hl.coros i z hz hp
  · rw [h.state] at hp
    obtain ⟨z, hz, hper⟩ := hl.stored p hp
    by_cases hi : p = t
    · subst hi
      rw [hy, Option.some.injEq] at hz
      subst hz
      exact ⟨x, hx, by rw [sameKind, ← hyc, hper]⟩
    · obtain ⟨z', hz', hm⟩ := h.settled hi hz
      exact ⟨z', hz', hm.coro ▸ hper⟩

/-- A turn that leaves the schedule so keeps it. -/
theorem schedule_of_leaves (h : TurnOf env t task o d d')
    (hl : Leaves t task.coro (turn env task.coro.pc o (unmark t d))) : Schedule d' := by
  have hplace := placing_of_leaves h hl
  have leaving : ∀ {i}, i ≠ t → Pending d' i → Leaving (turn env task.coro.pc o (unmark t d)).1 i ∨
      Takes (turn env task.coro.pc o (unmark t d)).2 i → Leaving d' i := fun hne hp =>
    Or.rec (Leaving.settled h hl.self hne hp.outcomeOf) fun ht => .inr (ht.covered h hl.self hne)
  have mine : ∀ {pc w}, (turn env task.coro.pc o (unmark t d)).2 = .await pc w → Pending d' t →
      pc.inside = true ∨ Covered (turn env task.coro.pc o (unmark t d)).1 t → Leaving d' t := by
    rintro pc w hf hp (hin | hc)
    · obtain ⟨x, hx, hd, hcoro⟩ := h.live_awaits hl.self hf
      exact .inl ⟨x, hx, hd, by rw [hcoro]; exact hin⟩
    · exact .inr (hc.settled h hl.self hp.outcomeOf)
  have before : ∀ {i}, i ≠ t → Pending d' i → Pending (turn env task.coro.pc o (unmark t d)).1 i := by
    intro i hi hp
    rw [Pending, h.tasks] at hp
    exact settle_live_of hi hp
  -- Of the task whose turn it was the place it awaits at decides, of the others what was so at the end of the turn.
  refine { hplace with one := fun i hp => ?_, off := fun hoff i hp => ?_, kept := fun hserving hon => ?_ }
  · rw [h.state]
    by_cases hi : i = t
    · subst hi
      obtain ⟨pc, w, hf, hc⟩ := h.pending_self hl.self hp
      exact (hl.own hc pc w hf).2.1.imp_right (mine hf hp)
    · exact (hl.one i hi (before hi hp)).imp_right (leaving hi hp)
  · rw [h.state] at hoff
    by_cases hi : i = t
    · subst hi
      obtain ⟨pc, w, hf, hc⟩ := h.pending_self hl.self hp
      exact mine hf hp ((hl.own hc pc w hf).2.2 hoff)
    · exact leaving hi hp (hl.off hoff i hi (before hi hp))
  · rw [h.state] at hserving hon ⊢
    -- `_serving`, and on: another task keeps the schedule, or this one where it awaits.
    rcases hl.kept hserving hon with hk | ⟨pc, w, hf, hor⟩
    · cases hk with
      | stored p ht hs hp => exact .inl ⟨p, hs, h.settled_live ht hp⟩
      | running hr =>
        obtain ⟨i, hi, hr⟩ := hr
        exact .inr (.inl ⟨i, h.settled_live hi hr⟩)
      | cancels hr =>
        obtain ⟨i, hi, hr⟩ := hr
        exact .inr (.inr ⟨i, h.settled_live hi hr⟩)
    · obtain ⟨x, hx, hd, hc⟩ := h.live_awaits hl.self hf
      rcases hor with hs | hr | hr
      · obtain ⟨y, hy, hper⟩ := hplace.stored t (h.state ▸ hs)
        rw [hx, Option.some.injEq] at hy
        subst hy
        exact .inl ⟨t, hs, x, hx, hd, hper⟩
      · exact .inr (.inl ⟨t, x, hx, hd, by rw [hc]; exact hr⟩)
      · exact .inr (.inr ⟨t, x, hx, hd, by rw [hc]; exact hr⟩)

end Settled

/-! ## Before a turn -/

section Before
variable {t : TaskId} {d : Daemon}

theorem Covered.unmark {i : TaskId} (h : Covered d i) (t : TaskId) : Covered (unmark t d) i := by
  obtain ⟨x, hx, hs, hb⟩ := h
  obtain ⟨k, hk⟩ := List.getElem?_of_mem hx
  by_cases hkt : k = t
  · subst hkt
    exact ⟨_, List.mem_of_getElem? (unmark_get hk), hs, hb⟩
  · exact ⟨x, List.mem_of_getElem? ((unmark_get_ne hkt d).trans hk), hs, hb⟩

theorem Leaving.unmark {i : TaskId} (h : Leaving d i) (t : TaskId) : Leaving (unmark t d) i :=
  h.imp unmark_live.2 (Covered.unmark · t)

theorem Elsewhere.unmark {p : Pc → Bool} {k : TaskId} (h : Elsewhere p k d) (t : TaskId) :
    Elsewhere p k (unmark t d) := by
  obtain ⟨i, hi, hl⟩ := h
  exact ⟨i, hi, unmark_live.2 hl⟩

theorem KeptWithout.unmark {k : TaskId} (h : KeptWithout k d) (t : TaskId) : KeptWithout k (unmark t d) := by
  cases h with
  | stored p ht hs hp => exact .stored p ht hs (unmark_live.2 hp)
  | running h => exact .running (h.unmark t)
  | cancels h => exact .cancels (h.unmark t)

theorem isSome_cancel_unmark {p : TaskId} (h : (cancel recursionLimit p d.tasks).isSome = true) (t : TaskId) :
    (cancel recursionLimit p (unmark t d).tasks).isSome = true :=
  cancel_isSome (fun _ _ _ hg hs => unmark_waiting hg hs) h

/-- The schedule, seen from task `t`, of coroutine `c`, which has its turn. -/
structure Stands (t : TaskId) (c : Coro) (d : Daemon) : Prop extends Beside t c nobody d where
  mine : c.periodic = true → d.state.periodicTask = some t ∨ c.pc.inside = true ∨ Covered d t
  mineOff : c.periodic = true → d.state.on = false → c.pc.inside = true ∨ Covered d t
  kept : d.state.serving = true → d.state.on = true →
    KeptWithout t d ∨ d.state.periodicTask = some t ∨ c.pc.running = true ∨ c.pc.cancels = true

theorem Schedule.stands {env : Env} {task : Asyncio.Task Coro} {o : Outcome} {d' : Daemon} (hs : Schedule d)
    (h : TurnOf env t task o d d') : Stands t task.coro (unmark t d) := by
  have before : ∀ {i : TaskId} {x}, (unmark t d).tasks[i]? = some x → ∃ y, d.tasks[i]? = some y ∧ x.coro = y.coro := by
    intro i x hx
    by_cases hi : i = t
    · subst hi
      rw [unmark_get h.get, Option.some.injEq] at hx
      exact ⟨task, h.get, by rw [← hx]⟩
    · exact ⟨x, (unmark_get_ne hi d).symm.trans hx, rfl⟩
  obtain ⟨o', ho'⟩ := Task.ready_of_due h.due
  have here : ∀ {p : Pc → Bool}, LiveAt p d t → p task.coro.pc = true := h.at
  have pending : task.coro.periodic = true → Pending d t := fun hper =>
    ⟨task, h.get, task.isDone_of_due h.due, hper⟩
  have leaving : ∀ {i}, Leaving d i → Leaving (unmark t d) i ∨ nobody i := fun hl => .inl (hl.unmark t)
  have mine : Leaving d t → task.coro.pc.inside = true ∨ Covered (unmark t d) t := Or.imp here (Covered.unmark · t)
  refine { coros := fun i x hx hper => ?_, stored := fun p hp => ?_, self := ⟨_, o', unmark_get h.get, rfl, ho'⟩
           one := fun i _ hp => (hs.one i (unmark_live.1 hp)).imp_right leaving
           off := fun hoff i _ hp => leaving (hs.off hoff i (unmark_live.1 hp))
           mine := fun hper => (hs.one t (pending hper)).imp_right mine
           mineOff := fun hper hoff => mine (hs.off hoff t (pending hper)), kept := fun hserving hon => ?_ }
  · obtain ⟨y, hy, hc⟩ := before hx
    rw [hc] at hper ⊢
    exact hs.coros i y hy hper
  · obtain ⟨y, hy, hper⟩ := hs.stored p hp
    by_cases hpt : p = t
    · subst hpt
      rw [h.get, Option.some.injEq] at hy
      subst hy
      exact ⟨_, unmark_get h.get, hper⟩
    · exact ⟨y, (unmark_get_ne hpt d).trans hy, hper⟩
  · rcases hs.kept hserving hon with ⟨p, hp, hl⟩ | ⟨i, hr⟩ | ⟨i, hr⟩
    · by_cases hpt : p = t
      · exact .inr (.inl (hpt ▸ hp))
      · exact .inl (.stored p hpt hp (unmark_live.2 hl))
    · by_cases hit : i = t
      · exact .inr (.inr (.inl (here (hit ▸ hr))))
      · exact .inl (.running ⟨i, hit, unmark_live.2 hr⟩)
    · by_cases hit : i = t
      · exact .inr (.inr (.inr (here (hit ▸ hr))))
      · exact .inl (.cancels ⟨i, hit, unmark_live.2 hr⟩)

theorem givesUp_unmark (env : Env) (t : TaskId) (d : Daemon) (pc : Pc) (o : Outcome) :
    givesUp env (unmark t d) pc o = givesUp env d pc o := by
  simp only [givesUp, outcomeOf_unmark]
  rfl

theorem Punctual.unmark {env : Env} {pc : Pc} {o : Outcome} (h : Punctual d t env pc o) :
    Punctual (unmark t d) t env pc o where
  keeps hg hserving hon := (h.keeps (givesUp_unmark env t d pc o ▸ hg) hserving hon).unmark t
  ends hf hw hserving := by
    obtain ⟨hon, hp⟩ := h.ends hf hw hserving
    refine ⟨hon, fun p hs hne hl => ?_⟩
    exact (hp p hs hne (unmark_live.1 hl)).imp (Leaving.unmark · t) (isSome_cancel_unmark · t)
  overwrites ho p hs hl := (h.overwrites ho p hs (unmark_live.1 hl)).unmark t
  forgets hf hn hserving hon := (h.forgets hf hn hserving hon).imp (Elsewhere.unmark · t) (Elsewhere.unmark · t)
  stops hs hon := by
    rcases h.stops (stopping_unmark t d pc o ▸ hs) hon with ⟨hw, hc⟩ | hl
    · exact .inl ⟨hw, fun p hp => isSome_cancel_unmark (hc p hp) t⟩
    · exact .inr fun i hp => (hl i (unmark_live.1 hp)).unmark t
  starts hs hserving := (h.starts hs hserving).imp_right (KeptWithout.unmark · t)

end Before

/-! ## Turns -/

section Turns
variable {env : Env} {t : TaskId} {c : Coro} {d : Daemon} {o : Outcome}

/-- A task that is at no place of a periodic task is none, and the schedule does not depend on it
unless it is in `_cancel_periodic`. -/
theorem Stands.call (h : Stands t c d) (hp : c.pc.ofPeriodic = false) :
    c.periodic = false ∧ (c.pc.cancels = false → Kept t d) := by
  obtain ⟨x, o', hx, hc, -⟩ := h.self
  have notPeriodic : ∀ {y}, d.tasks[t]? = some y → y.coro.periodic = false := by
    intro y hy
    rw [hx, Option.some.injEq] at hy
    subst hy
    rw [hc]
    cases hper : c.periodic with
    | false => rfl
    | true =>
      have hof := h.coros t x hx (hc ▸ hper)
      rw [hc, hp] at hof
      cases hof
  refine ⟨hc ▸ notPeriodic hx, fun hn hserving hon => (h.kept hserving hon).resolve_right ?_⟩
  rintro (hs | hr | hr)
  · obtain ⟨y, hy, hper⟩ := h.stored t hs
    rw [notPeriodic hy] at hper
    cases hper
  · rw [Pc.ofPeriodic_of_inside (Pc.inside_of_running hr)] at hp
    cases hp
  · rw [hn] at hr
    cases hr

theorem Stands.own (h : Stands t c d) (hb : c.pc.busy = false) : Own t c d := by
  obtain ⟨hin, hn⟩ := Bool.or_eq_false_iff.1 hb
  have notInside : ¬ c.pc.inside = true := by rw [hin]; exact Bool.false_ne_true
  refine ⟨fun hper => (h.mine hper).imp_right (·.resolve_left notInside),
    fun hper hoff => (h.mineOff hper hoff).resolve_left notInside, fun hserving hon => ?_⟩
  refine (h.kept hserving hon).imp_right fun hor => hor.resolve_right ?_
  rintro (hr | hr)
  · exact notInside (Pc.inside_of_running hr)
  · rw [hn] at hr
    cases hr

theorem Punctual.endsWell (h : Punctual d t env c.pc o) (hf : finishes env d.state c.pc o = true) :
    EndsWell env t d where
  fails hw := h.keeps (by rw [givesUp, hf, hw]; simp)
  on hw hserving := (h.ends hf hw hserving).1
  replaced hw hserving p hp := (h.ends hf hw hserving).2 p hp

/-- The turn is the last of its task. -/
theorem Stands.last (h : Stands t c d) (hp : Punctual d t env c.pc o) (hl : c.pc.isLast o = true) (o' : Outcome) :
    Leaves t c (d, .done o') :=
  leaves_done h.toBeside (hp.keeps (by rw [givesUp, hl]; rfl)) o'

theorem finishes_trigger {pc : Pc} (ha : pc.asks env d.state = true) (hn : pc.inside = false)
    (hon : d.state.on = true) (hl : d.state.triggerActive = false) (hs : d.state.asyncTrigger = none)
    (hc : Waitless env.collect) (hw : Waitless env.submit) : finishes env d.state pc .ok = true :=
  finishes_of_starts (by simp [starts, hon, hl, ha, hs]) hn hc hw

/-- The periodic task before it triggers, or when it does. -/
theorem Stands.quiet_turn (h : Stands t c d) (hp : Punctual d t env c.pc o) (hq : c.pc.isQuiet = true) :
    Leaves t c (turn env c.pc o d) := by
  have hin : c.pc.inside = false := by revert hq; cases c.pc <;> first | exact fun _ => rfl | exact nofun
  have hb : c.pc.busy = false := by revert hq; cases c.pc <;> first | exact fun _ => rfl | exact nofun
  by_cases ho : o = .ok
  · subst ho
    refine leaves_quiet hq h.toBeside (h.own hb) (fun ha => ⟨nofun, fun u hu hd => ?_, fun _ hon hl hs hc hw => ?_⟩)
      fun hupd hf => hp.keeps (by rw [givesUp, hupd, hf]; simp)
    · have hany : d.state.asyncTrigger.any (fun u => (outcomeOf u d.tasks).isSome) = true := by
        rw [show d.state.asyncTrigger = some u from hu]
        exact hd
      exact hp.keeps (by rw [givesUp, hq, ha, hany]; simp)
    · exact hp.endsWell (finishes_trigger ha hin hon hl hs hc hw)
  · have hlast : c.pc.isLast o = true ∧ turn env c.pc o d = (d, .done o) := by
      revert hq
      cases c.pc <;> first
        | exact fun h => Bool.noConfusion h
        | exact fun _ => ⟨decide_eq_true ho, by cases o <;> first | rfl | exact absurd rfl ho⟩
    rw [hlast.2]
    exact h.last hp hlast.1 o

/-- A task that waits for a stored one comes back from `trigger`. -/
theorem Stands.attends_turn (h : Stands t c d) (hp : Punctual d t env c.pc o) (ha : c.pc.attends = true) :
    Leaves t c (turn env c.pc o d) := by
  have hlast : c.pc.isLast o = true ∧ ∃ o', turn env c.pc o d = (d, .done o') := by
    revert ha
    cases c.pc <;> first | exact fun h => Bool.noConfusion h | exact fun _ => ⟨rfl, by cases o <;> exact ⟨_, rfl⟩⟩
  obtain ⟨hl, o', hturn⟩ := hlast
  rw [hturn]
  exact h.last hp hl o'

/-- A task that is past the guard of `_trigger`. -/
theorem Stands.inside_turn (h : Stands t c d) (hp : Punctual d t env c.pc o) (hin : c.pc.inside = true) :
    Leaves t c (turn env c.pc o d) := by
  obtain ⟨periodic, pc⟩ := c
  have hb := h.toBeside
  cases pc <;> try exact absurd hin Bool.false_ne_true
  case collecting =>
    cases o with
    | cancelled => exact h.last hp rfl .cancelled
    | ok | error => exact leaves_runSubmit hb fun hw => hp.endsWell (decide_eq_true ⟨nofun, hw⟩)
  case submitting =>
    cases o with
    | cancelled => exact h.last hp rfl .cancelled
    | ok | error => exact leaves_afterRun hb (hp.endsWell rfl)
  case replacing p =>
    have hk : Kept t d := hp.keeps rfl
    cases o with
    | error => exact leaves_done hb hk .error
    | ok | cancelled => exact leaves_release hb hk

/-- `_cancel_periodic` returns, or raises. -/
theorem Stands.cancels_turn (h : Stands t c d) (hp : Punctual d t env c.pc o) (hc : c.pc.cancels = true) :
    Leaves t c (turn env c.pc o d) := by
  obtain ⟨periodic, pc⟩ := c
  have hb := h.toBeside
  have keeps : pc.isLast o = true → Kept t d := fun hl => hp.keeps (by rw [givesUp, hl]; rfl)
  have cancelled : ∀ {rest : Daemon → Result}, pc.isLast o = decide (o = .error) → pc.forgets o = decide (o ≠ .error) →
      (∀ d', d'.state.periodicTask = none → Beside t ⟨periodic, pc⟩ nobody d' →
        (pc.isSuspendCancel = false → Kept t d') → Leaves t ⟨periodic, pc⟩ (rest d')) →
      Leaves t ⟨periodic, pc⟩ (cancelledPeriodic o d rest) := by
    intro rest hl hf hr
    have forgets : o ≠ .error → pc.forgets o = true := fun ho => hf.trans (decide_eq_true ho)
    refine leaves_cancelledPeriodic hb (fun ho => keeps (hl.trans (decide_eq_true ho)))
      (fun ho => hp.overwrites (by rw [overwrites, forgets ho, Bool.true_or])) ?_
    intro d' ho hnone hserving hon htasks h'
    refine hr d' hnone h' fun hn hs' hon' => ?_
    have ha : Adds (fun _ => True) d.tasks d'.tasks := htasks ▸ .refl _ _
    rcases hp.forgets (forgets ho) hn (hserving ▸ hs') (hon ▸ hon') with hr | hr
    · exact .running (hr.adds ha)
    · exact .cancels (hr.adds ha)
  cases pc <;> try exact absurd hc Bool.false_ne_true
  case toggleCancel => exact cancelled rfl rfl fun d' _ h' hk => leaves_emit h' (hk rfl)
  case suspendCancel => exact cancelled rfl rfl fun d' hnone h' _ => leaves_reschedule hnone h'
  case suspendSchedule => exact cancelled rfl rfl fun d' _ h' hk => leaves_done h' (hk rfl) .ok
  case shutdownCancel => exact cancelled rfl rfl fun d' _ h' hk => leaves_done h' (hk rfl) _

theorem stops_of_off {s : State} {setting : Setting} {state : Bool} (hon : s.on = true)
    (hoff : (s.set setting state).on = false) : setting.stops state = true ∧ s.setting setting ≠ state := by
  cases setting <;> cases state <;> simp_all [Setting.stops, State.set, State.on, State.setting]

theorem Punctual.writes {setting : Setting} {state : Bool} {pc : Pc} (hp : Punctual d t env pc .ok)
    (hstart : starting d.state pc .ok = (!d.state.on && (d.state.set setting state).on))
    (hstop : setting.stops state = true → d.state.setting setting ≠ state → stopping d pc .ok = true) :
    Writes env setting state t d where
  off hon hoff := hp.stops (hstop (stops_of_off hon hoff).1 (stops_of_off hon hoff).2) hon
  on hoff hon hserving := hp.starts (by rw [hstart, hoff, hon]; rfl) hserving

/-- A task of a call, or of a helper. -/
theorem Stands.call_turn (h : Stands t c d) (hp : Punctual d t env c.pc o) (hof : c.pc.ofPeriodic = false)
    (hn : c.pc.cancels = false) : Leaves t c (turn env c.pc o d) := by
  obtain ⟨hc, kept⟩ := h.call hof
  have hk : Kept t d := kept hn
  clear kept
  have hb := h.toBeside
  have done : ∀ o, Leaves t c (d, .done o) := leaves_done hb hk
  have awaits : ∀ pc, Leaves t c (d, .await pc .external) := fun pc =>
    leaves_call (hb.shrink fun _ _ _ => False.elim) hc (.inr hk)
  have iface : Leaves t c (modify (fun s => { s with iface := true }) d, .await .startingHelpers .external) :=
    leaves_call ((hb.modified ⟨rfl, rfl, rfl⟩).shrink fun _ _ _ => False.elim) hc (.inr (hk.modified ⟨rfl, rfl, rfl⟩))
  obtain ⟨periodic, pc⟩ := c
  cases pc <;> try first | exact Bool.noConfusion hof | exact Bool.noConfusion hn
  all_goals cases o <;> try exact done _
  case trigger.ok wait =>
    refine leaves_trigger hb (h.own rfl) ⟨fun _ => hk, fun _ _ _ => hk, fun hwait hon hl hs hcol hsub => ?_⟩
    exact hp.endsWell (finishes_trigger hwait rfl hon hl hs hcol hsub)
  case asyncTrigger.ok =>
    refine leaves_innerTrigger hb (fun _ _ => hk) fun hon hl hcol hsub => hp.endsWell ?_
    exact finishes_of_starts (by simp [starts, hon, hl]) rfl hcol hsub
  case toggle.ok setting state =>
    refine leaves_toggle hc hb hk fun hasync => hp.writes rfl fun hstops hne => ?_
    rw [stopping, hstops]
    cases hs : d.state.asyncTrigger with
    | none => simp [hne]
    | some u => simp [hne, hasync hstops u hs]
  case toggleAsync.ok setting state =>
    exact leaves_writeSetting hc hb hk (hp.writes rfl fun hstops hne => by simp [stopping, hstops, hne])
  case leaveSuspend.ok value => exact leaves_leaveSuspend value hc hb hk
  case wakeupDelay.ok =>
    exact leaves_cancels (fun _ => rfl) hc hb hk fun _ hnone h' _ => leaves_reschedule hnone h'
  case start.ok =>
    exact leaves_start hc hb hk fun hserving hon p hs hl => hp.overwrites (by simp [overwrites, hserving, hon]) p hs hl
  case shutdown.ok => exact leaves_shutdown hc hb
  case shutdownAsync.ok =>
    exact leaves_shutdownPeriodic hc (hb.modified ⟨rfl, rfl, rfl⟩) (hk.modified ⟨rfl, rfl, rfl⟩)
  case connecting.ok =>
    exact leaves_call ((hb.modified ⟨rfl, rfl, rfl⟩).shrink fun _ _ _ => False.elim) hc
      (.inr (hk.modified ⟨rfl, rfl, rfl⟩))
  case requestingName.ok => exact iface
  case requestingName.error =>
    simp only [turn]
    split
    · exact iface
    · exact done .error
  case startingHelpers.ok => exact awaits _
  case helper.ok | helper.error =>
    simp only [turn]
    split
    · exact awaits _
    · exact done _

theorem Pc.ofPeriodic_eq (pc : Pc) : pc.ofPeriodic = (pc.isQuiet || pc.attends || pc.inside) := by cases pc <;> rfl

theorem leaves_turn (h : Stands t c d) (hp : Punctual d t env c.pc o) : Leaves t c (turn env c.pc o d) := by
  cases hq : c.pc.isQuiet with
  | true => exact h.quiet_turn hp hq
  | false =>
    cases ha : c.pc.attends with
    | true => exact h.attends_turn hp ha
    | false =>
      cases hin : c.pc.inside with
      | true => exact h.inside_turn hp hin
      | false =>
        cases hn : c.pc.cancels with
        | true => exact h.cancels_turn hp hn
        | false =>
          exact h.call_turn hp (by rw [Pc.ofPeriodic_eq, hq, ha, hin]; rfl) hn

end Turns

/-! ## In every run -/

theorem schedule_init (enabled inhibited : Bool) (lastTrigger lastApplistUpdate : Option Int) :
    Schedule (init enabled inhibited lastTrigger lastApplistUpdate) where
  coros i x hx := by cases hx
  stored := nofun
  one := by rintro i ⟨x, hx, -⟩; cases hx
  off := by rintro - i ⟨x, hx, -⟩; cases hx
  kept := nofun

theorem Schedule.adds {d d' : Daemon} (h : Schedule d)
    (ha : Adds (fun c : Coro => c.periodic = false) d.tasks d'.tasks) (hs : SameSchedule d.state d'.state) :
    Schedule d' := by
  have leaving : ∀ {i}, Pending d' i → Leaving d i → Leaving d' i := fun hp => Leaving.adds ha hp.outcomeOf
  refine { h.toPlacing.adds ha hs.periodic with one := fun i hp => ?_, off := fun hoff i hp => ?_
                                                kept := fun hserving hon => ?_ }
  · exact (h.one i (hp.of_adds ha)).imp (hs.periodic.trans ·) (leaving hp)
  · exact leaving hp (h.off (hs.on ▸ hoff) i (hp.of_adds ha))
  · rcases h.kept (hs.serving ▸ hserving) (hs.on ▸ hon) with ⟨p, hp, hl⟩ | ⟨i, hr⟩ | ⟨i, hr⟩
    · exact .inl ⟨p, hs.periodic.trans hp, ha.live_mono hl⟩
    · exact .inr (.inl ⟨i, ha.live_mono hr⟩)
    · exact .inr (.inr ⟨i, ha.live_mono hr⟩)

theorem schedule_next {e : Event} {d d' : Daemon} (hs : Schedule d) (ht : OnTime d e) (h : next e d = some d') :
    Schedule d' := by
  cases stepOf_next h with
  | call c he hd =>
    subst hd
    exact hs.adds (createTask_adds (fun c : Coro => c.periodic = false) rfl d) ⟨rfl, rfl, rfl⟩
  | complete t fails he hst ha => exact hs.adds (ha.mono fun _ => False.elim) (by rw [hst]; exact ⟨rfl, rfl, rfl⟩)
  | turn t env task o he h =>
    exact schedule_of_leaves h (leaves_turn (hs.stands h) (h.onTurn (he ▸ ht)).unmark)

/-- With no call in progress, the schedule is as it should be. -/
theorem Schedule.onSchedule {d : Daemon} (h : Schedule d) (hs : d.state.serving = true) (hq : Quiescent d) :
    OnSchedule d := by
  have notBusy : ∀ i, ¬ LiveAt Pc.busy d i := fun i hb =>
    hq i (hb.imp fun pc hp => by cases pc <;> first | rfl | cases hp)
  have stored : ∀ i, Pending d i → d.state.periodicTask = some i := fun i hp =>
    (h.one i hp).resolve_right (not_leaving notBusy i)
  refine ⟨fun hon => ?_, fun hoff i hp => not_leaving notBusy i (h.off hoff i hp)⟩
  rcases h.kept hs hon with ⟨p, hp, hl⟩ | ⟨i, hr⟩ | ⟨i, hr⟩
  · refine ⟨p, hp, fun i => ⟨fun hi => ?_, fun hi => hi ▸ hl⟩⟩
    have hpi := stored i hi
    rw [hp, Option.some.injEq] at hpi
    exact hpi.symm
  · exact absurd (hr.imp fun pc hp => by cases pc <;> first | rfl | cases hp) (notBusy i)
  · exact absurd (hr.imp fun pc => Pc.busy_of_cancels) (notBusy i)

/-- In every run whose turns do the schedule no harm, a daemon that serves and has no call in
progress has one periodic task that has not ended, the stored one, if it is on, and none if it is off. -/
theorem schedule_kept {enabled inhibited : Bool} {lastTrigger lastApplistUpdate : Option Int}
    {tr : List (Daemon × Event)} {d : Daemon}
    (h : DaemonRun (init enabled inhibited lastTrigger lastApplistUpdate) tr d) (ht : ∀ p ∈ tr, OnTime p.1 p.2)
    (hs : d.state.serving = true) (hq : Quiescent d) : OnSchedule d := by
  have step : ∀ d e d', Schedule d → OnTime d e → next e d = some d' → Schedule d' :=
    fun _ _ _ => schedule_next
  exact (h.inv _ step (schedule_init enabled inhibited lastTrigger lastApplistUpdate) ht).onSchedule hs hq

/-- `start` has returned. -/
def startedUp : List Event := started ++ [.complete 0 false, .resume 0 {}, .complete 0 false, .resume 0 {}]

/-- A run replaces the periodic task, `inhibit` cancels the next and makes one again, and so does a wake-up. -/
def rescheduled : List Event :=
  startedUp ++ [.call (.trigger true), .resume 2 oneHelper, .resume 3 {}, .resume 2 {}, .resume 1 {}, .resume 2 {},
    .call (.toggle .inhibit true), .resume 5 {}, .resume 4 {}, .resume 5 {}, .call (.toggle .inhibit false),
    .resume 6 {}, .call (.leaveSuspend "active"), .resume 8 {}, .call (.leaveSuspend "inactive"), .resume 9 {},
    .complete 9 false, .resume 9 {}, .resume 7 {}, .resume 9 {}]

theorem rescheduled_kept : ∃ tr d, DaemonRun (init true false none none) tr d ∧ d.state.on = true ∧ OnSchedule d := by
  obtain ⟨⟨tr, d⟩, hr, hon, hs, hq, ht⟩ : ∃ r ∈ runEvents next rescheduled (init true false none none),
      r.2.state.on = true ∧ r.2.state.serving = true ∧
        (∀ task ∈ r.2.tasks, task.isDone = false → task.coro.pc.inCall = false) ∧ ∀ p ∈ r.1, OnTime p.1 p.2 := by
    decide +kernel
  exact ⟨tr, d, run_of_events hr, hon, schedule_kept (run_of_events hr) ht hs (not_liveAt hq)⟩

/-- The daemon is not shut down. -/
def NotShutdown : Event → Prop
  | .call .shutdown => False
  | _ => True

instance : DecidablePred NotShutdown
  | .call .shutdown => .isFalse id
  | .call .start | .call (.trigger _) | .call (.toggle _ _) | .call (.leaveSuspend _) | .complete _ _ | .resume _ _ =>
    .isTrue trivial

/-- A D-Bus caller's run is in progress, `enable(False)` returns, and the run ends. -/
def disabledUnderRun : List Event :=
  startedUp ++ [.call (.trigger true), .resume 2 oneHelper, .call (.toggle .enable false), .resume 4 {}, .resume 1 {},
    .resume 4 {}, .resume 3 {}, .resume 2 {}, .resume 5 {}]

/-- The run has made a periodic task, which sleeps, and the daemon is off. -/
theorem disabled_daemon_keeps_task : ∃ tr d, DaemonRun (init true false none none) tr d ∧ (∀ p ∈ tr, NotShutdown p.2) ∧
    d.state.serving = true ∧ Quiescent d ∧ ¬ OnSchedule d := by
  obtain ⟨⟨tr, d⟩, hr, hn, hs, hoff, hq, hp⟩ : ∃ r ∈ runEvents next disabledUnderRun (init true false none none),
      (∀ p ∈ r.1, NotShutdown p.2) ∧ r.2.state.serving = true ∧ r.2.state.on = false ∧
        (∀ task ∈ r.2.tasks, task.isDone = false → task.coro.pc.inCall = false) ∧ Pending r.2 5 := by decide +kernel
  exact ⟨tr, d, run_of_events hr, hn, hs, not_liveAt hq, fun h => h.off hoff 5 hp⟩

end LogSubmitter.Daemon

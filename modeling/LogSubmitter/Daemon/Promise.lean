import LogSubmitter.Daemon.Release
import LogSubmitter.Daemon.Stop
import LogSubmitter.Lib.Await
/-!
# What those who wait are promised

`trigger(wait=True)` waits for whichever task is stored when it finds a run in
progress. That is the asynchronous trigger or the periodic task, whoever owns
the run, and the run that ends cancels the periodic task that is stored then.
In a daemon that is in order, each such task ends only after a run has ended.
-/
namespace LogSubmitter.Daemon

open Lib Lib.Asyncio

/-! ## Where the tasks are -/

/-- The `n`th run has started, and is in progress no more. -/
def Returned (n : Nat) (d : Daemon) : Prop := n ≤ d.state.runs ∧ (n = d.state.runs → ∀ i, ¬ Running d i)

/-- The periodic task before it triggers. -/
def Pc.isQuiet : Pc → Bool
  | .periodic | .sleeping | .updating => true
  | _ => false

/-- No task waits for task `i`. -/
def Unawaited (d : Daemon) (i : TaskId) : Prop := ∀ x ∈ d.tasks, x.status ≠ .waiting (.task i)

instance (p : Pc → Bool) (d : Daemon) (i : TaskId) : Decidable (LiveAt p d i) :=
  decidable_of_iff (∃ task ∈ d.tasks[i]?, task.isDone = false ∧ p task.coro.pc = true) Iff.rfl

instance (d : Daemon) (i : TaskId) : Decidable (Unawaited d i) :=
  inferInstanceAs (Decidable (∀ x ∈ d.tasks, x.status ≠ .waiting (.task i)))

/-- In `start`, or a helper's. -/
def Pc.aside : Pc → Bool
  | .start | .connecting | .requestingName | .startingHelpers | .subscribing | .helper _ => true
  | _ => false

/-- In `trigger`, waiting for a task that is stored. -/
def Pc.attends : Pc → Bool
  | .awaitingStored | .awaitingAsync => true
  | _ => false

def Pc.isReplacing : Pc → Bool
  | .replacing _ => true
  | _ => false

/-- Task `q` ends only after a run from the `b`th on has ended: it runs it, has run it, or will run one. -/
inductive Promises (b : Nat) (d : Daemon) (q : TaskId) : Prop
  | running (hq : Running d q) (hb : b ≤ d.state.runs)
  | replacing (hq : LiveAt Pc.isReplacing d q) (hb : Returned b d)
  | async (hs : d.state.asyncTrigger = some q) (hq : LiveAt Pc.isAsync d q) (hb : b ≤ d.state.runs + 1)
  | stored (hp : d.state.periodicTask = some q) (hq : LiveAt Pc.isQuiet d q) (hb : b ≤ d.state.runs + 1)

/-- The tasks of `us` are helpers', and one of them has not ended. -/
structure Helpers (d : Daemon) (us : List TaskId) : Prop where
  helper : ∀ u ∈ us, ∃ x, d.tasks[u]? = some x ∧ x.coro.pc.isHelper = true
  live : ∃ u ∈ us, Helping d u

/-- Where task `i` may be, and what it may wait for or get there. -/
inductive Placed (d : Daemon) (i : TaskId) (x : Asyncio.Task Coro) : Prop
  | ended (h : x.isDone = true)
  | aside (hp : x.coro.pc.aside = true)
  | called (wait : Bool) (hp : x.coro.pc = .trigger wait) (hx : x.status = .ready .ok) (hm : x.mustCancel = false)
  | async (hp : x.coro.pc = .asyncTrigger) (hx : x.status = .ready .ok) (hm : x.mustCancel = false)
      (hs : d.state.asyncTrigger = some i)
  | running (hp : x.coro.pc.running = true) (hm : x.mustCancel = false)
      (hx : x.status = .ready .ok ∨ ∃ us, x.status = .waiting (.all us) ∧ Helpers d us)
  /-- The periodic task has replaced itself, and waits for its own end. -/
  | itself (hp : x.coro.pc = .replacing i) (hx : x.due = some .cancelled)
  | replaces (q : TaskId) (hp : x.coro.pc = .replacing q) (hm : x.mustCancel = false)
      (hx : x.status = .ready .cancelled ∨
        x.status = .waiting (.task q) ∧ LiveAt Pc.isQuiet d q ∧ Doomed d q)
  | stored (hp : x.coro.pc.isQuiet = true) (hm : x.mustCancel = false)
      (hx : ∀ o, x.status = .ready o → o = .ok ∨ o = .error ∧ x.coro.pc = .updating)
      (hs : d.state.periodicTask = some i)
  | replaced (hp : x.coro.pc.isQuiet = true) (hx : x.due = some .cancelled)
      (hs : d.state.periodicTask ≠ some i) (hw : ∀ k, WaitsFor d k i → Inside d k)
  | attends (hp : x.coro.pc.attends = true) (hm : x.mustCancel = false)
      (hx : x.status = .ready .ok ∨ ∃ q, x.status = .waiting (.task q) ∧ Promises 0 d q)

/-- A daemon that is on, in which every task that waits gets what it waits for. -/
structure InOrder (d : Daemon) : Prop extends Locked d where
  on : d.state.on = true
  lock : d.state.triggerActive = true → ∃ i, Inside d i
  serving : d.state.serving = d.state.periodicTask.isSome
  stored : ∀ p, d.state.periodicTask = some p →
    LiveAt Pc.isQuiet d p ∨ Running d p ∨ outcomeOf p d.tasks = some .error
  async : ∀ u, d.state.asyncTrigger = some u → Inside d u ∨ LiveAt Pc.isAsync d u ∧ d.state.triggerActive = false
  tasks : ∀ (i : TaskId) x, d.tasks[i]? = some x → Placed d i x

/-- What the schedule and the lock depend on is as it was. -/
structure Same (s s' : State) : Prop where
  on : s'.on = s.on
  serving : s'.serving = s.serving
  lock : s'.triggerActive = s.triggerActive
  periodic : s'.periodicTask = s.periodicTask
  async : s'.asyncTrigger = s.asyncTrigger
  runs : s'.runs = s.runs

theorem Same.refl (s : State) : Same s s := ⟨rfl, rfl, rfl, rfl, rfl, rfl⟩

/-! ## What a step must keep -/

/-- From `d` to `d'` only task `t` moves and task `v` is cancelled, and what is promised stays so. -/
structure Good (t : TaskId) (v : Option TaskId) (d d' : Daemon) : Prop where
  length : d.tasks.length ≤ d'.tasks.length
  forth : ∀ i y, i ≠ t → v ≠ some i → d.tasks[i]? = some y →
    ∃ y', d'.tasks[i]? = some y' ∧ Woken t d'.tasks y y'
  fresh : ∀ i y, d.tasks.length ≤ i → i ≠ t → d'.tasks[i]? = some y →
    Placed d' i y ∧ y.coro.pc.inside = false ∧ ∃ o, y.status = .ready o
  self : ∀ y, d'.tasks[t]? = some y → Placed d' t y
  victim : ∀ i, v = some i → i ≠ t ∧ Unawaited d i ∧ LiveAt Pc.isQuiet d i ∧ d'.state.periodicTask ≠ some i ∧
    ∃ y, d'.tasks[i]? = some y ∧ y.coro.pc.isQuiet = true ∧ y.due = some .cancelled
  live : ∀ y, d.tasks[t]? = some y → y.isDone = false ∧ ∀ u, y.status ≠ .waiting (.task u)
  on : d'.state.on = true
  lock : d'.state.triggerActive = true → ∃ i, Inside d' i
  serving : d'.state.serving = d'.state.periodicTask.isSome
  stored : ∀ p, d'.state.periodicTask = some p → (d.state.periodicTask = some p ∧ p ≠ t ∧ v ≠ some p) ∨
    LiveAt Pc.isQuiet d' p ∨ Running d' p ∨ outcomeOf p d'.tasks = some .error
  async : ∀ u, d'.state.asyncTrigger = some u → Inside d' u ∨ LiveAt Pc.isAsync d' u ∧ d'.state.triggerActive = false
  keepsAsync : ∀ i, i ≠ t → d.state.asyncTrigger = some i → LiveAt Pc.isAsync d i → d'.state.asyncTrigger = some i
  keepsStored : ∀ i, i ≠ t → v ≠ some i → d.state.periodicTask = some i → d'.state.periodicTask = some i
  newStored : ∀ i, i < d.tasks.length → d'.state.periodicTask = some i → d.state.periodicTask = some i
  runs : d.state.runs ≤ d'.state.runs
  running : Running d' t → Running d t ∨ d.state.runs < d'.state.runs
  promises : ∀ b, Promises b d t → (LiveAt Pc.isQuiet d t ∧ Unawaited d t) ∨
    (Promises b d' t ∧ (Inside d t → Inside d' t)) ∨ (outcomeOf t d'.tasks = some .ok ∧ Returned b d')
  doomed : LiveAt Pc.isQuiet d t → Doomed d t → outcomeOf t d'.tasks = some .cancelled
  waits : ∀ i, WaitsFor d' t i → Inside d' t ∨ Promises 0 d' i
  helper : ∀ x, d.tasks[t]? = some x → x.coro.pc.isHelper = true →
    ∃ x', d'.tasks[t]? = some x' ∧ x'.coro.pc.isHelper = true
  back : ∀ x, d.tasks[t]? = some x → x.coro.pc.attends = true → x.due = some .ok → outcomeOf t d'.tasks = some .ok

theorem LiveAt.absurd {p q : Pc → Bool} {d : Daemon} {i : TaskId} (h : LiveAt p d i) (h' : LiveAt q d i)
    (hpq : ∀ pc, p pc = true → q pc = false) : False := by
  obtain ⟨x, hg, -, hp⟩ := h
  have hq := h'.at hg
  rw [hpq _ hp] at hq
  cases hq

theorem Pc.not_isQuiet_of_inside {pc : Pc} (h : pc.inside = true) : pc.isQuiet = false := by
  cases pc <;> first | rfl | cases h

theorem Pc.not_isAsync_of_inside {pc : Pc} (h : pc.inside = true) : pc.isAsync = false := by
  cases pc <;> first | rfl | cases h

theorem Pc.not_aside_of_inside {pc : Pc} (h : pc.inside = true) : pc.aside = false := by
  cases pc <;> first | rfl | cases h

theorem Pc.not_attends_of_inside {pc : Pc} (h : pc.inside = true) : pc.attends = false := by
  cases pc <;> first | rfl | cases h

theorem Pc.not_isQuiet_of_attends {pc : Pc} (h : pc.attends = true) : pc.isQuiet = false := by
  cases pc <;> first | rfl | cases h

theorem Pc.not_isQuiet_of_isHelper {pc : Pc} (h : pc.isHelper = true) : pc.isQuiet = false := by
  cases pc <;> first | rfl | cases h

theorem Pc.not_isQuiet_of_isAsync {pc : Pc} (h : pc.isAsync = true) : pc.isQuiet = false := by
  cases pc <;> first | rfl | cases h

theorem Pc.not_inside_of_isQuiet {pc : Pc} (h : pc.isQuiet = true) : pc.inside = false := by
  cases pc <;> first | rfl | cases h

theorem Pc.not_inside_of_isAsync {pc : Pc} (h : pc.isAsync = true) : pc.inside = false := by
  cases pc <;> first | rfl | cases h

theorem Pc.not_inside_of_attends {pc : Pc} (h : pc.attends = true) : pc.inside = false := by
  cases pc <;> first | rfl | cases h

theorem Pc.inside_of_isReplacing {pc : Pc} (h : pc.isReplacing = true) : pc.inside = true := by
  cases pc <;> first | rfl | cases h

theorem Pc.not_running_of_isReplacing {pc : Pc} (h : pc.isReplacing = true) : pc.running = false := by
  cases pc <;> first | rfl | cases h

namespace Good
variable {t : TaskId} {v : Option TaskId} {d d' : Daemon}

theorem back_of (h : Good t v d d') {i : TaskId} {y' : Asyncio.Task Coro} (hi : i ≠ t) (hv : v ≠ some i)
    (hlt : i < d.tasks.length) (hg : d'.tasks[i]? = some y') :
    ∃ y, d.tasks[i]? = some y ∧ Woken t d'.tasks y y' := by
  obtain ⟨y, hy⟩ : ∃ y, d.tasks[i]? = some y := ⟨_, List.getElem?_eq_getElem hlt⟩
  obtain ⟨x, hx, hw⟩ := h.forth i y hi hv hy
  rw [hg, Option.some.injEq] at hx
  exact ⟨y, hy, hx ▸ hw⟩

theorem liveAt (h : Good t v d d') {p : Pc → Bool} {i : TaskId} (hi : i ≠ t) (hv : v ≠ some i) (hl : LiveAt p d i) :
    LiveAt p d' i := by
  obtain ⟨x, hg, hd, hp⟩ := hl
  obtain ⟨x', hg', hw⟩ := h.forth i x hi hv hg
  exact ⟨x', hg', hw.isDone.trans hd, hw.coro ▸ hp⟩

/-- A task that has ended stays so. -/
theorem outcome (h : Good t v d d') {i : TaskId} (hi : i ≠ t) (hv : v ≠ some i) {o : Outcome}
    (ho : outcomeOf i d.tasks = some o) : outcomeOf i d'.tasks = some o := by
  obtain ⟨x, hx, hxo⟩ := Option.bind_eq_some_iff.1 ho
  obtain ⟨x', hx', hw⟩ := h.forth i x hi hv hx
  rw [outcomeOf, hx', Option.bind_some, hw.outcome, hxo]

theorem inside (h : Good t v d d') {i : TaskId} (hi : i ≠ t) (hl : Inside d i) : Inside d' i := by
  refine h.liveAt hi ?_ hl
  rintro rfl
  exact hl.absurd (h.victim i rfl).2.2.1 fun _ => Pc.not_isQuiet_of_inside

/-- Of the tasks that wait, only `t` waits for another now. -/
theorem waitsFor (h : Good t v d d') {k i : TaskId} (hk : k ≠ t) (hw : WaitsFor d' k i) :
    WaitsFor d k i ∧ v ≠ some k := by
  obtain ⟨x', hg, hs⟩ := hw
  have hv : v ≠ some k := by
    rintro rfl
    obtain ⟨-, -, -, -, y, hy, -, hdue⟩ := h.victim k rfl
    rw [hg, Option.some.injEq] at hy
    subst hy
    rw [Task.due, hs] at hdue
    cases hdue
  by_cases hlt : k < d.tasks.length
  · obtain ⟨x, hx, hwoken⟩ := h.back_of hk hv hlt hg
    cases hwoken with
    | same => exact ⟨⟨x', hx, hs⟩, hv⟩
    | task _ _ _ => cases hs
    | all _ _ => cases hs
  · obtain ⟨-, -, o, ho⟩ := h.fresh k x' (Nat.le_of_not_lt hlt) hk hg
    rw [hs] at ho
    cases ho

theorem running_of (h : Good t v d d') {i : TaskId} (hr : Running d' i) :
    Running d i ∨ d.state.runs < d'.state.runs := by
  by_cases hi : i = t
  · subst hi
    exact h.running hr
  · obtain ⟨y', hg, hd, hp⟩ := hr
    have hv : v ≠ some i := by
      rintro rfl
      obtain ⟨-, -, -, -, y, hy, hq, -⟩ := h.victim i rfl
      rw [hg, Option.some.injEq] at hy
      subst hy
      rw [Pc.not_isQuiet_of_inside (Pc.inside_of_running hp)] at hq
      cases hq
    by_cases hlt : i < d.tasks.length
    · obtain ⟨y, hy, hw⟩ := h.back_of hi hv hlt hg
      exact .inl ⟨y, hy, hw.isDone ▸ hd, hw.coro ▸ hp⟩
    · have hn := (h.fresh i y' (Nat.le_of_not_lt hlt) hi hg).2.1
      rw [Pc.inside_of_running hp] at hn
      cases hn

theorem returned (h : Good t v d d') {n : Nat} (hr : Returned n d) : Returned n d' := by
  refine ⟨Nat.le_trans hr.1 h.runs, fun hn i hi => ?_⟩
  have hle := h.runs
  have hle' := hr.1
  rcases h.running_of hi with hi | hlt
  · exact hr.2 (by omega) i hi
  · omega

/-- The other tasks keep their promises, but for the one that is cancelled. -/
theorem promises_of (h : Good t v d d') {b : Nat} {q : TaskId} (hq : q ≠ t) (hv : v ≠ some q) (hp : Promises b d q) :
    Promises b d' q := by
  have hruns := h.runs
  cases hp with
  | running hl hb => exact .running (h.liveAt hq hv hl) (by omega)
  | replacing hl hb => exact .replacing (h.liveAt hq hv hl) (h.returned hb)
  | async hs hl hb => exact .async (h.keepsAsync q hq hs hl) (h.liveAt hq hv hl) (by omega)
  | stored hp hl hb => exact .stored (h.keepsStored q hq hv hp) (h.liveAt hq hv hl) (by omega)

/-- What a task waits for is promised, or has just been kept. -/
theorem awaited (h : Good t v d d') {k q b : Nat} (hw : WaitsFor d k q) (hp : Promises b d q) :
    Promises b d' q ∨ q = t ∧ outcomeOf t d'.tasks = some .ok ∧ Returned b d' := by
  obtain ⟨x, hx, hs⟩ := hw
  have hawaited : ¬ Unawaited d q := fun hu => hu x (List.mem_of_getElem? hx) hs
  by_cases hq : q = t
  · subst hq
    rcases h.promises b hp with ⟨-, hu⟩ | ⟨hp, -⟩ | hr
    · exact absurd hu hawaited
    · exact .inl hp
    · exact .inr ⟨rfl, hr⟩
  · exact .inl (h.promises_of hq (fun hv => hawaited (h.victim q hv).2.1) hp)

end Good

theorem Promises.live {b : Nat} {d : Daemon} {q : TaskId} (h : Promises b d q) : outcomeOf q d.tasks = none := by
  cases h with
  | running h => exact h.outcomeOf
  | replacing h => exact h.outcomeOf
  | async _ h => exact h.outcomeOf
  | stored _ h => exact h.outcomeOf

/-- Who waits for a task that promises a run goes on waiting for it, or comes back after the run. -/
theorem Good.woken {t : TaskId} {v : Option TaskId} {d d' : Daemon} (h : Good t v d d') {k q b : Nat}
    {x x' : Asyncio.Task Coro} (hx : d.tasks[k]? = some x) (hw : Woken t d'.tasks x x')
    (hs : x.status = .waiting (.task q)) (hp : Promises b d q) :
    x' = x ∧ Promises b d' q ∨ x' = { x with status := .ready .ok } ∧ Returned b d' := by
  have hkept := h.awaited ⟨x, hx, hs⟩ hp
  rcases hw.of_task hs with ⟨rfl, hnone⟩ | ⟨rfl, o, ho, rfl⟩
  · rcases hkept with hq | ⟨rfl, hout, -⟩
    · exact .inl ⟨rfl, hq⟩
    · rw [hnone rfl] at hout
      cases hout
  · rcases hkept with hq | ⟨-, hout, hb⟩
    · rw [hq.live] at ho
      cases ho
    · rw [hout] at ho
      cases ho
      exact .inr ⟨rfl, hb⟩

/-- The periodic task that was replaced promises nothing. -/
theorem Promises.not_replaced {b : Nat} {d : Daemon} {q : TaskId} (h : Promises b d q) (hl : LiveAt Pc.isQuiet d q) :
    d.state.periodicTask = some q := by
  cases h with
  | running h => exact (h.inside.absurd hl fun _ => Pc.not_isQuiet_of_inside).elim
  | replacing h => exact ((h.imp fun _ => Pc.inside_of_isReplacing).absurd hl fun _ => Pc.not_isQuiet_of_inside).elim
  | async _ h => exact (h.absurd hl fun _ => Pc.not_isQuiet_of_isAsync).elim
  | stored hp => exact hp

theorem returned_zero {d : Daemon} {q : TaskId} (hk : Locked d) (h : LiveAt Pc.isReplacing d q) : Returned 0 d := by
  refine ⟨Nat.zero_le _, fun _ i hi => ?_⟩
  obtain rfl := hk.unique i q hi.inside (h.imp fun _ => Pc.inside_of_isReplacing)
  exact h.absurd hi fun _ => Pc.not_running_of_isReplacing

theorem Promises.zero {b : Nat} {d : Daemon} {q : TaskId} (hk : Locked d) (h : Promises b d q) : Promises 0 d q := by
  cases h with
  | running h => exact .running h (Nat.zero_le _)
  | async hs h => exact .async hs h (Nat.zero_le _)
  | stored hp h => exact .stored hp h (Nat.zero_le _)
  | replacing h => exact .replacing h (returned_zero hk h)

theorem Promises.of_same {d d' : Daemon} {q : TaskId} (hk : Locked d') (hs : Same d.state d'.state)
    (live : ∀ p, LiveAt p d q → LiveAt p d' q) (h : Promises 0 d q) : Promises 0 d' q := by
  cases h with
  | running h => exact .running (live _ h) (Nat.zero_le _)
  | replacing h => exact .replacing (live _ h) (returned_zero hk (live _ h))
  | async ha h => exact .async (hs.async.trans ha) (live _ h) (Nat.zero_le _)
  | stored hp h => exact .stored (hs.periodic.trans hp) (live _ h) (Nat.zero_le _)

theorem Helpers.of_good {t : TaskId} {v : Option TaskId} {d d' : Daemon} (h : Good t v d d') {us : List TaskId}
    (hu : Helpers d us) (hlive : ∃ u ∈ us, ∃ y, d'.tasks[u]? = some y ∧ y.isDone = false) : Helpers d' us := by
  have hh : ∀ u ∈ us, ∃ x, d'.tasks[u]? = some x ∧ x.coro.pc.isHelper = true := by
    intro u hmem
    obtain ⟨x, hx, hp⟩ := hu.helper u hmem
    by_cases hut : u = t
    · subst hut
      exact h.helper x hx hp
    · have hv : v ≠ some u := by
        rintro rfl
        have hq := (h.victim u rfl).2.2.1.at hx
        rw [Pc.not_isQuiet_of_isHelper hp] at hq
        cases hq
      obtain ⟨x', hx', hw⟩ := h.forth u x hut hv hx
      exact ⟨x', hx', hw.coro ▸ hp⟩
  refine ⟨hh, ?_⟩
  obtain ⟨u, hmem, y, hy, hd⟩ := hlive
  obtain ⟨x, hx, hp⟩ := hh u hmem
  rw [hy, Option.some.injEq] at hx
  subst hx
  exact ⟨u, hmem, y, hy, hd, hp⟩

/-- While no task ends, the helper that was at work still is. -/
theorem Helpers.still {t : TaskId} {v : Option TaskId} {d d' : Daemon} (h : Good t v d d') {us : List TaskId}
    (hu : Helpers d us) (hnone : outcomeOf t d'.tasks = none) :
    ∃ u ∈ us, ∃ y, d'.tasks[u]? = some y ∧ y.isDone = false := by
  obtain ⟨u, hmem, hl⟩ := hu.live
  by_cases hut : u = t
  · subst hut
    obtain ⟨y, hy, -, hp⟩ := hl
    obtain ⟨y', hy', -⟩ := h.helper y hy hp
    refine ⟨u, hmem, y', hy', ?_⟩
    rw [outcomeOf, hy', Option.bind_some] at hnone
    rw [Task.isDone, hnone]
    rfl
  · have hv : v ≠ some u := by
      rintro rfl
      exact hl.absurd (h.victim u rfl).2.2.1 fun _ => Pc.not_isQuiet_of_isHelper
    obtain ⟨y, hy, hd, -⟩ := h.liveAt hut hv hl
    exact ⟨u, hmem, y, hy, hd⟩

/-- Who waits for a task that is to be cancelled goes on waiting for it, or finds it cancelled. -/
theorem Good.woken_of_doomed {t : TaskId} {v : Option TaskId} {d d' : Daemon} (h : Good t v d d') {k q : TaskId}
    {x x' : Asyncio.Task Coro} (hx : d.tasks[k]? = some x) (hw : Woken t d'.tasks x x')
    (hs : x.status = .waiting (.task q)) (hl : LiveAt Pc.isQuiet d q) (hd : Doomed d q) :
    x' = x ∧ LiveAt Pc.isQuiet d' q ∧ Doomed d' q ∨ x' = { x with status := .ready .cancelled } := by
  rcases hw.of_task hs with ⟨rfl, hnone⟩ | ⟨rfl, o, ho, rfl⟩
  · have hq : q ≠ t := by
      rintro rfl
      have hout := h.doomed hl hd
      rw [hnone rfl] at hout
      cases hout
    have hv : v ≠ some q := by
      rintro rfl
      exact (h.victim q rfl).2.1 x' (List.mem_of_getElem? hx) hs
    obtain ⟨y, hy, hdue⟩ := hd
    obtain ⟨y', hy', hwy⟩ := h.forth q y hq hv hy
    exact .inl ⟨rfl, h.liveAt hq hv hl, y', hy', hwy.eq_of_due hdue ▸ hdue⟩
  · rw [h.doomed hl hd] at ho
    cases ho
    exact .inr rfl

/-- The other tasks are placed after the step as they were. -/
theorem Placed.of_good {t : TaskId} {v : Option TaskId} {d d' : Daemon} (hy : Typed d) (h : Good t v d d')
    {i : TaskId} (hi : i ≠ t) (hv : v ≠ some i) {x x' : Asyncio.Task Coro} (hx : d.tasks[i]? = some x)
    (hw : Woken t d'.tasks x x')
    (hp : Placed d i x) : Placed d' i x' := by
  have hlt : i < d.tasks.length := (List.getElem?_eq_some_iff.1 hx).1
  have hwaits : ∀ k, WaitsFor d' k i → k ≠ t → WaitsFor d k i := fun k hk hne => (h.waitsFor hne hk).1
  cases hp with
  | ended hd => exact .ended (hw.isDone.trans hd)
  | aside hp => exact .aside (hw.coro ▸ hp)
  | called wait hp hs hm =>
    obtain rfl := hw.eq_of_ready hs
    exact .called wait hp hs hm
  | async hp hs hm ha =>
    obtain rfl := hw.eq_of_ready hs
    have hl : LiveAt Pc.isAsync d i := ⟨x', hx, by rw [Task.isDone, Task.outcome, hs]; rfl, congrArg Pc.isAsync hp⟩
    exact .async hp hs hm (h.keepsAsync i hi ha hl)
  | running hp hm hs =>
    refine .running (hw.coro ▸ hp) (hw.mark.trans hm) ?_
    rcases hs with hs | ⟨us, hs, hu⟩
    · exact .inl (hw.eq_of_ready hs ▸ hs)
    · cases hw with
      | all => exact .inl rfl
      | task _ hs' => rw [hs] at hs'; cases hs'
      | same ht ha =>
        exact .inr ⟨us, hs, hu.of_good h ((ha us hs).elim (hu.still h) id)⟩
  | itself hp hs =>
    obtain rfl := hw.eq_of_due hs
    exact .itself hp hs
  | replaces q hp hm hs =>
    refine .replaces q (hw.coro ▸ hp) (hw.mark.trans hm) ?_
    rcases hs with hs | ⟨hs, hl, hd⟩
    · exact .inl (hw.eq_of_ready hs ▸ hs)
    · rcases h.woken_of_doomed hx hw hs hl hd with ⟨rfl, hd'⟩ | rfl
      · exact .inr ⟨hs, hd'⟩
      · exact .inl rfl
  | stored hp hm hs ha =>
    refine .stored (hw.coro ▸ hp) (hw.mark.trans hm) ?_ (h.keepsStored i hi hv ha)
    cases hw with
    | same => exact hs
    | all => exact fun o h => .inl (by cases h; rfl)
    | task _ hs' =>
      -- The periodic task waits for the world outside, for no task.
      have hwaits := hy i x _ hx hs'
      revert hp hwaits
      cases x.coro.pc <;> first | exact fun _ h => Bool.noConfusion h | exact fun h _ => Bool.noConfusion h
  | replaced hp hs ha hwt =>
    obtain rfl := hw.eq_of_due hs
    have ha' : d'.state.periodicTask ≠ some i := fun h' => ha (h.newStored i hlt h')
    have hq : LiveAt Pc.isQuiet d' i := h.liveAt hi hv ⟨x', hx, x'.isDone_of_due hs, hp⟩
    refine .replaced hp hs ha' fun k hk => ?_
    by_cases hkt : k = t
    · subst hkt
      exact (h.waits i hk).resolve_right fun hpr => ha' (hpr.not_replaced hq)
    · exact h.inside hkt (hwt k (hwaits k hk hkt))
  | attends hp hm hs =>
    refine .attends (hw.coro ▸ hp) (hw.mark.trans hm) ?_
    rcases hs with hs | ⟨q, hs, hq⟩
    · exact .inl (hw.eq_of_ready hs ▸ hs)
    · rcases h.woken hx hw hs hq with ⟨rfl, hq'⟩ | ⟨rfl, -⟩
      · exact .inr ⟨q, hs, hq'⟩
      · exact .inl rfl

/-- A step that is good keeps the order. -/
theorem InOrder.of_good {t : TaskId} {v : Option TaskId} {d d' : Daemon} (hy : Typed d) (hk : Locked d')
    (ho : InOrder d) (h : Good t v d d') : InOrder d' := by
  refine ⟨hk, h.on, h.lock, h.serving, fun p hp => ?_, h.async, fun i x' hx' => ?_⟩
  · rcases h.stored p hp with ⟨hold, hpt, hvp⟩ | hnew
    · rcases ho.stored p hold with hl | hl | hout
      · exact .inl (h.liveAt hpt hvp hl)
      · exact .inr (.inl (h.liveAt hpt hvp hl))
      · exact .inr (.inr (h.outcome hpt hvp hout))
    · exact hnew
  · by_cases hi : i = t
    · subst hi
      exact h.self x' hx'
    · by_cases hlt : i < d.tasks.length
      · by_cases hv : v = some i
        · obtain ⟨-, hun, hl, hper, y, hy', hq, hdue⟩ := h.victim i hv
          rw [hx', Option.some.injEq] at hy'
          subst hy'
          refine .replaced hq hdue hper fun k hk => ?_
          have hlive : LiveAt Pc.isQuiet d' i := ⟨x', hx', x'.isDone_of_due hdue, hq⟩
          by_cases hkt : k = t
          · subst hkt
            exact (h.waits i hk).resolve_right fun hpr => hper (hpr.not_replaced hlive)
          · obtain ⟨⟨x, hx, hs⟩, -⟩ := h.waitsFor hkt hk
            exact absurd hs (hun x (List.mem_of_getElem? hx))
        · obtain ⟨x, hx, hw⟩ := h.back_of hi hv hlt hx'
          exact (ho.tasks i x hx).of_good hy h hi hv hx hw
      · exact (h.fresh i x' (Nat.le_of_not_lt hlt) hi hx').1

/-! ## A call that waits -/

/-- Where a call of task `t` is, which is to return after a run from the `b`th on. -/
inductive Served (b : Nat) (t : TaskId) (d : Daemon) : Prop
  | returned (h : outcomeOf t d.tasks = some .ok) (hb : Returned b d)
  | back (x : Asyncio.Task Coro) (hx : d.tasks[t]? = some x) (hp : x.coro.pc.attends = true)
      (hs : x.status = .ready .ok) (hm : x.mustCancel = false) (hb : Returned b d)
  | waits (x : Asyncio.Task Coro) (q : TaskId) (hx : d.tasks[t]? = some x) (hp : x.coro.pc.attends = true)
      (hs : x.status = .waiting (.task q)) (hm : x.mustCancel = false) (hq : Promises b d q)
  | runs (h : Inside d t) (hp : Promises b d t)

theorem Served.of_good {t : TaskId} {v : Option TaskId} {d d' : Daemon} {b : Nat} {i : TaskId} (h : Good t v d d')
    (hs : Served b i d) : Served b i d' := by
  have hv : ∀ x, d.tasks[i]? = some x → x.coro.pc.isQuiet = false ∨ x.isDone = true → v ≠ some i := by
    -- The task that is cancelled is quiet and has not ended: it is no caller's.
    rintro x hx hq rfl
    obtain ⟨y, hy, hd, hp⟩ := (h.victim i rfl).2.2.1
    rw [hx, Option.some.injEq] at hy
    subst hy
    rcases hq with hq | hq
    · rw [hp] at hq
      cases hq
    · rw [hd] at hq
      cases hq
  cases hs with
  | returned ho hb =>
    obtain ⟨x, hx, hxo⟩ := Option.bind_eq_some_iff.1 ho
    have hdone : x.isDone = true := by
      rw [Task.isDone, hxo]
      rfl
    have hi : i ≠ t := by
      rintro rfl
      rw [(h.live x hx).1] at hdone
      cases hdone
    exact .returned (h.outcome hi (hv x hx (.inr hdone)) ho) (h.returned hb)
  | back x hx hp hs hm hb =>
    by_cases hi : i = t
    · subst hi
      exact .returned (h.back x hx hp (by rw [Task.due, hs, hm]; rfl)) (h.returned hb)
    · obtain ⟨x', hx', hw⟩ := h.forth i x hi (hv x hx (.inl (Pc.not_isQuiet_of_attends hp))) hx
      obtain rfl := hw.eq_of_ready hs
      exact .back x' hx' hp hs hm (h.returned hb)
  | waits x q hx hp hs hm hq =>
    have hi : i ≠ t := by
      rintro rfl
      exact (h.live x hx).2 q hs
    obtain ⟨x', hx', hw⟩ := h.forth i x hi (hv x hx (.inl (Pc.not_isQuiet_of_attends hp))) hx
    rcases h.woken hx hw hs hq with ⟨rfl, hq'⟩ | ⟨rfl, hb⟩
    · exact .waits x' q hx' hp hs hm hq'
    · exact .back _ hx' hp rfl hm hb
  | runs hin hp =>
    by_cases hi : i = t
    · subst hi
      rcases h.promises b hp with ⟨hq, -⟩ | ⟨hp', hin'⟩ | ⟨hout, hb⟩
      · exact (hin.absurd hq fun _ => Pc.not_isQuiet_of_inside).elim
      · exact .runs (hin' hin) hp'
      · exact .returned hout hb
    · obtain ⟨x, hx, -, hpx⟩ := id hin
      have hvi := hv x hx (.inl (Pc.not_isQuiet_of_inside hpx))
      exact .runs (h.inside hi hin) (h.promises_of hi hvi hp)

end LogSubmitter.Daemon

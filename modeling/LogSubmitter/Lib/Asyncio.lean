import Mathlib.Data.List.Basic
/-!
# Tasks of an event loop

One thread runs coroutines in turns. A task is resumed with what it awaited,
runs until it awaits again or ends, and in between no other task runs. A task
that is cancelled gets `CancelledError` from what it awaits: a future is
cancelled in its place, a task it waits for is cancelled in turn, and
`asyncio.wait` just stops waiting. `C` is the type of suspended coroutines, `σ`
the data they share.
-/
namespace Lib.Asyncio

abbrev TaskId := Nat

/-- What an `await` gives, and how a task ends: a value, `CancelledError`, or another exception. -/
inductive Outcome where
  | ok
  | cancelled
  | error
  deriving DecidableEq, Repr

/-- What a coroutine waits for: a future from outside, a task, or all of some tasks. -/
inductive Wait where
  | external
  | task (t : TaskId)
  | all (ts : List TaskId)
  deriving DecidableEq, Repr

inductive Status where
  | ready (o : Outcome)
  | waiting (w : Wait)
  | done (o : Outcome)
  deriving DecidableEq, Repr

/-- `mustCancel` says that the next resumption raises `CancelledError`. -/
structure Task (C : Type) where
  coro : C
  status : Status
  mustCancel : Bool
  deriving Repr

/-- The tasks, by id, and the shared data. -/
structure Loop (C σ : Type) where
  tasks : List (Task C)
  state : σ

/-- How a coroutine's turn ends: it awaits, or it returns or raises. -/
inductive Flow (C : Type) where
  | await (c : C) (w : Wait)
  | done (o : Outcome)

variable {C σ : Type}

namespace Task

/-- How the task ended, if it did. -/
def outcome (task : Task C) : Option Outcome :=
  match task.status with
  | .done o => some o
  | _ => none

def isDone (task : Task C) : Bool := task.outcome.isSome

end Task

/-- `asyncio.create_task`. -/
def createTask (c : C) (l : Loop C σ) : Loop C σ :=
  { l with tasks := l.tasks ++ [{ coro := c, status := .ready .ok, mustCancel := false }] }

/-- How task `t` ended, if it did. -/
def outcomeOf (t : TaskId) (ts : List (Task C)) : Option Outcome := ts[t]?.bind Task.outcome

/-- `task.cancel()`, and whether it was still running. A task that waits for
another passes it on. `none` is the recursion limit: the tasks wait in a circle. -/
def cancel : Nat → TaskId → List (Task C) → Option (List (Task C) × Bool)
  | 0, _, _ => none
  | depth + 1, t, ts =>
    match ts[t]? with
    | none => some (ts, false)
    | some task =>
      match task.status with
      | .done _ => some (ts, false)
      | .ready _ => some (ts.set t { task with mustCancel := true }, true)
      | .waiting (.task u) =>
        (cancel depth u ts).map fun r => if r.2 then r else (r.1.set t { task with mustCancel := true }, true)
      | .waiting _ => some (ts.set t { task with status := .ready .cancelled }, true)

/-- Python's recursion limit. -/
def recursionLimit : Nat := 1000

/-- A task that waited for `t`, and for nothing else of `ts`, is ready. -/
def wakeTask (t : TaskId) (o : Outcome) (ts : List (Task C)) (task : Task C) : Task C :=
  match task.status with
  | .waiting (.task u) => if u = t then { task with status := .ready o } else task
  | .waiting (.all us) => if us.all fun u => ts[u]?.all Task.isDone then { task with status := .ready .ok } else task
  | _ => task

def wake (t : TaskId) (o : Outcome) (ts : List (Task C)) : List (Task C) := ts.map (wakeTask t o ts)

/-- The turn of task `t` has ended with `flow`. -/
def settle (t : TaskId) (flow : Flow C) (ts : List (Task C)) : List (Task C) :=
  match ts[t]? with
  | none => ts
  | some task =>
    match flow with
    | .done o =>
      -- A task cancelled in its last turn ends as cancelled.
      let o' := if task.mustCancel ∧ o = .ok then .cancelled else o
      wake t o' (ts.set t { task with status := .done o', mustCancel := false })
    | .await c w =>
      -- A task cannot await itself: it gets a `RuntimeError`.
      if w = .task t then ts.set t { coro := c, status := .ready .error, mustCancel := task.mustCancel }
      else
        let waiting := ts.set t { coro := c, status := .waiting w, mustCancel := task.mustCancel }
        if !task.mustCancel then waiting
        else
          match w with
          | .task u =>
            match cancel recursionLimit u waiting with
            | some (ts', true) => ts'.set t { coro := c, status := .waiting w, mustCancel := false }
            | _ => waiting
          | _ => ts.set t { coro := c, status := .ready .cancelled, mustCancel := false }

/-- What a task gets in its next turn, if it is ready. -/
def Task.due (task : Task C) : Option Outcome :=
  match task.status with
  | .ready o => some (if task.mustCancel then .cancelled else o)
  | _ => none

def unmark (t : TaskId) (l : Loop C σ) : Loop C σ :=
  { l with tasks := l.tasks.modify t fun task => { task with mustCancel := false } }

/-- A turn of task `t`, if it is ready. -/
def resume (run : C → Outcome → Loop C σ → Loop C σ × Flow C) (t : TaskId) (l : Loop C σ) : Option (Loop C σ) :=
  match l.tasks[t]? with
  | none => none
  | some task =>
    match task.due with
    | none => none
    | some o =>
      let r := run task.coro o (unmark t l)
      some { r.1 with tasks := settle t r.2 r.1.tasks }

/-- The future an awaiting task waits for gets a result, or an exception. -/
def complete (t : TaskId) (o : Outcome) (l : Loop C σ) : Option (Loop C σ) :=
  match l.tasks[t]? with
  | some { coro := c, status := .waiting .external, mustCancel := m } =>
    some { l with tasks := l.tasks.set t { coro := c, status := .ready o, mustCancel := m } }
  | _ => none

/-! ## What happens to a task meanwhile -/

theorem Task.due_cancelled {task : Task C} {o : Outcome} (hs : task.status = .ready o)
    (h : task.mustCancel = true ∨ o = .cancelled) : task.due = some .cancelled := by
  rw [due, hs]
  rcases h with h | rfl
  · simp only [h, if_true]
  · simp only [ite_self]

/-- What `task` has become while other tasks took their turns, with the tasks `ts` at the end: it may
be marked, and it may have got what it waited for, but it has not moved. -/
structure Meanwhile (ts : List (Task C)) (task task' : Task C) : Prop where
  coro : task'.coro = task.coro
  mark : task.mustCancel = true → task'.mustCancel = true
  status : task'.status = task.status ∨ ∃ w o, task.status = .waiting w ∧ task'.status = .ready o ∧
    ∀ u, w = .task u → (outcomeOf u ts).isSome = true

namespace Meanwhile
variable {ts ts' : List (Task C)} {task task' task'' : Task C}

theorem refl (ts : List (Task C)) (task : Task C) : Meanwhile ts task task := ⟨rfl, id, .inl rfl⟩

theorem outcome (h : Meanwhile ts task task') : task'.outcome = task.outcome := by
  rcases h.status with hs | ⟨w, o, hw, hr, -⟩
  · rw [Task.outcome, hs, Task.outcome]
  · rw [Task.outcome, hr, Task.outcome, hw]

theorem isDone (h : Meanwhile ts task task') : task'.isDone = task.isDone := by
  rw [Task.isDone, h.outcome, Task.isDone]

/-- A task goes on waiting for one that has not ended. -/
theorem waiting (h : Meanwhile ts task task') {u : TaskId} (hw : task.status = .waiting (.task u))
    (hu : outcomeOf u ts = none) : task'.status = .waiting (.task u) := by
  rcases h.status with hs | ⟨w, o, hw', -, hd⟩
  · rw [hs, hw]
  · rw [hw] at hw'
    cases hw'
    have hsome := hd u rfl
    rw [hu] at hsome
    cases hsome

theorem ready (h : Meanwhile ts task task') {o : Outcome} (hr : task.status = .ready o) :
    task'.status = .ready o := by
  rcases h.status with hs | ⟨w, o', hw, -, -⟩
  · rw [hs, hr]
  · rw [hr] at hw
    cases hw

/-- A task that will get `CancelledError` goes on to do so. -/
theorem due (h : Meanwhile ts task task') (hd : task.due = some .cancelled) : task'.due = some .cancelled := by
  unfold Task.due at hd
  split at hd
  · rename_i o hs
    refine Task.due_cancelled (h.ready hs) ?_
    by_cases hm : task.mustCancel = true
    · exact .inl (h.mark hm)
    · rw [if_neg hm, Option.some.injEq] at hd
      exact .inr hd
  · cases hd

theorem of_waiting (h : Meanwhile ts task task') {w : Wait} (hw : task'.status = .waiting w) :
    task.status = .waiting w := by
  rcases h.status with hs | ⟨w', o, -, hr, -⟩
  · rw [← hs, hw]
  · rw [hw] at hr
    cases hr

theorem mono (h : Meanwhile ts task task')
    (hts : ∀ u, (outcomeOf u ts).isSome = true → (outcomeOf u ts').isSome = true) :
    Meanwhile ts' task task' := by
  refine ⟨h.coro, h.mark, ?_⟩
  rcases h.status with hs | ⟨w, o, hw, hr, hd⟩
  · exact .inl hs
  · exact .inr ⟨w, o, hw, hr, fun u hu => hts u (hd u hu)⟩

theorem trans (h : Meanwhile ts task task') (h' : Meanwhile ts task' task'') : Meanwhile ts task task'' := by
  refine ⟨h'.coro.trans h.coro, fun hm => h'.mark (h.mark hm), ?_⟩
  rcases h.status with hs | ⟨w, o, hw, hr, hd⟩
  · rw [← hs]
    exact h'.status
  · exact .inr ⟨w, o, hw, h'.ready hr, hd⟩

end Meanwhile

/-- The tasks of `ts` do not move, and the new ones have not started and have coroutines in `p`. -/
structure Adds (p : C → Prop) (ts ts' : List (Task C)) : Prop where
  length : ts.length ≤ ts'.length
  keep : ∀ (i : TaskId) task, ts[i]? = some task → ∃ task', ts'[i]? = some task' ∧ Meanwhile ts' task task'
  fresh : ∀ (i : TaskId) task, ts.length ≤ i → ts'[i]? = some task →
    p task.coro ∧ ∃ o, task.status = .ready o

namespace Adds
variable {p q : C → Prop} {ts ts' ts'' : List (Task C)}

theorem refl (p : C → Prop) (ts : List (Task C)) : Adds p ts ts :=
  ⟨(Nat.le_refl _), fun _ task h => ⟨task, h, .refl ts task⟩, fun i task hi h => by
    rw [List.getElem?_eq_none hi] at h
    cases h⟩

theorem mono (h : Adds p ts ts') (hpq : ∀ c, p c → q c) : Adds q ts ts' :=
  ⟨h.length, h.keep, fun i task hi hg => ⟨hpq _ (h.fresh i task hi hg).1, (h.fresh i task hi hg).2⟩⟩

theorem outcomeOf_eq (h : Adds p ts ts') {u : TaskId} (hu : u < ts.length) : outcomeOf u ts' = outcomeOf u ts := by
  obtain ⟨task, hg⟩ : ∃ task, ts[u]? = some task := ⟨_, List.getElem?_eq_getElem hu⟩
  obtain ⟨task', hg', hm⟩ := h.keep u task hg
  rw [outcomeOf, hg', outcomeOf, hg]
  exact hm.outcome

theorem outcomeOf_isSome (h : Adds p ts ts') {u : TaskId} (hu : (outcomeOf u ts).isSome = true) :
    (outcomeOf u ts').isSome = true := by
  by_cases hlt : u < ts.length
  · rw [h.outcomeOf_eq hlt]
    exact hu
  · rw [outcomeOf, List.getElem?_eq_none (Nat.le_of_not_lt hlt)] at hu
    cases hu

theorem trans (h : Adds p ts ts') (h' : Adds p ts' ts'') : Adds p ts ts'' := by
  refine ⟨Nat.le_trans h.length h'.length, fun i task hi => ?_, fun i task hi hg => ?_⟩
  · obtain ⟨task', h1, hm⟩ := h.keep i task hi
    obtain ⟨task'', h2, hm'⟩ := h'.keep i task' h1
    exact ⟨task'', h2, (hm.mono fun u => h'.outcomeOf_isSome).trans hm'⟩
  · by_cases hlt : i < ts'.length
    · obtain ⟨task', h1⟩ : ∃ task', ts'[i]? = some task' := ⟨_, List.getElem?_eq_getElem hlt⟩
      obtain ⟨task'', h2, hm⟩ := h'.keep i task' h1
      rw [hg, Option.some.injEq] at h2
      subst h2
      obtain ⟨hp, o, ho⟩ := h.fresh i task' hi h1
      exact ⟨hm.coro ▸ hp, o, hm.ready ho⟩
    · exact h'.fresh i task (Nat.le_of_not_lt hlt) hg

/-- How a task ended is how it had ended before. -/
theorem outcomeOf_some (h : Adds p ts ts') {u : TaskId} {o : Outcome} (hu : outcomeOf u ts' = some o) :
    outcomeOf u ts = some o := by
  by_cases hlt : u < ts.length
  · rw [← h.outcomeOf_eq hlt]
    exact hu
  · obtain ⟨task, hg, ho⟩ := Option.bind_eq_some_iff.1 hu
    obtain ⟨-, o', hs⟩ := h.fresh u task (Nat.le_of_not_lt hlt) hg
    rw [Task.outcome, hs] at ho
    cases ho

theorem set {t : TaskId} {task : Task C} (task' : Task C) (hg : ts[t]? = some task)
    (hm : Meanwhile (ts.set t task') task task') (p : C → Prop) : Adds p ts (ts.set t task') := by
  refine ⟨by simp, fun i x hi => ?_, fun i x hi hx => ?_⟩
  · by_cases h : t = i
    · subst h
      rw [hg, Option.some.injEq] at hi
      subst hi
      obtain ⟨hlt, -⟩ := List.getElem?_eq_some_iff.1 hg
      exact ⟨task', List.getElem?_set_self hlt, hm⟩
    · exact ⟨x, by rw [List.getElem?_set_ne h]; exact hi, .refl _ x⟩
  · rw [List.getElem?_eq_none (by simpa using hi)] at hx
    cases hx

end Adds

theorem createTask_adds (p : C → Prop) {c : C} (hc : p c) (l : Loop C σ) : Adds p l.tasks (createTask c l).tasks := by
  refine ⟨by simp [createTask], fun i task hi => ⟨task, ?_, .refl _ task⟩, fun i task hi hg => ?_⟩
  · obtain ⟨hlt, -⟩ := List.getElem?_eq_some_iff.1 hi
    rw [createTask, List.getElem?_append_left hlt]
    exact hi
  · rw [createTask, List.getElem?_append_right hi] at hg
    cases hk : i - l.tasks.length with
    | zero =>
      rw [hk] at hg
      cases hg
      exact ⟨hc, .ok, rfl⟩
    | succ k =>
      rw [hk] at hg
      cases hg

/-- A task that is not cancelled is one that has ended, or none. -/
theorem cancel_false {depth : Nat} {t : TaskId} {ts ts' : List (Task C)}
    (h : cancel depth t ts = some (ts', false)) : ts' = ts ∧ ∀ task, ts[t]? = some task → task.isDone = true := by
  cases depth with
  | zero => cases h
  | succ depth =>
    rw [cancel] at h
    split at h
    · rename_i hg
      cases h
      exact ⟨rfl, by rw [hg]; rintro task ⟨⟩⟩
    · rename_i task hg
      split at h
      · rename_i hs
        cases h
        refine ⟨rfl, fun task' hg' => ?_⟩
        rw [hg, Option.some.injEq] at hg'
        subst hg'
        rw [Task.isDone, Task.outcome, hs]
        rfl
      · cases h
      · obtain ⟨r, -, hr⟩ := Option.map_eq_some_iff.1 h
        split at hr
        · rename_i hb
          subst hr
          cases hb
        · cases hr
      · cases h

theorem cancel_adds (p : C → Prop) {depth : Nat} {t : TaskId} {ts : List (Task C)} {r : List (Task C) × Bool}
    (h : cancel depth t ts = some r) : Adds p ts r.1 := by
  induction depth generalizing t r with
  | zero => cases h
  | succ depth ih =>
    rw [cancel] at h
    split at h
    · cases h; exact .refl p ts
    · rename_i task hg
      have hmark : ∀ ts' : List (Task C), Meanwhile ts' task { task with mustCancel := true } :=
        fun _ => ⟨rfl, fun _ => rfl, .inl rfl⟩
      split at h
      · cases h; exact .refl p ts
      · cases h; exact .set _ hg (hmark _) p
      · obtain ⟨r', hr', rfl⟩ := Option.map_eq_some_iff.1 h
        split
        · exact ih hr'
        · -- The task it waits for had ended, and it is marked itself.
          rename_i hb
          obtain ⟨ts', b⟩ := r'
          rw [Bool.not_eq_true] at hb
          subst hb
          rw [(cancel_false hr').1]
          exact .set _ hg (hmark _) p
      · rename_i w hne hs
        cases h
        exact .set { task with status := .ready .cancelled } hg
          ⟨rfl, id, .inr ⟨w, .cancelled, hs, rfl, fun u hu => (hne u hu).elim⟩⟩ p

/-- A live task that waits for no other is cancelled itself: its next turn gets `CancelledError`. -/
theorem cancel_marks {depth : Nat} {t : TaskId} {ts : List (Task C)} {r : List (Task C) × Bool}
    (h : cancel depth t ts = some r) {task : Task C} (hg : ts[t]? = some task) (hd : task.isDone = false)
    (hw : ∀ u, task.status ≠ .waiting (.task u)) :
    ∃ task' o, r.1[t]? = some task' ∧ task'.status = .ready o ∧ (task'.mustCancel = true ∨ o = .cancelled) := by
  cases depth with
  | zero => cases h
  | succ depth =>
    obtain ⟨hlt, -⟩ := List.getElem?_eq_some_iff.1 hg
    rw [cancel, hg] at h
    simp only at h
    split at h
    · rename_i hs
      rw [Task.isDone, Task.outcome, hs] at hd
      cases hd
    · rename_i o hs
      cases h
      exact ⟨_, o, List.getElem?_set_self hlt, hs, .inl rfl⟩
    · rename_i u hs
      exact absurd hs (hw u)
    · cases h
      exact ⟨_, .cancelled, List.getElem?_set_self hlt, rfl, .inr rfl⟩

/-- A task that waits is not new, and has been waiting for the same at the same place. -/
theorem waiting_of_keep {ts ts' : List (Task C)} {i : TaskId} {task' : Task C} {w : Wait}
    (hkeep : ∀ task, ts[i]? = some task → ∃ task', ts'[i]? = some task' ∧ Meanwhile ts' task task')
    (hfresh : ts.length ≤ i → ∃ o, task'.status = .ready o) (hg : ts'[i]? = some task')
    (hw : task'.status = .waiting w) :
    ∃ task, ts[i]? = some task ∧ task.status = .waiting w ∧ task'.coro = task.coro := by
  by_cases hlt : i < ts.length
  · obtain ⟨task, hg₀⟩ : ∃ task, ts[i]? = some task := ⟨_, List.getElem?_eq_getElem hlt⟩
    obtain ⟨x, hx, hm⟩ := hkeep task hg₀
    rw [hg, Option.some.injEq] at hx
    subst hx
    exact ⟨task, hg₀, hm.of_waiting hw, hm.coro⟩
  · obtain ⟨o, ho⟩ := hfresh (Nat.le_of_not_lt hlt)
    rw [hw] at ho
    cases ho

theorem Adds.waiting {p : C → Prop} {ts ts' : List (Task C)} (h : Adds p ts ts') {i : TaskId} {task' : Task C}
    {w : Wait} (hg : ts'[i]? = some task') (hw : task'.status = .waiting w) :
    ∃ task, ts[i]? = some task ∧ task.status = .waiting w ∧ task'.coro = task.coro :=
  waiting_of_keep (h.keep i) (fun hi => (h.fresh i task' hi hg).2) hg hw

/-- If no task starts to wait for another, no circle of waiting tasks comes up. -/
theorem cancel_isSome {ts ts' : List (Task C)}
    (h : ∀ (i : TaskId) task' u, ts'[i]? = some task' → task'.status = .waiting (.task u) →
      ∃ task, ts[i]? = some task ∧ task.status = .waiting (.task u))
    {depth : Nat} {t : TaskId} (hc : (cancel depth t ts).isSome = true) : (cancel depth t ts').isSome = true := by
  induction depth generalizing t with
  | zero => cases hc
  | succ depth ih =>
    rw [cancel]
    split
    · rfl
    · rename_i task' hg'
      split
      · rfl
      · rfl
      · rename_i u hs
        obtain ⟨task, hg, hs'⟩ := h t task' u hg' hs
        rw [cancel, hg] at hc
        simp only [hs', Option.isSome_map] at hc ⊢
        exact ih hc
      · rfl

theorem Adds.cancel_isSome {p : C → Prop} {ts ts' : List (Task C)} (h : Adds p ts ts') {depth : Nat} {t : TaskId}
    (hc : (cancel depth t ts).isSome = true) : (cancel depth t ts').isSome = true :=
  Asyncio.cancel_isSome (fun _ _ _ hg hs => (h.waiting hg hs).imp fun _ hx => ⟨hx.1, hx.2.1⟩) hc

theorem wakeTask_meanwhile {t : TaskId} {o : Outcome} {ts ts' : List (Task C)} (ht : (outcomeOf t ts').isSome = true)
    (task : Task C) : Meanwhile ts' task (wakeTask t o ts task) := by
  unfold wakeTask
  split
  · rename_i u hs
    split
    · rename_i he
      subst he
      exact ⟨rfl, id, .inr ⟨_, o, hs, rfl, by rintro u ⟨⟩; exact ht⟩⟩
    · exact .refl ts' task
  · rename_i us hs
    split
    · exact ⟨rfl, id, .inr ⟨_, .ok, hs, rfl, by rintro u ⟨⟩⟩⟩
    · exact .refl ts' task
  · exact .refl ts' task

theorem wake_adds (p : C → Prop) {t : TaskId} {ts : List (Task C)} (ht : (outcomeOf t ts).isSome = true)
    (o : Outcome) : Adds p ts (wake t o ts) := by
  have hget : ∀ i, (wake t o ts)[i]? = (ts[i]?).map (wakeTask t o ts) := fun i => by rw [wake, List.getElem?_map]
  have ht' : (outcomeOf t (wake t o ts)).isSome = true := by
    obtain ⟨task, hg, ho⟩ := Option.bind_eq_some_iff.1 (Option.eq_some_of_isSome ht)
    rw [outcomeOf, hget, hg, Option.map_some, Option.bind_some, (wakeTask_meanwhile ht task).outcome, ho]
    exact Option.isSome_some
  refine ⟨by simp [wake], fun i task hi => ?_, fun i task hi hg => ?_⟩
  · exact ⟨_, by rw [hget, hi]; rfl, wakeTask_meanwhile ht' task⟩
  · rw [hget, List.getElem?_eq_none hi] at hg
    cases hg

/-! ## What a turn leaves -/

/-- As `Adds`, for all tasks but `t`. -/
structure Others (p : C → Prop) (t : TaskId) (ts ts' : List (Task C)) : Prop where
  length : ts.length ≤ ts'.length
  keep : ∀ (i : TaskId) task, i ≠ t → ts[i]? = some task → ∃ task', ts'[i]? = some task' ∧ Meanwhile ts' task task'
  fresh : ∀ (i : TaskId) task, ts.length ≤ i → ts'[i]? = some task → i ≠ t → p task.coro ∧ ∃ o, task.status = .ready o

namespace Others
variable {p q : C → Prop} {t : TaskId} {ts ts' ts'' : List (Task C)}

theorem of_adds (h : Adds p ts ts') (t : TaskId) : Others p t ts ts' :=
  ⟨h.length, fun i task _ => h.keep i task, fun i task hi hg _ => h.fresh i task hi hg⟩

theorem mono (h : Others p t ts ts') (hpq : ∀ c, p c → q c) : Others q t ts ts' :=
  ⟨h.length, h.keep, fun i task hi hg ht => ⟨hpq _ (h.fresh i task hi hg ht).1, (h.fresh i task hi hg ht).2⟩⟩

theorem set (p : C → Prop) (t : TaskId) (ts : List (Task C)) (task : Task C) : Others p t ts (ts.set t task) := by
  refine ⟨by simp, fun i x hi hg => ⟨x, ?_, .refl _ x⟩, fun i x hi hg _ => ?_⟩
  · rw [List.getElem?_set_ne (Ne.symm hi)]
    exact hg
  · rw [List.getElem?_eq_none (by simpa using hi)] at hg
    cases hg

theorem outcomeOf_isSome (h : Others p t ts ts') {u : TaskId} (hne : u ≠ t) (hu : (outcomeOf u ts).isSome = true) :
    (outcomeOf u ts').isSome = true := by
  obtain ⟨task, hg, ho⟩ := Option.bind_eq_some_iff.1 (Option.eq_some_of_isSome hu)
  obtain ⟨task', hg', hm⟩ := h.keep u task hne hg
  rw [outcomeOf, hg', Option.bind_some, hm.outcome, ho]
  rfl

theorem waiting (h : Others p t ts ts') {i : TaskId} (hi : i ≠ t) {task' : Task C} {w : Wait}
    (hg : ts'[i]? = some task') (hw : task'.status = .waiting w) :
    ∃ task, ts[i]? = some task ∧ task.status = .waiting w ∧ task'.coro = task.coro :=
  waiting_of_keep (fun task => h.keep i task hi) (fun hlt => (h.fresh i task' hlt hg hi).2) hg hw

/-- One after the other, when `t` does not come back to life. -/
theorem trans (h : Others p t ts ts') (h' : Others p t ts' ts'')
    (ht : (outcomeOf t ts').isSome = true → (outcomeOf t ts'').isSome = true) : Others p t ts ts'' := by
  have hdone : ∀ u, (outcomeOf u ts').isSome = true → (outcomeOf u ts'').isSome = true := by
    intro u hu
    by_cases hne : u = t
    · subst hne
      exact ht hu
    · exact h'.outcomeOf_isSome hne hu
  refine ⟨Nat.le_trans h.length h'.length, fun i x hi hg => ?_, fun i x hi hg hne => ?_⟩
  · obtain ⟨x', hg', hm⟩ := h.keep i x hi hg
    obtain ⟨x'', hg'', hm'⟩ := h'.keep i x' hi hg'
    exact ⟨x'', hg'', (hm.mono hdone).trans hm'⟩
  · by_cases hlt : i < ts'.length
    · obtain ⟨x', hg'⟩ : ∃ x', ts'[i]? = some x' := ⟨_, List.getElem?_eq_getElem hlt⟩
      obtain ⟨x'', hg'', hm⟩ := h'.keep i x' hne hg'
      rw [hg, Option.some.injEq] at hg''
      subst hg''
      obtain ⟨hp, o, ho⟩ := h.fresh i x' hi hg' hne
      exact ⟨hm.coro ▸ hp, o, hm.ready ho⟩
    · exact h'.fresh i x (Nat.le_of_not_lt hlt) hg hne

end Others

/-- Where task `t` is after a turn of its own that ended with `flow`, from the coroutine `c₀`. -/
def Landed (t : TaskId) (flow : Flow C) (c₀ : C) (task : Task C) : Prop :=
  match flow with
  | .await c w => task.coro = c ∧
      (task.status = .waiting w ∨ ∃ o, task.status = .ready o ∧ ∀ u, w = .task u → u = t)
  | .done o => task.coro = c₀ ∧ ∃ o', task.status = .done o' ∧ (o' = .ok → o = .ok)

/-- A turn of `t`, of coroutine `c₀`, that ended with `flow` took the tasks `ts` to `ts'`. -/
structure Turned (p : C → Prop) (t : TaskId) (c₀ : C) (flow : Flow C) (ts ts' : List (Task C)) : Prop where
  others : Others p t ts ts'
  self : ∃ task, ts'[t]? = some task ∧ Landed t flow c₀ task

theorem settle_turned (p : C → Prop) {t : TaskId} {task : Task C} (flow : Flow C) {ts : List (Task C)}
    (hg : ts[t]? = some task) : Turned p t task.coro flow ts (settle t flow ts) := by
  obtain ⟨hlt, -⟩ := List.getElem?_eq_some_iff.1 hg
  have hset : ∀ x : Task C, (ts.set t x)[t]? = some x := fun x => List.getElem?_set_self hlt
  have hout : ∀ x : Task C, outcomeOf t (ts.set t x) = x.outcome := fun x => by rw [outcomeOf, hset]; rfl
  unfold settle
  rw [hg]
  cases flow with
  | done o =>
    simp only
    -- The end of `t`, cancelled if it was to be, wakes who waited for it.
    generalize ho' : (if task.mustCancel = true ∧ o = .ok then Outcome.cancelled else o) = o'
    have hdone : (outcomeOf t (ts.set t { task with status := .done o', mustCancel := false })).isSome = true := by
      rw [hout]
      rfl
    have hw := wake_adds p hdone o'
    obtain ⟨x, hx, hm⟩ := hw.keep t _ (hset _)
    refine ⟨(Others.set p t ts _).trans (.of_adds hw t) hw.outcomeOf_isSome, x, hx, hm.coro, o', ?_, ?_⟩
    · rcases hm.status with hs | ⟨w, o, hs, -⟩
      · exact hs
      · cases hs
    · rintro rfl
      split at ho'
      · cases ho'
      · exact ho'
  | await c w =>
    simp only
    have here : ∀ x : Task C, Landed t (.await c w) task.coro x →
        Turned p t task.coro (.await c w) ts (ts.set t x) :=
      fun x hl => ⟨.set p t ts x, x, hset x, hl⟩
    split
    · rename_i hw
      exact here _ ⟨rfl, .inr ⟨.error, rfl, fun u hu => by rw [hw] at hu; cases hu; rfl⟩⟩
    · split
      · exact here _ ⟨rfl, .inl rfl⟩
      · split
        · rename_i u _
          split
          · -- The chain of cancellations leaves the others where they are, and `t` waits on.
            rename_i ts₁ hcancel
            have hc : Adds p _ ts₁ := cancel_adds p hcancel
            obtain ⟨x, hx, hm⟩ := hc.keep t _ (hset _)
            have hlive : ¬ (outcomeOf t ts₁).isSome = true := by
              rw [outcomeOf, hx, Option.bind_some, hm.outcome]
              exact Bool.false_ne_true
            refine ⟨((Others.set p t ts _).trans (.of_adds hc t) hc.outcomeOf_isSome).trans (.set p t _ _)
              fun h => absurd h hlive, _, List.getElem?_set_self (List.getElem?_eq_some_iff.1 hx).1, rfl, .inl rfl⟩
          · exact here _ ⟨rfl, .inl rfl⟩
        · rename_i hne
          exact here _ ⟨rfl, .inr ⟨.cancelled, rfl, fun u hu => (hne u hu).elim⟩⟩

theorem settle_others (p : C → Prop) (t : TaskId) (flow : Flow C) (ts : List (Task C)) :
    Others p t ts (settle t flow ts) := by
  cases hg : ts[t]? with
  | none =>
    rw [settle, hg]
    exact .of_adds (.refl p ts) t
  | some task => exact (settle_turned p flow hg).others

theorem unmark_others (p : C → Prop) (t : TaskId) (l : Loop C σ) : Others p t l.tasks (unmark t l).tasks := by
  refine ⟨by simp [unmark], fun i task hi hg => ⟨task, ?_, .refl _ task⟩, fun i task hi hg _ => ?_⟩
  · simp only [unmark, List.getElem?_modify, if_neg (Ne.symm hi)]
    rw [hg]
    rfl
  · rw [List.getElem?_eq_none (by simpa [unmark] using hi)] at hg
    cases hg

theorem unmark_get {t : TaskId} {task : Task C} {l : Loop C σ} (hg : l.tasks[t]? = some task) :
    (unmark t l).tasks[t]? = some { task with mustCancel := false } := by
  simp only [unmark, List.getElem?_modify, if_pos]
  rw [hg]
  rfl

theorem unmark_get_ne {t i : TaskId} (h : i ≠ t) (l : Loop C σ) : (unmark t l).tasks[i]? = l.tasks[i]? := by
  simp only [unmark, List.getElem?_modify, if_neg (Ne.symm h)]
  exact Option.map_id'

theorem unmark_waiting {t i : TaskId} {l : Loop C σ} {task : Task C} {w : Wait}
    (hg : (unmark t l).tasks[i]? = some task)
    (hw : task.status = .waiting w) : ∃ task₀, l.tasks[i]? = some task₀ ∧ task₀.status = .waiting w := by
  simp only [unmark, List.getElem?_modify] at hg
  obtain ⟨x, hx, rfl⟩ := Option.map_eq_some_iff.1 hg
  refine ⟨x, hx, ?_⟩
  rw [← hw]
  split <;> rfl

theorem outcomeOf_unmark (t u : TaskId) (l : Loop C σ) : outcomeOf u (unmark t l).tasks = outcomeOf u l.tasks := by
  simp only [unmark, outcomeOf, List.getElem?_modify]
  cases l.tasks[u]? with
  | none => rfl
  | some task =>
    simp only [Option.map_eq_map, Option.map_some, Option.bind_some]
    split <;> rfl

theorem Task.outcome_of_due (task : Task C) {o : Outcome} (h : task.due = some o) : task.outcome = none := by
  unfold due at h
  split at h
  · rename_i hs
    rw [outcome, hs]
  · cases h

theorem Task.isDone_of_due (task : Task C) {o : Outcome} (h : task.due = some o) : task.isDone = false := by
  rw [isDone, task.outcome_of_due h]
  rfl

/-- A step of task `t` is a turn of its coroutine, which adds tasks in `p` and may cancel some. -/
theorem resume_turned {run : C → Outcome → Loop C σ → Loop C σ × Flow C} {t : TaskId} {l l' : Loop C σ}
    (h : resume run t l = some l') : ∃ task o, l.tasks[t]? = some task ∧ task.due = some o ∧
      l'.state = (run task.coro o (unmark t l)).1.state ∧
      l'.tasks = settle t (run task.coro o (unmark t l)).2 (run task.coro o (unmark t l)).1.tasks ∧
      ∀ p, Adds p (unmark t l).tasks (run task.coro o (unmark t l)).1.tasks →
        Turned p t task.coro (run task.coro o (unmark t l)).2 l.tasks l'.tasks := by
  unfold resume at h
  split at h
  · cases h
  · rename_i task hg
    split at h
    · cases h
    · rename_i o hs
      cases h
      refine ⟨task, o, hg, hs, rfl, rfl, fun p ha => ?_⟩
      obtain ⟨x, hx, hm⟩ := ha.keep t _ (unmark_get hg)
      have ht := settle_turned p (run task.coro o (unmark t l)).2 hx
      have hnone : outcomeOf t (run task.coro o (unmark t l)).1.tasks = none := by
        rw [outcomeOf, hx, Option.bind_some, hm.outcome]
        exact task.outcome_of_due hs
      rw [hm.coro] at ht
      refine ⟨((unmark_others p t l).trans (.of_adds ha t) ha.outcomeOf_isSome).trans ht.others fun hd => ?_, ht.self⟩
      rw [hnone] at hd
      cases hd

theorem complete_adds (p : C → Prop) {t : TaskId} {o : Outcome} {l l' : Loop C σ} (h : complete t o l = some l') :
    Adds p l.tasks l'.tasks ∧ l'.state = l.state := by
  unfold complete at h
  split at h
  · rename_i c m hg
    cases h
    exact ⟨.set { coro := c, status := .ready o, mustCancel := m } hg
      ⟨rfl, id, .inr ⟨.external, o, rfl, rfl, by rintro u ⟨⟩⟩⟩ p, rfl⟩
  · cases h

/-! ## Live tasks -/

/-- Task `i` has not ended, and its coroutine is in `p`. -/
def Live (p : C → Prop) (ts : List (Task C)) (i : TaskId) : Prop :=
  ∃ task, ts[i]? = some task ∧ task.isDone = false ∧ p task.coro

theorem Live.outcomeOf {p : C → Prop} {ts : List (Task C)} {i : TaskId} (h : Live p ts i) : outcomeOf i ts = none := by
  obtain ⟨task, hg, hd, -⟩ := h
  rw [Asyncio.outcomeOf, hg]
  exact Option.not_isSome_iff_eq_none.1 (Bool.eq_false_iff.1 hd)

theorem Live.mem_range {p : C → Prop} {ts : List (Task C)} {i : TaskId} (h : Live p ts i) :
    i ∈ List.range ts.length := by
  obtain ⟨task, hg, -⟩ := h
  exact List.mem_range.2 (List.getElem?_eq_some_iff.1 hg).1

theorem Adds.live_mono {p q : C → Prop} {i : TaskId} {ts ts' : List (Task C)} (h : Adds p ts ts') (hl : Live q ts i) :
    Live q ts' i := by
  obtain ⟨task, hg, hd, hq⟩ := hl
  obtain ⟨task', hg', hm⟩ := h.keep i task hg
  exact ⟨task', hg', hm.isDone.trans hd, hm.coro ▸ hq⟩

namespace Others
variable {p : C → Prop} {t i : TaskId} {ts ts' : List (Task C)}

/-- A task that is live after a turn of another was so before, or is new. -/
theorem live {q : C → Prop} (h : Others p t ts ts') (hi : i ≠ t) (hl : Live q ts' i) :
    Live q ts i ∨ Live (fun c => q c ∧ p c) ts' i ∧ ts.length ≤ i := by
  obtain ⟨task', hg', hd, hq⟩ := hl
  by_cases hlt : i < ts.length
  · obtain ⟨task, hg⟩ : ∃ task, ts[i]? = some task := ⟨_, List.getElem?_eq_getElem hlt⟩
    obtain ⟨x, hx, hm⟩ := h.keep i task hi hg
    rw [hg', Option.some.injEq] at hx
    subst hx
    exact .inl ⟨task, hg, hm.isDone ▸ hd, hm.coro ▸ hq⟩
  · have hlen := Nat.le_of_not_lt hlt
    exact .inr ⟨⟨task', hg', hd, hq, (h.fresh i task' hlen hg' hi).1⟩, hlen⟩

theorem live_mono {q : C → Prop} (h : Others p t ts ts') (hi : i ≠ t) (hl : Live q ts i) : Live q ts' i := by
  obtain ⟨task, hg, hd, hq⟩ := hl
  obtain ⟨task', hg', hm⟩ := h.keep i task hi hg
  exact ⟨task', hg', hm.isDone.trans hd, hm.coro ▸ hq⟩

end Others

/-- A task that is live after tasks were added was so before, or is one of them. -/
theorem Adds.live {p q : C → Prop} {i : TaskId} {ts ts' : List (Task C)} (h : Adds p ts ts') (hl : Live q ts' i) :
    Live q ts i ∨ Live (fun c => q c ∧ p c) ts' i ∧ ts.length ≤ i :=
  (Others.of_adds h (i + 1)).live (Nat.ne_of_lt (Nat.lt_succ_self i)) hl

/-- The other tasks are as live at the end of a turn of `t` as they were before it ended. -/
theorem settle_live {q : C → Prop} {t i : TaskId} {flow : Flow C} {ts : List (Task C)} (hi : i ≠ t)
    (hl : Live q ts i) : Live q (settle t flow ts) i :=
  (settle_others (fun _ => True) t flow ts).live_mono hi hl

theorem settle_live_of {q : C → Prop} {t i : TaskId} {flow : Flow C} {ts : List (Task C)} (hi : i ≠ t)
    (hl : Live q (settle t flow ts) i) : Live q ts i := by
  rcases (settle_others (fun _ => False) t flow ts).live hi hl with hl | ⟨⟨x, -, -, -, hf⟩, -⟩
  · exact hl
  · exact hf.elim

theorem unmark_live {q : C → Prop} {t i : TaskId} {l : Loop C σ} : Live q (unmark t l).tasks i ↔ Live q l.tasks i := by
  simp only [Live, unmark, List.getElem?_modify]
  constructor
  · rintro ⟨x, hx, hd, hq⟩
    obtain ⟨y, hy, rfl⟩ := Option.map_eq_some_iff.1 hx
    refine ⟨y, hy, ?_, ?_⟩
    · revert hd; split <;> exact id
    · revert hq; split <;> exact id
  · rintro ⟨y, hy, hd, hq⟩
    refine ⟨_, by rw [hy]; rfl, ?_, ?_⟩
    · split <;> exact hd
    · split <;> exact hq

/-- What is live of `t` after its turn is what it awaits at. -/
theorem Turned.live_self {p q : C → Prop} {t : TaskId} {c₀ : C} {flow : Flow C} {ts ts' : List (Task C)}
    (h : Turned p t c₀ flow ts ts') : Live q ts' t ↔ ∃ c w, flow = .await c w ∧ q c := by
  obtain ⟨task, hg, hl⟩ := h.self
  constructor
  · rintro ⟨task', hg', hd, hq⟩
    rw [hg, Option.some.injEq] at hg'
    subst hg'
    cases flow with
    | done o =>
      obtain ⟨-, o', hs, -⟩ := hl
      rw [Task.isDone, Task.outcome, hs] at hd
      cases hd
    | await c w => exact ⟨c, w, rfl, hl.1 ▸ hq⟩
  · rintro ⟨c, w, rfl, hq⟩
    refine ⟨task, hg, ?_, hl.1 ▸ hq⟩
    rcases hl.2 with hs | ⟨o, hs, -⟩ <;> rw [Task.isDone, Task.outcome, hs] <;> rfl

end Lib.Asyncio

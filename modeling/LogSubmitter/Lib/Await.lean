import LogSubmitter.Lib.Asyncio
/-!
# Who waits for whom

What a turn leaves of the other tasks when it cancels none of them: a task that
waited for the one whose turn it was gets how that ended, and nothing else
moves. A task is under way when the tasks it waits for, and those they wait
for, come down to some that can take a turn.
-/
namespace Lib.Asyncio

variable {C σ : Type}

/-- A task that has just been created. -/
def Task.fresh (c : C) : Task C := { coro := c, status := .ready .ok, mustCancel := false }

theorem Task.ready_of_due {x : Task C} {o : Outcome} (h : x.due = some o) : ∃ o', x.status = .ready o' := by
  unfold Task.due at h
  split at h
  · exact ⟨_, by assumption⟩
  · cases h

/-- A task whose turn it is waits for nothing. -/
theorem Task.not_waiting_of_due {x : Task C} {o : Outcome} (h : x.due = some o) (w : Wait) : x.status ≠ .waiting w := by
  intro hw
  obtain ⟨o', hr⟩ := Task.ready_of_due h
  rw [hr] at hw
  cases hw

/-- A task that nobody cancels gets how its await ended. -/
theorem Task.eq_of_due {x : Task C} {o o' : Outcome} (h : x.due = some o) (hr : x.status = .ready o')
    (hm : x.mustCancel = false) : o = o' := by
  rw [Task.due, hr, hm] at h
  exact (Option.some.inj h).symm

theorem createTask_tasks (c : C) (l : Loop C σ) : (createTask c l).tasks = l.tasks ++ [.fresh c] := rfl

/-! ## The end of a turn -/

/-- What has become of `x` after a turn of `t`, with the tasks `ts` at the end. -/
inductive Woken (t : TaskId) (ts : List (Task C)) (x : Task C) : Task C → Prop
  | same (ht : x.status = .waiting (.task t) → outcomeOf t ts = none)
      (ha : ∀ us, x.status = .waiting (.all us) →
        outcomeOf t ts = none ∨ ∃ u ∈ us, ∃ y, ts[u]? = some y ∧ y.isDone = false) : Woken t ts x x
  | task (o : Outcome) (hx : x.status = .waiting (.task t)) (ho : outcomeOf t ts = some o) :
      Woken t ts x { x with status := .ready o }
  | all (us : List TaskId) (hx : x.status = .waiting (.all us)) : Woken t ts x { x with status := .ready .ok }

namespace Woken
variable {t : TaskId} {ts : List (Task C)} {x x' : Task C}

theorem coro (h : Woken t ts x x') : x'.coro = x.coro := by cases h <;> rfl

theorem mark (h : Woken t ts x x') : x'.mustCancel = x.mustCancel := by cases h <;> rfl

theorem outcome (h : Woken t ts x x') : x'.outcome = x.outcome := by
  cases h with
  | same => rfl
  | task o hx => rw [Task.outcome, Task.outcome, hx]
  | all us hx => rw [Task.outcome, Task.outcome, hx]

theorem isDone (h : Woken t ts x x') : x'.isDone = x.isDone := by
  rw [Task.isDone, h.outcome, Task.isDone]

/-- A task that did not wait for tasks is as it was. -/
theorem eq_of_ready (h : Woken t ts x x') {o : Outcome} (hx : x.status = .ready o) : x' = x := by
  cases h with
  | same => rfl
  | task _ hw => rw [hx] at hw; cases hw
  | all _ hw => rw [hx] at hw; cases hw

theorem eq_of_due (h : Woken t ts x x') {o : Outcome} (hx : x.due = some o) : x' = x := by
  obtain ⟨o', hr⟩ := Task.ready_of_due hx
  exact h.eq_of_ready hr

/-- A task that waited for another has its end when that has ended, and is as it was otherwise. -/
theorem of_task (h : Woken t ts x x') {q : TaskId} (hx : x.status = .waiting (.task q)) :
    x' = x ∧ (q = t → outcomeOf t ts = none) ∨
      q = t ∧ ∃ o, outcomeOf t ts = some o ∧ x' = { x with status := .ready o } := by
  cases h with
  | same ht => exact .inl ⟨rfl, fun hq => ht (hq ▸ hx)⟩
  | task o hw ho =>
    rw [hx] at hw
    cases hw
    exact .inr ⟨rfl, o, ho, rfl⟩
  | all _ hw =>
    rw [hx] at hw
    cases hw

end Woken

theorem settle_done_self {t : TaskId} {ts : List (Task C)} {x : Task C} (hg : ts[t]? = some x)
    (hm : x.mustCancel = false) (o : Outcome) :
    (settle t (.done o) ts)[t]? = some { x with status := .done o, mustCancel := false } := by
  have hset : (ts.set t { x with status := .done o, mustCancel := false })[t]? =
      some { x with status := .done o, mustCancel := false } :=
    List.getElem?_set_self (List.getElem?_eq_some_iff.1 hg).1
  simp only [settle, hg, hm, Bool.false_eq_true, false_and, if_false, wake, List.getElem?_map, hset, Option.map_some]
  rfl

theorem settle_await_self {t : TaskId} {ts : List (Task C)} {x : Task C} (hg : ts[t]? = some x)
    (hm : x.mustCancel = false) (c : C) {w : Wait} (hw : w ≠ .task t) :
    (settle t (.await c w) ts)[t]? = some { coro := c, status := .waiting w, mustCancel := false } := by
  simp only [settle, hg, if_neg hw, hm, Bool.not_false, if_true]
  exact List.getElem?_set_self (List.getElem?_eq_some_iff.1 hg).1

/-- A task that awaits itself gets an exception. -/
theorem settle_await_own {t : TaskId} {ts : List (Task C)} {x : Task C} (hg : ts[t]? = some x) (c : C) :
    (settle t (.await c (.task t)) ts)[t]? =
      some { coro := c, status := .ready .error, mustCancel := x.mustCancel } := by
  simp only [settle, hg, if_true]
  exact List.getElem?_set_self (List.getElem?_eq_some_iff.1 hg).1

theorem settle_await_ne {t : TaskId} {ts : List (Task C)} {x : Task C} (hg : ts[t]? = some x) {w : Wait}
    (hm : x.mustCancel = false ∨ w = .task t) (c : C) {i : TaskId} (hi : i ≠ t) :
    (settle t (.await c w) ts)[i]? = ts[i]? := by
  unfold settle
  simp only [hg]
  split
  · exact List.getElem?_set_ne (Ne.symm hi)
  · rename_i hw
    rw [hm.resolve_right hw, Bool.not_false, if_pos rfl]
    exact List.getElem?_set_ne (Ne.symm hi)

theorem settle_await_length {t : TaskId} {ts : List (Task C)} {x : Task C} (hg : ts[t]? = some x) {w : Wait}
    (hm : x.mustCancel = false ∨ w = .task t) (c : C) : (settle t (.await c w) ts).length = ts.length := by
  unfold settle
  simp only [hg]
  split
  · exact List.length_set
  · rename_i hw
    rw [hm.resolve_right hw, Bool.not_false, if_pos rfl]
    exact List.length_set

/-- A task that awaits has not ended. -/
theorem outcomeOf_await {t : TaskId} {ts : List (Task C)} {x : Task C} (hg : ts[t]? = some x) {w : Wait}
    (hm : x.mustCancel = false ∨ w = .task t) (c : C) : outcomeOf t (settle t (.await c w) ts) = none := by
  by_cases hw : w = .task t
  · subst hw
    rw [outcomeOf, settle_await_own hg]
    rfl
  · rw [outcomeOf, settle_await_self hg (hm.resolve_right hw) c hw]
    rfl

/-- The end of `t` wakes those that waited for it, or for it as the last of several. -/
theorem wakeTask_woken {t : TaskId} {o : Outcome} {ts : List (Task C)} (hdone : outcomeOf t (wake t o ts) = some o)
    (y : Task C) : Woken t (wake t o ts) y (wakeTask t o ts y) := by
  have same : (∀ us, y.status = .waiting (.all us) →
      ∃ u ∈ us, ∃ z, (wake t o ts)[u]? = some z ∧ z.isDone = false) → y.status ≠ .waiting (.task t) →
      Woken t (wake t o ts) y y := fun ha ht => .same (fun h => absurd h ht) fun us h => .inr (ha us h)
  unfold wakeTask
  split
  · rename_i u hs
    split
    · rename_i hu
      subst hu
      exact .task o hs hdone
    · rename_i hu
      refine same (fun us h => ?_) fun h => ?_
      · rw [hs] at h
        cases h
      · rw [hs] at h
        cases h
        exact hu rfl
  · rename_i us hs
    split
    · exact .all us hs
    · -- Some task of those it waits for has not ended.
      rename_i hall
      refine same (fun us' h => ?_) fun h => by rw [hs] at h; cases h
      rw [hs] at h
      cases h
      simp only [List.all_eq_true, not_forall] at hall
      obtain ⟨u, hu, hnot⟩ := hall
      cases hz : ts[u]? with
      | none => rw [hz] at hnot; exact absurd rfl hnot
      | some z =>
        rw [hz, Option.all_some, Bool.not_eq_true] at hnot
        have hm : Meanwhile (wake t o ts) z (wakeTask t o ts z) := wakeTask_meanwhile (by rw [hdone]; rfl) z
        exact ⟨u, hu, _, by rw [wake, List.getElem?_map, hz]; rfl, hm.isDone.trans hnot⟩
  · rename_i h₁ h₂
    exact same (fun us h => absurd h (h₂ us)) (h₁ t)

/-- The other tasks after a turn of `t` that leaves it uncancelled, or waiting for itself. -/
theorem settle_woken {t : TaskId} {ts : List (Task C)} {x : Task C} (hg : ts[t]? = some x) {flow : Flow C}
    (hm : x.mustCancel = false ∨ ∃ c, flow = .await c (.task t)) :
    (settle t flow ts).length = ts.length ∧ ∃ f : Task C → Task C,
      (∀ i, i ≠ t → (settle t flow ts)[i]? = (ts[i]?).map f) ∧ ∀ y, Woken t (settle t flow ts) y (f y) := by
  cases flow with
  | await c w =>
    have hm' : x.mustCancel = false ∨ w = .task t := hm.imp id (by rintro ⟨_, ⟨⟩⟩; rfl)
    have hlive := outcomeOf_await hg hm' c
    refine ⟨settle_await_length hg hm' c, id, fun i hi => ?_, fun y => .same (fun _ => hlive) fun _ _ => .inl hlive⟩
    rw [settle_await_ne hg hm' c hi, Option.map_id, id]
  | done o =>
    have hunmarked : x.mustCancel = false := hm.resolve_right (by rintro ⟨_, ⟨⟩⟩)
    have hself := settle_done_self hg hunmarked o
    have hdone : outcomeOf t (settle t (.done o) ts) = some o := by
      rw [outcomeOf, hself]
      rfl
    generalize hset : ts.set t { x with status := .done o, mustCancel := false } = ts₁
    have hsettle : settle t (.done o) ts = wake t o ts₁ := by
      simp only [settle, hg, hunmarked, Bool.false_eq_true, false_and, if_false, hset]
    rw [hsettle] at hdone ⊢
    refine ⟨?_, wakeTask t o ts₁, fun i hi => ?_, wakeTask_woken hdone⟩
    · rw [wake, List.length_map, ← hset, List.length_set]
    · rw [wake, List.getElem?_map, ← hset, List.getElem?_set_ne (Ne.symm hi)]

/-- A turn of `t` that adds tasks for the coroutines `cs`, and touches no other. -/
structure Grown (t : TaskId) (cs : List C) (ts ts' : List (Task C)) : Prop where
  length : ts'.length = ts.length + cs.length
  others : ∀ i y, i ≠ t → ts[i]? = some y → ∃ y', ts'[i]? = some y' ∧ Woken t ts' y y'
  fresh : ∀ k c, cs[k]? = some c → ts'[ts.length + k]? = some (.fresh c)

theorem settle_grown {t : TaskId} {ts ts₁ : List (Task C)} (hlen : ts₁.length = ts.length)
    (hkeep : ∀ i, i ≠ t → ts₁[i]? = ts[i]?) {x : Task C} (hg : ts₁[t]? = some x) {flow : Flow C}
    (hm : x.mustCancel = false ∨ ∃ c, flow = .await c (.task t)) (cs : List C) :
    Grown t cs ts (settle t flow (ts₁ ++ cs.map .fresh)) := by
  have hlt : t < ts₁.length := (List.getElem?_eq_some_iff.1 hg).1
  have hself : (ts₁ ++ cs.map .fresh)[t]? = some x := by rw [List.getElem?_append_left hlt, hg]
  obtain ⟨hlength, f, hf, hwoken⟩ := settle_woken hself hm
  refine ⟨?_, fun i y hi hy => ?_, fun k c hk => ?_⟩
  · rw [hlength, List.length_append, List.length_map, hlen]
  · have hlti := (List.getElem?_eq_some_iff.1 hy).1
    refine ⟨f y, ?_, hwoken y⟩
    rw [hf i hi, List.getElem?_append_left (hlen ▸ hlti), hkeep i hi, hy]
    rfl
  · have hne : ts.length + k ≠ t := Nat.ne_of_gt (Nat.lt_of_lt_of_le (hlen ▸ hlt) (Nat.le_add_right _ _))
    rw [hf _ hne, ← hlen, List.getElem?_append_right (Nat.le_add_right _ _), Nat.add_sub_cancel_left,
      List.getElem?_map, hk]
    exact congrArg some ((hwoken (.fresh c)).eq_of_ready rfl)

namespace Grown
variable {t : TaskId} {cs : List C} {ts ts' : List (Task C)}

/-- What is new are the tasks of `cs`. -/
theorem only (h : Grown t cs ts ts') {i : TaskId} {y : Task C} (hi : ts.length ≤ i) (hy : ts'[i]? = some y) :
    ∃ k c, cs[k]? = some c ∧ i = ts.length + k ∧ y = .fresh c := by
  have hlt := (List.getElem?_eq_some_iff.1 hy).1
  rw [h.length] at hlt
  obtain ⟨k, rfl⟩ := Nat.exists_eq_add_of_le hi
  have hk : k < cs.length := Nat.lt_of_add_lt_add_left hlt
  rw [h.fresh k _ (List.getElem?_eq_getElem hk), Option.some.injEq] at hy
  exact ⟨k, _, List.getElem?_eq_getElem hk, rfl, hy.symm⟩

theorem live (h : Grown t cs ts ts') {p : C → Prop} {i : TaskId} (hi : i ≠ t) (hl : Live p ts i) : Live p ts' i := by
  obtain ⟨x, hx, hd, hp⟩ := hl
  obtain ⟨x', hx', hw⟩ := h.others i x hi hx
  exact ⟨x', hx', hw.isDone.trans hd, hw.coro ▸ hp⟩

/-- A task that is live now was so before, if the new ones are not. -/
theorem live_of (h : Grown t cs ts ts') {p : C → Prop} (hc : ∀ c ∈ cs, ¬ p c) {i : TaskId} (hi : i ≠ t)
    (hl : Live p ts' i) : Live p ts i := by
  obtain ⟨x', hx', hd, hp⟩ := hl
  by_cases hlt : i < ts.length
  · obtain ⟨x, hx⟩ : ∃ x, ts[i]? = some x := ⟨_, List.getElem?_eq_getElem hlt⟩
    obtain ⟨y, hy, hw⟩ := h.others i x hi hx
    rw [hx', Option.some.injEq] at hy
    subst hy
    exact ⟨x, hx, hw.isDone ▸ hd, hw.coro ▸ hp⟩
  · obtain ⟨k, c, hk, -, rfl⟩ := h.only (Nat.le_of_not_lt hlt) hx'
    exact absurd hp (hc c (List.mem_of_getElem? hk))

end Grown

/-! ## A cancelled task -/

theorem unmark_set_ne {t p : TaskId} (h : p ≠ t) (l : Loop C σ) (x : Task C) :
    (unmark t l).tasks.set p x = (unmark t { l with tasks := l.tasks.set p x }).tasks := by
  refine List.ext_getElem? fun i => ?_
  simp only [unmark, List.getElem?_set, List.getElem?_modify, List.length_modify]
  by_cases hp : p = i
  · subst hp
    simp only [if_true, if_neg (Ne.symm h), Option.map_eq_map, Option.map_id']
  · simp only [if_neg hp]

/-- A task that can take a turn, or waits for the world outside, gets the cancellation itself. -/
theorem cancel_self {depth : Nat} {t : TaskId} {ts : List (Task C)} {x : Task C} (hg : ts[t]? = some x)
    (hs : (∃ o, x.status = .ready o) ∨ x.status = .waiting .external) :
    ∃ x', cancel (depth + 1) t ts = some (ts.set t x', true) ∧ x'.coro = x.coro ∧ x'.due = some .cancelled ∧
      ((∃ o, x.status = .ready o) → x' = { x with mustCancel := true }) := by
  rcases hs with ⟨o, hs⟩ | hs
  · exact ⟨{ x with mustCancel := true }, by simp only [cancel, hg, hs], rfl, Task.due_cancelled hs (.inl rfl),
      fun _ => rfl⟩
  · refine ⟨{ x with status := .ready .cancelled }, by simp only [cancel, hg, hs], rfl,
      Task.due_cancelled rfl (.inr rfl), ?_⟩
    rintro ⟨o, h⟩
    rw [hs] at h
    cases h

/-! ## Nobody waits for ever -/

/-- Task `t` can go on: it can take a turn, or waits for the world outside, or for tasks that can. -/
inductive UnderWay (ts : List (Task C)) : TaskId → Prop
  | ready {t x o} (hg : ts[t]? = some x) (hs : x.status = .ready o) : UnderWay ts t
  | external {t x} (hg : ts[t]? = some x) (hs : x.status = .waiting .external) : UnderWay ts t
  | task {t x u} (hg : ts[t]? = some x) (hs : x.status = .waiting (.task u)) (hu : UnderWay ts u) : UnderWay ts t
  | all {t x us} (hg : ts[t]? = some x) (hs : x.status = .waiting (.all us)) (hne : ∃ u ∈ us, outcomeOf u ts = none)
      (hu : ∀ u ∈ us, outcomeOf u ts = none → UnderWay ts u) : UnderWay ts t

end Lib.Asyncio

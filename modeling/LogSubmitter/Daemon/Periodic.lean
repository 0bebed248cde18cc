import LogSubmitter.Daemon.Outside
/-!
# Periodic tasks

`_periodic_task` is written by five methods, some of them across an `await`. A
periodic task that is not the stored one is on its way out: it is past the guard
of `_trigger` itself, or whoever replaces or cancels it waits for its end.
-/
namespace LogSubmitter.Daemon

open Lib Lib.Asyncio

/-! ## Where a periodic task may be -/

/-- Task `i` is a periodic task that has not ended. -/
abbrev Pending (d : Daemon) (i : TaskId) : Prop := Live (fun c : Coro => c.periodic = true) d.tasks i

/-- In `_cancel_periodic`. -/
def Pc.cancels : Pc → Bool
  | .toggleCancel _ | .suspendCancel _ | .suspendSchedule _ | .shutdownCancel _ => true
  | _ => false

/-- In `_trigger`, past its guard, or in `_cancel_periodic`. -/
def Pc.busy (pc : Pc) : Bool := pc.inside || pc.cancels

/-- Where a periodic task may be. -/
def Pc.ofPeriodic : Pc → Bool
  | .periodic | .sleeping | .updating | .awaitingStored | .awaitingAsync | .collecting | .submitting | .replacing _ =>
    true
  | _ => false

/-- Whoever replaces or cancels task `i` waits for it. -/
def Covered (d : Daemon) (i : TaskId) : Prop :=
  ∃ x ∈ d.tasks, x.status = .waiting (.task i) ∧ x.coro.pc.busy = true

/-- Task `i` is about to end. -/
def Leaving (d : Daemon) (i : TaskId) : Prop := Inside d i ∨ Covered d i

/-- A task other than `t` is at a place in `p`. -/
def Elsewhere (p : Pc → Bool) (t : TaskId) (d : Daemon) : Prop := ∃ i, i ≠ t ∧ LiveAt p d i

/-- Without task `t`, the stored periodic task is pending, or a run is in progress, which will store
one, or `_cancel_periodic` is. -/
inductive KeptWithout (t : TaskId) (d : Daemon) : Prop
  | stored (p : TaskId) (ht : p ≠ t) (hs : d.state.periodicTask = some p) (hp : Pending d p)
  | running (h : Elsewhere Pc.running t d)
  | cancels (h : Elsewhere Pc.cancels t d)

theorem Pc.busy_of_inside {pc : Pc} (h : pc.inside = true) : pc.busy = true := by rw [busy, h, Bool.true_or]

theorem Pc.busy_of_cancels {pc : Pc} (h : pc.cancels = true) : pc.busy = true := by rw [busy, h, Bool.or_true]

theorem Pc.ofPeriodic_of_inside {pc : Pc} (h : pc.inside = true) : pc.ofPeriodic = true := by
  cases pc <;> first | rfl | cases h

/-- No periodic task is about to end when nothing is in progress. -/
theorem not_leaving {d : Daemon} (h : ∀ i, ¬ LiveAt Pc.busy d i) (i : TaskId) : ¬ Leaving d i := by
  rintro (hin | ⟨x, hx, hs, hb⟩)
  · exact h i (hin.imp fun _ => Pc.busy_of_inside)
  · obtain ⟨k, hk⟩ := List.getElem?_of_mem hx
    exact h k ⟨x, hk, by rw [Task.isDone, Task.outcome, hs]; rfl, hb⟩

/-! ## Tasks are added -/

section Adds
variable {p : Coro → Prop} {d d' : Daemon}

theorem Covered.adds (ha : Adds p d.tasks d'.tasks) {i : TaskId} (hi : outcomeOf i d'.tasks = none)
    (h : Covered d i) : Covered d' i := by
  obtain ⟨x, hx, hs, hb⟩ := h
  obtain ⟨k, hk⟩ := List.getElem?_of_mem hx
  obtain ⟨x', hk', hm⟩ := ha.keep k x hk
  exact ⟨x', List.mem_of_getElem? hk', hm.waiting hs hi, hm.coro ▸ hb⟩

theorem Leaving.adds (ha : Adds p d.tasks d'.tasks) {i : TaskId} (hi : outcomeOf i d'.tasks = none)
    (h : Leaving d i) : Leaving d' i :=
  h.imp (ha.live_mono ·) (Covered.adds ha hi)

theorem Elsewhere.adds {q : Pc → Bool} {t : TaskId} (ha : Adds p d.tasks d'.tasks) (h : Elsewhere q t d) :
    Elsewhere q t d' := by
  obtain ⟨i, hi, hl⟩ := h
  exact ⟨i, hi, ha.live_mono hl⟩

theorem KeptWithout.adds {t : TaskId} (ha : Adds p d.tasks d'.tasks)
    (hs : d'.state.periodicTask = d.state.periodicTask) (h : KeptWithout t d) : KeptWithout t d' := by
  cases h with
  | stored p ht hp hl => exact .stored p ht (hs.trans hp) (ha.live_mono hl)
  | running h => exact .running (h.adds ha)
  | cancels h => exact .cancels (h.adds ha)

/-- The tasks that are added are none of `_trigger_periodic`. -/
theorem Pending.of_adds (ha : Adds (fun c : Coro => c.periodic = false) d.tasks d'.tasks) {i : TaskId}
    (h : Pending d' i) : Pending d i := by
  rcases ha.live h with h | ⟨⟨x, -, -, hp, hn⟩, -⟩
  · exact h
  · rw [hp] at hn
    cases hn

end Adds

/-! ## A task whose turn it is -/

/-- It is the turn of task `t`, of coroutine `c`. -/
def HasTurn (t : TaskId) (c : Coro) (d : Daemon) : Prop :=
  ∃ x o, d.tasks[t]? = some x ∧ x.coro = c ∧ x.status = .ready o

/-- What is stored, and is in `_trigger_periodic`, is a periodic task. -/
structure Placing (d : Daemon) : Prop where
  coros : ∀ (i : TaskId) x, d.tasks[i]? = some x → x.coro.periodic = true → x.coro.pc.ofPeriodic = true
  stored : ∀ p, d.state.periodicTask = some p → ∃ x, d.tasks[p]? = some x ∧ x.coro.periodic = true

/-- It is the turn of task `t`, and the other periodic tasks that are pending, but for those in `e`,
are stored or about to end; in a daemon that is off, about to end. -/
structure Beside (t : TaskId) (c : Coro) (e : TaskId → Prop) (d : Daemon) : Prop extends Placing d where
  self : HasTurn t c d
  one : ∀ i, i ≠ t → Pending d i → d.state.periodicTask = some i ∨ Leaving d i ∨ e i
  off : d.state.on = false → ∀ i, i ≠ t → Pending d i → Leaving d i ∨ e i

/-- No exception. -/
abbrev nobody : TaskId → Prop := fun _ => False

/-- The settings, `_serving` and `_periodic_task` are as they were. -/
structure SameSchedule (s s' : State) : Prop where
  on : s'.on = s.on
  serving : s'.serving = s.serving
  periodic : s'.periodicTask = s.periodicTask

theorem HasTurn.lt {t : TaskId} {c : Coro} {d : Daemon} (h : HasTurn t c d) : t < d.tasks.length := by
  obtain ⟨x, -, hg, -⟩ := h
  exact (List.getElem?_eq_some_iff.1 hg).1

theorem HasTurn.outcomeOf {t : TaskId} {c : Coro} {d : Daemon} (h : HasTurn t c d) : outcomeOf t d.tasks = none := by
  obtain ⟨x, o, hg, -, hs⟩ := h
  rw [Asyncio.outcomeOf, hg, Option.bind_some, Task.outcome, hs]

theorem HasTurn.adds {p : Coro → Prop} {t : TaskId} {c : Coro} {d d' : Daemon} (ha : Adds p d.tasks d'.tasks)
    (h : HasTurn t c d) : HasTurn t c d' := by
  obtain ⟨x, o, hg, hc, hs⟩ := h
  obtain ⟨x', hg', hm⟩ := ha.keep t x hg
  exact ⟨x', o, hg', hm.coro.trans hc, hm.ready hs⟩

theorem Placing.adds {d d' : Daemon} (h : Placing d) (ha : Adds (fun c : Coro => c.periodic = false) d.tasks d'.tasks)
    (hs : d'.state.periodicTask = d.state.periodicTask) : Placing d' := by
  refine ⟨fun i x' hg hp => ?_, fun p hp => ?_⟩
  · by_cases hlt : i < d.tasks.length
    · obtain ⟨x, hx⟩ : ∃ x, d.tasks[i]? = some x := ⟨_, List.getElem?_eq_getElem hlt⟩
      obtain ⟨y, hy, hm⟩ := ha.keep i x hx
      rw [hg, Option.some.injEq] at hy
      subst hy
      rw [hm.coro] at hp ⊢
      exact h.coros i x hx hp
    · rw [(ha.fresh i x' (Nat.le_of_not_lt hlt) hg).1] at hp
      cases hp
  · obtain ⟨x, hx, hper⟩ := h.stored p (hs ▸ hp)
    obtain ⟨x', hx', hm⟩ := ha.keep p x hx
    exact ⟨x', hx', hm.coro ▸ hper⟩

namespace Beside
variable {t : TaskId} {c : Coro} {e e' : TaskId → Prop} {d d' : Daemon}

/-- Tasks that are added, cancelled or woken, but no periodic one, change nothing. -/
theorem adds (h : Beside t c e d) (ha : Adds (fun c : Coro => c.periodic = false) d.tasks d'.tasks)
    (hs : SameSchedule d.state d'.state) : Beside t c e d' := by
  have leaving : ∀ {i}, Pending d' i → Leaving d i ∨ e i → Leaving d' i ∨ e i :=
    fun hp => Or.imp_left (Leaving.adds ha hp.outcomeOf)
  refine { h.toPlacing.adds ha hs.periodic with self := h.self.adds ha, one := fun i hi hp => ?_
                                                off := fun hoff i hi hp => ?_ }
  · exact (h.one i hi (hp.of_adds ha)).imp (hs.periodic.trans ·) (leaving hp)
  · exact leaving hp (h.off (hs.on ▸ hoff) i hi (hp.of_adds ha))

theorem modified {f : State → State} (h : Beside t c e d) (hs : SameSchedule d.state (f d.state)) :
    Beside t c e (modify f d) := by
  have ha : Adds (fun c : Coro => c.periodic = false) d.tasks (modify f d).tasks := .refl _ _
  exact h.adds ha hs

theorem shrink (h : Beside t c e d) (he : ∀ i, i ≠ t → Pending d i → e i → Leaving d i ∨ e' i) :
    Beside t c e' d := by
  have more : ∀ {i}, i ≠ t → Pending d i → Leaving d i ∨ e i → Leaving d i ∨ e' i :=
    fun hi hp => Or.rec .inl (he _ hi hp)
  exact { h.toPlacing with
    self := h.self, one := fun i hi hp => (h.one i hi hp).imp_right (more hi hp)
    off := fun hoff i hi hp => more hi hp (h.off hoff i hi hp) }

/-- What is not the schedule's changes, or the settings do. -/
theorem set (h : Beside t c e d) {f : State → State} (hs : (f d.state).periodicTask = d.state.periodicTask)
    (hoff : (f d.state).on = false → ∀ i, i ≠ t → Pending d i → Leaving d i ∨ e' i)
    (he : ∀ i, e i → e' i) : Beside t c e' (Daemon.modify f d) := by
  refine { coros := h.coros, stored := fun p hp => h.stored p (hs.symm.trans hp), self := h.self
           one := fun i hi hp => ?_, off := hoff }
  exact (h.one i hi hp).imp (hs.trans ·) (Or.imp_right (he i))

/-- The stored periodic task is forgotten. -/
theorem forget (h : Beside t c nobody d)
    (hl : ∀ i, i ≠ t → Pending d i → d.state.periodicTask = some i → Leaving d i) :
    Beside t c nobody (Daemon.modify (fun s => { s with periodicTask := none }) d) := by
  refine { coros := h.coros, stored := nofun, self := h.self, one := fun i hi hp => ?_, off := h.off }
  rcases h.one i hi hp with hs | hl'
  · exact .inr (.inl (hl i hi hp hs))
  · exact .inr hl'

end Beside

/-- A new periodic task is stored in place of the one that was. -/
theorem createPeriodic_adds (d : Daemon) : Adds (fun _ => True) d.tasks (createPeriodic d).tasks :=
  createTask_adds (fun _ => True) trivial d

theorem createPeriodic_get (d : Daemon) : (createPeriodic d).tasks[d.tasks.length]? = some (.fresh newPeriodic) :=
  List.getElem?_concat_length

theorem pending_createPeriodic (d : Daemon) : Pending (createPeriodic d) d.tasks.length :=
  ⟨_, createPeriodic_get d, rfl, rfl⟩

theorem Beside.creates {t : TaskId} {c : Coro} {e : TaskId → Prop} {d : Daemon} (h : Beside t c nobody d)
    (hon : d.state.on = true)
    (he : ∀ i, i ≠ t → Pending d i → d.state.periodicTask = some i → Leaving d i ∨ e i) :
    Beside t c e (createPeriodic d) := by
  have ha := createPeriodic_adds d
  have old : ∀ {i x}, (createPeriodic d).tasks[i]? = some x → i ≠ d.tasks.length → d.tasks[i]? = some x := by
    intro i x hg hi
    have hlt : i < (d.tasks ++ [Task.fresh newPeriodic]).length := (List.getElem?_eq_some_iff.1 hg).1
    rw [List.length_append, List.length_singleton] at hlt
    rwa [show (createPeriodic d).tasks = d.tasks ++ [.fresh newPeriodic] from rfl,
      List.getElem?_append_left (Nat.lt_of_le_of_ne (Nat.le_of_lt_succ hlt) hi)] at hg
  refine { coros := fun i x hg hp => ?_, stored := fun p hp => ?_, self := h.self.adds ha, one := fun i hi hp => ?_
           off := fun hoff => ?_ }
  · by_cases hi : i = d.tasks.length
    · rw [hi, createPeriodic_get] at hg
      cases hg
      rfl
    · exact h.coros i x (old hg hi) hp
  · cases hp
    exact ⟨_, createPeriodic_get d, rfl⟩
  · by_cases hne : i = d.tasks.length
    · exact .inl (by rw [hne]; rfl)
    · obtain ⟨x, hg, hd, hper⟩ := hp
      have hp₀ : Pending d i := ⟨x, old hg hne, hd, hper⟩
      have leaving := Leaving.adds ha (ha.live_mono hp₀).outcomeOf
      rcases h.one i hi hp₀ with hs | hl | hf
      · exact .inr ((he i hi hp₀ hs).imp_left leaving)
      · exact .inr (.inl (leaving hl))
      · exact hf.elim
  · rw [show (createPeriodic d).state.on = d.state.on from rfl, hon] at hoff
    cases hoff

theorem HasTurn.kept_creates {t : TaskId} {c : Coro} {d : Daemon} (h : HasTurn t c d) :
    KeptWithout t (createPeriodic d) :=
  .stored d.tasks.length (Nat.ne_of_gt h.lt) rfl (pending_createPeriodic d)

/-! ## Ends of turns -/

/-- The turn's end waits for task `i`, in `_trigger` or `_cancel_periodic`. -/
def Takes (f : Flow Pc) (i : TaskId) : Prop := ∃ pc, f = .await pc (.task i) ∧ pc.busy = true

/-- Without `t`, a daemon that is on keeps its schedule. -/
def Kept (t : TaskId) (d : Daemon) : Prop := d.state.serving = true → d.state.on = true → KeptWithout t d

/-- A periodic task of the turn of `t`, of coroutine `c`, is stored, or somebody waits for its end. -/
structure Own (t : TaskId) (c : Coro) (d : Daemon) : Prop where
  one : c.periodic = true → d.state.periodicTask = some t ∨ Covered d t
  off : c.periodic = true → d.state.on = false → Covered d t
  kept : d.state.serving = true → d.state.on = true → KeptWithout t d ∨ d.state.periodicTask = some t

/-- How a turn of `t`, of coroutine `c`, leaves the schedule. -/
structure Leaves (t : TaskId) (c : Coro) (r : Result) : Prop extends Beside t c (Takes r.2) r.1 where
  kept : r.1.state.serving = true → r.1.state.on = true → KeptWithout t r.1 ∨
    ∃ pc w, r.2 = .await pc w ∧ (r.1.state.periodicTask = some t ∨ pc.running = true ∨ pc.cancels = true)
  own : c.periodic = true → ∀ pc w, r.2 = .await pc w → pc.ofPeriodic = true ∧
    (r.1.state.periodicTask = some t ∨ pc.inside = true ∨ Covered r.1 t) ∧
    (r.1.state.on = false → pc.inside = true ∨ Covered r.1 t)

section Ends
variable {t : TaskId} {c : Coro} {d d' : Daemon}

theorem Kept.adds {p : Coro → Prop} (ha : Adds p d.tasks d'.tasks) (hs : SameSchedule d.state d'.state) (h : Kept t d) :
    Kept t d' :=
  fun hserving hon => (h (hs.serving ▸ hserving) (hs.on ▸ hon)).adds ha hs.periodic

theorem Kept.modified {f : State → State} (h : Kept t d) (hs : SameSchedule d.state (f d.state)) :
    Kept t (modify f d) := by
  have ha : Adds (fun _ => True) d.tasks (modify f d).tasks := .refl _ _
  exact h.adds ha hs

theorem Kept.of_off (h : d.state.on = false) : Kept t d := fun _ hon => by rw [h] at hon; cases hon

theorem Own.adds {p : Coro → Prop} (ha : Adds p d.tasks d'.tasks) (hs : SameSchedule d.state d'.state)
    (ht : outcomeOf t d'.tasks = none) (h : Own t c d) : Own t c d' where
  one hc := (h.one hc).imp (hs.periodic.trans ·) (Covered.adds ha ht)
  off hc hoff := (h.off hc (hs.on ▸ hoff)).adds ha ht
  kept hserving hon :=
    (h.kept (hs.serving ▸ hserving) (hs.on ▸ hon)).imp (KeptWithout.adds ha hs.periodic) (hs.periodic.trans ·)

theorem Own.modified {f : State → State} (h : Own t c d) (hs : SameSchedule d.state (f d.state))
    (ht : outcomeOf t d.tasks = none) : Own t c (modify f d) := by
  have ha : Adds (fun _ => True) d.tasks (modify f d).tasks := .refl _ _
  exact h.adds ha hs ht

theorem leaves_done (h : Beside t c nobody d) (hk : Kept t d) (o : Outcome) : Leaves t c (d, .done o) :=
  { h.shrink fun _ _ _ => False.elim with kept := fun hs hon => .inl (hk hs hon), own := nofun }

/-- A turn that ends in `_trigger`, past its guard. -/
theorem leaves_inside {pc : Pc} {w : Wait} (h : Beside t c (Takes (.await pc w)) d) (hp : pc.inside = true)
    (hk : pc.running = true ∨ Kept t d) : Leaves t c (d, .await pc w) := by
  refine { h with kept := fun hs hon => ?_, own := fun _ pc' w' hf => ?_ }
  · exact hk.symm.imp (· hs hon) fun hr => ⟨pc, w, rfl, .inr (.inl hr)⟩
  · cases hf
    exact ⟨Pc.ofPeriodic_of_inside hp, .inr (.inl hp), fun _ => .inl hp⟩

/-- A task that is no periodic one waits. -/
theorem leaves_call {pc : Pc} {w : Wait} (h : Beside t c (Takes (.await pc w)) d) (hc : c.periodic = false)
    (hk : pc.cancels = true ∨ Kept t d) : Leaves t c (d, .await pc w) := by
  refine { h with kept := fun hs hon => ?_, own := fun hper => ?_ }
  · exact hk.symm.imp (· hs hon) fun hr => ⟨pc, w, rfl, .inr (.inr hr)⟩
  · rw [hc] at hper
    cases hper

/-- A task outside `_trigger` waits. -/
theorem leaves_waits {pc : Pc} {w : Wait} (h : Beside t c nobody d) (ho : Own t c d) (hp : pc.ofPeriodic = true) :
    Leaves t c (d, .await pc w) := by
  refine { h.shrink fun _ _ _ => False.elim with kept := fun hs hon => ?_, own := fun hc pc' w' hf => ?_ }
  · exact (ho.kept hs hon).imp_right fun hst => ⟨pc, w, rfl, .inl hst⟩
  · cases hf
    exact ⟨hp, (ho.one hc).imp_right .inr, fun hoff => .inr (ho.off hc hoff)⟩

end Ends

end LogSubmitter.Daemon

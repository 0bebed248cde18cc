import LogSubmitter.Lib.Dict
import LogSubmitter.Lib.Entries
import LogSubmitter.Lib.Runs
import Mathlib.Data.Multiset.Bind
import Mathlib.Tactic.Abel
/-!
# Subscriptions to properties

A `DBusProperties` object stands for one interface of a D-Bus object. The bus tells it of the
signals of all interfaces, and for each of its handlers that is due it starts a task, which
gets the value first where the signal does not have it.
-/
namespace LogSubmitter.Dbus.Properties

open Lib

variable {H V : Type}

/-! ## Objects -/

/-- A `DBusProperties`. -/
structure Object (H : Type) where
  /-- `_iface` -/
  iface : String
  /-- Whether `_properties_iface` is set. -/
  hasIface : Bool
  /-- `_subscribed` -/
  subscribed : Dict String (List H)

/-- `_subscribed.get(prop, [])` -/
def Object.handlers (o : Object H) (prop : String) : List H := (o.subscribed.get? prop).getD []

/-- A call of `do_cb`. -/
structure Task (H V : Type) where
  /-- How many signals there were before. -/
  signal : Nat
  object : Nat
  /-- `self._iface` -/
  own : String
  handler : H
  iface : String
  prop : String
  value : Option V
  /-- In `await self._properties_iface.call_get`. -/
  asked : Bool

/-- What a handler is to be told: a change of its property, or that there is one. -/
structure Due (H V : Type) where
  signal : Nat
  object : Nat
  handler : H
  iface : String
  prop : String
  value : Option V
  deriving DecidableEq

/-- For whom a task is. -/
def Task.due (t : Task H V) : Due H V := ⟨t.signal, t.object, t.handler, t.own, t.prop, t.value⟩

/-- A call of a handler. -/
structure Call (H V : Type) where
  due : Due H V
  iface : String
  value : V
  /-- What the property of the handler's interface is then. -/
  current : Option V
  deriving DecidableEq

structure State (H V : Type) where
  objects : List (Object H)
  /-- Those of which the bus has a callback. -/
  callbacks : List Nat
  tasks : List (Task H V)
  /-- What the service answers for a property. -/
  values : String → String → Option V
  calls : List (Call H V)
  /-- How many signals there were. -/
  signals : Nat
  /-- The calls of `subscribe` that have ended. -/
  subscriptions : List (Nat × String × H)

/-- Objects without subscriptions. -/
def start (ifaces : List String) (values : String → String → Option V) : State H V where
  objects := ifaces.map fun iface => ⟨iface, false, .empty⟩
  callbacks := []
  tasks := []
  values := values
  calls := []
  signals := 0
  subscriptions := []

/-! ## Steps -/

inductive Event (H V : Type) where
  | subscribe (object : Nat) (prop : String) (handler : H)
  /-- An `await` of `props[name]` that has set `_properties_iface`. -/
  | getItem (object : Nat)
  /-- The service has another value. -/
  | change (iface prop : String) (value : Option V)
  | signal (iface : String) (changed : Dict String V) (invalidated : List String)
  /-- The first step of a task. -/
  | begin (n : Nat)
  /-- The answer to `call_get` comes to a task. -/
  | answer (n : Nat)

/-- `subscribe`, after `_connect` -/
def subscribe (i : Nat) (prop : String) (handler : H) (o : Object H) (s : State H V) : State H V :=
  { s with
    callbacks := if o.subscribed.items = [] then s.callbacks ++ [i] else s.callbacks
    objects := s.objects.set i { o with subscribed := o.subscribed.insert prop (o.handlers prop ++ [handler]) }
    subscriptions := s.subscriptions ++ [(i, prop, handler)] }

/-- The changes of a signal, and after them what is invalid. -/
def news (changed : Dict String V) (invalidated : List String) : List (String × Option V) :=
  changed.items.map (fun p => (p.1, some p.2)) ++ invalidated.map fun prop => (prop, none)

/-- `_update_props`: the tasks that it creates. -/
def updateProps (n i : Nat) (iface : String) (news : List (String × Option V)) (o : Object H) : List (Task H V) :=
  news.flatMap fun p => (o.handlers p.1).map fun handler =>
    { signal := n, object := i, own := o.iface, handler, iface, prop := p.1, value := p.2, asked := false }

/-- The tasks that the callbacks create. -/
def State.created (s : State H V) (iface : String) (news : List (String × Option V)) : List (Task H V) :=
  s.callbacks.flatMap fun i => (s.objects[i]?).elim [] (updateProps s.signals i iface news)

/-- A signal, of which the bus tells each callback. -/
def signal (iface : String) (changed : Dict String V) (invalidated : List String) (s : State H V) : State H V :=
  { s with tasks := s.tasks ++ s.created iface (news changed invalidated), signals := s.signals + 1 }

/-- `await cb(iface, prop, value)` -/
def call (n : Nat) (t : Task H V) (value : V) (s : State H V) : State H V :=
  { s with
    tasks := s.tasks.eraseIdx n
    calls := s.calls ++ [{ due := t.due, iface := t.iface, value, current := s.values t.own t.prop }] }

/-- The task raises an exception. -/
def raise (n : Nat) (s : State H V) : State H V := { s with tasks := s.tasks.eraseIdx n }

def State.hasIface (s : State H V) (i : Nat) : Bool := (s.objects[i]?).any Object.hasIface

/-- The task waits for `call_get`. -/
def ask (n : Nat) (t : Task H V) (s : State H V) : State H V :=
  { s with tasks := s.tasks.set n { t with asked := true } }

/-- `do_cb`, up to where it waits or ends. -/
def begin (n : Nat) (t : Task H V) (s : State H V) : State H V :=
  match t.value with
  | some value => call n t value s
  | none => if s.hasIface t.object then ask n t s else raise n s

/-- `do_cb` from there. -/
def answer (n : Nat) (t : Task H V) (s : State H V) : State H V :=
  match s.values t.own t.prop with
  | some value => call n t value s
  | none => raise n s

def next : Event H V → State H V → Option (State H V)
  | .subscribe i prop handler, s => (s.objects[i]?).map fun o => subscribe i prop handler o s
  | .getItem i, s => (s.objects[i]?).map fun o => { s with objects := s.objects.set i { o with hasIface := true } }
  | .change iface prop value, s =>
    some { s with values := fun i p => if i = iface ∧ p = prop then value else s.values i p }
  | .signal iface changed invalidated, s => some (signal iface changed invalidated s)
  | .begin n, s => (s.tasks[n]?).bind fun t => if t.asked then none else some (begin n t s)
  | .answer n, s => (s.tasks[n]?).bind fun t => if t.asked then some (answer n t s) else none

def Step (s : State H V) (e : Event H V) (s' : State H V) : Prop := next e s = some s'

/-! ## What is promised -/

/-- What a signal owes to a subscription. -/
def State.owesTo (s : State H V) (iface : String) (news : List (String × Option V)) (q : Nat × String × H) :
    List (Due H V) :=
  news.flatMap fun p =>
    if (s.objects[q.1]?).map Object.iface = some iface ∧ q.2.1 = p.1 then
      [⟨s.signals, q.1, q.2.2, iface, p.1, p.2⟩]
    else []

/-- What it owes to all of those before it. -/
def State.owes (s : State H V) (iface : String) (news : List (String × Option V)) : List (Due H V) :=
  s.subscriptions.flatMap (s.owesTo iface news)

/-- What a step owes. -/
def owed (s : State H V) : Event H V → List (Due H V)
  | .signal iface changed invalidated => s.owes iface (news changed invalidated)
  | _ => []

/-- A handler is told of its own interface, and of the value. -/
def Call.Right (c : Call H V) : Prop :=
  c.iface = c.due.iface ∧ (c.due.value = some c.value ∨ c.due.value = none ∧ c.current = some c.value)

/-- No handler is called more often than it is owed, and when no task is left each has been. -/
structure Kept (tr : List (State H V × Event H V)) (s : State H V) : Prop where
  right : ∀ c ∈ s.calls, c.Right
  most : (s.calls.map Call.due).Subperm (tr.flatMap fun p => owed p.1 p.2)
  all : s.tasks = [] → (s.calls.map Call.due).Perm (tr.flatMap fun p => owed p.1 p.2)

/-- No object has handlers for a property of another interface that changes; a task that needs the value
of its property can ask for it and is told it, but is not if the property is of another interface. -/
def Undisturbed (s : State H V) : Event H V → Prop
  | .signal iface changed _ => ∀ i ∈ s.callbacks, ∀ o ∈ s.objects[i]?, o.iface ≠ iface →
    ∀ prop ∈ changed.keys, o.handlers prop = []
  | .begin n => ∀ t ∈ s.tasks[n]?, t.value = none → t.iface = t.own → s.hasIface t.object = true
  | .answer n => ∀ t ∈ s.tasks[n]?, (s.values t.own t.prop).isSome = true ↔ t.iface = t.own
  | _ => True

instance (s : State H V) : (e : Event H V) → Decidable (Undisturbed s e)
  | .subscribe _ _ _ => .isTrue trivial
  | .getItem _ => .isTrue trivial
  | .change _ _ _ => .isTrue trivial
  | .signal iface changed _ => inferInstanceAs (Decidable (∀ i ∈ s.callbacks, ∀ o ∈ s.objects[i]?, o.iface ≠ iface →
      ∀ prop ∈ changed.keys, o.handlers prop = []))
  | .begin n => inferInstanceAs (Decidable (∀ t ∈ s.tasks[n]?, t.value = none → t.iface = t.own →
      s.hasIface t.object = true))
  | .answer n => inferInstanceAs (Decidable (∀ t ∈ s.tasks[n]?,
      (s.values t.own t.prop).isSome = true ↔ t.iface = t.own))

/-! ## Subscriptions -/

variable {s s' : State H V}

/-- The handlers of each object are those of its subscriptions, and the bus has one callback of an object
from its first subscription on. -/
structure Registered (s : State H V) : Prop where
  handlers : ∀ (i : Nat) (o : Object H), s.objects[i]? = some o → ∀ prop, o.handlers prop =
    s.subscriptions.filterMap fun q => if q.1 = i ∧ q.2.1 = prop then some q.2.2 else none
  distinct : s.callbacks.Nodup
  registered : ∀ i, i ∈ s.callbacks ↔ ∃ o, s.objects[i]? = some o ∧ o.subscribed.items ≠ []
  subscribed : ∀ q ∈ s.subscriptions, q.1 ∈ s.callbacks

theorem registered_start (ifaces : List String) (values : String → String → Option V) :
    Registered (start ifaces values : State H V) := by
  have hempty : ∀ (i : Nat) (o : Object H), (start ifaces values : State H V).objects[i]? = some o →
      o.subscribed = .empty := by
    intro i o ho
    rw [start, List.getElem?_map] at ho
    obtain ⟨iface, -, rfl⟩ := Option.map_eq_some_iff.1 ho
    rfl
  refine ⟨?_, List.nodup_nil, ?_, ?_⟩
  · intro i o ho prop
    rw [Object.handlers, hempty i o ho]
    rfl
  · intro i
    refine iff_of_false List.not_mem_nil ?_
    rintro ⟨o, ho, hne⟩
    rw [hempty i o ho] at hne
    exact hne rfl
  · intro q hq
    cases hq

theorem handlers_insert (o : Object H) (prop prop' : String) (l : List H) :
    ({ o with subscribed := o.subscribed.insert prop l } : Object H).handlers prop' =
      if prop' = prop then l else o.handlers prop' := by
  unfold Object.handlers
  dsimp only
  rw [Dict.get?_insert]
  split <;> rfl

theorem items_insert_ne_nil (d : Dict String (List H)) (prop : String) (l : List H) : (d.insert prop l).items ≠ [] := by
  intro h
  have hget := Dict.get?_insert_self d prop l
  rw [Dict.get?, h] at hget
  cases hget

theorem registered_subscribe (hr : Registered s) {i : Nat} {o : Object H} (ho : s.objects[i]? = some o)
    (prop : String) (handler : H) : Registered (subscribe i prop handler o s) := by
  have hi : i < s.objects.length := (List.getElem?_eq_some_iff.1 ho).1
  have hin : i ∈ (subscribe i prop handler o s).callbacks := by
    unfold subscribe
    dsimp only
    split
    · simp
    · next hne => exact (hr.registered i).2 ⟨o, ho, hne⟩
  have hold : ∀ j, j ≠ i → (j ∈ (subscribe i prop handler o s).callbacks ↔ j ∈ s.callbacks) := by
    intro j hj
    unfold subscribe
    dsimp only
    split <;> simp [hj]
  refine ⟨?_, ?_, ?_, ?_⟩
  · intro j o' ho' prop'
    have hcons : ∀ l, (l ++ [(i, prop, handler)]).filterMap
        (fun q : Nat × String × H => if q.1 = j ∧ q.2.1 = prop' then some q.2.2 else none) =
        l.filterMap (fun q => if q.1 = j ∧ q.2.1 = prop' then some q.2.2 else none) ++
          if i = j ∧ prop = prop' then [handler] else [] := by
      intro l
      rw [List.filterMap_append]
      by_cases h : i = j ∧ prop = prop' <;> simp [h]
    unfold subscribe at ho' ⊢
    dsimp only at ho' ⊢
    rw [hcons]
    rcases Entries.getElem?_set_eq_some ho' with ⟨rfl, rfl⟩ | ⟨hj, ho'⟩
    · rw [handlers_insert, hr.handlers j o ho, hr.handlers j o ho]
      by_cases hp : prop' = prop
      · simp [hp]
      · simp [hp, Ne.symm hp]
    · rw [hr.handlers j o' ho', if_neg fun h => hj h.1.symm, List.append_nil]
  · unfold subscribe
    dsimp only
    split
    · next hnil =>
      have hnot : i ∉ s.callbacks := by
        intro h
        obtain ⟨o', ho', hne⟩ := (hr.registered i).1 h
        rw [ho] at ho'
        cases ho'
        exact hne hnil
      refine List.nodup_append.2 ⟨hr.distinct, List.nodup_singleton i, ?_⟩
      intro a ha b hb
      rw [List.mem_singleton.1 hb]
      rintro rfl
      exact hnot ha
    · exact hr.distinct
  · intro j
    by_cases hj : j = i
    · subst hj
      refine iff_of_true hin ⟨_, List.getElem?_set_self hi, items_insert_ne_nil _ _ _⟩
    · rw [hold j hj, hr.registered j, subscribe]
      dsimp only
      rw [List.getElem?_set_ne (Ne.symm hj)]
  · intro q hq
    rcases List.mem_append.1 hq with hq | hq
    · by_cases h : q.1 = i
      · rw [h]
        exact hin
      · exact (hold q.1 h).2 (hr.subscribed q hq)
    · rw [List.mem_singleton.1 hq]
      exact hin

theorem registered_getItem (hr : Registered s) {i : Nat} {o : Object H} (ho : s.objects[i]? = some o) :
    Registered { s with objects := s.objects.set i { o with hasIface := true } } := by
  have hi : i < s.objects.length := (List.getElem?_eq_some_iff.1 ho).1
  refine ⟨?_, hr.distinct, ?_, hr.subscribed⟩
  · intro j o' ho' prop
    rcases Entries.getElem?_set_eq_some ho' with ⟨rfl, rfl⟩ | ⟨-, ho'⟩
    · exact hr.handlers j o ho prop
    · exact hr.handlers j o' ho' prop
  · intro j
    rw [hr.registered j]
    by_cases hj : i = j
    · subst hj
      dsimp only
      rw [List.getElem?_set_self hi]
      simp [ho]
    · dsimp only
      rw [List.getElem?_set_ne hj]

/-! ## Tasks and calls -/

/-- What the task is owed, if it is for the handler. -/
def Task.own? (t : Task H V) : Option (Due H V) := if t.iface = t.own then some t.due else none

/-- What is called without being owed, when the task is. -/
def Task.stray? (t : Task H V) : Option (Due H V) :=
  if t.iface = t.own then none else if t.value.isSome then some t.due else none

def State.ownTasks (s : State H V) : Multiset (Due H V) := s.tasks.filterMap Task.own?

def State.strayTasks (s : State H V) : Multiset (Due H V) := s.tasks.filterMap Task.stray?

def State.ownCalls (s : State H V) : Multiset (Due H V) :=
  s.calls.filterMap fun c => if c.iface = c.due.iface then some c.due else none

def State.strayCalls (s : State H V) : Multiset (Due H V) :=
  s.calls.filterMap fun c => if c.iface = c.due.iface then none else some c.due

/-- What is owed and gets lost in a step. -/
def lost (s : State H V) : Event H V → List (Due H V)
  | .begin n => (s.tasks[n]?).elim [] fun t =>
    if t.value = none ∧ s.hasIface t.object = false then t.own?.toList else []
  | .answer n => (s.tasks[n]?).elim [] fun t => if s.values t.own t.prop = none then t.own?.toList else []
  | _ => []

/-- What is not owed and is or will be called because of a step. -/
def strayed (s : State H V) : Event H V → List (Due H V)
  | .signal iface changed invalidated => (s.created iface (news changed invalidated)).filterMap Task.stray?
  | .answer n => (s.tasks[n]?).elim [] fun t =>
    if t.iface = t.own ∨ s.values t.own t.prop = none then [] else [t.due]
  | _ => []

theorem flatMap_comm {α β γ : Type} (l : List α) (m : List β) (f : α → β → List γ) :
    (l.flatMap fun a => m.flatMap fun b => f a b).Perm (m.flatMap fun b => l.flatMap fun a => f a b) := by
  rw [← Multiset.coe_eq_coe]
  simp only [← Multiset.coe_bind]
  exact Multiset.bind_bind _ _

theorem flatMap_ite {α γ : Type} [DecidableEq α] {l : List α} (hn : l.Nodup) {a : α} (h : a ∈ l) (r : List γ) :
    (l.flatMap fun b => if a = b then r else []) = r := by
  induction l with
  | nil => cases h
  | cons b l ih =>
    obtain ⟨hb, hn⟩ := List.nodup_cons.1 hn
    rw [List.flatMap_cons]
    by_cases hab : a = b
    · have hrest : (l.flatMap fun b => if a = b then r else []) = [] := by
        rw [List.flatMap_eq_nil_iff]
        intro c hc
        rw [if_neg]
        rintro rfl
        exact hb (hab ▸ hc)
      rw [if_pos hab, hrest, List.append_nil]
    · rw [if_neg hab, ih hn (List.mem_of_ne_of_mem hab h), List.nil_append]

/-! ## Signals -/

/-- What an object makes of a signal, by its subscriptions. -/
theorem updateProps_own (hr : Registered s) {i : Nat} {o : Object H} (ho : s.objects[i]? = some o) (iface : String)
    (l : List (String × Option V)) :
    ((updateProps s.signals i iface l o).filterMap Task.own?).Perm
      (s.subscriptions.flatMap fun q => if q.1 = i then s.owesTo iface l q else []) := by
  have hone : ∀ p : String × Option V, ((o.handlers p.1).map fun handler =>
      ({ signal := s.signals, object := i, own := o.iface, handler, iface, prop := p.1, value := p.2, asked := false } :
        Task H V)).filterMap Task.own? = s.subscriptions.flatMap fun q =>
      if q.1 = i then
        if (s.objects[q.1]?).map Object.iface = some iface ∧ q.2.1 = p.1 then
          [(⟨s.signals, q.1, q.2.2, iface, p.1, p.2⟩ : Due H V)]
        else []
      else [] := by
    intro p
    rw [hr.handlers i o ho, List.filterMap_map, List.filterMap_filterMap, List.filterMap_eq_flatMap_toList]
    apply List.flatMap_congr
    intro q _
    by_cases hq : q.1 = i
    · subst hq
      by_cases hp : q.2.1 = p.1
      · by_cases hi : o.iface = iface
        · simp [hp, ho, hi, Task.own?, Task.due]
        · simp [hp, ho, hi, Ne.symm hi, Task.own?]
      · simp [hp]
    · simp [hq]
  unfold updateProps
  rw [List.filterMap_flatMap]
  simp only [hone]
  refine (flatMap_comm l s.subscriptions _).trans (List.Perm.of_eq (List.flatMap_congr fun q _ => ?_))
  split
  · rfl
  · simp

/-- The tasks of a signal for its own interface are what it owes. -/
theorem created_own (hr : Registered s) (iface : String) (l : List (String × Option V)) :
    ((s.created iface l).filterMap Task.own?).Perm (s.owes iface l) := by
  unfold State.created State.owes
  rw [List.filterMap_flatMap]
  have heach : ∀ i ∈ s.callbacks, (((s.objects[i]?).elim [] (updateProps s.signals i iface l)).filterMap Task.own?).Perm
      (s.subscriptions.flatMap fun q => if q.1 = i then s.owesTo iface l q else []) := by
    intro i hi
    obtain ⟨o, ho, -⟩ := (hr.registered i).1 hi
    have h := updateProps_own hr ho iface l
    rw [ho]
    exact h
  refine (List.Perm.flatMap_left _ heach).trans ((flatMap_comm _ _ _).trans (List.Perm.of_eq ?_))
  apply List.flatMap_congr
  intro q hq
  exact flatMap_ite hr.distinct (hr.subscribed q hq) _

theorem mem_created {iface : String} {l : List (String × Option V)} {t : Task H V} :
    t ∈ s.created iface l ↔ ∃ i ∈ s.callbacks, ∃ o, s.objects[i]? = some o ∧ ∃ p ∈ l, ∃ handler ∈ o.handlers p.1,
      t = { signal := s.signals, object := i, own := o.iface, handler, iface, prop := p.1, value := p.2,
            asked := false } := by
  unfold State.created updateProps
  rw [List.mem_flatMap]
  constructor
  · rintro ⟨i, hi, ht⟩
    cases ho : s.objects[i]? with
    | none =>
      rw [ho] at ht
      cases ht
    | some o =>
      rw [ho] at ht
      obtain ⟨p, hp, ht⟩ := List.mem_flatMap.1 ht
      obtain ⟨handler, hhandler, rfl⟩ := List.mem_map.1 ht
      exact ⟨i, hi, o, ho, p, hp, handler, hhandler, rfl⟩
  · rintro ⟨i, hi, o, ho, p, hp, handler, hhandler, rfl⟩
    refine ⟨i, hi, ?_⟩
    rw [ho]
    exact List.mem_flatMap.2 ⟨p, hp, List.mem_map.2 ⟨handler, hhandler, rfl⟩⟩

/-- A signal makes no stray task as long as no object has handlers for what changes. -/
theorem created_stray_iff (s : State H V) (iface : String) (changed : Dict String V) (invalidated : List String) :
    (s.created iface (news changed invalidated)).filterMap Task.stray? = [] ↔
      Undisturbed s (.signal iface changed invalidated) := by
  rw [List.filterMap_eq_nil_iff]
  constructor
  · intro h i hi o ho hne prop hprop
    obtain ⟨p, hp, rfl⟩ := List.mem_map.1 hprop
    apply List.eq_nil_iff_forall_not_mem.2
    intro handler hhandler
    have hnews : (p.1, some p.2) ∈ news changed invalidated :=
      List.mem_append_left _ (List.mem_map.2 ⟨p, hp, rfl⟩)
    have hstray := h _ (mem_created.2 ⟨i, hi, o, ho, _, hnews, handler, hhandler, rfl⟩)
    simp [Task.stray?, Ne.symm hne] at hstray
  · intro h t ht
    obtain ⟨i, hi, o, ho, p, hp, handler, hhandler, rfl⟩ := mem_created.1 ht
    unfold Task.stray?
    dsimp only
    split
    · rfl
    · next hne =>
      rcases List.mem_append.1 hp with hp | hp
      · obtain ⟨q, hq, rfl⟩ := List.mem_map.1 hp
        rw [h i hi o ho (Ne.symm hne) q.1 (List.mem_map_of_mem hq)] at hhandler
        cases hhandler
      · obtain ⟨prop, -, rfl⟩ := List.mem_map.1 hp
        rfl

/-! ## Steps -/

/-- What becomes of what is owed: a task, a call, or it is lost. -/
def Balanced (s : State H V) (e : Event H V) (s' : State H V) : Prop :=
  s'.ownCalls + s'.ownTasks + (lost s e : Multiset (Due H V)) =
    s.ownCalls + s.ownTasks + (owed s e : Multiset (Due H V))

/-- And of what is not owed. -/
def Strays (s : State H V) (e : Event H V) (s' : State H V) : Prop :=
  s'.strayCalls + s'.strayTasks = s.strayCalls + s.strayTasks + (strayed s e : Multiset (Due H V))

theorem ownTasks_eraseIdx {n : Nat} {t : Task H V} (ht : s.tasks[n]? = some t) :
    s.ownTasks =
      (t.own?.toList : Multiset (Due H V)) + ((s.tasks.eraseIdx n).filterMap Task.own? : List (Due H V)) := by
  rw [State.ownTasks, Multiset.coe_add, Multiset.coe_eq_coe]
  exact Entries.filterMap_eraseIdx Task.own? ht

theorem strayTasks_eraseIdx {n : Nat} {t : Task H V} (ht : s.tasks[n]? = some t) :
    s.strayTasks =
      (t.stray?.toList : Multiset (Due H V)) + ((s.tasks.eraseIdx n).filterMap Task.stray? : List (Due H V)) := by
  rw [State.strayTasks, Multiset.coe_add, Multiset.coe_eq_coe]
  exact Entries.filterMap_eraseIdx Task.stray? ht

theorem ownCalls_call (n : Nat) (t : Task H V) (value : V) :
    (call n t value s).ownCalls = s.ownCalls + (t.own?.toList : Multiset (Due H V)) := by
  rw [State.ownCalls, State.ownCalls, Multiset.coe_add, call, List.filterMap_append]
  unfold Task.own?
  by_cases h : t.iface = t.own <;> simp [h, Task.due]

theorem strayCalls_call (n : Nat) (t : Task H V) (value : V) :
    (call n t value s).strayCalls =
      s.strayCalls + (if t.iface = t.own then [] else [t.due] : List (Due H V)) := by
  rw [State.strayCalls, State.strayCalls, Multiset.coe_add, call, List.filterMap_append]
  by_cases h : t.iface = t.own <;> simp [h, Task.due]

/-- The call of a handler ends its task. -/
theorem call_own {n : Nat} {t : Task H V} (ht : s.tasks[n]? = some t) (value : V) :
    (call n t value s).ownCalls + (call n t value s).ownTasks = s.ownCalls + s.ownTasks := by
  rw [ownTasks_eraseIdx ht, ownCalls_call, add_assoc]
  rfl

/-- What a step may be. -/
theorem step_cases {e : Event H V} (h : Step s e s') :
    (∃ i prop handler o, e = .subscribe i prop handler ∧ s.objects[i]? = some o ∧ s' = subscribe i prop handler o s) ∨
    (∃ i o, e = .getItem i ∧ s.objects[i]? = some o ∧
      s' = { s with objects := s.objects.set i { o with hasIface := true } }) ∨
    (∃ iface prop value, e = .change iface prop value ∧
      s' = { s with values := fun i p => if i = iface ∧ p = prop then value else s.values i p }) ∨
    (∃ iface changed invalidated, e = .signal iface changed invalidated ∧ s' = signal iface changed invalidated s) ∨
    (∃ n t, e = .begin n ∧ s.tasks[n]? = some t ∧ t.asked = false ∧ s' = begin n t s) ∨
    ∃ n t, e = .answer n ∧ s.tasks[n]? = some t ∧ t.asked = true ∧ s' = answer n t s := by
  unfold Step next at h
  cases e with
  | subscribe i prop handler =>
    obtain ⟨o, ho, rfl⟩ := Option.map_eq_some_iff.1 h
    exact .inl ⟨i, prop, handler, o, rfl, ho, rfl⟩
  | getItem i =>
    obtain ⟨o, ho, rfl⟩ := Option.map_eq_some_iff.1 h
    exact .inr (.inl ⟨i, o, rfl, ho, rfl⟩)
  | change iface prop value =>
    cases h
    exact .inr (.inr (.inl ⟨iface, prop, value, rfl, rfl⟩))
  | signal iface changed invalidated =>
    cases h
    exact .inr (.inr (.inr (.inl ⟨iface, changed, invalidated, rfl, rfl⟩)))
  | begin n =>
    obtain ⟨t, ht, h⟩ := Option.bind_eq_some_iff.1 h
    split at h
    · cases h
    · next hasked =>
      cases h
      exact .inr (.inr (.inr (.inr (.inl ⟨n, t, rfl, ht, by simpa using hasked, rfl⟩))))
  | answer n =>
    obtain ⟨t, ht, h⟩ := Option.bind_eq_some_iff.1 h
    split at h
    · next hasked =>
      cases h
      exact .inr (.inr (.inr (.inr (.inr ⟨n, t, rfl, ht, hasked, rfl⟩))))
    · cases h

theorem registered_step {e : Event H V} (hr : Registered s) (h : Step s e s') : Registered s' := by
  rcases step_cases h with ⟨i, prop, handler, o, -, ho, rfl⟩ | ⟨i, o, -, ho, rfl⟩ | ⟨iface, prop, value, -, rfl⟩ |
    ⟨iface, changed, invalidated, -, rfl⟩ | ⟨n, t, -, -, -, rfl⟩ | ⟨n, t, -, -, -, rfl⟩
  · exact registered_subscribe hr ho prop handler
  · exact registered_getItem hr ho
  · exact ⟨hr.handlers, hr.distinct, hr.registered, hr.subscribed⟩
  · exact ⟨hr.handlers, hr.distinct, hr.registered, hr.subscribed⟩
  · unfold begin
    split
    · exact ⟨hr.handlers, hr.distinct, hr.registered, hr.subscribed⟩
    · split <;> exact ⟨hr.handlers, hr.distinct, hr.registered, hr.subscribed⟩
  · unfold answer
    split <;> exact ⟨hr.handlers, hr.distinct, hr.registered, hr.subscribed⟩

/-- A task that has asked for a value was not given one. -/
def Asked (s : State H V) : Prop := ∀ t ∈ s.tasks, t.asked = true → t.value = none

theorem asked_step {e : Event H V} (ha : Asked s) (h : Step s e s') : Asked s' := by
  have herase : ∀ n, ∀ t ∈ s.tasks.eraseIdx n, t.asked = true → t.value = none := fun n t ht =>
    ha t (List.mem_of_mem_eraseIdx ht)
  rcases step_cases h with ⟨i, prop, handler, o, -, ho, rfl⟩ | ⟨i, o, -, ho, rfl⟩ | ⟨iface, prop, value, -, rfl⟩ |
    ⟨iface, changed, invalidated, -, rfl⟩ | ⟨n, t, -, ht, -, rfl⟩ | ⟨n, t, -, ht, -, rfl⟩
  · exact ha
  · exact ha
  · exact ha
  · intro t ht hasked
    rcases List.mem_append.1 ht with ht | ht
    · exact ha t ht hasked
    · obtain ⟨i, -, o, -, p, -, handler, -, rfl⟩ := mem_created.1 ht
      cases hasked
  · unfold begin
    split
    · exact herase n
    · next hvalue =>
      split
      · intro t' ht' hasked
        rcases List.mem_or_eq_of_mem_set ht' with ht' | rfl
        · exact ha t' ht' hasked
        · exact hvalue
      · exact herase n
  · unfold answer
    split <;> exact herase n

theorem ask_own {n : Nat} {t : Task H V} (ht : s.tasks[n]? = some t) : (ask n t s).ownTasks = s.ownTasks := by
  have hsame : (s.tasks.set n { t with asked := true }).filterMap Task.own? = s.tasks.filterMap Task.own? :=
    Entries.filterMap_set Task.own? ht rfl
  unfold State.ownTasks ask
  dsimp only
  rw [hsame]

theorem raise_own {n : Nat} {t : Task H V} (ht : s.tasks[n]? = some t) :
    (raise n s).ownTasks + (t.own?.toList : Multiset (Due H V)) = s.ownTasks := by
  rw [ownTasks_eraseIdx ht, add_comm]
  rfl

theorem balanced_begin {n : Nat} {t : Task H V} (ht : s.tasks[n]? = some t) :
    Balanced s (.begin n) (begin n t s) := by
  have hlost : lost s (.begin n) = if t.value = none ∧ s.hasIface t.object = false then t.own?.toList else [] := by
    simp [lost, ht]
  unfold Balanced begin
  rw [hlost, show owed s (.begin n) = [] from rfl, Multiset.coe_nil, add_zero]
  cases hvalue : t.value with
  | some value =>
    have hne : ¬ (some value = none ∧ s.hasIface t.object = false) := fun h => Option.some_ne_none value h.1
    rw [if_neg hne, Multiset.coe_nil, add_zero]
    exact call_own ht value
  | none =>
    dsimp only
    cases hiface : s.hasIface t.object with
    | true =>
      rw [if_pos rfl, if_neg fun h => Bool.noConfusion h.2, Multiset.coe_nil, add_zero, ask_own ht]
      rfl
    | false =>
      rw [if_neg Bool.false_ne_true, if_pos ⟨rfl, rfl⟩, add_assoc, raise_own ht]
      rfl

theorem balanced_answer {n : Nat} {t : Task H V} (ht : s.tasks[n]? = some t) :
    Balanced s (.answer n) (answer n t s) := by
  have hlost : lost s (.answer n) = if s.values t.own t.prop = none then t.own?.toList else [] := by
    simp [lost, ht]
  unfold Balanced answer
  rw [hlost, show owed s (.answer n) = [] from rfl, Multiset.coe_nil, add_zero]
  cases hvalue : s.values t.own t.prop with
  | some value =>
    rw [if_neg (Option.some_ne_none value), Multiset.coe_nil, add_zero]
    exact call_own ht value
  | none =>
    rw [if_pos rfl, add_assoc, raise_own ht]
    rfl

theorem balanced_step {e : Event H V} (hr : Registered s) (h : Step s e s') : Balanced s e s' := by
  rcases step_cases h with ⟨i, prop, handler, o, rfl, ho, rfl⟩ | ⟨i, o, rfl, ho, rfl⟩ | ⟨iface, prop, value, rfl, rfl⟩ |
    ⟨iface, changed, invalidated, rfl, rfl⟩ | ⟨n, t, rfl, ht, -, rfl⟩ | ⟨n, t, rfl, ht, -, rfl⟩
  · rfl
  · rfl
  · rfl
  · have hcreated := Multiset.coe_eq_coe.2 (created_own hr iface (news changed invalidated))
    have htasks : (signal iface changed invalidated s).ownTasks =
        s.ownTasks + (s.owes iface (news changed invalidated) : Multiset (Due H V)) := by
      rw [← hcreated, State.ownTasks, State.ownTasks, Multiset.coe_add, signal, List.filterMap_append]
    unfold Balanced
    rw [htasks, ← add_assoc]
    exact add_zero _
  · exact balanced_begin ht
  · exact balanced_answer ht

theorem call_stray {n : Nat} {t : Task H V} (ht : s.tasks[n]? = some t) (value : V) :
    (call n t value s).strayCalls + (call n t value s).strayTasks + (t.stray?.toList : Multiset (Due H V)) =
      s.strayCalls + s.strayTasks + (if t.iface = t.own then [] else [t.due] : List (Due H V)) := by
  rw [strayTasks_eraseIdx ht, strayCalls_call]
  show _ + _ + (((s.tasks.eraseIdx n).filterMap Task.stray? : List (Due H V)) : Multiset (Due H V)) + _ = _
  abel

theorem raise_stray {n : Nat} {t : Task H V} (ht : s.tasks[n]? = some t) :
    (raise n s).strayTasks + (t.stray?.toList : Multiset (Due H V)) = s.strayTasks := by
  rw [strayTasks_eraseIdx ht, add_comm]
  rfl

theorem stray_of_none {t : Task H V} (h : t.value = none) : t.stray? = none := by
  unfold Task.stray?
  rw [h]
  split <;> rfl

theorem strays_begin {n : Nat} {t : Task H V} (ht : s.tasks[n]? = some t) : Strays s (.begin n) (begin n t s) := by
  unfold Strays begin
  rw [show strayed s (.begin n) = [] from rfl, Multiset.coe_nil, add_zero]
  cases hvalue : t.value with
  | some value =>
    have hcall := call_stray ht value
    have hstray : t.stray?.toList = if t.iface = t.own then [] else [t.due] := by
      unfold Task.stray?
      rw [hvalue]
      split <;> rfl
    rw [hstray] at hcall
    exact add_right_cancel hcall
  | none =>
    have hnone := stray_of_none hvalue
    dsimp only
    split
    · have hsame : (s.tasks.set n { t with asked := true }).filterMap Task.stray? = s.tasks.filterMap Task.stray? := by
        apply Entries.filterMap_set Task.stray? ht
        rw [hnone]
        exact stray_of_none hvalue
      unfold State.strayTasks ask
      dsimp only
      rw [hsame]
      rfl
    · have hraise := raise_stray ht
      rw [hnone, Option.toList_none, Multiset.coe_nil, add_zero] at hraise
      rw [hraise]
      rfl

theorem strays_answer (ha : Asked s) {n : Nat} {t : Task H V} (ht : s.tasks[n]? = some t) (hasked : t.asked = true) :
    Strays s (.answer n) (answer n t s) := by
  have hnone := stray_of_none (ha t (List.mem_of_getElem? ht) hasked)
  have hstrayed : strayed s (.answer n) =
      if t.iface = t.own ∨ s.values t.own t.prop = none then [] else [t.due] := by
    simp [strayed, ht]
  unfold Strays answer
  rw [hstrayed]
  cases hvalue : s.values t.own t.prop with
  | some value =>
    have hcall := call_stray ht value
    rw [hnone, Option.toList_none, Multiset.coe_nil, add_zero] at hcall
    rw [hcall]
    simp
  | none =>
    have hraise := raise_stray ht
    rw [hnone, Option.toList_none, Multiset.coe_nil, add_zero] at hraise
    rw [hraise, if_pos (.inr rfl), Multiset.coe_nil, add_zero]
    rfl

theorem strays_step {e : Event H V} (ha : Asked s) (h : Step s e s') : Strays s e s' := by
  rcases step_cases h with ⟨i, prop, handler, o, rfl, ho, rfl⟩ | ⟨i, o, rfl, ho, rfl⟩ | ⟨iface, prop, value, rfl, rfl⟩ |
    ⟨iface, changed, invalidated, rfl, rfl⟩ | ⟨n, t, rfl, ht, -, rfl⟩ | ⟨n, t, rfl, ht, hasked, rfl⟩
  · exact (add_zero _).symm
  · exact (add_zero _).symm
  · exact (add_zero _).symm
  · have htasks : (signal iface changed invalidated s).strayTasks =
        s.strayTasks + (strayed s (.signal iface changed invalidated) : Multiset (Due H V)) := by
      rw [State.strayTasks, State.strayTasks, strayed, Multiset.coe_add, signal, List.filterMap_append]
    unfold Strays
    rw [htasks, ← add_assoc]
    rfl
  · exact strays_begin ht
  · exact strays_answer ha ht hasked

/-- A step loses nothing and lets nothing stray if and only if it is undisturbed. -/
theorem undisturbed_iff {e : Event H V} (h : Step s e s') : Undisturbed s e ↔ lost s e = [] ∧ strayed s e = [] := by
  rcases step_cases h with ⟨i, prop, handler, o, rfl, -, -⟩ | ⟨i, o, rfl, -, -⟩ | ⟨iface, prop, value, rfl, -⟩ |
    ⟨iface, changed, invalidated, rfl, -⟩ | ⟨n, t, rfl, ht, -, -⟩ | ⟨n, t, rfl, ht, -, -⟩
  · exact iff_of_true trivial ⟨rfl, rfl⟩
  · exact iff_of_true trivial ⟨rfl, rfl⟩
  · exact iff_of_true trivial ⟨rfl, rfl⟩
  · rw [← created_stray_iff]
    exact ⟨fun h => ⟨rfl, h⟩, And.right⟩
  · unfold Undisturbed lost strayed
    simp only [ht, Option.mem_some_iff, forall_eq', Option.elim]
    unfold Task.own?
    by_cases hown : t.iface = t.own <;> cases t.value <;> cases s.hasIface t.object <;> simp [hown]
  · unfold Undisturbed lost strayed
    simp only [ht, Option.mem_some_iff, forall_eq', Option.elim]
    unfold Task.own?
    by_cases hown : t.iface = t.own <;> cases s.values t.own t.prop <;> simp [hown]

/-! ## Runs -/

/-- A handler that is told of its own interface is told the value. -/
def Told (s : State H V) : Prop := ∀ c ∈ s.calls, c.iface = c.due.iface → c.Right

theorem told_call (hi : Told s) {n : Nat} {t : Task H V} {value : V}
    (h : t.value = some value ∨ t.value = none ∧ s.values t.own t.prop = some value) : Told (call n t value s) := by
  intro c hc hown
  rcases List.mem_append.1 hc with hc | hc
  · exact hi c hc hown
  · rw [List.mem_singleton] at hc
    subst hc
    exact ⟨hown, h⟩

theorem told_step {e : Event H V} (hi : Told s) (ha : Asked s) (h : Step s e s') : Told s' := by
  rcases step_cases h with ⟨i, prop, handler, o, -, -, rfl⟩ | ⟨i, o, -, -, rfl⟩ | ⟨iface, prop, value, -, rfl⟩ |
    ⟨iface, changed, invalidated, -, rfl⟩ | ⟨n, t, -, ht, -, rfl⟩ | ⟨n, t, -, ht, hasked, rfl⟩
  · exact hi
  · exact hi
  · exact hi
  · exact hi
  · unfold begin
    split
    · next value hvalue => exact told_call hi (.inl hvalue)
    · split <;> exact hi
  · unfold answer
    split
    · next value hvalue => exact told_call hi (.inr ⟨ha t (List.mem_of_getElem? ht) hasked, hvalue⟩)
    · exact hi

variable {ifaces : List String} {values : String → String → Option V} {tr : List (State H V × Event H V)}

theorem inv_of_run (h : Run Step (start ifaces values) tr s) : Registered s ∧ Asked s ∧ Told s :=
  h.always (fun s => Registered s ∧ Asked s ∧ Told s)
    (fun _ _ _ hi hstep => ⟨registered_step hi.1 hstep, asked_step hi.2.1 hstep, told_step hi.2.2 hi.2.1 hstep⟩)
    ⟨registered_start ifaces values, nofun, nofun⟩

/-- After any run: what was owed has been called, is a task or was lost; and what strayed has been called or is a
task. -/
theorem balance_of_run (h : Run Step (start ifaces values) tr s) :
    ((tr.flatMap fun p => owed p.1 p.2 : List (Due H V)) : Multiset (Due H V)) =
      s.ownCalls + s.ownTasks + (tr.flatMap fun p => lost p.1 p.2 : List (Due H V)) ∧
    ((tr.flatMap fun p => strayed p.1 p.2 : List (Due H V)) : Multiset (Due H V)) = s.strayCalls + s.strayTasks := by
  induction h with
  | nil => exact ⟨rfl, rfl⟩
  | @snoc tr s e s' hrun hstep ih =>
    obtain ⟨hr, ha, -⟩ := inv_of_run hrun
    have hbalanced := balanced_step hr hstep
    have hstrays := strays_step ha hstep
    unfold Balanced at hbalanced
    unfold Strays at hstrays
    have hsnoc : ∀ f : State H V × Event H V → List (Due H V),
        (((tr ++ [(s, e)]).flatMap f : List (Due H V)) : Multiset (Due H V)) =
          (tr.flatMap f : List (Due H V)) + (f (s, e) : Multiset (Due H V)) := by
      intro f
      rw [List.flatMap_append, List.flatMap_singleton, Multiset.coe_add]
    rw [hsnoc, hsnoc, hsnoc, ih.1, ih.2]
    refine ⟨?_, hstrays.symm⟩
    rw [add_right_comm, ← hbalanced]
    abel

/-- Every call is for its handler or strays. -/
theorem calls_eq (s : State H V) :
    ((s.calls.map Call.due : List (Due H V)) : Multiset (Due H V)) = s.ownCalls + s.strayCalls := by
  unfold State.ownCalls State.strayCalls
  induction s.calls with
  | nil => rfl
  | cons c calls ih =>
    rw [List.map_cons, ← Multiset.cons_coe, ih]
    by_cases hc : c.iface = c.due.iface
    · simp [hc, ← Multiset.cons_coe]
    · simp [hc, ← Multiset.cons_coe]

theorem not_stray_of_mem {c : Call H V} (hc : c ∈ s.calls) (h : s.strayCalls = 0) : c.iface = c.due.iface := by
  by_contra hne
  have hmem : c.due ∈ s.strayCalls := by
    unfold State.strayCalls
    rw [Multiset.mem_coe, List.mem_filterMap]
    exact ⟨c, hc, if_neg hne⟩
  rw [h] at hmem
  exact Multiset.notMem_zero _ hmem

theorem strayCalls_eq_zero (h : ∀ c ∈ s.calls, c.iface = c.due.iface) : s.strayCalls = 0 := by
  unfold State.strayCalls
  rw [Multiset.coe_eq_zero, List.filterMap_eq_nil_iff]
  intro c hc
  rw [if_pos (h c hc)]

/-- Every handler is called once for each change that it is owed, as long as no step is disturbed; and a run
with a step that is has not kept that once no task is left. -/
theorem kept_iff_undisturbed (h : Run Step (start ifaces values) tr s) :
    ((∀ p ∈ tr, Undisturbed p.1 p.2) → Kept tr s) ∧
    (s.tasks = [] → Kept tr s → ∀ p ∈ tr, Undisturbed p.1 p.2) := by
  obtain ⟨howed, hstrayed⟩ := balance_of_run h
  obtain ⟨-, -, htold⟩ := inv_of_run h
  have hstep : ∀ p ∈ tr, Undisturbed p.1 p.2 ↔ lost p.1 p.2 = [] ∧ strayed p.1 p.2 = [] := by
    intro p hp
    obtain ⟨-, s'', -, -, hstep⟩ := h.prefix_of_mem p hp
    exact undisturbed_iff hstep
  have hcalls := calls_eq s
  constructor
  · intro hok
    have hlost : (tr.flatMap fun p => lost p.1 p.2) = [] :=
      List.flatMap_eq_nil_iff.2 fun p hp => ((hstep p hp).1 (hok p hp)).1
    have hnone : (tr.flatMap fun p => strayed p.1 p.2) = [] :=
      List.flatMap_eq_nil_iff.2 fun p hp => ((hstep p hp).1 (hok p hp)).2
    rw [hnone, Multiset.coe_nil] at hstrayed
    have hle : s.strayCalls ≤ 0 := by
      rw [hstrayed]
      exact Multiset.le_add_right _ _
    have hstray := Multiset.le_zero.1 hle
    rw [hlost, Multiset.coe_nil, add_zero] at howed
    rw [hstray, add_zero] at hcalls
    refine ⟨fun c hc => htold c hc (not_stray_of_mem hc hstray), ?_, ?_⟩
    · rw [← Multiset.coe_le, howed, hcalls]
      exact Multiset.le_add_right _ _
    · intro htasks
      have hown : s.ownTasks = 0 := by rw [State.ownTasks, htasks]; rfl
      rw [← Multiset.coe_eq_coe, howed, hcalls, hown, add_zero]
  · intro htasks hkept p hp
    have hstray : s.strayCalls = 0 := strayCalls_eq_zero fun c hc => (hkept.right c hc).1
    have hown : s.ownTasks = 0 := by rw [State.ownTasks, htasks]; rfl
    have hstrayTasks : s.strayTasks = 0 := by rw [State.strayTasks, htasks]; rfl
    have hall := Multiset.coe_eq_coe.2 (hkept.all htasks)
    rw [hstray, hstrayTasks, add_zero, Multiset.coe_eq_zero, List.flatMap_eq_nil_iff] at hstrayed
    rw [hcalls, hstray, howed, hown, add_zero] at hall
    have hlost := (add_left_cancel ((add_zero s.ownCalls).trans hall)).symm
    rw [Multiset.coe_eq_zero, List.flatMap_eq_nil_iff] at hlost
    exact (hstep p hp).2 ⟨hlost p hp, hstrayed p hp⟩

/-! ## Two handlers -/

/-- A property of another interface changes. -/
def otherIface : List (Event Nat Nat) :=
  [.subscribe 0 "Value" 7, .signal "b" (Dict.empty.insert "Value" 1) [], .begin 0]

/-- A property becomes invalid, and nothing has been read of the object before. -/
def nothingRead : List (Event Nat Nat) :=
  [.subscribe 0 "Value" 7, .signal "a" .empty ["Value"], .begin 0]

/-- The handler of `a` is told of `b`; and it is not told of its own property. -/
theorem not_kept_updateProps :
    (∃ tr s, Run Step (start ["a"] fun _ _ => some 0) tr s ∧ tr.map Prod.snd = otherIface ∧
      s.calls.map (fun c => (c.due.iface, c.iface, c.value)) = [("a", "b", 1)] ∧ ¬ Kept tr s) ∧
    ∃ tr s, Run Step (start ["a"] fun _ _ => some 0) tr s ∧ tr.map Prod.snd = nothingRead ∧
      s.tasks.isEmpty = true ∧ s.calls = [] ∧ ¬ Kept tr s := by
  constructor
  · obtain ⟨⟨tr, s⟩, hr, hc, c, hmem, hne⟩ : ∃ r ∈ runEvents next otherIface (start ["a"] fun _ _ => some 0),
        r.2.calls.map (fun c => (c.due.iface, c.iface, c.value)) = [("a", "b", 1)] ∧
        ∃ c ∈ r.2.calls, c.iface ≠ c.due.iface := by decide
    exact ⟨tr, s, run_of_events hr, events_of_runEvents hr, hc, fun h => hne (h.right c hmem).1⟩
  · obtain ⟨⟨tr, s⟩, hr, ht, hc, ho⟩ : ∃ r ∈ runEvents next nothingRead (start ["a"] fun _ _ => some 0),
        r.2.tasks.isEmpty = true ∧ r.2.calls = [] ∧ (r.1.flatMap fun p => owed p.1 p.2) ≠ [] := by decide
    refine ⟨tr, s, run_of_events hr, events_of_runEvents hr, ht, hc, fun h => ho ?_⟩
    have hall := h.all (List.isEmpty_iff.1 ht)
    rw [hc] at hall
    exact hall.symm.eq_nil

/-- The property changes, is read, and becomes invalid; so does one of another interface. -/
def readBefore : List (Event Nat Nat) :=
  [.subscribe 0 "Value" 7, .subscribe 1 "Other" 8, .getItem 0, .signal "a" (Dict.empty.insert "Value" 1) [], .begin 0,
    .change "a" "Value" (some 2), .signal "b" (Dict.empty.insert "Other" 3) [], .signal "a" .empty ["Value"], .begin 1,
    .begin 0, .answer 0]

theorem readBefore_kept : ∃ tr s, Run Step (start ["a", "b"] fun _ _ => some 0) tr s ∧
    tr.map Prod.snd = readBefore ∧
    s.calls.map (fun c => (c.due.handler, c.iface, c.value)) = [(7, "a", 1), (8, "b", 3), (7, "a", 2)] ∧ Kept tr s := by
  obtain ⟨⟨tr, s⟩, hr, hc, hok⟩ : ∃ r ∈ runEvents next readBefore (start ["a", "b"] fun _ _ => some 0),
      r.2.calls.map (fun c => (c.due.handler, c.iface, c.value)) = [(7, "a", 1), (8, "b", 3), (7, "a", 2)] ∧
      ∀ p ∈ r.1, Undisturbed p.1 p.2 := by decide
  have hrun := run_of_events hr
  exact ⟨tr, s, hrun, events_of_runEvents hr, hc, (kept_iff_undisturbed hrun).1 hok⟩

end LogSubmitter.Dbus.Properties

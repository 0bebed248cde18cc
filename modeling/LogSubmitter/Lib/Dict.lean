import Mathlib.Data.List.Induction
import Mathlib.Data.List.Nodup
/-!
# Insertion-ordered maps

What a Python `dict` is: each key has one value, an assignment replaces the
value in place or appends the key, and iteration follows first insertion.
`Assoc` has the operations on bare lists of pairs, `Dict` the maps themselves.
-/
namespace Lib

/-- Texts are compared character by character. -/
instance instLawfulBEqText : LawfulBEq (List Char) := inferInstance

namespace Assoc
variable {κ ν : Type} [DecidableEq κ]

/-- The value of the first pair with key `k`. -/
def get (k : κ) : List (κ × ν) → Option ν
  | [] => none
  | (a, v) :: l => if a = k then some v else get k l

/-- Replace the value of `k`, or append the pair. -/
def set (k : κ) (v : ν) : List (κ × ν) → List (κ × ν)
  | [] => [(k, v)]
  | (a, w) :: l => if a = k then (k, v) :: l else (a, w) :: set k v l

@[simp] theorem get_nil (k : κ) : get k ([] : List (κ × ν)) = none := rfl

theorem get_cons (k a : κ) (v : ν) (l : List (κ × ν)) :
    get k ((a, v) :: l) = if a = k then some v else get k l := rfl

@[simp] theorem get_set_self (k : κ) (v : ν) (l : List (κ × ν)) : get k (set k v l) = some v := by
  induction l with
  | nil => simp [set, get]
  | cons p l ih =>
    obtain ⟨a, w⟩ := p
    by_cases h : a = k <;> simp [set, get, h, ih]

theorem get_set_of_ne {k j : κ} (h : j ≠ k) (v : ν) (l : List (κ × ν)) :
    get j (set k v l) = get j l := by
  induction l with
  | nil => simp [set, get, Ne.symm h]
  | cons p l ih =>
    obtain ⟨a, w⟩ := p
    by_cases ha : a = k
    · subst ha; simp [set, get, Ne.symm h]
    · simp [set, get, ha, ih]

theorem set_set (k : κ) (v w : ν) (l : List (κ × ν)) : set k v (set k w l) = set k v l := by
  induction l with
  | nil => simp [set]
  | cons p l ih =>
    obtain ⟨a, u⟩ := p
    by_cases h : a = k <;> simp [set, h, ih]

theorem set_of_get {k : κ} {v : ν} {l : List (κ × ν)} (h : get k l = some v) : set k v l = l := by
  induction l with
  | nil => cases h
  | cons p l ih =>
    obtain ⟨a, w⟩ := p
    rw [get_cons] at h
    by_cases ha : a = k
    · rw [if_pos ha] at h
      cases h
      rw [set, if_pos ha, ha]
    · rw [if_neg ha] at h
      rw [set, if_neg ha, ih h]

theorem get_set (k j : κ) (v : ν) (l : List (κ × ν)) :
    get j (set k v l) = if j = k then some v else get j l := by
  by_cases h : j = k
  · subst h; simp
  · simp [h, get_set_of_ne h]

theorem mem_of_get {k : κ} {v : ν} {l : List (κ × ν)} (h : get k l = some v) : v ∈ l.map Prod.snd := by
  induction l with
  | nil => cases h
  | cons p l ih =>
    obtain ⟨a, w⟩ := p
    rw [get_cons] at h
    split at h
    · exact Option.some.inj h ▸ List.mem_cons_self
    · exact List.mem_cons_of_mem _ (ih h)

/-- Dropping keys leaves the values of the others. -/
theorem get_filter (q : κ → Bool) (k : κ) (l : List (κ × ν)) :
    get k (l.filter fun p => q p.1) = if q k then get k l else none := by
  induction l with
  | nil => simp
  | cons p l ih =>
    obtain ⟨a, w⟩ := p
    by_cases ha : a = k
    · subst ha
      cases hq : q a <;> simp [hq, get_cons, ih]
    · cases hq : q a <;> simp [hq, get_cons, ha, ih]

theorem get_map {μ : Type} (f : ν → μ) (k : κ) (l : List (κ × ν)) :
    get k (l.map fun p => (p.1, f p.2)) = (get k l).map f := by
  induction l with
  | nil => rfl
  | cons p l ih =>
    obtain ⟨a, w⟩ := p
    by_cases h : a = k <;> simp [get_cons, h, ih]

theorem map_set {μ : Type} (f : ν → μ) (k : κ) (v : ν) (l : List (κ × ν)) :
    (set k v l).map (fun p => (p.1, f p.2)) = set k (f v) (l.map fun p => (p.1, f p.2)) := by
  induction l with
  | nil => rfl
  | cons p l ih =>
    obtain ⟨a, w⟩ := p
    by_cases h : a = k <;> simp [set, h, ih]

theorem get_eq_none {k : κ} {l : List (κ × ν)} : get k l = none ↔ k ∉ l.map Prod.fst := by
  induction l with
  | nil => simp
  | cons p l ih =>
    obtain ⟨a, w⟩ := p
    by_cases h : a = k
    · simp [get, h]
    · simp [get, h, ih, Ne.symm h]

/-- A new key is appended. -/
theorem set_of_not_mem {k : κ} {l : List (κ × ν)} (h : k ∉ l.map Prod.fst) (v : ν) : set k v l = l ++ [(k, v)] := by
  induction l with
  | nil => rfl
  | cons p l ih =>
    obtain ⟨a, w⟩ := p
    simp only [List.map_cons, List.mem_cons, not_or] at h
    rw [set, if_neg (Ne.symm h.1), ih h.2, List.cons_append]

/-- With unique keys, the pairs are exactly the values `get` finds. -/
theorem get_eq_some {k : κ} {v : ν} {l : List (κ × ν)} (hn : (l.map Prod.fst).Nodup) :
    get k l = some v ↔ (k, v) ∈ l := by
  induction l with
  | nil => simp
  | cons p l ih =>
    obtain ⟨a, w⟩ := p
    simp only [List.map_cons, List.nodup_cons] at hn
    rw [get_cons, List.mem_cons, ← ih hn.2]
    by_cases h : a = k
    · subst h
      have hnone : get a l = none := get_eq_none.2 hn.1
      simp [hnone, eq_comm]
    · simp [h, Ne.symm h]

/-- An assignment keeps the order of the keys and appends a new one. -/
theorem keys_set (k : κ) (v : ν) (l : List (κ × ν)) :
    (set k v l).map Prod.fst = if k ∈ l.map Prod.fst then l.map Prod.fst else l.map Prod.fst ++ [k] := by
  induction l with
  | nil => simp [set]
  | cons p l ih =>
    obtain ⟨a, w⟩ := p
    by_cases h : a = k
    · subst h; simp [set]
    · simp only [set, if_neg h, List.map_cons, ih, List.mem_cons, Ne.symm h, false_or]
      split <;> simp

theorem nodup_set (k : κ) (v : ν) {l : List (κ × ν)} (h : (l.map Prod.fst).Nodup) :
    ((set k v l).map Prod.fst).Nodup := by
  rw [keys_set]
  split
  · exact h
  · rename_i hk
    exact List.nodup_append.2 ⟨h, by simp, fun a ha b hb => by
      rw [List.mem_singleton] at hb
      rintro rfl
      exact hk (hb ▸ ha)⟩

/-! ### A list of assignments -/

theorem get_append (k : κ) (l m : List (κ × ν)) : get k (l ++ m) = (get k l).or (get k m) := by
  induction l with
  | nil => simp
  | cons p l ih =>
    obtain ⟨a, w⟩ := p
    by_cases h : a = k <;> simp [get_cons, h, ih]

/-- The pairs of a list as assignments, one after the other: a value of a key replaces those before it. -/
def assigned (l : List (κ × ν)) : List (κ × ν) :=
  (l.map Prod.fst).eraseDups.filterMap fun k => (get k l.reverse).map fun v => (k, v)

/-- A list with unique keys is what its keys have. -/
theorem filterMap_get {l : List (κ × ν)} (hn : (l.map Prod.fst).Nodup) :
    (l.map Prod.fst).filterMap (fun k => (get k l).map fun v => (k, v)) = l := by
  have hget : ∀ p ∈ l, get p.1 l = some p.2 := fun p hp => (get_eq_some hn).2 hp
  calc (l.map Prod.fst).filterMap (fun k => (get k l).map fun v => (k, v))
      = l.filterMap (fun p => (get p.1 l).map fun v => (p.1, v)) := by rw [List.filterMap_map]; rfl
    _ = l.filterMap some := List.filterMap_congr fun p hp => by rw [hget p hp]; rfl
    _ = l := List.filterMap_some

theorem get_foldl_set (k : κ) (l init : List (κ × ν)) :
    get k (l.foldl (fun d p => set p.1 p.2 d) init) = (get k l.reverse).or (get k init) := by
  induction l generalizing init with
  | nil => simp
  | cons p l ih =>
    obtain ⟨a, w⟩ := p
    rw [List.foldl_cons, ih, List.reverse_cons, get_append, get_set]
    by_cases h : k = a
    · subst h; cases get k l.reverse <;> simp [get_cons]
    · simp [get_cons, h, Ne.symm h]

theorem nodup_foldl_set (l : List (κ × ν)) {init : List (κ × ν)} (hn : (init.map Prod.fst).Nodup) :
    ((l.foldl (fun d p => set p.1 p.2 d) init).map Prod.fst).Nodup := by
  induction l generalizing init with
  | nil => exact hn
  | cons p l ih => exact ih (nodup_set p.1 p.2 hn)

theorem keys_foldl_set (l : List (κ × ν)) :
    (l.foldl (fun d p => set p.1 p.2 d) []).map Prod.fst = (l.map Prod.fst).eraseDups := by
  induction l using List.reverseRecOn with
  | nil => rfl
  | append_singleton l p ih =>
    rw [List.foldl_append, List.foldl_cons, List.foldl_nil, keys_set, ih, List.map_append, List.eraseDups_append]
    by_cases h : p.1 ∈ l.map Prod.fst
    · have hdrop : [p.1].removeAll (l.map Prod.fst) = [] := by
        rw [List.removeAll, List.filter_eq_nil_iff]
        simpa using h
      rw [if_pos (List.mem_eraseDups.2 h), List.map_singleton, hdrop, List.eraseDups_nil, List.append_nil]
    · have hkeep : [p.1].removeAll (l.map Prod.fst) = [p.1] := by
        rw [List.removeAll, List.filter_eq_self]
        simpa using h
      rw [if_neg fun hm => h (List.mem_eraseDups.1 hm), List.map_singleton, hkeep]
      rfl

theorem foldl_set (l : List (κ × ν)) : l.foldl (fun d p => set p.1 p.2 d) [] = assigned l := by
  have hn : ((l.foldl (fun d p => set p.1 p.2 d) []).map Prod.fst).Nodup := nodup_foldl_set l List.nodup_nil
  refine (filterMap_get hn).symm.trans ?_
  rw [assigned, keys_foldl_set]
  simp [get_foldl_set]

theorem get_assigned (k : κ) (l : List (κ × ν)) : get k (assigned l) = get k l.reverse := by
  rw [← foldl_set, get_foldl_set, get_nil, Option.or_none]

/-- Further assignments change nothing if the last to each key is of the value it has. -/
theorem assigned_append_eq_iff (l m : List (κ × ν)) :
    assigned (l ++ m) = assigned l ↔ ∀ k v, get k m.reverse = some v → get k l.reverse = some v := by
  have hget : ∀ k, get k (l ++ m).reverse = (get k m.reverse).or (get k l.reverse) := fun k => by
    rw [List.reverse_append, get_append]
  constructor
  · intro h k v hk
    rw [← get_assigned, ← h, get_assigned, hget, hk, Option.some_or]
  · intro h
    have hsame : ∀ k, get k (l ++ m).reverse = get k l.reverse := by
      intro k
      rw [hget]
      cases hm : get k m.reverse with
      | none => rfl
      | some v => rw [h k v hm, Option.some_or]
    have hkeys : (m.map Prod.fst).removeAll (l.map Prod.fst) = [] := by
      rw [List.removeAll, List.filter_eq_nil_iff]
      intro k hk
      have hm : get k m.reverse ≠ none := by
        rw [Ne, get_eq_none, List.map_reverse, List.mem_reverse]
        exact fun hn => hn hk
      obtain ⟨v, hv⟩ := Option.ne_none_iff_exists'.1 hm
      have hl : k ∈ l.map Prod.fst := by
        by_contra hn
        rw [← List.mem_reverse, ← List.map_reverse, ← get_eq_none, h k v hv] at hn
        cases hn
      simpa using hl
    unfold assigned
    rw [List.map_append, List.eraseDups_append, hkeys, List.eraseDups_nil, List.append_nil]
    simp only [hsame]

end Assoc

/-- An insertion-ordered map with one value a key. -/
structure Dict (κ ν : Type) where
  items : List (κ × ν)
  nodup : (items.map Prod.fst).Nodup

namespace Dict
variable {κ ν : Type}

def empty : Dict κ ν := ⟨[], List.nodup_nil⟩

def keys (d : Dict κ ν) : List κ := d.items.map Prod.fst

theorem ext_items {d e : Dict κ ν} (h : d.items = e.items) : d = e := by
  cases d
  cases e
  cases h
  rfl

/-- Each value by a function of it. -/
def mapValues (f : ν → ν) (d : Dict κ ν) : Dict κ ν where
  items := d.items.map fun p => (p.1, f p.2)
  nodup := by simpa [Function.comp_def] using d.nodup

theorem keys_mapValues (f : ν → ν) (d : Dict κ ν) : (d.mapValues f).keys = d.keys := by
  simp [keys, mapValues, Function.comp_def]

@[simp] theorem keys_empty : (empty : Dict κ ν).keys = [] := rfl

/-- To a map with other values. -/
def map {μ : Type} (f : ν → μ) (d : Dict κ ν) : Dict κ μ where
  items := d.items.map fun p => (p.1, f p.2)
  nodup := by simpa [Function.comp_def] using d.nodup

@[simp] theorem map_empty {μ : Type} (f : ν → μ) : (empty : Dict κ ν).map f = empty := rfl

theorem keys_map {μ : Type} (f : ν → μ) (d : Dict κ ν) : (d.map f).keys = d.keys := by
  simp [keys, map, Function.comp_def]

instance [DecidableEq κ] [DecidableEq ν] : DecidableEq (Dict κ ν) := fun d e =>
  decidable_of_iff (d.items = e.items) ⟨ext_items, congrArg items⟩

variable [DecidableEq κ]

def get? (d : Dict κ ν) (k : κ) : Option ν := Assoc.get k d.items

def insert (d : Dict κ ν) (k : κ) (v : ν) : Dict κ ν :=
  ⟨Assoc.set k v d.items, Assoc.nodup_set k v d.nodup⟩

@[simp] theorem get?_empty (k : κ) : (empty : Dict κ ν).get? k = none := rfl

theorem get?_insert (d : Dict κ ν) (k j : κ) (v : ν) :
    (d.insert k v).get? j = if j = k then some v else d.get? j :=
  Assoc.get_set k j v d.items

@[simp] theorem get?_insert_self (d : Dict κ ν) (k : κ) (v : ν) : (d.insert k v).get? k = some v := by
  simp [get?_insert]

theorem get?_insert_of_ne (d : Dict κ ν) {k j : κ} (h : j ≠ k) (v : ν) :
    (d.insert k v).get? j = d.get? j := by
  simp [get?_insert, h]

theorem insert_insert (d : Dict κ ν) (k : κ) (v w : ν) : (d.insert k w).insert k v = d.insert k v := by
  simp only [insert, Assoc.set_set]

/-- To assign a key its own value changes nothing. -/
theorem insert_of_get? {d : Dict κ ν} {k : κ} {v : ν} (h : d.get? k = some v) : d.insert k v = d := by
  simp only [insert, Assoc.set_of_get h]

theorem get?_eq_none {d : Dict κ ν} {k : κ} : d.get? k = none ↔ k ∉ d.keys := Assoc.get_eq_none

theorem get?_eq_some {d : Dict κ ν} {k : κ} {v : ν} : d.get? k = some v ↔ (k, v) ∈ d.items :=
  Assoc.get_eq_some d.nodup

theorem mem_items_insert {d : Dict κ ν} {k : κ} {v : ν} {p : κ × ν} (h : p ∈ (d.insert k v).items) :
    p = (k, v) ∨ p ∈ d.items := by
  obtain ⟨j, w⟩ := p
  rw [← get?_eq_some, get?_insert] at h
  split at h
  · next hj => exact .inl (by rw [hj, ← Option.some.inj h])
  · exact .inr (get?_eq_some.1 h)

/-- `del d[k]`, if the key is there. -/
def erase (d : Dict κ ν) (k : κ) : Dict κ ν :=
  ⟨d.items.filter (·.1 ≠ k), (List.filter_sublist.map Prod.fst).nodup d.nodup⟩

theorem get?_erase_of_ne (d : Dict κ ν) {k j : κ} (h : j ≠ k) : (d.erase k).get? j = d.get? j := by
  refine Option.ext fun v => ?_
  rw [get?_eq_some, get?_eq_some, erase, List.mem_filter]
  simp [h]

theorem get?_erase_self (d : Dict κ ν) (k : κ) : (d.erase k).get? k = none := by
  rw [get?_eq_none, keys, erase]
  simp

theorem keys_insert (d : Dict κ ν) (k : κ) (v : ν) :
    (d.insert k v).keys = if k ∈ d.keys then d.keys else d.keys ++ [k] :=
  Assoc.keys_set k v d.items

theorem keys_insert_of_not_mem {d : Dict κ ν} {k : κ} (h : k ∉ d.keys) (v : ν) :
    (d.insert k v).keys = d.keys ++ [k] := by
  rw [keys_insert, if_neg h]

theorem keys_erase (d : Dict κ ν) (k : κ) : (d.erase k).keys = d.keys.filter (· ≠ k) := by
  simp [keys, erase, List.filter_map, Function.comp_def]

theorem get?_mapValues (f : ν → ν) (d : Dict κ ν) (k : κ) : (d.mapValues f).get? k = (d.get? k).map f :=
  Assoc.get_map f k d.items

theorem get?_map {μ : Type} (f : ν → μ) (d : Dict κ ν) (k : κ) : (d.map f).get? k = (d.get? k).map f :=
  Assoc.get_map f k d.items

theorem map_insert {μ : Type} (f : ν → μ) (d : Dict κ ν) (k : κ) (v : ν) :
    (d.insert k v).map f = (d.map f).insert k (f v) := by
  simp only [map, insert, Assoc.map_set]

/-! ## Assigning a list of pairs -/

section
variable {μ : Type} {f : μ → κ}

theorem get?_foldl_insert_of_ne {l : List (μ × ν)} {j : κ} (h : ∀ p ∈ l, j ≠ f p.1) (d : Dict κ ν) :
    (l.foldl (fun d p => d.insert (f p.1) p.2) d).get? j = d.get? j := by
  induction l generalizing d with
  | nil => rfl
  | cons p l ih =>
    rw [List.foldl_cons, ih fun q hq => h q (List.mem_cons_of_mem _ hq), get?_insert_of_ne d (h p List.mem_cons_self)]

/-- With unique keys, each value of the list is found. -/
theorem get?_foldl_insert (hf : Function.Injective f) {l : List (μ × ν)} (hn : (l.map Prod.fst).Nodup) {p : μ × ν}
    (hp : p ∈ l) (d : Dict κ ν) : (l.foldl (fun d p => d.insert (f p.1) p.2) d).get? (f p.1) = some p.2 := by
  induction l generalizing d with
  | nil => cases hp
  | cons q l ih =>
    rw [List.map_cons, List.nodup_cons] at hn
    rw [List.foldl_cons]
    rcases List.mem_cons.1 hp with rfl | hp
    · rw [get?_foldl_insert_of_ne fun q hq he => hn.1 (List.mem_map.2 ⟨q, hq, (hf he).symm⟩), get?_insert_self]
    · exact ih hn.2 hp _

end

/-- The order of the items does not matter for the values. -/
theorem get?_congr_perm {d e : Dict κ ν} (h : d.items.Perm e.items) (k : κ) : d.get? k = e.get? k := by
  apply Option.ext
  intro v
  rw [get?_eq_some, get?_eq_some, h.mem_iff]

/-- With keys that are all new, the list is appended. -/
theorem items_foldl_insert {l : List (κ × ν)} {d : Dict κ ν} (hn : (d.keys ++ l.map Prod.fst).Nodup) :
    (l.foldl (fun d p => d.insert p.1 p.2) d).items = d.items ++ l := by
  induction l generalizing d with
  | nil => simp
  | cons p l ih =>
    have hp : p.1 ∉ d.keys := by
      intro hm
      exact List.disjoint_of_nodup_append hn hm (by simp)
    have hitems : (d.insert p.1 p.2).items = d.items ++ [p] := Assoc.set_of_not_mem hp p.2
    rw [List.foldl_cons, ih, hitems, List.append_assoc, List.singleton_append]
    rw [keys_insert_of_not_mem hp, List.append_assoc, List.singleton_append]
    exact hn

/-- Inserted one by one, the values of a map make up the map again. -/
theorem foldl_insert_map {μ : Type} (f : ν → μ) (d : Dict κ ν) :
    d.items.foldl (fun e p => e.insert p.1 (f p.2)) .empty = d.map f := by
  have hn : ((empty : Dict κ μ).keys ++ (d.map f).items.map Prod.fst).Nodup := (d.map f).nodup
  have hitems := items_foldl_insert hn
  unfold map at hitems
  rw [List.foldl_map] at hitems
  exact ext_items hitems

end Dict

end Lib

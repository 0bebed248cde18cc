import Mathlib.Data.List.Perm.Basic
/-!
# Entries of lists

A state often has a list with an entry for each party. What its entries are after one has
come in, has changed or has gone, and what a view of the list is then.
-/
namespace Lib.Entries

variable {α β : Type} {l : List α} {new a : α} {i j : Nat}

/-- After an entry has come in. -/
theorem getElem?_concat_eq_some (h : (l ++ [new])[i]? = some a) : l[i]? = some a ∨ (i = l.length ∧ a = new) := by
  rw [List.getElem?_append] at h
  split at h
  · exact .inl h
  · next hi =>
    rw [List.getElem?_singleton] at h
    split at h
    · exact .inr ⟨by omega, (Option.some.inj h).symm⟩
    · cases h

/-- After one has changed. -/
theorem getElem?_set_eq_some (h : (l.set i new)[j]? = some a) : (j = i ∧ a = new) ∨ (j ≠ i ∧ l[j]? = some a) := by
  rw [List.getElem?_set] at h
  split at h
  · next hij =>
    split at h
    · exact .inl ⟨hij.symm, (Option.some.inj h).symm⟩
    · cases h
  · next hij => exact .inr ⟨Ne.symm hij, h⟩

/-- What holds of all entries still does after one has changed, if it does of that one. -/
theorem forall_set {P : Nat → α → Prop} (h : ∀ (j : Nat) (a : α), l[j]? = some a → P j a) (hnew : P i new) (j : Nat)
    (a : α) (ha : (l.set i new)[j]? = some a) : P j a := by
  rcases getElem?_set_eq_some ha with ⟨rfl, rfl⟩ | ⟨-, ha⟩
  · exact hnew
  · exact h j a ha

theorem forall_mem_set {P : α → Prop} (h : ∀ a ∈ l, P a) (hnew : P new) : ∀ a ∈ l.set i new, P a := by
  intro a ha
  rcases List.mem_or_eq_of_mem_set ha with ha | rfl
  · exact h a ha
  · exact hnew

/-- What is seen of an entry that goes was there. -/
theorem filterMap_eraseIdx (f : α → Option β) (h : l[i]? = some a) :
    (l.filterMap f).Perm ((f a).toList ++ (l.eraseIdx i).filterMap f) := by
  obtain ⟨hi, rfl⟩ := List.getElem?_eq_some_iff.1 h
  have hperm := ((List.getElem_cons_eraseIdx_perm hi).filterMap f).symm
  rw [List.filterMap_cons] at hperm
  cases hf : f l[i] with
  | none => simpa [hf] using hperm
  | some b => simpa [hf] using hperm

/-- A change that is not seen. -/
theorem filterMap_set (f : α → Option β) (h : l[i]? = some a) (hf : f new = f a) :
    (l.set i new).filterMap f = l.filterMap f := by
  induction l generalizing i with
  | nil => cases h
  | cons c l ih =>
    cases i with
    | zero =>
      cases h
      simp only [List.set_cons_zero, List.filterMap_cons, hf]
    | succ i => simp only [List.set_cons_succ, List.filterMap_cons, ih h]

end Lib.Entries

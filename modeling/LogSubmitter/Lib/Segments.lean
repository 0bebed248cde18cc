import Mathlib.Data.List.Induction
import Mathlib.Data.List.SplitBy
/-!
# Segments

A list is cut before each element that starts a segment. A loop over it knows the
segments that are closed and the current one.
-/
namespace Lib.Segments

variable {α : Type}

/-- The list, cut before each element that starts a segment. -/
def cut (starts : α → Bool) (l : List α) : List (List α) := l.splitBy fun _ a => !starts a

/-- The segments before the last. -/
def closed (starts : α → Bool) (l : List α) : List (List α) := (cut starts l).dropLast

/-- The last segment. -/
def current (starts : α → Bool) (l : List α) : List α := (cut starts l).getLast?.getD []

variable {starts : α → Bool}

@[simp] theorem cut_nil : cut starts [] = [] := rfl

@[simp] theorem closed_nil : closed starts [] = [] := rfl

@[simp] theorem current_nil : current starts [] = [] := rfl

theorem cut_eq_nil {l : List α} : cut starts l = [] ↔ l = [] := List.splitBy_eq_nil

theorem cut_eq {l : List α} (h : l ≠ []) : cut starts l = closed starts l ++ [current starts l] := by
  have hne : cut starts l ≠ [] := fun hn => h (cut_eq_nil.1 hn)
  unfold closed current
  rw [List.getLast?_eq_some_getLast hne, Option.getD_some, List.dropLast_append_getLast]

/-- What starts a segment begins anew. -/
theorem cut_append_start (l : List α) {a : α} (h : starts a = true) (m : List α) :
    cut starts (l ++ a :: m) = cut starts l ++ cut starts (a :: m) := by
  apply List.splitBy_append_cons
  intro x _
  simp [h]

/-- One segment, where nothing after the first element starts one. -/
theorem cut_cons_others (a : α) {m : List α} (h : ∀ b ∈ m, starts b = false) : cut starts (a :: m) = [a :: m] := by
  apply List.splitBy_of_isChain (List.cons_ne_nil a m)
  induction m generalizing a with
  | nil => simp
  | cons b m ih =>
    simp only [List.mem_cons, forall_eq_or_imp] at h
    exact List.isChain_cons_cons.2 ⟨by simp [h.1], ih b h.2⟩

theorem closed_append_cons (l : List α) {a : α} (ha : starts a = true ∨ l = []) {m : List α}
    (h : ∀ b ∈ m, starts b = false) :
    closed starts (l ++ a :: m) = cut starts l ∧ current starts (l ++ a :: m) = a :: m := by
  have hcut : cut starts (l ++ a :: m) = cut starts l ++ [a :: m] := by
    rcases ha with ha | rfl
    · rw [cut_append_start l ha, cut_cons_others a h]
    · simpa using cut_cons_others a h
  unfold closed current
  simp [hcut]

/-- Every list ends in a segment. -/
theorem exists_current {l : List α} (h : l ≠ []) :
    ∃ k a m, l = k ++ a :: m ∧ (starts a = true ∨ k = []) ∧ ∀ b ∈ m, starts b = false := by
  induction l using List.reverseRecOn with
  | nil => exact absurd rfl h
  | append_singleton l b ih =>
    by_cases hb : starts b = true
    · exact ⟨l, b, [], rfl, .inl hb, by simp⟩
    · by_cases hl : l = []
      · exact ⟨[], b, [], by simp [hl], .inr rfl, by simp⟩
      · obtain ⟨k, a, m, rfl, ha, hm⟩ := ih hl
        refine ⟨k, a, m ++ [b], by simp, ha, ?_⟩
        intro c hc
        rcases List.mem_append.1 hc with hc | hc
        · exact hm c hc
        · simpa [List.mem_singleton.1 hc] using hb

/-- What starts no segment goes on with the last one. -/
theorem append_others (l : List α) {m : List α} (h : ∀ b ∈ m, starts b = false) :
    closed starts (l ++ m) = closed starts l ∧ current starts (l ++ m) = current starts l ++ m := by
  by_cases hl : l = []
  · subst hl
    cases m with
    | nil => simp
    | cons b m =>
      simp only [List.mem_cons, forall_eq_or_imp] at h
      simpa using closed_append_cons [] (.inr rfl) h.2
  · obtain ⟨k, a, n, rfl, ha, hn⟩ := exists_current hl
    have hall : ∀ b ∈ n ++ m, starts b = false := by
      intro b hb
      rcases List.mem_append.1 hb with hb | hb
      · exact hn b hb
      · exact h b hb
    have hlong := closed_append_cons k ha hall
    have hshort := closed_append_cons k ha hn
    rw [List.append_assoc, List.cons_append, hlong.1, hlong.2, hshort.1, hshort.2]
    exact ⟨rfl, rfl⟩

end Lib.Segments

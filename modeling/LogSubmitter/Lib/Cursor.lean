import Mathlib.Data.List.Induction
import Mathlib.Data.List.TakeWhile
import Mathlib.Tactic.Conv
/-!
# Reading a growing list by cursor

A reader keeps the key of the last element it has seen and asks for what comes
after it. Keys are unique, so the cursor cuts the list in two.
-/
namespace Lib.Cursor

variable {α κ : Type} {key : α → κ}

/-- The cursor is the key of an element. -/
def Valid (key : α → κ) (cursor : Option κ) (l : List α) : Prop := ∀ c, cursor = some c → c ∈ l.map key

theorem Valid.append {cursor : Option κ} {l : List α} (h : Valid key cursor l) (r : List α) :
    Valid key cursor (l ++ r) := fun c hc => by
  rw [List.map_append]
  exact List.mem_append_left _ (h c hc)

theorem Valid.of_prefix {cursor : Option κ} {l l' : List α} (h : Valid key cursor l) (hp : l <+: l') :
    Valid key cursor l' := by
  obtain ⟨r, rfl⟩ := hp
  exact h.append r

theorem valid_none (l : List α) : Valid key none l := fun _ h => by cases h

/-- The last element a filter lets through, and what follows it. -/
theorem split_last {p : α → Bool} {l : List α} {e : α} (he : e ∈ l) (hp : p e = true) :
    ∃ a last b, l = a ++ last :: b ∧ (l.filter p).getLast? = some last ∧ ∀ x ∈ b, p x = false := by
  induction l using List.reverseRecOn with
  | nil => cases he
  | append_singleton l x ih =>
    by_cases hx : p x = true
    · exact ⟨l, x, [], rfl, by simp [hx], by simp⟩
    · have he' : e ∈ l := by
        rcases List.mem_append.1 he with h | h
        · exact h
        · exact absurd (List.mem_singleton.1 h ▸ hp) hx
      obtain ⟨a, last, b, rfl, hlast, hb⟩ := ih he'
      refine ⟨a, last, b ++ [x], by simp, by simpa [hx] using hlast, fun y hy => ?_⟩
      rcases List.mem_append.1 hy with h | h
      · exact hb y h
      · rw [List.mem_singleton.1 h]
        simpa using hx

variable [DecidableEq κ] (key)

/-- The elements after the one with the cursor as its key, or all of them. -/
def after (cursor : Option κ) (l : List α) : List α :=
  match cursor with
  | none => l
  | some c => (l.dropWhile fun a => key a ≠ c).drop 1

/-- The elements up to the cursor. -/
def upTo (cursor : Option κ) (l : List α) : List α := l.take (l.length - (after key cursor l).length)

@[simp] theorem after_none (l : List α) : after key none l = l := rfl

theorem after_suffix (cursor : Option κ) (l : List α) : after key cursor l <:+ l := by
  cases cursor with
  | none => exact List.suffix_refl l
  | some c => exact (List.drop_suffix _ _).trans (List.dropWhile_suffix _)

theorem upTo_append_after (cursor : Option κ) (l : List α) : upTo key cursor l ++ after key cursor l = l := by
  obtain ⟨r, hr⟩ := after_suffix key cursor l
  have hlen : l.length - (after key cursor l).length = r.length := by
    have := congrArg List.length hr
    rw [List.length_append] at this
    omega
  have htake : l.take r.length = r := by
    conv_lhs => rw [← hr]
    exact List.take_left' rfl
  rw [upTo, hlen, htake, hr]

variable {key}

/-- After the first element with its key comes what follows it. -/
theorem after_split {a : List α} {e : α} {b : List α} (h : key e ∉ a.map key) :
    after key (some (key e)) (a ++ e :: b) = b := by
  have hall : ∀ x ∈ a, key x ≠ key e := fun x hx he => h (he ▸ List.mem_map_of_mem hx)
  have hdrop : (a ++ e :: b).dropWhile (fun x => key x ≠ key e) = e :: b := by
    rw [List.dropWhile_append_of_pos (by simpa using hall)]
    simp
  rw [after, hdrop, List.drop_one, List.tail_cons]

/-- A valid cursor cuts a longer list at the same place. -/
theorem after_append {cursor : Option κ} {l : List α} (h : Valid key cursor l) (r : List α) :
    after key cursor (l ++ r) = after key cursor l ++ r := by
  cases cursor with
  | none => rfl
  | some c =>
    obtain ⟨e, he, rfl⟩ := List.mem_map.1 (h c rfl)
    have hne : l.dropWhile (fun x => key x ≠ key e) ≠ [] := fun hnil => by
      have := List.dropWhile_eq_nil_iff.1 hnil e he
      simp at this
    obtain ⟨x, xs, hx⟩ := List.exists_cons_of_ne_nil hne
    simp only [after, List.dropWhile_append, hx, List.isEmpty_cons, Bool.false_eq_true, if_false, List.cons_append,
      List.drop_one, List.tail_cons]

/-- What a valid cursor has before it stays when the list grows. -/
theorem upTo_append {cursor : Option κ} {l : List α} (h : Valid key cursor l) (r : List α) :
    upTo key cursor (l ++ r) = upTo key cursor l := by
  have hr := upTo_append_after key cursor (l ++ r)
  rw [after_append h, ← List.append_assoc, List.append_left_inj] at hr
  exact List.append_cancel_right (hr.trans (upTo_append_after key cursor l).symm)

/-- A cursor that something comes after is one of an element. -/
theorem valid_of_mem_after {cursor : Option κ} {l : List α} {x : α} (h : x ∈ after key cursor l) :
    Valid key cursor l := by
  rintro c rfl
  by_contra hn
  have hall : ∀ y ∈ l, decide (key y ≠ c) = true := fun y hy =>
    decide_eq_true fun he => hn (he ▸ List.mem_map_of_mem hy)
  rw [after, List.dropWhile_eq_nil_iff.2 hall, List.drop_nil] at h
  cases h

/-- Reading up to an element after the cursor. -/
theorem after_read {cursor : Option κ} {l a : List α} {e : α} {b : List α} (hn : (l.map key).Nodup)
    (h : after key cursor l = a ++ e :: b) :
    after key (some (key e)) l = b ∧ upTo key (some (key e)) l = upTo key cursor l ++ (a ++ [e]) := by
  have hl : l = (upTo key cursor l ++ a) ++ e :: b := by
    conv_lhs => rw [← upTo_append_after key cursor l, h]
    simp
  have hnot : key e ∉ (upTo key cursor l ++ a).map key := by
    rw [hl, List.map_append, List.nodup_append] at hn
    exact fun hm => hn.2.2 _ hm _ (by simp) rfl
  have ha : after key (some (key e)) l = b := by
    conv_lhs => rw [hl]
    exact after_split hnot
  refine ⟨ha, ?_⟩
  have := upTo_append_after key (some (key e)) l
  rw [ha] at this
  refine List.append_cancel_right (this.trans (hl.trans ?_))
  simp

/-- What is read and what is left have no key in common. -/
theorem upTo_disjoint {cursor : Option κ} {l : List α} (hn : (l.map key).Nodup) :
    ∀ x ∈ upTo key cursor l, ∀ y ∈ after key cursor l, key x ≠ key y := by
  rw [← upTo_append_after key cursor l, List.map_append, List.nodup_append] at hn
  exact fun x hx y hy => hn.2.2 _ (List.mem_map_of_mem hx) _ (List.mem_map_of_mem hy)

end Lib.Cursor

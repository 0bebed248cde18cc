import Mathlib.Logic.Basic
/-!
# Runs of a labelled step relation

A system is a relation `step s e s'`: in state `s` the event `e` leads to
`s'`. A run is recorded with the state and the event of each of its steps, so
that a theorem can ask something of every step taken and promise something of
every state reached.
-/
namespace Lib

variable {S E : Type}

/-- Runs from `s` to the last state, with the pre-state and event of each step. -/
inductive Run (step : S → E → S → Prop) (s : S) : List (S × E) → S → Prop
  | nil : Run step s [] s
  | snoc {tr s' e s''} : Run step s tr s' → step s' e s'' → Run step s (tr ++ [(s', e)]) s''

namespace Run
variable {step : S → E → S → Prop}

/-- An invariant kept by every step that meets `ok` holds after every run whose
steps all meet `ok`. -/
theorem inv {ok : S → E → Prop} (I : S → Prop)
    (hs : ∀ s e s', I s → ok s e → step s e s' → I s') {s s' : S} {tr : List (S × E)}
    (h : Run step s tr s') (h0 : I s) (hok : ∀ p ∈ tr, ok p.1 p.2) : I s' := by
  induction h with
  | nil => exact h0
  | @snoc tr s' e s'' _ ht ih =>
    exact hs _ _ _ (ih fun p hp => hok p (List.mem_append_left _ hp)) (hok (s', e) (by simp)) ht

/-- An invariant kept by every step holds after every run. -/
theorem always (I : S → Prop) (hs : ∀ s e s', I s → step s e s' → I s') {s s' : S} {tr : List (S × E)}
    (h : Run step s tr s') (h0 : I s) : I s' :=
  @inv S E step (fun _ _ => True) I (fun s e s' hi _ ht => hs s e s' hi ht) _ _ _ h h0 fun _ _ => trivial

/-- The states a run passes through are reached by its prefixes. -/
theorem prefix_of_mem {s s' : S} {tr : List (S × E)} (h : Run step s tr s') :
    ∀ p ∈ tr, ∃ tr' s'', tr' <+: tr ∧ Run step s tr' p.1 ∧ step p.1 p.2 s'' := by
  induction h with
  | nil => simp
  | @snoc tr s' e s'' hr ht ih =>
    intro p hp
    rcases List.mem_append.1 hp with hp | hp
    · obtain ⟨tr', s3, hpre, hr', ht'⟩ := ih p hp
      exact ⟨tr', s3, hpre.trans (List.prefix_append _ _), hr', ht'⟩
    · rw [List.mem_singleton] at hp
      subst hp
      exact ⟨tr, s'', List.prefix_append _ _, hr, ht⟩

/-- A run through a step is a run to it and a run from it. -/
theorem split {s s' s'' : S} {e : E} {tr tr' : List (S × E)} (h : Run step s (tr ++ (s', e) :: tr') s'') :
    ∃ s₁, Run step s tr s' ∧ step s' e s₁ ∧ Run step s₁ tr' s'' := by
  generalize hl : tr ++ (s', e) :: tr' = l at h
  induction h generalizing tr' with
  | nil => simp at hl
  | @snoc l s₁ e₁ s₂ hr ht ih =>
    rcases List.eq_nil_or_concat tr' with rfl | ⟨tr₁, x, rfl⟩
    · obtain ⟨rfl, hx⟩ := List.append_inj' hl rfl
      cases hx
      exact ⟨s₂, hr, ht, .nil⟩
    · rw [List.concat_eq_append, ← List.cons_append, ← List.append_assoc] at hl
      obtain ⟨hl', hx⟩ := List.append_inj' hl rfl
      cases hx
      obtain ⟨s₃, h₁, h₂, h₃⟩ := ih hl'
      exact ⟨s₃, h₁, h₂, List.concat_eq_append ▸ h₃.snoc ht⟩

theorem trans {s s' s'' : S} {tr tr' : List (S × E)} (h : Run step s tr s') (h' : Run step s' tr' s'') :
    Run step s (tr ++ tr') s'' := by
  induction h' with
  | nil => simpa using h
  | snoc _ ht ih => rw [← List.append_assoc]; exact ih.snoc ht

end Run

/-! ## Systems given by a function -/

/-- The states and events of `evs` from `s`, and the last state, if every step is possible. -/
def runEvents (next : E → S → Option S) : List E → S → Option (List (S × E) × S)
  | [], s => some ([], s)
  | e :: es, s =>
    match next e s with
    | none => none
    | some s' => (runEvents next es s').map fun r => ((s, e) :: r.1, r.2)

theorem Run.of_cons {step : S → E → S → Prop} {s s' s'' : S} {e : E} {tr : List (S × E)} (h : step s e s')
    (hr : Run step s' tr s'') : Run step s ((s, e) :: tr) s'' := by
  simpa using (Run.nil.snoc h).trans hr

/-- Evaluating the events of a run gives that run, and its trace has the events. -/
theorem runEvents_eq_some {next : E → S → Option S} {evs : List E} {s s' : S} {tr : List (S × E)}
    (h : runEvents next evs s = some (tr, s')) :
    Run (fun s e s' => next e s = some s') s tr s' ∧ tr.map Prod.snd = evs := by
  induction evs generalizing s tr with
  | nil =>
    simp only [runEvents, Option.some.injEq, Prod.mk.injEq] at h
    obtain ⟨rfl, rfl⟩ := h
    exact ⟨.nil, rfl⟩
  | cons e es ih =>
    simp only [runEvents] at h
    split at h
    · cases h
    · rename_i s1 hs1
      obtain ⟨r, hr, he⟩ := Option.map_eq_some_iff.1 h
      simp only [Prod.mk.injEq] at he
      obtain ⟨rfl, rfl⟩ := he
      obtain ⟨hrun, hevents⟩ := ih hr
      exact ⟨Run.of_cons hs1 hrun, congrArg (e :: ·) hevents⟩

theorem run_of_events {next : E → S → Option S} {evs : List E} {s s' : S} {tr : List (S × E)}
    (h : runEvents next evs s = some (tr, s')) : Run (fun s e s' => next e s = some s') s tr s' :=
  (runEvents_eq_some h).1

theorem events_of_runEvents {next : E → S → Option S} {evs : List E} {s s' : S} {tr : List (S × E)}
    (h : runEvents next evs s = some (tr, s')) : tr.map Prod.snd = evs := (runEvents_eq_some h).2

end Lib

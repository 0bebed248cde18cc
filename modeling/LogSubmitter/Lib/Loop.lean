import Mathlib.Logic.Relation
/-!
# Loops that need not end

A round of a loop ends it or leads to another state. A loop is run with a bound on its
rounds, and what it yields is the same under every bound that is enough.
-/
namespace Lib.Loop

open Relation

variable {σ β : Type}

/-- What a round of a loop comes to. -/
inductive Round (σ β : Type) where
  | again (s : σ)
  | done (b : β)

/-- The loop, `none` where the bound is not enough. -/
def run (body : σ → Round σ β) : Nat → σ → Option β
  | 0, _ => none
  | fuel + 1, s =>
    match body s with
    | .again s' => run body fuel s'
    | .done b => some b

/-- The loop ends, and this comes of it. -/
def Yields (body : σ → Round σ β) (s : σ) (b : β) : Prop := ∃ fuel, run body fuel s = some b

/-- A round leads from a state to another. -/
def Again (body : σ → Round σ β) (s s' : σ) : Prop := body s = .again s'

variable {body : σ → Round σ β} {s s' : σ} {b c : β}

theorem yields_of_done (h : body s = .done b) : Yields body s c ↔ c = b := by
  constructor
  · rintro ⟨fuel, hrun⟩
    cases fuel with
    | zero => cases hrun
    | succ fuel =>
      rw [run, h] at hrun
      exact (Option.some.inj hrun).symm
  · rintro rfl
    refine ⟨1, ?_⟩
    rw [run, h]

theorem yields_of_again (h : Again body s s') : Yields body s c ↔ Yields body s' c := by
  have hrun : ∀ fuel, run body (fuel + 1) s = run body fuel s' := by
    intro fuel
    rw [run, h]
  constructor
  · rintro ⟨fuel, hc⟩
    cases fuel with
    | zero => cases hc
    | succ fuel => exact ⟨fuel, (hrun fuel).symm.trans hc⟩
  · rintro ⟨fuel, hc⟩
    exact ⟨fuel + 1, (hrun fuel).trans hc⟩

theorem yields_of_steps (h : ReflTransGen (Again body) s s') : Yields body s c ↔ Yields body s' c := by
  induction h with
  | refl => exact Iff.rfl
  | tail _ hstep ih => exact ih.trans (yields_of_again hstep)

/-- A loop that ends does so in a state that it reaches. -/
theorem yields_iff : Yields body s b ↔ ∃ t, ReflTransGen (Again body) s t ∧ body t = .done b := by
  constructor
  · rintro ⟨fuel, h⟩
    induction fuel generalizing s with
    | zero => cases h
    | succ fuel ih =>
      unfold run at h
      cases hbody : body s with
      | done b' =>
        rw [hbody] at h
        exact ⟨s, .refl, by rw [hbody, Option.some.inj h]⟩
      | again s' =>
        rw [hbody] at h
        obtain ⟨t, hsteps, ht⟩ := ih h
        exact ⟨t, .head hbody hsteps, ht⟩
  · rintro ⟨t, hsteps, ht⟩
    exact (yields_of_steps hsteps).2 ((yields_of_done ht).2 rfl)

/-- Only one thing comes of a loop. -/
theorem Yields.unique (hb : Yields body s b) (hc : Yields body s c) : b = c := by
  obtain ⟨t, hsteps, ht⟩ := yields_iff.1 hb
  exact ((yields_of_done ht).1 ((yields_of_steps hsteps).1 hc)).symm

/-- A loop that comes back to a state does not end. -/
theorem not_yields_of_cycle (h : TransGen (Again body) s s) : ¬Yields body s b := by
  rintro ⟨fuel, hrun⟩
  -- The bound decreases along the cycle.
  induction fuel using Nat.strongRecOn generalizing s with
  | ind fuel ih =>
    cases fuel with
    | zero => cases hrun
    | succ fuel =>
      obtain ⟨t, hstep, hback⟩ := TransGen.head'_iff.1 h
      rw [run, hstep] at hrun
      exact ih fuel (Nat.lt_succ_self fuel) (TransGen.tail' hback hstep) hrun

end Lib.Loop

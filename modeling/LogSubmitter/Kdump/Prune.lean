import LogSubmitter.Kdump.Submit
import Mathlib.Data.List.SplitBy
/-!
# Stacks that repeat

A kernel that panics in an oops prints the same stack twice, the registers not always
with it. `submit` keeps one trace of each run of equal stacks.
-/
namespace LogSubmitter.Kdump

/-! ## Runs -/

def sameFrames (a b : Trace) : Bool := a.frames = b.frames

/-- The longest runs of neighbours with equal frames. -/
def runs (stack : List Trace) : List (List Trace) := stack.splitBy sameFrames

/-- The first trace with registers, else the first. -/
def representative (run : List Trace) : Option Trace := (run.find? (·.registers ≠ [])).or run.head?

/-- A list of traces with the frames of `last`, which represents them. -/
structure Represents (last : Trace) (run : List Trace) : Prop where
  found : representative run = some last
  frames : ∀ t ∈ run, t.frames = last.frames

theorem isChain_of_frames {frames : List Frame} {run : List Trace} (h : ∀ t ∈ run, t.frames = frames) :
    run.IsChain fun a b => sameFrames a b := by
  induction run with
  | nil => simp
  | cons a run ih =>
    simp only [List.mem_cons, forall_eq_or_imp] at h
    cases run with
    | nil => simp
    | cons b run =>
      have hb : b.frames = frames := h.2 b List.mem_cons_self
      exact List.isChain_cons_cons.2 ⟨by simp [sameFrames, h.1, hb], ih h.2⟩

namespace Represents

theorem ne_nil {last : Trace} {run : List Trace} (h : Represents last run) : run ≠ [] := by
  rintro rfl
  exact absurd h.found (by simp [representative])

theorem single (t : Trace) : Represents t [t] where
  found := by by_cases h : t.registers = [] <;> simp [representative, h]
  frames := by simp

theorem runs_eq {last : Trace} {run : List Trace} (h : Represents last run) : runs run = [run] :=
  List.splitBy_of_isChain h.ne_nil (isChain_of_frames h.frames)

/-- Another stack begins another run. -/
theorem runs_cons {last t : Trace} {run : List Trace} (h : Represents last run) (ht : t.frames ≠ last.frames)
    (stack : List Trace) : runs (run ++ t :: stack) = run :: runs (t :: stack) := by
  have hsplit : runs (run ++ t :: stack) = runs run ++ runs (t :: stack) := by
    apply List.splitBy_append_cons
    intro x hx
    have hframes : x.frames = last.frames := h.frames x (List.mem_of_getLast? hx)
    simp [sameFrames, hframes, Ne.symm ht]
  rw [hsplit, h.runs_eq, List.singleton_append]

/-- The same stack again, with registers for the first time. -/
theorem replace {last t : Trace} {run : List Trace} (h : Represents last run) (ht : t.frames = last.frames)
    (hr : t.registers ≠ []) (hlast : last.registers = []) : Represents t (run ++ [t]) where
  found := by
    have hnone : run.find? (·.registers ≠ []) = none := by
      by_contra hs
      obtain ⟨u, hu⟩ := Option.ne_none_iff_exists'.1 hs
      have hfound := h.found
      rw [representative, hu, Option.some_or] at hfound
      have hregisters := List.find?_some hu
      exact absurd hlast (by simpa [Option.some.inj hfound] using hregisters)
    unfold representative
    rw [List.find?_append, hnone]
    simp [hr]
  frames := by
    intro u hu
    rcases List.mem_append.1 hu with hu | hu
    · exact (h.frames u hu).trans ht.symm
    · rw [List.mem_singleton.1 hu]

/-- The same stack again, with nothing new. -/
theorem keep {last t : Trace} {run : List Trace} (h : Represents last run) (ht : t.frames = last.frames)
    (hr : ¬(t.registers ≠ [] ∧ last.registers = [])) : Represents last (run ++ [t]) where
  found := by
    have hfound := h.found
    obtain ⟨a, run, rfl⟩ := List.exists_cons_of_ne_nil h.ne_nil
    unfold representative at hfound ⊢
    rw [List.find?_append]
    cases hf : (a :: run).find? (·.registers ≠ []) with
    | some u =>
      rw [hf] at hfound
      simpa using hfound
    | none =>
      -- No trace so far has registers, and `t` has none.
      have hlast : a = last := by
        rw [hf] at hfound
        simpa using hfound
      have hnone : last.registers = [] := by
        have ha := List.find?_eq_none.1 hf a List.mem_cons_self
        simpa [hlast] using ha
      have ht' : t.registers = [] := by
        by_contra hne
        exact hr ⟨hne, hnone⟩
      simp [ht', hlast]
  frames := by
    intro u hu
    rcases List.mem_append.1 hu with hu | hu
    · exact h.frames u hu
    · rw [List.mem_singleton.1 hu, ht]

end Represents

/-! ## The loop -/

/-- What the loop does with one trace more. -/
theorem prune_cons (pruned stack : List Trace) (last t : Trace) :
    prune (pruned, some last) (t :: stack) =
      if t.frames ≠ last.frames then prune (pruned ++ [t], some t) stack
      else if t.registers ≠ [] ∧ last.registers = [] then prune (pruned.dropLast ++ [t], some t) stack
      else prune (pruned, some last) stack := by
  rw [prune]
  by_cases hsame : t.same last = true
  · have hframes : t.frames = last.frames := by
      simp only [Trace.same, Bool.and_eq_true, decide_eq_true_eq] at hsame
      exact hsame.1.1
    have hregisters : ¬(t.registers ≠ [] ∧ last.registers = []) := by
      simp only [Trace.same, Bool.and_eq_true, decide_eq_true_eq] at hsame
      rintro ⟨ht, hlast⟩
      have hlength : t.registers.length = last.registers.length := hsame.1.2
      rw [hlast, List.length_nil, List.length_eq_zero_iff] at hlength
      exact ht hlength
    rw [if_pos hsame, if_neg (by simpa using hframes), if_neg hregisters]
  · rw [if_neg hsame]

/-- The loop in the middle of a run. -/
theorem prune_represents (pruned stack : List Trace) {last : Trace} {run : List Trace} (h : Represents last run) :
    (prune (pruned ++ [last], some last) stack).map some =
      pruned.map some ++ (runs (run ++ stack)).map representative := by
  induction stack generalizing pruned last run with
  | nil => simp [prune, h.runs_eq, h.found]
  | cons t stack ih =>
    rw [prune_cons]
    by_cases ht : t.frames = last.frames
    · rw [if_neg (by simpa using ht), List.append_cons run t stack]
      by_cases hr : t.registers ≠ [] ∧ last.registers = []
      · rw [if_pos hr, List.dropLast_concat]
        exact ih pruned (h.replace ht hr.1 hr.2)
      · rw [if_neg hr]
        exact ih pruned (h.keep ht hr)
    · rw [if_pos ht, ih (pruned ++ [last]) (.single t), h.runs_cons ht]
      simp [h.found]

theorem map_prune (stack : List Trace) : (prune ([], none) stack).map some = (runs stack).map representative := by
  cases stack with
  | nil => rfl
  | cons t stack => exact prune_represents [] stack (.single t)

/-! ## What is kept -/

theorem chain_replace {pruned : List Trace} {last t : Trace} (ht : t.frames = last.frames)
    (h : (pruned ++ [last]).IsChain fun a b => a.frames ≠ b.frames) :
    (pruned ++ [t]).IsChain fun a b => a.frames ≠ b.frames := by
  rw [List.isChain_append] at h ⊢
  simpa [ht] using h

theorem prune_chain (pruned stack : List Trace) {last : Trace}
    (h : (pruned ++ [last]).IsChain fun a b => a.frames ≠ b.frames) :
    (prune (pruned ++ [last], some last) stack).IsChain fun a b => a.frames ≠ b.frames := by
  induction stack generalizing pruned last with
  | nil => exact h
  | cons t stack ih =>
    rw [prune_cons]
    by_cases ht : t.frames = last.frames
    · rw [if_neg (by simpa using ht), List.dropLast_concat]
      split
      · exact ih pruned (chain_replace ht h)
      · exact ih pruned h
    · rw [if_pos ht]
      apply ih (pruned ++ [last])
      rw [List.isChain_append]
      exact ⟨h, by simp, by simp [Ne.symm ht]⟩

/-- The frames of what is kept so far and of what follows are all kept. -/
theorem frames_mem_prune (pruned stack : List Trace) (last : Trace) (frames : List Frame) :
    frames ∈ (prune (pruned ++ [last], some last) stack).map Trace.frames ↔
      frames ∈ (pruned ++ last :: stack).map Trace.frames := by
  induction stack generalizing pruned last with
  | nil => simp [prune]
  | cons t stack ih =>
    rw [prune_cons]
    by_cases ht : t.frames = last.frames
    · rw [if_neg (by simpa using ht), List.dropLast_concat]
      split
      · rw [ih]; simp [ht]
      · rw [ih]; simp [ht]
    · rw [if_pos ht, ih (pruned ++ [last])]
      simp

/-- Without equal neighbours, all are kept. -/
theorem prune_of_chain (pruned stack : List Trace) {last : Trace}
    (h : (last :: stack).IsChain fun a b => a.frames ≠ b.frames) :
    prune (pruned ++ [last], some last) stack = pruned ++ last :: stack := by
  induction stack generalizing pruned last with
  | nil => rfl
  | cons t stack ih =>
    rw [List.isChain_cons_cons] at h
    rw [prune_cons, if_pos (Ne.symm h.1), ih (pruned ++ [last]) h.2]
    simp

/-- Of each run one trace is kept, so neighbours differ, no frames are lost, and a second time nothing
changes. -/
theorem prune_eq (stack : List Trace) :
    (prune ([], none) stack).map some = (runs stack).map representative ∧
      (prune ([], none) stack).IsChain (fun a b => a.frames ≠ b.frames) ∧
      (∀ t ∈ stack, ∃ u ∈ prune ([], none) stack, u.frames = t.frames) ∧
      prune ([], none) (prune ([], none) stack) = prune ([], none) stack := by
  have hchain : (prune ([], none) stack).IsChain fun a b => a.frames ≠ b.frames := by
    cases stack with
    | nil => simp [prune]
    | cons t stack => exact prune_chain [] stack (by simp)
  refine ⟨map_prune stack, hchain, ?_, ?_⟩
  · intro t ht
    cases stack with
    | nil => simp at ht
    | cons first stack =>
      have hframes := (frames_mem_prune [] stack first t.frames).2 (List.mem_map_of_mem ht)
      obtain ⟨u, hu, he⟩ := List.mem_map.1 hframes
      exact ⟨u, hu, he⟩
  · generalize prune ([], none) stack = pruned at hchain ⊢
    cases pruned with
    | nil => rfl
    | cons first pruned => exact prune_of_chain [] pruned hchain

end LogSubmitter.Kdump

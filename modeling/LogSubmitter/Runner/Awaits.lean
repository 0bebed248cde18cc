import LogSubmitter.Runner
/-!
# Submissions between their awaits

`submit_category` gives up control only while it waits for the answer to an
upload. What is sent was read before that. What is moved is what the directory
holds after it.
-/
namespace LogSubmitter.Runner

open Lib

variable {α ε : Type}

/-- What a part of the loop meets: `yields` says which names a listing still gives when they are
asked for, `reads` which files `helper.submit` can open and read. -/
structure Io (ε : Type) extends Env ε where
  yields : String → Bool
  reads : String → Bool

/-- `submit_category` while `helper.submit` waits, with the attachment it has read. -/
structure Submission (α ε : Type) where
  log : String
  attachment : α
  rest : List String
  submitted : Dict String (Except ε HelperResult)

/-- Where the loop stops: at the next await, or at the end. -/
inductive Next (α ε : Type) where
  | awaits (sub : Submission α ε)
  | returns (submitted : Dict String (Except ε HelperResult))

/-- The file that `helper.submit` reads. -/
def readLog (io : Io ε) (dirs : Dirs α) (log : String) : Option α := if io.reads log then dirs .pending log else none

theorem pending_of_readLog {io : Io ε} {dirs : Dirs α} {log : String} {attachment : α}
    (h : readLog io dirs log = some attachment) : dirs .pending log = some attachment := by
  unfold readLog at h
  split at h
  · exact h
  · cases h

theorem readLog_congr {io : Io ε} {dirs dirs' : Dirs α} {log : String} (h : dirs .pending log = dirs' .pending log) :
    readLog io dirs log = readLog io dirs' log := by
  rw [readLog, readLog, h]

/-- The loop goes on to the next await. With it are the logs that could not be read, for which
`helper.submit` returns `TRANSIENT_ERROR`. -/
def goOn (io : Io ε) (dirs : Dirs α) :
    List String → Dict String (Except ε HelperResult) → List String × Next α ε
  | [], submitted => ([], .returns submitted)
  | log :: rest, submitted =>
    if io.yields log = false ∨ hidden log = true then goOn io dirs rest submitted
    else
      match readLog io dirs log with
      | some attachment => ([], .awaits ⟨log, attachment, rest, submitted⟩)
      | none =>
        let r := goOn io dirs rest (submitted.insert log (.ok .transientError))
        (log :: r.1, r.2)

/-- The answer to an upload arrives. -/
def respond (io : Io ε) (sub : Submission α ε) (dirs : Dirs α) : Dirs α × List String × Next α ε :=
  let r := attempt io.toEnv sub.log { dirs := dirs, calls := [], submitted := sub.submitted }
  (r.1.dirs, if r.2 then ([], .returns r.1.submitted) else goOn io r.1.dirs sub.rest r.1.submitted)

/-- What waits was read from the directory. -/
theorem goOn_awaits {io : Io ε} {dirs : Dirs α} {logs : List String} {submitted : Dict String (Except ε HelperResult)}
    {sub : Submission α ε} (h : (goOn io dirs logs submitted).2 = .awaits sub) :
    dirs .pending sub.log = some sub.attachment := by
  induction logs generalizing submitted with
  | nil => cases h
  | cons log rest ih =>
    rw [goOn] at h
    split at h
    · exact ih h
    · split at h
      · rename_i attachment hread
        cases h
        exact pending_of_readLog hread
      · exact ih h

/-- The file that is there is moved. -/
theorem respond_dirs {io : Io ε} {sub : Submission α ε} {dirs : Dirs α} {content : α}
    (h : dirs .pending sub.log = some content) :
    (respond io sub dirs).1 =
      if place io.toEnv sub.log = .pending then dirs else move dirs (place io.toEnv sub.log) sub.log content := by
  rw [respond, attempt_of_pending h]

/-- What the loop goes on with after the answer. -/
theorem respond_next {io : Io ε} {sub : Submission α ε} {dirs : Dirs α} {content : α}
    (h : dirs .pending sub.log = some content) :
    (respond io sub dirs).2 =
      if upToClassError.isClassError (io.submit sub.log) then
        ([], .returns (sub.submitted.insert sub.log (recorded io.toEnv sub.log)))
      else goOn io (respond io sub dirs).1 sub.rest (sub.submitted.insert sub.log (recorded io.toEnv sub.log)) := by
  rw [respond_dirs h, respond, attempt_of_pending h]

/-- What waits next was read after the move. -/
theorem respond_awaits {io : Io ε} {sub sub' : Submission α ε} {dirs : Dirs α} {content : α}
    (hp : dirs .pending sub.log = some content) (h : (respond io sub dirs).2.2 = .awaits sub') :
    (respond io sub dirs).1 .pending sub'.log = some sub'.attachment := by
  rw [respond_next hp] at h
  split at h
  · cases h
  · exact goOn_awaits h

/-! ## Without interleaving -/

/-- All answers arrive, and nothing happens in between. -/
def complete (io : Io ε) : Nat → Dirs α → Next α ε → Dirs α × Dict String (Except ε HelperResult)
  | _, dirs, .returns submitted => (dirs, submitted)
  | 0, dirs, .awaits sub => (dirs, sub.submitted)
  | n + 1, dirs, .awaits sub =>
    let r := respond io sub dirs
    complete io n r.1 r.2.2

/-- An uninterrupted submission of logs that can be read is the loop of `submit_category`. -/
theorem complete_eq_submitLogs {io : Io ε} {logs : List String} {s : State α ε} {n : Nat} (hn : logs.Nodup)
    (hy : ∀ log ∈ logs, io.yields log = true) (hp : ∀ log ∈ logs, (readLog io s.dirs log).isSome = true)
    (hlen : logs.length ≤ n) :
    complete io n s.dirs (goOn io s.dirs logs s.submitted).2 =
      ((submitLogs io.toEnv logs s).dirs, (submitLogs io.toEnv logs s).submitted) := by
  induction logs generalizing s n with
  | nil => cases n <;> rfl
  | cons log logs ih =>
    obtain ⟨hlog, hn⟩ := List.nodup_cons.1 hn
    have hy' : ∀ log ∈ logs, io.yields log = true := fun _ hm => hy _ (List.mem_cons_of_mem _ hm)
    rw [goOn, submitLogs]
    simp only [hy log List.mem_cons_self, Bool.true_eq_false, false_or]
    by_cases hh : hidden log = true
    · rw [if_pos hh, if_pos hh]
      exact ih hn hy' (fun _ hm => hp _ (List.mem_cons_of_mem _ hm)) (Nat.le_of_succ_le hlen)
    · rw [if_neg hh, if_neg hh]
      obtain ⟨attachment, hread⟩ := Option.isSome_iff_exists.1 (hp log List.mem_cons_self)
      obtain ⟨n, rfl⟩ : ∃ m, n = m + 1 := ⟨n - 1, by simp only [List.length_cons] at hlen; omega⟩
      have hpending := pending_of_readLog hread
      rw [hread, complete, respond_next hpending, respond_dirs hpending, attempt_of_pending hpending]
      by_cases hc : upToClassError.isClassError (io.submit log) = true
      -- `CLASS_ERROR`: both stop here.
      · simp only [hc, if_true]
        cases n <;> rfl
      · simp only [hc, Bool.false_eq_true, if_false]
        -- Both go on, and the logs that are left can still be read.
        have hkeep : ∀ name ∈ logs, (if place io.toEnv log = .pending then s.dirs
            else move s.dirs (place io.toEnv log) log attachment) .pending name = s.dirs .pending name := by
          intro name hm
          have hne : name ≠ log := fun he => hlog (he ▸ hm)
          split
          · rfl
          · simp [move, hne]
        refine @ih
          { dirs := if place io.toEnv log = .pending then s.dirs else move s.dirs (place io.toEnv log) log attachment
            calls := s.calls ++ [log]
            submitted := s.submitted.insert log (recorded io.toEnv log) } n hn hy' (fun name hm => ?_)
          (by simp only [List.length_cons] at hlen; omega)
        exact (readLog_congr (hkeep name hm)).symm ▸ hp name (List.mem_cons_of_mem _ hm)

end LogSubmitter.Runner

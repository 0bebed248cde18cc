import LogSubmitter.Journal.Cursors
import LogSubmitter.Runner.Awaits
/-!
# Collects and submissions between their awaits

A collect waits for `journalctl`, a submission for the answer to its upload.
`collect_category` and `submit_category` hold the lock while they wait. The
method `Collect` on D-Bus takes no lock, and may write to a file that is being
submitted.
-/
namespace LogSubmitter.Journal

open Lib

/-! ## A collect -/

/-- Where a `collect` waits for `journalctl`: for the manager's entries, or for the lines of a unit, with
the failed invocations and the units that are left. The cursor was read before. -/
inductive Await where
  | manager (user : Bool) (cursor : Option String)
  | unit (user : Bool) (failed : Dict String (List String)) (unit : String) (invocations : List String)
    (cursor : Option String) (rest : List String)

/-- `collect_inner(False)` is followed by `collect_inner(True)`. -/
def afterUnits (s : Store) (user : Bool) : Option Await :=
  if user then none else some (.manager true (s.data (cursorName true)))

/-- The next unit with failed invocations, if there is one. -/
def nextUnit (s : Store) (user : Bool) (failed : Dict String (List String)) : List String → Option Await
  | [] => afterUnits s user
  | unit :: rest =>
    match failed.get? unit with
    | none => nextUnit s user failed rest
    | some invocations =>
      some (.unit user failed unit invocations (s.data (unitCursorName (unitName user unit))) rest)

def startCollect (s : Store) : Await := .manager false (s.data (cursorName false))

/-- The lines of a unit are written to their files. -/
def storeLines (io : Io) (user : Bool) (unit : String) (r : Dict String (List Entry) × Option String)
    (s : Store) : Store :=
  if r.1.items = [] then s
  else (r.1.items.foldl (appendLogs io (unitName user unit)) s).setData (unitCursorName (unitName user unit)) r.2

/-- `journalctl` has answered, and the collect runs to its next await. -/
def resume (io : Io) (s : Store) : Await → Store × Option Await
  | .manager user cursor =>
    let r := failedUnits (io.exec user (managerUnit user)) user cursor
    let s' := s.setData (cursorName user) r.2
    (s', nextUnit s' user r.1 (io.order user))
  | .unit user failed unit invocations cursor rest =>
    let s' := storeLines io user unit (readUnit (io.exec user unit) unit invocations user cursor) s
    (s', nextUnit s' user failed rest)

/-- All answers arrive, and nothing happens in between. -/
def complete (io : Io) : Nat → Store × Option Await → Store
  | 0, r => r.1
  | n + 1, r =>
    match r.2 with
    | none => r.1
    | some await => complete io n (resume io r.1 await)

theorem collectUnit_some {io : Io} {user : Bool} {failed : Dict String (List String)} {unit : String}
    {invocations : List String} (h : failed.get? unit = some invocations) (s : Store) :
    collectUnit io user failed s unit = storeLines io user unit
      (readUnit (io.exec user unit) unit invocations user (s.data (unitCursorName (unitName user unit)))) s := by
  rw [collectUnit, h]
  rfl

theorem complete_units (io : Io) (user : Bool) (failed : Dict String (List String)) (units : List String) (s : Store)
    (n : Nat) : ∃ m, complete io (m + n) (s, nextUnit s user failed units) =
      complete io n (units.foldl (collectUnit io user failed) s,
        afterUnits (units.foldl (collectUnit io user failed) s) user) := by
  induction units generalizing s with
  | nil => exact ⟨0, by rw [Nat.zero_add]; rfl⟩
  | cons unit rest ih =>
    rw [nextUnit, List.foldl_cons]
    cases hf : failed.get? unit with
    | none =>
      obtain ⟨m, hm⟩ := ih s
      refine ⟨m, ?_⟩
      rw [collectUnit, hf]
      exact hm
    | some invocations =>
      obtain ⟨m, hm⟩ := ih (collectUnit io user failed s unit)
      refine ⟨m + 1, ?_⟩
      rw [Nat.add_right_comm, ← hm, collectUnit_some hf]
      rfl

/-- An uninterrupted collect is `collect`. -/
theorem complete_eq_collect (io : Io) (s : Store) : ∃ n, complete io n (s, some (startCollect s)) = collect io s := by
  obtain ⟨m, hm⟩ := complete_units io true
    (failedUnits (io.exec true (managerUnit true)) true ((collectInner io false s).data (cursorName true))).1
    (io.order true)
    ((collectInner io false s).setData (cursorName true)
      (failedUnits (io.exec true (managerUnit true)) true ((collectInner io false s).data (cursorName true))).2) 1
  obtain ⟨k, hk⟩ := complete_units io false
    (failedUnits (io.exec false (managerUnit false)) false (s.data (cursorName false))).1 (io.order false)
    (s.setData (cursorName false)
      (failedUnits (io.exec false (managerUnit false)) false (s.data (cursorName false))).2) (m + 1 + 1)
  exact ⟨k + (m + 1 + 1) + 1, hk.trans hm⟩

/-! ## All tasks -/

variable {ε : Type}

/-- A task: in a collect with or without the lock, in a submission, or over. -/
inductive Task (ε : Type) where
  | idle
  | collecting (locked : Bool) (await : Await)
  | submitting (sub : Runner.Submission Content ε)
  | ended

/-- The helper's data and directories, the task that has the lock, and the attachments of the events that
were sent. -/
structure World (ε : Type) where
  data : String → Option String
  dirs : Runner.Dirs Content
  lock : Option Nat
  tasks : Nat → Task ε
  sent : List (String × Content)

/-- The three entry points, and the answers that a task waits for. -/
inductive Event (ε : Type) where
  | collect (task : Nat)
  | collectCategory (task : Nat)
  | submitCategory (task : Nat) (logs : List String) (io : Runner.Io ε)
  | resume (task : Nat) (io : Io)
  | respond (task : Nat) (io : Runner.Io ε)

/-- What a collect sees. -/
def World.store (w : World ε) : Store := { data := w.data, pending := w.dirs .pending }

def World.setStore (w : World ε) (s : Store) : World ε :=
  { w with data := s.data, dirs := fun dir => if dir = .pending then s.pending else w.dirs dir }

def World.setTask (w : World ε) (task : Nat) (t : Task ε) : World ε :=
  { w with tasks := Function.update w.tasks task t }

/-- A submission sends the next log, or is over and gives the lock back. -/
def World.goOn (w : World ε) (task : Nat) : Runner.Next Content ε → World ε
  | .awaits sub =>
    { w with lock := some task, sent := w.sent ++ [(sub.log, sub.attachment)] }.setTask task (.submitting sub)
  | .returns _ => { w with lock := none }.setTask task .ended

/-- One task runs to its next await. -/
def next : Event ε → World ε → Option (World ε)
  | .collect task, w =>
    match w.tasks task with
    | .idle => some (w.setTask task (.collecting false (startCollect w.store)))
    | _ => none
  | .collectCategory task, w =>
    match w.tasks task with
    | .idle =>
      match w.lock with
      | some _ => some (w.setTask task .ended)
      | none => some ({ w with lock := some task }.setTask task (.collecting true (startCollect w.store)))
    | _ => none
  | .submitCategory task logs io, w =>
    match w.tasks task with
    | .idle =>
      match w.lock with
      | some _ => some (w.setTask task .ended)
      | none => some (w.goOn task (Runner.goOn io w.dirs logs .empty).2)
    | _ => none
  | .resume task io, w =>
    match w.tasks task with
    | .collecting locked await =>
      let r := Journal.resume io w.store await
      match r.2 with
      | some await' => some ((w.setStore r.1).setTask task (.collecting locked await'))
      | none => some ({ w.setStore r.1 with lock := if locked then none else w.lock }.setTask task .ended)
    | _ => none
  | .respond task io, w =>
    match w.tasks task with
    | .submitting sub =>
      let r := Runner.respond io sub w.dirs
      some ({ w with dirs := r.1 }.goOn task r.2.2)
    | _ => none

/-- A step that moves a log to `uploaded` moves what the submission has read and attached. -/
def MovesWhatWasSent (w : World ε) : Event ε → Prop
  | .respond task io => ∀ sub content, w.tasks task = .submitting sub → w.dirs .pending sub.log = some content →
    Runner.place io.toEnv sub.log = .uploaded → content = sub.attachment ∧ (sub.log, content) ∈ w.sent
  | _ => True

/-- What the collect has read has lines for the file, and they are written to it. -/
def Writes (io : Io) (s : Store) (file : String) : Await → Prop
  | .manager _ _ => False
  | .unit user _ unit invocations cursor _ =>
    ∃ item ∈ (readUnit (io.exec user unit) unit invocations user cursor).1.items,
      fileName (unitName user unit) item.1 = file ∧ appends io (unitName user unit) s item = true

/-- No `Collect` without the lock writes to a file while a submission of it waits. -/
def Undisturbed (w : World ε) : Event ε → Prop
  | .resume task io => ∀ await t sub, w.tasks task = .collecting false await → w.tasks t = .submitting sub →
    ¬ Writes io w.store sub.log await
  | _ => True

/-! ## What a collect writes -/

theorem appendTo_of_not_appends {io : Io} {name : String} {s : Store} {item : String × List Entry}
    (h : appends io name s item = false) :
    appendTo io (fileName name item.1) (s.pending (fileName name item.1)) item.2 =
      s.pending (fileName name item.1) := by
  have hload : loadJournal io (fileName name item.1)
      { data := fun _ => none, pending := fun _ => s.pending (fileName name item.1) } =
      loadJournal io (fileName name item.1) s := rfl
  rw [appendTo, hload]
  unfold appends at h
  cases hl : loadJournal io (fileName name item.1) s with
  | none => rfl
  | some old =>
    rw [hl] at h
    cases hd : io.dump (fileName name item.1) with
    | openFails => simp
    | ok | breaksOff =>
      rw [hd] at h
      cases h

theorem resume_pending {io : Io} {s : Store} {await : Await} {file : String} (h : ¬ Writes io s file await) :
    (Journal.resume io s await).1.pending file = s.pending file := by
  cases await with
  | manager user cursor => rfl
  | unit user failed unit invocations cursor rest =>
    have hstore : ((readUnit (io.exec user unit) unit invocations user cursor).1.items.foldl
        (appendLogs io (unitName user unit)) s).pending file = s.pending file := by
      by_cases hname : ∃ i, file = fileName (unitName user unit) i
      · obtain ⟨i, rfl⟩ := hname
        rw [foldl_appendLogs_pending io _ (readUnit (io.exec user unit) unit invocations user cursor).1.nodup]
        cases hget : Assoc.get i (readUnit (io.exec user unit) unit invocations user cursor).1.items with
        | none => rfl
        | some logs =>
          have hmem := Dict.get?_eq_some.1 hget
          have ha : appends io (unitName user unit) s (i, logs) = false :=
            Bool.eq_false_iff.2 fun ha => h ⟨(i, logs), hmem, rfl, ha⟩
          exact appendTo_of_not_appends ha
      · exact foldl_appendLogs_other io _ s fun i he => hname ⟨i, he⟩
    show (storeLines io user unit _ s).pending file = _
    unfold storeLines
    split
    · rfl
    · exact hstore

/-! ## In every run -/

/-- The task waits with the lock. -/
def Task.Locked : Task ε → Prop
  | .collecting true _ => True
  | .submitting _ => True
  | _ => False

theorem not_locked_ended : ¬ (Task.ended : Task ε).Locked := fun h => h

theorem not_locked_collecting (await : Await) : ¬ (Task.collecting false await : Task ε).Locked := fun h => h

/-- Who waits with the lock has it, what a submission has read and sent is still in `pending`, and what has
come to `uploaded` was sent. -/
structure Held (w₀ w : World ε) : Prop where
  locked : ∀ t, (w.tasks t).Locked → w.lock = some t
  submitting : ∀ t sub, w.tasks t = .submitting sub →
    w.dirs .pending sub.log = some sub.attachment ∧ (sub.log, sub.attachment) ∈ w.sent
  uploaded : ∀ log content, w.dirs .uploaded log = some content →
    w₀.dirs .uploaded log = some content ∨ (log, content) ∈ w.sent

section
variable {w₀ w w' : World ε} {task : Nat} {x : Task ε}

/-- No task, and nobody has the lock. -/
structure Fresh (w : World ε) : Prop where
  tasks : ∀ t, w.tasks t = .idle
  lock : w.lock = none

theorem Fresh.held (h : Fresh w) : Held w w := by
  refine ⟨fun t ht => ?_, fun t sub ht => ?_, fun _ _ h => .inl h⟩ <;> rw [h.tasks] at ht <;> cases ht

theorem setTask_cases {t : Nat} {y : Task ε} (h : (w.setTask task x).tasks t = y) :
    t = task ∧ x = y ∨ t ≠ task ∧ w.tasks t = y := by
  have h : Function.update w.tasks task x t = y := h
  by_cases ht : t = task
  · subst ht
    rw [Function.update_self] at h
    exact .inl ⟨rfl, h⟩
  · rw [Function.update_of_ne ht] at h
    exact .inr ⟨ht, h⟩

/-- Where no other task has the lock. -/
theorem Held.alone (h : Held w₀ w) (hl : w.lock = none ∨ w.lock = some task) :
    ∀ t, t ≠ task → ¬ (w.tasks t).Locked := by
  intro t ht hk
  have hlock := h.locked t hk
  rcases hl with hl | hl <;> rw [hl] at hlock <;> cases hlock
  exact ht rfl

/-- A step of a task that has the lock, or gets it. -/
theorem held_of_only (hother : ∀ t, t ≠ task → ¬ (w.tasks t).Locked) (hx : x.Locked → w.lock = some task)
    (hsub : ∀ sub, x = .submitting sub →
      w.dirs .pending sub.log = some sub.attachment ∧ (sub.log, sub.attachment) ∈ w.sent)
    (hup : ∀ log content, w.dirs .uploaded log = some content →
      w₀.dirs .uploaded log = some content ∨ (log, content) ∈ w.sent) : Held w₀ (w.setTask task x) := by
  refine ⟨fun t hk => ?_, fun t sub ht => ?_, hup⟩
  · rcases @setTask_cases ε w task x t _ rfl with ⟨rfl, hy⟩ | ⟨ht, hy⟩
    · exact hx (hy ▸ hk)
    · exact absurd (hy ▸ hk) (hother t ht)
  · rcases setTask_cases ht with ⟨-, hy⟩ | ⟨hne, hy⟩
    · exact hsub sub hy
    · exact absurd (by rw [hy]; trivial) (hother t hne)

/-- A step of a task that does not have the lock, and leaves the files of submissions alone. -/
theorem Held.unlocked (h : Held w₀ w) (hx : ¬ x.Locked) {data : String → Option String} {dirs : Runner.Dirs Content}
    (hp : ∀ t sub, w.tasks t = .submitting sub → dirs .pending sub.log = w.dirs .pending sub.log)
    (hup : dirs .uploaded = w.dirs .uploaded) :
    Held w₀ ({ w with data := data, dirs := dirs }.setTask task x) := by
  refine ⟨fun t hk => ?_, fun t sub ht => ?_, fun log content hc => ?_⟩
  · rcases @setTask_cases ε { w with data := data, dirs := dirs } task x t _ rfl with ⟨-, hy⟩ | ⟨-, hy⟩
    · exact absurd (hy ▸ hk) hx
    · exact h.locked t (hy ▸ hk)
  · rcases setTask_cases ht with ⟨-, hy⟩ | ⟨-, hy⟩
    · exact absurd (by rw [hy]; trivial) hx
    · obtain ⟨hpend, hsent⟩ := h.submitting t sub hy
      exact ⟨(hp t sub hy).trans hpend, hsent⟩
  · exact h.uploaded log content (hup ▸ hc)

theorem held_goOn {n : Runner.Next Content ε} (hother : ∀ t, t ≠ task → ¬ (w.tasks t).Locked)
    (hn : ∀ sub, n = .awaits sub → w.dirs .pending sub.log = some sub.attachment)
    (hup : ∀ log content, w.dirs .uploaded log = some content →
      w₀.dirs .uploaded log = some content ∨ (log, content) ∈ w.sent) : Held w₀ (w.goOn task n) := by
  cases n with
  | returns submitted =>
    exact held_of_only hother (fun h => h.elim) (fun _ h => by cases h) hup
  | awaits sub =>
    refine held_of_only hother (fun _ => rfl) (fun sub' h => ?_) fun log content hc =>
      (hup log content hc).imp_right (List.mem_append_left _)
    cases h
    exact ⟨hn sub rfl, List.mem_append_right _ List.mem_cons_self⟩

end

/-- Every undisturbed step keeps it. -/
theorem held_next {w₀ w w' : World ε} {e : Event ε} (hh : Held w₀ w) (hu : Undisturbed w e)
    (h : next e w = some w') : Held w₀ w' := by
  cases e with
  | collect task =>
    simp only [next] at h
    split at h
    · cases h
      exact hh.unlocked (not_locked_collecting _) (fun _ _ _ => rfl) rfl
    · cases h
  | collectCategory task =>
    simp only [next] at h
    split at h
    · split at h
      · cases h
        exact hh.unlocked not_locked_ended (fun _ _ _ => rfl) rfl
      · rename_i hl
        cases h
        exact held_of_only (hh.alone (.inl hl)) (fun _ => rfl) (fun _ h => by cases h) hh.uploaded
    · cases h
  | submitCategory task logs io =>
    simp only [next] at h
    split at h
    · split at h
      · cases h
        exact hh.unlocked not_locked_ended (fun _ _ _ => rfl) rfl
      · rename_i hl
        cases h
        exact held_goOn (hh.alone (.inl hl)) (fun _ h => Runner.goOn_awaits h) hh.uploaded
    · cases h
  | resume task io =>
    simp only [next] at h
    split at h
    · rename_i locked await ht
      cases locked with
      | true =>
        -- Nothing waits for an upload while a collect has the lock.
        have hl := hh.locked task (by rw [ht]; trivial)
        have hother := hh.alone (.inr hl)
        split at h <;> cases h
        · exact held_of_only hother (fun _ => hl) (fun _ h => by cases h) hh.uploaded
        · exact held_of_only hother (fun h => h.elim) (fun _ h => by cases h) hh.uploaded
      | false =>
        have hkeep : ∀ t sub, w.tasks t = .submitting sub →
            (Journal.resume io w.store await).1.pending sub.log = w.dirs .pending sub.log := fun t sub hs =>
          resume_pending (hu await t sub ht hs)
        split at h <;> cases h
        · exact hh.unlocked (not_locked_collecting _) hkeep rfl
        · exact hh.unlocked not_locked_ended hkeep rfl
    · cases h
  | respond task io =>
    simp only [next] at h
    split at h
    · rename_i sub ht
      cases h
      obtain ⟨hp, hsent⟩ := hh.submitting task sub ht
      refine held_goOn (hh.alone (.inr (hh.locked task (by rw [ht]; trivial)))) (fun _ h => Runner.respond_awaits hp h)
        fun log content hc => ?_
      have hc : (Runner.respond io sub w.dirs).1 .uploaded log = some content := hc
      rw [Runner.respond_dirs hp] at hc
      split at hc
      · exact hh.uploaded log content hc
      · unfold Runner.move at hc
        split at hc
        · rename_i hlog
          split at hc
          · cases hc
            exact .inr (hlog ▸ hsent)
          · rw [if_neg (by decide)] at hc
            exact hh.uploaded log content hc
        · exact hh.uploaded log content hc
    · cases h

/-- In every run in which no `Collect` without the lock writes to a file while a submission of it waits, each move
to `uploaded` is of what was read and sent, and what is in `uploaded` was there before or was sent. -/
theorem uploaded_was_sent {w₀ w : World ε} {tr : List (World ε × Event ε)}
    (h : Run (fun w e w' => next e w = some w') w₀ tr w) (h0 : Fresh w₀) (hu : ∀ p ∈ tr, Undisturbed p.1 p.2) :
    (∀ p ∈ tr, MovesWhatWasSent p.1 p.2) ∧ ∀ log content, w.dirs .uploaded log = some content →
      w₀.dirs .uploaded log = some content ∨ (log, content) ∈ w.sent := by
  have hheld : ∀ {tr w}, Run (fun w e w' => next e w = some w') w₀ tr w → (∀ p ∈ tr, Undisturbed p.1 p.2) → Held w₀ w :=
    fun hr hu => hr.inv (Held w₀) (fun _ _ _ hh hu hs => held_next hh hu hs) h0.held hu
  refine ⟨fun p hp => ?_, (hheld h hu).uploaded⟩
  obtain ⟨tr', -, hpre, hr, -⟩ := h.prefix_of_mem p hp
  have hh := hheld hr fun q hq => hu q (hpre.subset hq)
  obtain ⟨w', e⟩ := p
  cases e with
  | respond task io =>
    intro sub content ht hc _
    obtain ⟨hp, hsent⟩ := hh.submitting task sub ht
    obtain rfl := Option.some.inj (hc.symm.trans hp)
    exact ⟨rfl, hsent⟩
  | _ => trivial

/-! ## Two runs -/

def vpowerFile : String := fileName (unitName false "vpower.service") "a"

/-- The pending file has one line. -/
def onePending : World String where
  data _ := none
  dirs dir log := if dir = .pending ∧ log = vpowerFile then some (.journal [vpowerLine "1" "a"]) else none
  lock := none
  tasks _ := .idle
  sent := []

theorem onePending_fresh : Fresh onePending := ⟨fun _ => rfl, rfl⟩

/-- All files can be read and moved, and the server accepts. -/
def accepting : Runner.Io String where
  submit _ := .ok .ok
  replace _ _ := .ok ()
  fileNotFoundError := "FileNotFoundError"
  yields _ := true
  reads _ := true

/-- `journalctl` has the journal of `lateFailure`. -/
def lateFailureIo : Io := (Cut.first 4).io bySystemdUnit lateFailure

/-- While a log is submitted, `Collect` finds the failed units, and then reads the lines of one. -/
def collectInBetween (lines : Bool) : List (Event String) :=
  [.submitCategory 0 [vpowerFile] accepting, .collect 1, .resume 1 lateFailureIo] ++
    (if lines then [.resume 1 lateFailureIo] else []) ++ [.respond 0 accepting]

/-- An unlocked collect has read lines in this step. -/
def readsLines : World String × Event String → Bool
  | (w, .resume task _) =>
    match w.tasks task with
    | .collecting false (.unit _ _ _ _ _ _) => true
    | _ => false
  | _ => false

theorem undisturbed_of_not_readsLines {p : World String × Event String} (h : readsLines p = false) :
    Undisturbed p.1 p.2 := by
  obtain ⟨w, e⟩ := p
  cases e with
  | resume task io =>
    intro await t sub (ht : w.tasks task = .collecting false await) _
    cases await with
    | manager => exact fun h => h
    | unit =>
      simp only [readsLines, ht] at h
      cases h
  | _ => trivial

theorem failures_in_between_sent : ∃ tr w, Run (fun w e w' => next e w = some w') onePending tr w ∧ tr.length = 4 ∧
    (∀ p ∈ tr, MovesWhatWasSent p.1 p.2) ∧ ∀ log content, w.dirs .uploaded log = some content →
      onePending.dirs .uploaded log = some content ∨ (log, content) ∈ w.sent := by
  obtain ⟨⟨tr, w⟩, hr, hlen, hreads⟩ : ∃ r ∈ runEvents next (collectInBetween false) onePending, r.1.length = 4 ∧
      ∀ p ∈ r.1, readsLines p = false := by decide +kernel
  have hrun := run_of_events hr
  exact ⟨tr, w, hrun, hlen,
    uploaded_was_sent hrun onePending_fresh fun p hp => undisturbed_of_not_readsLines (hreads p hp)⟩

/-- The file has two lines when it is moved, of which one was sent. -/
theorem lines_in_between_not_sent : ∃ tr w, Run (fun w e w' => next e w = some w') onePending tr w ∧
    ¬ ((∀ p ∈ tr, MovesWhatWasSent p.1 p.2) ∧ ∀ log content, w.dirs .uploaded log = some content →
      onePending.dirs .uploaded log = some content ∨ (log, content) ∈ w.sent) := by
  obtain ⟨⟨tr, w⟩, hr, hup, hsent⟩ : ∃ r ∈ runEvents next (collectInBetween true) onePending,
      (logsOf (r.2.dirs .uploaded vpowerFile)).length = 2 ∧
        ∀ p ∈ r.2.sent, (logsOf (some p.2)).length = 1 := by decide +kernel
  refine ⟨tr, w, run_of_events hr, fun ⟨_, hall⟩ => ?_⟩
  cases hc : w.dirs .uploaded vpowerFile with
  | none =>
    simp only [hc, logsOf, List.length_nil] at hup
    cases hup
  | some content =>
    rcases hall vpowerFile content hc with h | h
    · cases h
    · rw [hc, hsent _ h] at hup
      cases hup

end LogSubmitter.Journal

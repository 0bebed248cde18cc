import LogSubmitter.Lib.Entries
import LogSubmitter.Lib.Runs
import Mathlib.Data.List.Nodup
import Mathlib.Data.List.Perm.Lattice
import Mathlib.Data.List.TakeWhile
/-!
# Draining the remote handler

`RemoteHandler` keeps records in a list. `drain` sends each record of the list at
once, waits for all of them, and then puts an empty list in the place of the list.
Records come in while it waits, and a call of `client.log` may fail.
-/
namespace LogSubmitter.Logging

open Lib

/-! ## Drains -/

inductive Status where
  /-- In `await asyncio.gather`. -/
  | waiting
  | completed
  | raised
  deriving DecidableEq, Repr

/-- A call of `drain`. A record is known by how many were emitted before it. -/
structure Drain where
  /-- How many records had been emitted. -/
  since : Nat
  batch : List Nat
  /-- Whether a call of `client.log` has raised an exception. -/
  failed : Bool
  status : Status
  deriving DecidableEq, Repr

structure State where
  /-- What `getMessage` gives of each record, unless it raises an exception. -/
  emitted : List (Option String)
  /-- `_tasks` -/
  tasks : List Nat
  /-- The calls of `client.log` that have not come back, with their drains. -/
  calls : List (Nat × Nat)
  /-- The records of the calls that have succeeded. -/
  logged : List Nat
  drains : List Drain
  deriving DecidableEq, Repr

def start : State := ⟨[], [], [], [], []⟩

/-- Whether the arguments of `client.log` can be made. -/
def State.formats (s : State) (r : Nat) : Bool := (s.emitted[r]?).any Option.isSome

/-- The records for which a drain makes a call: those before the first whose message raises an exception. -/
def State.sends (s : State) : List Nat := s.tasks.takeWhile s.formats

/-! ## Steps -/

inductive Event where
  | emit (message : Option String)
  | drain
  /-- The call for a record comes back. -/
  | log (drain record : Nat) (succeeds : Bool)
  /-- What was gathered comes to a drain. -/
  | resume (drain : Nat)
  deriving DecidableEq, Repr

/-- `RemoteHandler.emit` -/
def emit (message : Option String) (s : State) : State :=
  { s with emitted := s.emitted ++ [message], tasks := s.tasks ++ [s.emitted.length] }

/-- `RemoteHandler.drain`, up to where it waits. Without records nothing is waited for. -/
def drain (s : State) : State :=
  let status := if s.sends ≠ s.tasks then .raised else if s.tasks = [] then .completed else .waiting
  { s with
    calls := s.calls ++ s.sends.map fun r => (s.drains.length, r)
    drains := s.drains ++ [{ since := s.emitted.length, batch := s.sends, failed := false, status }] }

/-- A call that succeeds. -/
def logged (i r : Nat) (s : State) : State :=
  { s with calls := s.calls.erase (i, r), logged := s.logged ++ [r] }

/-- A call that raises an exception. `gather` takes the first of them, and the other calls go on. -/
def failed (i r : Nat) (d : Drain) (s : State) : State :=
  { s with calls := s.calls.erase (i, r), drains := s.drains.set i { d with failed := true } }

/-- `RemoteHandler.drain`, from where it waits. -/
def resume (i : Nat) (d : Drain) (s : State) : State :=
  if d.failed then { s with drains := s.drains.set i { d with status := .raised } }
  else { s with tasks := [], drains := s.drains.set i { d with status := .completed } }

def next : Event → State → Option State
  | .emit message, s => some (emit message s)
  | .drain, s => some (drain s)
  | .log i r succeeds, s =>
    if (i, r) ∉ s.calls then none
    else if succeeds then some (logged i r s)
    else (s.drains[i]?).map fun d => failed i r d s
  | .resume i, s =>
    match s.drains[i]? with
    | none => none
    | some d =>
      if d.status ≠ .waiting then none
      else if d.failed = false ∧ i ∈ s.calls.map Prod.fst then none
      else some (resume i d s)

def Step (s : State) (e : Event) (s' : State) : Prop := next e s = some s'

/-- What a step may be. -/
theorem step_cases {s s' : State} {e : Event} (h : Step s e s') :
    (∃ message, e = .emit message ∧ s' = emit message s) ∨
    (e = .drain ∧ s' = drain s) ∨
    (∃ i r, e = .log i r true ∧ (i, r) ∈ s.calls ∧ s' = logged i r s) ∨
    (∃ i r d, e = .log i r false ∧ s.drains[i]? = some d ∧ (i, r) ∈ s.calls ∧ s' = failed i r d s) ∨
    ∃ i d, e = .resume i ∧ s.drains[i]? = some d ∧ d.status = .waiting ∧
      ¬ (d.failed = false ∧ i ∈ s.calls.map Prod.fst) ∧ s' = resume i d s := by
  unfold Step next at h
  split at h
  · next message =>
    cases h
    exact .inl ⟨message, rfl, rfl⟩
  · cases h
    exact .inr (.inl ⟨rfl, rfl⟩)
  · next i r succeeds =>
    split at h
    · cases h
    · next hc =>
      have hc := not_not.1 hc
      split at h
      · next hs =>
        cases h
        exact .inr (.inr (.inl ⟨i, r, by rw [hs], hc, rfl⟩))
      · next hs =>
        obtain ⟨d, hd, rfl⟩ := Option.map_eq_some_iff.1 h
        exact .inr (.inr (.inr (.inl ⟨i, r, d, by simpa using hs, hd, hc, rfl⟩)))
  · next i =>
    split at h
    · cases h
    · next d hd =>
      split at h
      · cases h
      · next hw =>
        split at h
        · cases h
        · next hcalls =>
          cases h
          exact .inr (.inr (.inr (.inr ⟨i, d, rfl, hd, not_not.1 hw, hcalls, rfl⟩)))

/-! ## What is promised -/

/-- No record is logged twice, none is lost, and those emitted before a drain that has completed are logged. -/
structure Delivered (s : State) : Prop where
  once : s.logged.Nodup
  kept : ∀ r < s.emitted.length, r ∈ s.logged ∨ r ∈ s.tasks
  done : ∀ d ∈ s.drains, d.status = .completed → ∀ r < d.since, r ∈ s.logged

/-- A drain begins when no call for a record that it sends is waiting or has succeeded, and it completes when
the list has only records that it began with. -/
def Undisturbed (s : State) : Event → Prop
  | .drain => ∀ r ∈ s.sends, r ∉ s.calls.map Prod.snd ∧ r ∉ s.logged
  | .resume i => ∀ d ∈ s.drains[i]?, d.failed = false → ∀ r ∈ s.tasks, r ∈ d.batch
  | _ => True

instance (s : State) : (e : Event) → Decidable (Undisturbed s e)
  | .emit _ => .isTrue trivial
  | .drain => inferInstanceAs (Decidable (∀ r ∈ s.sends, r ∉ s.calls.map Prod.snd ∧ r ∉ s.logged))
  | .log _ _ _ => .isTrue trivial
  | .resume i => inferInstanceAs (Decidable (∀ d ∈ s.drains[i]?, d.failed = false → ∀ r ∈ s.tasks, r ∈ d.batch))

structure Inv (s : State) : Prop where
  once : (s.calls.map Prod.snd ++ s.logged).Nodup
  distinct : s.tasks.Nodup
  numbered : ∀ r ∈ s.tasks, r < s.emitted.length
  kept : ∀ r < s.emitted.length, r ∈ s.logged ∨ r ∈ s.tasks
  begun : ∀ (i : Nat) (d : Drain), s.drains[i]? = some d → d.status = .waiting →
    ∀ r < d.since, r ∈ s.logged ∨ r ∈ d.batch
  sent : ∀ (i : Nat) (d : Drain), s.drains[i]? = some d → d.status = .waiting → d.failed = false →
    ∀ r ∈ d.batch, r ∈ s.logged ∨ (i, r) ∈ s.calls
  done : ∀ d ∈ s.drains, d.status = .completed → ∀ r < d.since, r ∈ s.logged

theorem Inv.delivered {s : State} (hi : Inv s) : Delivered s :=
  ⟨(List.nodup_append.1 hi.once).2.1, hi.kept, hi.done⟩

theorem inv_start : Inv start := by
  constructor <;> simp [start]

/-! ## One lemma for each kind of step -/

variable {s s' : State}

theorem inv_emit (hi : Inv s) (message : Option String) : Inv (emit message s) := by
  have hnew : s.emitted.length ∉ s.tasks := fun h => Nat.lt_irrefl _ (hi.numbered _ h)
  refine { hi with distinct := ?_, numbered := ?_, kept := ?_ }
  · exact List.nodup_append.2 ⟨hi.distinct, List.nodup_singleton _, by
      intro a ha b hb
      rw [List.mem_singleton.1 hb]
      rintro rfl
      exact hnew ha⟩
  · intro r hr
    simp only [emit, List.mem_append, List.mem_singleton, List.length_append, List.length_singleton] at hr ⊢
    rcases hr with hr | rfl
    · exact Nat.lt_succ_of_lt (hi.numbered r hr)
    · exact Nat.lt_succ_self _
  · intro r hr
    simp only [emit, List.mem_append, List.mem_singleton, List.length_append, List.length_singleton] at hr ⊢
    rcases Nat.lt_succ_iff_lt_or_eq.1 hr with hr | rfl
    · exact (hi.kept r hr).imp_right .inl
    · exact .inr (.inr rfl)

/-- A drain that waits or has completed takes the whole list. -/
theorem sends_of_status {status : Status}
    (h : (if s.sends ≠ s.tasks then .raised else if s.tasks = [] then .completed else .waiting) = status)
    (hne : status ≠ .raised) :
    s.sends = s.tasks ∧ (status = .completed → s.tasks = []) ∧ (status = .waiting → s.tasks ≠ []) := by
  split at h
  · exact absurd h.symm hne
  · next heq =>
    refine ⟨not_not.1 heq, ?_⟩
    split at h
    · next hnil =>
      subst h
      exact ⟨fun _ => hnil, nofun⟩
    · next hnil =>
      subst h
      exact ⟨nofun, fun _ => hnil⟩

theorem inv_drain (hi : Inv s) (hok : Undisturbed s .drain) : Inv (drain s) := by
  have hsub : s.sends.Sublist s.tasks := List.takeWhile_sublist _
  refine { hi with once := ?_, begun := ?_, sent := ?_, done := ?_ }
  · have hrecords : (s.sends.map fun r => (s.drains.length, r)).map Prod.snd = s.sends := by
      rw [List.map_map]
      exact List.map_id _
    show ((s.calls ++ _).map Prod.snd ++ s.logged).Nodup
    rw [List.map_append, hrecords, List.append_assoc]
    apply (List.perm_append_comm_assoc _ _ _).nodup_iff.2
    refine List.nodup_append.2 ⟨hi.distinct.sublist hsub, hi.once, ?_⟩
    intro r hr x hx
    rintro rfl
    obtain ⟨hcalls, hlogged⟩ := hok r hr
    exact (List.mem_append.1 hx).elim hcalls hlogged
  · intro i d hd hw r hr
    rcases Entries.getElem?_concat_eq_some hd with hd | ⟨rfl, rfl⟩
    · exact hi.begun i d hd hw r hr
    · rw [show s.sends = s.tasks from (sends_of_status hw (by simp)).1]
      exact hi.kept r hr
  · intro i d hd hw hf r hr
    rcases Entries.getElem?_concat_eq_some hd with hd | ⟨rfl, rfl⟩
    · exact (hi.sent i d hd hw hf r hr).imp_right (List.mem_append_left _)
    · exact .inr (List.mem_append_right _ (List.mem_map_of_mem hr))
  · intro d hd hc r hr
    rcases List.mem_append.1 hd with hd | hd
    · exact hi.done d hd hc r hr
    · rw [List.mem_singleton] at hd
      subst hd
      rcases hi.kept r hr with h | h
      · exact h
      · rw [(sends_of_status hc (by simp)).2.1 rfl] at h
        cases h

theorem inv_logged (hi : Inv s) {i r : Nat} (h : (i, r) ∈ s.calls) : Inv (logged i r s) := by
  have hmono : ∀ x, x ∈ s.logged → x ∈ s.logged ++ [r] := fun x hx => List.mem_append_left _ hx
  refine { hi with once := ?_, kept := ?_, begun := ?_, sent := ?_, done := ?_ }
  · -- The record moves from the calls to what is logged.
    have hmove : (s.calls.map Prod.snd ++ s.logged).Perm
        ((s.calls.erase (i, r)).map Prod.snd ++ (s.logged ++ [r])) := by
      apply (((List.perm_cons_erase h).map Prod.snd).append_right s.logged).trans
      rw [← List.append_assoc]
      exact (List.perm_append_singleton r _).symm
    exact hmove.nodup_iff.1 hi.once
  · intro x hx
    exact (hi.kept x hx).imp_left (hmono x)
  · intro j d hd hw x hx
    exact (hi.begun j d hd hw x hx).imp_left (hmono x)
  · intro j d hd hw hf x hx
    rcases hi.sent j d hd hw hf x hx with hl | hc
    · exact .inl (hmono x hl)
    · by_cases hxr : x = r
      · exact .inl (List.mem_append_right _ (by simp [hxr]))
      · exact .inr ((List.mem_erase_of_ne (by simp [hxr])).2 hc)
  · intro d hd hc x hx
    exact hmono x (hi.done d hd hc x hx)

theorem inv_failed (hi : Inv s) {i r : Nat} {d : Drain} (hd : s.drains[i]? = some d) : Inv (failed i r d s) := by
  refine { hi with once := ?_, begun := ?_, sent := ?_, done := ?_ }
  · exact hi.once.sublist ((List.erase_sublist.map _).append_right _)
  · exact Entries.forall_set hi.begun (hi.begun i d hd)
  · intro j d' hd' hw hf x hx
    rcases Entries.getElem?_set_eq_some hd' with ⟨rfl, rfl⟩ | ⟨hj, hd'⟩
    · cases hf
    · exact (hi.sent j d' hd' hw hf x hx).imp_right fun hc => (List.mem_erase_of_ne (by simp [hj])).2 hc
  · exact Entries.forall_mem_set hi.done (hi.done d (List.mem_of_getElem? hd))

theorem inv_resume (hi : Inv s) {i : Nat} {d : Drain} (hd : s.drains[i]? = some d) (hw : d.status = .waiting)
    (hcalls : ¬ (d.failed = false ∧ i ∈ s.calls.map Prod.fst)) (hok : Undisturbed s (.resume i)) :
    Inv (resume i d s) := by
  unfold resume
  split
  · refine { hi with begun := ?_, sent := ?_, done := ?_ }
    · exact Entries.forall_set hi.begun nofun
    · exact Entries.forall_set hi.sent nofun
    · exact Entries.forall_mem_set hi.done nofun
  · next hfailed =>
    have hfailed : d.failed = false := by simpa using hfailed
    -- All calls of the drain have succeeded.
    have hlogged : ∀ r ∈ d.batch, r ∈ s.logged := by
      intro r hr
      rcases hi.sent i d hd hw hfailed r hr with h | h
      · exact h
      · exact absurd ⟨hfailed, List.mem_map_of_mem h⟩ hcalls
    refine { hi with distinct := List.nodup_nil, numbered := by simp, kept := ?_, begun := ?_, sent := ?_, done := ?_ }
    · intro r hr
      rcases hi.kept r hr with h | h
      · exact .inl h
      · exact .inl (hlogged r (hok d hd hfailed r h))
    · exact Entries.forall_set hi.begun nofun
    · exact Entries.forall_set hi.sent nofun
    · apply Entries.forall_mem_set hi.done
      intro _ x hx
      rcases hi.begun i d hd hw x hx with h | h
      · exact h
      · exact hlogged x h

theorem inv_step {e : Event} (hi : Inv s) (hok : Undisturbed s e) (h : Step s e s') : Inv s' := by
  rcases step_cases h with ⟨message, -, rfl⟩ | ⟨rfl, rfl⟩ | ⟨i, r, -, hc, rfl⟩ | ⟨i, r, d, -, hd, -, rfl⟩ |
    ⟨i, d, rfl, hd, hw, hcalls, rfl⟩
  · exact inv_emit hi message
  · exact inv_drain hi hok
  · exact inv_logged hi hc
  · exact inv_failed hi hd
  · exact inv_resume hi hd hw hcalls hok

/-! ## A drain that may complete -/

/-- Waiting, and no call has failed. -/
def Drain.Live (d : Drain) : Prop := d.status = .waiting ∧ d.failed = false

/-- While a drain may complete, the list has its records, then those emitted since. Nothing else is sent. -/
structure Alone (s : State) : Prop where
  numbered : ∀ r, r ∈ s.calls.map Prod.snd ∨ r ∈ s.logged → r < s.emitted.length
  one : ∀ (i j : Nat) (d d' : Drain), s.drains[i]? = some d → s.drains[j]? = some d' → d.Live → d'.Live → i = j
  first : ∀ d ∈ s.drains, d.Live → d.batch ≠ [] ∧ d.batch <+: s.tasks ∧ ∀ r ∈ d.batch, s.formats r = true
  fresh : ∀ d ∈ s.drains, d.Live → ∀ r ∈ s.tasks, r ∉ d.batch → r ∉ s.calls.map Prod.snd ∧ r ∉ s.logged

theorem alone_start : Alone start := by
  constructor <;> simp [start]

theorem alone_emit (hi : Inv s) (ha : Alone s) (message : Option String) : Alone (emit message s) := by
  refine ⟨?_, ha.one, ?_, ?_⟩
  · intro r hr
    have := ha.numbered r hr
    simp only [emit, List.length_append, List.length_singleton]
    omega
  · intro d hd hl
    obtain ⟨hne, hstart, hformats⟩ := ha.first d hd hl
    refine ⟨hne, hstart.trans (List.prefix_append _ _), ?_⟩
    intro r hr
    have hlt := hi.numbered r (hstart.subset hr)
    have hsame : (emit message s).formats r = s.formats r := by
      unfold State.formats emit
      rw [List.getElem?_append_left hlt]
    rw [hsame]
    exact hformats r hr
  · intro d hd hl r hr hnot
    rcases List.mem_append.1 hr with hr | hr
    · exact ha.fresh d hd hl r hr hnot
    · rw [List.mem_singleton.1 hr]
      exact ⟨fun h => Nat.lt_irrefl _ (ha.numbered _ (.inl h)), fun h => Nat.lt_irrefl _ (ha.numbered _ (.inr h))⟩

/-- The records of a drain that may complete are sent by the next drain as well. -/
theorem not_live_of_undisturbed (hi : Inv s) (ha : Alone s) (hok : Undisturbed s .drain) {i : Nat} {d : Drain}
    (hd : s.drains[i]? = some d) : ¬ d.Live := by
  intro hl
  obtain ⟨hne, ⟨later, htasks⟩, hformats⟩ := ha.first d (List.mem_of_getElem? hd) hl
  obtain ⟨r, batch, hbatch⟩ := List.exists_cons_of_ne_nil hne
  have hr : r ∈ d.batch := by simp [hbatch]
  have hsends : r ∈ s.sends := by
    unfold State.sends
    rw [← htasks, List.takeWhile_append_of_pos hformats]
    exact List.mem_append_left _ hr
  obtain ⟨hcalls, hlogged⟩ := hok r hsends
  rcases hi.sent i d hd hl.1 hl.2 r hr with h | h
  · exact hlogged h
  · exact hcalls (List.mem_map_of_mem h)

theorem alone_drain (hi : Inv s) (ha : Alone s) (hok : Undisturbed s .drain) : Alone (drain s) := by
  have hold : ∀ (i : Nat) (d : Drain), s.drains[i]? = some d → ¬ d.Live := fun i d hd =>
    not_live_of_undisturbed hi ha hok hd
  have hnew : ∀ d ∈ (drain s).drains, d.Live → d.batch = s.tasks ∧ s.tasks ≠ [] ∧ s.sends = s.tasks := by
    intro d hd hl
    rcases List.mem_append.1 hd with hd | hd
    · obtain ⟨i, hi'⟩ := List.mem_iff_getElem?.1 hd
      exact absurd hl (hold i d hi')
    · rw [List.mem_singleton] at hd
      subst hd
      obtain ⟨hsends, -, hne⟩ := sends_of_status hl.1 (by simp)
      exact ⟨hsends, hne rfl, hsends⟩
  refine ⟨?_, ?_, ?_, ?_⟩
  · intro r hr
    have hsub : s.sends.Sublist s.tasks := List.takeWhile_sublist _
    rcases hr with hr | hr
    · obtain ⟨c, hc, rfl⟩ := List.mem_map.1 hr
      rcases List.mem_append.1 hc with hc | hc
      · exact ha.numbered _ (.inl (List.mem_map_of_mem hc))
      · obtain ⟨x, hx, rfl⟩ := List.mem_map.1 hc
        exact hi.numbered x (hsub.subset hx)
    · exact ha.numbered r (.inr hr)
  · intro i j d d' hd hd' hl hl'
    rcases Entries.getElem?_concat_eq_some hd with h | ⟨rfl, -⟩
    · exact absurd hl (hold i d h)
    · rcases Entries.getElem?_concat_eq_some hd' with h' | ⟨rfl, -⟩
      · exact absurd hl' (hold j d' h')
      · rfl
  · intro d hd hl
    obtain ⟨hbatch, hne, hsends⟩ := hnew d hd hl
    refine ⟨by rwa [hbatch], by rw [hbatch]; exact List.prefix_rfl, ?_⟩
    intro r hr
    rw [hbatch, ← hsends] at hr
    exact List.mem_takeWhile_imp hr
  · intro d hd hl r hr hnot
    obtain ⟨hbatch, -⟩ := hnew d hd hl
    rw [hbatch] at hnot
    exact absurd hr hnot

theorem alone_logged (ha : Alone s) {i r : Nat} (h : (i, r) ∈ s.calls) : Alone (logged i r s) := by
  have hr : r ∈ s.calls.map Prod.snd := List.mem_map_of_mem h
  have hcalls : ∀ x, x ∈ (s.calls.erase (i, r)).map Prod.snd → x ∈ s.calls.map Prod.snd := fun x hx =>
    List.map_subset _ List.erase_subset hx
  refine ⟨?_, ha.one, ha.first, ?_⟩
  · intro x hx
    rcases hx with hx | hx
    · exact ha.numbered x (.inl (hcalls x hx))
    · rcases List.mem_append.1 hx with hx | hx
      · exact ha.numbered x (.inr hx)
      · rw [List.mem_singleton.1 hx]
        exact ha.numbered r (.inl hr)
  · intro d hd hl x hx hnot
    obtain ⟨hc, hlog⟩ := ha.fresh d hd hl x hx hnot
    refine ⟨fun h => hc (hcalls x h), fun h => ?_⟩
    rcases List.mem_append.1 h with h | h
    · exact hlog h
    · rw [List.mem_singleton] at h
      subst h
      exact hc hr

/-- A step after which the drains that may complete and the calls are some of those before. -/
theorem Alone.of_sub (ha : Alone s) (hemitted : s'.emitted = s.emitted) (htasks : s'.tasks = s.tasks)
    (hlogged : s'.logged = s.logged) (hcalls : s'.calls ⊆ s.calls)
    (hlive : ∀ (i : Nat) (d : Drain), s'.drains[i]? = some d → d.Live → s.drains[i]? = some d) : Alone s' := by
  have hrecords : s'.calls.map Prod.snd ⊆ s.calls.map Prod.snd := List.map_subset _ hcalls
  have hmem : ∀ d ∈ s'.drains, d.Live → d ∈ s.drains := by
    intro d hd hl
    obtain ⟨i, hi⟩ := List.mem_iff_getElem?.1 hd
    exact List.mem_of_getElem? (hlive i d hi hl)
  have hformats : s'.formats = s.formats := by
    unfold State.formats
    rw [hemitted]
  refine ⟨?_, ?_, ?_, ?_⟩
  · intro r hr
    rw [hemitted]
    rw [hlogged] at hr
    exact ha.numbered r (hr.imp_left (hrecords ·))
  · intro i j d d' hd hd' hl hl'
    exact ha.one i j d d' (hlive i d hd hl) (hlive j d' hd' hl') hl hl'
  · intro d hd hl
    rw [htasks, hformats]
    exact ha.first d (hmem d hd hl) hl
  · intro d hd hl r hr hnot
    rw [htasks] at hr
    rw [hlogged]
    exact (ha.fresh d (hmem d hd hl) hl r hr hnot).imp_left fun h hr => h (hrecords hr)

theorem alone_failed (ha : Alone s) (i r : Nat) (d : Drain) : Alone (failed i r d s) := by
  refine ha.of_sub ?_ ?_ ?_ List.erase_subset ?_ <;> try rfl
  intro j d' hd' hl
  rcases Entries.getElem?_set_eq_some hd' with ⟨-, rfl⟩ | ⟨-, hd'⟩
  · cases hl.2
  · exact hd'

theorem alone_resume (ha : Alone s) {i : Nat} {d : Drain} (hd : s.drains[i]? = some d) (hw : d.status = .waiting) :
    Alone (resume i d s) := by
  unfold resume
  split
  · refine ha.of_sub ?_ ?_ ?_ (List.Subset.refl _) ?_ <;> try rfl
    intro j d' hd' hl
    rcases Entries.getElem?_set_eq_some hd' with ⟨-, rfl⟩ | ⟨-, hd'⟩
    · cases hl.1
    · exact hd'
  · next hfailed =>
    -- The one that might complete has completed.
    have hlive : d.Live := ⟨hw, by simpa using hfailed⟩
    have hnone : ∀ (j : Nat) (d' : Drain), (s.drains.set i { d with status := .completed })[j]? = some d' →
        ¬ d'.Live := by
      intro j d' hd' hl
      rcases Entries.getElem?_set_eq_some hd' with ⟨-, rfl⟩ | ⟨hj, hd'⟩
      · cases hl.1
      · exact hj (ha.one j i d' d hd' hd hl hlive)
    have hmem : ∀ d' ∈ s.drains.set i { d with status := .completed }, ¬ d'.Live := by
      intro d' hd'
      obtain ⟨j, hj⟩ := List.mem_iff_getElem?.1 hd'
      exact hnone j d' hj
    refine ⟨ha.numbered, ?_, ?_, ?_⟩
    · intro j k d' d'' hd' _ hl _
      exact absurd hl (hnone j d' hd')
    · intro d' hd' hl
      exact absurd hl (hmem d' hd')
    · intro d' hd' hl
      exact absurd hl (hmem d' hd')

theorem alone_step {e : Event} (hi : Inv s) (ha : Alone s) (hok : Undisturbed s e) (h : Step s e s') : Alone s' := by
  rcases step_cases h with ⟨message, -, rfl⟩ | ⟨rfl, rfl⟩ | ⟨i, r, -, hc, rfl⟩ | ⟨i, r, d, -, -, -, rfl⟩ |
    ⟨i, d, -, hd, hw, -, rfl⟩
  · exact alone_emit hi ha message
  · exact alone_drain hi ha hok
  · exact alone_logged ha hc
  · exact alone_failed ha i r d
  · exact alone_resume ha hd hw

/-! ## Runs -/

theorem inv_of_run {tr : List (State × Event)} (h : Run Step start tr s) (hok : ∀ p ∈ tr, Undisturbed p.1 p.2) :
    Inv s ∧ Alone s :=
  h.inv (fun s => Inv s ∧ Alone s) (fun _ _ _ hi hok hstep => ⟨inv_step hi.1 hok hstep, alone_step hi.1 hi.2 hok hstep⟩)
    ⟨inv_start, alone_start⟩ hok

end LogSubmitter.Logging

import LogSubmitter.Trace
import LogSubmitter.Lib.Cursor
import LogSubmitter.Lib.Entries
import LogSubmitter.Lib.Runs
import Mathlib.Logic.Function.Basic
/-!
# Trace events at the same time

`LogEvent` takes no lock. A call reads the cursor of its type, waits for
`journalctl`, and stores the new cursor.
-/
namespace LogSubmitter.Trace

open Lib Cursor
open Journal (Entry lastCursor)

/-- Where a call of `LogEvent` is. `journalctl` has printed what came after the cursor, if it could be run. -/
inductive Call where
  | waiting (type : EventType) (starts : List (List Piece)) (startUsec : Int) (cursor : Option String)
  | answered (type : EventType) (starts : List (List Piece)) (startUsec : Int) (cursor : Option String)
    (lines : Option (List Entry))
  | returned (type : EventType) (journal : Option (List (Entry × String)))
  | raised

/-- The kernel's journal, the helper's data and the calls. -/
structure World where
  journal : List Entry
  data : String → Option String
  calls : List Call

def World.cursor (w : World) (type : EventType) : Option String := w.data (cursorName type)

def World.setCall (w : World) (i : Nat) (call : Call) : World := { w with calls := w.calls.set i call }

/-- `cls.data[f'{type}.cursor'] = cursor`, if there is one. -/
def World.setCursor (w : World) (type : EventType) : Option String → World
  | none => w
  | some cursor => { w with data := Function.update w.data (cursorName type) (some cursor) }

inductive Event where
  | log (lines : List Entry)
  | logEvent (type : EventType) (startUsec : Int)
  | answer (call : Nat) (runs : Bool)
  | resume (call : Nat)

/-- A call up to its `await`. -/
def start (w : World) (type : EventType) (startUsec : Int) : Call :=
  match journalStarts type with
  | none => .returned type none
  | some starts => .waiting type starts startUsec (w.cursor type)

/-- A call from its `await` on. -/
def resume (w : World) (i : Nat) (type : EventType) (starts : List (List Piece)) (startUsec : Int) :
    Option (List Entry) → World
  | none => w.setCall i (.returned type none)
  | some lines =>
    match finish type starts startUsec lines with
    | none => w.setCall i .raised
    | some (capture, cursor) => (w.setCursor type cursor).setCall i (.returned type (some capture))

/-- One event. The entries of the journal have different cursors. -/
def next : Event → World → Option World
  | .log lines, w =>
    if ((w.journal ++ lines).map Entry.cursor).Nodup then some { w with journal := w.journal ++ lines } else none
  | .logEvent type startUsec, w => some { w with calls := w.calls ++ [start w type startUsec] }
  | .answer i runs, w =>
    match w.calls[i]? with
    | some (.waiting type starts startUsec cursor) =>
      some (w.setCall i (.answered type starts startUsec cursor
        (if runs then some (after Entry.cursor cursor w.journal) else none)))
    | _ => none
  | .resume i, w =>
    match w.calls[i]? with
    | some (.answered type starts startUsec _ lines) => some (resume w i type starts startUsec lines)
    | _ => none

/-- A call that got lines goes on while the cursor is still the one it has read. -/
def current (w : World) : Event → Bool
  | .resume i =>
    match w.calls[i]? with
    | some (.answered type _ _ cursor (some (_ :: _))) => w.cursor type = cursor
    | _ => true
  | _ => true

/-- What the journal has up to the cursor of a type. -/
def World.read (w : World) (type : EventType) : List Entry := upTo Entry.cursor (w.cursor type) w.journal

/-- No line is captured by two events of a type. -/
def CapturedOnce (w : World) : Prop :=
  ∀ (i j : Nat) type capture capture', i ≠ j → w.calls[i]? = some (.returned type (some capture)) →
    w.calls[j]? = some (.returned type (some capture')) → ∀ p ∈ capture, ∀ q ∈ capture', p.1.cursor ≠ q.1.cursor

/-- No cursor moves backwards. -/
def Forward (w w' : World) : Prop := ∀ type, w.read type <+: w'.read type

/-- No call yet, and cursors of entries, all different. -/
structure Fresh (w : World) : Prop where
  calls : w.calls = []
  nodup : (w.journal.map Entry.cursor).Nodup
  cursors : ∀ type, Valid Entry.cursor (w.cursor type) w.journal

/-! ## The invariant -/

/-- What a call holds is of the journal: the lines come after its cursor, and what it has captured is up to
the cursor of its type. -/
def Sound (w : World) : Call → Prop
  | .waiting _ _ _ cursor => Valid Entry.cursor cursor w.journal
  | .answered _ _ _ cursor lines => Valid Entry.cursor cursor w.journal ∧
    ∀ ls, lines = some ls → ls <+: after Entry.cursor cursor w.journal
  | .returned type journal => ∀ capture, journal = some capture → ∀ p ∈ capture, p.1 ∈ w.read type
  | .raised => True

structure Ordered (w : World) : Prop where
  nodup : (w.journal.map Entry.cursor).Nodup
  cursors : ∀ type, Valid Entry.cursor (w.cursor type) w.journal
  calls : ∀ (i : Nat) call, w.calls[i]? = some call → Sound w call
  once : CapturedOnce w

theorem Fresh.ordered {w : World} (h : Fresh w) : Ordered w := by
  have hnone : ∀ (i : Nat) call, w.calls[i]? ≠ some call := fun i call hc => by
    rw [h.calls] at hc
    cases hc
  exact ⟨h.nodup, h.cursors, fun i call hc => absurd hc (hnone i call),
    fun i j type capture capture' _ hc => absurd hc (hnone i _)⟩

section
variable {w w' : World}

/-- What a call holds stays so while the journal grows and the cursors move on. -/
theorem Sound.mono {call : Call} (h : Sound w call) (hj : w.journal <+: w'.journal) (hf : Forward w w') :
    Sound w' call := by
  cases call with
  | waiting type starts startUsec cursor => exact Valid.of_prefix h hj
  | answered type starts startUsec cursor lines =>
    obtain ⟨hv, hl⟩ := h
    obtain ⟨r, hr⟩ := hj
    refine ⟨hv.of_prefix ⟨r, hr⟩, fun ls he => ?_⟩
    rw [← hr, after_append hv]
    exact (hl ls he).trans (List.prefix_append _ _)
  | returned type journal => exact fun capture he p hp => (hf type).subset (h capture he p hp)
  | raised => trivial

/-- A step in which only call `k` changes, and captures nothing but lines after the cursor. -/
theorem ordered_of_call (h : Ordered w) (k : Nat) (hj : w.journal <+: w'.journal)
    (hn : (w'.journal.map Entry.cursor).Nodup) (hv : ∀ type, Valid Entry.cursor (w'.cursor type) w'.journal)
    (hf : Forward w w')
    (hc : ∀ (i : Nat) call, w'.calls[i]? = some call → w.calls[i]? = some call ∨ i = k ∧ Sound w' call ∧
      ∀ type capture, call = .returned type (some capture) →
        ∀ p ∈ capture, p.1 ∈ after Entry.cursor (w.cursor type) w.journal) : Ordered w' := by
  have new_old : ∀ {type} {capture capture' : List (Entry × String)},
      (∀ p ∈ capture, p.1 ∈ after Entry.cursor (w.cursor type) w.journal) →
      ∀ {j : Nat}, w.calls[j]? = some (.returned type (some capture')) →
      ∀ p ∈ capture, ∀ q ∈ capture', q.1.cursor ≠ p.1.cursor := fun ha _ hj p hp q hq =>
    upTo_disjoint h.nodup _ (h.calls _ _ hj _ rfl q hq) _ (ha p hp)
  refine ⟨hn, hv, fun i call hi => ?_, fun i j type capture capture' hij hi hj' p hp q hq => ?_⟩
  · rcases hc i call hi with ho | ⟨-, hs, -⟩
    · exact (h.calls i call ho).mono hj hf
    · exact hs
  · rcases hc i _ hi with hi | ⟨rfl, -, hi⟩ <;> rcases hc j _ hj' with hj' | ⟨rfl, -, hj'⟩
    · exact h.once i j type capture capture' hij hi hj' p hp q hq
    · exact new_old (hj' type capture' rfl) hi q hq p hp
    · exact (new_old (hi type capture rfl) hj' p hp q hq).symm
    · exact absurd rfl hij

theorem forward_of_eq (hj : w.journal <+: w'.journal) (hd : w'.data = w.data)
    (hv : ∀ type, Valid Entry.cursor (w.cursor type) w.journal) : Forward w w' := by
  intro type
  obtain ⟨r, hr⟩ := hj
  have hcursor : w'.cursor type = w.cursor type := congrFun hd _
  have hread : w'.read type = w.read type := by rw [World.read, World.read, hcursor, ← hr, upTo_append (hv type)]
  exact hread ▸ List.prefix_refl _

end

/-- A call changes, and the journal and the cursors do not. -/
theorem ordered_setCall {w : World} (h : Ordered w) (i : Nat) {call : Call} (hs : Sound w call)
    (hc : ∀ type capture, call ≠ .returned type (some capture)) :
    Ordered (w.setCall i call) ∧ Forward w (w.setCall i call) := by
  have hf : Forward w (w.setCall i call) := fun _ => List.prefix_refl _
  refine ⟨ordered_of_call h i (List.prefix_refl _) h.nodup h.cursors hf fun j y hy => ?_, hf⟩
  rcases Entries.getElem?_set_eq_some hy with ⟨rfl, rfl⟩ | ⟨-, ho⟩
  · exact .inr ⟨rfl, hs.mono (List.prefix_refl _) hf, fun type capture he => absurd he (hc type capture)⟩
  · exact .inl ho

/-- A call stores the cursor of `e`, and captures lines up to `e`. -/
theorem ordered_captured {w : World} (h : Ordered w) {i : Nat} {type : EventType} {a b : List Entry} {e : Entry}
    {capture : List (Entry × String)} (hl : a ++ e :: b <+: after Entry.cursor (w.cursor type) w.journal)
    (hs : (capture.map Prod.fst).Sublist (a ++ [e])) {w' : World}
    (hw' : w' = (w.setCursor type (some e.cursor)).setCall i (.returned type (some capture))) :
    Ordered w' ∧ Forward w w' := by
  obtain ⟨rest, hrest⟩ := hl
  rw [List.append_assoc, List.cons_append] at hrest
  obtain ⟨-, hup⟩ := after_read h.nodup hrest.symm
  have hmem : ∀ x ∈ a ++ [e], x ∈ after Entry.cursor (w.cursor type) w.journal := fun x hx => by
    rw [← hrest]
    rcases List.mem_append.1 hx with hx | hx
    · exact List.mem_append_left _ hx
    · exact List.mem_append_right _ (List.mem_singleton.1 hx ▸ List.mem_cons_self)
  have hcap : ∀ p ∈ capture, p.1 ∈ a ++ [e] := fun p hp => hs.subset (List.mem_map_of_mem hp)
  have hself : w'.cursor type = some e.cursor := by
    rw [hw']
    exact Function.update_self ..
  have hother : ∀ type', type' ≠ type → w'.cursor type' = w.cursor type' := fun type' hne => by
    rw [hw']
    exact Function.update_of_ne (fun he => hne (cursorName_inj he)) ..
  have hjournal : w'.journal = w.journal := by rw [hw']; rfl
  have hread : w'.read type = w.read type ++ (a ++ [e]) := by
    rw [World.read, hself, hjournal]
    exact hup
  have hf : Forward w w' := by
    intro type'
    by_cases ht : type' = type
    · subst ht
      rw [hread]
      exact List.prefix_append _ _
    · have hread' : w'.read type' = w.read type' := by rw [World.read, World.read, hother type' ht, hjournal]
      exact hread' ▸ List.prefix_refl _
  refine ⟨ordered_of_call h i (hjournal ▸ List.prefix_refl _) (hjournal ▸ h.nodup) (fun type' => ?_) hf
    fun j y hy => ?_, hf⟩
  · rw [hjournal]
    by_cases ht : type' = type
    · subst ht
      rw [hself]
      rintro c ⟨⟩
      exact List.mem_map_of_mem ((after_suffix _ _ _).subset (hmem e (by simp)))
    · exact hother type' ht ▸ h.cursors type'
  · rw [hw'] at hy
    rcases Entries.getElem?_set_eq_some hy with ⟨rfl, rfl⟩ | ⟨-, ho⟩
    · refine .inr ⟨rfl, ?_, ?_⟩
      · rintro _ ⟨⟩ p hp
        rw [hread]
        exact List.mem_append_right _ (hcap p hp)
      · rintro _ _ ⟨⟩ p hp
        exact hmem _ (hcap p hp)
    · exact .inl ho

theorem ordered_resume {w : World} (h : Ordered w) {i : Nat} {type : EventType} {starts : List (List Piece)}
    {startUsec : Int} {cursor : Option String} {lines : Option (List Entry)}
    (hg : w.calls[i]? = some (.answered type starts startUsec cursor lines)) (hc : current w (.resume i) = true) :
    Ordered (resume w i type starts startUsec lines) ∧ Forward w (resume w i type starts startUsec lines) := by
  cases lines with
  | none => exact ordered_setCall h i (fun _ he => by cases he) fun _ _ he => by cases he
  | some lines =>
    obtain ⟨-, hl⟩ := h.calls i _ hg
    rw [resume]
    split
    · exact ordered_setCall h i trivial fun _ _ he => by cases he
    · rename_i capture new hfin
      rcases finish_eq_some hfin with ⟨-, hr⟩ | ⟨a, e, b, rfl, hnew, hs⟩
      · -- Nothing was printed: nothing is captured, and no cursor is stored.
        cases hr
        have hf : Forward w (w.setCall i (.returned type (some []))) := fun _ => List.prefix_refl _
        refine ⟨ordered_of_call h i (List.prefix_refl _) h.nodup h.cursors hf fun j y hy => ?_, hf⟩
        rcases Entries.getElem?_set_eq_some hy with ⟨rfl, rfl⟩ | ⟨-, ho⟩
        · refine .inr ⟨rfl, ?_, ?_⟩
          · rintro _ ⟨⟩ p ⟨⟩
          · rintro _ _ ⟨⟩ p ⟨⟩
        · exact .inl ho
      · have hcursor : w.cursor type = cursor := by
          cases a <;> simpa only [current, hg, List.nil_append, List.cons_append, decide_eq_true_eq] using hc
        have hnew : new = some e.cursor := hnew
        exact ordered_captured h (hcursor ▸ hl _ rfl) hs (by rw [hnew])

/-- Every step of a call whose cursor is current keeps it, and moves no cursor back. -/
theorem ordered_next {w w' : World} {e : Event} (h : Ordered w) (hc : current w e = true) (hs : next e w = some w') :
    Ordered w' ∧ Forward w w' := by
  cases e with
  | log lines =>
    rw [next] at hs
    split at hs
    · rename_i hn
      cases hs
      -- The journal grows.
      have hj : w.journal <+: w.journal ++ lines := List.prefix_append _ _
      have hf : Forward w { w with journal := w.journal ++ lines } := forward_of_eq hj rfl h.cursors
      exact ⟨ordered_of_call h 0 hj hn (fun type => (h.cursors type).append _) hf fun _ _ hi => .inl hi, hf⟩
    · cases hs
  | logEvent type startUsec =>
    cases hs
    -- A call reads its cursor, if its type has one.
    have hf : Forward w { w with calls := w.calls ++ [start w type startUsec] } := fun _ => List.prefix_refl _
    refine ⟨ordered_of_call h w.calls.length (List.prefix_refl _) h.nodup h.cursors hf fun i call hi => ?_, hf⟩
    rcases Entries.getElem?_concat_eq_some hi with hi | ⟨rfl, rfl⟩
    · exact .inl hi
    · refine .inr ⟨rfl, ?_, ?_⟩
      · unfold start
        split
        · rintro _ ⟨⟩
        · exact h.cursors type
      · unfold start
        split
        · rintro _ _ ⟨⟩
        · rintro _ _ ⟨⟩
  | answer i runs =>
    rw [next] at hs
    split at hs
    · rename_i type starts startUsec cursor hg
      cases hs
      -- `journalctl` answers with a piece of the journal as it is now.
      refine ordered_setCall h i ⟨h.calls i _ hg, fun ls hl => ?_⟩ fun _ _ he => by cases he
      split at hl
      · cases hl
        exact List.prefix_refl _
      · cases hl
    · cases hs
  | resume i =>
    rw [next] at hs
    split at hs
    · rename_i type starts startUsec cursor lines hg
      cases hs
      exact ordered_resume h hg hc
    · cases hs

/-- In every run in which a call that got lines goes on while the cursor is still the one it has read, no
line is captured by two events of a type, and no cursor moves backwards. -/
theorem captured_once {w₀ w : World} {tr : List (World × Event)}
    (h : Run (fun w e w' => next e w = some w') w₀ tr w) (h0 : Fresh w₀) (hc : ∀ p ∈ tr, current p.1 p.2 = true) :
    CapturedOnce w ∧ ∀ p ∈ tr, ∀ w', next p.2 p.1 = some w' → Forward p.1 w' := by
  have hrun : ∀ {tr w}, Run (fun w e w' => next e w = some w') w₀ tr w →
      (∀ p ∈ tr, current p.1 p.2 = true) → Ordered w := fun hr hc =>
    hr.inv Ordered (fun _ _ _ ho hc hs => (ordered_next ho hc hs).1) h0.ordered hc
  refine ⟨(hrun h hc).once, fun p hp w' hs => ?_⟩
  obtain ⟨tr', -, hpre, hr, -⟩ := h.prefix_of_mem p hp
  exact (ordered_next (hrun hr fun q hq => hc q (hpre.subset hq)) (hc p hp) hs).2

/-! ## Two events -/

/-- Entries `a` and `b`, at a second and a minute. -/
def trapLine (cursor usec : String) : Entry :=
  .ofTexts cursor [("_SOURCE_MONOTONIC_TIMESTAMP", usec),
    ("MESSAGE", "x86/split lock detection: #AC: game/1 took a split_lock trap at address: 0x0")] (by simp)

/-- A journal with two lines, and no call. -/
def twoTraps : World where
  journal := [trapLine "a" "1000000", trapLine "b" "60000000"]
  data _ := none
  calls := []

theorem twoTraps_fresh : Fresh twoTraps := ⟨rfl, by decide, fun _ => valid_none _⟩

/-- The events of both lines, one call after the other. -/
def oneByOne : List Event :=
  [.logEvent .splitLock 1000000, .answer 0 true, .resume 0, .logEvent .splitLock 60000000, .answer 1 true, .resume 1]

/-- The second call comes while the first waits, and is answered first; then comes a third. -/
def overlapping : List Event :=
  [.logEvent .splitLock 1000000, .logEvent .splitLock 60000000, .answer 0 true, .answer 1 true, .resume 1, .resume 0,
    .logEvent .splitLock 60000000, .answer 2 true, .resume 2]

/-- The type of a call that has returned, and the cursors of the lines it has captured. -/
def World.captured (w : World) (i : Nat) : Option (EventType × List String) :=
  match w.calls[i]? with
  | some (.returned type (some capture)) => some (type, capture.map fun p => p.1.cursor)
  | _ => none

theorem captured_eq_some {w : World} {i : Nat} {type : EventType} {cursors : List String}
    (h : w.captured i = some (type, cursors)) : ∃ capture, w.calls[i]? = some (.returned type (some capture)) ∧
      capture.map (fun p => p.1.cursor) = cursors := by
  unfold World.captured at h
  split at h
  · rename_i capture hg
    cases h
    exact ⟨capture, hg, rfl⟩
  · cases h

theorem one_by_one_captured_once : ∃ tr w, Run (fun w e w' => next e w = some w') twoTraps tr w ∧
    w.captured 0 = some (.splitLock, ["a"]) ∧ w.captured 1 = some (.splitLock, ["b"]) ∧
    CapturedOnce w ∧ ∀ p ∈ tr, ∀ w', next p.2 p.1 = some w' → Forward p.1 w' := by
  obtain ⟨⟨tr, w⟩, hr, ha, hb, hcur⟩ : ∃ r ∈ runEvents next oneByOne twoTraps,
      r.2.captured 0 = some (.splitLock, ["a"]) ∧ r.2.captured 1 = some (.splitLock, ["b"]) ∧
      ∀ p ∈ r.1, current p.1 p.2 = true := by decide +kernel
  have hrun := run_of_events hr
  exact ⟨tr, w, hrun, ha, hb, captured_once hrun twoTraps_fresh hcur⟩

/-- The call that was answered first stores its cursor last, and the third captures the second line again. -/
theorem overlapping_captured_twice : ∃ tr w, Run (fun w e w' => next e w = some w') twoTraps tr w ∧
    ¬ CapturedOnce w ∧ ¬ ∀ p ∈ tr, ∀ w', next p.2 p.1 = some w' → Forward p.1 w' := by
  obtain ⟨⟨tr, w⟩, hr, h₁, h₂, hback⟩ : ∃ r ∈ runEvents next overlapping twoTraps,
      r.2.captured 1 = some (.splitLock, ["b"]) ∧ r.2.captured 2 = some (.splitLock, ["b"]) ∧
      ∃ p ∈ r.1, ∃ w' ∈ next p.2 p.1,
        ¬ (p.1.read .splitLock).map Entry.cursor <+: (w'.read .splitLock).map Entry.cursor := by
    decide +kernel
  refine ⟨tr, w, run_of_events hr, fun honce => ?_, fun hall => ?_⟩
  · obtain ⟨capture, hg, hc⟩ := captured_eq_some h₁
    obtain ⟨capture', hg', hc'⟩ := captured_eq_some h₂
    obtain ⟨p, hp, hb⟩ := List.mem_map.1 (hc ▸ List.mem_singleton_self "b")
    obtain ⟨q, hq, hb'⟩ := List.mem_map.1 (hc' ▸ List.mem_singleton_self "b")
    exact honce 1 2 .splitLock capture capture' (by decide) hg hg' p hp q hq (hb.trans hb'.symm)
  · obtain ⟨p, hp, w', hs, hback⟩ := hback
    exact hback ((hall p hp w' hs .splitLock).map _)

end LogSubmitter.Trace

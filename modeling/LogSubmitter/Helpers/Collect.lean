import LogSubmitter.Config.Upgrade
import LogSubmitter.Helpers
import LogSubmitter.Lib.Runs
import Mathlib.Data.List.TakeWhile
/-!
# New logs

`Helper.collect` reports the pending logs that were modified after the latest
modification it has seen, which it keeps in the configuration as `newest`. What
appears with an earlier time is never reported.
-/
namespace LogSubmitter.Helpers

open Lib Config

/-! ## `collect` -/

/-- How times are rounded to milliseconds, and written and read as text. What is written is read
back. -/
structure Times where
  round : Int → Int
  str : Int → String
  /-- The text as a time, unless `float` raises `ValueError`. -/
  float : String → Option Int
  float_str : ∀ ms, float (str ms) = some ms

/-- The digits after the point, as few as there may be. -/
def fraction (ms : Nat) : List Char :=
  if ms % 100 = 0 then [Nat.digitChar (ms / 100)]
  else if ms % 10 = 0 then [Nat.digitChar (ms / 100), Nat.digitChar (ms / 10 % 10)]
  else [Nat.digitChar (ms / 100), Nat.digitChar (ms / 10 % 10), Nat.digitChar (ms % 10)]

/-- A time in seconds, as `str` writes it. -/
def seconds (ms : Nat) : List Char := Nat.toDigits 10 (ms / 1000) ++ '.' :: fraction (ms % 1000)

/-- The time of a text with a point and up to three digits after it. -/
def parseSeconds (text : List Char) : Option Nat :=
  let whole := text.takeWhile (· ≠ '.')
  match text.dropWhile (· ≠ '.') with
  | [] => none
  | _ :: rest =>
    if whole ≠ [] ∧ rest ≠ [] ∧ rest.length ≤ 3 ∧ (whole ++ rest).all Char.isDigit then
      some (1000 * Nat.ofDigitChars 10 whole 0 + Nat.ofDigitChars 10 ((rest ++ ['0', '0']).take 3) 0)
    else none

theorem ofDigitChars_three {a b c : Nat} (ha : a < 10) (hb : b < 10) (hc : c < 10) :
    Nat.ofDigitChars 10 [Nat.digitChar a, Nat.digitChar b, Nat.digitChar c] 0 = 100 * a + 10 * b + c := by
  rw [Nat.ofDigitChars_cons_digitChar_of_lt_ten ha, Nat.ofDigitChars_cons_digitChar_of_lt_ten hb,
    Nat.ofDigitChars_cons_digitChar_of_lt_ten hc, Nat.ofDigitChars_nil]
  omega

/-- Up to three digits, and with zeros after them the number is what they say. -/
theorem fraction_spec {ms : Nat} (h : ms < 1000) : fraction ms ≠ [] ∧ (fraction ms).length ≤ 3 ∧
    (fraction ms).all Char.isDigit ∧ Nat.ofDigitChars 10 ((fraction ms ++ ['0', '0']).take 3) 0 = ms := by
  have ha : ms / 100 < 10 := by omega
  have hb : ms / 10 % 10 < 10 := by omega
  have hc : ms % 10 < 10 := by omega
  have hzero : '0' = Nat.digitChar 0 := rfl
  unfold fraction
  rw [hzero]
  split
  · have hvalue := ofDigitChars_three ha (by decide : 0 < 10) (by decide : 0 < 10)
    refine ⟨by simp, by simp, by simp [Nat.isDigit_digitChar, ha], ?_⟩
    rw [List.singleton_append, List.take_succ_cons, List.take_succ_cons, List.take_succ_cons, List.take_zero, hvalue]
    omega
  · split
    · have hvalue := ofDigitChars_three ha hb (by decide : 0 < 10)
      refine ⟨by simp, by simp, by simp [Nat.isDigit_digitChar, ha, hb], ?_⟩
      rw [List.cons_append, List.singleton_append, List.take_succ_cons, List.take_succ_cons, List.take_succ_cons,
        List.take_zero, hvalue]
      omega
    · have hvalue := ofDigitChars_three ha hb hc
      refine ⟨by simp, by simp, by simp [Nat.isDigit_digitChar, ha, hb, hc], ?_⟩
      rw [List.cons_append, List.cons_append, List.singleton_append, List.take_succ_cons, List.take_succ_cons,
        List.take_succ_cons, List.take_zero, hvalue]
      omega

theorem isDigit_of_mem_digits {n : Nat} : ∀ c ∈ Nat.toDigits 10 n, c.isDigit = true :=
  fun _ hc => Nat.isDigit_of_mem_toDigits (by decide) (by decide) hc

theorem parseSeconds_seconds (ms : Nat) : parseSeconds (seconds ms) = some ms := by
  have hpoint : '.' ∉ Nat.toDigits 10 (ms / 1000) := by
    intro hc
    exact absurd (isDigit_of_mem_digits _ hc) (by decide)
  have hwhole : (seconds ms).takeWhile (· ≠ '.') = Nat.toDigits 10 (ms / 1000) :=
    Words.takeWhile_ne_append hpoint _
  have hrest : (seconds ms).dropWhile (· ≠ '.') = '.' :: fraction (ms % 1000) :=
    Words.dropWhile_ne_append hpoint _
  obtain ⟨hnil, hlen, hdigits, hvalue⟩ := fraction_spec (Nat.mod_lt ms (by decide : 0 < 1000))
  have hall : (Nat.toDigits 10 (ms / 1000) ++ fraction (ms % 1000)).all Char.isDigit = true := by
    rw [List.all_append, hdigits, Bool.and_true, List.all_eq_true]
    exact isDigit_of_mem_digits
  rw [parseSeconds, hwhole, hrest]
  simp only
  rw [if_pos ⟨Nat.toDigits_ne_nil, hnil, hlen, hall⟩, hvalue, Nat.ofDigitChars_toDigits (by decide) (by decide)]
  exact congrArg some (Nat.div_add_mod ms 1000)

/-- `str` of a time in milliseconds, which may be before 1970. -/
def timeText (ms : Int) : List Char := if ms < 0 then '-' :: seconds ms.natAbs else seconds ms.natAbs

def parseTime : List Char → Option Int
  | '-' :: text => (parseSeconds text).map fun ms : Nat => -(ms : Int)
  | text => (parseSeconds text).map fun ms : Nat => (ms : Int)

theorem seconds_ne_sign (ms : Nat) (text : List Char) : seconds ms ≠ '-' :: text := by
  intro h
  obtain ⟨c, cs, hc⟩ := List.exists_cons_of_ne_nil (@Nat.toDigits_ne_nil (ms / 1000) 10)
  have hdigit := @isDigit_of_mem_digits (ms / 1000) c (by rw [hc]; exact List.mem_cons_self)
  rw [seconds, hc, List.cons_append, List.cons.injEq] at h
  rw [h.1] at hdigit
  cases hdigit

theorem parseTime_timeText (ms : Int) : parseTime (timeText ms) = some ms := by
  rw [timeText]
  split
  · rename_i hneg
    rw [parseTime, parseSeconds_seconds, Option.map_some, Option.some.injEq]
    omega
  · rename_i hpos
    rw [parseTime]
    · rw [parseSeconds_seconds, Option.map_some, Option.some.injEq]
      omega
    · exact seconds_ne_sign _

/-- Times in decimals. -/
def decimalTimes : Times where
  round := fun ns => (ns + 500000) / 1000000
  str := fun ms => String.ofList (timeText ms)
  float := fun text => parseTime text.toList
  float_str := fun ms => by rw [String.toList_ofList, parseTime_timeText]

/-- `mark is None or mtime > mark`. -/
def later (mtime : Int) : Option Int → Bool
  | none => true
  | some mark => mark < mtime

/-- `newer` and `newest`. -/
structure Seen where
  newer : List String
  newest : Option Int

/-- One round of the loop over the pending logs. -/
def look (t : Times) (last : Option Int) (seen : Seen) (log : String × File) : Seen :=
  match log.2.mtime with
  | none => seen
  | some time =>
    { newer := if later (t.round time) last then seen.newer ++ [log.1] else seen.newer
      newest := if later (t.round time) seen.newest then some (t.round time) else seen.newest }

/-- `last_collected`. -/
def lastCollected (t : Times) (h : Helper) (p : Process) : Option Int :=
  if h.config.contains p "newest" then (h.config.get? p "newest").bind t.float else none

/-- `cls.config['newest'] = newest`. -/
def setNewest (t : Times) (h : Helper) (newest : Int) (p : Process) : Process :=
  h.config.set "newest" (t.str newest) p

/-- What a call finds: the directory, and whether the configuration can be written. -/
structure Call where
  dir : Listing
  writes : Bool

/-- The system, with the home directories of the users. -/
def system (home : String → Option String) (writes : Bool) : Config.Env :=
  { home := home, writable := fun _ _ => writes }

/-- `Helper.collect`, without its signals. Where `write_config` raises, nothing is returned. -/
def collect (t : Times) (h : Helper) (home : String → Option String) (c : Call) (w : World) :
    World × Option (List String) :=
  let last := lastCollected t h w.process
  let seen := (h.listType c.dir).foldl (look t last) { newer := [], newest := none }
  match seen.newest with
  | none => (w, some seen.newer)
  | some newest =>
    if later newest last then
      let p := setNewest t h newest w.process
      match writeConfig (system home c.writes) p w.files with
      | none => ({ w with process := p }, none)
      | some files => ({ files := files, process := p }, some seen.newer)
    else (w, some seen.newer)

/-! ## The loop -/

section
variable {t : Times} {h : Helper}

/-- The log has the modification time, in milliseconds. -/
def HasTime (t : Times) (log : String × File) (mtime : Int) : Prop :=
  ∃ time, log.2.mtime = some time ∧ t.round time = mtime

/-- The mark is not before the time. -/
def Reaches (mark : Option Int) (mtime : Int) : Prop := ∃ m, mark = some m ∧ mtime ≤ m

theorem later_eq_false {mtime : Int} {mark : Option Int} : later mtime mark = false ↔ Reaches mark mtime := by
  cases mark <;> simp [later, Reaches]

theorem later_eq_true {mtime : Int} {mark : Option Int} :
    later mtime mark = true ↔ ∀ m, mark = some m → m < mtime := by
  cases mark <;> simp [later]

theorem Reaches.mono {mark : Option Int} {a b : Int} (hr : Reaches mark b) (hle : a ≤ b) : Reaches mark a := by
  obtain ⟨m, hm, hb⟩ := hr
  exact ⟨m, hm, Int.le_trans hle hb⟩

/-- The loop reports what is later than the mark it started from. -/
theorem mem_newer {last : Option Int} {logs : List (String × File)} {seen : Seen} {name : String} :
    name ∈ (logs.foldl (look t last) seen).newer ↔ name ∈ seen.newer ∨
      ∃ log ∈ logs, log.1 = name ∧ ∃ mtime, HasTime t log mtime ∧ later mtime last = true := by
  induction logs generalizing seen with
  | nil => simp
  | cons log logs ih =>
    have hlook : name ∈ (look t last seen log).newer ↔
        name ∈ seen.newer ∨ log.1 = name ∧ ∃ mtime, HasTime t log mtime ∧ later mtime last = true := by
      unfold look HasTime
      cases hm : log.2.mtime with
      | none => simp
      | some time =>
        simp only [Option.some.injEq]
        split
        · rename_i hl
          simp [hl, eq_comm]
        · rename_i hl
          simp [hl]
    rw [List.foldl_cons, ih, hlook]
    simp only [List.mem_cons, exists_eq_or_imp, or_assoc]

/-- One log moves `newest` on to its own time, if that is later. -/
theorem reaches_look {last : Option Int} {log : String × File} {seen : Seen} {mtime : Int} :
    Reaches (look t last seen log).newest mtime ↔ Reaches seen.newest mtime ∨ ∃ m, HasTime t log m ∧ mtime ≤ m := by
  unfold look HasTime
  cases hm : log.2.mtime with
  | none => simp
  | some time =>
    simp only [Option.some.injEq, ↓existsAndEq, true_and]
    cases hn : later (t.round time) seen.newest with
    | true =>
      rw [later_eq_true] at hn
      simp only [if_true, Reaches, Option.some.injEq, ↓existsAndEq, true_and]
      constructor
      · exact .inr
      · rintro (⟨m, hm, hle⟩ | hle)
        · have := hn m hm
          omega
        · exact hle
    | false =>
      rw [later_eq_false] at hn
      simp only [Bool.false_eq_true, if_false]
      constructor
      · exact .inl
      · rintro (hr | hle)
        · exact hr
        · exact hn.mono hle

/-- `newest` is reached by every time the loop has seen, and is one of them. -/
theorem reaches_newest {last : Option Int} {logs : List (String × File)} {seen : Seen} {mtime : Int} :
    Reaches (logs.foldl (look t last) seen).newest mtime ↔
      Reaches seen.newest mtime ∨ ∃ log ∈ logs, ∃ m, HasTime t log m ∧ mtime ≤ m := by
  induction logs generalizing seen with
  | nil => simp
  | cons log logs ih =>
    rw [List.foldl_cons, ih, reaches_look]
    simp only [List.mem_cons, exists_eq_or_imp, or_assoc]

/-! ## One call -/

/-- The logs of the call with a time that the mark does not reach. -/
def NewTo (t : Times) (h : Helper) (mark : Option Int) (c : Call) (name : String) : Prop :=
  ∃ log ∈ h.listType c.dir, log.1 = name ∧ ∃ mtime, HasTime t log mtime ∧ later mtime mark = true

/-- The call sees a time that the given one does not exceed. -/
def Sees (t : Times) (h : Helper) (c : Call) (mtime : Int) : Prop :=
  ∃ log ∈ h.listType c.dir, ∃ m, HasTime t log m ∧ mtime ≤ m

theorem lastCollected_of_local {p : Process} {ms : Int}
    (hp : p.localConfig.option h.config.name "newest" = some (t.str ms)) : lastCollected t h p = some ms := by
  simp only [lastCollected, ConfigSection.contains, ConfigSection.get?, hp, Option.isSome_some, Bool.true_or, if_true,
    Option.bind_some, t.float_str]

theorem option_setNewest (ms : Int) (p : Process) :
    (setNewest t h ms p).localConfig.option h.config.name "newest" = some (t.str ms) := by
  rw [setNewest, ConfigSection.set, Parser.option_set, if_pos ⟨rfl, rfl⟩]

theorem option_setNewest_ne (ms : Int) (p : Process) {name key : String}
    (hne : (name, key) ≠ (h.config.name, "newest")) :
    (setNewest t h ms p).localConfig.option name key = p.localConfig.option name key := by
  rw [setNewest, ConfigSection.set, Parser.option_set, if_neg fun he => hne (by rw [he.1, he.2]),
    Parser.option_addSection]

variable {home : String → Option String} {c : Call} {w : World}

/-- What a call does: it finds nothing new, or it notes the newest time, and then writes it or raises. -/
inductive Collected (t : Times) (h : Helper) (home : String → Option String) (c : Call) (w : World)
    (r : World × Option (List String)) : Prop
  | nothing (hr : r = (w, some [])) (hold : ∀ mtime, Sees t h c mtime → Reaches (lastCollected t h w.process) mtime)
  | raises (newest : Int) (hn : ∀ mtime, mtime ≤ newest ↔ Sees t h c mtime)
      (hl : later newest (lastCollected t h w.process) = true)
      (hw : writeConfig (system home c.writes) (setNewest t h newest w.process) w.files = none)
      (hr : r = ({ w with process := setNewest t h newest w.process }, none))
  | writes (newest : Int) (files : Files) (newer : List String) (hn : ∀ mtime, mtime ≤ newest ↔ Sees t h c mtime)
      (hl : later newest (lastCollected t h w.process) = true)
      (hw : writeConfig (system home c.writes) (setNewest t h newest w.process) w.files = some files)
      (hr : r = ({ files := files, process := setNewest t h newest w.process }, some newer))
      (hnew : ∀ name, name ∈ newer ↔ NewTo t h (lastCollected t h w.process) c name)

theorem collected : Collected t h home c w (collect t h home c w) := by
  have hmem : ∀ name,
      name ∈ ((h.listType c.dir).foldl (look t (lastCollected t h w.process))
        { newer := [], newest := none }).newer ↔ NewTo t h (lastCollected t h w.process) c name := by
    intro name
    rw [mem_newer]
    simp [NewTo]
  have hreach : ∀ mtime, Reaches ((h.listType c.dir).foldl (look t (lastCollected t h w.process))
      { newer := [], newest := none }).newest mtime ↔ Sees t h c mtime := by
    intro mtime
    rw [reaches_newest]
    simp [Reaches, Sees]
  have hnil : ∀ {l : List String}, (∀ mtime, Sees t h c mtime → Reaches (lastCollected t h w.process) mtime) →
      (∀ name, name ∈ l ↔ NewTo t h (lastCollected t h w.process) c name) → l = [] := by
    intro l hold hl
    refine List.eq_nil_iff_forall_not_mem.2 fun name hn => ?_
    obtain ⟨log, hlog, -, mtime, ht, hlate⟩ := (hl name).1 hn
    have := later_eq_false.2 (hold mtime ⟨log, hlog, mtime, ht, Int.le_refl _⟩)
    rw [hlate] at this
    cases this
  unfold collect
  simp only
  generalize (h.listType c.dir).foldl (look t (lastCollected t h w.process)) { newer := [], newest := none } = seen
    at hmem hreach ⊢
  cases hn : seen.newest with
  | none =>
    have hold : ∀ mtime, Sees t h c mtime → Reaches (lastCollected t h w.process) mtime := by
      intro mtime hs
      obtain ⟨m, hm, -⟩ := (hreach mtime).2 hs
      rw [hn] at hm
      cases hm
    exact .nothing (by rw [hnil hold hmem]) hold
  | some newest =>
    have hle : ∀ mtime, mtime ≤ newest ↔ Sees t h c mtime := by
      intro mtime
      rw [← hreach, hn]
      simp [Reaches]
    simp only
    split
    · rename_i hl
      cases hw : writeConfig (system home c.writes) (setNewest t h newest w.process) w.files with
      | none => exact .raises newest hle hl hw rfl
      | some files => exact .writes newest files _ hle hl hw rfl hmem
    · rename_i hl
      rw [Bool.not_eq_true, later_eq_false] at hl
      have hold : ∀ mtime, Sees t h c mtime → Reaches (lastCollected t h w.process) mtime :=
        fun mtime hs => hl.mono ((hle mtime).2 hs)
      exact .nothing (by rw [hnil hold hmem]) hold

/-- The mark in the process is the latest time seen. -/
theorem reaches_collect (mtime : Int) : Reaches (lastCollected t h (collect t h home c w).1.process) mtime ↔
    Reaches (lastCollected t h w.process) mtime ∨ Sees t h c mtime := by
  have hset : ∀ newest, (∀ mtime, mtime ≤ newest ↔ Sees t h c mtime) →
      later newest (lastCollected t h w.process) = true →
      (Reaches (lastCollected t h (setNewest t h newest w.process)) mtime ↔
        Reaches (lastCollected t h w.process) mtime ∨ Sees t h c mtime) := by
    intro newest hn hl
    rw [lastCollected_of_local (option_setNewest newest w.process), ← hn]
    rw [later_eq_true] at hl
    constructor
    · rintro ⟨m, hm, hle⟩
      cases hm
      exact .inr hle
    · rintro (⟨m, hm, hle⟩ | hle)
      · have := hl m hm
        exact ⟨newest, rfl, by omega⟩
      · exact ⟨newest, rfl, hle⟩
  cases @collected t h home c w with
  | nothing hr hold =>
    rw [hr]
    exact ⟨.inl, fun hm => hm.elim id (hold mtime)⟩
  | raises newest hn hl hw hr =>
    rw [hr]
    exact hset newest hn hl
  | writes newest files newer hn hl hw hr hnew =>
    rw [hr]
    exact hset newest hn hl

end

end LogSubmitter.Helpers

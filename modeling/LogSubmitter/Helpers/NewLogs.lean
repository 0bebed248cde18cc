import LogSubmitter.Helpers.Collect
/-!
# Which logs are reported

Over runs of `collect`: the stored time never goes back, no log is reported
twice unless it was modified in between, and a log is reported in time just when
it is later than all that was seen before it.
-/
namespace LogSubmitter.Helpers

open Lib Config

section
variable {t : Times} {h : Helper} {home : String → Option String} {found : Files}

/-! ## Every log is reported -/

/-- Calls of `collect` by a process that has read the configuration. -/
abbrev CollectRun (t : Times) (h : Helper) (home : String → Option String) (found : Files) :
    List (World × Call) → World → Prop :=
  Run (fun w c w' => w' = (collect t h home c w).1) ⟨found, fresh (system home true) found⟩

/-- `list_pending`. -/
def listed (h : Helper) (c : Call) : List String := (h.listType c.dir).map Prod.fst

/-- What the call returns, if it returns. -/
def returned (t : Times) (h : Helper) (home : String → Option String) (p : World × Call) : List String :=
  (collect t h home p.2 p.1).2.getD []

/-- There is a local configuration, and the call can write it. -/
def Writable (home : String → Option String) (found : Files) (c : Call) : Prop :=
  c.writes = true ∧ ∃ path, (fresh (system home true) found).localConfigPath = some path ∧ path ≠ ""

/-- Log `name` can be stat'ed, and is later than the time in the configuration and than all that the
calls before have seen. -/
def Late (t : Times) (h : Helper) (home : String → Option String) (found : Files) (before : List (World × Call))
    (c : Call) (name : String) : Prop :=
  ∃ log ∈ h.listType c.dir, log.1 = name ∧ ∃ mtime, HasTime t log mtime ∧
    later mtime (lastCollected t h (fresh (system home true) found)) = true ∧ ∀ q ∈ before, ¬ Sees t h q.2 mtime

/-- Up to each call, every log it lists has been reported. -/
def AllReported (t : Times) (h : Helper) (home : String → Option String) (tr : List (World × Call)) : Prop :=
  ∀ before p after, tr = before ++ p :: after → ∀ name ∈ listed h p.2,
    ∃ q ∈ before ++ [p], name ∈ returned t h home q

/-- Each log is late in the first call that lists it, which can write the configuration. -/
def InOrder (t : Times) (h : Helper) (home : String → Option String) (found : Files) (tr : List (World × Call)) :
    Prop :=
  ∀ before p after, tr = before ++ p :: after → ∀ name ∈ listed h p.2, (∀ q ∈ before, name ∉ listed h q.2) →
    Late t h home found before p.2 name ∧ Writable home found p.2

theorem localConfigPath_collect (c : Call) (w : World) :
    (collect t h home c w).1.process.localConfigPath = w.process.localConfigPath := by
  cases @collected t h home c w with
  | nothing hr _ => rw [hr]
  | raises _ _ _ _ hr => rw [hr]; rfl
  | writes _ _ _ _ _ _ hr _ => rw [hr]; rfl

/-- The mark is the latest of the stored time and of all that was seen. -/
theorem mark_run {tr : List (World × Call)} {w : World} (hr : CollectRun t h home found tr w) :
    w.process.localConfigPath = (fresh (system home true) found).localConfigPath ∧
    ∀ mtime, Reaches (lastCollected t h w.process) mtime ↔
      Reaches (lastCollected t h (fresh (system home true) found)) mtime ∨ ∃ q ∈ tr, Sees t h q.2 mtime := by
  induction hr with
  | nil => exact ⟨rfl, fun mtime => by simp⟩
  | @snoc tr w c w' _ hw ih =>
    subst hw
    refine ⟨(localConfigPath_collect c w).trans ih.1, fun mtime => ?_⟩
    rw [reaches_collect, ih.2]
    simp only [List.mem_append, List.mem_singleton, or_and_right, exists_or, exists_eq_left, or_assoc]

/-- What a call reports is new to its mark. -/
theorem newTo_of_returned {p : World × Call} {name : String} (hn : name ∈ returned t h home p) :
    NewTo t h (lastCollected t h p.1.process) p.2 name := by
  rw [returned] at hn
  cases @collected t h home p.2 p.1 with
  | nothing hr _ =>
    rw [hr] at hn
    exact absurd hn List.not_mem_nil
  | raises _ _ _ _ hr =>
    rw [hr] at hn
    exact absurd hn List.not_mem_nil
  | writes _ _ newer _ _ _ hr hnew =>
    rw [hr, Option.getD_some] at hn
    exact (hnew name).1 hn

theorem listed_of_newTo {mark : Option Int} {c : Call} {name : String} (hn : NewTo t h mark c name) :
    name ∈ listed h c := by
  obtain ⟨log, hlog, rfl, -⟩ := hn
  exact List.mem_map_of_mem hlog

/-- A call reports what is new to its mark, if it can write the configuration. -/
theorem mem_returned {c : Call} {w : World}
    (hp : w.process.localConfigPath = (fresh (system home true) found).localConfigPath) {name : String} :
    name ∈ returned t h home (w, c) ↔
      NewTo t h (lastCollected t h w.process) c name ∧ Writable home found c := by
  have hwrite : ∀ newest, writeConfig (system home c.writes) (setNewest t h newest w.process) w.files ≠ none ↔
      Writable home found c := by
    intro newest
    have hpath : (setNewest t h newest w.process).localConfigPath = w.process.localConfigPath := rfl
    rw [writeConfig, hpath, hp, Writable]
    cases (fresh (system home true) found).localConfigPath with
    | none => simp
    | some path =>
      by_cases hne : path = "" <;> cases hc : c.writes <;> simp [writeFile, system, hne]
  rw [returned]
  cases @collected t h home c w with
  | nothing hr hold =>
    rw [hr]
    simp only [Option.getD_some, List.not_mem_nil, false_iff]
    rintro ⟨⟨log, hlog, -, mtime, ht, hl⟩, -⟩
    have := later_eq_false.2 (hold mtime ⟨log, hlog, mtime, ht, Int.le_refl _⟩)
    rw [hl] at this
    cases this
  | raises newest hn hl hw hr =>
    rw [hr, ← hwrite newest]
    simp only [Option.getD_none, List.not_mem_nil, false_iff]
    exact fun hne => hne.2 hw
  | writes newest files newer hn hl hw hr hnew =>
    rw [hr, ← hwrite newest, Option.getD_some, hnew]
    exact ⟨fun hm => ⟨hm, by rw [hw]; exact Option.some_ne_none _⟩, And.left⟩

/-- What is new to the mark of a run's end is what is late after it. -/
theorem newTo_iff_late {tr : List (World × Call)} {w : World} (hr : CollectRun t h home found tr w) {c : Call}
    {name : String} : NewTo t h (lastCollected t h w.process) c name ↔ Late t h home found tr c name := by
  have hlater : ∀ mtime, later mtime (lastCollected t h w.process) = true ↔
      later mtime (lastCollected t h (fresh (system home true) found)) = true ∧ ∀ q ∈ tr, ¬ Sees t h q.2 mtime := by
    intro mtime
    rw [← Bool.not_eq_false, later_eq_false, (mark_run hr).2, ← Bool.not_eq_false, later_eq_false, not_or]
    simp only [not_exists, not_and]
  simp only [NewTo, Late, hlater]

theorem reported_of_inOrder {tr : List (World × Call)} {w : World} (hr : CollectRun t h home found tr w)
    (ho : InOrder t h home found tr) : AllReported t h home tr := by
  intro before
  induction hn : before.length using Nat.strongRecOn generalizing before with
  | ind n ih =>
    intro p after htr name hname
    by_cases hfirst : ∀ q ∈ before, name ∉ listed h q.2
    · obtain ⟨hlate, hw⟩ := ho before p after htr name hname hfirst
      subst htr
      obtain ⟨w₁, hrun, -, -⟩ := hr.split
      have hnew := (newTo_iff_late hrun).2 hlate
      exact ⟨p, by simp, (mem_returned (mark_run hrun).1).2 ⟨hnew, hw⟩⟩
    · -- An earlier call lists it, and it has been reported by then.
      simp only [not_forall, not_not] at hfirst
      obtain ⟨q, hq, hlist⟩ := hfirst
      obtain ⟨before', after', rfl⟩ := List.append_of_mem hq
      have hlen : before'.length < n := by
        rw [← hn, List.length_append, List.length_cons]
        omega
      obtain ⟨r, hr', hret⟩ := ih _ hlen before' rfl q (after' ++ p :: after) (by rw [htr]; simp) name hlist
      refine ⟨r, ?_, hret⟩
      rcases List.mem_append.1 hr' with hr' | hr'
      · simp [hr']
      · simp [List.mem_singleton.1 hr']

/-- Each log is reported by the time it is listed just when the first call that
lists it can stat it, finds it later than the stored time and than all that the
calls before have seen, and can write the configuration. -/
theorem all_reported_iff {tr : List (World × Call)} {w : World} (hr : CollectRun t h home found tr w) :
    AllReported t h home tr ↔ InOrder t h home found tr := by
  refine ⟨fun ha before p after htr name hname hfirst => ?_, reported_of_inOrder hr⟩
  obtain ⟨q, hq, hret⟩ := ha before p after htr name hname
  have hlist := listed_of_newTo (newTo_of_returned hret)
  obtain rfl : q = p := by
    rcases List.mem_append.1 hq with hq | hq
    · exact absurd hlist (hfirst q hq)
    · exact List.mem_singleton.1 hq
  subst htr
  obtain ⟨w₁, hrun, -, -⟩ := hr.split
  obtain ⟨hnew, hw⟩ := (mem_returned (mark_run hrun).1).1 hret
  exact ⟨(newTo_iff_late hrun).1 hnew, hw⟩

end

/-- The base configuration names the local one, which does not exist yet. -/
def baseOnly : Files := fun path =>
  if path = baseConfigPath then
    some ⟨[("sls", ⟨[("local-config", "/etc/steamos-log-submitter.cfg")], by decide⟩)], by decide⟩
  else none

/-- A log that was written first, at the given time in milliseconds, and one that was written second. -/
def twoLogs (first second : Option Int) : Call where
  dir := ⟨(first.elim [] fun ms => [("a.bin", { readable := true, mtime := some (ms * 1000000) })]) ++
    (second.elim [] fun ms => [("b.bin", { readable := true, mtime := some (ms * 1000000) })]),
    by cases first <;> cases second <;> simp⟩
  writes := true

/-- Two calls of a new process. -/
def twoCalls (c₁ c₂ : Call) : List (World × Call) :=
  let w : World := ⟨baseOnly, fresh (system (fun _ => none) true) baseOnly⟩
  [(w, c₁), ((collect decimalTimes binHelper (fun _ => none) c₁ w).1, c₂)]

theorem twoCalls_run (c₁ c₂ : Call) :
    ∃ w, CollectRun decimalTimes binHelper (fun _ => none) baseOnly (twoCalls c₁ c₂) w :=
  ⟨_, (Run.nil.snoc (e := c₁) rfl).snoc (e := c₂) rfl⟩

theorem two_logs_reported : ∃ tr w, CollectRun decimalTimes binHelper (fun _ => none) baseOnly tr w ∧ tr.length = 2 ∧
    (AllReported decimalTimes binHelper (fun _ => none) tr ↔
      InOrder decimalTimes binHelper (fun _ => none) baseOnly tr) := by
  obtain ⟨w, hrun⟩ := twoCalls_run (twoLogs (some 1700000000001) none)
    (twoLogs (some 1700000000001) (some 1700000000006))
  exact ⟨_, w, hrun, rfl, all_reported_iff hrun⟩

/-- The log that was written first is renamed into place after the second was collected. -/
def lateRename : List (World × Call) :=
  twoCalls (twoLogs none (some 1700000000006)) (twoLogs (some 1700000000001) (some 1700000000006))

theorem late_rename_not_reported : ∃ tr w, CollectRun decimalTimes binHelper (fun _ => none) baseOnly tr w ∧
    ¬ AllReported decimalTimes binHelper (fun _ => none) tr := by
  obtain ⟨w, hrun⟩ := twoCalls_run (twoLogs none (some 1700000000006))
    (twoLogs (some 1700000000001) (some 1700000000006))
  have hnot : ∀ p ∈ lateRename, "a.bin" ∉ returned decimalTimes binHelper (fun _ => none) p := by decide +kernel
  refine ⟨lateRename, w, hrun, fun ha => ?_⟩
  obtain ⟨q, hq, hret⟩ := ha [_] (_, twoLogs (some 1700000000001) (some 1700000000006)) [] rfl "a.bin"
    (by decide +kernel)
  exact hnot q hq hret

section
variable {t : Times} {h : Helper} {home : String → Option String} {found : Files}

/-! ## No log is reported twice -/

/-- A call of `collect`, or a new process. -/
inductive Event where
  | collect (c : Call)
  | restart

def next (t : Times) (h : Helper) (home : String → Option String) : Event → World → World
  | .collect c, w => (collect t h home c w).1
  | .restart, w => { w with process := fresh (system home true) w.files }

/-- Calls of `collect`, by one process after the other. -/
abbrev HelperRun (t : Times) (h : Helper) (home : String → Option String) (found : Files) :
    List (World × Event) → World → Prop :=
  Run (fun w e w' => w' = next t h home e w) ⟨found, fresh (system home true) found⟩

/-- What the step reports. -/
def reported (t : Times) (h : Helper) (home : String → Option String) (p : World × Event) : List String :=
  match p.2 with
  | .collect c => returned t h home (p.1, c)
  | .restart => []

/-- The log's modification time in the step. -/
def timeOf (t : Times) (p : World × Event) (name : String) : Option Int :=
  match p.2 with
  | .collect c => ((c.dir.get? name).bind File.mtime).map t.round
  | .restart => none

/-- The time in the configuration file, as a new process reads it. -/
def persisted (t : Times) (h : Helper) (home : String → Option String) (files : Files) : Option Int :=
  lastCollected t h (fresh (system home true) files)

/-- The process has the local file in memory, but for the newest time, which is not behind that of the file. -/
structure Persisting (t : Times) (h : Helper) (home : String → Option String) (w : World) : Prop where
  localPath : w.process.localConfigPath = (fresh (system home true) w.files).localConfigPath
  others : ∀ name key, (name, key) ≠ (h.config.name, "newest") →
    w.process.localConfig.option name key =
      fileOption w.files (fresh (system home true) w.files).localConfigPath name key
  behind : ∀ mtime, Reaches (persisted t h home w.files) mtime → Reaches (lastCollected t h w.process) mtime

theorem persisting_fresh (files : Files) : Persisting t h home ⟨files, fresh (system home true) files⟩ :=
  ⟨rfl, fun name key _ => localConfig_fresh name key, fun _ => id⟩

/-- The new time is written: a new process reads it, and the rest is as it was. -/
theorem persisted_writes {w : World} (hw : Persisting t h home w) {c : Call} {newest : Int} {files : Files}
    (hwrite : writeConfig (system home c.writes) (setNewest t h newest w.process) w.files = some files) :
    Persisting t h home ⟨files, setNewest t h newest w.process⟩ ∧ persisted t h home files = some newest := by
  obtain ⟨lp, hlp, hfile⟩ := Option.bind_eq_some_iff.1 hwrite
  have hlocal : (fresh (system home true) w.files).localConfigPath = some lp := hw.localPath.symm.trans hlp
  have hs : SameBut (h.config.name, "newest") w.files files := sameBut_writeFile hfile fun name key hne => by
    rw [option_setNewest_ne newest _ hne, hw.others name key hne, hlocal]
  have hm : Harmless (h.config.name, "newest") := by simp [Harmless]
  have hlocal' : (fresh (system home true) files).localConfigPath = some lp :=
    (paths_of_sameBut hm hs).2.trans hlocal
  have hopt : ∀ name key,
      fileOption files (some lp) name key = (setNewest t h newest w.process).localConfig.option name key := by
    intro name key
    rw [fileOption_writeFile hfile, if_pos rfl]
  have hnewest : persisted t h home files = some newest := by
    refine lastCollected_of_local ?_
    rw [localConfig_fresh, hlocal', hopt, option_setNewest]
  refine ⟨⟨hlp.trans hlocal'.symm, fun name key _ => ?_, fun mtime hr => ?_⟩, hnewest⟩
  · rw [hlocal', hopt]
  · rw [hnewest] at hr
    rw [lastCollected_of_local (option_setNewest newest w.process)]
    exact hr

/-- A step keeps the time in the file, or moves it on, and what it reports is not after it. -/
theorem persisting_next {w : World} (hw : Persisting t h home w) (e : Event) :
    Persisting t h home (next t h home e w) ∧
    (∀ mtime, Reaches (persisted t h home w.files) mtime →
      Reaches (persisted t h home (next t h home e w).files) mtime) ∧
    ∀ name ∈ reported t h home (w, e), ∃ mtime, timeOf t (w, e) name = some mtime ∧
      Reaches (persisted t h home (next t h home e w).files) mtime ∧
      ¬ Reaches (persisted t h home w.files) mtime := by
  cases e with
  | restart => exact ⟨persisting_fresh w.files, fun _ => id, fun name hn => absurd hn List.not_mem_nil⟩
  | collect c =>
    simp only [next, reported, returned]
    cases @collected t h home c w with
    | nothing hr _ =>
      rw [hr]
      exact ⟨hw, fun _ => id, fun name hn => absurd hn List.not_mem_nil⟩
    | raises newest hn hl _ hr =>
      -- The configuration cannot be written: the mark moves on in the process, not in the file.
      rw [hr]
      refine ⟨⟨hw.localPath, fun name key hne => ?_, fun mtime hm => ?_⟩, fun _ => id,
        fun name hn => absurd hn List.not_mem_nil⟩
      · rw [option_setNewest_ne newest _ hne, hw.others name key hne]
      · obtain ⟨m, hm, hle⟩ := hw.behind mtime hm
        have := later_eq_true.1 hl m hm
        rw [lastCollected_of_local (option_setNewest newest w.process)]
        exact ⟨newest, rfl, by omega⟩
    | writes newest files newer hn hl hwrite hr hnew =>
      obtain ⟨hp, hnewest⟩ := persisted_writes hw hwrite
      rw [hr]
      refine ⟨hp, fun mtime hm => ?_, fun name hname => ?_⟩
      · obtain ⟨m, hm, hle⟩ := hw.behind mtime hm
        have := later_eq_true.1 hl m hm
        simp only [hnewest]
        exact ⟨newest, rfl, by omega⟩
      · obtain ⟨log, hlog, rfl, mtime, ⟨time, htime, hround⟩, hlate⟩ := (hnew name).1 hname
        have hget : c.dir.get? log.1 = some log.2 := Dict.get?_eq_some.2 (List.mem_filter.1 hlog).1
        refine ⟨mtime, ?_, ?_, fun hm => ?_⟩
        · simp only [timeOf, hget, Option.bind_some, htime, Option.map_some, hround]
        · simp only [hnewest]
          exact ⟨newest, rfl, (hn mtime).2 ⟨log, hlog, mtime, ⟨time, htime, hround⟩, Int.le_refl _⟩⟩
        · have := later_eq_false.2 (hw.behind mtime hm)
          rw [hlate] at this
          cases this

/-- In every run the stored time never goes back, whatever happens to the files
and the processes, and a log that is reported twice was modified in between. -/
theorem newest_never_goes_back {tr : List (World × Event)} {w : World} (hr : HelperRun t h home found tr w) :
    (∀ p ∈ tr, ∀ mtime, persisted t h home p.1.files = some mtime →
      ∃ mtime', persisted t h home (next t h home p.2 p.1).files = some mtime' ∧ mtime ≤ mtime') ∧
    ∀ before p between q after, tr = before ++ p :: (between ++ q :: after) → ∀ name ∈ reported t h home p,
      name ∈ reported t h home q →
      ∃ a b, timeOf t p name = some a ∧ timeOf t q name = some b ∧ a < b := by
  have keep : ∀ w e w', Persisting t h home w → w' = next t h home e w → Persisting t h home w' :=
    fun w e w' hw he => he ▸ (persisting_next hw e).1
  refine ⟨fun p hp mtime hm => ?_, fun before p between q after htr name hp hq => ?_⟩
  · obtain ⟨tr', _, -, hrun, -⟩ := hr.prefix_of_mem p hp
    have hw := hrun.always _ keep (persisting_fresh found)
    exact (persisting_next hw p.2).2.1 mtime ⟨mtime, hm, Int.le_refl _⟩
  · subst htr
    obtain ⟨w₁, hrun, hstep, hrest⟩ := hr.split
    obtain ⟨w₂, hrun', -, -⟩ := hrest.split
    have hw := hrun.always _ keep (persisting_fresh found)
    obtain ⟨hw₁, -, hrep⟩ := persisting_next hw p.2
    obtain ⟨a, ha, hreach, -⟩ := hrep name hp
    rw [← hstep] at hw₁ hreach
    -- From the first report on the stored time reaches that of the log.
    have step : ∀ w e w', Persisting t h home w ∧ Reaches (persisted t h home w.files) a →
        w' = next t h home e w → Persisting t h home w' ∧ Reaches (persisted t h home w'.files) a := by
      rintro w e w' ⟨hw, ha⟩ rfl
      obtain ⟨hw', hmono, -⟩ := persisting_next hw e
      exact ⟨hw', hmono a ha⟩
    obtain ⟨hq', ha'⟩ := hrun'.always _ step ⟨hw₁, hreach⟩
    obtain ⟨b, hb, -, hnot⟩ := (persisting_next hq' q.2).2.2 name hq
    exact ⟨a, b, ha, hb, Int.not_le.1 fun hle => hnot (ha'.mono hle)⟩

end

theorem two_logs_newest : ∃ tr w, HelperRun decimalTimes binHelper (fun _ => none) baseOnly tr w ∧ tr.length = 3 ∧
    (∀ p ∈ tr, ∀ mtime, persisted decimalTimes binHelper (fun _ => none) p.1.files = some mtime →
      ∃ mtime', persisted decimalTimes binHelper (fun _ => none)
        (next decimalTimes binHelper (fun _ => none) p.2 p.1).files = some mtime' ∧ mtime ≤ mtime') ∧
    ∀ before p between q after, tr = before ++ p :: (between ++ q :: after) →
      ∀ name ∈ reported decimalTimes binHelper (fun _ => none) p,
      name ∈ reported decimalTimes binHelper (fun _ => none) q →
      ∃ a b, timeOf decimalTimes p name = some a ∧ timeOf decimalTimes q name = some b ∧ a < b := by
  have hrun : HelperRun decimalTimes binHelper (fun _ => none) baseOnly _ _ :=
    ((Run.nil.snoc (e := .collect (twoLogs (some 1700000000001) none)) rfl).snoc (e := .restart) rfl).snoc
      (e := .collect (twoLogs (some 1700000000006) none)) rfl
  exact ⟨_, _, hrun, rfl, newest_never_goes_back hrun⟩

end LogSubmitter.Helpers

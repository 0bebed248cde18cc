import LogSubmitter.Sysinfo.Cache
import LogSubmitter.Helpers
/-!
# A flush that breaks off

The cache is emptied before it is written, and deleted before the log is there.
What a broken-off flush leaves of the entries is what the old logs have, and what
is left of the file that was being written, if all of it is there.
-/
namespace LogSubmitter.Sysinfo

open Lib Json Helpers

/-- The text can be parsed and has the entry in the section. -/
def Holds (text : Option (List Char)) (name : String) (e : Json) : Prop :=
  ∃ t ∈ text, ∃ known ∈ parse t, e ∈ section_ known name

def helper : Helper := { name := "sysinfo", validExtensions := [".json"] }

/-- A listed log has the entry in the section. -/
def InLog (pending : String → Option (List Char)) (name : String) (e : Json) : Prop :=
  ∃ file, helper.filterLog file = true ∧ Holds (pending file) name e

/-- The logs have all of the cache that is of enabled types. -/
def Logged (deviceTypes : DeviceTypes) (pending : String → Option (List Char)) (known : Cache) : Prop :=
  ∀ name type, deviceTypes.get? name = some type → type.enabled = true → ∀ e ∈ section_ known name, InLog pending name e

variable {τ : Type}

/-- The cache a call writes. -/
def newCache (call : Call τ) (known : Cache) : List Char := dumps (encode (merge call.deviceTypes call.list known))

/-- The log a flush writes. -/
def newLog (call : Call τ) (known : Cache) : List Char :=
  dumps (encode (filterDisabled call.deviceTypes (merge call.deviceTypes call.list known)))

def logFile (clock : Clock τ) (call : Call τ) : String := fileName (clock.round call.now)

/-- No entry of an enabled type is lost, and the timestamp stands for a complete log. -/
structure Kept (clock : Clock τ) (call : Call τ) (known : Cache) (s s' : Store τ) : Prop where
  entries : ∀ name type, call.deviceTypes.get? name = some type → type.enabled = true → ∀ e ∈ section_ known name,
    Holds s'.cache name e ∨ InLog s'.pending name e
  timestamp : s'.timestamp ≠ s.timestamp → s'.pending (logFile clock call) = some (newLog call known)

/-- The fault spares the files, or the whole text was written, or the entries are in older logs. -/
def Spares (clock : Clock τ) (call : Call τ) (known : Cache) (s : Store τ) : Prop :=
  match call.fault with
  | some (.writeCache count) =>
    (newCache call known).length ≤ count ∨ Logged call.deviceTypes s.pending known
  | some .openPending => Logged call.deviceTypes s.pending known
  | some (.writePending count) => (newLog call known).length ≤ count ∨
    Logged call.deviceTypes (Function.update s.pending (logFile clock call) none) known
  | _ => True

/-! ## Logs -/

theorem toList_fileName (number : Nat) : (fileName number).toList = Nat.toDigits 10 number ++ ".json".toList := by
  rw [fileName, String.toList_append, Nat.toString_eq_repr, Nat.toList_repr]

theorem fileName_listed (number : Nat) : helper.filterLog (fileName number) = true := by
  have hdigits : ∀ c ∈ Nat.toDigits 10 number, c.isDigit = true := fun c hc =>
    Nat.isDigit_of_mem_toDigits (by decide) (by decide) hc
  have hne : ∀ c ∈ Nat.toDigits 10 number, c ≠ '.' ∧ c ≠ '/' := fun c hc =>
    ⟨fun h => absurd (h ▸ hdigits c hc) (by decide), fun h => absurd (h ▸ hdigits c hc) (by decide)⟩
  obtain ⟨c, cs, hcons, -⟩ := Json.toDigits_cons number
  have hbase : basename (fileName number).toList = (fileName number).toList := by
    rw [basename, List.takeWhile_eq_self_iff.2, List.reverse_reverse]
    intro c hc
    rw [List.mem_reverse, toList_fileName] at hc
    rcases List.mem_append.1 hc with hc | hc
    · exact decide_eq_true (hne c hc).2
    · exact List.all_eq_true.1 (by decide : ".json".toList.all (fun c => decide (c ≠ '/')) = true) c hc
  have hhidden : Helpers.hidden (fileName number) = false := by
    rw [Helpers.hidden, toList_fileName, hcons]
    have := (hne c (hcons ▸ List.mem_cons_self)).1
    simpa [List.isPrefixOf] using this.symm
  have hext : extension (fileName number).toList = ".json".toList := by
    rw [toList_fileName]
    exact extension_append (by decide) ⟨c, hcons ▸ List.mem_cons_self, (hne c (hcons ▸ List.mem_cons_self)).1⟩
  rw [Helper.filterLog, hhidden, hbase, hext]
  decide

theorem not_holds_none (name : String) (e : Json) : ¬ Holds none name e := by
  rintro ⟨t, ht, -⟩
  cases ht

theorem holds_dumps {known : Cache} (h : Unique known) {name : String} {e : Json} (he : e ∈ section_ known name) :
    Holds (some (dumps (encode known))) name e := ⟨_, rfl, known, parse_dumps h, he⟩

theorem not_holds_take {known : Cache} (h : Unique known) {n : Nat} (hn : n < (dumps (encode known)).length)
    (name : String) (e : Json) : ¬ Holds (some ((dumps (encode known)).take n)) name e := by
  rintro ⟨t, ht, known', hk, -⟩
  cases ht
  rw [parse, parse_take h hn] at hk
  cases hk

/-- A file that is no log is as good as none. -/
theorem inLog_update {pending : String → Option (List Char)} {file name : String} {e : Json}
    {text : Option (List Char)} (h : ¬ Holds text name e) :
    InLog (Function.update pending file text) name e ↔ InLog (Function.update pending file none) name e := by
  refine exists_congr fun file' => and_congr_right fun _ => ?_
  by_cases hf : file' = file
  · subst hf
    rw [Function.update_self, Function.update_self]
    exact iff_of_false h (not_holds_none name e)
  · rw [Function.update_of_ne hf, Function.update_of_ne hf]

/-! ## Every fault -/

theorem logged_of_newLog {clock : Clock τ} {call : Call τ} {known : Cache}
    (hu : Unique (merge call.deviceTypes call.list known)) {pending : String → Option (List Char)} :
    Logged call.deviceTypes (Function.update pending (logFile clock call) (some (newLog call known))) known := by
  intro name type ht he e hm
  have hmem : e ∈ section_ (merge call.deviceTypes call.list known) name := (mem_section_merge ht e).2 (.inl hm)
  have hsection : section_ (filterDisabled call.deviceTypes (merge call.deviceTypes call.list known)) name =
      section_ (merge call.deviceTypes call.list known) name := by
    rw [section_, get?_filterDisabled ht he, section_]
  refine ⟨logFile clock call, fileName_listed _, ?_⟩
  rw [Function.update_self]
  exact holds_dumps (filterDisabled_unique hu _) (hsection.symm ▸ hmem)

/-- Where the cache is gone, the entries must be in the logs. -/
theorem kept_iff_logged {clock : Clock τ} {call : Call τ} {known : Cache} {s s' : Store τ}
    (hc : ∀ name e, ¬ Holds s'.cache name e)
    (ht : s'.timestamp ≠ s.timestamp → s'.pending (logFile clock call) = some (newLog call known)) :
    Kept clock call known s s' ↔ Logged call.deviceTypes s'.pending known := by
  constructor
  · intro h name type hg he e hm
    exact (h.entries name type hg he e hm).resolve_left (hc name e)
  · intro h
    exact ⟨fun name type hg he e hm => .inr (h name type hg he e hm), ht⟩

theorem kept_of_cache {clock : Clock τ} {call : Call τ} {known : Cache} {s s' : Store τ}
    (hc : ∀ name type, call.deviceTypes.get? name = some type → ∀ e ∈ section_ known name, Holds s'.cache name e)
    (ht : s'.timestamp = s.timestamp) : Kept clock call known s s' :=
  ⟨fun name type hg _ e hm => .inl (hc name type hg e hm), fun h => absurd ht h⟩

/-- What each fault of a flush leaves. -/
theorem collect_due {clock : Clock τ} {call : Call τ} {s : Store τ} {known : Cache} {timestamp : τ}
    (hl : ∀ name value, call.list name = some value → unique value = true)
    (hk : readCache s.cache = some known) (ht : s.timestamp = some timestamp)
    (hd : clock.due call.now timestamp = true) : collect clock call s =
      match call.fault with
      | some .makedirs | some .readCache | some .openCache => s
      | some (.writeCache count) => { s with cache := some ((newCache call known).take count) }
      | some .unlink => { s with cache := some (newCache call known) }
      | some .openPending => { s with cache := none }
      | some (.writePending count) => { s with
          cache := none
          pending := Function.update s.pending (logFile clock call) (some ((newLog call known).take count)) }
      | none => {
          cache := none
          pending := Function.update s.pending (logFile clock call) (some (newLog call known))
          timestamp := some call.now } := by
  have hmerge := (mergeAll_eq call.deviceTypes hl (readCache_unique hk)).1
  unfold collect
  rw [hk, Option.bind_some, hmerge]
  cases hf : call.fault with
  | none => simp only [flush, ht, hd, hf, if_true]; rfl
  | some fault => cases fault <;> simp only [flush, ht, hd, hf, if_true] <;> rfl

/-- When a flush is due, its faults lose no entry just when they spare the files,
or come after the whole text, or the entries are in older logs. -/
theorem kept_iff {clock : Clock τ} {call : Call τ} {s : Store τ} {known : Cache} {timestamp : τ}
    (hl : ∀ name value, call.list name = some value → unique value = true)
    (hk : readCache s.cache = some known) (ht : s.timestamp = some timestamp)
    (hd : clock.due call.now timestamp = true) :
    Kept clock call known s (collect clock call s) ↔ Spares clock call known s := by
  have hu := (mergeAll_eq call.deviceTypes hl (readCache_unique hk)).2
  have hold : ∀ name type, call.deviceTypes.get? name = some type → ∀ e ∈ section_ known name,
      Holds s.cache name e := by
    intro name type _ e he
    rcases readCache_eq_some hk with rfl | ⟨text, hc, hp⟩
    · cases he
    · rw [hc]
      exact ⟨text, rfl, known, hp, he⟩
  have hnew : ∀ name type, call.deviceTypes.get? name = some type → ∀ e ∈ section_ known name,
      Holds (some (newCache call known)) name e := fun name type hg e he =>
    holds_dumps hu ((mem_section_merge hg e).2 (.inl he))
  rw [collect_due hl hk ht hd, Spares]
  cases call.fault with
  | none =>
    -- No fault: the entries are in the new log, and the cache is unlinked.
    refine iff_of_true ?_ trivial
    exact (kept_iff_logged not_holds_none fun _ => Function.update_self ..).2 (logged_of_newLog hu)
  | some fault =>
    cases fault with
    | makedirs | readCache | openCache => exact iff_of_true (kept_of_cache hold rfl) trivial
    | unlink => exact iff_of_true (kept_of_cache hnew rfl) trivial
    | writeCache count =>
      dsimp only
      rcases Nat.lt_or_ge count (newCache call known).length with hlt | hge
      -- A cache that is cut short cannot be read.
      · rw [or_iff_right (Nat.not_le.2 hlt)]
        exact kept_iff_logged (not_holds_take hu hlt) fun h => absurd rfl h
      · refine iff_of_true (kept_of_cache ?_ rfl) (.inl hge)
        rw [List.take_of_length_le hge]
        exact hnew
    | openPending => exact kept_iff_logged not_holds_none fun h => absurd rfl h
    | writePending count =>
      dsimp only
      rcases Nat.lt_or_ge count (newLog call known).length with hlt | hge
      · rw [or_iff_right (Nat.not_le.2 hlt)]
        refine Iff.trans (kept_iff_logged not_holds_none fun h => absurd rfl h) ?_
        have hcut := not_holds_take (filterDisabled_unique hu call.deviceTypes) hlt
        refine forall_congr' fun name => forall_congr' fun type => forall_congr' fun _ => forall_congr' fun _ => ?_
        exact forall_congr' fun e => forall_congr' fun _ => inLog_update (hcut name e)
      · refine iff_of_true ?_ (.inl hge)
        rw [List.take_of_length_le hge]
        exact Iff.mpr (kept_iff_logged not_holds_none fun h => absurd rfl h) (logged_of_newLog hu)

/-! ## A week of one device -/

/-- One device in the cache. -/
def oneDevice : Cache := Dict.empty.insert "usb" [.str "1d6b:0002"]

def lastWeek : Store Nat where
  cache := some (dumps (encode oneDevice))
  pending _ := none
  timestamp := some 1700000000

/-- A flush in which nothing is plugged in. -/
def weekly (fault : Option Fault) : Call Nat where
  deviceTypes := Dict.empty.insert "usb" ⟨1, true⟩
  list _ := none
  now := 1700604800
  fault := fault

theorem oneDevice_unique : Unique oneDevice := by
  intro p hp e he
  revert p e
  decide

theorem oneDevice_read : readCache lastWeek.cache = some oneDevice := readCache_dumps oneDevice_unique

/-- The process dies when the whole log is written, and the device is kept. -/
theorem weekly_kept : Kept seconds (weekly (some (.writePending 24))) oneDevice lastWeek
    (collect seconds (weekly (some (.writePending 24))) lastWeek) := by
  have hwhole : (newLog (weekly (some (.writePending 24))) oneDevice).length ≤ 24 := by decide +kernel
  exact (kept_iff (fun _ _ h => by cases h) oneDevice_read rfl (by decide)).2 (.inl hwhole)

/-- The device is lost if the log cannot be opened, or if the process dies before the cache is written. -/
theorem weekly_loses : ¬ Kept seconds (weekly (some .openPending)) oneDevice lastWeek
      (collect seconds (weekly (some .openPending)) lastWeek) ∧
    ¬ Kept seconds (weekly (some (.writeCache 0))) oneDevice lastWeek
      (collect seconds (weekly (some (.writeCache 0))) lastWeek) := by
  have husb : Json.str "1d6b:0002" ∈ section_ oneDevice "usb" := by decide
  have lost : ∀ {fault : Fault} {s' : Store Nat}, collect seconds (weekly (some fault)) lastWeek = s' →
      (∀ name e, ¬ Holds s'.cache name e) → s'.pending = lastWeek.pending →
      ¬ Kept seconds (weekly (some fault)) oneDevice lastWeek (collect seconds (weekly (some fault)) lastWeek) := by
    intro fault s' hs hc hp h
    rw [hs] at h
    rcases h.entries "usb" ⟨1, true⟩ rfl rfl _ husb with he | ⟨file, -, he⟩
    · exact hc _ _ he
    · rw [hp] at he
      exact not_holds_none _ _ he
  have hdue : ∀ fault, seconds.due (weekly fault).now 1700000000 = true := fun _ => rfl
  refine ⟨lost (collect_due (fun _ _ h => by cases h) oneDevice_read rfl (hdue _)) not_holds_none rfl,
    lost (collect_due (fun _ _ h => by cases h) oneDevice_read rfl (hdue _)) (fun name e => ?_) rfl⟩
  rintro ⟨t, ht, known, hk, -⟩
  cases ht
  cases hk

end LogSubmitter.Sysinfo

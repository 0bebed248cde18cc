import LogSubmitter.Sysinfo.Cache
import LogSubmitter.Lib.Runs
import Mathlib.Data.List.Induction
/-!
# Between two flushes

Every collect reads the cache, adds what the types return now and writes it
again. From no cache on, a section has all its type has returned, each entry at
the place where it was first.
-/
namespace LogSubmitter.Sysinfo

open Lib Json

variable {τ : Type}

/-- A collect that comes to its end and does not flush. -/
structure Quiet (clock : Clock τ) (deviceTypes : DeviceTypes) (s : Store τ) (call : Call τ) : Prop where
  deviceTypes : call.deviceTypes = deviceTypes
  fault : call.fault = none
  values : ∀ name value, call.list name = some value → unique value = true
  not_due : ∀ timestamp, s.timestamp = some timestamp → clock.due call.now timestamp = false

def AllEnabled (deviceTypes : DeviceTypes) : Prop :=
  ∀ name type, deviceTypes.get? name = some type → type.enabled = true

/-- The entries of all that the type has returned, in order. -/
def observed (type : SysinfoType) (name : String) (tr : List (Store τ × Call τ)) : List Json :=
  tr.flatMap fun p => entries type (p.2.list name)

/-- The sections have what was observed, the first of equal entries each. There is one for each type that has
returned anything. -/
structure Accumulated (deviceTypes : DeviceTypes) (tr : List (Store τ × Call τ)) (known : Cache) : Prop where
  sections : ∀ name type, deviceTypes.get? name = some type →
    section_ known name = (observed type name tr).eraseDups
  returned : ∀ name type, deviceTypes.get? name = some type →
    (known.get? name = none ↔ ∀ p ∈ tr, p.2.list name = none)
  others : ∀ name, deviceTypes.get? name = none → known.get? name = none

/-- No type returns an entry that it has not returned before. -/
def NothingNew (deviceTypes : DeviceTypes) (tr : List (Store τ × Call τ)) (call : Call τ) : Prop :=
  ∀ name type, deviceTypes.get? name = some type → ∀ e ∈ entries type (call.list name), e ∈ observed type name tr

/-- What returns now has returned before, be it an empty list. -/
def AllSeen (tr : List (Store τ × Call τ)) (call : Call τ) : Prop :=
  ∀ name, call.list name ≠ none → ∃ p ∈ tr, p.2.list name ≠ none

/-! ## Sections as lists -/

/-- Adding entries one by one keeps the first of equal ones. -/
theorem foldl_addDev_eq_eraseDups (l : List Json) : l.foldl addDev [] = l.eraseDups := by
  induction l using List.reverseRecOn with
  | nil => rfl
  | append_singleton l dev ih =>
    rw [List.foldl_append, ih, List.eraseDups_append, List.foldl_cons, List.foldl_nil, addDev]
    by_cases h : dev ∈ l
    · simp [h, List.removeAll]
    · simp [h, List.removeAll, List.eraseDups_cons]

theorem mergeSection_eraseDups (version : Int) (old : List Json) (value : Json) :
    mergeSection version old.eraseDups value = (old ++ newEntries version value).eraseDups := by
  have hnodup : (old.foldl addDev []).Nodup := foldl_addDev_nodup List.nodup_nil
  have hagain : (old.foldl addDev []).foldl addDev [] = old.foldl addDev [] :=
    @foldl_addDev_append (old.foldl addDev []) [] (by simpa using hnodup)
  rw [mergeSection, ← foldl_addDev_eq_eraseDups old, hagain, ← foldl_addDev_eq_eraseDups, List.foldl_append]

theorem observed_snoc (type : SysinfoType) (name : String) (tr : List (Store τ × Call τ)) (p : Store τ × Call τ) :
    observed type name (tr ++ [p]) = observed type name tr ++ entries type (p.2.list name) := by
  simp [observed]

/-- With all types enabled, each result is put into its own section. -/
theorem got_of_enabled {deviceTypes : DeviceTypes} (he : AllEnabled deviceTypes) (list : String → Option Json)
    {name : String} {type : SysinfoType} (ht : deviceTypes.get? name = some type) :
    got deviceTypes list name = list name := by
  have hfirst : EnabledFirst deviceTypes := List.pairwise_of_forall_mem_list fun a ha _ _ _ =>
    he a.1 a.2 (mem_sortedTypes.1 ha)
  rw [got_of_enabledFirst hfirst list ht, own, if_pos (he name type ht)]

/-! ## One collect -/

section
variable {clock : Clock τ} {deviceTypes : DeviceTypes} {s : Store τ} {call : Call τ} {known : Cache}
  {tr : List (Store τ × Call τ)}

/-- A quiet collect writes the merged cache. -/
theorem collect_quiet (hq : Quiet clock deviceTypes s call) (hk : readCache s.cache = some known) :
    (collect clock call s).cache = some (dumps (encode (merge deviceTypes call.list known))) ∧
      Unique (merge deviceTypes call.list known) := by
  obtain ⟨rfl, hf, hv, hd⟩ := hq
  obtain ⟨hmerge, hu⟩ := mergeAll_eq call.deviceTypes hv (readCache_unique hk)
  refine ⟨?_, hu⟩
  unfold collect
  rw [hk, Option.bind_some, hmerge]
  simp only [hf, flush]
  cases ht : s.timestamp with
  | none => rfl
  | some timestamp =>
    simp only [hd timestamp ht, Bool.false_eq_true, if_false]
    split <;> rfl

theorem accumulated_nil : Accumulated deviceTypes ([] : List (Store τ × Call τ)) .empty :=
  ⟨fun _ _ _ => rfl, fun _ _ _ => iff_of_true rfl fun _ h => absurd h List.not_mem_nil, fun _ _ => rfl⟩

/-- A merge adds what the call observed. -/
theorem Accumulated.merge (he : AllEnabled deviceTypes)
    (h : Accumulated deviceTypes tr known) (s : Store τ) (call : Call τ) :
    Accumulated deviceTypes (tr ++ [(s, call)]) (merge deviceTypes call.list known) := by
  refine ⟨fun name type ht => ?_, fun name type ht => ?_, fun name ht => ?_⟩
  · rw [observed_snoc, section_, get?_merge, ht, got_of_enabled he call.list ht]
    cases hl : call.list name with
    | none =>
      rw [entries, Option.elim_none, List.append_nil]
      exact h.sections name type ht
    | some value =>
      rw [h.sections name type ht]
      exact mergeSection_eraseDups type.version (observed type name tr) value
  · rw [get?_merge, ht, got_of_enabled he call.list ht]
    simp only [List.forall_mem_append, List.forall_mem_singleton]
    cases hl : call.list name with
    | none => simpa only [and_true] using h.returned name type ht
    | some value => simp
  · rw [get?_merge, ht]
    cases got deviceTypes call.list name <;> exact h.others name ht

/-- Sections with what is new in them already stay as they are. -/
theorem foldl_mergeDevice_of_same {ds : List (String × Json)}
    (hd : ∀ d ∈ ds, ∀ type, deviceTypes.get? d.1 = some type →
      known.get? d.1 = some (mergeSection type.version (section_ known d.1) d.2)) :
    ds.foldl (mergeDevice deviceTypes) known = known := by
  induction ds with
  | nil => rfl
  | cons d ds ih =>
    have hsame : mergeDevice deviceTypes known d = known := by
      unfold mergeDevice
      cases ht : deviceTypes.get? d.1 with
      | none => rfl
      | some type => exact Dict.insert_of_get? (hd d List.mem_cons_self type ht)
    rw [List.foldl_cons, hsame]
    exact ih fun e he => hd e (List.mem_cons_of_mem _ he)

theorem section_merge_of_nothingNew (he : AllEnabled deviceTypes)
    (h : Accumulated deviceTypes tr known) (hn : NothingNew deviceTypes tr call) (name : String) :
    section_ (Sysinfo.merge deviceTypes call.list known) name = section_ known name := by
  cases ht : deviceTypes.get? name with
  | none =>
    rw [section_, get?_merge, ht]
    cases got deviceTypes call.list name <;> rfl
  | some type =>
    rw [(h.merge he ⟨none, fun _ => none, none⟩ call).sections name type ht, h.sections name type ht, observed_snoc,
      ← foldl_addDev_eq_eraseDups, List.foldl_append, foldl_addDev_of_subset, foldl_addDev_eq_eraseDups]
    intro e hm
    rw [foldl_addDev_eq_eraseDups, List.mem_eraseDups]
    exact hn name type ht e hm

theorem merge_of_nothingNew (he : AllEnabled deviceTypes)
    (h : Accumulated deviceTypes tr known) (hn : NothingNew deviceTypes tr call) (ha : AllSeen tr call) :
    Sysinfo.merge deviceTypes call.list known = known := by
  refine foldl_mergeDevice_of_same fun d hd type ht => ?_
  have hgot : got deviceTypes call.list d.1 = some d.2 := (Assoc.get_eq_some (devices_nodup _ _)).2 hd
  have hmerge := get?_merge deviceTypes call.list known d.1
  rw [hgot, ht] at hmerge
  have hlist : call.list d.1 = some d.2 := (got_of_enabled he call.list ht).symm.trans hgot
  obtain ⟨p, hp, hne⟩ := ha d.1 (hlist ▸ Option.some_ne_none d.2)
  obtain ⟨devs, hdevs⟩ := Option.ne_none_iff_exists'.1 fun hnone =>
    hne ((h.returned d.1 type ht).1 hnone p hp)
  have hsection := section_merge_of_nothingNew he h hn d.1
  rw [section_, hmerge, Option.getD_some] at hsection
  rw [hsection, section_, hdevs, Option.getD_some]

end

/-! ## Every run -/

section
variable {clock : Clock τ} {deviceTypes : DeviceTypes} {s₀ s : Store τ} {tr : List (Store τ × Call τ)}

def Step (clock : Clock τ) (s : Store τ) (call : Call τ) (s' : Store τ) : Prop := s' = collect clock call s

theorem accumulated_of_run (he : AllEnabled deviceTypes)
    (h : Run (Step clock) s₀ tr s) (h0 : s₀.cache = none) (hq : ∀ p ∈ tr, Quiet clock deviceTypes p.1 p.2) :
    ∃ known, readCache s.cache = some known ∧ Accumulated deviceTypes tr known ∧
      (tr ≠ [] → s.cache = some (dumps (encode known))) := by
  induction h with
  | nil => exact ⟨.empty, by rw [h0]; rfl, accumulated_nil, fun h => absurd rfl h⟩
  | @snoc tr s' call s'' _ hs ih =>
    obtain ⟨known, hread, ha, -⟩ := ih fun p hp => hq p (List.mem_append_left _ hp)
    obtain ⟨hcache, hu⟩ := collect_quiet (hq (s', call) (by simp)) hread
    rw [← hs] at hcache
    exact ⟨_, by rw [hcache, readCache_dumps hu], ha.merge he s' call, fun _ => hcache⟩

/-- After any collects between two flushes, from no cache on, the file has what was observed. A collect that observes
nothing new leaves every section as it is, and the file too if it opens no section. -/
theorem cache_accumulated (he : AllEnabled deviceTypes)
    (h : Run (Step clock) s₀ tr s) (h0 : s₀.cache = none) (hq : ∀ p ∈ tr, Quiet clock deviceTypes p.1 p.2)
    (hne : tr ≠ []) :
    ∃ known, s.cache = some (dumps (encode known)) ∧ parse (dumps (encode known)) = some known ∧
      Accumulated deviceTypes tr known ∧
      ∀ call, Quiet clock deviceTypes s call → NothingNew deviceTypes tr call →
        ∃ known', (collect clock call s).cache = some (dumps (encode known')) ∧
          (∀ name, section_ known' name = section_ known name) ∧ (AllSeen tr call → known' = known) := by
  obtain ⟨known, hread, ha, hc⟩ := accumulated_of_run he h h0 hq
  refine ⟨known, hc hne, parse_dumps (readCache_unique hread), ha, fun call hcall hn => ?_⟩
  obtain ⟨hcache, -⟩ := collect_quiet hcall hread
  exact ⟨_, hcache, section_merge_of_nothingNew he ha hn, merge_of_nothingNew he ha hn⟩

end

/-! ## Two collects -/

def noCache : Store Nat := ⟨none, fun _ => none, none⟩

/-- USB devices are found, and no audio device. -/
def plugged (now : Nat) (devs : List Json) : Call Nat where
  deviceTypes := (Dict.empty.insert "audio" ⟨1, true⟩).insert "usb" ⟨1, true⟩
  list name := if name = "usb" then some (.arr devs) else none
  now := now
  fault := none

def hub : List (String × Json) := [("vid", .str "1d6b"), ("pid", .str "0002")]

/-- The same device twice, with its keys in another order, and then one more. -/
def pluggedTwice : List (Store Nat × Call Nat) :=
  [(noCache, plugged 1 [.obj hub]),
    (collect seconds (plugged 1 [.obj hub]) noCache, plugged 2 [.obj hub.reverse, .str "046d:c52b"])]

theorem plugged_quiet (s : Store Nat) {now : Nat} {devs : List Json} (hn : now < 604800)
    (hd : unique (.arr devs) = true) : Quiet seconds (plugged 1 []).deviceTypes s (plugged now devs) := by
  refine ⟨rfl, rfl, fun name value h => ?_, fun timestamp _ => ?_⟩
  · unfold plugged at h
    simp only at h
    split at h
    · cases h
      exact hd
    · cases h
  · exact decide_eq_false (by simp only [plugged]; omega)

theorem plugged_accumulated : ∃ s, Run (Step seconds) noCache pluggedTwice s ∧
    (observed ⟨1, true⟩ "usb" pluggedTwice).eraseDups =
      [.obj [("_version", .num 1), ("pid", .str "0002"), ("vid", .str "1d6b")], .str "046d:c52b"] ∧
    ∃ known, s.cache = some (dumps (encode known)) ∧ parse (dumps (encode known)) = some known ∧
      Accumulated (plugged 1 []).deviceTypes pluggedTwice known ∧
      ∀ call, Quiet seconds (plugged 1 []).deviceTypes s call →
        NothingNew (plugged 1 []).deviceTypes pluggedTwice call →
        ∃ known', (collect seconds call s).cache = some (dumps (encode known')) ∧
          (∀ name, section_ known' name = section_ known name) ∧ (AllSeen pluggedTwice call → known' = known) := by
  have hrun : Run (Step seconds) noCache pluggedTwice _ := (Run.nil.snoc rfl).snoc rfl
  have henabled : ∀ p ∈ (plugged 1 []).deviceTypes.items, p.2.enabled = true := by decide
  refine ⟨_, hrun, by decide, cache_accumulated (fun name type ht => ?_) hrun rfl (fun p hp => ?_)
    (List.cons_ne_nil _ _)⟩
  · exact henabled _ (Dict.get?_eq_some.1 ht)
  · simp only [pluggedTwice, List.mem_cons, List.not_mem_nil, or_false] at hp
    rcases hp with rfl | rfl
    · exact plugged_quiet _ (by decide) rfl
    · exact plugged_quiet _ (by decide) rfl

/-- Nothing is found, and the type of USB devices returns `None`. -/
def unplugged (now : Nat) : Call Nat where
  deviceTypes := (plugged now []).deviceTypes
  list _ := none
  now := now
  fault := none

theorem unplugged_quiet : Quiet seconds (plugged 1 []).deviceTypes noCache (unplugged 1) :=
  ⟨rfl, rfl, nofun, nofun⟩

/-- What it leaves. -/
def emptyCache : Store Nat := ⟨some "\x7b\x7d".toList, fun _ => none, some 1⟩

theorem collect_unplugged : collect seconds (unplugged 1) noCache = emptyCache := by
  have hcache : (collect seconds (unplugged 1) noCache).cache = emptyCache.cache := by decide +kernel
  have hpending : (collect seconds (unplugged 1) noCache).pending = emptyCache.pending := rfl
  have htimestamp : (collect seconds (unplugged 1) noCache).timestamp = emptyCache.timestamp := by decide +kernel
  generalize collect seconds (unplugged 1) noCache = s at *
  obtain ⟨cache, pending, timestamp⟩ := s
  cases hcache
  cases hpending
  cases htimestamp
  rfl

/-- After `None` an empty list is nothing new, and opens a section. -/
theorem empty_list_opens_section :
    Run (Step seconds) noCache [(noCache, unplugged 1)] emptyCache ∧ AllEnabled (plugged 1 []).deviceTypes ∧
    Quiet seconds (plugged 1 []).deviceTypes noCache (unplugged 1) ∧
    Quiet seconds (plugged 1 []).deviceTypes emptyCache (plugged 2 []) ∧
    NothingNew (plugged 1 []).deviceTypes [(noCache, unplugged 1)] (plugged 2 []) ∧
    emptyCache.cache = some "\x7b\x7d".toList ∧
    (collect seconds (plugged 2 []) emptyCache).cache = some "\x7b\"usb\": []\x7d".toList := by
  have henabled : ∀ p ∈ (plugged 1 []).deviceTypes.items, p.2.enabled = true := by decide
  refine ⟨Run.nil.snoc collect_unplugged.symm, fun name type ht => henabled _ (Dict.get?_eq_some.1 ht),
    unplugged_quiet, plugged_quiet _ (by decide) rfl, ?_, rfl, by decide +kernel⟩
  intro name type _ e he
  unfold plugged at he
  dsimp only at he
  split at he <;> cases he

end LogSubmitter.Sysinfo

import LogSubmitter.Json
import Mathlib.Data.List.Sort
/-!
# The sysinfo cache

`SysinfoHelper.collect` asks every enabled type for its devices and merges the
answers into `sysinfo-pending.json`, one section a type. The answers come back
as one list, in the sorted order of the enabled types, and are given names
again by zipping that list with the sorted names of *all* types.
-/
namespace LogSubmitter.Sysinfo

open Lib

/-- A registered type. `enabled` is what `SysinfoType.enabled` reads from the config. -/
structure SysinfoType where
  version : Int
  enabled : Bool
  deriving DecidableEq, Repr

/-- `SysinfoHelper.device_types`, by `snake_case` name. -/
abbrev DeviceTypes := Dict String SysinfoType

/-- The cache file: a list of entries a section. -/
abbrev Cache := Dict String (List Json)

/-- The entries of a section, none if the section is missing. -/
def section_ (known : Cache) (name : String) : List Json := (known.get? name).getD []

/-! ## Collecting the devices -/

/-- `types = sorted(cls.device_types.items())`. -/
def sortedTypes (deviceTypes : DeviceTypes) : List (String × SysinfoType) :=
  deviceTypes.items.insertionSort (fun a b => a.1 ≤ b.1)

/-- `results = await asyncio.gather(...)`: `cls.list(name)` of the enabled types,
`none` where it returned `None` or raised. -/
def results (list : String → Option Json) (types : List (String × SysinfoType)) : List (Option Json) :=
  (types.filter (·.2.enabled)).map fun t => list t.1

/-- `devices`: the results that are not `None`, named after the sorted types. -/
def devices (types : List (String × SysinfoType)) (results : List (Option Json)) : List (String × Json) :=
  ((types.map Prod.fst).zip results).filterMap fun p => p.2.map fun v => (p.1, v)

/-! ## Merging one section -/

/-- `devs[json.dumps(dev)] = True`: a text that is there already keeps its place. -/
def addDev (devs : List Json) (dev : Json) : List Json :=
  if dev ∈ devs then devs else devs ++ [dev]

/-- `collections.OrderedDict(sorted(dev.items()))`. -/
def sortKeys (fields : List (String × Json)) : List (String × Json) :=
  fields.insertionSort (fun a b => a.1 ≤ b.1)

/-- The entries a result adds to its section, in order: the items of a list,
with `_version` and sorted keys if they are dicts, or one dict with `_version`. -/
def newEntries (version : Int) : Json → List Json
  | .arr value => value.map fun
    | .obj dev => .obj (sortKeys (Assoc.set "_version" (.num version) dev))
    | dev => dev
  | .obj value => [.obj (Assoc.set "_version" (.num version) value)]
  | _ => []

/-- The section's new content: the known entries, then the new ones, each once. -/
def mergeSection (version : Int) (old : List Json) (value : Json) : List Json :=
  (newEntries version value).foldl addDev (old.foldl addDev [])

/-- One round of `for section in devices.keys()`. -/
def mergeDevice (deviceTypes : DeviceTypes) (known : Cache) (device : String × Json) : Cache :=
  match deviceTypes.get? device.1 with
  | none => known
  | some type => known.insert device.1 (mergeSection type.version (section_ known device.1) device.2)

/-- The merge step of `SysinfoHelper.collect`. -/
def merge (deviceTypes : DeviceTypes) (list : String → Option Json) (known : Cache) : Cache :=
  (devices (sortedTypes deviceTypes) (results list (sortedTypes deviceTypes))).foldl
    (mergeDevice deviceTypes) known

/-! ## Sections as sets -/

theorem mem_addDev {devs : List Json} {dev e : Json} : e ∈ addDev devs dev ↔ e ∈ devs ∨ e = dev := by
  unfold addDev
  split
  · rename_i h
    constructor
    · exact .inl
    · rintro (he | rfl)
      · exact he
      · exact h
  · simp

theorem mem_foldl_addDev {new devs : List Json} {e : Json} :
    e ∈ new.foldl addDev devs ↔ e ∈ devs ∨ e ∈ new := by
  induction new generalizing devs with
  | nil => simp
  | cons d new ih => rw [List.foldl_cons, ih, mem_addDev, List.mem_cons, or_assoc]

theorem mem_mergeSection {version : Int} {old : List Json} {value e : Json} :
    e ∈ mergeSection version old value ↔ e ∈ old ∨ e ∈ newEntries version value := by
  simp [mergeSection, mem_foldl_addDev]

theorem addDev_nodup {devs : List Json} (h : devs.Nodup) (dev : Json) : (addDev devs dev).Nodup := by
  unfold addDev
  split
  · exact h
  · rename_i hn
    exact List.nodup_append.2 ⟨h, by simp, fun a ha b hb => by
      rw [List.mem_singleton] at hb
      rintro rfl
      exact hn (hb ▸ ha)⟩

theorem foldl_addDev_nodup {new devs : List Json} (h : devs.Nodup) : (new.foldl addDev devs).Nodup := by
  induction new generalizing devs with
  | nil => exact h
  | cons d new ih => exact ih (addDev_nodup h d)

theorem mergeSection_nodup (version : Int) (old : List Json) (value : Json) :
    (mergeSection version old value).Nodup :=
  foldl_addDev_nodup (foldl_addDev_nodup List.nodup_nil)

/-- Entries that are all known add nothing. -/
theorem foldl_addDev_of_subset {new devs : List Json} (h : ∀ e ∈ new, e ∈ devs) :
    new.foldl addDev devs = devs := by
  induction new with
  | nil => rfl
  | cons d new ih =>
    rw [List.foldl_cons, addDev, if_pos (h d List.mem_cons_self)]
    exact ih fun e he => h e (List.mem_cons_of_mem _ he)

/-- A list without repetition is its own merge with nothing. -/
theorem foldl_addDev_append {new devs : List Json} (h : (devs ++ new).Nodup) :
    new.foldl addDev devs = devs ++ new := by
  induction new generalizing devs with
  | nil => simp
  | cons d new ih =>
    have hd : d ∉ devs := fun hm => by
      rw [List.nodup_append] at h
      exact h.2.2 d hm d List.mem_cons_self rfl
    rw [List.foldl_cons, addDev, if_neg hd, ih (by simpa using h), List.append_assoc, List.singleton_append]

/-- A merge leaves a section as it is just when the section repeats no entry and
has every new one. -/
theorem mergeSection_eq_iff {version : Int} {old : List Json} {value : Json} :
    mergeSection version old value = old ↔ old.Nodup ∧ ∀ e ∈ newEntries version value, e ∈ old := by
  constructor
  · intro h
    refine ⟨h ▸ mergeSection_nodup version old value, fun e he => ?_⟩
    rw [← h]
    exact mem_mergeSection.2 (.inr he)
  · rintro ⟨hn, hs⟩
    rw [mergeSection, @foldl_addDev_append old [] (by simpa using hn), List.nil_append,
      foldl_addDev_of_subset hs]

/-! ## Which section a result lands in -/

/-- The result that stands at the type's place. -/
def got (deviceTypes : DeviceTypes) (list : String → Option Json) (name : String) : Option Json :=
  Assoc.get name (devices (sortedTypes deviceTypes) (results list (sortedTypes deviceTypes)))

theorem sortedTypes_perm (deviceTypes : DeviceTypes) : (sortedTypes deviceTypes).Perm deviceTypes.items :=
  List.perm_insertionSort _ _

theorem sortedTypes_nodup (deviceTypes : DeviceTypes) : ((sortedTypes deviceTypes).map Prod.fst).Nodup :=
  ((sortedTypes_perm deviceTypes).map Prod.fst).nodup_iff.2 deviceTypes.nodup

theorem mem_sortedTypes {deviceTypes : DeviceTypes} {name : String} {type : SysinfoType} :
    (name, type) ∈ sortedTypes deviceTypes ↔ deviceTypes.get? name = some type := by
  rw [(sortedTypes_perm deviceTypes).mem_iff, Dict.get?_eq_some]

theorem devices_keys_sublist (types : List (String × SysinfoType)) (rs : List (Option Json)) :
    ((devices types rs).map Prod.fst).Sublist (types.map Prod.fst) := by
  unfold devices
  induction types generalizing rs with
  | nil => simp
  | cons t types ih =>
    cases rs with
    | nil => simp
    | cons r rs =>
      cases r with
      | none => simpa using (ih rs).cons t.1
      | some v => simpa using (ih rs).cons_cons t.1

theorem devices_nodup (deviceTypes : DeviceTypes) (rs : List (Option Json)) :
    ((devices (sortedTypes deviceTypes) rs).map Prod.fst).Nodup :=
  (devices_keys_sublist _ _).nodup (sortedTypes_nodup deviceTypes)

theorem section_insert_of_ne {known : Cache} {sect name : String} (h : name ≠ sect) (l : List Json) :
    section_ (known.insert sect l) name = section_ known name := by
  rw [section_, Dict.get?_insert_of_ne _ h, section_]

/-- Merging devices with distinct names merges each section once. -/
theorem get?_foldl_mergeDevice {deviceTypes : DeviceTypes} {ds : List (String × Json)}
    (hn : (ds.map Prod.fst).Nodup) (hr : ∀ d ∈ ds, ∃ type, deviceTypes.get? d.1 = some type)
    (known : Cache) (name : String) :
    (ds.foldl (mergeDevice deviceTypes) known).get? name =
      match Assoc.get name ds, deviceTypes.get? name with
      | some value, some type => some (mergeSection type.version (section_ known name) value)
      | _, _ => known.get? name := by
  induction ds generalizing known with
  | nil => rfl
  | cons d ds ih =>
    obtain ⟨sect, value⟩ := d
    simp only [List.map_cons, List.nodup_cons] at hn
    obtain ⟨type, ht⟩ := hr _ List.mem_cons_self
    have ht' : deviceTypes.get? sect = some type := ht
    rw [List.foldl_cons, ih hn.2 (fun e he => hr e (List.mem_cons_of_mem _ he)), Assoc.get_cons]
    simp only [mergeDevice, ht']
    by_cases h : sect = name
    · subst h
      have hnone : Assoc.get sect ds = none := Assoc.get_eq_none.2 hn.1
      simp [hnone, ht']
    · simp only [if_neg h, section_insert_of_ne (Ne.symm h), Dict.get?_insert_of_ne _ (Ne.symm h)]

theorem get?_merge (deviceTypes : DeviceTypes) (list : String → Option Json) (known : Cache) (name : String) :
    (merge deviceTypes list known).get? name =
      match got deviceTypes list name, deviceTypes.get? name with
      | some value, some type => some (mergeSection type.version (section_ known name) value)
      | _, _ => known.get? name := by
  refine get?_foldl_mergeDevice (devices_nodup _ _) (fun d hd => ?_) known name
  have hm : d.1 ∈ (sortedTypes deviceTypes).map Prod.fst :=
    (devices_keys_sublist _ _).subset (List.mem_map_of_mem hd)
  obtain ⟨t, htm, he⟩ := List.mem_map.1 hm
  exact ⟨t.2, mem_sortedTypes.1 (by rw [← he]; exact htm)⟩

/-! ## What a merge should do -/

/-- The type's own result in this call. -/
def own (list : String → Option Json) (name : String) (type : SysinfoType) : Option Json :=
  if type.enabled then list name else none

/-- The entries a result would add to the section of `type`. -/
def entries (type : SysinfoType) (value : Option Json) : List Json :=
  value.elim [] (newEntries type.version)

/-- Every new entry of a section comes from its own type, nothing an enabled
type returned is missing, and the section of a disabled type is untouched. -/
structure MergeOk (deviceTypes : DeviceTypes) (list : String → Option Json) (before after : Cache) : Prop where
  fresh : ∀ name type, deviceTypes.get? name = some type → ∀ e ∈ section_ after name,
    e ∉ section_ before name → e ∈ entries type (own list name type)
  complete : ∀ name type, deviceTypes.get? name = some type → type.enabled = true →
    ∀ e ∈ entries type (list name), e ∈ section_ after name
  untouched : ∀ name type, deviceTypes.get? name = some type → type.enabled = false →
    after.get? name = before.get? name

/-- No disabled type sorts before an enabled one. -/
def EnabledFirst (deviceTypes : DeviceTypes) : Prop :=
  (sortedTypes deviceTypes).Pairwise fun a b => b.2.enabled = true → a.2.enabled = true

/-- The result at the type's place is another type's, but changes nothing that
its own result would not have changed. -/
def Harmless (deviceTypes : DeviceTypes) (list : String → Option Json) (before : Cache) (name : String)
    (type : SysinfoType) : Prop :=
  if type.enabled then
    (∀ e ∈ entries type (got deviceTypes list name), e ∈ section_ before name ∨ e ∈ entries type (list name)) ∧
    ∀ e ∈ entries type (list name), e ∈ section_ before name ∨ e ∈ entries type (got deviceTypes list name)
  else
    ∀ value, got deviceTypes list name = some value →
      ∃ old, before.get? name = some old ∧ old.Nodup ∧ ∀ e ∈ newEntries type.version value, e ∈ old

theorem mem_section_merge {deviceTypes : DeviceTypes} {list : String → Option Json} {known : Cache}
    {name : String} {type : SysinfoType} (ht : deviceTypes.get? name = some type) (e : Json) :
    e ∈ section_ (merge deviceTypes list known) name ↔
      e ∈ section_ known name ∨ e ∈ entries type (got deviceTypes list name) := by
  have hm := get?_merge deviceTypes list known name
  rw [ht] at hm
  cases hg : got deviceTypes list name with
  | none => rw [hg] at hm; simp [section_, hm, entries]
  | some value =>
    rw [hg] at hm
    simp only [section_, hm, Option.getD_some, entries, Option.elim_some]
    exact mem_mergeSection

theorem merge_untouched_iff {deviceTypes : DeviceTypes} {list : String → Option Json} {known : Cache}
    {name : String} {type : SysinfoType} (ht : deviceTypes.get? name = some type) :
    (merge deviceTypes list known).get? name = known.get? name ↔
      ∀ value, got deviceTypes list name = some value →
        ∃ old, known.get? name = some old ∧ old.Nodup ∧ ∀ e ∈ newEntries type.version value, e ∈ old := by
  have hm := get?_merge deviceTypes list known name
  rw [ht] at hm
  cases hg : got deviceTypes list name with
  | none => rw [hg] at hm; simp [hm]
  | some value =>
    rw [hg] at hm
    rw [hm]
    cases hk : known.get? name with
    | none => simp
    | some old =>
      simp only [section_, hk, Option.getD_some, Option.some.injEq, forall_eq', exists_eq_left']
      exact mergeSection_eq_iff

/-- The merge does what it should for the type just when the result at its
place is its own or harmless. -/
theorem mergeOk_iff_harmless (deviceTypes : DeviceTypes) (list : String → Option Json) (known : Cache) :
    MergeOk deviceTypes list known (merge deviceTypes list known) ↔
      ∀ name type, deviceTypes.get? name = some type → Harmless deviceTypes list known name type := by
  constructor
  · intro h name type ht
    unfold Harmless
    split
    · rename_i he
      refine ⟨fun e hm => ?_, fun e hm => (mem_section_merge ht e).1 (h.complete name type ht he e hm)⟩
      by_cases hb : e ∈ section_ known name
      · exact .inl hb
      -- An entry that was not known is one that the helper lists.
      · have := h.fresh name type ht e ((mem_section_merge ht e).2 (.inr hm)) hb
        rw [own, if_pos he] at this
        exact .inr this
    · rename_i he
      exact (merge_untouched_iff ht).1 (h.untouched name type ht (by simpa using he))
  · intro h
    refine ⟨fun name type ht e hm hb => ?_, fun name type ht he e hm => ?_, fun name type ht he => ?_⟩
    · have hh := h name type ht
      unfold Harmless at hh
      split at hh
      · rename_i he
        rw [own, if_pos he]
        exact (hh.1 e (((mem_section_merge ht e).1 hm).resolve_left hb)).resolve_left hb
      · have hu := (merge_untouched_iff ht).2 hh
        rw [section_, hu] at hm
        exact absurd hm hb
    · have hh := h name type ht
      rw [Harmless, if_pos he] at hh
      exact (mem_section_merge ht e).2 (hh.2 e hm)
    · have hh := h name type ht
      rw [Harmless, if_neg (by simp [he])] at hh
      exact (merge_untouched_iff ht).2 hh

theorem harmless_of_own {deviceTypes : DeviceTypes} {list : String → Option Json} {known : Cache}
    {name : String} {type : SysinfoType} (h : got deviceTypes list name = own list name type) :
    Harmless deviceTypes list known name type := by
  unfold Harmless
  split
  · rename_i he
    rw [own, if_pos he] at h
    exact ⟨fun e hm => .inr (h ▸ hm), fun e hm => .inr (h.symm ▸ hm)⟩
  · rename_i he
    rw [own, if_neg he] at h
    simp [h]

/-! ## Enabled types first -/

/-- With the enabled types first, the list is its enabled part and then the rest. -/
theorem split_of_enabledFirst {types : List (String × SysinfoType)}
    (h : types.Pairwise fun a b => b.2.enabled = true → a.2.enabled = true) :
    types = types.filter (·.2.enabled) ++ types.filter (!·.2.enabled) := by
  induction types with
  | nil => rfl
  | cons t types ih =>
    rw [List.pairwise_cons] at h
    cases he : t.2.enabled with
    | true => simpa [he] using ih h.2
    | false =>
      have hall : ∀ u ∈ types, u.2.enabled = false := fun u hu => by
        by_contra hc
        have := h.1 u hu (by simpa using hc)
        rw [he] at this
        cases this
      have hnil : types.filter (·.2.enabled) = [] := List.filter_eq_nil_iff.2 fun u hu => by simp [hall u hu]
      have hid : types.filter (!·.2.enabled) = types := List.filter_eq_self.2 fun u hu => by simp [hall u hu]
      simp [he, hnil, hid]

/-- Names zipped with their own results, and then names without a result. -/
theorem get_devices_append (list : String → Option Json) (es ds : List (String × SysinfoType)) (name : String) :
    Assoc.get name (devices (es ++ ds) (es.map fun t => list t.1)) =
      if name ∈ es.map Prod.fst then list name else none := by
  induction es with
  | nil => simp [devices]
  | cons t es ih =>
    simp only [devices, List.cons_append, List.map_cons, List.zip_cons_cons, List.filterMap_cons] at ih ⊢
    by_cases h : t.1 = name
    · subst h
      cases hl : list t.1 with
      | none =>
        simp only [Option.map_none, List.mem_cons, true_or, if_true, ih]
        split
        · exact hl
        · rfl
      | some v => simp [Assoc.get_cons]
    · cases hl : list t.1 with
      | none => simp only [Option.map_none, ih, List.mem_cons, Ne.symm h, false_or]
      | some v => simp only [Option.map_some, Assoc.get_cons, if_neg h, ih, List.mem_cons, Ne.symm h, false_or]

/-- With the enabled types first, every result stands at its own place. -/
theorem got_of_enabledFirst {deviceTypes : DeviceTypes} (h : EnabledFirst deviceTypes)
    (list : String → Option Json) {name : String} {type : SysinfoType}
    (ht : deviceTypes.get? name = some type) : got deviceTypes list name = own list name type := by
  have hs := split_of_enabledFirst h
  have hr : results list (sortedTypes deviceTypes) =
      ((sortedTypes deviceTypes).filter (·.2.enabled)).map fun t => list t.1 := rfl
  have hd := get_devices_append list ((sortedTypes deviceTypes).filter (·.2.enabled))
    ((sortedTypes deviceTypes).filter (!·.2.enabled)) name
  rw [← hs] at hd
  rw [got, hr, hd]
  have hiff : name ∈ ((sortedTypes deviceTypes).filter (·.2.enabled)).map Prod.fst ↔ type.enabled = true := by
    rw [List.mem_map]
    constructor
    · rintro ⟨t, hm, rfl⟩
      obtain ⟨hm, he⟩ := List.mem_filter.1 hm
      rw [mem_sortedTypes.1 hm, Option.some.injEq] at ht
      exact ht ▸ he
    · intro he
      exact ⟨(name, type), List.mem_filter.2 ⟨mem_sortedTypes.2 ht, he⟩, rfl⟩
  simp only [own, hiff]

/-- When every result is an empty list, the first types get one each, as many
as are enabled. -/
theorem get_devices_some {types : List (String × SysinfoType)} (n : Nat) {name : String}
    (h : name ∈ (types.take n).map Prod.fst) :
    ∃ value, Assoc.get name (devices types (List.replicate n (some (.arr [])))) = some value := by
  induction types generalizing n with
  | nil => simp at h
  | cons t types ih =>
    cases n with
    | zero => simp at h
    | succ n =>
      simp only [devices, List.map_cons, List.replicate_succ, List.zip_cons_cons, List.filterMap_cons,
        Option.map_some, Assoc.get_cons] at ih ⊢
      split
      · exact ⟨_, rfl⟩
      · rename_i hne
        refine ih n ?_
        simpa [Ne.symm hne] using h

/-- If the first `n` types are enabled, `n` being how many are, they are all. -/
theorem pairwise_of_take {types : List (String × SysinfoType)}
    (h : ∀ t ∈ types.take (types.filter (·.2.enabled)).length, t.2.enabled = true) :
    types.Pairwise fun a b => b.2.enabled = true → a.2.enabled = true := by
  set n := (types.filter (·.2.enabled)).length with hn
  have hle : n ≤ types.length := List.length_filter_le _ _
  have hcount : (types.take n).filter (·.2.enabled) = types.take n := List.filter_eq_self.2 h
  have hdrop : (types.drop n).filter (·.2.enabled) = [] := by
    have hsum : n = n + ((types.drop n).filter (·.2.enabled)).length := by
      conv_lhs => rw [hn, ← List.take_append_drop n types, List.filter_append, List.length_append, hcount,
        List.length_take_of_le hle]
    exact List.eq_nil_of_length_eq_zero (by omega)
  rw [← List.take_append_drop n types, List.pairwise_append]
  refine ⟨?_, ?_, fun a ha b _ _ => h a ha⟩
  · exact List.pairwise_of_forall_mem_list fun a ha b _ _ => h a ha
  · refine List.pairwise_of_forall_mem_list fun a _ b hb he => ?_
    exact absurd he (List.filter_eq_nil_iff.1 hdrop b hb)

theorem enabledFirst_of_mergeOk {deviceTypes : DeviceTypes}
    (h : ∀ list before, MergeOk deviceTypes list before (merge deviceTypes list before)) :
    EnabledFirst deviceTypes := by
  refine pairwise_of_take fun t ht => ?_
  by_contra hd
  have hget : deviceTypes.get? t.1 = some t.2 := mem_sortedTypes.1 (List.mem_of_mem_take ht)
  -- Every type answers with an empty list, and the cache is empty.
  let list : String → Option Json := fun _ => some (.arr [])
  obtain ⟨value, hv⟩ := get_devices_some _ (List.mem_map_of_mem (f := Prod.fst) ht)
  have hg : got deviceTypes list t.1 = some value := by
    rw [got, results, List.map_const', hv]
  have hu := (h list .empty).untouched t.1 t.2 hget (by simpa using hd)
  rw [get?_merge, hg, hget] at hu
  cases hu

/-- When the merge does what it should. For given results and a given cache:
exactly if each type is given its own result, or one that is harmless there.
For all results and caches: exactly if no disabled type sorts before an
enabled one. -/
theorem merge_ok_iff (deviceTypes : DeviceTypes) :
    (∀ list before, MergeOk deviceTypes list before (merge deviceTypes list before) ↔
      ∀ name type, deviceTypes.get? name = some type →
        got deviceTypes list name = own list name type ∨ Harmless deviceTypes list before name type) ∧
    ((∀ list before, MergeOk deviceTypes list before (merge deviceTypes list before)) ↔
      EnabledFirst deviceTypes) := by
  refine ⟨fun list before => ?_, enabledFirst_of_mergeOk, fun h list before => ?_⟩
  · rw [mergeOk_iff_harmless]
    refine forall_congr' fun name => forall_congr' fun type => forall_congr' fun ht => ?_
    exact ⟨.inr, fun h => h.elim harmless_of_own id⟩
  · exact (mergeOk_iff_harmless _ _ _).2 fun name type ht => harmless_of_own (got_of_enabledFirst h list ht)

/-- Two types, the first of which is disabled. -/
def audioOff : DeviceTypes :=
  (Dict.empty.insert "audio" ⟨1, false⟩).insert "usb" ⟨1, true⟩

/-- With audio disabled, what `usb` lists ends up in the section of audio. -/
theorem merge_swaps_sections :
    let list : String → Option Json := fun name => if name = "usb" then some (.arr [.str "1d6b:0002"]) else none
    let after := merge audioOff list .empty
    section_ after "audio" = [.str "1d6b:0002"] ∧ section_ after "usb" = [] ∧
      ¬ MergeOk audioOff list .empty after := by
  refine ⟨by decide, by decide, fun h => ?_⟩
  have hu := h.untouched "audio" ⟨1, false⟩ (by decide) rfl
  revert hu
  decide

end LogSubmitter.Sysinfo

import LogSubmitter.Sysinfo
import LogSubmitter.Json.RoundTrip
import Mathlib.Logic.Function.Basic
/-!
# The cache file

`SysinfoHelper.collect` with its files: it parses the cache, merges the devices
as texts, and writes the cache anew. When a flush is due it deletes the cache and
writes a log instead.
-/
namespace LogSubmitter.Sysinfo

open Lib Json

/-! ## Texts and values -/

/-- The cache as an object. -/
def encode (known : Cache) : Json := .obj (known.items.map fun p => (p.1, .arr p.2))

def sections : List (String × Json) → Option (List (String × List Json))
  | [] => some []
  | (name, .arr devs) :: fields => (sections fields).map ((name, devs) :: ·)
  | _ => none

/-- An object of lists. The helper writes nothing else to the cache. -/
def decode : Json → Option Cache
  | .obj fields =>
    match sections fields with
    | some items => if h : (items.map Prod.fst).Nodup then some ⟨items, h⟩ else none
    | none => none
  | _ => none

/-- The cache in a text. -/
def parse (text : List Char) : Option Cache := (loads text).bind decode

/-- `devs[json.dumps(dev)] = True` -/
def addText (devs : List (List Char)) (dev : Json) : List (List Char) :=
  if dumps dev ∈ devs then devs else devs ++ [dumps dev]

/-- `known[section]` as it is after the loops over the old entries and the new ones: all texts are read again. -/
def mergeTexts (version : Int) (old : List Json) (value : Json) : Option (List Json) :=
  ((newEntries version value).foldl addText (old.foldl addText [])).mapM loads

def mergeDeviceTexts (deviceTypes : DeviceTypes) (known : Cache) (device : String × Json) : Option Cache :=
  match deviceTypes.get? device.1 with
  | none => some known
  | some type => (mergeTexts type.version (section_ known device.1) device.2).map (known.insert device.1)

/-- The loop over the sections. -/
def mergeAll (deviceTypes : DeviceTypes) (list : String → Option Json) (known : Cache) : Option Cache :=
  (devices (sortedTypes deviceTypes) (results list (sortedTypes deviceTypes))).foldlM
    (mergeDeviceTexts deviceTypes) known

/-- No object in the cache has a key twice. -/
def Unique (known : Cache) : Prop := ∀ p ∈ known.items, ∀ e ∈ p.2, unique e = true

section
variable {known : Cache}

theorem unique_encode (h : Unique known) : unique (encode known) = true := by
  simp only [encode, unique, Bool.and_eq_true, decide_eq_true_eq, uniqueFields_iff, List.map_map]
  refine ⟨known.nodup, fun p hp => ?_⟩
  obtain ⟨q, hq, rfl⟩ := List.mem_map.1 hp
  exact uniqueAll_iff.2 (h q hq)

theorem sections_map (items : List (String × List Json)) :
    sections (items.map fun p => (p.1, .arr p.2)) = some items := by
  induction items with
  | nil => rfl
  | cons p items ih => simp [sections, ih]

theorem decode_encode (known : Cache) : decode (encode known) = some known := by
  simp [decode, encode, sections_map, known.nodup]

theorem sections_eq_some {fields : List (String × Json)} {items : List (String × List Json)}
    (h : sections fields = some items) : fields = items.map fun p => (p.1, .arr p.2) := by
  induction fields generalizing items with
  | nil =>
    cases h
    rfl
  | cons p fields ih =>
    unfold sections at h
    split at h
    · rename_i hnil
      cases hnil
    · rename_i name devs rest hcons
      cases hcons
      obtain ⟨more, hm, rfl⟩ := Option.map_eq_some_iff.1 h
      rw [List.map_cons, ih hm]
    · cases h

theorem decode_eq_some {v : Json} (h : decode v = some known) : v = encode known := by
  unfold decode at h
  split at h
  · split at h
    · rename_i fields items hs
      split at h
      · cases h
        rw [sections_eq_some hs]
        rfl
      · cases h
    · cases h
  · cases h

theorem parse_unique {text : List Char} (h : parse text = some known) : Unique known := by
  obtain ⟨v, hl, hd⟩ := Option.bind_eq_some_iff.1 h
  have hu := loads_unique hl
  rw [decode_eq_some hd] at hu
  simp only [encode, unique, Bool.and_eq_true, uniqueFields_iff] at hu
  exact fun p hp => uniqueAll_iff.1 (hu.2 (p.1, .arr p.2) (List.mem_map_of_mem hp))

/-- What is written is read again. -/
theorem parse_dumps (h : Unique known) : parse (dumps (encode known)) = some known := by
  rw [parse, loads_dumps (unique_encode h), Option.bind_some, decode_encode]

/-- What is written in part is not. -/
theorem parse_take (h : Unique known) {n : Nat} (hn : n < (dumps (encode known)).length) :
    loads ((dumps (encode known)).take n) = none :=
  loads_eq_none (unique_encode h) (List.take_prefix _ _) ((List.length_take_of_le hn.le).trans_lt hn)

theorem addText_map {devs : List Json} {dev : Json} (hs : ∀ e ∈ devs, unique e = true) (hd : unique dev = true) :
    addText (devs.map dumps) dev = (addDev devs dev).map dumps := by
  have hiff : dumps dev ∈ devs.map dumps ↔ dev ∈ devs := by
    refine ⟨fun h => ?_, List.mem_map_of_mem⟩
    obtain ⟨e, he, heq⟩ := List.mem_map.1 h
    exact dumps_inj (hs e he) hd heq ▸ he
  unfold addText addDev
  simp only [hiff]
  split
  · rfl
  · rw [List.map_append, List.map_singleton]

theorem foldl_addText {new devs : List Json} (hs : ∀ e ∈ devs, unique e = true) (hn : ∀ e ∈ new, unique e = true) :
    new.foldl addText (devs.map dumps) = (new.foldl addDev devs).map dumps := by
  induction new generalizing devs with
  | nil => rfl
  | cons dev new ih =>
    have hd := hn dev List.mem_cons_self
    rw [List.foldl_cons, List.foldl_cons, addText_map hs hd]
    refine ih (fun e he => ?_) fun e he => hn e (List.mem_cons_of_mem _ he)
    rcases mem_addDev.1 he with he | rfl
    · exact hs e he
    · exact hd

theorem mapM_loads {l : List Json} (h : ∀ e ∈ l, unique e = true) : (l.map dumps).mapM loads = some l := by
  induction l with
  | nil => rfl
  | cons v l ih =>
    rw [List.map_cons, List.mapM_cons, loads_dumps (h v List.mem_cons_self),
      ih fun e he => h e (List.mem_cons_of_mem _ he)]
    rfl

/-- Merged as texts or as values, a section is the same. -/
theorem mergeTexts_eq {version : Int} {old : List Json} {value : Json} (ho : ∀ e ∈ old, unique e = true)
    (hn : ∀ e ∈ newEntries version value, unique e = true) :
    mergeTexts version old value = some (mergeSection version old value) := by
  have hold : ∀ e ∈ old.foldl addDev [], unique e = true := fun e he =>
    ho e ((mem_foldl_addDev.1 he).resolve_left List.not_mem_nil)
  have htexts := @foldl_addText old [] (fun _ h => absurd h List.not_mem_nil) ho
  rw [List.map_nil] at htexts
  rw [mergeTexts, htexts, foldl_addText hold hn, mapM_loads]
  · rfl
  · exact fun e he => (mem_foldl_addDev.1 he).elim (hold e) (hn e)

theorem unique_sortKeys {fields : List (String × Json)} (h : unique (.obj fields) = true) :
    unique (.obj (sortKeys fields)) = true := by
  have hp : (sortKeys fields).Perm fields := List.perm_insertionSort _ _
  simp only [unique, Bool.and_eq_true, decide_eq_true_eq, uniqueFields_iff] at h ⊢
  exact ⟨(hp.map Prod.fst).nodup_iff.2 h.1, fun p hm => h.2 p (hp.mem_iff.1 hm)⟩

theorem unique_newEntries {version : Int} {value : Json} (h : unique value = true) :
    ∀ e ∈ newEntries version value, unique e = true := by
  cases value with
  | arr l =>
    intro e he
    obtain ⟨dev, hd, rfl⟩ := List.mem_map.1 he
    have hu := uniqueAll_iff.1 h dev hd
    cases dev with
    | obj fields => exact unique_sortKeys (unique_set rfl hu)
    | _ => exact hu
  | obj fields =>
    intro e he
    rw [newEntries, List.mem_singleton] at he
    exact he ▸ unique_set rfl h
  | _ => intro e he; cases he

theorem unique_section (h : Unique known) (name : String) : ∀ e ∈ section_ known name, unique e = true := by
  intro e he
  unfold section_ at he
  cases hg : known.get? name with
  | none => rw [hg] at he; cases he
  | some devs =>
    rw [hg] at he
    exact h (name, devs) (Dict.get?_eq_some.1 hg) e he

theorem unique_insert (h : Unique known) {name : String} {devs : List Json} (hd : ∀ e ∈ devs, unique e = true) :
    Unique (known.insert name devs) := by
  intro p hp e he
  have hget := (Dict.get?_eq_some (d := known.insert name devs)).2 hp
  rw [Dict.get?_insert] at hget
  split at hget
  · cases hget
    exact hd e he
  · exact h p (Dict.get?_eq_some.1 hget) e he

theorem unique_mergeSection {version : Int} {old : List Json} {value : Json} (ho : ∀ e ∈ old, unique e = true)
    (hv : unique value = true) : ∀ e ∈ mergeSection version old value, unique e = true := fun e he =>
  (mem_mergeSection.1 he).elim (ho e) (unique_newEntries hv e)

/-- The sections merged as texts are those merged as values. -/
theorem foldlM_mergeDeviceTexts (deviceTypes : DeviceTypes) {ds : List (String × Json)}
    (hd : ∀ d ∈ ds, unique d.2 = true) (h : Unique known) :
    ds.foldlM (mergeDeviceTexts deviceTypes) known = some (ds.foldl (mergeDevice deviceTypes) known) ∧
      Unique (ds.foldl (mergeDevice deviceTypes) known) := by
  induction ds generalizing known with
  | nil => exact ⟨rfl, h⟩
  | cons d ds ih =>
    have hu := hd d List.mem_cons_self
    have hrest : ∀ e ∈ ds, unique e.2 = true := fun e he => hd e (List.mem_cons_of_mem _ he)
    rw [List.foldlM_cons, List.foldl_cons]
    unfold mergeDeviceTexts mergeDevice
    cases ht : deviceTypes.get? d.1 with
    | none => exact ih hrest h
    | some type =>
      simp only [mergeTexts_eq (unique_section h d.1) (unique_newEntries hu), Option.map_some]
      exact ih hrest (unique_insert h (unique_mergeSection (unique_section h d.1) hu))

end

theorem mem_devices {deviceTypes : DeviceTypes} {list : String → Option Json} {d : String × Json}
    (h : d ∈ devices (sortedTypes deviceTypes) (results list (sortedTypes deviceTypes))) :
    ∃ name, list name = some d.2 := by
  obtain ⟨p, hp, hm⟩ := List.mem_filterMap.1 h
  obtain ⟨v, hv, rfl⟩ := Option.map_eq_some_iff.1 hm
  obtain ⟨t, -, ht⟩ := List.mem_map.1 (List.of_mem_zip hp).2
  exact ⟨t.1, ht.trans hv⟩

/-- The merge as texts is the merge. -/
theorem mergeAll_eq (deviceTypes : DeviceTypes) {list : String → Option Json} {known : Cache}
    (hl : ∀ name value, list name = some value → unique value = true) (h : Unique known) :
    mergeAll deviceTypes list known = some (merge deviceTypes list known) ∧ Unique (merge deviceTypes list known) :=
  foldlM_mergeDeviceTexts deviceTypes (fun d hd => by
    obtain ⟨name, hn⟩ := mem_devices hd
    exact hl name d.2 hn) h

/-! ## `collect` -/

/-- The floats of a clock: `not t`, `now - t >= interval`, and `f'{now:.0f}'` as a number. -/
structure Clock (τ : Type) where
  isZero : τ → Bool
  due : τ → τ → Bool
  round : τ → Nat

/-- Whole seconds, and a flush each week. -/
def seconds : Clock Nat where
  isZero := (· = 0)
  due now timestamp := timestamp + 604800 ≤ now
  round := id

/-- The two files and the `timestamp` of the helper's data, if that is a number. -/
structure Store (τ : Type) where
  cache : Option (List Char)
  pending : String → Option (List Char)
  timestamp : Option τ

/-- Where a collect ends early, by an `OSError` or the end of the process: the operation does not happen,
or only the first characters of the text reach the file. -/
inductive Fault where
  | makedirs
  | readCache
  | openCache
  | writeCache (count : Nat)
  | unlink
  | openPending
  | writePending (count : Nat)
  deriving DecidableEq

/-- What one call of `collect` finds. -/
structure Call (τ : Type) where
  deviceTypes : DeviceTypes
  list : String → Option Json
  now : τ
  fault : Option Fault

/-- `known`, before the new devices: a file that cannot be parsed counts as empty. It is `none` for a value
that is no object of lists. -/
def readCache : Option (List Char) → Option Cache
  | none => some .empty
  | some text =>
    match loads text with
    | none => some .empty
    | some value => decode value

/-- `del known[name]` for the types that are not enabled. -/
def filterDisabled (deviceTypes : DeviceTypes) (known : Cache) : Cache :=
  deviceTypes.items.foldl (fun known t => if t.2.enabled then known else known.erase t.1) known

def fileName (number : Nat) : String := toString number ++ ".json"

/-- The cache that is read is the one in the file, or empty. -/
theorem readCache_eq_some {cache : Option (List Char)} {known : Cache} (h : readCache cache = some known) :
    known = .empty ∨ ∃ text, cache = some text ∧ parse text = some known := by
  unfold readCache at h
  split at h
  · cases h
    exact .inl rfl
  · rename_i text
    split at h
    · cases h
      exact .inl rfl
    · rename_i v hv
      exact .inr ⟨text, rfl, by rw [parse, hv, Option.bind_some, h]⟩

theorem readCache_dumps {known : Cache} (h : Unique known) : readCache (some (dumps (encode known))) = some known := by
  obtain ⟨v, hv, hd⟩ := Option.bind_eq_some_iff.1 (parse_dumps h)
  simp only [readCache, hv, hd]

theorem readCache_unique {cache : Option (List Char)} {known : Cache} (h : readCache cache = some known) :
    Unique known := by
  rcases readCache_eq_some h with rfl | ⟨text, -, hp⟩
  · exact fun p hp => absurd hp List.not_mem_nil
  · exact parse_unique hp

theorem get?_filterDisabled {deviceTypes : DeviceTypes} {name : String} {type : SysinfoType}
    (ht : deviceTypes.get? name = some type) (he : type.enabled = true) (known : Cache) :
    (filterDisabled deviceTypes known).get? name = known.get? name := by
  have hall : ∀ t ∈ deviceTypes.items, t.1 = name → t.2.enabled = true := by
    rintro ⟨name', type'⟩ hm rfl
    rw [Dict.get?_eq_some.2 hm, Option.some.injEq] at ht
    exact ht ▸ he
  unfold filterDisabled
  generalize deviceTypes.items = types at hall
  induction types generalizing known with
  | nil => rfl
  | cons t types ih =>
    rw [List.foldl_cons, ih _ fun u hu => hall u (List.mem_cons_of_mem _ hu)]
    split
    · rfl
    · rename_i hd
      exact Dict.get?_erase_of_ne known fun hn => hd (hall t List.mem_cons_self hn.symm)

theorem filterDisabled_unique {known : Cache} (h : Unique known) (deviceTypes : DeviceTypes) :
    Unique (filterDisabled deviceTypes known) := by
  unfold filterDisabled
  generalize deviceTypes.items = types
  induction types generalizing known with
  | nil => exact h
  | cons t types ih =>
    rw [List.foldl_cons]
    split
    · exact ih h
    · exact ih fun p hp => h p (List.mem_of_mem_filter hp)

variable {τ : Type} (clock : Clock τ)

/-- The flush, and the timestamp. -/
def flush (call : Call τ) (known : Cache) (s : Store τ) : Store τ :=
  match s.timestamp with
  | none => { s with timestamp := some call.now }
  | some timestamp =>
    if clock.due call.now timestamp then
      let log := dumps (encode (filterDisabled call.deviceTypes known))
      let write (text : List Char) : Store τ :=
        { s with cache := none, pending := Function.update s.pending (fileName (clock.round call.now)) (some text) }
      match call.fault with
      | some .unlink => s
      | some .openPending => { s with cache := none }
      | some (.writePending count) => write (log.take count)
      | _ => { write log with timestamp := some call.now }
    else if clock.isZero timestamp then { s with timestamp := some call.now }
    else s

/-- `collect`, up to `super().collect()`. -/
def collect (call : Call τ) (s : Store τ) : Store τ :=
  match (readCache s.cache).bind (mergeAll call.deviceTypes call.list) with
  | none => s
  | some known =>
    let text := dumps (encode known)
    match call.fault with
    | some .makedirs | some .readCache | some .openCache => s
    | some (.writeCache count) => { s with cache := some (text.take count) }
    | _ => flush clock call known { s with cache := some text }

end LogSubmitter.Sysinfo

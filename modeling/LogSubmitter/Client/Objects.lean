import LogSubmitter.Case
import LogSubmitter.Client
import LogSubmitter.Lib.Path
import LogSubmitter.Lib.Words
/-!
# The objects of the helpers

The daemon exports an object for each helper, and objects below it for the services of
the helper. The client asks for the children of `helpers`, makes names of helpers from
their paths, and paths from these names again.
-/
namespace LogSubmitter.Client.Objects

open Lib Case

variable {E I : Type}

/-- `DBUS_ROOT` -/
def dbusRoot : Text := "/com/steampowered/SteamOSLogSubmitter".toList

/-- What is exported: interfaces, each at a path. -/
abbrev Exports (I : Type) := List (Text × I)

/-- The object is at `path` or below it. -/
def AtOrBelow (path object : Text) : Prop := object = path ∨ path ++ ['/'] <+: object

/-- The system bus: what it raises instead of exporting an interface, and the children of a path that
introspection gives when there are objects at the paths `objects`. -/
structure SystemBus (E I : Type) where
  refuse : Exports I → Text → I → Option E
  childPaths : List Text → Text → List Text
  nodup : ∀ objects path, (childPaths objects path).Nodup
  mem_childPaths : ∀ objects path child, path ≠ ['/'] → (child ∈ childPaths objects path ↔
    ∃ name, name ≠ [] ∧ '/' ∉ name ∧ child = path ++ '/' :: name ∧ ∃ object ∈ objects, AtOrBelow child object)

/-- What the daemon reads of a helper. -/
structure Helper (I : Type) where
  name : Text
  iface : Option I
  extraIfaces : List I
  childServices : Dict Text I

/-- The package of the helpers: `list_helpers` and `create_helper`. -/
structure Package (E I : Type) where
  listHelpers : List Text
  createHelper : Text → Except E (Option (Helper I))

/-! ## The daemon -/

def managerPath : Text := dbusRoot ++ "/Manager".toList

def helpersPath : Text := dbusRoot ++ "/helpers".toList

/-- `f'{DBUS_ROOT}/helpers/{camel_case}'`, of the name of a helper. -/
def objectPath (helper : Text) : Text := helpersPath ++ '/' :: camelCase helper

/-- What is to be exported for a helper, in this order. -/
def Helper.exports (h : Helper I) : Exports I :=
  match h.iface with
  | none => []
  | some iface =>
    (objectPath h.name, iface) :: (h.extraIfaces.map fun iface => (objectPath h.name, iface)) ++
      h.childServices.items.map fun service => (objectPath h.name ++ '/' :: service.1, service.2)

variable (bus : SystemBus E I)

/-- One `export` after the other, until one raises. -/
def exportAll : Exports I → Exports I → Exports I × Option E
  | [], exported => (exported, none)
  | (path, iface) :: rest, exported =>
    match bus.refuse exported path iface with
    | some e => (exported, some e)
    | none => exportAll rest (exported ++ [(path, iface)])

/-- The loop over `list_helpers()`. -/
def setupHelpers (pkg : Package E I) : List Text → Exports I → Exports I × Option E
  | [], exported => (exported, none)
  | helper :: rest, exported =>
    match pkg.createHelper helper with
    | .error e => (exported, some e)
    | .ok none => setupHelpers pkg rest exported
    | .ok (some helperModule) =>
      match exportAll bus helperModule.exports exported with
      | (exported, some e) => (exported, some e)
      | (exported, none) => setupHelpers pkg rest exported

/-- `_setup_dbus`: what is exported after it, and what it raises. -/
def setupDbus (manager : I) (pkg : Package E I) : Exports I × Option E :=
  match exportAll bus [(managerPath, manager)] [] with
  | (exported, some e) => (exported, some e)
  | (exported, none) => setupHelpers bus pkg pkg.listHelpers exported

/-! ## The client -/

variable (u : Unicode) (exported : Exports I)

/-- `list`, when these interfaces are exported. -/
def list : List Text :=
  (bus.childPaths (exported.map Prod.fst) helpersPath).map fun child => snakeCase u (Path.basename child)

/-- `validate_helpers` -/
def validateHelpers (requested : List Text) : List Text × List Text :=
  let valid := list bus u exported
  ((valid.dedup.filter (· ∈ requested)).mergeSort, (requested.dedup.filter (· ∉ valid)).mergeSort)

theorem invalidArguments_no_dot : '.' ∉ "InvalidArgumentsError".toList := by decide

/-- `_helper_objects`, each with its path. -/
def helperObjects (helpers : Option (List Text)) : Except Raised (List (Text × Text)) :=
  match helpers with
  | none => .ok ((list bus u exported).map fun helper => (helper, objectPath helper))
  | some requested =>
    let (valid, invalid) := validateHelpers bus u exported requested
    if invalid = [] then .ok (valid.map fun helper => (helper, objectPath helper))
    else .error (.error ⟨"InvalidArgumentsError", invalidArguments_no_dot⟩
      (.obj [("invalid-helper", .arr (invalid.map fun helper => .str (String.ofList helper)))]))

/-! ## What is exported -/

/-- A helper that `create_helper` gives for one of the names. -/
def Package.Creates (pkg : Package E I) (h : Helper I) : Prop :=
  ∃ helper ∈ pkg.listHelpers, pkg.createHelper helper = .ok (some h)

/-- The interface of the helper is at its path. -/
def Helper.ExportedIn (h : Helper I) (exported : Exports I) : Prop :=
  ∃ iface, h.iface = some iface ∧ (objectPath h.name, iface) ∈ exported

theorem exportAll_prefix (l exported : Exports I) :
    ∃ done, done <+: l ∧ (exportAll bus l exported).1 = exported ++ done := by
  induction l generalizing exported with
  | nil => exact ⟨[], List.nil_prefix, by simp [exportAll]⟩
  | cons entry l ih =>
    obtain ⟨path, iface⟩ := entry
    cases hr : bus.refuse exported path iface with
    | some e => exact ⟨[], List.nil_prefix, by simp [exportAll, hr]⟩
    | none =>
      obtain ⟨done, hp, hd⟩ := ih (exported ++ [(path, iface)])
      refine ⟨(path, iface) :: done, (List.prefix_cons_inj _).2 hp, ?_⟩
      rw [exportAll, hr]
      dsimp only
      rw [hd, List.append_assoc, List.singleton_append]

/-- For some helpers, a part of what is to be exported for each. -/
def Parts (pkg : Package E I) (parts : List (Exports I)) : Prop :=
  ∀ part ∈ parts, ∃ h, pkg.Creates h ∧ part <+: h.exports

theorem parts_cons {pkg : Package E I} {h : Helper I} (hc : pkg.Creates h) {part : Exports I} (hp : part <+: h.exports)
    {parts : List (Exports I)} (hparts : Parts pkg parts) : Parts pkg (part :: parts) :=
  List.forall_mem_cons.2 ⟨⟨h, hc, hp⟩, hparts⟩

theorem setupHelpers_parts {pkg : Package E I} {helpers : List Text}
    (hl : ∀ helper ∈ helpers, helper ∈ pkg.listHelpers) (exported : Exports I) :
    ∃ parts, Parts pkg parts ∧ (setupHelpers bus pkg helpers exported).1 = exported ++ parts.flatten := by
  have hnone : Parts pkg [] := by simp [Parts]
  induction helpers generalizing exported with
  | nil => exact ⟨[], hnone, by simp [setupHelpers]⟩
  | cons helper helpers ih =>
    rw [List.forall_mem_cons] at hl
    unfold setupHelpers
    rcases hc : pkg.createHelper helper with e | _ | h
    · exact ⟨[], hnone, by simp⟩
    · exact ih hl.2 exported
    · have hcreates : pkg.Creates h := ⟨helper, hl.1, hc⟩
      obtain ⟨part, hp, hd⟩ := exportAll_prefix bus h.exports exported
      dsimp only
      rcases hr : exportAll bus h.exports exported with ⟨exported', _ | e⟩
      · obtain ⟨parts, hparts, heq⟩ := ih hl.2 exported'
        refine ⟨part :: parts, parts_cons hcreates hp hparts, ?_⟩
        rw [hr] at hd
        dsimp only at hd
        rw [heq, hd, List.flatten_cons, List.append_assoc]
      · refine ⟨[part], parts_cons hcreates hp hnone, ?_⟩
        rw [hr] at hd
        simpa using hd

/-- What `_setup_dbus` exports, also where it raises. -/
theorem setupDbus_parts (manager : I) (pkg : Package E I) :
    ∃ first parts, first <+: [(managerPath, manager)] ∧ Parts pkg parts ∧
      (setupDbus bus manager pkg).1 = first ++ parts.flatten := by
  obtain ⟨first, hp, hf⟩ := exportAll_prefix bus [(managerPath, manager)] []
  unfold setupDbus
  rcases hr : exportAll bus [(managerPath, manager)] [] with ⟨exported, _ | e⟩
  · obtain ⟨parts, hparts, heq⟩ := setupHelpers_parts bus (fun _ h => h) exported
    refine ⟨first, parts, hp, hparts, ?_⟩
    rw [hr] at hf
    dsimp only at hf
    rw [heq, hf, List.nil_append]
  · refine ⟨first, [], hp, by simp [Parts], ?_⟩
    rw [hr] at hf
    simpa using hf

variable {bus} {exported}

/-- The interface of a helper is exported before anything else of it. -/
theorem exportedIn_of_part {h : Helper I} {part : Exports I} (hp : part <+: h.exports) {entry : Text × I}
    (he : entry ∈ part) (hs : ∀ e ∈ part, e ∈ exported) :
    h.ExportedIn exported ∧ AtOrBelow (objectPath h.name) entry.1 := by
  have hne : part ≠ [] := List.ne_nil_of_mem he
  have hentry := hp.subset he
  unfold Helper.exports at hp hentry
  cases hi : h.iface with
  | none => simp [hi] at hentry
  | some iface =>
    rw [hi] at hp hentry
    dsimp only at hp hentry
    constructor
    · obtain ⟨first, part, rfl⟩ := List.exists_cons_of_ne_nil hne
      rw [List.cons_append, List.cons_prefix_cons] at hp
      refine ⟨iface, hi, ?_⟩
      rw [← hp.1]
      exact hs first List.mem_cons_self
    · simp only [List.cons_append, List.mem_cons, List.mem_append, List.mem_map] at hentry
      rcases hentry with rfl | ⟨_, _, rfl⟩ | ⟨service, _, rfl⟩
      · exact .inl rfl
      · exact .inl rfl
      · exact .inr ⟨service.1, by simp⟩

theorem mem_setupDbus {manager : I} {pkg : Package E I} {entry : Text × I}
    (he : entry ∈ (setupDbus bus manager pkg).1) :
    entry.1 = managerPath ∨ ∃ h, pkg.Creates h ∧ h.ExportedIn (setupDbus bus manager pkg).1 ∧
      AtOrBelow (objectPath h.name) entry.1 := by
  obtain ⟨first, parts, hfirst, hparts, heq⟩ := setupDbus_parts bus manager pkg
  have hmem := he
  rw [heq] at hmem
  rcases List.mem_append.1 hmem with hmem | hmem
  · have hentry := hfirst.subset hmem
    rw [List.mem_singleton] at hentry
    exact .inl (congrArg Prod.fst hentry)
  · obtain ⟨part, hpart, hmem⟩ := List.mem_flatten.1 hmem
    obtain ⟨h, hcreates, hp⟩ := hparts part hpart
    have hall : ∀ e ∈ part, e ∈ (setupDbus bus manager pkg).1 := by
      intro e hpe
      rw [heq]
      exact List.mem_append_right _ (List.mem_flatten.2 ⟨part, hpart, hpe⟩)
    obtain ⟨hexported, hbelow⟩ := exportedIn_of_part hp hmem hall
    exact .inr ⟨h, hcreates, hexported, hbelow⟩

/-! ## What the client finds -/

/-- A text that is a name. -/
def IsName (u : Unicode) (text : Text) : Prop := ∃ name : Name u, name.text = text

/-- The path of a child is that of an object up to the next slash. -/
theorem atOrBelow_iff {dir name object : Text} (h : '/' ∉ name) :
    AtOrBelow (dir ++ '/' :: name) object ↔
      ∃ below, object = dir ++ '/' :: below ∧ below.takeWhile (· ≠ '/') = name := by
  constructor
  · rintro (rfl | ⟨rest, rfl⟩)
    · have hname : ∀ c ∈ name, decide (c ≠ '/') = true := fun c hc => decide_eq_true (ne_of_mem_of_not_mem hc h)
      exact ⟨name, rfl, List.takeWhile_eq_self_iff.2 hname⟩
    · exact ⟨name ++ '/' :: rest, by simp, Words.takeWhile_ne_append h rest⟩
  · rintro ⟨below, rfl, rfl⟩
    have hsplit : below.takeWhile (· ≠ '/') ++ below.dropWhile (· ≠ '/') = below := List.takeWhile_append_dropWhile
    cases hdrop : below.dropWhile (· ≠ '/') with
    | nil =>
      rw [hdrop, List.append_nil] at hsplit
      exact .inl (by rw [hsplit])
    | cons c rest =>
      have hc : c = '/' := by
        have hhead := List.head?_dropWhile_not (fun c => decide (c ≠ '/')) below
        rw [hdrop] at hhead
        simpa using hhead
      refine .inr ⟨rest, ?_⟩
      conv_rhs => rw [← hsplit, hdrop, hc]
      simp

theorem managerPath_ne (below : Text) : managerPath ≠ helpersPath ++ '/' :: below := by
  unfold managerPath helpersPath
  rw [List.append_assoc]
  intro h
  have hne := List.append_cancel_left h
  simp at hne

theorem helpersPath_ne : helpersPath ≠ ['/'] := by decide

variable {u}

theorem mem_childPaths {manager : I} {pkg : Package E I} (hn : ∀ h, pkg.Creates h → IsName u h.name) {child : Text} :
    child ∈ bus.childPaths ((setupDbus bus manager pkg).1.map Prod.fst) helpersPath ↔
      ∃ h, pkg.Creates h ∧ h.ExportedIn (setupDbus bus manager pkg).1 ∧ child = objectPath h.name := by
  rw [bus.mem_childPaths _ _ _ helpersPath_ne]
  constructor
  · rintro ⟨name, -, hslash, rfl, object, hobject, hat⟩
    obtain ⟨entry, hentry, rfl⟩ := List.mem_map.1 hobject
    obtain ⟨below, hbelow, rfl⟩ := (atOrBelow_iff hslash).1 hat
    rcases mem_setupDbus hentry with hmanager | ⟨h, hcreates, hexported, hat'⟩
    · exact absurd (hmanager.symm.trans hbelow) (managerPath_ne below)
    · obtain ⟨name, hname⟩ := hn h hcreates
      have hcamel : '/' ∉ camelCase h.name := by
        rw [← hname]
        exact slash_notMem_camelCase name
      obtain ⟨below', hbelow', htake⟩ := (atOrBelow_iff hcamel).1 hat'
      rw [hbelow, List.append_cancel_left_eq, List.cons.injEq] at hbelow'
      refine ⟨h, hcreates, hexported, ?_⟩
      rw [hbelow'.2, htake, objectPath]
  · rintro ⟨h, hcreates, ⟨iface, _, hmem⟩, rfl⟩
    obtain ⟨name, hname⟩ := hn h hcreates
    refine ⟨camelCase h.name, ?_, ?_, rfl, objectPath h.name, List.mem_map.2 ⟨_, hmem, rfl⟩, .inl rfl⟩
    · rw [← hname]
      exact camelCase_ne_nil name
    · rw [← hname]
      exact slash_notMem_camelCase name

/-- The client makes the name of a helper from the path of its object. -/
theorem snakeCase_basename {helper : Text} (h : IsName u helper) :
    snakeCase u (Path.basename (objectPath helper)) = helper := by
  obtain ⟨name, rfl⟩ := h
  have hparts : Path.parts (camelCase name.text) = [camelCase name.text] := by
    have hi : Path.parts (['/'].intercalate [camelCase name.text]) = [camelCase name.text] :=
      Path.parts_intercalate (by simpa using slash_notMem_camelCase name) (List.cons_ne_nil _ _)
    simpa using hi
  unfold Path.basename objectPath
  rw [Path.parts_append_slash, hparts, List.getLast?_concat, Option.getD_some, snakeCase_camelCase]

theorem objectPath_inj {helper helper' : Text} (h : IsName u helper) (h' : IsName u helper')
    (heq : objectPath helper = objectPath helper') : helper = helper' := by
  rw [← snakeCase_basename h, heq, snakeCase_basename h']

theorem mem_list {manager : I} {pkg : Package E I} (hn : ∀ h, pkg.Creates h → IsName u h.name) {helper : Text} :
    helper ∈ list bus u (setupDbus bus manager pkg).1 ↔
      ∃ h, pkg.Creates h ∧ h.ExportedIn (setupDbus bus manager pkg).1 ∧ h.name = helper := by
  unfold list
  rw [List.mem_map]
  constructor
  · rintro ⟨child, hchild, rfl⟩
    obtain ⟨h, hcreates, hexported, rfl⟩ := (mem_childPaths hn).1 hchild
    exact ⟨h, hcreates, hexported, (snakeCase_basename (hn h hcreates)).symm⟩
  · rintro ⟨h, hcreates, hexported, rfl⟩
    exact ⟨objectPath h.name, (mem_childPaths hn).2 ⟨h, hcreates, hexported, rfl⟩, snakeCase_basename (hn h hcreates)⟩

theorem nodup_list {manager : I} {pkg : Package E I} (hn : ∀ h, pkg.Creates h → IsName u h.name) :
    (list bus u (setupDbus bus manager pkg).1).Nodup := by
  unfold list
  apply List.Nodup.map_on _ (bus.nodup _ _)
  intro child hchild child' hchild' heq
  obtain ⟨h, hcreates, -, rfl⟩ := (mem_childPaths hn).1 hchild
  obtain ⟨h', hcreates', -, rfl⟩ := (mem_childPaths hn).1 hchild'
  rw [snakeCase_basename (hn h hcreates), snakeCase_basename (hn h' hcreates')] at heq
  rw [heq]

theorem mem_valid {requested : List Text} {helper : Text} :
    helper ∈ (validateHelpers bus u exported requested).1 ↔ helper ∈ list bus u exported ∧ helper ∈ requested := by
  simp [validateHelpers]

theorem invalid_eq_nil {requested : List Text} :
    (validateHelpers bus u exported requested).2 = [] ↔ ∀ helper ∈ requested, helper ∈ list bus u exported := by
  unfold validateHelpers
  rw [List.eq_nil_iff_forall_not_mem]
  simp

/-- The objects are there unless a name was asked for that is not in `list`. -/
theorem helperObjects_ok {helpers : Option (List Text)} :
    (∃ objects, helperObjects bus u exported helpers = .ok objects) ↔
      ∀ requested, helpers = some requested → ∀ helper ∈ requested, helper ∈ list bus u exported := by
  cases helpers with
  | none => simp [helperObjects]
  | some requested =>
    by_cases hi : (validateHelpers bus u exported requested).2 = []
    · simpa [helperObjects, hi] using invalid_eq_nil.1 hi
    · simp [helperObjects, hi, ← invalid_eq_nil]

/-- They are those of the names in `list`, or of those of them that were asked for. -/
theorem mem_helperObjects {helpers : Option (List Text)} {objects : List (Text × Text)}
    (h : helperObjects bus u exported helpers = .ok objects) {helper path : Text} :
    (helper, path) ∈ objects ↔ helper ∈ list bus u exported ∧
      (∀ requested, helpers = some requested → helper ∈ requested) ∧ path = objectPath helper := by
  cases helpers with
  | none =>
    obtain rfl := Except.ok.inj h
    simp [eq_comm]
  | some requested =>
    unfold helperObjects at h
    dsimp only at h
    split at h
    · obtain rfl := Except.ok.inj h
      simp [mem_valid, and_assoc, eq_comm]
    · cases h

/-- Names survive camel case and back. So `list` has the names of the helpers that are exported, each once,
the objects the client uses are theirs, and two helpers of different names have different objects. -/
theorem exported_helpers_found (u : Unicode) :
    (∀ name : Name u, snakeCase u (camelCase name.text) = name.text) ∧
      ∀ (E I : Type) (bus : SystemBus E I) (manager : I) (pkg : Package E I),
        (∀ h, pkg.Creates h → IsName u h.name) →
        let exported := (setupDbus bus manager pkg).1
        (list bus u exported).Nodup ∧
          (∀ helper, helper ∈ list bus u exported ↔
            ∃ h, pkg.Creates h ∧ h.ExportedIn exported ∧ h.name = helper) ∧
          (∀ helpers, (∃ objects, helperObjects bus u exported helpers = .ok objects) ↔
            ∀ requested, helpers = some requested → ∀ helper ∈ requested,
              ∃ h, pkg.Creates h ∧ h.ExportedIn exported ∧ h.name = helper) ∧
          (∀ helpers objects, helperObjects bus u exported helpers = .ok objects →
            ∀ helper path, (helper, path) ∈ objects ↔
              (∃ h, pkg.Creates h ∧ h.ExportedIn exported ∧ h.name = helper ∧ path = objectPath h.name) ∧
                ∀ requested, helpers = some requested → helper ∈ requested) ∧
          ∀ h h', pkg.Creates h → pkg.Creates h' → h.name ≠ h'.name → objectPath h.name ≠ objectPath h'.name := by
  refine ⟨snakeCase_camelCase, ?_⟩
  intro E I bus manager pkg hn exported
  refine ⟨nodup_list hn, fun helper => mem_list hn, ?_, ?_, ?_⟩
  · intro helpers
    rw [helperObjects_ok]
    simp only [exported, mem_list hn]
  · intro helpers objects h helper path
    rw [mem_helperObjects h, mem_list hn]
    constructor
    · rintro ⟨⟨found, hcreates, hexported, rfl⟩, hrequested, rfl⟩
      exact ⟨⟨found, hcreates, hexported, rfl, rfl⟩, hrequested⟩
    · rintro ⟨⟨found, hcreates, hexported, rfl, rfl⟩, hrequested⟩
      exact ⟨⟨found, hcreates, hexported, rfl⟩, hrequested, rfl⟩
  · intro h h' hcreates hcreates' hne heq
    exact hne (objectPath_inj (hn h hcreates) (hn h' hcreates') heq)

/-! ## A bus that exports everything -/

/-- The texts that come after a path and a slash. -/
def below (objects : List Text) (path : Text) : List Text :=
  (objects.filter fun object => (path ++ ['/']).isPrefixOf object).map fun object => object.drop (path.length + 1)

/-- What they have up to the next slash, each once. -/
def children (objects : List Text) (path : Text) : List Text :=
  ((((below objects path).map fun text => text.takeWhile (· ≠ '/')).dedup.filter (· ≠ [])).map fun name =>
    path ++ '/' :: name)

theorem mem_below {objects : List Text} {path text : Text} :
    text ∈ below objects path ↔ path ++ '/' :: text ∈ objects := by
  unfold below
  rw [List.mem_map]
  constructor
  · rintro ⟨object, hobject, rfl⟩
    obtain ⟨hmem, hprefix⟩ := List.mem_filter.1 hobject
    obtain ⟨text, rfl⟩ := List.isPrefixOf_iff_prefix.1 hprefix
    simpa using hmem
  · intro h
    refine ⟨_, List.mem_filter.2 ⟨h, ?_⟩, by simp⟩
    exact List.isPrefixOf_iff_prefix.2 ⟨text, by simp⟩

theorem mem_children {objects : List Text} {path child : Text} : child ∈ children objects path ↔
    ∃ name, name ≠ [] ∧ '/' ∉ name ∧ child = path ++ '/' :: name ∧ ∃ object ∈ objects, AtOrBelow child object := by
  unfold children
  rw [List.mem_map]
  constructor
  · rintro ⟨name, hname, rfl⟩
    rw [List.mem_filter, List.mem_dedup, List.mem_map] at hname
    obtain ⟨⟨text, htext, rfl⟩, hne⟩ := hname
    have hslash : '/' ∉ text.takeWhile (· ≠ '/') := fun h => by simpa using List.mem_takeWhile_imp h
    exact ⟨_, by simpa using hne, hslash, rfl, _, mem_below.1 htext, (atOrBelow_iff hslash).2 ⟨text, rfl, rfl⟩⟩
  · rintro ⟨name, hne, hslash, rfl, object, hobject, hat⟩
    obtain ⟨text, rfl, rfl⟩ := (atOrBelow_iff hslash).1 hat
    refine ⟨_, ?_, rfl⟩
    rw [List.mem_filter, List.mem_dedup, List.mem_map]
    exact ⟨⟨text, mem_below.2 hobject, rfl⟩, by simpa using hne⟩

def openBus : SystemBus Empty Unit where
  refuse _ _ _ := none
  childPaths := children
  nodup objects path := by
    unfold children
    apply (List.Nodup.filter _ (List.nodup_dedup _)).map
    intro name name' h
    simpa using h
  mem_childPaths _ _ _ _ := mem_children

/-- A helper with an interface and nothing more. -/
def bare (name : Text) : Helper Unit := { name, iface := some (), extraIfaces := [], childServices := .empty }

def twoHelpers : Package Empty Unit where
  listHelpers := ["kdump".toList, "boot_log2".toList]
  createHelper name := .ok (some (bare name))

def kdump : Name ascii where
  segments := [⟨'k', 'd', ['u', 'm', 'p'], rfl, rfl, by simp [ascii]⟩]
  nonempty := by simp

def bootLog2 : Name ascii where
  segments := [⟨'b', 'o', ['o', 't'], rfl, rfl, by simp [ascii]⟩, ⟨'l', 'o', ['g', '2'], rfl, rfl, by simp [ascii]⟩]
  nonempty := by simp

theorem isName_twoHelpers : ∀ h, twoHelpers.Creates h → IsName ascii h.name := by
  rintro h ⟨name, hname, hcreated⟩
  obtain rfl : bare name = h := Option.some.inj (Except.ok.inj hcreated)
  rcases List.mem_pair.1 hname with rfl | rfl
  · exact ⟨kdump, by decide⟩
  · exact ⟨bootLog2, by decide⟩

theorem twoHelpers_found :
    snakeCase ascii (camelCase bootLog2.text) = bootLog2.text ∧
      "boot_log2".toList ∈ list openBus ascii (setupDbus openBus () twoHelpers).1 := by
  obtain ⟨hback, hfound⟩ := exported_helpers_found ascii
  obtain ⟨_, hlist, _⟩ := hfound Empty Unit openBus () twoHelpers isName_twoHelpers
  refine ⟨hback bootLog2, (hlist _).2 ⟨bare "boot_log2".toList, ⟨_, by simp [twoHelpers], rfl⟩, ⟨(), rfl, ?_⟩, rfl⟩⟩
  simp [setupDbus, setupHelpers, exportAll, openBus, twoHelpers, bare, Helper.exports, Dict.empty]

end LogSubmitter.Client.Objects

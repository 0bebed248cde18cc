import LogSubmitter.Client.Objects
import LogSubmitter.Config.Kept
import LogSubmitter.Lib.Raise
/-!
# What a client sets

A client finds the object of a helper and sets a property of it. The daemon sets the option
of this helper and writes the local file. The property reads so from then on, for all clients
and in every daemon that is started later, until it is set again.
-/
namespace LogSubmitter.Client.Settings

open Lib Case Objects Config
open Config.Kept (Service Event)
open Lib.Raise (bind_eq_ok)

/-! ## The daemon -/

/-- The interfaces that are exported: the `HelperInterface` of a helper, and others. -/
inductive Iface where
  | helper (name : Text)
  | other

/-- The properties of `HelperInterface` that can be set. -/
inductive Property where
  | enabled
  | collectEnabled
  | submitEnabled

/-- `cls.config` -/
def config (helper : Text) : ConfigSection := { name := "helpers." ++ String.ofList helper, defaults := .empty }

/-- `config.get(key, 'on') == 'on'` -/
def isOn (key : String) (helper : Text) (p : Process) : Bool := ((config helper).get? p key).getD "on" = "on"

def enabled : Text → Process → Bool := isOn "enable"

def collectEnabled : Text → Process → Bool := isOn "collect"

def submitEnabled : Text → Process → Bool := isOn "submit"

def onOff (state : Bool) : String := if state then "on" else "off"

/-- `config[key] = 'on' if enabled else 'off'` and `write_config`. What is set stays set where the write raises. -/
def turn (key : String) (env : Env) (helper : Text) (state : Bool) (files : Files) (p : Process) :
    Service × Except Raised Unit :=
  let p := (config helper).set key (onOff state) p
  match writeConfig env p files with
  | none => ({ files := files, process := some p }, .error (.other "OSError"))
  | some files => ({ files := files, process := some p }, .ok ())

def enable : Env → Text → Bool → Files → Process → Service × Except Raised Unit := turn "enable"

def enableCollect : Env → Text → Bool → Files → Process → Service × Except Raised Unit := turn "collect"

def enableSubmit : Env → Text → Bool → Files → Process → Service × Except Raised Unit := turn "submit"

/-- The getters. -/
def Property.get : Property → Text → Process → Bool
  | .enabled => Settings.enabled
  | .collectEnabled => Settings.collectEnabled
  | .submitEnabled => Settings.submitEnabled

/-- The setters. -/
def Property.set : Property → Env → Text → Bool → Files → Process → Service × Except Raised Unit
  | .enabled => enable
  | .collectEnabled => enableCollect
  | .submitEnabled => enableSubmit

/-! ## The bus -/

/-- The helper whose interface is at the path. -/
def helperAt (exported : Exports Iface) (path : Text) : Option Text :=
  exported.findSome? fun entry =>
    match entry.2 with
    | .helper name => if entry.1 = path then some name else none
    | .other => none

/-- What the D-Bus library raises in a client: for an error of the daemon that is no `DBusError`, and where there is no
daemon or no object. -/
structure Library where
  service : Raised → String × String
  absent : Raised

section
variable {E : Type} (bus : SystemBus E Iface) (u : Unicode) (pkg : Package E Iface) (library : Library)
variable (home : String → Option String)

/-- What is exported when the daemon runs. -/
def exported : Exports Iface := (setupDbus bus .other pkg).1

/-- The daemon, with the configuration and everything else that is done to it. -/
def step : Service → Event → Service := Kept.step home (pkg.listHelpers.map String.ofList)

/-! ## The client -/

/-- What happens before the property of a helper is set, and whether its write succeeds. -/
structure Meanwhile where
  events : Text → List Event
  writable : Text → String → Parser → Bool

/-- `_helper_objects`, from a daemon that may not be there. -/
def objects (helpers : Option (List Text)) (σ : Service) : Except Raised (List (Text × Text)) :=
  match σ.process with
  | none => .error library.absent
  | some _ => helperObjects bus u (exported bus pkg) helpers

structure Status where
  enabled : Bool
  collection : Bool
  submission : Bool

/-- `_setup` gives a helper its interface, and no other has one of it. -/
structure IsSetup : Prop where
  iface : ∀ h, pkg.Creates h → h.iface = some (.helper h.name)
  extra : ∀ h, pkg.Creates h → ∀ iface ∈ h.extraIfaces, iface = .other
  services : ∀ h, pkg.Creates h → ∀ service ∈ h.childServices.items, service.2 = .other

end

/-! ## One property -/

section
variable {E : Type} {bus : SystemBus E Iface} {u : Unicode} {pkg : Package E Iface} {library : Library}
variable {home : String → Option String}

/-- The interface of a helper is at the path of its object. -/
theorem path_of_exported (hpkg : IsSetup pkg) {path name : Text} (hat : (path, .helper name) ∈ exported bus pkg) :
    ∃ h, pkg.Creates h ∧ name = h.name ∧ path = objectPath h.name := by
  obtain ⟨first, parts, hfirst, hparts, heq⟩ := setupDbus_parts bus Iface.other pkg
  unfold exported at hat
  rw [heq] at hat
  rcases List.mem_append.1 hat with hat | hat
  · have hmem := hfirst.subset hat
    simp at hmem
  · obtain ⟨part, hpart, hmem⟩ := List.mem_flatten.1 hat
    obtain ⟨h, hcreates, hprefix⟩ := hparts part hpart
    have hentry := hprefix.subset hmem
    unfold Helper.exports at hentry
    rw [hpkg.iface h hcreates] at hentry
    simp only [List.cons_append, List.mem_cons, List.mem_append, List.mem_map] at hentry
    rcases hentry with heq | ⟨iface, hiface, heq⟩ | ⟨service, hservice, heq⟩
    · obtain ⟨rfl, hname⟩ := Prod.mk.inj heq
      exact ⟨h, hcreates, Iface.helper.inj hname, rfl⟩
    · rw [hpkg.extra h hcreates iface hiface] at heq
      cases heq
    · rw [hpkg.services h hcreates service hservice] at heq
      cases heq

theorem helperAt_objectPath (hpkg : IsSetup pkg) (hn : ∀ h, pkg.Creates h → IsName u h.name) {h : Helper Iface}
    (hcreates : pkg.Creates h) (hexported : h.ExportedIn (exported bus pkg)) :
    helperAt (exported bus pkg) (objectPath h.name) = some h.name := by
  obtain ⟨iface, hiface, hmem⟩ := hexported
  cases hiface.symm.trans (hpkg.iface h hcreates)
  cases hfound : helperAt (exported bus pkg) (objectPath h.name) with
  | none =>
    have hnone := List.findSome?_eq_none_iff.1 hfound _ hmem
    simp at hnone
  | some name =>
    obtain ⟨entry, hentry, hname⟩ := List.exists_of_findSome?_eq_some hfound
    obtain ⟨path, _ | _⟩ := entry
    · next name' =>
      dsimp only at hname
      split at hname
      · next hpath =>
        cases hname
        obtain ⟨h', hcreates', rfl, hpath'⟩ := path_of_exported hpkg hentry
        rw [objectPath_inj (hn h hcreates) (hn h' hcreates') (hpath.symm.trans hpath')]
      · cases hname
    · cases hname

theorem helperAt_of_objects (hpkg : IsSetup pkg) (hn : ∀ h, pkg.Creates h → IsName u h.name)
    {helpers : Option (List Text)} {found : List (Text × Text)}
    (h : helperObjects bus u (exported bus pkg) helpers = .ok found) {object : Text × Text} (ho : object ∈ found) :
    helperAt (exported bus pkg) object.2 = some object.1 := by
  obtain ⟨helper, path⟩ := object
  obtain ⟨hlist, -, rfl⟩ := (mem_helperObjects h).1 ho
  obtain ⟨h, hcreates, hexported, rfl⟩ := (mem_list hn).1 hlist
  exact helperAt_objectPath hpkg hn hcreates hexported

def Property.key : Property → String
  | .enabled => "enable"
  | .collectEnabled => "collect"
  | .submitEnabled => "submit"

section
variable {m : Meanwhile} {helpers : Dict Text Bool}

theorem nodup_objects {requested : List Text} {found : List (Text × Text)}
    (h : helperObjects bus u (exported bus pkg) (some requested) = .ok found) : (found.map Prod.fst).Nodup := by
  unfold helperObjects at h
  dsimp only at h
  split at h
  · cases h
    rw [List.map_map]
    refine ((List.mergeSort_perm _ _).map _).nodup_iff.2 ?_
    exact ((List.nodup_dedup _).filter _).map fun _ _ h => h
  · cases h

end

end

/-! ## A helper that is disabled -/

def settingsBus : SystemBus Empty Iface where
  refuse _ _ _ := none
  childPaths := openBus.childPaths
  nodup := openBus.nodup
  mem_childPaths := openBus.mem_childPaths

/-- Helpers with an interface and nothing more. -/
def plain (helpers : List Text) : Package Empty Iface where
  listHelpers := helpers
  createHelper name :=
    .ok (some { name := name, iface := some (.helper name), extraIfaces := [], childServices := .empty })

theorem isSetup_plain (helpers : List Text) : IsSetup (plain helpers) where
  iface := by
    rintro h ⟨name, -, hcreated⟩
    cases hcreated
    rfl
  extra := by
    rintro h ⟨name, -, hcreated⟩ iface hiface
    cases hcreated
    cases hiface
  services := by
    rintro h ⟨name, -, hcreated⟩ service hservice
    cases hcreated
    cases hservice

/-- The base configuration says where the local one is, and there is none. -/
def baseOnly : Files := fun path =>
  if path = baseConfigPath then some (Parser.set .empty "sls" "local-config" "/l") else none

def silent : Library := { service := fun _ => ("", ""), absent := .other "" }

end LogSubmitter.Client.Settings

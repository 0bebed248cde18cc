import LogSubmitter.Lib.Dict
import Mathlib.Logic.Function.Basic
/-!
# The configuration

Three files are laid over each other: base, user and local. `config` holds the
first two, `local_config` the third, and `ConfigSection` reads the local one
first.
-/
namespace LogSubmitter.Config

open Lib

/-! ## Parsers -/

/-- A `ConfigParser`: sections with their options. -/
abbrev Parser := Dict String (Dict String String)

namespace Parser

/-- `parser.get(name, key)`, if there is such an option. -/
def option (p : Parser) (name key : String) : Option String := (p.get? name).bind (·.get? key)

/-- `add_section`, if there is none of the name. -/
def addSection (p : Parser) (name : String) : Parser := if (p.get? name).isSome then p else p.insert name .empty

def set (p : Parser) (name key value : String) : Parser :=
  p.insert name (((p.get? name).getD .empty).insert key value)

def removeOption (p : Parser) (name key : String) : Parser :=
  match p.get? name with
  | none => p
  | some options => p.insert name (options.erase key)

/-- Read the options of a section. -/
def readSection (p : Parser) (s : String × Dict String String) : Parser :=
  s.2.items.foldl (fun p o => p.set s.1 o.1 o.2) (p.addSection s.1)

/-- `read_file`: an option of the file replaces one of the parser. -/
def read (p file : Parser) : Parser := file.items.foldl readSection p

@[simp] theorem option_empty (name key : String) : option .empty name key = none := rfl

@[simp] theorem option_addSection (p : Parser) (name name' key : String) :
    (p.addSection name).option name' key = p.option name' key := by
  unfold addSection
  split
  · rfl
  · rename_i h
    rw [Bool.not_eq_true, Option.isSome_eq_false_iff, Option.isNone_iff_eq_none] at h
    by_cases hn : name' = name
    · subst hn; simp [option, h]
    · simp [option, Dict.get?_insert_of_ne _ hn]

theorem option_set (p : Parser) (name key value name' key' : String) :
    (p.set name key value).option name' key' =
      if name' = name ∧ key' = key then some value else p.option name' key' := by
  by_cases hn : name' = name
  · subst hn
    rw [option, set, Dict.get?_insert_self, Option.bind_some, Dict.get?_insert]
    simp only [true_and]
    split
    · rfl
    · rw [option]
      cases p.get? name' <;> rfl
  · rw [option, set, Dict.get?_insert_of_ne _ hn, if_neg fun h => hn h.1, option]

theorem option_removeOption (p : Parser) (name key name' key' : String) :
    (p.removeOption name key).option name' key' =
      if name' = name ∧ key' = key then none else p.option name' key' := by
  unfold removeOption
  cases h : p.get? name with
  | none =>
    simp only
    split
    · rename_i he
      rw [he.1, option, h, Option.bind_none]
    · rfl
  | some options =>
    simp only
    by_cases hn : name' = name
    · subst hn
      rw [option, Dict.get?_insert_self, Option.bind_some, option, h, Option.bind_some]
      simp only [true_and]
      split
      · rename_i hk
        subst hk
        exact Dict.get?_erase_self _ _
      · rename_i hk
        exact Dict.get?_erase_of_ne _ hk
    · rw [option, Dict.get?_insert_of_ne _ hn, if_neg fun h => hn h.1, option]

theorem option_readOptions (name name' key : String) {items : List (String × String)}
    (hn : (items.map Prod.fst).Nodup) (p : Parser) :
    (items.foldl (fun p o => p.set name o.1 o.2) p).option name' key =
      if name' = name then (Assoc.get key items).or (p.option name' key) else p.option name' key := by
  induction items generalizing p with
  | nil => simp
  | cons o items ih =>
    obtain ⟨hnot, hn⟩ := List.nodup_cons.1 hn
    rw [List.foldl_cons, ih hn, option_set, Assoc.get_cons]
    by_cases h : name' = name
    · subst h
      by_cases hk : o.1 = key
      · subst hk
        have hnone : Assoc.get o.1 items = none := Assoc.get_eq_none.2 hnot
        simp [hnone]
      · simp [hk, Ne.symm hk]
    · simp [h]

theorem option_readSection (p : Parser) (s : String × Dict String String) (name key : String) :
    (p.readSection s).option name key =
      if name = s.1 then (s.2.get? key).or (p.option name key) else p.option name key := by
  rw [readSection, option_readOptions _ _ _ s.2.nodup, option_addSection]
  rfl

/-- What is read is what the file has, or else what was there. -/
theorem option_read (p file : Parser) (name key : String) :
    (p.read file).option name key = (file.option name key).or (p.option name key) := by
  have fold : ∀ (items : List (String × Dict String String)) (p : Parser), (items.map Prod.fst).Nodup →
      (items.foldl readSection p).option name key =
        ((Assoc.get name items).bind (·.get? key)).or (p.option name key) := by
    intro items
    induction items with
    | nil => exact fun p _ => rfl
    | cons s items ih =>
      intro p hn
      obtain ⟨hnot, hn⟩ := List.nodup_cons.1 hn
      rw [List.foldl_cons, ih _ hn, option_readSection, Assoc.get_cons]
      by_cases h : s.1 = name
      · subst h
        have hnone : Assoc.get s.1 items = none := Assoc.get_eq_none.2 hnot
        simp [hnone]
      · simp [h, Ne.symm h]
  exact fold file.items p file.nodup

end Parser

/-! ## Files and processes -/

abbrev Files := String → Option Parser

/-- What `open(path)` can read. An empty path names no file. -/
def contents (files : Files) (path : String) : Option Parser := if path = "" then none else files path

/-- An option of the file under the path, if there is one. -/
def fileOption (files : Files) (path : Option String) (name key : String) : Option String :=
  (path.bind (contents files)).bind (·.option name key)

/-- The module's variables. -/
structure Process where
  config : Parser
  localConfig : Parser
  userConfigPath : Option String
  localConfigPath : Option String

/-- What the system answers: the home directory of a user, and at which paths which files can be opened for writing. -/
structure Env where
  home : String → Option String
  writable : String → Parser → Bool

def baseConfigPath : String := "/usr/lib/steamos-log-submitter/base.cfg"

/-- Where the base configuration puts the user's. A `uid` that does not exist puts it nowhere. -/
def findUserConfig (env : Env) (config : Parser) : Option String :=
  match config.option "sls" "user-config" with
  | some path => some path
  | none => ((config.option "sls" "uid").bind env.home).map (· ++ "/.steam/root/config/steamos-log-submitter.cfg")

/-- `read_file` of the file under the path. A file that cannot be opened is passed over. -/
def readPath (files : Files) (path : Option String) (p : Parser) : Parser :=
  match path.bind (contents files) with
  | none => p
  | some file => p.read file

/-- `reload_config`. What was in `local_config` stays there. -/
def reloadConfig (env : Env) (files : Files) (p : Process) : Process :=
  let base := readPath files (some baseConfigPath) .empty
  let userConfigPath := findUserConfig env base
  let config := readPath files userConfigPath base
  let localConfigPath := config.option "sls" "local-config"
  { config := config
    localConfig := readPath files localConfigPath p.localConfig
    userConfigPath := userConfigPath
    localConfigPath := localConfigPath }

/-- A new process, which has imported the module. -/
def fresh (env : Env) (files : Files) : Process :=
  reloadConfig env files
    { config := .empty, localConfig := .empty, userConfigPath := none, localConfigPath := none }

/-- `open(path, 'w')` and `write`. `none` is an `OSError` of `open`, before the file is emptied: a write that has begun
comes to its end. -/
def writeFile (env : Env) (path : String) (p : Parser) (files : Files) : Option Files :=
  if path ≠ "" ∧ env.writable path p = true then some (Function.update files path (some p)) else none

/-- `write_config`. -/
def writeConfig (env : Env) (p : Process) (files : Files) : Option Files :=
  p.localConfigPath.bind fun path => writeFile env path p.localConfig files

/-! ## `ConfigSection` -/

structure ConfigSection where
  name : String
  defaults : Dict String String

namespace ConfigSection

/-- `section[key]`, or nothing where it raises `KeyError`. -/
def get? (p : Process) (s : ConfigSection) (key : String) : Option String :=
  match p.localConfig.option s.name key with
  | some value => some value
  | none =>
    match p.config.option s.name key with
    | some value => some value
    | none => s.defaults.get? key

/-- `key in section`. -/
def contains (p : Process) (s : ConfigSection) (key : String) : Bool :=
  (p.localConfig.option s.name key).isSome || (p.config.option s.name key).isSome

/-- `section[key] = value`. -/
def set (s : ConfigSection) (key value : String) (p : Process) : Process :=
  { p with localConfig := (p.localConfig.addSection s.name).set s.name key value }

end ConfigSection

/-! ## What a process reads -/

/-- The local option over that of the other two files. -/
def effective (p : Process) (name key : String) : Option String :=
  (p.localConfig.option name key).or (p.config.option name key)

theorem ConfigSection.get?_eq (p : Process) (s : ConfigSection) (key : String) :
    s.get? p key = (effective p s.name key).or (s.defaults.get? key) := by
  unfold get? effective
  cases p.localConfig.option s.name key with
  | some value => rfl
  | none => cases p.config.option s.name key <;> rfl

theorem option_readPath (files : Files) (path : Option String) (p : Parser) (name key : String) :
    (readPath files path p).option name key = (fileOption files path name key).or (p.option name key) := by
  unfold readPath fileOption
  cases path.bind (contents files) with
  | none => rfl
  | some file => exact p.option_read file name key

section
variable {env : Env} {files files' : Files}

/-- Reading the files once more changes nothing. -/
theorem option_reloadConfig (p : Process) (name key : String) :
    (reloadConfig env files p).localConfig.option name key =
      (fileOption files (fresh env files).localConfigPath name key).or (p.localConfig.option name key) :=
  option_readPath _ _ _ _ _

theorem localConfig_fresh (name key : String) :
    (fresh env files).localConfig.option name key = fileOption files (fresh env files).localConfigPath name key := by
  rw [fresh, option_reloadConfig, Parser.option_empty, Option.or_none]
  rfl

theorem config_fresh (name key : String) :
    (fresh env files).config.option name key =
      (fileOption files (fresh env files).userConfigPath name key).or
        (fileOption files (some baseConfigPath) name key) := by
  have hbase := option_readPath files (some baseConfigPath) .empty name key
  rw [Parser.option_empty, Option.or_none] at hbase
  exact (option_readPath _ _ _ _ _).trans (by rw [hbase]; rfl)

theorem effective_fresh (name key : String) :
    effective (fresh env files) name key =
      (fileOption files (fresh env files).localConfigPath name key).or
        ((fileOption files (fresh env files).userConfigPath name key).or
          (fileOption files (some baseConfigPath) name key)) := by
  rw [effective, localConfig_fresh, config_fresh]

end

end LogSubmitter.Config

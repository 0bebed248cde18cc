import LogSubmitter.Config.Upgrade
import LogSubmitter.Lib.Interpolation
/-!
# Migrating keys with dollars in them

The parsers have `ExtendedInterpolation`: `get` resolves the references of a value, and
`set` takes none that it could not resolve. `migrate_key` sets in `local_config` what it
gets of the user file, where it is resolved again.
-/
namespace LogSubmitter.Config.Interpolated

open Lib Lib.Interpolation

inductive Raised where
  | keyError
  | noOption
  | interpolation (e : Error)
  | valueError
  | osError
  deriving DecidableEq, Repr

/-! ## Reading -/

/-- `MAX_INTERPOLATION_DEPTH` -/
def maxDepth : Nat := 10

/-- `has_section`. What the parser has under `DEFAULT` are options of every section, and no section. -/
def hasSection (p : Parser) (name : String) : Bool := name ≠ "DEFAULT" ∧ (p.get? name).isSome

/-- `get` with `raw=True`, if there is the option. -/
def raw (p : Parser) (name key : String) : Option String :=
  if name = "DEFAULT" ∨ (p.get? name).isSome then (p.option name key).or (p.option "DEFAULT" key) else none

/-- `has_section` and `has_option`. -/
def hasOption (p : Parser) (name key : String) : Bool := hasSection p name && (raw p name key).isSome

/-- What a reference to an option gives. -/
def found (p : Parser) (name key : String) : Except Error (String × List Char) :=
  match raw p name key with
  | none => .error .missing
  | some value => .ok (name, value.toList)

section
variable (optionxform : String → String)

/-- What is under a path: an option of the section, or of another. -/
def table (p : Parser) : Table String := fun name path =>
  match path.splitOn ':' with
  | [key] => found p name (optionxform (String.ofList key))
  | [other, key] => found p (String.ofList other) (optionxform (String.ofList key))
  | _ => .error .invalid

/-- `get`, where the key is that of the section. -/
def get (p : Parser) (name key : String) : Except Raised String :=
  match raw p name key with
  | none => .error .noOption
  | some value =>
    match interpolate (table optionxform p) maxDepth name value.toList with
    | .error e => .error (.interpolation e)
    | .ok text => .ok (String.ofList text)

/-- `section[key]` -/
def read (p : Process) (s : ConfigSection) (key : String) : Except Raised String :=
  if hasOption p.localConfig s.name (optionxform key) then get optionxform p.localConfig s.name (optionxform key)
  else if hasOption p.config s.name (optionxform key) then get optionxform p.config s.name (optionxform key)
  else match s.defaults.get? key with
    | some value => .ok value
    | none => .error .keyError

/-! ## `reload_config` -/

/-- Where the base configuration puts the user's. -/
def findUserConfig (env : Env) (config : Parser) : Except Raised (Option String) :=
  if hasOption config "sls" (optionxform "user-config") then
    (get optionxform config "sls" (optionxform "user-config")).map some
  else if hasOption config "sls" (optionxform "uid") then
    (get optionxform config "sls" (optionxform "uid")).map fun uid =>
      (env.home uid).map (· ++ "/.steam/root/config/steamos-log-submitter.cfg")
  else .ok none

/-- Where the first two files put the local one. -/
def findLocalConfig (config : Parser) : Except Raised (Option String) :=
  if hasOption config "sls" (optionxform "local-config") then
    (get optionxform config "sls" (optionxform "local-config")).map some
  else .ok none

/-- `reload_config` -/
def reloadConfig (env : Env) (files : Files) (p : Process) : Except Raised Process :=
  let base := readPath files (some baseConfigPath) .empty
  match findUserConfig optionxform env base with
  | .error e => .error e
  | .ok userConfigPath =>
    let config := readPath files userConfigPath base
    match findLocalConfig optionxform config with
    | .error e => .error e
    | .ok localConfigPath =>
      .ok { config, localConfig := readPath files localConfigPath p.localConfig, userConfigPath, localConfigPath }

/-! ## `migrate_key` -/

/-- The world after a call, and what it returns. -/
structure Done where
  world : World
  returned : Except Raised Bool

/-- `migrate_key` from where the value is known and not in `local_config`. -/
def move (env : Env) (m : String × String) (value path : String) (userConfig : Parser) (w : World) : Done :=
  if accepts value.toList then
    let d := moveKey env m value path userConfig w
    { world := d.world, returned := d.returned.elim (.error .osError) .ok }
  else
    { world := { w with process := { w.process with localConfig := w.process.localConfig.addSection m.1 } }
      returned := .error .valueError }

/-- `migrate_key` of a section and a key. -/
def migrateKey (env : Env) (name key : String) (w : World) : Done :=
  let quits : Done := { world := w, returned := .ok false }
  let key := optionxform key
  match w.process.userConfigPath with
  | none => quits
  | some path =>
    match contents w.files path with
    | none => quits
    | some file =>
      let userConfig := Parser.read .empty file
      if hasOption userConfig name key then
        match get optionxform userConfig name key with
        | .error e => { world := w, returned := .error e }
        | .ok value =>
          if hasOption w.process.localConfig name key then quits
          else move env (name, key) value path userConfig w
      else quits

/-! ## What is promised -/

/-- What was read before is read after, unless it could not be resolved. -/
def Kept (before after : Except Raised String) : Prop :=
  (∀ e, before ≠ .error (.interpolation e)) → after = before

/-- The call returns, and everything reads as before. -/
structure Keeps (w : World) (d : Done) : Prop where
  returns : ∃ b, d.returned = .ok b
  reads : ∀ (s : ConfigSection) (key : String),
    Kept (read optionxform w.process s key) (read optionxform d.world.process s key)

/-- `local_config` with the value. -/
def withValue (m : String × String) (value : String) (p : Parser) : Parser :=
  (p.addSection m.1).set m.1 m.2 value

/-- Both files can be written. -/
def Writable (env : Env) (m : String × String) (value path : String) (userConfig : Parser) (w : World) : Prop :=
  ∃ path', w.process.localConfigPath = some path' ∧ path' ≠ "" ∧
    env.writable path' (withValue m value w.process.localConfig) = true ∧
    env.writable path (userConfig.removeOption m.1 m.2) = true

/-- The value is one that can be moved. -/
structure Movable (env : Env) (m : String × String) (value path : String) (userConfig : Parser) (w : World) :
    Prop where
  plain : '$' ∉ value.toList
  writable : Writable env m value path userConfig w
  /-- A new section would have the other local defaults. -/
  section_there : hasSection w.process.localConfig m.1 = true ∨
    ∀ key, key ≠ m.2 → w.process.localConfig.option "DEFAULT" key = none
  option : hasOption w.process.config m.1 m.2 = true
  resolved : ∀ text, get optionxform w.process.config m.1 m.2 = .ok text → text = value

/-- The option in the user file. -/
structure InUser (name key : String) (w : World) (path : String) (file : Parser) : Prop where
  userPath : w.process.userConfigPath = some path
  opened : contents w.files path = some file
  option : hasOption (Parser.read .empty file) name (optionxform key) = true

/-- If the user file has the option, it resolves the value by itself, and the local configuration
has the option, or the value has no dollars and is that of the loaded configuration. -/
def Migratable (env : Env) (name key : String) (w : World) : Prop :=
  ∀ path file, InUser optionxform name key w path file →
    ∃ value, get optionxform (Parser.read .empty file) name (optionxform key) = .ok value ∧
      (hasOption w.process.localConfig name (optionxform key) = true ∨
        Movable optionxform env (name, optionxform key) value path (Parser.read .empty file) w)

/-- The option that a path names. -/
def address (name : String) (path : List Char) : Option (String × String) :=
  match path.splitOn ':' with
  | [key] => some (name, optionxform (String.ofList key))
  | [other, key] => some (String.ofList other, optionxform (String.ofList key))
  | _ => none

/-- A text of the section refers to the option, itself or through others. -/
def Refers (p : Parser) (m : String × String) (name text : String) : Prop :=
  Reaches (table optionxform p) (fun name path => address optionxform name path = some m) name text.toList

/-- The process has read the files. -/
def Loaded (env : Env) (w : World) : Prop := ∃ p, reloadConfig optionxform env w.files p = .ok w.process

/-- Only the base file has defaults, and the local one has no dollars. -/
structure Ordinary (w : World) : Prop where
  user : ∀ path file, w.process.userConfigPath = some path → contents w.files path = some file →
    ∀ key, file.option "DEFAULT" key = none
  local_defaults : ∀ key, w.process.localConfig.option "DEFAULT" key = none
  local_plain : ∀ name key text, w.process.localConfig.option name key = some text → '$' ∉ text.toList

/-- The three files are different ones, and where the local one is does not depend on the option. -/
structure Settled (name key : String) (w : World) (path : String) : Prop where
  user_ne : path ≠ baseConfigPath
  local_ne : ∀ path', w.process.localConfigPath = some path' → path' ≠ baseConfigPath ∧ path' ≠ path
  stays : ("sls", optionxform "local-config") ≠ (name, optionxform key) ∧
    ∀ text, raw w.process.config "sls" (optionxform "local-config") = some text →
      ¬ Refers optionxform w.process.config (name, optionxform key) "sls" text

/-- Only the user file has the option. -/
def Sole (name key : String) (w : World) : Prop :=
  (readPath w.files (some baseConfigPath) .empty).option name (optionxform key) = none ∧
    w.process.config.option "DEFAULT" (optionxform key) = none

/-- No other option that the first two files have, and the local configuration does not, is resolved through the one
that is moved. -/
def Independent (name key : String) (w : World) : Prop :=
  (∃ path file, InUser optionxform name key w path file) →
    hasOption w.process.localConfig name (optionxform key) = false →
    ∀ name' key' text, (name', optionxform key') ≠ (name, optionxform key) →
      hasOption w.process.localConfig name' (optionxform key') = false →
      hasOption w.process.config name' (optionxform key') = true →
      raw w.process.config name' (optionxform key') = some text →
      (∃ read, get optionxform w.process.config name' (optionxform key') = .ok read) →
      ¬ Refers optionxform w.process.config (name, optionxform key) name' text

/-- The files can be read again, and everything reads as before the call. -/
def KeptByReload (env : Env) (w : World) (d : Done) : Prop :=
  ∃ p, reloadConfig optionxform env d.world.files d.world.process = .ok p ∧
    ∀ (s : ConfigSection) (key : String), Kept (read optionxform w.process s key) (read optionxform p s key)

/-! ## Texts in parsers -/

section
variable {p p' : Parser} {m : String × String}

theorem found_mono (hle : ∀ name key text, raw p name key = some text → raw p' name key = some text)
    {name key : String} {r : String × List Char} (h : found p name key = .ok r) : found p' name key = .ok r := by
  unfold found at h ⊢
  cases hraw : raw p name key with
  | none =>
    rw [hraw] at h
    cases h
  | some text =>
    rw [hraw] at h
    rw [hle name key text hraw]
    exact h

theorem table_mono (hle : ∀ name key text, raw p name key = some text → raw p' name key = some text) (name : String)
    (path : List Char) (r : String × List Char) (h : table optionxform p name path = .ok r) :
    table optionxform p' name path = .ok r := by
  unfold table at h ⊢
  split at h
  · exact found_mono hle h
  · exact found_mono hle h
  · cases h

/-- Every value that could be resolved is resolved to the same text. -/
theorem get_mono (hle : ∀ name key text, raw p name key = some text → raw p' name key = some text)
    {name key text : String} (h : get optionxform p name key = .ok text) : get optionxform p' name key = .ok text := by
  unfold get at h ⊢
  cases hraw : raw p name key with
  | none =>
    rw [hraw] at h
    cases h
  | some rawText =>
    rw [hraw] at h
    rw [hle name key rawText hraw]
    dsimp only at h ⊢
    cases hread : interpolate (table optionxform p) maxDepth name rawText.toList with
    | error e =>
      rw [hread] at h
      cases h
    | ok read =>
      rw [hread] at h
      have hmono : interpolate (table optionxform p') maxDepth name rawText.toList = .ok read :=
        interpolate_mono (table_mono optionxform hle) hread
      rw [hmono, h]

theorem table_eq (p : Parser) (name : String) (path : List Char) : table optionxform p name path =
    match address optionxform name path with
    | some o => found p o.1 o.2
    | none => .error .invalid := by
  unfold table address
  split <;> rfl

theorem table_congr (hsame : ∀ name key, (name, key) ≠ m → raw p' name key = raw p name key) (name : String)
    (path : List Char) (h : ¬ address optionxform name path = some m) :
    table optionxform p' name path = table optionxform p name path := by
  rw [table_eq, table_eq]
  cases haddress : address optionxform name path with
  | none => rfl
  | some o =>
    dsimp only
    unfold found
    rw [hsame o.1 o.2 fun he => h (haddress.trans (congrArg some he))]

/-- The option that a piece of a text refers to. -/
def pieceAddress (name : String) : Piece → Option (String × String)
  | .reference path => address optionxform name path
  | _ => none

/-- No text of the parser refers to the option. -/
def Unreferenced (p : Parser) (m : String × String) : Prop :=
  ∀ s ∈ p.items, ∀ o ∈ s.2.items, ∀ piece ∈ pieces o.2.toList, pieceAddress optionxform s.1 piece ≠ some m

theorem mem_of_raw (hno : p.get? "DEFAULT" = none) {name key text : String} (h : raw p name key = some text) :
    ∃ options, (name, options) ∈ p.items ∧ (key, text) ∈ options.items := by
  have hoption : p.option name key = some text := by
    unfold raw at h
    split at h
    · rwa [Parser.option, Parser.option, hno, Option.bind_none, Option.or_none] at h
    · cases h
  obtain ⟨options, hoptions, htext⟩ := Option.bind_eq_some_iff.1 hoption
  exact ⟨options, Dict.get?_eq_some.1 hoptions, Dict.get?_eq_some.1 htext⟩

theorem not_refers (hno : p.get? "DEFAULT" = none) (h : Unreferenced optionxform p m) {name key text : String}
    (hraw : raw p name key = some text) : ¬ Refers optionxform p m name text := by
  have hreaches : ∀ name text, Reaches (table optionxform p)
      (fun name path => address optionxform name path = some m) name text →
      ∀ key value, raw p name key = some value → text = value.toList → False := by
    intro name text hr
    induction hr with
    | here href haddress =>
      rintro key value hraw rfl
      obtain ⟨options, hs, ho⟩ := mem_of_raw hno hraw
      exact h _ hs _ ho _ href haddress
    | next href hfound _ ih =>
      rintro key value hraw rfl
      rw [table_eq] at hfound
      split at hfound
      · next o _ =>
        unfold found at hfound
        split at hfound
        · cases hfound
        · next value' hraw' =>
          cases hfound
          exact ih o.2 value' hraw' rfl
      · cases hfound
  exact fun hr => hreaches name text.toList hr key text hraw rfl

/-- An option that does not refer to another one is resolved without it. -/
theorem get_congr (hsame : ∀ name key, (name, key) ≠ m → raw p' name key = raw p name key) {name key text : String}
    (hne : (name, key) ≠ m) (hraw : raw p name key = some text) (h : ¬ Refers optionxform p m name text) :
    get optionxform p' name key = get optionxform p name key := by
  unfold get
  rw [hsame name key hne, hraw]
  dsimp only
  rw [interpolate_congr (table_congr optionxform hsame) h]

/-- An option that refers to one that is not there cannot be resolved. -/
theorem get_refers (hsame : ∀ name key, (name, key) ≠ m → raw p' name key = raw p name key)
    (hmissing : raw p' m.1 m.2 = none) {name key text : String} (hne : (name, key) ≠ m)
    (hraw : raw p name key = some text) (h : Refers optionxform p m name text) :
    ∃ e, get optionxform p' name key = .error (.interpolation e) := by
  have htarget : ∀ name path, address optionxform name path = some m →
      ∃ e, table optionxform p' name path = .error e := by
    intro name path haddress
    refine ⟨.missing, ?_⟩
    rw [table_eq, haddress]
    dsimp only
    rw [found, hmissing]
  obtain ⟨e, he⟩ := interpolate_reaches (table_congr optionxform hsame) htarget h maxDepth
  refine ⟨e, ?_⟩
  unfold get
  rw [hsame name key hne, hraw]
  dsimp only
  rw [he]

end

/-! ## `local_config` with the value -/

variable {m : String × String} {value : String} {p : Parser}

theorem get?_withValue_self : ((withValue m value p).get? m.1).isSome = true := by
  rw [withValue, Parser.set, Dict.get?_insert_self]
  rfl

theorem get?_withValue_ne {name : String} (h : name ≠ m.1) : (withValue m value p).get? name = p.get? name := by
  have hadd : (p.addSection m.1).get? name = p.get? name := by
    unfold Parser.addSection
    split
    · rfl
    · exact Dict.get?_insert_of_ne p h Dict.empty
  rw [withValue, Parser.set, Dict.get?_insert_of_ne _ h, hadd]

theorem option_withValue (name key : String) :
    (withValue m value p).option name key = if name = m.1 ∧ key = m.2 then some value else p.option name key := by
  rw [withValue, Parser.option_set, Parser.option_addSection]

theorem raw_withValue (hm : m.1 ≠ "DEFAULT") (name key : String) :
    raw (withValue m value p) name key =
      if name = m.1 ∧ key = m.2 then some value
      else if name = m.1 then (p.option name key).or (p.option "DEFAULT" key) else raw p name key := by
  have hdefault : (withValue m value p).option "DEFAULT" key = p.option "DEFAULT" key := by
    rw [option_withValue, if_neg fun h => hm h.1.symm]
  unfold raw
  rw [hdefault, option_withValue]
  by_cases hname : name = m.1
  · have hsection : ((withValue m value p).get? name).isSome = true := hname ▸ get?_withValue_self
    rw [if_pos (.inr hsection), if_pos hname]
    by_cases hkey : key = m.2
    · rw [if_pos ⟨hname, hkey⟩, if_pos ⟨hname, hkey⟩, Option.some_or]
    · rw [if_neg fun h => hkey h.2, if_neg fun h => hkey h.2]
  · simp only [get?_withValue_ne hname, hname, false_and, if_false]

theorem hasOption_eq (name key : String) :
    hasOption p name key = true ↔
      name ≠ "DEFAULT" ∧ (p.get? name).isSome = true ∧ (raw p name key).isSome = true := by
  simp [hasOption, hasSection, and_assoc]

theorem isSome_of_raw {name key text : String} (h : raw p name key = some text) :
    name = "DEFAULT" ∨ (p.get? name).isSome = true := by
  unfold raw at h
  split at h
  · next hs => exact hs
  · cases h

/-- What there was is still there. -/
theorem raw_mono (hm : m.1 ≠ "DEFAULT") (hno : hasOption p m.1 m.2 = false) {name key text : String}
    (h : raw p name key = some text) : raw (withValue m value p) name key = some text := by
  rw [raw_withValue hm]
  have hs := isSome_of_raw h
  by_cases hname : name = m.1
  · have hsection := hs.resolve_left fun hd => hm (hname.symm.trans hd)
    rw [if_neg, if_pos hname]
    · rw [← h, raw, if_pos hs]
    · rintro ⟨-, hkey⟩
      have htrue : hasOption p m.1 m.2 = true := by
        rw [hasOption_eq, ← hname, ← hkey, h]
        exact ⟨hname ▸ hm, hsection, rfl⟩
      rw [hno] at htrue
      cases htrue
  · rw [if_neg fun he => hname he.1, if_neg hname, h]

theorem hasOption_withValue_ne {name : String} (hm : m.1 ≠ "DEFAULT") (hname : name ≠ m.1) (key : String) :
    hasOption (withValue m value p) name key = hasOption p name key := by
  unfold hasOption hasSection
  rw [get?_withValue_ne hname, raw_withValue hm, if_neg fun h => hname h.1, if_neg hname]

theorem hasOption_mono (hm : m.1 ≠ "DEFAULT") (hno : hasOption p m.1 m.2 = false) {name key : String}
    (h : hasOption p name key = true) : hasOption (withValue m value p) name key = true := by
  by_cases hname : name = m.1
  · obtain ⟨hd, -, hraw⟩ := (hasOption_eq name key).1 h
    obtain ⟨text, htext⟩ := Option.isSome_iff_exists.1 hraw
    apply (hasOption_eq name key).2
    rw [raw_mono hm hno htext]
    exact ⟨hd, hname ▸ get?_withValue_self, rfl⟩
  · rw [hasOption_withValue_ne hm hname, h]

/-- An option is resolved, or it cannot be. -/
theorem get_cases {name key : String} (h : hasOption p name key = true) :
    (∃ text, get optionxform p name key = .ok text) ∨
      ∃ e, get optionxform p name key = .error (.interpolation e) := by
  obtain ⟨-, -, hraw⟩ := (hasOption_eq name key).1 h
  obtain ⟨text, htext⟩ := Option.isSome_iff_exists.1 hraw
  unfold get
  rw [htext]
  dsimp only
  split
  · exact .inr ⟨_, rfl⟩
  · exact .inl ⟨_, rfl⟩

/-! ## The call -/

variable {env : Env} {w : World} {path : String} {userConfig : Parser}

theorem moveKey_process :
    (moveKey env m value path userConfig w).world.process =
      { w.process with localConfig := withValue m value w.process.localConfig } := by
  unfold moveKey
  dsimp only
  split
  · rfl
  · split <;> rfl

/-- Where both files can be written they are. -/
theorem moveKey_writes (hpath : path ≠ "") (h : Writable env m value path userConfig w) :
    (moveKey env m value path userConfig w).returned = some true ∧
    ∃ path', w.process.localConfigPath = some path' ∧ (moveKey env m value path userConfig w).world.files =
      Function.update (Function.update w.files path' (some (withValue m value w.process.localConfig))) path
        (some (userConfig.removeOption m.1 m.2)) := by
  obtain ⟨path', hlocal, hne, hwrite, hwrite'⟩ := h
  have hfirst : writeConfig env (setLocal m value w).process (setLocal m value w).files =
      some (Function.update w.files path' (some (withValue m value w.process.localConfig))) := by
    unfold writeConfig
    rw [show (setLocal m value w).process.localConfigPath = some path' from hlocal, Option.bind_some, writeFile]
    exact if_pos ⟨hne, hwrite⟩
  have hsecond : ∀ files, writeFile env path (userConfig.removeOption m.1 m.2) files =
      some (Function.update files path (some (userConfig.removeOption m.1 m.2))) :=
    fun files => if_pos ⟨hpath, hwrite'⟩
  unfold moveKey
  simp only [hfirst, hsecond]
  exact ⟨trivial, path', hlocal, rfl⟩

theorem moveKey_raises (h : ¬ Writable env m value path userConfig w) :
    (moveKey env m value path userConfig w).returned = none := by
  unfold moveKey
  dsimp only
  split
  · rfl
  · next files hfirst =>
    split
    · rfl
    · next files' hsecond =>
      obtain ⟨path', hlocal, hwrite⟩ := Option.bind_eq_some_iff.1 hfirst
      unfold writeFile at hwrite hsecond
      split at hwrite
      · next hw =>
        split at hsecond
        · next hw' => exact absurd ⟨path', hlocal, hw.1, hw.2, hw'.2⟩ h
        · cases hsecond
      · cases hwrite

theorem hasOption_withValue_self (hm : m.1 ≠ "DEFAULT") : hasOption (withValue m value p) m.1 m.2 = true := by
  rw [hasOption_eq, raw_withValue hm, if_pos ⟨rfl, rfl⟩]
  exact ⟨hm, get?_withValue_self, rfl⟩

/-- What the local configuration has in the end, it had before, or it is the value. -/
theorem hasOption_withValue (hm : m.1 ≠ "DEFAULT") (h : Movable optionxform env m value path userConfig w)
    (name key : String) :
    hasOption (withValue m value w.process.localConfig) name key = true ↔
      hasOption w.process.localConfig name key = true ∨ (name, key) = m := by
  by_cases hname : name = m.1
  · subst hname
    by_cases hkey : key = m.2
    · rw [hkey]
      exact iff_of_true (hasOption_withValue_self hm) (.inr rfl)
    · have hno : (m.1, key) ≠ m := fun he => hkey (congrArg Prod.snd he)
      simp only [hasOption_eq, get?_withValue_self, raw_withValue hm, hkey, hno, and_false, if_false, if_true, or_false,
        true_and]
      refine and_congr_right fun hd => ?_
      cases hget : w.process.localConfig.get? m.1 with
      | none =>
        have hnone := h.section_there.resolve_left (by simp [hasSection, hget]) key hkey
        rw [hnone]
        simp [Parser.option, hget]
      | some options => simp [raw, hget]
  · have hno : (name, key) ≠ m := fun he => hname (congrArg Prod.fst he)
    rw [hasOption_withValue_ne hm hname]
    simp [hno]

theorem get_withValue_self (hm : m.1 ≠ "DEFAULT") (hplain : '$' ∉ value.toList) :
    get optionxform (withValue m value p) m.1 m.2 = .ok value := by
  rw [get, raw_withValue hm, if_pos ⟨rfl, rfl⟩]
  dsimp only
  rw [maxDepth, interpolate_plain _ _ _ hplain]
  exact congrArg Except.ok String.ofList_toList

/-- What the local configuration has in the end reads as it was read before. -/
theorem reads_of_movable (hm : m.1 ≠ "DEFAULT") (hno : hasOption w.process.localConfig m.1 m.2 = false)
    (h : Movable optionxform env m value path userConfig w) (s : ConfigSection) (key : String) :
    Kept (read optionxform w.process s key)
      (read optionxform { w.process with localConfig := withValue m value w.process.localConfig } s key) := by
  intro hbefore
  have hiff := hasOption_withValue optionxform hm h s.name (optionxform key)
  unfold read at hbefore ⊢
  dsimp only
  by_cases hlocal : hasOption w.process.localConfig s.name (optionxform key) = true
  · rw [if_pos hlocal] at hbefore ⊢
    rw [if_pos (hiff.2 (.inl hlocal))]
    rcases get_cases optionxform hlocal with ⟨text, htext⟩ | ⟨e, he⟩
    · rw [htext, get_mono optionxform (fun _ _ _ => raw_mono hm hno) htext]
    · exact absurd he (hbefore e)
  · rw [if_neg hlocal] at hbefore ⊢
    by_cases hmoved : (s.name, optionxform key) = m
    · obtain ⟨hname, hkey⟩ : s.name = m.1 ∧ optionxform key = m.2 := Prod.ext_iff.1 hmoved
      rw [hname, hkey] at hiff hbefore ⊢
      rw [if_pos h.option] at hbefore ⊢
      rw [if_pos (hiff.2 (.inr rfl)), get_withValue_self optionxform hm h.plain]
      rcases get_cases optionxform h.option with ⟨text, htext⟩ | ⟨e, he⟩
      · rw [htext, h.resolved text htext]
      · exact absurd he (hbefore e)
    · rw [if_neg fun hnew => (hiff.1 hnew).elim hlocal hmoved]

theorem move_process (h : accepts value.toList = true) :
    (move env m value path userConfig w).world.process =
      { w.process with localConfig := withValue m value w.process.localConfig } := by
  unfold move
  rw [if_pos h]
  exact moveKey_process

/-- The call returns only where the value is taken and written. -/
theorem accepts_of_returns {b : Bool} (h : (move env m value path userConfig w).returned = .ok b) :
    accepts value.toList = true ∧ Writable env m value path userConfig w := by
  unfold move at h
  split at h
  · next haccepts =>
    refine ⟨haccepts, ?_⟩
    by_contra hno
    dsimp only at h
    rw [moveKey_raises hno] at h
    cases h
  · cases h

theorem keeps_move (hm : m.1 ≠ "DEFAULT") (hno : hasOption w.process.localConfig m.1 m.2 = false) (hpath : path ≠ "")
    (h : Movable optionxform env m value path userConfig w) :
    Keeps optionxform w (move env m value path userConfig w) := by
  refine ⟨⟨true, ?_⟩, ?_⟩
  · unfold move
    rw [if_pos (accepts_plain h.plain)]
    dsimp only
    rw [(moveKey_writes hpath h.writable).1]
    rfl
  · rw [move_process (accepts_plain h.plain)]
    exact reads_of_movable optionxform hm hno h

theorem contents_ne_empty {files : Files} {file : Parser} (h : contents files path = some file) : path ≠ "" := by
  rintro rfl
  cases h

theorem keeps_quits : Keeps optionxform w { world := w, returned := .ok false } :=
  ⟨⟨false, rfl⟩, fun _ _ _ => rfl⟩

theorem migrateKey_absent {name key : String} (h : ∀ path file, ¬ InUser optionxform name key w path file) :
    migrateKey optionxform env name key w = { world := w, returned := .ok false } := by
  unfold migrateKey
  dsimp only
  split
  · rfl
  · next path hpath =>
    split
    · rfl
    · next file hfile =>
      split
      · next hoption => exact absurd ⟨hpath, hfile, hoption⟩ (h path file)
      · rfl

theorem migrateKey_inUser {name key : String} {file : Parser} (h : InUser optionxform name key w path file) :
    migrateKey optionxform env name key w =
      match get optionxform (Parser.read .empty file) name (optionxform key) with
      | .error e => { world := w, returned := .error e }
      | .ok value =>
        if hasOption w.process.localConfig name (optionxform key) then { world := w, returned := .ok false }
        else move env (name, optionxform key) value path (Parser.read .empty file) w := by
  unfold migrateKey
  simp only [h.userPath, h.opened, h.option, if_true]

theorem InUser.ne_default {name key : String} {file : Parser} (h : InUser optionxform name key w path file) :
    name ≠ "DEFAULT" := ((hasOption_eq _ _).1 h.option).1

/-- What the call does with a key that can be migrated: nothing, or it moves it. -/
inductive Migrates (env : Env) (name key : String) (w : World) : Prop
  | quits (h : migrateKey optionxform env name key w = { world := w, returned := .ok false })
  | moves {path value : String} {file : Parser} (found : InUser optionxform name key w path file)
    (missing : hasOption w.process.localConfig name (optionxform key) = false)
    (movable : Movable optionxform env (name, optionxform key) value path (Parser.read .empty file) w)
    (h : migrateKey optionxform env name key w =
      move env (name, optionxform key) value path (Parser.read .empty file) w)

theorem migrates_of_migratable {name key : String} (h : Migratable optionxform env name key w) :
    Migrates optionxform env name key w := by
  by_cases hfound : ∃ path file, InUser optionxform name key w path file
  · obtain ⟨path, file, hfound⟩ := hfound
    obtain ⟨value, hvalue, hmove⟩ := h path file hfound
    have hmigrate : migrateKey optionxform env name key w = _ := migrateKey_inUser optionxform hfound
    rw [hvalue] at hmigrate
    dsimp only at hmigrate
    cases hlocal : hasOption w.process.localConfig name (optionxform key) with
    | true =>
      rw [hlocal, if_pos rfl] at hmigrate
      exact .quits hmigrate
    | false =>
      rw [hlocal] at hmove
      rw [hlocal, if_neg Bool.false_ne_true] at hmigrate
      exact .moves hfound hlocal (hmove.resolve_left Bool.false_ne_true) hmigrate
  · exact .quits (migrateKey_absent optionxform fun path file h => hfound ⟨path, file, h⟩)

theorem keeps_of_migratable {name key : String} (h : Migratable optionxform env name key w) :
    Keeps optionxform w (migrateKey optionxform env name key w) := by
  cases migrates_of_migratable optionxform h with
  | quits h =>
    rw [h]
    exact keeps_quits optionxform
  | moves hfound hmissing hmove h =>
    rw [h]
    exact keeps_move optionxform (hfound.ne_default optionxform) hmissing (contents_ne_empty hfound.opened) hmove

/-! ## Reading the files again -/

/-- The same sections with the same options. -/
structure Alike (p p' : Parser) : Prop where
  sections : ∀ name, (p.get? name).isSome = (p'.get? name).isSome
  options : ∀ name key, p.option name key = p'.option name key

theorem Alike.raw {p p' : Parser} (h : Alike p p') : raw p = raw p' := by
  funext name key
  simp only [Interpolated.raw, h.sections, h.options]

theorem Alike.hasOption {p p' : Parser} (h : Alike p p') (name key : String) :
    hasOption p name key = hasOption p' name key := by
  simp only [Interpolated.hasOption, hasSection, h.sections, h.raw]

theorem Alike.get {p p' : Parser} (h : Alike p p') (name key : String) :
    get optionxform p name key = get optionxform p' name key := by
  have htable : table optionxform p = table optionxform p' := by
    unfold table found
    rw [h.raw]
  unfold Interpolated.get
  rw [htable, h.raw]

theorem isSome_set (p : Parser) (name key value name' : String) :
    ((p.set name key value).get? name').isSome = (decide (name' = name) || (p.get? name').isSome) := by
  rw [Parser.set, Dict.get?_insert]
  by_cases h : name' = name <;> simp [h]

theorem isSome_addSection (p : Parser) (name name' : String) :
    ((p.addSection name).get? name').isSome = (decide (name' = name) || (p.get? name').isSome) := by
  unfold Parser.addSection
  split
  · next hs =>
    by_cases h : name' = name
    · simp [h, hs]
    · simp [h]
  · rw [Dict.get?_insert]
    by_cases h : name' = name <;> simp [h]

theorem isSome_foldl_set (name : String) (items : List (String × String)) (p : Parser) (name' : String) :
    ((items.foldl (fun p o => p.set name o.1 o.2) p).get? name').isSome =
      (decide (name' = name ∧ items ≠ []) || (p.get? name').isSome) := by
  induction items generalizing p with
  | nil => simp
  | cons o items ih =>
    rw [List.foldl_cons, ih, isSome_set]
    by_cases h : name' = name <;> simp [h]

theorem isSome_readSection (p : Parser) (s : String × Dict String String) (name : String) :
    ((p.readSection s).get? name).isSome = (decide (name = s.1) || (p.get? name).isSome) := by
  rw [Parser.readSection, isSome_foldl_set, isSome_addSection]
  by_cases h : name = s.1 <;> simp [h]

theorem isSome_foldl_readSection (items : List (String × Dict String String)) (p : Parser) (name : String) :
    ((items.foldl Parser.readSection p).get? name).isSome =
      ((Assoc.get name items).isSome || (p.get? name).isSome) := by
  induction items generalizing p with
  | nil => simp
  | cons s items ih =>
    rw [List.foldl_cons, ih, isSome_readSection, Assoc.get_cons]
    by_cases h : s.1 = name
    · simp [h]
    · simp [h, Ne.symm h]

/-- A section that is read is there. -/
theorem isSome_read (p file : Parser) (name : String) :
    ((p.read file).get? name).isSome = ((file.get? name).isSome || (p.get? name).isSome) :=
  isSome_foldl_readSection file.items p name

/-- A file of which everything is there already. -/
theorem alike_read {p file : Parser} (hs : ∀ name, (file.get? name).isSome = true → (p.get? name).isSome = true)
    (ho : ∀ name key value, file.option name key = some value → p.option name key = some value) :
    Alike (p.read file) p := by
  refine ⟨fun name => ?_, fun name key => ?_⟩
  · rw [isSome_read]
    cases hfile : (file.get? name).isSome with
    | false => rfl
    | true => rw [hs name hfile, Bool.true_or]
  · rw [Parser.option_read]
    cases hfile : file.option name key with
    | none => rfl
    | some value => rw [ho name key value hfile, Option.some_or]

theorem alike_readPath (files : Files) (path : Option String) (p : Parser) :
    Alike (readPath files path (readPath files path p)) (readPath files path p) := by
  unfold readPath
  cases path.bind (contents files) with
  | none => exact ⟨fun _ => rfl, fun _ _ => rfl⟩
  | some file =>
    refine alike_read (fun name h => ?_) (fun name key value h => ?_)
    · rw [isSome_read, h, Bool.true_or]
    · rw [Parser.option_read, h, Option.some_or]

theorem read_alike {p p' : Process} (hc : p.config = p'.config) (hl : Alike p.localConfig p'.localConfig)
    (s : ConfigSection) (key : String) : read optionxform p s key = read optionxform p' s key := by
  unfold read
  rw [hl.hasOption, hl.get, hc]

theorem reloadConfig_eq_ok {files : Files} {before after : Process} :
    reloadConfig optionxform env files before = .ok after ↔
      findUserConfig optionxform env (readPath files (some baseConfigPath) .empty) = .ok after.userConfigPath ∧
      after.config = readPath files after.userConfigPath (readPath files (some baseConfigPath) .empty) ∧
      findLocalConfig optionxform after.config = .ok after.localConfigPath ∧
      after.localConfig = readPath files after.localConfigPath before.localConfig := by
  unfold reloadConfig
  dsimp only
  cases huser : findUserConfig optionxform env (readPath files (some baseConfigPath) .empty) with
  | error e =>
    refine iff_of_false nofun ?_
    rintro ⟨h, -⟩
    cases h
  | ok path =>
    dsimp only
    constructor
    · intro h
      split at h
      · cases h
      · next path' hlocal =>
        cases h
        exact ⟨rfl, rfl, hlocal, rfl⟩
    · rintro ⟨hpath, hconfig, hlocal, hlocalConfig⟩
      obtain ⟨config, localConfig, userConfigPath, localConfigPath⟩ := after
      dsimp only at hpath hconfig hlocal hlocalConfig
      cases hpath
      subst hconfig hlocalConfig
      rw [hlocal]

/-! ### The process that has loaded them -/

theorem config_eq {name key : String} {file : Parser} (hload : Loaded optionxform env w)
    (hfound : InUser optionxform name key w path file) :
    w.process.config = (readPath w.files (some baseConfigPath) .empty).read file := by
  obtain ⟨p, hp⟩ := hload
  obtain ⟨-, hconfig, -, -⟩ := (reloadConfig_eq_ok optionxform).1 hp
  rw [hconfig, hfound.userPath]
  unfold readPath
  rw [Option.bind_some, hfound.opened]

/-- What a file without defaults has is read of it, whatever has been read before. -/
theorem raw_read {file : Parser} (hno : ∀ key, file.option "DEFAULT" key = none) (p : Parser) (name key text : String)
    (h : raw (Parser.read .empty file) name key = some text) : raw (p.read file) name key = some text := by
  have hs := isSome_of_raw h
  rw [isSome_read] at hs
  have hs' : name = "DEFAULT" ∨ ((p.read file).get? name).isSome = true := by
    refine hs.imp_right fun hs => ?_
    rw [Dict.get?_empty, Option.isSome_none, Bool.or_false] at hs
    rw [isSome_read, hs, Bool.true_or]
  unfold raw at h ⊢
  split at h
  · rw [if_pos hs', Parser.option_read]
    rw [Parser.option_read, Parser.option_read, hno, Parser.option_empty, Parser.option_empty, Option.or_none,
      Option.or_none, Option.or_none] at h
    rw [h]
    rfl
  · cases h

/-- Where the local configuration has no dollars, a text with dollars is not read as it is. -/
theorem get_withValue_ne (ho : Ordinary w) (hm : m.1 ≠ "DEFAULT") (hd : '$' ∈ value.toList) :
    get optionxform (withValue m value w.process.localConfig) m.1 m.2 ≠ .ok value := by
  have hplain : ∀ path found, table optionxform (withValue m value w.process.localConfig) m.1 path = .ok found →
      '$' ∉ found.2 ∨ found = (m.1, value.toList) := by
    intro path r h
    rw [table_eq] at h
    split at h
    · next o _ =>
      unfold found at h
      rw [raw_withValue hm] at h
      by_cases hmoved : o.1 = m.1 ∧ o.2 = m.2
      · rw [if_pos hmoved] at h
        cases h
        exact .inr (by rw [hmoved.1])
      · rw [if_neg hmoved] at h
        split at h
        · cases h
        · next text htext =>
          cases h
          refine .inl (ho.local_plain o.1 o.2 text ?_)
          split at htext
          · rwa [ho.local_defaults, Option.or_none] at htext
          · unfold raw at htext
            split at htext
            · rwa [ho.local_defaults, Option.or_none] at htext
            · cases htext
    · cases h
  intro h
  rw [get, raw_withValue hm, if_pos ⟨rfl, rfl⟩] at h
  dsimp only at h
  split at h
  · cases h
  · next text htext =>
    obtain rfl : text = value.toList := by
      rw [← Except.ok.inj h, String.toList_ofList]
    exact interpolate_ne_self hplain hd maxDepth htext

/-- Where the process has loaded its files and they are ordinary, nothing else keeps all readings. -/
theorem migratable_of_keeps {name key : String} (hload : Loaded optionxform env w) (ho : Ordinary w)
    (h : Keeps optionxform w (migrateKey optionxform env name key w)) : Migratable optionxform env name key w := by
  intro path file hfound
  have hname := hfound.ne_default optionxform
  have hle := raw_read (ho.user path file hfound.userPath hfound.opened) (readPath w.files (some baseConfigPath) .empty)
  rw [← config_eq optionxform hload hfound] at hle
  rw [migrateKey_inUser optionxform hfound] at h
  cases hget : get optionxform (Parser.read .empty file) name (optionxform key) with
  | error e =>
    rw [hget] at h
    obtain ⟨b, hb⟩ := h.returns
    cases hb
  | ok value =>
    rw [hget] at h
    dsimp only at h
    refine ⟨value, rfl, ?_⟩
    by_cases hlocal : hasOption w.process.localConfig name (optionxform key) = true
    · exact .inl hlocal
    · rw [if_neg hlocal] at h
      have hconfig := get_mono optionxform hle hget
      have hoption : hasOption w.process.config name (optionxform key) = true := by
        obtain ⟨-, -, hraw⟩ := (hasOption_eq _ _).1 hfound.option
        obtain ⟨text, htext⟩ := Option.isSome_iff_exists.1 hraw
        have hraw := hle name (optionxform key) text htext
        exact (hasOption_eq _ _).2 ⟨hname, (isSome_of_raw hraw).resolve_left hname, by rw [hraw]; rfl⟩
      obtain ⟨b, hb⟩ := h.returns
      obtain ⟨haccepts, hwritable⟩ := accepts_of_returns hb
      refine .inr ⟨fun hd => ?_, hwritable, .inr fun key _ => ho.local_defaults key, hoption, fun text htext => ?_⟩
      · -- The value is what was read, and it is not read any more.
        refine get_withValue_ne optionxform (m := (name, optionxform key)) ho hname hd ?_
        have hkept := h.reads ⟨name, .empty⟩ key
        rw [move_process haccepts] at hkept
        unfold Kept read at hkept
        dsimp only at hkept
        rw [if_neg hlocal, if_pos hoption, hconfig,
          if_pos (hasOption_withValue_self (m := (name, optionxform key)) hname)] at hkept
        exact hkept nofun
      · rw [hconfig] at htext
        exact (Except.ok.inj htext).symm

theorem readPath_update {files : Files} {path path' : String} (h : path' ≠ path) (file p : Parser) :
    readPath (Function.update files path (some file)) (some path') p = readPath files (some path') p := by
  unfold readPath
  rw [Option.bind_some, Option.bind_some, contents, contents, Function.update_of_ne h]

theorem readPath_update_self {files : Files} {path : String} (h : path ≠ "") (file p : Parser) :
    readPath (Function.update files path (some file)) (some path) p = p.read file := by
  unfold readPath
  rw [Option.bind_some, contents, if_neg h, Function.update_self]

/-! ### What is left of the first two files -/

/-- The first two files without an option of the user's. -/
def without (files : Files) (m : String × String) (file : Parser) : Parser :=
  (readPath files (some baseConfigPath) .empty).read ((Parser.read .empty file).removeOption m.1 m.2)

theorem isSome_removeOption (p : Parser) (name key name' : String) :
    ((p.removeOption name key).get? name').isSome = (p.get? name').isSome := by
  unfold Parser.removeOption
  split
  · rfl
  · next options hget =>
    rw [Dict.get?_insert]
    split
    · next h =>
      rw [h, hget]
      rfl
    · rfl

theorem option_without {file : Parser} (hload : Loaded optionxform env w)
    (hfound : InUser optionxform name key w path file) (name' key' : String) :
    (without w.files (name, optionxform key) file).option name' key' =
      if (name', key') = (name, optionxform key) then
        (readPath w.files (some baseConfigPath) .empty).option name (optionxform key)
      else w.process.config.option name' key' := by
  rw [without, Parser.option_read, Parser.option_removeOption, Parser.option_read, Parser.option_empty, Option.or_none,
    config_eq optionxform hload hfound, Parser.option_read]
  by_cases h : name' = name ∧ key' = optionxform key
  · rw [if_pos h, if_pos (Prod.ext h.1 h.2), h.1, h.2, Option.none_or]
  · rw [if_neg h, if_neg fun he => h (Prod.ext_iff.1 he)]

theorem isSome_without {file : Parser} (hload : Loaded optionxform env w)
    (hfound : InUser optionxform name key w path file) (name' : String) :
    ((without w.files (name, optionxform key) file).get? name').isSome = (w.process.config.get? name').isSome := by
  rw [without, isSome_read, isSome_removeOption, isSome_read, Dict.get?_empty, Option.isSome_none, Bool.or_false,
    config_eq optionxform hload hfound, isSome_read]

/-- The other options are left. -/
theorem raw_without {file : Parser} (hload : Loaded optionxform env w)
    (hfound : InUser optionxform name key w path file) (name' key' : String)
    (hne : (name', key') ≠ (name, optionxform key)) :
    raw (without w.files (name, optionxform key) file) name' key' = raw w.process.config name' key' := by
  have hname := hfound.ne_default optionxform
  unfold raw
  rw [isSome_without optionxform hload hfound, option_without optionxform hload hfound,
    option_without optionxform hload hfound, if_neg hne, if_neg fun he => hname (congrArg Prod.fst he).symm]

theorem raw_without_self {file : Parser} (hload : Loaded optionxform env w)
    (hfound : InUser optionxform name key w path file) (hsole : Sole optionxform name key w) :
    raw (without w.files (name, optionxform key) file) name (optionxform key) = none := by
  have hname := hfound.ne_default optionxform
  unfold raw
  rw [option_without optionxform hload hfound, option_without optionxform hload hfound, if_pos rfl, hsole.1,
    if_neg fun he => hname (congrArg Prod.fst he).symm, hsole.2]
  exact ite_self none

theorem hasOption_without {file : Parser} (hload : Loaded optionxform env w)
    (hfound : InUser optionxform name key w path file) (name' key' : String)
    (hne : (name', key') ≠ (name, optionxform key)) :
    hasOption (without w.files (name, optionxform key) file) name' key' = hasOption w.process.config name' key' := by
  unfold hasOption hasSection
  rw [raw_without optionxform hload hfound name' key' hne, isSome_without optionxform hload hfound]

/-- The local file is found where it was. -/
theorem findLocalConfig_without {file : Parser} (hload : Loaded optionxform env w)
    (hfound : InUser optionxform name key w path file) (hset : Settled optionxform name key w path) :
    findLocalConfig optionxform (without w.files (name, optionxform key) file) = .ok w.process.localConfigPath := by
  obtain ⟨hne, hstays⟩ := hset.stays
  obtain ⟨p, hp⟩ := id hload
  obtain ⟨-, -, hfind, -⟩ := (reloadConfig_eq_ok optionxform).1 hp
  unfold findLocalConfig at hfind ⊢
  rw [hasOption_without optionxform hload hfound _ _ hne]
  split at hfind
  · next hoption =>
    obtain ⟨-, -, hraw⟩ := (hasOption_eq _ _).1 hoption
    obtain ⟨text, htext⟩ := Option.isSome_iff_exists.1 hraw
    rw [if_pos hoption, get_congr optionxform (raw_without optionxform hload hfound) hne htext (hstays text htext)]
    exact hfind
  · next hoption =>
    rw [if_neg hoption]
    exact hfind

/-! ### After the call -/

theorem keptByReload_quits (hload : Loaded optionxform env w) (r : Except Raised Bool) :
    KeptByReload optionxform env w { world := w, returned := r } := by
  obtain ⟨p, hp⟩ := hload
  obtain ⟨huser, hconfig, hfind, hlocal⟩ := (reloadConfig_eq_ok optionxform).1 hp
  have hagain : reloadConfig optionxform env w.files w.process =
      .ok { w.process with localConfig := readPath w.files w.process.localConfigPath w.process.localConfig } :=
    (reloadConfig_eq_ok optionxform).2 ⟨huser, hconfig, hfind, rfl⟩
  have halike : Alike (readPath w.files w.process.localConfigPath w.process.localConfig) w.process.localConfig := by
    rw [hlocal]
    exact alike_readPath _ _ _
  refine ⟨_, hagain, fun s key _ => ?_⟩
  apply read_alike
  · rfl
  · exact halike

/-- What a process has that reads the files after the call. -/
theorem reload_moved {name key : String} {file : Parser} (hload : Loaded optionxform env w)
    (hfound : InUser optionxform name key w path file) (hset : Settled optionxform name key w path)
    (hmove : Movable optionxform env (name, optionxform key) value path (Parser.read .empty file) w) :
    ∃ p, reloadConfig optionxform env
        (move env (name, optionxform key) value path (Parser.read .empty file) w).world.files
        (move env (name, optionxform key) value path (Parser.read .empty file) w).world.process = .ok p ∧
      p.config = without w.files (name, optionxform key) file ∧
      Alike p.localConfig (withValue (name, optionxform key) value w.process.localConfig) := by
  have hpath := contents_ne_empty hfound.opened
  have hstays := findLocalConfig_without optionxform hload hfound hset
  obtain ⟨p, hp⟩ := hload
  obtain ⟨huser, -, -, -⟩ := (reloadConfig_eq_ok optionxform).1 hp
  obtain ⟨-, path', hlocal, hfiles⟩ := moveKey_writes hpath hmove.writable
  obtain ⟨path'', hlocal', hne', -⟩ := hmove.writable
  obtain rfl : path' = path'' := Option.some.inj (hlocal.symm.trans hlocal')
  obtain ⟨hbase, hne⟩ := hset.local_ne path' hlocal
  unfold move
  rw [if_pos (accepts_plain hmove.plain)]
  dsimp only
  rw [moveKey_process, hfiles]
  generalize withValue (name, optionxform key) value w.process.localConfig = written
  have hwritten : Alike (written.read written) written := alike_read (fun _ h => h) (fun _ _ _ h => h)
  refine ⟨{ w.process with
      config := without w.files (name, optionxform key) file, localConfig := written.read written },
    (reloadConfig_eq_ok optionxform).2 ⟨?_, ?_, hstays, ?_⟩, rfl, hwritten⟩
  · rw [readPath_update (Ne.symm hset.user_ne), readPath_update (Ne.symm hbase), huser]
  · rw [hfound.userPath, readPath_update_self hpath, readPath_update (Ne.symm hset.user_ne),
      readPath_update (Ne.symm hbase)]
    rfl
  · rw [hlocal, readPath_update hne, readPath_update_self hne']

section
variable {p : Process} {s : ConfigSection} {key : String}

/-- An option that the local configuration has is read from it. -/
theorem read_local {written : Parser} (h : Alike p.localConfig written)
    (hnew : hasOption written s.name (optionxform key) = true) :
    read optionxform p s key = read optionxform { w.process with localConfig := written } s key := by
  unfold read
  rw [h.hasOption, h.get, if_pos hnew, if_pos hnew]

/-- Another one is read from the other files. -/
theorem read_other (hm : m.1 ≠ "DEFAULT") (hno : hasOption w.process.localConfig m.1 m.2 = false) {config : Parser}
    (hconfig : p.config = config) (h : Alike p.localConfig (withValue m value w.process.localConfig))
    (hnew : hasOption (withValue m value w.process.localConfig) s.name (optionxform key) = false) :
    read optionxform p s key = read optionxform { w.process with config := config } s key := by
  have hold : hasOption w.process.localConfig s.name (optionxform key) = false := by
    by_contra hold
    rw [hasOption_mono hm hno (Bool.not_eq_false _ ▸ hold)] at hnew
    cases hnew
  unfold read
  rw [h.hasOption, hconfig, hnew, hold, if_neg Bool.false_ne_true, if_neg Bool.false_ne_true]

end

/-- An option that does not refer to the one that has left the user file is read as before. -/
theorem kept_without {file : Parser} {s : ConfigSection} {key' : String} (hload : Loaded optionxform env w)
    (hfound : InUser optionxform name key w path file) (hne : (s.name, optionxform key') ≠ (name, optionxform key))
    (hno : hasOption w.process.config s.name (optionxform key') = true → ∀ text,
      raw w.process.config s.name (optionxform key') = some text →
      (∃ read, get optionxform w.process.config s.name (optionxform key') = .ok read) →
      ¬ Refers optionxform w.process.config (name, optionxform key) s.name text) :
    Kept (read optionxform w.process s key') (read optionxform
      { w.process with config := without w.files (name, optionxform key) file } s key') := by
  intro hbefore
  unfold read at hbefore ⊢
  dsimp only
  rw [hasOption_without optionxform hload hfound _ _ hne]
  by_cases hlocal : hasOption w.process.localConfig s.name (optionxform key') = true
  · rw [if_pos hlocal, if_pos hlocal]
  · rw [if_neg hlocal] at hbefore ⊢
    rw [if_neg hlocal]
    by_cases hoption : hasOption w.process.config s.name (optionxform key') = true
    · rw [if_pos hoption] at hbefore ⊢
      rw [if_pos hoption]
      obtain ⟨-, -, hraw⟩ := (hasOption_eq _ _).1 hoption
      obtain ⟨text, htext⟩ := Option.isSome_iff_exists.1 hraw
      rcases get_cases optionxform hoption with hread | ⟨e, he⟩
      · exact get_congr optionxform (raw_without optionxform hload hfound) hne htext (hno hoption text htext hread)
      · exact absurd he (hbefore e)
    · rw [if_neg hoption, if_neg hoption]

/-- What the local configuration does not have in the end. -/
theorem not_hasOption_withValue (hm : m.1 ≠ "DEFAULT") (h : Movable optionxform env m value path userConfig w)
    {name key : String} : hasOption (withValue m value w.process.localConfig) name key = false ↔
      hasOption w.process.localConfig name key = false ∧ (name, key) ≠ m := by
  rw [← Bool.not_eq_true, hasOption_withValue optionxform hm h, not_or, Bool.not_eq_true]

/-- After the files are read again. -/
theorem reload_kept {name key : String} (hload : Loaded optionxform env w)
    (hset : ∀ path file, InUser optionxform name key w path file → Settled optionxform name key w path)
    (h : Migratable optionxform env name key w) (hind : Independent optionxform name key w) :
    KeptByReload optionxform env w (migrateKey optionxform env name key w) := by
  cases migrates_of_migratable optionxform h with
  | quits h =>
    rw [h]
    exact keptByReload_quits optionxform hload _
  | @moves path value file hfound hmissing hmove h =>
    have hname := hfound.ne_default optionxform
    obtain ⟨p, hp, hconfig, halike⟩ := reload_moved optionxform hload hfound (hset path file hfound) hmove
    rw [h]
    refine ⟨p, hp, fun s key' => ?_⟩
    cases hnew : hasOption (withValue (name, optionxform key) value w.process.localConfig) s.name
        (optionxform key') with
    | true =>
      rw [read_local optionxform halike hnew]
      exact reads_of_movable optionxform hname hmissing hmove s key'
    | false =>
      rw [read_other optionxform hname hmissing hconfig halike hnew]
      obtain ⟨hold, hne⟩ := (not_hasOption_withValue optionxform hname hmove).1 hnew
      exact kept_without optionxform hload hfound hne fun hoption text =>
        hind ⟨path, file, hfound⟩ hmissing s.name key' text hne hold hoption

/-- Where nothing stands in for the option, what refers to it cannot be read any more. -/
theorem independent_of_kept {name key : String} (hload : Loaded optionxform env w)
    (hset : ∀ path file, InUser optionxform name key w path file → Settled optionxform name key w path)
    (h : Migratable optionxform env name key w) (hsole : Sole optionxform name key w)
    (hkept : KeptByReload optionxform env w (migrateKey optionxform env name key w)) :
    Independent optionxform name key w := by
  rintro ⟨path, file, hfound⟩ hmissing name' key' text hne hold hoption hraw ⟨before, hbefore⟩ hrefers
  obtain ⟨value, hvalue, hmove⟩ := h path file hfound
  have hname := hfound.ne_default optionxform
  rw [hmissing] at hmove
  replace hmove := hmove.resolve_left Bool.false_ne_true
  rw [migrateKey_inUser optionxform hfound, hvalue, hmissing] at hkept
  obtain ⟨p', hp', hkept⟩ := hkept
  obtain ⟨p, hp, hconfig, halike⟩ := reload_moved optionxform hload hfound (hset path file hfound) hmove
  obtain rfl : p = p' := Except.ok.inj (hp.symm.trans hp')
  have hnew := (not_hasOption_withValue optionxform hname hmove).2 ⟨hold, hne⟩
  obtain ⟨e, he⟩ := get_refers optionxform (raw_without optionxform hload hfound)
    (raw_without_self optionxform hload hfound hsole) hne hraw hrefers
  have hsame := hkept ⟨name', .empty⟩ key'
  rw [read_other optionxform hname hmissing hconfig halike hnew] at hsame
  unfold Kept read at hsame
  dsimp only at hsame
  rw [hold, hasOption_without optionxform hload hfound _ _ hne, hoption, hbefore, he] at hsame
  cases hsame nofun

/-- A key that can be migrated is migrated, and everything in the process reads as before; in an ordinary process no
other key is. Where the files are read again as well, everything reads as before if nothing else is resolved through
the key, and not otherwise if there is no other option in its place. -/
theorem migrateKey_keeps_and_reloads (env : Env) (name key : String) (w : World) :
    (Migratable optionxform env name key w → Keeps optionxform w (migrateKey optionxform env name key w)) ∧
    (Loaded optionxform env w → Ordinary w → Keeps optionxform w (migrateKey optionxform env name key w) →
      Migratable optionxform env name key w) ∧
    (Migratable optionxform env name key w → Loaded optionxform env w →
      (∀ path file, InUser optionxform name key w path file → Settled optionxform name key w path) →
      (Independent optionxform name key w →
        KeptByReload optionxform env w (migrateKey optionxform env name key w)) ∧
      (Sole optionxform name key w → KeptByReload optionxform env w (migrateKey optionxform env name key w) →
        Independent optionxform name key w)) :=
  ⟨keeps_of_migratable optionxform, fun hload ho => migratable_of_keeps optionxform hload ho, fun h hload hset =>
    ⟨reload_kept optionxform hload hset h, independent_of_kept optionxform hload hset h⟩⟩

end

/-! ## Dollars -/

def anywhere : Env := ⟨fun _ => none, fun _ _ => true⟩

def parserOf (options : List (String × String × String)) : Parser :=
  options.foldl (fun p o => (p.addSection o.1).set o.1 o.2.1 o.2.2) .empty

def base : Parser :=
  parserOf [("sls", "base", "/b"), ("sls", "user-config", "${base}/u"), ("sls", "local-config", "${base}/l")]

/-- The files, with options of the section of steam in that of the user. -/
def filesOf (options : List (String × String)) : Files := fun path =>
  if path = baseConfigPath then some base
  else if path = "/b/u" then some (parserOf (options.map fun o => ("steam", o.1, o.2)))
  else none

/-- A process that has read them. -/
def worldOf (options : List (String × String)) : World :=
  ⟨filesOf options, { config := base.read (parserOf (options.map fun o => ("steam", o.1, o.2))), localConfig := .empty
                      userConfigPath := some "/b/u", localConfigPath := some "/b/l" }⟩

def steam : ConfigSection := ⟨"steam", .empty⟩

/-- What is read of an option before a name is migrated and after. -/
def readings (options : List (String × String)) (key : String) :
    Except Raised String × Except Raised Bool × Except Raised String :=
  let d := migrateKey id anywhere "steam" "account_name" (worldOf options)
  (read id (worldOf options).process steam key, d.returned, read id d.world.process steam key)

/-- An escaped dollar is set as one, and read as none or raises an exception; what the user file takes from
the base one raises one as well; and what it takes from the option is not there once the files are read again. -/
theorem dollars_lost :
    readings [("account_name", "a$$b")] "account_name" = (.ok "a$b", .error .valueError, .ok "a$b") ∧
    readings [("account_name", "a$$$$b")] "account_name" = (.ok "a$$b", .ok true, .ok "a$b") ∧
    readings [("account_name", "${sls:base}/a")] "account_name" =
      (.ok "/b/a", .error (.interpolation .missing), .ok "/b/a") ∧
    (let w := worldOf [("account_name", "a"), ("other", "${account_name}")]
      let d := migrateKey id anywhere "steam" "account_name" w
      read id w.process steam "other" = .ok "a" ∧
      (reloadConfig id anywhere d.world.files d.world.process).map (fun p => read id p steam "other") =
        .ok (.error (.interpolation .missing))) ∧
    ¬ Keeps id (worldOf [("account_name", "a$$b")])
      (migrateKey id anywhere "steam" "account_name" (worldOf [("account_name", "a$$b")])) := by
  have hraises : readings [("account_name", "a$$b")] "account_name" = (.ok "a$b", .error .valueError, .ok "a$b") := by
    decide +kernel
  refine ⟨hraises, by decide +kernel, by decide +kernel, by decide +kernel, fun h => ?_⟩
  have hraised : (migrateKey id anywhere "steam" "account_name" (worldOf [("account_name", "a$$b")])).returned =
      .error .valueError := congrArg (fun r => r.2.1) hraises
  obtain ⟨b, hb⟩ := h.returns
  rw [hb] at hraised
  cases hraised

/-- A name without dollars, and another option that has some. -/
def gordonOptions : List (String × String) := [("account_name", "Gordon"), ("folder", "${sls:base}/$$1")]

def gordon : World := worldOf gordonOptions

theorem inUser_gordon {path : String} {file : Parser} (h : InUser id "steam" "account_name" gordon path file) :
    path = "/b/u" ∧ file = parserOf (gordonOptions.map fun o => ("steam", o.1, o.2)) := by
  obtain rfl : "/b/u" = path := Option.some.inj h.userPath
  exact ⟨rfl, (Option.some.inj h.opened).symm⟩

theorem migratable_gordon : Migratable id anywhere "steam" "account_name" gordon := by
  intro path file h
  obtain ⟨rfl, rfl⟩ := inUser_gordon h
  refine ⟨"Gordon", by decide +kernel, .inr ⟨by decide, ?_, .inr fun _ _ => rfl, by decide +kernel, ?_⟩⟩
  · exact ⟨"/b/l", rfl, by decide, rfl, rfl⟩
  · intro text htext
    have hget : get id gordon.process.config "steam" "account_name" = .ok "Gordon" := by decide +kernel
    exact Except.ok.inj (htext.symm.trans hget)

theorem loaded_gordon : Loaded id anywhere gordon := by
  refine ⟨⟨.empty, .empty, none, none⟩, (reloadConfig_eq_ok id).2 ⟨?_, rfl, ?_, rfl⟩⟩
  · decide +kernel
  · decide +kernel

theorem ordinary_gordon : Ordinary gordon := by
  refine ⟨fun path file hpath hfile key => ?_, fun _ => rfl, nofun⟩
  obtain rfl : "/b/u" = path := Option.some.inj hpath
  obtain rfl := Option.some.inj hfile
  rfl

theorem unreferenced_gordon : Unreferenced id gordon.process.config ("steam", "account_name") := by
  unfold Unreferenced
  decide +kernel

theorem settled_gordon {path : String} {file : Parser} (h : InUser id "steam" "account_name" gordon path file) :
    Settled id "steam" "account_name" gordon path := by
  obtain ⟨rfl, -⟩ := inUser_gordon h
  refine ⟨by decide, fun path' hpath => ?_, by decide, fun text htext => not_refers id rfl unreferenced_gordon htext⟩
  obtain rfl : "/b/l" = path' := Option.some.inj hpath
  exact ⟨by decide, by decide⟩

theorem gordon_migrated :
    Keeps id gordon (migrateKey id anywhere "steam" "account_name" gordon) ∧
    KeptByReload id anywhere gordon (migrateKey id anywhere "steam" "account_name" gordon) := by
  obtain ⟨hkeeps, hmigratable, hreload⟩ := migrateKey_keeps_and_reloads id anywhere "steam" "account_name" gordon
  have h := hmigratable loaded_gordon ordinary_gordon (hkeeps migratable_gordon)
  refine ⟨hkeeps h, (hreload h loaded_gordon fun _ _ => settled_gordon).1 ?_⟩
  intro _ _ name key text _ _ _ htext _
  exact not_refers id rfl unreferenced_gordon htext

end LogSubmitter.Config.Interpolated

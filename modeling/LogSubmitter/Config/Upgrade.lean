import LogSubmitter.Config
/-!
# Migrating keys

`upgrade` moves keys from the user file to the local one, in two writes a key.
The local file is read first and did not have the key, so nothing that is read
changes at any point in between.
-/
namespace LogSubmitter.Config

open Lib

/-! ## `upgrade` -/

structure World where
  files : Files
  process : Process

/-- What a call has done: the worlds after each of its writes, the last world, and what it returns,
unless it raises. -/
structure Done where
  points : List World
  world : World
  returned : Option Bool

/-- The option is set in `local_config`. -/
def setLocal (m : String × String) (value : String) (w : World) : World :=
  { w with process := { w.process with
      localConfig := (w.process.localConfig.addSection m.1).set m.1 m.2 value } }

/-- `migrate_key` where the key is to be moved: `write_config`, and then the user file under the path. -/
def moveKey (env : Env) (m : String × String) (value path : String) (userConfig : Parser) (w : World) : Done :=
  let w := setLocal m value w
  match writeConfig env w.process w.files with
  | none => { points := [], world := w, returned := none }
  | some files =>
    let w' := { w with files := files }
    match writeFile env path (userConfig.removeOption m.1 m.2) files with
    | none => { points := [w'], world := w', returned := none }
    | some files' =>
      let w'' := { w with files := files' }
      { points := [w', w''], world := w'', returned := some true }

/-- `migrate_key` of a section and a key. -/
def migrateKey (env : Env) (m : String × String) (w : World) : Done :=
  let quits : Done := { points := [], world := w, returned := some false }
  match w.process.userConfigPath with
  | none => quits
  | some path =>
    match contents w.files path with
    | none => quits
    | some file =>
      let userConfig := Parser.read .empty file
      match userConfig.option m.1 m.2 with
      | none => quits
      | some value =>
        if (w.process.localConfig.option m.1 m.2).isSome then quits
        else moveKey env m value path userConfig w

/-- `[migrate_key(s, k) for s, k in migrations]`, and whether any of them is true. -/
def migrateKeys (env : Env) : List (String × String) → World → Done
  | [], w => { points := [], world := w, returned := some false }
  | m :: ms, w =>
    let d := migrateKey env m w
    match d.returned with
    | none => d
    | some b =>
      let d' := migrateKeys env ms d.world
      { points := d.points ++ d'.points, world := d'.world, returned := d'.returned.map (b || ·) }

/-- `migrations`, with those of the helpers. -/
def migrations (helpers : List String) : List (String × String) :=
  [("sls", "enable"), ("steam", "account_id"), ("steam", "account_name"), ("steam", "deck_serial")] ++
    helpers.map fun helper => ("helpers." ++ helper, "enable")

/-- `upgrade`, in a process that has imported the module. -/
def upgrade (env : Env) (helpers : List String) (files : Files) : Done :=
  let d := migrateKeys env (migrations helpers) ⟨files, reloadConfig env files (fresh env files)⟩
  if d.returned = some true then
    { d with world := { d.world with process := reloadConfig env d.world.files d.world.process } }
  else d

/-! ## One key -/

section
variable {env : Env} {files files' : Files}

/-- The files have the same options, but for `m`. -/
def SameBut (m : String × String) (files files' : Files) : Prop :=
  ∀ path name key, (name, key) ≠ m → fileOption files' path name key = fileOption files path name key

/-- The option does not say where the files are. -/
def Harmless (m : String × String) : Prop := m.2 ∉ ["user-config", "uid", "local-config"]

theorem migrations_harmless (helpers : List String) : ∀ m ∈ migrations helpers, Harmless m := by
  intro m hm
  rcases List.mem_append.1 hm with hm | hm
  · simp only [List.mem_cons, List.not_mem_nil, or_false] at hm
    rcases hm with rfl | rfl | rfl | rfl <;> simp [Harmless]
  · obtain ⟨helper, -, rfl⟩ := List.mem_map.1 hm
    show "enable" ∉ ["user-config", "uid", "local-config"]
    decide

variable {m : String × String}

/-- Where the files are does not depend on a harmless option. -/
theorem paths_of_sameBut (hm : Harmless m) (h : SameBut m files files') :
    (fresh env files').userConfigPath = (fresh env files).userConfigPath ∧
    (fresh env files').localConfigPath = (fresh env files).localConfigPath := by
  have hsls : ∀ path key, key ∈ ["user-config", "uid", "local-config"] →
      fileOption files' path "sls" key = fileOption files path "sls" key := by
    rintro path key hk
    refine h path "sls" key ?_
    rintro rfl
    exact hm hk
  have hbase : ∀ key, key ∈ ["user-config", "uid", "local-config"] →
      (readPath files' (some baseConfigPath) .empty).option "sls" key =
        (readPath files (some baseConfigPath) .empty).option "sls" key := by
    intro key hk
    rw [option_readPath, option_readPath, hsls _ key hk]
  have huser : (fresh env files').userConfigPath = (fresh env files).userConfigPath := by
    show findUserConfig env _ = findUserConfig env _
    rw [findUserConfig, findUserConfig, hbase "user-config" (by simp), hbase "uid" (by simp)]
  refine ⟨huser, ?_⟩
  show (fresh env files').config.option "sls" "local-config" = (fresh env files).config.option "sls" "local-config"
  rw [config_fresh, config_fresh, huser, hsls _ "local-config" (by simp), hsls _ "local-config" (by simp)]

theorem fileOption_writeFile {path : String} {p : Parser} (h : writeFile env path p files = some files')
    (path' : Option String) (name key : String) :
    fileOption files' path' name key =
      if path' = some path then p.option name key else fileOption files path' name key := by
  unfold writeFile at h
  split at h
  · rename_i hw
    cases h
    cases path' with
    | none => rfl
    | some path' =>
      by_cases he : path' = path
      · subst he
        rw [if_pos rfl, fileOption, Option.bind_some, contents, if_neg hw.1, Function.update_self, Option.bind_some]
      · rw [if_neg fun h => he (Option.some.inj h), fileOption, fileOption, Option.bind_some, Option.bind_some,
          contents, contents, Function.update_of_ne he]
  · cases h

/-- A file is written with the same options, but for `m`. -/
theorem sameBut_writeFile {path : String} {p : Parser} (h : writeFile env path p files = some files')
    (hp : ∀ name key, (name, key) ≠ m → p.option name key = fileOption files (some path) name key) :
    SameBut m files files' := by
  intro path' name key hne
  rw [fileOption_writeFile h]
  split
  · rename_i he
    rw [hp name key hne, he]
  · rfl

end

/-! ## While the keys are moved -/

/-- In this world everything reads as with the files that `upgrade` found. -/
structure Keeps (env : Env) (found : Files) (w : World) : Prop where
  files : ∀ name key, effective (fresh env w.files) name key = effective (fresh env found) name key
  process : ∀ name key, effective w.process name key = effective (fresh env found) name key

/-- Between two keys: the process knows where the files are and what the local one holds. -/
structure Upgrading (env : Env) (found : Files) (w : World) : Prop extends Keeps env found w where
  userPath : w.process.userConfigPath = (fresh env found).userConfigPath
  localPath : w.process.localConfigPath = (fresh env found).localConfigPath
  userPath_files : (fresh env w.files).userConfigPath = (fresh env found).userConfigPath
  localPath_files : (fresh env w.files).localConfigPath = (fresh env found).localConfigPath
  memory : ∀ name key,
    w.process.localConfig.option name key = fileOption w.files (fresh env found).localConfigPath name key

section
variable {env : Env} {found : Files} {w w' : World} {m : String × String}

/-- Setting the local option to what it is anyway keeps everything. -/
theorem effective_of_sameBut {p p' : Process} {value : String} (hc : p'.config = p.config)
    (hl : ∀ name key, (name, key) ≠ m → p'.localConfig.option name key = p.localConfig.option name key)
    (hv : p'.localConfig.option m.1 m.2 = some value) (he : effective p m.1 m.2 = some value) (name key : String) :
    effective p' name key = effective p name key := by
  by_cases hne : (name, key) = m
  · subst hne
    rw [he, effective, hv, Option.some_or]
  · rw [effective, effective, hl name key hne, hc]

/-- A write that sets the local option of `m` to what is read anyway, or comes after one that did. -/
theorem Upgrading.of_sameBut (h : Upgrading env found w) (hm : Harmless m) (hs : SameBut m w.files w'.files)
    {value : String} (he : effective (fresh env found) m.1 m.2 = some value)
    (hp : w'.process = { w.process with localConfig := w'.process.localConfig })
    (hl : ∀ name key, (name, key) ≠ m →
      w'.process.localConfig.option name key = w.process.localConfig.option name key)
    (hv : w'.process.localConfig.option m.1 m.2 = some value)
    (hf : fileOption w'.files (fresh env found).localConfigPath m.1 m.2 = some value) : Upgrading env found w' := by
  obtain ⟨hup, hlp⟩ := @paths_of_sameBut env _ _ m hm hs
  have hc : w'.process.config = w.process.config := by rw [hp]
  refine { files := fun name key => ?_, process := fun name key => ?_, userPath := ?_, localPath := ?_
           userPath_files := hup.trans h.userPath_files, localPath_files := hlp.trans h.localPath_files
           memory := fun name key => ?_ }
  · by_cases hne : (name, key) = m
    · subst hne
      rw [he, effective_fresh, hlp, h.localPath_files, hf, Option.some_or]
    · rw [← h.files, effective_fresh, effective_fresh, hlp, hup]
      simp only [hs _ name key hne]
  · rw [← h.process]
    exact effective_of_sameBut hc hl hv ((h.process _ _).trans he) name key
  · rw [hp, h.userPath]
  · rw [hp, h.localPath]
  · by_cases hne : (name, key) = m
    · subst hne
      rw [hv, hf]
    · rw [hl name key hne, h.memory, hs _ name key hne]

/-- What `migrate_key` does: the key leaves the user file, or is in the local one already. -/
structure Migrated (env : Env) (found : Files) (m : String × String) (w : World) (d : Done) : Prop where
  keeps : ∀ w' ∈ d.world :: d.points, Keeps env found w'
  upgrading : d.returned ≠ none → Upgrading env found d.world
  sameBut : d.returned ≠ none → SameBut m w.files d.world.files
  gone : d.returned ≠ none → fileOption d.world.files (fresh env found).userConfigPath m.1 m.2 = none ∨
    d.world.files = w.files ∧ fileOption w.files (fresh env found).localConfigPath m.1 m.2 ≠ none

theorem migrated_quits (h : Upgrading env found w)
    (hm : fileOption w.files (fresh env found).userConfigPath m.1 m.2 = none ∨
      fileOption w.files (fresh env found).localConfigPath m.1 m.2 ≠ none) :
    Migrated env found m w { points := [], world := w, returned := some false } := by
  refine ⟨fun w' hw => ?_, fun _ => h, fun _ _ _ _ _ => rfl, fun _ => hm.imp id fun hl => ⟨rfl, hl⟩⟩
  rw [List.mem_singleton.1 hw]
  exact h.toKeeps

theorem option_setLocal (m : String × String) (value : String) (w : World) :
    (setLocal m value w).process.localConfig.option m.1 m.2 = some value := by
  rw [setLocal, Parser.option_set, if_pos ⟨rfl, rfl⟩]

theorem option_setLocal_ne {m : String × String} {name key : String} (h : (name, key) ≠ m) (value : String)
    (w : World) :
    (setLocal m value w).process.localConfig.option name key = w.process.localConfig.option name key := by
  rw [setLocal, Parser.option_set, if_neg fun he => h (by rw [he.1, he.2]), Parser.option_addSection]

/-- The local option is set in memory: what is read is what the user file says anyway. -/
theorem keeps_setLocal (h : Upgrading env found w) {value : String}
    (he : effective (fresh env found) m.1 m.2 = some value) : Keeps env found (setLocal m value w) := by
  refine ⟨h.files, fun name key => ?_⟩
  rw [← h.process]
  exact @effective_of_sameBut m w.process (setLocal m value w).process value rfl
    (fun name key hne => option_setLocal_ne hne value w) (option_setLocal m value w) ((h.process _ _).trans he) name key

theorem moveKey_migrated (h : Upgrading env found w) (hm : Harmless m) {value path : String} {userConfig : Parser}
    (huser : (fresh env found).userConfigPath = some path)
    (hread : ∀ name key, userConfig.option name key = fileOption w.files (some path) name key)
    (hopt : userConfig.option m.1 m.2 = some value)
    (hnone : fileOption w.files (fresh env found).localConfigPath m.1 m.2 = none) :
    Migrated env found m w (moveKey env m value path userConfig w) := by
  -- The value is what is read of the key all along.
  have he : effective (fresh env found) m.1 m.2 = some value := by
    rw [← h.files, effective_fresh, h.userPath_files, h.localPath_files, hnone, huser, ← hread, hopt]
    rfl
  have hset : ∀ files name key, (name, key) ≠ m →
      { setLocal m value w with files := files }.process.localConfig.option name key =
        w.process.localConfig.option name key := fun _ name key hne => option_setLocal_ne hne value w
  unfold moveKey
  cases hw : writeConfig env (setLocal m value w).process (setLocal m value w).files with
  | none =>
    simp only [hw]
    refine ⟨fun w' hw' => ?_, fun hn => absurd rfl hn, fun hn => absurd rfl hn, fun hn => absurd rfl hn⟩
    rw [List.mem_singleton.1 hw']
    exact keeps_setLocal h he
  | some files =>
    obtain ⟨lp, hlp, hwrite⟩ := Option.bind_eq_some_iff.1 hw
    have hlocal : (fresh env found).localConfigPath = some lp := h.localPath.symm.trans hlp
    have hs : SameBut m w.files files := sameBut_writeFile hwrite fun name key hne => by
      rw [option_setLocal_ne hne, h.memory, hlocal]
    have hf : fileOption files (some lp) m.1 m.2 = some value := by
      rw [fileOption_writeFile hwrite, if_pos rfl, option_setLocal]
    have h' : Upgrading env found { setLocal m value w with files := files } :=
      h.of_sameBut hm hs he rfl (hset files) (option_setLocal m value w) (by rw [hlocal, hf])
    cases hw' : writeFile env path (userConfig.removeOption m.1 m.2) files with
    | none =>
      simp only [hw, hw']
      refine ⟨fun w' hm' => ?_, fun hn => absurd rfl hn, fun hn => absurd rfl hn, fun hn => absurd rfl hn⟩
      rcases List.mem_pair.1 hm' with rfl | rfl <;> exact h'.toKeeps
    | some files' =>
      simp only [hw, hw']
      -- The user file is not the local one, which did not have the key.
      have hne : some lp ≠ some path := by
        intro heq
        rw [hlocal, heq, ← hread, hopt] at hnone
        cases hnone
      have hs' : SameBut m files files' := sameBut_writeFile hw' fun name key hk => by
        rw [Parser.option_removeOption, if_neg fun he => hk (by rw [he.1, he.2]), hread, hs _ _ _ hk]
      have hf' : fileOption files' (some lp) m.1 m.2 = some value := by
        rw [fileOption_writeFile hw', if_neg hne, hf]
      have h'' : Upgrading env found { setLocal m value w with files := files' } :=
        h'.of_sameBut hm hs' he rfl (fun _ _ _ => rfl) (option_setLocal m value w) (by rw [hlocal, hf'])
      refine ⟨fun w' hm' => ?_, fun _ => h'', fun _ p n k hk => (hs' p n k hk).trans (hs p n k hk),
        fun _ => .inl ?_⟩
      · simp only [List.mem_cons, List.not_mem_nil, or_false] at hm'
        rcases hm' with rfl | rfl | rfl
        · exact h''.toKeeps
        · exact h'.toKeeps
        · exact h''.toKeeps
      · rw [huser, fileOption_writeFile hw', if_pos rfl, Parser.option_removeOption, if_pos ⟨rfl, rfl⟩]

theorem migrateKey_migrated (h : Upgrading env found w) (hm : Harmless m) :
    Migrated env found m w (migrateKey env m w) := by
  unfold migrateKey
  cases hup : w.process.userConfigPath with
  | none => exact migrated_quits h (.inl (by rw [← h.userPath, hup]; rfl))
  | some path =>
    have huser : (fresh env found).userConfigPath = some path := by rw [← h.userPath, hup]
    simp only
    cases hfile : contents w.files path with
    | none => exact migrated_quits h (.inl (by rw [huser, fileOption, Option.bind_some, hfile, Option.bind_none]))
    | some file =>
      have hread : ∀ name key,
          (Parser.read .empty file).option name key = fileOption w.files (some path) name key := by
        intro name key
        rw [Parser.option_read, Parser.option_empty, Option.or_none, fileOption, Option.bind_some, hfile,
          Option.bind_some]
      simp only
      cases hopt : (Parser.read .empty file).option m.1 m.2 with
      | none => exact migrated_quits h (.inl (by rw [huser, ← hread, hopt]))
      | some value =>
        simp only
        cases hl : w.process.localConfig.option m.1 m.2 with
        | some value' => exact migrated_quits h (.inr (by rw [← h.memory, hl]; exact Option.some_ne_none _))
        | none => exact moveKey_migrated h hm huser hread hopt (by rw [← h.memory, hl])

/-! ## All keys -/

/-- Every key that was not in the local file has left the user file. -/
structure MigratedAll (env : Env) (found : Files) (ms : List (String × String)) (w : World) (d : Done) : Prop where
  keeps : ∀ w' ∈ d.world :: d.points, Keeps env found w'
  upgrading : d.returned ≠ none → Upgrading env found d.world
  user : d.returned ≠ none → ∀ name key, fileOption w.files (fresh env found).userConfigPath name key = none →
    fileOption d.world.files (fresh env found).userConfigPath name key = none
  gone : d.returned ≠ none → ∀ m ∈ ms, fileOption w.files (fresh env found).localConfigPath m.1 m.2 = none →
    fileOption d.world.files (fresh env found).userConfigPath m.1 m.2 = none

/-- What is not in the user file does not come back. -/
theorem Migrated.user {d : Done} (h : Migrated env found m w d) (hr : d.returned ≠ none) {name key : String}
    (hn : fileOption w.files (fresh env found).userConfigPath name key = none) :
    fileOption d.world.files (fresh env found).userConfigPath name key = none := by
  by_cases hne : (name, key) = m
  · subst hne
    rcases h.gone hr with hg | ⟨hf, -⟩
    · exact hg
    · rw [hf, hn]
  · rw [h.sameBut hr _ _ _ hne, hn]

theorem migrateKeys_migratedAll {ms : List (String × String)} (hms : ∀ m ∈ ms, Harmless m)
    (h : Upgrading env found w) : MigratedAll env found ms w (migrateKeys env ms w) := by
  induction ms generalizing w with
  | nil =>
    refine ⟨fun w' hw => ?_, fun _ => h, fun _ _ _ => id, fun _ m hm => absurd hm List.not_mem_nil⟩
    rw [List.mem_singleton.1 hw]
    exact h.toKeeps
  | cons m ms ih =>
    have hd := migrateKey_migrated h (hms m List.mem_cons_self)
    rw [migrateKeys]
    cases hr : (migrateKey env m w).returned with
    | none => exact ⟨hd.keeps, fun hn => absurd hr hn, fun hn => absurd hr hn, fun hn => absurd hr hn⟩
    | some b =>
      have hsome : (migrateKey env m w).returned ≠ none := by
        rw [hr]
        exact Option.some_ne_none b
      have hd' := ih (fun m hm => hms m (List.mem_cons_of_mem _ hm)) (hd.upgrading hsome)
      have hr' : ∀ d : Done, d.returned.map (b || ·) ≠ none → d.returned ≠ none := by
        intro d hn hnone
        rw [hnone] at hn
        exact hn rfl
      -- What the first migration leaves, the rest of the list starts from.
      refine ⟨fun w' hw => ?_, fun hn => hd'.upgrading (hr' _ hn), fun hn name key hu => ?_, fun hn m' hm' hl => ?_⟩
      · rcases List.mem_cons.1 hw with rfl | hw
        · exact hd'.keeps _ List.mem_cons_self
        · rcases List.mem_append.1 hw with hw | hw
          · exact hd.keeps _ (List.mem_cons_of_mem _ hw)
          · exact hd'.keeps _ (List.mem_cons_of_mem _ hw)
      · exact hd'.user (hr' _ hn) name key (hd.user hsome hu)
      · have hgone : fileOption w.files (fresh env found).localConfigPath m.1 m.2 = none →
            fileOption (migrateKey env m w).world.files (fresh env found).userConfigPath m.1 m.2 = none := by
          intro hl
          rcases hd.gone hsome with hg | ⟨-, hg⟩
          · exact hg
          · exact absurd hl hg
        -- The first option may be in the list again.
        by_cases hne : m' = m
        · subst hne
          exact hd'.user (hr' _ hn) _ _ (hgone hl)
        · rcases List.mem_cons.1 hm' with rfl | hm'
          · exact absurd rfl hne
          · exact hd'.gone (hr' _ hn) m' hm' (by rw [hd.sameBut hsome _ _ _ hne, hl])

/-- Before the first key. -/
theorem upgrading_found (env : Env) (found : Files) :
    Upgrading env found ⟨found, reloadConfig env found (fresh env found)⟩ := by
  have hlocal : ∀ name key, (reloadConfig env found (fresh env found)).localConfig.option name key =
      (fresh env found).localConfig.option name key := by
    intro name key
    rw [option_reloadConfig, localConfig_fresh, Option.or_self]
  refine { files := fun _ _ => rfl, process := fun name key => ?_, userPath := rfl, localPath := rfl
           userPath_files := rfl, localPath_files := rfl, memory := fun name key => ?_ }
  · rw [effective, hlocal]
    rfl
  · rw [hlocal, localConfig_fresh]

/-- Reading the files again changes nothing that is read. -/
theorem keeps_reloadConfig (h : Upgrading env found w) :
    Keeps env found { w with process := reloadConfig env w.files w.process } := by
  refine ⟨h.files, fun name key => ?_⟩
  rw [← h.files, effective, effective, option_reloadConfig, h.memory, ← h.localPath_files, Option.or_self,
    localConfig_fresh]
  rfl

theorem ConfigSection.get?_of_keeps (h : Keeps env found w) (s : ConfigSection) (key : String) :
    s.get? (fresh env w.files) key = s.get? (fresh env found) key ∧
    s.get? w.process key = s.get? (fresh env found) key := by
  simp only [get?_eq, h.files, h.process, and_self]

end

/-- After every write of `upgrade`, whatever fails, each option reads in the
process and in a new one as it did before; and if `upgrade` returns, no migrated
key that was not in the local file is left in the user file. -/
theorem upgrade_keeps_options (env : Env) (helpers : List String) (found : Files) :
    (∀ w ∈ (upgrade env helpers found).world :: (upgrade env helpers found).points, ∀ (s : ConfigSection) key,
      s.get? (fresh env w.files) key = s.get? (fresh env found) key ∧
      s.get? w.process key = s.get? (fresh env found) key) ∧
    ((upgrade env helpers found).returned ≠ none → ∀ m ∈ migrations helpers,
      fileOption found (fresh env found).localConfigPath m.1 m.2 = none →
      fileOption (upgrade env helpers found).world.files (fresh env found).userConfigPath m.1 m.2 = none) := by
  have h := migrateKeys_migratedAll (migrations_harmless helpers) (upgrading_found env found)
  unfold upgrade
  simp only
  split
  · rename_i hr
    have hsome : (migrateKeys env (migrations helpers)
        ⟨found, reloadConfig env found (fresh env found)⟩).returned ≠ none := by
      rw [hr]
      exact Option.some_ne_none _
    refine ⟨fun w hw => ConfigSection.get?_of_keeps ?_, fun _ => h.gone hsome⟩
    rcases List.mem_cons.1 hw with rfl | hw
    · exact keeps_reloadConfig (h.upgrading hsome)
    · exact h.keeps w (List.mem_cons_of_mem _ hw)
  · exact ⟨fun w hw => ConfigSection.get?_of_keeps (h.keeps w hw), h.gone⟩

end LogSubmitter.Config

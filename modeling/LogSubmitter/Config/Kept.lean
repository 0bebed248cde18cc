import LogSubmitter.Config.Upgrade
/-!
# Options that are kept

The daemon sets options and writes the local file, stops, and moves keys between the files
when it starts. An option that is in the local file is read by every process from then on,
whatever else is set, and wherever a file cannot be opened for writing or a process dies.
-/
namespace LogSubmitter.Config.Kept

open Lib

/-- The files, and the variables of the daemon, if it runs. -/
structure Service where
  files : Files
  process : Option Process

inductive Event where
  /-- `section[key] = value` -/
  | assign (s : ConfigSection) (key value : String)
  /-- `write_config`. Where the file cannot be opened, what it raises changes nothing. -/
  | write (writable : String → Parser → Bool)
  | stop
  /-- The daemon starts. It may die in `upgrade` after so many writes. -/
  | start (writable : String → Parser → Bool) (dies : Option Nat)

/-- The event sets the option. -/
def Event.Sets (name key : String) : Event → Prop
  | .assign s key' _ => s.name = name ∧ key' = key
  | _ => False

section
variable (home : String → Option String) (helpers : List String)

/-- What is run with the daemon. If `upgrade` raises, it does not start. -/
def step (σ : Service) : Event → Service
  | .assign s key value => { σ with process := σ.process.map (s.set key value) }
  | .write writable =>
    match σ.process with
    | none => σ
    | some p => { σ with files := (writeConfig ⟨home, writable⟩ p σ.files).getD σ.files }
  | .stop => { σ with process := none }
  | .start writable dies =>
    let d := upgrade ⟨home, writable⟩ helpers σ.files
    match dies.bind (d.points[·]?) with
    | some w => { files := w.files, process := none }
    | none => { files := d.world.files, process := d.returned.map fun _ => d.world.process }

/-- A process that has imported the module. -/
def started (files : Files) : Process := fresh ⟨home, fun _ _ => true⟩ files

/-- The local file is neither of the other two. -/
def Apart (files : Files) : Prop :=
  ∀ path, (started home files).localConfigPath = some path →
    path ≠ baseConfigPath ∧ (started home files).userConfigPath ≠ some path

/-- The process writes to the local file, and what it does not have itself it reads from the other files. -/
structure InStep (files : Files) (p : Process) : Prop where
  localPath : p.localConfigPath = (started home files).localConfigPath
  option : ∀ name key,
    effective p name key = (p.localConfig.option name key).or ((started home files).config.option name key)

structure Sound (σ : Service) : Prop where
  apart : Apart home σ.files
  process : ∀ p, σ.process = some p → InStep home σ.files p

/-- The option is read from the files, and by the daemon, if it runs. -/
structure Holds (name key value : String) (σ : Service) : Prop where
  files : effective (started home σ.files) name key = some value
  process : ∀ p, σ.process = some p → effective p name key = some value

end

section
variable {home : String → Option String} {helpers : List String} {writable : String → Parser → Bool}
variable {files files' : Files} {σ : Service}

/-! ## A write -/

theorem readPath_writeFile {path : String} {doc : Parser} (h : writeFile ⟨home, writable⟩ path doc files = some files')
    {path' : Option String} (hne : path' ≠ some path) (p : Parser) :
    readPath files' path' p = readPath files path' p := by
  unfold writeFile at h
  split at h
  · cases h
    cases path' with
    | none => rfl
    | some path' =>
      have hcontents : contents (Function.update files path (some doc)) path' = contents files path' := by
        rw [contents, contents, Function.update_of_ne fun he => hne (congrArg some he)]
      rw [readPath, readPath, Option.bind_some, Option.bind_some, hcontents]
  · cases h

/-- The other two files are as they were. -/
theorem started_writeConfig (h : Apart home files) {p : Process}
    (hp : p.localConfigPath = (started home files).localConfigPath)
    (hw : writeConfig ⟨home, writable⟩ p files = some files') :
    (started home files').config = (started home files).config ∧
    (started home files').userConfigPath = (started home files).userConfigPath ∧
    (started home files').localConfigPath = (started home files).localConfigPath ∧
    ∀ name key, (started home files').localConfig.option name key = p.localConfig.option name key := by
  obtain ⟨path, hpath, hwrite⟩ := Option.bind_eq_some_iff.1 hw
  rw [hp] at hpath
  obtain ⟨hbase, huser⟩ := h path hpath
  have hb : readPath files' (some baseConfigPath) .empty = readPath files (some baseConfigPath) .empty :=
    readPath_writeFile hwrite (fun he => hbase (Option.some.inj he).symm) _
  have hup : (started home files').userConfigPath = (started home files).userConfigPath :=
    congrArg (findUserConfig ⟨home, fun _ _ => true⟩) hb
  have hc : (started home files').config = (started home files).config := by
    show readPath files' (started home files').userConfigPath (readPath files' (some baseConfigPath) .empty) =
      readPath files (started home files).userConfigPath (readPath files (some baseConfigPath) .empty)
    rw [hup, hb, readPath_writeFile hwrite huser]
  have hlp : (started home files').localConfigPath = (started home files).localConfigPath :=
    congrArg (Parser.option · "sls" "local-config") hc
  refine ⟨hc, hup, hlp, fun name key => ?_⟩
  rw [started, localConfig_fresh]
  show fileOption files' (started home files').localConfigPath name key = _
  rw [hlp, hpath, fileOption_writeFile hwrite, if_pos rfl]

theorem apart_of_paths (h : Apart home files)
    (hup : (started home files').userConfigPath = (started home files).userConfigPath)
    (hlp : (started home files').localConfigPath = (started home files).localConfigPath) : Apart home files' := by
  intro path hpath
  rw [hlp] at hpath
  rw [hup]
  exact h path hpath

/-- After a write the files read as the process that wrote them. -/
theorem effective_writeConfig (h : Apart home files) {p : Process} (hp : InStep home files p)
    (hw : writeConfig ⟨home, writable⟩ p files = some files') (name key : String) :
    effective (started home files') name key = effective p name key := by
  obtain ⟨hc, -, -, hlocal⟩ := started_writeConfig h hp.localPath hw
  rw [hp.option, effective, hlocal, hc]

/-! ## `upgrade` -/

/-- The user file and the local file are where they were. -/
def SamePaths (env : Env) (files files' : Files) : Prop :=
  (fresh env files').userConfigPath = (fresh env files).userConfigPath ∧
  (fresh env files').localConfigPath = (fresh env files).localConfigPath

section
variable {env : Env} {found : Files} {w : World} {m : String × String}

theorem samePaths_moveKey (h : Upgrading env found w) (hm : Harmless m) {value path : String} {userConfig : Parser}
    (hread : ∀ name key, userConfig.option name key = fileOption w.files (some path) name key) :
    ∀ w' ∈ (moveKey env m value path userConfig w).world :: (moveKey env m value path userConfig w).points,
      SamePaths env found w'.files := by
  have hhere : SamePaths env found w.files := ⟨h.userPath_files, h.localPath_files⟩
  have hof : ∀ {files}, SameBut m w.files files → SamePaths env found files := by
    intro files hs
    obtain ⟨hup, hlp⟩ := @paths_of_sameBut env _ _ m hm hs
    exact ⟨hup.trans hhere.1, hlp.trans hhere.2⟩
  unfold moveKey
  cases hw : writeConfig env (setLocal m value w).process (setLocal m value w).files with
  | none =>
    simp only [hw, List.mem_singleton, forall_eq]
    exact hhere
  | some files =>
    obtain ⟨lp, hlp, hwrite⟩ := Option.bind_eq_some_iff.1 hw
    have hs : SameBut m w.files files := sameBut_writeFile hwrite fun name key hne => by
      rw [option_setLocal_ne hne, h.memory]
      exact congrArg (fileOption w.files · name key) (h.localPath.symm.trans hlp)
    cases hw' : writeFile env path (userConfig.removeOption m.1 m.2) files with
    | none =>
      simp only [hw, hw', List.mem_cons, List.not_mem_nil, or_false, or_self, forall_eq]
      exact hof hs
    | some files' =>
      have hs' : SameBut m files files' := sameBut_writeFile hw' fun name key hk => by
        rw [Parser.option_removeOption, if_neg fun he => hk (by rw [he.1, he.2]), hread, hs _ _ _ hk]
      have hboth : SameBut m w.files files' := fun p n k hk => (hs' p n k hk).trans (hs p n k hk)
      simp only [hw, hw', List.mem_cons, List.not_mem_nil, or_false]
      rintro w' (rfl | rfl | rfl)
      · exact hof hboth
      · exact hof hs
      · exact hof hboth

theorem samePaths_migrateKey (h : Upgrading env found w) (hm : Harmless m) :
    ∀ w' ∈ (migrateKey env m w).world :: (migrateKey env m w).points, SamePaths env found w'.files := by
  have hquits : ∀ w' ∈ [w], SamePaths env found w'.files := by
    rw [List.forall_mem_singleton]
    exact ⟨h.userPath_files, h.localPath_files⟩
  unfold migrateKey
  dsimp only
  split
  · exact hquits
  · next path hup =>
    split
    · exact hquits
    · next file hfile =>
      split
      · exact hquits
      · split
        · exact hquits
        · refine samePaths_moveKey h hm fun name key => ?_
          rw [Parser.option_read, Parser.option_empty, Option.or_none, fileOption, Option.bind_some, hfile,
            Option.bind_some]

theorem samePaths_migrateKeys {ms : List (String × String)} (hms : ∀ m ∈ ms, Harmless m)
    (h : Upgrading env found w) :
    ∀ w' ∈ (migrateKeys env ms w).world :: (migrateKeys env ms w).points, SamePaths env found w'.files := by
  induction ms generalizing w with
  | nil =>
    rw [migrateKeys, List.forall_mem_singleton]
    exact ⟨h.userPath_files, h.localPath_files⟩
  | cons m ms ih =>
    have hfirst := samePaths_migrateKey h (hms m List.mem_cons_self)
    rw [migrateKeys]
    cases hr : (migrateKey env m w).returned with
    | none => exact hfirst
    | some b =>
      have hsome : (migrateKey env m w).returned ≠ none := by
        rw [hr]
        exact Option.some_ne_none b
      have hrest := ih (fun m hm => hms m (List.mem_cons_of_mem _ hm))
        ((migrateKey_migrated h (hms m List.mem_cons_self)).upgrading hsome)
      intro w' hw'
      rcases List.mem_cons.1 hw' with rfl | hw'
      · exact hrest _ List.mem_cons_self
      · rcases List.mem_append.1 hw' with hw' | hw'
        · exact hfirst _ (List.mem_cons_of_mem _ hw')
        · exact hrest _ (List.mem_cons_of_mem _ hw')

/-- A process that has moved the keys. -/
theorem inStep_of_upgrading (h : Upgrading ⟨home, writable⟩ found w) : InStep home w.files w.process := by
  refine ⟨h.localPath.trans h.localPath_files.symm, fun name key => ?_⟩
  have hlocal : w.process.localConfig.option name key = (started home w.files).localConfig.option name key := by
    rw [h.memory, ← h.localPath_files]
    exact (localConfig_fresh _ _).symm
  rw [h.process, ← h.files, hlocal]
  rfl

end

/-- Whatever fails in `upgrade` and wherever it ends, the files are where they were and read as they did, and so does
the process. -/
theorem upgrade_kept (home : String → Option String) (writable : String → Parser → Bool) (helpers : List String)
    (files : Files) :
    let d := upgrade ⟨home, writable⟩ helpers files
    (∀ w ∈ d.world :: d.points, Keeps ⟨home, writable⟩ files w ∧ SamePaths ⟨home, writable⟩ files w.files) ∧
    (d.returned ≠ none → InStep home d.world.files d.world.process) := by
  intro d
  have hstart := upgrading_found ⟨home, writable⟩ files
  have hall := migrateKeys_migratedAll (migrations_harmless helpers) hstart
  have hpaths := samePaths_migrateKeys (migrations_harmless helpers) hstart
  simp only [d]
  unfold upgrade
  dsimp only
  split
  · next hr =>
    have hsome : (migrateKeys ⟨home, writable⟩ (migrations helpers)
        ⟨files, reloadConfig ⟨home, writable⟩ files (fresh ⟨home, writable⟩ files)⟩).returned ≠ none := by
      rw [hr]
      exact Option.some_ne_none _
    have hlast := hpaths _ List.mem_cons_self
    refine ⟨fun w hw => ?_, fun _ => ⟨rfl, fun _ _ => rfl⟩⟩
    rcases List.mem_cons.1 hw with rfl | hw
    · exact ⟨keeps_reloadConfig (hall.upgrading hsome), hlast⟩
    · exact ⟨hall.keeps w (List.mem_cons_of_mem _ hw), hpaths w (List.mem_cons_of_mem _ hw)⟩
  · exact ⟨fun w hw => ⟨hall.keeps w hw, hpaths w hw⟩, fun hr => inStep_of_upgrading (hall.upgrading hr)⟩

/-! ## What is kept -/

/-- One step of what starts, writes and stops. -/
theorem Sound.step (h : Sound home σ) (e : Event) : Sound home (step home helpers σ e) := by
  cases e with
  | assign s key value =>
    refine ⟨h.apart, fun p' hp' => ?_⟩
    obtain ⟨p, hp, rfl⟩ := Option.map_eq_some_iff.1 hp'
    have hin := h.process p hp
    refine ⟨hin.localPath, fun name key' => ?_⟩
    unfold effective ConfigSection.set
    dsimp only
    rw [Parser.option_set, Parser.option_addSection]
    split
    · rfl
    · exact hin.option name key'
  | write writable =>
    unfold Kept.step
    dsimp only
    split
    · exact h
    · next p hp =>
      have hin := h.process p hp
      cases hw : writeConfig ⟨home, writable⟩ p σ.files with
      | none => exact h
      | some files =>
        obtain ⟨hc, hup, hlp, -⟩ := started_writeConfig h.apart hin.localPath hw
        refine ⟨apart_of_paths h.apart hup hlp, fun p' hp' => ?_⟩
        cases hp.symm.trans hp'
        exact ⟨hin.localPath.trans hlp.symm, fun name key => hc ▸ hin.option name key⟩
  | stop => exact ⟨h.apart, fun p hp => by cases hp⟩
  | start writable dies =>
    obtain ⟨hkeeps, hrun⟩ := upgrade_kept home writable helpers σ.files
    unfold Kept.step
    dsimp only
    split
    · next w hw =>
      obtain ⟨n, -, hn⟩ := Option.bind_eq_some_iff.1 hw
      obtain ⟨hup, hlp⟩ := (hkeeps w (List.mem_cons_of_mem _ (List.mem_of_getElem? hn))).2
      exact ⟨apart_of_paths h.apart hup hlp, fun p hp => by cases hp⟩
    · obtain ⟨hup, hlp⟩ := (hkeeps _ List.mem_cons_self).2
      refine ⟨apart_of_paths h.apart hup hlp, fun p hp => ?_⟩
      obtain ⟨b, hb, rfl⟩ := Option.map_eq_some_iff.1 hp
      exact hrun (by rw [hb]; exact Option.some_ne_none b)

theorem Holds.step (hs : Sound home σ) {name key value : String} (h : Holds home name key value σ) {e : Event}
    (he : ¬ e.Sets name key) : Holds home name key value (step home helpers σ e) := by
  cases e with
  | assign s key' value' =>
    refine ⟨h.files, fun p' hp' => ?_⟩
    obtain ⟨p, hp, rfl⟩ := Option.map_eq_some_iff.1 hp'
    rw [← h.process p hp]
    unfold effective ConfigSection.set
    dsimp only
    rw [Parser.option_set, Parser.option_addSection, if_neg fun hset => he ⟨hset.1.symm, hset.2.symm⟩]
  | write writable =>
    unfold Kept.step
    dsimp only
    split
    · exact h
    · next p hp =>
      cases hw : writeConfig ⟨home, writable⟩ p σ.files with
      | none => exact h
      | some files =>
        refine ⟨?_, h.process⟩
        exact (effective_writeConfig hs.apart (hs.process p hp) hw name key).trans (h.process p hp)
  | stop => exact ⟨h.files, fun p hp => by cases hp⟩
  | start writable dies =>
    obtain ⟨hkeeps, -⟩ := upgrade_kept home writable helpers σ.files
    unfold Kept.step
    dsimp only
    split
    · next w hw =>
      obtain ⟨n, -, hn⟩ := Option.bind_eq_some_iff.1 hw
      have hk := (hkeeps w (List.mem_cons_of_mem _ (List.mem_of_getElem? hn))).1
      exact ⟨(hk.files name key).trans h.files, fun p hp => by cases hp⟩
    · have hk := (hkeeps _ List.mem_cons_self).1
      refine ⟨(hk.files name key).trans h.files, fun p hp => ?_⟩
      obtain ⟨b, -, rfl⟩ := Option.map_eq_some_iff.1 hp
      exact (hk.process name key).trans h.files

end

end LogSubmitter.Config.Kept

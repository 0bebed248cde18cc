import LogSubmitter.Config.Interpolated
import LogSubmitter.Lib.Ini
import LogSubmitter.Str
/-!
# The configuration as it is stored

The files are texts. `write_config` writes the local one, and a process that
starts reads all three of them. What is set in one process is there in the
next, when it was written, and no value that is set gets to be more than the
value of its option.
-/
namespace LogSubmitter.Config.Stored

open Lib

abbrev Text := Ini.Text

abbrev Texts := String → Option Text

section
variable (lower : String → String)

/-- What `ConfigParser` takes for space, its `optionxform`, and its `default_section`. -/
def dialect : Ini.Dialect where
  space := Str.isSpace
  optionxform := lower
  defaultSection := "DEFAULT"
  blank := Words.forall_of_all (by decide)
  solid := Words.forall_of_all (by decide)

/-- What `open(path)` can read. An empty path names no file. -/
def contents (texts : Texts) (path : String) : Option Text := if path = "" then none else texts path

/-- `read_file` of the file under the path. A file that cannot be opened is passed over, and one that cannot be
parsed is not. -/
def readPath (texts : Texts) (path : Option String) (p : Parser) : Option Parser :=
  match path.bind (contents texts) with
  | none => some p
  | some text => (Ini.parse (dialect lower) text).map p.read

/-- The configuration of the first two files, and where the others are. -/
structure Opened where
  config : Parser
  userConfigPath : Option String
  localConfigPath : Option String

/-- `reload_config`, up to the local file. -/
def openConfig (env : Env) (texts : Texts) : Option Opened :=
  (readPath lower texts (some baseConfigPath) .empty).bind fun base =>
    (Interpolated.findUserConfig lower env base).toOption.bind fun userConfigPath =>
      (readPath lower texts userConfigPath base).bind fun config =>
        (Interpolated.findLocalConfig lower config).toOption.map fun localConfigPath =>
          { config, userConfigPath, localConfigPath }

/-- `reload_config`. `none` is an error that is raised: a file or a value cannot be parsed. -/
def reloadConfig (env : Env) (texts : Texts) (p : Process) : Option Process :=
  (openConfig lower env texts).bind fun o =>
    (readPath lower texts o.localConfigPath p.localConfig).map fun localConfig =>
      { config := o.config
        localConfig := localConfig
        userConfigPath := o.userConfigPath
        localConfigPath := o.localConfigPath }

/-- A new process, which imports the module. -/
def fresh (env : Env) (texts : Texts) : Option Process :=
  reloadConfig lower env texts
    { config := .empty, localConfig := .empty, userConfigPath := none, localConfigPath := none }

/-- `write_config`, where `open(path, 'w')` succeeds if it `opens`. `none` is an `OSError`. -/
def writeConfig (opens : Bool) (p : Process) (texts : Texts) : Option Texts :=
  p.localConfigPath.bind fun path =>
    if path ≠ "" ∧ opens = true then
      some (Function.update texts path (some (Ini.print (dialect lower) p.localConfig)))
    else none

/-- `section[key] = value`. `before_set` takes no value with a dollar that could not be resolved. -/
def set (s : ConfigSection) (key value : String) (p : Process) : Process :=
  if Interpolation.accepts value.toList then s.set (lower key) value p
  else { p with localConfig := p.localConfig.addSection s.name }

/-! ## Runs -/

/-- What is done to the configuration. -/
inductive Op where
  | set (s : ConfigSection) (key value : String)
  | write (opens : Bool)
  | reload
  | restart

structure State where
  texts : Texts
  process : Process

/-- A write that fails changes nothing. -/
def step (env : Env) (σ : State) : Op → Option State
  | .set s key value => some { σ with process := set lower s key value σ.process }
  | .write opens => some { σ with texts := (writeConfig lower opens σ.process σ.texts).getD σ.texts }
  | .reload => (reloadConfig lower env σ.texts σ.process).map fun process => { σ with process }
  | .restart => (fresh lower env σ.texts).map fun process => { σ with process }

/-! ## What the configuration is for -/

abbrev Options := String → String → Option String

/-- The local options, as the process has them and as a new one will have them. -/
structure Settings where
  current : Options
  saved : Options

/-- A value is saved as it will be read. -/
def save (o : Options) : Options := fun name key => (o name key).map (Ini.restored (dialect lower))

def Settings.step (a : Settings) : Op → Settings
  | .set s key value =>
    if Interpolation.accepts value.toList then
      { a with
        current := fun name key' => if name = s.name ∧ key' = lower key then some value else a.current name key' }
    else a
  | .write opens => if opens then { a with saved := save lower a.current } else a
  | .reload => { a with current := fun name key => (a.saved name key).or (a.current name key) }
  | .restart => { a with current := a.saved }

/-- A section and an option under names that can be read, and a value in which no CR ends a line. -/
def Op.Ok : Op → Prop
  | .set s key value =>
    Ini.IsSection (dialect lower) s.name ∧ Ini.IsKey (dialect lower) (lower key) ∧ '\r' ∉ value.toList
  | _ => True

/-- The local file is neither of the other two. -/
structure Apart (o : Opened) (path : String) : Prop where
  localPath : o.localConfigPath = some path
  ne_empty : path ≠ ""
  ne_base : path ≠ baseConfigPath
  ne_user : o.userConfigPath ≠ some path

/-- What the file has under the path. A file that is not there has nothing. -/
def stored (texts : Texts) (path : String) : Option Parser :=
  match contents texts path with
  | none => some .empty
  | some text => Ini.parse (dialect lower) text

/-- The process and the local file have these settings, and the other two files are as they were. -/
structure Refines (env : Env) (o : Opened) (path : String) (σ : State) (a : Settings) : Prop where
  opened : openConfig lower env σ.texts = some o
  config : σ.process.config = o.config
  localPath : σ.process.localConfigPath = some path
  printable : Ini.Printable (dialect lower) σ.process.localConfig
  current : ∀ name key, σ.process.localConfig.option name key = a.current name key
  saved : ∃ doc, stored lower σ.texts path = some doc ∧ Ini.Printable (dialect lower) doc ∧
    ∀ name key, Parser.option doc name key = a.saved name key

end

/-! ## What can be printed -/

section
variable {lower : String → String} {p file : Parser} {name key value : String}

theorem printable_set (h : Ini.Printable (dialect lower) p) (hn : Ini.IsSection (dialect lower) name)
    (hk : Ini.IsKey (dialect lower) key) (hv : '\r' ∉ value.toList) :
    Ini.Printable (dialect lower) (p.set name key value) := by
  apply Ini.Printable.insert h hn
  intro o ho
  rcases Dict.mem_items_insert ho with rfl | ho
  · exact ⟨hk, hv⟩
  · exact Ini.Printable.options h name o ho

theorem printable_addSection (h : Ini.Printable (dialect lower) p) (hn : Ini.IsSection (dialect lower) name) :
    Ini.Printable (dialect lower) (p.addSection name) := by
  unfold Parser.addSection
  split
  · exact h
  · exact Ini.Printable.insert h hn fun o ho => absurd ho List.not_mem_nil

theorem printable_read (h : Ini.Printable (dialect lower) p) (hf : Ini.Printable (dialect lower) file) :
    Ini.Printable (dialect lower) (p.read file) := by
  unfold Parser.read
  refine List.foldlRecOn _ _ h fun p hp s hs => ?_
  unfold Parser.readSection
  refine List.foldlRecOn _ _ (printable_addSection hp (hf.sections s hs)) fun p hp o ho => ?_
  exact printable_set hp (hf.sections s hs) (hf.keys s hs o ho) (hf.values s hs o ho)

/-! ## Reading into an empty parser -/

theorem readOptions_eq (items : List (String × String)) (p : Parser) (opts : Dict String String) :
    items.foldl (fun p o => Parser.set p name o.1 o.2) (Dict.insert p name opts) =
      Dict.insert p name (items.foldl (fun os o => os.insert o.1 o.2) opts) := by
  induction items generalizing opts with
  | nil => rfl
  | cons o items ih =>
    have hset : Parser.set (Dict.insert p name opts) name o.1 o.2 = Dict.insert p name (opts.insert o.1 o.2) := by
      rw [Parser.set, Dict.get?_insert_self, Option.getD_some, Dict.insert_insert]
    rw [List.foldl_cons, hset, ih, List.foldl_cons]

theorem readSection_new {s : String × Dict String String} (h : p.get? s.1 = none) :
    p.readSection s = Dict.insert p s.1 s.2 := by
  have hadd : p.addSection s.1 = Dict.insert p s.1 .empty := by
    rw [Parser.addSection, h]
    rfl
  have hopts : s.2.items.foldl (fun os o => os.insert o.1 o.2) .empty = s.2 :=
    (Dict.foldl_insert_map id s.2).trans (Dict.ext_items (by simp [Dict.map]))
  rw [Parser.readSection, hadd, readOptions_eq, hopts]

theorem read_empty (file : Parser) : Parser.read .empty file = file := by
  have hfold : ∀ (items : List (String × Dict String String)) (p : Parser), (p.keys ++ items.map Prod.fst).Nodup →
      items.foldl Parser.readSection p = items.foldl (fun p s => Dict.insert p s.1 s.2) p := by
    intro items
    induction items with
    | nil => exact fun _ _ => rfl
    | cons s items ih =>
      intro p hn
      have hs : s.1 ∉ p.keys := fun hm => List.disjoint_of_nodup_append hn hm (by simp)
      have hnext : ((Dict.insert p s.1 s.2).keys ++ items.map Prod.fst).Nodup := by
        rw [Dict.keys_insert_of_not_mem hs, List.append_assoc]
        exact hn
      rw [List.foldl_cons, readSection_new (Dict.get?_eq_none.2 hs), ih _ hnext, List.foldl_cons]
  refine (hfold file.items .empty file.nodup).trans ?_
  exact (Dict.foldl_insert_map id file).trans (Dict.ext_items (by simp [Dict.map]))

end

/-! ## One file under another path -/

section
variable {lower : String → String} {env : Env} {texts : Texts} {o : Opened} {path : String}

theorem contents_update {path' : String} (h : path' ≠ path) (text : Option Text) :
    contents (Function.update texts path text) path' = contents texts path' := by
  unfold contents
  rw [Function.update_of_ne h]

theorem readPath_update {path' : Option String} (h : path' ≠ some path) (text : Option Text) (p : Parser) :
    readPath lower (Function.update texts path text) path' p = readPath lower texts path' p := by
  unfold readPath
  cases path' with
  | none => rfl
  | some path' =>
    have hne : path' ≠ path := fun he => h (congrArg some he)
    rw [Option.bind_some, contents_update hne, Option.bind_some]

/-- What is in the local file is not in the other two. -/
theorem openConfig_update (ho : openConfig lower env texts = some o) (h : Apart o path) (text : Option Text) :
    openConfig lower env (Function.update texts path text) = some o := by
  have hbase : some baseConfigPath ≠ some path := fun he => h.ne_base (Option.some.inj he).symm
  unfold openConfig at ho ⊢
  rw [readPath_update hbase]
  obtain ⟨base, hb, ho⟩ := Option.bind_eq_some_iff.1 ho
  obtain ⟨userConfigPath, hu, ho⟩ := Option.bind_eq_some_iff.1 ho
  obtain ⟨config, hc, ho⟩ := Option.bind_eq_some_iff.1 ho
  obtain ⟨localConfigPath, hl, rfl⟩ := Option.map_eq_some_iff.1 ho
  rw [hb, Option.bind_some, hu, Option.bind_some, readPath_update h.ne_user, hc, Option.bind_some, hl]
  rfl

theorem readPath_stored (h : Apart o path) (p : Parser) :
    readPath lower texts o.localConfigPath p = (stored lower texts path).map p.read := by
  rw [h.localPath, readPath, Option.bind_some, stored]
  cases contents texts path with
  | none => rfl
  | some text => rfl

theorem reloadConfig_eq (ho : openConfig lower env texts = some o) (h : Apart o path) {doc : Parser}
    (hdoc : stored lower texts path = some doc) (p : Process) :
    reloadConfig lower env texts p = some
      { config := o.config, localConfig := p.localConfig.read doc, userConfigPath := o.userConfigPath
        localConfigPath := some path } := by
  rw [reloadConfig, ho, Option.bind_some, readPath_stored h, hdoc, h.localPath]
  rfl

theorem fresh_eq (ho : openConfig lower env texts = some o) (h : Apart o path) {doc : Parser}
    (hdoc : stored lower texts path = some doc) :
    fresh lower env texts = some
      { config := o.config, localConfig := doc, userConfigPath := o.userConfigPath, localConfigPath := some path } := by
  rw [fresh, reloadConfig_eq ho h hdoc, read_empty]

/-- What `write_config` has written. -/
theorem writeConfig_eq {p : Process} (hp : p.localConfigPath = some path) (hne : path ≠ "") :
    writeConfig lower true p texts =
      some (Function.update texts path (some (Ini.print (dialect lower) p.localConfig))) := by
  rw [writeConfig, hp, Option.bind_some, if_pos ⟨hne, rfl⟩]

theorem stored_update (hne : path ≠ "") {doc : Parser} (hdoc : Ini.Printable (dialect lower) doc) :
    stored lower (Function.update texts path (some (Ini.print (dialect lower) doc))) path =
      some (doc.map fun options => options.mapValues (Ini.restored (dialect lower))) := by
  rw [stored, contents, if_neg hne, Function.update_self]
  exact Ini.parse_print hdoc

theorem option_restored (doc : Parser) (name key : String) :
    Parser.option (doc.map fun options => options.mapValues (Ini.restored (dialect lower))) name key =
      (doc.option name key).map (Ini.restored (dialect lower)) := by
  unfold Parser.option
  rw [Dict.get?_map]
  cases doc.get? name with
  | none => rfl
  | some options => exact Dict.get?_mapValues _ _ _

/-! ## A process that starts after a write -/

theorem fresh_writeConfig (ho : openConfig lower env texts = some o) (h : Apart o path) {p : Process}
    (hp : p.localConfigPath = some path) (hprint : Ini.Printable (dialect lower) p.localConfig) {texts' : Texts}
    (hw : writeConfig lower true p texts = some texts') :
    fresh lower env texts' = some
      { config := o.config
        localConfig := p.localConfig.map fun options => options.mapValues (Ini.restored (dialect lower))
        userConfigPath := o.userConfigPath
        localConfigPath := some path } := by
  rw [writeConfig_eq hp h.ne_empty] at hw
  cases hw
  exact fresh_eq (openConfig_update ho h _) h (stored_update h.ne_empty hprint)

/-- A process that starts after a write has the sections and the options that were written and no others. A value of
one line with nothing to strip is as it was set, and from then on writing and starting changes nothing. -/
theorem write_config_persists (ho : openConfig lower env texts = some o) (h : Apart o path) {p : Process}
    (hp : p.localConfigPath = some path) (hprint : Ini.Printable (dialect lower) p.localConfig) {texts' : Texts}
    (hw : writeConfig lower true p texts = some texts') :
    ∃ p', fresh lower env texts' = some p' ∧ p'.config = o.config ∧
      p'.localConfig.items.map (fun s => (s.1, s.2.keys)) = p.localConfig.items.map (fun s => (s.1, s.2.keys)) ∧
      (∀ name key value, p.localConfig.option name key = some value → '\n' ∉ value.toList →
        Str.strip value.toList = value.toList → p'.localConfig.option name key = some value) ∧
      ∀ texts'', writeConfig lower true p' texts' = some texts'' → fresh lower env texts'' = some p' := by
  have hfresh := fresh_writeConfig ho h hp hprint hw
  refine ⟨_, hfresh, rfl, ?_, ?_, ?_⟩
  · simp [Dict.map, Dict.keys_mapValues]
  · intro name key value hv hline hstrip
    rw [option_restored, hv, Option.map_some, Ini.restored_eq_self (d := dialect lower) hline hstrip]
  · intro texts'' hw'
    rw [writeConfig_eq hp h.ne_empty] at hw
    cases hw
    rw [fresh_writeConfig (openConfig_update ho h _) h rfl hprint.map_restored hw', Ini.map_restored_restored]

/-! ## Runs -/

/-- One step keeps to the settings, and raises nothing. -/
theorem step_refines (h : Apart o path) {σ : State} {a : Settings} (hr : Refines lower env o path σ a) {op : Op}
    (hop : op.Ok lower) : ∃ σ', step lower env σ op = some σ' ∧ Refines lower env o path σ' (a.step lower op) := by
  obtain ⟨doc, hdoc, hprint, hsaved⟩ := hr.saved
  cases op with
  | set s key value =>
    obtain ⟨hn, hk, hv⟩ := hop
    refine ⟨_, rfl, ?_⟩
    unfold Settings.step set
    dsimp only
    split
    · refine ⟨hr.opened, hr.config, hr.localPath, ?_, ?_, hr.saved⟩
      · exact printable_set (printable_addSection hr.printable hn) hn hk hv
      · intro name key'
        dsimp only [ConfigSection.set]
        rw [Parser.option_set, Parser.option_addSection, hr.current]
    · refine ⟨hr.opened, hr.config, hr.localPath, printable_addSection hr.printable hn, ?_, hr.saved⟩
      intro name key'
      exact (Parser.option_addSection _ _ _ _).trans (hr.current name key')
  | write opens =>
    refine ⟨_, rfl, ?_⟩
    cases opens with
    | false =>
      have hw : writeConfig lower false σ.process σ.texts = none := by
        rw [writeConfig, hr.localPath]
        exact if_neg fun hf => Bool.false_ne_true hf.2
      rw [hw]
      exact hr
    | true =>
      rw [writeConfig_eq hr.localPath h.ne_empty]
      refine ⟨openConfig_update hr.opened h _, hr.config, hr.localPath, hr.printable, hr.current, _,
        stored_update h.ne_empty hr.printable, hr.printable.map_restored, ?_⟩
      intro name key
      rw [option_restored, hr.current]
      rfl
  | reload =>
    refine ⟨_, congrArg (Option.map _) (reloadConfig_eq hr.opened h hdoc _), ?_⟩
    refine ⟨hr.opened, rfl, rfl, printable_read hr.printable hprint, ?_, hr.saved⟩
    intro name key
    dsimp only
    rw [Parser.option_read, hsaved, hr.current]
    rfl
  | restart =>
    refine ⟨_, congrArg (Option.map _) (fresh_eq hr.opened h hdoc), ?_⟩
    exact ⟨hr.opened, rfl, rfl, hprint, hsaved, hr.saved⟩

theorem run_refines (h : Apart o path) {σ : State} {a : Settings} (hr : Refines lower env o path σ a) {ops : List Op}
    (hops : ∀ op ∈ ops, op.Ok lower) :
    ∃ σ', ops.foldlM (step lower env) σ = some σ' ∧
      Refines lower env o path σ' (ops.foldl (Settings.step lower) a) := by
  induction ops generalizing σ a with
  | nil => exact ⟨σ, rfl, hr⟩
  | cons op ops ih =>
    obtain ⟨σ₁, hstep, hr₁⟩ := step_refines h hr (hops op List.mem_cons_self)
    obtain ⟨σ', hrun, hr'⟩ := ih hr₁ fun op hm => hops op (List.mem_cons_of_mem _ hm)
    refine ⟨σ', ?_, hr'⟩
    rw [List.foldlM_cons, hstep, Option.bind_eq_bind, Option.bind_some, hrun]

/-- In any order of settings, writes, reloads and restarts nothing raises for what is in the files, the process has the
current settings, and a process that starts has what was last written. -/
theorem settings_survive (ho : openConfig lower env texts = some o) (h : Apart o path) {doc : Parser}
    (hdoc : stored lower texts path = some doc) (hprint : Ini.Printable (dialect lower) doc) {ops : List Op}
    (hops : ∀ op ∈ ops, op.Ok lower) :
    ∃ p σ p', fresh lower env texts = some p ∧ ops.foldlM (step lower env) ⟨texts, p⟩ = some σ ∧
      fresh lower env σ.texts = some p' ∧ σ.process.config = p.config ∧ p'.config = p.config ∧
      let a := ops.foldl (Settings.step lower) ⟨doc.option, doc.option⟩
      (∀ name key, σ.process.localConfig.option name key = a.current name key) ∧
      ∀ name key, p'.localConfig.option name key = a.saved name key := by
  have hfresh := fresh_eq ho h hdoc
  have hstart : Refines lower env o path
      ⟨texts, { config := o.config, localConfig := doc, userConfigPath := o.userConfigPath
                localConfigPath := some path }⟩ ⟨doc.option, doc.option⟩ :=
    ⟨ho, rfl, rfl, hprint, fun _ _ => rfl, doc, hdoc, hprint, fun _ _ => rfl⟩
  obtain ⟨σ, hrun, hr⟩ := run_refines h hstart hops
  obtain ⟨doc', hdoc', -, hsaved⟩ := hr.saved
  exact ⟨_, σ, _, hfresh, hrun, fresh_eq hr.opened h hdoc', hr.config, rfl, hr.current, hsaved⟩

end

/-! ## A name of two lines -/

def nowhere : Env := ⟨fun _ => none, fun _ _ => true⟩

/-- The base configuration says where the local one is, and there is none. -/
def baseOnly : Texts := fun path =>
  if path = baseConfigPath then
    some (Ini.print (dialect id) (Interpolated.parserOf [("sls", "local-config", "/l")]))
  else none

def baseOpened : Opened :=
  { config := Interpolated.parserOf [("sls", "local-config", "/l")], userConfigPath := none,
    localConfigPath := some "/l" }

theorem openConfig_baseOnly : openConfig id nowhere baseOnly = some baseOpened := by
  have hbase : readPath id baseOnly (some baseConfigPath) .empty = some baseOpened.config := by
    have hparse : Ini.parse (dialect id) (Ini.print (dialect id) baseOpened.config) = some baseOpened.config := by
      decide +kernel
    show (Ini.parse (dialect id) (Ini.print (dialect id) baseOpened.config)).map (Parser.read .empty) = _
    rw [hparse, Option.map_some, read_empty]
  have huser : Interpolated.findUserConfig id nowhere baseOpened.config = .ok none := by decide +kernel
  have hlocal : Interpolated.findLocalConfig id baseOpened.config = .ok (some "/l") := by decide +kernel
  have hread : readPath id baseOnly none baseOpened.config = some baseOpened.config := rfl
  rw [openConfig, hbase, Option.bind_some, huser, Except.toOption, Option.bind_some, hread, Option.bind_some, hlocal]
  rfl

theorem apart_base : Apart baseOpened "/l" := ⟨rfl, by decide, by decide, by decide⟩

/-- A name that looks like a section. -/
def forged : Op := .set ⟨"steam", .empty⟩ "account_name" "a\n[sls]\nuid = 0"

theorem forged_ok : forged.Ok id := by
  have hdelimiter : ∀ c ∈ "account_name".toList, Ini.isDelimiter c = false := Words.forall_of_all (by decide)
  refine ⟨⟨by decide, by decide, by decide⟩, ⟨by decide, by decide, hdelimiter, ?_, by decide, rfl⟩, by decide⟩
  simp

theorem forged_survives :
    ∃ p σ p', fresh id nowhere baseOnly = some p ∧
      [forged, .write true].foldlM (step id nowhere) ⟨baseOnly, p⟩ = some σ ∧
      fresh id nowhere σ.texts = some p' ∧ p'.localConfig.option "sls" "uid" = none ∧
      p'.localConfig.option "steam" "account_name" = some "a\n[sls]\nuid = 0" := by
  have hops : ∀ op ∈ [forged, .write true], op.Ok id := by
    intro op hop
    rcases List.mem_cons.1 hop with rfl | hop
    · exact forged_ok
    · rw [List.mem_singleton.1 hop]
      trivial
  have hempty : stored id baseOnly "/l" = some .empty := rfl
  obtain ⟨p, σ, p', hp, hrun, hp', -, -, -, hsaved⟩ :=
    settings_survive openConfig_baseOnly apart_base hempty Ini.printable_empty hops
  refine ⟨p, σ, p', hp, hrun, hp', (hsaved _ _).trans (by decide +kernel), (hsaved _ _).trans (by decide +kernel)⟩

/-- The parser with it. -/
def withForged : Process :=
  { config := baseOpened.config, localConfig := Interpolated.parserOf [("steam", "account_name", "a\n[sls]\nuid = 0")]
    userConfigPath := none, localConfigPath := some "/l" }

theorem forged_persists :
    ∃ texts p', writeConfig id true withForged baseOnly = some texts ∧ fresh id nowhere texts = some p' ∧
      p'.localConfig.items.map (fun s => (s.1, s.2.keys)) = [("steam", ["account_name"])] := by
  have hprint : Ini.Printable (dialect id) withForged.localConfig :=
    printable_set (p := Parser.addSection .empty "steam") (printable_addSection Ini.printable_empty forged_ok.1)
      forged_ok.1 forged_ok.2.1 forged_ok.2.2
  have hw := @writeConfig_eq id baseOnly "/l" withForged rfl apart_base.ne_empty
  obtain ⟨p', hp', -, hnames, -⟩ := write_config_persists openConfig_baseOnly apart_base rfl hprint hw
  exact ⟨_, p', hw, hp', hnames⟩

end LogSubmitter.Config.Stored

import LogSubmitter.Hooks.Coredump
import LogSubmitter.Minidump.Submit
/-!
# Dumps, from the hook to the helper

The hook leaves a dump under a name that ends in the id of the game, with what it has found out as attributes of the
file. The helper finds it by its name, and reads the id and the attributes again.
-/
namespace LogSubmitter.Minidump

open Lib Json Script
open Hooks.Coredump (Arg Effect Error System arg)
open Submit (Event)
open Packages (Text)

/-! ## The name -/

/-- `MinidumpHelper`, as far as the names of its logs go. -/
def helper : Helpers.Helper := { name := "minidump", validExtensions := [".md", ".dmp"] }

/-- The text of `f'{t}-{e}-{P}-{appid}'`. -/
def rootText (t e P : Text) (appid : Option Int) : Text :=
  t ++ '-' :: (e ++ '-' :: (P ++ '-' :: (appid.elim "None" toString).toList))

def nameText (t e P : Text) (appid : Option Int) : Text := rootText t e P appid ++ ['.', 'd', 'm', 'p']

theorem encode_append (l r : Text) : encode (l ++ r) = encode l ++ encode r := List.flatMap_append

theorem minidump_encode (t e P : Text) (appid : Option Int) :
    Hooks.Coredump.minidump (encode t) (encode e) (encode P) appid = encode (nameText t e P appid) := by
  have hdash : ∀ l : Text, encode ('-' :: l) = arg "-" ++ encode l := fun l => encode_append "-".toList l
  have hext : encode ['.', 'd', 'm', 'p'] = arg ".dmp" := by decide
  unfold Hooks.Coredump.minidump nameText rootText
  simp only [encode_append, hdash, hext, List.append_assoc]
  rfl

/-- What `int` makes of an id that is written out. The sign is lost, for it looks like a separator. -/
theorem int_last {appid : Option Int} (h : ∀ n ∈ appid, (Nat.toDigits 10 n.natAbs).length ≤ Str.maxDigits) :
    (((appid.elim "None" toString).toList.splitOn '-').getLast?.bind fun part => Str.int (String.ofList part)) =
      appid.map fun n => (n.natAbs : Int) := by
  have hdigits : ∀ m : Nat, (Nat.toDigits 10 m).length ≤ Str.maxDigits → '-' ∉ Nat.toDigits 10 m ∧
      Str.int (String.ofList (Nat.toDigits 10 m)) = some (m : Int) := by
    intro m hm
    refine ⟨fun hmem => ?_, @Str.int_numeral 0 m (by simpa [Str.numeral] using hm)⟩
    exact absurd (Nat.isDigit_of_mem_toDigits (by decide) (by decide) hmem) (by decide)
  cases appid with
  | none => decide
  | some n =>
    cases n with
    | ofNat m =>
      obtain ⟨hdash, hint⟩ := hdigits m (h (.ofNat m) rfl)
      have htext : (toString (Int.ofNat m)).toList = Nat.toDigits 10 m := Nat.toList_repr
      have hsplit : (Nat.toDigits 10 m).splitOn '-' = [Nat.toDigits 10 m] := List.splitOn_eq_singleton hdash
      rw [Option.elim_some, htext, hsplit, List.getLast?_singleton, Option.bind_some, hint]
      rfl
    | negSucc m =>
      obtain ⟨hdash, hint⟩ := hdigits (m + 1) (h (.negSucc m) rfl)
      have htext : (toString (Int.negSucc m)).toList = '-' :: Nat.toDigits 10 (m + 1) := by
        show ("-" ++ (m + 1).repr).toList = _
        rw [String.toList_append, Nat.toList_repr]
        rfl
      have hsplit : ('-' :: Nat.toDigits 10 (m + 1)).splitOn '-' = [[], Nat.toDigits 10 (m + 1)] := by
        have hrest : (Nat.toDigits 10 (m + 1)).splitOn '-' = [Nat.toDigits 10 (m + 1)] :=
          List.splitOn_eq_singleton hdash
        rw [show '-' :: Nat.toDigits 10 (m + 1) = [] ++ '-' :: Nat.toDigits 10 (m + 1) from rfl,
          List.splitOn_append_cons_self, hrest, List.splitOn_nil]
        rfl
      rw [Option.elim_some, htext, hsplit, List.getLast?_cons_cons, List.getLast?_singleton, Option.bind_some, hint]
      rfl

section
variable {t e P : Text} {appid : Option Int}

theorem slash_not_mem_id : '/' ∉ (appid.elim "None" toString).toList := by
  cases appid with
  | none => decide
  | some n =>
    have hdigits : ∀ m : Nat, '/' ∉ Nat.toDigits 10 m := fun m hmem =>
      absurd (Nat.isDigit_of_mem_toDigits (by decide) (by decide) hmem) (by decide)
    cases n with
    | ofNat m =>
      have htext : (toString (Int.ofNat m)).toList = Nat.toDigits 10 m := Nat.toList_repr
      rw [Option.elim_some, htext]
      exact hdigits m
    | negSucc m =>
      show '/' ∉ ("-" ++ (m + 1).repr).toList
      rw [String.toList_append, Nat.toList_repr, List.mem_append, not_or]
      exact ⟨by decide, hdigits _⟩

theorem slash_not_mem_root (ht : '/' ∉ t) (he : '/' ∉ e) (hP : '/' ∉ P) : '/' ∉ rootText t e P appid := by
  simp only [rootText, List.mem_append, List.mem_cons, not_or]
  exact ⟨ht, by decide, he, by decide, hP, by decide, slash_not_mem_id⟩

theorem slash_not_mem_name (ht : '/' ∉ t) (he : '/' ∉ e) (hP : '/' ∉ P) : '/' ∉ nameText t e P appid := by
  rw [nameText, List.mem_append, not_or]
  exact ⟨slash_not_mem_root ht he hP, by decide⟩

theorem dash_mem_root : ∃ c ∈ rootText t e P appid, c ≠ '.' := by
  refine ⟨'-', ?_, by decide⟩
  simp [rootText]

/-- The id is the last part of the name, whatever comes before it. -/
theorem nameAppid_name (ht : '/' ∉ t) (he : '/' ∉ e) (hP : '/' ∉ P)
    (hid : ∀ n ∈ appid, (Nat.toDigits 10 n.natAbs).length ≤ Str.maxDigits) (dir : Text) :
    nameAppid (dir ++ '/' :: nameText t e P appid) = appid.map fun n => (n.natAbs : Int) := by
  have hstem : Submit.stem (dir ++ '/' :: nameText t e P appid) = rootText t e P appid :=
    Submit.stem_append dir (slash_not_mem_name ht he hP) (by decide) dash_mem_root
  have hroot : rootText t e P appid =
      (t ++ '-' :: (e ++ '-' :: P)) ++ '-' :: (appid.elim "None" toString).toList := by
    simp [rootText]
  have hlast : ((rootText t e P appid).splitOn '-').getLast? =
      ((appid.elim "None" toString).toList.splitOn '-').getLast? := by
    rw [hroot, List.splitOn_append_cons_self, List.getLast?_append_of_ne_nil _ (List.splitOn_ne_nil _ _)]
  rw [nameAppid, hstem, hlast, int_last hid]

theorem not_int_of_dot (rest : Text) : Str.int (String.ofList ('.' :: rest)) = none := by
  have hdigits : ∀ cs, Str.digits ('.' :: cs) = none := by
    intro cs
    have hdot : Str.digit '.' = none := by decide
    rcases cs with _ | ⟨c, cs⟩
    · rw [Str.digits, hdot]
      rfl
    · by_cases hc : c = '_'
      · rw [hc, Str.digits, hdot]
        rfl
      · rw [Str.digits, hdot]
        · rfl
        · exact List.cons_ne_nil _ _
        · intro cs' he
          exact hc (List.cons.inj he).1
  obtain ⟨cs, hstrip⟩ : ∃ cs, Str.stripNumber ('.' :: rest) = '.' :: cs := by
    unfold Str.stripNumber List.rdropWhile
    rw [List.dropWhile_cons_of_neg (by decide), List.reverse_cons, Words.dropWhile_append_stop (by decide)]
    exact ⟨_, List.reverse_append⟩
  unfold Str.int
  rw [String.toList_ofList, hstrip]
  dsimp only
  split
  · next he => cases he
  · next he => cases he
  · rw [hdigits]
    rfl

/-- The name is one of a log, for a time does not start with a dot. -/
theorem filterLog_name (ht : '/' ∉ t) (he : '/' ∉ e) (hP : '/' ∉ P) (htime : (Str.int (String.ofList t)).isSome) :
    helper.filterLog (String.ofList (nameText t e P appid)) = true := by
  refine (Helpers.filterLog_append (slash_not_mem_name ht he hP) (by decide) dash_mem_root (by decide)).2 ?_
  rcases t with _ | ⟨c, rest⟩
  · simp [rootText]
  · rintro ⟨⟩
    rw [not_int_of_dot] at htime
    cases htime

end

/-! ## The attributes -/

/-- The extended attributes of a file, where the last thing that was done comes first. A renamed file keeps its own. -/
def xattrAfter : List Effect → Arg → Arg → Option Arg
  | [], _, _ => none
  | .setxattr file name value :: before, file', name' =>
    if file' = file ∧ name' = name then some value else xattrAfter before file' name'
  | .rename src dst :: before, file, name =>
    if file = dst then xattrAfter before src name
    else if file = src then none
    else xattrAfter before file name
  | _ :: before, file, name => xattrAfter before file name

def foundBuildId (sys : System) (args : Hooks.Coredump.KernelArgs) : Option String :=
  (sys.getExeBuildId (Hooks.Coredump.decodePath args.E)).toOption.join

def foundPackage (sys : System) (args : Hooks.Coredump.KernelArgs) : Option (String × String) :=
  (Hooks.Coredump.getPathPackage sys (Hooks.Coredump.decodePath args.E)).toOption.join

/-- What the hook finds out, by attribute. -/
def findings (sys : System) (args : Hooks.Coredump.KernelArgs) : List (String × Option Arg) :=
  [("executable", some args.f), ("comm", some args.e), ("path", some (Hooks.Coredump.decodePath args.E)),
    ("build_id", (foundBuildId sys args).map arg), ("pkgname", (foundPackage sys args).map fun p => arg p.1),
    ("pkgver", (foundPackage sys args).map fun p => arg p.2)]

def attrName (attr : String) : Arg := arg ("user." ++ attr)

/-- One of them as it is set, if it is there. -/
def setting (tmpfile : Arg) (finding : String × Option Arg) : List Effect :=
  finding.2.toList.map (.setxattr tmpfile (attrName finding.1))

/-- What is set, in the order in which it is. -/
def settings (sys : System) (args : Hooks.Coredump.KernelArgs) (tmpfile : Arg) : List Effect :=
  (findings sys args).flatMap (setting tmpfile)

section
variable {sys : System} {args : Hooks.Coredump.KernelArgs} {tmpfile : Arg}

theorem encode_inj {l r : Text} (h : encode l = encode r) : l = r := by
  have hl := decode_encode l
  rw [h, decode_encode] at hl
  exact (Option.some.inj hl).symm

theorem attrName_inj {a b : String} (h : attrName a = attrName b) : a = b := by
  have htext : "user.".toList ++ a.toList = "user.".toList ++ b.toList := by
    simpa using encode_inj h
  exact String.toList_inj.1 (List.append_cancel_left htext)

theorem mem_settings {e : Effect} : e ∈ settings sys args tmpfile ↔
    ∃ attr value, (attr, some value) ∈ findings sys args ∧ e = .setxattr tmpfile (attrName attr) value := by
  simp only [settings, setting, List.mem_flatMap, List.mem_map, Option.mem_toList]
  constructor
  · rintro ⟨⟨attr, found⟩, hf, value, rfl, rfl⟩
    exact ⟨attr, value, hf, rfl⟩
  · rintro ⟨attr, value, hf, rfl⟩
    exact ⟨_, hf, value, rfl, rfl⟩

theorem follows_encodeArg (text : Arg) : Follows (· = text) [] (Hooks.Coredump.encodeArg text) := by
  unfold Hooks.Coredump.encodeArg
  split
  · exact follows_pure rfl
  · apply ensures_throw
    refine ⟨List.prefix_rfl, ?_⟩
    rintro _ ⟨⟩

/-- The hook writes the names out. -/
theorem attrName_eq : arg "user.executable" = attrName "executable" ∧ arg "user.comm" = attrName "comm" ∧
    arg "user.path" = attrName "path" ∧ arg "user.build_id" = attrName "build_id" ∧
    arg "user.pkgname" = attrName "pkgname" ∧ arg "user.pkgver" = attrName "pkgver" := by
  refine ⟨?_, ?_, ?_, ?_, ?_, ?_⟩ <;> exact congrArg arg (by decide)

/-- The build id, if there is one. -/
theorem follows_setBuildId (buildId : Option String) :
    Follows (fun _ => True) (setting tmpfile ("build_id", buildId.map arg))
      (Hooks.Coredump.setBuildId sys tmpfile buildId) := by
  obtain ⟨-, -, -, hname, -⟩ := attrName_eq
  cases buildId with
  | none => exact follows_pure trivial
  | some buildId =>
    rw [Hooks.Coredump.setBuildId, hname]
    exact follows_perform

/-- The package, if there is one. -/
theorem follows_setPackage (package : Option (String × String)) :
    Follows (fun _ => True) (setting tmpfile ("pkgname", package.map fun p => arg p.1) ++
      setting tmpfile ("pkgver", package.map fun p => arg p.2)) (Hooks.Coredump.setPackage sys tmpfile package) := by
  obtain ⟨-, -, -, -, hname, hver⟩ := attrName_eq
  cases package with
  | none => exact follows_pure trivial
  | some p =>
    rw [Hooks.Coredump.setPackage, hname, hver]
    exact follows_bind follows_perform fun _ _ => follows_perform

theorem settings_eq : settings sys args tmpfile =
    setting tmpfile ("executable", some args.f) ++ (setting tmpfile ("comm", some args.e) ++
      (setting tmpfile ("path", some (Hooks.Coredump.decodePath args.E)) ++
        (setting tmpfile ("build_id", (foundBuildId sys args).map arg) ++
          (setting tmpfile ("pkgname", (foundPackage sys args).map fun p => arg p.1) ++
            setting tmpfile ("pkgver", (foundPackage sys args).map fun p => arg p.2))))) := by
  have hsix : ∀ (f : String × Option Arg → List Effect) (a b c d e g : String × Option Arg),
      [a, b, c, d, e, g].flatMap f = f a ++ (f b ++ (f c ++ (f d ++ (f e ++ f g)))) := by
    intro f a b c d e g
    simp only [List.flatMap_cons, List.flatMap_nil, List.append_nil]
  exact hsix _ _ _ _ _ _ _

/-- What is done for a dump as far as the attributes go. -/
theorem follows_setXattrs : Follows (fun _ => True) (settings sys args tmpfile)
    (Hooks.Coredump.setXattrs sys tmpfile args.f args.e (Hooks.Coredump.decodePath args.E)) := by
  obtain ⟨hexecutable, hcomm, hpath, -⟩ := attrName_eq
  unfold Hooks.Coredump.setXattrs
  rw [settings_eq, hexecutable, hcomm, hpath]
  refine follows_bind_nil (follows_encodeArg args.f) ?_
  rintro _ rfl
  refine follows_bind follows_perform fun _ _ => follows_bind_nil (follows_encodeArg args.e) ?_
  rintro _ rfl
  refine follows_bind follows_perform fun _ _ => follows_bind_nil (follows_encodeArg _) ?_
  rintro _ rfl
  refine follows_bind follows_perform fun _ _ => follows_bind_nil (follows_ofExcept fun _ h => h) fun buildId hb => ?_
  rw [foundBuildId, hb]
  refine follows_bind (follows_setBuildId buildId) fun _ _ =>
    follows_bind_nil (follows_ofExcept fun _ h => h) fun package hp => ?_
  rw [foundPackage, hp]
  exact follows_setPackage package

/-! ## When nothing is left out -/

/-- No attribute fails to be set, and the program can be read for its build id. -/
structure Sets (sys : System) (args : Hooks.Coredump.KernelArgs) (tmpfile : Arg) : Prop where
  setxattr : ∀ done name value, sys.fails done (.setxattr tmpfile name value) ≠ some .osError
  buildId : sys.getExeBuildId (Hooks.Coredump.decodePath args.E) ≠ .error .osError

theorem spares_setXattrs (h : Sets sys args tmpfile) : Spares .osError
    (Hooks.Coredump.setXattrs sys tmpfile args.f args.e (Hooks.Coredump.decodePath args.E)) := by
  have hencode : ∀ text, Spares .osError (Hooks.Coredump.encodeArg text) := by
    intro text
    unfold Hooks.Coredump.encodeArg
    split
    · exact spares_pure _
    · exact ensures_throw (by simp)
  have hset : ∀ name value, Spares .osError (sys.perform (.setxattr tmpfile name value)) := fun name value =>
    spares_perform fun done => h.setxattr done name value
  have hpackage : ∀ path, Hooks.Coredump.getPathPackage sys path ≠ .error .osError := by
    intro path hp
    unfold Hooks.Coredump.getPathPackage at hp
    split at hp
    · cases hp
    · next hne _ =>
      cases hp
      exact hne rfl
    · split at hp
      · split at hp <;> cases hp
      · cases hp
  unfold Hooks.Coredump.setXattrs
  refine spares_bind (hencode _) fun _ => spares_bind (hset _ _) fun _ => ?_
  refine spares_bind (hencode _) fun _ => spares_bind (hset _ _) fun _ => ?_
  refine spares_bind (hencode _) fun _ => spares_bind (hset _ _) fun _ => ?_
  refine spares_bind (spares_ofExcept h.buildId) fun buildId => spares_bind ?_ fun _ =>
    spares_bind (spares_ofExcept (hpackage _)) fun package => ?_
  · cases buildId with
    | none => exact spares_pure _
    | some buildId => exact hset _ _
  · cases package with
    | none => exact spares_pure _
    | some p => exact spares_bind (hset _ _) fun _ => hset _ _

/-! ## A run that comes to its end -/

/-- Neither a name nor an attribute of a file is changed. -/
def Aside (e : Effect) : Prop := (∀ file name value, e ≠ .setxattr file name value) ∧ ∀ src dst, e ≠ .rename src dst

/-- What has been done when a dump is there. -/
structure Collected (sys : System) (args : Hooks.Coredump.KernelArgs) (tmpfile final : Arg) (done : List Effect) :
    Prop where
  split : ∃ before set,
    done = before ++ (set ++ [.chown tmpfile (arg "steamos-log-submitter"), .rename tmpfile final]) ∧
    (∀ e ∈ before, Aside e) ∧ set <+: settings sys args tmpfile ∧
    (Sets sys args tmpfile → set = settings sys args tmpfile)

theorem only_aside_tee (outprocs : List Hooks.Coredump.Popen) : Only Aside (Hooks.Coredump.tee sys outprocs) := by
  have honPipe : ∀ (proc : Hooks.Coredump.Popen) (e : Effect), Aside e → Only Aside (proc.onPipe sys e) := by
    intro proc e he
    unfold Hooks.Coredump.Popen.onPipe
    split
    · exact only_attempt he
    · exact only_pure ()
  unfold Hooks.Coredump.tee
  refine only_bind (only_forM fun buffer _ => only_forM fun proc _ => honPipe proc _ ⟨by simp, by simp⟩) fun _ => ?_
  refine only_bind ?_ fun _ => only_forM fun proc _ =>
    only_bind (honPipe proc _ ⟨by simp, by simp⟩) fun _ => only_attempt ⟨by simp, by simp⟩
  unfold Hooks.Coredump.readEnd
  split
  · exact only_pure ()
  · exact only_throw _

theorem ensures_collect (minidump : Arg) :
    let tmpfile := Hooks.Coredump.directory sys ++ arg ".staging-" ++ minidump
    Ensures (fun res new => (∃ a, res = .ok a) →
      Collected sys args tmpfile (Hooks.Coredump.directory sys ++ minidump) new)
      (Hooks.Coredump.collect sys args.P args.e args.f (Hooks.Coredump.decodePath args.E) minidump) := by
  intro tmpfile
  have herror : ∀ {α : Type} {P : Prop} (err : Error), (∃ a : α, (Except.error err : Except Error α) = .ok a) → P := by
    rintro α P err ⟨a, h⟩
    cases h
  unfold Hooks.Coredump.collect
  have hpopen : Only Aside (sys.perform (.popen [arg "/usr/lib/breakpad/core_handler", args.P, tmpfile])) :=
    only_perform ⟨by simp, by simp⟩
  refine ensures_bind hpopen (fun err _ _ => herror err) fun _ started hstarted => ?_
  refine ensures_bind (only_aside_tee _) (fun err _ _ => herror err) fun _ piped hpiped => ?_
  have hset : Ensures (fun res new => (∃ a, res = .ok a) → new <+: settings sys args tmpfile ∧
      (Sets sys args tmpfile → new = settings sys args tmpfile))
      (tryCatch (Hooks.Coredump.setXattrs sys tmpfile args.f args.e (Hooks.Coredump.decodePath args.E)) fun err =>
        if err = .osError then pure () else throw err) := by
    have hspares : Ensures (fun res _ => Sets sys args tmpfile → res ≠ .error .osError)
        (Hooks.Coredump.setXattrs sys tmpfile args.f args.e (Hooks.Coredump.decodePath args.E)) := by
      by_cases hs : Sets sys args tmpfile
      · exact (spares_setXattrs hs).imp fun _ _ h _ => h
      · exact follows_setXattrs.imp fun _ _ _ h => absurd h hs
    apply ensures_tryCatch (follows_setXattrs.and hspares)
    · rintro a new ⟨⟨hpre, hok⟩, -⟩ -
      exact ⟨hpre, fun _ => (hok a rfl).1⟩
    · rintro err new ⟨⟨hpre, -⟩, hne⟩
      split
      · next he =>
        apply ensures_pure
        rintro -
        rw [List.append_nil]
        exact ⟨hpre, fun hs => absurd (by rw [he]) (hne hs)⟩
      · exact ensures_throw (herror _)
  refine ensures_bind hset (fun err _ _ => herror err) fun _ set hset => ?_
  refine ensures_bind (q := fun res new => (∃ a, res = .ok a) → new = [.chown tmpfile (arg "steamos-log-submitter")])
    (ensures_perform (fun _ => rfl) fun err => herror err) (fun err _ _ => herror err) fun _ owned howned => ?_
  refine ensures_perform (fun _ => ?_) fun err => herror err
  obtain ⟨hpre, hall⟩ := hset ⟨_, rfl⟩
  refine ⟨started ++ piped, set, ?_, ?_, hpre, hall⟩
  · rw [howned ⟨_, rfl⟩]
    simp [tmpfile]
  · intro e he
    exact (List.mem_append.1 he).elim (hstarted e) (hpiped e)

/-! ## What is read of the attributes -/

theorem setxattr_of_xattrAfter {l : List Effect} (h : ∀ e ∈ l, ∀ src dst, e ≠ .rename src dst) {file name value : Arg}
    (hx : xattrAfter l file name = some value) : .setxattr file name value ∈ l := by
  induction l with
  | nil => cases hx
  | cons e l ih =>
    have hrest := ih fun e he => h e (List.mem_cons_of_mem _ he)
    cases e with
    | setxattr file' name' value' =>
      rw [xattrAfter] at hx
      split at hx
      · next heq =>
        cases hx
        rw [heq.1, heq.2]
        exact List.mem_cons_self
      · exact List.mem_cons_of_mem _ (hrest hx)
    | rename src dst => exact absurd rfl (h _ List.mem_cons_self src dst)
    | _ => exact List.mem_cons_of_mem _ (hrest hx)

theorem xattrAfter_of_setxattr {l : List Effect} (h : ∀ e ∈ l, ∀ src dst, e ≠ .rename src dst) {file name value : Arg}
    (hm : .setxattr file name value ∈ l) : xattrAfter l file name ≠ none := by
  induction l with
  | nil => cases hm
  | cons e l ih =>
    have hrest := ih fun e he => h e (List.mem_cons_of_mem _ he)
    cases e with
    | setxattr file' name' value' =>
      rw [xattrAfter]
      split
      · exact Option.some_ne_none _
      · next hne =>
        refine hrest ((List.mem_cons.1 hm).resolve_left fun heq => hne ?_)
        cases heq
        exact ⟨rfl, rfl⟩
    | rename src dst => exact absurd rfl (h _ List.mem_cons_self src dst)
    | _ => exact hrest ((List.mem_cons.1 hm).resolve_left (by simp))

theorem findings_unique {attr : String} {a b : Option Arg} (ha : (attr, a) ∈ findings sys args)
    (hb : (attr, b) ∈ findings sys args) : a = b := by
  have hnodup : ((findings sys args).map Prod.fst).Nodup := by
    have hkeys : (findings sys args).map Prod.fst = attributes := rfl
    rw [hkeys]
    decide
  exact (Prod.mk.inj (List.inj_on_of_nodup_map hnodup ha hb rfl)).2

/-- No attribute has another value than what was found out, and none is missing but for an error. -/
theorem Collected.xattr {final : Arg} {done : List Effect} (h : Collected sys args tmpfile final done) {attr : String}
    {found : Option Arg} (hf : (attr, found) ∈ findings sys args) :
    (xattrAfter done.reverse final (attrName attr) = none ∨ xattrAfter done.reverse final (attrName attr) = found) ∧
      (Sets sys args tmpfile → xattrAfter done.reverse final (attrName attr) = found) := by
  obtain ⟨before, set, rfl, hbefore, hpre, hall⟩ := h.split
  have hmem : ∀ e ∈ set.reverse ++ before.reverse, e ∈ settings sys args tmpfile ∨ Aside e := by
    intro e he
    rcases List.mem_append.1 he with he | he
    · exact .inl (hpre.subset (List.mem_reverse.1 he))
    · exact .inr (hbefore e (List.mem_reverse.1 he))
  have hnames : ∀ e ∈ set.reverse ++ before.reverse, ∀ src dst, e ≠ .rename src dst := by
    intro e he
    rcases hmem e he with he | he
    · obtain ⟨attr, value, -, rfl⟩ := mem_settings.1 he
      simp
    · exact he.2
  have hmoved : xattrAfter (before ++ (set ++ [Effect.chown tmpfile (arg "steamos-log-submitter"),
      Effect.rename tmpfile final])).reverse final (attrName attr) =
      xattrAfter (set.reverse ++ before.reverse) tmpfile (attrName attr) := by
    rw [List.reverse_append, List.reverse_append]
    exact if_pos rfl
  have hvalue : ∀ value, xattrAfter (set.reverse ++ before.reverse) tmpfile (attrName attr) = some value →
      found = some value := by
    intro value hx
    have hset := setxattr_of_xattrAfter hnames hx
    have hsettings := (hmem _ hset).resolve_right fun ha => ha.1 _ _ _ rfl
    obtain ⟨attr', value', hf', he⟩ := mem_settings.1 hsettings
    obtain ⟨-, hname, rfl⟩ := Effect.setxattr.inj he
    rw [← attrName_inj hname] at hf'
    exact findings_unique hf hf'
  rw [hmoved]
  cases hx : xattrAfter (set.reverse ++ before.reverse) tmpfile (attrName attr) with
  | some value =>
    rw [hvalue value hx]
    exact ⟨.inr rfl, fun _ => rfl⟩
  | none =>
    refine ⟨.inl rfl, fun hsets => ?_⟩
    cases found with
    | none => rfl
    | some value =>
      refine absurd hx (@xattrAfter_of_setxattr _ hnames _ _ value (List.mem_append_left _ ?_))
      rw [List.mem_reverse, hall hsets]
      exact mem_settings.2 ⟨attr, value, hf, rfl⟩

end

/-- A tag is the text of the attribute. -/
theorem get_setTags (xattr : String → Option Bytes) {attr : String} (h : attr ∈ attributes) :
    Assoc.get attr (setTags xattr []) = (xattr attr).map fun value => .str (text value) := by
  have hfold : ∀ (l : List String) (tags : List (String × Json)),
      Assoc.get attr (l.foldl (fun tags attr =>
        (xattr attr).elim tags fun value => Assoc.set attr (.str (text value)) tags) tags) =
        if attr ∈ l then ((xattr attr).map fun value => Json.str (text value)).or (Assoc.get attr tags)
        else Assoc.get attr tags := by
    intro l
    induction l with
    | nil => exact fun _ => rfl
    | cons a l ih =>
      intro tags
      rw [List.foldl_cons, ih]
      by_cases ha : attr = a
      · subst ha
        cases xattr attr with
        | none => simp
        | some value => simp
      · cases xattr a with
        | none => simp [ha]
        | some value => simp [ha, Assoc.get_set_of_ne ha]
  have helim : setTags xattr [] = attributes.foldl (fun tags attr =>
      (xattr attr).elim tags fun value => Assoc.set attr (.str (text value)) tags) [] := by
    unfold setTags
    congr 1
    funext tags attr
    cases xattr attr <;> rfl
  rw [helim, hfold, if_pos h, Assoc.get_nil, Option.or_none]

theorem submit_event {tools : Tools} {new event : Event} {fname : Text} {xattr : String → Option Bytes}
    {file : Option Bytes} (h : submit tools new fname xattr file = .ok (.send event)) :
    event.appid = (nameAppid fname).elim new.appid .num ∧ event.tags = setTags xattr new.tags := by
  unfold submit at h
  generalize (nameAppid fname).elim new.appid .num = appid at h ⊢
  generalize setTags xattr new.tags = tags at h ⊢
  cases file with
  | none => cases h
  | some data =>
    dsimp only at h
    cases hparse : tools.parse data with
    | none =>
      rw [hparse] at h
      cases h
      exact ⟨rfl, rfl⟩
    | some header =>
      rw [hparse] at h
      dsimp only at h
      cases hextra : readStreams tools data header new.extra with
      | error err =>
        rw [hextra] at h
        cases h
      | ok extra =>
        rw [hextra] at h
        cases h
        exact ⟨rfl, rfl⟩

/-! ## From the crash to the event -/

theorem Collected.cons {sys : System} {args : Hooks.Coredump.KernelArgs} {tmpfile final : Arg} {done : List Effect}
    (h : Collected sys args tmpfile final done) {e : Effect} (he : Aside e) :
    Collected sys args tmpfile final (e :: done) := by
  obtain ⟨before, set, rfl, hbefore, hset⟩ := h.split
  exact ⟨e :: before, set, rfl, List.forall_mem_cons.2 ⟨he, hbefore⟩, hset⟩

/-- Where dumps are collected, a run that comes to its end has left one. -/
theorem collected_of_run {sys : System} {args : Hooks.Coredump.KernelArgs}
    (hcollect : Hooks.Coredump.shouldCollect (Hooks.Coredump.decodePath args.E) = true) {b : Bool} {done : List Effect}
    (hrun : after (Hooks.Coredump.run sys args.argv) [] = (.ok b, done)) :
    ∃ appid, Hooks.Coredump.findAppid sys args.P = .ok appid ∧ (Hooks.Coredump.int args.t).isSome ∧
      let minidump := Hooks.Coredump.minidump args.t args.e args.P appid
      Collected sys args (Hooks.Coredump.directory sys ++ arg ".staging-" ++ minidump)
        (Hooks.Coredump.directory sys ++ minidump) done := by
  unfold Hooks.Coredump.KernelArgs.argv Hooks.Coredump.run System.perform at hrun
  rw [after_bind, after_ofExcept] at hrun
  cases htime : Hooks.Coredump.checkTime sys args.t with
  | error err =>
    rw [htime] at hrun
    cases hrun
  | ok =>
    have hint : (Hooks.Coredump.int args.t).isSome := by
      unfold Hooks.Coredump.checkTime at htime
      split at htime
      · cases htime
      · next h => rw [h]; rfl
    rw [htime] at hrun
    dsimp only at hrun
    rw [after_bind, after_ofExcept] at hrun
    cases hfind : Hooks.Coredump.findAppid sys args.P with
    | error err =>
      rw [hfind] at hrun
      cases hrun
    | ok appid =>
      rw [hfind] at hrun
      dsimp only at hrun
      refine ⟨appid, rfl, hint, ?_⟩
      let minidump := Hooks.Coredump.minidump args.t args.e args.P appid
      let start := Effect.popen (Hooks.Coredump.systemdArgs args.P args.u args.g args.s args.t args.c args.h)
      rw [after_bind, after_perform] at hrun
      cases hstart : sys.fails [] start with
      | some err =>
        rw [hstart] at hrun
        cases hrun
      | none =>
        rw [hstart] at hrun
        dsimp only at hrun
        rw [after_bind, Hooks.Coredump.handOn, if_pos hcollect] at hrun
        obtain ⟨new, hnew, hcollected⟩ := @ensures_collect sys args minidump ([] ++ [start])
        generalize after (Hooks.Coredump.collect sys args.P args.e args.f (Hooks.Coredump.decodePath args.E) minidump)
          ([] ++ [start]) = r at hrun hnew hcollected
        obtain ⟨err | a, done'⟩ := r
        · cases hrun
        · cases hrun
          dsimp only at hnew
          rw [hnew]
          exact (hcollected ⟨_, rfl⟩).cons ⟨by simp [start], by simp [start]⟩

/-- A run of the hook that comes to its end leaves a dump that the helper lists. What the helper sends of it has the id
that the hook found, without its sign, and as tags only what the hook found, all of it if no error was passed over. -/
theorem collected_is_submitted {sys : System} {args : Hooks.Coredump.KernelArgs} {t e P : Text}
    (ht : args.t = encode t) (he : args.e = encode e) (hP : args.P = encode P) (hslash : '/' ∉ t ++ e ++ P)
    (hcollect : Hooks.Coredump.shouldCollect (Hooks.Coredump.decodePath args.E) = true) {b : Bool} {done : List Effect}
    (hrun : after (Hooks.Coredump.run sys args.argv) [] = (.ok b, done)) :
    ∃ appid, Hooks.Coredump.findAppid sys args.P = .ok appid ∧
      let name := nameText t e P appid
      let final := Hooks.Coredump.directory sys ++ encode name
      let tmpfile := Hooks.Coredump.directory sys ++ arg ".staging-" ++ encode name
      .rename tmpfile final ∈ done ∧ helper.filterLog (String.ofList name) = true ∧
      ∀ (tools : Tools) (new event : Event) (dir : Text) (file : Option Bytes), new.tags = [] →
        (∀ n ∈ appid, (Nat.toDigits 10 n.natAbs).length ≤ Str.maxDigits) →
        submit tools new (dir ++ '/' :: name) (fun attr => xattrAfter done.reverse final (attrName attr)) file =
          .ok (.send event) →
        event.appid = appid.elim new.appid (fun n => .num n.natAbs) ∧
        ∀ attr found, (attr, found) ∈ findings sys args →
          let tag := found.map fun value => .str (text value)
          (Assoc.get attr event.tags = none ∨ Assoc.get attr event.tags = tag) ∧
            (Sets sys args tmpfile → Assoc.get attr event.tags = tag) := by
  obtain ⟨appid, hfind, htime, hdone⟩ := collected_of_run hcollect hrun
  refine ⟨appid, hfind, ?_⟩
  rw [ht, he, hP, minidump_encode] at hdone
  dsimp only at hdone
  simp only [List.mem_append, not_or] at hslash
  obtain ⟨⟨hslasht, hslashe⟩, hslashP⟩ := hslash
  have htext : (Str.int (String.ofList t)).isSome := by
    rwa [Hooks.Coredump.int, ht, decode_encode, Option.bind_some] at htime
  intro name final tmpfile
  refine ⟨?_, filterLog_name hslasht hslashe hslashP htext, ?_⟩
  · obtain ⟨before, set, rfl, -⟩ := hdone.split
    simp [final, name, tmpfile]
  · intro tools new event dir file htags hid hsubmit
    obtain ⟨hevent, htag⟩ := submit_event hsubmit
    refine ⟨?_, fun attr found hf => ?_⟩
    · rw [hevent, nameAppid_name hslasht hslashe hslashP hid]
      cases appid <;> rfl
    · have hkeys : (findings sys args).map Prod.fst = attributes := rfl
      have hattr : attr ∈ attributes := by
        rw [← hkeys]
        exact List.mem_map.2 ⟨(attr, found), hf, rfl⟩
      have hget := get_setTags (fun attr => xattrAfter done.reverse final (attrName attr)) hattr
      obtain ⟨hor, hall⟩ := hdone.xattr hf
      rw [htag, htags, hget]
      refine ⟨hor.imp (fun h => by rw [h]; rfl) (fun h => by rw [h]), fun hsets => by rw [hall hsets]⟩

/-- A program of the system. -/
def vim : Hooks.Coredump.KernelArgs :=
  { Hooks.Coredump.steamProgram with
    e := arg "vim"
    f := arg "vim"
    E := arg "!usr!bin!vim"
    noSlash := by decide +kernel }

/-- The id is not known, and the event has all the attributes. -/
theorem vim_is_submitted : ∃ appid, Hooks.Coredump.findAppid Hooks.Coredump.calm vim.P = .ok appid ∧
    ∃ event, submit gameTools { osBuild := none, version := none }
      ("/pending/minidump".toList ++ '/' :: nameText "1700000000".toList "vim".toList "42".toList appid)
      (fun attr => xattrAfter (after (Hooks.Coredump.run Hooks.Coredump.calm vim.argv) []).2.reverse
        (Hooks.Coredump.directory Hooks.Coredump.calm ++
          encode (nameText "1700000000".toList "vim".toList "42".toList appid)) (attrName attr))
      (some []) = .ok (.send event) ∧
    event.appid = appid.elim .null (fun n => .num n.natAbs) ∧
    ∀ attr found, (attr, found) ∈ findings Hooks.Coredump.calm vim →
      Assoc.get attr event.tags = found.map fun value => .str (text value) := by
  have hreturns : (after (Hooks.Coredump.run Hooks.Coredump.calm vim.argv) []).1 = .ok true := by decide +kernel
  have hfind : Hooks.Coredump.findAppid Hooks.Coredump.calm vim.P = .ok none := by decide +kernel
  have ht : vim.t = encode "1700000000".toList := rfl
  have he : vim.e = encode "vim".toList := rfl
  have hP : vim.P = encode "42".toList := rfl
  obtain ⟨appid, happid, -, -, hsent⟩ :=
    collected_is_submitted ht he hP (by decide) (by decide +kernel) (Prod.ext hreturns rfl)
  have hnone : appid = none := by
    rw [hfind] at happid
    exact (Except.ok.inj happid).symm
  refine ⟨appid, happid, _, rfl, ?_⟩
  obtain ⟨hid, htags⟩ := hsent gameTools { osBuild := none, version := none } _ "/pending/minidump".toList (some []) rfl
    (by rw [hnone]; rintro n ⟨⟩) rfl
  exact ⟨hid, fun attr found hf => (htags attr found hf).2 ⟨fun _ _ _ => by simp [Hooks.Coredump.calm], by
    simp [Hooks.Coredump.calm]⟩⟩

end LogSubmitter.Minidump

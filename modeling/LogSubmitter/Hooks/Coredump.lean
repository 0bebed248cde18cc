import LogSubmitter.Appid
import LogSubmitter.Lib.Replace
import LogSubmitter.Lib.Script
import Mathlib.Data.List.Infix
/-!
# The coredump hook

The kernel starts the hook for a process that has crashed, and pipes the core into it. The hook
hands it on to one program or to two, and one of these leaves a minidump. Whether there is one is
asked twice, of the path of the program as it is and as the kernel writes it, with `!` for `/`.
-/
namespace LogSubmitter.Hooks.Coredump

open Lib Json

/-- An argument of the kernel. Its text has surrogates where it is not UTF-8. -/
abbrev Arg := List UInt8

def arg (text : String) : Arg := encode text.toList

inductive Error where
  | osError
  | valueError
  | other
  /-- Nothing is raised, but the call does not come back. -/
  | endless
  deriving DecidableEq

inductive Program where
  | systemd
  | breakpad
  deriving DecidableEq

/-- What the hook does outside. -/
inductive Effect where
  | popen (args : List Arg)
  | write (program : Program) (buffer : List UInt8)
  | close (program : Program)
  | wait (program : Program)
  | setxattr (file name value : Arg)
  | chown (file user : Arg)
  | rename (src dst : Arg)
  deriving DecidableEq

/-- What the hook finds outside. -/
structure System where
  pending : Arg
  /-- Whether `time.ctime` raises. -/
  ctime : Int → Option Error
  world : Appid.World
  /-- What comes of `get_appid`, `none` where it does not end. -/
  getAppid : Int → Option (Except Appid.Raised (Option Int))
  getAppid_eq : ∀ pid res, getAppid pid = some res ↔ ∃ fuel, Appid.getAppid world fuel pid = some res
  /-- What `get_exe_build_id` makes of the sections of a file. -/
  getExeBuildId : Arg → Except Error (Option String)
  /-- The status and the output of `pacman -Qo`. -/
  pacman : Arg → Except Error (Int × String)
  /-- What can be read of the core, and the error that ends it. -/
  buffers : List (List UInt8)
  broken : Option Error
  fails : List Effect → Effect → Option Error
  comesBack : ∀ done e, fails done e ≠ some .endless

def System.perform (sys : System) (e : Effect) : Script Error Effect Unit := Script.perform sys.fails e

/-! ## The code -/

structure Popen where
  program : Program
  stdin : Bool

section
variable (sys : System)

/-- Something with the pipe of a program, if it has one. Exceptions are passed over. -/
def Popen.onPipe (proc : Popen) (e : Effect) : Script Error Effect Unit :=
  if proc.stdin then Script.attempt (sys.perform e) else pure ()

/-- The last `infd.read`. -/
def readEnd : Script Error Effect Unit :=
  match sys.broken with
  | none => pure ()
  | some err => throw err

def tee (outprocs : List Popen) : Script Error Effect Unit := do
  forM sys.buffers fun buffer => forM outprocs fun proc => proc.onPipe sys (.write proc.program buffer)
  readEnd sys
  forM outprocs fun proc => do
    proc.onPipe sys (.close proc.program)
    Script.attempt (sys.perform (.wait proc.program))

/-- `path.startswith(start)` -/
def startsWith (start : String) (path : Arg) : Bool := (arg start).isPrefixOf path

/-- `sub in path` -/
def contains (sub : String) (path : Arg) : Bool := path.tails.any (startsWith sub)

def shouldCollect (path : Arg) : Bool :=
  if startsWith "/tmp/.mount_" path then false
  else if startsWith "/app" path then false
  else if contains "/.local/share/Steam/" path then false
  else true

/-- `int(text)`, `none` for a `ValueError`. -/
def int (text : Arg) : Option Int := (decode text).bind fun text => Str.int (String.ofList text)

/-- `time.ctime(int(t))` -/
def checkTime (t : Arg) : Except Error Unit :=
  match int t with
  | none => .error .valueError
  | some time =>
    match sys.ctime time with
    | some err => .error err
    | none => .ok ()

/-- `get_appid(int(P))`, or `None` after a `ValueError`. A `UnicodeDecodeError` is one. -/
def findAppid (P : Arg) : Except Error (Option Int) :=
  match int P with
  | none => .ok none
  | some pid =>
    match sys.getAppid pid with
    | none => .error .endless
    | some (.ok appid) => .ok appid
    | some (.error _) => .ok none

/-- `f'{t}-{e}-{P}-{appid}.dmp'` -/
def minidump (t e P : Arg) (appid : Option Int) : Arg :=
  t ++ arg "-" ++ e ++ arg "-" ++ P ++ arg "-" ++ arg (appid.elim "None" toString) ++ arg ".dmp"

/-- `text.encode()` -/
def encodeArg (text : Arg) : Script Error Effect Arg := if (decode text).isSome then pure text else throw .valueError

/-- `get_path_package` -/
def getPathPackage (path : Arg) : Except Error (Option (String × String)) :=
  match sys.pacman path with
  | .error .osError => .ok none
  | .error err => .error err
  | .ok (returncode, stdout) =>
    if returncode = 0 then
      match (Str.split ' ' (String.ofList (Str.strip stdout.toList))).reverse with
      | pkgver :: pkgname :: _ => .ok (some (pkgname, pkgver))
      | _ => .error .valueError
    else .ok none

def setBuildId (tmpfile : Arg) : Option String → Script Error Effect Unit
  | none => pure ()
  | some buildId => sys.perform (.setxattr tmpfile (arg "user.build_id") (arg buildId))

def setPackage (tmpfile : Arg) : Option (String × String) → Script Error Effect Unit
  | none => pure ()
  | some (pkgname, pkgver) => do
    sys.perform (.setxattr tmpfile (arg "user.pkgname") (arg pkgname))
    sys.perform (.setxattr tmpfile (arg "user.pkgver") (arg pkgver))

/-- The attributes of the dump. -/
def setXattrs (tmpfile f e path : Arg) : Script Error Effect Unit := do
  sys.perform (.setxattr tmpfile (arg "user.executable") (← encodeArg f))
  sys.perform (.setxattr tmpfile (arg "user.comm") (← encodeArg e))
  sys.perform (.setxattr tmpfile (arg "user.path") (← encodeArg path))
  setBuildId sys tmpfile (← ofExcept (sys.getExeBuildId path))
  setPackage sys tmpfile (← ofExcept (getPathPackage sys path))

/-- The directory of the helper. -/
def directory : Arg := sys.pending ++ arg "/minidump/"

/-- What is done for a program whose dumps are collected. -/
def collect (P e f path minidump : Arg) : Script Error Effect Unit := do
  let tmpfile := directory sys ++ arg ".staging-" ++ minidump
  sys.perform (.popen [arg "/usr/lib/breakpad/core_handler", P, tmpfile])
  tee sys [⟨.breakpad, true⟩, ⟨.systemd, true⟩]
  tryCatch (setXattrs sys tmpfile f e path) fun err => if err = .osError then pure () else throw err
  sys.perform (.chown tmpfile (arg "steamos-log-submitter"))
  sys.perform (.rename tmpfile (directory sys ++ minidump))

/-- `E.replace('!', '/')` -/
def decodePath (E : Arg) : Arg := Replace.replace (arg "!") (arg "/") E

/-- The core is handed on. -/
def handOn (P e f path minidump : Arg) : Script Error Effect Unit :=
  if shouldCollect path then collect sys P e f path minidump else tee sys [⟨.systemd, true⟩]

def systemdArgs (P u g s t c h : Arg) : List Arg := [arg "/usr/lib/systemd/systemd-coredump", P, u, g, s, t, c, h]

def run : List Arg → Script Error Effect Bool
  | [P, e, u, g, s, t, c, h, f, E] => do
    ofExcept (checkTime sys t)
    let appid ← ofExcept (findAppid sys P)
    sys.perform (.popen (systemdArgs P u g s t c h))
    handOn sys P e f (decodePath E) (minidump t e P appid)
    return shouldCollect E
  | _ => throw .valueError

end

/-- What the kernel starts the hook with. There is no `/` in `%E`. -/
structure KernelArgs where
  P : Arg
  e : Arg
  u : Arg
  g : Arg
  s : Arg
  t : Arg
  c : Arg
  h : Arg
  f : Arg
  E : Arg
  noSlash : '/'.toUInt8 ∉ E

def KernelArgs.argv (args : KernelArgs) : List Arg :=
  [args.P, args.e, args.u, args.g, args.s, args.t, args.c, args.h, args.f, args.E]

/-! ## Dumps -/

/-- A dump gets into the directory of the helper. -/
def Publishes (sys : System) (e : Effect) : Prop := ∃ src name, e = .rename src (directory sys ++ name)

/-- `run` returns `True`, and the hook triggers the helper. -/
def Triggers (sys : System) (args : KernelArgs) : Prop := (Script.after (run sys args.argv) []).1 = .ok true

/-- A dump has got there in this run. -/
def Published (sys : System) (args : KernelArgs) : Prop :=
  ∃ e ∈ (Script.after (run sys args.argv) []).2, Publishes sys e

/-- Without a dump, `run` does not get to its end: the time is none, `get_appid` does not end, `systemd-coredump` cannot
be started, or the core cannot be read. -/
def Fails (sys : System) (args : KernelArgs) : Prop :=
  (∃ err, checkTime sys args.t = .error err) ∨ (∃ err, findAppid sys args.P = .error err) ∨
    sys.fails [] (.popen (systemdArgs args.P args.u args.g args.s args.t args.c args.h)) ≠ none ∨ sys.broken ≠ none

theorem slash_mem_of_startsWith {start : String} {path : Arg} (hstart : '/'.toUInt8 ∈ arg start)
    (h : startsWith start path = true) : '/'.toUInt8 ∈ path :=
  (List.isPrefixOf_iff_prefix.1 h).subset hstart

/-- A path is not told without its slashes. -/
theorem shouldCollect_of_noSlash {path : Arg} (h : '/'.toUInt8 ∉ path) : shouldCollect path = true := by
  have hmount : startsWith "/tmp/.mount_" path ≠ true := fun hs => h (slash_mem_of_startsWith (by decide +kernel) hs)
  have happ : startsWith "/app" path ≠ true := fun hs => h (slash_mem_of_startsWith (by decide +kernel) hs)
  have hsteam : contains "/.local/share/Steam/" path ≠ true := by
    intro hs
    obtain ⟨tail, htail, hs⟩ := List.any_eq_true.1 hs
    exact h (((List.mem_tails _ _).1 htail).subset (slash_mem_of_startsWith (by decide +kernel) hs))
  unfold shouldCollect
  rw [if_neg hmount, if_neg happ, if_neg hsteam]

section
open Script

variable {sys : System}

/-- No dump gets there on the way. -/
abbrev Quiet {α : Type} (sys : System) (m : Script Error Effect α) : Prop := Only (fun e => ¬Publishes sys e) m

/-- Only a renaming counts. -/
theorem not_publishes {e : Effect} (h : ∀ src dst, e ≠ .rename src dst) : ¬Publishes sys e := by
  rintro ⟨src, name, he⟩
  exact h _ _ he

theorem only_perform_other {e : Effect} (h : ∀ src dst, e ≠ .rename src dst) : Quiet sys (sys.perform e) :=
  only_perform (not_publishes h)

theorem only_onPipe {e : Effect} (h : ∀ src dst, e ≠ .rename src dst) (proc : Popen) :
    Quiet sys (proc.onPipe sys e) := by
  unfold Popen.onPipe
  split
  · exact only_attempt (not_publishes h)
  · exact only_pure ()

theorem only_tee (outprocs : List Popen) : Quiet sys (tee sys outprocs) := by
  unfold tee
  apply only_bind
  · apply only_forM
    intro buffer _
    apply only_forM
    intro proc _
    exact only_onPipe (by simp) proc
  intro _
  apply only_bind
  · unfold readEnd
    split
    · exact only_pure ()
    · exact only_throw _
  intro _
  apply only_forM
  intro proc _
  apply only_bind
  · exact only_onPipe (by simp) proc
  · intro _
    exact only_attempt (not_publishes (by simp))

theorem returns_onPipe (proc : Popen) (e : Effect) : Returns (proc.onPipe sys e) := by
  unfold Popen.onPipe
  split
  · exact returns_attempt
  · exact returns_pure ()

/-- Only reading the core can raise. -/
theorem ensures_tee (sys : System) (outprocs : List Popen) :
    Ensures (fun res _ => (∃ a, res = .ok a) ↔ sys.broken = none) (tee sys outprocs) := by
  have hwrite : Returns (forM sys.buffers fun buffer => forM outprocs fun proc =>
      proc.onPipe sys (.write proc.program buffer)) := by
    apply returns_forM
    intro buffer _
    apply returns_forM
    intro proc _
    exact returns_onPipe proc _
  have hfinish : Returns (forM outprocs fun proc => (do
      proc.onPipe sys (.close proc.program)
      attempt (sys.perform (.wait proc.program)) : Script Error Effect Unit)) := by
    apply returns_forM
    intro proc _
    exact returns_bind (returns_onPipe proc _) fun _ => returns_attempt
  have hread : Ensures (fun res _ => (∃ a, res = .ok a) ↔ sys.broken = none) (readEnd sys) := by
    unfold readEnd
    split
    · next h => exact ensures_pure (by simp [h])
    · next h => exact ensures_throw (by simp [h])
  unfold tee
  apply ensures_bind hwrite
  · rintro err new ⟨a, h⟩
    cases h
  intro _ _ _
  apply ensures_bind hread
  · intro err new h
    exact h
  · intro a new h
    apply hfinish.imp
    intro res new' hreturns
    exact iff_of_true hreturns (h.1 ⟨a, rfl⟩)

/-! ## A dump that is collected -/

theorem only_encodeArg (text : Arg) : Quiet sys (encodeArg text) := by
  unfold encodeArg
  split
  · exact only_pure _
  · exact only_throw _

theorem only_setXattrs (tmpfile f e path : Arg) : Quiet sys (setXattrs sys tmpfile f e path) := by
  have hset : ∀ name value, Quiet sys (sys.perform (.setxattr tmpfile name value)) := by
    intro name value
    exact only_perform_other (by simp)
  unfold setXattrs
  refine only_bind (only_encodeArg f) fun _ => only_bind (hset _ _) fun _ => ?_
  refine only_bind (only_encodeArg e) fun _ => only_bind (hset _ _) fun _ => ?_
  refine only_bind (only_encodeArg path) fun _ => only_bind (hset _ _) fun _ => ?_
  refine only_bind (only_ofExcept _) fun buildId => only_bind ?_ fun _ => only_bind (only_ofExcept _) fun package => ?_
  · unfold setBuildId
    split
    · exact only_pure ()
    · exact hset _ _
  · unfold setPackage
    split
    · exact only_pure ()
    · exact only_bind (hset _ _) fun _ => hset _ _

/-- Where dumps are collected, the hook comes to its end just when it has one. -/
theorem returnsWith_collect (P e f path minidump : Arg) :
    ReturnsWith (Publishes sys) (collect sys P e f path minidump) := by
  unfold collect
  apply returnsWith_bind (only_perform_other (by simp))
  intro _
  apply returnsWith_bind (only_tee _)
  intro _
  apply returnsWith_bind
  · apply only_tryCatch (only_setXattrs _ _ _ _)
    intro err
    split
    · exact only_pure ()
    · exact only_throw err
  intro _
  apply returnsWith_bind (only_perform_other (by simp))
  intro _
  exact returnsWith_perform ⟨_, _, rfl⟩

theorem only_handOn (P e f path minidump : Arg) (h : shouldCollect path = false) :
    Quiet sys (handOn sys P e f path minidump) := by
  unfold handOn
  rw [if_neg (by simp [h])]
  exact only_tee _

theorem ensures_handOn (P e f path minidump : Arg) : Ensures (fun _ _ => True) (handOn sys P e f path minidump) := by
  unfold handOn
  split
  · exact (returnsWith_collect P e f path minidump).imp fun _ _ _ => trivial
  · exact (only_tee _).imp fun _ _ _ => trivial

/-- What `run` returns is what it is told by the path without slashes. -/
theorem gives_run (sys : System) (args : KernelArgs) : Gives (fun b => b = true) (run sys args.argv) := by
  have hpure : Gives (fun b => b = true) (pure (shouldCollect args.E) : Script Error Effect Bool) :=
    gives_pure (shouldCollect_of_noSlash args.noSlash)
  unfold KernelArgs.argv run
  refine gives_bind (only_ofExcept (p := fun _ => True) _) fun _ => gives_bind (only_ofExcept (p := fun _ => True) _)
    fun _ => gives_bind (only_perform_other (by simp)) fun _ => ?_
  apply gives_bind (p := fun _ => True) _ fun _ => hpure
  exact (ensures_handOn _ _ _ _ _).imp fun _ _ _ _ _ => trivial

/-- Where dumps are collected, the hook comes to its end just when it has one. -/
theorem returnsWith_run (sys : System) {args : KernelArgs} (h : shouldCollect (decodePath args.E) = true) :
    ReturnsWith (Publishes sys) (run sys args.argv) := by
  unfold KernelArgs.argv run
  refine returnsWith_bind (only_ofExcept _) fun _ => returnsWith_bind (only_ofExcept _) fun _ => ?_
  apply returnsWith_bind (only_perform_other (by simp))
  intro _
  apply returnsWith_then_pure
  unfold handOn
  rw [if_pos h]
  exact returnsWith_collect _ _ _ _ _

theorem triggers_iff_returns (args : KernelArgs) :
    Triggers sys args ↔ ∃ b, (after (run sys args.argv) []).1 = .ok b := by
  obtain ⟨new, -, hgives⟩ := gives_run sys args []
  unfold Triggers
  constructor
  · intro h
    exact ⟨true, h⟩
  · rintro ⟨b, hb⟩
    rw [hb, hgives b hb]

theorem triggers_of_collected {args : KernelArgs} (h : shouldCollect (decodePath args.E) = true) :
    Triggers sys args ↔ Published sys args := by
  obtain ⟨new, hnew, hreturns⟩ := returnsWith_run sys h []
  unfold Published
  rw [triggers_iff_returns, hreturns, hnew, List.nil_append]

/-! ## A dump that is not collected -/

theorem not_published {args : KernelArgs} (h : shouldCollect (decodePath args.E) = false) : ¬Published sys args := by
  have honly : Quiet sys (run sys args.argv) := by
    unfold KernelArgs.argv run
    refine only_bind (only_ofExcept _) fun _ => only_bind (only_ofExcept _) fun _ => ?_
    refine only_bind (only_perform_other (by simp)) fun _ => ?_
    exact only_bind (only_handOn _ _ _ _ _ h) fun _ => only_pure _
  obtain ⟨new, hnew, hnone⟩ := honly []
  rintro ⟨e, he, hp⟩
  rw [hnew, List.nil_append] at he
  exact hnone e he hp

/-- Without a dump there are four calls that can end the hook. -/
theorem returns_iff_not_fails {args : KernelArgs} (h : shouldCollect (decodePath args.E) = false) :
    (∃ b, (after (run sys args.argv) []).1 = .ok b) ↔ ¬Fails sys args := by
  have hhandOn : ∀ minidump, handOn sys args.P args.e args.f (decodePath args.E) minidump =
      tee sys [⟨.systemd, true⟩] := by
    intro minidump
    unfold handOn
    rw [if_neg (by simp [h])]
  unfold KernelArgs.argv run Fails System.perform
  rw [after_bind, after_ofExcept]
  cases checkTime sys args.t with
  | error err => simp
  | ok =>
    dsimp only
    rw [after_bind, after_ofExcept]
    cases findAppid sys args.P with
    | error err => simp
    | ok appid =>
      dsimp only
      rw [after_bind, after_perform]
      cases sys.fails [] (.popen (systemdArgs args.P args.u args.g args.s args.t args.c args.h)) with
      | some err => simp
      | none =>
        dsimp only
        rw [after_bind, hhandOn, List.nil_append]
        obtain ⟨new, -, htee⟩ := ensures_tee sys [⟨.systemd, true⟩]
          [.popen (systemdArgs args.P args.u args.g args.s args.t args.c args.h)]
        generalize after (tee sys [⟨.systemd, true⟩]) _ = r at htee ⊢
        obtain ⟨err | a, done⟩ := r
        · have hbroken : sys.broken ≠ none := by simpa using htee
          simp [hbroken]
        · have hbroken : sys.broken = none := by simpa using htee
          simp [hbroken, after_pure]

end

/-- The helper is triggered for what has been collected, just when the path is one that is collected or the hook does
not get to its end. -/
theorem triggers_iff_published_iff (sys : System) (args : KernelArgs) :
    (Triggers sys args ↔ Published sys args) ↔ shouldCollect (decodePath args.E) = true ∨ Fails sys args := by
  cases h : shouldCollect (decodePath args.E) with
  | true => exact iff_of_true (triggers_of_collected h) (.inl rfl)
  | false =>
    have hpublished : ¬Published sys args := not_published h
    rw [iff_false_right hpublished, triggers_iff_returns, returns_iff_not_fails h, not_not]
    simp

/-- No files of processes can be read. -/
def unread : Appid.World := fun _ => { environ := none, stat := none, cmdline := none }

theorem getAppid_unread (pid : Int) (res : Except Appid.Raised (Option Int)) :
    some (.ok none) = some res ↔ ∃ fuel, Appid.getAppid unread fuel pid = some res := by
  have hround : Appid.round unread (pid, none) = .done (.ok none) := by
    unfold Appid.round
    split <;> rfl
  have hyields := Loop.yields_of_done (c := res) hround
  rw [Option.some.injEq, eq_comm]
  exact hyields.symm

/-- Where nothing fails. -/
def calm : System where
  pending := arg "/var/lib/steamos-log-submitter/pending"
  ctime _ := none
  world := unread
  getAppid _ := some (.ok none)
  getAppid_eq := getAppid_unread
  getExeBuildId _ := .ok none
  pacman _ := .error .osError
  buffers := [[0x7f]]
  broken := none
  fails _ _ := none
  comesBack := by simp

/-- A program that Steam looks after itself. -/
def steamProgram : KernelArgs where
  P := arg "42"
  e := arg "game"
  u := arg "1000"
  g := arg "1000"
  s := arg "11"
  t := arg "1700000000"
  c := arg "0"
  h := arg "steamdeck"
  f := arg "game"
  E := arg "!home!deck!.local!share!Steam!game"
  noSlash := by decide +kernel

/-- No dump is collected, and the helper is triggered. -/
theorem triggers_without_dump :
    Triggers calm steamProgram ∧ ¬Published calm steamProgram ∧
      ¬(Triggers calm steamProgram ↔ Published calm steamProgram) := by
  have htriggers : Triggers calm steamProgram := by
    unfold Triggers
    decide +kernel
  have hpublished : ¬Published calm steamProgram := not_published (by decide +kernel)
  exact ⟨htriggers, hpublished, fun h => hpublished (h.1 htriggers)⟩

end LogSubmitter.Hooks.Coredump

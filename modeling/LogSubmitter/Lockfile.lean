import LogSubmitter.Lib.Dict
import LogSubmitter.Lib.Runs
import LogSubmitter.Lib.Words
import LogSubmitter.Str
import Mathlib.Logic.Function.Basic
/-!
# The lock file

`lock()` and `unlock()` of any number of `Lockfile` objects for one path, in
any number of processes of one user, taken apart into the single file-system
steps they make. An object owns the lock by having created the file and written
`/proc/<pid>/fd/<fd>` into it. A file whose text does not lead back to it is
stale and taken over.
-/
namespace LogSubmitter.Lock

open Lib

abbrev Pid := Nat
abbrev Fd := Nat
abbrev Ino := Nat

/-! ## The file system -/

/-- What the calls see of the file system: the file the path names, what files
hold, and the descriptors that are open, by process and number. -/
structure Files where
  link : Option Ino
  text : Ino → List Char
  fds : List ((Pid × Fd) × Ino)

namespace Files

/-- No open descriptor of the process has the number. -/
def FdFree (f : Files) (pid : Pid) (fd : Fd) : Prop := Assoc.get (pid, fd) f.fds = none

/-- No path and no open descriptor leads to the file. -/
def InoFree (f : Files) (ino : Ino) : Prop := f.link ≠ some ino ∧ ino ∉ f.fds.map Prod.snd

instance (f : Files) (pid : Pid) (fd : Fd) : Decidable (f.FdFree pid fd) :=
  inferInstanceAs (Decidable (_ = _))

instance (f : Files) (ino : Ino) : Decidable (f.InoFree ino) :=
  inferInstanceAs (Decidable (_ ∧ _))

/-- Open the file `ino`. -/
def openFile (f : Files) (pid : Pid) (fd : Fd) (ino : Ino) : Files := { f with fds := ((pid, fd), ino) :: f.fds }

/-- Open the file under the path, a new one if there is none, and leave it empty. -/
def openTruncated (f : Files) (pid : Pid) (fd : Fd) (ino : Ino) : Files :=
  { f.openFile pid fd ino with link := some ino, text := Function.update f.text ino [] }

def closeFd (f : Files) (pid : Pid) (fd : Fd) : Files := { f with fds := f.fds.filter (·.1 ≠ (pid, fd)) }

/-- Write at the start of the file. What was longer keeps its end. -/
def writeStart (f : Files) (ino : Ino) (text : List Char) : Files :=
  { f with text := Function.update f.text ino (text ++ (f.text ino).drop text.length) }

/-- `f'/proc/{pid}/fd/{fd}'`. -/
def procPath (pid : Pid) (fd : Fd) : List Char :=
  "/proc/".toList ++ Nat.toDigits 10 pid ++ "/fd/".toList ++ Nat.toDigits 10 fd

/-- The files after `lock()`: the process has created the lock file or emptied it, and has written its path. -/
def taken (f : Files) (pid : Pid) (fd : Fd) (ino : Ino) : Files :=
  (f.openTruncated pid fd (f.link.getD ino)).writeStart (f.link.getD ino) (procPath pid fd)

/-- The files after `unlock()`. -/
def released (f : Files) (pid : Pid) (fd : Fd) : Files := { f with link := none }.closeFd pid fd

@[simp] theorem taken_link (f : Files) (pid : Pid) (fd : Fd) (ino : Ino) :
    (f.taken pid fd ino).link = some (f.link.getD ino) := rfl

@[simp] theorem released_link (f : Files) (pid : Pid) (fd : Fd) : (f.released pid fd).link = none := rfl

/-- The answers of `os.stat`: a file, `FileNotFoundError`, or `NotADirectoryError`. -/
inductive Stat where
  | ok (ino : Ino)
  | notFound
  | notADirectory
  deriving DecidableEq

/-- `os.stat` of a path under `/proc`: the file behind an open descriptor. A
path that goes on after a descriptor's treats a file as a directory. -/
def procStat (f : Files) (path : List Char) : Stat :=
  match f.fds.find? fun e => procPath e.1.1 e.1.2 = path with
  | some e => .ok e.2
  | none =>
    if f.fds.any fun e => (procPath e.1.1 e.1.2 ++ ['/']).isPrefixOf path then .notADirectory else .notFound

end Files

/-! ## The objects -/

/-- Where an object is: in no call, in `lock()` or in `unlock()`. `self.lockfile`
is set from `write` on. -/
inductive Pc where
  | unlocked
  | create
  | openRead
  | read (lockfile : Fd) (attempt : Nat)
  | closeRead (lockfile : Fd) (lockinfo : List Char)
  | statPath (lockinfo : List Char)
  | statInfo (lockinfo : List Char) (pathstat : Ino)
  | takeOver
  | write (lockfile : Fd)
  | flush (lockfile : Fd) (buffer : List Char)
  | locked (lockfile : Fd)
  | close (lockfile : Fd)
  deriving DecidableEq

/-- How the last call ended. -/
inductive Outcome where
  | returned
  | lockHeldError
  | lockNotHeldError
  | fileNotFoundError
  | notADirectoryError
  deriving DecidableEq

/-- A `Lockfile` object of the process `pid`. -/
structure Lockfile where
  pid : Pid
  pc : Pc
  outcome : Outcome

namespace Lockfile

/-- The call ends, and the object does not have the file. -/
def raise (o : Lockfile) (e : Outcome) : Lockfile := { o with pc := .unlocked, outcome := e }

/-- Between a `lock()` that returned normally and its `unlock()`. -/
def Holds (o : Lockfile) : Prop := ∃ fd, o.pc = .locked fd

/-- The object has created the file or taken it over, and has not unlinked it since. -/
def Possesses (o : Lockfile) : Prop :=
  match o.pc with
  | .write _ | .flush _ _ | .locked _ => True
  | _ => False

theorem Holds.possesses {o : Lockfile} (h : o.Holds) : o.Possesses := by
  obtain ⟨fd, hp⟩ := h
  simp [Possesses, hp]

end Lockfile

/-- The next step of the call an object is in. `fd` and `ino` are the numbers
the system gives to what the step opens or creates. -/
def step (fd : Fd) (ino : Ino) (o : Lockfile) (f : Files) : Option (Lockfile × Files) :=
  match o.pc with
  | .unlocked | .locked _ => none
  -- `open(self._path, 'x')`
  | .create =>
    match f.link with
    | some _ => some ({ o with pc := .openRead }, f)
    | none =>
      if f.FdFree o.pid fd ∧ f.InoFree ino then
        some ({ o with pc := .write fd }, f.openTruncated o.pid fd ino)
      else none
  -- `open(self._path, 'r')`: if the file is gone, the loop starts again.
  | .openRead =>
    match f.link with
    | none => some ({ o with pc := .create }, f)
    | some i => if f.FdFree o.pid fd then some ({ o with pc := .read fd 0 }, f.openFile o.pid fd i) else none
  -- Up to three reads. An empty file reads as `''`, never as `None`.
  | .read lockfile attempt =>
    match Assoc.get (o.pid, lockfile) f.fds with
    | none => none
    | some i =>
      if f.text i ≠ [] ∨ attempt = 2 then some ({ o with pc := .closeRead lockfile (f.text i) }, f)
      else some ({ o with pc := .read lockfile (attempt + 1) }, f)
  | .closeRead lockfile lockinfo =>
    some ({ o with pc := if "/proc/".toList.isPrefixOf lockinfo then .statPath lockinfo else .takeOver },
      f.closeFd o.pid lockfile)
  -- `os.stat(self._path)` stands outside the inner `try`.
  | .statPath lockinfo =>
    match f.link with
    | none => some (o.raise .fileNotFoundError, f)
    | some i => some ({ o with pc := .statInfo lockinfo i }, f)
  | .statInfo lockinfo pathstat =>
    match f.procStat (Str.strip lockinfo) with
    | .ok lockstat =>
      if lockstat = pathstat then some (o.raise .lockHeldError, f) else some ({ o with pc := .takeOver }, f)
    | .notFound => some ({ o with pc := .takeOver }, f)
    | .notADirectory => some (o.raise .notADirectoryError, f)
  -- `open(self._path, 'w')`: truncates the file, or creates it.
  | .takeOver =>
    if f.FdFree o.pid fd ∧ (f.link = none → f.InoFree ino) then
      some ({ o with pc := .write fd }, f.openTruncated o.pid fd (f.link.getD ino))
    else none
  | .write lockfile => some ({ o with pc := .flush lockfile (Files.procPath o.pid lockfile) }, f)
  | .flush lockfile buffer =>
    match Assoc.get (o.pid, lockfile) f.fds with
    | none => none
    | some i => some ({ o with pc := .locked lockfile, outcome := .returned }, f.writeStart i buffer)
  | .close lockfile => some ({ o with pc := .unlocked, outcome := .returned }, f.closeFd o.pid lockfile)

/-- A call of `lock()` starts. On a locked object it returns at once. -/
def startLock (o : Lockfile) : Option Lockfile :=
  match o.pc with
  | .unlocked => some { o with pc := .create }
  | .locked _ => some { o with outcome := .returned }
  | _ => none

/-- A call of `unlock()` starts. Its first step unlinks the path. -/
def startUnlock (o : Lockfile) (f : Files) : Option (Lockfile × Files) :=
  match o.pc with
  | .unlocked => some ({ o with outcome := .lockNotHeldError }, f)
  | .locked fd =>
    match f.link with
    | none => some ({ o with outcome := .fileNotFoundError }, f)
    | some _ => some ({ o with pc := .close fd }, { f with link := none })
  | _ => none

/-! ## The system -/

structure World where
  files : Files
  objs : Nat → Lockfile

inductive Act where
  | lock
  | unlock
  | step (fd : Fd) (ino : Ino)

/-- One step of one object. -/
structure Event where
  obj : Nat
  act : Act

/-- What the step does to its object and to the files. -/
def act : Act → Lockfile → Files → Option (Lockfile × Files)
  | .lock, o, f => (startLock o).map fun o' => (o', f)
  | .unlock, o, f => startUnlock o f
  | .step fd ino, o, f => step fd ino o f

def next (e : Event) (w : World) : Option World :=
  (act e.act (w.objs e.obj) w.files).map fun r => ⟨r.2, Function.update w.objs e.obj r.1⟩

/-- No lock file, and no object in a call. -/
def init (pids : Nat → Pid) : World :=
  { files := { link := none, text := fun _ => [], fds := [] }
    objs := fun n => { pid := pids n, pc := .unlocked, outcome := .returned } }

/-- Interleavings of the steps of all objects. -/
abbrev LockRun (pids : Nat → Pid) : List (World × Event) → World → Prop :=
  Run (fun w e w' => next e w = some w') (init pids)

/-! ## Whole calls -/

/-- The object takes the remaining steps of its call, if the fuel is enough. -/
def finish : Nat → Fd → Ino → Lockfile → Files → Option (Lockfile × Files)
  | 0, _, _, _, _ => none
  | fuel + 1, fd, ino, o, f =>
    match o.pc with
    | .unlocked | .locked _ => some (o, f)
    | _ => (step fd ino o f).bind fun r => finish fuel fd ino r.1 r.2

/-- `lock()` without interleaving. It takes nine steps at most. -/
def lock (fd : Fd) (ino : Ino) (o : Lockfile) (f : Files) : Option (Lockfile × Files) :=
  (startLock o).bind fun o' => finish 12 fd ino o' f

/-- `unlock()` without interleaving. -/
def unlock (o : Lockfile) (f : Files) : Option (Lockfile × Files) :=
  (startUnlock o f).bind fun r => finish 2 0 0 r.1 r.2

/-- The file's text does not lead back to it. -/
def Stale (f : Files) (i : Ino) : Prop :=
  "/proc/".toList.isPrefixOf (f.text i) = true →
    f.procStat (Str.strip (f.text i)) = .notFound ∨ ∃ j, j ≠ i ∧ f.procStat (Str.strip (f.text i)) = .ok j

/-- There is no lock file, or a stale one. -/
def Free (f : Files) : Prop := ∀ i, f.link = some i → Stale f i

theorem closeFd_openFile {f : Files} {pid : Pid} {fd : Fd} (h : f.FdFree pid fd) (i : Ino) :
    (f.openFile pid fd i).closeFd pid fd = f := by
  have keep : f.fds.filter (·.1 ≠ (pid, fd)) = f.fds := by
    refine List.filter_eq_self.2 fun e he => ?_
    have hne : (pid, fd) ∉ f.fds.map Prod.fst := Assoc.get_eq_none.1 h
    exact decide_eq_true fun heq => hne (heq ▸ List.mem_map_of_mem he)
  rw [Files.closeFd, Files.openFile, List.filter_cons_of_neg (by simp), keep]

section
variable {fd : Fd} (ino : Ino) (o : Lockfile) {f : Files}

/-- An object that has opened the file for writing gets the lock. -/
theorem finish_write (n : Nat) {i : Ino} (hfd : Assoc.get (o.pid, fd) f.fds = some i) :
    finish (n + 3) fd ino { o with pc := .write fd } f =
      some ({ o with pc := .locked fd, outcome := .returned }, f.writeStart i (Files.procPath o.pid fd)) := by
  rw [finish]
  simp only [step, Option.bind_some]
  rw [finish]
  simp only [step, hfd, Option.bind_some]
  rw [finish]

theorem get_openTruncated (pid : Pid) (fd : Fd) (i : Ino) :
    Assoc.get (pid, fd) (f.openTruncated pid fd i).fds = some i := by
  simp [Files.openTruncated, Files.openFile, Assoc.get_cons]

theorem finish_takeOver (n : Nat) (hfd : f.FdFree o.pid fd) (hino : f.InoFree ino) :
    finish (n + 4) fd ino { o with pc := .takeOver } f =
      some ({ o with pc := .locked fd, outcome := .returned }, f.taken o.pid fd ino) := by
  rw [Files.taken, ← finish_write ino o n (get_openTruncated o.pid fd (f.link.getD ino)), finish]
  simp only [step, hfd, hino, implies_true, and_self, if_true, Option.bind_some]

/-- After a text that is not the holder's, the file is taken over. -/
theorem finish_closeRead (n : Nat) {i : Ino} (hl : f.link = some i) (hs : Stale f i) (hfd : f.FdFree o.pid fd)
    (hino : f.InoFree ino) :
    finish (n + 7) fd ino { o with pc := .closeRead fd (f.text i) } (f.openFile o.pid fd i) =
      some ({ o with pc := .locked fd, outcome := .returned }, f.taken o.pid fd ino) := by
  by_cases hp : "/proc/".toList.isPrefixOf (f.text i) = true
  · rw [← finish_takeOver ino o n hfd hino, finish]
    simp only [step, hp, if_true, Option.bind_some, closeFd_openFile hfd]
    rw [finish]
    simp only [step, hl, Option.bind_some]
    rw [finish]
    rcases hs hp with h | ⟨j, hj, h⟩
    · simp only [step, h, Option.bind_some]
    · simp only [step, h, if_neg hj, Option.bind_some]
  · rw [← finish_takeOver ino o (n + 2) hfd hino, finish]
    simp only [step, if_neg hp, Option.bind_some, closeFd_openFile hfd]

theorem finish_read (n : Nat) {i : Ino} (hget : Assoc.get (o.pid, fd) f.fds = some i) (h : f.text i ≠ []) :
    finish (n + 1) fd ino { o with pc := .read fd 0 } f =
      finish n fd ino { o with pc := .closeRead fd (f.text i) } f := by
  rw [finish]
  simp only [step, hget, ne_eq, h, not_false_eq_true, true_or, if_true, Option.bind_some]

/-- An empty file is read three times. -/
theorem finish_read_empty (n : Nat) {i : Ino} (hget : Assoc.get (o.pid, fd) f.fds = some i) (h : f.text i = []) :
    finish (n + 3) fd ino { o with pc := .read fd 0 } f = finish n fd ino { o with pc := .closeRead fd [] } f := by
  have retry : ∀ attempt, attempt ≠ 2 →
      step fd ino { o with pc := .read fd attempt } f = some ({ o with pc := .read fd (attempt + 1) }, f) := by
    intro attempt ha
    simp only [step, hget, h, ne_eq, not_true_eq_false, ha, or_self, if_false]
  have last : step fd ino { o with pc := .read fd 2 } f = some ({ o with pc := .closeRead fd [] }, f) := by
    simp only [step, hget, h, ne_eq, not_true_eq_false, or_true, if_true]
  rw [finish, retry 0 (by decide), Option.bind_some, finish, retry 1 (by decide), Option.bind_some, finish, last,
    Option.bind_some]

/-- Where there is a file, `lock()` opens it to read. -/
theorem finish_create (n : Nat) {i : Ino} (hl : f.link = some i) (hfd : f.FdFree o.pid fd) :
    finish (n + 2) fd ino { o with pc := .create } f =
      finish n fd ino { o with pc := .read fd 0 } (f.openFile o.pid fd i) := by
  rw [finish]
  simp only [step, hl, Option.bind_some]
  rw [finish]
  simp only [step, hl, if_pos hfd, Option.bind_some]

theorem get_openFile (pid : Pid) (fd : Fd) (i : Ino) : Assoc.get (pid, fd) (f.openFile pid fd i).fds = some i := by
  simp [Files.openFile, Assoc.get_cons]

/-- With the lock free, `lock()` on an unlocked object returns with the lock. -/
theorem lock_of_free {ino : Ino} {o : Lockfile} (hpc : o.pc = .unlocked) (h : Free f) (hfd : f.FdFree o.pid fd)
    (hino : f.InoFree ino) :
    lock fd ino o f = some ({ o with pc := .locked fd, outcome := .returned }, f.taken o.pid fd ino) := by
  simp only [lock, startLock, hpc, Option.bind_some]
  cases hl : f.link with
  | none =>
    rw [Files.taken, hl, ← finish_write ino o 8 (get_openTruncated o.pid fd _), finish]
    simp only [step, hl, hfd, hino, and_self, if_true, Option.bind_some, Option.getD_none]
  | some i =>
    rw [finish_create ino o 10 hl hfd]
    by_cases he : f.text i = []
    · rw [finish_read_empty ino o 7 (get_openFile _ _ _) he, ← he]
      exact finish_closeRead ino o 0 hl (h i hl) hfd hino
    · rw [finish_read ino o 9 (get_openFile _ _ _) he]
      exact finish_closeRead ino o 2 hl (h i hl) hfd hino

/-- `unlock()` by the holder removes the lock file. -/
theorem unlock_of_locked {o : Lockfile} (hpc : o.pc = .locked fd) (hl : f.link ≠ none) :
    unlock o f = some ({ o with pc := .unlocked, outcome := .returned }, f.released o.pid fd) := by
  obtain ⟨i, hi⟩ := Option.ne_none_iff_exists'.1 hl
  rw [unlock, startUnlock]
  simp only [hpc, hi, Option.bind_some]
  rw [finish]
  simp only [step, Option.bind_some]
  rw [finish, Files.released]

end

/-! A whole call is a run of its steps. -/

theorem next_of_act {w : World} {n : Nat} {a : Act} {r : Lockfile × Files} (h : act a (w.objs n) w.files = some r) :
    next ⟨n, a⟩ w = some ⟨r.2, Function.update w.objs n r.1⟩ := by
  simp [next, h]

theorem finish_run {fuel : Nat} {fd : Fd} {ino : Ino} {w : World} {n : Nat} {r : Lockfile × Files}
    (h : finish fuel fd ino (w.objs n) w.files = some r) :
    ∃ tr, Run (fun w e w' => next e w = some w') w tr ⟨r.2, Function.update w.objs n r.1⟩ := by
  induction fuel generalizing w with
  | zero => cases h
  | succ fuel ih =>
    rw [finish] at h
    split at h
    case h_1 | h_2 =>
      cases h
      exact ⟨[], by rw [Function.update_eq_self]; exact .nil⟩
    case h_3 =>
      obtain ⟨r1, h1, h2⟩ := Option.bind_eq_some_iff.1 h
      obtain ⟨tr, hr⟩ := ih (w := ⟨r1.2, Function.update w.objs n r1.1⟩) (by simpa using h2)
      rw [Function.update_idem] at hr
      exact ⟨_, Run.of_cons (next_of_act (a := .step fd ino) h1) hr⟩

theorem lock_run {fd : Fd} {ino : Ino} {w : World} {n : Nat} {r : Lockfile × Files}
    (h : lock fd ino (w.objs n) w.files = some r) :
    ∃ tr, Run (fun w e w' => next e w = some w') w tr ⟨r.2, Function.update w.objs n r.1⟩ := by
  obtain ⟨o1, h1, h2⟩ := Option.bind_eq_some_iff.1 h
  have ha : act .lock (w.objs n) w.files = some (o1, w.files) := by simp [act, h1]
  obtain ⟨tr, hr⟩ := finish_run (w := ⟨w.files, Function.update w.objs n o1⟩) (n := n) (by simpa using h2)
  rw [Function.update_idem] at hr
  exact ⟨_, Run.of_cons (next_of_act ha) hr⟩

theorem unlock_run {w : World} {n : Nat} {r : Lockfile × Files} (h : unlock (w.objs n) w.files = some r) :
    ∃ tr, Run (fun w e w' => next e w = some w') w tr ⟨r.2, Function.update w.objs n r.1⟩ := by
  obtain ⟨r1, h1, h2⟩ := Option.bind_eq_some_iff.1 h
  obtain ⟨tr, hr⟩ := finish_run (w := ⟨r1.2, Function.update w.objs n r1.1⟩) (n := n) (by simpa using h2)
  rw [Function.update_idem] at hr
  exact ⟨_, Run.of_cons (next_of_act (a := .unlock) h1) hr⟩

/-! ## What a step does to the lock -/

/-- An object's step keeps its part in the lock and the link, or gains the lock
by creating the file or by taking it over, or gives it up by unlinking it. -/
inductive Change (o o' : Lockfile) (f f' : Files) : Prop
  | keep (hp : o'.Possesses ↔ o.Possesses) (hl : f'.link = f.link)
  | create (hl : f.link = none) (hl' : f'.link ≠ none)
  | takeOver (hp : o.pc = .takeOver) (hl' : f'.link ≠ none)
  | unlink (hp : o.Possesses) (hp' : ¬ o'.Possesses)

theorem step_change {fd : Fd} {ino : Ino} {o o' : Lockfile} {f f' : Files} (h : step fd ino o f = some (o', f')) :
    Change o o' f f' := by
  unfold step at h
  cases hpc : o.pc <;> simp only [hpc] at h
  case unlocked => cases h
  case locked => cases h
  case create =>
    split at h
    · cases h; exact .keep (by simp [Lockfile.Possesses, hpc]) rfl
    · rename_i hl
      split at h
      -- The only step that makes the file, and opens it.
      · cases h; exact .create hl (by simp [Files.openTruncated])
      · cases h
  case openRead =>
    split at h
    · cases h; exact .keep (by simp [Lockfile.Possesses, hpc]) rfl
    · split at h
      · cases h; exact .keep (by simp [Lockfile.Possesses, hpc]) rfl
      · cases h
  case read =>
    split at h
    · cases h
    · split at h <;> cases h <;> exact .keep (by simp [Lockfile.Possesses, hpc]) rfl
  case closeRead =>
    cases h
    refine .keep ?_ rfl
    split <;> simp [Lockfile.Possesses, hpc]
  case statPath =>
    split at h <;> cases h <;> exact .keep (by simp [Lockfile.Possesses, Lockfile.raise, hpc]) rfl
  case statInfo =>
    split at h
    · split at h <;> cases h <;> exact .keep (by simp [Lockfile.Possesses, Lockfile.raise, hpc]) rfl
    all_goals cases h; exact .keep (by simp [Lockfile.Possesses, Lockfile.raise, hpc]) rfl
  case takeOver =>
    split at h
    -- Its owner is gone: the file is opened anew.
    · cases h; exact .takeOver hpc (by simp [Files.openTruncated])
    · cases h
  case write => cases h; exact .keep (by simp [Lockfile.Possesses, hpc]) rfl
  case flush =>
    split at h
    · cases h
    · cases h; exact .keep (by simp [Lockfile.Possesses, hpc]) rfl
  case close => cases h; exact .keep (by simp [Lockfile.Possesses, hpc]) rfl

theorem startLock_change {o o' : Lockfile} (h : startLock o = some o') (f : Files) : Change o o' f f := by
  unfold startLock at h
  split at h
  · rename_i hpc
    cases h; exact .keep (by simp [Lockfile.Possesses, hpc]) rfl
  · rename_i hpc
    cases h; exact .keep (by simp [Lockfile.Possesses]) rfl
  · cases h

theorem startUnlock_change {o o' : Lockfile} {f f' : Files} (h : startUnlock o f = some (o', f')) :
    Change o o' f f' := by
  unfold startUnlock at h
  split at h
  · cases h; exact .keep (by simp [Lockfile.Possesses]) rfl
  · rename_i fd hpc
    split at h
    · cases h; exact .keep (by simp [Lockfile.Possesses]) rfl
    · cases h; exact .unlink (by simp [Lockfile.Possesses, hpc]) (by simp [Lockfile.Possesses])
  · cases h

theorem act_change {a : Act} {o o' : Lockfile} {f f' : Files} (h : act a o f = some (o', f')) :
    Change o o' f f' := by
  cases a with
  | lock =>
    obtain ⟨o1, h1, he⟩ := Option.map_eq_some_iff.1 h
    cases he
    exact startLock_change h1 f
  | unlock => exact startUnlock_change h
  | step fd ino => exact step_change h

/-! ## Mutual exclusion -/

/-- At most one object has the file, and then the path names a file. -/
structure Exclusive (w : World) : Prop where
  unique : ∀ a b, (w.objs a).Possesses → (w.objs b).Possesses → a = b
  linked : ∀ a, (w.objs a).Possesses → w.files.link ≠ none

/-- If the step takes the file over, no other object has created the file, or
taken it over, without having unlinked it since. -/
def TakesOverUnpossessed (w : World) (e : Event) : Prop :=
  (w.objs e.obj).pc = .takeOver → ∀ b, b ≠ e.obj → ¬ (w.objs b).Possesses

theorem exclusive_init (pids : Nat → Pid) : Exclusive (init pids) :=
  ⟨by simp [init, Lockfile.Possesses], by simp [init, Lockfile.Possesses]⟩

/-- An object that is the only one to possess the file afterwards. -/
theorem exclusive_of_only {w : World} {n : Nat} {o : Lockfile} {f : Files} (hl : f.link ≠ none)
    (h : ∀ b, b ≠ n → ¬ (w.objs b).Possesses) : Exclusive ⟨f, Function.update w.objs n o⟩ := by
  have only : ∀ b, (Function.update w.objs n o b).Possesses → b = n := by
    intro b hb
    by_contra hne
    rw [Function.update_of_ne hne] at hb
    exact h b hne hb
  exact ⟨fun a b ha hb => (only a ha).trans (only b hb).symm, fun _ _ => hl⟩

theorem exclusive_next {w w' : World} {e : Event} (hx : Exclusive w) (ht : TakesOverUnpossessed w e)
    (h : next e w = some w') : Exclusive w' := by
  obtain ⟨⟨o', f'⟩, ha, rfl⟩ := Option.map_eq_some_iff.1 h
  cases act_change ha with
  | keep hp hl =>
    have same : ∀ b, (Function.update w.objs e.obj o' b).Possesses ↔ (w.objs b).Possesses := by
      intro b
      by_cases hb : b = e.obj
      · subst hb; rw [Function.update_self]; exact hp
      · rw [Function.update_of_ne hb]
    exact ⟨fun a b ha hb => hx.unique a b ((same a).1 ha) ((same b).1 hb),
      fun a ha => by rw [hl]; exact hx.linked a ((same a).1 ha)⟩
  | create hl hl' => exact exclusive_of_only hl' fun b _ hb => hx.linked b hb hl
  | takeOver hp hl' => exact exclusive_of_only hl' (ht hp)
  | unlink hp hp' =>
    have none_left : ∀ b, ¬ (Function.update w.objs e.obj o' b).Possesses := by
      intro b hb
      by_cases hbe : b = e.obj
      · subst hbe; rw [Function.update_self] at hb; exact hp' hb
      · rw [Function.update_of_ne hbe] at hb
        exact hbe (hx.unique b e.obj hb hp)
    exact ⟨fun a _ ha _ => absurd ha (none_left a), fun a ha => absurd ha (none_left a)⟩

/-- At most one object is between a `lock()` that returned and its `unlock()`,
in every run in which a file is taken over only when no other object has
created or taken it without unlinking it since. -/
theorem at_most_one_holder {pids : Nat → Pid} {tr : List (World × Event)} {w : World} (h : LockRun pids tr w)
    (ht : ∀ p ∈ tr, TakesOverUnpossessed p.1 p.2) :
    ∀ a b, (w.objs a).Holds → (w.objs b).Holds → a = b := by
  have hx : Exclusive w :=
    h.inv Exclusive (fun _ _ _ hi hok hs => exclusive_next hi hok hs) (exclusive_init pids) ht
  exact fun a b ha hb => hx.unique a b ha.possesses hb.possesses

/-- The first object takes the lock, and the second finds it held. -/
def contended : List Event :=
  [⟨0, .lock⟩, ⟨0, .step 3 7⟩, ⟨0, .step 0 0⟩, ⟨0, .step 0 0⟩, ⟨1, .lock⟩, ⟨1, .step 0 0⟩, ⟨1, .step 3 0⟩,
    ⟨1, .step 0 0⟩, ⟨1, .step 0 0⟩, ⟨1, .step 0 0⟩, ⟨1, .step 0 0⟩]

/-- The second object reads the file three times before the first has written
it, and takes it over. -/
def slowWriter : List Event :=
  [⟨0, .lock⟩, ⟨0, .step 3 7⟩, ⟨1, .lock⟩, ⟨1, .step 0 0⟩, ⟨1, .step 3 0⟩, ⟨1, .step 0 0⟩, ⟨1, .step 0 0⟩,
    ⟨1, .step 0 0⟩, ⟨1, .step 0 0⟩, ⟨1, .step 3 0⟩, ⟨1, .step 0 0⟩, ⟨1, .step 0 0⟩, ⟨0, .step 0 0⟩, ⟨0, .step 0 0⟩]

theorem contended_one_holder : ∃ tr w, LockRun (100 + ·) tr w ∧ (w.objs 0).Holds ∧
    (w.objs 1).outcome = .lockHeldError ∧ ∀ a b, (w.objs a).Holds → (w.objs b).Holds → a = b := by
  obtain ⟨⟨tr, w⟩, hr, never, h0, h1⟩ : ∃ r ∈ runEvents next contended (init (100 + ·)),
      (∀ p ∈ r.1, (p.1.objs p.2.obj).pc ≠ .takeOver) ∧ (r.2.objs 0).pc = .locked 3 ∧
        (r.2.objs 1).outcome = .lockHeldError := by decide
  have hrun : LockRun (100 + ·) tr w := run_of_events hr
  exact ⟨tr, w, hrun, ⟨3, h0⟩, h1, at_most_one_holder hrun fun p hp ht => absurd ht (never p hp)⟩

/-- Two objects hold the lock at once. -/
theorem slow_writer_two_holders : ∃ tr w, LockRun (100 + ·) tr w ∧
    ¬ ∀ a b, (w.objs a).Holds → (w.objs b).Holds → a = b := by
  obtain ⟨⟨tr, w⟩, hr, h0, h1⟩ : ∃ r ∈ runEvents next slowWriter (init (100 + ·)),
      (r.2.objs 0).pc = .locked 3 ∧ (r.2.objs 1).pc = .locked 3 := by decide
  exact ⟨tr, w, run_of_events hr, fun h => absurd (h 0 1 ⟨3, h0⟩ ⟨3, h1⟩) (by decide)⟩

end LogSubmitter.Lock

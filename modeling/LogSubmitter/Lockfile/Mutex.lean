import LogSubmitter.Lockfile
import Mathlib.Data.List.Count
/-!
# The lock file as a mutex

With calls that do not interleave, the lock file is a mutex that a dying
process releases: its text leads back to the file exactly as long as the
holder's process has it open.
-/
namespace LogSubmitter.Lock

open Lib

/-! ## The mutex -/

/-- Which objects there are, by process, and which of them has the lock. -/
structure Mutex where
  pid : Nat → Option Pid
  holder : Option Nat

/-- The whole calls, and what else happens to processes and files. -/
inductive Call where
  | create (obj : Nat) (pid : Pid)
  | lock (obj : Nat) (fd : Fd) (ino : Ino)
  | unlock (obj : Nat)
  | die (pid : Pid)
  | openOther (pid : Pid) (fd : Fd) (ino : Ino)
  | closeOther (pid : Pid) (fd : Fd)

/-- What a call does to the mutex. -/
def Mutex.next (m : Mutex) : Call → Mutex
  | .create obj pid => { m with pid := Function.update m.pid obj (some pid) }
  | .lock obj _ _ => { m with holder := m.holder.or (some obj) }
  | .unlock obj => { m with holder := m.holder.filter (· ≠ obj) }
  | .die pid =>
    { pid := fun n => (m.pid n).filter (· ≠ pid), holder := m.holder.filter fun n => m.pid n ≠ some pid }
  | .openOther _ _ _ | .closeOther _ _ => m

def Mutex.init : Mutex := ⟨fun _ => none, none⟩

/-! ## Whole calls on the files -/

/-- The files, and the objects of live processes. -/
structure System where
  files : Files
  objs : Nat → Option Lockfile

def System.init : System := ⟨{ link := none, text := fun _ => [], fds := [] }, fun _ => none⟩

/-- The files, and the state of one object. -/
def System.set (s : System) (f : Files) (n : Nat) (o : Lockfile) : System := ⟨f, Function.update s.objs n (some o)⟩

/-- The descriptors of the process are closed. -/
def Files.exit (f : Files) (pid : Pid) : Files := { f with fds := f.fds.filter (·.1.1 ≠ pid) }

/-- One whole call or event. The system gives out numbers that are free, and the other
files are not the lock file. -/
def call : Call → System → Option System
  | .create obj pid, s =>
    if s.objs obj = none then
      some (s.set s.files obj { pid := pid, pc := .unlocked, outcome := .returned })
    else none
  | .lock obj fd ino, s => (s.objs obj).bind fun o =>
    if s.files.FdFree o.pid fd ∧ s.files.InoFree ino then
      (lock fd ino o s.files).map fun r => s.set r.2 obj r.1
    else none
  | .unlock obj, s => (s.objs obj).bind fun o =>
    (unlock o s.files).map fun r => s.set r.2 obj r.1
  | .die pid, s => some ⟨s.files.exit pid, fun n => (s.objs n).filter (·.pid ≠ pid)⟩
  | .openOther pid fd ino, s =>
    if s.files.FdFree pid fd ∧ s.files.link ≠ some ino then some { s with files := s.files.openFile pid fd ino }
    else none
  | .closeOther pid fd, s => (Assoc.get (pid, fd) s.files.fds).bind fun i =>
    if s.files.link ≠ some i then some { s with files := s.files.closeFd pid fd } else none

/-- Sequences of whole calls and events, from no lock file. -/
abbrev CallRun : List (System × Call) → System → Prop := Run (fun s e s' => call e s = some s') System.init

/-- A live object has the lock. -/
def System.Holder (s : System) (n : Nat) : Prop := ∃ o, s.objs n = some o ∧ o.Holds

/-- The system is in a state of the mutex. -/
structure Represents (m : Mutex) (s : System) : Prop where
  pid : ∀ n, m.pid n = (s.objs n).map Lockfile.pid
  holder : ∀ n, m.holder = some n ↔ s.Holder n

/-- What the calls on a live object come to. -/
structure Behaves (s : System) (n : Nat) (o : Lockfile) : Prop where
  refused : ∀ fd ino, s.files.FdFree o.pid fd → s.files.InoFree ino → ¬ o.Holds → (∃ a, s.Holder a) →
    lock fd ino o s.files = some ({ o with outcome := .lockHeldError }, s.files)
  taken : ∀ fd ino, s.files.FdFree o.pid fd → s.files.InoFree ino → (∀ a, ¬ s.Holder a) →
    ∃ s', call (.lock n fd ino) s = some s' ∧ s'.files.link ≠ none ∧
      s'.objs n = some { o with pc := .locked fd, outcome := .returned } ∧ ∀ a, s'.Holder a ↔ a = n
  again : ∀ fd ino, o.Holds → lock fd ino o s.files = some ({ o with outcome := .returned }, s.files)
  released : o.Holds → ∃ s', call (.unlock n) s = some s' ∧ s'.files.link = none ∧
    s'.objs n = some { o with pc := .unlocked, outcome := .returned } ∧ ∀ a, ¬ s'.Holder a
  notHeld : ¬ o.Holds → unlock o s.files = some ({ o with outcome := .lockNotHeldError }, s.files)

/-! ## Paths under `/proc` -/

theorem slash_notMem_toDigits (n : Nat) : '/' ∉ Nat.toDigits 10 n := fun h =>
  absurd (Nat.isDigit_of_mem_toDigits (by decide) (by decide) h) (by decide)

theorem toDigits_inj {m n : Nat} (h : Nat.toDigits 10 m = Nat.toDigits 10 n) : m = n := by
  rw [← Nat.ofDigitChars_ten_toDigits (n := m), h, Nat.ofDigitChars_ten_toDigits]

theorem procPath_eq (p : Pid) (fd : Fd) : Files.procPath p fd =
    ['/', 'p', 'r', 'o', 'c', '/'] ++ (Nat.toDigits 10 p ++ '/' :: (['f', 'd', '/'] ++ Nat.toDigits 10 fd)) := by
  unfold Files.procPath
  simp only [String.reduceToList, List.append_assoc, List.cons_append, List.nil_append]

theorem procPath_inj {p p' : Pid} {fd fd' : Fd} (h : Files.procPath p fd = Files.procPath p' fd') :
    p = p' ∧ fd = fd' := by
  rw [procPath_eq, procPath_eq] at h
  have htail := List.append_cancel_left h
  have hp : Nat.toDigits 10 p = Nat.toDigits 10 p' := by
    rw [← Words.takeWhile_ne_append (slash_notMem_toDigits p), htail,
      Words.takeWhile_ne_append (slash_notMem_toDigits p')]
  obtain rfl := toDigits_inj hp
  have hfd := List.append_cancel_left (List.cons.inj (List.append_cancel_left htail)).2
  exact ⟨rfl, toDigits_inj hfd⟩

/-- The path of one descriptor does not go on after that of another. -/
theorem procPath_not_below (p p' : Pid) (fd fd' : Fd) : ¬ Files.procPath p fd ++ ['/'] <+: Files.procPath p' fd' := by
  intro h
  have hle := h.sublist.count_le '/'
  have hzero : ∀ n, (Nat.toDigits 10 n).count '/' = 0 := fun n => List.count_eq_zero.2 (slash_notMem_toDigits n)
  rw [procPath_eq, procPath_eq] at hle
  simp only [List.count_append, List.count_cons, hzero] at hle
  exact absurd hle (by decide)

theorem strip_eq_self {a c : Char} (ha : Str.isSpace a = false) (hc : Str.isSpace c = false) (l : List Char) :
    Str.strip (a :: (l ++ [c])) = a :: (l ++ [c]) := by
  unfold Str.strip
  rw [List.dropWhile_cons_of_neg (by simp [ha]), ← List.cons_append, List.rdropWhile_concat_neg _ _ _ (by simp [hc])]

/-- A path begins with a slash and ends with a digit. -/
theorem strip_procPath (p : Pid) (fd : Fd) : Str.strip (Files.procPath p fd) = Files.procPath p fd := by
  obtain ⟨l, c, hc⟩ : ∃ l c, Nat.toDigits 10 fd = l ++ [c] :=
    ⟨_, _, (List.dropLast_append_getLast (l := Nat.toDigits 10 fd) Nat.toDigits_ne_nil).symm⟩
  have hdigit : c.isDigit = true := by
    refine Nat.isDigit_of_mem_toDigits (b := 10) (n := fd) (by decide) (by decide) ?_
    rw [hc]
    exact List.mem_append_right _ List.mem_cons_self
  have hpath : Files.procPath p fd =
      '/' :: (['p', 'r', 'o', 'c', '/'] ++ Nat.toDigits 10 p ++ '/' :: (['f', 'd', '/'] ++ l) ++ [c]) := by
    rw [procPath_eq, hc]
    simp only [List.cons_append, List.nil_append, List.append_assoc]
  rw [hpath]
  exact strip_eq_self (by decide) (Str.not_isSpace_of_isDigit hdigit) _

/-- `os.stat` of a descriptor's path gives the file that is open. -/
theorem procStat_procPath (f : Files) (p : Pid) (fd : Fd) :
    f.procStat (Files.procPath p fd) =
      match Assoc.get (p, fd) f.fds with
      | some i => .ok i
      | none => .notFound := by
  have hfind : ∀ l : List ((Pid × Fd) × Ino),
      (l.find? fun e => Files.procPath e.1.1 e.1.2 = Files.procPath p fd).map Prod.snd = Assoc.get (p, fd) l := by
    intro l
    induction l with
    | nil => rfl
    | cons e l ih =>
      obtain ⟨⟨p', fd'⟩, i⟩ := e
      rw [Assoc.get_cons]
      by_cases he : (p', fd') = (p, fd)
      · cases he
        simp
      · have hne : ¬ Files.procPath p' fd' = Files.procPath p fd := fun h =>
          he (Prod.ext (procPath_inj h).1 (procPath_inj h).2)
        rw [List.find?_cons_of_neg (by simpa using hne), if_neg he, ih]
  rw [← hfind, Files.procStat]
  cases f.fds.find? fun e => Files.procPath e.1.1 e.1.2 = Files.procPath p fd with
  | some e => rfl
  | none =>
    refine if_neg fun hany => ?_
    obtain ⟨e, -, he⟩ := List.any_eq_true.1 hany
    exact procPath_not_below _ _ _ _ (List.isPrefixOf_iff_prefix.1 he)

/-! ## Calls on a held lock -/

/-- While the text leads back to the file, `lock()` is refused and changes nothing. -/
theorem lock_of_held {fd fd' : Fd} {ino i : Ino} {o : Lockfile} {f : Files} {p : Pid} (hpc : o.pc = .unlocked)
    (hl : f.link = some i) (ht : f.text i = Files.procPath p fd') (hg : Assoc.get (p, fd') f.fds = some i)
    (hfd : f.FdFree o.pid fd) : lock fd ino o f = some ({ o with pc := .unlocked, outcome := .lockHeldError }, f) := by
  have hne : f.text i ≠ [] := by
    rw [ht, procPath_eq]
    exact List.cons_ne_nil _ _
  have hproc : "/proc/".toList.isPrefixOf (f.text i) = true := by
    rw [ht, procPath_eq]
    generalize Nat.toDigits 10 p ++ '/' :: (['f', 'd', '/'] ++ Nat.toDigits 10 fd') = rest
    rfl
  have hstat : f.procStat (Str.strip (f.text i)) = .ok i := by
    rw [ht, strip_procPath, procStat_procPath, hg]
  have hclose : finish 9 fd ino { o with pc := .closeRead fd (f.text i) } (f.openFile o.pid fd i) =
      some ({ o with pc := .unlocked, outcome := .lockHeldError }, f) := by
    rw [finish]
    simp only [step, hproc, if_true, Option.bind_some, closeFd_openFile hfd]
    rw [finish]
    simp only [step, hl, Option.bind_some]
    rw [finish]
    simp only [step, hstat, if_true, Option.bind_some, Lockfile.raise]
    rw [finish]
  simp only [lock, startLock, hpc, Option.bind_some]
  rw [finish_create ino o 10 hl hfd, finish_read ino o 9 (get_openFile _ _ _) hne]
  exact hclose

theorem lock_of_locked {fd fd' : Fd} {ino : Ino} {o : Lockfile} {f : Files} (hpc : o.pc = .locked fd') :
    lock fd ino o f = some ({ o with outcome := .returned }, f) := by
  cases o
  cases hpc
  rfl

theorem unlock_of_unlocked {o : Lockfile} {f : Files} (hpc : o.pc = .unlocked) :
    unlock o f = some ({ o with outcome := .lockNotHeldError }, f) := by
  cases o
  cases hpc
  rfl

/-! ## Between the calls -/

/-- Between calls: the holder, if there is one, has the file open whose text is its path,
and nobody else has. -/
structure Sound (s : System) : Prop where
  between : ∀ n o, s.objs n = some o → o.pc = .unlocked ∨ o.Holds
  held : ∀ n o fd, s.objs n = some o → o.pc = .locked fd →
    ∃ i, s.files.link = some i ∧ s.files.text i = Files.procPath o.pid fd ∧ Assoc.get (o.pid, fd) s.files.fds = some i
  unique : ∀ a b, s.Holder a → s.Holder b → a = b
  opened : ∀ pid fd i, s.files.link = some i → Assoc.get (pid, fd) s.files.fds = some i →
    ∃ n o, s.objs n = some o ∧ o.pid = pid ∧ o.pc = .locked fd
  path : ∀ i, s.files.link = some i → ∃ pid fd, s.files.text i = Files.procPath pid fd

theorem sound_init : Sound System.init where
  between _ _ h := by cases h
  held _ _ _ h := by cases h
  unique _ _ h := by
    obtain ⟨o, ho, -⟩ := h
    cases ho
  opened _ _ _ h := by cases h
  path _ h := by cases h

section
variable {s : System} {n : Nat} {o : Lockfile} {fd : Fd} {ino : Ino}

/-- Where nobody has the lock, there is no lock file or a stale one. -/
theorem Sound.free (hs : Sound s) (hno : ∀ a, ¬ s.Holder a) : Free s.files := by
  intro i hl _
  obtain ⟨pid, fd, ht⟩ := hs.path i hl
  rw [ht, strip_procPath, procStat_procPath]
  cases hg : Assoc.get (pid, fd) s.files.fds with
  | none => exact .inl rfl
  | some j =>
    refine .inr ⟨j, ?_, rfl⟩
    rintro rfl
    obtain ⟨a, o, ho, -, hpc⟩ := hs.opened pid fd j hl hg
    exact hno a ⟨o, ho, fd, hpc⟩

theorem Sound.refused (hs : Sound s) (ho : s.objs n = some o) (hn : ¬ o.Holds) (hh : ∃ a, s.Holder a)
    (hfd : s.files.FdFree o.pid fd) : lock fd ino o s.files = some ({ o with outcome := .lockHeldError }, s.files) := by
  obtain ⟨a, o', ho', fd', hpc'⟩ := hh
  obtain ⟨i, hl, ht, hg⟩ := hs.held a o' fd' ho' hpc'
  have hpc := (hs.between n o ho).resolve_right hn
  rw [lock_of_held hpc hl ht hg hfd, ← hpc]

/-- The state after the object `n` has got the lock, and that after it has given it back. -/
def System.locked (s : System) (n : Nat) (o : Lockfile) (fd : Fd) (ino : Ino) : System :=
  s.set (s.files.taken o.pid fd ino) n { o with pc := .locked fd, outcome := .returned }

def System.unlocked (s : System) (n : Nat) (o : Lockfile) (fd : Fd) : System :=
  s.set (s.files.released o.pid fd) n { o with pc := .unlocked, outcome := .returned }

theorem objs_set_self (f : Files) (o₁ : Lockfile) : (s.set f n o₁).objs n = some o₁ := Function.update_self ..

theorem objs_set_of_ne {f : Files} {o₁ : Lockfile} {a : Nat} (ha : a ≠ n) : (s.set f n o₁).objs a = s.objs a :=
  Function.update_of_ne ha ..

theorem objs_set {f : Files} {o₁ o' : Lockfile} {a : Nat} (h : (s.set f n o₁).objs a = some o') :
    a = n ∧ o' = o₁ ∨ a ≠ n ∧ s.objs a = some o' := by
  by_cases ha : a = n
  · subst ha
    rw [objs_set_self] at h
    exact .inl ⟨rfl, (Option.some.inj h).symm⟩
  · rw [objs_set_of_ne ha] at h
    exact .inr ⟨ha, h⟩

theorem holder_set {f : Files} {o₁ : Lockfile} {a : Nat} :
    (s.set f n o₁).Holder a ↔ if a = n then o₁.Holds else s.Holder a := by
  unfold System.Holder
  by_cases ha : a = n
  · subst ha
    simp [objs_set_self]
  · simp [objs_set_of_ne ha, ha]

theorem holder_locked (hno : ∀ a, ¬ s.Holder a) (a : Nat) : (s.locked n o fd ino).Holder a ↔ a = n := by
  rw [System.locked, holder_set]
  split
  · rename_i h
    exact iff_of_true ⟨fd, rfl⟩ h
  · rename_i h
    exact iff_of_false (hno a) h

theorem holder_unlocked (hs : Sound s) (ho : s.Holder n) (a : Nat) : ¬ (s.unlocked n o fd).Holder a := by
  rw [System.unlocked, holder_set]
  split
  · rintro ⟨_, h⟩
    cases h
  · rename_i h
    exact fun ha => h (hs.unique a n ha ho)

theorem taken_text (f : Files) (pid : Pid) (fd : Fd) (ino : Ino) :
    (f.taken pid fd ino).text (f.link.getD ino) = Files.procPath pid fd := by
  simp [Files.taken, Files.writeStart, Files.openTruncated]

theorem get_taken (f : Files) (pid : Pid) (fd : Fd) (ino : Ino) (k : Pid × Fd) :
    Assoc.get k (f.taken pid fd ino).fds = if (pid, fd) = k then some (f.link.getD ino) else Assoc.get k f.fds :=
  Assoc.get_cons ..

theorem get_closeFd (f : Files) (pid : Pid) (fd : Fd) (k : Pid × Fd) :
    Assoc.get k (f.closeFd pid fd).fds = if k = (pid, fd) then none else Assoc.get k f.fds := by
  rw [Files.closeFd, Assoc.get_filter fun k => decide (k ≠ (pid, fd))]
  simp

theorem get_exit (f : Files) (pid : Pid) (k : Pid × Fd) :
    Assoc.get k (f.exit pid).fds = if k.1 = pid then none else Assoc.get k f.fds := by
  refine (Assoc.get_filter (fun k => decide (k.1 ≠ pid)) k f.fds).trans ?_
  simp

theorem Sound.locked (hs : Sound s) (hno : ∀ a, ¬ s.Holder a) (hino : s.files.InoFree ino) :
    Sound (s.locked n o fd ino) := by
  refine ⟨fun a o' ho' => ?_, fun a o' fd' ho' hpc => ?_, fun a b ha hb => ?_, fun pid fd' i hl hg => ?_,
    fun i hl => ?_⟩
  · rcases objs_set ho' with ⟨-, rfl⟩ | ⟨-, ho'⟩
    · exact .inr ⟨fd, rfl⟩
    · exact hs.between a o' ho'
  · rcases objs_set ho' with ⟨-, rfl⟩ | ⟨-, ho'⟩
    · cases hpc
      exact ⟨_, Files.taken_link .., taken_text .., (get_taken ..).trans (if_pos rfl)⟩
    · exact absurd ⟨o', ho', fd', hpc⟩ (hno a)
  · rw [holder_locked hno] at ha hb
    rw [ha, hb]
  · obtain rfl := Option.some.inj ((Files.taken_link ..).symm.trans hl)
    have hg := (get_taken ..).symm.trans hg
    split at hg
    · rename_i hk
      cases hk
      exact ⟨n, _, objs_set_self .., rfl, rfl⟩
    · -- Nobody had the old file open, and nobody has a new one.
      cases hlink : s.files.link with
      | none =>
        rw [hlink] at hg
        exact absurd (Assoc.mem_of_get hg) hino.2
      | some j =>
        rw [hlink] at hg
        obtain ⟨a, o', ho', -, hpc⟩ := hs.opened pid fd' j hlink hg
        exact absurd ⟨o', ho', fd', hpc⟩ (hno a)
  · obtain rfl := Option.some.inj ((Files.taken_link ..).symm.trans hl)
    exact ⟨o.pid, fd, taken_text ..⟩

theorem Sound.unlocked (hs : Sound s) (ho : s.Holder n) : Sound (s.unlocked n o fd) := by
  have none_left : ∀ a, ¬ (s.unlocked n o fd).Holder a := holder_unlocked hs ho
  refine ⟨fun a o' ho' => ?_, fun a o' fd' ho' hpc => absurd ⟨o', ho', fd', hpc⟩ (none_left a),
    fun a _ ha _ => absurd ha (none_left a), fun _ _ i hl => ?_, fun i hl => ?_⟩
  · rcases objs_set ho' with ⟨-, rfl⟩ | ⟨-, ho'⟩
    · exact .inl rfl
    · exact hs.between a o' ho'
  · cases (Files.released_link ..).symm.trans hl
  · cases (Files.released_link ..).symm.trans hl

/-- Objects come and change, but none that has the lock. -/
theorem Sound.objects (hs : Sound s) {o₁ : Lockfile} (hpc : ∀ fd, o₁.pc = .locked fd ↔ o.pc = .locked fd)
    (hb : o₁.pc = .unlocked ∨ o₁.Holds) (hpid : o₁.pid = o.pid)
    (ho : s.objs n = some o ∨ s.objs n = none ∧ o.pc = .unlocked) : Sound (s.set s.files n o₁) := by
  have hold : ∀ fd, o₁.pc = .locked fd → s.objs n = some o := by
    intro fd hl
    rcases ho with ho | ⟨-, hu⟩
    · exact ho
    · rw [(hpc fd).1 hl] at hu
      cases hu
  have holder : ∀ {a}, (s.set s.files n o₁).Holder a → s.Holder a := by
    rintro a ⟨o', ho', fd', hl⟩
    rcases objs_set ho' with ⟨rfl, rfl⟩ | ⟨-, ho'⟩
    · exact ⟨o, hold fd' hl, fd', (hpc fd').1 hl⟩
    · exact ⟨o', ho', fd', hl⟩
  refine ⟨fun a o' ho' => ?_, fun a o' fd' ho' hl => ?_, fun a b ha hb => hs.unique a b (holder ha) (holder hb),
    fun pid fd' i hl hg => ?_, hs.path⟩
  · rcases objs_set ho' with ⟨-, rfl⟩ | ⟨-, ho'⟩
    · exact hb
    · exact hs.between a o' ho'
  · rcases objs_set ho' with ⟨rfl, rfl⟩ | ⟨-, ho'⟩
    · rw [hpid]
      exact hs.held a o fd' (hold fd' hl) ((hpc fd').1 hl)
    · exact hs.held a o' fd' ho' hl
  -- Who had the file open was an object that holds, and still is.
  · obtain ⟨a, o', ho', hp, hl⟩ := hs.opened pid fd' i hl hg
    by_cases ha : a = n
    · subst ha
      rcases ho with ho | ⟨hnone, -⟩
      · obtain rfl := Option.some.inj (ho.symm.trans ho')
        exact ⟨a, o₁, objs_set_self .., hpid.trans hp, (hpc fd').2 hl⟩
      · rw [hnone] at ho'
        cases ho'
    · exact ⟨a, o', (objs_set_of_ne ha).trans ho', hp, hl⟩

theorem holder_die {pid : Pid} {a : Nat} :
    System.Holder ⟨s.files.exit pid, fun n => (s.objs n).filter (·.pid ≠ pid)⟩ a ↔
      ∃ o, s.objs a = some o ∧ o.pid ≠ pid ∧ o.Holds := by
  simp [System.Holder, Option.filter_eq_some_iff, and_assoc]

theorem Sound.die (hs : Sound s) (pid : Pid) :
    Sound ⟨s.files.exit pid, fun n => (s.objs n).filter (·.pid ≠ pid)⟩ := by
  have old : ∀ {a o'}, (s.objs a).filter (fun o => decide (o.pid ≠ pid)) = some o' →
      s.objs a = some o' ∧ o'.pid ≠ pid := by
    intro a o' h
    obtain ⟨h, hp⟩ := Option.filter_eq_some_iff.1 h
    exact ⟨h, of_decide_eq_true hp⟩
  refine ⟨fun a o' ho' => hs.between a o' (old ho').1, fun a o' fd' ho' hl => ?_, fun a b ha hb => ?_,
    fun p fd' i hl hg => ?_, hs.path⟩
  · obtain ⟨ho', hp⟩ := old ho'
    obtain ⟨i, hi, ht, hg⟩ := hs.held a o' fd' ho' hl
    exact ⟨i, hi, ht, (get_exit ..).trans ((if_neg hp).trans hg)⟩
  · obtain ⟨o, ho, -, hh⟩ := holder_die.1 ha
    obtain ⟨o', ho', -, hh'⟩ := holder_die.1 hb
    exact hs.unique a b ⟨o, ho, hh⟩ ⟨o', ho', hh'⟩
  · have hg := (get_exit ..).symm.trans hg
    split at hg
    · cases hg
    · rename_i hp
      obtain ⟨a, o', ho', rfl, hl'⟩ := hs.opened p fd' i hl hg
      exact ⟨a, o', Option.filter_eq_some_iff.2 ⟨ho', decide_eq_true hp⟩, rfl, hl'⟩

/-- Other files' descriptors come and go. -/
theorem Sound.others (hs : Sound s) {f : Files} (hl : f.link = s.files.link) (ht : f.text = s.files.text)
    (hg : ∀ k i, s.files.link = some i → (Assoc.get k f.fds = some i ↔ Assoc.get k s.files.fds = some i)) :
    Sound { s with files := f } := by
  refine ⟨hs.between, fun a o fd ho hpc => ?_, hs.unique, fun pid fd i hi hget => ?_, fun i hi => ?_⟩
  · obtain ⟨i, hi, htext, hget⟩ := hs.held a o fd ho hpc
    exact ⟨i, hl.trans hi, (congrFun ht i).trans htext, (hg _ i hi).2 hget⟩
  · have hi := hl.symm.trans hi
    exact hs.opened pid fd i hi ((hg _ i hi).1 hget)
  · obtain ⟨pid, fd, htext⟩ := hs.path i (hl.symm.trans hi)
    exact ⟨pid, fd, (congrFun ht i).trans htext⟩

/-! ## Every call -/

/-- What `lock()` comes to on any live object. -/
theorem Sound.lock (hs : Sound s) (ho : s.objs n = some o) (hfd : s.files.FdFree o.pid fd)
    (hino : s.files.InoFree ino) :
    (∃ fd', o.pc = .locked fd' ∧ Lock.lock fd ino o s.files = some ({ o with outcome := .returned }, s.files)) ∨
    (o.pc = .unlocked ∧ (∃ a, s.Holder a) ∧
      Lock.lock fd ino o s.files = some ({ o with outcome := .lockHeldError }, s.files)) ∨
    ((∀ a, ¬ s.Holder a) ∧ Lock.lock fd ino o s.files =
      some ({ o with pc := .locked fd, outcome := .returned }, s.files.taken o.pid fd ino)) := by
  rcases hs.between n o ho with hpc | ⟨fd', hpc⟩
  · by_cases hh : ∃ a, s.Holder a
    · refine .inr (.inl ⟨hpc, hh, hs.refused ho ?_ hh hfd⟩)
      rintro ⟨fd', hl⟩
      rw [hpc] at hl
      cases hl
    · push Not at hh
      exact .inr (.inr ⟨hh, lock_of_free hpc (hs.free hh) hfd hino⟩)
  · exact .inl ⟨fd', hpc, lock_of_locked hpc⟩

/-- What `unlock()` comes to on any live object. -/
theorem Sound.unlock (hs : Sound s) (ho : s.objs n = some o) :
    (∃ fd, o.pc = .locked fd ∧ Lock.unlock o s.files =
      some ({ o with pc := .unlocked, outcome := .returned }, s.files.released o.pid fd)) ∨
    (o.pc = .unlocked ∧ Lock.unlock o s.files = some ({ o with outcome := .lockNotHeldError }, s.files)) := by
  rcases hs.between n o ho with hpc | ⟨fd, hpc⟩
  · exact .inr ⟨hpc, unlock_of_unlocked hpc⟩
  · obtain ⟨i, hl, -⟩ := hs.held n o fd ho hpc
    exact .inl ⟨fd, hpc, unlock_of_locked hpc (by rw [hl]; exact Option.some_ne_none i)⟩

/-- A call that only tells its outcome. -/
theorem Sound.told (hs : Sound s) (ho : s.objs n = some o) (outcome : Outcome) :
    Sound (s.set s.files n { o with outcome := outcome }) :=
  hs.objects (o := o) (fun _ => Iff.rfl) (hs.between n o ho) rfl (.inl ho)

end

/-- What a call does to a system between calls. -/
inductive Effect (s : System) : Call → System → Prop
  | create {n pid} (hn : s.objs n = none) :
    Effect s (.create n pid) (s.set s.files n { pid := pid, pc := .unlocked, outcome := .returned })
  | lock {n fd ino o} (ho : s.objs n = some o) (hno : ∀ a, ¬ s.Holder a) (hino : s.files.InoFree ino) :
    Effect s (.lock n fd ino) (s.locked n o fd ino)
  | lockTold {n fd ino o outcome} (ho : s.objs n = some o) (hh : ∃ a, s.Holder a) :
    Effect s (.lock n fd ino) (s.set s.files n { o with outcome := outcome })
  | unlock {n o fd} (ho : s.objs n = some o) (hh : s.Holder n) : Effect s (.unlock n) (s.unlocked n o fd)
  | unlockTold {n o outcome} (ho : s.objs n = some o) (hh : ¬ s.Holder n) :
    Effect s (.unlock n) (s.set s.files n { o with outcome := outcome })
  | die {pid} : Effect s (.die pid) ⟨s.files.exit pid, fun n => (s.objs n).filter (·.pid ≠ pid)⟩
  | openOther {pid fd ino} (hfd : s.files.FdFree pid fd) (hl : s.files.link ≠ some ino) :
    Effect s (.openOther pid fd ino) { s with files := s.files.openFile pid fd ino }
  | closeOther {pid fd i} (hg : Assoc.get (pid, fd) s.files.fds = some i) (hl : s.files.link ≠ some i) :
    Effect s (.closeOther pid fd) { s with files := s.files.closeFd pid fd }

theorem effect_of_call {s s' : System} {c : Call} (hs : Sound s) (h : call c s = some s') : Effect s c s' := by
  cases c with
  | create n pid =>
    simp only [call] at h
    split at h
    · rename_i hn
      cases h
      exact .create hn
    · cases h
  | lock n fd ino =>
    obtain ⟨o, ho, h⟩ := Option.bind_eq_some_iff.1 h
    split at h
    · rename_i hfree
      obtain ⟨r, hr, rfl⟩ := Option.map_eq_some_iff.1 h
      rcases hs.lock ho hfree.1 hfree.2 with ⟨fd', hpc, hl⟩ | ⟨-, hh, hl⟩ | ⟨hno, hl⟩ <;> cases hl.symm.trans hr
      · exact .lockTold ho ⟨n, o, ho, fd', hpc⟩
      · exact .lockTold ho hh
      · exact .lock ho hno hfree.2
    · cases h
  | unlock n =>
    obtain ⟨o, ho, h⟩ := Option.bind_eq_some_iff.1 h
    obtain ⟨r, hr, rfl⟩ := Option.map_eq_some_iff.1 h
    rcases hs.unlock ho with ⟨fd, hpc, hl⟩ | ⟨hpc, hl⟩ <;> cases hl.symm.trans hr
    · exact .unlock ho ⟨o, ho, fd, hpc⟩
    · refine .unlockTold ho ?_
      rintro ⟨o', ho', fd, hl⟩
      rw [← Option.some.inj (ho.symm.trans ho'), hpc] at hl
      cases hl
  | die pid =>
    cases h
    exact .die
  | openOther pid fd ino =>
    simp only [call] at h
    split at h
    · rename_i hfree
      cases h
      exact .openOther hfree.1 hfree.2
    · cases h
  | closeOther pid fd =>
    obtain ⟨i, hg, h⟩ := Option.bind_eq_some_iff.1 h
    split at h
    · rename_i hl
      cases h
      exact .closeOther hg hl
    · cases h

theorem sound_call {s s' : System} {c : Call} (hs : Sound s) (h : call c s = some s') : Sound s' := by
  cases effect_of_call hs h with
  | create hn =>
    exact hs.objects (o := { pid := _, pc := .unlocked, outcome := .returned }) (fun _ => Iff.rfl) (.inl rfl) rfl
      (.inr ⟨hn, rfl⟩)
  | lock ho hno hino => exact hs.locked hno hino
  | lockTold ho | unlockTold ho => exact hs.told ho _
  | unlock ho hh => exact hs.unlocked hh
  | die => exact hs.die _
  | openOther hfd hl =>
    refine hs.others rfl rfl fun k i hi => ?_
    rw [Files.openFile, Assoc.get_cons]
    split
    · rename_i hk
      subst hk
      rw [hfd]
      refine iff_of_false (fun he => hl (hi.trans ?_)) (Option.some_ne_none i).symm
      exact he.symm
    · rfl
  | closeOther hg hl =>
    refine hs.others rfl rfl fun k i hi => ?_
    rw [get_closeFd]
    split
    · rename_i hk
      subst hk
      rw [hg]
      exact iff_of_false (Option.some_ne_none i).symm fun he => hl (hi.trans he.symm)
    · rfl

/-! ## The mutex that the files are -/

theorem represents_init : Represents Mutex.init System.init := by
  refine ⟨fun _ => rfl, fun n => iff_of_false (by simp [Mutex.init]) ?_⟩
  rintro ⟨o, ho, -⟩
  cases ho

section
variable {m : Mutex} {s : System} {n : Nat} {o o₁ : Lockfile}

theorem Represents.none (hr : Represents m s) : m.holder = none ↔ ∀ a, ¬ s.Holder a := by
  rw [Option.eq_none_iff_forall_ne_some]
  exact forall_congr' fun a => not_congr (hr.holder a)

/-- An object keeps its process. -/
theorem Represents.pids (hr : Represents m s) (ho : s.objs n = some o) (hpid : o₁.pid = o.pid) (f : Files) (a : Nat) :
    m.pid a = ((s.set f n o₁).objs a).map Lockfile.pid := by
  by_cases ha : a = n
  · subst ha
    rw [objs_set_self, Option.map_some, hpid, hr.pid, ho, Option.map_some]
  · rw [objs_set_of_ne ha, hr.pid]

theorem Represents.told (hr : Represents m s) (ho : s.objs n = some o) (outcome : Outcome) :
    Represents m (s.set s.files n { o with outcome := outcome }) := by
  refine ⟨hr.pids ho (by rfl) s.files, fun a => ?_⟩
  rw [hr.holder, holder_set]
  split
  · rename_i ha
    subst ha
    exact ⟨fun ⟨o', ho', hh⟩ => Option.some.inj (ho.symm.trans ho') ▸ hh, fun hh => ⟨o, ho, hh⟩⟩
  · rfl

end

/-- A new object holds nothing. -/
theorem Represents.created {m : Mutex} {s : System} {n : Nat} (hr : Represents m s) (hn : s.objs n = Option.none)
    (pid : Nat) :
    Represents (m.next (.create n pid)) (s.set s.files n { pid := pid, pc := .unlocked, outcome := .returned }) := by
  refine ⟨fun a => ?_, fun a => ?_⟩
  · by_cases ha : a = n
    · subst ha
      simp [Mutex.next, objs_set_self]
    · simp [Mutex.next, objs_set_of_ne ha, ha, hr.pid]
  · rw [holder_set]
    refine (hr.holder a).trans ?_
    split
    · rename_i ha
      subst ha
      refine iff_of_false ?_ ?_
      · rintro ⟨o, ho, -⟩
        rw [hn] at ho
        cases ho
      · rintro ⟨fd, hh⟩
        cases hh
    · rfl

/-- The objects of a process that dies are gone, and the lock with the one that held it. -/
theorem Represents.died {m : Mutex} {s : System} (hr : Represents m s) (pid : Nat) :
    Represents (m.next (.die pid)) ⟨s.files.exit pid, fun n => (s.objs n).filter (·.pid ≠ pid)⟩ := by
  refine ⟨fun a => ?_, fun a => ?_⟩
  · simp only [Mutex.next, hr.pid]
    cases s.objs a with
    | none => rfl
    | some o => by_cases hp : o.pid = pid <;> simp [Option.filter, hp]
  · rw [holder_die]
    simp only [Mutex.next, Option.filter_eq_some_iff, hr.holder, hr.pid]
    constructor
    · rintro ⟨⟨o, ho, hh⟩, hp⟩
      rw [ho] at hp
      exact ⟨o, ho, by simpa using hp, hh⟩
    · rintro ⟨o, ho, hp, hh⟩
      exact ⟨⟨o, ho, hh⟩, by simpa [ho] using hp⟩

/-- The system follows the mutex. -/
theorem represents_call {m : Mutex} {s s' : System} {c : Call} (hs : Sound s) (hr : Represents m s)
    (h : call c s = some s') : Represents (m.next c) s' := by
  cases effect_of_call hs h with
  | @create n pid hn => exact hr.created hn pid
  | @lock n fd ino o ho hno =>
    refine ⟨hr.pids ho (by rfl) _, fun a => ?_⟩
    rw [holder_locked hno, Mutex.next, hr.none.2 hno]
    simp [eq_comm]
  | @lockTold n fd ino o outcome ho hh =>
    obtain ⟨a, ha⟩ := hh
    have hsome := (hr.holder a).2 ha
    have hnext : m.next (.lock n fd ino) = m := by
      rw [Mutex.next, hsome, Option.some_or, ← hsome]
    rw [hnext]
    exact hr.told ho outcome
  | @unlock n o fd ho hh =>
    refine ⟨hr.pids ho (by rfl) _, fun a => ?_⟩
    refine iff_of_false ?_ (holder_unlocked hs hh a)
    rw [Mutex.next, (hr.holder n).2 hh]
    simp [Option.filter]
  | @unlockTold n o outcome ho hh =>
    have hother : m.holder.filter (· ≠ n) = m.holder := by
      cases hm : m.holder with
      | none => rfl
      | some a => exact Option.filter_eq_some_iff.2 ⟨rfl, decide_eq_true fun he => hh ((hr.holder n).1 (he ▸ hm))⟩
    have hnext : m.next (.unlock n) = m := by
      rw [Mutex.next, hother]
    rw [hnext]
    exact hr.told ho outcome
  | @die pid => exact hr.died pid
  | openOther => exact ⟨hr.pid, hr.holder⟩
  | closeOther => exact ⟨hr.pid, hr.holder⟩

/-- What the calls come to, from what the files say. -/
theorem Sound.behaves {s : System} {n : Nat} {o : Lockfile} (hs : Sound s) (ho : s.objs n = some o) :
    Behaves s n o where
  refused _ _ hfd _ hn hh := hs.refused ho hn hh hfd
  taken fd ino hfd hino hno := by
    have hpc : o.pc = .unlocked := (hs.between n o ho).resolve_right fun hh => hno n ⟨o, ho, hh⟩
    refine ⟨s.locked n o fd ino, ?_, Option.some_ne_none _, objs_set_self .., holder_locked hno⟩
    rw [call, ho, Option.bind_some, if_pos ⟨hfd, hino⟩, lock_of_free hpc (hs.free hno) hfd hino]
    rfl
  again fd ino hh := by
    obtain ⟨fd', hpc⟩ := hh
    exact lock_of_locked hpc
  released hh := by
    obtain ⟨fd, hpc⟩ := hh
    obtain ⟨i, hl, -⟩ := hs.held n o fd ho hpc
    refine ⟨s.unlocked n o fd, ?_, rfl, objs_set_self .., holder_unlocked hs ⟨o, ho, fd, hpc⟩⟩
    rw [call, ho, Option.bind_some, unlock_of_locked hpc (by rw [hl]; exact Option.some_ne_none i)]
    rfl
  notHeld hn := unlock_of_unlocked ((hs.between n o ho).resolve_right hn)

/-- The lock file is a mutex that death releases: after any calls and deaths the holder is the one
the mutex has, and each call on a live object comes to what it comes to there. -/
theorem simulates_mutex {tr : List (System × Call)} {s : System} (h : CallRun tr s) :
    Represents ((tr.map Prod.snd).foldl Mutex.next Mutex.init) s ∧ ∀ n o, s.objs n = some o → Behaves s n o := by
  have hs : Sound s := h.always Sound (fun _ _ _ hi hc => sound_call hi hc) sound_init
  refine ⟨?_, fun n o ho => hs.behaves ho⟩
  induction h with
  | nil => exact represents_init
  | snoc hr hc ih =>
    have hs' := hr.always Sound (fun _ _ _ hi hc => sound_call hi hc) sound_init
    rw [List.map_append, List.foldl_append]
    exact represents_call hs' (ih hs') hc

/-- The holder dies, and its numbers are another's: the file is stale. -/
def reusedNumbers : List Call :=
  [.create 0 100, .lock 0 3 7, .die 100, .create 1 100, .openOther 100 3 9, .create 2 200, .lock 2 4 8]

theorem reused_numbers_taken : ∃ tr s, CallRun tr s ∧ s.Holder 2 ∧
    Represents ((tr.map Prod.snd).foldl Mutex.next Mutex.init) s ∧ ∀ n o, s.objs n = some o → Behaves s n o := by
  obtain ⟨⟨tr, s⟩, hr, hpc⟩ : ∃ r ∈ runEvents call reusedNumbers System.init,
      (r.2.objs 2).map Lockfile.pc = some (.locked 4) := by decide
  have hrun : CallRun tr s := run_of_events hr
  obtain ⟨o, ho, hl⟩ := Option.map_eq_some_iff.1 hpc
  exact ⟨tr, s, hrun, ⟨o, ho, 4, hl⟩, simulates_mutex hrun⟩

end LogSubmitter.Lock

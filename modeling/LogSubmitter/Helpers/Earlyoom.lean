import LogSubmitter.Helpers.Extract
/-!
# Logs of killed processes

`handle_log` names a log after the process that was killed. A process chooses its name, and
what the name has of slashes and dots is part of a path then.
-/
namespace LogSubmitter.Earlyoom

open Lib Path
open Helpers (Helper File Listing extension_append)

/-! ## Directories and files -/

/-- The directories, by the names on the way to them, and the files in them. -/
structure Tree where
  isDir : List Text → Bool
  /-- A file can be created in the directory. -/
  writable : List Text → Bool
  files : List Text → Listing

/-- Where a path leads from a directory, `none` where there is no directory on the way. -/
def follow (tree : Tree) : List Text → List Text → Option (List Text)
  | dir, [] => some dir
  | dir, part :: rest =>
    if Blank part then follow tree dir rest
    else if part = up then follow tree dir.dropLast rest
    else if tree.isDir (dir ++ [part]) then follow tree (dir ++ [part]) rest
    else none

/-- The directory of a file that a path names, if there is one, and its name. -/
def locate (tree : Tree) (cwd : List Text) (path : Text) : Option (List Text × Text) :=
  (follow tree (if isAbsolute path then [] else cwd) (parts path).dropLast).map fun dir => (dir, basename path)

/-- A file that has just been written. -/
def newFile (mtime : Int) : File := { readable := true, mtime := some mtime }

/-- The tree with a new file, in place of the one of that name if there is one. -/
def Tree.add (tree : Tree) (dir : List Text) (name : Text) (mtime : Int) : Tree :=
  { tree with
    files := fun d => if d = dir then (tree.files d).insert (String.ofList name) (newFile mtime) else tree.files d }

/-- `open(path, 'w')`, `none` for an `OSError`. -/
def Tree.create (tree : Tree) (cwd : List Text) (path : Text) (mtime : Int) : Option Tree :=
  match locate tree cwd path with
  | none => none
  | some (dir, name) =>
    if tree.isDir (dir ++ [name]) ∨ tree.writable dir = false then none else some (tree.add dir name mtime)

/-! ## `handle_log` -/

/-- What a process may be named. -/
structure ProcessName where
  text : Text
  length : text.length ≤ 15
  no_null : '\x00' ∉ text

/-- `f'{ts}.json'` -/
def stamped (ts : Nat) : Text := Nat.toDigits 10 ts ++ ".json".toList

/-- The name of the log, with that of the process if there is one. -/
def fname (comm : Text) (ts : Nat) : Text := if comm = [] then stamped ts else comm ++ ' ' :: stamped ts

/-- `EarlyoomHelper.handle_log`. What it writes into the file is left out. -/
def handleLog (tree : Tree) (cwd : List Text) (base : Text) (comm : ProcessName) (ts : Nat) : Option Tree :=
  tree.create cwd (Helpers.logPath base "earlyoom".toList (fname comm.text ts) "pending".toList) ts

def helper : Helper := { name := "earlyoom", validExtensions := [".json"] }

/-! ## Where the log is -/

/-- One file is created, in that directory, and the helper lists it. -/
def Stored (tree : Tree) (dir : List Text) (result : Option Tree) : Prop :=
  ∃ after name, result = some after ∧ name ∉ (tree.files dir).keys ∧
    (∀ d, (after.files d).keys = if d = dir then (tree.files d).keys ++ [name] else (tree.files d).keys) ∧
    name ∈ (helper.listType (after.files dir)).map Prod.fst

/-- Nothing has that name. -/
def Free (tree : Tree) (dir : List Text) (name : Text) : Prop :=
  String.ofList name ∉ (tree.files dir).keys ∧ tree.isDir (dir ++ [name]) = false

theorem follow_append (tree : Tree) (dir : List Text) (a b : List Text) :
    follow tree dir (a ++ b) = (follow tree dir a).bind fun d => follow tree d b := by
  induction a generalizing dir with
  | nil => rfl
  | cons part a ih =>
    rw [List.cons_append, follow, follow]
    split
    · exact ih dir
    · split
      · exact ih dir.dropLast
      · split
        · exact ih (dir ++ [part])
        · rfl

theorem parts_no_slash {b : Text} (h : '/' ∉ b) : parts b = [b] := by
  have hone : parts (['/'].intercalate [b]) = [b] := parts_intercalate (by simpa using h) (by simp)
  rwa [List.intercalate_singleton] at hone

/-- A text without slashes goes on with the last part. -/
theorem parts_append (a : Text) {b : Text} (h : '/' ∉ b) :
    parts (a ++ b) = (parts a).dropLast ++ [basename a ++ b] := by
  induction a with
  | nil => exact parts_no_slash h
  | cons c a ih =>
    have hne : parts a ≠ [] := List.splitOn_ne_nil '/' a
    unfold basename at ih ⊢
    by_cases hc : c = '/'
    · subst hc
      rw [List.cons_append, parts_cons_slash, parts_cons_slash, ih, List.dropLast_cons_of_ne_nil hne,
        List.getLast?_cons_of_ne_nil hne, List.cons_append]
    · have hcons : ∀ x : Text, parts (c :: x) = (parts x).modifyHead (List.cons c) := by
        intro x
        unfold parts
        rw [List.splitOn_cons_eq_if_modifyHead, if_neg (by simpa using hc)]
      rw [List.cons_append, hcons, hcons, ih]
      obtain ⟨first, rest, hparts⟩ := List.exists_cons_of_ne_nil hne
      rw [hparts]
      cases rest <;> simp

/-! ### The name of the log -/

/-- What is added to the name of the process. -/
def ending (comm : Text) (ts : Nat) : Text := if comm = [] then stamped ts else ' ' :: stamped ts

theorem fname_eq (comm : Text) (ts : Nat) : fname comm ts = comm ++ ending comm ts := by
  unfold fname ending
  split
  · rename_i h
    rw [h, List.nil_append]
  · rfl

theorem digit_ne {ts : Nat} {c : Char} (h : c ∈ Nat.toDigits 10 ts) : c ≠ '.' ∧ c ≠ '/' := by
  have hdigit : c.isDigit = true := Nat.isDigit_of_mem_toDigits (by decide) (by decide) h
  constructor
  · rintro rfl
    exact absurd hdigit (by decide)
  · rintro rfl
    exact absurd hdigit (by decide)

theorem slash_not_mem_ending (comm : Text) (ts : Nat) : '/' ∉ ending comm ts := by
  have hstamped : '/' ∉ stamped ts := by
    unfold stamped
    rw [List.mem_append]
    rintro (h | h)
    · exact (digit_ne h).2 rfl
    · exact absurd h (by decide)
  unfold ending
  split
  · exact hstamped
  · simpa using hstamped

/-- The last part of the path. -/
def lastName (comm : Text) (ts : Nat) : Text := basename comm ++ ending comm ts

theorem parts_fname (comm : Text) (ts : Nat) : parts (fname comm ts) = (parts comm).dropLast ++ [lastName comm ts] := by
  rw [fname_eq]
  exact parts_append comm (slash_not_mem_ending comm ts)

theorem slash_not_mem_lastName (comm : Text) (ts : Nat) : '/' ∉ lastName comm ts := by
  have hmem : lastName comm ts ∈ parts (fname comm ts) := by simp [parts_fname]
  exact no_slash_of_mem_parts hmem

/-- It ends in the time stamp and the extension. -/
theorem lastName_eq (comm : Text) (ts : Nat) :
    ∃ start, lastName comm ts = (start ++ Nat.toDigits 10 ts) ++ ".json".toList := by
  unfold lastName ending stamped
  by_cases h : comm = []
  · exact ⟨basename comm, by simp [h]⟩
  · exact ⟨basename comm ++ [' '], by simp [h]⟩

/-- A dot at its start is one of the name of the process. -/
theorem head_lastName (comm : Text) (ts : Nat) :
    (lastName comm ts).head? = some '.' ↔ (basename comm).head? = some '.' := by
  obtain ⟨c, cs, hcons⟩ := List.exists_cons_of_ne_nil (@Nat.toDigits_ne_nil ts 10)
  have hdigit : c ≠ '.' := (digit_ne (by rw [hcons]; exact List.mem_cons_self)).1
  unfold lastName
  cases hb : basename comm with
  | nil =>
    unfold ending stamped
    split <;> simp [hcons, hdigit]
  | cons first rest => simp

theorem lastName_listed (comm : Text) (ts : Nat) :
    helper.filterLog (String.ofList (lastName comm ts)) = true ↔ (basename comm).head? ≠ some '.' := by
  obtain ⟨start, hname⟩ := lastName_eq comm ts
  have hbase : Helpers.basename (lastName comm ts) = lastName comm ts := by
    have hall : ∀ c ∈ (lastName comm ts).reverse, decide (c ≠ '/') = true := by
      intro c hc
      have hne : c ≠ '/' := by
        rintro rfl
        exact slash_not_mem_lastName comm ts (List.mem_reverse.1 hc)
      exact decide_eq_true hne
    unfold Helpers.basename
    rw [List.takeWhile_eq_self_iff.2 hall, List.reverse_reverse]
  have hextension : Helpers.extension (lastName comm ts) = ".json".toList := by
    obtain ⟨c, cs, hcons⟩ := List.exists_cons_of_ne_nil (@Nat.toDigits_ne_nil ts 10)
    have hmem : c ∈ Nat.toDigits 10 ts := by simp [hcons]
    rw [hname]
    exact extension_append (by decide) ⟨c, List.mem_append_right start hmem, (digit_ne hmem).1⟩
  have hhidden : Helpers.hidden (String.ofList (lastName comm ts)) = true ↔ (basename comm).head? = some '.' := by
    rw [← head_lastName comm ts]
    unfold Helpers.hidden
    have hdot : ".".toList = ['.'] := rfl
    rw [hdot, List.isPrefixOf_iff_prefix, String.toList_ofList]
    exact List.singleton_prefix_iff_head?_eq_some
  have hvalid : helper.validExtensions.contains (String.ofList ".json".toList) = true := by decide
  unfold Helper.filterLog
  rw [String.toList_ofList, hbase, hextension, hvalid, Bool.or_true, Ne, ← hhidden]
  split <;> simp_all

/-! ### The file -/

theorem handleLog_eq {tree : Tree} {cwd dir : List Text} {base : Text}
    (hdir : follow tree (if isAbsolute (Helpers.directory base "earlyoom".toList "pending".toList) then [] else cwd)
      (parts (Helpers.directory base "earlyoom".toList "pending".toList)) = some dir) (comm : ProcessName) (ts : Nat) :
    handleLog tree cwd base comm ts = (follow tree dir (parts comm.text).dropLast).bind fun d =>
      if tree.isDir (d ++ [lastName comm.text ts]) ∨ tree.writable d = false then none
      else some (tree.add d (lastName comm.text ts) ts) := by
  have hparts : parts (Helpers.logPath base "earlyoom".toList (fname comm.text ts) "pending".toList) =
      parts (Helpers.directory base "earlyoom".toList "pending".toList) ++ (parts comm.text).dropLast ++
        [lastName comm.text ts] := by
    unfold Helpers.logPath
    rw [parts_append_slash, parts_fname, List.append_assoc]
  unfold handleLog Tree.create locate basename
  rw [Helpers.isAbsolute_logPath, hparts, List.dropLast_concat, List.getLast?_concat, follow_append, hdir]
  simp only [Option.bind_some, Option.getD_some]
  cases follow tree dir (parts comm.text).dropLast <;> rfl

theorem listed_insert (listing : Listing) (name : String) (mtime : Int) :
    name ∈ (helper.listType (listing.insert name (newFile mtime))).map Prod.fst ↔ helper.filterLog name = true := by
  constructor
  · intro h
    obtain ⟨log, hlog, rfl⟩ := List.mem_map.1 h
    exact (Bool.and_eq_true_iff.1 (List.mem_filter.1 hlog).2).1
  · intro h
    have hmem : (name, newFile mtime) ∈ (listing.insert name (newFile mtime)).items :=
      Dict.get?_eq_some.1 (Dict.get?_insert_self listing name (newFile mtime))
    refine List.mem_map.2 ⟨(name, newFile mtime), List.mem_filter.2 ⟨hmem, ?_⟩, rfl⟩
    simp [h, newFile]

/-- A new file is stored in a directory if it is put there, under a new name that the helper lists. -/
theorem stored_add (tree : Tree) (dir d : List Text) (name : Text) (mtime : Int) :
    Stored tree dir (some (tree.add d name mtime)) ↔
      d = dir ∧ String.ofList name ∉ (tree.files dir).keys ∧ helper.filterLog (String.ofList name) = true := by
  constructor
  · rintro ⟨after, found, hafter, -, hkeys, hlisted⟩
    cases hafter
    have hadded := hkeys dir
    unfold Tree.add at hadded hlisted
    by_cases hd : dir = d
    · subst hd
      simp only [if_true] at hadded hlisted
      have hnew : String.ofList name ∉ (tree.files dir).keys := by
        intro hmem
        rw [Dict.keys_insert, if_pos hmem] at hadded
        exact absurd hadded (by simp)
      rw [Dict.keys_insert_of_not_mem hnew, List.append_cancel_left_eq, List.singleton_inj] at hadded
      rw [← hadded] at hlisted
      exact ⟨rfl, hnew, (listed_insert _ _ mtime).1 hlisted⟩
    · simp [hd] at hadded
  · rintro ⟨rfl, hnew, hlisted⟩
    refine ⟨_, String.ofList name, rfl, hnew, ?_, ?_⟩
    · intro other
      unfold Tree.add
      dsimp only
      split
      · rename_i h
        rw [h, Dict.keys_insert_of_not_mem hnew]
      · rfl
    · simpa [Tree.add] using (listed_insert (tree.files d) (String.ofList name) mtime).2 hlisted

theorem not_stored_none (tree : Tree) (dir : List Text) : ¬Stored tree dir none := by
  rintro ⟨after, name, h, -⟩
  cases h

/-- The log is stored where it belongs if the name of the process leads back to the directory and does not hide it,
and nothing else has its name. -/
theorem stored_iff {tree : Tree} {cwd dir : List Text} {base : Text}
    (hdir : follow tree (if isAbsolute (Helpers.directory base "earlyoom".toList "pending".toList) then [] else cwd)
      (parts (Helpers.directory base "earlyoom".toList "pending".toList)) = some dir)
    (hwritable : tree.writable dir = true) (comm : ProcessName) (ts : Nat) :
    Stored tree dir (handleLog tree cwd base comm ts) ↔
      follow tree dir (parts comm.text).dropLast = some dir ∧ (basename comm.text).head? ≠ some '.' ∧
        Free tree dir (lastName comm.text ts) := by
  rw [handleLog_eq hdir]
  generalize follow tree dir (parts comm.text).dropLast = found
  cases found with
  | none => simp [not_stored_none]
  | some d =>
    rw [Option.bind_some]
    split
    · -- The file cannot be opened: there is a directory of its name.
      rename_i h
      refine iff_of_false (not_stored_none tree dir) ?_
      rintro ⟨hd, -, -, hfree⟩
      cases hd
      simp [hfree, hwritable] at h
    · rename_i h
      have hisDir : tree.isDir (d ++ [lastName comm.text ts]) = false := by
        simpa using fun he => h (.inl he)
      rw [stored_add, lastName_listed, Option.some.injEq]
      constructor
      · rintro ⟨rfl, hnew, hhidden⟩
        exact ⟨rfl, hhidden, hnew, hisDir⟩
      · rintro ⟨rfl, hhidden, hnew, -⟩
        exact ⟨rfl, hnew, hhidden⟩

/-! ### Two names -/

/-- The directory of the logs, and those on the way to it. -/
def logs : List Text := ["var", "lib", "steamos-log-submitter", "pending", "earlyoom"].map String.toList

/-- There is nothing else yet. -/
def installed : Tree where
  isDir dir := dir.isPrefixOf logs
  writable _ := true
  files _ := Dict.empty

def base : Text := "/var/lib/steamos-log-submitter".toList

def named (comm : String) (length : comm.toList.length ≤ 15) (no_null : '\x00' ∉ comm.toList) : ProcessName :=
  ⟨comm.toList, length, no_null⟩

theorem installed_logs : follow installed (if isAbsolute (Helpers.directory base "earlyoom".toList "pending".toList)
    then [] else []) (parts (Helpers.directory base "earlyoom".toList "pending".toList)) = some logs := by
  decide +kernel

theorem hl2_stored :
    Stored installed logs (handleLog installed [] base (named "hl2_linux" (by decide) (by decide)) 17) :=
  (stored_iff installed_logs rfl _ 17).2
    ⟨by decide +kernel, by decide +kernel, by simp [installed], by decide +kernel⟩

/-- A dot hides the log, and with dots and a slash it is in another directory. -/
theorem name_astray :
    ¬Stored installed logs (handleLog installed [] base (named ".hidden" (by decide) (by decide)) 17) ∧
      ¬Stored installed logs (handleLog installed [] base (named "../x" (by decide) (by decide)) 17) := by
  have hhidden : follow installed logs (parts ".hidden".toList).dropLast = some logs := by decide +kernel
  have haway : follow installed logs (parts "../x".toList).dropLast = some logs.dropLast := by decide +kernel
  constructor
  · rw [handleLog_eq installed_logs]
    unfold named
    rw [hhidden, Option.bind_some, if_neg (by decide +kernel), stored_add]
    decide +kernel
  · rw [handleLog_eq installed_logs]
    unfold named
    rw [haway, Option.bind_some, if_neg (by decide +kernel), stored_add]
    decide +kernel

end LogSubmitter.Earlyoom

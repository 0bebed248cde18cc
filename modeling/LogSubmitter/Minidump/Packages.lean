import LogSubmitter.Lib.Replace
import LogSubmitter.Submit
/-!
# The packages of files

`get_paths_packages` asks `pacman` for the owners of files, as many at a time as fit on a command line, and reads
the names and the versions off the ends of the lines.
-/
namespace LogSubmitter.Packages

open Lib
open Submit (Raised)

abbrev Text := List Char

/-! ## The code -/

/-- `itertools.batched` -/
def batched {α : Type} (n : Nat) : List α → List (List α)
  | [] => []
  | a :: l => (a :: l.take (n - 1)) :: batched n (l.drop (n - 1))
termination_by l => l.length

/-- One line of the output. -/
def readLine (packages : Dict Text Text) (line : Text) : Except Raised (Dict Text Text) :=
  let line := Str.strip line
  if line = [] then .ok packages
  else
    match (line.splitOn ' ').reverse with
    | pkgver :: pkgname :: _ => .ok (packages.insert pkgname pkgver)
    | _ => .error .valueError

/-- One call of `pacman -Qo`, whatever its status. -/
def readBatch (pacman : List Text → Except Raised Text) (packages : Dict Text Text) (paths : List Text) :
    Except Raised (Dict Text Text) := do
  let stdout ← pacman paths
  ((Str.strip stdout).splitOn '\n').foldlM readLine packages

/-- `get_paths_packages` -/
def getPathsPackages (pacman : List Text → Except Raised Text) (paths : List Text) : Except Raised (Dict Text Text) :=
  (batched 1024 paths).foldlM (readBatch pacman) .empty

/-! ## What `pacman` prints -/

/-- A name or a version. -/
def IsWord (word : Text) : Prop := word ≠ [] ∧ ∀ c ∈ word, Str.isSpace c = false

instance (word : Text) : Decidable (IsWord word) := inferInstanceAs (Decidable (_ ∧ _))

/-- A package as the owner of a file. -/
structure Package where
  pkgname : Text
  pkgver : Text
  name_word : IsWord pkgname
  ver_word : IsWord pkgver

/-- `/usr/bin/vim is owned by vim 9.1.0-1` -/
def ownedLine (path : Text) (p : Package) : Text :=
  path ++ " is owned by ".toList ++ p.pkgname ++ ' ' :: p.pkgver

/-- The standard output for files, which has a line for each one that is owned. -/
def output (owner : Text → Option Package) (paths : List Text) : Text :=
  (paths.filterMap fun path => (owner path).map (ownedLine path)).flatMap (· ++ ['\n'])

/-- The packages that own one of the files. -/
def owners (owner : Text → Option Package) (paths : List Text) : Dict Text Text :=
  (paths.filterMap owner).foldl (fun packages p => packages.insert p.pkgname p.pkgver) .empty

/-! ## Batches -/

theorem flatten_batched {α : Type} (n : Nat) (l : List α) : (batched n l).flatten = l := by
  induction l using batched.induct n with
  | case1 => simp [batched]
  | case2 a l ih => rw [batched, List.flatten_cons, ih, List.cons_append, List.take_append_drop]

/-- No call gets more files than it may. -/
theorem length_of_mem_batched {α : Type} {n : Nat} (hn : 0 < n) {l batch : List α} (h : batch ∈ batched n l) :
    batch.length ≤ n := by
  induction l using batched.induct n with
  | case1 => simp [batched] at h
  | case2 a l ih =>
    rw [batched] at h
    rcases List.mem_cons.1 h with rfl | h
    · simp only [List.length_cons, List.length_take]
      omega
    · exact ih h

/-! ## Lines -/

section
variable {owner : Text → Option Package} {paths : List Text}

theorem isWord_not_mem {word : Text} (h : IsWord word) {c : Char} (hc : Str.isSpace c = true) : c ∉ word := by
  intro hm
  rw [h.2 c hm] at hc
  cases hc

/-- Nothing is stripped after a word. -/
theorem rdropWhile_word {word : Text} (h : IsWord word) (before : Text) :
    (before ++ word).rdropWhile Str.isSpace = before ++ word := by
  refine List.rdropWhile_eq_self_iff.2 fun hne => ?_
  rw [List.getLast_append_of_ne_nil _ h.1, h.2 _ (List.getLast_mem h.1)]
  exact Bool.false_ne_true

/-- The line ends in the name and the version, whatever the path is. -/
theorem readLine_owned (packages : Dict Text Text) (before : Text) (p : Package) :
    readLine packages (before ++ 'y' :: ' ' :: (p.pkgname ++ ' ' :: p.pkgver)) =
      .ok (packages.insert p.pkgname p.pkgver) := by
  have hspace : Str.isSpace ' ' = true := rfl
  have hstrip : Str.strip (before ++ 'y' :: ' ' :: (p.pkgname ++ ' ' :: p.pkgver)) =
      before.dropWhile Str.isSpace ++ 'y' :: ' ' :: (p.pkgname ++ ' ' :: p.pkgver) := by
    have hword := rdropWhile_word p.ver_word (before.dropWhile Str.isSpace ++ 'y' :: ' ' :: (p.pkgname ++ [' ']))
    rw [Str.strip, Words.dropWhile_append_stop (by decide)]
    simpa using hword
  have hsplit : (before.dropWhile Str.isSpace ++ 'y' :: ' ' :: (p.pkgname ++ ' ' :: p.pkgver)).splitOn ' ' =
      (before.dropWhile Str.isSpace ++ ['y']).splitOn ' ' ++ [p.pkgname, p.pkgver] := by
    have h := List.splitOn_append_cons_self (a := ' ') (before.dropWhile Str.isSpace ++ ['y'])
      (p.pkgname ++ ' ' :: p.pkgver)
    rw [List.splitOn_append_cons_self_of_not_mem (isWord_not_mem p.name_word hspace),
      List.splitOn_eq_singleton (isWord_not_mem p.ver_word hspace)] at h
    simpa using h
  have hne : before.dropWhile Str.isSpace ++ 'y' :: ' ' :: (p.pkgname ++ ' ' :: p.pkgver) ≠ [] := by simp
  unfold readLine
  simp only [hstrip, hne, if_false, hsplit]
  rw [List.reverse_append]
  rfl

theorem ownedLine_eq (path : Text) (p : Package) :
    ownedLine path p = (path ++ " is owned b".toList) ++ 'y' :: ' ' :: (p.pkgname ++ ' ' :: p.pkgver) := by
  have htext : " is owned by ".toList = " is owned b".toList ++ ['y', ' '] := by decide
  unfold ownedLine
  rw [htext]
  simp

theorem newline_not_mem_ownedLine {path : Text} (h : '\n' ∉ path) (p : Package) : '\n' ∉ ownedLine path p := by
  have htext : '\n' ∉ " is owned by ".toList := by decide
  unfold ownedLine
  simp only [List.mem_append, List.mem_cons, not_or]
  exact ⟨⟨⟨h, htext⟩, isWord_not_mem p.name_word rfl⟩, by decide, isWord_not_mem p.ver_word rfl⟩

/-- The lines that are printed, with those they are of. -/
theorem readLines_owned (l : List (Text × Package)) (packages : Dict Text Text) :
    (l.map fun o => ownedLine o.1 o.2).foldlM readLine packages =
      .ok ((l.map Prod.snd).foldl (fun packages p => packages.insert p.pkgname p.pkgver) packages) := by
  induction l generalizing packages with
  | nil => rfl
  | cons o l ih =>
    rw [List.map_cons, List.foldlM_cons, ownedLine_eq, readLine_owned, Submit.ok_bind, ih, List.map_cons,
      List.foldl_cons]

/-- Something is at the end that is not stripped. -/
def EndsSolid (text : Text) : Prop := ∃ before c, text = before ++ [c] ∧ Str.isSpace c = false

theorem EndsSolid.append {text : Text} (h : EndsSolid text) (before : Text) : EndsSolid (before ++ text) := by
  obtain ⟨b, c, rfl, hc⟩ := h
  exact ⟨before ++ b, c, by simp, hc⟩

theorem endsSolid_word {word : Text} (h : IsWord word) : EndsSolid word :=
  ⟨word.dropLast, word.getLast h.1, (List.dropLast_append_getLast h.1).symm, h.2 _ (List.getLast_mem h.1)⟩

theorem endsSolid_line (before : Text) (p : Package) :
    EndsSolid (before ++ 'y' :: ' ' :: (p.pkgname ++ ' ' :: p.pkgver)) := by
  have h := (endsSolid_word p.ver_word).append (before ++ 'y' :: ' ' :: (p.pkgname ++ [' ']))
  simpa using h

theorem endsSolid_intercalate {ls : List Text} (hne : ls ≠ []) (h : ∀ l ∈ ls, EndsSolid l) :
    EndsSolid (['\n'].intercalate ls) := by
  induction ls with
  | nil => exact absurd rfl hne
  | cons l ls ih =>
    by_cases hls : ls = []
    · subst hls
      rw [List.intercalate_singleton]
      exact h l List.mem_cons_self
    · rw [List.intercalate_cons_of_ne_nil hls]
      exact (ih hls fun l hl => h l (List.mem_cons_of_mem _ hl)).append _

theorem flatMap_newline {l : Text} (ls : List Text) :
    (l :: ls).flatMap (· ++ ['\n']) = ['\n'].intercalate (l :: ls) ++ ['\n'] := by
  induction ls generalizing l with
  | nil => simp
  | cons m ls ih =>
    rw [List.flatMap_cons, ih, List.intercalate_cons_cons]
    simp only [List.append_assoc]

/-- What is stripped of the output is the last line break, and what may be stripped of the first line. -/
theorem strip_output (o : Text × Package) (l : List (Text × Package)) :
    ∃ before, Str.strip (((o :: l).map fun o => ownedLine o.1 o.2).flatMap (· ++ ['\n'])) =
      ['\n'].intercalate ((before ++ 'y' :: ' ' :: (o.2.pkgname ++ ' ' :: o.2.pkgver)) ::
        l.map fun o => ownedLine o.1 o.2) ∧ ∀ c ∈ before, c ∈ ownedLine o.1 o.2 := by
  obtain ⟨path, p⟩ := o
  let start := path ++ " is owned b".toList
  let rest := ' ' :: (p.pkgname ++ ' ' :: p.pkgver)
  let lines := l.map fun o => ownedLine o.1 o.2
  refine ⟨start.dropWhile Str.isSpace, ?_, fun c hc => ?_⟩
  · have hjoin : ∀ a : Text, ['\n'].intercalate ((a ++ 'y' :: rest) :: lines) =
        a ++ 'y' :: ['\n'].intercalate (rest :: lines) := by
      intro a
      induction a with
      | nil => exact Replace.intercalate_cons_head _ _ _ _
      | cons c a ih => rw [List.cons_append, Replace.intercalate_cons_head, ih, List.cons_append]
    have hsolid : EndsSolid (['\n'].intercalate ((start.dropWhile Str.isSpace ++ 'y' :: rest) :: lines)) := by
      refine endsSolid_intercalate (List.cons_ne_nil _ _) fun line hl => ?_
      rcases List.mem_cons.1 hl with rfl | hl
      · exact endsSolid_line _ p
      · obtain ⟨o, -, rfl⟩ := List.mem_map.1 hl
        rw [ownedLine_eq]
        exact endsSolid_line _ o.2
    obtain ⟨b, c, hb, hc⟩ := hsolid
    have hkept : (['\n'].intercalate ((start.dropWhile Str.isSpace ++ 'y' :: rest) :: lines)).rdropWhile Str.isSpace =
        ['\n'].intercalate ((start.dropWhile Str.isSpace ++ 'y' :: rest) :: lines) := by
      rw [hb, List.rdropWhile_concat_neg _ _ _ (by simp [hc])]
    have hline : ownedLine path p = start ++ 'y' :: rest := ownedLine_eq path p
    rw [List.map_cons, flatMap_newline, hline, hjoin start, Str.strip, List.append_assoc, List.cons_append,
      Words.dropWhile_append_stop (by decide), ← List.cons_append, ← List.append_assoc, ← hjoin,
      List.rdropWhile_concat_pos _ _ _ rfl, hkept]
  · have hm : c ∈ start := (List.dropWhile_suffix _).subset hc
    rw [ownedLine_eq]
    exact List.mem_append_left _ hm

/-- One batch. -/
theorem readBatch_output (hpaths : ∀ path ∈ paths, '\n' ∉ path) {pacman : List Text → Except Raised Text}
    (hp : pacman paths = .ok (output owner paths)) (packages : Dict Text Text) :
    readBatch pacman packages paths =
      .ok ((paths.filterMap owner).foldl (fun packages p => packages.insert p.pkgname p.pkgver) packages) := by
  let owned := paths.filterMap fun path => (owner path).map fun p => (path, p)
  have hlines : (paths.filterMap fun path => (owner path).map (ownedLine path)) =
      owned.map fun o => ownedLine o.1 o.2 := by
    simp [owned, List.map_filterMap, Function.comp_def]
  have howners : paths.filterMap owner = owned.map Prod.snd := by
    simp [owned, List.map_filterMap, Function.comp_def]
  have hmem : ∀ o ∈ owned, '\n' ∉ ownedLine o.1 o.2 := by
    intro o ho
    obtain ⟨path, hpath, ho⟩ := List.mem_filterMap.1 ho
    obtain ⟨p, -, rfl⟩ := Option.map_eq_some_iff.1 ho
    exact newline_not_mem_ownedLine (hpaths path hpath) p
  rw [readBatch, hp, Submit.ok_bind, output, hlines, howners]
  cases howned : owned with
  | nil => rfl
  | cons o l =>
    rw [howned] at hmem
    obtain ⟨before, hstrip, hbefore⟩ := strip_output o l
    have hfirst : '\n' ∉ before ++ 'y' :: ' ' :: (o.2.pkgname ++ ' ' :: o.2.pkgver) := by
      have ho := hmem o List.mem_cons_self
      simp only [List.mem_append, List.mem_cons, not_or]
      exact ⟨fun h => ho (hbefore _ h), by decide, by decide, isWord_not_mem o.2.name_word rfl, by decide,
        isWord_not_mem o.2.ver_word rfl⟩
    rw [hstrip, List.splitOn_intercalate _ _ (List.cons_ne_nil _ _), List.foldlM_cons, readLine_owned, Submit.ok_bind,
      readLines_owned, List.map_cons, List.foldl_cons]
    intro line hl
    rcases List.mem_cons.1 hl with rfl | hl
    · exact hfirst
    · obtain ⟨o', ho', rfl⟩ := List.mem_map.1 hl
      exact hmem o' (List.mem_cons_of_mem _ ho')

/-- However many files there are, all the packages that own one of them are found, with the version of the last: the
batches do not show. -/
theorem getPathsPackages_eq (hpaths : ∀ path ∈ paths, '\n' ∉ path) {pacman : List Text → Except Raised Text}
    (hp : ∀ batch, batch.length ≤ 1024 → pacman batch = .ok (output owner batch)) :
    getPathsPackages pacman paths = .ok (owners owner paths) := by
  have hfold : ∀ (batches : List (List Text)) (packages : Dict Text Text),
      (∀ batch ∈ batches, batch.length ≤ 1024 ∧ ∀ path ∈ batch, '\n' ∉ path) →
      batches.foldlM (readBatch pacman) packages =
        .ok ((batches.flatten.filterMap owner).foldl (fun packages p => packages.insert p.pkgname p.pkgver)
          packages) := by
    intro batches
    induction batches with
    | nil => exact fun _ _ => rfl
    | cons batch batches ih =>
      intro packages h
      obtain ⟨hlength, hnewline⟩ := h batch List.mem_cons_self
      rw [List.foldlM_cons, readBatch_output hnewline (hp batch hlength), Submit.ok_bind,
        ih _ fun b hb => h b (List.mem_cons_of_mem _ hb), List.flatten_cons, List.filterMap_append, List.foldl_append]
  unfold getPathsPackages owners
  rw [hfold _ _ fun batch hb => ⟨length_of_mem_batched (by decide) hb, fun path hm => hpaths path ?_⟩,
    flatten_batched]
  rw [← flatten_batched 1024 paths]
  exact List.mem_flatten.2 ⟨batch, hb, hm⟩

end

def glibc : Package where
  pkgname := "glibc".toList
  pkgver := "2.39-1".toList
  name_word := ⟨by decide, Words.forall_of_all (by decide)⟩
  ver_word := ⟨by decide, Words.forall_of_all (by decide)⟩

/-- Who owns the files of a process. -/
def glibcOwns (path : Text) : Option Package := if path = "/home/game".toList then none else some glibc

end LogSubmitter.Packages

import LogSubmitter.Helpers
import LogSubmitter.Lib.Path
import LogSubmitter.Str
/-!
# Handing out logs

`Extract` opens a file of the helper by its name, wherever it is: pending, failed or
uploaded. The name comes from the caller, and is only looked at for dots.
-/
namespace LogSubmitter.Helpers

open Lib Path

/-! ## `Extract` -/

/-- What comes of `os.open`. -/
inductive Opened where
  | descriptor (fd : Nat)
  | fileNotFound
  | osError
  deriving DecidableEq

inductive ExtractError where
  | indexError
  | permanentError (message : String)
  | osError
  deriving DecidableEq

section
variable (open? : Text → Opened)

/-- `extract_path`, `none` where there is no such file. -/
def extractPath (path : Text) : Except ExtractError (Option Nat) :=
  match open? path with
  | .descriptor fd => .ok (some fd)
  | .fileNotFound => .ok none
  | .osError => .error .osError

/-- The directories for the states of a log. -/
def states : List Text := ["pending".toList, "failed".toList, "uploaded".toList]

/-- `f'{sls.pending}/{self.helper.name}'` and the like. -/
def directory (base name state : Text) : Text := base ++ '/' :: state ++ '/' :: name

/-- The attempts of `Extract`, with the path that is opened. -/
def attempts (path : Text → Text) (type : Text) : List Text → Except ExtractError (Text × Nat)
  | [] => .error (.permanentError "Could not open file")
  | state :: rest =>
    if type = [] ∨ type = state then
      match extractPath open? (path state) with
      | .error e => .error e
      | .ok (some fd) => .ok (path state, fd)
      | .ok none => attempts path type rest
    else attempts path type rest

/-- `HelperInterface.Extract` -/
def extract (base name filename type : Text) : Except ExtractError (Text × Nat) :=
  match filename.head? with
  | none => .error .indexError
  | some c =>
    if c = '.' ∨ Str.contains ".." filename = true then .error (.permanentError "Invalid filename")
    else attempts open? (fun state => directory base name state ++ '/' :: filename) type states

/-! ## What is opened -/

/-- The names on a path, without what repeated slashes and dots leave. -/
def names (path : Text) : List Text := (parts path).filter fun part => !decide (Blank part)

theorem names_append_slash (a b : Text) : names (a ++ '/' :: b) = names a ++ names b := by
  simp [names, parts_append_slash]

/-- A name in the directory itself, and not a hidden one. -/
def Child (directory path : Text) : Prop :=
  isAbsolute path = isAbsolute directory ∧
    ∃ name, names path = names directory ++ [name] ∧ name.head? ≠ some '.'

/-- A log of the helper, in one of its directories. -/
def OwnLog (base name path : Text) : Prop := ∃ state ∈ states, Child (directory base name state) path

/-- One name, and not a hidden one. -/
def Single (filename : Text) : Prop := ∃ name, names filename = [name] ∧ name.head? ≠ some '.'

/-- What the guard turns down. -/
def Rejected (filename : Text) : Prop :=
  filename = [] ∨ filename.head? = some '.' ∨ Str.contains ".." filename = true

/-- The directories that `type` asks for. -/
def asked (type : Text) : List Text := states.filter fun state => decide (type = [] ∨ type = state)

/-- The file is in the first directory in which there is one, and can be opened. -/
inductive FirstOpen (path : Text → Text) : List Text → Text → Nat → Prop
  | here {state : Text} {rest : List Text} {fd : Nat} :
      open? (path state) = .descriptor fd → FirstOpen path (state :: rest) state fd
  | later {earlier state : Text} {rest : List Text} {fd : Nat} :
      open? (path earlier) = .fileNotFound → FirstOpen path rest state fd → FirstOpen path (earlier :: rest) state fd

/-- One of the files that `type` asks for is opened. -/
def Found (path : Text → Text) (type : Text) : Prop := ∃ state fd, FirstOpen open? path (asked type) state fd

/-- The path of a log of that name. -/
def logPath (base name filename state : Text) : Text := directory base name state ++ '/' :: filename

theorem FirstOpen.mem {path : Text → Text} {l : List Text} {state : Text} {fd : Nat}
    (h : FirstOpen open? path l state fd) : state ∈ l := by
  induction h with
  | here => exact List.mem_cons_self
  | later _ _ ih => exact List.mem_cons_of_mem _ ih

theorem not_firstOpen_nil {path : Text → Text} {state : Text} {fd : Nat} : ¬FirstOpen open? path [] state fd := by
  intro h
  cases h

theorem firstOpen_cons {path : Text → Text} {first state : Text} {rest : List Text} {fd : Nat} :
    FirstOpen open? path (first :: rest) state fd ↔
      (open? (path first) = .descriptor fd ∧ state = first) ∨
        (open? (path first) = .fileNotFound ∧ FirstOpen open? path rest state fd) := by
  constructor
  · intro h
    cases h with
    | here hopen => exact .inl ⟨hopen, rfl⟩
    | later hopen hrest => exact .inr ⟨hopen, hrest⟩
  · rintro (⟨hopen, rfl⟩ | ⟨hopen, hrest⟩)
    · exact .here hopen
    · exact .later hopen hrest

theorem attempts_eq_ok (path : Text → Text) (type : Text) (l : List Text) (opened : Text) (fd : Nat) :
    attempts open? path type l = .ok (opened, fd) ↔
      ∃ state, FirstOpen open? path (l.filter fun state => decide (type = [] ∨ type = state)) state fd ∧
        opened = path state := by
  induction l with
  | nil => simp [attempts, not_firstOpen_nil]
  | cons first l ih =>
    unfold attempts
    by_cases ht : type = [] ∨ type = first
    · rw [if_pos ht, List.filter_cons_of_pos (by simpa using ht)]
      simp only [firstOpen_cons]
      unfold extractPath
      cases hopen : open? (path first) with
      | descriptor found =>
        simp only [Except.ok.injEq, Prod.mk.injEq, Opened.descriptor.injEq, reduceCtorEq, false_and, or_false]
        constructor
        · rintro ⟨rfl, rfl⟩
          exact ⟨first, ⟨rfl, rfl⟩, rfl⟩
        · rintro ⟨state, ⟨rfl, rfl⟩, rfl⟩
          exact ⟨rfl, rfl⟩
      | fileNotFound => simpa using ih
      | osError => simp
    · rw [if_neg ht, List.filter_cons_of_neg (by simpa using ht), ih]

theorem extract_of_rejected {base name filename type : Text} (h : Rejected filename) (opened : Text) (fd : Nat) :
    extract open? base name filename type ≠ .ok (opened, fd) := by
  unfold extract
  cases hf : filename.head? with
  | none => simp
  | some c =>
    have hguard : c = '.' ∨ Str.contains ".." filename = true := by
      rcases h with rfl | h | h
      · cases hf
      · exact .inl (Option.some.inj (hf.symm.trans h))
      · exact .inr h
    simp [hguard]

theorem extract_of_not_rejected {base name filename type : Text} (h : ¬Rejected filename) :
    extract open? base name filename type = attempts open? (logPath base name filename) type states := by
  unfold extract
  cases hf : filename.head? with
  | none => exact absurd (.inl (List.head?_eq_none_iff.1 hf)) h
  | some c =>
    have hguard : ¬(c = '.' ∨ Str.contains ".." filename = true) := by
      rintro (rfl | hd)
      · exact h (.inr (.inl hf))
      · exact h (.inr (.inr hd))
    simp only [hguard, if_false]
    rfl

theorem names_state {state : Text} (h : state ∈ states) : names state = [state] := by
  simp only [states, List.mem_cons, List.not_mem_nil, or_false] at h
  rcases h with rfl | rfl | rfl <;> decide

theorem names_directory (base name : Text) {state : Text} (h : state ∈ states) :
    names (directory base name state) = names base ++ [state] ++ names name := by
  unfold directory
  rw [List.append_assoc, List.cons_append, names_append_slash, names_append_slash, names_state h, List.append_assoc]

theorem isAbsolute_logPath (base name filename state : Text) :
    isAbsolute (logPath base name filename state) = isAbsolute (directory base name state) := by
  unfold logPath directory isAbsolute
  cases base <;> simp

/-- A path is one of a log of the helper if the name is a single one. -/
theorem ownLog_iff (base name filename : Text) {state : Text} (h : state ∈ states) :
    OwnLog base name (logPath base name filename state) ↔ Single filename := by
  have hpath : names (logPath base name filename state) = names (directory base name state) ++ names filename :=
    names_append_slash _ _
  constructor
  · rintro ⟨other, hother, -, found, hfound, hhidden⟩
    rw [hpath, names_directory base name h, names_directory base name hother] at hfound
    have hlength : (names base ++ [state] ++ names name).length = (names base ++ [other] ++ names name).length := by
      simp
    exact ⟨found, (List.append_inj hfound hlength).2, hhidden⟩
  · rintro ⟨found, hfound, hhidden⟩
    exact ⟨state, h, isAbsolute_logPath base name filename state, found, by rw [hpath, hfound], hhidden⟩

/-- Only logs of the helper are handed out if the guard turns the name down, no file is found, or the name is a
single one. -/
theorem extract_ownLog_iff (base name filename type : Text) :
    (∀ opened fd, extract open? base name filename type = .ok (opened, fd) → OwnLog base name opened) ↔
      Rejected filename ∨ ¬Found open? (logPath base name filename) type ∨ Single filename := by
  by_cases hr : Rejected filename
  · refine ⟨fun _ => .inl hr, ?_⟩
    intro _ opened fd h
    exact absurd h (extract_of_rejected open? hr opened fd)
  · rw [extract_of_not_rejected open? hr]
    simp only [attempts_eq_ok, hr, false_or]
    have hstate : ∀ {state fd}, FirstOpen open? (logPath base name filename) (asked type) state fd →
        state ∈ states := by
      intro state fd h
      exact List.mem_of_mem_filter (h.mem open?)
    constructor
    · intro h
      by_cases hfound : Found open? (logPath base name filename) type
      · obtain ⟨state, fd, hopen⟩ := hfound
        have hown := h _ fd ⟨state, hopen, rfl⟩
        exact .inr ((ownLog_iff base name filename (hstate hopen)).1 hown)
      · exact .inl hfound
    · rintro h opened fd ⟨state, hopen, rfl⟩
      have hsingle := h.resolve_left fun hn => hn ⟨state, fd, hopen⟩
      exact (ownLog_iff base name filename (hstate hopen)).2 hsingle

end

/-- The lock file of a helper is the only file. -/
def onlyLock (path : Text) : Opened :=
  if path = "/var/lib/steamos-log-submitter/pending/kdump//.lock".toList then .descriptor 3 else .fileNotFound

/-- A slash before the dot, and the guard does not see it. -/
theorem lock_handed_out :
    extract onlyLock "/var/lib/steamos-log-submitter".toList "kdump".toList "/.lock".toList [] =
        .ok ("/var/lib/steamos-log-submitter/pending/kdump//.lock".toList, 3) ∧
      ¬OwnLog "/var/lib/steamos-log-submitter".toList "kdump".toList
        "/var/lib/steamos-log-submitter/pending/kdump//.lock".toList := by
  refine ⟨by decide +kernel, ?_⟩
  rintro ⟨state, hstate, -, found, hfound, hhidden⟩
  have hlast := congrArg List.getLast? hfound
  rw [List.getLast?_concat] at hlast
  have hlock : names "/var/lib/steamos-log-submitter/pending/kdump//.lock".toList =
      ["var", "lib", "steamos-log-submitter", "pending", "kdump", ".lock"].map String.toList := by
    decide +kernel
  rw [hlock] at hlast
  have hname : found = ".lock".toList := (Option.some.inj hlast).symm
  rw [hname] at hhidden
  exact hhidden rfl

end LogSubmitter.Helpers

import LogSubmitter.Appid.Chain
import LogSubmitter.Appid.Stat
/-!
# Names that forge a parent

A process has its name in `/proc/<pid>/stat`, between parentheses and before the number of
its parent. The pattern goes to the last `)` of the line, and so it is not misled by what is
in a name, unless the line ends in the name.
-/
namespace LogSubmitter.Appid

open Lib Json Loop Relation

/-! ## What the kernel prints -/

def decimal : Int → Text
  | .ofNat n => Nat.toDigits 10 n
  | .negSucc n => '-' :: Nat.toDigits 10 (n + 1)

/-- What follows the name: the state, the parent and other numbers, with or without a newline at the end. -/
structure Tail where
  state : Char
  ppid : Nat
  numbers : List Int
  newline : Bool
  isAlpha : state.isAlpha = true

def Tail.rest (tail : Tail) : Text :=
  tail.numbers.flatMap (fun n => ' ' :: decimal n) ++ if tail.newline then ['\n'] else []

def Tail.text (tail : Tail) : Text := tail.state :: ' ' :: (Nat.toDigits 10 tail.ppid ++ tail.rest)

/-- `<pid> (<name>) <tail>` -/
def statText (pid : Nat) (name : Text) (tail : Tail) : Text :=
  Nat.toDigits 10 pid ++ ' ' :: '(' :: (name ++ ')' :: ' ' :: tail.text)

/-- The names and the parents of the processes in a world, as far as these can be read. -/
def Printed (names : Int → Text) (parent : Int → Int) (world : World) : Prop :=
  ∀ pid, 1 < pid → ∀ bytes, (world pid).stat = some bytes →
    ∃ tail : Tail, tail.ppid = parent pid ∧ bytes = encode (statText pid.toNat (names pid) tail)

/-- The number that is found is that of the parent, if one is found. -/
def Truthful (tail : Tail) (process : Process) : Prop :=
  ∀ comm ppid, getPidStat process = .ok (some (comm, ppid)) → ppid = tail.ppid

/-- Each step of the walk goes to a parent. -/
def FollowsParents (parent : Int → Int) (world : World) : Prop :=
  ∀ pid s s', ReflTransGen (Again (round world)) (pid, none) s → Again (round world) s s' → s'.1 = parent s.1

/-! ## A condition on names -/

/-- A status follows what is before the last such `)` of the line. -/
structure LastStatus (text comm ppid : Text) : Prop where
  line : '\n' ∉ comm
  found : ∃ rest, text = comm ++ ')' :: rest ∧ status rest = some ppid
  last : ∀ comm' rest, text = comm' ++ ')' :: rest → '\n' ∉ comm' → comm.length < comm'.length → status rest = none

/-- The first line of the name has a `)` with a status after it, and `int` takes the number of the last one. The status
may go on in other lines. -/
def Forges (name : Text) : Prop :=
  '\n' ∈ Kdump.translate name ∧
    ∃ comm ppid, LastStatus (Kdump.translate name) comm ppid ∧ Str.int (String.ofList ppid) ≠ none

/-! ## What is in a name -/

theorem LastStatus.unique {text comm comm' ppid ppid' : Text} (h : LastStatus text comm ppid)
    (h' : LastStatus text comm' ppid') : comm = comm' ∧ ppid = ppid' := by
  obtain ⟨rest, htext, hstatus⟩ := h.found
  obtain ⟨rest', htext', hstatus'⟩ := h'.found
  have hlength : comm.length = comm'.length := by
    by_contra hne
    rcases Nat.lt_or_gt_of_ne hne with hlt | hlt
    · rw [h.last comm' rest' htext' h'.line hlt] at hstatus'
      cases hstatus'
    · rw [h'.last comm rest htext h.line hlt] at hstatus
      cases hstatus
  obtain ⟨rfl, hrest⟩ := List.append_inj (htext.symm.trans htext') hlength
  cases hrest
  rw [hstatus] at hstatus'
  exact ⟨rfl, Option.some.inj hstatus'⟩

theorem claimed_none {text : Text} (h : claimed text = none) {comm rest : Text} (htext : text = comm ++ ')' :: rest)
    (hline : '\n' ∉ comm) : status rest = none := by
  induction comm generalizing text with
  | nil =>
    have hboth : claimed rest = none ∧ status rest = none := by simpa [htext, claimed, closed] using h
    exact hboth.2
  | cons c comm ih =>
    rw [List.mem_cons, not_or] at hline
    rw [htext, List.cons_append, claimed, if_neg (Ne.symm hline.1)] at h
    simp only [Option.or_eq_none_iff, Option.map_eq_none_iff] at h
    exact ih h.1 rfl hline.2

/-- One character more before the rest of the line. -/
theorem LastStatus.cons {c : Char} {cs comm ppid : Text} (h : LastStatus cs comm ppid) (hc : c ≠ '\n') :
    LastStatus (c :: cs) (c :: comm) ppid := by
  obtain ⟨rest, rfl, hstatus⟩ := h.found
  constructor
  case line => simpa [Ne.symm hc] using h.line
  case found => exact ⟨rest, rfl, hstatus⟩
  case last =>
    intro comm' rest' htext hline hlt
    cases comm' with
    | nil => cases hlt
    | cons d comm' =>
      rw [List.cons_append, List.cons.injEq] at htext
      rw [List.mem_cons, not_or] at hline
      exact h.last comm' rest' htext.2 hline.2 (by simpa using hlt)

/-- The line has no other after its first character. -/
theorem lastStatus_here {cs ppid : Text} (hlater : claimed cs = none) (hstatus : status cs = some ppid) :
    LastStatus (')' :: cs) [] ppid := by
  constructor
  case line => simp
  case found => exact ⟨cs, rfl, hstatus⟩
  case last =>
    intro comm' rest' htext hline hlt
    cases comm' with
    | nil => cases hlt
    | cons d comm' =>
      rw [List.cons_append, List.cons.injEq] at htext
      rw [List.mem_cons, not_or] at hline
      exact claimed_none hlater htext.2 hline.2

theorem lastStatus_of_claimed {text comm ppid : Text} (h : claimed text = some (comm, ppid)) :
    LastStatus text comm ppid := by
  induction text generalizing comm with
  | nil => cases h
  | cons c cs ih =>
    by_cases hc : c = '\n'
    · simp [claimed, hc] at h
    rw [claimed, if_neg hc] at h
    cases hlater : claimed cs with
    | some m =>
      rw [hlater, Option.map_some, Option.some_or, Option.some.injEq, Prod.mk.injEq] at h
      obtain ⟨rfl, rfl⟩ := h
      exact (ih hlater).cons hc
    | none =>
      rw [hlater, Option.map_none, Option.none_or, Option.map_eq_some_iff] at h
      obtain ⟨n, hclosed, hm⟩ := h
      obtain ⟨rfl, rfl⟩ := Prod.mk.inj hm
      by_cases hparen : c = ')'
      · subst hparen
        exact lastStatus_here hlater (by simpa [closed] using hclosed)
      · simp [closed, hparen] at hclosed

theorem claimed_eq_some {text comm ppid : Text} : claimed text = some (comm, ppid) ↔ LastStatus text comm ppid := by
  constructor
  · exact lastStatus_of_claimed
  · intro h
    obtain ⟨rest, htext, hstatus⟩ := h.found
    cases hclaimed : claimed text with
    | none =>
      rw [claimed_none hclaimed htext h.line] at hstatus
      cases hstatus
    | some m =>
      obtain ⟨rfl, rfl⟩ := (lastStatus_of_claimed hclaimed).unique h
      rfl

/-! ## What is read of a process -/

theorem translate_cons {c : Char} {cs : Text} (h : c = '\r' → cs.head? ≠ some '\n') :
    Kdump.translate (c :: cs) = (if c = '\r' then '\n' else c) :: Kdump.translate cs := by
  apply Kdump.translate.eq_3
  rintro cs' rfl rfl
  exact h rfl rfl

theorem translate_append {text rest : Text} (h : rest.head? ≠ some '\n') :
    Kdump.translate (text ++ rest) = Kdump.translate text ++ Kdump.translate rest := by
  induction text using Kdump.translate.induct with
  | case1 => rfl
  | case2 cs ih => simp [Kdump.translate, ih]
  | case3 c cs hne ih =>
    have hcs : c = '\r' → cs.head? ≠ some '\n' := by
      rintro rfl hhead
      obtain ⟨cs', rfl⟩ := List.head?_eq_some_iff.1 hhead
      exact hne cs' rfl rfl
    have happend : c = '\r' → (cs ++ rest).head? ≠ some '\n' := by
      intro hc
      cases cs with
      | nil => exact h
      | cons d cs => exact hcs hc
    rw [List.cons_append, translate_cons happend, translate_cons hcs, ih, List.cons_append]

theorem translate_plain {text : Text} (h : '\r' ∉ text) (rest : Text) :
    Kdump.translate (text ++ rest) = text ++ Kdump.translate rest := by
  induction text with
  | nil => rfl
  | cons c cs ih =>
    rw [List.mem_cons, not_or] at h
    rw [List.cons_append, translate_cons fun hc => absurd hc.symm h.1, ih h.2, if_neg (Ne.symm h.1)]
    rfl

theorem isDigit_of_mem_decimal {n : Int} {c : Char} (h : c ∈ decimal n) : c.isDigit = true ∨ c = '-' := by
  unfold decimal at h
  split at h
  · exact .inl (Nat.isDigit_of_mem_toDigits (by decide) (by decide) h)
  · rcases List.mem_cons.1 h with h | h
    · exact .inr h
    · exact .inl (Nat.isDigit_of_mem_toDigits (by decide) (by decide) h)

theorem Tail.mem_text {tail : Tail} {c : Char} (h : c ∈ tail.text) :
    c.isAlpha = true ∨ c.isDigit = true ∨ c = ' ' ∨ c = '-' ∨ c = '\n' := by
  unfold text rest at h
  simp only [List.mem_cons, List.mem_append, List.mem_flatMap] at h
  rcases h with rfl | rfl | h | ⟨n, -, rfl | h⟩ | h
  · exact .inl tail.isAlpha
  · simp
  · exact .inr (.inl (Nat.isDigit_of_mem_toDigits (by decide) (by decide) h))
  · simp
  · rcases isDigit_of_mem_decimal h with h | h <;> simp [h]
  · split at h
    · simp [List.mem_singleton.1 h]
    · cases h

theorem Tail.not_mem_text {tail : Tail} {c : Char} (h : c = ')' ∨ c = '\r') : c ∉ tail.text := by
  intro hc
  have hcases := tail.mem_text hc
  rcases h with rfl | rfl
  · exact absurd hcases (by decide)
  · exact absurd hcases (by decide)

theorem spaces_blank {text : Text} (h : text.head?.any Str.isSpace = false) : spaces (' ' :: text) = some text := by
  have hblank : Str.isSpace ' ' = true := rfl
  unfold spaces
  rw [List.takeWhile_cons_of_pos hblank, List.dropWhile_cons_of_pos hblank, if_neg (List.cons_ne_nil _ _)]
  cases text with
  | nil => rfl
  | cons c cs =>
    have hc : ¬Str.isSpace c = true := by simpa using h
    rw [List.dropWhile_cons_of_neg hc]

theorem not_isSpace_of_isAlpha {c : Char} (h : c.isAlpha = true) : Str.isSpace c = false := by
  rw [Bool.eq_false_iff]
  intro hs
  rw [not_isAlpha_of_isSpace hs] at h
  cases h

theorem digits_toDigits (n : Nat) {rest : Text} (h : rest.head?.any Kdump.isDigit = false) :
    digits (Nat.toDigits 10 n ++ rest) = some (Nat.toDigits 10 n) := by
  have hrest : rest.takeWhile Kdump.isDigit = [] := by
    cases rest with
    | nil => rfl
    | cons c cs =>
      have hc : ¬Kdump.isDigit c = true := by simpa using h
      rw [List.takeWhile_cons_of_neg hc]
  unfold digits
  rw [List.takeWhile_append_of_pos fun c => isDigit_of_mem_toDigits, hrest, List.append_nil,
    if_neg Nat.toDigits_ne_nil]

/-- The number of the parent is what the pattern finds after the name. -/
theorem status_tail (tail : Tail) : status (' ' :: tail.text) = some (Nat.toDigits 10 tail.ppid) := by
  have hstate : Str.isSpace tail.state = false := not_isSpace_of_isAlpha tail.isAlpha
  have hppid : (Nat.toDigits 10 tail.ppid ++ tail.rest).head?.any Str.isSpace = false := by
    obtain ⟨d, ds, hds⟩ := List.exists_cons_of_ne_nil (Nat.toDigits_ne_nil (n := tail.ppid) (b := 10))
    have hd : Kdump.isDigit d = true := isDigit_of_mem_toDigits (n := tail.ppid) (by simp [hds])
    simp [hds, not_isSpace_of_isDigit hd]
  have hrest : tail.rest.head?.any Kdump.isDigit = false := by
    have hblank : Kdump.isDigit ' ' = false := not_isDigit_of_isSpace rfl
    have hnewline : Kdump.isDigit '\n' = false := not_isDigit_of_isSpace rfl
    unfold Tail.rest
    cases tail.numbers with
    | nil => cases tail.newline <;> simp [hnewline]
    | cons n numbers => simp [hblank]
  unfold status Tail.text
  rw [spaces_blank (by simpa using hstate), Option.bind_some, letter, if_pos tail.isAlpha, Option.bind_some,
    spaces_blank hppid, Option.bind_some, digits_toDigits _ hrest]

theorem contents_statText (pid : Nat) (name : Text) (tail : Tail) :
    contents (some (encode (statText pid name tail))) =
      .text (Nat.toDigits 10 pid ++ ' ' :: '(' :: (Kdump.translate name ++ ')' :: ' ' :: tail.text)) := by
  have hpid : '\r' ∉ Nat.toDigits 10 pid ++ [' ', '('] := by
    intro h
    rcases List.mem_append.1 h with h | h
    · exact absurd (Nat.isDigit_of_mem_toDigits (by decide) (by decide) h) (by decide)
    · exact absurd h (by decide)
  have htail : '\r' ∉ ')' :: ' ' :: tail.text := by
    have h : '\r' ∉ tail.text := Tail.not_mem_text (.inr rfl)
    simpa using h
  have htranslate : Kdump.translate (')' :: ' ' :: tail.text) = ')' :: ' ' :: tail.text := by
    have h := translate_plain htail []
    simpa [Kdump.translate] using h
  have hsplit : statText pid name tail = (Nat.toDigits 10 pid ++ [' ', '(']) ++ (name ++ ')' :: ' ' :: tail.text) := by
    simp [statText]
  rw [contents_encode, hsplit, translate_plain hpid, translate_append (by simp), htranslate]
  simp

/-- What is read of a process, for every name. -/
theorem getPidStat_statText {process : Process} {pid : Nat} {name : Text} {tail : Tail}
    (h : process.stat = some (encode (statText pid name tail))) :
    getPidStat process =
      match claimed (Kdump.translate name ++ ')' :: ' ' :: tail.text) with
      | none => .ok none
      | some (comm, ppid) =>
        match Str.int (String.ofList ppid) with
        | none => .error .valueError
        | some n => .ok (some (String.ofList comm, n)) := by
  unfold getPidStat
  rw [h, contents_statText]
  dsimp only
  rw [statMatch_eq]
  cases claimed (Kdump.translate name ++ ')' :: ' ' :: tail.text) with
  | none => rfl
  | some m => rfl

theorem claimed_statText (name : Text) (tail : Tail) :
    claimed (Kdump.translate name ++ ')' :: ' ' :: tail.text) =
      if '\n' ∈ Kdump.translate name then claimed (Kdump.translate name)
      else some (Kdump.translate name, Nat.toDigits 10 tail.ppid) := by
  split
  · next h => exact claimed_of_newline h _
  · next h =>
    have hparen : ')' ∉ ' ' :: tail.text := by
      have htext : ')' ∉ tail.text := Tail.not_mem_text (.inl rfl)
      simpa using htext
    exact claimed_of_line h hparen (status_tail tail)

/-! ## Names that forge nothing -/

theorem int_toDigits {n : Nat} {ppid : Int} (h : Str.int (String.ofList (Nat.toDigits 10 n)) = some ppid) :
    ppid = n := by
  have hint := Str.int_numeral_eq 0 n
  have hnumeral : Str.numeral 0 n = Nat.toDigits 10 n := rfl
  rw [hnumeral, h] at hint
  split at hint
  · exact Option.some.inj hint
  · cases hint

theorem truthful_of_not_forges {process : Process} {pid : Nat} {name : Text} {tail : Tail}
    (h : process.stat = some (encode (statText pid name tail))) (hname : ¬Forges name) : Truthful tail process := by
  intro comm ppid hget
  rw [getPidStat_statText h, claimed_statText] at hget
  by_cases hline : '\n' ∈ Kdump.translate name
  · rw [if_pos hline] at hget
    cases hclaimed : claimed (Kdump.translate name) with
    | none => simp [hclaimed] at hget
    | some m =>
      have hint : Str.int (String.ofList m.2) = none := by
        by_contra hne
        exact hname ⟨hline, m.1, m.2, claimed_eq_some.1 hclaimed, hne⟩
      simp [hclaimed, hint] at hget
  · rw [if_neg hline] at hget
    dsimp only at hget
    cases hint : Str.int (String.ofList (Nat.toDigits 10 tail.ppid)) with
    | none => simp [hint] at hget
    | some n =>
      rw [hint] at hget
      cases hget
      exact int_toDigits hint

/-- A name that forges a number, whatever the kernel prints after it. -/
theorem getPidStat_of_forges {name : Text} (h : Forges name) :
    ∃ comm n, ∀ process pid tail, process.stat = some (encode (statText pid name tail)) →
      getPidStat process = .ok (some (comm, n)) := by
  obtain ⟨hline, comm, ppid, hlast, hint⟩ := h
  obtain ⟨n, hn⟩ := Option.ne_none_iff_exists'.1 hint
  refine ⟨String.ofList comm, n, ?_⟩
  intro process pid tail hstat
  rw [getPidStat_statText hstat, claimed_statText, if_pos hline, claimed_eq_some.2 hlast]
  dsimp only
  rw [hn]

/-- What the kernel prints after the name, for a parent. -/
def tailOf (ppid : Nat) : Tail where
  state := 'S'
  ppid := ppid
  numbers := []
  newline := true
  isAlpha := rfl

/-- A process of which only the file with its parent can be read, and a command line that is empty. -/
def bare (bytes : List UInt8) : Process := { environ := none, stat := some bytes, cmdline := some [] }

theorem exists_ne (n : Int) : ∃ ppid : Nat, (ppid : Int) ≠ n := by
  by_cases h : n = 0
  · exact ⟨1, by omega⟩
  · exact ⟨0, by omega⟩

theorem truthful_iff (name : Text) :
    (∀ process pid tail, process.stat = some (encode (statText pid name tail)) → Truthful tail process) ↔
      ¬Forges name := by
  constructor
  · intro h hname
    obtain ⟨comm, n, hget⟩ := getPidStat_of_forges hname
    obtain ⟨ppid, hne⟩ := exists_ne n
    have hread := hget (bare (encode (statText 2 name (tailOf ppid)))) 2 (tailOf ppid) rfl
    exact hne (h _ 2 (tailOf ppid) rfl comm n hread).symm
  · intro hname process pid tail hstat
    exact truthful_of_not_forges hstat hname

/-! ## The walk -/

theorem getPidStat_of_again {world : World} {s s' : Int × Option Int} (h : Again (round world) s s') :
    1 < s.1 ∧ ∃ comm, getPidStat (world s.1) = .ok (some (comm, s'.1)) := by
  obtain ⟨hpid, honward⟩ := (again_iff world s.1 s'.1 s.2).1 ⟨s'.2, h⟩
  refine ⟨hpid, ?_⟩
  cases honward with
  | other _ hs _ => exact ⟨_, hs⟩
  | reaper _ hs _ _ => exact ⟨_, hs⟩

theorem onward_bare {bytes : List UInt8} {comm : String} {n : Int}
    (h : getPidStat (bare bytes) = .ok (some (comm, n))) : Onward (bare bytes) n := by
  have hid : gameId (bare bytes) = .ok none := rfl
  by_cases hcomm : comm = "reaper"
  · subst hcomm
    have hcmdline : contents (bare bytes).cmdline = .text [] := contents_encode []
    have hids : (launchIds (arguments [])).mapM number = some [] := by decide
    exact .reaper hid h hcmdline hids
  · exact .other hid h hcomm

/-- A walk in which no name forges a parent. -/
theorem followsParents {names : Int → Text} {parent : Int → Int} {world : World} (h : Printed names parent world)
    (hnames : ∀ pid, 1 < pid → ¬Forges (names pid)) : FollowsParents parent world := by
  intro pid s s' _ hstep
  obtain ⟨hpid, comm, hget⟩ := getPidStat_of_again hstep
  cases hstat : (world s.1).stat with
  | none => simp [getPidStat, hstat, contents] at hget
  | some bytes =>
    obtain ⟨tail, hparent, rfl⟩ := h s.1 hpid bytes hstat
    rw [← hparent]
    exact truthful_of_not_forges hstat (hnames s.1 hpid) comm s'.1 hget

/-- `get_pid_stat` finds the parent or nothing, whatever the kernel prints after the name, just when the name forges
nothing. So `get_appid` goes from parents to parents just when no name does. -/
theorem parents_iff_not_forged (name : Text) (names : Int → Text) :
    ((∀ process pid tail, process.stat = some (encode (statText pid name tail)) → Truthful tail process) ↔
        ¬Forges name) ∧
      ((∀ parent world, Printed names parent world → FollowsParents parent world) ↔
        ∀ pid, 1 < pid → ¬Forges (names pid)) := by
  refine ⟨truthful_iff name, ?_⟩
  constructor
  · intro h pid hpid hname
    obtain ⟨comm, n, hget⟩ := getPidStat_of_forges hname
    obtain ⟨ppid, hne⟩ := exists_ne n
    let bytes := encode (statText pid.toNat (names pid) (tailOf ppid))
    let world : World := fun q => if q = pid then bare bytes else { environ := none, stat := none, cmdline := none }
    have hworld : world pid = bare bytes := if_pos rfl
    have hprinted : Printed names (fun _ => ppid) world := by
      intro q _ read hread
      by_cases hq : q = pid
      · subst hq
        rw [hworld] at hread
        exact ⟨tailOf ppid, rfl, (Option.some.inj hread).symm⟩
      · simp [world, hq] at hread
    have hgoes : Goes world pid n := by
      refine ⟨hpid, ?_⟩
      rw [hworld]
      exact onward_bare (hget (bare bytes) pid.toNat (tailOf ppid) rfl)
    obtain ⟨appid, hstep⟩ := (again_iff world pid n none).2 hgoes
    exact hne (h _ world hprinted pid (pid, none) (n, appid) .refl hstep).symm
  · intro hnames parent world hprinted
    exact followsParents hprinted hnames

/-- A status and the end of a line. -/
def forged : Text := "x) S 7\r".toList

/-- A process of that name, whose parent is 1, and a game that is not above it. -/
def besideGame : World := fun pid =>
  if pid = 42 then bare (encode (statText 42 forged (tailOf 1)))
  else if pid = 7 then game '1'
  else { environ := none, stat := none, cmdline := none }

/-- The process passes for one of the game's. -/
theorem forged_parent :
    '\x00' ∉ forged ∧ Printed (fun _ => forged) (fun _ => 1) besideGame ∧ ¬Truthful (tailOf 1) (besideGame 42) ∧
      ¬FollowsParents (fun _ => 1) besideGame ∧ getAppid besideGame 2 42 = some (.ok (some 1)) := by
  have hget : getPidStat (besideGame 42) = .ok (some ("x", 7)) := by decide +kernel
  have hprinted : Printed (fun _ => forged) (fun _ => 1) besideGame := by
    intro pid _ bytes hstat
    by_cases hpid : pid = 42
    · subst hpid
      exact ⟨tailOf 1, rfl, (Option.some.inj hstat).symm⟩
    · by_cases hgame : pid = 7
      · simp [besideGame, hgame, game] at hstat
      · simp [besideGame, hpid, hgame] at hstat
  refine ⟨by decide, hprinted, ?_, ?_, by decide +kernel⟩
  · intro htruthful
    exact absurd (htruthful "x" 7 hget) (by decide)
  · intro hfollows
    have hgoes : Goes besideGame 42 7 := ⟨by decide, onward_bare hget⟩
    obtain ⟨appid, hstep⟩ := (again_iff besideGame 42 7 none).2 hgoes
    have hparent : (7 : Int) = 1 := hfollows 42 (42, none) (7, appid) .refl hstep
    exact absurd hparent (by decide)

end LogSubmitter.Appid

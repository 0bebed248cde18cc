import LogSubmitter.Appid.Errors
import Mathlib.Logic.Function.Basic
/-!
# Which ancestor decides

An id in an environment ends the walk. One on a command line does not: what is above the
process can replace it, or take it away.
-/
namespace LogSubmitter.Appid

open Lib Json Loop Relation

/-! ## Chains of ancestors -/

/-- The process has no id, and the loop goes on to this parent. -/
inductive Passes (process : Process) (ppid : Int) : Prop
  | other {comm : String} :
      gameId process = .ok none → getPidStat process = .ok (some (comm, ppid)) → comm ≠ "reaper" → Passes process ppid
  | reaper {cmdline : Text} :
      gameId process = .ok none → getPidStat process = .ok (some ("reaper", ppid)) →
      contents process.cmdline = .text cmdline → launchIds (arguments cmdline) = [] → Passes process ppid

/-- From a process up to another one, over the processes between them. -/
inductive Chain (world : World) : Int → List Int → Int → Prop
  | here {pid : Int} : 1 < pid → Chain world pid [] pid
  | up {pid ppid q : Int} {below : List Int} :
      1 < pid → Passes (world pid) ppid → Chain world ppid below q → Chain world pid (pid :: below) q

/-- The process has this id. A number later on the command line goes before those before it. -/
inductive Supplies (process : Process) (id : Int) : Prop
  | environ : gameId process = .ok (some id) → Supplies process id
  | launch {ppid : Int} {cmdline : Text} :
      (∀ other, gameId process ≠ .ok (some other)) → getPidStat process = .ok (some ("reaper", ppid)) →
      contents process.cmdline = .text cmdline →
      ((launchIds (arguments cmdline)).filterMap number).getLast? = some id → Supplies process id

/-- The id is in the environment. Or else the environment can be read, all ids on the command line are numbers, and no
parent is looked at; if they are not all numbers, the id is not one of Steam's. -/
def Decides (process : Process) (id : Int) : Prop :=
  gameId process = .ok (some id) ∨
    gameId process = .ok none ∧ ∀ ppid cmdline, getPidStat process = .ok (some ("reaper", ppid)) →
      contents process.cmdline = .text cmdline →
      if (launchIds (arguments cmdline)).mapM number = none then 0x80000000 ≤ id else ppid ≤ 1

/-- The processes of the chain, whatever is above it. -/
def Agree (world world' : World) (l : List Int) : Prop := ∀ p ∈ l, world' p = world p

theorem look_of_passes {process : Process} {ppid : Int} (h : Passes process ppid) (appid : Option Int) :
    look process appid = .again (ppid, appid) := by
  unfold look
  cases h with
  | other hid hs hcomm => simp [hid, hs, hcomm]
  | reaper hid hs hc hids => simp [hid, hs, hc, readArgs_eq, hids]

theorem again_of_look {world : World} {pid ppid : Int} {appid appid' : Option Int} (hpid : 1 < pid)
    (h : look (world pid) appid = .again (ppid, appid')) :
    Again (round world) (pid, appid) (ppid, appid') := by
  unfold Again
  rw [round_of_lt hpid, h]

theorem Chain.one_lt {world : World} {pid q : Int} {below : List Int} (h : Chain world pid below q) : 1 < q := by
  induction h with
  | here hpid => exact hpid
  | up _ _ _ ih => exact ih

/-- Going up a chain changes nothing. -/
theorem Chain.steps {world : World} {pid q : Int} {below : List Int} (h : Chain world pid below q)
    (appid : Option Int) : ReflTransGen (Again (round world)) (pid, appid) (q, appid) := by
  induction h with
  | here => exact .refl
  | up hpid hpasses _ ih => exact .head (again_of_look hpid (look_of_passes hpasses appid)) ih

theorem Chain.congr {world world' : World} {pid q : Int} {below : List Int} (h : Chain world pid below q)
    (hagree : Agree world world' below) : Chain world' pid below q := by
  induction h with
  | here hpid => exact .here hpid
  | @up pid ppid q below hpid hpasses _ ih =>
    refine .up hpid ?_ (ih fun p hp => hagree p (List.mem_cons_of_mem _ hp))
    rwa [hagree pid List.mem_cons_self]

/-- From each of its processes, the rest of a chain is a chain. -/
theorem Chain.of_mem {world : World} {pid q p : Int} {below : List Int} (h : Chain world pid below q)
    (hp : p ∈ q :: below) : ∃ rest, Chain world p rest q := by
  induction h with
  | here hpid =>
    rw [List.mem_singleton.1 hp]
    exact ⟨[], .here hpid⟩
  | @up pid ppid q below hpid hpasses hchain ih =>
    rcases List.mem_cons.1 hp with rfl | hp
    · exact ⟨[], .here hchain.one_lt⟩
    · rcases List.mem_cons.1 hp with rfl | hp
      · exact ⟨p :: below, .up hpid hpasses hchain⟩
      · exact ih (List.mem_cons_of_mem _ hp)

/-! ## The process that has an id -/

theorem filterMap_of_mapM {l : List Text} {ids : List Int} (h : l.mapM number = some ids) :
    l.filterMap number = ids := by
  induction l generalizing ids with
  | nil =>
    cases h
    rfl
  | cons id l ih =>
    rw [List.mapM_cons] at h
    cases hn : number id with
    | none => simp [hn] at h
    | some n =>
      cases hl : l.mapM number with
      | none => simp [hn, hl] at h
      | some rest =>
        simp only [hn, hl, Option.pure_def, Option.bind_eq_bind, Option.bind_some, Option.some.injEq] at h
        rw [List.filterMap_cons_some hn, ih hl, h]

section
variable {process : Process} {ppid id : Int} {cmdline : Text} {ids : List Int}

theorem look_of_gameId (h : gameId process = .ok (some id)) (appid : Option Int) :
    look process appid = .done (.ok (result (some id))) := by
  simp [look, h]

/-- An id of the command line is kept, and the loop goes on. -/
theorem look_of_launch (hid : gameId process = .ok none) (hs : getPidStat process = .ok (some ("reaper", ppid)))
    (hc : contents process.cmdline = .text cmdline) (hm : (launchIds (arguments cmdline)).mapM number = some ids)
    (hlast : ((launchIds (arguments cmdline)).filterMap number).getLast? = some id) (appid : Option Int) :
    look process appid = .again (ppid, some id) := by
  rw [filterMap_of_mapM hm] at hlast
  simp [look, hid, hs, hc, readArgs_eq, hm, hlast]

theorem look_of_malformed (hid : gameId process = .ok none) (hs : getPidStat process = .ok (some ("reaper", ppid)))
    (hc : contents process.cmdline = .text cmdline) (hm : (launchIds (arguments cmdline)).mapM number = none)
    (appid : Option Int) : look process appid = .done (.ok none) := by
  simp [look, hid, hs, hc, readArgs_eq, hm]

end

theorem result_eq_none {id : Int} : result (some id) = none ↔ 0x80000000 ≤ id := by
  simp [result]

/-- What the loop yields if it ends in the process at the end of the chain. -/
theorem Chain.yields_of_end {world : World} {pid q : Int} {below : List Int} (h : Chain world pid below q)
    {outcome : Except Raised (Option Int)} (hlook : look (world q) none = .done outcome)
    (other : Except Raised (Option Int)) :
    Yields (round world) (pid, none) other ↔ other = outcome := by
  rw [yields_of_steps (h.steps none)]
  apply yields_of_done
  rw [round_of_lt h.one_lt, hlook]

/-- And if it goes on there. -/
theorem Chain.yields_onward {world : World} {pid q ppid : Int} {below : List Int} {appid : Option Int}
    (h : Chain world pid below q) (hlook : look (world q) none = .again (ppid, appid))
    (other : Except Raised (Option Int)) :
    Yields (round world) (pid, none) other ↔ Yields (round world) (ppid, appid) other := by
  rw [yields_of_steps (h.steps none)]
  exact yields_of_again (again_of_look h.one_lt hlook)

/-- A parent that is below leads back to the process, again and again. -/
theorem Chain.not_yields {world : World} {pid q ppid : Int} {below : List Int} {id : Int}
    (h : Chain world pid below q) (hlook : ∀ appid, look (world q) appid = .again (ppid, some id))
    (hback : ppid ∈ q :: below) (other : Except Raised (Option Int)) : ¬Yields (round world) (pid, none) other := by
  rw [h.yields_onward (hlook none)]
  obtain ⟨rest, hrest⟩ := h.of_mem hback
  have hround : Again (round world) (q, some id) (ppid, some id) := again_of_look h.one_lt (hlook (some id))
  exact not_yields_of_cycle (TransGen.tail' (hrest.steps (some id)) hround)

/-! ## A parent with an id -/

/-- A game that was started with an id of one digit. -/
def game (digit : Char) : Process :=
  { environ := some (encode ("SteamGameId=".toList ++ [digit])), stat := none, cmdline := none }

theorem gameId_game : gameId (game '1') = .ok (some 1) ∧ gameId (game '2') = .ok (some 2) := by
  unfold gameId game
  rw [contents_encode, contents_encode]
  decide +kernel

theorem agree_update {world : World} {l : List Int} {ppid : Int} (h : ppid ∉ l) (process : Process) :
    Agree world (Function.update world ppid process) l := by
  intro p hp
  apply Function.update_of_ne
  rintro rfl
  exact h hp

/-- A game in the place of the parent has its own id returned. -/
theorem Chain.yields_game {world : World} {pid q ppid : Int} {below : List Int} {appid : Option Int} {digit : Char}
    {n : Int} (h : Chain world pid below q) (hlook : look (world q) none = .again (ppid, appid)) (htop : 1 < ppid)
    (habove : ppid ∉ q :: below) (hgame : gameId (game digit) = .ok (some n)) :
    Yields (round (Function.update world ppid (game digit))) (pid, none) (.ok (result (some n))) := by
  have hagree : Agree world (Function.update world ppid (game digit)) (q :: below) := agree_update habove _
  have hchain := h.congr fun p hp => hagree p (List.mem_cons_of_mem _ hp)
  rw [← hagree q List.mem_cons_self] at hlook
  rw [hchain.yields_onward hlook]
  refine (yields_of_done ?_).2 rfl
  rw [round_of_lt htop, Function.update_self, look_of_gameId hgame]

/-! ## What the chain decides -/

/-- If the id does not depend on what is above, no parent is looked at. -/
theorem Chain.le_one {world : World} {pid q ppid id : Int} {below : List Int} (h : Chain world pid below q)
    (hlook : ∀ appid, look (world q) appid = .again (ppid, some id))
    (hsame : ∀ world', Agree world world' (q :: below) →
      Yields (round world') (pid, none) (.ok (result (some id)))) : ppid ≤ 1 := by
  by_contra htop
  by_cases hback : ppid ∈ q :: below
  · exact h.not_yields hlook hback _ (hsame world fun p _ => rfl)
  · -- Two games above the process have different results.
    have hone := (h.yields_game (hlook none) (Int.not_le.1 htop) hback gameId_game.1).unique
      (hsame _ (agree_update hback (game '1')))
    have htwo := (h.yields_game (hlook none) (Int.not_le.1 htop) hback gameId_game.2).unique
      (hsame _ (agree_update hback (game '2')))
    cases hone.trans htwo.symm

/-- What decides is what is returned. -/
theorem Chain.yields_of_decides {world : World} {pid q id : Int} {below : List Int} (h : Chain world pid below q)
    (hsupplies : Supplies (world q) id) (hdecides : Decides (world q) id) :
    Yields (round world) (pid, none) (.ok (result (some id))) := by
  rcases hdecides with hid | ⟨hid, hparent⟩
  · exact (h.yields_of_end (look_of_gameId hid none) _).2 rfl
  · cases hsupplies with
    | environ hid' => cases hid.symm.trans hid'
    | @launch ppid cmdline hnot hs hc hlast =>
      have hthen := hparent ppid cmdline hs hc
      cases hm : (launchIds (arguments cmdline)).mapM number with
      | none =>
        rw [if_pos hm, ← result_eq_none] at hthen
        rw [hthen]
        exact (h.yields_of_end (look_of_malformed hid hs hc hm none) _).2 rfl
      | some ids =>
        rw [if_neg (by simp [hm])] at hthen
        rw [h.yields_onward (look_of_launch hid hs hc hm hlast none)]
        exact (yields_of_done (round_of_le hthen world (some id))).2 rfl

/-- Once a process of the chain has an id, that is the result, whatever is above, if it is in the environment or no
parent is looked at. -/
theorem decides_iff {world : World} {pid q : Int} {below : List Int} {id : Int} (hchain : Chain world pid below q)
    (hsupplies : Supplies (world q) id) :
    (∀ world', Agree world world' (q :: below) → ∃ fuel, getAppid world' fuel pid = some (.ok (result (some id)))) ↔
      Decides (world q) id := by
  constructor
  · intro h
    cases hsupplies with
    | environ hid => exact .inl hid
    | @launch ppid cmdline hnot hs hc hlast =>
      have hworld : Yields (round world) (pid, none) (.ok (result (some id))) := h world fun p _ => rfl
      cases hid : gameId (world q) with
      | error e =>
        have hlook : look (world q) none = .done (.error e) := by simp [look, hid]
        cases (hchain.yields_of_end hlook _).1 hworld
      | ok found =>
        cases found with
        | some other => exact absurd hid (hnot other)
        | none =>
          refine .inr ⟨hid, ?_⟩
          intro ppid' cmdline' hs' hc'
          cases hs.symm.trans hs'
          cases hc.symm.trans hc'
          split
          · rename_i hm
            have heq := (hchain.yields_of_end (look_of_malformed hid hs hc hm none) _).1 hworld
            exact result_eq_none.1 (Except.ok.inj heq)
          · rename_i hm
            obtain ⟨ids, hids⟩ := Option.ne_none_iff_exists'.1 hm
            exact hchain.le_one (look_of_launch hid hs hc hids hlast) h
  · intro h world' hagree
    have hchain' := hchain.congr fun p hp => hagree p (List.mem_cons_of_mem _ hp)
    rw [← hagree q List.mem_cons_self] at hsupplies h
    exact hchain'.yields_of_decides hsupplies h

/-! ## Reapers -/

/-- A process with these files. -/
def process (environ stat cmdline : String) : Process :=
  ⟨some (encode environ.toList), some (encode stat.toList), some (encode cmdline.toList)⟩

/-- What a reaper is started with. -/
def launch : String := "reaper\x00SteamLaunch\x00AppId=100"

/-- A process under a reaper. -/
def underReaper : World := fun pid =>
  if pid = 3 then process "" "3 (tester) S 2 0" "tester" else process "" "2 (reaper) S 1 0" launch

theorem launch_decides : ∃ fuel, getAppid underReaper fuel 3 = some (.ok (result (some 100))) := by
  have hpasses : Passes (underReaper 3) 2 := by
    have htester : getPidStat (underReaper 3) = .ok (some ("tester", 2)) := by decide +kernel
    exact .other (by decide +kernel) htester (by decide)
  have hchain : Chain underReaper 3 [3] 2 := .up (by decide) hpasses (.here (by decide))
  have hstat : getPidStat (underReaper 2) = .ok (some ("reaper", 1)) := by decide +kernel
  have hcmdline : contents (underReaper 2).cmdline = .text (Kdump.translate launch.toList) := contents_encode _
  have hsupplies : Supplies (underReaper 2) 100 := by
    refine .launch ?_ hstat hcmdline (by decide +kernel)
    intro other
    have hid : gameId (underReaper 2) = .ok none := by decide +kernel
    simp [hid]
  refine (decides_iff hchain hsupplies).2 (.inr ⟨by decide +kernel, ?_⟩) underReaper fun p _ => rfl
  intro ppid cmdline hs hc
  cases hstat.symm.trans hs
  cases hcmdline.symm.trans hc
  decide +kernel

/-- A reaper under a process with an id of its own. -/
def underGame : World := fun pid =>
  if pid = 3 then process "" "3 (reaper) S 2 0" launch else process "SteamGameId=200" "2 (hl2.exe) S 1 0" "hl2.exe"

/-- The id of the ancestor is the result. -/
theorem ancestor_overrides :
    Chain underGame 3 [] 3 ∧ Supplies (underGame 3) 100 ∧
      ¬∃ fuel, getAppid underGame fuel 3 = some (.ok (result (some 100))) := by
  have hid : gameId (underGame 3) = .ok none := by decide +kernel
  have hstat : getPidStat (underGame 3) = .ok (some ("reaper", 2)) := by decide +kernel
  refine ⟨.here (by decide), .launch (by simp [hid]) hstat (contents_encode launch.toList) (by decide +kernel), ?_⟩
  have hother : Yields (round underGame) (3, none) (.ok (some 200)) := ⟨2, by decide +kernel⟩
  intro h
  cases hother.unique h

end LogSubmitter.Appid

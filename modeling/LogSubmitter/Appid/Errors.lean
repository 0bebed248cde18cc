import LogSubmitter.Appid
/-!
# Processes that cannot be read

Handlers for `OSError` are around the files. What cannot be decoded raises another error,
and so does a number that is too long for `int`.
-/
namespace LogSubmitter.Appid

open Lib Json Loop Relation

/-! ## What a process leads to -/

/-- The loop goes on to this parent. -/
inductive Onward (process : Process) (ppid : Int) : Prop
  | other {comm : String} :
      gameId process = .ok none → getPidStat process = .ok (some (comm, ppid)) → comm ≠ "reaper" → Onward process ppid
  | reaper {cmdline : Text} {ids : List Int} :
      gameId process = .ok none → getPidStat process = .ok (some ("reaper", ppid)) →
      contents process.cmdline = .text cmdline → (launchIds (arguments cmdline)).mapM number = some ids →
      Onward process ppid

/-- A file that is read of the process cannot be decoded, or `int` does not take the number of its parent. -/
inductive Illegible (process : Process) : Prop
  | environ : contents process.environ = .undecodable → Illegible process
  | stat : gameId process = .ok none → contents process.stat = .undecodable → Illegible process
  | ppid {stat : Text} {groups : Regex.Groups} :
      gameId process = .ok none → contents process.stat = .text stat → statMatch stat = some groups →
      Str.int (Kdump.part "2" groups) = none → Illegible process
  | cmdline {ppid : Int} :
      gameId process = .ok none → getPidStat process = .ok (some ("reaper", ppid)) →
      contents process.cmdline = .undecodable → Illegible process

theorem gameId_error {process : Process} {e : Raised} (h : gameId process = .error e) : Illegible process := by
  unfold gameId at h
  cases hc : contents process.environ with
  | undecodable => exact .environ hc
  | osError =>
    rw [hc] at h
    cases h
  | text environ =>
    rw [hc] at h
    cases h

theorem getPidStat_error {process : Process} {e : Raised} (hid : gameId process = .ok none)
    (h : getPidStat process = .error e) : Illegible process := by
  unfold getPidStat at h
  cases hc : contents process.stat with
  | undecodable => exact .stat hid hc
  | osError =>
    rw [hc] at h
    cases h
  | text stat =>
    rw [hc] at h
    cases hm : statMatch stat with
    | none => simp [hm] at h
    | some groups =>
      cases hn : Str.int (Kdump.part "2" groups) with
      | none => exact .ppid hid hc hm hn
      | some ppid => simp [hm, hn] at h

/-- What a round can come to, and why. -/
inductive Looked (process : Process) : Round (Int × Option Int) (Except Raised (Option Int)) → Prop
  | raised {e : Raised} : Illegible process → Looked process (.done (.error e))
  | returned {id : Option Int} : Looked process (.done (.ok id))
  | again {ppid : Int} {appid : Option Int} : Onward process ppid → Looked process (.again (ppid, appid))

theorem looked (process : Process) (appid : Option Int) : Looked process (look process appid) := by
  unfold look
  cases hid : gameId process with
  | error e => exact .raised (gameId_error hid)
  | ok id =>
    cases id with
    | some id => exact .returned
    | none =>
      dsimp only
      cases hs : getPidStat process with
      | error e => exact .raised (getPidStat_error hid hs)
      | ok read =>
        rcases read with - | ⟨comm, ppid⟩
        · exact .returned
        · dsimp only
          by_cases hcomm : comm = "reaper"
          · subst hcomm
            rw [if_pos rfl]
            cases hc : contents process.cmdline with
            | osError => exact .returned
            | undecodable => exact .raised (.cmdline hid hs hc)
            | text cmdline =>
              dsimp only
              rw [readArgs_eq]
              cases hm : (launchIds (arguments cmdline)).mapM number with
              | none => exact .returned
              | some ids => exact .again (.reaper hid hs hc hm)
          · rw [if_neg hcomm]
            exact .again (.other hid hs hcomm)

theorem look_of_illegible {process : Process} (h : Illegible process) (appid : Option Int) :
    ∃ e, look process appid = .done (.error e) := by
  unfold look
  cases h with
  | environ hc => exact ⟨.unicodeDecodeError, by simp [gameId, hc]⟩
  | stat hid hc => exact ⟨.unicodeDecodeError, by simp [hid, getPidStat, hc]⟩
  | ppid hid hc hm hn => exact ⟨.valueError, by simp [hid, getPidStat, hc, hm, hn]⟩
  | cmdline hid hs hc => exact ⟨.unicodeDecodeError, by simp [hid, hs, hc]⟩

theorem look_of_onward {process : Process} {ppid : Int} (h : Onward process ppid) (appid : Option Int) :
    ∃ appid', look process appid = .again (ppid, appid') := by
  unfold look
  cases h with
  | other hid hs hcomm => exact ⟨appid, by simp [hid, hs, hcomm]⟩
  | @reaper cmdline ids hid hs hc hm => exact ⟨ids.getLast?.or appid, by simp [hid, hs, hc, readArgs_eq, hm]⟩

/-! ## The walk -/

/-- The loop goes on from one process to the other. -/
def Goes (world : World) (pid ppid : Int) : Prop := 1 < pid ∧ Onward (world pid) ppid

theorem again_iff (world : World) (pid ppid : Int) (appid : Option Int) :
    (∃ appid', Again (round world) (pid, appid) (ppid, appid')) ↔ Goes world pid ppid := by
  unfold Again Goes
  by_cases hpid : 1 < pid
  · simp only [round_of_lt hpid, hpid, true_and]
    constructor
    · rintro ⟨appid', h⟩
      have hlooked := looked (world pid) appid
      rw [h] at hlooked
      cases hlooked with
      | again honward => exact honward
    · intro h
      exact look_of_onward h appid
  · simp [round_of_le (Int.not_lt.1 hpid), hpid]

theorem Goes.unique {world : World} {pid p q : Int} (hp : Goes world pid p) (hq : Goes world pid q) : p = q := by
  obtain ⟨a, ha⟩ := (again_iff world pid p none).2 hp
  obtain ⟨b, hb⟩ := (again_iff world pid q none).2 hq
  unfold Again at ha hb
  rw [ha] at hb
  cases hb
  rfl

/-- Where the loop ends with a value, the process has been legible, and there is no parent to go on to. -/
theorem done_iff (world : World) (pid : Int) (appid : Option Int) :
    (∃ id, round world (pid, appid) = .done (.ok id)) ↔
      (1 < pid → ¬Illegible (world pid)) ∧ ∀ q, ¬Goes world pid q := by
  constructor
  · rintro ⟨id, h⟩
    constructor
    · intro hpid hillegible
      obtain ⟨e, he⟩ := look_of_illegible hillegible appid
      rw [round_of_lt hpid, he] at h
      cases h
    · intro q hgoes
      obtain ⟨appid', hagain⟩ := (again_iff world pid q appid).2 hgoes
      unfold Again at hagain
      rw [h] at hagain
      cases hagain
  · rintro ⟨hlegible, hlast⟩
    by_cases hpid : 1 < pid
    · rw [round_of_lt hpid]
      have hlooked := looked (world pid) appid
      generalize look (world pid) appid = looked at hlooked
      cases hlooked with
      | raised hillegible => exact absurd hillegible (hlegible hpid)
      | returned => exact ⟨_, rfl⟩
      | again honward => exact absurd ⟨hpid, honward⟩ (hlast _)
    · exact ⟨result appid, round_of_le (Int.not_lt.1 hpid) world appid⟩

theorem legible_of_goes {world : World} {pid q : Int} (h : Goes world pid q) : ¬Illegible (world pid) := by
  intro hillegible
  obtain ⟨e, he⟩ := look_of_illegible hillegible none
  obtain ⟨appid, hagain⟩ := look_of_onward h.2 none
  rw [he] at hagain
  cases hagain

/-- The loop goes on as far as there are parents. -/
theorem steps_of_goes {world : World} {pid q : Int} (h : ReflTransGen (Goes world) pid q) (appid : Option Int) :
    ∃ appid', ReflTransGen (Again (round world)) (pid, appid) (q, appid') := by
  induction h with
  | refl => exact ⟨appid, .refl⟩
  | tail _ hgoes ih =>
    obtain ⟨appid', hsteps⟩ := ih
    obtain ⟨appid'', hagain⟩ := (again_iff world _ _ appid').2 hgoes
    exact ⟨appid'', hsteps.tail hagain⟩

/-- Nothing on the way to the last round is illegible. -/
theorem legible_of_steps {world : World} {s t : Int × Option Int} (h : ReflTransGen (Again (round world)) s t)
    {id : Option Int} (hdone : round world t = .done (.ok id)) :
    (∀ p, ReflTransGen (Goes world) s.1 p → 1 < p → ¬Illegible (world p)) ∧
      ∃ last, ReflTransGen (Goes world) s.1 last ∧ ∀ q, ¬Goes world last q := by
  induction h using ReflTransGen.head_induction_on with
  | refl =>
    obtain ⟨hlegible, hlast⟩ := (done_iff world t.1 t.2).1 ⟨id, hdone⟩
    refine ⟨?_, t.1, .refl, hlast⟩
    intro p hp
    rcases ReflTransGen.cases_head hp with rfl | ⟨q, hgoes, -⟩
    · exact hlegible
    · exact absurd hgoes (hlast q)
  | @head s s' hagain _ ih =>
    have hgoes : Goes world s.1 s'.1 := (again_iff world s.1 s'.1 s.2).1 ⟨s'.2, hagain⟩
    obtain ⟨hlegible, last, hsteps, hlast⟩ := ih
    refine ⟨?_, last, .head hgoes hsteps, hlast⟩
    intro p hp
    rcases ReflTransGen.cases_head hp with rfl | ⟨q, hq, hrest⟩
    · exact fun _ => legible_of_goes hgoes
    · exact hlegible p (hgoes.unique hq ▸ hrest)

/-- A value is returned if all that is read on the way up can be, and the way ends. -/
theorem returns_iff (world : World) (pid : Int) :
    (∃ fuel id, getAppid world fuel pid = some (.ok id)) ↔
      (∀ p, ReflTransGen (Goes world) pid p → 1 < p → ¬Illegible (world p)) ∧
        ∃ last, ReflTransGen (Goes world) pid last ∧ ∀ q, ¬Goes world last q := by
  constructor
  · rintro ⟨fuel, id, h⟩
    obtain ⟨t, hsteps, hdone⟩ := yields_iff.1 ⟨fuel, h⟩
    exact legible_of_steps hsteps hdone
  · rintro ⟨hlegible, last, hgoes, hlast⟩
    obtain ⟨appid, hsteps⟩ := steps_of_goes hgoes none
    obtain ⟨id, hdone⟩ := (done_iff world last appid).2 ⟨hlegible last hgoes, hlast⟩
    obtain ⟨fuel, hrun⟩ := yields_iff.2 ⟨(last, appid), hsteps, hdone⟩
    exact ⟨fuel, id, hrun⟩

/-- A process whose environment is not text. -/
def garbled : World := fun _ => { environ := some [0xff], stat := none, cmdline := none }

theorem garbled_raises :
    getAppid garbled 1 2 = some (.error .unicodeDecodeError) ∧
      ¬∃ fuel id, getAppid garbled fuel 2 = some (.ok id) := by
  have hraised : round garbled (2, none) = .done (.error .unicodeDecodeError) := by rfl
  refine ⟨by rfl, ?_⟩
  rintro ⟨fuel, id, h⟩
  cases (yields_of_done hraised).1 ⟨fuel, h⟩

end LogSubmitter.Appid

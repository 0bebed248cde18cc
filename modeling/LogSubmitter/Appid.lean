import LogSubmitter.Kdump.Submit
import LogSubmitter.Lib.Loop
/-!
# The game of a process

`get_appid` goes from a process to its parent and on. All it knows of them is in files in
`/proc`, and the processes have a say in what these contain.
-/
namespace LogSubmitter.Appid

open Lib Json
open Loop (Round run)

abbrev Text := List Char

/-! ## The files -/

/-- The files of a process, `none` where `open` or `read` raises an `OSError`. -/
structure Process where
  environ : Option (List UInt8)
  stat : Option (List UInt8)
  cmdline : Option (List UInt8)

abbrev World := Int → Process

/-- What comes of reading a text file. -/
inductive Contents where
  | text (text : Text)
  | osError
  | undecodable

def contents : Option (List UInt8) → Contents
  | none => .osError
  | some bytes =>
    match decode bytes with
    | none => .undecodable
    | some text => .text (Kdump.translate text)

theorem contents_encode (text : Text) : contents (some (encode text)) = .text (Kdump.translate text) := by
  unfold contents
  dsimp only
  rw [decode_encode]

inductive Raised where
  | unicodeDecodeError
  | valueError
  deriving DecidableEq

/-! ## `get_pid_stat` -/

section
open Regex

/-- `\d+\s+\((.*)\)\s+[A-Za-z]\s+(\d+)` -/
def statParse : Regex :=
  all [atLeastOne Kdump.isDigit, atLeastOne Str.isSpace, literal "(", group "1" (anyNumber (· ≠ '\n')), literal ")",
    atLeastOne Str.isSpace, char Char.isAlpha, atLeastOne Str.isSpace, group "2" (atLeastOne Kdump.isDigit)]

end

/-- `stat_parse.match(stat)` -/
def statMatch (stat : Text) : Option Regex.Groups := (statParse.first ⟨[], stat⟩).map Prod.snd

/-- `get_pid_stat`, `none` for a pair of `None`. -/
def getPidStat (process : Process) : Except Raised (Option (String × Int)) :=
  match contents process.stat with
  | .osError => .ok none
  | .undecodable => .error .unicodeDecodeError
  | .text stat =>
    match statMatch stat with
    | none => .ok none
    | some groups =>
      match Str.int (Kdump.part "2" groups) with
      | none => .error .valueError
      | some ppid => .ok (some (Kdump.part "1" groups, ppid))

/-! ## `get_appid` -/

/-- The variables. A later one of a name replaces those before it. -/
def env (environ : Text) : List (Text × Text) :=
  ((environ.splitOn '\x00').filter fun kv => kv.contains '=').foldl
    (fun env kv => Assoc.set (kv.takeWhile (· ≠ '=')) (kv.dropWhile (· ≠ '=')).tail env) []

/-- `int(env['SteamGameId'])`, `none` for a `KeyError` or a `ValueError`. -/
def steamGameId (environ : Text) : Option Int :=
  (Assoc.get "SteamGameId".toList (env environ)).bind fun id => Str.int (String.ofList id)

/-- The id in the environment. An `OSError` is passed by. -/
def gameId (process : Process) : Except Raised (Option Int) :=
  match contents process.environ with
  | .osError => .ok none
  | .undecodable => .error .unicodeDecodeError
  | .text environ => .ok (steamGameId environ)

/-- `cmdline.split('\0')` -/
def arguments (cmdline : Text) : List Text := cmdline.splitOn '\x00'

/-- The loop over `cmdline_args`, `none` for a `ValueError`. -/
def readArgs (steamLaunch : Bool) (appid : Option Int) : List Text → Option (Option Int)
  | [] => some appid
  | arg :: args =>
    if arg = "SteamLaunch".toList then readArgs true appid args
    else if Str.startsWith "AppId=" arg && steamLaunch then
      match Str.int (String.ofList (arg.drop 6)) with
      | none => none
      | some id => readArgs steamLaunch (some id) args
    else if arg = "--".toList then some appid
    else readArgs steamLaunch appid args

/-- What is returned after the loop. -/
def result : Option Int → Option Int
  | none => none
  | some id => if 0x80000000 ≤ id then none else some id

/-- A round of the loop in a process, with `ppid` as the next `pid`. -/
def look (process : Process) (appid : Option Int) : Round (Int × Option Int) (Except Raised (Option Int)) :=
  match gameId process with
  | .error e => .done (.error e)
  | .ok (some id) => .done (.ok (result (some id)))
  | .ok none =>
    match getPidStat process with
    | .error e => .done (.error e)
    | .ok none => .done (.ok none)
    | .ok (some (comm, ppid)) =>
      if comm = "reaper" then
        match contents process.cmdline with
        | .osError => .done (.ok none)
        | .undecodable => .done (.error .unicodeDecodeError)
        | .text cmdline =>
          match readArgs false appid (arguments cmdline) with
          | none => .done (.ok none)
          | some appid => .again (ppid, appid)
      else .again (ppid, appid)

/-- The loop, with `pid` and `appid`. -/
def round (world : World) (s : Int × Option Int) : Round (Int × Option Int) (Except Raised (Option Int)) :=
  if 1 < s.1 then look (world s.1) s.2 else .done (.ok (result s.2))

theorem round_of_lt {pid : Int} (h : 1 < pid) (world : World) (appid : Option Int) :
    round world (pid, appid) = look (world pid) appid :=
  if_pos h

theorem round_of_le {pid : Int} (h : pid ≤ 1) (world : World) (appid : Option Int) :
    round world (pid, appid) = .done (.ok (result appid)) :=
  if_neg (Int.not_lt.2 h)

/-- `get_appid`, as far as a number of rounds goes. -/
def getAppid (world : World) (fuel : Nat) (pid : Int) : Option (Except Raised (Option Int)) :=
  run (round world) fuel (pid, none)

/-! ## What is on a command line -/

def notLaunch (arg : Text) : Bool := decide (arg ≠ "SteamLaunch".toList)

/-- Not the end of the options. -/
def goesOn (arg : Text) : Bool := decide (arg ≠ "--".toList)

/-- What follows `AppId=`. -/
def appIds (args : List Text) : List Text := (args.filter (Str.startsWith "AppId=")).map (List.drop 6)

/-- What follows `AppId=` in the arguments from `SteamLaunch` to `--`. -/
def launchIds (args : List Text) : List Text := appIds ((args.takeWhile goesOn).dropWhile notLaunch)

/-- `int(id)` -/
def number (id : Text) : Option Int := Str.int (String.ofList id)

theorem readArgs_true (appid : Option Int) (args : List Text) :
    readArgs true appid args = ((appIds (args.takeWhile goesOn)).mapM number).map fun ids => ids.getLast?.or appid := by
  induction args generalizing appid with
  | nil => rfl
  | cons arg args ih =>
    unfold readArgs
    by_cases hlaunch : arg = "SteamLaunch".toList
    · rw [if_pos hlaunch, ih, hlaunch]
      rfl
    · rw [if_neg hlaunch]
      by_cases hend : arg = "--".toList
      · have hstop : ¬goesOn arg = true := by simp [goesOn, hend]
        rw [List.takeWhile_cons_of_neg hstop, if_pos hend, hend]
        rfl
      · have hmore : goesOn arg = true := decide_eq_true hend
        rw [if_neg hend, List.takeWhile_cons_of_pos hmore]
        unfold appIds at ih ⊢
        by_cases hid : Str.startsWith "AppId=" arg = true
        · rw [if_pos (by rw [hid]; rfl), List.filter_cons_of_pos hid, List.map_cons, List.mapM_cons]
          change (match number (arg.drop 6) with | none => none | some id => readArgs true (some id) args) = _
          cases number (arg.drop 6) with
          | none => rfl
          | some id =>
            dsimp only
            rw [ih]
            cases (((args.takeWhile goesOn).filter (Str.startsWith "AppId=")).map (List.drop 6)).mapM number with
            | none => rfl
            | some ids => simp [List.getLast?_cons]
        · rw [if_neg (by simp [hid]), ih, List.filter_cons_of_neg hid]

/-- The last id counts, and all have to be numbers. -/
theorem readArgs_eq (appid : Option Int) (args : List Text) :
    readArgs false appid args = ((launchIds args).mapM number).map fun ids => ids.getLast?.or appid := by
  unfold launchIds
  induction args with
  | nil => rfl
  | cons arg args ih =>
    unfold readArgs
    by_cases hlaunch : arg = "SteamLaunch".toList
    · rw [if_pos hlaunch, hlaunch, readArgs_true]
      rfl
    · rw [if_neg hlaunch, if_neg (by simp)]
      by_cases hend : arg = "--".toList
      · have hstop : ¬goesOn arg = true := by simp [goesOn, hend]
        rw [if_pos hend, List.takeWhile_cons_of_neg hstop]
        rfl
      · have hmore : goesOn arg = true := decide_eq_true hend
        have hother : notLaunch arg = true := decide_eq_true hlaunch
        rw [if_neg hend, ih, List.takeWhile_cons_of_pos hmore, List.dropWhile_cons_of_pos hother]

end LogSubmitter.Appid

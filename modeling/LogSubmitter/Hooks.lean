import LogSubmitter.Lib.Dict
import LogSubmitter.Lib.Path
import Mathlib.Data.List.Induction
import Mathlib.Data.List.Nodup
/-!
# The crash hooks

What the hooks for device coredumps and for GPU resets do with the dumps the
kernel keeps under `/sys/class/devcoredump`. Overwriting the data of a dump
makes the kernel drop it.
-/
namespace LogSubmitter.Hooks

open Lib Path

/-! ## `devcoredump` -/

/-- What the hook finds: the targets of `failing_device` and of its `driver`, where they can be
read, and the names in `devcd-block` and `devcd-clear`. -/
structure DevcoredumpEnv where
  cwd : Dir
  failingDevice : Option Text
  driver : Option Text
  blocked : List Text
  toClear : List Text
  ts : Nat

/-- What the hook stores, and whether it clears the dump. -/
structure Report where
  failingDevice : Option Text
  driver : Option Text
  fileName : Text
  clears : Bool
  deriving DecidableEq

/-- `failing_dev`, in both hooks. -/
def failingDev (cwd : Dir) (link : Text) : Text := abspath cwd.text link

def visible (names : List Text) : List Text := names.filter fun name => name.head? ≠ some '.'

def removePrefix (start text : Text) : Text := if start.isPrefixOf text then text.drop start.length else text

/-- `devname`. -/
def devname (dev : Text) : Text :=
  (removePrefix ['/'] (removePrefix "/sys".toList dev)).map fun c => if c = '/' then '_' else c

def fileName (dev driver : Option Text) (ts : Nat) : Text :=
  let suffix := '-' :: (Nat.toDigits 10 ts ++ ".zip".toList)
  match dev, driver with
  | none, _ => "unknown".toList ++ suffix
  | some dev, none => devname dev ++ suffix
  | some dev, some driver => driver ++ '-' :: (devname dev ++ suffix)

/-- `run` of the hook `devcoredump`. It stores nothing for a driver that is blocked. -/
def Devcoredump.run (env : DevcoredumpEnv) : Option Report :=
  let dev := env.failingDevice.map (failingDev env.cwd)
  let driver := env.driver.map basename
  if driver.any fun driver => driver ∈ "amdgpu".toList :: visible env.blocked then none
  else some {
    failingDevice := dev
    driver := driver
    fileName := fileName dev driver env.ts
    clears := driver.any fun driver => driver ∈ visible env.toClear
  }

/-! ## `gpu` -/

/-- The data of a dump: it cannot be opened, reading it breaks off, or it can be read. -/
inductive Dump where
  | unreadable
  | breaks (read : List UInt8)
  | content (bytes : List UInt8)
  deriving DecidableEq

/-- An entry of `/sys/class/devcoredump`, with the target of `failing_device` if it can be read. -/
structure Devcd where
  path : Text
  link : Option Text
  data : Dump
  deriving DecidableEq

def Devcd.dataPath (e : Devcd) : Text := e.path ++ "/data".toList

/-- `DEVPATH`, what `glob` finds, and whether the staging file can be created and published. -/
structure GpuEnv where
  cwd : Dir
  devpath : Option Text
  devcds : List Devcd
  nodup : (devcds.map Devcd.path).Nodup
  opens : Bool
  publishes : Bool

/-- `devpath.startswith(failing_dev)`. -/
def isOwn (cwd : Dir) (devpath link : Text) : Bool := (failingDev cwd link).isPrefixOf ("/sys".toList ++ devpath)

/-- The dump that was opened last, and the path to clear. -/
structure Found where
  devcd : Option Devcd
  devcdPath : Option Text

/-- One round of the loop. The path is set for every device, not only for that of `DEVPATH`. -/
def visit (cwd : Dir) (devpath : Text) (found : Found) (e : Devcd) : Found :=
  match e.link with
  | none => found
  | some link =>
    if isOwn cwd devpath link then
      match e.data with
      | .unreadable => found
      | _ => { devcd := some e, devcdPath := some e.dataPath }
    else { found with devcdPath := some e.dataPath }

def find (env : GpuEnv) : Found :=
  match env.devpath with
  | none => { devcd := none, devcdPath := none }
  | some devpath => env.devcds.foldl (visit env.cwd devpath) { devcd := none, devcdPath := none }

/-- The member `devcd` of the published archive, with the file it was read from, and the file that
is overwritten. -/
structure Outcome where
  archive : Option (Option (Text × List UInt8))
  cleared : Option Text

/-- `run` of the hook `gpu`, from the dumps on. What is read before an error is published all the
same, and the error ends the hook. -/
def Gpu.run (env : GpuEnv) : Outcome :=
  let found := find env
  let publish (member : Option (Text × List UInt8)) := if env.publishes then some member else none
  let clear := if env.publishes then found.devcdPath else none
  if !env.opens then { archive := none, cleared := none }
  else
    match found.devcd with
    | none => { archive := publish none, cleared := clear }
    | some e =>
      match e.data with
      | .content bytes => { archive := publish (some (e.dataPath, bytes)), cleared := clear }
      | .breaks read => { archive := publish (some (e.dataPath, read)), cleared := none }
      | .unreadable => { archive := publish none, cleared := clear }

/-! ## What is copied and what is cleared -/

def Cleared (o : Outcome) (e : Devcd) : Prop := o.cleared = some e.dataPath

/-- The content of the entry's data is the archive's `devcd`. -/
def Copied (o : Outcome) (e : Devcd) : Prop :=
  ∃ bytes, e.data = .content bytes ∧ o.archive = some (some (e.dataPath, bytes))

/-- The entry is of the device of `DEVPATH`. -/
def GpuEnv.own (env : GpuEnv) (e : Devcd) : Bool :=
  match env.devpath, e.link with
  | some devpath, some link => isOwn env.cwd devpath link
  | _, _ => false

/-- The entry's link can be read and, if it is of the device of `DEVPATH`, its data can be opened. -/
def GpuEnv.visits (env : GpuEnv) (e : Devcd) : Bool :=
  e.link.isSome && !(env.own e && decide (e.data = .unreadable))

def GpuEnv.visited (env : GpuEnv) : List Devcd := env.devcds.filter env.visits

/-- The last of them that is of the device. -/
def GpuEnv.lastOwn (env : GpuEnv) : Option Devcd := (env.visited.filter env.own).getLast?

/-- No dump is looked for, the hook ends early, or the last entry it gets to is of the device of `DEVPATH`. -/
def GpuEnv.LastIsOwn (env : GpuEnv) : Prop :=
  env.devpath = none ∨ env.opens = false ∨ env.publishes = false ∨
    (∃ e read, env.lastOwn = some e ∧ e.data = .breaks read) ∨ ∀ e ∈ env.visited.getLast?, env.own e = true

section
variable {env : GpuEnv}

theorem find_eq {devpath : Text} (hd : env.devpath = some devpath) :
    find env = { devcd := env.lastOwn, devcdPath := env.visited.getLast?.map Devcd.dataPath } := by
  have run : ∀ l : List Devcd, l.foldl (visit env.cwd devpath) { devcd := none, devcdPath := none } =
      { devcd := ((l.filter env.visits).filter env.own).getLast?
        devcdPath := (l.filter env.visits).getLast?.map Devcd.dataPath } := by
    -- The last of the entries visited wins, and the last own one: by induction from the end of the list.
    intro l
    induction l using List.reverseRecOn with
    | nil => rfl
    | append_singleton l e ih =>
      rw [List.foldl_append, ih, List.foldl_cons, List.foldl_nil, visit]
      cases hl : e.link with
      | none =>
        have hv : env.visits e = false := by simp [GpuEnv.visits, hl]
        simp [hv]
      | some link =>
        have hown : env.own e = isOwn env.cwd devpath link := by simp only [GpuEnv.own, hd, hl]
        cases ho : isOwn env.cwd devpath link with
        | false =>
          have hv : env.visits e = true := by simp [GpuEnv.visits, hl, hown, ho]
          simp [hv, hown, ho]
        | true =>
          cases hdata : e.data with
          | unreadable =>
            have hv : env.visits e = false := by simp [GpuEnv.visits, hown, ho, hdata]
            simp [hv, ho]
          | breaks read =>
            have hv : env.visits e = true := by simp [GpuEnv.visits, hl, hdata]
            simp [hv, hown, ho]
          | content bytes =>
            have hv : env.visits e = true := by simp [GpuEnv.visits, hl, hdata]
            simp [hv, hown, ho]
  rw [find, hd]
  exact run env.devcds

theorem lastOwn_spec {e : Devcd} (h : env.lastOwn = some e) :
    e ∈ env.devcds ∧ env.own e = true ∧ e.data ≠ .unreadable := by
  obtain ⟨hm, ho⟩ := List.mem_filter.1 (List.mem_of_getLast? h)
  obtain ⟨hm, hv⟩ := List.mem_filter.1 hm
  refine ⟨hm, ho, fun hu => ?_⟩
  simp [GpuEnv.visits, ho, hu] at hv

/-- If the last entry the loop gets to is of the device, it is the last of these. -/
theorem lastOwn_of_own {e : Devcd} (h : env.visited.getLast? = some e) (ho : env.own e = true) :
    env.lastOwn = some e := by
  obtain ⟨l, hl⟩ : ∃ l, env.visited = l ++ [e] := ⟨_, (List.dropLast_append_getLast? e h).symm⟩
  rw [GpuEnv.lastOwn, hl, List.filter_append]
  simp [ho]

theorem dataPath_inj {e e' : Devcd} (he : e ∈ env.devcds) (he' : e' ∈ env.devcds) (h : e.dataPath = e'.dataPath) :
    e = e' :=
  List.inj_on_of_nodup_map env.nodup he he' (List.append_cancel_right h)

/-- The last entry is found among all. -/
theorem visited_last {e : Devcd} (h : env.visited.getLast? = some e) : e ∈ env.devcds :=
  (List.mem_filter.1 (List.mem_of_getLast? h)).1

theorem not_copied_of_archive {o : Outcome} (h : ∀ path bytes, o.archive ≠ some (some (path, bytes))) (e : Devcd) :
    ¬ Copied o e := by
  rintro ⟨bytes, -, ha⟩
  exact h _ _ ha

theorem iff_lastIsOwn_of_none (hc : (Gpu.run env).cleared = none) (hn : ∀ e ∈ env.devcds, ¬ Copied (Gpu.run env) e)
    (h : env.LastIsOwn) :
    (∀ e ∈ env.devcds, Cleared (Gpu.run env) e ↔ Copied (Gpu.run env) e) ↔ env.LastIsOwn := by
  refine iff_of_true (fun e he => iff_of_false (fun h => ?_) (hn e he)) h
  rw [Cleared, hc] at h
  cases h

/-! ### Once the archive is published -/

/-- An archive that is published, with the path of the device. -/
structure Published (env : GpuEnv) : Prop where
  devpath : env.devpath ≠ none
  opens : env.opens = true
  publishes : env.publishes = true

theorem Published.find (h : Published env) :
    find env = { devcd := env.lastOwn, devcdPath := env.visited.getLast?.map Devcd.dataPath } := by
  obtain ⟨devpath, hd⟩ := Option.ne_none_iff_exists'.1 h.devpath
  exact find_eq hd

/-- Only the entries that the loop gets to matter. -/
theorem Published.lastIsOwn_iff (h : Published env) : env.LastIsOwn ↔
    (∃ e read, env.lastOwn = some e ∧ e.data = .breaks read) ∨ ∀ e ∈ env.visited.getLast?, env.own e = true := by
  have ho : env.opens ≠ false := by rw [h.opens]; decide
  have hp : env.publishes ≠ false := by rw [h.publishes]; decide
  unfold GpuEnv.LastIsOwn
  rw [or_iff_right h.devpath, or_iff_right ho, or_iff_right hp]

/-- No dump is of the device: nothing is copied, but the last one is cleared. -/
theorem Published.of_noOwn (h : Published env) (hlo : env.lastOwn = none) :
    (∀ e ∈ env.devcds, Cleared (Gpu.run env) e ↔ Copied (Gpu.run env) e) ↔ env.LastIsOwn := by
  have hrun : Gpu.run env = { archive := some none, cleared := env.visited.getLast?.map Devcd.dataPath } := by
    simp [Gpu.run, h.find, h.opens, h.publishes, hlo]
  have hn : ∀ e, ¬ Copied (Gpu.run env) e := not_copied_of_archive fun _ _ h => by rw [hrun] at h; cases h
  cases hl : env.visited.getLast? with
  | none =>
    refine iff_lastIsOwn_of_none (by rw [hrun, hl]; rfl) (fun e _ => hn e) (h.lastIsOwn_iff.2 (.inr ?_))
    rw [hl]
    rintro e ⟨⟩
  | some e =>
    refine iff_of_false (fun hall => ?_) (fun hlast => ?_)
    · refine hn e ((hall e (visited_last hl)).1 ?_)
      rw [Cleared, hrun, hl]
      rfl
    · rcases h.lastIsOwn_iff.1 hlast with ⟨e', -, h', -⟩ | h'
      · rw [hlo] at h'
        cases h'
      · rw [lastOwn_of_own hl (h' e hl)] at hlo
        cases hlo

/-- An error while a dump is read ends the hook before it clears anything. -/
theorem Published.of_breaks (h : Published env) {e₀ : Devcd} {read : List UInt8} (hlo : env.lastOwn = some e₀)
    (hdata : e₀.data = .breaks read) :
    (∀ e ∈ env.devcds, Cleared (Gpu.run env) e ↔ Copied (Gpu.run env) e) ↔ env.LastIsOwn := by
  have hrun : Gpu.run env = { archive := some (some (e₀.dataPath, read)), cleared := none } := by
    simp [Gpu.run, h.find, h.opens, h.publishes, hlo, hdata]
  refine iff_lastIsOwn_of_none (by rw [hrun]) ?_ (h.lastIsOwn_iff.2 (.inl ⟨e₀, read, hlo, hdata⟩))
  rintro e he ⟨bytes, hb, ha⟩
  rw [hrun, Option.some.injEq, Option.some.injEq, Prod.mk.injEq] at ha
  rw [dataPath_inj he (lastOwn_spec hlo).1 ha.1.symm, hdata] at hb
  cases hb

/-- One dump is copied and one cleared, which may not be the same. -/
theorem Published.of_content (h : Published env) {e₀ : Devcd} {bytes : List UInt8} (hlo : env.lastOwn = some e₀)
    (hdata : e₀.data = .content bytes) :
    (∀ e ∈ env.devcds, Cleared (Gpu.run env) e ↔ Copied (Gpu.run env) e) ↔ env.LastIsOwn := by
  obtain ⟨hm, hown, -⟩ := lastOwn_spec hlo
  have hrun : Gpu.run env = { archive := some (some (e₀.dataPath, bytes))
                              cleared := env.visited.getLast?.map Devcd.dataPath } := by
    simp [Gpu.run, h.find, h.opens, h.publishes, hlo, hdata]
  have hcopied : ∀ e ∈ env.devcds, Copied (Gpu.run env) e ↔ e = e₀ := by
    intro e he
    constructor
    · rintro ⟨b, -, ha⟩
      rw [hrun, Option.some.injEq, Option.some.injEq, Prod.mk.injEq] at ha
      exact dataPath_inj he hm ha.1.symm
    · rintro rfl
      exact ⟨bytes, hdata, by rw [hrun]⟩
  obtain ⟨e₁, hl⟩ : ∃ e₁, env.visited.getLast? = some e₁ := by
    have hne : env.visited ≠ [] := by
      intro hnil
      rw [GpuEnv.lastOwn, hnil] at hlo
      cases hlo
    exact ⟨_, List.getLast?_eq_some_getLast hne⟩
  have hcleared : ∀ e ∈ env.devcds, Cleared (Gpu.run env) e ↔ e = e₁ := by
    intro e he
    rw [Cleared, hrun, hl, Option.map_some, Option.some.injEq]
    exact ⟨fun h => dataPath_inj he (visited_last hl) h.symm, fun h => by rw [h]⟩
  have hlast := visited_last hl
  constructor
  · intro hall
    have he₁ := (hcopied e₁ hlast).1 ((hall e₁ hlast).1 ((hcleared e₁ hlast).2 rfl))
    refine h.lastIsOwn_iff.2 (.inr ?_)
    rw [hl]
    rintro e ⟨⟩
    exact he₁ ▸ hown
  · intro hown e he
    rcases h.lastIsOwn_iff.1 hown with ⟨e', read, h', hr⟩ | h'
    · rw [hlo, Option.some.injEq] at h'
      rw [← h', hdata] at hr
      cases hr
    -- The one that is copied is the one that is cleared.
    · have hsame : e₀ = e₁ := Option.some.inj (hlo.symm.trans (lastOwn_of_own hl (h' e₁ hl)))
      rw [hcleared e he, hcopied e he, hsame]

theorem Published.cleared_iff (h : Published env) :
    (∀ e ∈ env.devcds, Cleared (Gpu.run env) e ↔ Copied (Gpu.run env) e) ↔ env.LastIsOwn := by
  cases hlo : env.lastOwn with
  | none => exact h.of_noOwn hlo
  | some e =>
    cases hdata : e.data with
    | unreadable => exact absurd hdata (lastOwn_spec hlo).2.2
    | breaks read => exact h.of_breaks hlo hdata
    | content bytes => exact h.of_content hlo hdata

/-- The hook overwrites exactly the data it has copied just when the last entry
it gets to is of the device of `DEVPATH`, or it does not get to clear anything. -/
theorem cleared_iff_copied_iff (env : GpuEnv) :
    (∀ e ∈ env.devcds, Cleared (Gpu.run env) e ↔ Copied (Gpu.run env) e) ↔ env.LastIsOwn := by
  cases hd : env.devpath with
  | none =>
    -- Without `DEVPATH` nothing is found.
    have hf : find env = { devcd := none, devcdPath := none } := by rw [find, hd]
    refine iff_lastIsOwn_of_none ?_ (fun e _ => not_copied_of_archive (fun path bytes => ?_) e) (.inl hd)
    · cases ho : env.opens <;> cases hp : env.publishes <;> simp [Gpu.run, hf, ho, hp]
    · cases ho : env.opens <;> cases hp : env.publishes <;> simp [Gpu.run, hf, ho, hp]
  | some devpath =>
    cases ho : env.opens with
    | false =>
      -- The archive cannot be opened.
      have hrun : Gpu.run env = { archive := none, cleared := none } := by simp [Gpu.run, ho]
      refine iff_lastIsOwn_of_none (by rw [hrun]) (fun e _ => not_copied_of_archive (fun _ _ => ?_) e) (.inr (.inl ho))
      rw [hrun]
      exact fun h => by cases h
    | true =>
      cases hp : env.publishes with
      | true => exact Published.cleared_iff ⟨by rw [hd]; exact Option.some_ne_none _, ho, hp⟩
      | false =>
        -- It is left in staging, and nothing is cleared.
        have hrun : (Gpu.run env).archive = none ∧ (Gpu.run env).cleared = none := by
          cases hlo : (find env).devcd with
          | none => simp [Gpu.run, ho, hp, hlo]
          | some e => cases hdata : e.data <;> simp [Gpu.run, ho, hp, hlo, hdata]
        refine iff_lastIsOwn_of_none hrun.2 (fun e _ => not_copied_of_archive (fun _ _ => ?_) e)
          (.inr (.inr (.inl hp)))
        rw [hrun.1]
        exact fun h => by cases h

end

/-! ## A dump of another device -/

def root : Dir := ⟨[], by simp⟩

/-- The dump of the device, and then one of another device. -/
def twoDumps : GpuEnv where
  cwd := root
  devpath := some "/devices/pci0/card0".toList
  devcds := [⟨"devcd1".toList, some "/sys/devices/pci0".toList, .content [1]⟩,
    ⟨"devcd2".toList, some "/sys/devices/wifi".toList, .content [2]⟩]
  nodup := by decide
  opens := true
  publishes := true

/-- The first dump is copied, and the second one cleared. -/
theorem other_dump_cleared : ¬ ∀ e ∈ twoDumps.devcds, Cleared (Gpu.run twoDumps) e ↔ Copied (Gpu.run twoDumps) e := by
  have hrun : (Gpu.run twoDumps).archive = some (some ("devcd1/data".toList, [1])) ∧
      (Gpu.run twoDumps).cleared = some "devcd2/data".toList := by decide +kernel
  intro h
  obtain ⟨bytes, -, ha⟩ := (h ⟨"devcd2".toList, some "/sys/devices/wifi".toList, .content [2]⟩ (by decide)).1 hrun.2
  rw [hrun.1, Option.some.injEq, Option.some.injEq, Prod.mk.injEq] at ha
  exact absurd ha.1 (by decide)

end LogSubmitter.Hooks

import LogSubmitter.Hooks
/-!
# The failing device

Both hooks read the link `failing_device` and make its target absolute with
`os.path.abspath`: from the working directory, and not from the directory the
link is in. The GPU hook then compares the path with the start of its device's
path as texts.
-/
namespace LogSubmitter.Hooks

open Lib Path

/-- Both hooks have the path of the link's target, seen from the directory of the link, the hook
`devcoredump` stores it under its name, and the GPU hook takes the dump if this is its device or above it. -/
structure Resolved (cwd dir : Dir) (link devpath : Text) : Prop where
  path : failingDev cwd link = render (resolve dir link)
  stored : ∀ env report, env.cwd = cwd → env.failingDevice = some link → Devcoredump.run env = some report →
    report.failingDevice = some (render (resolve dir link)) ∧
      report.fileName = fileName (some (render (resolve dir link))) report.driver env.ts
  own : isOwn cwd devpath link = true ↔ resolve dir link <+: parts ("sys".toList ++ devpath)

/-- The link's target is the same from both directories: it has one slash at its start, or the
directories agree above the levels it goes up. -/
def SameTarget (cwd dir : Dir) (link : Text) : Prop :=
  if isAbsolute link then slashes link = 1
  else above cwd.names (climb link).1 = above dir.names (climb link).1

/-- `abspath` gives the target's path just when the target is the same. -/
theorem failingDev_eq_iff {cwd dir : Dir} {link : Text} :
    failingDev cwd link = render (resolve dir link) ↔ SameTarget cwd dir link := by
  unfold failingDev SameTarget
  rw [abspath_eq]
  cases h : isAbsolute link with
  | true =>
    -- An absolute target is the same from anywhere: only the slashes that `abspath` keeps can differ.
    have hres : resolve cwd link = resolve dir link := by simp [resolve, h]
    have hrel := isAbsolute_intercalate (resolve_valid dir link)
    have hpos := slashes_pos h
    simp only [if_true, hres]
    constructor
    · intro he
      by_contra hs
      obtain ⟨n, hn⟩ : ∃ n, slashes link = n + 2 := ⟨slashes link - 2, by omega⟩
      rw [hn, render, List.replicate_succ, List.replicate_succ, List.cons_append, List.cons_append] at he
      rw [← (List.cons.inj he).2] at hrel
      cases hrel
    · intro hs
      rw [hs]
      rfl
  | false =>
    simp only [Bool.false_eq_true, if_false]
    rw [render_inj (resolve_valid cwd link) (resolve_valid dir link)]
    simp only [resolve, h, Bool.false_eq_true, if_false]
    exact walk_eq_walk_iff

/-- The texts start alike if the names do, or if `DEVPATH` goes on in the middle of a name. -/
theorem isPrefixOf_render_iff {names : List Text} (h : ∀ name ∈ names, IsName name) (devpath : Text) :
    (render names).isPrefixOf ("/sys".toList ++ devpath) = true ↔
      names <+: parts ("sys".toList ++ devpath) ∨ GoesOn names (parts ("sys".toList ++ devpath)) := by
  have htext : "/sys".toList ++ devpath = '/' :: ['/'].intercalate (parts ("sys".toList ++ devpath)) := by
    rw [parts, List.intercalate_splitOn]
    rfl
  rw [List.isPrefixOf_iff_prefix, htext, render, List.prefix_cons_inj]
  by_cases hne : names = []
  · subst hne
    exact iff_of_true List.nil_prefix (.inl List.nil_prefix)
  · exact intercalate_prefix_iff (fun n hn => (h n hn).no_slash) (fun _ => no_slash_of_mem_parts) hne
      (List.splitOn_ne_nil _ _)

theorem report_of_path {cwd : Dir} {link path : Text} (hp : failingDev cwd link = path) {env : DevcoredumpEnv}
    {report : Report} (hc : env.cwd = cwd) (hl : env.failingDevice = some link)
    (h : Devcoredump.run env = some report) :
    report.failingDevice = some path ∧ report.fileName = fileName (some path) report.driver env.ts := by
  have hdev : env.failingDevice.map (failingDev env.cwd) = some path := by rw [hl, hc, Option.map_some, hp]
  simp only [Devcoredump.run] at h
  split at h
  · cases h
  · cases h
    exact ⟨hdev, congrArg (fun dev => fileName dev _ _) hdev⟩

/-- The hooks resolve the link and the GPU hook knows its own dumps just when
the target is the same from the working directory, and `DEVPATH` does not go on
in the middle of its last name. -/
theorem resolved_iff (cwd dir : Dir) (link devpath : Text) :
    Resolved cwd dir link devpath ↔
      SameTarget cwd dir link ∧ ¬ GoesOn (resolve dir link) (parts ("sys".toList ++ devpath)) := by
  have hown : failingDev cwd link = render (resolve dir link) →
      (isOwn cwd devpath link = true ↔ resolve dir link <+: parts ("sys".toList ++ devpath) ∨
        GoesOn (resolve dir link) (parts ("sys".toList ++ devpath))) := by
    intro hp
    rw [isOwn, hp]
    exact isPrefixOf_render_iff (resolve_valid dir link) devpath
  constructor
  · rintro ⟨hp, -, ho⟩
    refine ⟨failingDev_eq_iff.1 hp, fun hg => ?_⟩
    exact not_goesOn_of_prefix (ho.1 ((hown hp).2 (.inr hg))) hg
  · rintro ⟨hs, hg⟩
    have hp := failingDev_eq_iff.2 hs
    exact ⟨hp, fun _ _ => report_of_path hp, (hown hp).trans (or_iff_left hg)⟩

/-! ## What goes wrong -/

/-- `/sys/devices/virtual/devcoredump/devcd1` -/
def dumpDir : Dir where
  names := ["sys", "devices", "virtual", "devcoredump", "devcd1"].map String.toList
  valid := by decide

/-- From `/`, the link of a dump leads out of `/sys`, and the dump is not taken; and a device is
taken for another one whose name is longer. -/
theorem wrong_device :
    ¬ Resolved root dumpDir "../../../pci0".toList "/devices/pci0/card0".toList ∧
    failingDev root "../../../pci0".toList = "/pci0".toList ∧
    ¬ Resolved root dumpDir "/sys/devices/pci0".toList "/devices/pci01/card0".toList := by
  refine ⟨fun h => ?_, by decide +kernel, fun h => ?_⟩
  · have hp := h.path
    revert hp
    decide +kernel
  · have ho := h.own
    revert ho
    decide +kernel

end LogSubmitter.Hooks

import LogSubmitter.Config
import LogSubmitter.Str
/-!
# The logs of a helper

Which files of a helper's directory are its logs: `filter_log` passes over
hidden names and foreign extensions, `list_type` over what cannot be read.
-/
namespace LogSubmitter.Helpers

open Lib Config

/-- What the class methods read of a helper's class. -/
structure Helper where
  name : String
  validExtensions : List String

/-- `get_config` of the helper's module. -/
def Helper.config (h : Helper) : ConfigSection := { name := "helpers." ++ h.name, defaults := .empty }

/-- `os.path.basename`. -/
def basename (fname : List Char) : List Char := (fname.reverse.takeWhile (· ≠ '/')).reverse

/-- The extension of `os.path.splitext`. Dots at the start of a name begin none. -/
def extension (name : List Char) : List Char :=
  let ext := (name.reverse.takeWhile (· ≠ '.')).reverse
  let root := name.take (name.length - ext.length - 1)
  if root.all (· = '.') then [] else '.' :: ext

/-- `fname.startswith('.')`. -/
def hidden (fname : String) : Bool := ".".toList.isPrefixOf fname.toList

/-- `filter_log`. -/
def Helper.filterLog (h : Helper) (fname : String) : Bool :=
  if hidden fname then false
  else h.validExtensions.isEmpty || h.validExtensions.contains (String.ofList (extension (basename fname.toList)))

/-- A file as the process finds it: whether `os.access` lets it be read, and what `os.stat` gives as
its modification time, in nanoseconds, unless it raises. -/
structure File where
  readable : Bool
  mtime : Option Int

/-- The names `os.listdir` gives, in its order. Where it raises there are none. -/
abbrev Listing := Dict String File

/-- `list_type`. -/
def Helper.listType (h : Helper) (dir : Listing) : List (String × File) :=
  dir.items.filter fun log => h.filterLog log.1 && log.2.readable

theorem hidden_not_listed {h : Helper} {dir : Listing} {name : String} (hn : hidden name = true) :
    name ∉ (h.listType dir).map Prod.fst := by
  intro hm
  obtain ⟨log, hl, rfl⟩ := List.mem_map.1 hm
  have hf := (List.mem_filter.1 hl).2
  rw [Helper.filterLog, hn] at hf
  cases hf

/-- The extension is what follows the last dot, if not only dots come before it. -/
theorem extension_append {name ext : List Char} (hd : '.' ∉ ext) (hn : ∃ c ∈ name, c ≠ '.') :
    extension (name ++ '.' :: ext) = '.' :: ext := by
  have hext : ((name ++ '.' :: ext).reverse.takeWhile (· ≠ '.')).reverse = ext := by
    have hrev : '.' ∉ ext.reverse := by
      rw [List.mem_reverse]
      exact hd
    rw [List.reverse_append, List.reverse_cons, List.append_assoc, List.singleton_append,
      Words.takeWhile_ne_append hrev, List.reverse_reverse]
  have hroot : (name ++ '.' :: ext).take ((name ++ '.' :: ext).length - ext.length - 1) = name := by
    have hlen : (name ++ '.' :: ext).length - ext.length - 1 = name.length := by
      rw [List.length_append, List.length_cons]
      omega
    rw [hlen, List.take_left' rfl]
  obtain ⟨c, hc, hne⟩ := hn
  have hall : name.all (· = '.') = false := by
    rw [List.all_eq_false]
    exact ⟨c, hc, by simpa using hne⟩
  simp only [extension, hext, hroot, hall]
  rfl

theorem basename_append (dir : List Char) {name : List Char} (h : '/' ∉ name) :
    basename (dir ++ '/' :: name) = name := by
  have hrev : '/' ∉ name.reverse := by
    rw [List.mem_reverse]
    exact h
  unfold basename
  rw [List.reverse_append, List.reverse_cons, List.append_assoc, List.singleton_append,
    Words.takeWhile_ne_append hrev, List.reverse_reverse]

theorem basename_self {name : List Char} (h : '/' ∉ name) : basename name = name := by
  have hall : ∀ c ∈ name.reverse, decide (c ≠ '/') = true := fun c hc =>
    decide_eq_true (ne_of_mem_of_not_mem (List.mem_reverse.1 hc) h)
  unfold basename
  rw [List.takeWhile_eq_self_iff.2 hall, List.reverse_reverse]

/-- A file with one of the extensions is a log if it is not hidden. -/
theorem filterLog_append {h : Helper} {root ext : List Char} (hslash : '/' ∉ root ++ '.' :: ext) (hdot : '.' ∉ ext)
    (hroot : ∃ c ∈ root, c ≠ '.') (hvalid : h.validExtensions.contains (String.ofList ('.' :: ext)) = true) :
    h.filterLog (String.ofList (root ++ '.' :: ext)) = true ↔ root.head? ≠ some '.' := by
  obtain ⟨c, cs, hcons⟩ : ∃ c cs, root = c :: cs := by
    obtain ⟨c, hc, -⟩ := hroot
    exact List.exists_cons_of_ne_nil (List.ne_nil_of_mem hc)
  have hhidden : hidden (String.ofList (root ++ '.' :: ext)) = decide (c = '.') := by
    unfold hidden
    rw [String.toList_ofList, hcons, Bool.eq_iff_iff, List.isPrefixOf_iff_prefix]
    simp [List.prefix_cons_iff, eq_comm]
  unfold Helper.filterLog
  rw [hhidden, String.toList_ofList, basename_self hslash, extension_append hdot hroot, hvalid, hcons]
  by_cases hc : c = '.' <;> simp [hc]

theorem not_mem_toDigits {n : Nat} {c : Char} (hc : c.isDigit = false) : c ∉ Nat.toDigits 10 n := fun h => by
  rw [Nat.isDigit_of_mem_toDigits (by decide) (by decide) h] at hc
  cases hc

/-- A file that is named after a time is a log. -/
theorem filterLog_stamped {h : Helper} {ext : List Char} (hslash : '/' ∉ ext) (hdot : '.' ∉ ext)
    (hvalid : h.validExtensions.contains (String.ofList ('.' :: ext)) = true) (ts : Nat) :
    h.filterLog (String.ofList (Nat.toDigits 10 ts ++ '.' :: ext)) = true := by
  obtain ⟨c, cs, hcons⟩ := List.exists_cons_of_ne_nil (@Nat.toDigits_ne_nil ts 10)
  have hmem : c ∈ Nat.toDigits 10 ts := by simp [hcons]
  have hc : c ≠ '.' := by
    rintro rfl
    exact not_mem_toDigits (by decide) hmem
  refine (filterLog_append ?_ hdot ⟨c, hmem, hc⟩ hvalid).2 ?_
  · rw [List.mem_append, List.mem_cons, not_or, not_or]
    exact ⟨not_mem_toDigits (by decide), by decide, hslash⟩
  · rw [hcons]
    simpa using hc

/-- A helper whose logs end in `.bin`. -/
def binHelper : Helper := { name := "test", validExtensions := [".bin"] }

example : binHelper.filterLog "a.bin" = true ∧ binHelper.filterLog "a.bin.gz" = false ∧
    binHelper.filterLog ".bin" = false := by decide

end LogSubmitter.Helpers

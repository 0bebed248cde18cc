import LogSubmitter.Lib.Words
import Mathlib.Data.List.TakeWhile
/-!
# Lines that announce payloads

An item is a line, with a header that says how long the payload is, and then the
payload and another newline. Payloads are not escaped: a reader takes as many
bytes as the header announces, whatever they are.
-/
namespace Lib.Framed

variable {B H : Type} [DecidableEq B]

/-- How headers are written, and how long their payloads are. -/
structure Format (B H : Type) where
  newline : B
  write : H → List B
  read : List B → Option H
  size : H → Option Nat

/-- A line without its end, and what follows. -/
def readLine (newline : B) (bytes : List B) : Option (List B × List B) :=
  match bytes.dropWhile (· ≠ newline) with
  | [] => none
  | _ :: rest => some (bytes.takeWhile (· ≠ newline), rest)

theorem readLine_append {newline : B} {line : List B} (h : newline ∉ line) (rest : List B) :
    readLine newline (line ++ newline :: rest) = some (line, rest) := by
  unfold readLine
  rw [Words.dropWhile_ne_append h, Words.takeWhile_ne_append h]

namespace Format
variable (f : Format B H)

/-- A header line. -/
def line (h : H) : List B := f.write h ++ [f.newline]

def item (p : H × List B) : List B := f.line p.1 ++ (p.2 ++ [f.newline])

/-- A header, from its line. -/
def readHeader (bytes : List B) : Option (H × List B) :=
  match readLine f.newline bytes with
  | none => none
  | some (line, rest) => (f.read line).map fun h => (h, rest)

/-- An item: a header, as many bytes as it says, and a newline. -/
def readItem (bytes : List B) : Option ((H × List B) × List B) :=
  match f.readHeader bytes with
  | none => none
  | some (h, rest) =>
    match f.size h with
    | none => none
    | some n => if rest[n]? = some f.newline then some ((h, rest.take n), rest.drop (n + 1)) else none

/-- Items up to the end. There are no more of them than the first argument says. -/
def readItems : Nat → List B → Option (List (H × List B))
  | _, [] => some []
  | 0, _ => none
  | n + 1, bytes =>
    match f.readItem bytes with
    | none => none
    | some (p, rest) => (readItems n rest).map (p :: ·)

/-- The header is written on one line, and can be read again. -/
structure Writes (h : H) : Prop where
  one_line : f.newline ∉ f.write h
  read : f.read (f.write h) = some h

omit [DecidableEq B] in
/-- An item is not empty. -/
theorem length_le_items (items : List (H × List B)) : items.length ≤ (items.flatMap f.item).length := by
  induction items with
  | nil => exact Nat.zero_le _
  | cons p items ih =>
    have hpos : 0 < (f.item p).length := by
      simp only [item, line, List.length_append, List.length_singleton]
      omega
    rw [List.flatMap_cons, List.length_append, List.length_cons]
    omega

variable {f}

theorem readHeader_line {h : H} (hw : f.Writes h) (rest : List B) :
    f.readHeader (f.line h ++ rest) = some (h, rest) := by
  rw [line, List.append_assoc, List.singleton_append, readHeader, readLine_append hw.one_line]
  simp only [hw.read, Option.map_some]

/-- An item is read as it was written, whatever its payload is and whatever follows. -/
theorem readItem_item {p : H × List B} (hw : f.Writes p.1) (hs : f.size p.1 = some p.2.length) (rest : List B) :
    f.readItem (f.item p ++ rest) = some (p, rest) := by
  have hget : (p.2 ++ f.newline :: rest)[p.2.length]? = some f.newline := by simp
  have htake : (p.2 ++ f.newline :: rest).take p.2.length = p.2 := List.take_left' rfl
  have hdrop : (p.2 ++ f.newline :: rest).drop (p.2.length + 1) = rest := by
    rw [← List.drop_drop, List.drop_left' rfl]
    rfl
  rw [item, List.append_assoc, List.append_assoc, List.singleton_append, readItem, readHeader_line hw]
  simp only [hs, hget, if_true, htake, hdrop]

/-- So are any number of them. -/
theorem readItems_items {items : List (H × List B)} (hw : ∀ p ∈ items, f.Writes p.1)
    (hs : ∀ p ∈ items, f.size p.1 = some p.2.length) {n : Nat} (hn : items.length ≤ n) :
    f.readItems n (items.flatMap f.item) = some items := by
  induction items generalizing n with
  | nil => cases n <;> rfl
  | cons p items ih =>
    cases n with
    | zero => cases hn
    | succ n =>
      have hitem := readItem_item (hw p List.mem_cons_self) (hs p List.mem_cons_self) (items.flatMap f.item)
      have hrest := ih (fun q hq => hw q (List.mem_cons_of_mem _ hq)) (fun q hq => hs q (List.mem_cons_of_mem _ hq))
        (Nat.le_of_succ_le_succ hn)
      have hne : f.item p ++ items.flatMap f.item ≠ [] := by simp [item, line]
      obtain ⟨b, bs, hb⟩ := List.exists_cons_of_ne_nil hne
      rw [List.flatMap_cons, hb, readItems, ← hb, hitem]
      · simp only [hrest, Option.map_some]
      · exact List.cons_ne_nil b bs

end Format

end Lib.Framed

import Mathlib.Algebra.BigOperators.Group.List.Basic
/-!
# Packed bytes

Numbers in little-endian order, what stands between two offsets of a concatenation,
and formats that say which fields stand where.
-/
namespace Lib.Struct

/-! ## Slices -/

section
variable {α : Type}

/-- The elements from an offset up to another. -/
def slice (i j : Nat) (l : List α) : List α := (l.take j).drop i

theorem length_slice {i j : Nat} {l : List α} (h : j ≤ l.length) : (slice i j l).length = j - i := by
  simp [slice, h]

theorem slice_take {i j n : Nat} (h : j ≤ n) (l : List α) : slice i j (l.take n) = slice i j l := by
  simp [slice, List.take_take, h]

/-- A chunk stands where those before it end. -/
theorem slice_flatten {chunks : List (List α)} {n i j : Nat} {chunk : List α} (h : chunks[n]? = some chunk)
    (hi : (chunks.take n).flatten.length = i) (hj : i + chunk.length = j) : slice i j chunks.flatten = chunk := by
  obtain ⟨hn, hchunk⟩ := List.getElem?_eq_some_iff.1 h
  have hsplit : chunks.flatten = (chunks.take n).flatten ++ (chunk ++ (chunks.drop (n + 1)).flatten) := by
    rw [← List.flatten_cons, ← hchunk, ← List.drop_eq_getElem_cons hn, ← List.flatten_append, List.take_append_drop]
  unfold slice
  rw [hsplit, ← hj, ← hi, List.drop_take, Nat.add_sub_cancel_left, List.drop_left, List.take_left]

end

/-! ## Numbers -/

/-- The number of bytes, the lowest first. -/
def number (bytes : List UInt8) : Nat := bytes.foldr (fun b n => b.toNat + 256 * n) 0

/-- So many bytes of a number, the lowest first. -/
def littleEndian : Nat → Nat → List UInt8
  | 0, _ => []
  | width + 1, n => UInt8.ofNat n :: littleEndian width (n / 256)

@[simp] theorem number_nil : number [] = 0 := rfl

@[simp] theorem number_cons (b : UInt8) (bytes : List UInt8) : number (b :: bytes) = b.toNat + 256 * number bytes := rfl

@[simp] theorem length_littleEndian (width n : Nat) : (littleEndian width n).length = width := by
  induction width generalizing n with
  | zero => rfl
  | succ width ih => simp [littleEndian, ih]

theorem number_littleEndian {width n : Nat} (h : n < 256 ^ width) : number (littleEndian width n) = n := by
  induction width generalizing n with
  | zero =>
    rw [Nat.pow_zero] at h
    simp [littleEndian]
    omega
  | succ width ih =>
    have hrest : n / 256 < 256 ^ width := by
      rw [Nat.pow_succ] at h
      omega
    rw [littleEndian, number_cons, ih hrest, UInt8.toNat_ofNat']
    omega

theorem number_lt (bytes : List UInt8) : number bytes < 256 ^ bytes.length := by
  induction bytes with
  | nil => simp
  | cons b bytes ih =>
    have hb := b.toNat_lt
    rw [number_cons, List.length_cons, Nat.pow_succ]
    omega

theorem number_inj {a b : List UInt8} (hlen : a.length = b.length) (h : number a = number b) : a = b := by
  induction a generalizing b with
  | nil => exact (List.length_eq_zero_iff.1 hlen.symm).symm
  | cons x a ih =>
    cases b with
    | nil => cases hlen
    | cons y b =>
      have hx := x.toNat_lt
      have hy := y.toNat_lt
      simp only [number_cons, List.length_cons, Nat.add_right_cancel_iff] at h hlen
      have hfirst : x.toNat = y.toNat := by omega
      rw [UInt8.toNat_inj.1 hfirst, ih hlen (by omega)]

/-! ## Formats -/

/-- Kinds of fields: `B`, `H`, `I` and `q`. -/
inductive Code where
  | byte
  | short
  | int
  | signedLong
  deriving DecidableEq, Repr

def Code.ofChar : Char → Option Code
  | 'B' => some .byte
  | 'H' => some .short
  | 'I' => some .int
  | 'q' => some .signedLong
  | _ => none

def Code.size : Code → Nat
  | .byte => 1
  | .short => 2
  | .int => 4
  | .signedLong => 8

def Code.value (code : Code) (bytes : List UInt8) : Int :=
  match code with
  | .signedLong => if number bytes < 2 ^ 63 then number bytes else number bytes - 2 ^ 64
  | _ => number bytes

/-- The fields of a format, with their offsets, and the size. `x` stands for a byte that is passed over. -/
def layoutFrom : Nat → List Char → Option (List (Code × Nat) × Nat)
  | offset, [] => some ([], offset)
  | offset, c :: format =>
    if c = ' ' ∨ c = '\n' then layoutFrom offset format
    else if c = 'x' then layoutFrom (offset + 1) format
    else
      match Code.ofChar c with
      | none => none
      | some code => (layoutFrom (offset + code.size) format).map fun r => ((code, offset) :: r.1, r.2)

/-- The values of the fields, without padding between them and in little-endian order, as `<` has it; `none` for
bytes of another size. -/
def unpack (format : List Char) (bytes : List UInt8) : Option (List Int) :=
  match format with
  | '<' :: format =>
    match layoutFrom 0 format with
    | none => none
    | some (fields, size) =>
      if bytes.length = size then some (fields.map fun f => f.1.value (slice f.2 (f.2 + f.1.size) bytes)) else none
  | _ => none

theorem unpack_eq {format : List Char} {fields : List (Code × Nat)} {bytes : List UInt8}
    (h : layoutFrom 0 format = some (fields, bytes.length)) :
    unpack ('<' :: format) bytes = some (fields.map fun f => f.1.value (slice f.2 (f.2 + f.1.size) bytes)) := by
  simp [unpack, h]

end Lib.Struct

import LogSubmitter.Lib.Words
import Mathlib.Data.List.DropRight
/-!
# Texts as Python reads them
-/
namespace LogSubmitter.Str

/-- `str.isspace` of a character. -/
def isSpace (c : Char) : Bool :=
  (0x09 ≤ c.toNat && c.toNat ≤ 0x0d) || (0x1c ≤ c.toNat && c.toNat ≤ 0x20) ||
    (0x2000 ≤ c.toNat && c.toNat ≤ 0x200a) ||
    [0x85, 0xa0, 0x1680, 0x2028, 0x2029, 0x202f, 0x205f, 0x3000].contains c.toNat

/-- The zeros of all scripts. Nine digits follow each. -/
def zeros : List Nat :=
  [0x30, 0x660, 0x6f0, 0x7c0, 0x966, 0x9e6, 0xa66, 0xae6, 0xb66, 0xbe6, 0xc66, 0xce6, 0xd66, 0xde6, 0xe50, 0xed0, 0xf20,
    0x1040, 0x1090, 0x17e0, 0x1810, 0x1946, 0x19d0, 0x1a80, 0x1a90, 0x1b50, 0x1bb0, 0x1c40, 0x1c50, 0xa620, 0xa8d0,
    0xa900, 0xa9d0, 0xa9f0, 0xaa50, 0xabf0, 0xff10, 0x104a0, 0x10d30, 0x11066, 0x110f0, 0x11136, 0x111d0, 0x112f0,
    0x11450, 0x114d0, 0x11650, 0x116c0, 0x11730, 0x118e0, 0x11950, 0x11c50, 0x11d50, 0x11da0, 0x11f50, 0x16a60, 0x16ac0,
    0x16b50, 0x1d7ce, 0x1d7d8, 0x1d7e2, 0x1d7ec, 0x1d7f6, 0x1e140, 0x1e2f0, 0x1e4f0, 0x1e950, 0x1fbf0]

/-- The value of a decimal digit. -/
def digit (c : Char) : Option Nat :=
  (zeros.find? fun zero => zero ≤ c.toNat && c.toNat < zero + 10).map (c.toNat - ·)

/-- `str.strip` -/
def strip (cs : List Char) : List Char := (cs.dropWhile isSpace).rdropWhile isSpace

/-- White space around a number: U+001C to U+001F are none there. -/
def isNumberSpace (c : Char) : Bool := isSpace c && !(0x1c ≤ c.toNat && c.toNat ≤ 0x1f)

/-- What `int` and `float` strip. -/
def stripNumber (cs : List Char) : List Char := (cs.dropWhile isNumberSpace).rdropWhile isNumberSpace

/-- Digits, with single underscores between them. -/
def digits : List Char → Option (List Nat)
  | [] => none
  | [c] => (digit c).map ([·])
  | c :: '_' :: cs => (digit c).bind fun d => (digits cs).map (d :: ·)
  | c :: cs => (digit c).bind fun d => (digits cs).map (d :: ·)

/-- What `sys.set_int_max_str_digits` is by default. -/
def maxDigits : Nat := 4300

/-- `int(text)`, `none` for a `ValueError`. -/
def int (text : String) : Option Int :=
  let number (cs : List Char) : Option Nat :=
    (digits cs).bind fun ds => if ds.length ≤ maxDigits then some (ds.foldl (fun n d => 10 * n + d) 0) else none
  match stripNumber text.toList with
  | '-' :: cs => (number cs).map fun n => -(n : Int)
  | '+' :: cs => (number cs).map fun n => (n : Int)
  | cs => (number cs).map fun n => (n : Int)

/-- `[0-9a-fA-F]`, or a digit of another script. -/
def hexDigit (c : Char) : Option Nat :=
  if 'a' ≤ c ∧ c ≤ 'f' then some (c.toNat - 'a'.toNat + 10)
  else if 'A' ≤ c ∧ c ≤ 'F' then some (c.toNat - 'A'.toNat + 10)
  else digit c

/-- `int(text, 16)` of two characters. -/
def hexPair (a b : Char) : Option Int :=
  match stripNumber [a, b] with
  | [c] => (hexDigit c).map fun n => (n : Int)
  | ['+', c] => (hexDigit c).map fun n => (n : Int)
  | ['-', c] => (hexDigit c).map fun n => -(n : Int)
  | [c, d] => (hexDigit c).bind fun m => (hexDigit d).map fun n => ((16 * m + n : Nat) : Int)
  | _ => none

/-- `chr(n)`, `none` for a `ValueError`. -/
def chr (n : Int) : Option Char := if 0 ≤ n ∧ n < 0x110000 then some (Char.ofNat n.toNat) else none

/-- `text.split(c)` -/
def split (c : Char) (text : String) : List String := (text.toList.splitOn c).map String.ofList

/-- Without a sign. -/
def unsigned : List Char → List Char
  | '-' :: cs => cs
  | '+' :: cs => cs
  | cs => cs

/-- Whether `float(text)` is a number. -/
def isFloat (text : String) : Bool :=
  let cs := unsigned (stripNumber text.toList)
  let significand := cs.takeWhile fun c => c ≠ 'e' && c ≠ 'E'
  let exponent := cs.drop significand.length
  let whole := significand.takeWhile (· ≠ '.')
  let fraction := (significand.drop whole.length).tail
  ["inf", "infinity", "nan"].contains (String.ofList (cs.map Char.toLower)) ||
    ((digits whole).isSome || (whole = [] && fraction ≠ [])) && (fraction = [] || (digits fraction).isSome) &&
      (exponent = [] || (digits (unsigned exponent.tail)).isSome)

/-- `text.rsplit(c, 1)[0]` -/
def beforeLast (c : Char) (text : List Char) : List Char :=
  match text.reverse.dropWhile (· ≠ c) with
  | [] => text
  | _ :: cs => cs.reverse

/-- `text.startswith(start)` -/
def startsWith (start : String) (text : List Char) : Bool := start.toList.isPrefixOf text

/-- `sub in text` -/
def contains (sub : String) (text : List Char) : Bool := text.tails.any (startsWith sub)

/-- `text.split(sub, 1)[1]`, for a text that contains `sub`. -/
def after (sub : String) (text : List Char) : List Char :=
  ((text.tails.find? (startsWith sub)).getD []).drop sub.length

/-- `text.split()` -/
def words (text : List Char) : List (List Char) := Lib.Words.words isSpace text

/-- `text.lstrip()` -/
def lstrip (text : List Char) : List Char := text.dropWhile isSpace

/-- `text.rstrip(c)` -/
def rstripChar (c : Char) (text : List Char) : List Char := text.rdropWhile (· = c)

theorem rstripChar_eq_self {c : Char} {text : List Char} (h : text.getLast? ≠ some c) : rstripChar c text = text := by
  unfold rstripChar
  rw [List.rdropWhile_eq_self_iff]
  intro hne
  rw [List.getLast?_eq_some_getLast hne] at h
  simpa using h

theorem rstripChar_concat {c : Char} {text : List Char} (h : text.getLast? ≠ some c) :
    rstripChar c (text ++ [c]) = text := by
  have hself := rstripChar_eq_self h
  unfold rstripChar at hself ⊢
  rw [List.rdropWhile_concat_pos _ _ _ (by simp), hself]

theorem beforeLast_append {c : Char} (l : List Char) {r : List Char} (h : c ∉ r) : beforeLast c (l ++ c :: r) = l := by
  have hrev : c ∉ r.reverse := by
    rw [List.mem_reverse]
    exact h
  unfold beforeLast
  rw [List.reverse_append, List.reverse_cons, List.append_assoc, List.singleton_append,
    Lib.Words.dropWhile_ne_append hrev]
  simp

/-! ## Numbers -/

theorem stripNumber_eq_self {cs : List Char} (h : ∀ c ∈ cs, isSpace c = false) : stripNumber cs = cs := by
  have hnot : ∀ c ∈ cs, ¬isNumberSpace c = true := by
    intro c hc
    simp [isNumberSpace, h c hc]
  have hleft : cs.dropWhile isNumberSpace = cs := by
    cases cs with
    | nil => rfl
    | cons c cs => exact List.dropWhile_cons_of_neg (hnot c List.mem_cons_self)
  unfold stripNumber
  rw [hleft, List.rdropWhile_eq_self_iff]
  exact fun hne => hnot _ (List.getLast_mem hne)

theorem not_isSpace_of_isDigit {c : Char} (h : c.isDigit = true) : isSpace c = false := by
  have hc : 48 ≤ c.toNat ∧ c.toNat ≤ 57 := by
    simpa [Char.isDigit, UInt32.le_iff_toNat_le] using h
  simp only [isSpace, List.contains_eq_mem]
  simp
  omega

theorem digit_of_isDigit {c : Char} (h : c.isDigit = true) : digit c = some (c.toNat - '0'.toNat) := by
  have hc : 48 ≤ c.toNat ∧ c.toNat ≤ 57 := by
    simpa [Char.isDigit, UInt32.le_iff_toNat_le] using h
  have hfirst : (decide (0x30 ≤ c.toNat) && decide (c.toNat < 0x30 + 10)) = true := by
    simp
    omega
  have hzeros : zeros = 0x30 :: zeros.tail := rfl
  unfold digit
  rw [hzeros, List.find?_cons]
  simp only [hfirst, Option.map_some, Char.reduceToNat]

theorem digits_of_isDigit {cs : List Char} (hne : cs ≠ []) (h : ∀ c ∈ cs, c.isDigit = true) :
    digits cs = some (cs.map fun c => c.toNat - '0'.toNat) := by
  induction cs with
  | nil => exact absurd rfl hne
  | cons c cs ih =>
    simp only [List.mem_cons, forall_eq_or_imp] at h
    cases cs with
    | nil => simp [digits, digit_of_isDigit h.1]
    | cons d cs =>
      have hd : d ≠ '_' := by
        rintro rfl
        exact absurd (h.2 '_' (by simp)) (by decide)
      rw [digits, digit_of_isDigit h.1, ih (List.cons_ne_nil d cs) h.2]
      · rfl
      · intro hnil
        cases hnil
      · intro cs' hcs
        cases hcs
        exact hd rfl

/-- A number with zeros before it. -/
def numeral (zeros n : Nat) : List Char := List.replicate zeros '0' ++ Nat.toDigits 10 n

theorem isDigit_of_mem_numeral {zeros n : Nat} {c : Char} (h : c ∈ numeral zeros n) : c.isDigit = true := by
  rcases List.mem_append.1 h with h | h
  · rw [List.eq_of_mem_replicate h]
    rfl
  · exact Nat.isDigit_of_mem_toDigits (by decide) (by decide) h

theorem numeral_ne_nil (zeros n : Nat) : numeral zeros n ≠ [] := by
  simp [numeral, Nat.toDigits_ne_nil]

theorem int_numeral_eq (zeros n : Nat) :
    int (String.ofList (numeral zeros n)) = if (numeral zeros n).length ≤ maxDigits then some (n : Int) else none := by
  have hdigits := digits_of_isDigit (numeral_ne_nil zeros n) fun _ => isDigit_of_mem_numeral
  have hstrip : stripNumber (numeral zeros n) = numeral zeros n :=
    stripNumber_eq_self fun _ hc => not_isSpace_of_isDigit (isDigit_of_mem_numeral hc)
  have hvalue : ((numeral zeros n).map fun c => c.toNat - '0'.toNat).foldl (fun n d => 10 * n + d) 0 = n := by
    rw [List.foldl_map]
    exact (Nat.ofDigitChars_append (b := 10) 0).trans (by simp)
  have hsign : ∀ c cs, numeral zeros n = c :: cs → c ≠ '-' ∧ c ≠ '+' := by
    intro c cs hcons
    have hc : c.isDigit = true := isDigit_of_mem_numeral (by rw [hcons]; exact List.mem_cons_self)
    constructor <;> (rintro rfl; exact absurd hc (by decide))
  unfold int
  rw [String.toList_ofList, hstrip]
  dsimp only
  split
  · next cs heq => exact absurd rfl (hsign _ _ heq).1
  · next cs heq => exact absurd rfl (hsign _ _ heq).2
  · rw [hdigits, Option.bind_some, List.length_map, hvalue]
    split <;> rfl

/-- `int` reads a number of at most `maxDigits` digits. -/
theorem int_numeral {zeros n : Nat} (h : (numeral zeros n).length ≤ maxDigits) :
    int (String.ofList (numeral zeros n)) = some (n : Int) := by
  rw [int_numeral_eq, if_pos h]

/-- Digits, with a point before the last of them or without one. -/
structure Decimal where
  whole : List Char
  fraction : Option (List Char)
  whole_ne_nil : whole ≠ []
  whole_digits : ∀ c ∈ whole, c.isDigit = true
  fraction_digits : ∀ c ∈ fraction.getD [], c.isDigit = true

def Decimal.text (d : Decimal) : List Char := d.whole ++ d.fraction.elim [] ('.' :: ·)

theorem Decimal.mem_text {d : Decimal} {c : Char} (h : c ∈ d.text) : c.isDigit = true ∨ c = '.' := by
  rcases List.mem_append.1 h with h | h
  · exact .inl (d.whole_digits c h)
  · have hd := d.fraction_digits
    revert h hd
    cases d.fraction with
    | none => simp
    | some fraction =>
      intro h hd
      rcases List.mem_cons.1 h with h | h
      · exact .inr h
      · exact .inl (hd c h)

theorem Decimal.not_isSpace {d : Decimal} {c : Char} (h : c ∈ d.text) : isSpace c = false := by
  rcases d.mem_text h with h | rfl
  · exact not_isSpace_of_isDigit h
  · rfl

theorem isFloat_decimal (d : Decimal) : isFloat (String.ofList d.text) = true := by
  have hne : ∀ c ∈ d.text, c ≠ '-' ∧ c ≠ '+' ∧ c ≠ 'e' ∧ c ≠ 'E' := by
    intro c hc
    rcases d.mem_text hc with h | rfl
    · refine ⟨?_, ?_, ?_, ?_⟩ <;> (rintro rfl; exact absurd h (by decide))
    · decide
  have hstrip : stripNumber d.text = d.text := stripNumber_eq_self fun _ => d.not_isSpace
  have hsign : unsigned d.text = d.text := by
    unfold unsigned
    split
    · next heq => exact absurd rfl (hne '-' (by rw [heq]; exact List.mem_cons_self)).1
    · next heq => exact absurd rfl (hne '+' (by rw [heq]; exact List.mem_cons_self)).2.1
    · rfl
  have hsignificand : d.text.takeWhile (fun c => c ≠ 'e' && c ≠ 'E') = d.text := by
    rw [List.takeWhile_eq_self_iff]
    intro c hc
    simp [(hne c hc).2.2]
  have hpoint : ∀ c ∈ d.whole, decide (c ≠ '.') = true := by
    intro c hc
    apply decide_eq_true
    rintro rfl
    exact absurd (d.whole_digits _ hc) (by decide)
  have hwhole : d.text.takeWhile (· ≠ '.') = d.whole := by
    unfold Decimal.text
    rw [List.takeWhile_append_of_pos hpoint]
    cases d.fraction <;> simp
  have hfraction : (d.text.drop d.whole.length).tail = d.fraction.getD [] := by
    unfold Decimal.text
    rw [List.drop_left]
    cases d.fraction <;> rfl
  unfold isFloat
  rw [String.toList_ofList, hstrip, hsign]
  simp only [hsignificand, hwhole, hfraction, List.drop_length, digits_of_isDigit d.whole_ne_nil d.whole_digits]
  by_cases hnil : d.fraction.getD [] = []
  · simp [hnil]
  · simp [digits_of_isDigit hnil d.fraction_digits]

example : ["1_0.5e-3", " .5", "1.", "iNf", ".", "e5", "1e", "1__0", "--1"].map isFloat =
    [true, true, true, true, false, false, false, false, false] := by decide

example : [" -1_000\n", "1__0", "٣", "\u001c5"].map int = [some (-1000), none, some 3, none] := by decide

end LogSubmitter.Str

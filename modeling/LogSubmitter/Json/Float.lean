import LogSubmitter.Json
import Mathlib.Algebra.Group.Nat.Defs
/-!
# Floats and truth values

A float is kept as its text. What Python makes of it is a double: a text too
small for one is zero, a text too large for one is infinite.
-/
namespace LogSubmitter

namespace FloatText

/-- What follows the digits before the point. -/
def rest (f : FloatText) : List Char := (dropMinus f.text).dropWhile Char.isDigit

def fraction (f : FloatText) : List Char :=
  match f.rest with
  | '.' :: cs => cs.takeWhile Char.isDigit
  | _ => []

/-- `[eE][-+]?[0-9]+`, as a number. -/
def exponentValue : List Char → Int
  | _ :: '+' :: cs => (Nat.ofDigitChars 10 cs 0 : Int)
  | _ :: '-' :: cs => -(Nat.ofDigitChars 10 cs 0 : Int)
  | _ :: cs => (Nat.ofDigitChars 10 cs 0 : Int)
  | [] => 0

/-- The digits without the point. -/
def mantissa (f : FloatText) : Nat := Nat.ofDigitChars 10 ((dropMinus f.text).takeWhile Char.isDigit ++ f.fraction) 0

/-- The value is the mantissa times ten to this power. -/
def exponent (f : FloatText) : Int :=
  exponentValue (match f.rest with | '.' :: cs => cs.dropWhile Char.isDigit | cs => cs) - f.fraction.length

/-- Half the least positive double is still zero. -/
def isZero (f : FloatText) : Bool :=
  isDecimal f.text &&
    (f.mantissa = 0 || (f.exponent < 0 && f.mantissa * 2 ^ 1075 ≤ 10 ^ f.exponent.natAbs))

/-- From here on a number has no double. -/
def tooLarge : Nat := 2 ^ 1024 - 2 ^ 970

def isInfinite (f : FloatText) : Bool :=
  if isDecimal f.text then
    if f.exponent < 0 then tooLarge * 10 ^ f.exponent.natAbs ≤ f.mantissa
    else tooLarge ≤ f.mantissa * 10 ^ f.exponent.natAbs
  else f.text ≠ ['N', 'a', 'N']

def isNaN (f : FloatText) : Bool := f.text = ['N', 'a', 'N']

/-- A quotient as the nearest number, and as the even one of two. -/
def nearest (a b : Nat) : Nat :=
  if 2 * (a % b) < b then a / b else if b < 2 * (a % b) then a / b + 1 else a / b + a / b % 2

/-- The whole part of the double, of which 53 bits are kept, if it is finite. -/
def whole (f : FloatText) : Int :=
  let a := f.mantissa * 10 ^ f.exponent.toNat
  let b := 10 ^ (-f.exponent).toNat
  let bits := if a < b then 0 else Nat.log2 (a / b) + 1
  let n := if bits ≤ 53 then nearest (a * 2 ^ (53 - bits)) b / 2 ^ (53 - bits)
    else nearest a (b * 2 ^ (bits - 53)) * 2 ^ (bits - 53)
  if f.text.head? = some '-' then -(n : Int) else n

end FloatText

/-- `bool(value)` -/
def Json.truthy : Json → Bool
  | .null => false
  | .bool b => b
  | .num n => n ≠ 0
  | .float f => !f.isZero
  | .str s => s ≠ ""
  | .arr l => !l.isEmpty
  | .obj fields => !fields.isEmpty

example : ["-0.0", "1e-324", "5e-324", "1e309", "NaN"].map (fun text =>
    if h : (isDecimal text.toList || decide (text.toList ∈ nonFinite)) = true then
      (Json.truthy (.float ⟨text.toList, h⟩), FloatText.isInfinite ⟨text.toList, h⟩)
    else (false, false)) = [(false, false), (false, false), (true, false), (true, true), (true, false)] := by
  decide +kernel

example : ["-1.9", "0.99999999999999999", "12345678901234567890.5", "1e22"].map (fun text =>
    if h : (isDecimal text.toList || decide (text.toList ∈ nonFinite)) = true then FloatText.whole ⟨text.toList, h⟩
    else 0) = [-1, 1, 12345678901234567168, 10000000000000000000000] := by
  decide +kernel

end LogSubmitter

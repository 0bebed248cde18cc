import LogSubmitter.Lib.Dict
/-!
# JSON values

The values `json.loads` returns and `json.dump` writes. An object keeps the
order of its keys. `json.loads` is the inverse of `json.dumps` on them, so a
value stands for its text and texts are compared as values.
-/
namespace LogSubmitter

open Lib

/-! ## Numbers -/

/-- `-?`, and what follows. -/
def dropMinus : List Char → List Char
  | '-' :: cs => cs
  | cs => cs

/-- `0|[1-9][0-9]*` -/
def isWhole (cs : List Char) : Bool :=
  cs = ['0'] || (cs ≠ [] && cs.head? ≠ some '0' && cs.all Char.isDigit)

/-- `[0-9]+` -/
def isDigits (cs : List Char) : Bool := cs ≠ [] && cs.all Char.isDigit

/-- `[eE][-+]?[0-9]+` -/
def isExponent : List Char → Bool
  | e :: '+' :: cs => (e = 'e' || e = 'E') && isDigits cs
  | e :: '-' :: cs => (e = 'e' || e = 'E') && isDigits cs
  | e :: cs => (e = 'e' || e = 'E') && isDigits cs
  | [] => false

/-- A whole number with a fraction or an exponent, or both. -/
def isDecimal (cs : List Char) : Bool :=
  let whole := (dropMinus cs).takeWhile Char.isDigit
  isWhole whole &&
    match (dropMinus cs).dropWhile Char.isDigit with
    | '.' :: rest =>
      let fraction := rest.takeWhile Char.isDigit
      fraction ≠ [] && (rest.dropWhile Char.isDigit = [] || isExponent (rest.dropWhile Char.isDigit))
    | rest => isExponent rest

/-- The floats JSON has no numbers for. -/
def nonFinite : List (List Char) := ["NaN", "Infinity", "-Infinity"].map String.toList

/-- A float, as its `repr` in JSON. -/
structure FloatText where
  text : List Char
  valid : (isDecimal text || decide (text ∈ nonFinite)) = true
  deriving DecidableEq, Repr

/-! ## Values -/

inductive Json where
  | null
  | bool (b : Bool)
  | num (n : Int)
  | float (f : FloatText)
  | str (s : String)
  | arr (l : List Json)
  | obj (fields : List (String × Json))
  deriving Repr

namespace Json

mutual

/-- Equality of values. -/
def beq : Json → Json → Bool
  | .null, .null => true
  | .bool a, .bool b => a == b
  | .num a, .num b => decide (a = b)
  | .float a, .float b => decide (a = b)
  | .str a, .str b => decide (a = b)
  | .arr a, .arr b => beqList a b
  | .obj a, .obj b => beqFields a b
  | _, _ => false

def beqList : List Json → List Json → Bool
  | [], [] => true
  | a :: as, b :: bs => beq a b && beqList as bs
  | _, _ => false

def beqFields : List (String × Json) → List (String × Json) → Bool
  | [], [] => true
  | (k, a) :: as, (l, b) :: bs => decide (k = l) && beq a b && beqFields as bs
  | _, _ => false

end

mutual

theorem beq_iff : ∀ a b : Json, beq a b = true ↔ a = b
  | .null, b => by cases b <;> simp [beq]
  | .bool _, b => by cases b <;> simp [beq]
  | .num _, b => by cases b <;> simp [beq]
  | .float _, b => by cases b <;> simp [beq]
  | .str _, b => by cases b <;> simp [beq]
  | .arr l, b => by cases b <;> simp [beq, beqList_iff l]
  | .obj l, b => by cases b <;> simp [beq, beqFields_iff l]

theorem beqList_iff : ∀ a b : List Json, beqList a b = true ↔ a = b
  | [], b => by cases b <;> simp [beqList]
  | a :: as, b => by cases b <;> simp [beqList, beq_iff a, beqList_iff as]

theorem beqFields_iff : ∀ a b : List (String × Json), beqFields a b = true ↔ a = b
  | [], b => by cases b <;> simp [beqFields]
  | (k, a) :: as, b => by
    cases b <;> simp [beqFields, beq_iff a, beqFields_iff as, Prod.ext_iff, and_assoc]

end

instance : DecidableEq Json := fun a b => decidable_of_iff _ (beq_iff a b)

end Json

end LogSubmitter

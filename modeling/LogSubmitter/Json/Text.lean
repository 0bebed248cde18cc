import LogSubmitter.Json
import Mathlib.Data.List.TakeWhile
/-!
# JSON texts

What `json.dumps` writes, and how `json.loads` reads a text. The writer escapes
everything outside ASCII, the reader takes any JSON text, with any spaces and
escapes, and the names the Python module has for the floats JSON has none for.
-/
namespace LogSubmitter.Json

open Lib

/-! ## Writing -/

def hex4 (n : Nat) : List Char :=
  [Nat.digitChar (n / 4096 % 16), Nat.digitChar (n / 256 % 16), Nat.digitChar (n / 16 % 16), Nat.digitChar (n % 16)]

def unicodeEscape (unit : Nat) : List Char := '\\' :: 'u' :: hex4 unit

/-- The code units a character is escaped with. -/
def units (c : Char) : List Nat :=
  if c.toNat < 65536 then [c.toNat]
  else [55296 + (c.toNat - 65536) / 1024, 56320 + (c.toNat - 65536) % 1024]

/-- `ESCAPE_DCT`. -/
def shortEscapes : List (Char × Char) :=
  [('"', '"'), ('\\', '\\'), ('\n', 'n'), ('\r', 'r'), ('\t', 't'), ('\x0c', 'f'), ('\x08', 'b')]

/-- A character in a string, with `ensure_ascii`. -/
def escapeChar (c : Char) : List Char :=
  match Assoc.get c shortEscapes with
  | some e => ['\\', e]
  | none => if 32 ≤ c.toNat ∧ c.toNat < 127 then [c] else (units c).flatMap unicodeEscape

def dumpsStr (s : String) : List Char := '"' :: s.toList.flatMap escapeChar ++ ['"']

/-- A number of any size. Python writes and reads up to 4300 digits, and raises `ValueError` beyond. -/
def dumpsInt (n : Int) : List Char :=
  if n < 0 then '-' :: Nat.toDigits 10 n.natAbs else Nat.toDigits 10 n.natAbs

mutual

/-- `json.dumps`. -/
def dumps : Json → List Char
  | .null => "null".toList
  | .bool true => "true".toList
  | .bool false => "false".toList
  | .num n => dumpsInt n
  | .float f => f.text
  | .str s => dumpsStr s
  | .arr [] => ['[', ']']
  | .arr (v :: l) => '[' :: (dumps v ++ dumpsRest l)
  | .obj [] => ['{', '}']
  | .obj ((k, v) :: l) => '{' :: (dumpsStr k ++ ':' :: ' ' :: (dumps v ++ dumpsFields l))

/-- The elements after the first. -/
def dumpsRest : List Json → List Char
  | [] => [']']
  | v :: l => ',' :: ' ' :: (dumps v ++ dumpsRest l)

def dumpsFields : List (String × Json) → List Char
  | [] => ['}']
  | (k, v) :: l => ',' :: ' ' :: (dumpsStr k ++ ':' :: ' ' :: (dumps v ++ dumpsFields l))

end

/-! ## Reading strings -/

def hexValue (c : Char) : Option Nat :=
  if c.isDigit then some (c.toNat - 48)
  else if 'a' ≤ c ∧ c ≤ 'f' then some (c.toNat - 87)
  else if 'A' ≤ c ∧ c ≤ 'F' then some (c.toNat - 55)
  else none

/-- The character after a backslash. -/
def unescape (c : Char) : Option Char :=
  Assoc.get c
    [('"', '"'), ('\\', '\\'), ('/', '/'), ('b', '\x08'), ('f', '\x0c'), ('n', '\n'), ('r', '\r'), ('t', '\t')]

/-- The next code unit or character of a string. -/
def readUnit : List Char → Option (Nat × List Char)
  | '\\' :: 'u' :: a :: b :: c :: d :: r =>
    match hexValue a, hexValue b, hexValue c, hexValue d with
    | some a, some b, some c, some d => some (4096 * a + 256 * b + 16 * c + d, r)
    | _, _, _, _ => none
  | '\\' :: c :: r => (unescape c).map fun c => (c.toNat, r)
  | c :: r => if c = '\\' ∨ c.toNat < 32 then none else some (c.toNat, r)
  | [] => none

/-- The code units up to the closing quote. -/
def readUnits : Nat → List Char → Option (List Nat × List Char)
  | 0, _ => none
  | _ + 1, '"' :: r => some ([], r)
  | n + 1, r =>
    match readUnit r with
    | none => none
    | some (u, r) => (readUnits n r).map fun p => (u :: p.1, p.2)

def isHigh (u : Nat) : Bool := 55296 ≤ u && u < 56320

def isLow (u : Nat) : Bool := 56320 ≤ u && u < 57344

/-- The character of a code unit. A surrogate on its own is none. -/
def unitChar (u : Nat) : Char := if u.isValidChar then Char.ofNat u else '\ufffd'

/-- The characters of code units. -/
def combine : List Nat → List Char
  | [] => []
  | [u] => [unitChar u]
  | h :: l :: us =>
    if isHigh h && isLow l then Char.ofNat (65536 + 1024 * (h - 55296) + (l - 56320)) :: combine us
    else unitChar h :: combine (l :: us)

/-- A string, after its opening quote. -/
def readStr (text : List Char) : Option (String × List Char) :=
  (readUnits text.length text).map fun p => (String.ofList (combine p.1), p.2)

/-! ## Reading values -/

def isSpace (c : Char) : Bool := c = ' ' || c = '\t' || c = '\n' || c = '\r'

def skip (text : List Char) : List Char := text.dropWhile isSpace

def isNumberChar (c : Char) : Bool := c.isDigit || c = '-' || c = '+' || c = '.' || c = 'e' || c = 'E'

/-- A number. After one none of its characters may follow, so the longest run of them is taken. -/
def readNumber (text : List Char) : Option (Json × List Char) :=
  let run := text.takeWhile isNumberChar
  let rest := text.dropWhile isNumberChar
  if isWhole (dropMinus run) then
    let n := Nat.ofDigitChars 10 (dropMinus run) 0
    some (.num (if run.head? = some '-' then -n else n), rest)
  else if h : isDecimal run then some (.float ⟨run, by rw [h, Bool.true_or]⟩, rest)
  else none

def readName : List Char → Option (Json × List Char)
  | 'n' :: 'u' :: 'l' :: 'l' :: r => some (.null, r)
  | 't' :: 'r' :: 'u' :: 'e' :: r => some (.bool true, r)
  | 'f' :: 'a' :: 'l' :: 's' :: 'e' :: r => some (.bool false, r)
  | 'N' :: 'a' :: 'N' :: r => some (.float ⟨['N', 'a', 'N'], by decide⟩, r)
  | 'I' :: 'n' :: 'f' :: 'i' :: 'n' :: 'i' :: 't' :: 'y' :: r =>
    some (.float ⟨['I', 'n', 'f', 'i', 'n', 'i', 't', 'y'], by decide⟩, r)
  | '-' :: 'I' :: 'n' :: 'f' :: 'i' :: 'n' :: 'i' :: 't' :: 'y' :: r =>
    some (.float ⟨['-', 'I', 'n', 'f', 'i', 'n', 'i', 't', 'y'], by decide⟩, r)
  | _ => none

mutual

/-- A value at the start of the text, and the rest. -/
def readValue : Nat → List Char → Option (Json × List Char)
  | 0, _ => none
  | _ + 1, '"' :: r => (readStr r).map fun p => (.str p.1, p.2)
  | n + 1, '[' :: r =>
    match skip r with
    | ']' :: r => some (.arr [], r)
    | r => (readElements n r).map fun p => (.arr p.1, p.2)
  | n + 1, '{' :: r =>
    match skip r with
    | '}' :: r => some (.obj [], r)
    | r => (readFields n [] r).map fun p => (.obj p.1, p.2)
  | _ + 1, r =>
    match readNumber r with
    | some p => some p
    | none => readName r

def readElements : Nat → List Char → Option (List Json × List Char)
  | 0, _ => none
  | n + 1, r =>
    match readValue n r with
    | none => none
    | some (v, r) =>
      match skip r with
      | ']' :: r => some ([v], r)
      | ',' :: r => (readElements n (skip r)).map fun p => (v :: p.1, p.2)
      | _ => none

/-- The fields of an object. A later value of a key takes the place of an earlier one. -/
def readFields : Nat → List (String × Json) → List Char → Option (List (String × Json) × List Char)
  | n + 1, fields, '"' :: r =>
    match readStr r with
    | none => none
    | some (k, r) =>
      match skip r with
      | ':' :: r =>
        match readValue n (skip r) with
        | none => none
        | some (v, r) =>
          match skip r with
          | '}' :: r => some (Assoc.set k v fields, r)
          | ',' :: r => readFields n (Assoc.set k v fields) (skip r)
          | _ => none
      | _ => none
  | _, _, _ => none

end

/-- `json.loads`, `none` where it raises `JSONDecodeError`. -/
def loads (text : List Char) : Option Json :=
  match readValue (text.length + 1) (skip text) with
  | some (v, r) => if skip r = [] then some v else none
  | none => none

example : loads " [1, -2.5e-07, \"\\ud83d\\ude00\\/\", null]".toList =
    some (.arr [.num 1, .float ⟨"-2.5e-07".toList, by decide⟩, .str "😀/", .null]) := by
  decide +kernel

end LogSubmitter.Json

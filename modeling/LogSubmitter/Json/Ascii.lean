import LogSubmitter.Json.RoundTrip
/-!
# Texts as bytes

`json.dumps` writes printable ASCII, so its text is one line, and one byte a
character.
-/
namespace LogSubmitter.Json

/-- A character of `[ -~]`. -/
def printable (c : Char) : Bool := 32 ≤ c.toNat && c.toNat < 127

theorem printable_of_isNumberChar {c : Char} (h : isNumberChar c = true) : printable c = true := by
  simp only [isNumberChar, Bool.or_eq_true, decide_eq_true_eq, Char.isDigit, Bool.and_eq_true] at h
  rcases h with ((((h | rfl) | rfl) | rfl) | rfl) | rfl
  · have h48 := UInt32.le_iff_toNat_le.1 h.1
    have h57 := UInt32.le_iff_toNat_le.1 h.2
    have h48 : 48 ≤ c.toNat := h48
    have h57 : c.toNat ≤ 57 := h57
    simp only [printable, Bool.and_eq_true, decide_eq_true_eq]
    omega
  all_goals rfl

theorem printable_hex4 (n : Nat) : (hex4 n).all printable = true := by
  have hdigit : ∀ m < 16, printable (Nat.digitChar m) = true := by decide
  simp [hex4, hdigit _ (Nat.mod_lt _ (by decide : 0 < 16))]

theorem printable_escapeChar (c : Char) : (escapeChar c).all printable = true := by
  unfold escapeChar
  split
  · rename_i e he
    have hshort : ∀ p ∈ shortEscapes, printable p.2 = true := by decide
    have hmem := Lib.Assoc.mem_of_get he
    obtain ⟨p, hp, rfl⟩ := List.mem_map.1 hmem
    rw [List.all_cons, List.all_cons, hshort p hp]
    rfl
  · split
    · rename_i h
      simp [printable, h]
    · rw [List.all_flatMap]
      exact List.all_eq_true.2 fun unit _ => by simp [unicodeEscape, printable_hex4, printable]

theorem printable_dumpsStr (s : String) : (dumpsStr s).all printable = true := by
  have hchars : (s.toList.flatMap escapeChar).all printable = true := by
    rw [List.all_flatMap]
    exact List.all_eq_true.2 fun c _ => printable_escapeChar c
  simp only [dumpsStr, List.cons_append, List.all_cons, List.all_append, hchars]
  rfl

theorem printable_float (f : FloatText) : f.text.all printable = true := by
  have hv := f.valid
  rw [Bool.or_eq_true, decide_eq_true_eq] at hv
  rcases hv with h | h
  · exact List.all_eq_true.2 fun c hc => printable_of_isNumberChar (List.all_eq_true.1 (isDecimal_all h) c hc)
  · have hnames : ∀ t ∈ nonFinite, t.all printable = true := by decide
    exact hnames _ h

mutual

theorem printable_dumps : ∀ v : Json, (dumps v).all printable = true
  | .null => by decide
  | .bool true => by decide
  | .bool false => by decide
  | .num n => List.all_eq_true.2 fun c hc => printable_of_isNumberChar (List.all_eq_true.1 (dumpsInt_all n) c hc)
  | .float f => printable_float f
  | .str s => printable_dumpsStr s
  | .arr [] => by decide
  | .arr (v :: l) => by
    simp only [dumps, List.all_cons, List.all_append, printable_dumps v, printable_dumpsRest l]
    rfl
  | .obj [] => by decide
  | .obj ((k, v) :: l) => by
    simp only [dumps, List.all_cons, List.all_append, printable_dumpsStr k, printable_dumps v, printable_dumpsFields l]
    rfl

theorem printable_dumpsRest : ∀ l : List Json, (dumpsRest l).all printable = true
  | [] => by decide
  | v :: l => by
    simp only [dumpsRest, List.all_cons, List.all_append, printable_dumps v, printable_dumpsRest l]
    rfl

theorem printable_dumpsFields : ∀ l : List (String × Json), (dumpsFields l).all printable = true
  | [] => by decide
  | (k, v) :: l => by
    simp only [dumpsFields, List.all_cons, List.all_append, printable_dumpsStr k, printable_dumps v,
      printable_dumpsFields l]
    rfl

end

/-! ## UTF-8 -/

/-- `text.encode()` -/
def encode (text : List Char) : List UInt8 := text.flatMap String.utf8EncodeChar

/-- `bytes.decode()`, `none` where it raises `UnicodeDecodeError`. -/
def decode (bytes : List UInt8) : Option (List Char) := bytes.toByteArray.utf8Decode?.map Array.toList

/-- A sequence that has begun: how many bytes are missing, what the next one may be, and the bits so far. -/
structure Begun where
  missing : Nat
  low : Nat
  high : Nat
  bits : Nat

/-- What a byte is that begins a sequence: a character, what may follow it, or neither. -/
def leading (b : Nat) : List Char × Option Begun :=
  if b < 0x80 then ([Char.ofNat b], none)
  else if b < 0xc2 then (['\ufffd'], none)
  else if b < 0xe0 then ([], some ⟨1, 0x80, 0xbf, b - 0xc0⟩)
  else if b < 0xf0 then ([], some ⟨2, if b = 0xe0 then 0xa0 else 0x80, if b = 0xed then 0x9f else 0xbf, b - 0xe0⟩)
  else if b < 0xf5 then ([], some ⟨3, if b = 0xf0 then 0x90 else 0x80, if b = 0xf4 then 0x8f else 0xbf, b - 0xf0⟩)
  else (['\ufffd'], none)

/-- `bytes.decode(errors='replace')`, after a sequence has begun. -/
def decodeReplaceFrom : Option Begun → List UInt8 → List Char
  | none, [] => []
  | some _, [] => ['\ufffd']
  | none, b :: bytes => (leading b.toNat).1 ++ decodeReplaceFrom (leading b.toNat).2 bytes
  | some s, b :: bytes =>
    if s.low ≤ b.toNat ∧ b.toNat ≤ s.high then
      let bits := s.bits * 64 + b.toNat % 64
      if s.missing = 1 then Char.ofNat bits :: decodeReplaceFrom none bytes
      else decodeReplaceFrom (some ⟨s.missing - 1, 0x80, 0xbf, bits⟩) bytes
    else '\ufffd' :: (leading b.toNat).1 ++ decodeReplaceFrom (leading b.toNat).2 bytes

def decodeReplace (bytes : List UInt8) : List Char := decodeReplaceFrom none bytes

example : decodeReplace [0x41, 0xe2, 0x82, 0xac, 0xe2, 0x82, 0x41, 0xf0, 0x9f, 0xff, 0xed, 0xa0, 0x80] =
    "A€\ufffdA\ufffd\ufffd\ufffd\ufffd\ufffd".toList := by decide

theorem decode_encode (text : List Char) : decode (encode text) = some text := by
  have h : (encode text).toByteArray = text.utf8Encode := rfl
  rw [decode, h, List.utf8Decode?_utf8Encode]
  rfl

/-! ### What was encoded -/

theorem toNat_ofNat_byte {n : Nat} (h : n < 256) : (UInt8.ofNat n).toNat = n := UInt8.toNat_ofNat_of_lt' h

theorem decodeReplaceFrom_begin {n : Nat} {s : Begun} (h : n < 256) (hs : leading n = ([], some s))
    (bytes : List UInt8) :
    decodeReplaceFrom none (UInt8.ofNat n :: bytes) = decodeReplaceFrom (some s) bytes := by
  rw [decodeReplaceFrom, toNat_ofNat_byte h, hs]
  rfl

theorem decodeReplaceFrom_more {missing low high bits n : Nat} (h : low ≤ n ∧ n ≤ high) (hn : n < 256)
    (bytes : List UInt8) : decodeReplaceFrom (some ⟨missing + 2, low, high, bits⟩) (UInt8.ofNat n :: bytes) =
      decodeReplaceFrom (some ⟨missing + 1, 0x80, 0xbf, bits * 64 + n % 64⟩) bytes := by
  have hmissing : missing + 2 ≠ 1 := by omega
  rw [decodeReplaceFrom, toNat_ofNat_byte hn, if_pos h]
  exact if_neg hmissing

theorem decodeReplaceFrom_last {low high bits n : Nat} (h : low ≤ n ∧ n ≤ high) (hn : n < 256) (bytes : List UInt8) :
    decodeReplaceFrom (some ⟨1, low, high, bits⟩) (UInt8.ofNat n :: bytes) =
      Char.ofNat (bits * 64 + n % 64) :: decodeReplaceFrom none bytes := by
  rw [decodeReplaceFrom, toNat_ofNat_byte hn, if_pos h]
  rfl

/-- One case for each number of bytes. That the value is no surrogate is used for three of them. -/
theorem decodeReplaceFrom_char (c : Char) (rest : List UInt8) :
    decodeReplaceFrom none (String.utf8EncodeChar c ++ rest) = c :: decodeReplaceFrom none rest := by
  have hchar : Char.ofNat c.toNat = c := Char.ofNat_toNat c
  have hvalid : c.toNat < 0xd800 ∨ (0xdfff < c.toNat ∧ c.toNat < 0x110000) := c.valid
  unfold String.utf8EncodeChar
  rw [show c.val.toNat = c.toNat from rfl]
  generalize c.toNat = v at hchar hvalid
  dsimp only
  split
  · rw [List.singleton_append, decodeReplaceFrom, toNat_ofNat_byte (by omega), leading, if_pos (by omega), hchar]
    rfl
  · split
    · have hlead : leading (v / 64 % 32 + 192) = ([], some ⟨1, 0x80, 0xbf, v / 64 % 32⟩) := by
        rw [leading, if_neg (by omega), if_neg (by omega), if_pos (by omega), Nat.add_sub_cancel]
      have hbits : v / 64 % 32 * 64 + (v % 64 + 128) % 64 = v := by omega
      rw [List.cons_append, List.cons_append, List.nil_append, decodeReplaceFrom_begin (by omega) hlead,
        decodeReplaceFrom_last (by omega) (by omega), hbits, hchar]
    · split
      · have hlead : leading (v / 4096 % 16 + 224) = ([], some ⟨2, if v / 4096 % 16 + 224 = 0xe0 then 0xa0 else 0x80,
            if v / 4096 % 16 + 224 = 0xed then 0x9f else 0xbf, v / 4096 % 16⟩) := by
          rw [leading, if_neg (by omega), if_neg (by omega), if_neg (by omega), if_pos (by omega), Nat.add_sub_cancel]
        have hbits : (v / 4096 % 16 * 64 + (v / 64 % 64 + 128) % 64) * 64 + (v % 64 + 128) % 64 = v := by omega
        have hsecond : (if v / 4096 % 16 + 224 = 0xe0 then 0xa0 else 0x80) ≤ v / 64 % 64 + 128 ∧
            v / 64 % 64 + 128 ≤ if v / 4096 % 16 + 224 = 0xed then 0x9f else 0xbf := by
          constructor <;> split <;> omega
        simp only [List.cons_append, List.nil_append]
        rw [decodeReplaceFrom_begin (by omega) hlead, decodeReplaceFrom_more hsecond (by omega),
          decodeReplaceFrom_last (by omega) (by omega), hbits, hchar]
      · have hlead : leading (v / 262144 % 8 + 240) = ([], some ⟨3, if v / 262144 % 8 + 240 = 0xf0 then 0x90 else 0x80,
            if v / 262144 % 8 + 240 = 0xf4 then 0x8f else 0xbf, v / 262144 % 8⟩) := by
          rw [leading, if_neg (by omega), if_neg (by omega), if_neg (by omega), if_neg (by omega), if_pos (by omega),
            Nat.add_sub_cancel]
        have hbits : ((v / 262144 % 8 * 64 + (v / 4096 % 64 + 128) % 64) * 64 + (v / 64 % 64 + 128) % 64) * 64 +
            (v % 64 + 128) % 64 = v := by omega
        have hsecond : (if v / 262144 % 8 + 240 = 0xf0 then 0x90 else 0x80) ≤ v / 4096 % 64 + 128 ∧
            v / 4096 % 64 + 128 ≤ if v / 262144 % 8 + 240 = 0xf4 then 0x8f else 0xbf := by
          constructor <;> split <;> omega
        simp only [List.cons_append, List.nil_append]
        rw [decodeReplaceFrom_begin (by omega) hlead, decodeReplaceFrom_more hsecond (by omega),
          decodeReplaceFrom_more (by omega) (by omega), decodeReplaceFrom_last (by omega) (by omega), hbits, hchar]

/-- Nothing is replaced in what was encoded. -/
theorem decodeReplace_encode (text : List Char) : decodeReplace (encode text) = text := by
  unfold decodeReplace encode
  induction text with
  | nil => rfl
  | cons c text ih => rw [List.flatMap_cons, decodeReplaceFrom_char, ih]

/-- No newline comes out of printable characters. -/
theorem newline_not_mem_encode {text : List Char} (h : text.all printable = true) : 10 ∉ encode text := by
  intro hm
  obtain ⟨c, hc, hb⟩ := List.mem_flatMap.1 hm
  have hp := List.all_eq_true.1 h c hc
  simp only [printable, Bool.and_eq_true, decide_eq_true_eq] at hp
  have hle : c.val ≤ 127 := UInt32.le_iff_toNat_le.2 (by show c.toNat ≤ 127; omega)
  rw [String.utf8EncodeChar_eq_singleton (Char.utf8Size_eq_one_iff.2 hle), List.mem_singleton] at hb
  have hval : 10 = c.toNat % 256 := congrArg UInt8.toNat hb
  omega

end LogSubmitter.Json

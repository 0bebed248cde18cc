import LogSubmitter.Json
import LogSubmitter.Lib.Struct
/-!
# The EDID of a monitor

`MonitorsType.parse_edid` reads the first block of an EDID: who made the monitor,
its codes, and the texts of its descriptors.
-/
namespace LogSubmitter.Sysinfo.Edid

open Lib.Struct

abbrev Bytes := List UInt8

inductive Raised where
  | indexError
  | structError
  deriving DecidableEq, Repr

/-- The items of a dictionary. -/
abbrev Fields := List (String × Json)

/-! ## Code page 437 -/

/-- What the bytes from 0x80 stand for. -/
def high : List Char :=
  ["ÇüéâäàåçêëèïîìÄÅ", "ÉæÆôöòûùÿÖÜ¢£¥₧ƒ", "áíóúñÑªº¿⌐¬½¼¡«»", "░▒▓│┤╡╢╖╕╣║╗╝╜╛┐",
    "└┴┬├─┼╞╟╚╔╩╦╠═╬╧", "╨╤╥╙╘╒╓╫╪┘┌█▄▌▐▀", "αßΓπΣσ\u00b5τΦΘΩδ∞φε∩", "≡±≥≤⌠⌡÷≈°∙·√ⁿ²■\u00a0"].flatMap String.toList

def cp437 (b : UInt8) : Char := if b < 0x80 then Char.ofNat b.toNat else high.getD (b.toNat - 0x80) '\x00'

/-- `bytes.decode('cp437')` -/
def decode (bytes : Bytes) : List Char := bytes.map cp437

theorem high_length_and_newline : high.length = 0x80 ∧ '\n' ∉ '\x00' :: high := by decide +kernel

/-! ## Reading -/

/-- `value.split('\n')[0]` -/
def firstLine (value : List Char) : List Char := value.takeWhile (· ≠ '\n')

/-- `parse_display_descriptor` -/
def parseDisplayDescriptor (desc : Bytes) : Except Raised Fields :=
  match desc[1]? with
  | none => .error .indexError
  | some type =>
    if type ≠ 0xfc ∧ type ≠ 0xfe ∧ type ≠ 0xff then .ok [("type", .str "unknown")]
    else
      let value := decode (desc.drop 3)
      let info := [("value", .str (String.ofList (firstLine value)))]
      let info := if type = 0xfc then info ++ [("type", .str "name")] else info
      let info := if type = 0xfe then info ++ [("type", .str "text")] else info
      let info := if type = 0xff then info ++ [("type", .str "serial")] else info
      .ok info

/-- The layout of the block. -/
def format : List Char :=
  ["<q HHI xx BB xxxxx xxxxxxxxxx xxx ",
    "xx xx xx xx xx xx xx xx ",
    "Hxxxxxxxxxxxxxxxx ",
    "Hxxxxxxxxxxxxxxxx ",
    "Hxxxxxxxxxxxxxxxx ",
    "Hxxxxxxxxxxxxxxxx ",
    "xx"].flatMap String.toList

/-- `f'{n:0{width}x}'` -/
def hex (width n : Nat) : String :=
  let digits := Nat.toDigits 16 n
  String.ofList (List.replicate (width - digits.length) '0' ++ digits)

/-- `(pnp_id >> 8) | (pnp_id << 8)` -/
def swap (n : Nat) : Nat := n >>> 8 ||| n <<< 8

/-- The letter of five bits. -/
def letter (n : Nat) : Char := Char.ofNat ((n &&& 0x1f) + 0x40)

/-- A descriptor whose first two bytes are zero. -/
def addDescriptor (name : String) (start : Int) (desc : Bytes) (info : Fields) : Except Raised Fields :=
  if start = 0 then (parseDisplayDescriptor desc).map fun fields => info ++ [(name, .obj fields)] else .ok info

/-- `sum(edid)` -/
def total (edid : Bytes) : Nat := edid.foldl (fun n b => n + b.toNat) 0

/-- `parse_edid` -/
def parseEdid (edid : Bytes) : Except Raised (Option Fields) :=
  if edid.length < 128 then .ok none
  else
    match unpack format (edid.take 128) with
    | some [magic, pnpId, mfgPid, serial, major, minor, desc0, desc1, desc2, desc3] =>
      if magic ≠ 0xffffffffffff00 then .ok none
      else do
        let pnpId := swap pnpId.toNat
        let info : Fields :=
          [("pnp", .str (String.ofList [letter (pnpId >>> 10), letter (pnpId >>> 5), letter pnpId])),
            ("pid", .str (hex 4 mfgPid.toNat)),
            ("serial", .str (hex 8 serial.toNat)),
            ("version", .str (toString major ++ "." ++ toString minor)),
            ("checksum", .bool (total (edid.take 128) &&& 0xff = 0))]
        let info ← addDescriptor "desc0" desc0 (slice 56 72 edid) info
        let info ← addDescriptor "desc1" desc1 (slice 74 90 edid) info
        let info ← addDescriptor "desc2" desc2 (slice 92 108 edid) info
        let info ← addDescriptor "desc3" desc3 (slice 110 126 edid) info
        return some info
    | _ => .error .structError

/-! ## Every byte string -/

/-- Where the fields stand. -/
theorem layout_format : layoutFrom 0 format.tail =
    some ([(.signedLong, 0), (.short, 8), (.short, 10), (.int, 12), (.byte, 18), (.byte, 19), (.short, 54),
      (.short, 72), (.short, 90), (.short, 108)], 128) := by decide +kernel

theorem unpack_format {edid : Bytes} (h : 128 ≤ edid.length) :
    unpack format (edid.take 128) =
      some [Code.signedLong.value (slice 0 8 edid), number (slice 8 10 edid), number (slice 10 12 edid),
        number (slice 12 16 edid), number (slice 18 19 edid), number (slice 19 20 edid), number (slice 54 56 edid),
        number (slice 72 74 edid), number (slice 90 92 edid), number (slice 108 110 edid)] := by
  have hlength : (edid.take 128).length = 128 := by
    rw [List.length_take]
    omega
  have hformat : format = '<' :: format.tail := by decide +kernel
  have hlayout := layout_format
  rw [← hlength] at hlayout
  rw [hformat, unpack_eq hlayout]
  simp (disch := decide) only [List.map_cons, List.map_nil, Code.size, slice_take]
  rfl

/-- The first eight bytes of a block. -/
def magicBytes : Bytes := [0x00, 0xff, 0xff, 0xff, 0xff, 0xff, 0xff, 0x00]

theorem magic_iff {bytes : Bytes} (h : bytes.length = 8) :
    Code.signedLong.value bytes = 0xffffffffffff00 ↔ bytes = magicBytes := by
  have hmagic : number magicBytes = 0xffffffffffff00 := rfl
  have hlt := number_lt bytes
  rw [h] at hlt
  have hvalue : Code.signedLong.value bytes = 0xffffffffffff00 ↔ number bytes = number magicBytes := by
    rw [hmagic, Code.value]
    split <;> omega
  rw [hvalue]
  exact ⟨number_inj h, congrArg number⟩

theorem parseDisplayDescriptor_ok {desc : Bytes} (h : 1 < desc.length) :
    ∃ fields, parseDisplayDescriptor desc = .ok fields := by
  unfold parseDisplayDescriptor
  rw [List.getElem?_eq_getElem h]
  dsimp only
  split
  · exact ⟨_, rfl⟩
  · exact ⟨_, rfl⟩

theorem addDescriptor_ok (name : String) (start : Int) {desc : Bytes} (h : 1 < desc.length) (info : Fields) :
    ∃ more, addDescriptor name start desc info = .ok more := by
  unfold addDescriptor
  split
  · obtain ⟨fields, hfields⟩ := parseDisplayDescriptor_ok h
    rw [hfields]
    exact ⟨_, rfl⟩
  · exact ⟨info, rfl⟩

theorem parseEdid_short {edid : Bytes} (h : edid.length < 128) : parseEdid edid = .ok none := by
  unfold parseEdid
  rw [if_pos h]

theorem parseEdid_magic {edid : Bytes} (h : 128 ≤ edid.length) (hmagic : slice 0 8 edid ≠ magicBytes) :
    parseEdid edid = .ok none := by
  have hlength := length_slice (i := 0) (show 8 ≤ edid.length by omega)
  have hne := mt (magic_iff hlength).1 hmagic
  unfold parseEdid
  rw [if_neg (Nat.not_lt.2 h), unpack_format h]
  dsimp only
  rw [if_pos hne]

/-- The items but those of the descriptors. -/
def heading (edid : Bytes) : Fields :=
  let pnpId := swap (number (slice 8 10 edid))
  [("pnp", .str (String.ofList [letter (pnpId >>> 10), letter (pnpId >>> 5), letter pnpId])),
    ("pid", .str (hex 4 (number (slice 10 12 edid)))),
    ("serial", .str (hex 8 (number (slice 12 16 edid)))),
    ("version", .str (toString (number (slice 18 19 edid)) ++ "." ++ toString (number (slice 19 20 edid)))),
    ("checksum", .bool (total (edid.take 128) &&& 0xff = 0))]

theorem parseEdid_block {edid : Bytes} (h : 128 ≤ edid.length) (hmagic : slice 0 8 edid = magicBytes) :
    parseEdid edid =
      (addDescriptor "desc0" (number (slice 54 56 edid)) (slice 56 72 edid) (heading edid)).bind fun info =>
      (addDescriptor "desc1" (number (slice 72 74 edid)) (slice 74 90 edid) info).bind fun info =>
      (addDescriptor "desc2" (number (slice 90 92 edid)) (slice 92 108 edid) info).bind fun info =>
      (addDescriptor "desc3" (number (slice 108 110 edid)) (slice 110 126 edid) info).bind fun info =>
      .ok (some info) := by
  have hlength := length_slice (i := 0) (show 8 ≤ edid.length by omega)
  have heq := (magic_iff hlength).2 hmagic
  unfold parseEdid
  rw [if_neg (Nat.not_lt.2 h), unpack_format h]
  dsimp only
  rw [if_neg (not_not.2 heq)]
  rfl

/-- A string is read, unless it is too short or begins otherwise. -/
theorem parseEdid_total (edid : Bytes) :
    ∃ r, parseEdid edid = .ok r ∧ (r = none ↔ edid.length < 128 ∨ slice 0 8 edid ≠ magicBytes) := by
  by_cases h : edid.length < 128
  · exact ⟨none, parseEdid_short h, by simp [h]⟩
  · have h := Nat.le_of_not_lt h
    by_cases hmagic : slice 0 8 edid = magicBytes
    · have hdesc : ∀ i j name start info, i + 2 ≤ j → j ≤ 128 →
          ∃ more, addDescriptor name start (slice i j edid) info = .ok more := by
        intro i j name start info hij hj
        apply addDescriptor_ok
        rw [length_slice (by omega)]
        omega
      rw [parseEdid_block h hmagic]
      obtain ⟨info0, h0⟩ := hdesc 56 72 "desc0" (number (slice 54 56 edid)) (heading edid) (by decide) (by decide)
      obtain ⟨info1, h1⟩ := hdesc 74 90 "desc1" (number (slice 72 74 edid)) info0 (by decide) (by decide)
      obtain ⟨info2, h2⟩ := hdesc 92 108 "desc2" (number (slice 90 92 edid)) info1 (by decide) (by decide)
      obtain ⟨info3, h3⟩ := hdesc 110 126 "desc3" (number (slice 108 110 edid)) info2 (by decide) (by decide)
      rw [h0]
      dsimp only [Except.bind]
      rw [h1]
      dsimp only
      rw [h2]
      dsimp only
      rw [h3]
      refine ⟨some info3, rfl, ?_⟩
      simp [hmagic]
      omega
    · exact ⟨none, parseEdid_magic h hmagic, by simp [hmagic]⟩

/-! ## Blocks -/

/-- The letters of a PNP id. -/
def Letter := { c : Char // 'A' ≤ c ∧ c ≤ 'Z' }

/-- A letter in five bits. -/
def Letter.code (l : Letter) : Nat := l.val.toNat - 0x40

inductive Tag where
  | name
  | text
  | serial
  deriving DecidableEq, Repr

def Tag.code : Tag → UInt8
  | .name => 0xfc
  | .text => 0xfe
  | .serial => 0xff

def Tag.title : Tag → String
  | .name => "name"
  | .text => "text"
  | .serial => "serial"

/-- Thirteen bytes: a text, and a newline with any bytes after it where the text is shorter. -/
structure TextField where
  text : Bytes
  rest : Bytes
  length : text.length + rest.length = 13
  one_line : ∀ b ∈ text, b ≠ 0x0a
  ends : ∀ b ∈ rest.head?, b = 0x0a

inductive Descriptor where
  | timing (clock : UInt16) (running : clock ≠ 0) (bytes : Vector UInt8 16)
  | display (reserved : UInt8) (tag : Tag) (reserved' : UInt8) (field : TextField)

/-- The first two bytes. -/
def Descriptor.start : Descriptor → UInt16
  | .timing clock _ _ => clock
  | .display _ _ _ _ => 0

/-- The others. -/
def Descriptor.body : Descriptor → Bytes
  | .timing _ _ bytes => bytes.toList
  | .display reserved tag reserved' field => [reserved, tag.code, reserved'] ++ (field.text ++ field.rest)

/-- What is read of it. -/
def Descriptor.info : Descriptor → Option Fields
  | .timing _ _ _ => none
  | .display _ tag _ field =>
    some [("value", .str (String.ofList (decode field.text))), ("type", .str tag.title)]

/-- A block; what is not read of it is any bytes. -/
structure Block where
  id : Letter × Letter × Letter
  product : UInt16
  serial : UInt32
  date : Vector UInt8 2
  version : UInt8
  revision : UInt8
  features : Vector UInt8 34
  descriptors : Descriptor × Descriptor × Descriptor × Descriptor
  ending : Vector UInt8 2

namespace Block

variable (block : Block)

/-- The id in sixteen bits. -/
def packedId : Nat := 1024 * block.id.1.code + 32 * block.id.2.1.code + block.id.2.2.code

/-- The parts of the block, and what follows it. The id has its high byte first. -/
def chunks (more : Bytes) : List Bytes :=
  [[0x00, 0xff, 0xff, 0xff, 0xff, 0xff, 0xff, 0x00], (littleEndian 2 block.packedId).reverse,
    littleEndian 2 block.product.toNat, littleEndian 4 block.serial.toNat, block.date.toList, [block.version],
    [block.revision], block.features.toList,
    littleEndian 2 block.descriptors.1.start.toNat, block.descriptors.1.body,
    littleEndian 2 block.descriptors.2.1.start.toNat, block.descriptors.2.1.body,
    littleEndian 2 block.descriptors.2.2.1.start.toNat, block.descriptors.2.2.1.body,
    littleEndian 2 block.descriptors.2.2.2.start.toNat, block.descriptors.2.2.2.body,
    block.ending.toList, more]

/-- The bytes of the block. -/
def bytes : Bytes := (block.chunks []).flatten

/-- The items of the descriptors that are not timings. -/
def descriptorInfo : Fields :=
  [("desc0", block.descriptors.1.info), ("desc1", block.descriptors.2.1.info), ("desc2", block.descriptors.2.2.1.info),
    ("desc3", block.descriptors.2.2.2.info)].filterMap fun p => p.2.map fun fields => (p.1, .obj fields)

/-- What is to be read of the block. -/
def info : Fields :=
  [("pnp", .str (String.ofList [block.id.1.val, block.id.2.1.val, block.id.2.2.val])),
    ("pid", .str (hex 4 block.product.toNat)),
    ("serial", .str (hex 8 block.serial.toNat)),
    ("version", .str (toString block.version.toNat ++ "." ++ toString block.revision.toNat)),
    ("checksum", .bool (total block.bytes % 256 = 0))] ++ block.descriptorInfo

end Block

/-! ## Texts -/

theorem cp437_eq_newline {b : UInt8} (h : cp437 b = '\n') : b = 0x0a := by
  unfold cp437 at h
  split at h
  · next hb =>
    have hall : ∀ n : Fin 128, Char.ofNat n = '\n' → n = 10 := by decide +kernel
    have hn := hall ⟨b.toNat, UInt8.lt_iff_toNat_lt.1 hb⟩ h
    have hn : b.toNat = 10 := congrArg Fin.val hn
    exact UInt8.toNat_inj.1 hn
  · next hb =>
    have hmem : high.getD (b.toNat - 0x80) '\x00' ∈ '\x00' :: high := by
      rw [List.getD_eq_getElem?_getD]
      cases hget : high[b.toNat - 0x80]? with
      | none => exact List.mem_cons_self
      | some c => exact List.mem_cons_of_mem _ (List.mem_of_getElem? hget)
    rw [h] at hmem
    exact absurd hmem high_length_and_newline.2

theorem firstLine_decode (field : TextField) : firstLine (decode (field.text ++ field.rest)) = decode field.text := by
  have hline : ∀ c ∈ decode field.text, decide (c ≠ '\n') = true := by
    intro c hc
    obtain ⟨b, hb, rfl⟩ := List.mem_map.1 hc
    apply decide_eq_true
    intro h
    exact field.one_line b hb (cp437_eq_newline h)
  have hrest : (decode field.rest).takeWhile (fun c => decide (c ≠ '\n')) = [] := by
    have hends := field.ends
    unfold decode
    cases hrest : field.rest with
    | nil => rfl
    | cons b rest =>
      rw [hends b (by simp [hrest])]
      rfl
  unfold firstLine
  rw [decode, List.map_append, ← decode, ← decode, List.takeWhile_append_of_pos hline, hrest, List.append_nil]

theorem Descriptor.length_body (d : Descriptor) : d.body.length = 16 := by
  cases d with
  | timing clock running bytes => simp [body]
  | display reserved tag reserved' field =>
    have h := field.length
    simp [body]
    omega

theorem addDescriptor_body (name : String) (d : Descriptor) (info : Fields) :
    addDescriptor name (number (littleEndian 2 d.start.toNat)) d.body info =
      .ok (info ++ (d.info.map fun fields => (name, .obj fields)).toList) := by
  have hstart : d.start.toNat < 256 ^ 2 := d.start.toNat_lt
  rw [number_littleEndian hstart]
  cases d with
  | timing clock running bytes =>
    have hne : ((Descriptor.timing clock running bytes).start.toNat : Int) ≠ 0 := by
      intro h
      exact running (UInt16.toNat_inj.1 (Int.ofNat_inj.1 h))
    unfold addDescriptor
    rw [if_neg hne]
    simp [Descriptor.info]
  | display reserved tag reserved' field =>
    have hparse : parseDisplayDescriptor (Descriptor.display reserved tag reserved' field).body =
        .ok [("value", .str (String.ofList (decode field.text))), ("type", .str tag.title)] := by
      have hline := firstLine_decode field
      unfold parseDisplayDescriptor Descriptor.body
      cases tag <;> simp [Tag.code, Tag.title, hline]
    simp only [addDescriptor, hparse]
    rfl

/-! ## The id -/

theorem Letter.bounds (l : Letter) : 65 ≤ l.val.toNat ∧ l.val.toNat ≤ 90 := l.property

theorem Letter.code_lt (l : Letter) : l.code < 32 := by
  have hb := l.bounds
  unfold Letter.code
  omega

theorem letter_code {l : Letter} {n : Nat} (h : n % 32 = l.code) : letter n = l.val := by
  have hb := l.bounds
  have hmask : n &&& 0x1f = n % 32 := Nat.and_two_pow_sub_one_eq_mod n 5
  have hcode : l.code + 0x40 = l.val.toNat := by
    unfold Letter.code
    omega
  unfold letter
  rw [hmask, h, hcode, Char.ofNat_toNat]

theorem packedId_lt (block : Block) : block.packedId < 32768 := by
  have ha := block.id.1.bounds
  have hb := block.id.2.1.bounds
  have hc := block.id.2.2.bounds
  unfold Block.packedId Letter.code
  omega

theorem swap_packedId (block : Block) :
    swap (number (littleEndian 2 block.packedId).reverse) = block.packedId + 65536 * (block.packedId % 256) := by
  have hlt := packedId_lt block
  have hnumber : number (littleEndian 2 block.packedId).reverse =
      block.packedId / 256 + 256 * (block.packedId % 256) := by
    simp [littleEndian]
    omega
  have hhigh : (block.packedId / 256 + 256 * (block.packedId % 256)) >>> 8 = block.packedId % 256 := by
    rw [Nat.shiftRight_eq_div_pow]
    omega
  have hlow : block.packedId % 256 < 2 ^ 8 := Nat.mod_lt _ (by decide)
  rw [hnumber, swap, hhigh, Nat.or_comm, ← Nat.shiftLeft_add_eq_or_of_lt hlow, Nat.shiftLeft_eq]
  omega

/-- Three groups of five bits, whatever stands above them. -/
theorem five_bits {a b c : Nat} (ha : a < 32) (hb : b < 32) (hc : c < 32) (q : Nat) :
    (1024 * a + 32 * b + c + 65536 * q) / 2 ^ 10 % 32 = a ∧ (1024 * a + 32 * b + c + 65536 * q) / 2 ^ 5 % 32 = b ∧
      (1024 * a + 32 * b + c + 65536 * q) % 32 = c := by
  have hlow : (1024 * a + 32 * b + c + 65536 * q) / 32 = 32 * a + b + 2048 * q := by omega
  have hhigh : (1024 * a + 32 * b + c + 65536 * q) / 1024 = a + 64 * q := by omega
  refine ⟨?_, ?_, ?_⟩
  · rw [show 2 ^ 10 = 1024 from rfl, hhigh]
    omega
  · rw [show 2 ^ 5 = 32 from rfl, hlow]
    omega
  · omega

theorem letters_packedId (block : Block) :
    [letter (swap (number (littleEndian 2 block.packedId).reverse) >>> 10),
      letter (swap (number (littleEndian 2 block.packedId).reverse) >>> 5),
      letter (swap (number (littleEndian 2 block.packedId).reverse))] =
      [block.id.1.val, block.id.2.1.val, block.id.2.2.val] := by
  obtain ⟨ha, hb, hc⟩ := five_bits block.id.1.code_lt block.id.2.1.code_lt block.id.2.2.code_lt (block.packedId % 256)
  have hpacked : 1024 * block.id.1.code + 32 * block.id.2.1.code + block.id.2.2.code = block.packedId := rfl
  rw [hpacked] at ha hb hc
  rw [swap_packedId, Nat.shiftRight_eq_div_pow, Nat.shiftRight_eq_div_pow, letter_code ha, letter_code hb,
    letter_code hc]

/-! ## Every block -/

namespace Block

variable (block : Block) (more : Bytes)

theorem chunks_flatten : (block.chunks more).flatten = block.bytes ++ more := by
  simp [bytes, chunks]

theorem length_bytes : block.bytes.length = 128 := by
  simp [bytes, chunks, Descriptor.length_body]

/-- A part of the block, and what comes before it. -/
theorem slice_chunk {n i j : Nat} {chunk : Bytes} (h : (block.chunks more)[n]? = some chunk)
    (hi : ((block.chunks more).take n).flatten.length = i) (hj : i + chunk.length = j) :
    slice i j (block.bytes ++ more) = chunk := by
  rw [← block.chunks_flatten more]
  exact slice_flatten h hi hj

theorem heading_bytes : heading (block.bytes ++ more) =
    [("pnp", .str (String.ofList [block.id.1.val, block.id.2.1.val, block.id.2.2.val])),
      ("pid", .str (hex 4 block.product.toNat)),
      ("serial", .str (hex 8 block.serial.toNat)),
      ("version", .str (toString block.version.toNat ++ "." ++ toString block.revision.toNat)),
      ("checksum", .bool (total block.bytes % 256 = 0))] := by
  have hid : slice 8 10 (block.bytes ++ more) = (littleEndian 2 block.packedId).reverse :=
    block.slice_chunk more (n := 1) rfl (by simp [chunks]) (by simp)
  have hproduct : slice 10 12 (block.bytes ++ more) = littleEndian 2 block.product.toNat :=
    block.slice_chunk more (n := 2) rfl (by simp [chunks]) (by simp)
  have hserial : slice 12 16 (block.bytes ++ more) = littleEndian 4 block.serial.toNat :=
    block.slice_chunk more (n := 3) rfl (by simp [chunks]) (by simp)
  have hversion : slice 18 19 (block.bytes ++ more) = [block.version] :=
    block.slice_chunk more (n := 5) rfl (by simp [chunks]) (by simp)
  have hrevision : slice 19 20 (block.bytes ++ more) = [block.revision] :=
    block.slice_chunk more (n := 6) rfl (by simp [chunks]) (by simp)
  have htake : (block.bytes ++ more).take 128 = block.bytes := by
    rw [← block.length_bytes, List.take_left]
  have hproductNumber : number (littleEndian 2 block.product.toNat) = block.product.toNat :=
    number_littleEndian block.product.toNat_lt
  have hserialNumber : number (littleEndian 4 block.serial.toNat) = block.serial.toNat :=
    number_littleEndian block.serial.toNat_lt
  have hmask : ∀ n, n &&& 0xff = n % 256 := fun n => Nat.and_two_pow_sub_one_eq_mod n 8
  unfold heading
  dsimp only
  rw [hid, letters_packedId, hproduct, hserial, hversion, hrevision, htake, hproductNumber, hserialNumber, hmask,
    number_cons, number_cons, number_nil, Nat.mul_zero, Nat.add_zero, Nat.add_zero]

/-- A descriptor adds what is read of it, if it is not a timing. -/
theorem addDescriptor_slices (info : Fields) :
    addDescriptor "desc0" (number (slice 54 56 (block.bytes ++ more))) (slice 56 72 (block.bytes ++ more)) info =
      .ok (info ++ (block.descriptors.1.info.map fun fields => ("desc0", Json.obj fields)).toList) ∧
    addDescriptor "desc1" (number (slice 72 74 (block.bytes ++ more))) (slice 74 90 (block.bytes ++ more)) info =
      .ok (info ++ (block.descriptors.2.1.info.map fun fields => ("desc1", Json.obj fields)).toList) ∧
    addDescriptor "desc2" (number (slice 90 92 (block.bytes ++ more))) (slice 92 108 (block.bytes ++ more)) info =
      .ok (info ++ (block.descriptors.2.2.1.info.map fun fields => ("desc2", Json.obj fields)).toList) ∧
    addDescriptor "desc3" (number (slice 108 110 (block.bytes ++ more))) (slice 110 126 (block.bytes ++ more)) info =
      .ok (info ++ (block.descriptors.2.2.2.info.map fun fields => ("desc3", Json.obj fields)).toList) := by
  have hbody := Descriptor.length_body
  refine ⟨?_, ?_, ?_, ?_⟩
  · rw [block.slice_chunk more (n := 8) rfl (by simp [chunks]) (by simp),
      block.slice_chunk more (n := 9) rfl (by simp [chunks]) (by rw [hbody]), addDescriptor_body]
  · rw [block.slice_chunk more (n := 10) rfl (by simp [chunks, hbody]) (by simp),
      block.slice_chunk more (n := 11) rfl (by simp [chunks, hbody]) (by rw [hbody]), addDescriptor_body]
  · rw [block.slice_chunk more (n := 12) rfl (by simp [chunks, hbody]) (by simp),
      block.slice_chunk more (n := 13) rfl (by simp [chunks, hbody]) (by rw [hbody]), addDescriptor_body]
  · rw [block.slice_chunk more (n := 14) rfl (by simp [chunks, hbody]) (by simp),
      block.slice_chunk more (n := 15) rfl (by simp [chunks, hbody]) (by rw [hbody]), addDescriptor_body]

theorem filterMap_cons_eq_append {α β : Type} (f : α → Option β) (a : α) (l : List α) :
    (a :: l).filterMap f = (f a).toList ++ l.filterMap f := by
  cases h : f a <;> simp [h]

theorem parseEdid_bytes : parseEdid (block.bytes ++ more) = .ok (some block.info) := by
  have hlength : 128 ≤ (block.bytes ++ more).length := by
    rw [List.length_append, block.length_bytes]
    omega
  have hmagic : slice 0 8 (block.bytes ++ more) = magicBytes := block.slice_chunk more (n := 0) rfl rfl rfl
  rw [parseEdid_block hlength hmagic, block.heading_bytes, (block.addDescriptor_slices more _).1]
  dsimp only [Except.bind]
  rw [(block.addDescriptor_slices more _).2.1]
  dsimp only
  rw [(block.addDescriptor_slices more _).2.2.1]
  dsimp only
  rw [(block.addDescriptor_slices more _).2.2.2]
  unfold info descriptorInfo
  rw [filterMap_cons_eq_append, filterMap_cons_eq_append, filterMap_cons_eq_append, filterMap_cons_eq_append]
  simp only [List.filterMap_nil, List.append_nil, List.append_assoc]

end Block

theorem parseEdid_block_and_total :
    (∀ (block : Block) (more : Bytes), parseEdid (block.bytes ++ more) = .ok (some block.info)) ∧
    ∀ edid : Bytes, ∃ r, parseEdid edid = .ok r ∧ (r = none ↔ edid.length < 128 ∨ slice 0 8 edid ≠ magicBytes) :=
  ⟨fun block more => block.parseEdid_bytes more, parseEdid_total⟩

end LogSubmitter.Sysinfo.Edid

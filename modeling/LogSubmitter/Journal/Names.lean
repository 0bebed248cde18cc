import LogSubmitter.Journal.Helper
import LogSubmitter.Submit.Logs
/-!
# The names of pending journals

A name is made of the unit, escaped, and the invocation; `submit` takes it apart
at the last space. The code of a control character has a space of its own.
-/
namespace LogSubmitter.Journal

open Submit.Journal (unescapeFrom unescape)

/-- A unit's name that is its own bytes. -/
structure AsciiName where
  name : String
  ascii : ∀ c ∈ name.toList, c.toNat < 128

structure Invocation where
  id : String
  no_space : ' ' ∉ id.toList
  no_slash : '/' ∉ id.toList

/-! ## The way back -/

/-- The two characters of a code are read as the byte they are the code of. -/
theorem hexPair_hex2 :
    ∀ n : Fin 128, ∃ a b, hex2 n = [a, b] ∧ (Str.hexPair a b).bind Str.chr = some (Char.ofNat n) := by
  have h : ∀ n : Fin 128, (hex2 n).length = 2 ∧
      (Str.hexPair ((hex2 n).headD ' ') ((hex2 n).getLastD ' ')).bind Str.chr = some (Char.ofNat n) := by
    decide +kernel
  intro n
  obtain ⟨hlength, hread⟩ := h n
  obtain ⟨a, b, hab⟩ := List.length_eq_two.1 hlength
  rw [hab] at hread
  exact ⟨a, b, hab, hread⟩

theorem unescapeFrom_escapeByte {b : UInt8} (hb : b.toNat < 128) (rest : List Char) :
    unescapeFrom none (escapeByte b ++ rest) = Char.ofNat b.toNat :: unescapeFrom none rest := by
  unfold escapeByte
  split
  · next halnum =>
    have hne : Char.ofNat b.toNat ≠ '_' := by
      intro h
      rw [h] at halnum
      cases halnum
    rw [List.singleton_append, unescapeFrom, if_pos hne]
  · obtain ⟨x, y, hxy, hread⟩ := hexPair_hex2 ⟨b.toNat, hb⟩
    rw [hxy, List.cons_append, unescapeFrom, if_neg (by simp)]
    simp only [List.cons_append, List.nil_append, unescapeFrom, hread]
    rfl

theorem bytes_of_ascii {name : String} (h : ∀ c ∈ name.toList, c.toNat < 128) :
    name.toUTF8.data.toList = name.toList.map fun c => UInt8.ofNat c.toNat := by
  have hencode : name.toUTF8.data.toList = name.toList.flatMap String.utf8EncodeChar := by
    have hbytes : name.toUTF8 = (name.toList.flatMap String.utf8EncodeChar).toByteArray := String.utf8Encode_toList.symm
    rw [hbytes, List.toList_data_toByteArray]
  rw [hencode]
  generalize name.toList = cs at h
  induction cs with
  | nil => rfl
  | cons c cs ih =>
    simp only [List.mem_cons, forall_eq_or_imp] at h
    have hle : c.val ≤ 127 := UInt32.le_iff_toNat_le.2 (Nat.le_of_lt_succ h.1)
    rw [List.flatMap_cons, String.utf8EncodeChar_eq_singleton (Char.utf8Size_eq_one_iff.2 hle), ih h.2]
    rfl

theorem unescapeFrom_escape (unit : AsciiName) :
    unescapeFrom none (escape unit.name).toList = unit.name.toList := by
  have hascii := unit.ascii
  unfold escape
  rw [String.toList_ofList, bytes_of_ascii hascii]
  generalize unit.name.toList = cs at hascii
  induction cs with
  | nil => rfl
  | cons c cs ih =>
    simp only [List.mem_cons, forall_eq_or_imp] at hascii
    have hc : (UInt8.ofNat c.toNat).toNat = c.toNat := by
      rw [UInt8.toNat_ofNat']
      omega
    rw [List.map_cons, List.flatMap_cons, unescapeFrom_escapeByte (by omega), hc, Char.ofNat_toNat, ih hascii.2]

theorem unescapeFrom_append {l : List Char} (h : '_' ∉ l) (r : List Char) :
    unescapeFrom none (l ++ r) = l ++ unescapeFrom none r := by
  induction l with
  | nil => rfl
  | cons c l ih =>
    simp only [List.mem_cons, not_or] at h
    rw [List.cons_append, unescapeFrom, if_pos (Ne.symm h.1), ih h.2, List.cons_append]

/-- The name of the unit, with `user.` before that of a user's. -/
theorem unescape_unitName (user : Bool) (unit : AsciiName) :
    unescape (unitName user unit.name).toList = if user then "user." ++ unit.name else unit.name := by
  unfold unescape unitName
  cases user with
  | false => simp [unescapeFrom_escape]
  | true =>
    simp only [if_true, String.toList_append]
    rw [unescapeFrom_append (by decide), unescapeFrom_escape, ← String.toList_append, String.ofList_toList]

/-! ## Taking the name apart -/

theorem slash_not_mem_escape (name : String) : '/' ∉ (escape name).toList := by
  have no_slash : ∀ n : Fin 256, 0 ≤ n.val → '/' ∉ escapeByte (UInt8.ofNat n) := by decide +kernel
  exact not_mem_escape no_slash fun b _ => Nat.zero_le b.toNat

theorem slash_not_mem_unitName (user : Bool) (unit : String) : '/' ∉ (unitName user unit).toList := by
  have h := slash_not_mem_escape unit
  unfold unitName
  cases user with
  | false => exact h
  | true => simpa using h

theorem toList_fileName (name id : String) :
    (fileName name id).toList = (name.toList ++ ' ' :: id.toList) ++ ".json".toList := by
  simp [fileName]

theorem slash_not_mem_fileName {name : String} (h : '/' ∉ name.toList) (invocation : Invocation) :
    '/' ∉ (fileName name invocation.id).toList := by
  rw [toList_fileName]
  simp [h, invocation.no_slash]

theorem beforeLast_stem (dir : List Char) {name : String} (h : '/' ∉ name.toList) (invocation : Invocation) :
    Str.beforeLast ' ' (Submit.stem (dir ++ '/' :: (fileName name invocation.id).toList)) = name.toList := by
  have hslash := slash_not_mem_fileName h invocation
  rw [toList_fileName] at hslash ⊢
  have hstem := Submit.stem_append dir hslash (by decide) ⟨' ', by simp, by decide⟩
  exact (congrArg (Str.beforeLast ' ') hstem).trans (Str.beforeLast_append name.toList invocation.no_space)

theorem fileName_inj_of_invocation {name name' : String} {invocation invocation' : Invocation}
    (h : fileName name invocation.id = fileName name' invocation'.id) : name = name' ∧ invocation = invocation' := by
  have hl := congrArg String.toList h
  rw [toList_fileName, toList_fileName] at hl
  have hl := List.append_cancel_right hl
  have hname : name.toList = name'.toList := by
    have := congrArg (Str.beforeLast ' ') hl
    rwa [Str.beforeLast_append _ invocation.no_space, Str.beforeLast_append _ invocation'.no_space] at this
  rw [hname] at hl
  have hid : invocation.id.toList = invocation'.id.toList := (List.cons.inj (List.append_cancel_left hl)).2
  refine ⟨String.toList_inj.1 hname, ?_⟩
  have hid := String.toList_inj.1 hid
  cases invocation
  cases invocation'
  simpa using hid

/-- The name of a pending journal is a name in its directory, it is that of one unit and invocation only, and
`submit` finds the unit in it. -/
theorem fileName_unitName :
    (∀ user (unit : AsciiName) (invocation : Invocation),
      '/' ∉ (fileName (unitName user unit.name) invocation.id).toList) ∧
    (Function.Injective fun t : Bool × AsciiName × Invocation => fileName (unitName t.1 t.2.1.name) t.2.2.id) ∧
    (∀ dir user (unit : AsciiName) (invocation : Invocation),
      unescape (Str.beforeLast ' '
        (Submit.stem (dir ++ '/' :: (fileName (unitName user unit.name) invocation.id).toList))) =
          if user then "user." ++ unit.name else unit.name) ∧
    Function.Injective escape := by
  refine ⟨?_, ?_, ?_, fun _ _ => escape_inj⟩
  · intro user unit invocation
    exact slash_not_mem_fileName (slash_not_mem_unitName user unit.name) invocation
  · rintro ⟨user, ⟨name, ascii⟩, invocation⟩ ⟨user', ⟨name', ascii'⟩, invocation'⟩ h
    obtain ⟨hname, rfl⟩ := fileName_inj_of_invocation h
    obtain ⟨rfl, rfl⟩ := unitName_inj hname
    rfl
  · intro dir user unit invocation
    rw [beforeLast_stem dir (slash_not_mem_unitName user unit.name) invocation]
    exact unescape_unitName user unit

end LogSubmitter.Journal

import LogSubmitter.Json.Text
/-!
# What is written is read

`json.loads` reads back what `json.dumps` wrote, and refuses the text of an
object that stops before its end. For the latter: what is read of a text is
read of any longer one, once the text goes on behind it.
-/
namespace LogSubmitter.Json

open Lib

/-! ## Strings -/

theorem hexValue_digitChar : ∀ d, d < 16 → hexValue (Nat.digitChar d) = some d := by decide

theorem readUnit_unicode {u : Nat} (h : u < 65536) (r : List Char) :
    readUnit (unicodeEscape u ++ r) = some (u, r) := by
  simp only [unicodeEscape, hex4, List.cons_append, List.nil_append, readUnit,
    hexValue_digitChar _ (Nat.mod_lt _ (by decide : 0 < 16))]
  rw [Option.some.injEq, Prod.mk.injEq]
  exact ⟨by omega, rfl⟩

theorem unescape_short : ∀ p ∈ shortEscapes, unescape p.2 = some p.1 ∧ p.2 ≠ 'u' ∧ p.1.toNat < 65536 := by decide

theorem readUnit_backslash {c : Char} (h : c ≠ 'u') (r : List Char) :
    readUnit ('\\' :: c :: r) = (unescape c).map fun c => (c.toNat, r) := by
  rw [readUnit]
  intro a b c' d r' hu _
  exact h hu

theorem readUnit_plain {c : Char} (h : c ≠ '\\') (h32 : 32 ≤ c.toNat) (r : List Char) :
    readUnit (c :: r) = some (c.toNat, r) := by
  rw [readUnit]
  · rw [if_neg (by simp only [not_or, not_lt]; exact ⟨h, h32⟩)]
  · rintro a b c' d r' rfl
    exact absurd rfl h
  · rintro c' r' rfl
    exact absurd rfl h

theorem readUnits_cons {c : Char} (h : c ≠ '"') (n : Nat) (r : List Char) :
    readUnits (n + 1) (c :: r) =
      match readUnit (c :: r) with
      | none => none
      | some (u, r) => (readUnits n r).map fun p => (u :: p.1, p.2) := by
  exact readUnits.eq_3 _ n fun r' hq => h (List.cons.inj hq).1

/-- One step for an escaped unit. -/
theorem readUnits_unicodeEscape {u : Nat} (hu : u < 65536) (n : Nat) (r : List Char) :
    readUnits (n + 1) (unicodeEscape u ++ r) = (readUnits n r).map fun p => (u :: p.1, p.2) := by
  have hr := readUnit_unicode hu r
  rw [unicodeEscape, List.cons_append] at hr ⊢
  rw [readUnits_cons (by decide), hr]

/-- One step for each unit of the character. -/
theorem readUnits_escapeChar (c : Char) (n : Nat) (r : List Char) :
    readUnits (n + (units c).length) (escapeChar c ++ r) = (readUnits n r).map fun p => (units c ++ p.1, p.2) := by
  unfold escapeChar
  cases hs : Assoc.get c shortEscapes with
  | some e =>
    -- A short escape stands for one unit.
    have hm : (c, e) ∈ shortEscapes := (Assoc.get_eq_some (by decide)).1 hs
    obtain ⟨he, hu, hc⟩ := unescape_short _ hm
    have hunits : units c = [c.toNat] := if_pos hc
    rw [hunits]
    simp only [List.cons_append, List.nil_append, List.length_singleton]
    rw [readUnits_cons (by decide), readUnit_backslash hu, he]
    rfl
  | none =>
    have hq : c ≠ '"' := by rintro rfl; cases hs
    have hb : c ≠ '\\' := by rintro rfl; cases hs
    simp only
    split
    · rename_i hp
      -- So does a printable character of ASCII.
      have hunits : units c = [c.toNat] := if_pos (by omega)
      rw [hunits]
      simp only [List.cons_append, List.nil_append, List.length_singleton]
      rw [readUnits_cons hq, readUnit_plain hb hp.1]
    · unfold units
      split
      · rename_i h16
        simp only [List.flatMap_cons, List.flatMap_nil, List.append_nil, List.length_singleton]
        rw [readUnits_unicodeEscape h16]
        rfl
      -- Outside the basic plane there are two escapes, one for each surrogate.
      · have hlt : c.toNat < 1114112 := by
          have := c.valid
          rcases this with h | h
          · have : c.toNat < 55296 := h
            omega
          · exact h.2
        simp only [List.flatMap_cons, List.flatMap_nil, List.append_nil, List.append_assoc, List.length_cons,
          List.length_nil]
        rw [← Nat.add_assoc, readUnits_unicodeEscape (by omega), readUnits_unicodeEscape (by omega), Option.map_map]
        rfl

theorem readUnits_escaped (cs : List Char) (r : List Char) :
    readUnits ((cs.flatMap units).length + 1) (cs.flatMap escapeChar ++ '"' :: r) = some (cs.flatMap units, r) := by
  induction cs with
  | nil => rfl
  | cons c cs ih =>
    simp only [List.flatMap_cons, List.append_assoc, List.length_append]
    have hlen : (units c).length + (cs.flatMap units).length + 1 =
        (cs.flatMap units).length + 1 + (units c).length := by omega
    rw [hlen, readUnits_escapeChar, ih]
    rfl

theorem length_units_le (c : Char) : (units c).length ≤ (escapeChar c).length := by
  unfold escapeChar
  split
  · have := unescape_short _ ((Assoc.get_eq_some (by decide)).1 ‹_›)
    simp [units, if_pos this.2.2]
  · split
    · rename_i h
      simp [units, if_pos (show c.toNat < 65536 by omega)]
    · unfold units
      split <;> simp [unicodeEscape, hex4]

theorem length_flatMap_units_le (cs : List Char) : (cs.flatMap units).length ≤ (cs.flatMap escapeChar).length := by
  induction cs with
  | nil => exact Nat.le_refl _
  | cons c cs ih =>
    simp only [List.flatMap_cons, List.length_append]
    exact Nat.add_le_add (length_units_le c) ih

/-- A character is not a surrogate. -/
theorem not_surrogate (c : Char) : c.toNat < 55296 ∨ 57344 ≤ c.toNat ∧ c.toNat < 1114112 := by
  rcases c.valid with h | h
  · exact .inl h
  · exact .inr ⟨Nat.lt_of_lt_of_le (by decide) (Nat.succ_le_of_lt h.1), h.2⟩

theorem unitChar_toNat (c : Char) : unitChar c.toNat = c := by
  have hc : c.toNat.isValidChar := c.valid
  rw [unitChar, if_pos hc, Char.ofNat_toNat]

theorem combine_cons {c : Char} (us : List Nat) : combine (c.toNat :: us) = c :: combine us := by
  have hh : isHigh c.toNat = false := by
    have := not_surrogate c
    simp only [isHigh, Bool.and_eq_false_iff, decide_eq_false_iff_not, not_le, not_lt]
    omega
  cases us with
  | nil => simp only [combine, unitChar_toNat]
  | cons u us => rw [combine, hh, Bool.false_and, if_neg (by decide), unitChar_toNat]

theorem combine_units (c : Char) (us : List Nat) : combine (units c ++ us) = c :: combine us := by
  unfold units
  split
  · exact combine_cons us
  · have hc := not_surrogate c
    have hh : isHigh (55296 + (c.toNat - 65536) / 1024) = true := by
      simp only [isHigh, Bool.and_eq_true, decide_eq_true_eq]
      omega
    have hl : isLow (56320 + (c.toNat - 65536) % 1024) = true := by
      simp only [isLow, Bool.and_eq_true, decide_eq_true_eq]
      omega
    have hn : 65536 + 1024 * (55296 + (c.toNat - 65536) / 1024 - 55296) +
        (56320 + (c.toNat - 65536) % 1024 - 56320) = c.toNat := by omega
    simp only [List.cons_append, List.nil_append, combine, hh, hl, Bool.and_self, if_true, hn, Char.ofNat_toNat]

theorem combine_flatMap_units (cs : List Char) : combine (cs.flatMap units) = cs := by
  induction cs with
  | nil => rfl
  | cons c cs ih => rw [List.flatMap_cons, combine_units, ih]

/-- More text and more steps leave what was read as it is. -/
theorem readUnit_append {p r : List Char} {u : Nat} (h : readUnit p = some (u, r)) (s : List Char) :
    readUnit (p ++ s) = some (u, r ++ s) := by
  unfold readUnit at h
  split at h
  · split at h
    · cases h
      simp_all [readUnit]
    · cases h
  · rename_i c r' hu
    rcases Option.map_eq_some_iff.1 h with ⟨c', hc', he⟩
    cases he
    have hcu : c ≠ 'u' := by rintro rfl; cases hc'
    rw [List.cons_append, List.cons_append, readUnit_backslash hcu, hc']
    rfl
  · split at h
    · cases h
    · rename_i hc
      cases h
      rw [not_or, not_lt] at hc
      rw [List.cons_append, readUnit_plain hc.1 hc.2]
  · cases h

theorem readUnits_append {n m : Nat} {p r : List Char} {us : List Nat} (h : readUnits n p = some (us, r))
    (hm : n ≤ m) (s : List Char) : readUnits m (p ++ s) = some (us, r ++ s) := by
  induction n generalizing m p us with
  | zero => cases h
  | succ n ih =>
    obtain ⟨m, rfl⟩ := Nat.exists_eq_add_of_le' (show 1 ≤ m by omega)
    cases p with
    | nil => cases h
    | cons c p =>
      by_cases hc : c = '"'
      · subst hc
        cases h
        rfl
      · rw [readUnits_cons hc] at h
        rw [List.cons_append, readUnits_cons hc]
        cases hu : readUnit (c :: p) with
        | none => rw [hu] at h; cases h
        | some x =>
          rw [hu] at h
          obtain ⟨y, hy, he⟩ := Option.map_eq_some_iff.1 h
          cases he
          have happ := readUnit_append hu s
          rw [List.cons_append] at happ
          have hrest := ih hy (Nat.le_of_succ_le_succ hm)
          simp only [happ, hrest, Option.map_some]

theorem readStr_append {p r : List Char} {t : String} (h : readStr p = some (t, r)) (s : List Char) :
    readStr (p ++ s) = some (t, r ++ s) := by
  obtain ⟨x, hx, he⟩ := Option.map_eq_some_iff.1 h
  cases he
  rw [readStr, readUnits_append hx (by simp) s]
  rfl

theorem readStr_dumpsStr (t : String) (r : List Char) :
    readStr (t.toList.flatMap escapeChar ++ '"' :: r) = some (t, r) := by
  have h := readUnits_append (readUnits_escaped t.toList [])
    (show _ ≤ (t.toList.flatMap escapeChar ++ '"' :: r).length by
      have := length_flatMap_units_le t.toList
      simp only [List.length_append, List.length_cons]
      omega) r
  simp only [List.append_assoc, List.cons_append, List.nil_append] at h
  rw [readStr, h, Option.map_some, combine_flatMap_units, String.ofList_toList]

/-! ## Numbers -/

/-- No character of a number comes next. -/
def Ends (r : List Char) : Prop := ∀ c ∈ r.head?, isNumberChar c = false

theorem takeWhile_run {q : Char → Bool} {t r : List Char} (ht : t.all q = true) (hr : ∀ c ∈ r.head?, q c = false) :
    (t ++ r).takeWhile q = t ∧ (t ++ r).dropWhile q = r := by
  rw [List.takeWhile_append_of_pos (List.all_eq_true.1 ht), List.dropWhile_append_of_pos (List.all_eq_true.1 ht)]
  cases r with
  | nil => simp
  | cons c r =>
    have hc := hr c rfl
    simp [hc]

/-- A run of characters that has ended does not change with what comes later. -/
theorem run_append {q : Char → Bool} {p : List Char} (h : p.dropWhile q ≠ []) (s : List Char) :
    (p ++ s).takeWhile q = p.takeWhile q ∧ (p ++ s).dropWhile q = p.dropWhile q ++ s := by
  induction p with
  | nil => exact absurd rfl h
  | cons c p ih =>
    by_cases hc : q c = true
    · rw [List.dropWhile_cons_of_pos hc] at h
      simp [hc, ih h]
    · simp [hc]

theorem isNumberChar_of_isDigit {c : Char} (h : c.isDigit = true) : isNumberChar c = true := by
  simp [isNumberChar, h]

theorem dropMinus_of_isDigit {c : Char} (h : c.isDigit = true) (cs : List Char) : dropMinus (c :: cs) = c :: cs := by
  unfold dropMinus
  split
  · rename_i he
    rw [(List.cons.inj he).1] at h
    cases h
  · rfl

theorem toDigits_cons (n : Nat) : ∃ c cs, Nat.toDigits 10 n = c :: cs ∧ c.isDigit = true := by
  obtain ⟨c, cs, h⟩ := List.exists_cons_of_ne_nil (@Nat.toDigits_ne_nil n 10)
  exact ⟨c, cs, h, Nat.isDigit_of_mem_toDigits (b := 10) (by decide) (by decide) (by rw [h]; exact List.mem_cons_self)⟩

theorem toDigits_all (n : Nat) : (Nat.toDigits 10 n).all Char.isDigit = true :=
  List.all_eq_true.2 fun _ hc => Nat.isDigit_of_mem_toDigits (by decide) (by decide) hc

theorem head_toDigits {n : Nat} (h : n ≠ 0) : (Nat.toDigits 10 n).head? ≠ some '0' := by
  induction n using Nat.strong_induction_on with
  | _ n ih =>
    by_cases hn : n < 10
    · rw [Nat.toDigits_of_lt_base hn]
      have : ∀ d, d < 10 → d ≠ 0 → [Nat.digitChar d].head? ≠ some '0' := by decide
      exact this n hn h
    · rw [Nat.toDigits_of_base_le (by decide) (by omega)]
      have hq := ih (n / 10) (by omega) (by omega)
      obtain ⟨c, cs, hc, -⟩ := toDigits_cons (n / 10)
      rw [hc] at hq ⊢
      exact hq

theorem isWhole_toDigits (n : Nat) : isWhole (Nat.toDigits 10 n) = true := by
  by_cases h : n = 0
  · subst h
    decide
  · have hne : Nat.toDigits 10 n ≠ [] := Nat.toDigits_ne_nil
    simp [isWhole, hne, head_toDigits h, toDigits_all]

theorem dropMinus_dumpsInt (n : Int) : dropMinus (dumpsInt n) = Nat.toDigits 10 n.natAbs := by
  unfold dumpsInt
  split
  · rfl
  · obtain ⟨c, cs, h, hc⟩ := toDigits_cons n.natAbs
    rw [h, dropMinus_of_isDigit hc]

theorem head_dumpsInt (n : Int) : (dumpsInt n).head? = some '-' ↔ n < 0 := by
  unfold dumpsInt
  split
  · rename_i h
    simp [h]
  · rename_i h
    obtain ⟨c, cs, hc, hd⟩ := toDigits_cons n.natAbs
    rw [hc]
    refine iff_of_false ?_ h
    rintro ⟨⟩
    cases hd

theorem dumpsInt_all (n : Int) : (dumpsInt n).all isNumberChar = true := by
  have hd : (Nat.toDigits 10 n.natAbs).all isNumberChar = true :=
    List.all_eq_true.2 fun c hc => isNumberChar_of_isDigit (List.all_eq_true.1 (toDigits_all _) c hc)
  unfold dumpsInt
  split
  · rw [List.all_cons, hd]
    decide
  · exact hd

theorem readNumber_dumpsInt (n : Int) {r : List Char} (hr : Ends r) :
    readNumber (dumpsInt n ++ r) = some (.num n, r) := by
  obtain ⟨ht, hd⟩ := takeWhile_run (dumpsInt_all n) hr
  unfold readNumber
  simp only [ht, hd, dropMinus_dumpsInt, isWhole_toDigits, if_true, head_dumpsInt,
    Nat.ofDigitChars_toDigits (by decide : 1 < 10) (by decide : 10 ≤ 10)]
  rw [Option.some.injEq, Prod.mk.injEq, Json.num.injEq]
  refine ⟨?_, rfl⟩
  split <;> omega

theorem isDigits_all {cs : List Char} (h : isDigits cs = true) : cs.all isNumberChar = true := by
  simp only [isDigits, Bool.and_eq_true, decide_eq_true_eq] at h
  exact List.all_eq_true.2 fun c hc => isNumberChar_of_isDigit (List.all_eq_true.1 h.2 c hc)

theorem isExponent_all {cs : List Char} (h : isExponent cs = true) : cs.all isNumberChar = true := by
  unfold isExponent at h
  split at h
  all_goals first
    | (simp only [Bool.and_eq_true, Bool.or_eq_true, decide_eq_true_eq] at h
       have hd := isDigits_all h.2
       rcases h.1 with rfl | rfl <;> simp_all [isNumberChar])
    | cases h

/-- The parts of a decimal, all of them characters of a number. -/
theorem isDecimal_all {cs : List Char} (h : isDecimal cs = true) : cs.all isNumberChar = true := by
  have hrest : (dropMinus cs).all isNumberChar = true := by
    rw [isDecimal, Bool.and_eq_true] at h
    rw [← @List.takeWhile_append_dropWhile _ Char.isDigit (dropMinus cs), List.all_append, Bool.and_eq_true]
    refine ⟨List.all_eq_true.2 fun c hc => isNumberChar_of_isDigit (List.mem_takeWhile_imp hc), ?_⟩
    have h2 := h.2
    split at h2
    · rename_i rest hd
      rw [hd, List.all_cons, ← @List.takeWhile_append_dropWhile _ Char.isDigit rest, List.all_append]
      simp only [Bool.and_eq_true, Bool.or_eq_true, decide_eq_true_eq] at h2 ⊢
      refine ⟨by decide, List.all_eq_true.2 fun c hc => isNumberChar_of_isDigit (List.mem_takeWhile_imp hc), ?_⟩
      rcases h2.2 with hnil | he
      · rw [hnil]
        rfl
      · exact isExponent_all he
    · exact isExponent_all h2
  unfold dropMinus at hrest
  split at hrest
  · rw [List.all_cons, hrest]
    decide
  · exact hrest

/-- A decimal is no whole number. -/
theorem not_isWhole_of_isDecimal {cs : List Char} (h : isDecimal cs = true) : isWhole (dropMinus cs) = false := by
  by_contra hw
  rw [Bool.not_eq_false] at hw
  have hall : (dropMinus cs).all Char.isDigit = true := by
    rw [isWhole, Bool.or_eq_true, Bool.and_eq_true] at hw
    rcases hw with hz | hd
    · rw [of_decide_eq_true hz]
      decide
    · exact hd.2
  have hnil : (dropMinus cs).dropWhile Char.isDigit = [] := List.dropWhile_eq_nil_iff.2 (List.all_eq_true.1 hall)
  rw [isDecimal, hnil] at h
  simp [isExponent] at h

theorem readNumber_decimal {f : FloatText} (hf : isDecimal f.text = true) {r : List Char} (hr : Ends r) :
    readNumber (f.text ++ r) = some (.float f, r) := by
  obtain ⟨ht, hd⟩ := takeWhile_run (isDecimal_all hf) hr
  unfold readNumber
  simp only [ht, hd, not_isWhole_of_isDecimal hf, hf, dif_pos]
  rfl

theorem readNumber_append {p r : List Char} {v : Json} (h : readNumber p = some (v, r)) (hr : r ≠ [])
    (s : List Char) : readNumber (p ++ s) = some (v, r ++ s) := by
  have hrest : r = p.dropWhile isNumberChar := by
    unfold readNumber at h
    simp only at h
    split at h
    · cases h; rfl
    · split at h
      · cases h; rfl
      · cases h
  obtain ⟨ht, hd⟩ := run_append (hrest ▸ hr) s
  unfold readNumber at h ⊢
  simp only [ht, hd] at h ⊢
  split at h
  · rename_i hw
    rw [if_pos hw]
    cases h; rfl
  · rename_i hw
    rw [if_neg hw]
    split at h
    · rename_i hdec
      rw [dif_pos hdec]
      cases h; rfl
    · cases h

theorem readNumber_none {c : Char} (h : isNumberChar c = false) (r : List Char) : readNumber (c :: r) = none := by
  simp [readNumber, h, dropMinus, isWhole, isDecimal]

/-! ## Values -/

mutual

/-- No object in the value has a key twice. -/
def unique : Json → Bool
  | .arr l => uniqueAll l
  | .obj fields => decide (fields.map Prod.fst).Nodup && uniqueFields fields
  | _ => true

def uniqueAll : List Json → Bool
  | [] => true
  | v :: l => unique v && uniqueAll l

def uniqueFields : List (String × Json) → Bool
  | [] => true
  | (_, v) :: l => unique v && uniqueFields l

end

theorem readValue_scalar {c : Char} (h : c ≠ '"' ∧ c ≠ '[' ∧ c ≠ '{') (n : Nat) (r : List Char) :
    readValue (n + 1) (c :: r) =
      match readNumber (c :: r) with
      | some p => some p
      | none => readName (c :: r) := by
  exact readValue.eq_5 _ n (fun r' hq => h.1 (List.cons.inj hq).1) (fun r' hq => h.2.1 (List.cons.inj hq).1)
    fun r' hq => h.2.2 (List.cons.inj hq).1

theorem readValue_name {c : Char} (h : isNumberChar c = false ∧ c ≠ '"' ∧ c ≠ '[' ∧ c ≠ '{') (n : Nat)
    (r : List Char) : readValue (n + 1) (c :: r) = readName (c :: r) := by
  rw [readValue_scalar h.2, readNumber_none h.1]

theorem isNumberChar_ne {c : Char} (h : isNumberChar c = true) :
    (c ≠ '"' ∧ c ≠ '[' ∧ c ≠ '{') ∧ isSpace c = false ∧ c ≠ ']' := by
  refine ⟨⟨?_, ?_, ?_⟩, ?_, ?_⟩
  all_goals
    first
    | (rintro rfl; revert h; decide)
    | (by_contra hs
       simp only [isSpace, Bool.or_eq_false_iff, decide_eq_false_iff_not, not_and_or, not_not] at hs
       rcases hs with ((rfl | rfl) | rfl) | rfl <;> (revert h; decide))

/-- A text of number characters is read as the number it is. -/
theorem readValue_number {t r : List Char} {v : Json} (ht : t.all isNumberChar = true) (hne : t ≠ [])
    (h : readNumber (t ++ r) = some (v, r)) (n : Nat) : readValue (n + 1) (t ++ r) = some (v, r) := by
  obtain ⟨c, cs, rfl⟩ := List.exists_cons_of_ne_nil hne
  rw [List.all_cons, Bool.and_eq_true] at ht
  rw [List.cons_append] at h ⊢
  rw [readValue_scalar (isNumberChar_ne ht.1).1, h]

theorem ne_nil_of_isDecimal {cs : List Char} (h : isDecimal cs = true) : cs ≠ [] := by
  rintro rfl
  revert h
  decide

theorem dumpsInt_ne_nil (n : Int) : dumpsInt n ≠ [] := by
  unfold dumpsInt
  split
  · exact List.cons_ne_nil _ _
  · exact Nat.toDigits_ne_nil

theorem readValue_nonFinite {f : FloatText} (hf : f.text ∈ nonFinite) (n : Nat) (r : List Char) :
    readValue (n + 1) (f.text ++ r) = some (.float f, r) := by
  obtain ⟨text, hv⟩ := f
  simp only [nonFinite, List.map_cons, List.map_nil, List.mem_cons, List.not_mem_nil, or_false] at hf
  rcases hf with rfl | rfl | rfl
  · exact readValue_name (by decide) n _
  · exact readValue_name (by decide) n _
  · refine (readValue_scalar (by decide) n _).trans ?_
    have hnone : readNumber ("-Infinity".toList ++ r) = none := by
      simp [readNumber, isNumberChar, dropMinus, isWhole, isDecimal, isExponent]
    exact (congrArg (fun x => match x with | some p => some p | none => readName ("-Infinity".toList ++ r)) hnone)

theorem readValue_float (f : FloatText) (n : Nat) {r : List Char} (hr : Ends r) :
    readValue (n + 1) (f.text ++ r) = some (.float f, r) := by
  by_cases hf : isDecimal f.text = true
  · exact readValue_number (isDecimal_all hf) (ne_nil_of_isDecimal hf) (readNumber_decimal hf hr) n
  · have := f.valid
    rw [Bool.or_eq_true] at this
    exact readValue_nonFinite (of_decide_eq_true (this.resolve_left hf)) n r

/-- How a written value starts. -/
theorem dumps_cons (v : Json) : ∃ c cs, dumps v = c :: cs ∧ isSpace c = false ∧ c ≠ ']' := by
  have number : ∀ t : List Char, t.all isNumberChar = true → t ≠ [] →
      ∃ c cs, t = c :: cs ∧ isSpace c = false ∧ c ≠ ']' := by
    intro t ht hne
    obtain ⟨c, cs, rfl⟩ := List.exists_cons_of_ne_nil hne
    rw [List.all_cons, Bool.and_eq_true] at ht
    exact ⟨c, cs, rfl, (isNumberChar_ne ht.1).2⟩
  cases v with
  | null => exact ⟨'n', _, rfl, by decide⟩
  | bool b => cases b with
    | true => exact ⟨'t', _, rfl, by decide⟩
    | false => exact ⟨'f', _, rfl, by decide⟩
  | num n => exact number _ (dumpsInt_all n) (dumpsInt_ne_nil n)
  | float f =>
    -- A float is written as a decimal, or by name when it is not finite.
    obtain ⟨text, hv⟩ := f
    rw [Bool.or_eq_true] at hv
    rcases hv with hd | hf
    · exact number _ (isDecimal_all hd) (ne_nil_of_isDecimal hd)
    · have hm := of_decide_eq_true hf
      simp only [nonFinite, List.map_cons, List.map_nil, List.mem_cons, List.not_mem_nil, or_false] at hm
      rcases hm with rfl | rfl | rfl
      · exact ⟨'N', _, rfl, by decide⟩
      · exact ⟨'I', _, rfl, by decide⟩
      · exact ⟨'-', _, rfl, by decide⟩
  | str s => exact ⟨'"', _, rfl, by decide⟩
  | arr l => cases l with
    | nil => exact ⟨'[', _, rfl, by decide⟩
    | cons v l => exact ⟨'[', _, rfl, by decide⟩
  | obj l => cases l with
    | nil => exact ⟨'{', _, rfl, by decide⟩
    | cons p l => exact ⟨'{', _, rfl, by decide⟩

theorem skip_dumps (v : Json) (r : List Char) : skip (dumps v ++ r) = dumps v ++ r := by
  obtain ⟨c, cs, h, hs, -⟩ := dumps_cons v
  simp [skip, h, hs]

theorem length_dumps_pos (v : Json) : 0 < (dumps v).length := by
  obtain ⟨c, cs, h, -⟩ := dumps_cons v
  simp [h]

theorem ends_rest (l : List Json) (r : List Char) : Ends (dumpsRest l ++ r) := by
  cases l <;> simp [dumpsRest, Ends, isNumberChar]

theorem ends_fields (l : List (String × Json)) (r : List Char) : Ends (dumpsFields l ++ r) := by
  cases l <;> simp [dumpsFields, Ends, isNumberChar]

theorem skip_space (r : List Char) : skip (' ' :: r) = skip r := by simp [skip, isSpace]

theorem skip_cons {c : Char} (h : isSpace c = false) (r : List Char) : skip (c :: r) = c :: r := by simp [skip, h]

theorem skip_dumpsStr (s : String) (r : List Char) : skip (dumpsStr s ++ r) = dumpsStr s ++ r :=
  skip_cons (by decide) _

/-- One round of reading a list, at an element that is read back. -/
theorem readElements_cons {v : Json} {n : Nat} {t : List Char} (hv : readValue n (dumps v ++ t) = some (v, t)) :
    readElements (n + 1) (dumps v ++ t) =
      match skip t with
      | ']' :: r => some ([v], r)
      | ',' :: r => (readElements n (skip r)).map fun p => (v :: p.1, p.2)
      | _ => none := by
  rewrite [readElements, hv]
  rfl

/-- One round of reading an object, at a new key with a value that is read back. -/
theorem readFields_cons {k : String} {v : Json} {fields : List (String × Json)} {n : Nat} {t : List Char}
    (hk : k ∉ fields.map Prod.fst) (hv : readValue n (dumps v ++ t) = some (v, t)) :
    readFields (n + 1) fields (dumpsStr k ++ ':' :: ' ' :: (dumps v ++ t)) =
      match skip t with
      | '}' :: r => some (fields ++ [(k, v)], r)
      | ',' :: r => readFields n (fields ++ [(k, v)]) (skip r)
      | _ => none := by
  have hstr : readStr (k.toList.flatMap escapeChar ++ '"' :: ':' :: ' ' :: (dumps v ++ t)) =
      some (k, ':' :: ' ' :: (dumps v ++ t)) := readStr_dumpsStr k _
  have hcolon : skip (':' :: ' ' :: (dumps v ++ t)) = ':' :: ' ' :: (dumps v ++ t) := skip_cons (by decide) _
  simp only [dumpsStr, List.cons_append, List.append_assoc, List.nil_append, readFields, hstr, hcolon, skip_space,
    skip_dumps]
  rewrite [hv, ← Assoc.set_of_not_mem hk]
  rfl

theorem readValue_list {r : List Char} (h : ∀ r', skip r ≠ ']' :: r') (n : Nat) :
    readValue (n + 1) ('[' :: r) = (readElements n (skip r)).map fun p => (.arr p.1, p.2) := by
  rw [readValue]
  split
  · rename_i he
    exact absurd he (h _)
  · rfl

theorem readValue_object {r : List Char} (h : ∀ r', skip r ≠ '}' :: r') (n : Nat) :
    readValue (n + 1) ('{' :: r) = (readFields n [] (skip r)).map fun p => (.obj p.1, p.2) := by
  rw [readValue]
  split
  · rename_i he
    exact absurd he (h _)
  · rfl

mutual

/-- A written value is read back. -/
theorem readValue_dumps : ∀ (v : Json), unique v = true → ∀ (n : Nat) (r : List Char), (dumps v).length ≤ n →
    Ends r → readValue n (dumps v ++ r) = some (v, r)
  | v, _, 0, r, hn, _ => absurd hn (by have := length_dumps_pos v; omega)
  | .null, _, n + 1, r, _, _ => readValue_name (by decide) n _
  | .bool true, _, n + 1, r, _, _ => readValue_name (by decide) n _
  | .bool false, _, n + 1, r, _, _ => readValue_name (by decide) n _
  | .num k, _, n + 1, r, _, hr => readValue_number (dumpsInt_all k) (dumpsInt_ne_nil k) (readNumber_dumpsInt k hr) n
  | .float f, _, n + 1, r, _, hr => readValue_float f n hr
  | .str s, _, n + 1, r, _, _ => by
    simp only [dumps, dumpsStr, List.cons_append, List.append_assoc, List.nil_append, readValue, readStr_dumpsStr,
      Option.map_some]
  | .arr [], _, n + 1, r, _, _ => rfl
  | .arr (v :: l), hu, n + 1, r, hn, _ => by
    simp only [unique, uniqueAll, Bool.and_eq_true] at hu
    simp only [dumps, List.length_cons, Nat.add_le_add_iff_right] at hn
    have hrest := readElements_dumps l hu.2 v (readValue_dumps v hu.1) n r hn
    obtain ⟨c, cs, hc, -, hb⟩ := dumps_cons v
    rw [List.append_assoc] at hrest
    rw [dumps, List.cons_append, List.append_assoc, readValue_list, skip_dumps, hrest]
    · rfl
    · intro r' he
      rw [skip_dumps, hc, List.cons_append] at he
      exact hb (List.cons.inj he).1
  | .obj [], _, n + 1, r, _, _ => rfl
  | .obj ((k, v) :: l), hu, n + 1, r, hn, _ => by
    simp only [unique, uniqueFields, Bool.and_eq_true] at hu
    simp only [dumps, List.length_cons, Nat.add_le_add_iff_right] at hn
    have hrest := readFields_dumps l hu.2.2 k v (readValue_dumps v hu.2.1) [] n r (of_decide_eq_true hu.1) hn
    rw [List.append_assoc] at hrest
    rw [dumps, List.cons_append, List.append_assoc, readValue_object, skip_dumpsStr, hrest]
    · rfl
    · intro r' he
      rw [skip_dumpsStr] at he
      simp [dumpsStr] at he

theorem readElements_dumps : ∀ (l : List Json), uniqueAll l = true → ∀ v,
    (∀ n r, (dumps v).length ≤ n → Ends r → readValue n (dumps v ++ r) = some (v, r)) → ∀ (n : Nat) (r : List Char),
    (dumps v ++ dumpsRest l).length ≤ n → readElements n (dumps v ++ dumpsRest l ++ r) = some (v :: l, r)
  | _, _, v, _, 0, _, hn => absurd hn (by have := length_dumps_pos v; simp only [List.length_append]; omega)
  | [], _, v, hv, n + 1, r, hn => by
    simp only [dumpsRest, List.length_append, List.length_singleton] at hn
    rw [List.append_assoc, readElements_cons (hv n _ (by omega) (ends_rest _ _))]
    rfl
  | w :: l, hu, v, hv, n + 1, r, hn => by
    simp only [uniqueAll, Bool.and_eq_true] at hu
    simp only [dumpsRest, List.length_append, List.length_cons] at hn
    have hrest := readElements_dumps l hu.2 w (readValue_dumps w hu.1) n r
      (by simp only [List.length_append]; omega)
    rw [List.append_assoc] at hrest
    rw [List.append_assoc, readElements_cons (hv n _ (by omega) (ends_rest _ _)), dumpsRest, List.cons_append,
      skip_cons (by decide)]
    simp only [List.cons_append, List.append_assoc, skip_space, skip_dumps, hrest, Option.map_some]

theorem readFields_dumps : ∀ (l : List (String × Json)), uniqueFields l = true → ∀ (k : String) (v : Json),
    (∀ n r, (dumps v).length ≤ n → Ends r → readValue n (dumps v ++ r) = some (v, r)) →
    ∀ (fields : List (String × Json)) (n : Nat) (r : List Char),
    ((fields ++ (k, v) :: l).map Prod.fst).Nodup →
    (dumpsStr k ++ ':' :: ' ' :: (dumps v ++ dumpsFields l)).length ≤ n →
    readFields n fields (dumpsStr k ++ ':' :: ' ' :: (dumps v ++ dumpsFields l) ++ r) =
      some (fields ++ (k, v) :: l, r)
  | _, _, k, v, _, fields, 0, _, _, hn => absurd hn (by simp [dumpsStr])
  | [], _, k, v, hv, fields, n + 1, r, hk, hn => by
    simp only [dumpsFields, List.length_append, List.length_cons] at hn
    have hnew : k ∉ fields.map Prod.fst := by
      rw [List.map_append, List.nodup_append] at hk
      exact fun hm => hk.2.2 k hm k (by simp) rfl
    simp only [List.append_assoc, List.cons_append]
    rw [readFields_cons hnew (hv n _ (by omega) (ends_fields _ _))]
    rfl
  | (k', w) :: l, hu, k, v, hv, fields, n + 1, r, hk, hn => by
    simp only [uniqueFields, Bool.and_eq_true] at hu
    simp only [dumpsFields, List.length_append, List.length_cons] at hn
    have hnew : k ∉ fields.map Prod.fst := by
      rw [List.map_append, List.nodup_append] at hk
      exact fun hm => hk.2.2 k hm k (by simp) rfl
    have hrest := readFields_dumps l hu.2 k' w (readValue_dumps w hu.1) (fields ++ [(k, v)]) n r
      (by simpa using hk) (by simp only [List.length_append, List.length_cons]; omega)
    simp only [List.append_assoc, List.cons_append, List.nil_append] at hrest ⊢
    rw [readFields_cons hnew (hv n _ (by omega) (ends_fields _ _)), dumpsFields, List.cons_append,
      skip_cons (by decide)]
    simp only [List.cons_append, List.append_assoc, skip_space, skip_dumpsStr, hrest]

end

/-- `json.loads` reads what `json.dumps` writes. -/
theorem loads_dumps {v : Json} (hu : unique v = true) : loads (dumps v) = some v := by
  have hskip := skip_dumps v []
  have hread := readValue_dumps v hu ((dumps v).length + 1) [] (Nat.le_succ _) (by simp [Ends])
  rw [List.append_nil] at hskip hread
  rw [loads, hskip, hread]
  rfl

theorem dumps_inj {v w : Json} (hv : unique v = true) (hw : unique w = true) (h : dumps v = dumps w) : v = w := by
  have he := loads_dumps hv
  rw [h, loads_dumps hw, Option.some.injEq] at he
  exact he.symm

/-! ## Values that were read -/

theorem uniqueAll_iff {l : List Json} : uniqueAll l = true ↔ ∀ e ∈ l, unique e = true := by
  induction l with
  | nil => simp [uniqueAll]
  | cons v l ih => simp [uniqueAll, ih]

theorem uniqueFields_iff {l : List (String × Json)} : uniqueFields l = true ↔ ∀ p ∈ l, unique p.2 = true := by
  induction l with
  | nil => simp [uniqueFields]
  | cons p l ih => simp [uniqueFields, ih]

theorem unique_set {k : String} {v : Json} {fields : List (String × Json)} (hv : unique v = true)
    (h : unique (.obj fields) = true) : unique (.obj (Assoc.set k v fields)) = true := by
  simp only [unique, Bool.and_eq_true, decide_eq_true_eq, uniqueFields_iff] at h ⊢
  refine ⟨Assoc.nodup_set k v h.1, fun p hp => ?_⟩
  have hget := (Assoc.get_eq_some (Assoc.nodup_set k v h.1)).2 hp
  rw [Assoc.get_set] at hget
  split at hget
  · cases hget
    exact hv
  · exact h.2 _ ((Assoc.get_eq_some h.1).1 hget)

theorem readNumber_unique {p r : List Char} {v : Json} (h : readNumber p = some (v, r)) : unique v = true := by
  simp only [readNumber] at h
  split at h
  · cases h
    rfl
  · split at h
    · cases h
      rfl
    · cases h

theorem readName_unique {p r : List Char} {v : Json} (h : readName p = some (v, r)) : unique v = true := by
  unfold readName at h
  split at h <;> first | (cases h; rfl) | cases h

mutual

theorem readValue_unique : ∀ {n : Nat} {p r : List Char} {v : Json}, readValue n p = some (v, r) → unique v = true
  | 0, _, _, _, h => by cases h
  | _ + 1, [], _, _, h => by cases h
  | n + 1, c :: p, r, v, h => by
    by_cases hq : c = '"'
    · subst hq
      obtain ⟨x, -, he⟩ := Option.map_eq_some_iff.1 h
      cases he
      rfl
    by_cases hl : c = '['
    · subst hl
      rw [readValue] at h
      split at h
      · cases h
        rfl
      · obtain ⟨x, hx, he⟩ := Option.map_eq_some_iff.1 h
        cases he
        exact readElements_unique hx
    by_cases ho : c = '{'
    · subst ho
      rw [readValue] at h
      split at h
      · cases h
        rfl
      · obtain ⟨x, hx, he⟩ := Option.map_eq_some_iff.1 h
        cases he
        exact readFields_unique hx rfl
    · rw [readValue_scalar ⟨hq, hl, ho⟩] at h
      split at h
      · rename_i x hn
        cases h
        exact readNumber_unique hn
      · exact readName_unique h

theorem readElements_unique : ∀ {n : Nat} {p r : List Char} {l : List Json}, readElements n p = some (l, r) →
    uniqueAll l = true
  | 0, _, _, _, h => by cases h
  | n + 1, p, r, l, h => by
    rw [readElements] at h
    cases hv : readValue n p with
    | none => rw [hv] at h; cases h
    | some x =>
      have hu := readValue_unique hv
      rw [hv] at h
      simp only at h
      split at h
      · cases h
        rw [uniqueAll, hu]
        rfl
      · obtain ⟨y, hy, he⟩ := Option.map_eq_some_iff.1 h
        cases he
        rw [uniqueAll, hu, readElements_unique hy]
        rfl
      · cases h

theorem readFields_unique : ∀ {n : Nat} {fields l : List (String × Json)} {p r : List Char},
    readFields n fields p = some (l, r) → unique (.obj fields) = true → unique (.obj l) = true
  | 0, _, _, _, _, h, _ => by cases h
  | n + 1, fields, l, p, r, h, hu => by
    unfold readFields at h
    split at h
    · rename_i n' fields' p' hn
      cases hn
      split at h
      · cases h
      · split at h
        · rename_i r1 hc
          cases hv : readValue n (skip r1) with
          | none => rw [hv] at h; cases h
          | some y =>
            have hset := fun k => unique_set (k := k) (readValue_unique hv) hu
            rw [hv] at h
            simp only at h
            split at h
            · cases h
              exact hset _
            · exact readFields_unique h (hset _)
            · cases h
        · cases h
    · cases h

end

/-- No object that is read has a key twice. -/
theorem loads_unique {text : List Char} {v : Json} (h : loads text = some v) : unique v = true := by
  unfold loads at h
  split at h
  · rename_i w r hr
    split at h
    · cases h
      exact readValue_unique hr
    · cases h
  · cases h

/-! ## Parts of texts -/

theorem skip_append {p : List Char} (h : skip p ≠ []) (s : List Char) : skip (p ++ s) = skip p ++ s :=
  (run_append h s).2

theorem readName_append {p r : List Char} {v : Json} (h : readName p = some (v, r)) (s : List Char) :
    readName (p ++ s) = some (v, r ++ s) := by
  unfold readName at h
  split at h
  all_goals
    cases h
    try rfl

/-- A text that starts with a name is no number. -/
theorem readNumber_of_readName {p : List Char} (h : (readName p).isSome) : readNumber p = none := by
  unfold readName at h
  split at h
  · exact readNumber_none (by decide) _
  · exact readNumber_none (by decide) _
  · exact readNumber_none (by decide) _
  · exact readNumber_none (by decide) _
  · exact readNumber_none (by decide) _
  · simp [readNumber, isNumberChar, dropMinus, isWhole, isDecimal, isExponent]
  · cases h

theorem readValue_nil (n : Nat) : readValue n [] = none := by
  cases n <;> rfl

theorem readElements_nil (n : Nat) : readElements n [] = none := by
  cases n with
  | zero => rfl
  | succ n => rw [readElements, readValue_nil]

theorem readFields_nil (n : Nat) (fields : List (String × Json)) : readFields n fields [] = none := by
  cases n <;> rfl

/-- A value in brackets is read in a longer text, if what is in them is. -/
theorem readBracket_append {α : Type} {opening closing : Char} {empty : Json}
    {inner : Nat → List Char → Option (α × List Char)} {make : α → Json}
    (hempty : ∀ n p r, skip p = closing :: r → readValue (n + 1) (opening :: p) = some (empty, r))
    (hinner : ∀ n p, (∀ r, skip p ≠ closing :: r) →
      readValue (n + 1) (opening :: p) = (inner n (skip p)).map fun x => (make x.1, x.2))
    (hnil : ∀ n, inner n [] = none) {n m : Nat} {p r s : List Char} {v : Json}
    (hi : ∀ l r, inner n (skip p) = some (l, r) → inner m (skip p ++ s) = some (l, r ++ s))
    (h : readValue (n + 1) (opening :: p) = some (v, r)) :
    readValue (m + 1) (opening :: (p ++ s)) = some (v, r ++ s) := by
  by_cases hb : ∃ r', skip p = closing :: r'
  · obtain ⟨r', hb⟩ := hb
    have happ : skip (p ++ s) = closing :: (r' ++ s) := by
      rw [skip_append (by rw [hb]; exact List.cons_ne_nil _ _), hb]
      rfl
    rw [hempty n p r' hb] at h
    cases h
    exact hempty m _ _ happ
  · rw [not_exists] at hb
    rw [hinner n p hb] at h
    obtain ⟨x, hx, heq⟩ := Option.map_eq_some_iff.1 h
    cases heq
    have hne : skip p ≠ [] := fun h => by rw [h, hnil] at hx; cases hx
    obtain ⟨d, cs, hd⟩ := List.exists_cons_of_ne_nil hne
    rw [hinner m, skip_append hne, hi _ _ hx]
    · rfl
    · intro r' hr
      rw [skip_append hne, hd, List.cons_append] at hr
      exact hb cs (by rw [hd, (List.cons.inj hr).1])

/-- A list, if its elements are. -/
theorem readList_append {n m : Nat} {p r s : List Char} {v : Json}
    (he : ∀ l r, readElements n (skip p) = some (l, r) → readElements m (skip p ++ s) = some (l, r ++ s))
    (h : readValue (n + 1) ('[' :: p) = some (v, r)) : readValue (m + 1) ('[' :: (p ++ s)) = some (v, r ++ s) := by
  have hempty : ∀ n p r, skip p = ']' :: r → readValue (n + 1) ('[' :: p) = some (.arr [], r) := by
    intro n p r hr
    rw [readValue, hr]
    rfl
  exact readBracket_append hempty (fun n p hb => readValue_list hb n) readElements_nil he h

/-- An object, if its fields are. -/
theorem readObject_append {n m : Nat} {p r s : List Char} {v : Json}
    (hf : ∀ l r, readFields n [] (skip p) = some (l, r) → readFields m [] (skip p ++ s) = some (l, r ++ s))
    (h : readValue (n + 1) ('{' :: p) = some (v, r)) : readValue (m + 1) ('{' :: (p ++ s)) = some (v, r ++ s) := by
  have hempty : ∀ n p r, skip p = '}' :: r → readValue (n + 1) ('{' :: p) = some (.obj [], r) := by
    intro n p r hr
    rw [readValue, hr]
    rfl
  exact readBracket_append hempty (fun n p hb => readValue_object hb n) (fun n => readFields_nil n []) hf h

theorem readScalar_append {c : Char} (hc : c ≠ '"' ∧ c ≠ '[' ∧ c ≠ '{') {n m : Nat} {p r s : List Char} {v : Json}
    (h : readValue (n + 1) (c :: p) = some (v, r)) (hr : r ≠ []) :
    readValue (m + 1) (c :: (p ++ s)) = some (v, r ++ s) := by
  rw [readValue_scalar hc] at h ⊢
  cases hn : readNumber (c :: p) with
  | some x =>
    rw [hn] at h
    cases h
    have happ := readNumber_append hn hr s
    rw [List.cons_append] at happ
    rw [happ]
  | none =>
    rw [hn] at h
    have happ := readName_append h s
    rw [List.cons_append] at happ
    rw [readNumber_of_readName (by rw [happ]; rfl), happ]

theorem ne_nil_of_skip {r : List Char} {c : Char} {r' : List Char} (h : skip r = c :: r') : r ≠ [] ∧ skip r ≠ [] := by
  refine ⟨?_, h ▸ List.cons_ne_nil _ _⟩
  rintro rfl
  cases h

mutual

/-- What is read of a text with something left is read of any text that goes on from there. -/
theorem readValue_append : ∀ {n m : Nat} {p r : List Char} {v : Json}, readValue n p = some (v, r) → r ≠ [] → n ≤ m →
    ∀ s, readValue m (p ++ s) = some (v, r ++ s)
  | 0, _, _, _, _, h, _, _, _ => by cases h
  | n + 1, 0, _, _, _, _, _, hm, _ => absurd hm (by omega)
  | n + 1, m + 1, [], _, _, h, _, _, _ => by cases h
  | n + 1, m + 1, c :: p, r, v, h, hr, hm, s => by
    by_cases hq : c = '"'
    · subst hq
      obtain ⟨x, hx, he⟩ := Option.map_eq_some_iff.1 h
      cases he
      rw [List.cons_append, readValue, readStr_append hx]
      rfl
    by_cases hl : c = '['
    · subst hl
      exact readList_append (fun l r he => readElements_append he (Nat.le_of_succ_le_succ hm) s) h
    by_cases ho : c = '{'
    · subst ho
      exact readObject_append (fun l r hf => readFields_append hf (Nat.le_of_succ_le_succ hm) s) h
    · exact readScalar_append ⟨hq, hl, ho⟩ h hr

theorem readElements_append : ∀ {n m : Nat} {p r : List Char} {l : List Json}, readElements n p = some (l, r) →
    n ≤ m → ∀ s, readElements m (p ++ s) = some (l, r ++ s)
  | 0, _, _, _, _, h, _, _ => by cases h
  | n + 1, 0, _, _, _, _, hm, _ => absurd hm (by omega)
  | n + 1, m + 1, p, r, l, h, hm, s => by
    rw [readElements] at h ⊢
    cases hv : readValue n p with
    | none => rw [hv] at h; cases h
    | some x =>
      rw [hv] at h
      simp only at h
      split at h
      · rename_i r' hs
        cases h
        have hv' := readValue_append hv (ne_nil_of_skip hs).1 (Nat.le_of_succ_le_succ hm) s
        simp only [hv', skip_append (ne_nil_of_skip hs).2, hs, List.cons_append]
      · rename_i r' hs
        have hv' := readValue_append hv (ne_nil_of_skip hs).1 (Nat.le_of_succ_le_succ hm) s
        obtain ⟨y, hy, he⟩ := Option.map_eq_some_iff.1 h
        cases he
        have hne : skip r' ≠ [] := fun hnil => by rw [hnil, readElements_nil] at hy; cases hy
        have hy' := readElements_append hy (Nat.le_of_succ_le_succ hm) s
        simp only [hv', skip_append (ne_nil_of_skip hs).2, hs, List.cons_append, skip_append hne, hy',
          Option.map_some]
      · cases h

theorem readFields_append : ∀ {n m : Nat} {fields l : List (String × Json)} {p r : List Char},
    readFields n fields p = some (l, r) → n ≤ m → ∀ s, readFields m fields (p ++ s) = some (l, r ++ s)
  | 0, _, _, _, _, _, h, _, _ => by cases h
  | n + 1, 0, _, _, _, _, _, hm, _ => absurd hm (by omega)
  | n + 1, m + 1, fields, l, p, r, h, hm, s => by
    unfold readFields at h
    split at h
    · rename_i n' fields' p' hn
      cases hn
      cases hk : readStr p' with
      | none => rw [hk] at h; cases h
      | some x =>
        rw [hk] at h
        simp only at h
        split at h
        · rename_i r1 hc
          cases hv : readValue n (skip r1) with
          | none => rw [hv] at h; cases h
          | some y =>
            have hne : skip r1 ≠ [] := fun hnil => by rw [hnil, readValue_nil] at hv; cases hv
            rw [hv] at h
            simp only at h
            split at h
            · rename_i r2 hs
              cases h
              have hv' := readValue_append hv (ne_nil_of_skip hs).1 (Nat.le_of_succ_le_succ hm) s
              simp only [List.cons_append, readFields, readStr_append hk, skip_append (ne_nil_of_skip hc).2, hc,
                skip_append hne, hv', skip_append (ne_nil_of_skip hs).2, hs]
            · rename_i r2 hs
              have hv' := readValue_append hv (ne_nil_of_skip hs).1 (Nat.le_of_succ_le_succ hm) s
              have hne' : skip r2 ≠ [] := fun hnil => by rw [hnil, readFields_nil] at h; cases h
              have hf' := readFields_append h (Nat.le_of_succ_le_succ hm) s
              simp only [List.cons_append, readFields, readStr_append hk, skip_append (ne_nil_of_skip hc).2, hc,
                skip_append hne, hv', skip_append (ne_nil_of_skip hs).2, hs, skip_append hne', hf']
            · cases h
        · cases h
    · cases h

end

/-- An object's text cut short is refused. -/
theorem loads_eq_none {fields : List (String × Json)} (hu : unique (.obj fields) = true) {p : List Char}
    (hp : p <+: dumps (.obj fields)) (hlt : p.length < (dumps (.obj fields)).length) : loads p = none := by
  obtain ⟨s, hs⟩ := hp
  have hs0 : s ≠ [] := by
    rintro rfl
    rw [List.append_nil] at hs
    rw [hs] at hlt
    exact absurd hlt (Nat.lt_irrefl _)
  have hread := readValue_dumps _ hu ((dumps (.obj fields)).length + 1) [] (Nat.le_succ _) (by simp [Ends])
  rw [List.append_nil, ← hs] at hread
  cases p with
  | nil => rfl
  | cons c p =>
    have hc : c = '{' := by
      obtain ⟨t, ht⟩ : ∃ t, dumps (.obj fields) = '{' :: t := by
        cases fields with
        | nil => exact ⟨_, rfl⟩
        | cons f fields => exact ⟨_, rfl⟩
      rw [ht, List.cons_append] at hs
      exact (List.cons.inj hs).1
    subst hc
    rw [loads, skip_cons (by decide)]
    cases hv : readValue (('{' :: p).length + 1) ('{' :: p) with
    | none => rfl
    | some x =>
      have hlen : p.length + 1 ≤ (dumps (.obj fields)).length := Nat.le_of_lt hlt
      have happ := readObject_append (fun l r hf => readFields_append hf hlen s) hv
      rw [← hs] at happ
      have heq := hread.symm.trans happ
      rw [Option.some.injEq, Prod.mk.injEq] at heq
      exact absurd (List.append_eq_nil_iff.1 heq.2.symm).2 hs0

end LogSubmitter.Json

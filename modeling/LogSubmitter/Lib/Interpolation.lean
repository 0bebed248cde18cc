import LogSubmitter.Lib.Replace
import LogSubmitter.Lib.Regex
/-!
# Texts with references

In a text `$$` stands for a dollar, and `${path}` for what a table has under the path, in
which there may be references again. The table says where these are to be looked up.
-/
namespace Lib.Interpolation

inductive Error where
  | missing
  | invalid
  | depth
  deriving DecidableEq, Repr

/-! ## Pieces -/

inductive Piece where
  | char (c : Char)
  | reference (path : List Char)
  /-- A dollar that begins nothing. -/
  | bad
  deriving DecidableEq, Repr

/-- What has been read of a piece: nothing, a dollar, or a path in reverse. -/
inductive Mode where
  | text
  | dollar
  | path (read : List Char)

/-- The pieces of a text, up to one that is bad. -/
def piecesFrom : Mode → List Char → List Piece
  | .text, [] => []
  | .text, c :: cs => if c = '$' then piecesFrom .dollar cs else .char c :: piecesFrom .text cs
  | .dollar, [] => [.bad]
  | .dollar, c :: cs =>
    if c = '$' then .char '$' :: piecesFrom .text cs
    else if c = '{' then piecesFrom (.path []) cs
    else [.bad]
  | .path _, [] => [.bad]
  | .path read, c :: cs =>
    if c ≠ '}' then piecesFrom (.path (c :: read)) cs
    else if read = [] then [.bad]
    else .reference read.reverse :: piecesFrom .text cs

def pieces (text : List Char) : List Piece := piecesFrom .text text

/-- The pieces one after the other, up to the first that raises an exception. -/
def join (resolve : List Char → Except Error (List Char)) : List Piece → Except Error (List Char)
  | [] => .ok []
  | .char c :: ps => (join resolve ps).map (c :: ·)
  | .reference path :: ps => (resolve path).bind fun text => (join resolve ps).map (text ++ ·)
  | .bad :: _ => .error .invalid

/-- A reference leads to a text, and to where the references in it are looked up. -/
abbrev Table (σ : Type) := σ → List Char → Except Error (σ × List Char)

variable {σ : Type}

/-- A text with dollars is read one level deeper. -/
def interpolate (table : Table σ) : Nat → σ → List Char → Except Error (List Char)
  | 0, _, _ => .error .depth
  | n + 1, s, text =>
    join (fun path => (table s path).bind fun found =>
      if '$' ∈ found.2 then interpolate table n found.1 found.2 else .ok found.2) (pieces text)

/-! ## What is read -/

theorem join_mono {resolve resolve' : List Char → Except Error (List Char)}
    (h : ∀ path text, resolve path = .ok text → resolve' path = .ok text) {ps : List Piece} {text : List Char}
    (hjoin : join resolve ps = .ok text) : join resolve' ps = .ok text := by
  induction ps generalizing text with
  | nil => exact hjoin
  | cons piece ps ih =>
    cases piece with
    | char c =>
      cases hrest : join resolve ps with
      | error e => simp [join, hrest, Except.map] at hjoin
      | ok rest =>
        simp only [join, hrest, Except.map] at hjoin
        simp only [join, ih hrest, Except.map, hjoin]
    | reference path =>
      cases hpath : resolve path with
      | error e => simp [join, hpath, Except.bind] at hjoin
      | ok found =>
        cases hrest : join resolve ps with
        | error e => simp [join, hpath, hrest, Except.bind, Except.map] at hjoin
        | ok rest =>
          simp only [join, hpath, hrest, Except.bind, Except.map] at hjoin
          simp only [join, h path found hpath, ih hrest, Except.bind, Except.map, hjoin]
    | bad => cases hjoin

/-- More in the table changes no text that could be read. -/
theorem interpolate_mono {table table' : Table σ}
    (h : ∀ s path found, table s path = .ok found → table' s path = .ok found) {n : Nat} {s : σ}
    {text read : List Char} (hread : interpolate table n s text = .ok read) :
    interpolate table' n s text = .ok read := by
  induction n generalizing s text read with
  | zero => cases hread
  | succ n ih =>
    refine join_mono ?_ hread
    intro path text hpath
    cases hfound : table s path with
    | error e =>
      rw [hfound] at hpath
      cases hpath
    | ok found =>
      rw [hfound] at hpath
      rw [h s path found hfound]
      dsimp only [Except.bind] at hpath ⊢
      split at hpath
      · next hdollar => rw [if_pos hdollar, ih hpath]
      · next hdollar => rw [if_neg hdollar, hpath]

theorem pieces_plain {text : List Char} (h : '$' ∉ text) : pieces text = text.map .char := by
  unfold pieces
  induction text with
  | nil => rfl
  | cons c cs ih =>
    simp only [List.mem_cons, not_or] at h
    rw [piecesFrom, if_neg (Ne.symm h.1), ih h.2, List.map_cons]

theorem join_chars (resolve : List Char → Except Error (List Char)) (text : List Char) :
    join resolve (text.map .char) = .ok text := by
  induction text with
  | nil => rfl
  | cons c cs ih => simp [join, ih, Except.map]

/-- A text without dollars stands for itself. -/
theorem interpolate_plain (table : Table σ) (n : Nat) (s : σ) {text : List Char} (h : '$' ∉ text) :
    interpolate table (n + 1) s text = .ok text := by
  rw [interpolate, pieces_plain h, join_chars]

/-! ## What a text refers to -/

theorem dollar_of_reference {text path : List Char} (h : .reference path ∈ pieces text) : '$' ∈ text := by
  by_contra hplain
  rw [pieces_plain hplain] at h
  simp at h

theorem join_congr {resolve resolve' : List Char → Except Error (List Char)} {ps : List Piece}
    (h : ∀ path, .reference path ∈ ps → resolve' path = resolve path) : join resolve' ps = join resolve ps := by
  induction ps with
  | nil => rfl
  | cons piece ps ih =>
    have hrest := ih fun path hpath => h path (List.mem_cons_of_mem _ hpath)
    cases piece with
    | char c => simp only [join, hrest]
    | reference path => simp only [join, hrest, h path List.mem_cons_self]
    | bad => rfl

/-- One reference that cannot be resolved is enough. -/
theorem join_error {resolve : List Char → Except Error (List Char)} {ps : List Piece} {path : List Char} {e : Error}
    (hmem : .reference path ∈ ps) (h : resolve path = .error e) : ∃ e', join resolve ps = .error e' := by
  induction ps with
  | nil => cases hmem
  | cons piece ps ih =>
    obtain rfl | hmem := List.mem_cons.1 hmem
    · exact ⟨e, by rw [join, h]; rfl⟩
    · obtain ⟨e', he'⟩ := ih hmem
      cases piece with
      | char c => exact ⟨e', by rw [join, he']; rfl⟩
      | reference path' =>
        rw [join]
        cases resolve path' with
        | error e'' => exact ⟨e'', rfl⟩
        | ok text => exact ⟨e', by rw [he']; rfl⟩
      | bad => exact ⟨.invalid, rfl⟩

/-- A text refers to one of some places, itself or through what it refers to. -/
inductive Reaches (table : Table σ) (target : σ → List Char → Prop) : σ → List Char → Prop
  | here {s : σ} {text path : List Char} (href : .reference path ∈ pieces text) (h : target s path) :
    Reaches table target s text
  | next {s : σ} {text path : List Char} {found : σ × List Char} (href : .reference path ∈ pieces text)
    (hfound : table s path = .ok found) (h : Reaches table target found.1 found.2) : Reaches table target s text

section
variable {table table' : Table σ} {target : σ → List Char → Prop} {s : σ} {text : List Char}

theorem Reaches.dollar (h : Reaches table target s text) : '$' ∈ text := by
  cases h with
  | here href => exact dollar_of_reference href
  | next href => exact dollar_of_reference href

/-- What is read of a text depends only on what it refers to. -/
theorem interpolate_congr (hsame : ∀ s path, ¬target s path → table' s path = table s path)
    (h : ¬Reaches table target s text) (n : Nat) : interpolate table' n s text = interpolate table n s text := by
  induction n generalizing s text with
  | zero => rfl
  | succ n ih =>
    refine join_congr fun path href => ?_
    rw [hsame s path fun ht => h (.here href ht)]
    cases hfound : table s path with
    | error e => rfl
    | ok found =>
      dsimp only [Except.bind]
      rw [ih fun hr => h (.next href hfound hr)]

/-- A text that refers to what is not there cannot be read. -/
theorem interpolate_reaches (hsame : ∀ s path, ¬target s path → table' s path = table s path)
    (hmissing : ∀ s path, target s path → ∃ e, table' s path = .error e) (h : Reaches table target s text) (n : Nat) :
    ∃ e, interpolate table' n s text = .error e := by
  induction h generalizing n with
  | here href ht =>
    cases n with
    | zero => exact ⟨_, rfl⟩
    | succ n =>
      obtain ⟨e, he⟩ := hmissing _ _ ht
      exact join_error href (e := e) (by rw [he]; rfl)
  | @next s text path found href hfound hr ih =>
    cases n with
    | zero => exact ⟨_, rfl⟩
    | succ n =>
      by_cases ht : target s path
      · obtain ⟨e, he⟩ := hmissing _ _ ht
        exact join_error href (e := e) (by rw [he]; rfl)
      · obtain ⟨e, he⟩ := ih n
        refine join_error href (e := e) ?_
        rw [hsame s path ht, hfound]
        exact (if_pos hr.dollar).trans he

end

/-! ## Texts that are read twice -/

/-- Every dollar of the pieces has been written as two. -/
theorem count_piecesFrom (mode : Mode) (cs : List Char) :
    (piecesFrom mode cs).count (.char '$') ≤ cs.count '$' := by
  fun_induction piecesFrom mode cs <;> simp_all [List.count_cons] <;> omega

theorem count_pieces {text : List Char} (h : '$' ∈ text) : (pieces text).count (.char '$') < text.count '$' := by
  unfold pieces
  induction text with
  | nil => cases h
  | cons c cs ih =>
    rw [piecesFrom, List.count_cons]
    split
    · next hc =>
      have := count_piecesFrom .dollar cs
      simp only [hc, beq_self_eq_true, if_true]
      omega
    · next hc =>
      have := ih ((List.mem_cons.1 h).resolve_left (Ne.symm hc))
      simp [hc, this]

theorem count_join {resolve : List Char → Except Error (List Char)} {ps : List Piece} {text : List Char}
    (hplain : ∀ path found, resolve path = .ok found → .reference path ∈ ps → '$' ∉ found)
    (h : join resolve ps = .ok text) : text.count '$' ≤ ps.count (.char '$') := by
  induction ps generalizing text with
  | nil =>
    cases h
    exact Nat.le_refl _
  | cons piece ps ih =>
    replace ih := fun text => @ih text fun path found hfound hmem =>
      hplain path found hfound (List.mem_cons_of_mem _ hmem)
    cases piece with
    | char c =>
      cases hrest : join resolve ps with
      | error e => simp [join, hrest, Except.map] at h
      | ok rest =>
        simp only [join, hrest, Except.map, Except.ok.injEq] at h
        have := ih rest hrest
        subst h
        simp only [List.count_cons, beq_iff_eq, Piece.char.injEq]
        omega
    | reference path =>
      cases hpath : resolve path with
      | error e => simp [join, hpath, Except.bind] at h
      | ok found =>
        cases hrest : join resolve ps with
        | error e => simp [join, hpath, hrest, Except.bind, Except.map] at h
        | ok rest =>
          simp only [join, hpath, hrest, Except.bind, Except.map, Except.ok.injEq] at h
          have := ih rest hrest
          have hfound := List.count_eq_zero.2 (hplain path found hpath List.mem_cons_self)
          subst h
          rw [List.count_append, hfound]
          simpa [List.count_cons] using this
    | bad => cases h

/-- A text with dollars does not stand for itself where references lead to texts without dollars, or to the text. -/
theorem interpolate_ne_self {table : Table σ} {s : σ} {text : List Char}
    (hplain : ∀ path found, table s path = .ok found → '$' ∉ found.2 ∨ found = (s, text)) (hd : '$' ∈ text) (n : Nat) :
    interpolate table n s text ≠ .ok text := by
  by_cases hself : ∃ path, .reference path ∈ pieces text ∧ table s path = .ok (s, text)
  · -- It refers to itself, again and again.
    obtain ⟨path, href, hfound⟩ := hself
    have herror : ∀ n, ∃ e, interpolate table n s text = .error e := by
      intro n
      induction n with
      | zero => exact ⟨_, rfl⟩
      | succ n ih =>
        obtain ⟨e, he⟩ := ih
        refine join_error href (e := e) ?_
        rw [hfound]
        exact (if_pos hd).trans he
    obtain ⟨e, he⟩ := herror n
    rw [he]
    exact nofun
  · intro h
    cases n with
    | zero => cases h
    | succ n =>
      have hcount := count_join (fun path found hfound href => ?_) h
      · have := count_pieces hd
        omega
      · cases htable : table s path with
        | error e =>
          rw [htable] at hfound
          cases hfound
        | ok read =>
          have hread := (hplain path read htable).resolve_right fun he => hself ⟨path, href, he ▸ htable⟩
          rw [htable] at hfound
          dsimp only [Except.bind] at hfound
          rw [if_neg hread] at hfound
          cases hfound
          exact hread

/-! ## What may be set -/

/-- `\$\{([^}]+)\}` -/
def reference : Regex :=
  .all [.char (· == '$'), .char (· == '{'), .atLeastOne (· != '}'), .char (· == '}')]

/-- No dollar is left without the `$$` and then the references. -/
def accepts (text : List Char) : Bool := '$' ∉ reference.remove (Replace.replace ['$', '$'] [] text)

theorem replace_plain {text : List Char} (h : '$' ∉ text) : Replace.replace ['$', '$'] [] text = text := by
  unfold Replace.replace
  induction text with
  | nil => rfl
  | cons c cs ih =>
    simp only [List.mem_cons, not_or] at h
    have hno : ['$', '$'].isPrefixOf (c :: cs) = false := by simp [List.isPrefixOf, h.1]
    rw [Replace.replaceFrom, hno, ih h.2]
    rfl

theorem searchFrom_plain (before : List Char) {text : List Char} (h : '$' ∉ text) :
    reference.searchFrom before text = none := by
  induction text generalizing before with
  | nil => rfl
  | cons c cs ih =>
    simp only [List.mem_cons, not_or] at h
    have hfirst : reference.first ⟨before, c :: cs⟩ = none := by
      simp [Regex.first, reference, Regex.all, Regex.run, Ne.symm h.1]
    rw [Regex.searchFrom, hfirst]
    exact ih (c :: before) h.2

theorem accepts_plain {text : List Char} (h : '$' ∉ text) : accepts text = true := by
  have hremove : reference.remove text = text := by
    unfold Regex.remove Regex.scan
    rw [searchFrom_plain [] h]
    rfl
  unfold accepts
  rw [replace_plain h, hremove]
  exact decide_eq_true h

end Lib.Interpolation

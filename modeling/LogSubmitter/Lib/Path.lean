import Mathlib.Data.List.Basic
/-!
# Paths

POSIX paths as texts, with `os.path`'s `join`, `normpath` and `abspath`, and
directories as the lists of their names. A text is resolved against a directory
by going through its parts, and `abspath` writes out what comes of that.
-/
namespace Lib.Path

abbrev Text := List Char

/-- `path.split('/')`. -/
def parts (path : Text) : List Text := path.splitOn '/'

def up : Text := ['.', '.']

/-- Parts that lead nowhere. -/
def Blank (part : Text) : Prop := part = [] ∨ part = ['.']

instance (part : Text) : Decidable (Blank part) := inferInstanceAs (Decidable (_ ∨ _))

/-! ## `os.path` -/

/-- One round of the loop in `normpath`. -/
def addPart (rooted : Bool) (new : List Text) (part : Text) : List Text :=
  if Blank part then new
  else if part ≠ up ∨ (rooted = false ∧ new = []) ∨ new.getLast? = some up then new ++ [part]
  else new.dropLast

/-- `initial_slashes`: two are kept, more are one. -/
def slashes : Text → Nat
  | '/' :: '/' :: '/' :: _ => 1
  | '/' :: '/' :: _ => 2
  | '/' :: _ => 1
  | _ => 0

def normpath (path : Text) : Text :=
  let text := List.replicate (slashes path) '/' ++
    ['/'].intercalate ((parts path).foldl (addPart (slashes path ≠ 0)) [])
  if text = [] then ['.'] else text

def isAbsolute (path : Text) : Bool := path.head? = some '/'

def join (a b : Text) : Text :=
  if isAbsolute b then b else if a = [] ∨ a.getLast? = some '/' then a ++ b else a ++ '/' :: b

def abspath (cwd path : Text) : Text := normpath (if isAbsolute path then path else join cwd path)

/-- What comes after the last slash. -/
def basename (path : Text) : Text := (parts path).getLast?.getD []

/-! ## Directories -/

/-- A name in a directory. -/
structure IsName (name : Text) : Prop where
  not_blank : ¬ Blank name
  not_up : name ≠ up
  no_slash : '/' ∉ name

instance (name : Text) : Decidable (IsName name) :=
  decidable_of_iff (¬ Blank name ∧ name ≠ up ∧ '/' ∉ name)
    ⟨fun h => ⟨h.1, h.2.1, h.2.2⟩, fun h => ⟨h.not_blank, h.not_up, h.no_slash⟩⟩

/-- A directory, by the names on the way to it from the root. -/
structure Dir where
  names : List Text
  valid : ∀ name ∈ names, IsName name

/-- The path with these names. -/
def render (names : List Text) : Text := '/' :: ['/'].intercalate names

def Dir.text (d : Dir) : Text := render d.names

/-- Going from a directory to where a part of a path leads. -/
def step (names : List Text) (part : Text) : List Text :=
  if Blank part then names else if part = up then names.dropLast else names ++ [part]

def walk (names : List Text) (path : Text) : List Text := (parts path).foldl step names

/-- What the path names, seen from the directory. -/
def resolve (d : Dir) (path : Text) : List Text := walk (if isAbsolute path then [] else d.names) path

/-! ## `abspath` resolves -/

theorem addPart_rooted {new : List Text} (h : up ∉ new) (part : Text) :
    addPart true new part = step new part ∧ up ∉ step new part := by
  have hlast : new.getLast? ≠ some up := fun he => h (List.mem_of_getLast? he)
  unfold addPart step
  split
  · exact ⟨rfl, h⟩
  · by_cases hp : part = up
    · subst hp
      simp only [ne_eq, not_true_eq_false, Bool.true_eq_false, false_and, hlast, or_self, if_false, if_true, true_and]
      exact fun hm => h (List.dropLast_subset _ hm)
    · simp only [ne_eq, hp, not_false_eq_true, true_or, if_true, if_false, true_and]
      simp [h, Ne.symm hp]

theorem foldl_addPart {new : List Text} (h : up ∉ new) (ps : List Text) :
    ps.foldl (addPart true) new = ps.foldl step new := by
  induction ps generalizing new with
  | nil => rfl
  | cons p ps ih =>
    obtain ⟨he, hup⟩ := addPart_rooted h p
    rw [List.foldl_cons, List.foldl_cons, he, ih hup]

theorem slashes_pos {path : Text} (h : isAbsolute path = true) : slashes path ≠ 0 := by
  unfold slashes
  split
  · decide
  · decide
  · decide
  · rename_i h1
    cases path with
    | nil => cases h
    | cons c path =>
      simp only [isAbsolute, List.head?_cons, Option.some.injEq, decide_eq_true_eq] at h
      exact absurd (by rw [h]) (h1 path)

theorem normpath_absolute {path : Text} (h : isAbsolute path = true) :
    normpath path = List.replicate (slashes path) '/' ++ ['/'].intercalate (walk [] path) := by
  have hs := slashes_pos h
  have hne : List.replicate (slashes path) '/' ++ ['/'].intercalate (walk [] path) ≠ [] := by
    intro hnil
    have := congrArg List.length hnil
    simp only [List.length_append, List.length_replicate, List.length_nil] at this
    omega
  simp only [normpath, ne_eq, hs, not_false_eq_true, decide_true, foldl_addPart (List.not_mem_nil)]
  exact if_neg hne

theorem foldl_step_names {names : List Text} (h : ∀ name ∈ names, IsName name) (start : List Text) :
    names.foldl step start = start ++ names := by
  induction names generalizing start with
  | nil => simp
  | cons n names ih =>
    have hn := h n List.mem_cons_self
    rw [List.foldl_cons, step, if_neg hn.not_blank, if_neg hn.not_up,
      ih fun m hm => h m (List.mem_cons_of_mem _ hm), List.append_assoc, List.singleton_append]

theorem parts_cons_slash (path : Text) : parts ('/' :: path) = [] :: parts path := by
  simp [parts, List.splitOn_cons_eq_if_modifyHead]

theorem parts_append_slash (a b : Text) : parts (a ++ '/' :: b) = parts a ++ parts b :=
  List.splitOn_append_cons_self a b

theorem parts_intercalate {names : List Text} (h : ∀ name ∈ names, '/' ∉ name) (hne : names ≠ []) :
    parts (['/'].intercalate names) = names :=
  List.splitOn_intercalate '/' h hne

theorem walk_cons_slash (names : List Text) (path : Text) : walk names ('/' :: path) = walk names path := by
  rw [walk, parts_cons_slash]
  rfl

theorem slashes_one {path : Text} (h : isAbsolute path = false) : slashes ('/' :: path) = 1 := by
  cases path with
  | nil => rfl
  | cons c path =>
    have hc : c ≠ '/' := by rintro rfl; cases h
    unfold slashes
    split <;> simp_all

theorem isAbsolute_intercalate {names : List Text} (h : ∀ name ∈ names, IsName name) :
    isAbsolute (['/'].intercalate names) = false := by
  cases names with
  | nil => rfl
  | cons n names =>
    have hn := h n List.mem_cons_self
    obtain ⟨c, cs, rfl⟩ := List.exists_cons_of_ne_nil fun hnil => hn.not_blank (.inl hnil)
    have hc : c ≠ '/' := by rintro rfl; exact hn.no_slash List.mem_cons_self
    cases names <;> simp [isAbsolute, List.intercalate, List.intersperse, hc]

/-- The text of a directory below the root does not end in a slash. -/
theorem getLast_intercalate {names : List Text} (h : ∀ name ∈ names, IsName name) (hne : names ≠ []) :
    (render names).getLast? ≠ some '/' := by
  intro hlast
  have hparts : parts (render names) = [] :: names := by
    rw [render, parts_cons_slash, parts_intercalate (fun n hn => (h n hn).no_slash) hne]
  obtain ⟨t, ht⟩ : ∃ t, render names = t ++ ['/'] := ⟨_, (List.dropLast_append_getLast? '/' hlast).symm⟩
  rw [ht, parts_append_slash] at hparts
  have hl := congrArg List.getLast? hparts
  obtain ⟨m, hm⟩ : ∃ m, names.getLast? = some m := ⟨_, List.getLast?_eq_some_getLast hne⟩
  have hcons : ([] :: names).getLast? = some m := by rw [List.getLast?_cons_of_ne_nil hne, hm]
  rw [hcons] at hl
  have hnil : parts [] = [[]] := rfl
  rw [hnil, List.getLast?_append_of_ne_nil _ (List.cons_ne_nil _ _), List.getLast?_singleton, Option.some.injEq] at hl
  exact (h m (List.mem_of_getLast? hm)).not_blank (.inl hl.symm)

/-- Joined to a directory, a relative path is walked from there. -/
theorem walk_join (d : Dir) {path : Text} (h : isAbsolute path = false) :
    walk [] (join d.text path) = walk d.names path ∧ slashes (join d.text path) = 1 ∧
      isAbsolute (join d.text path) = true := by
  have hwalk : ∀ ps : List Text, (d.names ++ ps).foldl step [] = ps.foldl step d.names := fun ps => by
    rw [List.foldl_append, foldl_step_names d.valid, List.nil_append]
  by_cases hne : d.names = []
  -- The root: its text is a slash already.
  · have hjoin : join d.text path = '/' :: path := by simp [join, h, Dir.text, hne, render]
    rw [hjoin, walk_cons_slash, hne]
    exact ⟨rfl, slashes_one h, rfl⟩
  · have hjoin : join d.text path = '/' :: (['/'].intercalate d.names ++ '/' :: path) := by
      rw [join, if_neg (by rw [h]; decide), if_neg]
      · rfl
      · rintro (hnil | hlast)
        · cases hnil
        · exact getLast_intercalate d.valid hne hlast
    rw [hjoin, walk_cons_slash, walk, parts_append_slash,
      parts_intercalate (fun n hn => (d.valid n hn).no_slash) hne, hwalk]
    refine ⟨rfl, slashes_one ?_, rfl⟩
    have habs := isAbsolute_intercalate d.valid
    cases hi : ['/'].intercalate d.names with
    | nil =>
      obtain ⟨n, ns, hn⟩ := List.exists_cons_of_ne_nil hne
      have := parts_intercalate (fun n hn => (d.valid n hn).no_slash) hne
      rw [hi, hn] at this
      exact absurd (.inl (List.cons.inj this).1.symm) (d.valid n (by rw [hn]; exact List.mem_cons_self)).not_blank
    | cons c cs => rw [hi] at habs; exact habs

/-- `abspath` gives the path resolved against the working directory, but keeps two initial slashes. -/
theorem abspath_eq (d : Dir) (path : Text) : abspath d.text path =
    if isAbsolute path then List.replicate (slashes path) '/' ++ ['/'].intercalate (resolve d path)
    else render (resolve d path) := by
  unfold abspath resolve
  cases h : isAbsolute path with
  | true => exact normpath_absolute h
  | false =>
    obtain ⟨hw, hs, ha⟩ := walk_join d h
    simp only [Bool.false_eq_true, if_false]
    rw [normpath_absolute ha, hw, hs]
    rfl

/-! ## Valid names -/

theorem no_slash_of_mem_parts {path part : Text} (h : part ∈ parts path) : '/' ∉ part := by
  induction path generalizing part with
  | nil =>
    rw [parts, List.splitOn_nil, List.mem_singleton] at h
    rw [h]
    exact List.not_mem_nil
  | cons c path ih =>
    obtain ⟨p, ps, hp⟩ := List.exists_cons_of_ne_nil (List.splitOn_ne_nil '/' path)
    by_cases hc : c = '/'
    · subst hc
      rw [parts_cons_slash, List.mem_cons] at h
      rcases h with rfl | h
      · exact List.not_mem_nil
      · exact ih h
    · rw [parts, List.splitOn_cons_eq_if_modifyHead, if_neg (by simpa using hc), hp, List.modifyHead_cons,
        List.mem_cons] at h
      rw [parts, hp] at ih
      rcases h with rfl | h
      · rw [List.mem_cons, not_or]
        exact ⟨Ne.symm hc, ih List.mem_cons_self⟩
      · exact ih (List.mem_cons_of_mem _ h)

theorem step_valid {names : List Text} (h : ∀ name ∈ names, IsName name) {part : Text} (hp : '/' ∉ part) :
    ∀ name ∈ step names part, IsName name := by
  intro name hn
  unfold step at hn
  split at hn
  · exact h name hn
  · rename_i hb
    split at hn
    · exact h name (List.dropLast_subset _ hn)
    · rename_i hu
      rcases List.mem_append.1 hn with hn | hn
      · exact h name hn
      · rw [List.mem_singleton] at hn
        exact hn ▸ ⟨hb, hu, hp⟩

theorem resolve_valid (d : Dir) (path : Text) : ∀ name ∈ resolve d path, IsName name := by
  have run : ∀ (ps : List Text) (names : List Text), (∀ part ∈ ps, '/' ∉ part) → (∀ name ∈ names, IsName name) →
      ∀ name ∈ ps.foldl step names, IsName name := by
    intro ps
    induction ps with
    | nil => exact fun _ _ h => h
    | cons p ps ih =>
      intro names hps h
      exact ih _ (fun q hq => hps q (List.mem_cons_of_mem _ hq)) (step_valid h (hps p List.mem_cons_self))
  refine run (parts path) _ (fun _ => no_slash_of_mem_parts) ?_
  split
  · intro name hn
    cases hn
  · exact d.valid

theorem render_inj {l l' : List Text} (h : ∀ name ∈ l, IsName name) (h' : ∀ name ∈ l', IsName name) :
    render l = render l' ↔ l = l' := by
  refine ⟨fun he => ?_, fun he => by rw [he]⟩
  have hi : ['/'].intercalate l = ['/'].intercalate l' := (List.cons.inj he).2
  have names : ∀ {l : List Text}, (∀ name ∈ l, IsName name) → l ≠ [] → ['/'].intercalate l ≠ [] ∧
      parts (['/'].intercalate l) = l := by
    intro l h hne
    have hp := parts_intercalate (fun n hn => (h n hn).no_slash) hne
    refine ⟨fun hnil => ?_, hp⟩
    rw [hnil] at hp
    have hm : [] ∈ l := by rw [← hp]; exact List.mem_cons_self
    exact (h [] hm).not_blank (.inl rfl)
  by_cases hl : l = []
  · by_cases hl' : l' = []
    · rw [hl, hl']
    · rw [hl] at hi
      exact absurd hi.symm (names h' hl').1
  · by_cases hl' : l' = []
    · rw [hl'] at hi
      exact absurd hi (names h hl).1
    · rw [← (names h hl).2, hi, (names h' hl').2]

/-! ## Where a relative path leads -/

/-- How many names of the directory a path has removed so far, and those it has added. -/
def climbStep (c : Nat × List Text) (part : Text) : Nat × List Text :=
  if Blank part then c
  else if part = up then if c.2 = [] then (c.1 + 1, []) else (c.1, c.2.dropLast)
  else (c.1, c.2 ++ [part])

def climb (path : Text) : Nat × List Text := (parts path).foldl climbStep (0, [])

/-- The directory so many levels up. -/
def above (names : List Text) (levels : Nat) : List Text := names.take (names.length - levels)

theorem step_above (names : List Text) (c : Nat × List Text) (part : Text) :
    step (above names c.1 ++ c.2) part = above names (climbStep c part).1 ++ (climbStep c part).2 := by
  obtain ⟨k, cs⟩ := c
  unfold step climbStep
  split
  · rfl
  · split
    · by_cases hcs : cs = []
      · subst hcs
        rw [if_pos rfl, List.append_nil, List.append_nil, above, above, List.dropLast_eq_take, List.take_take,
          List.length_take]
        congr 1
        omega
      · rw [if_neg hcs, List.dropLast_append_of_ne_nil hcs]
    · rw [List.append_assoc]

theorem walk_eq (names : List Text) (path : Text) :
    walk names path = above names (climb path).1 ++ (climb path).2 := by
  have run : ∀ (ps : List Text) (c : Nat × List Text), ps.foldl step (above names c.1 ++ c.2) =
      above names (ps.foldl climbStep c).1 ++ (ps.foldl climbStep c).2 := by
    intro ps
    induction ps with
    | nil => exact fun _ => rfl
    | cons p ps ih => intro c; rw [List.foldl_cons, List.foldl_cons, step_above, ih]
  have h := run (parts path) (0, [])
  rw [above, Nat.sub_zero, List.take_length, List.append_nil] at h
  exact h

/-- A path leads to the same place from two directories that agree above what it removes. -/
theorem walk_eq_walk_iff {names names' : List Text} {path : Text} :
    walk names path = walk names' path ↔ above names (climb path).1 = above names' (climb path).1 := by
  rw [walk_eq, walk_eq, List.append_cancel_right_eq]

/-! ## Paths as texts -/

/-- The second path goes on in the middle of the last name of the first. -/
def GoesOn (names names' : List Text) : Prop :=
  ∃ init x y rest, names = init ++ [x] ∧ names' = init ++ y :: rest ∧ x <+: y ∧ x ≠ y

theorem prefix_append_slash {x y t : Text} (hx : '/' ∉ x) : x <+: y ++ '/' :: t ↔ x <+: y := by
  constructor
  · intro h
    have hy : y ++ ['/'] <+: y ++ '/' :: t := (List.prefix_append_right_inj y).2 ⟨t, rfl⟩
    have hslash : ¬ y ++ ['/'] <+: x := fun hp => hx (hp.subset (by simp))
    rcases List.prefix_concat_iff.1 ((List.prefix_or_prefix_of_prefix h hy).resolve_right hslash) with rfl | hp
    · exact absurd (by simp) hx
    · exact hp
  · exact fun h => h.trans (List.prefix_append _ _)

theorem append_slash_prefix {x y s t : Text} (hx : '/' ∉ x) (hy : '/' ∉ y) :
    x ++ '/' :: s <+: y ++ '/' :: t ↔ x = y ∧ s <+: t := by
  constructor
  · intro h
    have hxy := (prefix_append_slash hx).1 ((List.prefix_append x _).trans h)
    obtain ⟨z, rfl⟩ := hxy
    cases z with
    | nil =>
      rw [List.append_nil, List.prefix_append_right_inj, List.prefix_cons_inj] at h
      exact ⟨(List.append_nil x).symm, h⟩
    | cons c z =>
      rw [List.append_assoc, List.prefix_append_right_inj, List.cons_append, List.cons_prefix_cons] at h
      exact absurd (by rw [← h.1]; simp) hy
  · rintro ⟨rfl, h⟩
    exact (List.prefix_append_right_inj x).2 ((List.prefix_cons_inj _).2 h)

theorem intercalate_cons_cons (x y : Text) (l : List Text) :
    ['/'].intercalate (x :: y :: l) = x ++ '/' :: ['/'].intercalate (y :: l) := by
  rw [List.intercalate_cons_cons, List.append_assoc, List.singleton_append]

theorem goesOn_cons {x y : Text} {l l' : List Text} (hl : l ≠ []) :
    GoesOn (x :: l) (y :: l') ↔ x = y ∧ GoesOn l l' := by
  constructor
  · rintro ⟨init, u, v, rest, h, h', hp, hne⟩
    cases init with
    | nil => exact absurd (List.cons.inj h).2 hl
    | cons i init =>
      obtain ⟨hx, ht⟩ := List.cons.inj h
      obtain ⟨hy, ht'⟩ := List.cons.inj h'
      exact ⟨hx.trans hy.symm, init, u, v, rest, ht, ht', hp, hne⟩
  · rintro ⟨rfl, init, u, v, rest, rfl, rfl, hp, hne⟩
    exact ⟨x :: init, u, v, rest, rfl, rfl, hp, hne⟩

/-- A text of one name is the start of another if the name is that of the first name there. -/
theorem singleton_prefix_intercalate {x y : Text} (hx : '/' ∉ x) (l : List Text) :
    ['/'].intercalate [x] <+: ['/'].intercalate (y :: l) ↔ x <+: y := by
  cases l with
  | nil => simp
  | cons z l => rw [intercalate_cons_cons, List.intercalate_singleton, prefix_append_slash hx]

theorem goesOn_singleton {x y : Text} {l : List Text} : x <+: y ↔ [x] <+: y :: l ∨ GoesOn [x] (y :: l) := by
  rw [List.cons_prefix_cons]
  constructor
  · intro h
    by_cases he : x = y
    · exact .inl ⟨he, List.nil_prefix⟩
    · exact .inr ⟨[], x, y, l, rfl, rfl, h, he⟩
  · rintro (⟨rfl, -⟩ | ⟨init, u, v, rest, h, h', hp, -⟩)
    · exact List.prefix_refl x
    · cases init with
      | nil =>
        rw [(List.cons.inj h).1, (List.cons.inj h').1]
        exact hp
      | cons i init => simp at h

/-- One text is the start of another if the names are, or if the second text goes on in the middle of a name. -/
theorem intercalate_prefix_iff {l l' : List Text} (hl : ∀ name ∈ l, '/' ∉ name) (hl' : ∀ name ∈ l', '/' ∉ name)
    (hne : l ≠ []) (hne' : l' ≠ []) :
    ['/'].intercalate l <+: ['/'].intercalate l' ↔ l <+: l' ∨ GoesOn l l' := by
  induction l generalizing l' with
  | nil => exact absurd rfl hne
  | cons x l ih =>
    obtain ⟨y, l', rfl⟩ := List.exists_cons_of_ne_nil hne'
    have hx := hl x List.mem_cons_self
    have hy := hl' y List.mem_cons_self
    by_cases hnil : l = []
    · subst hnil
      exact (singleton_prefix_intercalate hx l').trans goesOn_singleton
    · obtain ⟨u, l, rfl⟩ := List.exists_cons_of_ne_nil hnil
      rw [goesOn_cons hnil, List.cons_prefix_cons, ← and_or_left, intercalate_cons_cons]
      cases l' with
      | nil =>
        refine iff_of_false (fun h => ?_) ?_
        · rw [List.intercalate_singleton] at h
          exact hy (h.subset (by simp))
        · rintro ⟨-, h | ⟨init, a, b, rest, -, h, -⟩⟩
          · exact absurd (List.prefix_nil.1 h) hnil
          · simp at h
      | cons z l' =>
        rw [intercalate_cons_cons, append_slash_prefix hx hy,
          ih (fun n hn => hl n (List.mem_cons_of_mem _ hn)) (fun n hn => hl' n (List.mem_cons_of_mem _ hn)) hnil
            (List.cons_ne_nil _ _)]

/-- The two cases exclude each other. -/
theorem not_goesOn_of_prefix {l l' : List Text} (h : l <+: l') : ¬ GoesOn l l' := by
  rintro ⟨init, x, y, rest, rfl, rfl, -, hne⟩
  rw [List.prefix_append_right_inj, List.cons_prefix_cons] at h
  exact hne h.1

end Lib.Path

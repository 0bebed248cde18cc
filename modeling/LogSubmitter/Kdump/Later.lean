import LogSubmitter.Kdump.Blocks
/-!
# A later block

The panic after an oops has a block of its own. Its frames go after those of the oops,
where the two are of one segment, and a frame of `panic` drops those before it.
-/
namespace LogSubmitter.Kdump

open Lib

/-! ## The frames of segments -/

/-- The frames of traces. -/
def framesIn (traces : List Trace) : List Frame := traces.flatMap Trace.frames

/-- One of the segments keeps the frame. -/
def Keeps (segments : List (List Line)) (f : Frame) : Prop := ∃ segment ∈ segments, f ∈ framesOf segment

theorem keeps_append (a b : List (List Line)) (f : Frame) : Keeps (a ++ b) f ↔ Keeps a f ∨ Keeps b f := by
  simp [Keeps, or_and_right, exists_or]

theorem keeps_cut (lines : List Line) (f : Frame) :
    Keeps (Segments.cut isRip lines) f ↔
      Keeps (Segments.closed isRip lines) f ∨ f ∈ framesOf (Segments.current isRip lines) := by
  by_cases h : lines = []
  · simp [h, Keeps, framesOf]
  · rw [Segments.cut_eq h, keeps_append]
    simp [Keeps]

theorem mem_framesIn (alphabet : Alphabet) (lines : List Line) (f : Frame) :
    f ∈ framesIn (parseTraces alphabet lines) ↔ Keeps (Segments.cut isRip (lines.map strip)) f := by
  have htrace : ∀ segment, f ∈ framesOf segment ↔ ∃ t, traceOf alphabet segment = some t ∧ f ∈ t.frames := by
    intro segment
    unfold traceOf
    by_cases h : framesOf segment = [] <;> simp [h]
  rw [parseTraces_loop, ← filterMap_cut]
  unfold framesIn Keeps
  simp only [List.mem_flatMap, List.mem_filterMap, htrace]
  constructor
  · rintro ⟨t, ⟨segment, hs, ht⟩, hf⟩
    exact ⟨segment, hs, t, ht, hf⟩
  · rintro ⟨segment, hs, t, ht, hf⟩
    exact ⟨t, ⟨segment, hs, ht⟩, hf⟩

/-- Without a frame that is ignored, those that were kept are kept. -/
theorem mem_kept_append {frames more : List Frame} (h : ∀ g ∈ more, ignored g = false) {f : Frame}
    (hf : f ∈ kept frames) : f ∈ kept (frames ++ more) := by
  induction more using List.reverseRecOn with
  | nil => simpa using hf
  | append_singleton more g ih =>
    have hmore := ih fun g hg => h g (List.mem_append_left _ hg)
    have hg : ignored g = false := h g (by simp)
    have hne : kept (frames ++ more) ≠ [] := List.ne_nil_of_mem hmore
    rw [← List.append_assoc, kept_frame hg fun hn => hne hn.1]
    exact List.mem_append_left _ hmore

/-- After one, nothing of what was before matters. -/
theorem kept_append_of_ignored (frames : List Frame) {more : List Frame} (h : ∃ g ∈ more, ignored g = true) :
    kept (frames ++ more) = kept more := by
  have hdrop : ((frames ++ more).rtakeWhile fun g => !ignored g) = more.rtakeWhile fun g => !ignored g := by
    induction more using List.reverseRecOn with
    | nil => simp at h
    | append_singleton more g ih =>
      rw [← List.append_assoc, List.rtakeWhile_concat, List.rtakeWhile_concat]
      by_cases hg : ignored g = true
      · simp [hg]
      · have hmore : ∃ g ∈ more, ignored g = true := by
          obtain ⟨g', hg', hi⟩ := h
          rcases List.mem_append.1 hg' with hg' | hg'
          · exact ⟨g', hg', hi⟩
          · exact absurd (List.mem_singleton.1 hg' ▸ hi) hg
        rw [ih hmore]
  unfold kept
  rw [hdrop]

theorem mem_framesOf_append {segment more : List Line}
    (h : ∀ line ∈ more, ∀ f ∈ unmarked line, ignored f = false) {f : Frame} (hf : f ∈ framesOf segment) :
    f ∈ framesOf (segment ++ more) := by
  have hignored : ∀ g ∈ more.filterMap unmarked, ignored g = false := by
    intro g hg
    obtain ⟨line, hline, hu⟩ := List.mem_filterMap.1 hg
    exact h line hline g hu
  unfold framesOf
  rw [List.filterMap_append]
  exact mem_kept_append hignored hf

theorem framesOf_append_of_ignored (segment : List Line) {more : List Line}
    (h : ¬∀ line ∈ more, ∀ f ∈ unmarked line, ignored f = false) : framesOf (segment ++ more) = framesOf more := by
  have hignored : ∃ g ∈ more.filterMap unmarked, ignored g = true := by
    by_contra hn
    apply h
    intro line hline f hf
    by_contra hi
    exact hn ⟨f, List.mem_filterMap.2 ⟨line, hline, hf⟩, by simpa using hi⟩
  unfold framesOf
  rw [List.filterMap_append]
  exact kept_append_of_ignored _ hignored

/-! ## More lines -/

/-- The lines before the first segment of their own. -/
def leading (lines : List Line) : List Line := (lines.map strip).takeWhile fun line => !isRip line

/-- More lines spare what the lines so far have: they drop no frames before a segment of their own begins, or all
that are dropped are also elsewhere. -/
def Spares (lines more : List Line) : Prop :=
  (∀ line ∈ leading more, ∀ f ∈ unmarked line, ignored f = false) ∨
    ∀ f ∈ framesOf (Segments.current isRip (lines.map strip)),
      Keeps (Segments.closed isRip (lines.map strip)) f ∨ Keeps (segments more) f

theorem keeps_leading (lines : List Line) {start rest : List Line} (hstart : ∀ line ∈ start, isRip line = false)
    (hrest : ∀ line ∈ rest.head?, isRip line = true) (f : Frame) :
    Keeps (Segments.cut isRip (lines ++ (start ++ rest))) f ↔
      Keeps (Segments.closed isRip lines) f ∨ f ∈ framesOf (Segments.current isRip lines ++ start) ∨
        Keeps (Segments.cut isRip rest) f := by
  have hcut : Segments.cut isRip (lines ++ start ++ rest) =
      Segments.cut isRip (lines ++ start) ++ Segments.cut isRip rest := by
    cases rest with
    | nil => simp
    | cons line rest => exact Segments.cut_append_start _ (hrest line rfl) rest
  obtain ⟨hclosed, hcurrent⟩ := Segments.append_others lines hstart
  rw [← List.append_assoc, hcut, keeps_append, keeps_cut, hclosed, hcurrent, or_assoc]

theorem spares_iff (lines more : List Line) :
    (∀ f, Keeps (Segments.cut isRip (lines.map strip)) f → Keeps (Segments.cut isRip ((lines ++ more).map strip)) f) ↔
      Spares lines more := by
  have hsplit : more.map strip = leading more ++ (more.map strip).dropWhile fun line => !isRip line := by
    simp [leading]
  have hstart : ∀ line ∈ leading more, isRip line = false := by
    intro line hline
    simpa using List.mem_takeWhile_imp hline
  have hrest : ∀ line ∈ ((more.map strip).dropWhile fun line => !isRip line).head?, isRip line = true := by
    intro line hline
    have hnot := List.head?_dropWhile_not (fun line => !isRip line) (more.map strip)
    rw [Option.mem_def.1 hline] at hnot
    simpa using hnot
  generalize (more.map strip).dropWhile (fun line => !isRip line) = rest at hsplit hrest
  have hlong : ∀ f, Keeps (Segments.cut isRip ((lines ++ more).map strip)) f ↔
      Keeps (Segments.closed isRip (lines.map strip)) f ∨
        f ∈ framesOf (Segments.current isRip (lines.map strip) ++ leading more) ∨
          Keeps (Segments.cut isRip rest) f := by
    intro f
    rw [List.map_append, hsplit]
    exact keeps_leading (lines.map strip) hstart hrest f
  have hmore : ∀ f, Keeps (segments more) f ↔ f ∈ framesOf (leading more) ∨ Keeps (Segments.cut isRip rest) f := by
    intro f
    have halone := keeps_leading [] hstart hrest f
    rw [List.nil_append, ← hsplit] at halone
    simpa [Keeps, segments] using halone
  unfold Spares
  by_cases hreset : ∀ line ∈ leading more, ∀ f ∈ unmarked line, ignored f = false
  · refine ⟨fun _ => .inl hreset, ?_⟩
    intro _ f hf
    rw [hlong]
    rcases (keeps_cut _ f).1 hf with hf | hf
    · exact .inl hf
    · exact .inr (.inl (mem_framesOf_append hreset hf))
  · -- What the current segment has is dropped.
    have hdropped := framesOf_append_of_ignored (Segments.current isRip (lines.map strip)) hreset
    constructor
    · intro h
      refine .inr ?_
      intro f hf
      have hkept := (hlong f).1 (h f ((keeps_cut _ f).2 (.inr hf)))
      rwa [hdropped, ← hmore] at hkept
    · intro h f hf
      rw [hlong, hdropped, ← hmore]
      rcases (keeps_cut _ f).1 hf with hf | hf
      · exact .inl hf
      · exact h.resolve_left hreset f hf

/-! ## A block at the end of the window -/

/-- A crash has begun in these lines, and has not ended. -/
structure Crashing (before : List Line) : Prop where
  begun : window before ≠ []
  goesOn : ∀ line ∈ window before, ends line = false

/-- A block that is complete. -/
structure TaskBlock (first : Line) (lines : List Line) (last : Line) : Prop where
  opening : Str.contains " <TASK>" first = true
  /-- The first line is no marker that closes a block. -/
  notClosing : ∀ type ∈ traceTypes, closes type first = false
  between : ∀ line ∈ lines, closes "TASK" line = false
  closing : closes "TASK" last = true
  inWindow : ∀ line ∈ first :: lines ++ [last], ends line = false

theorem not_ends_of_upToEnd {lines : List Line} (h : ∀ line ∈ upToEnd lines, ends line = false) :
    ∀ line ∈ lines, ends line = false := by
  induction lines with
  | nil => simp
  | cons line lines ih =>
    have hline : ends line = false := by
      by_contra he
      have hend : ends line = true := by simpa using he
      exact he (h line (by simp [upToEnd, hend]))
    have hlines : ∀ l ∈ upToEnd lines, ends l = false := by
      intro l hl
      exact h l (by simp [upToEnd, hline, hl])
    simpa [hline] using ih hlines

theorem Crashing.window_append {before : List Line} (h : Crashing before) (rest : List Line) :
    window (before ++ rest) = window before ++ upToEnd rest := by
  have hlines := not_ends_of_upToEnd h.goesOn
  have hbegun : (before.dropWhile fun line => !triggers line) ≠ [] := by
    intro hn
    apply h.begun
    simp [window, hn, upToEnd]
  have hwindow : window before = before.dropWhile fun line => !triggers line := by
    have happend := upToEnd_append hlines []
    rwa [List.append_nil, upToEnd, List.append_nil] at happend
  rw [hwindow]
  unfold window
  rw [List.dropWhile_append, if_neg (by simpa using hbegun), upToEnd_append hlines]

theorem openAfter_mem (lines : List Line) {grab : Option String} (h : ∀ type ∈ grab, type ∈ traceTypes) :
    ∀ type ∈ lines.foldl openAfter grab, type ∈ traceTypes := by
  induction lines generalizing grab with
  | nil => exact h
  | cons line lines ih =>
    apply ih
    intro type htype
    cases grab with
    | none => exact List.mem_of_mem_filter (List.mem_of_getLast? htype)
    | some opened =>
      by_cases hc : closes opened line = true
      · simp [openAfter, hc] at htype
      · simp only [openAfter, hc, Bool.false_eq_true, if_false] at htype
        exact h type htype

theorem dropLast_prefix_append (a b : List Line) : a.dropLast <+: (a ++ b).dropLast := by
  by_cases hb : b = []
  · simp [hb]
  · rw [List.dropLast_append_of_ne_nil hb]
    exact (List.dropLast_prefix a).trans (List.prefix_append a _)

/-- A block adds lines to what is parsed, and takes none from it. -/
theorem parsed_prefix {before after lines : List Line} {first last : Line} (hbefore : Crashing before)
    (hblock : TaskBlock first lines last) (hafter : ∀ line ∈ after.head?, ends line = true) :
    parsed (before ++ after) <+: parsed (before ++ (first :: lines ++ [last]) ++ after) := by
  have hend := upToEnd_of_ends hafter
  unfold parsed
  rw [List.append_assoc, hbefore.window_append, hbefore.window_append, upToEnd_append hblock.inWindow, hend,
    inside_append, inside_append]
  have hopen : ∀ type ∈ (window before).foldl openAfter none, type ∈ traceTypes := openAfter_mem _ (by simp)
  generalize (window before).foldl openAfter none = grab at hopen ⊢
  cases grab with
  | none =>
    have hnone : inside none (after.take 1) = [] := by
      cases after <;> simp [inside]
    rw [hnone, List.append_nil]
    exact dropLast_prefix_append _ _
  | some type =>
    -- The first line of the new block is one more line of the block that is open.
    have hfirst := hblock.notClosing type (hopen type rfl)
    have hne : inside (some type) (first :: lines ++ [last] ++ after.take 1) ≠ [] := by
      simp [inside, hfirst]
    rw [List.dropLast_append_of_ne_nil hne]
    by_cases hlast : inside (some type) (after.take 1) = []
    · rw [hlast, List.append_nil]
      exact (List.dropLast_prefix _).trans (List.prefix_append _ _)
    · have hone : (inside (some type) (after.take 1)).dropLast = [] := by
        cases after with
        | nil => rfl
        | cons line after =>
          by_cases hc : closes type line = true <;> simp [inside, hc]
      rw [List.dropLast_append_of_ne_nil hlast, hone, List.append_nil]
      exact List.prefix_append _ _

/-- The lines that a block adds to what is parsed. -/
def added (short long : List Line) : List Line := (parsed long).drop (parsed short).length

/-- All frames are still there if the lines of the block spare them. -/
theorem later_block_iff (alphabet : Alphabet) {before after lines : List Line} {first last : Line}
    (hbefore : Crashing before) (hblock : TaskBlock first lines last)
    (hafter : ∀ line ∈ after.head?, ends line = true) :
    (∀ f ∈ framesIn (getSummaries alphabet (before ++ after)).2.1,
        f ∈ framesIn (getSummaries alphabet (before ++ (first :: lines ++ [last]) ++ after)).2.1) ↔
      Spares (parsed (before ++ after))
        (added (before ++ after) (before ++ (first :: lines ++ [last]) ++ after)) := by
  obtain ⟨more, hmore⟩ := parsed_prefix hbefore hblock hafter
  have hadded : added (before ++ after) (before ++ (first :: lines ++ [last]) ++ after) = more := by
    unfold added
    rw [← hmore, List.drop_left]
  rw [hadded, ← spares_iff, getSummaries_traces, getSummaries_traces, ← hmore]
  simp only [mem_framesIn]

/-- The panic after an oops. -/
def panicLines : List Line := ["panic+0x5/0x6\n".toList, "oops_end+0x7/0x8\n".toList]

theorem twoFrames_crashing : Crashing twoFrames where
  begun := by decide +kernel
  goesOn := by decide +kernel

theorem panicLines_block : TaskBlock " <TASK>\n".toList panicLines " </TASK>\n".toList where
  opening := by decide +kernel
  notClosing := by decide +kernel
  between := by decide +kernel
  closing := by decide +kernel
  inWindow := by decide +kernel

theorem panic_after_oops :
    (∀ f ∈ framesIn (getSummaries wideAlphabet (twoFrames ++ [])).2.1,
        f ∈ framesIn (getSummaries wideAlphabet
          (twoFrames ++ (" <TASK>\n".toList :: panicLines ++ [" </TASK>\n".toList]) ++ [])).2.1) ↔
      Spares (parsed (twoFrames ++ []))
        (added (twoFrames ++ []) (twoFrames ++ (" <TASK>\n".toList :: panicLines ++ [" </TASK>\n".toList]) ++ [])) :=
  later_block_iff wideAlphabet twoFrames_crashing panicLines_block (by simp)

/-- The frame of the oops that was there is there no more. -/
theorem panic_erases_oops :
    Crashing twoFrames ∧ TaskBlock " <TASK>\n".toList panicLines " </TASK>\n".toList ∧
      ∃ f ∈ framesIn (getSummaries wideAlphabet (twoFrames ++ [])).2.1,
        f ∉ framesIn (getSummaries wideAlphabet
          (twoFrames ++ (" <TASK>\n".toList :: panicLines ++ [" </TASK>\n".toList]) ++ [])).2.1 :=
  ⟨twoFrames_crashing, panicLines_block, ⟨"vfs_write", "0x1", none⟩, by decide +kernel, by decide +kernel⟩

end LogSubmitter.Kdump

import Mathlib.Data.List.Basic
/-!
# Scripts

A script does one thing after the other, until one of them raises. What has been done by then
stays done, and so a script is told by what it returns and by what it does on the way.
-/
namespace Lib

/-- A computation that may raise, with the list of what has been done. -/
abbrev Script (ε σ α : Type) := ExceptT ε (StateM (List σ)) α

namespace Script

variable {ε σ α β : Type}

/-- What comes of a script after what has been done, and what has been done then. -/
def after (m : Script ε σ α) (done : List σ) : Except ε α × List σ := (ExceptT.run m).run done

/-- Something that is done unless it fails, which may depend on what has been done. -/
def perform (fails : List σ → σ → Option ε) (e : σ) : Script ε σ Unit :=
  ExceptT.mk fun done =>
    match fails done e with
    | none => (.ok (), done ++ [e])
    | some err => (.error err, done)

/-- `try: … except Exception: pass` -/
def attempt (m : Script ε σ Unit) : Script ε σ Unit := tryCatch m fun _ => pure ()

theorem after_pure (a : α) (done : List σ) : after (pure a : Script ε σ α) done = (.ok a, done) := rfl

theorem after_throw (e : ε) (done : List σ) : after (throw e : Script ε σ α) done = (.error e, done) := rfl

theorem after_bind (m : Script ε σ α) (f : α → Script ε σ β) (done : List σ) :
    after (m >>= f) done =
      match after m done with
      | (.ok a, done) => after (f a) done
      | (.error e, done) => (.error e, done) := by
  unfold after
  rw [ExceptT.run_bind, StateT.run_bind]
  generalize (ExceptT.run m).run done = r
  obtain ⟨a | e, done'⟩ := r
  · rfl
  · rfl

theorem after_tryCatch (m : Script ε σ α) (handle : ε → Script ε σ α) (done : List σ) :
    after (tryCatch m handle) done =
      match after m done with
      | (.ok a, done) => (.ok a, done)
      | (.error e, done) => after (handle e) done := by
  unfold after
  rw [ExceptT.run_tryCatch, StateT.run_bind]
  generalize (ExceptT.run m).run done = r
  obtain ⟨a | e, done'⟩ := r
  · rfl
  · rfl

theorem after_ofExcept (x : Except ε α) (done : List σ) : after (ofExcept x : Script ε σ α) done = (x, done) := by
  cases x <;> rfl

theorem after_perform (fails : List σ → σ → Option ε) (e : σ) (done : List σ) :
    after (perform fails e) done =
      match fails done e with
      | none => (.ok (), done ++ [e])
      | some err => (.error err, done) :=
  rfl

/-! ## What a script ensures -/

/-- What it returns or raises, and what it does, whatever has been done before. -/
def Ensures (q : Except ε α → List σ → Prop) (m : Script ε σ α) : Prop :=
  ∀ done, ∃ new, (after m done).2 = done ++ new ∧ q (after m done).1 new

variable {m : Script ε σ α} {f : α → Script ε σ β} {handle : ε → Script ε σ α} {fails : List σ → σ → Option ε}
  {q r : Except ε α → List σ → Prop} {p : σ → Prop} {e : σ}

theorem Ensures.imp (hm : Ensures q m) (h : ∀ res new, q res new → r res new) : Ensures r m := by
  intro done
  obtain ⟨new, hnew, hq⟩ := hm done
  exact ⟨new, hnew, h _ _ hq⟩

theorem Ensures.and (hq : Ensures q m) (hr : Ensures r m) : Ensures (fun res new => q res new ∧ r res new) m := by
  intro done
  obtain ⟨new, hnew, h⟩ := hq done
  obtain ⟨new', hnew', h'⟩ := hr done
  rw [hnew] at hnew'
  obtain rfl := List.append_cancel_left hnew'
  exact ⟨new, hnew, h, h'⟩

theorem ensures_pure {a : α} (h : q (.ok a) []) : Ensures q (pure a) := by
  intro done
  exact ⟨[], by simp [after_pure], h⟩

theorem ensures_throw {err : ε} (h : q (.error err) []) : Ensures q (throw err) := by
  intro done
  exact ⟨[], by simp [after_throw], h⟩

theorem ensures_perform {q : Except ε Unit → List σ → Prop} (hdone : q (.ok ()) [e])
    (hfails : ∀ err, q (.error err) []) : Ensures q (perform fails e) := by
  intro done
  rw [after_perform]
  cases fails done e with
  | none => exact ⟨[e], rfl, hdone⟩
  | some err => exact ⟨[], by simp, hfails err⟩

theorem ensures_bind {r : Except ε β → List σ → Prop} (hm : Ensures q m)
    (herror : ∀ err new, q (.error err) new → r (.error err) new)
    (hf : ∀ a new, q (.ok a) new → Ensures (fun res new' => r res (new ++ new')) (f a)) : Ensures r (m >>= f) := by
  intro done
  obtain ⟨new, hnew, hq⟩ := hm done
  rw [after_bind]
  generalize after m done = s at hnew hq
  obtain ⟨err | a, done'⟩ := s
  · exact ⟨new, hnew, herror err new hq⟩
  · obtain ⟨new', hnew', hr⟩ := hf a new hq done'
    refine ⟨new ++ new', ?_, hr⟩
    rw [← List.append_assoc, ← hnew]
    exact hnew'

theorem ensures_tryCatch (hm : Ensures q m) (hok : ∀ a new, q (.ok a) new → r (.ok a) new)
    (hhandle : ∀ err new, q (.error err) new → Ensures (fun res new' => r res (new ++ new')) (handle err)) :
    Ensures r (tryCatch m handle) := by
  intro done
  obtain ⟨new, hnew, hq⟩ := hm done
  rw [after_tryCatch]
  generalize after m done = s at hnew hq
  obtain ⟨err | a, done'⟩ := s
  · obtain ⟨new', hnew', hr⟩ := hhandle err new hq done'
    refine ⟨new ++ new', ?_, hr⟩
    rw [← List.append_assoc, ← hnew]
    exact hnew'
  · exact ⟨new, hnew, hok a new hq⟩

/-! ## What is done on the way -/

/-- Whatever it does has the property, whether or not it raises. -/
def Only (p : σ → Prop) (m : Script ε σ α) : Prop := Ensures (fun _ new => ∀ e ∈ new, p e) m

theorem only_pure (a : α) : Only p (pure a : Script ε σ α) := ensures_pure (by simp)

theorem only_throw (err : ε) : Only p (throw err : Script ε σ α) := ensures_throw (by simp)

theorem only_ofExcept (x : Except ε α) : Only p (ofExcept x : Script ε σ α) := by
  cases x with
  | ok a => exact only_pure a
  | error err => exact only_throw err

theorem only_perform (h : p e) : Only p (perform fails e) := by
  apply ensures_perform
  · simpa using h
  · simp

theorem only_bind (hm : Only p m) (hf : ∀ a, Only p (f a)) : Only p (m >>= f) := by
  apply ensures_bind hm
  · intro err new h
    exact h
  · intro a new h
    apply (hf a).imp
    intro res new' h' e he
    exact (List.mem_append.1 he).elim (h e) (h' e)

theorem only_tryCatch (hm : Only p m) (hhandle : ∀ err, Only p (handle err)) : Only p (tryCatch m handle) := by
  apply ensures_tryCatch hm
  · intro a new h
    exact h
  · intro err new h
    apply (hhandle err).imp
    intro res new' h' e he
    exact (List.mem_append.1 he).elim (h e) (h' e)

theorem only_forM {l : List β} {f : β → Script ε σ PUnit} (h : ∀ b ∈ l, Only p (f b)) : Only p (forM l f) := by
  induction l with
  | nil => exact only_pure _
  | cons b l ih =>
    rw [List.forall_mem_cons] at h
    rw [List.forM_cons]
    exact only_bind h.1 fun _ => ih h.2

/-! ## Whether it returns -/

/-- It returns just when it has done something with the property. -/
def ReturnsWith (p : σ → Prop) (m : Script ε σ α) : Prop :=
  Ensures (fun res new => (∃ a, res = .ok a) ↔ ∃ e ∈ new, p e) m

theorem returnsWith_perform (h : p e) : ReturnsWith p (perform fails e) := by
  apply ensures_perform
  · simpa using h
  · simp

/-- What comes before does nothing of the kind. -/
theorem returnsWith_bind {f : α → Script ε σ β} (hm : Only (fun e => ¬p e) m) (hf : ∀ a, ReturnsWith p (f a)) :
    ReturnsWith p (m >>= f) := by
  apply ensures_bind hm
  · intro err new h
    simpa using h
  · intro a new h
    apply (hf a).imp
    intro res new' h'
    rw [h']
    constructor
    · rintro ⟨e, he, hp⟩
      exact ⟨e, List.mem_append_right _ he, hp⟩
    · rintro ⟨e, he, hp⟩
      exact ⟨e, (List.mem_append.1 he).resolve_left fun he => h e he hp, hp⟩

theorem returnsWith_then_pure (hm : ReturnsWith p m) (b : β) : ReturnsWith p (m >>= fun _ => pure b) := by
  apply ensures_bind hm
  · intro err new h
    simpa using h
  · intro a new h
    apply ensures_pure
    rw [List.append_nil]
    exact iff_of_true ⟨b, rfl⟩ (h.1 ⟨a, rfl⟩)

/-- It does not raise. -/
def Returns (m : Script ε σ α) : Prop := Ensures (fun res _ => ∃ a, res = .ok a) m

theorem returns_pure (a : α) : Returns (pure a : Script ε σ α) := ensures_pure ⟨a, rfl⟩

theorem returns_bind (hm : Returns m) (hf : ∀ a, Returns (f a)) : Returns (m >>= f) := by
  apply ensures_bind hm
  · rintro err new ⟨a, h⟩
    cases h
  · intro a new _
    exact hf a

theorem returns_forM {l : List β} {f : β → Script ε σ PUnit} (h : ∀ b ∈ l, Returns (f b)) : Returns (forM l f) := by
  induction l with
  | nil => exact returns_pure _
  | cons b l ih =>
    rw [List.forall_mem_cons] at h
    rw [List.forM_cons]
    exact returns_bind h.1 fun _ => ih h.2

theorem only_attempt (h : p e) : Only p (attempt (perform fails e)) :=
  only_tryCatch (only_perform h) fun _ => only_pure ()

theorem returns_attempt : Returns (attempt (perform fails e)) := by
  apply ensures_tryCatch (only_perform (p := fun _ => True) trivial)
  · intro a new _
    exact ⟨a, rfl⟩
  · intro err new _
    exact returns_pure ()

/-! ## What it returns -/

/-- What it returns has the property. -/
def Gives (g : α → Prop) (m : Script ε σ α) : Prop := Ensures (fun res _ => ∀ a, res = .ok a → g a) m

theorem gives_pure {g : α → Prop} {a : α} (h : g a) : Gives g (pure a : Script ε σ α) := by
  apply ensures_pure
  rintro _ ⟨⟩
  exact h

theorem gives_bind {g : β → Prop} (hm : Only p m) (hf : ∀ a, Gives g (f a)) : Gives g (m >>= f) := by
  apply ensures_bind hm
  · rintro err new _ b ⟨⟩
  · intro a new _
    exact hf a

/-! ## What it does in order -/

/-- It does these things one after the other, as far as it gets, and all of them if it returns. -/
def Follows (g : α → Prop) (l : List σ) (m : Script ε σ α) : Prop :=
  Ensures (fun res new => new <+: l ∧ ∀ a, res = .ok a → new = l ∧ g a) m

theorem follows_pure {g : α → Prop} {a : α} (h : g a) : Follows g [] (pure a : Script ε σ α) := by
  apply ensures_pure
  refine ⟨List.prefix_rfl, ?_⟩
  rintro _ ⟨⟩
  exact ⟨rfl, h⟩

theorem follows_ofExcept {g : α → Prop} {x : Except ε α} (h : ∀ a, x = .ok a → g a) :
    Follows g [] (ofExcept x : Script ε σ α) := by
  cases x with
  | ok a => exact follows_pure (h a rfl)
  | error err =>
    apply ensures_throw
    refine ⟨List.prefix_rfl, ?_⟩
    rintro _ ⟨⟩

theorem follows_perform : Follows (fun _ => True) [e] (perform fails e) := by
  apply ensures_perform
  · exact ⟨List.prefix_rfl, fun _ _ => ⟨rfl, trivial⟩⟩
  · intro err
    refine ⟨List.nil_prefix, ?_⟩
    rintro _ ⟨⟩

theorem follows_bind {g : α → Prop} {g' : β → Prop} {l l' : List σ} (hm : Follows g l m)
    (hf : ∀ a, g a → Follows g' l' (f a)) : Follows g' (l ++ l') (m >>= f) := by
  apply ensures_bind hm
  · rintro err new ⟨hpre, -⟩
    exact ⟨hpre.trans (List.prefix_append _ _), fun _ h => by cases h⟩
  · intro a new h
    obtain ⟨rfl, hg⟩ := h.2 a rfl
    apply (hf a hg).imp
    rintro res new' ⟨hpre, hok⟩
    refine ⟨(List.prefix_append_right_inj new).2 hpre, fun b hb => ?_⟩
    obtain ⟨rfl, hg'⟩ := hok b hb
    exact ⟨rfl, hg'⟩

/-- What comes first does nothing. -/
theorem follows_bind_nil {g : α → Prop} {g' : β → Prop} {l : List σ} (hm : Follows g [] m)
    (hf : ∀ a, g a → Follows g' l (f a)) : Follows g' l (m >>= f) :=
  follows_bind hm hf

/-- It does not raise the error. -/
def Spares (err : ε) (m : Script ε σ α) : Prop := Ensures (fun res _ => res ≠ .error err) m

theorem spares_pure {err : ε} (a : α) : Spares err (pure a : Script ε σ α) := ensures_pure (by simp)

theorem spares_ofExcept {err : ε} {x : Except ε α} (h : x ≠ .error err) : Spares err (ofExcept x : Script ε σ α) := by
  cases x with
  | ok a => exact spares_pure a
  | error err' => exact ensures_throw h

theorem spares_perform {err : ε} (h : ∀ done, fails done e ≠ some err) : Spares err (perform fails e) := by
  intro done
  rw [after_perform]
  cases hfails : fails done e with
  | none => exact ⟨[e], rfl, by simp⟩
  | some err' =>
    refine ⟨[], by simp, fun he => h done ?_⟩
    cases he
    exact hfails

theorem spares_bind {err : ε} (hm : Spares err m) (hf : ∀ a, Spares err (f a)) : Spares err (m >>= f) := by
  apply ensures_bind hm
  · intro err' new h he
    cases he
    exact h rfl
  · intro a new _
    exact hf a

end Script

end Lib

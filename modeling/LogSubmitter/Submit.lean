import LogSubmitter.Helpers
import LogSubmitter.Runner
import LogSubmitter.Sentry
import LogSubmitter.Str
/-!
# What a helper makes of a log

The `submit` of a helper reads a pending file and fills in an event, which it gives to
`send`. An exception that is not caught leaves `submit` before that.
-/
namespace LogSubmitter.Submit

open Lib Json
open Runner (HelperResult)
open Sentry (Attachment)

/-- The exceptions that may leave `submit`, or be caught in it. A `TransportError` is one of `httpx`. -/
inductive Raised where
  | attributeError
  | keyError
  | osError
  | overflowError
  | transportError
  | typeError
  | unboundLocalError
  | unicodeDecodeError
  | valueError
  deriving DecidableEq, Repr

/-! ## The event -/

/-- A piece of an f-string: a text, or a value that is to be shown. -/
inductive Part where
  | text (s : String)
  | shown (v : Json)

abbrev FString := List Part

inductive Message where
  | value (v : Json)
  | format (f : FString)

/-- What helpers set of a `SentryEvent`. Nothing checks the types. -/
structure Event where
  osBuild : Option String
  version : Option String
  attachments : List Attachment := []
  appid : Json := .null
  exceptions : List Json := []
  tags : List (String × Json) := []
  fingerprint : List FString := []
  extra : List (String × Json) := []
  timestamp : Json := .null
  message : Message := .value .null

/-- How `submit` goes on: with `send`, or not at all. -/
inductive Outcome where
  | send (event : Event)
  | result (r : HelperResult)

abbrev Submission := Except Raised Outcome

def transientError : Submission := .ok (.result .transientError)

def permanentError : Submission := .ok (.result .permanentError)

/-! ## The file -/

/-- `os.path.splitext(os.path.basename(fname))[0]` -/
def stem (fname : List Char) : List Char :=
  let name := Helpers.basename fname
  name.take (name.length - (Helpers.extension name).length)

theorem stem_append (dir : List Char) {root ext : List Char} (hslash : '/' ∉ root ++ '.' :: ext) (hdot : '.' ∉ ext)
    (hroot : ∃ c ∈ root, c ≠ '.') : stem (dir ++ '/' :: (root ++ '.' :: ext)) = root := by
  unfold stem
  rw [Helpers.basename_append dir hslash]
  dsimp only
  rw [Helpers.extension_append hdot hroot]
  simp

def basename (fname : List Char) : String := String.ofList (Helpers.basename fname)

/-- What `json.loads` gives: a value, a `JSONDecodeError`, or another exception for bytes that
are no text. -/
inductive Content where
  | undecodable
  | invalid
  | value (v : Json)

/-- `json.loads(data.decode())` -/
def Content.ofBytes (data : List UInt8) : Content :=
  match decode data with
  | none => .undecodable
  | some text => (loads text).elim .invalid .value

/-- A file that can be read. -/
structure LogFile where
  data : List UInt8
  json : Content

/-- `zipfile.ZipFile(fname)`: an `OSError`, a `BadZipFile`, or members by name. -/
inductive ZipFile where
  | unreadable
  | bad
  | members (m : Dict String (List UInt8))

/-! ## Access to a value -/

/-- The value of a field, or `None`. -/
def field (fields : List (String × Json)) (key : String) : Json := (Assoc.get key fields).getD .null

/-- `log.get(key)` -/
def get (log : Json) (key : String) : Except Raised Json :=
  match log with
  | .obj fields => .ok (field fields key)
  | _ => .error .attributeError

/-- `v == text` -/
def isText (text : String) : Json → Bool
  | .str s => s = text
  | _ => false

/-- `key in log` -/
def has (log : Json) (key : String) : Except Raised Bool :=
  match log with
  | .obj fields => .ok (Assoc.get key fields).isSome
  | .arr l => .ok (l.any (isText key))
  | .str s => .ok (Str.contains key s.toList)
  | _ => .error .typeError

/-- `log[key]` -/
def item (log : Json) (key : String) : Except Raised Json :=
  match log with
  | .obj fields => (Assoc.get key fields).elim (.error .keyError) .ok
  | _ => .error .typeError

/-- `if key in log: tags[key] = log[key]` -/
def copyItem (log : Json) (tags : List (String × Json)) (key : String) : Except Raised (List (String × Json)) := do
  if ← has log key then return Assoc.set key (← item log key) tags else return tags

/-! ## Numbers -/

/-- `float(v)`, which is not calculated: it is kept as `v`. -/
def float : Json → Except Raised Json
  | .num n => if FloatText.tooLarge ≤ n.natAbs then .error .overflowError else .ok (.num n)
  | .str s => if Str.isFloat s then .ok (.str s) else .error .valueError
  | .bool b => .ok (.bool b)
  | .float f => .ok (.float f)
  | _ => .error .typeError

/-- `int(v)` -/
def int : Json → Except Raised Int
  | .num n => .ok n
  | .str s => (Str.int s).elim (.error .valueError) .ok
  | .bool b => .ok (if b then 1 else 0)
  | .float f =>
    if f.isNaN then .error .valueError else if f.isInfinite then .error .overflowError else .ok f.whole
  | _ => .error .typeError

/-- `except (ValueError, TypeError): pass` -/
def passed {α : Type} : Except Raised α → Except Raised (Option α)
  | .ok a => .ok (some a)
  | .error .valueError => .ok none
  | .error .typeError => .ok none
  | .error e => .error e

/-! ## Exceptions -/

section
variable {α β : Type}

@[simp] theorem ok_bind (a : α) (f : α → Except Raised β) : (Except.ok a >>= f) = f a := rfl

@[simp] theorem error_bind (e : Raised) (f : α → Except Raised β) : (Except.error e >>= f) = .error e := rfl

theorem bind_ok {x : Except Raised α} {f : α → Except Raised β} :
    (∃ b, x >>= f = .ok b) ↔ ∃ a, x = .ok a ∧ ∃ b, f a = .ok b := by
  cases x with
  | error e =>
    constructor
    · rintro ⟨b, h⟩
      cases h
    · rintro ⟨a, h, -⟩
      cases h
  | ok a =>
    constructor
    · intro h
      exact ⟨a, rfl, h⟩
    · rintro ⟨a', h, hb⟩
      cases h
      exact hb

/-- A loop raises what one of its rounds raises, and each round adds a value. -/
theorem mapM_ok {f : α → Except Raised β} {q : β → Prop} {l : List α} :
    (∃ bs, l.mapM f = .ok bs ∧ ∀ b ∈ bs, q b) ↔ ∀ a ∈ l, ∃ b, f a = .ok b ∧ q b := by
  induction l with
  | nil => exact ⟨fun _ _ h => (by cases h), fun _ => ⟨[], rfl, fun _ h => (by cases h)⟩⟩
  | cons a l ih =>
    rw [List.forall_mem_cons, ← ih]
    simp only [List.mapM_cons]
    constructor
    · rintro ⟨bs, h, hq⟩
      obtain ⟨b, hb, bs', h'⟩ := bind_ok.1 ⟨bs, h⟩
      obtain ⟨cs, hcs, -⟩ := bind_ok.1 ⟨bs', h'⟩
      rw [hb, ok_bind, hcs, ok_bind] at h
      cases h
      exact ⟨⟨b, hb, hq b List.mem_cons_self⟩, cs, hcs, fun c hc => hq c (List.mem_cons_of_mem _ hc)⟩
    · rintro ⟨⟨b, hb, hqb⟩, bs, hbs, hq⟩
      refine ⟨b :: bs, ?_, List.forall_mem_cons.2 ⟨hqb, hq⟩⟩
      rw [hb, ok_bind, hbs]
      rfl

/-- If it does not depend on the state whether a round raises. -/
theorem foldlM_ok {f : β → α → Except Raised β} {q : α → Prop} (hf : ∀ s a, (∃ s', f s a = .ok s') ↔ q a)
    {l : List α} (s : β) : (∃ s', l.foldlM f s = .ok s') ↔ ∀ a ∈ l, q a := by
  induction l generalizing s with
  | nil => simp [pure, Except.pure]
  | cons a l ih =>
    rw [List.foldlM_cons, bind_ok, List.forall_mem_cons, ← hf s]
    constructor
    · rintro ⟨s', hs, h⟩
      exact ⟨⟨s', hs⟩, (ih s').1 h⟩
    · rintro ⟨⟨s', hs⟩, h⟩
      exact ⟨s', hs, (ih s').2 h⟩

end

/-! ## Objects -/

section
variable (fields : List (String × Json)) (key : String)

@[simp] theorem get_obj : get (.obj fields) key = .ok (field fields key) := rfl

@[simp] theorem has_obj : has (.obj fields) key = .ok (Assoc.get key fields).isSome := rfl

@[simp] theorem item_obj : item (.obj fields) key = (Assoc.get key fields).elim (.error .keyError) .ok := rfl

/-- Nothing is raised for an object. -/
@[simp] theorem copyItem_obj (tags : List (String × Json)) :
    copyItem (.obj fields) tags key = .ok ((Assoc.get key fields).elim tags fun v => Assoc.set key v tags) := by
  unfold copyItem
  cases h : Assoc.get key fields <;> simp only [has_obj, item_obj, h] <;> rfl

theorem copyItems_obj (keys : List String) (tags : List (String × Json)) :
    ∃ tags', keys.foldlM (copyItem (.obj fields)) tags = .ok tags' :=
  (foldlM_ok (q := fun _ => True) (fun tags key => ⟨fun _ => trivial, fun _ => ⟨_, copyItem_obj fields key tags⟩⟩)
    tags).2 fun _ _ => trivial

end

end LogSubmitter.Submit

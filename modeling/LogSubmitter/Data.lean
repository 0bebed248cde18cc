import LogSubmitter.Json.RoundTrip
import LogSubmitter.Runner.Phases
/-!
# Data stores

`DataStore.write` empties its file and then writes the new text to it. The next
`DataStore` of the name loads the file, and takes anything but a file that is
not there, cannot be read or raises `SyntaxError` or `KeyError`. A text that is
cut short raises `JSONDecodeError`, which is none of these.
-/
namespace LogSubmitter.Data

open Lib Runner

/-! ## Values -/

/-- What a store can hold: the values of JSON, and those `json.dump` cannot serialise. -/
inductive Value where
  | null
  | bool (b : Bool)
  | num (n : Int)
  | float (f : FloatText)
  | str (s : String)
  | arr (l : List Value)
  | obj (fields : List (String × Value))
  | other

namespace Value

mutual

/-- The value as JSON, with `null` for what cannot be serialised. -/
def json : Value → Json
  | .null => .null
  | .bool b => .bool b
  | .num n => .num n
  | .float f => .float f
  | .str s => .str s
  | .arr l => .arr (jsonAll l)
  | .obj fields => .obj (jsonFields fields)
  | .other => .null

def jsonAll : List Value → List Json
  | [] => []
  | v :: l => json v :: jsonAll l

def jsonFields : List (String × Value) → List (String × Json)
  | [] => []
  | (k, v) :: l => (k, json v) :: jsonFields l

end

mutual

/-- Nothing in the value keeps it from being serialised. -/
def serialisable : Value → Bool
  | .arr l => serialisableAll l
  | .obj fields => serialisableFields fields
  | .other => false
  | _ => true

def serialisableAll : List Value → Bool
  | [] => true
  | v :: l => serialisable v && serialisableAll l

def serialisableFields : List (String × Value) → Bool
  | [] => true
  | (_, v) :: l => serialisable v && serialisableFields l

end

end Value

/-! ## Dumping -/

/-- What `json.dump` has written, and whether it came to the end. -/
structure Dumped where
  text : List Char
  done : Bool
  deriving DecidableEq

/-- A text that is written. -/
def put (text : List Char) : Dumped := ⟨text, true⟩

/-- `b` is written after `a`, unless `a` raises. -/
def Dumped.next (a b : Dumped) : Dumped := if a.done then ⟨a.text ++ b.text, b.done⟩ else a

mutual

/-- `json.dump`. It writes piece by piece, and raises at a value it cannot serialise. -/
def dump : Value → Dumped
  | .null => put (Json.dumps .null)
  | .bool b => put (Json.dumps (.bool b))
  | .num n => put (Json.dumpsInt n)
  | .float f => put f.text
  | .str s => put (Json.dumpsStr s)
  | .arr [] => put ['[', ']']
  | .arr (v :: l) => (put ['[']).next ((dump v).next (dumpRest l))
  | .obj [] => put ['{', '}']
  | .obj ((k, v) :: l) => (put ('{' :: (Json.dumpsStr k ++ [':', ' ']))).next ((dump v).next (dumpFields l))
  | .other => ⟨[], false⟩

def dumpRest : List Value → Dumped
  | [] => put [']']
  | v :: l => (put [',', ' ']).next ((dump v).next (dumpRest l))

def dumpFields : List (String × Value) → Dumped
  | [] => put ['}']
  | (k, v) :: l => (put (',' :: ' ' :: (Json.dumpsStr k ++ [':', ' ']))).next ((dump v).next (dumpFields l))

end

/-! ## The store -/

/-- What is in the store's file, if there is one. -/
abbrev File := Option (List Char)

/-- A `DataStore`. Its data is a dict, and so are the dicts in it. -/
structure DataStore where
  data : List (String × Value)
  dirty : Bool
  unique : (Value.obj data).json.unique = true

/-- `json.load` of the file. -/
def load : File → Except Exn Json
  | none => .error .fileNotFoundError
  | some text =>
    match Json.loads text with
    | some data => .ok data
    | none => .error (.other "JSONDecodeError")

/-- `DataStore.__init__`: what it holds, unless it raises. -/
def init (file : File) : Except Exn Json :=
  match load file with
  | .ok data => .ok data
  | .error .fileNotFoundError => .ok (.obj [])
  | .error .osError => .ok (.obj [])
  | .error .syntaxError => .ok (.obj [])
  | .error .keyError => .ok (.obj [])
  | .error e => .error e

/-- Where a write is stopped from outside, by an `OSError` or the end of the process: it does not
get to open the file, or only the first characters of what is dumped reach it. -/
inductive Stop where
  | makedirs
  | openFails
  | after (count : Nat)
  deriving DecidableEq

/-- `DataStore.write`. What is dumped up to a value that cannot be serialised is written when the
file is closed. -/
def DataStore.write (d : DataStore) (stop : Option Stop) (file : File) : DataStore × File :=
  if d.dirty then
    match stop with
    | some .makedirs => (d, file)
    | some .openFails => (d, file)
    | some (.after count) => (d, some ((dump (.obj d.data)).text.take count))
    | none => ({ d with dirty := !(dump (.obj d.data)).done }, some (dump (.obj d.data)).text)
  else (d, file)

/-! ## What is dumped -/

/-- The dump is the text, or stops short of its end. -/
structure Dumps (a : Dumped) (ok : Bool) (text : List Char) : Prop where
  done : a.done = ok
  of_done : a.done = true → a.text = text
  of_not_done : a.done = false → a.text <+: text ∧ a.text.length < text.length

theorem dumps_put (text : List Char) : Dumps (put text) true text := ⟨rfl, fun _ => rfl, nofun⟩

theorem Dumps.next {a b : Dumped} {x y : Bool} {s t : List Char} (ha : Dumps a x s) (hb : Dumps b y t) :
    Dumps (a.next b) (x && y) (s ++ t) := by
  unfold Dumped.next
  cases hd : a.done with
  | true =>
    have hx : x = true := ha.done.symm.trans hd
    rw [if_pos rfl, hx, Bool.true_and, ha.of_done hd]
    exact ⟨hb.done, fun h => by rw [hb.of_done h], fun h => ⟨(List.prefix_append_right_inj s).2 (hb.of_not_done h).1,
      by simpa using (hb.of_not_done h).2⟩⟩
  | false =>
    have hx : x = false := ha.done.symm.trans hd
    rw [if_neg Bool.false_ne_true, hx, Bool.false_and]
    obtain ⟨hp, hl⟩ := ha.of_not_done hd
    refine ⟨hd, fun h => ?_, fun _ => ⟨hp.trans (List.prefix_append s t), ?_⟩⟩
    · rw [hd] at h
      cases h
    · rw [List.length_append]
      exact Nat.lt_add_right _ hl

theorem Dumps.of_eq {a : Dumped} {x y : Bool} {s t : List Char} (h : Dumps a x s) (hx : x = y) (hs : s = t) :
    Dumps a y t := hx ▸ hs ▸ h

open Value in
mutual

theorem dump_dumps : ∀ v : Value, Dumps (dump v) (serialisable v) (json v).dumps
  | .null => dumps_put _
  | .bool _ => dumps_put _
  | .num _ => dumps_put _
  | .float _ => dumps_put _
  | .str _ => dumps_put _
  | .arr [] => dumps_put _
  | .arr (v :: l) =>
    ((dumps_put ['[']).next ((dump_dumps v).next (dumpRest_dumps l))).of_eq rfl rfl
  | .obj [] => dumps_put _
  | .obj ((k, v) :: l) =>
    ((dumps_put _).next ((dump_dumps v).next (dumpFields_dumps l))).of_eq rfl
      (by simp [json, jsonFields, Json.dumps])
  | .other => ⟨rfl, nofun, fun _ => ⟨List.nil_prefix, by decide⟩⟩

theorem dumpRest_dumps : ∀ l : List Value, Dumps (dumpRest l) (serialisableAll l) (Json.dumpsRest (jsonAll l))
  | [] => dumps_put _
  | v :: l => ((dumps_put [',', ' ']).next ((dump_dumps v).next (dumpRest_dumps l))).of_eq rfl rfl

theorem dumpFields_dumps : ∀ l : List (String × Value),
    Dumps (dumpFields l) (serialisableFields l) (Json.dumpsFields (jsonFields l))
  | [] => dumps_put _
  | (k, v) :: l =>
    ((dumps_put _).next ((dump_dumps v).next (dumpFields_dumps l))).of_eq rfl
      (by simp [jsonFields, Json.dumpsFields])

end

/-! ## After a write -/

/-- The data as JSON. -/
def DataStore.json (d : DataStore) : Json := (Value.obj d.data).json

/-- A `DataStore` constructed from the file has the old data or the new. -/
def Recovers (old new : Json) (file : File) : Prop := ∃ data, init file = .ok data ∧ (data = old ∨ data = new)

/-- The write does not get to empty the file, or the whole text is written. -/
def DataStore.Safe (d : DataStore) (stop : Option Stop) : Prop :=
  d.dirty = false ∨ stop = some .makedirs ∨ stop = some .openFails ∨
    (Value.obj d.data).serialisable = true ∧ ∀ count, stop = some (.after count) → d.json.dumps.length ≤ count

theorem init_dumps {v : Json} (hu : v.unique = true) : init (some v.dumps) = .ok v := by
  rw [init, load, Json.loads_dumps hu]

/-- No `DataStore` can be constructed from a text that stops before its end. -/
theorem not_recovers_cut {d : DataStore} {p : List Char} (hp : p <+: d.json.dumps)
    (hlt : p.length < d.json.dumps.length) (old new : Json) : ¬ Recovers old new (some p) := by
  rintro ⟨data, h, -⟩
  rw [init, load, Json.loads_eq_none d.unique hp hlt] at h
  cases h

/-- What a write that emptied the file has left in it gives the new data just when it is the whole text. -/
theorem recovers_take_iff (d : DataStore) (old : Json) (count : Nat) :
    Recovers old d.json (some ((dump (.obj d.data)).text.take count)) ↔
      (Value.obj d.data).serialisable = true ∧ d.json.dumps.length ≤ count := by
  have hd : Dumps (dump (.obj d.data)) (Value.obj d.data).serialisable d.json.dumps := dump_dumps (.obj d.data)
  cases hs : (Value.obj d.data).serialisable with
  | true =>
    rw [hd.of_done (hd.done.trans hs)]
    by_cases hlen : d.json.dumps.length ≤ count
    · refine iff_of_true ⟨d.json, ?_, .inr rfl⟩ ⟨rfl, hlen⟩
      rw [List.take_of_length_le hlen]
      exact init_dumps d.unique
    · refine iff_of_false (not_recovers_cut (List.take_prefix _ _) ?_ _ _) fun h => hlen h.2
      rw [List.length_take]
      exact Nat.lt_of_le_of_lt (Nat.min_le_left _ _) (Nat.lt_of_not_le hlen)
  | false =>
    obtain ⟨hp, hl⟩ := hd.of_not_done (hd.done.trans hs)
    refine iff_of_false (not_recovers_cut ((List.take_prefix _ _).trans hp) ?_ _ _) fun h => Bool.noConfusion h.1
    rw [List.length_take]
    exact Nat.lt_of_le_of_lt (Nat.min_le_right _ _) hl

theorem recovers_old {file : File} {old : Json} (h : init file = .ok old) (new : Json) : Recovers old new file :=
  ⟨old, h, .inl rfl⟩

/-- After a write, stopped anywhere, the file gives the old data or the new just when the write did
not get to empty it or the whole text was written. -/
theorem write_recovers_iff {file : File} {old : Json} (h : init file = .ok old) (d : DataStore) (stop : Option Stop) :
    Recovers old d.json (d.write stop file).2 ↔ d.Safe stop := by
  unfold DataStore.write DataStore.Safe
  cases hd : d.dirty with
  | false => exact iff_of_true (recovers_old h _) (.inl rfl)
  | true =>
    cases stop with
    | none =>
      -- The whole text is written, or as much as can be dumped.
      have hall := recovers_take_iff d old d.json.dumps.length
      have htext : (dump (.obj d.data)).text.take d.json.dumps.length = (dump (.obj d.data)).text := by
        refine List.take_of_length_le ?_
        have hdump := dump_dumps (.obj d.data)
        cases hdone : (dump (.obj d.data)).done with
        | true => exact Nat.le_of_eq (congrArg List.length (hdump.of_done hdone))
        | false => exact Nat.le_of_lt (hdump.of_not_done hdone).2
      rw [htext] at hall
      simpa using hall
    | some stop =>
      cases stop with
      | makedirs => exact iff_of_true (recovers_old h _) (.inr (.inl rfl))
      | openFails => exact iff_of_true (recovers_old h _) (.inr (.inr (.inl rfl)))
      | after count =>
        refine (recovers_take_iff d old count).trans ?_
        simp

/-- A store with a time to save. -/
def stamped : DataStore := { data := [("timestamp", .num 1700000000)], dirty := true, unique := by decide }

theorem stamped_recovers : Recovers (.obj []) stamped.json (stamped.write none none).2 ↔ stamped.Safe none :=
  write_recovers_iff rfl stamped none

/-- A store with a value that cannot be serialised. -/
def unserialisable : DataStore := { data := [("timestamp", .other)], dirty := true, unique := by decide }

/-- The process dies before the first character is in the file, or `json.dump` raises: no
`DataStore` can be constructed. -/
theorem cut_short_raises : init none = .ok (.obj []) ∧
    ¬ Recovers (.obj []) stamped.json (stamped.write (some (.after 0)) none).2 ∧
    ¬ Recovers (.obj []) unserialisable.json (unserialisable.write none none).2 := by
  have hraise : init (stamped.write (some (.after 0)) none).2 = .error (.other "JSONDecodeError") ∧
      init (unserialisable.write none none).2 = .error (.other "JSONDecodeError") := by decide +kernel
  refine ⟨rfl, ?_, ?_⟩
  · rintro ⟨data, h, -⟩
    rw [hraise.1] at h
    cases h
  · rintro ⟨data, h, -⟩
    rw [hraise.2] at h
    cases h

end LogSubmitter.Data

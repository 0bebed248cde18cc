import LogSubmitter.Data
import LogSubmitter.Lib.Raise
import LogSubmitter.Str
/-!
# The data stores of a process

A process has one store for each name, and a name is that of a module. What is set in a store is
in its file after the next write of all stores, if this store can be written and its turn comes,
and the next process finds it there. Only a `ValueError` of a store before it keeps its turn from
coming.
-/
namespace LogSubmitter.Data.Stores

open Lib Runner

abbrev Text := List Char

/-- A module, whose `__name__` is a part of a path. -/
structure Module where
  name : Text
  noSlash : '/' ∉ name

/-- A value that is set. The dicts in it have no key twice. -/
structure Assigned where
  value : Value
  unique : value.json.unique = true

/-! ## What is loaded -/

mutual

/-- The value that `json.load` makes. -/
def ofJson : Json → Value
  | .null => .null
  | .bool b => .bool b
  | .num n => .num n
  | .float f => .float f
  | .str s => .str s
  | .arr l => .arr (ofJsonAll l)
  | .obj fields => .obj (ofJsonFields fields)

def ofJsonAll : List Json → List Value
  | [] => []
  | v :: l => ofJson v :: ofJsonAll l

def ofJsonFields : List (String × Json) → List (String × Value)
  | [] => []
  | (k, v) :: l => (k, ofJson v) :: ofJsonFields l

end

mutual

theorem json_ofJson : ∀ v : Json, (ofJson v).json = v
  | .null => rfl
  | .bool _ => rfl
  | .num _ => rfl
  | .float _ => rfl
  | .str _ => rfl
  | .arr l => by rw [ofJson, Value.json, jsonAll_ofJsonAll l]
  | .obj fields => by rw [ofJson, Value.json, jsonFields_ofJsonFields fields]

theorem jsonAll_ofJsonAll : ∀ l : List Json, Value.jsonAll (ofJsonAll l) = l
  | [] => rfl
  | v :: l => by rw [ofJsonAll, Value.jsonAll, json_ofJson v, jsonAll_ofJsonAll l]

theorem jsonFields_ofJsonFields : ∀ l : List (String × Json), Value.jsonFields (ofJsonFields l) = l
  | [] => rfl
  | (k, v) :: l => by rw [ofJsonFields, Value.jsonFields, json_ofJson v, jsonFields_ofJsonFields l]

end

mutual

theorem serialisable_ofJson : ∀ v : Json, (ofJson v).serialisable = true
  | .null => rfl
  | .bool _ => rfl
  | .num _ => rfl
  | .float _ => rfl
  | .str _ => rfl
  | .arr l => by rw [ofJson, Value.serialisable, serialisableAll_ofJsonAll l]
  | .obj fields => by rw [ofJson, Value.serialisable, serialisableFields_ofJsonFields fields]

theorem serialisableAll_ofJsonAll : ∀ l : List Json, Value.serialisableAll (ofJsonAll l) = true
  | [] => rfl
  | v :: l => by rw [ofJsonAll, Value.serialisableAll, serialisable_ofJson v, serialisableAll_ofJsonAll l]; rfl

theorem serialisableFields_ofJsonFields :
    ∀ l : List (String × Json), Value.serialisableFields (ofJsonFields l) = true
  | [] => rfl
  | (k, v) :: l => by
    rw [ofJsonFields, Value.serialisableFields, serialisable_ofJson v, serialisableFields_ofJsonFields l]
    rfl

end

theorem init_unique {file : File} {v : Json} (h : init file = .ok v) : v.unique = true := by
  unfold init at h
  split at h
  · next data hload =>
    cases h
    unfold load at hload
    split at hload
    · cases hload
    · split at hload
      · next text _ hloads =>
        cases hload
        exact Json.loads_unique hloads
      · cases hload
  all_goals cases h <;> rfl

/-- What a store holds: a dict, or what else the file has, which nothing can be set in. -/
inductive Held where
  | dict (d : DataStore)
  | list (l : List Json)
  | text (s : String)
  | scalar

/-- `DataStore.__init__`. -/
def loadHeld (file : File) : Except Exn Held :=
  match h : init file with
  | .error e => .error e
  | .ok (.obj fields) =>
    .ok (.dict
      { data := ofJsonFields fields
        dirty := false
        unique := by
          rw [Value.json, jsonFields_ofJsonFields]
          exact init_unique h })
  | .ok (.arr l) => .ok (.list l)
  | .ok (.str s) => .ok (.text s)
  | .ok _ => .ok .scalar

theorem jsonFields_eq (l : List (String × Value)) : Value.jsonFields l = l.map fun p => (p.1, p.2.json) := by
  induction l with
  | nil => rfl
  | cons p l ih => rw [Value.jsonFields, ih, List.map_cons]

theorem json_set (key : String) (v : Value) (l : List (String × Value)) :
    (Value.obj (Assoc.set key v l)).json = .obj (Assoc.set key v.json (Value.jsonFields l)) := by
  rw [Value.json, jsonFields_eq, Assoc.map_set, jsonFields_eq]

theorem unique_set_json {l : List (String × Value)} {key : String} {v : Value} (h : (Value.obj l).json.unique = true)
    (hv : v.json.unique = true) : (Value.obj (Assoc.set key v l)).json.unique = true := by
  rw [json_set]
  exact Json.unique_set hv h

/-- Where the defaults of a store are: in a dict of its own, or in one of a caller. -/
inductive Defaults where
  | own (l : List (String × Value))
  | shared (caller : Nat)

structure Store where
  held : Held
  defaults : Defaults

/-- The stores of the process, the dicts that callers pass, and the files of the directory. -/
structure State where
  datastore : Dict Text Store
  dicts : Nat → List (String × Value)
  files : Text → File

/-- What a module's store is called. -/
def storeName (m : Module) : Text :=
  if m.name = "steamos_log_submitter".toList then "sls".toList
  else if Str.startsWith "steamos_log_submitter." m.name then Str.after "." m.name
  else m.name

/-- `dict.update` -/
def update (old new : List (String × Value)) : List (String × Value) :=
  new.foldl (fun l p => Assoc.set p.1 p.2 l) old

/-- `defaults or {}` -/
def State.defaultsOf (σ : State) : Option Nat → Defaults
  | none => .own []
  | some caller => if (σ.dicts caller).isEmpty then .own [] else .shared caller

/-- `DataStore.add_defaults`. A dict of a caller is changed for all who have it. -/
def State.addDefaults (σ : State) (name : Text) (s : Store) (new : List (String × Value)) : State :=
  match s.defaults with
  | .own l => { σ with datastore := σ.datastore.insert name { s with defaults := .own (update l new) } }
  | .shared caller => { σ with dicts := Function.update σ.dicts caller (update (σ.dicts caller) new) }

/-- `get_data` -/
def getData (m : Module) (defaults : Option Nat) (σ : State) : Except Exn State :=
  match σ.datastore.get? (storeName m) with
  | some s =>
    match defaults with
    | none => .ok σ
    | some caller =>
      if (σ.dicts caller).isEmpty then .ok σ else .ok (σ.addDefaults (storeName m) s (σ.dicts caller))
  | none =>
    (loadHeld (σ.files (storeName m))).map fun held =>
      { σ with datastore := σ.datastore.insert (storeName m) { held := held, defaults := σ.defaultsOf defaults } }

def DataStore.set (d : DataStore) (key : String) (v : Assigned) : DataStore where
  data := Assoc.set key v.value d.data
  dirty := true
  unique := unique_set_json d.unique v.unique

/-- `store[key] = value` -/
def Held.set (key : String) (v : Assigned) : Held → Except Exn Held
  | .dict d => .ok (.dict (DataStore.set d key v))
  | _ => .error (.other "TypeError")

/-- `self._defaults[key]` -/
def State.default (σ : State) (key : String) (s : Store) : Except Exn Value :=
  match Assoc.get key (match s.defaults with | .own l => l | .shared caller => σ.dicts caller) with
  | some v => .ok v
  | none => .error .keyError

/-- `store[key]`. What a list or a text contains is no key of it. -/
def State.item (σ : State) (key : String) (s : Store) : Except Exn Value :=
  match s.held with
  | .dict d =>
    match Assoc.get key d.data with
    | some v => .ok v
    | none => σ.default key s
  | .list l => if .str key ∈ l then .error (.other "TypeError") else σ.default key s
  | .text text => if Str.contains key text.toList then .error (.other "TypeError") else σ.default key s
  | .scalar => .error (.other "TypeError")

/-- `DataStore.write` of one of the stores. Only a dict is ever dirty. -/
def State.write (σ : State) (name : Text) (stop : Option Stop) : State :=
  match σ.datastore.get? name with
  | some { held := .dict d, defaults := defaults } =>
    let r := d.write stop (σ.files name)
    { σ with
      datastore := σ.datastore.insert name { held := .dict r.1, defaults := defaults }
      files := Function.update σ.files name r.2 }
  | _ => σ

/-- What keeps a write from its end: an exception that `write_all` passes over, the end of the process, or a
`ValueError`, which `json.dump` raises after the first characters where a dict has itself in it, or a number is too
long. -/
inductive Fault where
  | stopped (stop : Stop)
  | valueError (count : Nat)

def Fault.stop : Fault → Stop
  | .stopped stop => stop
  | .valueError count => .after count

/-- Whether the loop of `write_all` goes on after a store. -/
def State.goesOn (σ : State) (faults : Text → Option Fault) (name : Text) : Bool :=
  match σ.datastore.get? name, faults name with
  | some { held := .dict d, defaults := _ }, some (.valueError _) => !d.dirty
  | _, _ => true

/-- The loop of `write_all`. It catches `OSError`, `TypeError` and `RecursionError`, and a `ValueError` ends it. -/
def State.writeEach (faults : Text → Option Fault) : List Text → State → State
  | [], σ => σ
  | name :: names, σ =>
    let τ := σ.write name ((faults name).map Fault.stop)
    if σ.goesOn faults name then State.writeEach faults names τ else τ

/-- `write_all`, with what keeps each of the writes from its end. -/
def State.writeAll (σ : State) (faults : Text → Option Fault) : State :=
  State.writeEach faults σ.datastore.keys σ

/-- `store[key] = value` for the store of a module. -/
def State.set (σ : State) (m : Module) (key : String) (v : Assigned) : Except Exn State :=
  match σ.datastore.get? (storeName m) with
  | some s => (s.held.set key v).map fun held =>
    { σ with datastore := σ.datastore.insert (storeName m) { s with held := held } }
  | none => .error .keyError

/-! ## A process -/

inductive Event where
  | get (m : Module) (defaults : Option Nat)
  /-- `get_data(m)[key] = value` -/
  | set (m : Module) (key : String) (v : Assigned)
  /-- `get_data(m).write()` -/
  | write (m : Module) (stop : Option Stop)
  /-- `none` where the directory cannot be made. -/
  | writeAll (faults : Option (Text → Option Fault))
  /-- The process ends, and another one starts, with the dicts of its callers. -/
  | restart (dicts : Nat → List (String × Value))

/-- What comes of a call, which changes nothing where it raises. -/
def State.after (σ : State) : Except Exn State → State
  | .ok σ' => σ'
  | .error _ => σ

def next (σ : State) : Event → State
  | .get m defaults => σ.after (getData m defaults σ)
  | .set m key v =>
    let σ := σ.after (getData m none σ)
    σ.after (σ.set m key v)
  | .write m stop => σ.after ((getData m none σ).map fun σ => σ.write (storeName m) stop)
  | .writeAll none => σ
  | .writeAll (some faults) => σ.writeAll faults
  | .restart dicts => { σ with datastore := .empty, dicts := dicts }

/-- The process goes on, and nothing else is set under the key of the store. -/
def Event.Keeps (name : Text) (key : String) : Event → Prop
  | .set m key' _ => ¬(storeName m = name ∧ key' = key)
  | .restart _ => False
  | _ => True

def State.held (σ : State) (name : Text) : Option Held := (σ.datastore.get? name).map Store.held

/-- The data can be written, and the file has it unless it is to be written. -/
def InStep (name : Text) (σ : State) : Prop :=
  ∀ d, σ.held name = some (.dict d) →
    (Value.obj d.data).serialisable = true ∧ (d.dirty = true ∨ init (σ.files name) = .ok d.json)

section
variable {σ σ' : State} {name : Text} {m : Module} {key : String} {v : Assigned}

/-- The stores that are written before this one. -/
def State.before (σ : State) (name : Text) : List Text := σ.datastore.keys.takeWhile (· ≠ name)

end

/-- The store of the helper for journals, by its package and without it. -/
def journal : Module := ⟨"steamos_log_submitter.helpers.journal".toList, by decide⟩

def cursor : Assigned := ⟨.str "s=1", rfl⟩

/-- A first process, and no files. -/
def fresh : State where
  datastore := .empty
  dicts _ := []
  files _ := none

end LogSubmitter.Data.Stores

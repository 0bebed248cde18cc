import LogSubmitter.Json.RoundTrip
/-!
# What the caller of a command gets

The daemon turns its errors into D-Bus errors, and `Client.command` turns these
back into the errors of a class. Commands call each other, so an exception may pass
through `command` many times. The errors of helpers are D-Bus errors themselves.
-/
namespace LogSubmitter.Client

open Lib

/-- `DBUS_NAME` -/
def dbusName : String := "com.steampowered.SteamOSLogSubmitter"

/-! ## Classes -/

/-- The `__name__` of a class. -/
structure ClassName where
  text : String
  no_dot : '.' ∉ text.toList
  deriving DecidableEq, Repr

/-- `cls.name` -/
def ClassName.qualified (cls : ClassName) : String := dbusName ++ ".Error." ++ cls.text

/-- A subclass of `HelperError`: one with a text that stands in for an empty one, or one that does not
define `__init__`. -/
structure HelperClass where
  name : ClassName
  default : Option String
  deriving DecidableEq, Repr

/-- `cls(text)`, with the `text` of the exception. -/
def HelperClass.init (cls : HelperClass) (text : String) : String :=
  match cls.default with
  | none => text
  | some default => if text = "" then default else text

section
variable {α : Type} (name : α → ClassName)

/-- `__init_subclass__` -/
def initSubclass (map : Dict String α) (cls : α) : Dict String α :=
  (map.insert (name cls).text cls).insert (name cls).qualified cls

/-- `map`, after the definitions of the classes. -/
def mapOf (classes : List α) : Dict String α := classes.foldl (initSubclass name) .empty

end

def unknownError : ClassName := ⟨"UnknownError", by decide⟩

/-- The subclasses of `Error` and of `HelperError`. No name is taken twice. -/
structure Registry where
  errors : List ClassName
  helperErrors : List HelperClass
  nodup : (errors ++ helperErrors.map HelperClass.name).Nodup
  unknown : unknownError ∈ errors

/-- The classes of `exceptions` and `helpers`. -/
def registry : Registry where
  errors := [unknownError, ⟨"InvalidArgumentsError", by decide⟩, ⟨"LockHeldError", by decide⟩,
    ⟨"LockNotHeldError", by decide⟩, ⟨"RateLimitingError", by decide⟩]
  helperErrors := [⟨⟨"TransientError", by decide⟩, some "A transient error occurred"⟩,
    ⟨⟨"PermanentError", by decide⟩, some "A permanent error occurred"⟩,
    ⟨⟨"ClassError", by decide⟩, some "A classwide error occurred"⟩]
  nodup := by decide
  unknown := by decide

/-! ## Exceptions -/

inductive Raised where
  /-- A subclass of `Error`. -/
  | error (cls : ClassName) (data : Json)
  | helperError (cls : HelperClass) (text : String)
  /-- A `DBusError` that is no `HelperError`. -/
  | dbusError (type text : String)
  | interfaceNotFoundError
  | jsonDecodeError
  | connectionRefusedError
  | other (name : String)

/-- The `type` and the `text`, if it is a `DBusError`. -/
def Raised.dbus : Raised → Option (String × String)
  | .helperError cls text => some (cls.name.qualified, text)
  | .dbusError type text => some (type, text)
  | _ => none

/-! ## The daemon -/

/-- `_reraise` -/
def reraise (cls : ClassName) (data : Json) : Raised := .dbusError cls.qualified (String.ofList (Json.dumps data))

/-- `exc_wrap` -/
def excWrap {α : Type} (result : Except Raised α) : Except Raised α :=
  match result with
  | .error (.error cls data) => .error (reraise cls data)
  | result => result

/-- `exc_awrap` awaits what it wraps. -/
def excAwrap {α : Type} (result : Except Raised α) : Except Raised α := excWrap result

/-- What the caller of a method has raised: the name and the text of a `DBusError`, and what the library
makes of other exceptions. -/
def transport {α : Type} (service : Raised → String × String) (result : Except Raised α) : Except Raised α :=
  match result with
  | .error e =>
    let error := e.dbus.getD (service e)
    .error (.dbusError error.1 error.2)
  | result => result

/-! ## The client -/

/-- `_rethrow` -/
def rethrow (r : Registry) (exc : Raised) : Raised :=
  match exc.dbus with
  | none => exc
  | some (type, text) =>
    match (mapOf id r.errors).get? type with
    | some cls =>
      match Json.loads text.toList with
      | some data => .error cls data
      | none => .jsonDecodeError
    | none =>
      match (mapOf HelperClass.name r.helperErrors).get? type with
      | some cls => .helperError cls (cls.init text)
      | none => .error unknownError (.obj [("text", .str text)])

/-- Whether `_iface` is set. -/
structure State where
  iface : Bool

/-- What becomes of the calls of `_connect`. -/
structure Bus where
  ping : Option Raised
  manager : Option Raised

/-- `_connect` -/
def connect (bus : Bus) (client : State) : Except Raised State :=
  if client.iface then .ok client
  else
    match bus.ping with
    | some .interfaceNotFoundError => .error .connectionRefusedError
    | some e => .error (if e.dbus.isSome then .connectionRefusedError else e)
    | none =>
      match bus.manager with
      | some e => .error e
      | none => .ok { iface := true }

/-- A method of the client. -/
abbrev Method (α : Type) := State → State × Except Raised α

/-- `command` -/
def command {α : Type} (r : Registry) (bus : Bus) (fn : Method α) : Method α := fun client =>
  match connect bus client with
  | .error e => (client, .error e)
  | .ok client =>
    match fn client with
    | (client, .error e) => (client, .error (rethrow r e))
    | result => result

/-- A command that calls a command, and so on, `n` deep. -/
def nested {α : Type} (r : Registry) (bus : Bus) (fn : Method α) : Nat → Method α
  | 0 => fn
  | n + 1 => command r bus (nested r bus fn n)

/-- A call of a method of the daemon. -/
def remote {α : Type} (service : Raised → String × String) (result : Except Raised α) : Method α := fun client =>
  (client, transport service result)

/-! ## The maps -/

theorem qualified_inj {c d : ClassName} (h : c.qualified = d.qualified) : c = d := by
  have h : c.text = d.text := by simpa [ClassName.qualified] using h
  cases c
  cases d
  simpa using h

theorem text_inj {c d : ClassName} (h : c.text = d.text) : c = d := by
  cases c
  cases d
  simpa using h

/-- A qualified name has dots. -/
theorem text_ne_qualified (c d : ClassName) : c.text ≠ d.qualified := by
  intro h
  apply c.no_dot
  rw [h]
  simp [ClassName.qualified, dbusName]

section
variable {α : Type} {name : α → ClassName}

/-- The entries of a class. -/
def entries (name : α → ClassName) (cls : α) : List (String × α) :=
  [((name cls).text, cls), ((name cls).qualified, cls)]

theorem mem_entries {classes : List α} {key : String} {cls : α} :
    (key, cls) ∈ classes.flatMap (entries name) ↔
      cls ∈ classes ∧ (key = (name cls).text ∨ key = (name cls).qualified) := by
  simp only [List.mem_flatMap, entries, List.mem_cons, List.not_mem_nil, or_false, Prod.mk.injEq]
  constructor
  · rintro ⟨cls, hcls, ⟨hkey, rfl⟩ | ⟨hkey, rfl⟩⟩
    · exact ⟨hcls, .inl hkey⟩
    · exact ⟨hcls, .inr hkey⟩
  · rintro ⟨hcls, hkey⟩
    exact ⟨cls, hcls, hkey.imp (⟨·, rfl⟩) (⟨·, rfl⟩)⟩

theorem nodup_entries {classes : List α} (h : (classes.map name).Nodup) :
    ((classes.flatMap (entries name)).map Prod.fst).Nodup := by
  induction classes with
  | nil => exact List.nodup_nil
  | cons cls classes ih =>
    rw [List.map_cons, List.nodup_cons] at h
    -- The names of the other classes are not that of `cls`.
    have hnew : ∀ key, key ∈ (classes.flatMap (entries name)).map Prod.fst →
        key ≠ (name cls).text ∧ key ≠ (name cls).qualified := by
      intro key hkey
      obtain ⟨⟨_, other⟩, hmem, rfl⟩ := List.mem_map.1 hkey
      obtain ⟨ho, rfl | rfl⟩ := mem_entries.1 hmem
      · exact ⟨fun he => h.1 (text_inj he ▸ List.mem_map_of_mem ho), text_ne_qualified _ _⟩
      · exact ⟨fun he => text_ne_qualified _ _ he.symm, fun he => h.1 (qualified_inj he ▸ List.mem_map_of_mem ho)⟩
    rw [List.flatMap_cons, List.map_append]
    apply List.Nodup.append _ (ih h.2)
    · intro key hcls hothers
      simp only [entries, List.map_cons, List.map_nil, List.mem_cons, List.not_mem_nil, or_false] at hcls
      rcases hcls with rfl | rfl
      · exact (hnew _ hothers).1 rfl
      · exact (hnew _ hothers).2 rfl
    · simp [entries, text_ne_qualified]

theorem mapOf_eq (classes : List α) :
    mapOf name classes = (classes.flatMap (entries name)).foldl (fun map p => map.insert p.1 p.2) .empty := by
  rw [List.foldl_flatMap]
  rfl

/-- What a name is looked up as. -/
theorem get?_mapOf {classes : List α} (h : (classes.map name).Nodup) {key : String} {cls : α} :
    (mapOf name classes).get? key = some cls ↔
      cls ∈ classes ∧ (key = (name cls).text ∨ key = (name cls).qualified) := by
  have hitems : (mapOf name classes).items = classes.flatMap (entries name) := by
    rw [mapOf_eq, Dict.items_foldl_insert]
    · rfl
    · exact nodup_entries h
  rw [Dict.get?_eq_some, hitems, mem_entries]

theorem get?_mapOf_eq_none {classes : List α} (h : (classes.map name).Nodup) {key : String} :
    (mapOf name classes).get? key = none ↔
      ∀ cls ∈ classes, key ≠ (name cls).text ∧ key ≠ (name cls).qualified := by
  constructor
  · intro hnone cls hcls
    constructor <;>
      (intro hkey
       have hsome : (mapOf name classes).get? key = some cls := (get?_mapOf h).2 ⟨hcls, by simp [hkey]⟩
       rw [hnone] at hsome
       cases hsome)
  · intro hnew
    apply Option.eq_none_iff_forall_not_mem.2
    intro cls hcls
    obtain ⟨hmem, hkey | hkey⟩ := (get?_mapOf h).1 hcls
    · exact (hnew cls hmem).1 hkey
    · exact (hnew cls hmem).2 hkey

end

/-! ## Exceptions that come back -/

namespace Registry

variable (r : Registry)

theorem nodup_errors : (r.errors.map id).Nodup := by
  rw [List.map_id]
  exact (List.nodup_append.1 r.nodup).1

theorem nodup_helperErrors : (r.helperErrors.map HelperClass.name).Nodup := (List.nodup_append.1 r.nodup).2.1

theorem rethrow_reraise {cls : ClassName} (h : cls ∈ r.errors) {data : Json} (hdata : data.unique = true) :
    rethrow r (reraise cls data) = .error cls data := by
  have hget : (mapOf id r.errors).get? cls.qualified = some cls := (get?_mapOf r.nodup_errors).2 ⟨h, .inr rfl⟩
  have hloads := Json.loads_dumps hdata
  unfold rethrow reraise Raised.dbus
  dsimp only
  rw [hget]
  dsimp only
  rw [String.toList_ofList, hloads]

/-- Also as a `DBusError` without its class. -/
theorem rethrow_helperError {cls : HelperClass} (h : cls ∈ r.helperErrors) {text : String} (ht : text ≠ "") {e : Raised}
    (he : e.dbus = some (cls.name.qualified, text)) : rethrow r e = .helperError cls text := by
  have hnone : (mapOf id r.errors).get? cls.name.qualified = none := by
    apply (get?_mapOf_eq_none r.nodup_errors).2
    intro other ho
    refine ⟨(text_ne_qualified _ _).symm, ?_⟩
    intro hq
    have hne := (List.nodup_append.1 r.nodup).2.2 other ho cls.name (List.mem_map_of_mem h)
    exact hne (qualified_inj hq).symm
  have hget := (get?_mapOf r.nodup_helperErrors).2 ⟨h, .inr rfl⟩
  have hinit : cls.init text = text := by
    unfold HelperClass.init
    split
    · rfl
    · rw [if_neg ht]
  unfold rethrow
  rw [he]
  dsimp only
  rw [hnone, hget]
  dsimp only
  rw [hinit]

/-- The type of a `DBusError` that is no class of the registry. -/
def Foreign (type : String) : Prop :=
  ∀ cls ∈ r.errors ++ r.helperErrors.map HelperClass.name, type ≠ cls.text ∧ type ≠ cls.qualified

theorem rethrow_foreign {type : String} (h : r.Foreign type) (text : String) :
    rethrow r (.dbusError type text) = .error unknownError (.obj [("text", .str text)]) := by
  have herrors : (mapOf id r.errors).get? type = none :=
    (get?_mapOf_eq_none r.nodup_errors).2 fun cls hcls => h cls (List.mem_append_left _ hcls)
  have hhelper : (mapOf HelperClass.name r.helperErrors).get? type = none :=
    (get?_mapOf_eq_none r.nodup_helperErrors).2 fun cls hcls =>
      h cls.name (List.mem_append_right _ (List.mem_map_of_mem hcls))
  unfold rethrow Raised.dbus
  dsimp only
  rw [herrors, hhelper]

/-- An `Error` is no `DBusError`. -/
theorem rethrow_error (cls : ClassName) (data : Json) : rethrow r (.error cls data) = .error cls data := rfl

end Registry

/-! ## Nesting -/

theorem iface_of_connect {bus : Bus} {client client' : State} (h : connect bus client = .ok client') :
    client'.iface = true := by
  unfold connect at h
  split at h
  · next hiface => cases h; exact hiface
  · split at h
    · cases h
    · cases h
    · split at h
      · cases h
      · cases h
        rfl

theorem connect_of_iface (bus : Bus) {client : State} (h : client.iface = true) : connect bus client = .ok client := by
  unfold connect
  rw [if_pos h]

/-- What is raised at the inside, when it is rethrown as something that is not changed again. -/
theorem nested_error {α : Type} {r : Registry} {bus : Bus} {service : Raised → String × String}
    {result : Except Raised α} {client client' : State} (hc : connect bus client = .ok client') {inner outer : Raised}
    (hinner : transport service result = .error inner) (houter : rethrow r inner = outer)
    (hsame : rethrow r outer = outer) (n : Nat) :
    (nested r bus (remote service result) (n + 1) client).2 = .error outer := by
  have hconnected := connect_of_iface bus (iface_of_connect hc)
  -- the innermost command rethrows what the daemon raised, the others what that one raises
  have hinside : ∀ n, nested r bus (remote service result) (n + 1) client' = (client', .error outer) := by
    intro n
    induction n with
    | zero => simp only [nested, command, hconnected, remote, hinner, houter]
    | succ n ih =>
      rw [nested, command, hconnected]
      simp only [ih, hsame]
  rw [nested, command, hc]
  cases n with
  | zero => simp only [nested, remote, hinner, houter]
  | succ n => simp only [hinside, hsame]

/-- Through any number of commands, the caller gets an error of the daemon with its class and its data or text,
and for any other `DBusError` an `UnknownError` with the text. -/
theorem nested_raises (r : Registry) {bus : Bus} {client client' : State} (hc : connect bus client = .ok client')
    (service : Raised → String × String) (α : Type) (n : Nat) :
    (∀ cls ∈ r.errors, ∀ data : Json, data.unique = true →
      (nested r bus (remote service (excWrap (α := α) (.error (.error cls data)))) (n + 1) client).2 =
        .error (.error cls data) ∧
      (nested r bus (remote service (excAwrap (α := α) (.error (.error cls data)))) (n + 1) client).2 =
        .error (.error cls data)) ∧
    (∀ cls ∈ r.helperErrors, ∀ text, text ≠ "" →
      (nested r bus (remote service (.error (α := α) (.helperError cls text))) (n + 1) client).2 =
        .error (.helperError cls text)) ∧
    ∀ type text, r.Foreign type →
      (nested r bus (remote service (.error (α := α) (.dbusError type text))) (n + 1) client).2 =
        .error (.error unknownError (.obj [("text", .str text)])) := by
  refine ⟨?_, ?_, ?_⟩
  · intro cls hcls data hdata
    have hwrap : (nested r bus (remote service (excWrap (α := α) (.error (.error cls data)))) (n + 1) client).2 =
        .error (.error cls data) := by
      apply nested_error hc rfl
      · exact r.rethrow_reraise hcls hdata
      · exact r.rethrow_error cls data
    exact ⟨hwrap, hwrap⟩
  · intro cls hcls text ht
    apply nested_error hc rfl
    · exact r.rethrow_helperError hcls ht rfl
    · exact r.rethrow_helperError hcls ht rfl
  · intro type text htype
    apply nested_error hc rfl
    · exact r.rethrow_foreign htype text
    · rfl

def lockHeldError : ClassName := ⟨"LockHeldError", by decide⟩

def transientError : HelperClass := ⟨⟨"TransientError", by decide⟩, some "A transient error occurred"⟩

/-- Three commands deep, from a client that has yet to connect. -/
theorem nested_raises_registry :
    (nested registry ⟨none, none⟩ (remote (fun _ => ("", ""))
      (excWrap (α := Unit) (.error (.error lockHeldError (.obj [("pid", .num 1)]))))) 3 ⟨false⟩).2 =
        .error (.error lockHeldError (.obj [("pid", .num 1)])) ∧
    (nested registry ⟨none, none⟩ (remote (fun _ => ("", ""))
      (.error (α := Unit) (.helperError transientError "busy"))) 3 ⟨false⟩).2 =
        .error (.helperError transientError "busy") ∧
    (nested registry ⟨none, none⟩ (remote (fun _ => ("", ""))
      (.error (α := Unit) (.dbusError "org.freedesktop.DBus.Error.Failed" "busy"))) 3 ⟨false⟩).2 =
        .error (.error unknownError (.obj [("text", .str "busy")])) := by
  have hc : connect ⟨none, none⟩ ⟨false⟩ = .ok ⟨true⟩ := rfl
  have h := nested_raises registry hc (fun _ => ("", "")) Unit 2
  refine ⟨(h.1 lockHeldError (by decide) _ (by decide +kernel)).1, h.2.1 transientError (by decide) _ (by decide), ?_⟩
  apply h.2.2
  unfold Registry.Foreign
  decide

end LogSubmitter.Client

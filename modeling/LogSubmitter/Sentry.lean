import LogSubmitter.Json.Ascii
import LogSubmitter.Json.Float
import LogSubmitter.Lib.Framed
import Mathlib.Data.List.Basic
/-!
# Sentry events

`SentryEvent.seal` makes the event and its envelope from what the caller has set.
Dicts and lists are objects that can be shared, so they are kept in a heap: `seal`
changes its own copies of the caller's `tags`, `fingerprint` and `extra`.
-/
namespace LogSubmitter.Sentry

open Lib Json

/-! ## Objects -/

/-- The place of a dict or a list in the heap. -/
abbrev Ref := Nat

/-- All dicts and lists made so far. -/
abbrev Heap := List Json

def Heap.read (heap : Heap) (ref : Ref) : Json := heap[ref]?.getD .null

structure Attachment where
  data : List UInt8
  filename : Option String
  mimeType : Option String
  deriving DecidableEq

/-- A value in the dict `_event`: one of its own, an object, or a dict with a list under `values`. -/
inductive Item where
  | value (v : Json)
  | object (ref : Ref)
  | values (ref : Ref)

/-- What the caller sets, but for dicts and lists that are shared. -/
structure Settings where
  eventId : String
  dsn : String
  appid : Option Int
  attachments : List Attachment
  timestamp : Option FloatText
  environment : Option String
  message : Option String
  osBuild : Option String
  version : Option String
  architecture : String

/-- The attributes of a `SentryEvent`. The envelope is compressed. -/
structure SentryEvent extends Settings where
  exceptions : Ref
  tags : Ref
  fingerprint : Ref
  extra : Ref
  event : List (String × Item)
  rawEnvelope : Option (List UInt8)

/-- An event with its objects. -/
structure State where
  heap : Heap
  self : SentryEvent
  valid : ∀ ref ∈ [self.exceptions, self.tags, self.fingerprint, self.extra], ref < heap.length

/-- What the caller has set, with the dicts and lists. -/
structure Caller extends Settings where
  exceptions : Json
  tags : Json
  fingerprint : Json
  extra : Json

def State.caller (s : State) : Caller where
  toSettings := s.self.toSettings
  exceptions := s.heap.read s.self.exceptions
  tags := s.heap.read s.self.tags
  fingerprint := s.heap.read s.self.fingerprint
  extra := s.heap.read s.self.extra

/-! ## The local copies -/

/-- What the machine answers during a call: the time, `__version__`, and `util`. -/
structure Env where
  sentAt : String
  slsVersion : String
  getAppName : Int → Option String
  telemetryUnitId : Option String
  /-- `get_dmi_info`, `none` where it raises. -/
  dmiInfo : Option (List (String × String))

/-- The local variables `tags`, `fingerprint` and `extra`. -/
inductive Local where
  | tags
  | fingerprint
  | extra
  deriving DecidableEq

/-- A statement that changes a local dict or list. -/
structure Assign where
  target : Local
  change : Json → Json

/-- `d[key] = v` -/
def setItem (key : String) (v : Json) : Json → Json
  | .obj fields => .obj (Assoc.set key v fields)
  | d => d

/-- `if text not in l: l.append(text)` -/
def appendNew (text : String) : Json → Json
  | .arr l => if .str text ∈ l then .arr l else .arr (l ++ [.str text])
  | l => l

def optional (text : Option String) : Json := text.elim .null .str

/-- An optional string that is neither `None` nor empty. -/
def nonEmpty (text : Option String) : Option String := text.filter (· ≠ "")

/-- The statements on the local copies, in order. -/
def assignments (self : Settings) (env : Env) : List Assign :=
  [⟨.extra, setItem "sls.version" (.str env.slsVersion)⟩] ++
    (self.appid.elim [] fun appid =>
      [⟨.fingerprint, appendNew ("appid:" ++ toString appid)⟩, ⟨.tags, setItem "appid" (.num appid)⟩,
        ⟨.extra, setItem "app.name" (optional (env.getAppName appid))⟩]) ++
    [⟨.tags, setItem "architecture" (.str self.architecture)⟩] ++
    ((nonEmpty self.osBuild).elim [] fun build => [⟨.tags, setItem "os_build" (.str build)⟩]) ++
    ((nonEmpty env.telemetryUnitId).elim [] fun id => [⟨.tags, setItem "unit_id" (.str id)⟩]) ++
    ((env.dmiInfo.bind (Assoc.get "product")).elim [] fun product => [⟨.tags, setItem "product" (.str product)⟩])

/-- The copies are the next objects of the heap. -/
def Local.offset : Local → Nat
  | .tags => 0
  | .fingerprint => 1
  | .extra => 2

/-- The heap with `dict(self.tags)`, `list(self.fingerprint)` and `dict(self.extra)`. -/
def copies (heap : Heap) (self : SentryEvent) : Heap :=
  heap ++ [heap.read self.tags, heap.read self.fingerprint, heap.read self.extra]

/-- The heap when all statements on the copies are done. -/
def assigned (heap : Heap) (self : SentryEvent) (env : Env) : Heap :=
  (assignments self.toSettings env).foldl (fun h a => h.modify (heap.length + a.target.offset) a.change)
    (copies heap self)

/-- With `list(self.exceptions)`, if there are any. -/
def sealHeap (heap : Heap) (self : SentryEvent) (env : Env) : Heap :=
  let h := assigned heap self env
  if (h.read self.exceptions).truthy then h ++ [h.read self.exceptions] else h

/-! ## The event -/

/-- `self.timestamp or self._sent_at` -/
def timestampOr (timestamp : Option FloatText) (sentAt : String) : Json :=
  match timestamp with
  | some t => if t.isZero then .str sentAt else .float t
  | none => .str sentAt

/-- `self._event`, in the order of its keys. -/
def eventItems (heap : Heap) (self : SentryEvent) (env : Env) : List (String × Item) :=
  let h := assigned heap self env
  let text (key : String) (t : Option String) : List (String × Item) :=
    (nonEmpty t).elim [] fun t => [(key, .value (.str t))]
  let object (key : String) (l : Local) : List (String × Item) :=
    if (h.read (heap.length + l.offset)).truthy then [(key, .object (heap.length + l.offset))] else []
  [("event_id", .value (.str self.eventId)), ("timestamp", .value (timestampOr self.timestamp env.sentAt)),
      ("platform", .value (.str "native"))] ++
    text "release" self.version ++ text "message" self.message ++ text "environment" self.environment ++
    ((nonEmpty env.telemetryUnitId).elim [] fun id => [("user", .value (.obj [("id", .str id)]))]) ++
    object "tags" .tags ++ object "fingerprint" .fingerprint ++ object "extra" .extra ++
    if (h.read self.exceptions).truthy then [("exception", .values h.length)] else []

/-- The value of an item. -/
def Item.json (heap : Heap) : Item → Json
  | .value v => v
  | .object ref => heap.read ref
  | .values ref => .obj [("values", heap.read ref)]

/-- What is posted of `_event`. -/
def State.event (s : State) : Json := .obj (s.self.event.map fun p => (p.1, p.2.json s.heap))

/-! ## The envelope -/

/-- The header line. -/
def header (eventId dsn sentAt : String) : Json :=
  .obj [("dsn", .str dsn), ("event_id", .str eventId), ("sent_at", .str sentAt)]

def attachmentInfo (a : Attachment) : Json :=
  .obj ([("type", .str "attachment"), ("length", .num a.data.length)] ++
    (a.mimeType.elim [] fun m => [("content_type", .str m)]) ++ (a.filename.elim [] fun n => [("filename", .str n)]))

/-- `length` in an item's header. -/
def lengthOf : Json → Option Nat
  | .obj fields =>
    match Assoc.get "length" fields with
    | some (.num n) => if 0 ≤ n then some n.toNat else none
    | _ => none
  | _ => none

/-- A line is a JSON text in bytes. -/
def format : Framed.Format UInt8 Json where
  newline := 10
  write j := encode (dumps j)
  read line := (decode line).bind loads
  size := lengthOf

/-- The bytes written to the envelope. -/
def envelope (self : Settings) (sentAt : String) : List UInt8 :=
  if self.attachments = [] then []
  else format.line (header self.eventId self.dsn sentAt) ++
    self.attachments.flatMap fun a => format.item (attachmentInfo a, a.data)

/-- `gzip`, which loses nothing. -/
structure Gzip where
  compress : List UInt8 → List UInt8
  decompress : List UInt8 → List UInt8
  lossless : ∀ bytes, decompress (compress bytes) = bytes

/-- The attachment of an item. -/
def toAttachment (p : Json × List UInt8) : Option Attachment :=
  let text (fields : List (String × Json)) (key : String) : Option String :=
    match Assoc.get key fields with
    | some (.str t) => some t
    | _ => none
  match p.1 with
  | .obj fields =>
    if Assoc.get "type" fields = some (.str "attachment") then
      some { data := p.2, filename := text fields "filename", mimeType := text fields "content_type" }
    else none
  | _ => none

/-- The header and the attachments of an envelope. Only lengths say where an attachment ends. -/
def readEnvelope (bytes : List UInt8) : Option (Json × List Attachment) :=
  match format.readHeader bytes with
  | none => none
  | some (h, rest) =>
    match format.readItems rest.length rest with
    | none => none
    | some items => (items.mapM toAttachment).map fun attachments => (h, attachments)

/-! ## `seal` -/

/-- The local copies as values. -/
def localsOf (c : Caller) (env : Env) : Local → Json :=
  (assignments c.toSettings env).foldl (fun l a => Function.update l a.target (a.change (l a.target)))
    fun | .tags => c.tags | .fingerprint => c.fingerprint | .extra => c.extra

def layout (l : Local → Json) : Heap := [l .tags, l .fingerprint, l .extra]

theorem modify_append (heap new : Heap) (k : Nat) (f : Json → Json) :
    (heap ++ new).modify (heap.length + k) f = heap ++ new.modify k f := by
  induction heap with
  | nil => rw [List.length_nil, Nat.zero_add, List.nil_append, List.nil_append]
  | cons v heap ih =>
    rw [List.length_cons, Nat.add_right_comm, List.cons_append, List.modify_succ_cons, ih, List.cons_append]

theorem modify_layout (heap : Heap) (l : Local → Json) (a : Assign) :
    (heap ++ layout l).modify (heap.length + a.target.offset) a.change =
      heap ++ layout (Function.update l a.target (a.change (l a.target))) := by
  rw [modify_append]
  cases a.target <;> rfl

/-- The statements change the copies only. -/
theorem assigned_eq (s : State) (env : Env) :
    assigned s.heap s.self env = s.heap ++ layout (localsOf s.caller env) := by
  unfold assigned localsOf copies
  generalize hl : (fun | .tags => s.caller.tags | .fingerprint => s.caller.fingerprint | .extra => s.caller.extra :
    Local → Json) = l
  have hcopies : [s.heap.read s.self.tags, s.heap.read s.self.fingerprint, s.heap.read s.self.extra] = layout l := by
    rw [← hl]
    rfl
  rw [hcopies]
  show List.foldl _ _ (assignments s.self.toSettings env) =
    s.heap ++ layout (List.foldl _ l (assignments s.self.toSettings env))
  generalize assignments s.self.toSettings env = statements
  clear hl hcopies
  induction statements generalizing l with
  | nil => rfl
  | cons a statements ih => rw [List.foldl_cons, List.foldl_cons, modify_layout, ih]

theorem sealHeap_eq (s : State) (env : Env) : ∃ new, sealHeap s.heap s.self env =
    s.heap ++ layout (localsOf s.caller env) ++ new ∧
      (s.caller.exceptions.truthy = true → new = [s.caller.exceptions]) := by
  have hread : (s.heap ++ layout (localsOf s.caller env)).read s.self.exceptions = s.caller.exceptions := by
    rw [Heap.read, List.getElem?_append_left (s.valid _ (by simp))]
    rfl
  unfold sealHeap
  simp only [assigned_eq, hread]
  split
  · exact ⟨_, rfl, fun _ => rfl⟩
  · rename_i h
    exact ⟨[], (List.append_nil _).symm, fun ht => absurd ht h⟩

/-- The heap only grows. -/
theorem heap_grows (s : State) (env : Env) : s.heap <+: sealHeap s.heap s.self env := by
  obtain ⟨new, h, -⟩ := sealHeap_eq s env
  rw [h, List.append_assoc]
  exact List.prefix_append _ _

/-- `seal`. An empty envelope is thrown away. -/
def State.seal (gzip : Gzip) (s : State) (env : Env) : State where
  heap := sealHeap s.heap s.self env
  self := { s.self with
    event := eventItems s.heap s.self env
    rawEnvelope :=
      let bytes := envelope s.self.toSettings env.sentAt
      if bytes = [] then none else some (gzip.compress bytes) }
  valid := fun ref h => (s.valid ref h).trans_le (heap_grows s env).length_le

/-- What the caller has set stays as it is. -/
theorem caller_seal (gzip : Gzip) (s : State) (env : Env) : (State.seal gzip s env).caller = s.caller := by
  have hread : ∀ ref ∈ [s.self.exceptions, s.self.tags, s.self.fingerprint, s.self.extra],
      (sealHeap s.heap s.self env).read ref = s.heap.read ref := by
    intro ref h
    obtain ⟨new, hnew⟩ := heap_grows s env
    rw [← hnew, Heap.read, List.getElem?_append_left (s.valid ref h)]
    rfl
  have hself : (State.seal gzip s env).caller = {
      toSettings := s.self.toSettings
      exceptions := (sealHeap s.heap s.self env).read s.self.exceptions
      tags := (sealHeap s.heap s.self env).read s.self.tags
      fingerprint := (sealHeap s.heap s.self env).read s.self.fingerprint
      extra := (sealHeap s.heap s.self env).read s.self.extra } := rfl
  rw [hself, hread _ (by simp), hread _ (by simp), hread _ (by simp), hread _ (by simp)]
  rfl

/-! ## The event as a value -/

/-- The event of what the caller has set. -/
def eventOf (c : Caller) (env : Env) : Json :=
  let text (key : String) (t : Option String) : List (String × Json) := (nonEmpty t).elim [] fun t => [(key, .str t)]
  let object (key : String) (v : Json) : List (String × Json) := if v.truthy then [(key, v)] else []
  .obj ([("event_id", .str c.eventId), ("timestamp", timestampOr c.timestamp env.sentAt),
      ("platform", .str "native")] ++
    text "release" c.version ++ text "message" c.message ++ text "environment" c.environment ++
    ((nonEmpty env.telemetryUnitId).elim [] fun id => [("user", .obj [("id", .str id)])]) ++
    object "tags" (localsOf c env .tags) ++ object "fingerprint" (localsOf c env .fingerprint) ++
    object "extra" (localsOf c env .extra) ++
    if c.exceptions.truthy then [("exception", .obj [("values", c.exceptions)])] else [])

section
variable (heap : Heap)

theorem map_text (f : String → Json) (key : String) (t : Option String) :
    (t.elim [] fun t => [(key, Item.value (f t))]).map (fun p => (p.1, p.2.json heap)) =
      t.elim [] fun t => [(key, f t)] := by
  cases t <;> rfl

theorem map_object (key : String) (c : Bool) (ref : Ref) :
    (if c then [(key, Item.object ref)] else []).map (fun p => (p.1, p.2.json heap)) =
      if c then [(key, heap.read ref)] else [] := by
  cases c <;> rfl

theorem map_values (key : String) (c : Bool) (ref : Ref) :
    (if c then [(key, Item.values ref)] else []).map (fun p => (p.1, p.2.json heap)) =
      if c then [(key, Json.obj [("values", heap.read ref)])] else [] := by
  cases c <;> rfl

end

/-- The event that is posted depends on nothing else. -/
theorem event_seal (gzip : Gzip) (s : State) (env : Env) : (State.seal gzip s env).event = eventOf s.caller env := by
  obtain ⟨new, hheap, hnew⟩ := sealHeap_eq s env
  -- The locals of the call are new on the heap, after the caller's values.
  have hlocal : ∀ l : Local,
      (sealHeap s.heap s.self env).read (s.heap.length + l.offset) = localsOf s.caller env l := by
    intro l
    rw [hheap, Heap.read, List.append_assoc, List.getElem?_append_right (Nat.le_add_right _ _), Nat.add_sub_cancel_left]
    cases l <;> rfl
  have hlocal' : ∀ l : Local,
      (assigned s.heap s.self env).read (s.heap.length + l.offset) = localsOf s.caller env l := by
    intro l
    rw [assigned_eq, Heap.read, List.getElem?_append_right (Nat.le_add_right _ _), Nat.add_sub_cancel_left]
    cases l <;> rfl
  have hexc : (assigned s.heap s.self env).read s.self.exceptions = s.caller.exceptions := by
    rw [assigned_eq, Heap.read, List.getElem?_append_left (s.valid _ (by simp))]
    rfl
  have hvalues : s.caller.exceptions.truthy = true →
      (sealHeap s.heap s.self env).read (assigned s.heap s.self env).length = s.caller.exceptions := by
    intro h
    rw [hheap, assigned_eq, hnew h, Heap.read, List.getElem?_append_right (Nat.le_refl _), Nat.sub_self]
    rfl
  show Json.obj ((eventItems s.heap s.self env).map fun p => (p.1, p.2.json (sealHeap s.heap s.self env))) = _
  simp only [eventItems, eventOf, List.map_append, map_text, map_object, map_values, hlocal, hlocal', hexc]
  by_cases h : s.caller.exceptions.truthy = true
  · rw [hvalues h]
    rfl
  · simp only [h, Bool.false_eq_true, if_false]
    rfl

/-- An object without a field. -/
def without (key : String) : Json → Json
  | .obj fields => .obj (fields.filter fun p => p.1 ≠ key)
  | v => v

/-- Only the field `timestamp` says when the event was sent. -/
theorem eventOf_sentAt (c : Caller) (env : Env) (t : String) :
    without "timestamp" (eventOf c { env with sentAt := t }) = without "timestamp" (eventOf c env) := by
  simp only [eventOf, without, List.filter_append]
  rfl

/-! ## The envelope can be read -/

theorem writes_of_unique {v : Json} (h : unique v = true) : format.Writes v where
  one_line := newline_not_mem_encode (printable_dumps v)
  read := by
    show (decode (encode (dumps v))).bind loads = some v
    rw [decode_encode, Option.bind_some, loads_dumps h]

theorem unique_attachmentInfo (a : Attachment) : unique (attachmentInfo a) = true := by
  obtain ⟨data, filename, mimeType⟩ := a
  cases filename <;> cases mimeType <;> rfl

theorem lengthOf_attachmentInfo (a : Attachment) : lengthOf (attachmentInfo a) = some a.data.length := by
  unfold attachmentInfo lengthOf
  have hget : ∀ l : List (String × Json), Assoc.get "length" ([("type", .str "attachment"),
      ("length", Json.num a.data.length)] ++ l) = some (.num a.data.length) := fun l => rfl
  simp only [List.append_assoc, hget]
  simp

theorem toAttachment_attachmentInfo (a : Attachment) : toAttachment (attachmentInfo a, a.data) = some a := by
  obtain ⟨data, filename, mimeType⟩ := a
  cases filename <;> cases mimeType <;> rfl

theorem mapM_toAttachment (l : List Attachment) :
    (l.map fun a => (attachmentInfo a, a.data)).mapM toAttachment = some l := by
  induction l with
  | nil => rfl
  | cons a l ih => rw [List.map_cons, List.mapM_cons, toAttachment_attachmentInfo, ih]; rfl

/-- A reader is in step with the writer, as each item is as long as it says. -/
theorem readEnvelope_envelope {self : Settings} (h : self.attachments ≠ []) (sentAt : String) :
    readEnvelope (envelope self sentAt) = some (header self.eventId self.dsn sentAt, self.attachments) := by
  generalize hitems : (self.attachments.map fun a => (attachmentInfo a, a.data)) = items
  have hmap : self.attachments.flatMap (fun a => format.item (attachmentInfo a, a.data)) =
      items.flatMap format.item := by
    rw [← hitems, List.flatMap_map]
  have hw : ∀ p ∈ items, format.Writes p.1 ∧ format.size p.1 = some p.2.length := by
    intro p hp
    rw [← hitems] at hp
    obtain ⟨a, -, rfl⟩ := List.mem_map.1 hp
    exact ⟨writes_of_unique (unique_attachmentInfo a), lengthOf_attachmentInfo a⟩
  have hread := Framed.Format.readItems_items (fun p hp => (hw p hp).1) (fun p hp => (hw p hp).2)
    (Framed.Format.length_le_items format items)
  have hmapM : items.mapM toAttachment = some self.attachments := by rw [← hitems, mapM_toAttachment]
  have hheader : format.Writes (header self.eventId self.dsn sentAt) := writes_of_unique rfl
  rw [envelope, if_neg h, hmap, readEnvelope, Framed.Format.readHeader_line hheader]
  simp only [hread, hmapM, Option.map_some]

/-! ## Sealing again -/

theorem caller_seals (gzip : Gzip) (s : State) (earlier : List Env) :
    (earlier.foldl (State.seal gzip) s).caller = s.caller := by
  induction earlier generalizing s with
  | nil => rfl
  | cons env earlier ih => rw [List.foldl_cons, ih, caller_seal]

/-- The envelope of what the caller has set. -/
theorem rawEnvelope_seal (gzip : Gzip) (s : State) (env : Env) (h : s.caller.attachments ≠ []) :
    ∃ raw, (State.seal gzip s env).self.rawEnvelope = some raw ∧
      gzip.decompress raw = envelope s.caller.toSettings env.sentAt := by
  have hne : envelope s.self.toSettings env.sentAt ≠ [] := by
    rw [envelope, if_neg (show s.self.attachments ≠ [] from h)]
    simp [Framed.Format.line]
  refine ⟨gzip.compress (envelope s.self.toSettings env.sentAt), if_neg hne, ?_⟩
  exact gzip.lossless _

/-- After any number of calls a reader of the envelope finds the attachments of the
caller, whose objects are as before, and another call makes the same of them. -/
theorem attachments_read_back (gzip : Gzip) (s : State) (earlier : List Env) (env : Env)
    (h : s.caller.attachments ≠ []) (sentAt : String) :
    let sealed := State.seal gzip (earlier.foldl (State.seal gzip) s) env
    let again := State.seal gzip sealed { env with sentAt := sentAt }
    sealed.caller = s.caller ∧
      without "timestamp" again.event = without "timestamp" sealed.event ∧
      ∃ raw raw' items, sealed.self.rawEnvelope = some raw ∧ again.self.rawEnvelope = some raw' ∧
        gzip.decompress raw = format.line (header s.caller.eventId s.caller.dsn env.sentAt) ++ items ∧
        gzip.decompress raw' = format.line (header s.caller.eventId s.caller.dsn sentAt) ++ items ∧
        readEnvelope (gzip.decompress raw) =
          some (header s.caller.eventId s.caller.dsn env.sentAt, s.caller.attachments) := by
  intro sealed again
  have hcaller := caller_seals gzip s earlier
  have hsealed : sealed.caller = s.caller := (caller_seal gzip _ env).trans hcaller
  obtain ⟨raw, hraw, hbytes⟩ := rawEnvelope_seal gzip (earlier.foldl (State.seal gzip) s) env (by rw [hcaller]; exact h)
  obtain ⟨raw', hraw', hbytes'⟩ := rawEnvelope_seal gzip sealed { env with sentAt := sentAt } (by rw [hsealed]; exact h)
  rw [hcaller] at hbytes
  rw [hsealed] at hbytes'
  refine ⟨hsealed, ?_, raw, raw', _, hraw, hraw', hbytes.trans (if_neg h), hbytes'.trans (if_neg h), ?_⟩
  · rw [event_seal, event_seal, hsealed, hcaller, eventOf_sentAt]
  · rw [hbytes, readEnvelope_envelope h]

/-- An attachment with a newline and an item in it, when nothing is compressed. -/
theorem attachments_read_back_item :
    ∃ (gzip : Gzip) (s : State) (env : Env),
      s.caller.attachments = [⟨10 :: format.item (.obj [], [0]), some "a", none⟩] ∧
      ∃ raw, (State.seal gzip (State.seal gzip s env) env).self.rawEnvelope = some raw ∧
        readEnvelope (gzip.decompress raw) =
          some (header s.caller.eventId s.caller.dsn env.sentAt, s.caller.attachments) := by
  let settings : Settings :=
    { eventId := "0"
      dsn := "https://fake@dsn/0"
      appid := some 200
      attachments := [⟨10 :: format.item (.obj [], [0]), some "a", none⟩]
      timestamp := none
      environment := none
      message := none
      osBuild := none
      version := none
      architecture := "x86_64" }
  let s : State :=
    { heap := [.arr [], .obj []]
      self :=
        { toSettings := settings
          exceptions := 0
          tags := 1
          fingerprint := 0
          extra := 1
          event := []
          rawEnvelope := none }
      valid := by simp }
  let env : Env :=
    { sentAt := "2024-01-01T00:00:00+00:00"
      slsVersion := "0.4.0"
      getAppName := fun _ => none
      telemetryUnitId := none
      dmiInfo := none }
  let gzip : Gzip := ⟨id, id, fun _ => rfl⟩
  obtain ⟨-, -, raw, -, -, hraw, -, -, -, hread⟩ :=
    attachments_read_back gzip s [env] env (List.cons_ne_nil _ _) "2024-01-02T00:00:00+00:00"
  exact ⟨gzip, s, env, rfl, raw, hraw, hread⟩

end LogSubmitter.Sentry

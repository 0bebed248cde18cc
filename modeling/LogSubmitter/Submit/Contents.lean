import LogSubmitter.Submit.Logs
import LogSubmitter.Submit.Archives
import LogSubmitter.Kdump.Submit
/-!
# Which contents a helper can deal with

A log whose content raises an exception stays in pending, and is tried again in each
run. For each helper: the contents for which that does not happen.
-/
namespace LogSubmitter.Submit

open Lib Json

/-- `submit` gets to `send`, or gives the log up, or could not open it. -/
def Settles (unreadable : Prop) : Submission → Prop
  | .ok (.send _) => True
  | .ok (.result .permanentError) => True
  | .ok (.result .transientError) => unreadable
  | _ => False

theorem settles_bind {α : Type} {p : Prop} {x : Except Raised α} {f : α → Submission} :
    Settles p (x >>= f) ↔ ∃ a, x = .ok a ∧ Settles p (f a) := by
  cases x with
  | error e =>
    refine ⟨False.elim, ?_⟩
    rintro ⟨a, h, -⟩
    cases h
  | ok a =>
    refine ⟨fun h => ⟨a, rfl, h⟩, ?_⟩
    rintro ⟨b, h, hs⟩
    cases h
    exact hs

/-! ## Logs in JSON -/

/-- There is a name or an id to make the message of. -/
def Earlyoom.fits : Json → Bool
  | .obj fields => (field fields "comm").truthy || (field fields "steamappid").truthy
  | _ => false

/-- There is a type. -/
def Trace.fits : Json → Bool
  | .obj fields => (Assoc.get "type" fields).isSome
  | _ => false

/-- An element of a `MESSAGE` that is a list. -/
def Journal.byteFits : Json → Bool
  | .num n => 0 ≤ n && n < 256
  | .bool _ => true
  | _ => false

/-- Messages are texts or lists of bytes. -/
def Journal.messageFits : Json → Bool
  | .null => true
  | .str _ => true
  | .arr l => l.all byteFits
  | _ => false

def Journal.entryFits : Json → Bool
  | .obj fields => messageFits (field fields "MESSAGE")
  | _ => false

/-- A list of entries. In an empty text and in an empty object there are none either. -/
def Journal.fits : Json → Bool
  | .arr l => l.all entryFits
  | .obj fields => fields.isEmpty
  | .str s => s = ""
  | _ => false

/-! ## Metadata of archives -/

/-- `float` of it is in range, or nothing that is not caught. -/
def Gpu.timestampFits : Json → Bool
  | .num n => n.natAbs < FloatText.tooLarge
  | _ => true

/-- So is `int`. -/
def Gpu.appidFits : Json → Bool
  | .float f => f.isNaN || !f.isInfinite
  | _ => true

def Gpu.fits : Json → Bool
  | .obj fields => timestampFits (field fields "timestamp") && appidFits (field fields "appid")
  | _ => false

def Devcoredump.keys : List String := ["timestamp", "kernel", "branch", "failing_device", "driver"]

/-- No key is found in a list or in a text, from which an item could not be taken. -/
def Devcoredump.fits (log : Json) : Bool :=
  match log with
  | .obj _ => true
  | _ => keys.all fun key => match has log key with | .ok found => !found | .error _ => false

/-! ## Members of a crash dump -/

/-- The version is text. Messages are, up to where the reading of them stops. -/
def Kdump.fits (reader : Kdump.TextReader) (zname : String) (data : List UInt8) : Bool :=
  (!Kdump.isVersion zname || (decode data).isSome) &&
    (!Kdump.isDmesg zname || !(reader.read data).2 || Kdump.stopsIn (reader.read data).1)

/-! ## Files -/

def Content.suits (fits : Json → Bool) : Content → Bool
  | .undecodable => false
  | .invalid => true
  | .value log => fits log

/-- A log in JSON that cannot be opened, or has such a content. -/
def suits (fits : Json → Bool) (file : Option LogFile) : Bool := file.all fun f => f.json.suits fits

/-- Without metadata there is an exception. -/
def Gpu.suits (zip : ZipFile) (file : Option (List UInt8)) : Bool :=
  match zip with
  | .members m => (m.get? "metadata.json").any fun metadata => file.isNone || (Content.ofBytes metadata).suits Gpu.fits
  | _ => true

/-- Without metadata there is none. -/
def Devcoredump.suits (file : Option (List UInt8)) (zip : ZipFile) : Bool :=
  match zip with
  | .members m => file.isNone ||
    (m.get? "metadata.json").all fun metadata => (Content.ofBytes metadata).suits Devcoredump.fits
  | _ => true

def Kdump.suits (reader : Kdump.TextReader) (zip : ZipFile) : Bool :=
  match zip with
  | .members m => m.items.all fun q => Kdump.fits reader q.1 q.2
  | _ => true

section
variable {p : Prop} (new : Event) (fname : List Char) (data : List UInt8)

theorem Earlyoom.settles_submitLog (log : Json) :
    Settles p (Earlyoom.submitLog new fname data log) ↔ Earlyoom.fits log = true := by
  cases log with
  | obj fields =>
    show Settles p (Earlyoom.submitLog new fname data (.obj fields)) ↔
      ((field fields "comm").truthy || (field fields "steamappid").truthy) = true
    unfold Earlyoom.submitLog
    simp only [get_obj, copyItem_obj, ok_bind]
    cases (field fields "comm").truthy <;> cases (field fields "steamappid").truthy
    · exact ⟨fun h => False.elim h, fun h => absurd h (by decide)⟩
    all_goals exact ⟨fun _ => rfl, fun _ => trivial⟩
  | _ => exact ⟨False.elim, fun h => absurd h Bool.false_ne_true⟩

theorem Trace.settles_submitLog (log : Json) :
    Settles p (Trace.submitLog new data log) ↔ Trace.fits log = true := by
  cases log with
  | obj fields =>
    obtain ⟨tags, htags⟩ := copyItems_obj fields traceAttributes new.tags
    show Settles p (Trace.submitLog new data (.obj fields)) ↔ (Assoc.get "type" fields).isSome = true
    unfold Trace.submitLog
    simp only [get_obj, has_obj, item_obj, htags, ok_bind]
    cases Assoc.get "type" fields with
    | none =>
      refine ⟨?_, fun h => absurd h Bool.false_ne_true⟩
      cases (Assoc.get "executable" fields).isSome <;> cases (Assoc.get "comm" fields).isSome <;> exact False.elim
    | some type =>
      refine ⟨fun _ => rfl, fun _ => ?_⟩
      cases (Assoc.get "executable" fields).isSome <;> cases (Assoc.get "comm" fields).isSome <;> trivial
  | _ => exact ⟨False.elim, fun h => absurd h Bool.false_ne_true⟩

theorem Journal.byte_ok (v : Json) : (∃ b, Journal.byte v = .ok b ∧ True) ↔ Journal.byteFits v = true := by
  cases v with
  | num n => by_cases h : 0 ≤ n ∧ n < 256 <;> simp [Journal.byte, Journal.byteFits, h]
  | bool b => exact ⟨fun _ => rfl, fun _ => ⟨_, rfl, trivial⟩⟩
  | _ =>
    refine ⟨?_, fun h => absurd h Bool.false_ne_true⟩
    rintro ⟨b, hb, -⟩
    cases hb

/-- What an entry adds to the message, if it can be joined. -/
theorem Journal.line_ok (entry : Json) :
    (∃ line, Journal.line entry = .ok line ∧ ∀ v ∈ line, ∃ s, Journal.text v = .ok s) ↔
      Journal.entryFits entry = true := by
  cases entry with
  | obj fields =>
    unfold Journal.line
    simp only [get_obj, ok_bind]
    show _ ↔ Journal.messageFits (field fields "MESSAGE") = true
    cases field fields "MESSAGE" with
    | null => exact ⟨fun _ => rfl, fun _ => ⟨none, rfl, fun v hv => (by cases hv)⟩⟩
    | str s => exact ⟨fun _ => rfl, fun _ => ⟨_, rfl, fun v hv => (by cases hv; exact ⟨s, rfl⟩)⟩⟩
    | arr l =>
      -- A list is a `MESSAGE` in bytes.
      show _ ↔ l.all Journal.byteFits = true
      rw [List.all_eq_true]
      simp only [← Journal.byte_ok]
      rw [← mapM_ok]
      constructor
      · rintro ⟨line, h, -⟩
        obtain ⟨bytes, hb, -⟩ := bind_ok.1 ⟨line, h⟩
        exact ⟨bytes, hb, fun _ _ => trivial⟩
      · rintro ⟨bytes, hb, -⟩
        refine ⟨_, by rw [hb]; rfl, ?_⟩
        intro v hv
        cases hv
        exact ⟨_, rfl⟩
    | _ =>
      -- Any other value is added as it is, and `join` raises.
      refine ⟨?_, fun h => absurd h Bool.false_ne_true⟩
      rintro ⟨line, h, ht⟩
      cases h
      obtain ⟨s, hs⟩ := ht _ rfl
      cases hs
  | _ =>
    refine ⟨?_, fun h => absurd h Bool.false_ne_true⟩
    rintro ⟨line, h, -⟩
    cases h

/-- A message can be joined if it has only texts. -/
theorem Journal.join_ok (unit : String) (lines : List (Option Json)) :
    (∃ m, Journal.join (.str unit :: lines.filterMap id) = .ok m) ↔
      ∀ line ∈ lines, ∀ v ∈ line, ∃ s, Journal.text v = .ok s := by
  have hmap : (∃ m, Journal.join (.str unit :: lines.filterMap id) = .ok m) ↔
      ∃ ss, (Json.str unit :: lines.filterMap id).mapM Journal.text = .ok ss ∧ ∀ s ∈ ss, True := by
    unfold Journal.join
    cases (Json.str unit :: lines.filterMap id).mapM Journal.text with
    | error e =>
      constructor
      · rintro ⟨m, h⟩
        cases h
      · rintro ⟨ss, h, -⟩
        cases h
    | ok ss => exact ⟨fun _ => ⟨ss, rfl, fun _ _ => trivial⟩, fun _ => ⟨_, rfl⟩⟩
  rw [hmap, mapM_ok, List.forall_mem_cons]
  constructor
  · rintro ⟨-, h⟩ line hl v hv
    obtain ⟨s, hs, -⟩ := h v (List.mem_filterMap.2 ⟨line, hl, hv⟩)
    exact ⟨s, hs⟩
  · intro h
    refine ⟨⟨unit, rfl, trivial⟩, fun v hv => ?_⟩
    obtain ⟨line, hl, hv⟩ := List.mem_filterMap.1 hv
    obtain ⟨s, hs⟩ := h line hl v hv
    exact ⟨s, hs, trivial⟩

/-- Nothing is raised if nothing is for any entry. -/
theorem Journal.settles_entries (log : Json) : Settles p (Journal.submitLog new fname data log) ↔
    ∃ es, Journal.entries log = .ok es ∧ ∀ e ∈ es, Journal.entryFits e = true := by
  unfold Journal.submitLog
  simp only [settles_bind, ← Journal.line_ok, ← mapM_ok, ← Journal.join_ok (unescape (Str.beforeLast ' ' (stem fname)))]
  constructor
  · rintro ⟨es, hes, lines, hlines, message, hjoin, -⟩
    exact ⟨es, hes, lines, hlines, message, hjoin⟩
  · rintro ⟨es, hes, lines, hlines, message, hjoin⟩
    exact ⟨es, hes, lines, hlines, message, hjoin, trivial⟩

theorem Journal.settles_submitLog (log : Json) :
    Settles p (Journal.submitLog new fname data log) ↔ Journal.fits log = true := by
  rw [Journal.settles_entries]
  cases log with
  | arr l =>
    show (∃ es, Except.ok l = .ok es ∧ _) ↔ l.all Journal.entryFits = true
    simp
  | obj fields =>
    show (∃ es, Except.ok (fields.map _) = .ok es ∧ _) ↔ fields.isEmpty = true
    cases fields <;> simp [Journal.entryFits]
  | str s =>
    show (∃ es, Except.ok (s.toList.map _) = .ok es ∧ _) ↔ decide (s = "") = true
    rw [decide_eq_true_eq, ← String.toList_eq_nil_iff]
    cases s.toList <;> simp [Journal.entryFits]
  | _ =>
    refine ⟨?_, fun h => absurd h Bool.false_ne_true⟩
    rintro ⟨es, h, -⟩
    cases h

theorem Gpu.timestamp_ok (v : Json) : (∃ t, passed (float v) = .ok t) ↔ Gpu.timestampFits v = true := by
  cases v with
  | num n =>
    by_cases h : FloatText.tooLarge ≤ n.natAbs
    · simp [float, passed, Gpu.timestampFits, h]
    · simp [float, passed, Gpu.timestampFits, h, Nat.lt_of_not_le h]
  | str s => cases h : Str.isFloat s <;> simp [float, passed, Gpu.timestampFits, h]
  | _ => exact ⟨fun _ => rfl, fun _ => ⟨_, rfl⟩⟩

theorem Gpu.appid_ok (v : Json) : (∃ n, passed (int v) = .ok n) ↔ Gpu.appidFits v = true := by
  cases v with
  | float f => cases h : f.isNaN <;> cases h' : f.isInfinite <;> simp [int, passed, Gpu.appidFits, h, h']
  | str s => cases h : Str.int s <;> simp [int, passed, Gpu.appidFits, h]
  | _ => exact ⟨fun _ => rfl, fun _ => ⟨_, rfl⟩⟩

/-- A key that is missing is no error, and neither is `None` in its place. -/
theorem Gpu.converted_ok {α : Type} {f : Json → Except Raised α} (hf : f .null = .error .typeError)
    (fields : List (String × Json)) (key : String) :
    (∃ t, Gpu.converted f (.obj fields) key = .ok t) ↔ ∃ t, passed (f (field fields key)) = .ok t := by
  unfold Gpu.converted field
  simp only [has_obj, item_obj, ok_bind]
  cases Assoc.get key fields with
  | none => simp [hf, passed, pure, Except.pure]
  | some v => simp

theorem Gpu.settles_submitLog (metadata attachment : List UInt8) (log : Json) :
    Settles p (Gpu.submitLog new fname metadata attachment log) ↔ Gpu.fits log = true := by
  cases log with
  | obj fields =>
    show _ ↔ (Gpu.timestampFits (field fields "timestamp") && Gpu.appidFits (field fields "appid")) = true
    rw [Bool.and_eq_true, ← Gpu.timestamp_ok, ← Gpu.appid_ok, ← Gpu.converted_ok rfl, ← Gpu.converted_ok rfl]
    unfold Gpu.submitLog
    simp only [get_obj, ok_bind, settles_bind]
    constructor
    · rintro ⟨timestamp, ht, appid, ha, -⟩
      exact ⟨⟨timestamp, ht⟩, appid, ha⟩
    · rintro ⟨⟨timestamp, ht⟩, appid, ha⟩
      exact ⟨timestamp, ht, appid, ha, trivial⟩
  | _ =>
    refine ⟨?_, fun h => absurd h Bool.false_ne_true⟩
    unfold Gpu.submitLog
    simp only [settles_bind]
    rintro ⟨timestamp, -, appid, -, executable, h, -⟩
    cases h

/-- Nothing can be taken from a list or a text. -/
theorem Devcoredump.settles_of_no_items {log : Json} {found : String → Bool}
    (hhas : ∀ key, has log key = .ok (found key)) (hitem : ∀ key, item log key = .error .typeError)
    (attachment metadata : List UInt8) :
    Settles p (Devcoredump.submitLog new fname attachment metadata log) ↔
      (Devcoredump.keys.all fun key => !found key) = true := by
  unfold Devcoredump.submitLog Devcoredump.keys
  simp only [hhas, hitem, ok_bind, copyItem, List.foldlM_cons, List.foldlM_nil, List.all_cons, List.all_nil]
  -- The first key that is found raises.
  cases found "timestamp" with
  | true => exact ⟨False.elim, fun h => absurd h Bool.false_ne_true⟩
  | false =>
    cases found "kernel" with
    | true => exact ⟨False.elim, fun h => absurd h Bool.false_ne_true⟩
    | false =>
      cases found "branch" with
      | true => exact ⟨False.elim, fun h => absurd h Bool.false_ne_true⟩
      | false =>
        cases found "failing_device" with
        | true => exact ⟨False.elim, fun h => absurd h Bool.false_ne_true⟩
        | false =>
          cases found "driver" with
          | true => exact ⟨False.elim, fun h => absurd h Bool.false_ne_true⟩
          | false => exact ⟨fun _ => rfl, fun _ => trivial⟩

theorem Devcoredump.settles_submitLog (attachment metadata : List UInt8) (log : Json) :
    Settles p (Devcoredump.submitLog new fname attachment metadata log) ↔ Devcoredump.fits log = true := by
  cases log with
  | obj fields =>
    refine ⟨fun _ => rfl, fun _ => ?_⟩
    obtain ⟨tags, htags⟩ := copyItems_obj fields ["kernel", "branch", "failing_device", "driver"] new.tags
    unfold Devcoredump.submitLog
    simp only [has_obj, item_obj, htags]
    cases Assoc.get "timestamp" fields <;> cases Assoc.get "driver" fields <;>
      cases Assoc.get "failing_device" fields <;> trivial
  | arr l =>
    have hhas : ∀ key, has (.arr l) key = .ok (l.any (isText key)) := fun _ => rfl
    exact Devcoredump.settles_of_no_items new fname hhas (fun _ => rfl) attachment metadata
  | str s =>
    have hhas : ∀ key, has (.str s) key = .ok (Str.contains key s.toList) := fun _ => rfl
    exact Devcoredump.settles_of_no_items new fname hhas (fun _ => rfl) attachment metadata
  | _ =>
    unfold Devcoredump.submitLog
    exact ⟨False.elim, fun h => absurd h Bool.false_ne_true⟩

theorem Kdump.setKernel_ok (event : Event) : (∃ event', Kdump.setKernel data event = .ok event') ↔
    (decode data).isSome = true := by
  unfold Kdump.setKernel
  cases decode data with
  | none =>
    refine ⟨?_, fun h => absurd h Bool.false_ne_true⟩
    rintro ⟨event', h⟩
    cases h
  | some text => exact ⟨fun _ => rfl, fun _ => ⟨_, rfl⟩⟩

section
variable (alphabet : Kdump.Alphabet) (reader : Kdump.TextReader)

theorem Kdump.dmesg_ok (s : Kdump.Progress) : (∃ s', Kdump.Progress.dmesg alphabet reader s data = .ok s') ↔
    (!(reader.read data).2 || Kdump.stopsIn (reader.read data).1) = true := by
  unfold Kdump.Progress.dmesg
  cases (reader.read data).2 <;> cases Kdump.stopsIn (reader.read data).1
  case true.false =>
    refine ⟨?_, fun h => absurd h Bool.false_ne_true⟩
    rintro ⟨s', h⟩
    cases h
  all_goals exact ⟨fun _ => rfl, fun _ => ⟨_, rfl⟩⟩

/-- Whether a member raises does not depend on those before it. -/
theorem Kdump.member_ok (s : Kdump.Progress) (zname : String) :
    (∃ s', Kdump.Progress.member alphabet reader s zname data = .ok s') ↔ Kdump.fits reader zname data = true := by
  unfold Kdump.Progress.member Kdump.fits
  rw [Bool.and_eq_true]
  cases Kdump.isVersion zname <;> cases Kdump.isDmesg zname
  · exact ⟨fun _ => ⟨rfl, rfl⟩, fun _ => ⟨_, rfl⟩⟩
  · exact (Kdump.dmesg_ok data alphabet reader _).trans ⟨fun h => ⟨rfl, h⟩, And.right⟩
  · refine bind_ok.trans ⟨fun h => ?_, fun h => ?_⟩
    · obtain ⟨event, he, -⟩ := h
      exact ⟨(Kdump.setKernel_ok data _).1 ⟨event, he⟩, rfl⟩
    · obtain ⟨event, he⟩ := (Kdump.setKernel_ok data _).2 h.1
      exact ⟨event, he, _, rfl⟩
  · refine bind_ok.trans ⟨fun h => ?_, fun h => ?_⟩
    · obtain ⟨event, he, h⟩ := h
      exact ⟨(Kdump.setKernel_ok data _).1 ⟨event, he⟩, (Kdump.dmesg_ok data alphabet reader _).1 h⟩
    · obtain ⟨event, he⟩ := (Kdump.setKernel_ok data _).2 h.1
      exact ⟨event, he, (Kdump.dmesg_ok data alphabet reader _).2 h.2⟩

theorem Kdump.settles_finish {s : Kdump.Progress} (ht : (Kdump.parseTime (Kdump.timeText fname)).isSome = true) :
    Settles p (s.finish fname data) := by
  obtain ⟨t, ht⟩ := Option.isSome_iff_exists.1 ht
  unfold Kdump.Progress.finish
  split
  · trivial
  · rw [ht]
    trivial

end

/-! ## Each helper -/

theorem settles_suits {submitLog : List UInt8 → Json → Submission} {fits : Json → Bool} {q : Prop}
    (h : ∀ data log, Settles q (submitLog data log) ↔ fits log = true) (f : LogFile) :
    Settles q (match f.json with
      | .undecodable => .error .unicodeDecodeError
      | .invalid => permanentError
      | .value log => submitLog f.data log) ↔ f.json.suits fits = true := by
  cases f.json with
  | undecodable => exact ⟨False.elim, fun h => absurd h Bool.false_ne_true⟩
  | invalid => exact ⟨fun _ => rfl, fun _ => trivial⟩
  | value log => exact h f.data log

theorem Earlyoom.settles_submit (file : Option LogFile) :
    Settles (file = none) (Earlyoom.submit new fname file) ↔ suits Earlyoom.fits file = true := by
  cases file with
  | none => exact ⟨fun _ => rfl, fun _ => rfl⟩
  | some f => exact settles_suits (Earlyoom.settles_submitLog new fname) f

theorem Trace.settles_submit (file : Option LogFile) :
    Settles (file = none) (Trace.submit new file) ↔ suits Trace.fits file = true := by
  cases file with
  | none => exact ⟨fun _ => rfl, fun _ => rfl⟩
  | some f => exact settles_suits (Trace.settles_submitLog new) f

theorem Journal.settles_submit (file : Option LogFile) :
    Settles (file = none) (Journal.submit new fname file) ↔ suits Journal.fits file = true := by
  cases file with
  | none => exact ⟨fun _ => rfl, fun _ => rfl⟩
  | some f =>
    show Settles _ (match f.json with
      | .undecodable => .error .unicodeDecodeError
      | .invalid => Journal.submitLog new fname f.data (.arr [])
      | .value log => Journal.submitLog new fname f.data log) ↔ f.json.suits Journal.fits = true
    cases f.json with
    | undecodable => exact ⟨False.elim, fun h => absurd h Bool.false_ne_true⟩
    | invalid => exact Journal.settles_submitLog new fname f.data (.arr [])
    | value log => exact Journal.settles_submitLog new fname f.data log

theorem Gpu.settles_submit (zip : ZipFile) (file : Option (List UInt8)) :
    Settles (zip = .unreadable ∨ file = none) (Gpu.submit new fname zip file) ↔ Gpu.suits zip file = true := by
  cases zip with
  | unreadable => exact ⟨fun _ => rfl, fun _ => .inl rfl⟩
  | bad => exact ⟨fun _ => rfl, fun _ => trivial⟩
  | members m =>
    unfold Gpu.submit Gpu.suits
    dsimp only
    cases m.get? "metadata.json" with
    | none => exact ⟨False.elim, fun h => absurd h Bool.false_ne_true⟩
    | some metadata =>
      cases file with
      | none => exact ⟨fun _ => rfl, fun _ => .inr rfl⟩
      | some attachment =>
        exact settles_suits (fun data log => Gpu.settles_submitLog new fname data attachment log)
          ⟨metadata, Content.ofBytes metadata⟩

theorem Devcoredump.settles_submit (file : Option (List UInt8)) (zip : ZipFile) :
    Settles (zip = .unreadable ∨ file = none) (Devcoredump.submit new fname file zip) ↔
      Devcoredump.suits file zip = true := by
  cases file with
  | none => exact ⟨fun _ => by cases zip <;> rfl, fun _ => .inr rfl⟩
  | some attachment =>
    cases zip with
    | unreadable => exact ⟨fun _ => rfl, fun _ => .inl rfl⟩
    | bad => exact ⟨fun _ => rfl, fun _ => trivial⟩
    | members m =>
      unfold Devcoredump.submit Devcoredump.suits
      dsimp only
      cases m.get? "metadata.json" with
      | none => exact ⟨fun _ => rfl, fun _ => trivial⟩
      | some metadata =>
        exact settles_suits (fun data log => Devcoredump.settles_submitLog new fname attachment data log)
          ⟨metadata, Content.ofBytes metadata⟩

theorem Kdump.settles_submit (alphabet : Kdump.Alphabet) (reader : Kdump.TextReader)
    (ht : (Kdump.parseTime (Kdump.timeText fname)).isSome = true) (zip : ZipFile) (file : Option (List UInt8)) :
    Settles (zip = .unreadable ∨ file = none) (Kdump.submit alphabet reader new fname zip file) ↔
      Kdump.suits reader zip = true := by
  cases zip with
  | unreadable => exact ⟨fun _ => rfl, fun _ => .inl rfl⟩
  | bad => exact ⟨fun _ => rfl, fun _ => trivial⟩
  | members m =>
    have hfold := foldlM_ok (fun s (q : String × List UInt8) => Kdump.member_ok q.2 alphabet reader s q.1)
      (l := m.items) { event := new }
    unfold Kdump.submit Kdump.suits
    rw [List.all_eq_true, ← hfold, settles_bind]
    constructor
    · rintro ⟨s, hs, -⟩
      exact ⟨s, hs⟩
    · rintro ⟨s, hs⟩
      refine ⟨s, hs, ?_⟩
      cases file with
      | none => exact .inr rfl
      | some attachment => exact Kdump.settles_finish fname attachment ht

/-- No content is tried again for an exception, exactly if it suits its helper. The name of a crash dump
has to end in a time stamp. -/
theorem settles_iff_suits (alphabet : Kdump.Alphabet) (reader : Kdump.TextReader) (log : Option LogFile) (zip : ZipFile)
    (file : Option (List UInt8)) :
    (Settles (log = none) (Earlyoom.submit new fname log) ↔ suits Earlyoom.fits log = true) ∧
      (Settles (log = none) (Trace.submit new log) ↔ suits Trace.fits log = true) ∧
      (Settles (log = none) (Journal.submit new fname log) ↔ suits Journal.fits log = true) ∧
      (Settles (zip = .unreadable ∨ file = none) (Gpu.submit new fname zip file) ↔ Gpu.suits zip file = true) ∧
      (Settles (zip = .unreadable ∨ file = none) (Devcoredump.submit new fname file zip) ↔
        Devcoredump.suits file zip = true) ∧
      ((Kdump.parseTime (Kdump.timeText fname)).isSome = true →
        (Settles (zip = .unreadable ∨ file = none) (Kdump.submit alphabet reader new fname zip file) ↔
          Kdump.suits reader zip = true)) :=
  ⟨Earlyoom.settles_submit new fname log, Trace.settles_submit new log, Journal.settles_submit new fname log,
    Gpu.settles_submit new fname zip file, Devcoredump.settles_submit new fname file zip,
    fun ht => Kdump.settles_submit new fname alphabet reader ht zip file⟩

end

/-- A reader that reads the whole file ahead. -/
def wholeReader : Kdump.TextReader where
  read data :=
    match decode data with
    | none => ([], true)
    | some text => (Kdump.lines (Kdump.translate text), false)
  decoded data text h := by simp [h]
  undecodable data h := by
    rw [h]
    exact ⟨rfl, 0, [], rfl, List.nil_prefix⟩

/-- The letters and digits of ASCII. -/
def ascii : Kdump.Alphabet := ⟨Char.isAlphanum, fun _ _ => rfl⟩

/-- A crash dump with a version that is text, and one with a version that is not. -/
theorem settles_crash : ∃ new fname, (Kdump.parseTime (Kdump.timeText fname)).isSome = true ∧
    Settles (ZipFile.members (Dict.empty.insert "version" [54, 10]) = .unreadable ∨ some [1] = none)
      (Kdump.submit ascii wholeReader new fname (.members (Dict.empty.insert "version" [54, 10])) (some [1])) ∧
    ¬ Settles (ZipFile.members (Dict.empty.insert "version" [255]) = .unreadable ∨ some [1] = none)
      (Kdump.submit ascii wholeReader new fname (.members (Dict.empty.insert "version" [255])) (some [1])) := by
  let new : Event := { osBuild := none, version := none }
  let fname := "kdump-202401021504.zip".toList
  have ht : (Kdump.parseTime (Kdump.timeText fname)).isSome = true := by decide +kernel
  obtain ⟨-, -, -, -, -, htext⟩ := settles_iff_suits new fname ascii wholeReader none
    (.members (Dict.empty.insert "version" [54, 10])) (some [1])
  obtain ⟨-, -, -, -, -, hbytes⟩ := settles_iff_suits new fname ascii wholeReader none
    (.members (Dict.empty.insert "version" [255])) (some [1])
  exact ⟨new, fname, ht, (htext ht).2 (by decide +kernel), fun h => absurd ((hbytes ht).1 h) (by decide +kernel)⟩

/-- The log of a process that is killed without a name and without an id, a trace without a type, a
journal that is no list, an archive without metadata, metadata that are no object and a version that is no text. -/
theorem contents_raise :
    ∃ new fname, (Kdump.parseTime (Kdump.timeText fname)).isSome = true ∧
      Earlyoom.submit new fname (some ⟨[], .value (.obj [("uid", .num 1000)])⟩) = .error .unboundLocalError ∧
      Trace.submit new (some ⟨[], .value (.obj [])⟩) = .error .keyError ∧
      Journal.submit new fname (some ⟨[], .value .null⟩) = .error .typeError ∧
      Gpu.submit new fname (.members Dict.empty) (some []) = .error .keyError ∧
      Devcoredump.submit new fname (some []) (.members (Dict.empty.insert "metadata.json" (encode "null".toList))) =
        .error .typeError ∧
      Kdump.submit ascii wholeReader new fname (.members (Dict.empty.insert "version" [255])) (some []) =
        .error .unicodeDecodeError := by
  refine ⟨{ osBuild := none, version := none }, "kdump-202401021504.zip".toList, by decide +kernel, ?_⟩
  refine ⟨rfl, rfl, rfl, rfl, ?_, ?_⟩
  · rfl
  · rfl

end LogSubmitter.Submit

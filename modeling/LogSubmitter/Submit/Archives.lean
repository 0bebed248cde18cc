import LogSubmitter.Submit
/-!
# Logs in archives

`submit` of the helpers `gpu` and `devcoredump`, whose archives have a member
`metadata.json`.
-/
namespace LogSubmitter.Submit

open Lib Json
open Runner (HelperResult)
open Sentry (Attachment)

section
variable (new : Event) (fname : List Char)

/-! ## `gpu` -/

/-- The item for a key, converted, if there is one. A `ValueError` and a `TypeError` are passed over. -/
def Gpu.converted {α : Type} (f : Json → Except Raised α) (log : Json) (key : String) : Except Raised (Option α) := do
  if ← has log key then passed (item log key >>= f) else return none

/-- What `GPUHelper.submit` keeps of the fields of a log. -/
structure Gpu.Labels where
  tags : List (String × Json) := []
  fingerprint : List FString := []
  message : Option FString

/-- `tags[key] = v`, and the same for the fingerprint. -/
def Gpu.Labels.add (l : Gpu.Labels) (key : String) (v : Json) : Gpu.Labels :=
  { l with
    tags := Assoc.set key v l.tags
    fingerprint := l.fingerprint ++ [[.text (key ++ ":"), .shown v]] }

/-- The first of the names becomes the message, if there is no id. -/
def Gpu.Labels.addName (l : Gpu.Labels) (key : String) (v : Json) : Gpu.Labels :=
  if v.truthy then
    { l.add key v with message := l.message.or (some [.text "GPU reset (", .shown v, .text ")"]) }
  else l

/-- `GPUHelper.submit`, once the metadata are parsed. -/
def Gpu.submitLog (metadata attachment : List UInt8) (log : Json) : Submission := do
  let timestamp ← Gpu.converted float log "timestamp"
  let appid ← Gpu.converted int log "appid"
  let labels : Gpu.Labels := { message := appid.map fun n => [.text "GPU reset (", .text (toString n), .text ")"] }
  let labels := labels.addName "executable" (← get log "executable")
  let labels := labels.addName "comm" (← get log "comm")
  let kernel ← get log "kernel"
  let labels := if kernel ≠ .null then labels.add "kernel" kernel else labels
  let mesa ← get log "mesa"
  let labels := if mesa.truthy then labels.add "mesa" mesa else labels
  return .send { new with
    attachments := new.attachments ++ [⟨metadata, some "metadata.json", some "application/json"⟩,
      ⟨attachment, some (basename fname), some "application/zip"⟩]
    appid := appid.elim .null .num
    timestamp := timestamp.getD .null
    tags := labels.tags
    fingerprint := labels.fingerprint
    message := .format (labels.message.getD [.text "GPU reset"]) }

/-- The archive is opened first, then the file itself. -/
def Gpu.submit (zip : ZipFile) (file : Option (List UInt8)) : Submission :=
  match zip with
  | .unreadable => transientError
  | .bad => permanentError
  | .members m =>
    match m.get? "metadata.json", file with
    | none, _ => .error .keyError
    | some _, none => transientError
    | some metadata, some attachment =>
      match Content.ofBytes metadata with
      | .undecodable => .error .unicodeDecodeError
      | .invalid => permanentError
      | .value log => Gpu.submitLog new fname metadata attachment log

/-! ## `devcoredump` -/

/-- `DevcoredumpHelper.submit`, once the metadata are parsed. -/
def Devcoredump.submitLog (attachment metadata : List UInt8) (log : Json) : Submission := do
  let timestamp ← if ← has log "timestamp" then item log "timestamp" else pure new.timestamp
  let tags ← ["kernel", "branch", "failing_device", "driver"].foldlM (copyItem log) new.tags
  let fingerprint ←
    if ← has log "driver" then pure (new.fingerprint ++ [[.text "driver:", .shown (← item log "driver")]])
    else pure new.fingerprint
  let driver ← has log "driver"
  let failingDevice ← has log "failing_device"
  let message ←
    if driver && failingDevice then
      pure [.shown (← item log "driver"), .text ": ", .shown (← item log "failing_device")]
    else if failingDevice then pure [.shown (← item log "failing_device")]
    else if driver then pure [.shown (← item log "driver")]
    else pure [.text "Unknown device"]
  return .send { new with
    attachments := new.attachments ++ [⟨attachment, some (basename fname), some "application/zip"⟩,
      ⟨metadata, some "metadata.json", some "application/json"⟩]
    timestamp := timestamp
    tags := tags
    fingerprint := fingerprint
    message := .format message }

/-- The file itself is opened first, then the archive. -/
def Devcoredump.submit (file : Option (List UInt8)) (zip : ZipFile) : Submission :=
  match file, zip with
  | none, _ => transientError
  | some _, .unreadable => transientError
  | some _, .bad => permanentError
  | some attachment, .members m =>
    match m.get? "metadata.json" with
    | none => permanentError
    | some metadata =>
      match Content.ofBytes metadata with
      | .undecodable => .error .unicodeDecodeError
      | .invalid => permanentError
      | .value log => Devcoredump.submitLog new fname attachment metadata log

end

end LogSubmitter.Submit

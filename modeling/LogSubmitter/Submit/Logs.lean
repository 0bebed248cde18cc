import LogSubmitter.Submit
/-!
# Logs in JSON

`submit` of the helpers `earlyoom`, `trace` and `journal`.
-/
namespace LogSubmitter.Submit

open Lib Json
open Runner (HelperResult)
open Sentry (Attachment)

section
variable (new : Event) (fname : List Char)

/-! ## `earlyoom` -/

/-- `EarlyoomHelper.submit`, once the log is parsed. No branch sets `message` if there is neither a name nor an id. -/
def Earlyoom.submitLog (data : List UInt8) (log : Json) : Submission := do
  let appid ← get log "steamappid"
  let tags ← copyItem log [] "uid"
  let comm ← get log "comm"
  let tags := if comm ≠ .null then Assoc.set "comm" comm tags else tags
  let fingerprint : List FString := if comm ≠ .null then [[.text "comm:", .shown comm]] else []
  let message ←
    if appid.truthy && comm.truthy then .ok (.format [.shown comm, .text " (", .shown appid, .text ")"])
    else if comm.truthy then .ok (.value comm)
    else if appid.truthy then .ok (.value appid)
    else .error .unboundLocalError
  return .send { new with
    attachments := new.attachments ++ [⟨data, some (basename fname), some "application/json"⟩]
    appid := appid
    tags := tags
    fingerprint := fingerprint
    message := message }

def Earlyoom.submit : Option LogFile → Submission
  | none => transientError
  | some file =>
    match file.json with
    | .undecodable => .error .unicodeDecodeError
    | .invalid => permanentError
    | .value log => Earlyoom.submitLog new fname file.data log

/-! ## `trace` -/

def traceAttributes : List String := ["executable", "comm", "path", "build_id", "pkgname", "pkgver"]

/-- `TraceHelper.submit`, once the log is parsed. -/
def Trace.submitLog (data : List UInt8) (log : Json) : Submission := do
  let timestamp ← get log "timestamp"
  let appid ← get log "appid"
  let tags ← traceAttributes.foldlM (copyItem log) new.tags
  let message ←
    if ← has log "executable" then
      pure (.format [.shown (← item log "type"), .text ": ", .shown (← get log "executable")])
    else if ← has log "comm" then
      pure (.format [.shown (← item log "type"), .text ": ", .shown (← get log "comm")])
    else pure (.value (← item log "type"))
  return .send { new with
    attachments := new.attachments ++ [⟨data, some "trace.json", some "application/json"⟩]
    appid := appid
    timestamp := timestamp
    tags := tags
    message := message }

def Trace.submit : Option LogFile → Submission
  | none => transientError
  | some file =>
    match file.json with
    | .undecodable => .error .unicodeDecodeError
    | .invalid => permanentError
    | .value log => Trace.submitLog new file.data log

/-! ## `journal` -/

/-- The loop of `unescape`, with the characters after an underscore. -/
def Journal.unescapeFrom : Option (Option Char) → List Char → List Char
  | _, [] => []
  | none, c :: cs => if c ≠ '_' then c :: unescapeFrom none cs else unescapeFrom (some none) cs
  | some none, c :: cs => unescapeFrom (some (some c)) cs
  | some (some a), c :: cs => ((Str.hexPair a c).bind Str.chr).toList ++ unescapeFrom none cs

def Journal.unescape (escaped : List Char) : String := String.ofList (unescapeFrom none escaped)

/-- What `for entry in log` goes through. -/
def Journal.entries : Json → Except Raised (List Json)
  | .arr l => .ok l
  | .obj fields => .ok (fields.map fun p => .str p.1)
  | .str s => .ok (s.toList.map fun c => .str (String.ofList [c]))
  | _ => .error .typeError

/-- An element of the list in `bytes(line)`. -/
def Journal.byte : Json → Except Raised UInt8
  | .num n => if 0 ≤ n ∧ n < 256 then .ok (UInt8.ofNat n.toNat) else .error .valueError
  | .bool b => .ok (if b then 1 else 0)
  | _ => .error .typeError

/-- The value that an entry adds to `message`. -/
def Journal.line (entry : Json) : Except Raised (Option Json) := do
  match ← get entry "MESSAGE" with
  | .null => return none
  | .arr l => return some (.str (String.ofList (decodeReplace (← l.mapM byte))))
  | line => return some line

/-- A text among those to join. -/
def Journal.text : Json → Except Raised String
  | .str s => .ok s
  | _ => .error .typeError

/-- `'\n'.join(message)` -/
def Journal.join (message : List Json) : Except Raised String :=
  (message.mapM Journal.text).map (String.intercalate "\n")

/-- `JournalHelper.submit`, once the log is parsed. -/
def Journal.submitLog (data : List UInt8) (log : Json) : Submission := do
  let unit := Journal.unescape (Str.beforeLast ' ' (stem fname))
  let lines ← (← Journal.entries log).mapM Journal.line
  let message ← Journal.join (.str unit :: lines.filterMap id)
  return .send { new with
    attachments := new.attachments ++ [⟨data, some (basename fname), some "application/json"⟩]
    tags := [("unit", .str unit)]
    fingerprint := [[.text "unit:", .text unit]]
    message := .value (.str message) }

/-- A journal that is no JSON is sent as it is. -/
def Journal.submit : Option LogFile → Submission
  | none => transientError
  | some file =>
    match file.json with
    | .undecodable => .error .unicodeDecodeError
    | .invalid => Journal.submitLog new fname file.data (.arr [])
    | .value log => Journal.submitLog new fname file.data log

end

end LogSubmitter.Submit

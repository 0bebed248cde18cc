import LogSubmitter.Submit
/-!
# Events that are sent again

`SentryEvent.send` makes two requests. If only the first is accepted, the log stays
in pending, and the next run sends another event for it.
-/
namespace LogSubmitter.Sentry

open Lib Json
open Runner (HelperResult Dir Dirs)
open Submit (Raised)

/-! ## `send` -/

/-- What a request comes to. -/
inductive Answer where
  | status (code : Nat) (content : List UInt8)
  | networkError
  /-- Any other exception. -/
  | raised (e : Raised)

def Answer.accepted : Answer → Bool
  | .status code _ => code = 200
  | _ => false

inductive Post where
  | store (event : Json) (answer : Answer)
  | envelope (content : List UInt8) (answer : Answer)

def Post.storeAccepted : Post → Bool
  | .store _ answer => answer.accepted
  | _ => false

def Post.accepted : Post → Bool
  | .store _ answer => answer.accepted
  | .envelope _ answer => answer.accepted

/-- The answer is logged as a text. -/
def refused (content : List UInt8) : Except Raised HelperResult :=
  match decode content with
  | none => .error .unicodeDecodeError
  | some _ => .ok .transientError

/-- The result of the second request. -/
def envelopeResult : Answer → Except Raised HelperResult
  | .networkError => .ok .transientError
  | .raised e => .error e
  | .status code content => if code ≠ 200 then refused content else .ok .ok

/-- `SentryEvent.send`: the requests, and the result. -/
def send (gzip : Gzip) (s : State) (env : Env) (store envelope : Answer) : List Post × Except Raised HelperResult :=
  let s := State.seal gzip s env
  let stored := Post.store s.event store
  match store with
  | .networkError => ([stored], .ok .transientError)
  | .raised e => ([stored], .error e)
  | .status code content =>
    if code = 413 then ([stored], .ok .permanentError)
    else if code ≠ 200 then ([stored], refused content)
    else
      match s.self.rawEnvelope with
      | none => ([stored], .ok .ok)
      | some raw => ([stored, .envelope raw envelope], envelopeResult envelope)

/-! ## Runs of `submit_category` -/

/-- A call of `submit` for a log: the event that the helper makes of it, or how it returns before that, and what the
server and the machine answer. -/
structure Call where
  made : Except Raised (State ⊕ HelperResult)
  env : Env
  store : Answer
  envelope : Answer
  replace : Dir → Except Raised Unit

variable {α : Type} (gzip : Gzip)

/-- `submit`, given what is pending under the name. A file that cannot be opened is tried again. -/
def Call.submit (call : Call) : Option α → List Post × Except Raised HelperResult
  | none => ([], .ok .transientError)
  | some _ =>
    match call.made with
    | .error e => ([], .error e)
    | .ok (.inr r) => ([], .ok r)
    | .ok (.inl s) => send gzip s call.env call.store call.envelope

/-- What was posted for a log in a run, and whether it could be moved to `uploaded`. -/
structure Attempt where
  log : String
  posts : List Post
  movable : Bool

/-- A run of the loop, with what has been posted since the first run. -/
structure Progress (α : Type) extends Runner.State α Raised where
  attempts : List Attempt

/-- The runner's environment for a call. -/
def Call.runnerEnv (call : Call) (content : Option α) : Runner.Env Raised where
  submit _ := (call.submit gzip content).2
  replace dst _ := call.replace dst
  fileNotFoundError := .osError

/-- The body of the loop. -/
def Progress.attempt (s : Progress α) (log : String) (call : Call) : Progress α × Bool :=
  let content := s.dirs .pending log
  let r := Runner.attempt (call.runnerEnv gzip content) log s.toState
  ({ toState := r.1
     attempts := s.attempts ++ [⟨log, (call.submit gzip content).1, (call.replace .uploaded).isOk⟩] }, r.2)

def submitLogs : List (String × Call) → Progress α → Progress α
  | [], s => s
  | (log, call) :: logs, s =>
    if Runner.hidden log then submitLogs logs s
    else
      let r := s.attempt gzip log call
      if r.2 then r.1 else submitLogs logs r.1

structure World (α : Type) where
  dirs : Dirs α
  attempts : List Attempt

/-- `submit_category`. Without the lock nothing is done. -/
def submitCategory (w : World α) : Option (List (String × Call)) → World α
  | none => w
  | some logs =>
    let s := submitLogs gzip logs { dirs := w.dirs, calls := [], submitted := .empty, attempts := w.attempts }
    { dirs := s.dirs, attempts := s.attempts }

/-! ## Events and attempts -/

def Attempt.stored (a : Attempt) : Bool := a.posts.any Post.storeAccepted

/-- The server has accepted all that was posted: the event, and its attachments where it has any. -/
def Attempt.delivered (a : Attempt) : Bool := a.posts.all Post.accepted

/-- The server has accepted an event for the log. -/
def accepted (log : String) (a : Attempt) : Bool := a.log = log && a.stored

/-- It has, but not its attachments, or the log could not be moved then. -/
def failed (log : String) (a : Attempt) : Bool := accepted log a && !(a.delivered && a.movable)

/-- Nothing is left to be done. -/
def completed (log : String) (a : Attempt) : Bool := accepted log a && (a.delivered && a.movable)

theorem completed_iff {log : String} {a : Attempt} :
    completed log a = true ↔ a.log = log ∧ a.stored = true ∧ a.delivered = true ∧ a.movable = true := by
  simp only [completed, accepted, Bool.and_eq_true, decide_eq_true_eq, and_assoc]

/-! ## One attempt -/

/-- Where every request is accepted all is well. -/
theorem send_of_delivered {s : State} {env : Env} {store envelope : Answer}
    (h : (send gzip s env store envelope).1.all Post.accepted = true) :
    (send gzip s env store envelope).2 = .ok .ok := by
  have hcode : ∀ code content, Answer.accepted (.status code content) = true → code = 200 :=
    fun code content h => of_decide_eq_true h
  unfold send at h ⊢
  cases store with
  | networkError => cases h
  | raised e => cases h
  | status code content =>
    have h200 : code = 200 := by
      refine hcode code content ?_
      dsimp only at h
      split at h
      · exact (Bool.and_eq_true_iff.1 h).1
      · split at h
        · exact (Bool.and_eq_true_iff.1 h).1
        · split at h <;> exact (Bool.and_eq_true_iff.1 h).1
    subst h200
    dsimp only at h ⊢
    rw [if_neg (by decide), if_neg (by decide)] at h ⊢
    cases hraw : (State.seal gzip s env).self.rawEnvelope with
    | none => rfl
    | some raw =>
      rw [hraw] at h
      -- The envelope is the last request.
      have henvelope : envelope.accepted = true := (Bool.and_eq_true_iff.1 (Bool.and_eq_true_iff.1 h).2).1
      cases envelope with
      | networkError => cases henvelope
      | raised e => cases henvelope
      | status code content => exact if_neg (not_not.2 (hcode code content henvelope))

theorem Call.submit_of_delivered {call : Call} {content : Option α}
    (hstored : (call.submit gzip content).1.any Post.storeAccepted = true)
    (h : (call.submit gzip content).1.all Post.accepted = true) : (call.submit gzip content).2 = .ok .ok := by
  cases content with
  | none => cases hstored
  | some c =>
    unfold Call.submit at hstored h ⊢
    cases hm : call.made with
    | error e => rw [hm] at hstored; cases hstored
    | ok r =>
      cases r with
      | inr r => rw [hm] at hstored; cases hstored
      | inl s =>
        rw [hm] at h
        exact send_of_delivered gzip h

/-- Where a log is pending after an attempt. -/
theorem attempt_pending (s : Progress α) (log name : String) (call : Call) :
    (s.attempt gzip log call).1.dirs .pending name =
      if name = log ∧ Runner.place (call.runnerEnv gzip (s.dirs .pending log)) log ≠ .pending then none
      else s.dirs .pending name := by
  unfold Progress.attempt
  dsimp only
  cases hc : s.dirs .pending log with
  | none =>
    have hplace : Runner.place (call.runnerEnv gzip (none : Option α)) log = .pending := rfl
    rw [if_neg fun h => h.2 hplace]
    rfl
  | some content =>
    rw [Runner.attempt_of_pending hc]
    dsimp only
    by_cases hp : Runner.place (call.runnerEnv gzip (some content)) log = .pending
    · rw [if_pos hp, if_neg fun h => h.2 hp]
    · rw [if_neg hp]
      unfold Runner.move
      by_cases hn : name = log
      · rw [if_pos hn, if_neg (Ne.symm hp), if_pos rfl, if_pos ⟨hn, hp⟩]
      · rw [if_neg hn, if_neg fun h => hn h.1]

/-- The runner's loop, if each log is there once. -/
theorem submitLogs_toState {logs : List (String × Call)} {s : Progress α} {env : Runner.Env Raised}
    (hn : (logs.map Prod.fst).Nodup)
    (hsubmit : ∀ p ∈ logs, env.submit p.1 = (p.2.submit gzip (s.dirs .pending p.1)).2)
    (hreplace : ∀ p ∈ logs, ∀ dst, env.replace dst p.1 = p.2.replace dst) (hf : env.fileNotFoundError = .osError) :
    (submitLogs gzip logs s).toState = Runner.submitLogs env (logs.map Prod.fst) s.toState := by
  induction logs generalizing s with
  | nil => rfl
  | cons p logs ih =>
    obtain ⟨log, call⟩ := p
    obtain ⟨hlog, hn⟩ := List.nodup_cons.1 hn
    have hsubmit' := fun q hq => hsubmit q (List.mem_cons_of_mem _ hq)
    have hreplace' := fun q hq => hreplace q (List.mem_cons_of_mem _ hq)
    have hattempt : Runner.attempt (call.runnerEnv gzip (s.dirs .pending log)) log s.toState =
        Runner.attempt env log s.toState := by
      unfold Runner.attempt Runner.settle Runner.replace
      simp only [Call.runnerEnv, hsubmit _ List.mem_cons_self, hreplace _ List.mem_cons_self, hf]
    have hrest : ∀ q ∈ logs, (s.attempt gzip log call).1.dirs .pending q.1 = s.dirs .pending q.1 := by
      intro q hq
      -- The other logs are where they were.
      have hne : q.1 ≠ log := fun he => hlog (List.mem_map.2 ⟨q, hq, he⟩)
      rw [attempt_pending, if_neg fun h => hne h.1]
    rw [List.map_cons, Sentry.submitLogs, Runner.submitLogs, ← hattempt]
    split
    · exact ih hn hsubmit' hreplace'
    · dsimp only [Progress.attempt]
      split
      · rfl
      · refine ih (s := (s.attempt gzip log call).1) hn (fun q hq => ?_) hreplace'
        rw [hsubmit' q hq, hrest q hq]

/-! ## All runs -/

/-- Once an attempt is complete the log is not pending, and nothing is posted for it any more. -/
structure Kept (log : String) (dirs : Dirs α) (attempts : List Attempt) : Prop where
  gone : ∀ a ∈ attempts, completed log a = true → dirs .pending log = none
  last : ∀ l a l', attempts = l ++ a :: l' → completed log a = true → ∀ b ∈ l', b.log = log → b.posts = []

theorem Kept.attempt {log name : String} {s : Progress α} {call : Call} (h : Kept log s.dirs s.attempts) :
    Kept log (s.attempt gzip name call).1.dirs (s.attempt gzip name call).1.attempts := by
  have hold : s.dirs .pending log = none → (s.attempt gzip name call).1.dirs .pending log = none := by
    intro hn
    rw [attempt_pending, hn, ite_self]
  have hattempts : (s.attempt gzip name call).1.attempts = s.attempts ++
      [⟨name, (call.submit gzip (s.dirs .pending name)).1, (call.replace .uploaded).isOk⟩] := rfl
  rw [hattempts]
  constructor
  -- What has been accepted and moved is gone from `pending`.
  · intro a ha hc
    rcases List.mem_append.1 ha with ha | ha
    · exact hold (h.gone a ha hc)
    · rw [List.mem_singleton] at ha
      subst ha
      obtain ⟨hlog, hstored, hdelivered, hmovable⟩ := completed_iff.1 hc
      have hplace : Runner.place (call.runnerEnv gzip (s.dirs .pending name)) name = .uploaded :=
        Runner.place_uploaded.2 ⟨Call.submit_of_delivered gzip hstored hdelivered, hmovable⟩
      rw [attempt_pending, if_pos ⟨hlog.symm, by rw [hplace]; decide⟩]
  -- So nothing is posted for it again.
  · intro l a l' hl hc b hb hlog
    rcases List.eq_nil_or_concat l' with rfl | ⟨m, x, rfl⟩
    · cases hb
    · rw [List.concat_eq_append, ← List.cons_append, ← List.append_assoc] at hl
      obtain ⟨hsplit, hx⟩ := List.append_inj' hl rfl
      cases hx
      rw [List.concat_eq_append] at hb
      rcases List.mem_append.1 hb with hb | hb
      · exact h.last l a m hsplit hc b hb hlog
      · rw [List.mem_singleton] at hb
        subst hb
        have hname : name = log := hlog
        have hnone : s.dirs .pending name = none := hname ▸ h.gone a (by rw [hsplit]; simp) hc
        show (call.submit gzip (s.dirs .pending name)).1 = []
        rw [hnone]
        rfl

theorem Kept.submitLogs {log : String} {logs : List (String × Call)} {s : Progress α} (h : Kept log s.dirs s.attempts) :
    Kept log (submitLogs gzip logs s).dirs (submitLogs gzip logs s).attempts := by
  induction logs generalizing s with
  | nil => exact h
  | cons p logs ih =>
    unfold Sentry.submitLogs
    split
    · exact ih h
    · dsimp only
      split
      · exact h.attempt gzip
      · exact ih (h.attempt gzip)

theorem Kept.runs {log : String} {runs : List (Option (List (String × Call)))} {w : World α}
    (h : Kept log w.dirs w.attempts) :
    Kept log (runs.foldl (submitCategory gzip) w).dirs (runs.foldl (submitCategory gzip) w).attempts := by
  induction runs generalizing w with
  | nil => exact h
  | cons run runs ih =>
    rw [List.foldl_cons]
    apply ih
    cases run with
    | none => exact h
    | some logs => exact Kept.submitLogs gzip h

/-- There is at most one complete attempt. -/
theorem Kept.countP_le {log : String} {dirs : Dirs α} {attempts : List Attempt} (h : Kept log dirs attempts) :
    attempts.countP (completed log) ≤ 1 := by
  have hlast := h.last
  clear h
  induction attempts with
  | nil => exact Nat.zero_le 1
  | cons a attempts ih =>
    by_cases hc : completed log a = true
    · have hzero : attempts.countP (completed log) = 0 := by
        rw [List.countP_eq_zero]
        intro b hb hcb
        obtain ⟨hlog, hstored, -⟩ := completed_iff.1 hcb
        have hposts := hlast [] a attempts rfl hc b hb hlog
        rw [Attempt.stored, hposts] at hstored
        cases hstored
      rw [List.countP_cons_of_pos hc, hzero]
    · rw [List.countP_cons_of_neg hc]
      exact ih fun l b l' hl => hlast (a :: l) b l' (by rw [hl, List.cons_append])

/-- An event is accepted in the attempts that fail and in the complete ones. -/
theorem countP_accepted (log : String) (attempts : List Attempt) :
    attempts.countP (accepted log) = attempts.countP (failed log) + attempts.countP (completed log) := by
  induction attempts with
  | nil => rfl
  | cons a attempts ih =>
    have hsplit : (accepted log a).toNat = (failed log a).toNat + (completed log a).toNat := by
      unfold failed completed
      cases accepted log a <;> cases a.delivered && a.movable <;> rfl
    have hcount (p : Attempt → Bool) : (a :: attempts).countP p = attempts.countP p + (p a).toNat := by
      rw [List.countP_cons]
      cases p a <;> rfl
    rw [hcount, hcount, hcount, ih, hsplit]
    omega

/-- What has been posted in all the runs. -/
def attemptsOf (runs : List (Option (List (String × Call)))) (dirs : Dirs α) : List Attempt :=
  (runs.foldl (submitCategory gzip) { dirs := dirs, attempts := [] }).attempts

/-- The server accepts events for a log as often as a run fails after that, and once more at most. Nothing is
posted after a run that is complete. -/
theorem accepted_le (log : String) (runs : List (Option (List (String × Call)))) (dirs : Dirs α) :
    (attemptsOf gzip runs dirs).countP (accepted log) ≤ (attemptsOf gzip runs dirs).countP (failed log) + 1 ∧
      ∀ l a l', attemptsOf gzip runs dirs = l ++ a :: l' → completed log a = true →
        ∀ b ∈ l', b.log = log → b.posts = [] := by
  have hnil : Kept log dirs ([] : List Attempt) :=
    ⟨fun a ha => (by cases ha), fun l a l' hl => absurd hl (by simp)⟩
  have hkept : Kept log _ (attemptsOf gzip runs dirs) := Kept.runs (w := ⟨dirs, []⟩) gzip hnil
  have hle := hkept.countP_le
  rw [countP_accepted]
  exact ⟨by omega, hkept.last⟩

/-- An event with an attachment, each time with its own id. -/
def attached (eventId : String) : State where
  heap := [.arr [], .obj []]
  self :=
    { eventId := eventId
      dsn := "https://fake@dsn/0"
      appid := none
      attachments := [⟨[0], some "a", none⟩]
      timestamp := none
      environment := none
      message := none
      osBuild := none
      version := none
      architecture := "x86_64"
      exceptions := 0
      tags := 1
      fingerprint := 0
      extra := 1
      event := []
      rawEnvelope := none }
  valid := by simp

/-- The server accepts the event, but not the attachment. -/
def halfAccepted (eventId : String) : Call where
  made := .ok (.inl (attached eventId))
  env :=
    { sentAt := "2024-01-01T00:00:00+00:00"
      slsVersion := "0.4.0"
      getAppName := fun _ => none
      telemetryUnitId := none
      dmiInfo := none }
  store := .status 200 []
  envelope := .status 500 []
  replace _ := .ok ()

/-- Two runs, two events. -/
theorem accepted_twice : ∃ (gzip : Gzip) (dirs : Dirs Unit) (runs : List (Option (List (String × Call)))),
    runs = [some [("a.json", halfAccepted "0")], some [("a.json", halfAccepted "1")]] ∧
      (attached "0").self.attachments ≠ [] ∧ (attached "1").self.attachments ≠ [] ∧
      (attemptsOf gzip runs dirs).countP (accepted "a.json") = 2 := by
  refine ⟨⟨id, id, fun _ => rfl⟩, fun dir name => if dir = .pending ∧ name = "a.json" then some () else none, _, rfl,
    List.cons_ne_nil _ _, List.cons_ne_nil _ _, ?_⟩
  decide +kernel

end LogSubmitter.Sentry

import LogSubmitter.Lib.Raise
import LogSubmitter.Str
/-!
# Dropped privileges

`drop_root` is a context manager: in its block the process has the effective ids of another user, after it those from
before. The blocks can be nested, and the code in them can raise. The kernel decides who may set what.
-/
namespace LogSubmitter.Privileges

open Lib

inductive Raised where
  | permissionError
  /-- There is no such user or group. -/
  | keyError
  | attributeError
  /-- An `OSError` or an `OverflowError`: the number is no id. -/
  | invalid
  | other (name : String)
  deriving DecidableEq

/-! ## The kernel -/

structure Ids where
  real : Int
  effective : Int
  saved : Int
  deriving DecidableEq

structure Credentials where
  uid : Ids
  gid : Ids
  deriving DecidableEq

def Credentials.effective (c : Credentials) : Int × Int := (c.uid.effective, c.gid.effective)

def Ids.set (ids : Ids) (privileged : Bool) (n : Int) : Except Raised Ids :=
  if ¬(0 ≤ n ∧ n < 0xffffffff) then .error .invalid
  else if privileged ∨ n = ids.real ∨ n = ids.effective ∨ n = ids.saved then .ok { ids with effective := n }
  else .error .permissionError

def Credentials.privileged (c : Credentials) : Bool := c.uid.effective = 0

/-- `os.seteuid` -/
def seteuid (n : Int) (c : Credentials) : Except Raised Credentials :=
  (c.uid.set c.privileged n).map fun uid => { c with uid := uid }

/-- `os.setegid` -/
def setegid (n : Int) (c : Credentials) : Except Raised Credentials :=
  (c.gid.set c.privileged n).map fun gid => { c with gid := gid }

/-- `pwd.getpwnam` and `grp.getgrnam`. -/
structure System where
  users : String → Option Int
  groups : String → Option Int

/-! ## `drop_root` -/

inductive Target where
  | number (n : Int)
  | text (name : String)

def Target.default : Target := .text "steamos-log-submitter"

/-- A number that is no text is not assigned to the attribute. -/
def resolve (lookup : String → Option Int) : Target → Except Raised (Option Int)
  | .number _ => .ok none
  | .text name =>
    match Str.int name with
    | some n => .ok (some n)
    | none =>
      match lookup name with
      | some n => .ok (some n)
      | none => .error .keyError

/-- The attributes of a `drop_root`, where they are assigned. -/
structure DropRoot where
  targetUid : Option Int
  targetGid : Option Int

/-- `drop_root.__init__` -/
def DropRoot.init (system : System) (uid gid : Target) : Except Raised DropRoot := do
  let targetUid ← resolve system.users uid
  let targetGid ← resolve system.groups gid
  return ⟨targetUid, targetGid⟩

/-- `drop_root.__enter__`, and what it raises. It keeps the ids from before. -/
def DropRoot.enter (m : DropRoot) (c : Credentials) : Credentials × Option Raised :=
  match m.targetUid, m.targetGid with
  | some uid, some gid =>
    if c.uid.effective = uid ∧ c.gid.effective = gid then (c, none)
    else
      match setegid gid c with
      | .error e => (c, some e)
      | .ok c₁ =>
        match seteuid uid c₁ with
        | .error e => (c₁, some e)
        | .ok c₂ => (c₂, none)
  | _, _ => (c, some .attributeError)

/-- The ids are set back one after the other. -/
def DropRoot.restore (uid gid : Int) (c : Credentials) : Credentials × Option Raised :=
  match seteuid uid c with
  | .error e => (c, some e)
  | .ok c₁ =>
    match setegid gid c₁ with
    | .error e => (c₁, some e)
    | .ok c₂ => (c₂, none)

/-- `drop_root.__exit__`, with the ids from before. What it returns is whether an exception ends here. -/
def DropRoot.exit (uid gid : Int) (raised : Option Raised) (c : Credentials) : Credentials × Except Raised Bool :=
  match DropRoot.restore uid gid c with
  | (c, none) => (c, .ok raised.isNone)
  | (c, some .permissionError) => (c, .ok raised.isNone)
  | (c, some e) => (c, .error e)

/-! ## Programs with blocks -/

inductive Program where
  | act
  | raise (e : Raised)
  | seq (first second : Program)
  | block (uid gid : Target) (body : Program)

/-- Something is done: in which blocks, and with which effective ids. -/
structure Act where
  blocks : List (Option Int × Option Int)
  effective : Int × Int
  deriving DecidableEq

structure Outcome where
  credentials : Credentials
  acts : List Act
  raised : Option Raised
  deriving DecidableEq

/-- The end of a block. -/
def Outcome.leave (o : Outcome) (uid gid : Int) : Outcome :=
  match DropRoot.exit uid gid o.raised o.credentials with
  | (c, .error e) => { o with credentials := c, raised := some e }
  | (c, .ok true) => { o with credentials := c, raised := none }
  | (c, .ok false) => { o with credentials := c }

def run (system : System) (blocks : List (Option Int × Option Int)) : Program → Credentials → Outcome
  | .act, c => ⟨c, [⟨blocks, c.effective⟩], none⟩
  | .raise e, c => ⟨c, [], some e⟩
  | .seq first second, c =>
    let o := run system blocks first c
    match o.raised with
    | some _ => o
    | none =>
      let o' := run system blocks second o.credentials
      { o' with acts := o.acts ++ o'.acts }
  | .block uid gid body, c =>
    match DropRoot.init system uid gid with
    | .error e => ⟨c, [], some e⟩
    | .ok m =>
      match m.enter c with
      | (c₁, some e) => ⟨c₁, [], some e⟩
      | (c₁, none) =>
        (run system ((m.targetUid, m.targetGid) :: blocks) body c₁).leave c.uid.effective c.gid.effective

/-- How many actions there are in it. -/
def Program.acts : Program → Nat
  | .act => 1
  | .raise _ => 0
  | .seq first second => first.acts + second.acts
  | .block _ _ body => body.acts

/-! ## Users that are not root -/

/-- The id of a user or a group that is not root. -/
def IsUser (n : Int) : Prop := 0 < n ∧ n < 0xffffffff

def Program.Unprivileged (system : System) : Program → Prop
  | .act => True
  | .raise _ => True
  | .seq first second => first.Unprivileged system ∧ second.Unprivileged system
  | .block uid gid body => (∀ n, resolve system.users uid = .ok (some n) → IsUser n) ∧
    (∀ n, resolve system.groups gid = .ok (some n) → IsUser n) ∧ body.Unprivileged system

/-- A process of root with other effective ids. -/
def dropped (uid gid : Int) : Credentials := ⟨⟨0, uid, 0⟩, ⟨0, gid, 0⟩⟩

def root : Credentials := dropped 0 0

section
variable {uid gid uid₀ gid₀ : Int}

theorem set_isUser {n : Int} (hn : IsUser n) (m : Int) (privileged : Bool) :
    Ids.set ⟨0, m, 0⟩ privileged n = if privileged = true ∨ n = m then .ok ⟨0, n, 0⟩ else .error .permissionError := by
  obtain ⟨hpos, hlt⟩ := hn
  have hne : n ≠ 0 := by omega
  unfold Ids.set
  rw [if_neg (not_not.2 ⟨by omega, hlt⟩)]
  simp [hne]

theorem seteuid_dropped (huid : IsUser uid) : seteuid uid (dropped uid₀ gid₀) =
    if uid₀ = 0 ∨ uid = uid₀ then .ok (dropped uid gid₀) else .error .permissionError := by
  unfold seteuid dropped Credentials.privileged
  simp only [set_isUser huid, decide_eq_true_iff]
  split <;> rfl

theorem setegid_dropped (hgid : IsUser gid) : setegid gid (dropped uid₀ gid₀) =
    if uid₀ = 0 ∨ gid = gid₀ then .ok (dropped uid₀ gid) else .error .permissionError := by
  unfold setegid dropped Credentials.privileged
  simp only [set_isUser hgid, decide_eq_true_iff]
  split <;> rfl

theorem set_zero (m : Int) (privileged : Bool) : Ids.set ⟨0, m, 0⟩ privileged 0 = .ok ⟨0, 0, 0⟩ := by
  simp [Ids.set]

theorem enter_root (huid : IsUser uid) (hgid : IsUser gid) :
    DropRoot.enter ⟨some uid, some gid⟩ root = (dropped uid gid, none) := by
  have hne : ¬(root.uid.effective = uid ∧ root.gid.effective = gid) := fun h => Int.ne_of_lt huid.1 h.1
  unfold DropRoot.enter
  dsimp only
  rw [if_neg hne, root, setegid_dropped hgid, if_pos (.inl rfl)]
  dsimp only
  rw [seteuid_dropped huid, if_pos (.inl rfl)]

/-- Another user cannot be entered from a block, and nothing changes then. -/
theorem enter_dropped (huid₀ : IsUser uid₀) (huid : IsUser uid) (hgid : IsUser gid) :
    DropRoot.enter ⟨some uid, some gid⟩ (dropped uid₀ gid₀) =
      (dropped uid₀ gid₀, if uid₀ = uid ∧ gid₀ = gid then none else some .permissionError) := by
  have hne : uid₀ ≠ 0 := Int.ne_of_gt huid₀.1
  have hids : ((dropped uid₀ gid₀).uid.effective = uid ∧ (dropped uid₀ gid₀).gid.effective = gid) =
    (uid₀ = uid ∧ gid₀ = gid) := rfl
  unfold DropRoot.enter
  dsimp only
  by_cases hsame : uid₀ = uid ∧ gid₀ = gid
  · rw [if_pos (hids ▸ hsame), if_pos hsame]
  · rw [if_neg (hids ▸ hsame), if_neg hsame, setegid_dropped hgid]
    by_cases hgroup : gid = gid₀
    · -- The group is set, to what it is, and then the user is not.
      subst hgroup
      rw [if_pos (.inr rfl)]
      dsimp only
      rw [seteuid_dropped huid, if_neg (not_or.2 ⟨hne, fun h => hsame ⟨h.symm, rfl⟩⟩)]
    · rw [if_neg (not_or.2 ⟨hne, hgroup⟩)]

theorem exit_root (raised : Option Raised) :
    DropRoot.exit 0 0 raised (dropped uid gid) = (root, .ok raised.isNone) := by
  simp only [DropRoot.exit, DropRoot.restore, seteuid, setegid, dropped, set_zero, Except.map, root]

theorem exit_same (huid : IsUser uid) (hgid : IsUser gid) (raised : Option Raised) :
    DropRoot.exit uid gid raised (dropped uid gid) = (dropped uid gid, .ok raised.isNone) := by
  unfold DropRoot.exit DropRoot.restore
  rw [seteuid_dropped huid, if_pos (.inr rfl)]
  dsimp only
  rw [setegid_dropped hgid, if_pos (.inr rfl)]

end

/-! ## Runs -/

/-- Outside of all blocks root does it, in blocks the user and the group of each of them. -/
def Act.Right (act : Act) : Prop :=
  (act.blocks = [] → act.effective = (0, 0)) ∧
    ∀ block ∈ act.blocks, block = (some act.effective.1, some act.effective.2)

/-- The effective ids where an action in these blocks would be right. -/
def Fits (blocks : List (Option Int × Option Int)) (uid gid : Int) : Prop :=
  (blocks = [] ∧ uid = 0 ∧ gid = 0) ∨
    (blocks ≠ [] ∧ IsUser uid ∧ IsUser gid ∧ ∀ block ∈ blocks, block = (some uid, some gid))

/-- What a program keeps and what it has done. -/
structure Held (program : Program) (c : Credentials) (o : Outcome) : Prop where
  credentials : o.credentials = c
  acts : ∀ act ∈ o.acts, act.Right
  all : o.raised = none → o.acts.length = program.acts

theorem Fits.right {blocks : List (Option Int × Option Int)} {uid gid : Int} (h : Fits blocks uid gid) :
    Act.Right ⟨blocks, (dropped uid gid).effective⟩ := by
  obtain ⟨rfl, rfl, rfl⟩ | ⟨hne, -, -, hall⟩ := h
  · exact ⟨fun _ => rfl, by simp⟩
  · exact ⟨fun hnil => absurd hnil hne, hall⟩

/-- Nothing is done, as something is raised. -/
theorem held_raised (program : Program) (c : Credentials) (e : Raised) : Held program c ⟨c, [], some e⟩ :=
  ⟨rfl, by simp, by simp⟩

/-- A block is entered with ids that fit, and left with those from before, or it is not entered. -/
theorem enter_cases {blocks : List (Option Int × Option Int)} {uid₀ gid₀ : Int} (h : Fits blocks uid₀ gid₀)
    {m : DropRoot} (huid : ∀ n, m.targetUid = some n → IsUser n) (hgid : ∀ n, m.targetGid = some n → IsUser n) :
    (∃ e, m.enter (dropped uid₀ gid₀) = (dropped uid₀ gid₀, some e)) ∨
      ∃ uid gid, m.enter (dropped uid₀ gid₀) = (dropped uid gid, none) ∧
        Fits ((m.targetUid, m.targetGid) :: blocks) uid gid ∧
        ∀ raised, DropRoot.exit uid₀ gid₀ raised (dropped uid gid) = (dropped uid₀ gid₀, .ok raised.isNone) := by
  obtain ⟨targetUid, targetGid⟩ := m
  cases targetUid with
  | none => exact .inl ⟨_, rfl⟩
  | some uid =>
    cases targetGid with
    | none => exact .inl ⟨_, rfl⟩
    | some gid =>
      replace huid := huid uid rfl
      replace hgid := hgid gid rfl
      obtain ⟨rfl, rfl, rfl⟩ | ⟨hne, huid₀, hgid₀, hall⟩ := h
      · exact .inr ⟨uid, gid, enter_root huid hgid, .inr ⟨by simp, huid, hgid, by simp⟩, exit_root⟩
      · rw [enter_dropped huid₀ huid hgid]
        by_cases hsame : uid₀ = uid ∧ gid₀ = gid
        · obtain ⟨rfl, rfl⟩ := hsame
          refine .inr ⟨uid₀, gid₀, by simp, .inr ⟨by simp, huid, hgid, ?_⟩, exit_same huid hgid⟩
          exact List.forall_mem_cons.2 ⟨rfl, hall⟩
        · exact .inl ⟨.permissionError, by rw [if_neg hsame]⟩

theorem Held.leave {body : Program} {c c₁ : Credentials} {o : Outcome} (h : Held body c₁ o) {uid gid : Int}
    (hexit : ∀ raised, DropRoot.exit uid gid raised c₁ = (c, .ok raised.isNone)) {uid' gid' : Target} :
    Held (.block uid' gid' body) c (o.leave uid gid) := by
  unfold Outcome.leave
  rw [h.credentials, hexit]
  cases hraised : o.raised with
  | none => exact ⟨rfl, h.acts, fun _ => h.all hraised⟩
  | some e => exact ⟨rfl, h.acts, fun hnone => h.all (hraised.trans hnone)⟩

theorem held_run {system : System} {program : Program} (hp : program.Unprivileged system)
    {blocks : List (Option Int × Option Int)} {uid gid : Int} (h : Fits blocks uid gid) :
    Held program (dropped uid gid) (run system blocks program (dropped uid gid)) := by
  induction program generalizing blocks uid gid with
  | act => exact ⟨rfl, List.forall_mem_singleton.2 h.right, fun _ => rfl⟩
  | raise e => exact held_raised _ _ e
  | seq first second ihFirst ihSecond =>
    obtain ⟨hcredentials, hacts, hall⟩ := ihFirst hp.1 h
    unfold run
    dsimp only
    split
    · next e he => exact ⟨hcredentials, hacts, fun hnone => by rw [he] at hnone; cases hnone⟩
    · next he =>
      rw [hcredentials]
      obtain ⟨hcredentials', hacts', hall'⟩ := ihSecond hp.2 h
      refine ⟨hcredentials', List.forall_mem_append.2 ⟨hacts, hacts'⟩, fun hnone => ?_⟩
      rw [List.length_append, hall he, hall' hnone]
      rfl
  | block uid' gid' body ih =>
    obtain ⟨huid, hgid, hbody⟩ := hp
    unfold run
    split
    · next e _ => exact held_raised _ _ e
    · next m hm =>
      have htargets : resolve system.users uid' = .ok m.targetUid ∧ resolve system.groups gid' = .ok m.targetGid := by
        unfold DropRoot.init at hm
        obtain ⟨targetUid, hu, hm⟩ := Raise.bind_eq_ok.1 hm
        obtain ⟨targetGid, hg, hm⟩ := Raise.bind_eq_ok.1 hm
        cases hm
        exact ⟨hu, hg⟩
      obtain ⟨e, he⟩ | ⟨uid₁, gid₁, he, hfits, hexit⟩ := enter_cases h (m := m)
        (fun n hn => huid n (hn ▸ htargets.1)) (fun n hn => hgid n (hn ▸ htargets.2))
      · rw [he]
        exact held_raised _ _ e
      · rw [he]
        exact (ih hbody hfits).leave hexit

/-- Whatever a process of root does in blocks for users that are not root, and whatever is raised on the way: it has
its ids back at the end, everything that it has done in a block it has done as the user and the group of that block,
and of every block around it, and what it has not done it has not left out silently. -/
theorem root_is_dropped (system : System) (program : Program) (hp : program.Unprivileged system) :
    Held program root (run system [] program root) :=
  held_run hp (.inl ⟨rfl, rfl, rfl⟩)

def deckSystem : System where
  users name := if name = "steamos-log-submitter" then some 964 else if name = "deck" then some 1000 else none
  groups name := if name = "steamos-log-submitter" then some 964 else if name = "deck" then some 1000 else none

/-- Two things are done as the service's user. The third is to be done as another one from there. -/
def twoUsers : Program :=
  .seq .act (.block .default .default (.seq (.block .default .default .act)
    (.seq .act (.block (.text "deck") (.text "deck") .act))))

theorem isUser_of_resolve {lookup : String → Option Int} {target : Target} {m : Int}
    (hm : resolve lookup target = .ok (some m)) (huser : IsUser m) (n : Int)
    (hn : resolve lookup target = .ok (some n)) : IsUser n := by
  rw [hm] at hn
  cases hn
  exact huser

theorem two_users_dropped :
    (run deckSystem [] twoUsers root).credentials = root ∧
      (run deckSystem [] twoUsers root).raised = some .permissionError ∧
      (∀ act ∈ (run deckSystem [] twoUsers root).acts, act.Right) ∧
      (run deckSystem [] twoUsers root).acts.map Act.effective = [(0, 0), (964, 964), (964, 964)] := by
  have hservice : IsUser 964 := ⟨by decide, by decide⟩
  have hdeck : IsUser 1000 := ⟨by decide, by decide⟩
  have huid : ∀ n, resolve deckSystem.users .default = .ok (some n) → IsUser n := isUser_of_resolve rfl hservice
  have hgid : ∀ n, resolve deckSystem.groups .default = .ok (some n) → IsUser n := isUser_of_resolve rfl hservice
  have hheld : Held twoUsers root (run deckSystem [] twoUsers root) := root_is_dropped deckSystem twoUsers
    ⟨trivial, huid, hgid, ⟨huid, hgid, trivial⟩, trivial, isUser_of_resolve rfl hdeck, isUser_of_resolve rfl hdeck,
      trivial⟩
  exact ⟨hheld.credentials, by decide +kernel, hheld.acts, by decide +kernel⟩

/-- A block for root in one for a user: the group of root is kept, as the user is set back first. -/
example : (run deckSystem [] (.block .default .default (.seq (.block (.text "0") (.text "0") .act) .act)) root).acts.map
    Act.effective = [(0, 0), (964, 0)] := by
  decide +kernel

end LogSubmitter.Privileges

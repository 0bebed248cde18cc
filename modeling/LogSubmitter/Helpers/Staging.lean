import LogSubmitter.Helpers
import Mathlib.Logic.Function.Basic
/-!
# Staging files

A `with StagingFile(...)` block writes to a file with a hidden name, which is
renamed when the block is left. The exit does not ask whether the body raised.
-/
namespace LogSubmitter.Helpers

open Lib

abbrev Bytes := List UInt8

/-- The directory of a helper: the numbers of the files, by name, and what the files hold. -/
structure Pending where
  dir : Dict String Nat
  data : Nat → Bytes

/-- What `os.listdir` finds, when a file can be accessed as `file` says. -/
def Pending.listing (p : Pending) (file : Nat → File) : Listing where
  items := p.dir.items.map fun e => (e.1, file e.2)
  nodup := by
    rw [List.map_map]
    exact p.dir.nodup

/-! ## The block -/

/-- A file that `NamedTemporaryFile` makes: neither its name nor its number is in use. -/
structure Temporary (p : Pending) where
  suffix : String
  ino : Nat
  new : ".staging-" ++ suffix ∉ p.dir.keys
  unused : ∀ name, p.dir.get? name ≠ some ino

/-- An open `StagingFile`, with what has not been written out yet. -/
structure StagingFile where
  finalName : String
  name : String
  ino : Nat
  buffer : Bytes

/-- `__init__`. -/
def create (finalName : String) (p : Pending) (tmp : Temporary p) : StagingFile × Pending :=
  let name := ".staging-" ++ tmp.suffix
  ({ finalName := finalName, name := name, ino := tmp.ino, buffer := [] },
    { dir := p.dir.insert name tmp.ino, data := Function.update p.data tmp.ino [] })

/-- Some bytes of the buffer reach the file. -/
def flush (count : Nat) (s : StagingFile × Pending) : StagingFile × Pending :=
  ({ s.1 with buffer := s.1.buffer.drop count },
    { s.2 with data := Function.update s.2.data s.1.ino (s.2.data s.1.ino ++ s.1.buffer.take count) })

/-- A `write` in the body: its bytes, and how many of the buffer then reach the file. -/
structure Write where
  bytes : Bytes
  flushed : Nat

def write (s : StagingFile × Pending) (w : Write) : StagingFile × Pending :=
  flush w.flushed ({ s.1 with buffer := s.1.buffer ++ w.bytes }, s.2)

/-- The writes of a body, and whether it raises after them. -/
structure Body where
  writes : List Write
  raises : Bool

/-- All bytes that the body writes. -/
def Body.bytes (b : Body) : Bytes := b.writes.flatMap Write.bytes

/-- What the calls of `close` come to. The first is `self._tempfile.close()`, which writes the buffer
out, and may raise after a part of it. -/
structure Exit where
  closeFails : Option Nat
  root : Bool
  chownFails : Bool
  renameFails : Bool

/-- `close`, up to the rename, and whether it gets there. -/
def prepare (e : Exit) (s : StagingFile × Pending) : (StagingFile × Pending) × Bool :=
  match e.closeFails with
  | some count => (flush count s, false)
  | none => (flush s.1.buffer.length s, !(e.root && e.chownFails) && !e.renameFails)

/-- `os.rename(self.name, self._final_name)`. -/
def rename (s : StagingFile × Pending) : Pending :=
  { s.2 with dir := (s.2.dir.erase s.1.name).insert s.1.finalName s.1.ino }

/-- What the directory goes through: before the rename, and after the block. -/
structure Block where
  points : List Pending
  after : Pending

/-- The directory after each of the writes. -/
def afterWrites (s : StagingFile × Pending) : List Write → List Pending
  | [] => [s.2]
  | w :: ws => s.2 :: afterWrites (write s w) ws

/-- `with StagingFile(...)`. `__exit__` closes the file whether the body has raised or not. -/
def withStagingFile (finalName : String) (p : Pending) (tmp : Temporary p) (b : Body) (e : Exit) : Block :=
  let s := create finalName p tmp
  let r := prepare e (b.writes.foldl write s)
  { points := p :: afterWrites s b.writes ++ [r.1.2]
    after := if r.2 then rename r.1 else r.1.2 }

/-! ## What is seen of it -/

/-- The file is not among the logs of the helper. -/
def Unseen (h : Helper) (ino : Nat) (p : Pending) : Prop :=
  ∀ file, ∀ name ∈ (h.listType (p.listing file)).map Prod.fst, p.dir.get? name ≠ some ino

/-- The file is not seen before the rename; it has its final name after the block only if the body
did not raise, and then holds all that was written; and if nothing raises, it has. -/
structure AllOrNothing (h : Helper) (finalName : String) (ino : Nat) (b : Body) (e : Exit) (k : Block) : Prop where
  unseen : ∀ p ∈ k.points, Unseen h ino p
  complete : k.after.dir.get? finalName = some ino → b.raises = false ∧ k.after.data ino = b.bytes
  published : b.raises = false → e.closeFails = none → ¬ (e.root = true ∧ e.chownFails = true) →
    e.renameFails = false → k.after.dir.get? finalName = some ino

/-- The exit does not get to the rename. -/
def Exit.Fails (e : Exit) : Prop :=
  e.closeFails ≠ none ∨ e.root = true ∧ e.chownFails = true ∨ e.renameFails = true

section
variable {h : Helper} {p : Pending} {tmp : Temporary p} {finalName : String}

theorem hidden_staging (suffix : String) : hidden (".staging-" ++ suffix) = true := by
  rw [hidden, String.toList_append]
  rfl

theorem ne_staging (hf : h.filterLog finalName = true) (suffix : String) : finalName ≠ ".staging-" ++ suffix := by
  rintro rfl
  rw [Helper.filterLog, hidden_staging] at hf
  cases hf

/-- Until the rename the directory has the hidden name only. -/
theorem unseen_of_dir {q : Pending} (hq : q.dir = p.dir ∨ q.dir = p.dir.insert (".staging-" ++ tmp.suffix) tmp.ino) :
    Unseen h tmp.ino q := by
  intro file name hname hget
  rcases hq with hq | hq
  · exact tmp.unused name (hq ▸ hget)
  · rw [hq, Dict.get?_insert] at hget
    split at hget
    · rename_i he
      rw [he] at hname
      exact hidden_not_listed (hidden_staging _) hname
    · exact tmp.unused name hget

theorem write_eq (s : StagingFile × Pending) (w : Write) :
    (write s w).1.finalName = s.1.finalName ∧ (write s w).1.name = s.1.name ∧ (write s w).1.ino = s.1.ino ∧
    (write s w).2.dir = s.2.dir ∧
    (write s w).2.data s.1.ino ++ (write s w).1.buffer = s.2.data s.1.ino ++ s.1.buffer ++ w.bytes := by
  refine ⟨rfl, rfl, rfl, rfl, ?_⟩
  simp only [write, flush, Function.update_self]
  rw [List.append_assoc, List.take_append_drop, List.append_assoc]

/-- While the body writes, the file and the buffer have what it has written. -/
theorem foldl_write_eq (s : StagingFile × Pending) (ws : List Write) :
    (ws.foldl write s).1.finalName = s.1.finalName ∧ (ws.foldl write s).1.name = s.1.name ∧
    (ws.foldl write s).1.ino = s.1.ino ∧ (ws.foldl write s).2.dir = s.2.dir ∧
    (ws.foldl write s).2.data s.1.ino ++ (ws.foldl write s).1.buffer =
      s.2.data s.1.ino ++ s.1.buffer ++ ws.flatMap Write.bytes := by
  induction ws generalizing s with
  | nil => simp
  | cons w ws ih =>
    obtain ⟨hf, hn, hi, hd, hb⟩ := write_eq s w
    obtain ⟨hf', hn', hi', hd', hb'⟩ := ih (write s w)
    rw [hi] at hi' hb'
    rw [hb] at hb'
    exact ⟨hf'.trans hf, hn'.trans hn, hi', hd'.trans hd, by rw [List.foldl_cons, hb']; simp⟩

theorem dir_of_mem_afterWrites {s : StagingFile × Pending} {ws : List Write} {q : Pending}
    (hq : q ∈ afterWrites s ws) : q.dir = s.2.dir := by
  induction ws generalizing s with
  | nil => rw [List.mem_singleton.1 hq]
  | cons w ws ih =>
    rcases List.mem_cons.1 hq with rfl | hq
    · rfl
    · exact (ih hq).trans (write_eq s w).2.2.2.1

theorem prepare_dir (e : Exit) (s : StagingFile × Pending) : (prepare e s).1.2.dir = s.2.dir := by
  unfold prepare
  cases e.closeFails <;> rfl

/-- Where `close` gets to the rename, the file has all of the buffer. -/
theorem prepare_ready {e : Exit} {s : StagingFile × Pending} (hr : (prepare e s).2 = true) :
    ¬ e.Fails ∧ (prepare e s).1.1.finalName = s.1.finalName ∧ (prepare e s).1.1.ino = s.1.ino ∧
    (prepare e s).1.2.data s.1.ino = s.2.data s.1.ino ++ s.1.buffer := by
  revert hr
  unfold prepare Exit.Fails
  cases hc : e.closeFails with
  | some count => rintro ⟨⟩
  | none => cases e.root <;> cases e.chownFails <;> cases e.renameFails <;> simp [flush]

theorem prepare_ready_iff {e : Exit} {s : StagingFile × Pending} : (prepare e s).2 = true ↔ ¬ e.Fails := by
  refine ⟨fun hr => (prepare_ready hr).1, fun hf => ?_⟩
  revert hf
  unfold prepare Exit.Fails
  cases hc : e.closeFails with
  | some count => simp
  | none => cases e.root <;> cases e.chownFails <;> cases e.renameFails <;> simp

/-- A block publishes its file all or nothing just when the body does not raise,
or the exit fails before the rename. -/
theorem staging_all_or_nothing_iff (hf : h.filterLog finalName = true) (b : Body) (e : Exit) :
    AllOrNothing h finalName tmp.ino b e (withStagingFile finalName p tmp b e) ↔ b.raises = false ∨ e.Fails := by
  obtain ⟨hfinal, -, hino, hdir, hbytes⟩ := foldl_write_eq (create finalName p tmp) b.writes
  set s := b.writes.foldl write (create finalName p tmp) with hs
  have hbytes' : s.2.data tmp.ino ++ s.1.buffer = b.bytes := by
    rw [Body.bytes, show s.2.data tmp.ino ++ s.1.buffer = _ from hbytes]
    simp [create]
  have hunseen : ∀ q ∈ (withStagingFile finalName p tmp b e).points, Unseen h tmp.ino q := by
    intro q hq
    refine unseen_of_dir ?_
    simp only [withStagingFile, List.mem_append, List.mem_cons, List.not_mem_nil, or_false] at hq
    rcases hq with (rfl | hq) | rfl
    · exact .inl rfl
    · exact .inr (dir_of_mem_afterWrites hq)
    · exact .inr ((prepare_dir e s).trans hdir)
  by_cases hr : (prepare e s).2 = true
  -- The exit comes to the rename: the final name is the whole file.
  · obtain ⟨hnot, hfinal', hino', hdata⟩ := prepare_ready hr
    have hafter : (withStagingFile finalName p tmp b e).after = rename (prepare e s).1 := if_pos hr
    have hget : (withStagingFile finalName p tmp b e).after.dir.get? finalName = some tmp.ino := by
      rw [hafter, rename, hfinal', hfinal, hino', hino]
      exact Dict.get?_insert_self _ _ _
    have hall : (withStagingFile finalName p tmp b e).after.data tmp.ino = b.bytes := by
      rw [hafter, ← hbytes']
      exact (show s.1.ino = tmp.ino from hino) ▸ hdata
    constructor
    · exact fun ha => .inl (ha.complete hget).1
    · intro hb
      have hb : b.raises = false := hb.resolve_right hnot
      exact ⟨hunseen, fun _ => ⟨hb, hall⟩, fun _ _ _ _ => hget⟩
  -- It fails before, and the final name is not there.
  · have hfails : e.Fails := not_not.1 fun hn => hr (prepare_ready_iff.2 hn)
    have hafter : (withStagingFile finalName p tmp b e).after = (prepare e s).1.2 := if_neg hr
    refine iff_of_true ⟨hunseen, fun hget => ?_, fun _ hc hroot hren => ?_⟩ (.inr hfails)
    · rw [hafter, prepare_dir, hdir, create, Dict.get?_insert_of_ne _ (ne_staging hf _)] at hget
      exact absurd hget (tmp.unused finalName)
    · rcases hfails with hf | hf | hf
      · exact absurd hc hf
      · exact absurd hf hroot
      · rw [hren] at hf
        cases hf

end

/-- An empty directory, and a name for a staging file. -/
def emptyPending : Pending := { dir := .empty, data := fun _ => [] }

def temporary : Temporary emptyPending where
  suffix := "k3j9"
  ino := 7
  new := by decide
  unused := by rintro name ⟨⟩

/-- Nothing fails at the exit. -/
def Exit.ok : Exit := { closeFails := none, root := false, chownFails := false, renameFails := false }

/-- Two writes, the second of which stays in the buffer. -/
def twoWrites (raises : Bool) : Body := { writes := [⟨[80, 75], 2⟩, ⟨[3, 4], 0⟩], raises := raises }

theorem two_writes_published :
    AllOrNothing binHelper "a.bin" 7 (twoWrites false) .ok
      (withStagingFile "a.bin" emptyPending temporary (twoWrites false) .ok) ↔
    (twoWrites false).raises = false ∨ Exit.ok.Fails :=
  @staging_all_or_nothing_iff binHelper emptyPending temporary "a.bin" (by decide) (twoWrites false) .ok

/-- The body raises after two writes, and what there is of the file is published. -/
theorem raising_body_published :
    ¬ AllOrNothing binHelper "a.bin" 7 (twoWrites true) .ok
      (withStagingFile "a.bin" emptyPending temporary (twoWrites true) .ok) := by
  intro ha
  have hraises := (ha.complete (by decide)).1
  cases hraises

end LogSubmitter.Helpers

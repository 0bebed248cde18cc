import LogSubmitter.Hooks.Coredump
/-!
# What a program gets of the core

The hook writes what it reads of the core to each of the programs in turn. One that has ended, or
that is no longer reading, makes the write raise; the hook passes over this, and the others are to
get the rest. The pipes have buffers: what is written last gets to a program when its pipe is closed,
and closing raises if it does not.
-/
namespace LogSubmitter.Hooks.Coredump

open Lib Script

/-- What has been written to the pipe of a program. All of it has got there when the pipe has been closed. -/
def written (program : Program) (done : List Effect) : List (List UInt8) :=
  done.filterMap fun
    | .write p buffer => if p = program then some buffer else none
    | _ => none

/-- What a program is started from. -/
def executable : Program → Arg
  | .systemd => arg "/usr/lib/systemd/systemd-coredump"
  | .breakpad => arg "/usr/lib/breakpad/core_handler"

def Started (program : Program) (done : List Effect) : Prop := ∃ args, .popen (executable program :: args) ∈ done

/-- Neither writing to the program nor closing its pipe raises. -/
def System.Reads (sys : System) (program : Program) : Prop :=
  ∀ done, (∀ buffer, sys.fails done (.write program buffer) = none) ∧ sys.fails done (.close program) = none

/-- Nothing is written to a program that has got its end of file. -/
def Ordered (done : List Effect) : Prop :=
  done.Pairwise fun a b => ∀ program, a = .close program → ∀ buffer, b ≠ .write program buffer

section
variable {sys : System} {program : Program} {α β : Type}

theorem written_append (l r : List Effect) : written program (l ++ r) = written program l ++ written program r :=
  List.filterMap_append

theorem written_eq_nil {l : List Effect} (h : ∀ e ∈ l, ∀ p buffer, e ≠ .write p buffer) : written program l = [] := by
  unfold written
  rw [List.filterMap_eq_nil_iff]
  intro e he
  split
  · next p buffer => exact absurd rfl (h _ he p buffer)
  · rfl

/-! ## What a script writes to a program -/

/-- The pipes of the programs. -/
def pipes (programs : List Program) : List Popen := programs.map fun p => ⟨p, true⟩

/-- What the core is for the program: all that can be read of it, if it is one of those it is handed to. -/
def share (sys : System) (programs : List Program) (program : Program) : List (List UInt8) :=
  sys.buffers.flatMap fun buffer =>
    (pipes programs).flatMap fun proc => if proc.program = program then [buffer] else []

end

/-! ## The order -/

section
variable {sys : System} {α β : Type}

/-- First it closes nothing, then it writes nothing. -/
def InTurn (m : Script Error Effect α) : Prop :=
  Ensures (fun _ new => ∃ l r, new = l ++ r ∧ (∀ e ∈ l, ∀ p, e ≠ .close p) ∧ ∀ e ∈ r, ∀ p buffer, e ≠ .write p buffer) m

abbrev NoWrite (e : Effect) : Prop := ∀ p buffer, e ≠ .write p buffer

theorem InTurn.ordered {m : Script Error Effect α} (h : InTurn m) : Ordered (after m []).2 := by
  obtain ⟨new, hnew, l, r, rfl, hl, hr⟩ := h []
  rw [hnew, List.nil_append]
  unfold Ordered
  rw [List.pairwise_append]
  refine ⟨?_, ?_, ?_⟩
  · exact List.pairwise_of_forall_mem_list fun a ha b _ p hp => absurd hp (hl a ha p)
  · exact List.pairwise_of_forall_mem_list fun a _ b hb p _ => hr b hb p
  · intro a ha b _ p hp
    exact absurd hp (hl a ha p)

/-- What is done when the core has been read. -/
abbrev finish (sys : System) (outprocs : List Popen) : Script Error Effect Unit :=
  forM outprocs fun proc => do
    proc.onPipe sys (.close proc.program)
    Script.attempt (sys.perform (.wait proc.program))

/-- What `tee` writes to a program is its share of the core, whether or not the core can be read to its end. If it can,
the pipe is closed then. -/
def Shares (sys : System) (programs : List Program) (new : List Effect) : Prop :=
  ∀ program, (written program new).Sublist (share sys programs program) ∧
    (sys.Reads program → written program new = share sys programs program ∧
      (program ∈ programs → sys.broken = none → .close program ∈ new))

theorem Shares.append {programs : List Program} {new l r : List Effect} (h : Shares sys programs new)
    (hl : ∀ e ∈ l, NoWrite e) (hr : ∀ e ∈ r, NoWrite e) : Shares sys programs (l ++ new ++ r) := by
  intro program
  rw [written_append, written_append, written_eq_nil hl, written_eq_nil hr, List.nil_append, List.append_nil]
  obtain ⟨hsub, hall⟩ := h program
  refine ⟨hsub, fun hreads => ⟨(hall hreads).1, fun hprogram hbroken => ?_⟩⟩
  exact List.mem_append_left _ (List.mem_append_right _ ((hall hreads).2 hprogram hbroken))

end

end LogSubmitter.Hooks.Coredump

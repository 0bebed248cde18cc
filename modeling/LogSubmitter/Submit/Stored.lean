import LogSubmitter.Json.Ascii
import LogSubmitter.Submit
/-!
# Logs that are read back

A log is written with `json.dumps`, by a hook or by the helper itself, and `submit`
reads it again.
-/
namespace LogSubmitter.Submit

open Lib Json

abbrev Fields := List (String × Json)

/-- `json.dumps(v).encode()` -/
def stored (v : Json) : List UInt8 := encode (dumps v)

/-- What is written is there again. -/
theorem ofBytes_stored {v : Json} (h : unique v = true) : Content.ofBytes (stored v) = .value v := by
  unfold Content.ofBytes stored
  rw [decode_encode]
  dsimp only
  rw [loads_dumps h]
  rfl

/-- `if v is not None: log[key] = v` -/
def setSome (key : String) (v : Option Json) (log : Fields) : Fields := v.elim log fun v => Assoc.set key v log

section
variable {key : String} {v : Option Json} {log : Fields}

theorem unique_setSome (hv : ∀ w ∈ v, unique w = true) (h : unique (.obj log) = true) :
    unique (.obj (setSome key v log)) = true := by
  cases v with
  | none => exact h
  | some w => exact unique_set (hv w rfl) h

theorem get_setSome (j : String) :
    Assoc.get j (setSome key v log) = if j = key then v.or (Assoc.get j log) else Assoc.get j log := by
  cases v with
  | none => simp [setSome]
  | some w => simp [setSome, Assoc.get_set]

theorem unique_texts (l : List String) : unique (.arr (l.map .str)) = true := by
  rw [unique, uniqueAll_iff]
  intro v hv
  obtain ⟨text, -, rfl⟩ := List.mem_map.1 hv
  rfl

theorem unique_dict (d : Dict String String) : unique (.obj (d.items.map fun p => (p.1, .str p.2))) = true := by
  simp only [unique, Bool.and_eq_true, decide_eq_true_eq, uniqueFields_iff, List.map_map]
  refine ⟨d.nodup, fun p hp => ?_⟩
  obtain ⟨q, -, rfl⟩ := List.mem_map.1 hp
  rfl

end

end LogSubmitter.Submit

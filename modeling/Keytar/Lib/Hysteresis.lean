import Mathlib.Data.List.Defs
import Mathlib.Order.Lattice
import Mathlib.Tactic.Common

/-!
# A trigger with hysteresis

A trigger that is on stays on down to its lower threshold, and one that is off goes on
from its upper threshold only. While no input gets below the lower threshold, or none up
to the upper one, it changes at most once.
-/
namespace Keytar.Hysteresis

variable {α : Type*} [LinearOrder α] {low high : α}

def trigger (low high : α) (on : Bool) (v : α) : Bool :=
  if on then decide (low ≤ v) else decide (high ≤ v)

/-- What the trigger says to each of its inputs. -/
def outputs (low high : α) : Bool → List α → List Bool
  | _, [] => []
  | on, v :: vs => trigger low high on v :: outputs low high (trigger low high on v) vs

theorem outputs_on {vs : List α} (h : ∀ v ∈ vs, low ≤ v) :
    outputs low high true vs = List.replicate vs.length true := by
  induction vs with
  | nil => rfl
  | cons v vs ih =>
      have hon : trigger low high true v = true := by
        simpa only [trigger, if_true, decide_eq_true_eq] using h v List.mem_cons_self
      rw [outputs, hon, ih fun v hv => h v (List.mem_cons_of_mem _ hv)]
      rfl

theorem outputs_off {vs : List α} (h : ∀ v ∈ vs, v < high) :
    outputs low high false vs = List.replicate vs.length false := by
  induction vs with
  | nil => rfl
  | cons v vs ih =>
      have hoff : trigger low high false v = false := by
        simpa only [trigger, Bool.false_eq_true, if_false, decide_eq_false_iff_not, not_le]
          using h v List.mem_cons_self
      rw [outputs, hoff, ih fun v hv => h v (List.mem_cons_of_mem _ hv)]
      rfl

/-- One change at most. -/
def Settles (bs : List Bool) : Prop :=
  ∃ m n b, bs = List.replicate m b ++ List.replicate n (!b)

theorem outputs_rise {vs : List α} (h : ∀ v ∈ vs, low ≤ v) :
    ∃ m n, outputs low high false vs = List.replicate m false ++ List.replicate n true := by
  induction vs with
  | nil => exact ⟨0, 0, rfl⟩
  | cons v vs ih =>
      have hrest := fun v hv => h v (List.mem_cons_of_mem _ hv)
      cases hv : trigger low high false v with
      | true => exact ⟨0, vs.length + 1, by rw [outputs, hv, outputs_on hrest]; rfl⟩
      | false =>
          obtain ⟨m, n, hmn⟩ := ih hrest
          exact ⟨m + 1, n, by rw [outputs, hv, hmn]; rfl⟩

theorem outputs_fall {vs : List α} (h : ∀ v ∈ vs, v < high) :
    ∃ m n, outputs low high true vs = List.replicate m true ++ List.replicate n false := by
  induction vs with
  | nil => exact ⟨0, 0, rfl⟩
  | cons v vs ih =>
      have hrest := fun v hv => h v (List.mem_cons_of_mem _ hv)
      cases hv : trigger low high true v with
      | true =>
          obtain ⟨m, n, hmn⟩ := ih hrest
          exact ⟨m + 1, n, by rw [outputs, hv, hmn]; rfl⟩
      | false => exact ⟨0, vs.length + 1, by rw [outputs, hv, outputs_off hrest]; rfl⟩

/-- On one side of either threshold the trigger settles, on or off at the start. -/
theorem outputs_settle (on : Bool) {vs : List α}
    (h : (∀ v ∈ vs, low ≤ v) ∨ ∀ v ∈ vs, v < high) : Settles (outputs low high on vs) := by
  rcases h with h | h
  · cases on with
    | true => exact ⟨vs.length, 0, true, by rw [outputs_on h]; exact (List.append_nil _).symm⟩
    | false =>
        obtain ⟨m, n, hmn⟩ := outputs_rise h
        exact ⟨m, n, false, hmn⟩
  · cases on with
    | true =>
        obtain ⟨m, n, hmn⟩ := outputs_fall h
        exact ⟨m, n, true, hmn⟩
    | false => exact ⟨vs.length, 0, false, by rw [outputs_off h]; exact (List.append_nil _).symm⟩

end Keytar.Hysteresis

import Mathlib.Data.List.Destutter
import Mathlib.Tactic.Common

/-!
# Sending a value only when the peer may not hold it

A sender keeps what its peer is known to hold, or `none` when it knows nothing.
An offered value goes out unless the peer is known to hold it, and an attempt
that is acknowledged is remembered. An attempt that is not acknowledged leaves
the knowledge as it was: it says nothing about what the peer took.
-/
namespace Keytar.ChangeCache

variable {α : Type*} [DecidableEq α]

/-- Knowledge after one offer, of which `ok` says whether it was acknowledged. -/
def offer (known : Option α) (v : α) (ok : Bool) : Option α :=
  if known = some v then known else if ok then some v else known

/-- The values that go out when each is offered with its acknowledgement. -/
def attempts : Option α → List (α × Bool) → List α
  | _, [] => []
  | known, (v, ok) :: rest =>
      if known = some v then attempts known rest
      else v :: attempts (offer known v ok) rest

theorem attempts_acknowledged_tail (a : α) (l : List α) :
    l.destutter' (· ≠ ·) a = a :: attempts (some a) (l.map (·, true)) := by
  induction l generalizing a with
  | nil => rfl
  | cons b l ih =>
      by_cases h : a = b
      · subst b
        rw [List.destutter'_cons_neg _ (by simp), ih]
        simp [attempts]
      · rw [List.destutter'_cons_pos _ h, ih]
        simp [attempts, offer, h]

/-- With every attempt acknowledged, exactly the repetitions are suppressed. -/
theorem attempts_acknowledged (l : List α) :
    attempts none (l.map (·, true)) = l.destutter (· ≠ ·) := by
  cases l with
  | nil => rfl
  | cons a l =>
      rw [List.destutter_cons', attempts_acknowledged_tail]
      simp [attempts, offer]

/-- With no attempt acknowledged, nothing is ever suppressed. -/
theorem attempts_refused (l : List α) : attempts none (l.map (·, false)) = l := by
  induction l with
  | nil => rfl
  | cons a l ih => simp [attempts, offer, ih]

/-- A sender that is never acknowledged behaves like one that always is exactly
on the sequences that contain no repetition. -/
theorem attempts_refused_eq_iff (l : List α) :
    attempts none (l.map (·, false)) = l.destutter (· ≠ ·) ↔ l.IsChain (· ≠ ·) := by
  rw [attempts_refused, eq_comm]
  exact List.destutter_eq_self_iff _ l

end Keytar.ChangeCache

import Mathlib.Data.Nat.Notation
import Mathlib.Tactic.Common

/-!
# Memory accesses that can go wrong

Every access of a C program that its language leaves undefined is an explicit
fault here. An array is a list that is read by position.
-/
namespace Keytar.Memory

inductive Fault where
  | outOfBounds
  | overflow
  | wild
  | useAfterFree
  | doubleFree
  deriving DecidableEq, Repr

/-- A read of an array element. -/
def readAt {α : Type*} (a : List α) (i : ℕ) : Except Fault α :=
  match a[i]? with
  | some x => .ok x
  | none => .error .outOfBounds

theorem readAt_ok {α : Type*} {a : List α} {i : ℕ} (h : i < a.length) :
    readAt a i = .ok a[i] := by
  simp [readAt, h]

theorem readAt_eq_ok {α : Type*} {a : List α} {i : ℕ} {x : α} :
    readAt a i = .ok x ↔ a[i]? = some x := by
  unfold readAt
  split <;> simp_all

end Keytar.Memory

import Mathlib.Data.Finset.Union
import Mathlib.Data.List.Induction
import Mathlib.Tactic.Common

/-!
# Latches that several owners switch on and off

An owner that is pressed switches its latches on, and one that is released
switches off the latches that it names then, whoever else wants them on. Some
events reset the whole bank first. `owed` is what an owner has switched on since
it was last released. If every release names what its owner owes, then nothing
is on that nobody owes.

The second half is about owners whose latches never change and a sequence of
held sets: a step presses what is new and then releases what is gone.
-/
namespace Keytar.SharedLatches

variable {Owner Latch : Type*} [DecidableEq Latch]

structure Event (Owner Latch : Type*) where
  owner : Owner
  pressed : Bool
  reset : Bool
  latches : Finset Latch

def Event.apply (on : Finset Latch) (e : Event Owner Latch) : Finset Latch :=
  let on := if e.reset then ∅ else on
  if e.pressed then on ∪ e.latches else on \ e.latches

/-- The latches that are on after a sequence of events. -/
def on (es : List (Event Owner Latch)) : Finset Latch := es.foldl Event.apply ∅

@[simp] theorem on_nil : on ([] : List (Event Owner Latch)) = ∅ := rfl

theorem on_concat (es : List (Event Owner Latch)) (e : Event Owner Latch) :
    on (es ++ [e]) = e.apply (on es) := by
  simp [on]

variable [DecidableEq Owner]

def Event.owe (o : Owner) (owed : Finset Latch) (e : Event Owner Latch) : Finset Latch :=
  let owed := if e.reset then ∅ else owed
  if e.owner = o then if e.pressed then owed ∪ e.latches else ∅ else owed

/-- What `o` has switched on since its last release and the last reset. -/
def owed (o : Owner) (es : List (Event Owner Latch)) : Finset Latch := es.foldl (Event.owe o) ∅

/-- Every release names all that its owner owes at that moment. -/
def Covers (es : List (Event Owner Latch)) : Prop :=
  ∀ (i : ℕ) (e : Event Owner Latch), es[i]? = some e → e.pressed = false →
    owed e.owner (es.take i) ⊆ e.latches

section Events
variable (es : List (Event Owner Latch)) (e : Event Owner Latch)

@[simp] theorem owed_nil (o : Owner) : owed o ([] : List (Event Owner Latch)) = ∅ := rfl

theorem owed_concat (o : Owner) : owed o (es ++ [e]) = e.owe o (owed o es) := by
  simp [owed]

theorem covers_concat :
    Covers (es ++ [e]) ↔ Covers es ∧ (e.pressed = false → owed e.owner es ⊆ e.latches) := by
  constructor
  · intro h
    refine ⟨?_, fun hp => by simpa using h es.length e (by simp) hp⟩
    intro i d hi hp
    have hlt := (List.getElem?_eq_some_iff.mp hi).choose
    have hd := h i d (by rw [List.getElem?_append_left hlt, hi]) hp
    rwa [List.take_append_of_le_length hlt.le] at hd
  · rintro ⟨h, he⟩ i d hi hp
    rcases Nat.lt_or_ge i es.length with hlt | hge
    · rw [List.getElem?_append_left hlt] at hi
      rw [List.take_append_of_le_length hlt.le]
      exact h i d hi hp
    · have hlen := (List.getElem?_eq_some_iff.mp hi).choose
      have hi' : i = es.length := by
        simp only [List.length_append, List.length_singleton] at hlen
        omega
      subst i
      obtain rfl : e = d := by simpa using hi
      simpa using he hp

variable {es}

/-- Where every release covers what is owed, whatever is on is owed by someone. -/
theorem exists_owed_of_covers (h : Covers es) : ∀ l ∈ on es, ∃ o, l ∈ owed o es := by
  induction es using List.reverseRecOn with
  | nil => simp
  | append_singleton es e ih =>
      obtain ⟨hes, he⟩ := (covers_concat es e).mp h
      intro l hl
      rw [on_concat] at hl
      cases hp : e.pressed with
      | true =>
          simp only [Event.apply, hp, if_true, Finset.mem_union] at hl
          rcases hl with hl | hl
          · cases hr : e.reset with
            | true => simp [hr] at hl
            | false =>
                -- an older owner keeps owing, also when it is pressed again
                obtain ⟨o, ho⟩ := ih hes l (by simpa [hr] using hl)
                refine ⟨o, ?_⟩
                rw [owed_concat, Event.owe]
                split_ifs <;> simp_all
          · exact ⟨e.owner, by simp [owed_concat, Event.owe, hp, hl]⟩
      | false =>
          simp only [Event.apply, hp, Bool.false_eq_true, if_false, Finset.mem_sdiff] at hl
          cases hr : e.reset with
          | true => simp [hr] at hl
          | false =>
              obtain ⟨o, ho⟩ := ih hes l (by simpa [hr] using hl.1)
              have hne : e.owner ≠ o := by
                rintro rfl
                exact hl.2 (he hp ho)
              exact ⟨o, by simpa [owed_concat, Event.owe, hr, hne] using ho⟩

end Events

section Held
variable (N : Owner → Finset Latch)

/-- One step of a sequence of held sets: new owners switch their latches on,
and then those that are gone switch theirs off. -/
def update (prev new : Finset Owner) (on : Finset Latch) : Finset Latch :=
  (on ∪ (new \ prev).biUnion N) \ (prev \ new).biUnion N

/-- The latches that are on after `t` steps, from none on and nothing held. -/
def onAfter (held : ℕ → Finset Owner) : ℕ → Finset Latch
  | 0 => ∅
  | t + 1 => update N (held t) (held (t + 1)) (onAfter held t)

/-- `o` is held since it was pressed at step `j`, and nobody who shares `l` has
been released from that step on. -/
def Undisturbed (held : ℕ → Finset Owner) (l : Latch) (o : Owner) (j t : ℕ) : Prop :=
  j < t ∧ o ∉ held j ∧ (∀ i, j < i → i ≤ t → o ∈ held i) ∧
    ∀ i, j ≤ i → i < t → ∀ q ∈ held i \ held (i + 1), l ∉ N q

theorem mem_update (prev new : Finset Owner) (on : Finset Latch) (l : Latch) :
    l ∈ update N prev new on ↔
      (l ∈ on ∨ ∃ o ∈ new \ prev, l ∈ N o) ∧ ∀ q ∈ prev \ new, l ∉ N q := by
  simp only [update, Finset.mem_sdiff, Finset.mem_union, Finset.mem_biUnion]
  push Not
  tauto

variable {N} in
theorem onAfter_congr {held held' : ℕ → Finset Owner} {t : ℕ}
    (h : ∀ i ≤ t, held i = held' i) : onAfter N held t = onAfter N held' t := by
  induction t with
  | zero => rfl
  | succ t ih =>
      rw [onAfter, onAfter, ih fun i hi => h i (by omega), h t (by omega), h (t + 1) le_rfl]

omit [DecidableEq Latch] in
theorem undisturbed_succ (held : ℕ → Finset Owner) (l : Latch) (o : Owner) (j t : ℕ) :
    Undisturbed N held l o j (t + 1) ↔
      o ∈ held (t + 1) ∧ (∀ q ∈ held t \ held (t + 1), l ∉ N q) ∧
        (Undisturbed N held l o j t ∨ j = t ∧ o ∉ held t) := by
  constructor
  · rintro ⟨hj, hoj, hheld, hquiet⟩
    refine ⟨hheld (t + 1) hj le_rfl, hquiet t (by omega) (by omega), ?_⟩
    rcases Nat.lt_or_ge j t with hlt | hge
    · exact .inl ⟨hlt, hoj, fun i hji hit => hheld i hji (by omega),
        fun i hji hit => hquiet i hji (by omega)⟩
    · obtain rfl : j = t := by omega
      exact .inr ⟨rfl, hoj⟩
  · rintro ⟨hstill, hgone, ⟨hj, hoj, hheld, hquiet⟩ | ⟨rfl, hoj⟩⟩
    · refine ⟨by omega, hoj, fun i hji hit => ?_, fun i hji hit => ?_⟩
      · rcases Nat.of_le_succ hit with hle | rfl
        · exact hheld i hji hle
        · exact hstill
      · rcases Nat.lt_or_eq_of_le (Nat.le_of_lt_succ hit) with hlt | rfl
        · exact hquiet i hji hlt
        · exact hgone
    · refine ⟨by omega, hoj, fun i hji hit => ?_, fun i hji hit => ?_⟩
      · obtain rfl : i = j + 1 := by omega
        exact hstill
      · obtain rfl : i = j := by omega
        exact hgone

/-- A latch is on exactly if some held owner has been undisturbed in it. -/
theorem mem_onAfter_iff (held : ℕ → Finset Owner) (h0 : held 0 = ∅) (t : ℕ) (l : Latch) :
    l ∈ onAfter N held t ↔
      ∃ o ∈ held t, l ∈ N o ∧ ∃ j, Undisturbed N held l o j t := by
  induction t with
  | zero => simp [onAfter, h0]
  | succ t ih =>
      rw [onAfter, mem_update, ih]
      simp only [undisturbed_succ]
      constructor
      · rintro ⟨⟨o, ho, hl, j, hu⟩ | ⟨o, ho, hl⟩, hgone⟩
        · -- an owner from before is still held, else its own release names `l`
          have hstill : o ∈ held (t + 1) := by
            by_contra hout
            exact hgone o (by simp [ho, hout]) hl
          exact ⟨o, hstill, hl, j, hstill, hgone, .inl hu⟩
        · obtain ⟨hnew, hold⟩ := Finset.mem_sdiff.mp ho
          exact ⟨o, hnew, hl, t, hnew, hgone, .inr ⟨rfl, hold⟩⟩
      · rintro ⟨o, ho, hl, j, -, hgone, hu | ⟨rfl, hold⟩⟩
        · exact ⟨.inl ⟨o, hu.2.2.1 t hu.1 le_rfl, hl, j, hu⟩, hgone⟩
        · exact ⟨.inr ⟨o, by simp [ho, hold], hl⟩, hgone⟩

end Held

end Keytar.SharedLatches

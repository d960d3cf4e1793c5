import Keytar.Lib.Memory
import Mathlib.Data.List.Nodup

/-!
# Allocated blocks of one type

Blocks are numbered in the order of their allocation and a number is never used
again, so a stale pointer stays distinguishable. A heap is described by the list
of all its live blocks with their contents: every operation on a block of that
list succeeds, and what it does to the list says that nothing else is touched,
nothing leaks and nothing is freed early.
-/
namespace Keytar.Memory

abbrev Ptr := ℕ

structure Heap (α : Type*) where
  blocks : List (Option α)
  deriving DecidableEq, Repr

namespace Heap
variable {α : Type*} (h : Heap α)

def empty : Heap α := ⟨[]⟩

def alloc (x : α) : Ptr × Heap α := (h.blocks.length, ⟨h.blocks ++ [some x]⟩)

def read (p : Ptr) : Except Fault α :=
  match h.blocks[p]? with
  | some (some x) => .ok x
  | some none => .error .useAfterFree
  | none => .error .wild

def write (p : Ptr) (x : α) : Except Fault (Heap α) :=
  match h.blocks[p]? with
  | some (some _) => .ok ⟨h.blocks.set p (some x)⟩
  | some none => .error .useAfterFree
  | none => .error .wild

def free (p : Ptr) : Except Fault (Heap α) :=
  match h.blocks[p]? with
  | some (some _) => .ok ⟨h.blocks.set p none⟩
  | some none => .error .doubleFree
  | none => .error .wild

/-- The number of blocks allocated so far, which is the address of the next one. -/
def size : ℕ := h.blocks.length

def liveCount : ℕ := h.blocks.countP Option.isSome

/-- The list names every live block once, with its contents. -/
structure Owns (l : List (Ptr × α)) : Prop where
  nodup : (l.map Prod.fst).Nodup
  live : ∀ p x, h.blocks[p]? = some (some x) ↔ (p, x) ∈ l

variable {h}

theorem read_ok_iff {p : Ptr} {x : α} : h.read p = .ok x ↔ h.blocks[p]? = some (some x) := by
  unfold read
  split <;> simp_all

@[simp] theorem alloc_fst (x : α) : (h.alloc x).1 = h.size := rfl

@[simp] theorem size_alloc (x : α) : (h.alloc x).2.size = h.size + 1 := by
  simp [size, alloc]

/-- A block after an allocation is the new one or an old one. -/
theorem read_alloc {x y : α} {p : Ptr} (hr : (h.alloc x).2.read p = .ok y) :
    h.read p = .ok y ∨ y = x := by
  rw [read_ok_iff, alloc] at hr
  rw [read_ok_iff]
  rcases Nat.lt_or_ge p h.blocks.length with hlt | hge
  · exact .inl (by rwa [List.getElem?_append_left hlt] at hr)
  · rw [List.getElem?_append_right hge, List.getElem?_singleton] at hr
    split_ifs at hr
    exact .inr (Option.some.inj (Option.some.inj hr)).symm

theorem read_alloc_ne {x y : α} {p : Ptr} (hp : p ≠ h.size)
    (hr : (h.alloc x).2.read p = .ok y) : h.read p = .ok y := by
  rw [read_ok_iff, alloc] at hr
  rw [read_ok_iff]
  rcases Nat.lt_or_ge p h.blocks.length with hlt | hge
  · rwa [List.getElem?_append_left hlt] at hr
  · rw [List.getElem?_append_right hge, List.getElem?_singleton] at hr
    split_ifs at hr with hzero
    exact (hp (Nat.le_antisymm (Nat.le_of_sub_eq_zero hzero) hge)).elim

/-- After a write the block holds what was written, and the others what they held. -/
theorem read_write {h' : Heap α} {p q : Ptr} {x y : α} (hw : h.write p x = .ok h')
    (hr : h'.read q = .ok y) : (q = p ∧ y = x) ∨ (q ≠ p ∧ h.read q = .ok y) := by
  unfold write at hw
  split at hw
  · next z hz =>
      obtain rfl := Except.ok.inj hw
      rw [read_ok_iff] at hr
      by_cases hq : q = p
      · subst hq
        rw [List.getElem?_set_self (List.getElem?_eq_some_iff.mp hz).choose] at hr
        exact .inl ⟨rfl, (Option.some.inj (Option.some.inj hr)).symm⟩
      · rw [List.getElem?_set_ne (Ne.symm hq)] at hr
        exact .inr ⟨hq, read_ok_iff.mpr hr⟩
  · cases hw
  · cases hw

/-- What is live after a `free` was live before it. -/
theorem read_free {h' : Heap α} {p q : Ptr} {y : α} (hf : h.free p = .ok h')
    (hr : h'.read q = .ok y) : h.read q = .ok y := by
  unfold free at hf
  split at hf
  · next z hz =>
      obtain rfl := Except.ok.inj hf
      rw [read_ok_iff] at hr ⊢
      by_cases hq : q = p
      · subst hq
        rw [List.getElem?_set_self (List.getElem?_eq_some_iff.mp hz).choose] at hr
        cases hr
      · rwa [List.getElem?_set_ne (Ne.symm hq)] at hr
  · cases hf
  · cases hf

/-- A successful `free` is of a live block, so a loop that frees is bounded. -/
theorem liveCount_free {h' : Heap α} {p : Ptr} (hf : h.free p = .ok h') :
    h'.liveCount + 1 = h.liveCount := by
  unfold free at hf
  split at hf
  · next x hx =>
      obtain ⟨hlt, hget⟩ := List.getElem?_eq_some_iff.mp hx
      obtain rfl := Except.ok.inj hf
      have hpos : 0 < h.blocks.countP Option.isSome :=
        List.countP_pos_iff.mpr ⟨_, List.getElem_mem hlt, by simp [hget]⟩
      simp only [liveCount, List.countP_set hlt, hget, Option.isSome_some, if_true,
        Option.isSome_none, Bool.false_eq_true, if_false]
      omega
  · simp at hf
  · simp at hf

theorem owns_empty : (empty : Heap α).Owns [] where
  nodup := List.nodup_nil
  live := fun p x => by simp [empty]

namespace Owns
variable {l l' : List (Ptr × α)} {p : Ptr} {x y : α}

theorem read (ho : h.Owns l) (hp : (p, x) ∈ l) : h.read p = .ok x :=
  read_ok_iff.mpr ((ho.live p x).mpr hp)

theorem mem_of_read (ho : h.Owns l) (hr : h.read p = .ok x) : (p, x) ∈ l :=
  (ho.live p x).mp (read_ok_iff.mp hr)

theorem perm (ho : h.Owns l) (hl : l.Perm l') : h.Owns l' where
  nodup := (hl.map Prod.fst).nodup_iff.mp ho.nodup
  live := fun p x => (ho.live p x).trans hl.mem_iff

theorem lt_length (ho : h.Owns l) (hp : (p, x) ∈ l) : p < h.blocks.length :=
  (List.getElem?_eq_some_iff.mp ((ho.live p x).mpr hp)).choose

theorem alloc (ho : h.Owns l) (x : α) :
    (h.alloc x).2.Owns (((h.alloc x).1, x) :: l) where
  nodup := by
    rw [List.map_cons, List.nodup_cons]
    refine ⟨fun hmem => ?_, ho.nodup⟩
    obtain ⟨⟨p, y⟩, hp, rfl⟩ := List.mem_map.mp hmem
    exact Nat.lt_irrefl _ (ho.lt_length hp)
  live := by
    intro p y
    simp only [Heap.alloc, List.mem_cons, Prod.mk.injEq]
    rcases Nat.lt_trichotomy p h.blocks.length with hlt | rfl | hgt
    · rw [List.getElem?_append_left hlt, ho.live]
      exact ⟨.inr, fun hmem => hmem.resolve_left fun heq => Nat.ne_of_lt hlt heq.1⟩
    · have hnot : (h.blocks.length, y) ∉ l := fun hmem =>
        Nat.lt_irrefl _ (ho.lt_length hmem)
      simp [hnot, eq_comm]
    · have hnone : (h.blocks ++ [some x])[p]? = none := by
        rw [List.getElem?_eq_none_iff, List.length_append, List.length_singleton]
        omega
      rw [hnone]
      refine ⟨fun habs => by simp at habs, ?_⟩
      rintro (⟨rfl, -⟩ | hmem)
      · exact absurd hgt (Nat.lt_irrefl _)
      · exact absurd (ho.lt_length hmem) (Nat.lt_asymm hgt)

theorem free (ho : h.Owns ((p, x) :: l)) :
    ∃ h', h.free p = .ok h' ∧ h'.size = h.size ∧ h'.Owns l := by
  have hx := (ho.live p x).mpr (by simp)
  have hlt := ho.lt_length (p := p) (x := x) (by simp)
  have hnodup := List.nodup_cons.mp ho.nodup
  refine ⟨_, by simp only [Heap.free, hx]; rfl, by simp [size], hnodup.2, ?_⟩
  intro q y
  by_cases hq : q = p
  · subst q
    simp only [List.getElem?_set_self hlt, Option.some.injEq, reduceCtorEq, false_iff]
    exact fun hmem => hnodup.1 (List.mem_map.mpr ⟨_, hmem, rfl⟩)
  · rw [List.getElem?_set_ne (Ne.symm hq), ho.live, List.mem_cons, Prod.mk.injEq]
    exact ⟨fun hmem => hmem.resolve_left fun heq => hq heq.1, .inr⟩

theorem write (ho : h.Owns (l ++ (p, x) :: l')) (y : α) :
    ∃ h', h.write p y = .ok h' ∧ h'.size = h.size ∧ h'.Owns (l ++ (p, y) :: l') := by
  have hx := (ho.live p x).mpr (by simp)
  have hlt := ho.lt_length (p := p) (x := x) (by simp)
  have hkeys : (l ++ (p, y) :: l').map Prod.fst = (l ++ (p, x) :: l').map Prod.fst := by simp
  refine ⟨_, by simp only [Heap.write, hx]; rfl, by simp [size], hkeys ▸ ho.nodup, ?_⟩
  intro q z
  by_cases hq : q = p
  · subst hq
    have hkey := ho.nodup
    rw [List.map_append, List.map_cons, List.nodup_middle, List.nodup_cons,
      ← List.map_append] at hkey
    have hout : (q, z) ∉ l ++ l' := fun hmem => hkey.1 (List.mem_map.mpr ⟨_, hmem, rfl⟩)
    simp only [List.mem_append, not_or] at hout
    simp [List.getElem?_set_self hlt, hout, eq_comm]
  · rw [List.getElem?_set_ne (Ne.symm hq), ho.live]
    simp [hq]

/-- The rule for a write, for a block somewhere in the list. -/
theorem update (ho : h.Owns l) (hp : (p, x) ∈ l) (y : α) :
    ∃ h', h.write p y = .ok h' ∧ h'.size = h.size ∧
      h'.Owns (l.map fun q => if q.1 = p then (p, y) else q) := by
  obtain ⟨a, b, rfl⟩ := List.append_of_mem hp
  obtain ⟨h', hw, hsize, ho'⟩ := ho.write y
  refine ⟨h', hw, hsize, ?_⟩
  have hkey := ho.nodup
  rw [List.map_append, List.map_cons, List.nodup_middle, List.nodup_cons, ← List.map_append]
    at hkey
  have hother : ∀ q ∈ a ++ b, (if q.1 = p then (p, y) else q) = q := by
    intro q hq
    rw [if_neg]
    rintro rfl
    exact hkey.1 (List.mem_map.mpr ⟨q, hq, rfl⟩)
  have ha := List.map_congr_left fun q hq => hother q (List.mem_append_left b hq)
  have hb := List.map_congr_left fun q hq => hother q (List.mem_append_right a hq)
  rw [List.map_id'] at ha hb
  rwa [List.map_append, List.map_cons, ha, hb, if_pos rfl]

end Owns

end Heap

end Keytar.Memory

import Keytar.MenuEffects

/-!
# Menus that have items

Only the connect menu can be without items, when it is opened before a peripheral has
been found. An input that is answered otherwise leaves no menu without items behind.
-/
namespace Keytar.FurnishedMenus
open Memory MenuEffects Ui Menus
open Relation (ReflTransGen)

/-- Every live menu has an item, except for the one that is being built. -/
structure Furnished (building : Option Ptr) (m : MenuHeap Item) : Prop where
  menus : ∀ p self, m.menus.read p = .ok self → self.length ≠ 0 ∨ building = some p
  arrays : ∀ p slots, m.arrays.read p = .ok slots → slots.length < 256

section Building
variable {building : Option Ptr} {m m' : MenuHeap Item}

theorem newMenu_furnished (h : Furnished none m) (itemCapacity : UInt8) :
    Furnished (some (newMenu itemCapacity m).1) (newMenu itemCapacity m).2 where
  menus := by
    intro p self hp
    by_cases hnew : p = m.menus.size
    · exact .inr (congrArg some hnew.symm)
    · exact .inl ((h.menus p self (Heap.read_alloc_ne hnew hp)).resolve_right nofun)
  arrays := by
    intro p slots hp
    rcases Heap.read_alloc hp with hold | rfl
    · exact h.arrays p slots hold
    · rw [List.length_replicate]
      exact itemCapacity.toNat_lt

/-- The capacity keeps the counter of the items from wrapping. -/
theorem addItem_furnished {menu : Ptr} {item : Item} (h : Furnished building m)
    (hmenu : ∀ p, building = some p → p = menu) (hadd : addItem menu item m = .ok m') :
    Furnished none m' := by
  obtain ⟨self, hself, hadd⟩ := Runs.bind_ok hadd
  obtain ⟨slots, hslots, hadd⟩ := Runs.bind_ok hadd
  split_ifs at hadd with hroom
  obtain ⟨arrays, harrays, hadd⟩ := Runs.bind_ok hadd
  obtain ⟨menus, hmenus, hadd⟩ := Runs.bind_ok hadd
  obtain rfl := Except.ok.inj hadd
  refine ⟨fun p record hp => .inl ?_, fun p row hp => ?_⟩
  · rcases Heap.read_write hmenus hp with ⟨rfl, rfl⟩ | ⟨hne, hold⟩
    · have hcapacity := h.arrays _ slots hslots
      have hlength : (self.length + 1).toNat = self.length.toNat + 1 := by
        rw [UInt8.toNat_add, UInt8.toNat_one]
        omega
      intro hzero
      have hzero' := congrArg UInt8.toNat hzero
      rw [hlength, UInt8.toNat_zero] at hzero'
      omega
    · exact (h.menus p record hold).resolve_right fun hp' => hne (hmenu p hp')
  · rcases Heap.read_write harrays hp with ⟨rfl, rfl⟩ | ⟨-, hold⟩
    · rw [List.length_set]
      exact h.arrays _ slots hslots
    · exact h.arrays p row hold

theorem fill_furnished (h : Furnished none m) (itemCapacity : UInt8) {items : List Item}
    (hitems : items ≠ [])
    (hfill : items.foldlM (fun heap item => addItem (newMenu itemCapacity m).1 item heap)
      (newMenu itemCapacity m).2 = .ok m') : Furnished none m' := by
  obtain ⟨item, items, rfl⟩ := List.exists_cons_of_ne_nil hitems
  rw [List.foldlM_cons] at hfill
  obtain ⟨heap, hheap, hrest⟩ := Runs.bind_ok hfill
  have hfirst := addItem_furnished (newMenu_furnished h itemCapacity)
    (fun p hp => (Option.some.inj hp).symm) hheap
  exact Runs.foldlM_relates (fun a b : MenuHeap Item => Furnished none a → Furnished none b)
    (fun _ ha => ha) (fun _ _ _ hab hbc ha => hbc (hab ha))
    (fun _ _ _ _ hadd ha => addItem_furnished ha nofun hadd) hrest hfirst

theorem freeMenu_furnished {p : Ptr} (h : Furnished none m) (hfree : freeMenu p m = .ok m') :
    Furnished none m' := by
  obtain ⟨self, -, hfree⟩ := Runs.bind_ok hfree
  obtain ⟨slots, -, hfree⟩ := Runs.bind_ok hfree
  obtain ⟨items, -, hfree⟩ := Runs.bind_ok hfree
  obtain ⟨arrays, harrays, hfree⟩ := Runs.bind_ok hfree
  obtain ⟨menus, hmenus, hfree⟩ := Runs.bind_ok hfree
  obtain rfl := Except.ok.inj hfree
  exact ⟨fun q self hq => h.menus q self (Heap.read_free hmenus hq),
    fun q slots hq => h.arrays q slots (Heap.read_free harrays hq)⟩

end Building

section Inputs
variable {a : Answers} {w : World}

theorem effect_furnished (ha : a.deviceCount ≠ 0) {x y : App} (h : Effect a x y)
    (hx : Furnished none x.heap) : Furnished none y.heap := by
  cases h with
  | upkeep h =>
      cases h with
      | free h => exact freeMenu_furnished hx h
      | fill itemCapacity items hitems _ h => exact fill_furnished hx itemCapacity (hitems ha) h
      | roles _ _ => exact hx
  | item _ _ => exact ⟨hx.menus, hx.arrays⟩
  | cursor hself hlength h =>
      refine ⟨fun p record hp => ?_, hx.arrays⟩
      rcases Heap.read_write h hp with ⟨rfl, rfl⟩ | ⟨-, hold⟩
      · rw [hlength]
        exact hx.menus _ _ hself
      · exact hx.menus p record hold
  | keymap _ | strip _ | values _ => exact hx

theorem effects_furnished (ha : a.deviceCount ≠ 0) {x y : App} (h : ReflTransGen (Effect a) x y)
    (hx : Furnished none x.heap) : Furnished none y.heap := by
  induction h with
  | refl => exact hx
  | tail _ heffect ih => exact effect_furnished ha heffect ih

theorem topMenuEmpty_of_furnished (h : Furnished none w.rest.heap) : topMenuEmpty w = false := by
  unfold topMenuEmpty
  split
  · rfl
  split
  · split
    · next self hself => simpa using (h.menus _ self hself).resolve_right nofun
    · rfl
  · rfl

theorem strays_of_furnished (h : Furnished none w.rest.heap) (e : Menus.Event) :
    Strays w e = false := by
  have htop := topMenuEmpty_of_furnished h
  unfold Strays
  split <;> first | exact htop | rfl

end Inputs

end Keytar.FurnishedMenus

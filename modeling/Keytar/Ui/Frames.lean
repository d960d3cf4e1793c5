import Keytar.Lib.Runs
import Keytar.Ui.Menu

/-!
# Which blocks the open menus own

A frame is one layer with its menu, its array and its items. A list of frames
describes the heaps completely: the live blocks are those of the frames and no
others. Each operation is a rule that takes the frames before to the frames
after.
-/
namespace Keytar.Ui
open Memory

structure Frame (ι : Type) where
  layer : Ptr
  menu : Ptr
  array : Ptr
  capacity : ℕ
  index : UInt8
  scroll : UInt8
  items : List (Ptr × ι)

section Frames
variable {ι τ : Type}

def Frame.record (f : Frame ι) : Menu := ⟨UInt8.ofNat f.items.length, f.array, f.index, f.scroll⟩

def Frame.slots (f : Frame ι) : List (Option Ptr) :=
  f.items.map (fun q => some q.1) ++ List.replicate (f.capacity - f.items.length) none

/-- The addresses that a frame consists of. -/
structure Blocks where
  layer : Ptr
  menu : Ptr
  array : Ptr
  items : List Ptr
  deriving DecidableEq, Repr

def Frame.blocks (f : Frame ι) : Blocks := ⟨f.layer, f.menu, f.array, f.items.map Prod.fst⟩

/-- The layer of a frame, as the stack sees it. -/
def Frame.onStack (f : Frame ι) : Ptr × Element := (f.layer, .menu f.menu)

/-- The heaps of menus consist of the blocks of these frames. -/
structure HeapRep (fs : List (Frame ι)) (m : MenuHeap ι) : Prop where
  menus : m.menus.Owns (fs.map fun f => (f.menu, f.record))
  arrays : m.arrays.Owns (fs.map fun f => (f.array, f.slots))
  items : m.items.Owns (fs.flatMap Frame.items)

/-- How many blocks of each kind have been allocated so far. -/
structure Marks where
  layers : ℕ
  menus : ℕ
  arrays : ℕ
  items : ℕ

def MenuHeap.sizes (m : MenuHeap ι) : ℕ × ℕ × ℕ := (m.menus.size, m.arrays.size, m.items.size)

def marks {ε : Type} (layers : Heap (Layer ε)) (m : MenuHeap ι) : Marks :=
  ⟨layers.size, m.sizes.1, m.sizes.2.1, m.sizes.2.2⟩

/-- No allocation has been taken back. -/
structure Marks.Le (a b : Marks) : Prop where
  layers : a.layers ≤ b.layers
  menus : a.menus ≤ b.menus
  arrays : a.arrays ≤ b.arrays
  items : a.items ≤ b.items

/-- All blocks have been allocated since. -/
structure Blocks.Since (m : Marks) (b : Blocks) : Prop where
  layer : m.layers ≤ b.layer
  menu : m.menus ≤ b.menu
  array : m.arrays ≤ b.array
  items : ∀ p ∈ b.items, m.items ≤ p

/-- The frames are the lower part of the old ones, each with the very blocks that
it had, and on top of them frames of new blocks. -/
structure Evolves (m : Marks) (bs : List Blocks) (m' : Marks) (bs' : List Blocks) : Prop where
  grown : m.Le m'
  split : ∃ new k, bs' = new ++ bs.drop k ∧ ∀ b ∈ new, b.Since m

theorem Marks.Le.refl (a : Marks) : a.Le a :=
  ⟨Nat.le_refl _, Nat.le_refl _, Nat.le_refl _, Nat.le_refl _⟩

theorem Marks.Le.trans {a b c : Marks} (h : a.Le b) (h' : b.Le c) : a.Le c :=
  ⟨Nat.le_trans h.layers h'.layers, Nat.le_trans h.menus h'.menus,
    Nat.le_trans h.arrays h'.arrays, Nat.le_trans h.items h'.items⟩

theorem Blocks.Since.mono {a b : Marks} (h : a.Le b) {c : Blocks} (hc : c.Since b) : c.Since a :=
  ⟨Nat.le_trans h.layers hc.layer, Nat.le_trans h.menus hc.menu, Nat.le_trans h.arrays hc.array,
    fun p hp => Nat.le_trans h.items (hc.items p hp)⟩

section Evolves
variable {a b c : Marks} {xs ys zs : List Blocks}

theorem Evolves.refl (a : Marks) (xs : List Blocks) : Evolves a xs a xs :=
  ⟨.refl a, [], 0, rfl, by simp⟩

theorem Evolves.drop (a : Marks) (xs : List Blocks) (k : ℕ) : Evolves a xs a (xs.drop k) :=
  ⟨.refl a, [], k, rfl, by simp⟩

theorem Evolves.push (h : a.Le b) (xs : List Blocks) {x : Blocks} (hx : x.Since a) :
    Evolves a xs b (x :: xs) :=
  ⟨h, [x], 0, rfl, by simpa using hx⟩

/-- New frames of the first half may be gone after the second. -/
theorem Evolves.trans (h : Evolves a xs b ys) (h' : Evolves b ys c zs) : Evolves a xs c zs := by
  obtain ⟨hab, new, k, rfl, hnew⟩ := h
  obtain ⟨hbc, new', k', rfl, hnew'⟩ := h'
  refine ⟨hab.trans hbc, new' ++ new.drop k', k + (k' - new.length), ?_, fun x hx => ?_⟩
  · rw [List.drop_append, List.drop_drop, List.append_assoc, Nat.add_comm k]
  · rcases List.mem_append.mp hx with hx | hx
    · exact (hnew' x hx).mono hab
    · exact hnew x (List.mem_of_mem_drop hx)

end Evolves

/-- A menu as `push_menu` leaves it. -/
def Frame.new (layer menu array : Ptr) (capacity : ℕ) : Frame ι :=
  ⟨layer, menu, array, capacity, 0, 0, []⟩

def Frame.add (f : Frame ι) (q : Ptr × ι) : Frame ι := { f with items := f.items ++ [q] }

def Frame.replace (p : Ptr) (y : ι) (f : Frame ι) : Frame ι :=
  { f with items := f.items.map fun q => if q.1 = p then (p, y) else q }

variable {m : MenuHeap ι} {f : Frame ι} {fs : List (Frame ι)}

theorem empty_heapRep : HeapRep ([] : List (Frame ι)) MenuHeap.empty :=
  ⟨Heap.owns_empty, Heap.owns_empty, Heap.owns_empty⟩

theorem HeapRep.menu (h : HeapRep fs m) (hf : f ∈ fs) : m.menus.read f.menu = .ok f.record :=
  h.menus.read (List.mem_map.mpr ⟨f, hf, rfl⟩)

theorem HeapRep.array (h : HeapRep fs m) (hf : f ∈ fs) : m.arrays.read f.array = .ok f.slots :=
  h.arrays.read (List.mem_map.mpr ⟨f, hf, rfl⟩)

theorem HeapRep.item (h : HeapRep fs m) (hf : f ∈ fs) {q : Ptr × ι} (hq : q ∈ f.items) :
    m.items.read q.1 = .ok q.2 :=
  h.items.read (List.mem_flatMap.mpr ⟨f, hf, hq⟩)

@[simp] theorem Frame.record_items (f : Frame ι) : f.record.items = f.array := rfl

theorem Frame.length_toNat (hshort : f.items.length < 256) :
    f.record.length.toNat = f.items.length := by
  simp [Frame.record, UInt8.toNat_ofNat', Nat.mod_eq_of_lt hshort]

/-- An element of the array is an item exactly below the length. -/
theorem Frame.slot (f : Frame ι) (i : ℕ) : f.slots[i]?.join = (f.items[i]?).map Prod.fst := by
  rw [Frame.slots]
  rcases Nat.lt_or_ge i f.items.length with hi | hi
  · rw [List.getElem?_append_left (by simpa using hi)]
    simp [hi]
  · rw [List.getElem?_append_right (by simpa using hi), List.getElem?_replicate,
      List.getElem?_eq_none hi]
    split_ifs <;> rfl

theorem Frame.readSlot_item (f : Frame ι) {i : ℕ} (hi : i < f.items.length) (stray : Option Ptr) :
    readSlot stray f.slots i = .ok (f.items[i]).1 := by
  simp [readSlot, f.slot, hi]

theorem Frame.readSlot_stray (f : Frame ι) {i : ℕ} (hi : f.items.length ≤ i)
    (stray : Option Ptr) :
    readSlot stray f.slots i =
      match stray with
      | some p => .ok p
      | none => .error .outOfBounds := by
  simp only [readSlot, f.slot, List.getElem?_eq_none hi]
  cases stray <;> rfl

theorem HeapRep.newMenu (h : HeapRep fs m) (itemCapacity : UInt8) (layer : Ptr) :
    HeapRep (Frame.new layer m.menus.size m.arrays.size itemCapacity.toNat :: fs)
        (newMenu itemCapacity m).2 ∧
      (newMenu itemCapacity m).2.sizes = (m.menus.size + 1, m.arrays.size + 1, m.items.size) := by
  refine ⟨⟨h.menus.alloc _, h.arrays.alloc _, ?_⟩, ?_⟩
  · simpa [Frame.new, Ui.newMenu] using h.items
  · simp [MenuHeap.sizes, Ui.newMenu]

theorem HeapRep.addItem (h : HeapRep (f :: fs) m) (x : ι)
    (hroom : f.items.length < f.capacity) (hshort : f.items.length < 255) :
    ∃ m', addItem f.menu x m = .ok m' ∧ HeapRep (f.add (m.items.size, x) :: fs) m' ∧
      m'.sizes = (m.menus.size, m.arrays.size, m.items.size + 1) := by
  have hlength := f.length_toNat (by omega)
  have hslots : f.slots.set f.items.length (some m.items.size) =
      (f.add (m.items.size, x)).slots := by
    obtain ⟨n, hn⟩ := Nat.exists_eq_add_of_lt hroom
    have hn : f.capacity - f.items.length = n + 1 := by omega
    have hn' : f.capacity - (f.items.length + 1) = n := by omega
    simp [Frame.slots, Frame.add, hn, hn', List.replicate_succ]
  have hlt : f.items.length < f.slots.length := by
    simp only [Frame.slots, List.length_append, List.length_map, List.length_replicate]
    omega
  obtain ⟨arrays, harrays, hsize, hown⟩ := Heap.Owns.write (l := []) h.arrays
    (f.add (m.items.size, x)).slots
  obtain ⟨menus, hmenus, hsize', hown'⟩ := Heap.Owns.write (l := []) h.menus
    (f.add (m.items.size, x)).record
  have hrecord : (⟨f.record.length + 1, f.array, f.record.index, f.record.scroll⟩ : Menu) =
      (f.add (m.items.size, x)).record := by
    simp [Frame.record, Frame.add, UInt8.ofNat_add]
  refine ⟨⟨menus, arrays, (m.items.alloc x).2⟩, ?_, ⟨hown', hown, ?_⟩, ?_⟩
  · have hmenu := h.menu (f := f) (by simp)
    have harray := h.array (f := f) (by simp)
    simp only [Ui.addItem, menuAdd, hmenu, Frame.record_items, harray, hlength, if_pos hlt,
      Heap.alloc_fst, hslots, harrays, hrecord, hmenus, bind, Except.bind]
    rfl
  · refine (h.items.alloc x).perm ?_
    simp only [List.flatMap_cons, Frame.add, List.append_assoc]
    exact List.perm_middle.symm
  · simp [MenuHeap.sizes, hsize, hsize']

/-- The adds that fill a new menu. -/
theorem HeapRep.addItems (xs : List ι) :
    ∀ {f : Frame ι} {m : MenuHeap ι}, HeapRep (f :: fs) m →
      f.items.length + xs.length ≤ f.capacity → f.items.length + xs.length ≤ 255 →
      ∃ m' new, xs.foldlM (fun m x => Ui.addItem f.menu x m) m = .ok m' ∧
        HeapRep ({ f with items := f.items ++ new } :: fs) m' ∧ new.map Prod.snd = xs ∧
        (∀ q ∈ new, m.items.size ≤ q.1) ∧
        m'.sizes = (m.menus.size, m.arrays.size, m.items.size + xs.length) := by
  induction xs with
  | nil => exact fun h _ _ => ⟨_, [], rfl, by simpa using h, rfl, by simp, rfl⟩
  | cons x xs ih =>
      intro f m h hcap hshort
      rw [List.length_cons] at hcap hshort
      obtain ⟨m', hadd, hrep, hsizes⟩ := h.addItem x (by omega) (by omega)
      obtain ⟨m'', new, hrest, hrep', hnew, hfresh, hsizes'⟩ := ih hrep
        (by simp only [Frame.add, List.length_append, List.length_singleton]; omega)
        (by simp only [Frame.add, List.length_append, List.length_singleton]; omega)
      simp only [MenuHeap.sizes, Prod.mk.injEq] at hsizes
      obtain ⟨hmenus, harrays, hitems⟩ := hsizes
      refine ⟨m'', (m.items.size, x) :: new, ?_, ?_, by rw [List.map_cons, hnew], ?_, ?_⟩
      · rw [List.foldlM_cons, hadd]
        exact hrest
      · simpa [Frame.add] using hrep'
      · refine List.forall_mem_cons.mpr ⟨Nat.le_refl _, fun q hq => ?_⟩
        have := hfresh q hq
        omega
      · rw [hsizes', hmenus, harrays, hitems, List.length_cons, Nat.add_right_comm, Nat.add_assoc]

theorem HeapRep.freeItems (h : HeapRep (f :: fs) m) (hshort : f.items.length < 256) :
    ∃ items, (List.range f.record.length.toNat).foldlM (freeItem f.slots) m.items = .ok items ∧
      items.size = m.items.size ∧ items.Owns (fs.flatMap Frame.items) := by
  rw [f.length_toNat hshort]
  -- the items from `i` on are still there when the loop reaches `i`
  have hloop := Runs.foldlM_invariant (freeItem f.slots)
    (fun is items => items.size = m.items.size ∧ ∃ i, is = List.range' i (f.items.length - i) ∧
      items.Owns (f.items.drop i ++ fs.flatMap Frame.items)) ?_
    (List.range f.items.length) m.items ⟨rfl, 0, by simp [List.range_eq_range'], h.items⟩
  · obtain ⟨items, hitems, hsize, i, hi, hown⟩ := hloop
    refine ⟨items, hitems, hsize, ?_⟩
    have hlen := congrArg List.length hi
    have hdone : f.items.length ≤ i := by
      rw [List.length_nil, List.length_range'] at hlen
      omega
    simpa [List.drop_eq_nil_of_le hdone] using hown
  · rintro i is items ⟨hsize, j, hj, hown⟩
    rcases Nat.lt_or_ge j f.items.length with hlt | hge
    · obtain ⟨n, hn⟩ := Nat.exists_eq_add_of_lt hlt
      have hlen : f.items.length - j = n + 1 := by omega
      rw [hlen, List.range'_succ, List.cons.injEq] at hj
      obtain ⟨rfl, rfl⟩ := hj
      rw [List.drop_eq_getElem_cons hlt, List.cons_append] at hown
      obtain ⟨items', hfree, hsize', hown'⟩ := hown.free
      have hread := hown.read (p := f.items[i].1) (x := f.items[i].2) (by simp)
      refine ⟨items', ?_, hsize'.trans hsize, i + 1, ?_, hown'⟩
      · simp only [freeItem, f.readSlot_item hlt, hread, bind, Except.bind]
        exact hfree
      · rw [show f.items.length - (i + 1) = n by omega]
    · rw [Nat.sub_eq_zero_of_le hge] at hj
      cases hj

theorem HeapRep.freeMenu (h : HeapRep (f :: fs) m) (hshort : f.items.length < 256) :
    ∃ m', freeMenu f.menu m = .ok m' ∧ HeapRep fs m' ∧ m'.sizes = m.sizes := by
  obtain ⟨items, hitems, hsize, hown⟩ := h.freeItems hshort
  obtain ⟨arrays, harrays, hsize', hown'⟩ := h.arrays.free
  obtain ⟨menus, hmenus, hsize'', hown''⟩ := h.menus.free
  have hmenu := h.menu (f := f) (by simp)
  have harray := h.array (f := f) (by simp)
  refine ⟨⟨menus, arrays, items⟩, ?_, ⟨hown'', hown', hown⟩, ?_⟩
  · simp only [Ui.freeMenu, hmenu, Frame.record_items, harray, hitems, harrays, hmenus, bind,
      Except.bind]
    rfl
  · simp only [MenuHeap.sizes, hsize, hsize', hsize'']

/-- Moving the cursor writes to the menu alone. -/
theorem HeapRep.moved (h : HeapRep (f :: fs) m) (index scroll : UInt8) :
    ∃ menus, m.menus.write f.menu { f.record with index := index, scroll := scroll } = .ok menus ∧
      menus.size = m.menus.size ∧
      HeapRep ({ f with index := index, scroll := scroll } :: fs) { m with menus := menus } := by
  obtain ⟨menus, hmenus, hsize, hown⟩ := Heap.Owns.write (l := []) h.menus
    { f.record with index := index, scroll := scroll }
  exact ⟨menus, hmenus, hsize, hown, h.arrays, h.items⟩

@[simp] theorem Frame.replace_menu (p : Ptr) (y : ι) (f : Frame ι) :
    (f.replace p y).menu = f.menu := rfl

@[simp] theorem Frame.replace_array (p : Ptr) (y : ι) (f : Frame ι) :
    (f.replace p y).array = f.array := rfl

@[simp] theorem Frame.replace_record (p : Ptr) (y : ι) (f : Frame ι) :
    (f.replace p y).record = f.record := by
  simp [Frame.replace, Frame.record]

theorem Frame.replace_blocks (p : Ptr) (y : ι) (f : Frame ι) :
    (f.replace p y).blocks = f.blocks := by
  simp only [Frame.replace, Frame.blocks, List.map_map, Blocks.mk.injEq, true_and]
  refine List.map_congr_left fun q _ => ?_
  by_cases hq : q.1 = p <;> simp [hq]

@[simp] theorem Frame.replace_slots (p : Ptr) (y : ι) (f : Frame ι) :
    (f.replace p y).slots = f.slots := by
  have hptrs : ((f.replace p y).items).map Prod.fst = f.items.map Prod.fst := by
    exact congrArg Blocks.items (f.replace_blocks p y)
  have hlength : (f.replace p y).items.length = f.items.length := by simp [Frame.replace]
  have hmap (g : Frame ι) : g.items.map (fun q => some q.1) = (g.items.map Prod.fst).map some := by
    rw [List.map_map]
    rfl
  rw [Frame.slots, Frame.slots, hmap, hmap, hptrs, hlength]
  rfl

/-- A write through the pointer of one item changes the item at its position. -/
theorem Frame.replace_items (hnodup : (f.items.map Prod.fst).Nodup) {i : ℕ}
    (hi : i < f.items.length) (y : ι) :
    (f.replace (f.items[i]).1 y).items.map Prod.snd = (f.items.map Prod.snd).set i y := by
  have hptr : ∀ j (hj : j < f.items.length), (f.items[j]).1 = (f.items[i]).1 → i = j := by
    intro j hj hsame
    have hi' : i < (f.items.map Prod.fst).length := by rwa [List.length_map]
    have hj' : j < (f.items.map Prod.fst).length := by rwa [List.length_map]
    have hptrs : (f.items.map Prod.fst)[i] = (f.items.map Prod.fst)[j] := by
      rw [List.getElem_map, List.getElem_map, hsame]
    exact hnodup.getElem_inj_iff.mp hptrs
  refine List.ext_getElem (by simp [Frame.replace]) fun j hj _ => ?_
  have hj' : j < f.items.length := by simpa [Frame.replace] using hj
  simp only [Frame.replace, List.getElem_map, List.getElem_set]
  by_cases hij : i = j
  · subst hij
    rw [if_pos rfl, if_pos rfl]
  · rw [if_neg fun hsame => hij (hptr j hj' hsame), if_neg hij]

/-- A write to an item leaves every block where it is. -/
theorem HeapRep.writeItem (h : HeapRep fs m) {p : Ptr} {x : ι} (hx : m.items.read p = .ok x)
    (y : ι) :
    ∃ items, m.items.write p y = .ok items ∧ items.size = m.items.size ∧
      HeapRep (fs.map (Frame.replace p y)) { m with items := items } := by
  obtain ⟨items, hitems, hsize, hown⟩ := h.items.update (h.items.mem_of_read hx) y
  refine ⟨items, hitems, hsize, ?_, ?_, ?_⟩
  · simpa [List.map_map, Function.comp_def] using h.menus
  · simpa [List.map_map, Function.comp_def] using h.arrays
  · simpa [List.flatMap_map, List.map_flatMap, Frame.replace] using hown

section Render
variable {draw : ι → Bool → Except Fault τ}

theorem HeapRep.renderLines (h : HeapRep fs m) (hf : f ∈ fs) (hshort : f.items.length < 256)
    (hdraw : ∀ q ∈ f.items, ∀ focus, ∃ c, draw q.2 focus = .ok c) (focus : Bool) :
    ∀ (n : ℕ) (iLine y : UInt8), n + iLine.toNat ≤ 8 →
      ∃ lines, renderLines draw m f.record f.slots focus n iLine y = .ok lines := by
  intro n
  induction n with
  | zero => exact fun _ _ _ => ⟨[], rfl⟩
  | succ n ih =>
      intro iLine y hn
      simp only [Ui.renderLines]
      split_ifs with hin
      · rw [f.length_toNat hshort] at hin
        have hindex : (f.record.scroll + iLine).toNat < f.items.length := by
          rw [UInt8.toNat_add]
          omega
        have hnext : n + (iLine + 1).toNat ≤ 8 := by
          rw [UInt8.toNat_add, UInt8.toNat_one]
          omega
        have hmem : f.items[(f.record.scroll + iLine).toNat] ∈ f.items := List.getElem_mem hindex
        obtain ⟨c, hc⟩ := hdraw _ hmem (focus && f.record.scroll + iLine == f.record.index)
        obtain ⟨lines, hlines⟩ := ih (iLine + 1) (y + 8) hnext
        simp only [f.readSlot_item hindex, h.item hf hmem, hc, hlines, bind, Except.bind]
        exact ⟨_, rfl⟩
      · exact ⟨[], rfl⟩

/-- A redraw reads live items only. -/
theorem HeapRep.renderMenu (draw : ι → Bool → Except Fault τ) (h : HeapRep fs m) (hf : f ∈ fs)
    (hshort : f.items.length < 256)
    (hdraw : ∀ q ∈ f.items, ∀ focus, ∃ c, draw q.2 focus = .ok c) (y : UInt8) (focus : Bool) :
    ∃ lines, renderMenu draw y focus f.menu m = .ok lines := by
  obtain ⟨lines, hlines⟩ := h.renderLines hf hshort hdraw focus 8 0 y (by decide)
  refine ⟨lines, ?_⟩
  simp only [Ui.renderMenu, h.menu hf, Frame.record_items, h.array hf, bind, Except.bind]
  exact hlines

end Render

end Frames

end Keytar.Ui

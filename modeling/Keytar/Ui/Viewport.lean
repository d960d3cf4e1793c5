import Keytar.Ui.Element
import Keytar.Ui.Frames

/-!
# The visible part of a menu

A menu shows eight of its items from `scroll` on. The cursor moves by one item, and
the window follows it by the shortest way, so after any moves the cursor is in the
window and the window does not reach behind the last item without need.
-/
namespace Keytar.Ui
open Memory

/-- The inputs that move the cursor. -/
inductive Move where
  | up | down
  deriving DecidableEq, Repr

def Move.nav : Move → Nav
  | .up => .up
  | .down => .down

def Move.on : Move → Menu → Menu
  | .up => menuUp
  | .down => menuDown

structure InView (menu : Menu) : Prop where
  index : menu.index.toNat < menu.length.toNat ∨ (menu.length = 0 ∧ menu.index = 0)
  scroll_le : menu.scroll.toNat ≤ menu.index.toNat
  index_le : menu.index.toNat ≤ menu.scroll.toNat + 7
  filled : menu.scroll = 0 ∨ menu.scroll.toNat + 8 ≤ menu.length.toNat

/-- Each byte that a move stores is the `int` that it has computed. -/
structure NoWrap (menu : Menu) : Prop where
  up : ((menuUp menu).index.toNat : ℤ) = max ((menu.index.toNat : ℤ) - 1) 0
  down : ((menuDown menu).index.toNat : ℤ) =
    min ((menu.index.toNat : ℤ) + 1) (max ((menu.length.toNat : ℤ) - 1) 0)
  scroll : ((menuDown menu).scroll.toNat : ℤ) =
    if (menu.scroll.toNat : ℤ) < ((menuDown menu).index.toNat : ℤ) - 8 + 1 then
      ((menuDown menu).index.toNat : ℤ) - 8 + 1
    else menu.scroll.toNat

section Moves
variable {self : Menu}

theorem menuDown_scroll (self : Menu) : (menuDown self).scroll.toNat =
    max self.scroll.toNat ((menuDown self).index.toNat - 7) := by
  have hlt := (menuDown self).index.toNat_lt
  generalize hindex : (menuDown self).index = index at hlt
  have hscroll : (menuDown self).scroll =
      if (self.scroll.toNat : ℤ) < (index.toNat : ℤ) - 8 + 1 then
        UInt8.ofInt ((index.toNat : ℤ) - 8 + 1)
      else self.scroll := by
    rw [← hindex]
    rfl
  rw [hscroll]
  split_ifs with h
  · rw [UInt8.ofInt, UInt8.toNat_ofNat']
    omega
  · omega

theorem menuUp_scroll (self : Menu) : (menuUp self).scroll.toNat =
    min self.scroll.toNat (menuUp self).index.toNat := by
  have hscroll : (menuUp self).scroll =
      if self.scroll > (menuUp self).index then (menuUp self).index else self.scroll := rfl
  rw [hscroll]
  split_ifs with h
  · have := UInt8.lt_iff_toNat_lt.mp h
    omega
  · have := UInt8.lt_iff_toNat_lt.not.mp h
    omega

theorem noWrap (self : Menu) : NoWrap self where
  up := by
    have := menuUp_index self
    omega
  down := by
    have := menuDown_index self
    omega
  scroll := by
    have := menuDown_scroll self
    split_ifs <;> omega

theorem InView.move (h : InView self) (move : Move) : InView (move.on self) := by
  obtain ⟨hindex, hlow, hhigh, hfilled⟩ := h
  simp only [← UInt8.toNat_inj, UInt8.toNat_zero] at hindex hfilled
  cases move with
  | up =>
      have hi := menuUp_index self
      have hs := menuUp_scroll self
      have hl : (menuUp self).length.toNat = self.length.toNat := rfl
      refine ⟨?_, ?_, ?_, ?_⟩ <;>
        simp only [Move.on, ← UInt8.toNat_inj, UInt8.toNat_zero] <;> omega
  | down =>
      have hi := menuDown_index self
      have hs := menuDown_scroll self
      have hl : (menuDown self).length.toNat = self.length.toNat := rfl
      refine ⟨?_, ?_, ?_, ?_⟩ <;>
        simp only [Move.on, ← UInt8.toNat_inj, UInt8.toNat_zero] <;> omega

end Moves

section Drawing
variable {ι τ : Type}

/-- The items in the window, each with its position in the menu. -/
def visible (items : List ι) (scroll : ℕ) : List (ι × ℕ) := (items.zipIdx.drop scroll).take 8

def lineOf (picture : ι → Bool → τ) (focus : Bool) (self : Menu) (q : ι × ℕ) : Line τ :=
  let atCursor := q.2 == self.index.toNat
  ⟨UInt8.ofNat (8 * (q.2 - self.scroll.toNat)), atCursor, focus && atCursor,
    picture q.1 (focus && atCursor)⟩

/-- The window holds the items from `scroll` on, as far as there are any. -/
theorem visible_positions (items : List ι) (scroll : ℕ) :
    (visible items scroll).map Prod.snd =
      List.range' scroll (min (scroll + 8) items.length - scroll) := by
  rw [visible, List.map_take, List.map_drop, List.zipIdx_map_snd, List.drop_range',
    Nat.zero_add, Nat.mul_one]
  rcases Nat.le_total (items.length - scroll) 8 with hfew | hmany
  · rw [List.take_range'_of_length_le hfew]
    congr 1
    omega
  · rw [List.take_range'_of_length_ge hmany]
    congr 1
    omega

theorem beq_toNat (a b : UInt8) : (a == b) = (a.toNat == b.toNat) := by
  rw [Bool.eq_iff_iff, beq_iff_eq, beq_iff_eq, UInt8.toNat_inj]

variable {m : MenuHeap ι} {f : Frame ι} {fs : List (Frame ι)}
  {draw : ι → Bool → Except Fault τ} {picture : ι → Bool → τ}

theorem HeapRep.renderLines_eq (h : HeapRep fs m) (hf : f ∈ fs) (hshort : f.items.length < 256)
    (hdraw : ∀ q ∈ f.items, ∀ focus, draw q.2 focus = .ok (picture q.2 focus)) (focus : Bool) :
    ∀ n iLine : ℕ, n + iLine ≤ 8 →
      Ui.renderLines draw m f.record f.slots focus n (UInt8.ofNat iLine) (UInt8.ofNat (8 * iLine)) =
        .ok ((((f.items.map Prod.snd).zipIdx.drop (f.scroll.toNat + iLine)).take n).map
          (lineOf picture focus f.record)) := by
  intro n
  induction n with
  | zero => exact fun _ _ => rfl
  | succ n ih =>
      intro iLine hn
      have hrow : (UInt8.ofNat iLine).toNat = iLine := by
        rw [UInt8.toNat_ofNat']
        omega
      have hscroll : f.record.scroll = f.scroll := rfl
      simp only [Ui.renderLines, hrow, f.length_toNat hshort, hscroll]
      split_ifs with hin
      · have hin' : f.scroll.toNat + iLine < f.items.length := by omega
        have hindex : (f.scroll + UInt8.ofNat iLine).toNat = f.scroll.toNat + iLine := by
          rw [UInt8.toNat_add, hrow]
          exact Nat.mod_eq_of_lt (by omega)
        have hmem : f.items[f.scroll.toNat + iLine] ∈ f.items := List.getElem_mem hin'
        have hnext := ih (iLine + 1) (by omega)
        have hrow' : UInt8.ofNat iLine + 1 = UInt8.ofNat (iLine + 1) := (UInt8.ofNat_add ..).symm
        have hy' : UInt8.ofNat (8 * iLine) + 8 = UInt8.ofNat (8 * (iLine + 1)) :=
          (UInt8.ofNat_add ..).symm
        rw [List.drop_eq_getElem_cons (by simpa using hin'), List.take_succ_cons, List.map_cons]
        simp only [hindex, beq_toNat, f.readSlot_item hin', h.item hf hmem, hdraw _ hmem, hrow',
          hy', hnext, bind, Except.bind]
        simp [lineOf, hscroll, Nat.add_assoc]
        rfl
      · rw [List.drop_eq_nil_of_le (by simp; omega)]
        rfl

/-- A drawn menu is the lines of its window. -/
theorem HeapRep.renderMenu_eq (h : HeapRep fs m) (hf : f ∈ fs) (hshort : f.items.length < 256)
    (hdraw : ∀ q ∈ f.items, ∀ focus, draw q.2 focus = .ok (picture q.2 focus)) (focus : Bool) :
    Ui.renderMenu draw 0 focus f.menu m =
      .ok ((visible (f.items.map Prod.snd) f.scroll.toNat).map
        (lineOf picture focus f.record)) := by
  have hlines := h.renderLines_eq hf hshort hdraw focus 8 0 (by decide)
  simp only [Ui.renderMenu, h.menu hf, Frame.record_items, h.array hf, bind, Except.bind]
  exact hlines

variable {items : List ι} {self : Menu} {focus : Bool}

/-- The lines of the window, one for each position. -/
abbrev lines (picture : ι → Bool → τ) (focus : Bool) (self : Menu) (items : List ι) :
    List (Line τ) :=
  (visible items self.scroll.toNat).map (lineOf picture focus self)

/-- The lines follow each other at a distance of eight pixels. -/
theorem lines_y : (lines picture focus self items).map (fun line => line.y.toNat) =
    (List.range (min (self.scroll.toNat + 8) items.length - self.scroll.toNat)).map (8 * ·) := by
  have hrows : (lines picture focus self items).map (fun line => line.y.toNat) =
      ((visible items self.scroll.toNat).map Prod.snd).map
        fun i => (UInt8.ofNat (8 * (i - self.scroll.toNat))).toNat := by
    rw [List.map_map, List.map_map]
    rfl
  rw [hrows, visible_positions, List.range'_eq_map_range, List.map_map]
  refine List.map_congr_left fun i hi => ?_
  have hrow := List.mem_range.mp hi
  rw [Function.comp_apply, UInt8.toNat_ofNat']
  omega

/-- The cursor is at a position of the window. -/
theorem index_visible (hview : InView self) (hlength : self.length.toNat = items.length)
    (hitems : items ≠ []) :
    self.index.toNat ∈ (visible items self.scroll.toNat).map Prod.snd := by
  have hpos : 0 < items.length := List.length_pos_iff.mpr hitems
  have hindex := hview.index
  simp only [← UInt8.toNat_inj, UInt8.toNat_zero] at hindex
  have hlow := hview.scroll_le
  have hhigh := hview.index_le
  rw [visible_positions, List.mem_range'_1]
  omega

/-- A property that only the line of the cursor has. -/
theorem countP_lines {p : Line τ → Bool} (hview : InView self)
    (hlength : self.length.toNat = items.length) (hitems : items ≠ [])
    (hp : ∀ q, p (lineOf picture focus self q) = (q.2 == self.index.toNat)) :
    (lines picture focus self items).countP p = 1 := by
  have hnodup : ((visible items self.scroll.toNat).map Prod.snd).Nodup := by
    rw [visible_positions]
    exact List.nodup_range' 1
  have hcount := List.count_eq_one_of_mem hnodup (index_visible hview hlength hitems)
  rw [← hcount, List.count, List.countP_map, List.countP_map]
  exact List.countP_congr fun q _ => by rw [Function.comp_apply, hp, Function.comp_apply]

/-- The line of the cursor is the one of the item that the cursor is on. -/
theorem lines_find (hview : InView self) (hlength : self.length.toNat = items.length) {x : ι}
    (hx : items[self.index.toNat]? = some x) :
    (lines picture focus self items).find? Line.cursor =
      some (lineOf picture focus self (x, self.index.toNat)) := by
  have hitems : items ≠ [] := List.ne_nil_of_length_pos
    (Nat.zero_lt_of_lt (List.getElem?_eq_some_iff.mp hx).choose)
  obtain ⟨q, hq, hqi⟩ := List.mem_map.mp (index_visible hview hlength hitems)
  rw [lines, List.find?_map]
  cases hfound : (visible items self.scroll.toNat).find?
      (Line.cursor ∘ lineOf picture focus self) with
  | none =>
      have hmiss := List.find?_eq_none.mp hfound q hq
      simp [lineOf, hqi] at hmiss
  | some v =>
      have hcursor : v.2 = self.index.toNat := by simpa [lineOf] using List.find?_some hfound
      have hmem : v ∈ items.zipIdx :=
        List.mem_of_mem_drop (List.mem_of_mem_take (List.mem_of_find?_eq_some hfound))
      have hv : items[v.2]? = some v.1 := List.mk_mem_zipIdx_iff_getElem?.mp hmem
      rw [hcursor, hx] at hv
      have heq : v = (x, self.index.toNat) := Prod.ext (Option.some.inj hv).symm hcursor
      rw [heq]
      rfl

end Drawing

section Runs
variable {ι τ : Type} {m : MenuHeap ι} {f : Frame ι} {fs : List (Frame ι)}

/-- One input that moves the cursor of a menu. -/
def moveCursor (menu : Ptr) (m : MenuHeap ι) (move : Move) : Except Fault (MenuHeap ι) := do
  let self ← m.menus.read menu
  let menus ← m.menus.write menu (move.on self)
  pure { m with menus := menus }

/-- A frame whose cursor has moved. -/
def Frame.moved (f : Frame ι) (self : Menu) : Frame ι :=
  { f with index := self.index, scroll := self.scroll }

/-- A menu whose cursor has not moved. -/
theorem inView_start (hshort : f.items.length < 256) (hindex : f.index = 0)
    (hscroll : f.scroll = 0) : InView f.record := by
  have hlength := f.length_toNat hshort
  have hindex' : f.record.index = 0 := hindex
  have hscroll' : f.record.scroll = 0 := hscroll
  refine ⟨?_, by rw [hscroll']; exact Nat.zero_le _, by rw [hindex']; exact Nat.zero_le _,
    .inl hscroll'⟩
  rcases Nat.eq_zero_or_pos f.items.length with hnone | hsome
  · exact .inr ⟨UInt8.toNat_inj.mp (hlength.trans hnone), hindex'⟩
  · exact .inl (by rw [hindex', hlength]; exact hsome)

theorem InView.moved (h : InView f.record) (move : Move) :
    InView (f.moved (move.on f.record)).record := by
  cases move with
  | up => exact h.move .up
  | down => exact h.move .down

theorem HeapRep.moveCursor (h : HeapRep (f :: fs) m) (move : Move) :
    ∃ m', moveCursor f.menu m move = .ok m' ∧ HeapRep (f.moved (move.on f.record) :: fs) m' := by
  obtain ⟨menus, hwrite, -, hrep⟩ :=
    h.moved (move.on f.record).index (move.on f.record).scroll
  refine ⟨{ m with menus := menus }, ?_, hrep⟩
  have hrecord : move.on f.record =
      { f.record with index := (move.on f.record).index, scroll := (move.on f.record).scroll } := by
    cases move <;> rfl
  simp only [Ui.moveCursor, h.menu (f := f) (List.mem_cons_self ..), bind, Except.bind]
  rw [hrecord, hwrite]
  rfl

/-- After any moves the cursor is in view. -/
theorem HeapRep.moves (moves : List Move) :
    ∀ {f : Frame ι} {m : MenuHeap ι}, HeapRep (f :: fs) m → InView f.record →
      ∃ m' self, moves.foldlM (Ui.moveCursor f.menu) m = .ok m' ∧
        HeapRep (f.moved self :: fs) m' ∧ InView (f.moved self).record := by
  induction moves with
  | nil => exact fun {f m} h hview => ⟨m, f.record, rfl, h, hview⟩
  | cons move moves ih =>
      intro f m h hview
      obtain ⟨m', hm', hrep⟩ := h.moveCursor move
      obtain ⟨m'', self, hrest, hrep', hview'⟩ := ih hrep (hview.moved move)
      refine ⟨m'', self, ?_, hrep', hview'⟩
      rw [List.foldlM_cons, hm']
      exact hrest

/-- A menu of any items that fit its capacity, after any moves of the cursor: the
cursor is on an item and in the window, the window is full if it can be, no byte
wraps, and a redraw draws the items of the window in their order, eight pixels
apart, with the cursor and the focus on just one of them. -/
theorem menu_viewport (h : HeapRep fs m) (itemCapacity : UInt8) (items : List ι)
    (hcap : items.length ≤ itemCapacity.toNat) (moves : List Move) (picture : ι → Bool → τ) :
    ∃ m₀ m' self,
      items.foldlM (fun heap x => addItem (newMenu itemCapacity m).1 x heap)
        (newMenu itemCapacity m).2 = .ok m₀ ∧
      moves.foldlM (Ui.moveCursor (newMenu itemCapacity m).1) m₀ = .ok m' ∧
      m'.menus.read (newMenu itemCapacity m).1 = .ok self ∧
      self.length.toNat = items.length ∧ InView self ∧ NoWrap self ∧
      (visible items self.scroll.toNat).map Prod.snd =
        List.range' self.scroll.toNat
          (min (self.scroll.toNat + 8) items.length - self.scroll.toNat) ∧
      ∀ focus, renderMenu (fun x b => .ok (picture x b)) 0 focus (newMenu itemCapacity m).1 m' =
          .ok (lines picture focus self items) ∧
        (lines picture focus self items).map (fun line => line.y.toNat) =
          (List.range (min (self.scroll.toNat + 8) items.length - self.scroll.toNat)).map
            (8 * ·) ∧
        (items ≠ [] → (lines picture focus self items).countP Line.cursor = 1 ∧
          (focus = true → (lines picture focus self items).countP Line.focus = 1)) := by
  have hcapacity := itemCapacity.toNat_lt
  have hnew := (h.newMenu itemCapacity 0).1
  obtain ⟨m₀, new, hm₀, hrep₀, hitems, -, -⟩ := HeapRep.addItems items hnew
    (by simpa [Frame.new] using hcap) (by simp only [Frame.new, List.length_nil]; omega)
  let empty : Frame ι := Frame.new 0 m.menus.size m.arrays.size itemCapacity.toNat
  let f₀ : Frame ι := { empty with items := [] ++ new }
  have hlength : new.length = items.length := by rw [← hitems, List.length_map]
  have hshort : new.length < 256 := by omega
  have hlength₀ : f₀.record.length.toNat = items.length := (f₀.length_toNat hshort).trans hlength
  have hview₀ : InView f₀.record := inView_start hshort rfl rfl
  obtain ⟨m', self, hm', hrep, hview⟩ := HeapRep.moves moves hrep₀ hview₀
  have hmem : f₀.moved self ∈ f₀.moved self :: fs := List.mem_cons_self ..
  refine ⟨m₀, m', (f₀.moved self).record, hm₀, hm', hrep.menu hmem, hlength₀, hview, noWrap _,
    visible_positions _ _, fun focus => ⟨?_, lines_y, fun hsome => ⟨?_, fun hfocus => ?_⟩⟩⟩
  · have hdrawn : renderMenu (fun x b => .ok (picture x b)) 0 focus f₀.menu m' = _ :=
      hrep.renderMenu_eq hmem hshort (fun _ _ _ => rfl) focus
    rw [← hitems]
    exact hdrawn
  · exact countP_lines hview hlength₀ hsome fun _ => rfl
  · exact countP_lines hview hlength₀ hsome fun _ => by rw [lineOf, hfocus, Bool.true_and]

/-- Ten items, and the cursor nine times down and once up: the window has moved by
two and the cursor is on its last line but one. -/
theorem menu_viewport_ten :
    ∃ m' self, ((List.range 10).foldlM (fun heap x => addItem 0 x heap)
        (newMenu 10 MenuHeap.empty).2 >>= fun m₀ =>
          (List.replicate 9 Move.down ++ [Move.up]).foldlM (Ui.moveCursor 0) m₀) = .ok m' ∧
      m'.menus.read 0 = .ok self ∧ self.index = 8 ∧ self.scroll = 2 ∧
      (lines (fun x _ => x) true self (List.range 10)).countP Line.cursor = 1 := by
  obtain ⟨m₀, m', self, hm₀, hm', hself, -, -, -, -, hlines⟩ := menu_viewport empty_heapRep 10
    (List.range 10) (by decide) (List.replicate 9 Move.down ++ [Move.up]) (fun x _ => x)
  obtain rfl := Except.ok.inj hm₀
  obtain rfl := Except.ok.inj hm'
  obtain rfl := Except.ok.inj hself
  exact ⟨_, _, rfl, rfl, rfl, rfl, ((hlines true).2.2 (by decide)).1⟩

end Runs

end Keytar.Ui

import Keytar.Sounding

/-!
# Keys that share a note

Several keys of a keymap have the same note, and nothing counts them: a release
switches the note off for every key that holds it. For reports of note keys under
one keymap and at one offset, what sounds is a function of the held sets alone.
-/
namespace Keytar.HeldKeys
open KeyboardMatrix Keyboard Midi SharedLatches Sounding

/-- A key that plays notes and does nothing else. -/
structure NoteKey (k : UInt8) : Prop where
  bound : k < 128
  notNav : navOf k = none
  notPageUp : k ≠ 75
  notPageDown : k ≠ 78

def keysOf (r : Report) : Finset UInt8 := r.toList.toFinset.erase 0

def OnlyNoteKeys (r : Report) : Prop := ∀ k ∈ keysOf r, NoteKey k

/-- The keys of the report number `t`, where none are held before the first one. -/
def heldAt (reports : List Report) : ℕ → Finset UInt8
  | 0 => ∅
  | t + 1 => (reports[t]?.map keysOf).getD ∅

theorem mem_keysOf {r : Report} {k : UInt8} : k ∈ keysOf r ↔ k ≠ 0 ∧ k ∈ r.toList := by
  simp [keysOf]

theorem NoteKey.keyCall {k : UInt8} (h : NoteKey k) (pressed : Bool) (m : Keymap)
    (offset : Int8) :
    keyCall k pressed m offset = ⟨k, pressed, m, offset, false, rawNotes m k⟩ := by
  cases pressed with
  | false => exact keyCall_release m offset
  | true =>
      have hup : k ≠ 82 := by rintro rfl; exact absurd h.notNav (by decide)
      have hdown : k ≠ 81 := by rintro rfl; exact absurd h.notNav (by decide)
      have hstay : transposed k offset = none := by
        simp [transposed, h.notPageUp, h.notPageDown, hup, hdown]
      rw [keyCall_press m offset h.notNav, hstay]
      rfl

/-- Notes switched on by a press, or off by a release. -/
def switched (pressed : Bool) (on notes : Finset UInt8) : Finset UInt8 :=
  if pressed then on ∪ notes else on \ notes

theorem switched_switched (pressed : Bool) (on a b : Finset UInt8) :
    switched pressed (switched pressed on a) b = switched pressed on (a ∪ b) := by
  cases pressed with
  | true => exact Finset.union_assoc on a b
  | false => exact sdiff_sdiff_left

theorem switched_empty (pressed : Bool) (on : Finset UInt8) : switched pressed on ∅ = on := by
  cases pressed <;> simp [switched]

section Reports
variable {υ : Type} {ui : UserInterface υ} {m : Keymap} {offset : Int8}

/-- What stays as it is while only note keys are played. -/
structure Steady (m : Keymap) (offset : Int8) (s : KeyboardState υ) : Prop where
  arrays : s.arrays.Valid
  keymap : s.keymap = m
  offset : s.offset = offset

theorem Steady.handled {key : UInt8} (hkey : NoteKey key) {pressed : Bool}
    {s s' : KeyboardState υ} (hs : Steady m offset s) (h : Handled ui key pressed s s') :
    Steady m offset s' ∧ s'.prevReport = s.prevReport ∧
      sounding s'.log = switched pressed (sounding s.log) (keyNotes m offset key) := by
  obtain ⟨-, rfl, rfl⟩ := hs
  have hlog := h.log
  have hoffset := h.offset
  rw [hkey.keyCall] at hlog hoffset
  refine ⟨⟨h.arrays, ?_, hoffset⟩, h.prevReport, ?_⟩
  · rcases h.keymap with hk | ⟨-, nav, hnav, -⟩
    · exact hk
    · simp [hkey.notNav] at hnav
  · rw [hlog, sounding_concat]
    rfl

/-- The keys among `ks` that a loop over them hands to `handle_key`. -/
def pending (ks : List UInt8) (other : Report) : Finset UInt8 :=
  ks.toFinset.erase 0 \ keysOf other

theorem mem_pending {q : UInt8} {ks : List UInt8} {other : Report} :
    q ∈ pending ks other ↔ q ≠ 0 ∧ q ∈ ks ∧ q ∉ other.toList := by
  simp only [pending, Finset.mem_sdiff, Finset.mem_erase, List.mem_toFinset, mem_keysOf]
  tauto

theorem pending_skip {k : UInt8} {ks : List UInt8} {other : Report}
    (h : k = 0 ∨ k ∈ other.toList) : pending (k :: ks) other = pending ks other := by
  ext q
  rw [mem_pending, mem_pending, List.mem_cons]
  constructor
  · rintro ⟨h0, rfl | hq, hout⟩
    · exact (h.elim h0 hout).elim
    · exact ⟨h0, hq, hout⟩
  · rintro ⟨h0, hq, hout⟩
    exact ⟨h0, .inr hq, hout⟩

theorem pending_call {k : UInt8} {ks : List UInt8} {other : Report} (h0 : k ≠ 0)
    (h : k ∉ other.toList) : pending (k :: ks) other = insert k (pending ks other) := by
  ext q
  rw [Finset.mem_insert, mem_pending, mem_pending, List.mem_cons]
  constructor
  · rintro ⟨hq0, rfl | hq, hout⟩
    · exact .inl rfl
    · exact .inr ⟨hq0, hq, hout⟩
  · rintro (rfl | ⟨hq0, hq, hout⟩)
    · exact ⟨h0, .inl rfl, h⟩
    · exact ⟨hq0, .inr hq, hout⟩

/-- Either loop switches the notes of the keys that one report has over the other. -/
theorem diffLoop_sounding (ui : UserInterface υ) (pressed : Bool) {report : Report}
    (other : Report) (hkeys : OnlyNoteKeys report) {s : KeyboardState υ} (hs : Steady m offset s) :
    ∃ s', diffLoop ui pressed report other s = .ok s' ∧ Steady m offset s' ∧
      s'.prevReport = s.prevReport ∧
      sounding s'.log = switched pressed (sounding s.log)
        ((keysOf report \ keysOf other).biUnion (keyNotes m offset)) := by
  have hnote : ∀ k ∈ report.toList, k ≠ 0 → NoteKey k :=
    fun k hk h0 => hkeys k (mem_keysOf.mpr ⟨h0, hk⟩)
  have hbound : ∀ k ∈ report.toList, k < 128 := fun k hk => by
    by_cases h0 : k = 0
    · subst h0
      decide
    · exact (hnote k hk h0).bound
  have hloop := diffLoop_invariant ui pressed other hbound
    (fun ks t => Steady m offset t ∧ t.prevReport = s.prevReport ∧
      switched pressed (sounding t.log) ((pending ks other).biUnion (keyNotes m offset)) =
        switched pressed (sounding s.log)
          ((pending report.toList other).biUnion (keyNotes m offset)))
    (fun _ _ h => h.1.arrays) ?_ ?_ (s := s) ⟨hs, rfl, rfl⟩
  · obtain ⟨s', hs', hsteady, hprev, hsound⟩ := hloop
    refine ⟨s', hs', hsteady, hprev, ?_⟩
    simpa [pending, keysOf, switched_empty] using hsound
  · intro k ks t ⟨ht, hp, hsound⟩ hk
    exact ⟨ht, hp, by rw [← hsound, pending_skip hk]⟩
  · intro k ks t t' ⟨ht, hp, hsound⟩ hk h0 hout hh
    obtain ⟨ht', hp', hsound'⟩ := ht.handled (hnote k hk h0) hh
    refine ⟨ht', hp'.trans hp, ?_⟩
    rw [← hsound, hsound', switched_switched, pending_call h0 hout, Finset.biUnion_insert]

theorem processKbdReport_sounding (ui : UserInterface υ) {new : Report} {s : KeyboardState υ}
    (hnew : OnlyNoteKeys new) (hprev : OnlyNoteKeys s.prevReport) (hs : Steady m offset s) :
    ∃ s', processKbdReport ui new s = .ok s' ∧ Steady m offset s' ∧ s'.prevReport = new ∧
      sounding s'.log =
        update (keyNotes m offset) (keysOf s.prevReport) (keysOf new) (sounding s.log) := by
  obtain ⟨t, ht, hst, -, hon⟩ := diffLoop_sounding ui true s.prevReport hnew hs
  obtain ⟨u, hu, hsu, -, hoff⟩ := diffLoop_sounding ui false new hprev hst
  refine ⟨{ u with prevReport := new }, ?_, ⟨hsu.arrays, hsu.keymap, hsu.offset⟩, rfl, ?_⟩
  · simp only [processKbdReport, ht, hu, bind, Except.bind]
    rfl
  · rw [hoff, hon]
    rfl

theorem heldAt_concat {reports : List Report} (r : Report) {t : ℕ} (h : t ≤ reports.length) :
    heldAt (reports ++ [r]) t = heldAt reports t := by
  cases t with
  | zero => rfl
  | succ t => rw [heldAt, heldAt, List.getElem?_append_left h]

/-- After any reports the receiver is where the held sets alone put it. -/
theorem run_onAfter (ui : UserInterface υ) (u : υ) (m : Keymap) (offset : Int8)
    (reports : List Report) (hkeys : ∀ r ∈ reports, OnlyNoteKeys r) :
    ∃ s, run ui (reports.map .report) (start u m offset) = .ok s ∧ Steady m offset s ∧
      OnlyNoteKeys s.prevReport ∧ keysOf s.prevReport = heldAt reports reports.length ∧
      sounding s.log = onAfter (keyNotes m offset) (heldAt reports) reports.length := by
  induction reports using List.reverseRecOn with
  | nil =>
      refine ⟨_, rfl, ⟨bootArrays_valid, rfl, rfl⟩, fun k hk => ?_, rfl, rfl⟩
      simp [start, mem_keysOf, noKeys] at hk
  | append_singleton reports r ih =>
      obtain ⟨s, hs, hsteady, hprev, hheld, hsound⟩ := ih fun q hq => hkeys q (by simp [hq])
      obtain ⟨s', hs', hsteady', hprev', hsound'⟩ :=
        processKbdReport_sounding ui (hkeys r (by simp)) hprev hsteady
      have hlast : heldAt (reports ++ [r]) (reports.length + 1) = keysOf r := by
        simp [heldAt]
      refine ⟨s', ?_, hsteady', by rw [hprev']; exact hkeys r (by simp), ?_, ?_⟩
      · rw [List.map_append, run, List.foldlM_append]
        rw [run] at hs
        simp only [hs, bind, Except.bind, List.map_cons, List.map_nil, List.foldlM_cons,
          List.foldlM_nil, Input.step, hs']
        rfl
      · rw [hprev', List.length_append, List.length_singleton, hlast]
      · rw [hsound', List.length_append, List.length_singleton, onAfter, hlast,
          heldAt_concat r le_rfl, hheld, hsound,
          onAfter_congr fun i hi => (heldAt_concat r hi).symm]

/-- A note sounds exactly if a held key has it and no key that shares it has been
released since the report that pressed the held one, that report included. -/
theorem sounding_iff_undisturbed (ui : UserInterface υ) (u : υ) (m : Keymap) (offset : Int8)
    (reports : List Report) (hkeys : ∀ r ∈ reports, OnlyNoteKeys r) :
    ∃ s, run ui (reports.map .report) (start u m offset) = .ok s ∧
      ∀ n, n ∈ sounding s.log ↔ ∃ k ∈ keysOf s.prevReport, n ∈ keyNotes m offset k ∧
        ∃ j, Undisturbed (keyNotes m offset) (heldAt reports) n k j reports.length := by
  obtain ⟨s, hs, -, -, hheld, hsound⟩ := run_onAfter ui u m offset reports hkeys
  refine ⟨s, hs, fun n => ?_⟩
  rw [hheld, hsound]
  exact mem_onAfter_iff _ _ rfl _ n

theorem heldAt_congr {reports reports' : List Report}
    (hsame : reports.map keysOf = reports'.map keysOf) (t : ℕ) :
    heldAt reports t = heldAt reports' t := by
  cases t with
  | zero => rfl
  | succ t => rw [heldAt, heldAt, ← List.getElem?_map, hsame, List.getElem?_map]

/-- Two runs whose reports hold the same keys one by one, in whatever slots, sound
alike after each report, though they send their messages in different orders. -/
theorem sounding_slotOrder (ui : UserInterface υ) (u : υ) (m : Keymap) (offset : Int8)
    (reports reports' : List Report) (hsame : reports.map keysOf = reports'.map keysOf)
    (hkeys : ∀ r ∈ reports, OnlyNoteKeys r) (t : ℕ) :
    ∃ s s', run ui ((reports.take t).map .report) (start u m offset) = .ok s ∧
      run ui ((reports'.take t).map .report) (start u m offset) = .ok s' ∧
      sounding s.log = sounding s'.log := by
  have htake : (reports.take t).map keysOf = (reports'.take t).map keysOf := by
    rw [List.map_take, List.map_take, hsame]
  have hlength : (reports.take t).length = (reports'.take t).length := by
    simpa using congrArg List.length htake
  have hkeys' : ∀ r ∈ reports', OnlyNoteKeys r := by
    intro r hr
    obtain ⟨q, hq, hqr⟩ := List.mem_map.mp (hsame ▸ List.mem_map_of_mem hr)
    rw [OnlyNoteKeys, ← hqr]
    exact hkeys q hq
  obtain ⟨s, hs, -, -, -, hsound⟩ := run_onAfter ui u m offset (reports.take t)
    fun r hr => hkeys r (List.mem_of_mem_take hr)
  obtain ⟨s', hs', -, -, -, hsound'⟩ := run_onAfter ui u m offset (reports'.take t)
    fun r hr => hkeys' r (List.mem_of_mem_take hr)
  refine ⟨s, s', hs, hs', ?_⟩
  rw [hsound, hsound', hlength]
  exact onAfter_congr fun i _ => heldAt_congr htake i

instance (k : UInt8) : Decidable (NoteKey k) :=
  decidable_of_iff (k < 128 ∧ navOf k = none ∧ k ≠ 75 ∧ k ≠ 78)
    ⟨fun ⟨a, b, c, d⟩ => ⟨a, b, c, d⟩, fun h => ⟨h.bound, h.notNav, h.notPageUp, h.notPageDown⟩⟩

instance (r : Report) : Decidable (OnlyNoteKeys r) :=
  Finset.decidableDforallFinset

/-- On the piano the keys 2 and l both have the note 49; l is let go. -/
def sharedNote : List Report := [#v[0x1f, 0x0f, 0, 0, 0, 0], #v[0x1f, 0, 0, 0, 0, 0]]

/-- The same keys the other way round in the slots, in each report. -/
def sharedNoteSwapped : List Report := [#v[0, 0, 0x0f, 0, 0, 0x1f], #v[0, 0, 0, 0, 0x1f, 0]]

theorem sharedNote_slotOrder :
    ∃ s s', run quietUi ((sharedNote.take 2).map .report) (start () .piano 0) = .ok s ∧
      run quietUi ((sharedNoteSwapped.take 2).map .report) (start () .piano 0) = .ok s' ∧
      sounding s.log = sounding s'.log :=
  sounding_slotOrder quietUi () .piano 0 sharedNote sharedNoteSwapped (by decide) (by decide) 2

theorem sharedNote_sounding :
    ∃ s, run quietUi (sharedNote.map .report) (start () .piano 0) = .ok s ∧
      ∀ n, n ∈ sounding s.log ↔ ∃ k ∈ keysOf s.prevReport, n ∈ keyNotes .piano 0 k ∧
        ∃ j, Undisturbed (keyNotes .piano 0) (heldAt sharedNote) n k j sharedNote.length :=
  sounding_iff_undisturbed quietUi () .piano 0 sharedNote (by decide)

/-- The key 2 stays down and is silent. -/
theorem sharedNote_silenced :
    ¬ ∀ (υ : Type) (ui : UserInterface υ) (u : υ) (m : Keymap) (offset : Int8)
      (reports : List Report),
      (∀ r ∈ reports, OnlyNoteKeys r ∧ (r.toList.filter (· ≠ 0)).Nodup) →
        ∀ s, run ui (reports.map .report) (start u m offset) = .ok s →
          sounding s.log = (keysOf s.prevReport).biUnion (keyNotes m offset) := by
  intro h
  have hbad := h Unit quietUi () .piano 0 sharedNote (by decide) _ rfl
  exact absurd hbad (by decide)

end Reports

end Keytar.HeldKeys

import Keytar.Keyboard
import Mathlib.Data.List.Nodup

/-!
# The key events behind a stream of reports

A report says which keys are down, not what has changed. The two loops find the
changes, which are taken here apart from what `handle_key` makes of them: a run
over reports is a run over their events. Each key is pressed and released in turn,
and what is pressed at last is what the last report holds.
-/
namespace Keytar.ReportEvents
open KeyboardMatrix Keyboard Memory

/-- A call of `handle_key`: the key, and whether it is pressed. -/
abbrev KeyEvent := UInt8 × Bool

/-- The keys of one report that are not in the other. -/
def changed (report other : Report) : List UInt8 :=
  report.toList.filter fun key => key ≠ 0 ∧ ¬ findKeyInReport other key

def reportEvents (prev new : Report) : List KeyEvent :=
  (changed new prev).map (·, true) ++ (changed prev new).map (·, false)

/-- The events of some reports after the saved one. -/
def events : Report → List Report → List KeyEvent
  | _, [] => []
  | prev, r :: rs => reportEvents prev r ++ events r rs

section Calls
variable {υ : Type} (ui : UserInterface υ)

/-- The calls of `handle_key` for some events. -/
def handleEvents (es : List KeyEvent) (s : KeyboardState υ) : Except Fault (KeyboardState υ) :=
  es.foldlM (fun s e => handleKey ui e.1 e.2 s) s

/-- The state with another saved report. -/
def saved (r : Report) (s : KeyboardState υ) : KeyboardState υ := { s with prevReport := r }

/-- `handle_key` neither reads nor writes the saved report. -/
theorem handleKey_saved (key : UInt8) (pressed : Bool) (r : Report) (s : KeyboardState υ) :
    handleKey ui key pressed (saved r s) = (handleKey ui key pressed s).map (saved r) := by
  unfold handleKey
  cases if pressed then navOf key else none with
  | some nav => rfl
  | none =>
      simp only [saved, bind, Except.bind]
      cases lookup s.keymap key (s.arrays s.keymap) with
      | error fault => rfl
      | ok notes =>
          cases hread : readNotes notes with
          | error fault => simp only [hread, Except.map]
          | ok raw =>
              simp only [hread]
              rfl

theorem handleEvents_saved (es : List KeyEvent) (r : Report) (s : KeyboardState υ) :
    handleEvents ui es (saved r s) = (handleEvents ui es s).map (saved r) := by
  unfold handleEvents
  induction es generalizing s with
  | nil => rfl
  | cons e es ih =>
      rw [List.foldlM_cons, List.foldlM_cons, handleKey_saved]
      cases handleKey ui e.1 e.2 s with
      | error fault => rfl
      | ok t => exact ih t

theorem diffLoop_events (pressed : Bool) (report other : Report) (s : KeyboardState υ) :
    diffLoop ui pressed report other s =
      handleEvents ui ((changed report other).map (·, pressed)) s := by
  unfold diffLoop handleEvents changed
  induction report.toList generalizing s with
  | nil => rfl
  | cons key keys ih =>
      by_cases hk : key ≠ 0 ∧ ¬ findKeyInReport other key
      · rw [List.foldlM_cons, if_pos hk, List.filter_cons_of_pos (by simpa using hk), List.map_cons,
          List.foldlM_cons]
        exact bind_congr fun t => ih t
      · rw [List.foldlM_cons, if_neg hk, List.filter_cons_of_neg (by simpa using hk)]
        exact ih s

theorem handleEvents_append (es es' : List KeyEvent) (s : KeyboardState υ) :
    handleEvents ui (es ++ es') s = handleEvents ui es s >>= handleEvents ui es' :=
  List.foldlM_append

/-- A report calls `handle_key` for its events, in their order. -/
theorem processKbdReport_events (new : Report) (s : KeyboardState υ) :
    processKbdReport ui new s =
      (handleEvents ui (reportEvents s.prevReport new) s).map (saved new) := by
  rw [reportEvents, handleEvents_append, ← diffLoop_events, processKbdReport]
  simp only [bind, Except.bind]
  cases diffLoop ui true new s.prevReport s with
  | error fault => rfl
  | ok t =>
      simp only [diffLoop_events]
      cases handleEvents ui ((changed s.prevReport new).map (·, false)) t with
      | error fault => rfl
      | ok u => rfl

/-- A run over reports calls `handle_key` for their events, one after the other. -/
theorem run_events (reports : List Report) (s : KeyboardState υ) :
    run ui (reports.map .report) s =
      (handleEvents ui (events s.prevReport reports) s).map
        (saved (reports.getLastD s.prevReport)) := by
  induction reports generalizing s with
  | nil => rfl
  | cons r reports ih =>
      have hfirst : run ui ((r :: reports).map .report) s =
          (handleEvents ui (reportEvents s.prevReport r) s).map (saved r) >>=
            run ui (reports.map .report) := by
        rw [← processKbdReport_events]
        rfl
      rw [hfirst, events, handleEvents_append, List.getLastD_cons]
      cases handleEvents ui (reportEvents s.prevReport r) s with
      | error fault => rfl
      | ok t =>
          refine (ih (saved r t)).trans ?_
          rw [handleEvents_saved]
          simp only [bind, Except.bind, saved]
          cases handleEvents ui (events r reports) t with
          | error fault => rfl
          | ok u => rfl

end Calls

/-- The calls for one key: whether each of them presses it. -/
def calls (k : UInt8) (es : List KeyEvent) : List Bool :=
  (es.filter (·.1 = k)).map (·.2)

/-- A press where `pressed` says so, and from then on the other one each time. -/
def Alternates : Bool → List Bool → Prop
  | _, [] => True
  | pressed, b :: bs => b = pressed ∧ Alternates (!pressed) bs

/-- The slots in use hold different keys. -/
def Distinct (r : Report) : Prop := (r.toList.filter (· ≠ 0)).Nodup

instance (r : Report) : Decidable (Distinct r) := inferInstanceAs (Decidable (List.Nodup _))

theorem calls_append (k : UInt8) (es es' : List KeyEvent) :
    calls k (es ++ es') = calls k es ++ calls k es' := by
  rw [calls, List.filter_append, List.map_append]
  rfl

theorem mem_changed {report other : Report} {k : UInt8} (h0 : k ≠ 0) :
    k ∈ changed report other ↔ k ∈ report.toList ∧ k ∉ other.toList := by
  simp [changed, findKeyInReport_iff, h0]

theorem nodup_changed {report : Report} (h : Distinct report) (other : Report) :
    (changed report other).Nodup := by
  have hsub : (changed report other).Sublist (report.toList.filter (· ≠ 0)) :=
    List.monotone_filter_right _ fun k hk => by simp_all
  exact h.sublist hsub

/-- One loop calls `handle_key` once for a key that it is about. -/
theorem calls_changed {k : UInt8} (h0 : k ≠ 0) (pressed : Bool) {report : Report}
    (h : Distinct report) (other : Report) :
    calls k ((changed report other).map (·, pressed)) =
      if k ∈ report.toList ∧ k ∉ other.toList then [pressed] else [] := by
  have hcalls : calls k ((changed report other).map (·, pressed)) =
      List.replicate ((changed report other).count k) pressed := by
    rw [calls, List.filter_map, List.map_map]
    refine (List.eq_replicate_iff.mpr ⟨?_, ?_⟩)
    · rw [List.length_map, List.count, List.countP_eq_length_filter]
      rfl
    · simp
  rw [hcalls, List.Nodup.count (nodup_changed h other)]
  simp only [mem_changed h0]
  split <;> rfl

/-- A report that changes a key calls `handle_key` once for it, and otherwise never. -/
theorem calls_reportEvents {k : UInt8} (h0 : k ≠ 0) {prev new : Report} (hprev : Distinct prev)
    (hnew : Distinct new) :
    calls k (reportEvents prev new) =
      if decide (k ∈ new.toList) = decide (k ∈ prev.toList) then []
      else [decide (k ∈ new.toList)] := by
  rw [reportEvents, calls_append, calls_changed h0 true hnew, calls_changed h0 false hprev]
  by_cases hn : k ∈ new.toList <;> by_cases hp : k ∈ prev.toList <;> simp [hn, hp]

/-- The calls for a key lead from what the saved report has of it to what the last
report has. -/
theorem calls_events {k : UInt8} (h0 : k ≠ 0) {prev : Report} {reports : List Report}
    (hprev : Distinct prev) (hdistinct : ∀ r ∈ reports, Distinct r) :
    Alternates (!decide (k ∈ prev.toList)) (calls k (events prev reports)) ∧
      (calls k (events prev reports)).getLastD (decide (k ∈ prev.toList)) =
        decide (k ∈ (reports.getLastD prev).toList) := by
  induction reports generalizing prev with
  | nil => exact ⟨trivial, rfl⟩
  | cons r reports ih =>
      have hr : Distinct r := hdistinct r List.mem_cons_self
      obtain ⟨halt, hlast⟩ := ih hr fun q hq => hdistinct q (List.mem_cons_of_mem r hq)
      rw [events, calls_append, calls_reportEvents h0 hprev hr, List.getLastD_cons]
      by_cases hsame : decide (k ∈ r.toList) = decide (k ∈ prev.toList)
      · rw [if_pos hsame, ← hsame, List.nil_append]
        exact ⟨halt, hlast⟩
      · have hflip : decide (k ∈ r.toList) = !decide (k ∈ prev.toList) := Bool.eq_not_of_ne hsame
        rw [if_neg hsame, List.singleton_append, List.getLastD_cons]
        exact ⟨⟨hflip, hflip ▸ halt⟩, hlast⟩

/-- Whatever slots the keys are in, each of them is pressed and released in turn, and
after each report the keys with a press that no release has followed are those of the
report. -/
theorem reports_pressRelease {υ : Type} (ui : UserInterface υ) (s : KeyboardState υ)
    (hs : s.prevReport = noKeys) (reports : List Report)
    (hdistinct : ∀ r ∈ reports, Distinct r) (t : ℕ) :
    run ui ((reports.take t).map .report) s =
        (handleEvents ui (events noKeys (reports.take t)) s).map
          (saved ((reports.take t).getLastD noKeys)) ∧
      ∀ k, k ≠ 0 →
        Alternates true (calls k (events noKeys (reports.take t))) ∧
        ((calls k (events noKeys (reports.take t))).getLast? = some true ↔
          k ∈ ((reports.take t).getLastD noKeys).toList) := by
  refine ⟨by rw [run_events, hs], fun k h0 => ?_⟩
  have hnone : decide (k ∈ noKeys.toList) = false := by
    simpa [noKeys] using h0
  have hempty : Distinct noKeys := by decide
  obtain ⟨halt, hlast⟩ := calls_events h0 hempty
    fun r (hr : r ∈ reports.take t) => hdistinct r (List.mem_of_mem_take hr)
  rw [hnone] at halt hlast
  refine ⟨halt, ?_⟩
  rw [← decide_eq_true_iff (p := k ∈ _), ← hlast, List.getLastD_eq_getLast?]
  cases (calls k (events noKeys (reports.take t))).getLast? with
  | none => simp
  | some b => simp

/-- Two keys change slots while a third one goes and a fourth one comes. -/
def slotChange : List Report := [#v[4, 5, 6, 0, 0, 0], #v[0, 6, 0, 7, 0, 4]]

theorem slotChange_pressRelease :
    run quietUi ((slotChange.take 2).map .report) (boot ()) =
        (handleEvents quietUi (events noKeys (slotChange.take 2)) (boot ())).map
          (saved ((slotChange.take 2).getLastD noKeys)) ∧
      ∀ k, k ≠ 0 →
        Alternates true (calls k (events noKeys (slotChange.take 2))) ∧
        ((calls k (events noKeys (slotChange.take 2))).getLast? = some true ↔
          k ∈ ((slotChange.take 2).getLastD noKeys).toList) :=
  reports_pressRelease quietUi (boot ()) rfl slotChange (by decide) 2

end Keytar.ReportEvents

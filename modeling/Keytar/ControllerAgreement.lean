import Keytar.MidiValues

/-!
# What the receivers hold when a controller value reports success

A run is any sequence of `midi_value_set` and `midi_value_send_all` calls with
the outcome of every Bluetooth write chosen freely. It is read as the sequence
of `midi_value_sync` calls that it makes. A sync that finds its value in the
cache sends nothing, and the cache is only advanced by a send that every
transport accepted. A send that one transport accepted and another refused
leaves the two apart, and a later return to the cached value goes unnoticed.
-/
namespace Keytar.ControllerAgreement
open Midi MidiValues

/-- A call together with the outcomes of the writes that it makes. -/
inductive Op where
  | set (r : MidiValueRef) (value : UInt16) (setSetting : Bool) (a : Accepts)
  | sendAll (a : MidiValueRef → Accepts)

def Op.run (l : Links) : Op → Store Wires → Store Wires
  | .set r v b a, s => midiValueSet (callback l fun _ => a) r v b s
  | .sendAll a, s => midiValueSendAll (callback l a) s

/-- One call of `midi_value_sync`: its value, its answer, and the store around it. -/
structure SyncCall where
  ref : MidiValueRef
  before : Store Wires
  ok : Bool
  after : Store Wires

def syncCall (send : Callback Wires) (r : MidiValueRef) (s : Store Wires) : SyncCall :=
  ⟨r, s, (midiValueSync send r s).1, (midiValueSync send r s).2⟩

def resendSyncs (send : Callback Wires) : List MidiValueRef → Store Wires → List SyncCall
  | [], _ => []
  | r :: rs, s =>
      let c := syncCall send r (force r s)
      c :: resendSyncs send rs c.after

def Op.syncs (l : Links) : Op → Store Wires → List SyncCall
  | .set r v b a, s => [syncCall (callback l fun _ => a) r (assign r v b s)]
  | .sendAll a, s => resendSyncs (callback l a) midiValues s

/-- All the syncs of a run, in order. -/
def syncs (l : Links) : List Op → Store Wires → List SyncCall
  | [], _ => []
  | op :: ops, s => op.syncs l s ++ syncs l ops (op.run l s)

/-- The sync takes the early return, as the value is the one it sent last. -/
def SyncCall.skips (c : SyncCall) : Bool :=
  !(c.before.values c.ref).forceSend &&
    (c.before.values c.ref).value == (c.before.values c.ref).sentValue

/-- Outcome of the latest sync of `r` that called the send callback, if any did. -/
def lastSend (r : MidiValueRef) (cs : List SyncCall) : Option Bool :=
  (cs.filter fun c => c.ref = r && !c.skips).getLast?.map SyncCall.ok

/-- Both transports last took, for this controller, a message with its value. -/
def SyncCall.Agrees (c : SyncCall) : Prop :=
  ∀ t ∈ [Transport.uart, .server],
    (received c.ref (c.after.outer t)).getLast? = some (c.after.values c.ref).value.toNat

/-- Every sync of the run that reports success leaves both transports in agreement. -/
def Agreement (l : Links) (ops : List Op) : Prop :=
  ∀ (i : ℕ) (c : SyncCall), (syncs l ops (boot idle))[i]? = some c → c.ok = true → c.Agrees

/-- No sync of the run takes the early return while the latest send of its
value is one that failed. -/
def NoReturnAfterFailure (l : Links) (ops : List Op) : Prop :=
  ∀ (i : ℕ) (c : SyncCall), (syncs l ops (boot idle))[i]? = some c → c.skips = true →
    lastSend c.ref ((syncs l ops (boot idle)).take i) ≠ some false

section Traces
variable {l : Links}

/-- What happens to a store between two syncs. -/
inductive Prepared : Store Wires → Store Wires → Prop
  | assign (r : MidiValueRef) (v : UInt16) (b : Bool) (s : Store Wires) :
      Prepared s (assign r v b s)
  | force (r : MidiValueRef) (s : Store Wires) : Prepared s (force r s)

/-- A list of syncs that leads from one store to another. -/
inductive Trace (l : Links) : Store Wires → List SyncCall → Store Wires → Prop
  | done (s : Store Wires) : Trace l s [] s
  | sync {s t u : Store Wires} {cs : List SyncCall} (a : MidiValueRef → Accepts)
      (r : MidiValueRef) : Prepared s t → Trace l (syncCall (callback l a) r t).after cs u →
      Trace l s (syncCall (callback l a) r t :: cs) u

theorem Trace.append {s t u : Store Wires} {cs ds : List SyncCall} (h : Trace l s cs t)
    (k : Trace l t ds u) : Trace l s (cs ++ ds) u := by
  induction h with
  | done s => exact k
  | sync a r hp _ ih => exact .sync a r hp (ih k)

theorem resendSyncs_trace (a : MidiValueRef → Accepts) (rs : List MidiValueRef)
    (s : Store Wires) :
    Trace l s (resendSyncs (callback l a) rs s)
      (rs.foldl (fun s r => (midiValueSync (callback l a) r (force r s)).2) s) := by
  induction rs generalizing s with
  | nil => exact .done s
  | cons r rs ih => exact .sync a r (.force r s) (ih _)

theorem Op.syncs_trace (op : Op) (s : Store Wires) :
    Trace l s (op.syncs l s) (op.run l s) := by
  cases op with
  | set r v b a => exact .sync (fun _ => a) r (.assign r v b s) (.done _)
  | sendAll a => exact resendSyncs_trace a midiValues s

/-- The recorded syncs are those of the run itself. -/
theorem syncs_trace (ops : List Op) (s : Store Wires) :
    Trace l s (syncs l ops s) (ops.foldl (fun s op => op.run l s) s) := by
  induction ops generalizing s with
  | nil => exact .done s
  | cons op ops ih => exact (op.syncs_trace s).append (ih _)

end Traces

section Invariant
variable {l : Links}

theorem lastSend_append_of_ne (r : MidiValueRef) (cs : List SyncCall) (c : SyncCall)
    (h : c.ref ≠ r) : lastSend r (cs ++ [c]) = lastSend r cs := by
  simp [lastSend, List.filter_append, h]

theorem lastSend_append_skip (r : MidiValueRef) (cs : List SyncCall) (c : SyncCall)
    (h : c.skips = true) : lastSend r (cs ++ [c]) = lastSend r cs := by
  simp [lastSend, List.filter_append, h]

theorem lastSend_append_self (cs : List SyncCall) (c : SyncCall) (h : c.skips = false) :
    lastSend c.ref (cs ++ [c]) = some c.ok := by
  simp [lastSend, List.filter_append, h]

/-- Where the cache of `r` claims that `v` is known, either the latest send
carried it and succeeded, or a failed send has put another value on the UART. -/
structure Tracked (cs : List SyncCall) (s : Store Wires) : Prop where
  inRange : s.InRange
  standing : ∀ r v, (s.values r).known = some v →
    (lastSend r cs = some true ∧
      ∀ t ∈ [Transport.uart, .server], (received r (s.outer t)).getLast? = some v.toNat) ∨
    (lastSend r cs = some false ∧ (received r (s.outer .uart)).getLast? ≠ some v.toNat)

theorem boot_tracked : Tracked [] (boot idle) where
  inRange := boot_inRange _
  standing := by
    intro r v h
    simp [boot] at h

theorem Tracked.prepared {cs : List SyncCall} {s t : Store Wires} (hs : Tracked cs s)
    (h : Prepared s t) : Tracked cs t := by
  cases h with
  | assign r v b s =>
      refine ⟨assign_inRange hs.inRange r v b, ?_⟩
      intro q w hw
      rw [assign_known] at hw
      exact hs.standing q w hw
  | force r s =>
      refine ⟨force_inRange hs.inRange r, ?_⟩
      intro q w hw
      by_cases hq : q = r
      · subst q
        simp at hw
      · rw [force, Store.update_of_ne _ _ hq] at hw
        exact hs.standing q w hw

theorem syncCall_skips_iff (send : Callback Wires) (r : MidiValueRef) (s : Store Wires) :
    (syncCall send r s).skips = true ↔ (s.values r).known = some (s.values r).value :=
  skips_iff _

/-- The wires after a sync that calls the send callback, for any controller. -/
theorem syncCall_received (a : MidiValueRef → Accepts) (r q : MidiValueRef) {s : Store Wires}
    (hs : s.InRange) (h : (s.values r).known ≠ some (s.values r).value) (t : Transport) :
    received q ((syncCall (callback l a) r s).after.outer t) =
      if r = q ∧ takes l (a r) 3 t = true then
        received q (s.outer t) ++ [(s.values r).value.toNat]
      else received q (s.outer t) := by
  have hv : (s.values r).value ≤ (bootValue r).maxValue := by
    rw [← (hs r).maxValue]
    exact (hs r).value_le
  rw [← callback_received l a s.outer hv t]
  unfold syncCall
  cases hr : (callback l a r (s.values r) s.outer).1 with
  | false => rw [midiValueSync_refused _ r s h hr]
  | true =>
      rw [midiValueSync_sent _ r s h hr]
      rfl

theorem syncCall_ok (a : MidiValueRef → Accepts) (r : MidiValueRef) {s : Store Wires}
    (h : (s.values r).known ≠ some (s.values r).value) :
    (syncCall (callback l a) r s).ok = (callback l a r (s.values r) s.outer).1 := by
  unfold syncCall
  cases hr : (callback l a r (s.values r) s.outer).1 with
  | false => rw [midiValueSync_refused _ r s h hr]
  | true => rw [midiValueSync_sent _ r s h hr]

/-- With the UART up and a server link, success means that both took the message. -/
theorem callback_ok_takes (hu : l.midiUartInitialized = true) (hc : l.conHandle.isSome)
    {a : MidiValueRef → Accepts} {r : MidiValueRef} {mv : MidiValue} {w : Wires}
    (h : (callback l a r mv w).1 = true) :
    ∀ t ∈ [Transport.uart, .server], takes l (a r) 3 t = true := by
  have hb : midiBleIsConnected l = true := by simp [midiBleIsConnected, hc]
  rw [callback, send_ok] at h
  simp only [hb, Bool.not_true, Bool.or_false, Bool.and_eq_true] at h
  intro t ht
  simp only [List.mem_cons, List.not_mem_nil, or_false] at ht
  rcases ht with rfl | rfl
  · simpa [takes] using hu
  · exact h.1.2

/-- What a sync that calls the callback leaves behind for its own value. -/
theorem Tracked.standing_self (hu : l.midiUartInitialized = true) (hc : l.conHandle.isSome)
    {cs : List SyncCall} {s : Store Wires} (hs : Tracked cs s) (a : MidiValueRef → Accepts)
    (r : MidiValueRef) (hk : (s.values r).known ≠ some (s.values r).value) {v : UInt16}
    (hv : ((syncCall (callback l a) r s).after.values r).known = some v) :
    ((syncCall (callback l a) r s).ok = true ∧ ∀ t ∈ [Transport.uart, .server],
        (received r ((syncCall (callback l a) r s).after.outer t)).getLast? = some v.toNat) ∨
      ((syncCall (callback l a) r s).ok = false ∧
        (received r ((syncCall (callback l a) r s).after.outer .uart)).getLast? ≠
          some v.toNat) := by
  have hknown : ChangeCache.offer (s.values r).known (s.values r).value
      (callback l a r (s.values r) s.outer).1 = some v := by
    rw [← midiValueSync_known]
    exact hv
  rw [ChangeCache.offer, if_neg hk] at hknown
  rw [syncCall_ok a r hk]
  cases hr : (callback l a r (s.values r) s.outer).1 with
  | true =>
      left
      simp only [hr, if_true, Option.some.injEq] at hknown
      refine ⟨rfl, ?_⟩
      intro t ht
      rw [syncCall_received a r r hs.inRange hk,
        if_pos ⟨rfl, callback_ok_takes hu hc hr t ht⟩, hknown]
      simp
  | false =>
      -- the cache stays, but the UART has just taken another value
      right
      simp only [hr, Bool.false_eq_true, if_false] at hknown
      refine ⟨rfl, ?_⟩
      rw [syncCall_received a r r hs.inRange hk, if_pos ⟨rfl, by simpa [takes] using hu⟩]
      have hne : (s.values r).value ≠ v := fun he => hk (by rw [hknown, he])
      simpa using fun he => hne (UInt16.toNat_inj.mp he)

/-- One sync keeps the invariant, whatever its writes do. -/
theorem Tracked.sync (hu : l.midiUartInitialized = true) (hc : l.conHandle.isSome)
    {cs : List SyncCall} {s : Store Wires} (hs : Tracked cs s) (a : MidiValueRef → Accepts)
    (r : MidiValueRef) :
    Tracked (cs ++ [syncCall (callback l a) r s]) (syncCall (callback l a) r s).after := by
  refine ⟨midiValueSync_inRange hs.inRange (callback l a) r, ?_⟩
  intro q v hv
  by_cases hk : (s.values r).known = some (s.values r).value
  · rw [lastSend_append_skip _ _ _ ((syncCall_skips_iff _ _ _).mpr hk)]
    simp only [syncCall, midiValueSync_skip _ r s hk] at hv ⊢
    exact hs.standing q v hv
  · by_cases hq : q = r
    · subst q
      have hskip : (syncCall (callback l a) r s).skips = false := by
        simpa using (syncCall_skips_iff (callback l a) r s).not.mpr hk
      have hlast : lastSend r (cs ++ [syncCall (callback l a) r s]) =
          some (syncCall (callback l a) r s).ok := lastSend_append_self cs _ hskip
      simpa [hlast] using hs.standing_self hu hc a r hk hv
    · have hsame : (syncCall (callback l a) r s).after.values q = s.values q :=
        midiValueSync_of_ne _ s hq
      have hwire : ∀ t, received q ((syncCall (callback l a) r s).after.outer t) =
          received q (s.outer t) := by
        intro t
        rw [syncCall_received a r q hs.inRange hk, if_neg (fun h => hq h.1.symm)]
      rw [hsame] at hv
      simp only [hwire, lastSend_append_of_ne q cs (syncCall (callback l a) r s) (Ne.symm hq)]
      exact hs.standing q v hv

/-- A sync that answers true agrees with the receivers unless it returned early
on a cache that a failed send has made stale. -/
theorem Tracked.agrees_iff (hu : l.midiUartInitialized = true) (hc : l.conHandle.isSome)
    {cs : List SyncCall} {s : Store Wires} (hs : Tracked cs s) (a : MidiValueRef → Accepts)
    (r : MidiValueRef) :
    ((syncCall (callback l a) r s).ok = true → (syncCall (callback l a) r s).Agrees) ↔
      ((syncCall (callback l a) r s).skips = true → lastSend r cs ≠ some false) := by
  by_cases hk : (s.values r).known = some (s.values r).value
  · have hskip := (syncCall_skips_iff (callback l a) r s).mpr hk
    have hsync : syncCall (callback l a) r s = ⟨r, s, true, s⟩ := by
      simp only [syncCall, midiValueSync_skip _ r s hk]
    simp only [hsync] at hskip ⊢
    simp only [hskip, true_implies, SyncCall.Agrees]
    rcases hs.standing r _ hk with ⟨hlast, hall⟩ | ⟨hlast, huart⟩
    · simpa [hlast] using hall
    · simp [hlast, huart]
  · have hskip : (syncCall (callback l a) r s).skips = false := by
      simpa using (syncCall_skips_iff (callback l a) r s).not.mpr hk
    simp only [hskip, Bool.false_eq_true, false_implies, iff_true]
    intro hok t ht
    have hvalue : ((syncCall (callback l a) r s).after.values r).value = (s.values r).value :=
      midiValueSync_value _ r r s
    rw [syncCall_ok a r hk] at hok
    change (received r ((syncCall (callback l a) r s).after.outer t)).getLast? =
      some ((syncCall (callback l a) r s).after.values r).value.toNat
    rw [syncCall_received a r r hs.inRange hk,
      if_pos ⟨rfl, callback_ok_takes hu hc hok t ht⟩, hvalue]
    simp

theorem Trace.agrees_iff (hu : l.midiUartInitialized = true) (hc : l.conHandle.isSome)
    {s u : Store Wires} {cs : List SyncCall} (h : Trace l s cs u) (pre : List SyncCall)
    (hs : Tracked pre s) (i : ℕ) (c : SyncCall) (hi : cs[i]? = some c) :
    (c.ok = true → c.Agrees) ↔
      (c.skips = true → lastSend c.ref (pre ++ cs.take i) ≠ some false) := by
  induction h generalizing pre i with
  | done s => simp at hi
  | @sync s t u cs a r hp _ ih =>
      have ht := hs.prepared hp
      cases i with
      | zero =>
          simp only [List.getElem?_cons_zero, Option.some.injEq] at hi
          subst c
          simpa [syncCall] using ht.agrees_iff hu hc a r
      | succ i =>
          have hi' : cs[i]? = some c := by simpa using hi
          have := ih (pre ++ [syncCall (callback l a) r t]) (ht.sync hu hc a r) i hi'
          simpa using this

end Invariant

/-- Over every run, successful syncs agree with both receivers exactly when no
sync returns early after a failed send of its value. -/
theorem agreement_iff (handle : ConHandle) (client : Bool) (ops : List Op) :
    Agreement ⟨true, some handle, client⟩ ops ↔
      NoReturnAfterFailure ⟨true, some handle, client⟩ ops := by
  have h := (syncs_trace (l := ⟨true, some handle, client⟩) ops (boot idle)).agrees_iff
    rfl rfl [] boot_tracked
  constructor
  · intro ha i c hi
    simpa using (h i c hi).mp (ha i c hi)
  · intro hn i c hi
    exact (h i c hi).mpr (by simpa using hn i c hi)

/-- Modulation is set to 5, then to 7 with the server refusing, then back to 5. -/
def backToFive : List Op :=
  [.set .mvMod 5 false ⟨3, 3⟩, .set .mvMod 7 false ⟨0, 3⟩, .set .mvMod 5 false ⟨3, 3⟩]

/-- The last set succeeds without a message, and the UART's receiver is left at 7. -/
theorem backToFive_disagrees :
    ¬ ∀ (handle : ConHandle) (client : Bool) (ops : List Op),
      Agreement ⟨true, some handle, client⟩ ops := by
  intro h
  have hbad := h 0x40 false backToFive 2 _ rfl rfl .uart (by simp)
  exact absurd hbad (by decide)

end Keytar.ControllerAgreement

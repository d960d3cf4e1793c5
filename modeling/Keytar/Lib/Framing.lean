import Mathlib.Data.List.SplitBy
import Mathlib.Tactic.Common

/-!
# Frames that are known by their first symbol

A stream is cut before every symbol that starts a frame. A list of frames of which
only the first symbol is a start comes back from its concatenation, and no other list
of pieces that begin with a start does.
-/
namespace Keytar.Framing
variable {α : Type*}

/-- The frames of a stream; what comes before the first start is a frame of its own. -/
def frames (starts : α → Bool) (stream : List α) : List (List α) :=
  stream.splitBy fun _ b => !starts b

def Framed (starts : α → Bool) (frame : List α) : Prop :=
  ∃ first rest, frame = first :: rest ∧ starts first = true ∧ ∀ b ∈ rest, starts b = false

variable {starts : α → Bool}

theorem Framed.isChain {frame : List α} (h : Framed starts frame) :
    frame.IsChain fun _ b => (!starts b) = true := by
  obtain ⟨first, rest, rfl, -, hrest⟩ := h
  induction rest generalizing first with
  | nil => exact .singleton first
  | cons b rest ih =>
      have hb := hrest b (List.mem_cons_self ..)
      exact .cons_cons (by simp [hb]) (ih b fun c hc => hrest c (List.mem_cons_of_mem b hc))

theorem frames_flatten {fs : List (List α)} (h : ∀ f ∈ fs, Framed starts f) :
    frames starts fs.flatten = fs := by
  have hne : ∀ f ∈ fs, f ≠ [] := by
    intro f hf
    obtain ⟨first, rest, rfl, -⟩ := h f hf
    exact List.cons_ne_nil first rest
  refine List.splitBy_flatten (fun hnil => hne [] hnil rfl) (fun f hf => (h f hf).isChain) ?_
  -- what comes after a frame is a start
  refine List.isChain_iff_getElem.mpr fun i hi => ?_
  refine ⟨hne _ (List.getElem_mem _), hne _ (List.getElem_mem hi), ?_⟩
  obtain ⟨first, rest, hnext, hfirst, -⟩ := h fs[i + 1] (List.getElem_mem hi)
  simp [hnext, hfirst]

theorem framed_of_isChain {first : α} {rest : List α} (hfirst : starts first = true)
    (h : (first :: rest).IsChain fun _ b => (!starts b) = true) :
    Framed starts (first :: rest) := by
  refine ⟨first, rest, rfl, hfirst, ?_⟩
  clear hfirst
  induction rest generalizing first with
  | nil => exact List.forall_mem_nil _
  | cons b rest ih =>
      obtain ⟨hb, hrest⟩ := List.isChain_cons_cons.mp h
      exact List.forall_mem_cons.mpr ⟨by simpa using hb, ih hrest⟩

theorem frames_flatten_iff {fs : List (List α)}
    (hstart : ∀ f ∈ fs, ∃ first rest, f = first :: rest ∧ starts first = true) :
    frames starts fs.flatten = fs ↔ ∀ f ∈ fs, Framed starts f := by
  refine ⟨fun h f hf => ?_, frames_flatten⟩
  obtain ⟨first, rest, rfl, hfirst⟩ := hstart f hf
  rw [← h, frames] at hf
  exact framed_of_isChain hfirst (List.isChain_of_mem_splitBy hf)

end Keytar.Framing

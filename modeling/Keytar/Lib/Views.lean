import Keytar.Lib.Runs

/-!
# What an observer sees of a run

A view maps a state to one that looks the same to the observer. An operation that
respects the view does the same to the observer from either of them, fault or not. Then
a run looks as if the events had not been there that the observer cannot see.
-/
namespace Keytar.Views

universe u
variable {α ε : Type*} {β σ τ : Type u}

/-- What is seen of the operation depends on what is seen before it. -/
def Respects (view : σ → σ) (f : σ → Except ε σ) : Prop :=
  ∀ s, (f (view s)).map view = (f s).map view

section Rules
variable {view : σ → σ} {f f' : σ → Except ε σ}

theorem Respects.of_eq (hf : Respects view f) {s t : σ} (h : view s = view t) :
    (f s).map view = (f t).map view := by
  rw [← hf s, ← hf t, h]

theorem Respects.ok {g : σ → σ} (hg : ∀ s, view (g (view s)) = view (g s)) :
    Respects view (fun s => (.ok (g s) : Except ε σ)) :=
  fun s => congrArg Except.ok (hg s)

theorem Respects.after (hf : Respects view f) {g : σ → σ}
    (hg : ∀ s, view (g (view s)) = view (g s)) : Respects view (fun s => f (g s)) :=
  fun s => hf.of_eq (hg s)

theorem bind_view {viewed : τ → τ} {r r' : Except ε σ} {k k' : σ → Except ε τ}
    (h : r'.map view = r.map view)
    (hk : ∀ s t, view s = view t → (k s).map viewed = (k' t).map viewed) :
    (r' >>= k).map viewed = (r >>= k').map viewed := by
  cases r with
  | error e =>
      cases r' with
      | error e' =>
          obtain rfl : e' = e := Except.error.inj h
          rfl
      | ok t => cases h
  | ok s =>
      cases r' with
      | error e' => cases h
      | ok t => exact hk t s (Except.ok.inj h)

theorem Respects.bind (hf : Respects view f) (hf' : Respects view f') :
    Respects view (fun s => f s >>= f') :=
  fun s => bind_view (hf s) fun _ _ h => hf'.of_eq h

theorem Respects.ite {c : σ → Prop} [DecidablePred c] (hc : ∀ s, c (view s) ↔ c s)
    (hf : Respects view f) (hf' : Respects view f') :
    Respects view (fun s => if c s then f s else f' s) := by
  intro s
  simp only [hc]
  split_ifs
  · exact hf s
  · exact hf' s

theorem Respects.foldlM (hview : ∀ s, view (view s) = view s) {step : σ → α → Except ε σ} :
    ∀ {xs : List α}, (∀ x ∈ xs, Respects view fun s => step s x) →
      Respects view (fun s => xs.foldlM step s) := by
  intro xs
  induction xs with
  | nil => exact fun _ => .ok hview
  | cons x xs ih =>
      intro hstep s
      simp only [List.foldlM_cons]
      have hrest := ih fun y hy => hstep y (List.mem_cons_of_mem x hy)
      exact bind_view (hstep x List.mem_cons_self s) fun _ _ h => hrest.of_eq h

end Rules

/-- Events that can be seen respect the view, and those that cannot go through and change
nothing that can be seen: then a run looks like the run of the events that can be seen. -/
theorem foldlM_filter {view : σ → σ} {step : σ → α → Except ε σ} (P : σ → Prop) {p : α → Bool}
    (hview : ∀ s, view (view s) = view s)
    (hseen : ∀ x, p x = true → Respects view fun s => step s x)
    (hkeep : ∀ x s s', P s → step s x = .ok s' → P s')
    (hunseen : ∀ x s, p x = false → P s → ∃ s', step s x = .ok s' ∧ view s' = view s) :
    ∀ {xs : List α} {s : σ}, P s →
      (xs.foldlM step s).map view = ((xs.filter p).foldlM step s).map view := by
  intro xs
  induction xs with
  | nil => exact fun _ => rfl
  | cons x xs ih =>
      intro s hs
      cases hp : p x with
      | true =>
          rw [List.filter_cons_of_pos hp, List.foldlM_cons, List.foldlM_cons]
          cases hx : step s x with
          | error e => rfl
          | ok t => exact ih (hkeep x s t hs hx)
      | false =>
          obtain ⟨t, ht, hsame⟩ := hunseen x s hp hs
          have hrun : Respects view fun s => (xs.filter p).foldlM step s :=
            .foldlM hview fun y hy => hseen y (List.mem_filter.mp hy).2
          rw [List.filter_cons_of_neg (by simp [hp]), List.foldlM_cons, ht]
          exact (ih (hkeep x s t hs ht)).trans (hrun.of_eq hsame)

end Keytar.Views

import Mathlib.Data.Nat.Notation
import Mathlib.Tactic.Common

/-!
# Loops and runs that may fault

A loop over a list, or a run over a list of events, is a monadic fold into
`Except`. Its rule is total correctness: the fold returns, and an invariant that
may speak about the elements still to come holds where it stops. Where a run may
fault, what is said is said of the runs that return.
-/
namespace Keytar.Runs

variable {α σ ε : Type*}

/-- The loop rule. The first argument of `P` is what the loop has still to visit. -/
theorem foldlM_invariant (step : σ → α → Except ε σ) (P : List α → σ → Prop)
    (hstep : ∀ x xs s, P (x :: xs) s → ∃ s', step s x = .ok s' ∧ P xs s') :
    ∀ xs s, P xs s → ∃ s', xs.foldlM step s = .ok s' ∧ P [] s' := by
  intro xs
  induction xs with
  | nil => exact fun s h => ⟨s, rfl, h⟩
  | cons x xs ih =>
      intro s h
      obtain ⟨t, ht, hP⟩ := hstep x xs s h
      obtain ⟨u, hu, hP'⟩ := ih t hP
      exact ⟨u, by rw [List.foldlM_cons, ht]; exact hu, hP'⟩

/-- What a sequence returns, its second part returns for what the first has returned. -/
theorem bind_ok {β : Type _} {r : Except ε σ} {k : σ → Except ε β} {b : β}
    (h : (r >>= k) = Except.ok b) : ∃ s, r = .ok s ∧ k s = .ok b := by
  cases r with
  | error e => cases h
  | ok s => exact ⟨s, rfl, h⟩

/-- The loop rule for partial correctness: where the loop returns, what relates the
states around every round relates those around the loop. -/
theorem foldlM_relates {step : σ → α → Except ε σ} (R : σ → σ → Prop) (hrefl : ∀ s, R s s)
    (htrans : ∀ s t u, R s t → R t u → R s u) :
    ∀ {xs : List α} {s s' : σ}, (∀ x ∈ xs, ∀ s s', step s x = .ok s' → R s s') →
      xs.foldlM step s = .ok s' → R s s' := by
  intro xs
  induction xs with
  | nil =>
      intro s s' _ h
      obtain rfl := Except.ok.inj h
      exact hrefl s
  | cons x xs ih =>
      intro s s' hstep h
      rw [List.foldlM_cons] at h
      obtain ⟨t, ht, hrest⟩ := bind_ok h
      exact htrans s t s' (hstep x List.mem_cons_self s t ht)
        (ih (fun y hy => hstep y (List.mem_cons_of_mem x hy)) hrest)

/-- The rule for two loops side by side: where the first returns, the second returns over
what its elements are mapped to, and the states stay related. -/
theorem foldlM_follows {τ β : Type*} {step : σ → α → Except ε σ} {step' : τ → β → Except ε τ}
    {f : α → β} {R : σ → τ → Prop}
    (hstep : ∀ x s s' t, R s t → step s x = .ok s' → ∃ t', step' t (f x) = .ok t' ∧ R s' t') :
    ∀ {xs : List α} {s s' : σ} {t : τ}, R s t → xs.foldlM step s = .ok s' →
      ∃ t', (xs.map f).foldlM step' t = .ok t' ∧ R s' t' := by
  intro xs
  induction xs with
  | nil =>
      intro s s' t hR h
      obtain rfl := Except.ok.inj h
      exact ⟨t, rfl, hR⟩
  | cons x xs ih =>
      intro s s' t hR h
      rw [List.foldlM_cons] at h
      obtain ⟨u, hu, hrest⟩ := bind_ok h
      obtain ⟨v, hv, hR'⟩ := hstep x s u t hR hu
      rw [List.map_cons, List.foldlM_cons, hv]
      exact ih hR' hrest

/-- A loop that collects what each of its rounds returns. -/
theorem mapM_ok {β : Type _} {f : α → Except ε β} {xs : List α} {ys : List β}
    (h : List.Forall₂ (fun x y => f x = .ok y) xs ys) : xs.mapM f = .ok ys := by
  induction h with
  | nil => rfl
  | cons hx _ ih =>
      rw [List.mapM_cons, hx, ih]
      rfl

/-- Where the operation returns, it has kept to the relation. -/
def Keeps (R : σ → σ → Prop) (s : σ) (r : Except ε σ) : Prop := ∀ s', r = .ok s' → R s s'

section Keeps
variable {R : σ → σ → Prop} {s t : σ} {r : Except ε σ}

theorem Keeps.ok (h : R s t) : Keeps R s (.ok t : Except ε σ) := by
  intro s' hs'
  rwa [← Except.ok.inj hs']

theorem Keeps.after (htrans : ∀ a b c, R a b → R b c → R a c) (h : R s t) (hr : Keeps R t r) :
    Keeps R s r :=
  fun s' hs' => htrans s t s' h (hr s' hs')

theorem Keeps.bind (htrans : ∀ a b c, R a b → R b c → R a c) {k : σ → Except ε σ}
    (h : Keeps R s r) (hk : ∀ u, r = .ok u → Keeps R u (k u)) : Keeps R s (r >>= k) := by
  intro s' hs'
  obtain ⟨u, hu, hrest⟩ := bind_ok hs'
  exact htrans s u s' (h u hu) (hk u hu s' hrest)

end Keeps

/-- `g` holds of what is returned. -/
def afterwards (r : Except ε σ) (g : σ → Bool) : Bool :=
  match r with
  | .ok s => g s
  | .error _ => true

/-- `p` holds of every element of a run, in the state that it finds. -/
def along (step : σ → α → Except ε σ) (p : σ → α → Bool) : List α → σ → Bool
  | [], _ => true
  | x :: xs, s => p s x && afterwards (step s x) (along step p xs)

/-- Under the guard the operation returns, with `P`. Without it the operation ends in the
fault, as far as `H` holds. -/
def Decides (e : ε) (H : Prop) (P : σ → Prop) (g : Bool) (r : Except ε σ) : Prop :=
  (g = true ∧ ∃ s, r = .ok s ∧ P s) ∨ (g = false ∧ (H → r = .error e))

section Decides
variable {e : ε} {H : Prop} {P Q : σ → Prop} {g : Bool} {r : Except ε σ}

theorem Decides.ok {s : σ} (h : P s) : Decides e H P true (.ok s) := .inl ⟨rfl, s, rfl, h⟩

theorem Decides.fault (h : H → r = .error e) : Decides e H P false r := .inr ⟨rfl, h⟩

theorem Decides.bind (h : Decides e H P g r) {k : σ → Except ε σ} {g' : σ → Bool}
    (hk : ∀ s, P s → Decides e H Q (g' s) (k s)) :
    Decides e H Q (g && afterwards r g') (r >>= k) := by
  rcases h with ⟨rfl, s, rfl, hs⟩ | ⟨rfl, hfault⟩
  · exact hk s hs
  · refine .fault fun hH => ?_
    rw [hfault hH]
    rfl

theorem Decides.map (h : Decides e H P g r) {f : σ → σ} (hf : ∀ s, P s → Q (f s)) :
    Decides e H Q g (r >>= fun s => pure (f s)) := by
  rcases h with ⟨rfl, s, rfl, hs⟩ | ⟨rfl, hfault⟩
  · exact .ok (hf s hs)
  · refine .fault fun hH => ?_
    rw [hfault hH]
    rfl

/-- The rule for runs with a guard at every step. -/
theorem decides_along {step : σ → α → Except ε σ} {p : σ → α → Bool} :
    ∀ {xs : List α}, (∀ x ∈ xs, ∀ s, P s → Decides e H P (p s x) (step s x)) →
      ∀ {s : σ}, P s → Decides e H P (along step p xs s) (xs.foldlM step s) := by
  intro xs
  induction xs with
  | nil => exact fun _ _ h => .ok h
  | cons x xs ih =>
      intro hstep s h
      rw [List.foldlM_cons]
      exact (hstep x List.mem_cons_self s h).bind fun t ht =>
        ih (fun y hy => hstep y (List.mem_cons_of_mem x hy)) ht

theorem Decides.of_guard (h : Decides e H P g r) (hg : g = true) : ∃ s, r = .ok s ∧ P s := by
  rcases h with ⟨-, hs⟩ | ⟨hfalse, -⟩
  · exact hs
  · simp [hg] at hfalse

theorem Decides.of_not_guard (h : Decides e H P g r) (hg : g = false) (hH : H) :
    r = .error e := by
  rcases h with ⟨htrue, -⟩ | ⟨-, hfault⟩
  · simp [hg] at htrue
  · exact hfault hH

end Decides

theorem of_afterwards {s : σ} {r : Except ε σ} {g : σ → Bool} (h : afterwards r g = true)
    (hr : r = .ok s) : g s = true := by
  subst hr
  exact h

/-- The rule for runs that return, under a guard at every step. -/
theorem along_keeps {step : σ → α → Except ε σ} {p : σ → α → Bool} {P : σ → Prop}
    (hstep : ∀ s s' x, p s x = true → step s x = .ok s' → P s → P s') :
    ∀ {xs : List α} {s s' : σ}, along step p xs s = true → xs.foldlM step s = .ok s' →
      P s → P s' := by
  intro xs
  induction xs with
  | nil =>
      intro s s' _ h hs
      obtain rfl := Except.ok.inj h
      exact hs
  | cons x xs ih =>
      intro s s' hguard h hs
      rw [List.foldlM_cons] at h
      obtain ⟨t, ht, h⟩ := bind_ok h
      obtain ⟨hx, hrest⟩ := Bool.and_eq_true_iff.mp hguard
      exact ih (of_afterwards hrest ht) h (hstep s t x hx ht hs)

theorem along_true {step : σ → α → Except ε σ} {p : σ → α → Bool}
    (hp : ∀ s x, p s x = true) (xs : List α) : ∀ s, along step p xs s = true := by
  induction xs with
  | nil => exact fun _ => rfl
  | cons x xs ih =>
      intro s
      rw [along, hp, Bool.true_and]
      cases step s x with
      | error e => rfl
      | ok t => exact ih t

/-- A guard that an invariant implies holds all along. -/
theorem along_of_invariant {step : σ → α → Except ε σ} {p : σ → α → Bool} (P : σ → Prop) :
    ∀ {xs : List α}, (∀ x ∈ xs, ∀ s, P s → p s x = true ∧ ∀ s', step s x = .ok s' → P s') →
      ∀ {s : σ}, P s → along step p xs s = true := by
  intro xs
  induction xs with
  | nil => exact fun _ _ _ => rfl
  | cons x xs ih =>
      intro h s hs
      obtain ⟨hguard, hkeep⟩ := h x List.mem_cons_self s hs
      rw [along, hguard, Bool.true_and]
      cases hstep : step s x with
      | error e => rfl
      | ok t => exact ih (fun y hy => h y (List.mem_cons_of_mem x hy)) (hkeep t hstep)

/-- `p` holds of every state that a run passes through. -/
def throughout (step : σ → α → Except ε σ) (p : σ → Bool) : List α → σ → Bool
  | [], s => p s
  | x :: xs, s =>
      p s && match step s x with
        | .ok s' => throughout step p xs s'
        | .error _ => true

section Throughout
variable {step : σ → α → Except ε σ} {p : σ → Bool} {x : α} {xs : List α} {s s' : σ}

theorem throughout_start (h : throughout step p xs s = true) : p s = true := by
  cases xs with
  | nil => exact h
  | cons x xs => exact (Bool.and_eq_true_iff.mp h).1

theorem throughout_cons (h : throughout step p (x :: xs) s = true) (hx : step s x = .ok s') :
    throughout step p xs s' = true := by
  simp only [throughout, hx, Bool.and_eq_true] at h
  exact h.2

theorem throughout_end (h : throughout step p xs s = true) (hrun : xs.foldlM step s = .ok s') :
    p s' = true := by
  induction xs generalizing s with
  | nil =>
      obtain rfl := Except.ok.inj hrun
      exact h
  | cons x xs ih =>
      rw [List.foldlM_cons] at hrun
      obtain ⟨t, ht, hrun⟩ := bind_ok hrun
      exact ih (throughout_cons h ht) hrun

end Throughout

/-- `P` holds of every element of a history, with what came before it. -/
def AtEach (P : List α → α → Prop) (xs : List α) : Prop :=
  ∀ (i : ℕ) (x : α), xs[i]? = some x → P (xs.take i) x

theorem atEach_iff {P : List α → α → Prop} {xs : List α} :
    AtEach P xs ↔ ∀ i : Fin xs.length, P (xs.take i) xs[i] := by
  constructor
  · exact fun h i => h i xs[i] (List.getElem?_eq_getElem i.isLt)
  · intro h i x hi
    obtain ⟨hlt, rfl⟩ := List.getElem?_eq_some_iff.mp hi
    exact h ⟨i, hlt⟩

instance {P : List α → α → Prop} [∀ before x, Decidable (P before x)] (xs : List α) :
    Decidable (AtEach P xs) := decidable_of_iff _ atEach_iff.symm

theorem atEach_concat {P : List α → α → Prop} {xs : List α} {x : α} :
    AtEach P (xs ++ [x]) ↔ AtEach P xs ∧ P xs x := by
  constructor
  · intro h
    refine ⟨fun i y hi => ?_, by simpa using h xs.length x (by simp)⟩
    have hlt := (List.getElem?_eq_some_iff.mp hi).choose
    have hy := h i y (by rw [List.getElem?_append_left hlt, hi])
    rwa [List.take_append_of_le_length (Nat.le_of_lt hlt)] at hy
  · rintro ⟨h, hx⟩ i y hi
    rcases Nat.lt_or_ge i xs.length with hlt | hge
    · rw [List.getElem?_append_left hlt] at hi
      rw [List.take_append_of_le_length (Nat.le_of_lt hlt)]
      exact h i y hi
    · have hlen := (List.getElem?_eq_some_iff.mp hi).choose
      have hi' : i = xs.length := by
        simp only [List.length_append, List.length_singleton] at hlen
        omega
      subst i
      obtain rfl : x = y := by simpa using hi
      simpa using hx

end Keytar.Runs

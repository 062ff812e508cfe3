import Mathlib.Data.List.Basic

/-!
# Programs that maintain an invariant

A program over a state that may throw. `Maintains I x Q` says that `x`, run from a state with `I`,
throws or returns a value with `Q` in a state with `I` again.
-/

namespace LanguageRuntime.Library

variable {σ ε α β : Type} {I : σ → Prop} {Q : α → Prop} {R : β → Prop}

/-- From a state with `I`, `x` throws or returns into `Q` and maintains `I`. -/
def Maintains (I : σ → Prop) (x : StateT σ (Except ε) α) (Q : α → Prop) : Prop :=
  ∀ s a s', I s → x.run s = .ok (a, s') → Q a ∧ I s'

variable {x : StateT σ (Except ε) α} {f : α → StateT σ (Except ε) β}

theorem Maintains.mono {Q' : α → Prop} (h : Maintains I x Q) (hQ : ∀ a, Q a → Q' a) : Maintains I x Q' := by
  intro s a s' hs hrun
  obtain ⟨ha, hs'⟩ := h s a s' hs hrun
  exact ⟨hQ a ha, hs'⟩

theorem maintains_pure {a : α} (h : Q a) : Maintains I (pure a : StateT σ (Except ε) α) Q := by
  intro s b s' hs hrun
  cases hrun
  exact ⟨h, hs⟩

theorem Maintains.bind (hx : Maintains I x Q) (hf : ∀ a, Q a → Maintains I (f a) R) :
    Maintains I (x >>= f) R := by
  intro s b s' hs hrun
  rw [StateT.run_bind] at hrun
  cases hfirst : x.run s with
  | error e => rw [hfirst] at hrun; exact nomatch hrun
  | ok next =>
    obtain ⟨a, middle⟩ := next
    rw [hfirst] at hrun
    obtain ⟨ha, hmiddle⟩ := hx s a middle hs hfirst
    exact hf a ha middle b s' hmiddle hrun

/-- The state a program reads. -/
theorem maintains_get : Maintains I (get : StateT σ (Except ε) σ) I := by
  intro s a s' hs hrun
  cases hrun
  exact ⟨hs, hs⟩

theorem maintains_set {s : σ} (h : I s) :
    Maintains I (set s : StateT σ (Except ε) PUnit) fun _ => True := by
  intro s a s' hs hrun
  cases hrun
  exact ⟨trivial, h⟩

theorem maintains_modify {update : σ → σ} (h : ∀ s, I s → I (update s)) :
    Maintains I (modify update : StateT σ (Except ε) PUnit) fun _ => True := by
  intro s a s' hs hrun
  cases hrun
  exact ⟨trivial, h s hs⟩

/-- A computation that always throws. -/
theorem maintains_throw {e : ε} : Maintains I (liftM (.error e : Except ε α) : StateT σ (Except ε) α) Q := by
  intro s a s' hs hrun
  exact nomatch hrun

theorem Maintains.ite {c : Prop} [Decidable c] {y : StateT σ (Except ε) α}
    (hx : c → Maintains I x Q) (hy : ¬c → Maintains I y Q) : Maintains I (if c then x else y) Q := by
  split
  case isTrue hc => exact hx hc
  case isFalse hc => exact hy hc

/-- Two branches that go on the same way. -/
theorem Maintains.ite_bind {c : Prop} [Decidable c] {y : StateT σ (Except ε) α}
    (hx : c → Maintains I x Q) (hy : ¬c → Maintains I y Q) (hf : ∀ a, Q a → Maintains I (f a) R) :
    Maintains I (if c then x >>= f else y >>= f) R :=
  .ite (fun hc => (hx hc).bind hf) fun hc => (hy hc).bind hf

theorem Maintains.map {g : α → β} (hx : Maintains I x Q) (hg : ∀ a, Q a → R (g a)) :
    Maintains I (g <$> x) R := by
  rw [map_eq_pure_bind]
  exact hx.bind fun a ha => maintains_pure (hg a ha)

/-- A loop whose body maintains the invariant. -/
theorem maintains_forM {γ : Type} {body : γ → StateT σ (Except ε) PUnit} {items : List γ}
    (h : ∀ item ∈ items, Maintains I (body item) fun _ => True) :
    Maintains I (items.forM body) fun _ => True := by
  induction items with
  | nil => exact maintains_pure trivial
  | cons item items ih =>
    show Maintains I (body item >>= fun _ => items.forM body) fun _ => True
    apply (h item List.mem_cons_self).bind
    intro _ _
    exact ih fun other hother => h other (List.mem_cons_of_mem _ hother)

end LanguageRuntime.Library

import Mathlib.Data.Set.Insert

/-!
# Generational slots

A table of slots that are reused, where an identifier is a slot number with the generation of
the slot at the time the identifier was issued. A `Ledger` records who occupies every slot,
the generation every slot has reached and every identifier issued so far with its owner. A
sound ledger never gives an identifier to two owners; soundness survives the three things an
allocator does with a slot: it vacates it, it issues it anew under a higher generation, and
it confirms an identifier that is already issued. An identifier whose slot has been vacated or has
moved on is retired for good.
-/

namespace LanguageRuntime.Library

/-- The slots, their generations and the identifiers issued for them, over owners `κ`. -/
structure Ledger (κ : Type) where
  occupant : ℕ → Option κ
  generation : ℕ → ℕ
  issued : Set ((ℕ × ℕ) × κ)

namespace Ledger

variable {κ : Type} {l : Ledger κ}

/-- Identifiers have one owner, lie below the generation their slot has reached, and every
occupant holds the identifier of its slot. -/
structure Sound (l : Ledger κ) : Prop where
  functional : ∀ id k k', (id, k) ∈ l.issued → (id, k') ∈ l.issued → k = k'
  bounded : ∀ slot g k, ((slot, g), k) ∈ l.issued → g ≤ l.generation slot
  current : ∀ slot k, l.occupant slot = some k → ((slot, l.generation slot), k) ∈ l.issued
  unique : ∀ slot slot' k, l.occupant slot = some k → l.occupant slot' = some k → slot = slot'

/-- Puts `k` into `slot` under generation `g`. -/
def place (l : Ledger κ) (slot g : ℕ) (k : κ) : Ledger κ where
  occupant := Function.update l.occupant slot (some k)
  generation := Function.update l.generation slot g
  issued := insert ((slot, g), k) l.issued

/-- The identifier `(slot, g)` may be given to `k`: it is newer than every identifier of the
slot, or it is the newest one and belongs to `k` already. -/
def MayIssue (l : Ledger κ) (slot g : ℕ) (k : κ) : Prop :=
  l.generation slot < g ∨ g = l.generation slot ∧ ((slot, g), k) ∈ l.issued

/-- Occupants may leave. -/
theorem Sound.evict (h : l.Sound) (occupant : ℕ → Option κ)
    (hsub : ∀ slot k, occupant slot = some k → l.occupant slot = some k) :
    ({ l with occupant := occupant } : Ledger κ).Sound where
  functional := h.functional
  bounded := h.bounded
  current slot k hk := h.current slot k (hsub slot k hk)
  unique slot slot' k hk hk' := h.unique slot slot' k (hsub slot k hk) (hsub slot' k hk')

/-- The identifier of an occupant may be issued to it again. -/
theorem Sound.mayIssue_current (h : l.Sound) {slot : ℕ} {k : κ}
    (hk : l.occupant slot = some k) : l.MayIssue slot (l.generation slot) k :=
  .inr ⟨rfl, h.current slot k hk⟩

theorem Sound.place (h : l.Sound) {slot g : ℕ} {k : κ} (hissue : l.MayIssue slot g k)
    (hnew : ∀ slot', slot' ≠ slot → l.occupant slot' ≠ some k) : (l.place slot g k).Sound where
  functional id k₁ k₂ h₁ h₂ := by
    -- a new identifier is above every generation issued for its slot
    have hid : ∀ k', ((slot, g), k') ∈ l.issued → k' = k := by
      intro k' hk'
      rcases hissue with hlt | ⟨-, hmem⟩
      · exact absurd (h.bounded _ _ _ hk') (Nat.not_le.mpr hlt)
      · exact h.functional _ _ _ hk' hmem
    rcases h₁ with h₁ | h₁ <;> rcases h₂ with h₂ | h₂
    · simp_all
    · obtain ⟨rfl, rfl⟩ := Prod.mk.inj h₁
      exact (hid _ h₂).symm
    · obtain ⟨rfl, rfl⟩ := Prod.mk.inj h₂
      exact hid _ h₁
    · exact h.functional id k₁ k₂ h₁ h₂
  bounded slot' g' k' hmem := by
    have hg : l.generation slot ≤ g := by
      rcases hissue with hlt | ⟨heq, -⟩
      · exact Nat.le_of_lt hlt
      · exact Nat.le_of_eq heq.symm
    by_cases hs : slot' = slot
    · subst hs
      rcases hmem with hmem | hmem
      · simp_all [Ledger.place]
      · simpa [Ledger.place] using (h.bounded _ _ _ hmem).trans hg
    · rcases hmem with hmem | hmem
      · simp_all
      · simpa [Ledger.place, hs] using h.bounded _ _ _ hmem
  current slot' k' hk' := by
    by_cases hs : slot' = slot
    · subst hs
      simp_all [Ledger.place]
    · simp only [Ledger.place, Function.update_of_ne hs] at hk' ⊢
      exact .inr (h.current slot' k' hk')
  unique s₁ s₂ k' h₁ h₂ := by
    by_cases hs₁ : s₁ = slot <;> by_cases hs₂ : s₂ = slot
    · rw [hs₁, hs₂]
    · subst hs₁
      simp only [Ledger.place, Function.update_self, Function.update_of_ne hs₂] at h₁ h₂
      cases h₁
      exact absurd h₂ (hnew _ hs₂)
    · subst hs₂
      simp only [Ledger.place, Function.update_self, Function.update_of_ne hs₁] at h₁ h₂
      cases h₂
      exact absurd h₁ (hnew _ hs₁)
    · simp only [Ledger.place, Function.update_of_ne hs₁, Function.update_of_ne hs₂] at h₁ h₂
      exact h.unique s₁ s₂ k' h₁ h₂

/-! ## Retired identifiers -/

/-- The identifier names nothing and will name nothing: its slot is empty, or has reached a later
generation. -/
structure Retired (l : Ledger κ) (id : ℕ × ℕ) : Prop where
  reached : id.2 ≤ l.generation id.1
  vacant : l.generation id.1 = id.2 → l.occupant id.1 = none

/-- Identifiers stay retired when occupants leave. -/
theorem Retired.evict {id : ℕ × ℕ} (h : l.Retired id) (occupant : ℕ → Option κ)
    (hsub : ∀ slot k, occupant slot = some k → l.occupant slot = some k) :
    ({ l with occupant := occupant } : Ledger κ).Retired id where
  reached := h.reached
  vacant hgeneration := by
    have hnone := h.vacant hgeneration
    show occupant id.1 = none
    cases hoccupant : occupant id.1 with
    | none => rfl
    | some k =>
      have hk := hsub _ _ hoccupant
      rw [hnone] at hk
      exact nomatch hk

/-- They stay retired under a placement that lowers no generation and issues another identifier. -/
theorem Retired.place {id : ℕ × ℕ} (h : l.Retired id) {slot g : ℕ} (k : κ)
    (hle : l.generation slot ≤ g) (hne : l.generation slot = g → (slot, g) ≠ id) :
    (l.place slot g k).Retired id := by
  by_cases hs : id.1 = slot
  · subst hs
    have hreached : id.2 ≤ g := h.reached.trans hle
    refine ⟨by simpa [Ledger.place] using hreached, fun hg => ?_⟩
    have hg : g = id.2 := by simpa [Ledger.place] using hg
    have hreached' := h.reached
    have hsame : l.generation id.1 = g := by omega
    have hid : (id.1, g) = id := Prod.ext rfl hg
    exact absurd hid (hne hsame)
  · refine ⟨?_, fun hg => ?_⟩
    · simpa [Ledger.place, hs] using h.reached
    · simp only [Ledger.place, Function.update_of_ne hs] at hg ⊢
      exact h.vacant hg

end Ledger

end LanguageRuntime.Library

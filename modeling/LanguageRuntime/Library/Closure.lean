/-!
# Least closed sets

The least set that contains given elements and is closed under edges and under gated edges,
which lead to their value only from an owner and a key that are both in the set.
-/

namespace LanguageRuntime.Library

variable {α β : Type}

/-- The least set with the elements of `init` closed under `edge` and `gate`. -/
inductive Reach (init : α → Prop) (edge : α → α → Prop) (gate : α → α → α → Prop) : α → Prop
  | init {a : α} : init a → Reach init edge gate a
  | edge {a b : α} : Reach init edge gate a → edge a b → Reach init edge gate b
  | gate {owner key value : α} : Reach init edge gate owner → Reach init edge gate key →
      gate owner key value → Reach init edge gate value

namespace Reach

variable {init : α → Prop} {edge : α → α → Prop} {gate : α → α → α → Prop}

/-- A set closed under the edges that has the initial elements has everything reachable. -/
theorem least {P : α → Prop} {a : α} (ha : Reach init edge gate a)
    (hinit : ∀ a, init a → P a) (hedge : ∀ a b, P a → edge a b → P b)
    (hgate : ∀ owner key value, P owner → P key → gate owner key value → P value) : P a := by
  induction ha with
  | init h => exact hinit _ h
  | edge _ h ih => exact hedge _ _ ih h
  | gate _ _ h iho ihk => exact hgate _ _ _ iho ihk h

/-- Reachability follows a map that respects the initial elements and the edges between
reachable elements. -/
theorem map {init' : β → Prop} {edge' : β → β → Prop} {gate' : β → β → β → Prop} (f : α → β)
    (hinit : ∀ a, init a → init' (f a))
    (hedge : ∀ a b, Reach init edge gate a → edge a b → edge' (f a) (f b))
    (hgate : ∀ owner key value, Reach init edge gate owner → Reach init edge gate key →
      gate owner key value → gate' (f owner) (f key) (f value))
    {a : α} (ha : Reach init edge gate a) : Reach init' edge' gate' (f a) := by
  induction ha with
  | init h => exact .init (hinit _ h)
  | edge ha h ih => exact .edge ih (hedge _ _ ha h)
  | gate ho hk h iho ihk => exact .gate iho ihk (hgate _ _ _ ho hk h)

end Reach

end LanguageRuntime.Library

import Mathlib.Data.List.Basic

/-!
# Programs with fuel and a log of their loops

A program of `Fuelled κ σ` runs on a state `σ`. It ends with a result and a new state, or it
runs out of fuel, and either way it leaves a log. A turn of a loop after which the loop goes
round again is written to the log: which of the loops `κ` it is, how many turns came before,
and the states before and after it.

`Steady` is the rule set for programs that end: what more fuel changes, that no loop is
stuck if the program ends, and that with enough fuel only a stuck loop keeps it from ending.
-/

namespace LanguageRuntime.Library

structure LoopTurn (κ σ : Type) where
  loop : κ
  number : ℕ
  before : σ
  after : σ

/-- What a program leaves: its result, unless it ran out of fuel, and its log. -/
structure Outcome (κ σ α : Type) where
  result : Option (α × σ)
  log : List (LoopTurn κ σ)

def Fuelled (κ σ α : Type) := σ → Outcome κ σ α

namespace Fuelled

variable {κ σ α β ι : Type}

/-! ## Programs -/

def outOfFuel : Fuelled κ σ α := fun _ => ⟨none, []⟩

def ret (a : α) : Fuelled κ σ α := fun s => ⟨some (a, s), []⟩

def andThen (m : Fuelled κ σ α) (f : α → Fuelled κ σ β) : Fuelled κ σ β := fun s =>
  match (m s).result with
  | none => ⟨none, (m s).log⟩
  | some (a, s') => ⟨(f a s').result, (m s).log ++ (f a s').log⟩

instance : Monad (Fuelled κ σ) where
  pure := ret
  bind := andThen

/-- The value of a function of the state. -/
def read (f : σ → α) : Fuelled κ σ α := fun s => ⟨some (f s, s), []⟩

/-- A change of the state. -/
def change (f : σ → σ) : Fuelled κ σ Unit := fun s => ⟨some ((), f s), []⟩

def tell (turn : LoopTurn κ σ) : Fuelled κ σ Unit := fun s => ⟨some ((), s), [turn]⟩

/-- A turn of a loop: it goes round again, or the loop is left. -/
inductive Turn (ι α : Type) where
  | again (i : ι)
  | leave (a : α)

/-- A loop from its turn of a given number on. -/
def loopFrom (kind : κ) (body : ι → Fuelled κ σ (Turn ι α)) : ℕ → ℕ → ι → Fuelled κ σ α
  | 0, _, _ => outOfFuel
  | n + 1, number, i => do
    let before ← read id
    match ← body i with
    | .leave a => pure a
    | .again i =>
      let after ← read id
      tell ⟨kind, number, before, after⟩
      loopFrom kind body n (number + 1) i

/-- A loop. Each turn spends one unit of fuel. -/
def loop (kind : κ) (n : ℕ) (body : ι → Fuelled κ σ (Turn ι α)) (i : ι) : Fuelled κ σ α :=
  loopFrom kind body n 0 i

/-! ## How programs run -/

section Run

variable {m : Fuelled κ σ α} {f : α → Fuelled κ σ β} {s s' : σ} {a : α}

@[simp] theorem pure_run (a : α) (s : σ) : (pure a : Fuelled κ σ α) s = ⟨some (a, s), []⟩ := rfl

@[simp] theorem read_run (f : σ → α) (s : σ) :
    (read f : Fuelled κ σ α) s = ⟨some (f s, s), []⟩ := rfl

@[simp] theorem change_run (f : σ → σ) (s : σ) :
    (change f : Fuelled κ σ Unit) s = ⟨some ((), f s), []⟩ := rfl

@[simp] theorem tell_run (turn : LoopTurn κ σ) (s : σ) :
    (tell turn : Fuelled κ σ Unit) s = ⟨some ((), s), [turn]⟩ := rfl

@[simp] theorem outOfFuel_run (s : σ) : (outOfFuel : Fuelled κ σ α) s = ⟨none, []⟩ := rfl

theorem bind_run_some (h : (m s).result = some (a, s')) :
    (m >>= f) s = ⟨(f a s').result, (m s).log ++ (f a s').log⟩ := by
  show andThen m f s = _
  rw [andThen, h]

theorem bind_run_none (h : (m s).result = none) : (m >>= f) s = ⟨none, (m s).log⟩ := by
  show andThen m f s = _
  rw [andThen, h]

@[simp] theorem pure_bind_run (a : α) (f : α → Fuelled κ σ β) (s : σ) :
    ((pure a : Fuelled κ σ α) >>= f) s = f a s := rfl

@[simp] theorem read_bind_run (g : σ → α) (f : α → Fuelled κ σ β) (s : σ) :
    ((read g : Fuelled κ σ α) >>= f) s = f (g s) s := rfl

@[simp] theorem change_bind_run (g : σ → σ) (f : Unit → Fuelled κ σ β) (s : σ) :
    ((change g : Fuelled κ σ Unit) >>= f) s = f () (g s) := rfl

@[simp] theorem tell_bind_run (turn : LoopTurn κ σ) (f : Unit → Fuelled κ σ β) (s : σ) :
    ((tell turn : Fuelled κ σ Unit) >>= f) s = ⟨(f () s).result, turn :: (f () s).log⟩ := rfl

/-- A program followed by another ends when both do. -/
theorem bind_result_eq_some {b : β} :
    ((m >>= f) s).result = some (b, s') ↔
      ∃ a s₁, (m s).result = some (a, s₁) ∧ (f a s₁).result = some (b, s') := by
  cases hm : (m s).result with
  | none => simp [bind_run_none hm]
  | some x =>
    have hrun : (m >>= f) s = ⟨(f x.1 x.2).result, (m s).log ++ (f x.1 x.2).log⟩ :=
      bind_run_some hm
    rw [hrun]
    refine ⟨fun h => ⟨x.1, x.2, rfl, h⟩, fun ⟨a, s₁, hx, h⟩ => ?_⟩
    cases hx
    exact h

end Run

/-! ## More fuel -/

/-- `y` is what is left with at least the fuel that left `x`: the same, or more of a run that
ran out of fuel. -/
def Extends (x y : Outcome κ σ α) : Prop := (x.result = none ∧ x.log <+: y.log) ∨ x = y

section Extends

variable {x y z : Outcome κ σ α}

theorem Extends.refl (x : Outcome κ σ α) : Extends x x := .inr rfl

theorem Extends.trans (hxy : Extends x y) (hyz : Extends y z) : Extends x z := by
  cases hxy with
  | inr heq => rwa [heq]
  | inl hxy =>
    cases hyz with
    | inr heq => exact .inl ⟨hxy.1, heq ▸ hxy.2⟩
    | inl hyz => exact .inl ⟨hxy.1, hxy.2.trans hyz.2⟩

theorem Extends.log (h : Extends x y) : x.log <+: y.log := by
  cases h with
  | inl h => exact h.2
  | inr h => exact h ▸ List.prefix_refl _

theorem Extends.eq (h : Extends x y) (hx : x.result ≠ none) : x = y := by
  cases h with
  | inl h => exact absurd h.1 hx
  | inr h => exact h

theorem Extends.outOfFuel (m : Fuelled κ σ α) (s : σ) :
    Extends ((outOfFuel : Fuelled κ σ α) s) (m s) :=
  .inl ⟨rfl, List.nil_prefix⟩

theorem Extends.bind {m m' : Fuelled κ σ α} {f f' : α → Fuelled κ σ β} {s : σ}
    (hm : Extends (m s) (m' s))
    (hf : ∀ a s', (m s).result = some (a, s') → Extends (f a s') (f' a s')) :
    Extends ((m >>= f) s) ((m' >>= f') s) := by
  cases hresult : (m s).result with
  | none =>
    have hlog : (m' s).log <+: ((m' >>= f') s).log := by
      cases hresult' : (m' s).result with
      | none =>
        have hrun : (m' >>= f') s = ⟨none, (m' s).log⟩ := bind_run_none hresult'
        exact hrun ▸ List.prefix_refl _
      | some x =>
        have hrun : (m' >>= f') s = ⟨(f' x.1 x.2).result, (m' s).log ++ (f' x.1 x.2).log⟩ :=
          bind_run_some hresult'
        rw [hrun]
        exact List.prefix_append _ _
    rw [bind_run_none hresult]
    exact .inl ⟨rfl, hm.log.trans hlog⟩
  | some x =>
    obtain ⟨a, s'⟩ := x
    have heq : m s = m' s := hm.eq (by rw [hresult]; simp)
    rw [bind_run_some hresult, bind_run_some (heq ▸ hresult), ← heq]
    cases hf a s' hresult with
    | inl h => exact .inl ⟨h.1, (List.prefix_append_right_inj _).mpr h.2⟩
    | inr h => exact .inr (by rw [h])

end Extends

/-! ## Programs that end -/

section Settles

/-- `size` bounds what is left to do, and `Stuck` says of a state at the head of a loop that
the loop stays there. -/
structure Settles (size : σ → ℕ) (Stuck : κ → σ → Prop) (enough : Prop) (m m' : Fuelled κ σ α)
    (s : σ) : Prop where
  /-- `m'` is `m` with at least its fuel. -/
  extend : Extends (m s) (m' s)
  shrink : ∀ a s', (m s).result = some (a, s') → size s' ≤ size s
  /-- A program that ends has not been stuck. -/
  clean : (m s).result ≠ none → ∀ turn ∈ (m s).log, ¬Stuck turn.loop turn.before
  /-- Every other turn makes progress. -/
  move : ∀ turn ∈ (m s).log, ¬Stuck turn.loop turn.before → size turn.after < size turn.before
  /-- With enough fuel a program that does not end is stuck. -/
  stick : enough → (m s).result = none → ∃ turn ∈ (m s).log, Stuck turn.loop turn.before

variable {size : σ → ℕ} {Stuck : κ → σ → Prop} {enough enough' : Prop}
  {m m' : Fuelled κ σ α} {f f' : α → Fuelled κ σ β} {s : σ}

theorem Settles.mono (h : Settles size Stuck enough m m' s) (himp : enough' → enough) :
    Settles size Stuck enough' m m' s :=
  { h with stick := fun he => h.stick (himp he) }

/-- A program that first goes to another state settles when it settles there. -/
theorem Settles.of_run {l l' : Fuelled κ σ α} {s₁ : σ} (h : Settles size Stuck enough' l l' s₁)
    (hm : m s = l s₁) (hm' : m' s = l' s₁) (hsize : size s₁ ≤ size s)
    (himp : enough → enough') : Settles size Stuck enough m m' s := by
  refine ⟨?_, ?_, ?_, ?_, ?_⟩ <;> simp only [hm, hm']
  · exact h.extend
  · exact fun a s' hresult => Nat.le_trans (h.shrink a s' hresult) hsize
  · exact h.clean
  · exact h.move
  · exact fun he => h.stick (himp he)

/-- A program that ends at once, without a turn of a loop. -/
theorem settles_of_run {a : α} {s' : σ} (hm : m s = ⟨some (a, s'), []⟩) (hm' : m' s = m s)
    (hsize : size s' ≤ size s) : Settles size Stuck enough m m' s := by
  refine ⟨.inr hm'.symm, fun b t h => ?_, fun _ turn hturn => ?_, fun turn hturn => ?_, fun _ h => ?_⟩
  · rw [hm] at h
    cases h
    exact hsize
  · rw [hm] at hturn
    exact absurd hturn List.not_mem_nil
  · rw [hm] at hturn
    exact absurd hturn List.not_mem_nil
  · rw [hm] at h
    exact absurd h (by simp)

theorem settles_pure (a : α) (s : σ) :
    Settles size Stuck enough (pure a) (pure a : Fuelled κ σ α) s :=
  settles_of_run rfl rfl (Nat.le_refl _)

theorem settles_read (g : σ → α) (s : σ) :
    Settles size Stuck enough (read g) (read g : Fuelled κ σ α) s :=
  settles_of_run rfl rfl (Nat.le_refl _)

theorem settles_change {g : σ → σ} (h : size (g s) ≤ size s) :
    Settles size Stuck enough (change g) (change g : Fuelled κ σ Unit) s :=
  settles_of_run rfl rfl h

theorem Settles.bind (hm : Settles size Stuck enough m m' s)
    (hf : ∀ a s', (m s).result = some (a, s') → Settles size Stuck enough (f a) (f' a) s') :
    Settles size Stuck enough (m >>= f) (m' >>= f') s := by
  have hextend : Extends ((m >>= f) s) ((m' >>= f') s) :=
    hm.extend.bind fun a s' h => (hf a s' h).extend
  cases hresult : (m s).result with
  | none =>
    have hrun : (m >>= f) s = ⟨none, (m s).log⟩ := bind_run_none hresult
    refine ⟨hextend, ?_, ?_, ?_, ?_⟩ <;> rw [hrun]
    · exact fun a s' h => absurd h (by simp)
    · exact fun h => absurd rfl h
    · exact hm.move
    · exact fun he _ => hm.stick he hresult
  | some x =>
    obtain ⟨a, s₁⟩ := x
    have hrun : (m >>= f) s = ⟨(f a s₁).result, (m s).log ++ (f a s₁).log⟩ :=
      bind_run_some hresult
    have hnext := hf a s₁ hresult
    refine ⟨hextend, ?_, ?_, ?_, ?_⟩ <;> rw [hrun]
    · exact fun b s' h => Nat.le_trans (hnext.shrink b s' h) (hm.shrink a s₁ hresult)
    · intro h turn hturn
      rcases List.mem_append.mp hturn with hturn | hturn
      · exact hm.clean (by rw [hresult]; simp) turn hturn
      · exact hnext.clean h turn hturn
    · intro turn hturn
      rcases List.mem_append.mp hturn with hturn | hturn
      · exact hm.move turn hturn
      · exact hnext.move turn hturn
    · intro he h
      have ⟨turn, hturn, hstuck⟩ := hnext.stick he h
      exact ⟨turn, List.mem_append_right _ hturn, hstuck⟩

/-- A loop that is stuck before a turn never ends. -/
theorem loopFrom_stuck {kind : κ} {body : ι → Fuelled κ σ (Turn ι α)}
    (hstuck : ∀ i s t s', Stuck kind s → (body i s).result = some (t, s') →
      (∃ i', t = .again i') ∧ Stuck kind s')
    (n number : ℕ) (i : ι) (h : Stuck kind s) : (loopFrom kind body n number i s).result = none := by
  induction n generalizing number i s with
  | zero => rfl
  | succ n ih =>
    rw [Option.eq_none_iff_forall_ne_some]
    intro x hx
    rw [loopFrom, read_bind_run, bind_result_eq_some] at hx
    have ⟨t, s', hbody, hrest⟩ := hx
    have ⟨⟨i', ht⟩, hs'⟩ := hstuck i s t s' h hbody
    rw [ht] at hrest
    simp only [read_bind_run, tell_bind_run, ih (number + 1) i' hs'] at hrest
    exact absurd hrest (by simp)

/-- A loop settles when each turn that goes round again makes progress or is stuck, and a
stuck turn leads to a stuck turn. -/
theorem settles_loopFrom {kind : κ} {body body' : ι → Fuelled κ σ (Turn ι α)} {b : ℕ}
    (hbody : ∀ i s, Settles size Stuck (size s < b) (body i) (body' i) s)
    (hstuck : ∀ i s t s', Stuck kind s → (body i s).result = some (t, s') →
      (∃ i', t = .again i') ∧ Stuck kind s')
    (hmove : ∀ i s i' s', ¬Stuck kind s → (body i s).result = some (.again i', s') →
      size s' < size s)
    (n n' : ℕ) (hn : n ≤ n') (number : ℕ) (i : ι) (s : σ) :
    Settles size Stuck (size s < b ∧ size s < n) (loopFrom kind body n number i)
      (loopFrom kind body' n' number i) s := by
  induction n generalizing n' number i s with
  | zero =>
    refine ⟨Extends.outOfFuel _ s, nofun, fun h => absurd rfl h, nofun, fun he => ?_⟩
    exact absurd he.2 (Nat.not_lt_zero _)
  | succ n ih =>
    obtain ⟨n', rfl⟩ : ∃ k, n' = k + 1 := ⟨n' - 1, by omega⟩
    rw [loopFrom, loopFrom]
    refine (settles_read id s).bind fun before s₁ hread => ?_
    cases hread
    refine ((hbody i s).mono And.left).bind fun t s₁ hresult => ?_
    cases t with
    | leave a => exact settles_pure a s₁
    | again i' =>
      have hrest := ih n' (by omega) (number + 1) i' s₁
      have hshrink := (hbody i s).shrink _ s₁ hresult
      refine ⟨?_, ?_, ?_, ?_, ?_⟩ <;> simp only [read_bind_run, tell_bind_run, id_eq]
      · exact hrest.extend.imp (fun h => ⟨h.1, (List.prefix_cons_inj _).mpr h.2⟩) fun h => by rw [h]
      · exact hrest.shrink
      · intro h turn hturn
        cases hturn with
        | head =>
          intro hs
          have hs₁ := (hstuck i s _ s₁ hs hresult).2
          exact h (loopFrom_stuck hstuck n (number + 1) i' hs₁)
        | tail _ hturn => exact hrest.clean h turn hturn
      · intro turn hturn hs
        cases hturn with
        | head => exact hmove i s i' s₁ hs hresult
        | tail _ hturn => exact hrest.move turn hturn hs
      · intro he h
        by_cases hs : Stuck kind s
        · exact ⟨_, List.mem_cons_self, hs⟩
        · have hlt := hmove i s i' s₁ hs hresult
          have ⟨turn, hturn, hstick⟩ := hrest.stick ⟨by omega, by omega⟩ h
          exact ⟨turn, List.mem_cons_of_mem _ hturn, hstick⟩

end Settles

/-! ## Steady programs -/

section Steady

variable (size : σ → ℕ) (Stuck : κ → σ → Prop)

/-- A program settles from every state, with enough fuel if less than `b` is left to do. -/
def Steady (b : ℕ) (m m' : Fuelled κ σ α) : Prop := ∀ s, Settles size Stuck (size s < b) m m' s

variable {size : σ → ℕ} {Stuck : κ → σ → Prop} {b b' : ℕ} {m m' : Fuelled κ σ α}
  {f f' : α → Fuelled κ σ β}

theorem Steady.mono (h : Steady size Stuck b m m') (hb : b' ≤ b) : Steady size Stuck b' m m' :=
  fun s => (h s).mono fun hs => Nat.lt_of_lt_of_le hs hb

theorem Steady.outOfFuel (m : Fuelled κ σ α) : Steady size Stuck 0 outOfFuel m := fun s => by
  refine ⟨Extends.outOfFuel m s, fun a s' h => ?_, fun h => absurd rfl h, fun turn hturn => ?_,
    fun h => absurd h (Nat.not_lt_zero _)⟩
  · exact absurd h (by simp)
  · exact absurd hturn List.not_mem_nil

theorem Steady.pure (a : α) : Steady size Stuck b (pure a) (pure a : Fuelled κ σ α) :=
  fun s => settles_pure a s

theorem Steady.read (g : σ → α) : Steady size Stuck b (read g) (read g : Fuelled κ σ α) :=
  fun s => settles_read g s

theorem Steady.change {g : σ → σ} (h : ∀ s, size (g s) ≤ size s) :
    Steady size Stuck b (change g) (change g : Fuelled κ σ Unit) :=
  fun s => settles_change (h s)

theorem Steady.bind (hm : Steady size Stuck b m m')
    (hf : ∀ a, Steady size Stuck b (f a) (f' a)) :
    Steady size Stuck b (m >>= f) (m' >>= f') := fun s =>
  (hm s).bind fun a s' h =>
    (hf a s').mono fun hs => Nat.lt_of_le_of_lt ((hm s).shrink a s' h) hs

theorem Steady.map (hm : Steady size Stuck b m m') (g : α → β) :
    Steady size Stuck b (g <$> m) (g <$> m') :=
  hm.bind fun a => .pure (g a)

theorem Steady.ite {c : Prop} [Decidable c] {l l' : Fuelled κ σ α}
    (hm : Steady size Stuck b m m') (hl : Steady size Stuck b l l') :
    Steady size Stuck b (if c then m else l) (if c then m' else l') := by
  split
  · exact hm
  · exact hl

theorem Steady.loop {kind : κ} {body body' : ι → Fuelled κ σ (Turn ι α)} {n n' : ℕ} (hb : b ≤ n)
    (hn : n ≤ n') (hbody : ∀ i, Steady size Stuck b (body i) (body' i))
    (hstuck : ∀ i s t s', Stuck kind s → (body i s).result = some (t, s') →
      (∃ i', t = .again i') ∧ Stuck kind s')
    (hmove : ∀ i s i' s', ¬Stuck kind s → (body i s).result = some (.again i', s') →
      size s' < size s) (i : ι) :
    Steady size Stuck b (loop kind n body i) (loop kind n' body' i) := fun s =>
  (settles_loopFrom hbody hstuck hmove n n' hn 0 i s).mono fun hs => ⟨hs, by omega⟩

end Steady

end Fuelled

end LanguageRuntime.Library

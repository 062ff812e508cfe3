import Mathlib.Data.List.Basic

/-!
# Weakest preconditions for programs with state and exceptions

A program of `EStateM ε σ` leaves a state behind whether it returns or throws. `wp m Q E s`
says that running `m` from `s` ends in a state where `Q` holds of the returned value, or, if
it throws, `E` holds of the error. `Yields` says the same of a computation without a state;
`query` runs one on the current state.
-/

namespace LanguageRuntime.Library

variable {ε σ α β γ : Type}

/-! ## Computations that may throw -/

/-- `x` returns into `Q` or throws into `E`. -/
def Yields (x : Except ε α) (Q : α → Prop) (E : ε → Prop) : Prop :=
  match x with
  | .ok a => Q a
  | .error e => E e

section YieldsRules

variable {Q : α → Prop} {Q' : β → Prop} {E : ε → Prop}

@[simp] theorem yields_ok (a : α) : Yields (.ok a) Q E ↔ Q a := Iff.rfl

@[simp] theorem yields_error (e : ε) : Yields (.error e) Q E ↔ E e := Iff.rfl

@[simp] theorem yields_pure (a : α) : Yields (pure a) Q E ↔ Q a := Iff.rfl

@[simp] theorem yields_throw (e : ε) : Yields (throw e : Except ε α) Q E ↔ E e := Iff.rfl

@[simp] theorem yields_bind (x : Except ε α) (f : α → Except ε β) :
    Yields (x >>= f) Q' E ↔ Yields x (fun a => Yields (f a) Q' E) E := by
  cases x <;> rfl

@[simp] theorem yields_map (f : α → β) (x : Except ε α) :
    Yields (f <$> x) Q' E ↔ Yields x (fun a => Q' (f a)) E := by
  cases x <;> rfl

theorem yields_iff {x : Except ε α} :
    Yields x Q E ↔ (∀ a, x = .ok a → Q a) ∧ ∀ e, x = .error e → E e := by
  cases x <;> simp

theorem Yields.mono {R : α → Prop} {F : ε → Prop} {x : Except ε α} (h : Yields x Q E)
    (hQ : ∀ a, Q a → R a) (hE : ∀ e, E e → F e) : Yields x R F := by
  cases x with
  | ok a => exact hQ a h
  | error e => exact hE e h

theorem Yields.of_ok {x : Except ε α} {a : α} (h : Yields x Q E) (hx : x = .ok a) : Q a := by
  rwa [hx] at h

/-- A computation that cannot throw returns. -/
theorem Yields.exists_ok {x : Except ε α} (h : Yields x Q fun _ => False) :
    ∃ a, x = .ok a ∧ Q a := by
  cases x with
  | ok a => exact ⟨a, rfl, h⟩
  | error e => exact h.elim

@[simp] theorem ok_bind (a : α) (f : α → Except ε β) : (Except.ok a >>= f) = f a := rfl

@[simp] theorem ok_map (a : α) (f : α → β) : (f <$> (Except.ok a : Except ε α)) = .ok (f a) := rfl

@[simp] theorem except_pure (a : α) : (pure a : Except ε α) = .ok a := rfl

theorem bind_eq_ok {x : Except ε α} {f : α → Except ε β} {b : β} :
    (x >>= f) = .ok b ↔ ∃ a, x = .ok a ∧ f a = .ok b := by
  cases x with
  | error e => exact ⟨nofun, fun ⟨_, h, _⟩ => nomatch h⟩
  | ok a => exact ⟨fun h => ⟨a, rfl, h⟩, fun ⟨_, h, hf⟩ => by cases h; exact hf⟩

theorem map_eq_ok {x : Except ε α} {f : α → β} {b : β} :
    (f <$> x) = .ok b ↔ ∃ a, x = .ok a ∧ f a = b := by
  cases x with
  | error e => exact ⟨nofun, fun ⟨_, h, _⟩ => nomatch h⟩
  | ok a => exact ⟨fun h => ⟨a, rfl, Except.ok.inj h⟩, fun ⟨_, h, hf⟩ => by cases h; exact congrArg _ hf⟩

/-- A loop of checks passes when every check does. -/
theorem forM_eq_ok {f : α → Except ε Unit} {l : List α} :
    l.forM f = .ok () ↔ ∀ a ∈ l, f a = .ok () := by
  induction l with
  | nil => simp [List.forM, pure, Except.pure]
  | cons a l ih =>
    show (f a >>= fun _ => l.forM f) = .ok () ↔ _
    rw [bind_eq_ok, List.forall_mem_cons, ← ih]
    exact ⟨fun ⟨_, ha, hl⟩ => ⟨ha, hl⟩, fun ⟨ha, hl⟩ => ⟨_, ha, hl⟩⟩

/-- A loop that returns everywhere returns everything. -/
theorem mapM_eq_ok_map {f : α → Except ε β} {g : α → β} {l : List α}
    (h : ∀ a ∈ l, f a = .ok (g a)) : l.mapM f = .ok (l.map g) := by
  induction l with
  | nil => rfl
  | cons a l ih =>
    rw [List.mapM_cons, h a List.mem_cons_self, ok_bind,
      ih fun x hx => h x (List.mem_cons_of_mem _ hx)]
    rfl

/-- A fold of a flag that every element sets where it satisfies `p` tells whether some element
does. -/
theorem foldlM_flag_eq_ok {f : Bool → α → Except ε Bool} {p : α → Prop} {l : List α}
    (found : Bool) (hf : ∀ found, ∀ a ∈ l, ∃ found', f found a = .ok found' ∧
      (found' = true ↔ found = true ∨ p a)) :
    ∃ found', l.foldlM f found = .ok found' ∧ (found' = true ↔ found = true ∨ ∃ a ∈ l, p a) := by
  induction l generalizing found with
  | nil => exact ⟨found, rfl, by simp⟩
  | cons a l ih =>
    obtain ⟨next, hnext, hset⟩ := hf found a List.mem_cons_self
    obtain ⟨found', hok, hiff⟩ := ih next fun found b hb => hf found b (List.mem_cons_of_mem _ hb)
    refine ⟨found', ?_, ?_⟩
    · rw [List.foldlM_cons]
      exact bind_eq_ok.mpr ⟨next, hnext, hok⟩
    · rw [hiff, hset, List.exists_mem_cons_iff, or_assoc]

/-- The invariant rule of a loop over a list: `P done state` holds after the elements `done`. -/
theorem yields_foldlM {f : β → α → Except ε β} {P : List α → β → Prop} {E : ε → Prop}
    (l : List α) (done : List α) {b : β} (h0 : P done b)
    (hstep : ∀ done a b, a ∈ l → P done b → Yields (f b a) (P (done ++ [a])) E) :
    Yields (l.foldlM f b) (P (done ++ l)) E := by
  induction l generalizing done b with
  | nil => simpa using h0
  | cons a l ih =>
    rw [List.foldlM_cons, yields_bind]
    refine (hstep done a b (by simp) h0).mono (fun b' hb' => ?_) fun e he => he
    have h := ih (done ++ [a]) hb' fun done x b hx hP => hstep done x b (by simp [hx]) hP
    simpa using h

/-- The invariant rule of a loop over `0, …, n - 1`. -/
theorem yields_foldlM_range {f : β → ℕ → Except ε β} {P : ℕ → β → Prop} {E : ε → Prop}
    {n : ℕ} {b : β} (h0 : P 0 b)
    (hstep : ∀ i b, i < n → P i b → Yields (f b i) (P (i + 1)) E) :
    Yields ((List.range n).foldlM f b) (P n) E := by
  induction n with
  | zero => simpa using h0
  | succ n ih =>
    rw [List.range_succ, List.foldlM_append, yields_bind]
    refine (ih fun i b hi => hstep i b (Nat.lt_succ_of_lt hi)).mono (fun b' hb' => ?_)
      fun e he => he
    rw [List.foldlM_cons, yields_bind]
    exact (hstep n b' (Nat.lt_succ_self n) hb').mono (fun b hb => by simpa using hb) fun e he => he

theorem yields_forM {f : α → Except ε PUnit} {l : List α} {E : ε → Prop}
    (h : ∀ a ∈ l, Yields (f a) (fun _ => True) E) : Yields (l.forM f) (fun _ => True) E := by
  induction l with
  | nil => exact trivial
  | cons a l ih =>
    show Yields (f a >>= fun _ => l.forM f) _ _
    rw [yields_bind]
    exact (h a (by simp)).mono (fun _ _ => ih fun x hx => h x (by simp [hx])) fun e he => he

theorem yields_mapM {f : α → Except ε β} {l : List α} {R : α → β → Prop} {E : ε → Prop}
    (h : ∀ a ∈ l, Yields (f a) (R a) E) : Yields (l.mapM f) (List.Forall₂ R l) E := by
  induction l with
  | nil => simp [List.mapM_nil]
  | cons a l ih =>
    rw [List.mapM_cons, yields_bind]
    refine (h a (by simp)).mono (fun b hb => ?_) fun e he => he
    rw [yields_bind]
    refine (ih fun x hx => h x (by simp [hx])).mono (fun l' hl' => ?_) fun e he => he
    simpa using ⟨hb, hl'⟩

end YieldsRules

/-! ## Programs with a state -/

/-- Running `m` from `s` returns into `Q` or throws into `E`. -/
def wp (m : EStateM ε σ α) (Q : α → σ → Prop) (E : ε → σ → Prop) (s : σ) : Prop :=
  match m s with
  | .ok a s' => Q a s'
  | .error e s' => E e s'

/-- A computation that reads the state. -/
def query (f : σ → Except ε α) : EStateM ε σ α := fun s =>
  match f s with
  | .ok a => .ok a s
  | .error e => .error e s

section Rules

variable {Q : α → σ → Prop} {Q' : β → σ → Prop} {E : ε → σ → Prop} {s : σ}

@[simp] theorem wp_pure (a : α) : wp (pure a : EStateM ε σ α) Q E s ↔ Q a s := Iff.rfl

@[simp] theorem wp_throw (e : ε) : wp (throw e : EStateM ε σ α) Q E s ↔ E e s := Iff.rfl

@[simp] theorem wp_get (Q : σ → σ → Prop) : wp (get : EStateM ε σ σ) Q E s ↔ Q s s := Iff.rfl

@[simp] theorem wp_set (t : σ) (Q : PUnit → σ → Prop) :
    wp (set t : EStateM ε σ PUnit) Q E s ↔ Q ⟨⟩ t := Iff.rfl

@[simp] theorem wp_modify (f : σ → σ) (Q : PUnit → σ → Prop) :
    wp (modify f : EStateM ε σ PUnit) Q E s ↔ Q ⟨⟩ (f s) := Iff.rfl

@[simp] theorem wp_query (f : σ → Except ε α) :
    wp (query f) Q E s ↔ Yields (f s) (fun a => Q a s) fun e => E e s := by
  unfold wp query
  cases f s <;> rfl

@[simp] theorem wp_bind (m : EStateM ε σ α) (f : α → EStateM ε σ β) :
    wp (m >>= f) Q' E s ↔ wp m (fun a => wp (f a) Q' E) E s := by
  unfold wp
  show (match EStateM.bind m f s with | .ok a s' => Q' a s' | .error e s' => E e s') ↔ _
  unfold EStateM.bind
  cases m s <;> rfl

@[simp] theorem wp_map (f : α → β) (m : EStateM ε σ α) :
    wp (f <$> m) Q' E s ↔ wp m (fun a => Q' (f a)) E s := by
  unfold wp
  show (match EStateM.map f m s with | .ok a s' => Q' a s' | .error e s' => E e s') ↔ _
  unfold EStateM.map
  cases m s <;> rfl

theorem wp_query_bind {f : σ → Except ε α} {g : α → EStateM ε σ β}
    (hg : ∀ a, f s = .ok a → wp (g a) Q' E s) (he : ∀ e, f s = .error e → E e s) :
    wp (query f >>= g) Q' E s := by
  rw [wp_bind, wp_query, yields_iff]
  exact ⟨hg, he⟩

/-- A part whose outcome does not matter. -/
theorem wp_bind_forall {m : EStateM ε σ α} {f : α → EStateM ε σ β}
    (hf : ∀ a s', wp (f a) Q' E s') (he : ∀ e s', E e s') : wp (m >>= f) Q' E s := by
  rw [wp_bind]
  unfold wp
  cases m s with
  | ok a s' => exact hf a s'
  | error e s' => exact he e s'

theorem wp_ite {c : Prop} [Decidable c] {m m' : EStateM ε σ α}
    (h : c → wp m Q E s) (h' : ¬c → wp m' Q E s) : wp (if c then m else m') Q E s := by
  split
  · exact h ‹_›
  · exact h' ‹_›

theorem wp_mono {R : α → σ → Prop} {F : ε → σ → Prop} {m : EStateM ε σ α}
    (h : wp m Q E s) (hQ : ∀ a s', Q a s' → R a s') (hE : ∀ e s', E e s' → F e s') :
    wp m R F s := by
  unfold wp at h ⊢
  cases hm : m s with
  | ok a s' => rw [hm] at h; exact hQ a s' h
  | error e s' => rw [hm] at h; exact hE e s' h

theorem wp_and {R : α → σ → Prop} {F : ε → σ → Prop} {m : EStateM ε σ α}
    (h : wp m Q E s) (h' : wp m R F s) :
    wp m (fun a s' => Q a s' ∧ R a s') (fun e s' => E e s' ∧ F e s') s := by
  unfold wp at h h' ⊢
  cases hm : m s <;> rw [hm] at h h' <;> exact ⟨h, h'⟩

/-- A program that returns into `Q` does so in the run at hand. -/
theorem wp_run {m : EStateM ε σ α} (h : wp m Q E s) :
    wp m (fun a s' => Q a s' ∧ m s = .ok a s') E s := by
  unfold wp at h ⊢
  cases hm : m s with
  | ok a s' =>
    rw [hm] at h
    exact ⟨h, rfl⟩
  | error e s' =>
    rw [hm] at h
    exact h

/-- A program that cannot throw returns. -/
theorem wp_exists_ok {m : EStateM ε σ α} (h : wp m Q (fun _ _ => False) s) :
    ∃ a s', m s = .ok a s' ∧ Q a s' := by
  unfold wp at h
  cases hm : m s with
  | ok a s' =>
    rw [hm] at h
    exact ⟨a, s', rfl, h⟩
  | error e s' =>
    rw [hm] at h
    exact h.elim

theorem wp_ok {m : EStateM ε σ α} {a : α} {s' : σ} (hm : m s = .ok a s') (h : wp m Q E s) :
    Q a s' := by
  unfold wp at h
  rwa [hm] at h

theorem wp_error {m : EStateM ε σ α} {e : ε} {s' : σ} (hm : m s = .error e s')
    (h : wp m Q E s) : E e s' := by
  unfold wp at h
  rwa [hm] at h

theorem wp_eq_ok {m : EStateM ε σ α} {a : α} {s' : σ} (hm : m s = .ok a s') :
    wp m Q E s ↔ Q a s' := by
  unfold wp
  rw [hm]

/-- A query that is known to return. -/
theorem wp_query_ok {f : σ → Except ε α} {a : α} {g : α → EStateM ε σ β} (hf : f s = .ok a)
    (hg : wp (g a) Q' E s) : wp (query f >>= g) Q' E s := by
  rw [wp_bind, wp_query, hf]
  exact hg

theorem wp_of_run {m : EStateM ε σ α} (hQ : ∀ a s', m s = .ok a s' → Q a s')
    (hE : ∀ e s', m s = .error e s' → E e s') : wp m Q E s := by
  unfold wp
  cases hm : m s with
  | ok a s' => exact hQ a s' hm
  | error e s' => exact hE e s' hm

/-- A program that can only throw one error in one state. -/
theorem run_eq_error {m : EStateM ε σ α} {e : ε} {t : σ}
    (hm : wp m (fun _ _ => False) (fun e' t' => e' = e ∧ t' = t) s) : m s = .error e t := by
  unfold wp at hm
  cases hrun : m s with
  | ok a s' =>
    rw [hrun] at hm
    exact hm.elim
  | error e' t' =>
    rw [hrun] at hm
    obtain ⟨rfl, rfl⟩ := hm
    rfl

end Rules

/-! ## Programs that run alike -/

section Alike

variable {s : σ} {m m' : EStateM ε σ α} {f g : α → EStateM ε σ β}

theorem bind_run (m : EStateM ε σ α) (f : α → EStateM ε σ β) (s : σ) : (m >>= f) s =
    match m s with
    | .ok a s' => f a s'
    | .error e s' => .error e s' := rfl

/-- A common first part, after which two programs run alike. -/
theorem bind_congr_run (h : ∀ a s', m s = .ok a s' → f a s' = g a s') :
    (m >>= f) s = (m >>= g) s := by
  rw [bind_run, bind_run]
  cases hm : m s with
  | ok a s' => exact h a s' hm
  | error e s' => rfl

/-- First parts that run alike. -/
theorem bind_run_left (h : m s = m' s) : (m >>= f) s = (m' >>= f) s := by
  rw [bind_run, bind_run, h]

theorem bind_run_ok {a : α} {s' : σ} (h : m s = .ok a s') : (m >>= f) s = f a s' := by
  rw [bind_run, h]

theorem ite_congr_run {c : Prop} [Decidable c] {n n' : EStateM ε σ α} (h : c → m s = m' s)
    (h' : ¬c → n s = n' s) : (if c then m else n) s = (if c then m' else n') s := by
  split
  · exact h ‹_›
  · exact h' ‹_›

theorem map_run_congr (k : α → β) (h : m s = m' s) : (k <$> m) s = (k <$> m') s := by
  show EStateM.map k m s = EStateM.map k m' s
  unfold EStateM.map
  rw [h]

theorem query_congr_run {q : σ → Except ε α} (h : ∀ a, q s = .ok a → f a s = g a s) :
    (query q >>= f) s = (query q >>= g) s := by
  refine bind_congr_run fun a s' hrun => ?_
  unfold query at hrun
  cases hq : q s with
  | ok a' =>
    rw [hq] at hrun
    cases hrun
    exact h a hq
  | error e =>
    rw [hq] at hrun
    exact nomatch hrun

theorem query_run_ok {q : σ → Except ε α} {a : α} (h : q s = .ok a) :
    (query q >>= f) s = f a s := by
  rw [bind_run, query, h]

theorem query_run_left {q q' : σ → Except ε α} (h : q s = q' s) :
    (query q >>= f) s = (query q' >>= f) s := by
  refine bind_run_left ?_
  rw [query, query, h]

end Alike

/-! ## Invariants -/

/-- However `m` ends, it ends in a state with `I`, when it starts in one. -/
def Preserves (I : σ → Prop) (m : EStateM ε σ α) : Prop :=
  ∀ s, I s → wp m (fun _ => I) (fun _ => I) s

namespace Preserves

variable {I : σ → Prop}

theorem pure (a : α) : Preserves I (Pure.pure a : EStateM ε σ α) := fun _ h => h

theorem throw (e : ε) : Preserves I (MonadExcept.throw e : EStateM ε σ α) := fun _ h => h

theorem get : Preserves I (MonadState.get : EStateM ε σ σ) := fun _ h => h

theorem query (f : σ → Except ε α) : Preserves I (query f) := fun s h => by
  rw [wp_query, yields_iff]
  exact ⟨fun _ _ => h, fun _ _ => h⟩

theorem modify {f : σ → σ} (hf : ∀ s, I s → I (f s)) :
    Preserves I (modifyThe σ f : EStateM ε σ PUnit) := hf

theorem bind {m : EStateM ε σ α} {f : α → EStateM ε σ β} (hm : Preserves I m)
    (hf : ∀ a, Preserves I (f a)) : Preserves I (m >>= f) := fun s hs => by
  rw [Library.wp_bind]
  exact wp_mono (hm s hs) (fun a s' hs' => hf a s' hs') fun _ _ he => he

/-- An invariant of a first part, for a program with another postcondition. -/
theorem wp_bind {J : σ → Prop} {m : EStateM ε σ α} {f : α → EStateM ε σ β}
    {Q : β → σ → Prop} {E : ε → σ → Prop} {s : σ} (hm : Preserves J m) (hs : J s)
    (hf : ∀ a s', J s' → wp (f a) Q E s') (he : ∀ e s', J s' → E e s') :
    wp (m >>= f) Q E s := by
  rw [Library.wp_bind]
  exact wp_mono (hm s hs) (fun a s' hs' => hf a s' hs') he

theorem set {t : σ} (ht : I t) : Preserves I (MonadStateOf.set t : EStateM ε σ PUnit) :=
  fun _ _ => ht

/-- The rest of a program may use the invariant of the state it reads. -/
theorem getting {f : σ → EStateM ε σ α} (hf : ∀ s, I s → Preserves I (f s)) :
    Preserves I (MonadState.get >>= f) := fun s hs =>
  (Library.wp_bind _ _).mpr (hf s hs s hs)

theorem get_bind {f : σ → EStateM ε σ α}
    (hf : ∀ s, I s → wp (f s) (fun _ => I) (fun _ => I) s) :
    Preserves I (MonadState.get >>= f) := fun s hs => (Library.wp_bind _ _).mpr (hf s hs)

theorem query_bind {f : σ → Except ε α} {g : α → EStateM ε σ β}
    (hg : ∀ s a, I s → f s = .ok a → wp (g a) (fun _ => I) (fun _ => I) s) :
    Preserves I (Library.query f >>= g) := fun s hs =>
  wp_query_bind (fun a ha => hg s a hs ha) fun _ _ => hs

theorem map {f : α → β} {m : EStateM ε σ α} (hm : Preserves I m) : Preserves I (f <$> m) :=
  fun s hs => by
    rw [wp_map]
    exact hm s hs

theorem ite {c : Prop} [Decidable c] {m m' : EStateM ε σ α} (hm : Preserves I m)
    (hm' : Preserves I m') : Preserves I (if c then m else m') := by
  split
  · exact hm
  · exact hm'

/-- A check that throws before the rest of the program. -/
theorem guard {c : Prop} [Decidable c] {e : ε} {f : β → EStateM ε σ α} {m : EStateM ε σ α}
    (hm : Preserves I m) :
    Preserves I (if c then (MonadExcept.throw e : EStateM ε σ β) >>= f else m) :=
  .ite (fun _ hs => (Library.wp_bind _ _).mpr hs) hm

end Preserves

/-! ## Runs that return -/

/-- If `m` returns from a state with `I`, it leaves one with `J`. -/
def Ensures (I J : σ → Prop) (m : EStateM ε σ α) : Prop :=
  ∀ s, I s → wp m (fun _ => J) (fun _ _ => True) s

namespace Ensures

variable {I J K : σ → Prop} {m m' : EStateM ε σ α} {f : α → EStateM ε σ β}

theorem pure (a : α) : Ensures I I (Pure.pure a : EStateM ε σ α) := fun _ h => h

theorem throw (e : ε) : Ensures I J (MonadExcept.throw e : EStateM ε σ α) := fun _ _ => trivial

theorem query (f : σ → Except ε α) : Ensures I I (query f) := fun s h => by
  rw [wp_query, yields_iff]
  exact ⟨fun _ _ => h, fun _ _ => trivial⟩

theorem modify {f : σ → σ} (hf : ∀ s, I s → J (f s)) :
    Ensures I J (modifyThe σ f : EStateM ε σ PUnit) := hf

theorem bind (hm : Ensures I J m) (hf : ∀ a, Ensures J K (f a)) : Ensures I K (m >>= f) :=
  fun s hs => by
    rw [wp_bind]
    exact wp_mono (hm s hs) (fun a s' hs' => hf a s' hs') fun _ _ _ => trivial

/-- A last part that ensures `J` from every state. -/
theorem last (hf : ∀ a, Ensures (fun _ => True) J (f a)) : Ensures I J (m >>= f) := fun _ _ =>
  wp_bind_forall (fun a s' => hf a s' trivial) fun _ _ => trivial

theorem getting {f : σ → EStateM ε σ α} (hf : ∀ s, I s → wp (f s) (fun _ => J) (fun _ _ => True) s) :
    Ensures I J (MonadState.get >>= f) := fun s hs => (wp_bind _ _).mpr (hf s hs)

theorem map {f : α → β} (hm : Ensures I J m) : Ensures I J (f <$> m) := fun s hs => by
  rw [wp_map]
  exact hm s hs

theorem ite {c : Prop} [Decidable c] (hm : Ensures I J m) (hm' : Ensures I J m') :
    Ensures I J (if c then m else m') := by
  split
  · exact hm
  · exact hm'

/-- A check that throws before the rest of the program. -/
theorem guard {c : Prop} [Decidable c] {e : ε} {f : β → EStateM ε σ α} (hm : Ensures I J m) :
    Ensures I J (if c then (MonadExcept.throw e : EStateM ε σ β) >>= f else m) :=
  .ite (fun _ _ => (wp_bind _ _).mpr trivial) hm

theorem mono {I' J' : σ → Prop} (hm : Ensures I J m) (hI : ∀ s, I' s → I s)
    (hJ : ∀ s, J s → J' s) : Ensures I' J' m := fun s hs =>
  wp_mono (hm s (hI s hs)) (fun _ s' hs' => hJ s' hs') fun _ _ _ => trivial

/-- From states without `I` nothing has to be shown. -/
theorem weaken (hm : Ensures (fun _ => True) J m) : Ensures I J m := hm.mono (fun _ _ => trivial) fun _ h => h

end Ensures

theorem Preserves.ensures {I : σ → Prop} {m : EStateM ε σ α} (hm : Preserves I m) :
    Ensures I I m := fun s hs => wp_mono (hm s hs) (fun _ _ hs' => hs') fun _ _ _ => trivial

end LanguageRuntime.Library

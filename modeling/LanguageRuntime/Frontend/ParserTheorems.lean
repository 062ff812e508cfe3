import LanguageRuntime.Frontend.Parser

/-!
# The parser ends unless a loop is stuck

A loop over the statements of a block or over the arms of a `match` is stuck before a token
that neither its parser passes nor `synchronize`. Every other turn of every loop passes a
token. So the parser ends with fuel for the number of tokens when no loop is stuck, and never
ends when one is.
-/

namespace LanguageRuntime.Frontend

open Library Library.Fuelled

/-! ## Stuck loops -/

/-- `synchronize` returns at once. -/
def ParserState.SynchronizeStops (s : ParserState) : Prop :=
  s.previous.kind = .semicolon ∨ synchronizeKinds.contains (nextKind s.tokens)

instance : DecidablePred ParserState.SynchronizeStops := fun _ =>
  inferInstanceAs (Decidable (_ ∨ _))

/-- `parse_statement` returns at once with nothing. -/
def ParserState.NoStatement (s : ParserState) : Prop :=
  s.recursionDepth < kMaxRecursionDepth ∧ startsStatement s.tokens = false

instance : DecidablePred ParserState.NoStatement := fun _ =>
  inferInstanceAs (Decidable (_ ∧ _))

/-- The tokens at which an arm of a `match` or what follows it goes on. -/
def armKinds : List TokenKind := [.identifier, .lParen, .fatArrow, .lBrace, .comma]

/-- The loop is at neither a closing brace nor the end. -/
def ParserState.InBraces (s : ParserState) : Prop :=
  nextKind s.tokens ≠ .rBrace ∧ nextKind s.tokens ≠ .end

instance : DecidablePred ParserState.InBraces := fun _ => inferInstanceAs (Decidable (_ ∧ _))

/-- The loop is at a token that neither its parser nor `synchronize` passes. -/
def Stalled : Loop → ParserState → Prop
  | .block, s => s.InBraces ∧ s.NoStatement ∧ s.SynchronizeStops
  | .arms, s => s.InBraces ∧ armKinds.contains (nextKind s.tokens) = false ∧ s.SynchronizeStops
  | _, _ => False

instance : ∀ (kind : Loop) (s : ParserState), Decidable (Stalled kind s)
  | .block, _ => inferInstanceAs (Decidable (_ ∧ _ ∧ _))
  | .arms, _ => inferInstanceAs (Decidable (_ ∧ _ ∧ _))
  | .declarations, _ => inferInstanceAs (Decidable False)
  | .statements, _ => inferInstanceAs (Decidable False)
  | .body, _ => inferInstanceAs (Decidable False)
  | .list, _ => inferInstanceAs (Decidable False)
  | .places, _ => inferInstanceAs (Decidable False)
  | .equality, _ => inferInstanceAs (Decidable False)
  | .comparison, _ => inferInstanceAs (Decidable False)
  | .addition, _ => inferInstanceAs (Decidable False)
  | .suffixes, _ => inferInstanceAs (Decidable False)

/-- The tokens that are left. -/
def ParserState.size (s : ParserState) : ℕ := s.tokens.length

/-- `Steady`, for parsers. -/
abbrev SteadyParse {α : Type} : ℕ → ParserM α → ParserM α → Prop :=
  Steady ParserState.size Stalled

/-! ## Tokens -/

section Tokens

variable {α : Type} {b n n' : ℕ}

theorem ParserState.size_advance (s : ParserState) : s.advance.size = s.size - 1 := by
  cases s with
  | mk previous tokens => cases tokens <;> rfl

theorem length_skipTokens_le (previous : Token) (tokens : List Token) :
    (skipTokens previous tokens).2.length ≤ tokens.length := by
  induction tokens generalizing previous with
  | nil => exact Nat.le_refl _
  | cons token tokens ih =>
    rw [skipTokens]
    split
    · exact Nat.le_refl _
    · exact Nat.le_succ_of_le (ih token)

theorem steady_peek : SteadyParse b peek peek := .read _

theorem steady_check (kind : TokenKind) : SteadyParse b (check kind) (check kind) := .read _

/-- A change of the state that does not touch the tokens. -/
theorem steady_change {f : ParserState → ParserState} (h : ∀ s, (f s).tokens = s.tokens) :
    SteadyParse b (change f) (change f) :=
  .change fun s => Nat.le_of_eq (congrArg List.length (h s))

theorem steady_change_bind {f : ParserState → ParserState} {g g' : Unit → ParserM α}
    (h : ∀ s, (f s).tokens = s.tokens) (hg : SteadyParse b (g ()) (g' ())) :
    SteadyParse b (change f >>= g) (change f >>= g') :=
  (steady_change h).bind fun _ => hg

theorem steady_advance :
    SteadyParse b (change ParserState.advance) (change ParserState.advance) :=
  .change fun s => by rw [s.size_advance]; omega

theorem steady_advanceUnlessEnd : SteadyParse b advanceUnlessEnd advanceUnlessEnd :=
  .change fun s => by
    split
    · exact Nat.le_refl _
    · rw [s.size_advance]; omega

theorem steady_synchronize : SteadyParse b synchronize synchronize :=
  .change fun s => length_skipTokens_le s.previous s.tokens

theorem steady_diagnose (position : SourcePosition) (message : String) :
    SteadyParse b (diagnose position message) (diagnose position message) :=
  steady_change fun _ => rfl

theorem steady_diagnoseNext (message : String) :
    SteadyParse b (diagnoseNext message) (diagnoseNext message) :=
  steady_peek.bind fun token => steady_diagnose token.position message

@[simp] theorem ifAhead_run (test : List Token → Bool) (passed : Token → ParserM α)
    (otherwise : ParserM α) (s : ParserState) :
    ifAhead test passed otherwise s =
      if test s.tokens then passed (nextToken s.tokens) s.advance else otherwise s := by
  rw [ifAhead, read_bind_run]
  split
  · rfl
  · rfl

/-- The branch that passes a token has one token less to do. -/
theorem steady_ifAhead_succ {test : List Token → Bool} {passed passed' : Token → ParserM α}
    {otherwise otherwise' : ParserM α} (htest : test [] = false)
    (hpassed : ∀ token, SteadyParse b (passed token) (passed' token))
    (hotherwise : SteadyParse (b + 1) otherwise otherwise') :
    SteadyParse (b + 1) (ifAhead test passed otherwise) (ifAhead test passed' otherwise') := by
  intro s
  by_cases h : test s.tokens
  · have hs : s.tokens ≠ [] := fun hnil => by rw [hnil, htest] at h; simp at h
    have hpos : 0 < s.size := List.length_pos_of_ne_nil hs
    have hadvance := s.size_advance
    exact (hpassed (nextToken s.tokens) s.advance).of_run (by simp [h]) (by simp [h])
      (by omega) fun hlt => by omega
  · exact (hotherwise s).of_run (by simp [h]) (by simp [h]) (Nat.le_refl _) id

theorem steady_ifAhead {test : List Token → Bool} {passed passed' : Token → ParserM α}
    {otherwise otherwise' : ParserM α}
    (hpassed : ∀ token, SteadyParse b (passed token) (passed' token))
    (hotherwise : SteadyParse b otherwise otherwise') :
    SteadyParse b (ifAhead test passed otherwise) (ifAhead test passed' otherwise') :=
  (Steady.read _).bind fun _ =>
    .ite (steady_peek.bind fun token => steady_advance.bind fun _ => hpassed token) hotherwise

theorem steady_ifMatch {kinds : List TokenKind} {passed passed' : Token → ParserM α}
    {otherwise otherwise' : ParserM α}
    (hpassed : ∀ token, SteadyParse b (passed token) (passed' token))
    (hotherwise : SteadyParse b otherwise otherwise') :
    SteadyParse b (ifMatch kinds passed otherwise) (ifMatch kinds passed' otherwise') :=
  steady_ifAhead hpassed hotherwise

theorem steady_ifMatch_succ {kinds : List TokenKind} {passed passed' : Token → ParserM α}
    {otherwise otherwise' : ParserM α} (hkinds : kinds.contains .end = false)
    (hpassed : ∀ token, SteadyParse b (passed token) (passed' token))
    (hotherwise : SteadyParse (b + 1) otherwise otherwise') :
    SteadyParse (b + 1) (ifMatch kinds passed otherwise) (ifMatch kinds passed' otherwise') :=
  steady_ifAhead_succ hkinds hpassed hotherwise

theorem steady_expect (kind : TokenKind) (message : String) :
    SteadyParse b (expect kind message) (expect kind message) :=
  steady_ifMatch (fun token => .pure (some token))
    ((steady_diagnoseNext message).bind fun _ => .pure none)

theorem steady_expectFieldName (message : String) :
    SteadyParse b (expectFieldName message) (expectFieldName message) :=
  steady_ifMatch (fun token => .pure (some token))
    ((steady_diagnoseNext message).bind fun _ => .pure none)

theorem steady_requireResult (result : Option Expr) (message : String) :
    SteadyParse b (requireResult result message) (requireResult result message) :=
  (Steady.read _).bind fun _ => .ite (steady_diagnoseNext message) (.pure ())

theorem steady_expectEnd (result : Option Expr) :
    SteadyParse b (expectEnd result) (expectEnd result) :=
  .ite ((steady_expect _ _).bind fun _ => .pure ()) (.pure ())

theorem steady_guarded {tooDeep tooDeep' body body' : ParserM α}
    (hdeep : SteadyParse b tooDeep tooDeep') (hbody : SteadyParse b body body') :
    SteadyParse b (guarded tooDeep body) (guarded tooDeep' body') :=
  (Steady.read _).bind fun _ =>
    .ite hdeep <| steady_change_bind (fun _ => rfl) <| hbody.bind fun a =>
      steady_change_bind (fun _ => rfl) (.pure a)

end Tokens

/-! ## Passing a token -/

section Passes

variable {ι α β : Type} {b n n' : ℕ} {s : ParserState}

/-- A program that passes a token from a state when its result is of a kind. -/
def Passes (P : α → Prop) (m : ParserM α) (s : ParserState) : Prop :=
  ∀ a s', (m s).result = some (a, s') → P a → s'.size < s.size

theorem passes_pure {P : α → Prop} {a : α} (h : ¬P a) : Passes P (pure a) s :=
  fun _ _ hresult hP => by
    cases hresult
    exact absurd hP h

theorem Passes.ite {P : α → Prop} {c : Prop} [Decidable c] {m l : ParserM α}
    (hm : c → Passes P m s) (hl : ¬c → Passes P l s) : Passes P (if c then m else l) s := by
  split
  next hc => exact hm hc
  next hc => exact hl hc

theorem Passes.bind {P : α → Prop} {m m' : ParserM β} {f : β → ParserM α}
    (hm : SteadyParse b m m') (hf : ∀ a s', Passes P (f a) s') : Passes P (m >>= f) s :=
  fun a s' h hP => by
    have ⟨x, s₁, hm', hf'⟩ := bind_result_eq_some.mp h
    have hshrink := (hm s).shrink x s₁ hm'
    have hlt := hf x s₁ a s' hf' hP
    omega

theorem passes_ifAhead {P : α → Prop} {test : List Token → Bool}
    {passed passed' : Token → ParserM α} {otherwise : ParserM α} (htest : test [] = false)
    (hpassed : ∀ token, SteadyParse b (passed token) (passed' token))
    (hotherwise : test s.tokens = false → Passes P otherwise s) :
    Passes P (ifAhead test passed otherwise) s := by
  intro a s' h hP
  rw [ifAhead_run] at h
  split at h
  next htokens =>
    have hs : s.tokens ≠ [] := fun hnil => by rw [hnil, htest] at htokens; simp at htokens
    have hpos : 0 < s.size := List.length_pos_of_ne_nil hs
    have hadvance := s.size_advance
    have hshrink := (hpassed (nextToken s.tokens) s.advance).shrink a s' h
    omega
  next htokens => exact hotherwise (by simpa using htokens) a s' h hP

theorem passes_ifMatch {P : α → Prop} {kinds : List TokenKind}
    {passed passed' : Token → ParserM α} {otherwise : ParserM α}
    (hkinds : kinds.contains .end = false)
    (hpassed : ∀ token, SteadyParse b (passed token) (passed' token))
    (hotherwise : Passes P otherwise s) : Passes P (ifMatch kinds passed otherwise) s :=
  passes_ifAhead hkinds hpassed fun _ => hotherwise

/-- The loop goes round again. -/
def GoesOn : Turn ι α → Prop
  | .again _ => True
  | .leave _ => False

/-- A loop that is never stuck. -/
theorem steady_loop {kind : Loop} {body body' : ι → ParserM (Turn ι α)} (hb : b ≤ n)
    (hn : n ≤ n') (hkind : ∀ s, ¬Stalled kind s)
    (hbody : ∀ i, SteadyParse b (body i) (body' i)) (hpasses : ∀ i s, Passes GoesOn (body i) s)
    (i : ι) : SteadyParse b (loop kind n body i) (loop kind n' body' i) :=
  .loop hb hn hbody (fun _ s _ _ h => absurd h (hkind s))
    (fun i s i' s' _ h => hpasses i s (.again i') s' h trivial) i

end Passes

/-! ## Lists -/

section Lists

variable {α : Type} {b n n' : ℕ} {item item' : ParserM α}

theorem steady_listTurnEnd (closing : Option TokenKind) (items : List α) :
    SteadyParse b (listTurnEnd closing items) (listTurnEnd closing items) :=
  steady_ifMatch (fun _ => steady_peek.bind fun _ => .ite (.pure _) (.pure _)) (.pure _)

theorem passes_listTurnEnd (closing : Option TokenKind) (items : List α) (s : ParserState) :
    Passes GoesOn (listTurnEnd closing items) s :=
  passes_ifMatch (b := 0) rfl (fun _ => steady_peek.bind fun _ => .ite (.pure _) (.pure _))
    (passes_pure id)

theorem steady_commaSeparated (hb : b ≤ n) (hn : n ≤ n') (closing : Option TokenKind)
    (hitem : SteadyParse b item item') :
    SteadyParse b (commaSeparated n closing item) (commaSeparated n' closing item') :=
  steady_loop hb hn (fun _ => id) (fun _ => hitem.bind fun _ => steady_listTurnEnd closing _)
    (fun _ _ => .bind hitem fun _ => passes_listTurnEnd closing _) []

theorem steady_listUntil (hb : b ≤ n) (hn : n ≤ n') (close : TokenKind)
    (hitem : SteadyParse b item item') :
    SteadyParse b (listUntil n close item) (listUntil n' close item') :=
  (steady_check close).bind fun _ => .ite (.pure []) (steady_commaSeparated hb hn none hitem)

theorem steady_trailingListUntil (hb : b ≤ n) (hn : n ≤ n') (close : TokenKind)
    (hitem : SteadyParse b item item') :
    SteadyParse b (trailingListUntil n close item) (trailingListUntil n' close item') :=
  (steady_check close).bind fun _ =>
    .ite (.pure []) (steady_commaSeparated hb hn (some close) hitem)

theorem steady_nonemptyListUntil (hb : b ≤ n) (hn : n ≤ n') (close : TokenKind)
    (emptyMessage : String) (hitem : SteadyParse b item item') :
    SteadyParse b (nonemptyListUntil n close emptyMessage item)
      (nonemptyListUntil n' close emptyMessage item') :=
  (steady_check close).bind fun _ =>
    .ite ((steady_diagnoseNext _).bind fun _ => .pure []) (steady_commaSeparated hb hn none hitem)

end Lists

/-! ## Places -/

/-- The parser is where it was. -/
structure ParserState.SamePlace (s s' : ParserState) : Prop where
  tokens : s'.tokens = s.tokens
  previous : s'.previous = s.previous
  recursionDepth : s'.recursionDepth = s.recursionDepth

section Places

variable {s s' : ParserState}

theorem ParserState.SamePlace.trans {s'' : ParserState} (h : s.SamePlace s')
    (h' : s'.SamePlace s'') : s.SamePlace s'' where
  tokens := h'.tokens.trans h.tokens
  previous := h'.previous.trans h.previous
  recursionDepth := h'.recursionDepth.trans h.recursionDepth

theorem ParserState.SamePlace.size (h : s.SamePlace s') : s'.size = s.size :=
  congrArg List.length h.tokens

theorem ParserState.SamePlace.nextKind (h : s.SamePlace s') :
    nextKind s'.tokens = nextKind s.tokens := by rw [h.tokens]

theorem ParserState.SamePlace.stops_iff (h : s.SamePlace s') :
    s'.SynchronizeStops ↔ s.SynchronizeStops := by
  rw [ParserState.SynchronizeStops, ParserState.SynchronizeStops, h.previous, h.tokens]

theorem ParserState.SamePlace.stops (h : s.SamePlace s') (hs : s.SynchronizeStops) :
    s'.SynchronizeStops :=
  h.stops_iff.mpr hs

theorem ParserState.SamePlace.inBraces (h : s.SamePlace s') (hs : s.InBraces) : s'.InBraces := by
  rw [ParserState.InBraces, h.tokens]
  exact hs

/-- A loop that is stuck is stuck wherever the parser is in the same place. -/
theorem ParserState.SamePlace.stalled (h : s.SamePlace s') {kind : Loop} (hs : Stalled kind s) :
    Stalled kind s' := by
  cases kind with
  | block =>
    refine ⟨h.inBraces hs.1, ?_, h.stops hs.2.2⟩
    rw [ParserState.NoStatement, h.tokens, h.recursionDepth]
    exact hs.2.1
  | arms =>
    refine ⟨h.inBraces hs.1, ?_, h.stops hs.2.2⟩
    rw [h.tokens]
    exact hs.2.1
  | _ => exact hs

theorem ParserState.size_advance_lt (h : nextKind s.tokens ≠ .end) : s.advance.size < s.size := by
  have hs : s.tokens ≠ [] := fun hnil => h (by rw [hnil]; rfl)
  have hpos : 0 < s.size := List.length_pos_of_ne_nil hs
  rw [s.size_advance]
  omega

theorem expect_cases {kind : TokenKind} {message : String} {a : Option Token}
    (h : (expect kind message s).result = some (a, s')) :
    (nextKind s.tokens = kind ∧ a = some (nextToken s.tokens) ∧ s' = s.advance) ∨
      (nextKind s.tokens ≠ kind ∧ a = none ∧ s.SamePlace s') := by
  rw [expect, ifMatch, ifAhead_run] at h
  split at h
  next hkind =>
    cases h
    exact .inl ⟨by simpa using hkind, rfl, rfl⟩
  next hkind =>
    cases h
    exact .inr ⟨by simpa using hkind, rfl, rfl, rfl, rfl⟩

/-- `synchronize` stays before the tokens at which it stops. -/
theorem samePlace_synchronize {a : Unit} (hstops : s.SynchronizeStops)
    (h : (synchronize s).result = some (a, s')) : s.SamePlace s' := by
  have hskip : skipTokens s.previous s.tokens = (s.previous, s.tokens) := by
    cases htokens : s.tokens with
    | nil => rfl
    | cons token tokens =>
      have hstop : s.previous.kind = .semicolon ∨ synchronizeKinds.contains token.kind := by
        have h' := hstops
        rw [ParserState.SynchronizeStops, htokens] at h'
        exact h'
      rw [skipTokens, if_pos]
      cases hstop with
      | inl hstop => simp [hstop]
      | inr hstop => rw [hstop, Bool.or_true]
  cases h
  exact ⟨congrArg Prod.snd hskip, congrArg Prod.fst hskip, rfl⟩

/-- `synchronize` passes any other token. -/
theorem size_synchronize_lt {a : Unit} (hend : nextKind s.tokens ≠ .end)
    (hstops : ¬s.SynchronizeStops) (h : (synchronize s).result = some (a, s')) :
    s'.size < s.size := by
  cases h
  show (skipTokens s.previous s.tokens).2.length < s.tokens.length
  cases htokens : s.tokens with
  | nil => rw [htokens] at hend; exact absurd rfl hend
  | cons token tokens =>
    rw [ParserState.SynchronizeStops, htokens] at hstops
    rw [htokens] at hend
    have hkind : ¬(token.kind = .end ∨ s.previous.kind = .semicolon ∨
        synchronizeKinds.contains token.kind) :=
      fun h => h.elim hend hstops
    rw [skipTokens, if_neg (by simpa [or_assoc] using hkind)]
    exact Nat.lt_succ_of_le (length_skipTokens_le token tokens)

end Places

/-! ## Types -/

/-- A parser of statements returns nothing, and stays where it is, before a token that starts
no statement, and passes a token otherwise. -/
structure StatementPlaces (statement : ParserM (Option Statement)) : Prop where
  nothing : ∀ s a s', s.NoStatement → (statement s).result = some (a, s') →
    a = none ∧ s.SamePlace s'
  something : ∀ s a s', ¬s.NoStatement → nextKind s.tokens ≠ .end →
    (statement s).result = some (a, s') → s'.size < s.size

/-- The recursive functions are steady, and `p'` has at least the fuel of `p`. -/
structure ParsersSteady (b : ℕ) (p p' : Parsers) : Prop where
  type : SteadyParse b p.type p'.type
  expression : SteadyParse b p.expression p'.expression
  statement : SteadyParse b p.statement p'.statement
  places : StatementPlaces p.statement

section Types

variable {b n n' : ℕ} {p p' : Parsers}

theorem steady_parseTypeArguments (h : ParsersSteady b p p') (hb : b ≤ n) (hn : n ≤ n') :
    SteadyParse b (parseTypeArguments n p) (parseTypeArguments n' p') :=
  (steady_expect _ _).bind fun _ => (steady_nonemptyListUntil hb hn _ _ h.type).bind fun _ =>
    (steady_expect _ _).bind fun _ => .pure _

theorem steady_parseArrayType (h : ParsersSteady b p p') (token : Token) :
    SteadyParse b (parseArrayType p token) (parseArrayType p' token) :=
  h.type.bind fun _ => (steady_expect _ _).bind fun _ => .pure _

theorem steady_parseMapType (h : ParsersSteady b p p') (token : Token) :
    SteadyParse b (parseMapType p token) (parseMapType p' token) :=
  (steady_expect _ _).bind fun _ => h.type.bind fun _ => (steady_expect _ _).bind fun _ =>
    h.type.bind fun _ => (steady_expect _ _).bind fun _ => .pure _

theorem steady_parseWeakType (h : ParsersSteady b p p') (token : Token) :
    SteadyParse b (parseWeakType p token) (parseWeakType p' token) :=
  (steady_expect _ _).bind fun _ => h.type.bind fun _ => (steady_expect _ _).bind fun _ => .pure _

theorem steady_parseEphemeronType (h : ParsersSteady b p p') (token : Token) :
    SteadyParse b (parseEphemeronType p token) (parseEphemeronType p' token) :=
  (steady_expect _ _).bind fun _ => h.type.bind fun _ => (steady_expect _ _).bind fun _ =>
    h.type.bind fun _ => (steady_expect _ _).bind fun _ => .pure _

theorem steady_parseFunctionType (h : ParsersSteady b p p') (hb : b ≤ n) (hn : n ≤ n')
    (token : Token) : SteadyParse b (parseFunctionType n p token) (parseFunctionType n' p' token) :=
  (steady_expect _ _).bind fun _ => (steady_listUntil hb hn _ h.type).bind fun _ =>
    (steady_expect _ _).bind fun _ => (steady_expect _ _).bind fun _ =>
      h.type.bind fun _ => .pure _

theorem steady_parsePairType (h : ParsersSteady b p p') (token : Token) :
    SteadyParse b (parsePairType p token) (parsePairType p' token) :=
  steady_ifMatch
    (fun _ => h.type.bind fun _ => (steady_expect _ _).bind fun _ => h.type.bind fun _ =>
      (steady_expect _ _).bind fun _ => .pure _)
    (.pure _)

theorem steady_parseNamedType (h : ParsersSteady b p p') (hb : b ≤ n) (hn : n ≤ n')
    (token : Token) : SteadyParse b (parseNamedType n p token) (parseNamedType n' p' token) :=
  (steady_check _).bind fun _ =>
    .ite ((steady_parseTypeArguments h hb hn).bind fun _ => .pure _)
      ((Steady.read _).bind fun _ => .pure _)

theorem steady_parseType (h : ParsersSteady b p p') (hb : b ≤ n) (hn : n ≤ n') :
    SteadyParse (b + 1) (parseType n p) (parseType n' p') := by
  apply steady_guarded
  · exact (steady_diagnoseNext _).bind fun _ => steady_advanceUnlessEnd.bind fun _ => .pure _
  apply steady_ifMatch_succ rfl (steady_parseArrayType h)
  apply steady_ifMatch_succ rfl fun _ => .pure _
  apply steady_ifMatch_succ rfl fun _ => .pure _
  apply steady_ifMatch_succ rfl fun _ => .pure _
  apply steady_ifMatch_succ rfl fun _ => .pure _
  apply steady_ifMatch_succ rfl (steady_parseMapType h)
  apply steady_ifMatch_succ rfl (steady_parseWeakType h)
  apply steady_ifMatch_succ rfl (steady_parseEphemeronType h)
  apply steady_ifMatch_succ rfl (steady_parseFunctionType h hb hn)
  apply steady_ifMatch_succ rfl (steady_parsePairType h)
  apply steady_ifMatch_succ rfl (steady_parseNamedType h hb hn)
  exact (steady_diagnoseNext _).bind fun _ => .pure _

end Types

/-! ## Blocks -/

section Blocks

variable {b n n' : ℕ} {p p' : Parsers} {s s' : ParserState}

/-- The next token decides which of the tests of `starts_statement` can hold. -/
theorem nextKind_ne_end_of_startsStatement {tokens : List Token}
    (h : startsStatement tokens = true) : nextKind tokens ≠ .end := by
  intro hend
  have hkind : ∀ kind, kind ≠ TokenKind.end → nextKind tokens ≠ kind := fun kind hkind h =>
    hkind (h.symm.trans hend)
  cases tokens with
  | nil => exact absurd h (by decide)
  | cons token tokens =>
    have hidentifier : token.kind ≠ .identifier := hkind .identifier (by decide)
    have hlabel : labelAhead (token :: tokens) = false := by
      cases tokens <;> simp [labelAhead, hidentifier]
    have hmethod : ∀ methods, methodAhead methods (token :: tokens) = false := fun methods => by
      unfold methodAhead
      split
      next heq => cases heq; simp [hidentifier]
      next => rfl
    have hassignment : assignmentAhead (token :: tokens) = false := by
      simp [assignmentAhead, nextKind, nextToken, hidentifier]
    rw [startsStatement, hlabel, hassignment, ephemeronSetAhead, builderMutationAhead,
      hmethod, hmethod, hend] at h
    exact absurd h (by decide)

theorem steady_parseNextStatement (h : ParsersSteady b p p') (statements : List Statement) :
    SteadyParse b (parseNextStatement p statements) (parseNextStatement p' statements) :=
  h.statement.bind fun statement => by
    cases statement with
    | some statement => exact .pure _
    | none => exact steady_synchronize.bind fun _ => .pure _

theorem parseNextStatement_cases {statements statements' : List Statement}
    (h : (parseNextStatement p statements s).result = some (statements', s')) :
    ∃ statement s₁, (p.statement s).result = some (statement, s₁) ∧
      ((statement.isSome ∧ s' = s₁) ∨
        statement = none ∧ (synchronize s₁).result = some ((), s')) := by
  have ⟨statement, s₁, hstatement, hrest⟩ := bind_result_eq_some.mp h
  refine ⟨statement, s₁, hstatement, ?_⟩
  cases statement with
  | some statement =>
    cases hrest
    exact .inl ⟨rfl, rfl⟩
  | none =>
    cases hrest
    exact .inr ⟨rfl, rfl⟩

/-- Where a block is stuck, its next turn is where it was. -/
theorem samePlace_parseNextStatement (hp : StatementPlaces p.statement)
    {statements statements' : List Statement} (hnone : s.NoStatement) (hstops : s.SynchronizeStops)
    (h : (parseNextStatement p statements s).result = some (statements', s')) :
    s.SamePlace s' := by
  have ⟨statement, s₁, hstatement, hcases⟩ := parseNextStatement_cases h
  have ⟨heq, hplace⟩ := hp.nothing s statement s₁ hnone hstatement
  cases hcases with
  | inl hcase => rw [heq] at hcase; exact absurd hcase.1 (by simp)
  | inr hcase => exact hplace.trans (samePlace_synchronize (hplace.stops hstops) hcase.2)

theorem size_parseNextStatement_lt (hp : StatementPlaces p.statement)
    {statements statements' : List Statement} (hend : nextKind s.tokens ≠ .end)
    (hmove : s.NoStatement → ¬s.SynchronizeStops)
    (h : (parseNextStatement p statements s).result = some (statements', s')) :
    s'.size < s.size := by
  have ⟨statement, s₁, hstatement, hcases⟩ := parseNextStatement_cases h
  by_cases hnone : s.NoStatement
  · have ⟨heq, hplace⟩ := hp.nothing s statement s₁ hnone hstatement
    cases hcases with
    | inl hcase => rw [heq] at hcase; exact absurd hcase.1 (by simp)
    | inr hcase =>
      have hstops : ¬s₁.SynchronizeStops := fun hstops =>
        hmove hnone (hplace.stops_iff.mp hstops)
      have hlt := size_synchronize_lt (by rw [hplace.tokens]; exact hend) hstops hcase.2
      rw [hplace.size] at hlt
      exact hlt
  · have hlt := hp.something s statement s₁ hnone hend hstatement
    cases hcases with
    | inl hcase => rw [hcase.2]; exact hlt
    | inr hcase =>
      have hshrink := (steady_synchronize (b := 0) s₁).shrink () s' hcase.2
      omega

theorem parseBlockTurn_cases {statements : List Statement}
    {turn : Turn (List Statement) (List Statement)}
    (h : (parseBlockTurn p statements s).result = some (turn, s')) :
    (¬s.InBraces ∧ turn = .leave statements) ∨
      (s.InBraces ∧ ∃ statements', turn = .again statements' ∧
        (parseNextStatement p statements s).result = some (statements', s')) := by
  rw [parseBlockTurn, read_bind_run] at h
  split at h
  next hclosed =>
    cases h
    exact .inl ⟨fun hbraces => hclosed.elim hbraces.1 hbraces.2, rfl⟩
  next hclosed =>
    have ⟨statements', s₁, hnext, hrest⟩ := bind_result_eq_some.mp h
    cases hrest
    exact .inr ⟨not_or.mp hclosed, statements', rfl, hnext⟩

theorem steady_blockLoop (h : ParsersSteady b p p') (hb : b ≤ n) (hn : n ≤ n') :
    SteadyParse b (loop .block n (parseBlockTurn p) []) (loop .block n' (parseBlockTurn p') []) := by
  apply Steady.loop hb hn
  · exact fun statements => (Steady.read _).bind fun _ =>
      .ite (.pure _) ((steady_parseNextStatement h statements).bind fun _ => .pure _)
  · -- a block that is stuck stays stuck
    intro statements s turn s' hstuck hturn
    rcases parseBlockTurn_cases hturn with ⟨hclosed, -⟩ | ⟨-, statements', hagain, hnext⟩
    · exact absurd hstuck.1 hclosed
    · have hplace := samePlace_parseNextStatement h.places hstuck.2.1 hstuck.2.2 hnext
      exact ⟨⟨statements', hagain⟩, hplace.stalled hstuck⟩
  · intro statements s statements' s' hmoves hturn
    rcases parseBlockTurn_cases hturn with ⟨-, hleave⟩ | ⟨hbraces, statements', hagain, hnext⟩
    · cases hleave
    · exact size_parseNextStatement_lt h.places hbraces.2
        (fun hnone hstops => hmoves ⟨hbraces, hnone, hstops⟩) hnext

theorem steady_parseBlock (h : ParsersSteady b p p') (hb : b ≤ n) (hn : n ≤ n')
    (openMessage : String) :
    SteadyParse b (parseBlock n p openMessage) (parseBlock n' p' openMessage) := by
  apply (steady_expect _ _).bind
  intro opened
  cases opened with
  | none => exact .pure _
  | some _ => exact (steady_blockLoop h hb hn).bind fun _ => (steady_expect _ _).bind fun _ => .pure _

theorem steady_parseBody (h : ParsersSteady b p p') (hb : b ≤ n) (hn : n ≤ n') :
    SteadyParse b (parseBody n p) (parseBody n' p') := by
  apply steady_loop hb hn fun _ => id
  · exact fun statements => (Steady.read _).bind fun _ => .ite (.pure _) <|
      (Steady.read _).bind fun _ =>
        .ite ((steady_parseNextStatement h statements).bind fun _ => .pure _)
          (h.expression.bind fun _ => .pure _)
  · intro statements s turn s' hturn hgoes
    rw [parseBodyTurn, read_bind_run] at hturn
    split at hturn
    next => cases hturn; exact hgoes.elim
    next hclosed =>
      rw [read_bind_run] at hturn
      split at hturn
      next hstarts =>
        have ⟨_, s₁, hnext, hrest⟩ := bind_result_eq_some.mp hturn
        cases hrest
        exact size_parseNextStatement_lt h.places (not_or.mp hclosed).2
          (fun hnone => absurd (hstarts.symm.trans hnone.2) (by simp)) hnext
      next =>
        have ⟨_, _, _, hrest⟩ := bind_result_eq_some.mp hturn
        cases hrest
        exact hgoes.elim

theorem steady_parseStatements (h : ParsersSteady b p p') (hb : b ≤ n) (hn : n ≤ n') :
    SteadyParse b (parseStatements n p) (parseStatements n' p') := by
  apply steady_loop hb hn fun _ => id
  · exact fun statements => (steady_check _).bind fun _ => .ite (.pure _) <|
      (Steady.read _).bind fun _ =>
        .ite ((steady_parseNextStatement h statements).bind fun _ => .pure _)
          (h.expression.bind fun _ => .pure _)
  · intro statements s turn s' hturn hgoes
    rw [parseStatementsTurn, check, read_bind_run] at hturn
    split at hturn
    next => cases hturn; exact hgoes.elim
    next hend =>
      rw [read_bind_run] at hturn
      split at hturn
      next hstarts =>
        have ⟨_, s₁, hnext, hrest⟩ := bind_result_eq_some.mp hturn
        cases hrest
        exact size_parseNextStatement_lt h.places (nextKind_ne_end_of_startsStatement hstarts)
          (fun hnone => absurd (hstarts.symm.trans hnone.2) (by simp)) hnext
      next =>
        have ⟨_, _, _, hrest⟩ := bind_result_eq_some.mp hturn
        cases hrest
        exact hgoes.elim

end Blocks

/-! ## Expressions -/

section Expressions

variable {b n n' : ℕ} {p p' : Parsers}

theorem steady_parseArguments (h : ParsersSteady b p p') (hb : b ≤ n) (hn : n ≤ n')
    (closeMessage : String) :
    SteadyParse b (parseArguments n p closeMessage) (parseArguments n' p' closeMessage) :=
  (steady_listUntil hb hn _ h.expression).bind fun _ => (steady_expect _ _).bind fun _ => .pure _

theorem steady_parseParameter (h : ParsersSteady b p p') (nameMessage colonMessage : String) :
    SteadyParse b (parseParameter p nameMessage colonMessage)
      (parseParameter p' nameMessage colonMessage) :=
  (steady_expect _ _).bind fun _ => (steady_expect _ _).bind fun _ => h.type.bind fun _ => .pure _

theorem steady_parseLambda (h : ParsersSteady b p p') (hb : b ≤ n) (hn : n ≤ n')
    (fnToken : Token) : SteadyParse b (parseLambda n p fnToken) (parseLambda n' p' fnToken) :=
  (steady_expect _ _).bind fun _ =>
    (steady_listUntil hb hn _ (steady_parseParameter h _ _)).bind fun _ =>
      (steady_expect _ _).bind fun _ => (steady_expect _ _).bind fun _ => h.type.bind fun _ =>
        (steady_expect _ _).bind fun _ => (steady_parseBody h hb hn).bind fun _ =>
          (steady_requireResult _ _).bind fun _ => (steady_expect _ _).bind fun _ =>
            steady_change_bind (fun _ => rfl) (.pure _)

theorem steady_parseOperand (h : ParsersSteady b p p') (kind : Expr.Kind)
    (openMessage closeMessage : String) (token : Token) :
    SteadyParse b (parseOperand p kind openMessage closeMessage token)
      (parseOperand p' kind openMessage closeMessage token) :=
  (steady_expect _ _).bind fun _ => h.expression.bind fun _ =>
    (steady_expect _ _).bind fun _ => .pure _

theorem steady_parseTwoOperands (h : ParsersSteady b p p') (expression : Expr)
    (openMessage commaMessage closeMessage : String) :
    SteadyParse b (parseTwoOperands p expression openMessage commaMessage closeMessage)
      (parseTwoOperands p' expression openMessage commaMessage closeMessage) :=
  (steady_expect _ _).bind fun _ => h.expression.bind fun _ => (steady_expect _ _).bind fun _ =>
    h.expression.bind fun _ => (steady_expect _ _).bind fun _ => .pure _

theorem steady_parseBuiltin (h : ParsersSteady b p p') (hb : b ≤ n) (hn : n ≤ n')
    (kind : Expr.Kind) (openMessage closeMessage : String) (token : Token) :
    SteadyParse b (parseBuiltin n p kind openMessage closeMessage token)
      (parseBuiltin n' p' kind openMessage closeMessage token) :=
  (steady_expect _ _).bind fun _ => (steady_parseArguments h hb hn _).bind fun _ => .pure _

theorem steady_parseRecordFields (h : ParsersSteady b p p') (hb : b ≤ n) (hn : n ≤ n')
    (expression : Expr) :
    SteadyParse b (parseRecordFields n p expression) (parseRecordFields n' p' expression) :=
  Steady.bind
    (steady_trailingListUntil hb hn _ <| (steady_expectFieldName _).bind fun _ =>
      (steady_expect _ _).bind fun _ => h.expression.bind fun _ => .pure _)
    fun _ => (steady_expect _ _).bind fun _ => .pure _

theorem steady_parseIdentifier (h : ParsersSteady b p p') (hb : b ≤ n) (hn : n ≤ n')
    (identifier : Token) :
    SteadyParse b (parseIdentifier n p identifier) (parseIdentifier n' p' identifier) :=
  (Steady.read _).bind fun _ =>
    .ite
      ((steady_parseTypeArguments h hb hn).bind fun _ =>
        .ite (steady_ifMatch (fun _ => steady_parseRecordFields h hb hn _) (.pure _)) (.pure _))
      (.ite (steady_ifMatch (fun _ => steady_parseRecordFields h hb hn _) (.pure _)) (.pure _))

theorem steady_parsePair (h : ParsersSteady b p p') (token : Token) :
    SteadyParse b (parsePair p token) (parsePair p' token) :=
  (Steady.read _).bind fun _ =>
    steady_change_bind (fun _ => rfl) (steady_parseTwoOperands h _ _ _ _)

theorem steady_parseSizedArray (h : ParsersSteady b p p') (token : Token) :
    SteadyParse b (parseSizedArray p token) (parseSizedArray p' token) :=
  (steady_expect _ _).bind fun _ => h.type.bind fun _ => (steady_expect _ _).bind fun _ =>
    steady_parseTwoOperands h _ _ _ _

theorem steady_parseEmptyMap (h : ParsersSteady b p p') (token : Token) :
    SteadyParse b (parseEmptyMap p token) (parseEmptyMap p' token) :=
  (steady_expect _ _).bind fun _ => h.type.bind fun _ => (steady_expect _ _).bind fun _ =>
    h.type.bind fun _ => (steady_expect _ _).bind fun _ => (steady_expect _ _).bind fun _ =>
      (steady_expect _ _).bind fun _ => .pure _

theorem steady_parseArrayLiteral (h : ParsersSteady b p p') (hb : b ≤ n) (hn : n ≤ n')
    (token : Token) :
    SteadyParse b (parseArrayLiteral n p token) (parseArrayLiteral n' p' token) :=
  (steady_listUntil hb hn _ h.expression).bind fun _ => (steady_expect _ _).bind fun _ => .pure _

theorem steady_parseParenthesized (h : ParsersSteady b p p') :
    SteadyParse b (parseParenthesized p) (parseParenthesized p') :=
  h.expression.bind fun _ => (steady_expect _ _).bind fun _ => .pure _

theorem steady_parsePrimary (h : ParsersSteady b p p') (hb : b ≤ n) (hn : n ≤ n') :
    SteadyParse (b + 1) (parsePrimary n p) (parsePrimary n' p') := by
  apply steady_ifMatch_succ rfl (steady_parseLambda h hb hn)
  apply steady_ifMatch_succ rfl fun _ => .pure _
  apply steady_ifMatch_succ rfl fun _ => .pure _
  apply steady_ifMatch_succ rfl fun _ => .pure _
  apply steady_ifMatch_succ rfl fun _ => .pure _
  apply steady_ifMatch_succ rfl (steady_parseOperand h _ _ _)
  apply steady_ifMatch_succ rfl (steady_parseOperand h _ _ _)
  apply steady_ifMatch_succ rfl fun _ => steady_parseTwoOperands h _ _ _ _
  apply steady_ifMatch_succ rfl (steady_parseBuiltin h hb hn _ _ _)
  apply steady_ifMatch_succ rfl (steady_parseOperand h _ _ _)
  apply steady_ifMatch_succ rfl fun _ => steady_parseBuiltin h hb hn _ _ _ _
  apply steady_ifMatch_succ rfl (steady_parseOperand h _ _ _)
  apply steady_ifMatch_succ rfl (steady_parseOperand h _ _ _)
  apply steady_ifMatch_succ rfl (steady_parseIdentifier h hb hn)
  apply steady_ifMatch_succ rfl (steady_parsePair h)
  apply steady_ifMatch_succ rfl (steady_parseSizedArray h)
  apply steady_ifMatch_succ rfl (steady_parseEmptyMap h)
  apply steady_ifMatch_succ rfl (steady_parseArrayLiteral h hb hn)
  apply steady_ifMatch_succ rfl fun _ => steady_parseParenthesized h
  exact (steady_diagnoseNext _).bind fun _ => steady_peek.bind fun _ =>
    steady_advanceUnlessEnd.bind fun _ => .pure _

theorem steady_parseGenericCall (h : ParsersSteady b p p') (hb : b ≤ n) (hn : n ≤ n')
    (expression : Expr) (token : Token) :
    SteadyParse b (parseGenericCall n p expression token)
      (parseGenericCall n' p' expression token) :=
  (steady_nonemptyListUntil hb hn _ _ h.type).bind fun _ => (steady_expect _ _).bind fun _ =>
    (steady_expect _ _).bind fun _ => (steady_parseArguments h hb hn _).bind fun _ => .pure _

theorem steady_parseMethod (h : ParsersSteady b p p') (hb : b ≤ n) (hn : n ≤ n')
    (kind : Expr.Kind) (expression : Expr) (method : String) (token : Token) :
    SteadyParse b (parseMethod n p kind expression method token)
      (parseMethod n' p' kind expression method token) :=
  (steady_expect _ _).bind fun _ => (steady_parseArguments h hb hn _).bind fun _ => .pure _

theorem steady_parseGetter (kind : Expr.Kind) (expression : Expr)
    (openMessage closeMessage : String) (token : Token) :
    SteadyParse b (parseGetter kind expression openMessage closeMessage token)
      (parseGetter kind expression openMessage closeMessage token) :=
  (steady_expect _ _).bind fun _ => (steady_expect _ _).bind fun _ => .pure _

theorem steady_parseHas (h : ParsersSteady b p p') (expression : Expr) (token : Token) :
    SteadyParse b (parseHas p expression token) (parseHas p' expression token) :=
  (steady_expect _ _).bind fun _ => h.expression.bind fun _ =>
    (steady_expect _ _).bind fun _ => .pure _

theorem steady_parseMember (h : ParsersSteady b p p') (hb : b ≤ n) (hn : n ≤ n')
    (expression : Expr) :
    SteadyParse b (parseMember n p expression) (parseMember n' p' expression) := by
  apply steady_ifMatch fun _ => .pure _
  apply steady_ifAhead fun _ => (steady_parseHas h _ _).bind fun _ => .pure _
  apply steady_ifAhead fun _ => (steady_parseGetter _ _ _ _ _).bind fun _ => .pure _
  apply steady_ifAhead fun _ => (steady_parseGetter _ _ _ _ _).bind fun _ => .pure _
  apply steady_ifAhead fun _ => (steady_parseMethod h hb hn _ _ _ _).bind fun _ => .pure _
  apply steady_ifAhead fun _ => (steady_parseMethod h hb hn _ _ _ _).bind fun _ => .pure _
  apply steady_ifAhead fun _ => (steady_parseMethod h hb hn _ _ _ _).bind fun _ => .pure _
  apply steady_ifMatch fun _ => .pure _
  exact (steady_diagnoseNext _).bind fun _ => .pure _

theorem steady_parseIndex (h : ParsersSteady b p p') (expression : Expr) (token : Token) :
    SteadyParse b (parseIndex p expression token) (parseIndex p' expression token) :=
  h.expression.bind fun _ => (steady_expect _ _).bind fun _ => .pure _

theorem steady_parseCall (h : ParsersSteady b p p') (hb : b ≤ n) (hn : n ≤ n')
    (expression : Expr) :
    SteadyParse b (parseCall n p expression) (parseCall n' p' expression) :=
  (steady_parseArguments h hb hn _).bind fun _ => .pure _

theorem steady_parseSuffix (h : ParsersSteady b p p') (hb : b ≤ n) (hn : n ≤ n')
    (expression : Expr) :
    SteadyParse (b + 1) (parseSuffix n p expression) (parseSuffix n' p' expression) := by
  apply steady_ifMatch_succ rfl fun _ => steady_parseMember h hb hn expression
  apply steady_ifMatch_succ rfl fun _ => (steady_parseIndex h _ _).bind fun _ => .pure _
  apply steady_ifMatch_succ rfl fun _ => (steady_parseCall h hb hn _).bind fun _ => .pure _
  exact .pure _

theorem passes_parseSuffix (h : ParsersSteady b p p') (hb : b ≤ n) (expression : Expr)
    (s : ParserState) : Passes GoesOn (parseSuffix n p expression) s := by
  apply passes_ifMatch rfl fun _ => steady_parseMember h hb (Nat.le_refl n) expression
  apply passes_ifMatch rfl fun _ => (steady_parseIndex h _ _).bind fun _ => .pure _
  apply passes_ifMatch rfl fun _ =>
    (steady_parseCall h hb (Nat.le_refl n) _).bind fun _ => .pure _
  exact passes_pure id

theorem steady_parsePostfix (h : ParsersSteady b p p') (hb : b < n) (hn : n ≤ n') :
    SteadyParse (b + 1) (parsePostfix n p) (parsePostfix n' p') := by
  have hle : b ≤ n := Nat.le_of_lt hb
  apply (steady_parsePrimary h hle hn).bind
  apply steady_loop hb hn fun _ => id
  · exact fun expression => (Steady.read _).bind fun _ =>
      .ite
        (steady_ifMatch_succ rfl
          (fun _ => (steady_parseGenericCall h hle hn _ _).bind fun _ => .pure _)
          (steady_parseSuffix h hle hn expression))
        (steady_parseSuffix h hle hn expression)
  · exact fun expression s => .bind (.read (b := b) _) fun _ s =>
      .ite
        (fun _ => passes_ifMatch rfl
          (fun _ => (steady_parseGenericCall h hle hn _ _).bind fun _ => .pure _)
          (passes_parseSuffix h hle expression s))
        (fun _ => passes_parseSuffix h hle expression s)

theorem steady_parseChain {kind : Loop} {operators : List TokenKind} {operand operand' : ParserM Expr}
    (hb : b ≤ n) (hn : n ≤ n') (hkind : ∀ s, ¬Stalled kind s)
    (hoperators : operators.contains .end = false) (hoperand : SteadyParse b operand operand') :
    SteadyParse b (parseChain n kind operators operand) (parseChain n' kind operators operand') := by
  apply hoperand.bind
  apply steady_loop hb hn hkind
  · exact fun expression => steady_ifMatch (fun _ => hoperand.bind fun _ => .pure _) (.pure _)
  · exact fun expression s =>
      passes_ifMatch hoperators (fun _ => hoperand.bind fun _ => .pure _) (passes_pure id)

theorem steady_parseExpression (h : ParsersSteady b p p') (hb : b < n) (hn : n ≤ n') :
    SteadyParse (b + 1) (parseExpression n p) (parseExpression n' p') := by
  apply steady_guarded
  · exact (steady_diagnoseNext _).bind fun _ => steady_peek.bind fun _ =>
      steady_advanceUnlessEnd.bind fun _ => .pure _
  apply steady_parseChain hb hn (fun _ => id) rfl
  apply steady_parseChain hb hn (fun _ => id) rfl
  apply steady_parseChain hb hn (fun _ => id) rfl
  exact steady_parsePostfix h hb hn

end Expressions

/-! ## Statements -/

section Statements

variable {α : Type} {b n n' : ℕ} {p p' : Parsers}

theorem steady_parseLet (h : ParsersSteady b p p') (token : Token) :
    SteadyParse b (parseLet p token) (parseLet p' token) :=
  (steady_expect _ _).bind fun _ => (steady_expect _ _).bind fun _ => h.type.bind fun _ =>
    (steady_expect _ _).bind fun _ => h.expression.bind fun _ =>
      (steady_expect _ _).bind fun _ => .pure _

theorem steady_parseLvalueTurn (h : ParsersSteady b p p') (steps : List LValueStep) :
    SteadyParse b (parseLvalueTurn p steps) (parseLvalueTurn p' steps) := by
  apply steady_ifMatch fun _ => (steady_expectFieldName _).bind fun _ => .pure _
  apply steady_ifMatch fun _ => h.expression.bind fun _ => (steady_expect _ _).bind fun _ => .pure _
  exact .pure _

theorem passes_parseLvalueTurn (h : ParsersSteady b p p') (steps : List LValueStep)
    (s : ParserState) : Passes GoesOn (parseLvalueTurn p steps) s := by
  apply passes_ifMatch rfl fun _ => (steady_expectFieldName (b := b) _).bind fun _ => .pure _
  apply passes_ifMatch rfl fun _ =>
    h.expression.bind fun _ => (steady_expect _ _).bind fun _ => .pure _
  exact passes_pure id

theorem steady_parseLvalue (h : ParsersSteady b p p') (hb : b ≤ n) (hn : n ≤ n') :
    SteadyParse b (parseLvalue n p) (parseLvalue n' p') :=
  (steady_expect _ _).bind fun _ =>
    (steady_loop hb hn (fun _ => id) (steady_parseLvalueTurn h) (passes_parseLvalueTurn h)
      []).bind fun _ => .pure _

theorem size_parseLvalue_lt (h : ParsersSteady b p p') (hb : b ≤ n) {s s' : ParserState}
    {value : LValue} (hs : nextKind s.tokens = .identifier)
    (hvalue : (parseLvalue n p s).result = some (value, s')) : s'.size < s.size := by
  have ⟨name, s₁, hname, hrest⟩ := bind_result_eq_some.mp hvalue
  have hadvance := s.size_advance_lt (by rw [hs]; decide)
  have hshrink := (((steady_loop hb (Nat.le_refl n) (fun _ => id) (steady_parseLvalueTurn h)
    (passes_parseLvalueTurn h) []).bind fun _ => .pure _) s₁).shrink value s' hrest
  rcases expect_cases hname with ⟨-, -, rfl⟩ | ⟨hne, -, -⟩
  · omega
  · exact absurd hs hne

/-- The target of an assignment passes a token, so what follows it has one token less to do. -/
theorem settles_parseAssignment (h : ParsersSteady b p p') (hb : b < n) (hn : n ≤ n')
    {s : ParserState} (hs : nextKind s.tokens = .identifier) :
    Settles ParserState.size Stalled (s.size < b + 1) (parseAssignment n p)
      (parseAssignment n' p') s := by
  have hle : b ≤ n := Nat.le_of_lt hb
  refine (settles_read _ s).bind fun token s₁ hread => ?_
  cases hread
  refine Settles.bind ?_ fun target s₁ htarget => ?_
  · refine ((steady_expect _ _ s).mono id).bind fun name s₁ hname => ?_
    have hlt : s₁.size < s.size := by
      rcases expect_cases hname with ⟨-, -, rfl⟩ | ⟨hne, -, -⟩
      · exact s.size_advance_lt (by rw [hs]; decide)
      · exact absurd hs hne
    exact (((steady_loop hle hn (fun _ => id) (steady_parseLvalueTurn h)
      (passes_parseLvalueTurn h) []).bind fun _ => .pure _) s₁).mono fun _ => by omega
  · have hlt := size_parseLvalue_lt h hle hs htarget
    exact (((steady_expect _ _).bind fun _ => h.expression.bind fun _ =>
      (steady_expect _ _).bind fun _ => .pure _) s₁).mono fun _ => by omega

theorem steady_parseIf (h : ParsersSteady b p p') (hb : b ≤ n) (hn : n ≤ n') (token : Token) :
    SteadyParse b (parseIf n p token) (parseIf n' p' token) :=
  h.expression.bind fun _ => (steady_parseBlock h hb hn _).bind fun _ =>
    Steady.bind
      (steady_ifMatch (fun _ => steady_parseBlock h hb hn _)
        ((steady_diagnoseNext _).bind fun _ => .pure _))
      fun _ => .pure _

theorem steady_withoutRecordLiterals (off : Bool) {m m' : ParserM α} (hm : SteadyParse b m m') :
    SteadyParse b (withoutRecordLiterals off m) (withoutRecordLiterals off m') :=
  (Steady.read _).bind fun _ => steady_change_bind (fun _ => rfl) <| hm.bind fun _ =>
    steady_change_bind (fun _ => rfl) (.pure _)

theorem steady_parseWhile (h : ParsersSteady b p p') (hb : b ≤ n) (hn : n ≤ n')
    (labeled : Bool) (token : Token) :
    SteadyParse b (parseWhile n p labeled token) (parseWhile n' p' labeled token) :=
  (steady_withoutRecordLiterals labeled h.expression).bind fun _ =>
    (steady_parseBlock h hb hn _).bind fun _ => .pure _

theorem steady_parseRange (h : ParsersSteady b p p') :
    SteadyParse b (parseRange p) (parseRange p') :=
  h.expression.bind fun _ =>
    Steady.bind (steady_ifMatch (fun _ => h.expression.bind fun _ => .pure _) (.pure _))
      fun _ => .pure _

theorem steady_parseForIn (h : ParsersSteady b p p') (hb : b ≤ n) (hn : n ≤ n')
    (labeled : Bool) (token : Token) :
    SteadyParse b (parseForIn n p labeled token) (parseForIn n' p' labeled token) :=
  (steady_expect _ _).bind fun _ =>
    (steady_ifMatch (fun _ => steady_expect _ _) (.pure _)).bind fun _ =>
      (steady_expect _ _).bind fun _ =>
        (steady_withoutRecordLiterals labeled (steady_parseRange h)).bind fun _ =>
          (steady_parseBlock h hb hn _).bind fun _ => .pure _

theorem steady_parsePrint (h : ParsersSteady b p p') (token : Token) :
    SteadyParse b (parsePrint p token) (parsePrint p' token) :=
  (steady_expect _ _).bind fun _ => h.expression.bind fun _ => (steady_expect _ _).bind fun _ =>
    (steady_expect _ _).bind fun _ => .pure _

theorem steady_parseTry (h : ParsersSteady b p p') (hb : b ≤ n) (hn : n ≤ n') (token : Token) :
    SteadyParse b (parseTry n p token) (parseTry n' p' token) :=
  (steady_parseBlock h hb hn _).bind fun _ => (steady_expect _ _).bind fun _ =>
    (steady_expect _ _).bind fun _ => (steady_expect _ _).bind fun _ =>
      (steady_expect _ _).bind fun _ => h.type.bind fun _ => (steady_expect _ _).bind fun _ =>
        (steady_parseBlock h hb hn _).bind fun _ => .pure _

/-! ### Match arms -/

theorem steady_parseBindings (hb : b ≤ n) (hn : n ≤ n') :
    SteadyParse b (parseBindings n) (parseBindings n') :=
  steady_ifMatch
    (fun _ => (steady_listUntil hb hn _ (steady_expectFieldName _)).bind fun _ =>
      (steady_expect _ _).bind fun _ => .pure _)
    (.pure _)

theorem steady_parseMatchArm (h : ParsersSteady b p p') (hb : b ≤ n) (hn : n ≤ n') :
    SteadyParse b (parseMatchArm n p) (parseMatchArm n' p') :=
  (steady_expect _ _).bind fun _ => (steady_parseBindings hb hn).bind fun _ =>
    (steady_expect _ _).bind fun _ => (steady_parseBlock h hb hn _).bind fun _ => .pure _

theorem steady_parseArmEnd : SteadyParse b parseArmEnd parseArmEnd :=
  steady_ifMatch (fun _ => .pure ()) <| (steady_check _).bind fun _ =>
    .ite (.pure ()) ((steady_diagnoseNext _).bind fun _ => steady_synchronize)

section Arms

variable {s s' : ParserState}

/-- A parser that starts with an expected token passes it or stays. -/
theorem expect_bind_cases {kind : TokenKind} {message : String} {f f' : Option Token → ParserM α}
    {a : α} (hf : ∀ token, SteadyParse b (f token) (f' token)) (hkind : kind ≠ .end)
    (h : ((expect kind message >>= f) s).result = some (a, s')) :
    (nextKind s.tokens = kind ∧ s'.size < s.size) ∨ (nextKind s.tokens ≠ kind ∧
      ∃ s₁, s.SamePlace s₁ ∧ (f none s₁).result = some (a, s')) := by
  have ⟨token, s₁, hexpect, hrest⟩ := bind_result_eq_some.mp h
  rcases expect_cases hexpect with ⟨hs, -, rfl⟩ | ⟨hne, rfl, hplace⟩
  · have hadvance := s.size_advance_lt (by rw [hs]; exact hkind)
    have hshrink := (hf token s.advance).shrink a s' hrest
    exact .inl ⟨hs, by omega⟩
  · exact .inr ⟨hne, s₁, hplace, hrest⟩

theorem parseBindings_cases {bindings : List MatchBinding}
    (h : (parseBindings n s).result = some (bindings, s')) :
    (nextKind s.tokens = .lParen ∧ s'.size < s.size) ∨
      (nextKind s.tokens ≠ .lParen ∧ s' = s) := by
  rw [parseBindings, ifMatch, ifAhead_run] at h
  split at h
  next hparen =>
    have hs : nextKind s.tokens = .lParen := by simpa using hparen
    have hadvance := s.size_advance_lt (by rw [hs]; decide)
    have hshrink := (((steady_listUntil (b := 0) (Nat.zero_le n) (Nat.le_refl n) .rParen
      (steady_expectFieldName "expected match binding name")).bind fun _ =>
        (steady_expect _ _).bind fun _ => .pure _) s.advance).shrink bindings s' h
    exact .inl ⟨hs, by omega⟩
  next hparen =>
    cases h
    exact .inr ⟨by simpa using hparen, rfl⟩

theorem parseBlock_cases (h : ParsersSteady b p p') (hb : b ≤ n) {openMessage : String}
    {statements : List Statement}
    (hblock : (parseBlock n p openMessage s).result = some (statements, s')) :
    (nextKind s.tokens = .lBrace ∧ s'.size < s.size) ∨
      (nextKind s.tokens ≠ .lBrace ∧ s.SamePlace s') := by
  have ⟨opened, s₁, hopen, hrest⟩ := bind_result_eq_some.mp hblock
  have hsteady := steady_parseBlock h hb (Nat.le_refl n) openMessage
  rcases expect_cases hopen with ⟨hs, rfl, rfl⟩ | ⟨hne, rfl, hplace⟩
  · have hadvance := s.size_advance_lt (by rw [hs]; decide)
    have hloop : SteadyParse b (loop .block n (parseBlockTurn p) [])
        (loop .block n (parseBlockTurn p') []) := steady_blockLoop h hb (Nat.le_refl n)
    have hshrink := ((hloop.bind fun _ => (steady_expect _ _).bind fun _ => .pure _)
      s.advance).shrink statements s' hrest
    exact .inl ⟨hs, by omega⟩
  · cases hrest
    exact .inr ⟨hne, hplace⟩

/-- The tokens at which an arm goes on. -/
def armStartKinds : List TokenKind := [.identifier, .lParen, .fatArrow, .lBrace]

/-- An arm passes a token, or stays before one that does not belong to an arm. -/
theorem parseMatchArm_cases (h : ParsersSteady b p p') (hb : b ≤ n) {arm : MatchArm}
    (harm : (parseMatchArm n p s).result = some (arm, s')) :
    (nextKind s.tokens ∈ armStartKinds ∧ s'.size < s.size) ∨
      (nextKind s.tokens ∉ armStartKinds ∧ s.SamePlace s') := by
  have hblock : ∀ message, SteadyParse b (parseBlock n p message) (parseBlock n p' message) :=
    steady_parseBlock h hb (Nat.le_refl n)
  rcases expect_bind_cases (b := b) (fun _ => (steady_parseBindings hb (Nat.le_refl n)).bind
    fun _ => (steady_expect _ _).bind fun _ => (hblock _).bind fun _ => .pure _) (by decide) harm
    with ⟨hname, hlt⟩ | ⟨hname, s₁, hplace₁, hrest⟩
  · exact .inl ⟨by simp [armStartKinds, hname], hlt⟩
  have ⟨bindings, s₂, hbindings, harrows⟩ := bind_result_eq_some.mp hrest
  have hshrink := (((steady_expect (b := b) .fatArrow "expected '=>' after match arm pattern").bind
    fun _ => (hblock _).bind fun _ => .pure _) s₂).shrink arm s' harrows
  have hsize := hplace₁.size
  rcases parseBindings_cases hbindings with ⟨hparen, hlt⟩ | ⟨hparen, rfl⟩
  · rw [hplace₁.nextKind] at hparen
    exact .inl ⟨by simp [armStartKinds, hparen], by omega⟩
  rw [hplace₁.nextKind] at hparen
  rcases expect_bind_cases (b := b) (fun _ => (hblock _).bind fun _ => .pure _) (by decide) harrows
    with ⟨harrow, hlt⟩ | ⟨harrow, s₃, hplace₃, hbodies⟩
  · rw [hplace₁.nextKind] at harrow
    exact .inl ⟨by simp [armStartKinds, harrow], by omega⟩
  rw [hplace₁.nextKind] at harrow
  have ⟨body, s₄, hbody, hend⟩ := bind_result_eq_some.mp hbodies
  cases hend
  have hplace := hplace₁.trans hplace₃
  rcases parseBlock_cases h hb hbody with ⟨hbrace, hlt⟩ | ⟨hbrace, hplace₄⟩
  · rw [hplace.nextKind] at hbrace
    exact .inl ⟨by simp [armStartKinds, hbrace], by rw [← hplace.size]; exact hlt⟩
  · rw [hplace.nextKind] at hbrace
    exact .inr ⟨by simp [armStartKinds, hname, hparen, harrow, hbrace], hplace.trans hplace₄⟩

theorem parseArmEnd_cases (hbraces : s.InBraces)
    (h : (parseArmEnd s).result = some ((), s')) :
    (nextKind s.tokens = .comma ∧ s'.size < s.size) ∨
      (nextKind s.tokens ≠ .comma ∧ ∃ s₁, s.SamePlace s₁ ∧
        (synchronize s₁).result = some ((), s')) := by
  rw [parseArmEnd, ifMatch, ifAhead_run] at h
  split at h
  next hcomma =>
    have hs : nextKind s.tokens = .comma := by simpa using hcomma
    cases h
    exact .inl ⟨hs, s.size_advance_lt (by rw [hs]; decide)⟩
  next hcomma =>
    rw [check, read_bind_run, if_neg (by simpa using hbraces.1)] at h
    have ⟨_, s₁, hdiagnose, hsynchronize⟩ := bind_result_eq_some.mp h
    have hplace : s.SamePlace s₁ := by
      cases hdiagnose
      exact ⟨rfl, rfl, rfl⟩
    exact .inr ⟨by simpa using hcomma, s₁, hplace, hsynchronize⟩

end Arms

theorem steady_parseArmTurn (h : ParsersSteady b p p') (hb : b ≤ n) (hn : n ≤ n')
    (arms : List MatchArm) :
    SteadyParse b (parseArmTurn n p arms) (parseArmTurn n' p' arms) :=
  (Steady.read _).bind fun _ => .ite (.pure _) <|
    (steady_parseMatchArm h hb hn).bind fun _ => steady_parseArmEnd.bind fun _ => .pure _

theorem parseArmTurn_cases {s s' : ParserState} {arms : List MatchArm}
    {turn : Turn (List MatchArm) (List MatchArm)}
    (h : (parseArmTurn n p arms s).result = some (turn, s')) :
    (¬s.InBraces ∧ turn = .leave arms) ∨
      (s.InBraces ∧ ∃ arm s₁, turn = .again (arms ++ [arm]) ∧
        (parseMatchArm n p s).result = some (arm, s₁) ∧
        (parseArmEnd s₁).result = some ((), s')) := by
  rw [parseArmTurn, read_bind_run] at h
  split at h
  next hclosed =>
    cases h
    exact .inl ⟨fun hbraces => hclosed.elim hbraces.1 hbraces.2, rfl⟩
  next hclosed =>
    have ⟨arm, s₁, harm, hrest⟩ := bind_result_eq_some.mp h
    have ⟨_, s₂, hend, hreturn⟩ := bind_result_eq_some.mp hrest
    cases hreturn
    exact .inr ⟨not_or.mp hclosed, arm, s₁, rfl, harm, hend⟩

theorem steady_armLoop (h : ParsersSteady b p p') (hb : b ≤ n) (hn : n ≤ n') :
    SteadyParse b (loop .arms n (parseArmTurn n p) []) (loop .arms n' (parseArmTurn n' p') []) := by
  apply Steady.loop hb hn (steady_parseArmTurn h hb hn)
  · -- a loop over arms that is stuck stays stuck
    intro arms s turn s' hstuck hturn
    rcases parseArmTurn_cases hturn with ⟨hclosed, -⟩ | ⟨hbraces, arm, s₁, hagain, harm, hend⟩
    · exact absurd hstuck.1 hclosed
    have hkind : nextKind s.tokens ∉ armKinds := by simpa using hstuck.2.1
    rcases parseMatchArm_cases h hb harm with ⟨hmem, -⟩ | ⟨-, hplace⟩
    · exact absurd (show _ ∈ armStartKinds ++ [.comma] from List.mem_append_left _ hmem) hkind
    rcases parseArmEnd_cases (hplace.inBraces hbraces) hend with ⟨hcomma, -⟩ | ⟨-, s₂, hplace₂, hsync⟩
    · rw [hplace.nextKind] at hcomma
      exact absurd (by simp [armKinds, hcomma]) hkind
    have hplaced := hplace.trans hplace₂
    have hplaced' := hplaced.trans (samePlace_synchronize (hplaced.stops hstuck.2.2) hsync)
    exact ⟨⟨_, hagain⟩, hplaced'.stalled hstuck⟩
  · intro arms s arms' s' hmoves hturn
    rcases parseArmTurn_cases hturn with ⟨-, hleave⟩ | ⟨hbraces, arm, s₁, hagain, harm, hend⟩
    · cases hleave
    have hshrink := (steady_parseArmEnd (b := 0) s₁).shrink () s' hend
    rcases parseMatchArm_cases h hb harm with ⟨-, hlt⟩ | ⟨hmem, hplace⟩
    · omega
    have hsize := hplace.size
    rcases parseArmEnd_cases (hplace.inBraces hbraces) hend with ⟨-, hlt⟩ | ⟨hcomma, s₂, hplace₂, hsync⟩
    · omega
    rw [hplace.nextKind] at hcomma
    have hplaced := hplace.trans hplace₂
    have hlt : s'.size < s₂.size := by
      apply size_synchronize_lt (by rw [hplaced.nextKind]; exact hbraces.2) _ hsync
      intro hstops
      have hkind : nextKind s.tokens ∉ armKinds := by
        intro hmem'
        rcases List.mem_append.mp (show _ ∈ armStartKinds ++ [.comma] from hmem') with h | h
        · exact hmem h
        · exact hcomma (List.mem_singleton.mp h)
      exact hmoves ⟨hbraces, by simpa using hkind, hplaced.stops_iff.mp hstops⟩
    have hsize' := hplaced.size
    omega

theorem steady_parseMatch (h : ParsersSteady b p p') (hb : b ≤ n) (hn : n ≤ n') (token : Token) :
    SteadyParse b (parseMatch n p token) (parseMatch n' p' token) := by
  apply (steady_withoutRecordLiterals true h.expression).bind
  intro condition
  apply (steady_expect _ _).bind
  intro opened
  cases opened with
  | none => exact .pure _
  | some _ => exact (steady_armLoop h hb hn).bind fun _ => (steady_expect _ _).bind fun _ => .pure _

/-! ### Statements -/

theorem steady_parseThrow (h : ParsersSteady b p p') (token : Token) :
    SteadyParse b (parseThrow p token) (parseThrow p' token) :=
  h.expression.bind fun _ => (steady_expect _ _).bind fun _ => .pure _

theorem steady_checkTail (tail : Option Token) :
    SteadyParse b (checkTail tail) (checkTail tail) := by
  cases tail with
  | none => exact .pure ()
  | some tail => exact .ite (.pure ()) (steady_diagnose _ _)

theorem steady_parseTailCall (h : ParsersSteady b p p') (token : Token) :
    SteadyParse b (parseTailCall p token) (parseTailCall p' token) :=
  (steady_expect _ _).bind fun _ => (steady_checkTail _).bind fun _ =>
    h.expression.bind fun _ => (steady_expect _ _).bind fun _ => .pure _

theorem steady_parseLoopControl (kind : Statement.Kind) (message : String) (token : Token) :
    SteadyParse b (parseLoopControl kind message token) (parseLoopControl kind message token) :=
  (steady_ifMatch (fun _ => .pure _) (.pure _)).bind fun _ =>
    (steady_expect _ _).bind fun _ => .pure _

theorem steady_parseEphemeronSet (h : ParsersSteady b p p') (receiver : Token) :
    SteadyParse b (parseEphemeronSet p receiver) (parseEphemeronSet p' receiver) :=
  (steady_expect _ _).bind fun _ => steady_advance.bind fun _ => (steady_expect _ _).bind fun _ =>
    h.expression.bind fun _ => (steady_expect _ _).bind fun _ =>
      (steady_expect _ _).bind fun _ => .pure _

theorem steady_parseBuilderMutation (h : ParsersSteady b p p') (hb : b ≤ n) (hn : n ≤ n')
    (receiver : Token) :
    SteadyParse b (parseBuilderMutation n p receiver) (parseBuilderMutation n' p' receiver) :=
  (steady_expect _ _).bind fun _ => steady_peek.bind fun _ => steady_advance.bind fun _ =>
    (steady_expect _ _).bind fun _ => (steady_parseArguments h hb hn _).bind fun _ =>
      (steady_expect _ _).bind fun _ => .pure _

theorem steady_parseLabelled (h : ParsersSteady b p p') (hb : b ≤ n) (hn : n ≤ n')
    (label : Token) : SteadyParse b (parseLabelled n p label) (parseLabelled n' p' label) := by
  apply steady_advance.bind
  intro _
  apply steady_ifMatch fun _ => (steady_parseWhile h hb hn true _).bind fun _ => .pure _
  apply steady_ifMatch fun _ => (steady_parseForIn h hb hn true _).bind fun _ => .pure _
  exact (steady_diagnose _ _).bind fun _ => .pure _

theorem assignmentAhead_kind {tokens : List Token} (h : assignmentAhead tokens = true) :
    nextKind tokens = .identifier := by
  rw [assignmentAhead, Bool.and_eq_true, decide_eq_true_eq] at h
  exact h.1

theorem steady_parseAssignmentAhead (h : ParsersSteady b p p') (hb : b < n) (hn : n ≤ n') :
    SteadyParse (b + 1) (parseAssignmentAhead n p) (parseAssignmentAhead n' p') := by
  intro s
  by_cases hahead : assignmentAhead s.tokens
  · have hassign := settles_parseAssignment h hb hn (assignmentAhead_kind hahead)
    exact (hassign.bind fun a s' _ => settles_pure (some a) s').of_run
      (by rw [parseAssignmentAhead, read_bind_run, if_pos hahead]; rfl)
      (by rw [parseAssignmentAhead, read_bind_run, if_pos hahead]; rfl) (Nat.le_refl _) id
  · exact (((steady_diagnoseNext "expected statement").bind fun _ => .pure none) s).of_run
      (by rw [parseAssignmentAhead, read_bind_run, if_neg hahead])
      (by rw [parseAssignmentAhead, read_bind_run, if_neg hahead]) (Nat.le_refl _) id

theorem steady_parseStatementBody (h : ParsersSteady b p p') (hb : b < n) (hn : n ≤ n') :
    SteadyParse (b + 1) (parseStatementBody n p) (parseStatementBody n' p') := by
  have hle : b ≤ n := Nat.le_of_lt hb
  apply steady_ifAhead_succ rfl (steady_parseLabelled h hle hn)
  apply steady_ifMatch_succ rfl fun _ => (steady_parseLet h _).map _
  apply steady_ifMatch_succ rfl fun _ => (steady_parseIf h hle hn _).map _
  apply steady_ifMatch_succ rfl fun _ => (steady_parseWhile h hle hn _ _).map _
  apply steady_ifMatch_succ rfl fun _ => (steady_parseForIn h hle hn _ _).map _
  apply steady_ifMatch_succ rfl fun _ => (steady_parseMatch h hle hn _).map _
  apply steady_ifMatch_succ rfl fun _ => (steady_parseTry h hle hn _).map _
  apply steady_ifMatch_succ rfl fun _ => (steady_parseThrow h _).map _
  apply steady_ifMatch_succ rfl fun _ => (steady_parseTailCall h _).map _
  apply steady_ifMatch_succ rfl fun _ => (steady_parseLoopControl _ _ _).map _
  apply steady_ifMatch_succ rfl fun _ => (steady_parseLoopControl _ _ _).map _
  apply steady_ifMatch_succ rfl fun _ => (steady_parsePrint h _).map _
  apply steady_ifAhead_succ rfl fun _ => (steady_parseEphemeronSet h _).map _
  apply steady_ifAhead_succ rfl fun _ => (steady_parseBuilderMutation h hle hn _).map _
  exact steady_parseAssignmentAhead h hb hn

theorem steady_parseStatement (h : ParsersSteady b p p') (hb : b < n) (hn : n ≤ n') :
    SteadyParse (b + 1) (parseStatement n p) (parseStatement n' p') := by
  apply steady_guarded
  · exact (steady_diagnoseNext _).bind fun _ => steady_advanceUnlessEnd.bind fun _ => .pure _
  exact steady_parseStatementBody h hb hn

/-! ### Where a statement is looked for -/

section StatementPlaces

variable {s s' : ParserState}

theorem startsStatement_eq_false {tokens : List Token} :
    startsStatement tokens = false ↔ labelAhead tokens = false ∧
      nextKind tokens ∉ statementKinds ∧ assignmentAhead tokens = false ∧
      ephemeronSetAhead tokens = false ∧ builderMutationAhead tokens = false := by
  simp [startsStatement, and_assoc]

theorem passes_parseAssignment (h : ParsersSteady b p p') (hb : b ≤ n)
    (hs : nextKind s.tokens = .identifier) (P : Statement → Prop) :
    Passes P (parseAssignment n p) s := by
  intro statement s' hassign _
  rw [parseAssignment, peek, read_bind_run] at hassign
  have ⟨target, s₁, htarget, hrest⟩ := bind_result_eq_some.mp hassign
  have hlt := size_parseLvalue_lt h hb hs htarget
  have hshrink := (((steady_expect _ _).bind fun _ => h.expression.bind fun _ =>
    (steady_expect _ _).bind fun _ => .pure _) s₁).shrink statement s' hrest
  omega

theorem passes_parseStatementBody (h : ParsersSteady b p p') (hb : b ≤ n)
    (hstarts : startsStatement s.tokens = true) :
    Passes (fun _ => True) (parseStatementBody n p) s := by
  have hn : n ≤ n := Nat.le_refl n
  apply passes_ifAhead rfl (steady_parseLabelled h hb hn)
  intro hlabel
  apply passes_ifAhead rfl fun _ => (steady_parseLet h _).map _
  intro hlet
  apply passes_ifAhead rfl fun _ => (steady_parseIf h hb hn _).map _
  intro hif
  apply passes_ifAhead rfl fun _ => (steady_parseWhile h hb hn _ _).map _
  intro hwhile
  apply passes_ifAhead rfl fun _ => (steady_parseForIn h hb hn _ _).map _
  intro hfor
  apply passes_ifAhead rfl fun _ => (steady_parseMatch h hb hn _).map _
  intro hmatch
  apply passes_ifAhead rfl fun _ => (steady_parseTry h hb hn _).map _
  intro htry
  apply passes_ifAhead rfl fun _ => (steady_parseThrow h _).map _
  intro hthrow
  apply passes_ifAhead rfl fun _ => (steady_parseTailCall h _).map _
  intro hreturn
  apply passes_ifAhead (b := b) rfl fun _ => (steady_parseLoopControl _ _ _).map _
  intro hbreak
  apply passes_ifAhead (b := b) rfl fun _ => (steady_parseLoopControl _ _ _).map _
  intro hcontinue
  apply passes_ifAhead rfl fun _ => (steady_parsePrint h _).map _
  intro hprint
  apply passes_ifAhead rfl fun _ => (steady_parseEphemeronSet h _).map _
  intro hset
  apply passes_ifAhead rfl fun _ => (steady_parseBuilderMutation h hb hn _).map _
  intro hmutation
  -- only an assignment is left
  have hassign : assignmentAhead s.tokens = true := by
    by_contra hassign
    rw [Bool.not_eq_true] at hassign
    have hkind : nextKind s.tokens ∉ statementKinds := by
      simp only [List.contains_cons, List.contains_nil, Bool.or_false, beq_eq_false_iff_ne] at *
      simp [statementKinds, *]
    rw [startsStatement_eq_false.mpr ⟨hlabel, hkind, hassign, hset, hmutation⟩] at hstarts
    exact absurd hstarts (by simp)
  intro statement s' hresult _
  rw [parseAssignmentAhead, read_bind_run, if_pos hassign] at hresult
  have ⟨assignment, s₁, hassignment, hrest⟩ := bind_result_eq_some.mp hresult
  cases hrest
  exact passes_parseAssignment h hb (assignmentAhead_kind hassign) (fun _ => True) _ _
    hassignment trivial

theorem parseStatementBody_nothing (s : ParserState) (hnone : startsStatement s.tokens = false) :
    parseStatementBody n p s = (do diagnoseNext "expected statement"; pure none) s := by
  have ⟨hlabel, hkind, hassign, hset, hmutation⟩ := startsStatement_eq_false.mp hnone
  simp only [statementKinds, List.mem_cons, List.not_mem_nil, or_false, not_or] at hkind
  simp [parseStatementBody, parseAssignmentAhead, ifMatch, hlabel, hkind, hassign, hset, hmutation]

/-- `parse_statement` looks for a statement in its place. -/
theorem statementPlaces_parseStatement (h : ParsersSteady b p p') (hb : b ≤ n) :
    StatementPlaces (parseStatement n p) := by
  refine ⟨fun s a s' hnone hresult => ?_, fun s a s' hsome hend hresult => ?_⟩
  · rw [parseStatement, guarded, read_bind_run, if_neg (by simpa using hnone.1),
      change_bind_run] at hresult
    have ⟨a', s₁, hbody, hrest⟩ := bind_result_eq_some.mp hresult
    rw [parseStatementBody_nothing s.enter hnone.2] at hbody
    cases hbody
    cases hrest
    exact ⟨rfl, rfl, rfl, rfl⟩
  · rw [parseStatement, guarded, read_bind_run] at hresult
    split at hresult
    next =>
      have ⟨_, s₁, hdiagnose, hrest⟩ := bind_result_eq_some.mp hresult
      have ⟨_, s₂, hadvance, hreturn⟩ := bind_result_eq_some.mp hrest
      cases hdiagnose
      cases hreturn
      rw [advanceUnlessEnd, change_run, if_neg hend] at hadvance
      cases hadvance
      exact ParserState.size_advance_lt hend
    next hdepth =>
      rw [change_bind_run] at hresult
      have ⟨a', s₁, hbody, hrest⟩ := bind_result_eq_some.mp hresult
      cases hrest
      have hstarts : startsStatement s.tokens = true := by
        by_contra hstarts
        exact hsome ⟨by simpa using hdepth, by simpa using hstarts⟩
      have hlt : s₁.size < s.enter.size :=
        passes_parseStatementBody (s := s.enter) h hb hstarts _ _ hbody trivial
      exact hlt

end StatementPlaces

end Statements

/-! ## Declarations -/

section Declarations

variable {α : Type} {b n n' : ℕ} {p p' : Parsers}

theorem steady_parseTypeParameters (hb : b ≤ n) (hn : n ≤ n') (emptyMessage : String) :
    SteadyParse b (parseTypeParameters n emptyMessage) (parseTypeParameters n' emptyMessage) :=
  steady_ifMatch
    (fun _ => (steady_nonemptyListUntil hb hn _ _ (steady_expect _ _)).bind fun _ =>
      (steady_expect _ _).bind fun _ => .pure _)
    (.pure _)

theorem steady_withTypeParameters (parameters : List TypeParameterDecl) {m m' : ParserM α}
    (hm : SteadyParse b m m') :
    SteadyParse b (withTypeParameters parameters m) (withTypeParameters parameters m') :=
  (Steady.read _).bind fun _ => steady_change_bind (fun _ => rfl) <| hm.bind fun _ =>
    steady_change_bind (fun _ => rfl) (.pure _)

theorem steady_nextTypeOrder : SteadyParse b nextTypeOrder nextTypeOrder :=
  (Steady.read _).bind fun _ => steady_change_bind (fun _ => rfl) (.pure _)

theorem steady_parseTypeDeclaration (h : ParsersSteady b p p') (hb : b ≤ n) (hn : n ≤ n')
    (token : Token) :
    SteadyParse b (parseTypeDeclaration n p token) (parseTypeDeclaration n' p' token) :=
  steady_nextTypeOrder.bind fun _ => (steady_expect _ _).bind fun _ =>
    (steady_parseTypeParameters hb hn _).bind fun _ =>
      steady_withTypeParameters _ <| (steady_expect _ _).bind fun _ => steady_peek.bind fun _ =>
        h.type.bind fun _ => (steady_expect _ _).bind fun _ => .pure _

theorem steady_parseRecordField (h : ParsersSteady b p p') :
    SteadyParse b (parseRecordField p) (parseRecordField p') :=
  (steady_expectFieldName _).bind fun _ => (steady_expect _ _).bind fun _ =>
    h.type.bind fun _ => .pure _

theorem steady_parseRecordDeclaration (h : ParsersSteady b p p') (hb : b ≤ n) (hn : n ≤ n')
    (token : Token) :
    SteadyParse b (parseRecordDeclaration n p token) (parseRecordDeclaration n' p' token) :=
  steady_nextTypeOrder.bind fun _ => (steady_expect _ _).bind fun _ =>
    steady_change_bind (fun _ => rfl) <| (steady_parseTypeParameters hb hn _).bind fun _ =>
      steady_withTypeParameters _ <| (steady_expect _ _).bind fun _ =>
        (steady_trailingListUntil hb hn _ (steady_parseRecordField h)).bind fun _ =>
          (steady_expect _ _).bind fun _ => .pure _

theorem steady_parseVariantCase (h : ParsersSteady b p p') (hb : b ≤ n) (hn : n ≤ n') :
    SteadyParse b (parseVariantCase n p) (parseVariantCase n' p') :=
  (steady_expect _ _).bind fun _ => (steady_expect _ _).bind fun _ =>
    (steady_listUntil hb hn _ h.type).bind fun _ => (steady_expect _ _).bind fun _ => .pure _

theorem steady_parseVariantDeclaration (h : ParsersSteady b p p') (hb : b ≤ n) (hn : n ≤ n')
    (token : Token) :
    SteadyParse b (parseVariantDeclaration n p token) (parseVariantDeclaration n' p' token) :=
  steady_nextTypeOrder.bind fun _ => (steady_expect _ _).bind fun _ =>
    (steady_parseTypeParameters hb hn _).bind fun _ =>
      steady_withTypeParameters _ <| (steady_expect _ _).bind fun _ =>
        (steady_trailingListUntil hb hn _ (steady_parseVariantCase h hb hn)).bind fun _ =>
          (steady_expect _ _).bind fun _ => .pure _

theorem steady_parseFunction (h : ParsersSteady b p p') (hb : b ≤ n) (hn : n ≤ n')
    (token : Token) : SteadyParse b (parseFunction n p token) (parseFunction n' p' token) :=
  (Steady.read _).bind fun _ => steady_change_bind (fun _ => rfl) <|
    (steady_expect _ _).bind fun _ => (steady_parseTypeParameters hb hn _).bind fun _ =>
      steady_withTypeParameters _ <| (steady_expect _ _).bind fun _ =>
        (steady_listUntil hb hn _ (steady_parseParameter h _ _)).bind fun _ =>
          (steady_expect _ _).bind fun _ => (steady_expect _ _).bind fun _ =>
            h.type.bind fun _ => (steady_expect _ _).bind fun _ =>
              (steady_parseBody h hb hn).bind fun _ => (steady_requireResult _ _).bind fun _ =>
                (steady_expect _ _).bind fun _ => .pure _

theorem steady_parseDeclarationsTurn (h : ParsersSteady b p p') (hb : b ≤ n) (hn : n ≤ n')
    (program : Program) :
    SteadyParse b (parseDeclarationsTurn n p program) (parseDeclarationsTurn n' p' program) := by
  apply steady_ifMatch fun _ => (steady_parseTypeDeclaration h hb hn _).bind fun _ => .pure _
  apply steady_ifMatch fun _ => (steady_parseRecordDeclaration h hb hn _).bind fun _ => .pure _
  apply steady_ifMatch fun _ => (steady_parseVariantDeclaration h hb hn _).bind fun _ => .pure _
  apply steady_ifAhead fun _ => (steady_parseFunction h hb hn _).bind fun _ => .pure _
  exact .pure _

theorem passes_parseDeclarationsTurn (h : ParsersSteady b p p') (hb : b ≤ n) (program : Program)
    (s : ParserState) : Passes GoesOn (parseDeclarationsTurn n p program) s := by
  have hn : n ≤ n := Nat.le_refl n
  apply passes_ifMatch rfl fun _ => (steady_parseTypeDeclaration h hb hn _).bind fun _ => .pure _
  apply passes_ifMatch rfl fun _ => (steady_parseRecordDeclaration h hb hn _).bind fun _ => .pure _
  apply passes_ifMatch rfl fun _ => (steady_parseVariantDeclaration h hb hn _).bind fun _ => .pure _
  apply passes_ifAhead rfl fun _ => (steady_parseFunction h hb hn _).bind fun _ => .pure _
  intro _
  exact passes_pure id

theorem steady_parseProgram (h : ParsersSteady b p p') (hb : b ≤ n) (hn : n ≤ n') :
    SteadyParse b (parseProgram n p) (parseProgram n' p') := by
  have hdeclarations : SteadyParse b (parseDeclarations n p) (parseDeclarations n' p') :=
    steady_loop hb hn (fun _ => id) (steady_parseDeclarationsTurn h hb hn)
      (passes_parseDeclarationsTurn h hb) _
  exact hdeclarations.bind fun _ => (steady_parseStatements h hb hn).bind fun _ =>
    (steady_requireResult _ _).bind fun _ => (steady_expectEnd _).bind fun _ =>
      (Steady.read _).bind fun _ => .pure _

end Declarations

/-! ## Runs -/

theorem parsers_succ (n : ℕ) : parsers (n + 1) =
    { type := parseType (n + 1) (parsers n)
      expression := parseExpression (n + 1) (parsers n)
      statement := parseStatement (n + 1) (parsers n) } := rfl

/-- The recursive functions end with fuel for the tokens that are left. -/
theorem parsersSteady (n : ℕ) : ParsersSteady n (parsers n) (parsers (n + 1)) := by
  induction n with
  | zero =>
    have hplaces : StatementPlaces outOfFuel :=
      ⟨fun _ _ _ _ h => absurd h (by simp), fun _ _ _ _ _ h => absurd h (by simp)⟩
    exact ⟨.outOfFuel _, .outOfFuel _, .outOfFuel _, hplaces⟩
  | succ n ih =>
    have hn : n < n + 1 := Nat.lt_succ_self n
    rw [parsers_succ n, parsers_succ (n + 1)]
    exact
      { type := steady_parseType ih (Nat.le_succ n) (Nat.le_succ _)
        expression := steady_parseExpression ih hn (Nat.le_succ _)
        statement := steady_parseStatement ih hn (Nat.le_succ _)
        places := statementPlaces_parseStatement ih (Nat.le_succ n) }

theorem settles_parseTokens (n : ℕ) (tokens : List Token) :
    Settles ParserState.size Stalled (tokens.length < n) (parseProgram n (parsers n))
      (parseProgram (n + 1) (parsers (n + 1))) (ParserState.start tokens) :=
  steady_parseProgram (parsersSteady n) (Nat.le_refl n) (Nat.le_succ n) (ParserState.start tokens)

/-- More fuel never changes what the parser returns. -/
theorem parseTokens_extends {n n' : ℕ} (h : n ≤ n') (tokens : List Token) :
    Extends (parseTokens n tokens) (parseTokens n' tokens) := by
  induction h with
  | refl => exact Extends.refl _
  | step _ ih => exact ih.trans (settles_parseTokens _ tokens).extend

/-- The parser returns: it does with some fuel. -/
def Returns (tokens : List Token) : Prop := ∃ n, (parseTokens n tokens).result ≠ none

/-- Every loop of the parser is left or passes a token, in each of its turns. -/
def LoopsMove (tokens : List Token) : Prop :=
  ∀ n, ∀ turn ∈ (parseTokens n tokens).log, turn.after.size < turn.before.size

/-- A loop that is stuck in one run is stuck in every run that goes as far, so the parser does
not return. -/
theorem not_stalled_of_returns {tokens : List Token} (h : Returns tokens) (n : ℕ) :
    ∀ turn ∈ (parseTokens n tokens).log, ¬Stalled turn.loop turn.before := by
  intro turn hturn
  have ⟨n', hn'⟩ := h
  have hlonger : turn ∈ (parseTokens (max n n') tokens).log :=
    (parseTokens_extends (Nat.le_max_left n n') tokens).log.subset hturn
  have heq := (parseTokens_extends (Nat.le_max_right n n') tokens).eq hn'
  rw [← heq] at hlonger
  exact (settles_parseTokens n' tokens).clean hn' turn hlonger

/-- Fuel for every token is enough when no loop is stuck. -/
theorem returns_of_not_stalled {tokens : List Token}
    (h : ∀ n, ∀ turn ∈ (parseTokens n tokens).log, ¬Stalled turn.loop turn.before) :
    (parseTokens (tokens.length + 1) tokens).result ≠ none := by
  intro hnone
  have ⟨turn, hturn, hstuck⟩ :=
    (settles_parseTokens (tokens.length + 1) tokens).stick (Nat.lt_succ_self _) hnone
  exact h _ turn hturn hstuck

/-- The parser returns, and each turn of its loops passes a token or leaves the loop, exactly
when no loop over statements or arms comes to a token that nothing passes. -/
theorem parser_terminates_iff (tokens : List Token) :
    Returns tokens ∧ LoopsMove tokens ↔
      ∀ n, ∀ turn ∈ (parseTokens n tokens).log, ¬Stalled turn.loop turn.before := by
  constructor
  · exact fun h => not_stalled_of_returns h.1
  · intro h
    exact ⟨⟨_, returns_of_not_stalled h⟩, fun n turn hturn =>
      (settles_parseTokens n tokens).move turn hturn (h n turn hturn)⟩

/-- `if true { fn`. -/
def nestedFunction : List Token :=
  [{ kind := .if, position := ⟨0, 1, 1⟩, text := "if" },
   { kind := .true, position := ⟨3, 1, 4⟩, text := "true" },
   { kind := .lBrace, position := ⟨8, 1, 9⟩, text := "\x7b" },
   { kind := .fn, position := ⟨10, 1, 11⟩, text := "fn" },
   { kind := .end, position := ⟨12, 1, 13⟩ }]

/-- The block never gets past the `fn`. -/
theorem nestedFunction_never_returns :
    nestedFunction.getLast?.map Token.kind = some .end ∧ ¬Returns nestedFunction := by
  refine ⟨rfl, fun h => ?_⟩
  have hstuck : ∃ turn ∈ (parseTokens 4 nestedFunction).log, Stalled turn.loop turn.before := by
    decide +kernel
  have ⟨turn, hturn, hs⟩ := hstuck
  exact not_stalled_of_returns h 4 turn hturn hs

end LanguageRuntime.Frontend

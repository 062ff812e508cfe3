import LanguageRuntime.Frontend.Rendering
import Mathlib.Data.List.Find

/-!
# Lexing undoes writing

`reading before rest` is the lexer after the bytes `before` with the bytes `rest` to come and
nothing to report. Each function of the lexer takes one such state to another: over a gap,
over a written token, and over a whole source.
-/

namespace LanguageRuntime.Frontend

/-- The lexer after some bytes and before others. -/
def reading (before rest : List UInt8) : Lexer :=
  { source := rest, position := positionOf before }

variable {before rest : List UInt8} {c : UInt8}

/-! ## Reading bytes -/

theorem positionOf_after (before : List UInt8) (c : UInt8) :
    positionOf (before ++ [c]) = (positionOf before).after c := by
  by_cases hc : c = byte '\n'
  · simp [positionOf, SourcePosition.after, hc]
  · simp [positionOf, SourcePosition.after, hc]

@[simp] theorem advance_reading :
    (reading before (c :: rest)).advance = reading (before ++ [c]) rest := by
  rw [reading, Lexer.advance, reading, positionOf_after]

/-- A loop over bytes stops where the test first fails. -/
theorem advanceWhile_reading {test : UInt8 → Bool} (rest : List UInt8) :
    ∀ {word : List UInt8} (before : List UInt8), (∀ c ∈ word, test c = true) →
    (∀ c, rest.head? = some c → test c = false) →
    (reading before (word ++ rest)).advanceWhile test = reading (before ++ word) rest
  | [], before, _, hstop => by
    cases rest with
    | nil => simp [Lexer.advanceWhile, advanceWhile, reading]
    | cons c rest => simp [Lexer.advanceWhile, advanceWhile, reading, hstop c rfl]
  | c :: word, before, hall, hstop => by
    rw [List.forall_mem_cons] at hall
    have htail := advanceWhile_reading rest (before ++ [c]) hall.2 hstop
    rw [List.append_assoc, List.singleton_append] at htail
    rw [← htail]
    simp [Lexer.advanceWhile, advanceWhile, reading, hall.1, positionOf_after]

@[simp] theorem textTo_reading (before word rest : List UInt8) :
    (reading before (word ++ rest)).textTo (reading (before ++ word) rest) = word := by
  simp [Lexer.textTo, reading, positionOf]

/-! ## Gaps -/

theorem advanceWhile_eq_self {test : UInt8 → Bool} {lexer : Lexer}
    (h : ¬(lexer.advanceWhile test).source.length < lexer.source.length) :
    lexer.advanceWhile test = lexer := by
  cases lexer with
  | mk source position diagnostics =>
    cases source with
    | nil => rfl
    | cons c source =>
      by_cases hc : test c
      · exact absurd (length_advanceWhile_lt rfl hc) h
      · simp [Lexer.advanceWhile, advanceWhile, hc]

theorem skipRound_eq_self {lexer : Lexer}
    (h : ¬lexer.skipRound.source.length < lexer.source.length) : lexer.skipRound = lexer := by
  have hblank := lexer.length_advanceWhile_le isSpace
  have hcomment := (lexer.advanceWhile isSpace).length_advanceWhile_le (· ≠ byte '\n')
  rw [Lexer.skipRound] at h ⊢
  split at h
  next hstart =>
    rw [if_pos hstart, advanceWhile_eq_self (by omega), advanceWhile_eq_self (by omega)]
  next hstart =>
    rw [if_neg hstart, advanceWhile_eq_self h]

/-- A round may be taken out of the loop. -/
theorem skipRound_skipIgnored (lexer : Lexer) :
    lexer.skipRound.skipIgnored = lexer.skipIgnored := by
  by_cases hprogress : lexer.skipRound.source.length < lexer.source.length
  · conv_rhs => rw [Lexer.skipIgnored, if_pos hprogress]
  · rw [skipRound_eq_self hprogress]

theorem skipIgnored_blank (hspace : isSpace c = true) :
    (reading before (c :: rest)).skipIgnored = (reading (before ++ [c]) rest).skipIgnored := by
  have hround :
      (reading before (c :: rest)).skipRound = (reading (before ++ [c]) rest).skipRound := by
    have hblank : (reading before (c :: rest)).advanceWhile isSpace =
        (reading (before ++ [c]) rest).advanceWhile isSpace := by
      simp [Lexer.advanceWhile, advanceWhile, reading, hspace, positionOf_after]
    rw [Lexer.skipRound, hblank, Lexer.skipRound]
  rw [← skipRound_skipIgnored, hround, skipRound_skipIgnored]

theorem skipIgnored_comment {text : List UInt8} (hline : ∀ c ∈ text, c ≠ byte '\n')
    (hrest : ∀ c, rest.head? = some c → c = byte '\n') :
    (reading before (commentBytes text ++ rest)).skipIgnored =
      (reading (before ++ commentBytes text) rest).skipIgnored := by
  have hblank : (reading before (commentBytes text ++ rest)).advanceWhile isSpace =
      reading before (commentBytes text ++ rest) := by
    rw [Lexer.advanceWhile, reading, commentBytes, List.cons_append, advanceWhile]
    rfl
  have hround : (reading before (commentBytes text ++ rest)).skipRound =
      reading (before ++ commentBytes text) rest := by
    rw [Lexer.skipRound, hblank, if_pos (by simp [reading, commentBytes, startsComment])]
    apply advanceWhile_reading
    · intro c hc
      simp only [commentBytes, List.mem_cons] at hc
      obtain rfl | rfl | hc := hc
      · decide
      · decide
      · exact decide_eq_true (hline c hc)
    · intro c hc
      simp [hrest c hc]
  rw [← skipRound_skipIgnored, hround]

/-- A gap is skipped, whatever comes after it. -/
theorem skipIgnored_gap : ∀ (gap : List Gap) (before rest : List UInt8),
    (reading before (gap.flatMap Gap.bytes ++ rest)).skipIgnored =
      (reading (before ++ gap.flatMap Gap.bytes) rest).skipIgnored
  | [], before, rest => by simp
  | .blank c hspace :: gap, before, rest => by
    rw [List.flatMap_cons, Gap.bytes, List.append_assoc, List.singleton_append,
      skipIgnored_blank hspace, skipIgnored_gap gap, List.append_assoc]
  | .comment text hline :: gap, before, rest => by
    rw [List.flatMap_cons, Gap.bytes, List.append_assoc, List.append_assoc, List.singleton_append,
      skipIgnored_comment hline (by simp), skipIgnored_blank (by decide), skipIgnored_gap gap]
    simp

/-- A source that starts neither with a blank nor with a comment. -/
def Exposed (rest : List UInt8) : Prop :=
  ∀ c, rest.head? = some c → isSpace c = false ∧ c ≠ byte '/'

theorem skipIgnored_exposed (h : Exposed rest) :
    (reading before rest).skipIgnored = reading before rest := by
  have hround : (reading before rest).skipRound = reading before rest := by
    have hblank :
        (reading before ([] ++ rest)).advanceWhile isSpace = reading (before ++ []) rest :=
      advanceWhile_reading rest before nofun fun c hc => (h c hc).1
    rw [List.nil_append, List.append_nil] at hblank
    rw [Lexer.skipRound, hblank, if_neg]
    simp only [reading]
    cases rest with
    | nil => exact Bool.false_ne_true
    | cons c rest => cases rest <;> simp [startsComment, (h c rfl).2]
  rw [Lexer.skipIgnored, hround, if_neg (Nat.lt_irrefl _)]

/-! ## Words -/

theorem keywords_spelled : ∀ entry ∈ keywords, textOf (bytesOf entry.1) = entry.1 ∧
    (bytesOf entry.1).all isIdentifierContinue = true ∧
    (bytesOf entry.1).head?.any isIdentifierStart = true ∧
    keywords.find? (·.1 = entry.1) = some entry := by
  decide

/-- A word that is no longer than it can be becomes one token, whose kind is looked up. -/
theorem scan_word (before : List UInt8) {start : UInt8} {word : List UInt8}
    (hstart : isIdentifierStart start = true)
    (hword : ∀ c ∈ word, isIdentifierContinue c = true)
    (hstop : ∀ c, rest.head? = some c → isIdentifierContinue c = false) :
    (reading before (start :: word ++ rest)).scan =
      (some { kind := ((keywords.find? (·.1 = textOf (start :: word))).map (·.2)).getD .identifier
              position := positionOf before, text := textOf (start :: word) },
        reading (before ++ start :: word) rest) := by
  have hall : ∀ c ∈ start :: word, isIdentifierContinue c = true :=
    List.forall_mem_cons.mpr ⟨isIdentifierContinue_of_start hstart, hword⟩
  have hnext := advanceWhile_reading rest before hall hstop
  have htext := textTo_reading before (start :: word) rest
  rw [Lexer.scan]
  simp only [reading, List.cons_append, hstart, if_true]
  simp only [reading, List.cons_append] at hnext htext
  simp only [Lexer.identifier, hnext, htext]

/-! ## Operators -/

/-- Among operators of one size, the operator a source starts with is the one spelled by its
first bytes. -/
theorem findOperator_eq {operators : List (String × TokenKind)} {word : List UInt8}
    (hlength : ∀ entry ∈ operators, (bytesOf entry.1).length = word.length) :
    findOperator operators (word ++ rest) =
      operators.find? fun entry => bytesOf entry.1 = word := by
  apply List.find?_congr
  intro entry hentry
  rw [Bool.eq_iff_iff, List.isPrefixOf_iff_prefix, List.prefix_iff_eq_take, hlength entry hentry,
    List.take_left, decide_eq_true_iff]

theorem twoByteOperators_spelled : ∀ entry ∈ twoByteOperators,
    (bytesOf entry.1).length = 2 ∧
    twoByteOperators.find? (bytesOf ·.1 = bytesOf entry.1) = some entry := by
  decide

theorem oneByteOperators_spelled : ∀ entry ∈ oneByteOperators,
    (bytesOf entry.1).length = 1 ∧ (bytesOf entry.1).head? ≠ some (byte '-') ∧
    oneByteOperators.find? (bytesOf ·.1 = bytesOf entry.1) = some entry := by
  decide

/-- No token but an operator or a negative number starts with the first byte of an operator. -/
theorem operators_start : ∀ entry ∈ twoByteOperators ++ oneByteOperators,
    (bytesOf entry.1).head?.any (fun c => isIdentifierStart c || c = byte '"' || isDigit c) =
      false := by
  decide

theorem scan_twoByteOperator {entry : String × TokenKind} (hmem : entry ∈ twoByteOperators) :
    (reading before (bytesOf entry.1 ++ rest)).scan =
      (some (simple entry.2 (positionOf before) entry.1),
        reading (before ++ bytesOf entry.1) rest) := by
  obtain ⟨hlength, hfind⟩ := twoByteOperators_spelled entry hmem
  have hstart := operators_start entry (List.mem_append_left _ hmem)
  have hoperator : findOperator twoByteOperators (bytesOf entry.1 ++ rest) = some entry := by
    rw [findOperator_eq fun other hother => by
      rw [hlength, (twoByteOperators_spelled other hother).1], hfind]
  obtain ⟨c, d, hbytes⟩ := List.length_eq_two.mp hlength
  rw [hbytes] at hstart hoperator ⊢
  simp only [List.head?_cons, Option.any_some, Bool.or_eq_false_iff, decide_eq_false_iff_not]
    at hstart
  have hadvance : (reading before (c :: d :: rest)).advance.advance =
      reading (before ++ [c, d]) rest := by
    rw [advance_reading, advance_reading, List.append_assoc, List.singleton_append]
  simp only [List.cons_append, List.nil_append] at hoperator ⊢
  rw [Lexer.scan, hadvance]
  simp only [reading, hstart, hoperator, if_false, Bool.false_eq_true]

/-- An operator of one byte, where the next byte does not make it one of two. -/
theorem scan_oneByteOperator {entry : String × TokenKind} (hmem : entry ∈ oneByteOperators)
    (hstop : ∀ c, rest.head? = some c →
      (twoByteOperators.any fun longer => bytesOf longer.1 = bytesOf entry.1 ++ [c]) = false) :
    (reading before (bytesOf entry.1 ++ rest)).scan =
      (some (simple entry.2 (positionOf before) entry.1),
        reading (before ++ bytesOf entry.1) rest) := by
  obtain ⟨hlength, hminus, hfind⟩ := oneByteOperators_spelled entry hmem
  have hstart := operators_start entry (List.mem_append_right _ hmem)
  have hoperator : findOperator oneByteOperators (bytesOf entry.1 ++ rest) = some entry := by
    rw [findOperator_eq fun other hother => by
      rw [hlength, (oneByteOperators_spelled other hother).1], hfind]
  obtain ⟨c, hbytes⟩ := List.length_eq_one_iff.mp hlength
  rw [hbytes] at hstart hoperator hstop hminus ⊢
  simp only [List.head?_cons, Option.any_some, Bool.or_eq_false_iff, decide_eq_false_iff_not]
    at hstart
  have hlonger : findOperator twoByteOperators (c :: rest) = none := by
    cases rest with
    | nil =>
      rw [findOperator, List.find?_eq_none]
      intro longer hlonger hprefix
      have hle := (List.isPrefixOf_iff_prefix.mp hprefix).length_le
      rw [(twoByteOperators_spelled longer hlonger).1] at hle
      exact absurd hle (by simp)
    | cons d rest =>
      have hpair : findOperator twoByteOperators ([c, d] ++ rest) = _ :=
        findOperator_eq fun longer hlonger => (twoByteOperators_spelled longer hlonger).1
      rw [List.cons_append, List.singleton_append] at hpair
      rw [hpair, List.find?_eq_none]
      intro longer hlonger hspelled
      have hany := List.any_eq_false.mp (hstop d rfl) longer hlonger
      exact hany hspelled
  simp only [List.singleton_append] at hoperator ⊢
  have hc : c ≠ byte '-' := fun hc => hminus (congrArg some hc)
  rw [Lexer.scan, advance_reading]
  simp only [reading, hstart, hoperator, hlonger, hc, if_false, Bool.false_eq_true, decide_false,
    Bool.false_and, Bool.or_false]

/-! ## Numbers -/

/-- A property of bytes is checked byte by byte. -/
theorem forall_byte {P : UInt8 → Prop} (h : ∀ n < 256, P (UInt8.ofNat n)) (c : UInt8) : P c := by
  have hc := h c.toNat c.toNat_lt
  rwa [UInt8.ofNat_toNat] at hc

theorem isDigit_start : ∀ c : UInt8, isDigit c = true →
    isIdentifierStart c = false ∧ c ≠ byte '"' ∧ c ≠ byte '-' ∧ c ≠ byte '/' ∧
    isSpace c = false :=
  forall_byte (by decide +kernel)

theorem twoByteOperators_no_digit : ∀ entry ∈ twoByteOperators,
    (bytesOf entry.1).all (fun c => !isDigit c) = true := by
  decide

/-- No operator of two bytes has a digit among them. -/
theorem findOperator_digit {word : List UInt8} {d : UInt8} (hlength : word.length ≤ 1)
    (hdigit : isDigit d = true) : findOperator twoByteOperators (word ++ d :: rest) = none := by
  rw [findOperator, List.find?_eq_none]
  intro entry hentry hprefix
  obtain ⟨tail, htail⟩ := List.isPrefixOf_iff_prefix.mp hprefix
  have hsize := (twoByteOperators_spelled entry hentry).1
  have hdigits := List.all_eq_true.mp (twoByteOperators_no_digit entry hentry)
  have hmem : d ∈ bytesOf entry.1 := by
    have hget : (bytesOf entry.1 ++ tail)[word.length]? = some d := by
      rw [htail, List.getElem?_append_right (Nat.le_refl _), Nat.sub_self]
      rfl
    rw [List.getElem?_append_left (by omega)] at hget
    exact List.mem_of_getElem? hget
  have hnot := hdigits d hmem
  rw [hdigit] at hnot
  exact Bool.false_ne_true hnot

theorem scan_integer {negative : Bool} {digits : List UInt8} (hdigits : digits ≠ [])
    (hall : ∀ c ∈ digits, isDigit c = true)
    (hrange : -2 ^ 63 ≤ integerValue negative digits ∧ integerValue negative digits < 2 ^ 63)
    (hstop : ∀ c, rest.head? = some c → isDigit c = false) :
    (reading before ((if negative then byte '-' :: digits else digits) ++ rest)).scan =
      (some { kind := .integer, position := positionOf before
              text := textOf (if negative then byte '-' :: digits else digits)
              integer := Int64.ofInt (integerValue negative digits) },
        reading (before ++ if negative then byte '-' :: digits else digits) rest) := by
  obtain ⟨d, digits, rfl⟩ := List.exists_cons_of_ne_nil hdigits
  have hd : isDigit d = true := hall d List.mem_cons_self
  obtain ⟨hstart, hquote, hminus, -, -⟩ := isDigit_start d hd
  cases negative with
  | true =>
    have hoperator : findOperator twoByteOperators ([byte '-'] ++ d :: (digits ++ rest)) = none :=
      findOperator_digit (by simp) hd
    have hnext := advanceWhile_reading rest (before ++ [byte '-']) hall hstop
    have htext := textTo_reading before (byte '-' :: d :: digits) rest
    have hvalue : fromChars (byte '-' :: d :: digits) =
        some (Int64.ofInt (integerValue true (d :: digits))) := if_pos hrange
    have hinteger : (reading before (byte '-' :: d :: (digits ++ rest))).integer =
        ({ kind := .integer, position := positionOf before
           text := textOf (byte '-' :: d :: digits)
           integer := Int64.ofInt (integerValue true (d :: digits)) },
          reading (before ++ byte '-' :: d :: digits) rest) := by
      have hsigned : (reading before (byte '-' :: d :: (digits ++ rest))).source.head? =
          some (byte '-') := rfl
      simp only [List.append_assoc, List.cons_append, List.nil_append] at hnext htext
      simp only [Lexer.integer, hsigned, if_true, advance_reading, hnext, htext, hvalue]
      rfl
    simp only [if_true, List.cons_append, List.nil_append] at hoperator ⊢
    rw [Lexer.scan, hinteger]
    simp only [reading, hoperator, List.head?_cons, Option.any_some, hd, Bool.or_true, decide_true,
      Bool.and_true, if_true]
    rfl
  | false =>
    have hoperator : findOperator twoByteOperators ([] ++ d :: (digits ++ rest)) = none :=
      findOperator_digit (by simp) hd
    have hnext := advanceWhile_reading rest before hall hstop
    have htext := textTo_reading before (d :: digits) rest
    have hvalue : fromChars (d :: digits) =
        some (Int64.ofInt (integerValue false (d :: digits))) := by
      simp only [fromChars, hminus, if_false]
      exact if_pos hrange
    have hinteger : (reading before (d :: (digits ++ rest))).integer =
        ({ kind := .integer, position := positionOf before
           text := textOf (d :: digits)
           integer := Int64.ofInt (integerValue false (d :: digits)) },
          reading (before ++ d :: digits) rest) := by
      have hunsigned : ¬(reading before (d :: (digits ++ rest))).source.head? = some (byte '-') :=
        fun h => hminus (Option.some.inj h)
      simp only [List.cons_append] at hnext htext
      simp only [Lexer.integer, hunsigned, if_false, hnext, htext, hvalue]
      rfl
    simp only [if_false, Bool.false_eq_true, List.cons_append, List.nil_append] at hoperator ⊢
    rw [Lexer.scan, hinteger]
    simp only [reading, hoperator, hstart, hquote, hd, Bool.true_or, if_true, if_false,
      Bool.false_eq_true]

/-! ## Strings -/

theorem escapes_decoded : ∀ entry ∈ escapes, escapedByte entry.1 = some entry.2 := by
  rw [← List.forall_iff_forall_mem]
  decide

section StringLoop

variable {source decoded : List UInt8} {position : SourcePosition}
  {diagnostics : List Diagnostic} {c character : UInt8}

theorem stringLoop_quote : stringLoop (byte '"' :: source) position diagnostics decoded =
    (true, decoded, { source, position := position.after (byte '"'), diagnostics }) := by
  rw [stringLoop.eq_def]
  rfl

theorem stringLoop_raw (hquote : c ≠ byte '"') (hbackslash : c ≠ byte '\\') :
    stringLoop (c :: source) position diagnostics decoded =
      stringLoop source (position.after c) diagnostics (decoded ++ [c]) := by
  conv_lhs => rw [stringLoop.eq_def]
  simp only [hquote, hbackslash, ne_eq, not_false_eq_true, if_true, if_false]

theorem stringLoop_escape (hescape : escapedByte c = some character) :
    stringLoop (byte '\\' :: c :: source) position diagnostics decoded =
      stringLoop source ((position.after (byte '\\')).after c) diagnostics
        (decoded ++ [character]) := by
  have hquote : byte '\\' ≠ byte '"' := by decide
  conv_lhs => rw [stringLoop.eq_def]
  simp only [hquote, hescape, ne_eq, not_true_eq_false, if_false]

end StringLoop

/-- The loop over the pieces of a literal collects the bytes they stand for. -/
theorem stringLoop_pieces (rest : List UInt8) : ∀ (pieces : List StringPiece)
    (before decoded : List UInt8),
    stringLoop (pieces.flatMap StringPiece.bytes ++ byte '"' :: rest) (positionOf before) []
        decoded =
      (true, decoded ++ pieces.map (·.decoded),
        reading (before ++ (pieces.flatMap StringPiece.bytes ++ [byte '"'])) rest)
  | [], before, decoded => by
    rw [List.flatMap_nil, List.nil_append, stringLoop_quote]
    simp [reading, positionOf_after]
  | .raw c hquote hbackslash :: pieces, before, decoded => by
    have htail := stringLoop_pieces rest pieces (before ++ [c]) (decoded ++ [c])
    rw [positionOf_after] at htail
    rw [List.flatMap_cons, StringPiece.bytes, List.append_assoc, List.singleton_append,
      stringLoop_raw hquote hbackslash, htail]
    simp [StringPiece.decoded]
  | .escape entry hentry :: pieces, before, decoded => by
    have htail := stringLoop_pieces rest pieces (before ++ [byte '\\', entry.1])
      (decoded ++ [entry.2])
    have hposition : positionOf (before ++ [byte '\\', entry.1]) =
        ((positionOf before).after (byte '\\')).after entry.1 := by
      rw [← positionOf_after, ← positionOf_after, List.append_assoc, List.singleton_append]
    rw [hposition] at htail
    rw [List.flatMap_cons, StringPiece.bytes, List.append_assoc, List.cons_append,
      List.singleton_append, stringLoop_escape (escapes_decoded entry hentry), htail]
    simp [StringPiece.decoded]

theorem scan_string (pieces : List StringPiece) :
    (reading before (byte '"' :: (pieces.flatMap StringPiece.bytes ++ [byte '"']) ++ rest)).scan =
      (some { kind := .string, position := positionOf before
              text := textOf (pieces.map (·.decoded)) },
        reading (before ++ byte '"' :: (pieces.flatMap StringPiece.bytes ++ [byte '"'])) rest) := by
  have hloop := stringLoop_pieces rest pieces (before ++ [byte '"']) []
  rw [List.append_assoc, List.singleton_append, List.nil_append] at hloop
  have hliteral : (reading before (byte '"' :: (pieces.flatMap StringPiece.bytes ++
      byte '"' :: rest))).stringLiteral =
      ({ kind := .string, position := positionOf before
         text := textOf (pieces.map (·.decoded)) },
        reading (before ++ byte '"' :: (pieces.flatMap StringPiece.bytes ++ [byte '"'])) rest) := by
    rw [Lexer.stringLiteral, advance_reading]
    simp only [reading, hloop, if_true]
  have hstart : isIdentifierStart (byte '"') = false := by decide
  rw [List.cons_append, List.append_assoc, List.singleton_append, Lexer.scan, hliteral]
  simp only [reading, hstart, if_true, if_false, Bool.false_eq_true]

/-! ## Written tokens -/

/-- A written token is read as the token that is meant, up to the byte after it. -/
theorem scan_written (token : Written)
    (hstop : ∀ c, rest.head? = some c → token.continuedBy c = false) :
    (reading before (token.bytes ++ rest)).scan =
      (some (token.token (positionOf before)), reading (before ++ token.bytes) rest) := by
  cases token with
  | keyword entry hmem =>
    obtain ⟨htext, hall, hstart, hfind⟩ := keywords_spelled entry hmem
    cases hbytes : bytesOf entry.1 with
    | nil => rw [hbytes] at hstart; exact absurd hstart (by decide)
    | cons start word =>
      rw [hbytes] at htext hall hstart
      have hword := scan_word before hstart
        (fun c hc => List.all_eq_true.mp hall c (List.mem_cons_of_mem _ hc)) hstop
      rw [htext, hfind] at hword
      rw [Written.bytes, hbytes]
      exact hword
  | identifier start word hstart hword hfree =>
    have hfind : keywords.find? (·.1 = textOf (start :: word)) = none := by
      rw [List.find?_eq_none]
      intro entry hentry htext
      exact hfree entry hentry (of_decide_eq_true htext)
    have hscan := scan_word before hstart hword hstop
    rw [hfind] at hscan
    exact hscan
  | integer negative digits hnonempty hdigits hrange =>
    exact scan_integer hnonempty hdigits hrange hstop
  | string pieces => exact scan_string pieces
  | operator entry hmem =>
    obtain hmem | hmem := List.mem_append.mp hmem
    · exact scan_twoByteOperator hmem
    · exact scan_oneByteOperator hmem hstop

/-- Every written token starts with a byte that is neither blank nor a slash. -/
theorem written_start (token : Written) :
    ∃ c tail, token.bytes = c :: tail ∧ isSpace c = false ∧ c ≠ byte '/' := by
  have hstart : ∀ c, isIdentifierStart c = true → isSpace c = false ∧ c ≠ byte '/' :=
    forall_byte (by decide +kernel)
  cases token with
  | keyword entry hmem =>
    have hspelled := (keywords_spelled entry hmem).2.2.1
    cases hbytes : bytesOf entry.1 with
    | nil => rw [hbytes] at hspelled; exact absurd hspelled (by decide)
    | cons c word =>
      rw [hbytes] at hspelled
      exact ⟨c, word, hbytes, hstart c hspelled⟩
  | identifier start word hword => exact ⟨start, word, rfl, hstart start hword⟩
  | integer negative digits hnonempty hdigits =>
    obtain ⟨d, digits, rfl⟩ := List.exists_cons_of_ne_nil hnonempty
    obtain ⟨-, -, -, hslash, hspace⟩ := isDigit_start d (hdigits d List.mem_cons_self)
    cases negative with
    | true => exact ⟨byte '-', d :: digits, rfl, by decide, by decide⟩
    | false => exact ⟨d, digits, rfl, hspace, hslash⟩
  | string pieces => exact ⟨byte '"', _, rfl, by decide, by decide⟩
  | operator entry hmem =>
    have hspelled : ∀ entry ∈ twoByteOperators ++ oneByteOperators,
        (bytesOf entry.1).head?.any (fun c => !isSpace c && c ≠ byte '/') = true := by
      decide
    have hfirst := hspelled entry hmem
    cases hbytes : bytesOf entry.1 with
    | nil => rw [hbytes] at hfirst; exact absurd hfirst (by decide)
    | cons c tail =>
      rw [hbytes] at hfirst
      exact ⟨c, tail, hbytes, by simpa using hfirst⟩

/-- Nothing in a gap would belong to a token before it. -/
theorem continuedBy_gap (token : Written) {c : UInt8} (h : isSpace c = true ∨ c = byte '/') :
    token.continuedBy c = false := by
  have hbyte : ∀ c, (isSpace c = true ∨ c = byte '/') →
      isIdentifierContinue c = false ∧ isDigit c = false :=
    forall_byte (by decide +kernel)
  cases token with
  | keyword | identifier => exact (hbyte c h).1
  | integer => exact (hbyte c h).2
  | string => rfl
  | operator entry hmem =>
    have hlast : ∀ longer ∈ twoByteOperators,
        (bytesOf longer.1).getLast?.any (fun c => !isSpace c && c ≠ byte '/') = true := by
      decide
    rw [Written.continuedBy, List.any_eq_false]
    intro longer hlonger hspelled
    have hc := hlast longer hlonger
    rw [of_decide_eq_true hspelled, List.getLast?_concat] at hc
    obtain h | h := h <;> simp [h] at hc

/-- What follows a token that is separated from the next does not belong to it. -/
theorem continuedBy_next {item next : Item} (h : item.Separated next) :
    ∀ c, (next.bytes ++ rest).head? = some c → item.token.continuedBy c = false := by
  intro c hc
  obtain ⟨gap, token⟩ := next
  cases gap with
  | nil =>
    obtain ⟨d, tail, hbytes, -⟩ := written_start token
    apply h rfl c
    simpa [Item.bytes, hbytes] using hc
  | cons piece gap =>
    apply continuedBy_gap
    cases piece with
    | blank d hspace =>
      have hd : d = c := by simpa [Item.bytes, Gap.bytes] using hc
      exact .inl (hd ▸ hspace)
    | comment text hline =>
      have hd : byte '/' = c := by simpa [Item.bytes, Gap.bytes, commentBytes] using hc
      exact .inr hd.symm

theorem continuedBy_trailer (rendering : Rendering) (token : Written) :
    ∀ c, rendering.trailer.head? = some c → token.continuedBy c = false := by
  intro c hc
  apply continuedBy_gap
  obtain ⟨items, hseparated, gap, comment⟩ := rendering
  cases gap with
  | nil =>
    cases comment with
    | none => nomatch hc
    | some text =>
      have hd : byte '/' = c := by simpa [Rendering.trailer, commentBytes] using hc
      exact .inr hd.symm
  | cons piece gap =>
    cases piece with
    | blank d hspace =>
      have hd : d = c := by simpa [Rendering.trailer, Gap.bytes] using hc
      exact .inl (hd ▸ hspace)
    | comment text hline =>
      have hd : byte '/' = c := by simpa [Rendering.trailer, Gap.bytes, commentBytes] using hc
      exact .inr hd.symm

/-! ## Sources -/

theorem skipIgnored_trailer (before : List UInt8) (rendering : Rendering) :
    (reading before rendering.trailer).skipIgnored =
      reading (before ++ rendering.trailer) [] := by
  have hexposed : Exposed [] := nofun
  obtain ⟨items, hseparated, gap, comment⟩ := rendering
  rw [Rendering.trailer, skipIgnored_gap]
  cases comment with
  | none => simp [skipIgnored_exposed hexposed]
  | some text =>
    have hcomment : (reading (before ++ gap.flatMap Gap.bytes) (commentBytes text ++
        [])).skipIgnored = _ := skipIgnored_comment text.2 nofun
    rw [List.append_nil, skipIgnored_exposed hexposed] at hcomment
    simpa using hcomment

/-- The loop of the lexer over the items of a source and its trailer. -/
theorem lexLoop_items (rendering : Rendering) : ∀ (items : List Item) (before : List UInt8)
    (tokens : List Token), items.IsChain Item.Separated →
    (reading before (items.flatMap Item.bytes ++ rendering.trailer)).lexLoop tokens =
      (tokens ++ itemTokens before items,
        reading (before ++ items.flatMap Item.bytes ++ rendering.trailer) [])
  | [], before, tokens, _ => by
    have hskip := skipIgnored_trailer before rendering
    rw [List.flatMap_nil, List.nil_append, List.append_nil, Lexer.lexLoop, hskip]
    by_cases hempty : rendering.trailer = []
    · simp [reading, hempty, itemTokens]
    · simp [reading, hempty, itemTokens]
  | item :: items, before, tokens, hseparated => by
    have hstop : ∀ c, (items.flatMap Item.bytes ++ rendering.trailer).head? = some c →
        item.token.continuedBy c = false := by
      cases items with
      | nil => exact continuedBy_trailer rendering item.token
      | cons next items =>
        rw [List.flatMap_cons, List.append_assoc]
        exact continuedBy_next (List.isChain_cons_cons.mp hseparated).1
    have htail := lexLoop_items rendering items (before ++ item.bytes)
      (tokens ++ [item.token.token (positionOf (before ++ item.gap.flatMap Gap.bytes))])
      hseparated.tail
    obtain ⟨c, tail, hbytes, hspace, hslash⟩ := written_start item.token
    have hexposed :
        Exposed (item.token.bytes ++ (items.flatMap Item.bytes ++ rendering.trailer)) := by
      rw [hbytes]
      intro d hd
      rw [← Option.some.inj hd]
      exact ⟨hspace, hslash⟩
    have hskip := skipIgnored_gap item.gap before
      (item.token.bytes ++ (items.flatMap Item.bytes ++ rendering.trailer))
    rw [skipIgnored_exposed hexposed] at hskip
    have hsource : (reading before (item.gap.flatMap Gap.bytes ++ (item.token.bytes ++
        (items.flatMap Item.bytes ++ rendering.trailer)))).source ≠ [] := by
      simp [reading, hbytes]
    have hnext : (reading (before ++ item.gap.flatMap Gap.bytes) (item.token.bytes ++
        (items.flatMap Item.bytes ++ rendering.trailer))).source ≠ [] := by
      simp [reading, hbytes]
    rw [List.flatMap_cons, Item.bytes, List.append_assoc, List.append_assoc, Lexer.lexLoop,
      if_neg hsource, hskip, dif_neg hnext, scan_written item.token hstop]
    rw [Item.bytes, ← List.append_assoc] at htail
    rw [Option.toList_some, htail, itemTokens, Item.bytes]
    simp only [List.append_assoc, List.singleton_append]

/-- Lexing a written source gives the tokens that are meant, at the places where they were
written, and reports nothing. -/
theorem lex_rendering (rendering : Rendering) :
    lexSource rendering.source = { tokens := rendering.tokens, diagnostics := [] } := by
  have hloop := lexLoop_items rendering rendering.items [] [] rendering.separated
  rw [List.nil_append, List.nil_append] at hloop
  have hstart : ({ source := rendering.source } : Lexer) = reading [] rendering.source := rfl
  rw [lexSource, hstart, Rendering.source, hloop]
  rfl

end LanguageRuntime.Frontend

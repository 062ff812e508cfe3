import LanguageRuntime.Frontend.Syntax
import Mathlib.Data.Int.Notation

/-!
# The lexer

`src/frontend/lexer.cpp`. A source is a list of bytes. A `std::string` of bytes is a `String`
with one character for each byte. The lexer's `offset_` is a position together with what is
left of the source there, and a loop of the source that reads bytes is a recursion on what is
left.
-/

namespace LanguageRuntime.Frontend

inductive TokenKind where
  | end
  | identifier
  | integer
  | string
  | let
  | type
  | record
  | variant
  | match
  | try
  | catch
  | throw
  | fn
  | if
  | else
  | while
  | for
  | in
  | break
  | continue
  | true
  | false
  | nil
  | isNil
  | array
  | map
  | weak
  | ephemeron
  | builder
  | print
  | toStr
  | toI64
  | intern
  | abs
  | min
  | max
  | i64
  | bool
  | str
  | pair
  | left
  | right
  | plus
  | less
  | greater
  | lessEqual
  | greaterEqual
  | equal
  | equalEqual
  | bangEqual
  | arrow
  | fatArrow
  | colon
  | semicolon
  | comma
  | dot
  | dotDot
  | lParen
  | rParen
  | lBrace
  | rBrace
  | lBracket
  | rBracket
  | return
deriving DecidableEq, Repr

structure Token where
  kind : TokenKind := .end
  position : SourcePosition := {}
  text : String := ""
  integer : Int64 := 0
deriving DecidableEq, Repr, Inhabited

/-! ## Bytes -/

/-- The byte of an ASCII character. -/
def byte (c : Char) : UInt8 := UInt8.ofNat c.toNat

/-- The character that stands for a byte. -/
def byteChar (c : UInt8) : Char := Char.ofNat c.toNat

/-- The string of a list of bytes. -/
def textOf (bytes : List UInt8) : String := String.ofList (bytes.map byteChar)

/-- The bytes of an ASCII string. -/
def bytesOf (text : String) : List UInt8 := text.toList.map byte

/-- `std::isalpha`, in the C locale as the other tests. -/
def isAlpha (c : UInt8) : Bool :=
  (byte 'A' ≤ c && c ≤ byte 'Z') || (byte 'a' ≤ c && c ≤ byte 'z')

/-- `std::isdigit`. -/
def isDigit (c : UInt8) : Bool := byte '0' ≤ c && c ≤ byte '9'

/-- `std::isalnum`. -/
def isAlnum (c : UInt8) : Bool := isAlpha c || isDigit c

/-- `std::isspace`: a space, or one of tab, newline, vertical tab, form feed and return. -/
def isSpace (c : UInt8) : Bool := c = byte ' ' || (9 ≤ c && c ≤ 13)

def isIdentifierStart (c : UInt8) : Bool := isAlpha c || c = byte '_'

def isIdentifierContinue (c : UInt8) : Bool := isAlnum c || c = byte '_'

/-! ## The state -/

/-- The position after a byte. -/
def SourcePosition.after (position : SourcePosition) (c : UInt8) : SourcePosition :=
  { offset := position.offset + 1
    line := if c = byte '\n' then position.line + 1 else position.line
    column := if c = byte '\n' then 1 else position.column + 1 }

/-- The state of a `Lexer`: what is left of the source at its position, and the diagnostics. -/
structure Lexer where
  source : List UInt8
  position : SourcePosition := {}
  diagnostics : List Diagnostic := []

/-- `advance`. -/
def Lexer.advance (lexer : Lexer) : Lexer :=
  match lexer.source with
  | [] => lexer
  | c :: source => { lexer with source := source, position := lexer.position.after c }

/-- The loop `while (!at_end() && test(peek())) advance();`. -/
def advanceWhile (test : UInt8 → Bool) :
    List UInt8 → SourcePosition → List UInt8 × SourcePosition
  | [], position => ([], position)
  | c :: source, position =>
    if test c then advanceWhile test source (position.after c) else (c :: source, position)

def Lexer.advanceWhile (test : UInt8 → Bool) (lexer : Lexer) : Lexer :=
  let (source, position) := Frontend.advanceWhile test lexer.source lexer.position
  { lexer with source, position }

/-- `source_.substr(begin, offset_ - begin)`, for the state at `begin`. -/
def Lexer.textTo (start finish : Lexer) : List UInt8 :=
  start.source.take (finish.position.offset - start.position.offset)

def Lexer.diagnose (lexer : Lexer) (position : SourcePosition) (message : String) : Lexer :=
  { lexer with diagnostics := addDiagnostic lexer.diagnostics position message }

theorem length_advanceWhile_le (test : UInt8 → Bool) : ∀ (source : List UInt8)
    (position : SourcePosition), (advanceWhile test source position).1.length ≤ source.length
  | [], _ => Nat.le_refl _
  | c :: source, position => by
    rw [advanceWhile]
    split
    · exact Nat.le_succ_of_le (length_advanceWhile_le test source _)
    · exact Nat.le_refl _

theorem Lexer.length_advanceWhile_le (test : UInt8 → Bool) (lexer : Lexer) :
    (lexer.advanceWhile test).source.length ≤ lexer.source.length :=
  Frontend.length_advanceWhile_le test lexer.source lexer.position

/-! ## Blanks and comments -/

/-- The start of a comment. -/
def startsComment : List UInt8 → Bool
  | c :: d :: _ => c = byte '/' && d = byte '/'
  | _ => false

/-- One round of the loop of `skip_ignored`. -/
def Lexer.skipRound (lexer : Lexer) : Lexer :=
  let blank := lexer.advanceWhile isSpace
  if startsComment blank.source then blank.advanceWhile (· ≠ byte '\n') else blank

theorem Lexer.length_skipRound_le (lexer : Lexer) :
    lexer.skipRound.source.length ≤ lexer.source.length := by
  have hblank := lexer.length_advanceWhile_le isSpace
  have hcomment := (lexer.advanceWhile isSpace).length_advanceWhile_le (· ≠ byte '\n')
  simp only [skipRound]
  split <;> omega

/-- `skip_ignored`: rounds until one makes no progress. -/
def Lexer.skipIgnored (lexer : Lexer) : Lexer :=
  if lexer.skipRound.source.length < lexer.source.length then lexer.skipRound.skipIgnored
  else lexer.skipRound
termination_by lexer.source.length

/-! ## Tokens -/

/-- The spellings `identifier` compares a word with, in its order. -/
def keywords : List (String × TokenKind) :=
  [("let", .let), ("type", .type), ("record", .record), ("variant", .variant),
   ("match", .match), ("try", .try), ("catch", .catch), ("throw", .throw),
   ("return", .return), ("fn", .fn), ("if", .if), ("else", .else), ("while", .while),
   ("for", .for), ("in", .in), ("break", .break), ("continue", .continue), ("true", .true),
   ("false", .false), ("nil", .nil), ("is_nil", .isNil), ("array", .array), ("map", .map),
   ("weak", .weak), ("ephemeron", .ephemeron), ("builder", .builder), ("print", .print),
   ("to_str", .toStr), ("to_i64", .toI64), ("intern", .intern), ("abs", .abs), ("min", .min),
   ("max", .max), ("i64", .i64), ("bool", .bool), ("str", .str), ("pair", .pair),
   ("left", .left), ("right", .right)]

/-- The operators of two bytes, in the order in which `lex` tests for them. -/
def twoByteOperators : List (String × TokenKind) :=
  [("->", .arrow), ("=>", .fatArrow), ("==", .equalEqual), ("!=", .bangEqual),
   ("<=", .lessEqual), (">=", .greaterEqual), ("..", .dotDot)]

/-- The cases of the `switch` of `lex`. -/
def oneByteOperators : List (String × TokenKind) :=
  [("+", .plus), ("<", .less), (">", .greater), ("=", .equal), (":", .colon),
   (";", .semicolon), (",", .comma), (".", .dot), ("(", .lParen), (")", .rParen),
   ("\x7b", .lBrace), ("\x7d", .rBrace), ("[", .lBracket), ("]", .rBracket)]

/-- The operator the source starts with, among operators of one size. -/
def findOperator (operators : List (String × TokenKind)) (source : List UInt8) :
    Option (String × TokenKind) :=
  operators.find? fun operator => (bytesOf operator.1).isPrefixOf source

/-- `simple`. -/
def simple (kind : TokenKind) (position : SourcePosition) (text : String) : Token :=
  { kind, position, text }

/-- `identifier`. -/
def Lexer.identifier (lexer : Lexer) : Token × Lexer :=
  let next := lexer.advanceWhile isIdentifierContinue
  let text := textOf (lexer.textTo next)
  let kind := ((keywords.find? fun keyword => keyword.1 = text).map (·.2)).getD .identifier
  ({ kind, position := lexer.position, text }, next)

/-- What an escape stands for. -/
def escapedByte (c : UInt8) : Option UInt8 :=
  if c = byte 'n' then some (byte '\n')
  else if c = byte 't' then some (byte '\t')
  else if c = byte '\\' then some (byte '\\')
  else if c = byte '"' then some (byte '"')
  else none

/-- The loop of `string_literal`. The result says whether the literal was terminated. -/
def stringLoop : List UInt8 → SourcePosition → List Diagnostic → List UInt8 →
    Bool × List UInt8 × Lexer
  | [], position, diagnostics, decoded => (false, decoded, { source := [], position, diagnostics })
  | c :: source, position, diagnostics, decoded =>
    if c = byte '"' then
      (true, decoded, { source, position := position.after c, diagnostics })
    else if c ≠ byte '\\' then
      stringLoop source (position.after c) diagnostics (decoded ++ [c])
    else
      match source with
      | [] => (false, decoded, { source := [], position := position.after c, diagnostics })
      | escaped :: source =>
        match escapedByte escaped with
        | some character =>
          stringLoop source ((position.after c).after escaped) diagnostics
            (decoded ++ [character])
        | none =>
          stringLoop source ((position.after c).after escaped)
            (addDiagnostic diagnostics position
              ("unsupported string escape '\\" ++ textOf [escaped] ++ "'")) decoded

/-- `string_literal`. -/
def Lexer.stringLiteral (lexer : Lexer) : Token × Lexer :=
  let opened := lexer.advance
  let (terminated, decoded, next) :=
    stringLoop opened.source opened.position opened.diagnostics []
  let next :=
    if terminated then next else next.diagnose lexer.position "unterminated string literal"
  ({ kind := .string, position := lexer.position, text := textOf decoded }, next)

/-- The value of a list of decimal digits. -/
def digitsValue (digits : List UInt8) : ℕ :=
  digits.foldl (fun value digit => 10 * value + (digit.toNat - (byte '0').toNat)) 0

/-- `std::from_chars` on a view that is an optional minus and digits: the value when it fits. -/
def fromChars (view : List UInt8) : Option Int64 :=
  let value : ℤ :=
    match view with
    | c :: digits => if c = byte '-' then -(digitsValue digits : ℤ) else digitsValue view
    | [] => 0
  if -2 ^ 63 ≤ value ∧ value < 2 ^ 63 then some (Int64.ofInt value) else none

/-- `integer`. -/
def Lexer.integer (lexer : Lexer) : Token × Lexer :=
  let signed := if lexer.source.head? = some (byte '-') then lexer.advance else lexer
  let next := signed.advanceWhile isDigit
  let view := lexer.textTo next
  let token (value : Int64) : Token :=
    { kind := .integer, position := lexer.position, text := textOf view, integer := value }
  match fromChars view with
  | some value => (token value, next)
  | none => (token 0, next.diagnose lexer.position "integer literal is outside i64 range")

/-- The body of the loop of `lex` after `skip_ignored`: the token at the lexer, or none where no
token starts. -/
def Lexer.scan (lexer : Lexer) : Option Token × Lexer :=
  match lexer.source with
  | [] => (none, lexer)
  | c :: source =>
    if isIdentifierStart c then
      let (token, next) := lexer.identifier
      (some token, next)
    else if c = byte '"' then
      let (token, next) := lexer.stringLiteral
      (some token, next)
    else
      match findOperator twoByteOperators lexer.source with
      | some (text, kind) => (some (simple kind lexer.position text), lexer.advance.advance)
      | none =>
        if isDigit c || (c = byte '-' && source.head?.any isDigit) then
          let (token, next) := lexer.integer
          (some token, next)
        else
          match findOperator oneByteOperators lexer.source with
          | some (text, kind) => (some (simple kind lexer.position text), lexer.advance)
          | none =>
            (none, lexer.advance.diagnose lexer.position
              ("unexpected character '" ++ textOf [c] ++ "'"))

/-! ## Progress -/

theorem Lexer.length_skipIgnored_le (lexer : Lexer) :
    lexer.skipIgnored.source.length ≤ lexer.source.length := by
  induction lexer using Lexer.skipIgnored.induct with
  | case1 lexer hprogress ih =>
    rw [skipIgnored, if_pos hprogress]
    omega
  | case2 lexer hprogress =>
    rw [skipIgnored, if_neg hprogress]
    exact lexer.length_skipRound_le

theorem Lexer.length_advance {lexer : Lexer} (h : lexer.source ≠ []) :
    lexer.advance.source.length < lexer.source.length := by
  cases lexer with
  | mk source =>
    cases source with
    | nil => exact absurd rfl h
    | cons c source => exact Nat.lt_succ_self _

theorem Lexer.length_advance_le (lexer : Lexer) :
    lexer.advance.source.length ≤ lexer.source.length := by
  cases lexer with
  | mk source => cases source <;> simp [advance]

@[simp] theorem Lexer.source_diagnose (lexer : Lexer) (position : SourcePosition)
    (message : String) : (lexer.diagnose position message).source = lexer.source := rfl

theorem length_stringLoop_le (source : List UInt8) (position : SourcePosition)
    (diagnostics : List Diagnostic) (decoded : List UInt8) :
    (stringLoop source position diagnostics decoded).2.2.source.length ≤ source.length := by
  fun_induction stringLoop source position diagnostics decoded <;> simp only [List.length_cons,
    List.length_nil] <;> omega

/-- A word, or a number without its sign, is at least one byte long. -/
theorem length_advanceWhile_lt {test : UInt8 → Bool} {lexer : Lexer} {c : UInt8}
    (hhead : lexer.source.head? = some c) (htest : test c = true) :
    (lexer.advanceWhile test).source.length < lexer.source.length := by
  cases lexer with
  | mk source position diagnostics =>
    cases source with
    | nil => nomatch hhead
    | cons d source =>
      cases Option.some.inj hhead
      simp only [Lexer.advanceWhile, advanceWhile, htest, if_true]
      exact Nat.lt_succ_of_le (length_advanceWhile_le test source _)

theorem isIdentifierContinue_of_start {c : UInt8} (h : isIdentifierStart c = true) :
    isIdentifierContinue c = true := by
  simp only [isIdentifierStart, isIdentifierContinue, isAlnum, Bool.or_eq_true] at h ⊢
  exact h.elim (fun halpha => .inl (.inl halpha)) .inr

theorem length_integer_lt {lexer : Lexer} {c : UInt8} {source : List UInt8}
    (hsource : lexer.source = c :: source)
    (hdigit : (isDigit c || (c = byte '-' && source.head?.any isDigit)) = true) :
    lexer.integer.2.source.length < lexer.source.length := by
  have hhead : lexer.source.head? = some c := by rw [hsource]; rfl
  have hnext : ((if lexer.source.head? = some (byte '-') then lexer.advance else lexer).advanceWhile
      isDigit).source.length < lexer.source.length := by
    split
    next hminus =>
      have hadvance : lexer.advance.source.length < lexer.source.length :=
        Lexer.length_advance (by simp [hsource])
      have hnumber := lexer.advance.length_advanceWhile_le isDigit
      omega
    next hminus =>
      have hc : c ≠ byte '-' := fun hc => hminus (by rw [hhead, hc])
      exact length_advanceWhile_lt hhead (by simpa [hc] using hdigit)
  simp only [Lexer.integer]
  split <;> simpa using hnext

/-- Every round of the loop of `lex` reads a byte. -/
theorem Lexer.length_scan_lt {lexer : Lexer} (h : lexer.source ≠ []) :
    lexer.scan.2.source.length < lexer.source.length := by
  have hadvance := length_advance h
  unfold scan
  split
  next hsource => exact absurd hsource h
  next c source hsource =>
    have hhead : lexer.source.head? = some c := by rw [hsource]; rfl
    split
    next hstart =>
      exact length_advanceWhile_lt hhead (isIdentifierContinue_of_start hstart)
    next =>
    split
    next =>
      have hloop := length_stringLoop_le lexer.advance.source lexer.advance.position
        lexer.advance.diagnostics []
      simp only [stringLiteral]
      split <;> exact Nat.lt_of_le_of_lt hloop hadvance
    next =>
    split
    next =>
      have hsecond := lexer.advance.length_advance_le
      show lexer.advance.advance.source.length < lexer.source.length
      omega
    next =>
    split
    next hdigit => exact length_integer_lt hsource hdigit
    next =>
    split <;> simpa using hadvance

/-- The loop of `lex`, with the tokens read so far. -/
def Lexer.lexLoop (lexer : Lexer) (tokens : List Token) : List Token × Lexer :=
  if lexer.source = [] then (tokens, lexer)
  else if _h : lexer.skipIgnored.source = [] then (tokens, lexer.skipIgnored)
  else lexer.skipIgnored.scan.2.lexLoop (tokens ++ lexer.skipIgnored.scan.1.toList)
termination_by lexer.source.length
decreasing_by
  have hskip := lexer.length_skipIgnored_le
  have hscan := Lexer.length_scan_lt _h
  omega

/-- `LexResult`. -/
structure LexResult where
  tokens : List Token
  diagnostics : List Diagnostic

/-- `lex_source`. -/
def lexSource (source : List UInt8) : LexResult :=
  let (tokens, lexer) := ({ source } : Lexer).lexLoop []
  { tokens := tokens ++ [{ kind := .end, position := lexer.position }]
    diagnostics := lexer.diagnostics }

end LanguageRuntime.Frontend

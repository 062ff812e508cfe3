import LanguageRuntime.Frontend.Lexer
import Mathlib.Data.List.Chain

/-!
# Written sources

What a source looks like to somebody who writes it: tokens with blanks and comments between
them. `Written` is one token the way it is written, `Rendering` a whole source, and each of
them says which bytes it is and which tokens are meant. Nothing here reads a byte.
-/

namespace LanguageRuntime.Frontend

/-! ## Positions -/

/-- The place after the given bytes: lines end at newlines, and a column counts the bytes of
its line. -/
def positionOf (before : List UInt8) : SourcePosition where
  offset := before.length
  line := before.count (byte '\n') + 1
  column := (before.reverse.takeWhile (· ≠ byte '\n')).length + 1

/-! ## Tokens -/

/-- The escapes of a string literal: the byte after the backslash and the byte meant. -/
def escapes : List (UInt8 × UInt8) :=
  [(byte 'n', byte '\n'), (byte 't', byte '\t'), (byte '\\', byte '\\'), (byte '"', byte '"')]

/-- A byte of a string as it is written in a literal. -/
inductive StringPiece where
  | raw (c : UInt8) (quote : c ≠ byte '"') (backslash : c ≠ byte '\\')
  | escape (entry : UInt8 × UInt8) (mem : entry ∈ escapes)

def StringPiece.bytes : StringPiece → List UInt8
  | .raw c _ _ => [c]
  | .escape entry _ => [byte '\\', entry.1]

def StringPiece.decoded : StringPiece → UInt8
  | .raw c _ _ => c
  | .escape entry _ => entry.2

/-- The value of a written integer. -/
def integerValue (negative : Bool) (digits : List UInt8) : ℤ :=
  if negative then -(digitsValue digits : ℤ) else digitsValue digits

/-- A token as it is written. -/
inductive Written where
  | keyword (entry : String × TokenKind) (mem : entry ∈ keywords)
  | identifier (start : UInt8) (rest : List UInt8) (hstart : isIdentifierStart start = true)
      (hrest : ∀ c ∈ rest, isIdentifierContinue c = true)
      (free : ∀ entry ∈ keywords, entry.1 ≠ textOf (start :: rest))
  | integer (negative : Bool) (digits : List UInt8) (nonempty : digits ≠ [])
      (hdigits : ∀ c ∈ digits, isDigit c = true)
      (range : -2 ^ 63 ≤ integerValue negative digits ∧ integerValue negative digits < 2 ^ 63)
  | string (pieces : List StringPiece)
  | operator (entry : String × TokenKind)
      (mem : entry ∈ twoByteOperators ++ oneByteOperators)

/-- The bytes of a written token. -/
def Written.bytes : Written → List UInt8
  | .keyword entry _ => bytesOf entry.1
  | .identifier start rest _ _ _ => start :: rest
  | .integer negative digits _ _ _ => if negative then byte '-' :: digits else digits
  | .string pieces => byte '"' :: (pieces.flatMap StringPiece.bytes ++ [byte '"'])
  | .operator entry _ => bytesOf entry.1

/-- The token that is meant, at a position. -/
def Written.token (position : SourcePosition) : Written → Token
  | .keyword entry _ => { kind := entry.2, position, text := entry.1 }
  | .identifier start rest _ _ _ =>
    { kind := .identifier, position, text := textOf (start :: rest) }
  | .integer negative digits _ _ _ =>
    { kind := .integer, position,
      text := textOf (if negative then byte '-' :: digits else digits),
      integer := Int64.ofInt (integerValue negative digits) }
  | .string pieces => { kind := .string, position, text := textOf (pieces.map (·.decoded)) }
  | .operator entry _ => { kind := entry.2, position, text := entry.1 }

/-- A byte that would belong to the token if it came right after it. -/
def Written.continuedBy (c : UInt8) : Written → Bool
  | .keyword _ _ | .identifier _ _ _ _ _ => isIdentifierContinue c
  | .integer _ _ _ _ _ => isDigit c
  | .string _ => false
  | .operator entry _ =>
    twoByteOperators.any fun longer => bytesOf longer.1 = bytesOf entry.1 ++ [c]

/-! ## Gaps -/

/-- A blank, or a comment with the newline that ends it. -/
inductive Gap where
  | blank (c : UInt8) (space : isSpace c = true)
  | comment (text : List UInt8) (line : ∀ c ∈ text, c ≠ byte '\n')

def commentBytes (text : List UInt8) : List UInt8 := byte '/' :: byte '/' :: text

def Gap.bytes : Gap → List UInt8
  | .blank c _ => [c]
  | .comment text _ => commentBytes text ++ [byte '\n']

/-! ## Sources -/

/-- A token after a gap. -/
structure Item where
  gap : List Gap
  token : Written

def Item.bytes (item : Item) : List UInt8 := item.gap.flatMap Gap.bytes ++ item.token.bytes

/-- Two tokens that follow one another have a gap between them, unless the first cannot be
read on into the second. -/
def Item.Separated (item next : Item) : Prop :=
  next.gap = [] → ∀ c, next.token.bytes.head? = some c → item.token.continuedBy c = false

/-- A written source. After the last token come a gap and a comment that the end of the source
may cut short. -/
structure Rendering where
  items : List Item
  separated : items.IsChain Item.Separated
  gap : List Gap
  comment : Option {text : List UInt8 // ∀ c ∈ text, c ≠ byte '\n'}

def Rendering.trailer (rendering : Rendering) : List UInt8 :=
  rendering.gap.flatMap Gap.bytes ++ (rendering.comment.map (commentBytes ·.1)).getD []

def Rendering.source (rendering : Rendering) : List UInt8 :=
  rendering.items.flatMap Item.bytes ++ rendering.trailer

/-- The tokens of the items, each at the place after its gap. -/
def itemTokens (before : List UInt8) : List Item → List Token
  | [] => []
  | item :: items =>
    item.token.token (positionOf (before ++ item.gap.flatMap Gap.bytes)) ::
      itemTokens (before ++ item.bytes) items

/-- The tokens of a source, with the end of the source last. -/
def Rendering.tokens (rendering : Rendering) : List Token :=
  itemTokens [] rendering.items ++
    [{ kind := .end, position := positionOf rendering.source }]

end LanguageRuntime.Frontend

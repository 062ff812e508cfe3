import LanguageRuntime.Frontend.Lexer
import LanguageRuntime.Library.Fuel

/-!
# The parser

`src/frontend/parser.cpp`. The tokens behind the parser's position are left out, except the
last of them; those ahead are a list that ends in `End`. A function of the source that calls
`parse_type`, `parse_expression` or `parse_statement` takes these three as an argument, and
`parsers` ties the knot with one unit of fuel for each call. A loop of the source spends one
unit for each turn.
-/

namespace LanguageRuntime.Frontend

open Library Library.Fuelled

structure Program where
  types : List TypeDecl := []
  genericTypes : List TypeDecl := []
  records : List RecordDecl := []
  genericRecords : List RecordDecl := []
  variants : List VariantDecl := []
  genericVariants : List VariantDecl := []
  functions : List FunctionDecl := []
  genericFunctions : List FunctionDecl := []
  lambdas : List LambdaExpr := []
  statements : List Statement := []
  result : Option Expr := none
  entryLocalCount : ℕ := 0
  pairSiteCount : ℕ := 0

structure ParseResult where
  program : Option Program := none
  diagnostics : List Diagnostic := []

/-- The members of `Parser`. Before the first token `previous` is an `End` token. -/
structure ParserState where
  previous : Token := {}
  tokens : List Token
  recursionDepth : ℕ := 0
  nextPairSite : ℕ := 0
  nextFunctionDeclarationOrder : ℕ := 0
  nextTypeDeclarationOrder : ℕ := 0
  recordNames : List String := []
  genericFunctionNames : List String := []
  genericNominalNames : List String := []
  genericRecordNames : List String := []
  activeTypeParameters : List TypeParameterDecl := []
  lambdas : List LambdaExpr := []
  allowRecordLiteral : Bool := true
  diagnostics : List Diagnostic := []

/-- The loops of the parser, apart from those that only look ahead or skip tokens. -/
inductive Loop where
  | declarations
  | statements
  | body
  | block
  | arms
  | list
  | places
  | equality
  | comparison
  | addition
  | suffixes
deriving DecidableEq, Repr

abbrev ParserM := Fuelled Loop ParserState

/-! ## Tokens -/

/-- `peek`, at the tokens ahead. -/
def nextToken (tokens : List Token) : Token := tokens.headD {}

def nextKind (tokens : List Token) : TokenKind := (nextToken tokens).kind

/-- `check_next`. -/
def checkNext (kind : TokenKind) (tokens : List Token) : Bool :=
  tokens[1]?.any fun token => token.kind = kind

def peek : ParserM Token := read fun s => nextToken s.tokens

def check (kind : TokenKind) : ParserM Bool := read fun s => nextKind s.tokens = kind

/-- `++current_`. -/
def ParserState.advance (s : ParserState) : ParserState :=
  match s.tokens with
  | [] => s
  | token :: tokens => { s with previous := token, tokens := tokens }

/-- `if (!at_end()) { ++current_; }`. -/
def advanceUnlessEnd : ParserM Unit :=
  change fun s => if nextKind s.tokens = .end then s else s.advance

/-- `if (test) { ++current_; … } else …`, where the token that is passed over is given to the
branch that passes it. -/
def ifAhead {α : Type} (test : List Token → Bool) (passed : Token → ParserM α)
    (otherwise : ParserM α) : ParserM α := do
  if ← read fun s => test s.tokens then
    let token ← peek
    change ParserState.advance
    passed token
  else otherwise

/-- `if (match(kind)) … else …`, or the same with several kinds. -/
def ifMatch {α : Type} (kinds : List TokenKind) (passed : Token → ParserM α)
    (otherwise : ParserM α) : ParserM α :=
  ifAhead (fun tokens => kinds.contains (nextKind tokens)) passed otherwise

def diagnose (position : SourcePosition) (message : String) : ParserM Unit :=
  change fun s => { s with diagnostics := addDiagnostic s.diagnostics position message }

/-- A diagnostic at the next token. -/
def diagnoseNext (message : String) : ParserM Unit := do
  let token ← peek
  diagnose token.position message

def expect (kind : TokenKind) (message : String) : ParserM (Option Token) :=
  ifMatch [kind] (fun token => pure (some token)) do
    diagnoseNext message
    pure none

/-- `if (!result && diagnostics_.empty()) …`. -/
def requireResult (result : Option Expr) (message : String) : ParserM Unit := do
  let diagnostics ← read ParserState.diagnostics
  if result.isNone ∧ diagnostics.isEmpty then diagnoseNext message else pure ()

/-- `if (program.result) { expect(TokenKind::End, …); }`. -/
def expectEnd (result : Option Expr) : ParserM Unit := do
  if result.isSome then
    let _ ← expect .end "expected end of input after final expression"
    pure ()
  else pure ()

def fieldNameKinds : List TokenKind := [.identifier, .left, .right]

def expectFieldName (message : String) : ParserM (Option Token) :=
  ifMatch fieldNameKinds (fun token => pure (some token)) do
    diagnoseNext message
    pure none

/-- The tokens at which `synchronize` stops. -/
def synchronizeKinds : List TokenKind :=
  [.type, .record, .variant, .fn, .let, .if, .while, .for, .print, .return, .rBrace]

/-- The loop of `synchronize`. -/
def skipTokens : Token → List Token → Token × List Token
  | previous, [] => (previous, [])
  | previous, token :: tokens =>
    if token.kind = .end || previous.kind = .semicolon ||
        synchronizeKinds.contains token.kind then
      (previous, token :: tokens)
    else skipTokens token tokens

def synchronize : ParserM Unit :=
  change fun s =>
    { s with previous := (skipTokens s.previous s.tokens).1
             tokens := (skipTokens s.previous s.tokens).2 }

/-! ## Lists -/

/-- The end of a turn over a list: it goes on after a comma, but not before the closing token
if one is given. -/
def listTurnEnd {α : Type} (closing : Option TokenKind) (items : List α) :
    ParserM (Turn (List α) (List α)) :=
  ifMatch [.comma]
    (fun _ => do
      let token ← peek
      if closing = some token.kind then pure (.leave items) else pure (.again items))
    (pure (.leave items))

/-- `do { … } while (match(Comma));`, or with a closing token that may follow the comma:
`do { … } while (match(Comma) && !check(closing));`. -/
def commaSeparated {α : Type} (n : ℕ) (closing : Option TokenKind) (item : ParserM α) :
    ParserM (List α) :=
  loop .list n (fun items => do
    let a ← item
    listTurnEnd closing (items ++ [a])) []

/-- `if (!check(close)) { do { … } while (match(Comma)); }`. -/
def listUntil {α : Type} (n : ℕ) (close : TokenKind) (item : ParserM α) : ParserM (List α) := do
  if ← check close then pure [] else commaSeparated n none item

/-- The same with a closing token that may follow the comma. -/
def trailingListUntil {α : Type} (n : ℕ) (close : TokenKind) (item : ParserM α) :
    ParserM (List α) := do
  if ← check close then pure [] else commaSeparated n (some close) item

/-- A list that has to have an item: a diagnostic if it is closed at once. -/
def nonemptyListUntil {α : Type} (n : ℕ) (close : TokenKind) (emptyMessage : String)
    (item : ParserM α) : ParserM (List α) := do
  if ← check close then
    diagnoseNext emptyMessage
    pure []
  else commaSeparated n none item

/-! ## Looking ahead -/

def looksLikeRecordLiteral (recordNames : List String) (identifier : Token)
    (tokens : List Token) : Bool :=
  nextKind tokens = .lBrace &&
    (recordNames.contains identifier.text ||
      tokens[1]?.any (fun token => fieldNameKinds.contains token.kind) &&
        tokens[2]?.any fun token => token.kind = .colon)

/-- `label_prefix_ahead`. -/
def labelAhead : List Token → Bool
  | token :: next :: _ => token.kind = .identifier && next.kind = .colon
  | _ => false

/-- An identifier, a dot, one of the methods and an opening parenthesis. -/
def methodAhead (methods : List String) : List Token → Bool
  | token :: dot :: method :: paren :: _ =>
    token.kind = .identifier && dot.kind = .dot && method.kind = .identifier &&
      methods.contains method.text && paren.kind = .lParen
  | _ => false

def ephemeronSetAhead : List Token → Bool := methodAhead ["set_value"]

def builderMutationAhead : List Token → Bool := methodAhead ["append", "clear"]

/-- The loops of `assignment_ahead`. The first argument counts the brackets that are open. -/
def equalAhead : ℕ → List Token → Bool
  | 0, dot :: token :: tokens =>
    if dot.kind = .dot && fieldNameKinds.contains token.kind then equalAhead 0 tokens
    else if dot.kind = .lBracket then equalAhead 1 (token :: tokens)
    else dot.kind = .equal
  | 0, [token] => if token.kind = .lBracket then equalAhead 1 [] else token.kind = .equal
  | 0, [] => false
  | depth + 1, token :: tokens =>
    if token.kind = .lBracket then equalAhead (depth + 2) tokens
    else if token.kind = .rBracket then equalAhead depth tokens
    else equalAhead (depth + 1) tokens
  | _ + 1, [] => false

def assignmentAhead (tokens : List Token) : Bool :=
  nextKind tokens = .identifier && equalAhead 0 tokens.tail

/-- The keywords a statement starts with. -/
def statementKinds : List TokenKind :=
  [.let, .if, .while, .for, .match, .try, .throw, .return, .break, .continue, .print]

def startsStatement (tokens : List Token) : Bool :=
  labelAhead tokens || statementKinds.contains (nextKind tokens) || assignmentAhead tokens ||
    ephemeronSetAhead tokens || builderMutationAhead tokens

/-! ## Recursion -/

/-- The functions of the parser that recurse. -/
structure Parsers where
  type : ParserM TypeSpec
  expression : ParserM Expr
  statement : ParserM (Option Statement)

def kMaxRecursionDepth : ℕ := 256

/-- `++recursion_depth_`. -/
def ParserState.enter (s : ParserState) : ParserState :=
  { s with recursionDepth := s.recursionDepth + 1 }

/-- The destructor of `DepthGuard`. -/
def ParserState.exit (s : ParserState) : ParserState :=
  { s with recursionDepth := s.recursionDepth - 1 }

/-- The guard of a recursive function: what it does at the greatest depth, and its body with
`recursion_depth_` one greater. -/
def guarded {α : Type} (tooDeep body : ParserM α) : ParserM α := do
  if ← read fun s => decide (kMaxRecursionDepth ≤ s.recursionDepth) then tooDeep
  else
    change ParserState.enter
    let a ← body
    change ParserState.exit
    pure a

section Parsing

variable (n : ℕ) (p : Parsers)

/-! ## Types -/

def parseTypeArguments : ParserM (List TypeSpec) := do
  let _ ← expect .less "expected '<' before type arguments"
  let arguments ← nonemptyListUntil n .greater
    "generic type application requires at least one type argument" p.type
  let _ ← expect .greater "expected '>' after type arguments"
  pure arguments

/-- The `[` has been passed. -/
def parseArrayType (token : Token) : ParserM TypeSpec := do
  let element ← p.type
  let _ ← expect .rBracket "expected ']' after array element type"
  pure { kind := .array, element := some element, position := token.position }

def parseMapType (token : Token) : ParserM TypeSpec := do
  let _ ← expect .less "expected '<' after 'map'"
  let key ← p.type
  let _ ← expect .comma "expected ',' between map key and value types"
  let value ← p.type
  let _ ← expect .greater "expected '>' after map value type"
  pure { kind := .map, key := some key, value := some value, position := token.position }

def parseWeakType (token : Token) : ParserM TypeSpec := do
  let _ ← expect .less "expected '<' after 'weak'"
  let target ← p.type
  let _ ← expect .greater "expected '>' after weak target type"
  pure { kind := .weak, weakTarget := some target, position := token.position }

def parseEphemeronType (token : Token) : ParserM TypeSpec := do
  let _ ← expect .less "expected '<' after 'ephemeron'"
  let key ← p.type
  let _ ← expect .comma "expected ',' between ephemeron key and value types"
  let value ← p.type
  let _ ← expect .greater "expected '>' after ephemeron value type"
  pure { kind := .ephemeron, key := some key, value := some value, position := token.position }

def parseFunctionType (token : Token) : ParserM TypeSpec := do
  let _ ← expect .lParen "expected '(' after 'fn' in function type"
  let parameters ← listUntil n .rParen p.type
  let _ ← expect .rParen "expected ')' after function parameter types"
  let _ ← expect .arrow "expected '->' in function type"
  let result ← p.type
  pure { kind := .function, functionParameters := parameters, functionReturn := some result
         position := token.position }

def parsePairType (token : Token) : ParserM TypeSpec :=
  ifMatch [.less]
    (fun _ => do
      let left ← p.type
      let _ ← expect .comma "expected ',' between pair field types"
      let right ← p.type
      let _ ← expect .greater "expected '>' after pair field types"
      pure { kind := .pair, left := some left, right := some right, position := token.position })
    (pure { kind := .pair, position := token.position })

/-- The first active type parameter of a name. -/
def parameterType (parameters : List TypeParameterDecl) (identifier : Token) : TypeSpec :=
  match parameters.find? fun parameter => parameter.name = identifier.text with
  | some parameter => typeParameterType parameter.name parameter.index identifier.position
  | none => { kind := .named, name := identifier.text, position := identifier.position }

def parseNamedType (identifier : Token) : ParserM TypeSpec := do
  if ← check .less then
    let arguments ← parseTypeArguments n p
    pure { kind := .named, name := identifier.text, position := identifier.position
           genericArguments := arguments }
  else
    let parameters ← read ParserState.activeTypeParameters
    pure (parameterType parameters identifier)

/-- `parse_type` under its guard. -/
def parseTypeBody : ParserM TypeSpec :=
  ifMatch [.lBracket] (parseArrayType p) <|
  ifMatch [.i64] (fun token => pure { int64Type with position := token.position }) <|
  ifMatch [.bool] (fun token => pure { boolType with position := token.position }) <|
  ifMatch [.str] (fun token => pure { kind := .str, position := token.position }) <|
  ifMatch [.builder] (fun token => pure { kind := .builder, position := token.position }) <|
  ifMatch [.map] (parseMapType p) <|
  ifMatch [.weak] (parseWeakType p) <|
  ifMatch [.ephemeron] (parseEphemeronType p) <|
  ifMatch [.fn] (parseFunctionType n p) <|
  ifMatch [.pair] (parsePairType p) <|
  ifMatch [.identifier] (parseNamedType n p) do
    diagnoseNext "expected type 'i64', 'bool', 'str', 'pair', 'map', function type, array type, or named type"
    pure invalidType

def parseType : ParserM TypeSpec :=
  guarded
    (do
      diagnoseNext "type nesting exceeds the maximum supported depth"
      advanceUnlessEnd
      pure invalidType)
    (parseTypeBody n p)

/-! ## Statements and blocks -/

/-- A statement is added to those of its block, or `synchronize` is called. -/
def parseNextStatement (statements : List Statement) : ParserM (List Statement) := do
  match ← p.statement with
  | some statement => pure (statements ++ [statement])
  | none =>
    synchronize
    pure statements

/-- A turn of the loop of a function body or a lambda body: statements and then an
expression. -/
def parseBodyTurn (statements : List Statement) :
    ParserM (Turn (List Statement) (List Statement × Option Expr)) := do
  let kind := nextKind (← read ParserState.tokens)
  if kind = .rBrace ∨ kind = .end then pure (.leave (statements, none))
  else if startsStatement (← read ParserState.tokens) then
    pure (.again (← parseNextStatement p statements))
  else
    let result ← p.expression
    pure (.leave (statements, some result))

def parseBody : ParserM (List Statement × Option Expr) := loop .body n (parseBodyTurn p) []

/-- A turn of the loop of `parse_block`. -/
def parseBlockTurn (statements : List Statement) :
    ParserM (Turn (List Statement) (List Statement)) := do
  let kind := nextKind (← read ParserState.tokens)
  if kind = .rBrace ∨ kind = .end then pure (.leave statements)
  else pure (.again (← parseNextStatement p statements))

def parseBlock (openMessage : String) : ParserM (List Statement) := do
  match ← expect .lBrace openMessage with
  | none => pure []
  | some _ =>
    let statements ← loop .block n (parseBlockTurn p) []
    let _ ← expect .rBrace "expected '\x7d' after block"
    pure statements

/-! ## Expressions -/

/-- `if (!check(RParen)) { do … while (match(Comma)); }` over expressions, and the parenthesis
that closes them. -/
def parseArguments (closeMessage : String) : ParserM (List Expr) := do
  let arguments ← listUntil n .rParen p.expression
  let _ ← expect .rParen closeMessage
  pure arguments

/-- `name: type`, of a parameter. -/
def parseParameter (nameMessage colonMessage : String) : ParserM Parameter := do
  let name ← expect .identifier nameMessage
  let _ ← expect .colon colonMessage
  let type ← p.type
  pure { name := (name.map Token.text).getD "", position := (name.map Token.position).getD {}
         type := type }

/-- `lambdas_.push_back(lambda)`. -/
def ParserState.collect (s : ParserState) (lambda : LambdaExpr) : ParserState :=
  { s with lambdas := s.lambdas ++ [lambda] }

/-- The `fn` has been passed. -/
def parseLambda (fnToken : Token) : ParserM Expr := do
  let _ ← expect .lParen "expected '(' after 'fn' in lambda"
  let parameters ← listUntil n .rParen
    (parseParameter p "expected lambda parameter name" "expected ':' after lambda parameter name")
  let _ ← expect .rParen "expected ')' after lambda parameters"
  let _ ← expect .arrow "expected '->' before lambda return type"
  let returnType ← p.type
  let _ ← expect .lBrace "expected '\x7b' before lambda body"
  let (statements, result) ← parseBody n p
  requireResult result "lambda body must end with an expression"
  let _ ← expect .rBrace "expected '\x7d' after lambda body"
  let lambda : LambdaExpr :=
    { position := fnToken.position, parameters, returnType, statements, result }
  change fun s => s.collect lambda
  pure { kind := .lambda, position := fnToken.position, lambda := some lambda }

/-- A constructor that takes one operand between parentheses, the operand in `receiver`. -/
def parseOperand (kind : Expr.Kind) (openMessage closeMessage : String) (token : Token) :
    ParserM Expr := do
  let _ ← expect .lParen openMessage
  let receiver ← p.expression
  let _ ← expect .rParen closeMessage
  pure { kind, position := token.position, receiver := some receiver }

/-- A constructor that takes two operands between parentheses. -/
def parseTwoOperands (expression : Expr) (openMessage commaMessage closeMessage : String) :
    ParserM Expr := do
  let _ ← expect .lParen openMessage
  let left ← p.expression
  let _ ← expect .comma commaMessage
  let right ← p.expression
  let _ ← expect .rParen closeMessage
  pure { expression with left := some left, right := some right }

/-- A built-in function that takes a list of operands. -/
def parseBuiltin (kind : Expr.Kind) (openMessage closeMessage : String) (token : Token) :
    ParserM Expr := do
  let _ ← expect .lParen openMessage
  let arguments ← parseArguments n p closeMessage
  pure { kind, position := token.position, arguments }

/-- The fields of a record literal and the brace that closes it. -/
def parseRecordFields (expression : Expr) : ParserM Expr := do
  let fields ← trailingListUntil n .rBrace do
    let field ← expectFieldName "expected record initializer field name"
    let _ ← expect .colon "expected ':' after record initializer field name"
    let argument ← p.expression
    pure (field, argument)
  let _ ← expect .rBrace "expected '\x7d' after record initializer fields"
  let names := fields.filterMap Prod.fst
  pure { expression with
    kind := .recordLiteral
    fieldNames := names.map Token.text
    fieldPositions := names.map Token.position
    arguments := fields.map Prod.snd }

/-- An identifier, or `left` or `right`, has been passed. -/
def parseIdentifier (identifier : Token) : ParserM Expr := do
  let named : Expr :=
    { kind := .variable, position := identifier.position, name := identifier.text }
  let s ← read id
  if identifier.kind = .identifier ∧ s.genericNominalNames.contains identifier.text ∧
      nextKind s.tokens = .less then
    let typeArguments ← parseTypeArguments n p
    let generic := { named with explicitTypeArguments := typeArguments }
    if s.genericRecordNames.contains identifier.text then
      ifMatch [.lBrace] (fun _ => parseRecordFields n p generic) (pure generic)
    else pure generic
  else if identifier.kind = .identifier ∧ s.allowRecordLiteral ∧
      looksLikeRecordLiteral s.recordNames identifier s.tokens then
    ifMatch [.lBrace] (fun _ => parseRecordFields n p named) (pure named)
  else pure named

/-- `pair(…)`. The site is numbered before the operands. -/
def parsePair (token : Token) : ParserM Expr := do
  let site ← read ParserState.nextPairSite
  change fun s => { s with nextPairSite := s.nextPairSite + 1 }
  parseTwoOperands p { kind := .pairLiteral, position := token.position, pairSite := site }
    "expected '(' after 'pair'" "expected ',' between pair fields" "expected ')' after pair fields"

/-- `array<…>(…, …)`. -/
def parseSizedArray (token : Token) : ParserM Expr := do
  let _ ← expect .less "expected '<' after 'array'"
  let elementType ← p.type
  let _ ← expect .greater "expected '>' after array element type"
  parseTwoOperands p
    { kind := .arraySized, position := token.position, arrayElementType := elementType }
    "expected '(' after array element type" "expected ',' between array length and initializer"
    "expected ')' after array initializer"

/-- `map<…, …>()`. -/
def parseEmptyMap (token : Token) : ParserM Expr := do
  let _ ← expect .less "expected '<' after 'map'"
  let keyType ← p.type
  let _ ← expect .comma "expected ',' between map key and value types"
  let valueType ← p.type
  let _ ← expect .greater "expected '>' after map value type"
  let _ ← expect .lParen "expected '(' after map type"
  let _ ← expect .rParen "empty map constructor takes no arguments"
  pure { kind := .mapEmpty, position := token.position, mapKeyType := keyType
         mapValueType := valueType }

def parseArrayLiteral (token : Token) : ParserM Expr := do
  let arguments ← listUntil n .rBracket p.expression
  let _ ← expect .rBracket "expected ']' after array literal"
  pure { kind := .arrayLiteral, position := token.position, arguments }

def parseParenthesized : ParserM Expr := do
  let expression ← p.expression
  let _ ← expect .rParen "expected ')' after expression"
  pure expression

/-- The kind of `abs`, `min` and `max`. -/
def arithmeticKind : TokenKind → Expr.Kind
  | .abs => .abs
  | .min => .min
  | _ => .max

def parseArithmetic (token : Token) : ParserM Expr :=
  parseBuiltin n p (arithmeticKind token.kind) ("expected '(' after '" ++ token.text ++ "'")
    ("expected ')' after " ++ token.text ++ " arguments") token

def parsePrimary : ParserM Expr :=
  ifMatch [.fn] (parseLambda n p) <|
  ifMatch [.integer] (fun token =>
    pure { kind := .intLiteral, position := token.position, intValue := token.integer }) <|
  ifMatch [.true, .false] (fun token =>
    pure { kind := .boolLiteral, position := token.position, boolValue := token.kind = .true }) <|
  ifMatch [.string] (fun token =>
    pure { kind := .stringLiteral, position := token.position, stringValue := token.text }) <|
  ifMatch [.nil] (fun token => pure { kind := .nilLiteral, position := token.position }) <|
  ifMatch [.isNil] (parseOperand p .isNil "expected '(' after 'is_nil'"
    "expected ')' after is_nil operand") <|
  ifMatch [.weak] (parseOperand p .weakConstruct "expected '(' after 'weak'"
    "expected ')' after weak target") <|
  ifMatch [.ephemeron] (fun token =>
    parseTwoOperands p { kind := .ephemeronConstruct, position := token.position }
      "expected '(' after 'ephemeron'" "expected ',' between ephemeron key and value"
      "expected ')' after ephemeron value") <|
  ifMatch [.builder] (parseBuiltin n p .builderConstruct "expected '(' after 'builder'"
    "expected ')' after builder arguments") <|
  ifMatch [.intern] (parseOperand p .intern "expected '(' after 'intern'"
    "expected ')' after intern operand") <|
  ifMatch [.abs, .min, .max] (parseArithmetic n p) <|
  ifMatch [.toStr] (parseOperand p .toStr "expected '(' after 'to_str'"
    "expected ')' after to_str operand") <|
  ifMatch [.toI64] (parseOperand p .toI64 "expected '(' after 'to_i64'"
    "expected ')' after to_i64 operand") <|
  ifMatch fieldNameKinds (parseIdentifier n p) <|
  ifMatch [.pair] (parsePair p) <|
  ifMatch [.array] (parseSizedArray p) <|
  ifMatch [.map] (parseEmptyMap p) <|
  ifMatch [.lBracket] (parseArrayLiteral n p) <|
  ifMatch [.lParen] (fun _ => parseParenthesized p) do
    diagnoseNext "expected expression"
    let token ← peek
    advanceUnlessEnd
    pure { kind := .intLiteral, position := token.position, inferredType := invalidType }

/-- `f<…>(…)`; the `<` has been passed. -/
def parseGenericCall (expression : Expr) (token : Token) : ParserM Expr := do
  let typeArguments ← nonemptyListUntil n .greater
    "generic call requires at least one type argument" p.type
  let _ ← expect .greater "expected '>' after explicit type arguments"
  let _ ← expect .lParen "expected '(' after explicit type arguments"
  let arguments ← parseArguments n p "expected ')' after call arguments"
  pure { kind := .call, position := expression.position, typeArgumentsPosition := token.position
         receiver := some expression, explicitTypeArguments := typeArguments, arguments }

/-- A method name of the given kind, one of the names if it is an identifier, and an opening
parenthesis. -/
def memberCallAhead (kind : TokenKind) (methods : List String) (tokens : List Token) : Bool :=
  nextKind tokens = kind && (kind != .identifier || methods.contains (nextToken tokens).text) &&
    checkNext .lParen tokens

/-- A method that takes a list of arguments; its name has been passed. -/
def parseMethod (kind : Expr.Kind) (expression : Expr) (method : String) (token : Token) :
    ParserM Expr := do
  let _ ← expect .lParen ("expected '(' after '" ++ method ++ "'")
  let arguments ← parseArguments n p ("expected ')' after " ++ method ++ " arguments")
  pure { kind, position := token.position, receiver := some expression, arguments }

/-- A method without arguments; its name has been passed. -/
def parseGetter (kind : Expr.Kind) (expression : Expr) (openMessage closeMessage : String)
    (token : Token) : ParserM Expr := do
  let _ ← expect .lParen openMessage
  let _ ← expect .rParen closeMessage
  pure { kind, position := token.position, receiver := some expression }

def parseHas (expression : Expr) (token : Token) : ParserM Expr := do
  let _ ← expect .lParen "expected '(' after 'has'"
  let left ← p.expression
  let _ ← expect .rParen "expected ')' after map key"
  pure { kind := .mapHas, position := token.position, receiver := some expression
         left := some left }

def fieldOf (expression : Expr) (token : Token) : Expr :=
  { kind := .field, position := token.position, name := token.text, receiver := some expression }

/-- The kind of a search in a string. -/
def searchKind (method : String) : Expr.Kind :=
  if method = "contains" then .strContains
  else if method = "index_of" then .strIndexOf
  else if method = "starts_with" then .strStartsWith
  else .strEndsWith

/-- What follows a dot, or nothing after a diagnostic. -/
def parseMember (expression : Expr) : ParserM (Turn Expr Expr) :=
  ifMatch [.left, .right] (fun token => pure (.again (fieldOf expression token))) <|
  ifAhead (memberCallAhead .identifier ["has"]) (fun token => do
    pure (.again (← parseHas p expression token))) <|
  ifAhead (memberCallAhead .identifier ["get"]) (fun token => do
    pure (.again (← parseGetter .weakGet expression "expected '(' after 'get'"
      "weak get takes no arguments" token))) <|
  ifAhead (memberCallAhead .identifier ["key", "value"]) (fun token => do
    pure (.again (← parseGetter (if token.text = "key" then .ephemeronKey else .ephemeronValue)
      expression "expected '(' after ephemeron getter" "ephemeron getter takes no arguments"
      token))) <|
  ifAhead (memberCallAhead .toStr []) (fun token => do
    pure (.again (← parseMethod n p .builderToStr expression "to_str" token))) <|
  ifAhead (memberCallAhead .identifier ["sub"]) (fun token => do
    pure (.again (← parseMethod n p .strSub expression "sub" token))) <|
  ifAhead (memberCallAhead .identifier ["contains", "index_of", "starts_with", "ends_with"])
    (fun token => do
      pure (.again (← parseMethod n p (searchKind token.text) expression token.text token))) <|
  ifMatch [.identifier] (fun token => pure (.again (fieldOf expression token))) do
    diagnoseNext "expected field name or method"
    pure (.leave expression)

def parseIndex (expression : Expr) (token : Token) : ParserM Expr := do
  let left ← p.expression
  let _ ← expect .rBracket "expected ']' after array index"
  pure { kind := .arrayIndex, position := token.position, receiver := some expression
         left := some left }

def parseCall (expression : Expr) : ParserM Expr := do
  let arguments ← parseArguments n p "expected ')' after call arguments"
  pure { kind := .call, position := expression.position, receiver := some expression, arguments }

/-- The turn of the loop of `parse_postfix` on anything but an explicit generic call. -/
def parseSuffix (expression : Expr) : ParserM (Turn Expr Expr) :=
  ifMatch [.dot] (fun _ => parseMember n p expression) <|
  ifMatch [.lBracket] (fun token => do pure (.again (← parseIndex p expression token))) <|
  ifMatch [.lParen] (fun _ => do pure (.again (← parseCall n p expression))) <|
  pure (.leave expression)

def parsePostfixTurn (expression : Expr) : ParserM (Turn Expr Expr) := do
  let genericNames ← read ParserState.genericFunctionNames
  if expression.kind = .variable ∧ genericNames.contains expression.name then
    ifMatch [.less]
      (fun token => do pure (.again (← parseGenericCall n p expression token)))
      (parseSuffix n p expression)
  else parseSuffix n p expression

def parsePostfix : ParserM Expr := do
  let expression ← parsePrimary n p
  loop .suffixes n (parsePostfixTurn n p) expression

/-- `binary_op` of an operator. -/
def operatorByte : TokenKind → UInt8
  | .equalEqual => byte '='
  | .bangEqual => byte '!'
  | .less => byte '<'
  | .lessEqual => byte 'L'
  | .greater => byte '>'
  | .greaterEqual => byte 'G'
  | _ => byte '+'

/-- The node of an operator and its operands. -/
def binaryOf (operation : Token) (left right : Expr) : Expr :=
  { kind := .binary, position := left.position, operatorPosition := operation.position
    binaryOp := operatorByte operation.kind, left := some left, right := some right }

def parseChainTurn (operators : List TokenKind) (operand : ParserM Expr) (expression : Expr) :
    ParserM (Turn Expr Expr) :=
  ifMatch operators
    (fun operation => do
      let right ← operand
      pure (.again (binaryOf operation expression right)))
    (pure (.leave expression))

/-- A chain of operators of one precedence, from the left. -/
def parseChain (kind : Loop) (operators : List TokenKind) (operand : ParserM Expr) :
    ParserM Expr := do
  let expression ← operand
  loop kind n (parseChainTurn operators operand) expression

def parseAddition : ParserM Expr := parseChain n .addition [.plus] (parsePostfix n p)

def parseComparison : ParserM Expr :=
  parseChain n .comparison [.less, .lessEqual, .greater, .greaterEqual] (parseAddition n p)

def parseEquality : ParserM Expr :=
  parseChain n .equality [.equalEqual, .bangEqual] (parseComparison n p)

def parseExpression : ParserM Expr :=
  guarded
    (do
      diagnoseNext "expression nesting exceeds the maximum supported depth"
      let token ← peek
      advanceUnlessEnd
      pure { kind := .intLiteral, position := token.position, inferredType := invalidType })
    (parseEquality n p)

/-! ## Statements -/

def parseLet (letToken : Token) : ParserM Statement := do
  let name ← expect .identifier "expected local name after 'let'"
  let _ ← expect .colon "expected ':' after local name"
  let declaredType ← p.type
  let equals ← expect .equal "let declarations require an initializer"
  let initializer ← p.expression
  let _ ← expect .semicolon "expected ';' after let declaration"
  pure { kind := .let, position := letToken.position, target := {}
         name := (name.map Token.text).getD "", declaredType
         equalsPosition := (equals.map Token.position).getD {}, initializer := some initializer }

/-- A step of an assignment's target, if its name was there. -/
def fieldStep (field : Option Token) : List LValueStep :=
  field.toList.map fun token =>
    { kind := .field, name := token.text, position := token.position }

def parseLvalueTurn (steps : List LValueStep) :
    ParserM (Turn (List LValueStep) (List LValueStep)) :=
  ifMatch [.dot]
    (fun _ => do
      let field ← expectFieldName "expected field name"
      pure (.again (steps ++ fieldStep field))) <|
  ifMatch [.lBracket]
    (fun token => do
      let index ← p.expression
      let _ ← expect .rBracket "expected ']' after array index"
      pure (.again
        (steps ++ [{ kind := .index, position := token.position, index := some index }]))) <|
  pure (.leave steps)

def parseLvalue : ParserM LValue := do
  let name ← expect .identifier "expected assignment target"
  let steps ← loop .places n (parseLvalueTurn p) []
  pure { baseName := (name.map Token.text).getD ""
         basePosition := (name.map Token.position).getD {}, steps }

def parseAssignment : ParserM Statement := do
  let token ← peek
  let target ← parseLvalue n p
  let equals ← expect .equal "expected '=' in assignment"
  let value ← p.expression
  let _ ← expect .semicolon "expected ';' after assignment"
  pure { kind := .assign, position := token.position, target
         equalsPosition := (equals.map Token.position).getD {}, value := some value }

def parseIf (ifToken : Token) : ParserM Statement := do
  let condition ← p.expression
  let thenBranch ← parseBlock n p "expected '\x7b' before if body"
  let elseBranch ← ifMatch [.else] (fun _ => parseBlock n p "expected '\x7b' before else body") do
    diagnoseNext "if statements require an else branch"
    pure []
  pure { kind := .if, position := ifToken.position, target := {}, condition := some condition
         thenBranch, elseBranch }

/-- `allow_record_literal_` is turned off while a part of a statement is parsed. -/
def withoutRecordLiterals {α : Type} (off : Bool) (m : ParserM α) : ParserM α := do
  let previousMode ← read ParserState.allowRecordLiteral
  change fun s => { s with allowRecordLiteral := s.allowRecordLiteral && !off }
  let a ← m
  change fun s => { s with allowRecordLiteral := previousMode }
  pure a

def parseWhile (labeled : Bool) (whileToken : Token) : ParserM Statement := do
  let condition ← withoutRecordLiterals labeled p.expression
  let body ← parseBlock n p "expected '\x7b' before while body"
  pure { kind := .while, position := whileToken.position, target := {}
         condition := some condition, body }

/-- The iterable of a `for`, and the upper end of a range. -/
def parseRange : ParserM (Expr × Option Expr) := do
  let iterable ← p.expression
  let upper ← ifMatch [.dotDot]
    (fun _ => do
      let upper ← p.expression
      pure (some upper))
    (pure none)
  pure (iterable, upper)

def parseForIn (labeled : Bool) (forToken : Token) : ParserM Statement := do
  let first ← expect .identifier "expected loop variable after 'for'"
  let second ← ifMatch [.comma] (fun _ => expect .identifier "expected loop variable after ','")
    (pure none)
  let _ ← expect .in "expected 'in' after loop variable"
  let (iterable, rangeUpper) ← withoutRecordLiterals labeled (parseRange p)
  let body ← parseBlock n p "expected '\x7b' before for-in body"
  let names := first.toList ++ second.toList
  pure { kind := .forIn, position := forToken.position, target := {}
         loopNames := names.map Token.text, loopNamePositions := names.map Token.position
         iterable := some iterable, rangeUpper, body }

def parsePrint (printToken : Token) : ParserM Statement := do
  let _ ← expect .lParen "expected '(' after 'print'"
  let value ← p.expression
  let _ ← expect .rParen "expected ')' after print operand"
  let _ ← expect .semicolon "expected ';' after print statement"
  pure { kind := .print, position := printToken.position, target := {}, value := some value }

def parseTry (tryToken : Token) : ParserM Statement := do
  let body ← parseBlock n p "expected '\x7b' after 'try'"
  let _ ← expect .catch "expected 'catch' after try body"
  let _ ← expect .lParen "expected '(' after 'catch'"
  let name ← expect .identifier "expected catch binding name"
  let _ ← expect .colon "expected ':' after catch binding"
  let catchType ← p.type
  let _ ← expect .rParen "expected ')' after catch type"
  let catchBody ← parseBlock n p "expected '\x7b' before catch body"
  pure { kind := .tryCatch, position := tryToken.position, target := {}, body
         catchName := (name.map Token.text).getD ""
         catchPosition := (name.map Token.position).getD {}, catchType, catchBody }

/-- The bindings of a match arm, with their parentheses. -/
def parseBindings : ParserM (List MatchBinding) :=
  ifMatch [.lParen]
    (fun _ => do
      let names ← listUntil n .rParen (expectFieldName "expected match binding name")
      let _ ← expect .rParen "expected ')' after match bindings"
      pure (names.reduceOption.map fun token =>
        { name := token.text, position := token.position, localIndex := 0 }))
    (pure [])

def parseMatchArm : ParserM MatchArm := do
  let caseName ← expect .identifier "expected variant case name in match arm"
  let bindings ← parseBindings n
  let _ ← expect .fatArrow "expected '=>' after match arm pattern"
  let body ← parseBlock n p "expected '\x7b' before match arm body"
  pure { caseName := (caseName.map Token.text).getD ""
         position := (caseName.map Token.position).getD {}, bindings, body }

/-- What follows an arm: a comma, the closing brace, or a diagnostic and `synchronize`. -/
def parseArmEnd : ParserM Unit :=
  ifMatch [.comma] (fun _ => pure ()) do
    if ← check .rBrace then pure ()
    else
      diagnoseNext "expected ',' between match arms"
      synchronize

/-- A turn of the loop over the arms. -/
def parseArmTurn (arms : List MatchArm) : ParserM (Turn (List MatchArm) (List MatchArm)) := do
  let kind := nextKind (← read ParserState.tokens)
  if kind = .rBrace ∨ kind = .end then pure (.leave arms)
  else
    let arm ← parseMatchArm n p
    parseArmEnd
    pure (.again (arms ++ [arm]))

def parseMatch (matchToken : Token) : ParserM Statement := do
  let condition ← withoutRecordLiterals true p.expression
  let statement : Statement :=
    { kind := .match, position := matchToken.position, target := {}, condition := some condition }
  match ← expect .lBrace "expected '\x7b' before match arms" with
  | none => pure statement
  | some _ =>
    let matchArms ← loop .arms n (parseArmTurn n p) []
    let _ ← expect .rBrace "expected '\x7d' after match arms"
    pure { statement with matchArms }

def parseThrow (token : Token) : ParserM Statement := do
  let value ← p.expression
  let _ ← expect .semicolon "expected ';' after throw expression"
  pure { kind := .throw, position := token.position, target := {}, value := some value }

/-- The identifier after `return` has to be `tail`. -/
def checkTail (tail : Option Token) : ParserM Unit :=
  match tail with
  | some tail =>
    if tail.text = "tail" then pure ()
    else diagnose tail.position "expected contextual keyword 'tail' after 'return'"
  | none => pure ()

/-- `return tail f(…);`. -/
def parseTailCall (token : Token) : ParserM Statement := do
  let tail ← expect .identifier "expected contextual keyword 'tail' after 'return'"
  checkTail tail
  let value ← p.expression
  let _ ← expect .semicolon "expected ';' after tail call"
  pure { kind := .tailCall, position := token.position, target := {}, value := some value }

def parseLoopControl (kind : Statement.Kind) (semicolonMessage : String) (keyword : Token) :
    ParserM Statement := do
  let label ← ifMatch [.identifier] (fun token => pure (some token)) (pure none)
  let _ ← expect .semicolon semicolonMessage
  pure { kind, position := keyword.position, target := {}
         loopControlLabel := (label.map Token.text).getD ""
         loopControlLabelPosition := (label.map Token.position).getD {} }

/-- The receiver of `set_value`, `append` and `clear`. -/
def receiverOf (token : Token) : Expr :=
  { kind := .variable, position := token.position, name := token.text }

/-- `e.set_value(v);`; the receiver has been passed. -/
def parseEphemeronSet (receiver : Token) : ParserM Statement := do
  let _ ← expect .dot "expected '.' before set_value"
  change ParserState.advance
  let _ ← expect .lParen "expected '(' after set_value"
  let value ← p.expression
  let _ ← expect .rParen "expected ')' after ephemeron value"
  let _ ← expect .semicolon "expected ';' after set_value"
  pure { kind := .ephemeronSet, position := receiver.position, target := {}
         initializer := some (receiverOf receiver), value := some value }

/-- `b.append(…);` or `b.clear(…);`; the receiver has been passed. -/
def parseBuilderMutation (receiver : Token) : ParserM Statement := do
  let _ ← expect .dot "expected '.' before builder mutation"
  let method ← peek
  change ParserState.advance
  let _ ← expect .lParen ("expected '(' after '" ++ method.text ++ "'")
  let arguments ← parseArguments n p ("expected ')' after " ++ method.text ++ " arguments")
  let _ ← expect .semicolon ("expected ';' after " ++ method.text)
  pure { kind := if method.text = "append" then .builderAppend else .builderClear
         position := receiver.position, target := {}
         initializer := some (receiverOf receiver), arguments }

/-- A loop with the label that was before it. -/
def labelled (label : Token) (statement : Statement) : Statement :=
  { statement with loopLabel := label.text, loopLabelPosition := label.position }

/-- `label: while …` or `label: for …`; the label has been passed. -/
def parseLabelled (label : Token) : ParserM (Option Statement) := do
  change ParserState.advance
  ifMatch [.while] (fun token => do pure (some (labelled label (← parseWhile n p true token)))) <|
  ifMatch [.for] (fun token => do pure (some (labelled label (← parseForIn n p true token)))) do
    diagnose label.position "loop label must precede 'while' or 'for'"
    pure none

/-- The end of `parse_statement`: an assignment, or no statement. -/
def parseAssignmentAhead : ParserM (Option Statement) := do
  if ← read fun s => assignmentAhead s.tokens then some <$> parseAssignment n p
  else
    diagnoseNext "expected statement"
    pure none

/-- `parse_statement` under its guard. -/
def parseStatementBody : ParserM (Option Statement) :=
  ifAhead labelAhead (parseLabelled n p) <|
  ifMatch [.let] (fun token => some <$> parseLet p token) <|
  ifMatch [.if] (fun token => some <$> parseIf n p token) <|
  ifMatch [.while] (fun token => some <$> parseWhile n p false token) <|
  ifMatch [.for] (fun token => some <$> parseForIn n p false token) <|
  ifMatch [.match] (fun token => some <$> parseMatch n p token) <|
  ifMatch [.try] (fun token => some <$> parseTry n p token) <|
  ifMatch [.throw] (fun token => some <$> parseThrow p token) <|
  ifMatch [.return] (fun token => some <$> parseTailCall p token) <|
  ifMatch [.break] (fun token =>
    some <$> parseLoopControl .break "expected ';' after 'break'" token) <|
  ifMatch [.continue] (fun token =>
    some <$> parseLoopControl .continue "expected ';' after 'continue'" token) <|
  ifMatch [.print] (fun token => some <$> parsePrint p token) <|
  ifAhead ephemeronSetAhead (fun receiver => some <$> parseEphemeronSet p receiver) <|
  ifAhead builderMutationAhead (fun receiver => some <$> parseBuilderMutation n p receiver) <|
  parseAssignmentAhead n p

def parseStatement : ParserM (Option Statement) :=
  guarded
    (do
      diagnoseNext "block nesting exceeds the maximum supported depth"
      advanceUnlessEnd
      pure none)
    (parseStatementBody n p)

/-! ## Declarations -/

/-- `parse_type_parameters`, or its copy in `parse_function`. -/
def parseTypeParameters (emptyMessage : String) : ParserM (List TypeParameterDecl) :=
  ifMatch [.less]
    (fun _ => do
      let names ← nonemptyListUntil n .greater emptyMessage
        (expect .identifier "expected type parameter name")
      let _ ← expect .greater "expected '>' after type parameters"
      pure (names.reduceOption.mapIdx fun index token =>
        { name := token.text, position := token.position, index }))
    (pure [])

/-- A part of a declaration in which its type parameters are active. -/
def withTypeParameters {α : Type} (parameters : List TypeParameterDecl) (m : ParserM α) :
    ParserM α := do
  let previousParameters ← read ParserState.activeTypeParameters
  change fun s => { s with activeTypeParameters := parameters }
  let a ← m
  change fun s => { s with activeTypeParameters := previousParameters }
  pure a

def nextTypeOrder : ParserM ℕ := do
  let order ← read ParserState.nextTypeDeclarationOrder
  change fun s => { s with nextTypeDeclarationOrder := s.nextTypeDeclarationOrder + 1 }
  pure order

def parseTypeDeclaration (typeToken : Token) : ParserM TypeDecl := do
  let declarationOrder ← nextTypeOrder
  let name ← expect .identifier "expected type name after 'type'"
  let typeParameters ← parseTypeParameters n
    "generic type declaration requires at least one type parameter"
  withTypeParameters typeParameters do
    let _ ← expect .equal "expected '=' in type declaration"
    let token ← peek
    let body ← p.type
    let _ ← expect .semicolon "expected ';' after type declaration"
    pure { name := (name.map Token.text).getD ""
           position := (name.map Token.position).getD typeToken.position
           bodyPosition := token.position, typeParameters, body, declarationOrder }

def parseRecordField : ParserM RecordFieldDecl := do
  let name ← expectFieldName "expected record field name"
  let _ ← expect .colon "expected ':' after record field name"
  let type ← p.type
  pure { name := (name.map Token.text).getD "", position := (name.map Token.position).getD {}
         type := type }

def parseRecordDeclaration (recordToken : Token) : ParserM RecordDecl := do
  let declarationOrder ← nextTypeOrder
  let name ← expect .identifier "expected record name after 'record'"
  change fun s => { s with recordNames := s.recordNames ++ (name.map Token.text).toList }
  let typeParameters ← parseTypeParameters n
    "generic record declaration requires at least one type parameter"
  withTypeParameters typeParameters do
    let _ ← expect .lBrace "expected '\x7b' before record fields"
    let fields ← trailingListUntil n .rBrace (parseRecordField p)
    let _ ← expect .rBrace "expected '\x7d' after record fields"
    pure { name := (name.map Token.text).getD ""
           position := (name.map Token.position).getD recordToken.position
           typeParameters, fields, declarationOrder }

def parseVariantCase : ParserM VariantCaseDecl := do
  let name ← expect .identifier "expected variant case name"
  let _ ← expect .lParen "expected '(' after variant case name"
  let fields ← listUntil n .rParen p.type
  let _ ← expect .rParen "expected ')' after variant case payload"
  pure { name := (name.map Token.text).getD "", position := (name.map Token.position).getD {}
         fields }

def parseVariantDeclaration (variantToken : Token) : ParserM VariantDecl := do
  let declarationOrder ← nextTypeOrder
  let name ← expect .identifier "expected variant name after 'variant'"
  let typeParameters ← parseTypeParameters n
    "generic variant declaration requires at least one type parameter"
  withTypeParameters typeParameters do
    let _ ← expect .lBrace "expected '\x7b' before variant cases"
    let cases ← trailingListUntil n .rBrace (parseVariantCase n p)
    let _ ← expect .rBrace "expected '\x7d' after variant cases"
    pure { name := (name.map Token.text).getD ""
           position := (name.map Token.position).getD variantToken.position
           typeParameters, cases, declarationOrder }

def parseFunction (fnToken : Token) : ParserM FunctionDecl := do
  let declarationOrder ← read ParserState.nextFunctionDeclarationOrder
  change fun s =>
    { s with nextFunctionDeclarationOrder := s.nextFunctionDeclarationOrder + 1 }
  let name ← expect .identifier "expected function name after 'fn'"
  let typeParameters ← parseTypeParameters n
    "generic function requires at least one type parameter"
  withTypeParameters typeParameters do
    let _ ← expect .lParen "expected '(' after function name"
    let parameters ← listUntil n .rParen
      (parseParameter p "expected parameter name" "expected ':' after parameter name")
    let _ ← expect .rParen "expected ')' after parameters"
    let _ ← expect .arrow "expected '->' before function return type"
    let returnType ← p.type
    let _ ← expect .lBrace "expected '\x7b' before function body"
    let (statements, result) ← parseBody n p
    requireResult result "function body must end with an expression"
    let _ ← expect .rBrace "expected '\x7d' after function body"
    pure { name := (name.map Token.text).getD "", position := fnToken.position
           typeParameters, parameters, returnType, statements, result, declarationOrder }

/-- A declaration without type parameters is the program's own, another is a template. -/
def byParameters {α : Type} (parameters : List TypeParameterDecl) (own templates : List α)
    (declaration : α) : List α × List α :=
  if parameters.isEmpty then (own ++ [declaration], templates)
  else (own, templates ++ [declaration])

def Program.addType (program : Program) (declaration : TypeDecl) : Program :=
  let (types, genericTypes) :=
    byParameters declaration.typeParameters program.types program.genericTypes declaration
  { program with types, genericTypes }

def Program.addRecord (program : Program) (declaration : RecordDecl) : Program :=
  let (records, genericRecords) :=
    byParameters declaration.typeParameters program.records program.genericRecords declaration
  { program with records, genericRecords }

def Program.addVariant (program : Program) (declaration : VariantDecl) : Program :=
  let (variants, genericVariants) :=
    byParameters declaration.typeParameters program.variants program.genericVariants declaration
  { program with variants, genericVariants }

def Program.addFunction (program : Program) (declaration : FunctionDecl) : Program :=
  let (functions, genericFunctions) :=
    byParameters declaration.typeParameters program.functions program.genericFunctions declaration
  { program with functions, genericFunctions }

/-- A turn of the first loop of `parse`. A declaration is always returned, so that its calls
of `synchronize` are never reached. -/
def parseDeclarationsTurn (program : Program) : ParserM (Turn Program Program) :=
  ifMatch [.type] (fun token => do
    pure (.again (program.addType (← parseTypeDeclaration n p token)))) <|
  ifMatch [.record] (fun token => do
    pure (.again (program.addRecord (← parseRecordDeclaration n p token)))) <|
  ifMatch [.variant] (fun token => do
    pure (.again (program.addVariant (← parseVariantDeclaration n p token)))) <|
  ifAhead (fun tokens => nextKind tokens = .fn && checkNext .identifier tokens) (fun token => do
    pure (.again (program.addFunction (← parseFunction n p token)))) <|
  pure (.leave program)

def parseDeclarations : ParserM Program := loop .declarations n (parseDeclarationsTurn n p) {}

/-- A turn of the second loop of `parse`: the statements of the program and its result.
`parse_expression` always returns a node. -/
def parseStatementsTurn (statements : List Statement) :
    ParserM (Turn (List Statement) (List Statement × Option Expr)) := do
  if ← check .end then pure (.leave (statements, none))
  else if startsStatement (← read ParserState.tokens) then
    pure (.again (← parseNextStatement p statements))
  else
    let result ← p.expression
    pure (.leave (statements, some result))

def parseStatements : ParserM (List Statement × Option Expr) :=
  loop .statements n (parseStatementsTurn p) []

def parseProgram : ParserM ParseResult := do
  let program ← parseDeclarations n p
  let (statements, result) ← parseStatements n p
  requireResult result "program must end with an expression"
  expectEnd result
  let s ← read id
  pure
    { program :=
        if s.diagnostics.isEmpty then
          some { program with statements, result, lambdas := s.lambdas
                              pairSiteCount := s.nextPairSite }
        else none
      diagnostics := s.diagnostics }

end Parsing

/-- The recursive functions with fuel for a number of nested calls. -/
def parsers : ℕ → Parsers
  | 0 => { type := outOfFuel, expression := outOfFuel, statement := outOfFuel }
  | n + 1 =>
    { type := parseType (n + 1) (parsers n)
      expression := parseExpression (n + 1) (parsers n)
      statement := parseStatement (n + 1) (parsers n) }

/-! ## The parser -/

/-- The names of the generic declarations outside all braces, of the kinds given: the loop of
the constructor. The first argument counts the braces that are open. -/
def genericNames (kinds : List TokenKind) : ℕ → List Token → List String
  | depth, token :: name :: less :: tokens =>
    let later := genericNames kinds
      (if token.kind = .lBrace then depth + 1
       else if token.kind = .rBrace then depth - 1
       else depth)
      (name :: less :: tokens)
    if depth = 0 && kinds.contains token.kind && name.kind = .identifier && less.kind = .less then
      name.text :: later
    else later
  | _, _ => []

/-- The constructor of `Parser`. -/
def ParserState.start (tokens : List Token) : ParserState :=
  { tokens
    genericFunctionNames := genericNames [.fn] 0 tokens
    genericNominalNames := genericNames [.type, .record, .variant] 0 tokens
    genericRecordNames := genericNames [.record] 0 tokens }

/-- `parse_tokens`, with fuel. -/
def parseTokens (n : ℕ) (tokens : List Token) : Outcome Loop ParserState ParseResult :=
  parseProgram n (parsers n) (ParserState.start tokens)

end LanguageRuntime.Frontend

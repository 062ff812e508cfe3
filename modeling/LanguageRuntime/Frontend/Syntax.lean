import Mathlib.Algebra.BigOperators.Intervals
import Mathlib.Order.Lattice.Nat

/-!
# Syntax of the source language

The tree of `src/frontend/parser.hpp`. Field names, field order and default values are the
source's. The fields the type checker fills (indices of locals and layouts, inferred types,
capture lists) are part of the tree there and so they are here; the parser leaves them at
their defaults.
-/

namespace LanguageRuntime.Frontend

structure SourcePosition where
  offset : ℕ := 0
  line : ℕ := 1
  column : ℕ := 1
deriving DecidableEq, Repr, Inhabited

structure Diagnostic where
  position : SourcePosition
  message : String
deriving DecidableEq, Repr

/-- `add_diagnostic`. -/
def addDiagnostic (diagnostics : List Diagnostic) (position : SourcePosition)
    (message : String) : List Diagnostic :=
  if diagnostics.any fun diagnostic =>
      diagnostic.position.offset = position.offset && diagnostic.message = message then
    diagnostics
  else diagnostics ++ [{ position := position, message := message }]

/-- `static_cast<std::size_t>(-1)`, the index of a layout that is not known yet. -/
def noIndex : ℕ := 2 ^ 64 - 1

/-! ## Types -/

inductive TypeSpec.Kind where
  | int64
  | bool
  | str
  | pair
  | array
  | function
  | map
  | weak
  | ephemeron
  | builder
  | typeParameter
  | named
  | record
  | variant
  | nil
  | invalid
deriving DecidableEq, Repr

structure TypeSpec where
  kind : TypeSpec.Kind := .invalid
  left : Option TypeSpec := none
  right : Option TypeSpec := none
  element : Option TypeSpec := none
  key : Option TypeSpec := none
  value : Option TypeSpec := none
  weakTarget : Option TypeSpec := none
  functionParameters : List TypeSpec := []
  functionReturn : Option TypeSpec := none
  name : String := ""
  position : SourcePosition := {}
  namedTypeIndex : Option ℕ := none
  recordLayoutIndex : Option ℕ := none
  variantLayoutIndex : Option ℕ := none
  typeParameterIndex : Option ℕ := none
  genericArguments : List TypeSpec := []
  genericDeclarationIndex : Option ℕ := none
deriving Inhabited

def int64Type : TypeSpec := { kind := .int64 }

def boolType : TypeSpec := { kind := .bool }

def invalidType : TypeSpec := {}

def typeParameterType (name : String) (index : ℕ) (position : SourcePosition) : TypeSpec :=
  { kind := .typeParameter, name := name, typeParameterIndex := some index,
    position := position }

/-! ## Expressions and statements -/

inductive Expr.Kind where
  | intLiteral
  | boolLiteral
  | stringLiteral
  | nilLiteral
  | variable
  | pairLiteral
  | recordLiteral
  | variantLiteral
  | arrayLiteral
  | arraySized
  | arrayIndex
  | arrayLen
  | strSub
  | binary
  | field
  | call
  | lambda
  | isNil
  | mapEmpty
  | mapHas
  | weakConstruct
  | weakGet
  | ephemeronConstruct
  | ephemeronKey
  | ephemeronValue
  | builderConstruct
  | builderToStr
  | toStr
  | toI64
  | intern
  | abs
  | min
  | max
  | strContains
  | strIndexOf
  | strStartsWith
  | strEndsWith
deriving DecidableEq, Repr

structure Parameter where
  name : String := ""
  position : SourcePosition := {}
  type : TypeSpec := invalidType
  localIndex : ℕ := 0

inductive LValueStep.Kind where
  | field
  | index
deriving DecidableEq, Repr

structure MatchBinding where
  name : String := ""
  position : SourcePosition := {}
  localIndex : ℕ := 0
deriving DecidableEq, Repr

inductive Statement.Kind where
  | let
  | assign
  | if
  | while
  | forIn
  | match
  | tryCatch
  | throw
  | break
  | continue
  | print
  | ephemeronSet
  | builderAppend
  | builderClear
  | tailCall
deriving DecidableEq, Repr

structure CaptureSpec where
  name : String := ""
  position : SourcePosition := {}
  type : TypeSpec := invalidType
  sourceIndex : ℕ := 0
  sourceIsCapture : Bool := false

mutual

structure Expr where
  kind : Expr.Kind := .intLiteral
  position : SourcePosition := {}
  operatorPosition : SourcePosition := {}
  intValue : Int64 := 0
  boolValue : Bool := false
  stringValue : String := ""
  name : String := ""
  binaryOp : UInt8 := 0
  pairSite : ℕ := 0
  calleeIndex : ℕ := 0
  left : Option Expr := none
  right : Option Expr := none
  receiver : Option Expr := none
  arrayElementType : TypeSpec := invalidType
  mapKeyType : TypeSpec := invalidType
  mapValueType : TypeSpec := invalidType
  arguments : List Expr := []
  explicitTypeArguments : List TypeSpec := []
  typeArgumentsPosition : SourcePosition := {}
  fieldNames : List String := []
  fieldPositions : List SourcePosition := []
  inferredType : TypeSpec := invalidType
  objectSites : List ℕ := []
  localIndex : ℕ := 0
  closureLayoutIndex : ℕ := 0
  captureIndex : ℕ := 0
  isCapture : Bool := false
  isFunctionReference : Bool := false
  directCall : Bool := false
  recordLayoutIndex : ℕ := noIndex
  recordFieldIndex : ℕ := noIndex
  variantLayoutIndex : ℕ := noIndex
  variantCaseIndex : ℕ := noIndex
  lambda : Option LambdaExpr := none

structure LambdaExpr where
  position : SourcePosition := {}
  parameters : List Parameter := []
  returnType : TypeSpec := invalidType
  statements : List Statement := []
  result : Option Expr := none
  captures : List CaptureSpec := []
  functionIndex : ℕ := 0
  closureLayoutIndex : ℕ := 0
  localCount : ℕ := 0

structure LValueStep where
  kind : LValueStep.Kind := .field
  name : String := ""
  position : SourcePosition := {}
  index : Option Expr := none
  receiverType : TypeSpec := invalidType
  elementType : TypeSpec := invalidType
  recordLayoutIndex : ℕ := noIndex
  recordFieldIndex : ℕ := noIndex

structure LValue where
  baseName : String := ""
  basePosition : SourcePosition := {}
  localIndex : ℕ := 0
  steps : List LValueStep := []
  receiverType : TypeSpec := invalidType
  elementType : TypeSpec := invalidType

structure MatchArm where
  caseName : String := ""
  position : SourcePosition := {}
  bindings : List MatchBinding := []
  body : List Statement := []
  caseIndex : ℕ := noIndex

structure Statement where
  kind : Statement.Kind := .let
  position : SourcePosition := {}
  equalsPosition : SourcePosition := {}
  name : String := ""
  declaredType : TypeSpec := invalidType
  localIndex : ℕ := 0
  initializer : Option Expr := none
  target : LValue
  value : Option Expr := none
  arguments : List Expr := []
  condition : Option Expr := none
  thenBranch : List Statement := []
  elseBranch : List Statement := []
  body : List Statement := []
  loopNames : List String := []
  loopNamePositions : List SourcePosition := []
  loopLocalIndices : List ℕ := []
  loopLabel : String := ""
  loopLabelPosition : SourcePosition := {}
  loopControlLabel : String := ""
  loopControlLabelPosition : SourcePosition := {}
  iterable : Option Expr := none
  rangeUpper : Option Expr := none
  loopLocalsAllocated : Bool := false
  matchLocalsAllocated : Bool := false
  matchArms : List MatchArm := []
  matchVariantLayoutIndex : ℕ := noIndex
  catchBody : List Statement := []
  catchName : String := ""
  catchPosition : SourcePosition := {}
  catchType : TypeSpec := invalidType
  catchLocalIndex : ℕ := 0
  catchLocalAllocated : Bool := false

end

/-! ## Declarations -/

structure TypeParameterDecl where
  name : String := ""
  position : SourcePosition := {}
  index : ℕ := 0
deriving DecidableEq, Repr

structure FunctionDecl where
  name : String := ""
  position : SourcePosition := {}
  typeParameters : List TypeParameterDecl := []
  parameters : List Parameter := []
  returnType : TypeSpec := invalidType
  statements : List Statement := []
  result : Option Expr := none
  functionIndex : ℕ := 0
  closureLayoutIndex : ℕ := 0
  localCount : ℕ := 0
  declarationOrder : ℕ := 0

structure TypeDecl where
  name : String := ""
  position : SourcePosition := {}
  bodyPosition : SourcePosition := {}
  typeParameters : List TypeParameterDecl := []
  body : TypeSpec := invalidType
  typeIndex : ℕ := noIndex
  declarationOrder : ℕ := 0

structure RecordFieldDecl where
  name : String := ""
  position : SourcePosition := {}
  type : TypeSpec := invalidType

structure RecordDecl where
  name : String := ""
  position : SourcePosition := {}
  typeParameters : List TypeParameterDecl := []
  fields : List RecordFieldDecl := []
  layoutIndex : ℕ := noIndex
  declarationOrder : ℕ := 0

structure VariantCaseDecl where
  name : String := ""
  position : SourcePosition := {}
  fields : List TypeSpec := []

structure VariantDecl where
  name : String := ""
  position : SourcePosition := {}
  typeParameters : List TypeParameterDecl := []
  cases : List VariantCaseDecl := []
  layoutIndex : ℕ := noIndex
  declarationOrder : ℕ := 0

end LanguageRuntime.Frontend

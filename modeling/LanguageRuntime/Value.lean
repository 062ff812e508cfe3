import Mathlib.Algebra.BigOperators.Intervals
import Mathlib.Order.Lattice.Nat

/-!
# Runtime values

The tagged values the virtual machine and the heap exchange (`include/lang/value.hpp`),
and the errors the C++ code throws.
-/

namespace LanguageRuntime

/-- The two halves of the packed 64-bit identifier: the slot in the low and the
generation in the high 32 bits. -/
structure ObjectId where
  slot : ℕ
  generation : ℕ
deriving DecidableEq, Repr

/-- A tagged runtime value. -/
inductive Value where
  | int64 (v : Int64)
  | bool (b : Bool)
  | object (id : ObjectId)
  | nil
deriving DecidableEq, Repr

namespace Value

def isObject : Value → Bool
  | object _ => true
  | _ => false

def isNil : Value → Bool
  | nil => true
  | _ => false

/-- `Int64` or `Bool`, the tags a scalar field may carry. -/
def isScalar : Value → Bool
  | int64 _ => true
  | bool _ => true
  | _ => false

/-- `Object` or `Nil`, the tags a reference field may carry. -/
def isReference (v : Value) : Bool := v.isObject || v.isNil

def object? : Value → Option ObjectId
  | object id => some id
  | _ => none

/-- Replaces the identifier of an object value and keeps every other value. -/
def mapObject (f : ObjectId → ObjectId) : Value → Value
  | object id => object (f id)
  | v => v

/-- A value without the identifier it holds: what no collection changes of it. -/
def erase (v : Value) : Value := v.mapObject fun _ => ⟨0, 0⟩

@[simp] theorem isObject_object (id : ObjectId) : (object id).isObject = true := rfl
@[simp] theorem isObject_int64 (v : Int64) : (int64 v).isObject = false := rfl
@[simp] theorem isObject_bool (b : Bool) : (bool b).isObject = false := rfl
@[simp] theorem isObject_nil : nil.isObject = false := rfl
@[simp] theorem isNil_object (id : ObjectId) : (object id).isNil = false := rfl
@[simp] theorem isNil_int64 (v : Int64) : (int64 v).isNil = false := rfl
@[simp] theorem isNil_bool (b : Bool) : (bool b).isNil = false := rfl
@[simp] theorem isNil_nil : nil.isNil = true := rfl

@[simp] theorem mapObject_object (f : ObjectId → ObjectId) (id : ObjectId) :
    (object id).mapObject f = object (f id) := rfl

@[simp] theorem mapObject_int64 (f : ObjectId → ObjectId) (v : Int64) :
    (int64 v).mapObject f = int64 v := rfl

@[simp] theorem mapObject_bool (f : ObjectId → ObjectId) (b : Bool) :
    (bool b).mapObject f = bool b := rfl

@[simp] theorem mapObject_nil (f : ObjectId → ObjectId) : nil.mapObject f = nil := rfl

@[simp] theorem isObject_mapObject (f : ObjectId → ObjectId) (v : Value) :
    (v.mapObject f).isObject = v.isObject := by cases v <;> rfl

@[simp] theorem isNil_mapObject (f : ObjectId → ObjectId) (v : Value) :
    (v.mapObject f).isNil = v.isNil := by cases v <;> rfl

@[simp] theorem isScalar_mapObject (f : ObjectId → ObjectId) (v : Value) :
    (v.mapObject f).isScalar = v.isScalar := by cases v <;> rfl

@[simp] theorem isReference_mapObject (f : ObjectId → ObjectId) (v : Value) :
    (v.mapObject f).isReference = v.isReference := by cases v <;> rfl

@[simp] theorem isNil_erase (v : Value) : v.erase.isNil = v.isNil := isNil_mapObject _ v

@[simp] theorem erase_object (id : ObjectId) : (object id).erase = object ⟨0, 0⟩ := rfl

@[simp] theorem erase_nil : nil.erase = nil := rfl

@[simp] theorem erase_int64 (v : Int64) : (int64 v).erase = int64 v := rfl

@[simp] theorem erase_bool (b : Bool) : (bool b).erase = bool b := rfl

theorem erase_eq_bool {v : Value} {b : Bool} : v.erase = bool b ↔ v = bool b := by
  cases v <;> simp [erase]

theorem mem_filterMap_object? {values : List Value} {id : ObjectId} :
    id ∈ values.filterMap object? ↔ object id ∈ values := by
  rw [List.mem_filterMap]
  constructor
  · rintro ⟨value, hvalue, heq⟩
    cases value with
    | object id' =>
      cases heq
      exact hvalue
    | _ => exact nomatch heq
  · exact fun hvalue => ⟨_, hvalue, rfl⟩

theorem isObject_iff {v : Value} : v.isObject = true ↔ ∃ id, v = object id := by
  cases v <;> simp

end Value

/-- The exceptions the heap and the virtual machine throw, with their messages. -/
inductive HeapError where
  | logicError (message : String)
  | outOfRange (message : String)
  | lengthError (message : String)
  | overflowError (message : String)
deriving DecidableEq, Repr

end LanguageRuntime

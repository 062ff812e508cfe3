import LanguageRuntime.Gc.ObjectStore

/-!
# What the mutator can observe of a store

The loads, read off the payload the store has for an object.
-/

namespace LanguageRuntime.Gc

open LanguageRuntime

namespace Load

/-- The object a load reads. -/
def owner : Load → ObjectId
  | left id => id
  | right id => id
  | arrayLength id => id
  | arrayGet id _ => id
  | refArrayLength id => id
  | refArrayGet id _ => id
  | stringLength id => id
  | stringIndex id _ => id
  | stringEqual id _ => id
  | builderLength id => id
  | closureLayoutIndex id => id
  | closureFunctionIndex id => id
  | closureCaptureCount id => id
  | closureCapture id _ => id
  | mapLayoutIndex id => id
  | mapLength id => id
  | mapHas id _ => id
  | mapGet id _ => id
  | mapKeyAt id _ => id
  | mapValueAt id _ => id
  | weakGet id => id
  | ephemeronKey id => id
  | ephemeronValue id => id
  | recordLayoutIndex id => id
  | recordFieldCount id => id
  | recordGet id _ => id
  | variantLayoutIndex id => id
  | variantTag id => id
  | variantFieldCount id => id
  | variantGet id _ => id

/-- What a load is called with besides the object it reads. -/
def operands : Load → List Value
  | stringEqual _ other => [.object other]
  | mapHas _ key => [key]
  | mapGet _ key => [key]
  | _ => []

end Load

/-- What a load has returned, with other names for the objects. -/
def Loaded.mapIds (f : ObjectId → ObjectId) : Loaded → Loaded
  | value v => value (v.mapObject f)
  | r => r

namespace Store

/-- What a load returns of the payload of its owner, if it returns. -/
def loadField (s : Store) (load : Load) (p : Payload) : Option Loaded :=
  match load, p with
  | .left _, .pair left _ => some (.value left)
  | .right _, .pair _ right => some (.value right)
  | .arrayLength _, .scalarArray elements => some (.count elements.length)
  | .arrayGet _ index, .scalarArray elements => elements[index]?.map .scalar
  | .refArrayLength _, .refArray elements => some (.count elements.length)
  | .refArrayGet _ index, .refArray elements => elements[index]?.map .value
  | .stringLength _, .str bytes => some (.count bytes.length)
  | .stringIndex _ index, .str bytes => bytes[index]?.map .byte
  | .stringEqual _ other, .str bytes =>
    (s.bytes (.object other)).map fun bytes' => .flag (bytes == bytes')
  | .builderLength _, .builder _ bytes => some (.count bytes.length)
  | .closureLayoutIndex _, .closure layoutIndex _ _ _ => some (.count layoutIndex)
  | .closureFunctionIndex _, .closure _ functionIndex _ _ => some (.count functionIndex)
  | .closureCaptureCount _, .closure _ _ captures _ => some (.count captures.length)
  | .closureCapture _ index, .closure _ _ captures _ => captures[index]?.map .value
  | .mapLayoutIndex _, .map m => some (.count m.layoutIndex)
  | .mapLength _, .map m => some (.count m.entries.length)
  | .mapHas _ key, .map m =>
    if s.accepts m key then some (.flag (s.findEntry m key).isSome) else none
  | .mapGet _ key, .map m =>
    if s.accepts m key then
      (s.findEntry m key).bind fun entry => m.entries[entry]?.map fun e => .value e.value
    else none
  | .mapKeyAt _ index, .map m => m.entries[index]?.map fun e => .value e.key
  | .mapValueAt _ index, .map m => m.entries[index]?.map fun e => .value e.value
  | .weakGet _, .weakRef target => some (.value target)
  | .ephemeronKey _, .ephemeron key _ _ => some (.value key)
  | .ephemeronValue _, .ephemeron _ value _ => some (.value value)
  | .recordLayoutIndex _, .record layoutIndex _ _ => some (.count layoutIndex)
  | .recordFieldCount _, .record _ fields _ => some (.count fields.length)
  | .recordGet _ index, .record _ fields _ => fields[index]?.map .value
  | .variantLayoutIndex _, .variant layoutIndex _ _ _ => some (.count layoutIndex)
  | .variantTag _, .variant _ caseIndex _ _ => some (.count caseIndex)
  | .variantFieldCount _, .variant _ _ fields _ => some (.count fields.length)
  | .variantGet _ index, .variant _ _ fields _ => fields[index]?.map .value
  | _, _ => none

/-- What a load returns, if it returns. -/
def load (s : Store) (load : Load) : Option Loaded :=
  (s.objects load.owner.slot).bind (s.loadField load)

end Store

end LanguageRuntime.Gc

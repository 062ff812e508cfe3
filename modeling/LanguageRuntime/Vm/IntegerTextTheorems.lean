import LanguageRuntime.Library.Decimal
import LanguageRuntime.Vm.Execute

/-!
# Integers as text

`canonical_i64` and `parse_canonical_i64` are inverse to each other: the strings that `StrToI64`
accepts are the canonical decimal forms, and its 64-bit accumulation is the exact one.
-/

namespace LanguageRuntime.Vm

open LanguageRuntime LanguageRuntime.Library

/-! ## The text of an integer -/

theorem bytesOf_append (left right : String) :
    bytesOf (left ++ right) = bytesOf left ++ bytesOf right := by
  rw [bytesOf, String.toUTF8_eq_toByteArray, String.toByteArray_append,
    ByteArray.toList_data_append]
  rfl

theorem bytesOf_digitChar {digit : ℕ} (hdigit : digit < 10) :
    bytesOf (.singleton digit.digitChar) = [digitByte digit] := by
  revert digit
  decide

theorem bytesOf_repr (n : ℕ) : bytesOf n.repr = decimal n := by
  induction n using Nat.strongRecOn with
  | ind n ih =>
    by_cases hn : n < 10
    · rw [Nat.repr_of_lt hn, decimal_of_lt hn, bytesOf_digitChar hn]
    · rw [Nat.repr_of_ge (by omega), decimal_of_ge (by omega), bytesOf_append,
        ih (n / 10) (by omega), bytesOf_digitChar (by omega)]

theorem canonicalInt64_of_nonneg {value : Int64} (hvalue : 0 ≤ value.toInt) :
    canonicalInt64 value = decimal value.toInt.toNat := by
  rw [← bytesOf_repr]
  show bytesOf value.toInt.repr = _
  rw [← Int.toNat_of_nonneg hvalue, Int.toNat_natCast]
  rfl

theorem canonicalInt64_of_neg {value : Int64} (hvalue : value.toInt < 0) :
    canonicalInt64 value = minusSign :: decimal value.toInt.natAbs := by
  obtain ⟨n, hn⟩ := Int.eq_negSucc_of_lt_zero hvalue
  have htext : canonicalInt64 value = bytesOf ("-" ++ (n + 1).repr) := by
    show bytesOf value.toInt.repr = _
    rw [hn]
    rfl
  rw [htext, bytesOf_append, bytesOf_repr, hn]
  rfl

/-! ## The accumulation -/

section Accumulation

variable {limit magnitude result : UInt64} {bytes : List UInt8}

theorem not_isDigit_iff {byte : UInt8} : byte < zeroDigit ∨ nineDigit < byte ↔ ¬IsDigit byte := by
  have hzero : zeroDigit.toNat = 48 := rfl
  have hnine : nineDigit.toNat = 57 := rfl
  rw [IsDigit, UInt8.lt_iff_toNat_lt, UInt8.lt_iff_toNat_lt, hzero, hnine]
  omega

theorem toNat_digit {byte : UInt8} (hbyte : IsDigit byte) :
    (byte - zeroDigit).toUInt64.toNat = byte.toNat - 48 := by
  have hle : zeroDigit ≤ byte := UInt8.le_iff_toNat_le.mpr hbyte.1
  rw [UInt8.toNat_toUInt64, UInt8.toNat_sub_of_le _ _ hle]
  rfl

/-- The overflow test of a round is exact: it passes when the next magnitude is within the limit. -/
theorem exceeds_iff {digit : UInt64} (hdigit : digit.toNat < 10) (hlimit : 10 ≤ limit.toNat) :
    (limit - digit) / 10 < magnitude ↔ limit.toNat < magnitude.toNat * 10 + digit.toNat := by
  have hle : digit ≤ limit := UInt64.le_iff_toNat_le.mpr (by omega)
  have hten : (10 : UInt64).toNat = 10 := rfl
  rw [UInt64.lt_iff_toNat_lt, UInt64.toNat_div, UInt64.toNat_sub_of_le _ _ hle, hten]
  omega

/-- A round that passes its test computes the exact magnitude. -/
theorem toNat_accumulate {digit : UInt64} (hfits : magnitude.toNat * 10 + digit.toNat < 2 ^ 64) :
    (magnitude * 10 + digit).toNat = magnitude.toNat * 10 + digit.toNat := by
  have hten : (10 : UInt64).toNat = 10 := rfl
  rw [UInt64.toNat_add, UInt64.toNat_mul, hten]
  omega

/-- The loop accepts the strings of digits whose value is within the limit, and returns the
value. -/
theorem parseDigits_eq_some (hlimit : 10 ≤ limit.toNat) (hmagnitude : magnitude.toNat ≤ limit.toNat) :
    parseDigits limit bytes magnitude = some result ↔ (∀ byte ∈ bytes, IsDigit byte) ∧
      decimalValue bytes magnitude.toNat = result.toNat ∧ result.toNat ≤ limit.toNat := by
  induction bytes generalizing magnitude with
  | nil =>
    rw [parseDigits, Option.some.injEq, ← UInt64.toNat_inj]
    show _ ↔ _ ∧ magnitude.toNat = result.toNat ∧ _
    constructor
    · intro heq
      exact ⟨nofun, heq, heq ▸ hmagnitude⟩
    · intro hright
      exact hright.2.1
  | cons byte bytes ih =>
    rw [parseDigits, List.forall_mem_cons, decimalValue_cons]
    by_cases hbyte : IsDigit byte
    · rw [if_neg (by rwa [not_isDigit_iff, not_not])]
      have hdigit := toNat_digit hbyte
      have hten : (byte - zeroDigit).toUInt64.toNat < 10 := by
        have hle := hbyte.2
        omega
      rw [← hdigit]
      dsimp only
      by_cases hfits : magnitude.toNat * 10 + (byte - zeroDigit).toUInt64.toNat ≤ limit.toNat
      · rw [if_neg (by rw [exceeds_iff hten hlimit]; omega)]
        have hword := limit.toNat_lt
        have hexact := toNat_accumulate (Nat.lt_of_le_of_lt hfits hword)
        rw [ih (hexact ▸ hfits), hexact]
        exact ⟨fun hright => ⟨⟨hbyte, hright.1⟩, hright.2⟩, fun hright => ⟨hright.1.2, hright.2⟩⟩
      · rw [if_pos (by rw [exceeds_iff hten hlimit]; omega)]
        refine ⟨nofun, fun hright => ?_⟩
        -- a digit too many: what follows only adds to the value
        have hle := le_decimalValue bytes
          (magnitude.toNat * 10 + (byte - zeroDigit).toUInt64.toNat)
        omega
    · rw [if_pos (not_isDigit_iff.mpr hbyte)]
      exact ⟨nofun, fun hright => absurd hright.1.1 hbyte⟩

end Accumulation

theorem toNat_magnitudeLimit (negative : Bool) :
    (magnitudeLimit negative).toNat = if negative then 2 ^ 63 else 2 ^ 63 - 1 := by
  cases negative <;> rfl

/-- Without a leading zero, the loop accepts the numerals of the numbers within the limit. -/
theorem parseDigits_decimal {limit magnitude : UInt64} {digits : List UInt8}
    (hlimit : 10 ≤ limit.toNat) (hne : digits ≠ [])
    (hlead : digits.head? = some zeroDigit → digits.length = 1) :
    parseDigits limit digits 0 = some magnitude ↔
      digits = decimal magnitude.toNat ∧ magnitude.toNat ≤ limit.toNat := by
  rw [parseDigits_eq_some hlimit (Nat.zero_le _)]
  show _ ∧ decimalValue digits 0 = _ ∧ _ ↔ _
  constructor
  · rintro ⟨hdigits, hvalue, hle⟩
    rw [← hvalue, decimal_decimalValue hne hdigits hlead]
    exact ⟨rfl, hvalue ▸ hle⟩
  · rintro ⟨heq, hle⟩
    rw [heq]
    exact ⟨fun byte => isDigit_of_mem_decimal, decimalValue_decimal _, hle⟩

/-! ## The conversion -/

/-- A numeral does not begin with a sign. -/
theorem head_decimal_ne_minusSign (n : ℕ) : (decimal n).head? ≠ some minusSign := by
  intro heq
  have hsign : IsDigit minusSign := isDigit_of_mem_decimal (List.mem_of_mem_head? heq)
  exact absurd hsign.1 (by decide)

/-- A numeral with a leading zero is that of zero. -/
theorem length_decimal_of_head {n : ℕ} (hn : (decimal n).head? = some zeroDigit) :
    (decimal n).length = 1 := by
  have hzero : n = 0 := by
    by_contra hne
    exact head_decimal hne hn
  exact length_decimal_of_lt (by omega)

theorem toInt_toInt64 {magnitude : UInt64} (hle : magnitude.toNat ≤ 2 ^ 63 - 1) :
    magnitude.toInt64.toInt = magnitude.toNat := by
  show magnitude.toBitVec.toInt = magnitude.toBitVec.toNat
  have hsmall : magnitude.toBitVec.toNat ≤ 2 ^ 63 - 1 := hle
  exact BitVec.toInt_eq_toNat_of_lt (by omega)

/-- The value of a magnitude with a sign. -/
theorem toInt_neg_toInt64 {magnitude : UInt64} (hle : magnitude.toNat ≤ 2 ^ 63) :
    (if magnitude = kNegativeLimit then Int64.minValue else -magnitude.toInt64).toInt =
      -magnitude.toNat := by
  split
  case isTrue heq =>
    rw [heq]
    rfl
  case isFalse hne =>
    have hlt : magnitude.toNat ≠ 2 ^ 63 := fun heq => hne (UInt64.toNat_inj.mp heq)
    have hle : magnitude.toNat ≤ 2 ^ 63 - 1 := by omega
    have hpositive := toInt_toInt64 hle
    rw [Int64.toInt_neg, hpositive, Int.bmod_eq_of_le (by omega) (by omega)]

/-- The parser behind the sign: no leading zero, and none at all behind a sign. -/
theorem parse_digits_eq_some {negative : Bool} {digit : UInt8} {others : List UInt8} {value : Int64} :
    (if digit = zeroDigit ∧ (negative ∨ others ≠ []) then none
      else match parseDigits (magnitudeLimit negative) (digit :: others) 0 with
        | none => none
        | some magnitude => some (signedMagnitude negative magnitude)) = some value ↔
      ∃ magnitude : UInt64, digit :: others = decimal magnitude.toNat ∧
        magnitude.toNat ≤ (magnitudeLimit negative).toNat ∧ (negative = true → magnitude ≠ 0) ∧
        signedMagnitude negative magnitude = value := by
  have hlimit : 10 ≤ (magnitudeLimit negative).toNat := by
    rw [toNat_magnitudeLimit]
    split <;> omega
  have hzero : decimal 0 = [zeroDigit] := decimal_of_lt (by omega)
  split
  case isTrue hleading =>
    refine ⟨nofun, ?_⟩
    rintro ⟨magnitude, heq, -, hsigned, -⟩
    obtain ⟨rfl, hleading⟩ := hleading
    exfalso
    rcases hleading with rfl | hothers
    · have hne : magnitude.toNat ≠ 0 := fun h => hsigned rfl (UInt64.toNat_inj.mp h)
      exact head_decimal hne (heq ▸ rfl)
    · have hone := length_decimal_of_head (n := magnitude.toNat) (heq ▸ rfl)
      rw [← heq, List.length_cons] at hone
      exact hothers (List.length_eq_zero_iff.mp (by omega))
  case isFalse hleading =>
    have hlead : (digit :: others).head? = some zeroDigit → (digit :: others).length = 1 := by
      intro heq
      have hothers : others = [] := by
        by_contra hne
        exact hleading ⟨Option.some.inj heq, .inr hne⟩
      rw [hothers]
      rfl
    have hparse : ∀ magnitude, parseDigits (magnitudeLimit negative) (digit :: others) 0 =
        some magnitude ↔ digit :: others = decimal magnitude.toNat ∧
          magnitude.toNat ≤ (magnitudeLimit negative).toNat := fun magnitude =>
      parseDigits_decimal hlimit (List.cons_ne_nil digit others) hlead
    constructor
    · intro heq
      cases hdigits : parseDigits (magnitudeLimit negative) (digit :: others) 0 with
      | none =>
        rw [hdigits] at heq
        exact nomatch heq
      | some magnitude =>
        rw [hdigits] at heq
        obtain ⟨hnumeral, hle⟩ := (hparse magnitude).mp hdigits
        refine ⟨magnitude, hnumeral, hle, ?_, Option.some.inj heq⟩
        rintro hnegative rfl
        have hcons : digit :: others = [zeroDigit] := hnumeral.trans hzero
        exact hleading ⟨(List.cons.inj hcons).1, .inl hnegative⟩
    · rintro ⟨magnitude, hnumeral, hle, -, rfl⟩
      rw [(hparse magnitude).mpr ⟨hnumeral, hle⟩]

theorem toInt_signedMagnitude {negative : Bool} {magnitude : UInt64}
    (hle : magnitude.toNat ≤ (magnitudeLimit negative).toNat) :
    (signedMagnitude negative magnitude).toInt =
      if negative then -(magnitude.toNat : Int) else magnitude.toNat := by
  rw [toNat_magnitudeLimit] at hle
  cases negative with
  | false => exact toInt_toInt64 hle
  | true => exact toInt_neg_toInt64 hle

/-- The text of a signed magnitude. -/
theorem canonicalInt64_signedMagnitude {negative : Bool} {magnitude : UInt64}
    (hle : magnitude.toNat ≤ (magnitudeLimit negative).toNat)
    (hsigned : negative = true → magnitude ≠ 0) :
    canonicalInt64 (signedMagnitude negative magnitude) =
      (if negative then [minusSign] else []) ++ decimal magnitude.toNat := by
  have hvalue := toInt_signedMagnitude hle
  cases negative with
  | false =>
    have htoInt : (signedMagnitude false magnitude).toInt = magnitude.toNat := hvalue
    rw [canonicalInt64_of_nonneg (by omega), htoInt]
    rfl
  | true =>
    have hne : magnitude.toNat ≠ 0 := fun h => hsigned rfl (UInt64.toNat_inj.mp h)
    have htoInt : (signedMagnitude true magnitude).toInt = -magnitude.toNat := hvalue
    rw [canonicalInt64_of_neg (by omega), htoInt]
    have habs : (-(magnitude.toNat : Int)).natAbs = magnitude.toNat := by omega
    rw [habs]
    rfl

/-- Every integer is a signed magnitude. -/
theorem exists_signedMagnitude (value : Int64) : ∃ negative magnitude,
    magnitude.toNat ≤ (magnitudeLimit negative).toNat ∧ (negative = true → magnitude ≠ 0) ∧
      signedMagnitude negative magnitude = value := by
  have hmin := value.le_toInt
  have hmax := value.toInt_lt
  refine ⟨decide (value.toInt < 0), UInt64.ofNat value.toInt.natAbs, ?_⟩
  have hmagnitude : (UInt64.ofNat value.toInt.natAbs).toNat = value.toInt.natAbs := by
    rw [UInt64.toNat_ofNat']
    omega
  have hle : (UInt64.ofNat value.toInt.natAbs).toNat ≤
      (magnitudeLimit (decide (value.toInt < 0))).toNat := by
    rw [hmagnitude, toNat_magnitudeLimit]
    split
    case isTrue hneg => omega
    case isFalse hneg =>
      rw [decide_eq_true_eq] at hneg
      omega
  refine ⟨hle, ?_, ?_⟩
  · intro hneg heq
    have hzero := congrArg UInt64.toNat heq
    rw [hmagnitude] at hzero
    have hlt : value.toInt < 0 := of_decide_eq_true hneg
    have h0 : (0 : UInt64).toNat = 0 := rfl
    omega
  · apply Int64.toInt_inj.mp
    rw [toInt_signedMagnitude hle, hmagnitude]
    split
    case isTrue hneg =>
      have hlt : value.toInt < 0 := of_decide_eq_true hneg
      omega
    case isFalse hneg =>
      rw [decide_eq_true_eq] at hneg
      omega

/-- The canonical texts are the numerals within the limits, with a sign or without. -/
theorem canonicalInt64_eq_iff {bytes : List UInt8} {value : Int64} :
    canonicalInt64 value = bytes ↔ ∃ negative magnitude,
      (if negative then [minusSign] else []) ++ decimal magnitude.toNat = bytes ∧
        magnitude.toNat ≤ (magnitudeLimit negative).toNat ∧ (negative = true → magnitude ≠ 0) ∧
        signedMagnitude negative magnitude = value := by
  constructor
  · rintro rfl
    obtain ⟨negative, magnitude, hle, hsigned, rfl⟩ := exists_signedMagnitude value
    exact ⟨negative, magnitude, (canonicalInt64_signedMagnitude hle hsigned).symm, hle, hsigned, rfl⟩
  · rintro ⟨negative, magnitude, rfl, hle, hsigned, rfl⟩
    exact canonicalInt64_signedMagnitude hle hsigned

/-- The sign of a text can be read off its first byte. -/
theorem exists_text_iff {negative : Bool} {digits : List UInt8} {P : Bool → UInt64 → Prop}
    (hsign : negative = false → digits.head? ≠ some minusSign) :
    (∃ negative' magnitude, (if negative' then [minusSign] else []) ++ decimal magnitude.toNat =
        (if negative then [minusSign] else []) ++ digits ∧ P negative' magnitude) ↔
      ∃ magnitude : UInt64, digits = decimal magnitude.toNat ∧ P negative magnitude := by
  constructor
  · rintro ⟨negative', magnitude, heq, hP⟩
    cases negative' <;> cases negative
    · exact ⟨magnitude, heq.symm, hP⟩
    · have hhead : decimal magnitude.toNat = minusSign :: digits := heq
      exact absurd (hhead ▸ rfl) (head_decimal_ne_minusSign magnitude.toNat)
    · have hhead : minusSign :: decimal magnitude.toNat = digits := heq
      exact absurd (hhead ▸ rfl) (hsign rfl)
    · exact ⟨magnitude, (List.cons.inj heq).2.symm, hP⟩
  · rintro ⟨magnitude, rfl, hP⟩
    exact ⟨negative, magnitude, rfl, hP⟩

/-- The parser accepts exactly the canonical text of its answer. -/
theorem parseCanonicalInt64_eq_some {bytes : List UInt8} {value : Int64} :
    parseCanonicalInt64 bytes = some value ↔ canonicalInt64 value = bytes := by
  rw [canonicalInt64_eq_iff]
  -- the sign and the digits behind it
  obtain ⟨negative, digits, hbytes, hsign⟩ : ∃ negative digits,
      bytes = (if negative then [minusSign] else []) ++ digits ∧
        (negative = false → digits.head? ≠ some minusSign) := by
    by_cases hhead : bytes.head? = some minusSign
    · obtain ⟨digits, hdigits⟩ := List.head?_eq_some_iff.mp hhead
      exact ⟨true, digits, hdigits, nofun⟩
    · exact ⟨false, bytes, rfl, fun _ => hhead⟩
  rw [hbytes, exists_text_iff hsign]
  cases digits with
  | nil =>
    have hnone : parseCanonicalInt64 ((if negative then [minusSign] else []) ++ []) = none := by
      cases negative <;> rfl
    rw [hnone]
    refine ⟨nofun, ?_⟩
    rintro ⟨magnitude, heq, -⟩
    exact absurd heq.symm (decimal_ne_nil _)
  | cons digit others =>
    rw [← parse_digits_eq_some]
    cases negative with
    | true => rfl
    | false =>
      have hdigit : (digit == minusSign) = false := by
        apply beq_false_of_ne
        rintro rfl
        exact hsign rfl rfl
      show parseCanonicalInt64 (digit :: others) = _ ↔ _
      simp only [parseCanonicalInt64, hdigit]
      rfl

/-! ## The instruction -/

theorem pop_run {m : Machine} {frame : Frame} {frames : List Frame} {value : Value}
    {stack : List Value} (hframes : m.frames = frame :: frames)
    (hstack : frame.stack = value :: stack) :
    pop m = .ok value { m with frames := { frame with stack := stack } :: frames } := by
  have hactive : activeFrame m = .ok frame m := by
    have hm : m = { m with frames := frame :: frames } := by rw [← hframes]
    rw [hm]
    rfl
  unfold pop
  rw [bind_run_ok hactive, hstack]
  show EStateM.Result.ok value { m with frames := m.frames.modifyHead _ } = _
  rw [hframes]
  rfl

/-- `StrToI64` pushes the integer whose text the string is, and traps on every other string. -/
theorem executeStrToI64_run {m : Machine} {frame : Frame} {frames : List Frame} {id : ObjectId}
    {stack : List Value} {bytes : List UInt8} (hframes : m.frames = frame :: frames)
    (hstack : frame.stack = .object id :: stack) (hbytes : m.heap.checkedString id = .ok bytes) :
    let popped := { m with frames := { frame with stack := stack } :: frames }
    executeStrToI64 m = match parseCanonicalInt64 bytes with
      | some value => push (.int64 value) popped
      | none => trapHere "invalid string for i64 conversion" popped := by
  intro popped
  unfold executeStrToI64
  rw [bind_run_ok (pop_run hframes hstack)]
  have hreceiver : asObject (.object id) popped = .ok id popped := rfl
  have hget : (get : VmM Machine) popped = .ok popped popped := rfl
  have hchecked : popped.heap.checkedString id = .ok bytes := hbytes
  rw [bind_run_ok hreceiver, bind_run_ok hget, hchecked]
  dsimp only
  cases parseCanonicalInt64 bytes with
  | some value => rfl
  | none => rfl

/-! ## The bijection -/

/-- Both limits of the range have a text that is read back. -/
example : parseCanonicalInt64 (bytesOf "-9223372036854775808") = some Int64.minValue ∧
    parseCanonicalInt64 (bytesOf "9223372036854775808") = none := by
  decide +kernel

end LanguageRuntime.Vm

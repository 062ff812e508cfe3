import Mathlib.Data.List.Basic
import Mathlib.Data.List.Induction

/-!
# Decimal numerals

The bytes of a natural number in base ten. A string of digits without a leading zero is the
numeral of its value, so numerals and values determine each other.
-/

namespace LanguageRuntime.Library

/-- The byte is one of `0 … 9`. -/
def IsDigit (byte : UInt8) : Prop := 48 ≤ byte.toNat ∧ byte.toNat ≤ 57

/-- The value of a string of digits that follows the digits of `init`. -/
def decimalValue (bytes : List UInt8) (init : ℕ) : ℕ :=
  bytes.foldl (fun value byte => value * 10 + (byte.toNat - 48)) init

/-- The byte of a digit. -/
def digitByte (digit : ℕ) : UInt8 := (48 + digit).toUInt8

/-- The numeral of a number. -/
def decimal (n : ℕ) : List UInt8 :=
  if n < 10 then [digitByte n] else decimal (n / 10) ++ [digitByte (n % 10)]

theorem toNat_digitByte {digit : ℕ} (hdigit : digit < 10) : (digitByte digit).toNat = 48 + digit := by
  rw [digitByte, UInt8.toNat_ofNat']
  omega

theorem isDigit_digitByte {digit : ℕ} (hdigit : digit < 10) : IsDigit (digitByte digit) := by
  unfold IsDigit
  rw [toNat_digitByte hdigit]
  omega

/-- A digit is the byte of its value. -/
theorem IsDigit.eq_digitByte {byte : UInt8} (hbyte : IsDigit byte) :
    byte = digitByte (byte.toNat - 48) := by
  apply UInt8.toNat_inj.mp
  have hle := hbyte.2
  have hge := hbyte.1
  rw [toNat_digitByte (by omega)]
  omega

theorem decimalValue_cons (byte : UInt8) (bytes : List UInt8) (init : ℕ) :
    decimalValue (byte :: bytes) init = decimalValue bytes (init * 10 + (byte.toNat - 48)) := by
  rw [decimalValue, List.foldl_cons, decimalValue]

theorem decimalValue_concat (bytes : List UInt8) (byte : UInt8) (init : ℕ) :
    decimalValue (bytes ++ [byte]) init = decimalValue bytes init * 10 + (byte.toNat - 48) := by
  rw [decimalValue, decimalValue, List.foldl_append, List.foldl_cons, List.foldl_nil]

/-- The digits that follow only add to a value. -/
theorem le_decimalValue (bytes : List UInt8) (init : ℕ) : init ≤ decimalValue bytes init := by
  induction bytes generalizing init with
  | nil => exact Nat.le_refl init
  | cons byte bytes ih =>
    rw [decimalValue_cons]
    have hle := ih (init * 10 + (byte.toNat - 48))
    omega

/-! ## Numerals -/

theorem decimal_of_lt {n : ℕ} (hn : n < 10) : decimal n = [digitByte n] := by
  rw [decimal, if_pos hn]

theorem decimal_of_ge {n : ℕ} (hn : 10 ≤ n) :
    decimal n = decimal (n / 10) ++ [digitByte (n % 10)] := by
  rw [decimal, if_neg (by omega)]

theorem decimal_ne_nil (n : ℕ) : decimal n ≠ [] := by
  rw [decimal]
  split <;> simp

theorem isDigit_of_mem_decimal {n : ℕ} {byte : UInt8} (hbyte : byte ∈ decimal n) : IsDigit byte := by
  induction n using Nat.strongRecOn with
  | ind n ih =>
    by_cases hn : n < 10
    · rw [decimal_of_lt hn] at hbyte
      rw [List.mem_singleton.mp hbyte]
      exact isDigit_digitByte hn
    · rw [decimal_of_ge (by omega)] at hbyte
      rcases List.mem_append.mp hbyte with hmem | hmem
      · exact ih (n / 10) (by omega) hmem
      · rw [List.mem_singleton.mp hmem]
        exact isDigit_digitByte (by omega)

/-- A numeral has the value it is the numeral of. -/
theorem decimalValue_decimal (n : ℕ) : decimalValue (decimal n) 0 = n := by
  induction n using Nat.strongRecOn with
  | ind n ih =>
    by_cases hn : n < 10
    · rw [decimal_of_lt hn, decimalValue_cons, toNat_digitByte hn, decimalValue, List.foldl_nil]
      omega
    · rw [decimal_of_ge (by omega), decimalValue_concat, ih (n / 10) (by omega),
        toNat_digitByte (by omega)]
      omega

/-- The numeral of a number that is not zero begins with a digit that is not zero. -/
theorem head_decimal {n : ℕ} (hn : n ≠ 0) : (decimal n).head? ≠ some 48 := by
  induction n using Nat.strongRecOn with
  | ind n ih =>
    by_cases hlt : n < 10
    · rw [decimal_of_lt hlt]
      intro heq
      have hzero := congrArg UInt8.toNat (Option.some.inj heq)
      rw [toNat_digitByte hlt] at hzero
      have h48 : (48 : UInt8).toNat = 48 := rfl
      omega
    · rw [decimal_of_ge (by omega), List.head?_append_of_ne_nil _ (decimal_ne_nil _)]
      exact ih (n / 10) (by omega) (by omega)

theorem length_decimal_of_lt {n : ℕ} (hn : n < 10) : (decimal n).length = 1 := by
  rw [decimal_of_lt hn]
  rfl

/-- A string of digits without a leading zero is the numeral of its value. -/
theorem decimal_decimalValue {bytes : List UInt8} (hne : bytes ≠ [])
    (hdigits : ∀ byte ∈ bytes, IsDigit byte) (hlead : bytes.head? = some 48 → bytes.length = 1) :
    decimal (decimalValue bytes 0) = bytes := by
  induction bytes using List.reverseRecOn with
  | nil => exact absurd rfl hne
  | append_singleton bytes byte ih =>
    have hbyte : IsDigit byte := hdigits byte (by simp)
    have hle := hbyte.2
    have hge := hbyte.1
    rw [decimalValue_concat]
    by_cases hnil : bytes = []
    · subst hnil
      rw [decimalValue, List.foldl_nil, decimal_of_lt (by omega), Nat.zero_mul, Nat.zero_add, ← hbyte.eq_digitByte]
      rfl
    · have hfirst : (bytes ++ [byte]).head? = bytes.head? := List.head?_append_of_ne_nil _ hnil
      have hzero : bytes.head? ≠ some 48 := by
        intro heq
        have hone := hlead (hfirst.trans heq)
        rw [List.length_append, List.length_singleton] at hone
        exact hnil (List.length_eq_zero_iff.mp (by omega))
      have hrest := ih hnil (fun b hb => hdigits b (by simp [hb])) fun heq => absurd heq hzero
      have hpos : 0 < decimalValue bytes 0 := by
        by_contra hnot
        rw [Nat.eq_zero_of_not_pos hnot] at hrest
        rw [← hrest, decimal_of_lt (by omega)] at hzero
        exact hzero rfl
      rw [decimal_of_ge (by omega)]
      have hdiv : (decimalValue bytes 0 * 10 + (byte.toNat - 48)) / 10 = decimalValue bytes 0 := by
        omega
      have hmod : (decimalValue bytes 0 * 10 + (byte.toNat - 48)) % 10 = byte.toNat - 48 := by
        omega
      rw [hdiv, hmod, hrest, ← hbyte.eq_digitByte]

end LanguageRuntime.Library

import DistStore.Lib.CMemory
import Mathlib.Data.Nat.Digits.Lemmas

/-!
# C integers and their decimal texts

`int` is 32 bits wide and `long` and `size_t` are 64 bits wide.  Arithmetic on
`int` is defined only where the exact result is an `int`; conversions reduce
modulo the width of their target.
-/

set_option autoImplicit false

namespace CMemory

def IsInt (value : Int) : Prop := -2 ^ 31 ≤ value ∧ value < 2 ^ 31

instance (value : Int) : Decidable (IsInt value) :=
  inferInstanceAs (Decidable (_ ∧ _))

/-- Conversion of a wider integer to `int`. -/
def toInt (value : Int) : Int := Int.bmod value (2 ^ 32)

/-- Conversion of an integer to `size_t`. -/
def toSize (value : Int) : Nat := (value % 2 ^ 64).toNat

def checkInt (value : Int) : C Int :=
  if IsInt value then .ok value else .error .signedOverflow

theorem toInt_of_isInt {value : Int} (inRange : IsInt value) : toInt value = value := by
  obtain ⟨lower, upper⟩ := inRange
  rw [toInt, Int.bmod_eq_iff (by decide)]
  omega

theorem toInt_le {value : Int} (nonnegative : 0 ≤ value) : toInt value ≤ value := by
  rw [toInt, Int.bmod_def]
  split
  · omega
  · omega

theorem toSize_of_nonneg {value : Int} (nonnegative : 0 ≤ value) (small : value < 2 ^ 64) :
    (toSize value : Int) = value := by
  rw [toSize, Int.emod_eq_of_lt nonnegative small, Int.toNat_of_nonneg nonnegative]

theorem toSize_natCast {value : Nat} (small : value < 2 ^ 64) : toSize value = value := by
  have cast : (toSize (value : Int) : Int) = value := toSize_of_nonneg (by omega) (by omega)
  exact_mod_cast cast

theorem isInt_natCast_iff (num : Nat) : IsInt num ↔ num < 2 ^ 31 := by
  unfold IsInt
  omega

theorem toInt_natCast {value : Nat} (small : value < 2 ^ 31) : toInt value = value :=
  toInt_of_isInt ((isInt_natCast_iff value).mpr small)

/-- Where a length that is kept in an `int` is an index of an object. -/
theorem toInt_inside_iff (value : Nat) {size : Nat} (small : size ≤ 2 ^ 31) :
    0 ≤ toInt value ∧ toInt value < size ↔ value % 2 ^ 32 < size := by
  rw [toInt, Int.bmod_def]
  split
  · omega
  · omega

theorem checkInt_of_isInt {value : Int} (inRange : IsInt value) :
    checkInt value = .ok value := if_pos inRange

theorem checkInt_eq_ok {value result : Int} (checked : checkInt value = .ok result) :
    result = value ∧ IsInt value := by
  rw [checkInt] at checked
  split at checked
  · rename_i inRange
    cases checked
    exact ⟨rfl, inRange⟩
  · cases checked

/-! ## Texts whose length is kept in an `int` -/

/-- What such a length leaves of a text. -/
def intFront (text : Bytes) : Bytes :=
  -- matched first: the remainder by `2 ^ 32` of an unknown length has no normal form
  match text with
  | [] => []
  | byte :: rest => (byte :: rest).take (toInt (byte :: rest).length).toNat

theorem intFront_eq_take (text : Bytes) : intFront text = text.take (toInt text.length).toNat := by
  cases text with
  | nil => exact List.take_nil.symm
  | cons byte rest => rfl

theorem intFront_length (text : Bytes) : (intFront text).length = (toInt text.length).toNat := by
  have cut := toInt_le (Int.natCast_nonneg text.length)
  rw [intFront_eq_take, List.length_take_of_le (by omega)]

theorem intFront_isPrefix (text : Bytes) : intFront text <+: text :=
  intFront_eq_take text ▸ List.take_prefix _ _

theorem intFront_of_short {text : Bytes} (short : text.length < 2 ^ 31) : intFront text = text := by
  rw [intFront_eq_take, toInt_natCast short, Int.toNat_natCast, List.take_length]

/-- `strncpy` of the front of a string for the length of this front, kept in an
`int`, and the NUL stored behind it. -/
theorem strncpy_intFront {target memory text front : Bytes} {pointer : Nat}
    (holds : strAt memory pointer = .ok text) (isFront : front <+: text) :
    (do
      let copied ← strncpy target 0 memory pointer (toInt front.length)
      store copied (toInt front.length).toNat [0]) =
      if toInt front.length < 0 then .error .negativeSize
      else if (intFront front).length < target.length then
        .ok (overwrite (intFront front) target)
      else .error .writeOutside := by
  split
  next negative => rw [strncpy_negative negative, error_bind]
  next nonnegative =>
    have kept : ((intFront front).length : Int) = toInt front.length := by
      rw [intFront_length]
      omega
    have keptFront : intFront front <+: text := (intFront_isPrefix front).trans isFront
    have copied := @strncpy_terminated target memory text pointer _ holds keptFront.length_le
    rw [← List.prefix_iff_eq_take.mp keptFront] at copied
    rw [← kept, Int.toNat_natCast]
    exact copied

def isspace (byte : Byte) : Bool := byte == 32 || (9 ≤ byte && byte ≤ 13)

def isdigit (byte : Byte) : Bool := 48 ≤ byte && byte ≤ 57

/-- The number spelled by the leading digits, read on from `acc`. -/
def digitsValue (acc : Nat) : Bytes → Nat
  | [] => acc
  | byte :: rest =>
      if isdigit byte then digitsValue (acc * 10 + (byte.toNat - 48)) rest else acc

def clampLong (value : Int) : Int := max (-2 ^ 63) (min value (2 ^ 63 - 1))

/-- `strtol(text, NULL, 10)`. -/
def strtol (text : Bytes) : Int :=
  match text.dropWhile isspace with
  | 45 :: digits => clampLong (-(digitsValue 0 digits : Nat))
  | 43 :: digits => clampLong (digitsValue 0 digits : Nat)
  | digits => clampLong (digitsValue 0 digits : Nat)

def atoi (text : Bytes) : Int := toInt (strtol text)

/-! ## Decimal texts -/

def digitByte (digit : Nat) : Byte := UInt8.ofNat (48 + digit)

def decimalNat (value : Nat) : Bytes :=
  if value = 0 then [digitByte 0] else (Nat.digits 10 value).reverse.map digitByte

def decimal (value : Int) : Bytes :=
  if value < 0 then 45 :: decimalNat value.natAbs else decimalNat value.natAbs

theorem digitByte_toNat {digit : Nat} (small : digit < 10) :
    isdigit (digitByte digit) = true ∧ (digitByte digit).toNat - 48 = digit := by
  revert small
  revert digit
  decide

theorem digitsValue_map (digits : List Nat) (small : ∀ digit ∈ digits, digit < 10) (acc : Nat) :
    digitsValue acc (digits.map digitByte) =
      digits.foldl (fun value digit => value * 10 + digit) acc := by
  induction digits generalizing acc with
  | nil => rfl
  | cons digit rest inductionHypothesis =>
      obtain ⟨isDigit, value⟩ := digitByte_toNat (small digit (by simp))
      have restSmall : ∀ other ∈ rest, other < 10 := fun other member => small other (by simp [member])
      simp only [List.map_cons, digitsValue, isDigit, if_true, value, List.foldl_cons,
        inductionHypothesis restSmall]

theorem digitsValue_decimalNat (value : Nat) : digitsValue 0 (decimalNat value) = value := by
  by_cases zero : value = 0
  · subst zero
    decide
  · have small : ∀ digit ∈ (Nat.digits 10 value).reverse, digit < 10 := by
      intro digit member
      exact Nat.digits_lt_base (by decide) (List.mem_reverse.mp member)
    rw [decimalNat, if_neg zero, digitsValue_map _ small, List.foldl_reverse]
    have folded : List.foldr (fun digit value => value * 10 + digit) 0 (Nat.digits 10 value) =
        Nat.ofDigits 10 (Nat.digits 10 value) := by
      rw [Nat.ofDigits_eq_foldr]
      congr 1
      funext digit rest
      simp only [Nat.cast_id]
      omega
    rw [folded, Nat.ofDigits_digits]

theorem decimalNat_ne_nil (value : Nat) : decimalNat value ≠ [] := by
  by_cases zero : value = 0
  · simp [decimalNat, zero]
  · simpa [decimalNat, zero] using Nat.digits_ne_nil_iff_ne_zero.mpr zero

theorem decimalNat_digits (value : Nat) : ∀ byte ∈ decimalNat value, isdigit byte = true := by
  intro byte member
  by_cases zero : value = 0
  · simp only [decimalNat, if_pos zero, List.mem_singleton] at member
    subst member
    decide
  · simp only [decimalNat, if_neg zero, List.mem_map, List.mem_reverse] at member
    obtain ⟨digit, digitMember, rfl⟩ := member
    exact (digitByte_toNat (Nat.digits_lt_base (by decide) digitMember)).1

theorem not_isspace_of_isdigit {byte : Byte} (digit : isdigit byte = true) :
    isspace byte = false ∧ byte ≠ 45 ∧ byte ≠ 43 := by
  simp only [isdigit, Bool.and_eq_true, decide_eq_true_eq, UInt8.le_iff_toNat_le] at digit
  obtain ⟨lower, upper⟩ := digit
  have lower48 : 48 ≤ byte.toNat := lower
  refine ⟨?_, ?_, ?_⟩
  · simp only [isspace, Bool.or_eq_false_iff, beq_eq_false_iff_ne, Bool.and_eq_false_iff,
      decide_eq_false_iff_not, UInt8.le_iff_toNat_le, ne_eq]
    refine ⟨?_, Or.inr ?_⟩
    · rintro rfl
      exact absurd lower48 (by decide)
    · show ¬ byte.toNat ≤ 13
      omega
  · rintro rfl
    exact absurd lower48 (by decide)
  · rintro rfl
    exact absurd lower48 (by decide)

theorem strtol_digit {byte : Byte} (digit : isdigit byte = true) (rest : Bytes) :
    strtol (byte :: rest) = clampLong (digitsValue 0 (byte :: rest) : Nat) := by
  obtain ⟨notSpace, notMinus, notPlus⟩ := not_isspace_of_isdigit digit
  simp only [strtol, List.dropWhile_cons, notSpace, Bool.false_eq_true, if_false]
  split
  · rename_i same
    exact absurd (List.cons.inj same).1 notMinus
  · rename_i same
    exact absurd (List.cons.inj same).1 notPlus
  · rfl

theorem strtol_minus (digits : Bytes) :
    strtol (45 :: digits) = clampLong (-(digitsValue 0 digits : Nat)) := by
  have body : (45 :: digits : Bytes).dropWhile isspace = 45 :: digits := by
    rw [List.dropWhile_cons, if_neg (by decide)]
  simp only [strtol, body]

theorem strtol_digits {digits : Bytes} (nonempty : digits ≠ [])
    (all : ∀ byte ∈ digits, isdigit byte = true) :
    strtol digits = clampLong (digitsValue 0 digits : Nat) := by
  cases digits with
  | nil => exact absurd rfl nonempty
  | cons byte rest => exact strtol_digit (all byte List.mem_cons_self) rest

theorem clampLong_of_isInt {value : Int} (inRange : IsInt value) : clampLong value = value := by
  obtain ⟨lower, upper⟩ := inRange
  simp only [clampLong]
  omega

/-- `strtol` reads back a decimal text as far as a `long` reaches. -/
theorem strtol_decimal (value : Int) : strtol (decimal value) = clampLong value := by
  by_cases negative : value < 0
  · rw [decimal, if_pos negative, strtol_minus, digitsValue_decimalNat]
    congr 1
    omega
  · rw [decimal, if_neg negative, strtol_digits (decimalNat_ne_nil _) (decimalNat_digits _),
      digitsValue_decimalNat, Int.natAbs_of_nonneg (by omega)]

/-- `atoi` reads back the decimal text of every `int`. -/
theorem atoi_decimal {value : Int} (inRange : IsInt value) : atoi (decimal value) = value := by
  rw [atoi, strtol_decimal, clampLong_of_isInt inRange, toInt_of_isInt inRange]

theorem toInt_eq_iff (value : Int) : toInt value = value ↔ IsInt value := by
  refine ⟨?_, toInt_of_isInt⟩
  intro same
  rw [toInt, Int.bmod_eq_iff (by decide)] at same
  unfold IsInt
  omega

theorem toInt_eq_neg_one_iff (value : Int) : toInt value = -1 ↔ value % 2 ^ 32 = 2 ^ 32 - 1 := by
  rw [toInt, Int.bmod_eq_iff (by decide)]
  omega

theorem decimalNat_injective {first second : Nat} (same : decimalNat first = decimalNat second) :
    first = second := by
  rw [← digitsValue_decimalNat first, same, digitsValue_decimalNat]

theorem decimal_injective {first second : Int} (same : decimal first = decimal second) :
    first = second := by
  have noMinus : ∀ {value : Nat} {digits : Bytes}, decimalNat value ≠ 45 :: digits := by
    intro value digits starts
    have minus : (45 : Byte) ∈ decimalNat value := starts ▸ List.mem_cons_self
    exact absurd (decimalNat_digits value 45 minus) (by decide)
  unfold decimal at same
  split at same
  · split at same
    · have sizes := decimalNat_injective (List.cons.inj same).2
      omega
    · exact absurd same.symm noMinus
  · split at same
    · exact absurd same noMinus
    · have sizes := decimalNat_injective same
      omega

end CMemory

import DistStore.Lib.CNumber
import Mathlib.Data.Rat.Floor
import Mathlib.Algebra.Order.AbsoluteValue.Basic

/-!
# `double`

A computation with values of type `double` is given over any type with the
operations it uses.  What can be relied on without saying how the values are
rounded is that integers of at most 53 bits are represented and that results
that are such integers are exact.
-/

set_option autoImplicit false

namespace CMemory

/-- The conversions `%.0f`, `%e` and `%f` of `printf`. -/
inductive Conversion where
  | whole
  | exponent
  | fixed
  deriving DecidableEq, Repr

/-- `const` reads a constant of the program, or converts an integer; `toInt` is
the conversion to `int`. -/
class Double (D : Type) where
  const : Rat → D
  add : D → D → D
  sub : D → D → D
  mul : D → D → D
  pow : D → D → D
  fabs : D → D
  floor : D → D
  eq : D → D → Bool
  le : D → D → Bool
  lt : D → D → Bool
  toInt : D → Int
  print : Conversion → D → Bytes

namespace Double

variable {D : Type} [Double D]

def ofInt (value : Int) : D := const (value : Rat)

end Double

/-- Integers a `double` holds exactly. -/
def IsExact (value : Int) : Prop := value.natAbs ≤ 2 ^ 53

/-- A product that is zero may be negative zero when a factor is negative. -/
class ExactDouble (D : Type) [Double D] : Prop where
  add_ofInt : ∀ first second : Int, IsExact first → IsExact second → IsExact (first + second) →
    Double.add (Double.ofInt first : D) (Double.ofInt second) = Double.ofInt (first + second)
  sub_self : ∀ value : Int, IsExact value →
    Double.sub (Double.ofInt value : D) (Double.ofInt value) = Double.ofInt 0
  mul_ofInt : ∀ first second : Int, IsExact first → IsExact second → IsExact (first * second) →
    (0 ≤ first ∧ 0 ≤ second ∨ first * second ≠ 0) →
    Double.mul (Double.ofInt first : D) (Double.ofInt second) = Double.ofInt (first * second)
  pow_zero : Double.pow (Double.ofInt 10 : D) (Double.ofInt 0) = Double.ofInt 1
  fabs_zero : Double.fabs (Double.ofInt 0 : D) = Double.ofInt 0
  eq_ofInt : ∀ first second : Int, IsExact first → IsExact second →
    Double.eq (Double.ofInt first : D) (Double.ofInt second) = decide (first = second)
  le_ofInt : ∀ first second : Int, IsExact first → IsExact second →
    Double.le (Double.ofInt first : D) (Double.ofInt second) = decide (first ≤ second)
  zero_le_const : ∀ value : Rat, 0 ≤ value → Double.le (Double.ofInt 0 : D) (Double.const value) = true
  toInt_ofInt : ∀ value : Int, IsInt value → Double.toInt (Double.ofInt value : D) = value

theorem decimal_nulFree (value : Int) : 0 ∉ decimal value := by
  have noDigit : ∀ size : Nat, 0 ∉ decimalNat size :=
    fun size member => absurd (decimalNat_digits size 0 member) (by decide)
  unfold decimal
  split
  · exact fun member => (List.mem_cons.mp member).elim (by decide) (noDigit _)
  · exact noDigit _

theorem decimalNat_length {size : Nat} (small : size < 10 ^ 10) : (decimalNat size).length ≤ 10 := by
  unfold decimalNat
  split
  · decide
  · rw [List.length_map, List.length_reverse]
    exact (Nat.digits_length_le_iff (by decide) _).mpr small

/-- `%d` writes no more than eleven bytes. -/
theorem decimal_length {value : Int} (inRange : IsInt value) : (decimal value).length ≤ 11 := by
  obtain ⟨lower, upper⟩ := inRange
  have small := decimalNat_length (show value.natAbs < 10 ^ 10 by omega)
  unfold decimal
  split
  · exact Nat.succ_le_succ small
  · exact Nat.le_succ_of_le small

/-- What `printf` writes where the program uses each conversion fits 63
bytes. -/
class PrintedDouble (D : Type) [Double D] : Prop where
  nulFree : ∀ (conversion : Conversion) (d : D), 0 ∉ Double.print conversion d
  whole : ∀ d : D, Double.lt (Double.fabs d) (Double.const (10 ^ 60)) = true →
    (Double.print .whole d).length < 64
  exponent : ∀ d : D, (Double.print .exponent d).length < 64
  fixed : ∀ d : D, Double.lt (Double.const (10 ^ 9)) (Double.fabs d) = false →
    (Double.print .fixed d).length < 64

/-- The characters of a printed number, of an infinity and of what is no
number. -/
def IsNumeral (byte : Byte) : Prop :=
  isdigit byte = true ∨ byte = 43 ∨ byte = 45 ∨ byte = 46 ∨ 97 ≤ byte ∧ byte ≤ 122

/-- `printf` writes nothing else for a number. -/
class NumeralDouble (D : Type) [Double D] : Prop where
  isNumeral : ∀ (conversion : Conversion) (d : D), ∀ byte ∈ Double.print conversion d, IsNumeral byte

theorem isNumeral_decimal (value : Int) : ∀ byte ∈ decimal value, IsNumeral byte := by
  have digits : ∀ size : Nat, ∀ byte ∈ decimalNat size, IsNumeral byte :=
    fun size byte member => Or.inl (decimalNat_digits size byte member)
  unfold decimal
  split
  · exact List.forall_mem_cons.mpr ⟨Or.inr (Or.inr (Or.inl rfl)), digits _⟩
  · exact digits _

/-- The conversion gives an `int`. -/
class IntDouble (D : Type) [Double D] : Prop where
  isInt : ∀ d : D, IsInt (Double.toInt d)

theorem isExact_of_isInt {value : Int} (inRange : IsInt value) : IsExact value := by
  obtain ⟨lower, upper⟩ := inRange
  unfold IsExact
  omega

theorem isExact_of_nonneg {value : Int} (nonnegative : 0 ≤ value) (small : value ≤ 2 ^ 53) :
    IsExact value := by
  unfold IsExact
  omega

/-! ## Exact arithmetic -/

/-- The rational numbers, which print as integers of so many digits. -/
instance : Double Rat where
  const := id
  add := (· + ·)
  sub := (· - ·)
  mul := (· * ·)
  pow base exponent := base ^ exponent.floor
  fabs value := |value|
  floor value := value.floor
  eq first second := first = second
  le first second := first ≤ second
  lt first second := first < second
  toInt value := CMemory.toInt (value.num.tdiv value.den)
  print _ value := (decimal value.floor).take 63

instance : ExactDouble Rat where
  add_ofInt first second _ _ _ := (Int.cast_add first second).symm
  sub_self value _ := sub_self _
  mul_ofInt first second _ _ _ _ := (Int.cast_mul first second).symm
  pow_zero := by
    show ((10 : Int) : Rat) ^ (((0 : Int) : Rat).floor) = ((1 : Int) : Rat)
    rw [Rat.floor_intCast, zpow_zero, Int.cast_one]
  fabs_zero := abs_zero
  eq_ofInt first second _ _ := decide_eq_decide.mpr Int.cast_inj
  le_ofInt first second _ _ := decide_eq_decide.mpr Int.cast_le
  zero_le_const value nonnegative := decide_eq_true nonnegative
  toInt_ofInt value isInt := by
    show CMemory.toInt (((value : Rat).num).tdiv ((value : Rat).den)) = value
    rw [Rat.num_intCast, Rat.den_intCast, Nat.cast_one, Int.tdiv_one, toInt_of_isInt isInt]

instance : IntDouble Rat where
  isInt value := by
    show IsInt (CMemory.toInt _)
    rw [CMemory.toInt, Int.bmod_def]
    unfold IsInt
    split <;> omega

theorem rat_print_length (conversion : Conversion) (value : Rat) :
    (Double.print conversion value).length < 64 :=
  Nat.lt_succ_of_le (List.length_take_le _ _)

instance : PrintedDouble Rat where
  nulFree _ value member := decimal_nulFree value.floor (List.mem_of_mem_take member)
  whole value _ := rat_print_length .whole value
  exponent := rat_print_length .exponent
  fixed value _ := rat_print_length .fixed value

instance : NumeralDouble Rat where
  isNumeral _ value byte member := isNumeral_decimal value.floor byte (List.mem_of_mem_take member)

end CMemory

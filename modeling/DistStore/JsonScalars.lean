import DistStore.JsonParse

/-!
# Strings and numbers read back

What the parser makes of a printed string and of a printed integer, and how a
value is told by its first byte.
-/

set_option autoImplicit false

namespace DistStore.JsonScalars

open CMemory JsonPrint JsonTree JsonParse

@[simp] theorem found_bind {α β : Type} (value : α) (next : α → Parser β) :
    (Except.ok value : Parser α) >>= next = next value := rfl

@[simp] theorem stopped_bind {α β : Type} (stop : Stop) (next : α → Parser β) :
    (Except.error stop : Parser α) >>= next = .error stop := rfl

@[simp] theorem here_cons (byte : Byte) (rest : Bytes) : here (byte :: rest) = .ok byte := rfl

theorem skip_solid {byte : Byte} (solid : 32 < byte) (rest : Bytes) :
    skip (byte :: rest) = .ok (byte :: rest) := by
  have visible : ¬ (byte ≠ 0 ∧ byte ≤ 32) := fun blank => UInt8.not_le.mpr solid blank.2
  rw [skip, if_neg visible]

theorem skip_blank {byte : Byte} (blank : byte ≠ 0 ∧ byte ≤ 32) (rest : Bytes) :
    skip (byte :: rest) = skip rest := by
  rw [skip, if_pos blank]

/-! ## Strings -/

theorem hexValue_hexDigit {digit : Nat} (small : digit < 16) :
    hexValue (hexDigit digit) = some digit := by
  revert digit
  decide

/-- The digits of a control character. -/
theorem parseHex4_control (byte : Byte) (rest : Bytes) :
    parseHex4 (48 :: 48 :: hexDigit (byte.toNat / 16) :: hexDigit (byte.toNat % 16) :: rest) =
      .ok byte.toNat := by
  have below : byte.toNat < 256 := byte.toNat_lt
  have upper : byte.toNat / 16 < 16 := by omega
  have lower : byte.toNat % 16 < 16 := by omega
  have zero : hexValue 48 = some 0 := by decide
  simp only [parseHex4, parseHex, zero, hexValue_hexDigit upper, hexValue_hexDigit lower]
  congr 1
  omega

theorem utf8Bytes_ascii {byte : Byte} (ascii : byte < 128) : utf8Bytes byte.toNat = [byte] := by
  have each : ∀ uc < 128, utf8Bytes uc = [UInt8.ofNat uc] := by decide
  rw [each byte.toNat (UInt8.lt_iff_toNat_lt.mp ascii), UInt8.ofNat_toNat]

theorem transcode_control {byte : Byte} (nonzero : byte ≠ 0) (control : byte < 32) (rest : Bytes) :
    transcode (117 :: 48 :: 48 :: hexDigit (byte.toNat / 16) :: hexDigit (byte.toNat % 16) :: rest) =
      .ok ([byte], 4) := by
  have below : byte.toNat < 32 := UInt8.lt_iff_toNat_lt.mp control
  have positive : byte.toNat ≠ 0 := fun zero => nonzero (UInt8.toNat_inj.mp zero)
  have ascii : byte < 128 := UInt8.lt_iff_toNat_lt.mpr (lt_trans below (by decide))
  have lone : ¬ ((0xDC00 ≤ byte.toNat ∧ byte.toNat ≤ 0xDFFF) ∨ byte.toNat = 0) := by omega
  have single : ¬ (0xD800 ≤ byte.toNat ∧ byte.toNat ≤ 0xDBFF) := by omega
  unfold transcode
  rw [List.drop_one, List.tail_cons, parseHex4_control, found_bind]
  simp only [lone, single, if_false, utf8Bytes_ascii ascii]
  rfl

/-- How a byte is escaped. -/
inductive Escaped (byte : Byte) : Bytes → Prop where
  | plain (quote : byte ≠ 34) (backslash : byte ≠ 92) : Escaped byte [byte]
  | short (letter : Byte) (notLong : letter ≠ 117) (back : unescape letter = byte) :
      Escaped byte [92, letter]
  | long (control : byte < 32) :
      Escaped byte (lit "\\u00" ++ [hexDigit (byte.toNat / 16), hexDigit (byte.toNat % 16)])

theorem escapeByte_escaped (byte : Byte) : Escaped byte (escapeByte byte) := by
  unfold escapeByte
  split
  next visible => exact .plain visible.2.1 visible.2.2
  next hidden =>
    split
    next same => exact same ▸ .short 92 (by decide) rfl
    next notBackslash =>
      split
      next same => exact same ▸ .short 34 (by decide) rfl
      next notQuote =>
        split
        next same => exact same ▸ .short 98 (by decide) rfl
        next =>
          split
          next same => exact same ▸ .short 102 (by decide) rfl
          next =>
            split
            next same => exact same ▸ .short 110 (by decide) rfl
            next =>
              split
              next same => exact same ▸ .short 114 (by decide) rfl
              next =>
                split
                next same => exact same ▸ .short 116 (by decide) rfl
                next =>
                  refine .long ?_
                  have small : ¬ 31 < byte := fun large => hidden ⟨large, notQuote, notBackslash⟩
                  rw [UInt8.lt_iff_toNat_lt] at small ⊢
                  exact Nat.lt_succ_of_le (Nat.le_of_not_lt small)

theorem copyLoop_escaped {byte : Byte} {code : Bytes} (nonzero : byte ≠ 0)
    (escaped : Escaped byte code) {size : Nat} {out : Bytes} (room : out.length + 1 ≤ size)
    (rest : Bytes) :
    copyLoop size 0 (code ++ rest) out = copyLoop size 0 rest (out ++ [byte]) := by
  have written : put size out [byte] = .ok (out ++ [byte]) := if_pos room
  cases escaped with
  | plain quote backslash =>
      have inside : ¬ (byte = 34 ∨ byte = 0) := fun ends => ends.elim quote nonzero
      rw [List.singleton_append, copyLoop, if_neg inside, if_pos backslash, written, found_bind]
  | short letter notLong back =>
      simp only [List.cons_append, List.nil_append, copyLoop]
      rw [if_neg (by decide), if_neg (by decide), here_cons, found_bind, if_neg notLong, back,
        written, found_bind]
  | long control =>
      have digits : lit "\\u00" = [92, 117, 48, 48] := by decide
      rw [digits]
      simp only [List.cons_append, List.nil_append, copyLoop]
      rw [if_neg (by decide), if_neg (by decide), here_cons, found_bind, if_pos rfl,
        transcode_control nonzero control, found_bind]
      simp only [written, found_bind, copyLoop]

theorem copyLoop_text {text : Bytes} (nulFree : 0 ∉ text) {size : Nat} {out : Bytes}
    (room : out.length + text.length ≤ size) (rest : Bytes) :
    copyLoop size 0 (text.flatMap escapeByte ++ 34 :: rest) out = .ok (out ++ text, 34 :: rest) := by
  induction text generalizing out with
  | nil =>
      rw [List.flatMap_nil, List.nil_append, List.append_nil]
      exact if_pos (Or.inl rfl)
  | cons byte text inductionHypothesis =>
      have nonzero : byte ≠ 0 := fun zero => nulFree (zero ▸ List.mem_cons_self)
      have free : 0 ∉ text := fun member => nulFree (List.mem_cons_of_mem _ member)
      rw [List.length_cons] at room
      have roomHere : out.length + 1 ≤ size := by omega
      have roomLater : (out ++ [byte]).length + text.length ≤ size := by
        rw [List.length_append, List.length_singleton]
        omega
      rw [List.flatMap_cons, List.append_assoc,
        copyLoop_escaped nonzero (escapeByte_escaped byte) roomHere, inductionHypothesis free roomLater,
        List.append_assoc, List.singleton_append]

/-- The first loop counts at least one byte for each byte of the string. -/
theorem lengthLoop_escaped {byte : Byte} {code : Bytes} (nonzero : byte ≠ 0)
    (escaped : Escaped byte code) {rest : Bytes} {len : Nat} (counted : lengthLoop false rest = .ok len) :
    ∃ more, lengthLoop false (code ++ rest) = .ok (len + more) ∧ 1 ≤ more ∧ more ≤ code.length := by
  cases escaped with
  | plain quote backslash =>
      have inside : ¬ (byte = 34 ∨ byte = 0) := fun ends => ends.elim quote nonzero
      refine ⟨1, ?_, le_rfl, le_rfl⟩
      rw [List.singleton_append, lengthLoop, if_neg inside, decide_eq_false backslash, counted]
      rfl
  | short letter notLong back =>
      refine ⟨1, ?_, le_rfl, Nat.le_succ 1⟩
      simp only [List.cons_append, List.nil_append, lengthLoop, decide_true]
      rw [if_neg (by decide), counted]
      rfl
  | long control =>
      have digits : lit "\\u00" = [92, 117, 48, 48] := by decide
      have hex : ∀ digit : Nat, ¬ (hexDigit (digit % 16) = 34 ∨ hexDigit (digit % 16) = 0) ∧
          hexDigit (digit % 16) ≠ 92 := by
        intro digit
        have each : ∀ small < 16, ¬ (hexDigit small = 34 ∨ hexDigit small = 0) ∧
            hexDigit small ≠ 92 := by decide
        exact each _ (Nat.mod_lt _ (by decide))
      have upper : byte.toNat / 16 = byte.toNat / 16 % 16 := by
        have below : byte.toNat < 256 := byte.toNat_lt
        omega
      refine ⟨5, ?_, by decide, by rw [digits]; exact Nat.le_succ 5⟩
      rw [digits, upper]
      simp only [List.cons_append, List.nil_append, lengthLoop, (hex _).1, (hex _).2, if_false,
        decide_false, decide_true, show ¬ ((48 : Byte) = 34 ∨ (48 : Byte) = 0) by decide,
        show ¬ ((92 : Byte) = 34 ∨ (92 : Byte) = 0) by decide, show ((48 : Byte) = 92) = False by decide, counted]
      rfl

theorem lengthLoop_text {text : Bytes} (nulFree : 0 ∉ text) (rest : Bytes) :
    ∃ len, lengthLoop false (text.flatMap escapeByte ++ 34 :: rest) = .ok len ∧ text.length ≤ len ∧
      len ≤ (text.flatMap escapeByte).length := by
  induction text with
  | nil => exact ⟨0, if_pos (Or.inl rfl), le_rfl, le_rfl⟩
  | cons byte text inductionHypothesis =>
      have nonzero : byte ≠ 0 := fun zero => nulFree (zero ▸ List.mem_cons_self)
      have free : 0 ∉ text := fun member => nulFree (List.mem_cons_of_mem _ member)
      obtain ⟨len, counted, lower, upper⟩ := inductionHypothesis free
      obtain ⟨more, longer, one, code⟩ :=
        lengthLoop_escaped nonzero (escapeByte_escaped byte) counted
      refine ⟨len + more, ?_, ?_, ?_⟩
      · rw [List.flatMap_cons, List.append_assoc, longer]
      · rw [List.length_cons]
        omega
      · rw [List.flatMap_cons, List.length_append]
        omega

theorem textOf_val (text : Text) : textOf text.val = text := by
  apply Subtype.ext
  refine List.takeWhile_eq_self_iff.mpr fun byte member => ?_
  have nonzero : byte ≠ 0 := fun zero => text.property (zero ▸ member)
  simpa using nonzero

theorem parseString_eq {str out ptr : Bytes} {len : Nat} (counted : lengthLoop false str = .ok len)
    (small : len + 1 < 2 ^ 31) (copied : copyLoop (len + 1) 0 str [] = .ok (out, 34 :: ptr))
    (room : out.length ≤ len) : parseString (34 :: str) = .ok (textOf (out ++ [0]), ptr) := by
  have size : checkInt (len + 1) = .ok (len + 1) := checkInt_of_isInt ⟨by omega, by omega⟩
  have block : ((len : Int) + 1).toNat = len + 1 := by omega
  have ended : put (len + 1) out [0] = .ok (out ++ [0]) := if_pos (Nat.succ_le_succ room)
  unfold parseString
  rw [here_cons, found_bind, if_neg (by decide), List.tail_cons, counted, found_bind, size]
  simp only [ofC, found_bind, block]
  rw [copied, found_bind, ended, found_bind, here_cons, found_bind, if_pos rfl, List.tail_cons]
  rfl

theorem textOf_terminated (text : Text) : textOf (text.val ++ [0]) = text := by
  apply Subtype.ext
  have whole : ∀ byte ∈ text.val, decide (byte ≠ 0) = true := by
    intro byte member
    exact decide_eq_true fun zero => text.property (zero ▸ member)
  show (text.val ++ [0]).takeWhile (· ≠ 0) = text.val
  rw [List.takeWhile_append_of_pos whole]
  exact List.append_nil _

/-- A printed string is read back. -/
theorem parseString_text {text : Text} (small : (stringText text).length < 2 ^ 31) (rest : Bytes) :
    parseString (stringText text ++ rest) = .ok (text, rest) := by
  obtain ⟨len, counted, lower, upper⟩ := lengthLoop_text text.property rest
  have shape : stringText text ++ rest = 34 :: (text.val.flatMap escapeByte ++ 34 :: rest) := by
    unfold stringText
    rw [List.cons_append, List.append_assoc, List.singleton_append]
  have short : len + 1 < 2 ^ 31 := by
    rw [stringText, List.length_cons, List.length_append, List.length_singleton] at small
    omega
  have room : ([] : Bytes).length + text.val.length ≤ len + 1 := by
    rw [List.length_nil]
    omega
  rw [shape, parseString_eq counted short (copyLoop_text text.property room rest) lower,
    List.nil_append, textOf_terminated]

/-! ## Numbers -/

/-- Nothing that could go on with a number. -/
def Delimited (rest : Bytes) : Prop :=
  ∃ byte tail, rest = byte :: tail ∧ isdigit byte = false ∧ byte ≠ 46 ∧ byte ≠ 101 ∧ byte ≠ 69

theorem le_digitsValue (text : Bytes) (acc : Nat) : acc ≤ digitsValue acc text := by
  induction text generalizing acc with
  | nil => exact le_rfl
  | cons byte text inductionHypothesis =>
      unfold digitsValue
      split
      · have later := inductionHypothesis (acc * 10 + (byte.toNat - 48))
        omega
      · exact le_rfl

theorem decimalNat_head {value : Nat} (positive : value ≠ 0) :
    ∃ byte tail, decimalNat value = byte :: tail ∧ 49 ≤ byte ∧ byte ≤ 57 := by
  have nonempty : Nat.digits 10 value ≠ [] := Nat.digits_ne_nil_iff_ne_zero.mpr positive
  have leading := Nat.getLast_digit_ne_zero 10 positive
  have small : (Nat.digits 10 value).getLast nonempty < 10 :=
    Nat.digits_lt_base (by decide) (List.getLast_mem nonempty)
  have each : ∀ digit < 10, digit ≠ 0 → 49 ≤ digitByte digit ∧ digitByte digit ≤ 57 := by decide
  unfold decimalNat
  rw [if_neg positive, ← List.dropLast_append_getLast nonempty, List.reverse_append,
    List.reverse_singleton, List.singleton_append, List.map_cons]
  exact ⟨_, _, rfl, each _ small leading⟩

section Values

variable {D : Type} [Double D] [ExactDouble D]

theorem digits_all {text : Bytes} (all : ∀ byte ∈ text, isdigit byte = true) {rest : Bytes}
    (delimited : Delimited rest) {acc : Nat} (small : digitsValue acc text ≤ 2 ^ 53) :
    digits (Double.ofInt acc : D) (text ++ rest) = .ok (Double.ofInt (digitsValue acc text), rest) := by
  induction text generalizing acc with
  | nil =>
      obtain ⟨byte, tail, rfl, notDigit, -⟩ := delimited
      rw [List.nil_append, digits, if_neg (Bool.eq_false_iff.mp notDigit)]
      rfl
  | cons byte text inductionHypothesis =>
      rw [List.forall_mem_cons] at all
      have value : digitsValue acc (byte :: text) = digitsValue (acc * 10 + (byte.toNat - 48)) text :=
        if_pos all.1
      rw [value] at small ⊢
      have bound := (le_digitsValue text _).trans small
      have shifted : Double.mul (Double.ofInt acc : D) (Double.ofInt 10) = Double.ofInt (acc * 10) :=
        ExactDouble.mul_ofInt _ _ (isExact_of_nonneg (by omega) (by omega))
          (isExact_of_nonneg (by omega) (by omega)) (isExact_of_nonneg (by omega) (by omega))
          (Or.inl ⟨by omega, by omega⟩)
      have added : Double.add (Double.ofInt (acc * 10) : D) (Double.ofInt (byte.toNat - 48 : Nat)) =
          Double.ofInt (acc * 10 + (byte.toNat - 48 : Nat)) :=
        ExactDouble.add_ofInt _ _ (isExact_of_nonneg (by omega) (by omega))
          (isExact_of_nonneg (by omega) (by omega)) (isExact_of_nonneg (by omega) (by omega))
      rw [List.cons_append, digits, if_pos all.1, shifted, added]
      exact_mod_cast inductionHypothesis all.2 small

theorem parseWhole_decimalNat {value : Nat} (small : value ≤ 2 ^ 53) {rest : Bytes}
    (delimited : Delimited rest) :
    parseWhole (D := D) (decimalNat value ++ rest) = .ok (Double.ofInt value, rest) := by
  by_cases zero : value = 0
  · obtain ⟨byte, tail, rfl, notDigit, -⟩ := delimited
    have noDigit : ¬ (49 ≤ byte ∧ byte ≤ 57) := by
      rintro ⟨lower, upper⟩
      rw [UInt8.le_iff_toNat_le] at lower upper
      have isDigit : isdigit byte = true := by
        simp only [isdigit, Bool.and_eq_true, decide_eq_true_eq, UInt8.le_iff_toNat_le]
        exact ⟨le_trans (by decide) lower, upper⟩
      rw [notDigit] at isDigit
      cases isDigit
    have zeroText : decimalNat value = [48] := by
      rw [zero]
      decide
    unfold parseWhole
    rw [zeroText, List.singleton_append, here_cons, found_bind, if_pos rfl, List.tail_cons]
    dsimp only
    rw [here_cons, found_bind, if_neg noDigit, zero]
    rfl
  · obtain ⟨byte, tail, shape, lower, upper⟩ := decimalNat_head zero
    have notZero : byte ≠ 48 := by
      rintro rfl
      exact absurd lower (by decide)
    have bound : digitsValue 0 (decimalNat value) ≤ 2 ^ 53 := by rwa [digitsValue_decimalNat]
    have counted := digits_all (D := D) (decimalNat_digits value) delimited bound
    rw [digitsValue_decimalNat, shape] at counted
    unfold parseWhole
    rw [shape, List.cons_append, here_cons, found_bind, if_neg notZero]
    dsimp only
    rw [here_cons, found_bind, if_pos ⟨lower, upper⟩]
    exact counted

omit [ExactDouble D] in
theorem parseFraction_delimited (n : D) {rest : Bytes} (delimited : Delimited rest) :
    parseFraction n rest = .ok (n, Double.ofInt 0, rest) := by
  obtain ⟨byte, tail, rfl, -, notPoint, -⟩ := delimited
  unfold parseFraction
  rw [here_cons, found_bind, if_neg notPoint]
  rfl

theorem parseExponent_delimited {rest : Bytes} (delimited : Delimited rest) :
    parseExponent rest = .ok (0, 1, rest) := by
  obtain ⟨byte, tail, rfl, -, -, notSmall, notCapital⟩ := delimited
  unfold parseExponent
  rw [here_cons, found_bind, if_neg fun either => either.elim notSmall notCapital]
  rfl

/-- A number without fraction and exponent; zero has no sign. -/
theorem parseNumber_whole {sign : Int} {value : Nat}
    (isSign : sign = 1 ∨ sign = -1 ∧ 0 < value) (inRange : IsInt (sign * value))
    {num rest : Bytes} (signed : parseSign num = .ok (sign, decimalNat value ++ rest))
    (delimited : Delimited rest) :
    parseNumber num = .ok (.number (sign * value) (Double.ofInt (sign * value) : D), rest) := by
  have small : (value : Int) ≤ 2 ^ 31 := by
    obtain ⟨lower, upper⟩ := inRange
    rcases isSign with rfl | ⟨rfl, -⟩ <;> omega
  have whole := parseWhole_decimalNat (D := D) (show value ≤ 2 ^ 53 by omega) delimited
  have unsigned : IsExact value := isExact_of_nonneg (by omega) (by omega)
  have signExact : IsExact sign := by
    unfold IsExact
    rcases isSign with rfl | ⟨rfl, -⟩ <;> omega
  have product := isExact_of_isInt inRange
  have applied : Double.mul (Double.ofInt sign : D) (Double.ofInt value) =
      Double.ofInt (sign * value) := by
    refine ExactDouble.mul_ofInt _ _ signExact unsigned product ?_
    rcases isSign with rfl | ⟨rfl, positive⟩ <;> omega
  have zero : Double.add (Double.ofInt 0 : D) (Double.ofInt (0 * 1)) = Double.ofInt 0 :=
    ExactDouble.add_ofInt 0 0 (isExact_of_nonneg le_rfl (by decide))
      (isExact_of_nonneg le_rfl (by decide)) (isExact_of_nonneg le_rfl (by decide))
  have scaled : Double.mul (Double.ofInt (sign * value) : D) (Double.ofInt 1) =
      Double.ofInt (sign * value) := by
    have one : sign * (value : Int) * 1 = sign * value := mul_one _
    have exact_ := ExactDouble.mul_ofInt (D := D) (sign * value) 1 product
      (isExact_of_nonneg (by decide) (by decide)) (by rwa [one])
    rw [one] at exact_
    apply exact_
    rcases isSign with rfl | ⟨rfl, positive⟩ <;> omega
  unfold parseNumber
  rw [signed, found_bind]
  simp only [whole, found_bind, parseFraction_delimited _ delimited,
    parseExponent_delimited delimited, zero, ExactDouble.pow_zero, applied, scaled,
    ExactDouble.toInt_ofInt _ inRange]
  rfl

theorem parseNumber_decimal {value : Int} (inRange : IsInt value) {rest : Bytes}
    (delimited : Delimited rest) :
    parseNumber (decimal value ++ rest) = .ok (.number value (Double.ofInt value : D), rest) := by
  by_cases negative : value < 0
  · have magnitude : -1 * (value.natAbs : Int) = value := by omega
    have minus : decimal value ++ rest = 45 :: (decimalNat value.natAbs ++ rest) := by
      rw [decimal, if_pos negative, List.cons_append]
    have signed : parseSign (decimal value ++ rest) =
        .ok (-1, decimalNat value.natAbs ++ rest) := by
      rw [minus, parseSign, here_cons, found_bind, if_pos rfl]
      rfl
    have parsed := parseNumber_whole (D := D) (Or.inr ⟨rfl, by omega⟩) (by rwa [magnitude]) signed
      delimited
    rwa [magnitude] at parsed
  · have magnitude : 1 * (value.natAbs : Int) = value := by omega
    have plain : decimal value = decimalNat value.natAbs := if_neg negative
    have signed : parseSign (decimal value ++ rest) =
        .ok (1, decimalNat value.natAbs ++ rest) := by
      rw [plain]
      cases shape : decimalNat value.natAbs with
      | nil => exact absurd shape (decimalNat_ne_nil _)
      | cons byte tail =>
          have isDigit := decimalNat_digits value.natAbs byte (shape ▸ List.mem_cons_self)
          rw [parseSign, List.cons_append, here_cons, found_bind,
            if_neg (not_isspace_of_isdigit isDigit).2.1]
          rfl
    have parsed := parseNumber_whole (D := D) (Or.inl rfl) (by rwa [magnitude]) signed delimited
    rwa [magnitude] at parsed

/-- The text of an integer. -/
theorem numberText_ofInt {value : Int} (inRange : IsInt value) :
    numberText value (Double.ofInt value : D) = decimal value := by
  have exact_ := isExact_of_isInt inRange
  have zeroExact : IsExact 0 := isExact_of_nonneg le_rfl (by decide)
  unfold numberText
  rw [ExactDouble.eq_ofInt value 0 exact_ zeroExact]
  by_cases zero : value = 0
  · rw [if_pos (decide_eq_true zero), zero]
    decide
  · have near : Double.le (Double.fabs (Double.sub (Double.ofInt value : D) (Double.ofInt value)))
        (Double.const dblEpsilon) = true := by
      rw [ExactDouble.sub_self value exact_, ExactDouble.fabs_zero]
      exact ExactDouble.zero_le_const _ (by decide +kernel)
    have below : Double.le (Double.ofInt value : D) (Double.ofInt intMax) = true := by
      rw [ExactDouble.le_ofInt value intMax exact_ (isExact_of_nonneg (by decide) (by decide))]
      exact decide_eq_true (Int.le_sub_one_of_lt inRange.2)
    have above : Double.le (Double.ofInt intMin : D) (Double.ofInt value) = true := by
      rw [ExactDouble.le_ofInt intMin value (by unfold IsExact intMin; omega) exact_]
      exact decide_eq_true inRange.1
    rw [if_neg (by simpa using zero), near, below, above]
    rfl

end Values

/-! ## Values -/

theorem startsWith_append (word rest : Bytes) : startsWith word (word ++ rest) = .ok true := by
  induction word with
  | nil => rfl
  | cons letter word inductionHypothesis =>
      rw [List.cons_append, startsWith, if_pos rfl, inductionHypothesis]

theorem startsWith_other {letter byte : Byte} (other : byte ≠ letter) (word rest : Bytes) :
    startsWith (letter :: word) (byte :: rest) = .ok false := if_neg other

section Dispatch

variable {D : Type} [Double D]

/-- A text that starts none of the three words. -/
theorem parseValue_other (fuel : Nat) {byte : Byte} (noWord : byte ≠ 110 ∧ byte ≠ 102 ∧ byte ≠ 116)
    (rest : Bytes) :
    parseValue (D := D) (fuel + 1) (byte :: rest) =
      if byte = 34 then do
        let (valuestring, value) ← parseString (byte :: rest)
        return (.string valuestring, value)
      else if byte = 45 ∨ isdigit byte then parseNumber (byte :: rest)
      else if byte = 91 then parseArray fuel (byte :: rest)
      else if byte = 123 then parseObject fuel (byte :: rest)
      else throw (.ep (byte :: rest)) := by
  have words : lit "null" = [110, 117, 108, 108] ∧ lit "false" = [102, 97, 108, 115, 101] ∧
      lit "true" = [116, 114, 117, 101] := by decide
  obtain ⟨null, false_, true_⟩ := words
  rw [parseValue, null, false_, true_, startsWith_other noWord.1, startsWith_other noWord.2.1,
    startsWith_other noWord.2.2]
  rfl

theorem parseValue_array (fuel : Nat) (rest : Bytes) :
    parseValue (D := D) (fuel + 1) (91 :: rest) = parseArray fuel (91 :: rest) := by
  rw [parseValue_other fuel (by decide), if_neg (by decide), if_neg (by decide), if_pos rfl]

theorem parseValue_object (fuel : Nat) (rest : Bytes) :
    parseValue (D := D) (fuel + 1) (123 :: rest) = parseObject fuel (123 :: rest) := by
  rw [parseValue_other fuel (by decide), if_neg (by decide), if_neg (by decide), if_neg (by decide),
    if_pos rfl]

theorem parseValue_string (fuel : Nat) {text : Text} (small : (stringText text).length < 2 ^ 31)
    (rest : Bytes) :
    parseValue (D := D) (fuel + 1) (stringText text ++ rest) = .ok (.string text, rest) := by
  have parsed := parseString_text small rest
  rw [stringText, List.cons_append] at parsed ⊢
  rw [parseValue_other fuel (by decide), if_pos rfl, parsed]
  rfl

theorem parseValue_number [ExactDouble D] (fuel : Nat) {value : Int} (inRange : IsInt value)
    {rest : Bytes} (delimited : Delimited rest) :
    parseValue (fuel + 1) (decimal value ++ rest) =
      .ok (.number value (Double.ofInt value : D), rest) := by
  have parsed := parseNumber_decimal (D := D) inRange delimited
  have head : ∃ byte tail, decimal value = byte :: tail ∧ (byte = 45 ∨ isdigit byte = true) := by
    unfold decimal
    split
    · exact ⟨45, _, rfl, Or.inl rfl⟩
    · cases shape : decimalNat value.natAbs with
      | nil => exact absurd shape (decimalNat_ne_nil _)
      | cons byte tail =>
          exact ⟨byte, tail, rfl,
            Or.inr (decimalNat_digits value.natAbs byte (shape ▸ List.mem_cons_self))⟩
  obtain ⟨byte, tail, shape, numeric⟩ := head
  have others : byte ≠ 110 ∧ byte ≠ 102 ∧ byte ≠ 116 ∧ byte ≠ 34 := by
    refine ⟨?_, ?_, ?_, ?_⟩ <;> rintro rfl <;> revert numeric <;> decide
  rw [shape, List.cons_append] at parsed ⊢
  rw [parseValue_other fuel ⟨others.1, others.2.1, others.2.2.1⟩, if_neg others.2.2.2,
    if_pos numeric, parsed]

end Dispatch

end DistStore.JsonScalars

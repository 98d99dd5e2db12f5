import DistStore.Wrappers

/-!
# Numbers on their way to Redis and back

Numbers are printed with `%d` whatever their type is, a list length is assigned
to an `int`, and a score is read with `atoi`.
-/

set_option autoImplicit false

namespace DistStore.Numbers

open CMemory Batch Wrappers

/-! ## Into the command text -/

theorem percentD_eq_iff (value : Int) : percentD value = decimal value ↔ IsInt value := by
  unfold percentD
  rw [← toInt_eq_iff]
  exact ⟨decimal_injective, congrArg decimal⟩

theorem expireat_iff (key : Bytes) (deleteTime : Int) :
    (expireatCommand key deleteTime).arguments = [key, decimal deleteTime] ↔ IsInt deleteTime := by
  rw [← percentD_eq_iff]
  simp [expireatCommand]

theorem hincrby_iff (key field : Bytes) (num : Nat) :
    (hincrbyCommand key field num).arguments = [key, field, decimal num] ↔ num < 2 ^ 31 := by
  rw [← isInt_natCast_iff, ← percentD_eq_iff]
  simp [hincrbyCommand]

theorem select_iff (dbNo : Nat) :
    (selectCommand dbNo).arguments = [decimal dbNo] ↔ dbNo < 2 ^ 31 := by
  rw [← isInt_natCast_iff, ← percentD_eq_iff]
  simp [selectCommand]

theorem ltrim_iff (key : Bytes) (begin_ end_ : Int) :
    (ltrimCommand key begin_ end_).arguments = [key, decimal begin_, decimal end_] ↔
      IsInt begin_ ∧ IsInt end_ := by
  rw [← percentD_eq_iff, ← percentD_eq_iff]
  simp [ltrimCommand]

/-! ## Out of a reply -/

/-- The function returns the number or reports a failure. -/
def Reports (number : Int) (result : C Int) : Prop := result = .ok number ∨ result = .ok (-1)

theorem reports_ok_iff (number value : Int) :
    Reports number (.ok value) ↔ value = number ∨ value = -1 := by
  simp [Reports]

theorem getListCnt_iff (key : Bytes) (cnt : Int) :
    Reports cnt (ropGetListCnt (fun _ => some (.integer cnt)) key) ↔
      IsInt cnt ∨ cnt % 2 ^ 32 = 2 ^ 32 - 1 := by
  have returned : ropGetListCnt (fun _ => some (.integer cnt)) key = .ok (toInt cnt) := rfl
  rw [returned, reports_ok_iff, toInt_eq_iff, toInt_eq_neg_one_iff]

theorem getScore_returned (key member str : Bytes) :
    ropZsetGetScore (fun _ => some (.string str)) key member = .ok (atoi str) := rfl

/-- A score that is written out in full. -/
theorem getScore_decimal_iff (key member : Bytes) (score : Int) :
    Reports score (ropZsetGetScore (fun _ => some (.string (decimal score))) key member) ↔
      IsInt score ∨ 2 ^ 63 ≤ score ∨ (-2 ^ 63 ≤ score ∧ score % 2 ^ 32 = 2 ^ 32 - 1) := by
  rw [getScore_returned, reports_ok_iff, atoi, strtol_decimal]
  by_cases huge : 2 ^ 63 ≤ score
  · have clamped : clampLong score = 2 ^ 63 - 1 := by
      unfold clampLong
      omega
    have failure : toInt (2 ^ 63 - 1) = -1 := by decide
    rw [clamped, failure]
    exact iff_of_true (Or.inr rfl) (Or.inr (Or.inl huge))
  · by_cases tiny : score < -2 ^ 63
    · have clamped : clampLong score = -2 ^ 63 := by
        unfold clampLong
        omega
      have zero : toInt (-2 ^ 63) = 0 := by decide
      rw [clamped, zero]
      unfold IsInt
      omega
    · have same : clampLong score = score := by
        unfold clampLong
        omega
      rw [same, toInt_eq_iff, toInt_eq_neg_one_iff]
      unfold IsInt
      omega

/-- A score with one digit in front of the point or the exponent. -/
def scoreText (score : Int) (digit : Nat) (mark : Byte) (rest : Bytes) : Bytes :=
  (if score < 0 then [45] else []) ++ digitByte digit :: mark :: rest

theorem getScore_exponent_iff (key member rest : Bytes) {score : Int} {digit : Nat} {mark : Byte}
    (large : 10 ≤ score.natAbs) (isDigit : digit < 10) (isMark : mark = 46 ∨ mark = 101) :
    Reports score
        (ropZsetGetScore (fun _ => some (.string (scoreText score digit mark rest))) key member) ↔
      score < 0 ∧ digit = 1 := by
  obtain ⟨isDigitByte, value⟩ := digitByte_toNat isDigit
  have stops : isdigit mark = false := by
    rcases isMark with rfl | rfl <;> decide
  have read : digitsValue 0 (digitByte digit :: mark :: rest) = digit := by
    simp [digitsValue, isDigitByte, value, stops]
  have inRange : ∀ value : Int, value.natAbs < 10 → IsInt value := by
    intro value small
    unfold IsInt
    omega
  rw [getScore_returned, reports_ok_iff, atoi, scoreText]
  by_cases negative : score < 0
  · have small := inRange (-(digit : Int)) (by omega)
    rw [if_pos negative, List.singleton_append, strtol_minus, read, clampLong_of_isInt small,
      toInt_of_isInt small]
    omega
  · have small := inRange (digit : Int) (by omega)
    rw [if_neg negative, List.nil_append, strtol_digit isDigitByte, read, clampLong_of_isInt small,
      toInt_of_isInt small]
    omega

/-! ## All six functions -/

/-- Where the numbers arrive unchanged or a failure is reported. -/
theorem numbers_iff (key field member : Bytes) :
    (∀ deleteTime : Int,
      (expireatCommand key deleteTime).arguments = [key, decimal deleteTime] ↔ IsInt deleteTime) ∧
    (∀ num : Nat,
      (hincrbyCommand key field num).arguments = [key, field, decimal num] ↔ num < 2 ^ 31) ∧
    (∀ dbNo : Nat, (selectCommand dbNo).arguments = [decimal dbNo] ↔ dbNo < 2 ^ 31) ∧
    (∀ begin_ end_ : Int,
      (ltrimCommand key begin_ end_).arguments = [key, decimal begin_, decimal end_] ↔
        IsInt begin_ ∧ IsInt end_) ∧
    (∀ cnt : Int, Reports cnt (ropGetListCnt (fun _ => some (.integer cnt)) key) ↔
      IsInt cnt ∨ cnt % 2 ^ 32 = 2 ^ 32 - 1) ∧
    (∀ score : Int,
      Reports score (ropZsetGetScore (fun _ => some (.string (decimal score))) key member) ↔
        IsInt score ∨ 2 ^ 63 ≤ score ∨ (-2 ^ 63 ≤ score ∧ score % 2 ^ 32 = 2 ^ 32 - 1)) ∧
    (∀ (score : Int) (digit : Nat) (mark : Byte) (rest : Bytes), 10 ≤ score.natAbs → digit < 10 →
      mark = 46 ∨ mark = 101 →
      (Reports score
          (ropZsetGetScore (fun _ => some (.string (scoreText score digit mark rest))) key member) ↔
        score < 0 ∧ digit = 1)) := by
  refine ⟨expireat_iff key, hincrby_iff key field, select_iff, ltrim_iff key, getListCnt_iff key,
    getScore_decimal_iff key member, ?_⟩
  intro score digit mark rest large isDigit isMark
  exact getScore_exponent_iff key member rest large isDigit isMark

theorem numbers_iff_exponent :
    Reports (10 ^ 17) (ropZsetGetScore
        (fun _ => some (.string (scoreText (10 ^ 17) 1 101 (lit "+17")))) (lit "k") (lit "m")) ↔
      (10 ^ 17 : Int) < 0 ∧ 1 = 1 :=
  (numbers_iff (lit "k") (lit "f") (lit "m")).2.2.2.2.2.2 (10 ^ 17) 1 101 (lit "+17") (by decide)
    (by decide) (Or.inr rfl)

/-- `2 ^ 31` gets lost everywhere but in the bounds of `rop_trim_list`. -/
theorem numbers_lost :
    (expireatCommand (lit "k") (2 ^ 31)).arguments ≠ [lit "k", decimal (2 ^ 31)] ∧
      (hincrbyCommand (lit "k") (lit "f") (2 ^ 31)).arguments ≠
        [lit "k", lit "f", decimal (2 ^ 31 : Nat)] ∧
      (selectCommand (2 ^ 31)).arguments ≠ [decimal (2 ^ 31 : Nat)] ∧
      ¬ Reports (2 ^ 31) (ropGetListCnt (fun _ => some (.integer (2 ^ 31))) (lit "k")) ∧
      ¬ Reports (2 ^ 31) (ropZsetGetScore (fun _ => some (.string (decimal (2 ^ 31)))) (lit "k")
        (lit "m")) := by
  have outside : ¬ IsInt (2 ^ 31) := by decide
  refine ⟨?_, ?_, ?_, ?_, ?_⟩
  · rw [Ne, expireat_iff]
    exact outside
  · rw [Ne, hincrby_iff]
    exact lt_irrefl _
  · rw [Ne, select_iff]
    exact lt_irrefl _
  · rw [getListCnt_iff]
    decide
  · rw [getScore_decimal_iff]
    decide

end DistStore.Numbers

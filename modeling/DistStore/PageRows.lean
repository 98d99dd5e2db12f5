import DistStore.Paging

/-!
# The rows of a page and their block

`read_redis_to_json` obtains a block of `cnt` rows; `rop_range_list` compares
the length of the reply with the end index of the page as `size_t`.  The list
may hold any texts, and `fromId` and `cnt` may be any two numbers of type
`int`.
-/

set_option autoImplicit false

namespace DistStore.PageRows

open CMemory Program Environment RedisOp RedisStore DataUse

/-- The end index of a page. -/
def lastId (fromId cnt : Int) : C Int := do
  let behind ← checkInt (fromId + cnt)
  checkInt (behind - 1)

/-- The number of rows `rop_range_list` reports. -/
def maxCount (elements : Nat) (count : Int) : Int :=
  if elements > toSize count then count else toInt elements

/-- The call of `rop_range_list` copies `valueNum` rows: it returns in every
block with as many rows, and leaves every block that is more than a byte
shorter. -/
structure Copies (env : Env) (fromId endId valueNum : Int) : Prop where
  returns : ∀ memory : Bytes, valueNum.toNat * valuesIdSize ≤ memory.length →
    ∃ filled, (ropRangeList fileInfoList fromId endId (some memory)).outcome env =
      .returned (0, some filled, valueNum)
  leaves : ∀ memory : Bytes, memory.length + 1 < valueNum.toNat * valuesIdSize →
    (ropRangeList fileInfoList fromId endId (some memory)).outcome env =
      .stopped (.fault .writeOutside)

/-- The end index is an `int`, and no more rows are copied than were
obtained. -/
def PageFits (env : Env) (fromId cnt : Int) : Prop :=
  ∃ endId valueNum, lastId fromId cnt = .ok endId ∧ Copies env fromId endId valueNum ∧
    valueNum ≤ max cnt 0

/-- Redis answers `LRANGE` from `list`. -/
def Answers (env : Env) (list : List Bytes) : Prop :=
  ∀ start stop, env (.redisCommand (.lrange fileInfoList start stop)) =
    some (.array ((lrange list start stop).map .string))

/-! ## The loop over the rows -/

/-- An element fills its row but for the last byte. -/
theorem paddedCopy_element (text : Bytes) (count : Nat) :
    ∃ copied, paddedCopy (text ++ [0]) count = .ok copied ∧ copied.length = count := by
  induction text generalizing count with
  | nil =>
      cases count with
      | zero => exact ⟨[], rfl, rfl⟩
      | succ count => exact ⟨zeros (count + 1), rfl, zeros_length _⟩
  | cons byte rest inductionHypothesis =>
      cases count with
      | zero => exact ⟨[], rfl, rfl⟩
      | succ count =>
          rw [List.cons_append, paddedCopy]
          split
          next zero => exact ⟨zeros (count + 1), rfl, zeros_length _⟩
          next nonzero =>
            obtain ⟨copied, done, length⟩ := inductionHypothesis count
            refine ⟨byte :: copied, ?_, congrArg Nat.succ length⟩
            rw [done]
            rfl

theorem strncpy_element (memory text : Bytes) (at_ : Nat) :
    ∃ copied : Bytes, copied.length = valuesIdSize - 1 ∧
      strncpy memory at_ (text ++ [0]) 0 (valuesIdSize - 1) = store memory at_ copied := by
  obtain ⟨copied, done, length⟩ := paddedCopy_element text (valuesIdSize - 1)
  have bound : ¬ ((valuesIdSize : Int) - 1 < 0) := by decide
  have count : ((valuesIdSize : Int) - 1).toNat = valuesIdSize - 1 := rfl
  refine ⟨copied, length, ?_⟩
  unfold strncpy
  rw [if_neg bound, count, List.drop_zero, done, ok_bind]

theorem copyRows_succ (list : List Bytes) {count i : Nat} (memory : Bytes)
    (inside : i < list.length) :
    copyRows (list.map .string) (count + 1) i (some memory) =
      strncpy memory (i * valuesIdSize) (list[i] ++ [0]) 0 (valuesIdSize - 1) >>=
        fun filled => copyRows (list.map .string) count (i + 1) (some filled) := by
  have element : (list.map Reply.string)[i]? = some (.string list[i]) := by
    rw [List.getElem?_map, List.getElem?_eq_getElem inside]
    rfl
  simp only [copyRows, element, present, Reply.str, ok_bind]

theorem copyRows_inside (list : List Bytes) (count i : Nat) (memory : Bytes)
    (enough : i + count ≤ list.length) (fits : (i + count) * valuesIdSize ≤ memory.length) :
    ∃ filled, copyRows (list.map .string) count i (some memory) = .ok (some filled) := by
  induction count generalizing i memory with
  | zero => exact ⟨memory, rfl⟩
  | succ count inductionHypothesis =>
      have inside : i < list.length := by omega
      have next : i + 1 + count = i + (count + 1) := by omega
      have rowFits : (i + 1) * valuesIdSize ≤ memory.length :=
        Nat.le_trans (Nat.mul_le_mul_right _ (by omega)) fits
      obtain ⟨copied, length, stores⟩ := strncpy_element memory list[i] (i * valuesIdSize)
      have room : i * valuesIdSize + copied.length ≤ memory.length := by
        have row := Paging.row_fits rowFits
        omega
      obtain ⟨row, stored⟩ := store_inside room
      obtain ⟨filled, rest⟩ := inductionHypothesis (i + 1) row (by omega)
        (by rw [store_length stored, next]; exact fits)
      exact ⟨filled, by rw [copyRows_succ list memory inside, stores, stored, ok_bind, rest]⟩

/-- The last row does not fit, if none before it has stopped the loop. -/
theorem copyRows_outside (list : List Bytes) (count i : Nat) (memory : Bytes)
    (enough : i + count ≤ list.length) (positive : 0 < count)
    (short : memory.length + 1 < (i + count) * valuesIdSize) :
    copyRows (list.map .string) count i (some memory) = .error .writeOutside := by
  induction count generalizing i memory with
  | zero => cases positive
  | succ count inductionHypothesis =>
      have inside : i < list.length := by omega
      obtain ⟨copied, length, stores⟩ := strncpy_element memory list[i] (i * valuesIdSize)
      rw [copyRows_succ list memory inside, stores, store]
      split
      next fits =>
        rw [length] at fits
        have stored : store memory (i * valuesIdSize) copied = .ok _ := if_pos (length ▸ fits)
        cases count with
        | zero =>
            have size : 0 < valuesIdSize := by decide
            rw [Nat.zero_add, Nat.succ_mul] at short
            omega
        | succ count =>
            apply inductionHypothesis (i + 1) _ (by omega) (Nat.succ_pos _)
            rw [store_length stored, show i + 1 + (count + 1) = i + (count + 1 + 1) by omega]
            exact short
      next large => rfl

/-! ## One call -/

variable {env : Env} {list : List Bytes}

theorem maxCount_le {elements : Nat} {endId : Int} (isInt : IsInt endId) :
    (maxCount elements endId).toNat ≤ elements := by
  rw [maxCount]
  split
  next large =>
    by_cases negative : endId < 0
    · omega
    · have upper := isInt.2
      have size : (toSize endId : Int) = endId := toSize_of_nonneg (by omega) (by omega)
      omega
  next small =>
    have reduced := toInt_le (Int.natCast_nonneg elements)
    omega

theorem ropRangeList_copies (answers : Answers env list) (fromId : Int) {endId : Int}
    (isInt : IsInt endId) :
    Copies env fromId endId (maxCount (lrange list fromId endId).length endId) := by
  generalize number : maxCount (lrange list fromId endId).length endId = valueNum
  have run : ∀ memory, (ropRangeList fileInfoList fromId endId (some memory)).outcome env =
      (do
        let filled ← ofC (copyRows ((lrange list fromId endId).map .string) valueNum.toNat 0
          (some memory))
        return ((0 : Int), filled, valueNum) : Code _).outcome env := by
    intro memory
    unfold ropRangeList
    rw [outcome_ask_bind, answers fromId endId, ← number]
    simp only [present, ofC_ok, Prog.ret_bind, Reply.element, List.length_map, maxCount]
  have enough : 0 + valueNum.toNat ≤ (lrange list fromId endId).length := by
    rw [Nat.zero_add, ← number]
    exact maxCount_le isInt
  constructor
  · intro memory room
    obtain ⟨filled, copied⟩ := copyRows_inside _ valueNum.toNat 0 memory enough
      (by rwa [Nat.zero_add])
    refine ⟨filled, ?_⟩
    rw [run, copied]
    rfl
  · intro memory short
    have positive : 0 < valueNum.toNat := by
      apply Nat.pos_of_ne_zero
      intro zero
      rw [zero, Nat.zero_mul] at short
      cases short
    have copied := copyRows_outside _ valueNum.toNat 0 memory enough positive
      (by rwa [Nat.zero_add])
    rw [run, copied]
    rfl

/-- A call copies one number of rows. -/
theorem Copies.unique {fromId endId first second : Int} (one : Copies env fromId endId first)
    (other : Copies env fromId endId second) : first = second := by
  obtain ⟨filled, returned⟩ := one.returns
    (zeros (max first.toNat second.toNat * valuesIdSize)) (by
      rw [zeros_length]
      exact Nat.mul_le_mul_right _ (Nat.le_max_left _ _))
  obtain ⟨filled', returned'⟩ := other.returns
    (zeros (max first.toNat second.toNat * valuesIdSize)) (by
      rw [zeros_length]
      exact Nat.mul_le_mul_right _ (Nat.le_max_right _ _))
  cases returned.symm.trans returned'
  rfl

/-! ## The number of rows -/

/-- A negative first index counts from the tail as well, and an end index that
is not negative counts from the front. -/
theorem length_lrange_le (list : List Bytes) {fromId cnt : Int}
    (inside : fromId < 0 ∨ 0 < fromId + cnt) :
    (lrange list fromId (fromId + cnt - 1)).length ≤ cnt.toNat := by
  rw [length_lrange]
  omega

/-- A negative end index behind a first index that is not counts from the tail:
the range has all but `-cnt` elements, wherever it starts. -/
theorem length_lrange_tail (list : List Bytes) {fromId cnt : Int} (front : 0 ≤ fromId)
    (tail : fromId + cnt ≤ 0) :
    (lrange list fromId (fromId + cnt - 1)).length = (list.length + cnt).toNat := by
  rw [length_lrange]
  omega

theorem maxCount_fits_iff (list : List Bytes) {fromId cnt : Int} (cntIsInt : IsInt cnt)
    (endIsInt : IsInt (fromId + cnt - 1)) :
    maxCount (lrange list fromId (fromId + cnt - 1)).length (fromId + cnt - 1) ≤ max cnt 0 ↔
      (0 ≤ fromId → fromId + cnt ≤ 0 →
        toInt (list.length + cnt) ≤ 0 ∨ toSize (fromId + cnt - 1) < list.length + cnt) := by
  by_cases inside : fromId < 0 ∨ 0 < fromId + cnt
  · have elements := length_lrange_le list inside
    have rows : (maxCount (lrange list fromId (fromId + cnt - 1)).length _).toNat ≤ _ :=
      maxCount_le endIsInt
    constructor
    · intro _ front tail
      omega
    · intro _
      omega
  · have front : 0 ≤ fromId := by omega
    have tail : fromId + cnt ≤ 0 := by omega
    have none : max cnt 0 = 0 := by omega
    rw [length_lrange_tail list front tail, none, maxCount]
    split
    next large =>
      constructor
      · intro _ _ _
        exact Or.inr (by omega)
      · intro _
        omega
    next small =>
      have notLarge : ¬ (toSize (fromId + cnt - 1) : Int) < list.length + cnt := by omega
      simp only [front, tail, notLarge, or_false, forall_true_left]
      by_cases positive : 0 ≤ list.length + cnt
      · rw [Int.toNat_of_nonneg positive]
      · have lower := cntIsInt.1
        have reduced : toInt (list.length + cnt) = list.length + cnt :=
          toInt_of_isInt ⟨by omega, by omega⟩
        have empty : (list.length + cnt).toNat = 0 := by omega
        rw [reduced, empty]
        have zero : toInt (0 : Nat) = 0 := rfl
        omega

theorem lastId_eq_ok_iff (fromId cnt endId : Int) :
    lastId fromId cnt = .ok endId ↔
      IsInt (fromId + cnt) ∧ IsInt (fromId + cnt - 1) ∧ endId = fromId + cnt - 1 := by
  unfold lastId
  rw [bind_eq_ok_iff]
  constructor
  · rintro ⟨behind, first, second⟩
    obtain ⟨rfl, behindIsInt⟩ := checkInt_eq_ok first
    obtain ⟨rfl, endIsInt⟩ := checkInt_eq_ok second
    exact ⟨behindIsInt, endIsInt, rfl⟩
  · rintro ⟨behindIsInt, endIsInt, rfl⟩
    exact ⟨_, checkInt_of_isInt behindIsInt, checkInt_of_isInt endIsInt⟩

/-- The block of `cnt` rows is left exactly by the calls that copy more. -/
theorem fetchValues_of_copies (connection : env (.redisConnect .readRedisToJson) = .ok)
    (allocated : ∀ size, env (.malloc .readRedisToJson size) ≠ none) {fromId endId valueNum : Int}
    {cnt : Nat} (size : cnt * valuesIdSize < 2 ^ 31) (computed : lastId fromId cnt = .ok endId)
    (copies : Copies env fromId endId valueNum) :
    (valueNum ≤ cnt → ∃ filled,
      (fetchValues fromId cnt).outcome env = .returned (0, some filled, valueNum)) ∧
    (cnt < valueNum → (fetchValues fromId cnt).outcome env = .stopped (.fault .writeOutside)) := by
  obtain ⟨block, obtained⟩ := Option.ne_none_iff_exists'.mp (allocated (cnt * valuesIdSize))
  obtain ⟨behind, first, last⟩ := (bind_eq_ok_iff _ _ _).mp computed
  have run := fetchValues_block connection first last size obtained
  have length : block.val.length = cnt * valuesIdSize := block.property
  constructor
  · intro fits
    obtain ⟨filled, returned⟩ := copies.returns block.val (by
      rw [length]
      exact Nat.mul_le_mul_right _ (by omega))
    exact ⟨filled, run.trans returned⟩
  · intro more
    refine run.trans (copies.leaves block.val ?_)
    have next : (cnt + 1) * valuesIdSize ≤ valueNum.toNat * valuesIdSize :=
      Nat.mul_le_mul_right _ (by omega)
    have row : 1 < valuesIdSize := by decide
    rw [Nat.succ_mul] at next
    omega

/-- A page stays inside its block unless its first index is not negative and its
end index is: then all but `-cnt` elements are copied.  Their number is reduced
to an `int` first, and a range longer than the end index as `size_t` is not
copied. -/
theorem page_fits_iff (answers : Answers env list) {fromId cnt : Int} (cntIsInt : IsInt cnt) :
    PageFits env fromId cnt ↔
      IsInt (fromId + cnt) ∧ IsInt (fromId + cnt - 1) ∧
        (0 ≤ fromId → fromId + cnt ≤ 0 →
          toInt (list.length + cnt) ≤ 0 ∨ toSize (fromId + cnt - 1) < list.length + cnt) := by
  constructor
  · rintro ⟨endId, valueNum, computed, copies, fits⟩
    obtain ⟨behindIsInt, endIsInt, rfl⟩ := (lastId_eq_ok_iff _ _ _).mp computed
    cases copies.unique (ropRangeList_copies answers fromId endIsInt)
    exact ⟨behindIsInt, endIsInt, (maxCount_fits_iff list cntIsInt endIsInt).mp fits⟩
  · rintro ⟨behindIsInt, endIsInt, fits⟩
    exact ⟨_, _, (lastId_eq_ok_iff _ _ _).mpr ⟨behindIsInt, endIsInt, rfl⟩,
      ropRangeList_copies answers fromId endIsInt,
      (maxCount_fits_iff list cntIsInt endIsInt).mpr fits⟩

theorem listServer_answers (list : List Paging.Entry) :
    Answers (Paging.listServer list) (list.map Subtype.val) :=
  fun _ _ => rfl

theorem page_fits_second_page : PageFits (Paging.listServer Paging.twoEntries) 1 1 :=
  (page_fits_iff (listServer_answers _) (by decide)).mpr (by decide)

/-- A page of no rows at the front of a list: both elements are copied into a
block of no bytes. -/
theorem not_page_fits_empty_page :
    ¬ PageFits (Paging.listServer Paging.twoEntries) 0 0 ∧
      (fetchValues 0 0).outcome (Paging.listServer Paging.twoEntries) =
        .stopped (.fault .writeOutside) := by
  have copies : Copies (Paging.listServer Paging.twoEntries) 0 (-1) 2 :=
    ropRangeList_copies (listServer_answers _) 0 (by decide)
  have computed : lastId 0 0 = .ok (-1) := by decide
  constructor
  · rintro ⟨endId, valueNum, sameEnd, sameRows, fits⟩
    cases computed.symm.trans sameEnd
    cases copies.unique sameRows
    exact absurd fits (by decide)
  · have holds := Paging.listServer_holds Paging.twoEntries
    have size : 0 * valuesIdSize < 2 ^ 31 := by decide
    exact (fetchValues_of_copies holds.connected holds.allocated size computed copies).2
      (by decide)

end DistStore.PageRows

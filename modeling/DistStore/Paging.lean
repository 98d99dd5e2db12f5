import DistStore.DataUse

/-!
# The pages `read_redis_to_json` obtains

`read_redis_to_json` passes the index of its last element to `rop_range_list`,
which sends it to `LRANGE` and bounds the number of rows it copies with it.
-/

set_option autoImplicit false

namespace DistStore.Paging

open CMemory Program Environment RedisOp RedisStore DataUse

/-- An element of the list as the programs push it. -/
abbrev Entry := { text : Bytes // 0 ∉ text ∧ text.length < valuesIdSize - 1 }

/-- The texts in `count` rows, from row `i` on. -/
def rowTexts (values : Option Bytes) : Nat → Nat → C (List Bytes)
  | 0, _ => .ok []
  | count + 1, i => do
      let memory ← present values
      let text ← strAt memory (i * valuesIdSize)
      let rest ← rowTexts values count (i + 1)
      return text :: rest

/-- The values of one page. -/
def obtained (env : Env) (fromId cnt : Int) : Option (List Bytes) :=
  match (fetchValues fromId cnt).outcome env with
  | .returned (retn, values, valueNum) =>
      if retn < 0 then none else (rowTexts values valueNum.toNat 0).toOption
  | .stopped _ => none

/-- The values of `count` pages of size `cnt`, from page `i` on. -/
def obtainedPages (env : Env) (cnt : Nat) : Nat → Nat → Option (List Bytes)
  | 0, _ => some []
  | count + 1, i => do
      let page ← obtained env (i * cnt : Nat) cnt
      let rest ← obtainedPages env cnt count (i + 1)
      return page ++ rest

/-- Redis is there and holds `list`, and the memory for the rows is found. -/
structure Holds (env : Env) (list : List Entry) : Prop where
  connected : env (.redisConnect .readRedisToJson) = .ok
  allocated : ∀ size, env (.malloc .readRedisToJson size) ≠ none
  answered : ∀ start stop, env (.redisCommand (.lrange fileInfoList start stop)) =
    some (.array ((lrange (list.map Subtype.val) start stop).map .string))

/-! ## The rows -/

theorem row_fits {i : Nat} {memory : Bytes} (fits : (i + 1) * valuesIdSize ≤ memory.length) :
    i * valuesIdSize + valuesIdSize ≤ memory.length := by
  rwa [Nat.succ_mul] at fits

/-- Row `i` is written and the rows before it are kept. -/
theorem copyRow_eq {memory : Bytes} (entry : Entry) (i : Nat)
    (fits : (i + 1) * valuesIdSize ≤ memory.length) :
    ∃ filled, strncpy memory (i * valuesIdSize) (entry.val ++ [0]) 0 (valuesIdSize - 1) =
        .ok filled ∧ filled.length = memory.length ∧
      filled.take (i * valuesIdSize) = memory.take (i * valuesIdSize) ∧
      strAt filled (i * valuesIdSize) = .ok entry.val := by
  obtain ⟨text, nulFree, short⟩ := entry
  have room := row_fits fits
  have size : 0 < valuesIdSize := by decide
  have source : strAt (text ++ [0]) 0 = .ok text := strAt_append [] text [] nulFree
  have bytes : (padTo (valuesIdSize - 1) text).length = valuesIdSize - 1 :=
    padTo_length _ _ short.le
  have before : (memory.take (i * valuesIdSize)).length = i * valuesIdSize :=
    List.length_take_of_le (by omega)
  have copied : strncpy memory (i * valuesIdSize) (text ++ [0]) 0 (valuesIdSize - 1) =
      store memory (i * valuesIdSize) (padTo (valuesIdSize - 1) text) :=
    strncpy_of_lt memory _ (valuesIdSize - 1) source short
  have stored := copied.trans (if_pos (by rw [bytes]; omega))
  refine ⟨_, stored, store_length (copied ▸ stored), ?_, ?_⟩
  · rw [List.append_assoc, List.take_left' before]
  · have tail := zeros_eq_cons (show 0 < valuesIdSize - 1 - text.length by omega)
    rw [padTo, tail, List.append_assoc, List.append_assoc, List.cons_append]
    have found := strAt_append (memory.take (i * valuesIdSize)) text
      (zeros (valuesIdSize - 1 - text.length - 1) ++
        memory.drop (i * valuesIdSize + (text ++ 0 :: zeros (valuesIdSize - 1 - text.length - 1)).length))
      nulFree
    rwa [before] at found

/-- The loop of `rop_range_list` leaves each element in its row. -/
theorem copyRows_eq (list : List Entry) (count i : Nat) (memory : Bytes)
    (enough : i + count ≤ list.length) (fits : (i + count) * valuesIdSize ≤ memory.length) :
    ∃ filled, copyRows (list.map fun entry => .string entry.val) count i (some memory) =
        .ok (some filled) ∧
      filled.take (i * valuesIdSize) = memory.take (i * valuesIdSize) ∧
      rowTexts (some filled) count i = .ok (((list.drop i).take count).map Subtype.val) := by
  induction count generalizing i memory with
  | zero => exact ⟨memory, rfl, rfl, by simp [rowTexts]⟩
  | succ count inductionHypothesis =>
      have inside : i < list.length := by omega
      have next : i + 1 + count = i + (count + 1) := by omega
      have rowFits : (i + 1) * valuesIdSize ≤ memory.length :=
        Nat.le_trans (Nat.mul_le_mul_right _ (by omega)) fits
      obtain ⟨row, copied, length, front, text⟩ := copyRow_eq list[i] i rowFits
      obtain ⟨filled, rest, kept, texts⟩ := inductionHypothesis (i + 1) row (by omega)
        (length ▸ next ▸ fits)
      have found : strAt filled (i * valuesIdSize) = .ok list[i].val := by
        have short := list[i].property.2
        refine strAt_of_take kept text ?_
        rw [Nat.succ_mul]
        omega
      refine ⟨filled, ?_, ?_, ?_⟩
      · have element : (list.map fun entry => Reply.string entry.val)[i]? =
            some (.string list[i].val) := by
          rw [List.getElem?_map, List.getElem?_eq_getElem inside]
          rfl
        simp only [copyRows, element, present, Reply.str, ok_bind, copied]
        exact rest
      · have earlier := congrArg (List.take (i * valuesIdSize)) kept
        have before : i * valuesIdSize ≤ (i + 1) * valuesIdSize :=
          Nat.mul_le_mul_right _ (Nat.le_succ i)
        rw [List.take_take, List.take_take, Nat.min_eq_left before] at earlier
        exact earlier.trans front
      · simp only [rowTexts, present, ok_bind, found, texts]
        rw [List.drop_eq_getElem_cons inside, List.take_succ_cons, List.map_cons]
        rfl

/-! ## One page -/

variable {env : Env} {list : List Entry}

/-- The bound `rop_range_list` computes from its end index. -/
theorem maxCount_eq {elements endId : Nat} (isInt : IsInt (endId : Nat)) :
    (if elements > toSize endId then (endId : Int) else toInt elements) =
      (min elements endId : Nat) := by
  obtain ⟨-, upper⟩ := isInt
  have size : toSize endId = endId := toSize_natCast (by omega)
  rw [size]
  split
  next large => rw [Nat.min_eq_right (by omega)]
  next small =>
    rw [Nat.min_eq_left (by omega)]
    exact toInt_of_isInt ⟨by omega, by omega⟩

/-- The rows behind `rop_range_list`, when the block has `cnt` of them. -/
theorem ropRangeList_eq (holds : Holds env list) {fromId cnt : Nat} (positive : 0 < cnt)
    (isInt : IsInt (fromId + cnt)) {memory : Bytes} (fits : cnt * valuesIdSize ≤ memory.length) :
    ∃ filled valueNum,
      (ropRangeList fileInfoList fromId (fromId + cnt - 1) (some memory)).outcome env =
        .returned (0, some filled, valueNum) ∧
      rowTexts (some filled) valueNum.toNat 0 =
        .ok ((((list.drop fromId).take cnt).take (fromId + cnt - 1)).map Subtype.val) := by
  have endId : (fromId : Int) + cnt - 1 = (fromId + cnt - 1 : Nat) := by omega
  have small : IsInt (fromId + cnt - 1 : Nat) := by
    obtain ⟨lower, upper⟩ := isInt
    exact ⟨by omega, by omega⟩
  generalize page : (list.drop fromId).take cnt = entries
  have short : entries.length ≤ cnt := page ▸ List.length_take_le _ _
  have reply : env (.redisCommand (.lrange fileInfoList fromId (fromId + cnt - 1))) =
      some (.array (entries.map fun entry => .string entry.val)) := by
    rw [holds.answered, lrange_page _ _ _ positive, ← List.map_drop, ← List.map_take, page,
      List.map_map]
    rfl
  have bound : _ = ((min entries.length (fromId + cnt - 1) : Nat) : Int) := maxCount_eq small
  obtain ⟨filled, copied, -, texts⟩ := copyRows_eq entries
    (min entries.length (fromId + cnt - 1)) 0 memory (by omega) (by
      refine Nat.le_trans (Nat.mul_le_mul_right _ ?_) fits
      omega)
  refine ⟨filled, (min entries.length (fromId + cnt - 1) : Nat), ?_, ?_⟩
  · rw [ropRangeList, outcome_ask_bind, reply]
    simp only [present, ofC_ok, Prog.ret_bind, Reply.element, List.length_map, endId, bound,
      Int.toNat_natCast, copied]
    rfl
  · have same : entries.take (min entries.length (fromId + cnt - 1)) =
        entries.take (fromId + cnt - 1) := List.take_eq_take_iff.mpr (by omega)
    rw [Int.toNat_natCast, texts, List.drop_zero, same]

theorem endId_isInt {fromId cnt : Nat} (positive : 0 < cnt) (isInt : IsInt (fromId + cnt)) :
    IsInt ((fromId : Int) + cnt - 1) := by
  obtain ⟨lower, upper⟩ := isInt
  exact ⟨by omega, by omega⟩

/-- The rows of a page whose block has a size of type `int`. -/
theorem fetchValues_rows (holds : Holds env list) {fromId cnt : Nat} (positive : 0 < cnt)
    (isInt : IsInt (fromId + cnt)) (fits : cnt * valuesIdSize < 2 ^ 31) :
    ∃ filled valueNum,
      (fetchValues fromId cnt).outcome env = .returned (0, some filled, valueNum) ∧
      rowTexts (some filled) valueNum.toNat 0 =
        .ok ((((list.drop fromId).take cnt).take (fromId + cnt - 1)).map Subtype.val) := by
  have behind : checkInt ((fromId : Int) + cnt) = .ok (fromId + cnt) := checkInt_of_isInt isInt
  have endId := checkInt_of_isInt (endId_isInt positive isInt)
  cases answer : env (.malloc .readRedisToJson (cnt * valuesIdSize)) with
  | none => exact absurd answer (holds.allocated _)
  | some block =>
      obtain ⟨filled, valueNum, returned, texts⟩ :=
        ropRangeList_eq holds positive isInt block.property.ge
      exact ⟨filled, valueNum,
        (fetchValues_block holds.connected behind endId fits answer).trans returned, texts⟩

/-- A page starting at `fromId` is cut to `fromId + cnt - 1` elements. -/
theorem obtained_eq (holds : Holds env list) {fromId cnt : Nat} (positive : 0 < cnt)
    (isInt : IsInt (fromId + cnt)) :
    obtained env fromId cnt =
      if cnt * valuesIdSize < 2 ^ 31 then
        some ((((list.drop fromId).take cnt).take (fromId + cnt - 1)).map Subtype.val)
      else none := by
  by_cases fits : cnt * valuesIdSize < 2 ^ 31
  · obtain ⟨filled, valueNum, returned, texts⟩ := fetchValues_rows holds positive isInt fits
    rw [obtained, if_pos fits, returned]
    simp only [texts]
    rfl
  · have behind : checkInt ((fromId : Int) + cnt) = .ok (fromId + cnt) := checkInt_of_isInt isInt
    have endId := checkInt_of_isInt (endId_isInt positive isInt)
    rw [obtained, if_neg fits, fetchValues_overflow holds.connected behind endId fits]

/-! ## Exact pages -/

/-- The cut does nothing behind the first page or on a page that is not full. -/
theorem cut_page_iff {α : Type} (list : List α) {fromId cnt : Nat} (positive : 0 < cnt) :
    ((list.drop fromId).take cnt).take (fromId + cnt - 1) = (list.drop fromId).take cnt ↔
      0 < fromId ∨ list.length < cnt := by
  rw [List.take_eq_self_iff, List.length_take, List.length_drop]
  omega

theorem obtained_exact_iff (holds : Holds env list) {fromId cnt : Nat} (positive : 0 < cnt)
    (isInt : IsInt (fromId + cnt)) :
    obtained env fromId cnt = some (((list.drop fromId).take cnt).map Subtype.val) ↔
      (0 < fromId ∨ list.length < cnt) ∧ cnt * valuesIdSize < 2 ^ 31 := by
  rw [obtained_eq holds positive isInt, ← cut_page_iff list positive]
  split
  next fits =>
    rw [Option.some.injEq, (List.map_injective_iff.mpr Subtype.val_injective).eq_iff]
    exact (and_iff_left fits).symm
  next large =>
    constructor
    · intro absurdPage
      cases absurdPage
    · intro both
      exact absurd both.2 large

/-! ## All pages -/

/-- The pages behind the first one are exact. -/
theorem obtainedPages_eq (holds : Holds env list) {cnt : Nat} (positive : 0 < cnt)
    (fits : cnt * valuesIdSize < 2 ^ 31) (count i : Nat) (behindFirst : 0 < i)
    (isInt : IsInt ((i + count) * cnt : Nat)) :
    obtainedPages env cnt count i =
      some (((list.drop (i * cnt)).take (count * cnt)).map Subtype.val) := by
  induction count generalizing i with
  | zero => simp [obtainedPages]
  | succ count inductionHypothesis =>
      have notFirst : 0 < i * cnt := Nat.mul_pos behindFirst positive
      have sum : (i + (count + 1)) * cnt = i * cnt + cnt + count * cnt := by ring
      have pageIsInt : IsInt ((i * cnt : Nat) + cnt) := by
        obtain ⟨lower, upper⟩ := isInt
        exact ⟨by omega, by omega⟩
      have page := (obtained_exact_iff holds positive pageIsInt).mpr ⟨Or.inl notFirst, fits⟩
      have rest := inductionHypothesis (i + 1) (Nat.succ_pos i)
        (by rwa [show i + 1 + count = i + (count + 1) by omega])
      have joined : (list.drop (i * cnt)).take ((count + 1) * cnt) =
          (list.drop (i * cnt)).take cnt ++ (list.drop ((i + 1) * cnt)).take (count * cnt) := by
        rw [Nat.succ_mul, Nat.add_comm (count * cnt), List.take_add, List.drop_drop, Nat.succ_mul]
      rw [obtainedPages, page, rest, joined, List.map_append]
      rfl

/-- All pages together: the first one is cut. -/
theorem allPages_eq (holds : Holds env list) {cnt pages : Nat} (positive : 0 < cnt)
    (nonempty : 0 < pages) (enough : list.length ≤ pages * cnt) (isInt : IsInt (pages * cnt : Nat)) :
    obtainedPages env cnt pages 0 =
      if cnt * valuesIdSize < 2 ^ 31 then
        some ((list.take (cnt - 1) ++ list.drop cnt).map Subtype.val)
      else none := by
  cases pages with
  | zero => cases nonempty
  | succ count =>
      have sum : (count + 1) * cnt = cnt + count * cnt := by rw [Nat.succ_mul, Nat.add_comm]
      have firstIsInt : IsInt ((0 : Nat) + cnt) := by
        obtain ⟨lower, upper⟩ := isInt
        exact ⟨by omega, by omega⟩
      have first := obtained_eq holds positive firstIsInt
      have cut : ((list.drop 0).take cnt).take (0 + cnt - 1) = list.take (cnt - 1) := by
        rw [List.drop_zero, List.take_take, Nat.min_eq_left (by omega), Nat.zero_add]
      rw [cut] at first
      have start : (0 * cnt : Nat) = 0 := Nat.zero_mul cnt
      rw [obtainedPages, start, first]
      split
      next fits =>
        have restIsInt : IsInt ((1 + count) * cnt : Nat) := by rwa [Nat.add_comm 1 count]
        have rest := obtainedPages_eq holds positive fits count 1 Nat.one_pos restIsInt
        have whole : (list.drop (1 * cnt)).take (count * cnt) = list.drop cnt := by
          rw [Nat.one_mul]
          apply List.take_of_length_le
          rw [List.length_drop]
          omega
        rw [whole] at rest
        rw [rest, List.map_append]
        rfl
      next large => rfl

theorem allPages_exact_iff (holds : Holds env list) {cnt pages : Nat} (positive : 0 < cnt)
    (nonempty : 0 < pages) (enough : list.length ≤ pages * cnt)
    (isInt : IsInt (pages * cnt : Nat)) :
    obtainedPages env cnt pages 0 = some (list.map Subtype.val) ↔
      list.length < cnt ∧ cnt * valuesIdSize < 2 ^ 31 := by
  have whole : list.take (cnt - 1) ++ list.drop cnt = list ↔ list.length < cnt := by
    constructor
    · intro same
      have length := congrArg List.length same
      rw [List.length_append, List.length_take, List.length_drop] at length
      omega
    · intro short
      rw [List.take_of_length_le (by omega), List.drop_of_length_le (by omega), List.append_nil]
  rw [allPages_eq holds positive nonempty enough isInt, ← whole]
  split
  next fits =>
    rw [Option.some.injEq, (List.map_injective_iff.mpr Subtype.val_injective).eq_iff]
    exact (and_iff_left fits).symm
  next large =>
    constructor
    · intro absurdPages
      cases absurdPages
    · intro both
      exact absurd both.2 large

/-- A page is exact behind the first one and where the list is shorter than the
page, and the pages together are the list only in the second case. -/
theorem paging_exact_iff (env : Env) (list : List Entry) (holds : Holds env list) :
    (∀ fromId cnt : Nat, 0 < cnt → IsInt (fromId + cnt) →
      (obtained env fromId cnt = some (((list.drop fromId).take cnt).map Subtype.val) ↔
        (0 < fromId ∨ list.length < cnt) ∧ cnt * valuesIdSize < 2 ^ 31)) ∧
    ∀ cnt pages : Nat, 0 < cnt → 0 < pages → list.length ≤ pages * cnt →
      IsInt (pages * cnt : Nat) →
      (obtainedPages env cnt pages 0 = some (list.map Subtype.val) ↔
        list.length < cnt ∧ cnt * valuesIdSize < 2 ^ 31) := by
  constructor
  · intro fromId cnt positive isInt
    exact obtained_exact_iff holds positive isInt
  · intro cnt pages positive nonempty enough isInt
    exact allPages_exact_iff holds positive nonempty enough isInt

/-- A server that holds `list`. -/
def listServer (list : List Entry) : Env
  | .redisCommand (.lrange _ start stop) =>
      some (.array ((lrange (list.map Subtype.val) start stop).map .string))
  | call => allSucceed call

theorem listServer_holds (list : List Entry) : Holds (listServer list) list where
  connected := rfl
  allocated := fun _ => Option.some_ne_none _
  answered := fun _ _ => rfl

def twoEntries : List Entry := [⟨lit "a||", by decide⟩, ⟨lit "b||", by decide⟩]

/-- The second page of one element. -/
theorem paging_exact_second_page :
    obtained (listServer twoEntries) (1 : Nat) (1 : Nat) = some [lit "b||"] :=
  ((paging_exact_iff _ _ (listServer_holds twoEntries)).1 1 1 (by decide) (by decide)).mpr
    (by decide)

/-- The first page of two elements has one, and the list is not put together
again from its pages. -/
theorem paging_loses_element :
    obtained (listServer twoEntries) (0 : Nat) (2 : Nat) = some [lit "a||"] ∧
      obtainedPages (listServer twoEntries) 2 1 0 ≠ some [lit "a||", lit "b||"] := by
  have page : obtained (listServer twoEntries) (0 : Nat) (2 : Nat) = _ :=
    obtained_eq (listServer_holds twoEntries) (by decide) (by decide)
  have pages : obtainedPages (listServer twoEntries) 2 1 0 = _ :=
    allPages_eq (listServer_holds twoEntries) (by decide) (by decide) (by decide) (by decide)
  constructor
  · exact page
  · rw [pages]
    decide

end DistStore.Paging

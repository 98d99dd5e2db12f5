import DistStore.Lib.CNumber
import Mathlib.Data.List.DropRight

/-!
# `trim_space`

The two pointers walk towards each other and the text between them is moved
to the front of the buffer by a copy that overlaps itself, read here as a copy
of one byte after the other.
-/

set_option autoImplicit false

namespace DistStore.Trim

open CMemory

def beginLoop : Bytes → Nat → C Nat
  | [], _ => .error .readOutside
  | byte :: rest, begin_ =>
      if isspace byte ∧ byte ≠ 0 then beginLoop rest (begin_ + 1) else .ok begin_

/-- The loop on `end`, given as the offset behind it.  In an empty string `end`
starts on the byte before the buffer. -/
def endLoop (before : Byte) (memory : Bytes) (begin_ : Nat) : Nat → C Nat
  | 0 => if isspace before ∧ (-1 : Int) - begin_ > 0 then .error .readOutside else .ok 0
  | end_ + 1 => do
      let byte ← byteAt memory end_
      if isspace byte ∧ (end_ : Int) - begin_ > 0 then endLoop before memory begin_ end_
      else return end_ + 1

/-- `strncpy` to the front of the buffer it reads from, byte by byte. -/
def copyForward (from_ : Nat) : Nat → Nat → Bytes → C Bytes
  | 0, _, memory => .ok memory
  | count + 1, at_, memory => do
      let byte ← byteAt memory (from_ + at_)
      if byte = 0 then store memory at_ (zeros (count + 1))
      else
        let next ← store memory at_ [byte]
        copyForward from_ count (at_ + 1) next

/-- `trim_space`: the returned code and the buffer.  Its null test assigns
instead of comparing and is never taken; the length of the kept text is an
`int`. -/
def trimSpace (before : Byte) (memory : Bytes) : C (Int × Bytes) := do
  let length ← strlen memory 0
  let begin_ ← beginLoop memory 0
  let end_ ← endLoop before memory begin_ length
  let len := toInt ((end_ : Int) - begin_)
  let moved ← if len < 0 then .error .negativeSize else copyForward begin_ len.toNat 0 memory
  let ended ← store moved len.toNat [0]
  return (0, ended)

/-- The text without its leading and trailing white space. -/
def trimText (text : Bytes) : Bytes := (text.dropWhile isspace).rdropWhile isspace

theorem beginLoop_eq {text : Bytes} (nulFree : 0 ∉ text) (rest : Bytes) (begin_ : Nat) :
    beginLoop (text ++ 0 :: rest) begin_ = .ok (begin_ + (text.takeWhile isspace).length) := by
  induction text generalizing begin_ with
  | nil => simp [beginLoop]
  | cons byte tail inductionHypothesis =>
      have byteNonzero : byte ≠ 0 := fun zero => nulFree (by simp [zero])
      have tailFree : 0 ∉ tail := fun member => nulFree (List.mem_cons_of_mem _ member)
      cases space : isspace byte with
      | false => simp [beginLoop, space]
      | true =>
          simp only [List.cons_append, beginLoop, space, byteNonzero, ne_eq, not_false_eq_true,
            and_self, if_true, inductionHypothesis tailFree, List.takeWhile_cons, List.length_cons]
          congr 1
          omega

/-- Where the text between the pointers starts with a byte that is kept, the
second loop drops exactly its trailing white space. -/
theorem endLoop_eq (before : Byte) (spaces body tail : Bytes) (nonempty : body ≠ [])
    (kept : ∀ byte, body.head? = some byte → isspace byte = false) :
    endLoop before (spaces ++ (body ++ tail)) spaces.length (spaces.length + body.length) =
      .ok (spaces.length + (body.rdropWhile isspace).length) := by
  induction body using List.reverseRecOn generalizing tail with
  | nil => exact absurd rfl nonempty
  | append_singleton init last inductionHypothesis =>
      have here : byteAt (spaces ++ ((init ++ [last]) ++ tail)) (spaces.length + init.length) =
          .ok last := by
        simp [byteAt]
      rw [List.length_append, List.length_singleton, ← Nat.add_assoc, endLoop, here, ok_bind]
      cases space : isspace last with
      | false =>
          rw [List.rdropWhile_concat_neg _ _ _ (by simp [space])]
          simp [Nat.add_assoc]
      | true =>
          have initNonempty : init ≠ [] := by
            intro empty
            subst empty
            have notSpace := kept last (by simp)
            rw [space] at notSpace
            cases notSpace
          have initKept : ∀ byte, init.head? = some byte → isspace byte = false := by
            intro byte found
            refine kept byte ?_
            rw [List.head?_append, found]
            rfl
          have positive : 0 < init.length := List.length_pos_iff.mpr initNonempty
          have further : ((spaces.length + init.length : Nat) : Int) - spaces.length > 0 := by omega
          rw [if_pos ⟨rfl, further⟩, List.rdropWhile_concat_pos _ _ _ space, List.append_assoc]
          exact inductionHypothesis ([last] ++ tail) initNonempty initKept

/-- In a blank text `end` already stands before `begin`. -/
theorem endLoop_blank (before : Byte) (spaces rest : Bytes) :
    endLoop before (spaces ++ rest) spaces.length spaces.length = .ok spaces.length := by
  cases length : spaces.length with
  | zero => simp [endLoop]
  | succ count =>
      have inside : count < (spaces ++ rest).length := by
        rw [List.length_append]
        omega
      simp [endLoop, byteAt, List.getElem?_eq_getElem inside]

theorem copyForward_eq (from_ count at_ : Nat) (memory : Bytes)
    (inside : from_ + at_ + count ≤ memory.length)
    (nulFree : 0 ∉ (memory.drop (from_ + at_)).take count) :
    copyForward from_ count at_ memory =
      .ok (memory.take at_ ++ (memory.drop (from_ + at_)).take count ++
        memory.drop (at_ + count)) := by
  induction count generalizing at_ memory with
  | zero => simp [copyForward]
  | succ count inductionHypothesis =>
      have bound : from_ + at_ < memory.length := by omega
      have split : memory.drop (from_ + at_) =
          memory[from_ + at_] :: memory.drop (from_ + at_ + 1) := List.drop_eq_getElem_cons bound
      have byteNonzero : memory[from_ + at_] ≠ 0 := by
        intro zero
        rw [split, List.take_succ_cons, zero] at nulFree
        exact nulFree (by simp)
      have room : at_ + [memory[from_ + at_]].length ≤ memory.length := by
        rw [List.length_singleton]
        omega
      obtain ⟨next, stored⟩ := store_inside room
      have front : next.take (at_ + 1) = memory.take at_ ++ [memory[from_ + at_]] :=
        store_take stored
      -- the bytes still to be read lie behind the one just written
      have unread : ∀ offset, next.drop (at_ + 1 + offset) = memory.drop (at_ + 1 + offset) :=
        store_drop stored
      have later : from_ + (at_ + 1) = at_ + 1 + from_ := Nat.add_comm _ _
      have tailFree : 0 ∉ (next.drop (from_ + (at_ + 1))).take count := by
        rw [later, unread, ← later]
        rw [split, List.take_succ_cons] at nulFree
        exact fun member => nulFree (List.mem_cons_of_mem _ member)
      have moved := inductionHypothesis (at_ + 1) next (by rw [store_length stored]; omega) tailFree
      rw [copyForward, byteAt, List.getElem?_eq_getElem bound, ok_bind, if_neg byteNonzero, stored,
        ok_bind, moved, front, later, unread, unread, ← later, split, List.take_succ_cons,
        show at_ + (count + 1) = at_ + 1 + count by omega]
      simp only [List.append_assoc, List.cons_append, List.nil_append, Nat.add_assoc]

theorem dropWhile_head {text : Bytes} {byte : Byte}
    (found : (text.dropWhile isspace).head? = some byte) : isspace byte = false := by
  have first := List.head?_dropWhile_not isspace text
  rw [found] at first
  exact first

theorem endLoop_text (before : Byte) (text rest : Bytes) :
    endLoop before (text ++ rest) (text.takeWhile isspace).length text.length =
      .ok ((text.takeWhile isspace).length + (trimText text).length) := by
  have split : text = text.takeWhile isspace ++ text.dropWhile isspace :=
    List.takeWhile_append_dropWhile.symm
  by_cases blank : text.dropWhile isspace = []
  · have whole : text.takeWhile isspace = text := by
      rw [blank, List.append_nil] at split
      exact split.symm
    rw [trimText, blank, whole, endLoop_blank]
    simp
  · have scanned := endLoop_eq before (text.takeWhile isspace) (text.dropWhile isspace) rest
      blank fun _ found => dropWhile_head found
    rw [← List.append_assoc, ← split, ← List.length_append, ← split] at scanned
    exact scanned

theorem trimText_front (text : Bytes) :
    trimText text <+: text.dropWhile isspace := List.rdropWhile_prefix _ _

theorem trimText_nulFree {text : Bytes} (nulFree : 0 ∉ text) : 0 ∉ trimText text :=
  fun member => nulFree ((List.dropWhile_suffix _).subset ((trimText_front text).subset member))

theorem trimText_length_le (text : Bytes) : (trimText text).length ≤ text.length :=
  (trimText_front text).length_le.trans (List.dropWhile_suffix _).length_le

/-- What the pointers leave to the copy, whose length is an `int`. -/
theorem trimSpace_moves (before : Byte) {text : Bytes} (nulFree : 0 ∉ text) (rest : Bytes)
    {len : Int} (cut : toInt (trimText text).length = len) (nonnegative : ¬ len < 0) :
    trimSpace before (text ++ 0 :: rest) = (do
      let moved ← copyForward (text.takeWhile isspace).length len.toNat 0 (text ++ 0 :: rest)
      let ended ← store moved len.toNat [0]
      return (0, ended)) := by
  have length : strlen (text ++ 0 :: rest) 0 = .ok text.length :=
    strlen_of_strAt (strAt_append [] text rest nulFree)
  have between : (((text.takeWhile isspace).length + (trimText text).length : Nat) : Int) -
      (text.takeWhile isspace).length = (trimText text).length := by omega
  simp only [trimSpace, length, beginLoop_eq nulFree, Nat.zero_add, endLoop_text, ok_bind,
    between, cut, if_neg nonnegative]

/-- `trim_space` leaves the trimmed text in place and the bytes behind its NUL
as they were. -/
theorem trimSpace_eq (before : Byte) {text : Bytes} (nulFree : 0 ∉ text) (rest : Bytes)
    (small : (trimText text).length < 2 ^ 31) :
    trimSpace before (text ++ 0 :: rest) =
      .ok (0, trimText text ++ 0 :: (text ++ 0 :: rest).drop ((trimText text).length + 1)) := by
  have split : text = text.takeWhile isspace ++ text.dropWhile isspace :=
    List.takeWhile_append_dropWhile.symm
  obtain ⟨dropped, shape⟩ := trimText_front text
  have lengths : text.length =
      (text.takeWhile isspace).length + (trimText text).length + dropped.length := by
    conv_lhs => rw [split, ← shape]
    simp only [List.length_append]
    omega
  have moving : ((text ++ 0 :: rest).drop (text.takeWhile isspace).length).take
      (trimText text).length = trimText text := by
    conv_lhs =>
      rw [show text ++ 0 :: rest =
        text.takeWhile isspace ++ (trimText text ++ (dropped ++ 0 :: rest)) by
          rw [← List.append_assoc (trimText text), shape, ← List.append_assoc, ← split]]
    rw [List.drop_left, List.take_left]
  have trimFree := trimText_nulFree nulFree
  have copied := copyForward_eq (text.takeWhile isspace).length (trimText text).length 0
    (text ++ 0 :: rest)
    (by
      simp only [List.length_append, List.length_cons]
      omega)
    (by rwa [Nat.add_zero, moving])
  rw [Nat.add_zero, moving, List.take_zero, List.nil_append, Nat.zero_add] at copied
  have len : toInt (trimText text).length = (trimText text).length :=
    toInt_of_isInt ⟨by omega, by omega⟩
  have nonnegative : ¬ ((trimText text).length : Int) < 0 := by omega
  have stored : store (trimText text ++ (text ++ 0 :: rest).drop (trimText text).length)
      (trimText text).length [0] =
      .ok (trimText text ++ 0 :: (text ++ 0 :: rest).drop ((trimText text).length + 1)) := by
    have room : (trimText text).length + 1 ≤ (text ++ 0 :: rest).length := by
      rw [List.length_append, List.length_cons]
      omega
    rw [store, if_pos (by
      simp only [List.length_append, List.length_drop, List.length_singleton] at room ⊢
      omega), List.take_left, ← List.drop_drop, List.drop_left, List.drop_drop]
    simp
  rw [trimSpace_moves before nulFree rest len nonnegative, Int.toNat_natCast, copied, ok_bind,
    stored]
  rfl

theorem trimSpace_strAt (before : Byte) {memory text : Bytes}
    (holds : strAt memory 0 = .ok text) (small : text.length < 2 ^ 31) :
    ∃ trimmed, trimSpace before memory = .ok (0, trimmed) ∧
      strAt trimmed 0 = .ok (trimText text) ∧ trimmed.length = memory.length := by
  obtain ⟨nulFree, rest, shape⟩ := (strAt_eq_ok_iff _ _ _).mp holds
  rw [List.drop_zero] at shape
  subst shape
  have trimFree := trimText_nulFree nulFree
  have short := trimText_length_le text
  refine ⟨_, trimSpace_eq before nulFree rest (by omega), strAt_append [] _ _ trimFree, ?_⟩
  simp only [List.length_append, List.length_cons, List.length_drop]
  omega

theorem trimText_eq_nil_iff (text : Bytes) :
    trimText text = [] ↔ ∀ byte ∈ text, isspace byte = true := by
  rw [trimText, List.rdropWhile_eq_nil_iff]
  constructor
  · intro blank
    have emptied : text.dropWhile isspace = [] := by
      rcases remaining : text.dropWhile isspace with _ | ⟨byte, tail⟩
      · rfl
      · have first := List.head?_dropWhile_not isspace text
        rw [remaining] at first blank
        simp [blank byte (by simp)] at first
    exact List.dropWhile_eq_nil_iff.mp emptied
  · intro blank byte member
    exact blank byte ((List.dropWhile_suffix _).subset member)

theorem trimSpace_eq_ok {before : Byte} {memory result : Bytes} {code : Int}
    (small : memory.length ≤ 2 ^ 31) (trimmed : trimSpace before memory = .ok (code, result)) :
    ∃ text, strAt memory 0 = .ok text ∧ code = 0 ∧ strAt result 0 = .ok (trimText text) ∧
      result.length = memory.length := by
  obtain ⟨length, measured, -⟩ := (bind_eq_ok_iff _ _ _).mp trimmed
  obtain ⟨text, holds, -⟩ := (bind_eq_ok_iff _ _ _).mp measured
  have inside := strAt_length holds
  obtain ⟨expected, trims, textAt, sameLength⟩ := trimSpace_strAt before holds (by omega)
  cases trimmed.symm.trans trims
  exact ⟨text, holds, rfl, textAt, sameLength⟩

/-- The byte before the buffer is compared only where the comparison of the
pointers fails anyway. -/
theorem trimSpace_before (before other : Byte) (memory : Bytes) :
    trimSpace before memory = trimSpace other memory := by
  have same : ∀ begin_ length, endLoop before memory begin_ length =
      endLoop other memory begin_ length := by
    intro begin_ length
    induction length with
    | zero =>
        have never : ¬ (-1 : Int) - begin_ > 0 := by omega
        simp only [endLoop, never, and_false, if_false]
    | succ length inductionHypothesis => simp only [endLoop, inductionHypothesis]
  simp only [trimSpace, same]

/-! ## The whole function -/

/-- No white space stands at either end. -/
def Bare (text : Bytes) : Prop :=
  (∀ byte, text.head? = some byte → isspace byte = false) ∧
    ∀ byte, text.getLast? = some byte → isspace byte = false

/-- The text and the part of it that is left when the white space around it
goes. -/
structure Trimmed (text kept : Bytes) : Prop where
  parts : ∃ leading trailing, text = leading ++ (kept ++ trailing) ∧
    ∀ byte ∈ leading ++ trailing, isspace byte = true
  bare : Bare kept

theorem trimText_bare (text : Bytes) : Bare (trimText text) := by
  constructor
  · intro byte found
    obtain ⟨dropped, shape⟩ := trimText_front text
    have first : (text.dropWhile isspace).head? = some byte := by
      rw [← shape, List.head?_append, found]
      rfl
    exact dropWhile_head first
  · intro byte found
    have nonempty : trimText text ≠ [] := by
      intro empty
      rw [empty] at found
      cases found
    have last := List.rdropWhile_last_not isspace (text.dropWhile isspace) nonempty
    rw [List.getLast?_eq_some_getLast nonempty] at found
    cases found
    rw [Bool.not_eq_true] at last
    exact last

theorem trimText_of_bare {text : Bytes} (bare : Bare text) : trimText text = text := by
  obtain ⟨first, last⟩ := bare
  have front : text.dropWhile isspace = text := by
    cases text with
    | nil => rfl
    | cons byte tail =>
        have notSpace := first byte rfl
        simp [notSpace]
  rw [trimText, front, List.rdropWhile_eq_self_iff]
  intro nonempty
  have notSpace := last _ (List.getLast?_eq_some_getLast nonempty)
  simp [notSpace]

theorem trimmed_trimText (text : Bytes) : Trimmed text (trimText text) := by
  refine ⟨⟨text.takeWhile isspace, (text.dropWhile isspace).rtakeWhile isspace, ?_, ?_⟩,
    trimText_bare text⟩
  · rw [trimText, List.rdropWhile_append_rtakeWhile, List.takeWhile_append_dropWhile]
  · intro byte member
    cases List.mem_append.mp member with
    | inl leading => exact List.mem_takeWhile_imp leading
    | inr trailing => exact List.mem_rtakeWhile_imp trailing

theorem rdropWhile_append_of_pos {body trailing : Bytes}
    (spaces : ∀ byte ∈ trailing, isspace byte = true) :
    (body ++ trailing).rdropWhile isspace = body.rdropWhile isspace := by
  have reversed : ∀ byte ∈ trailing.reverse, isspace byte = true :=
    fun byte member => spaces byte (List.mem_reverse.mp member)
  rw [List.rdropWhile, List.reverse_append, List.dropWhile_append_of_pos reversed]
  rfl

theorem trimText_surrounded {leading kept trailing : Bytes}
    (spaces : ∀ byte ∈ leading ++ trailing, isspace byte = true) :
    trimText (leading ++ (kept ++ trailing)) = trimText kept := by
  have leadingSpaces : ∀ byte ∈ leading, isspace byte = true :=
    fun byte member => spaces byte (List.mem_append_left _ member)
  have trailingSpaces : ∀ byte ∈ trailing, isspace byte = true :=
    fun byte member => spaces byte (List.mem_append_right _ member)
  rw [trimText, trimText, List.dropWhile_append_of_pos leadingSpaces, List.dropWhile_append]
  split
  next empty =>
    rw [List.isEmpty_iff.mp empty, List.dropWhile_eq_nil_iff.mpr trailingSpaces]
  next => exact rdropWhile_append_of_pos trailingSpaces

theorem trimmed_iff (text kept : Bytes) : Trimmed text kept ↔ kept = trimText text := by
  constructor
  · intro trimmed
    obtain ⟨leading, trailing, shape, spaces⟩ := trimmed.parts
    rw [shape, trimText_surrounded spaces, trimText_of_bare trimmed.bare]
  · intro same
    rw [same]
    exact trimmed_trimText text

/-- `trim_space` leaves the text without the white space around it, touches
nothing behind its NUL, and has nothing to do on a second call. -/
theorem trimSpace_trims (before again : Byte) {text : Bytes} (nulFree : 0 ∉ text) (rest : Bytes)
    (small : (trimText text).length < 2 ^ 31) :
    Trimmed text (trimText text) ∧
      ∃ trimmed, trimSpace before (text ++ 0 :: rest) = .ok (0, trimmed) ∧
        strAt trimmed 0 = .ok (trimText text) ∧
        trimmed.length = (text ++ 0 :: rest).length ∧
        trimmed.drop (text.length + 1) = rest ∧
        trimSpace again trimmed = .ok (0, trimmed) := by
  have trimFree := trimText_nulFree nulFree
  have short := trimText_length_le text
  have idempotent := trimText_of_bare (trimText_bare text)
  have second := trimSpace_eq again trimFree
    ((text ++ 0 :: rest).drop ((trimText text).length + 1)) (by rwa [idempotent])
  rw [idempotent] at second
  refine ⟨trimmed_trimText text, _, trimSpace_eq before nulFree rest small,
    strAt_append [] _ _ trimFree, ?_, ?_, ?_⟩
  · simp only [List.length_append, List.length_cons, List.length_drop]
    omega
  · obtain ⟨removed, lengths⟩ := Nat.exists_eq_add_of_le short
    have behind : text.length + 1 = (trimText text).length + (removed + 1) := by omega
    have offset : (trimText text).length + 1 + removed = text.length + 1 := by omega
    rw [behind, List.drop_length_add_append, List.drop_succ_cons, List.drop_drop, offset,
      List.drop_length_add_append]
    rfl
  · rw [second, List.drop_length_add_append]
    rfl

theorem trimSpace_trims_inner : Trimmed [32, 120, 32, 121, 10] (trimText [32, 120, 32, 121, 10]) ∧
    ∃ trimmed, trimSpace 32 ([32, 120, 32, 121, 10] ++ 0 :: [7]) = .ok (0, trimmed) ∧
      strAt trimmed 0 = .ok (trimText [32, 120, 32, 121, 10]) ∧
      trimmed.length = ([32, 120, 32, 121, 10] ++ 0 :: [(7 : Byte)]).length ∧
      trimmed.drop ([(32 : Byte), 120, 32, 121, 10].length + 1) = [7] ∧
      trimSpace 9 trimmed = .ok (0, trimmed) :=
  trimSpace_trims 32 9 (by decide) [7] (by decide)

/-- A kept text of `2 ^ 32` bytes counts as an empty one. -/
theorem trimSpace_cut (before : Byte) {text : Bytes} (nulFree : 0 ∉ text) (rest : Bytes)
    (cut : toInt (trimText text).length = 0) :
    ∃ trimmed, trimSpace before (text ++ 0 :: rest) = .ok (0, trimmed) ∧
      strAt trimmed 0 = .ok [] := by
  have room : 0 + [(0 : Byte)].length ≤ (text ++ 0 :: rest).length := by
    simp only [List.length_append, List.length_cons, List.length_nil]
    omega
  have stored : store (text ++ 0 :: rest) 0 [0] = .ok (0 :: (text ++ 0 :: rest).drop 1) := by
    rw [store, if_pos room]
    rfl
  refine ⟨0 :: (text ++ 0 :: rest).drop 1, ?_, strAt_append [] [] _ (List.not_mem_nil)⟩
  rw [trimSpace_moves before nulFree rest cut (by decide), Int.toNat_zero, copyForward, ok_bind,
    stored]
  rfl

/-- A text without white space is lost. -/
theorem trimSpace_loses : ∃ trimmed,
    trimSpace 0 (List.replicate (2 ^ 32) 120 ++ 0 :: []) = .ok (0, trimmed) ∧
      strAt trimmed 0 = .ok [] ∧ ¬ Trimmed (List.replicate (2 ^ 32) 120) [] := by
  have bytes : ∀ byte ∈ List.replicate (2 ^ 32) (120 : Byte), byte = 120 :=
    fun _ member => (List.mem_replicate.mp member).2
  have nulFree : 0 ∉ List.replicate (2 ^ 32) (120 : Byte) := by
    intro member
    cases bytes 0 member
  have bare : Bare (List.replicate (2 ^ 32) 120) := by
    constructor
    · intro byte found
      rw [bytes byte (List.mem_of_head? found)]
      rfl
    · intro byte found
      rw [bytes byte (List.mem_of_getLast? found)]
      rfl
  have cut : toInt (trimText (List.replicate (2 ^ 32) 120)).length = 0 := by
    rw [trimText_of_bare bare, List.length_replicate]
    decide
  obtain ⟨trimmed, trims, emptied⟩ := trimSpace_cut 0 nulFree [] cut
  refine ⟨trimmed, trims, emptied, ?_⟩
  rw [trimmed_iff, trimText_of_bare bare]
  intro lost
  have sizes := congrArg List.length lost
  rw [List.length_replicate] at sizes
  cases sizes

end DistStore.Trim

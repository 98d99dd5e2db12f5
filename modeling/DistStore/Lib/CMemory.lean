import Mathlib.Data.List.TakeWhile
import DistStore.Lib.ListSearch

/-!
# C strings in bounded memory

A memory object is the list of its bytes and a pointer into it is an offset;
a null pointer is `none`.  The functions of `string.h` are read here as they
are specified: they fail with a `Fault` where the standard gives no meaning to
the call, so that a successful result also says that nothing outside the
object was read or written.
-/

set_option autoImplicit false

namespace CMemory

open ListSearch

abbrev Byte := UInt8

abbrev Bytes := List Byte

/-- The ways in which a C computation leaves the defined language. -/
inductive Fault where
  | nullPointer
  | readOutside
  | writeOutside
  | negativeSize
  | signedOverflow
  deriving DecidableEq, Repr

abbrev C := Except Fault

@[simp] theorem ok_bind {α β : Type} (value : α) (next : α → C β) :
    (Except.ok value : C α) >>= next = next value := rfl

@[simp] theorem error_bind {α β : Type} (fault : Fault) (next : α → C β) :
    (Except.error fault : C α) >>= next = .error fault := rfl

@[simp] theorem pure_eq_ok {α : Type} (value : α) : (pure value : C α) = .ok value := rfl

theorem bind_eq_ok_iff {α β : Type} (first : C α) (next : α → C β) (result : β) :
    first >>= next = .ok result ↔ ∃ value, first = .ok value ∧ next value = .ok result := by
  cases first <;> simp

/-- Two steps that fail alike when their bounds are not kept: the second bound
is the stronger one. -/
theorem bounded_bind {α β : Type} {first second : Prop} [Decidable first] [Decidable second]
    {value : α} {result : β} {fault : Fault} {next : α → C β}
    (continued : first → next value = if second then .ok result else .error fault)
    (stronger : second → first) :
    ((if first then .ok value else .error fault : C α) >>= next) =
      if second then .ok result else .error fault := by
  by_cases holds : first
  · rw [if_pos holds, ok_bind, continued holds]
  · rw [if_neg holds, error_bind, if_neg fun both => holds (stronger both)]

theorem bounded_eq_ok {α : Type} {bound : Prop} [Decidable bound] {value result : α} {fault : Fault}
    (done : (if bound then .ok value else .error fault : C α) = .ok result) :
    bound ∧ value = result := by
  split at done
  next holds =>
    cases done
    exact ⟨holds, rfl⟩
  next => cases done

def lit (text : String) : Bytes := text.toList.map fun c => UInt8.ofNat c.toNat

def zeros (size : Nat) : Bytes := List.replicate size 0

/-- An object of `size` bytes that holds `text` and is zero behind it. -/
def padTo (size : Nat) (text : Bytes) : Bytes := text ++ zeros (size - text.length)

theorem zeros_length (size : Nat) : (zeros size).length = size := List.length_replicate

theorem zeros_eq_cons {size : Nat} (positive : 0 < size) : zeros size = 0 :: zeros (size - 1) := by
  obtain ⟨less, rfl⟩ := Nat.exists_eq_succ_of_ne_zero positive.ne'
  rfl

/-! ## Reading -/

def deref : Option Nat → C Nat
  | some pointer => .ok pointer
  | none => .error .nullPointer

@[simp] theorem deref_some (pointer : Nat) : deref (some pointer) = .ok pointer := rfl

@[simp] theorem deref_none : deref none = .error .nullPointer := rfl

/-- A pointer moved by an integer. -/
def moveBy (pointer : Nat) (count : Int) : C Nat :=
  if pointer + count < 0 then .error .readOutside else .ok (pointer + count).toNat

theorem moveBy_eq_ok_iff (pointer target : Nat) (count : Int) :
    moveBy pointer count = .ok target ↔ (target : Int) = pointer + count := by
  unfold moveBy
  split
  next outside =>
    refine iff_of_false ?_ (by omega)
    intro moved
    cases moved
  next inside =>
    rw [Except.ok.injEq]
    omega

theorem moveBy_natCast (pointer count : Nat) : moveBy pointer count = .ok (pointer + count) :=
  (moveBy_eq_ok_iff _ _ _).mpr (by omega)

def byteAt (memory : Bytes) (pointer : Nat) : C Byte :=
  match memory[pointer]? with
  | some byte => .ok byte
  | none => .error .readOutside

def bytesAt (memory : Bytes) (pointer count : Nat) : C Bytes :=
  if pointer + count ≤ memory.length then .ok ((memory.drop pointer).take count)
  else .error .readOutside

/-- The bytes before the first NUL. -/
def untilNul : Bytes → Option Bytes
  | [] => none
  | byte :: rest => if byte = 0 then some [] else (untilNul rest).map (byte :: ·)

def strAt (memory : Bytes) (pointer : Nat) : C Bytes :=
  match untilNul (memory.drop pointer) with
  | some text => .ok text
  | none => .error .readOutside

def strlen (memory : Bytes) (pointer : Nat) : C Nat := do
  let text ← strAt memory pointer
  return text.length

def strstr (memory : Bytes) (pointer : Nat) (key : Bytes) : C (Option Nat) := do
  let text ← strAt memory pointer
  return (find key text).map (pointer + ·)

theorem untilNul_append {text : Bytes} (rest : Bytes) (nulFree : 0 ∉ text) :
    untilNul (text ++ 0 :: rest) = some text := by
  induction text with
  | nil => rfl
  | cons byte tail inductionHypothesis =>
      have tailFree : 0 ∉ tail := fun member => nulFree (List.mem_cons_of_mem _ member)
      have byteNonzero : byte ≠ 0 := fun zero => nulFree (by simp [zero])
      simp [untilNul, byteNonzero, inductionHypothesis tailFree]

theorem untilNul_eq_some_iff (memory text : Bytes) :
    untilNul memory = some text ↔ 0 ∉ text ∧ ∃ rest, memory = text ++ 0 :: rest := by
  constructor
  · intro found
    induction memory generalizing text with
    | nil => simp [untilNul] at found
    | cons byte tail inductionHypothesis =>
        by_cases zero : byte = 0
        · simp only [untilNul, if_pos zero, Option.some.injEq] at found
          subst found
          exact ⟨by simp, tail, by simp [zero]⟩
        · simp only [untilNul, if_neg zero, Option.map_eq_some_iff] at found
          obtain ⟨inner, innerFound, rfl⟩ := found
          obtain ⟨nulFree, rest, rfl⟩ := inductionHypothesis inner innerFound
          exact ⟨by simp [nulFree, Ne.symm zero], rest, rfl⟩
  · rintro ⟨nulFree, rest, rfl⟩
    exact untilNul_append rest nulFree

/-- Texts before the first NUL are equal. -/
theorem eq_of_append_nul {first second before after : Bytes} (firstFree : 0 ∉ first)
    (secondFree : 0 ∉ second) (same : first ++ 0 :: before = second ++ 0 :: after) :
    first = second := by
  have read := congrArg untilNul same
  rw [untilNul_append before firstFree, untilNul_append after secondFree] at read
  exact Option.some.inj read

theorem strAt_eq_ok_iff (memory : Bytes) (pointer : Nat) (text : Bytes) :
    strAt memory pointer = .ok text ↔
      0 ∉ text ∧ ∃ rest, memory.drop pointer = text ++ 0 :: rest := by
  rw [← untilNul_eq_some_iff, strAt]
  cases untilNul (memory.drop pointer) <;> simp

theorem strAt_nulFree {memory : Bytes} {pointer : Nat} {text : Bytes}
    (holds : strAt memory pointer = .ok text) : 0 ∉ text :=
  ((strAt_eq_ok_iff _ _ _).mp holds).1

theorem strAt_length {memory : Bytes} {pointer : Nat} {text : Bytes}
    (holds : strAt memory pointer = .ok text) : pointer + text.length < memory.length := by
  obtain ⟨-, rest, shape⟩ := (strAt_eq_ok_iff _ _ _).mp holds
  have length := congrArg List.length shape
  simp only [List.length_drop, List.length_append, List.length_cons] at length
  omega

theorem strAt_append (before text rest : Bytes) (nulFree : 0 ∉ text) :
    strAt (before ++ (text ++ 0 :: rest)) before.length = .ok text :=
  (strAt_eq_ok_iff _ _ _).mpr ⟨nulFree, rest, List.drop_left⟩

/-- Bytes behind an object do not matter to the strings in it. -/
theorem strAt_append_right {memory text : Bytes} {pointer : Nat}
    (holds : strAt memory pointer = .ok text) (after : Bytes) :
    strAt (memory ++ after) pointer = .ok text := by
  have inside := strAt_length holds
  obtain ⟨nulFree, rest, shape⟩ := (strAt_eq_ok_iff _ _ _).mp holds
  refine (strAt_eq_ok_iff _ _ _).mpr ⟨nulFree, rest ++ after, ?_⟩
  rw [List.drop_append_of_le_length (by omega), shape, List.append_assoc]
  rfl

/-- A pointer into a string is a string: its remaining bytes. -/
theorem strAt_add {memory : Bytes} {pointer : Nat} {text : Bytes} (offset : Nat)
    (holds : strAt memory pointer = .ok text) (inside : offset ≤ text.length) :
    strAt memory (pointer + offset) = .ok (text.drop offset) := by
  obtain ⟨nulFree, rest, shape⟩ := (strAt_eq_ok_iff _ _ _).mp holds
  refine (strAt_eq_ok_iff _ _ _).mpr ⟨fun member => nulFree (List.mem_of_mem_drop member), rest, ?_⟩
  rw [← List.drop_drop, shape, List.drop_append_of_le_length inside]

theorem strAt_drop {memory text : Bytes} (holds : strAt memory 0 = .ok text) {pointer : Nat}
    (inside : pointer ≤ text.length) : strAt memory pointer = .ok (text.drop pointer) := by
  have behind := strAt_add pointer holds inside
  rwa [Nat.zero_add] at behind

/-- The first byte of a string is no NUL. -/
theorem strAt_head_ne {memory text : Bytes} {pointer : Nat} {byte : Byte}
    (holds : strAt memory pointer = .ok (byte :: text)) : byte ≠ 0 := by
  intro zero
  exact strAt_nulFree holds (zero ▸ List.mem_cons_self)

/-- Objects with the same front have the same bytes inside of it. -/
theorem drop_front_of_take {memory other front behind : Bytes} {pointer size : Nat}
    (same : other.take size = memory.take size) (shape : memory.drop pointer = front ++ behind)
    (inside : pointer + front.length ≤ size) :
    ∃ behind', other.drop pointer = front ++ behind' := by
  have cut : ∀ bytes : Bytes, ((bytes.take size).drop pointer).take front.length =
      (bytes.drop pointer).take front.length := by
    intro bytes
    rw [List.drop_take, List.take_take, Nat.min_eq_left (by omega)]
  have equal : (other.drop pointer).take front.length = front := by
    rw [← cut, same, cut, shape, List.take_left]
  refine ⟨(other.drop pointer).drop front.length, ?_⟩
  conv_lhs => rw [← List.take_append_drop front.length (other.drop pointer), equal]

/-- A string is found again in an object with the same front. -/
theorem strAt_of_take {memory other text : Bytes} {pointer size : Nat}
    (same : other.take size = memory.take size) (holds : strAt memory pointer = .ok text)
    (inside : pointer + text.length < size) : strAt other pointer = .ok text := by
  obtain ⟨nulFree, rest, shape⟩ := (strAt_eq_ok_iff _ _ _).mp holds
  have split : memory.drop pointer = (text ++ [0]) ++ rest := by
    rw [shape, List.append_assoc, List.singleton_append]
  obtain ⟨behind, found⟩ := drop_front_of_take same split
    (by rw [List.length_append, List.length_singleton]; omega)
  refine (strAt_eq_ok_iff _ _ _).mpr ⟨nulFree, behind, ?_⟩
  rw [found, List.append_assoc, List.singleton_append]

theorem strlen_of_strAt {memory : Bytes} {pointer : Nat} {text : Bytes}
    (holds : strAt memory pointer = .ok text) : strlen memory pointer = .ok text.length := by
  simp [strlen, holds]

theorem strstr_of_strAt {memory : Bytes} {pointer : Nat} {text : Bytes} (key : Bytes)
    (holds : strAt memory pointer = .ok text) :
    strstr memory pointer key = .ok ((find key text).map (pointer + ·)) := by
  simp [strstr, holds]

theorem strstr_eq_none_iff {memory : Bytes} {pointer : Nat} {text : Bytes} (key : Bytes)
    (holds : strAt memory pointer = .ok text) :
    strstr memory pointer key = .ok none ↔ find key text = none := by
  rw [strstr_of_strAt key holds, Except.ok.injEq, Option.map_eq_none_iff]

theorem strstr_eq_some_iff {memory : Bytes} {pointer : Nat} {text : Bytes} (key : Bytes)
    (holds : strAt memory pointer = .ok text) (p : Nat) :
    strstr memory pointer key = .ok (some p) ↔
      ∃ offset, find key text = some offset ∧ pointer + offset = p := by
  rw [strstr_of_strAt key holds, Except.ok.injEq, Option.map_eq_some_iff]

/-- A pointer to a string reads its first byte, or its NUL. -/
theorem byteAt_of_strAt {memory : Bytes} {pointer : Nat} {text : Bytes}
    (holds : strAt memory pointer = .ok text) : byteAt memory pointer = .ok (text.headD 0) := by
  obtain ⟨-, rest, shape⟩ := (strAt_eq_ok_iff _ _ _).mp holds
  have first : memory[pointer]? = (text ++ 0 :: rest)[0]? := by
    rw [← shape, List.getElem?_drop, Nat.add_zero]
  rw [byteAt, first]
  cases text with
  | nil => rfl
  | cons byte text => rfl

theorem eq_nil_of_byteAt {memory text : Bytes} {pointer : Nat}
    (holds : strAt memory pointer = .ok text) (last : byteAt memory pointer = .ok 0) : text = [] := by
  rw [byteAt_of_strAt holds] at last
  cases text with
  | nil => rfl
  | cons byte text => exact absurd (Except.ok.inj last) (strAt_head_ne holds)

@[simp] theorem padTo_length (size : Nat) (text : Bytes) (fits : text.length ≤ size) :
    (padTo size text).length = size := by
  simp [padTo, zeros]
  omega

theorem padTo_nil (size : Nat) : padTo size [] = zeros size := by simp [padTo]

theorem zeros_succ (size : Nat) : zeros (size + 1) = zeros size ++ [0] :=
  List.replicate_succ'

theorem padTo_succ {size : Nat} {text : Bytes} (fits : text.length ≤ size) :
    padTo (size + 1) text = padTo size text ++ [0] := by
  rw [padTo, Nat.succ_sub fits, zeros_succ, ← List.append_assoc]
  rfl

theorem strAt_padTo {size : Nat} {text : Bytes} (nulFree : 0 ∉ text) (fits : text.length < size) :
    strAt (padTo size text) 0 = .ok text := by
  refine (strAt_eq_ok_iff _ _ _).mpr ⟨nulFree, zeros (size - text.length - 1), ?_⟩
  rw [List.drop_zero, padTo, show size - text.length = (size - text.length - 1) + 1 by omega]
  rfl

/-- A pointer to a string. -/
structure CString where
  memory : Bytes
  text : Bytes
  holds : strAt memory 0 = .ok text

/-- A text and its NUL. -/
def CString.of (text : Bytes) (nulFree : 0 ∉ text) : CString where
  memory := text ++ [0]
  text := text
  holds := strAt_append [] text [] nulFree

/-- A front without NULs of what a pointer points at is a front of the
string. -/
theorem strAt_front {memory front rest text : Bytes} {pointer : Nat}
    (shape : memory.drop pointer = front ++ rest) (nulFree : 0 ∉ front)
    (holds : strAt memory pointer = .ok text) : ∃ behind, text = front ++ behind := by
  obtain ⟨-, after, ends⟩ := (strAt_eq_ok_iff _ _ _).mp holds
  rcases List.append_eq_append_iff.mp (ends.symm.trans shape) with
    ⟨behind, same, tail⟩ | ⟨behind, same, -⟩
  · cases behind with
    | nil => exact ⟨[], by rw [same, List.append_nil, List.append_nil]⟩
    | cons byte behind =>
        obtain ⟨rfl, -⟩ := List.cons.inj tail
        exact absurd (same ▸ List.mem_append_right _ List.mem_cons_self) nulFree
  · exact ⟨behind, same⟩

/-! ## Writing -/

def store (memory : Bytes) (pointer : Nat) (bytes : Bytes) : C Bytes :=
  if pointer + bytes.length ≤ memory.length then
    .ok (memory.take pointer ++ bytes ++ memory.drop (pointer + bytes.length))
  else .error .writeOutside

def memset (memory : Bytes) (pointer : Nat) (byte : Byte) (count : Int) : C Bytes :=
  if count < 0 then .error .negativeSize
  else store memory pointer (List.replicate count.toNat byte)

/-- What `strncpy` puts into its destination: `count` bytes, the string at the
source cut off or filled up with NULs. -/
def paddedCopy : Bytes → Nat → C Bytes
  | _, 0 => .ok []
  | [], _ + 1 => .error .readOutside
  | byte :: rest, count + 1 =>
      if byte = 0 then .ok (zeros (count + 1))
      else do
        let copied ← paddedCopy rest count
        return byte :: copied

def strncpy (target : Bytes) (at_ : Nat) (source : Bytes) (from_ : Nat) (count : Int) : C Bytes :=
  if count < 0 then .error .negativeSize
  else do
    let copied ← paddedCopy (source.drop from_) count.toNat
    store target at_ copied

def strcpy (target : Bytes) (at_ : Nat) (source : Bytes) (from_ : Nat) : C Bytes := do
  let text ← strAt source from_
  store target at_ (text ++ [0])

def strcat (target source : Bytes) (from_ : Nat) : C Bytes := do
  let old ← strAt target 0
  let text ← strAt source from_
  store target old.length (text ++ [0])

/-- `strncat` reads what `strncpy` would read and leaves out the NULs. -/
def strncat (target source : Bytes) (from_ : Nat) (count : Int) : C Bytes :=
  if count < 0 then .error .negativeSize
  else do
    let old ← strAt target 0
    let copied ← paddedCopy (source.drop from_) count.toNat
    store target old.length (copied.takeWhile (· ≠ 0) ++ [0])

/-! ## Writing keeps the size of an object -/

theorem store_inside {memory bytes : Bytes} {pointer : Nat}
    (fits : pointer + bytes.length ≤ memory.length) :
    ∃ result, store memory pointer bytes = .ok result := by
  rw [store, if_pos fits]
  exact ⟨_, rfl⟩

theorem store_eq_ok {memory bytes result : Bytes} {pointer : Nat}
    (stored : store memory pointer bytes = .ok result) :
    pointer + bytes.length ≤ memory.length ∧
      result = memory.take pointer ++ bytes ++ memory.drop (pointer + bytes.length) := by
  rw [store] at stored
  split at stored
  next fits =>
    cases stored
    exact ⟨fits, rfl⟩
  next => cases stored

theorem store_length {memory bytes result : Bytes} {pointer : Nat}
    (stored : store memory pointer bytes = .ok result) : result.length = memory.length := by
  obtain ⟨fits, rfl⟩ := store_eq_ok stored
  simp only [List.length_append, List.length_take, List.length_drop]
  omega

theorem store_take {memory bytes result : Bytes} {pointer : Nat}
    (stored : store memory pointer bytes = .ok result) :
    result.take (pointer + bytes.length) = memory.take pointer ++ bytes := by
  obtain ⟨fits, rfl⟩ := store_eq_ok stored
  refine List.take_left' ?_
  rw [List.length_append, List.length_take]
  omega

theorem store_drop {memory bytes result : Bytes} {pointer : Nat}
    (stored : store memory pointer bytes = .ok result) (offset : Nat) :
    result.drop (pointer + bytes.length + offset) =
      memory.drop (pointer + bytes.length + offset) := by
  obtain ⟨fits, rfl⟩ := store_eq_ok stored
  rw [← List.drop_drop, List.drop_left', List.drop_drop]
  rw [List.length_append, List.length_take]
  omega

theorem memset_length {memory result : Bytes} {pointer : Nat} {byte : Byte} {count : Int}
    (filled : memset memory pointer byte count = .ok result) :
    result.length = memory.length := by
  rw [memset] at filled
  split at filled
  · cases filled
  · exact store_length filled

theorem strncpy_length {target source result : Bytes} {at_ from_ : Nat} {count : Int}
    (copied : strncpy target at_ source from_ count = .ok result) :
    result.length = target.length := by
  rw [strncpy] at copied
  split at copied
  · cases copied
  · obtain ⟨bytes, -, stored⟩ := (bind_eq_ok_iff _ _ _).mp copied
    exact store_length stored

theorem strcpy_length {target source result : Bytes} {at_ from_ : Nat}
    (copied : strcpy target at_ source from_ = .ok result) : result.length = target.length := by
  obtain ⟨text, -, stored⟩ := (bind_eq_ok_iff _ _ _).mp copied
  exact store_length stored

theorem strcat_length {target source result : Bytes} {from_ : Nat}
    (appended : strcat target source from_ = .ok result) : result.length = target.length := by
  obtain ⟨old, -, rest⟩ := (bind_eq_ok_iff _ _ _).mp appended
  obtain ⟨text, -, stored⟩ := (bind_eq_ok_iff _ _ _).mp rest
  exact store_length stored

theorem store_behind (before bytes : Bytes) (room : Nat) :
    store (before ++ zeros room) before.length bytes =
      if bytes.length ≤ room then .ok (before ++ bytes ++ zeros (room - bytes.length))
      else .error .writeOutside := by
  by_cases fits : bytes.length ≤ room
  · simp [store, zeros, fits]
  · simp [store, zeros, fits]

theorem store_zeros (size : Nat) (bytes : Bytes) (fits : bytes.length ≤ size) :
    store (zeros size) 0 bytes = .ok (padTo size bytes) := by
  simpa [fits, padTo] using store_behind [] bytes size

/-- Filling an object over its whole length. -/
theorem memset_whole (memory : Bytes) (byte : Byte) {size : Nat} (whole : memory.length = size) :
    memset memory 0 byte size = .ok (List.replicate size byte) := by
  have notNegative : ¬ (size : Int) < 0 := by omega
  simp [memset, notNegative, store, whole]

theorem memset_front (memory : Bytes) (count : Nat) :
    memset memory 0 0 ((count : Int) + 1) =
      if count < memory.length then .ok (zeros (count + 1) ++ memory.drop (count + 1))
      else .error .writeOutside := by
  have notNegative : ¬ (count : Int) + 1 < 0 := by omega
  have bytes : ((count : Int) + 1).toNat = count + 1 := by omega
  rw [memset, if_neg notNegative, bytes, store, List.length_replicate, Nat.zero_add]
  by_cases fits : count < memory.length
  · rw [if_pos (by omega), if_pos fits]
    rfl
  · rw [if_neg (by omega), if_neg fits]

/-- A text stored at the front of a cleared object is ended there. -/
theorem strAt_store_cleared {size : Nat} {text rest result : Bytes} (nulFree : 0 ∉ text)
    (short : text.length < size) (stored : store (zeros size ++ rest) 0 text = .ok result) :
    strAt result 0 = .ok text := by
  obtain ⟨fits, rfl⟩ := store_eq_ok stored
  have length : (zeros size).length = size := zeros_length size
  have left : (zeros size).drop text.length = zeros (size - text.length) := List.drop_replicate
  rw [List.take_zero, List.nil_append, Nat.zero_add, List.drop_append_of_le_length (by omega), left,
    zeros_eq_cons (by omega)]
  exact strAt_append [] text _ nulFree

/-- Clearing the front of an object that is zero already changes nothing. -/
theorem memset_zeros {size : Nat} {count : Int} (nonnegative : 0 ≤ count) (fits : count ≤ size) :
    memset (zeros size) 0 0 count = .ok (zeros size) := by
  have stored := store_zeros size (zeros count.toNat) (by simp [zeros]; omega)
  have same : padTo size (zeros count.toNat) = zeros size := by
    simp only [padTo, zeros, List.length_replicate, List.replicate_append_replicate]
    congr 1
    omega
  have notNegative : ¬ count < 0 := by omega
  rw [same] at stored
  rw [memset, if_neg notNegative]
  exact stored

theorem paddedCopy_of_le {memory : Bytes} {pointer : Nat} {text : Bytes} {count : Nat}
    (holds : strAt memory pointer = .ok text) (short : count ≤ text.length) :
    paddedCopy (memory.drop pointer) count = .ok (text.take count) := by
  obtain ⟨nulFree, rest, shape⟩ := (strAt_eq_ok_iff _ _ _).mp holds
  rw [shape]
  clear shape holds
  induction text generalizing count with
  | nil =>
      have countZero : count = 0 := by simpa using short
      subst countZero
      simp [paddedCopy]
  | cons byte tail inductionHypothesis =>
      cases count with
      | zero => simp [paddedCopy]
      | succ count =>
          have byteNonzero : byte ≠ 0 := fun zero => nulFree (by simp [zero])
          have tailFree : 0 ∉ tail := fun member => nulFree (List.mem_cons_of_mem _ member)
          have copied := inductionHypothesis (by simpa using short) tailFree
          simp [paddedCopy, byteNonzero, copied]

theorem strncpy_of_le (target : Bytes) (at_ count : Nat) {memory : Bytes} {pointer : Nat}
    {text : Bytes} (holds : strAt memory pointer = .ok text) (short : count ≤ text.length) :
    strncpy target at_ memory pointer count = store target at_ (text.take count) := by
  have nonnegative : ¬ ((count : Int) < 0) := by omega
  simp [strncpy, nonnegative, paddedCopy_of_le holds short]

/-- A text that ends before the bound is filled up with NULs. -/
theorem paddedCopy_of_lt {memory : Bytes} {pointer : Nat} {text : Bytes} {count : Nat}
    (holds : strAt memory pointer = .ok text) (long : text.length < count) :
    paddedCopy (memory.drop pointer) count = .ok (padTo count text) := by
  obtain ⟨nulFree, rest, shape⟩ := (strAt_eq_ok_iff _ _ _).mp holds
  rw [shape]
  clear shape holds
  induction text generalizing count with
  | nil =>
      cases count with
      | zero => cases long
      | succ count => rfl
  | cons byte tail inductionHypothesis =>
      cases count with
      | zero => cases long
      | succ count =>
          have byteNonzero : byte ≠ 0 := fun zero => nulFree (by simp [zero])
          have tailFree : 0 ∉ tail := fun member => nulFree (List.mem_cons_of_mem _ member)
          have copied := inductionHypothesis (Nat.lt_of_succ_lt_succ long) tailFree
          simp [paddedCopy, byteNonzero, copied, padTo]

theorem strncpy_of_lt (target : Bytes) (at_ count : Nat) {memory : Bytes} {pointer : Nat}
    {text : Bytes} (holds : strAt memory pointer = .ok text) (long : text.length < count) :
    strncpy target at_ memory pointer count = store target at_ (padTo count text) := by
  have nonnegative : ¬ ((count : Int) < 0) := by omega
  simp [strncpy, nonnegative, paddedCopy_of_lt holds long]

/-- The copy keeps a front without NULs. -/
theorem paddedCopy_front {front rest copied : Bytes} {count : Nat} (nulFree : 0 ∉ front)
    (inside : front.length ≤ count) (done : paddedCopy (front ++ rest) count = .ok copied) :
    ∃ behind, copied = front ++ behind := by
  induction front generalizing count copied with
  | nil => exact ⟨copied, rfl⟩
  | cons byte front inductionHypothesis =>
      cases count with
      | zero => cases inside
      | succ count =>
          have byteNonzero : byte ≠ 0 := fun zero => nulFree (by simp [zero])
          have frontFree : 0 ∉ front := fun member => nulFree (List.mem_cons_of_mem _ member)
          rw [List.cons_append, paddedCopy, if_neg byteNonzero] at done
          obtain ⟨later, copiedLater, same⟩ := (bind_eq_ok_iff _ _ _).mp done
          obtain ⟨behind, rfl⟩ :=
            inductionHypothesis frontFree (Nat.le_of_succ_le_succ inside) copiedLater
          cases same
          exact ⟨behind, rfl⟩

theorem strncpy_front {target memory front rest result : Bytes} {at_ pointer count : Nat}
    (shape : memory.drop pointer = front ++ rest) (nulFree : 0 ∉ front)
    (inside : front.length ≤ count)
    (copied : strncpy target at_ memory pointer count = .ok result) :
    result.take at_ = target.take at_ ∧ ∃ behind, result.drop at_ = front ++ behind := by
  have nonnegative : ¬ ((count : Int) < 0) := by omega
  rw [strncpy, if_neg nonnegative, Int.toNat_natCast, shape] at copied
  obtain ⟨bytes, padded, stored⟩ := (bind_eq_ok_iff _ _ _).mp copied
  obtain ⟨behind, rfl⟩ := paddedCopy_front nulFree inside padded
  obtain ⟨fits, rfl⟩ := store_eq_ok stored
  have before : (target.take at_).length = at_ := List.length_take_of_le (by omega)
  constructor
  · rw [List.append_assoc, List.take_left' before]
  · rw [List.append_assoc, List.drop_left' before, List.append_assoc]
    exact ⟨_, rfl⟩

theorem strncpy_negative {target source : Bytes} {at_ from_ : Nat} {count : Int}
    (negative : count < 0) : strncpy target at_ source from_ count = .error .negativeSize := by
  simp [strncpy, negative]

/-- An object over whose front a text and its NUL were written. -/
def overwrite (text target : Bytes) : Bytes := text ++ 0 :: target.drop (text.length + 1)

theorem overwrite_length {text target : Bytes} (fits : text.length < target.length) :
    (overwrite text target).length = target.length := by
  rw [overwrite, List.length_append, List.length_cons, List.length_drop]
  omega

theorem strAt_overwrite {text : Bytes} (nulFree : 0 ∉ text) (target : Bytes) :
    strAt (overwrite text target) 0 = .ok text := strAt_append [] text _ nulFree

theorem store_overwrite (target text : Bytes) :
    store target 0 (text ++ [0]) =
      if text.length < target.length then .ok (overwrite text target) else .error .writeOutside := by
  rw [store, List.length_append, List.length_singleton, Nat.zero_add, List.take_zero,
    List.nil_append, List.append_assoc]
  exact if_congr Nat.succ_le_iff rfl rfl

/-- `strncpy` of a literal with its NUL. -/
theorem strncpy_literal (target : Bytes) {text : Bytes} (nulFree : 0 ∉ text) :
    strncpy target 0 (text ++ [0]) 0 (text.length + 1 : Nat) =
      if text.length < target.length then .ok (overwrite text target) else .error .writeOutside := by
  have holds : strAt (text ++ [0]) 0 = .ok text := strAt_append [] text [] nulFree
  rw [strncpy_of_lt target 0 _ holds (Nat.lt_succ_self _), padTo_succ le_rfl, padTo,
    Nat.sub_self, zeros, List.replicate_zero, List.append_nil]
  exact store_overwrite target text

/-- `strncpy` of the front of a string and the NUL stored behind it. -/
theorem strncpy_terminated {target memory text : Bytes} {pointer count : Nat}
    (holds : strAt memory pointer = .ok text) (short : count ≤ text.length) :
    (do
      let copied ← strncpy target 0 memory pointer count
      store copied count [0]) =
      if count < target.length then .ok (overwrite (text.take count) target)
      else .error .writeOutside := by
  have length : (text.take count).length = count := List.length_take_of_le short
  rw [strncpy_of_le target 0 count holds short, store, length, Nat.zero_add, overwrite, length]
  by_cases copyFits : count ≤ target.length
  · have behind : (text.take count ++ target.drop count).length = target.length := by
      rw [List.length_append, List.length_drop]
      omega
    simp only [if_pos copyFits, ok_bind, List.take_zero, List.nil_append, store, behind,
      List.length_singleton]
    by_cases fits : count < target.length
    · rw [if_pos (by omega), if_pos fits, List.take_left' length,
        ← List.drop_drop, List.drop_left' length, List.drop_drop, List.append_assoc]
      rfl
    · rw [if_neg (by omega), if_neg fits]
  · rw [if_neg copyFits, error_bind, if_neg (by omega)]

theorem overwrite_zeros {size : Nat} {text : Bytes} (fits : text.length < size) :
    overwrite text (zeros size) = padTo size text := by
  have tail := zeros_eq_cons (show 0 < size - text.length by omega)
  rw [overwrite, padTo, tail, zeros, List.drop_replicate, Nat.sub_add_eq]
  rfl

/-- A text and its NUL stored behind a text in a zero-filled object. -/
theorem store_padTo {size : Nat} (old text : Bytes) (oldFits : old.length < size) :
    store (padTo size old) old.length (text ++ [0]) =
      if (old ++ text).length < size then .ok (padTo size (old ++ text))
      else .error .writeOutside := by
  rw [padTo, store_behind, List.length_append, List.length_append, List.length_singleton]
  by_cases fits : old.length + text.length < size
  · rw [if_pos (by omega), if_pos fits]
    have tail := zeros_eq_cons (show 0 < size - old.length - text.length by omega)
    simp [padTo, tail, Nat.sub_add_eq]
  · rw [if_neg (by omega), if_neg fits]

/-- `strcat` behind a text in a zero-filled object. -/
theorem strcat_padTo {size : Nat} {old source text : Bytes} {from_ : Nat}
    (nulFree : 0 ∉ old) (oldFits : old.length < size) (holds : strAt source from_ = .ok text) :
    strcat (padTo size old) source from_ =
      if (old ++ text).length < size then .ok (padTo size (old ++ text))
      else .error .writeOutside := by
  simp only [strcat, strAt_padTo nulFree oldFits, holds, ok_bind]
  exact store_padTo old text oldFits

theorem takeWhile_nulFree {text : Bytes} (nulFree : 0 ∉ text) : text.takeWhile (· ≠ 0) = text := by
  rw [List.takeWhile_eq_self_iff]
  intro byte member
  simpa using fun zero : byte = 0 => nulFree (zero ▸ member)

/-- `strncpy` of a front of a text into a zero-filled object. -/
theorem strncpy_zeros {size count : Nat} {source text : Bytes} {from_ : Nat}
    (holds : strAt source from_ = .ok text) (short : count ≤ text.length) (fits : count ≤ size) :
    strncpy (zeros size) 0 source from_ count = .ok (padTo size (text.take count)) := by
  have length : (text.take count).length = count := List.length_take_of_le short
  rw [strncpy_of_le _ _ count holds short]
  exact store_zeros size (text.take count) (by omega)

/-! ## Appending to a string in an object with any contents -/

/-- A text and its NUL stored over the NUL of a string. -/
theorem store_over_nul {memory old text : Bytes} (holds : strAt memory 0 = .ok old)
    (nulFree : 0 ∉ text) (fits : old.length + text.length < memory.length) :
    ∃ result, store memory old.length (text ++ [0]) = .ok result ∧
      result.length = memory.length ∧ strAt result 0 = .ok (old ++ text) := by
  obtain ⟨oldFree, rest, shape⟩ := (strAt_eq_ok_iff _ _ _).mp holds
  rw [List.drop_zero] at shape
  have front : memory.take old.length = old := by rw [shape, List.take_left]
  have room : old.length + (text ++ [0]).length ≤ memory.length := by
    rw [List.length_append, List.length_singleton]
    omega
  obtain ⟨result, stored⟩ := store_inside room
  refine ⟨result, stored, store_length stored, ?_⟩
  obtain ⟨-, rfl⟩ := store_eq_ok stored
  have bothFree : 0 ∉ old ++ text := by simp [oldFree, nulFree]
  rw [front, ← List.append_assoc, List.append_assoc, List.singleton_append]
  exact strAt_append [] _ _ bothFree

theorem strcat_of_strAt {target source old text : Bytes} {from_ : Nat}
    (holds : strAt target 0 = .ok old) (appended : strAt source from_ = .ok text)
    (fits : old.length + text.length < target.length) :
    ∃ result, strcat target source from_ = .ok result ∧ result.length = target.length ∧
      strAt result 0 = .ok (old ++ text) := by
  obtain ⟨result, stored, rest⟩ := store_over_nul holds (strAt_nulFree appended) fits
  exact ⟨result, by simp only [strcat, holds, appended, ok_bind, stored], rest⟩

/-- Whatever lies in an object, a string of its size cannot be appended. -/
theorem strcat_too_long {target source text : Bytes} {from_ : Nat}
    (appended : strAt source from_ = .ok text) (long : target.length ≤ text.length)
    (result : Bytes) : strcat target source from_ ≠ .ok result := by
  intro done
  obtain ⟨old, -, rest⟩ := (bind_eq_ok_iff _ _ _).mp done
  obtain ⟨actual, holds, stored⟩ := (bind_eq_ok_iff _ _ _).mp rest
  cases appended.symm.trans holds
  rw [store, List.length_append, List.length_singleton, if_neg (by omega)] at stored
  cases stored

theorem strncat_of_strAt {target source old text : Bytes} {from_ count : Nat}
    (holds : strAt target 0 = .ok old) (appended : strAt source from_ = .ok text)
    (short : count ≤ text.length) (fits : old.length + count < target.length) :
    ∃ result, strncat target source from_ count = .ok result ∧
      result.length = target.length ∧ strAt result 0 = .ok (old ++ text.take count) := by
  have nonnegative : ¬ (count : Int) < 0 := by omega
  have nulFree : 0 ∉ text.take count :=
    fun member => strAt_nulFree appended (List.mem_of_mem_take member)
  have length : (text.take count).length = count := List.length_take_of_le short
  obtain ⟨result, stored, rest⟩ := store_over_nul holds nulFree (by rw [length]; exact fits)
  refine ⟨result, ?_, rest⟩
  simp only [strncat, if_neg nonnegative, Int.toNat_natCast, holds, ok_bind,
    paddedCopy_of_le appended short, takeWhile_nulFree nulFree, stored]

/-- A limit that a string does not reach makes no difference. -/
theorem strncat_eq_strcat {target source old text : Bytes} {from_ count : Nat}
    (holds : strAt target 0 = .ok old) (appended : strAt source from_ = .ok text)
    (whole : text.length ≤ count) : strncat target source from_ count = strcat target source from_ := by
  have nonnegative : ¬ (count : Int) < 0 := by omega
  have nulFree := strAt_nulFree appended
  have copied : ∃ bytes, paddedCopy (source.drop from_) count = .ok bytes ∧
      bytes.takeWhile (· ≠ 0) = text := by
    by_cases reached : text.length = count
    · refine ⟨text, ?_, takeWhile_nulFree nulFree⟩
      rw [paddedCopy_of_le appended reached.ge, ← reached, List.take_length]
    · refine ⟨padTo count text, paddedCopy_of_lt appended (by omega), ?_⟩
      have noNul : ∀ byte ∈ text, decide (byte ≠ 0) = true := by
        intro byte member
        simpa using fun zero : byte = 0 => nulFree (zero ▸ member)
      unfold padTo
      rw [List.takeWhile_append_of_pos noNul, zeros_eq_cons (by omega),
        List.takeWhile_cons_of_neg (by decide), List.append_nil]
  obtain ⟨bytes, padded, front⟩ := copied
  simp only [strncat, strcat, if_neg nonnegative, Int.toNat_natCast, holds, appended, ok_bind,
    padded, front]

/-- `strncat` behind a text in a zero-filled object. -/
theorem strncat_padTo {size : Nat} {old source text : Bytes} {from_ : Nat} (count : Nat)
    (nulFree : 0 ∉ old) (oldFits : old.length < size) (holds : strAt source from_ = .ok text) :
    strncat (padTo size old) source from_ count =
      if (old ++ text.take count).length < size then .ok (padTo size (old ++ text.take count))
      else .error .writeOutside := by
  by_cases short : count ≤ text.length
  · have nonnegative : ¬ (count : Int) < 0 := by omega
    have taken : 0 ∉ text.take count :=
      fun member => strAt_nulFree holds (List.mem_of_mem_take member)
    simp only [strncat, if_neg nonnegative, Int.toNat_natCast, strAt_padTo nulFree oldFits,
      ok_bind, paddedCopy_of_le holds short, takeWhile_nulFree taken]
    exact store_padTo old (text.take count) oldFits
  · rw [strncat_eq_strcat (strAt_padTo nulFree oldFits) holds (by omega),
      List.take_of_length_le (by omega)]
    exact strcat_padTo nulFree oldFits holds

/-- And a string below its limit is appended where it fits. -/
theorem strncat_appends {target source old text : Bytes} {from_ count : Nat}
    (holds : strAt target 0 = .ok old) (appended : strAt source from_ = .ok text)
    (whole : text.length ≤ count) (fits : old.length + text.length < target.length) :
    ∃ result, strncat target source from_ count = .ok result ∧ result.length = target.length ∧
      strAt result 0 = .ok (old ++ text) := by
  obtain ⟨result, done, length, holdsBoth⟩ := strcat_of_strAt holds appended fits
  exact ⟨result, (strncat_eq_strcat holds appended whole).trans done, length, holdsBoth⟩

end CMemory

import DistStore.JsonNodes

/-!
# Printing with allocations

`cJSON_Print` asks for a block for every text: for those of the children, for
the arrays that hold them meanwhile, and for the text they are put together in.
-/

set_option autoImplicit false

namespace DistStore.JsonNodePrint

open CMemory CHeap JsonPrint JsonTree JsonNodes

section Definitions

variable {D : Type} [Double D]

/-! ## Numbers and strings -/

/-- The room `print_number` asks for. -/
def numberRoom (valueint : Int) (d : D) : Nat :=
  if Double.eq d (Double.ofInt 0) then 2
  else if Double.le (Double.fabs (Double.sub (Double.ofInt valueint) d)) (Double.const dblEpsilon) &&
      Double.le d (Double.ofInt intMax) && Double.le (Double.ofInt intMin) d then 21
  else 64

/-- What a byte adds to `len` in `print_string_ptr`. -/
def escapedRoom (token : Byte) : Nat :=
  if token ∈ lit "\"\\" ++ [8, 12, 10, 13, 9] then 2 else if token < 32 then 6 else 1

/-- The room `print_string_ptr` asks for. -/
def stringRoom (str : Bytes) : C Int :=
  if str.any flagged then checkInt ((str.map escapedRoom).sum + 3)
  else checkInt (toInt str.length + 3)

/-- The loop that escapes; `sprintf` ends what it writes with a NUL. -/
def escapeLoop (out : Nat) : Nat → Bytes → Mem (Block D) Nat
  | ptr2, [] => return ptr2
  | ptr2, byte :: rest => do
      write out ptr2 (if (escapeByte byte).length = 6 then escapeByte byte ++ [0] else escapeByte byte)
      escapeLoop out (ptr2 + (escapeByte byte).length) rest

/-- What `print_string_ptr` writes into its room. -/
def writeString (out ptr : Nat) (str : Bytes) : Mem (Block D) Unit := do
  write out ptr [34]
  if str.any flagged then
    let ptr2 ← escapeLoop out (ptr + 1) str
    write out ptr2 [34, 0]
  else
    write out (ptr + 1) (str ++ [0])
    write out (ptr + 1 + str.length) [34]
    write out (ptr + 1 + str.length + 1) [0]

/-- `print_number`. -/
def printNumber (node : Node D) : Mem (Block D) (Option Nat) := do
  match ← malloc (numberRoom node.valueint node.valuedouble) with
  | none => return none
  | some str =>
      write str 0 (numberText node.valueint node.valuedouble ++ [0])
      return some str

/-- `print_string_ptr`. -/
def printStringPtr (str : Pointer) : Mem (Block D) (Option Nat) := do
  let text ← loadText str
  let room ← ofC (stringRoom text)
  match ← malloc (toSize room) with
  | none => return none
  | some out =>
      writeString out 0 text
      return some out

/-! ## Arrays of texts -/

def loadPointer (entries i : Nat) : Mem (Block D) (Option Nat) := do
  match ← load entries with
  | .pointers pointers =>
      match pointers[i]? with
      | some pointer => return pointer
      | none => trap (.fault .readOutside)
  | _ => trap .dangling

def savePointer (entries i : Nat) (pointer : Option Nat) : Mem (Block D) Unit := do
  match ← load entries with
  | .pointers pointers =>
      if i < pointers.length then save entries (.pointers (pointers.set i pointer))
      else trap (.fault .writeOutside)
  | _ => trap .dangling

/-- `malloc` and `memset` for an array of pointers. -/
def newPointers (count : Nat) : Mem (Block D) (Option Nat) :=
  alloc (.pointers (List.replicate count none))

/-- `for (i=0;i<numentries;i++) if (entries[i]) cJSON_free(entries[i]);`. -/
def freeEntries (entries : Nat) : Nat → Nat → Mem (Block D) Unit
  | 0, _ => return ()
  | count + 1, i => do
      free (given (← loadPointer entries i))
      freeEntries entries count (i + 1)

/-- The same for the names and the entries of an object. -/
def freeMembers (names entries : Nat) : Nat → Nat → Mem (Block D) Unit
  | 0, _ => return ()
  | count + 1, i => do
      free (given (← loadPointer names i))
      free (given (← loadPointer entries i))
      freeMembers names entries count (i + 1)

/-- How many siblings there are. -/
def countFrom : Nat → Option Nat → Mem (Block D) Nat
  | 0, _ => trap .fuel
  | _ + 1, none => return 0
  | fuel + 1, some child => do
      let node ← loadNode child
      return (← countFrom fuel node.next) + 1

/-- The `malloc` for a length that is an `int`. -/
def mallocInt (len : Nat) : Mem (Block D) (Option Nat) := malloc (toSize (toInt len))

section Format

variable (fmt : Bool)

/-- What stands behind an entry with so many behind it. -/
def itemsMark (count : Nat) : Bytes := if count = 0 then [] else 44 :: space fmt

def membersMark (count : Nat) : Bytes := (if count = 0 then [] else [44]) ++ newline fmt

/-- The loop that composes an array, from entry `i` on. -/
def composeItems (entries out : Nat) : Nat → Nat → Nat → Mem (Block D) Nat
  | 0, _, ptr => return ptr
  | count + 1, i, ptr => do
      let entry := given (← loadPointer entries i)
      let text ← loadText entry
      write out ptr text
      let ptr := ptr + text.length
      write out ptr (if count = 0 then [] else itemsMark fmt count ++ [0])
      free entry
      composeItems entries out count (i + 1) (ptr + (itemsMark fmt count).length)

/-- The loop that composes an object. -/
def composeMembers (names entries out depth : Nat) : Nat → Nat → Nat → Mem (Block D) Nat
  | 0, _, ptr => return ptr
  | count + 1, i, ptr => do
      write out ptr (indent fmt depth)
      let ptr := ptr + (indent fmt depth).length
      let name := given (← loadPointer names i)
      let key ← loadText name
      write out ptr key
      let ptr := ptr + key.length
      write out ptr (58 :: indent fmt 1)
      let ptr := ptr + (58 :: indent fmt 1).length
      let entry := given (← loadPointer entries i)
      let text ← loadText entry
      write out ptr (text ++ [0])
      let ptr := ptr + text.length
      write out ptr (membersMark fmt count ++ [0])
      free name
      free entry
      composeMembers names entries out depth count (i + 1) (ptr + (membersMark fmt count).length)

/-! ## Values -/

mutual

/-- `print_value` without a buffer. -/
def printValue : Nat → Nat → Nat → Mem (Block D) (Option Nat)
  | 0, _, _ => trap .fuel
  | fuel + 1, item, depth => do
      let node ← loadNode item
      let kind := node.type &&& 255
      if kind = cJsonNull then strdup (.static ⟨lit "null", by decide⟩)
      else if kind = cJsonFalse then strdup (.static ⟨lit "false", by decide⟩)
      else if kind = cJsonTrue then strdup (.static ⟨lit "true", by decide⟩)
      else if kind = cJsonNumber then printNumber node
      else if kind = cJsonString then printStringPtr node.valuestring
      else if kind = cJsonArray then printArray fuel node depth
      else if kind = cJsonObject then printObject fuel node depth
      else return none

def printArray : Nat → Node D → Nat → Mem (Block D) (Option Nat)
  | 0, _, _ => trap .fuel
  | fuel + 1, node, depth => do
      let numentries ← countFrom fuel node.child
      if numentries = 0 then
        match ← malloc 3 with
        | none => return none
        | some out =>
            write out 0 (lit "[]" ++ [0])
            return some out
      else
        match ← newPointers numentries with
        | none => return none
        | some entries =>
            match ← itemsOut fuel entries 0 node.child (depth + 1) 5 with
            | none =>
                freeEntries entries numentries 0
                release entries
                return none
            | some out =>
                write out 0 [91, 0]
                let ptr ← composeItems fmt entries out numentries 0 1
                release entries
                write out ptr [93, 0]
                return some out

/-- The loop over the children, and the block for their texts. -/
def itemsOut : Nat → Nat → Nat → Option Nat → Nat → Nat → Mem (Block D) (Option Nat)
  | 0, _, _, _, _, _ => trap .fuel
  | _ + 1, _, _, none, _, len => mallocInt len
  | fuel + 1, entries, i, some child, depth, len => do
      let ret ← printValue fuel child depth
      savePointer entries i ret
      match ret with
      | none => return none
      | some _ =>
          let text ← loadText (given ret)
          let node ← loadNode child
          itemsOut fuel entries (i + 1) node.next depth
            (len + text.length + 2 + (space fmt).length)

def printObject : Nat → Node D → Nat → Mem (Block D) (Option Nat)
  | 0, _, _ => trap .fuel
  | fuel + 1, node, depth => do
      let numentries ← countFrom fuel node.child
      if numentries = 0 then
        match ← malloc (if fmt then depth + 4 else 3) with
        | none => return none
        | some out =>
            write out 0 (123 :: (newline fmt ++ indent fmt (depth - 1) ++ [125, 0]))
            return some out
      else
        match ← newPointers numentries with
        | none => return none
        | some entries =>
            match ← newPointers numentries with
            | none =>
                release entries
                return none
            | some names =>
                match ← membersOut fuel names entries 0 node.child (depth + 1)
                    (7 + if fmt then depth + 1 else 0) false with
                | none =>
                    freeMembers names entries numentries 0
                    release names
                    release entries
                    return none
                | some out =>
                    write out 0 (123 :: newline fmt ++ [0])
                    let ptr ← composeMembers fmt names entries out (depth + 1) numentries 0
                      (1 + (newline fmt).length)
                    release names
                    release entries
                    write out ptr (indent fmt depth ++ [125, 0])
                    return some out

/-- The same for objects, where the loop goes on behind a failure. -/
def membersOut : Nat → Nat → Nat → Nat → Option Nat → Nat → Nat → Bool → Mem (Block D) (Option Nat)
  | 0, _, _, _, _, _, _, _ => trap .fuel
  | _ + 1, _, _, _, none, _, len, fail => if fail then return none else mallocInt len
  | fuel + 1, names, entries, i, some child, depth, len, fail => do
      let node ← loadNode child
      let str ← printStringPtr node.string
      savePointer names i str
      let ret ← printValue fuel child depth
      savePointer entries i ret
      if str.isSome ∧ ret.isSome then
        let value ← loadText (given ret)
        let key ← loadText (given str)
        membersOut fuel names entries (i + 1) node.next depth
          (len + value.length + key.length + 2 + if fmt then 2 + depth else 0) fail
      else membersOut fuel names entries (i + 1) node.next depth len true

end

/-- `cJSON_Print` and `cJSON_PrintUnformatted`. -/
def cJsonPrint : Option Nat → Mem (Block D) (Option Nat)
  | none => return none
  | some item => overBlocks fun fuel => printValue fmt (3 * fuel) item 0

end Format

end Definitions

/-! ## Numbers and strings fit their blocks -/

section Scalars

variable {D : Type} [Double D] {generous : Prop}

theorem numberText_room [PrintedDouble D] {valueint : Int} (isInt : IsInt valueint) (d : D) :
    (numberText valueint d).length + 1 ≤ numberRoom valueint d := by
  unfold numberText numberRoom
  split
  · decide
  · split
    · have short := decimal_length isInt
      omega
    · split
      next whole =>
        rw [Bool.and_eq_true] at whole
        exact PrintedDouble.whole d whole.2
      next =>
        split
        next => exact PrintedDouble.exponent d
        next fixed =>
          rw [Bool.or_eq_true, not_or] at fixed
          exact PrintedDouble.fixed d (Bool.eq_false_iff.mpr fixed.2)

theorem numberText_nulFree [PrintedDouble D] (valueint : Int) (d : D) :
    0 ∉ numberText valueint d := by
  unfold numberText
  split
  · decide
  · split
    · exact decimal_nulFree valueint
    · split
      · exact PrintedDouble.nulFree _ d
      · split <;> exact PrintedDouble.nulFree _ d

theorem escapedRoom_eq {byte : Byte} (nonzero : byte ≠ 0) :
    escapedRoom byte = (escapeByte byte).length := by
  have each : ∀ n < 256, n ≠ 0 →
      escapedRoom (UInt8.ofNat n) = (escapeByte (UInt8.ofNat n)).length := by decide +kernel
  have here_ := each byte.toNat byte.toNat_lt fun zero => nonzero (UInt8.toNat_inj.mp zero)
  rwa [UInt8.ofNat_toNat] at here_

theorem escapeByte_nulFree {byte : Byte} (nonzero : byte ≠ 0) : 0 ∉ escapeByte byte := by
  have each : ∀ n < 256, n ≠ 0 → 0 ∉ escapeByte (UInt8.ofNat n) := by decide +kernel
  have here_ := each byte.toNat byte.toNat_lt fun zero => nonzero (UInt8.toNat_inj.mp zero)
  rwa [UInt8.ofNat_toNat] at here_

theorem stringText_nulFree (text : Text) : 0 ∉ stringText text := by
  intro member
  rw [stringText, List.mem_cons, List.mem_append, List.mem_flatMap] at member
  rcases member with quote | ⟨byte, inside, zero⟩ | quote
  · exact absurd quote (by decide)
  · refine escapeByte_nulFree ?_ zero
    rintro rfl
    exact text.property inside
  · exact absurd quote (by decide)

theorem stringText_length (text : Text) :
    (stringText text).length = (text.val.map fun byte => (escapeByte byte).length).sum + 2 := by
  rw [stringText, List.length_cons, List.length_append, List.length_flatMap]
  rfl

theorem stringText_plain {text : Text} (plain : ¬ text.val.any flagged = true) :
    stringText text = 34 :: (text.val ++ [34]) := by
  have printed := printStringPtr_eq text.property
  rw [JsonPrint.printStringPtr, if_neg plain] at printed
  exact printed.symm

/-- What the function counts is what it writes. -/
theorem stringRoom_eq (text : Text) (small : (stringText text).length + 1 < 2 ^ 31) :
    stringRoom text.val = .ok ((stringText text).length + 1 : Nat) := by
  unfold stringRoom
  split
  next =>
    have counted : (text.val.map escapedRoom).sum + 2 = (stringText text).length := by
      rw [stringText_length]
      congr 2
      refine List.map_congr_left fun byte member => escapedRoom_eq ?_
      rintro rfl
      exact text.property member
    rw [checkInt_of_isInt ⟨by omega, by omega⟩]
    congr 1
    omega
  next plain =>
    rw [stringText_plain plain] at small ⊢
    simp only [List.length_cons, List.length_append, List.length_nil] at small ⊢
    have length : toInt text.val.length = text.val.length := toInt_of_isInt ⟨by omega, by omega⟩
    rw [length, checkInt_of_isInt ⟨by omega, by omega⟩]
    rfl

end Scalars

section Strings

variable {D : Type} {generous : Prop}

/-- `out` holds a text, with so much room behind it. -/
def Wrote (out : Nat) (text : Bytes) (room : Nat) (after : Cells (Block D)) : Prop :=
  ∃ slack, slack.length = room ∧ after = {(out, .chars (filled text slack))}

theorem triple_writes (out : Nat) (text bytes : Bytes) (slack : List (Option Byte)) {ptr : Nat}
    (behind : ptr = text.length) (room : bytes.length ≤ slack.length) :
    Triple generous {(out, .chars (filled text slack))} (write (D := D) out ptr bytes)
      fun _ after => Wrote out (text ++ bytes) (slack.length - bytes.length) after := by
  refine (triple_write out text bytes slack behind room).weaken ?_
  rintro _ _ rfl
  exact ⟨_, List.length_drop, rfl⟩

theorem triple_writesNul (out : Nat) (text bytes : Bytes) (slack : List (Option Byte)) {ptr : Nat}
    (behind : ptr = text.length) (room : bytes.length < slack.length) :
    Triple generous {(out, .chars (filled text slack))} (write (D := D) out ptr (bytes ++ [0]))
      fun _ after => Wrote out (text ++ bytes) (slack.length - bytes.length) after := by
  refine (triple_writeNul out text bytes slack behind room).weaken ?_
  rintro _ _ rfl
  refine ⟨_, ?_, rfl⟩
  rw [List.length_cons, List.length_drop]
  omega

theorem triple_escapeLoop (out : Nat) {str : Bytes} (nulFree : 0 ∉ str) (text : Bytes)
    (slack : List (Option Byte)) {ptr2 : Nat} (behind : ptr2 = text.length)
    (room : (str.flatMap escapeByte).length < slack.length) :
    Triple generous {(out, .chars (filled text slack))} (escapeLoop (D := D) out ptr2 str)
      fun result after => result = (text ++ str.flatMap escapeByte).length ∧
        Wrote out (text ++ str.flatMap escapeByte) (slack.length - (str.flatMap escapeByte).length)
          after := by
  induction str generalizing text slack ptr2 with
  | nil => exact triple_pure ⟨by rw [behind]; simp, slack, rfl, by simp⟩
  | cons byte rest inductionHypothesis =>
      rw [List.flatMap_cons, List.length_append] at room
      have later : 0 ∉ rest := fun member => nulFree (List.mem_cons_of_mem _ member)
      have step : Triple generous {(out, .chars (filled text slack))}
          (write (D := D) out ptr2 (if (escapeByte byte).length = 6 then escapeByte byte ++ [0]
            else escapeByte byte))
          fun _ after => Wrote out (text ++ escapeByte byte) (slack.length - (escapeByte byte).length)
            after := by
        split
        · exact triple_writesNul out text (escapeByte byte) slack behind (by omega)
        · exact triple_writes out text (escapeByte byte) slack behind (by omega)
      refine step.bind (add_zero _).symm ?_
      rintro _ _ ⟨left, length, rfl⟩
      rw [add_zero]
      refine (inductionHypothesis later (text ++ escapeByte byte) left
        (by rw [behind, List.length_append]) (by omega)).weaken ?_
      rintro _ _ ⟨rfl, slack', length', rfl⟩
      have length : (escapeByte byte ++ rest.flatMap escapeByte).length = _ := List.length_append
      rw [List.flatMap_cons, ← List.append_assoc, length]
      exact ⟨rfl, slack', by omega, rfl⟩

/-- The string with its quotes and its NUL. -/
theorem triple_writeString (out : Nat) (str : Text) (text : Bytes) (slack : List (Option Byte))
    {ptr : Nat} (behind : ptr = text.length) (room : (stringText str).length < slack.length) :
    Triple generous {(out, .chars (filled text slack))} (writeString (D := D) out ptr str.val)
      fun _ after => ∃ slack', slack'.length + ((stringText str).length + 1) = slack.length ∧
        after = {(out, .chars (filled (text ++ stringText str) (some 0 :: slack')))} := by
  subst behind
  have opened : ([34] : Bytes).length ≤ slack.length := by
    rw [stringText, List.length_cons] at room
    rw [List.length_singleton]
    omega
  refine (triple_write out text [34] slack rfl opened).bind (add_zero _).symm ?_
  rintro _ _ rfl
  rw [add_zero]
  split
  next =>
    rw [stringText, List.length_cons, List.length_append] at room
    simp only [List.length_singleton] at room
    refine (triple_escapeLoop out str.property (text ++ [34]) (slack.drop 1) (by simp)
      (by rw [List.length_drop]; omega)).bind (add_zero _).symm ?_
    rintro _ _ ⟨rfl, left, length, rfl⟩
    rw [add_zero]
    rw [List.length_drop] at length
    refine (triple_writeNul out _ [34] left rfl (by simp; omega)).weaken ?_
    rintro _ _ rfl
    refine ⟨left.drop 2, ?_, ?_⟩
    · rw [stringText, List.length_cons, List.length_append, List.length_drop]
      simp only [List.length_singleton]
      omega
    · simp [stringText]
  next plain =>
    rw [stringText_plain plain] at room ⊢
    simp only [List.length_cons, List.length_append, List.length_nil] at room
    refine (triple_writeNul out (text ++ [34]) str.val (slack.drop 1) (by simp)
      (by rw [List.length_drop]; omega)).bind (add_zero _).symm ?_
    rintro _ _ rfl
    rw [add_zero]
    refine (triple_write out (text ++ [34] ++ str.val) [34] _ (by simp; omega) (by simp)).bind
      (add_zero _).symm ?_
    rintro _ _ rfl
    rw [add_zero]
    refine (triple_writeNul out (text ++ [34] ++ str.val ++ [34]) [] _ (by simp; omega)
      (by simp; omega)).weaken ?_
    rintro _ _ rfl
    refine ⟨slack.drop (str.val.length + 3), ?_, ?_⟩
    · simp only [List.length_drop, List.length_cons, List.length_append, List.length_nil]
      omega
    · simp

end Strings

end DistStore.JsonNodePrint

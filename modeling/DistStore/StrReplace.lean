import DistStore.Environment
import DistStore.Lib.CNumber

/-!
# `str_replace`

The replaced text is built in a block from `malloc`.  The text before the first
occurrence of the key is copied to the front of the block without a NUL and
everything else is appended at the first NUL found, so that bytes the block
held before can stand between the two.  Where the key does not occur, the text
is appended to whatever the block holds.  All lengths are kept in `int`s.
-/

set_option autoImplicit false

namespace DistStore.StrReplace

open CMemory ListSearch Program Environment

/-- What a pass does before it appends the replacement. -/
def copyPass (src : Bytes) (q p count : Nat) (strBuf : Bytes) : C Bytes :=
  let len := toInt ((p : Int) - q)
  if count = 1 then strncpy strBuf 0 src q len else strncat strBuf src q (toSize len)

/-- The loop body from the assignment of `len` on: `strBuf` behind it. -/
def replacePass (src replace : Bytes) (q p count : Nat) (strBuf : Bytes) : C Bytes := do
  let copied ← copyPass src q p count strBuf
  strcat copied (replace ++ [0]) 0

/-- The loop, for at most `fuel` passes: `q` and `strBuf` behind it. -/
def replaceLoop (src key replace : Bytes) : Nat → Nat → Nat → Bytes → C (Nat × Bytes)
  -- more passes than bytes: `q` stands still until `count` overflows
  | 0, _, _, _ => .error .signedOverflow
  | fuel + 1, q, count, strBuf => do
      match ← strstr src q key with
      | none => return (q, strBuf)
      | some p =>
          let _ ← checkInt (count + 1 : Nat)
          let replaced ← replacePass src replace q p (count + 1) strBuf
          let keyLen := toInt key.length
          let next ← moveBy p keyLen
          replaceLoop src key replace fuel next (count + 1) replaced

def appendRest (src : Bytes) (q : Nat) (strBuf : Bytes) : C Bytes := do
  let byte ← byteAt src q
  if byte ≠ 0 then strcat strBuf src q else return strBuf

def copyBack (src : Bytes) (srcLen : Int) (strBuf : Bytes) : C Bytes := do
  let size ← checkInt (srcLen + 1)
  let cleared ← memset src 0 0 size
  strncpy cleared 0 strBuf 0 srcLen

/-- What `str_replace` leaves in `src`, with the block `malloc` gave it. -/
def replaceIn (src key replace : Bytes) (srcLen : Int) (block : Bytes) : C Bytes := do
  let (q, strBuf) ← replaceLoop src key replace src.length 0 0 block
  let whole ← appendRest src q strBuf
  copyBack src srcLen whole

/-- `str_replace` from the test of what `malloc` returned on. -/
def replaceGiven (src key replace : Bytes) (srcLen : Int) : Option Bytes → C (Int × Bytes)
  | none => return (-1, src)
  | some block => do
      let replaced ← replaceIn src key replace srcLen block
      return (0, replaced)

/-- The bytes of the block that `malloc` returned. -/
def blockBytes {size : Nat} : Answer (.malloc .strReplace size) → Option Bytes
  | none => none
  | some block => some block.val

/-- `str_replace`: the returned code and `src`. -/
def strReplace (src key replace : Bytes) : Code (Int × Bytes) := do
  let length ← ofC (strlen src 0)
  let srcLen := toInt length
  let given ← ask (.malloc .strReplace (toSize srcLen))
  ofC (replaceGiven src key replace srcLen (blockBytes given))

section Loop

variable {src key replace strBuf built rest : Bytes} {q offset count : Nat}

theorem replaceLoop_of_none (position : strAt src q = .ok rest) (absent : find key rest = none)
    (fuel : Nat) : replaceLoop src key replace (fuel + 1) q count strBuf = .ok (q, strBuf) := by
  simp only [replaceLoop, strstr_of_strAt key position, absent, Option.map_none, ok_bind,
    pure_eq_ok]

/-- A pass over a text that an `int` counts. -/
theorem replaceLoop_of_some (nonempty : key ≠ []) (position : strAt src q = .ok rest)
    (found : find key rest = some offset) (small : count + rest.length < 2 ^ 31) (fuel : Nat) :
    replaceLoop src key replace (fuel + 1) q count strBuf =
      replacePass src replace q (q + offset) (count + 1) strBuf >>= fun replaced =>
        replaceLoop src key replace fuel (q + offset + key.length) (count + 1) replaced := by
  have fits := find_fits found
  have positive : 0 < key.length := List.length_pos_iff.mpr nonempty
  have counted : checkInt (count + 1 : Nat) = .ok ((count + 1 : Nat) : Int) :=
    checkInt_of_isInt ((isInt_natCast_iff _).mpr (by omega))
  have keyLen : toInt key.length = key.length := toInt_natCast (by omega)
  rw [replaceLoop, strstr_of_strAt key position, found, Option.map_some, ok_bind]
  dsimp only
  rw [counted, ok_bind, keyLen, moveBy_natCast]
  rfl

theorem copyPass_of_small (small : offset < 2 ^ 31) :
    copyPass src q (q + offset) count strBuf =
      if count = 1 then strncpy strBuf 0 src q offset else strncat strBuf src q offset := by
  have len : toInt ((q + offset : Nat) - (q : Nat)) = offset := by
    rw [Nat.cast_add, add_sub_cancel_left, toInt_natCast small]
  unfold copyPass
  dsimp only
  rw [len, toSize_natCast (by omega)]

/-- `strBuf` holds the text built so far, what is left of the source fits behind
it, and an `int` counts both the passes and what is left. -/
structure Builds (src strBuf : Bytes) (q count : Nat) (built rest : Bytes) : Prop where
  position : strAt src q = .ok rest
  holds : strAt strBuf 0 = .ok built
  fits : built.length + rest.length < strBuf.length
  small : count + rest.length < 2 ^ 31

/-- The end of a pass: the replacement is appended to what was copied. -/
theorem appendReplacement {copied : Bytes} (nonempty : key ≠ [])
    (position : strAt src q = .ok rest) (found : find key rest = some offset)
    (nulFree : 0 ∉ replace) (holds : strAt copied 0 = .ok built)
    (small : count + rest.length < 2 ^ 31)
    (fits : built.length + replace.length + (rest.length - (offset + key.length)) <
      copied.length) :
    ∃ next, strcat copied (replace ++ [0]) 0 = .ok next ∧ next.length = copied.length ∧
      Builds src next (q + offset + key.length) (count + 1) (built ++ replace)
        (rest.drop (offset + key.length)) := by
  have inside := find_fits found
  have positive : 0 < key.length := List.length_pos_iff.mpr nonempty
  have literal : strAt (replace ++ [0]) 0 = .ok replace := strAt_append [] replace [] nulFree
  obtain ⟨next, appended, length, text⟩ := strcat_of_strAt holds literal (by omega)
  refine ⟨next, appended, length, ?_, text, ?_, ?_⟩
  · rw [Nat.add_assoc]
    exact strAt_add _ position inside
  · rw [List.length_append, List.length_drop, length]
    exact fits
  · rw [List.length_drop]
    omega

/-- The first pass leaves the bytes of the block up to its next NUL behind the
copied front. -/
theorem replacePass_first {text junk tail block : Bytes} (nonempty : key ≠ [])
    (position : strAt src 0 = .ok text) (found : find key text = some offset)
    (nulFree : 0 ∉ replace) (small : text.length < 2 ^ 31) (sameSize : block.length = text.length)
    (behind : block.drop offset = junk ++ 0 :: tail) (junkFree : 0 ∉ junk)
    (short : junk.length + replace.length < key.length) :
    ∃ next, replacePass src replace 0 (0 + offset) 1 block = .ok next ∧
      next.length = block.length ∧
      Builds src next (0 + offset + key.length) 1 (text.take offset ++ junk ++ replace)
        (text.drop (offset + key.length)) := by
  have inside := find_fits found
  have front : (text.take offset).length = offset := List.length_take_of_le (by omega)
  have frontFree : 0 ∉ text.take offset :=
    fun member => strAt_nulFree position (List.mem_of_mem_take member)
  have copied : copyPass src 0 (0 + offset) 1 block =
      .ok (text.take offset ++ (junk ++ 0 :: tail)) := by
    rw [copyPass_of_small (by omega), if_pos rfl,
      strncpy_of_le block 0 offset position (by omega), store, front, if_pos (by omega),
      Nat.zero_add, behind]
    rfl
  have holds : strAt (text.take offset ++ (junk ++ 0 :: tail)) 0 =
      .ok (text.take offset ++ junk) := by
    rw [← List.append_assoc]
    exact strAt_append [] _ tail (by simp [frontFree, junkFree])
  have size : (text.take offset ++ (junk ++ 0 :: tail)).length = block.length := by
    rw [← behind, List.length_append, front, List.length_drop]
    omega
  have allSmall : 0 + text.length < 2 ^ 31 := by rwa [Nat.zero_add]
  obtain ⟨next, appended, length, builds⟩ :=
    appendReplacement nonempty position found nulFree holds allSmall (by
      rw [size, List.length_append, front]
      omega)
  refine ⟨next, ?_, length.trans size, builds⟩
  rw [replacePass, copied, ok_bind]
  exact appended

theorem replacePass_later (nonempty : key ≠ []) (builds : Builds src strBuf q count built rest)
    (found : find key rest = some offset) (nulFree : 0 ∉ replace)
    (shorter : replace.length ≤ key.length) (later : count ≠ 0) :
    ∃ next, replacePass src replace q (q + offset) (count + 1) strBuf = .ok next ∧
      next.length = strBuf.length ∧
      Builds src next (q + offset + key.length) (count + 1) (built ++ rest.take offset ++ replace)
        (rest.drop (offset + key.length)) := by
  obtain ⟨position, holds, fits, small⟩ := builds
  have inside := find_fits found
  have front : (rest.take offset).length = offset := List.length_take_of_le (by omega)
  obtain ⟨copied, appended, size, text⟩ :=
    strncat_of_strAt holds position (show offset ≤ rest.length by omega) (by omega)
  obtain ⟨next, replaced, length, nextBuilds⟩ :=
    appendReplacement nonempty position found nulFree text small (by
      rw [size, List.length_append, front]
      omega)
  refine ⟨next, ?_, length.trans size, nextBuilds⟩
  rw [replacePass, copyPass_of_small (by omega), if_neg (by omega), appended, ok_bind]
  exact replaced

/-- From the second pass on the loop builds the replaced text. -/
theorem replaceLoop_builds (nonempty : key ≠ []) (nulFree : 0 ∉ replace)
    (shorter : replace.length ≤ key.length) {fuel : Nat}
    (builds : Builds src strBuf q count built rest) (enough : rest.length < fuel)
    (later : count ≠ 0) :
    ∃ end_ next passes last whole,
      replaceLoop src key replace fuel q count strBuf = .ok (end_, next) ∧
      next.length = strBuf.length ∧ Builds src next end_ passes whole last ∧
      whole ++ last = built ++ replaceAll key replace rest := by
  induction fuel generalizing q count strBuf built rest with
  | zero => omega
  | succ fuel inductionHypothesis =>
      cases found : find key rest with
      | none =>
          refine ⟨q, strBuf, count, rest, built, replaceLoop_of_none builds.position found fuel,
            rfl, builds, ?_⟩
          rw [replaceAll_of_none replace found]
      | some offset =>
          have positive : 0 < key.length := List.length_pos_iff.mpr nonempty
          have left := find_fits found
          obtain ⟨replaced, pass, size, nextBuilds⟩ :=
            replacePass_later nonempty builds found nulFree shorter later
          obtain ⟨end_, next, passes, last, whole, loop, length, done, text⟩ :=
            inductionHypothesis nextBuilds (by rw [List.length_drop]; omega) (Nat.succ_ne_zero count)
          refine ⟨end_, next, passes, last, whole, ?_, length.trans size, done, ?_⟩
          · rw [replaceLoop_of_some nonempty builds.position found builds.small, pass, ok_bind]
            exact loop
          · rw [text, replaceAll_of_some replace nonempty found]
            simp only [List.append_assoc]

theorem appendRest_nil (position : strAt src q = .ok []) (strBuf : Bytes) :
    appendRest src q strBuf = .ok strBuf := by
  rw [appendRest, byteAt_of_strAt position]
  rfl

theorem appendRest_cons {byte : Byte} (position : strAt src q = .ok (byte :: rest)) (strBuf : Bytes) :
    appendRest src q strBuf = strcat strBuf src q := by
  rw [appendRest, byteAt_of_strAt position, ok_bind]
  exact if_pos (strAt_head_ne position)

theorem appendRest_builds (builds : Builds src strBuf q count built rest) :
    ∃ next, appendRest src q strBuf = .ok next ∧ next.length = strBuf.length ∧
      strAt next 0 = .ok (built ++ rest) := by
  obtain ⟨position, holds, fits, -⟩ := builds
  cases rest with
  | nil =>
      refine ⟨strBuf, appendRest_nil position strBuf, rfl, ?_⟩
      rw [holds, List.append_nil]
  | cons byte rest =>
      obtain ⟨next, appended, size, text⟩ := strcat_of_strAt holds position fits
      exact ⟨next, (appendRest_cons position strBuf).trans appended, size, text⟩

end Loop

section Function

variable {src key replace block text : Bytes}

theorem copyBack_of_lt {strBuf out : Bytes} {srcLen : Nat} (inside : srcLen < src.length)
    (small : srcLen + 1 < 2 ^ 31) (holds : strAt strBuf 0 = .ok out)
    (short : out.length < srcLen) :
    ∃ next, copyBack src srcLen strBuf = .ok next ∧ next.length = src.length ∧
      strAt next 0 = .ok out := by
  have size : checkInt ((srcLen : Int) + 1) = .ok ((srcLen : Int) + 1) :=
    checkInt_of_isInt ⟨by omega, by omega⟩
  obtain ⟨cleared, clears, sameSize⟩ :
      ∃ cleared, memset src 0 0 ((srcLen : Int) + 1) = .ok cleared ∧ cleared.length = src.length := by
    have clears := memset_front src srcLen
    rw [if_pos inside] at clears
    exact ⟨_, clears, memset_length clears⟩
  have length : (padTo srcLen out).length = srcLen := padTo_length _ _ short.le
  have copied : strncpy cleared 0 strBuf 0 srcLen =
      .ok (padTo srcLen out ++ cleared.drop srcLen) := by
    rw [strncpy_of_lt cleared 0 srcLen holds short, store, length, if_pos (by omega), Nat.zero_add]
    rfl
  refine ⟨_, ?_, (strncpy_length copied).trans sameSize, ?_⟩
  · rw [copyBack, size, ok_bind, clears, ok_bind, copied]
  · exact strAt_append_right (strAt_padTo (strAt_nulFree holds) short) _

/-- With an occurrence of the key, the bytes the block held at the place of the
first one up to their NUL come out in front of its replacement. -/
theorem replaceIn_of_some {junk tail : Bytes} {offset : Nat} (nonempty : key ≠ [])
    (position : strAt src 0 = .ok text) (small : text.length + 1 < 2 ^ 31)
    (found : find key text = some offset) (nulFree : 0 ∉ replace)
    (sameSize : block.length = text.length) (behind : block.drop offset = junk ++ 0 :: tail)
    (junkFree : 0 ∉ junk) (short : junk.length + replace.length < key.length) :
    ∃ next, replaceIn src key replace text.length block = .ok next ∧ next.length = src.length ∧
      strAt next 0 = .ok (text.take offset ++ junk ++ replace ++
        replaceAll key replace (text.drop (offset + key.length))) := by
  have left := find_fits found
  have inside : text.length < src.length := by simpa using strAt_length position
  obtain ⟨fuel, passes⟩ : ∃ fuel, src.length = fuel + 1 := ⟨src.length - 1, by omega⟩
  obtain ⟨first, pass, firstSize, builds⟩ :=
    replacePass_first nonempty position found nulFree (by omega) sameSize behind junkFree short
  obtain ⟨end_, strBuf, count, last, whole, loop, size, done, same⟩ :=
    replaceLoop_builds nonempty nulFree (by omega) builds
      (show _ < fuel by rw [List.length_drop]; omega) Nat.one_ne_zero
  obtain ⟨filled, appended, filledSize, out⟩ := appendRest_builds done
  have outShort : (whole ++ last).length < text.length := by
    have fits := done.fits
    rw [List.length_append]
    omega
  obtain ⟨next, copied, nextSize, result⟩ := copyBack_of_lt inside small out outShort
  refine ⟨next, ?_, nextSize, result.trans (by rw [same])⟩
  have allSmall : 0 + text.length < 2 ^ 31 := by omega
  rw [replaceIn, passes, replaceLoop_of_some nonempty position found allSmall, pass, ok_bind, loop,
    ok_bind]
  exact (bind_eq_ok_iff _ _ _).mpr ⟨filled, appended, copied⟩

/-- Without an occurrence the text is appended and copied back. -/
theorem replaceIn_absent {srcLen : Int} (position : strAt src 0 = .ok text)
    (absent : find key text = none) :
    replaceIn src key replace srcLen block = appendRest src 0 block >>= copyBack src srcLen := by
  have inside : text.length < src.length := by simpa using strAt_length position
  obtain ⟨fuel, passes⟩ : ∃ fuel, src.length = fuel + 1 := ⟨src.length - 1, by omega⟩
  rw [replaceIn, passes, replaceLoop_of_none position absent, ok_bind]

/-- Where `srcLen` is 0 the text becomes the empty one. -/
theorem copyBack_zero (position : strAt src 0 = .ok text) (strBuf : Bytes) :
    ∃ next, copyBack src 0 strBuf = .ok next ∧ next.length = src.length ∧ strAt next 0 = .ok [] := by
  have inside : 0 < src.length := Nat.zero_lt_of_lt (by simpa using strAt_length position)
  have clears : memset src 0 0 (0 + 1 : Int) = _ := memset_front src 0
  rw [if_pos inside] at clears
  have one : checkInt (0 + 1) = .ok (0 + 1) := checkInt_of_isInt ⟨by decide, by decide⟩
  refine ⟨0 :: src.drop 1, ?_, memset_length clears, strAt_append [] [] _ List.not_mem_nil⟩
  rw [copyBack, one, ok_bind, clears]
  simp [strncpy, paddedCopy, store, zeros]

/-- Without one, a nonempty text does not fit behind anything in a block of its
own length. -/
theorem replaceIn_of_none (nonempty : text ≠ []) (position : strAt src 0 = .ok text)
    (absent : find key text = none) (sameSize : block.length = text.length) (next : Bytes) :
    replaceIn src key replace text.length block ≠ .ok next := by
  intro done
  rw [replaceIn_absent position absent] at done
  obtain ⟨filled, appended, -⟩ := (bind_eq_ok_iff _ _ _).mp done
  cases text with
  | nil => exact nonempty rfl
  | cons byte text =>
      rw [appendRest_cons position] at appended
      exact strcat_too_long position sameSize.le filled appended

/-- The empty text stays empty. -/
theorem replaceIn_nil (nonempty : key ≠ []) (position : strAt src 0 = .ok []) (block : Bytes) :
    ∃ next, replaceIn src key replace 0 block = .ok next ∧ next.length = src.length ∧
      strAt next 0 = .ok [] := by
  have absent : find key [] = none :=
    (find_eq_none_iff _ _).mpr fun occurs => nonempty (List.infix_nil.mp occurs)
  obtain ⟨next, copied, size, emptied⟩ := copyBack_zero position block
  refine ⟨next, ?_, size, emptied⟩
  rw [replaceIn_absent position absent, appendRest_nil position]
  exact copied

/-! ## Runs -/

variable {env : Env} {next : Bytes} {found : Block text.length}

theorem replaceGiven_length {given : Option Bytes} {srcLen code : Int}
    (replaced : replaceGiven src key replace srcLen given = .ok (code, next)) :
    next.length = src.length := by
  cases given with
  | none =>
      cases replaced
      rfl
  | some block =>
      obtain ⟨filled, done, same⟩ := (bind_eq_ok_iff _ _ _).mp replaced
      cases same
      obtain ⟨⟨q, strBuf⟩, -, done⟩ := (bind_eq_ok_iff _ _ _).mp done
      obtain ⟨whole, -, done⟩ := (bind_eq_ok_iff _ _ _).mp done
      obtain ⟨size, -, done⟩ := (bind_eq_ok_iff _ _ _).mp done
      obtain ⟨cleared, clears, copied⟩ := (bind_eq_ok_iff _ _ _).mp done
      exact (strncpy_length copied).trans (memset_length clears)

theorem strReplace_satisfies {allowed : Call → Prop} (malloc : ∀ size, allowed (.malloc .strReplace size)) :
    (strReplace src key replace).Satisfies env allowed
      fun result => result.2.length = src.length := by
  refine satisfies_ofC_bind fun length _ => satisfies_ask_bind (malloc (toSize (toInt length))) ?_
  exact satisfies_ofC fun _ replaced => replaceGiven_length replaced

/-- A text that an `int` counts gets a block of its own length. -/
theorem strReplace_eq (position : strAt src 0 = .ok text) (small : text.length < 2 ^ 31) :
    strReplace src key replace = ask (.malloc .strReplace text.length) >>= fun given =>
      ofC (replaceGiven src key replace text.length (blockBytes given)) := by
  rw [strReplace, strlen_of_strAt position, ofC_ok, Prog.ret_bind]
  dsimp only
  rw [toInt_natCast small, toSize_natCast (by omega)]

theorem strReplace_returns {given : Block text.length} (position : strAt src 0 = .ok text)
    (small : text.length < 2 ^ 31)
    (allocated : env (.malloc .strReplace text.length) = some given)
    (replaced : replaceIn src key replace text.length given.val = .ok next) :
    (strReplace src key replace).outcome env = .returned (0, next) := by
  rw [strReplace_eq position small, outcome_ask_bind, allocated, blockBytes, replaceGiven,
    replaced]
  rfl

theorem strReplace_stops {given : Block text.length} (position : strAt src 0 = .ok text)
    (small : text.length < 2 ^ 31)
    (allocated : env (.malloc .strReplace text.length) = some given)
    (fails : ∀ next, replaceIn src key replace text.length given.val ≠ .ok next) :
    ∃ reason, (strReplace src key replace).outcome env = .stopped reason := by
  rw [strReplace_eq position small, outcome_ask_bind, allocated, blockBytes, replaceGiven]
  cases replaced : replaceIn src key replace text.length given.val with
  | ok next => exact absurd replaced (fails next)
  | error fault => exact ⟨.fault fault, rfl⟩

end Function

end DistStore.StrReplace

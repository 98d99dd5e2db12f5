import DistStore.Record
import Mathlib.Tactic.IntervalCases

/-!
# The decoder on texts

`decodeText` says what `get_value_by_redis` does with a record, whatever the
text of the record is: pieces are cut off at the delimiters from the left, and
a missing delimiter or a `"||||"` before the fourth piece ends in a fault.
-/

set_option autoImplicit false

namespace DistStore.Delimiters

open CMemory ListSearch Record

/-- A text whose end or start the decoder does not find. -/
def textOf : Option Bytes → C Bytes
  | some text => .ok text
  | none => .error .nullPointer

theorem textOf_eq_ok {cut : Option Bytes} {text : Bytes} (found : textOf cut = .ok text) :
    cut = some text := by
  cases cut with
  | none => cases found
  | some field =>
      cases found
      rfl

/-- What stands between delimiter `n` and the next one. -/
def piece (text : Bytes) (n : Nat) : Option Bytes :=
  (behind key n text).bind fun rest => (find key rest).map (rest.take ·)

/-- At most `maxLen` bytes of a text, without a NUL behind them. -/
def copyText (value : Bytes) (maxLen : Int) (text : Bytes) : C Bytes :=
  store value 0 (text.take maxLen.toNat)

/-- The switch of `get_value_by_redis`, on the text of the record. -/
def decodeText (text : Bytes) (wordNum : Int) (value : Bytes) (maxLen : Int) : C Bytes :=
  match wordNum with
  | 1 => textOf (piece text 0) >>= copyText value maxLen
  | 2 => textOf (piece text 1) >>= copyText value maxLen
  | 3 => textOf (piece text 2) >>= copyText value maxLen
  | 4 =>
      match find keyError text with
      | some p => do
          let rest ← textOf (behind key 3 text)
          if text.length - rest.length ≤ p then
            copyText value maxLen (rest.take (p - (text.length - rest.length)))
          else .error .negativeSize
      | none => textOf (piece text 3) >>= copyText value maxLen
  | 5 =>
      match find keyError text with
      | some _ => memset value 0 0 10
      | none => textOf (piece text 4) >>= copyText value maxLen
  | 6 =>
      match find keyError text with
      | some p => store value 0 (text.drop (p + 4) ++ [0])
      | none => textOf (behind key 5 text) >>= copyText value maxLen
  | _ => .ok value

/-- The decoder writes into its buffer. -/
theorem decodeText_length {text value result : Bytes} {wordNum maxLen : Int}
    (done : decodeText text wordNum value maxLen = .ok result) : result.length = value.length := by
  have copied : ∀ cut : Option Bytes,
      (textOf cut >>= copyText value maxLen) = .ok result → result.length = value.length := by
    intro cut copies
    obtain ⟨field, -, stored⟩ := (bind_eq_ok_iff _ _ _).mp copies
    exact store_length stored
  unfold decodeText at done
  split at done
  · exact copied _ done
  · exact copied _ done
  · exact copied _ done
  · split at done
    · obtain ⟨rest, -, stored⟩ := (bind_eq_ok_iff _ _ _).mp done
      split at stored
      · exact store_length stored
      · cases stored
    · exact copied _ done
  · split at done
    · exact memset_length done
    · exact copied _ done
  · split at done
    · exact store_length done
    · exact copied _ done
  · cases done
    rfl

/-! ## Pieces -/

theorem terminated_append (fields more : List Bytes) :
    terminated (fields ++ more) = terminated fields ++ terminated more := by
  induction fields with
  | nil => rfl
  | cons field fields inductionHypothesis =>
      simp only [List.cons_append, terminated, inductionHypothesis, List.append_assoc]

/-- What is behind `n` delimiters is behind `n` pieces. -/
theorem behind_eq_some_iff (n : Nat) (text rest : Bytes) :
    behind key n text = some rest ↔ ∃ fields : List Bytes, fields.length = n ∧
      (∀ field ∈ fields, Clean field) ∧ text = terminated fields ++ rest := by
  constructor
  · intro found
    induction n generalizing text with
    | zero =>
        cases found
        exact ⟨[], rfl, nofun, rfl⟩
    | succ n inductionHypothesis =>
        rcases first : find key text with _ | offset
        · rw [behind_succ_of_none first] at found
          cases found
        · rw [behind_succ first] at found
          obtain ⟨fields, length, clean, split⟩ := inductionHypothesis _ found
          refine ⟨text.take offset :: fields, by rw [List.length_cons, length], ?_, ?_⟩
          · rw [List.forall_mem_cons]
            exact ⟨fresh_take_of_find key_ne_nil first, clean⟩
          · conv_lhs => rw [split_of_find first, split]
            simp only [terminated, List.append_assoc]
  · rintro ⟨fields, rfl, clean, rfl⟩
    induction fields with
    | nil => rfl
    | cons field fields inductionHypothesis =>
        rw [List.forall_mem_cons] at clean
        have first := find_key_field clean.1 (terminated fields ++ rest)
        rw [List.length_cons, terminated, List.append_assoc, List.append_assoc, behind_succ first,
          ← List.drop_drop, List.drop_left, List.drop_left, inductionHypothesis clean.2]

theorem piece_eq_none_iff (text : Bytes) (n : Nat) :
    piece text n = none ↔ behind key (n + 1) text = none := by
  rw [behind_succ_right, piece]
  rcases start : behind key n text with _ | rest
  · rfl
  · rw [Option.bind_some, Option.bind_some]
    rcases ends : find key rest with _ | offset
    · rw [behind_succ_of_none ends]
      rfl
    · rw [behind_succ ends]
      exact iff_of_false nofun nofun

theorem piece_subset {text field : Bytes} {n : Nat} (cut : piece text n = some field) :
    field ⊆ text := by
  obtain ⟨rest, start, ends⟩ := Option.bind_eq_some_iff.mp cut
  obtain ⟨offset, -, rfl⟩ := Option.map_eq_some_iff.mp ends
  obtain ⟨fields, -, -, rfl⟩ := (behind_eq_some_iff _ _ _).mp start
  exact fun byte member => List.mem_append_right _ (List.mem_of_mem_take member)

/-- Joined fields are cut where they were joined. -/
theorem behind_joinFields {fields : List Bytes} (clean : ∀ field ∈ fields, Clean field) {n : Nat}
    (inside : n < fields.length) :
    behind key n (joinFields fields) = some (joinFields (fields.drop n)) := by
  induction n generalizing fields with
  | zero => rfl
  | succ n inductionHypothesis =>
      match fields with
      | field :: next :: rest =>
          rw [List.forall_mem_cons] at clean
          rw [joinFields, behind_succ (find_key_field clean.1 _), ← List.drop_drop, List.drop_left,
            List.drop_left, inductionHypothesis clean.2 (Nat.lt_of_succ_lt_succ inside),
            List.drop_succ_cons]
      | [field] => exact absurd (Nat.lt_of_succ_lt_succ inside) (Nat.not_lt_zero n)

theorem piece_joinFields {fields rest : List Bytes} {field next : Bytes} {n : Nat}
    (clean : ∀ field ∈ fields, Clean field) (shape : fields.drop n = field :: next :: rest) :
    piece (joinFields fields) n = some field := by
  have inside : n < fields.length := by
    by_contra beyond
    rw [List.drop_eq_nil_of_le (by omega)] at shape
    cases shape
  have fieldClean := clean field (List.mem_of_mem_drop (shape ▸ List.mem_cons_self))
  unfold piece
  rw [behind_joinFields clean inside, shape, Option.bind_some, joinFields,
    find_key_field fieldClean, Option.map_some, List.take_left]

section Pointers

variable {redisValue text : Bytes} {pointer : Nat} {maxLen : Int}

/-- A loop that runs out of delimiters goes on from a null pointer. -/
theorem delimLoop_missing (save : Option Nat) (passes i : Nat) (cursor : Cursor)
    (holds : strAt redisValue cursor.begin_ = .ok text) (missing : behind key passes text = none) :
    delimLoop redisValue save passes i cursor = .error .nullPointer := by
  induction passes generalizing i cursor text with
  | zero => cases missing
  | succ passes inductionHypothesis =>
      rcases first : find key text with _ | offset
      · simp [delimLoop, delimStep, strstr_of_strAt key holds, first]
      · rw [behind_succ first] at missing
        have inside := find_fits first
        have next := strAt_add (offset + key.length) holds inside
        unfold delimLoop
        rw [delimStep_find save i cursor holds first, ok_bind]
        exact inductionHypothesis (i + 1) _ (by rw [Nat.add_assoc]; exact next) missing

/-- The loop that saves nothing ends behind as many delimiters. -/
theorem delimLoop_behind (passes : Nat) {rest : Bytes} (holds : strAt redisValue pointer = .ok text)
    (found : behind key passes text = some rest) :
    ∃ next : Cursor, delimLoop redisValue none passes 0 ⟨pointer, none, none⟩ = .ok next ∧
      next.begin_ = pointer + (text.length - rest.length) ∧
        strAt redisValue next.begin_ = .ok rest := by
  obtain ⟨fields, rfl, clean, rfl⟩ := (behind_eq_some_iff _ _ _).mp found
  obtain ⟨next, looped, position, there⟩ :=
    delimLoop_skip redisValue fields rest 0 ⟨pointer, none, none⟩ clean holds
  refine ⟨next, looped, ?_, there⟩
  rw [position, List.length_append, Nat.add_sub_cancel]

theorem copyOut_eq {from_ n : Nat} {rest : Bytes} (holds : strAt redisValue from_ = .ok rest)
    (inside : n ≤ rest.length) (notNegative : 0 ≤ maxLen) (value : Bytes) :
    copyOut redisValue from_ (from_ + n) value maxLen = copyText value maxLen (rest.take n) := by
  by_cases bounded : (n : Int) ≤ maxLen
  · have short : (rest.take n).length ≤ maxLen.toNat := by
      rw [List.length_take]
      omega
    rw [copyOut_eq_store holds inside bounded, copyText, List.take_of_length_le short]
  · have difference : ((from_ + n : Nat) : Int) - from_ = n := by omega
    have cap : maxLen = (maxLen.toNat : Nat) := by omega
    unfold copyOut
    rw [difference, if_pos (by omega), cap, strncpy_of_le value 0 _ holds (by omega),
      copyText, List.take_take, Int.toNat_natCast, Nat.min_eq_left (by omega)]

/-- The piece behind delimiter `save + 1` is copied. -/
theorem copyField_eq (save : Nat) (value : Bytes) (holds : strAt redisValue pointer = .ok text)
    (notNegative : 0 ≤ maxLen) :
    copyField redisValue pointer (save + 2) save value maxLen =
      textOf (piece text (save + 1)) >>= copyText value maxLen := by
  rcases start : behind key (save + 1) text with _ | rest
  · have missing := behind_eq_none_of_le start (Nat.le_succ _)
    unfold copyField
    rw [delimLoop_missing (some save) (save + 2) 0 ⟨pointer, none, none⟩ holds missing,
      piece, start]
    rfl
  · rcases ends : find key rest with _ | n
    · have missing : behind key (save + 2) text = none := by
        rw [behind_succ_right, start, Option.bind_some, behind_succ_of_none ends]
      unfold copyField
      rw [delimLoop_missing (some save) (save + 2) 0 ⟨pointer, none, none⟩ holds missing,
        piece, start, Option.bind_some, ends]
      rfl
    · obtain ⟨fields, length, clean, split⟩ := (behind_eq_some_iff _ _ _).mp start
      rcases List.eq_nil_or_concat' fields with rfl | ⟨skipped, previous, rfl⟩
      · cases length
      · rw [List.length_append, List.length_singleton, Nat.add_right_cancel_iff] at length
        subst length
        have shape : strAt redisValue pointer =
            .ok (terminated skipped ++ (previous ++ (key ++ rest))) := by
          rw [holds, split, terminated_append]
          simp only [terminated, List.append_assoc, List.nil_append]
        obtain ⟨first, next, looped, there⟩ := delimLoop_seek skipped previous 0
          ⟨pointer, none, none⟩ (fun other member => clean other (by
            simp only [List.mem_cons, List.mem_append, List.not_mem_nil, or_false] at member ⊢
            tauto)) ends shape
        have inside := find_fits ends
        rw [Nat.zero_add] at looped
        unfold copyField
        rw [looped, piece, start, Option.bind_some, ends]
        exact copyOut_eq there (by omega) notNegative value

/-- The shortcut of the create time: from behind the third delimiter to the
first `"||||"`. -/
theorem copyOut_shortcut {from_ to_ : Nat} {rest : Bytes} (holds : strAt redisValue from_ = .ok rest)
    (inside : to_ ≤ from_ + rest.length) (notNegative : 0 ≤ maxLen) (value : Bytes) :
    copyOut redisValue from_ to_ value maxLen =
      if from_ ≤ to_ then copyText value maxLen (rest.take (to_ - from_))
      else .error .negativeSize := by
  by_cases ordered : from_ ≤ to_
  · have copied := copyOut_eq holds (n := to_ - from_) (by omega) notNegative value
    rwa [if_pos ordered, ← show from_ + (to_ - from_) = to_ by omega, Nat.add_sub_cancel_left]
  · rw [if_neg ordered, copyOut, if_neg (by omega), strncpy_negative (by omega)]

theorem getField_one (value : Bytes) (holds : strAt redisValue pointer = .ok text)
    (notNegative : 0 ≤ maxLen) :
    getField redisValue pointer 1 value maxLen = decodeText text 1 value maxLen := by
  have start : behind key 0 text = some text := rfl
  simp only [getField, decodeText, strstr_of_strAt key holds, ok_bind, piece, start,
    Option.bind_some]
  rcases found : find key text with _ | n
  · rfl
  · have fits := find_fits found
    simp only [Option.map_some, deref_some, ok_bind, textOf]
    exact copyOut_eq holds (by omega) notNegative value

theorem getField_four (value : Bytes) (holds : strAt redisValue pointer = .ok text)
    (notNegative : 0 ≤ maxLen) :
    getField redisValue pointer 4 value maxLen = decodeText text 4 value maxLen := by
  simp only [getField, decodeText, strstr_of_strAt keyError holds, ok_bind]
  rcases found : find keyError text with _ | p
  · exact copyField_eq 2 value holds notNegative
  · rcases start : behind key 3 text with _ | rest
    · simp only [Option.map_some,
        delimLoop_missing none 3 0 ⟨pointer, none, none⟩ holds start, error_bind, textOf]
    · obtain ⟨next, looped, position, there⟩ := delimLoop_behind 3 holds start
      have fits := find_fits found
      have shorter : rest.length ≤ text.length := by
        obtain ⟨fields, -, -, split⟩ := (behind_eq_some_iff _ _ _).mp start
        rw [split, List.length_append]
        omega
      rw [position] at there
      have inside : pointer + p ≤ pointer + (text.length - rest.length) + rest.length := by omega
      simp only [Option.map_some, looped, ok_bind, textOf, position]
      rw [copyOut_shortcut there inside notNegative, Nat.add_sub_add_left]
      simp only [Nat.add_le_add_iff_left]

theorem getField_five (value : Bytes) (holds : strAt redisValue pointer = .ok text)
    (notNegative : 0 ≤ maxLen) :
    getField redisValue pointer 5 value maxLen = decodeText text 5 value maxLen := by
  simp only [getField, decodeText, strstr_of_strAt keyError holds, ok_bind]
  rcases found : find keyError text with _ | p
  · exact copyField_eq 3 value holds notNegative
  · rfl

theorem getField_six (value : Bytes) (holds : strAt redisValue pointer = .ok text)
    (isInt : IsInt maxLen) (notNegative : 0 ≤ maxLen) :
    getField redisValue pointer 6 value maxLen = decodeText text 6 value maxLen := by
  simp only [getField, decodeText, strstr_of_strAt keyError holds, ok_bind]
  rcases found : find keyError text with _ | p
  · rcases start : behind key 5 text with _ | rest
    · simp only [Option.map_none,
        delimLoop_missing none 5 0 ⟨pointer, none, none⟩ holds start, error_bind, textOf]
    · obtain ⟨next, looped, -, there⟩ := delimLoop_behind 5 holds start
      have upper := isInt.2
      have converted := toSize_of_nonneg notNegative (by omega)
      simp only [Option.map_none, looped, ok_bind, strlen_of_strAt there, textOf, copyText]
      by_cases long : toSize maxLen < rest.length
      · have cap : maxLen = (maxLen.toNat : Nat) := by omega
        rw [if_pos long, cap, strncpy_of_le value 0 _ there (by omega), Int.toNat_natCast]
      · rw [if_neg long, strncpy_of_le value 0 _ there le_rfl, List.take_length,
          List.take_of_length_le (by omega)]
  · have four : keyError.length = 4 := by decide
    have moved := strAt_add (p + 4) holds (by have := find_fits found; omega)
    rw [← Nat.add_assoc] at moved
    simp only [Option.map_some, four, strcpy, moved, ok_bind]

theorem getField_default (redisValue : Bytes) (pointer : Nat) (value : Bytes) (maxLen : Int)
    {wordNum : Int} (outOfRange : ¬ (1 ≤ wordNum ∧ wordNum ≤ 6)) :
    getField redisValue pointer wordNum value maxLen = .ok value := by
  unfold getField
  split
  all_goals first
    | rfl
    | exact absurd (by decide) outOfRange

theorem decodeText_default (text value : Bytes) (maxLen : Int) {wordNum : Int}
    (outOfRange : ¬ (1 ≤ wordNum ∧ wordNum ≤ 6)) :
    decodeText text wordNum value maxLen = .ok value := by
  unfold decodeText
  split
  all_goals first
    | rfl
    | exact absurd (by decide) outOfRange

/-- The decoder in memory does what the decoder on texts does. -/
theorem getField_eq_decodeText (wordNum : Int) (value : Bytes)
    (holds : strAt redisValue pointer = .ok text) (isInt : IsInt maxLen)
    (notNegative : 0 ≤ maxLen) :
    getField redisValue pointer wordNum value maxLen = decodeText text wordNum value maxLen := by
  by_cases inRange : 1 ≤ wordNum ∧ wordNum ≤ 6
  · obtain ⟨lower, upper⟩ := inRange
    interval_cases wordNum
    · exact getField_one value holds notNegative
    · exact copyField_eq 0 value holds notNegative
    · exact copyField_eq 1 value holds notNegative
    · exact getField_four value holds notNegative
    · exact getField_five value holds notNegative
    · exact getField_six value holds isInt notNegative
  · rw [getField_default _ _ _ _ inRange, decodeText_default _ _ _ inRange]

end Pointers

/-- No number is both below 1 and above 6. -/
theorem getValueByRedis_eq (redisValue : Bytes) (pointer : Nat) (wordNum : Int) (value : Bytes)
    (maxLen : Int) : getValueByRedis redisValue pointer wordNum value maxLen = (do
      let written ← getField redisValue pointer wordNum value maxLen
      return (0, written)) :=
  if_neg fun both => by omega

end DistStore.Delimiters

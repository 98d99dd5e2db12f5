import DistStore.Lib.CNumber
import Mathlib.Tactic.FinCases

/-!
# Records of `FILE_INFO_LIST` and their decoder

A record is the text `file_id||url||filename||create time||user||type`.
`getValueByRedis` is the decoder of `data_use.c`: it finds a field by counting
`"||"` from the left, except that a record in which `"||||"` occurs is taken to
have an empty user and is cut at the first `"||||"`.
-/

set_option autoImplicit false

namespace DistStore.Record

open CMemory ListSearch

def key : Bytes := lit "||"

def keyError : Bytes := lit "||||"

/-- The fields joined by `REDIS_DILIMIT`. -/
def joinFields : List Bytes → Bytes
  | [] => []
  | [field] => field
  | field :: next :: rest => field ++ (key ++ joinFields (next :: rest))

/-! ## The decoder -/

/-- The pointers the loops of the decoder carry. -/
structure Cursor where
  begin_ : Nat
  end_ : Option Nat
  first : Option Nat
  deriving DecidableEq, Repr

/-- Pass `i` of a loop `end = strstr(begin, key); begin = end + key_len;` that
keeps `begin` in `first` in its pass `save`. -/
def delimStep (redisValue : Bytes) (save : Option Nat) (i : Nat) (cursor : Cursor) :
    C Cursor := do
  let end_ ← deref (← strstr redisValue cursor.begin_ key)
  let begin_ := end_ + key.length
  return ⟨begin_, some end_, if save = some i then some begin_ else cursor.first⟩

def delimLoop (redisValue : Bytes) (save : Option Nat) : Nat → Nat → Cursor → C Cursor
  | 0, _, cursor => .ok cursor
  | passes + 1, i, cursor => do
      let next ← delimStep redisValue save i cursor
      delimLoop redisValue save passes (i + 1) next

/-- Copy the text between two pointers, at most `maxLen` bytes of it. -/
def copyOut (redisValue : Bytes) (from_ to_ : Nat) (value : Bytes) (maxLen : Int) : C Bytes :=
  let valueLen : Int := if (to_ : Int) - from_ > maxLen then maxLen else (to_ : Int) - from_
  strncpy value 0 redisValue from_ valueLen

/-- `passes` passes over the delimiters and a copy from `first` to `end`. -/
def copyField (redisValue : Bytes) (pointer passes save : Nat) (value : Bytes) (maxLen : Int) :
    C Bytes := do
  let cursor ← delimLoop redisValue (some save) passes 0 ⟨pointer, none, none⟩
  let first ← deref cursor.first
  let end_ ← deref cursor.end_
  copyOut redisValue first end_ value maxLen

/-- The switch of `get_value_by_redis`. -/
def getField (redisValue : Bytes) (pointer : Nat) (wordNum : Int) (value : Bytes) (maxLen : Int) :
    C Bytes :=
  match wordNum with
  | 1 => do
      let end_ ← deref (← strstr redisValue pointer key)
      copyOut redisValue pointer end_ value maxLen
  | 2 => copyField redisValue pointer 2 0 value maxLen
  | 3 => copyField redisValue pointer 3 1 value maxLen
  | 4 => do
      match ← strstr redisValue pointer keyError with
      | some p =>
          let cursor ← delimLoop redisValue none 3 0 ⟨pointer, none, none⟩
          copyOut redisValue cursor.begin_ p value maxLen
      | none => copyField redisValue pointer 4 2 value maxLen
  | 5 => do
      match ← strstr redisValue pointer keyError with
      | some _ => memset value 0 0 10
      | none => copyField redisValue pointer 5 3 value maxLen
  | 6 => do
      match ← strstr redisValue pointer keyError with
      | some p => strcpy value 0 redisValue (p + keyError.length)
      | none =>
          let cursor ← delimLoop redisValue none 5 0 ⟨pointer, none, none⟩
          let length ← strlen redisValue cursor.begin_
          -- `strlen` is unsigned, so `max_len` is converted for the comparison
          let valueLen : Int := if length > toSize maxLen then maxLen else length
          strncpy value 0 redisValue cursor.begin_ valueLen
  | _ => .ok value

/-- `get_value_by_redis`: the returned code and the destination.  Its guard
`word_num < 1 && word_num > 6` is kept as written. -/
def getValueByRedis (redisValue : Bytes) (pointer : Nat) (wordNum : Int) (value : Bytes)
    (maxLen : Int) : C (Int × Bytes) :=
  if wordNum < 1 ∧ wordNum > 6 then .ok (1, value)
  else do
    let written ← getField redisValue pointer wordNum value maxLen
    return (0, written)

/-! ## Fields whose end is found -/

/-- The first `"||"` of a text that starts with the field and a `"||"` is the
one behind the field. -/
def Clean (field : Bytes) : Prop := ¬ key <:+: field ++ key.dropLast

instance (field : Bytes) : Decidable (Clean field) := by
  unfold Clean
  infer_instance

theorem key_ne_nil : key ≠ [] := by decide

theorem key_nulFree : 0 ∉ key := by decide

theorem key_length : key.length = 2 := rfl

theorem singleton_suffix_iff (byte : Byte) (field : Bytes) :
    [byte] <:+ field ↔ field.getLast? = some byte := by
  rw [List.getLast?_eq_some_iff]
  exact exists_congr fun _ => eq_comm

theorem clean_iff (field : Bytes) :
    Clean field ↔ ¬ key <:+: field ∧ field.getLast? ≠ some 124 := by
  have pair : key = [124] ++ [124] := by decide
  have shape : field ++ key.dropLast = field ++ [124] := rfl
  rw [Clean, shape, List.infix_concat_iff, List.suffix_concat_iff, not_or, and_comm]
  refine and_congr_right fun _ => not_congr ?_
  constructor
  · rintro (absurdKey | ⟨init, split, ends⟩)
    · exact absurd absurdKey key_ne_nil
    · obtain ⟨rfl, -⟩ := List.append_inj' (pair.symm.trans split) rfl
      exact (singleton_suffix_iff 124 field).mp ends
  · intro ends
    exact Or.inr ⟨[124], pair, (singleton_suffix_iff 124 field).mpr ends⟩

theorem clean_of_pipeFree {field : Bytes} (pipeFree : 124 ∉ field) : Clean field := by
  refine (clean_iff field).mpr ⟨?_, ?_⟩
  · intro occurs
    exact pipeFree (occurs.subset (by decide))
  · intro ends
    exact pipeFree (List.mem_of_getLast? ends)

theorem find_key_field {field : Bytes} (clean : Clean field) (after : Bytes) :
    find key (field ++ (key ++ after)) = some field.length :=
  find_append_key key_ne_nil after clean

/-- A pass over any text stops at its first delimiter. -/
theorem delimStep_find {redisValue text : Bytes} {n : Nat} (save : Option Nat) (i : Nat)
    (cursor : Cursor) (holds : strAt redisValue cursor.begin_ = .ok text)
    (found : find key text = some n) :
    delimStep redisValue save i cursor =
      .ok ⟨cursor.begin_ + n + key.length, some (cursor.begin_ + n),
        if save = some i then some (cursor.begin_ + n + key.length) else cursor.first⟩ := by
  simp [delimStep, strstr_of_strAt key holds, found]

theorem delimStep_field {redisValue : Bytes} {field after : Bytes} (save : Option Nat) (i : Nat)
    (cursor : Cursor) (clean : Clean field)
    (holds : strAt redisValue cursor.begin_ = .ok (field ++ (key ++ after))) :
    delimStep redisValue save i cursor =
      .ok ⟨cursor.begin_ + field.length + key.length, some (cursor.begin_ + field.length),
        if save = some i then some (cursor.begin_ + field.length + key.length)
        else cursor.first⟩ :=
  delimStep_find save i cursor holds (find_key_field clean after)

theorem strAt_after_field {redisValue : Bytes} {pointer : Nat} (field : Bytes) {after : Bytes}
    (holds : strAt redisValue pointer = .ok (field ++ (key ++ after))) :
    strAt redisValue (pointer + field.length + key.length) = .ok after := by
  have moved := strAt_add (field.length + key.length) holds (by simp)
  rw [Nat.add_assoc, moved, ← List.drop_drop, List.drop_left, List.drop_left]

/-- The fields of a record with a `"||"` behind each of them. -/
def terminated : List Bytes → Bytes
  | [] => []
  | field :: rest => field ++ (key ++ terminated rest)

/-- Passes that save nothing walk over as many fields. -/
theorem delimLoop_skip (redisValue : Bytes) (fields : List Bytes) (after : Bytes) (i : Nat)
    (cursor : Cursor) (clean : ∀ field ∈ fields, Clean field)
    (holds : strAt redisValue cursor.begin_ = .ok (terminated fields ++ after)) :
    ∃ next : Cursor, delimLoop redisValue none fields.length i cursor = .ok next ∧
      next.begin_ = cursor.begin_ + (terminated fields).length ∧
      strAt redisValue next.begin_ = .ok after := by
  induction fields generalizing i cursor with
  | nil => exact ⟨cursor, rfl, rfl, holds⟩
  | cons field rest inductionHypothesis =>
      have restClean : ∀ other ∈ rest, Clean other := fun other member => clean other (by simp [member])
      have here : strAt redisValue cursor.begin_ =
          .ok (field ++ (key ++ (terminated rest ++ after))) := by
        rw [holds, terminated]
        simp only [List.append_assoc]
      have step := delimStep_field none i cursor (clean field (by simp)) here
      obtain ⟨next, looped, position, found⟩ := inductionHypothesis (i + 1)
        ⟨cursor.begin_ + field.length + key.length, some (cursor.begin_ + field.length),
          cursor.first⟩ restClean (strAt_after_field _ here)
      refine ⟨next, ?_, ?_, found⟩
      · simpa [delimLoop, step] using looped
      · rw [position, terminated]
        simp only [List.length_append]
        omega

/-- A loop that saves in its last pass but one ends with `first` behind the
skipped fields and `end` on the delimiter that follows. -/
theorem delimLoop_seek {redisValue : Bytes} (skipped : List Bytes) (previous : Bytes)
    {text : Bytes} {n : Nat} (i : Nat) (cursor : Cursor)
    (clean : ∀ other ∈ previous :: skipped, Clean other) (found : find key text = some n)
    (holds : strAt redisValue cursor.begin_ =
      .ok (terminated skipped ++ (previous ++ (key ++ text)))) :
    ∃ first next, delimLoop redisValue (some (i + skipped.length)) (skipped.length + 2) i cursor =
        .ok ⟨next, some (first + n), some first⟩ ∧ strAt redisValue first = .ok text := by
  induction skipped generalizing i cursor with
  | nil =>
      have here : strAt redisValue cursor.begin_ = .ok (previous ++ (key ++ text)) := holds
      have there := strAt_after_field _ here
      have saved := delimStep_field (some i) i cursor (clean previous (by simp)) here
      rw [if_pos rfl] at saved
      have passed := delimStep_find (some i) (i + 1)
        (⟨cursor.begin_ + previous.length + key.length,
          some (cursor.begin_ + previous.length),
          some (cursor.begin_ + previous.length + key.length)⟩) there found
      rw [if_neg (by simp)] at passed
      refine ⟨cursor.begin_ + previous.length + key.length,
        cursor.begin_ + previous.length + key.length + n + key.length, ?_, there⟩
      simp only [List.length_nil, Nat.add_zero, delimLoop, saved, ok_bind, passed]
  | cons head rest inductionHypothesis =>
      have here : strAt redisValue cursor.begin_ = .ok (head ++ (key ++
          (terminated rest ++ (previous ++ (key ++ text))))) := by
        rw [holds, terminated]
        simp only [List.append_assoc]
      have step := delimStep_field (some (i + (head :: rest).length)) i cursor (clean head (by simp)) here
      rw [if_neg (by simp)] at step
      obtain ⟨first, next, looped, behind⟩ := inductionHypothesis (i + 1)
        ⟨cursor.begin_ + head.length + key.length, some (cursor.begin_ + head.length),
          cursor.first⟩
        (fun other member => clean other (by
          simp only [List.mem_cons] at member ⊢
          tauto))
        (strAt_after_field _ here)
      refine ⟨first, next, ?_, behind⟩
      rw [List.length_cons, show rest.length + 1 + 2 = (rest.length + 2) + 1 by omega, delimLoop]
      rw [List.length_cons] at step
      rw [step, ok_bind, show i + (rest.length + 1) = i + 1 + rest.length by omega]
      exact looped

theorem copyOut_eq_store {redisValue : Bytes} {from_ : Nat} {text : Bytes} {n : Nat} {maxLen : Int}
    (holds : strAt redisValue from_ = .ok text) (inside : n ≤ text.length) (bounded : n ≤ maxLen)
    (value : Bytes) :
    copyOut redisValue from_ (from_ + n) value maxLen = store value 0 (text.take n) := by
  have difference : ((from_ + n : Nat) : Int) - from_ = n := by omega
  simp only [copyOut, difference, if_neg (not_lt.mpr bounded),
    strncpy_of_le value 0 n holds inside]

theorem copyOut_take {redisValue : Bytes} {from_ cap : Nat} {text : Bytes} {n : Nat}
    {maxLen : Int} (holds : strAt redisValue from_ = .ok text) (inside : n ≤ text.length)
    (bounded : n ≤ maxLen) (fits : n ≤ cap) :
    copyOut redisValue from_ (from_ + n) (zeros cap) maxLen = .ok (padTo cap (text.take n)) := by
  rw [copyOut_eq_store holds inside bounded]
  exact store_zeros cap (text.take n) (by rw [List.length_take]; omega)

theorem copyOut_field {redisValue : Bytes} {from_ cap : Nat} {field rest : Bytes} {maxLen : Int}
    (holds : strAt redisValue from_ = .ok (field ++ rest)) (bounded : field.length ≤ maxLen)
    (fits : field.length ≤ cap) :
    copyOut redisValue from_ (from_ + field.length) (zeros cap) maxLen =
      .ok (padTo cap field) := by
  have copied := copyOut_take holds (by simp) bounded fits
  rwa [List.take_left] at copied

/-- The copied text runs from behind the skipped fields to the next
delimiter. -/
theorem copyField_found (redisValue : Bytes) (pointer : Nat) {cap : Nat} {maxLen : Int}
    (skipped : List Bytes) (previous : Bytes) {text : Bytes} {n : Nat}
    (clean : ∀ other ∈ previous :: skipped, Clean other) (found : find key text = some n)
    (holds : strAt redisValue pointer = .ok (terminated skipped ++ (previous ++ (key ++ text))))
    (bounded : n ≤ maxLen) (fits : n ≤ cap) :
    copyField redisValue pointer (skipped.length + 2) skipped.length (zeros cap) maxLen =
      .ok (padTo cap (text.take n)) := by
  obtain ⟨first, next, looped, behind⟩ := delimLoop_seek skipped previous 0
    ⟨pointer, none, none⟩ clean found holds
  have inside : n ≤ text.length := ((find_eq_some_iff _ _ _).mp found).1
  rw [Nat.zero_add] at looped
  simp [copyField, looped, copyOut_take behind inside bounded fits]

theorem copyField_record (redisValue : Bytes) (pointer : Nat) {cap : Nat} {maxLen : Int}
    (skipped : List Bytes) (previous field after : Bytes)
    (clean : ∀ other ∈ previous :: field :: skipped, Clean other)
    (holds : strAt redisValue pointer =
      .ok (terminated skipped ++ (previous ++ (key ++ (field ++ (key ++ after))))))
    (bounded : field.length ≤ maxLen) (fits : field.length ≤ cap) :
    copyField redisValue pointer (skipped.length + 2) skipped.length (zeros cap) maxLen =
      .ok (padTo cap field) := by
  have copied := copyField_found redisValue pointer skipped previous
    (fun other member => clean other (by
      simp only [List.mem_cons] at member ⊢
      tauto))
    (find_key_field (clean field (by simp)) after) holds bounded fits
  rwa [List.take_left] at copied

/-! ## The `"||||"` of an empty user -/

theorem key_prefix_keyError : key <+: keyError := by decide

theorem find_keyError_field {field : Bytes} (clean : Clean field) (after : Bytes) :
    find keyError (field ++ (key ++ after)) =
      (find keyError (key ++ after)).map (field.length + ·) := by
  refine find_append_skip keyError field (key ++ after) ?_
  intro offset inside occurs
  exact clean (prefix_drop_append_key inside (key_prefix_keyError.trans occurs))

theorem find_keyError_key {after : Bytes} (noKey : ¬ key <+: after) :
    find keyError (key ++ after) = (find keyError after).map (key.length + ·) := by
  refine find_append_skip keyError key after ?_
  intro offset inside occurs
  have two : offset = 0 ∨ offset = 1 := by
    have length := key_length
    omega
  have shape : keyError = key ++ key := by decide
  rcases two with rfl | rfl
  · rw [shape, List.drop_zero, List.prefix_append_right_inj] at occurs
    exact noKey occurs
  · have rest : (key ++ after).drop 1 = [124] ++ after := rfl
    have front : keyError = [124] ++ (key ++ [124]) := by decide
    rw [rest, front, List.prefix_append_right_inj] at occurs
    exact noKey ((List.prefix_append key [124]).trans occurs)

theorem not_key_prefix_field {field : Bytes} (clean : Clean field) (nonempty : field ≠ [])
    (after : Bytes) : ¬ key <+: field ++ (key ++ after) := by
  intro occurs
  have inside : 0 < field.length := List.length_pos_iff.mpr nonempty
  exact clean (prefix_drop_append_key inside (by simpa using occurs))

/-! ## Whole records -/

/-- The six values of a record. -/
structure FileInfo where
  fileId : Bytes
  url : Bytes
  filename : Bytes
  createTime : Bytes
  user : Bytes
  type : Bytes
  deriving DecidableEq, Repr

namespace FileInfo

def fields (info : FileInfo) : List Bytes :=
  [info.fileId, info.url, info.filename, info.createTime, info.user, info.type]

def record (info : FileInfo) : Bytes := joinFields info.fields

theorem infix_joinFields {field : Bytes} {fields : List Bytes} (member : field ∈ fields) :
    field <:+: joinFields fields := by
  induction fields with
  | nil => cases member
  | cons head rest inductionHypothesis =>
      cases rest with
      | nil =>
          rw [List.mem_singleton] at member
          subst member
          exact List.infix_rfl
      | cons next rest =>
          rcases List.mem_cons.mp member with rfl | later
          · exact (List.prefix_append _ _).isInfix
          · have inRest := inductionHypothesis later
            have suffix := List.suffix_append (head ++ key) (joinFields (next :: rest))
            rw [List.append_assoc] at suffix
            exact inRest.trans suffix.isInfix

/-- What the decoder needs of a record to give its fields back. -/
structure Decodable (info : FileInfo) : Prop where
  clean : ∀ field ∈ [info.fileId, info.url, info.filename, info.createTime, info.user],
    Clean field
  typeFree : ¬ key <:+: info.type
  urlNonempty : info.url ≠ []
  filenameNonempty : info.filename ≠ []
  createTimeNonempty : info.createTime ≠ []

theorem record_eq (info : FileInfo) :
    info.record = info.fileId ++ (key ++ (info.url ++ (key ++ (info.filename ++ (key ++
      (info.createTime ++ (key ++ (info.user ++ (key ++ info.type))))))))) := rfl

/-- Up to the end of `create time` no `"||||"` starts. -/
theorem find_keyError_record {info : FileInfo} (decodable : info.Decodable) :
    find keyError info.record =
      (find keyError (key ++ (info.user ++ (key ++ info.type)))).map
        ((terminated [info.fileId, info.url, info.filename]).length +
          info.createTime.length + ·) := by
  obtain ⟨clean, -, urlNonempty, filenameNonempty, createTimeNonempty⟩ := decodable
  rw [record_eq, find_keyError_field (clean info.fileId (by simp)),
    find_keyError_key (not_key_prefix_field (clean info.url (by simp)) urlNonempty _),
    find_keyError_field (clean info.url (by simp)),
    find_keyError_key (not_key_prefix_field (clean info.filename (by simp)) filenameNonempty _),
    find_keyError_field (clean info.filename (by simp)),
    find_keyError_key (not_key_prefix_field (clean info.createTime (by simp))
      createTimeNonempty _),
    find_keyError_field (clean info.createTime (by simp))]
  simp only [Option.map_map]
  congr 1
  funext offset
  simp only [Function.comp, terminated, List.length_append, List.length_nil]
  omega

theorem find_keyError_user {info : FileInfo} (decodable : info.Decodable)
    (userNonempty : info.user ≠ []) : find keyError info.record = none := by
  have userClean := decodable.clean info.user (by simp)
  have typeStart : ¬ key <+: info.type := fun occurs => decodable.typeFree occurs.isInfix
  have typeNone : find keyError info.type = none :=
    (find_eq_none_iff _ _).mpr fun occurs =>
      decodable.typeFree (key_prefix_keyError.isInfix.trans occurs)
  rw [find_keyError_record decodable,
    find_keyError_key (not_key_prefix_field userClean userNonempty _),
    find_keyError_field userClean, find_keyError_key typeStart, typeNone]
  rfl

theorem find_keyError_no_user {info : FileInfo} (decodable : info.Decodable)
    (userEmpty : info.user = []) :
    find keyError info.record =
      some ((terminated [info.fileId, info.url, info.filename]).length +
        info.createTime.length) := by
  have here : find keyError (key ++ ([] ++ (key ++ info.type))) = some 0 :=
    (find_eq_some_iff _ _ _).mpr ⟨Nat.zero_le _, ⟨info.type, by simp [keyError, key, lit]⟩,
      fun earlier before => absurd before (Nat.not_lt_zero _)⟩
  rw [find_keyError_record decodable, userEmpty, here]
  rfl

section Decode

variable {info : FileInfo} {redisValue : Bytes} {pointer cap : Nat} {maxLen : Int}

theorem getField_fileId (decodable : info.Decodable)
    (holds : strAt redisValue pointer = .ok info.record)
    (bounded : info.fileId.length ≤ maxLen) (fits : info.fileId.length ≤ cap) :
    getField redisValue pointer 1 (zeros cap) maxLen = .ok (padTo cap info.fileId) := by
  rw [record_eq] at holds
  simp [getField, strstr_of_strAt key holds, find_key_field (decodable.clean info.fileId (by simp)),
    copyOut_field holds bounded fits]

theorem getField_url (decodable : info.Decodable)
    (holds : strAt redisValue pointer = .ok info.record)
    (bounded : info.url.length ≤ maxLen) (fits : info.url.length ≤ cap) :
    getField redisValue pointer 2 (zeros cap) maxLen = .ok (padTo cap info.url) :=
  copyField_record _ _ [] info.fileId info.url _
    (fun other member => decodable.clean other (by simp at member ⊢; tauto)) holds bounded fits

theorem getField_filename (decodable : info.Decodable)
    (holds : strAt redisValue pointer = .ok info.record)
    (bounded : info.filename.length ≤ maxLen) (fits : info.filename.length ≤ cap) :
    getField redisValue pointer 3 (zeros cap) maxLen = .ok (padTo cap info.filename) := by
  refine copyField_record _ _ [info.fileId] info.url info.filename
    (info.createTime ++ (key ++ (info.user ++ (key ++ info.type))))
    (fun other member => decodable.clean other (by simp at member ⊢; tauto)) ?_ bounded fits
  rw [holds, record_eq]
  simp only [terminated, List.append_assoc, List.nil_append]

theorem strAt_fourth (decodable : info.Decodable)
    (holds : strAt redisValue pointer = .ok info.record) :
    ∃ next : Cursor, delimLoop redisValue none 3 0 ⟨pointer, none, none⟩ = .ok next ∧
      next.begin_ = pointer + (terminated [info.fileId, info.url, info.filename]).length ∧
      strAt redisValue next.begin_ =
        .ok (info.createTime ++ (key ++ (info.user ++ (key ++ info.type)))) := by
  refine delimLoop_skip _ [info.fileId, info.url, info.filename] _ 0 ⟨pointer, none, none⟩
    (fun other member => decodable.clean other (by simp at member ⊢; tauto)) ?_
  rw [holds, record_eq]
  simp only [terminated, List.append_assoc, List.nil_append]

theorem getField_createTime (decodable : info.Decodable)
    (holds : strAt redisValue pointer = .ok info.record)
    (bounded : info.createTime.length ≤ maxLen) (fits : info.createTime.length ≤ cap) :
    getField redisValue pointer 4 (zeros cap) maxLen = .ok (padTo cap info.createTime) := by
  by_cases userEmpty : info.user = []
  · obtain ⟨next, looped, position, found⟩ := strAt_fourth decodable holds
    have copied := copyOut_field found bounded fits
    rw [position, Nat.add_assoc] at copied
    simp [getField, strstr_of_strAt keyError holds, find_keyError_no_user decodable userEmpty,
      looped, position, copied]
  · have copied := copyField_record redisValue pointer
      [info.fileId, info.url] info.filename info.createTime (info.user ++ (key ++ info.type))
      (fun other member => decodable.clean other (by simp at member ⊢; tauto))
      (by rw [holds, record_eq]; simp only [terminated, List.append_assoc, List.nil_append])
      bounded fits
    simpa [getField, strstr_of_strAt keyError holds, find_keyError_user decodable userEmpty]
      using copied

theorem getField_user (decodable : info.Decodable)
    (holds : strAt redisValue pointer = .ok info.record)
    (bounded : info.user.length ≤ maxLen) (fits : info.user.length ≤ cap) (room : 10 ≤ cap) :
    getField redisValue pointer 5 (zeros cap) maxLen = .ok (padTo cap info.user) := by
  by_cases userEmpty : info.user = []
  · have cleared : memset (zeros cap) 0 0 10 = .ok (padTo cap info.user) := by
      rw [userEmpty, padTo_nil]
      exact memset_zeros (by decide) (by omega)
    simp [getField, strstr_of_strAt keyError holds, find_keyError_no_user decodable userEmpty,
      cleared]
  · have copied := copyField_record redisValue pointer
      [info.fileId, info.url, info.filename] info.createTime info.user info.type
      (fun other member => decodable.clean other (by simp at member ⊢; tauto))
      (by rw [holds, record_eq]; simp only [terminated, List.append_assoc, List.nil_append])
      bounded fits
    simpa [getField, strstr_of_strAt keyError holds, find_keyError_user decodable userEmpty]
      using copied

theorem getField_type (decodable : info.Decodable)
    (holds : strAt redisValue pointer = .ok info.record) (isInt : IsInt maxLen)
    (bounded : info.type.length ≤ maxLen) (fits : info.type.length < cap) :
    getField redisValue pointer 6 (zeros cap) maxLen = .ok (padTo cap info.type) := by
  by_cases userEmpty : info.user = []
  · have behind : strAt redisValue (pointer +
        ((terminated [info.fileId, info.url, info.filename]).length + info.createTime.length) +
          keyError.length) = .ok info.type := by
      obtain ⟨next, -, position, found⟩ := strAt_fourth decodable holds
      rw [userEmpty] at found
      have skipped := strAt_after_field [] (strAt_after_field _ found)
      rw [position] at skipped
      have length : keyError.length = key.length + key.length := by decide
      rw [← skipped, length]
      congr 1
      simp only [List.length_nil]
      omega
    have ended : padTo cap (info.type ++ [0]) = padTo cap info.type := by
      have tail := zeros_eq_cons (show 0 < cap - info.type.length by omega)
      simp [padTo, tail, Nat.sub_add_eq]
    have stored := store_zeros cap (info.type ++ [0]) (by simpa using fits)
    simp [getField, strstr_of_strAt keyError holds, find_keyError_no_user decodable userEmpty,
      strcpy, behind, stored, ended]
  · obtain ⟨next, looped, -, found⟩ := delimLoop_skip redisValue
      [info.fileId, info.url, info.filename, info.createTime, info.user] info.type 0
      ⟨pointer, none, none⟩
      (fun other member => decodable.clean other (by simp at member ⊢; tauto))
      (by rw [holds, record_eq]; simp only [terminated, List.append_assoc, List.nil_append])
    have converted : (toSize maxLen : Int) = maxLen :=
      toSize_of_nonneg (by omega) (by have := isInt.2; omega)
    have copied := strncpy_of_le (zeros cap) 0 info.type.length found le_rfl
    rw [List.take_length, store_zeros _ _ fits.le] at copied
    have short : ¬ toSize maxLen < info.type.length := by omega
    have passes : delimLoop redisValue none 5 0 ⟨pointer, none, none⟩ = .ok next := looped
    simp [getField, strstr_of_strAt keyError holds, find_keyError_user decodable userEmpty,
      passes, strlen_of_strAt found, short, copied]

/-- Every field of a decodable record comes back exactly. -/
theorem getValueByRedis_decodable (decodable : info.Decodable)
    (holds : strAt redisValue pointer = .ok info.record) (k : Fin 6) (isInt : IsInt maxLen)
    (bounded : (info.fields.get k).length ≤ maxLen) (fits : (info.fields.get k).length < cap)
    (room : 10 ≤ cap) :
    getValueByRedis redisValue pointer (k + 1) (zeros cap) maxLen =
      .ok (0, padTo cap (info.fields.get k)) := by
  have written : getField redisValue pointer (k + 1) (zeros cap) maxLen =
      .ok (padTo cap (info.fields.get k)) := by
    fin_cases k
    · exact getField_fileId decodable holds bounded fits.le
    · exact getField_url decodable holds bounded fits.le
    · exact getField_filename decodable holds bounded fits.le
    · exact getField_createTime decodable holds bounded fits.le
    · exact getField_user decodable holds bounded fits.le room
    · exact getField_type decodable holds isInt bounded fits
  simp [getValueByRedis, written]

/-- Decoding undoes encoding.  The user and the type may be empty; with an
empty user the last three fields are read around the `"||||"`. -/
theorem getValueByRedis_record (info : FileInfo)
    (noKey : ∀ field ∈ info.fields, ¬ key <:+: field)
    (noEnd : ∀ field ∈ info.fields, field.getLast? ≠ some 124)
    (urlNonempty : info.url ≠ []) (filenameNonempty : info.filename ≠ [])
    (createTimeNonempty : info.createTime ≠ [])
    (redisValue : Bytes) (pointer cap : Nat) (maxLen : Int)
    (holds : strAt redisValue pointer = .ok info.record) (k : Fin 6) (isInt : IsInt maxLen)
    (bounded : (info.fields.get k).length ≤ maxLen) (fits : (info.fields.get k).length < cap)
    (room : 10 ≤ cap) :
    getValueByRedis redisValue pointer (k + 1) (zeros cap) maxLen =
      .ok (0, padTo cap (info.fields.get k)) := by
  have decodable : info.Decodable :=
    { clean := by
        intro field member
        have inFields : field ∈ info.fields := by
          simp only [fields, List.mem_cons, List.not_mem_nil, or_false] at member ⊢
          tauto
        exact (clean_iff field).mpr ⟨noKey field inFields, noEnd field inFields⟩
      typeFree := noKey info.type (by simp [fields])
      urlNonempty
      filenameNonempty
      createTimeNonempty }
  exact getValueByRedis_decodable decodable holds k isInt bounded fits room

theorem getValueByRedis_record_without_user :
    getValueByRedis (lit "g1/a.jpg||http://h/g1/a.jpg||a|b.jpg||2016-09-08||||jpg" ++ [0]) 0 5
      (zeros 128) 1023 = .ok (0, padTo 128 []) :=
  getValueByRedis_record
    ⟨lit "g1/a.jpg", lit "http://h/g1/a.jpg", lit "a|b.jpg", lit "2016-09-08", [], lit "jpg"⟩
    (by decide) (by decide) (by decide) (by decide) (by decide) _ 0 128 1023 rfl 4
    (by decide) (by decide) (by decide) (by decide)

end Decode

end FileInfo

end DistStore.Record

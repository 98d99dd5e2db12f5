import DistStore.Delimiters

/-!
# How much the decoder writes, and what it reports

`max_len` bounds the copies of `get_value_by_redis` but not its `memset` of ten
bytes nor its `strcpy`, and a `"||||"` that an empty field makes is taken for
the empty user wherever it stands.
-/

set_option autoImplicit false

namespace DistStore.Extraction

open CMemory ListSearch Record Delimiters

/-! ## Unusable input -/

/-- The delimiters a field needs. -/
def needed (wordNum : Int) : Nat :=
  if wordNum = 1 then 1 else if wordNum = 6 then 5 else wordNum.toNat

/-- There is no such field. -/
def Unusable (text : Bytes) (wordNum : Int) : Prop :=
  ¬ (1 ≤ wordNum ∧ wordNum ≤ 6) ∨ behind key (needed wordNum) text = none

/-- The decoder returns an error and leaves the destination as it was. -/
def Reported (redisValue : Bytes) (pointer : Nat) (wordNum : Int) (value : Bytes) (maxLen : Int) :
    Prop :=
  ∃ code, code ≠ 0 ∧ getValueByRedis redisValue pointer wordNum value maxLen = .ok (code, value)

section Unusable

variable {redisValue text : Bytes} {pointer : Nat} {wordNum maxLen : Int}

/-- A field out of range is taken for one that was extracted. -/
theorem getValueByRedis_out_of_range (redisValue : Bytes) (pointer : Nat) (value : Bytes)
    (maxLen : Int) (outOfRange : ¬ (1 ≤ wordNum ∧ wordNum ≤ 6)) :
    getValueByRedis redisValue pointer wordNum value maxLen = .ok (0, value) := by
  rw [getValueByRedis_eq, getField_default _ _ _ _ outOfRange]
  rfl

/-- A missing delimiter is dereferenced, unless a `"||||"` hides it. -/
theorem getValueByRedis_missing (holds : strAt redisValue pointer = .ok text) (isInt : IsInt maxLen)
    (notNegative : 0 ≤ maxLen) (value : Bytes) (inRange : 1 ≤ wordNum ∧ wordNum ≤ 6)
    (missing : behind key (needed wordNum) text = none) (visible : find keyError text = none) :
    getValueByRedis redisValue pointer wordNum value maxLen = .error .nullPointer := by
  have noPiece : ∀ n, behind key (n + 1) text = none → piece text n = none :=
    fun n => (piece_eq_none_iff text n).mpr
  rw [getValueByRedis_eq, getField_eq_decodeText wordNum value holds isInt notNegative]
  obtain ⟨lower, upper⟩ := inRange
  interval_cases wordNum
  · simp only [decodeText, noPiece 0 missing, textOf, error_bind]
  · simp only [decodeText, noPiece 1 missing, textOf, error_bind]
  · simp only [decodeText, noPiece 2 missing, textOf, error_bind]
  · simp only [decodeText, visible, noPiece 3 missing, textOf, error_bind]
  · simp only [decodeText, visible, noPiece 4 missing, textOf, error_bind]
  · have absent : behind key 5 text = none := missing
    simp only [decodeText, visible, absent, textOf, error_bind]

/-- No unusable input is reported: a field out of range passes for extracted,
and a missing delimiter is dereferenced unless a `"||||"` stands in for it. -/
theorem unusable_not_reported (holds : strAt redisValue pointer = .ok text)
    (unusable : Unusable text wordNum) (value : Bytes) (maxLen : Int) :
    ¬ Reported redisValue pointer wordNum value maxLen ∧
      (IsInt maxLen → 0 ≤ maxLen → find keyError text = none →
        getValueByRedis redisValue pointer wordNum value maxLen =
          if 1 ≤ wordNum ∧ wordNum ≤ 6 then .error .nullPointer else .ok (0, value)) := by
  constructor
  · rintro ⟨code, nonzero, returned⟩
    rw [getValueByRedis_eq] at returned
    obtain ⟨written, -, same⟩ := (bind_eq_ok_iff _ _ _).mp returned
    cases same
    exact nonzero rfl
  · intro isInt notNegative visible
    by_cases inRange : 1 ≤ wordNum ∧ wordNum ≤ 6
    · rw [if_pos inRange]
      exact getValueByRedis_missing holds isInt notNegative value inRange
        (unusable.resolve_left (not_not.mpr inRange)) visible
    · rw [if_neg inRange]
      exact getValueByRedis_out_of_range _ _ _ _ inRange

end Unusable

theorem unusable_not_reported_cut :
    ¬ Reported (lit "g1/a||h" ++ [0]) 0 2 (zeros 8) 7 ∧
      (IsInt 7 → 0 ≤ (7 : Int) → find keyError (lit "g1/a||h") = none →
        getValueByRedis (lit "g1/a||h" ++ [0]) 0 2 (zeros 8) 7 =
          if 1 ≤ (2 : Int) ∧ (2 : Int) ≤ 6 then .error .nullPointer else .ok (0, zeros 8)) :=
  unusable_not_reported (show strAt (lit "g1/a||h" ++ [0]) 0 = .ok (lit "g1/a||h") by decide)
    (Or.inr (by decide)) _ _

/-- Field 7 is not reported, and neither is the cut record. -/
theorem not_reported_seven :
    Unusable (lit "g1/a||h") 7 ∧ ¬ Reported (lit "g1/a||h" ++ [0]) 0 7 (zeros 8) 7 ∧
      Unusable (lit "g1/a||h") 2 ∧ ¬ Reported (lit "g1/a||h" ++ [0]) 0 2 (zeros 8) 7 := by
  have seven : getValueByRedis (lit "g1/a||h" ++ [0]) 0 7 (zeros 8) 7 = .ok (0, zeros 8) := by
    decide
  have two : getValueByRedis (lit "g1/a||h" ++ [0]) 0 2 (zeros 8) 7 = .error .nullPointer := by
    decide
  refine ⟨Or.inl (by decide), ?_, Or.inr (by decide), ?_⟩
  · rintro ⟨code, nonzero, returned⟩
    cases seven.symm.trans returned
    exact nonzero rfl
  · rintro ⟨code, -, returned⟩
    cases two.symm.trans returned

/-! ## Bytes written -/

/-- The decoder returns and leaves everything from `maxLen` on as it was,
however large the destination is. -/
def Bounded (redisValue : Bytes) (pointer : Nat) (wordNum maxLen : Int) : Prop :=
  ∀ value : Bytes, maxLen ≤ value.length →
    ∃ result, getValueByRedis redisValue pointer wordNum value maxLen = .ok (0, result) ∧
      result.drop maxLen.toNat = value.drop maxLen.toNat

/-- The first `"||||"` of joined fields without pipes: where it starts and what
follows it. -/
def firstEmpty : List Bytes → Option (Nat × Bytes)
  | [] => none
  | [_] => none
  | [_, _] => none
  | field :: next :: after :: rest =>
      if next = [] then some (field.length, joinFields (after :: rest))
      else (firstEmpty (next :: after :: rest)).map fun found =>
        (field.length + 2 + found.1, found.2)

section Joined

/-- Joined fields start with the delimiter where the first one is empty. -/
theorem key_prefix_joinFields_iff {field : Bytes} (pipeFree : 124 ∉ field) (rest : List Bytes) :
    key <+: joinFields (field :: rest) ↔ field = [] ∧ rest ≠ [] := by
  cases field with
  | nil =>
      cases rest with
      | nil => decide
      | cons next rest => exact iff_of_true (List.prefix_append _ _) ⟨rfl, nofun⟩
  | cons byte field =>
      refine iff_of_false ?_ nofun
      have different : byte ≠ 124 := fun same => pipeFree (by simp [same])
      cases rest with
      | nil => exact fun occurs => different (List.cons_prefix_cons.mp occurs).1.symm
      | cons next rest => exact fun occurs => different (List.cons_prefix_cons.mp occurs).1.symm

theorem find_keyError_cons {field next : Bytes} (pipeFree : 124 ∉ field) (nextFree : 124 ∉ next)
    (rest : List Bytes) :
    find keyError (joinFields (field :: next :: rest)) =
      if next = [] ∧ rest ≠ [] then some field.length
      else (find keyError (joinFields (next :: rest))).map (field.length + 2 + ·) := by
  have starts := key_prefix_joinFields_iff nextFree rest
  rw [joinFields, find_keyError_field (clean_of_pipeFree pipeFree)]
  by_cases empty : next = [] ∧ rest ≠ []
  · obtain ⟨more, shape⟩ := starts.mpr empty
    have here : find keyError (key ++ joinFields (next :: rest)) = some 0 := by
      have two : keyError = key ++ key := by decide
      have front : find keyError ([] ++ (keyError ++ more)) = some 0 :=
        find_append_key (by decide) more (by decide)
      rwa [List.nil_append, two, List.append_assoc, shape] at front
    rw [if_pos empty, here, Option.map_some, Nat.add_zero]
  · rw [if_neg empty, find_keyError_key fun occurs => empty (starts.mp occurs), Option.map_map]
    congr 1
    funext offset
    simp only [Function.comp, key_length]
    omega

theorem find_keyError_pipeFree {field : Bytes} (pipeFree : 124 ∉ field) :
    find keyError field = none :=
  (find_eq_none_iff _ _).mpr fun occurs => pipeFree (occurs.subset (by decide))

theorem find_keyError_joinFields {fields : List Bytes} (pipeFree : ∀ field ∈ fields, 124 ∉ field) :
    find keyError (joinFields fields) = (firstEmpty fields).map Prod.fst := by
  induction fields using firstEmpty.induct with
  | case1 => rfl
  | case2 field => exact find_keyError_pipeFree (pipeFree field (by simp))
  | case3 field next =>
      rw [find_keyError_cons (pipeFree field (by simp)) (pipeFree next (by simp)),
        if_neg fun both => both.2 rfl, joinFields, find_keyError_pipeFree (pipeFree next (by simp))]
      rfl
  | case4 field after rest =>
      rw [find_keyError_cons (pipeFree field (by simp)) (pipeFree [] (by simp)),
        if_pos ⟨rfl, List.cons_ne_nil _ _⟩, firstEmpty, if_pos rfl]
      rfl
  | case5 field next after rest nonempty inductionHypothesis =>
      have later := inductionHypothesis fun other member =>
        pipeFree other (List.mem_cons_of_mem _ member)
      rw [find_keyError_cons (pipeFree field (by simp)) (pipeFree next (by simp)),
        if_neg fun both => nonempty both.1, later, firstEmpty, if_neg nonempty, Option.map_map,
        Option.map_map]
      rfl

/-- Behind the first `"||||"` are the fields from the one after the empty one
on. -/
theorem drop_firstEmpty {fields : List Bytes} {p : Nat} {rest : Bytes}
    (found : firstEmpty fields = some (p, rest)) : (joinFields fields).drop (p + 4) = rest := by
  induction fields using firstEmpty.induct generalizing p with
  | case1 => cases found
  | case2 field => cases found
  | case3 field next => cases found
  | case4 field after rest =>
      rw [firstEmpty, if_pos rfl] at found
      cases found
      rw [joinFields, joinFields, ← List.drop_drop, List.drop_left]
      rfl
  | case5 field next after rest nonempty inductionHypothesis =>
      rw [firstEmpty, if_neg nonempty] at found
      obtain ⟨⟨inner, text⟩, innerFound, same⟩ := Option.map_eq_some_iff.mp found
      cases same
      unfold joinFields
      rw [show field.length + 2 + inner + 4 = field.length + (2 + (inner + 4)) by omega,
        ← List.drop_drop, List.drop_left, ← List.drop_drop]
      exact inductionHypothesis innerFound

end Joined

/-- Writing at the front of a destination keeps what lies from `maxLen` on. -/
def Keeps (maxLen : Int) (write : Bytes → C Bytes) : Prop :=
  ∀ value : Bytes, maxLen ≤ value.length →
    ∃ result, write value = .ok result ∧ result.drop maxLen.toNat = value.drop maxLen.toNat

section Writing

variable {maxLen : Int}

theorem keeps_store_iff (notNegative : 0 ≤ maxLen) (bytes : Bytes) :
    Keeps maxLen (fun value => store value 0 bytes) ↔ (bytes.length : Int) ≤ maxLen := by
  constructor
  · intro keeps
    obtain ⟨result, stored, -⟩ := keeps (zeros maxLen.toNat) (by simp [zeros])
    have fits := (store_eq_ok stored).1
    rw [zeros_length] at fits
    omega
  · intro short value room
    have fits : 0 + bytes.length ≤ value.length := by omega
    obtain ⟨result, stored⟩ := store_inside fits
    have kept := store_drop stored (maxLen.toNat - bytes.length)
    rw [show 0 + bytes.length + (maxLen.toNat - bytes.length) = maxLen.toNat by omega] at kept
    exact ⟨result, stored, kept⟩

theorem keeps_copyText (notNegative : 0 ≤ maxLen) (text : Bytes) :
    Keeps maxLen fun value => copyText value maxLen text := by
  apply (keeps_store_iff notNegative _).mpr
  rw [List.length_take]
  omega

theorem not_keeps_error (fault : Fault) : ¬ Keeps maxLen fun _ => .error fault := by
  intro keeps
  obtain ⟨result, stored, -⟩ := keeps (zeros maxLen.toNat) (by simp [zeros])
  cases stored

theorem bounded_iff_keeps {redisValue text : Bytes} {pointer : Nat} (wordNum : Int)
    (holds : strAt redisValue pointer = .ok text) (isInt : IsInt maxLen)
    (notNegative : 0 ≤ maxLen) :
    Bounded redisValue pointer wordNum maxLen ↔
      Keeps maxLen fun value => decodeText text wordNum value maxLen := by
  refine forall_congr' fun value => imp_congr_right fun _ => exists_congr fun result => ?_
  rw [getValueByRedis_eq, getField_eq_decodeText wordNum value holds isInt notNegative]
  refine and_congr_left fun _ => ?_
  show (decodeText text wordNum value maxLen >>= fun written => .ok (0, written)) = .ok (0, result) ↔
    decodeText text wordNum value maxLen = .ok result
  cases decodeText text wordNum value maxLen with
  | ok written => simp
  | error fault => simp

end Writing

/-- Where the bytes written stay below `maxLen`. -/
structure Contained (info : FileInfo) (wordNum maxLen : Int) : Prop where
  createTime : wordNum = 4 → info.url ≠ [] ∧ info.filename ≠ [] ∧ info.createTime ≠ []
  user : wordNum = 5 → (info.url ≠ [] ∧ info.filename ≠ [] ∧ info.createTime ≠ [] ∧
    info.user ≠ []) ∨ 10 ≤ maxLen
  type : wordNum = 6 → ∀ p rest, firstEmpty info.fields = some (p, rest) →
    (rest.length : Int) + 1 ≤ maxLen

section Exact

variable {info : FileInfo} {redisValue : Bytes} {pointer : Nat} {wordNum maxLen : Int}

theorem firstEmpty_fields (info : FileInfo) : firstEmpty info.fields =
    if info.url = [] then
      some (info.fileId.length,
        joinFields [info.filename, info.createTime, info.user, info.type])
    else if info.filename = [] then
      some (info.fileId.length + 2 + info.url.length,
        joinFields [info.createTime, info.user, info.type])
    else if info.createTime = [] then
      some (info.fileId.length + 2 + (info.url.length + 2 + info.filename.length),
        joinFields [info.user, info.type])
    else if info.user = [] then
      some (info.fileId.length + 2 + (info.url.length + 2 + (info.filename.length + 2 +
        info.createTime.length)), info.type)
    else none := by
  simp only [FileInfo.fields, firstEmpty]
  split_ifs <;> rfl

theorem firstEmpty_eq_none_iff (info : FileInfo) : firstEmpty info.fields = none ↔
    info.url ≠ [] ∧ info.filename ≠ [] ∧ info.createTime ≠ [] ∧ info.user ≠ [] := by
  rw [firstEmpty_fields]
  split_ifs <;> simp_all

theorem clean_fields (pipeFree : ∀ field ∈ info.fields, 124 ∉ field) :
    ∀ field ∈ info.fields, Clean field :=
  fun field member => clean_of_pipeFree (pipeFree field member)

/-- The create time is cut off from behind only where the fields before it are
not empty. -/
theorem keeps_createTime_iff (pipeFree : ∀ field ∈ info.fields, 124 ∉ field)
    (notNegative : 0 ≤ maxLen) :
    Keeps maxLen (fun value => decodeText info.record 4 value maxLen) ↔
      info.url ≠ [] ∧ info.filename ≠ [] ∧ info.createTime ≠ [] := by
  have found : find keyError info.record = (firstEmpty info.fields).map Prod.fst :=
    find_keyError_joinFields pipeFree
  have start : behind key 3 info.record =
      some (joinFields [info.createTime, info.user, info.type]) :=
    behind_joinFields (clean_fields pipeFree) (show 3 < 6 by decide)
  have third : piece info.record 3 = some info.createTime :=
    piece_joinFields (clean_fields pipeFree) rfl
  have before : info.record.length - (joinFields [info.createTime, info.user, info.type]).length =
      info.fileId.length + info.url.length + info.filename.length + 6 := by
    simp only [FileInfo.record, FileInfo.fields, joinFields, List.length_append, key_length]
    omega
  have early : ∀ p, p < info.fileId.length + info.url.length + info.filename.length + 6 →
      (find keyError info.record = some p →
        ¬ Keeps maxLen (fun value => decodeText info.record 4 value maxLen)) := by
    intro p less first
    simp only [decodeText, first, start, textOf, ok_bind, before, if_neg (not_le.mpr less)]
    exact not_keeps_error _
  rw [firstEmpty_fields] at found
  by_cases urlEmpty : info.url = []
  · rw [if_pos urlEmpty] at found
    exact iff_of_false (early _ (by omega) found) fun all => all.1 urlEmpty
  by_cases filenameEmpty : info.filename = []
  · rw [if_neg urlEmpty, if_pos filenameEmpty] at found
    exact iff_of_false (early _ (by omega) found) fun all => all.2.1 filenameEmpty
  by_cases createTimeEmpty : info.createTime = []
  · rw [if_neg urlEmpty, if_neg filenameEmpty, if_pos createTimeEmpty] at found
    exact iff_of_false (early _ (by omega) found) fun all => all.2.2 createTimeEmpty
  refine iff_of_true ?_ ⟨urlEmpty, filenameEmpty, createTimeEmpty⟩
  rw [if_neg urlEmpty, if_neg filenameEmpty, if_neg createTimeEmpty] at found
  by_cases userEmpty : info.user = []
  · rw [if_pos userEmpty, Option.map_some] at found
    have ordered : info.fileId.length + info.url.length + info.filename.length + 6 ≤
        info.fileId.length + 2 + (info.url.length + 2 + (info.filename.length + 2 +
          info.createTime.length)) := by omega
    simp only [decodeText, found, start, textOf, ok_bind, before, if_pos ordered]
    exact keeps_copyText notNegative _
  · rw [if_neg userEmpty, Option.map_none] at found
    simp only [decodeText, found, third, textOf, ok_bind]
    exact keeps_copyText notNegative _

theorem keeps_user_iff (pipeFree : ∀ field ∈ info.fields, 124 ∉ field) (notNegative : 0 ≤ maxLen) :
    Keeps maxLen (fun value => decodeText info.record 5 value maxLen) ↔
      (info.url ≠ [] ∧ info.filename ≠ [] ∧ info.createTime ≠ [] ∧ info.user ≠ []) ∨
        10 ≤ maxLen := by
  have found : find keyError info.record = (firstEmpty info.fields).map Prod.fst :=
    find_keyError_joinFields pipeFree
  rw [← firstEmpty_eq_none_iff]
  rcases empty : firstEmpty info.fields with _ | ⟨p, rest⟩
  · have fourth : piece info.record 4 = some info.user :=
      piece_joinFields (clean_fields pipeFree) rfl
    rw [empty, Option.map_none] at found
    simp only [decodeText, found, fourth, textOf, ok_bind]
    exact iff_of_true (keeps_copyText notNegative _) (Or.inl trivial)
  · rw [empty, Option.map_some] at found
    simp only [decodeText, found]
    exact (keeps_store_iff notNegative (List.replicate 10 0)).trans (by simp)

theorem keeps_type_iff (pipeFree : ∀ field ∈ info.fields, 124 ∉ field) (notNegative : 0 ≤ maxLen) :
    Keeps maxLen (fun value => decodeText info.record 6 value maxLen) ↔
      ∀ p rest, firstEmpty info.fields = some (p, rest) → (rest.length : Int) + 1 ≤ maxLen := by
  have found : find keyError info.record = (firstEmpty info.fields).map Prod.fst :=
    find_keyError_joinFields pipeFree
  rcases empty : firstEmpty info.fields with _ | ⟨p, rest⟩
  · have fifth : behind key 5 info.record = some info.type :=
      behind_joinFields (clean_fields pipeFree) (show 5 < 6 by decide)
    rw [empty, Option.map_none] at found
    simp only [decodeText, found, fifth, textOf, ok_bind]
    apply iff_of_true (keeps_copyText notNegative _)
    intro p rest same
    cases same
  · rw [empty, Option.map_some] at found
    have tail : info.record.drop (p + 4) = rest := drop_firstEmpty empty
    simp only [decodeText, found, tail]
    rw [keeps_store_iff notNegative, List.length_append, List.length_singleton, Nat.cast_add]
    constructor
    · rintro short _ _ ⟨⟩
      exact short
    · intro short
      exact short p rest rfl

theorem contained_of_le (small : wordNum ≤ 3) : Contained info wordNum maxLen where
  createTime four := absurd four (by omega)
  user five := absurd five (by omega)
  type six := absurd six (by omega)

theorem contained_createTime_iff : Contained info 4 maxLen ↔
    info.url ≠ [] ∧ info.filename ≠ [] ∧ info.createTime ≠ [] := by
  constructor
  · intro contained
    exact contained.createTime rfl
  · intro all
    exact ⟨fun _ => all, fun five => absurd five (by decide), fun six => absurd six (by decide)⟩

theorem contained_user_iff : Contained info 5 maxLen ↔
    (info.url ≠ [] ∧ info.filename ≠ [] ∧ info.createTime ≠ [] ∧ info.user ≠ []) ∨
      10 ≤ maxLen := by
  constructor
  · intro contained
    exact contained.user rfl
  · intro all
    exact ⟨fun four => absurd four (by decide), fun _ => all, fun six => absurd six (by decide)⟩

theorem contained_type_iff : Contained info 6 maxLen ↔
    ∀ p rest, firstEmpty info.fields = some (p, rest) → (rest.length : Int) + 1 ≤ maxLen := by
  constructor
  · intro contained
    exact contained.type rfl
  · intro all
    exact ⟨fun four => absurd four (by decide), fun five => absurd five (by decide), fun _ => all⟩

/-- The number of bytes written is in range exactly where the empty fields
allow it. -/
theorem bounded_iff (pipeFree : ∀ field ∈ info.fields, 124 ∉ field)
    (holds : strAt redisValue pointer = .ok info.record) (inRange : 1 ≤ wordNum ∧ wordNum ≤ 6)
    (isInt : IsInt maxLen) (notNegative : 0 ≤ maxLen) :
    Bounded redisValue pointer wordNum maxLen ↔ Contained info wordNum maxLen := by
  rw [bounded_iff_keeps wordNum holds isInt notNegative]
  have pieces : ∀ n field, piece info.record n = some field →
      Keeps maxLen fun value => textOf (piece info.record n) >>= copyText value maxLen := by
    intro n field cut
    simp only [cut, textOf, ok_bind]
    exact keeps_copyText notNegative field
  have clean := clean_fields pipeFree
  obtain ⟨lower, upper⟩ := inRange
  interval_cases wordNum
  · exact iff_of_true (pieces 0 info.fileId (piece_joinFields clean rfl))
      (contained_of_le (by decide))
  · exact iff_of_true (pieces 1 info.url (piece_joinFields clean rfl))
      (contained_of_le (by decide))
  · exact iff_of_true (pieces 2 info.filename (piece_joinFields clean rfl))
      (contained_of_le (by decide))
  · rw [contained_createTime_iff]
    exact keeps_createTime_iff pipeFree notNegative
  · rw [contained_user_iff]
    exact keeps_user_iff pipeFree notNegative
  · rw [contained_type_iff]
    exact keeps_type_iff pipeFree notNegative

end Exact

/-- The record of a file whose url `get_url` could not find. -/
def noUrl : FileInfo :=
  ⟨lit "g1/a", [], lit "a.jpg", lit "2016-09-08", lit "user", lit "jpg"⟩

theorem bounded_iff_no_url :
    Bounded (noUrl.record ++ [0]) 0 5 127 ↔ Contained noUrl 5 127 :=
  bounded_iff (by decide) (show strAt (noUrl.record ++ [0]) 0 = .ok noUrl.record by decide)
    (by decide) (by decide) (by decide)

/-- With an empty url the create time would have a negative length. -/
theorem not_bounded_no_url :
    strAt (noUrl.record ++ [0]) 0 = .ok noUrl.record ∧ (∀ field ∈ noUrl.fields, 124 ∉ field) ∧
      ¬ Bounded (noUrl.record ++ [0]) 0 4 63 := by
  refine ⟨by decide, by decide, ?_⟩
  intro bounded
  obtain ⟨result, returned, -⟩ := bounded (zeros 63) (by decide)
  have faults : getValueByRedis (noUrl.record ++ [0]) 0 4 (zeros 63) 63 =
      .error .negativeSize := by
    decide
  cases faults.symm.trans returned

end DistStore.Extraction

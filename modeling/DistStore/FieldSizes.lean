import DistStore.DataUse
import DistStore.Delimiters

/-!
# The fields of a record in the reader's buffers

`read_redis_to_json` passes the size of a row as `max_len` whatever the size of
the buffer is.  What is extracted fits when the pieces of the record between
its delimiters do, which is a matter of where the values have pipes.
-/

set_option autoImplicit false

namespace DistStore.FieldSizes

open CMemory ListSearch Environment RedisOp Record WriteRedis Trim DataUse Delimiters

/-- The fields `read_redis_to_json` extracts and the sizes of their buffers. -/
def destinations : List (Int × Nat) := [(1, 256), (3, 256), (5, 128), (4, 64), (2, 256)]

/-- The field is extracted into its buffer and ended there. -/
def FieldFits (values : Bytes) (i : Nat) (wordNum : Int) (size : Nat) : Prop :=
  ∀ buffer : Bytes, buffer.length = size →
    ∃ value text, readField values i wordNum buffer size = .ok value ∧ strAt value 0 = .ok text

def AllFit (values : Bytes) (i : Nat) : Prop :=
  ∀ destination ∈ destinations, FieldFits values i destination.1 destination.2

/-- The pieces of a record are no longer than the buffers they are extracted
into.  With a `"||||"` the create time ends there. -/
structure Cuttable (text : Bytes) : Prop where
  url : ∀ field, piece text 1 = some field → field.length < 256
  filename : ∀ field, piece text 2 = some field → field.length < 256
  createTime : find keyError text = none → ∀ field, piece text 3 = some field → field.length < 64
  user : find keyError text = none → ∀ field, piece text 4 = some field → field.length < 128
  emptyUser : ∀ p rest, find keyError text = some p → behind key 3 text = some rest →
    text.length - rest.length ≤ p ∧ p < text.length - rest.length + 64

section Fields

variable {values text : Bytes} {i : Nat} {wordNum : Int} {size : Nat}

theorem fieldFits_iff (holds : strAt values (i * valuesIdSize) = .ok text) (wordNum : Int)
    (size : Nat) : FieldFits values i wordNum size ↔ ∃ value field,
      decodeText text wordNum (zeros size) (valuesIdSize - 1) = .ok value ∧
        strAt value 0 = .ok field := by
  have reads : ∀ buffer : Bytes, buffer.length = size → readField values i wordNum buffer size =
      decodeText text wordNum (zeros size) (valuesIdSize - 1) := by
    intro buffer length
    have cleared : memset buffer 0 0 size = .ok (zeros size) := memset_whole buffer 0 length
    unfold readField
    rw [cleared, ok_bind, getValueByRedis_eq,
      getField_eq_decodeText wordNum _ holds (by decide) (by decide)]
    cases decodeText text wordNum (zeros size) (valuesIdSize - 1) <;> rfl
  constructor
  · intro fits
    have length : (zeros size).length = size := zeros_length _
    rw [← reads (zeros size) length]
    exact fits (zeros size) length
  · intro fits buffer length
    rwa [reads buffer length]

/-- A text fits a cleared buffer with its NUL when it is shorter. -/
theorem copyText_fits_iff {field : Bytes} (nulFree : 0 ∉ field) (small : size ≤ 256) :
    (∃ value text, copyText (zeros size) (valuesIdSize - 1) field = .ok value ∧
      strAt value 0 = .ok text) ↔ field.length < size := by
  have cap : ((valuesIdSize : Int) - 1).toNat = 1023 := by decide
  unfold copyText
  rw [cap]
  constructor
  · rintro ⟨value, text, stored, ends⟩
    by_contra long
    -- the copy fills the buffer to its end
    have length : (field.take 1023).length ≤ size := by
      have fits := (store_eq_ok stored).1
      rw [zeros_length] at fits
      omega
    rw [List.length_take] at length
    rw [store_zeros size _ (by rw [List.length_take]; omega), List.take_of_length_le (by omega),
      padTo, show size - field.length = 0 by omega] at stored
    cases stored
    obtain ⟨-, rest, shape⟩ := (strAt_eq_ok_iff _ _ _).mp ends
    apply nulFree
    rw [List.drop_zero] at shape
    have member : (0 : Byte) ∈ field ++ zeros 0 := shape ▸ by simp
    simpa [zeros] using member
  · intro short
    rw [List.take_of_length_le (by omega), store_zeros size field (by omega)]
    exact ⟨_, field, rfl, strAt_padTo nulFree short⟩

section Record

variable (holds : strAt values (i * valuesIdSize) = .ok text)
variable (enough : (behind key 5 text).isSome)

include enough in
theorem piece_isSome {n : Nat} (inside : n < 5) : ∃ field, piece text n = some field := by
  rcases cut : piece text n with _ | field
  · rw [behind_eq_none_of_le ((piece_eq_none_iff text n).mp cut) inside] at enough
    cases enough
  · exact ⟨field, rfl⟩

include holds enough in
theorem piece_fits_iff {n : Nat} (inside : n < 5) (small : size ≤ 256) :
    (∃ value field, (textOf (piece text n) >>= copyText (zeros size) (valuesIdSize - 1)) = .ok value ∧
      strAt value 0 = .ok field) ↔ ∀ field, piece text n = some field → field.length < size := by
  obtain ⟨field, cut⟩ := piece_isSome enough inside
  have nulFree : 0 ∉ field := fun member => strAt_nulFree holds (piece_subset cut member)
  rw [cut, textOf, ok_bind, copyText_fits_iff nulFree small]
  constructor
  · rintro short _ ⟨⟩
    exact short
  · intro short
    exact short field rfl

include holds enough in
/-- With a `"||||"` the create time runs from the third delimiter to it. -/
theorem createTime_fits_iff : FieldFits values i 4 64 ↔
    (find keyError text = none → ∀ field, piece text 3 = some field → field.length < 64) ∧
      ∀ p rest, find keyError text = some p → behind key 3 text = some rest →
        text.length - rest.length ≤ p ∧ p < text.length - rest.length + 64 := by
  rw [fieldFits_iff holds, decodeText]
  rcases found : find keyError text with _ | p
  · simp only []
    rw [piece_fits_iff holds enough (by decide) (by decide)]
    constructor
    · intro short
      refine ⟨fun _ => short, ?_⟩
      intro p rest same
      cases same
    · intro both
      exact both.1 trivial
  · rcases start : behind key 3 text with _ | rest
    · rw [behind_eq_none_of_le start (by decide)] at enough
      cases enough
    · obtain ⟨fields, -, -, split⟩ := (behind_eq_some_iff _ _ _).mp start
      have shorter := congrArg List.length split
      rw [List.length_append] at shorter
      have fits := find_fits found
      have restFree : ∀ n, 0 ∉ rest.take n := fun n member =>
        strAt_nulFree holds (split ▸ List.mem_append_right _ (List.mem_of_mem_take member))
      simp only [textOf, ok_bind]
      by_cases ordered : text.length - rest.length ≤ p
      · simp only [if_pos ordered]
        rw [copyText_fits_iff (restFree _) (by decide), List.length_take]
        constructor
        · intro short
          constructor
          · intro same
            cases same
          · rintro _ _ ⟨⟩ ⟨⟩
            omega
        · rintro ⟨-, short⟩
          have bounds := short p rest rfl rfl
          omega
      · simp only [if_neg ordered]
        refine iff_of_false ?_ fun both => ordered (both.2 p rest rfl rfl).1
        rintro ⟨value, field, faults, -⟩
        cases faults

include holds enough in
theorem user_fits_iff : FieldFits values i 5 128 ↔
    (find keyError text = none → ∀ field, piece text 4 = some field → field.length < 128) := by
  rw [fieldFits_iff holds, decodeText]
  rcases found : find keyError text with _ | p
  · simp only []
    rw [piece_fits_iff holds enough (by decide) (by decide)]
    exact ⟨fun short _ => short, fun short => short trivial⟩
  · refine iff_of_true ⟨zeros 128, [], memset_zeros (by decide) (by decide), by decide⟩ ?_
    intro same
    cases same

include holds enough in
/-- All fields fit exactly when the pieces of the record do. -/
theorem allFit_iff (front : ∀ field, piece text 0 = some field → field.length < 256) :
    AllFit values i ↔ Cuttable text := by
  have url := (fieldFits_iff holds 2 256).trans (piece_fits_iff holds enough (n := 1) (by decide) le_rfl)
  have filename :=
    (fieldFits_iff holds 3 256).trans (piece_fits_iff holds enough (n := 2) (by decide) le_rfl)
  have fileId :=
    (fieldFits_iff holds 1 256).trans (piece_fits_iff holds enough (n := 0) (by decide) le_rfl)
  simp only [AllFit, destinations, List.forall_mem_cons, List.not_mem_nil, false_implies,
    implies_true, and_true]
  rw [url, filename, fileId, createTime_fits_iff holds enough, user_fits_iff holds enough]
  constructor
  · rintro ⟨-, filename, user, ⟨createTime, emptyUser⟩, url⟩
    exact ⟨url, filename, createTime, user, emptyUser⟩
  · rintro ⟨url, filename, createTime, user, emptyUser⟩
    exact ⟨front, filename, user, ⟨createTime, emptyUser⟩, url⟩

end Record

end Fields

/-! ## Records of `write_redis` -/

section Writer

variable {fileIdAt urlAt filenameAt usrAt fileId url filename usr record values : Bytes} {i : Nat}

/-- The text pushed is the joined values. -/
theorem recordAt_eq_ok {now : CText timeStringLen} (fileIdHolds : strAt fileIdAt 0 = .ok fileId)
    (urlHolds : strAt urlAt 0 = .ok url) (filenameHolds : strAt filenameAt 0 = .ok filename)
    (usrHolds : strAt usrAt 0 = .ok usr)
    (pushed : recordAt now.val fileIdAt urlAt filenameAt usrAt = .ok record) :
    record = (uploadInfo fileId url filename (trimText now.val) usr).record := by
  obtain ⟨createTimeAt, formatted, createTimeHolds⟩ := formatTime_eq 0 now
  rw [recordAt, formatted, ok_bind,
    buildRecord_eq fileIdHolds urlHolds filenameHolds createTimeHolds usrHolds] at pushed
  split at pushed
  · rename_i fits
    rw [ok_bind, strAt_padTo (uploadInfo_nulFree (strAt_nulFree fileIdHolds) (strAt_nulFree urlHolds)
      (strAt_nulFree filenameHolds) (strAt_nulFree createTimeHolds) (strAt_nulFree usrHolds))
      fits.2] at pushed
    exact (Except.ok.inj pushed).symm
  · cases pushed

/-- A record has the five delimiters it was joined with. -/
theorem behind_record_isSome (info : FileInfo) : (behind key 5 info.record).isSome := by
  rw [FileInfo.record_eq]
  have none_ : (behind key 0 info.type).isSome := rfl
  exact behind_succ_isSome key _ (behind_succ_isSome key _ (behind_succ_isSome key _
    (behind_succ_isSome key _ (behind_succ_isSome key _ none_))))

/-- What `write_redis` stores is read into buffers that hold it exactly when
the pieces of the stored record fit them. -/
theorem fields_fit_iff (now : CText timeStringLen) (fileIdHolds : strAt fileIdAt 0 = .ok fileId)
    (urlHolds : strAt urlAt 0 = .ok url) (filenameHolds : strAt filenameAt 0 = .ok filename)
    (usrHolds : strAt usrAt 0 = .ok usr) (short : fileId.length ≤ 255)
    (pushed : recordAt now.val fileIdAt urlAt filenameAt usrAt = .ok record)
    (row : strAt values (i * valuesIdSize) = .ok record) :
    AllFit values i ↔ Cuttable (uploadInfo fileId url filename (trimText now.val) usr).record := by
  cases recordAt_eq_ok fileIdHolds urlHolds filenameHolds usrHolds pushed
  apply allFit_iff row (behind_record_isSome _)
  intro field cut
  obtain ⟨offset, found, rfl⟩ := Option.map_eq_some_iff.mp cut
  obtain ⟨earlier, le, occurs⟩ := find_le_of_append_key key fileId
    (url ++ (key ++ (filename ++ (key ++ (trimText now.val ++ (key ++ (usr ++ (key ++
      suffixText filename))))))))
  have same : offset = earlier := Option.some.inj (found.symm.trans occurs)
  rw [List.length_take]
  omega

end Writer

theorem clock_isText : 0 ∉ lit "2016-09-08 10-00:00" ∧
    (lit "2016-09-08 10-00:00").length ≤ timeStringLen - 1 := by decide

def clock : CText timeStringLen := ⟨lit "2016-09-08 10-00:00", clock_isText⟩

def plainRecord : Bytes :=
  lit "g1/a||http://h/g1/a||a.jpg||2016-09-08 10-00:00||user||jpg"

theorem fields_fit_iff_plain : AllFit (plainRecord ++ [0]) 0 ↔
    Cuttable (uploadInfo (lit "g1/a") (lit "http://h/g1/a") (lit "a.jpg") (trimText clock.val)
      (lit "user")).record :=
  fields_fit_iff clock
    (show strAt (lit "g1/a" ++ [0]) 0 = .ok (lit "g1/a") by decide)
    (show strAt (lit "http://h/g1/a" ++ [0]) 0 = .ok (lit "http://h/g1/a") by decide)
    (show strAt (lit "a.jpg" ++ [0]) 0 = .ok (lit "a.jpg") by decide)
    (show strAt (lit "user" ++ [0]) 0 = .ok (lit "user") by decide) (by decide)
    (show recordAt clock.val (lit "g1/a" ++ [0]) (lit "http://h/g1/a" ++ [0]) (lit "a.jpg" ++ [0])
      (lit "user" ++ [0]) = .ok plainRecord by decide +kernel)
    (show strAt (plainRecord ++ [0]) (0 * valuesIdSize) = .ok plainRecord by decide)

/-- A name of 73 bytes whose end is taken for the create time. -/
def pipedName : Bytes := lit "a||" ++ List.replicate 70 120

def pipedRecord : Bytes :=
  lit "g1/a||http://h/g1/a||" ++ pipedName ++ lit "||2016-09-08 10-00:00||user||null"

theorem not_allFit_piped :
    recordAt clock.val (lit "g1/a" ++ [0]) (lit "http://h/g1/a" ++ [0]) (pipedName ++ [0])
        (lit "user" ++ [0]) = .ok pipedRecord ∧
      strAt (pipedRecord ++ [0]) (0 * valuesIdSize) = .ok pipedRecord ∧
      ¬ AllFit (pipedRecord ++ [0]) 0 := by
  refine ⟨by decide +kernel, by decide +kernel, fun fits => ?_⟩
  obtain ⟨value, text, read, -⟩ := fits (4, 64) (by decide) (zeros 64) (zeros_length _)
  have overflows : readField (pipedRecord ++ [0]) 0 4 (zeros 64) 64 = .error .writeOutside := by
    decide +kernel
  cases overflows.symm.trans read

end DistStore.FieldSizes

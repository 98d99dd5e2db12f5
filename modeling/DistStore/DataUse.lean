import DistStore.RedisStore
import DistStore.WriteRedis

/-!
# `read_redis_to_json` and `increase_file_pv`

`read_redis_to_json` reads one page of `FILE_INFO_LIST` into rows of
`VALUES_ID_SIZE` bytes and makes an item of each row.  Its buffers are declared
once and used for every row; the name of the suffix, the name of the picture
and the address keep what the row before has left in them.
-/

set_option autoImplicit false

namespace DistStore.DataUse

open CMemory ListSearch Program Environment RedisOp RedisStore Record WriteRedis

def picUrlLen : Nat := 256

def picNameLen : Nat := 10

/-- An element of the array `games`. -/
structure Item where
  id : Bytes
  kind : Int
  titleM : Bytes
  titleS : Bytes
  descrip : Bytes
  url : Bytes
  picurlM : Bytes
  pv : Int
  hot : Int
  deriving DecidableEq, Repr

/-- The buffers of `read_redis_to_json`. -/
structure ItemBufs where
  filename : Bytes
  fileId : Bytes
  createTime : Bytes
  suffix : Bytes
  url : Bytes
  usr : Bytes
  picurl : Bytes
  picName : Bytes
  getIpBuf : Bytes

def ItemBufs.cleared : ItemBufs where
  filename := zeros 256
  fileId := zeros 256
  createTime := zeros 64
  suffix := zeros suffixLen
  url := zeros 256
  usr := zeros 128
  picurl := zeros picUrlLen
  picName := zeros picNameLen
  getIpBuf := zeros picUrlLen

/-- `get_ip_url`: the returned code and the buffer. -/
def getIpUrl (sUrl sGetIpBuf : Bytes) : C (Int × Bytes) := do
  match ← strstr sUrl 0 (lit "/group") with
  | some end_ =>
      let copied ← strncpy sGetIpBuf 0 sUrl 0 end_
      let ended ← store copied end_ [0]
      return (0, ended)
  | none =>
      let named ← strncpy sGetIpBuf 0 (lit "null" ++ [0]) 0 5
      return (0, named)

/-- `sprintf(pic_name, "%s.png", suffix)`. -/
def printPicName (picName suffix : Bytes) : C Bytes := do
  let text ← strAt suffix 0
  store picName 0 (text ++ lit ".png" ++ [0])

/-- The buffers with the url of the picture put together. -/
def buildPicurl (bufs : ItemBufs) : C ItemBufs := do
  let cleared ← memset bufs.picurl 0 0 picUrlLen
  let (_, getIpBuf) ← getIpUrl bufs.url bufs.getIpBuf
  let withIp ← strcat cleared getIpBuf 0
  let withPath ← strcat withIp (lit "/static/file_png/" ++ [0]) 0
  let (_, suffix) ← getFileSuffix bufs.filename bufs.suffix
  let picName ← printPicName bufs.picName suffix
  let picurl ← strcat withPath picName 0
  return { bufs with picurl, getIpBuf, suffix, picName }

/-- Field `wordNum` of row `i` in a buffer cleared over `size` bytes. -/
def readField (values : Bytes) (i : Nat) (wordNum : Int) (buffer : Bytes) (size : Int) :
    C Bytes := do
  let cleared ← memset buffer 0 0 size
  let (_, value) ← getValueByRedis values (i * valuesIdSize) wordNum cleared (valuesIdSize - 1)
  return value

/-- The body of the loop over the rows. -/
def readItem (values : Bytes) (i : Nat) (bufs : ItemBufs) : Code (Item × ItemBufs) := do
  let fileId ← ofC (readField values i 1 bufs.fileId 256)
  let id ← ofC (strAt fileId 0)
  let filename ← ofC (readField values i 3 bufs.filename 256)
  let titleM ← ofC (strAt filename 0)
  let usr ← ofC (readField values i 5 bufs.usr 128)
  let titleS ← ofC (strAt usr 0)
  let createTime ← ofC (readField values i 4 bufs.createTime 64)
  let descrip ← ofC (strAt createTime 0)
  let url ← ofC (readField values i 2 bufs.url 256)
  let urlText ← ofC (strAt url 0)
  let next ← ofC (buildPicurl { bufs with fileId, filename, usr, createTime, url })
  let picurlM ← ofC (strAt next.picurl 0)
  let score ← ropZsetGetScore fileHotZset fileId
  let pv ← ofC (checkInt (score - 1))
  return (⟨id, 2, titleM, titleS, descrip, urlText, picurlM, pv, 0⟩, next)

/-- `count` more rows, from row `i` on. -/
def readItems (values : Option Bytes) : Nat → Nat → ItemBufs → Code (List Item)
  | 0, _, _ => return []
  | count + 1, i, bufs => do
      let memory ← ofC (present values)
      let (item, next) ← readItem memory i bufs
      let items ← readItems values count (i + 1) next
      return item :: items

/-- The part of `read_redis_to_json` up to the page: what `rop_range_list`
returns, the rows and their number. -/
def fetchValues (fromId cnt : Int) : Code (Int × Option Bytes × Int) := do
  let behind ← ofC (checkInt (fromId + cnt))
  let endId ← ofC (checkInt (behind - 1))
  let connected ← ropConnectdbNopwd .readRedisToJson
  if !connected then .stop (.exit 1)
  else
    let size ← ofC (checkInt (cnt * valuesIdSize))
    let block ← ask (.malloc .readRedisToJson (toSize size))
    ropRangeList fileInfoList fromId endId (block.map Subtype.val)

section Fetch

variable {env : Env} {fromId behind endId : Int} {cnt : Nat}

theorem fetchValues_outcome (connection : env (.redisConnect .readRedisToJson) = .ok)
    (first : checkInt (fromId + cnt) = .ok behind) (last : checkInt (behind - 1) = .ok endId) :
    (fetchValues fromId cnt).outcome env =
      (do
        let size ← ofC (checkInt (cnt * valuesIdSize : Nat))
        let block ← ask (.malloc .readRedisToJson (toSize size))
        ropRangeList fileInfoList fromId endId (block.map Subtype.val)).outcome env := by
  rw [fetchValues, first, ofC_ok, Prog.ret_bind, last, ofC_ok, Prog.ret_bind, Nat.cast_mul]
  exact Prog.outcome_bind_returned _ (ropConnectdbNopwd_outcome connection) _

/-- A page is read into the block for its rows. -/
theorem fetchValues_block (connection : env (.redisConnect .readRedisToJson) = .ok)
    (first : checkInt (fromId + cnt) = .ok behind) (last : checkInt (behind - 1) = .ok endId)
    (fits : cnt * valuesIdSize < 2 ^ 31) {block : Block (cnt * valuesIdSize)}
    (allocated : env (.malloc .readRedisToJson (cnt * valuesIdSize)) = some block) :
    (fetchValues fromId cnt).outcome env =
      (ropRangeList fileInfoList fromId endId (some block.val)).outcome env := by
  have size : IsInt (cnt * valuesIdSize : Nat) := ⟨by omega, by omega⟩
  have bytes : toSize (cnt * valuesIdSize : Nat) = cnt * valuesIdSize :=
    toSize_natCast (by omega)
  rw [fetchValues_outcome connection first last, checkInt_of_isInt size]
  refine (outcome_ask_bind _ _ _).trans ?_
  rw [bytes, allocated]
  rfl

/-- The size of the block is computed on `int`. -/
theorem fetchValues_overflow (connection : env (.redisConnect .readRedisToJson) = .ok)
    (first : checkInt (fromId + cnt) = .ok behind) (last : checkInt (behind - 1) = .ok endId)
    (large : ¬ cnt * valuesIdSize < 2 ^ 31) :
    (fetchValues fromId cnt).outcome env = .stopped (.fault .signedOverflow) := by
  have overflow : checkInt (cnt * valuesIdSize : Nat) = .error .signedOverflow :=
    if_neg fun isInt => large (by exact_mod_cast isInt.2)
  rw [fetchValues_outcome connection first last, overflow]
  rfl

end Fetch

/-- `read_redis_to_json`: the returned code and the array it prints.  Its
argument `cmd` is not used. -/
def readRedisToJson (fromId cnt : Int) : Code (Int × Option (List Item)) := do
  let (retn, values, valueNum) ← fetchValues fromId cnt
  if retn < 0 then
    ropDisconnect .readRedisToJson
    return (-1, none)
  else
    let items ← readItems values valueNum.toNat 0 .cleared
    ropDisconnect .readRedisToJson
    return (0, some items)

/-- `increase_file_pv`. -/
def increaseFilePv (fileId : Bytes) : Code Int := do
  let connected ← ropConnectdbNopwd .increaseFilePv
  if !connected then return -1
  else
    let _ ← ropZsetIncrement fileHotZset fileId
    ropDisconnect .increaseFilePv
    return 0

/-! ## The items of a page -/

/-- A file id that `read_redis_to_json` finds at the front of a record and that
fits its buffer. -/
structure Readable (fileId : Bytes) : Prop where
  clean : Clean fileId
  fits : fileId.length < 256

theorem readField_fileId {values fileId rest buffer value : Bytes} {i : Nat}
    (readable : Readable fileId) (nulFree : 0 ∉ fileId)
    (shape : values.drop (i * valuesIdSize) = fileId ++ (key ++ rest))
    (read : readField values i 1 buffer 256 = .ok value) : strAt value 0 = .ok fileId := by
  obtain ⟨clean, fits⟩ := readable
  obtain ⟨cleared, cleans, read⟩ := (bind_eq_ok_iff _ _ _).mp read
  obtain ⟨⟨code, written⟩, decoded, same⟩ := (bind_eq_ok_iff _ _ _).mp read
  cases same
  obtain ⟨field, got, same⟩ := (bind_eq_ok_iff _ _ _).mp decoded
  cases same
  obtain ⟨found, searched, got⟩ := (bind_eq_ok_iff _ _ _).mp got
  obtain ⟨end_, here, copied⟩ := (bind_eq_ok_iff _ _ _).mp got
  obtain ⟨text, textAt, -⟩ := (bind_eq_ok_iff _ _ _).mp searched
  -- the row starts with the file id and the first delimiter
  obtain ⟨behind, textShape⟩ := strAt_front (shape.trans (List.append_assoc _ _ _).symm)
    (by simp [nulFree, key_nulFree]) textAt
  rw [List.append_assoc] at textShape
  have delimiter := strstr_of_strAt key textAt
  rw [textShape, find_key_field clean behind] at delimiter
  cases searched.symm.trans delimiter
  cases here
  have inside : fileId.length ≤ text.length := by
    rw [textShape, List.length_append]
    omega
  have bounded : (fileId.length : Int) ≤ valuesIdSize - 1 := by
    have size : (256 : Int) ≤ valuesIdSize - 1 := by decide
    omega
  rw [copyOut_eq_store textAt inside bounded, textShape, List.take_left] at copied
  -- the buffer was cleared, so the file id is terminated
  have clears := (memset_front buffer 255).symm.trans cleans
  split at clears
  next =>
    cases clears
    exact strAt_store_cleared nulFree fits copied
  next => cases clears

/-- The score `rop_zset_get_score` returns. -/
def shownScore (store : Store) (member : Bytes) : Int :=
  match store.scores fileHotZset member with
  | some score => atoi (decimal score)
  | none => -1

section Reader

variable {env : Env} {store : Store}

theorem ropZsetGetScore_satisfies (reads : Reads env store) (memory : Bytes) :
    (ropZsetGetScore fileHotZset memory).Satisfies env (fun _ => True)
      fun score => ∃ member, strAt memory 0 = .ok member ∧ score = shownScore store member := by
  refine satisfies_ofC_bind fun member holds => satisfies_ask_bind trivial ?_
  rw [reads]
  refine satisfies_ofC_bind fun reply found => ?_
  cases present_eq_ok found
  simp only [Store.serve]
  cases isMember : store.scores fileHotZset member with
  | none => exact Prog.satisfies_ret ⟨member, holds, by rw [shownScore, isMember]⟩
  | some score => exact Prog.satisfies_ret ⟨member, holds, by rw [shownScore, isMember]⟩

/-- What an item shows of its row and of the store. -/
structure Shown (store : Store) (values : Bytes) (i : Nat) (item : Item) : Prop where
  id : ∀ fileId rest, values.drop (i * valuesIdSize) = fileId ++ (key ++ rest) → 0 ∉ fileId →
    Readable fileId → item.id = fileId
  pv : item.pv = shownScore store item.id - 1

theorem readItem_satisfies (reads : Reads env store) (values : Bytes) (i : Nat)
    (bufs : ItemBufs) :
    (readItem values i bufs).Satisfies env (fun _ => True)
      fun result => Shown store values i result.1 := by
  refine satisfies_ofC_bind fun fileId readId => ?_
  refine satisfies_ofC_bind fun id idAt => ?_
  refine satisfies_ofC_bind fun filename _ => satisfies_ofC_bind fun titleM _ => ?_
  refine satisfies_ofC_bind fun usr _ => satisfies_ofC_bind fun titleS _ => ?_
  refine satisfies_ofC_bind fun createTime _ => satisfies_ofC_bind fun descrip _ => ?_
  refine satisfies_ofC_bind fun url _ => satisfies_ofC_bind fun urlText _ => ?_
  refine satisfies_ofC_bind fun next _ => satisfies_ofC_bind fun picurlM _ => ?_
  refine (ropZsetGetScore_satisfies reads fileId).bind ?_
  rintro score - ⟨member, memberAt, rfl⟩
  cases idAt.symm.trans memberAt
  refine satisfies_ofC_bind fun pv checked => Prog.satisfies_ret ⟨?_, ?_⟩
  · intro expected rest shape nulFree readable
    exact Except.ok.inj (idAt.symm.trans (readField_fileId readable nulFree shape readId))
  · exact (checkInt_eq_ok checked).1

theorem readItems_satisfies (reads : Reads env store) (values : Option Bytes) (count i : Nat)
    (bufs : ItemBufs) :
    (readItems values count i bufs).Satisfies env (fun _ => True)
      fun items => ∀ item ∈ items, ∃ memory j, values = some memory ∧ i ≤ j ∧ j < i + count ∧
        Shown store memory j item := by
  induction count generalizing i bufs with
  | zero => exact Prog.satisfies_ret nofun
  | succ count inductionHypothesis =>
      refine satisfies_ofC_bind fun memory found => ?_
      refine (readItem_satisfies reads memory i bufs).bind ?_
      rintro ⟨item, next⟩ - shown
      refine (inductionHypothesis (i + 1) next).bind fun items _ rest => Prog.satisfies_ret ?_
      intro other member
      cases List.mem_cons.mp member with
      | inl here =>
          exact ⟨memory, i, present_eq_ok found, le_rfl, by omega, here ▸ shown⟩
      | inr later =>
          obtain ⟨actual, j, same, lower, upper, otherShown⟩ := rest other later
          exact ⟨actual, j, same, by omega, by omega, otherShown⟩

/-- The rows begin like records of the list. -/
def FromList (store : Store) (result : Int × Option Bytes × Int) : Prop :=
  ∀ memory j, result.2.1 = some memory → j < result.2.2.toNat →
    ∃ record ∈ store.lists fileInfoList, ∀ front rest, record = front ++ rest → 0 ∉ front →
      front.length ≤ valuesIdSize - 1 → ∃ behind, memory.drop (j * valuesIdSize) = front ++ behind

theorem ropRangeList_satisfies (reads : Reads env store) (fromPos count : Int)
    (values : Option Bytes) :
    (ropRangeList fileInfoList fromPos count values).Satisfies env (fun _ => True)
      (FromList store) := by
  refine satisfies_ask_bind trivial ?_
  rw [reads]
  refine satisfies_ofC_bind fun reply found => ?_
  cases present_eq_ok found
  refine satisfies_ofC_bind fun filled copied => Prog.satisfies_ret ?_
  intro memory j isMemory inside
  simp only at isMemory inside
  cases values with
  | none => cases (copyRows_none copied).symm.trans isMemory
  | some block =>
      obtain ⟨actual, same, -, front⟩ := copyRows_front copied
      cases same.symm.trans isMemory
      obtain ⟨entry, str, here, text, starts⟩ := front j (Nat.zero_le j) (by omega)
      have member : entry ∈ (lrange (store.lists fileInfoList) fromPos count).map Reply.string :=
        List.mem_of_getElem? here
      obtain ⟨record, isElement, rfl⟩ := List.mem_map.mp member
      cases text
      exact ⟨str, mem_of_mem_lrange isElement, starts⟩

theorem fetchValues_satisfies (reads : Reads env store) (fromId cnt : Int) :
    (fetchValues fromId cnt).Satisfies env (fun _ => True) (FromList store) := by
  refine satisfies_ofC_bind fun behind _ => satisfies_ofC_bind fun endId _ => ?_
  refine (ropConnectdbNopwd_satisfies trivial trivial).bind fun connected _ _ => ?_
  cases connected with
  | false => exact Prog.satisfies_stop _
  | true =>
      refine satisfies_ofC_bind fun size _ => satisfies_ask_bind trivial ?_
      exact ropRangeList_satisfies reads _ _ _

/-- An item is about a record of the list and shows the score Redis holds for
its id. -/
structure Listed (store : Store) (item : Item) : Prop where
  record : ∃ record ∈ store.lists fileInfoList, ∀ fileId rest,
    record = fileId ++ (key ++ rest) → 0 ∉ fileId → Readable fileId → item.id = fileId
  pv : item.pv = shownScore store item.id - 1

theorem readRedisToJson_satisfies (reads : Reads env store) (fromId cnt : Int) :
    (readRedisToJson fromId cnt).Satisfies env (fun _ => True)
      fun result => ∀ items, result.2 = some items → ∀ item ∈ items, Listed store item := by
  refine (fetchValues_satisfies reads fromId cnt).bind ?_
  rintro ⟨retn, values, valueNum⟩ - fromList
  simp only []
  split
  · exact satisfies_ask_bind trivial (Prog.satisfies_ret nofun)
  · refine (readItems_satisfies reads values _ 0 .cleared).bind fun items _ shown => ?_
    refine satisfies_ask_bind trivial (Prog.satisfies_ret ?_)
    rintro _ ⟨⟩ item member
    obtain ⟨memory, j, isMemory, -, upper, itemShown⟩ := shown item member
    rw [Nat.zero_add] at upper
    obtain ⟨record, isRecord, front⟩ := fromList memory j isMemory upper
    refine ⟨⟨record, isRecord, ?_⟩, itemShown.pv⟩
    intro fileId rest shape nulFree readable
    have sizes : key.length = 2 ∧ 258 ≤ valuesIdSize - 1 := by decide
    have fits := readable.fits
    obtain ⟨behind, row⟩ := front (fileId ++ key) rest (shape.trans (List.append_assoc _ _ _).symm)
      (by simp [nulFree, key_nulFree]) (by rw [List.length_append]; omega)
    exact itemShown.id fileId behind (row.trans (List.append_assoc _ _ _)) nulFree readable

end Reader

end DistStore.DataUse

import DistStore.FieldSizes
import DistStore.JsonPrint
import DistStore.PageRows
import DistStore.RowIsolation

/-!
# The messages `read_redis_to_json` logs

A message is formatted into 4096 bytes, whatever its length is.  The messages
of a row are short; the last one carries the whole page as JSON, and its length
is a constant and what each record adds to it.
-/

set_option autoImplicit false

namespace DistStore.LogMessages

open CMemory ListSearch Program Environment RedisOp RedisStore Record WriteRedis DataUse Delimiters
open FieldSizes Paging PageRows RowIsolation JsonPrint

def mesgSize : Nat := 4096

/-- `dumpmsg_to_file` up to the `vsprintf` of a message that is put together
from its format and arguments. -/
def dumpmsgToFile (message : Bytes) : C Bytes := store (zeros mesgSize) 0 (message ++ [0])

theorem dumpmsgToFile_inside_iff (message : Bytes) :
    (∃ mesg, dumpmsgToFile message = .ok mesg) ↔ message.length < mesgSize := by
  unfold dumpmsgToFile
  constructor
  · rintro ⟨mesg, stored⟩
    have fits := (store_eq_ok stored).1
    rw [zeros_length, List.length_append, List.length_singleton] at fits
    omega
  · intro short
    apply store_inside
    rw [zeros_length, List.length_append, List.length_singleton]
    omega

/-! ## The messages -/

def gmsRedis : Bytes := lit "[+][GMS_REDIS]=REDIS_REPLY_"

/-- The texts of `rop_test_reply_type`. -/
def replyTypes : List Bytes :=
  [gmsRedis ++ lit "STATUS=[string] use reply->str to get data, " ++
      lit "reply->len get data len\n",
    gmsRedis ++ lit "ERROR=[string] use reply->str to get data, " ++ lit "reply->len get date len\n",
    gmsRedis ++ lit "INTEGER=[long long] use reply->integer to get data\n",
    gmsRedis ++ lit "NIL=[] data not exist\n",
    gmsRedis ++ lit "ARRAY=[array] use reply->elements to get number of data, " ++
      lit "reply->element[index] to get (struct redisReply*) Object\n",
    gmsRedis ++ lit "string=[string] use reply->str to get data, " ++ lit "reply->len get data len\n",
    lit "[-][GMS_REDIS]Can't parse this type\n"]

/-- The size of `errstr` in a context of hiredis. -/
def errstrSize : Nat := 128

/-- The messages a row can cause: those of the extraction of its fields, of the
page, of its picture and of its score. -/
def rowMessages (errstr : CText errstrSize) (item : Item) : List Bytes :=
  [lit "file_id:" ++ item.id,
    lit "filename:" ++ item.titleM, lit "filename = " ++ item.titleM,
    lit "user:" ++ item.titleS, lit "usr = " ++ item.titleS,
    lit "create_time:" ++ item.descrip, lit "create_time = " ++ item.descrip,
    lit "url:" ++ item.url, lit "url = " ++ item.url,
    lit "s_get_ip_buf =" ++ ipText item.url,
    lit "suffix = " ++ suffixText item.titleM ++ lit "\n",
    lit "[-][GMS_REDIS]ZSCORE " ++ fileHotZset ++ lit " " ++ item.id ++ lit " error " ++ errstr.val ++
      lit "\n"] ++ replyTypes

def itemJson (item : Item) : CJson :=
  .object [] [.text (lit "id") item.id, .number (lit "kind") item.kind,
    .text (lit "title_m") item.titleM, .text (lit "title_s") item.titleS,
    .text (lit "descrip") item.descrip, .text (lit "url") item.url,
    .text (lit "picurl_m") item.picurlM, .number (lit "pv") item.pv, .number (lit "hot") item.hot]

/-- The object `root`. -/
def rootJson (items : List Item) : CJson :=
  .object [] [.array (lit "games") (items.map itemJson)]

def outMessage (items : List Item) : Bytes := lit "out = " ++ cJsonPrint (rootJson items)

def pageMessages (errstr : CText errstrSize) (items : List Item) : List Bytes :=
  items.flatMap (rowMessages errstr) ++ [outMessage items]

/-! ## The length of a page -/

def texts (item : Item) : List Bytes :=
  [item.id, item.titleM, item.titleS, item.descrip, item.url, item.picurlM]

/-- What an item adds to the length of the page: its texts with their escapes,
the digits of its views, and what stands around them. -/
def itemCost (item : Item) : Nat :=
  144 + ((texts item).map escapedLength).sum + (decimal item.pv).length

/-- An item as it is read from a row. -/
structure Read (item : Item) : Prop where
  kind : item.kind = 2
  hot : item.hot = 0
  nulFree : ∀ text ∈ texts item, 0 ∉ text
  short : ∀ text ∈ texts item, text.length < 256

/-- What the names of an item take, each with its quotes. -/
theorem itemNames_length :
    (printStringPtr (lit "id")).length = 4 ∧ (printStringPtr (lit "kind")).length = 6 ∧
      (printStringPtr (lit "title_m")).length = 9 ∧ (printStringPtr (lit "title_s")).length = 9 ∧
      (printStringPtr (lit "descrip")).length = 9 ∧ (printStringPtr (lit "url")).length = 5 ∧
      (printStringPtr (lit "picurl_m")).length = 10 ∧ (printStringPtr (lit "pv")).length = 4 ∧
      (printStringPtr (lit "hot")).length = 5 ∧ (printStringPtr (lit "games")).length = 7 := by
  decide

theorem printItem_length {item : Item} (read : Read item) :
    (printValue 2 (itemJson item)).length + 2 = itemCost item := by
  obtain ⟨kind, hot, nulFree, -⟩ := read
  obtain ⟨idName, kindName, titleMName, titleSName, descripName, urlName, picurlMName, pvName,
    hotName, -⟩ := itemNames_length
  have two : (decimal 2).length = 1 := by simp [decimal, decimalNat]
  have zero : (decimal 0).length = 1 := by simp [decimal, decimalNat]
  simp only [texts, List.forall_mem_cons] at nulFree
  obtain ⟨id, titleM, titleS, descrip, url, picurlM, -⟩ := nulFree
  unfold itemJson printValue
  rw [printObject_length 2 (by simp [printNamed])]
  simp only [printNamed, CJson.string, printValue, printNumber_eq, kind, hot, List.map_cons,
    List.map_nil, List.sum_cons, List.sum_nil, printStringPtr_length id,
    printStringPtr_length titleM, printStringPtr_length titleS, printStringPtr_length descrip,
    printStringPtr_length url, printStringPtr_length picurlM, itemCost, texts, idName, kindName,
    titleMName, titleSName, descripName, urlName, picurlMName, pvName, hotName, two, zero]
  omega

theorem printEntries_map {items : List Item} (read : ∀ item ∈ items, Read item) :
    ((printEntries 2 (items.map itemJson)).map fun entry => entry.length + 2).sum =
      (items.map itemCost).sum := by
  induction items with
  | nil => rfl
  | cons item items inductionHypothesis =>
      rw [List.forall_mem_cons] at read
      rw [List.map_cons, printEntries, List.map_cons, List.map_cons, List.sum_cons, List.sum_cons,
        inductionHypothesis read.2, printItem_length read.1]

/-- The last message fits exactly when its items cost at most 4075 bytes. -/
theorem outMessage_fits_iff {items : List Item} (read : ∀ item ∈ items, Read item) :
    (outMessage items).length < mesgSize ↔ (items.map itemCost).sum ≤ 4075 := by
  have front : (lit "out = ").length = 6 := by decide
  have gamesName := itemNames_length.2.2.2.2.2.2.2.2.2
  have size : mesgSize = 4096 := rfl
  unfold outMessage cJsonPrint rootJson printValue
  rw [List.length_append, front, printObject_length 0 (by simp [printNamed])]
  simp only [printNamed, CJson.string, printValue, List.map_cons, List.map_nil, List.sum_cons,
    List.sum_nil, gamesName]
  cases items with
  | nil =>
      have empty : (printArray (printEntries 2 ([].map itemJson))).length = 2 := by decide
      rw [empty, List.map_nil, List.sum_nil, size]
      exact iff_of_true (by omega) (by omega)
  | cons item items =>
      have nonempty : printEntries 2 ((item :: items).map itemJson) ≠ [] := by
        rw [List.map_cons, printEntries]
        exact List.cons_ne_nil _ _
      have array := printArray_length nonempty
      rw [printEntries_map read] at array
      rw [array, size]
      omega

/-! ## The messages of a row -/

theorem ipText_length_le (url : Bytes) : (ipText url).length ≤ url.length + 4 := by
  unfold ipText
  split
  · rw [List.length_take]
    omega
  · exact Nat.le_add_left _ _

theorem suffixText_length_le (filename : Bytes) :
    (suffixText filename).length ≤ filename.length + 4 := by
  rcases suffixText_cases filename with named | part
  · rw [named]
    exact Nat.le_add_left _ _
  · exact part.length_le.trans (Nat.le_add_right _ _)

theorem rowMessages_fit (errstr : CText errstrSize) {item : Item} (read : Read item) :
    ∀ message ∈ rowMessages errstr item, message.length < mesgSize := by
  have short := read.short
  simp only [texts, List.forall_mem_cons] at short
  obtain ⟨id, titleM, titleS, descrip, url, -⟩ := short
  have ip := ipText_length_le item.url
  have suffix := suffixText_length_le item.titleM
  have errstrShort : errstr.val.length ≤ 127 := errstr.property.2
  have size : mesgSize = 4096 := rfl
  have decoder : (lit "file_id:").length = 8 ∧ (lit "filename:").length = 9 ∧
      (lit "user:").length = 5 ∧ (lit "create_time:").length = 12 ∧ (lit "url:").length = 4 := by
    decide
  have page : (lit "filename = ").length = 11 ∧ (lit "usr = ").length = 6 ∧
      (lit "create_time = ").length = 14 ∧ (lit "url = ").length = 6 := by decide
  have picture : (lit "s_get_ip_buf =").length = 14 ∧ (lit "suffix = ").length = 9 := by decide
  have score : (lit "[-][GMS_REDIS]ZSCORE ").length = 21 ∧ fileHotZset.length = 13 ∧
      (lit " ").length = 1 ∧ (lit " error ").length = 7 ∧ (lit "\n").length = 1 := by decide
  have types : ∀ message ∈ replyTypes, message.length < mesgSize := by decide +kernel
  unfold rowMessages
  rw [List.forall_mem_append]
  refine ⟨?_, types⟩
  simp only [List.forall_mem_cons, List.length_append]
  exact ⟨by omega, by omega, by omega, by omega, by omega, by omega, by omega, by omega, by omega,
    by omega, by omega, by omega, nofun⟩

/-! ## The texts of a record -/

/-- The text `get_value_by_redis` takes for a field: what stands between its
delimiters, but with a `"||||"` an empty user and a create time that ends
there. -/
def shownText (record : Bytes) (wordNum : Int) : Bytes :=
  match wordNum with
  | 1 => (piece record 0).getD []
  | 2 => (piece record 1).getD []
  | 3 => (piece record 2).getD []
  | 4 =>
      match find keyError record with
      | some p =>
          let rest := (behind key 3 record).getD []
          rest.take (p - (record.length - rest.length))
      | none => (piece record 3).getD []
  | 5 => if (find keyError record).isSome then [] else (piece record 4).getD []
  | _ => []

/-- The texts an item shows of its record. -/
def shownTexts (record : Bytes) : List Bytes :=
  [shownText record 1, shownText record 3, shownText record 5, shownText record 4,
    shownText record 2, pictureUrl (shownText record 2) (shownText record 3)]

section Texts

variable {record : Bytes} {size : Nat}

theorem copyText_text {cut value text : Bytes} (nulFree : 0 ∉ cut) (small : size ≤ 256)
    (copied : copyText (zeros size) (valuesIdSize - 1) cut = .ok value)
    (ends : strAt value 0 = .ok text) : text = cut ∧ text.length < size := by
  have cap : ((valuesIdSize : Int) - 1).toNat = 1023 := by decide
  have short : cut.length < size := (copyText_fits_iff nulFree small).mp ⟨value, text, copied, ends⟩
  unfold copyText at copied
  rw [cap, List.take_of_length_le (by omega), store_zeros size cut short.le] at copied
  cases copied
  cases (strAt_padTo nulFree short).symm.trans ends
  exact ⟨rfl, short⟩

theorem piece_text (nulFree : 0 ∉ record) (small : size ≤ 256) {n : Nat} {value text : Bytes}
    (copied : (textOf (piece record n) >>= copyText (zeros size) (valuesIdSize - 1)) = .ok value)
    (ends : strAt value 0 = .ok text) : text = (piece record n).getD [] ∧ text.length < size := by
  obtain ⟨cut, found, copied⟩ := (bind_eq_ok_iff _ _ _).mp copied
  have here := textOf_eq_ok found
  have cutFree : 0 ∉ cut := fun member => nulFree (piece_subset here member)
  rw [here, Option.getD_some]
  exact copyText_text cutFree small copied ends

/-- A field that is extracted and ended in its buffer is the text of its
record. -/
theorem fieldText_eq_ok (nulFree : 0 ∉ record) {wordNum : Int}
    (destination : (wordNum, size) ∈ destinations) {text : Bytes}
    (read : fieldText record wordNum size = .ok text) :
    text = shownText record wordNum ∧ text.length < size := by
  obtain ⟨value, decoded, ends⟩ := (bind_eq_ok_iff _ _ _).mp read
  simp only [destinations, List.mem_cons, Prod.mk.injEq, List.not_mem_nil, or_false] at destination
  unfold decodeText at decoded
  unfold shownText
  obtain ⟨rfl, rfl⟩ | ⟨rfl, rfl⟩ | ⟨rfl, rfl⟩ | ⟨rfl, rfl⟩ | ⟨rfl, rfl⟩ := destination
  · exact piece_text nulFree (by decide) decoded ends
  · exact piece_text nulFree (by decide) decoded ends
  · cases found : find keyError record with
    | none =>
        simp only [found] at decoded
        exact piece_text nulFree (by decide) decoded ends
    | some p =>
        simp only [found] at decoded
        rw [memset_zeros (by decide) (by decide)] at decoded
        cases decoded
        have empty : strAt (zeros 128) 0 = .ok [] := by decide
        cases empty.symm.trans ends
        exact ⟨rfl, by decide⟩
  · cases found : find keyError record with
    | none =>
        simp only [found] at decoded
        exact piece_text nulFree (by decide) decoded ends
    | some p =>
        simp only [found] at decoded
        obtain ⟨rest, start, copied⟩ := (bind_eq_ok_iff _ _ _).mp decoded
        have here := textOf_eq_ok start
        obtain ⟨fields, -, -, split⟩ := (behind_eq_some_iff _ _ _).mp here
        have restFree : ∀ n, 0 ∉ rest.take n := fun n member =>
          nulFree (split ▸ List.mem_append_right _ (List.mem_of_mem_take member))
        simp only [here, Option.getD_some]
        split at copied
        next => exact copyText_text (restFree _) (by decide) copied ends
        next => cases copied
  · exact piece_text nulFree (by decide) decoded ends

/-- What an upload has recorded is shown when it fits its buffer. -/
theorem shownText_record {info : FileInfo} (decodable : info.Decodable) (nulFree : 0 ∉ info.record)
    (k : Fin 6) (destination : ((k : Int) + 1, size) ∈ destinations)
    (fits : (info.fields.get k).length < size) :
    shownText info.record (k + 1) = info.fields.get k := by
  have sizes : 10 ≤ size ∧ size ≤ 256 := by
    simp only [destinations, List.mem_cons, Prod.mk.injEq, List.not_mem_nil, or_false] at destination
    omega
  have row : (256 : Int) ≤ valuesIdSize - 1 := by decide
  have holds : strAt (info.record ++ [0]) 0 = .ok info.record := strAt_append [] _ [] nulFree
  have fieldFree : 0 ∉ info.fields.get k := fun member =>
    nulFree ((FileInfo.infix_joinFields (List.get_mem _ _)).subset member)
  have decoded := FileInfo.getValueByRedis_decodable decodable holds k
    (show IsInt (valuesIdSize - 1) by decide) (by omega) fits sizes.1
  rw [getValueByRedis_eq, getField_eq_decodeText _ _ holds (by decide) (by decide)] at decoded
  obtain ⟨value, written, same⟩ := (bind_eq_ok_iff _ _ _).mp decoded
  cases same
  have read : fieldText info.record (k + 1) size = .ok (info.fields.get k) := by
    unfold fieldText
    rw [written, ok_bind, strAt_padTo fieldFree fits]
  exact (fieldText_eq_ok nulFree destination read).1.symm

theorem fieldText_nulFree {wordNum : Int} {text : Bytes}
    (read : fieldText record wordNum size = .ok text) : 0 ∉ text := by
  obtain ⟨value, -, ends⟩ := (bind_eq_ok_iff _ _ _).mp read
  exact strAt_nulFree ends

theorem itemTexts_eq_ok (nulFree : 0 ∉ record) {item : Item} (made : itemTexts record = .ok item) :
    texts item = shownTexts record ∧ Read item := by
  obtain ⟨id, idRead, made⟩ := (bind_eq_ok_iff _ _ _).mp made
  obtain ⟨titleM, titleMRead, made⟩ := (bind_eq_ok_iff _ _ _).mp made
  obtain ⟨titleS, titleSRead, made⟩ := (bind_eq_ok_iff _ _ _).mp made
  obtain ⟨descrip, descripRead, made⟩ := (bind_eq_ok_iff _ _ _).mp made
  obtain ⟨url, urlRead, made⟩ := (bind_eq_ok_iff _ _ _).mp made
  split at made
  next fits =>
    cases made
    have picture := fits.2
    have idText := fieldText_eq_ok nulFree (by decide) idRead
    have titleMText := fieldText_eq_ok nulFree (by decide) titleMRead
    have titleSText := fieldText_eq_ok nulFree (by decide) titleSRead
    have descripText := fieldText_eq_ok nulFree (by decide) descripRead
    have urlText := fieldText_eq_ok nulFree (by decide) urlRead
    refine ⟨?_, rfl, rfl, ?_, ?_⟩
    · simp only [texts, shownTexts, idText.1, titleMText.1, titleSText.1, descripText.1, urlText.1]
    · have urlFree := fieldText_nulFree urlRead
      have titleMFree := fieldText_nulFree titleMRead
      simp only [texts, List.forall_mem_cons]
      exact ⟨fieldText_nulFree idRead, titleMFree, fieldText_nulFree titleSRead,
        fieldText_nulFree descripRead, urlFree, pictureUrl_nulFree urlFree titleMFree, nofun⟩
    · simp only [texts, List.forall_mem_cons]
      exact ⟨idText.2, titleMText.2, titleSText.2.trans (by decide), descripText.2.trans (by decide),
        urlText.2, picture, nofun⟩
  next => cases made

end Texts

/-! ## The page of a run -/

/-- The score Redis has for a member, as `rop_zset_get_score` reads it. -/
def scoreOf (env : Env) (member : Bytes) : Int :=
  match env (.redisCommand (.zscore fileHotZset member)) with
  | some (.string str) => atoi str
  | _ => -1

/-- What a record adds to the length of the page. -/
def recordCost (env : Env) (record : Bytes) : Nat :=
  144 + ((shownTexts record).map escapedLength).sum +
    (decimal (scoreOf env (shownText record 1) - 1)).length

/-- What an upload costs whose values fit their buffers. -/
theorem recordCost_record (env : Env) {info : FileInfo} (decodable : info.Decodable)
    (nulFree : 0 ∉ info.record) (fileId : info.fileId.length < 256) (url : info.url.length < 256)
    (filename : info.filename.length < 256) (createTime : info.createTime.length < 64)
    (user : info.user.length < 128) :
    recordCost env info.record = 144 + (escapedLength info.fileId + escapedLength info.filename +
      escapedLength info.user + escapedLength info.createTime + escapedLength info.url +
      escapedLength (pictureUrl info.url info.filename)) +
      (decimal (scoreOf env info.fileId - 1)).length := by
  have one : shownText info.record 1 = info.fileId :=
    shownText_record decodable nulFree 0 (by decide) fileId
  have two : shownText info.record 2 = info.url :=
    shownText_record decodable nulFree 1 (by decide) url
  have three : shownText info.record 3 = info.filename :=
    shownText_record decodable nulFree 2 (by decide) filename
  have four : shownText info.record 4 = info.createTime :=
    shownText_record decodable nulFree 3 (by decide) createTime
  have five : shownText info.record 5 = info.user :=
    shownText_record decodable nulFree 4 (by decide) user
  rw [recordCost, shownTexts, one, two, three, four, five]
  simp only [List.map_cons, List.map_nil, List.sum_cons, List.sum_nil]
  omega

/-- The records of the rows `rop_range_list` reports for a page. -/
def pageRecords (list : List Entry) (fromId cnt : Int) : List Bytes :=
  let range := lrange list fromId (fromId + cnt - 1)
  (range.take (maxCount range.length (fromId + cnt - 1)).toNat).map Subtype.val

section Run

variable {env : Env} {list : List Entry}

theorem ropZsetGetScore_scoreOf {memory member : Bytes} (holds : strAt memory 0 = .ok member) :
    (ropZsetGetScore fileHotZset memory).Satisfies env (fun _ => True)
      fun score => score = scoreOf env member := by
  refine satisfies_ofC_bind fun text isText => ?_
  cases holds.symm.trans isText
  refine satisfies_ask_bind trivial (satisfies_ofC_bind fun reply found => ?_)
  have answer := present_eq_ok found
  unfold scoreOf
  rw [answer]
  cases reply <;> exact Prog.satisfies_ret rfl

/-- A record that is shown adds its cost. -/
theorem showRecord_satisfies {record : Bytes} (nulFree : 0 ∉ record) :
    (showRecord record).Satisfies env (fun _ => True)
      fun item => Read item ∧ itemCost item = recordCost env record := by
  refine satisfies_ofC_bind fun item made => ?_
  obtain ⟨shown, read⟩ := itemTexts_eq_ok nulFree made
  have id : item.id = shownText record 1 := (List.cons.inj shown).1
  have idFree : 0 ∉ item.id := read.nulFree _ (List.mem_cons_self)
  refine (ropZsetGetScore_scoreOf (strAt_append [] item.id [] idFree)).bind ?_
  rintro score - rfl
  refine satisfies_ofC_bind fun pv checked => Prog.satisfies_ret ⟨⟨read.kind, read.hot,
    read.nulFree, read.short⟩, ?_⟩
  obtain ⟨rfl, -⟩ := checkInt_eq_ok checked
  have same : texts { item with pv := scoreOf env item.id - 1 } = shownTexts record := shown
  rw [itemCost, same, recordCost, id]

theorem renderRecords_satisfies {records : List Bytes} (nulFree : ∀ record ∈ records, 0 ∉ record) :
    (renderRecords records).Satisfies env (fun _ => True) fun items =>
      (∀ item ∈ items, Read item) ∧ items.map itemCost = records.map (recordCost env) := by
  induction records with
  | nil => exact Prog.satisfies_ret ⟨nofun, rfl⟩
  | cons record rest inductionHypothesis =>
      rw [List.forall_mem_cons] at nulFree
      unfold renderRecords
      rw [renderRecord_eq nulFree.1]
      refine (showRecord_satisfies nulFree.1).bind fun item _ first => ?_
      refine (inductionHypothesis nulFree.2).bind fun items _ later => Prog.satisfies_ret ?_
      rw [List.forall_mem_cons, List.map_cons, List.map_cons, first.2, later.2]
      exact ⟨⟨first.1, later.1⟩, rfl⟩

theorem rowTexts_eq_ok {values : Bytes} {count i : Nat} {records : List Bytes}
    (rows : rowTexts (some values) count i = .ok records) :
    records.length = count ∧ HoldsFrom values i records := by
  induction count generalizing i records with
  | zero =>
      cases rows
      exact ⟨rfl, .nil⟩
  | succ count inductionHypothesis =>
      obtain ⟨memory, isMemory, texts⟩ := (bind_eq_ok_iff _ _ _).mp rows
      cases present_eq_ok isMemory
      obtain ⟨text, row, texts⟩ := (bind_eq_ok_iff _ _ _).mp texts
      obtain ⟨rest, found, same⟩ := (bind_eq_ok_iff _ _ _).mp texts
      cases same
      obtain ⟨length, later⟩ := inductionHypothesis found
      exact ⟨congrArg Nat.succ length, .cons row later⟩

/-- The loop over the rows of a page reads its records. -/
theorem readItems_rows {values : Bytes} {count : Nat} {records : List Bytes}
    (rows : rowTexts (some values) count 0 = .ok records) :
    readItems (some values) count 0 .cleared = renderRecords records := by
  obtain ⟨rfl, held⟩ := rowTexts_eq_ok rows
  exact readItems_eq held sized_cleared

theorem lrange_map {α β : Type} (f : α → β) (list : List α) (start stop : Int) :
    lrange (list.map f) start stop = (lrange list start stop).map f := by
  simp only [lrange, List.length_map, List.map_take, List.map_drop]

/-- A block of whole rows that is not left holds the records of the page. -/
theorem ropRangeList_pageRecords (holds : Holds env list) {fromId cnt : Int}
    (isInt : IsInt (fromId + cnt - 1)) {memory : Bytes} {rows : Nat}
    (size : memory.length = rows * valuesIdSize) :
    (ropRangeList fileInfoList fromId (fromId + cnt - 1) (some memory)).Satisfies env
      (fun _ => True) fun result => ∃ filled valueNum, result = (0, some filled, valueNum) ∧
        rowTexts (some filled) valueNum.toNat 0 = .ok (pageRecords list fromId cnt) := by
  unfold pageRecords maxCount
  refine satisfies_ask_bind trivial (satisfies_ofC_bind fun reply found => ?_)
  rw [holds.answered, lrange_map, List.map_map] at found
  cases present_eq_ok found
  generalize lrange list fromId (fromId + cnt - 1) = entries
  refine satisfies_ofC_bind fun filled copied => Prog.satisfies_ret ?_
  simp only [Reply.element, List.length_map] at copied ⊢
  generalize number : (if entries.length > toSize (fromId + cnt - 1) then fromId + cnt - 1
    else toInt entries.length) = valueNum at copied ⊢
  have enough : 0 + valueNum.toNat ≤ entries.length := by
    rw [Nat.zero_add, ← number]
    exact maxCount_le isInt
  -- more rows than the block has would have left it
  have fits : valueNum.toNat ≤ rows := by
    by_contra more
    have row : 1 < valuesIdSize := by decide
    have next : (rows + 1) * valuesIdSize ≤ valueNum.toNat * valuesIdSize :=
      Nat.mul_le_mul_right _ (by omega)
    rw [Nat.succ_mul] at next
    have range : entries.map (Reply.string ∘ Subtype.val) =
        (entries.map Subtype.val).map Reply.string := List.map_map.symm
    have outside := copyRows_outside (entries.map Subtype.val) valueNum.toNat 0 memory
      (by rwa [List.length_map]) (by omega) (by rw [Nat.zero_add]; omega)
    rw [range] at copied
    cases outside.symm.trans copied
  have room : (0 + valueNum.toNat) * valuesIdSize ≤ memory.length := by
    rw [size, Nat.zero_add]
    exact Nat.mul_le_mul_right _ fits
  obtain ⟨block, copies, -, texts⟩ := copyRows_eq entries valueNum.toNat 0 memory enough room
  cases copies.symm.trans copied
  exact ⟨block, valueNum, rfl, texts⟩

theorem fetchValues_pageRecords (holds : Holds env list) (fromId cnt : Int) :
    (fetchValues fromId cnt).Satisfies env (fun _ => True) fun result =>
      ∃ filled valueNum, result = (0, some filled, valueNum) ∧
        rowTexts (some filled) valueNum.toNat 0 = .ok (pageRecords list fromId cnt) := by
  refine satisfies_ofC_bind fun behind first => satisfies_ofC_bind fun endId last => ?_
  obtain ⟨rfl, -⟩ := checkInt_eq_ok first
  obtain ⟨rfl, isInt⟩ := checkInt_eq_ok last
  refine (ropConnectdbNopwd_satisfies trivial trivial).bind fun connected _ _ => ?_
  cases connected with
  | false => exact Prog.satisfies_stop _
  | true =>
      refine satisfies_ofC_bind fun size checked => satisfies_ask_bind trivial ?_
      obtain ⟨rfl, -⟩ := checkInt_eq_ok checked
      have whole : toSize (cnt * valuesIdSize) = (cnt % 2 ^ 54).toNat * valuesIdSize := by
        unfold toSize valuesIdSize
        omega
      obtain ⟨block, obtained⟩ := Option.ne_none_iff_exists'.mp (holds.allocated _)
      rw [obtained]
      exact ropRangeList_pageRecords holds isInt (block.property.trans whole)

/-- The items of a page that is printed cost what its records do. -/
theorem readRedisToJson_cost (holds : Holds env list) (fromId cnt : Int) :
    (readRedisToJson fromId cnt).Satisfies env (fun _ => True) fun result =>
      ∀ items, result.2 = some items → (∀ item ∈ items, Read item) ∧
        items.map itemCost = (pageRecords list fromId cnt).map (recordCost env) := by
  refine (fetchValues_pageRecords holds fromId cnt).bind ?_
  rintro _ - ⟨filled, valueNum, rfl, rows⟩
  have nulFree : ∀ record ∈ pageRecords list fromId cnt, 0 ∉ record := by
    intro record member
    obtain ⟨entry, -, rfl⟩ := List.mem_map.mp member
    exact entry.property.1
  simp only [readItems_rows rows, Int.not_lt_of_ge le_rfl, if_false]
  refine (renderRecords_satisfies nulFree).bind fun items _ cost => ?_
  refine satisfies_ask_bind trivial (Prog.satisfies_ret ?_)
  rintro _ ⟨⟩
  exact cost

/-- Records that are shown make a page. -/
theorem renderRecords_returned {item : Bytes → Item} {records : List Bytes}
    (nulFree : ∀ record ∈ records, 0 ∉ record)
    (shown : ∀ record ∈ records, (showRecord record).outcome env = .returned (item record)) :
    (renderRecords records).outcome env = .returned (records.map item) := by
  induction records with
  | nil => rfl
  | cons record rest inductionHypothesis =>
      rw [List.forall_mem_cons] at nulFree shown
      unfold renderRecords
      rw [renderRecord_eq nulFree.1, Prog.outcome_bind_returned _ shown.1,
        Prog.outcome_bind_returned _ (inductionHypothesis nulFree.2 shown.2)]
      rfl

theorem readRedisToJson_returned (holds : Holds env list) {fromId cnt : Nat} (positive : 0 < cnt)
    (isInt : IsInt (fromId + cnt)) (fits : cnt * valuesIdSize < 2 ^ 31) {item : Bytes → Item}
    (shown : ∀ entry ∈ list, (showRecord entry.val).outcome env = .returned (item entry.val)) :
    (readRedisToJson fromId cnt).outcome env = .returned (0, some
      (((((list.drop fromId).take cnt).take (fromId + cnt - 1)).map Subtype.val).map item)) := by
  obtain ⟨filled, valueNum, fetched, rows⟩ := fetchValues_rows holds positive isInt fits
  have member : ∀ entry ∈ ((list.drop fromId).take cnt).take (fromId + cnt - 1), entry ∈ list :=
    fun entry here => List.mem_of_mem_drop (List.mem_of_mem_take (List.mem_of_mem_take here))
  have page : (renderRecords _).outcome env = .returned (List.map item _) :=
    renderRecords_returned (List.forall_mem_map.mpr fun entry _ => entry.property.1)
      (List.forall_mem_map.mpr fun entry here => shown entry (member entry here))
  rw [readRedisToJson, Prog.outcome_bind_returned _ fetched]
  simp only [readItems_rows rows, Int.not_lt_of_ge le_rfl, if_false]
  rw [Prog.outcome_bind_returned _ page]
  rfl

end Run

/-- All messages of a page fit the buffer exactly when the texts of its records
are short enough together. -/
theorem pageMessages_fit_iff (env : Env) (list : List Entry) (holds : Holds env list)
    (errstr : CText errstrSize) (fromId cnt : Int) (items : List Item)
    (returned : (readRedisToJson fromId cnt).outcome env = .returned (0, some items)) :
    (∀ message ∈ pageMessages errstr items, ∃ mesg, dumpmsgToFile message = .ok mesg) ↔
      ((pageRecords list fromId cnt).map (recordCost env)).sum ≤ 4075 := by
  obtain ⟨read, cost⟩ := (readRedisToJson_cost holds fromId cnt).2 _ returned items rfl
  simp only [dumpmsgToFile_inside_iff]
  rw [← cost, ← outMessage_fits_iff read, pageMessages, List.forall_mem_append,
    List.forall_mem_singleton]
  refine and_iff_right ?_
  intro message member
  obtain ⟨item, isItem, isMessage⟩ := List.mem_flatMap.mp member
  exact rowMessages_fit errstr (read item isItem) message isMessage

/-- A server that holds `list` and a score for every member. -/
def scoreServer (list : List Entry) : Env
  | .redisCommand (.zscore _ _) => some (.string (lit "1"))
  | call => listServer list call

theorem scoreServer_holds (list : List Entry) : Holds (scoreServer list) list where
  connected := rfl
  allocated := fun _ => Option.some_ne_none _
  answered := fun _ _ => rfl

def uploadedId : Bytes := lit "group1/M00/00/00/" ++ lit "wKgAdV3xQaSAUzLbAAAAE2lZ8lc5214.txt"

def uploadedUrl : Bytes := lit "http://192.168.0.117:80/" ++ uploadedId

def uploadedInfo : FileInfo where
  fileId := uploadedId
  url := uploadedUrl
  filename := lit "test.txt"
  createTime := lit "2016-09-08 10-00:00"
  user := lit "user"
  type := lit "txt"

/-- An entry as an upload leaves it. -/
def uploaded : Entry := ⟨uploadedInfo.record, by decide +kernel⟩

def uploadedItem : Item where
  id := uploadedId
  kind := 2
  titleM := lit "test.txt"
  titleS := lit "user"
  descrip := lit "2016-09-08 10-00:00"
  url := uploadedUrl
  picurlM := lit "http://192.168.0.117:80/static/file_png/txt.png"
  pv := 0
  hot := 0

def noError : CText errstrSize := ⟨[], by decide⟩

theorem uploaded_shown (list : List Entry) :
    (showRecord uploaded.val).outcome (scoreServer list) = .returned uploadedItem := by
  have made : itemTexts uploaded.val = .ok uploadedItem := by decide +kernel
  unfold showRecord
  rw [made]
  rfl

def uploads : List Entry := List.replicate 13 uploaded

theorem uploads_returned {fromId cnt : Nat} (positive : 0 < cnt) (isInt : IsInt (fromId + cnt))
    (fits : cnt * valuesIdSize < 2 ^ 31) :
    (readRedisToJson fromId cnt).outcome (scoreServer uploads) = .returned (0, some
      (((((uploads.drop fromId).take cnt).take (fromId + cnt - 1)).map Subtype.val).map
        fun _ => uploadedItem)) := by
  refine readRedisToJson_returned (scoreServer_holds uploads) positive isInt fits ?_
  intro entry member
  rw [List.eq_of_mem_replicate member]
  exact uploaded_shown uploads

/-- All messages of the last page of one upload are logged. -/
theorem pageMessages_fit_one :
    (readRedisToJson (12 : Nat) (1 : Nat)).outcome (scoreServer uploads) =
        .returned (0, some [uploadedItem]) ∧
      ∀ message ∈ pageMessages noError [uploadedItem],
        ∃ mesg, dumpmsgToFile message = .ok mesg := by
  have returned : (readRedisToJson (12 : Nat) (1 : Nat)).outcome (scoreServer uploads) =
      .returned (0, some [uploadedItem]) := uploads_returned (by decide) (by decide) (by decide)
  have short : ((pageRecords uploads 12 1).map (recordCost (scoreServer uploads))).sum ≤ 4075 := by
    decide +kernel
  exact ⟨returned,
    (pageMessages_fit_iff _ _ (scoreServer_holds _) noError 12 1 _ returned).mpr short⟩

/-- The message of the first page of all uploads leaves the buffer. -/
theorem outMessage_leaves_mesg :
    ∃ items, (readRedisToJson (0 : Nat) (13 : Nat)).outcome (scoreServer uploads) =
        .returned (0, some items) ∧
      outMessage items ∈ pageMessages noError items ∧
      ∀ mesg, dumpmsgToFile (outMessage items) ≠ .ok mesg := by
  refine ⟨List.replicate 12 uploadedItem, uploads_returned (by decide) (by decide) (by decide),
    List.mem_append_right _ (List.mem_singleton_self _), ?_⟩
  intro mesg stored
  have short := (dumpmsgToFile_inside_iff _).mp ⟨mesg, stored⟩
  have long : mesgSize ≤ (outMessage (List.replicate 12 uploadedItem)).length := by decide +kernel
  omega

end DistStore.LogMessages

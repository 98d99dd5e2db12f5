import DistStore.DataUse
import DistStore.Delimiters

/-!
# The items of a page, row by row

`read_redis_to_json` keeps its buffers from row to row.  What a row leaves in
them ends at the NUL of the next row's text, so no item depends on the rows
before it: the loop does what it would do if every record were read alone into
cleared buffers.
-/

set_option autoImplicit false

namespace DistStore.RowIsolation

open CMemory ListSearch Program Environment RedisOp Record WriteRedis DataUse Delimiters

/-- The buffers have the sizes they are declared with. -/
structure Sized (bufs : ItemBufs) : Prop where
  filename : bufs.filename.length = 256
  fileId : bufs.fileId.length = 256
  createTime : bufs.createTime.length = 64
  suffix : bufs.suffix.length = suffixLen
  url : bufs.url.length = 256
  usr : bufs.usr.length = 128
  picurl : bufs.picurl.length = picUrlLen
  picName : bufs.picName.length = picNameLen
  getIpBuf : bufs.getIpBuf.length = picUrlLen

theorem sized_cleared : Sized .cleared where
  filename := zeros_length _
  fileId := zeros_length _
  createTime := zeros_length _
  suffix := zeros_length _
  url := zeros_length _
  usr := zeros_length _
  picurl := zeros_length _
  picName := zeros_length _
  getIpBuf := zeros_length _

/-! ## The url of the picture -/

/-- What `get_ip_url` keeps of a url. -/
def ipText (url : Bytes) : Bytes :=
  match find (lit "/group") url with
  | some end_ => url.take end_
  | none => lit "null"

theorem getIpUrl_eq {sUrl url : Bytes} (holds : strAt sUrl 0 = .ok url) (sGetIpBuf : Bytes) :
    getIpUrl sUrl sGetIpBuf =
      if (ipText url).length < sGetIpBuf.length then .ok (0, overwrite (ipText url) sGetIpBuf)
      else .error .writeOutside := by
  unfold getIpUrl
  rw [strstr_of_strAt _ holds, ok_bind]
  cases found : find (lit "/group") url with
  | none =>
      have text : ipText url = lit "null" := by simp only [ipText, found]
      have named := strncpy_null sGetIpBuf
      simp only [Option.map_none]
      rw [text, named]
      split <;> rfl
  | some end_ =>
      have text : ipText url = url.take end_ := by simp only [ipText, found]
      have inside : end_ ≤ url.length := ((find_eq_some_iff _ _ _).mp found).1
      have length : (url.take end_).length = end_ := List.length_take_of_le inside
      have copied := @strncpy_terminated sGetIpBuf _ _ _ _ holds inside
      simp only [Option.map_some, Nat.zero_add]
      rw [← bind_assoc, copied, text, length]
      split <;> rfl

theorem printPicName_eq {suffix text : Bytes} (holds : strAt suffix 0 = .ok text)
    (picName : Bytes) :
    printPicName picName suffix =
      if (text ++ lit ".png").length < picName.length then .ok (overwrite (text ++ lit ".png") picName)
      else .error .writeOutside := by
  unfold printPicName
  rw [holds, ok_bind]
  exact store_overwrite picName (text ++ lit ".png")

def pngPath : Bytes := lit "/static/file_png/"

def pictureUrl (url filename : Bytes) : Bytes :=
  ipText url ++ pngPath ++ (suffixText filename ++ lit ".png")

/-- The name of the picture and its url fit their buffers. -/
def PictureFits (url filename : Bytes) : Prop :=
  (suffixText filename ++ lit ".png").length < picNameLen ∧
    (pictureUrl url filename).length < picUrlLen

instance (url filename : Bytes) : Decidable (PictureFits url filename) := by
  unfold PictureFits
  infer_instance

theorem ipText_nulFree {url : Bytes} (nulFree : 0 ∉ url) : 0 ∉ ipText url := by
  unfold ipText
  split
  · exact fun member => nulFree (List.mem_of_mem_take member)
  · decide

/-- The buffers behind a picture that fits. -/
def withPicture (bufs : ItemBufs) (url filename : Bytes) : ItemBufs :=
  { bufs with
    picurl := padTo picUrlLen (pictureUrl url filename)
    getIpBuf := overwrite (ipText url) bufs.getIpBuf
    suffix := overwrite (suffixText filename) bufs.suffix
    picName := overwrite (suffixText filename ++ lit ".png") bufs.picName }

section Picture

variable {bufs : ItemBufs} {url filename : Bytes}

theorem buildPicurl_eq (sized : Sized bufs) (urlHolds : strAt bufs.url 0 = .ok url)
    (filenameHolds : strAt bufs.filename 0 = .ok filename) :
    buildPicurl bufs =
      if PictureFits url filename then .ok (withPicture bufs url filename)
      else .error .writeOutside := by
  have ipFree := ipText_nulFree (strAt_nulFree urlHolds)
  have suffixFree := suffixText_nulFree (strAt_nulFree filenameHolds)
  have pngFree : 0 ∉ suffixText filename ++ lit ".png" := by
    rw [List.mem_append, not_or]
    exact ⟨suffixFree, by decide⟩
  have pathFree : 0 ∉ ipText url ++ pngPath := by
    rw [List.mem_append, not_or]
    exact ⟨ipFree, by decide⟩
  have pathHolds : strAt (lit "/static/file_png/" ++ [0]) 0 = .ok pngPath := by decide
  have cleared : memset bufs.picurl 0 0 picUrlLen = .ok (zeros picUrlLen) :=
    memset_whole bufs.picurl 0 sized.picurl
  -- each text fits when the whole url and the name of the picture do
  have lengths : picNameLen = suffixLen + 2 ∧ (lit ".png").length = 4 := by decide
  have parts : (pictureUrl url filename).length = (ipText url).length + pngPath.length +
      (suffixText filename ++ lit ".png").length := by
    simp only [pictureUrl, List.length_append]
  unfold buildPicurl
  rw [cleared, ok_bind, getIpUrl_eq urlHolds, sized.getIpBuf]
  refine bounded_bind (fun ipFits => ?_) fun fits => by have := fits.2; omega
  have ipHolds := strAt_overwrite ipFree bufs.getIpBuf
  have withIp := strcat_padTo List.not_mem_nil (show ([] : Bytes).length < picUrlLen by decide) ipHolds
  rw [padTo_nil, List.nil_append] at withIp
  simp only []
  rw [withIp, if_pos ipFits, ok_bind, strcat_padTo ipFree ipFits pathHolds, List.length_append]
  refine bounded_bind (fun pathFits => ?_) fun fits => by have := fits.2; omega
  rw [getFileSuffix_overwrite filenameHolds, sized.suffix]
  refine bounded_bind (fun suffixFits => ?_) fun fits => by
    have := fits.1
    rw [List.length_append] at this
    omega
  have suffixHolds := strAt_overwrite suffixFree bufs.suffix
  simp only []
  rw [printPicName_eq suffixHolds, sized.picName]
  refine bounded_bind (fun nameFits => ?_) fun fits => fits.1
  have nameHolds := strAt_overwrite pngFree bufs.picName
  rw [strcat_padTo pathFree (by rwa [List.length_append]) nameHolds]
  exact bounded_bind (fun wholeFits => (if_pos ⟨nameFits, wholeFits⟩).symm) fun fits => fits.2

theorem withPicture_sized (sized : Sized bufs) (fits : PictureFits url filename) :
    Sized (withPicture bufs url filename) := by
  have lengths : picNameLen = suffixLen + 2 ∧ (lit ".png").length = 4 := by decide
  obtain ⟨nameFits, urlFits⟩ := fits
  have ipFits : (ipText url).length < picUrlLen := by
    rw [pictureUrl, List.length_append, List.length_append] at urlFits
    omega
  have suffixFits : (suffixText filename).length < suffixLen := by
    rw [List.length_append] at nameFits
    omega
  exact { sized with
    picurl := padTo_length _ _ urlFits.le
    getIpBuf := (overwrite_length (by rwa [sized.getIpBuf])).trans sized.getIpBuf
    suffix := (overwrite_length (by rwa [sized.suffix])).trans sized.suffix
    picName := (overwrite_length (by rwa [sized.picName])).trans sized.picName }

theorem pictureUrl_nulFree (urlFree : 0 ∉ url) (filenameFree : 0 ∉ filename) :
    0 ∉ pictureUrl url filename := by
  have pathFree : 0 ∉ pngPath ∧ 0 ∉ lit ".png" := by decide
  simp only [pictureUrl, List.mem_append, not_or]
  exact ⟨⟨ipText_nulFree urlFree, pathFree.1⟩, suffixText_nulFree filenameFree, pathFree.2⟩

end Picture

/-! ## A row -/

section Row

variable {values record : Bytes} {i : Nat} {bufs : ItemBufs}

/-- A field of the row is that of its record, whatever the buffer held. -/
theorem readField_eq (row : strAt values (i * valuesIdSize) = .ok record) (wordNum : Int)
    {buffer : Bytes} {size : Nat} (sized : buffer.length = size) :
    readField values i wordNum buffer size =
      decodeText record wordNum (zeros size) (valuesIdSize - 1) := by
  have cleared : memset buffer 0 0 size = .ok (zeros size) := memset_whole buffer 0 sized
  unfold readField
  rw [cleared, ok_bind, getValueByRedis_eq,
    getField_eq_decodeText wordNum _ row (by decide) (by decide)]
  cases decodeText record wordNum (zeros size) (valuesIdSize - 1) <;> rfl

/-- A field of a record as it is shown. -/
def fieldText (record : Bytes) (wordNum : Int) (size : Nat) : C Bytes := do
  let value ← decodeText record wordNum (zeros size) (valuesIdSize - 1)
  strAt value 0

/-- The item of a record but for its score. -/
def itemTexts (record : Bytes) : C Item := do
  let id ← fieldText record 1 256
  let titleM ← fieldText record 3 256
  let titleS ← fieldText record 5 128
  let descrip ← fieldText record 4 64
  let url ← fieldText record 2 256
  if PictureFits url titleM then
    return ⟨id, 2, titleM, titleS, descrip, url, pictureUrl url titleM, 0, 0⟩
  else .error .writeOutside

/-- The item of a record, with the score of its file id. -/
def showRecord (record : Bytes) : Code Item := do
  let item ← ofC (itemTexts record)
  let score ← ropZsetGetScore fileHotZset (item.id ++ [0])
  let pv ← ofC (checkInt (score - 1))
  return { item with pv }

theorem ropZsetGetScore_of_strAt (zset : Bytes) {memory member : Bytes}
    (holds : strAt memory 0 = .ok member) :
    ropZsetGetScore zset memory = ropZsetGetScore zset (member ++ [0]) := by
  have literal : strAt (member ++ [0]) 0 = .ok member :=
    strAt_append [] member [] (strAt_nulFree holds)
  unfold ropZsetGetScore
  rw [holds, literal]

/-- A row is read into the item of its record, whatever the buffers held. -/
theorem readItem_bind {β : Type} (row : strAt values (i * valuesIdSize) = .ok record)
    (sized : Sized bufs) {first : Item × ItemBufs → Code β} {second : Item → Code β}
    (same : ∀ item next, Sized next → first (item, next) = second item) :
    (readItem values i bufs >>= first) = (showRecord record >>= second) := by
  have fileIds : readField values i 1 bufs.fileId 256 = _ := readField_eq row 1 sized.fileId
  have filenames : readField values i 3 bufs.filename 256 = _ := readField_eq row 3 sized.filename
  have usrs : readField values i 5 bufs.usr 128 = _ := readField_eq row 5 sized.usr
  have createTimes : readField values i 4 bufs.createTime 64 = _ :=
    readField_eq row 4 sized.createTime
  have urls : readField values i 2 bufs.url 256 = _ := readField_eq row 2 sized.url
  unfold readItem showRecord itemTexts fieldText
  simp only [Prog.bind_bind, ofC_bind, fileIds, filenames, usrs, createTimes, urls]
  apply ofC_bind_congr
  intro fileId fileIdRead
  apply ofC_bind_congr
  intro id idHolds
  apply ofC_bind_congr
  intro filename filenameRead
  apply ofC_bind_congr
  intro titleM filenameHolds
  apply ofC_bind_congr
  intro usr usrRead
  apply ofC_bind_congr
  intro titleS _
  apply ofC_bind_congr
  intro createTime createTimeRead
  apply ofC_bind_congr
  intro descrip _
  apply ofC_bind_congr
  intro url urlRead
  apply ofC_bind_congr
  intro urlText urlHolds
  -- what the row before left is only behind the NULs of the texts of the picture
  have filled : Sized { bufs with fileId, filename, usr, createTime, url } :=
    { sized with
      fileId := (decodeText_length fileIdRead).trans (zeros_length _)
      filename := (decodeText_length filenameRead).trans (zeros_length _)
      usr := (decodeText_length usrRead).trans (zeros_length _)
      createTime := (decodeText_length createTimeRead).trans (zeros_length _)
      url := (decodeText_length urlRead).trans (zeros_length _) }
  rw [buildPicurl_eq filled urlHolds filenameHolds]
  by_cases fits : PictureFits urlText titleM
  · have pictureHolds : strAt (padTo picUrlLen (pictureUrl urlText titleM)) 0 =
        .ok (pictureUrl urlText titleM) :=
      strAt_padTo (pictureUrl_nulFree (strAt_nulFree urlHolds) (strAt_nulFree filenameHolds)) fits.2
    have next := fun item => same item _ (withPicture_sized filled fits)
    rw [if_pos fits, if_pos fits, ropZsetGetScore_of_strAt fileHotZset idHolds]
    simp only [ofC_ok, Prog.pure_eq, pure_eq_ok, Prog.ret_bind, next]
    rw [withPicture, pictureHolds]
    rfl
  · rw [if_neg fits, if_neg fits]
    rfl

end Row

/-! ## The page -/

/-- A record read alone into cleared buffers. -/
def renderRecord (record : Bytes) : Code Item := do
  let (item, _) ← readItem (record ++ [0]) 0 .cleared
  return item

def renderRecords : List Bytes → Code (List Item)
  | [] => return []
  | record :: rest => do
      let item ← renderRecord record
      let items ← renderRecords rest
      return item :: items

theorem renderRecord_eq {record : Bytes} (nulFree : 0 ∉ record) :
    renderRecord record = showRecord record := by
  have row : strAt (record ++ [0]) (0 * valuesIdSize) = .ok record := by
    rw [Nat.zero_mul]
    exact strAt_append [] record [] nulFree
  have shown : (showRecord record >>= fun item => (pure item : Code Item)) = showRecord record :=
    Prog.bind_ret _
  unfold renderRecord
  rw [← shown]
  exact readItem_bind row sized_cleared fun item next _ => rfl

/-- The rows of `values` from row `i` on hold the records. -/
def HoldsFrom (values : Bytes) (i : Nat) (records : List Bytes) : Prop :=
  ∀ k record, records[k]? = some record → strAt values ((i + k) * valuesIdSize) = .ok record

theorem HoldsFrom.nil {values : Bytes} {i : Nat} : HoldsFrom values i [] := nofun

theorem HoldsFrom.cons {values record : Bytes} {i : Nat} {rest : List Bytes}
    (row : strAt values (i * valuesIdSize) = .ok record) (rows : HoldsFrom values (i + 1) rest) :
    HoldsFrom values i (record :: rest) := by
  intro k other here
  cases k with
  | zero =>
      cases here
      rwa [Nat.add_zero]
  | succ k =>
      rw [Nat.add_comm k, ← Nat.add_assoc]
      exact rows k other here

theorem HoldsFrom.first {values record : Bytes} {i : Nat} {rest : List Bytes}
    (rows : HoldsFrom values i (record :: rest)) :
    strAt values (i * valuesIdSize) = .ok record := by
  have row := rows 0 record rfl
  rwa [Nat.add_zero] at row

theorem HoldsFrom.later {values record : Bytes} {i : Nat} {rest : List Bytes}
    (rows : HoldsFrom values i (record :: rest)) : HoldsFrom values (i + 1) rest := by
  intro k other here
  rw [Nat.add_right_comm, Nat.add_assoc]
  exact rows (k + 1) other here

theorem readItems_eq {values : Bytes} {i : Nat} {records : List Bytes} {bufs : ItemBufs}
    (rows : HoldsFrom values i records) (sized : Sized bufs) :
    readItems (some values) records.length i bufs = renderRecords records := by
  induction records generalizing i bufs with
  | nil => rfl
  | cons record rest inductionHypothesis =>
      have row := rows.first
      have memory : ofC (present (some values)) = .ret values := rfl
      unfold renderRecords
      rw [List.length_cons, readItems, memory, Prog.ret_bind,
        renderRecord_eq (strAt_nulFree row)]
      apply readItem_bind row sized
      intro item next nextSized
      simp only [inductionHypothesis rows.later nextSized]

/-- The items of a page are those of its records, each read alone into cleared
buffers, and such an item is made of the texts of its record and the score of
its file id. -/
theorem readItems_isolated {values : Bytes} {i : Nat} {records : List Bytes} {bufs : ItemBufs}
    (rows : HoldsFrom values i records) (sized : Sized bufs) :
    readItems (some values) records.length i bufs = renderRecords records ∧
      ∀ record ∈ records, renderRecord record = showRecord record := by
  refine ⟨readItems_eq rows sized, ?_⟩
  intro record member
  obtain ⟨k, here⟩ := List.getElem?_of_mem member
  exact renderRecord_eq (strAt_nulFree (rows k record here))

def longRecord : Bytes :=
  lit "g1/a||http://h/group1/a||holiday.jpeg||2016-09-08 10-00:00||user||jpeg"

def shortRecord : Bytes := lit "g1/b||http://h/group1/b||b.c||2016-09-08 10-00:01||user||c"

theorem readItems_isolated_two :
    readItems (some (padTo valuesIdSize longRecord ++ padTo valuesIdSize shortRecord))
        [longRecord, shortRecord].length 0 .cleared = renderRecords [longRecord, shortRecord] ∧
      ∀ record ∈ [longRecord, shortRecord], renderRecord record = showRecord record := by
  have first : strAt (padTo valuesIdSize longRecord ++ padTo valuesIdSize shortRecord)
      (0 * valuesIdSize) = .ok longRecord := by decide +kernel
  have second : strAt (padTo valuesIdSize longRecord ++ padTo valuesIdSize shortRecord)
      ((0 + 1) * valuesIdSize) = .ok shortRecord := by decide +kernel
  exact readItems_isolated (.cons first (.cons second .nil)) sized_cleared

end DistStore.RowIsolation

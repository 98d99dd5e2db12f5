import DistStore.Counters
import DistStore.LogMessages
import DistStore.Lib.Rely

/-!
# The catalogue behind the two keys

What the programs keep in Redis is a catalogue: the uploaded files, the newest
first, and how often each was counted.  The executions of `write_redis` and
`increase_file_pv` change it one entry at a time, and an execution of
`read_redis_to_json` that runs among them shows a page of the catalogue as it
was at one moment, with counts that were read later.
-/

set_option autoImplicit false

namespace DistStore.Listing

open CMemory ListSearch Program Environment RedisOp RedisStore Record Trim WriteRedis DataUse
open Delimiters RowIsolation PageRows Paging LogMessages
open Counters (server countFile listCalls smallTime)

/-! ## Files and catalogues -/

/-- Records whose fields the reader gives back in its buffers. -/
structure Listable (info : FileInfo) : Prop where
  decodable : info.Decodable
  nulFree : 0 ∉ info.record
  fileIdFits : info.fileId.length < 256
  urlFits : info.url.length < 256
  filenameFits : info.filename.length < 256
  createTimeFits : info.createTime.length < 64
  userFits : info.user.length < 128
  pictureFits : PictureFits info.url info.filename
  recordFits : info.record.length < valuesIdSize - 1

structure File where
  info : FileInfo
  listable : Listable info

structure Catalogue where
  files : List File
  hits : Bytes → Nat

/-- Files are only put in front, and counts only grow. -/
instance : Preorder Catalogue where
  le earlier later := earlier.files <:+ later.files ∧ ∀ id, earlier.hits id ≤ later.hits id
  le_refl catalogue := ⟨List.suffix_rfl, fun _ => le_rfl⟩
  le_trans _ _ _ first second :=
    ⟨first.1.trans second.1, fun id => (first.2 id).trans (second.2 id)⟩

def Catalogue.upload (catalogue : Catalogue) (file : File) : Catalogue :=
  { catalogue with files := file :: catalogue.files }

def Catalogue.count (catalogue : Catalogue) (id : Bytes) : Catalogue :=
  { catalogue with hits := Function.update catalogue.hits id (catalogue.hits id + 1) }

theorem le_upload (catalogue : Catalogue) (file : File) : catalogue ≤ catalogue.upload file :=
  ⟨List.suffix_cons _ _, fun _ => le_rfl⟩

theorem le_count (catalogue : Catalogue) (id : Bytes) : catalogue ≤ catalogue.count id := by
  refine ⟨List.suffix_rfl, fun other => ?_⟩
  by_cases same : other = id
  · subst same
    simp [Catalogue.count]
  · simp [Catalogue.count, Function.update_of_ne same]

/-- The files of a page. -/
def Catalogue.page (catalogue : Catalogue) (fromId cnt : Int) : List File :=
  let range := lrange catalogue.files fromId (fromId + cnt - 1)
  range.take (maxCount range.length (fromId + cnt - 1)).toNat

/-- What a file is shown as, but for its counter. -/
def File.item (file : File) (pv : Int) : Item where
  id := file.info.fileId
  kind := 2
  titleM := file.info.filename
  titleS := file.info.user
  descrip := file.info.createTime
  url := file.info.url
  picurlM := pictureUrl file.info.url file.info.filename
  pv := pv
  hot := 0

/-- The score of a file that was counted `hits` times, as it is read from a
reply; a file that is not in the set has none. -/
def scoreRead (hits : Nat) : Int := if hits = 0 then -1 else atoi (decimal hits)

/-- The item shows a count that was right between the two moments. -/
def Shows (moment now : Catalogue) (file : File) (item : Item) : Prop :=
  ∃ hits, moment.hits file.info.fileId ≤ hits ∧ hits ≤ now.hits file.info.fileId ∧
    item = file.item (scoreRead hits - 1)

/-! ## The catalogue in Redis -/

structure Represents (store : Store) (catalogue : Catalogue) : Prop where
  files : store.lists fileInfoList = catalogue.files.map fun file => file.info.record
  hits : ∀ id, store.scores fileHotZset id =
    if catalogue.hits id = 0 then none else some (catalogue.hits id : Int)

/-- The store has gone from one catalogue to a later one. -/
def Grows (store store' : Store) : Prop :=
  ∀ catalogue, Represents store catalogue → ∃ later, Represents store' later ∧ catalogue ≤ later

instance : Std.Refl Grows := ⟨fun _ catalogue represents => ⟨catalogue, represents, le_rfl⟩⟩

instance : IsTrans Store Grows where
  trans _ _ _ first second catalogue represents := by
    obtain ⟨middle, isMiddle, before⟩ := first catalogue represents
    obtain ⟨later, isLater, after⟩ := second middle isMiddle
    exact ⟨later, isLater, before.trans after⟩

section Commands

variable {store : Store}

theorem represents_empty : Represents empty ⟨[], fun _ => 0⟩ := ⟨rfl, fun _ => rfl⟩

theorem represents_push {catalogue : Catalogue} (represents : Represents store catalogue)
    (file : File) :
    Represents (store.push fileInfoList file.info.record) (catalogue.upload file) where
  files := by
    rw [push_lists_same, represents.files]
    rfl
  hits := represents.hits

theorem score_of_represents {catalogue : Catalogue} (represents : Represents store catalogue)
    (id : Bytes) : store.score fileHotZset id = catalogue.hits id := by
  unfold Store.score
  rw [represents.hits]
  split
  next none =>
    rw [none]
    rfl
  next => rfl

theorem represents_increment {catalogue : Catalogue} (represents : Represents store catalogue)
    (id : Bytes) : Represents (store.increment fileHotZset id) (catalogue.count id) where
  files := represents.files
  hits := by
    intro other
    by_cases same : other = id
    · subst same
      have counted : (catalogue.count other).hits other = catalogue.hits other + 1 :=
        Function.update_self _ _ _
      have incremented : (store.increment fileHotZset other).scores fileHotZset other =
          some (store.score fileHotZset other + 1) := by simp [Store.increment]
      rw [counted, incremented, score_of_represents represents, if_neg (Nat.succ_ne_zero _)]
      rfl
    · have kept : (catalogue.count id).hits other = catalogue.hits other :=
        Function.update_of_ne same _ _
      rw [kept, increment_scores_other _ _ _ same]
      exact represents.hits other

theorem grows_push (store : Store) (file : File) :
    Grows store (store.push fileInfoList file.info.record) :=
  fun catalogue represents => ⟨_, represents_push represents file, le_upload catalogue file⟩

theorem grows_increment (store : Store) (id : Bytes) :
    Grows store (store.increment fileHotZset id) :=
  fun catalogue represents => ⟨_, represents_increment represents id, le_count catalogue id⟩

end Commands

/-! ## Executions -/

/-- What `strftime` writes for the format of `write_redis`. -/
structure ClockText (text : Bytes) : Prop where
  pipeFree : 124 ∉ text
  visible : ∃ byte ∈ text, isspace byte = false

/-- How a call is answered. -/
def Serves (store : Store) : (call : Call) → Answer call → Store → Prop
  | .strftime _ _, now, store' => ClockText now.val ∧ store' = store
  | call, answer, store' => Counters.Serves store call answer store'

/-- Strings of which `write_redis` makes a listable record at any time: a
create time has at most 63 bytes. -/
structure Recordable (fileId url filename usr : Bytes) : Prop where
  pipeFree : ∀ text ∈ [fileId, url, filename, usr], 124 ∉ text
  urlNonempty : url ≠ []
  filenameNonempty : filename ≠ []
  fileIdFits : fileId.length < 256
  urlFits : url.length < 256
  filenameFits : filename.length < 256
  usrFits : usr.length < 128
  suffixFits : (suffixText filename).length < suffixLen
  pictureFits : PictureFits url filename
  recordFits : fileId.length + url.length + filename.length + usr.length + suffixLen +
    timeStringLen + 10 < valuesIdSize

/-- One execution of a function of the two programs. -/
inductive Job where
  | write (fileId url filename usr : CString)
  | click (fileId : CString)
  | page (fromId cnt : Int)

namespace Job

/-- The items a page shows. -/
def program : Job → Code (Option (List Item))
  | write fileId url filename usr => do
      let _ ← writeRedis fileId.memory url.memory filename.memory usr.memory
      return none
  | click fileId => do
      let _ ← increaseFilePv fileId.memory
      return none
  | page fromId cnt => do
      let (_, items) ← readRedisToJson fromId cnt
      return items

def Valid : Job → Prop
  | write fileId url filename usr => Recordable fileId.text url.text filename.text usr.text
  | click _ => True
  | page _ _ => True

end Job

/-- The runs of the executions `jobs` on a server that begins with `store`. -/
def Reachable (store : Store) (jobs : List Job)
    (pool : Pool Store interface Stop (Option (List Item))) : Prop :=
  Pool.Reachable Serves (.start store (jobs.map Job.program)) pool

/-! ## What is uploaded -/

theorem uploadInfo_listable {fileId url filename usr : CString}
    (recordable : Recordable fileId.text url.text filename.text usr.text)
    (now : CText timeStringLen) (clock : ClockText now.val) :
    Listable (uploadInfo fileId.text url.text filename.text (trimText now.val) usr.text) := by
  obtain ⟨pipeFree, urlNonempty, filenameNonempty, fileIdFits, urlFits, filenameFits, usrFits,
    suffixFits, pictureFits, recordFits⟩ := recordable
  simp only [List.forall_mem_cons] at pipeFree
  obtain ⟨fileIdPipes, urlPipes, filenamePipes, usrPipes, -⟩ := pipeFree
  have timePipes : 124 ∉ trimText now.val := fun member =>
    clock.pipeFree ((List.dropWhile_suffix _).subset ((trimText_front now.val).subset member))
  have timeNonempty : trimText now.val ≠ [] := by
    intro blank
    obtain ⟨byte, member, visible⟩ := clock.visible
    rw [(trimText_eq_nil_iff _).mp blank byte member] at visible
    cases visible
  have timeFits : (trimText now.val).length ≤ 63 := (trimText_length_le _).trans now.property.2
  have typePipes : 124 ∉ suffixText filename.text := by
    rcases suffixText_cases filename.text with named | part
    · rw [named]
      decide
    · exact fun member => filenamePipes (part.subset member)
  refine ⟨⟨?_, ?_, urlNonempty, filenameNonempty, timeNonempty⟩, ?_, fileIdFits, urlFits,
    filenameFits, by simpa [uploadInfo] using Nat.lt_succ_of_le timeFits, usrFits, pictureFits, ?_⟩
  · simp only [List.forall_mem_cons, uploadInfo]
    exact ⟨clean_of_pipeFree fileIdPipes, clean_of_pipeFree urlPipes,
      clean_of_pipeFree filenamePipes, clean_of_pipeFree timePipes, clean_of_pipeFree usrPipes, List.forall_mem_nil _⟩
  · intro occurs
    exact typePipes (occurs.subset (by decide))
  · exact uploadInfo_nulFree (strAt_nulFree fileId.holds) (strAt_nulFree url.holds)
      (strAt_nulFree filename.holds) (trimText_nulFree now.property.1) (strAt_nulFree usr.holds)
  · have keyLength : key.length = 2 := rfl
    have sizes : suffixLen = 8 ∧ timeStringLen = 64 ∧ valuesIdSize = 1024 := by decide
    rw [FileInfo.record_eq]
    simp only [uploadInfo, List.length_append, keyLength]
    omega

/-! ## What is shown -/

theorem fieldText_record {info : FileInfo} (listable : Listable info) (k : Fin 6) {size : Nat}
    (fits : (info.fields.get k).length < size) (lower : 10 ≤ size) (upper : size ≤ 256) :
    fieldText info.record (k + 1) size = .ok (info.fields.get k) := by
  have row : (256 : Int) ≤ valuesIdSize - 1 := by decide
  have holds : strAt (info.record ++ [0]) 0 = .ok info.record :=
    strAt_append [] _ [] listable.nulFree
  have fieldFree : 0 ∉ info.fields.get k := fun member =>
    listable.nulFree ((FileInfo.infix_joinFields (List.get_mem _ _)).subset member)
  have decoded := FileInfo.getValueByRedis_decodable listable.decodable holds k
    (show IsInt (valuesIdSize - 1) by decide) (by omega) fits lower
  rw [getValueByRedis_eq, getField_eq_decodeText _ _ holds (by decide) (by decide)] at decoded
  obtain ⟨value, written, same⟩ := (bind_eq_ok_iff _ _ _).mp decoded
  cases same
  unfold fieldText
  rw [written, ok_bind, strAt_padTo fieldFree fits]

/-- A record is read as the file it was made of. -/
theorem itemTexts_file (file : File) : itemTexts file.info.record = .ok (file.item 0) := by
  obtain ⟨info, listable⟩ := file
  have one : fieldText info.record 1 256 = .ok info.fileId :=
    fieldText_record listable 0 listable.fileIdFits (by decide) le_rfl
  have two : fieldText info.record 2 256 = .ok info.url :=
    fieldText_record listable 1 listable.urlFits (by decide) le_rfl
  have three : fieldText info.record 3 256 = .ok info.filename :=
    fieldText_record listable 2 listable.filenameFits (by decide) le_rfl
  have four : fieldText info.record 4 64 = .ok info.createTime :=
    fieldText_record listable 3 listable.createTimeFits (by decide) (by decide)
  have five : fieldText info.record 5 128 = .ok info.user :=
    fieldText_record listable 4 listable.userFits (by decide) (by decide)
  unfold itemTexts
  simp only [one, two, three, four, five, ok_bind, if_pos listable.pictureFits]
  rfl

/-! ## Executions among others -/

section Rules

variable {α β : Type} {post : α → Store → Prop} {seen : Store → Prop} {store : Store}

theorem upholds_ofC_bind {computation : C β} {continue_ : β → Code α}
    (continued : ∀ value, computation = .ok value →
      (continue_ value).Upholds (Within seen Serves) Grows post store) :
    (ofC computation >>= continue_).Upholds (Within seen Serves) Grows post store := by
  cases computation with
  | ok value => exact continued value rfl
  | error fault => exact Prog.upholds_stop _

theorem upholds_ofC {computation : C α}
    (made : ∀ value, computation = .ok value → ∀ store', Grows store store' → post value store') :
    (ofC computation).Upholds (Within seen Serves) Grows post store := by
  cases computation with
  | ok value => exact Prog.upholds_ret (made value rfl)
  | error fault => exact Prog.upholds_stop _

/-- A call that leaves the store alone. -/
theorem upholds_ask_bind {call : Call} {continue_ : Answer call → Code α}
    (silent : ∀ store answer store', Serves store call answer store' →
      Counters.Available call answer ∧ store' = store)
    (continued : ∀ store', Grows store store' → ∀ answer, Counters.Available call answer →
      (continue_ answer).Upholds (Within seen Serves) Grows post store') :
    (ask call >>= continue_).Upholds (Within seen Serves) Grows post store := by
  refine Prog.upholds_call (I := interface) fun store' grown answer store'' served => ?_
  obtain ⟨available, rfl⟩ := silent store' answer store'' served.2
  exact ⟨refl _, continued _ grown answer available⟩

theorem upholds_connect_bind {caller : Func} {continue_ : Bool → Code α}
    (continued : ∀ store', Grows store store' →
      (continue_ true).Upholds (Within seen Serves) Grows post store') :
    (ropConnectdbNopwd caller >>= continue_).Upholds (Within seen Serves) Grows post store := by
  refine upholds_ask_bind (fun _ _ _ served => served) fun store' grown connection isOk => ?_
  cases isOk
  exact continued store' grown

/-- A command of an execution keeps the store a catalogue. -/
theorem upholds_command_bind {command : Command} {continue_ : Option Reply → Code α}
    (continued : ∀ store', Grows store store' → seen store' →
      Grows store' (store'.serve command).2 ∧
        (continue_ (some (store'.serve command).1)).Upholds (Within seen Serves) Grows post
          (store'.serve command).2) :
    (ask (.redisCommand command) >>= continue_).Upholds (Within seen Serves) Grows post store := by
  refine Prog.upholds_call (I := interface) fun store' grown answer store'' served => ?_
  obtain ⟨met, rfl, rfl⟩ := served
  exact continued store' grown met

end Rules

section Executions

variable {seen : Store → Prop} {store : Store}

theorem ropZsetIncrement_upholds (fileId : CString) (store : Store) :
    (ropZsetIncrement fileHotZset fileId.memory).Upholds (Within seen Serves) Grows
      (fun _ _ => True) store := by
  unfold ropZsetIncrement
  rw [fileId.holds, ofC_ok, Prog.ret_bind]
  refine upholds_command_bind fun store' _ _ => ⟨grows_increment store' _, ?_⟩
  refine upholds_ofC_bind fun reply _ => upholds_ofC_bind fun str _ => ?_
  split <;> exact Prog.upholds_ret fun _ _ => trivial

theorem disconnect_upholds (caller : Func) (store : Store) :
    (ropDisconnect caller).Upholds (Within seen Serves) Grows (fun _ _ => True) store :=
  Prog.upholds_call (I := interface) fun _ _ _ _ served =>
    ⟨served.2.2 ▸ refl _, fun _ _ => trivial⟩

theorem increaseFilePv_upholds (fileId : CString) (store : Store) :
    (increaseFilePv fileId.memory).Upholds (Within seen Serves) Grows (fun _ _ => True) store := by
  refine upholds_connect_bind fun store' _ => ?_
  refine (ropZsetIncrement_upholds fileId store').bind fun _ store _ => ?_
  exact (disconnect_upholds _ store).bind fun _ _ _ => Prog.upholds_ret fun _ _ => trivial

theorem pushRecord_upholds (file : File) (fileId : CString) (store : Store) :
    (pushRecord file.info.record fileId.memory).Upholds (Within seen Serves) Grows
      (fun _ _ => True) store := by
  have whole : file.info.record.length < valuesIdSize :=
    file.listable.recordFits.trans_le (Nat.sub_le _ _)
  have pushed : (ropListPush fileInfoList (padTo valuesIdSize file.info.record)).Upholds
      (Within seen Serves) Grows (fun _ _ => True) store := by
    unfold ropListPush
    rw [strAt_padTo file.listable.nulFree whole, ofC_ok, Prog.ret_bind]
    refine upholds_command_bind fun store' _ _ => ⟨grows_push store' file, ?_⟩
    refine upholds_ofC_bind fun reply _ => ?_
    split <;> exact Prog.upholds_ret fun _ _ => trivial
  refine pushed.bind fun _ store _ => ?_
  refine (ropZsetIncrement_upholds fileId store).bind fun _ store _ => ?_
  exact (disconnect_upholds _ store).bind fun _ _ _ => Prog.upholds_ret fun _ _ => trivial

theorem writeRedis_upholds {fileId url filename usr : CString}
    (recordable : Recordable fileId.text url.text filename.text usr.text) (store : Store) :
    (writeRedis fileId.memory url.memory filename.memory usr.memory).Upholds (Within seen Serves) Grows
      (fun _ _ => True) store := by
  rw [writeRedis_eq fileId.holds url.holds filename.holds usr.holds]
  refine upholds_connect_bind fun store' _ => ?_
  refine upholds_ask_bind (fun _ _ _ served => served) fun store' _ block allocated => ?_
  cases block with
  | none => exact absurd rfl allocated
  | some block =>
      dsimp only
      split
      · refine Prog.upholds_call (I := interface) fun store' _ now store'' served => ?_
        obtain ⟨-, clock, rfl⟩ := served
        refine ⟨refl _, ?_⟩
        refine upholds_ask_bind (fun _ _ _ served => served) fun store' _ before _ => ?_
        split
        · exact pushRecord_upholds ⟨_, uploadInfo_listable recordable now clock⟩ fileId store'
        · exact Prog.upholds_stop _
      · exact Prog.upholds_stop _

end Executions

/-! ## A page among others -/

section Page

variable {seen : Store → Prop} {moment : Catalogue} {store : Store}

/-- The catalogue is that of a store of `seen`. -/
def Met (seen : Store → Prop) (catalogue : Catalogue) : Prop :=
  ∃ store, seen store ∧ Represents store catalogue

/-- The store holds a catalogue that is not before `moment`. -/
def Since (moment : Catalogue) (store : Store) : Prop :=
  ∃ now, Represents store now ∧ moment ≤ now

theorem Since.grow {store' : Store} (since : Since moment store) (grown : Grows store store') :
    Since moment store' := by
  obtain ⟨now, represents, after⟩ := since
  obtain ⟨later, isLater, grows⟩ := grown now represents
  exact ⟨later, isLater, after.trans grows⟩

/-- The rows of a page are the records of its files, of the moment when they
were read. -/
def PageRead (seen : Store → Prop) (origin : Catalogue) (fromId cnt : Int)
    (result : Int × Option Bytes × Int) (store : Store) : Prop :=
  ∃ moment filled valueNum, Met seen moment ∧ origin ≤ moment ∧ Since moment store ∧
    result = (0, some filled, valueNum) ∧ rowTexts (some filled) valueNum.toNat 0 =
      .ok ((moment.page fromId cnt).map fun file => file.info.record)

/-- The list of a catalogue as Redis returns it. -/
def Catalogue.entries (catalogue : Catalogue) : List Entry :=
  catalogue.files.map fun file => ⟨file.info.record, file.listable.nulFree, file.listable.recordFits⟩

theorem pageRecords_entries (catalogue : Catalogue) (fromId cnt : Int) :
    pageRecords catalogue.entries fromId cnt =
      (catalogue.page fromId cnt).map fun file => file.info.record := by
  simp only [pageRecords, Catalogue.entries, Catalogue.page, lrange_map, List.length_map,
    ← List.map_take, List.map_map]
  rfl

/-- What `rop_range_list` makes of a reply. -/
def rangeRows (reply : Reply) (count : Int) (values : Option Bytes) : C (Int × Option Bytes × Int) := do
  let retn : Int := match reply with
    | .array _ => 0
    | _ => -1
  let elements := reply.element.length
  let maxCount : Int := if elements > toSize count then count else toInt elements
  let filled ← copyRows reply.element maxCount.toNat 0 values
  return (retn, filled, maxCount)

theorem ropRangeList_rows (list : Bytes) (fromPos count : Int) (values : Option Bytes) :
    ropRangeList list fromPos count values = (do
      let reply ← ofC (present (← ask (.redisCommand (.lrange list fromPos count))))
      ofC (rangeRows reply count values)) := by
  unfold ropRangeList rangeRows
  simp only [ofC_bind]
  rfl

theorem ropRangeList_upholds (since : Since moment store) {fromId cnt : Int}
    (isInt : IsInt (fromId + cnt - 1)) {memory : Bytes} {rows : Nat}
    (size : memory.length = rows * valuesIdSize) :
    (ropRangeList fileInfoList fromId (fromId + cnt - 1) (some memory)).Upholds
      (Within seen Serves) Grows (PageRead seen moment fromId cnt) store := by
  rw [ropRangeList_rows]
  refine upholds_command_bind fun store' grown met => ⟨refl _, ?_⟩
  obtain ⟨now, represents, after⟩ := since.grow grown
  have answered : some (store'.serve (.lrange fileInfoList fromId (fromId + cnt - 1))).1 =
      listServer now.entries (.redisCommand (.lrange fileInfoList fromId (fromId + cnt - 1))) := by
    have same : now.entries.map Subtype.val = store'.lists fileInfoList := by
      rw [represents.files, Catalogue.entries, List.map_map]
      rfl
    rw [(listServer_holds now.entries).answered, same]
    rfl
  rw [answered]
  refine upholds_ofC_bind fun reply found => upholds_ofC fun result made => ?_
  -- the rest makes no calls, so it goes as it would alone
  have returned : (ropRangeList fileInfoList fromId (fromId + cnt - 1) (some memory)).outcome
      (listServer now.entries) = .returned result := by
    rw [ropRangeList_rows, outcome_ask_bind, found, ofC_ok, Prog.ret_bind, made]
    rfl
  obtain ⟨block, valueNum, same, texts⟩ :=
    (ropRangeList_pageRecords (listServer_holds now.entries) isInt size).2 result returned
  intro later grows
  refine ⟨now, block, valueNum, ⟨store', met, represents⟩, after,
    Since.grow ⟨now, represents, le_rfl⟩ grows, same, ?_⟩
  rw [texts, pageRecords_entries]

theorem fetchValues_upholds (since : Since moment store) (fromId cnt : Int) :
    (fetchValues fromId cnt).Upholds (Within seen Serves) Grows (PageRead seen moment fromId cnt)
      store := by
  refine upholds_ofC_bind fun behind first => upholds_ofC_bind fun endId last => ?_
  obtain ⟨rfl, -⟩ := checkInt_eq_ok first
  obtain ⟨rfl, isInt⟩ := checkInt_eq_ok last
  refine upholds_connect_bind fun store' grown => upholds_ofC_bind fun size checked => ?_
  obtain ⟨rfl, -⟩ := checkInt_eq_ok checked
  refine upholds_ask_bind (fun _ _ _ served => served) fun store'' grows block allocated => ?_
  have whole : toSize (cnt * valuesIdSize) = (cnt % 2 ^ 54).toNat * valuesIdSize := by
    unfold toSize valuesIdSize
    omega
  obtain ⟨block, rfl⟩ := Option.ne_none_iff_exists'.mp allocated
  exact ropRangeList_upholds ((since.grow grown).grow grows) isInt (block.property.trans whole)

/-- The score of a file is read. -/
def ScoreRead (moment : Catalogue) (id : Bytes) (score : Int) (store : Store) : Prop :=
  ∃ now hits, Represents store now ∧ moment ≤ now ∧ moment.hits id ≤ hits ∧ hits ≤ now.hits id ∧
    score = scoreRead hits

theorem ropZsetGetScore_upholds (since : Since moment store) {memory id : Bytes}
    (holds : strAt memory 0 = .ok id) :
    (ropZsetGetScore fileHotZset memory).Upholds (Within seen Serves) Grows (ScoreRead moment id)
      store := by
  unfold ropZsetGetScore
  rw [holds, ofC_ok, Prog.ret_bind]
  refine upholds_command_bind fun store' grown _ => ⟨refl _, ?_⟩
  obtain ⟨now, represents, after⟩ := since.grow grown
  refine upholds_ofC_bind fun reply found => ?_
  cases present_eq_ok found
  have later : ∀ store'', Grows store' store'' → ScoreRead moment id (scoreRead (now.hits id)) store'' := by
    intro store'' grows
    obtain ⟨next, isNext, nextAfter⟩ := grows now represents
    exact ⟨next, now.hits id, isNext, after.trans nextAfter, after.2 id, nextAfter.2 id, rfl⟩
  unfold scoreRead at later
  simp only [Store.serve, represents.hits]
  split at later
  next none => 
    rw [if_pos none]
    exact Prog.upholds_ret later
  next some_ =>
    rw [if_neg some_]
    exact Prog.upholds_ret later

theorem Shows.mono {earlier now later : Catalogue} {file : File} {item : Item}
    (shows_ : Shows moment now file item) (before : earlier ≤ moment) (after : now ≤ later) :
    Shows earlier later file item := by
  obtain ⟨hits, lower, upper, same⟩ := shows_
  exact ⟨hits, (before.2 _).trans lower, upper.trans (after.2 _), same⟩

theorem showRecord_upholds (since : Since moment store) (file : File) :
    (showRecord file.info.record).Upholds (Within seen Serves) Grows
      (fun item store => ∃ now, Represents store now ∧ moment ≤ now ∧ Shows moment now file item)
      store := by
  have idFree : 0 ∉ file.info.fileId := fun member =>
    file.listable.nulFree ((FileInfo.infix_joinFields (by simp [FileInfo.fields])).subset member)
  unfold showRecord
  rw [itemTexts_file, ofC_ok, Prog.ret_bind]
  refine (ropZsetGetScore_upholds since (strAt_append [] _ [] idFree)).bind fun score store' read => ?_
  obtain ⟨now, hits, represents, after, lower, upper, rfl⟩ := read
  refine upholds_ofC_bind fun pv checked => Prog.upholds_ret fun store'' grows => ?_
  obtain ⟨rfl, -⟩ := checkInt_eq_ok checked
  obtain ⟨later, isLater, grown⟩ := grows now represents
  exact ⟨later, isLater, after.trans grown, hits, lower, upper.trans (grown.2 _), rfl⟩

/-- The items of the files of a page are read one after the other. -/
theorem renderRecords_upholds {base : Catalogue} (since : Since base store) (before : moment ≤ base)
    (files : List File) :
    (renderRecords (files.map fun file => file.info.record)).Upholds (Within seen Serves) Grows
      (fun items store => ∃ now, Represents store now ∧ base ≤ now ∧
        List.Forall₂ (Shows moment now) files items) store := by
  induction files generalizing base store with
  | nil =>
      refine Prog.upholds_ret fun store' grows => ?_
      obtain ⟨now, represents, after⟩ := since.grow grows
      exact ⟨now, represents, after, .nil⟩
  | cons file files inductionHypothesis =>
      rw [List.map_cons, renderRecords, renderRecord_eq file.listable.nulFree]
      refine (showRecord_upholds since file).bind fun item store' shown => ?_
      obtain ⟨now, represents, after, first⟩ := shown
      refine (inductionHypothesis ⟨now, represents, le_rfl⟩ (before.trans after)).bind ?_
      rintro items store'' ⟨later, isLater, grown, rest⟩
      refine Prog.upholds_ret fun final grows => ?_
      obtain ⟨last, isLast, behind⟩ := grows later isLater
      exact ⟨last, isLast, (after.trans grown).trans behind,
        .cons (first.mono before (grown.trans behind))
          (rest.imp fun _ _ each => each.mono le_rfl behind)⟩

/-- The items that are shown are those of a page of the catalogue. -/
def PageShown (seen : Store → Prop) (origin : Catalogue) (fromId cnt : Int)
    (items : Option (List Item)) (store : Store) : Prop :=
  ∀ shown, items = some shown → ∃ moment now, Met seen moment ∧ origin ≤ moment ∧ moment ≤ now ∧
    Represents store now ∧ List.Forall₂ (Shows moment now) (moment.page fromId cnt) shown

theorem PageShown.grow {origin : Catalogue} {fromId cnt : Int} {items : Option (List Item)}
    {store' : Store} (shown : PageShown seen origin fromId cnt items store)
    (grows : Grows store store') : PageShown seen origin fromId cnt items store' := by
  intro items' same
  obtain ⟨moment, now, met, after, grown, represents, each⟩ := shown items' same
  obtain ⟨later, isLater, behind⟩ := grows now represents
  exact ⟨moment, later, met, after, grown.trans behind, isLater,
    each.imp fun _ _ one => one.mono le_rfl behind⟩

theorem readRedisToJson_upholds (since : Since moment store) (fromId cnt : Int) :
    (readRedisToJson fromId cnt).Upholds (Within seen Serves) Grows
      (fun result store => PageShown seen moment fromId cnt result.2 store) store := by
  unfold readRedisToJson
  refine (fetchValues_upholds since fromId cnt).bind ?_
  rintro _ store' ⟨read, filled, valueNum, met, after, readSince, rfl, rows⟩
  simp only [readItems_rows rows, Int.not_lt_of_ge le_rfl, if_false]
  refine (renderRecords_upholds readSince le_rfl _).bind ?_
  rintro items store'' ⟨now, represents, grown, each⟩
  have shown : PageShown seen moment fromId cnt (some items) store'' := by
    rintro _ ⟨⟩
    exact ⟨read, now, met, after, grown, represents, each⟩
  exact upholds_ask_bind (fun _ _ _ served => served) fun later grows _ _ =>
    Prog.upholds_ret fun last grows' => (shown.grow grows).grow grows'

end Page

/-! ## Any executions together -/

/-- What an execution returns. -/
def Job.post (seen : Store → Prop) (origin : Catalogue) : Job → Option (List Item) → Store → Prop
  | .write _ _ _ _, result, _ => result = none
  | .click _, result, _ => result = none
  | .page fromId cnt, result, store => PageShown seen origin fromId cnt result store

theorem program_upholds (seen : Store → Prop) {origin : Catalogue} {store : Store}
    (represents : Represents store origin) {job : Job} (valid : job.Valid) :
    job.program.Upholds (Within seen Serves) Grows (job.post seen origin) store := by
  cases job with
  | write fileId url filename usr =>
      exact (writeRedis_upholds valid store).bind fun _ _ _ => Prog.upholds_ret fun _ _ => rfl
  | click fileId =>
      exact (increaseFilePv_upholds fileId store).bind fun _ _ _ => Prog.upholds_ret fun _ _ => rfl
  | page fromId cnt =>
      exact (readRedisToJson_upholds ⟨origin, represents, le_rfl⟩ fromId cnt).bind
        fun result store' shown => Prog.upholds_ret fun store'' grows => shown.grow grows

/-- The catalogue is that of a state which a run of the executions to `pool` goes
through. -/
def Passed (store : Store) (jobs : List Job) (pool : Pool Store interface Stop (Option (List Item)))
    (catalogue : Catalogue) : Prop :=
  ∃ earlier, Reachable store jobs earlier ∧ Pool.Reachable Serves earlier pool ∧
    Represents earlier.store catalogue

/-- Whatever the executions and their interleaving are, Redis always holds a
catalogue, and a page that was shown is a page of the catalogue of one state of
the run, its counts read between that state and now. -/
theorem pages_of_catalogue {store : Store} {origin : Catalogue}
    (represents : Represents store origin) {jobs : List Job} (valid : ∀ job ∈ jobs, job.Valid)
    {pool : Pool Store interface Stop (Option (List Item))} (reached : Reachable store jobs pool) :
    (∃ now, Represents pool.store now ∧ origin ≤ now) ∧
      List.Forall₂ (fun job thread => ∀ fromId cnt items, job = Job.page fromId cnt →
        thread.rest = .ret (some items) → ∃ moment now, Passed store jobs pool moment ∧
          origin ≤ moment ∧ moment ≤ now ∧ Represents pool.store now ∧
            List.Forall₂ (Shows moment now) (moment.page fromId cnt) items) jobs pool.threads := by
  have upholds := fun job member =>
    program_upholds (Pool.Passed Serves (.start store (jobs.map Job.program)) pool) represents
      (valid job member)
  have within := Pool.reachable_within reached
  refine ⟨Pool.rely_of_reachable within upholds origin represents, ?_⟩
  refine (Pool.post_of_reachable within upholds).imp fun job thread posts fromId cnt items isPage => ?_
  subst isPage
  intro returned
  obtain ⟨moment, now, ⟨_, ⟨earlier, before, after, rfl⟩, met⟩, rest⟩ :=
    posts (some items) returned items rfl
  exact ⟨moment, now, ⟨earlier, before, after, met⟩, rest⟩

/-- A count that fits `int` is shown as it is, less one. -/
theorem Shows.between {moment now : Catalogue} {file : File} {item : Item}
    (shows_ : Shows moment now file item) (counted : 0 < moment.hits file.info.fileId)
    (small : IsInt (now.hits file.info.fileId)) :
    moment.hits file.info.fileId ≤ item.pv + 1 ∧ item.pv + 1 ≤ now.hits file.info.fileId := by
  obtain ⟨hits, lower, upper, rfl⟩ := shows_
  have inRange : IsInt hits := ⟨by omega, by have := small.2; omega⟩
  have read : scoreRead hits = hits := (if_neg (by omega)).trans (atoi_decimal inRange)
  show _ ≤ scoreRead hits - 1 + 1 ∧ scoreRead hits - 1 + 1 ≤ _
  rw [read]
  omega

/-! ## A page beside an upload and a click -/

/-- The calls that leave Redis as it is. -/
def Reading : Call → Prop
  | .redisConnect _ => True
  | .redisFree _ => True
  | .malloc _ _ => True
  | .redisCommand (.lrange _ _ _) => True
  | .redisCommand (.zscore _ _) => True
  | _ => False

theorem readItem_reading (env : Env) (values : Bytes) (i : Nat) (bufs : ItemBufs) :
    (readItem values i bufs).Satisfies env Reading fun _ => True := by
  unfold readItem
  refine satisfies_ofC_bind fun _ _ => satisfies_ofC_bind fun _ _ => satisfies_ofC_bind fun _ _ => ?_
  refine satisfies_ofC_bind fun _ _ => satisfies_ofC_bind fun _ _ => satisfies_ofC_bind fun _ _ => ?_
  refine satisfies_ofC_bind fun _ _ => satisfies_ofC_bind fun _ _ => satisfies_ofC_bind fun _ _ => ?_
  refine satisfies_ofC_bind fun _ _ => satisfies_ofC_bind fun _ _ => satisfies_ofC_bind fun _ _ => ?_
  have scored : ∀ member, (ropZsetGetScore fileHotZset member).Satisfies env Reading fun _ => True := by
    intro member
    refine satisfies_ofC_bind fun _ _ => satisfies_ask_bind trivial ?_
    refine satisfies_ofC_bind fun reply _ => ?_
    split <;> exact Prog.satisfies_ret trivial
  refine (scored _).bind fun score _ _ => ?_
  exact satisfies_ofC_bind fun _ _ => Prog.satisfies_ret trivial

theorem readItems_reading (env : Env) (values : Option Bytes) (count i : Nat) (bufs : ItemBufs) :
    (readItems values count i bufs).Satisfies env Reading fun _ => True := by
  induction count generalizing i bufs with
  | zero => exact Prog.satisfies_ret trivial
  | succ count inductionHypothesis =>
      refine satisfies_ofC_bind fun memory _ => ?_
      refine (readItem_reading env memory i bufs).bind fun result _ _ => ?_
      exact (inductionHypothesis _ _).bind fun _ _ _ => Prog.satisfies_ret trivial

theorem fetchValues_reading (env : Env) (fromId cnt : Int) :
    (fetchValues fromId cnt).Satisfies env Reading fun _ => True := by
  have ranged : ∀ last values, (ropRangeList fileInfoList fromId last values).Satisfies env Reading
      fun _ => True := by
    intro last values
    refine satisfies_ask_bind trivial (satisfies_ofC_bind fun reply _ => ?_)
    exact satisfies_ofC_bind fun filled _ => Prog.satisfies_ret trivial
  refine satisfies_ofC_bind fun _ _ => satisfies_ofC_bind fun _ _ => ?_
  refine (ropConnectdbNopwd_satisfies trivial trivial).bind fun connected _ _ => ?_
  cases connected with
  | false => exact Prog.satisfies_stop _
  | true => exact satisfies_ofC_bind fun _ _ => satisfies_ask_bind trivial (ranged _ _)

theorem server_serves (store : Store) {call : Call} (reading : Reading call) :
    Serves store call (server store call) store := by
  cases call with
  | redisCommand command =>
      cases command with
      | lpush list value => exact reading.elim
      | zincrby zset member => exact reading.elim
      | lrange list start stop => exact ⟨rfl, rfl⟩
      | zscore zset member => exact ⟨rfl, rfl⟩
  | redisConnect caller => exact ⟨rfl, rfl⟩
  | redisFree caller => exact ⟨trivial, rfl⟩
  | malloc caller size => exact ⟨Option.some_ne_none _, rfl⟩
  | _ => exact reading.elim

theorem serves_untimed {store store' : Store} {call : Call} {answer : Answer call}
    (untimed : Counters.Untimed call) (served : Counters.Serves store call answer store') :
    Serves store call answer store' := by
  cases call with
  | strftime format size => exact untimed.elim
  | _ => exact served

/-- What `read_redis_to_json` does with the rows it has fetched. -/
def showRows (values : Option Bytes) (valueNum : Int) : Code (Option (List Item)) := do
  let items ← readItems values valueNum.toNat 0 .cleared
  ropDisconnect .readRedisToJson
  return some items

/-- The rows are read from Redis at one moment. -/
theorem steps_fetch {store : Store} {list : List Entry} (holds : Holds (server store) list)
    {fromId cnt : Nat} (positive : 0 < cnt) (isInt : IsInt (fromId + cnt))
    (fits : cnt * valuesIdSize < 2 ^ 31) : ∃ calls filled valueNum,
      (Job.page fromId cnt).program.Steps Serves store calls store (showRows (some filled) valueNum) ∧
        rowTexts (some filled) valueNum.toNat 0 =
          .ok ((((list.drop fromId).take cnt).take (fromId + cnt - 1)).map Subtype.val) := by
  obtain ⟨filled, valueNum, fetched, rows⟩ := fetchValues_rows holds positive isInt fits
  have steps := Prog.steps_of_outcome fetched fun call member =>
    server_serves store ((fetchValues_reading _ _ _).1 call member)
  obtain ⟨later, split, goesOn⟩ : ∃ later : Int × Option Bytes × Int → Code (Int × Option (List Item)),
      readRedisToJson fromId cnt = fetchValues fromId cnt >>= later ∧
        (later (0, some filled, valueNum) >>= fun result => return result.2) =
          showRows (some filled) valueNum := by
    refine ⟨_, rfl, ?_⟩
    simp [showRows]
  have moved := (steps.bind later).bind fun result => return result.2
  rw [Prog.ret_bind, goesOn, ← split] at moved
  exact ⟨_, filled, valueNum, moved, rows⟩

/-- The scores are read later. -/
theorem steps_showRows {store : Store} {filled : Bytes} {valueNum : Int} {records : List Bytes}
    (rows : rowTexts (some filled) valueNum.toNat 0 = .ok records)
    (nulFree : ∀ record ∈ records, 0 ∉ record) {item : Bytes → Item}
    (shown : ∀ record ∈ records, (showRecord record).outcome (server store) =
      .returned (item record)) :
    ∃ calls, (showRows (some filled) valueNum).Steps Serves store calls store
      (.ret (some (records.map item))) := by
  have outcome : (showRows (some filled) valueNum).outcome (server store) =
      .returned (some (records.map item)) := by
    rw [showRows, readItems_rows rows,
      Prog.outcome_bind_returned _ (renderRecords_returned nulFree shown)]
    rfl
  have reading : (showRows (some filled) valueNum).Satisfies (server store) Reading fun _ => True :=
    (readItems_reading _ _ _ _ _).bind fun _ _ _ =>
      satisfies_ask_bind trivial (Prog.satisfies_ret trivial)
  exact ⟨_, Prog.steps_of_outcome outcome fun call member => server_serves store (reading.1 call member)⟩

def oneFile : File where
  info := uploadedInfo
  listable :=
    { decodable := ⟨by decide +kernel, by decide +kernel, by decide, by decide, by decide⟩
      nulFree := by decide +kernel
      fileIdFits := by decide +kernel
      urlFits := by decide +kernel
      filenameFits := by decide
      createTimeFits := by decide
      userFits := by decide
      pictureFits := by decide +kernel
      recordFits := by decide +kernel }

/-- A file was uploaded and clicked once. -/
def oneCatalogue : Catalogue :=
  (((⟨[], fun _ => 0⟩ : Catalogue).upload oneFile).count oneFile.info.fileId).count oneFile.info.fileId

def listedStore : Store := empty.push fileInfoList oneFile.info.record

def oneStore : Store :=
  (listedStore.increment fileHotZset oneFile.info.fileId).increment fileHotZset oneFile.info.fileId

theorem represents_listed :
    Represents listedStore ((⟨[], fun _ => 0⟩ : Catalogue).upload oneFile) :=
  represents_push represents_empty oneFile

theorem represents_one : Represents oneStore oneCatalogue :=
  represents_increment (represents_increment represents_listed _) _

theorem ropZsetGetScore_server {store : Store} {catalogue : Catalogue}
    (represents : Represents store catalogue) {id : Bytes} (idFree : 0 ∉ id) :
    (ropZsetGetScore fileHotZset (id ++ [0])).outcome (server store) =
      .returned (scoreRead (catalogue.hits id)) := by
  have holds : strAt (id ++ [0]) 0 = .ok id := strAt_append [] id [] idFree
  have reply : (store.serve (.zscore fileHotZset id)).1 =
      if catalogue.hits id = 0 then .nil else .string (decimal (catalogue.hits id)) := by
    unfold Store.serve
    dsimp only
    rw [represents.hits]
    by_cases none : catalogue.hits id = 0
    · rw [if_pos none, if_pos none]
    · rw [if_neg none, if_neg none]
  have answer : server store (.redisCommand (.zscore fileHotZset id)) = some _ :=
    congrArg some reply
  unfold ropZsetGetScore scoreRead
  rw [holds, ofC_ok, Prog.ret_bind, outcome_ask_bind, answer]
  by_cases none : catalogue.hits id = 0
  · rw [if_pos none, if_pos none]
    rfl
  · rw [if_neg none, if_neg none]
    rfl

theorem scored_one : (ropZsetGetScore fileHotZset (oneFile.info.fileId ++ [0])).outcome
    (server oneStore) = .returned 2 := by
  have hits : oneCatalogue.hits oneFile.info.fileId = 2 := by
    simp [oneCatalogue, Catalogue.count, Catalogue.upload]
  have idFree : 0 ∉ oneFile.info.fileId := by decide +kernel
  have two : scoreRead 2 = 2 := (if_neg (by decide)).trans (atoi_decimal (show IsInt 2 by decide))
  rw [ropZsetGetScore_server represents_one idFree, hits, two]

theorem holds_listed :
    Holds (server listedStore) ((⟨[], fun _ => 0⟩ : Catalogue).upload oneFile).entries := by
  refine ⟨rfl, fun _ => Option.some_ne_none _, fun start stop => ?_⟩
  have same : ((⟨[], fun _ => 0⟩ : Catalogue).upload oneFile).entries.map Subtype.val =
      listedStore.lists fileInfoList := by
    rw [represents_listed.files, Catalogue.entries, List.map_map]
    rfl
  rw [same]
  rfl

theorem shown_one : (showRecord oneFile.info.record).outcome (server oneStore) =
    .returned (oneFile.item 1) := by
  unfold showRecord
  rw [itemTexts_file, ofC_ok, Prog.ret_bind]
  exact Prog.outcome_bind_returned _ scored_one _

theorem uploadedId_nulFree : 0 ∉ uploadedId := by decide +kernel

theorem uploadedUrl_nulFree : 0 ∉ uploadedUrl := by decide +kernel

theorem testName_nulFree : 0 ∉ lit "test.txt" := by decide

theorem userName_nulFree : 0 ∉ lit "user" := by decide

def idString : CString := .of uploadedId uploadedId_nulFree

def urlString : CString := .of uploadedUrl uploadedUrl_nulFree

/-- An upload, a click on its file and a listing. -/
def busyJobs : List Job :=
  [.write idString urlString (.of (lit "test.txt") testName_nulFree)
      (.of (lit "user") userName_nulFree),
    .click idString, .page 0 2]

theorem recordable_one : Recordable uploadedId uploadedUrl (lit "test.txt") (lit "user") where
  pipeFree := by decide +kernel
  urlNonempty := by decide +kernel
  filenameNonempty := by decide
  fileIdFits := by decide +kernel
  urlFits := by decide +kernel
  filenameFits := by decide
  usrFits := by decide
  suffixFits := by decide +kernel
  pictureFits := by decide +kernel
  recordFits := by decide +kernel

theorem smallTime_clockText : ClockText smallTime.val where
  pipeFree := by decide
  visible := by decide

/-- The listing reads the list between the two commands of the upload, the click
is counted meanwhile, and the scores are read when the upload is done. -/
theorem busyJobs_reachable : ∃ uploaded clicked listed,
    Reachable empty busyJobs ⟨oneStore,
      [⟨uploaded, .ret none⟩, ⟨clicked, .ret none⟩, ⟨listed, .ret (some [oneFile.item 1])⟩]⟩ := by
  have clock : Serves empty (.strftime (lit "%Y-%m-%d %H-%M:%S") timeStringLen) smallTime empty :=
    ⟨smallTime_clockText, rfl⟩
  have recorded : (writeRedis idString.memory urlString.memory
      (CString.of (lit "test.txt") testName_nulFree).memory
        (CString.of (lit "user") userName_nulFree).memory).Steps Serves empty
          (listCalls oneFile.info.record) listedStore (countFile .writeRedis idString) :=
    Counters.steps_writeRedis serves_untimed empty clock (by decide +kernel) (by decide +kernel)
      (by decide +kernel)
  obtain ⟨calls, filled, valueNum, fetched, rows⟩ :=
    steps_fetch holds_listed (show 0 < 2 by decide) (show IsInt ((0 : Nat) + (2 : Nat)) by decide)
      (by decide)
  obtain ⟨later, shows_⟩ := steps_showRows rows (by decide +kernel)
    (show ∀ record ∈ _, _ = Outcome.returned ((fun _ => oneFile.item 1) record) from
      List.forall_mem_singleton.mpr shown_one)
  have first : Reachable empty busyJobs _ :=
    Pool.reachable_steps [] [_, _] .refl (recorded.bind fun _ => return none)
  have second := Pool.reachable_steps [_, _] [] first fetched
  have third := Pool.reachable_steps [_] [_] second
    ((Counters.steps_increaseFilePv serves_untimed _ _).bind fun _ => return none)
  have fourth := Pool.reachable_steps [] [_, _] third
    ((Counters.steps_countFile serves_untimed _ .writeRedis _).bind fun _ => return none)
  exact ⟨_, _, _, Pool.reachable_steps [_, _] [] fourth shows_⟩

theorem pages_of_catalogue_one : ∃ uploaded clicked listed,
    Reachable empty busyJobs ⟨oneStore,
      [⟨uploaded, .ret none⟩, ⟨clicked, .ret none⟩, ⟨listed, .ret (some [oneFile.item 1])⟩]⟩ ∧
    (∃ now, Represents oneStore now ∧ ⟨[], fun _ => 0⟩ ≤ now) ∧
      List.Forall₂ (fun job thread => ∀ fromId cnt items, job = Job.page fromId cnt →
        thread.rest = .ret (some items) → ∃ moment now, Passed empty busyJobs ⟨oneStore,
            [⟨uploaded, .ret none⟩, ⟨clicked, .ret none⟩,
              ⟨listed, .ret (some [oneFile.item 1])⟩]⟩ moment ∧
          ⟨[], fun _ => 0⟩ ≤ moment ∧ moment ≤ now ∧ Represents oneStore now ∧
            List.Forall₂ (Shows moment now) (moment.page fromId cnt) items)
        busyJobs [(⟨uploaded, .ret none⟩ : Thread interface Stop _), ⟨clicked, .ret none⟩,
          ⟨listed, .ret (some [oneFile.item 1])⟩] := by
  obtain ⟨uploaded, clicked, listed, reached⟩ := busyJobs_reachable
  have valid : ∀ job ∈ busyJobs, job.Valid :=
    List.forall_mem_cons.mpr ⟨recordable_one, List.forall_mem_cons.mpr
      ⟨trivial, List.forall_mem_singleton.mpr trivial⟩⟩
  exact ⟨uploaded, clicked, listed, reached, pages_of_catalogue represents_empty valid reached⟩

end DistStore.Listing

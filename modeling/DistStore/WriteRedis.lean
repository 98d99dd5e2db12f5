import DistStore.Record
import DistStore.RedisOp
import DistStore.Trim

/-!
# `write_redis`

The record is put together by `strcat` in a block of `VALUES_ID_SIZE` bytes,
pushed on `FILE_INFO_LIST`, and the file id is counted in `FILE_HOT_ZSET`.
-/

set_option autoImplicit false

namespace DistStore.WriteRedis

open CMemory ListSearch Program Environment RedisOp Record Trim

def suffixLen : Nat := 8

def timeStringLen : Nat := 64

/-- `get_file_suffix`: the returned code and the suffix buffer. -/
def getFileSuffix (filename suffix : Bytes) : C (Int × Bytes) := do
  let end_ ← strlen filename 0
  match ← strstr filename 0 (lit ".") with
  | some dot =>
      let begin_ := dot + 1
      let length := toInt ((end_ : Int) - begin_)
      if length > 0 then
        let copied ← strncpy suffix 0 filename begin_ length
        let ended ← store copied length.toNat [0]
        return (0, ended)
      else
        let named ← strncpy suffix 0 (lit "null" ++ [0]) 0 5
        return (0, named)
  | none =>
      let named ← strncpy suffix 0 (lit "null" ++ [0]) 0 5
      return (0, named)

/-- One value of the record and the delimiter behind it. -/
def appendField (record field : Bytes) : C Bytes := do
  let appended ← strcat record field 0
  strcat appended (key ++ [0]) 0

/-- The part of the record that is written before the clock is read. -/
def recordFront (record fileId fdfsFileUrl filename : Bytes) : C Bytes := do
  let withId ← appendField record fileId
  let withUrl ← appendField withId fdfsFileUrl
  appendField withUrl filename

def recordBack (record createTime usr filename : Bytes) : C Bytes := do
  let withTime ← appendField record createTime
  let withUser ← appendField withTime usr
  let (_, suffix) ← getFileSuffix filename (zeros suffixLen)
  strcat withUser suffix 0

/-- The text of `localtime` in `create_time`, trimmed. -/
def formatTime (before : Byte) (now : Bytes) : C Bytes := do
  let written ← store (zeros timeStringLen) 0 (now ++ [0])
  let (_, createTime) ← trimSpace before written
  return createTime

theorem formatTime_before (before other : Byte) (now : Bytes) :
    formatTime before now = formatTime other now := by
  simp only [formatTime, trimSpace_before before other]

def writeRedis (fileId fdfsFileUrl filename usr : Bytes) : Code Int := do
  let connected ← ropConnectdbNopwd .writeRedis
  if !connected then .stop (.exit 1)
  else
    match ← ask (.malloc .writeRedis valuesIdSize) with
    | none =>
        ropDisconnect .writeRedis
        return -1
    | some block =>
        let cleared ← ofC (memset block.val 0 0 valuesIdSize)
        let front ← ofC (recordFront cleared fileId fdfsFileUrl filename)
        let now ← ask (.strftime (lit "%Y-%m-%d %H-%M:%S") timeStringLen)
        let before ← ask (.byteBefore .writeRedis)
        let createTime ← ofC (formatTime before now.val)
        let record ← ofC (recordBack front createTime usr filename)
        let _ ← ropListPush fileInfoList record
        let _ ← ropZsetIncrement fileHotZset fileId
        ropDisconnect .writeRedis
        return 0

/-- `recordFront` and `recordBack`, without the reading of the clock between
them. -/
def buildRecord (fileId url filename createTime usr : Bytes) : C Bytes := do
  let front ← recordFront (zeros valuesIdSize) fileId url filename
  recordBack front createTime usr filename

/-- The text pushed on the list when the clock shows `now`. -/
def recordAt (now fileId url filename usr : Bytes) : C Bytes := do
  let createTime ← formatTime 0 now
  let record ← buildRecord fileId url filename createTime usr
  strAt record 0

/-- The calls of `write_redis` in a run. -/
def WriteCall (env : Env) (fileId url filename usr : Bytes) : Call → Prop
  | .redisConnect caller => caller = .writeRedis
  | .redisFree caller => caller = .writeRedis
  | .malloc caller _ => caller = .writeRedis
  | .byteBefore caller => caller = .writeRedis
  | .strftime _ _ => True
  | .redisCommand (.lpush list value) => list = fileInfoList ∧
      recordAt (env (.strftime (lit "%Y-%m-%d %H-%M:%S") timeStringLen)).val fileId url filename
        usr = .ok value
  | .redisCommand (.zincrby zset member) => zset = fileHotZset ∧ strAt fileId 0 = .ok member
  | _ => False

theorem writeRedis_satisfies (env : Env) (fileId url filename usr : Bytes) :
    (writeRedis fileId url filename usr).Satisfies env (WriteCall env fileId url filename usr)
      fun _ => True := by
  refine Prog.Satisfies.bind (ropConnectdbNopwd_satisfies rfl rfl) ?_
  rintro (_ | _) - -
  · exact Prog.satisfies_stop _
  · refine satisfies_ask_bind rfl ?_
    cases env (.malloc .writeRedis valuesIdSize) with
    | none => exact satisfies_ask_bind rfl (Prog.satisfies_ret trivial)
    | some block =>
        refine satisfies_ofC_bind fun cleared clears => ?_
        refine satisfies_ofC_bind fun front built => ?_
        refine satisfies_ask_bind trivial (satisfies_ask_bind rfl ?_)
        refine satisfies_ofC_bind fun createTime formatted => ?_
        refine satisfies_ofC_bind fun record finished => ?_
        have whole := memset_whole block.val 0 block.property
        have zeroed : cleared = zeros valuesIdSize := Except.ok.inj (clears.symm.trans whole)
        subst zeroed
        refine (ropListPush_satisfies ?_).bind fun _ _ _ => ?_
        · intro text holds
          refine ⟨rfl, ?_⟩
          have sameTime : formatTime 0
              (env (.strftime (lit "%Y-%m-%d %H-%M:%S") timeStringLen)).val = .ok createTime :=
            (formatTime_before 0 _ _).trans formatted
          simp only [recordAt, sameTime, buildRecord, built, finished, ok_bind, holds]
        · refine (ropZsetIncrement_satisfies ?_).bind fun _ _ _ => ?_
          · intro text holds
            exact ⟨rfl, holds⟩
          · exact satisfies_ask_bind rfl (Prog.satisfies_ret trivial)

/-! ## The suffix -/

/-- What stands behind the first dot of the name. -/
def behindDot (filename : Bytes) : Bytes :=
  match find (lit ".") filename with
  | some dot => filename.drop (dot + 1)
  | none => []

/-- What is stored: the text behind the dot as far as its length is an `int`. -/
def suffixText (filename : Bytes) : Bytes :=
  if intFront (behindDot filename) = [] then lit "null" else intFront (behindDot filename)

theorem behindDot_suffix (filename : Bytes) : behindDot filename <:+ filename := by
  rcases found : find (lit ".") filename with _ | dot
  · simp [behindDot, found]
  · simpa [behindDot, found] using List.drop_suffix (dot + 1) filename

/-- Every suffix is `"null"` or a part of the name. -/
theorem suffixText_cases (filename : Bytes) :
    suffixText filename = lit "null" ∨ suffixText filename <:+: filename := by
  unfold suffixText
  split
  · exact Or.inl rfl
  · exact Or.inr ((intFront_isPrefix _).isInfix.trans (behindDot_suffix filename).isInfix)

theorem strncpy_null (suffix : Bytes) : strncpy suffix 0 (lit "null" ++ [0]) 0 5 =
    if (lit "null").length < suffix.length then .ok (overwrite (lit "null") suffix)
    else .error .writeOutside :=
  strncpy_literal suffix (by decide)

/-- The suffix is stored when it fits with its NUL, and written over the end
of the buffer otherwise. -/
theorem getFileSuffix_overwrite {memory filename : Bytes} (holds : strAt memory 0 = .ok filename)
    (suffix : Bytes) : getFileSuffix memory suffix =
      if (suffixText filename).length < suffix.length then
        .ok (0, overwrite (suffixText filename) suffix)
      else .error .writeOutside := by
  have named : (do
      let named ← strncpy suffix 0 (lit "null" ++ [0]) 0 5
      return ((0 : Int), named)) =
      if (lit "null").length < suffix.length then .ok (0, overwrite (lit "null") suffix)
      else .error .writeOutside := by
    rw [strncpy_null]
    split <;> rfl
  unfold getFileSuffix
  rw [strlen_of_strAt holds, strstr_of_strAt _ holds, ok_bind, ok_bind]
  cases found : find (lit ".") filename with
  | none =>
      have text : suffixText filename = lit "null" := by
        simp only [suffixText, behindDot, found, intFront, if_true]
      rw [text]
      exact named
  | some dot =>
      have inside : dot + 1 ≤ filename.length := find_fits found
      have rest := strAt_drop holds inside
      have length : ((filename.length : Nat) : Int) - (dot + 1 : Nat) =
          ((filename.drop (dot + 1)).length : Nat) := by
        rw [List.length_drop]
        omega
      have behind : behindDot filename = filename.drop (dot + 1) := by
        simp only [behindDot, found]
      have kept := intFront_length (filename.drop (dot + 1))
      rw [Option.map_some, Nat.zero_add, suffixText, behind]
      dsimp only
      rw [length]
      by_cases positive : toInt (filename.drop (dot + 1)).length > 0
      · have something : intFront (filename.drop (dot + 1)) ≠ [] :=
          List.ne_nil_of_length_pos (by omega)
        have copied := @strncpy_intFront suffix _ _ _ _ rest (List.prefix_refl _)
        rw [if_neg (by omega)] at copied
        rw [if_neg something]
        refine (if_pos positive).trans ?_
        rw [← bind_assoc, copied]
        split <;> rfl
      · have nothing : intFront (filename.drop (dot + 1)) = [] :=
          List.eq_nil_of_length_eq_zero (by omega)
        rw [if_pos nothing]
        exact (if_neg positive).trans named

theorem getFileSuffix_eq {memory filename : Bytes} (holds : strAt memory 0 = .ok filename) :
    getFileSuffix memory (zeros suffixLen) =
      if (suffixText filename).length < suffixLen then
        .ok (0, padTo suffixLen (suffixText filename))
      else .error .writeOutside := by
  rw [getFileSuffix_overwrite holds, zeros_length]
  by_cases fits : (suffixText filename).length < suffixLen
  · rw [if_pos fits, if_pos fits, overwrite_zeros fits]
  · rw [if_neg fits, if_neg fits]

/-! ## The record -/

theorem appendField_padTo {size : Nat} {old field text : Bytes} (oldFree : 0 ∉ old)
    (oldFits : old.length < size) (holds : strAt field 0 = .ok text) :
    appendField (padTo size old) field =
      if (old ++ (text ++ key)).length < size then .ok (padTo size (old ++ (text ++ key)))
      else .error .writeOutside := by
  have keyHolds : strAt (key ++ [0]) 0 = .ok key := by decide
  have bothFree : 0 ∉ old ++ text := by simp [oldFree, strAt_nulFree holds]
  rw [appendField, strcat_padTo oldFree oldFits holds, ← List.append_assoc]
  refine bounded_bind (fun textFits => strcat_padTo bothFree textFits keyHolds) fun wholeFits => ?_
  rw [List.length_append] at wholeFits
  omega

theorem terminated_nulFree {fields : List Bytes} (nulFree : ∀ field ∈ fields, 0 ∉ field) :
    0 ∉ terminated fields := by
  induction fields with
  | nil => simp [terminated]
  | cons field rest inductionHypothesis =>
      have restFree := inductionHypothesis fun other member => nulFree other (by simp [member])
      simp [terminated, nulFree field (by simp), key_nulFree, restFree]

/-- One field more behind a record of terminated fields. -/
theorem appendField_terminated (size : Nat) (fields : List Bytes) {field text : Bytes}
    (nulFree : ∀ other ∈ fields, 0 ∉ other) (fits : (terminated fields).length < size)
    (holds : strAt field 0 = .ok text) :
    appendField (padTo size (terminated fields)) field =
      if (terminated (fields ++ [text])).length < size then
        .ok (padTo size (terminated (fields ++ [text])))
      else .error .writeOutside := by
  have shape : terminated (fields ++ [text]) = terminated fields ++ (text ++ key) := by
    clear nulFree fits
    induction fields with
    | nil => simp [terminated]
    | cons head rest inductionHypothesis => simp [terminated, inductionHypothesis]
  rw [appendField_padTo (terminated_nulFree nulFree) fits holds, shape]

/-- The values of the record an upload stores. -/
def uploadInfo (fileId url filename createTime usr : Bytes) : FileInfo :=
  ⟨fileId, url, filename, createTime, usr, suffixText filename⟩

section Record

variable {fileIdAt urlAt filenameAt createTimeAt usrAt : Bytes}
variable {fileId url filename createTime usr : Bytes}

theorem recordFront_eq (size : Nat) (positive : 0 < size) (fileIdHolds : strAt fileIdAt 0 = .ok fileId)
    (urlHolds : strAt urlAt 0 = .ok url) (filenameHolds : strAt filenameAt 0 = .ok filename) :
    recordFront (zeros size) fileIdAt urlAt filenameAt =
      if (terminated [fileId, url, filename]).length < size then
        .ok (padTo size (terminated [fileId, url, filename]))
      else .error .writeOutside := by
  have fileIdFree := strAt_nulFree fileIdHolds
  have urlFree := strAt_nulFree urlHolds
  have lengths : (terminated [fileId]).length ≤ (terminated [fileId, url]).length ∧
      (terminated [fileId, url]).length ≤ (terminated [fileId, url, filename]).length := by
    simp only [terminated, List.length_append]
    omega
  have first := appendField_terminated size [] (by simp) positive fileIdHolds
  rw [show padTo size (terminated []) = zeros size from padTo_nil size] at first
  rw [recordFront, first, List.nil_append]
  refine bounded_bind (fun idFits => ?_) fun _ => by omega
  rw [appendField_terminated size [fileId] (by simp [fileIdFree]) idFits urlHolds,
    List.singleton_append]
  refine bounded_bind (fun urlFits => ?_) fun _ => by omega
  exact appendField_terminated size [fileId, url] (by simp [fileIdFree, urlFree]) urlFits
    filenameHolds

theorem record_eq_terminated :
    (uploadInfo fileId url filename createTime usr).record =
      terminated [fileId, url, filename, createTime, usr] ++ suffixText filename := by
  simp [uploadInfo, FileInfo.record_eq, terminated]

theorem suffixText_nulFree (nulFree : 0 ∉ filename) : 0 ∉ suffixText filename := by
  rcases suffixText_cases filename with named | part
  · rw [named]
    decide
  · exact fun member => nulFree (part.subset member)

theorem uploadInfo_nulFree (fileIdFree : 0 ∉ fileId) (urlFree : 0 ∉ url)
    (filenameFree : 0 ∉ filename) (createTimeFree : 0 ∉ createTime) (usrFree : 0 ∉ usr) :
    0 ∉ (uploadInfo fileId url filename createTime usr).record := by
  have frontFree : 0 ∉ terminated [fileId, url, filename, createTime, usr] :=
    terminated_nulFree (by simp [fileIdFree, urlFree, filenameFree, createTimeFree, usrFree])
  rw [record_eq_terminated, List.mem_append, not_or]
  exact ⟨frontFree, suffixText_nulFree filenameFree⟩

theorem recordBack_eq (size : Nat) (frontFree : 0 ∉ fileId ∧ 0 ∉ url)
    (frontFits : (terminated [fileId, url, filename]).length < size)
    (filenameHolds : strAt filenameAt 0 = .ok filename)
    (createTimeHolds : strAt createTimeAt 0 = .ok createTime)
    (usrHolds : strAt usrAt 0 = .ok usr) :
    recordBack (padTo size (terminated [fileId, url, filename])) createTimeAt usrAt filenameAt =
      if (suffixText filename).length < suffixLen ∧
          (uploadInfo fileId url filename createTime usr).record.length < size then
        .ok (padTo size (uploadInfo fileId url filename createTime usr).record)
      else .error .writeOutside := by
  have filenameFree := strAt_nulFree filenameHolds
  have createTimeFree := strAt_nulFree createTimeHolds
  have usrFree := strAt_nulFree usrHolds
  have lengths : (terminated [fileId, url, filename, createTime]).length ≤
        (terminated [fileId, url, filename, createTime, usr]).length ∧
      (uploadInfo fileId url filename createTime usr).record.length =
        (terminated [fileId, url, filename, createTime, usr]).length +
          (suffixText filename).length := by
    constructor
    · simp only [terminated, List.length_append]
      omega
    · rw [record_eq_terminated, List.length_append]
  have first := appendField_terminated size [fileId, url, filename]
    (by simp [frontFree, filenameFree]) frontFits createTimeHolds
  rw [recordBack, first]
  simp only [List.cons_append, List.nil_append]
  refine bounded_bind (fun timeFits => ?_) fun both => ?_
  · rw [appendField_terminated size [fileId, url, filename, createTime]
      (by simp [frontFree, filenameFree, createTimeFree]) timeFits usrHolds]
    simp only [List.cons_append, List.nil_append]
    refine bounded_bind (fun usrFits => ?_) fun both => ?_
    · rw [getFileSuffix_eq filenameHolds]
      refine bounded_bind (fun suffixFits => ?_) And.left
      have bodyFree : 0 ∉ terminated [fileId, url, filename, createTime, usr] :=
        terminated_nulFree (by simp [frontFree, filenameFree, createTimeFree, usrFree])
      have suffixHolds := strAt_padTo (suffixText_nulFree filenameFree) suffixFits
      simp only []
      rw [strcat_padTo bodyFree usrFits suffixHolds, record_eq_terminated, List.length_append]
      simp only [suffixFits, true_and]
    · have recordFits := both.2
      omega
  · have recordFits := both.2
    omega

/-- The record is the six values joined, when the suffix fits its buffer and
the whole fits the block. -/
theorem buildRecord_eq (fileIdHolds : strAt fileIdAt 0 = .ok fileId)
    (urlHolds : strAt urlAt 0 = .ok url) (filenameHolds : strAt filenameAt 0 = .ok filename)
    (createTimeHolds : strAt createTimeAt 0 = .ok createTime)
    (usrHolds : strAt usrAt 0 = .ok usr) :
    buildRecord fileIdAt urlAt filenameAt createTimeAt usrAt =
      if (suffixText filename).length < suffixLen ∧
          (uploadInfo fileId url filename createTime usr).record.length < valuesIdSize then
        .ok (padTo valuesIdSize (uploadInfo fileId url filename createTime usr).record)
      else .error .writeOutside := by
  have lengths : (terminated [fileId, url, filename]).length ≤
      (uploadInfo fileId url filename createTime usr).record.length := by
    rw [record_eq_terminated]
    simp only [terminated, List.length_append]
    omega
  rw [buildRecord, recordFront_eq valuesIdSize (by decide) fileIdHolds urlHolds filenameHolds]
  refine bounded_bind (fun frontFits => ?_) fun both => by omega
  exact recordBack_eq valuesIdSize ⟨strAt_nulFree fileIdHolds, strAt_nulFree urlHolds⟩ frontFits
    filenameHolds createTimeHolds usrHolds

theorem formatTime_eq (before : Byte) (now : CText timeStringLen) :
    ∃ createTimeAt, formatTime before now.val = .ok createTimeAt ∧
      strAt createTimeAt 0 = .ok (trimText now.val) := by
  obtain ⟨text, nulFree, short⟩ := now
  have fits : (text ++ [0]).length ≤ timeStringLen := by
    have positive : 0 < timeStringLen := by decide
    rw [List.length_append, List.length_singleton]
    omega
  have written := store_zeros timeStringLen (text ++ [0]) fits
  have holds : strAt (padTo timeStringLen (text ++ [0])) 0 = .ok text :=
    (strAt_eq_ok_iff _ _ _).mpr ⟨nulFree, _, List.append_assoc _ _ _⟩
  have small : text.length < 2 ^ 31 := lt_of_le_of_lt short (by decide)
  obtain ⟨trimmed, trims, trimmedHolds, -⟩ := trimSpace_strAt before holds small
  exact ⟨trimmed, by simp [formatTime, written, trims], trimmedHolds⟩

/-- The last part of `write_redis`: the two commands and the disconnection. -/
def pushRecord (record fileId : Bytes) : Code Int := do
  let _ ← ropListPush fileInfoList (padTo valuesIdSize record)
  let _ ← ropZsetIncrement fileHotZset fileId
  ropDisconnect .writeRedis
  return 0

/-- `write_redis` in terms of the texts it is given. -/
theorem writeRedis_eq (fileIdHolds : strAt fileIdAt 0 = .ok fileId)
    (urlHolds : strAt urlAt 0 = .ok url) (filenameHolds : strAt filenameAt 0 = .ok filename)
    (usrHolds : strAt usrAt 0 = .ok usr) :
    writeRedis fileIdAt urlAt filenameAt usrAt = (do
      let connected ← ropConnectdbNopwd .writeRedis
      if !connected then .stop (.exit 1)
      else
        match ← ask (.malloc .writeRedis valuesIdSize) with
        | none =>
            ropDisconnect .writeRedis
            return -1
        | some _ =>
            if (terminated [fileId, url, filename]).length < valuesIdSize then
              let now ← ask (.strftime (lit "%Y-%m-%d %H-%M:%S") timeStringLen)
              let _ ← ask (.byteBefore .writeRedis)
              let info := uploadInfo fileId url filename (trimText now.val) usr
              if (suffixText filename).length < suffixLen ∧ info.record.length < valuesIdSize then
                pushRecord info.record fileIdAt
              else .stop (.fault .writeOutside)
            else .stop (.fault .writeOutside)) := by
  refine congrArg (ropConnectdbNopwd .writeRedis >>= ·) (funext fun connected => ?_)
  cases connected with
  | false => simp only [Bool.not_false, if_true]
  | true =>
      refine congrArg (ask (.malloc .writeRedis valuesIdSize) >>= ·) (funext fun answer => ?_)
      cases answer with
      | none => dsimp only
      | some block =>
          have cleared : memset block.val 0 0 valuesIdSize = .ok (zeros valuesIdSize) :=
            memset_whole block.val 0 block.property
          simp only [cleared, ofC_ok, Prog.ret_bind,
            recordFront_eq valuesIdSize (by decide) fileIdHolds urlHolds filenameHolds]
          by_cases frontFits : (terminated [fileId, url, filename]).length < valuesIdSize
          · simp only [if_pos frontFits, ofC_ok, Prog.ret_bind]
            refine congrArg (ask _ >>= ·) (funext fun now => ?_)
            refine congrArg (ask _ >>= ·) (funext fun before => ?_)
            obtain ⟨createTimeAt, formatted, createTimeHolds⟩ := formatTime_eq before now
            simp only [formatted, ofC_ok, Prog.ret_bind, recordBack_eq valuesIdSize
              ⟨strAt_nulFree fileIdHolds, strAt_nulFree urlHolds⟩ frontFits filenameHolds
              createTimeHolds usrHolds]
            split
            · rfl
            · rfl
          · simp only [if_neg frontFits, ofC_error, Prog.stop_bind]

/-- A record that fits is pushed once Redis and the memory are there. -/
theorem writeRedis_pushes {env : Env} {block : Block valuesIdSize} {now : Bytes}
    (fileIdHolds : strAt fileIdAt 0 = .ok fileId)
    (urlHolds : strAt urlAt 0 = .ok url) (filenameHolds : strAt filenameAt 0 = .ok filename)
    (usrHolds : strAt usrAt 0 = .ok usr)
    (connected : env (.redisConnect .writeRedis) = .ok)
    (allocated : env (.malloc .writeRedis valuesIdSize) = some block)
    (clock : (env (.strftime (lit "%Y-%m-%d %H-%M:%S") timeStringLen)).val = now)
    (suffixFits : (suffixText filename).length < suffixLen)
    (recordFits : (uploadInfo fileId url filename (trimText now) usr).record.length <
      valuesIdSize) :
    .redisCommand (.lpush fileInfoList (uploadInfo fileId url filename (trimText now) usr).record) ∈
      (writeRedis fileIdAt urlAt filenameAt usrAt).trace env := by
  subst clock
  have connection := ropConnectdbNopwd_outcome connected
  have frontFits : (terminated [fileId, url, filename]).length < valuesIdSize := by
    refine Nat.lt_of_le_of_lt ?_ recordFits
    rw [record_eq_terminated]
    simp only [terminated, List.length_append]
    omega
  have nowFree := (env (.strftime (lit "%Y-%m-%d %H-%M:%S") timeStringLen)).property.1
  have recordFree := uploadInfo_nulFree (strAt_nulFree fileIdHolds) (strAt_nulFree urlHolds)
    (strAt_nulFree filenameHolds) (trimText_nulFree nowFree) (strAt_nulFree usrHolds)
  have pushed := strAt_padTo recordFree recordFits
  rw [writeRedis_eq fileIdHolds urlHolds filenameHolds usrHolds]
  refine Prog.mem_trace_bind_returned _ connection ?_
  simp only [Bool.not_true, Bool.false_eq_true, if_false, trace_ask_bind]
  rw [allocated]
  refine List.mem_cons_of_mem _ ?_
  dsimp only
  rw [if_pos frontFits, trace_ask_bind, trace_ask_bind]
  refine List.mem_cons_of_mem _ (List.mem_cons_of_mem _ ?_)
  rw [if_pos ⟨suffixFits, recordFits⟩]
  simp only [pushRecord, ropListPush, pushed, ofC_ok, Prog.ret_bind, bind_assoc, trace_ask_bind]
  exact List.mem_cons_self

end Record

end DistStore.WriteRedis

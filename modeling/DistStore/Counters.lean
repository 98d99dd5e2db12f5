import DistStore.DataUse
import DistStore.Lib.Pool
import Mathlib.Algebra.Order.BigOperators.Group.List

/-!
# The list and the counters under concurrent programs

Any number of executions of `write_redis` and `increase_file_pv` send their
commands to one Redis server, which executes each command atomically.  An
execution has two effects on the two keys at most: it lists a record, and it
counts a file id.
-/

set_option autoImplicit false

namespace DistStore.Counters

open CMemory ListSearch Program Environment RedisOp Record Trim WriteRedis RedisStore DataUse

/-- One execution with the strings it is given. -/
inductive Job where
  | write (fileId url filename usr : CString)
  | click (fileId : CString)

namespace Job

def fileId : Job → CString
  | write fileId _ _ _ => fileId
  | click fileId => fileId

def program : Job → Code Int
  | write fileId url filename usr =>
      writeRedis fileId.memory url.memory filename.memory usr.memory
  | click fileId => increaseFilePv fileId.memory

def isWrite : Job → Bool
  | write _ _ _ _ => true
  | click _ => false

/-- An execution of `write_redis` for the file. -/
def writes (file : Bytes) : Job → Bool
  | write fileId _ _ _ => fileId.text = file
  | click _ => false

/-- An execution of `increase_file_pv` for the file. -/
def clicks (file : Bytes) : Job → Bool
  | write _ _ _ _ => false
  | click fileId => fileId.text = file

end Job

/-- Connections and memory are there. -/
def Available : (call : Call) → Answer call → Prop
  | .redisConnect _, connection => connection = .ok
  | .malloc _ _, block => block ≠ none
  | _, _ => True

/-- How a call is answered: a command by the server, any other call somehow. -/
def Serves (store : Store) : (call : Call) → Answer call → Store → Prop
  | .redisCommand command, reply, store' =>
      reply = some (store.serve command).1 ∧ store' = (store.serve command).2
  | call, answer, store' => Available call answer ∧ store' = store

/-- The runs of the executions `jobs` on a server that begins with `store`. -/
def Reachable (store : Store) (jobs : List Job) (pool : Pool Store interface Stop Int) : Prop :=
  Pool.Reachable Serves (.start store (jobs.map Job.program)) pool

/-! ## The effects of an execution -/

/-- The file id at the front of a record: the text before the first
delimiter. -/
def recordId (record : Bytes) : Option Bytes := (find key record).map fun offset => record.take offset

inductive Effect where
  | listed (id : Option Bytes)
  | counted (id : Bytes)
  deriving DecidableEq

def effectOf : Call → Option Effect
  | .redisCommand (.lpush list record) =>
      if list = fileInfoList then some (.listed (recordId record)) else none
  | .redisCommand (.zincrby zset member) =>
      if zset = fileHotZset then some (.counted member) else none
  | _ => none

theorem effectOf_lpush (record : Bytes) :
    effectOf (.redisCommand (.lpush fileInfoList record)) = some (.listed (recordId record)) := by
  simp [effectOf]

theorem effectOf_zincrby (member : Bytes) :
    effectOf (.redisCommand (.zincrby fileHotZset member)) = some (.counted member) := by
  simp [effectOf]

theorem effectOf_listed {call : Call} {id : Option Bytes}
    (effect : effectOf call = some (.listed id)) :
    ∃ record, call = .redisCommand (.lpush fileInfoList record) ∧ recordId record = id := by
  cases call with
  | redisCommand command =>
      cases command with
      | lpush list record =>
          simp only [effectOf] at effect
          split at effect
          next same =>
            subst same
            cases effect
            exact ⟨record, rfl, rfl⟩
          next => cases effect
      | zincrby zset member =>
          simp only [effectOf] at effect
          split at effect
          next => cases effect
          next => cases effect
      | _ => cases effect
  | _ => cases effect

/-- The effects of an execution, in order. -/
def Job.script : Job → List Effect
  | .write fileId _ _ _ => [.listed (recordId (fileId.text ++ key)), .counted fileId.text]
  | .click fileId => [.counted fileId.text]

/-- What follows the first delimiter does not matter. -/
theorem recordId_append (fileId rest : Bytes) :
    recordId (fileId ++ (key ++ rest)) = recordId (fileId ++ key) := by
  obtain ⟨offset, inside, found⟩ := find_le_of_append_key key fileId []
  rw [List.append_nil] at found
  have longer := find_append_right found rest
  rw [List.append_assoc] at longer
  rw [recordId, recordId, found, longer, Option.map_some, Option.map_some, ← List.append_assoc,
    List.take_append_of_le_length (by rw [List.length_append]; omega)]

theorem recordId_of_clean {fileId : Bytes} (clean : Clean fileId) :
    recordId (fileId ++ key) = some fileId := by
  have found := find_key_field clean []
  rw [List.append_nil] at found
  rw [recordId, found, Option.map_some, List.take_left]

theorem recordId_eq_some {record fileId : Bytes} (isId : recordId record = some fileId) :
    ∃ rest, record = fileId ++ (key ++ rest) := by
  obtain ⟨offset, found, rfl⟩ := Option.map_eq_some_iff.mp isId
  obtain ⟨-, ⟨rest, occurs⟩, -⟩ := (find_eq_some_iff _ _ _).mp found
  exact ⟨rest, by rw [occurs, List.take_append_drop]⟩

section Emits

variable {α β : Type} {script : List Effect}

theorem emits_ask_bind {call : Call} {continue_ : Answer call → Code α}
    (silent : effectOf call = none)
    (continued : ∀ answer, Available call answer →
      (continue_ answer).Emits Available effectOf script) :
    (ask call >>= continue_).Emits Available effectOf script :=
  (Prog.emits_call_silent (I := interface) silent).mpr continued

theorem emits_ofC_bind {computation : C β} {continue_ : β → Code α}
    (continued : ∀ value, computation = .ok value →
      (continue_ value).Emits Available effectOf script) :
    (ofC computation >>= continue_).Emits Available effectOf script := by
  cases computation with
  | ok value => exact continued value rfl
  | error fault => trivial

theorem emits_connect_bind {caller : Func} {continue_ : Bool → Code α}
    (continued : (continue_ true).Emits Available effectOf script) :
    (ropConnectdbNopwd caller >>= continue_).Emits Available effectOf script := by
  refine emits_ask_bind rfl ?_
  rintro connection rfl
  exact continued

theorem ropListPush_emits {memory record : Bytes} (holds : strAt memory 0 = .ok record) :
    (ropListPush fileInfoList memory).Emits Available effectOf [.listed (recordId record)] := by
  rw [ropListPush, holds, ofC_ok, Prog.ret_bind]
  refine (Prog.emits_call_effect (I := interface) (effectOf_lpush record)).mpr
    ⟨[], rfl, fun reply _ => ?_⟩
  refine emits_ofC_bind fun reply _ => ?_
  cases reply <;> rfl

theorem ropZsetIncrement_emits {memory member : Bytes} (holds : strAt memory 0 = .ok member) :
    (ropZsetIncrement fileHotZset memory).Emits Available effectOf [.counted member] := by
  rw [ropZsetIncrement, holds, ofC_ok, Prog.ret_bind]
  refine (Prog.emits_call_effect (I := interface) (effectOf_zincrby member)).mpr
    ⟨[], rfl, fun reply _ => ?_⟩
  refine emits_ofC_bind fun reply _ => emits_ofC_bind fun str _ => ?_
  split <;> rfl

theorem increaseFilePv_emits (fileId : CString) :
    (increaseFilePv fileId.memory).Emits Available effectOf [.counted fileId.text] := by
  refine emits_connect_bind ?_
  refine (ropZsetIncrement_emits fileId.holds).bind fun _ => ?_
  exact emits_ask_bind rfl fun _ _ => rfl

theorem pushRecord_emits {record : Bytes} (recordFree : 0 ∉ record)
    (fits : record.length < valuesIdSize) (fileId : CString) :
    (pushRecord record fileId.memory).Emits Available effectOf
      [.listed (recordId record), .counted fileId.text] := by
  refine (ropListPush_emits (strAt_padTo recordFree fits)).bind fun _ => ?_
  refine (ropZsetIncrement_emits fileId.holds).bind fun _ => ?_
  exact emits_ask_bind rfl fun _ _ => rfl

theorem recordId_uploadInfo (fileId url filename createTime usr : Bytes) :
    recordId (uploadInfo fileId url filename createTime usr).record = recordId (fileId ++ key) := by
  rw [record_eq_terminated, terminated, List.append_assoc, List.append_assoc]
  exact recordId_append _ _

theorem writeRedis_emits (fileId url filename usr : CString) :
    (writeRedis fileId.memory url.memory filename.memory usr.memory).Emits Available effectOf
      (Job.write fileId url filename usr).script := by
  rw [writeRedis_eq fileId.holds url.holds filename.holds usr.holds]
  refine emits_connect_bind ?_
  refine emits_ask_bind rfl ?_
  intro block allocated
  cases block with
  | none => exact absurd rfl allocated
  | some block =>
      dsimp only
      split
      · refine emits_ask_bind rfl fun now _ => emits_ask_bind rfl fun _ _ => ?_
        split
        next fits =>
          have recordFree := uploadInfo_nulFree (strAt_nulFree fileId.holds)
            (strAt_nulFree url.holds) (strAt_nulFree filename.holds)
            (trimText_nulFree now.property.1) (strAt_nulFree usr.holds)
          rw [Job.script, ← recordId_uploadInfo fileId.text url.text filename.text
            (trimText now.val) usr.text]
          exact pushRecord_emits recordFree fits.2 fileId
        next => trivial
      · trivial

theorem program_emits (job : Job) :
    job.program.Emits Available effectOf job.script := by
  cases job with
  | write fileId url filename usr => exact writeRedis_emits fileId url filename usr
  | click fileId => exact increaseFilePv_emits fileId

end Emits

/-! ## What a command does to the two keys -/

section Serving

variable {store store' : Store} {call : Call} {answer : Answer call}

theorem available_of_serves (served : Serves store call answer store') : Available call answer := by
  cases call with
  | redisCommand command => trivial
  | _ => exact served.1

/-- Only commands change the store. -/
theorem serves_cases (served : Serves store call answer store') :
    (∃ list record, call = .redisCommand (.lpush list record) ∧ store' = store.push list record) ∨
    (∃ zset member, call = .redisCommand (.zincrby zset member) ∧
      store' = store.increment zset member) ∨
    (effectOf call = none ∧ store' = store) := by
  cases call with
  | redisCommand command =>
      obtain ⟨-, rfl⟩ := served
      cases command with
      | lpush list record => exact Or.inl ⟨list, record, rfl, rfl⟩
      | zincrby zset member => exact Or.inr (Or.inl ⟨zset, member, rfl, rfl⟩)
      | lrange list start stop => exact Or.inr (Or.inr ⟨rfl, rfl⟩)
      | zscore zset member => exact Or.inr (Or.inr ⟨rfl, rfl⟩)
  | _ => exact Or.inr (Or.inr ⟨rfl, served.2⟩)

/-- The number of records an effect lists. -/
def listedCount : Effect → Nat
  | .listed _ => 1
  | .counted _ => 0

/-- The number by which an effect raises the score of the file. -/
def countedCount (file : Bytes) : Effect → Int
  | .listed _ => 0
  | .counted id => if id = file then 1 else 0

theorem length_of_serves (served : Serves store call answer store') :
    (store'.lists fileInfoList).length =
      (store.lists fileInfoList).length + ((effectOf call).toList.map listedCount).sum := by
  rcases serves_cases served with ⟨list, record, rfl, rfl⟩ | ⟨zset, member, rfl, rfl⟩ | ⟨none, rfl⟩
  · by_cases same : list = fileInfoList
    · simp [effectOf, same, listedCount]
    · simp [effectOf, same, Store.push, Function.update_of_ne (Ne.symm same)]
  · by_cases same : zset = fileHotZset
    · simp [effectOf, same, listedCount]
    · simp [effectOf, same]
  · simp [none]

theorem suffix_of_serves (served : Serves store call answer store') :
    store.lists fileInfoList <:+ store'.lists fileInfoList := by
  rcases serves_cases served with ⟨list, record, rfl, rfl⟩ | ⟨zset, member, rfl, rfl⟩ | ⟨-, rfl⟩
  · by_cases same : list = fileInfoList
    · simp [same]
    · simp [Store.push, Function.update_of_ne (Ne.symm same)]
  · simp
  · exact List.suffix_rfl

theorem score_of_serves (file : Bytes) (served : Serves store call answer store') :
    store'.score fileHotZset file =
      store.score fileHotZset file + ((effectOf call).toList.map (countedCount file)).sum := by
  rcases serves_cases served with ⟨list, record, rfl, rfl⟩ | ⟨zset, member, rfl, rfl⟩ | ⟨none, rfl⟩
  · by_cases same : list = fileInfoList
    · simp [effectOf, same, countedCount]
    · simp [effectOf, same]
  · by_cases same : zset = fileHotZset
    · subst same
      by_cases this : member = file
      · simp [effectOf, countedCount, this]
      · simp [effectOf, countedCount, this, increment_score_other _ _ _ (Ne.symm this)]
    · simp [effectOf, same, Store.increment, Store.score, Ne.symm same]
  · simp [none]

end Serving

/-! ## An execution on its own -/

/-- The calls whose answers are not the time. -/
def Untimed : Call → Prop
  | .strftime _ _ => False
  | _ => True

section Alone

variable {serves : Store → (call : Call) → Answer call → Store → Prop} {store store' : Store}
  {rest : Code Int}
variable (answers : ∀ {store store' : Store} {call : Call} {answer : Answer call}, Untimed call →
  Serves store call answer store' → serves store call answer store')

theorem steps_ask {call : Call} {continue_ : Answer call → Code Int} {answer : Answer call}
    (served : serves store call answer store') (goesOn : continue_ answer = rest) :
    (ask call >>= continue_).Steps serves store [call] store' rest := by
  subst goesOn
  exact .call served (.refl _ _)

include answers

theorem steps_connect (store : Store) (caller : Func) (continue_ : Bool → Code Int) :
    (ropConnectdbNopwd caller >>= continue_).Steps serves store [.redisConnect caller] store
      (continue_ true) := by
  have answered : Serves store (.redisConnect caller) Connection.ok store := ⟨rfl, rfl⟩
  obtain ⟨after, program, goesOn⟩ : ∃ after : Connection → Code Int,
      ropConnectdbNopwd caller >>= continue_ = ask (.redisConnect caller) >>= after ∧
        after .ok = continue_ true := ⟨_, rfl, rfl⟩
  rw [program]
  exact steps_ask (answers trivial answered) goesOn

theorem steps_push (store : Store) {memory record : Bytes} (holds : strAt memory 0 = .ok record) :
    (ropListPush fileInfoList memory >>= fun _ => rest).Steps serves store
      [.redisCommand (.lpush fileInfoList record)] (store.push fileInfoList record) rest := by
  have answered : Serves store (.redisCommand (.lpush fileInfoList record)) (some _) _ := ⟨rfl, rfl⟩
  rw [ropListPush, holds]
  exact steps_ask (answers trivial answered) rfl

theorem steps_increment (store : Store) (fileId : CString) :
    (ropZsetIncrement fileHotZset fileId.memory >>= fun _ => rest).Steps serves store
      [.redisCommand (.zincrby fileHotZset fileId.text)]
      (store.increment fileHotZset fileId.text) rest := by
  have answered : Serves store (.redisCommand (.zincrby fileHotZset fileId.text)) (some _) _ :=
    ⟨rfl, rfl⟩
  have ends : ∀ str : Bytes,
      ((if str ≠ lit "OK" then return -1 else return 0 : Code Int) >>= fun _ => rest) = rest := by
    intro str
    split <;> rfl
  rw [ropZsetIncrement, fileId.holds]
  exact steps_ask (answers trivial answered) (ends _)

omit answers in
/-- The command that counts a file, and the end of the connection. -/
def countFile (caller : Func) (fileId : CString) : Code Int := do
  let _ ← ropZsetIncrement fileHotZset fileId.memory
  ropDisconnect caller
  return 0

theorem steps_countFile (store : Store) (caller : Func) (fileId : CString) :
    (countFile caller fileId).Steps serves store
      [.redisCommand (.zincrby fileHotZset fileId.text), .redisFree caller]
      (store.increment fileHotZset fileId.text) (.ret 0) := by
  have untimed : Untimed (.redisFree caller) := trivial
  have freed : Serves (store.increment fileHotZset fileId.text) (.redisFree caller) () _ :=
    ⟨trivial, rfl⟩
  exact (steps_increment answers store fileId).trans (steps_ask (answers untimed freed) rfl)

theorem steps_increaseFilePv (store : Store) (fileId : CString) :
    (increaseFilePv fileId.memory).Steps serves store
      [.redisConnect .increaseFilePv, .redisCommand (.zincrby fileHotZset fileId.text),
        .redisFree .increaseFilePv]
      (store.increment fileHotZset fileId.text) (.ret 0) :=
  (steps_connect answers store .increaseFilePv _).trans
    (steps_countFile answers store .increaseFilePv fileId)

omit answers in
/-- The calls of `write_redis` up to its first command. -/
def listCalls (record : Bytes) : List Call :=
  [.redisConnect .writeRedis, .malloc .writeRedis valuesIdSize,
    .strftime (lit "%Y-%m-%d %H-%M:%S") timeStringLen, .byteBefore .writeRedis,
    .redisCommand (.lpush fileInfoList record)]

theorem steps_writeRedis (store : Store) {fileId url filename usr : CString} {record : Bytes}
    {now : CText timeStringLen}
    (clock : serves store (.strftime (lit "%Y-%m-%d %H-%M:%S") timeStringLen) now store)
    (isRecord : (uploadInfo fileId.text url.text filename.text (trimText now.val) usr.text).record =
      record)
    (suffixFits : (suffixText filename.text).length < suffixLen)
    (recordFits : record.length < valuesIdSize) :
    (writeRedis fileId.memory url.memory filename.memory usr.memory).Steps serves store
      (listCalls record) (store.push fileInfoList record) (countFile .writeRedis fileId) := by
  have frontFits : (terminated [fileId.text, url.text, filename.text]).length < valuesIdSize := by
    refine Nat.lt_of_le_of_lt ?_ recordFits
    rw [← isRecord, record_eq_terminated]
    simp only [terminated, List.length_append]
    omega
  have recordFree : 0 ∉ record := isRecord ▸ uploadInfo_nulFree (strAt_nulFree fileId.holds)
    (strAt_nulFree url.holds) (strAt_nulFree filename.holds) (trimText_nulFree now.property.1)
    (strAt_nulFree usr.holds)
  have allocated : Serves store (.malloc .writeRedis valuesIdSize)
      (some ⟨zeros valuesIdSize, List.length_replicate⟩) store := ⟨Option.some_ne_none _, rfl⟩
  have before : Serves store (.byteBefore .writeRedis) (0 : Byte) store := ⟨trivial, rfl⟩
  have untimed : Untimed (.malloc .writeRedis valuesIdSize) ∧ Untimed (.byteBefore .writeRedis) :=
    ⟨trivial, trivial⟩
  have pushed : (pushRecord record fileId.memory).Steps serves store
      [.redisCommand (.lpush fileInfoList record)] (store.push fileInfoList record)
      (countFile .writeRedis fileId) := steps_push answers store (strAt_padTo recordFree recordFits)
  rw [writeRedis_eq fileId.holds url.holds filename.holds usr.holds]
  refine (steps_connect answers store .writeRedis _).trans ?_
  refine (steps_ask (answers untimed.1 allocated) (if_pos frontFits)).trans ?_
  refine (steps_ask clock rfl).trans ?_
  refine (steps_ask (answers untimed.2 before) ?_).trans pushed
  exact (if_pos ⟨suffixFits, isRecord ▸ recordFits⟩).trans (by rw [← isRecord])

end Alone

/-! ## An upload and a click -/

theorem smallTime_isText : 0 ∉ lit "2016-09-08 10-00:00" ∧
    (lit "2016-09-08 10-00:00").length ≤ timeStringLen - 1 := by decide

def smallTime : CText timeStringLen := ⟨lit "2016-09-08 10-00:00", smallTime_isText⟩

/-- An upload of a small file under the file id. -/
def smallWrite (file : Bytes) (nulFree : 0 ∉ file) : Job :=
  .write (.of file nulFree) (.of (lit "u") (by decide)) (.of (lit "n.t") (by decide))
    (.of (lit "user") (by decide))

def smallRecord (file : Bytes) : Bytes :=
  (uploadInfo file (lit "u") (lit "n.t") (trimText smallTime.val) (lit "user")).record

theorem steps_smallWrite (file : Bytes) (nulFree : 0 ∉ file)
    (fits : (smallRecord file).length < valuesIdSize) :
    (smallWrite file nulFree).program.Steps Serves empty (listCalls (smallRecord file))
      (empty.push fileInfoList (smallRecord file)) (countFile .writeRedis (.of file nulFree)) := by
  have clock : Serves empty (.strftime (lit "%Y-%m-%d %H-%M:%S") timeStringLen) smallTime empty :=
    ⟨trivial, rfl⟩
  exact steps_writeRedis (fun _ served => served) empty clock rfl (by decide) fits

/-- A small upload and a click on its file. -/
def uploadAndClick (file : Bytes) (nulFree : 0 ∉ file) : List Job :=
  [smallWrite file nulFree, .click (.of file nulFree)]

/-- The upload has listed its record and the click has been counted. -/
def clickedStore (file : Bytes) : Store :=
  (empty.push fileInfoList (smallRecord file)).increment fileHotZset file

/-- The click comes between the two commands of the upload. -/
theorem uploadAndClick_between (file : Bytes) (nulFree : 0 ∉ file)
    (fits : (smallRecord file).length < valuesIdSize) : ∃ clicked,
    Reachable empty (uploadAndClick file nulFree) ⟨clickedStore file,
      [⟨listCalls (smallRecord file), countFile .writeRedis (.of file nulFree)⟩,
        ⟨clicked, .ret 0⟩]⟩ := by
  have listed : Reachable empty (uploadAndClick file nulFree)
      ⟨empty.push fileInfoList (smallRecord file), [⟨listCalls (smallRecord file),
        countFile .writeRedis (.of file nulFree)⟩, ⟨[], increaseFilePv (CString.of file nulFree).memory⟩]⟩ :=
    Pool.reachable_steps [] [_] .refl (steps_smallWrite file nulFree fits)
  exact ⟨_, Pool.reachable_steps [_] [] listed
    (steps_increaseFilePv (fun _ served => served) _ (.of file nulFree))⟩

theorem uploadAndClick_finished (file : Bytes) (nulFree : 0 ∉ file)
    (fits : (smallRecord file).length < valuesIdSize) : ∃ uploaded clicked,
    Reachable empty (uploadAndClick file nulFree)
      ⟨(clickedStore file).increment fileHotZset file, [⟨uploaded, .ret 0⟩, ⟨clicked, .ret 0⟩]⟩ := by
  obtain ⟨clicked, reached⟩ := uploadAndClick_between file nulFree fits
  exact ⟨_, clicked, Pool.reachable_steps [] [_] reached
    (steps_countFile (fun _ served => served) _ .writeRedis (.of file nulFree))⟩

theorem finished_of_ret {store : Store} {threads : List (Thread interface Stop Int)}
    (returned : ∀ thread ∈ threads, thread.rest = .ret 0) :
    (⟨store, threads⟩ : Pool Store interface Stop Int).Finished :=
  fun thread member => ⟨0, returned thread member⟩

/-- The answers of a server that holds `store`. -/
def server (store : Store) : Env
  | .redisCommand command => some (store.serve command).1
  | call => allSucceed call

theorem server_reads (store : Store) : Reads (server store) store := fun _ => rfl

def smallItem (pv : Int) : Item where
  id := lit "g1/a"
  kind := 2
  titleM := lit "n.t"
  titleS := lit "user"
  descrip := lit "2016-09-08 10-00:00"
  url := lit "u"
  picurlM := lit "null/static/file_png/t.png"
  pv := pv
  hot := 0

/-! ## Finished executions -/

section Runs

variable {store : Store} {jobs : List Job} {pool : Pool Store interface Stop Int}

theorem follows_of_reachable (reached : Reachable store jobs pool) :
    List.Forall₂ (Thread.Follows Available effectOf) (jobs.map Job.script) pool.threads := by
  refine Pool.follows_of_reachable reached (fun _ _ _ _ served => available_of_serves served) ?_
  rw [List.forall₂_map_left_iff, List.forall₂_map_right_iff, List.forall₂_same]
  exact fun job _ => program_emits job

theorem sum_listedCount (jobs : List Job) :
    ((jobs.map Job.script).flatten.map listedCount).sum = jobs.countP Job.isWrite := by
  induction jobs with
  | nil => rfl
  | cons job jobs inductionHypothesis =>
      rw [List.map_cons, List.flatten_cons, List.map_append, List.sum_append, inductionHypothesis,
        List.countP_cons, Nat.add_comm]
      cases job <;> rfl

theorem sum_countedCount (file : Bytes) (jobs : List Job) :
    ((jobs.map Job.script).flatten.map (countedCount file)).sum =
      jobs.countP (Job.writes file) + jobs.countP (Job.clicks file) := by
  induction jobs with
  | nil => rfl
  | cons job jobs inductionHypothesis =>
      rw [List.map_cons, List.flatten_cons, List.map_append, List.sum_append, inductionHypothesis,
        List.countP_cons, List.countP_cons]
      cases job with
      | write fileId url filename usr =>
          by_cases same : fileId.text = file
          · simp [Job.script, countedCount, Job.writes, Job.clicks, same]
            omega
          · simp [Job.script, countedCount, Job.writes, Job.clicks, same]
      | click fileId =>
          by_cases same : fileId.text = file
          · simp [Job.script, countedCount, Job.writes, Job.clicks, same]
            omega
          · simp [Job.script, countedCount, Job.writes, Job.clicks, same]

theorem effects_of_finished (reached : Reachable store jobs pool) (finished : pool.Finished) :
    pool.effects effectOf = (jobs.map Job.script).flatten :=
  Pool.effects_of_finished (follows_of_reachable reached) finished

theorem shownScore_of_pos {file : Bytes} (positive : 1 ≤ store.score fileHotZset file)
    (isInt : IsInt (store.score fileHotZset file)) :
    shownScore store file = store.score fileHotZset file := by
  rw [Store.score] at positive isInt ⊢
  rw [shownScore]
  cases isMember : store.scores fileHotZset file with
  | none =>
      rw [isMember, Option.getD_none] at positive
      omega
  | some score =>
      rw [isMember, Option.getD_some] at isInt
      exact atoi_decimal isInt

theorem pv_of_score {file : Bytes} (positive : 1 ≤ store.score fileHotZset file)
    (isInt : IsInt (store.score fileHotZset file)) {env : Env} (reads : Reads env store)
    {fromId cnt code : Int} {items : List Item}
    (read : (readRedisToJson fromId cnt).outcome env = .returned (code, some items)) {item : Item}
    (member : item ∈ items) (isFile : item.id = file) :
    item.pv = store.score fileHotZset file - 1 := by
  have listed := (readRedisToJson_satisfies reads fromId cnt).2 _ read items rfl item member
  rw [listed.pv, isFile, shownScore_of_pos positive isInt]

/-- Finished executions have listed one record for each `write_redis` and
counted each file as often as it was written or clicked; the `pv` of a file
written once is its number of clicks. -/
theorem counts_exact (reached : Reachable store jobs pool) (finished : pool.Finished) :
    (∃ records, records.length = jobs.countP Job.isWrite ∧
      pool.store.lists fileInfoList = records ++ store.lists fileInfoList) ∧
    (∀ file, pool.store.score fileHotZset file = store.score fileHotZset file +
      (jobs.countP (Job.writes file) + jobs.countP (Job.clicks file))) ∧
    ∀ file, jobs.countP (Job.writes file) = 1 → store.scores fileHotZset file = none →
      IsInt (pool.store.score fileHotZset file) →
      ∀ (env : Env) (fromId cnt code : Int) (items : List Item), Reads env pool.store →
        (readRedisToJson fromId cnt).outcome env = .returned (code, some items) →
        ∀ item ∈ items, item.id = file → item.pv = jobs.countP (Job.clicks file) := by
  have effects := effects_of_finished reached finished
  have scores : ∀ file, pool.store.score fileHotZset file = store.score fileHotZset file +
      (jobs.countP (Job.writes file) + jobs.countP (Job.clicks file)) := by
    intro file
    have total := Pool.value_of_reachable reached fun _ _ _ _ served => score_of_serves file served
    rw [total, effects, sum_countedCount]
  refine ⟨?_, scores, ?_⟩
  · have grown := Pool.invariant_of_reachable
      (fun later : Store => store.lists fileInfoList <:+ later.lists fileInfoList) reached
      List.suffix_rfl fun _ _ _ _ served before => before.trans (suffix_of_serves served)
    have total := Pool.value_of_reachable reached fun _ _ _ _ served => length_of_serves served
    rw [effects, sum_listedCount] at total
    obtain ⟨records, shape⟩ := grown
    refine ⟨records, ?_, shape.symm⟩
    rw [← shape, List.length_append] at total
    omega
  · intro file once absent isInt env fromId cnt code items reads read item member isFile
    have before : store.score fileHotZset file = 0 := by rw [Store.score, absent, Option.getD_none]
    have total := scores file
    rw [before, once] at total
    rw [pv_of_score (by omega) isInt reads read member isFile]
    omega

end Runs

/-- A file is uploaded and clicked: it is counted twice and shown as clicked
once. -/
theorem counts_exact_upload : ∃ pool,
    Reachable empty (uploadAndClick (lit "g1/a") (by decide)) pool ∧ pool.Finished ∧
      pool.store.score fileHotZset (lit "g1/a") = 0 + ((1 : Nat) + (1 : Nat)) ∧
        (readRedisToJson 0 2).outcome (server pool.store) = .returned (0, some [smallItem 1]) ∧
          (smallItem 1).pv = (1 : Nat) := by
  obtain ⟨uploaded, clicked, reached⟩ :=
    uploadAndClick_finished (lit "g1/a") (by decide) (by decide +kernel)
  have finished : (⟨(clickedStore (lit "g1/a")).increment fileHotZset (lit "g1/a"),
      [⟨uploaded, .ret 0⟩, ⟨clicked, .ret 0⟩]⟩ : Pool Store interface Stop Int).Finished :=
    finished_of_ret (List.forall_mem_cons.mpr ⟨rfl, List.forall_mem_singleton.mpr rfl⟩)
  have small : IsInt (((clickedStore (lit "g1/a")).increment fileHotZset (lit "g1/a")).score fileHotZset
      (lit "g1/a")) := by decide +kernel
  have read : (readRedisToJson 0 2).outcome (server ((clickedStore (lit "g1/a")).increment fileHotZset
      (lit "g1/a"))) = .returned (0, some [smallItem 1]) := by decide +kernel
  obtain ⟨-, scores, shown⟩ := counts_exact reached finished
  exact ⟨_, reached, finished, scores (lit "g1/a"), read,
    shown (lit "g1/a") (by decide) rfl small _ 0 2 0 _ (server_reads _) read _
      (List.mem_singleton_self _) rfl⟩

/-! ## Executions on their way -/

/-- The file is a member with a score of at least one. -/
def Counted (store : Store) (file : Bytes) : Prop :=
  ∃ score, store.scores fileHotZset file = some score ∧ 1 ≤ score

/-- An execution of `write_redis` for the file that has listed its record and
has not counted it. -/
structure Between (file : Bytes) (job : Job) (thread : Thread interface Stop Int) : Prop where
  isWrite : job.writes file = true
  listed : ∃ record, recordId record = some file ∧
    .redisCommand (.lpush fileInfoList record) ∈ thread.made
  notCounted : .redisCommand (.zincrby fileHotZset file) ∉ thread.made

section Partial

variable {jobs : List Job} {pool : Pool Store interface Stop Int}

/-- How often the id is listed. -/
def listedFor (id : Option Bytes) : Effect → Nat
  | .listed other => if other = id then 1 else 0
  | .counted _ => 0

theorem count_of_serves (id : Option Bytes) {store store' : Store} {call : Call}
    {answer : Answer call} (served : Serves store call answer store') :
    ((store'.lists fileInfoList).map recordId).count id =
      ((store.lists fileInfoList).map recordId).count id +
        ((effectOf call).toList.map (listedFor id)).sum := by
  rcases serves_cases served with ⟨list, record, rfl, rfl⟩ | ⟨zset, member, rfl, rfl⟩ | ⟨none, rfl⟩
  · by_cases same : list = fileInfoList
    · simp [effectOf, same, listedFor, List.count_cons]
    · simp [effectOf, same, Store.push, Function.update_of_ne (Ne.symm same)]
  · by_cases same : zset = fileHotZset
    · simp [effectOf, same, listedFor]
    · simp [effectOf, same]
  · simp [none]

/-- Every record of the list was listed by some execution. -/
theorem listed_of_mem (reached : Reachable empty jobs pool) {record : Bytes}
    (member : record ∈ pool.store.lists fileInfoList) :
    .listed (recordId record) ∈ pool.effects effectOf := by
  have total := Pool.value_of_reachable reached
    fun _ _ _ _ served => count_of_serves (recordId record) served
  have positive : 0 < ((pool.store.lists fileInfoList).map recordId).count (recordId record) :=
    List.count_pos_iff.mpr (List.mem_map_of_mem member)
  by_contra absent
  have zero : ((pool.effects effectOf).map (listedFor (recordId record))).sum = 0 := by
    refine List.sum_eq_zero fun count isCount => ?_
    obtain ⟨effect, isEffect, rfl⟩ := List.mem_map.mp isCount
    cases effect with
    | listed id =>
        refine if_neg ?_
        rintro rfl
        exact absent isEffect
    | counted id => rfl
  rw [total, zero] at positive
  exact absurd positive (by simp [empty])

/-- Every counted file has its score. -/
theorem counted_of_mem (reached : Reachable empty jobs pool) {file : Bytes}
    (member : .counted file ∈ pool.effects effectOf) : Counted pool.store file := by
  have total : pool.store.score fileHotZset file = empty.score fileHotZset file +
      ((pool.effects effectOf).map (countedCount file)).sum :=
    Pool.value_of_reachable reached fun _ _ _ _ served => score_of_serves file served
  have weighs : (1 : Int) ∈ (pool.effects effectOf).map (countedCount file) :=
    List.mem_map.mpr ⟨.counted file, member, if_pos rfl⟩
  have nonnegative : ∀ count ∈ (pool.effects effectOf).map (countedCount file), 0 ≤ count := by
    intro count isCount
    obtain ⟨effect, -, rfl⟩ := List.mem_map.mp isCount
    cases effect with
    | listed id => exact le_rfl
    | counted id =>
        rw [countedCount]
        split <;> decide
  have positive : 1 ≤ pool.store.score fileHotZset file := by
    have sum := List.single_le_sum nonnegative 1 weighs
    have start : empty.score fileHotZset file = 0 := rfl
    omega
  rw [Store.score] at positive
  cases isMember : pool.store.scores fileHotZset file with
  | none =>
      rw [isMember, Option.getD_none] at positive
      omega
  | some score =>
      rw [isMember, Option.getD_some] at positive
      exact ⟨score, isMember, positive⟩

/-- A thread that has listed a file id belongs to an execution of `write_redis`
for the file, and has counted it or is between its two commands. -/
theorem between_of_follows {job : Job} {thread : Thread interface Stop Int}
    (readable : Readable job.fileId.text)
    (follows : Thread.Follows Available effectOf job.script thread) {id : Option Bytes}
    (listed : .listed id ∈ thread.effects effectOf) :
    id = some job.fileId.text ∧
      (.counted job.fileId.text ∈ thread.effects effectOf ∨
        Between job.fileId.text job thread) := by
  obtain ⟨pending, script, -⟩ := follows
  have inScript : .listed id ∈ job.script := script ▸ List.mem_append_left _ listed
  cases job with
  | click fileId => simp [Job.script] at inScript
  | write fileId url filename usr =>
      have clean : Clean fileId.text := readable.clean
      have isId : id = some fileId.text := by
        simpa [Job.script, recordId_of_clean clean] using inScript
      refine ⟨isId, ?_⟩
      by_cases counted : .counted fileId.text ∈ thread.effects effectOf
      · exact Or.inl counted
      · obtain ⟨call, made, effect⟩ := List.mem_filterMap.mp listed
        refine Or.inr ⟨decide_eq_true rfl, ?_, ?_⟩
        · obtain ⟨record, rfl, isRecord⟩ := effectOf_listed effect
          exact ⟨record, isRecord.trans isId, made⟩
        · intro increment
          exact counted (List.mem_filterMap.mpr ⟨_, increment, effectOf_zincrby _⟩)

/-- A record of the list begins with a file id that is counted, except between
the two commands of an execution. -/
theorem counted_or_between (reached : Reachable empty jobs pool)
    (readable : ∀ job ∈ jobs, Readable job.fileId.text) {record : Bytes}
    (member : record ∈ pool.store.lists fileInfoList) :
    ∃ file, recordId record = some file ∧ 0 ∉ file ∧ Readable file ∧
      (Counted pool.store file ∨ ∃ pair ∈ jobs.zip pool.threads, Between file pair.1 pair.2) := by
  obtain ⟨thread, isThread, listed⟩ := List.mem_flatMap.mp (listed_of_mem reached member)
  obtain ⟨job, isPair, follows⟩ := exists_pair_of_forall₂
    (List.forall₂_map_left_iff.mp (follows_of_reachable reached)) isThread
  have jobReadable := readable job (List.of_mem_zip isPair).1
  obtain ⟨isId, progress⟩ := between_of_follows jobReadable follows listed
  refine ⟨job.fileId.text, isId, strAt_nulFree job.fileId.holds, jobReadable, ?_⟩
  cases progress with
  | inl counted =>
      exact Or.inl (counted_of_mem reached (List.mem_flatMap.mpr ⟨thread, isThread, counted⟩))
  | inr between => exact Or.inr ⟨(job, thread), isPair, between⟩

/-- In every state each listed file has its counter, except between the two
commands of an execution, and so has what a reader shows then. -/
theorem listed_counted (reached : Reachable empty jobs pool)
    (readable : ∀ job ∈ jobs, Readable job.fileId.text) :
    (∀ record ∈ pool.store.lists fileInfoList, ∃ file, recordId record = some file ∧
      (Counted pool.store file ∨ ∃ pair ∈ jobs.zip pool.threads, Between file pair.1 pair.2)) ∧
    ∀ (env : Env) (fromId cnt code : Int) (items : List Item), Reads env pool.store →
      (readRedisToJson fromId cnt).outcome env = .returned (code, some items) →
      ∀ item ∈ items, IsInt (pool.store.score fileHotZset item.id) →
        0 ≤ item.pv ∨ ∃ pair ∈ jobs.zip pool.threads, Between item.id pair.1 pair.2 := by
  constructor
  · intro record member
    obtain ⟨file, isId, -, -, progress⟩ := counted_or_between reached readable member
    exact ⟨file, isId, progress⟩
  · intro env fromId cnt code items reads read item member isInt
    have listed := (readRedisToJson_satisfies reads fromId cnt).2 _ read items rfl item member
    obtain ⟨record, isRecord, front⟩ := listed.record
    obtain ⟨file, isId, nulFree, fileReadable, progress⟩ :=
      counted_or_between reached readable isRecord
    obtain ⟨rest, shape⟩ := recordId_eq_some isId
    have isFile := front file rest shape nulFree fileReadable
    subst isFile
    cases progress with
    | inl counted =>
        obtain ⟨score, isMember, positive⟩ := counted
        have shown : pool.store.score fileHotZset item.id = score := by
          rw [Store.score, isMember, Option.getD_some]
        rw [listed.pv, shownScore_of_pos (by omega) isInt]
        exact Or.inl (by omega)
    | inr between => exact Or.inr between

end Partial

/-- The file is clicked before its upload counts it: it has its counter then,
and is shown without a visit. -/
theorem listed_counted_upload : ∃ pool,
    Reachable empty (uploadAndClick (lit "g1/a") (by decide)) pool ∧
      (∀ record ∈ pool.store.lists fileInfoList, ∃ file, recordId record = some file ∧
        (Counted pool.store file ∨
          ∃ pair ∈ (uploadAndClick (lit "g1/a") (by decide)).zip pool.threads,
            Between file pair.1 pair.2)) ∧
      (readRedisToJson 0 2).outcome (server pool.store) = .returned (0, some [smallItem 0]) ∧
        (0 ≤ (smallItem 0).pv ∨
          ∃ pair ∈ (uploadAndClick (lit "g1/a") (by decide)).zip pool.threads,
            Between (lit "g1/a") pair.1 pair.2) := by
  obtain ⟨clicked, reached⟩ := uploadAndClick_between (lit "g1/a") (by decide) (by decide +kernel)
  have readable : ∀ job ∈ uploadAndClick (lit "g1/a") (by decide), Readable job.fileId.text :=
    List.forall_mem_cons.mpr ⟨⟨by decide, by decide⟩, List.forall_mem_singleton.mpr ⟨by decide, by decide⟩⟩
  have small : IsInt ((clickedStore (lit "g1/a")).score fileHotZset (lit "g1/a")) := by
    decide +kernel
  have read : (readRedisToJson 0 2).outcome (server (clickedStore (lit "g1/a"))) =
      .returned (0, some [smallItem 0]) := by decide +kernel
  obtain ⟨listed, shown⟩ := listed_counted reached readable
  exact ⟨_, reached, listed, read, shown _ 0 2 0 _ (server_reads _) read _
    (List.mem_singleton_self _) small⟩

/-- A listed file without a counter, and a listed id that never gets one. -/
theorem listed_not_counted :
    (∃ pool, Reachable empty [smallWrite (lit "g1/a") (by decide)] pool ∧
      ∃ record ∈ pool.store.lists fileInfoList, recordId record = some (lit "g1/a") ∧
        pool.store.scores fileHotZset (lit "g1/a") = none ∧
          shownScore pool.store (lit "g1/a") - 1 = -2) ∧
    ∃ pool, Reachable empty [smallWrite (lit "a||b") (by decide)] pool ∧ pool.Finished ∧
      ∃ record ∈ pool.store.lists fileInfoList, recordId record = some (lit "a") ∧
        pool.store.scores fileHotZset (lit "a") = none := by
  constructor
  · have reached : Reachable empty [smallWrite (lit "g1/a") (by decide)] _ :=
      Pool.reachable_steps [] [] .refl
        (steps_smallWrite (lit "g1/a") (by decide) (by decide +kernel))
    exact ⟨_, reached, smallRecord (lit "g1/a"), by simp, by decide +kernel, rfl, rfl⟩
  · have listed := steps_smallWrite (lit "a||b") (by decide) (by decide +kernel)
    have reached : Reachable empty [smallWrite (lit "a||b") (by decide)] _ :=
      Pool.reachable_steps [] [] .refl
        (listed.trans (steps_countFile (fun _ served => served) _ .writeRedis _))
    exact ⟨_, reached, finished_of_ret (List.forall_mem_singleton.mpr rfl), smallRecord (lit "a||b"),
      by simp, by decide +kernel, increment_scores_other _ _ _ (by decide)⟩

end DistStore.Counters

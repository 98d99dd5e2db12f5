import DistStore.Batch

/-!
# Wrappers around a single command

The functions of `redis_op.c` that send one command and judge its reply: some
only test it for null, some look at its type, and some compare its text with
`"OK"`.  hiredis prints a number for `%d`.
-/

set_option autoImplicit false

namespace DistStore.Wrappers

open CMemory RedisOp Batch
open Environment (Reply Env ofC)

/-- What `redisCommand` returns for a command; none stands for `NULL`. -/
abbrev Server := Command → Option Reply

/-- `%d` prints the low 32 bits of its argument as an `int`. -/
def percentD (value : Int) : Bytes := decimal (toInt value)

/-- The field `integer`, which hiredis clears in other replies. -/
def integerField : Reply → Int
  | .integer value => value
  | _ => 0

/-- `strcmp(str, "OK") == 0`. -/
def isOk (str : Bytes) : Bool := str.takeWhile (· ≠ 0) == lit "OK"

/-! ## The commands -/

def selectCommand (dbNo : Nat) : Command := ⟨lit "select %d", [percentD dbNo]⟩

def flushdbCommand : Command := ⟨lit "FLUSHDB", []⟩

def delCommand (key : Bytes) : Command := ⟨lit "DEL %s", [key]⟩

def expireatCommand (key : Bytes) (deleteTime : Int) : Command :=
  ⟨lit "EXPIREAT %s %d", [key, percentD deleteTime]⟩

def hincrbyCommand (key field : Bytes) (num : Nat) : Command :=
  ⟨lit "HINCRBY %s %s %d", [key, field, percentD num]⟩

def lpushCommand (key value : Bytes) : Command := ⟨lit "LPUSH %s %s", [key, value]⟩

def llenCommand (key : Bytes) : Command := ⟨lit "LLEN %s", [key]⟩

def ltrimCommand (key : Bytes) (begin_ end_ : Int) : Command :=
  ⟨lit "LTRIM %s %d %d", [key, percentD begin_, percentD end_]⟩

def zincrbyCommand (key member : Bytes) : Command := ⟨lit "ZINCRBY %s 1 %s", [key, member]⟩

def zscoreCommand (key member : Bytes) : Command := ⟨lit "ZSCORE %s %s", [key, member]⟩

def setCommand (key str : Bytes) : Command := ⟨lit "SET %s %s", [key, str]⟩

/-! ## Ways to judge a reply -/

def nullChecked : Option Reply → C Int
  | none => .ok (-1)
  | some _ => .ok 0

def typeChecked (reply : Option Reply) (judge : Reply → Int) : C Int := do
  let reply ← present reply
  return judge reply

def okChecked (reply : Option Reply) (success : Int) : C Int := do
  let reply ← present reply
  let str ← present reply.str
  return if isOk str then success else -1

/-! ## The wrappers -/

section Functions

variable (server : Server)

/-- `rop_selectdatabase`. -/
def ropSelectdatabase (dbNo : Nat) : C Int := nullChecked (server (selectCommand dbNo))

/-- `rop_flush_database`. -/
def ropFlushDatabase : C Int := nullChecked (server flushdbCommand)

/-- `rop_del_key`. -/
def ropDelKey (key : Bytes) : C Int :=
  typeChecked (server (delCommand key)) fun reply =>
    match reply with
    | .integer count => if count > 0 then 0 else -1
    | _ => -1

/-- `rop_set_key_lifecycle`; the test of the field `integer` overwrites what the
test of the type left in `retn`. -/
def ropSetKeyLifecycle (key : Bytes) (deleteTime : Int) : C Int :=
  typeChecked (server (expireatCommand key deleteTime)) fun reply =>
    if integerField reply = 1 then 0 else -1

/-- `rop_hincrement_one_field`. -/
def ropHincrementOneField (key field : Bytes) (num : Nat) : C Int :=
  nullChecked (server (hincrbyCommand key field num))

/-- `rop_list_push`. -/
def ropListPush (key value : Bytes) : C Int :=
  typeChecked (server (lpushCommand key value)) fun reply =>
    match reply with
    | .integer _ => 0
    | _ => -1

/-- `rop_get_list_cnt`. -/
def ropGetListCnt (key : Bytes) : C Int :=
  typeChecked (server (llenCommand key)) fun reply =>
    match reply with
    | .integer count => toInt count
    | _ => -1

/-- `rop_trim_list`. -/
def ropTrimList (key : Bytes) (begin_ end_ : Int) : C Int :=
  typeChecked (server (ltrimCommand key begin_ end_)) fun reply =>
    match reply with
    | .status _ => 0
    | _ => -1

/-- `rop_zset_increment`. -/
def ropZsetIncrement (key member : Bytes) : C Int :=
  okChecked (server (zincrbyCommand key member)) 0

/-- `rop_zset_get_score`. -/
def ropZsetGetScore (key member : Bytes) : C Int :=
  typeChecked (server (zscoreCommand key member)) fun reply =>
    match reply with
    | .string str => atoi str
    | _ => -1

/-- `rop_create_or_replace_hash_table`. -/
def ropCreateOrReplaceHashTable (heap : HashTable.Heap) (key : Bytes) (rows : List HashTable.Row) :
    C Int := do
  match ← HashTable.makeHmsetCommand heap key rows with
  | none => return -1
  | some cmd =>
      let format ← strAt cmd 0
      okChecked (server ⟨format, []⟩) 0

/-- `rop_set_string`. -/
def ropSetString (key str : Bytes) : C Int := okChecked (server (setCommand key str)) 1

end Functions

/-! ## The models of the callers -/

section Callers

variable {server : Server} {env : Env} {key : Bytes}

theorem isOk_iff {str : Bytes} (nulFree : 0 ∉ str) : isOk str = true ↔ str = lit "OK" := by
  unfold isOk
  rw [takeWhile_nulFree nulFree]
  exact beq_iff_eq

/-- For replies without NULs the whole text is compared. -/
theorem okChecked_eq {reply : Option Reply} {success : Int}
    (nulFree : ∀ given str, reply = some given → given.str = some str → 0 ∉ str) :
    okChecked reply success = (do
      let reply ← present reply
      let str ← present reply.str
      if str ≠ lit "OK" then return -1 else return success) := by
  unfold okChecked
  cases reply with
  | none => rfl
  | some reply =>
      simp only [present, ok_bind]
      cases hasStr : reply.str with
      | none => rfl
      | some str =>
          have ok := isOk_iff (nulFree reply str rfl hasStr)
          by_cases isSame : str = lit "OK"
          · have judged := ok.mpr isSame
            rw [isSame] at judged
            simp [judged, isSame]
          · have judged : isOk str = false := Bool.eq_false_iff.mpr fun judged => isSame (ok.mp judged)
            simp [judged, isSame]

theorem ropListPush_outcome {value text : Bytes} (holds : strAt value 0 = .ok text)
    (same : env (.redisCommand (.lpush key text)) = server (lpushCommand key text)) :
    (RedisOp.ropListPush key value).outcome env =
      (ofC (ropListPush server key text)).outcome env := by
  unfold RedisOp.ropListPush ropListPush typeChecked
  simp only [holds, Environment.ofC_ok, Program.Prog.ret_bind, Environment.outcome_ask_bind, same]
  cases server (lpushCommand key text) with
  | none => rfl
  | some reply => cases reply <;> rfl

theorem ropZsetGetScore_outcome {member text : Bytes} (holds : strAt member 0 = .ok text)
    (same : env (.redisCommand (.zscore key text)) = server (zscoreCommand key text)) :
    (RedisOp.ropZsetGetScore key member).outcome env =
      (ofC (ropZsetGetScore server key text)).outcome env := by
  unfold RedisOp.ropZsetGetScore ropZsetGetScore typeChecked
  simp only [holds, Environment.ofC_ok, Program.Prog.ret_bind, Environment.outcome_ask_bind, same]
  cases server (zscoreCommand key text) with
  | none => rfl
  | some reply => cases reply <;> rfl

theorem ropZsetIncrement_outcome {member text : Bytes} (holds : strAt member 0 = .ok text)
    (same : env (.redisCommand (.zincrby key text)) = server (zincrbyCommand key text))
    (nulFree : ∀ reply str, server (zincrbyCommand key text) = some reply →
      reply.str = some str → 0 ∉ str) :
    (RedisOp.ropZsetIncrement key member).outcome env =
      (ofC (ropZsetIncrement server key text)).outcome env := by
  unfold RedisOp.ropZsetIncrement ropZsetIncrement
  rw [okChecked_eq nulFree]
  simp only [holds, Environment.ofC_ok, Program.Prog.ret_bind, Environment.outcome_ask_bind, same,
    Environment.ofC_bind]
  cases server (zincrbyCommand key text) with
  | none => rfl
  | some reply =>
      cases hasStr : reply.str with
      | none => simp [present, hasStr]
      | some str =>
          simp only [present, hasStr, Environment.ofC_ok, Program.Prog.ret_bind]
          split <;> rfl

theorem ropCreateOrReplaceHashTable_fst {client : HashTable.Client} {conn : HashTable.Conn}
    (heap : HashTable.Heap) (rows : List HashTable.Row)
    (same : ∀ format, server ⟨format, []⟩ =
      (HashTable.redisCommand client conn format).map Prod.fst)
    (nulFree : ∀ format reply str, server ⟨format, []⟩ = some reply → reply.str = some str →
      0 ∉ str) :
    (HashTable.ropCreateOrReplaceHashTable client heap conn key rows).map Prod.fst =
      ropCreateOrReplaceHashTable server heap key rows := by
  unfold HashTable.ropCreateOrReplaceHashTable ropCreateOrReplaceHashTable
  cases HashTable.makeHmsetCommand heap key rows with
  | error fault => rfl
  | ok made =>
      cases made with
      | none => rfl
      | some cmd =>
          simp only [ok_bind]
          cases strAt cmd 0 with
          | error fault => rfl
          | ok format =>
              simp only [ok_bind, okChecked_eq (nulFree format)]
              rw [same]
              cases HashTable.redisCommand client conn format with
              | none => rfl
              | some answered =>
                  simp only [present, Option.map_some, ok_bind]
                  cases answered.1.str with
                  | none => rfl
                  | some str =>
                      simp only [ok_bind]
                      split <;> rfl

end Callers

/-! ## Return codes -/

/-- The result for a reply: `-1` without one, for an error and for an answer that
declines the command, and `code` for its success. -/
def Judges (success declined : Reply → Prop) (code : Int) (reply : Option Reply) (result : C Int) :
    Prop :=
  (reply = none → result = .ok (-1)) ∧
    (∀ given, reply = some given → IsError given ∨ declined given → result = .ok (-1)) ∧
    (∀ given, reply = some given → success given → result = .ok code)

def Never (_ : Reply) : Prop := False

theorem nullChecked_judges_iff (success : Reply → Prop) (reply : Option Reply) :
    Judges success Never 0 reply (nullChecked reply) ↔ ¬ ∃ given, reply = some given ∧ IsError given := by
  have differ : (0 : Int) ≠ -1 := by decide
  unfold Judges nullChecked Never
  cases reply with
  | none => simp
  | some given => simp [differ]

theorem typeChecked_judges_iff {success declined : Reply → Prop} {judge : Reply → Int}
    (reply : Option Reply) (wrong : ∀ given, IsError given ∨ declined given → judge given = -1)
    (right : ∀ given, success given → judge given = 0) :
    Judges success declined 0 reply (typeChecked reply judge) ↔ reply ≠ none := by
  unfold Judges typeChecked
  cases reply with
  | none => simp [present]
  | some given => simpa [present] using ⟨wrong given, right given⟩

theorem okChecked_judges_iff {success : Reply → Prop} {code : Int} (reply : Option Reply)
    (other : code ≠ -1) (hasStr : ∀ given, IsError given ∨ success given → given.str ≠ none) :
    Judges success Never code reply (okChecked reply code) ↔
      ∃ given, reply = some given ∧ (IsError given → given.str.any isOk = false) ∧
        (success given → given.str.any isOk = true) := by
  unfold Judges okChecked Never
  cases reply with
  | none => simp [present]
  | some given =>
      cases text : given.str with
      | none =>
          have neither : ¬ IsError given ∧ ¬ success given := by
            rw [← not_or]
            exact fun either => hasStr given either text
          simp [neither, present]
      | some str =>
          cases judged : isOk str with
          | false => simp [present, text, judged, other.symm]
          | true => simp [present, text, judged, other]

/-- A call of one of the functions that report success or failure. -/
inductive WrapperCall where
  | selectdatabase (dbNo : Nat)
  | flushDatabase
  | delKey (key : Bytes)
  | setKeyLifecycle (key : Bytes) (deleteTime : Int)
  | hincrementOneField (key field : Bytes) (num : Nat)
  | listPush (key value : Bytes)
  | trimList (key : Bytes) (begin_ end_ : Int)
  | zsetIncrement (key member : Bytes)
  | createOrReplaceHashTable (heap : HashTable.Heap) (key : Bytes) (rows : List HashTable.Row)
  | setString (key str : Bytes)

/-- The command `make_hmset_command` builds, if it does. -/
def builtCommand (heap : HashTable.Heap) (key : Bytes) (rows : List HashTable.Row) :
    Option Command :=
  match HashTable.makeHmsetCommand heap key rows with
  | .ok (some cmd) =>
      match strAt cmd 0 with
      | .ok format => some ⟨format, []⟩
      | .error _ => none
  | _ => none

namespace WrapperCall

def run (server : Server) : WrapperCall → C Int
  | selectdatabase dbNo => ropSelectdatabase server dbNo
  | flushDatabase => ropFlushDatabase server
  | delKey key => ropDelKey server key
  | setKeyLifecycle key deleteTime => ropSetKeyLifecycle server key deleteTime
  | hincrementOneField key field num => ropHincrementOneField server key field num
  | listPush key value => ropListPush server key value
  | trimList key begin_ end_ => ropTrimList server key begin_ end_
  | zsetIncrement key member => ropZsetIncrement server key member
  | createOrReplaceHashTable heap key rows => ropCreateOrReplaceHashTable server heap key rows
  | setString key str => ropSetString server key str

/-- The command that is sent. -/
def command : WrapperCall → Option Command
  | selectdatabase dbNo => some (selectCommand dbNo)
  | flushDatabase => some flushdbCommand
  | delKey key => some (delCommand key)
  | setKeyLifecycle key deleteTime => some (expireatCommand key deleteTime)
  | hincrementOneField key field num => some (hincrbyCommand key field num)
  | listPush key value => some (lpushCommand key value)
  | trimList key begin_ end_ => some (ltrimCommand key begin_ end_)
  | zsetIncrement key member => some (zincrbyCommand key member)
  | createOrReplaceHashTable heap key rows => builtCommand heap key rows
  | setString key str => some (setCommand key str)

/-- The replies with which the server reports that it executed the command. -/
def Success : WrapperCall → Reply → Prop
  | delKey _, .integer count => 0 < count
  | setKeyLifecycle _ _, .integer set_ => set_ = 1
  | hincrementOneField _ _ _, .integer _ => True
  | listPush _ _, .integer _ => True
  | zsetIncrement _ _, .string _ => True
  | selectdatabase _, .status str => str = lit "OK"
  | flushDatabase, .status str => str = lit "OK"
  | trimList _ _ _, .status str => str = lit "OK"
  | createOrReplaceHashTable _ _ _, .status str => str = lit "OK"
  | setString _ _, .status str => str = lit "OK"
  | _, _ => False

/-- The replies with which it reports that there was no such key. -/
def Declined : WrapperCall → Reply → Prop
  | delKey _, .integer count => count ≤ 0
  | setKeyLifecycle _ _, .integer set_ => set_ ≠ 1
  | _, _ => False

/-- The code for success; only `rop_set_string` has one of its own. -/
def code : WrapperCall → Int
  | setString _ _ => 1
  | _ => 0

end WrapperCall

/-- The return code fits whatever the server replies to the command. -/
def Truthful (call : WrapperCall) (server : Server) : Prop :=
  ∀ command, call.command = some command →
    Judges call.Success call.Declined call.code (server command) (call.run server)

/-- The replies that are judged wrongly: errors where only null is tested, null
where a field is read at once, and for the comparison also an error `"OK"` and
any score. -/
def WrapperCall.Misjudged : WrapperCall → Option Reply → Prop
  | selectdatabase _, some (.error _) => True
  | flushDatabase, some (.error _) => True
  | hincrementOneField _ _ _, some (.error _) => True
  | delKey _, none => True
  | setKeyLifecycle _ _, none => True
  | listPush _ _, none => True
  | trimList _ _ _, none => True
  | zsetIncrement _ _, none => True
  | zsetIncrement _ _, some (.error text) => isOk text = true
  | zsetIncrement _ _, some (.string score) => isOk score = false
  | createOrReplaceHashTable _ _ _, none => True
  | createOrReplaceHashTable _ _ _, some (.error text) => isOk text = true
  | setString _ _, none => True
  | setString _ _, some (.error text) => isOk text = true
  | _, _ => False

theorem create_run {server : Server} {heap : HashTable.Heap} {key : Bytes}
    {rows : List HashTable.Row} {command : Command}
    (built : builtCommand heap key rows = some command) :
    ropCreateOrReplaceHashTable server heap key rows = okChecked (server command) 0 := by
  unfold builtCommand at built
  unfold ropCreateOrReplaceHashTable
  split at built
  · rename_i cmd made
    rw [made]
    split at built
    · rename_i format holds
      simp only [ok_bind, holds]
      rw [← Option.some.inj built]
    · cases built
  · cases built

theorem isOk_ok : isOk (lit "OK") = true := by decide

section Families

variable {call : WrapperCall} {reply : Option Reply}

theorem nullChecked_truthful (onNull : ¬ call.Misjudged none)
    (onReply : ∀ given, call.Misjudged (some given) ↔ IsError given) :
    Judges call.Success Never 0 reply (nullChecked reply) ↔ ¬ call.Misjudged reply := by
  rw [nullChecked_judges_iff]
  cases reply with
  | none => simpa using onNull
  | some given => simp [onReply]

theorem typeChecked_truthful {judge : Reply → Int} (onNull : call.Misjudged none)
    (onReply : ∀ given, ¬ call.Misjudged (some given))
    (wrong : ∀ given, IsError given ∨ call.Declined given → judge given = -1)
    (right : ∀ given, call.Success given → judge given = 0) :
    Judges call.Success call.Declined 0 reply (typeChecked reply judge) ↔ ¬ call.Misjudged reply := by
  rw [typeChecked_judges_iff _ wrong right]
  cases reply with
  | none => simpa using onNull
  | some given => simpa using onReply given

theorem okChecked_truthful {code : Int} (other : code ≠ -1) (onNull : call.Misjudged none)
    (hasStr : ∀ given, IsError given ∨ call.Success given → given.str ≠ none)
    (onReply : ∀ given, ¬ call.Misjudged (some given) ↔
      (IsError given → given.str.any isOk = false) ∧
        (call.Success given → given.str.any isOk = true)) :
    Judges call.Success Never code reply (okChecked reply code) ↔ ¬ call.Misjudged reply := by
  rw [okChecked_judges_iff _ other hasStr]
  cases reply with
  | none => simpa using onNull
  | some given => simp [onReply]

end Families

theorem judges_iff (call : WrapperCall) (server : Server) {command : Command}
    (sent : call.command = some command) :
    Judges call.Success call.Declined call.code (server command) (call.run server) ↔
      ¬ call.Misjudged (server command) := by
  cases call with
  | selectdatabase dbNo =>
      cases sent
      refine nullChecked_truthful id fun given => ?_
      cases given <;> exact Iff.rfl
  | flushDatabase =>
      cases sent
      refine nullChecked_truthful id fun given => ?_
      cases given <;> exact Iff.rfl
  | hincrementOneField key field num =>
      cases sent
      refine nullChecked_truthful id fun given => ?_
      cases given <;> exact Iff.rfl
  | delKey key =>
      cases sent
      refine typeChecked_truthful trivial (fun given => ?_) (fun given => ?_) fun given => ?_
      · exact id
      · cases given <;> simp [WrapperCall.Declined, IsError]
      · cases given <;> simp [WrapperCall.Success]
  | setKeyLifecycle key deleteTime =>
      cases sent
      refine typeChecked_truthful trivial (fun given => ?_) (fun given => ?_) fun given => ?_
      · exact id
      · cases given <;> simp +contextual [WrapperCall.Declined, IsError, integerField]
      · cases given <;> simp +contextual [WrapperCall.Success, integerField]
  | listPush key value =>
      cases sent
      refine typeChecked_truthful trivial (fun given => ?_) (fun given => ?_) fun given => ?_
      · exact id
      · cases given <;> simp [WrapperCall.Declined, IsError]
      · cases given <;> simp [WrapperCall.Success]
  | trimList key begin_ end_ =>
      cases sent
      refine typeChecked_truthful trivial (fun given => ?_) (fun given => ?_) fun given => ?_
      · exact id
      · cases given <;> simp [WrapperCall.Declined, IsError]
      · cases given <;> simp [WrapperCall.Success]
  | zsetIncrement key member =>
      cases sent
      refine okChecked_truthful (show (0 : Int) ≠ -1 by decide) trivial (fun given => ?_) fun given => ?_
      · cases given <;> simp [WrapperCall.Success, IsError, Reply.str]
      · cases given <;> simp [WrapperCall.Misjudged, WrapperCall.Success, IsError, Reply.str]
  | createOrReplaceHashTable heap key rows =>
      have run : (WrapperCall.createOrReplaceHashTable heap key rows).run server =
          okChecked (server command) 0 := create_run sent
      rw [run]
      refine okChecked_truthful (show (0 : Int) ≠ -1 by decide) trivial (fun given => ?_) fun given => ?_
      · cases given <;> simp [WrapperCall.Success, IsError, Reply.str]
      · cases given <;>
          simp +contextual [WrapperCall.Misjudged, WrapperCall.Success, IsError, Reply.str, isOk_ok]
  | setString key str =>
      cases sent
      refine okChecked_truthful (show (1 : Int) ≠ -1 by decide) trivial (fun given => ?_) fun given => ?_
      · cases given <;> simp [WrapperCall.Success, IsError, Reply.str]
      · cases given <;>
          simp +contextual [WrapperCall.Misjudged, WrapperCall.Success, IsError, Reply.str, isOk_ok]

/-- The ten functions judge every reply rightly except for the ones listed. -/
theorem truthful_iff (call : WrapperCall) (server : Server) :
    Truthful call server ↔
      ∀ command, call.command = some command → ¬ call.Misjudged (server command) := by
  apply forall₂_congr
  intro command sent
  exact judges_iff call server sent

/-- The new score is no `"OK"`. -/
theorem not_truthful_zsetIncrement :
    ¬ Truthful (.zsetIncrement (lit "FILE_HOT_ZSET") (lit "m")) fun _ => some (.string (lit "1")) := by
  intro truthful
  have result := (truthful _ rfl).2.2 _ rfl trivial
  revert result
  decide

end DistStore.Wrappers

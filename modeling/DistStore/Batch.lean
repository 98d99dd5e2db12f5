import DistStore.HashFill

/-!
# Batches of commands

Four functions of `redis_op.c` give hiredis a batch of commands in one loop and
read as many replies in a second one.  The replies are objects that the caller
has to free; the one variable for them keeps the old pointer when no reply
comes.
-/

set_option autoImplicit false

namespace DistStore.Batch

open CMemory Environment RedisOp

def redisCommandSize : Nat := 300

def redisOk : Int := 0

def redisErr : Int := -1

/-! ## hiredis -/

/-- A format and the texts for its conversions. -/
structure Command where
  format : Bytes
  arguments : List Bytes
  deriving DecidableEq, Repr

/-- Which calls of `redisAppendCommand` take their command, which replies come
and what they are, counted from the start of the connection. -/
structure Service where
  takes : Nat → Bool
  comes : Nat → Bool
  answer : Nat → Command → Reply

/-- A context: its error flag, how often it was given a command, the commands
whose replies were consumed and those whose replies were not. -/
structure Conn where
  err : Bool
  calls : Nat
  answered : List Command
  pending : List Command
  deriving DecidableEq, Repr

def Conn.fresh : Conn := ⟨false, 0, [], []⟩

def redisAppendCommand (service : Service) (conn : Conn) (command : Command) : Int × Conn :=
  if service.takes conn.calls then
    (redisOk, { conn with calls := conn.calls + 1, pending := conn.pending ++ [command] })
  else (redisErr, { conn with calls := conn.calls + 1, err := true })

/-- `redisGetReply` with the pointer in `*reply`, which an error leaves as it
is.  Reply number `n` of the connection is the object `n`. -/
def redisGetReply (service : Service) (conn : Conn) (reply : Option Nat) : Int × Conn × Option Nat :=
  match conn.pending with
  | [] => (redisErr, { conn with err := true }, reply)
  | command :: pending =>
      if conn.err = false ∧ service.comes conn.answered.length = true then
        (redisOk, { conn with answered := conn.answered ++ [command], pending },
          some conn.answered.length)
      else (redisErr, { conn with err := true }, reply)

/-- `redisCommand`: the object with the reply, or `NULL`. -/
def redisCommand (service : Service) (conn : Conn) (command : Command) : Option Nat × Conn :=
  let (retn, next) := redisAppendCommand service conn command
  if retn ≠ redisOk then (none, next)
  else
    let (retn, last, reply) := redisGetReply service next none
    if retn ≠ redisOk then (none, last) else (reply, last)

/-! ## The two loops -/

def appendCommands (service : Service) (command : Nat → Command) : Nat → Nat → Conn → Int × Conn
  | 0, _, conn => (0, conn)
  | left + 1, i, conn =>
      let (retn, next) := redisAppendCommand service conn (command i)
      if retn ≠ redisOk then (-1, next) else appendCommands service command left (i + 1) next

/-- The second loop, with the pointers given to `freeReplyObject`. -/
def collectReplies (service : Service) :
    Nat → Conn → Option Nat → List (Option Nat) → Int × Conn × List (Option Nat)
  | 0, conn, _, freed => (0, conn, freed)
  | left + 1, conn, reply, freed =>
      let (retn, next, reply) := redisGetReply service conn reply
      if retn ≠ redisOk then (-1, next, freed ++ [reply])
      else collectReplies service left next reply (freed ++ [reply])

structure Outcome where
  retn : Int
  conn : Conn
  freed : List (Option Nat)

/-- The four functions differ in the command they make of an index. -/
def batch (service : Service) (conn : Conn) (command : Nat → Command) (num : Int) : Outcome :=
  let (retn, queued) := appendCommands service command num.toNat 0 conn
  if retn ≠ 0 then ⟨retn, queued, []⟩
  else
    let (retn, last, freed) := collectReplies service num.toNat queued none []
    ⟨retn, last, freed⟩

/-! ## The four functions -/

section Functions

variable (service : Service) (conn : Conn)

/-- `rop_redis_append`; the texts are given as formats. -/
def ropRedisAppend (cmds : Nat → CText redisCommandSize) (cmdNum : Int) : Outcome :=
  batch service conn (fun i => ⟨(cmds i).val, []⟩) cmdNum

/-- `rop_hash_set_append`. -/
def ropHashSetAppend (key : Bytes) (fields : Nat → CText HashTable.fieldIdSize)
    (values : Nat → CText valuesIdSize) (valNum : Int) : Outcome :=
  batch service conn
    (fun i => ⟨lit "hset %s %s %s", [key, (fields i).val, (values i).val]⟩) valNum

/-- `rop_list_push_append`. -/
def ropListPushAppend (key : Bytes) (values : Nat → CText valuesIdSize) (valNum : Int) : Outcome :=
  batch service conn (fun i => ⟨lit "lpush %s %s", [key, (values i).val]⟩) valNum

/-- `rop_zset_increment_append`. -/
def ropZsetIncrementAppend (key : Bytes) (values : Nat → CText valuesIdSize) (valNum : Int) :
    Outcome :=
  batch service conn (fun i => ⟨lit "ZINCRBY %s 1 %s", [key, (values i).val]⟩) valNum

end Functions

/-- A call of one of them. -/
inductive BatchCall where
  | redisAppend (cmds : Nat → CText redisCommandSize) (cmdNum : Int)
  | hashSetAppend (key : Bytes) (fields : Nat → CText HashTable.fieldIdSize)
      (values : Nat → CText valuesIdSize) (valNum : Int)
  | listPushAppend (key : Bytes) (values : Nat → CText valuesIdSize) (valNum : Int)
  | zsetIncrementAppend (key : Bytes) (values : Nat → CText valuesIdSize) (valNum : Int)

namespace BatchCall

def run (service : Service) (conn : Conn) : BatchCall → Outcome
  | redisAppend cmds cmdNum => ropRedisAppend service conn cmds cmdNum
  | hashSetAppend key fields values valNum =>
      ropHashSetAppend service conn key fields values valNum
  | listPushAppend key values valNum => ropListPushAppend service conn key values valNum
  | zsetIncrementAppend key values valNum => ropZsetIncrementAppend service conn key values valNum

/-- The command for an index. -/
def command : BatchCall → Nat → Command
  | redisAppend cmds _, i => ⟨(cmds i).val, []⟩
  | hashSetAppend key fields values _, i =>
      ⟨lit "hset %s %s %s", [key, (fields i).val, (values i).val]⟩
  | listPushAppend key values _, i => ⟨lit "lpush %s %s", [key, (values i).val]⟩
  | zsetIncrementAppend key values _, i => ⟨lit "ZINCRBY %s 1 %s", [key, (values i).val]⟩

/-- The length of the batch as it was given; none runs for a negative one. -/
def num : BatchCall → Int
  | redisAppend _ cmdNum => cmdNum
  | hashSetAppend _ _ _ valNum => valNum
  | listPushAppend _ _ valNum => valNum
  | zsetIncrementAppend _ _ valNum => valNum

theorem run_eq (service : Service) (conn : Conn) (call : BatchCall) :
    call.run service conn = batch service conn call.command call.num := by
  cases call <;> rfl

end BatchCall

/-! ## What a batch can do -/

section Batch

variable {service : Service}

theorem redisAppendCommand_taken {conn : Conn} (taken : service.takes conn.calls = true)
    (command : Command) :
    redisAppendCommand service conn command =
      (redisOk, { conn with calls := conn.calls + 1, pending := conn.pending ++ [command] }) := by
  unfold redisAppendCommand
  rw [if_pos taken]

theorem redisAppendCommand_refused {conn : Conn} (refused : service.takes conn.calls = false)
    (command : Command) :
    redisAppendCommand service conn command =
      (redisErr, { conn with calls := conn.calls + 1, err := true }) := by
  unfold redisAppendCommand
  rw [refused]
  rfl

/-- The commands of the batch are taken. -/
def Taken (service : Service) (conn : Conn) (count : Nat) : Prop :=
  ∀ i < count, service.takes (conn.calls + i) = true

/-- The reply that the `i`-th read is for comes. -/
def Comes (service : Service) (conn : Conn) (i : Nat) : Prop :=
  conn.err = false ∧ service.comes (conn.answered.length + i) = true

theorem appendCommands_taken {conn : Conn} {count : Nat} (taken : Taken service conn count)
    (command : Nat → Command) (i : Nat) :
    appendCommands service command count i conn =
      (0, { conn with
        calls := conn.calls + count
        pending := conn.pending ++ (List.range' i count).map command }) := by
  induction count generalizing conn i with
  | zero => rw [List.range'_zero, List.map_nil, List.append_nil]; rfl
  | succ count inductionHypothesis =>
      have first : service.takes conn.calls = true := taken 0 (Nat.succ_pos count)
      have later : Taken service
          { conn with calls := conn.calls + 1, pending := conn.pending ++ [command i] } count := by
        intro j inside
        have next := taken (j + 1) (Nat.succ_lt_succ inside)
        rwa [Nat.add_comm j, ← Nat.add_assoc] at next
      unfold appendCommands
      rw [redisAppendCommand_taken first]
      simp only [ne_eq, not_true_eq_false, if_false]
      rw [inductionHypothesis later, List.range'_succ, List.map_cons]
      simp only [List.append_assoc, List.singleton_append, Nat.add_assoc, Nat.add_comm 1]

theorem appendCommands_refused {conn : Conn} {count : Nat} (refused : ¬ Taken service conn count)
    (command : Nat → Command) (i : Nat) :
    ∃ queued, appendCommands service command count i conn = (-1, queued) ∧ queued.err = true ∧
      queued.answered = conn.answered := by
  induction count generalizing conn i with
  | zero => exact absurd (fun _ inside => absurd inside (Nat.not_lt_zero _)) refused
  | succ count inductionHypothesis =>
      unfold appendCommands
      cases first : service.takes conn.calls with
      | false =>
          rw [redisAppendCommand_refused first]
          exact ⟨_, rfl, rfl, rfl⟩
      | true =>
          have later : ¬ Taken service
              { conn with calls := conn.calls + 1, pending := conn.pending ++ [command i] } count := by
            intro taken
            apply refused
            intro j inside
            cases j with
            | zero => exact first
            | succ j =>
                have next := taken j (Nat.lt_of_succ_lt_succ inside)
                rwa [Nat.add_assoc, Nat.add_comm 1] at next
          rw [redisAppendCommand_taken first]
          exact inductionHypothesis later (i + 1)

theorem redisGetReply_comes {conn : Conn} {command : Command} {pending : List Command}
    (waiting : conn.pending = command :: pending) (comes : Comes service conn 0)
    (reply : Option Nat) :
    redisGetReply service conn reply =
      (redisOk, { conn with answered := conn.answered ++ [command], pending },
        some conn.answered.length) := by
  unfold redisGetReply
  rw [waiting]
  exact if_pos comes

theorem redisGetReply_lost {conn : Conn} (lost : ¬ Comes service conn 0) (reply : Option Nat) :
    redisGetReply service conn reply = (redisErr, { conn with err := true }, reply) := by
  unfold redisGetReply
  cases conn.pending with
  | nil => rfl
  | cons command pending => exact if_neg lost

/-- The context behind `count` replies. -/
def Conn.consume (conn : Conn) (count : Nat) : Conn :=
  { conn with
    answered := conn.answered ++ conn.pending.take count
    pending := conn.pending.drop count }

/-- The objects of `count` replies. -/
def objects (conn : Conn) (count : Nat) : List (Option Nat) :=
  (List.range' conn.answered.length count).map some

/-- The pointer behind `count` reads. -/
def lastReply (conn : Conn) (reply : Option Nat) : Nat → Option Nat
  | 0 => reply
  | count + 1 => some (conn.answered.length + count)

/-- Each reply that comes is freed once and its pointer is kept. -/
theorem collectReplies_come {conn : Conn} {count : Nat} (waiting : count ≤ conn.pending.length)
    (come : ∀ i < count, Comes service conn i) (left : Nat) (reply : Option Nat)
    (freed : List (Option Nat)) :
    collectReplies service (count + left) conn reply freed =
      collectReplies service left (conn.consume count) (lastReply conn reply count)
        (freed ++ objects conn count) := by
  induction count generalizing conn reply freed with
  | zero =>
      unfold Conn.consume objects
      rw [Nat.zero_add, List.take_zero, List.append_nil, List.drop_zero, List.range'_zero,
        List.map_nil, List.append_nil]
      rfl
  | succ count inductionHypothesis =>
      cases pendingIs : conn.pending with
      | nil =>
          rw [pendingIs] at waiting
          exact absurd waiting (Nat.not_succ_le_zero count)
      | cons command pending =>
          rw [pendingIs] at waiting
          have later : ∀ i < count, Comes service
              { conn with answered := conn.answered ++ [command], pending } i := by
            intro i inside
            obtain ⟨usable, next⟩ := come (i + 1) (Nat.succ_lt_succ inside)
            refine ⟨usable, ?_⟩
            rw [List.length_append, List.length_singleton, Nat.add_assoc, Nat.add_comm 1]
            exact next
          rw [Nat.succ_add, collectReplies,
            redisGetReply_comes pendingIs (come 0 (Nat.succ_pos count))]
          simp only [ne_eq, not_true_eq_false, if_false]
          rw [inductionHypothesis (Nat.le_of_succ_le_succ waiting) later]
          have consumed : Conn.consume { conn with answered := conn.answered ++ [command], pending }
              count = conn.consume (count + 1) := by
            unfold Conn.consume
            rw [pendingIs, List.append_assoc, List.take_succ_cons, List.drop_succ_cons]
            rfl
          have pointer : lastReply { conn with answered := conn.answered ++ [command], pending }
              (some conn.answered.length) count = lastReply conn reply (count + 1) := by
            cases count with
            | zero => rfl
            | succ count =>
                apply congrArg some
                rw [List.length_append, List.length_singleton, Nat.add_assoc, Nat.add_comm 1]
          have released : freed ++ [some conn.answered.length] ++
              objects { conn with answered := conn.answered ++ [command], pending } count =
                freed ++ objects conn (count + 1) := by
            unfold objects
            rw [List.append_assoc, List.length_append, List.length_singleton, List.range'_succ]
            rfl
          rw [consumed, pointer, released]

/-- The context behind a batch that is taken. -/
def Conn.queue (conn : Conn) (command : Nat → Command) (count : Nat) : Conn :=
  { conn with
    calls := conn.calls + count
    pending := conn.pending ++ (List.range' 0 count).map command }

theorem queue_length (conn : Conn) (command : Nat → Command) (count : Nat) :
    count ≤ (conn.queue command count).pending.length := by
  unfold Conn.queue
  rw [List.length_append, List.length_map, List.length_range']
  exact Nat.le_add_left count _

/-- The three courses of a batch: a command is not taken, a reply does not come,
or all is done. -/
inductive Course (service : Service) (conn : Conn) (command : Nat → Command) (count : Nat) :
    Outcome → Prop
  | refused (queued : Conn) (notTaken : ¬ Taken service conn count) (err : queued.err = true)
      (answered : queued.answered = conn.answered) : Course service conn command count ⟨-1, queued, []⟩
  | lost (i : Nat) (taken : Taken service conn count) (inside : i < count)
      (before : ∀ j < i, Comes service conn j) (missing : ¬ Comes service conn i) :
      Course service conn command count
        ⟨-1, { (conn.queue command count).consume i with err := true },
          objects conn i ++ [lastReply conn none i]⟩
  | done (taken : Taken service conn count) (come : ∀ i < count, Comes service conn i) :
      Course service conn command count
        ⟨0, (conn.queue command count).consume count, objects conn count⟩

theorem consume_answered {conn : Conn} {count : Nat} (waiting : count ≤ conn.pending.length) :
    (conn.consume count).answered.length = conn.answered.length + count := by
  unfold Conn.consume
  rw [List.length_append, List.length_take, Nat.min_eq_left waiting]

theorem exists_first {property : Nat → Prop} {count : Nat} (fails : ¬ ∀ i < count, property i) :
    ∃ i, i < count ∧ ¬ property i ∧ ∀ j < i, property j := by
  classical
  simp only [not_forall] at fails
  obtain ⟨inside, missing⟩ := Nat.find_spec fails
  refine ⟨Nat.find fails, inside, missing, ?_⟩
  intro j before
  by_contra first
  exact Nat.find_min fails before ⟨before.trans inside, first⟩

theorem batch_course (conn : Conn) (command : Nat → Command) (num : Int) :
    Course service conn command num.toNat (batch service conn command num) := by
  generalize counted : num.toNat = count
  unfold batch
  rw [counted]
  by_cases taken : Taken service conn count
  · have queued : appendCommands service command count 0 conn = (0, conn.queue command count) :=
      appendCommands_taken taken command 0
    have enough := queue_length conn command count
    rw [queued]
    simp only [ne_eq, not_true_eq_false, if_false]
    by_cases come : ∀ i < count, Comes service conn i
    · have collected := @collectReplies_come service (conn.queue command count) count enough come
        0 none []
      rw [Nat.add_zero, List.nil_append] at collected
      rw [collected]
      exact Course.done taken come
    · obtain ⟨i, inside, missing, before⟩ := exists_first come
      have upTo : i ≤ (conn.queue command count).pending.length := inside.le.trans enough
      have split : count = i + (count - i - 1 + 1) := by omega
      have collected := @collectReplies_come service (conn.queue command count) i upTo before
        (count - i - 1 + 1) none []
      rw [← split, List.nil_append] at collected
      have lost : ¬ Comes service ((conn.queue command count).consume i) 0 := by
        intro comes
        apply missing
        refine ⟨comes.1, ?_⟩
        have reply := comes.2
        rw [consume_answered upTo] at reply
        exact reply
      rw [collected, collectReplies, redisGetReply_lost lost]
      exact Course.lost i taken inside before missing
  · obtain ⟨queued, refused, err, answered⟩ := appendCommands_refused taken command 0
    rw [refused]
    exact Course.refused queued taken err answered

end Batch

theorem run_course (service : Service) (conn : Conn) (call : BatchCall) :
    Course service conn call.command call.num.toNat (call.run service conn) := by
  rw [BatchCall.run_eq]
  exact batch_course conn call.command call.num

/-! ## The return value -/

def IsError : Reply → Prop
  | .error _ => True
  | _ => False

def Conn.appended (conn : Conn) : Nat := conn.answered.length + conn.pending.length

def Conn.consumed (conn : Conn) : Nat := conn.answered.length

/-- Without an error every reply is consumed. -/
def Conn.InStep (conn : Conn) : Prop := conn.err = false → conn.consumed = conn.appended

/-- Command `i` of the batch is taken and its reply comes. -/
def Answered (service : Service) (conn : Conn) (i : Nat) : Prop :=
  service.takes (conn.calls + i) = true ∧ conn.err = false ∧
    service.comes (conn.appended + i) = true

/-- And its reply is an error. -/
def Failed (service : Service) (conn : Conn) (call : BatchCall) (i : Nat) : Prop :=
  IsError (service.answer (conn.appended + i) (call.command i))

/-- The server got every command of the batch and executed it. -/
def Executed (service : Service) (conn : Conn) (call : BatchCall) : Prop :=
  ∀ i < call.num.toNat, Answered service conn i ∧ ¬ Failed service conn call i

/-- `0` for a batch that was executed and `-1` for any other. -/
def Truthful (service : Service) (conn : Conn) (call : BatchCall) : Prop :=
  ((call.run service conn).retn = 0 ↔ Executed service conn call) ∧
    (¬ Executed service conn call → (call.run service conn).retn = -1)

theorem retn_eq (service : Service) {conn : Conn} (inStep : conn.InStep) (call : BatchCall) :
    ((call.run service conn).retn = 0 ∧ ∀ i < call.num.toNat, Answered service conn i) ∨
      ((call.run service conn).retn = -1 ∧ ¬ ∀ i < call.num.toNat, Answered service conn i) := by
  have comes_iff : ∀ i, Comes service conn i ↔
      conn.err = false ∧ service.comes (conn.appended + i) = true := by
    intro i
    apply and_congr_right
    intro usable
    rw [← inStep usable]
    rfl
  have course := run_course service conn call
  generalize call.run service conn = outcome at course ⊢
  cases course with
  | refused queued notTaken =>
      refine Or.inr ⟨rfl, ?_⟩
      intro all
      exact notTaken fun i inside => (all i inside).1
  | lost i taken inside before missing =>
      refine Or.inr ⟨rfl, ?_⟩
      intro all
      exact missing ((comes_iff i).mpr (all i inside).2)
  | done taken come =>
      refine Or.inl ⟨rfl, ?_⟩
      intro i inside
      exact ⟨taken i inside, (comes_iff i).mp (come i inside)⟩

/-- The second loop of the other model of `rop_hash_set_append`. -/
theorem readReplies_retn {count : Nat} {conn : HashTable.Conn}
    (enough : count ≤ conn.flush.replies.length) :
    ((HashTable.readReplies count conn).1 = 0 ∧ ∀ i < count, conn.link i = true) ∨
      ((HashTable.readReplies count conn).1 = -1 ∧ ¬ ∀ i < count, conn.link i = true) := by
  induction count generalizing conn with
  | zero => exact Or.inl ⟨rfl, fun i inside => absurd inside (Nat.not_lt_zero i)⟩
  | succ count inductionHypothesis =>
      unfold HashTable.readReplies HashTable.redisGetReply
      cases first : conn.link 0 with
      | false =>
          refine Or.inr ⟨rfl, ?_⟩
          intro all
          exact absurd (first.symm.trans (all 0 (Nat.succ_pos count))) (by decide)
      | true =>
          cases got : conn.flush.replies with
          | nil =>
              rw [got] at enough
              cases enough
          | cons reply replies =>
              rw [got] at enough
              simp only [reduceCtorEq, if_false]
              have shift : (∀ i < count + 1, conn.link i = true) ↔
                  ∀ i < count, conn.link (i + 1) = true := by
                rw [Nat.forall_lt_succ_left]
                exact and_iff_right first
              rw [shift]
              apply inductionHypothesis
              show count ≤ (replies ++ []).length
              rw [List.append_nil]
              exact Nat.le_of_succ_le_succ enough

/-- Both models of `rop_hash_set_append` return the same. -/
theorem ropHashSetAppend_retn {service : Service} {link : Nat → Bool} {key name : Bytes}
    (client : HashTable.Client) (db : HashTable.Db) (row : Nat → HashTable.Row) (count : Nat)
    (holds : strAt key 0 = .ok name) (takes : ∀ i, service.takes i = true)
    (comes : ∀ i, service.comes i = link i) :
    ∃ last, HashTable.ropHashSetAppend client (.fresh db link) key ((List.range count).map row) =
      .ok ((ropHashSetAppend service .fresh name (fun i => (row i).field)
        (fun i => (row i).value) count).retn, last) := by
  have answered_iff : (∀ i < count, Answered service .fresh i) ↔ ∀ i < count, link i = true := by
    apply forall₂_congr
    intro i _
    have number : Conn.fresh.appended + i = i := Nat.zero_add i
    unfold Answered
    rw [takes, number, comes]
    exact ⟨fun all => all.2.2, fun up => ⟨rfl, rfl, up⟩⟩
  have rows : ((List.range count).map row).length = count := by
    rw [List.length_map, List.length_range]
  have returned : ((ropHashSetAppend service .fresh name (fun i => (row i).field)
        (fun i => (row i).value) count).retn = 0 ∧ ∀ i < count, Answered service .fresh i) ∨
      ((ropHashSetAppend service .fresh name (fun i => (row i).field)
        (fun i => (row i).value) count).retn = -1 ∧ ¬ ∀ i < count, Answered service .fresh i) :=
    @retn_eq service .fresh (fun _ => rfl)
      (.hashSetAppend name (fun i => (row i).field) (fun i => (row i).value) count)
  unfold HashTable.ropHashSetAppend
  rw [HashFill.queueRows_eq holds, ok_bind, rows]
  simp only [ne_eq, not_true_eq_false, if_false]
  generalize queued : (⟨db, [] ++ ((List.range count).map row).map (HashFill.hsetCommand name), [],
    link⟩ : HashTable.Conn) = conn
  have enough : count ≤ conn.flush.replies.length := by
    rw [← queued]
    unfold HashTable.Conn.flush
    simp only [List.nil_append, HashFill.execAll_length, List.length_map, List.length_range]
    exact le_rfl
  have linkIs : conn.link = link := by rw [← queued]
  rw [answered_iff] at returned
  have read := readReplies_retn enough
  rw [linkIs] at read
  have same : (HashTable.readReplies count conn).1 =
      (ropHashSetAppend service .fresh name (fun i => (row i).field)
        (fun i => (row i).value) count).retn := by
    rcases read with ⟨zero, up⟩ | ⟨negative, down⟩
    · exact zero.trans (returned.resolve_right fun other => other.2 up).1.symm
    · exact negative.trans (returned.resolve_left fun other => down other.2).1.symm
  refine ⟨(HashTable.readReplies count conn).2, ?_⟩
  rw [← same, ← queued]
  rfl

/-- The return value is wrong exactly where all replies come and one of them is
an error: no reply is looked at. -/
theorem batch_truthful_iff (service : Service) {conn : Conn} (inStep : conn.InStep) (call : BatchCall) :
    Truthful service conn call ↔
      ¬ ((∀ i < call.num.toNat, Answered service conn i) ∧
        ∃ i < call.num.toNat, Failed service conn call i) := by
  have split : Executed service conn call ↔ (∀ i < call.num.toNat, Answered service conn i) ∧
      ¬ ∃ i < call.num.toNat, Failed service conn call i := by
    constructor
    · intro executed
      refine ⟨fun i inside => (executed i inside).1, ?_⟩
      intro ⟨i, inside, failed⟩
      exact (executed i inside).2 failed
    · intro ⟨answered, noneFailed⟩ i inside
      exact ⟨answered i inside, fun failed => noneFailed ⟨i, inside, failed⟩⟩
  have returned := retn_eq service inStep call
  unfold Truthful
  rw [split]
  generalize (∀ i < call.num.toNat, Answered service conn i) = allAnswered at returned ⊢
  generalize (∃ i < call.num.toNat, Failed service conn call i) = someFailed
  rcases returned with ⟨zero, answered⟩ | ⟨negative, unanswered⟩
  · simp [zero, answered]
  · simp [negative, unanswered]

/-- A connection on which everything is taken and answered. -/
def linked (answer : Nat → Command → Reply) : Service := ⟨fun _ => true, fun _ => true, answer⟩

def wrongTyped : Service := linked fun _ _ => HashTable.wrongType

def onePush : BatchCall :=
  .listPushAppend (lit "k") (fun _ => HashFill.cText valuesIdSize (lit "v")) 1

theorem batch_truthful_iff_onePush :
    Truthful (linked fun _ _ => .integer 1) .fresh onePush ↔
      ¬ ((∀ i < onePush.num.toNat, Answered (linked fun _ _ => .integer 1) .fresh i) ∧
        ∃ i < onePush.num.toNat, Failed (linked fun _ _ => .integer 1) .fresh onePush i) :=
  batch_truthful_iff _ (fun _ => rfl) _

/-- A push to a key that holds no list. -/
theorem not_truthful_onePush :
    Conn.fresh.InStep ∧ ¬ Truthful wrongTyped .fresh onePush := by
  refine ⟨fun _ => rfl, ?_⟩
  intro truthful
  have executed := truthful.1.mp (by decide)
  exact (executed 0 (by decide)).2 trivial

/-! ## The reply objects -/

/-- Each object that the call got is freed once, and no other one is. -/
def ReleasedOnce (conn : Conn) (outcome : Outcome) : Prop :=
  ∀ object, outcome.freed.count (some object) =
    if conn.consumed ≤ object ∧ object < outcome.conn.consumed then 1 else 0

/-- All commands are taken, the first replies come and the next one does not. -/
def LostMidway (service : Service) (conn : Conn) (call : BatchCall) : Prop :=
  Taken service conn call.num.toNat ∧ ∃ i, 0 < i ∧ i < call.num.toNat ∧
    (∀ j < i, Comes service conn j) ∧ ¬ Comes service conn i

theorem count_objects (conn : Conn) (count object : Nat) :
    (objects conn count).count (some object) =
      if conn.consumed ≤ object ∧ object < conn.consumed + count then 1 else 0 := by
  unfold objects Conn.consumed
  rw [List.count_map_of_injective _ _ (Option.some_injective Nat), List.count_range_1']

theorem consume_consumed (conn : Conn) (command : Nat → Command) {i count : Nat}
    (inside : i ≤ count) :
    ((conn.queue command count).consume i).consumed = conn.consumed + i :=
  consume_answered (inside.trans (queue_length conn command count))

/-- A reply is freed twice exactly where a later one is lost. -/
theorem releasedOnce_iff (service : Service) (conn : Conn) (call : BatchCall) :
    ReleasedOnce conn (call.run service conn) ↔ ¬ LostMidway service conn call := by
  have course := run_course service conn call
  generalize call.run service conn = outcome at course ⊢
  cases course with
  | refused queued notTaken err answered =>
      refine iff_of_true ?_ fun midway => notTaken midway.1
      intro object
      have none_ : ¬ (conn.consumed ≤ object ∧ object < queued.consumed) := by
        unfold Conn.consumed
        rw [answered]
        omega
      rw [if_neg none_]
      rfl
  | lost i taken inside before missing =>
      have consumed : Conn.consumed { (conn.queue call.command call.num.toNat).consume i with
          err := true } = conn.consumed + i := consume_consumed conn call.command inside.le
      cases i with
      | zero =>
          apply iff_of_true
          · intro object
            have none_ : ¬ (conn.consumed ≤ object ∧ object < conn.consumed + 0) := by omega
            simp only [consumed]
            rw [if_neg none_]
            rfl
          · intro ⟨_, i, positive, _, come, _⟩
            exact missing (come 0 positive)
      | succ i =>
          apply iff_of_false
          · intro once
            have twice := once (conn.consumed + i)
            have delivered : conn.consumed ≤ conn.consumed + i ∧
                conn.consumed + i < conn.consumed + (i + 1) := by omega
            simp only [consumed] at twice
            rw [List.count_append, count_objects, if_pos delivered] at twice
            have again : [lastReply conn none (i + 1)].count (some (conn.consumed + i)) = 1 :=
              List.count_singleton_self
            omega
          · exact not_not.mpr ⟨taken, i + 1, Nat.succ_pos i, inside, before, missing⟩
  | done taken come =>
      apply iff_of_true
      · intro object
        rw [consume_consumed conn call.command le_rfl]
        exact count_objects conn call.num.toNat object
      · intro ⟨_, i, _, inside, _, missing⟩
        exact missing (come i inside)

/-- The connection is lost behind the first reply. -/
def dropped : Service := ⟨fun _ => true, fun reply => reply == 0, fun _ _ => .integer 1⟩

def twoPushes : BatchCall :=
  .listPushAppend (lit "k") (fun _ => HashFill.cText valuesIdSize (lit "v")) 2

theorem not_releasedOnce_twoPushes : ¬ ReleasedOnce .fresh (twoPushes.run dropped .fresh) := by
  intro once
  have twice := once 0
  revert twice
  decide

/-! ## Runs of batches on one connection -/

def runCalls (service : Service) : List BatchCall → Conn → Conn
  | [], conn => conn
  | call :: calls, conn => runCalls service calls (call.run service conn).conn

/-- The next command fails, or gets the reply with its own number. -/
def OwnReply (service : Service) (conn : Conn) (command : Command) : Prop :=
  ∃ last, (redisCommand service conn command = (none, last) ∧ last.err = true) ∨
    (redisCommand service conn command = (some conn.appended, last) ∧
      last.answered[conn.appended]? = some command)

theorem inStep_run (service : Service) {conn : Conn} (inStep : conn.InStep) (call : BatchCall) :
    (call.run service conn).conn.InStep := by
  have course := run_course service conn call
  generalize call.run service conn = outcome at course ⊢
  cases course with
  | refused queued _ err _ =>
      intro usable
      exact absurd (err.symm.trans usable) (by decide)
  | lost i _ _ _ _ =>
      intro usable
      cases usable
  | done taken come =>
      intro usable
      have same : conn.consumed = conn.appended := inStep usable
      unfold Conn.consumed Conn.appended at same ⊢
      unfold Conn.consume Conn.queue
      simp only [List.length_drop, List.length_append, List.length_map, List.length_range']
      omega

theorem ownReply_of_inStep {service : Service} {conn : Conn} (usable : conn.err = false)
    (inStep : conn.InStep) (command : Command) : OwnReply service conn command := by
  have same := inStep usable
  have none_ : conn.pending = [] := by
    unfold Conn.consumed Conn.appended at same
    exact List.length_eq_zero_iff.mp (by omega)
  unfold OwnReply redisCommand
  cases taken : service.takes conn.calls with
  | false =>
      rw [redisAppendCommand_refused taken]
      exact ⟨_, Or.inl ⟨rfl, rfl⟩⟩
  | true =>
      rw [redisAppendCommand_taken taken, none_]
      simp only [ne_eq, not_true_eq_false, if_false]
      by_cases comes : Comes service
          { conn with calls := conn.calls + 1, pending := [] ++ [command] } 0
      · rw [redisGetReply_comes rfl comes]
        refine ⟨⟨conn.err, conn.calls + 1, conn.answered ++ [command], []⟩, Or.inr ⟨?_, ?_⟩⟩
        · rw [← same]
          rfl
        · rw [← same]
          exact List.getElem?_concat_length
      · rw [redisGetReply_lost comes]
        exact ⟨_, Or.inl ⟨rfl, rfl⟩⟩

/-- After any calls of the four functions a usable connection has no reply left
over, and the next command gets its own. -/
theorem runCalls_inStep (service : Service) {conn : Conn} (inStep : conn.InStep)
    (calls : List BatchCall) (usable : (runCalls service calls conn).err = false) :
    (runCalls service calls conn).consumed = (runCalls service calls conn).appended ∧
      ∀ command, OwnReply service (runCalls service calls conn) command := by
  induction calls generalizing conn with
  | nil => exact ⟨inStep usable, ownReply_of_inStep usable inStep⟩
  | cons call calls inductionHypothesis =>
      exact inductionHypothesis (inStep_run service inStep call) usable

theorem runCalls_inStep_twoCalls :
    (runCalls (linked fun _ _ => .integer 1) [twoPushes, onePush] .fresh).consumed =
        (runCalls (linked fun _ _ => .integer 1) [twoPushes, onePush] .fresh).appended ∧
      ∀ command, OwnReply (linked fun _ _ => .integer 1)
        (runCalls (linked fun _ _ => .integer 1) [twoPushes, onePush] .fresh) command :=
  runCalls_inStep _ (fun _ => rfl) _ (by decide)

end DistStore.Batch

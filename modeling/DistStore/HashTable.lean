import DistStore.RedisOp
import DistStore.Lib.Words

/-!
# The hash tables of `redis_op.c`

`rop_create_or_replace_hash_table` writes one `hmset` command as a text and
gives it to hiredis as a format; `rop_hash_set_append` gives hiredis a command
for every field, with the texts as arguments.  What hiredis makes of a format
is part of the client: a format without `'%'` is cut into its words, and texts
given for `%s` stay whole.
-/

set_option autoImplicit false

namespace DistStore.HashTable

open CMemory Words Environment RedisOp

def fieldIdSize : Nat := 100

/-- Entry `i` of `RFIELDS` and of `RVALUES`. -/
structure Row where
  field : CText fieldIdSize
  value : CText valuesIdSize

/-! ## The server -/

inductive Entry where
  | hash (values : Bytes → Option Bytes)
  /-- a value of another kind -/
  | other

abbrev Db := Bytes → Option Entry

def emptyDb : Db := fun _ => none

/-- The hash under a key, an empty one when there is none. -/
def hashAt : Option Entry → Option (Bytes → Option Bytes)
  | none => some fun _ => none
  | some (.hash values) => some values
  | some .other => none

def wrongNumber : Reply := .error (lit "ERR wrong number of arguments")

def wrongType : Reply := .error (lit "WRONGTYPE Operation against a key holding the wrong kind of value")

/-- `HSET` and `HMSET` set the fields from left to right; they differ in the
reply. -/
def exec : List Bytes → Db → Reply × Db
  | name :: key :: arguments, db =>
      if name ≠ lit "hset" ∧ name ≠ lit "hmset" then (.error (lit "ERR unknown command"), db)
      else if arguments = [] ∨ arguments.length % 2 = 1 then (wrongNumber, db)
      else
        match hashAt (db key) with
        | none => (wrongType, db)
        | some values =>
            let created := ((pairUp arguments).map Prod.fst).dedup.countP fun field =>
              (values field).isNone
            (if name = lit "hmset" then .status (lit "OK") else .integer created,
              Function.update db key (some (.hash (assign values (pairUp arguments)))))
  | _, db => (wrongNumber, db)

def execAll : List (List Bytes) → Db → List Reply × Db
  | [], db => ([], db)
  | command :: commands, db =>
      let (reply, next) := exec command db
      let (replies, last) := execAll commands next
      (reply :: replies, last)

/-! ## hiredis -/

/-- The arguments hiredis makes of a format and the texts behind it, or none
when it refuses the format. -/
structure Client where
  command : Bytes → List Bytes → Option (List Bytes)
  words_of_plain : ∀ format, 37 ∉ format → command format [] = some (words 32 format)
  whole : ∀ key field value, command (lit "hset %s %s %s") [key, field, value] =
    some [lit "hset", key, field, value]

/-- A connection: the commands not sent yet, the replies not read yet, and
which of the next reads from the socket come through. -/
structure Conn where
  db : Db
  output : List (List Bytes)
  replies : List Reply
  link : Nat → Bool

def Conn.fresh (db : Db) (link : Nat → Bool) : Conn := ⟨db, [], [], link⟩

/-- `redisAppendCommand`; none stands for `REDIS_ERR`. -/
def redisAppendCommand (client : Client) (conn : Conn) (format : Bytes) (arguments : List Bytes) :
    Option Conn :=
  (client.command format arguments).map fun command =>
    { conn with output := conn.output ++ [command] }

/-- The pending commands are sent and executed. -/
def Conn.flush (conn : Conn) : Conn :=
  let (replies, db) := execAll conn.output conn.db
  { conn with db, output := [], replies := conn.replies ++ replies }

/-- `redisGetReply`. -/
def redisGetReply (conn : Conn) : Option (Reply × Conn) :=
  if conn.link 0 = false then none
  else
    match conn.flush.replies with
    | [] => none
    | reply :: replies =>
        some (reply, { conn.flush with replies, link := fun read => conn.link (read + 1) })

/-- `redisCommand` without texts behind the format. -/
def redisCommand (client : Client) (conn : Conn) (format : Bytes) : Option (Reply × Conn) :=
  (redisAppendCommand client conn format []).bind redisGetReply

/-! ## The command text -/

/-- The allocator: a block of the size asked for, and for `realloc` one that
starts with the old contents. -/
structure Heap where
  malloc : (size : Nat) → Option (Block size)
  realloc : (old : Bytes) → (size : Nat) → Option { block : Block size // old.take size <+: block.val }

def startSize : Nat := 1024 * 1024

def blank : Bytes := lit " "

structure CmdBuf where
  cmd : Bytes
  useSize : Nat
  bufSize : Nat

def addUnsigned (first second : Nat) : Nat := (first + second) % 2 ^ 32

/-- The test behind each `use_size +=`. -/
def CmdBuf.grow (heap : Heap) (buf : CmdBuf) : Option CmdBuf :=
  if buf.useSize ≥ buf.bufSize then
    (heap.realloc buf.cmd (addUnsigned buf.useSize startSize)).map fun block =>
      ⟨block.val.val, buf.useSize, addUnsigned buf.bufSize startSize⟩
  else some buf

/-- The four steps of the loop differ in the text and its limit. -/
def appendPieces (heap : Heap) : List (Bytes × Nat) → CmdBuf → C (Option CmdBuf)
  | [], buf => .ok (some buf)
  | (source, limit) :: pieces, buf => do
      let cmd ← strncat buf.cmd source 0 limit
      let used ← strlen source 0
      match CmdBuf.grow heap ⟨cmd, addUnsigned buf.useSize used, buf.bufSize⟩ with
      | none => return none
      | some grown => appendPieces heap pieces grown

def rowPieces (row : Row) : List (Bytes × Nat) :=
  [(blank ++ [0], 1), (row.field.val ++ [0], fieldIdSize),
    (blank ++ [0], 1), (row.value.val ++ [0], valuesIdSize)]

/-- `make_hmset_command`; the key counts for 200 bytes whatever its length. -/
def makeHmsetCommand (heap : Heap) (key : Bytes) (rows : List Row) : C (Option Bytes) := do
  match heap.malloc startSize with
  | none => return none
  | some block =>
      let cleared ← memset block.val 0 0 startSize
      let named ← strncat cleared (lit "hmset" ++ [0]) 0 6
      let spaced ← strncat named (blank ++ [0]) 0 1
      let keyed ← strncat spaced key 0 200
      let built ← appendPieces heap (rows.flatMap rowPieces) ⟨keyed, 5 + 1 + 200, startSize⟩
      return built.map CmdBuf.cmd

/-! ## The two functions -/

/-- `rop_create_or_replace_hash_table`. -/
def ropCreateOrReplaceHashTable (client : Client) (heap : Heap) (conn : Conn) (key : Bytes)
    (rows : List Row) : C (Int × Conn) := do
  match ← makeHmsetCommand heap key rows with
  | none => return (-1, conn)
  | some cmd =>
      let format ← strAt cmd 0
      let (reply, next) ← present (redisCommand client conn format)
      let str ← present reply.str
      if str ≠ lit "OK" then return (-1, next) else return (0, next)

/-- The first loop of `rop_hash_set_append`. -/
def queueRows (client : Client) (key : Bytes) : List Row → Conn → C (Int × Conn)
  | [], conn => .ok (0, conn)
  | row :: rows, conn => do
      let name ← strAt key 0
      match redisAppendCommand client conn (lit "hset %s %s %s")
          [name, row.field.val, row.value.val] with
      | none => return (-1, conn)
      | some next => queueRows client key rows next

/-- The second loop, which looks at no reply. -/
def readReplies : Nat → Conn → Int × Conn
  | 0, conn => (0, conn)
  | count + 1, conn =>
      match redisGetReply conn with
      | none => (-1, conn)
      | some (_, next) => readReplies count next

/-- `rop_hash_set_append`. -/
def ropHashSetAppend (client : Client) (conn : Conn) (key : Bytes) (rows : List Row) :
    C (Int × Conn) := do
  let (queued, next) ← queueRows client key rows conn
  if queued ≠ 0 then return (queued, next) else return readReplies rows.length next

end DistStore.HashTable

import DistStore.Lib.CMemory
import DistStore.Lib.Program

/-!
# What the programs ask of their environment

The calls `upload` and `data_cgi` make to the C library, the operating system
and hiredis, with the answers the source can tell apart.  A call carries the
function that makes it, so that two calls of one request can be answered
differently.  Logging and the constant texts printed to the web server are
left out.
-/

set_option autoImplicit false

namespace DistStore.Environment

open CMemory Program

/-- The functions of the source that call the environment. -/
inductive Func where
  | getBuf
  | uploadFile
  | fdfsClient
  | getUrl
  | writeRedis
  | readRedisToJson
  | increaseFilePv
  | strReplace
  deriving DecidableEq, Repr

inductive PipeEnd where
  | readEnd
  | writeEnd
  deriving DecidableEq, Repr

/-- The result of `fork` as the running process sees it. -/
inductive Pid where
  | failed
  | child
  | parent
  deriving DecidableEq, Repr

/-- The context `redisConnect` returns: none, one with its error flag set, or a
usable one. -/
inductive Connection where
  | null
  | err
  | ok
  deriving DecidableEq, Repr

/-- The Redis commands with their arguments as hiredis passes them on. -/
inductive Command where
  | lpush (key value : Bytes)
  | zincrby (key member : Bytes)
  | lrange (key : Bytes) (start stop : Int)
  | zscore (key member : Bytes)
  deriving DecidableEq, Repr

inductive Reply where
  | status (str : Bytes)
  | error (str : Bytes)
  | integer (value : Int)
  | nil
  | string (str : Bytes)
  | array (element : List Reply)

namespace Reply

/-- The field `str`, null in the replies that carry no text. -/
def str : Reply → Option Bytes
  | status text => some text
  | error text => some text
  | string text => some text
  | integer _ => none
  | nil => none
  | array _ => none

/-- The fields `elements` and `element`; other replies have no elements. -/
def element : Reply → List Reply
  | array replies => replies
  | status _ => []
  | error _ => []
  | string _ => []
  | integer _ => []
  | nil => []

end Reply

/-- A block of exactly `size` bytes. -/
abbrev Block (size : Nat) := { bytes : Bytes // bytes.length = size }

/-- At most `size` bytes. -/
abbrev Chunk (size : Nat) := { bytes : Bytes // bytes.length ≤ size }

/-- A C string that fits `size` bytes with its NUL. -/
abbrev CText (size : Nat) := { text : Bytes // 0 ∉ text ∧ text.length ≤ size - 1 }

inductive Call where
  | malloc (caller : Func) (size : Nat)
  /-- the byte that happens to lie before a buffer of `caller` -/
  | byteBefore (caller : Func)
  | pipe (caller : Func)
  | fork (caller : Func)
  | close (caller : Func) (pipeEnd : PipeEnd)
  | dup2 (caller : Func)
  | execlp (caller : Func) (arguments : List Bytes)
  | wait (caller : Func)
  | read (caller : Func) (size : Nat)
  | fopen (path : Bytes)
  | fwrite (bytes : Bytes)
  | fclose
  | unlink (path : Bytes)
  | strftime (format : Bytes) (size : Nat)
  | redisConnect (caller : Func)
  | redisFree (caller : Func)
  | redisCommand (command : Command)
  /-- no system call: the process returns from `caller` -/
  | leave (caller : Func)
  deriving DecidableEq, Repr

/-- The answers; `execlp` answers `true` when the process image was replaced. -/
def Answer : Call → Type
  | .malloc _ size => Option (Block size)
  | .byteBefore _ => Byte
  | .pipe _ => Bool
  | .fork _ => Pid
  | .close _ _ => Unit
  | .dup2 _ => Unit
  | .execlp _ _ => Bool
  | .wait _ => Unit
  | .read _ size => Chunk size
  | .fopen _ => Bool
  | .fwrite _ => Unit
  | .fclose => Unit
  | .unlink _ => Unit
  | .strftime _ size => CText size
  | .redisConnect _ => Connection
  | .redisFree _ => Unit
  | .redisCommand _ => Option Reply
  | .leave _ => Unit

abbrev interface : Interface := ⟨Call, Answer⟩

/-- Ways for a process to end other than by returning. -/
inductive Stop where
  | fault (fault : Fault)
  | exit (code : Int)
  | replaced
  deriving DecidableEq, Repr

abbrev Code := Prog interface Stop

/-- An environment: an answer to every call. -/
abbrev Env := (call : Call) → Answer call

/-- What is read of a text. -/
def chunkOf (text : Bytes) (size : Nat) : Chunk size := ⟨text.take size, List.length_take_le size text⟩

/-- The environment of a parent process in which no call fails. -/
def allSucceed : Env
  | .malloc _ size => some ⟨zeros size, List.length_replicate⟩
  | .byteBefore _ => (0 : Byte)
  | .pipe _ => true
  | .fork _ => .parent
  | .close _ _ => ()
  | .dup2 _ => ()
  | .execlp _ _ => true
  | .wait _ => ()
  | .read _ _ => ⟨[], Nat.zero_le _⟩
  | .fopen _ => true
  | .fwrite _ => ()
  | .fclose => ()
  | .unlink _ => ()
  | .strftime _ _ => ⟨[], List.not_mem_nil, Nat.zero_le _⟩
  | .redisConnect _ => .ok
  | .redisFree _ => ()
  | .redisCommand _ => some (.integer 1)
  | .leave _ => ()

abbrev ask (call : Call) : Code (Answer call) := Prog.ask (I := interface) call

@[simp] theorem outcome_ask_bind {α : Type} (env : Env) (call : Call)
    (continue_ : Answer call → Code α) :
    (ask call >>= continue_).outcome env = (continue_ (env call)).outcome env := rfl

@[simp] theorem trace_ask_bind {α : Type} (env : Env) (call : Call)
    (continue_ : Answer call → Code α) :
    (ask call >>= continue_).trace env = call :: (continue_ (env call)).trace env := rfl

/-- A computation in memory, which ends the process where it has no meaning. -/
def ofC {α : Type} : C α → Code α
  | .ok value => .ret value
  | .error fault => .stop (.fault fault)

@[simp] theorem ofC_ok {α : Type} (value : α) : ofC (.ok value) = .ret value := rfl

@[simp] theorem ofC_error {α : Type} (fault : Fault) :
    (ofC (.error fault) : Code α) = .stop (.fault fault) := rfl

theorem ofC_bind {α β : Type} (computation : C α) (next : α → C β) :
    ofC (computation >>= next) = (ofC computation >>= fun value => ofC (next value)) := by
  cases computation <;> rfl

theorem ofC_bind_congr {α β : Type} (computation : C α) {first second : α → Code β}
    (same : ∀ value, computation = .ok value → first value = second value) :
    (ofC computation >>= first) = (ofC computation >>= second) := by
  cases computation with
  | ok value => exact same value rfl
  | error fault => rfl

theorem outcome_ofC_returned {α : Type} {env : Env} {computation : C α} {value : α}
    (returns : (ofC computation).outcome env = .returned value) : computation = .ok value := by
  cases computation with
  | ok result =>
      cases returns
      rfl
  | error fault => cases returns

section Rules

variable {α β : Type} {env : Env} {allowed : Call → Prop} {post : α → Prop}

theorem satisfies_ofC {computation : C α}
    (holds : ∀ value, computation = .ok value → post value) :
    (ofC computation).Satisfies env allowed post := by
  cases computation with
  | ok value => exact Prog.satisfies_ret (holds value rfl)
  | error fault => exact Prog.satisfies_stop _

theorem satisfies_ofC_bind {computation : C β} {continue_ : β → Code α}
    (continued : ∀ value, computation = .ok value →
      (continue_ value).Satisfies env allowed post) :
    (ofC computation >>= continue_).Satisfies env allowed post := by
  cases computation with
  | ok value => exact continued value rfl
  | error fault => exact Prog.satisfies_stop _

theorem satisfies_ask_bind {call : Call} {continue_ : Answer call → Code α}
    (isAllowed : allowed call)
    (continued : (continue_ (env call)).Satisfies env allowed post) :
    (ask call >>= continue_).Satisfies env allowed post :=
  Prog.satisfies_call (I := interface) isAllowed continued

end Rules

section Ends

variable {α β : Type} {env : Env} {post : α → Prop} {reasons : Stop → Prop}

theorem ends_ofC {computation : C α} (holds : ∀ value, computation = .ok value → post value)
    (faults : ∀ fault, reasons (.fault fault)) : (ofC computation).Ends env post reasons := by
  cases computation with
  | ok value => exact Prog.ends_ret (holds value rfl)
  | error fault => exact Prog.ends_stop (faults fault)

theorem ends_ofC_bind {computation : C β} {continue_ : β → Code α}
    (faults : ∀ fault, reasons (.fault fault))
    (continued : ∀ value, computation = .ok value → (continue_ value).Ends env post reasons) :
    (ofC computation >>= continue_).Ends env post reasons := by
  cases computation with
  | ok value => exact continued value rfl
  | error fault => exact Prog.ends_stop (faults fault)

theorem ends_ask_bind {call : Call} {continue_ : Answer call → Code α}
    (continued : (continue_ (env call)).Ends env post reasons) :
    (ask call >>= continue_).Ends env post reasons :=
  Prog.ends_call (I := interface) continued

end Ends

section Costs

variable {α β : Type} {env : Env} {weight : Call → Int} {spent : α → Int → Prop}

theorem costs_ofC {computation : C α}
    (holds : ∀ value, computation = .ok value → spent value 0) :
    (ofC computation).Costs env weight spent := by
  cases computation with
  | ok value => exact Prog.costs_ret (holds value rfl)
  | error fault => exact Prog.costs_stop _

theorem costs_ofC_bind {computation : C β} {continue_ : β → Code α}
    (continued : ∀ value, computation = .ok value → (continue_ value).Costs env weight spent) :
    (ofC computation >>= continue_).Costs env weight spent := by
  cases computation with
  | ok value => exact continued value rfl
  | error fault => exact Prog.costs_stop _

theorem costs_ask_bind {call : Call} {continue_ : Answer call → Code α}
    (continued : (continue_ (env call)).Costs env weight
      fun value later => spent value (weight call + later)) :
    (ask call >>= continue_).Costs env weight spent :=
  Prog.costs_call (I := interface) continued

end Costs

section Paths

variable {α β : Type} {allowed : Call → Prop} {counted : Call → Bool} {bound : Nat}

theorem only_ofC (computation : C α) : (ofC computation).Only allowed := by
  cases computation <;> trivial

theorem only_ofC_bind {computation : C β} {continue_ : β → Code α}
    (continued : ∀ value, (continue_ value).Only allowed) :
    (ofC computation >>= continue_).Only allowed := by
  cases computation with
  | ok value => exact continued value
  | error fault => trivial

theorem only_ask_bind {call : Call} {continue_ : Answer call → Code α} (isAllowed : allowed call)
    (continued : ∀ answer, (continue_ answer).Only allowed) :
    (ask call >>= continue_).Only allowed :=
  ⟨isAllowed, continued⟩

theorem atMost_ofC (computation : C α) : (ofC computation).AtMost counted bound := by
  cases computation <;> trivial

theorem atMost_ofC_bind {computation : C β} {continue_ : β → Code α}
    (continued : ∀ value, (continue_ value).AtMost counted bound) :
    (ofC computation >>= continue_).AtMost counted bound := by
  cases computation with
  | ok value => exact continued value
  | error fault => trivial

theorem atMost_ask_bind {call : Call} {continue_ : Answer call → Code α}
    (uncounted : counted call = false)
    (continued : ∀ answer, (continue_ answer).AtMost counted bound) :
    (ask call >>= continue_).AtMost counted bound :=
  (Prog.atMost_call_other (I := interface) uncounted).mpr continued

end Paths

end DistStore.Environment

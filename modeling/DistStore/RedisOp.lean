import DistStore.Environment
import DistStore.Lib.CNumber

/-!
# The Redis wrappers of `redis_op.c`

The wrappers `upload` and `data_cgi` use.  A wrapper reads fields of the reply
without testing it for null; with a null reply it faults.
-/

set_option autoImplicit false

namespace DistStore.RedisOp

open CMemory Program Environment

def valuesIdSize : Nat := 1024

def fileInfoList : Bytes := lit "FILE_INFO_LIST"

def fileHotZset : Bytes := lit "FILE_HOT_ZSET"

/-- Read a field of a reply. -/
def present {α : Type} : Option α → C α
  | some value => .ok value
  | none => .error .nullPointer

theorem present_eq_ok {α : Type} {field : Option α} {value : α}
    (holds : present field = .ok value) : field = some value := by
  cases field with
  | none => cases holds
  | some actual =>
      cases holds
      rfl

/-- `rop_connectdb_nopwd`: whether a usable connection is returned. -/
def ropConnectdbNopwd (caller : Func) : Code Bool := do
  match ← ask (.redisConnect caller) with
  | .null => return false
  | .err =>
      let _ ← ask (.redisFree caller)
      return false
  | .ok => return true

def ropDisconnect (caller : Func) : Code Unit := ask (.redisFree caller)

def ropListPush (key value : Bytes) : Code Int := do
  let text ← ofC (strAt value 0)
  let reply ← ofC (present (← ask (.redisCommand (.lpush key text))))
  match reply with
  | .integer _ => return 0
  | _ => return -1

/-- `rop_zset_increment`, which compares the text of the reply with `"OK"`. -/
def ropZsetIncrement (key member : Bytes) : Code Int := do
  let text ← ofC (strAt member 0)
  let reply ← ofC (present (← ask (.redisCommand (.zincrby key text))))
  let str ← ofC (present reply.str)
  if str ≠ lit "OK" then return -1 else return 0

def ropZsetGetScore (key member : Bytes) : Code Int := do
  let text ← ofC (strAt member 0)
  let reply ← ofC (present (← ask (.redisCommand (.zscore key text))))
  match reply with
  | .string str => return atoi str
  | _ => return -1

/-- The copy loop of `rop_range_list`: row `i` of `values` takes element `i`. -/
def copyRows (element : List Reply) : Nat → Nat → Option Bytes → C (Option Bytes)
  | 0, _, values => .ok values
  | count + 1, i, values => do
      let entry ← present element[i]?
      let str ← present entry.str
      let memory ← present values
      let filled ← strncpy memory (i * valuesIdSize) (str ++ [0]) 0 (valuesIdSize - 1)
      copyRows element count (i + 1) (some filled)

/-- `rop_range_list`: the returned code, `values` and `*get_num`.  The argument
`count` is both the end index of the range and the bound on the copied rows;
the comparison with `reply->elements` is unsigned. -/
def ropRangeList (key : Bytes) (fromPos count : Int) (values : Option Bytes) :
    Code (Int × Option Bytes × Int) := do
  let reply ← ofC (present (← ask (.redisCommand (.lrange key fromPos count))))
  let retn : Int := match reply with
    | .array _ => 0
    | _ => -1
  let elements := reply.element.length
  let maxCount : Int := if elements > toSize count then count else toInt elements
  let filled ← ofC (copyRows reply.element maxCount.toNat 0 values)
  return (retn, filled, maxCount)

theorem copyRows_none {element : List Reply} {count i : Nat} {result : Option Bytes}
    (copied : copyRows element count i none = .ok result) : result = none := by
  cases count with
  | zero =>
      cases copied
      rfl
  | succ count =>
      obtain ⟨entry, -, copied⟩ := (bind_eq_ok_iff _ _ _).mp copied
      obtain ⟨str, -, copied⟩ := (bind_eq_ok_iff _ _ _).mp copied
      cases copied

/-- The rows behind the loop: each begins like the element it was copied from,
up to the size of a row, and what lies before the first one is kept. -/
theorem copyRows_front {element : List Reply} {count i : Nat} {memory : Bytes}
    {result : Option Bytes} (copied : copyRows element count i (some memory) = .ok result) :
    ∃ filled, result = some filled ∧
      filled.take (i * valuesIdSize) = memory.take (i * valuesIdSize) ∧
      ∀ j, i ≤ j → j < i + count → ∃ entry str, element[j]? = some entry ∧ entry.str = some str ∧
        ∀ front rest, str = front ++ rest → 0 ∉ front → front.length ≤ valuesIdSize - 1 →
          ∃ behind, filled.drop (j * valuesIdSize) = front ++ behind := by
  induction count generalizing i memory with
  | zero =>
      cases copied
      exact ⟨memory, rfl, rfl, fun j lower upper => by omega⟩
  | succ count inductionHypothesis =>
      obtain ⟨entry, here, copied⟩ := (bind_eq_ok_iff _ _ _).mp copied
      obtain ⟨str, text, copied⟩ := (bind_eq_ok_iff _ _ _).mp copied
      obtain ⟨_, ⟨⟩, copied⟩ := (bind_eq_ok_iff _ _ _).mp copied
      obtain ⟨row, rowCopied, copied⟩ := (bind_eq_ok_iff _ _ _).mp copied
      obtain ⟨filled, same, kept, rows⟩ := inductionHypothesis copied
      have before : i * valuesIdSize ≤ (i + 1) * valuesIdSize :=
        Nat.mul_le_mul_right _ (Nat.le_succ i)
      have bound : (valuesIdSize : Int) - 1 = (valuesIdSize - 1 : Nat) := rfl
      rw [bound] at rowCopied
      refine ⟨filled, same, ?_, ?_⟩
      · have earlier := congrArg (List.take (i * valuesIdSize)) kept
        rw [List.take_take, List.take_take, Nat.min_eq_left before] at earlier
        have source : (str ++ [0]).drop 0 = [] ++ (str ++ [0]) := rfl
        exact earlier.trans
          (strncpy_front source List.not_mem_nil (Nat.zero_le _) rowCopied).1
      · intro j lower upper
        by_cases first : j = i
        · subst first
          refine ⟨entry, str, present_eq_ok here, present_eq_ok text, ?_⟩
          intro front rest shape nulFree inside
          have source : (str ++ [0]).drop 0 = front ++ (rest ++ [0]) := by
            rw [List.drop_zero, shape, List.append_assoc]
          obtain ⟨-, behind, starts⟩ := strncpy_front source nulFree inside rowCopied
          refine drop_front_of_take kept starts ?_
          rw [Nat.succ_mul]
          omega
        · exact rows j (by omega) (by omega)

section Runs

variable {env : Env} {allowed : Call → Prop}

theorem ropConnectdbNopwd_satisfies {caller : Func} (connect : allowed (.redisConnect caller))
    (free : allowed (.redisFree caller)) :
    (ropConnectdbNopwd caller).Satisfies env allowed
      fun connected => connected = true → env (.redisConnect caller) = .ok := by
  refine satisfies_ask_bind connect ?_
  cases env (.redisConnect caller) with
  | null => exact Prog.satisfies_ret nofun
  | err => exact satisfies_ask_bind free (Prog.satisfies_ret nofun)
  | ok => exact Prog.satisfies_ret fun _ => rfl

theorem ropConnectdbNopwd_outcome {caller : Func}
    (connected : env (.redisConnect caller) = .ok) :
    (ropConnectdbNopwd caller).outcome env = .returned true := by
  rw [ropConnectdbNopwd, outcome_ask_bind, connected]
  rfl

theorem ropListPush_satisfies {key value : Bytes}
    (push : ∀ text, strAt value 0 = .ok text → allowed (.redisCommand (.lpush key text))) :
    (ropListPush key value).Satisfies env allowed fun _ => True := by
  refine satisfies_ofC_bind fun text holds => satisfies_ask_bind (push text holds) ?_
  refine satisfies_ofC_bind fun reply _ => ?_
  cases reply <;> exact Prog.satisfies_ret trivial

theorem ropZsetIncrement_satisfies {key member : Bytes}
    (increment : ∀ text, strAt member 0 = .ok text →
      allowed (.redisCommand (.zincrby key text))) :
    (ropZsetIncrement key member).Satisfies env allowed fun _ => True := by
  refine satisfies_ofC_bind fun text holds => satisfies_ask_bind (increment text holds) ?_
  refine satisfies_ofC_bind fun reply _ => satisfies_ofC_bind fun str _ => ?_
  split
  · exact Prog.satisfies_ret trivial
  · exact Prog.satisfies_ret trivial

end Runs

end DistStore.RedisOp

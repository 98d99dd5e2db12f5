import DistStore.RedisOp

/-!
# The Redis server

The part of a Redis server the two programs use: lists and sorted sets under
their keys.  The programs use one key of each kind, so the two kinds are kept
apart.  Scores are integers, which Redis prints in decimal.
-/

set_option autoImplicit false

namespace DistStore.RedisStore

open CMemory Program Environment RedisOp

structure Store where
  lists : Bytes → List Bytes
  scores : Bytes → Bytes → Option Int

def empty : Store := ⟨fun _ => [], fun _ _ => none⟩

/-- The elements with index `start` to `stop`, both included; a negative index
counts from the end, and indices outside the list are clamped. -/
def lrange {α : Type} (list : List α) (start stop : Int) : List α :=
  let first := max 0 (if start < 0 then list.length + start else start)
  let last := min (list.length - 1 : Int) (if stop < 0 then list.length + stop else stop)
  (list.drop first.toNat).take (last + 1 - first).toNat

/-- The score of a member; a member not in the set counts from zero. -/
def Store.score (store : Store) (key member : Bytes) : Int := (store.scores key member).getD 0

def Store.push (store : Store) (key value : Bytes) : Store where
  lists := Function.update store.lists key (value :: store.lists key)
  scores := store.scores

def Store.increment (store : Store) (key member : Bytes) : Store where
  lists := store.lists
  scores := fun zset other =>
    if zset = key ∧ other = member then some (store.score key member + 1)
    else store.scores zset other

/-- A command is executed atomically: its reply and the store behind it. -/
def Store.serve (store : Store) : Command → Reply × Store
  | .lpush key value =>
      (.integer ((store.push key value).lists key).length, store.push key value)
  | .zincrby key member =>
      (.string (decimal ((store.increment key member).score key member)), store.increment key member)
  | .lrange key start stop => (.array ((lrange (store.lists key) start stop).map .string), store)
  | .zscore key member =>
      (match store.scores key member with
        | some score => .string (decimal score)
        | none => .nil, store)

/-- The commands of the environment are answered from one state of the store. -/
def Reads (env : Env) (store : Store) : Prop :=
  ∀ command, env (.redisCommand command) = some (store.serve command).1

/-- A range with indices that are not negative. -/
theorem lrange_page {α : Type} (list : List α) (fromId cnt : Nat) (positive : 0 < cnt) :
    lrange list fromId (fromId + cnt - 1) = (list.drop fromId).take cnt := by
  have notNegative : ¬ (fromId : Int) < 0 := by omega
  have stopNotNegative : ¬ (fromId : Int) + cnt - 1 < 0 := by omega
  simp only [lrange, if_neg notNegative, if_neg stopNotNegative]
  have first : (max (0 : Int) fromId).toNat = fromId := by omega
  rw [first, List.take_eq_take_iff, List.length_drop]
  omega

theorem length_lrange {α : Type} (list : List α) (start stop : Int) :
    (lrange list start stop).length =
      (min (list.length - 1 : Int) (if stop < 0 then list.length + stop else stop) + 1 -
        max 0 (if start < 0 then list.length + start else start)).toNat := by
  rw [lrange, List.length_take, List.length_drop]
  omega

theorem mem_of_mem_lrange {α : Type} {list : List α} {start stop : Int} {item : α}
    (member : item ∈ lrange list start stop) : item ∈ list :=
  List.mem_of_mem_drop (List.mem_of_mem_take member)

section Fields

variable (store : Store) (key other value member : Bytes)

@[simp] theorem push_lists_same :
    (store.push key value).lists key = value :: store.lists key := by
  simp [Store.push]

@[simp] theorem push_score : (store.push key value).score other member = store.score other member :=
  rfl

@[simp] theorem increment_lists : (store.increment key member).lists = store.lists := rfl

@[simp] theorem increment_score_same :
    (store.increment key member).score key member = store.score key member + 1 := by
  simp [Store.increment, Store.score]

theorem increment_scores_other {another : Bytes} (ne : another ≠ member) :
    (store.increment key member).scores key another = store.scores key another := by
  simp [Store.increment, ne]

theorem increment_score_other {another : Bytes} (ne : another ≠ member) :
    (store.increment key member).score key another = store.score key another := by
  rw [Store.score, increment_scores_other store key member ne, Store.score]

end Fields

end DistStore.RedisStore

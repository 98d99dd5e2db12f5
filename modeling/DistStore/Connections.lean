import DistStore.DataCgi
import DistStore.Descriptors

/-!
# The connections of `data_cgi`

Every request of `data_cgi` that reaches Redis opens a connection of its own.
Wherever the loop gets back to `FCGI_Accept`, the connection has been closed,
whatever Redis has answered.
-/

set_option autoImplicit false

namespace DistStore.Connections

open CMemory Program Environment RedisOp Query DataUse StrReplace DataCgi
open Descriptors (opened ropZsetIncrement_costs)

section Functions

variable {env : Env}

/-- A connection is open when it is returned, and only then. -/
theorem ropConnectdbNopwd_costs (caller : Func) :
    (ropConnectdbNopwd caller).Costs env (opened env)
      fun connected cost => cost = if connected then 1 else 0 := by
  apply costs_ask_bind
  cases connection : env (.redisConnect caller) with
  | null =>
      refine Prog.costs_ret ?_
      simp only [opened, connection]
      rfl
  | err =>
      refine costs_ask_bind (Prog.costs_ret ?_)
      simp only [opened, connection]
      rfl
  | ok =>
      refine Prog.costs_ret ?_
      simp only [opened, connection]
      rfl

theorem ropRangeList_costs (key : Bytes) (fromPos count : Int) (values : Option Bytes) :
    (ropRangeList key fromPos count values).Costs env (opened env) fun _ cost => cost = 0 :=
  costs_ask_bind (costs_ofC_bind fun _ _ => costs_ofC_bind fun _ _ => Prog.costs_ret rfl)

theorem ropZsetGetScore_costs (key member : Bytes) :
    (ropZsetGetScore key member).Costs env (opened env) fun _ cost => cost = 0 := by
  refine costs_ofC_bind fun text _ => costs_ask_bind (costs_ofC_bind fun reply _ => ?_)
  cases reply <;> exact Prog.costs_ret rfl

theorem fetchValues_costs (fromId cnt : Int) :
    (fetchValues fromId cnt).Costs env (opened env) fun _ cost => cost = 1 := by
  refine costs_ofC_bind fun behind _ => costs_ofC_bind fun endId _ => ?_
  refine (ropConnectdbNopwd_costs .readRedisToJson).bind ?_
  rintro (_ | _) _ rfl
  · exact Prog.costs_stop _
  · refine costs_ofC_bind fun size _ => costs_ask_bind ((ropRangeList_costs _ _ _ _).weaken ?_)
    rintro _ _ rfl
    rfl

theorem readItem_costs (values : Bytes) (i : Nat) (bufs : ItemBufs) :
    (readItem values i bufs).Costs env (opened env) fun _ cost => cost = 0 := by
  refine costs_ofC_bind fun _ _ => costs_ofC_bind fun _ _ => costs_ofC_bind fun _ _ => ?_
  refine costs_ofC_bind fun _ _ => costs_ofC_bind fun _ _ => costs_ofC_bind fun _ _ => ?_
  refine costs_ofC_bind fun _ _ => costs_ofC_bind fun _ _ => costs_ofC_bind fun _ _ => ?_
  refine costs_ofC_bind fun _ _ => costs_ofC_bind fun _ _ => costs_ofC_bind fun _ _ => ?_
  refine (ropZsetGetScore_costs _ _).bind ?_
  rintro score _ rfl
  exact costs_ofC_bind fun pv _ => Prog.costs_ret rfl

theorem readItems_costs (values : Option Bytes) (count i : Nat) (bufs : ItemBufs) :
    (readItems values count i bufs).Costs env (opened env) fun _ cost => cost = 0 := by
  induction count generalizing i bufs with
  | zero => exact Prog.costs_ret rfl
  | succ count inductionHypothesis =>
      refine costs_ofC_bind fun memory _ => (readItem_costs memory i bufs).bind ?_
      rintro ⟨item, next⟩ _ rfl
      refine (inductionHypothesis (i + 1) next).bind ?_
      rintro items _ rfl
      exact Prog.costs_ret rfl

/-- The connection is closed after the page and where there is none. -/
theorem readRedisToJson_costs (fromId cnt : Int) :
    (readRedisToJson fromId cnt).Costs env (opened env) fun _ cost => cost = 0 := by
  refine (fetchValues_costs fromId cnt).bind ?_
  rintro ⟨retn, values, valueNum⟩ _ rfl
  dsimp only
  split
  · exact costs_ask_bind (Prog.costs_ret rfl)
  · refine (readItems_costs values _ 0 .cleared).bind ?_
    rintro items _ rfl
    exact costs_ask_bind (Prog.costs_ret rfl)

theorem increaseFilePv_costs (fileId : Bytes) :
    (increaseFilePv fileId).Costs env (opened env) fun _ cost => cost = 0 := by
  refine (ropConnectdbNopwd_costs .increaseFilePv).bind ?_
  rintro (_ | _) _ rfl
  · exact Prog.costs_ret rfl
  · refine (ropZsetIncrement_costs _ _).bind ?_
    rintro _ _ rfl
    exact costs_ask_bind (Prog.costs_ret rfl)

theorem strReplace_costs (src key replace : Bytes) :
    (strReplace src key replace).Costs env (opened env) fun _ cost => cost = 0 := by
  exact costs_ofC_bind fun length _ => costs_ask_bind (costs_ofC fun _ _ => rfl)

theorem countClick_costs (bufs : Bufs) (found : Bytes) :
    (countClick bufs found).Costs env (opened env) fun _ cost => cost = 0 := by
  refine (strReplace_costs found _ _).bind ?_
  rintro ⟨code, fileId⟩ _ rfl
  dsimp only
  split
  · exact Prog.costs_ret rfl
  · refine (increaseFilePv_costs fileId).bind ?_
    rintro _ _ rfl
    exact Prog.costs_ret rfl

theorem handleRequest_costs (bufs : Bufs) (query : Option Bytes) :
    (handleRequest bufs query).Costs env (opened env) fun _ cost => cost = 0 := by
  refine costs_ofC_bind fun cleared _ => costs_ofC_bind fun _ _ => costs_ofC_bind fun command _ => ?_
  split
  · refine costs_ofC_bind fun _ _ => costs_ofC_bind fun _ _ => ?_
    refine costs_ofC_bind fun _ _ => costs_ofC_bind fun _ _ => ?_
    refine (readRedisToJson_costs _ _).bind ?_
    rintro _ _ rfl
    exact Prog.costs_ret rfl
  · split
    · exact costs_ofC_bind fun _ _ => countClick_costs _ _
    · exact Prog.costs_ret rfl

end Functions

/-! ## Runs of the loop -/

/-- The loop of `main` is back at `FCGI_Accept` after these requests, each
answered by its own environment, and holds so many descriptors. -/
inductive Held (initial : Int) : List (Option Bytes × Env) → Bufs → Int → Prop where
  | start : Held initial [] .cleared initial
  | again (history : List (Option Bytes × Env)) (bufs next : Bufs) (query : Option Bytes) (env : Env)
      (held : Int) (serving : Held initial history bufs held)
      (returned : (handleRequest bufs query).outcome env = .returned (.again next)) :
      Held initial (history ++ [(query, env)]) next
        (held + (handleRequest bufs query).cost env (opened env))

/-- After any requests, listings and clicks in any order, whichever of them
fail, the process holds the descriptors it held at first. -/
theorem connections_balanced {initial held : Int} {history : List (Option Bytes × Env)} {bufs : Bufs}
    (serving : Held initial history bufs held) : held = initial := by
  induction serving with
  | start => rfl
  | again history bufs next query env held serving returned inductionHypothesis =>
      have cost := handleRequest_costs bufs query _ returned
      rw [cost, inductionHypothesis, add_zero]

def listing : Bytes := lit "cmd=newFile&fromId=0&count=1" ++ [0]

def listed : Bufs := { Bufs.cleared with
  cmd := lit "newFile" ++ zeros 13
  fromId := lit "0" ++ zeros 63
  cnt := lit "1" ++ zeros 4 }

/-- Redis answers the listing with a reply that is no list. -/
theorem connections_balanced_listing :
    0 + (handleRequest .cleared (some listing)).cost allSucceed (opened allSucceed) = 0 :=
  connections_balanced (.again [] .cleared listed (some listing) allSucceed 0 .start
    (by decide +kernel))

end DistStore.Connections

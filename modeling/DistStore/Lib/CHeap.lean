import DistStore.Lib.CMemory
import Mathlib.Algebra.Order.Group.Multiset
import Mathlib.Data.Multiset.Dedup
import Mathlib.Data.Finset.Card

/-!
# A heap

Blocks of any kind at addresses, given by an allocator that may refuse and that
gives no address twice, so that no use of a released block goes unnoticed.  What
a program does to the heap is said by the cells it has before and after; all
other cells are as they were, and no cell is left over.
-/

set_option autoImplicit false

namespace CHeap

open CMemory

/-- Why a program does not get to its end; `fuel` bounds the recursion of a
model. -/
inductive Trap where
  | dangling
  | fuel
  | fault (fault : Fault)
  deriving DecidableEq, Repr

/-- `grant` says which of the coming requests succeed. -/
structure Store (V : Type) where
  cell : Nat → Option V
  next : Nat
  grant : Nat → Bool
  fresh : ∀ addr, next ≤ addr → cell addr = none

abbrev Mem (V : Type) := StateT (Store V) (Except Trap)

abbrev Cells (V : Type) := Multiset (Nat × V)

section Operations

variable {V α : Type}

def Store.empty (grant : Nat → Bool) : Store V where
  cell _ := none
  next := 0
  grant := grant
  fresh _ _ := rfl

def Store.put (store : Store V) (addr : Nat) (value : Option V) (used : addr < store.next) :
    Store V where
  cell := Function.update store.cell addr value
  next := store.next
  grant := store.grant
  fresh other beyond := by
    rw [Function.update_of_ne (by omega), store.fresh other beyond]

def Store.push (store : Store V) (value : V) : Store V where
  cell := Function.update store.cell store.next (some value)
  next := store.next + 1
  grant request := store.grant (request + 1)
  fresh other beyond := by
    rw [Function.update_of_ne (by omega), store.fresh other (by omega)]

def Store.refuse (store : Store V) : Store V where
  cell := store.cell
  next := store.next
  grant request := store.grant (request + 1)
  fresh := store.fresh

def trap (reason : Trap) : Mem V α := fun _ => .error reason

def ofC (computation : C α) : Mem V α := fun store =>
  match computation with
  | .ok value => .ok (value, store)
  | .error fault => .error (.fault fault)

def alloc (value : V) : Mem V (Option Nat) := fun store =>
  if store.grant 0 then .ok (some store.next, store.push value) else .ok (none, store.refuse)

def load (addr : Nat) : Mem V V := fun store =>
  match store.cell addr with
  | some value => .ok (value, store)
  | none => .error .dangling

theorem Store.used (store : Store V) {addr : Nat} {value : V} (held : store.cell addr = some value) :
    addr < store.next := by
  refine Nat.lt_of_not_le fun beyond => ?_
  rw [store.fresh addr beyond] at held
  cases held

def change (addr : Nat) (value : Option V) : Mem V Unit := fun store =>
  if held : (store.cell addr).isSome then
    .ok ((), store.put addr value (store.used (Option.some_get held).symm))
  else .error .dangling

def save (addr : Nat) (value : V) : Mem V Unit := change addr (some value)

def release (addr : Nat) : Mem V Unit := change addr none

/-- A recursion over the blocks of the heap, of which there are no more than
have been given out. -/
def overBlocks (body : Nat → Mem V α) : Mem V α := fun store => body (store.next + 1) store

end Operations

/-! ## What the heap holds -/

section Holding

variable {V : Type} {store : Store V} {addr : Nat} {value : V} {cells : Cells V}

/-- The heap holds these cells and no others. -/
structure Holds (store : Store V) (cells : Cells V) : Prop where
  nodup : (cells.map Prod.fst).Nodup
  cell : ∀ addr value, store.cell addr = some value ↔ (addr, value) ∈ cells

theorem holds_empty (grant : Nat → Bool) : Holds (Store.empty (V := V) grant) 0 where
  nodup := Multiset.nodup_zero
  cell _ _ := iff_of_false nofun (Multiset.notMem_zero _)

/-- No two of the cells are at one address. -/
def Distinct (cells : Cells V) : Prop := (cells.map Prod.fst).Nodup

theorem distinct_zero : Distinct (0 : Cells V) := Multiset.nodup_zero

theorem Distinct.split {others : Cells V} (distinct : Distinct (cells + others)) :
    Distinct cells ∧ Distinct others ∧
      ∀ addr value later, (addr, value) ∈ cells → (addr, later) ∉ others := by
  unfold Distinct at distinct
  rw [Multiset.map_add, Multiset.nodup_add, Multiset.disjoint_left] at distinct
  obtain ⟨left, right, apart⟩ := distinct
  refine ⟨left, right, fun addr value later member member' => ?_⟩
  have inside : addr ∈ others.map Prod.fst := Multiset.mem_map.mpr ⟨_, member', rfl⟩
  exact apart (Multiset.mem_map.mpr ⟨_, member, rfl⟩) inside

theorem Holds.cell_first (holds : Holds store ((addr, value) ::ₘ cells)) :
    store.cell addr = some value := (holds.cell addr value).mpr (Multiset.mem_cons_self _ _)

theorem Holds.absent (holds : Holds store ((addr, value) ::ₘ cells)) (other : V) :
    (addr, other) ∉ cells := by
  have nodup := holds.nodup
  rw [Multiset.map_cons, Multiset.nodup_cons] at nodup
  exact fun member => nodup.1 (Multiset.mem_map.mpr ⟨(addr, other), member, rfl⟩)

theorem Holds.release (holds : Holds store ((addr, value) ::ₘ cells)) (used : addr < store.next) :
    Holds (store.put addr none used) cells where
  nodup := by
    have nodup := holds.nodup
    rw [Multiset.map_cons, Multiset.nodup_cons] at nodup
    exact nodup.2
  cell other found := by
    show Function.update store.cell addr none other = some found ↔ _
    by_cases same : other = addr
    · subst same
      rw [Function.update_self]
      exact iff_of_false nofun (holds.absent found)
    · rw [Function.update_of_ne same, holds.cell, Multiset.mem_cons]
      exact or_iff_right fun equal => same (congrArg Prod.fst equal)

theorem Holds.save (holds : Holds store ((addr, value) ::ₘ cells)) (used : addr < store.next)
    (later : V) : Holds (store.put addr (some later) used) ((addr, later) ::ₘ cells) where
  nodup := by
    have nodup := holds.nodup
    rw [Multiset.map_cons] at nodup ⊢
    exact nodup
  cell other found := by
    show Function.update store.cell addr (some later) other = some found ↔ _
    rw [Multiset.mem_cons, Prod.mk_inj]
    by_cases same : other = addr
    · subst same
      rw [Function.update_self, Option.some_inj, or_iff_left (holds.absent found), eq_comm,
        and_iff_right rfl]
    · rw [Function.update_of_ne same, holds.cell, Multiset.mem_cons, Prod.mk_inj]
      simp only [same, false_and, false_or]

theorem Holds.push (holds : Holds store cells) (value : V) :
    Holds (store.push value) ((store.next, value) ::ₘ cells) where
  nodup := by
    rw [Multiset.map_cons, Multiset.nodup_cons]
    refine ⟨fun member => ?_, holds.nodup⟩
    obtain ⟨⟨addr, found⟩, member, same⟩ := Multiset.mem_map.mp member
    cases same
    have held := (holds.cell _ _).mpr member
    rw [store.fresh _ le_rfl] at held
    cases held
  cell other found := by
    show Function.update store.cell store.next (some value) other = some found ↔ _
    rw [Multiset.mem_cons, Prod.mk_inj]
    by_cases same : other = store.next
    · subst same
      have absent : (store.next, found) ∉ cells := by
        rw [← holds.cell, store.fresh _ le_rfl]
        nofun
      rw [Function.update_self, Option.some_inj, or_iff_left absent, eq_comm, and_iff_right rfl]
    · rw [Function.update_of_ne same, holds.cell]
      simp only [same, false_and, false_or]

theorem Holds.card_le (holds : Holds store cells) : cells.card ≤ store.next := by
  have inside : ∀ addr ∈ cells.map Prod.fst, addr < store.next := by
    intro addr member
    obtain ⟨⟨_, value⟩, held, rfl⟩ := Multiset.mem_map.mp member
    exact store.used ((holds.cell _ value).mpr held)
  calc cells.card = (cells.map Prod.fst).card := (Multiset.card_map _ _).symm
    _ ≤ (Multiset.range store.next).card := by
        refine Multiset.card_le_card ((Multiset.le_iff_subset holds.nodup).mpr fun addr member => ?_)
        exact Multiset.mem_range.mpr (inside addr member)
    _ = store.next := Multiset.card_range _

end Holding

/-! ## Triples -/

section Triples

variable {V α β : Type} {generous : Prop} {before rest : Cells V} {post : α → Cells V → Prop}

/-- From the cells `before` the program gets to its end, with a value and with
cells that satisfy `post`, whatever else the heap holds and whichever requests
the allocator refuses; with `generous` it refuses none. -/
def Triple (generous : Prop) (before : Cells V) (program : Mem V α) (post : α → Cells V → Prop) :
    Prop :=
  ∀ store others, (generous → ∀ request, store.grant request = true) →
    Holds store (before + others) →
      ∃ value store' after, program store = .ok (value, store') ∧ post value after ∧
        (generous → ∀ request, store'.grant request = true) ∧ Holds store' (after + others)

theorem triple_pure {value : α} (holds : post value before) :
    Triple generous before (pure value) post := fun store _ granted held =>
  ⟨value, store, before, rfl, holds, granted, held⟩

theorem ofC_bind {computation : C β} {value : β} (computed : computation = .ok value)
    (continue_ : β → Mem V α) : ofC computation >>= continue_ = continue_ value := by
  subst computed
  rfl

theorem Triple.weaken {weaker : α → Cells V → Prop} {program : Mem V α}
    (triple : Triple generous before program post)
    (values : ∀ value after, post value after → weaker value after) :
    Triple generous before program weaker := by
  intro store others granted held
  obtain ⟨value, store', after, ran, holds, still, left⟩ := triple store others granted held
  exact ⟨value, store', after, ran, values value after holds, still, left⟩

/-- The first program uses some of the cells and leaves the rest. -/
theorem Triple.bind {middle : β → Cells V → Prop} {used : Cells V} {first : Mem V β}
    {continue_ : β → Mem V α} (triple : Triple generous used first middle)
    (split : before = used + rest)
    (continued : ∀ value after, middle value after →
      Triple generous (after + rest) (continue_ value) post) :
    Triple generous before (first >>= continue_) post := by
  subst split
  intro store others granted held
  rw [add_assoc] at held
  obtain ⟨value, store', after, ran, holds, still, left⟩ := triple store (rest + others) granted held
  rw [← add_assoc] at left
  obtain ⟨value', store'', after', ran', holds', still', left'⟩ :=
    continued value after holds store' others still left
  refine ⟨value', store'', after', ?_, holds', still', left'⟩
  show (first store >>= fun result => continue_ result.1 result.2) = _
  rw [ran]
  exact ran'

/-- A program that uses some of the cells leaves the rest. -/
theorem Triple.within {used : Cells V} {middle : α → Cells V → Prop} {program : Mem V α}
    (triple : Triple generous used program middle) (split : before = used + rest)
    (values : ∀ value after, middle value after → post value (after + rest)) :
    Triple generous before program post := by
  subst split
  intro store others granted held
  rw [add_assoc] at held
  obtain ⟨value, store', after, ran, holds, still, left⟩ := triple store (rest + others) granted held
  rw [← add_assoc] at left
  exact ⟨value, store', after + rest, ran, values value after holds, still, left⟩

/-- As `Triple.bind`, where the value is all that matters and the cells stay. -/
theorem Triple.ask {middle : β → Prop} {used : Cells V} {first : Mem V β} {continue_ : β → Mem V α}
    (triple : Triple generous used first fun value after => middle value ∧ after = used)
    (split : before = used + rest)
    (continued : ∀ value, middle value → Triple generous before (continue_ value) post) :
    Triple generous before (first >>= continue_) post := by
  refine triple.bind split ?_
  rintro value after ⟨holds, rfl⟩
  rw [← split]
  exact continued value holds

/-- Two cells are at different addresses. -/
theorem Triple.apart {first second : Nat} {value value' : V} {program : Mem V α}
    (split : before = {(first, value)} + ({(second, value')} + rest))
    (continued : first ≠ second → Triple generous before program post) :
    Triple generous before program post := by
  intro store others granted held
  refine continued ?_ store others granted held
  rintro rfl
  have cells : before + others = (first, value) ::ₘ ({(first, value')} + rest + others) := by
    rw [split, add_assoc]
    rfl
  rw [cells] at held
  refine held.absent value' ?_
  rw [add_assoc]
  exact Multiset.mem_cons_self _ _

/-- What a program leaves is at different addresses: an address it is given is
not in use. -/
theorem Triple.distinct {program : Mem V α} (triple : Triple generous before program post) :
    Triple generous before program fun value after => post value after ∧ Distinct after := by
  intro store others granted held
  obtain ⟨value, store', after, ran, holds, still, left⟩ := triple store others granted held
  have apart : Distinct (after + others) := left.nodup
  exact ⟨value, store', after, ran, ⟨holds, apart.split.1⟩, still, left⟩

theorem triple_overBlocks {body : Nat → Mem V α}
    (enough : ∀ fuel, before.card < fuel → Triple generous before (body fuel) post) :
    Triple generous before (overBlocks body) post := by
  intro store others granted held
  refine enough (store.next + 1) ?_ store others granted held
  have used := held.card_le
  rw [Multiset.card_add] at used
  omega

theorem triple_alloc (value : V) : Triple generous 0 (alloc value) fun result after =>
    (result = none ∧ ¬ generous ∧ after = 0) ∨ ∃ addr, result = some addr ∧ after = {(addr, value)} := by
  intro store others granted held
  rw [zero_add] at held
  by_cases succeeds : store.grant 0 = true
  · refine ⟨some store.next, store.push value, {(store.next, value)}, if_pos succeeds,
      Or.inr ⟨_, rfl, rfl⟩, fun given request => granted given _, ?_⟩
    exact held.push value
  · refine ⟨none, store.refuse, 0, if_neg succeeds,
      Or.inl ⟨rfl, fun given => succeeds (granted given 0), rfl⟩,
      fun given request => granted given _, ?_⟩
    rw [zero_add]
    exact ⟨held.nodup, held.cell⟩

theorem triple_load (addr : Nat) (value : V) : Triple generous {(addr, value)} (load addr)
    fun result after => result = value ∧ after = {(addr, value)} := by
  intro store others granted held
  refine ⟨value, store, {(addr, value)}, ?_, ⟨rfl, rfl⟩, granted, held⟩
  unfold load
  rw [held.cell_first]

theorem triple_save (addr : Nat) (value later : V) : Triple generous {(addr, value)} (save addr later)
    fun _ after => after = {(addr, later)} := by
  intro store others granted held
  have present : (store.cell addr).isSome = true := by
    rw [held.cell_first]
    rfl
  exact ⟨(), _, {(addr, later)}, dif_pos present, rfl, granted, held.save _ later⟩

theorem triple_release (addr : Nat) (value : V) : Triple generous {(addr, value)} (release addr)
    fun _ after => after = 0 := by
  intro store others granted held
  have present : (store.cell addr).isSome = true := by
    rw [held.cell_first]
    rfl
  refine ⟨(), _, 0, dif_pos present, rfl, granted, ?_⟩
  rw [zero_add]
  exact held.release _

/-- A run from a heap that holds these cells. -/
theorem Triple.run {program : Mem V α} (triple : Triple generous before program post)
    {store : Store V} (granted : generous → ∀ request, store.grant request = true)
    (held : Holds store before) :
    ∃ value store' after, program store = .ok (value, store') ∧ post value after ∧
      Holds store' after := by
  rw [← add_zero before] at held
  obtain ⟨value, store', after, ran, holds, -, left⟩ := triple store 0 granted held
  rw [add_zero] at left
  exact ⟨value, store', after, ran, holds, left⟩

end Triples

end CHeap

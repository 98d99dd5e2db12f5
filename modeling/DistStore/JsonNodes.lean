import DistStore.JsonTree
import DistStore.Lib.CHeap

/-!
# The nodes of cJSON in memory

A `cJSON` is a block with pointers to its siblings, its first child and its
strings.  An item stands for a node together with what it owns: the strings,
unless a flag says they are not its own, and the chain of its children.
-/

set_option autoImplicit false

namespace DistStore.JsonNodes

open CMemory CHeap JsonPrint JsonTree

/-! ## Blocks -/

/-- A `char *`: `NULL`, a block of the heap, or a text of the program. -/
inductive Pointer where
  | null
  | heap (addr : Nat)
  | static (text : Text)

def Pointer.isSome : Pointer → Bool
  | null => false
  | _ => true

structure Node (D : Type) where
  next : Option Nat
  prev : Option Nat
  child : Option Nat
  type : BitVec 32
  valuestring : Pointer
  valueint : Int
  valuedouble : D
  string : Pointer

/-- The bytes of a block are indeterminate until they are written. -/
inductive Block (D : Type) where
  | node (node : Node D)
  | chars (content : List (Option Byte))
  | pointers (entries : List (Option Nat))

def cJsonFalse : BitVec 32 := 0
def cJsonTrue : BitVec 32 := 1
def cJsonNull : BitVec 32 := 2
def cJsonNumber : BitVec 32 := 3
def cJsonString : BitVec 32 := 4
def cJsonArray : BitVec 32 := 5
def cJsonObject : BitVec 32 := 6
def cJsonIsReference : BitVec 32 := 256
def cJsonStringIsConst : BitVec 32 := 512

section Accesses

variable {D : Type}

def loadNode (addr : Nat) : Mem (Block D) (Node D) := do
  match ← load addr with
  | .node node => return node
  | _ => trap .dangling

def setNode (addr : Nat) (change : Node D → Node D) : Mem (Block D) Unit := do
  let node ← loadNode addr
  save addr (.node (change node))

/-- The string up to its NUL. -/
def terminated : List (Option Byte) → Option Bytes
  | [] => none
  | none :: _ => none
  | some byte :: rest => if byte = 0 then some [] else (terminated rest).map (byte :: ·)

def loadText : Pointer → Mem (Block D) Bytes
  | .null => trap (.fault .nullPointer)
  | .static text => return text.val
  | .heap addr => do
      match ← load addr with
      | .chars content =>
          match terminated content with
          | some text => return text
          | none => trap (.fault .readOutside)
      | _ => trap .dangling

def malloc (size : Nat) : Mem (Block D) (Option Nat) := alloc (.chars (List.replicate size none))

def overlay (content : List (Option Byte)) (offset : Nat) (bytes : Bytes) : List (Option Byte) :=
  content.take offset ++ (bytes.map some ++ content.drop (offset + bytes.length))

/-- Bytes are written from an offset on. -/
def write (addr offset : Nat) (bytes : Bytes) : Mem (Block D) Unit := do
  match ← load addr with
  | .chars content =>
      if offset + bytes.length ≤ content.length then save addr (.chars (overlay content offset bytes))
      else trap (.fault .writeOutside)
  | _ => trap .dangling

/-- `cJSON_free`. -/
def free : Pointer → Mem (Block D) Unit
  | .null => return ()
  | .heap addr => release addr
  | .static _ => trap .dangling

/-- `cJSON_strdup`. -/
def strdup (str : Pointer) : Mem (Block D) (Option Nat) := do
  let text ← loadText str
  match ← malloc (text.length + 1) with
  | none => return none
  | some copy =>
      write copy 0 (text ++ [0])
      return some copy

/-- The pointer that `malloc` returns. -/
def given : Option Nat → Pointer
  | none => .null
  | some addr => .heap addr

def Node.zero [Double D] : Node D where
  next := none
  prev := none
  child := none
  type := 0
  valuestring := .null
  valueint := 0
  valuedouble := Double.ofInt 0
  string := .null

/-- `cJSON_New_Item`. -/
def newItem [Double D] : Mem (Block D) (Option Nat) := alloc (.node Node.zero)

/-- `cJSON_Delete`. -/
def deleteFrom : Nat → Option Nat → Mem (Block D) Unit
  | 0, _ => trap .fuel
  | _ + 1, none => return ()
  | fuel + 1, some c => do
      let node ← loadNode c
      (if node.type &&& cJsonIsReference = 0 ∧ node.child.isSome then deleteFrom fuel node.child
        else return ())
      (if node.type &&& cJsonIsReference = 0 ∧ node.valuestring.isSome then free node.valuestring
        else return ())
      (if node.type &&& cJsonStringIsConst = 0 ∧ node.string.isSome then free node.string else return ())
      release c
      deleteFrom fuel node.next

def delete (c : Option Nat) : Mem (Block D) Unit := overBlocks fun fuel => deleteFrom fuel c

end Accesses

/-! ## Items -/

/-- A string of a node: one that is not its own, or a block. -/
inductive Name where
  | borrowed (pointer : Pointer)
  | owned (addr : Nat) (text : Text) (slack : List (Option Byte))

def Name.null : Name := .borrowed .null

def Name.pointer : Name → Pointer
  | borrowed pointer => pointer
  | owned addr _ _ => .heap addr

/-- A text, its NUL and what is behind. -/
def filled (text : Bytes) (slack : List (Option Byte)) : List (Option Byte) := text.map some ++ slack

def Name.cells (D : Type) : Name → Cells (Block D)
  | borrowed _ => 0
  | owned addr text slack => {(addr, .chars (filled text.val (some 0 :: slack)))}

/-- What a string is known to read. -/
def Name.text : Name → Option Text
  | borrowed (.static text) => some text
  | owned _ text _ => some text
  | _ => none

/-- A string that is freed with its node. -/
def Name.IsOwn : Name → Prop
  | borrowed pointer => pointer = .null
  | owned _ _ _ => True

def Name.IsBorrowed : Name → Prop
  | borrowed _ => True
  | owned _ _ _ => False

/-- Children that are not the item's own are left at `foreign`. -/
structure Item (D : Type) where
  addr : Nat
  type : BitVec 32
  valuestring : Name
  valueint : Int
  valuedouble : D
  string : Name
  child : List (Item D)
  foreign : Option Nat

section Items

variable {D : Type}

/-- Where a chain starts, and where one that ends there goes on. -/
def first : List (Item D) → Option Nat → Option Nat
  | [], next => next
  | item :: _, _ => some item.addr

/-- Where a chain ends. -/
def last : Option Nat → List (Item D) → Option Nat
  | prev, [] => prev
  | _, item :: rest => last (some item.addr) rest

def Item.node (item : Item D) (prev next : Option Nat) : Node D where
  next := next
  prev := prev
  child := first item.child item.foreign
  type := item.type
  valuestring := item.valuestring.pointer
  valueint := item.valueint
  valuedouble := item.valuedouble
  string := item.string.pointer

mutual

def Item.cells (prev next : Option Nat) : Item D → Cells (Block D)
  | ⟨addr, type, valuestring, valueint, valuedouble, string, child, foreign⟩ =>
      {(addr, .node (Item.node ⟨addr, type, valuestring, valueint, valuedouble, string, child, foreign⟩
        prev next))} + (valuestring.cells D + string.cells D + chain none none child)

/-- The cells of siblings between `prev` and `next`. -/
def chain (prev next : Option Nat) : List (Item D) → Cells (Block D)
  | [] => 0
  | item :: rest => item.cells prev (first rest next) + chain (some item.addr) next rest

end

/-- What an item owns besides its node. -/
def Item.own (item : Item D) : Cells (Block D) :=
  item.valuestring.cells D + item.string.cells D + chain none none item.child

theorem Item.cells_eq (item : Item D) (prev next : Option Nat) :
    item.cells prev next = {(item.addr, .node (item.node prev next))} + item.own := by
  cases item
  rw [Item.cells]
  rfl

@[simp] theorem chain_nil (prev next : Option Nat) : chain prev next ([] : List (Item D)) = 0 := by
  rw [chain]

theorem chain_cons (prev next : Option Nat) (item : Item D) (rest : List (Item D)) :
    chain prev next (item :: rest) =
      item.cells prev (first rest next) + chain (some item.addr) next rest := by
  rw [chain]

theorem chain_single (prev next : Option Nat) (item : Item D) :
    chain prev next [item] = item.cells prev next := by
  rw [chain_cons, chain_nil, add_zero]
  rfl

theorem first_append (xs ys : List (Item D)) (next : Option Nat) :
    first (xs ++ ys) next = first xs (first ys next) := by
  cases xs <;> rfl

theorem chain_append (prev next : Option Nat) (xs ys : List (Item D)) :
    chain prev next (xs ++ ys) = chain prev (first ys next) xs + chain (last prev xs) next ys := by
  induction xs generalizing prev with
  | nil => rw [List.nil_append, chain_nil, zero_add, last]
  | cons item xs inductionHypothesis =>
      rw [List.cons_append, chain_cons, inductionHypothesis, first_append, chain_cons, add_assoc, last]

/-- The strings and children an item frees are those it owns. -/
inductive Sound : Item D → Prop where
  | intro {item : Item D}
      (own : item.type &&& cJsonIsReference = 0 → item.valuestring.IsOwn ∧ item.foreign = none)
      (reference : item.type &&& cJsonIsReference ≠ 0 → item.valuestring.IsBorrowed ∧ item.child = [])
      (named : item.type &&& cJsonStringIsConst = 0 → item.string.IsOwn)
      (const : item.type &&& cJsonStringIsConst ≠ 0 → item.string.IsBorrowed)
      (children : ∀ child ∈ item.child, Sound child) : Sound item

/-! ## Trees -/

mutual

/-- An item shows a tree that can be read from it. -/
def Shows : Json D → Item D → Prop
  | .null, item => item.type &&& 255 = cJsonNull
  | .false, item => item.type &&& 255 = cJsonFalse
  | .true, item => item.type &&& 255 = cJsonTrue
  | .number valueint valuedouble, item => item.type &&& 255 = cJsonNumber ∧ IsInt valueint ∧
      item.valueint = valueint ∧ item.valuedouble = valuedouble
  | .string valuestring, item =>
      item.type &&& 255 = cJsonString ∧ item.valuestring.text = some valuestring
  | .array child, item =>
      item.type &&& 255 = cJsonArray ∧ item.foreign = none ∧ ShowItems child item.child
  | .object child, item =>
      item.type &&& 255 = cJsonObject ∧ item.foreign = none ∧ ShowMembers child item.child

def ShowItems : List (Json D) → List (Item D) → Prop
  | [], items => items = []
  | value :: next, items => ∃ item rest, items = item :: rest ∧ Shows value item ∧ ShowItems next rest

def ShowMembers : List (Text × Json D) → List (Item D) → Prop
  | [], items => items = []
  | member :: next, items =>
      ∃ item rest, items = item :: rest ∧ ShowMember member item ∧ ShowMembers next rest

def ShowMember : Text × Json D → Item D → Prop
  | (string, value), item => item.string.text = some string ∧ Shows value item

end

end Items

/-! ## What the accesses do -/

section Rules

variable {D : Type} {generous : Prop}

theorem triple_loadNode (addr : Nat) (node : Node D) :
    Triple generous {(addr, .node node)} (loadNode addr)
      fun result after => result = node ∧ after = {(addr, Block.node node)} := by
  refine (triple_load addr (Block.node node)).bind (add_zero _).symm ?_
  rintro value after ⟨rfl, rfl⟩
  rw [add_zero]
  exact triple_pure ⟨rfl, rfl⟩

theorem triple_setNode (addr : Nat) (node : Node D) (change : Node D → Node D) :
    Triple generous {(addr, .node node)} (setNode addr change)
      fun _ after => after = {(addr, Block.node (change node))} := by
  refine (triple_loadNode addr node).ask (add_zero _).symm ?_
  rintro _ rfl
  exact triple_save addr _ _

theorem terminated_filled (text : Text) (slack : List (Option Byte)) :
    terminated (filled text.val (some 0 :: slack)) = some text.val := by
  obtain ⟨bytes, nulFree⟩ := text
  induction bytes with
  | nil => rfl
  | cons byte bytes inductionHypothesis =>
      have nonzero : byte ≠ 0 := fun zero => nulFree (zero ▸ List.mem_cons_self)
      have later := inductionHypothesis fun member => nulFree (List.mem_cons_of_mem _ member)
      show terminated (some byte :: filled bytes (some 0 :: slack)) = _
      rw [terminated, if_neg nonzero, later]
      rfl

theorem triple_loadText_heap (addr : Nat) (text : Text) (slack : List (Option Byte)) :
    Triple generous {(addr, .chars (filled text.val (some 0 :: slack)))}
      (loadText (D := D) (.heap addr)) fun result after => result = text.val ∧
        after = {(addr, Block.chars (filled text.val (some 0 :: slack)))} := by
  refine (triple_load addr (Block.chars (filled text.val (some 0 :: slack)))).bind
    (add_zero _).symm ?_
  rintro value after ⟨rfl, rfl⟩
  rw [add_zero]
  simp only [terminated_filled]
  exact triple_pure ⟨rfl, rfl⟩

/-- A string that reads something is readable. -/
theorem triple_loadText {name : Name} {text : Text} (reads : name.text = some text) :
    Triple generous (name.cells D) (loadText name.pointer)
      fun result after => result = text.val ∧ after = name.cells D := by
  cases name with
  | borrowed pointer =>
      cases pointer with
      | null => cases reads
      | heap addr => cases reads
      | static text =>
          cases reads
          exact triple_pure ⟨rfl, rfl⟩
  | owned addr text slack =>
      cases reads
      exact triple_loadText_heap addr text slack

/-- A string is freed when a flag says that it is the node's own. -/
theorem triple_free_if {name : Name} {flag : Prop} [Decidable flag] (own : flag → name.IsOwn)
    (borrowed : ¬ flag → name.IsBorrowed) :
    Triple generous (name.cells D)
      (if flag ∧ name.pointer.isSome then free name.pointer else return ())
      fun _ after => after = 0 := by
  cases name with
  | borrowed pointer =>
      have kept : ¬ (flag ∧ (Name.borrowed pointer).pointer.isSome) := by
        rintro ⟨holds, present⟩
        rw [show pointer = .null from own holds] at present
        cases present
      rw [if_neg kept]
      exact triple_pure rfl
  | owned addr text slack =>
      have freed : flag ∧ (Name.owned addr text slack).pointer.isSome :=
        ⟨not_not.mp fun isBorrowed => borrowed isBorrowed, rfl⟩
      rw [if_pos freed]
      exact triple_release addr _

theorem overlay_filled (text bytes : Bytes) (slack : List (Option Byte)) :
    overlay (filled text slack) text.length bytes =
      filled (text ++ bytes) (slack.drop bytes.length) := by
  unfold overlay filled
  rw [List.take_left' (List.length_map _), ← List.drop_drop, List.drop_left' (List.length_map _),
    List.map_append, List.append_assoc]

/-- Bytes are written behind those that are there. -/
theorem triple_write (addr : Nat) (text bytes : Bytes) (slack : List (Option Byte)) {offset : Nat}
    (behind : offset = text.length) (room : bytes.length ≤ slack.length) :
    Triple generous {(addr, .chars (filled text slack))} (write (D := D) addr offset bytes)
      fun _ after => after = {(addr, Block.chars (filled (text ++ bytes) (slack.drop bytes.length)))} := by
  subst behind
  refine (triple_load addr (Block.chars (filled text slack))).bind (add_zero _).symm ?_
  rintro value after ⟨rfl, rfl⟩
  rw [add_zero]
  have inside : text.length + bytes.length ≤ (filled text slack).length := by
    unfold filled
    rw [List.length_append, List.length_map]
    exact Nat.add_le_add_left room _
  simp only [inside, if_true, overlay_filled]
  exact triple_save addr _ _

theorem filled_nul (text : Bytes) (slack : List (Option Byte)) :
    filled (text ++ [0]) slack = filled text (some 0 :: slack) := by
  unfold filled
  rw [List.map_append, List.append_assoc]
  rfl

/-- As `triple_write`, with a NUL that is left behind. -/
theorem triple_writeNul (addr : Nat) (text bytes : Bytes) (slack : List (Option Byte)) {offset : Nat}
    (behind : offset = text.length) (room : bytes.length < slack.length) :
    Triple generous {(addr, .chars (filled text slack))} (write (D := D) addr offset (bytes ++ [0]))
      fun _ after => after = {(addr, Block.chars (filled (text ++ bytes)
        (some 0 :: slack.drop (bytes.length + 1))))} := by
  refine (triple_write addr text (bytes ++ [0]) slack behind ?_).weaken ?_
  · rw [List.length_append, List.length_singleton]
    exact room
  · rintro _ _ rfl
    rw [← List.append_assoc, filled_nul, List.length_append, List.length_singleton]

/-- What an allocation leaves when it has given `owned`, or nothing. -/
def Given (generous : Prop) (result : Option Nat) (after : Cells (Block D))
    (owned : Nat → Cells (Block D)) : Prop :=
  (result = none ∧ ¬ generous ∧ after = 0) ∨ ∃ addr, result = some addr ∧ after = owned addr

theorem triple_malloc (size : Nat) : Triple generous 0 (malloc (D := D) size)
    fun result after => Given generous result after
      fun addr => {(addr, .chars (filled [] (List.replicate size none)))} :=
  triple_alloc _

theorem triple_strdup {name : Name} {text : Text} (reads : name.text = some text) :
    Triple generous (name.cells D) (strdup name.pointer) fun result after =>
      ∃ copy, after = name.cells D + copy ∧ Given generous result copy
        fun addr => (Name.owned addr text []).cells D := by
  refine (triple_loadText reads).ask (add_zero _).symm ?_
  rintro _ rfl
  refine (triple_malloc _).bind (zero_add _).symm ?_
  rintro _ after (⟨rfl, refused, rfl⟩ | ⟨addr, rfl, rfl⟩)
  · exact triple_pure ⟨0, by rw [zero_add, add_zero], Or.inl ⟨rfl, refused, rfl⟩⟩
  · have room : (text.val ++ [0]).length ≤ (List.replicate (text.val.length + 1) (none : Option Byte)).length := by
      simp
    refine (triple_write addr [] (text.val ++ [0]) _ rfl room).bind rfl ?_
    rintro _ _ rfl
    refine triple_pure ⟨{(addr, .chars (filled text.val [some 0]))}, ?_, Or.inr ⟨addr, rfl, rfl⟩⟩
    rw [add_comm, List.nil_append, List.drop_of_length_le (by simp)]
    simp [filled]

theorem triple_newItem [Double D] : Triple generous 0 (newItem (D := D)) fun result after =>
    Given generous result after fun addr => {(addr, .node Node.zero)} :=
  triple_alloc _

end Rules

/-! ## Links -/

section Links

variable {D : Type} {generous : Prop}

theorem triple_setNext (item : Item D) (prev next next' : Option Nat) :
    Triple generous (item.cells prev next)
      (setNode item.addr fun node => { node with next := next' })
      fun _ after => after = item.cells prev next' := by
  refine (triple_setNode item.addr (item.node prev next) _).within (item.cells_eq prev next) ?_
  rintro _ _ rfl
  exact (item.cells_eq prev next').symm

theorem triple_setPrev (item : Item D) (prev prev' next : Option Nat) :
    Triple generous (item.cells prev next)
      (setNode item.addr fun node => { node with prev := prev' })
      fun _ after => after = item.cells prev' next := by
  refine (triple_setNode item.addr (item.node prev next) _).within (item.cells_eq prev next) ?_
  rintro _ _ rfl
  exact (item.cells_eq prev' next).symm

end Links

/-! ## Deleting -/

section Deleting

variable {D : Type} {generous : Prop}

theorem card_own_lt (item : Item D) (prev next : Option Nat) :
    item.own.card < (item.cells prev next).card := by
  rw [item.cells_eq, Multiset.card_add, Multiset.card_singleton]
  omega

theorem length_le_card (prev next : Option Nat) (items : List (Item D)) :
    items.length ≤ (chain prev next items).card := by
  induction items generalizing prev with
  | nil => exact Nat.zero_le _
  | cons item rest inductionHypothesis =>
      have counted := card_own_lt item prev (first rest next)
      have later := inductionHypothesis (some item.addr)
      rw [chain_cons, Multiset.card_add, List.length_cons]
      omega

/-- Where no children are deleted there are none. -/
theorem children_eq_nil {item : Item D}
    (reference : item.type &&& cJsonIsReference ≠ 0 → item.valuestring.IsBorrowed ∧ item.child = [])
    (kept : ¬ (item.type &&& cJsonIsReference = 0 ∧ (first item.child item.foreign).isSome)) :
    item.child = [] := by
  by_cases flag : item.type &&& cJsonIsReference = 0
  · have none := fun present => kept ⟨flag, present⟩
    cases children : item.child with
    | nil => rfl
    | cons child rest =>
        rw [children] at none
        exact absurd rfl none
  · exact (reference flag).2

theorem triple_deleteFrom {items : List (Item D)} (sound : ∀ item ∈ items, Sound item)
    (prev : Option Nat) {fuel : Nat} (enough : (chain prev none items).card < fuel) :
    Triple generous (chain prev none items) (deleteFrom fuel (first items none))
      fun _ after => after = 0 := by
  induction fuel generalizing items prev with
  | zero => exact absurd enough (Nat.not_lt_zero _)
  | succ fuel inductionHypothesis =>
      cases items with
      | nil =>
          rw [chain_nil]
          exact triple_pure rfl
      | cons item rest =>
          rw [List.forall_mem_cons] at sound
          obtain ⟨⟨own, reference, named, const, children⟩, others⟩ := sound
          have counted := card_own_lt item prev (first rest none)
          rw [chain_cons, Multiset.card_add] at enough
          have fewer : (chain none none item.child).card ≤ item.own.card := by
            unfold Item.own
            rw [Multiset.card_add]
            exact Nat.le_add_left _ _
          have nested : Triple generous (chain none none item.child)
              (if item.type &&& cJsonIsReference = 0 ∧ (first item.child item.foreign).isSome then
                deleteFrom fuel (first item.child item.foreign) else return ())
              fun _ after => after = 0 := by
            by_cases deleted : item.type &&& cJsonIsReference = 0 ∧ (first item.child item.foreign).isSome
            · rw [if_pos deleted, (own deleted.1).2]
              exact inductionHypothesis children none (by omega)
            · rw [if_neg deleted]
              refine triple_pure ?_
              rw [children_eq_nil reference deleted, chain_nil]
          rw [chain_cons, item.cells_eq]
          refine (triple_loadNode _ _).ask (add_assoc _ _ _) ?_
          rintro _ rfl
          refine nested.bind (show _ = _ + ({(item.addr, .node (item.node prev (first rest none)))} +
            item.valuestring.cells D + item.string.cells D + chain (some item.addr) none rest) from ?_) ?_
          · unfold Item.own
            ac_rfl
          rintro _ _ rfl
          rw [zero_add]
          refine (triple_free_if (fun flag => (own flag).1) fun flag => (reference flag).1).bind
            (show _ = _ + ({(item.addr, .node (item.node prev (first rest none)))} +
              item.string.cells D + chain (some item.addr) none rest) by ac_rfl) ?_
          rintro _ _ rfl
          rw [zero_add]
          refine (triple_free_if named const).bind
            (show _ = _ + ({(item.addr, .node (item.node prev (first rest none)))} +
              chain (some item.addr) none rest) by ac_rfl) ?_
          rintro _ _ rfl
          rw [zero_add]
          refine (triple_release _ _).bind rfl ?_
          rintro _ _ rfl
          rw [zero_add]
          exact inductionHypothesis others (some item.addr) (by omega)

/-- `cJSON_Delete` frees an item that nothing comes after, and all it owns. -/
theorem triple_delete {item : Item D} (prev : Option Nat) (sound : Sound item) :
    Triple generous (item.cells prev none) (delete (some item.addr)) fun _ after => after = 0 := by
  rw [← chain_single]
  refine triple_overBlocks fun fuel enough => ?_
  exact triple_deleteFrom (List.forall_mem_singleton.mpr sound) prev enough

end Deleting

end DistStore.JsonNodes

import DistStore.JsonNodes

/-!
# Children that are added and taken out

The functions of cJSON that change a list of children move the pointers between
siblings and the pointer to the first child.  Each is the change of a list that
its name says, and every other block stays as it is.
-/

set_option autoImplicit false

namespace DistStore.JsonNodeLists

open CMemory CHeap JsonTree JsonNodes

section Definitions

variable {D : Type}

/-- `array->child`. -/
def childOf (array : Nat) : Mem (Block D) (Option Nat) := do return (← loadNode array).child

/-- `while (c && which>0) c=c->next,which--`. -/
def walk : Nat → Option Nat → Mem (Block D) (Option Nat)
  | 0, c => return c
  | _ + 1, none => return none
  | which + 1, some c => do walk which (← loadNode c).next

/-- `while (c) i++,c=c->next`. -/
def countFrom : Nat → Option Nat → Int → Mem (Block D) Int
  | 0, _, _ => trap .fuel
  | _ + 1, none, i => return i
  | fuel + 1, some c, i => do countFrom fuel (← loadNode c).next (i + 1)

/-- `while (c && c->next) c=c->next`. -/
def lastFrom : Nat → Nat → Mem (Block D) Nat
  | 0, _ => trap .fuel
  | fuel + 1, c => do
      match (← loadNode c).next with
      | none => return c
      | some next => lastFrom fuel next

/-- `cJSON_strcasecmp`. -/
def strcasecmp (s1 s2 : Pointer) : Mem (Block D) Int := do
  if s1.isSome then
    if s2.isSome then return JsonTree.strcasecmp (← loadText s1) (← loadText s2) else return 1
  else return if s2.isSome then 1 else 0

/-- `while (c && cJSON_strcasecmp(c->string,string)) i++,c=c->next`. -/
def search (string : Pointer) : Nat → Option Nat → Int → Mem (Block D) (Option Nat × Int)
  | 0, _, _ => trap .fuel
  | _ + 1, none, i => return (none, i)
  | fuel + 1, some c, i => do
      if (← strcasecmp (← loadNode c).string string) ≠ 0 then
        search string fuel (← loadNode c).next (i + 1)
      else return (some c, i)

/-- `cJSON_GetArraySize`: `i++` overflows where its last value is no `int`. -/
def getArraySize (array : Nat) : Mem (Block D) Int := do
  let c ← childOf array
  let i ← overBlocks fun fuel => countFrom fuel c 0
  ofC (checkInt i)

/-- `cJSON_GetArrayItem`. -/
def getArrayItem (array : Nat) (item : Int) : Mem (Block D) (Option Nat) := do
  walk item.toNat (← childOf array)

/-- `cJSON_GetObjectItem`. -/
def getObjectItem (object : Nat) (string : Pointer) : Mem (Block D) (Option Nat) := do
  let c ← childOf object
  let (c, _) ← overBlocks fun fuel => search string fuel c 0
  return c

/-- The search with a counter, `int i`. -/
def searchCounted (object : Nat) (string : Pointer) : Mem (Block D) (Option Nat × Int) := do
  let c ← childOf object
  let (c, i) ← overBlocks fun fuel => search string fuel c 0
  let i ← ofC (checkInt i)
  return (c, i)

/-- `suffix_object`. -/
def suffixObject (prev item : Nat) : Mem (Block D) Unit := do
  setNode prev fun node => { node with next := some item }
  setNode item fun node => { node with prev := some prev }

/-- `cJSON_AddItemToArray`. -/
def addItemToArray (array : Nat) (item : Option Nat) : Mem (Block D) Unit := do
  let c ← childOf array
  match item with
  | none => return ()
  | some item =>
      match c with
      | none => setNode array fun node => { node with child := some item }
      | some c => do suffixObject (← overBlocks fun fuel => lastFrom fuel c) item

/-- `cJSON_AddItemToObject`. -/
def addItemToObject (object : Nat) (string : Pointer) : Option Nat → Mem (Block D) Unit
  | none => return ()
  | some item => do
      let name := (← loadNode item).string
      (if name.isSome then free name else return ())
      let copy ← strdup string
      setNode item fun node => { node with string := given copy }
      addItemToArray object (some item)

/-- `cJSON_AddItemToObjectCS`. -/
def addItemToObjectCS (object : Nat) (string : Pointer) : Option Nat → Mem (Block D) Unit
  | none => return ()
  | some item => do
      let node ← loadNode item
      (if node.type &&& cJsonStringIsConst = 0 ∧ node.string.isSome then free node.string
        else return ())
      setNode item fun node => { node with string := string, type := node.type ||| cJsonStringIsConst }
      addItemToArray object (some item)

def nonNull : Option Nat → Mem (Block D) Nat
  | none => trap (.fault .nullPointer)
  | some addr => return addr

/-- An assignment through a pointer unless it is `NULL`. -/
def setSome (c : Option Nat) (change : Node D → Node D) : Mem (Block D) Unit :=
  match c with
  | none => return ()
  | some c => setNode c change

/-- `cJSON_DetachItemFromArray`. -/
def detachItemFromArray (array : Nat) (which : Int) : Mem (Block D) (Option Nat) := do
  match ← walk which.toNat (← childOf array) with
  | none => return none
  | some c => do
      let node ← loadNode c
      setSome node.prev fun before => { before with next := node.next }
      let node ← loadNode c
      setSome node.next fun after => { after with prev := node.prev }
      let child ← childOf array
      let node ← loadNode c
      (if child = some c then setNode array fun array => { array with child := node.next }
        else return ())
      setNode c fun node => { node with prev := none, next := none }
      return some c

/-- `cJSON_DeleteItemFromArray`. -/
def deleteItemFromArray (array : Nat) (which : Int) : Mem (Block D) Unit := do
  delete (← detachItemFromArray array which)

/-- `cJSON_DetachItemFromObject`. -/
def detachItemFromObject (object : Nat) (string : Pointer) : Mem (Block D) (Option Nat) := do
  match ← searchCounted object string with
  | (some _, i) => detachItemFromArray object i
  | (none, _) => return none

/-- `cJSON_DeleteItemFromObject`. -/
def deleteItemFromObject (object : Nat) (string : Pointer) : Mem (Block D) Unit := do
  delete (← detachItemFromObject object string)

/-- `if (c==array->child) array->child=newitem; else newitem->prev->next=newitem`. -/
def headOrNext (array c newitem : Nat) : Mem (Block D) Unit := do
  if (← childOf array) = some c then setNode array fun array => { array with child := some newitem }
  else
    let before ← nonNull (← loadNode newitem).prev
    setNode before fun before => { before with next := some newitem }

/-- `cJSON_InsertItemInArray`. -/
def insertItemInArray (array : Nat) (which : Int) (newitem : Nat) : Mem (Block D) Unit := do
  match ← walk which.toNat (← childOf array) with
  | none => addItemToArray array (some newitem)
  | some c => do
      setNode newitem fun node => { node with next := some c }
      let node ← loadNode c
      setNode newitem fun newitem => { newitem with prev := node.prev }
      setNode c fun node => { node with prev := some newitem }
      headOrNext array c newitem

/-- `cJSON_ReplaceItemInArray`. -/
def replaceItemInArray (array : Nat) (which : Int) (newitem : Nat) : Mem (Block D) Unit := do
  match ← walk which.toNat (← childOf array) with
  | none => return ()
  | some c => do
      let node ← loadNode c
      setNode newitem fun newitem => { newitem with next := node.next }
      let node ← loadNode c
      setNode newitem fun newitem => { newitem with prev := node.prev }
      setSome (← loadNode newitem).next fun after => { after with prev := some newitem }
      headOrNext array c newitem
      setNode c fun node => { node with prev := none, next := none }
      delete (some c)

/-- `cJSON_ReplaceItemInObject`. -/
def replaceItemInObject (object : Nat) (string : Pointer) (newitem : Nat) : Mem (Block D) Unit := do
  match ← searchCounted object string with
  | (some _, i) => do
      let copy ← strdup string
      setNode newitem fun node => { node with string := given copy }
      replaceItemInArray object i newitem
  | (none, _) => return ()

end Definitions

/-! ## Looking through a list -/

section Looking

variable {D : Type} {generous : Prop}

theorem triple_loadItem (item : Item D) (prev next : Option Nat) :
    Triple generous (item.cells prev next) (loadNode item.addr)
      fun result after => result = item.node prev next ∧ after = item.cells prev next := by
  refine (triple_loadNode item.addr (item.node prev next)).within (item.cells_eq prev next) ?_
  rintro _ _ ⟨rfl, rfl⟩
  exact ⟨rfl, (item.cells_eq prev next).symm⟩

theorem triple_childOf (item : Item D) (prev next : Option Nat) :
    Triple generous (item.cells prev next) (childOf item.addr)
      fun result after => result = first item.child item.foreign ∧ after = item.cells prev next := by
  refine (triple_loadItem item prev next).ask (add_zero _).symm ?_
  rintro _ rfl
  exact triple_pure ⟨rfl, rfl⟩

theorem triple_walk (which : Nat) (prev : Option Nat) (items : List (Item D)) :
    Triple generous (chain prev none items) (walk which (first items none))
      fun result after => result = items[which]?.map Item.addr ∧ after = chain prev none items := by
  induction which generalizing prev items with
  | zero => cases items <;> exact triple_pure ⟨rfl, rfl⟩
  | succ which inductionHypothesis =>
      cases items with
      | nil => exact triple_pure ⟨rfl, rfl⟩
      | cons item rest =>
          rw [chain_cons]
          refine (triple_loadItem item prev (first rest none)).ask rfl ?_
          rintro _ rfl
          refine (inductionHypothesis (some item.addr) rest).within (add_comm _ _) ?_
          rintro _ _ ⟨rfl, rfl⟩
          exact ⟨rfl, add_comm _ _⟩

theorem triple_countFrom (prev : Option Nat) (items : List (Item D)) {fuel : Nat}
    (enough : items.length < fuel) (i : Int) :
    Triple generous (chain prev none items) (countFrom fuel (first items none) i)
      fun result after => result = i + items.length ∧ after = chain prev none items := by
  induction fuel generalizing prev items i with
  | zero => exact absurd enough (Nat.not_lt_zero _)
  | succ fuel inductionHypothesis =>
      cases items with
      | nil => exact triple_pure ⟨(add_zero i).symm, rfl⟩
      | cons item rest =>
          rw [chain_cons]
          refine (triple_loadItem item prev (first rest none)).ask rfl ?_
          rintro _ rfl
          refine (inductionHypothesis (some item.addr) rest (Nat.lt_of_succ_lt_succ enough) (i + 1)).within
            (add_comm _ _) ?_
          rintro _ _ ⟨rfl, rfl⟩
          refine ⟨?_, add_comm _ _⟩
          rw [List.length_cons]
          omega

theorem triple_lastFrom (prev : Option Nat) (item : Item D) (rest : List (Item D)) {fuel : Nat}
    (enough : rest.length < fuel) :
    Triple generous (chain prev none (item :: rest)) (lastFrom fuel item.addr)
      fun result after => last prev (item :: rest) = some result ∧
        after = chain prev none (item :: rest) := by
  induction fuel generalizing prev item rest with
  | zero => exact absurd enough (Nat.not_lt_zero _)
  | succ fuel inductionHypothesis =>
      rw [chain_cons]
      refine (triple_loadItem item prev (first rest none)).ask rfl ?_
      rintro _ rfl
      cases rest with
      | nil => exact triple_pure ⟨rfl, rfl⟩
      | cons next rest =>
          refine (inductionHypothesis (some item.addr) next rest (Nat.lt_of_succ_lt_succ enough)).within
            (add_comm _ _) ?_
          rintro _ _ ⟨same, rfl⟩
          exact ⟨same, add_comm _ _⟩

/-- A name that can be compared. -/
def Readable (name : Name) : Prop := name = .null ∨ ∃ text, name.text = some text

/-- The test of the search for a child. -/
def named (key : Bytes) (item : Item D) : Bool :=
  match item.string.text with
  | some name => JsonTree.strcasecmp name.val key = 0
  | none => false

theorem triple_strcasecmp {name : Name} (readable : Readable name) (key : Text) :
    Triple generous (name.cells D) (strcasecmp name.pointer (.static key))
      fun result after => (result = 0 ↔ ∃ text, name.text = some text ∧
        JsonTree.strcasecmp text.val key.val = 0) ∧ after = name.cells D := by
  rcases readable with rfl | ⟨text, reads⟩
  · refine triple_pure ⟨iff_of_false Int.one_ne_zero ?_, rfl⟩
    rintro ⟨_, ⟨⟩, -⟩
  · have present : name.pointer.isSome = true := by
      cases name with
      | borrowed pointer =>
          cases pointer with
          | null => cases reads
          | heap addr => rfl
          | static text => rfl
      | owned addr text slack => rfl
    unfold strcasecmp
    rw [if_pos present, if_pos (show (Pointer.static key).isSome = true from rfl)]
    refine (triple_loadText reads).ask (add_zero _).symm ?_
    rintro _ rfl
    refine triple_pure ⟨⟨fun equal => ⟨text, reads, equal⟩, ?_⟩, rfl⟩
    rintro ⟨_, same, equal⟩
    rw [reads] at same
    cases same
    exact equal

theorem named_iff (key : Bytes) (item : Item D) :
    named key item = true ↔ ∃ text, item.string.text = some text ∧
      JsonTree.strcasecmp text.val key = 0 := by
  unfold named
  cases item.string.text with
  | none =>
      refine iff_of_false Bool.false_ne_true ?_
      rintro ⟨_, ⟨⟩, -⟩
  | some text => simp

theorem triple_search (key : Text) (prev : Option Nat) (items : List (Item D))
    (readable : ∀ item ∈ items, Readable item.string) {fuel : Nat} (enough : items.length < fuel)
    (i : Int) :
    Triple generous (chain prev none items) (search (.static key) fuel (first items none) i)
      fun result after => result = ((items.find? (named key.val)).map Item.addr,
        i + items.findIdx (named key.val)) ∧ after = chain prev none items := by
  induction fuel generalizing prev items i with
  | zero => exact absurd enough (Nat.not_lt_zero _)
  | succ fuel inductionHypothesis =>
      cases items with
      | nil => exact triple_pure ⟨by simp, rfl⟩
      | cons item rest =>
          rw [List.forall_mem_cons] at readable
          rw [chain_cons]
          refine (triple_loadItem item prev (first rest none)).ask rfl ?_
          rintro _ rfl
          refine (triple_strcasecmp readable.1 key).ask (show _ = _ + (item.valuestring.cells D +
            chain none none item.child + {(item.addr, .node (item.node prev (first rest none)))} +
            chain (some item.addr) none rest) from ?_) ?_
          · rw [item.cells_eq, Item.own]
            ac_rfl
          intro compared same
          rw [← named_iff] at same
          rw [List.find?_cons, List.findIdx_cons]
          by_cases equal : compared = 0
          · rw [if_neg (not_not.mpr equal), same.mp equal]
            exact triple_pure ⟨by simp, rfl⟩
          · have other : named key.val item = false :=
              Bool.eq_false_iff.mpr fun holds => equal (same.mpr holds)
            rw [if_pos equal, other]
            refine (triple_loadItem item prev (first rest none)).ask rfl ?_
            rintro _ rfl
            refine (inductionHypothesis (some item.addr) rest readable.2
              (Nat.lt_of_succ_lt_succ enough) (i + 1)).within (add_comm _ _) ?_
            rintro _ _ ⟨rfl, rfl⟩
            refine ⟨Prod.ext rfl ?_, add_comm _ _⟩
            dsimp only [cond_false]
            omega

end Looking

/-! ## Changing a list -/

section Changing

variable {D : Type} {generous : Prop}

def withChild (item : Item D) (child : List (Item D)) : Item D := { item with child := child }

theorem withChild_self (item : Item D) : withChild item item.child = item := by
  cases item
  rfl

/-- What an item owns besides its node and its children. -/
def strings (item : Item D) : Cells (Block D) := item.valuestring.cells D + item.string.cells D

/-- The node of an item with other children. -/
def nodeOver (item : Item D) (prev next child : Option Nat) : Node D :=
  { item.node prev next with child := child }

theorem cells_withChild {item : Item D} (own : item.foreign = none) (child : List (Item D))
    (prev next : Option Nat) : (withChild item child).cells prev next =
      {(item.addr, .node (nodeOver item prev next (first child none)))} + chain none none child +
        strings item := by
  have node : (withChild item child).node prev next = nodeOver item prev next (first child none) := by
    show nodeOver item prev next (first child item.foreign) = _
    rw [own]
  rw [Item.cells_eq, node, add_assoc]
  exact congrArg _ (add_comm (strings item) (chain none none child))

theorem cells_child {item : Item D} (own : item.foreign = none) (prev next : Option Nat) :
    item.cells prev next = {(item.addr, .node (nodeOver item prev next (first item.child none)))} +
      chain none none item.child + strings item := by
  conv_lhs => rw [← withChild_self item]
  exact cells_withChild own item.child prev next

/-- The pointer to the first child is set. -/
theorem triple_setChild (item : Item D) (prev next child child' : Option Nat) :
    Triple generous {(item.addr, .node (nodeOver item prev next child))}
      (setNode item.addr fun node => { node with child := child' })
      fun _ after => after = {(item.addr, Block.node (nodeOver item prev next child'))} :=
  triple_setNode item.addr _ _

/-- The last one of a list gets another successor. -/
theorem triple_setLastNext (prev next next' : Option Nat) {items : List (Item D)} {c : Nat}
    (nonempty : items ≠ []) (ends : last prev items = some c) :
    Triple generous (chain prev next items) (setNode c fun node => { node with next := next' })
      fun _ after => after = chain prev next' items := by
  induction items generalizing prev with
  | nil => exact absurd rfl nonempty
  | cons item rest inductionHypothesis =>
      cases rest with
      | nil =>
          cases ends
          rw [chain_single]
          refine (triple_setNext item prev next next').weaken ?_
          rintro _ _ rfl
          exact (chain_single _ _ _).symm
      | cons second rest =>
          rw [chain_cons]
          refine (inductionHypothesis (some item.addr) (List.cons_ne_nil _ _) ends).within
            (add_comm _ _) ?_
          rintro _ _ rfl
          rw [chain_cons prev next', add_comm]
          rfl

theorem last_cons_isSome (prev : Option Nat) (item : Item D) (rest : List (Item D)) :
    ∃ c, last prev (item :: rest) = some c := by
  induction rest generalizing prev item with
  | nil => exact ⟨item.addr, rfl⟩
  | cons second rest inductionHypothesis => exact inductionHypothesis (some item.addr) second

/-- A successor is set unless the list is empty. -/
theorem triple_setSomeNext (next next' : Option Nat) (items : List (Item D)) :
    Triple generous (chain none next items)
      (setSome (last none items) fun node => { node with next := next' })
      fun _ after => after = chain none next' items := by
  cases items with
  | nil => exact triple_pure (chain_nil _ _).symm
  | cons item rest =>
      obtain ⟨c, ends⟩ := last_cons_isSome none item rest
      rw [ends]
      exact triple_setLastNext none next next' (List.cons_ne_nil _ _) ends

/-- The first one of a list gets another predecessor. -/
theorem triple_setSomePrev (prev prev' : Option Nat) (items : List (Item D)) :
    Triple generous (chain prev none items)
      (setSome (first items none) fun node => { node with prev := prev' })
      fun _ after => after = chain prev' none items := by
  cases items with
  | nil => exact triple_pure (chain_nil _ _).symm
  | cons item rest =>
      rw [chain_cons]
      refine (triple_setPrev item prev prev' (first rest none)).within rfl ?_
      rintro _ _ rfl
      exact (chain_cons _ _ _ _).symm

theorem triple_suffixObject (prev : Option Nat) {items : List (Item D)} (item : Item D) {c : Nat}
    (nonempty : items ≠ []) (ends : last prev items = some c) :
    Triple generous (chain prev none items + item.cells none none) (suffixObject c item.addr)
      fun _ after => after = chain prev none (items ++ [item]) := by
  refine (triple_setLastNext prev none (some item.addr) nonempty ends).bind rfl ?_
  rintro _ _ rfl
  refine (triple_setPrev item none (some c) none).within (add_comm _ _) ?_
  rintro _ _ rfl
  rw [chain_append, chain_single, ends, add_comm]
  rfl

/-- An item is added behind the children. -/
theorem triple_addItemToArray {array : Item D} (own : array.foreign = none) (item : Item D)
    (prev next : Option Nat) :
    Triple generous (array.cells prev next + item.cells none none)
      (addItemToArray array.addr (some item.addr))
      fun _ after => after = (withChild array (array.child ++ [item])).cells prev next := by
  refine (triple_childOf array prev next).ask rfl ?_
  rintro _ rfl
  rw [cells_withChild own, cells_child own, own]
  cases children : array.child with
  | nil =>
      rw [chain_nil, add_zero, List.nil_append, chain_single]
      refine (triple_setChild array prev next none (some item.addr)).within (add_assoc _ _ _) ?_
      rintro _ _ rfl
      ac_rfl
  | cons child rest =>
      have found : Triple generous (chain none none (child :: rest))
          (overBlocks fun fuel => lastFrom fuel child.addr) fun result after =>
            last none (child :: rest) = some result ∧ after = chain none none (child :: rest) := by
        refine triple_overBlocks fun fuel enough => ?_
        have counted := length_le_card none none (child :: rest)
        rw [List.length_cons] at counted
        exact triple_lastFrom none child rest (by omega)
      refine found.ask (show _ = _ + ({(array.addr, .node (nodeOver array prev next
        (some child.addr)))} + strings array + item.cells none none) by ac_rfl) ?_
      intro c ends
      refine (triple_suffixObject none item (List.cons_ne_nil _ _) ends).within (show _ = _ +
        ({(array.addr, .node (nodeOver array prev next (some child.addr)))} +
          strings array) by ac_rfl) ?_
      rintro _ _ rfl
      rw [add_comm, add_right_comm]
      rfl

/-- The cell of a node whose children start there. -/
def headCell (array : Item D) (prev next child : Option Nat) : Cells (Block D) :=
  {(array.addr, .node (nodeOver array prev next child))}

theorem triple_childOfHead (array : Item D) (prev next child : Option Nat) :
    Triple generous (headCell array prev next child) (childOf array.addr)
      fun result after => result = child ∧ after = headCell array prev next child := by
  refine (triple_loadNode array.addr (nodeOver array prev next child)).ask (add_zero _).symm ?_
  rintro _ rfl
  exact triple_pure ⟨rfl, rfl⟩

/-- A sibling in front of another one is not that one. -/
theorem triple_inFront {α : Type} {program : Mem (Block D) α} {post : α → Cells (Block D) → Prop}
    (first' c : Item D) {before others : Cells (Block D)} {prev next prev' next' : Option Nat}
    (split : before = first'.cells prev next + c.cells prev' next' + others)
    (continued : first'.addr ≠ c.addr → Triple generous before program post) :
    Triple generous before program post := by
  refine Triple.apart (show before = {(first'.addr, .node (first'.node prev next))} +
    ({(c.addr, .node (c.node prev' next'))} + (first'.own + c.own + others)) from ?_) continued
  rw [split, first'.cells_eq, c.cells_eq]
  ac_rfl

theorem triple_headOrNext (array : Item D) (xs : List (Item D)) (c newitem : Item D)
    (prev next prev' next' next'' : Option Nat) :
    Triple generous (headCell array prev next (first xs (some c.addr)) + chain none (some c.addr) xs +
        c.cells prev' next' + newitem.cells (last none xs) next'')
      (headOrNext array.addr c.addr newitem.addr)
      fun _ after => after = headCell array prev next (first xs (some newitem.addr)) +
        chain none (some newitem.addr) xs + c.cells prev' next' + newitem.cells (last none xs) next'' := by
  refine (triple_childOfHead array prev next (first xs (some c.addr))).ask
    ((add_assoc _ _ _).trans (add_assoc _ _ _)) ?_
  rintro _ rfl
  cases xs with
  | nil =>
      rw [first, if_pos rfl]
      refine (triple_setChild array prev next (some c.addr) (some newitem.addr)).within
        ((add_assoc _ _ _).trans (add_assoc _ _ _)) ?_
      rintro _ _ rfl
      exact ((add_assoc _ _ _).trans (add_assoc _ _ _)).symm
  | cons x rest =>
      obtain ⟨b, ends⟩ := last_cons_isSome none x rest
      refine triple_inFront x c (show _ = x.cells none (first rest (some c.addr)) + c.cells prev' next' +
        (headCell array prev next (some x.addr) + chain (some x.addr) (some c.addr) rest +
          newitem.cells (last none (x :: rest)) next'') from ?_) ?_
      · rw [chain_cons]
        ac_rfl
      intro other
      have differs : first (x :: rest) (some c.addr) ≠ some c.addr :=
        fun same => other (Option.some.inj same)
      rw [if_neg differs, ends]
      refine (triple_loadItem newitem (some b) next'').ask (add_comm _ _) ?_
      rintro _ rfl
      refine (triple_setLastNext none (some c.addr) (some newitem.addr) (List.cons_ne_nil x rest)
        ends).within (show _ = _ + (headCell array prev next (first (x :: rest) (some c.addr)) +
          c.cells prev' next' + newitem.cells (some b) next'') by ac_rfl) ?_
      rintro _ _ rfl
      rw [show first (x :: rest) (some newitem.addr) = first (x :: rest) (some c.addr) from rfl]
      ac_rfl

theorem cells_append {array : Item D} (own : array.foreign = none) (xs ys : List (Item D))
    (prev next : Option Nat) : (withChild array (xs ++ ys)).cells prev next =
      headCell array prev next (first xs (first ys none)) + chain none (first ys none) xs +
        chain (last none xs) none ys + strings array := by
  rw [cells_withChild own, chain_append, first_append, ← add_assoc]
  rfl

theorem cells_around {array : Item D} (own : array.foreign = none) (xs ys : List (Item D)) (c : Item D)
    (prev next : Option Nat) : (withChild array (xs ++ c :: ys)).cells prev next =
      headCell array prev next (first xs (some c.addr)) + chain none (some c.addr) xs +
        c.cells (last none xs) (first ys none) + chain (some c.addr) none ys + strings array := by
  rw [cells_append own, chain_cons, ← add_assoc]
  rfl

/-- A child is found at its place. -/
theorem triple_child {array : Item D} (own : array.foreign = none) (which : Nat)
    (prev next : Option Nat) {α : Type} {continue_ : Option Nat → Mem (Block D) α}
    {post : α → Cells (Block D) → Prop} {rest : Cells (Block D)}
    (continued : Triple generous (array.cells prev next + rest)
      (continue_ (array.child[which]?.map Item.addr)) post) :
    Triple generous (array.cells prev next + rest) (do
      continue_ (← walk which (← childOf array.addr))) post := by
  refine (triple_childOf array prev next).ask rfl ?_
  rintro _ rfl
  rw [own]
  refine (triple_walk which none array.child).ask (show _ = _ + (headCell array prev next
    (first array.child none) + strings array + rest) from ?_) ?_
  · rw [cells_child own]
    unfold headCell
    ac_rfl
  rintro _ rfl
  exact continued

theorem getElem_around {xs ys : List (Item D)} {c : Item D} {which : Nat} (place : xs.length = which) :
    (xs ++ c :: ys)[which]?.map Item.addr = some c.addr := by
  rw [← place, List.getElem?_append_right le_rfl, Nat.sub_self]
  rfl

theorem triple_getArrayItem {array : Item D} (own : array.foreign = none) (item : Int)
    (prev next : Option Nat) :
    Triple generous (array.cells prev next) (getArrayItem array.addr item)
      fun result after => result = array.child[item.toNat]?.map Item.addr ∧
        after = array.cells prev next := by
  refine (triple_childOf array prev next).ask (add_zero _).symm ?_
  rintro _ rfl
  rw [own]
  refine (triple_walk item.toNat none array.child).within (show _ = _ + (headCell array prev next
    (first array.child none) + strings array) from ?_) ?_
  · rw [cells_child own]
    unfold headCell
    ac_rfl
  · rintro _ _ ⟨rfl, rfl⟩
    refine ⟨rfl, ?_⟩
    rw [cells_child own]
    unfold headCell
    ac_rfl

/-- Both pointers of a sibling are cleared. -/
theorem triple_unlink (item : Item D) (prev next : Option Nat) :
    Triple generous (item.cells prev next)
      (setNode item.addr fun node => { node with prev := none, next := none })
      fun _ after => after = item.cells none none := by
  refine (triple_setNode item.addr (item.node prev next) _).within (item.cells_eq prev next) ?_
  rintro _ _ rfl
  exact (item.cells_eq none none).symm

/-- The pointer to the first child is moved if that is the child. -/
theorem triple_setHead (array : Item D) (xs : List (Item D)) (c : Item D) (child : Option Nat)
    (prev next prev' next' : Option Nat) :
    Triple generous (headCell array prev next (first xs (some c.addr)) + chain none child xs +
        c.cells prev' next')
      (if first xs (some c.addr) = some c.addr then setNode array.addr fun array => { array with child := child }
        else return ())
      fun _ after => after = headCell array prev next (first xs child) + chain none child xs +
        c.cells prev' next' := by
  cases xs with
  | nil =>
      rw [if_pos (show first ([] : List (Item D)) (some c.addr) = some c.addr from rfl)]
      refine (triple_setChild array prev next (some c.addr) child).within (add_assoc _ _ _) ?_
      rintro _ _ rfl
      exact (add_assoc _ _ _).symm
  | cons x rest =>
      refine triple_inFront x c (show _ = x.cells none (first rest child) + c.cells prev' next' +
        (headCell array prev next (some x.addr) + chain (some x.addr) child rest) from ?_) ?_
      · rw [chain_cons]
        ac_rfl
      intro other
      have differs : first (x :: rest) (some c.addr) ≠ some c.addr :=
        fun same => other (Option.some.inj same)
      rw [if_neg differs]
      exact triple_pure rfl

theorem cells_split {array : Item D} (own : array.foreign = none) {xs ys : List (Item D)} {c : Item D}
    (children : array.child = xs ++ c :: ys) (prev next : Option Nat) : array.cells prev next =
      headCell array prev next (first xs (some c.addr)) + chain none (some c.addr) xs +
        c.cells (last none xs) (first ys none) + chain (some c.addr) none ys + strings array := by
  have cells := cells_around own xs ys c prev next
  rwa [← children, withChild_self] at cells

/-- A child is taken out. -/
theorem triple_detachItemFromArray {array : Item D} (own : array.foreign = none) {xs ys : List (Item D)}
    {c : Item D} (children : array.child = xs ++ c :: ys) {which : Int}
    (place : xs.length = which.toNat) (prev next : Option Nat) :
    Triple generous (array.cells prev next) (detachItemFromArray array.addr which)
      fun result after => result = some c.addr ∧
        after = (withChild array (xs ++ ys)).cells prev next + c.cells none none := by
  rw [← add_zero (array.cells prev next)]
  refine triple_child own which.toNat prev next ?_
  rw [children, getElem_around place, cells_split own children, add_zero]
  refine (triple_loadItem c (last none xs) (first ys none)).ask (show _ = _ +
    (headCell array prev next (first xs (some c.addr)) + chain none (some c.addr) xs +
      chain (some c.addr) none ys + strings array) by ac_rfl) ?_
  rintro _ rfl
  refine (triple_setSomeNext (some c.addr) (first ys none) xs).bind (show _ = _ +
    (headCell array prev next (first xs (some c.addr)) + c.cells (last none xs) (first ys none) +
      chain (some c.addr) none ys + strings array) by ac_rfl) ?_
  rintro _ _ rfl
  refine (triple_loadItem c (last none xs) (first ys none)).ask (show _ = _ +
    (headCell array prev next (first xs (some c.addr)) + chain none (first ys none) xs +
      chain (some c.addr) none ys + strings array) by ac_rfl) ?_
  rintro _ rfl
  refine (triple_setSomePrev (some c.addr) (last none xs) ys).bind (show _ = _ +
    (headCell array prev next (first xs (some c.addr)) + chain none (first ys none) xs +
      c.cells (last none xs) (first ys none) + strings array) by ac_rfl) ?_
  rintro _ _ rfl
  refine (triple_childOfHead array prev next (first xs (some c.addr))).ask (show _ = _ +
    (chain (last none xs) none ys + chain none (first ys none) xs +
      c.cells (last none xs) (first ys none) + strings array) by ac_rfl) ?_
  rintro _ rfl
  refine (triple_loadItem c (last none xs) (first ys none)).ask (show _ = _ +
    (headCell array prev next (first xs (some c.addr)) + chain none (first ys none) xs +
      chain (last none xs) none ys + strings array) by ac_rfl) ?_
  rintro _ rfl
  refine (triple_setHead array xs c (first ys none) prev next (last none xs) (first ys none)).bind
    (show _ = _ + (chain (last none xs) none ys + strings array) by ac_rfl) ?_
  rintro _ _ rfl
  refine (triple_unlink c (last none xs) (first ys none)).bind (show _ = _ +
    (headCell array prev next (first xs (first ys none)) + chain none (first ys none) xs +
      chain (last none xs) none ys + strings array) by ac_rfl) ?_
  rintro _ _ rfl
  refine triple_pure ⟨rfl, ?_⟩
  rw [cells_append own, add_comm]

/-- Nothing is taken out behind the end. -/
theorem triple_detachItemFromArray_none {array : Item D} (own : array.foreign = none) {which : Int}
    (behind : array.child.length ≤ which.toNat) (prev next : Option Nat) :
    Triple generous (array.cells prev next) (detachItemFromArray array.addr which)
      fun result after => result = none ∧ after = array.cells prev next := by
  rw [← add_zero (array.cells prev next)]
  refine triple_child own which.toNat prev next ?_
  rw [List.getElem?_eq_none behind]
  exact triple_pure ⟨rfl, rfl⟩

/-- An item is put in front of a child. -/
theorem triple_insertItemInArray {array : Item D} (own : array.foreign = none) {xs ys : List (Item D)}
    {c : Item D} (children : array.child = xs ++ c :: ys) {which : Int}
    (place : xs.length = which.toNat) (newitem : Item D) (prev next : Option Nat) :
    Triple generous (array.cells prev next + newitem.cells none none)
      (insertItemInArray array.addr which newitem.addr)
      fun _ after => after = (withChild array (xs ++ newitem :: c :: ys)).cells prev next := by
  refine triple_child own which.toNat prev next ?_
  rw [children, getElem_around place, cells_split own children]
  refine (triple_setNext newitem none none (some c.addr)).bind (add_comm _ _) ?_
  rintro _ _ rfl
  refine (triple_loadItem c (last none xs) (first ys none)).ask (show _ = _ +
    (newitem.cells none (some c.addr) + headCell array prev next (first xs (some c.addr)) +
      chain none (some c.addr) xs + chain (some c.addr) none ys + strings array) by ac_rfl) ?_
  rintro _ rfl
  refine (triple_setPrev newitem none (last none xs) (some c.addr)).bind rfl ?_
  rintro _ _ rfl
  refine (triple_setPrev c (last none xs) (some newitem.addr) (first ys none)).bind (show _ = _ +
    (newitem.cells (last none xs) (some c.addr) + headCell array prev next (first xs (some c.addr)) +
      chain none (some c.addr) xs + chain (some c.addr) none ys + strings array) by ac_rfl) ?_
  rintro _ _ rfl
  refine (triple_headOrNext array xs c newitem prev next (some newitem.addr) (first ys none)
    (some c.addr)).within (show _ = _ + (chain (some c.addr) none ys + strings array) by ac_rfl) ?_
  rintro _ _ rfl
  rw [cells_around own, chain_cons]
  show _ = _ + newitem.cells (last none xs) (some c.addr) + _ + _
  ac_rfl

/-- An item is put behind the children where there is none at its place. -/
theorem triple_insertItemInArray_none {array : Item D} (own : array.foreign = none) {which : Int}
    (behind : array.child.length ≤ which.toNat) (newitem : Item D) (prev next : Option Nat) :
    Triple generous (array.cells prev next + newitem.cells none none)
      (insertItemInArray array.addr which newitem.addr)
      fun _ after => after = (withChild array (array.child ++ [newitem])).cells prev next := by
  refine triple_child own which.toNat prev next ?_
  rw [List.getElem?_eq_none behind]
  exact triple_addItemToArray own newitem prev next

/-- An item takes the place of a child, which is deleted. -/
theorem triple_replaceItemInArray {array : Item D} (own : array.foreign = none) {xs ys : List (Item D)}
    {c : Item D} (children : array.child = xs ++ c :: ys) (sound : Sound c) {which : Int}
    (place : xs.length = which.toNat) (newitem : Item D) (prev next : Option Nat) :
    Triple generous (array.cells prev next + newitem.cells none none)
      (replaceItemInArray array.addr which newitem.addr)
      fun _ after => after = (withChild array (xs ++ newitem :: ys)).cells prev next := by
  refine triple_child own which.toNat prev next ?_
  rw [children, getElem_around place, cells_split own children]
  refine (triple_loadItem c (last none xs) (first ys none)).ask (show _ = _ +
    (newitem.cells none none + headCell array prev next (first xs (some c.addr)) +
      chain none (some c.addr) xs + chain (some c.addr) none ys + strings array) by ac_rfl) ?_
  rintro _ rfl
  refine (triple_setNext newitem none none (first ys none)).bind (add_comm _ _) ?_
  rintro _ _ rfl
  refine (triple_loadItem c (last none xs) (first ys none)).ask (show _ = _ +
    (newitem.cells none (first ys none) + headCell array prev next (first xs (some c.addr)) +
      chain none (some c.addr) xs + chain (some c.addr) none ys + strings array) by ac_rfl) ?_
  rintro _ rfl
  refine (triple_setPrev newitem none (last none xs) (first ys none)).bind rfl ?_
  rintro _ _ rfl
  refine (triple_loadItem newitem (last none xs) (first ys none)).ask rfl ?_
  rintro _ rfl
  refine (triple_setSomePrev (some c.addr) (some newitem.addr) ys).bind (show _ = _ +
    (newitem.cells (last none xs) (first ys none) + headCell array prev next (first xs (some c.addr)) +
      chain none (some c.addr) xs + c.cells (last none xs) (first ys none) + strings array) by
        ac_rfl) ?_
  rintro _ _ rfl
  refine (triple_headOrNext array xs c newitem prev next (last none xs) (first ys none)
    (first ys none)).bind (show _ = _ + (chain (some newitem.addr) none ys + strings array) by
      ac_rfl) ?_
  rintro _ _ rfl
  refine (triple_unlink c (last none xs) (first ys none)).bind (show _ = _ +
    (headCell array prev next (first xs (some newitem.addr)) + chain none (some newitem.addr) xs +
      newitem.cells (last none xs) (first ys none) + chain (some newitem.addr) none ys +
        strings array) by ac_rfl) ?_
  rintro _ _ rfl
  refine (triple_delete none sound).within rfl ?_
  rintro _ _ rfl
  rw [zero_add, cells_around own]

/-- Nothing is replaced behind the end. -/
theorem triple_replaceItemInArray_none {array : Item D} (own : array.foreign = none) {which : Int}
    (behind : array.child.length ≤ which.toNat) (newitem : Nat) (prev next : Option Nat) :
    Triple generous (array.cells prev next) (replaceItemInArray array.addr which newitem)
      fun _ after => after = array.cells prev next := by
  rw [← add_zero (array.cells prev next)]
  refine triple_child own which.toNat prev next ?_
  rw [List.getElem?_eq_none behind]
  exact triple_pure rfl

end Changing

/-! ## Members -/

section Members

variable {D : Type} {generous : Prop}

def rename (item : Item D) (string : Name) : Item D := { item with string := string }

/-- A name of the program, which the flag keeps from being freed. -/
def renameConst (item : Item D) (string : Pointer) : Item D :=
  { item with string := .borrowed string, type := item.type ||| cJsonStringIsConst }

theorem cells_string (item : Item D) (prev next : Option Nat) : item.cells prev next =
    {(item.addr, .node (item.node prev next))} + item.string.cells D +
      (item.valuestring.cells D + chain none none item.child) := by
  rw [item.cells_eq, Item.own]
  ac_rfl

theorem triple_freeName {name : Name} (own : name.IsOwn) :
    Triple generous (name.cells D) (if name.pointer.isSome then free name.pointer else return ())
      fun _ after => after = 0 := by
  cases name with
  | borrowed pointer =>
      rw [show pointer = .null from own]
      exact triple_pure rfl
  | owned addr text slack => exact triple_release addr _

/-- A copy of a text, or `NULL` when it is refused. -/
def Copied (generous : Prop) (key : Text) (name : Name) : Prop :=
  (name = .null ∧ ¬ generous) ∨ ∃ addr, name = .owned addr key []

theorem triple_copyText (key : Text) :
    Triple generous 0 (strdup (D := D) (.static key)) fun result after =>
      ∃ name, Copied generous key name ∧ given result = name.pointer ∧ after = name.cells D := by
  refine (triple_strdup (show (Name.borrowed (.static key)).text = some key from rfl)).weaken ?_
  rintro _ _ ⟨copy, rfl, ⟨rfl, refused, rfl⟩ | ⟨addr, rfl, rfl⟩⟩
  · exact ⟨.null, Or.inl ⟨rfl, refused⟩, rfl, add_zero _⟩
  · exact ⟨.owned addr key [], Or.inr ⟨addr, rfl⟩, rfl, zero_add _⟩

theorem triple_rename (item : Item D) (name : Name) (prev next : Option Nat) :
    Triple generous ({(item.addr, .node (item.node prev next))} +
        (item.valuestring.cells D + chain none none item.child) + name.cells D)
      (setNode item.addr fun node => { node with string := name.pointer })
      fun _ after => after = (rename item name).cells prev next := by
  refine (triple_setNode item.addr (item.node prev next) _).within (add_assoc _ _ _) ?_
  rintro _ _ rfl
  rw [cells_string, add_comm (item.valuestring.cells D + chain none none item.child), ← add_assoc]
  rfl

/-- An item is added under a name. -/
theorem triple_addItemToObject {object : Item D} (own : object.foreign = none) {item : Item D}
    (named : item.string.IsOwn) (key : Text) (prev next : Option Nat) :
    Triple generous (object.cells prev next + item.cells none none)
      (addItemToObject object.addr (.static key) (some item.addr)) fun _ after =>
        ∃ name, Copied generous key name ∧
          after = (withChild object (object.child ++ [rename item name])).cells prev next := by
  refine (triple_loadItem item none none).ask (add_comm _ _) ?_
  rintro _ rfl
  rw [cells_string item]
  refine (triple_freeName named).bind (show _ = _ + (object.cells prev next +
    ({(item.addr, .node (item.node none none))} +
      (item.valuestring.cells D + chain none none item.child))) by ac_rfl) ?_
  rintro _ _ rfl
  rw [zero_add]
  refine (triple_copyText key).bind (zero_add _).symm ?_
  rintro _ _ ⟨name, copied, pointer, rfl⟩
  rw [pointer]
  refine (triple_rename item name none none).bind (show _ = _ + object.cells prev next by ac_rfl) ?_
  rintro _ _ rfl
  rw [add_comm]
  refine (triple_addItemToArray own (rename item name) prev next).weaken ?_
  rintro _ _ rfl
  exact ⟨name, copied, rfl⟩

theorem triple_renameConst (item : Item D) (string : Pointer) (prev next : Option Nat) :
    Triple generous ({(item.addr, .node (item.node prev next))} +
        (item.valuestring.cells D + chain none none item.child))
      (setNode item.addr fun node =>
        { node with string := string, type := node.type ||| cJsonStringIsConst })
      fun _ after => after = (renameConst item string).cells prev next := by
  refine (triple_setNode item.addr (item.node prev next) _).within rfl ?_
  rintro _ _ rfl
  rw [cells_string, show (renameConst item string).string.cells D = 0 from rfl, add_zero]
  rfl

/-- As `triple_addItemToObject`, with a name that stays the caller's. -/
theorem triple_addItemToObjectCS {object : Item D} (own : object.foreign = none) {item : Item D}
    (named : item.type &&& cJsonStringIsConst = 0 → item.string.IsOwn)
    (const : item.type &&& cJsonStringIsConst ≠ 0 → item.string.IsBorrowed) (string : Pointer)
    (prev next : Option Nat) :
    Triple generous (object.cells prev next + item.cells none none)
      (addItemToObjectCS object.addr string (some item.addr)) fun _ after =>
        after = (withChild object (object.child ++ [renameConst item string])).cells prev next := by
  refine (triple_loadItem item none none).ask (add_comm _ _) ?_
  rintro _ rfl
  rw [cells_string item]
  refine (triple_free_if named const).bind (show _ = _ + (object.cells prev next +
    ({(item.addr, .node (item.node none none))} +
      (item.valuestring.cells D + chain none none item.child))) by ac_rfl) ?_
  rintro _ _ rfl
  rw [zero_add]
  refine (triple_renameConst item string none none).bind (show _ = _ + object.cells prev next by
    ac_rfl) ?_
  rintro _ _ rfl
  rw [add_comm]
  exact triple_addItemToArray own (renameConst item string) prev next

/-- The search over the children of an object. -/
theorem triple_find {object : Item D} (own : object.foreign = none)
    (readable : ∀ child ∈ object.child, Readable child.string) (key : Text) (prev next : Option Nat)
    {α : Type} {continue_ : Option Nat × Int → Mem (Block D) α} {post : α → Cells (Block D) → Prop}
    {rest : Cells (Block D)}
    (continued : Triple generous (object.cells prev next + rest)
      (continue_ ((object.child.find? (named key.val)).map Item.addr,
        (object.child.findIdx (named key.val) : Int))) post) :
    Triple generous (object.cells prev next + rest) (do
      let c ← childOf object.addr
      continue_ (← overBlocks fun fuel => search (.static key) fuel c 0)) post := by
  refine (triple_childOf object prev next).ask rfl ?_
  rintro _ rfl
  rw [own]
  have found : Triple generous (chain none none object.child)
      (overBlocks fun fuel => search (.static key) fuel (first object.child none) 0) fun result after =>
        result = ((object.child.find? (named key.val)).map Item.addr,
          (object.child.findIdx (named key.val) : Int)) ∧ after = chain none none object.child := by
    refine triple_overBlocks fun fuel enough => ?_
    refine (triple_search key none object.child readable
      (Nat.lt_of_le_of_lt (length_le_card none none object.child) enough) 0).weaken ?_
    rintro _ _ ⟨rfl, rfl⟩
    exact ⟨by rw [zero_add], rfl⟩
  refine found.ask (show _ = _ + (headCell object prev next (first object.child none) + strings object +
    rest) from ?_) ?_
  · rw [cells_child own]
    unfold headCell
    ac_rfl
  rintro _ rfl
  exact continued

theorem triple_getObjectItem {object : Item D} (own : object.foreign = none)
    (readable : ∀ child ∈ object.child, Readable child.string) (key : Text) (prev next : Option Nat) :
    Triple generous (object.cells prev next) (getObjectItem object.addr (.static key))
      fun result after => result = (object.child.find? (named key.val)).map Item.addr ∧
        after = object.cells prev next := by
  rw [← add_zero (object.cells prev next)]
  refine triple_find own readable key prev next ?_
  exact triple_pure ⟨rfl, rfl⟩

/-- The same with the counter, where the place that is found is an `int`. -/
theorem triple_searchCounted {object : Item D} (own : object.foreign = none)
    (readable : ∀ child ∈ object.child, Readable child.string) {key : Text}
    (counted : object.child.findIdx (named key.val) < 2 ^ 31) (prev next : Option Nat) :
    Triple generous (object.cells prev next) (searchCounted object.addr (.static key))
      fun result after => result = ((object.child.find? (named key.val)).map Item.addr,
        (object.child.findIdx (named key.val) : Int)) ∧ after = object.cells prev next := by
  rw [← add_zero (object.cells prev next)]
  refine triple_find own readable key prev next ?_
  dsimp only
  rw [checkInt_of_isInt ((isInt_natCast_iff _).mpr counted), ofC_bind rfl]
  exact triple_pure ⟨rfl, rfl⟩

theorem triple_detachItemFromObject {object : Item D} (own : object.foreign = none)
    (readable : ∀ child ∈ object.child, Readable child.string) {key : Text} {xs ys : List (Item D)}
    {c : Item D} (children : object.child = xs ++ c :: ys)
    (found : object.child.find? (named key.val) = some c)
    (place : object.child.findIdx (named key.val) = xs.length) (counted : xs.length < 2 ^ 31)
    (prev next : Option Nat) :
    Triple generous (object.cells prev next) (detachItemFromObject object.addr (.static key))
      fun result after => result = some c.addr ∧
        after = (withChild object (xs ++ ys)).cells prev next + c.cells none none := by
  refine (triple_searchCounted own readable (place ▸ counted) prev next).ask (add_zero _).symm ?_
  rintro _ rfl
  rw [found, place]
  exact triple_detachItemFromArray own children (Int.toNat_natCast xs.length).symm prev next

theorem triple_detachItemFromObject_none {object : Item D} (own : object.foreign = none)
    (readable : ∀ child ∈ object.child, Readable child.string) {key : Text}
    (absent : object.child.find? (named key.val) = none) (counted : object.child.length < 2 ^ 31)
    (prev next : Option Nat) :
    Triple generous (object.cells prev next) (detachItemFromObject object.addr (.static key))
      fun result after => result = none ∧ after = object.cells prev next := by
  have place := Nat.lt_of_le_of_lt (List.findIdx_le_length (p := named key.val)) counted
  refine (triple_searchCounted own readable place prev next).ask (add_zero _).symm ?_
  rintro _ rfl
  rw [absent]
  exact triple_pure ⟨rfl, rfl⟩

/-- The new item gets the name; one that it had would be lost. -/
theorem triple_replaceItemInObject {object : Item D} (own : object.foreign = none)
    (readable : ∀ child ∈ object.child, Readable child.string) {key : Text} {xs ys : List (Item D)}
    {c : Item D} (children : object.child = xs ++ c :: ys)
    (found : object.child.find? (named key.val) = some c)
    (place : object.child.findIdx (named key.val) = xs.length) (counted : xs.length < 2 ^ 31)
    (sound : Sound c) {newitem : Item D} (nameless : newitem.string = .null)
    (prev next : Option Nat) :
    Triple generous (object.cells prev next + newitem.cells none none)
      (replaceItemInObject object.addr (.static key) newitem.addr) fun _ after =>
        ∃ name, Copied generous key name ∧
          after = (withChild object (xs ++ rename newitem name :: ys)).cells prev next := by
  refine (triple_searchCounted own readable (place ▸ counted) prev next).ask rfl ?_
  rintro _ rfl
  rw [found, place]
  refine (triple_copyText key).bind (zero_add _).symm ?_
  rintro _ _ ⟨name, copied, pointer, rfl⟩
  rw [pointer, cells_string newitem, nameless, show Name.null.cells D = 0 from rfl, add_zero]
  refine (triple_rename newitem name none none).bind (show _ = _ + object.cells prev next by ac_rfl) ?_
  rintro _ _ rfl
  rw [add_comm]
  refine (triple_replaceItemInArray own children sound (Int.toNat_natCast xs.length).symm
    (rename newitem name) prev next).weaken ?_
  rintro _ _ rfl
  exact ⟨name, copied, rfl⟩

theorem triple_replaceItemInObject_none {object : Item D} (own : object.foreign = none)
    (readable : ∀ child ∈ object.child, Readable child.string) {key : Text}
    (absent : object.child.find? (named key.val) = none) (counted : object.child.length < 2 ^ 31)
    (newitem : Nat) (prev next : Option Nat) :
    Triple generous (object.cells prev next)
      (replaceItemInObject object.addr (.static key) newitem)
      fun _ after => after = object.cells prev next := by
  have place := Nat.lt_of_le_of_lt (List.findIdx_le_length (p := named key.val)) counted
  refine (triple_searchCounted own readable place prev next).ask (add_zero _).symm ?_
  rintro _ rfl
  rw [absent]
  exact triple_pure rfl

end Members

end DistStore.JsonNodeLists

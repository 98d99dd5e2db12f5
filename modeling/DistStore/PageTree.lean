import DistStore.JsonNodeText
import DistStore.JsonPool
import DistStore.PageJson

/-!
# The trees of the pages

`read_redis_to_json` builds the tree of a page, prints it, frees the text and
returns.  Nothing frees the tree: what a process has served stays on its heap.
-/

set_option autoImplicit false

namespace DistStore.PageTree

open CMemory CHeap Environment DataUse JsonTree JsonNodes JsonNodeLists JsonPool PageJson LogMessages
open JsonParse (textOf)

section Definitions

variable {D : Type} [Double D]

/-- The third argument of `cJSON_AddStringToObject` or
`cJSON_AddNumberToObject`. -/
inductive Value where
  | string (s : Text)
  | number (n : Int)

def Value.json : Value → Json D
  | .string s => .string s
  | .number n => .number n (Double.ofInt n)

/-- `cJSON_AddItemToObject` with an object that may be `NULL`. -/
def addToObject (object : Option Nat) (string : Text) (item : Option Nat) : Mem (Block D) Unit := do
  match item with
  | none => return ()
  | some item => addItemToObject (← nonNull object) (.static string) (some item)

/-- `cJSON_AddStringToObject` and `cJSON_AddNumberToObject`. -/
def addMember (object : Option Nat) (name : Text) : Value → Mem (Block D) Unit
  | .string s => do addToObject object name (← createString (.static s))
  | .number n => do addToObject object name (← createNumber (Double.ofInt n))

def addMembers (object : Option Nat) : List (Text × Value) → Mem (Block D) Unit
  | [] => return ()
  | member :: rest => do
      addMember object member.1 member.2
      addMembers object rest

/-- The members of an element of `games`, in the order in which they are
added. -/
def itemMembers (item : DataUse.Item) : List (Text × Value) :=
  [(textOf (lit "id"), .string (textOf item.id)), (textOf (lit "kind"), .number item.kind),
    (textOf (lit "title_m"), .string (textOf item.titleM)),
    (textOf (lit "title_s"), .string (textOf item.titleS)),
    (textOf (lit "descrip"), .string (textOf item.descrip)),
    (textOf (lit "url"), .string (textOf item.url)),
    (textOf (lit "picurl_m"), .string (textOf item.picurlM)),
    (textOf (lit "pv"), .number item.pv), (textOf (lit "hot"), .number item.hot)]

/-- The loop over the rows. -/
def addItems (array : Option Nat) : List DataUse.Item → Mem (Block D) Unit
  | [] => return ()
  | row :: rest => do
      let item ← createObject
      addMembers item (itemMembers row)
      addItemToArray (← nonNull array) item
      addItems array rest

def buildRoot (items : List DataUse.Item) : Mem (Block D) (Option Nat) := do
  let root ← createObject
  let array ← createArray
  addItems array items
  addToObject root (textOf (lit "games")) array
  return root

/-- From `root=cJSON_CreateObject()` on: what is printed. -/
def servePage (items : List DataUse.Item) : Mem (Block D) Bytes := do
  let root ← buildRoot items
  let out ← JsonNodePrint.cJsonPrint true root
  let text ← loadText (given out)
  free (given out)
  return text ++ lit "\n"

/-- The pages of the requests that a process takes one after the other. -/
def servePages : List (List DataUse.Item) → Mem (Block D) (List Bytes)
  | [] => return []
  | items :: rest => do
      let page ← servePage items
      return page :: (← servePages rest)

end Definitions

/-! ## Building -/

theorem nonNull_bind {D α : Type} (addr : Nat) (continue_ : Nat → Mem (Block D) α) :
    nonNull (some addr) >>= continue_ = continue_ addr := rfl

section Showing

variable {D : Type} [Double D]

omit [Double D] in
theorem showItems_append {values : List (Json D)} {items : List (JsonNodes.Item D)} {value : Json D}
    {item : JsonNodes.Item D} (shown : ShowItems values items) (shows : Shows value item) :
    ShowItems (values ++ [value]) (items ++ [item]) := by
  induction values generalizing items with
  | nil =>
      rw [ShowItems] at shown
      subst shown
      rw [List.nil_append, ShowItems]
      exact ⟨item, [], rfl, shows, by rw [ShowItems]⟩
  | cons first values inductionHypothesis =>
      rw [ShowItems] at shown
      obtain ⟨head, rest, rfl, same, shown⟩ := shown
      rw [List.cons_append, ShowItems]
      exact ⟨head, rest ++ [item], rfl, same, inductionHypothesis shown⟩

omit [Double D] in
theorem showMembers_append {members : List (Text × Json D)} {items : List (JsonNodes.Item D)}
    {member : Text × Json D} {item : JsonNodes.Item D} (shown : ShowMembers members items)
    (shows : ShowMember member item) : ShowMembers (members ++ [member]) (items ++ [item]) := by
  induction members generalizing items with
  | nil =>
      rw [ShowMembers] at shown
      subst shown
      rw [List.nil_append, ShowMembers]
      exact ⟨item, [], rfl, shows, by rw [ShowMembers]⟩
  | cons first members inductionHypothesis =>
      rw [ShowMembers] at shown
      obtain ⟨head, rest, rfl, same, shown⟩ := shown
      rw [List.cons_append, ShowMembers]
      exact ⟨head, rest ++ [item], rfl, same, inductionHypothesis shown⟩

omit [Double D] in
theorem showMember_of_rename {item : JsonNodes.Item D} {name : Text} {copy : Nat} {value : Json D}
    (shows : Shows value (rename item (.owned copy name []))) :
    ShowMember (name, value) (rename item (.owned copy name [])) := by
  rw [ShowMember]
  exact ⟨rfl, shows⟩

end Showing

section Counting

variable {D : Type}

/-- How many blocks an item takes. -/
def blocks (item : JsonNodes.Item D) : Nat := (item.cells none none).card

theorem card_cells (item : JsonNodes.Item D) (prev next : Option Nat) :
    (item.cells prev next).card = blocks item := by
  unfold blocks
  rw [item.cells_eq, item.cells_eq, Multiset.card_add, Multiset.card_add, Multiset.card_singleton,
    Multiset.card_singleton]

theorem card_chain (prev next : Option Nat) (items : List (JsonNodes.Item D)) :
    (chain prev next items).card = (items.map blocks).sum := by
  induction items generalizing prev with
  | nil => rw [chain_nil, List.map_nil, List.sum_nil, Multiset.card_zero]
  | cons item rest inductionHypothesis =>
      rw [chain_cons, Multiset.card_add, card_cells, inductionHypothesis, List.map_cons, List.sum_cons]

theorem blocks_withChild {item : JsonNodes.Item D} (own : item.foreign = none)
    (child : List (JsonNodes.Item D)) :
    blocks (withChild item child) = 1 + (child.map blocks).sum + (strings item).card := by
  unfold blocks
  rw [cells_withChild own, Multiset.card_add, Multiset.card_add, Multiset.card_singleton, card_chain]
  rfl

theorem blocks_eq (item : JsonNodes.Item D) : blocks item = 1 + (item.string.cells D).card +
    (item.valuestring.cells D + chain none none item.child).card := by
  unfold blocks
  rw [cells_string, Multiset.card_add, Multiset.card_add, Multiset.card_singleton]

theorem blocks_rename {item : JsonNodes.Item D} (nameless : item.string = .null) (name : Text)
    (copy : Nat) : blocks (rename item (.owned copy name [])) = blocks item + 1 := by
  rw [blocks_eq, blocks_eq item, nameless]
  show 1 + 1 + (item.valuestring.cells D + chain none none item.child).card =
    1 + 0 + (item.valuestring.cells D + chain none none item.child).card + 1
  omega

theorem blocks_made (addr : Nat) (type : BitVec 32) (valueint : Int) (valuedouble : D)
    (valuestring : Name) :
    blocks (made addr type valueint valuedouble valuestring) = 1 + (valuestring.cells D).card := by
  unfold blocks
  rw [cells_made, Multiset.card_add, Multiset.card_singleton]

end Counting

section Building

variable {D : Type} [Double D]

def Value.blocks : Value → Nat
  | .string _ => 3
  | .number _ => 2

def Value.InRange : Value → Prop
  | .string _ => True
  | .number n => IsInt n

omit [Double D] in
/-- An item is added under its first name. -/
theorem triple_addToObject {object : JsonNodes.Item D} (home : object.foreign = none) (name : Text)
    {item : JsonNodes.Item D} (nameless : item.string = .null) :
    Triple True (object.cells none none + item.cells none none)
      (addToObject (some object.addr) name (some item.addr)) fun _ after => ∃ copy,
        after = (withChild object (object.child ++ [rename item (.owned copy name [])])).cells none none := by
  have own : item.string.IsOwn := by
    rw [nameless]
    rfl
  refine (triple_addItemToObject home own name none none).weaken ?_
  rintro _ _ ⟨_, ⟨-, refused⟩ | ⟨copy, rfl⟩, rfl⟩
  · exact absurd trivial refused
  · exact ⟨copy, rfl⟩

variable [ExactDouble D]

theorem triple_addMember {object : JsonNodes.Item D} (home : object.foreign = none) (name : Text)
    {value : Value} (inRange : value.InRange) :
    Triple True (object.cells none none) (addMember (some object.addr) name value) fun _ after =>
      ∃ child, after = (withChild object (object.child ++ [child])).cells none none ∧
        ShowMember (name, value.json) child ∧ blocks child = value.blocks := by
  cases value with
  | string s =>
      refine (triple_createString s).bind (zero_add _).symm ?_
      rintro _ _ (⟨-, refused, -⟩ | ⟨addr, _, rfl, ⟨-, refused⟩ | ⟨copy, rfl⟩, rfl⟩)
      · exact absurd trivial refused
      · exact absurd trivial refused
      · rw [add_comm]
        refine (triple_addToObject home name rfl).weaken ?_
        rintro _ _ ⟨copy', rfl⟩
        refine ⟨_, rfl, showMember_of_rename ?_, ?_⟩
        · rw [Value.json, Shows]
          exact ⟨show cJsonString &&& 255 = cJsonString by decide, rfl⟩
        · rw [blocks_rename rfl, blocks_made]
          rfl
  | number n =>
      refine (triple_creates (.number (Double.ofInt n))).bind (zero_add _).symm ?_
      rintro _ _ (⟨-, refused, -⟩ | ⟨addr, rfl, rfl⟩)
      · exact absurd trivial refused
      · rw [add_comm]
        refine (triple_addToObject home name rfl).weaken ?_
        rintro _ _ ⟨copy, rfl⟩
        refine ⟨_, rfl, showMember_of_rename ?_, ?_⟩
        · rw [Value.json, Shows]
          exact ⟨show cJsonNumber &&& 255 = cJsonNumber by decide, inRange,
            ExactDouble.toInt_ofInt n inRange, rfl⟩
        · rw [blocks_rename rfl, blocks_made]
          rfl

theorem triple_addMembers {object : JsonNodes.Item D} (home : object.foreign = none)
    {members : List (Text × Value)} (inRange : ∀ member ∈ members, member.2.InRange)
    {done : List (Text × Json D)} (shown : ShowMembers done object.child) :
    Triple True (object.cells none none) (addMembers (some object.addr) members) fun _ after =>
      ∃ child, after = (withChild object child).cells none none ∧
        ShowMembers (done ++ members.map fun member => (member.1, member.2.json)) child ∧
        (child.map blocks).sum =
          (object.child.map blocks).sum + (members.map fun member => member.2.blocks).sum := by
  induction members generalizing object done with
  | nil =>
      refine triple_pure ⟨object.child, by rw [withChild_self], ?_, rfl⟩
      rw [List.map_nil, List.append_nil]
      exact shown
  | cons member rest inductionHypothesis =>
      rw [List.forall_mem_cons] at inRange
      refine (triple_addMember home member.1 inRange.1).bind (add_zero _).symm ?_
      rintro _ _ ⟨child, rfl, shows, counted⟩
      rw [add_zero]
      refine (inductionHypothesis
        (show (withChild object (object.child ++ [child])).foreign = none from home) inRange.2
        (showMembers_append shown shows)).weaken ?_
      rintro _ _ ⟨child', rfl, shown', sum⟩
      refine ⟨child', rfl, ?_, ?_⟩
      · rw [List.append_assoc] at shown'
        exact shown'
      · rw [sum, show (withChild object (object.child ++ [child])).child = object.child ++ [child] from rfl,
          List.map_append, List.sum_append, List.map_singleton, List.sum_singleton, counted,
          List.map_cons, List.sum_cons, add_assoc]

/-- The objects of the rows are added. -/
theorem triple_addItems {array : JsonNodes.Item D} (home : array.foreign = none)
    {items : List DataUse.Item} (servable : ∀ item ∈ items, Servable item) {done : List (Json D)}
    (shown : ShowItems done array.child) :
    Triple True (array.cells none none) (addItems (some array.addr) items) fun _ after =>
      ∃ child, after = (withChild array child).cells none none ∧
        ShowItems (done ++ items.map fun item => tree (itemJson item)) child ∧
        (child.map blocks).sum = (array.child.map blocks).sum + 25 * items.length := by
  induction items generalizing array done with
  | nil =>
      refine triple_pure ⟨array.child, by rw [withChild_self], ?_, rfl⟩
      rw [List.map_nil, List.append_nil]
      exact shown
  | cons item rest inductionHypothesis =>
      rw [List.forall_mem_cons] at servable
      refine (triple_creates .object).bind (zero_add _).symm ?_
      rintro _ _ (⟨-, refused, -⟩ | ⟨addr, rfl, rfl⟩)
      · exact absurd trivial refused
      · have inRange : ∀ member ∈ itemMembers item, member.2.InRange := by
          simp only [itemMembers, List.forall_mem_cons]
          exact ⟨trivial, servable.1.kind, trivial, trivial, trivial, trivial, trivial, servable.1.pv,
            servable.1.hot, List.forall_mem_nil _⟩
        have empty : ShowMembers [] (made (D := D) addr cJsonObject 0 (Double.ofInt 0) .null).child := by
          rw [ShowMembers]
          rfl
        refine (triple_addMembers rfl inRange empty).bind rfl ?_
        rintro _ _ ⟨child, rfl, members, counted⟩
        rw [nonNull_bind, add_comm]
        refine (triple_addItemToArray home (withChild (made addr cJsonObject 0 (Double.ofInt 0) .null)
          child) none none).bind (add_zero _).symm ?_
        rintro _ _ rfl
        rw [add_zero]
        have shows : Shows (tree (itemJson item))
            (withChild (made (D := D) addr cJsonObject 0 (Double.ofInt 0) .null) child) := by
          show Shows (.object ((itemMembers item).map fun member =>
            (member.1, (member.2.json : Json D)))) _
          rw [Shows]
          exact ⟨show cJsonObject &&& 255 = cJsonObject by decide, rfl, members⟩
        refine (inductionHypothesis (show (withChild array _).foreign = none from home) servable.2
          (showItems_append shown shows)).weaken ?_
        rintro _ _ ⟨child', rfl, shown', sum⟩
        refine ⟨child', rfl, ?_, ?_⟩
        · rw [List.append_assoc] at shown'
          exact shown'
        · rw [sum, withChild, List.map_append, List.sum_append, List.map_singleton, List.sum_singleton,
            blocks_withChild rfl, counted, List.length_cons]
          show _ + (1 + (0 + 24) + 0) + _ = _
          omega

theorem triple_buildRoot {items : List DataUse.Item} (servable : ∀ item ∈ items, Servable item) :
    Triple True 0 (buildRoot (D := D) items) fun result after =>
      ∃ root, result = some root.addr ∧ after = root.cells none none ∧
        Shows (tree (rootJson items)) root ∧ blocks root = 3 + 25 * items.length := by
  refine (triple_creates .object).bind (zero_add _).symm ?_
  rintro _ _ (⟨-, refused, -⟩ | ⟨addr, rfl, rfl⟩)
  · exact absurd trivial refused
  rw [add_zero]
  refine (triple_creates .array).bind (zero_add _).symm ?_
  rintro _ _ (⟨-, refused, -⟩ | ⟨addr', rfl, rfl⟩)
  · exact absurd trivial refused
  have empty : ShowItems [] (made (D := D) addr' cJsonArray 0 (Double.ofInt 0) .null).child := by
    rw [ShowItems]
    rfl
  refine (triple_addItems rfl servable empty).bind rfl ?_
  rintro _ _ ⟨child, rfl, items', counted⟩
  rw [add_comm]
  refine (triple_addToObject (show (made addr cJsonObject 0 (Double.ofInt 0 : D) .null).foreign = none
    from rfl) (textOf (lit "games")) (show (withChild (made addr' cJsonArray 0 (Double.ofInt 0 : D) .null)
      child).string = .null from rfl)).bind (add_zero _).symm ?_
  rintro _ _ ⟨copy, rfl⟩
  rw [add_zero]
  refine triple_pure ⟨_, rfl, rfl, ?_, ?_⟩
  · rw [rootJson, tree, Shows]
    refine ⟨show cJsonObject &&& 255 = cJsonObject by decide, rfl, ?_⟩
    refine showMembers_append (show ShowMembers [] [] by rw [ShowMembers]) (showMember_of_rename ?_)
    rw [tree, Shows, treeItems_eq_map, List.map_map]
    exact ⟨show cJsonArray &&& 255 = cJsonArray by decide, rfl, items'⟩
  · rw [blocks_withChild rfl]
    show 1 + (blocks (rename (withChild (made addr' cJsonArray 0 (Double.ofInt 0 : D) .null) child)
      (.owned copy (textOf (lit "games")) [])) + 0) + 0 = _
    rw [blocks_rename rfl, blocks_withChild rfl, counted]
    show 1 + (1 + (0 + 25 * items.length) + 0 + 1 + 0) + 0 = _
    omega

end Building

/-! ## Serving -/

section Serving

variable {D : Type} [Double D] [ExactDouble D] [PrintedDouble D]

/-- A tree on the heap that shows a page. -/
structure Stays (items : List DataUse.Item) (root : JsonNodes.Item D) : Prop where
  shows : Shows (tree (rootJson items)) root
  counted : blocks root = 3 + 25 * items.length

omit [PrintedDouble D] in
theorem page_eq {items : List DataUse.Item} (servable : ∀ item ∈ items, Servable item) :
    page items = (tree (D := D) (rootJson items)).text true 0 ++ lit "\n" :=
  congrArg (· ++ lit "\n") (printValue_tree (D := D) (plain_rootJson servable) 0)

theorem triple_servePage {items : List DataUse.Item} (servable : ∀ item ∈ items, Servable item)
    (small : 2 * (page items).length + 6 < 2 ^ 31) :
    Triple True 0 (servePage (D := D) items) fun result after =>
      ∃ root, result = page items ∧ after = root.cells none none ∧ Stays items root := by
  rw [page_eq (D := D) servable] at small ⊢
  rw [List.length_append, show (lit "\n").length = 1 by decide] at small
  refine (triple_buildRoot servable).bind (zero_add _).symm ?_
  rintro _ _ ⟨root, rfl, rfl, shows, counted⟩
  rw [add_zero]
  refine (JsonNodeText.triple_cJsonPrint true True none none shows (by
    show _ + 8 < _
    omega)).bind (add_zero _).symm ?_
  rintro _ _ ⟨entry, ⟨rfl, refused⟩ | ⟨printed, rfl, text⟩, rfl, rfl⟩
  · exact absurd trivial refused
  · rw [add_zero]
    refine (triple_loadText_heap printed.addr printed.text printed.slack).ask (add_comm _ _) ?_
    rintro _ rfl
    refine (triple_release printed.addr _).bind (add_comm _ _) ?_
    rintro _ _ rfl
    rw [text, zero_add]
    exact triple_pure ⟨root, rfl, rfl, shows, counted⟩

theorem triple_servePages {pages : List (List DataUse.Item)}
    (servable : ∀ items ∈ pages, ∀ item ∈ items, Servable item)
    (small : ∀ items ∈ pages, 2 * (page items).length + 6 < 2 ^ 31) :
    Triple True 0 (servePages (D := D) pages) fun result after =>
      ∃ trees, result = pages.map page ∧ after = cellsOf (Multiset.ofList trees) ∧
        List.Forall₂ Stays pages trees := by
  induction pages with
  | nil => exact triple_pure ⟨[], rfl, rfl, .nil⟩
  | cons items rest inductionHypothesis =>
      rw [List.forall_mem_cons] at servable small
      refine (triple_servePage servable.1 small.1).bind (zero_add _).symm ?_
      rintro _ _ ⟨root, rfl, rfl, stays⟩
      rw [add_zero]
      refine (inductionHypothesis servable.2 small.2).bind (zero_add _).symm ?_
      rintro _ _ ⟨trees, rfl, rfl, others⟩
      refine triple_pure ⟨root :: trees, rfl, ?_, .cons stays others⟩
      rw [← Multiset.cons_coe, cellsOf_cons, add_comm]

omit [ExactDouble D] [PrintedDouble D] in
theorem card_stays {pages : List (List DataUse.Item)} {trees : List (JsonNodes.Item D)}
    (stay : List.Forall₂ Stays pages trees) : (cellsOf (Multiset.ofList trees)).card =
      (pages.map fun items => 3 + 25 * items.length).sum := by
  induction stay with
  | nil => rfl
  | cons stays others inductionHypothesis =>
      rw [← Multiset.cons_coe, cellsOf_cons, Multiset.card_add, inductionHypothesis, List.map_cons,
        List.sum_cons, ← stays.counted]
      rfl

/-- A page that some request has been answered with. -/
def Answered (items : List DataUse.Item) : Prop :=
  ∃ env fromId cnt retn, (readRedisToJson fromId cnt).outcome env = .returned (retn, some items)

/-- A process that answers requests prints each page, and after any number of
them every tree it has built is on its heap: three blocks for a page and
twenty-five for each of its items. -/
theorem servePages_stay {pages : List (List DataUse.Item)} (answered : ∀ items ∈ pages, Answered items)
    (small : ∀ items ∈ pages, 2 * (page items).length + 6 < 2 ^ 31) {store : Store (Block D)}
    (granted : ∀ request, store.grant request = true) {others : Cells (Block D)}
    (held : Holds store others) :
    ∃ trees store', servePages pages store = .ok (pages.map page, store') ∧
      List.Forall₂ Stays pages trees ∧ Holds store' (cellsOf (Multiset.ofList trees) + others) ∧
      (cellsOf (Multiset.ofList trees)).card = (pages.map fun items => 3 + 25 * items.length).sum := by
  have servable : ∀ items ∈ pages, ∀ item ∈ items, Servable item := by
    intro items member
    obtain ⟨env, fromId, cnt, retn, returned⟩ := answered items member
    exact (readRedisToJson_servable fromId cnt).2 _ returned items rfl
  rw [← zero_add others] at held
  obtain ⟨_, store', _, ran, ⟨trees, rfl, rfl, stay⟩, -, left⟩ :=
    triple_servePages servable small store others (fun _ => granted) held
  exact ⟨trees, store', ran, stay, left, card_stays stay⟩

theorem servePages_stay_twice :
    ∃ trees store', servePages (D := Rat) [[uploadedItem], [uploadedItem]] (Store.empty fun _ => true) =
        .ok ([[uploadedItem], [uploadedItem]].map page, store') ∧
      List.Forall₂ Stays [[uploadedItem], [uploadedItem]] trees ∧
      Holds store' (cellsOf (Multiset.ofList trees) + 0) ∧
      (cellsOf (Multiset.ofList trees)).card =
        ([[uploadedItem], [uploadedItem]].map fun items => 3 + 25 * items.length).sum := by
  have returned : (readRedisToJson (12 : Nat) (1 : Nat)).outcome (scoreServer uploads) =
      .returned (0, some [uploadedItem]) := uploads_returned (by decide) (by decide) (by decide)
  have answered : Answered [uploadedItem] := ⟨_, _, _, _, returned⟩
  have small : 2 * (page [uploadedItem]).length + 6 < 2 ^ 31 := by decide +kernel
  exact servePages_stay (List.forall_mem_cons.mpr ⟨answered, List.forall_mem_singleton.mpr answered⟩)
    (List.forall_mem_cons.mpr ⟨small, List.forall_mem_singleton.mpr small⟩) (fun _ => rfl)
    (holds_empty _)

end Serving

end DistStore.PageTree

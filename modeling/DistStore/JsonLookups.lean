import DistStore.JsonNodeLists
import DistStore.JsonNodeText

/-!
# Looking up in a tree in memory

A client goes down a tree by positions and names, and is handed a pointer or
NULL.  In a tree that shows a value it comes to the node at that place, which
shows what the same lookups give in the value, and no block is changed.
-/

set_option autoImplicit false

namespace DistStore.JsonLookups

open CMemory CHeap JsonNodes JsonNodeLists
open JsonTree (Json Text)
open JsonNodeText (letters lettersStore holds_letters shows_letters showItems_length)

/-- What a client looks up: an item of an array or a member of an object. -/
inductive Key where
  | index (item : Int)
  | member (string : Text)

section Definitions

variable {D : Type}

def look (addr : Nat) : Key → Mem (Block D) (Option Nat)
  | .index item => getArrayItem addr item
  | .member string => getObjectItem addr (.static string)

/-- One lookup after the other, as long as a child is found. -/
def follow : Nat → List Key → Mem (Block D) (Option Nat)
  | addr, [] => return some addr
  | addr, key :: path => do
      match ← look addr key with
      | none => return none
      | some child => follow child path

/-- The child at a place. -/
def childAt (item : Item D) : Key → Option (Item D)
  | .index which => item.child[which.toNat]?
  | .member string => item.child.find? (named string.val)

/-- The node at the end of a path. -/
def nodeAt (item : Item D) : List Key → Option (Item D)
  | [] => some item
  | key :: path => (childAt item key).bind fun child => nodeAt child path

def lookup (tree : Json D) : Key → Option (Json D)
  | .index item => JsonTree.getArrayItem tree item
  | .member string => JsonTree.getObjectItem tree string.val

/-- A value with children the lookup can be made in. -/
inductive Searchable : Json D → Key → Prop where
  | array (child : List (Json D)) (item : Int) : Searchable (.array child) (.index item)
  | object (child : List (Text × Json D)) (key : Key) : Searchable (.object child) key

/-- What the lookups find, if anything. -/
inductive Finds : Json D → List Key → Option (Json D) → Prop where
  | here (tree : Json D) : Finds tree [] (some tree)
  | absent {tree : Json D} {key : Key} {path : List Key} (searchable : Searchable tree key)
      (missing : lookup tree key = none) : Finds tree (key :: path) none
  | deeper {tree child : Json D} {key : Key} {path : List Key} {found : Option (Json D)}
      (searchable : Searchable tree key) (present : lookup tree key = some child)
      (later : Finds child path found) : Finds tree (key :: path) found

end Definitions

section Showing

variable {D : Type}

theorem rel_items {values : List (Json D)} {items : List (Item D)} (shows : ShowItems values items)
    (which : Nat) : Option.Rel Shows values[which]? items[which]? := by
  induction values generalizing items which with
  | nil =>
      rw [ShowItems] at shows
      subst shows
      exact .none
  | cons value values inductionHypothesis =>
      rw [ShowItems] at shows
      obtain ⟨item, rest, rfl, same, shows⟩ := shows
      cases which with
      | zero => exact .some same
      | succ which => exact inductionHypothesis shows which

theorem rel_members {members : List (Text × Json D)} {items : List (Item D)}
    (shows : ShowMembers members items) (which : Nat) :
    Option.Rel Shows (members[which]?.map Prod.snd) items[which]? := by
  induction members generalizing items which with
  | nil =>
      rw [ShowMembers] at shows
      subst shows
      exact .none
  | cons member members inductionHypothesis =>
      rw [ShowMembers] at shows
      obtain ⟨item, rest, rfl, same, shows⟩ := shows
      obtain ⟨string, value⟩ := member
      rw [ShowMember] at same
      cases which with
      | zero => exact .some same.2
      | succ which => exact inductionHypothesis shows which

theorem rel_named {members : List (Text × Json D)} {items : List (Item D)}
    (shows : ShowMembers members items) (key : Bytes) :
    Option.Rel Shows
      (((members.map fun member => (some member.1, member.2)).find? (JsonTree.named key)).map Prod.snd)
      (items.find? (named key)) := by
  induction members generalizing items with
  | nil =>
      rw [ShowMembers] at shows
      subst shows
      exact .none
  | cons member members inductionHypothesis =>
      rw [ShowMembers] at shows
      obtain ⟨item, rest, rfl, same, shows⟩ := shows
      obtain ⟨string, value⟩ := member
      rw [ShowMember] at same
      have test : named key item = JsonTree.named key (some string, value) := by
        unfold named
        rw [same.1]
        rfl
      rw [List.map_cons, List.find?_cons, List.find?_cons, test]
      cases JsonTree.named key (some string, value) with
      | true => exact .some same.2
      | false => exact inductionHypothesis shows

theorem readable_members {members : List (Text × Json D)} {items : List (Item D)}
    (shows : ShowMembers members items) : ∀ item ∈ items, Readable item.string := by
  induction members generalizing items with
  | nil =>
      rw [ShowMembers] at shows
      subst shows
      exact List.forall_mem_nil _
  | cons member members inductionHypothesis =>
      rw [ShowMembers] at shows
      obtain ⟨item, rest, rfl, same, shows⟩ := shows
      obtain ⟨string, value⟩ := member
      rw [ShowMember] at same
      exact List.forall_mem_cons.mpr ⟨Or.inr ⟨string, same.1⟩, inductionHypothesis shows⟩

end Showing

section Lookups

variable {D : Type} {generous : Prop}

theorem mem_of_childAt {item child : Item D} {key : Key} (found : childAt item key = some child) :
    child ∈ item.child := by
  cases key with
  | index which => exact List.mem_of_getElem? found
  | member string => exact List.mem_of_find?_eq_some found

/-- The child that a lookup comes to. -/
def Child (item : Item D) (key : Key) (value : Json D) (addr : Nat) : Prop :=
  ∃ child, childAt item key = some child ∧ addr = child.addr ∧ Shows value child

theorem rel_child {item : Item D} {key : Key} {found : Option (Json D)}
    (related : Option.Rel Shows found (childAt item key)) :
    Option.Rel (Child item key) found ((childAt item key).map Item.addr) := by
  cases present : childAt item key with
  | none =>
      rw [present] at related
      cases related
      exact .none
  | some child =>
      rw [present] at related
      cases related with
      | some same => exact .some ⟨child, present, rfl, same⟩

theorem triple_look {tree : Json D} {item : Item D} {key : Key} (shows : Shows tree item)
    (searchable : Searchable tree key) (prev next : Option Nat) :
    item.foreign = none ∧ Triple generous (item.cells prev next) (look item.addr key)
      fun result after => Option.Rel (Child item key) (lookup tree key) result ∧
        after = item.cells prev next := by
  cases searchable with
  | array child which =>
      rw [Shows] at shows
      obtain ⟨-, own, shows⟩ := shows
      refine ⟨own, (triple_getArrayItem own which prev next).weaken ?_⟩
      rintro _ _ ⟨rfl, rfl⟩
      refine ⟨?_, rfl⟩
      have same : lookup (.array child) (.index which) = child[which.toNat]? := by
        simp [lookup, JsonTree.getArrayItem, JsonTree.Json.children, Function.comp_def]
      rw [same]
      exact rel_child (rel_items shows _)
  | object child key =>
      rw [Shows] at shows
      obtain ⟨-, own, shows⟩ := shows
      refine ⟨own, ?_⟩
      cases key with
      | index which =>
          refine (triple_getArrayItem own which prev next).weaken ?_
          rintro _ _ ⟨rfl, rfl⟩
          refine ⟨?_, rfl⟩
          have same : lookup (.object child) (.index which) = child[which.toNat]?.map Prod.snd := by
            simp [lookup, JsonTree.getArrayItem, JsonTree.Json.children, Function.comp_def]
          rw [same]
          exact rel_child (rel_members shows _)
      | member string =>
          refine (triple_getObjectItem own (readable_members shows) string prev next).weaken ?_
          rintro _ _ ⟨rfl, rfl⟩
          exact ⟨rel_child (rel_named shows _), rfl⟩

/-- The node at the end of the path, in the tree, which shows the value. -/
def Reached (item : Item D) (cells : Cells (Block D)) (path : List Key) (value : Json D)
    (addr : Nat) : Prop :=
  ∃ target prev next rest, nodeAt item path = some target ∧ addr = target.addr ∧
    cells = target.cells prev next + rest ∧ Shows value target

theorem triple_follow {tree : Json D} {path : List Key} {found : Option (Json D)}
    (finds : Finds tree path found) {item : Item D} (shows : Shows tree item) (prev next : Option Nat) :
    Triple generous (item.cells prev next) (follow item.addr path)
      fun result after => Option.Rel (Reached item (item.cells prev next) path) found result ∧
        after = item.cells prev next := by
  induction finds generalizing item prev next with
  | here tree =>
      exact triple_pure ⟨.some ⟨item, prev, next, 0, rfl, rfl, (add_zero _).symm, shows⟩, rfl⟩
  | absent searchable missing =>
      obtain ⟨-, looked⟩ := triple_look shows searchable prev next
      refine looked.ask (add_zero _).symm ?_
      rw [missing]
      rintro _ ⟨⟩
      exact triple_pure ⟨.none, rfl⟩
  | @deeper tree value key path found searchable present _ inductionHypothesis =>
      obtain ⟨own, looked⟩ := triple_look shows searchable prev next
      refine looked.ask (add_zero _).symm ?_
      rw [present]
      rintro _ (⟨child, place, rfl, same⟩)
      obtain ⟨xs, ys, children⟩ := List.append_of_mem (mem_of_childAt place)
      have split : item.cells prev next = child.cells (last none xs) (first ys none) +
          (headCell item prev next (first xs (some child.addr)) + chain none (some child.addr) xs +
            chain (some child.addr) none ys + strings item) := by
        rw [cells_split own children]
        ac_rfl
      refine (inductionHypothesis same (last none xs) (first ys none)).within split ?_
      rintro result _ ⟨related, rfl⟩
      refine ⟨?_, split.symm⟩
      cases related with
      | none => exact .none
      | some reached =>
          obtain ⟨target, prev', next', rest, below, rfl, cells, shown⟩ := reached
          rw [cells, add_assoc] at split
          refine .some ⟨target, prev', next', _, ?_, rfl, split, shown⟩
          rw [nodeAt, place]
          exact below

/-- Whichever way a client goes, it is handed the node at that place, which shows
what lies there, or NULL where nothing does, and the heap is as before. -/
theorem follow_finds {tree : Json D} {path : List Key} {found : Option (Json D)}
    (finds : Finds tree path found) {item : Item D} (shows : Shows tree item)
    {prev next : Option Nat} {store : Store (Block D)} {others : Cells (Block D)}
    (held : Holds store (item.cells prev next + others)) :
    ∃ result store', follow item.addr path store = .ok (result, store') ∧
      Holds store' (item.cells prev next + others) ∧
        Option.Rel (Reached item (item.cells prev next) path) found result := by
  obtain ⟨result, store', _, ran, ⟨related, rfl⟩, -, left⟩ :=
    (triple_follow finds shows prev next : Triple False _ _ _) store others False.elim held
  exact ⟨result, store', ran, left, related⟩

/-- The number of children of an array. -/
theorem triple_getArraySize {child : List (Json D)} {item : Item D} (shows : Shows (.array child) item)
    (counted : child.length < 2 ^ 31) (prev next : Option Nat) :
    Triple generous (item.cells prev next) (getArraySize item.addr) fun result after =>
      result = (JsonTree.getArraySize (.array child) : Int) ∧ after = item.cells prev next := by
  rw [Shows] at shows
  obtain ⟨-, own, shows⟩ := shows
  refine (triple_childOf item prev next).ask (add_zero _).symm ?_
  rintro _ rfl
  rw [own]
  have count : Triple generous (chain none none item.child)
      (overBlocks fun fuel => countFrom fuel (first item.child none) 0) fun result after =>
        result = 0 + (item.child.length : Int) ∧ after = chain none none item.child :=
    triple_overBlocks fun fuel enough => triple_countFrom none item.child
      (Nat.lt_of_le_of_lt (length_le_card none none item.child) enough) 0
  have split : item.cells prev next = chain none none item.child +
      (headCell item prev next (first item.child none) + strings item) := by
    rw [cells_child own]
    unfold headCell
    ac_rfl
  refine count.ask split ?_
  rintro _ rfl
  rw [zero_add, ← showItems_length shows, checkInt_of_isInt ((isInt_natCast_iff _).mpr counted)]
  refine triple_pure ⟨?_, rfl⟩
  simp [JsonTree.getArraySize, JsonTree.Json.children]

end Lookups

theorem lettersText_nulFree : 0 ∉ lit "a" := by decide

theorem follow_finds_letters : ∃ result store',
    follow 0 [.index 0] (lettersStore (· < 5)) = .ok (result, store') ∧
      Holds store' (letters.cells none none + 0) ∧
        Option.Rel (Reached letters (letters.cells none none) [.index 0]) (some (.string ⟨lit "a", lettersText_nulFree⟩)) result :=
  follow_finds (.deeper (.array _ 0) rfl (.here _)) shows_letters (holds_letters (· < 5))

end DistStore.JsonLookups

import DistStore.JsonNodeLists

/-!
# Programs that work on trees

A program holds pointers to trees, creates items, moves them in and out of lists
of children at any depth, and deletes them.  What it does to the trees is said
without addresses of siblings; a program that is right about its trees is right
about memory, whichever allocations are refused.
-/

set_option autoImplicit false

namespace DistStore.JsonPool

open CMemory CHeap JsonNodes JsonNodeLists
open JsonTree (Text)

/-! ## Creating items -/

section Creating

variable {D : Type} [Double D]

def create (change : Node D → Node D) : Mem (Block D) (Option Nat) := do
  match ← newItem with
  | none => return none
  | some item => do
      setNode item change
      return some item

/-- `cJSON_CreateNull`. -/
def createNull : Mem (Block D) (Option Nat) := create fun node => { node with type := cJsonNull }

/-- `cJSON_CreateTrue`. -/
def createTrue : Mem (Block D) (Option Nat) := create fun node => { node with type := cJsonTrue }

/-- `cJSON_CreateFalse`. -/
def createFalse : Mem (Block D) (Option Nat) := create fun node => { node with type := cJsonFalse }

/-- `cJSON_CreateBool`. -/
def createBool (b : Int) : Mem (Block D) (Option Nat) :=
  create fun node => { node with type := if b ≠ 0 then cJsonTrue else cJsonFalse }

/-- `cJSON_CreateNumber`. -/
def createNumber (num : D) : Mem (Block D) (Option Nat) :=
  create fun node =>
    { node with type := cJsonNumber, valuedouble := num, valueint := Double.toInt num }

/-- `cJSON_CreateArray`. -/
def createArray : Mem (Block D) (Option Nat) := create fun node => { node with type := cJsonArray }

/-- `cJSON_CreateObject`. -/
def createObject : Mem (Block D) (Option Nat) := create fun node => { node with type := cJsonObject }

/-- `cJSON_CreateString`. -/
def createString (string : Pointer) : Mem (Block D) (Option Nat) := do
  match ← newItem with
  | none => return none
  | some item => do
      setNode item fun node => { node with type := cJsonString }
      let copy ← strdup string
      setNode item fun node => { node with valuestring := given copy }
      return some item

end Creating

/-! ## Commands -/

/-- The calls a program makes; the names it passes are texts of its own. -/
inductive Command (D : Type) where
  | createNull
  | createTrue
  | createFalse
  | createBool (b : Int)
  | createNumber (num : D)
  | createString (string : Text)
  | createArray
  | createObject
  | getArrayItem (array : Nat) (item : Int)
  | getObjectItem (object : Nat) (string : Text)
  | addItemToArray (array : Nat) (item : Option Nat)
  | addItemToObject (object : Nat) (string : Text) (item : Option Nat)
  | addItemToObjectCS (object : Nat) (string : Text) (item : Option Nat)
  | insertItemInArray (array : Nat) (which : Int) (newitem : Nat)
  | detachItemFromArray (array : Nat) (which : Int)
  | deleteItemFromArray (array : Nat) (which : Int)
  | detachItemFromObject (object : Nat) (string : Text)
  | deleteItemFromObject (object : Nat) (string : Text)
  | replaceItemInArray (array : Nat) (which : Int) (newitem : Nat)
  | replaceItemInObject (object : Nat) (string : Text) (newitem : Nat)
  | delete (c : Option Nat)

def without {D : Type} (program : Mem (Block D) Unit) : Mem (Block D) (Option Nat) := do
  program
  return none

def exec {D : Type} [Double D] : Command D → Mem (Block D) (Option Nat)
  | .createNull => createNull
  | .createTrue => createTrue
  | .createFalse => createFalse
  | .createBool b => createBool b
  | .createNumber num => createNumber num
  | .createString string => createString (.static string)
  | .createArray => createArray
  | .createObject => createObject
  | .getArrayItem array item => getArrayItem array item
  | .getObjectItem object string => getObjectItem object (.static string)
  | .addItemToArray array item => without (addItemToArray array item)
  | .addItemToObject object string item => without (addItemToObject object (.static string) item)
  | .addItemToObjectCS object string item => without (addItemToObjectCS object (.static string) item)
  | .insertItemInArray array which newitem => without (insertItemInArray array which newitem)
  | .detachItemFromArray array which => detachItemFromArray array which
  | .deleteItemFromArray array which => without (deleteItemFromArray array which)
  | .detachItemFromObject object string => detachItemFromObject object (.static string)
  | .deleteItemFromObject object string => without (deleteItemFromObject object (.static string))
  | .replaceItemInArray array which newitem => without (replaceItemInArray array which newitem)
  | .replaceItemInObject object string newitem =>
      without (replaceItemInObject object (.static string) newitem)
  | .delete c => without (delete c)

/-! ## What the commands do to trees -/

section Trees

variable {D : Type}

/-- The trees a program holds. -/
abbrev Pool (D : Type) := Multiset (Item D)

def cellsOf (pool : Pool D) : Cells (Block D) := (pool.map (Item.cells none none)).sum

@[simp] theorem cellsOf_zero : cellsOf (0 : Pool D) = 0 := rfl

@[simp] theorem cellsOf_cons (item : Item D) (pool : Pool D) :
    cellsOf (item ::ₘ pool) = item.cells none none + cellsOf pool := by
  unfold cellsOf
  rw [Multiset.map_cons, Multiset.sum_cons]

@[simp] theorem cellsOf_singleton (item : Item D) : cellsOf {item} = item.cells none none := by
  unfold cellsOf
  rw [Multiset.map_singleton, Multiset.sum_singleton]

@[simp] theorem cellsOf_add (pool others : Pool D) :
    cellsOf (pool + others) = cellsOf pool + cellsOf others := by
  unfold cellsOf
  rw [Multiset.map_add, Multiset.sum_add]

/-- An item of cJSON that refers to no other: it frees what it owns, and its
name can be compared. -/
inductive Proper : Item D → Prop where
  | intro {item : Item D} (own : item.type &&& cJsonIsReference = 0) (home : item.foreign = none)
      (valuestring : item.valuestring.IsOwn)
      (named : item.type &&& cJsonStringIsConst = 0 → item.string.IsOwn)
      (const : item.type &&& cJsonStringIsConst ≠ 0 → item.string.IsBorrowed)
      (readable : Readable item.string) (children : ∀ child ∈ item.child, Proper child) : Proper item

/-- A place in a list of children. -/
structure Frame (D : Type) where
  holder : Item D
  before : List (Item D)
  after : List (Item D)
  own : holder.foreign = none

/-- The tree around an item. -/
def plug : List (Frame D) → Item D → Item D
  | [], item => item
  | frame :: outer, item => plug outer (withChild frame.holder (frame.before ++ item :: frame.after))

/-- An item that has just been created. -/
def made (addr : Nat) (type : BitVec 32) (valueint : Int) (valuedouble : D) (valuestring : Name) :
    Item D where
  addr := addr
  type := type
  valuestring := valuestring
  valueint := valueint
  valuedouble := valuedouble
  string := .null
  child := []
  foreign := none

variable (generous : Prop)

/-- What a command does to an item it is given and to its children; `taken` are
trees that become children and `released` are children that become trees. -/
inductive Edit : Command D → (array : Item D) → (taken : Pool D) → Option Nat → Item D →
    (released : Pool D) → Prop where
  | get (array : Item D) (item : Int) : Edit (.getArrayItem array.addr item) array 0
      (array.child[item.toNat]?.map Item.addr) array 0
  | getMember (object : Item D) (string : Text) : Edit (.getObjectItem object.addr string) object 0
      ((object.child.find? (named string.val)).map Item.addr) object 0
  | addNothing (array : Item D) : Edit (.addItemToArray array.addr none) array 0 none array 0
  | add (array item : Item D) : Edit (.addItemToArray array.addr (some item.addr)) array {item} none
      (withChild array (array.child ++ [item])) 0
  | addMember (object item : Item D) {string : Text} {name : Name}
      (unnamed : item.type &&& cJsonStringIsConst = 0) (copied : Copied generous string name) :
      Edit (.addItemToObject object.addr string (some item.addr)) object {item} none
        (withChild object (object.child ++ [rename item name])) 0
  | addMemberCS (object item : Item D) (string : Text) :
      Edit (.addItemToObjectCS object.addr string (some item.addr)) object {item} none
        (withChild object (object.child ++ [renameConst item (.static string)])) 0
  | insert {array c : Item D} (newitem : Item D) {which : Int} {xs ys : List (Item D)}
      (children : array.child = xs ++ c :: ys) (place : xs.length = which.toNat) :
      Edit (.insertItemInArray array.addr which newitem.addr) array {newitem} none
        (withChild array (xs ++ newitem :: c :: ys)) 0
  | insertLast {array : Item D} (newitem : Item D) {which : Int}
      (behind : array.child.length ≤ which.toNat) :
      Edit (.insertItemInArray array.addr which newitem.addr) array {newitem} none
        (withChild array (array.child ++ [newitem])) 0
  | detach {array c : Item D} {which : Int} {xs ys : List (Item D)}
      (children : array.child = xs ++ c :: ys) (place : xs.length = which.toNat) :
      Edit (.detachItemFromArray array.addr which) array 0 (some c.addr) (withChild array (xs ++ ys)) {c}
  | detachNone {array : Item D} {which : Int} (behind : array.child.length ≤ which.toNat) :
      Edit (.detachItemFromArray array.addr which) array 0 none array 0
  | remove {array c : Item D} {which : Int} {xs ys : List (Item D)}
      (children : array.child = xs ++ c :: ys) (place : xs.length = which.toNat) :
      Edit (.deleteItemFromArray array.addr which) array 0 none (withChild array (xs ++ ys)) 0
  | removeNone {array : Item D} {which : Int} (behind : array.child.length ≤ which.toNat) :
      Edit (.deleteItemFromArray array.addr which) array 0 none array 0
  | detachMember {object c : Item D} {string : Text} {xs ys : List (Item D)}
      (children : object.child = xs ++ c :: ys)
      (found : object.child.find? (named string.val) = some c)
      (place : object.child.findIdx (named string.val) = xs.length) (counted : xs.length < 2 ^ 31) :
      Edit (.detachItemFromObject object.addr string) object 0 (some c.addr)
        (withChild object (xs ++ ys)) {c}
  | detachMemberNone {object : Item D} {string : Text}
      (absent : object.child.find? (named string.val) = none)
      (counted : object.child.length < 2 ^ 31) :
      Edit (.detachItemFromObject object.addr string) object 0 none object 0
  | removeMember {object c : Item D} {string : Text} {xs ys : List (Item D)}
      (children : object.child = xs ++ c :: ys)
      (found : object.child.find? (named string.val) = some c)
      (place : object.child.findIdx (named string.val) = xs.length) (counted : xs.length < 2 ^ 31) :
      Edit (.deleteItemFromObject object.addr string) object 0 none (withChild object (xs ++ ys)) 0
  | removeMemberNone {object : Item D} {string : Text}
      (absent : object.child.find? (named string.val) = none)
      (counted : object.child.length < 2 ^ 31) :
      Edit (.deleteItemFromObject object.addr string) object 0 none object 0
  | replace {array c : Item D} (newitem : Item D) {which : Int} {xs ys : List (Item D)}
      (children : array.child = xs ++ c :: ys) (place : xs.length = which.toNat) :
      Edit (.replaceItemInArray array.addr which newitem.addr) array {newitem} none
        (withChild array (xs ++ newitem :: ys)) 0
  | replaceNone {array : Item D} (newitem : Item D) {which : Int}
      (behind : array.child.length ≤ which.toNat) :
      Edit (.replaceItemInArray array.addr which newitem.addr) array {newitem} none array {newitem}
  | replaceMember {object c newitem : Item D} {string : Text} {name : Name} {xs ys : List (Item D)}
      (children : object.child = xs ++ c :: ys)
      (found : object.child.find? (named string.val) = some c)
      (place : object.child.findIdx (named string.val) = xs.length) (counted : xs.length < 2 ^ 31)
      (unnamed : newitem.type &&& cJsonStringIsConst = 0) (nameless : newitem.string = .null)
      (copied : Copied generous string name) :
      Edit (.replaceItemInObject object.addr string newitem.addr) object {newitem} none
        (withChild object (xs ++ rename newitem name :: ys)) 0
  | replaceMemberNone {object : Item D} (newitem : Item D) {string : Text}
      (absent : object.child.find? (named string.val) = none)
      (counted : object.child.length < 2 ^ 31) :
      Edit (.replaceItemInObject object.addr string newitem.addr) object {newitem} none object {newitem}

variable [Double D]

/-- The items that are created without a string. -/
inductive Creates : Command D → BitVec 32 → Int → D → Prop where
  | null : Creates .createNull cJsonNull 0 (Double.ofInt 0)
  | true : Creates .createTrue cJsonTrue 0 (Double.ofInt 0)
  | false : Creates .createFalse cJsonFalse 0 (Double.ofInt 0)
  | bool (b : Int) : Creates (.createBool b) (if b ≠ 0 then cJsonTrue else cJsonFalse) 0 (Double.ofInt 0)
  | number (num : D) : Creates (.createNumber num) cJsonNumber (Double.toInt num) num
  | array : Creates .createArray cJsonArray 0 (Double.ofInt 0)
  | object : Creates .createObject cJsonObject 0 (Double.ofInt 0)

/-- What a command does to the trees a program holds, and what it returns. -/
inductive Step : Command D → Pool D → Option Nat → Pool D → Prop where
  | create {command : Command D} {type : BitVec 32} {valueint : Int} {valuedouble : D}
      (creates : Creates command type valueint valuedouble) (pool : Pool D) (addr : Nat) :
      Step command pool (some addr) (made addr type valueint valuedouble .null ::ₘ pool)
  | refused {command : Command D} {type : BitVec 32} {valueint : Int} {valuedouble : D}
      (creates : Creates command type valueint valuedouble) (pool : Pool D) (denied : ¬ generous) :
      Step command pool none pool
  | createString {string : Text} {valuestring : Name} (pool : Pool D) (addr : Nat)
      (copied : Copied generous string valuestring) : Step (.createString string) pool (some addr)
        (made addr cJsonString 0 (Double.ofInt 0) valuestring ::ₘ pool)
  | refusedString (string : Text) (pool : Pool D) (denied : ¬ generous) :
      Step (.createString string) pool none pool
  | edit (outer : List (Frame D)) {command : Command D} {array array' : Item D}
      {taken released others : Pool D} {result : Option Nat}
      (edit : Edit generous command array taken result array' released) :
      Step command (plug outer array ::ₘ (taken + others)) result
        (plug outer array' ::ₘ (released + others))
  | addNothing (object : Nat) (string : Text) (pool : Pool D) :
      Step (.addItemToObject object string none) pool none pool
  | addNothingCS (object : Nat) (string : Text) (pool : Pool D) :
      Step (.addItemToObjectCS object string none) pool none pool
  | delete (item : Item D) (pool : Pool D) : Step (.delete (some item.addr)) (item ::ₘ pool) none pool
  | deleteNothing (pool : Pool D) : Step (.delete none) pool none pool

end Trees

/-! ## Proper items -/

section Properly

variable {D : Type} {generous : Prop}

theorem Proper.home {item : Item D} (proper : Proper item) : item.foreign = none := by
  obtain ⟨-, home, -⟩ := proper
  exact home

theorem Proper.children {item : Item D} (proper : Proper item) : ∀ child ∈ item.child, Proper child := by
  obtain ⟨-, -, -, -, -, -, children⟩ := proper
  exact children

theorem Proper.readable {item : Item D} (proper : Proper item) : Readable item.string := by
  obtain ⟨-, -, -, -, -, readable, -⟩ := proper
  exact readable

theorem Proper.named {item : Item D} (proper : Proper item) :
    item.type &&& cJsonStringIsConst = 0 → item.string.IsOwn := by
  obtain ⟨-, -, -, named, -⟩ := proper
  exact named

theorem Proper.const {item : Item D} (proper : Proper item) :
    item.type &&& cJsonStringIsConst ≠ 0 → item.string.IsBorrowed := by
  obtain ⟨-, -, -, -, const, -⟩ := proper
  exact const

theorem Proper.sound {item : Item D} (proper : Proper item) : Sound item := by
  induction proper with
  | intro own home valuestring named const readable children inductionHypothesis =>
      exact .intro (fun _ => ⟨valuestring, home⟩) (fun flag => absurd own flag) named const
        inductionHypothesis

theorem proper_withChild {item : Item D} (proper : Proper item) {child : List (Item D)}
    (children : ∀ child' ∈ child, Proper child') : Proper (withChild item child) := by
  obtain ⟨own, home, valuestring, named, const, readable, -⟩ := proper
  exact ⟨own, home, valuestring, named, const, readable, children⟩

theorem copied_own {key : Text} {name : Name} (copied : Copied generous key name) :
    name.IsOwn ∧ Readable name := by
  rcases copied with ⟨rfl, -⟩ | ⟨addr, rfl⟩
  · exact ⟨rfl, Or.inl rfl⟩
  · exact ⟨trivial, Or.inr ⟨key, rfl⟩⟩

theorem proper_rename {item : Item D} (proper : Proper item)
    (unnamed : item.type &&& cJsonStringIsConst = 0) {key : Text} {name : Name}
    (copied : Copied generous key name) : Proper (rename item name) := by
  obtain ⟨own, home, valuestring, -, -, -, children⟩ := proper
  obtain ⟨isOwn, readable⟩ := copied_own copied
  exact ⟨own, home, valuestring, fun _ => isOwn, fun flag => absurd unnamed flag, readable, children⟩

theorem or_const (type : BitVec 32) : (type ||| cJsonStringIsConst) &&& cJsonStringIsConst ≠ 0 := by
  have absorbed : (type ||| cJsonStringIsConst) &&& cJsonStringIsConst = cJsonStringIsConst := by
    ext place
    simp only [BitVec.getElem_and, BitVec.getElem_or, Bool.and_or_distrib_right, Bool.and_self]
    cases cJsonStringIsConst[place] <;> simp
  rw [absorbed]
  decide

theorem or_reference (type : BitVec 32) :
    (type ||| cJsonStringIsConst) &&& cJsonIsReference = type &&& cJsonIsReference := by
  rw [BitVec.and_or_distrib_right,
    show cJsonStringIsConst &&& cJsonIsReference = 0#32 by decide, BitVec.or_zero]

theorem proper_renameConst {item : Item D} (proper : Proper item) (key : Text) :
    Proper (renameConst item (.static key)) := by
  obtain ⟨own, home, valuestring, -, -, -, children⟩ := proper
  refine ⟨?_, home, valuestring, fun flag => absurd flag (or_const item.type), fun _ => trivial,
    Or.inr ⟨key, rfl⟩, children⟩
  exact (or_reference item.type).trans own

theorem proper_around {xs ys : List (Item D)} {c : Item D} (proper : ∀ child ∈ xs ++ c :: ys, Proper child) :
    (∀ child ∈ xs, Proper child) ∧ Proper c ∧ ∀ child ∈ ys, Proper child := by
  rw [List.forall_mem_append, List.forall_mem_cons] at proper
  exact proper

theorem proper_place {xs ys : List (Item D)} {c : Item D} (front : ∀ child ∈ xs, Proper child)
    (proper : Proper c) (behind : ∀ child ∈ ys, Proper child) :
    ∀ child ∈ xs ++ c :: ys, Proper child := by
  rw [List.forall_mem_append, List.forall_mem_cons]
  exact ⟨front, proper, behind⟩

theorem proper_zero : ∀ item ∈ (0 : Pool D), Proper item :=
  fun _ member => absurd member (Multiset.notMem_zero _)

theorem Edit.proper {command : Command D} {array array' : Item D} {taken released : Pool D}
    {result : Option Nat} (edit : Edit generous command array taken result array' released)
    (proper : Proper array) (given : ∀ item ∈ taken, Proper item) :
    Proper array' ∧ ∀ item ∈ released, Proper item := by
  have placed : ∀ {xs ys : List (Item D)} {c c' : Item D}, array.child = xs ++ c :: ys → Proper c' →
      Proper (withChild array (xs ++ c' :: ys)) := by
    intro xs ys c c' children replaced
    obtain ⟨front, -, behind⟩ := proper_around (children ▸ proper.children)
    exact proper_withChild proper (proper_place front replaced behind)
  have appended : ∀ {item : Item D}, Proper item → Proper (withChild array (array.child ++ [item])) :=
    fun added => proper_withChild proper
      (List.forall_mem_append.mpr ⟨proper.children, List.forall_mem_singleton.mpr added⟩)
  have removed : ∀ {xs ys : List (Item D)} {c : Item D}, array.child = xs ++ c :: ys →
      Proper (withChild array (xs ++ ys)) ∧ Proper c := by
    intro xs ys c children
    obtain ⟨front, taken, behind⟩ := proper_around (children ▸ proper.children)
    exact ⟨proper_withChild proper (List.forall_mem_append.mpr ⟨front, behind⟩), taken⟩
  have one : ∀ {item : Item D}, Proper item → ∀ item' ∈ ({item} : Pool D), Proper item' :=
    fun holds item' member => Multiset.mem_singleton.mp member ▸ holds
  have only : ∀ item, taken = {item} → Proper item :=
    fun item same => given item (same ▸ Multiset.mem_singleton_self item)
  cases edit with
  | get | getMember | addNothing | detachNone | removeNone | detachMemberNone | removeMemberNone =>
      exact ⟨proper, proper_zero⟩
  | replaceNone | replaceMemberNone => exact ⟨proper, given⟩
  | add array item => exact ⟨appended (only _ rfl), proper_zero⟩
  | addMember object item unnamed copied =>
      exact ⟨appended (proper_rename (only _ rfl) unnamed copied), proper_zero⟩
  | addMemberCS object item string => exact ⟨appended (proper_renameConst (only _ rfl) string), proper_zero⟩
  | insert newitem children place =>
      obtain ⟨front, c, behind⟩ := proper_around (children ▸ proper.children)
      exact ⟨proper_withChild proper (proper_place front (only _ rfl)
        (List.forall_mem_cons.mpr ⟨c, behind⟩)), proper_zero⟩
  | insertLast newitem behind => exact ⟨appended (only _ rfl), proper_zero⟩
  | detach children place | detachMember children found place counted =>
      exact ⟨(removed children).1, one (removed children).2⟩
  | remove children place | removeMember children found place counted =>
      exact ⟨(removed children).1, proper_zero⟩
  | replace newitem children place => exact ⟨placed children (only _ rfl), proper_zero⟩
  | replaceMember children found place counted unnamed nameless copied =>
      exact ⟨placed children (proper_rename (only _ rfl) unnamed copied), proper_zero⟩

/-- An item in a tree may be replaced by another one that is proper. -/
theorem proper_plug {outer : List (Frame D)} {item : Item D} (proper : Proper (plug outer item)) :
    Proper item ∧ ∀ item', Proper item' → Proper (plug outer item') := by
  induction outer generalizing item with
  | nil => exact ⟨proper, fun _ proper' => proper'⟩
  | cons frame outer inductionHypothesis =>
      obtain ⟨holder, rebuild⟩ := inductionHypothesis proper
      obtain ⟨front, inner, behind⟩ := proper_around holder.children
      refine ⟨inner, fun item' proper' => rebuild _ ?_⟩
      exact proper_withChild holder (proper_place front proper' behind)

/-- The cells of a tree are those of an item in it and those around it. -/
theorem cells_plug (outer : List (Frame D)) (addr : Nat) (prev next : Option Nat) :
    ∃ prev' next' around, ∀ item : Item D, item.addr = addr →
      (plug outer item).cells prev next = item.cells prev' next' + around := by
  induction outer generalizing addr with
  | nil => exact ⟨prev, next, 0, fun item _ => (add_zero _).symm⟩
  | cons frame outer inductionHypothesis =>
      obtain ⟨prev', next', around, cells⟩ := inductionHypothesis frame.holder.addr
      refine ⟨last none frame.before, first frame.after none, headCell frame.holder prev' next'
        (first frame.before (some addr)) + chain none (some addr) frame.before +
          chain (some addr) none frame.after + strings frame.holder + around, ?_⟩
      rintro item rfl
      rw [plug, cells (withChild frame.holder (frame.before ++ item :: frame.after)) rfl,
        cells_around frame.own]
      ac_rfl

end Properly

/-! ## What the commands do to memory -/

section Executing

variable {D : Type} [Double D] {generous : Prop}

omit [Double D] in
theorem triple_without {program : Mem (Block D) Unit} {before : Cells (Block D)}
    {post : Cells (Block D) → Prop} (triple : Triple generous before program fun _ => post) :
    Triple generous before (without program) fun result after => result = none ∧ post after := by
  refine triple.bind (add_zero before).symm ?_
  rintro _ after holds
  rw [add_zero]
  exact triple_pure ⟨rfl, holds⟩

omit [Double D] in
/-- An item that has been taken out is deleted. -/
theorem triple_deleteDetached {program : Mem (Block D) (Option Nat)} {before after : Cells (Block D)}
    {c : Item D} (sound : Sound c) (triple : Triple generous before program
      fun result left => result = some c.addr ∧ left = after + c.cells none none) :
    Triple generous before (do delete (← program)) fun _ left => left = after := by
  refine triple.bind (add_zero before).symm ?_
  rintro _ _ ⟨rfl, rfl⟩
  refine (triple_delete none sound).within (show _ = _ + after by
    rw [add_zero, add_comm]) ?_
  rintro _ _ rfl
  exact zero_add after

omit [Double D] in
theorem triple_deleteNull (before : Cells (Block D)) :
    Triple generous before (delete none) fun _ after => after = before := by
  refine triple_overBlocks fun fuel enough => ?_
  cases fuel with
  | zero => exact absurd enough (Nat.not_lt_zero _)
  | succ fuel => exact triple_pure rfl

omit [Double D] in
theorem triple_deleteNone {program : Mem (Block D) (Option Nat)} {before after : Cells (Block D)}
    (triple : Triple generous before program fun result left => result = none ∧ left = after) :
    Triple generous before (do delete (← program)) fun _ left => left = after := by
  refine triple.bind (add_zero before).symm ?_
  rintro _ _ ⟨rfl, rfl⟩
  rw [add_zero]
  exact triple_deleteNull _

omit [Double D] in
theorem triple_beside {program : Mem (Block D) Unit} {before : Cells (Block D)}
    (kept : Triple generous before program fun _ after => after = before) (rest : Cells (Block D)) :
    Triple generous (before + rest) program fun _ after => after = before + rest := by
  refine kept.within rfl ?_
  rintro _ _ rfl
  rfl

/-- A call on an item of a tree does what it does to the tree. -/
theorem triple_edit {command : Command D} {array array' : Item D} {taken released : Pool D}
    {result : Option Nat} (edit : Edit generous command array taken result array' released)
    (proper : Proper array) (given : ∀ item ∈ taken, Proper item) (prev next : Option Nat) :
    Triple generous (array.cells prev next + cellsOf taken) (exec command) fun result after =>
      ∃ array' released, Edit generous command array taken result array' released ∧
        array'.addr = array.addr ∧ after = array'.cells prev next + cellsOf released := by
  have readable : ∀ child ∈ array.child, Readable child.string :=
    fun child member => (proper.children child member).readable
  have own := proper.home
  have only : ∀ item, taken = {item} → Proper item :=
    fun item same => given item (same ▸ Multiset.mem_singleton_self item)
  have alone : ∀ cells : Cells (Block D), cells = cells + cellsOf (0 : Pool D) :=
    fun cells => (add_zero cells).symm
  cases edit with
  | get array item =>
      rw [cellsOf_zero, add_zero]
      refine (triple_getArrayItem own item prev next).weaken ?_
      rintro _ _ ⟨rfl, rfl⟩
      exact ⟨_, 0, .get array item, rfl, alone _⟩
  | getMember object string =>
      rw [cellsOf_zero, add_zero]
      refine (triple_getObjectItem own readable string prev next).weaken ?_
      rintro _ _ ⟨rfl, rfl⟩
      exact ⟨_, 0, .getMember array string, rfl, alone _⟩
  | addNothing array =>
      rw [cellsOf_zero, add_zero]
      refine (triple_without ((triple_childOf array prev next).ask (alone _)
        fun _ _ => triple_pure rfl)).weaken ?_
      rintro _ _ ⟨rfl, rfl⟩
      exact ⟨_, 0, .addNothing array, rfl, alone _⟩
  | add array item =>
      rw [cellsOf_singleton]
      refine (triple_without (triple_addItemToArray own item prev next)).weaken ?_
      rintro _ _ ⟨rfl, rfl⟩
      exact ⟨_, 0, .add array item, rfl, alone _⟩
  | addMember object item unnamed copied =>
      rw [cellsOf_singleton]
      refine (triple_without (triple_addItemToObject own ((only item rfl).named unnamed) _ prev
        next)).weaken ?_
      rintro _ _ ⟨rfl, name, copied', rfl⟩
      exact ⟨_, 0, .addMember array item unnamed copied', rfl, alone _⟩
  | addMemberCS object item string =>
      rw [cellsOf_singleton]
      refine (triple_without (triple_addItemToObjectCS own (only item rfl).named (only item rfl).const
        (.static string) prev next)).weaken ?_
      rintro _ _ ⟨rfl, rfl⟩
      exact ⟨_, 0, .addMemberCS array item string, rfl, alone _⟩
  | insert newitem children place =>
      rw [cellsOf_singleton]
      refine (triple_without (triple_insertItemInArray own children place newitem prev next)).weaken ?_
      rintro _ _ ⟨rfl, rfl⟩
      exact ⟨_, 0, .insert newitem children place, rfl, alone _⟩
  | insertLast newitem behind =>
      rw [cellsOf_singleton]
      refine (triple_without (triple_insertItemInArray_none own behind newitem prev next)).weaken ?_
      rintro _ _ ⟨rfl, rfl⟩
      exact ⟨_, 0, .insertLast newitem behind, rfl, alone _⟩
  | @detach _ c which xs ys children place =>
      rw [cellsOf_zero, add_zero]
      refine (triple_detachItemFromArray own children place prev next).weaken ?_
      rintro _ _ ⟨rfl, rfl⟩
      refine ⟨_, {c}, .detach children place, rfl, ?_⟩
      rw [cellsOf_singleton]
  | detachNone behind =>
      rw [cellsOf_zero, add_zero]
      refine (triple_detachItemFromArray_none own behind prev next).weaken ?_
      rintro _ _ ⟨rfl, rfl⟩
      exact ⟨_, 0, .detachNone behind, rfl, alone _⟩
  | remove children place =>
      rw [cellsOf_zero, add_zero]
      have sound := (proper_around (children ▸ proper.children)).2.1.sound
      refine (triple_without (triple_deleteDetached sound
        (triple_detachItemFromArray own children place prev next))).weaken ?_
      rintro _ _ ⟨rfl, rfl⟩
      exact ⟨_, 0, .remove children place, rfl, alone _⟩
  | removeNone behind =>
      rw [cellsOf_zero, add_zero]
      refine (triple_without (triple_deleteNone
        (triple_detachItemFromArray_none own behind prev next))).weaken ?_
      rintro _ _ ⟨rfl, rfl⟩
      exact ⟨_, 0, .removeNone behind, rfl, alone _⟩
  | @detachMember _ c string xs ys children found place counted =>
      rw [cellsOf_zero, add_zero]
      refine (triple_detachItemFromObject own readable children found place counted prev
        next).weaken ?_
      rintro _ _ ⟨rfl, rfl⟩
      refine ⟨_, {c}, .detachMember children found place counted, rfl, ?_⟩
      rw [cellsOf_singleton]
  | detachMemberNone absent counted =>
      rw [cellsOf_zero, add_zero]
      refine (triple_detachItemFromObject_none own readable absent counted prev next).weaken ?_
      rintro _ _ ⟨rfl, rfl⟩
      exact ⟨_, 0, .detachMemberNone absent counted, rfl, alone _⟩
  | removeMember children found place counted =>
      rw [cellsOf_zero, add_zero]
      have sound := (proper_around (children ▸ proper.children)).2.1.sound
      refine (triple_without (triple_deleteDetached sound
        (triple_detachItemFromObject own readable children found place counted prev next))).weaken ?_
      rintro _ _ ⟨rfl, rfl⟩
      exact ⟨_, 0, .removeMember children found place counted, rfl, alone _⟩
  | removeMemberNone absent counted =>
      rw [cellsOf_zero, add_zero]
      refine (triple_without (triple_deleteNone
        (triple_detachItemFromObject_none own readable absent counted prev next))).weaken ?_
      rintro _ _ ⟨rfl, rfl⟩
      exact ⟨_, 0, .removeMemberNone absent counted, rfl, alone _⟩
  | replace newitem children place =>
      rw [cellsOf_singleton]
      have sound := (proper_around (children ▸ proper.children)).2.1.sound
      refine (triple_without (triple_replaceItemInArray own children sound place newitem prev
        next)).weaken ?_
      rintro _ _ ⟨rfl, rfl⟩
      exact ⟨_, 0, .replace newitem children place, rfl, alone _⟩
  | replaceNone newitem behind =>
      refine (triple_without (triple_beside
        (triple_replaceItemInArray_none own behind newitem.addr prev next) _)).weaken ?_
      rintro _ _ ⟨rfl, rfl⟩
      exact ⟨_, {newitem}, .replaceNone newitem behind, rfl, rfl⟩
  | replaceMember children found place counted unnamed nameless copied =>
      rw [cellsOf_singleton]
      have sound := (proper_around (children ▸ proper.children)).2.1.sound
      refine (triple_without (triple_replaceItemInObject own readable children found place counted sound
        nameless prev next)).weaken ?_
      rintro _ _ ⟨rfl, name, copied', rfl⟩
      exact ⟨_, 0, .replaceMember children found place counted unnamed nameless copied', rfl, alone _⟩
  | replaceMemberNone newitem absent counted =>
      refine (triple_without (triple_beside
        (triple_replaceItemInObject_none own readable absent counted newitem.addr prev next)
          _)).weaken ?_
      rintro _ _ ⟨rfl, rfl⟩
      exact ⟨_, {newitem}, .replaceMemberNone newitem absent counted, rfl, rfl⟩

omit [Double D] in
theorem cells_made (addr : Nat) (type : BitVec 32) (valueint : Int) (valuedouble : D)
    (valuestring : Name) : (made addr type valueint valuedouble valuestring).cells none none =
      {(addr, .node ((made addr type valueint valuedouble valuestring).node none none))} +
        valuestring.cells D := by
  rw [Item.cells_eq, Item.own]
  show _ + (valuestring.cells D + 0 + chain none none []) = _
  rw [chain_nil, add_zero, add_zero]
  rfl

omit [Double D] in
theorem proper_made {type : BitVec 32} (own : type &&& cJsonIsReference = 0)
    (unnamed : type &&& cJsonStringIsConst = 0) {valuestring : Name} (isOwn : valuestring.IsOwn)
    (addr : Nat) (valueint : Int) (valuedouble : D) :
    Proper (made addr type valueint valuedouble valuestring) :=
  ⟨own, rfl, isOwn, fun _ => rfl, fun flag => absurd unnamed flag, Or.inl rfl, List.forall_mem_nil _⟩

theorem triple_create {type : BitVec 32} {valueint : Int} {valuedouble : D} {change : Node D → Node D}
    (node : ∀ addr, change Node.zero =
      (made addr type valueint valuedouble .null).node none none) :
    Triple generous 0 (create change) fun result after =>
      Given generous result after fun addr => (made addr type valueint valuedouble .null).cells none none := by
  refine triple_newItem.bind (zero_add _).symm ?_
  rintro _ _ (⟨rfl, refused, rfl⟩ | ⟨addr, rfl, rfl⟩)
  · exact triple_pure (Or.inl ⟨rfl, refused, add_zero _⟩)
  · refine (triple_setNode addr Node.zero change).bind rfl ?_
    rintro _ _ rfl
    refine triple_pure (Or.inr ⟨addr, rfl, ?_⟩)
    dsimp only
    rw [cells_made, node addr]
    rfl

theorem triple_creates {command : Command D} {type : BitVec 32} {valueint : Int} {valuedouble : D}
    (creates : Creates command type valueint valuedouble) :
    Triple generous 0 (exec command) fun result after => Given generous result after
      fun addr => (made addr type valueint valuedouble .null).cells none none := by
  cases creates with
  | null | true | false | bool | number | array | object => exact triple_create fun _ => rfl

theorem creates_plain {command : Command D} {type : BitVec 32} {valueint : Int} {valuedouble : D}
    (creates : Creates command type valueint valuedouble) :
    type &&& cJsonIsReference = 0 ∧ type &&& cJsonStringIsConst = 0 := by
  cases creates with
  | bool b => split <;> decide
  | null | true | false | number | array | object => decide

theorem triple_createString (string : Text) :
    Triple generous 0 (createString (D := D) (.static string)) fun result after =>
      (result = none ∧ ¬ generous ∧ after = 0) ∨ ∃ addr valuestring, result = some addr ∧
        Copied generous string valuestring ∧
          after = (made addr cJsonString 0 (Double.ofInt 0 : D) valuestring).cells none none := by
  refine triple_newItem.bind (zero_add _).symm ?_
  rintro _ _ (⟨rfl, refused, rfl⟩ | ⟨addr, rfl, rfl⟩)
  · exact triple_pure (Or.inl ⟨rfl, refused, add_zero _⟩)
  · refine (triple_setNode addr Node.zero _).bind rfl ?_
    rintro _ _ rfl
    rw [add_zero]
    refine (triple_copyText string).bind (zero_add _).symm ?_
    rintro _ _ ⟨valuestring, copied, pointer, rfl⟩
    rw [pointer]
    refine (triple_setNode addr _ _).bind (add_comm _ _) ?_
    rintro _ _ rfl
    refine triple_pure (Or.inr ⟨addr, valuestring, rfl, copied, ?_⟩)
    rw [cells_made]
    rfl

omit [Double D] in
theorem proper_cons {item : Item D} {pool : Pool D} (proper : Proper item)
    (others : ∀ item ∈ pool, Proper item) : ∀ item' ∈ item ::ₘ pool, Proper item' :=
  Multiset.forall_mem_cons.mpr ⟨proper, others⟩

/-- A command that is right about the trees does to memory what it does to
them. -/
theorem triple_exec {command : Command D} {pool pool' : Pool D} {result : Option Nat}
    (step : Step generous command pool result pool') (proper : ∀ item ∈ pool, Proper item) :
    Triple generous (cellsOf pool) (exec command) fun result after => ∃ pool',
      Step generous command pool result pool' ∧ (∀ item ∈ pool', Proper item) ∧
        after = cellsOf pool' := by
  have creating : ∀ {type : BitVec 32} {valueint : Int} {valuedouble : D},
      Creates command type valueint valuedouble → Triple generous (cellsOf pool) (exec command)
        fun result after => ∃ pool', Step generous command pool result pool' ∧
          (∀ item ∈ pool', Proper item) ∧ after = cellsOf pool' := by
    intro type valueint valuedouble creates
    refine (triple_creates creates).within (zero_add _).symm ?_
    rintro _ _ (⟨rfl, refused, rfl⟩ | ⟨addr, rfl, rfl⟩)
    · exact ⟨pool, .refused creates pool refused, proper, zero_add _⟩
    · obtain ⟨own, unnamed⟩ := creates_plain creates
      refine ⟨_, .create creates pool addr, proper_cons
        (proper_made own unnamed (show Name.null.IsOwn from rfl) _ _ _) proper, ?_⟩
      rw [cellsOf_cons]
  have creatingString : ∀ text, command = .createString text → Triple generous (cellsOf pool) (exec command)
      fun result after => ∃ pool', Step generous command pool result pool' ∧
        (∀ item ∈ pool', Proper item) ∧ after = cellsOf pool' := by
    rintro text rfl
    refine (triple_createString text).within (zero_add _).symm ?_
    rintro _ _ (⟨rfl, refused, rfl⟩ | ⟨addr, valuestring, rfl, copied, rfl⟩)
    · exact ⟨pool, .refusedString text pool refused, proper, zero_add _⟩
    · refine ⟨_, .createString pool addr copied, proper_cons (proper_made (by decide) (by decide)
        (copied_own copied).1 _ _ _) proper, ?_⟩
      rw [cellsOf_cons]
  cases step with
  | create creates pool addr => exact creating creates
  | refused creates pool denied => exact creating creates
  | createString pool addr copied => exact creatingString _ rfl
  | refusedString text pool denied => exact creatingString _ rfl
  | @edit outer _ array _ taken _ others _ edit =>
      rw [Multiset.forall_mem_cons] at proper
      obtain ⟨tree, beside⟩ := proper
      obtain ⟨inner, rebuild⟩ := proper_plug tree
      have given : ∀ item ∈ taken, Proper item :=
        fun item member => beside item (Multiset.mem_add.mpr (Or.inl member))
      obtain ⟨prev, next, around, cells⟩ := cells_plug outer array.addr none none
      refine (triple_edit edit inner given prev next).within (show _ = _ + (around + cellsOf others) from ?_) ?_
      · rw [cellsOf_cons, cellsOf_add, cells array rfl]
        ac_rfl
      · rintro result after ⟨array', released, edit', same, rfl⟩
        obtain ⟨changed, left⟩ := edit'.proper inner given
        refine ⟨_, .edit outer edit', proper_cons (rebuild array' changed) ?_, ?_⟩
        · intro item member
          rcases Multiset.mem_add.mp member with member | member
          · exact left item member
          · exact beside item (Multiset.mem_add.mpr (Or.inr member))
        · rw [cellsOf_cons, cellsOf_add, cells array' same]
          ac_rfl
  | addNothing object string pool =>
      exact triple_pure ⟨pool, .addNothing object string pool, proper, rfl⟩
  | addNothingCS object string pool =>
      exact triple_pure ⟨pool, .addNothingCS object string pool, proper, rfl⟩
  | delete item =>
      rw [Multiset.forall_mem_cons] at proper
      rw [cellsOf_cons]
      have gone : Triple generous (item.cells none none + cellsOf pool') (delete (some item.addr))
          fun _ after => after = cellsOf pool' := by
        refine (triple_delete none proper.1.sound).within rfl ?_
        rintro _ _ rfl
        exact zero_add _
      refine (triple_without gone).weaken ?_
      rintro _ _ ⟨rfl, rfl⟩
      exact ⟨pool', .delete item pool', proper.2, rfl⟩
  | deleteNothing =>
      refine (triple_without (triple_deleteNull _)).weaken ?_
      rintro _ _ ⟨rfl, rfl⟩
      exact ⟨_, .deleteNothing _, proper, rfl⟩

end Executing

/-! ## Programs -/

section Programs

variable {D : Type} [Double D]

/-- A program chooses its next call by what the calls so far have returned. -/
abbrev Client (D : Type) := List (Option Nat) → Option (Command D)

/-- The results of so many calls, unless the program ends before. -/
def run (client : Client D) : Nat → List (Option Nat) → Mem (Block D) (List (Option Nat))
  | 0, results => return results
  | calls + 1, results =>
      match client results with
      | none => return results
      | some command => do run client calls (results ++ [← exec command])

variable (generous : Prop) (client : Client D)

/-- The trees a program may have after so many calls.  The allocator gives no
address that is in use, so what is created is apart from all that is there. -/
inductive Reaches : List (Option Nat) → Pool D → Prop where
  | start : Reaches [] 0
  | call {results : List (Option Nat)} {pool pool' : Pool D} {command : Command D} {result : Option Nat}
      (reached : Reaches results pool) (calls : client results = some command)
      (step : Step generous command pool result pool') (fresh : Distinct (cellsOf pool')) :
      Reaches (results ++ [result]) pool'

/-- Whatever a program has reached, its next call can be made on its trees. -/
def Careful : Prop :=
  ∀ results pool command, Reaches generous client results pool → client results = some command →
    ∃ result pool', Step generous command pool result pool'

variable {generous client}

theorem triple_run (careful : Careful generous client) (calls : Nat) {results : List (Option Nat)}
    {pool : Pool D} (reached : Reaches generous client results pool)
    (proper : ∀ item ∈ pool, Proper item) :
    Triple generous (cellsOf pool) (run client calls results) fun results after =>
      ∃ pool, Reaches generous client results pool ∧ after = cellsOf pool := by
  induction calls generalizing results pool with
  | zero => exact triple_pure ⟨pool, reached, rfl⟩
  | succ calls inductionHypothesis =>
      rw [run]
      cases next : client results with
      | none => exact triple_pure ⟨pool, reached, rfl⟩
      | some command =>
          obtain ⟨_, _, step⟩ := careful results pool command reached next
          refine (triple_exec step proper).distinct.bind (add_zero _).symm ?_
          rintro result _ ⟨⟨pool', step', proper', rfl⟩, fresh⟩
          rw [add_zero]
          exact inductionHypothesis (.call reached next step' fresh) proper'

/-- A program that is right about its trees is right about memory: from an empty
heap it makes its calls, whichever requests the allocator refuses, and at any
time the heap holds its trees and nothing else. -/
theorem run_holds (grant : Nat → Bool)
    (careful : Careful (∀ request, grant request = true) client) (calls : Nat) :
    ∃ results store pool, run client calls [] (Store.empty grant) = .ok (results, store) ∧
      Reaches (∀ request, grant request = true) client results pool ∧ Holds store (cellsOf pool) := by
  obtain ⟨results, store, after, ran, ⟨pool, reached, rfl⟩, held⟩ :=
    (triple_run careful calls .start proper_zero).run id (holds_empty grant)
  exact ⟨results, store, pool, ran, reached, held⟩

/-! ## A program that replaces a child -/

omit [Double D] in
theorem mem_cells (item : Item D) (prev next : Option Nat) :
    (item.addr, Block.node (item.node prev next)) ∈ item.cells prev next := by
  rw [Item.cells_eq]
  exact Multiset.mem_add.mpr (Or.inl (Multiset.mem_singleton_self _))

omit [Double D] in
/-- The cells of an item in a tree are among those that the root owns. -/
theorem own_plug {outer : List (Frame D)} (inside : outer ≠ []) (item : Item D) :
    ∃ prev next rest, (plug outer item).own = item.cells prev next + rest := by
  induction outer generalizing item with
  | nil => exact absurd rfl inside
  | cons frame outer inductionHypothesis =>
      have held : ∃ prev next rest, (withChild frame.holder (frame.before ++ item :: frame.after)).own =
          item.cells prev next + rest := by
        refine ⟨last none frame.before, first frame.after none, strings frame.holder +
          chain none (some item.addr) frame.before + chain (some item.addr) none frame.after, ?_⟩
        show strings frame.holder + chain none none (frame.before ++ item :: frame.after) = _
        rw [chain_append, chain_cons]
        show _ + (chain none (some item.addr) frame.before + _) = _
        ac_rfl
      obtain ⟨prev, next, rest, own⟩ := held
      by_cases outermost : outer = []
      · subst outermost
        exact ⟨prev, next, rest, own⟩
      · obtain ⟨prev', next', around, owned⟩ := inductionHypothesis outermost
          (withChild frame.holder (frame.before ++ item :: frame.after))
        rw [Item.cells_eq, own] at owned
        refine ⟨prev, next, rest + around +
          {(frame.holder.addr, .node ((withChild frame.holder
            (frame.before ++ item :: frame.after)).node prev' next'))}, ?_⟩
        rw [plug, owned]
        show {(frame.holder.addr, _)} + _ + _ = _
        ac_rfl

omit [Double D] in
/-- An item at the address of a root is that root. -/
theorem plug_root {outer : List (Frame D)} {array root : Item D} {others rest : Pool D}
    (same : plug outer array ::ₘ others = root ::ₘ rest) (distinct : Distinct (cellsOf (root ::ₘ rest)))
    (place : array.addr = root.addr) : outer = [] ∧ array = root ∧ others = rest := by
  have inTree : ∃ value, (root.addr, value) ∈ (plug outer array).cells none none := by
    obtain ⟨prev, next, around, cells⟩ := cells_plug outer array.addr none none
    rw [cells array rfl, ← place]
    exact ⟨_, Multiset.mem_add.mpr (Or.inl (mem_cells array prev next))⟩
  obtain ⟨value, inTree⟩ := inTree
  have tree : plug outer array = root := by
    have member : root ∈ plug outer array ::ₘ others := same ▸ Multiset.mem_cons_self root rest
    rcases Multiset.mem_cons.mp member with equal | beside
    · exact equal.symm
    · obtain ⟨others', rfl⟩ := Multiset.exists_cons_of_mem beside
      rw [← same, cellsOf_cons, cellsOf_cons] at distinct
      exact absurd (Multiset.mem_add.mpr (Or.inl (mem_cells root none none)))
        (distinct.split.2.2 _ _ _ inTree)
  have outermost : outer = [] := by
    by_contra inside
    obtain ⟨prev, next, around, own⟩ := own_plug inside array
    rw [tree] at own
    rw [cellsOf_cons, Item.cells_eq] at distinct
    refine distinct.split.1.split.2.2 root.addr _ (.node (array.node prev next))
      (Multiset.mem_singleton_self _) ?_
    rw [own, ← place]
    exact Multiset.mem_add.mpr (Or.inl (mem_cells array prev next))
  subst outermost
  refine ⟨rfl, tree, ?_⟩
  rw [tree] at same
  exact (Multiset.cons_inj_right root).mp same

/-- The item a call changes, if it changes one. -/
def Command.target : Command D → Option Nat
  | .getArrayItem array _ => some array
  | .getObjectItem object _ => some object
  | .addItemToArray array _ => some array
  | .addItemToObject object _ item => item.map fun _ => object
  | .addItemToObjectCS object _ item => item.map fun _ => object
  | .insertItemInArray array _ _ => some array
  | .detachItemFromArray array _ => some array
  | .deleteItemFromArray array _ => some array
  | .detachItemFromObject object _ => some object
  | .deleteItemFromObject object _ => some object
  | .replaceItemInArray array _ _ => some array
  | .replaceItemInObject object _ _ => some object
  | _ => none

omit [Double D] in
theorem Edit.target {command : Command D} {array array' : Item D} {taken released : Pool D}
    {result : Option Nat} (edit : Edit generous command array taken result array' released) :
    command.target = some array.addr := by
  cases edit <;> rfl

theorem Creates.target {command : Command D} {type : BitVec 32} {valueint : Int} {valuedouble : D}
    (creates : Creates command type valueint valuedouble) : command.target = none := by
  cases creates <;> rfl

/-- A call on a root changes that root. -/
theorem Step.root {command : Command D} {root : Item D} {rest pool' : Pool D} {result : Option Nat}
    (step : Step generous command (root ::ₘ rest) result pool')
    (distinct : Distinct (cellsOf (root ::ₘ rest))) (target : command.target = some root.addr) :
    ∃ taken released others root', rest = taken + others ∧
      Edit generous command root taken result root' released ∧ pool' = root' ::ₘ (released + others) := by
  generalize same : root ::ₘ rest = pool at step
  cases step with
  | create creates | refused creates =>
      rw [creates.target] at target
      cases target
  | createString | refusedString | addNothing | addNothingCS | delete | deleteNothing => cases target
  | edit outer edit =>
      have place := Option.some.inj (edit.target.symm.trans target)
      obtain ⟨rfl, rfl, rfl⟩ := plug_root same.symm distinct place
      exact ⟨_, _, _, _, rfl, edit, rfl⟩

/-- What is created is a new root. -/
theorem Step.created {command : Command D} {type : BitVec 32} {valueint : Int} {valuedouble : D}
    {pool pool' : Pool D} {result : Option Nat} (step : Step generous command pool result pool')
    (creates : Creates command type valueint valuedouble) :
    (result = none ∧ pool' = pool) ∨
      ∃ addr, result = some addr ∧ pool' = made addr type valueint valuedouble .null ::ₘ pool := by
  cases step with
  | create creates' =>
      refine Or.inr ⟨_, rfl, ?_⟩
      cases creates <;> cases creates' <;> rfl
  | refused => exact Or.inl ⟨rfl, rfl⟩
  | createString | refusedString | addNothing | addNothingCS | delete | deleteNothing => cases creates
  | edit outer edit =>
      have target := edit.target
      rw [creates.target] at target
      cases target

theorem Reaches.distinct {results : List (Option Nat)} {pool : Pool D}
    (reached : Reaches generous client results pool) : Distinct (cellsOf pool) := by
  cases reached with
  | start => exact distinct_zero
  | call _ _ _ fresh => exact fresh

theorem letter_nulFree : 0 ∉ lit "a" := by decide

/-- An item of an array is replaced and taken out, gets a name in a second step,
and goes with the array; the program ends when an item is refused. -/
def replacing : Client Rat
  | [] => some .createArray
  | [some _] => some .createNull
  | [some array, some item] => some (.addItemToArray array (some item))
  | [some _, some _, none] => some .createTrue
  | [some array, some _, none, some newitem] => some (.replaceItemInArray array 0 newitem)
  | [some array, some _, none, some _, none] => some (.detachItemFromArray array 0)
  | [some array, some _, none, some _, none, some item] =>
      some (.addItemToObject array ⟨lit "a", letter_nulFree⟩ (some item))
  | [some array, some _, none, some _, none, some _, none] => some (.delete (some array))
  | _ => none

/-- The trees of the program after each of its calls. -/
inductive Stage : List (Option Nat) → Pool Rat → Prop where
  | start : Stage [] 0
  | array {array : Item Rat} {a : Nat} (place : a = array.addr) (empty : array.child = []) :
      Stage [some a] {array}
  | item {array item : Item Rat} {a b : Nat} (place : a = array.addr) (given : b = item.addr)
      (empty : array.child = []) : Stage [some a, some b] (array ::ₘ {item})
  | added {array item : Item Rat} {a b : Nat} (place : a = array.addr) (children : array.child = [item]) :
      Stage [some a, some b, none] {array}
  | newitem {array item newitem : Item Rat} {a b c : Nat} (place : a = array.addr)
      (given : c = newitem.addr) (children : array.child = [item])
      (plain : newitem.type &&& cJsonStringIsConst = 0) :
      Stage [some a, some b, none, some c] (array ::ₘ {newitem})
  | replaced {array newitem : Item Rat} {a b c : Nat} (place : a = array.addr)
      (children : array.child = [newitem]) (plain : newitem.type &&& cJsonStringIsConst = 0) :
      Stage [some a, some b, none, some c, none] {array}
  | detached {array newitem : Item Rat} {a b c d : Nat} (place : a = array.addr) (given : d = newitem.addr)
      (empty : array.child = []) (plain : newitem.type &&& cJsonStringIsConst = 0) :
      Stage [some a, some b, none, some c, none, some d] (array ::ₘ {newitem})
  | named {array : Item Rat} {a b c d : Nat} (place : a = array.addr) :
      Stage [some a, some b, none, some c, none, some d, none] {array}

omit [Double D] in
theorem only_child {xs ys : List (Item D)} {c c' : Item D} (children : [c] = xs ++ c' :: ys) :
    xs = [] ∧ c = c' ∧ ys = [] := by
  cases xs with
  | nil =>
      obtain ⟨rfl, rfl⟩ := List.cons.inj children
      exact ⟨rfl, rfl, rfl⟩
  | cons x xs => simp at children

theorem Stage.step {results : List (Option Nat)} {pool pool' : Pool Rat} {command : Command Rat}
    {result : Option Nat} (stage : Stage results pool) (calls : replacing results = some command)
    (step : Step generous command pool result pool') (distinct : Distinct (cellsOf pool)) :
    Stage (results ++ [result]) pool' ∨ replacing (results ++ [result]) = none := by
  cases stage with
  | start =>
      cases calls
      rcases step.created .array with ⟨rfl, rfl⟩ | ⟨addr, rfl, rfl⟩
      · exact Or.inr rfl
      · exact Or.inl (.array rfl rfl)
  | array place empty =>
      cases calls
      rcases step.created .null with ⟨rfl, rfl⟩ | ⟨addr, rfl, rfl⟩
      · exact Or.inr rfl
      · rw [← Multiset.singleton_add, add_comm, Multiset.singleton_add]
        exact Or.inl (.item place rfl empty)
  | item place given empty =>
      cases calls
      obtain ⟨taken, released, others, array', split, edit, rfl⟩ := step.root distinct (congrArg some place)
      cases edit with
      | add array item =>
          rw [Multiset.singleton_add] at split
          obtain ⟨rfl, rfl⟩ := (Multiset.singleton_eq_cons_iff _).mp split
          rw [add_zero, empty]
          exact Or.inl (.added place rfl)
  | added place children =>
      cases calls
      rcases step.created .true with ⟨rfl, rfl⟩ | ⟨addr, rfl, rfl⟩
      · exact Or.inr rfl
      · rw [← Multiset.singleton_add, add_comm, Multiset.singleton_add]
        exact Or.inl (.newitem place rfl children (creates_plain (.true : Creates (D := Rat) .createTrue _ _ _)).2)
  | newitem place given children plain =>
      cases calls
      obtain ⟨taken, released, others, array', split, edit, rfl⟩ := step.root distinct (congrArg some place)
      cases edit with
      | replace newitem children' front =>
          rw [Multiset.singleton_add] at split
          obtain ⟨rfl, rfl⟩ := (Multiset.singleton_eq_cons_iff _).mp split
          rw [children] at children'
          obtain ⟨rfl, -, rfl⟩ := only_child children'
          rw [add_zero]
          exact Or.inl (.replaced place rfl plain)
      | replaceNone newitem behind =>
          rw [children] at behind
          exact absurd behind (Nat.not_succ_le_zero 0)
  | replaced place children plain =>
      cases calls
      obtain ⟨taken, released, others, array', split, edit, rfl⟩ :=
        (show Step generous _ (_ ::ₘ 0) _ _ from step).root distinct (congrArg some place)
      cases edit with
      | detach children' front =>
          rw [children] at children'
          obtain ⟨rfl, rfl, rfl⟩ := only_child children'
          rw [zero_add] at split
          subst split
          exact Or.inl (.detached place rfl rfl plain)
      | detachNone behind =>
          rw [children] at behind
          exact absurd behind (Nat.not_succ_le_zero 0)
  | detached place given empty plain =>
      cases calls
      obtain ⟨taken, released, others, array', split, edit, rfl⟩ := step.root distinct (congrArg some place)
      cases edit with
      | addMember object item unnamed copied =>
          rw [Multiset.singleton_add] at split
          obtain ⟨rfl, rfl⟩ := (Multiset.singleton_eq_cons_iff _).mp split
          rw [add_zero]
          exact Or.inl (.named place)
  | named place => exact Or.inr rfl

theorem reaches_replacing {results : List (Option Nat)} {pool : Pool Rat}
    (reached : Reaches generous replacing results pool) :
    Stage results pool ∨ replacing results = none := by
  induction reached with
  | start => exact Or.inl .start
  | call reached calls step fresh inductionHypothesis =>
      rcases inductionHypothesis with stage | ended
      · exact stage.step calls step reached.distinct
      · rw [ended] at calls
        cases calls

theorem step_root {command : Command D} {root root' : Item D} {taken released : Pool D}
    {result : Option Nat} (edit : Edit generous command root taken result root' released) :
    Step generous command (root ::ₘ taken) result (root' ::ₘ released) := by
  have step : Step generous command (plug [] root ::ₘ (taken + 0)) result
      (plug [] root' ::ₘ (released + 0)) := .edit [] edit
  rw [add_zero, add_zero] at step
  exact step

theorem careful_replacing (generous : Prop) : Careful generous replacing := by
  intro results pool command reached calls
  rcases reaches_replacing reached with stage | ended
  · cases stage with
    | start =>
        cases calls
        exact ⟨_, _, .create .array 0 0⟩
    | array place empty =>
        cases calls
        exact ⟨_, _, .create .null _ 0⟩
    | item place given empty =>
        cases calls
        subst place given
        exact ⟨_, _, step_root (.add _ _)⟩
    | added place children =>
        cases calls
        exact ⟨_, _, .create .true _ 0⟩
    | newitem place given children plain =>
        cases calls
        subst place given
        have around : _ = [] ++ _ :: [] := children
        exact ⟨_, _, step_root (.replace _ around rfl)⟩
    | replaced place children plain =>
        cases calls
        subst place
        have around : _ = [] ++ _ :: [] := children
        exact ⟨_, _, step_root (.detach around rfl)⟩
    | detached place given empty plain =>
        cases calls
        subst place given
        exact ⟨_, _, step_root (.addMember _ _ plain (Or.inr ⟨0, rfl⟩))⟩
    | named place =>
        cases calls
        subst place
        exact ⟨_, _, .delete _ 0⟩
  · rw [ended] at calls
    cases calls

theorem run_holds_replacing : ∃ results store pool,
    run replacing 8 [] (Store.empty (· < 3)) = .ok (results, store) ∧
      Reaches (∀ request, decide (request < 3) = true) replacing results pool ∧
        Holds store (cellsOf pool) :=
  run_holds _ (careful_replacing _) 8

end Programs

end DistStore.JsonPool

import DistStore.JsonPrint
import DistStore.Lib.CDouble

/-!
# The trees of cJSON and their texts

A node of `cJSON.h` as the tree below it: the constructor is its type, the list
of children is the chain that starts at `child`.  Strings end at their NUL.  The
text of a tree is what its printing is to produce, with the line feeds and tabs
of `cJSON_Print` or without them.
-/

set_option autoImplicit false

namespace DistStore.JsonTree

open CMemory JsonPrint

/-- What a `char *` points at. -/
abbrev Text := { text : Bytes // 0 ∉ text }

/-- A member of an object comes with its `string`. -/
inductive Json (D : Type) where
  | null
  | false
  | true
  | number (valueint : Int) (valuedouble : D)
  | string (valuestring : Text)
  | array (child : List (Json D))
  | object (child : List (Text × Json D))

/-- Over the chains of children. -/
theorem Json.induction {D : Type} {motive : Json D → Prop} (null : motive .null)
    (false : motive .false) (true : motive .true)
    (number : ∀ valueint valuedouble, motive (.number valueint valuedouble))
    (string : ∀ valuestring, motive (.string valuestring))
    (array : ∀ child, (∀ item ∈ child, motive item) → motive (.array child))
    (object : ∀ child, (∀ item ∈ child, motive item.2) → motive (.object child))
    (item : Json D) : motive item :=
  @Json.rec D motive (fun child => ∀ item ∈ child, motive item)
    (fun child => ∀ item ∈ child, motive item.2) (fun item => motive item.2)
    null false true number string array object (List.forall_mem_nil _)
    (fun _ _ first rest => List.forall_mem_cons.mpr ⟨first, rest⟩) (List.forall_mem_nil _)
    (fun _ _ first rest => List.forall_mem_cons.mpr ⟨first, rest⟩) (fun _ _ value => value) item

/-! ## Texts -/

def intMax : Int := 2 ^ 31 - 1

def intMin : Int := -2 ^ 31

def dblEpsilon : Rat := 1 / 2 ^ 52

section Texts

variable {D : Type} [Double D] (fmt : Bool)

def numberText (valueint : Int) (d : D) : Bytes :=
  if Double.eq d (Double.ofInt 0) then lit "0"
  else if Double.le (Double.fabs (Double.sub (Double.ofInt valueint) d)) (Double.const dblEpsilon) &&
      Double.le d (Double.ofInt intMax) && Double.le (Double.ofInt intMin) d then decimal valueint
  else if Double.le (Double.fabs (Double.sub (Double.floor d) d)) (Double.const dblEpsilon) &&
      Double.lt (Double.fabs d) (Double.const (10 ^ 60)) then Double.print .whole d
  else if Double.lt (Double.fabs d) (Double.const (1 / 10 ^ 6)) ||
      Double.lt (Double.const (10 ^ 9)) (Double.fabs d) then Double.print .exponent d
  else Double.print .fixed d

def stringText (text : Text) : Bytes := 34 :: (text.val.flatMap escapeByte ++ [34])

def space : Bytes := if fmt then [32] else []

def newline : Bytes := if fmt then [10] else []

def indent (depth : Nat) : Bytes := if fmt then tabs depth else []

def itemsText : List Bytes → Bytes
  | [] => []
  | [entry] => entry
  | entry :: next :: rest => entry ++ (44 :: (space fmt ++ itemsText (next :: rest)))

def arrayText (entries : List Bytes) : Bytes := 91 :: (itemsText fmt entries ++ [93])

def memberText (depth : Nat) (entry : Bytes × Bytes) : Bytes :=
  indent fmt depth ++ (entry.1 ++ (58 :: (indent fmt 1 ++ entry.2)))

def membersText (depth : Nat) : List (Bytes × Bytes) → Bytes
  | [] => []
  | [entry] => memberText fmt depth entry ++ newline fmt
  | entry :: next :: rest =>
      memberText fmt depth entry ++ (44 :: (newline fmt ++ membersText depth (next :: rest)))

/-- The closing brace of an object without members stands one tab further to
the left. -/
def objectText (depth : Nat) (entries : List (Bytes × Bytes)) : Bytes :=
  123 :: (newline fmt ++ (membersText fmt (depth + 1) entries ++
    (indent fmt (if entries = [] then depth - 1 else depth) ++ [125])))

mutual

def Json.text (depth : Nat) : Json D → Bytes
  | .null => lit "null"
  | .false => lit "false"
  | .true => lit "true"
  | .number valueint valuedouble => numberText valueint valuedouble
  | .string valuestring => stringText valuestring
  | .array child => arrayText fmt (itemTexts (depth + 1) child)
  | .object child => objectText fmt depth (memberTexts (depth + 1) child)

def itemTexts (depth : Nat) : List (Json D) → List Bytes
  | [] => []
  | item :: next => item.text depth :: itemTexts depth next

def memberTexts (depth : Nat) : List (Text × Json D) → List (Bytes × Bytes)
  | [] => []
  | item :: next => memberTextPair depth item :: memberTexts depth next

def memberTextPair (depth : Nat) : Text × Json D → Bytes × Bytes
  | (string, value) => (stringText string, value.text depth)

end

theorem itemTexts_eq_map (depth : Nat) (child : List (Json D)) :
    itemTexts fmt depth child = child.map (Json.text fmt depth) := by
  induction child with
  | nil => rfl
  | cons item next inductionHypothesis => rw [itemTexts, inductionHypothesis, List.map_cons]

theorem memberTexts_eq_map (depth : Nat) (child : List (Text × Json D)) :
    memberTexts fmt depth child =
      child.map fun item => (stringText item.1, item.2.text fmt depth) := by
  induction child with
  | nil => rfl
  | cons item next inductionHypothesis =>
      obtain ⟨string, value⟩ := item
      rw [memberTexts, inductionHypothesis, List.map_cons]
      rfl

end Texts

/-! ## Looking up -/

def tolower (byte : Byte) : Byte := if 65 ≤ byte ∧ byte ≤ 90 then byte + 32 else byte

/-- `cJSON_strcasecmp`: the strings go on up to their NULs. -/
def strcasecmp : Bytes → Bytes → Int
  | [], [] => 0
  | [], byte :: _ => 0 - (tolower byte).toNat
  | byte :: _, [] => (tolower byte).toNat
  | first :: s1, second :: s2 =>
      if tolower first = tolower second then strcasecmp s1 s2
      else (tolower first).toNat - (tolower second).toNat

section Lookup

variable {D : Type}

/-- The chain of children; an item of an array has no `string`. -/
def Json.children : Json D → List (Option Text × Json D)
  | .array child => child.map fun item => (none, item)
  | .object child => child.map fun item => (some item.1, item.2)
  | _ => []

/-- `cJSON_GetArraySize`. -/
def getArraySize (array : Json D) : Nat := array.children.length

/-- `cJSON_GetArrayItem`. -/
def getArrayItem (array : Json D) (item : Int) : Option (Json D) :=
  array.children[item.toNat]?.map Prod.snd

/-- The test of `cJSON_GetObjectItem` for a child. -/
def named (string : Bytes) (child : Option Text × Json D) : Bool :=
  match child.1 with
  | some name => strcasecmp name.val string = 0
  | none => false

/-- `cJSON_GetObjectItem`. -/
def getObjectItem (object : Json D) (string : Bytes) : Option (Json D) :=
  (object.children.find? (named string)).map Prod.snd

end Lookup

end DistStore.JsonTree

import DistStore.JsonRoundTrip
import DistStore.LogMessages

/-!
# The page as JSON

Whatever Redis answers, the page that `read_redis_to_json` writes is the text of
a tree: it is read back, and the tree shows every item as it was served.
-/

set_option autoImplicit false

namespace DistStore.PageJson

open CMemory Program Environment RedisOp DataUse JsonPrint JsonTree JsonParse JsonScalars JsonRoundTrip
open LogMessages

/-! ## Trees that are printed -/

section Trees

variable {D : Type} [Double D]

mutual

/-- A tree that was built by `read_redis_to_json`, without the names of its
nodes. -/
def tree : CJson → Json D
  | .number _ valueint => .number valueint (Double.ofInt valueint)
  | .text _ valuestring => .string (textOf valuestring)
  | .array _ child => .array (treeItems child)
  | .object _ child => .object (treeMembers child)

def treeItems : List CJson → List (Json D)
  | [] => []
  | child :: next => tree child :: treeItems next

def treeMembers : List CJson → List (Text × Json D)
  | [] => []
  | child :: next => (textOf child.string, tree child) :: treeMembers next

end

/-- Strings without NULs and numbers that fit `int`. -/
inductive Plain : CJson → Prop where
  | number (string : Bytes) (valueint : Int) (inRange : IsInt valueint) :
      Plain (.number string valueint)
  | text (string valuestring : Bytes) (nulFree : 0 ∉ valuestring) : Plain (.text string valuestring)
  | array (string : Bytes) (child : List CJson) (items : ∀ item ∈ child, Plain item) :
      Plain (.array string child)
  | object (string : Bytes) (child : List CJson) (names : ∀ item ∈ child, 0 ∉ item.string)
      (items : ∀ item ∈ child, Plain item) : Plain (.object string child)

theorem treeItems_eq_map (child : List CJson) : treeItems (D := D) child = child.map tree := by
  induction child with
  | nil => rfl
  | cons item next inductionHypothesis => rw [treeItems, inductionHypothesis, List.map_cons]

theorem treeMembers_eq_map (child : List CJson) :
    treeMembers (D := D) child = child.map fun item => (textOf item.string, tree item) := by
  induction child with
  | nil => rfl
  | cons item next inductionHypothesis => rw [treeMembers, inductionHypothesis, List.map_cons]

theorem printEntries_eq_map (depth : Nat) (child : List CJson) :
    printEntries depth child = child.map (printValue depth) := by
  induction child with
  | nil => rfl
  | cons item next inductionHypothesis => rw [printEntries, inductionHypothesis, List.map_cons]

theorem printNamed_eq_map (depth : Nat) (child : List CJson) :
    printNamed depth child =
      child.map fun item => (printStringPtr item.string, printValue depth item) := by
  induction child with
  | nil => rfl
  | cons item next inductionHypothesis => rw [printNamed, inductionHypothesis, List.map_cons]

theorem integral_tree {item : CJson} (plain : Plain item) : Integral (tree (D := D) item) := by
  induction plain with
  | number string valueint inRange => exact .number valueint inRange
  | text string valuestring nulFree => exact .string _
  | array string child items inductionHypothesis =>
      rw [tree, treeItems_eq_map]
      exact .array _ (List.forall_mem_map.mpr inductionHypothesis)
  | object string child names items inductionHypothesis =>
      rw [tree, treeMembers_eq_map]
      exact .object _ (List.forall_mem_map.mpr inductionHypothesis)

theorem textOf_nulFree {text : Bytes} (nulFree : 0 ∉ text) : (textOf text).val = text :=
  congrArg Subtype.val (textOf_val ⟨text, nulFree⟩)

theorem printStringPtr_text {text : Bytes} (nulFree : 0 ∉ text) :
    printStringPtr text = stringText (textOf text) := by
  rw [printStringPtr_eq nulFree, stringText, textOf_nulFree nulFree]

theorem printArray_text (entries : List Bytes) : printArray entries = arrayText true entries := by
  have marks : lit "[]" = [91, 93] ∧ lit "[" = [91] ∧ lit "]" = [93] ∧ lit ", " = [44, 32] := by
    decide
  obtain ⟨none, opening, closing, comma⟩ := marks
  unfold printArray arrayText
  cases entries with
  | nil => rw [if_pos rfl, none]; rfl
  | cons entry rest =>
      have inside : [44, 32].intercalate (entry :: rest) = itemsText true (entry :: rest) := by
        induction rest generalizing entry with
        | nil => simp [itemsText]
        | cons next rest inductionHypothesis =>
            rw [List.intercalate_cons_cons, inductionHypothesis, itemsText, List.append_assoc]
            rfl
      rw [if_neg (List.cons_ne_nil _ _), opening, closing, comma, inside]
      rfl

theorem printLines_text (depth : Nat) (entries : List (Bytes × Bytes)) :
    printLines depth entries = membersText true depth entries := by
  have marks : lit ":\t" = [58, 9] ∧ lit "," = [44] ∧ lit "\n" = [10] := by decide
  obtain ⟨colon, comma, lineFeed⟩ := marks
  induction entries with
  | nil => rfl
  | cons entry rest inductionHypothesis =>
      obtain ⟨name, value⟩ := entry
      rw [printLines, inductionHypothesis, colon, comma, lineFeed]
      cases rest with
      | nil =>
          simp only [if_true, membersText, memberText, List.append_assoc, List.cons_append,
            List.nil_append, List.append_nil]
          rfl
      | cons next rest =>
          rw [if_neg (List.cons_ne_nil _ _), membersText, memberText]
          simp only [List.append_assoc, List.cons_append, List.nil_append]
          rfl

theorem printObject_text (depth : Nat) (entries : List (Bytes × Bytes)) :
    printObject depth entries = objectText true depth entries := by
  have marks : lit "\x7b\n" = [123, 10] ∧ lit "\x7d" = [125] := by decide
  unfold printObject objectText
  rw [marks.1, marks.2, printLines_text]
  split
  next none =>
    rw [none]
    rfl
  next =>
    simp only [List.append_assoc, List.cons_append, List.nil_append]
    rfl

variable [ExactDouble D]

/-- What is printed is the text of the tree. -/
theorem printValue_tree {item : CJson} (plain : Plain item) (depth : Nat) :
    printValue depth item = (tree (D := D) item).text true depth := by
  induction plain generalizing depth with
  | number string valueint inRange =>
      rw [printValue, tree, Json.text, numberText_ofInt inRange, printNumber_eq]
  | text string valuestring nulFree =>
      rw [printValue, tree, Json.text, printStringPtr_text nulFree]
  | array string child items inductionHypothesis =>
      have each : child.map (printValue (depth + 1)) =
          (child.map (tree (D := D))).map (Json.text true (depth + 1)) := by
        rw [List.map_map]
        exact List.map_congr_left fun item member => inductionHypothesis item member (depth + 1)
      rw [printValue, tree, Json.text, itemTexts_eq_map, treeItems_eq_map, printEntries_eq_map,
        printArray_text, each]
  | object string child names items inductionHypothesis =>
      have each : (child.map fun item => (printStringPtr item.string, printValue (depth + 1) item)) =
          ((child.map fun item => (textOf item.string, tree (D := D) item)).map fun item =>
            (stringText item.1, item.2.text true (depth + 1))) := by
        rw [List.map_map]
        refine List.map_congr_left fun item member => ?_
        rw [printStringPtr_text (names item member), inductionHypothesis item member (depth + 1)]
        rfl
      rw [printValue, tree, Json.text, memberTexts_eq_map, treeMembers_eq_map, printNamed_eq_map,
        printObject_text, each]

end Trees

/-! ## What the page shows -/

section Shown

variable {D : Type} [Double D]

def shownText (object : Json D) (name : String) : Option Bytes :=
  match getObjectItem object (lit name) with
  | some (.string valuestring) => some valuestring.val
  | _ => none

def shownNumber (object : Json D) (name : String) : Option Int :=
  match getObjectItem object (lit name) with
  | some (.number valueint _) => some valueint
  | _ => none

/-- An element of `games` as a client reads it. -/
def shownItem (object : Json D) : Option Item := do
  let id ← shownText object "id"
  let kind ← shownNumber object "kind"
  let titleM ← shownText object "title_m"
  let titleS ← shownText object "title_s"
  let descrip ← shownText object "descrip"
  let url ← shownText object "url"
  let picurlM ← shownText object "picurl_m"
  let pv ← shownNumber object "pv"
  let hot ← shownNumber object "hot"
  return ⟨id, kind, titleM, titleS, descrip, url, picurlM, pv, hot⟩

def shownItems (root : Json D) : Option (List Item) := do
  let array ← getObjectItem root (lit "games")
  (array.children.map Prod.snd).mapM shownItem

/-- An item whose texts end where their strings do and whose numbers fit
`int`. -/
structure Servable (item : Item) : Prop where
  nulFree : ∀ text ∈ texts item, 0 ∉ text
  kind : IsInt item.kind
  pv : IsInt item.pv
  hot : IsInt item.hot

theorem plain_itemJson {item : Item} (servable : Servable item) : Plain (itemJson item) := by
  obtain ⟨nulFree, kind, pv, hot⟩ := servable
  simp only [texts, List.forall_mem_cons] at nulFree
  obtain ⟨id, titleM, titleS, descrip, url, picurlM, -⟩ := nulFree
  refine .object _ _ ?_ ?_
  · simp only [List.forall_mem_cons, CJson.string]
    decide
  · simp only [List.forall_mem_cons]
    exact ⟨.text _ _ id, .number _ _ kind, .text _ _ titleM, .text _ _ titleS, .text _ _ descrip,
      .text _ _ url, .text _ _ picurlM, .number _ _ pv, .number _ _ hot, List.forall_mem_nil _⟩

theorem plain_rootJson {items : List Item} (servable : ∀ item ∈ items, Servable item) :
    Plain (rootJson items) := by
  refine .object _ _ ?_ ?_
  · simp only [List.forall_mem_cons, CJson.string]
    decide
  · simp only [List.forall_mem_cons]
    exact ⟨.array _ _ (List.forall_mem_map.mpr fun item member =>
      plain_itemJson (servable item member)), List.forall_mem_nil _⟩

omit [Double D] in
theorem getObjectItem_zip {names : List Text} {values : List (Json D)}
    (lengths : names.length = values.length) (string : Bytes) :
    getObjectItem (.object (names.zip values)) string =
      values[names.findIdx fun name => strcasecmp name.val string = 0]? := by
  have members : ∀ child : List (Text × Json D), getObjectItem (.object child) string =
      ((child.map fun item => (some item.1, item.2)).find? (named string)).map Prod.snd :=
    fun _ => rfl
  rw [members]
  induction names generalizing values with
  | nil =>
      cases values with
      | nil => rfl
      | cons value values => cases lengths
  | cons name names inductionHypothesis =>
      cases values with
      | nil => cases lengths
      | cons value values =>
          rw [List.zip_cons_cons, List.map_cons, List.find?_cons, List.findIdx_cons]
          by_cases found : strcasecmp name.val string = 0
          · have here : named string (some name, value) = true := decide_eq_true found
            rw [here, decide_eq_true found]
            rfl
          · have other : named string (some name, value) = false := decide_eq_false found
            rw [other, decide_eq_false found]
            exact inductionHypothesis (Nat.succ.inj lengths)

/-- The names of the members of an item. -/
def itemNames : List Text :=
  ["id", "kind", "title_m", "title_s", "descrip", "url", "picurl_m", "pv", "hot"].map
    fun name => textOf (lit name)

/-- No two names are the same but for their case. -/
theorem itemNames_found :
    (["id", "kind", "title_m", "title_s", "descrip", "url", "picurl_m", "pv", "hot"].map fun string =>
      itemNames.findIdx fun name => strcasecmp name.val (lit string) = 0) = List.range 9 := by
  decide +kernel

theorem shownItem_tree {item : Item} (servable : Servable item) :
    shownItem (tree (D := D) (itemJson item)) = some item := by
  obtain ⟨nulFree, -, -, -⟩ := servable
  simp only [texts, List.forall_mem_cons] at nulFree
  obtain ⟨id, titleM, titleS, descrip, url, picurlM, -⟩ := nulFree
  obtain ⟨values, isValues⟩ : ∃ values : List (Json D), values = [.string (textOf item.id),
    .number item.kind (Double.ofInt item.kind), .string (textOf item.titleM),
    .string (textOf item.titleS), .string (textOf item.descrip), .string (textOf item.url),
    .string (textOf item.picurlM), .number item.pv (Double.ofInt item.pv),
    .number item.hot (Double.ofInt item.hot)] := ⟨_, rfl⟩
  have shape : tree (itemJson item) = .object (itemNames.zip values) := by
    rw [isValues]
    rfl
  have lengths : itemNames.length = values.length := by
    rw [isValues]
    rfl
  have found := itemNames_found
  simp only [List.map_cons, List.map_nil, show List.range 9 = [0, 1, 2, 3, 4, 5, 6, 7, 8] from rfl,
    List.cons.injEq, and_true] at found
  obtain ⟨first, second, third, fourth, fifth, sixth, seventh, eighth, ninth⟩ := found
  rw [shape]
  unfold shownItem shownText shownNumber
  simp only [getObjectItem_zip lengths, first, second, third, fourth, fifth, sixth, seventh, eighth,
    ninth]
  simp only [isValues, List.getElem?_cons_zero, List.getElem?_cons_succ, textOf_nulFree id,
    textOf_nulFree titleM, textOf_nulFree titleS, textOf_nulFree descrip, textOf_nulFree url,
    textOf_nulFree picurlM]
  rfl

omit [Double D] in
theorem mapM_shown {items : List Item} {shown : Json D → Option Item} {object : Item → Json D}
    (each : ∀ item ∈ items, shown (object item) = some item) :
    (items.map object).mapM shown = some items := by
  induction items with
  | nil => rfl
  | cons item items inductionHypothesis =>
      rw [List.forall_mem_cons] at each
      rw [List.map_cons, List.mapM_cons, each.1, inductionHypothesis each.2]
      rfl

theorem shownItems_tree {items : List Item} (servable : ∀ item ∈ items, Servable item) :
    shownItems (tree (D := D) (rootJson items)) = some items := by
  have games : getObjectItem (tree (D := D) (rootJson items)) (lit "games") =
      some (.array (treeItems (items.map itemJson))) := by
    have shape : tree (D := D) (rootJson items) =
        .object ([textOf (lit "games")].zip [.array (treeItems (items.map itemJson))]) := rfl
    have first : ([textOf (lit "games")].findIdx fun name =>
        strcasecmp name.val (lit "games") = 0) = 0 := by decide
    rw [shape, getObjectItem_zip rfl, first]
    rfl
  have elements : ∀ child : List (Json D), (Json.array child).children.map Prod.snd = child := by
    intro child
    rw [Json.children, List.map_map]
    exact List.map_id child
  unfold shownItems
  rw [games, Option.bind_eq_bind, Option.bind_some, elements, treeItems_eq_map, List.map_map]
  exact mapM_shown fun item member => shownItem_tree (servable item member)

end Shown

/-! ## The page -/

/-- What is printed after the header. -/
def page (items : List Item) : Bytes := cJsonPrint (rootJson items) ++ lit "\n"

section Page

variable {env : Env}

theorem readItem_servable (values : Bytes) (i : Nat) (bufs : ItemBufs) :
    (readItem values i bufs).Satisfies env (fun _ => True) fun result => Servable result.1 := by
  refine satisfies_ofC_bind fun fileId _ => satisfies_ofC_bind fun id idAt => ?_
  refine satisfies_ofC_bind fun filename _ => satisfies_ofC_bind fun titleM titleMAt => ?_
  refine satisfies_ofC_bind fun usr _ => satisfies_ofC_bind fun titleS titleSAt => ?_
  refine satisfies_ofC_bind fun createTime _ => satisfies_ofC_bind fun descrip descripAt => ?_
  refine satisfies_ofC_bind fun url _ => satisfies_ofC_bind fun urlText urlAt => ?_
  refine satisfies_ofC_bind fun next _ => satisfies_ofC_bind fun picurlM picurlAt => ?_
  refine (Prog.satisfies_trivial _).bind fun score _ _ => ?_
  refine satisfies_ofC_bind fun pv checked => Prog.satisfies_ret ?_
  obtain ⟨rfl, inRange⟩ := checkInt_eq_ok checked
  refine ⟨?_, by show IsInt 2; decide, inRange, by show IsInt 0; decide⟩
  simp only [texts, List.forall_mem_cons]
  exact ⟨strAt_nulFree idAt, strAt_nulFree titleMAt, strAt_nulFree titleSAt, strAt_nulFree descripAt,
    strAt_nulFree urlAt, strAt_nulFree picurlAt, List.forall_mem_nil _⟩

theorem readItems_servable (values : Option Bytes) (count i : Nat) (bufs : ItemBufs) :
    (readItems values count i bufs).Satisfies env (fun _ => True)
      fun items => ∀ item ∈ items, Servable item := by
  induction count generalizing i bufs with
  | zero => exact Prog.satisfies_ret (List.forall_mem_nil _)
  | succ count inductionHypothesis =>
      refine satisfies_ofC_bind fun memory _ => ?_
      refine (readItem_servable memory i bufs).bind ?_
      rintro ⟨item, next⟩ - servable
      refine (inductionHypothesis (i + 1) next).bind fun items _ rest => Prog.satisfies_ret ?_
      exact List.forall_mem_cons.mpr ⟨servable, rest⟩

theorem readRedisToJson_servable (fromId cnt : Int) :
    (readRedisToJson fromId cnt).Satisfies env (fun _ => True) fun result =>
      ∀ items, result.2 = some items → ∀ item ∈ items, Servable item := by
  refine (Prog.satisfies_trivial _).bind ?_
  rintro ⟨retn, values, valueNum⟩ - -
  dsimp only
  split
  next => exact satisfies_ask_bind trivial (Prog.satisfies_ret nofun)
  next =>
    refine (readItems_servable values _ 0 .cleared).bind fun items _ servable => ?_
    refine satisfies_ask_bind trivial (Prog.satisfies_ret ?_)
    rintro _ ⟨⟩
    exact servable

end Page

section Served

variable {D : Type} [Double D] [ExactDouble D]

/-- The page is read as the items that were served, whatever is in Redis. -/
theorem page_read_back {env : Env} {fromId cnt retn : Int} {items : List Item}
    (returned : (readRedisToJson fromId cnt).outcome env = .returned (retn, some items))
    (small : (page items).length < 2 ^ 31) (after : Bytes) :
    ∃ root : Json D, cJsonParseWithOpts (page items ++ 0 :: after) true = .ok (root, 0 :: after) ∧
      shownItems root = some items := by
  have servable := (readRedisToJson_servable fromId cnt).2 _ returned items rfl
  have plain := plain_rootJson servable
  have printed := printValue_tree (D := D) plain 0
  have lineFeed : lit "\n" = [10] := by decide
  refine ⟨tree (rootJson items), ?_, shownItems_tree servable⟩
  unfold page cJsonPrint at small ⊢
  rw [printed] at small ⊢
  rw [List.length_append] at small
  rw [lineFeed, List.append_assoc]
  refine cJsonParseWithOpts_text (integral_tree plain) (by omega) (delimited_of_mark ?_ _) ?_ true
  · exact Or.inr (Or.inr (Or.inr rfl))
  · exact (skip_blank (by decide) _).trans (if_neg fun blank => blank.1 rfl)

theorem page_read_back_last : ∃ root : Json Rat,
    cJsonParseWithOpts (page [uploadedItem] ++ [0]) true = .ok (root, [0]) ∧
      shownItems root = some [uploadedItem] := by
  have returned : (readRedisToJson (12 : Nat) (1 : Nat)).outcome (scoreServer uploads) =
      .returned (0, some [uploadedItem]) := uploads_returned (by decide) (by decide) (by decide)
  exact page_read_back returned (by decide +kernel) []

end Served

end DistStore.PageJson

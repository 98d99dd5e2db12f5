import DistStore.JsonNodeCompose

/-!
# Printing a tree in memory

Whatever the allocator refuses, a function of the recursion leaves the tree and
either one new block, with the text and its NUL, or nothing.
-/

set_option autoImplicit false

namespace DistStore.JsonNodeText

open CMemory CHeap JsonPrint JsonTree JsonNodes JsonNodePrint JsonNodeCompose

section Values

variable {D : Type} {generous : Prop}

theorem triple_countFrom (items : List (Item D)) (prev : Option Nat) {fuel : Nat}
    (enough : items.length < fuel) :
    Triple generous (chain prev none items) (countFrom fuel (first items none))
      fun result after => result = items.length ∧ after = chain prev none items := by
  induction items generalizing prev fuel with
  | nil =>
      obtain ⟨fuel, rfl⟩ := Nat.exists_eq_add_one_of_ne_zero (Nat.ne_of_gt enough)
      exact triple_pure ⟨rfl, rfl⟩
  | cons item rest inductionHypothesis =>
      obtain ⟨fuel, rfl⟩ := Nat.exists_eq_add_one_of_ne_zero (Nat.ne_of_gt (Nat.zero_lt_of_lt enough))
      rw [chain_cons, item.cells_eq]
      refine (triple_loadNode _ _).ask (add_assoc _ _ _) ?_
      rintro _ rfl
      refine (inductionHypothesis (some item.addr) (Nat.lt_of_succ_lt_succ enough)).ask
        (add_comm _ _) ?_
      rintro _ rfl
      exact triple_pure ⟨rfl, rfl⟩

/-- A text in a block of its own, or nothing when an allocation is refused. -/
def Produces (generous : Prop) (text : Bytes) (entry : Option Printed) : Prop :=
  (entry = none ∧ ¬ generous) ∨ ∃ printed, entry = some printed ∧ printed.text.val = text

/-- What a function that returns such a text leaves. -/
def Returns (generous : Prop) (text : Bytes) (kept : Cells (Block D)) (result : Option Nat)
    (after : Cells (Block D)) : Prop :=
  ∃ entry, Produces generous text entry ∧ result = entry.map Printed.addr ∧
    after = kept + entryCell D entry

theorem returns_none {text : Bytes} {kept : Cells (Block D)} (refused : ¬ generous) :
    Returns generous text kept none kept :=
  ⟨none, Or.inl ⟨rfl, refused⟩, rfl, (add_zero kept).symm⟩

theorem returns_some {text : Bytes} (nulFree : 0 ∉ text) (kept : Cells (Block D)) (addr : Nat)
    (slack : List (Option Byte)) :
    Returns generous text kept (some addr)
      (kept + {(addr, .chars (filled text (some 0 :: slack)))}) :=
  ⟨some ⟨addr, ⟨text, nulFree⟩, slack⟩, Or.inr ⟨_, rfl, rfl⟩, rfl, rfl⟩

/-- A text that is written into a fresh block. -/
theorem triple_writeFresh {text : Bytes} (nulFree : 0 ∉ text) {size : Nat}
    (room : text.length < size) (kept : Cells (Block D)) (addr : Nat) :
    Triple generous ({(addr, .chars (filled [] (List.replicate size none)))} + kept)
      (do
        write addr 0 (text ++ [0])
        return some addr) (Returns generous text kept) := by
  refine (triple_writeNul addr [] text _ rfl (by rwa [List.length_replicate])).bind rfl ?_
  rintro _ _ rfl
  rw [List.nil_append, add_comm]
  exact triple_pure (returns_some nulFree kept addr _)

/-- A `malloc` whose failure is passed on. -/
theorem triple_mallocOr {text : Bytes} {size : Nat} {kept : Cells (Block D)}
    {succeeded : Nat → Mem (Block D) (Option Nat)}
    (continued : ∀ addr, Triple generous
      ({(addr, .chars (filled [] (List.replicate size none)))} + kept) (succeeded addr)
        (Returns generous text kept)) :
    Triple generous kept (do
      match ← malloc size with
      | none => return none
      | some addr => succeeded addr) (Returns generous text kept) := by
  refine (triple_malloc size).bind (zero_add kept).symm ?_
  rintro _ _ (⟨rfl, refused, rfl⟩ | ⟨addr, rfl, rfl⟩)
  · rw [zero_add]
    exact triple_pure (returns_none refused)
  · exact continued addr

theorem triple_printNumber [Double D] [PrintedDouble D] (node : Node D)
    (isInt : IsInt node.valueint) (kept : Cells (Block D)) :
    Triple generous kept (printNumber node)
      (Returns generous (numberText node.valueint node.valuedouble) kept) :=
  triple_mallocOr fun addr => triple_writeFresh (numberText_nulFree _ _)
    (numberText_room isInt _) kept addr

theorem triple_printStringPtr {name : Name} {text : Text} (reads : name.text = some text)
    (small : (stringText text).length + 1 < 2 ^ 31) :
    Triple generous (name.cells D) (printStringPtr name.pointer)
      (Returns generous (stringText text) (name.cells D)) := by
  refine (triple_loadText reads).ask (add_zero _).symm ?_
  rintro _ rfl
  rw [ofC_bind (stringRoom_eq text small), toSize_natCast (by omega)]
  refine triple_mallocOr fun addr => ?_
  refine (triple_writeString addr text [] _ rfl (by rw [List.length_replicate]; exact Nat.lt_succ_self _)
    ).bind rfl ?_
  rintro _ _ ⟨slack, -, rfl⟩
  rw [List.nil_append, add_comm]
  exact triple_pure (returns_some (stringText_nulFree text) _ addr slack)

theorem itemsText_nulFree (fmt : Bool) {entries : List Bytes} (nulFree : ∀ entry ∈ entries, 0 ∉ entry) :
    0 ∉ itemsText fmt entries := by
  induction entries with
  | nil => exact List.not_mem_nil
  | cons entry rest inductionHypothesis =>
      rw [List.forall_mem_cons] at nulFree
      have mark : 0 ∉ itemsMark fmt rest.length := by
        unfold itemsMark space
        split <;> cases fmt <;> decide
      rw [itemsText_cons, List.mem_append, List.mem_append]
      rintro (member | member | member)
      · exact nulFree.1 member
      · exact mark member
      · exact inductionHypothesis nulFree.2 member

theorem indent_nulFree (fmt : Bool) (depth : Nat) : 0 ∉ indent fmt depth := by
  unfold indent tabs
  split
  · exact fun member => absurd (List.eq_of_mem_replicate member) (by decide)
  · exact List.not_mem_nil

theorem memberText_nulFree (fmt : Bool) (depth : Nat) {entry : Bytes × Bytes} (name : 0 ∉ entry.1)
    (value : 0 ∉ entry.2) : 0 ∉ memberText fmt depth entry := by
  unfold memberText
  rw [List.mem_append, List.mem_append, List.mem_cons, List.mem_append]
  rintro (member | member | zero | member | member)
  · exact indent_nulFree fmt depth member
  · exact name member
  · exact absurd zero (by decide)
  · exact indent_nulFree fmt 1 member
  · exact value member

theorem membersText_nulFree (fmt : Bool) (depth : Nat) {entries : List (Bytes × Bytes)}
    (nulFree : ∀ entry ∈ entries, 0 ∉ entry.1 ∧ 0 ∉ entry.2) : 0 ∉ membersText fmt depth entries := by
  induction entries with
  | nil => exact List.not_mem_nil
  | cons entry rest inductionHypothesis =>
      rw [List.forall_mem_cons] at nulFree
      have mark : 0 ∉ membersMark fmt rest.length := by
        unfold membersMark newline
        split <;> cases fmt <;> decide
      rw [membersText_cons, List.mem_append, List.mem_append]
      rintro (member | member | member)
      · exact memberText_nulFree fmt depth nulFree.1.1 nulFree.1.2 member
      · exact mark member
      · exact inductionHypothesis nulFree.2 member

theorem arrayText_nulFree (fmt : Bool) {entries : List Bytes} (nulFree : ∀ entry ∈ entries, 0 ∉ entry) :
    0 ∉ arrayText fmt entries := by
  rw [arrayText, List.mem_cons, List.mem_append]
  rintro (zero | member | zero)
  · exact absurd zero (by decide)
  · exact itemsText_nulFree fmt nulFree member
  · exact absurd zero (by decide)

theorem objectText_nulFree (fmt : Bool) (depth : Nat) {entries : List (Bytes × Bytes)}
    (nulFree : ∀ entry ∈ entries, 0 ∉ entry.1 ∧ 0 ∉ entry.2) : 0 ∉ objectText fmt depth entries := by
  rw [objectText, List.mem_cons, List.mem_append, List.mem_append, List.mem_append]
  rintro (zero | member | member | member | zero)
  · exact absurd zero (by decide)
  · revert member
    unfold newline
    cases fmt <;> decide
  · exact membersText_nulFree fmt _ nulFree member
  · exact indent_nulFree fmt _ member
  · exact absurd zero (by decide)

/-! ## The recursion -/

theorem addrs_set (before rest : List (Option Printed)) (entry : Option Printed) :
    (addrs (before ++ none :: rest)).set before.length (entry.map Printed.addr) =
      addrs (before ++ entry :: rest) := by
  unfold addrs
  rw [List.map_append, List.map_append, List.map_cons, List.map_cons,
    List.set_append_right _ _ (by rw [List.length_map]), List.length_map, Nat.sub_self,
    List.set_cons_zero]

theorem returns_within {text : Bytes} {used before rest : Cells (Block D)}
    {program : Mem (Block D) (Option Nat)}
    (triple : Triple generous used program (Returns generous text used))
    (split : before = used + rest) : Triple generous before program (Returns generous text before) := by
  refine triple.within split ?_
  rintro _ _ ⟨entry, produces, rfl, rfl⟩
  exact ⟨entry, produces, rfl, by rw [split, add_right_comm]⟩

theorem triple_word (word : Text) (kept : Cells (Block D)) :
    Triple generous kept (strdup (.static word)) (Returns generous word.val kept) := by
  refine (triple_strdup (show (Name.borrowed (.static word)).text = some word from rfl)).within
    (zero_add kept).symm ?_
  rintro _ _ ⟨copy, rfl, ⟨rfl, refused, rfl⟩ | ⟨addr, rfl, rfl⟩⟩
  · exact ⟨none, Or.inl ⟨rfl, refused⟩, rfl, add_comm _ _⟩
  · exact ⟨some ⟨addr, word, []⟩, Or.inr ⟨_, rfl, rfl⟩, rfl, add_comm _ _⟩

/-- The name of an item is printed from the item. -/
theorem triple_printName (item : Item D) (prev next : Option Nat) {string : Text}
    (reads : item.string.text = some string) (small : (stringText string).length + 1 < 2 ^ 31) :
    Triple generous (item.cells prev next) (printStringPtr item.string.pointer)
      (Returns generous (stringText string) (item.cells prev next)) := by
  exact returns_within (triple_printStringPtr reads small) (show _ = _ +
    ({(item.addr, .node (item.node prev next))} + item.valuestring.cells D +
      chain none none item.child) by rw [item.cells_eq, Item.own]; ac_rfl)

theorem addrs_none (count : Nat) :
    addrs (List.replicate count none) = List.replicate count none := List.map_replicate

theorem showItems_length {child : List (Json D)} {items : List (Item D)}
    (shows : ShowItems child items) : child.length = items.length := by
  induction child generalizing items with
  | nil =>
      rw [ShowItems] at shows
      rw [shows]
      rfl
  | cons value next inductionHypothesis =>
      rw [ShowItems] at shows
      obtain ⟨item, rest, rfl, -, later⟩ := shows
      exact congrArg (· + 1) (inductionHypothesis later)

theorem showMembers_length {child : List (Text × Json D)} {items : List (Item D)}
    (shows : ShowMembers child items) : child.length = items.length := by
  induction child generalizing items with
  | nil =>
      rw [ShowMembers] at shows
      rw [shows]
      rfl
  | cons value next inductionHypothesis =>
      rw [ShowMembers] at shows
      obtain ⟨item, rest, rfl, -, later⟩ := shows
      exact congrArg (· + 1) (inductionHypothesis later)

theorem triple_saveEntry (entries : Nat) (before rest : List (Option Printed))
    (entry : Option Printed) :
    Triple generous {(entries, .pointers (addrs (before ++ none :: rest)))}
      (savePointer (D := D) entries before.length (entry.map Printed.addr))
      fun _ after => after = {(entries, Block.pointers (addrs (before ++ entry :: rest)))} := by
  have inside : before.length < (addrs (before ++ none :: rest)).length := by
    unfold addrs
    simp
  refine (triple_savePointer entries _ inside).weaken ?_
  rintro _ _ rfl
  rw [addrs_set]

/-- The block for the texts of all children, or nothing. -/
def Collected (generous : Prop) (size : Nat) (succeeded : Prop) (result : Option Nat)
    (cells : Cells (Block D)) : Prop :=
  (result = none ∧ ¬ generous ∧ cells = 0) ∨
    ∃ out, result = some out ∧ succeeded ∧
      cells = {(out, .chars (filled [] (List.replicate size none)))}

theorem triple_mallocInt {len : Nat} (small : len < 2 ^ 31) {succeeded : Prop} (holds : succeeded) :
    Triple generous 0 (mallocInt (D := D) len) (Collected generous len succeeded) := by
  have size : toSize (toInt len) = len := by
    rw [toInt_of_isInt ⟨by omega, by omega⟩, toSize_natCast (by omega)]
  unfold mallocInt
  rw [size]
  refine (triple_malloc len).weaken ?_
  rintro result after (⟨none, refused, kept⟩ | ⟨out, some, kept⟩)
  · exact Or.inl ⟨none, refused, kept⟩
  · exact Or.inr ⟨out, some, holds, kept⟩

end Values

section Recursion

variable {D : Type} [Double D] (fmt : Bool) (generous : Prop)

def PrintsValue (D : Type) [Double D] (fuel : Nat) : Prop :=
  ∀ (json : Json D) (item : Item D) (prev next : Option Nat) (depth : Nat), Shows json item →
    FitsInt (json.text fmt depth) → 3 * (item.cells prev next).card ≤ fuel →
      Triple generous (item.cells prev next) (printValue fmt fuel item.addr depth)
        (Returns generous (json.text fmt depth) (item.cells prev next))

def PrintsArray (D : Type) [Double D] (fuel : Nat) : Prop :=
  ∀ (node : Node D) (child : List (Json D)) (items : List (Item D)) (depth : Nat),
    node.child = first items none → ShowItems child items →
      FitsInt (arrayText fmt (itemTexts fmt (depth + 1) child)) →
        3 * (chain none none items).card + 2 ≤ fuel →
          Triple generous (chain none none items) (printArray fmt fuel node depth)
            (Returns generous (arrayText fmt (itemTexts fmt (depth + 1) child))
              (chain none none items))

def PrintsItems (D : Type) [Double D] (fuel : Nat) : Prop :=
  ∀ (entries : Nat) (before : List (Option Printed)) (child : List (Json D)) (items : List (Item D))
    (prev : Option Nat) (depth len : Nat), ShowItems child items →
      (∀ text ∈ itemTexts fmt depth child, FitsInt text) →
        len + itemsRoom fmt (itemTexts fmt depth child) < 2 ^ 31 →
          3 * (chain prev none items).card + 1 ≤ fuel →
            Triple generous (chain prev none items +
                {(entries, .pointers (addrs (before ++ List.replicate items.length none)))})
              (itemsOut fmt fuel entries before.length (first items none) depth len)
              fun result after => ∃ printed cells, printed.length = items.length ∧
                after = chain prev none items + {(entries, .pointers (addrs (before ++ printed)))} +
                  (entryCells D printed + cells) ∧
                Collected generous (len + itemsRoom fmt (itemTexts fmt depth child))
                  (∃ texts, printed = texts.map some ∧ textsOf texts = itemTexts fmt depth child)
                  result cells

def PrintsObject (D : Type) [Double D] (fuel : Nat) : Prop :=
  ∀ (node : Node D) (child : List (Text × Json D)) (items : List (Item D)) (depth : Nat),
    node.child = first items none → ShowMembers child items →
      FitsInt (objectText fmt depth (memberTexts fmt (depth + 1) child)) →
        3 * (chain none none items).card + 2 ≤ fuel →
          Triple generous (chain none none items) (printObject fmt fuel node depth)
            (Returns generous (objectText fmt depth (memberTexts fmt (depth + 1) child))
              (chain none none items))

def PrintsMembers (D : Type) [Double D] (fuel : Nat) : Prop :=
  ∀ (names entries : Nat) (before before' : List (Option Printed)) (child : List (Text × Json D))
    (items : List (Item D)) (prev : Option Nat) (depth len : Nat) (fail : Bool),
    before.length = before'.length → (fail = true → ¬ generous) → ShowMembers child items →
      (∀ entry ∈ memberTexts fmt depth child, FitsInt entry.1 ∧ FitsInt entry.2) →
        len + membersRoom fmt depth (memberTexts fmt depth child) < 2 ^ 31 →
          3 * (chain prev none items).card + 1 ≤ fuel →
            Triple generous (chain prev none items +
                ({(names, .pointers (addrs (before ++ List.replicate items.length none)))} +
                  {(entries, .pointers (addrs (before' ++ List.replicate items.length none)))}))
              (membersOut fmt fuel names entries before.length (first items none) depth len fail)
              fun result after => ∃ keys values cells, keys.length = items.length ∧
                values.length = items.length ∧
                after = chain prev none items + ({(names, .pointers (addrs (before ++ keys)))} +
                    {(entries, .pointers (addrs (before' ++ values)))}) +
                  (entryCells D keys + entryCells D values + cells) ∧
                Collected generous (len + membersRoom fmt depth (memberTexts fmt depth child))
                  (fail = false ∧ ∃ pairs : List (Printed × Printed),
                    keys = pairs.map (fun pair => some pair.1) ∧
                    values = pairs.map (fun pair => some pair.2) ∧
                    pairsOf pairs = memberTexts fmt depth child) result cells

/-- What the functions of the recursion do with so much fuel. -/
structure Prints (D : Type) [Double D] (fuel : Nat) : Prop where
  value : PrintsValue fmt generous D fuel
  array : PrintsArray fmt generous D fuel
  items : PrintsItems fmt generous D fuel
  object : PrintsObject fmt generous D fuel
  members : PrintsMembers fmt generous D fuel

theorem prints_zero : Prints fmt generous D 0 where
  value json item prev next depth shows small enough := by
    have counted := card_own_lt item prev next
    omega
  array := by
    intros _ _ _ _ _ _ _ enough
    omega
  items := by
    intros _ _ _ _ _ _ _ _ _ _ enough
    omega
  object := by
    intros _ _ _ _ _ _ _ enough
    omega
  members := by
    intros _ _ _ _ _ _ _ _ _ _ _ _ _ _ _ enough
    omega

section Step

variable {fmt generous} {fuel : Nat} (prints : Prints fmt generous D fuel)

include prints

theorem prints_items : PrintsItems fmt generous D (fuel + 1) := by
  intro entries before child items prev depth len shows small total enough
  cases child with
  | nil =>
      rw [ShowItems] at shows
      subst shows
      rw [itemTexts] at total ⊢
      have done : ∃ texts, ([] : List (Option Printed)) = texts.map some ∧ textsOf texts = [] :=
        ⟨[], rfl, rfl⟩
      rw [chain_nil, show first ([] : List (Item D)) none = none from rfl, itemsOut]
      refine (triple_mallocInt total done).within rfl ?_
      rintro result cells collected
      refine ⟨[], cells, rfl, ?_, collected⟩
      rw [zero_add, show entryCells D [] = 0 from rfl, zero_add, add_comm]
      rfl
  | cons json child =>
      rw [ShowItems] at shows
      obtain ⟨item, rest, rfl, showsFirst, showsRest⟩ := shows
      rw [itemTexts] at small total ⊢
      rw [List.forall_mem_cons] at small
      have counted := card_own_lt item prev (first rest none)
      rw [chain_cons, Multiset.card_add] at enough
      have size : len + (json.text fmt depth).length + 2 + (space fmt).length +
          itemsRoom fmt (itemTexts fmt depth child) =
            len + itemsRoom fmt (json.text fmt depth :: itemTexts fmt depth child) := by
        rw [itemsRoom_cons]
        omega
      rw [← size] at total ⊢
      rw [chain_cons, List.length_cons, List.replicate_succ]
      rw [show first (item :: rest) none = some item.addr from rfl, itemsOut]
      generalize reached : some item.addr = prev'
      refine (prints.value json item prev (first rest none) depth showsFirst small.1 (by omega)).bind
        (add_assoc _ _ _) ?_
      rintro _ _ ⟨entry, produces, rfl, rfl⟩
      refine (triple_saveEntry entries before _ entry).bind (show _ = _ +
        (item.cells prev (first rest none) + entryCell D entry + chain prev' none rest) by ac_rfl) ?_
      rintro _ _ rfl
      rcases produces with ⟨rfl, refused⟩ | ⟨printed, rfl, text⟩
      · refine triple_pure ⟨none :: List.replicate rest.length none, 0, ?_, ?_,
          Or.inl ⟨rfl, refused, rfl⟩⟩
        · rw [List.length_cons, List.length_replicate]
        · rw [entryCells_cons, entryCells_none, entryCell]
          simp only [add_zero]
          ac_rfl
      · refine (triple_loadPrinted printed).ask (show _ = _ + ({(entries, .pointers (addrs (before ++
          some printed :: List.replicate rest.length none)))} + item.cells prev (first rest none) +
            chain prev' none rest) by rw [entryCell_some]; ac_rfl) ?_
        rintro _ rfl
        refine (triple_loadNode _ _).ask (show _ = _ + (item.own + entryCell D (some printed) +
          chain prev' none rest + {(entries, .pointers (addrs (before ++ some printed ::
            List.replicate rest.length none)))}) by rw [item.cells_eq]; ac_rfl) ?_
        rintro _ rfl
        have later := prints.items entries (before ++ [some printed]) child rest prev' depth
          (len + (json.text fmt depth).length + 2 + (space fmt).length) showsRest small.2 total
          (by rw [reached] at enough; omega)
        rw [List.append_assoc, List.length_append] at later
        rw [text]
        refine later.within (show _ = _ + (item.cells prev (first rest none) + printed.cells D) by
          rw [entryCell_some]; ac_rfl) ?_
        rintro result _ ⟨others, cells, length, rfl, collected⟩
        refine ⟨some printed :: others, cells, ?_, ?_, ?_⟩
        · rw [List.length_cons, length]
        · rw [entryCells_cons, entryCell_some, List.append_assoc, List.singleton_append]
          ac_rfl
        · rcases collected with failed | ⟨out, some, ⟨texts, rfl, same⟩, left⟩
          · exact Or.inl failed
          · exact Or.inr ⟨out, some, ⟨printed :: texts, rfl, congrArg₂ _ text same⟩, left⟩

theorem prints_array : PrintsArray fmt generous D (fuel + 1) := by
  intro node child items depth starts shows small enough
  have length := showItems_length shows
  have counted := length_le_card none none items
  rw [JsonNodePrint.printArray, starts]
  refine (triple_countFrom items none (by omega)).ask (add_zero _).symm ?_
  rintro _ rfl
  by_cases empty : items.length = 0
  · rw [if_pos empty]
    obtain rfl := List.length_eq_zero_iff.mp empty
    obtain rfl := List.length_eq_zero_iff.mp length
    rw [itemTexts, show arrayText fmt [] = lit "[]" from rfl]
    exact triple_mallocOr fun addr => triple_writeFresh (by decide) (by decide) _ addr
  · rw [if_neg empty]
    refine (triple_alloc _).bind (zero_add _).symm ?_
    rintro _ _ (⟨rfl, refused, rfl⟩ | ⟨entries, rfl, rfl⟩)
    · rw [zero_add]
      exact triple_pure (returns_none refused)
    · have room := itemsText_room fmt (itemTexts fmt (depth + 1) child)
      have bound : 2 * ((itemsText fmt (itemTexts fmt (depth + 1) child)).length + 2) + 8 < 2 ^ 31 := by
        unfold FitsInt arrayText at small
        simpa only [List.length_cons, List.length_append, List.length_nil] using small
      have retrieved := prints.items entries [] child items none (depth + 1) 5 shows
        (fun _ => fits_item fmt small) (by omega) (by omega)
      rw [List.nil_append, addrs_none] at retrieved
      refine retrieved.bind (show _ = _ + 0 by rw [add_zero, add_comm]) ?_
      rintro _ _ ⟨printed, cells, printedLength, rfl, ⟨rfl, refused, rfl⟩ |
        ⟨out, rfl, ⟨texts, rfl, same⟩, rfl⟩⟩
      · have freed : Triple (V := Block D) generous _ _ _ := triple_freeEntries entries [] printed
        rw [printedLength, List.nil_append] at freed
        refine freed.bind (show _ = _ + chain none none items by
          rw [List.nil_append, add_zero, add_zero]; ac_rfl) ?_
        rintro _ _ rfl
        refine (triple_release _ _).bind rfl ?_
        rintro _ _ rfl
        rw [zero_add]
        exact triple_pure (returns_none refused)
      · rw [← same] at room bound ⊢
        rw [List.length_map] at printedLength
        rw [List.nil_append, add_zero]
        refine (triple_writesNul out [] [91] (List.replicate (5 + itemsRoom fmt (textsOf texts)) none)
          rfl (by rw [List.length_replicate, List.length_singleton]; omega)).bind (show _ = _ + (chain none none items +
            {(entries, .pointers (addrs (texts.map some)))} + entryCells D (texts.map some)) by ac_rfl) ?_
        rintro _ _ ⟨slack, slackLength, rfl⟩
        rw [List.length_replicate, List.length_singleton] at slackLength
        have composed : Triple (V := Block D) generous _ _ _ := triple_composeItems fmt entries out [] texts
          [91] slack rfl (by omega)
        rw [printedLength, List.nil_append] at composed
        refine composed.bind (show _ = _ + chain none none items by rw [List.nil_append]; ac_rfl) ?_
        rintro _ _ ⟨rfl, _, rfl, last, lastLength, rfl⟩
        refine (triple_release _ _).bind (add_assoc _ _ _) ?_
        rintro _ _ rfl
        rw [zero_add]
        refine (triple_writeNul out _ [93] last rfl (by rw [List.length_singleton]; omega)).bind rfl ?_
        rintro _ _ rfl
        rw [add_comm]
        rw [List.append_assoc]
        refine triple_pure (returns_some (arrayText_nulFree fmt fun entry member => ?_) _ out _)
        obtain ⟨printed, -, rfl⟩ := List.mem_map.mp member
        exact printed.text.property

theorem prints_members : PrintsMembers fmt generous D (fuel + 1) := by
  intro names entries before before' child items prev depth len fail reached failed shows small
    total enough
  cases child with
  | nil =>
      rw [ShowMembers] at shows
      subst shows
      rw [memberTexts] at total ⊢
      rw [chain_nil, show first ([] : List (Item D)) none = none from rfl, membersOut]
      have kept : ({(names, Block.pointers (addrs (before ++ [])))} +
          {(entries, .pointers (addrs (before' ++ [])))} : Cells (Block D)) = 0 +
            ({(names, .pointers (addrs (before ++ [])))} +
              {(entries, .pointers (addrs (before' ++ [])))}) + (entryCells D [] + entryCells D [] + 0) := by
        rw [show entryCells D [] = 0 from rfl, zero_add, add_zero, add_zero, add_zero]
      cases fail with
      | true =>
          refine triple_pure ⟨[], [], 0, rfl, rfl, ?_, Or.inl ⟨rfl, failed rfl, rfl⟩⟩
          rw [← kept, zero_add]
          rfl
      | false =>
          have done : false = false ∧ ∃ pairs : List (Printed × Printed), ([] : List (Option Printed)) =
              pairs.map (fun pair => some pair.1) ∧ ([] : List (Option Printed)) =
                pairs.map (fun pair => some pair.2) ∧ pairsOf pairs = [] :=
            ⟨rfl, [], rfl, rfl, rfl⟩
          refine (triple_mallocInt total done).within rfl ?_
          rintro result cells collected
          refine ⟨[], [], cells, rfl, rfl, ?_, collected⟩
          rw [show entryCells D [] = 0 from rfl, zero_add, zero_add, zero_add, add_comm]
          rfl
  | cons member child =>
      obtain ⟨string, json⟩ := member
      rw [ShowMembers] at shows
      obtain ⟨item, rest, rfl, showsFirst, showsRest⟩ := shows
      rw [ShowMember] at showsFirst
      rw [memberTexts, memberTextPair] at small total ⊢
      rw [List.forall_mem_cons] at small
      have counted := card_own_lt item prev (first rest none)
      rw [chain_cons, Multiset.card_add] at enough
      have size : len + (json.text fmt depth).length + (stringText string).length + 2 +
          (if fmt then 2 + depth else 0) + membersRoom fmt depth (memberTexts fmt depth child) =
            len + membersRoom fmt depth ((stringText string, json.text fmt depth) ::
              memberTexts fmt depth child) := by
        rw [membersRoom_cons]
        dsimp only
        omega
      rw [← size] at total ⊢
      have nameSmall : (stringText string).length + 1 < 2 ^ 31 := by
        have short : 2 * (stringText string).length + 8 < 2 ^ 31 := small.1.1
        omega
      rw [chain_cons, List.length_cons, List.replicate_succ,
        show first (item :: rest) none = some item.addr from rfl, membersOut]
      generalize next : some item.addr = prev'
      rw [next] at enough
      refine (triple_loadNode _ _).ask (show _ = _ + (item.own + chain prev' none rest +
        ({(names, .pointers (addrs (before ++ none :: List.replicate rest.length none)))} +
          {(entries, .pointers (addrs (before' ++ none :: List.replicate rest.length none)))})) by
            rw [item.cells_eq]; ac_rfl) ?_
      rintro _ rfl
      refine (triple_printName item prev (first rest none) showsFirst.1 nameSmall).bind
        (add_assoc _ _ _) ?_
      rintro _ _ ⟨key, keyProduces, rfl, rfl⟩
      refine (triple_saveEntry names before _ key).bind (show _ = _ +
        (item.cells prev (first rest none) + entryCell D key + chain prev' none rest +
          {(entries, .pointers (addrs (before' ++ none :: List.replicate rest.length none)))}) by
            ac_rfl) ?_
      rintro _ _ rfl
      refine (prints.value json item prev (first rest none) depth showsFirst.2 small.1.2
        (by omega)).bind (show _ = _ + (entryCell D key + chain prev' none rest +
          {(names, .pointers (addrs (before ++ key :: List.replicate rest.length none)))} +
            {(entries, .pointers (addrs (before' ++ none :: List.replicate rest.length none)))}) by
              ac_rfl) ?_
      rintro _ _ ⟨value, valueProduces, rfl, rfl⟩
      have saved : Triple (V := Block D) generous _ _ _ := triple_saveEntry entries before'
        (List.replicate rest.length none) value
      rw [← reached] at saved
      refine saved.bind (show _ = _ + (item.cells prev (first rest none) + entryCell D value +
        entryCell D key + chain prev' none rest +
          {(names, .pointers (addrs (before ++ key :: List.replicate rest.length none)))}) by
            ac_rfl) ?_
      rintro _ _ rfl
      have paired : (before ++ [key]).length = (before' ++ [value]).length := by
        rw [List.length_append, List.length_append, reached]
        rfl
      -- the loop goes on with what it has, and counts when both texts are there
      have later : ∀ (len : Nat) (fail' : Bool), (fail' = true → ¬ generous) →
          len + membersRoom fmt depth (memberTexts fmt depth child) < 2 ^ 31 →
          Triple generous ({(entries, .pointers (addrs (before' ++ value ::
              List.replicate rest.length none)))} + (item.cells prev (first rest none) +
            entryCell D value + entryCell D key + chain prev' none rest +
              {(names, .pointers (addrs (before ++ key :: List.replicate rest.length none)))}))
            (membersOut fmt fuel names entries (before.length + 1) (first rest none) depth len fail')
            fun result after => ∃ keys values cells, keys.length = rest.length ∧
              values.length = rest.length ∧
              after = item.cells prev (first rest none) + chain prev' none rest +
                  ({(names, .pointers (addrs (before ++ key :: keys)))} +
                    {(entries, .pointers (addrs (before' ++ value :: values)))}) +
                (entryCells D (key :: keys) + entryCells D (value :: values) + cells) ∧
              Collected generous (len + membersRoom fmt depth (memberTexts fmt depth child))
                (fail' = false ∧ ∃ pairs : List (Printed × Printed),
                  keys = pairs.map (fun pair => some pair.1) ∧
                  values = pairs.map (fun pair => some pair.2) ∧
                  pairsOf pairs = memberTexts fmt depth child) result cells := by
        intro len fail' failed' bound
        have going := prints.members names entries (before ++ [key]) (before' ++ [value]) child rest
          prev' depth len fail' paired failed' showsRest small.2 bound (by omega)
        rw [List.append_assoc, List.append_assoc, List.length_append] at going
        refine going.within (show _ = _ + (item.cells prev (first rest none) + entryCell D value +
          entryCell D key) by rw [List.singleton_append, List.singleton_append]; ac_rfl) ?_
        rintro result _ ⟨keys, values, cells, keysLength, valuesLength, rfl, collected⟩
        refine ⟨keys, values, cells, keysLength, valuesLength, ?_, collected⟩
        rw [entryCells_cons, entryCells_cons, List.append_assoc, List.append_assoc,
          List.singleton_append, List.singleton_append]
        ac_rfl
      -- a missing text lets no block be asked for
      have missing : ¬ generous → Triple generous ({(entries, .pointers (addrs (before' ++ value ::
              List.replicate rest.length none)))} + (item.cells prev (first rest none) +
            entryCell D value + entryCell D key + chain prev' none rest +
              {(names, .pointers (addrs (before ++ key :: List.replicate rest.length none)))}))
            (membersOut fmt fuel names entries (before.length + 1) (first rest none) depth len true)
            fun result after => ∃ keys values cells, keys.length = rest.length + 1 ∧
              values.length = rest.length + 1 ∧
              after = item.cells prev (first rest none) + chain prev' none rest +
                  ({(names, .pointers (addrs (before ++ keys)))} +
                    {(entries, .pointers (addrs (before' ++ values)))}) +
                (entryCells D keys + entryCells D values + cells) ∧
              Collected generous (len + (json.text fmt depth).length + (stringText string).length + 2 +
                  (if fmt then 2 + depth else 0) + membersRoom fmt depth (memberTexts fmt depth child))
                (fail = false ∧ ∃ pairs : List (Printed × Printed),
                  keys = pairs.map (fun pair => some pair.1) ∧
                  values = pairs.map (fun pair => some pair.2) ∧
                  pairsOf pairs = (stringText string, json.text fmt depth) ::
                    memberTexts fmt depth child) result cells := by
        intro refused
        refine (later len true (fun _ => refused) (by omega)).weaken ?_
        rintro result _ ⟨keys, values, cells, keysLength, valuesLength, rfl, collected⟩
        refine ⟨key :: keys, value :: values, cells, congrArg (· + 1) keysLength,
          congrArg (· + 1) valuesLength, rfl, ?_⟩
        rcases collected with gone | ⟨_, _, ⟨impossible, _⟩, _⟩
        · exact Or.inl gone
        · cases impossible
      rcases keyProduces with ⟨rfl, refused⟩ | ⟨keyText, rfl, keyIs⟩
      · exact missing refused
      · rcases valueProduces with ⟨rfl, refused⟩ | ⟨valueText, rfl, valueIs⟩
        · exact missing refused
        · rw [if_pos ⟨rfl, rfl⟩]
          refine (triple_loadPrinted valueText).ask (show _ = _ +
            (item.cells prev (first rest none) + entryCell D (some keyText) + chain prev' none rest +
              {(names, .pointers (addrs (before ++ some keyText :: List.replicate rest.length none)))} +
              {(entries, .pointers (addrs (before' ++ some valueText ::
                List.replicate rest.length none)))}) by rw [entryCell_some]; ac_rfl) ?_
          rintro _ rfl
          refine (triple_loadPrinted keyText).ask (show _ = _ +
            (item.cells prev (first rest none) + entryCell D (some valueText) + chain prev' none rest +
              {(names, .pointers (addrs (before ++ some keyText :: List.replicate rest.length none)))} +
              {(entries, .pointers (addrs (before' ++ some valueText ::
                List.replicate rest.length none)))}) by
                  rw [entryCell_some keyText]; ac_rfl) ?_
          rintro _ rfl
          rw [valueIs, keyIs]
          refine (later _ fail failed total).weaken ?_
          rintro result _ ⟨keys, values, cells, keysLength, valuesLength, rfl, collected⟩
          refine ⟨some keyText :: keys, some valueText :: values, cells,
            congrArg (· + 1) keysLength, congrArg (· + 1) valuesLength, rfl, ?_⟩
          rcases collected with gone | ⟨out, some, ⟨none, pairs, rfl, rfl, same⟩, left⟩
          · exact Or.inl gone
          · exact Or.inr ⟨out, some, ⟨none, (keyText, valueText) :: pairs, rfl, rfl,
              congrArg₂ List.cons (congrArg₂ Prod.mk keyIs valueIs) same⟩, left⟩

theorem prints_object : PrintsObject fmt generous D (fuel + 1) := by
  intro node child items depth starts shows small enough
  have length := showMembers_length shows
  have counted := length_le_card none none items
  rw [JsonNodePrint.printObject, starts]
  refine (triple_countFrom items none (by omega)).ask (add_zero _).symm ?_
  rintro _ rfl
  by_cases empty : items.length = 0
  · rw [if_pos empty]
    obtain rfl := List.length_eq_zero_iff.mp empty
    obtain rfl := List.length_eq_zero_iff.mp length
    have text : objectText fmt depth (memberTexts fmt (depth + 1) ([] : List (Text × Json D))) ++ [0] =
        123 :: (newline fmt ++ indent fmt (depth - 1) ++ [125, 0]) := by
      rw [memberTexts, objectText, if_pos rfl, show membersText fmt (depth + 1) [] = [] from rfl]
      simp
    have room : (objectText fmt depth (memberTexts fmt (depth + 1)
        ([] : List (Text × Json D)))).length < if fmt then depth + 4 else 3 := by
      have sizes := congrArg List.length text
      rw [List.length_append] at sizes
      cases fmt
      · simp [newline, indent] at sizes ⊢
        omega
      · simp [newline, indent, tabs] at sizes ⊢
        omega
    have nulFree : 0 ∉ objectText fmt depth (memberTexts fmt (depth + 1)
        ([] : List (Text × Json D))) := by
      rw [memberTexts]
      exact objectText_nulFree fmt depth (List.forall_mem_nil _)
    rw [← text]
    exact triple_mallocOr fun addr => triple_writeFresh nulFree room _ addr
  · rw [if_neg empty]
    refine (triple_alloc _).bind (zero_add _).symm ?_
    rintro _ _ (⟨rfl, refused, rfl⟩ | ⟨entries, rfl, rfl⟩)
    · rw [zero_add]
      exact triple_pure (returns_none refused)
    · refine (triple_alloc _).bind (zero_add _).symm ?_
      rintro _ _ (⟨rfl, refused, rfl⟩ | ⟨names, rfl, rfl⟩)
      · rw [zero_add]
        refine (triple_release _ _).bind rfl ?_
        rintro _ _ rfl
        rw [zero_add]
        exact triple_pure (returns_none refused)
      · have room := membersText_room fmt (depth + 1) (memberTexts fmt (depth + 1) child)
        have some : memberTexts fmt (depth + 1) child ≠ [] := by
          rw [memberTexts_eq_map]
          intro none
          rw [List.map_eq_nil_iff] at none
          rw [none] at length
          exact empty length.symm
        have bound : 2 * ((newline fmt).length + (membersText fmt (depth + 1)
            (memberTexts fmt (depth + 1) child)).length + (indent fmt depth).length + 2) + 8 < 2 ^ 31 := by
          unfold FitsInt objectText at small
          rw [if_neg some] at small
          simp only [List.length_cons, List.length_append, List.length_nil] at small
          omega
        have indented : (indent fmt depth).length ≤ (if fmt then depth + 1 else 0) ∧
            (if fmt then depth + 1 else 0) ≤ (indent fmt depth).length + 1 ∧
              (newline fmt).length ≤ 1 := by
          unfold indent newline tabs
          cases fmt <;> simp
        have retrieved := prints.members names entries [] [] child items none (depth + 1)
          (7 + if fmt then depth + 1 else 0) false rfl (fun failed => by cases failed) shows
          (fun _ => fits_member fmt depth small) (by omega) (by omega)
        rw [List.nil_append, addrs_none] at retrieved
        refine retrieved.bind (show _ = _ + 0 by
          rw [add_zero]
          ac_rfl) ?_
        rintro _ _ ⟨keys, values, cells, keysLength, valuesLength, rfl, ⟨rfl, refused, rfl⟩ |
          ⟨out, rfl, ⟨-, pairs, rfl, rfl, same⟩, rfl⟩⟩
        · have freed : Triple (V := Block D) generous _ _ _ := triple_freeMembers names entries [] [] keys
            values rfl (keysLength.trans valuesLength.symm)
          rw [keysLength, List.nil_append, List.nil_append] at freed
          refine freed.bind (show _ = _ + chain none none items by
            rw [List.nil_append, List.nil_append, add_zero, add_zero]
            ac_rfl) ?_
          rintro _ _ rfl
          refine (triple_release _ _).bind (add_assoc _ _ _) ?_
          rintro _ _ rfl
          rw [zero_add]
          refine (triple_release _ _).bind rfl ?_
          rintro _ _ rfl
          rw [zero_add]
          exact triple_pure (returns_none refused)
        · rw [← same] at room bound some ⊢
          rw [List.length_map] at keysLength
          rw [List.nil_append, List.nil_append, add_zero]
          refine (triple_writesNul out [] (123 :: newline fmt) (List.replicate
            ((7 + if fmt then depth + 1 else 0) + membersRoom fmt (depth + 1) (pairsOf pairs)) none)
            rfl (by rw [List.length_replicate, List.length_cons]; omega)).bind
              (show _ = _ + (chain none none items +
                ({(names, .pointers (addrs (pairs.map fun pair => Option.some pair.1)))} +
                  {(entries, .pointers (addrs (pairs.map fun pair => Option.some pair.2)))}) +
                (entryCells D (pairs.map fun pair => Option.some pair.1) +
                  entryCells D (pairs.map fun pair => Option.some pair.2))) by ac_rfl) ?_
          rintro _ _ ⟨slack, slackLength, rfl⟩
          rw [List.length_replicate, List.length_cons] at slackLength
          have composed : Triple (V := Block D) generous _ _ _ := triple_composeMembers fmt names entries out
            (depth + 1) [] [] pairs (123 :: newline fmt) slack rfl
            (show 1 + (newline fmt).length = _ by rw [List.length_cons, add_comm]) (by omega)
          rw [keysLength, List.nil_append, List.nil_append] at composed
          refine composed.bind (show _ = _ + chain none none items by
            rw [List.nil_append]
            ac_rfl) ?_
          rintro _ _ ⟨rfl, _, rfl, last, lastLength, rfl⟩
          refine (triple_release _ _).bind (show _ = _ +
            ({(entries, .pointers (addrs (pairs.map fun pair => Option.some pair.2)))} +
              {(out, .chars (filled (123 :: newline fmt ++ membersText fmt (depth + 1)
                (pairsOf pairs)) last))} + chain none none items) by ac_rfl) ?_
          rintro _ _ rfl
          rw [zero_add]
          refine (triple_release _ _).bind (add_assoc _ _ _) ?_
          rintro _ _ rfl
          rw [zero_add, show indent fmt depth ++ [125, 0] = (indent fmt depth ++ [125]) ++ [0] by simp]
          refine (triple_writeNul out _ (indent fmt depth ++ [125]) last rfl (by
            rw [List.length_append, List.length_singleton]
            omega)).bind rfl ?_
          rintro _ _ rfl
          have text : 123 :: newline fmt ++ membersText fmt (depth + 1) (pairsOf pairs) ++
              (indent fmt depth ++ [125]) = objectText fmt depth (pairsOf pairs) := by
            rw [objectText, if_neg some]
            simp only [List.append_assoc, List.cons_append]
          rw [text, add_comm]
          refine triple_pure (returns_some (objectText_nulFree fmt depth fun entry member => ?_) _ out _)
          obtain ⟨pair, -, rfl⟩ := List.mem_map.mp member
          exact ⟨pair.1.text.property, pair.2.text.property⟩

theorem prints_value [PrintedDouble D] : PrintsValue fmt generous D (fuel + 1) := by
  intro json item prev next depth shows small enough
  have counted := card_own_lt item prev next
  have inside : (chain none none item.child).card ≤ item.own.card := by
    rw [Item.own, Multiset.card_add]
    exact Nat.le_add_left _ _
  rw [JsonNodePrint.printValue]
  refine (triple_loadNode _ _).ask (item.cells_eq prev next) ?_
  rintro _ rfl
  dsimp only
  cases json with
  | null =>
      rw [Shows] at shows
      rw [show (item.node prev next).type &&& 255 = cJsonNull from shows, if_pos rfl]
      exact triple_word ⟨lit "null", by decide⟩ _
  | false =>
      rw [Shows] at shows
      rw [show (item.node prev next).type &&& 255 = cJsonFalse from shows, if_neg (by decide), if_pos rfl]
      exact triple_word ⟨lit "false", by decide⟩ _
  | true =>
      rw [Shows] at shows
      rw [show (item.node prev next).type &&& 255 = cJsonTrue from shows, if_neg (by decide),
        if_neg (by decide), if_pos rfl]
      exact triple_word ⟨lit "true", by decide⟩ _
  | number valueint valuedouble =>
      rw [Shows] at shows
      obtain ⟨kind, isInt, rfl, rfl⟩ := shows
      rw [show (item.node prev next).type &&& 255 = cJsonNumber from kind, if_neg (by decide),
        if_neg (by decide), if_neg (by decide), if_pos rfl, Json.text]
      exact triple_printNumber (item.node prev next) isInt _
  | string valuestring =>
      rw [Shows] at shows
      obtain ⟨kind, reads⟩ := shows
      rw [Json.text] at small ⊢
      rw [show (item.node prev next).type &&& 255 = cJsonString from kind, if_neg (by decide),
        if_neg (by decide), if_neg (by decide), if_neg (by decide), if_pos rfl]
      refine returns_within (triple_printStringPtr reads (by unfold FitsInt at small; omega))
        (show _ = _ + ({(item.addr, .node (item.node prev next))} + item.string.cells D +
          chain none none item.child) by rw [item.cells_eq, Item.own]; ac_rfl)
  | array child =>
      rw [Shows] at shows
      obtain ⟨kind, own, shown⟩ := shows
      rw [Json.text] at small ⊢
      rw [show (item.node prev next).type &&& 255 = cJsonArray from kind, if_neg (by decide),
        if_neg (by decide), if_neg (by decide), if_neg (by decide), if_neg (by decide), if_pos rfl]
      exact returns_within (prints.array (item.node prev next) child item.child depth
        (congrArg (first item.child) own) shown small (by omega))
          (show _ = _ + ({(item.addr, .node (item.node prev next))} + item.valuestring.cells D +
            item.string.cells D) by rw [item.cells_eq, Item.own]; ac_rfl)
  | object child =>
      rw [Shows] at shows
      obtain ⟨kind, own, shown⟩ := shows
      rw [Json.text] at small ⊢
      rw [show (item.node prev next).type &&& 255 = cJsonObject from kind, if_neg (by decide),
        if_neg (by decide), if_neg (by decide), if_neg (by decide), if_neg (by decide),
        if_neg (by decide), if_pos rfl]
      exact returns_within (prints.object (item.node prev next) child item.child depth
        (congrArg (first item.child) own) shown small (by omega))
          (show _ = _ + ({(item.addr, .node (item.node prev next))} + item.valuestring.cells D +
            item.string.cells D) by rw [item.cells_eq, Item.own]; ac_rfl)

end Step

variable [PrintedDouble D]

theorem prints (fuel : Nat) : Prints fmt generous D fuel := by
  induction fuel with
  | zero => exact prints_zero fmt generous
  | succ fuel inductionHypothesis =>
      exact {
        value := prints_value inductionHypothesis
        array := prints_array inductionHypothesis
        items := prints_items inductionHypothesis
        object := prints_object inductionHypothesis
        members := prints_members inductionHypothesis }

theorem triple_cJsonPrint {json : Json D} {item : Item D} (prev next : Option Nat)
    (shows : Shows json item) (small : FitsInt (json.text fmt 0)) :
    Triple generous (item.cells prev next) (cJsonPrint fmt (some item.addr))
      (Returns generous (json.text fmt 0) (item.cells prev next)) :=
  triple_overBlocks fun fuel enough =>
    (prints fmt generous (3 * fuel)).value json item prev next 0 shows small (by omega)

/-- Whatever the heap holds besides the tree and whichever requests it refuses,
printing ends, keeps to its blocks, and leaves one new block that holds the
text; or it returns `NULL`, because a request was refused, and leaves nothing. -/
theorem cJsonPrint_leaves {json : Json D} {item : Item D} {prev next : Option Nat}
    (shows : Shows json item) (small : 2 * (json.text fmt 0).length + 8 < 2 ^ 31)
    {store : Store (Block D)} {others : Cells (Block D)}
    (held : Holds store (item.cells prev next + others)) :
    ∃ result store', cJsonPrint fmt (some item.addr) store = .ok (result, store') ∧
      ((result = none ∧ Holds store' (item.cells prev next + others) ∧
          ∃ request, store.grant request = false) ∨
        ∃ addr slack, result = some addr ∧ Holds store' (item.cells prev next + others +
          {(addr, .chars (filled (json.text fmt 0) (some 0 :: slack)))})) := by
  have triple := triple_cJsonPrint fmt (∀ request, store.grant request = true) prev next shows small
  obtain ⟨result, store', after, ran, ⟨entry, produces, rfl, rfl⟩, -, left⟩ :=
    triple store others id held
  refine ⟨_, store', ran, ?_⟩
  rcases produces with ⟨rfl, refused⟩ | ⟨printed, rfl, text⟩
  · rw [entryCell, add_zero] at left
    refine Or.inl ⟨rfl, left, ?_⟩
    obtain ⟨request, denied⟩ := not_forall.mp refused
    exact ⟨request, Bool.eq_false_iff.mpr denied⟩
  · rw [entryCell_some, add_right_comm] at left
    refine Or.inr ⟨printed.addr, printed.slack, rfl, ?_⟩
    rw [← text]
    exact left

end Recursion

section Witness

def letter : Item Rat where
  addr := 1
  type := cJsonString
  valuestring := .owned 2 ⟨lit "a", by decide⟩ []
  valueint := 0
  valuedouble := 0
  string := .null
  child := []
  foreign := none

/-- The array of one string. -/
def letters : Item Rat where
  addr := 0
  type := cJsonArray
  valuestring := .null
  valueint := 0
  valuedouble := 0
  string := .null
  child := [letter]
  foreign := none

def lettersStore (grant : Nat → Bool) : Store (Block Rat) :=
  (((Store.empty grant).push (.node (letters.node none none))).push
    (.node (letter.node none none))).push (.chars [some 97, some 0])

theorem holds_letters (grant : Nat → Bool) :
    Holds (lettersStore grant) (letters.cells none none + 0) := by
  have held := (((holds_empty grant).push (Block.node (letters.node none none))).push
    (.node (letter.node none none))).push (.chars [some 97, some 0])
  have cells : letters.cells none none + 0 = {(2, .chars [some 97, some 0])} +
      ({(1, .node (letter.node none none))} + ({(0, .node (letters.node none none))} + 0)) := by
    rw [letters.cells_eq, Item.own, show letters.child = [letter] from rfl, chain_single,
      letter.cells_eq, Item.own, show letter.child = [] from rfl, chain_nil]
    show ({(0, .node (letters.node none none))} + (0 + 0 + ({(1, .node (letter.node none none))} +
      ({(2, .chars [some 97, some 0])} + 0 + 0))) + 0 : Cells (Block Rat)) = _
    simp only [add_zero, zero_add]
    ac_rfl
  rw [cells]
  exact held

theorem shows_letters : Shows (.array [.string ⟨lit "a", by decide⟩]) letters := by
  rw [Shows]
  refine ⟨rfl, rfl, ?_⟩
  rw [ShowItems]
  refine ⟨letter, [], rfl, ?_, ?_⟩
  · rw [Shows]
    exact ⟨rfl, rfl⟩
  · rw [ShowItems]

theorem cJsonPrint_leaves_letters :
    ∃ result store', cJsonPrint false (some 0) (lettersStore (· < 5)) = .ok (result, store') ∧
      ((result = none ∧ Holds store' (letters.cells none none + 0) ∧
          ∃ request, (lettersStore (· < 5)).grant request = false) ∨
        ∃ addr slack, result = some addr ∧ Holds store' (letters.cells none none + 0 +
          {(addr, .chars (filled (Json.text false 0 (.array [.string ⟨lit "a", by decide⟩] : Json Rat))
            (some 0 :: slack)))})) :=
  cJsonPrint_leaves false shows_letters (by decide) (holds_letters (· < 5))

end Witness

end DistStore.JsonNodeText

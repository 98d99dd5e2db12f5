import DistStore.JsonNodePrint

/-!
# Putting texts together

The texts of the children lie in blocks that an array points at.  They are
copied behind each other into one block, whose size has been counted before, and
given back on the way; when an allocation fails they are given back as well.
-/

set_option autoImplicit false

namespace DistStore.JsonNodeCompose

open CMemory CHeap JsonPrint JsonTree JsonNodes JsonNodePrint

/-- A text in a block of its own. -/
structure Printed where
  addr : Nat
  text : Text
  slack : List (Option Byte)

section Entries

variable {D : Type} {generous : Prop}

def Printed.cells (D : Type) (printed : Printed) : Cells (Block D) :=
  (Name.owned printed.addr printed.text printed.slack).cells D

def entryCell (D : Type) : Option Printed → Cells (Block D)
  | none => 0
  | some printed => printed.cells D

def entryCells (D : Type) (entries : List (Option Printed)) : Cells (Block D) :=
  (entries.map (entryCell D)).sum

theorem entryCell_some (printed : Printed) : entryCell D (some printed) = printed.cells D := rfl

theorem entryCells_cons (entry : Option Printed) (rest : List (Option Printed)) :
    entryCells D (entry :: rest) = entryCell D entry + entryCells D rest := List.sum_cons

theorem entryCells_none (count : Nat) : entryCells D (List.replicate count none) = 0 := by
  unfold entryCells
  rw [List.map_replicate, List.sum_replicate]
  exact nsmul_zero count

def addrs (entries : List (Option Printed)) : List (Option Nat) := entries.map (Option.map Printed.addr)

theorem triple_loadPointer (entries : Nat) {pointers : List (Option Nat)} {i : Nat}
    {pointer : Option Nat} (found : pointers[i]? = some pointer) :
    Triple generous {(entries, .pointers pointers)} (loadPointer (D := D) entries i)
      fun result after => result = pointer ∧ after = {(entries, Block.pointers pointers)} := by
  refine (triple_load entries (Block.pointers pointers)).bind (add_zero _).symm ?_
  rintro value after ⟨rfl, rfl⟩
  rw [add_zero]
  simp only [found]
  exact triple_pure ⟨rfl, rfl⟩

theorem triple_savePointer (entries : Nat) {pointers : List (Option Nat)} {i : Nat}
    (pointer : Option Nat) (inside : i < pointers.length) :
    Triple generous {(entries, .pointers pointers)} (savePointer (D := D) entries i pointer)
      fun _ after => after = {(entries, Block.pointers (pointers.set i pointer))} := by
  refine (triple_load entries (Block.pointers pointers)).bind (add_zero _).symm ?_
  rintro value after ⟨rfl, rfl⟩
  rw [add_zero]
  simp only [inside, if_true]
  exact triple_save entries _ _

theorem triple_freeEntry (entry : Option Printed) :
    Triple generous (entryCell D entry) (free (given (entry.map Printed.addr)))
      fun _ after => after = 0 := by
  cases entry with
  | none => exact triple_pure rfl
  | some printed => exact triple_release printed.addr _

theorem addrs_at (before rest : List (Option Printed)) (entry : Option Printed) :
    (addrs (before ++ entry :: rest))[before.length]? = some (entry.map Printed.addr) := by
  unfold addrs
  rw [List.map_append, List.getElem?_append_right (by simp), List.length_map, Nat.sub_self,
    List.map_cons, List.getElem?_cons_zero]

theorem triple_freeEntries (entries : Nat) (before rest : List (Option Printed)) :
    Triple generous ({(entries, .pointers (addrs (before ++ rest)))} + entryCells D rest)
      (freeEntries entries rest.length before.length)
      fun _ after => after = {(entries, .pointers (addrs (before ++ rest)))} := by
  induction rest generalizing before with
  | nil => exact triple_pure (add_zero _)
  | cons entry rest inductionHypothesis =>
      rw [entryCells_cons, List.length_cons]
      refine (triple_loadPointer entries (addrs_at before rest entry)).ask rfl ?_
      rintro _ rfl
      refine (triple_freeEntry entry).bind (add_left_comm _ _ _) ?_
      rintro _ _ rfl
      rw [zero_add]
      have later := inductionHypothesis (before ++ [entry])
      rw [List.append_assoc, List.length_append] at later
      exact later

theorem triple_freeMembers (names entries : Nat) (before before' rest rest' : List (Option Printed))
    (reached : before.length = before'.length) (paired : rest.length = rest'.length) :
    Triple generous ({(names, .pointers (addrs (before ++ rest)))} +
        {(entries, .pointers (addrs (before' ++ rest')))} + (entryCells D rest + entryCells D rest'))
      (freeMembers names entries rest.length before.length)
      fun _ after => after = {(names, .pointers (addrs (before ++ rest)))} +
        {(entries, .pointers (addrs (before' ++ rest')))} := by
  induction rest generalizing before before' rest' with
  | nil =>
      cases rest' with
      | nil => exact triple_pure (add_zero _)
      | cons entry rest' => cases paired
  | cons name rest inductionHypothesis =>
      cases rest' with
      | nil => cases paired
      | cons entry rest' =>
          rw [entryCells_cons, entryCells_cons, List.length_cons]
          refine (triple_loadPointer names (addrs_at before rest name)).ask (add_assoc _ _ _) ?_
          rintro _ rfl
          refine (triple_freeEntry name).bind (show _ = _ +
            ({(names, .pointers (addrs (before ++ name :: rest)))} +
              {(entries, .pointers (addrs (before' ++ entry :: rest')))} +
              (entryCells D rest + (entryCell D entry + entryCells D rest'))) by ac_rfl) ?_
          rintro _ _ rfl
          rw [zero_add]
          have found := addrs_at before' rest' entry
          rw [← reached] at found
          refine (triple_loadPointer entries found).ask (show _ = _ +
            ({(names, .pointers (addrs (before ++ name :: rest)))} +
              (entryCells D rest + (entryCell D entry + entryCells D rest'))) by ac_rfl) ?_
          rintro _ rfl
          refine (triple_freeEntry entry).bind (show _ = _ +
            ({(names, .pointers (addrs (before ++ name :: rest)))} +
              {(entries, .pointers (addrs (before' ++ entry :: rest')))} +
              (entryCells D rest + entryCells D rest')) by ac_rfl) ?_
          rintro _ _ rfl
          rw [zero_add]
          have later := inductionHypothesis (before ++ [name]) (before' ++ [entry]) rest'
            (by rw [List.length_append, List.length_append, reached]; rfl) (Nat.succ.inj paired)
          rw [List.append_assoc, List.append_assoc, List.length_append] at later
          exact later

end Entries

section Composing

variable {D : Type} {generous : Prop} (fmt : Bool)

theorem itemsText_cons (entry : Bytes) (rest : List Bytes) :
    itemsText fmt (entry :: rest) =
      entry ++ (itemsMark fmt rest.length ++ itemsText fmt rest) := by
  cases rest with
  | nil => exact (List.append_nil entry).symm
  | cons next rest => rfl

theorem membersText_cons (depth : Nat) (entry : Bytes × Bytes) (rest : List (Bytes × Bytes)) :
    membersText fmt depth (entry :: rest) =
      memberText fmt depth entry ++ (membersMark fmt rest.length ++ membersText fmt depth rest) := by
  cases rest with
  | nil =>
      show memberText fmt depth entry ++ newline fmt = _ ++ (([] ++ newline fmt) ++ [])
      rw [List.append_nil, List.nil_append]
  | cons next rest => rfl

def textsOf (entries : List Printed) : List Bytes := entries.map fun printed => printed.text.val

def pairsOf (pairs : List (Printed × Printed)) : List (Bytes × Bytes) :=
  pairs.map fun pair => (pair.1.text.val, pair.2.text.val)

theorem triple_writeMark (out count : Nat) (text : Bytes) (slack : List (Option Byte)) {ptr : Nat}
    (behind : ptr = text.length) (room : (itemsMark fmt count).length < slack.length) :
    Triple generous {(out, .chars (filled text slack))}
      (write (D := D) out ptr (if count = 0 then [] else itemsMark fmt count ++ [0]))
      fun _ after => Wrote out (text ++ itemsMark fmt count)
        (slack.length - (itemsMark fmt count).length) after := by
  split
  next none =>
    subst none
    exact triple_writes out text [] slack behind (Nat.zero_le _)
  next => exact triple_writesNul out text (itemsMark fmt count) slack behind room

theorem triple_loadPrinted (printed : Printed) :
    Triple generous (printed.cells D) (loadText (given (some printed.addr)))
      fun result after => result = printed.text.val ∧ after = printed.cells D :=
  triple_loadText_heap printed.addr printed.text printed.slack

theorem triple_composeItems (entries out : Nat) (before : List (Option Printed))
    (rest : List Printed) (text : Bytes) (slack : List (Option Byte)) {ptr : Nat}
    (behind : ptr = text.length) (room : (itemsText fmt (textsOf rest)).length < slack.length) :
    Triple generous ({(entries, .pointers (addrs (before ++ rest.map some)))} +
        (entryCells D (rest.map some) + {(out, .chars (filled text slack))}))
      (composeItems fmt entries out rest.length before.length ptr)
      fun result after => result = (text ++ itemsText fmt (textsOf rest)).length ∧
        ∃ cells, after = {(entries, .pointers (addrs (before ++ rest.map some)))} + cells ∧
          Wrote out (text ++ itemsText fmt (textsOf rest))
            (slack.length - (itemsText fmt (textsOf rest)).length) cells := by
  induction rest generalizing before text slack ptr with
  | nil =>
      refine triple_pure ⟨?_, _, congrArg _ (zero_add _), slack, rfl, ?_⟩
      · rw [behind]
        exact congrArg List.length (List.append_nil text).symm
      · rw [show itemsText fmt (textsOf []) = [] from rfl, List.append_nil]
  | cons printed rest inductionHypothesis =>
      have split : itemsText fmt (textsOf (printed :: rest)) = printed.text.val ++
          (itemsMark fmt rest.length ++ itemsText fmt (textsOf rest)) := by
        have parts := itemsText_cons fmt printed.text.val (textsOf rest)
        rwa [show (textsOf rest).length = rest.length from List.length_map _] at parts
      rw [split, List.length_append, List.length_append] at room
      have found := addrs_at before (rest.map some) (some printed)
      rw [List.map_cons, entryCells_cons, List.length_cons]
      refine (triple_loadPointer entries found).ask rfl ?_
      rintro _ rfl
      refine (triple_loadPrinted printed).ask (show _ = _ +
        ({(entries, .pointers (addrs (before ++ some printed :: rest.map some)))} +
          (entryCells D (rest.map some) + {(out, .chars (filled text slack))})) by
          rw [entryCell_some]; ac_rfl) ?_
      rintro _ rfl
      refine (triple_write out text printed.text.val slack behind (by omega)).bind (show _ = _ +
        ({(entries, .pointers (addrs (before ++ some printed :: rest.map some)))} +
          (printed.cells D + entryCells D (rest.map some))) by rw [entryCell_some]; ac_rfl) ?_
      rintro _ _ rfl
      refine (triple_writeMark fmt out rest.length _ _ (by rw [behind, List.length_append])
        (by rw [List.length_drop]; omega)).bind rfl ?_
      rintro _ _ ⟨left, length, rfl⟩
      rw [List.length_drop] at length
      refine (triple_freeEntry (some printed)).bind (show _ = _ +
        ({(entries, .pointers (addrs (before ++ some printed :: rest.map some)))} +
          (entryCells D (rest.map some) + {(out, .chars (filled
            (text ++ printed.text.val ++ itemsMark fmt rest.length) left))})) by
              rw [entryCell_some]; ac_rfl) ?_
      rintro _ _ rfl
      rw [zero_add]
      have later := inductionHypothesis (before ++ [some printed])
        (text ++ printed.text.val ++ itemsMark fmt rest.length) left
        (show ptr + printed.text.val.length + (itemsMark fmt rest.length).length = _ by
          rw [behind, List.length_append, List.length_append]) (by omega)
      rw [List.append_assoc before, List.length_append] at later
      refine later.weaken ?_
      rintro _ _ ⟨rfl, cells, rfl, last, length', rfl⟩
      rw [split, ← List.append_assoc, ← List.append_assoc]
      refine ⟨rfl, _, rfl, last, ?_, rfl⟩
      rw [List.length_append, List.length_append]
      omega

theorem memberText_length (depth : Nat) (entry : Bytes × Bytes) :
    (memberText fmt depth entry).length = (indent fmt depth).length + entry.1.length +
      (58 :: indent fmt 1).length + entry.2.length := by
  unfold memberText
  simp only [List.length_append, List.length_cons]
  omega

theorem triple_composeMembers (names entries out depth : Nat) (before before' : List (Option Printed))
    (rest : List (Printed × Printed)) (text : Bytes) (slack : List (Option Byte)) {ptr : Nat}
    (reached : before.length = before'.length) (behind : ptr = text.length)
    (room : (membersText fmt depth (pairsOf rest)).length < slack.length) :
    Triple generous ({(names, .pointers (addrs (before ++ rest.map fun pair => some pair.1)))} +
        {(entries, .pointers (addrs (before' ++ rest.map fun pair => some pair.2)))} +
        (entryCells D (rest.map fun pair => some pair.1) +
          entryCells D (rest.map fun pair => some pair.2) + {(out, .chars (filled text slack))}))
      (composeMembers fmt names entries out depth rest.length before.length ptr)
      fun result after => result = (text ++ membersText fmt depth (pairsOf rest)).length ∧
        ∃ cells, after = {(names, .pointers (addrs (before ++ rest.map fun pair => some pair.1)))} +
            {(entries, .pointers (addrs (before' ++ rest.map fun pair => some pair.2)))} + cells ∧
          Wrote out (text ++ membersText fmt depth (pairsOf rest))
            (slack.length - (membersText fmt depth (pairsOf rest)).length) cells := by
  induction rest generalizing before before' text slack ptr with
  | nil =>
      refine triple_pure ⟨?_, _, congrArg _ ((congrArg (· + _) (add_zero _)).trans (zero_add _)),
        slack, rfl, ?_⟩
      · rw [behind]
        exact congrArg List.length (List.append_nil text).symm
      · rw [show membersText fmt depth (pairsOf []) = [] from rfl, List.append_nil]
  | cons pair rest inductionHypothesis =>
      obtain ⟨name, entry⟩ := pair
      have split : membersText fmt depth (pairsOf ((name, entry) :: rest)) =
          memberText fmt depth (name.text.val, entry.text.val) ++
            (membersMark fmt rest.length ++ membersText fmt depth (pairsOf rest)) := by
        have parts := membersText_cons fmt depth (name.text.val, entry.text.val) (pairsOf rest)
        rwa [show (pairsOf rest).length = rest.length from List.length_map _] at parts
      rw [split, List.length_append, List.length_append, memberText_length] at room
      simp only [List.map_cons, entryCells_cons, List.length_cons]
      generalize namesAre : addrs (before ++ some name :: rest.map fun pair => some pair.1) = ns
      generalize entriesAre : addrs (before' ++ some entry :: rest.map fun pair => some pair.2) = es
      have foundName : ns[before.length]? = _ := namesAre ▸ addrs_at before _ (some name)
      have foundEntry : es[before.length]? = _ := entriesAre ▸ reached ▸ addrs_at before' _ (some entry)
      generalize keysAre : entryCells D (rest.map fun pair => some pair.1) = keys
      generalize valuesAre : entryCells D (rest.map fun pair => some pair.2) = values
      rw [composeMembers, show ({(names, Block.pointers ns)} + {(entries, .pointers es)} +
        (entryCell D (some name) + keys + (entryCell D (some entry) + values) +
          {(out, .chars (filled text slack))}) : Cells (Block D)) =
        {(out, .chars (filled text slack))} + (name.cells D + entry.cells D +
          ({(names, .pointers ns)} + {(entries, .pointers es)} + (keys + values))) by
            rw [entryCell_some, entryCell_some]; ac_rfl]
      generalize othersAre : ({(names, Block.pointers ns)} + {(entries, .pointers es)} +
        (keys + values) : Cells (Block D)) = others
      have namesIn : ∀ cells : Cells (Block D), cells + (name.cells D + entry.cells D + others) =
          {(names, .pointers ns)} + (cells + (name.cells D + entry.cells D +
            ({(entries, .pointers es)} + (keys + values)))) := by
        intro cells
        rw [← othersAre]
        ac_rfl
      have entriesIn : ∀ cells : Cells (Block D), cells + (name.cells D + entry.cells D + others) =
          {(entries, .pointers es)} + (cells + (name.cells D + entry.cells D +
            ({(names, .pointers ns)} + (keys + values)))) := by
        intro cells
        rw [← othersAre]
        ac_rfl
      have nameIn : ∀ cells : Cells (Block D), cells + (name.cells D + entry.cells D + others) =
          name.cells D + (cells + (entry.cells D + others)) := fun cells => by ac_rfl
      have entryIn : ∀ cells : Cells (Block D), cells + (name.cells D + entry.cells D + others) =
          entry.cells D + (cells + (name.cells D + others)) := fun cells => by ac_rfl
      dsimp only at room
      refine (triple_writes out text (indent fmt depth) slack behind (by omega)).bind rfl ?_
      rintro _ _ ⟨slack1, length1, rfl⟩
      refine (triple_loadPointer names foundName).ask (namesIn _) ?_
      rintro _ rfl
      refine (triple_loadPrinted name).ask (nameIn _) ?_
      rintro _ rfl
      refine (triple_writes out _ name.text.val slack1 (by rw [behind, List.length_append])
        (by omega)).bind rfl ?_
      rintro _ _ ⟨slack2, length2, rfl⟩
      refine (triple_writes out _ (58 :: indent fmt 1) slack2
        (by rw [behind, List.length_append, List.length_append]) (by omega)).bind rfl ?_
      rintro _ _ ⟨slack3, length3, rfl⟩
      refine (triple_loadPointer entries foundEntry).ask (entriesIn _) ?_
      rintro _ rfl
      refine (triple_loadPrinted entry).ask (entryIn _) ?_
      rintro _ rfl
      refine (triple_writesNul out _ entry.text.val slack3
        (by rw [behind, List.length_append, List.length_append, List.length_append])
        (by omega)).bind rfl ?_
      rintro _ _ ⟨slack4, length4, rfl⟩
      refine (triple_writesNul out _ (membersMark fmt rest.length) slack4
        (by rw [behind, List.length_append, List.length_append, List.length_append,
          List.length_append]) (by omega)).bind rfl ?_
      rintro _ _ ⟨slack5, length5, rfl⟩
      refine (triple_freeEntry (some name)).bind (nameIn _) ?_
      rintro _ _ rfl
      rw [zero_add]
      refine (triple_freeEntry (some entry)).bind (add_left_comm _ _ _) ?_
      rintro _ _ rfl
      rw [zero_add]
      have later := inductionHypothesis (before ++ [some name]) (before' ++ [some entry])
        (text ++ indent fmt depth ++ name.text.val ++ (58 :: indent fmt 1) ++ entry.text.val ++
          membersMark fmt rest.length) slack5
        (by rw [List.length_append, List.length_append, reached]; rfl)
        (show ptr + (indent fmt depth).length + name.text.val.length + (58 :: indent fmt 1).length +
          entry.text.val.length + (membersMark fmt rest.length).length = _ by
            simp only [behind, List.length_append]) (by omega)
      rw [List.append_assoc before, List.append_assoc before', List.length_append, keysAre, valuesAre]
        at later
      simp only [List.singleton_append, namesAre, entriesAre] at later
      rw [show ({(out, Block.chars (filled (text ++ indent fmt depth ++ name.text.val ++
          (58 :: indent fmt 1) ++ entry.text.val ++ membersMark fmt rest.length) slack5))} + others :
          Cells (Block D)) = {(names, .pointers ns)} + {(entries, .pointers es)} + (keys + values +
            {(out, .chars (filled (text ++ indent fmt depth ++ name.text.val ++
              (58 :: indent fmt 1) ++ entry.text.val ++ membersMark fmt rest.length) slack5))}) by
        rw [← othersAre]; ac_rfl]
      have whole : text ++ indent fmt depth ++ name.text.val ++ (58 :: indent fmt 1) ++
          entry.text.val ++ membersMark fmt rest.length ++ membersText fmt depth (pairsOf rest) =
            text ++ membersText fmt depth (pairsOf ((name, entry) :: rest)) := by
        rw [split, memberText]
        simp only [List.append_assoc, List.cons_append]
      rw [whole] at later
      refine later.weaken ?_
      rintro _ _ ⟨rfl, cells, rfl, last, length', rfl⟩
      refine ⟨rfl, _, rfl, last, ?_, rfl⟩
      rw [split, List.length_append, List.length_append, memberText_length]
      dsimp only
      omega

end Composing

/-! ## Lengths -/

section Rooms

variable (fmt : Bool)

/-- What the entries add to `len` in `print_array`. -/
def itemsRoom (entries : List Bytes) : Nat :=
  (entries.map fun entry => entry.length + 2 + (space fmt).length).sum

/-- What the entries add to `len` in `print_object`. -/
def membersRoom (depth : Nat) (entries : List (Bytes × Bytes)) : Nat :=
  (entries.map fun entry =>
    entry.2.length + entry.1.length + 2 + if fmt then 2 + depth else 0).sum

theorem itemsRoom_cons (entry : Bytes) (rest : List Bytes) :
    itemsRoom fmt (entry :: rest) = entry.length + 2 + (space fmt).length + itemsRoom fmt rest :=
  List.sum_cons

theorem membersRoom_cons (depth : Nat) (entry : Bytes × Bytes) (rest : List (Bytes × Bytes)) :
    membersRoom fmt depth (entry :: rest) = entry.2.length + entry.1.length + 2 +
      (if fmt then 2 + depth else 0) + membersRoom fmt depth rest := List.sum_cons

theorem itemsMark_length (count : Nat) :
    (itemsMark fmt count).length = if count = 0 then 0 else 1 + (space fmt).length := by
  unfold itemsMark
  split
  · rfl
  · rw [List.length_cons, add_comm]

theorem itemsText_room (entries : List Bytes) :
    (itemsText fmt entries).length ≤ itemsRoom fmt entries ∧
      itemsRoom fmt entries ≤ 2 * (itemsText fmt entries).length + 3 := by
  have single : (space fmt).length ≤ 1 := by cases fmt <;> decide
  induction entries with
  | nil => exact ⟨Nat.zero_le _, Nat.zero_le _⟩
  | cons entry rest inductionHypothesis =>
      rw [itemsText_cons, List.length_append, List.length_append, itemsMark_length,
        itemsRoom_cons]
      cases rest with
      | nil =>
          rw [if_pos (show ([] : List Bytes).length = 0 from rfl), show itemsRoom fmt [] = 0 from rfl,
            show itemsText fmt [] = [] from rfl, List.length_nil]
          omega
      | cons next rest =>
          rw [if_neg (show ¬ (next :: rest).length = 0 from Nat.succ_ne_zero _)]
          omega

theorem length_le_itemsText {entries : List Bytes} {entry : Bytes} (member : entry ∈ entries) :
    entry.length ≤ (itemsText fmt entries).length := by
  induction entries with
  | nil => cases member
  | cons other rest inductionHypothesis =>
      rw [itemsText_cons, List.length_append, List.length_append]
      rcases List.mem_cons.mp member with rfl | inside
      · exact Nat.le_add_right _ _
      · have later := inductionHypothesis inside
        omega

theorem membersText_room (depth : Nat) (entries : List (Bytes × Bytes)) :
    (membersText fmt depth entries).length ≤ membersRoom fmt depth entries ∧
      membersRoom fmt depth entries ≤ (membersText fmt depth entries).length + 1 := by
  induction entries with
  | nil => exact ⟨Nat.zero_le _, Nat.zero_le _⟩
  | cons entry rest inductionHypothesis =>
      have sizes : (membersMark fmt rest.length).length = (if rest.length = 0 then 0 else 1) +
          (newline fmt).length ∧ (indent fmt depth).length + (indent fmt 1).length +
            (newline fmt).length = if fmt then 2 + depth else 0 := by
        unfold membersMark indent newline tabs
        refine ⟨?_, ?_⟩
        · split <;> rw [List.length_append] <;> rfl
        · cases fmt
          · rfl
          · show (List.replicate depth 9).length + 1 + 1 = _
            rw [List.length_replicate, if_pos rfl]
            omega
      rw [membersText_cons, List.length_append, List.length_append, memberText_length, sizes.1,
        List.length_cons, membersRoom_cons, ← sizes.2]
      cases rest with
      | nil =>
          rw [if_pos (show ([] : List (Bytes × Bytes)).length = 0 from rfl),
            show membersRoom fmt depth [] = 0 from rfl, show membersText fmt depth [] = [] from rfl,
            List.length_nil]
          omega
      | cons next rest =>
          rw [if_neg (show ¬ (next :: rest).length = 0 from Nat.succ_ne_zero _)]
          omega

theorem length_le_membersText (depth : Nat) {entries : List (Bytes × Bytes)} {entry : Bytes × Bytes}
    (member : entry ∈ entries) :
    entry.1.length ≤ (membersText fmt depth entries).length ∧
      entry.2.length ≤ (membersText fmt depth entries).length := by
  induction entries with
  | nil => cases member
  | cons other rest inductionHypothesis =>
      rw [membersText_cons, List.length_append, List.length_append, memberText_length]
      rcases List.mem_cons.mp member with rfl | inside
      · omega
      · have later := inductionHypothesis inside
        omega

/-- The lengths in `int` are those of the texts. -/
def FitsInt (text : Bytes) : Prop := 2 * text.length + 8 < 2 ^ 31

theorem fits_item {entries : List Bytes} (small : FitsInt (arrayText fmt entries)) {entry : Bytes}
    (member : entry ∈ entries) : FitsInt entry := by
  have shorter := length_le_itemsText fmt member
  unfold FitsInt arrayText at *
  simp only [List.length_cons, List.length_append] at small
  omega

theorem fits_member (depth : Nat) {entries : List (Bytes × Bytes)}
    (small : FitsInt (objectText fmt depth entries)) {entry : Bytes × Bytes} (member : entry ∈ entries) :
    FitsInt entry.1 ∧ FitsInt entry.2 := by
  have shorter := length_le_membersText fmt (depth + 1) member
  unfold FitsInt objectText at *
  simp only [List.length_cons, List.length_append] at small
  omega

end Rooms

end DistStore.JsonNodeCompose

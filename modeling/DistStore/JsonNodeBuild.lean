import DistStore.JsonNodeParse
import DistStore.JsonNodeText
import DistStore.JsonRoundTrip

/-!
# Trees that are parsed into memory

A text that the parser reads leaves the blocks of its tree and nothing else; one
that it does not read, and one for which an allocation is refused, leaves
nothing.  A tree that is printed and parsed is there twice.
-/

set_option autoImplicit false

namespace DistStore.JsonNodeBuild

open CMemory CHeap JsonTree JsonScalars JsonSafety JsonNodes JsonNodeParse
open JsonParse (Parser here skip startsWith)
open JsonNodePrint (cJsonPrint)
open JsonNodeText (triple_cJsonPrint letters lettersStore shows_letters holds_letters)
open JsonRoundTrip (Integral cJsonParseWithOpts_text)

/-! ## The recursion -/

section Recursion

variable (generous : Prop)

/-- A function that reads a value into a fresh item. -/
def Fills (D : Type) (program : Nat → Bytes → Mem (Block D) Reached)
    (run : Bytes → Parser (Json D × Bytes)) : Prop :=
  ∀ (item : Item D) (prev : Option Nat) (value : Bytes), Fresh item → Ends (run value) →
    Triple generous (item.cells prev none) (program item.addr value)
      fun reached after => ∃ item', item'.addr = item.addr ∧ item'.string = item.string ∧
        Sound item' ∧ after = item'.cells prev none ∧
        Follows generous (run value) (fun json => Shows json item') reached

/-- A function that reads a name and a value. -/
def FillsMember (D : Type) (program : Nat → Bytes → Mem (Block D) Reached)
    (run : Bytes → Parser ((Text × Json D) × Bytes)) : Prop :=
  ∀ (item : Item D) (prev : Option Nat) (value : Bytes), Fresh item → item.string = .null →
    Ends (run value) → Triple generous (item.cells prev none) (program item.addr value)
      fun reached after => ∃ item', item'.addr = item.addr ∧ Sound item' ∧
        after = item'.cells prev none ∧
        Follows generous (run value) (fun member => ShowMember member item') reached

/-- A loop that adds siblings behind an item. -/
def Extends (D : Type) {α : Type} (program : Nat → Bytes → Mem (Block D) Reached)
    (run : Bytes → Parser (List α × Bytes)) (shown : List α → List (Item D) → Prop) : Prop :=
  ∀ (item : Item D) (prev : Option Nat) (value : Bytes), Ends (run value) →
    Triple generous (item.cells prev none) (program item.addr value)
      fun reached after => ∃ more, (∀ item ∈ more, Sound item) ∧
        after = chain prev none (item :: more) ∧
        Follows generous (run value) (fun next => shown next more) reached

variable {D : Type} [Double D]

/-- What the functions of the recursion do with so much fuel. -/
structure Builds (D : Type) [Double D] (fuel : Nat) : Prop where
  value : Fills generous D (parseValue fuel) (JsonParse.parseValue fuel)
  array : Fills generous D (parseArray fuel) (JsonParse.parseArray fuel)
  items : Extends generous D (parseItems fuel) (JsonParse.parseItems fuel) ShowItems
  object : Fills generous D (parseObject fuel) (JsonParse.parseObject fuel)
  member : FillsMember generous D (parseMember fuel) (JsonParse.parseMember fuel)
  members : Extends generous D (parseMembers fuel) (JsonParse.parseMembers fuel) ShowMembers

theorem not_ends_fuel {α : Type} : ¬ Ends (.error .fuel : Parser α) := by
  rintro (⟨_, ⟨⟩⟩ | ⟨_, ⟨⟩⟩)

theorem builds_zero : Builds generous D 0 where
  value _ _ _ _ ends := absurd ends not_ends_fuel
  array _ _ _ _ ends := absurd ends not_ends_fuel
  items _ _ _ ends := absurd ends not_ends_fuel
  object _ _ _ _ ends := absurd ends not_ends_fuel
  member _ _ _ _ _ ends := absurd ends not_ends_fuel
  members _ _ _ ends := absurd ends not_ends_fuel

section Step

variable {generous} {fuel : Nat} (builds : Builds generous D fuel)

include builds

theorem builds_items :
    Extends generous D (parseItems (fuel + 1)) (JsonParse.parseItems (fuel + 1)) ShowItems := by
  intro item prev value ends
  rw [JsonParse.parseItems] at ends ⊢
  rw [parseItems]
  obtain ⟨byte, ranByte, ends⟩ := ends.looked (looks_here value)
  rw [scan_bind ranByte, ranByte, found_bind]
  by_cases comma : byte = 44
  · rw [if_pos comma] at ends
    rw [if_pos comma, if_pos comma]
    obtain ⟨start, ranStart, ends⟩ := ends.looked (looks_skip value.tail)
    rw [ranStart, found_bind]
    refine triple_newBlank.bind (zero_add _).symm ?_
    rintro _ _ (⟨rfl, refused, rfl⟩ | ⟨addr, rfl, rfl⟩)
    · rw [zero_add]
      refine triple_pure ⟨[], List.forall_mem_nil _, (chain_single _ _ _).symm, follows_refused refused⟩
    · refine (triple_setNext item prev none (some addr)).bind (add_comm _ _) ?_
      rintro _ _ rfl
      refine (triple_setPrev (blank addr) none (some item.addr) none).bind (add_comm _ _) ?_
      rintro _ _ rfl
      rw [scan_bind rfl]
      refine (builds.value (blank addr) (some item.addr) start (fresh_blank addr) ends.first).bind rfl ?_
      rintro reached _ ⟨item', same, -, sound, rfl, follows⟩
      change item'.addr = addr at same
      cases reached with
      | null ep =>
          have alone := linked_behind item item' prev same []
          rw [chain_nil, add_zero] at alone
          refine triple_pure ⟨[item'], ?_, alone, follows.stopped⟩
          exact List.forall_mem_singleton.mpr sound
      | at_ rest =>
          obtain ⟨json, ranValue, shows⟩ := follows.at
          have ends := ends.rest ranValue
          obtain ⟨behind, ranSkip, ends⟩ := ends.looked (looks_skip rest)
          rw [ranValue]
          dsimp only
          rw [scan_bind ranSkip, found_bind]
          dsimp only
          rw [ranSkip, found_bind]
          have later := builds.items item' (some item.addr) behind ends.first
          rw [same] at later
          refine later.within rfl ?_
          rintro reached _ ⟨more, sounds, rfl, follows'⟩
          refine ⟨item' :: more, List.forall_mem_cons.mpr ⟨sound, sounds⟩, ?_,
            follows'.map fun next shown => ?_⟩
          · rw [chain_cons, linked_behind item item' prev same]
          · rw [ShowItems]
            exact ⟨item', more, rfl, shows, shown⟩
  · rw [if_neg comma, if_neg comma]
    exact triple_pure ⟨[], List.forall_mem_nil _, (chain_single _ _ _).symm, follows_at (by rw [ShowItems])⟩

theorem builds_members :
    Extends generous D (parseMembers (fuel + 1)) (JsonParse.parseMembers (fuel + 1)) ShowMembers := by
  intro item prev value ends
  rw [JsonParse.parseMembers] at ends ⊢
  rw [parseMembers]
  obtain ⟨byte, ranByte, ends⟩ := ends.looked (looks_here value)
  rw [scan_bind ranByte, ranByte, found_bind]
  by_cases comma : byte = 44
  · rw [if_pos comma] at ends
    rw [if_pos comma, if_pos comma]
    refine triple_newBlank.bind (zero_add _).symm ?_
    rintro _ _ (⟨rfl, refused, rfl⟩ | ⟨addr, rfl, rfl⟩)
    · rw [zero_add]
      refine triple_pure ⟨[], List.forall_mem_nil _, (chain_single _ _ _).symm, follows_refused refused⟩
    · refine (triple_setNext item prev none (some addr)).bind (add_comm _ _) ?_
      rintro _ _ rfl
      refine (triple_setPrev (blank addr) none (some item.addr) none).bind (add_comm _ _) ?_
      rintro _ _ rfl
      refine (builds.member (blank addr) (some item.addr) value.tail (fresh_blank addr) rfl
        ends.first).bind rfl ?_
      rintro reached _ ⟨item', same, sound, rfl, follows⟩
      change item'.addr = addr at same
      cases reached with
      | null ep =>
          have alone := linked_behind item item' prev same []
          rw [chain_nil, add_zero] at alone
          refine triple_pure ⟨[item'], ?_, alone, follows.stopped⟩
          exact List.forall_mem_singleton.mpr sound
      | at_ rest =>
          obtain ⟨member, ranMember, shows⟩ := follows.at
          have ends := ends.rest ranMember
          rw [ranMember]
          dsimp only
          rw [found_bind]
          have later := builds.members item' (some item.addr) rest ends.first
          rw [same] at later
          refine later.within rfl ?_
          rintro reached _ ⟨more, sounds, rfl, follows'⟩
          refine ⟨item' :: more, List.forall_mem_cons.mpr ⟨sound, sounds⟩, ?_,
            follows'.map fun next shown => ?_⟩
          · rw [chain_cons, linked_behind item item' prev same]
          · rw [ShowMembers]
            exact ⟨item', more, rfl, shows, shown⟩
  · rw [if_neg comma, if_neg comma]
    exact triple_pure ⟨[], List.forall_mem_nil _, (chain_single _ _ _).symm, follows_at (by rw [ShowMembers])⟩

theorem builds_array : Fills generous D (parseArray (fuel + 1)) (JsonParse.parseArray (fuel + 1)) := by
  intro item prev value fresh ends
  rw [JsonParse.parseArray] at ends ⊢
  rw [parseArray]
  obtain ⟨byte, ranByte, ends⟩ := ends.looked (looks_here value)
  rw [scan_bind ranByte, ranByte, found_bind]
  dsimp only at ends ⊢
  by_cases bracket : byte = 91
  · rw [if_neg (not_not.mpr bracket)] at ends
    rw [if_neg (not_not.mpr bracket), if_neg (not_not.mpr bracket)]
    obtain ⟨start, ranStart, ends⟩ := ends.looked (looks_skip value.tail)
    obtain ⟨first', ranFirst, ends⟩ := ends.looked (looks_here start)
    rw [ranStart, found_bind, ranFirst, found_bind]
    have empty := fresh.cells_withChildren cJsonArray [] prev none
    rw [chain_nil, add_zero] at empty
    have soundEmpty : Sound (Item.withChildren item cJsonArray []) :=
      fresh.sound_withChildren (by decide) (by decide) (List.forall_mem_nil _)
    rw [fresh.cells]
    refine (triple_setNode item.addr (item.node prev none) _).bind rfl ?_
    rintro _ _ rfl
    rw [scan_bind rfl, scan_bind ranFirst]
    by_cases close : first' = 93
    · rw [if_pos close, if_pos close, fresh.node_childless]
      exact triple_pure ⟨Item.withChildren item cJsonArray [], rfl, rfl, soundEmpty, empty.symm, follows_at (by
        rw [Shows, ShowItems]
        exact ⟨show cJsonArray &&& 255 = cJsonArray by decide, fresh.foreign, rfl⟩)⟩
    · rw [if_neg close] at ends
      rw [if_neg close, if_neg close]
      obtain ⟨start', ranStart', ends⟩ := ends.looked (looks_skip start)
      rw [ranStart', found_bind]
      refine triple_newBlank.bind (zero_add _).symm ?_
      rintro _ _ (⟨rfl, refused, rfl⟩ | ⟨addr, rfl, rfl⟩)
      · rw [zero_add]
        refine (triple_setNode item.addr _ _).bind rfl ?_
        rintro _ _ rfl
        exact triple_pure ⟨Item.withChildren item cJsonArray [], rfl, rfl, soundEmpty, empty.symm,
          follows_refused refused⟩
      · refine (triple_setNode item.addr _ _).bind (add_left_comm _ _ _) ?_
        rintro _ _ rfl
        have built : ∀ items, first items none = some addr →
            {(item.addr, Block.node { item.node prev none with type := cJsonArray, child := some addr })} +
              item.string.cells D + chain none none items =
                (Item.withChildren item cJsonArray items).cells prev none := by
          intro items starts
          rw [fresh.cells_withChildren, starts]
        dsimp only at built ⊢
        rw [scan_bind rfl]
        refine (builds.value (blank addr) none start' (fresh_blank addr) ends.first).bind
          (show _ = _ + ({(item.addr, Block.node { item.node prev none with
            type := cJsonArray, child := some addr })} + item.string.cells D) by ac_rfl) ?_
        rintro reached _ ⟨item', same, -, sound, rfl, follows⟩
        change item'.addr = addr at same
        have soundItems : ∀ more, (∀ item ∈ more, Sound item) →
            Sound (Item.withChildren item cJsonArray (item' :: more)) := fun more sounds =>
          fresh.sound_withChildren (by decide) (by decide) (List.forall_mem_cons.mpr ⟨sound, sounds⟩)
        have starts : ∀ more, first (item' :: more) none = some addr := fun more => congrArg some same
        cases reached with
        | null ep =>
            refine triple_pure ⟨Item.withChildren item cJsonArray [item'], rfl, rfl,
              soundItems [] (List.forall_mem_nil _), ?_, follows.stopped⟩
            rw [← built _ (starts []), chain_single, add_comm]
        | at_ rest =>
            obtain ⟨json, ranValue, shows⟩ := follows.at
            have ends := ends.rest ranValue
            obtain ⟨behind, ranBehind, ends⟩ := ends.looked (looks_skip rest)
            rw [ranValue, found_bind]
            dsimp only
            rw [scan_bind ranBehind, ranBehind, found_bind]
            have later := builds.items item' none behind ends.first
            rw [same] at later
            refine later.bind rfl ?_
            rintro reached _ ⟨more, sounds, rfl, follows'⟩
            have cells : chain none none (item' :: more) + ({(item.addr, Block.node
                { item.node prev none with type := cJsonArray, child := some addr })} +
                  item.string.cells D) =
                (Item.withChildren item cJsonArray (item' :: more)).cells prev none := by
              rw [← built _ (starts more), add_comm]
            cases reached with
            | null ep =>
                exact triple_pure ⟨Item.withChildren item cJsonArray (item' :: more), rfl, rfl,
                  soundItems more sounds, cells, follows'.stopped⟩
            | at_ rest' =>
                obtain ⟨next, ranItems, shown⟩ := follows'.at
                have ends := ends.rest ranItems
                obtain ⟨mark, ranMark, -⟩ := ends.looked (looks_here rest')
                rw [ranItems, found_bind]
                dsimp only
                rw [scan_bind ranMark, ranMark, found_bind]
                by_cases closes : mark = 93
                · rw [if_pos closes, if_pos closes]
                  refine triple_pure ⟨Item.withChildren item cJsonArray (item' :: more), rfl, rfl,
                    soundItems more sounds, cells, follows_at ?_⟩
                  rw [Shows, ShowItems]
                  exact ⟨show cJsonArray &&& 255 = cJsonArray by decide, fresh.foreign, item', more, rfl,
                    shows, shown⟩
                · rw [if_neg closes, if_neg closes]
                  exact triple_pure ⟨Item.withChildren item cJsonArray (item' :: more), rfl, rfl,
                    soundItems more sounds, cells, follows_ep rest'⟩
  · rw [if_pos bracket, if_pos bracket]
    exact triple_pure ⟨item, rfl, rfl, fresh.sound, rfl, follows_ep value⟩

theorem builds_object : Fills generous D (parseObject (fuel + 1)) (JsonParse.parseObject (fuel + 1)) := by
  intro item prev value fresh ends
  rw [JsonParse.parseObject] at ends ⊢
  rw [parseObject]
  obtain ⟨byte, ranByte, ends⟩ := ends.looked (looks_here value)
  rw [scan_bind ranByte, ranByte, found_bind]
  dsimp only at ends ⊢
  by_cases brace : byte = 123
  · rw [if_neg (not_not.mpr brace)] at ends
    rw [if_neg (not_not.mpr brace), if_neg (not_not.mpr brace)]
    obtain ⟨start, ranStart, ends⟩ := ends.looked (looks_skip value.tail)
    obtain ⟨first', ranFirst, ends⟩ := ends.looked (looks_here start)
    rw [ranStart, found_bind, ranFirst, found_bind]
    have empty := fresh.cells_withChildren cJsonObject [] prev none
    rw [chain_nil, add_zero] at empty
    have soundEmpty : Sound (Item.withChildren item cJsonObject []) :=
      fresh.sound_withChildren (by decide) (by decide) (List.forall_mem_nil _)
    rw [fresh.cells]
    refine (triple_setNode item.addr (item.node prev none) _).bind rfl ?_
    rintro _ _ rfl
    rw [scan_bind rfl, scan_bind ranFirst]
    by_cases close : first' = 125
    · rw [if_pos close, if_pos close, fresh.node_childless]
      exact triple_pure ⟨Item.withChildren item cJsonObject [], rfl, rfl, soundEmpty, empty.symm,
        follows_at (by
          rw [Shows, ShowMembers]
          exact ⟨show cJsonObject &&& 255 = cJsonObject by decide, fresh.foreign, rfl⟩)⟩
    · rw [if_neg close] at ends
      rw [if_neg close, if_neg close]
      refine triple_newBlank.bind (zero_add _).symm ?_
      rintro _ _ (⟨rfl, refused, rfl⟩ | ⟨addr, rfl, rfl⟩)
      · rw [zero_add]
        refine (triple_setNode item.addr _ _).bind rfl ?_
        rintro _ _ rfl
        exact triple_pure ⟨Item.withChildren item cJsonObject [], rfl, rfl, soundEmpty, empty.symm,
          follows_refused refused⟩
      · refine (triple_setNode item.addr _ _).bind (add_left_comm _ _ _) ?_
        rintro _ _ rfl
        have built : ∀ items, first items none = some addr →
            {(item.addr, Block.node { item.node prev none with type := cJsonObject, child := some addr })} +
              item.string.cells D + chain none none items =
                (Item.withChildren item cJsonObject items).cells prev none := by
          intro items starts
          rw [fresh.cells_withChildren, starts]
        dsimp only at built ⊢
        refine (builds.member (blank addr) none start (fresh_blank addr) rfl ends.first).bind
          (show _ = _ + ({(item.addr, Block.node { item.node prev none with
            type := cJsonObject, child := some addr })} + item.string.cells D) by ac_rfl) ?_
        rintro reached _ ⟨item', same, sound, rfl, follows⟩
        change item'.addr = addr at same
        have soundItems : ∀ more, (∀ item ∈ more, Sound item) →
            Sound (Item.withChildren item cJsonObject (item' :: more)) := fun more sounds =>
          fresh.sound_withChildren (by decide) (by decide) (List.forall_mem_cons.mpr ⟨sound, sounds⟩)
        have starts : ∀ more, first (item' :: more) none = some addr := fun more => congrArg some same
        cases reached with
        | null ep =>
            refine triple_pure ⟨Item.withChildren item cJsonObject [item'], rfl, rfl,
              soundItems [] (List.forall_mem_nil _), ?_, follows.stopped⟩
            rw [← built _ (starts []), chain_single, add_comm]
        | at_ rest =>
            obtain ⟨member, ranMember, shows⟩ := follows.at
            have ends := ends.rest ranMember
            rw [ranMember, found_bind]
            dsimp only
            have later := builds.members item' none rest ends.first
            rw [same] at later
            refine later.bind rfl ?_
            rintro reached _ ⟨more, sounds, rfl, follows'⟩
            have cells : chain none none (item' :: more) + ({(item.addr, Block.node
                { item.node prev none with type := cJsonObject, child := some addr })} +
                  item.string.cells D) =
                (Item.withChildren item cJsonObject (item' :: more)).cells prev none := by
              rw [← built _ (starts more), add_comm]
            cases reached with
            | null ep =>
                exact triple_pure ⟨Item.withChildren item cJsonObject (item' :: more), rfl, rfl,
                  soundItems more sounds, cells, follows'.stopped⟩
            | at_ rest' =>
                obtain ⟨next, ranMembers, shown⟩ := follows'.at
                have ends := ends.rest ranMembers
                obtain ⟨mark, ranMark, -⟩ := ends.looked (looks_here rest')
                rw [ranMembers, found_bind]
                dsimp only
                rw [scan_bind ranMark, ranMark, found_bind]
                by_cases closes : mark = 125
                · rw [if_pos closes, if_pos closes]
                  refine triple_pure ⟨Item.withChildren item cJsonObject (item' :: more), rfl, rfl,
                    soundItems more sounds, cells, follows_at ?_⟩
                  rw [Shows, ShowMembers]
                  exact ⟨show cJsonObject &&& 255 = cJsonObject by decide, fresh.foreign, item', more, rfl,
                    shows, shown⟩
                · rw [if_neg closes, if_neg closes]
                  exact triple_pure ⟨Item.withChildren item cJsonObject (item' :: more), rfl, rfl,
                    soundItems more sounds, cells, follows_ep rest'⟩
  · rw [if_pos brace, if_pos brace]
    exact triple_pure ⟨item, rfl, rfl, fresh.sound, rfl, follows_ep value⟩

theorem builds_member :
    FillsMember generous D (parseMember (fuel + 1)) (JsonParse.parseMember (fuel + 1)) := by
  intro item prev value fresh nameless ends
  rw [JsonParse.parseMember] at ends ⊢
  rw [parseMember]
  obtain ⟨start, ranStart, ends⟩ := ends.looked (looks_skip value)
  rw [scan_bind ranStart, ranStart, found_bind]
  refine (triple_parseString fresh prev none ends.first).bind (add_zero _).symm ?_
  rintro reached _ (⟨string, rest, out, slack, ranString, rfl, rfl⟩ | ⟨rfl, ⟨at_, ranString, rfl⟩ |
    ⟨rfl, refused⟩⟩)
  · have ends := ends.rest ranString
    obtain ⟨colon, ranColon, ends⟩ := ends.looked (looks_skip rest)
    obtain ⟨mark, ranMark, ends⟩ := ends.looked (looks_here colon)
    rw [ranString, found_bind, add_zero]
    dsimp only at ends ⊢
    rw [scan_bind ranColon, ranColon, found_bind, ranMark, found_bind]
    refine (triple_takeName nameless out string slack prev fresh.valuestring).bind (add_zero _).symm ?_
    rintro _ _ rfl
    rw [add_zero, scan_bind rfl]
    have named := fresh.named_ out string slack
    by_cases separates : mark = 58
    · rw [if_neg (not_not.mpr separates)] at ends
      rw [if_neg (not_not.mpr separates), if_neg (not_not.mpr separates)]
      obtain ⟨start', ranStart', ends⟩ := ends.looked (looks_skip colon.tail)
      rw [scan_bind ranStart', ranStart', found_bind]
      refine (builds.value (Item.withName item out string slack) prev start' named ends.first).bind
        (add_zero _).symm ?_
      rintro reached _ ⟨item', same, name, sound, rfl, follows⟩
      rw [add_zero]
      cases reached with
      | null ep => exact triple_pure ⟨item', same, sound, rfl, follows.stopped⟩
      | at_ rest' =>
          obtain ⟨json, ranValue, shows⟩ := follows.at
          have ends := ends.rest ranValue
          obtain ⟨last, ranLast, -⟩ := ends.looked (looks_skip rest')
          rw [ranValue, found_bind]
          dsimp only
          rw [scan_bind ranLast, ranLast, found_bind]
          refine triple_pure ⟨item', same, sound, rfl, follows_at ?_⟩
          rw [ShowMember, name]
          exact ⟨rfl, shows⟩
    · rw [if_pos separates, if_pos separates]
      exact triple_pure ⟨Item.withName item out string slack, rfl, named.sound, rfl, follows_ep colon⟩
  · rw [ranString, add_zero]
    exact triple_pure ⟨item, rfl, fresh.sound, rfl, follows_ep at_⟩
  · rw [add_zero]
    exact triple_pure ⟨item, rfl, fresh.sound, rfl, follows_refused refused⟩

theorem builds_value [IntDouble D] :
    Fills generous D (parseValue (fuel + 1)) (JsonParse.parseValue (fuel + 1)) := by
  intro item prev value fresh ends
  rw [JsonParse.parseValue] at ends ⊢
  rw [parseValue]
  obtain ⟨isNull, ranNull, ends⟩ := ends.looked (looks_startsWith _ value)
  rw [scan_bind ranNull, ranNull, found_bind]
  cases isNull with
  | true =>
      exact triple_scalar fresh prev cJsonNull item.valueint item.valuedouble _ rfl (by decide)
        (by decide) (by
          rw [Shows]
          exact show cJsonNull &&& 255 = cJsonNull by decide)
  | false =>
  rw [if_neg Bool.false_ne_true] at ends
  rw [if_neg Bool.false_ne_true, if_neg Bool.false_ne_true]
  obtain ⟨isFalse, ranFalse, ends⟩ := ends.looked (looks_startsWith _ value)
  rw [scan_bind ranFalse, ranFalse, found_bind]
  cases isFalse with
  | true =>
      exact triple_scalar fresh prev cJsonFalse item.valueint item.valuedouble _ rfl (by decide)
        (by decide) (by
          rw [Shows]
          exact show cJsonFalse &&& 255 = cJsonFalse by decide)
  | false =>
  rw [if_neg Bool.false_ne_true] at ends
  rw [if_neg Bool.false_ne_true, if_neg Bool.false_ne_true]
  obtain ⟨isTrue, ranTrue, ends⟩ := ends.looked (looks_startsWith _ value)
  rw [scan_bind ranTrue, ranTrue, found_bind]
  cases isTrue with
  | true =>
      exact triple_scalar fresh prev cJsonTrue 1 item.valuedouble _ rfl (by decide)
        (by decide) (by
          rw [Shows]
          exact show cJsonTrue &&& 255 = cJsonTrue by decide)
  | false =>
  rw [if_neg Bool.false_ne_true] at ends
  rw [if_neg Bool.false_ne_true, if_neg Bool.false_ne_true]
  obtain ⟨byte, ranByte, ends⟩ := ends.looked (looks_here value)
  rw [scan_bind ranByte, ranByte, found_bind]
  by_cases quote : byte = 34
  · rw [if_pos quote] at ends
    rw [if_pos quote, if_pos quote]
    refine (triple_parseString fresh prev none ends.first).weaken ?_
    rintro _ _ (⟨string, rest, out, slack, ran, rfl, rfl⟩ | ⟨rfl, ⟨at_, ran, rfl⟩ | ⟨rfl, refused⟩⟩)
    · rw [ran, found_bind]
      refine ⟨Item.withString item out string slack, rfl, rfl, fresh.sound_withString out string slack,
        rfl, follows_at ?_⟩
      rw [Shows]
      exact ⟨show cJsonString &&& 255 = cJsonString by decide, rfl⟩
    · rw [ran]
      exact ⟨item, rfl, rfl, fresh.sound, rfl, follows_ep at_⟩
    · exact ⟨item, rfl, rfl, fresh.sound, rfl, follows_refused refused⟩
  · rw [if_neg quote] at ends
    rw [if_neg quote, if_neg quote]
    by_cases numeric : byte = 45 ∨ isdigit byte
    · rw [if_pos numeric] at ends
      rw [if_pos numeric, if_pos numeric]
      unfold parseNumber
      rcases ends with ⟨⟨json, rest⟩, ran⟩ | ⟨at_, ran⟩
      · obtain ⟨n, rfl⟩ : ∃ n : D, json = .number (Double.toInt n) n := parseNumber_ok ran
        rw [scan_bind ran, ran]
        exact triple_scalar fresh prev cJsonNumber (Double.toInt n) n rest rfl (by decide) (by decide) (by
          rw [Shows]
          exact ⟨show cJsonNumber &&& 255 = cJsonNumber by decide, IntDouble.isInt n, rfl, rfl⟩)
      · exact absurd ran (looks_parseNumber value at_)
    · rw [if_neg numeric] at ends
      rw [if_neg numeric, if_neg numeric]
      by_cases bracket : byte = 91
      · rw [if_pos bracket] at ends
        rw [if_pos bracket, if_pos bracket]
        exact builds.array item prev value fresh ends
      · rw [if_neg bracket] at ends
        rw [if_neg bracket, if_neg bracket]
        by_cases brace : byte = 123
        · rw [if_pos brace] at ends
          rw [if_pos brace, if_pos brace]
          exact builds.object item prev value fresh ends
        · rw [if_neg brace, if_neg brace]
          exact triple_pure ⟨item, rfl, rfl, fresh.sound, rfl, follows_ep value⟩

end Step

theorem builds [IntDouble D] (fuel : Nat) : Builds generous D fuel := by
  induction fuel with
  | zero => exact builds_zero generous
  | succ fuel inductionHypothesis =>
      exact {
        value := builds_value inductionHypothesis
        array := builds_array inductionHypothesis
        items := builds_items inductionHypothesis
        object := builds_object inductionHypothesis
        member := builds_member inductionHypothesis
        members := builds_members inductionHypothesis }

/-- What a run from the start of a text leaves of the nodes. -/
inductive Left (run : Parser (Json D × Bytes)) : Option Nat × Reached → Cells (Block D) → Prop where
  | tree {json : Json D} {end_ : Bytes} {item : Item D} (ran : run = .ok (json, end_)) (sound : Sound item)
      (shows : Shows json item) : Left run (some item.addr, .at_ end_) (item.cells none none)
  | ep {at_ : Bytes} (ran : run = .error (.ep at_)) : Left run (none, .null (some at_)) 0
  | refused (denied : ¬ generous) : Left run (none, .null none) 0

theorem triple_cJsonParseWithOpts [IntDouble D] {value : Bytes} {requireNullTerminated : Bool}
    (ends : Ends (JsonParse.cJsonParseWithOpts (D := D) value requireNullTerminated)) :
    Triple generous 0 (cJsonParseWithOpts (D := D) value requireNullTerminated)
      (Left generous (JsonParse.cJsonParseWithOpts value requireNullTerminated)) := by
  unfold JsonParse.cJsonParseWithOpts at ends ⊢
  unfold cJsonParseWithOpts
  refine triple_newBlank.bind (zero_add _).symm ?_
  rintro _ _ (⟨rfl, refused, rfl⟩ | ⟨addr, rfl, rfl⟩)
  · rw [zero_add]
    exact triple_pure (.refused refused)
  · obtain ⟨start, ranStart, ends⟩ := ends.looked (looks_skip value)
    dsimp only
    rw [scan_bind ranStart, ranStart, found_bind]
    refine ((builds generous _).value (blank addr) none start (fresh_blank addr) ends.first).bind
      rfl ?_
    rintro reached _ ⟨item, same, -, sound, rfl, follows⟩
    change item.addr = addr at same
    subst same
    rw [add_zero]
    cases reached with
    | null ep =>
        refine (triple_delete none sound).bind (add_zero _).symm ?_
        rintro _ _ rfl
        rw [zero_add]
        rcases follows with ⟨_, _, -, ⟨⟩, -⟩ | ⟨at_, ran, ⟨⟩⟩ | ⟨⟨⟩, refused⟩
        · exact triple_pure (.ep (by
            rw [ran]
            rfl))
        · exact triple_pure (.refused refused)
    | at_ end_ =>
        obtain ⟨json, ranValue, shows⟩ := follows.at
        have ends := ends.rest ranValue
        rw [ranValue, found_bind]
        dsimp only at ends ⊢
        cases requireNullTerminated with
        | false => exact triple_pure (.tree rfl sound shows)
        | true =>
            obtain ⟨last, ranLast, ends⟩ := Ends.looked ends (looks_skip end_)
            obtain ⟨mark, ranMark, -⟩ := Ends.looked ends (looks_here last)
            rw [if_pos rfl, if_pos rfl, scan_bind ranLast, scan_bind ranMark, ranLast, found_bind, ranMark,
              found_bind]
            by_cases terminates : mark = 0
            · rw [if_neg (not_not.mpr terminates), if_neg (not_not.mpr terminates)]
              exact triple_pure (.tree rfl sound shows)
            · rw [if_pos terminates, if_pos terminates]
              refine (triple_delete none sound).bind (add_zero _).symm ?_
              rintro _ _ rfl
              rw [zero_add]
              exact triple_pure (.ep rfl)


/-- A run over a text with complete escapes ends unless it overflows. -/
theorem ends_cJsonParseWithOpts {text : Bytes} (ahead : Ahead false text)
    {requireNullTerminated : Bool}
    (counted : JsonParse.cJsonParseWithOpts (D := D) text requireNullTerminated ≠
      .error (.fault .signedOverflow)) :
    Ends (JsonParse.cJsonParseWithOpts (D := D) text requireNullTerminated) := by
  have keeps := keeps_cJsonParseWithOpts (D := D) ahead requireNullTerminated
  cases ran : JsonParse.cJsonParseWithOpts (D := D) text requireNullTerminated with
  | ok result => exact Or.inl ⟨result, rfl⟩
  | error stop =>
      cases stop with
      | ep at_ => exact Or.inr ⟨at_, rfl⟩
      | fault fault =>
          cases keeps.fault fault ran
          exact absurd ran counted
      | fuel => exact absurd ran keeps.fuel

/-- Whatever the heap holds and whichever requests it refuses, parsing a text
with complete escapes ends.  What it returns is what the text says, and a tree
is all it leaves; without one it leaves nothing, because the text is wrong from
`ep` on or because a request was refused. -/
theorem cJsonParseWithOpts_leaves [IntDouble D] {text : Bytes} (ahead : Ahead false text)
    {requireNullTerminated : Bool}
    (counted : JsonParse.cJsonParseWithOpts (D := D) text requireNullTerminated ≠
      .error (.fault .signedOverflow))
    {store : Store (Block D)} {others : Cells (Block D)} (held : Holds store others) :
    ∃ result store', cJsonParseWithOpts text requireNullTerminated store = .ok (result, store') ∧
      ((∃ json end_ item, JsonParse.cJsonParseWithOpts text requireNullTerminated = .ok (json, end_) ∧
          result = (some item.addr, .at_ end_) ∧ Sound item ∧ Shows json item ∧
          Holds store' (item.cells none none + others)) ∨
        (∃ at_, JsonParse.cJsonParseWithOpts (D := D) text requireNullTerminated = .error (.ep at_) ∧
          result = (none, .null (some at_)) ∧ Holds store' others) ∨
        (∃ request, store.grant request = false) ∧ result = (none, .null none) ∧
          Holds store' others) := by
  have triple := triple_cJsonParseWithOpts (∀ request, store.grant request = true)
    (ends_cJsonParseWithOpts ahead counted)
  rw [← zero_add others] at held
  obtain ⟨result, store', after, ran, left, -, holds⟩ := triple store others id held
  refine ⟨result, store', ran, ?_⟩
  cases left with
  | tree ranTree sound shows =>
      exact Or.inl ⟨_, _, _, ranTree, rfl, sound, shows, holds⟩
  | ep ranEp =>
      rw [zero_add] at holds
      exact Or.inr (Or.inl ⟨_, ranEp, rfl, holds⟩)
  | refused denied =>
      rw [zero_add] at holds
      obtain ⟨request, denied⟩ := not_forall.mp denied
      exact Or.inr (Or.inr ⟨⟨request, Bool.eq_false_iff.mpr denied⟩, rfl, holds⟩)

/-- `cJSON_Parse`; without a text, `parse_value` returns NULL at once. -/
def cJsonParse : Pointer → Mem (Block D) (Option Nat)
  | .null => do
      match ← newItem with
      | none => return none
      | some c =>
          delete (some c)
          return none
  | value => do
      let text ← loadText value
      let (c, _) ← cJsonParseWithOpts (text ++ [0]) false
      return c

theorem triple_cJsonParse_null [IntDouble D] :
    Triple generous 0 (cJsonParse (D := D) .null) fun result after => result = none ∧ after = 0 := by
  refine triple_newBlank.bind (zero_add _).symm ?_
  rintro _ _ (⟨rfl, refused, rfl⟩ | ⟨addr, rfl, rfl⟩)
  · exact triple_pure ⟨rfl, rfl⟩
  · refine (triple_delete none (fresh_blank addr).sound).bind rfl ?_
    rintro _ _ rfl
    exact triple_pure ⟨rfl, rfl⟩

theorem cJsonParse_of_text {name : Name} {text : Text} (reads : name.text = some text) :
    cJsonParse (D := D) name.pointer = (do
      let text ← loadText name.pointer
      let result ← cJsonParseWithOpts (text ++ [0]) false
      return result.1) := by
  cases name with
  | owned addr text slack => rfl
  | borrowed pointer =>
      cases pointer with
      | null => cases reads
      | heap addr => rfl
      | static text => rfl

theorem triple_cJsonParse [IntDouble D] (name : Name) {text : Text} (reads : name.text = some text)
    {json : Json D} {end_ : Bytes}
    (parsed : JsonParse.cJsonParseWithOpts (text.val ++ [0]) false = .ok (json, end_)) :
    Triple generous (name.cells D) (cJsonParse name.pointer) fun result after =>
      ∃ added, after = added + name.cells D ∧ (result = none ∧ ¬ generous ∧ added = 0 ∨
        ∃ copy, result = some copy.addr ∧ Sound copy ∧ Shows json copy ∧
          added = copy.cells none none) := by
  rw [cJsonParse_of_text reads]
  refine (triple_loadText reads).ask (add_zero _).symm ?_
  rintro _ rfl
  have run := triple_cJsonParseWithOpts generous (Or.inl ⟨_, parsed⟩)
  refine run.bind (zero_add _).symm ?_
  rintro _ added left
  cases left with
  | tree ran sound shows =>
      rw [parsed] at ran
      cases ran
      exact triple_pure ⟨_, rfl, Or.inr ⟨_, rfl, sound, shows, rfl⟩⟩
  | ep ran =>
      rw [parsed] at ran
      cases ran
  | refused denied => exact triple_pure ⟨0, rfl, Or.inl ⟨rfl, denied, rfl⟩⟩

/-- A tree that is printed and parsed is there twice, in blocks that have
nothing in common. -/
theorem cJsonParse_cJsonPrint [IntDouble D] [ExactDouble D] [PrintedDouble D] (fmt : Bool)
    {json : Json D} (integral : Integral json) {item : Item D} {prev next : Option Nat}
    (shows : Shows json item) (small : 2 * (json.text fmt 0).length + 8 < 2 ^ 31)
    {store : Store (Block D)} (granted : ∀ request, store.grant request = true)
    {others : Cells (Block D)} (held : Holds store (item.cells prev next + others)) :
    ∃ out slack copy store', (do
        let out ← cJsonPrint fmt (some item.addr)
        let copy ← cJsonParse (given out)
        return (out, copy)) store = .ok ((some out, some copy.addr), store') ∧
      Sound copy ∧ Shows json copy ∧ Holds store' (item.cells prev next + others +
        {(out, .chars (filled (json.text fmt 0) (some 0 :: slack)))} + copy.cells none none) := by
  have parsed : JsonParse.cJsonParseWithOpts (json.text fmt 0 ++ [0]) false = .ok (json, [0]) :=
    cJsonParseWithOpts_text integral (by omega)
      (show Delimited [0] from ⟨0, [], rfl, by decide⟩) rfl false
  have triple : Triple True (item.cells prev next) (do
      let out ← cJsonPrint fmt (some item.addr)
      let copy ← cJsonParse (given out)
      return (out, copy)) fun result after => ∃ out slack copy, result = (some out, some copy.addr) ∧
        Sound copy ∧ Shows json copy ∧ after = item.cells prev next +
          {(out, .chars (filled (json.text fmt 0) (some 0 :: slack)))} + copy.cells none none := by
    refine (triple_cJsonPrint fmt True prev next shows small).bind (add_zero _).symm ?_
    rintro _ _ ⟨entry, ⟨rfl, refused⟩ | ⟨printed, rfl, text⟩, rfl, rfl⟩
    · exact absurd trivial refused
    · rw [← text] at parsed ⊢
      rw [add_zero]
      have copied := triple_cJsonParse True
        (.owned printed.addr printed.text printed.slack) rfl parsed
      refine copied.bind (add_comm _ _) ?_
      rintro _ _ ⟨_, rfl, ⟨-, refused, -⟩ | ⟨copy, rfl, sound, shown, rfl⟩⟩
      · exact absurd trivial refused
      · refine triple_pure ⟨printed.addr, printed.slack, copy, rfl, sound, shown, ?_⟩
        rw [Name.cells]
        ac_rfl
  obtain ⟨result, store', after, ran, ⟨out, slack, copy, rfl, sound, shown, rfl⟩, -, left⟩ :=
    triple store others (fun _ => granted) held
  refine ⟨out, slack, copy, store', ran, sound, shown, ?_⟩
  have cells : item.cells prev next + others + {(out, .chars (filled (json.text fmt 0) (some 0 :: slack)))} +
      copy.cells none none = item.cells prev next + {(out, .chars (filled (json.text fmt 0) (some 0 :: slack)))} +
        copy.cells none none + others := by
    ac_rfl
  rw [cells]
  exact left


end Recursion

section Witness

theorem cJsonParseWithOpts_leaves_open :
    ∃ result store', cJsonParseWithOpts (D := Rat) (lit "[\"a\" " ++ [0]) false
        (Store.empty fun request => request < 3) = .ok (result, store') ∧
      ((∃ json end_ item,
          JsonParse.cJsonParseWithOpts (lit "[\"a\" " ++ [0]) false = .ok (json, end_) ∧
          result = (some item.addr, .at_ end_) ∧ Sound item ∧ Shows json item ∧
          Holds store' (item.cells none none + 0)) ∨
        (∃ at_, JsonParse.cJsonParseWithOpts (D := Rat) (lit "[\"a\" " ++ [0]) false =
            .error (.ep at_) ∧
          result = (none, .null (some at_)) ∧ Holds store' 0) ∨
        (∃ request, (Store.empty (V := Block Rat) fun request => request < 3).grant request = false) ∧
          result = (none, .null none) ∧ Holds store' 0) := by
  have ahead : Ahead false (lit "[\"a\" " ++ [0]) :=
    .outside (by decide) (by decide) (.opening (.plain (by decide)
      (.closing (.outside (by decide) (by decide) (.nul false [])))))
  have ran : JsonParse.cJsonParseWithOpts (D := Rat) (lit "[\"a\" " ++ [0]) false =
      .error (.ep [0]) := rfl
  refine cJsonParseWithOpts_leaves ahead ?_ (holds_empty _)
  rw [ran]
  nofun

theorem cJsonParse_cJsonPrint_letters :
    ∃ out slack copy store', (do
        let out ← cJsonPrint true (some 0)
        let copy ← cJsonParse (given out)
        return (out, copy)) (lettersStore fun _ => true) = .ok ((some out, some copy.addr), store') ∧
      Sound copy ∧ Shows (.array [.string ⟨lit "a", by decide⟩]) copy ∧
      Holds store' (letters.cells none none + 0 + {(out, .chars (filled
        (Json.text true 0 (.array [.string ⟨lit "a", by decide⟩] : Json Rat)) (some 0 :: slack)))} +
        copy.cells none none) :=
  cJsonParse_cJsonPrint true
    (.array _ (List.forall_mem_singleton.mpr (.string ⟨lit "a", by decide⟩))) shows_letters (by decide)
    (fun _ => rfl) (holds_letters fun _ => true)

end Witness

end DistStore.JsonNodeBuild

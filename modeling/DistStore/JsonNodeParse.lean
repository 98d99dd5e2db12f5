import DistStore.JsonNodes
import DistStore.JsonSafety

/-!
# Parsing with allocations

The parser of cJSON builds its nodes in memory while it reads.  Where it gives
up, because the text is wrong or because an allocation is refused, what has been
built so far hangs together and `cJSON_Delete` frees it from the root.
-/

set_option autoImplicit false

namespace DistStore.JsonNodeParse

open CMemory CHeap JsonPrint JsonTree JsonParse JsonScalars JsonNodes

/-- What a function of the parser returns: a pointer into the text, or `NULL`,
with the pointer it has left in `ep`. -/
inductive Reached where
  | at_ (value : Bytes)
  | null (ep : Option Bytes)
  deriving DecidableEq, Repr

section Definitions

variable {D : Type} [Double D]

/-- The functions that only look at the text set no `ep`. -/
def scan {α : Type} (run : Parser α) : Mem (Block D) α := fun store =>
  match run with
  | .ok value => .ok (value, store)
  | .error (.fault fault) => .error (.fault fault)
  | .error _ => .error .fuel

/-- `parse_string`. -/
def parseString (item : Nat) (str : Bytes) : Mem (Block D) Reached := do
  if (← scan (here str)) ≠ 34 then return .null (some str)
  else
    let len ← scan (lengthLoop false str.tail)
    let size ← ofC (checkInt (len + 1))
    match ← malloc size.toNat with
    | none => return .null none
    | some out =>
        let (text, ptr) ← scan (copyLoop size.toNat 0 str.tail [])
        write out 0 (text ++ [0])
        let ptr := if (← scan (here ptr)) = 34 then ptr.tail else ptr
        setNode item fun node => { node with valuestring := .heap out, type := cJsonString }
        return .at_ ptr

/-- `parse_number`. -/
def parseNumber (item : Nat) (num : Bytes) : Mem (Block D) Reached := do
  let (number, num) ← scan (JsonParse.parseNumber num)
  match number with
  | .number valueint valuedouble =>
      setNode item fun node =>
        { node with valuedouble := valuedouble, valueint := valueint, type := cJsonNumber }
      return .at_ num
  | _ => trap .fuel

mutual

def parseValue : Nat → Nat → Bytes → Mem (Block D) Reached
  | 0, _, _ => trap .fuel
  | fuel + 1, item, value => do
      if ← scan (startsWith (lit "null") value) then
        setNode item fun node => { node with type := cJsonNull }
        return .at_ (value.drop 4)
      else if ← scan (startsWith (lit "false") value) then
        setNode item fun node => { node with type := cJsonFalse }
        return .at_ (value.drop 5)
      else if ← scan (startsWith (lit "true") value) then
        setNode item fun node => { node with type := cJsonTrue, valueint := 1 }
        return .at_ (value.drop 4)
      else
        let byte ← scan (here value)
        if byte = 34 then parseString item value
        else if byte = 45 ∨ isdigit byte then parseNumber item value
        else if byte = 91 then parseArray fuel item value
        else if byte = 123 then parseObject fuel item value
        else return .null (some value)

def parseArray : Nat → Nat → Bytes → Mem (Block D) Reached
  | 0, _, _ => trap .fuel
  | fuel + 1, item, value => do
      if (← scan (here value)) ≠ 91 then return .null (some value)
      else
        setNode item fun node => { node with type := cJsonArray }
        let value ← scan (skip value.tail)
        if (← scan (here value)) = 93 then return .at_ value.tail
        else
          let child ← newItem
          setNode item fun node => { node with child := child }
          match child with
          | none => return .null none
          | some child =>
              match ← parseValue fuel child (← scan (skip value)) with
              | .null ep => return .null ep
              | .at_ value =>
                  match ← parseItems fuel child (← scan (skip value)) with
                  | .null ep => return .null ep
                  | .at_ value =>
                      if (← scan (here value)) = 93 then return .at_ value.tail
                      else return .null (some value)

/-- The loop over the items behind the first one. -/
def parseItems : Nat → Nat → Bytes → Mem (Block D) Reached
  | 0, _, _ => trap .fuel
  | fuel + 1, child, value => do
      if (← scan (here value)) = 44 then
        match ← newItem with
        | none => return .null none
        | some newItem =>
            setNode child fun node => { node with next := some newItem }
            setNode newItem fun node => { node with prev := some child }
            match ← parseValue fuel newItem (← scan (skip value.tail)) with
            | .null ep => return .null ep
            | .at_ value => parseItems fuel newItem (← scan (skip value))
      else return .at_ value

def parseObject : Nat → Nat → Bytes → Mem (Block D) Reached
  | 0, _, _ => trap .fuel
  | fuel + 1, item, value => do
      if (← scan (here value)) ≠ 123 then return .null (some value)
      else
        setNode item fun node => { node with type := cJsonObject }
        let value ← scan (skip value.tail)
        if (← scan (here value)) = 125 then return .at_ value.tail
        else
          let child ← newItem
          setNode item fun node => { node with child := child }
          match child with
          | none => return .null none
          | some child =>
              match ← parseMember fuel child value with
              | .null ep => return .null ep
              | .at_ value =>
                  match ← parseMembers fuel child value with
                  | .null ep => return .null ep
                  | .at_ value =>
                      if (← scan (here value)) = 125 then return .at_ value.tail
                      else return .null (some value)

/-- A name, a colon and a value, with the space around them. -/
def parseMember : Nat → Nat → Bytes → Mem (Block D) Reached
  | 0, _, _ => trap .fuel
  | fuel + 1, child, value => do
      match ← parseString child (← scan (skip value)) with
      | .null ep => return .null ep
      | .at_ value =>
          let value ← scan (skip value)
          setNode child fun node => { node with string := node.valuestring, valuestring := .null }
          if (← scan (here value)) ≠ 58 then return .null (some value)
          else
            match ← parseValue fuel child (← scan (skip value.tail)) with
            | .null ep => return .null ep
            | .at_ value => return .at_ (← scan (skip value))

def parseMembers : Nat → Nat → Bytes → Mem (Block D) Reached
  | 0, _, _ => trap .fuel
  | fuel + 1, child, value => do
      if (← scan (here value)) = 44 then
        match ← newItem with
        | none => return .null none
        | some newItem =>
            setNode child fun node => { node with next := some newItem }
            setNode newItem fun node => { node with prev := some child }
            match ← parseMember fuel newItem value.tail with
            | .null ep => return .null ep
            | .at_ value => parseMembers fuel newItem value
      else return .at_ value

end

/-- `cJSON_ParseWithOpts`: the root, and `*return_parse_end` or `ep`. -/
def cJsonParseWithOpts (value : Bytes) (requireNullTerminated : Bool) :
    Mem (Block D) (Option Nat × Reached) := do
  match ← newItem with
  | none => return (none, .null none)
  | some c =>
      match ← parseValue (3 * value.length + 1) c (← scan (skip value)) with
      | .null ep =>
          delete (some c)
          return (none, .null ep)
      | .at_ end_ =>
          if requireNullTerminated then
            let end_ ← scan (skip end_)
            if (← scan (here end_)) ≠ 0 then
              delete (some c)
              return (none, .null (some end_))
            else return (some c, .at_ end_)
          else return (some c, .at_ end_)

end Definitions

/-! ## Runs of the parser -/

section Runs

variable {α β : Type}

/-- A run that ends with a value or with `ep`. -/
def Ends (run : Parser α) : Prop :=
  (∃ value, run = .ok value) ∨ ∃ at_, run = .error (.ep at_)

/-- A run that looks at the text and sets no `ep`. -/
def Looks (run : Parser α) : Prop := ∀ at_, run ≠ .error (.ep at_)

theorem Ends.first {run : Parser α} {continue_ : α → Parser β} (ends : Ends (run >>= continue_)) :
    Ends run := by
  cases ran : run with
  | ok value => exact Or.inl ⟨value, rfl⟩
  | error stop =>
      subst ran
      rcases ends with ⟨_, ⟨⟩⟩ | ⟨at_, same⟩
      cases same
      exact Or.inr ⟨at_, rfl⟩

theorem Ends.rest {run : Parser α} {continue_ : α → Parser β} {value : α}
    (ends : Ends (run >>= continue_)) (ran : run = .ok value) : Ends (continue_ value) := by
  subst ran
  exact ends

theorem Ends.looked {run : Parser α} {continue_ : α → Parser β} (ends : Ends (run >>= continue_))
    (looks : Looks run) : ∃ value, run = .ok value ∧ Ends (continue_ value) := by
  rcases ends.first with ⟨value, ran⟩ | ⟨at_, ran⟩
  · exact ⟨value, ran, ends.rest ran⟩
  · exact absurd ran (looks at_)

theorem looks_ok (value : α) : Looks (.ok value) := by rintro at_ ⟨⟩

theorem looks_fault (fault : Fault) : Looks (α := α) (.error (.fault fault)) := by rintro at_ ⟨⟩

theorem looks_here (cursor : Bytes) : Looks (here cursor) := by
  cases cursor with
  | nil => exact looks_fault _
  | cons byte rest => exact looks_ok byte

theorem looks_skip (cursor : Bytes) : Looks (skip cursor) := by
  induction cursor with
  | nil => exact looks_fault _
  | cons byte rest inductionHypothesis =>
      rw [skip]
      split
      · exact inductionHypothesis
      · exact looks_ok _

theorem looks_startsWith (word cursor : Bytes) : Looks (startsWith word cursor) := by
  induction word generalizing cursor with
  | nil => exact looks_ok _
  | cons letter word inductionHypothesis =>
      cases cursor with
      | nil => exact looks_fault _
      | cons byte rest =>
          rw [startsWith]
          split
          · exact inductionHypothesis rest
          · exact looks_ok _

theorem looks_bind {run : Parser α} {continue_ : α → Parser β} (first : Looks run)
    (rest : ∀ value, Looks (continue_ value)) : Looks (run >>= continue_) := by
  cases ran : run with
  | ok value => exact rest value
  | error stop =>
      rintro at_ ⟨⟩
      exact first at_ ran

theorem looks_ofC (computation : C α) : Looks (ofC computation) := by
  cases computation with
  | ok value => exact looks_ok value
  | error fault => exact looks_fault fault

theorem looks_parseHex (count h : Nat) (str : Bytes) : Looks (parseHex count h str) := by
  induction count generalizing h str with
  | zero => exact looks_ok _
  | succ count inductionHypothesis =>
      cases str with
      | nil => exact looks_fault _
      | cons byte rest =>
          rw [parseHex]
          split
          · exact inductionHypothesis _ rest
          · exact looks_ok _

theorem looks_transcode (ptr : Bytes) : Looks (transcode ptr) := by
  refine looks_bind (looks_parseHex 4 0 _) fun uc => ?_
  split
  · exact looks_ok _
  · split
    · refine looks_bind (looks_here _) fun mark => ?_
      split
      · exact looks_ok _
      · refine looks_bind (looks_here _) fun letter => ?_
        split
        · exact looks_ok _
        · refine looks_bind (looks_parseHex 4 0 _) fun uc2 => ?_
          split
          · exact looks_ok _
          · exact looks_ok _
    · exact looks_ok _

theorem looks_put (size : Nat) (out bytes : Bytes) : Looks (put size out bytes) := by
  unfold put
  split
  · exact looks_ok _
  · exact looks_fault _

theorem looks_lengthLoop (escaped : Bool) (str : Bytes) : Looks (lengthLoop escaped str) := by
  induction str generalizing escaped with
  | nil =>
      cases escaped with
      | false => exact looks_fault _
      | true => exact looks_fault _
  | cons byte rest inductionHypothesis =>
      cases escaped with
      | true => exact inductionHypothesis false
      | false =>
          rw [lengthLoop]
          split
          · exact looks_ok _
          · exact looks_bind (inductionHypothesis _) fun len => looks_ok _

theorem looks_copyLoop (size ahead : Nat) (str out : Bytes) : Looks (copyLoop size ahead str out) := by
  induction str generalizing ahead out with
  | nil =>
      cases ahead with
      | zero => exact looks_fault _
      | succ ahead => exact looks_fault _
  | cons byte rest inductionHypothesis =>
      cases ahead with
      | succ ahead => exact inductionHypothesis ahead out
      | zero =>
          rw [copyLoop]
          split
          · exact looks_ok _
          · split
            · exact looks_bind (looks_put _ _ _) fun out => inductionHypothesis 0 out
            · refine looks_bind (looks_here _) fun escaped => ?_
              split
              · refine looks_bind (looks_transcode _) fun read => ?_
                exact looks_bind (looks_put _ _ _) fun out => inductionHypothesis _ out
              · exact looks_bind (looks_put _ _ _) fun out => inductionHypothesis _ out

section Numbers

variable {D : Type} [Double D]

theorem looks_digits (n : D) (cursor : Bytes) : Looks (digits n cursor) := by
  induction cursor generalizing n with
  | nil => exact looks_fault _
  | cons byte rest inductionHypothesis =>
      rw [digits]
      split
      · exact inductionHypothesis _
      · exact looks_ok _

theorem looks_fraction (n scale : D) (cursor : Bytes) : Looks (fraction n scale cursor) := by
  induction cursor generalizing n scale with
  | nil => exact looks_fault _
  | cons byte rest inductionHypothesis =>
      rw [fraction]
      split
      · exact inductionHypothesis _ _
      · exact looks_ok _

theorem looks_exponent (subscale : Int) (cursor : Bytes) : Looks (exponent subscale cursor) := by
  induction cursor generalizing subscale with
  | nil => exact looks_fault _
  | cons byte rest inductionHypothesis =>
      rw [exponent]
      split
      · exact looks_bind (looks_ofC _) fun shifted => looks_bind (looks_ofC _) fun next =>
          inductionHypothesis next
      · exact looks_ok _

theorem looks_parseSign (num : Bytes) : Looks (parseSign num) := by
  refine looks_bind (looks_here _) fun byte => ?_
  split
  · exact looks_ok _
  · exact looks_ok _

theorem looks_parseNumber (num : Bytes) : Looks (JsonParse.parseNumber (D := D) num) := by
  refine looks_bind (looks_parseSign num) fun sign => looks_bind ?_ fun whole =>
    looks_bind ?_ fun fraction => looks_bind ?_ fun exponent => looks_ok _
  · refine looks_bind (looks_here _) fun byte => looks_bind (looks_here _) fun first => ?_
    split
    · exact looks_digits _ _
    · exact looks_ok _
  · refine looks_bind (looks_here _) fun byte => ?_
    split
    · refine looks_bind (looks_here _) fun digit => ?_
      split
      · exact looks_fraction _ _ _
      · exact looks_ok _
    · exact looks_ok _
  · refine looks_bind (looks_here _) fun byte => ?_
    split
    · have signed : ∀ result : Int × Bytes, Looks (do
          let scaled ← JsonParse.exponent 0 result.2
          return (scaled.1, result.1, scaled.2)) :=
        fun result => looks_bind (looks_exponent 0 _) fun subscale => looks_ok _
      refine looks_bind (looks_here _) fun mark => ?_
      dsimp only
      split
      · exact signed _
      · exact looks_bind (looks_parseSign _) signed
    · exact looks_ok _

end Numbers

end Runs

/-! ## Nodes -/

section Nodes

variable {D : Type} {generous : Prop}

theorem scan_bind {α β : Type} {run : Parser α} {value : α} (ran : run = .ok value)
    (continue_ : α → Mem (Block D) β) : scan run >>= continue_ = continue_ value := by
  subst ran
  rfl

/-- An item that nothing has been read into yet. -/
structure Fresh (item : Item D) : Prop where
  own : item.type &&& cJsonIsReference = 0
  named : item.type &&& cJsonStringIsConst = 0
  valuestring : item.valuestring = .null
  string : item.string.IsOwn
  child : item.child = []
  foreign : item.foreign = none

theorem Fresh.sound {item : Item D} (fresh : Fresh item) : Sound item := by
  refine .intro (fun _ => ⟨?_, fresh.foreign⟩) (fun flag => absurd fresh.own flag)
    (fun _ => fresh.string) (fun flag => absurd fresh.named flag) ?_
  · rw [fresh.valuestring]
    rfl
  · rw [fresh.child]
    exact List.forall_mem_nil _

/-- What `reached` says of a run of the parser that is not in memory. -/
def Follows {α : Type} (generous : Prop) (run : Parser (α × Bytes)) (shown : α → Prop)
    (reached : Reached) : Prop :=
  (∃ value rest, run = .ok (value, rest) ∧ reached = .at_ rest ∧ shown value) ∨
  (∃ at_, run = .error (.ep at_) ∧ reached = .null (some at_)) ∨
  reached = .null none ∧ ¬ generous

theorem exists_textOf {bytes : Bytes} (ended : 0 ∈ bytes) :
    ∃ rest, bytes = (textOf bytes).val ++ 0 :: rest := by
  induction bytes with
  | nil => cases ended
  | cons byte bytes inductionHypothesis =>
      by_cases zero : byte = 0
      · subst zero
        exact ⟨bytes, rfl⟩
      · have later := (List.mem_cons.mp ended).resolve_left (Ne.symm zero)
        obtain ⟨rest, split⟩ := inductionHypothesis later
        have taken : (textOf (byte :: bytes)).val = byte :: (textOf bytes).val := by
          unfold textOf
          simp [zero]
        exact ⟨rest, by rw [taken, List.cons_append, ← split]⟩

theorem text_ended (text : Bytes) : 0 ∈ text ++ [0] :=
  List.mem_append_right _ (List.mem_singleton_self 0)

theorem filled_textOf {bytes : Bytes} (ended : 0 ∈ bytes) (slack : List (Option Byte)) :
    ∃ rest, filled bytes slack = filled (textOf bytes).val (some 0 :: rest) := by
  obtain ⟨rest, split⟩ := exists_textOf ended
  refine ⟨rest.map some ++ slack, ?_⟩
  conv_lhs => rw [split]
  unfold filled
  rw [List.map_append, List.append_assoc]
  rfl

theorem ofC_ok {α : Type} {computation : C α} {value : α}
    (ran : JsonParse.ofC computation = .ok value) : computation = .ok value := by
  cases computation with
  | ok other =>
      cases ran
      rfl
  | error fault => cases ran

theorem put_ok {size : Nat} {out bytes result : Bytes} (ran : put size out bytes = .ok result) :
    result = out ++ bytes ∧ out.length + bytes.length ≤ size := by
  unfold put at ran
  split at ran
  next room =>
    cases ran
    exact ⟨rfl, room⟩
  next => cases ran

/-- An item with a string of its own. -/
def Item.withString (item : Item D) (out : Nat) (text : Text) (slack : List (Option Byte)) : Item D :=
  { item with type := cJsonString, valuestring := .owned out text slack }

theorem Fresh.sound_withString {item : Item D} (fresh : Fresh item) (out : Nat) (text : Text)
    (slack : List (Option Byte)) : Sound (Item.withString item out text slack) := by
  refine .intro (fun _ => ⟨trivial, fresh.foreign⟩) (fun flag => absurd ?_ flag)
    (fun _ => fresh.string) (fun flag => absurd ?_ flag) ?_
  · show cJsonString &&& cJsonIsReference = 0
    decide
  · show cJsonString &&& cJsonStringIsConst = 0
    decide
  · show ∀ child ∈ item.child, _
    rw [fresh.child]
    exact List.forall_mem_nil _

theorem triple_parseString {item : Item D} (fresh : Fresh item) (prev next : Option Nat) {str : Bytes}
    (ends : Ends (JsonParse.parseString str)) :
    Triple generous (item.cells prev next) (parseString item.addr str) fun reached after =>
      (∃ text rest out slack, JsonParse.parseString str = .ok (text, rest) ∧ reached = .at_ rest ∧
        after = (Item.withString item out text slack).cells prev next) ∨
      (after = item.cells prev next ∧
        ((∃ at_, JsonParse.parseString str = .error (.ep at_) ∧ reached = .null (some at_)) ∨
          reached = .null none ∧ ¬ generous)) := by
  unfold JsonParse.parseString at ends ⊢
  obtain ⟨byte, ranFirst, ends⟩ := ends.looked (looks_here str)
  unfold parseString
  rw [scan_bind ranFirst, ranFirst]
  simp only [found_bind]
  dsimp only at ends
  by_cases quote : byte = 34
  · rw [if_neg (not_not.mpr quote)] at ends
    rw [if_neg (not_not.mpr quote), if_neg (not_not.mpr quote)]
    obtain ⟨len, ranLength, ends⟩ := ends.looked (looks_lengthLoop _ _)
    rw [scan_bind ranLength, ranLength, found_bind]
    obtain ⟨size, ranSize, ends⟩ := ends.looked (looks_ofC _)
    rw [ranSize, found_bind, CHeap.ofC_bind (ofC_ok ranSize)]
    refine (triple_malloc size.toNat).bind (zero_add _).symm ?_
    rintro _ _ (⟨rfl, refused, rfl⟩ | ⟨out, rfl, rfl⟩)
    · rw [zero_add]
      exact triple_pure (Or.inr ⟨rfl, Or.inr ⟨rfl, refused⟩⟩)
    · obtain ⟨⟨text, ptr⟩, ranCopy, ends⟩ := ends.looked (looks_copyLoop _ _ _ _)
      dsimp only at ends ⊢
      rw [scan_bind ranCopy, ranCopy]
      simp only [found_bind]
      obtain ⟨ended, ranPut, ends⟩ := ends.looked (looks_put _ _ _)
      obtain ⟨rfl, room⟩ := put_ok ranPut
      rw [ranPut, found_bind]
      obtain ⟨mark, ranHere, -⟩ := ends.looked (looks_here ptr)
      rw [ranHere, found_bind]
      refine (triple_write out [] (text ++ [0]) (List.replicate size.toNat none) rfl (by
        rw [List.length_append, List.length_replicate]
        exact room)).bind rfl ?_
      rintro _ _ rfl
      rw [scan_bind rfl]
      obtain ⟨slack, content⟩ := filled_textOf (text_ended text)
        ((List.replicate size.toNat none).drop (text ++ [0]).length)
      rw [List.nil_append, content, item.cells_eq]
      refine (triple_setNode item.addr (item.node prev next) _).bind (show _ = _ + (item.own +
        {(out, .chars (filled (textOf (text ++ [0])).val (some 0 :: slack)))}) by ac_rfl) ?_
      rintro _ _ rfl
      refine triple_pure (Or.inl ⟨_, _, out, slack, rfl, rfl, ?_⟩)
      rw [Item.cells_eq, Item.own, Item.own, fresh.valuestring]
      refine congrArg₂ (· + ·) rfl ?_
      show 0 + item.string.cells D + chain none none item.child + _ =
        {(out, _)} + item.string.cells D + chain none none item.child
      rw [zero_add]
      ac_rfl
  · rw [if_pos quote, if_pos quote]
    exact triple_pure (Or.inr ⟨rfl, Or.inl ⟨str, rfl, rfl⟩⟩)

end Nodes

/-! ## What the results follow -/

section Following

variable {α β : Type} {generous : Prop} {run : Parser (α × Bytes)} {shown : α → Prop}

theorem Follows.at {rest : Bytes} (follows : Follows generous run shown (.at_ rest)) :
    ∃ value, run = .ok (value, rest) ∧ shown value := by
  rcases follows with ⟨value, _, ran, ⟨⟩, holds⟩ | ⟨_, -, ⟨⟩⟩ | ⟨⟨⟩, -⟩
  exact ⟨value, ran, holds⟩

theorem Follows.stopped {continue_ : α × Bytes → Parser (β × Bytes)} {shown' : β → Prop}
    {ep : Option Bytes} (follows : Follows generous run shown (.null ep)) :
    Follows generous (run >>= continue_) shown' (.null ep) := by
  rcases follows with ⟨_, _, -, ⟨⟩, -⟩ | ⟨at_, ran, ⟨⟩⟩ | refused
  · subst ran
    exact Or.inr (Or.inl ⟨at_, rfl, rfl⟩)
  · exact Or.inr (Or.inr refused)

theorem Follows.map {change : α → β} {shown' : β → Prop} {reached : Reached}
    (follows : Follows generous run shown reached) (values : ∀ value, shown value → shown' (change value)) :
    Follows generous (run >>= fun result => pure (change result.1, result.2)) shown' reached := by
  rcases follows with ⟨value, rest, ran, rfl, holds⟩ | ⟨at_, ran, rfl⟩ | refused
  · subst ran
    exact Or.inl ⟨_, rest, rfl, rfl, values value holds⟩
  · subst ran
    exact Or.inr (Or.inl ⟨at_, rfl, rfl⟩)
  · exact Or.inr (Or.inr refused)

theorem follows_at {value : α} {rest : Bytes} (holds : shown value) :
    Follows generous (.ok (value, rest)) shown (.at_ rest) := Or.inl ⟨value, rest, rfl, rfl, holds⟩

theorem follows_ep (at_ : Bytes) : Follows generous (.error (.ep at_)) shown (.null (some at_)) :=
  Or.inr (Or.inl ⟨at_, rfl, rfl⟩)

theorem follows_refused (refused : ¬ generous) : Follows generous run shown (.null none) :=
  Or.inr (Or.inr ⟨rfl, refused⟩)

end Following

/-! ## Building the tree -/

section Building

variable {D : Type} {generous : Prop}

theorem Fresh.cells {item : Item D} (fresh : Fresh item) (prev next : Option Nat) :
    item.cells prev next = {(item.addr, .node (item.node prev next))} + item.string.cells D := by
  rw [item.cells_eq, Item.own, fresh.valuestring, fresh.child, chain_nil, add_zero]
  exact congrArg _ (zero_add _)

theorem Fresh.node_childless {item : Item D} (fresh : Fresh item) (prev next : Option Nat)
    (type : BitVec 32) : { item.node prev next with type := type } =
      { item.node prev next with type := type, child := none } := by
  have none : (item.node prev next).child = none := by
    show first item.child item.foreign = none
    rw [fresh.child, fresh.foreign]
    rfl
  dsimp only
  rw [none]

/-- An item with children of its own. -/
def Item.withChildren (item : Item D) (type : BitVec 32) (child : List (Item D)) : Item D :=
  { item with type := type, child := child }

theorem Fresh.cells_withChildren {item : Item D} (fresh : Fresh item) (type : BitVec 32)
    (child : List (Item D)) (prev next : Option Nat) :
    (Item.withChildren item type child).cells prev next =
      {(item.addr, .node { item.node prev next with type := type, child := first child none })} +
        item.string.cells D + chain none none child := by
  have node : (Item.withChildren item type child).node prev next =
      { item.node prev next with type := type, child := first child none } := by
    show { item.node prev next with type := type, child := first child item.foreign } = _
    rw [fresh.foreign]
  have none : (Item.withChildren item type child).valuestring.cells D = 0 := by
    show item.valuestring.cells D = 0
    rw [fresh.valuestring]
    rfl
  rw [Item.cells_eq, Item.own, none, node, zero_add, ← add_assoc]
  rfl

theorem Fresh.sound_withChildren {item : Item D} (fresh : Fresh item) {type : BitVec 32}
    (own : type &&& cJsonIsReference = 0) (named : type &&& cJsonStringIsConst = 0)
    {child : List (Item D)} (sound : ∀ item ∈ child, Sound item) :
    Sound (Item.withChildren item type child) := by
  refine .intro (fun _ => ⟨?_, fresh.foreign⟩) (fun flag => absurd own flag)
    (fun _ => fresh.string) (fun flag => absurd named flag) sound
  show item.valuestring.IsOwn
  rw [fresh.valuestring]
  rfl

/-- An item with a name of its own, which has been read as its string. -/
def Item.withName (item : Item D) (out : Nat) (text : Text) (slack : List (Option Byte)) : Item D :=
  { item with type := cJsonString, string := .owned out text slack }

theorem Fresh.named_ {item : Item D} (fresh : Fresh item) (out : Nat) (text : Text)
    (slack : List (Option Byte)) : Fresh (Item.withName item out text slack) where
  own := show cJsonString &&& cJsonIsReference = 0 by decide
  named := show cJsonString &&& cJsonStringIsConst = 0 by decide
  valuestring := fresh.valuestring
  string := trivial
  child := fresh.child
  foreign := fresh.foreign

/-- `child->string=child->valuestring;child->valuestring=0;`. -/
theorem triple_takeName {item : Item D} (nameless : item.string = .null) (out : Nat) (text : Text)
    (slack : List (Option Byte)) (prev : Option Nat) (fresh : item.valuestring = .null) :
    Triple generous ((Item.withString item out text slack).cells prev none)
      (setNode item.addr fun node => { node with string := node.valuestring, valuestring := .null })
      fun _ after => after = (Item.withName item out text slack).cells prev none := by
  refine (triple_setNode item.addr ((Item.withString item out text slack).node prev none) _).within
    (Item.cells_eq _ prev none) ?_
  rintro _ _ rfl
  have node : (Item.withName item out text slack).node prev none =
      { (Item.withString item out text slack).node prev none with
        string := .heap out, valuestring := .null } := by
    show { (Item.withString item out text slack).node prev none with
      string := .heap out, valuestring := item.valuestring.pointer } = _
    rw [fresh]
    rfl
  rw [Item.cells_eq, node, Item.own, Item.own]
  refine congrArg₂ (· + ·) rfl ?_
  show (Name.owned out text slack).cells D + item.string.cells D + chain none none item.child =
    item.valuestring.cells D + (Name.owned out text slack).cells D + chain none none item.child
  rw [nameless, fresh, add_comm ((Name.owned out text slack).cells D)]

/-- The item of a node that is all zeros. -/
def blank [Double D] (addr : Nat) : Item D where
  addr := addr
  type := 0
  valuestring := .null
  valueint := 0
  valuedouble := Double.ofInt 0
  string := .null
  child := []
  foreign := none

theorem fresh_blank [Double D] (addr : Nat) : Fresh (blank (D := D) addr) where
  own := BitVec.zero_and
  named := BitVec.zero_and
  valuestring := rfl
  string := rfl
  child := rfl
  foreign := rfl

theorem triple_newBlank [Double D] : Triple generous 0 (newItem (D := D)) fun result after =>
    Given generous result after fun addr => (blank addr).cells none none := by
  refine triple_newItem.weaken ?_
  rintro result after (refused | ⟨addr, some, kept⟩)
  · exact Or.inl refused
  · refine Or.inr ⟨addr, some, ?_⟩
    dsimp only
    rw [kept, (fresh_blank addr).cells]
    exact (add_zero _).symm

theorem linked_behind (item item' : Item D) (prev : Option Nat) {addr : Nat} (same : item'.addr = addr)
    (more : List (Item D)) :
    item'.cells (some item.addr) (first more none) + chain (some item'.addr) none more +
      item.cells prev (some addr) = chain prev none (item :: item' :: more) := by
  rw [chain_cons prev, chain_cons, add_comm, show first (item' :: more) none = some item'.addr from rfl,
    same]

theorem ran_both {α β : Type} {run : Parser α} {continue_ : α → Parser β} {result : β}
    (ran : run >>= continue_ = .ok result) : ∃ value, run = .ok value ∧ continue_ value = .ok result := by
  cases first : run with
  | ok value =>
      subst first
      exact ⟨value, rfl, ran⟩
  | error stop =>
      subst first
      cases ran

/-- A number is stored as an `int` too. -/
theorem parseNumber_ok [Double D] {num : Bytes} {result : Json D × Bytes}
    (ran : JsonParse.parseNumber num = .ok result) :
    ∃ n : D, result.1 = .number (Double.toInt n) n := by
  obtain ⟨sign, -, ran⟩ := ran_both ran
  obtain ⟨whole, -, ran⟩ := ran_both ran
  obtain ⟨fraction, -, ran⟩ := ran_both ran
  obtain ⟨exponent, -, ran⟩ := ran_both ran
  cases ran
  exact ⟨_, rfl⟩

/-- An item without strings or children to its value. -/
def Item.withType (item : Item D) (type : BitVec 32) (valueint : Int) (valuedouble : D) : Item D :=
  { item with type := type, valueint := valueint, valuedouble := valuedouble }

theorem Fresh.sound_withType {item : Item D} (fresh : Fresh item) {type : BitVec 32}
    (own : type &&& cJsonIsReference = 0) (named : type &&& cJsonStringIsConst = 0)
    (valueint : Int) (valuedouble : D) : Sound (Item.withType item type valueint valuedouble) := by
  refine .intro (fun _ => ⟨?_, fresh.foreign⟩) (fun flag => absurd own flag)
    (fun _ => fresh.string) (fun flag => absurd named flag) ?_
  · show item.valuestring.IsOwn
    rw [fresh.valuestring]
    rfl
  · show ∀ child ∈ item.child, _
    rw [fresh.child]
    exact List.forall_mem_nil _

/-- The value is a type and what stands in the node. -/
theorem triple_scalar {item : Item D} (fresh : Fresh item) (prev : Option Nat) {json : Json D}
    (type : BitVec 32) (valueint : Int) (valuedouble : D) {change : Node D → Node D} (rest : Bytes)
    (node : change (item.node prev none) = (Item.withType item type valueint valuedouble).node prev none)
    (own : type &&& cJsonIsReference = 0) (named : type &&& cJsonStringIsConst = 0)
    (shows : Shows json (Item.withType item type valueint valuedouble)) :
    Triple generous (item.cells prev none) (do setNode item.addr change; return .at_ rest)
      fun reached after => ∃ item', item'.addr = item.addr ∧ item'.string = item.string ∧
        Sound item' ∧ after = item'.cells prev none ∧
        Follows generous (.ok (json, rest)) (fun json => Shows json item') reached := by
  refine (triple_setNode item.addr (item.node prev none) change).bind (item.cells_eq prev none) ?_
  rintro _ _ rfl
  refine triple_pure ⟨Item.withType item type valueint valuedouble, rfl, rfl,
    fresh.sound_withType own named valueint valuedouble, ?_, follows_at shows⟩
  rw [Item.cells_eq, node]
  rfl

end Building

end DistStore.JsonNodeParse

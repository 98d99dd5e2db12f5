import DistStore.JsonScalars

/-!
# Trees read back

The text of a tree is parsed into the tree it is the text of.  By induction on
the tree: the parser is given the text and something that delimits it.
-/

set_option autoImplicit false

namespace DistStore.JsonRoundTrip

open CMemory JsonPrint JsonTree JsonParse JsonScalars

/-! ## Items and members -/

section Lists

variable (fmt : Bool)

theorem itemsText_cons (entry : Bytes) (rest : List Bytes) :
    itemsText fmt (entry :: rest) = entry ++ rest.flatMap fun later => 44 :: (space fmt ++ later) := by
  induction rest generalizing entry with
  | nil => exact (List.append_nil entry).symm
  | cons next rest inductionHypothesis =>
      rw [itemsText, inductionHypothesis, List.flatMap_cons, List.cons_append, List.append_assoc]

theorem membersText_cons (depth : Nat) (entry : Bytes × Bytes) (rest : List (Bytes × Bytes)) :
    membersText fmt depth (entry :: rest) = memberText fmt depth entry ++
      ((rest.flatMap fun later => 44 :: (newline fmt ++ memberText fmt depth later)) ++ newline fmt) := by
  induction rest generalizing entry with
  | nil => rfl
  | cons next rest inductionHypothesis =>
      rw [membersText, inductionHypothesis, List.flatMap_cons, List.cons_append]
      simp only [List.append_assoc, List.cons_append]

theorem skip_space (rest : Bytes) : skip (space fmt ++ rest) = skip rest := by
  cases fmt
  · rfl
  · exact skip_blank (by decide) rest

theorem skip_newline (rest : Bytes) : skip (newline fmt ++ rest) = skip rest := by
  cases fmt
  · rfl
  · exact skip_blank (by decide) rest

theorem skip_indent (depth : Nat) (rest : Bytes) : skip (indent fmt depth ++ rest) = skip rest := by
  cases fmt
  · rfl
  · show skip (List.replicate depth 9 ++ rest) = skip rest
    induction depth with
    | zero => rfl
    | succ depth inductionHypothesis =>
        rw [List.replicate_succ, List.cons_append, skip_blank (by decide), inductionHypothesis]

end Lists

/-- Every number is an integer, as `int` and as `double`. -/
inductive Integral {D : Type} [Double D] : Json D → Prop where
  | null : Integral .null
  | false : Integral .false
  | true : Integral .true
  | number (value : Int) (inRange : IsInt value) : Integral (.number value (Double.ofInt value))
  | string (valuestring : Text) : Integral (.string valuestring)
  | array (child : List (Json D)) (items : ∀ item ∈ child, Integral item) :
      Integral (.array child)
  | object (child : List (Text × Json D)) (items : ∀ item ∈ child, Integral item.2) :
      Integral (.object child)

section Trees

variable {D : Type} [Double D] [ExactDouble D] {fmt : Bool}

variable (fmt) in
/-- The text of a tree starts with a visible byte that closes nothing. -/
theorem text_head {item : Json D} (integral : Integral item) (depth : Nat) :
    ∃ byte tail, item.text fmt depth = byte :: tail ∧ 32 < byte ∧ byte ≠ 93 ∧ byte ≠ 125 := by
  cases integral with
  | null => exact ⟨110, _, rfl, by decide⟩
  | false => exact ⟨102, _, rfl, by decide⟩
  | true => exact ⟨116, _, rfl, by decide⟩
  | number value inRange =>
      rw [Json.text, numberText_ofInt inRange]
      unfold decimal
      split
      · exact ⟨45, _, rfl, by decide⟩
      · cases shape : decimalNat value.natAbs with
        | nil => exact absurd shape (decimalNat_ne_nil _)
        | cons byte tail =>
            have isDigit := decimalNat_digits value.natAbs byte (shape ▸ List.mem_cons_self)
            refine ⟨byte, tail, rfl, ?_, ?_, ?_⟩
            · simp only [isdigit, Bool.and_eq_true, decide_eq_true_eq] at isDigit
              exact UInt8.lt_of_lt_of_le (by decide) isDigit.1
            · rintro rfl
              revert isDigit
              decide
            · rintro rfl
              revert isDigit
              decide
  | string valuestring => exact ⟨34, _, rfl, by decide⟩
  | array child items => exact ⟨91, _, rfl, by decide⟩
  | object child items => exact ⟨123, _, rfl, by decide⟩

variable (fmt) in
theorem skip_text {item : Json D} (integral : Integral item) (depth : Nat) (rest : Bytes) :
    skip (item.text fmt depth ++ rest) = .ok (item.text fmt depth ++ rest) := by
  obtain ⟨byte, tail, shape, visible, -⟩ := text_head fmt integral depth
  rw [shape, List.cons_append, skip_solid visible]

theorem delimited_of_mark {byte : Byte} (mark : byte = 44 ∨ byte = 93 ∨ byte = 125 ∨ byte = 10)
    (rest : Bytes) : Delimited (byte :: rest) := by
  refine ⟨byte, rest, rfl, ?_⟩
  rcases mark with rfl | rfl | rfl | rfl <;> decide

/-- What the parser is to do with the text of a tree. -/
def ReadBack (fmt : Bool) (item : Json D) : Prop :=
  ∀ depth fuel rest, Delimited rest → (item.text fmt depth).length < 2 ^ 31 →
    3 * (item.text fmt depth).length + 1 ≤ fuel →
    parseValue fuel (item.text fmt depth ++ rest) = .ok (item, rest)

/-- Entries that each follow a comma, and what closes them. -/
theorem entries_head {α : Type} (entries : List α) (text : α → Bytes) (mark : Byte) (rest : Bytes) :
    ∃ byte tail, (entries.flatMap fun entry => 44 :: text entry) ++ mark :: rest = byte :: tail ∧
      (byte = 44 ∨ byte = mark) := by
  cases entries with
  | nil => exact ⟨mark, rest, rfl, Or.inr rfl⟩
  | cons entry entries => exact ⟨44, _, rfl, Or.inl rfl⟩

theorem exists_fuel {fuel length : Nat} (enough : length + 1 ≤ fuel) :
    ∃ more, fuel = more + 1 ∧ length ≤ more := ⟨fuel - 1, by omega, by omega⟩

theorem parseItems_text {child : List (Json D)} (integral : ∀ item ∈ child, Integral item)
    (readBack : ∀ item ∈ child, ReadBack fmt item) (depth : Nat) {text : Bytes}
    (isText : text = child.flatMap fun item => 44 :: (space fmt ++ item.text fmt depth))
    (small : text.length < 2 ^ 31) {fuel : Nat} (enough : 3 * text.length + 1 ≤ fuel)
    (rest : Bytes) : parseItems fuel (text ++ 93 :: rest) = .ok (child, 93 :: rest) := by
  obtain ⟨more, rfl, inner⟩ := exists_fuel enough
  induction child generalizing text more with
  | nil =>
      rw [isText, List.flatMap_nil, List.nil_append, parseItems, here_cons, found_bind,
        if_neg (by decide)]
      rfl
  | cons item next inductionHypothesis =>
      rw [List.forall_mem_cons] at integral readBack
      rw [List.flatMap_cons] at isText
      obtain ⟨byte, tail, head, mark⟩ :=
        entries_head next (fun item => space fmt ++ item.text fmt depth) 93 rest
      generalize later : (next.flatMap fun item => 44 :: (space fmt ++ item.text fmt depth)) = others
        at isText head
      have length : text.length =
          (space fmt).length + (item.text fmt depth).length + 1 + others.length := by
        rw [isText, List.length_append, List.length_cons, List.length_append]
      have visible : 32 < byte := by rcases mark with rfl | rfl <;> decide
      have delimited : Delimited (others ++ 93 :: rest) := by
        rw [head]
        exact delimited_of_mark (mark.elim Or.inl fun closing => Or.inr (Or.inl closing)) tail
      have following : skip (others ++ 93 :: rest) = .ok (others ++ 93 :: rest) := by
        rw [head]
        exact skip_solid visible tail
      have first := readBack.1 depth more (others ++ 93 :: rest) delimited (by omega) (by omega)
      obtain ⟨less, rfl, least⟩ := exists_fuel (show 3 * others.length + 1 ≤ more by omega)
      have others_ := inductionHypothesis integral.2 readBack.2 later.symm (by omega) less
        (by omega) (by omega)
      rw [isText, List.cons_append, List.cons_append, List.append_assoc, List.append_assoc,
        parseItems, here_cons, found_bind, if_pos rfl, List.tail_cons, skip_space,
        skip_text fmt integral.1, found_bind, first, found_bind]
      simp only []
      rw [following, found_bind, others_]
      rfl

variable (fmt) in
theorem memberText_length (depth : Nat) (entry : Bytes × Bytes) :
    (memberText fmt depth entry).length =
      (indent fmt depth).length + entry.1.length + 1 + (indent fmt 1).length + entry.2.length := by
  unfold memberText
  simp only [List.length_append, List.length_cons]
  omega

theorem parseMember_text {string : Text} {item : Json D} (integral : Integral item)
    (readBack : ReadBack fmt item) (depth : Nat) {text : Bytes}
    (isText : text = memberText fmt depth (stringText string, item.text fmt depth))
    (small : text.length < 2 ^ 31) {fuel : Nat} (enough : 3 * text.length ≤ fuel)
    {start after rest : Bytes} (blank : skip start = skip (text ++ after))
    (delimited : Delimited after) (skipped : skip after = .ok rest) :
    parseMember fuel start = .ok ((string, item), rest) := by
  have length := memberText_length fmt depth (stringText string, item.text fmt depth)
  rw [← isText] at length
  dsimp only at length
  have quote : stringText string = 34 :: (string.val.flatMap escapeByte ++ [34]) := rfl
  have quoteLength : 1 ≤ (stringText string).length := Nat.succ_le_succ (Nat.zero_le _)
  obtain ⟨more, rfl, inner⟩ := exists_fuel (show 3 * text.length - 1 + 1 ≤ fuel by omega)
  have value := readBack depth more after delimited (by omega) (by omega)
  have name := parseString_text (show (stringText string).length < 2 ^ 31 by omega)
    (58 :: (indent fmt 1 ++ (item.text fmt depth ++ after)))
  have first : skip (stringText string ++ (58 :: (indent fmt 1 ++ (item.text fmt depth ++ after)))) =
      .ok (stringText string ++ (58 :: (indent fmt 1 ++ (item.text fmt depth ++ after)))) := by
    rw [quote]
    exact skip_solid (by decide) _
  have shape : text ++ after = indent fmt depth ++ (stringText string ++
      (58 :: (indent fmt 1 ++ (item.text fmt depth ++ after)))) := by
    rw [isText, memberText]
    simp only [List.append_assoc, List.cons_append]
  rw [parseMember, blank, shape, skip_indent, first, found_bind, name, found_bind]
  simp only []
  rw [skip_solid (by decide), found_bind, here_cons, found_bind, if_neg (by decide), List.tail_cons,
    skip_indent, skip_text fmt integral, found_bind, value, found_bind]
  simp only []
  rw [skipped]
  rfl

variable (fmt) in
theorem skip_member (depth : Nat) (string : Text) (value after : Bytes) :
    ∃ tail, skip (memberText fmt depth (stringText string, value) ++ after) = .ok (34 :: tail) := by
  rw [memberText, List.append_assoc, skip_indent]
  exact ⟨_, skip_solid (by decide) _⟩

variable (fmt) in
theorem skip_closing (depth : Nat) (rest : Bytes) :
    skip (newline fmt ++ (indent fmt depth ++ 125 :: rest)) = .ok (125 :: rest) := by
  rw [skip_newline, skip_indent, skip_solid (by decide)]

variable (fmt) in
theorem delimited_closing (depth : Nat) (rest : Bytes) :
    Delimited (newline fmt ++ (indent fmt depth ++ 125 :: rest)) := by
  cases fmt
  · exact delimited_of_mark (Or.inr (Or.inr (Or.inl rfl))) rest
  · exact delimited_of_mark (Or.inr (Or.inr (Or.inr rfl))) _

/-- What the loop over the members finds behind the first one. -/
theorem parseMembers_text {child : List (Text × Json D)} (integral : ∀ item ∈ child, Integral item.2)
    (readBack : ∀ item ∈ child, ReadBack fmt item.2) (depth : Nat) {text : Bytes}
    (isText : text = child.flatMap fun item =>
      44 :: (newline fmt ++ memberText fmt depth (stringText item.1, item.2.text fmt depth)))
    (small : text.length < 2 ^ 31) {fuel : Nat} (enough : 3 * text.length + 1 ≤ fuel)
    {closing rest : Bytes} (delimited : Delimited closing) (closes : skip closing = .ok (125 :: rest)) :
    ∃ following, skip (text ++ closing) = .ok following ∧
      Delimited (text ++ closing) ∧ parseMembers fuel following = .ok (child, 125 :: rest) := by
  obtain ⟨more, rfl, inner⟩ := exists_fuel enough
  induction child generalizing text more with
  | nil =>
      rw [isText, List.flatMap_nil, List.nil_append]
      refine ⟨125 :: rest, closes, delimited, ?_⟩
      rw [parseMembers, here_cons, found_bind, if_neg (by decide)]
      rfl
  | cons item next inductionHypothesis =>
      obtain ⟨string, value⟩ := item
      rw [List.forall_mem_cons] at integral readBack
      rw [List.flatMap_cons] at isText
      generalize later : (next.flatMap fun item => 44 :: (newline fmt ++
        memberText fmt depth (stringText item.1, item.2.text fmt depth))) = others at isText
      dsimp only at isText readBack integral
      have length : text.length = (newline fmt).length +
          (memberText fmt depth (stringText string, value.text fmt depth)).length + 1 +
          others.length := by
        rw [isText, List.length_append, List.length_cons, List.length_append]
      obtain ⟨less, rfl, least⟩ := exists_fuel (show 3 * others.length + 1 ≤ more by omega)
      obtain ⟨following, skipped, delimitedLater, parsed⟩ := inductionHypothesis integral.2 readBack.2
        later.symm (by omega) less (by omega) (by omega)
      have member := parseMember_text integral.1 readBack.1 depth rfl (by omega)
        (show 3 * (memberText fmt depth (stringText string, value.text fmt depth)).length ≤ less + 1
          by omega) (skip_newline fmt _) delimitedLater skipped
      refine ⟨text ++ closing, ?_, ?_, ?_⟩
      · rw [isText, List.cons_append, List.cons_append]
        exact skip_solid (by decide) _
      · rw [isText, List.cons_append, List.cons_append]
        exact delimited_of_mark (Or.inl rfl) _
      · rw [isText, List.cons_append, List.cons_append, List.append_assoc, List.append_assoc,
          parseMembers, here_cons, found_bind, if_pos rfl, List.tail_cons, member, found_bind]
        simp only []
        rw [parsed]
        rfl

theorem parseArray_text {child : List (Json D)} (integral : ∀ item ∈ child, Integral item)
    (readBack : ∀ item ∈ child, ReadBack fmt item) : ReadBack fmt (.array child) := by
  intro depth fuel rest _ small enough
  rw [Json.text, itemTexts_eq_map] at small enough ⊢
  cases child with
  | nil =>
      obtain ⟨more, rfl, inner⟩ := exists_fuel enough
      have length : (arrayText fmt (([] : List (Json D)).map (Json.text fmt (depth + 1)))).length = 2 :=
        rfl
      obtain ⟨less, rfl, least⟩ := exists_fuel (show 2 + 1 ≤ more by omega)
      show parseValue (less + 1 + 1) (91 :: 93 :: rest) = _
      rw [parseValue_array, parseArray, here_cons, found_bind, if_neg (by decide), List.tail_cons,
        skip_solid (by decide), found_bind, here_cons, found_bind, if_pos rfl]
      rfl
  | cons item next =>
      rw [List.forall_mem_cons] at integral readBack
      rw [List.map_cons, arrayText, itemsText_cons, List.flatMap_map] at small enough ⊢
      obtain ⟨byte, tail, head, mark⟩ :=
        entries_head next (fun item => space fmt ++ item.text fmt (depth + 1)) 93 rest
      generalize later : (next.flatMap fun item =>
        44 :: (space fmt ++ item.text fmt (depth + 1))) = others at small enough head ⊢
      simp only [List.length_cons, List.length_append, List.length_nil] at small enough
      obtain ⟨more, rfl, inner⟩ := exists_fuel enough
      obtain ⟨less, rfl, least⟩ := exists_fuel (show 3 * ((item.text fmt (depth + 1)).length +
        others.length + 1) + 1 ≤ more by omega)
      have delimited : Delimited (others ++ 93 :: rest) := by
        rw [head]
        exact delimited_of_mark (mark.elim Or.inl fun closing => Or.inr (Or.inl closing)) tail
      have following : skip (others ++ 93 :: rest) = .ok (others ++ 93 :: rest) := by
        rw [head]
        exact skip_solid (by rcases mark with rfl | rfl <;> decide) tail
      have first := readBack.1 (depth + 1) less (others ++ 93 :: rest) delimited (by omega) (by omega)
      have others_ := parseItems_text integral.2 readBack.2 (depth + 1) later.symm (by omega)
        (show 3 * others.length + 1 ≤ less by omega) rest
      have solid := skip_text fmt integral.1 (depth + 1) (others ++ 93 :: rest)
      obtain ⟨start, more_, shape, -, notClosing, -⟩ := text_head fmt integral.1 (depth + 1)
      rw [List.cons_append, List.append_assoc, List.append_assoc, List.singleton_append,
        parseValue_array, parseArray, here_cons, found_bind, if_neg (by decide), List.tail_cons,
        solid, found_bind]
      rw [show here (item.text fmt (depth + 1) ++ (others ++ 93 :: rest)) = .ok start by
        rw [shape]; rfl, found_bind, if_neg notClosing, solid, found_bind, first, found_bind]
      simp only []
      rw [following, found_bind, others_, found_bind]
      simp only []
      rw [here_cons, found_bind, if_pos rfl]
      rfl

theorem parseObject_text {child : List (Text × Json D)} (integral : ∀ item ∈ child, Integral item.2)
    (readBack : ∀ item ∈ child, ReadBack fmt item.2) : ReadBack fmt (.object child) := by
  intro depth fuel rest _ small enough
  rw [Json.text, memberTexts_eq_map] at small enough ⊢
  cases child with
  | nil =>
      rw [List.map_nil, objectText, membersText, List.nil_append, if_pos rfl] at small enough ⊢
      simp only [List.length_cons] at enough
      obtain ⟨more, rfl, inner⟩ := exists_fuel (show 3 + 1 ≤ fuel by omega)
      obtain ⟨less, rfl, least⟩ := exists_fuel (show 2 + 1 ≤ more by omega)
      rw [List.cons_append, List.append_assoc, List.append_assoc, List.singleton_append,
        parseValue_object, parseObject, here_cons, found_bind, if_neg (by decide), List.tail_cons,
        skip_closing, found_bind, here_cons, found_bind, if_pos rfl]
      rfl
  | cons item next =>
      obtain ⟨string, value⟩ := item
      rw [List.forall_mem_cons] at integral readBack
      rw [List.map_cons, objectText, membersText_cons, List.flatMap_map, if_neg (by simp)]
        at small enough ⊢
      generalize later : (next.flatMap fun item => 44 :: (newline fmt ++
        memberText fmt (depth + 1) (stringText item.1, item.2.text fmt (depth + 1)))) = others
        at small enough ⊢
      dsimp only at small enough integral readBack ⊢
      simp only [List.length_cons, List.length_append, List.length_nil] at small enough
      obtain ⟨more, rfl, inner⟩ := exists_fuel enough
      obtain ⟨less, rfl, least⟩ := exists_fuel (show 3 * ((memberText fmt (depth + 1)
        (stringText string, value.text fmt (depth + 1))).length + others.length) + 1 ≤ more by omega)
      obtain ⟨following, skipped, delimited, others_⟩ := parseMembers_text integral.2 readBack.2
        (depth + 1) later.symm (by omega) (show 3 * others.length + 1 ≤ less by omega)
        (delimited_closing fmt depth rest) (skip_closing fmt depth rest)
      obtain ⟨tail, start⟩ := skip_member fmt (depth + 1) string
        (value.text fmt (depth + 1)) (others ++ (newline fmt ++ (indent fmt depth ++ 125 :: rest)))
      have member := parseMember_text integral.1 readBack.1 (depth + 1) rfl (by omega)
        (show 3 * (memberText fmt (depth + 1) (stringText string,
          value.text fmt (depth + 1))).length ≤ less by omega)
        ((skip_solid (by decide) tail).trans start.symm) delimited skipped
      rw [List.cons_append]
      simp only [List.append_assoc, List.singleton_append]
      rw [parseValue_object, parseObject, here_cons, found_bind, if_neg (by decide), List.tail_cons,
        skip_newline, start, found_bind, here_cons, found_bind, if_neg (by decide), member, found_bind]
      simp only []
      rw [others_, found_bind]
      simp only []
      rw [here_cons, found_bind, if_pos rfl]
      rfl

variable (fmt) in
theorem readBack_of_integral {item : Json D} (integral : Integral item) : ReadBack fmt item := by
  induction integral with
  | null =>
      intro depth fuel rest _ _ enough
      obtain ⟨more, rfl, -⟩ := exists_fuel enough
      show parseValue (more + 1) (lit "null" ++ rest) = _
      rw [parseValue, startsWith_append, found_bind, if_pos rfl]
      rfl
  | false =>
      intro depth fuel rest _ _ enough
      obtain ⟨more, rfl, -⟩ := exists_fuel enough
      have words : lit "null" = [110, 117, 108, 108] ∧ lit "false" = [102, 97, 108, 115, 101] := by
        decide
      have parsed := startsWith_append (lit "false") rest
      show parseValue (more + 1) (lit "false" ++ rest) = _
      rw [words.2] at parsed ⊢
      rw [List.cons_append] at parsed ⊢
      rw [parseValue, words.1, words.2, startsWith_other (by decide), found_bind,
        if_neg Bool.false_ne_true, parsed, found_bind, if_pos rfl]
      rfl
  | true =>
      intro depth fuel rest _ _ enough
      obtain ⟨more, rfl, -⟩ := exists_fuel enough
      have words : lit "null" = [110, 117, 108, 108] ∧ lit "false" = [102, 97, 108, 115, 101] ∧
          lit "true" = [116, 114, 117, 101] := by decide
      have parsed := startsWith_append (lit "true") rest
      show parseValue (more + 1) (lit "true" ++ rest) = _
      rw [words.2.2] at parsed ⊢
      rw [List.cons_append] at parsed ⊢
      rw [parseValue, words.1, words.2.1, words.2.2, startsWith_other (by decide), found_bind,
        if_neg Bool.false_ne_true, startsWith_other (by decide), found_bind,
        if_neg Bool.false_ne_true, parsed, found_bind, if_pos rfl]
      rfl
  | number value inRange =>
      intro depth fuel rest delimited _ enough
      obtain ⟨more, rfl, -⟩ := exists_fuel enough
      rw [Json.text, numberText_ofInt inRange]
      exact parseValue_number more inRange delimited
  | string valuestring =>
      intro depth fuel rest _ small enough
      obtain ⟨more, rfl, -⟩ := exists_fuel enough
      exact parseValue_string more small rest
  | array child items inductionHypothesis => exact parseArray_text items inductionHypothesis
  | object child items inductionHypothesis => exact parseObject_text items inductionHypothesis

/-- What is printed is read back, whether or not the end of the text is asked
for; what follows is `blank` up to the end of the text. -/
theorem cJsonParseWithOpts_text {item : Json D} (integral : Integral item)
    (small : (item.text fmt 0).length < 2 ^ 31) {blank after : Bytes} (delimited : Delimited blank)
    (ends : skip blank = .ok (0 :: after)) (requireNullTerminated : Bool) :
    cJsonParseWithOpts (item.text fmt 0 ++ blank) requireNullTerminated =
      .ok (item, if requireNullTerminated then 0 :: after else blank) := by
  have parsed := readBack_of_integral fmt integral 0
    (3 * (item.text fmt 0 ++ blank).length + 1) blank delimited small (by
      rw [List.length_append]
      omega)
  unfold cJsonParseWithOpts
  rw [skip_text fmt integral, found_bind, parsed, found_bind]
  cases requireNullTerminated
  · rfl
  · simp only [ends, found_bind, here_cons]
    rfl

end Trees

end DistStore.JsonRoundTrip

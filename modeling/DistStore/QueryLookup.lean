import DistStore.Query

/-!
# What `get_query_string` finds

The name is searched as a substring of the whole query and one byte behind it
is skipped unseen; the lengths of the name and of the value are kept in `int`s.
For a query put together from parameters this says when the value of a name is
found; for any query it says when a getter stays inside the query and its
buffer.
-/

set_option autoImplicit false

namespace DistStore.QueryLookup

open CMemory ListSearch Query

/-! ## The scan -/

/-- A byte inside the query that ends a parameter: `'#'` or `'&'`. -/
def isEnd (byte : Byte) : Bool := byte == 35 || byte == 38

/-- The value at the front of a text. -/
def valueText (text : Bytes) : Bytes := text.takeWhile fun byte => !isEnd byte

theorem valueText_nulFree {text : Bytes} (nulFree : 0 ∉ text) : 0 ∉ valueText text :=
  fun member => nulFree ((List.takeWhile_sublist _).subset member)

theorem valueLength_eq {text : Bytes} (rest : Bytes) (nulFree : 0 ∉ text) :
    valueLength (text ++ 0 :: rest) = .ok (valueText text).length := by
  induction text with
  | nil => rfl
  | cons byte text inductionHypothesis =>
      have nonzero : (byte == 0) = false := by
        rw [beq_eq_false_iff_ne]
        rintro rfl
        exact nulFree List.mem_cons_self
      have textFree : 0 ∉ text := fun member => nulFree (List.mem_cons_of_mem _ member)
      have same : isValueEnd byte = isEnd byte := by
        unfold isValueEnd
        rw [nonzero, Bool.false_or, isEnd]
      rw [List.cons_append, valueLength, same, valueText, List.takeWhile_cons]
      cases ends : isEnd byte with
      | true => rfl
      | false =>
          rw [inductionHypothesis textFree]
          rfl

section Scan

variable {memory text : Bytes} (key value : Bytes)

theorem getQueryString_absent (holds : strAt memory 0 = .ok text) (absent : ¬ key <:+: text) :
    getQueryString (some memory) key value = .ok (-1, value) := by
  simp only [getQueryString, strstr_of_strAt key holds, (find_eq_none_iff _ _).mpr absent,
    Option.map_none, ok_bind, pure_eq_ok]

theorem getQueryString_found (holds : strAt memory 0 = .ok text) {offset : Nat}
    (found : find key text = some offset) :
    getQueryString (some memory) key value = do
      let behindKey ← moveBy offset (toInt key.length)
      let ended ← copyValue memory (behindKey + 1) value
      return (0, ended) := by
  rw [getQueryString, strstr_of_strAt key holds, found, Option.map_some, Nat.zero_add, ok_bind]

theorem getQueryString_of_short (holds : strAt memory 0 = .ok text) (short : key.length < 2 ^ 31)
    {offset : Nat} (found : find key text = some offset) :
    getQueryString (some memory) key value = do
      let ended ← copyValue memory (offset + key.length + 1) value
      return (0, ended) := by
  rw [getQueryString_found key value holds found, toInt_natCast short, moveBy_natCast, ok_bind]

/-- A key that is found is never answered with the code `-1`. -/
theorem getQueryString_present (holds : strAt memory 0 = .ok text) (occurs : key <:+: text)
    (result : Bytes) : getQueryString (some memory) key value ≠ .ok (-1, result) := by
  obtain ⟨offset, found⟩ := find_isSome_of_infix occurs
  intro got
  rw [getQueryString_found key value holds found] at got
  obtain ⟨behindKey, -, got⟩ := (bind_eq_ok_iff _ _ _).mp got
  obtain ⟨ended, -, same⟩ := (bind_eq_ok_iff _ _ _).mp got
  cases same

/-- What is written for the value at the front of a text. -/
theorem copyValue_eq {tmp : Nat} (scanned : strAt memory tmp = .ok text) :
    copyValue memory tmp value =
      if toInt (valueText text).length < 0 then .error .negativeSize
      else if (intFront (valueText text)).length < value.length then
        .ok (overwrite (intFront (valueText text)) value)
      else .error .writeOutside := by
  obtain ⟨nulFree, rest, shape⟩ := (strAt_eq_ok_iff _ _ _).mp scanned
  rw [copyValue, shape, valueLength_eq rest nulFree, ok_bind]
  exact strncpy_intFront scanned (List.takeWhile_prefix _)

/-- A query that ends right behind the key is left by the scan. -/
theorem getQueryString_end {offset : Nat} (nulFree : 0 ∉ text) (short : key.length < 2 ^ 31)
    (found : find key text = some offset) (ends : offset + key.length = text.length) :
    getQueryString (some (text ++ [0])) key value = .error .readOutside := by
  have holds : strAt (text ++ [0]) 0 = .ok text := strAt_append [] text [] nulFree
  have behindNul : (text ++ [0]).drop (text.length + 1) = [] :=
    List.drop_of_length_le (by rw [List.length_append, List.length_singleton])
  rw [getQueryString_of_short key value holds short found, ends, copyValue, behindNul]
  rfl

end Scan

/-! ## Texts around the first occurrence -/

/-- The first occurrence of the key is followed by one byte and the value.  The
occurrence ends where the length of the key, as an `int`, puts its end, and of
what is scanned behind the byte as much is the value as its length is as an
`int`. -/
def FirstFollowedBy (key value text : Bytes) : Prop :=
  ∃ before behind front byte scanned after,
    text = before ++ (key ++ behind) ∧ ¬ key <:+: before ++ key.dropLast ∧
    text = front ++ byte :: (scanned ++ after) ∧
    (front.length : Int) = before.length + toInt key.length ∧
    (∀ inner ∈ scanned, isEnd inner = false) ∧ (∀ stop ∈ after.head?, isEnd stop = true) ∧
    0 ≤ toInt scanned.length ∧ intFront scanned = value

/-- Free of NUL, `'#'` and `'&'`. -/
def Undelimited (text : Bytes) : Prop := 0 ∉ text ∧ 35 ∉ text ∧ 38 ∉ text

instance (text : Bytes) : Decidable (Undelimited text) := inferInstanceAs (Decidable (_ ∧ _))

theorem Undelimited.not_isEnd {text : Bytes} (undelimited : Undelimited text) {byte : Byte} (member : byte ∈ text) :
    isEnd byte = false := by
  unfold isEnd
  rw [Bool.or_eq_false_iff, beq_eq_false_iff_ne, beq_eq_false_iff_ne]
  constructor
  · rintro rfl
    exact undelimited.2.1 member
  · rintro rfl
    exact undelimited.2.2 member

theorem valueText_append {value after : Bytes} (inside : ∀ byte ∈ value, isEnd byte = false)
    (ends : ∀ stop ∈ after.head?, isEnd stop = true) : valueText (value ++ after) = value := by
  have whole : ∀ byte ∈ value, (!isEnd byte) = true := by
    intro byte member
    rw [inside byte member]
    rfl
  unfold valueText
  rw [List.takeWhile_append_of_pos whole]
  cases after with
  | nil => rw [List.takeWhile_nil, List.append_nil]
  | cons stop after =>
      have stops : isEnd stop = true := ends stop rfl
      rw [List.takeWhile_cons, stops]
      exact List.append_nil value

theorem valueText_split (text : Bytes) :
    ∃ after, text = valueText text ++ after ∧ (∀ byte ∈ valueText text, isEnd byte = false) ∧
      ∀ stop ∈ after.head?, isEnd stop = true := by
  refine ⟨text.dropWhile fun byte => !isEnd byte, List.takeWhile_append_dropWhile.symm, ?_, ?_⟩
  · intro byte member
    simpa using List.mem_takeWhile_imp member
  · intro stop member
    have notTaken := List.head?_dropWhile_not (fun byte => !isEnd byte) text
    rw [Option.mem_def.mp member] at notTaken
    simpa using notTaken

section Written

variable {memory text key value buffer : Bytes}

/-- The scan from an occurrence of the key on leaves the value in the buffer. -/
theorem followed_of_written (holds : strAt memory 0 = .ok text) (nonempty : key ≠ [])
    (valueFree : 0 ∉ value) {offset : Nat} (found : find key text = some offset)
    (inside : offset + key.length < text.length)
    (written : getQueryString (some memory) key buffer = .ok (0, overwrite value buffer)) :
    FirstFollowedBy key value text := by
  have keyLen := toInt_le (Int.natCast_nonneg key.length)
  rw [getQueryString_found key buffer holds found] at written
  obtain ⟨behindKey, moved, written⟩ := (bind_eq_ok_iff _ _ _).mp written
  obtain ⟨ended, copies, same⟩ := (bind_eq_ok_iff _ _ _).mp written
  have here := (moveBy_eq_ok_iff _ _ _).mp moved
  have keyInside : behindKey + 1 ≤ text.length := by omega
  obtain ⟨after, shape, scanned, ends⟩ := valueText_split (text.drop (behindKey + 1))
  rw [copyValue_eq buffer (strAt_drop holds keyInside)] at copies
  split at copies
  · cases copies
  next nonnegative =>
    obtain ⟨-, rfl⟩ := bounded_eq_ok copies
    have scannedFree : 0 ∉ intFront (valueText (text.drop (behindKey + 1))) := fun member =>
      valueText_nulFree (fun zero => strAt_nulFree holds (List.mem_of_mem_drop zero))
        ((intFront_isPrefix _).subset member)
    have bytes := (Prod.mk.inj (Except.ok.inj same)).2
    have kept := eq_of_append_nul scannedFree valueFree bytes
    refine ⟨text.take offset, text.drop (offset + key.length), text.take behindKey,
      text[behindKey], valueText (text.drop (behindKey + 1)), after, split_of_find found,
      fresh_take_of_find nonempty found, ?_, ?_, scanned, ends, by omega, kept⟩
    · rw [← shape, List.getElem_cons_drop, List.take_append_drop]
    · rw [List.length_take_of_le (by omega), List.length_take_of_le (by omega), here]

theorem written_of_followed (holds : strAt memory 0 = .ok text) (nonempty : key ≠ [])
    (room : value.length < buffer.length) (followed : FirstFollowedBy key value text) :
    getQueryString (some memory) key buffer = .ok (0, overwrite value buffer) := by
  obtain ⟨before, behind, front, byte, scanned, after, shape, fresh, split, here, inside, ends,
    nonnegative, rfl⟩ := followed
  have found : find key text = some before.length := by
    rw [shape]
    exact find_append_key nonempty behind fresh
  have keyInside : front.length < text.length := by
    rw [split, List.length_append, List.length_cons]
    omega
  have scannedAt := strAt_drop holds keyInside
  have dropped : text.drop (front.length + 1) = scanned ++ after := by
    rw [split, ← List.drop_drop, List.drop_left, List.drop_succ_cons, List.drop_zero]
  rw [dropped] at scannedAt
  rw [getQueryString_found key buffer holds found, (moveBy_eq_ok_iff _ _ _).mpr here, ok_bind,
    copyValue_eq buffer scannedAt, valueText_append inside ends, if_neg (by omega), if_pos room]
  rfl

/-- The value is written exactly when it is what follows the first occurrence
of the key. -/
theorem getQueryString_eq_iff (holds : strAt memory 0 = .ok text) (nonempty : key ≠ [])
    (valueFree : 0 ∉ value) (room : value.length < buffer.length)
    (occurs : ∃ before byte rest, text = before ++ (key ++ byte :: rest)) :
    getQueryString (some memory) key buffer =
      .ok (0, value ++ 0 :: buffer.drop (value.length + 1)) ↔ FirstFollowedBy key value text := by
  obtain ⟨offset, found, inside⟩ : ∃ offset, find key text = some offset ∧
      offset + key.length < text.length := by
    obtain ⟨before, byte, rest, rfl⟩ := occurs
    exact find_inside key before byte rest
  exact ⟨followed_of_written holds nonempty valueFree found inside,
    written_of_followed holds nonempty room⟩

end Written

/-! ## Queries put together from parameters -/

/-- The name of a parameter, or a name that is looked up. -/
abbrev Name := { name : Bytes // name ≠ [] ∧ Undelimited name ∧ 61 ∉ name }

abbrev Value := { value : Bytes // Undelimited value }

structure QueryString where
  params : List (Name × Value)
  distinct : (params.map Prod.fst).Nodup
  fragment : Option { text : Bytes // 0 ∉ text }

def pairText (param : Name × Value) : Bytes := param.1.val ++ 61 :: param.2.val

def fragmentText : Option { text : Bytes // 0 ∉ text } → Bytes
  | none => []
  | some fragment => 35 :: fragment.val

def QueryString.text (query : QueryString) : Bytes :=
  [38].intercalate (query.params.map pairText) ++ fragmentText query.fragment

/-- The value of a name. -/
def QueryString.lookup (query : QueryString) (key : Name) : Option Value :=
  (query.params.find? fun param => param.1 = key).map Prod.snd

/-- The parameters before the one of a name. -/
def QueryString.earlier (query : QueryString) (key : Name) : List (Name × Value) :=
  query.params.takeWhile fun param => param.1 ≠ key

/-- What the lookup of a name is to return and to leave in the buffer. -/
def QueryString.expected (query : QueryString) (key : Name) (buffer : Bytes) : Int × Bytes :=
  match query.lookup key with
  | some value => (0, value.val ++ 0 :: buffer.drop (value.val.length + 1))
  | none => (-1, buffer)

/-- The name or the value of a parameter contains the key. -/
def Mentions (key : Name) (param : Name × Value) : Prop :=
  key.val <:+: param.1.val ∨ key.val <:+: param.2.val

instance (key : Name) (param : Name × Value) : Decidable (Mentions key param) :=
  inferInstanceAs (Decidable (_ ∨ _))

theorem pairs_cons (param : Name × Value) (rest : List (Name × Value)) :
    [38].intercalate ((param :: rest).map pairText) =
      pairText param ++ rest.flatMap fun next => 38 :: pairText next := by
  induction rest generalizing param with
  | nil => exact List.intercalate_singleton.trans (List.append_nil _).symm
  | cons next rest inductionHypothesis =>
      rw [List.map_cons, List.map_cons, List.intercalate_cons_cons, ← List.map_cons,
        inductionHypothesis, List.flatMap_cons, List.append_assoc]
      rfl

theorem pairs_append (before : List (Name × Value)) (param : Name × Value)
    (after : List (Name × Value)) :
    [38].intercalate ((before ++ param :: after).map pairText) =
      (before.flatMap fun earlier => pairText earlier ++ [38]) ++
        (pairText param ++ after.flatMap fun next => 38 :: pairText next) := by
  induction before with
  | nil => exact pairs_cons param after
  | cons head before inductionHypothesis =>
      have more : (before ++ param :: after).map pairText ≠ [] := by simp
      rw [List.cons_append, List.map_cons, List.intercalate_cons_of_ne_nil more,
        inductionHypothesis, List.flatMap_cons]
      simp only [List.append_assoc]

/-- The key does not reach over the end of a parameter. -/
theorem infix_front_iff (key : Name) (before : List (Name × Value)) :
    key.val <:+: (before.flatMap fun earlier => pairText earlier ++ [38]) ++ key.val.dropLast ↔
      ∃ param ∈ before, Mentions key param := by
  obtain ⟨key, nonempty, undelimited, noEquals⟩ := key
  induction before with
  | nil =>
      refine iff_of_false (fun occurs => ?_) (by simp)
      have fits : key.length ≤ key.dropLast.length := occurs.length_le
      rw [List.length_dropLast] at fits
      have positive := List.length_pos_iff.mpr nonempty
      omega
  | cons head before inductionHypothesis =>
      have shape : ((head :: before).flatMap fun earlier => pairText earlier ++ [38]) ++
          key.dropLast = pairText head ++
            38 :: ((before.flatMap fun earlier => pairText earlier ++ [38]) ++ key.dropLast) := by
        rw [List.flatMap_cons, List.append_assoc, List.append_assoc, List.singleton_append]
      rw [shape, infix_append_cons_iff undelimited.2.2, pairText,
        infix_append_cons_iff noEquals, inductionHypothesis, List.exists_mem_cons_iff]
      rfl

theorem head_of_tail (after : List (Name × Value)) (fragment : Option { text : Bytes // 0 ∉ text }) :
    ∀ stop ∈ ((after.flatMap fun next => 38 :: pairText next) ++ fragmentText fragment).head?,
      isEnd stop = true := by
  intro stop member
  cases after with
  | cons next after =>
      cases member
      rfl
  | nil =>
      cases fragment with
      | none => cases member
      | some fragment =>
          cases member
          rfl

/-- The text around the parameter of a name. -/
theorem text_of_lookup {query : QueryString} {key : Name} {value : Value}
    (found : query.lookup key = some value) :
    ∃ after, query.text =
        ((query.earlier key).flatMap fun earlier => pairText earlier ++ [38]) ++
          (key.val ++ 61 :: (value.val ++ after)) ∧
      ∀ stop ∈ after.head?, isEnd stop = true := by
  obtain ⟨⟨name, own⟩, first, rfl⟩ := Option.map_eq_some_iff.mp found
  obtain ⟨isName, before, after, shape, others⟩ := List.find?_eq_some_iff_append.mp first
  obtain rfl : name = key := of_decide_eq_true isName
  have earlier : query.earlier name = before := by
    unfold QueryString.earlier
    rw [shape, List.takeWhile_append_of_pos fun param member => by simpa using others param member,
      List.takeWhile_cons_of_neg (by simp), List.append_nil]
  refine ⟨_, ?_, head_of_tail after query.fragment⟩
  unfold QueryString.text
  rw [shape, pairs_append, earlier, pairText]
  simp only [List.append_assoc, List.cons_append]

/-- A name that is no parameter is reported as missing unless it is a substring
of the query.  The value of a parameter is found if no earlier name or value
contains the name and the lengths of both are `int`s, and otherwise only if the
same value happens to follow the first occurrence. -/
theorem exact_lookup_iff (query : QueryString) (key : Name) {memory : Bytes}
    (holds : strAt memory 0 = .ok query.text) {buffer : Bytes}
    (room : ∀ value ∈ query.lookup key, value.val.length < buffer.length) :
    getQueryString (some memory) key.val buffer = .ok (query.expected key buffer) ↔
      (∀ value ∈ query.lookup key,
        (key.val.length < 2 ^ 31 ∧ value.val.length < 2 ^ 31 ∧
          ∀ param ∈ query.earlier key, ¬ Mentions key param) ∨
        FirstFollowedBy key.val value.val query.text) ∧
      (query.lookup key = none → ¬ key.val <:+: query.text) := by
  rw [QueryString.expected]
  rcases found : query.lookup key with _ | value
  · simp only [reduceCtorEq, Option.mem_def, false_implies, implies_true, true_and,
      forall_true_left]
    constructor
    · intro missing occurs
      exact getQueryString_present _ _ holds occurs _ missing
    · intro absent
      exact getQueryString_absent _ _ holds absent
  · obtain ⟨after, shape, ends⟩ := text_of_lookup found
    have own : getQueryString (some memory) key.val buffer =
        .ok (0, value.val ++ 0 :: buffer.drop (value.val.length + 1)) ↔ _ :=
      getQueryString_eq_iff holds key.property.1 value.property.1 (room value found)
        ⟨_, _, _, shape⟩
    simp only [reduceCtorEq, Option.mem_def, Option.some.injEq, forall_eq', false_implies,
      and_true, own]
    constructor
    · intro followed
      exact Or.inr followed
    · rintro (⟨keyShort, valueShort, fresh⟩ | followed)
      · have notMentioned : ¬ ∃ param ∈ query.earlier key, Mentions key param := by
          rintro ⟨param, member, mentions⟩
          exact fresh param member mentions
        rw [← infix_front_iff] at notMentioned
        refine ⟨_, _, ((query.earlier key).flatMap fun earlier => pairText earlier ++ [38]) ++
          key.val, 61, value.val, after, shape, notMentioned, ?_, ?_,
          fun byte member => value.property.not_isEnd member, ends, ?_, intFront_of_short valueShort⟩
        · rw [shape, List.append_assoc]
        · rw [toInt_natCast keyShort, List.length_append, Nat.cast_add]
        · rw [toInt_natCast valueShort]
          omega
      · exact followed

def cmdName : Name := ⟨lit "cmd", by decide⟩

def countName : Name := ⟨lit "count", by decide⟩

/-- `cmd=newFile&count=8#top`. -/
def pageQuery : QueryString where
  params := [(cmdName, ⟨lit "newFile", by decide⟩), (countName, ⟨lit "8", by decide⟩)]
  distinct := by decide
  fragment := some ⟨lit "top", by decide⟩

theorem exact_lookup_page :
    getQueryString (some (pageQuery.text ++ [0])) countName.val (zeros 5) =
      .ok (0, lit "8" ++ zeros 4) := by
  have holds : strAt (pageQuery.text ++ [0]) 0 = .ok pageQuery.text := by decide
  have room : ∀ value ∈ pageQuery.lookup countName, value.val.length < (zeros 5).length := by
    decide
  have valueShort : ∀ value ∈ pageQuery.lookup countName, value.val.length < 2 ^ 31 := by decide
  have fresh : ∀ param ∈ pageQuery.earlier countName, ¬ Mentions countName param := by decide
  exact (exact_lookup_iff pageQuery countName holds room).mpr
    ⟨fun value found => Or.inl ⟨by decide, valueShort value found, fresh⟩, by decide⟩

/-- `xcmd=1&cmd=2`. -/
def shadowedQuery : QueryString where
  params := [(⟨lit "xcmd", by decide⟩, ⟨lit "1", by decide⟩), (cmdName, ⟨lit "2", by decide⟩)]
  distinct := by decide
  fragment := none

/-- `user=cmd/1`. -/
def mentionedQuery : QueryString where
  params := [(⟨lit "user", by decide⟩, ⟨lit "cmd/1", by decide⟩)]
  distinct := by decide
  fragment := none

/-- The value of another parameter is returned, and a name that is no parameter
is found in a value. -/
theorem not_exact_lookup_shadowed :
    (shadowedQuery.expected cmdName (zeros 20) = (0, lit "2" ++ zeros 19) ∧
      getQueryString (some (shadowedQuery.text ++ [0])) cmdName.val (zeros 20) =
        .ok (0, lit "1" ++ zeros 19)) ∧
    mentionedQuery.expected cmdName (zeros 20) = (-1, zeros 20) ∧
      getQueryString (some (mentionedQuery.text ++ [0])) cmdName.val (zeros 20) =
        .ok (0, lit "1" ++ zeros 19) := by
  decide

/-! ## The getters -/

/-- The length of the value at the front of a text, kept in an `int`, is an
index of a buffer of `size` bytes. -/
def EndsWithin (size : Nat) (text : Bytes) : Prop := (valueText text).length % 2 ^ 32 < size

instance (size : Nat) (text : Bytes) : Decidable (EndsWithin size text) :=
  inferInstanceAs (Decidable (_ < _))

/-- If the key occurs, a byte follows its first occurrence, and the length of
the value behind that byte is one of a buffer of `size` bytes. -/
def Scannable (key : Bytes) (size : Nat) (text : Bytes) : Prop :=
  ∀ before after, text = before ++ (key ++ after) → ¬ key <:+: before ++ key.dropLast →
    ∃ byte rest, after = byte :: rest ∧ EndsWithin size rest

/-- A getter reads nothing behind the NUL of the query and writes nothing
outside of a buffer of `size` bytes. -/
def Inside (getter : Option Bytes → Bytes → C (Int × Bytes)) (size : Nat) (text : Bytes) : Prop :=
  ∀ buffer old, buffer.length = size → strAt buffer 0 = .ok old →
    ∃ result, getter (some (text ++ [0])) buffer = .ok result

theorem getParameter_inside {key text buffer : Bytes} (holds : strAt (text ++ [0]) 0 = .ok text)
    (short : key.length < 2 ^ 31) (small : buffer.length ≤ 2 ^ 31) {offset : Nat}
    (found : find key text = some offset) (inside : offset + key.length < text.length) :
    (∃ result, getParameter key (some (text ++ [0])) buffer = .ok result) ↔
      EndsWithin buffer.length (text.drop (offset + key.length + 1)) := by
  have scanned := strAt_drop holds (show offset + key.length + 1 ≤ text.length by omega)
  have nulFree := strAt_nulFree scanned
  rw [EndsWithin, ← toInt_inside_iff _ small, getParameter,
    getQueryString_of_short key buffer holds short found, copyValue_eq buffer scanned]
  generalize valueText_nulFree nulFree = valueFree
  generalize valueText (text.drop (offset + key.length + 1)) = value at valueFree
  have kept := intFront_length value
  by_cases fits : 0 ≤ toInt value.length ∧ toInt value.length < buffer.length
  · refine iff_of_true ?_ fits
    have written : strAt (overwrite (intFront value) buffer) 0 = .ok (intFront value) :=
      strAt_overwrite (fun member => valueFree ((intFront_isPrefix value).subset member)) buffer
    rw [if_neg (by omega), if_pos (by omega)]
    exact ⟨_, (bind_eq_ok_iff _ _ _).mpr ⟨_, rfl, (bind_eq_ok_iff _ _ _).mpr
      ⟨_, strlen_of_strAt written, rfl⟩⟩⟩
  · refine iff_of_false ?_ fits
    rintro ⟨result, got⟩
    by_cases negative : toInt value.length < 0
    · rw [if_pos negative] at got
      cases got
    · rw [if_neg negative, if_neg (by omega)] at got
      cases got

theorem getParameter_inside_iff {key : Bytes} (nonempty : key ≠ []) (short : key.length < 2 ^ 31)
    {size : Nat} (positive : 0 < size) (small : size ≤ 2 ^ 31) {text : Bytes}
    (nulFree : 0 ∉ text) :
    Inside (getParameter key) size text ↔ Scannable key size text := by
  have holds : strAt (text ++ [0]) 0 = .ok text := strAt_append [] text [] nulFree
  constructor
  · rintro inside before after rfl fresh
    have found := find_append_key nonempty after fresh
    obtain ⟨result, got⟩ := inside (zeros size) [] (zeros_length _)
      (padTo_nil size ▸ strAt_padTo List.not_mem_nil positive)
    cases after with
    | nil =>
        rw [getParameter, getQueryString_end key _ nulFree short found (by simp)] at got
        cases got
    | cons byte rest =>
        refine ⟨byte, rest, rfl, ?_⟩
        have ends := (getParameter_inside holds short (by rw [zeros_length]; exact small) found
          (by simp)).mp ⟨result, got⟩
        rwa [drop_behind_item, zeros_length] at ends
  · intro scannable buffer old length isString
    rcases found : find key text with _ | offset
    · have absent := getQueryString_absent key buffer holds ((find_eq_none_iff _ _).mp found)
      unfold getParameter
      rw [absent]
      exact ⟨_, (bind_eq_ok_iff _ _ _).mpr ⟨_, rfl, (bind_eq_ok_iff _ _ _).mpr
        ⟨_, strlen_of_strAt isString, rfl⟩⟩⟩
    · obtain ⟨byte, rest, shape, ends⟩ := scannable _ _ (split_of_find found)
        (fresh_take_of_find nonempty found)
      have inside : offset + key.length < text.length := by
        by_contra end_
        rw [List.drop_of_length_le (by omega)] at shape
        cases shape
      apply (getParameter_inside holds short (length ▸ small) found inside).mpr
      rw [← List.drop_drop, shape, length]
      exact ends

/-- Each getter stays inside the query and its caller's buffer exactly where
the query does not end right behind its key and the length of the value, as an
`int`, is an index of the buffer. -/
theorem getters_inside_iff (text : Bytes) (nulFree : 0 ∉ text) :
    (Inside getCmd 20 text ↔ Scannable (lit "cmd") 20 text) ∧
    (Inside getFromId 64 text ↔ Scannable (lit "fromId") 64 text) ∧
    (Inside getCnt 5 text ↔ Scannable (lit "count") 5 text) ∧
    (Inside getUsr 64 text ↔ Scannable (lit "user") 64 text) ∧
    (Inside getFileId 256 text ↔ Scannable (lit "fileId") 256 text) := by
  refine ⟨?_, ?_, ?_, ?_, ?_⟩
  · exact getParameter_inside_iff (by decide) (by decide) (by decide) (by decide) nulFree
  · exact getParameter_inside_iff (by decide) (by decide) (by decide) (by decide) nulFree
  · exact getParameter_inside_iff (by decide) (by decide) (by decide) (by decide) nulFree
  · exact getParameter_inside_iff (by decide) (by decide) (by decide) (by decide) nulFree
  · exact getParameter_inside_iff (by decide) (by decide) (by decide) (by decide) nulFree

theorem scannable_of_found {key text rest : Bytes} (nonempty : key ≠ []) {offset size : Nat}
    {byte : Byte} (found : find key text = some offset)
    (behindKey : text.drop (offset + key.length) = byte :: rest) (ends : EndsWithin size rest) :
    Scannable key size text := by
  rintro before after rfl fresh
  cases found.symm.trans (find_append_key nonempty after fresh)
  rw [← List.drop_drop, List.drop_left, List.drop_left] at behindKey
  exact ⟨byte, rest, behindKey, ends⟩

/-- The last value of a query, in a buffer of 5 bytes. -/
theorem getters_inside_last_value : Inside getCnt 5 (lit "cmd=newFile&fromId=0&count=8") := by
  have found : find (lit "count") (lit "cmd=newFile&fromId=0&count=8") = some 21 := by decide
  have ends : EndsWithin 5 (lit "8") := by decide
  exact (getters_inside_iff _ (by decide)).2.2.1.mpr
    (scannable_of_found (by decide) found rfl ends)

/-- A query that ends behind a key, and a count of five digits. -/
theorem not_getters_inside_end :
    ¬ Inside getCmd 20 (lit "cmd") ∧ ¬ Inside getCnt 5 (lit "count=12345") := by
  constructor
  · intro inside
    have outside : getCmd (some (lit "cmd" ++ [0])) (zeros 20) = .error .readOutside := by decide
    obtain ⟨result, got⟩ := inside (zeros 20) [] rfl rfl
    cases outside.symm.trans got
  · intro inside
    have outside : getCnt (some (lit "count=12345" ++ [0])) (zeros 5) = .error .writeOutside := by
      decide
    obtain ⟨result, got⟩ := inside (zeros 5) [] rfl rfl
    cases outside.symm.trans got

end DistStore.QueryLookup

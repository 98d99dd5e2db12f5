import Mathlib.Data.List.Infix

/-!
# First occurrence of a sublist

`find key text` is the offset of the first occurrence of `key` in `text`, the
function every substring search of a C library computes.  The lemmas say where
that offset lies when `text` is put together from pieces: a piece in which no
occurrence starts is skipped, and a key is found at its own place exactly when
the text before it makes no earlier occurrence.
-/

set_option autoImplicit false

namespace ListSearch

variable {α : Type} [DecidableEq α]

def find (key : List α) : List α → Option Nat
  | [] => if key <+: [] then some 0 else none
  | head :: rest =>
      if key <+: head :: rest then some 0 else (find key rest).map (· + 1)

theorem find_eq_some_iff (key text : List α) (offset : Nat) :
    find key text = some offset ↔
      offset ≤ text.length ∧ key <+: text.drop offset ∧
        ∀ earlier, earlier < offset → ¬ key <+: text.drop earlier := by
  induction text generalizing offset with
  | nil =>
      by_cases here : key <+: []
      · simp only [find, if_pos here, Option.some.injEq, List.drop_nil, List.length_nil]
        constructor
        · rintro rfl
          exact ⟨le_rfl, here, fun earlier before => absurd before (Nat.not_lt_zero _)⟩
        · rintro ⟨bound, -, -⟩
          omega
      · simp [find, here]
  | cons head rest inductionHypothesis =>
      by_cases here : key <+: head :: rest
      · simp only [find, if_pos here, Option.some.injEq]
        constructor
        · rintro rfl
          exact ⟨Nat.zero_le _, here, fun earlier before => absurd before (Nat.not_lt_zero _)⟩
        · rintro ⟨-, -, first⟩
          by_contra nonzero
          exact first 0 (Nat.pos_of_ne_zero (Ne.symm nonzero)) here
      · simp only [find, if_neg here, Option.map_eq_some_iff]
        constructor
        · rintro ⟨inner, found, rfl⟩
          obtain ⟨bound, occurs, first⟩ := (inductionHypothesis inner).mp found
          refine ⟨by simpa using bound, by simpa using occurs, ?_⟩
          intro earlier before
          cases earlier with
          | zero => simpa using here
          | succ earlier => simpa using first earlier (by omega)
        · rintro ⟨bound, occurs, first⟩
          cases offset with
          | zero => exact absurd occurs here
          | succ offset =>
              refine ⟨offset, (inductionHypothesis offset).mpr ⟨?_, ?_, ?_⟩, rfl⟩
              · simpa using bound
              · simpa using occurs
              · intro earlier before
                simpa using first (earlier + 1) (by omega)

omit [DecidableEq α] in
theorem infix_iff_prefix_drop (key text : List α) :
    key <:+: text ↔ ∃ offset, offset ≤ text.length ∧ key <+: text.drop offset := by
  constructor
  · rintro ⟨before, after, rfl⟩
    refine ⟨before.length, by simp, ?_⟩
    rw [List.append_assoc, List.drop_left]
    exact List.prefix_append key after
  · rintro ⟨offset, -, occurs⟩
    exact occurs.isInfix.trans (List.drop_suffix offset text).isInfix

theorem find_eq_none_iff (key text : List α) :
    find key text = none ↔ ¬ key <:+: text := by
  induction text with
  | nil => simp [find]
  | cons head rest inductionHypothesis =>
      by_cases here : key <+: head :: rest
      · simp [find, here, here.isInfix]
      · simp [find, here, inductionHypothesis, List.infix_cons_iff]

theorem find_isSome_of_infix {key text : List α} (occurs : key <:+: text) :
    ∃ offset, find key text = some offset := by
  rcases found : find key text with _ | offset
  · exact absurd occurs ((find_eq_none_iff key text).mp found)
  · exact ⟨offset, rfl⟩

/-- A piece of text in which no occurrence starts only shifts the offset. -/
theorem find_append_skip (key skipped rest : List α)
    (none_starts : ∀ offset, offset < skipped.length →
      ¬ key <+: (skipped ++ rest).drop offset) :
    find key (skipped ++ rest) = (find key rest).map (skipped.length + ·) := by
  induction skipped with
  | nil => simp
  | cons head tail inductionHypothesis =>
      have here : ¬ key <+: head :: (tail ++ rest) := by
        simpa using none_starts 0 (by simp)
      have tail_skipped : find key (tail ++ rest) = (find key rest).map (tail.length + ·) := by
        refine inductionHypothesis ?_
        intro offset bound
        simpa using none_starts (offset + 1) (by simpa using bound)
      simp only [List.cons_append, find, if_neg here, tail_skipped, Option.map_map]
      congr 1
      funext offset
      simp only [Function.comp, List.length_cons]
      omega

omit [DecidableEq α] in
/-- An occurrence of `key` in `text ++ key ++ after` that starts inside `text`
does not use the last byte of the `key` that follows. -/
theorem prefix_drop_append_key {key text after : List α} {offset : Nat}
    (inside : offset < text.length)
    (occurs : key <+: (text ++ (key ++ after)).drop offset) :
    key <:+: text ++ key.dropLast := by
  have shape : text ++ (key ++ after) = (text ++ key.dropLast) ++ (key.drop (key.length - 1) ++ after) := by
    rw [List.append_assoc, ← List.append_assoc key.dropLast, List.dropLast_eq_take,
      List.take_append_drop]
  rw [shape, List.drop_append_of_le_length (by simp; omega)] at occurs
  have short : key.length ≤ ((text ++ key.dropLast).drop offset).length := by
    simp only [List.length_drop, List.length_append, List.length_dropLast]
    omega
  exact (List.prefix_of_prefix_length_le occurs (List.prefix_append _ _) short).isInfix.trans
    (List.drop_suffix _ _).isInfix

/-- `key` is found at its own place behind `text` exactly when it does not
already occur in `text` followed by all of `key` but its last element. -/
theorem find_append_key_iff {key : List α} (nonempty : key ≠ []) (text after : List α) :
    find key (text ++ (key ++ after)) = some text.length ↔
      ¬ key <:+: text ++ key.dropLast := by
  constructor
  · intro found earlier
    obtain ⟨offset, -, occurs⟩ := (infix_iff_prefix_drop _ _).mp earlier
    have positive : 0 < key.length := List.length_pos_iff.mpr nonempty
    have fits := occurs.length_le
    simp only [List.length_append, List.length_dropLast, List.length_drop] at fits
    have inside : offset < text.length := by omega
    refine ((find_eq_some_iff _ _ _).mp found).2.2 offset inside (occurs.trans ?_)
    rw [List.drop_append_of_le_length inside.le, List.drop_append_of_le_length inside.le]
    exact (List.prefix_append_right_inj _).mpr
      ((List.dropLast_prefix key).trans (List.prefix_append key after))
  · intro fresh
    refine (find_eq_some_iff _ _ _).mpr ⟨by simp, ?_, ?_⟩
    · rw [List.drop_left]
      exact List.prefix_append _ _
    · intro earlier before occurs
      exact fresh (prefix_drop_append_key before occurs)

theorem find_append_key {key text : List α} (nonempty : key ≠ []) (after : List α)
    (fresh : ¬ key <:+: text ++ key.dropLast) :
    find key (text ++ (key ++ after)) = some text.length :=
  (find_append_key_iff nonempty text after).mpr fresh

theorem find_le_of_append_key (key text after : List α) :
    ∃ offset, offset ≤ text.length ∧ find key (text ++ (key ++ after)) = some offset := by
  have occurs : key <:+: text ++ (key ++ after) := ⟨text, after, by simp⟩
  obtain ⟨offset, found⟩ := find_isSome_of_infix occurs
  refine ⟨offset, ?_, found⟩
  by_contra beyond
  refine ((find_eq_some_iff _ _ _).mp found).2.2 text.length (by omega) ?_
  rw [List.drop_left]
  exact List.prefix_append _ _

/-- A key that occurs with something behind it is first found so. -/
theorem find_inside (key before : List α) (item : α) (rest : List α) :
    ∃ offset, find key (before ++ (key ++ item :: rest)) = some offset ∧
      offset + key.length < (before ++ (key ++ item :: rest)).length := by
  obtain ⟨offset, le, found⟩ := find_le_of_append_key key before (item :: rest)
  refine ⟨offset, found, ?_⟩
  simp only [List.length_append, List.length_cons]
  omega

omit [DecidableEq α] in
theorem drop_behind_item (before key : List α) (item : α) (rest : List α) :
    (before ++ (key ++ item :: rest)).drop (before.length + key.length + 1) = rest := by
  have shape : before ++ (key ++ item :: rest) = (before ++ key ++ [item]) ++ rest := by
    simp only [List.append_assoc, List.singleton_append]
  rw [shape]
  exact List.drop_left' (by simp only [List.length_append, List.length_singleton])

/-- What follows a text in which the key occurs does not matter. -/
theorem find_append_right {key text : List α} {offset : Nat} (found : find key text = some offset)
    (after : List α) : find key (text ++ after) = some offset := by
  obtain ⟨inside, occurs, first⟩ := (find_eq_some_iff _ _ _).mp found
  have fits := occurs.length_le
  rw [List.length_drop] at fits
  refine (find_eq_some_iff _ _ _).mpr ⟨?_, ?_, ?_⟩
  · rw [List.length_append]
    omega
  · rw [List.drop_append_of_le_length inside]
    exact occurs.trans (List.prefix_append _ _)
  · intro earlier before occursEarlier
    refine first earlier before ?_
    rw [List.drop_append_of_le_length (by omega)] at occursEarlier
    refine List.prefix_of_prefix_length_le occursEarlier (List.prefix_append _ _) ?_
    rw [List.length_drop]
    omega

/-- An occurrence that ends inside a front of the text is the first one there. -/
theorem find_of_append {key text after : List α} {offset : Nat}
    (found : find key (text ++ after) = some offset) (inside : offset + key.length ≤ text.length) :
    find key text = some offset := by
  obtain ⟨-, occurs, first⟩ := (find_eq_some_iff _ _ _).mp found
  refine (find_eq_some_iff _ _ _).mpr ⟨by omega, ?_, ?_⟩
  · rw [List.drop_append_of_le_length (by omega)] at occurs
    refine List.prefix_of_prefix_length_le occurs (List.prefix_append _ _) ?_
    rw [List.length_drop]
    omega
  · intro earlier before occursEarlier
    refine first earlier before ?_
    rw [List.drop_append_of_le_length (by omega)]
    exact occursEarlier.trans (List.prefix_append _ _)

omit [DecidableEq α] in
/-- A prefix does not reach an element it does not have. -/
theorem prefix_append_cons_iff {key : List α} {stop : α} (absent : stop ∉ key)
    (before after : List α) : key <+: before ++ stop :: after ↔ key <+: before := by
  constructor
  · intro occurs
    have front : before ++ [stop] <+: before ++ stop :: after :=
      ⟨after, by rw [List.append_assoc, List.singleton_append]⟩
    cases List.prefix_or_prefix_of_prefix occurs front with
    | inl inFront =>
        cases List.prefix_concat_iff.mp inFront with
        | inl same => exact absurd (by simp [same]) absent
        | inr inBefore => exact inBefore
    | inr covers => exact absurd (covers.subset (by simp)) absent
  · intro occurs
    exact occurs.trans (List.prefix_append _ _)

omit [DecidableEq α] in
/-- An occurrence does not reach over an element the key does not have. -/
theorem infix_append_cons_iff {key : List α} {stop : α} (absent : stop ∉ key)
    (before after : List α) :
    key <:+: before ++ stop :: after ↔ key <:+: before ∨ key <:+: after := by
  induction before with
  | nil =>
      have first := prefix_append_cons_iff absent [] after
      rw [List.nil_append] at first
      rw [List.nil_append, List.infix_cons_iff, first, List.prefix_nil, List.infix_nil]
  | cons head before inductionHypothesis =>
      have first := prefix_append_cons_iff absent (head :: before) after
      rw [List.cons_append] at first
      rw [List.cons_append, List.infix_cons_iff, first, inductionHypothesis, List.infix_cons_iff,
        or_assoc]

omit [DecidableEq α] in
/-- A key whose last element is not among the others does not begin to occur
in front of itself. -/
theorem infix_of_append_front {front text : List α} {last : α} (once : last ∉ front)
    (occurs : front ++ [last] <:+: text ++ front) : front ++ [last] <:+: text := by
  obtain ⟨before, after, shape⟩ := occurs
  rcases List.append_eq_append_iff.mp shape with ⟨more, same, -⟩ | ⟨more, same, tail⟩
  · exact ⟨before, more, same.symm⟩
  · rcases List.eq_nil_or_concat' more with rfl | ⟨inner, final, rfl⟩
    · exact ⟨before, [], by rw [List.append_nil, same, List.append_nil]⟩
    · have ends := congrArg List.getLast? same
      simp only [← List.append_assoc, List.getLast?_concat, Option.some.injEq] at ends
      subst ends
      exact absurd (by simp [tail]) once

theorem find_fits {key text : List α} {offset : Nat} (found : find key text = some offset) :
    offset + key.length ≤ text.length := by
  obtain ⟨inside, occurs, -⟩ := (find_eq_some_iff _ _ _).mp found
  have fits := occurs.length_le
  rw [List.length_drop] at fits
  omega

/-- A text is the part before the first occurrence, the key and the rest. -/
theorem split_of_find {key text : List α} {offset : Nat} (found : find key text = some offset) :
    text = text.take offset ++ (key ++ text.drop (offset + key.length)) := by
  obtain ⟨-, ⟨rest, here⟩, -⟩ := (find_eq_some_iff _ _ _).mp found
  rw [← List.drop_drop, ← here, List.drop_left, here, List.take_append_drop]

/-- Before its first occurrence the key does not occur, nor does it begin to. -/
theorem fresh_take_of_find {key text : List α} {offset : Nat} (nonempty : key ≠ [])
    (found : find key text = some offset) : ¬ key <:+: text.take offset ++ key.dropLast := by
  have length : (text.take offset).length = offset :=
    List.length_take_of_le ((find_eq_some_iff _ _ _).mp found).1
  refine (find_append_key_iff nonempty (text.take offset) (text.drop (offset + key.length))).mp ?_
  rw [← split_of_find found, length, found]

theorem not_infix_take_of_find {key text : List α} {offset : Nat} (nonempty : key ≠ [])
    (found : find key text = some offset) : ¬ key <:+: text.take offset :=
  fun occurs => fresh_take_of_find nonempty found (occurs.trans (List.prefix_append _ _).isInfix)

/-! ## Occurrences counted from the left -/

/-- What follows the first `count` occurrences of `key`, none overlapping the
one before. -/
def behind (key : List α) : Nat → List α → Option (List α)
  | 0, text => some text
  | count + 1, text =>
      match find key text with
      | none => none
      | some offset => behind key count (text.drop (offset + key.length))

theorem behind_succ {key text : List α} {offset : Nat} (found : find key text = some offset)
    (count : Nat) : behind key (count + 1) text = behind key count (text.drop (offset + key.length)) := by
  rw [behind, found]

theorem behind_succ_of_none {key text : List α} (absent : find key text = none) (count : Nat) :
    behind key (count + 1) text = none := by
  rw [behind, absent]

/-- One occurrence more, counted at the end. -/
theorem behind_succ_right (key text : List α) (count : Nat) :
    behind key (count + 1) text = (behind key count text).bind (behind key 1) := by
  induction count generalizing text with
  | zero => rfl
  | succ count inductionHypothesis =>
      rcases found : find key text with _ | offset
      · rw [behind_succ_of_none found, behind_succ_of_none found]
        rfl
      · rw [behind_succ found, inductionHypothesis, behind_succ found]

theorem behind_eq_none_of_le {key text : List α} {fewer more : Nat}
    (absent : behind key fewer text = none) (le : fewer ≤ more) : behind key more text = none := by
  induction more, le using Nat.le_induction with
  | base => exact absent
  | succ more le inductionHypothesis => rw [behind_succ_right, inductionHypothesis, Option.bind_none]

/-- A text in front does not make the occurrences fewer. -/
theorem behind_append_isSome (key before : List α) {after : List α} {count : Nat}
    (found : (behind key count after).isSome) : (behind key count (before ++ after)).isSome := by
  induction count generalizing before after with
  | zero => rfl
  | succ count inductionHypothesis =>
      rcases first : find key after with _ | offset
      · rw [behind_succ_of_none first] at found
        cases found
      · rw [behind_succ first] at found
        have shape : before ++ after = (before ++ after.take offset) ++
            (key ++ after.drop (offset + key.length)) := by
          conv_lhs => rw [split_of_find first]
          simp only [List.append_assoc]
        obtain ⟨earlier, le, occurs⟩ := find_le_of_append_key key (before ++ after.take offset)
          (after.drop (offset + key.length))
        rw [shape, behind_succ occurs, ← List.append_assoc, List.drop_append_of_le_length
          (by rw [List.length_append]; omega)]
        exact inductionHypothesis _ found

theorem behind_succ_isSome (key before : List α) {after : List α} {count : Nat}
    (found : (behind key count after).isSome) :
    (behind key (count + 1) (before ++ (key ++ after))).isSome := by
  obtain ⟨offset, le, occurs⟩ := find_le_of_append_key key before after
  rw [behind_succ occurs, ← List.append_assoc, List.drop_append_of_le_length
    (by rw [List.length_append]; omega)]
  exact behind_append_isSome key _ found

/-! ## Replacing every occurrence -/

/-- `text` with the occurrences of `key`, taken from the left, replaced.  An
empty key replaces nothing. -/
def replaceAll (key replacement text : List α) : List α :=
  match find key text with
  | none => text
  | some offset =>
      if _shorter : (text.drop (offset + key.length)).length < text.length then
        text.take offset ++ replacement ++
          replaceAll key replacement (text.drop (offset + key.length))
      else text
termination_by text.length
decreasing_by assumption

theorem replaceAll_of_none {key text : List α} (replacement : List α)
    (absent : find key text = none) : replaceAll key replacement text = text := by
  rw [replaceAll, absent]

theorem replaceAll_of_some {key text : List α} {offset : Nat} (replacement : List α)
    (nonempty : key ≠ []) (found : find key text = some offset) :
    replaceAll key replacement text = text.take offset ++ replacement ++
      replaceAll key replacement (text.drop (offset + key.length)) := by
  have positive : 0 < key.length := List.length_pos_iff.mpr nonempty
  have fits := find_fits found
  have shorter : (text.drop (offset + key.length)).length < text.length := by
    rw [List.length_drop]
    omega
  rw [replaceAll, found]
  exact dif_pos shorter

/-- The replaced text is longer by what each of the replaced occurrences adds. -/
theorem replaceAll_length {key : List α} (replacement : List α) (nonempty : key ≠ [])
    (text : List α) :
    ∃ count, (count = 0 ↔ ¬ key <:+: text) ∧
      (replaceAll key replacement text).length + count * key.length =
        text.length + count * replacement.length := by
  induction size : text.length using Nat.strong_induction_on generalizing text with
  | _ total inductionHypothesis =>
      cases found : find key text with
      | none =>
          refine ⟨0, ?_, ?_⟩
          · simp [(find_eq_none_iff key text).mp found]
          · rw [replaceAll_of_none replacement found, size]
            omega
      | some offset =>
          have positive : 0 < key.length := List.length_pos_iff.mpr nonempty
          have fits := find_fits found
          have rest : (text.drop (offset + key.length)).length = total - (offset + key.length) := by
            rw [List.length_drop, size]
          obtain ⟨count, -, lengths⟩ := inductionHypothesis _ (by omega) _ rest
          have occurs : key <:+: text := by
            by_contra absent
            rw [(find_eq_none_iff key text).mpr absent] at found
            cases found
          refine ⟨count + 1, by simp [occurs], ?_⟩
          rw [replaceAll_of_some replacement nonempty found, List.length_append,
            List.length_append, List.length_take_of_le (by omega), Nat.succ_mul, Nat.succ_mul]
          omega

/-- Replacing makes a text shorter exactly when there is something to replace
and each replacement is shorter than the key. -/
theorem replaceAll_length_lt_iff {key replacement : List α} (nonempty : key ≠ [])
    (text : List α) :
    (replaceAll key replacement text).length < text.length ↔
      key <:+: text ∧ replacement.length < key.length := by
  obtain ⟨count, none_iff, lengths⟩ := replaceAll_length replacement nonempty text
  constructor
  · intro less
    have products : count * replacement.length < count * key.length := by omega
    refine ⟨?_, Nat.lt_of_mul_lt_mul_left products⟩
    by_contra absent
    rw [none_iff.mpr absent] at products
    omega
  · rintro ⟨occurs, shorter⟩
    have positive : 0 < count := Nat.pos_of_ne_zero fun zero => none_iff.mp zero occurs
    have products := Nat.mul_lt_mul_of_pos_left shorter positive
    omega

/-! ### A code word for one element -/

end ListSearch

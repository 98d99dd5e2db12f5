import Mathlib.Data.List.Induction
import Mathlib.Data.List.Nodup
import Mathlib.Logic.Function.Basic

/-!
# Words and assignments

`words` cuts a text at a separator and leaves out the empty pieces, as a
command line is read.  `assign` carries out a list of assignments from left to
right; what it does to any start is told by the value each name is given last.
-/

set_option autoImplicit false

namespace Words

section Words

variable {α : Type} [DecidableEq α]

def words (sep : α) (text : List α) : List (List α) := (text.splitOn sep).filter (· ≠ [])

structure IsWord (sep : α) (text : List α) : Prop where
  nonempty : text ≠ []
  whole : sep ∉ text

instance (sep : α) (text : List α) : Decidable (IsWord sep text) :=
  decidable_of_iff (text ≠ [] ∧ sep ∉ text)
    ⟨fun both => ⟨both.1, both.2⟩, fun word => ⟨word.nonempty, word.whole⟩⟩

variable (sep : α)

theorem words_append_cons (front rest : List α) :
    words sep (front ++ sep :: rest) = words sep front ++ words sep rest := by
  unfold words
  rw [List.splitOn_append_cons_of_beq front rest (BEq.refl sep), List.filter_append]

theorem words_of_not_mem {text : List α} (whole : sep ∉ text) :
    words sep text = [text].filter (· ≠ []) := by
  unfold words
  rw [List.splitOn_eq_singleton whole]

variable {sep}

theorem words_of_isWord {text : List α} (word : IsWord sep text) : words sep text = [text] := by
  rw [words_of_not_mem sep word.whole, List.filter_cons_of_pos (by simpa using word.nonempty),
    List.filter_nil]

theorem not_mem_of_mem_splitOn {text piece : List α} (member : piece ∈ text.splitOn sep) :
    sep ∉ piece := by
  induction text generalizing piece with
  | nil =>
      rw [List.splitOn_nil] at member
      rw [List.mem_singleton.mp member]
      exact List.not_mem_nil
  | cons head rest inductionHypothesis =>
      obtain ⟨first, pieces, split⟩ := List.exists_cons_of_ne_nil (List.splitOn_ne_nil sep rest)
      rw [split] at inductionHypothesis
      rw [List.splitOn_cons_eq_if_modifyHead, split] at member
      by_cases separates : head = sep
      · rw [if_pos (beq_iff_eq.mpr separates)] at member
        cases List.mem_cons.mp member with
        | inl empty =>
            rw [empty]
            exact List.not_mem_nil
        | inr later => exact inductionHypothesis later
      · rw [if_neg (by simpa using separates), List.modifyHead_cons] at member
        cases List.mem_cons.mp member with
        | inl grown =>
            rw [grown, List.mem_cons, not_or]
            exact ⟨Ne.symm separates, inductionHypothesis List.mem_cons_self⟩
        | inr later => exact inductionHypothesis (List.mem_cons_of_mem _ later)

theorem isWord_of_mem_words {text word : List α} (member : word ∈ words sep text) :
    IsWord sep word := by
  obtain ⟨piece, nonempty⟩ := List.mem_filter.mp member
  exact ⟨by simpa using nonempty, not_mem_of_mem_splitOn piece⟩

variable (sep)

/-- Pieces put behind a text, each after a separator. -/
theorem words_append_pieces (front : List α) (pieces : List (List α)) :
    words sep (front ++ pieces.flatMap (sep :: ·)) =
      words sep front ++ pieces.flatMap (words sep) := by
  induction pieces generalizing front with
  | nil => rw [List.flatMap_nil, List.flatMap_nil, List.append_nil, List.append_nil]
  | cons piece pieces inductionHypothesis =>
      rw [List.flatMap_cons, List.flatMap_cons, List.cons_append, words_append_cons,
        inductionHypothesis]

end Words

/-! ## Pairs -/

section Pairs

variable {α β : Type}

/-- A list taken in pairs; a single element at the end is left. -/
def pairUp : List α → List (α × α)
  | first :: second :: rest => (first, second) :: pairUp rest
  | _ => []

theorem pairUp_flatMap (pairs : List β) (first second : β → α) :
    pairUp (pairs.flatMap fun pair => [first pair, second pair]) =
      pairs.map fun pair => (first pair, second pair) := by
  induction pairs with
  | nil => rfl
  | cons pair pairs inductionHypothesis =>
      rw [List.flatMap_cons, List.map_cons, ← inductionHypothesis]
      rfl

theorem mem_of_mem_pairUp {list : List α} {pair : α × α} (member : pair ∈ pairUp list) :
    pair.1 ∈ list ∧ pair.2 ∈ list := by
  induction list using pairUp.induct with
  | case1 first second rest inductionHypothesis =>
      unfold pairUp at member
      cases List.mem_cons.mp member with
      | inl here =>
          rw [here]
          exact ⟨List.mem_cons_self, List.mem_cons_of_mem _ List.mem_cons_self⟩
      | inr later =>
          obtain ⟨inFirst, inSecond⟩ := inductionHypothesis later
          exact ⟨List.mem_cons_of_mem _ (List.mem_cons_of_mem _ inFirst),
            List.mem_cons_of_mem _ (List.mem_cons_of_mem _ inSecond)⟩
  | case2 list short =>
      unfold pairUp at member
      split at member
      · exact absurd rfl (short _ _ _)
      · cases member

end Pairs

/-! ## Assignments -/

section Assign

variable {κ ν : Type} [DecidableEq κ]

/-- The assignments carried out from left to right. -/
def assign (start : κ → Option ν) (pairs : List (κ × ν)) : κ → Option ν :=
  pairs.foldl (fun values pair => Function.update values pair.1 (some pair.2)) start

/-- The value a name is given last. -/
def lastValue (pairs : List (κ × ν)) : κ → Option ν := assign (fun _ => none) pairs

theorem assign_eq (start : κ → Option ν) (pairs : List (κ × ν)) (name : κ) :
    assign start pairs name = (lastValue pairs name).or (start name) := by
  unfold lastValue assign
  induction pairs using List.reverseRecOn with
  | nil => rfl
  | append_singleton pairs pair inductionHypothesis =>
      rw [List.foldl_append, List.foldl_append, List.foldl_cons, List.foldl_cons, List.foldl_nil,
        List.foldl_nil]
      by_cases same : name = pair.1
      · rw [same, Function.update_self, Function.update_self]
        rfl
      · rw [Function.update_of_ne same, Function.update_of_ne same, inductionHypothesis]

theorem assign_congr {first second : List (κ × ν)}
    (same : ∀ name, lastValue first name = lastValue second name) (start : κ → Option ν) :
    assign start first = assign start second := by
  funext name
  rw [assign_eq, assign_eq, same]

theorem mem_of_lastValue {pairs : List (κ × ν)} {name : κ} {value : ν}
    (given : lastValue pairs name = some value) : (name, value) ∈ pairs := by
  unfold lastValue assign at given
  induction pairs using List.reverseRecOn with
  | nil => cases given
  | append_singleton pairs pair inductionHypothesis =>
      rw [List.foldl_append, List.foldl_cons, List.foldl_nil] at given
      by_cases same : name = pair.1
      · rw [same, Function.update_self] at given
        rw [same, ← Option.some.inj given]
        exact List.mem_append_right _ List.mem_cons_self
      · rw [Function.update_of_ne same] at given
        exact List.mem_append_left _ (inductionHypothesis given)

/-- With distinct names every assignment is the last one to its name. -/
theorem lastValue_of_mem {pairs : List (κ × ν)} (distinct : (pairs.map Prod.fst).Nodup) {name : κ}
    {value : ν} (member : (name, value) ∈ pairs) : lastValue pairs name = some value := by
  unfold lastValue assign
  induction pairs using List.reverseRecOn with
  | nil => cases member
  | append_singleton pairs pair inductionHypothesis =>
      rw [List.map_append, List.map_singleton, List.nodup_append] at distinct
      obtain ⟨front, -, apart⟩ := distinct
      rw [List.foldl_append, List.foldl_cons, List.foldl_nil]
      cases List.mem_append.mp member with
      | inl early =>
          have other : name ≠ pair.1 :=
            apart name (List.mem_map_of_mem early) pair.1 List.mem_cons_self
          rw [Function.update_of_ne other]
          exact inductionHypothesis front early
      | inr last =>
          rw [← List.mem_singleton.mp last, Function.update_self]

end Assign

end Words

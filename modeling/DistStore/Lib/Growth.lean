import Mathlib.Data.List.Chain

/-!
# Blocks that grow behind a check

Pieces are appended to a block whose counted length is compared with a mark
after each of them.  Where the mark is passed, the block is given the counted
length and one unit, and the mark moves on by one unit.  Each piece needs room
before it is appended, so what decides is how far the mark was overshot the
last time.
-/

set_option autoImplicit false

namespace Growth

/-- The counted length, the next mark and the size of the block. -/
structure Sizes where
  used : Nat
  mark : Nat
  size : Nat
  deriving DecidableEq, Repr

def Sizes.append (unit : Nat) (sizes : Sizes) (piece : Nat) : Sizes :=
  if sizes.mark ≤ sizes.used + piece then
    ⟨sizes.used + piece, sizes.mark + unit, sizes.used + piece + unit⟩
  else ⟨sizes.used + piece, sizes.mark, sizes.size⟩

/-- Each piece and one byte behind it have room.  The counted length is `slack`
more than the true one. -/
def Roomy (unit slack : Nat) : List Nat → Sizes → Prop
  | [], _ => True
  | piece :: pieces, sizes =>
      sizes.used + piece < sizes.size + slack ∧ Roomy unit slack pieces (sizes.append unit piece)

/-- The counted lengths behind the pieces that pass a mark. -/
def passings (unit : Nat) : Nat → Nat → List Nat → List Nat
  | _, _, [] => []
  | mark, used, piece :: pieces =>
      if mark ≤ used + piece then
        (used + piece) :: passings unit (mark + unit) (used + piece) pieces
      else passings unit mark (used + piece) pieces

/-- Each passing comes less than a unit and the slack behind the one before. -/
def Paced (unit slack passed : Nat) (later : List Nat) : Prop :=
  List.IsChain (fun before after => after < before + unit + slack) (passed :: later)

instance (unit slack passed : Nat) (later : List Nat) : Decidable (Paced unit slack passed later) :=
  inferInstanceAs (Decidable (List.IsChain _ _))

theorem paced_nil (unit slack passed : Nat) : Paced unit slack passed [] := List.isChain_singleton _

theorem paced_cons_iff (unit slack passed next : Nat) (later : List Nat) :
    Paced unit slack passed (next :: later) ↔
      next < passed + unit + slack ∧ Paced unit slack next later :=
  List.isChain_cons_cons

/-- From a block that was given its size at the length `passed`, all pieces have
room exactly when the passings are paced. -/
theorem roomy_iff {unit slack mark used passed : Nat} (below : used < mark)
    (within : mark ≤ passed + unit) {pieces : List Nat} (short : ∀ piece ∈ pieces, piece ≤ unit) :
    Roomy unit slack pieces ⟨used, mark, passed + unit⟩ ↔
      Paced unit slack passed (passings unit mark used pieces) := by
  induction pieces generalizing mark used passed with
  | nil => exact iff_of_true trivial (paced_nil _ _ _)
  | cons piece pieces inductionHypothesis =>
      rw [List.forall_mem_cons] at short
      unfold Roomy passings Sizes.append
      by_cases passes : mark ≤ used + piece
      · have next : used + piece < mark + unit := by omega
        rw [if_pos passes, if_pos passes, paced_cons_iff,
          inductionHypothesis next (Nat.add_le_add_right passes unit) short.2]
      · have room : used + piece < passed + unit + slack := by omega
        have next : used + piece < mark := by omega
        rw [if_neg passes, if_neg passes, inductionHypothesis next within short.2]
        exact and_iff_right room

end Growth

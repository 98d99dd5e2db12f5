import DistStore.StrReplace

/-!
# `str_replace` in a zero-filled block

A block of NULs is a string at every moment, so the text built so far says all
there is to say about it.  The loop is also given without a bound on its passes,
by the derivations of its runs: it is left only when the key is not found any
more, and an empty key is found forever.  `Pieced` says what the passes put
together of a text of any length, its lengths cut to `int`s.
-/

set_option autoImplicit false

namespace DistStore.ReplacedText

open CMemory ListSearch Program Environment StrReplace

/-- A run from the test of the loop on, with `q`, `count` and `str_buf` there, to
the end of what is built: `str_buf` behind each operation on it, and at the end. -/
inductive Writes (src key replace : Bytes) : Nat → Nat → Bytes → List Bytes → Bytes → Prop where
  | finished {q count : Nat} {strBuf : Bytes} :
      strstr src q key = .ok none → byteAt src q = .ok 0 →
      Writes src key replace q count strBuf [] strBuf
  | rest {q count : Nat} {strBuf whole : Bytes} {byte : Byte} :
      strstr src q key = .ok none → byteAt src q = .ok byte → byte ≠ 0 →
      strcat strBuf src q = .ok whole →
      Writes src key replace q count strBuf [whole] whole
  | pass {q count p next : Nat} {strBuf copied replaced whole : Bytes} {written : List Bytes} :
      strstr src q key = .ok (some p) → IsInt (count + 1 : Nat) →
      copyPass src q p (count + 1) strBuf = .ok copied →
      strcat copied (replace ++ [0]) 0 = .ok replaced →
      moveBy p (toInt key.length) = .ok next →
      Writes src key replace next (count + 1) replaced written whole →
      Writes src key replace q count strBuf (copied :: replaced :: written) whole

/-- The text in `strBuf` and its NUL lie in the first `size` bytes. -/
def Ended (size : Nat) (strBuf : Bytes) : Prop :=
  ∃ text, strAt strBuf 0 = .ok text ∧ text.length < size

/-- The loop is left, and behind each operation the text in `str_buf` is ended
inside of the block. -/
def EndsInside (src key replace block : Bytes) : Prop :=
  ∃ written whole, Writes src key replace 0 0 block written whole ∧
    ∀ strBuf ∈ written, Ended block.length strBuf

section Loop

variable {src key replace strBuf whole built rest text out : Bytes} {written : List Bytes}
variable {q count room offset : Nat}

/-- An occurrence from `q` on is found, or an earlier one. -/
theorem strstr_of_occurs (holds : strAt src 0 = .ok text) {p : Nat} (before : q ≤ p)
    (inside : p ≤ text.length) (occurs : key <+: text.drop p) :
    ∃ here, strstr src q key = .ok (some here) ∧ here ≤ text.length ∧ key <+: text.drop here := by
  have position := strAt_drop holds (before.trans inside)
  have behind : key <+: (text.drop q).drop (p - q) := by
    rw [List.drop_drop, Nat.add_sub_cancel' before]
    exact occurs
  obtain ⟨offset, found⟩ :=
    find_isSome_of_infix (behind.isInfix.trans (List.drop_suffix _ _).isInfix)
  obtain ⟨within, isPrefix, -⟩ := (find_eq_some_iff _ _ _).mp found
  rw [List.length_drop] at within
  rw [List.drop_drop] at isPrefix
  exact ⟨q + offset, (strstr_eq_some_iff key position _).mpr ⟨offset, found, rfl⟩, by omega,
    isPrefix⟩

/-- Where the length of the key is no positive `int`, each pass ends at the
occurrence it found or before it: the loop is never left. -/
theorem not_writes_back (holds : strAt src 0 = .ok text) (back : toInt key.length ≤ 0)
    (writes : Writes src key replace q count strBuf written whole) {p : Nat} (before : q ≤ p)
    (inside : p ≤ text.length) (occurs : key <+: text.drop p) : False := by
  induction writes generalizing p with
  | finished absent _ =>
      obtain ⟨here, found, -⟩ := strstr_of_occurs holds before inside occurs
      cases absent.symm.trans found
  | rest absent _ _ _ =>
      obtain ⟨here, found, -⟩ := strstr_of_occurs holds before inside occurs
      cases absent.symm.trans found
  | pass searched _ _ _ moved _ inductionHypothesis =>
      obtain ⟨here, found, hereInside, again⟩ := strstr_of_occurs holds before inside occurs
      cases searched.symm.trans found
      have next := (moveBy_eq_ok_iff _ _ _).mp moved
      exact inductionHypothesis (by omega) hereInside again

theorem forward_of_writes {p next : Nat} (holds : strAt src 0 = .ok text)
    (moved : moveBy p (toInt key.length) = .ok next)
    (writes : Writes src key replace next count strBuf written whole) (inside : p ≤ text.length)
    (occurs : key <+: text.drop p) : 0 < toInt key.length := by
  by_contra back
  have here := (moveBy_eq_ok_iff _ _ _).mp moved
  exact not_writes_back holds (not_lt.mp back) writes (show next ≤ p by omega) inside occurs

/-! ## What is put together -/

/-- What a pass copies of the text in front of the occurrence at `offset`. -/
def piece (offset : Nat) (rest : Bytes) : Bytes :=
  -- matched first: the remainders of an unknown length have no normal form
  match rest with
  | [] => []
  | byte :: rest => (byte :: rest).take (toSize (toInt offset))

theorem piece_eq_take (offset : Nat) (rest : Bytes) :
    piece offset rest = rest.take (toSize (toInt offset)) := by
  cases rest with
  | nil => exact List.take_nil.symm
  | cons byte rest => rfl

theorem piece_isPrefix (offset : Nat) (rest : Bytes) : piece offset rest <+: rest :=
  piece_eq_take offset rest ▸ List.take_prefix _ _

/-- What the passes from `rest` on put together, with `count` passes behind them.
The first copy is made by `strncpy`, which a negative length stops. -/
inductive Pieced (key replace : Bytes) : Nat → Bytes → Bytes → Prop where
  | rest {count : Nat} {rest : Bytes} : find key rest = none → Pieced key replace count rest rest
  | pass {count offset : Nat} {rest out : Bytes} :
      find key rest = some offset → IsInt (count + 1 : Nat) → (count = 0 → 0 ≤ toInt offset) →
      0 < toInt key.length →
      Pieced key replace (count + 1) (rest.drop (offset + (toInt key.length).toNat)) out →
      Pieced key replace count rest (piece offset rest ++ replace ++ out)

theorem piece_of_small (small : offset < 2 ^ 31) (rest : Bytes) :
    piece offset rest = rest.take offset := by
  rw [piece_eq_take, toInt_natCast small, toSize_natCast (by omega)]

/-- Over a text that an `int` counts every occurrence is replaced. -/
theorem pieced_replaceAll (replace : Bytes) (nonempty : key ≠ [])
    (small : count + rest.length < 2 ^ 31) :
    Pieced key replace count rest (replaceAll key replace rest) := by
  induction left : rest.length using Nat.strong_induction_on generalizing rest count with
  | _ bound inductionHypothesis =>
      cases found : find key rest with
      | none =>
          rw [replaceAll_of_none replace found]
          exact .rest found
      | some offset =>
          have positive : 0 < key.length := List.length_pos_iff.mpr nonempty
          have inside := find_fits found
          have keyLen : toInt key.length = key.length := toInt_natCast (by omega)
          rw [replaceAll_of_some replace nonempty found, ← piece_of_small (by omega) rest]
          refine .pass found ((isInt_natCast_iff _).mpr (by omega)) ?_ (by omega) ?_
          · intro _
            rw [toInt_natCast (by omega)]
            omega
          · rw [keyLen, Int.toNat_natCast]
            apply inductionHypothesis _ _ _ rfl
            · rw [List.length_drop]
              omega
            · rw [List.length_drop]
              omega

theorem pieced_unique (nonempty : key ≠ []) (pieced : Pieced key replace count rest out)
    (small : rest.length < 2 ^ 31) : out = replaceAll key replace rest := by
  induction pieced with
  | rest absent => rw [replaceAll_of_none replace absent]
  | @pass count offset rest out found isInt first forward _ inductionHypothesis =>
      have inside := find_fits found
      have keyLen : toInt key.length = key.length := toInt_natCast (by omega)
      rw [keyLen, Int.toNat_natCast] at inductionHypothesis
      rw [inductionHypothesis (by rw [List.length_drop]; omega),
        replaceAll_of_some replace nonempty found, piece_of_small (by omega), List.append_assoc]

/-! ## A pass -/

theorem piece_nulFree (position : strAt src q = .ok rest) : 0 ∉ piece offset rest :=
  fun member => strAt_nulFree position ((piece_isPrefix offset rest).subset member)

theorem append_nulFree (position : strAt src q = .ok rest) (builtFree : 0 ∉ built) :
    0 ∉ built ++ piece offset rest := by
  rw [List.mem_append, not_or]
  exact ⟨builtFree, piece_nulFree position⟩

theorem len_eq : ((q + offset : Nat) : Int) - (q : Nat) = offset := by
  rw [Nat.cast_add, add_sub_cancel_left]

/-- The first copy could fill the block and leave no NUL in it. -/
theorem copyPass_first (position : strAt src q = .ok rest) (inside : offset ≤ rest.length) :
    copyPass src q (q + offset) 1 (zeros room) =
      if toInt offset < 0 then .error .negativeSize
      else if (piece offset rest).length ≤ room then .ok (padTo room (piece offset rest))
      else .error .writeOutside := by
  rw [copyPass, len_eq, if_pos rfl]
  by_cases negative : toInt offset < 0
  · rw [if_pos negative, strncpy_negative negative]
  · have cut := toInt_le (Int.natCast_nonneg offset)
    have range : toInt offset < 2 ^ 64 := by
      rw [toInt, Int.bmod_def]
      split
      · omega
      · omega
    have size := toSize_of_nonneg (not_lt.mp negative) range
    have short : toSize (toInt offset) ≤ rest.length := by omega
    have length : (piece offset rest).length = toSize (toInt offset) := by
      rw [piece_eq_take, List.length_take_of_le short]
    rw [if_neg negative, ← size, length]
    split
    next fits =>
      rw [strncpy_zeros position short fits, piece_eq_take]
    next large =>
      rw [strncpy_of_le _ _ _ position short, store, List.length_take_of_le short,
        zeros_length, if_neg (by omega)]

theorem copyPass_later (position : strAt src q = .ok rest) (builtFree : 0 ∉ built)
    (builtFits : built.length < room) (later : count ≠ 0) :
    copyPass src q (q + offset) (count + 1) (padTo room built) =
      if (built ++ piece offset rest).length < room then
        .ok (padTo room (built ++ piece offset rest))
      else .error .writeOutside := by
  rw [copyPass, len_eq, if_neg (by omega), piece_eq_take]
  exact strncat_padTo _ builtFree builtFits position

/-- A piece that fits is copied. -/
theorem copyPass_fits (position : strAt src q = .ok rest) (inside : offset ≤ rest.length)
    (builtFree : 0 ∉ built) (first : count = 0 → built = [] ∧ 0 ≤ toInt offset)
    (fits : (built ++ piece offset rest).length < room) :
    copyPass src q (q + offset) (count + 1) (padTo room built) =
      .ok (padTo room (built ++ piece offset rest)) := by
  by_cases start : count = 0
  · obtain ⟨rfl, nonnegative⟩ := first start
    rw [List.nil_append] at fits ⊢
    rw [start, padTo_nil, copyPass_first position inside, if_neg (by omega), if_pos fits.le]
  · have builtFits : built.length < room := by
      rw [List.length_append] at fits
      omega
    rw [copyPass_later position builtFree builtFits start, if_pos fits]

/-- And only such a piece leaves a string. -/
theorem fits_of_copyPass {copied held : Bytes} (position : strAt src q = .ok rest)
    (inside : offset ≤ rest.length) (builtFree : 0 ∉ built) (first : count = 0 → built = [])
    (builtFits : built.length < room)
    (copies : copyPass src q (q + offset) (count + 1) (padTo room built) = .ok copied)
    (isString : strAt copied 0 = .ok held) :
    (count = 0 → 0 ≤ toInt offset) ∧ (built ++ piece offset rest).length < room ∧
      copied = padTo room (built ++ piece offset rest) := by
  by_cases start : count = 0
  · obtain rfl := first start
    rw [start, padTo_nil, copyPass_first position inside] at copies
    split at copies
    · cases copies
    next nonnegative =>
      obtain ⟨roomy, rfl⟩ := bounded_eq_ok copies
      refine ⟨fun _ => by omega, ?_, rfl⟩
      by_contra full
      have whole : padTo room (piece offset rest) = piece offset rest := by
        rw [List.nil_append] at full
        rw [padTo, Nat.sub_eq_zero_of_le (by omega)]
        exact List.append_nil _
      obtain ⟨-, behind, shape⟩ := (strAt_eq_ok_iff _ _ _).mp isString
      rw [whole, List.drop_zero] at shape
      exact piece_nulFree position (shape ▸ List.mem_append_right _ List.mem_cons_self)
  · rw [copyPass_later position builtFree builtFits start] at copies
    obtain ⟨fits, rfl⟩ := bounded_eq_ok copies
    exact ⟨fun zero => absurd zero start, fits, rfl⟩

/-- The replacement appended to it. -/
theorem appendReplace_eq (replaceFree : 0 ∉ replace) (builtFree : 0 ∉ built)
    (builtFits : built.length < room) :
    strcat (padTo room built) (replace ++ [0]) 0 =
      if (built ++ replace).length < room then .ok (padTo room (built ++ replace))
      else .error .writeOutside :=
  strcat_padTo builtFree builtFits (strAt_append [] replace [] replaceFree)

theorem ended_padTo (nulFree : 0 ∉ built) (fits : built.length < room) :
    Ended room (padTo room built) :=
  ⟨built, strAt_padTo nulFree fits, fits⟩

/-! ## The run -/

/-- Behind the last occurrence the rest is appended. -/
theorem writes_rest (position : strAt src q = .ok rest) (builtFree : 0 ∉ built)
    (absent : find key rest = none) (fits : (built ++ rest).length < room) :
    ∃ written, Writes src key replace q count (padTo room built) written
      (padTo room (built ++ rest)) ∧ ∀ strBuf ∈ written, Ended room strBuf := by
  have missing := (strstr_eq_none_iff key position).mpr absent
  have first := byteAt_of_strAt position
  cases rest with
  | nil =>
      rw [List.append_nil]
      exact ⟨[], .finished missing first, nofun⟩
  | cons byte rest =>
      have builtFits : built.length < room := by
        rw [List.length_append] at fits
        omega
      have appended := strcat_padTo builtFree builtFits position
      rw [if_pos fits] at appended
      refine ⟨_, .rest missing first (strAt_head_ne position) appended, ?_⟩
      intro strBuf member
      rw [List.mem_singleton.mp member]
      apply ended_padTo _ fits
      rw [List.mem_append, not_or]
      exact ⟨builtFree, strAt_nulFree position⟩

theorem position_behind (position : strAt src q = .ok rest) (found : find key rest = some offset)
    (forward : 0 < toInt key.length) :
    moveBy (q + offset) (toInt key.length) = .ok (q + (offset + (toInt key.length).toNat)) ∧
      strAt src (q + (offset + (toInt key.length).toNat)) =
        .ok (rest.drop (offset + (toInt key.length).toNat)) := by
  have inside := find_fits found
  have cut := toInt_le (Int.natCast_nonneg key.length)
  exact ⟨(moveBy_eq_ok_iff _ _ _).mpr (by omega), strAt_add _ position (by omega)⟩

/-- What fits is built, and the block is ended behind each operation. -/
theorem writes_of_pieced (pieced : Pieced key replace count rest out) (replaceFree : 0 ∉ replace)
    (position : strAt src q = .ok rest) (builtFree : 0 ∉ built) (first : count = 0 → built = [])
    (fits : (built ++ out).length < room) :
    ∃ written, Writes src key replace q count (padTo room built) written
      (padTo room (built ++ out)) ∧ ∀ strBuf ∈ written, Ended room strBuf := by
  induction pieced generalizing q built with
  | rest absent => exact writes_rest position builtFree absent fits
  | @pass count offset rest out found isInt firstLength forward _ inductionHypothesis =>
      have inside := find_fits found
      have copiedFree : 0 ∉ built ++ piece offset rest := append_nulFree position builtFree
      have replacedFree : 0 ∉ built ++ piece offset rest ++ replace := by
        rw [List.mem_append, not_or]
        exact ⟨copiedFree, replaceFree⟩
      simp only [← List.append_assoc] at fits ⊢
      have replacedFits : (built ++ piece offset rest ++ replace).length < room := by
        rw [List.length_append] at fits
        omega
      have copyFits : (built ++ piece offset rest).length < room := by
        rw [List.length_append] at replacedFits
        omega
      have copies := copyPass_fits position (show offset ≤ rest.length by omega) builtFree
        (fun zero => ⟨first zero, firstLength zero⟩) copyFits
      have appended := appendReplace_eq replaceFree copiedFree copyFits
      rw [if_pos replacedFits] at appended
      obtain ⟨moved, behind⟩ := position_behind position found forward
      obtain ⟨written, writes, ended⟩ :=
        inductionHypothesis behind replacedFree (fun zero => absurd zero (Nat.succ_ne_zero count)) fits
      have here := (strstr_eq_some_iff key position _).mpr ⟨offset, found, rfl⟩
      refine ⟨_, .pass here isInt copies appended moved writes, ?_⟩
      rw [List.forall_mem_cons, List.forall_mem_cons]
      exact ⟨ended_padTo copiedFree copyFits, ended_padTo replacedFree replacedFits, ended⟩

/-- And only what fits is built. -/
theorem pieced_of_writes (writes : Writes src key replace q count strBuf written whole)
    (replaceFree : 0 ∉ replace) (holds : strAt src 0 = .ok text) (inside : q ≤ text.length)
    (same : strBuf = padTo room built) (builtFree : 0 ∉ built) (first : count = 0 → built = [])
    (builtFits : built.length < room) :
    ∃ out, Pieced key replace count (text.drop q) out ∧ (built ++ out).length < room := by
  have position := strAt_drop holds inside
  induction writes generalizing built with
  | finished absent last =>
      have missing := (strstr_eq_none_iff key position).mp absent
      refine ⟨_, .rest missing, ?_⟩
      rwa [eq_nil_of_byteAt position last, List.append_nil]
  | rest absent _ _ appended =>
      have missing := (strstr_eq_none_iff key position).mp absent
      rw [same, strcat_padTo builtFree builtFits position] at appended
      exact ⟨_, .rest missing, (bounded_eq_ok appended).1⟩
  | @pass q count p next strBuf copied replaced whole written searched isInt copies appended moved
      writes inductionHypothesis =>
      obtain ⟨offset, found, rfl⟩ := (strstr_eq_some_iff key position p).mp searched
      have fits := find_fits found
      rw [List.length_drop] at fits
      obtain ⟨-, isPrefix, -⟩ := (find_eq_some_iff _ _ _).mp found
      rw [List.drop_drop] at isPrefix
      have forward := forward_of_writes holds moved writes (by omega) isPrefix
      have nextAt := (moveBy_eq_ok_iff _ _ _).mp moved
      have cut := toInt_le (Int.natCast_nonneg key.length)
      have nextInside : next ≤ text.length := by omega
      have target : next = q + (offset + (toInt key.length).toNat) := by omega
      have nextPosition := strAt_drop holds nextInside
      obtain ⟨held, isString, -⟩ := (bind_eq_ok_iff _ _ _).mp appended
      rw [same] at copies
      have offsetInside : offset ≤ (text.drop q).length := by
        rw [List.length_drop]
        omega
      obtain ⟨firstLength, copyFits, rfl⟩ :=
        fits_of_copyPass position offsetInside builtFree first builtFits copies isString
      have copiedFree : 0 ∉ built ++ piece offset (text.drop q) := append_nulFree position builtFree
      rw [appendReplace_eq replaceFree copiedFree copyFits] at appended
      obtain ⟨replacedFits, done⟩ := bounded_eq_ok appended
      have replacedFree : 0 ∉ built ++ piece offset (text.drop q) ++ replace := by
        rw [List.mem_append, not_or]
        exact ⟨copiedFree, replaceFree⟩
      obtain ⟨out, pieced, outFits⟩ := inductionHypothesis nextInside done.symm replacedFree
        (fun zero => absurd zero (Nat.succ_ne_zero count)) replacedFits nextPosition
      rw [target, ← List.drop_drop] at pieced
      refine ⟨_, .pass found isInt firstLength forward pieced, ?_⟩
      simpa only [← List.append_assoc] using outFits

end Loop

/-! ## The function -/

section Function

variable {src key replace text : Bytes}

/-- Into a block without a byte nothing is built. -/
theorem not_writes_no_room (holds : strAt src 0 = .ok text) (nonempty : text ≠ [])
    (written : List Bytes) (whole : Bytes) :
    ¬ Writes src key replace 0 0 (zeros 0) written whole := by
  intro writes
  have noString : ∀ {copied appended source : Bytes} {from_ : Nat}, copied.length = 0 →
      strcat copied source from_ ≠ .ok appended := by
    intro copied appended source from_ empty done
    obtain ⟨held, isString, -⟩ := (bind_eq_ok_iff _ _ _).mp done
    have inside := strAt_length isString
    omega
  cases writes with
  | finished _ last => exact nonempty (eq_nil_of_byteAt holds last)
  | rest _ _ _ appended => exact noString (zeros_length 0) appended
  | pass _ _ copies appended _ _ =>
      rw [copyPass, if_pos rfl] at copies
      exact noString ((strncpy_length copies).trans (zeros_length 0)) appended

/-- A text that is not empty is built inside of a block exactly when what is put
together is shorter than the block. -/
theorem endsInside_iff_of_ne_nil (holds : strAt src 0 = .ok text) (replaceFree : 0 ∉ replace)
    (nonempty : text ≠ []) (room : Nat) :
    EndsInside src key replace (zeros room) ↔
      ∃ out, Pieced key replace 0 text out ∧ out.length < room := by
  constructor
  · rintro ⟨written, whole, writes, -⟩
    by_cases positive : 0 < room
    · exact pieced_of_writes writes replaceFree holds (Nat.zero_le _) (padTo_nil room).symm
        List.not_mem_nil (fun _ => rfl) positive
    · obtain rfl : room = 0 := by omega
      exact absurd writes (not_writes_no_room holds nonempty written whole)
  · rintro ⟨out, pieced, fits⟩
    obtain ⟨written, writes, ended⟩ :=
      writes_of_pieced pieced replaceFree holds List.not_mem_nil (fun _ => rfl) fits
    rw [padTo_nil] at writes
    refine ⟨written, _, writes, ?_⟩
    rw [zeros_length]
    exact ended

theorem endsInside_nil (holds : strAt src 0 = .ok []) (nonempty : key ≠ []) (block : Bytes) :
    EndsInside src key replace block := by
  have missing : find key [] = none :=
    (find_eq_none_iff key []).mpr fun occurs => nonempty (List.infix_nil.mp occurs)
  have absent := (strstr_eq_none_iff key holds).mpr missing
  exact ⟨[], block, .finished absent (byteAt_of_strAt holds), nofun⟩

/-- The text with every occurrence replaced is shorter.  Of a text whose length is
no `int` the lengths of the pieces, of the key and of the block are cut as well. -/
def Shrinks (key replace text : Bytes) : Prop :=
  if text.length < 2 ^ 31 then key <:+: text ∧ replace.length < key.length
  else ∃ out, Pieced key replace 0 text out ∧ out.length < toSize (toInt text.length)

theorem shrinks_iff (nonempty : key ≠ []) :
    Shrinks key replace text ↔
      ∃ out, Pieced key replace 0 text out ∧ out.length < toSize (toInt text.length) := by
  rw [Shrinks]
  split
  next small =>
    rw [toInt_natCast small, toSize_natCast (by omega), ← replaceAll_length_lt_iff nonempty]
    constructor
    · intro shorter
      exact ⟨_, pieced_replaceAll replace nonempty (by omega), shorter⟩
    · rintro ⟨out, pieced, shorter⟩
      rwa [← pieced_unique nonempty pieced small]
  next => exact Iff.rfl

/-- Where the loop is left and the block is never overrun. -/
theorem strReplace_endsInside_iff (holds : strAt src 0 = .ok text) (replaceFree : 0 ∉ replace) :
    EndsInside src key replace (zeros (toSize (toInt text.length))) ↔
      key ≠ [] ∧ (text = [] ∨ Shrinks key replace text) := by
  by_cases nonempty : key = []
  · subst nonempty
    refine iff_of_false ?_ fun ends => ends.1 rfl
    rintro ⟨written, whole, writes, -⟩
    have noForward : toInt ([] : Bytes).length ≤ 0 := by decide
    exact not_writes_back holds noForward writes le_rfl (Nat.zero_le _) List.nil_prefix
  by_cases empty : text = []
  · subst empty
    simp only [endsInside_nil holds nonempty, ne_eq, nonempty, not_false_eq_true, true_and,
      true_or]
  · rw [endsInside_iff_of_ne_nil holds replaceFree empty, shrinks_iff nonempty]
    simp only [ne_eq, nonempty, empty, not_false_eq_true, true_and, false_or]

theorem strReplace_endsInside_encoded :
    EndsInside (lit "group1%2FM00" ++ [0]) (lit "%2F") (lit "/")
      (zeros (toSize (toInt (lit "group1%2FM00").length))) := by
  have shrinks : Shrinks (lit "%2F") (lit "/") (lit "group1%2FM00") :=
    (if_pos (by decide)).mpr (by decide)
  exact (strReplace_endsInside_iff (by decide) (by decide)).mpr ⟨by decide, .inr shrinks⟩

/-- Without an occurrence of the key the text itself is to fit into a block of
its own length. -/
theorem strReplace_overruns : ¬ EndsInside (lit "group1" ++ [0]) (lit "%2F") (lit "/")
    (zeros (toSize (toInt (lit "group1").length))) := by
  have holds : strAt (lit "group1" ++ [0]) 0 = .ok (lit "group1") := by decide
  have nonempty : lit "%2F" ≠ [] := by decide
  intro inside
  have shrinks := (endsInside_iff_of_ne_nil holds (by decide) (by decide) _).mp inside
  rw [← shrinks_iff nonempty, Shrinks, if_pos (by decide)] at shrinks
  exact absurd shrinks.1 (by decide)

/-- `str_replace` with what `malloc` returned. -/
def strReplaceGiven (given : Option Bytes) (src key replace : Bytes) : C (Int × Bytes) := do
  let length ← strlen src 0
  replaceGiven src key replace (toInt length) given

theorem strReplace_outcome (env : Env) (holds : strAt src 0 = .ok text) :
    (strReplace src key replace).outcome env =
      (ofC (strReplaceGiven (blockBytes (env (.malloc .strReplace (toSize (toInt text.length)))))
        src key replace)).outcome env := by
  rw [strReplace, strReplaceGiven, strlen_of_strAt holds, ofC_ok, Prog.ret_bind, ok_bind]
  exact outcome_ask_bind env _ _

/-- `'/'`. -/
def slash : Byte := 47

end Function

end DistStore.ReplacedText

import DistStore.JsonMinify

/-!
# Minified texts read back

A text that the parser accepts is minified to a text that it reads as the same
value.  By induction on the fuel of the parser: what is kept of the part that a
function reads is read by it in the same way, whatever follows.
-/

set_option autoImplicit false

namespace DistStore.JsonMinifyParse

open CMemory JsonPrint JsonTree JsonParse JsonScalars JsonSafety JsonMinify

/-! ## Strings -/

/-- Inside of a string whose escapes are complete. -/
inductive Body : Bytes → Prop where
  | nil : Body []
  | plain {byte : Byte} {rest : Bytes} (literally : Literally byte) (body : Body rest) :
      Body (byte :: rest)
  | short {letter : Byte} {rest : Bytes} (nonzero : letter ≠ 0) (notLong : letter ≠ 117)
      (body : Body rest) : Body (92 :: letter :: rest)
  | long {a b c d : Byte} {rest : Bytes} (literally : ∀ byte ∈ [a, b, c, d], Literally byte)
      (body : Body rest) : Body (92 :: 117 :: a :: b :: c :: d :: rest)

/-- A text in which every string is closed before the NUL. -/
inductive Shut : Bytes → Prop where
  | nul (rest : Bytes) : Shut (0 :: rest)
  | string {body rest : Bytes} (isBody : Body body) (shut : Shut rest) :
      Shut (34 :: (body ++ 34 :: rest))
  | other {byte : Byte} {rest : Bytes} (nonzero : byte ≠ 0) (quote : byte ≠ 34) (shut : Shut rest) :
      Shut (byte :: rest)

theorem Shut.tail {byte : Byte} {rest : Bytes} (shut : Shut (byte :: rest)) (nonzero : byte ≠ 0)
    (quote : byte ≠ 34) : Shut rest := by
  cases shut with
  | nul rest => exact absurd rfl nonzero
  | string isBody shut => exact absurd rfl quote
  | other nonzero quote shut => exact shut

theorem Shut.body {rest : Bytes} (shut : Shut (34 :: rest)) :
    ∃ body later, rest = body ++ 34 :: later ∧ Body body ∧ Shut later := by
  cases shut with
  | string isBody shut => exact ⟨_, _, rfl, isBody, shut⟩
  | other nonzero quote shut => exact absurd rfl quote

theorem ahead_body {body rest : Bytes} (isBody : Body body) (ahead : Ahead false rest) :
    Ahead true (body ++ 34 :: rest) := by
  induction isBody with
  | nil => exact .closing ahead
  | plain literally _ inductionHypothesis => exact .plain literally inductionHypothesis
  | short nonzero notLong _ inductionHypothesis => exact .short nonzero notLong inductionHypothesis
  | long literally _ inductionHypothesis => exact .long literally inductionHypothesis

theorem Shut.ahead {text : Bytes} (shut : Shut text) : Ahead false text := by
  induction shut with
  | nul rest => exact .nul false rest
  | string isBody _ inductionHypothesis => exact .opening (ahead_body isBody inductionHypothesis)
  | other nonzero quote _ inductionHypothesis => exact .outside nonzero quote inductionHypothesis

theorem quoted_body {body : Bytes} (isBody : Body body) : Quoted body := by
  induction isBody with
  | nil => exact .nil
  | plain literally _ inductionHypothesis => exact .plain literally inductionHypothesis
  | short nonzero notLong _ inductionHypothesis => exact .pair _ inductionHypothesis
  | long literally _ inductionHypothesis =>
      simp only [List.forall_mem_cons] at literally
      obtain ⟨first, second, third, fourth, -⟩ := literally
      exact .pair 117 (.plain first (.plain second (.plain third (.plain fourth inductionHypothesis))))

theorem lengthLoop_body {body : Bytes} (isBody : Body body) :
    ∃ len, ∀ rest, lengthLoop false (body ++ 34 :: rest) = .ok len := by
  induction isBody with
  | nil => exact ⟨0, fun rest => lengthLoop_end (Or.inl rfl) rest⟩
  | plain literally _ inductionHypothesis =>
      obtain ⟨len, counted⟩ := inductionHypothesis
      exact ⟨len + 1, fun rest => lengthLoop_plain literally (counted rest)⟩
  | short nonzero notLong _ inductionHypothesis =>
      obtain ⟨len, counted⟩ := inductionHypothesis
      exact ⟨len + 1, fun rest => lengthLoop_short _ (counted rest)⟩
  | long literally _ inductionHypothesis =>
      obtain ⟨len, counted⟩ := inductionHypothesis
      exact ⟨len + 5, fun rest => lengthLoop_long literally (counted rest)⟩

theorem parseHex4_front (a b c d : Byte) (rest : Bytes) :
    parseHex4 (a :: b :: c :: d :: rest) = parseHex4 [a, b, c, d] := by
  simp only [parseHex4, parseHex]

/-- An escape looks at no more than the next escape and the closing quote. -/
theorem transcode_body (a b c d : Byte) {body : Bytes} (isBody : Body body) :
    ∃ bytes moved, (∀ rest, transcode (117 :: a :: b :: c :: d :: (body ++ 34 :: rest)) =
        .ok (bytes, moved)) ∧
      (moved = 4 ∨ moved = 10 ∧ ∃ a' b' c' d' behind,
        body = 92 :: 117 :: a' :: b' :: c' :: d' :: behind ∧ Body behind) := by
  obtain ⟨uc, first, small⟩ := parseHex_four a b c d []
  unfold transcode
  simp only [List.drop_succ_cons, List.drop_zero, parseHex4_front a b c d (body ++ _), first, found_bind]
  by_cases lone : (0xDC00 ≤ uc ∧ uc ≤ 0xDFFF) ∨ uc = 0
  · simp only [if_pos lone]
    exact ⟨[], 4, fun rest => rfl, Or.inl rfl⟩
  · simp only [if_neg lone]
    by_cases high : 0xD800 ≤ uc ∧ uc ≤ 0xDBFF
    · simp only [if_pos high]
      cases isBody with
      | nil => exact ⟨[], 4, fun rest => rfl, Or.inl rfl⟩
      | plain literally later =>
          refine ⟨[], 4, fun rest => ?_, Or.inl rfl⟩
          rw [List.cons_append, here_cons, found_bind, if_pos literally.2.2]
          rfl
      | short nonzero notLong later =>
          refine ⟨[], 4, fun rest => ?_, Or.inl rfl⟩
          rw [List.cons_append, here_cons, found_bind, if_neg (not_not.mpr rfl)]
          simp only [List.cons_append, List.drop_succ_cons, List.drop_zero]
          rw [here_cons, found_bind, if_pos notLong]
          rfl
      | @long a' b' c' d' behind literally later =>
          obtain ⟨uc2, second, -⟩ := parseHex_four a' b' c' d' []
          simp only [List.cons_append, here_cons, found_bind, List.drop_succ_cons, List.drop_zero,
            ne_eq, not_true_eq_false, if_false, parseHex4_front a' b' c' d' (behind ++ _), second]
          by_cases invalid : uc2 < 0xDC00 ∨ 0xDFFF < uc2
          · simp only [if_pos invalid]
            exact ⟨[], 10, fun rest => rfl, Or.inr ⟨rfl, a', b', c', d', behind, rfl, later⟩⟩
          · simp only [if_neg invalid]
            exact ⟨_, 10, fun rest => rfl, Or.inr ⟨rfl, a', b', c', d', behind, rfl, later⟩⟩
    · simp only [if_neg high]
      exact ⟨_, 4, fun rest => rfl, Or.inl rfl⟩

theorem copyLoop_body {body : Bytes} (isBody : Body body) (size : Nat) (out : Bytes) :
    ∃ written : Parser Bytes, ∀ rest, copyLoop size 0 (body ++ 34 :: rest) out =
      written >>= fun bytes => .ok (bytes, 34 :: rest) := by
  induction measure : body.length using Nat.strong_induction_on generalizing body out with
  | _ measure inductionHypothesis =>
      subst measure
      have after : ∀ {later : Bytes}, Body later → later.length < body.length → ∀ bytes,
          ∃ written : Parser Bytes, ∀ rest, (put size out bytes >>= fun out =>
            copyLoop size 0 (later ++ 34 :: rest) out) =
              written >>= fun bytes => .ok (bytes, 34 :: rest) := by
        intro later isLater shorter bytes
        cases ran : put size out bytes with
        | error stop => exact ⟨.error stop, fun rest => rfl⟩
        | ok out => exact inductionHypothesis later.length shorter isLater out rfl
      cases isBody with
      | nil => exact ⟨.ok out, fun rest => if_pos (Or.inl rfl)⟩
      | @plain byte later literally isLater =>
          obtain ⟨written, copied⟩ := after isLater (by simp) [byte]
          refine ⟨written, fun rest => ?_⟩
          have inside : ¬ (byte = 34 ∨ byte = 0) := fun ends => ends.elim literally.2.1 literally.1
          rw [List.cons_append, copyLoop, if_neg inside, if_pos literally.2.2, ← copied rest]
      | @short letter later nonzero notLong isLater =>
          obtain ⟨written, copied⟩ := after isLater (by simp) [unescape letter]
          refine ⟨written, fun rest => ?_⟩
          rw [List.cons_append, List.cons_append, copyLoop, if_neg (by decide), if_neg (by decide),
            here_cons, found_bind, if_neg notLong, ← copied rest]
          rfl
      | @long a b c d later literally isLater =>
          obtain ⟨bytes, moved, read, reach⟩ := transcode_body a b c d isLater
          have start : ∀ rest, copyLoop size 0 (92 :: 117 :: a :: b :: c :: d :: later ++ 34 :: rest) out =
              put size out bytes >>= fun out =>
                copyLoop size (moved + 1) (117 :: a :: b :: c :: d :: (later ++ 34 :: rest)) out := by
            intro rest
            simp only [List.cons_append]
            conv_lhs => rw [copyLoop, if_neg (by decide), if_neg (by decide), here_cons, found_bind,
              if_pos rfl, read rest, found_bind]
          rcases reach with rfl | ⟨rfl, a', b', c', d', behind, rfl, isBehind⟩
          · obtain ⟨written, copied⟩ := after isLater (by simp; omega) bytes
            exact ⟨written, fun rest => (start rest).trans (copied rest)⟩
          · obtain ⟨written, copied⟩ := after isBehind (by simp; omega) bytes
            exact ⟨written, fun rest => (start rest).trans (copied rest)⟩

/-- How a closed string is read does not depend on what follows it. -/
theorem parseString_body {body : Bytes} (isBody : Body body) :
    ∃ read : Parser Text, ∀ rest, parseString (34 :: (body ++ 34 :: rest)) =
      read >>= fun text => .ok (text, rest) := by
  obtain ⟨len, counted⟩ := lengthLoop_body isBody
  cases sized : ofC (checkInt ((len : Int) + 1)) with
  | error stop =>
      refine ⟨.error stop, fun rest => ?_⟩
      unfold parseString
      rw [here_cons, found_bind, if_neg (by decide), List.tail_cons, counted, found_bind, sized]
      rfl
  | ok size =>
      obtain ⟨written, copied⟩ := copyLoop_body isBody size.toNat []
      refine ⟨written >>= fun out => put size.toNat out [0] >>= fun out => .ok (textOf out),
        fun rest => ?_⟩
      unfold parseString
      rw [here_cons, found_bind, if_neg (by decide), List.tail_cons, counted, found_bind, sized,
        found_bind, copied]
      cases written with
      | error stop => rfl
      | ok out =>
          simp only [found_bind]
          cases ended : put size.toNat out [0] with
          | error stop => rfl
          | ok out' => rfl

/-! ## Numbers -/

/-- A byte that ends a number: a blank, a mark or the NUL. -/
def Marked (rest : Bytes) : Prop :=
  ∃ byte tail, rest = byte :: tail ∧ (byte ≤ 32 ∨ byte = 44 ∨ byte = 93 ∨ byte = 125)

theorem marked_byte {byte : Byte} (mark : byte ≤ 32 ∨ byte = 44 ∨ byte = 93 ∨ byte = 125) :
    ¬ isdigit byte = true ∧ byte ≠ 45 ∧ byte ≠ 43 ∧ byte ≠ 46 ∧ byte ≠ 48 ∧
      ¬ (byte = 101 ∨ byte = 69) ∧ ¬ (49 ≤ byte ∧ byte ≤ 57) := by
  have each : ∀ n < 256, (UInt8.ofNat n ≤ 32 ∨ UInt8.ofNat n = 44 ∨ UInt8.ofNat n = 93 ∨
      UInt8.ofNat n = 125) → ¬ isdigit (UInt8.ofNat n) = true ∧ UInt8.ofNat n ≠ 45 ∧
        UInt8.ofNat n ≠ 43 ∧ UInt8.ofNat n ≠ 46 ∧ UInt8.ofNat n ≠ 48 ∧
          ¬ (UInt8.ofNat n = 101 ∨ UInt8.ofNat n = 69) ∧
            ¬ (49 ≤ UInt8.ofNat n ∧ UInt8.ofNat n ≤ 57) := by decide +kernel
  have here_ := each byte.toNat byte.toNat_lt
  rw [UInt8.ofNat_toNat] at here_
  exact here_ mark

theorem kept_digit {byte : Byte} (digit : isdigit byte = true) : Kept byte :=
  kept_of_isNumeral (Or.inl digit)

/-- The text is left behind some kept bytes, in the same way whatever mark
follows it. -/
def SteadyAt {γ ρ : Type} (form : γ → Bytes → ρ) (read : Bytes → Parser ρ) (text : Bytes) : Prop :=
  ∃ (result : Parser γ) (used left : Bytes), text = used ++ left ∧ (∀ byte ∈ used, Kept byte) ∧
    ∀ rest, Marked rest → read (text ++ rest) = result >>= fun value => .ok (form value (left ++ rest))

def Steady {γ ρ : Type} (form : γ → Bytes → ρ) (read : Bytes → Parser ρ) : Prop :=
  ∀ text, SteadyAt form read text

/-- Two values and the pointer. -/
def withBoth {γ δ : Type} (value : γ × δ) (text : Bytes) : γ × δ × Bytes := (value.1, value.2, text)

section Steady

variable {γ δ ρ σ : Type} {form : γ → Bytes → ρ} {form' : δ → Bytes → σ}

theorem steady_pure (value : γ) : Steady form fun text => .ok (form value text) :=
  fun text => ⟨.ok value, [], text, rfl, List.forall_mem_nil _, fun _ _ => rfl⟩

theorem Steady.bind {read : Bytes → Parser ρ} {next : ρ → Parser σ} (steady : Steady form read)
    (later : ∀ value, Steady form' fun text => next (form value text)) :
    Steady form' fun text => read text >>= next := by
  intro text
  obtain ⟨result, used, left, rfl, kept, reads⟩ := steady text
  cases result with
  | error stop =>
      refine ⟨.error stop, used, left, rfl, kept, fun rest marked => ?_⟩
      show read _ >>= next = _
      rw [reads rest marked]
      rfl
  | ok value =>
      obtain ⟨result, used', left', rfl, kept', reads'⟩ := later value left
      refine ⟨result, used ++ used', left', (List.append_assoc _ _ _).symm,
        List.forall_mem_append.mpr ⟨kept, kept'⟩, fun rest marked => ?_⟩
      show read _ >>= next = _
      rw [reads rest marked]
      exact reads' rest marked

/-- Behind one more kept byte. -/
theorem steady_cons {read : Bytes → Parser ρ} {text : Bytes} {byte : Byte} (isKept : Kept byte)
    {other : Bytes → Parser ρ} (steady : Steady form other)
    (same : ∀ rest, read (byte :: (text ++ rest)) = other (text ++ rest)) :
    SteadyAt form read (byte :: text) := by
  obtain ⟨result, used, left, shape, kept, reads⟩ := steady text
  refine ⟨result, byte :: used, left, by rw [shape, List.cons_append],
    List.forall_mem_cons.mpr ⟨isKept, kept⟩, fun rest marked => ?_⟩
  rw [List.cons_append, same, reads rest marked]

/-- The text is left as it is. -/
theorem steady_stay {read : Bytes → Parser ρ} {text : Bytes} (value : γ)
    (same : ∀ rest, Marked rest → read (text ++ rest) = .ok (form value (text ++ rest))) :
    SteadyAt form read text :=
  ⟨.ok value, [], text, rfl, List.forall_mem_nil _, same⟩

end Steady

section Numbers

variable {D : Type} [Double D]

theorem steady_digits (n : D) : Steady Prod.mk (digits n) := by
  intro text
  induction text generalizing n with
  | nil =>
      refine steady_stay n fun rest marked => ?_
      obtain ⟨byte, tail, rfl, mark⟩ := marked
      rw [List.nil_append, digits, if_neg (marked_byte mark).1]
  | cons byte text inductionHypothesis =>
      by_cases digit : isdigit byte = true
      · obtain ⟨result, used, left, shape, kept, reads⟩ := inductionHypothesis
          (Double.add (Double.mul n (Double.ofInt 10)) (Double.ofInt (byte.toNat - 48 : Nat)))
        refine ⟨result, byte :: used, left, by rw [shape, List.cons_append],
          List.forall_mem_cons.mpr ⟨kept_digit digit, kept⟩, fun rest marked => ?_⟩
        rw [List.cons_append, digits, if_pos digit, reads rest marked]
      · refine steady_stay n fun rest _ => ?_
        rw [List.cons_append, digits, if_neg digit]

theorem steady_fraction (n scale : D) :
    Steady withBoth (fraction n scale) := by
  intro text
  induction text generalizing n scale with
  | nil =>
      refine steady_stay (n, scale) fun rest marked => ?_
      obtain ⟨byte, tail, rfl, mark⟩ := marked
      rw [List.nil_append, fraction, if_neg (marked_byte mark).1]
      rfl
  | cons byte text inductionHypothesis =>
      by_cases digit : isdigit byte = true
      · obtain ⟨result, used, left, shape, kept, reads⟩ := inductionHypothesis
          (Double.add (Double.mul n (Double.ofInt 10)) (Double.ofInt (byte.toNat - 48 : Nat)))
          (Double.sub scale (Double.ofInt 1))
        refine ⟨result, byte :: used, left, by rw [shape, List.cons_append],
          List.forall_mem_cons.mpr ⟨kept_digit digit, kept⟩, fun rest marked => ?_⟩
        rw [List.cons_append, fraction, if_pos digit, reads rest marked]
      · refine steady_stay (n, scale) fun rest _ => ?_
        rw [List.cons_append, fraction, if_neg digit]
        rfl

theorem steady_exponent (subscale : Int) : Steady Prod.mk (exponent subscale) := by
  intro text
  induction text generalizing subscale with
  | nil =>
      refine steady_stay subscale fun rest marked => ?_
      obtain ⟨byte, tail, rfl, mark⟩ := marked
      rw [List.nil_append, exponent, if_neg (marked_byte mark).1]
  | cons byte text inductionHypothesis =>
      by_cases digit : isdigit byte = true
      · cases counted : (do
          let shifted ← ofC (checkInt (subscale * 10))
          ofC (checkInt (shifted + (byte.toNat - 48 : Nat)))) with
        | error stop =>
            refine ⟨.error stop, [], byte :: text, rfl, List.forall_mem_nil _, fun rest _ => ?_⟩
            rw [List.cons_append, exponent, if_pos digit]
            cases shifted : ofC (checkInt (subscale * 10)) with
            | error other =>
                rw [shifted] at counted
                cases counted
                rfl
            | ok value =>
                rw [shifted] at counted
                rw [found_bind] at counted ⊢
                rw [counted]
                rfl
        | ok next =>
            obtain ⟨result, used, left, shape, kept, reads⟩ := inductionHypothesis next
            refine ⟨result, byte :: used, left, by rw [shape, List.cons_append],
              List.forall_mem_cons.mpr ⟨kept_digit digit, kept⟩, fun rest marked => ?_⟩
            rw [List.cons_append, exponent, if_pos digit, ← reads rest marked]
            cases shifted : ofC (checkInt (subscale * 10)) with
            | error other =>
                rw [shifted] at counted
                cases counted
            | ok value =>
                rw [shifted] at counted
                rw [found_bind] at counted ⊢
                rw [counted, found_bind]
      · refine steady_stay subscale fun rest _ => ?_
        rw [List.cons_append, exponent, if_neg digit]

theorem steady_parseSign : Steady Prod.mk parseSign := by
  intro text
  cases text with
  | nil =>
      refine steady_stay (1 : Int) fun rest marked => ?_
      obtain ⟨byte, tail, rfl, mark⟩ := marked
      rw [List.nil_append, parseSign, here_cons, found_bind, if_neg (marked_byte mark).2.1]
      rfl
  | cons byte text =>
      by_cases minus : byte = 45
      · refine steady_cons (minus ▸ by decide) (steady_pure (-1 : Int)) fun rest => ?_
        rw [parseSign, here_cons, found_bind, if_pos minus]
        rfl
      · refine steady_stay (1 : Int) fun rest _ => ?_
        rw [List.cons_append, parseSign, here_cons, found_bind, if_neg minus]
        rfl

/-- The digits behind a leading zero. -/
def wholeDigits (num : Bytes) : Parser (D × Bytes) := do
  let first ← here num
  if 49 ≤ first ∧ first ≤ 57 then digits (Double.ofInt 0) num else return (Double.ofInt 0, num)

theorem steady_wholeDigits : Steady Prod.mk (wholeDigits (D := D)) := by
  intro text
  cases text with
  | nil =>
      refine steady_stay (Double.ofInt 0 : D) fun rest marked => ?_
      obtain ⟨byte, tail, rfl, mark⟩ := marked
      rw [List.nil_append, wholeDigits, here_cons, found_bind, if_neg (marked_byte mark).2.2.2.2.2.2]
      rfl
  | cons byte text =>
      by_cases first : 49 ≤ byte ∧ byte ≤ 57
      · obtain ⟨result, used, left, shape, kept, reads⟩ :=
          steady_digits (Double.ofInt 0 : D) (byte :: text)
        refine ⟨result, used, left, shape, kept, fun rest marked => ?_⟩
        rw [← reads rest marked, List.cons_append, wholeDigits, here_cons, found_bind, if_pos first]
      · refine steady_stay (Double.ofInt 0 : D) fun rest _ => ?_
        rw [List.cons_append, wholeDigits, here_cons, found_bind, if_neg first]
        rfl

theorem steady_parseWhole : Steady Prod.mk (parseWhole (D := D)) := by
  intro text
  cases text with
  | nil =>
      refine steady_stay (Double.ofInt 0 : D) fun rest marked => ?_
      obtain ⟨byte, tail, rfl, mark⟩ := marked
      rw [List.nil_append, parseWhole, here_cons, found_bind, if_neg (marked_byte mark).2.2.2.2.1]
      dsimp only
      rw [here_cons, found_bind, if_neg (marked_byte mark).2.2.2.2.2.2]
      rfl
  | cons byte text =>
      by_cases zero : byte = 48
      · refine steady_cons (zero ▸ by decide) steady_wholeDigits fun rest => ?_
        rw [parseWhole, here_cons, found_bind, if_pos zero]
        rfl
      · obtain ⟨result, used, left, shape, kept, reads⟩ := steady_wholeDigits (D := D) (byte :: text)
        refine ⟨result, used, left, shape, kept, fun rest marked => ?_⟩
        rw [← reads rest marked, List.cons_append, parseWhole, here_cons, found_bind, if_neg zero]
        rfl

theorem steady_parseFraction (n : D) :
    Steady withBoth (parseFraction n) := by
  intro text
  cases text with
  | nil =>
      refine steady_stay (n, (Double.ofInt 0 : D)) fun rest marked => ?_
      obtain ⟨byte, tail, rfl, mark⟩ := marked
      rw [List.nil_append, parseFraction, here_cons, found_bind, if_neg (marked_byte mark).2.2.2.1]
      rfl
  | cons byte text =>
      by_cases point : byte = 46
      · subst point
        cases text with
        | nil =>
            refine steady_stay (n, (Double.ofInt 0 : D)) fun rest marked => ?_
            obtain ⟨byte, tail, rfl, mark⟩ := marked
            rw [List.singleton_append, parseFraction, here_cons, found_bind, if_pos rfl, List.tail_cons,
              here_cons, found_bind, if_neg (marked_byte mark).1]
            rfl
        | cons digit text =>
            by_cases isDigit : isdigit digit = true
            · refine steady_cons (by decide) (steady_fraction n (Double.ofInt 0)) fun rest => ?_
              rw [parseFraction, here_cons, found_bind, if_pos rfl, List.tail_cons, List.cons_append,
                here_cons, found_bind, if_pos isDigit]
            · refine steady_stay (n, (Double.ofInt 0 : D)) fun rest _ => ?_
              rw [List.cons_append, parseFraction, here_cons, found_bind, if_pos rfl, List.tail_cons,
                List.cons_append, here_cons, found_bind, if_neg isDigit]
              rfl
      · refine steady_stay (n, (Double.ofInt 0 : D)) fun rest _ => ?_
        rw [List.cons_append, parseFraction, here_cons, found_bind, if_neg point]
        rfl

/-- The sign of an exponent. -/
def exponentSign (num : Bytes) : Parser (Int × Bytes) := do
  let sign ← here num
  if sign = 43 then pure (1, num.tail) else parseSign num

theorem steady_exponentSign : Steady Prod.mk exponentSign := by
  intro text
  cases text with
  | nil =>
      refine steady_stay (1 : Int) fun rest marked => ?_
      obtain ⟨byte, tail, rfl, mark⟩ := marked
      rw [List.nil_append, exponentSign, here_cons, found_bind, if_neg (marked_byte mark).2.2.1, parseSign,
        here_cons, found_bind, if_neg (marked_byte mark).2.1]
      rfl
  | cons byte text =>
      by_cases plus : byte = 43
      · refine steady_cons (plus ▸ by decide) (steady_pure (1 : Int)) fun rest => ?_
        rw [exponentSign, here_cons, found_bind, if_pos plus]
        rfl
      · obtain ⟨result, used, left, shape, kept, reads⟩ := steady_parseSign (byte :: text)
        refine ⟨result, used, left, shape, kept, fun rest marked => ?_⟩
        rw [← reads rest marked, List.cons_append, exponentSign, here_cons, found_bind, if_neg plus]

theorem steady_parseExponent :
    Steady withBoth parseExponent := by
  intro text
  cases text with
  | nil =>
      refine steady_stay ((0 : Int), (1 : Int)) fun rest marked => ?_
      obtain ⟨byte, tail, rfl, mark⟩ := marked
      rw [List.nil_append, parseExponent, here_cons, found_bind, if_neg (marked_byte mark).2.2.2.2.2.1]
      rfl
  | cons byte text =>
      by_cases letter : byte = 101 ∨ byte = 69
      · have signed : Steady withBoth fun num =>
            exponentSign num >>= fun sign => exponent 0 sign.2 >>= fun scaled =>
              .ok (scaled.1, sign.1, scaled.2) := by
          refine steady_exponentSign.bind fun sign => ?_
          show Steady withBoth fun num => exponent 0 num >>= fun scaled => .ok (scaled.1, sign, scaled.2)
          exact (steady_exponent 0).bind fun scaled => steady_pure (scaled, sign)
        refine steady_cons (by rcases letter with rfl | rfl <;> decide) signed fun rest => ?_
        rw [parseExponent, here_cons, found_bind, if_pos letter, List.tail_cons]
        unfold exponentSign
        cases looked : here (text ++ rest) with
        | error stop => rfl
        | ok sign =>
            simp only [found_bind]
            split
            · rfl
            · rfl
      · refine steady_stay ((0 : Int), (1 : Int)) fun rest _ => ?_
        rw [List.cons_append, parseExponent, here_cons, found_bind, if_neg letter]
        rfl

theorem steady_parseNumber : Steady Prod.mk (JsonParse.parseNumber (D := D)) :=
  steady_parseSign.bind fun _ => steady_parseWhole.bind fun n => (steady_parseFraction n).bind fun _ =>
    steady_parseExponent.bind fun _ => steady_pure _

/-- A number that is read up to a mark is read in the same way up to any other
one. -/
theorem parseNumber_kept {num rest : Bytes} {value : Json D}
    (read : JsonParse.parseNumber num = .ok (value, rest)) (inText : rest <:+ num)
    (marked : Marked rest) :
    ∃ used, num = used ++ rest ∧ (∀ byte ∈ used, Kept byte) ∧
      ∀ small, Marked small → JsonParse.parseNumber (used ++ small) = .ok (value, small) := by
  obtain ⟨front, rfl⟩ := inText
  obtain ⟨result, used, left, rfl, kept, reads⟩ := steady_parseNumber (D := D) front
  have same := (reads rest marked).symm.trans read
  cases result with
  | error stop => cases same
  | ok found =>
      simp only [found_bind, Except.ok.injEq, Prod.mk.injEq] at same
      obtain ⟨rfl, same⟩ := same
      obtain rfl : left = [] := List.append_left_eq_self.mp same
      rw [List.append_nil] at reads ⊢
      exact ⟨used, rfl, kept, reads⟩

end Numbers

/-! ## Space -/

/-- A byte at which space ends. -/
def Solid (text : Bytes) : Prop := ∃ byte tail, text = byte :: tail ∧ (byte = 0 ∨ 32 < byte)

/-- What may follow a value and the space behind it. -/
def Ended (text : Bytes) : Prop :=
  ∃ byte tail, text = byte :: tail ∧ (byte = 0 ∨ byte = 44 ∨ byte = 93 ∨ byte = 125)

theorem skip_of_solid {text : Bytes} (solid : Solid text) : skip text = .ok text := by
  obtain ⟨byte, tail, rfl, nul | visible⟩ := solid
  · exact if_neg fun blank => blank.1 nul
  · exact skip_solid visible tail

theorem Ended.solid {text : Bytes} (ended : Ended text) : Solid text := by
  obtain ⟨byte, tail, rfl, mark⟩ := ended
  refine ⟨byte, tail, rfl, ?_⟩
  rcases mark with rfl | rfl | rfl | rfl <;> decide

theorem Ended.marked {text : Bytes} (ended : Ended text) : Marked text := by
  obtain ⟨byte, tail, rfl, mark⟩ := ended
  refine ⟨byte, tail, rfl, ?_⟩
  rcases mark with rfl | rfl | rfl | rfl <;> decide

theorem marked_append {blank : Bytes} (low : ∀ byte ∈ blank, byte ≤ 32) {small : Bytes}
    (marked : Marked small) : Marked (blank ++ small) := by
  cases blank with
  | nil => exact marked
  | cons byte blank => exact ⟨byte, _, rfl, Or.inl (low byte List.mem_cons_self)⟩

/-- Of space nothing is kept that would end it. -/
theorem skip_passes {text left : Bytes} (skipped : skip text = .ok left) :
    ∃ blank, Passes text blank left ∧ (∀ small, skip (blank ++ small) = skip small) ∧
      (∀ byte ∈ blank, byte ≤ 32) ∧ Solid left ∧ (Shut text → Shut left) := by
  induction text with
  | nil => cases skipped
  | cons byte rest inductionHypothesis =>
      by_cases blank : byte ≠ 0 ∧ byte ≤ 32
      · rw [skip_blank blank] at skipped
        have quote : byte ≠ 34 ∧ byte ≠ 47 := by
          constructor <;> rintro rfl <;> exact absurd blank.2 (by decide)
        obtain ⟨kept, passes, skips, low, solid, shuts⟩ := inductionHypothesis skipped
        have shut : Shut (byte :: rest) → Shut left := fun shut => shuts (shut.tail blank.1 quote.1)
        by_cases removed : Blank byte
        · exact ⟨kept, .blank removed passes, skips, low, solid, shut⟩
        · refine ⟨byte :: kept, .other ⟨blank.1, removed, quote.2, quote.1⟩ passes, fun small => ?_,
            List.forall_mem_cons.mpr ⟨blank.2, low⟩, solid, shut⟩
          rw [List.cons_append, skip_blank blank, skips]
      · rw [skip, if_neg blank] at skipped
        cases skipped
        refine ⟨[], .refl _, fun small => rfl, List.forall_mem_nil _, ⟨byte, rest, rfl, ?_⟩, id⟩
        rw [not_and_or, not_not, UInt8.not_le] at blank
        exact blank

theorem marked_of_skip {text left : Bytes} (skipped : skip text = .ok left) (ended : Ended left) :
    Marked text := by
  cases text with
  | nil => cases skipped
  | cons byte rest =>
      by_cases blank : byte ≠ 0 ∧ byte ≤ 32
      · exact ⟨byte, rest, rfl, Or.inl blank.2⟩
      · rw [skip, if_neg blank] at skipped
        cases skipped
        exact ended.marked

theorem ran_bind {α β : Type} {run : Parser α} {next : α → Parser β} {result : β}
    (ran : run >>= next = .ok result) : ∃ value, run = .ok value ∧ next value = .ok result := by
  cases run with
  | error stop => cases ran
  | ok value => exact ⟨value, rfl, ran⟩

theorem here_ok {cursor : Bytes} {byte : Byte} (looked : here cursor = .ok byte) :
    ∃ tail, cursor = byte :: tail := by
  cases cursor with
  | nil => cases looked
  | cons first tail =>
      cases looked
      exact ⟨tail, rfl⟩

/-! ## Values -/

/-- What is kept of a part of a text is read like it, whatever mark follows. -/
def Alike {α : Type} (read : Bytes → Parser (α × Bytes)) (cursor : Bytes) (value : α) (rest : Bytes) :
    Prop :=
  ∃ byte front tail, cursor = byte :: tail ∧ Passes cursor (byte :: front) rest ∧ Shut rest ∧
    ∀ small, Marked small → read (byte :: (front ++ small)) = .ok (value, small)

/-- A function that is another one on texts with the same first byte. -/
theorem Alike.congr {α : Type} {read other : Bytes → Parser (α × Bytes)} {byte : Byte} {tail rest : Bytes}
    {value : α} (alike : Alike read (byte :: tail) value rest)
    (same : ∀ text, other (byte :: text) = read (byte :: text)) :
    Alike other (byte :: tail) value rest := by
  obtain ⟨_, front, _, shape, passes, shut, reads⟩ := alike
  cases shape
  exact ⟨byte, front, tail, rfl, passes, shut, fun small marked => (same _).trans (reads small marked)⟩

theorem shut_kept {used rest : Bytes} (kept : ∀ byte ∈ used, Kept byte) (shut : Shut (used ++ rest)) :
    Shut rest := by
  induction used with
  | nil => exact shut
  | cons byte used inductionHypothesis =>
      rw [List.forall_mem_cons] at kept
      exact inductionHypothesis kept.2 (shut.tail kept.1.1 kept.1.2.2.2)

theorem alike_kept {α : Type} {read : Bytes → Parser (α × Bytes)} {byte : Byte} {used rest : Bytes}
    {value : α} (kept : ∀ other ∈ byte :: used, Kept other) (shut : Shut (byte :: (used ++ rest)))
    (reads : ∀ small, Marked small → read (byte :: (used ++ small)) = .ok (value, small)) :
    Alike read (byte :: (used ++ rest)) value rest :=
  ⟨byte, used, used ++ rest, rfl, passes_kept kept rest, shut_kept kept shut, reads⟩

theorem parseString_kept {cursor rest : Bytes} {text : Text} (read : parseString cursor = .ok (text, rest))
    (shut : Shut cursor) :
    ∃ front, Passes cursor (34 :: front) rest ∧ Shut rest ∧ (∃ tail, cursor = 34 :: tail) ∧
      ∀ small, parseString (34 :: (front ++ small)) = .ok (text, small) := by
  cases cursor with
  | nil => cases read
  | cons byte tail =>
      by_cases quote : byte = 34
      · subst quote
        obtain ⟨body, later, rfl, isBody, shutLater⟩ := shut.body
        obtain ⟨result, reads⟩ := parseString_body isBody
        have same := (reads later).symm.trans read
        cases result with
        | error stop => cases same
        | ok found =>
            cases same
            refine ⟨body ++ [34], .string (quoted_body isBody) (Or.inl rfl) (.refl _), shutLater,
              ⟨_, rfl⟩, fun small => ?_⟩
            rw [List.append_assoc, List.singleton_append, reads]
            rfl
      · rw [parseString, here_cons, found_bind, if_pos quote] at read
        cases read

theorem startsWith_ok {word text : Bytes} (found : startsWith word text = .ok true) :
    ∃ rest, text = word ++ rest := by
  induction word generalizing text with
  | nil => exact ⟨text, rfl⟩
  | cons letter word inductionHypothesis =>
      cases text with
      | nil => cases found
      | cons byte text =>
          by_cases same : byte = letter
          · rw [startsWith, if_pos same] at found
            obtain ⟨rest, rfl⟩ := inductionHypothesis found
            exact ⟨rest, same ▸ rfl⟩
          · rw [startsWith, if_neg same] at found
            cases found

section Values

variable {D : Type} [Double D]

/-- What each function of the parser does with so much fuel. -/
structure Preserves (D : Type) [Double D] (fuel : Nat) : Prop where
  value : ∀ cursor (value : Json D) rest after, parseValue fuel cursor = .ok (value, rest) →
    Shut cursor → skip rest = .ok after → Ended after → Alike (parseValue fuel) cursor value rest
  array : ∀ cursor (value : Json D) rest, parseArray fuel cursor = .ok (value, rest) → Shut cursor →
    Alike (parseArray fuel) cursor value rest
  items : ∀ cursor (next : List (Json D)) tail, parseItems fuel cursor = .ok (next, 93 :: tail) →
    Shut cursor → ∃ kept, Passes cursor kept (93 :: tail) ∧ Shut (93 :: tail) ∧
      ∀ small, Ended (kept ++ 93 :: small) ∧
        parseItems fuel (kept ++ 93 :: small) = .ok (next, 93 :: small)
  object : ∀ cursor (value : Json D) rest, parseObject fuel cursor = .ok (value, rest) → Shut cursor →
    Alike (parseObject fuel) cursor value rest
  member : ∀ cursor (item : Text × Json D) rest, parseMember fuel cursor = .ok (item, rest) →
    Shut cursor → Ended rest → ∃ blank front, (∀ small, skip (blank ++ small) = skip small) ∧
      Passes cursor (blank ++ 34 :: front) rest ∧ Shut rest ∧
        ∀ small, Ended small → parseMember fuel (34 :: (front ++ small)) = .ok (item, small)
  members : ∀ cursor (next : List (Text × Json D)) tail,
    parseMembers fuel cursor = .ok (next, 125 :: tail) → Shut cursor →
      ∃ kept, Passes cursor kept (125 :: tail) ∧ Shut (125 :: tail) ∧
        ∀ small, Ended (kept ++ 125 :: small) ∧
          parseMembers fuel (kept ++ 125 :: small) = .ok (next, 125 :: small)

theorem parseItems_ended {fuel : Nat} {cursor tail : Bytes} {next : List (Json D)}
    (run : parseItems fuel cursor = .ok (next, 93 :: tail)) : Ended cursor := by
  cases fuel with
  | zero => cases run
  | succ fuel =>
      cases cursor with
      | nil => cases run
      | cons byte rest =>
          by_cases comma : byte = 44
          · exact ⟨byte, rest, rfl, Or.inr (Or.inl comma)⟩
          · rw [parseItems, here_cons, found_bind, if_neg comma] at run
            cases run
            exact ⟨93, tail, rfl, Or.inr (Or.inr (Or.inl rfl))⟩

theorem parseMembers_ended {fuel : Nat} {cursor tail : Bytes} {next : List (Text × Json D)}
    (run : parseMembers fuel cursor = .ok (next, 125 :: tail)) : Ended cursor := by
  cases fuel with
  | zero => cases run
  | succ fuel =>
      cases cursor with
      | nil => cases run
      | cons byte rest =>
          by_cases comma : byte = 44
          · exact ⟨byte, rest, rfl, Or.inr (Or.inl comma)⟩
          · rw [parseMembers, here_cons, found_bind, if_neg comma] at run
            cases run
            exact ⟨125, tail, rfl, Or.inr (Or.inr (Or.inr rfl))⟩

/-- The space in front of a member is passed over. -/
theorem parseMember_congr {fuel : Nat} {first second : Bytes} (same : skip first = skip second) :
    parseMember (D := D) fuel first = parseMember fuel second := by
  cases fuel with
  | zero => rfl
  | succ fuel => rw [parseMember, parseMember, same]

section Step

variable {fuel : Nat} (preserves : Preserves D fuel)

include preserves

theorem preserves_array {cursor rest : Bytes} {value : Json D}
    (run : parseArray (fuel + 1) cursor = .ok (value, rest)) (shut : Shut cursor) :
    Alike (parseArray (fuel + 1)) cursor value rest := by
  cases cursor with
  | nil => cases run
  | cons byte tail =>
      by_cases bracket : byte = 91
      swap
      · rw [parseArray, here_cons, found_bind, if_pos bracket] at run
        cases run
      subst bracket
      rw [parseArray, here_cons, found_bind, if_neg (by decide), List.tail_cons] at run
      obtain ⟨first, skipped, run⟩ := ran_bind run
      obtain ⟨blank, passes, skips, low, solid, shuts⟩ := skip_passes skipped
      have shutFirst := shuts (shut.tail (by decide) (by decide))
      obtain ⟨mark, later, rfl, visible⟩ := solid
      rw [here_cons, found_bind] at run
      by_cases closes : mark = 93
      · rw [if_pos closes] at run
        cases run
        subst closes
        refine ⟨91, blank ++ [93], tail, rfl, .other (by decide) (passes.trans
          (.other (by decide) (.refl _))), shutFirst.tail (by decide) (by decide), fun small _ => ?_⟩
        rw [parseArray, here_cons, found_bind, if_neg (by decide), List.tail_cons, List.append_assoc, skips,
          List.singleton_append, skip_solid (by decide), found_bind, here_cons, found_bind, if_pos rfl]
        rfl
      · rw [if_neg closes, skip_of_solid ⟨mark, later, rfl, visible⟩, found_bind] at run
        obtain ⟨⟨item, afterItem⟩, parsedItem, run⟩ := ran_bind run
        obtain ⟨next, skippedNext, run⟩ := ran_bind run
        obtain ⟨⟨items, last⟩, parsedItems, run⟩ := ran_bind run
        obtain ⟨end_, looked, run⟩ := ran_bind run
        obtain ⟨behind, rfl⟩ := here_ok looked
        by_cases closing : end_ = 93
        swap
        · rw [if_neg closing] at run
          cases run
        subst closing
        rw [if_pos rfl] at run
        cases run
        obtain ⟨_, front, _, same, passesItem, shutItem, readsItem⟩ := preserves.value _ _ _ _ parsedItem
          shutFirst skippedNext (parseItems_ended parsedItems)
        cases same
        obtain ⟨blank', passes', skips', low', -, shuts'⟩ := skip_passes skippedNext
        obtain ⟨kept, passesItems, shutItems, readsItems⟩ :=
          preserves.items _ _ _ parsedItems (shuts' shutItem)
        refine ⟨91, blank ++ (mark :: front ++ (blank' ++ (kept ++ [93]))), tail, rfl,
          .other (by decide) (passes.trans (passesItem.trans (passes'.trans (passesItems.trans
            (.other (by decide) (.refl _)))))), shutItems.tail (by decide) (by decide),
          fun small _ => ?_⟩
        obtain ⟨ended, readItems⟩ := readsItems small
        have marked := marked_append low' ended.marked
        simp only [List.append_assoc, List.cons_append, List.nil_append]
        rw [parseArray, here_cons, found_bind, if_neg (by decide), List.tail_cons, skips,
          skip_of_solid ⟨mark, _, rfl, visible⟩, found_bind, here_cons, found_bind, if_neg closes,
          skip_of_solid ⟨mark, _, rfl, visible⟩, found_bind, readsItem _ marked, found_bind]
        dsimp only
        rw [skips', skip_of_solid ended.solid, found_bind, readItems]
        rfl

theorem preserves_items {cursor tail : Bytes} {next : List (Json D)}
    (run : parseItems (fuel + 1) cursor = .ok (next, 93 :: tail)) (shut : Shut cursor) :
    ∃ kept, Passes cursor kept (93 :: tail) ∧ Shut (93 :: tail) ∧
      ∀ small, Ended (kept ++ 93 :: small) ∧
        parseItems (fuel + 1) (kept ++ 93 :: small) = .ok (next, 93 :: small) := by
  cases cursor with
  | nil => cases run
  | cons byte rest =>
      by_cases comma : byte = 44
      · subst comma
        rw [parseItems, here_cons, found_bind, if_pos rfl, List.tail_cons] at run
        obtain ⟨first, skipped, run⟩ := ran_bind run
        obtain ⟨⟨item, afterItem⟩, parsedItem, run⟩ := ran_bind run
        obtain ⟨later, skippedLater, run⟩ := ran_bind run
        obtain ⟨⟨items, last⟩, parsedItems, run⟩ := ran_bind run
        cases run
        obtain ⟨blank, passes, skips, low, solid, shuts⟩ := skip_passes skipped
        obtain ⟨mark, front, _, rfl, passesItem, shutItem, readsItem⟩ := preserves.value _ _ _ _ parsedItem
          (shuts (shut.tail (by decide) (by decide))) skippedLater (parseItems_ended parsedItems)
        obtain ⟨_, _, same, visible⟩ := solid
        cases same
        obtain ⟨blank', passes', skips', low', -, shuts'⟩ := skip_passes skippedLater
        obtain ⟨kept, passesItems, shutItems, readsItems⟩ :=
          preserves.items _ _ _ parsedItems (shuts' shutItem)
        refine ⟨44 :: (blank ++ (mark :: front ++ (blank' ++ kept))), .other (by decide)
          (passes.trans (passesItem.trans (passes'.trans passesItems))), shutItems, fun small =>
            ⟨⟨44, _, rfl, Or.inr (Or.inl rfl)⟩, ?_⟩⟩
        obtain ⟨ended, readItems⟩ := readsItems small
        have marked := marked_append low' ended.marked
        simp only [List.append_assoc, List.cons_append]
        rw [parseItems, here_cons, found_bind, if_pos rfl, List.tail_cons, skips,
          skip_of_solid ⟨mark, _, rfl, visible⟩, found_bind, readsItem _ marked, found_bind]
        dsimp only
        rw [skips', skip_of_solid ended.solid, found_bind, readItems]
        rfl
      · rw [parseItems, here_cons, found_bind, if_neg comma] at run
        cases run
        refine ⟨[], .refl _, shut, fun small => ⟨⟨93, small, rfl, Or.inr (Or.inr (Or.inl rfl))⟩, ?_⟩⟩
        rw [List.nil_append, parseItems, here_cons, found_bind, if_neg (by decide)]
        rfl

theorem preserves_member {cursor rest : Bytes} {item : Text × Json D}
    (run : parseMember (fuel + 1) cursor = .ok (item, rest)) (shut : Shut cursor) (ended : Ended rest) :
    ∃ blank front, (∀ small, skip (blank ++ small) = skip small) ∧
      Passes cursor (blank ++ 34 :: front) rest ∧ Shut rest ∧
        ∀ small, Ended small → parseMember (fuel + 1) (34 :: (front ++ small)) = .ok (item, small) := by
  rw [parseMember] at run
  obtain ⟨start, skipped, run⟩ := ran_bind run
  obtain ⟨⟨string, afterName⟩, parsedName, run⟩ := ran_bind run
  obtain ⟨colon, skippedColon, run⟩ := ran_bind run
  obtain ⟨mark, looked, run⟩ := ran_bind run
  obtain ⟨behindColon, rfl⟩ := here_ok looked
  by_cases isColon : mark = 58
  swap
  · rw [if_pos isColon] at run
    cases run
  subst isColon
  rw [if_neg (by decide), List.tail_cons] at run
  obtain ⟨first, skippedFirst, run⟩ := ran_bind run
  obtain ⟨⟨value, afterValue⟩, parsedValue, run⟩ := ran_bind run
  obtain ⟨last, skippedLast, run⟩ := ran_bind run
  cases run
  obtain ⟨blank, passes, skips, -, -, shuts⟩ := skip_passes skipped
  obtain ⟨name, passesName, shutName, -, readsName⟩ := parseString_kept parsedName (shuts shut)
  obtain ⟨blank1, passes1, skips1, -, -, shuts1⟩ := skip_passes skippedColon
  obtain ⟨blank2, passes2, skips2, -, solid, shuts2⟩ := skip_passes skippedFirst
  obtain ⟨blank3, passes3, skips3, low3, -, shuts3⟩ := skip_passes skippedLast
  obtain ⟨mark, front, _, rfl, passesValue, shutValue, readsValue⟩ := preserves.value _ _ _ _ parsedValue
    (shuts2 ((shuts1 shutName).tail (by decide) (by decide))) skippedLast ended
  obtain ⟨_, _, same, visible⟩ := solid
  cases same
  refine ⟨blank, name ++ (blank1 ++ 58 :: (blank2 ++ (mark :: front ++ blank3))), skips, ?_,
    shuts3 shutValue, fun small endedSmall => ?_⟩
  · exact passes.trans (passesName.trans (passes1.trans (.other (by decide) (passes2.trans
      (passesValue.trans passes3)))))
  · have marked := marked_append low3 endedSmall.marked
    simp only [List.append_assoc, List.cons_append]
    rw [parseMember, skip_solid (by decide), found_bind, readsName, found_bind]
    dsimp only
    rw [skips1, skip_solid (by decide), found_bind, here_cons, found_bind, if_neg (by decide),
      List.tail_cons, skips2, skip_of_solid ⟨mark, _, rfl, visible⟩, found_bind, readsValue _ marked,
      found_bind]
    dsimp only
    rw [skips3, skip_of_solid endedSmall.solid]
    rfl

theorem preserves_members {cursor tail : Bytes} {next : List (Text × Json D)}
    (run : parseMembers (fuel + 1) cursor = .ok (next, 125 :: tail)) (shut : Shut cursor) :
    ∃ kept, Passes cursor kept (125 :: tail) ∧ Shut (125 :: tail) ∧
      ∀ small, Ended (kept ++ 125 :: small) ∧
        parseMembers (fuel + 1) (kept ++ 125 :: small) = .ok (next, 125 :: small) := by
  cases cursor with
  | nil => cases run
  | cons byte rest =>
      by_cases comma : byte = 44
      · subst comma
        rw [parseMembers, here_cons, found_bind, if_pos rfl, List.tail_cons] at run
        obtain ⟨⟨item, afterItem⟩, parsedItem, run⟩ := ran_bind run
        obtain ⟨⟨items, last⟩, parsedItems, run⟩ := ran_bind run
        cases run
        obtain ⟨blank, front, skips, passesItem, shutItem, readsItem⟩ := preserves.member _ _ _ parsedItem
          (shut.tail (by decide) (by decide)) (parseMembers_ended parsedItems)
        obtain ⟨kept, passesItems, shutItems, readsItems⟩ := preserves.members _ _ _ parsedItems shutItem
        refine ⟨44 :: (blank ++ 34 :: front ++ kept), .other (by decide) (passesItem.trans passesItems),
          shutItems, fun small => ⟨⟨44, _, rfl, Or.inr (Or.inl rfl)⟩, ?_⟩⟩
        obtain ⟨ended, readItems⟩ := readsItems small
        simp only [List.append_assoc, List.cons_append]
        rw [parseMembers, here_cons, found_bind, if_pos rfl, List.tail_cons, parseMember_congr (skips _),
          readsItem _ ended, found_bind]
        dsimp only
        rw [readItems]
        rfl
      · rw [parseMembers, here_cons, found_bind, if_neg comma] at run
        cases run
        refine ⟨[], .refl _, shut, fun small => ⟨⟨125, small, rfl, Or.inr (Or.inr (Or.inr rfl))⟩, ?_⟩⟩
        rw [List.nil_append, parseMembers, here_cons, found_bind, if_neg (by decide)]
        rfl

theorem preserves_object {cursor rest : Bytes} {value : Json D}
    (run : parseObject (fuel + 1) cursor = .ok (value, rest)) (shut : Shut cursor) :
    Alike (parseObject (fuel + 1)) cursor value rest := by
  cases cursor with
  | nil => cases run
  | cons byte tail =>
      by_cases brace : byte = 123
      swap
      · rw [parseObject, here_cons, found_bind, if_pos brace] at run
        cases run
      subst brace
      rw [parseObject, here_cons, found_bind, if_neg (by decide), List.tail_cons] at run
      obtain ⟨first, skipped, run⟩ := ran_bind run
      obtain ⟨blank, passes, skips, low, solid, shuts⟩ := skip_passes skipped
      have shutFirst := shuts (shut.tail (by decide) (by decide))
      obtain ⟨mark, later, rfl, visible⟩ := solid
      rw [here_cons, found_bind] at run
      by_cases closes : mark = 125
      · rw [if_pos closes] at run
        cases run
        subst closes
        refine ⟨123, blank ++ [125], tail, rfl, .other (by decide) (passes.trans
          (.other (by decide) (.refl _))), shutFirst.tail (by decide) (by decide), fun small _ => ?_⟩
        rw [parseObject, here_cons, found_bind, if_neg (by decide), List.tail_cons, List.append_assoc,
          skips, List.singleton_append, skip_solid (by decide), found_bind, here_cons, found_bind,
          if_pos rfl]
        rfl
      · rw [if_neg closes] at run
        obtain ⟨⟨item, afterItem⟩, parsedItem, run⟩ := ran_bind run
        obtain ⟨⟨items, last⟩, parsedItems, run⟩ := ran_bind run
        obtain ⟨end_, looked, run⟩ := ran_bind run
        obtain ⟨behind, rfl⟩ := here_ok looked
        by_cases closing : end_ = 125
        swap
        · rw [if_neg closing] at run
          cases run
        subst closing
        rw [if_pos rfl] at run
        cases run
        obtain ⟨blank', front, skips', passesItem, shutItem, readsItem⟩ := preserves.member _ _ _ parsedItem
          shutFirst (parseMembers_ended parsedItems)
        obtain ⟨kept, passesItems, shutItems, readsItems⟩ := preserves.members _ _ _ parsedItems shutItem
        refine ⟨123, blank ++ (blank' ++ 34 :: front ++ (kept ++ [125])), tail, rfl,
          .other (by decide) (passes.trans (passesItem.trans (passesItems.trans
            (.other (by decide) (.refl _))))), shutItems.tail (by decide) (by decide),
          fun small _ => ?_⟩
        obtain ⟨ended, readItems⟩ := readsItems small
        simp only [List.append_assoc, List.cons_append, List.nil_append]
        rw [parseObject, here_cons, found_bind, if_neg (by decide), List.tail_cons, skips, skips',
          skip_solid (by decide), found_bind, here_cons, found_bind, if_neg (by decide), readsItem _ ended,
          found_bind]
        dsimp only
        rw [readItems]
        rfl

end Step

theorem parseValue_null (fuel : Nat) (rest : Bytes) :
    parseValue (D := D) (fuel + 1) (lit "null" ++ rest) = .ok (.null, rest) := by
  rw [parseValue, startsWith_append, found_bind, if_pos rfl]
  rfl

theorem parseValue_false (fuel : Nat) (rest : Bytes) :
    parseValue (D := D) (fuel + 1) (lit "false" ++ rest) = .ok (.false, rest) := by
  have other : startsWith (lit "null") (lit "false" ++ rest) = .ok false := rfl
  rw [parseValue, other, found_bind, if_neg Bool.false_ne_true, startsWith_append, found_bind, if_pos rfl]
  rfl

theorem parseValue_true (fuel : Nat) (rest : Bytes) :
    parseValue (D := D) (fuel + 1) (lit "true" ++ rest) = .ok (.true, rest) := by
  have others : startsWith (lit "null") (lit "true" ++ rest) = .ok false ∧
      startsWith (lit "false") (lit "true" ++ rest) = .ok false := ⟨rfl, rfl⟩
  rw [parseValue, others.1, found_bind, if_neg Bool.false_ne_true, others.2, found_bind,
    if_neg Bool.false_ne_true, startsWith_append, found_bind, if_pos rfl]
  rfl

theorem preserves_value {fuel : Nat} (preserves : Preserves D fuel) {cursor rest after : Bytes}
    {value : Json D} (run : parseValue (fuel + 1) cursor = .ok (value, rest)) (shut : Shut cursor)
    (skipped : skip rest = .ok after) (ended : Ended after) :
    Alike (parseValue (fuel + 1)) cursor value rest := by
  rw [parseValue] at run
  obtain ⟨isNull, foundNull, run⟩ := ran_bind run
  cases isNull with
  | true =>
      obtain ⟨left, rfl⟩ := startsWith_ok foundNull
      rw [if_pos rfl] at run
      cases run
      exact alike_kept (by decide +kernel) shut fun small _ => parseValue_null fuel small
  | false =>
  rw [if_neg Bool.false_ne_true] at run
  obtain ⟨isFalse, foundFalse, run⟩ := ran_bind run
  cases isFalse with
  | true =>
      obtain ⟨left, rfl⟩ := startsWith_ok foundFalse
      rw [if_pos rfl] at run
      cases run
      exact alike_kept (by decide +kernel) shut fun small _ => parseValue_false fuel small
  | false =>
  rw [if_neg Bool.false_ne_true] at run
  obtain ⟨isTrue, foundTrue, run⟩ := ran_bind run
  cases isTrue with
  | true =>
      obtain ⟨left, rfl⟩ := startsWith_ok foundTrue
      rw [if_pos rfl] at run
      cases run
      exact alike_kept (by decide +kernel) shut fun small _ => parseValue_true fuel small
  | false =>
  rw [if_neg Bool.false_ne_true] at run
  obtain ⟨byte, looked, run⟩ := ran_bind run
  obtain ⟨tail, rfl⟩ := here_ok looked
  by_cases quote : byte = 34
  · rw [if_pos quote] at run
    obtain ⟨⟨text, left⟩, read, run⟩ := ran_bind run
    cases run
    obtain ⟨front, passes, shutRest, -, reads⟩ := parseString_kept read shut
    refine ⟨34, front, tail, by rw [quote], passes, shutRest, fun small _ => ?_⟩
    rw [parseValue_other fuel (by decide), if_pos rfl, reads]
    rfl
  rw [if_neg quote] at run
  by_cases numeric : byte = 45 ∨ isdigit byte = true
  · rw [if_pos numeric] at run
    have others : byte ≠ 110 ∧ byte ≠ 102 ∧ byte ≠ 116 := by
      refine ⟨?_, ?_, ?_⟩ <;> rintro rfl <;> revert numeric <;> decide
    have keeps : Keeps (byte :: tail) (fun result => Behind (byte :: tail) result.2)
        (JsonParse.parseNumber (D := D) (byte :: tail)) := keeps_parseNumber shut.ahead
    have behind : Behind (byte :: tail) rest := keeps.value _ run
    have marked := marked_of_skip skipped ended
    obtain ⟨used, shape, kept, reads⟩ := parseNumber_kept run behind.1 marked
    cases used with
    | nil =>
        obtain ⟨mark, later, same, isMark⟩ := marked
        rw [List.nil_append, same] at shape
        cases shape
        exact absurd numeric (not_or.mpr ⟨(marked_byte isMark).2.1, (marked_byte isMark).1⟩)
    | cons first used =>
        cases shape
        refine (alike_kept kept shut reads).congr fun text => ?_
        rw [parseValue_other fuel others, if_neg quote, if_pos numeric]
  rw [if_neg numeric] at run
  by_cases bracket : byte = 91
  · rw [if_pos bracket] at run
    subst bracket
    exact (preserves.array _ _ _ run shut).congr (parseValue_array fuel)
  rw [if_neg bracket] at run
  by_cases brace : byte = 123
  · rw [if_pos brace] at run
    subst brace
    exact (preserves.object _ _ _ run shut).congr (parseValue_object fuel)
  rw [if_neg brace] at run
  cases run

theorem preserves_zero : Preserves D 0 where
  value _ _ _ _ run := by cases run
  array _ _ _ run := by cases run
  items _ _ _ run := by cases run
  object _ _ _ run := by cases run
  member _ _ _ run := by cases run
  members _ _ _ run := by cases run

theorem preserves (fuel : Nat) : Preserves D fuel := by
  induction fuel with
  | zero => exact preserves_zero
  | succ fuel inductionHypothesis =>
      exact {
        value := fun _ _ _ _ => preserves_value inductionHypothesis
        array := fun _ _ _ => preserves_array inductionHypothesis
        items := fun _ _ _ => preserves_items inductionHypothesis
        object := fun _ _ _ => preserves_object inductionHypothesis
        member := fun _ _ _ => preserves_member inductionHypothesis
        members := fun _ _ _ => preserves_members inductionHypothesis }

theorem comment_length_le {text last : Bytes} (comment : Comment text last) :
    last.length + 2 ≤ text.length := by
  induction comment with
  | closed rest => exact le_rfl
  | open_ byte rest => exact le_rfl
  | star _ _ inductionHypothesis => exact inductionHypothesis.trans (Nat.le_succ _)
  | other _ _ _ inductionHypothesis => exact inductionHypothesis.trans (Nat.le_succ _)

theorem passes_length_le {text kept last : Bytes} (passes : Passes text kept last) :
    kept.length + last.length ≤ text.length := by
  induction passes with
  | refl text => simp
  | blank _ _ inductionHypothesis => exact inductionHypothesis.trans (Nat.le_succ _)
  | line _ _ _ inductionHypothesis =>
      simp only [List.length_cons, List.length_append] at inductionHypothesis ⊢
      omega
  | comment comment _ inductionHypothesis =>
      have shorter := comment_length_le comment
      simp only [List.length_cons] at shorter ⊢
      omega
  | slash _ _ inductionHypothesis =>
      simp only [List.length_cons] at inductionHypothesis ⊢
      omega
  | string _ _ _ inductionHypothesis =>
      simp only [List.length_cons, List.length_append]
      omega
  | other _ _ inductionHypothesis =>
      simp only [List.length_cons]
      omega

/-- A text whose strings are closed and that the parser reads up to its NUL is
minified within its block, to a text that is read up to its NUL as the same
tree. -/
theorem cJsonMinify_keeps_tree {json end_ : Bytes} {c : Json D} (shut : Shut json)
    (parsed : cJsonParseWithOpts json true = .ok (c, end_)) :
    ∃ small smallEnd, cJsonMinify json = .ok small ∧
      cJsonParseWithOpts small true = .ok (c, 0 :: smallEnd) := by
  obtain ⟨first, skipped, parsed⟩ := ran_bind parsed
  obtain ⟨⟨value, rest⟩, run, parsed⟩ := ran_bind parsed
  dsimp only at parsed
  rw [if_pos rfl] at parsed
  obtain ⟨after, skippedAfter, parsed⟩ := ran_bind parsed
  obtain ⟨nul, looked, parsed⟩ := ran_bind parsed
  obtain ⟨slack, rfl⟩ := here_ok looked
  by_cases ends : nul = 0
  swap
  · rw [if_pos ends] at parsed
    cases parsed
  subst ends
  cases parsed
  obtain ⟨blank, passes, skips, -, solid, shuts⟩ := skip_passes skipped
  obtain ⟨blank', passes', skips', low', -, -⟩ := skip_passes skippedAfter
  have ended : ∀ behind : Bytes, Ended (0 :: behind) := fun behind => ⟨0, behind, rfl, Or.inl rfl⟩
  obtain ⟨mark, front, _, rfl, passesValue, -, reads⟩ :=
    (preserves _).value _ _ _ _ run (shuts shut) skippedAfter (ended slack)
  obtain ⟨_, _, same, visible⟩ := solid
  cases same
  have whole := passes.trans (passesValue.trans passes')
  generalize shape : blank ++ (mark :: front ++ blank') = kept at whole
  have length : (kept ++ 0 :: json.drop (kept.length + 1)).length = json.length := by
    have sizes := passes_length_le whole
    rw [List.length_cons] at sizes
    rw [List.length_append, List.length_cons, List.length_drop]
    omega
  refine ⟨_, json.drop (kept.length + 1), cJsonMinify_passes whole, ?_⟩
  unfold cJsonParseWithOpts
  rw [length, ← shape]
  generalize json.drop _ = behind
  have marked := marked_append low' (ended behind).marked
  simp only [List.append_assoc, List.cons_append]
  rw [skips, skip_of_solid ⟨mark, _, rfl, visible⟩, found_bind, reads _ marked, found_bind]
  dsimp only
  rw [if_pos trivial, skips', skip_of_solid (ended behind).solid, found_bind, here_cons, found_bind,
    if_neg (by decide)]
  rfl

end Values

theorem shut_append {front rest : Bytes} (outside : ∀ byte ∈ front, byte ≠ 0 ∧ byte ≠ 34)
    (shut : Shut rest) : Shut (front ++ rest) := by
  induction front with
  | nil => exact shut
  | cons byte front inductionHypothesis =>
      rw [List.forall_mem_cons] at outside
      exact .other outside.1.1 outside.1.2 (inductionHypothesis outside.2)

theorem cJsonMinify_keeps_tree_spaced : ∃ small smallEnd,
    cJsonMinify (lit "[null, \"a b\"]" ++ [32, 0]) = .ok small ∧
      cJsonParseWithOpts (D := Rat) small true =
        .ok (.array [.null, .string ⟨lit "a b", spaced_nulFree⟩], 0 :: smallEnd) := by
  have shut : Shut (lit "[null, " ++ 34 :: (lit "a b" ++ 34 :: (lit "]" ++ [32, 0]))) :=
    shut_append (by decide +kernel) (.string
      (.plain (by decide) (.plain (by decide) (.plain (by decide) .nil)))
      (shut_append (by decide +kernel) (.other (by decide) (by decide) (.nul []))))
  have integral : JsonRoundTrip.Integral
      (.array [.null, .string ⟨lit "a b", spaced_nulFree⟩] : Json Rat) := by
    refine .array _ ?_
    simp only [List.forall_mem_cons]
    exact ⟨.null, .string _, List.forall_mem_nil _⟩
  have delimited : Delimited [32, 0] := ⟨32, [0], rfl, by decide⟩
  have parsed : cJsonParseWithOpts
      ((.array [.null, .string ⟨lit "a b", spaced_nulFree⟩] : Json Rat).text true 0 ++ [32, 0]) true =
        .ok (.array [.null, .string ⟨lit "a b", spaced_nulFree⟩], [0]) :=
    JsonRoundTrip.cJsonParseWithOpts_text integral (by decide) delimited rfl true
  exact cJsonMinify_keeps_tree shut parsed

end DistStore.JsonMinifyParse

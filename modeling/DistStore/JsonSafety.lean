import DistStore.JsonScalars

/-!
# The bounds of the parser

`parse_string` trusts its text: behind a backslash it moves on by one byte, and
behind a `\u` by four, whatever is there.  On a text in which every escape is
complete before the NUL, the parser reads no further than the NUL and writes no
string outside of its block, it ends, and the pointers it leaves are in the
text.
-/

set_option autoImplicit false

namespace DistStore.JsonSafety

open CMemory JsonPrint JsonTree JsonParse JsonScalars

/-! ## Complete texts -/

/-- A byte that does not end a string or start an escape. -/
def Literally (byte : Byte) : Prop := byte ≠ 0 ∧ byte ≠ 34 ∧ byte ≠ 92

instance (byte : Byte) : Decidable (Literally byte) := by
  unfold Literally
  infer_instance

/-- What lies ahead in a text whose escapes are complete, in a string or
outside of one. -/
inductive Ahead : Bool → Bytes → Prop where
  | nul (inside : Bool) (rest : Bytes) : Ahead inside (0 :: rest)
  | opening {rest : Bytes} (ahead : Ahead true rest) : Ahead false (34 :: rest)
  | outside {byte : Byte} {rest : Bytes} (nonzero : byte ≠ 0) (quote : byte ≠ 34)
      (ahead : Ahead false rest) : Ahead false (byte :: rest)
  | closing {rest : Bytes} (ahead : Ahead false rest) : Ahead true (34 :: rest)
  | plain {byte : Byte} {rest : Bytes} (literally : Literally byte) (ahead : Ahead true rest) :
      Ahead true (byte :: rest)
  | short {letter : Byte} {rest : Bytes} (nonzero : letter ≠ 0) (notLong : letter ≠ 117)
      (ahead : Ahead true rest) : Ahead true (92 :: letter :: rest)
  | long {a b c d : Byte} {rest : Bytes} (literally : ∀ byte ∈ [a, b, c, d], Literally byte)
      (ahead : Ahead true rest) : Ahead true (92 :: 117 :: a :: b :: c :: d :: rest)

theorem ahead_ne_nil {inside : Bool} {text : Bytes} (ahead : Ahead inside text) : text ≠ [] := by
  cases ahead <;> exact List.cons_ne_nil _ _

/-- Outside of strings every byte but the NUL and a quote may be left behind. -/
theorem ahead_tail {byte : Byte} {rest : Bytes} (ahead : Ahead false (byte :: rest))
    (nonzero : byte ≠ 0) (quote : byte ≠ 34) : Ahead false rest := by
  cases ahead with
  | nul inside rest => exact absurd rfl nonzero
  | opening ahead => exact absurd rfl quote
  | outside nonzero quote ahead => exact ahead

theorem ahead_string {rest : Bytes} (ahead : Ahead false (34 :: rest)) : Ahead true rest := by
  cases ahead with
  | opening ahead => exact ahead
  | outside nonzero quote ahead => exact absurd rfl quote

/-! ## What a run of the parser keeps -/

/-- A value satisfies `post`, an error is in the text, and the only fault is an
overflow. -/
structure Keeps {α : Type} (text : Bytes) (post : α → Prop) (result : Parser α) : Prop where
  value : ∀ value, result = .ok value → post value
  fault : ∀ fault, result = .error (.fault fault) → fault = .signedOverflow
  ep : ∀ at_, result = .error (.ep at_) → at_ <:+ text
  fuel : result ≠ .error .fuel

section Rules

variable {α β : Type} {text : Bytes} {post : α → Prop}

theorem keeps_ok {value : α} (holds : post value) : Keeps text post (.ok value) where
  value := by
    rintro _ ⟨⟩
    exact holds
  fault := nofun
  ep := nofun
  fuel := nofun

theorem keeps_ep {at_ : Bytes} (inText : at_ <:+ text) :
    Keeps (α := α) text post (.error (.ep at_)) where
  value := nofun
  fault := nofun
  ep := by
    rintro _ ⟨⟩
    exact inText
  fuel := nofun

theorem keeps_overflow : Keeps (α := α) text post (.error (.fault .signedOverflow)) where
  value := nofun
  fault := by
    rintro _ ⟨⟩
    rfl
  ep := nofun
  fuel := nofun

theorem Keeps.bind {middle : β → Prop} {first : Parser β} {continue_ : β → Parser α}
    (keeps : Keeps text middle first)
    (continued : ∀ value, first = .ok value → middle value → Keeps text post (continue_ value)) :
    Keeps text post (first >>= continue_) := by
  cases run : first with
  | ok value => exact continued value run (keeps.value value run)
  | error stop =>
      refine ⟨nofun, ?_, ?_, ?_⟩
      · rintro fault ⟨⟩
        exact keeps.fault fault run
      · rintro at_ ⟨⟩
        exact keeps.ep at_ run
      · rintro ⟨⟩
        exact keeps.fuel run

theorem Keeps.weaken {weaker : α → Prop} {longer : Bytes} {result : Parser α}
    (keeps : Keeps text post result) (inText : text <:+ longer)
    (values : ∀ value, post value → weaker value) : Keeps longer weaker result where
  value value run := values value (keeps.value value run)
  fault := keeps.fault
  ep at_ run := (keeps.ep at_ run).trans inText
  fuel := keeps.fuel

theorem keeps_ofC {computation : C α} (holds : ∀ value, computation = .ok value → post value)
    (faults : ∀ fault, computation = .error fault → fault = .signedOverflow) :
    Keeps text post (ofC computation) := by
  cases run : computation with
  | ok value => exact keeps_ok (holds value run)
  | error fault =>
      cases faults fault run
      exact keeps_overflow

theorem keeps_checkInt (value : Int) : Keeps text (· = value) (ofC (checkInt value)) := by
  refine keeps_ofC (fun _ checked => (checkInt_eq_ok checked).1) fun fault overflow => ?_
  unfold checkInt at overflow
  split at overflow
  · cases overflow
  · cases overflow
    rfl

/-- A pointer at or behind `from_`, outside of strings. -/
def Behind (from_ cursor : Bytes) : Prop := cursor <:+ from_ ∧ Ahead false cursor

theorem Behind.trans {from_ middle cursor : Bytes} (first : Behind from_ middle)
    (second : Behind middle cursor) : Behind from_ cursor :=
  ⟨second.1.trans first.1, second.2⟩

theorem keeps_here {cursor : Bytes} {inside : Bool} (ahead : Ahead inside cursor) :
    Keeps text (fun byte => ∃ rest, cursor = byte :: rest) (here cursor) := by
  cases cursor with
  | nil => exact absurd rfl (ahead_ne_nil ahead)
  | cons byte rest => exact keeps_ok ⟨rest, rfl⟩

theorem keeps_skip {cursor : Bytes} (ahead : Ahead false cursor) :
    Keeps text (Behind cursor) (skip cursor) := by
  induction cursor with
  | nil => exact absurd rfl (ahead_ne_nil ahead)
  | cons byte rest inductionHypothesis =>
      rw [skip]
      split
      next blank =>
        have quote : byte ≠ 34 := by
          rintro rfl
          exact absurd blank.2 (by decide)
        have later := inductionHypothesis (ahead_tail ahead blank.1 quote)
        exact later.weaken List.suffix_rfl
          fun cursor behind => ⟨behind.1.trans (List.suffix_cons _ _), behind.2⟩
      next => exact keeps_ok ⟨List.suffix_rfl, ahead⟩

theorem keeps_startsWith {word cursor : Bytes} (letters : ∀ letter ∈ word, letter ≠ 0 ∧ letter ≠ 34)
    (ahead : Ahead false cursor) :
    Keeps text (fun found => found = true → Ahead false (cursor.drop word.length))
      (startsWith word cursor) := by
  induction word generalizing cursor with
  | nil => exact keeps_ok fun _ => ahead
  | cons letter word inductionHypothesis =>
      rw [List.forall_mem_cons] at letters
      cases cursor with
      | nil => exact absurd rfl (ahead_ne_nil ahead)
      | cons byte rest =>
          rw [startsWith]
          split
          next same =>
            subst same
            exact inductionHypothesis letters.2 (ahead_tail ahead letters.1.1 letters.1.2)
          next => exact keeps_ok fun none => by cases none

end Rules

/-! ## Numbers -/

section Numbers

variable {D : Type} [Double D] {text : Bytes}

theorem isdigit_plain {byte : Byte} (digit : isdigit byte = true) : byte ≠ 0 ∧ byte ≠ 34 := by
  constructor <;> rintro rfl <;> revert digit <;> decide

theorem keeps_digits (n : D) {cursor : Bytes} (ahead : Ahead false cursor) :
    Keeps text (fun result => Behind cursor result.2) (digits n cursor) := by
  induction cursor generalizing n with
  | nil => exact absurd rfl (ahead_ne_nil ahead)
  | cons byte rest inductionHypothesis =>
      rw [digits]
      split
      next digit =>
        have later := ahead_tail ahead (isdigit_plain digit).1 (isdigit_plain digit).2
        exact (inductionHypothesis _ later).weaken List.suffix_rfl
          fun result behind => ⟨behind.1.trans (List.suffix_cons _ _), behind.2⟩
      next => exact keeps_ok ⟨List.suffix_rfl, ahead⟩

theorem keeps_fraction (n scale : D) {cursor : Bytes} (ahead : Ahead false cursor) :
    Keeps text (fun result => Behind cursor result.2.2) (fraction n scale cursor) := by
  induction cursor generalizing n scale with
  | nil => exact absurd rfl (ahead_ne_nil ahead)
  | cons byte rest inductionHypothesis =>
      rw [fraction]
      split
      next digit =>
        have later := ahead_tail ahead (isdigit_plain digit).1 (isdigit_plain digit).2
        exact (inductionHypothesis _ _ later).weaken List.suffix_rfl
          fun result behind => ⟨behind.1.trans (List.suffix_cons _ _), behind.2⟩
      next => exact keeps_ok ⟨List.suffix_rfl, ahead⟩

theorem keeps_exponent (subscale : Int) {cursor : Bytes} (ahead : Ahead false cursor) :
    Keeps text (fun result => Behind cursor result.2) (exponent subscale cursor) := by
  induction cursor generalizing subscale with
  | nil => exact absurd rfl (ahead_ne_nil ahead)
  | cons byte rest inductionHypothesis =>
      rw [exponent]
      split
      next digit =>
        have later := ahead_tail ahead (isdigit_plain digit).1 (isdigit_plain digit).2
        refine (keeps_checkInt _).bind fun shifted _ _ => (keeps_checkInt _).bind fun next _ _ => ?_
        exact (inductionHypothesis _ later).weaken List.suffix_rfl
          fun result behind => ⟨behind.1.trans (List.suffix_cons _ _), behind.2⟩
      next => exact keeps_ok ⟨List.suffix_rfl, ahead⟩

/-- A mark that is no NUL and no quote is left behind. -/
theorem behind_tail {byte : Byte} {rest : Bytes} (ahead : Ahead false (byte :: rest))
    (nonzero : byte ≠ 0) (quote : byte ≠ 34) : Behind (byte :: rest) rest :=
  ⟨List.suffix_cons _ _, ahead_tail ahead nonzero quote⟩

theorem behind_self {cursor : Bytes} (ahead : Ahead false cursor) : Behind cursor cursor :=
  ⟨List.suffix_rfl, ahead⟩

theorem keeps_parseSign {cursor : Bytes} (ahead : Ahead false cursor) :
    Keeps text (fun result => Behind cursor result.2) (parseSign cursor) := by
  refine (keeps_here ahead).bind ?_
  rintro byte found ⟨rest, rfl⟩
  cases found
  split
  next minus => exact keeps_ok (behind_tail ahead (by rw [minus]; decide) (by rw [minus]; decide))
  next => exact keeps_ok (behind_self ahead)

theorem keeps_parseWhole {cursor : Bytes} (ahead : Ahead false cursor) :
    Keeps text (fun result => Behind cursor result.2) (parseWhole (D := D) cursor) := by
  refine (keeps_here ahead).bind ?_
  rintro byte found ⟨rest, rfl⟩
  cases found
  have start : Behind (byte :: rest) (if byte = 48 then (byte :: rest).tail else byte :: rest) := by
    split
    next zero => exact behind_tail ahead (by rw [zero]; decide) (by rw [zero]; decide)
    next => exact behind_self ahead
  dsimp only
  refine (keeps_here start.2).bind fun first _ _ => ?_
  split
  · exact (keeps_digits _ start.2).weaken List.suffix_rfl fun result behind => start.trans behind
  · exact keeps_ok start

theorem keeps_parseFraction (n : D) {cursor : Bytes} (ahead : Ahead false cursor) :
    Keeps text (fun result => Behind cursor result.2.2) (parseFraction n cursor) := by
  refine (keeps_here ahead).bind ?_
  rintro byte found ⟨rest, rfl⟩
  cases found
  split
  next point =>
    have start := behind_tail ahead (by rw [point]; decide) (by rw [point]; decide)
    refine (keeps_here start.2).bind fun digit _ _ => ?_
    split
    · exact (keeps_fraction _ _ start.2).weaken List.suffix_rfl
        fun result behind => start.trans behind
    · exact keeps_ok (behind_self ahead)
  next => exact keeps_ok (behind_self ahead)

theorem keeps_parseExponent {cursor : Bytes} (ahead : Ahead false cursor) :
    Keeps text (fun result => Behind cursor result.2.2) (parseExponent cursor) := by
  refine (keeps_here ahead).bind ?_
  rintro byte found ⟨rest, rfl⟩
  cases found
  split
  next mark =>
    have start : Behind (byte :: rest) rest := by
      refine behind_tail ahead ?_ ?_ <;> rcases mark with rfl | rfl <;> decide
    refine (keeps_here start.2).bind ?_
    rintro sign found ⟨tail, same⟩
    have signed : ∀ result : Int × Bytes, Behind rest result.2 →
        Keeps text (fun result => Behind (byte :: rest) result.2.2) (do
          let scaled ← exponent 0 result.2
          return (scaled.1, result.1, scaled.2)) := by
      rintro ⟨signsubscale, num⟩ behind
      refine (keeps_exponent 0 behind.2).bind ?_
      rintro ⟨subscale, num'⟩ - last
      exact keeps_ok (start.trans (behind.trans last))
    dsimp only
    split
    next plus =>
      rw [same] at found start signed
      cases found
      have sign := behind_tail start.2 (by rw [plus]; decide) (by rw [plus]; decide)
      rw [same]
      exact signed (1, tail) sign
    next => exact (keeps_parseSign start.2).bind fun result _ behind => signed result behind
  next => exact keeps_ok (behind_self ahead)

theorem keeps_parseNumber {cursor : Bytes} (ahead : Ahead false cursor) :
    Keeps text (fun result => Behind cursor result.2) (parseNumber (D := D) cursor) := by
  refine (keeps_parseSign ahead).bind ?_
  rintro ⟨sign, num⟩ - first
  refine (keeps_parseWhole first.2).bind ?_
  rintro ⟨n, num'⟩ - second
  refine (keeps_parseFraction n second.2).bind ?_
  rintro ⟨n', scale, num''⟩ - third
  refine (keeps_parseExponent third.2).bind ?_
  rintro ⟨subscale, signsubscale, last⟩ - fourth
  exact keeps_ok (first.trans (second.trans (third.trans fourth)))

end Numbers

/-! ## Strings -/

section Strings

variable {rest : Bytes} {len : Nat}

theorem lengthLoop_end {byte : Byte} (ends : byte = 34 ∨ byte = 0) (rest : Bytes) :
    lengthLoop false (byte :: rest) = .ok 0 := if_pos ends

theorem lengthLoop_plain {byte : Byte} (literally : Literally byte)
    (counted : lengthLoop false rest = .ok len) :
    lengthLoop false (byte :: rest) = .ok (len + 1) := by
  have inside : ¬ (byte = 34 ∨ byte = 0) := fun ends => ends.elim literally.2.1 literally.1
  rw [lengthLoop, if_neg inside, decide_eq_false literally.2.2, counted]
  rfl

theorem lengthLoop_short (letter : Byte) (counted : lengthLoop false rest = .ok len) :
    lengthLoop false (92 :: letter :: rest) = .ok (len + 1) := by
  rw [lengthLoop, if_neg (by decide), decide_eq_true rfl, lengthLoop, counted]
  rfl

theorem lengthLoop_long {a b c d : Byte} (literally : ∀ byte ∈ [a, b, c, d], Literally byte)
    (counted : lengthLoop false rest = .ok len) :
    lengthLoop false (92 :: 117 :: a :: b :: c :: d :: rest) = .ok (len + 5) := by
  simp only [List.forall_mem_cons] at literally
  obtain ⟨first, second, third, fourth, -⟩ := literally
  exact lengthLoop_short 117 (lengthLoop_plain first (lengthLoop_plain second
    (lengthLoop_plain third (lengthLoop_plain fourth counted))))

/-- The first loop ends. -/
theorem exists_length {str : Bytes} (ahead : Ahead true str) : ∃ len, lengthLoop false str = .ok len := by
  induction measure : str.length using Nat.strong_induction_on generalizing str with
  | _ measure inductionHypothesis =>
      subst measure
      cases ahead with
      | nul inside rest => exact ⟨0, lengthLoop_end (Or.inr rfl) rest⟩
      | closing later => exact ⟨0, lengthLoop_end (Or.inl rfl) _⟩
      | plain literally later =>
          obtain ⟨len, counted⟩ := inductionHypothesis _ (by simp) later rfl
          exact ⟨len + 1, lengthLoop_plain literally counted⟩
      | short nonzero notLong later =>
          obtain ⟨len, counted⟩ := inductionHypothesis _ (by simp) later rfl
          exact ⟨len + 1, lengthLoop_short _ counted⟩
      | long literally later =>
          obtain ⟨len, counted⟩ := inductionHypothesis _ (by simp; omega) later rfl
          exact ⟨len + 5, lengthLoop_long literally counted⟩

theorem utf8Bytes_length (uc : Nat) :
    (utf8Bytes uc).length ≤ 4 ∧ (uc < 0x10000 → (utf8Bytes uc).length ≤ 3) := by
  unfold utf8Bytes
  split
  · simp
  · split
    · simp
    · split
      · simp
      · next large => exact ⟨le_rfl, fun small => absurd small large⟩

theorem hexValue_lt {byte : Byte} {value : Nat} (digit : hexValue byte = some value) : value < 16 := by
  have each : ∀ n < 256, (hexValue (UInt8.ofNat n)).all (· < 16) = true := by decide +kernel
  have here_ := each byte.toNat byte.toNat_lt
  rw [UInt8.ofNat_toNat, digit] at here_
  simpa using here_

theorem parseHex_four (a b c d : Byte) (rest : Bytes) :
    ∃ value, parseHex4 (a :: b :: c :: d :: rest) = .ok value ∧ value < 0x10000 := by
  unfold parseHex4
  simp only [parseHex]
  cases first : hexValue a with
  | none => exact ⟨0, rfl, by decide⟩
  | some v1 =>
      cases second : hexValue b with
      | none => exact ⟨0, rfl, by decide⟩
      | some v2 =>
          cases third : hexValue c with
          | none => exact ⟨0, rfl, by decide⟩
          | some v3 =>
              cases fourth : hexValue d with
              | none => exact ⟨0, rfl, by decide⟩
              | some v4 =>
                  have h1 := hexValue_lt first
                  have h2 := hexValue_lt second
                  have h3 := hexValue_lt third
                  have h4 := hexValue_lt fourth
                  exact ⟨_, rfl, by omega⟩

/-- An escape is read with what it needs of the next one. -/
theorem transcode_long (a b c d : Byte) (ahead : Ahead true rest) :
    ∃ bytes moved, transcode (117 :: a :: b :: c :: d :: rest) = .ok (bytes, moved) ∧
      (moved = 4 ∧ bytes.length ≤ 3 ∨
        moved = 10 ∧ bytes.length ≤ 4 ∧ ∃ a' b' c' d' behind,
          rest = 92 :: 117 :: a' :: b' :: c' :: d' :: behind ∧
            (∀ byte ∈ [a', b', c', d'], Literally byte) ∧ Ahead true behind) := by
  obtain ⟨uc, first, small⟩ := parseHex_four a b c d rest
  unfold transcode
  simp only [List.drop_succ_cons, List.drop_zero, first, found_bind]
  by_cases lone : (0xDC00 ≤ uc ∧ uc ≤ 0xDFFF) ∨ uc = 0
  · rw [if_pos lone]
    exact ⟨[], 4, rfl, Or.inl ⟨rfl, Nat.zero_le _⟩⟩
  · rw [if_neg lone]
    by_cases high : 0xD800 ≤ uc ∧ uc ≤ 0xDBFF
    · rw [if_pos high]
      cases ahead with
      | nul inside tail => exact ⟨[], 4, rfl, Or.inl ⟨rfl, Nat.zero_le _⟩⟩
      | closing later => exact ⟨[], 4, rfl, Or.inl ⟨rfl, Nat.zero_le _⟩⟩
      | @plain byte tail literally later =>
          rw [here_cons, found_bind, if_pos literally.2.2]
          exact ⟨[], 4, rfl, Or.inl ⟨rfl, Nat.zero_le _⟩⟩
      | @short letter tail nonzero notLong later =>
          rw [here_cons, found_bind, if_neg (not_not.mpr rfl)]
          simp only [List.drop_succ_cons, List.drop_zero]
          rw [here_cons, found_bind, if_pos notLong]
          exact ⟨[], 4, rfl, Or.inl ⟨rfl, Nat.zero_le _⟩⟩
      | @long a' b' c' d' behind literally later =>
          obtain ⟨uc2, second, -⟩ := parseHex_four a' b' c' d' behind
          have next : ∃ a b c d tail, 92 :: 117 :: a' :: b' :: c' :: d' :: behind =
              92 :: 117 :: a :: b :: c :: d :: tail ∧
                (∀ byte ∈ [a, b, c, d], Literally byte) ∧ Ahead true tail :=
            ⟨a', b', c', d', behind, rfl, literally, later⟩
          rw [here_cons, found_bind, if_neg (not_not.mpr rfl)]
          simp only [List.drop_succ_cons, List.drop_zero]
          rw [here_cons, found_bind, if_neg (not_not.mpr rfl), second, found_bind]
          by_cases invalid : uc2 < 0xDC00 ∨ 0xDFFF < uc2
          · rw [if_pos invalid]
            exact ⟨[], 10, rfl, Or.inr ⟨rfl, Nat.zero_le _, next⟩⟩
          · rw [if_neg invalid]
            exact ⟨_, 10, rfl, Or.inr ⟨rfl, (utf8Bytes_length _).1, next⟩⟩
    · rw [if_neg high]
      exact ⟨_, 4, rfl, Or.inl ⟨rfl, (utf8Bytes_length uc).2 small⟩⟩

/-- The second loop writes no more bytes than the first has counted, and ends
where the string does. -/
theorem copyLoop_ahead {str : Bytes} (ahead : Ahead true str) {len : Nat}
    (counted : lengthLoop false str = .ok len) {size : Nat} {out : Bytes}
    (room : out.length + len ≤ size) :
    ∃ out' ptr, copyLoop size 0 str out = .ok (out', ptr) ∧ out'.length ≤ out.length + len ∧
      ptr <:+ str ∧ ((∃ rest, ptr = 34 :: rest ∧ Ahead false rest) ∨ ∃ rest, ptr = 0 :: rest) := by
  induction measure : str.length using Nat.strong_induction_on generalizing str len out with
  | _ measure inductionHypothesis =>
      subst measure
      cases ahead with
      | nul inside rest =>
          exact ⟨out, 0 :: rest, if_pos (Or.inr rfl), Nat.le_add_right _ _, List.suffix_rfl,
            Or.inr ⟨rest, rfl⟩⟩
      | @closing rest later =>
          exact ⟨out, 34 :: rest, if_pos (Or.inl rfl), Nat.le_add_right _ _, List.suffix_rfl,
            Or.inl ⟨rest, rfl, later⟩⟩
      | @plain byte rest literally later =>
          obtain ⟨before, inner⟩ := exists_length later
          cases (lengthLoop_plain literally inner).symm.trans counted
          have written : put size out [byte] = .ok (out ++ [byte]) := if_pos (by simp; omega)
          have inside : ¬ (byte = 34 ∨ byte = 0) := fun ends => ends.elim literally.2.1 literally.1
          obtain ⟨out', ptr, copied, length, suffix, ends⟩ := inductionHypothesis rest.length (by simp)
            later inner (show (out ++ [byte]).length + before ≤ size by simp; omega) rfl
          refine ⟨out', ptr, ?_, ?_, suffix.trans (List.suffix_cons _ _), ends⟩
          · rw [copyLoop, if_neg inside, if_pos literally.2.2, written, found_bind, copied]
          · rw [List.length_append, List.length_singleton] at length
            omega
      | @short letter rest nonzero notLong later =>
          obtain ⟨before, inner⟩ := exists_length later
          cases (lengthLoop_short letter inner).symm.trans counted
          have written : put size out [unescape letter] = .ok (out ++ [unescape letter]) :=
            if_pos (by simp; omega)
          obtain ⟨out', ptr, copied, length, suffix, ends⟩ := inductionHypothesis rest.length (by simp)
            later inner (show (out ++ [unescape letter]).length + before ≤ size by simp; omega) rfl
          refine ⟨out', ptr, ?_, ?_, suffix.trans (List.suffix_append [92, letter] _), ends⟩
          · rw [copyLoop, if_neg (by decide), if_neg (by decide), here_cons, found_bind,
              if_neg notLong, written, found_bind, copyLoop, copied]
          · rw [List.length_append, List.length_singleton] at length
            omega
      | @long a b c d rest literally later =>
          obtain ⟨before, inner⟩ := exists_length later
          cases (lengthLoop_long literally inner).symm.trans counted
          obtain ⟨bytes, moved, read, reach⟩ := transcode_long a b c d later
          have written : put size out bytes = .ok (out ++ bytes) := by
            refine if_pos ?_
            omega
          have start : copyLoop size 0 (92 :: 117 :: a :: b :: c :: d :: rest) out =
              copyLoop size (moved + 1) (117 :: a :: b :: c :: d :: rest) (out ++ bytes) := by
            conv_lhs => rw [copyLoop, if_neg (by decide), if_neg (by decide), here_cons, found_bind,
              if_pos rfl, read, found_bind]
            simp only [written, found_bind]
          rcases reach with ⟨rfl, small⟩ | ⟨rfl, small, a', b', c', d', behind, rfl, others, last⟩
          · obtain ⟨out', ptr, copied, length, suffix, ends⟩ := inductionHypothesis rest.length
              (by simp; omega) later inner
              (show (out ++ bytes).length + before ≤ size by rw [List.length_append]; omega) rfl
            refine ⟨out', ptr, start.trans copied, ?_,
              suffix.trans (List.suffix_append [92, 117, a, b, c, d] _), ends⟩
            rw [List.length_append] at length
            omega
          · obtain ⟨more, rest_⟩ := exists_length last
            cases (lengthLoop_long others rest_).symm.trans inner
            obtain ⟨out', ptr, copied, length, suffix, ends⟩ := inductionHypothesis behind.length
              (by simp; omega) last rest_
              (show (out ++ bytes).length + more ≤ size by rw [List.length_append]; omega) rfl
            refine ⟨out', ptr, start.trans copied, ?_, suffix.trans
              (List.suffix_append [92, 117, a, b, c, d, 92, 117, a', b', c', d'] _), ends⟩
            rw [List.length_append] at length
            omega

theorem keeps_parseString {text cursor : Bytes} (inText : cursor <:+ text)
    (ahead : Ahead false cursor) :
    Keeps text (fun result => Behind cursor result.2 ∧ result.2.length < cursor.length)
      (parseString cursor) := by
  refine (keeps_here ahead).bind ?_
  rintro byte found ⟨str, rfl⟩
  cases found
  by_cases quote : byte = 34
  · subst quote
    have inside := ahead_string ahead
    obtain ⟨len, counted⟩ := exists_length inside
    rw [if_neg (not_not.mpr rfl), List.tail_cons, counted, found_bind]
    refine (keeps_checkInt _).bind ?_
    rintro _ - rfl
    have block : ((len : Int) + 1).toNat = len + 1 := by omega
    obtain ⟨out, ptr, copied, length, suffix, ends⟩ := copyLoop_ahead inside counted
      (show ([] : Bytes).length + len ≤ len + 1 by rw [List.length_nil]; omega)
    rw [List.length_nil, Nat.zero_add] at length
    have ended : put (len + 1) out [0] = .ok (out ++ [0]) := if_pos (Nat.succ_le_succ length)
    have shorter := suffix.length_le
    simp only [block, copied, found_bind, ended]
    rcases ends with ⟨rest, rfl, later⟩ | ⟨rest, rfl⟩
    · rw [here_cons, found_bind, if_pos rfl]
      refine keeps_ok ⟨⟨?_, later⟩, ?_⟩
      · exact ((List.suffix_cons _ _).trans suffix).trans (List.suffix_cons _ _)
      · rw [List.length_cons] at shorter ⊢
        exact Nat.lt_succ_of_le (Nat.le_of_succ_le shorter)
    · rw [here_cons, found_bind, if_neg (by decide)]
      exact keeps_ok ⟨⟨suffix.trans (List.suffix_cons _ _), .nul false rest⟩,
        Nat.lt_succ_of_le shorter⟩
  · rw [if_pos quote]
    exact keeps_ep inText

end Strings

/-! ## Values -/

section Values

variable {D : Type} [Double D] {text : Bytes}

theorem ahead_drop {word cursor : Bytes} (ahead : Ahead false (cursor.drop word.length)) :
    Behind cursor (cursor.drop word.length) := ⟨List.drop_suffix _ _, ahead⟩

theorem behind_mark {byte mark : Byte} {rest : Bytes} (ahead : Ahead false (byte :: rest))
    (same : byte = mark) (nonzero : mark ≠ 0) (quote : mark ≠ 34) :
    Behind (byte :: rest) rest := behind_tail ahead (same ▸ nonzero) (same ▸ quote)

theorem Behind.length_le {from_ cursor : Bytes} (behind : Behind from_ cursor) :
    cursor.length ≤ from_.length := behind.1.length_le

/-- What the functions of the recursion keep with so much fuel. -/
structure Bounded (D : Type) [Double D] (text : Bytes) (fuel : Nat) : Prop where
  value : ∀ cursor, cursor <:+ text → Ahead false cursor → 3 * cursor.length + 1 ≤ fuel →
    Keeps text (fun result => Behind cursor result.2) (parseValue (D := D) fuel cursor)
  array : ∀ cursor, cursor <:+ text → Ahead false cursor → 3 * cursor.length ≤ fuel →
    Keeps text (fun result => Behind cursor result.2) (parseArray (D := D) fuel cursor)
  items : ∀ cursor, cursor <:+ text → Ahead false cursor → 3 * cursor.length ≤ fuel →
    Keeps text (fun result => Behind cursor result.2) (parseItems (D := D) fuel cursor)
  object : ∀ cursor, cursor <:+ text → Ahead false cursor → 3 * cursor.length ≤ fuel →
    Keeps text (fun result => Behind cursor result.2) (parseObject (D := D) fuel cursor)
  member : ∀ cursor, cursor <:+ text → Ahead false cursor → 3 * cursor.length ≤ fuel →
    Keeps text (fun result => Behind cursor result.2) (parseMember (D := D) fuel cursor)
  members : ∀ cursor, cursor <:+ text → Ahead false cursor → 3 * cursor.length ≤ fuel →
    Keeps text (fun result => Behind cursor result.2) (parseMembers (D := D) fuel cursor)

theorem bounded_zero : Bounded D text 0 := by
  have none : ∀ cursor : Bytes, Ahead false cursor → ¬ 3 * cursor.length ≤ 0 := by
    intro cursor ahead enough
    have := List.length_pos_iff.mpr (ahead_ne_nil ahead)
    omega
  constructor <;> intro cursor _ ahead enough
  · omega
  all_goals exact absurd enough (none cursor ahead)

section Step

variable {fuel : Nat} (bounded : Bounded D text fuel)

include bounded

theorem keeps_parseValue {cursor : Bytes} (inText : cursor <:+ text) (ahead : Ahead false cursor)
    (enough : 3 * cursor.length + 1 ≤ fuel + 1) :
    Keeps text (fun result => Behind cursor result.2) (parseValue (D := D) (fuel + 1) cursor) := by
  have word : ∀ (word : Bytes) (value : Json D) (otherwise : Parser (Json D × Bytes)),
      (∀ letter ∈ word, letter ≠ 0 ∧ letter ≠ 34) →
      Keeps text (fun result => Behind cursor result.2) otherwise →
      Keeps text (fun result => Behind cursor result.2) (do
        if ← startsWith word cursor then return (value, cursor.drop word.length)
        otherwise) := by
    intro word value otherwise letters keeps
    refine (keeps_startsWith letters ahead).bind fun found _ left => ?_
    cases found with
    | true => exact keeps_ok (ahead_drop (left rfl))
    | false => exact keeps
  rw [parseValue]
  refine word (lit "null") _ _ (by decide +kernel) (word (lit "false") _ _ (by decide +kernel)
    (word (lit "true") _ _ (by decide +kernel) ((keeps_here ahead).bind ?_)))
  rintro byte found ⟨rest, rfl⟩
  split
  next quote =>
    refine (keeps_parseString inText ahead).bind ?_
    rintro ⟨valuestring, value⟩ - ⟨behind, -⟩
    exact keeps_ok behind
  next =>
    split
    next => exact keeps_parseNumber ahead
    next =>
      split
      next => exact bounded.array _ inText ahead (Nat.le_of_succ_le_succ enough)
      next =>
        split
        next => exact bounded.object _ inText ahead (Nat.le_of_succ_le_succ enough)
        next => exact keeps_ep inText

theorem keeps_parseArray {cursor : Bytes} (inText : cursor <:+ text) (ahead : Ahead false cursor)
    (enough : 3 * cursor.length ≤ fuel + 1) :
    Keeps text (fun result => Behind cursor result.2) (parseArray (D := D) (fuel + 1) cursor) := by
  rw [parseArray]
  refine (keeps_here ahead).bind ?_
  rintro byte found ⟨rest, rfl⟩
  cases found
  rw [List.length_cons] at enough
  split
  next => exact keeps_ep inText
  next bracket =>
    have opened := behind_mark ahead (not_not.mp bracket) (by decide) (by decide)
    refine (keeps_skip opened.2).bind fun value _ skipped => ?_
    have start := opened.trans skipped
    have short := skipped.length_le
    refine (keeps_here start.2).bind ?_
    rintro byte' found' ⟨rest', rfl⟩
    cases found'
    split
    next close => exact keeps_ok (start.trans (behind_mark start.2 close (by decide) (by decide)))
    next =>
      refine (keeps_skip start.2).bind fun first _ again => ?_
      have reached := start.trans again
      have least := again.length_le
      refine (bounded.value first (reached.1.trans inText) reached.2 (by omega)).bind ?_
      rintro ⟨item, value⟩ - behind
      have parsed := reached.trans behind
      have less := behind.length_le
      refine (keeps_skip parsed.2).bind fun later _ passed => ?_
      have left := parsed.trans passed
      have lesser := passed.length_le
      refine (bounded.items later (left.1.trans inText) left.2 (by omega)).bind ?_
      rintro ⟨next, value⟩ - last
      have finish := left.trans last
      refine (keeps_here finish.2).bind ?_
      rintro byte'' found'' ⟨rest'', same⟩
      cases same
      cases found''
      split
      next close =>
        exact keeps_ok (finish.trans (behind_mark finish.2 close (by decide) (by decide)))
      next => exact keeps_ep (finish.1.trans inText)

theorem keeps_parseItems {cursor : Bytes} (inText : cursor <:+ text) (ahead : Ahead false cursor)
    (enough : 3 * cursor.length ≤ fuel + 1) :
    Keeps text (fun result => Behind cursor result.2) (parseItems (D := D) (fuel + 1) cursor) := by
  rw [parseItems]
  refine (keeps_here ahead).bind ?_
  rintro byte found ⟨rest, rfl⟩
  cases found
  rw [List.length_cons] at enough
  split
  next comma =>
    have opened := behind_mark ahead comma (by decide) (by decide)
    refine (keeps_skip opened.2).bind fun first _ skipped => ?_
    have start := opened.trans skipped
    have short := skipped.length_le
    refine (bounded.value first (start.1.trans inText) start.2 (by omega)).bind ?_
    rintro ⟨item, value⟩ - behind
    have parsed := start.trans behind
    have less := behind.length_le
    refine (keeps_skip parsed.2).bind fun later _ passed => ?_
    have left := parsed.trans passed
    have lesser := passed.length_le
    refine (bounded.items later (left.1.trans inText) left.2 (by omega)).bind ?_
    rintro ⟨next, value⟩ - last
    exact keeps_ok (left.trans last)
  next => exact keeps_ok (behind_self ahead)

theorem keeps_parseObject {cursor : Bytes} (inText : cursor <:+ text) (ahead : Ahead false cursor)
    (enough : 3 * cursor.length ≤ fuel + 1) :
    Keeps text (fun result => Behind cursor result.2) (parseObject (D := D) (fuel + 1) cursor) := by
  rw [parseObject]
  refine (keeps_here ahead).bind ?_
  rintro byte found ⟨rest, rfl⟩
  cases found
  rw [List.length_cons] at enough
  split
  next => exact keeps_ep inText
  next brace =>
    have opened := behind_mark ahead (not_not.mp brace) (by decide) (by decide)
    refine (keeps_skip opened.2).bind fun value _ skipped => ?_
    have start := opened.trans skipped
    have short := skipped.length_le
    refine (keeps_here start.2).bind ?_
    rintro byte' found' ⟨rest', rfl⟩
    cases found'
    split
    next close => exact keeps_ok (start.trans (behind_mark start.2 close (by decide) (by decide)))
    next =>
      refine (bounded.member _ (start.1.trans inText) start.2 (by omega)).bind ?_
      rintro ⟨item, value⟩ - behind
      have parsed := start.trans behind
      have less : value.length ≤ _ := behind.length_le
      refine (bounded.members value (parsed.1.trans inText) parsed.2 (by omega)).bind ?_
      rintro ⟨next, value⟩ - last
      have finish := parsed.trans last
      refine (keeps_here finish.2).bind ?_
      rintro byte'' found'' ⟨rest'', same⟩
      cases same
      cases found''
      split
      next close =>
        exact keeps_ok (finish.trans (behind_mark finish.2 close (by decide) (by decide)))
      next => exact keeps_ep (finish.1.trans inText)

theorem keeps_parseMember {cursor : Bytes} (inText : cursor <:+ text) (ahead : Ahead false cursor)
    (enough : 3 * cursor.length ≤ fuel + 1) :
    Keeps text (fun result => Behind cursor result.2) (parseMember (D := D) (fuel + 1) cursor) := by
  rw [parseMember]
  refine (keeps_skip ahead).bind fun name _ start => ?_
  have short := start.length_le
  refine (keeps_parseString (start.1.trans inText) start.2).bind ?_
  rintro ⟨string, value⟩ - ⟨named, shorter⟩
  have read := start.trans named
  refine (keeps_skip read.2).bind fun colon _ passed => ?_
  have left := read.trans passed
  have less := passed.length_le
  refine (keeps_here left.2).bind ?_
  rintro byte found ⟨rest, rfl⟩
  cases found
  split
  next => exact keeps_ep (left.1.trans inText)
  next mark =>
    have opened := left.trans (behind_mark left.2 (not_not.mp mark) (by decide) (by decide))
    refine (keeps_skip opened.2).bind fun first _ skipped => ?_
    have reached := opened.trans skipped
    have least := skipped.length_le
    rw [List.length_cons] at less
    refine (bounded.value first (reached.1.trans inText) reached.2 (by omega)).bind ?_
    rintro ⟨item, value⟩ - behind
    have parsed := reached.trans behind
    refine (keeps_skip parsed.2).bind fun later _ last => ?_
    exact keeps_ok (parsed.trans last)

theorem keeps_parseMembers {cursor : Bytes} (inText : cursor <:+ text) (ahead : Ahead false cursor)
    (enough : 3 * cursor.length ≤ fuel + 1) :
    Keeps text (fun result => Behind cursor result.2) (parseMembers (D := D) (fuel + 1) cursor) := by
  rw [parseMembers]
  refine (keeps_here ahead).bind ?_
  rintro byte found ⟨rest, rfl⟩
  cases found
  rw [List.length_cons] at enough
  split
  next comma =>
    have opened := behind_mark ahead comma (by decide) (by decide)
    refine (bounded.member rest (opened.1.trans inText) opened.2 (by omega)).bind ?_
    rintro ⟨item, value⟩ - behind
    have parsed := opened.trans behind
    have less : value.length ≤ _ := behind.length_le
    refine (bounded.members value (parsed.1.trans inText) parsed.2 (by omega)).bind ?_
    rintro ⟨next, value⟩ - last
    exact keeps_ok (parsed.trans last)
  next => exact keeps_ok (behind_self ahead)

end Step

theorem bounded (fuel : Nat) : Bounded D text fuel := by
  induction fuel with
  | zero => exact bounded_zero
  | succ fuel inductionHypothesis =>
      exact {
        value := fun _ => keeps_parseValue inductionHypothesis
        array := fun _ => keeps_parseArray inductionHypothesis
        items := fun _ => keeps_parseItems inductionHypothesis
        object := fun _ => keeps_parseObject inductionHypothesis
        member := fun _ => keeps_parseMember inductionHypothesis
        members := fun _ => keeps_parseMembers inductionHypothesis }

theorem keeps_cJsonParseWithOpts (ahead : Ahead false text) (requireNullTerminated : Bool) :
    Keeps text (fun result => result.2 <:+ text)
      (cJsonParseWithOpts (D := D) text requireNullTerminated) := by
  unfold cJsonParseWithOpts
  refine (keeps_skip ahead).bind fun start _ skipped => ?_
  have short := skipped.length_le
  refine ((bounded _).value start skipped.1 skipped.2 (by omega)).bind ?_
  rintro ⟨c, end_⟩ - behind
  have parsed := skipped.trans behind
  cases requireNullTerminated with
  | false => exact keeps_ok parsed.1
  | true =>
      refine (keeps_skip parsed.2).bind fun last _ passed => ?_
      have finish := parsed.trans passed
      refine (keeps_here finish.2).bind fun byte _ _ => ?_
      dsimp only
      split
      · exact keeps_ep finish.1
      · exact keeps_ok finish.1

/-- On a text with complete escapes, whatever it is, the parser ends with a
value or with an error, both in the text; only an `int` that overflows takes
it out of C. -/
theorem cJsonParseWithOpts_stays (ahead : Ahead false text) (requireNullTerminated : Bool) :
    (∃ c end_, end_ <:+ text ∧
      cJsonParseWithOpts (D := D) text requireNullTerminated = .ok (c, end_)) ∨
    (∃ ep, ep <:+ text ∧
      cJsonParseWithOpts (D := D) text requireNullTerminated = .error (.ep ep)) ∨
    cJsonParseWithOpts (D := D) text requireNullTerminated = .error (.fault .signedOverflow) := by
  have keeps := keeps_cJsonParseWithOpts (D := D) ahead requireNullTerminated
  cases run : cJsonParseWithOpts (D := D) text requireNullTerminated with
  | ok result => exact Or.inl ⟨result.1, result.2, keeps.value result run, rfl⟩
  | error stop =>
      cases stop with
      | ep ep => exact Or.inr (Or.inl ⟨ep, keeps.ep ep run, rfl⟩)
      | fault fault =>
          cases keeps.fault fault run
          exact Or.inr (Or.inr rfl)
      | fuel => exact absurd run keeps.fuel

theorem cJsonParseWithOpts_stays_unclosed :
    (∃ c end_, end_ <:+ lit "[\"\\ud83d\\n" ++ [0] ∧
      cJsonParseWithOpts (D := Rat) (lit "[\"\\ud83d\\n" ++ [0]) false = .ok (c, end_)) ∨
    (∃ ep, ep <:+ lit "[\"\\ud83d\\n" ++ [0] ∧
      cJsonParseWithOpts (D := Rat) (lit "[\"\\ud83d\\n" ++ [0]) false = .error (.ep ep)) ∨
    cJsonParseWithOpts (D := Rat) (lit "[\"\\ud83d\\n" ++ [0]) false =
      .error (.fault .signedOverflow) :=
  cJsonParseWithOpts_stays (.outside (by decide) (by decide) (.opening (.long (by decide +kernel)
    (.short (by decide) (by decide) (.nul true []))))) false

/-- Without the condition a string is written outside of its block. -/
example : parseString (lit "\"\\u12\"aaaaaaaaaa\"" ++ [0]) = .error (.fault .writeOutside) := by
  decide +kernel

end Values

end DistStore.JsonSafety

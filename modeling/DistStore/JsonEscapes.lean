import DistStore.JsonScalars

/-!
# Escapes in strings

A string literal whose escapes are complete, and the bytes it stands for: a
code point is written in UTF-8, a surrogate pair is one code point, and an
escaped NUL or a low surrogate alone is left out.
-/

set_option autoImplicit false

namespace DistStore.JsonEscapes

open CMemory JsonPrint JsonTree JsonParse JsonScalars

/-! ## UTF-8 -/

theorem laterByte_eq (uc : Nat) : laterByte uc = UInt8.ofNat (uc % 64 + 0x80) := by
  have each : ∀ low < 256, (low ||| 0x80) &&& 0xBF = low % 64 + 0x80 := by decide +kernel
  have low : (uc ||| 0x80) &&& 0xBF = (uc % 256 ||| 0x80) &&& 0xBF := by
    apply Nat.eq_of_testBit_eq
    intro bit
    rw [Nat.testBit_and, Nat.testBit_and, Nat.testBit_or, Nat.testBit_or,
      show 256 = 2 ^ 8 from rfl, Nat.testBit_mod_two_pow]
    by_cases inside : bit < 8
    · simp [inside]
    · have outside : Nat.testBit 0xBF bit = false :=
        Nat.testBit_lt_two_pow (lt_of_lt_of_le (by decide : 0xBF < 2 ^ 8)
          (Nat.pow_le_pow_right (by decide) (Nat.le_of_not_lt inside)))
      rw [outside, Bool.and_false, Bool.and_false]
  rw [laterByte, low, each _ (Nat.mod_lt _ (by decide)), Nat.mod_mod_of_dvd _ (by decide)]

/-- The bytes of a code point are its UTF-8. -/
theorem utf8Bytes_char (c : Char) : utf8Bytes c.toNat = String.utf8EncodeChar c := by
  have point : c.toNat = c.val.toNat := rfl
  have bound : c.toNat < 0x110000 := by
    rcases c.valid with small | ⟨-, small⟩
    · rw [point]
      exact small.trans (by decide)
    · exact small
  have shift : ∀ value : Nat, value >>> 6 = value / 64 := fun value => Nat.shiftRight_eq_div_pow value 6
  have one : ∀ uc < 128, firstByte uc 0x00 = UInt8.ofNat uc := by decide
  have two : ∀ high < 32, firstByte high 0xC0 = UInt8.ofNat (high % 0x20 + 0xc0) := by decide
  have three : ∀ high < 16, firstByte high 0xE0 = UInt8.ofNat (high % 0x10 + 0xe0) := by decide
  have four : ∀ high < 8, firstByte high 0xF0 = UInt8.ofNat (high % 0x08 + 0xf0) := by decide
  have quotients : c.toNat / 64 / 64 = c.toNat / 4096 ∧ c.toNat / 64 / 64 / 64 = c.toNat / 262144 := by
    omega
  unfold utf8Bytes String.utf8EncodeChar
  rw [← point]
  simp only [shift, laterByte_eq]
  by_cases ascii : c.toNat < 0x80
  · rw [if_pos ascii, if_pos (Nat.le_of_lt_succ ascii), one _ ascii]
  · rw [if_neg ascii, if_neg fun small => ascii (Nat.lt_succ_of_le small)]
    by_cases double : c.toNat < 0x800
    · rw [if_pos double, if_pos (Nat.le_of_lt_succ double), two _ (by omega)]
    · rw [if_neg double, if_neg fun small => double (Nat.lt_succ_of_le small)]
      by_cases triple : c.toNat < 0x10000
      · rw [if_pos triple, if_pos (Nat.le_of_lt_succ triple), three _ (by omega), quotients.1]
      · rw [if_neg triple, if_neg fun small => triple (Nat.lt_succ_of_le small), four _ (by omega),
          quotients.2, quotients.1]

/-! ## Literals -/

/-- Four hexadecimal digits and their value. -/
inductive Spells : Bytes → Nat → Prop where
  | digits {a b c d : Byte} {first second third fourth : Nat} (a_ : hexValue a = some first)
      (b_ : hexValue b = some second) (c_ : hexValue c = some third) (d_ : hexValue d = some fourth) :
      Spells [a, b, c, d] (((first * 16 + second) * 16 + third) * 16 + fourth)

/-- A piece of a literal and the bytes it stands for. -/
inductive Means : Bytes → Bytes → Prop where
  | plain (byte : Byte) (nonzero : byte ≠ 0) (quote : byte ≠ 34) (backslash : byte ≠ 92) :
      Means [byte] [byte]
  | short (letter : Byte) (nonzero : letter ≠ 0) (notLong : letter ≠ 117) :
      Means [92, letter] [unescape letter]
  | unit {digits : Bytes} (c : Char) (spells : Spells digits c.toNat) (nonzero : c.toNat ≠ 0) :
      Means (92 :: 117 :: digits) (String.utf8EncodeChar c)
  | pair {leading trailing : Bytes} {high low : Nat} (c : Char) (spellsHigh : Spells leading (0xD800 + high))
      (spellsLow : Spells trailing (0xDC00 + low)) (highSmall : high < 0x400) (lowSmall : low < 0x400)
      (point : c.toNat = 0x10000 + high * 0x400 + low) :
      Means (92 :: 117 :: (leading ++ 92 :: 117 :: trailing)) (String.utf8EncodeChar c)
  | dropped {digits : Bytes} {value : Nat} (spells : Spells digits value)
      (invalid : value = 0 ∨ 0xDC00 ≤ value ∧ value ≤ 0xDFFF) :
      Means (92 :: 117 :: digits) []

inductive Literal : Bytes → Bytes → Prop where
  | nil : Literal [] []
  | cons {code bytes source meaning : Bytes} (means : Means code bytes)
      (rest : Literal source meaning) : Literal (code ++ source) (bytes ++ meaning)

theorem hexValue_plain {byte : Byte} {value : Nat} (digit : hexValue byte = some value) :
    byte ≠ 0 ∧ byte ≠ 34 ∧ byte ≠ 92 ∧ value < 16 := by
  have each : ∀ n < 256, ∀ value, hexValue (UInt8.ofNat n) = some value →
      UInt8.ofNat n ≠ 0 ∧ UInt8.ofNat n ≠ 34 ∧ UInt8.ofNat n ≠ 92 ∧ value < 16 := by
    intro n small value found
    have isSome : ∀ n < 256, (hexValue (UInt8.ofNat n)).all (fun value =>
        UInt8.ofNat n ≠ 0 ∧ UInt8.ofNat n ≠ 34 ∧ UInt8.ofNat n ≠ 92 ∧ value < 16) = true := by
      decide +kernel
    simpa [found] using isSome n small
  have same := each byte.toNat byte.toNat_lt value
  rw [UInt8.ofNat_toNat] at same
  exact same digit

theorem parseHex4_spells {digits : Bytes} {value : Nat} (spells : Spells digits value) (rest : Bytes) :
    parseHex4 (digits ++ rest) = .ok value := by
  cases spells with
  | digits a_ b_ c_ d_ => 
      simp only [parseHex4, parseHex, List.cons_append, List.nil_append, a_, b_, c_, d_, Nat.zero_mul,
        Nat.zero_add]

/-- The bytes of four digits end no string and start no escape. -/
theorem spells_four {digits : Bytes} {value : Nat} (spells : Spells digits value) :
    ∃ a b c d, digits = [a, b, c, d] ∧
      ∀ byte ∈ [a, b, c, d], ¬ (byte = 34 ∨ byte = 0) ∧ byte ≠ 92 := by
  cases spells with
  | @digits a b c d _ _ _ _ a_ b_ c_ d_ =>
      have plain : ∀ {byte : Byte} {value : Nat}, hexValue byte = some value →
          ¬ (byte = 34 ∨ byte = 0) ∧ byte ≠ 92 := by
        intro byte value digit
        obtain ⟨nonzero, quote, backslash, -⟩ := hexValue_plain digit
        exact ⟨fun ends => ends.elim quote nonzero, backslash⟩
      refine ⟨a, b, c, d, rfl, ?_⟩
      simp only [List.forall_mem_cons]
      exact ⟨plain a_, plain b_, plain c_, plain d_, List.forall_mem_nil _⟩

/-- A code point of one unit is no surrogate. -/
theorem transcode_unit {digits : Bytes} {c : Char} (spells : Spells digits c.toNat)
    (nonzero : c.toNat ≠ 0) (rest : Bytes) :
    transcode (117 :: (digits ++ rest)) = .ok (String.utf8EncodeChar c, 4) := by
  have valid : c.toNat < 0xD800 ∨ 0xDFFF < c.toNat :=
    c.valid.imp id fun large => large.1
  have lone : ¬ ((0xDC00 ≤ c.toNat ∧ c.toNat ≤ 0xDFFF) ∨ c.toNat = 0) := by omega
  have single : ¬ (0xD800 ≤ c.toNat ∧ c.toNat ≤ 0xDBFF) := by omega
  unfold transcode
  rw [List.drop_one, List.tail_cons, parseHex4_spells spells, found_bind]
  simp only [lone, single, if_false, utf8Bytes_char]
  rfl

theorem transcode_pair {leading trailing : Bytes} {high low : Nat} {c : Char}
    (spellsHigh : Spells leading (0xD800 + high)) (spellsLow : Spells trailing (0xDC00 + low))
    (highSmall : high < 0x400) (lowSmall : low < 0x400)
    (point : c.toNat = 0x10000 + high * 0x400 + low) (rest : Bytes) :
    transcode (117 :: (leading ++ 92 :: 117 :: (trailing ++ rest))) =
      .ok (String.utf8EncodeChar c, 10) := by
  have lone : ¬ ((0xDC00 ≤ 0xD800 + high ∧ 0xD800 + high ≤ 0xDFFF) ∨ 0xD800 + high = 0) := by omega
  have first : 0xD800 ≤ 0xD800 + high ∧ 0xD800 + high ≤ 0xDBFF := by omega
  have second : ¬ (0xDC00 + low < 0xDC00 ∨ 0xDFFF < 0xDC00 + low) := by omega
  have highBits : (0xD800 + high) &&& 0x3FF = high := by
    rw [show 0x3FF = 2 ^ 10 - 1 from rfl, Nat.and_two_pow_sub_one_eq_mod]
    omega
  have lowBits : (0xDC00 + low) &&& 0x3FF = low := by
    rw [show 0x3FF = 2 ^ 10 - 1 from rfl, Nat.and_two_pow_sub_one_eq_mod]
    omega
  have together : 0x10000 + ((high <<< 10) ||| low) = c.toNat := by
    rw [← Nat.shiftLeft_add_eq_or_of_lt (show low < 2 ^ 10 from lowSmall), Nat.shiftLeft_eq, point]
    omega
  obtain ⟨a, b, c', d, rfl, -⟩ := spells_four spellsHigh
  have lead := parseHex4_spells spellsHigh (92 :: 117 :: (trailing ++ rest))
  simp only [List.cons_append, List.nil_append] at lead ⊢
  unfold transcode
  simp only [List.drop_succ_cons, List.drop_zero, lead, found_bind, here_cons,
    parseHex4_spells spellsLow, lone, if_false, if_pos first, ne_eq, not_true_eq_false, if_neg second,
    highBits, lowBits, together, utf8Bytes_char]
  rfl

theorem transcode_dropped {digits : Bytes} {value : Nat} (spells : Spells digits value)
    (invalid : value = 0 ∨ 0xDC00 ≤ value ∧ value ≤ 0xDFFF) (rest : Bytes) :
    transcode (117 :: (digits ++ rest)) = .ok ([], 4) := by
  unfold transcode
  rw [List.drop_one, List.tail_cons, parseHex4_spells spells, found_bind, if_pos invalid.symm]
  rfl

/-- An escape of four digits is copied and left behind. -/
theorem copyLoop_unit {digits bytes : Bytes} {value : Nat} (spells : Spells digits value)
    {rest : Bytes} (read : transcode (117 :: (digits ++ rest)) = .ok (bytes, 4)) {size : Nat}
    {out : Bytes} (written : put size out bytes = .ok (out ++ bytes)) :
    copyLoop size 0 (92 :: 117 :: (digits ++ rest)) out = copyLoop size 0 rest (out ++ bytes) := by
  obtain ⟨a, b, c, d, rfl, -⟩ := spells_four spells
  rw [copyLoop, if_neg (by decide), if_neg (by decide), here_cons, found_bind, if_pos rfl, read,
    found_bind]
  simp only [written, found_bind, List.cons_append, List.nil_append, copyLoop]

/-- The copying loop takes a piece to its bytes. -/
theorem copyLoop_means {code bytes : Bytes} (means : Means code bytes) {size : Nat} {out : Bytes}
    (room : out.length + bytes.length ≤ size) (rest : Bytes) :
    copyLoop size 0 (code ++ rest) out = copyLoop size 0 rest (out ++ bytes) := by
  have written : put size out bytes = .ok (out ++ bytes) := if_pos room
  cases means with
  | plain byte nonzero quote backslash =>
      have inside : ¬ (byte = 34 ∨ byte = 0) := fun ends => ends.elim quote nonzero
      rw [List.singleton_append, copyLoop, if_neg inside, if_pos backslash, written, found_bind]
  | short letter nonzero notLong =>
      simp only [List.cons_append, List.nil_append, copyLoop]
      rw [if_neg (by decide), if_neg (by decide), here_cons, found_bind, if_neg notLong, written,
        found_bind]
  | unit c spells nonzero =>
      exact copyLoop_unit spells (transcode_unit spells nonzero rest) written
  | @pair leading trailing high low c spellsHigh spellsLow highSmall lowSmall point =>
      have read := transcode_pair spellsHigh spellsLow highSmall lowSmall point rest
      obtain ⟨a, b, c', d, rfl, -⟩ := spells_four spellsHigh
      obtain ⟨a', b', c'', d', rfl, -⟩ := spells_four spellsLow
      simp only [List.cons_append, List.nil_append] at read ⊢
      rw [copyLoop, if_neg (by decide), if_neg (by decide), here_cons, found_bind, if_pos rfl, read,
        found_bind]
      simp only [written, found_bind, copyLoop]
  | dropped spells invalid =>
      exact copyLoop_unit spells (transcode_dropped spells invalid rest) written

/-- The first loop counts the bytes of an escape behind its first two. -/
theorem lengthLoop_unit {digits : Bytes} {value : Nat} (spells : Spells digits value) {rest : Bytes}
    {len : Nat} (counted : lengthLoop false rest = .ok len) :
    lengthLoop false (92 :: 117 :: (digits ++ rest)) = .ok (len + 5) := by
  obtain ⟨a, b, c, d, rfl, plain⟩ := spells_four spells
  simp only [List.forall_mem_cons] at plain
  obtain ⟨first, second, third, fourth, -⟩ := plain
  rw [lengthLoop, if_neg (by decide), decide_eq_true rfl, lengthLoop]
  simp only [List.cons_append, List.nil_append, lengthLoop, first.1, second.1, third.1, fourth.1,
    if_false, decide_eq_false first.2, decide_eq_false second.2, decide_eq_false third.2,
    decide_eq_false fourth.2, counted]
  rfl

/-- At least as many bytes are counted as are written. -/
theorem lengthLoop_means {code bytes : Bytes} (means : Means code bytes) {rest : Bytes} {len : Nat}
    (counted : lengthLoop false rest = .ok len) :
    ∃ more, lengthLoop false (code ++ rest) = .ok (len + more) ∧ bytes.length ≤ more ∧
      more ≤ code.length := by
  have encoded : ∀ c : Char, (String.utf8EncodeChar c).length ≤ 4 := fun c => by
    rw [String.length_utf8EncodeChar]
    exact c.utf8Size_le_four
  cases means with
  | plain byte nonzero quote backslash =>
      have inside : ¬ (byte = 34 ∨ byte = 0) := fun ends => ends.elim quote nonzero
      refine ⟨1, ?_, le_rfl, le_rfl⟩
      rw [List.singleton_append, lengthLoop, if_neg inside, decide_eq_false backslash, counted]
      rfl
  | short letter nonzero notLong =>
      refine ⟨1, ?_, le_rfl, Nat.le_succ 1⟩
      simp only [List.cons_append, List.nil_append, lengthLoop, decide_true]
      rw [if_neg (by decide), counted]
      rfl
  | unit c spells nonzero =>
      refine ⟨5, lengthLoop_unit spells counted, (encoded c).trans (by decide), ?_⟩
      obtain ⟨_, _, _, _, rfl, -⟩ := spells_four spells
      exact Nat.le_succ 5
  | pair c spellsHigh spellsLow highSmall lowSmall point =>
      refine ⟨10, ?_, (encoded c).trans (by decide), ?_⟩
      · have inner := lengthLoop_unit spellsHigh (lengthLoop_unit spellsLow counted)
        simp only [List.cons_append, List.append_assoc] at inner ⊢
        exact inner
      · obtain ⟨_, _, _, _, rfl, -⟩ := spells_four spellsHigh
        obtain ⟨_, _, _, _, rfl, -⟩ := spells_four spellsLow
        exact Nat.le_add_left 10 2
  | dropped spells invalid =>
      refine ⟨5, lengthLoop_unit spells counted, Nat.zero_le _, ?_⟩
      obtain ⟨_, _, _, _, rfl, -⟩ := spells_four spells
      exact Nat.le_succ 5

theorem copyLoop_literal {source meaning : Bytes} (literal : Literal source meaning) {size : Nat}
    {out : Bytes} (room : out.length + meaning.length ≤ size) (rest : Bytes) :
    copyLoop size 0 (source ++ 34 :: rest) out = .ok (out ++ meaning, 34 :: rest) := by
  induction literal generalizing out with
  | nil =>
      rw [List.nil_append, List.append_nil]
      exact if_pos (Or.inl rfl)
  | @cons code bytes source meaning means literal inductionHypothesis =>
      rw [List.length_append] at room
      rw [List.append_assoc, copyLoop_means means (by omega), inductionHypothesis (by
        rw [List.length_append]
        omega), List.append_assoc]

theorem lengthLoop_literal {source meaning : Bytes} (literal : Literal source meaning)
    (rest : Bytes) :
    ∃ len, lengthLoop false (source ++ 34 :: rest) = .ok len ∧ meaning.length ≤ len ∧
      len ≤ source.length := by
  induction literal with
  | nil => exact ⟨0, if_pos (Or.inl rfl), le_rfl, le_rfl⟩
  | cons means literal inductionHypothesis =>
      obtain ⟨len, counted, lower, upper⟩ := inductionHypothesis
      obtain ⟨more, longer, bytes, code⟩ := lengthLoop_means means counted
      refine ⟨len + more, ?_, ?_, ?_⟩
      · rw [List.append_assoc, longer]
      · rw [List.length_append]
        omega
      · rw [List.length_append]
        omega

theorem ofNat_ne_zero {value : Nat} (positive : 0 < value) (small : value < 256) :
    0 ≠ UInt8.ofNat value := by
  intro zero
  have same := congrArg UInt8.toNat zero
  rw [UInt8.toNat_ofNat_of_lt' small, UInt8.toNat_zero] at same
  omega

theorem utf8EncodeChar_nulFree {c : Char} (nonzero : c.toNat ≠ 0) : 0 ∉ String.utf8EncodeChar c := by
  have point : c.toNat = c.val.toNat := rfl
  unfold String.utf8EncodeChar
  rw [← point]
  dsimp only
  split
  · simp only [List.mem_singleton]
    exact ofNat_ne_zero (Nat.pos_of_ne_zero nonzero) (by omega)
  · split
    · simp only [List.mem_cons, List.not_mem_nil, or_false, not_or]
      exact ⟨ofNat_ne_zero (by omega) (by omega), ofNat_ne_zero (by omega) (by omega)⟩
    · split
      · simp only [List.mem_cons, List.not_mem_nil, or_false, not_or]
        exact ⟨ofNat_ne_zero (by omega) (by omega), ofNat_ne_zero (by omega) (by omega),
          ofNat_ne_zero (by omega) (by omega)⟩
      · simp only [List.mem_cons, List.not_mem_nil, or_false, not_or]
        exact ⟨ofNat_ne_zero (by omega) (by omega), ofNat_ne_zero (by omega) (by omega),
          ofNat_ne_zero (by omega) (by omega), ofNat_ne_zero (by omega) (by omega)⟩

theorem unescape_ne_zero {letter : Byte} (nonzero : letter ≠ 0) : 0 ≠ unescape letter := by
  unfold unescape
  split
  · decide
  · split
    · decide
    · split
      · decide
      · split
        · decide
        · split
          · decide
          · exact nonzero.symm

theorem means_nulFree {code bytes : Bytes} (means : Means code bytes) : 0 ∉ bytes := by
  cases means with
  | plain byte nonzero quote backslash =>
      rw [List.mem_singleton]
      exact nonzero.symm
  | short letter nonzero notLong =>
      rw [List.mem_singleton]
      exact unescape_ne_zero nonzero
  | unit c spells nonzero => exact utf8EncodeChar_nulFree nonzero
  | pair c spellsHigh spellsLow highSmall lowSmall point => exact utf8EncodeChar_nulFree (by omega)
  | dropped spells invalid => exact List.not_mem_nil

theorem literal_nulFree {source meaning : Bytes} (literal : Literal source meaning) :
    0 ∉ meaning := by
  induction literal with
  | nil => exact List.not_mem_nil
  | cons means literal inductionHypothesis =>
      rw [List.mem_append, not_or]
      exact ⟨means_nulFree means, inductionHypothesis⟩

/-- A string literal is read as the bytes it stands for. -/
theorem parseString_literal {source meaning : Bytes} (literal : Literal source meaning)
    (small : source.length + 1 < 2 ^ 31) (rest : Bytes) :
    parseString (34 :: (source ++ 34 :: rest)) = .ok (⟨meaning, literal_nulFree literal⟩, rest) := by
  obtain ⟨len, counted, lower, upper⟩ := lengthLoop_literal literal rest
  have room : ([] : Bytes).length + meaning.length ≤ len + 1 := by
    rw [List.length_nil]
    omega
  rw [parseString_eq counted (by omega) (copyLoop_literal literal room rest) lower, List.nil_append,
    textOf_terminated ⟨meaning, literal_nulFree literal⟩]

/-! ## Texts written with escapes only -/

def hex4 (value : Nat) : Bytes :=
  [hexDigit (value / 4096 % 16), hexDigit (value / 256 % 16), hexDigit (value / 16 % 16),
    hexDigit (value % 16)]

/-- A code point as one unit or as a surrogate pair. -/
def escapeChar (c : Char) : Bytes :=
  if c.toNat < 0x10000 then 92 :: 117 :: hex4 c.toNat
  else 92 :: 117 :: (hex4 (0xD800 + (c.toNat - 0x10000) / 0x400) ++
    92 :: 117 :: hex4 (0xDC00 + (c.toNat - 0x10000) % 0x400))

theorem spells_hex4 {value : Nat} (small : value < 0x10000) : Spells (hex4 value) value := by
  have digit : ∀ n, hexValue (hexDigit (n % 16)) = some (n % 16) := fun n =>
    hexValue_hexDigit (Nat.mod_lt n (by decide))
  have spells := Spells.digits (digit (value / 4096)) (digit (value / 256)) (digit (value / 16))
    (digit value)
  have whole : ((value / 4096 % 16 * 16 + value / 256 % 16) * 16 + value / 16 % 16) * 16 +
      value % 16 = value := by omega
  rwa [whole] at spells

theorem means_escapeChar {c : Char} (nonzero : c.toNat ≠ 0) :
    Means (escapeChar c) (String.utf8EncodeChar c) := by
  have bound : c.toNat < 0x110000 := by
    rcases c.valid with small | ⟨-, small⟩
    · exact lt_trans small (by decide)
    · exact small
  unfold escapeChar
  split
  next small => exact .unit c (spells_hex4 small) nonzero
  next large =>
    exact .pair c (spells_hex4 (by omega)) (spells_hex4 (by omega)) (by omega) (by omega) (by omega)

theorem literal_escapeChar {text : List Char} (nulFree : ∀ c ∈ text, c.toNat ≠ 0) :
    Literal (text.flatMap escapeChar) (text.flatMap String.utf8EncodeChar) := by
  induction text with
  | nil => exact .nil
  | cons c text inductionHypothesis =>
      rw [List.forall_mem_cons] at nulFree
      exact .cons (means_escapeChar nulFree.1) (inductionHypothesis nulFree.2)

/-- Any Unicode text can be written with escapes only, and is read in UTF-8. -/
theorem parseString_escaped {text : List Char} (nulFree : ∀ c ∈ text, c.toNat ≠ 0)
    (small : (text.flatMap escapeChar).length + 1 < 2 ^ 31) (rest : Bytes) :
    ∃ valuestring : Text, valuestring.val = text.flatMap String.utf8EncodeChar ∧
      parseString (34 :: (text.flatMap escapeChar ++ 34 :: rest)) = .ok (valuestring, rest) :=
  ⟨_, rfl, parseString_literal (literal_escapeChar nulFree) small rest⟩

/-- A text that is one string literal. -/
theorem cJsonParseWithOpts_literal {D : Type} [Double D] {source meaning : Bytes}
    (literal : Literal source meaning) (small : source.length + 1 < 2 ^ 31) (after : Bytes) :
    ∃ valuestring : Text, valuestring.val = meaning ∧
      cJsonParseWithOpts (D := D) (34 :: (source ++ 34 :: 0 :: after)) true =
        .ok (.string valuestring, 0 :: after) := by
  have parsed := parseString_literal literal small (0 :: after)
  have ended : skip (0 :: after) = .ok (0 :: after) := if_neg fun blank => blank.1 rfl
  refine ⟨⟨meaning, literal_nulFree literal⟩, rfl, ?_⟩
  unfold cJsonParseWithOpts
  rw [skip_solid (by decide), found_bind, parseValue_other _ (by decide), if_pos rfl, parsed]
  simp only [found_bind, pure, Except.pure, if_true, ended, here_cons]
  rfl

theorem literal_smile : Literal (lit "\\ud83D\\uDE00") [0xF0, 0x9F, 0x98, 0x80] := by
  have high : Spells (lit "d83D") (0xD800 + 0x3D) :=
    .digits (by decide : hexValue 100 = some 13) (by decide : hexValue 56 = some 8)
      (by decide : hexValue 51 = some 3) (by decide : hexValue 68 = some 13)
  have low : Spells (lit "DE00") (0xDC00 + 0x200) :=
    .digits (by decide : hexValue 68 = some 13) (by decide : hexValue 69 = some 14)
      (by decide : hexValue 48 = some 0) (by decide : hexValue 48 = some 0)
  exact .cons (.pair (Char.ofNat 0x1F600) high low (by decide) (by decide) (by decide)) .nil

theorem cJsonParseWithOpts_smile : ∃ valuestring : Text, valuestring.val = [0xF0, 0x9F, 0x98, 0x80] ∧
    cJsonParseWithOpts (D := Rat) (34 :: (lit "\\ud83D\\uDE00" ++ 34 :: 0 :: [])) true =
      .ok (.string valuestring, [0]) :=
  cJsonParseWithOpts_literal literal_smile (by decide) []

end DistStore.JsonEscapes

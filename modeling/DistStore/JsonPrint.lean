import DistStore.Lib.CNumber

/-!
# Printing with cJSON

`cJSON_Print` renders a tree of nodes with line feeds and tabs.  A node carries
the name under which it was added to an object; in an array it has none.  Every
allocation succeeds, and the numbers are integers.
-/

set_option autoImplicit false

namespace DistStore.JsonPrint

open CMemory

inductive CJson where
  | number (string : Bytes) (valueint : Int)
  | text (string valuestring : Bytes)
  | array (string : Bytes) (child : List CJson)
  | object (string : Bytes) (child : List CJson)

def CJson.string : CJson → Bytes
  | number string _ => string
  | text string _ => string
  | array string _ => string
  | object string _ => string

/-! ## Strings and numbers -/

def hexDigit (value : Nat) : Byte :=
  if value < 10 then UInt8.ofNat (48 + value) else UInt8.ofNat (87 + value)

/-- A byte between the quotes; the default of the switch prints `u%04x`. -/
def escapeByte (byte : Byte) : Bytes :=
  if 31 < byte ∧ byte ≠ 34 ∧ byte ≠ 92 then [byte]
  else if byte = 92 then lit "\\\\"
  else if byte = 34 then lit "\\\""
  else if byte = 8 then lit "\\b"
  else if byte = 12 then lit "\\f"
  else if byte = 10 then lit "\\n"
  else if byte = 13 then lit "\\r"
  else if byte = 9 then lit "\\t"
  else lit "\\u00" ++ [hexDigit (byte.toNat / 16), hexDigit (byte.toNat % 16)]

/-- The test for a byte to escape is made on signed characters. -/
def flagged (byte : Byte) : Bool := (0 < byte ∧ byte < 32) ∨ byte = 34 ∨ byte = 92

def printStringPtr (str : Bytes) : Bytes :=
  if str.any flagged then 34 :: (str.flatMap escapeByte ++ [34]) else 34 :: (str ++ [34])

def printNumber (valueint : Int) : Bytes := if valueint = 0 then lit "0" else decimal valueint

/-! ## Arrays and objects -/

def printArray (entries : List Bytes) : Bytes :=
  if entries = [] then lit "[]" else lit "[" ++ (lit ", ").intercalate entries ++ lit "]"

def tabs (depth : Nat) : Bytes := List.replicate depth 9

/-- The lines of an object from one entry on; the last one has no comma. -/
def printLines (depth : Nat) : List (Bytes × Bytes) → Bytes
  | [] => []
  | (name, value) :: rest =>
      tabs depth ++ name ++ lit ":\t" ++ value ++ (if rest = [] then [] else lit ",") ++ lit "\n" ++
        printLines depth rest

def printObject (depth : Nat) (entries : List (Bytes × Bytes)) : Bytes :=
  if entries = [] then lit "\x7b\n" ++ tabs (depth - 1) ++ lit "\x7d"
  else lit "\x7b\n" ++ printLines (depth + 1) entries ++ tabs depth ++ lit "\x7d"

mutual

def printValue (depth : Nat) : CJson → Bytes
  | .number _ valueint => printNumber valueint
  | .text _ valuestring => printStringPtr valuestring
  | .array _ child => printArray (printEntries (depth + 1) child)
  | .object _ child => printObject depth (printNamed (depth + 1) child)

def printEntries (depth : Nat) : List CJson → List Bytes
  | [] => []
  | child :: next => printValue depth child :: printEntries depth next

def printNamed (depth : Nat) : List CJson → List (Bytes × Bytes)
  | [] => []
  | child :: next => (printStringPtr child.string, printValue depth child) :: printNamed depth next

end

/-- `cJSON_Print`. -/
def cJsonPrint (item : CJson) : Bytes := printValue 0 item

/-! ## Lengths -/

def escapedLength (str : Bytes) : Nat := (str.flatMap escapeByte).length

theorem escapeByte_of_not_flagged {byte : Byte} (nonzero : byte ≠ 0) (plain : flagged byte = false) :
    escapeByte byte = [byte] := by
  have unescaped : ¬ (0 < byte ∧ byte < 32) ∧ byte ≠ 34 ∧ byte ≠ 92 := by
    simpa only [flagged, decide_eq_false_iff_not, not_or] using plain
  obtain ⟨noControl, noQuote, noBackslash⟩ := unescaped
  have positive : 0 < byte := by
    rw [UInt8.lt_iff_toNat_lt]
    exact Nat.pos_of_ne_zero fun zero => nonzero (UInt8.toNat_inj.mp zero)
  have printable : 31 < byte := by
    have large : ¬ byte < 32 := fun small => noControl ⟨positive, small⟩
    rw [UInt8.lt_iff_toNat_lt] at large ⊢
    exact Nat.lt_of_succ_le (Nat.le_of_not_lt large)
  exact if_pos ⟨printable, noQuote, noBackslash⟩

theorem printStringPtr_eq {str : Bytes} (nulFree : 0 ∉ str) :
    printStringPtr str = 34 :: (str.flatMap escapeByte ++ [34]) := by
  unfold printStringPtr
  by_cases escaped : str.any flagged = true
  · rw [if_pos escaped]
  · have same : str.flatMap escapeByte = str := by
      rw [List.any_eq_true, not_exists] at escaped
      have each : ∀ byte ∈ str, escapeByte byte = [byte] := by
        intro byte member
        have nonzero : byte ≠ 0 := fun zero => nulFree (zero ▸ member)
        have plain : flagged byte = false := by
          rw [Bool.eq_false_iff]
          exact fun isFlagged => escaped byte ⟨member, isFlagged⟩
        exact escapeByte_of_not_flagged nonzero plain
      rw [List.flatMap_congr each, List.flatMap_singleton']
    rw [if_neg escaped, same]

theorem printStringPtr_length {str : Bytes} (nulFree : 0 ∉ str) :
    (printStringPtr str).length = escapedLength str + 2 := by
  rw [printStringPtr_eq nulFree, List.length_cons, List.length_append]
  rfl

theorem printNumber_eq (valueint : Int) : printNumber valueint = decimal valueint := by
  unfold printNumber
  split
  next zero =>
    rw [zero]
    decide
  next => rfl

theorem intercalate_length (separator : Bytes) {entries : List Bytes} (nonempty : entries ≠ []) :
    (separator.intercalate entries).length + separator.length =
      (entries.map fun entry => entry.length + separator.length).sum := by
  induction entries with
  | nil => exact absurd rfl nonempty
  | cons entry rest inductionHypothesis =>
      cases rest with
      | nil => simp
      | cons next rest =>
          have later := inductionHypothesis (List.cons_ne_nil _ _)
          rw [List.intercalate_cons_cons, List.map_cons, List.sum_cons, ← later]
          simp only [List.length_append]
          omega

theorem printArray_length {entries : List Bytes} (nonempty : entries ≠ []) :
    (printArray entries).length = (entries.map fun entry => entry.length + 2).sum := by
  have brackets : (lit "[").length = 1 ∧ (lit "]").length = 1 ∧ (lit ", ").length = 2 := by decide
  have inside := intercalate_length (lit ", ") nonempty
  rw [brackets.2.2] at inside
  unfold printArray
  rw [if_neg nonempty, List.length_append, List.length_append, ← inside]
  omega

theorem printLines_length (depth : Nat) {entries : List (Bytes × Bytes)} (nonempty : entries ≠ []) :
    (printLines depth entries).length + 1 =
      (entries.map fun entry => depth + entry.1.length + entry.2.length + 4).sum := by
  have marks : (lit ":\t").length = 2 ∧ (lit ",").length = 1 ∧ (lit "\n").length = 1 := by decide
  induction entries with
  | nil => exact absurd rfl nonempty
  | cons entry rest inductionHypothesis =>
      have indent : (tabs depth).length = depth := List.length_replicate
      rw [printLines, List.map_cons, List.sum_cons]
      simp only [List.length_append, indent]
      cases rest with
      | nil =>
          rw [if_pos rfl, List.map_nil, List.sum_nil, printLines, List.length_nil]
          omega
      | cons next rest =>
          have later := inductionHypothesis (List.cons_ne_nil _ _)
          rw [if_neg (List.cons_ne_nil _ _), ← later]
          omega

theorem printObject_length (depth : Nat) {entries : List (Bytes × Bytes)} (nonempty : entries ≠ []) :
    (printObject depth entries).length = depth + 2 +
      (entries.map fun entry => depth + 1 + entry.1.length + entry.2.length + 4).sum := by
  have braces : (lit "\x7b\n").length = 2 ∧ (lit "\x7d").length = 1 := by decide
  have indent : (tabs depth).length = depth := List.length_replicate
  unfold printObject
  rw [if_neg nonempty, List.length_append, List.length_append, List.length_append, indent,
    ← printLines_length (depth + 1) nonempty]
  omega

end DistStore.JsonPrint

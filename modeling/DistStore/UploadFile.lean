import DistStore.Environment
import DistStore.Lib.CNumber

/-!
# `upload_file`

The body of the request is taken apart by position: the name stands behind the
first `filename="` and before the end of the second line, the data between the
end of the fourth line and two bytes before the first run of nine dashes.
-/

set_option autoImplicit false

namespace DistStore.UploadFile

open CMemory ListSearch Program Environment

def filenameSize : Nat := 256

def crlf : Bytes := [13, 10]

theorem crlf_nulFree : 0 ∉ crlf := by decide

theorem crlf_length : crlf.length = 2 := rfl

/-- `key1` of `upload_file`. -/
def dashes : Bytes := lit "---------"

def filenameKey : Bytes := lit "filename="

theorem filenameKey_length : filenameKey.length = 9 := by decide

/-- The loop of `memstr` over its candidate positions; `memcmp` compares `size`
bytes. -/
def memstrLoop (memory substr : Bytes) (size : Nat) : Nat → Nat → C (Option Nat)
  | 0, _ => .ok none
  | count + 1, cur => do
      let byte ← byteAt memory cur
      if substr.head? = some byte then
        let bytes ← bytesAt memory cur size
        if bytes = substr.take size then return some cur
        else memstrLoop memory substr size count (cur + 1)
      else memstrLoop memory substr size count (cur + 1)

/-- `memstr`; the length of `substr` is kept in an `int`. -/
def memstr (memory : Bytes) (fullData : Nat) (fullDataLen : Int) (substr : Bytes) :
    C (Option Nat) :=
  if fullDataLen ≤ 0 then .ok none
  else if substr = [] then .ok none
  else do
    let sublen := toInt substr.length
    let less ← checkInt (fullDataLen - sublen)
    let lastPossible ← checkInt (less + 1)
    memstrLoop memory substr (toSize sublen) lastPossible.toNat fullData

/-- Passes of `s = strstr(q, "\r\n"); q = s + 1;`. -/
def lineLoop (src : Bytes) : Nat → Nat → C Nat
  | 0, q => .ok q
  | passes + 1, q => do
      let s ← deref (← strstr src q crlf)
      lineLoop src passes (s + 1)

/-- The file name is put into its buffer. -/
def takeName (src filename : Bytes) : C Bytes := do
  let found ← deref (← strstr src 0 filenameKey)
  let p := found + 10
  let q ← lineLoop src 2 0
  let nameLen := toInt ((q : Int) - 2 - p)
  let cleared ← memset filename 0 0 (nameLen + 1)
  let copied ← strncpy cleared 0 src p nameLen
  store copied nameLen.toNat [0]

/-- The pointer `p` to the data and its length `len2`. -/
def takeData (src : Bytes) (len : Int) : C (Nat × Int) := do
  let q ← lineLoop src 4 0
  let p := q - 1 + 2
  let len1 := toInt (len - p)
  let s ← deref (← memstr src p len1 dashes)
  return (p, toInt ((s : Int) - 2 - p))

/-- `upload_file`: the returned code and the buffer of the name.  The length
given to `fwrite` is converted to `size_t`. -/
def uploadFile (src : Bytes) (len : Int) (sFilename : Bytes) : Code (Int × Bytes) := do
  let filename ← ofC (takeName src sFilename)
  let (p, len2) ← ofC (takeData src len)
  let path ← ofC (strAt filename 0)
  match ← ask (.fopen path) with
  | false => return (-1, filename)
  | true =>
      let data ← ofC (bytesAt src p (toSize len2))
      let _ ← ask (.fwrite data)
      let _ ← ask .fclose
      return (0, filename)

/-- The calls of `upload_file`. -/
def UploadCall (src sFilename : Bytes) : Call → Prop
  | .fopen path => ∃ filename, takeName src sFilename = .ok filename ∧ strAt filename 0 = .ok path
  | .fwrite _ => True
  | .fclose => True
  | _ => False

theorem uploadFile_satisfies (env : Env) (src : Bytes) (len : Int) (sFilename : Bytes) :
    (uploadFile src len sFilename).Satisfies env (UploadCall src sFilename)
      fun result => takeName src sFilename = .ok result.2 := by
  refine satisfies_ofC_bind fun filename named => ?_
  refine satisfies_ofC_bind ?_
  rintro ⟨p, len2⟩ -
  refine satisfies_ofC_bind fun path pathAt => ?_
  refine satisfies_ask_bind ⟨filename, named, pathAt⟩ ?_
  cases env (.fopen path) with
  | false => exact Prog.satisfies_ret named
  | true =>
      refine satisfies_ofC_bind fun data _ => ?_
      exact satisfies_ask_bind trivial (satisfies_ask_bind trivial (Prog.satisfies_ret named))

theorem takeName_length {src sFilename filename : Bytes}
    (named : takeName src sFilename = .ok filename) : filename.length = sFilename.length := by
  obtain ⟨found, -, afterFound⟩ := (bind_eq_ok_iff _ _ _).mp named
  obtain ⟨position, -, afterPosition⟩ := (bind_eq_ok_iff _ _ _).mp afterFound
  obtain ⟨q, -, afterLoop⟩ := (bind_eq_ok_iff _ _ _).mp afterPosition
  obtain ⟨cleared, clears, afterClear⟩ := (bind_eq_ok_iff _ _ _).mp afterLoop
  obtain ⟨copied, copies, ends⟩ := (bind_eq_ok_iff _ _ _).mp afterClear
  rw [store_length ends, strncpy_length copies, memset_length clears]

/-! ## The searches -/

/-- One candidate position of `memstr`. -/
theorem memstrLoop_succ {memory substr : Bytes} (nonempty : substr ≠ []) (count cur : Nat)
    (inside : cur + substr.length ≤ memory.length) :
    memstrLoop memory substr substr.length (count + 1) cur =
      if substr <+: memory.drop cur then .ok (some cur)
      else memstrLoop memory substr substr.length count (cur + 1) := by
  have positive : 0 < substr.length := List.length_pos_iff.mpr nonempty
  have present : cur < memory.length := by omega
  have read : byteAt memory cur = .ok memory[cur] := by
    simp [byteAt, List.getElem?_eq_getElem present]
  have compared : bytesAt memory cur substr.length = .ok ((memory.drop cur).take substr.length) :=
    if_pos inside
  have head : (memory.drop cur).head? = some memory[cur] := by
    rw [List.head?_drop, List.getElem?_eq_getElem present]
  rw [memstrLoop, read, ok_bind, compared, ok_bind, List.take_length]
  by_cases occurs : substr <+: memory.drop cur
  · have same : substr.head? = some memory[cur] := by
      obtain ⟨rest, shape⟩ := occurs
      rw [← head, ← shape, List.head?_append_of_ne_nil _ nonempty]
    rw [if_pos occurs, if_pos same, if_pos (List.prefix_iff_eq_take.mp occurs).symm]
    rfl
  · have different : (memory.drop cur).take substr.length ≠ substr := fun same =>
      occurs (List.prefix_iff_eq_take.mpr same.symm)
    rw [if_neg occurs, if_neg different, ite_self]

theorem memstrLoop_eq {memory substr : Bytes} (nonempty : substr ≠ []) (count cur : Nat)
    (inside : cur + count + substr.length ≤ memory.length + 1) :
    memstrLoop memory substr substr.length count cur =
      .ok ((find substr ((memory.drop cur).take (count + substr.length - 1))).map (cur + ·)) := by
  have positive : 0 < substr.length := List.length_pos_iff.mpr nonempty
  induction count generalizing cur with
  | zero =>
      have absent : find substr ((memory.drop cur).take (0 + substr.length - 1)) = none := by
        rw [find_eq_none_iff]
        intro occurs
        have short := occurs.length_le
        rw [List.length_take] at short
        omega
      rw [memstrLoop, absent]
      rfl
  | succ count inductionHypothesis =>
      have present : cur < memory.length := by omega
      have window : (memory.drop cur).take (count + 1 + substr.length - 1) =
          memory[cur] :: (memory.drop (cur + 1)).take (count + substr.length - 1) := by
        rw [List.drop_eq_getElem_cons present,
          show count + 1 + substr.length - 1 = count + substr.length - 1 + 1 by omega,
          List.take_succ_cons]
      have here : substr <+: memory[cur] :: (memory.drop (cur + 1)).take
          (count + substr.length - 1) ↔ substr <+: memory.drop cur := by
        rw [← window, List.prefix_take_iff]
        exact and_iff_left (by omega)
      rw [memstrLoop_succ nonempty count cur (by omega), window, find]
      by_cases occurs : substr <+: memory.drop cur
      · rw [if_pos occurs, if_pos (here.mpr occurs)]
        rfl
      · rw [if_neg occurs, if_neg (fun found => occurs (here.mp found)),
          inductionHypothesis (cur + 1) (by omega), Option.map_map]
        congr 2
        funext offset
        simp only [Function.comp]
        omega

/-- `memstr` finds the first occurrence inside the given length. -/
theorem memstr_eq {memory substr : Bytes} (nonempty : substr ≠ []) (small : substr.length < 2 ^ 31)
    (fullData length : Nat) (isInt : length < 2 ^ 31) (inside : fullData + length ≤ memory.length) :
    memstr memory fullData length substr =
      .ok ((find substr ((memory.drop fullData).take length)).map (fullData + ·)) := by
  have positive : 0 < substr.length := List.length_pos_iff.mpr nonempty
  have sublen : toInt substr.length = substr.length := toInt_of_isInt ⟨by omega, by omega⟩
  have less : checkInt ((length : Int) - substr.length) = .ok ((length : Int) - substr.length) :=
    checkInt_of_isInt ⟨by omega, by omega⟩
  have last : checkInt ((length : Int) - substr.length + 1) =
      .ok ((length : Int) - substr.length + 1) := checkInt_of_isInt ⟨by omega, by omega⟩
  have size : toSize (substr.length : Int) = substr.length := toSize_natCast (by omega)
  have searched : memstr memory fullData length substr =
      if (length : Int) ≤ 0 then .ok none
      else memstrLoop memory substr substr.length ((length : Int) - substr.length + 1).toNat
        fullData := by
    rw [memstr, if_neg nonempty]
    simp only [sublen, less, last, size, ok_bind]
  rw [searched]
  by_cases short : length < substr.length
  · have absent : find substr ((memory.drop fullData).take length) = none := by
      rw [find_eq_none_iff]
      intro occurs
      have fits := occurs.length_le
      rw [List.length_take] at fits
      omega
    have noPass : ((length : Int) - substr.length + 1).toNat = 0 := by omega
    rw [noPass, memstrLoop, absent, ite_self]
    rfl
  · have passes : ((length : Int) - substr.length + 1).toNat = length - substr.length + 1 := by
      omega
    rw [if_neg (by omega), passes, memstrLoop_eq nonempty _ _ (by omega),
      show length - substr.length + 1 + substr.length - 1 = length by omega]

/-- The needle stands at an offset, inside the data. -/
def OccursAt (data substr : Bytes) (offset : Nat) : Prop :=
  offset + substr.length ≤ data.length ∧ (data.drop offset).take substr.length = substr

theorem occursAt_iff {data substr : Bytes} (offset : Nat) (nonempty : substr ≠ []) :
    OccursAt data substr offset ↔ offset ≤ data.length ∧ substr <+: data.drop offset := by
  have positive : 0 < substr.length := List.length_pos_iff.mpr nonempty
  unfold OccursAt
  rw [List.prefix_iff_eq_take, eq_comm (a := substr)]
  constructor
  · intro ⟨inside, same⟩
    exact ⟨by omega, same⟩
  · intro ⟨inside, same⟩
    have fits := congrArg List.length same
    rw [List.length_take, List.length_drop] at fits
    exact ⟨by omega, same⟩

/-- The first place of the needle, found without reading behind the data. -/
theorem memstr_first {data substr : Bytes} (before : Bytes) (isInt : data.length < 2 ^ 31)
    (nonempty : substr ≠ []) (small : substr.length < 2 ^ 31) :
    ∃ result, memstr (before ++ data) before.length data.length substr = .ok result ∧
      (∀ offset, result = some (before.length + offset) ↔
        OccursAt data substr offset ∧ ∀ earlier < offset, ¬ OccursAt data substr earlier) ∧
      (∀ pointer, result = some pointer → before.length ≤ pointer) ∧
      (result = none ↔ ∀ offset, ¬ OccursAt data substr offset) := by
  have inside : before.length + data.length ≤ (before ++ data).length := List.length_append.ge
  have searched := memstr_eq nonempty small before.length data.length isInt inside
  rw [List.drop_left, List.take_length] at searched
  refine ⟨_, searched, ?_, ?_, ?_⟩
  · intro offset
    have same : (find substr data).map (before.length + ·) = some (before.length + offset) ↔
        find substr data = some offset := by
      rw [Option.map_eq_some_iff]
      constructor
      · intro ⟨other, found, shifted⟩
        rw [found, Nat.add_left_cancel shifted]
      · intro found
        exact ⟨offset, found, rfl⟩
    rw [same, find_eq_some_iff, occursAt_iff offset nonempty, and_assoc]
    apply and_congr_right
    intro within
    apply and_congr_right
    intro _
    apply forall₂_congr
    intro earlier less
    rw [occursAt_iff earlier nonempty]
    exact not_congr (and_iff_right (by omega)).symm
  · intro pointer found
    obtain ⟨offset, -, rfl⟩ := Option.map_eq_some_iff.mp found
    exact Nat.le_add_right _ _
  · rw [Option.map_eq_none_iff, find_eq_none_iff, infix_iff_prefix_drop, not_exists]
    apply forall_congr'
    intro offset
    rw [occursAt_iff offset nonempty]

theorem memstr_first_last_byte :
    ∃ result, memstr ([7] ++ [0, 120]) [(7 : Byte)].length [(0 : Byte), 120].length [120] =
        .ok result ∧
      (∀ offset, result = some ([(7 : Byte)].length + offset) ↔
        OccursAt [0, 120] [120] offset ∧ ∀ earlier < offset, ¬ OccursAt [0, 120] [120] earlier) ∧
      (∀ pointer, result = some pointer → [(7 : Byte)].length ≤ pointer) ∧
      (result = none ↔ ∀ offset, ¬ OccursAt [0, 120] [120] offset) :=
  memstr_first [7] (by decide) (by decide) (by decide)

/-- A needle of `2 ^ 32 + 1` bytes counts as one of a single byte. -/
theorem memstr_cut {count : Nat} (positive : 0 < count) (cut : toInt count = 1) :
    memstr [120] 0 1 (List.replicate count 120) = .ok (some 0) := by
  have nonempty : List.replicate count (120 : Byte) ≠ [] := by
    rw [Ne, List.replicate_eq_nil_iff]
    omega
  have head : (List.replicate count (120 : Byte)).head? = some 120 := by
    rw [List.head?_replicate, if_neg (by omega)]
  have first : (List.replicate count (120 : Byte)).take 1 = [120] := by
    rw [List.take_replicate, Nat.min_eq_left positive]
    rfl
  have size : toSize 1 = 1 := by decide
  have less : checkInt (1 - 1) = .ok 0 := by decide
  have last : checkInt (0 + 1) = .ok 1 := by decide
  rw [memstr, if_neg (by decide), if_neg nonempty, List.length_replicate]
  have compared : memstrLoop [120] (List.replicate count 120) 1 (1 : Int).toNat 0 = .ok (some 0) := by
    rw [show (1 : Int).toNat = 1 from rfl, memstrLoop, head, first]
    rfl
  have sublen : toInt ((count : Nat) : Int) = 1 := cut
  simp only [sublen, less, last, size, ok_bind, compared]

/-- The data is shorter than the needle, which is found in it all the same. -/
theorem memstr_found_in_shorter :
    memstr [120] 0 1 (List.replicate (2 ^ 32 + 1) 120) = .ok (some 0) ∧
      ∀ offset, ¬ OccursAt [120] (List.replicate (2 ^ 32 + 1) 120) offset := by
  refine ⟨memstr_cut (by decide) (by decide), ?_⟩
  intro offset occurs
  have fits := occurs.1
  rw [List.length_replicate, List.length_singleton] at fits
  omega

/-! ## Lines -/

/-- Lines with their ends, and what follows them. -/
def framed : List Bytes → Bytes → Bytes
  | [], rest => rest
  | line :: lines, rest => line ++ (crlf ++ framed lines rest)

def IsLine (line : Bytes) : Prop := ¬ crlf <:+: line

instance (line : Bytes) : Decidable (IsLine line) :=
  inferInstanceAs (Decidable (¬ _))

/-- A search starts at the start of a line or on the line feed before it. -/
def Lead (lead : Bytes) : Prop := lead = [] ∨ lead = [10]

theorem lead_isLine {lead line : Bytes} (isLead : Lead lead) (isLine : IsLine line) :
    IsLine (lead ++ line) := by
  cases isLead with
  | inl empty => rwa [empty, List.nil_append]
  | inr feed =>
      intro occurs
      rw [feed, List.singleton_append, List.infix_cons_iff] at occurs
      cases occurs with
      | inl first =>
          have same := (List.cons_prefix_cons.mp first).1
          revert same
          decide
      | inr inside => exact isLine inside

theorem find_crlf {line : Bytes} (isLine : IsLine line) (after : Bytes) :
    find crlf (line ++ (crlf ++ after)) = some line.length := by
  refine find_append_key (by decide) after ?_
  intro occurs
  have shape : line ++ crlf.dropLast = line ++ [13] := rfl
  rw [shape, List.infix_concat_iff] at occurs
  cases occurs with
  | inl ends =>
      have last := ends.getLast (show crlf ≠ [] by decide)
      rw [List.getLast_append_singleton] at last
      revert last
      decide
  | inr inside => exact isLine inside

section Walk

variable {src lead line after : Bytes} {q : Nat}

theorem strstr_crlf (isLead : Lead lead) (isLine : IsLine line) (nulFree : 0 ∉ line)
    (ends : 0 ∈ after) (shape : src.drop q = lead ++ (line ++ (crlf ++ after))) :
    strstr src q crlf = .ok (some (q + (lead ++ line).length)) := by
  obtain ⟨text, rest, split, textFree⟩ := List.eq_append_cons_of_mem ends
  have leadFree : 0 ∉ lead := by
    cases isLead with
    | inl empty => simp [empty]
    | inr feed => simp [feed]
  have holds : strAt src q = .ok (lead ++ line ++ (crlf ++ text)) :=
    (strAt_eq_ok_iff _ _ _).mpr ⟨by simp [leadFree, nulFree, crlf_nulFree, textFree], rest, by
      rw [shape, split]
      simp only [List.append_assoc]⟩
  rw [strstr_of_strAt crlf holds, find_crlf (lead_isLine isLead isLine)]
  rfl

/-- A NUL in the line hides its end. -/
theorem strstr_crlf_hidden (isLead : Lead lead) (isLine : IsLine line) (hidden : 0 ∈ line)
    (shape : src.drop q = lead ++ (line ++ (crlf ++ after))) :
    strstr src q crlf = .ok none := by
  obtain ⟨text, rest, split, textFree⟩ := List.eq_append_cons_of_mem hidden
  have leadFree : 0 ∉ lead := by
    cases isLead with
    | inl empty => simp [empty]
    | inr feed => simp [feed]
  have holds : strAt src q = .ok (lead ++ text) :=
    (strAt_eq_ok_iff _ _ _).mpr ⟨by simp [leadFree, textFree], rest ++ (crlf ++ after), by
      rw [shape, split]
      simp only [List.append_assoc, List.cons_append]⟩
  have inside : lead ++ text <:+: lead ++ line :=
    ⟨[], 0 :: rest, by rw [split]; simp only [List.nil_append, List.append_assoc]⟩
  have absent : find crlf (lead ++ text) = none :=
    (find_eq_none_iff _ _).mpr fun occurs => lead_isLine isLead isLine (occurs.trans inside)
  rw [strstr_of_strAt crlf holds, absent]
  rfl

theorem drop_line_end (shape : src.drop q = lead ++ (line ++ (crlf ++ after))) :
    src.drop (q + (lead ++ line).length + 1) = [10] ++ after := by
  rw [Nat.add_assoc, ← List.drop_drop, ← List.drop_drop, shape, ← List.append_assoc,
    List.drop_left]
  rfl

/-- As many passes as there are lines end on the line feed of the last one,
unless a NUL hides one of the ends. -/
theorem lineLoop_eq (lines : List Bytes) {rest : Bytes} (isLead : Lead lead)
    (areLines : ∀ other ∈ line :: lines, IsLine other) (ends : 0 ∈ rest)
    (shape : src.drop q = lead ++ framed (line :: lines) rest) :
    lineLoop src (lines.length + 1) q =
      if ∀ other ∈ line :: lines, 0 ∉ other then
        .ok (q + (lead ++ framed (line :: lines) []).length - 1)
      else .error .nullPointer := by
  induction lines generalizing lead line q with
  | nil =>
      have isLine := areLines line (by simp)
      by_cases hidden : 0 ∈ line
      · rw [if_neg (fun free => free line (by simp) hidden), lineLoop,
          strstr_crlf_hidden isLead isLine hidden shape]
        rfl
      · rw [if_pos (by simpa using hidden), lineLoop,
          strstr_crlf isLead isLine hidden ends shape]
        simp only [ok_bind, deref_some, framed, List.length_append, List.append_nil]
        rfl
  | cons next lines inductionHypothesis =>
      have isLine := areLines line (by simp)
      have laterLines : ∀ other ∈ next :: lines, IsLine other :=
        fun other member => areLines other (List.mem_cons_of_mem _ member)
      have later : 0 ∈ framed (next :: lines) rest := by
        clear inductionHypothesis areLines laterLines shape
        generalize next :: lines = all
        induction all with
        | nil => exact ends
        | cons head tail inFramed => simp [framed, inFramed]
      by_cases hidden : 0 ∈ line
      · rw [if_neg (fun free => free line (by simp) hidden), List.length_cons, lineLoop,
          strstr_crlf_hidden isLead isLine hidden shape]
        rfl
      · have walked := inductionHypothesis (Or.inr rfl) laterLines (drop_line_end shape)
        rw [List.length_cons, lineLoop, strstr_crlf isLead isLine hidden later shape, ok_bind,
          deref_some, ok_bind, walked]
        simp only [List.forall_mem_cons, hidden, not_false_eq_true, true_and]
        congr 2
        simp only [framed, List.length_append, List.length_singleton]
        have two := crlf_length
        omega

end Walk

/-! ## The body of a single file -/

section Body

variable (boundary disposition name contentType data : Bytes)

def delimiter : Bytes := lit "--" ++ boundary

/-- A line that ends in `filename="NAME"`. -/
def dispositionLine : Bytes := disposition ++ (filenameKey ++ (34 :: (name ++ [34])))

def headerLines : List Bytes :=
  [delimiter boundary, dispositionLine disposition name, contentType, []]

def dataPart : Bytes := data ++ (crlf ++ (delimiter boundary ++ (lit "--" ++ crlf)))

def body : Bytes :=
  framed (headerLines boundary disposition name contentType) (dataPart boundary data)

/-- The lines in which the name is searched for. -/
def nameLines : Bytes := delimiter boundary ++ (crlf ++ dispositionLine disposition name)

theorem nameLines_occurs : ∃ offset,
    find filenameKey (nameLines boundary disposition name) = some offset ∧
      offset + 11 ≤ (nameLines boundary disposition name).length := by
  have shape : nameLines boundary disposition name =
      (delimiter boundary ++ (crlf ++ disposition)) ++
        (filenameKey ++ (34 :: (name ++ [34]))) := by
    simp only [nameLines, dispositionLine, List.append_assoc]
  obtain ⟨offset, inside, found⟩ := find_le_of_append_key filenameKey
    (delimiter boundary ++ (crlf ++ disposition)) (34 :: (name ++ [34]))
  refine ⟨offset, by rw [shape, found], ?_⟩
  have nine := filenameKey_length
  rw [shape]
  simp only [List.length_append, List.length_cons, List.length_nil] at inside ⊢
  omega

variable {boundary disposition name contentType data}

/-- What `upload_file` takes for the name: the text from behind the first
`filename="` to before the last byte of the line. -/
def takenName (lines : Bytes) : Bytes :=
  match find filenameKey lines with
  | some offset => (lines.drop (offset + 10)).dropLast
  | none => []

theorem framed_append (lines : List Bytes) (rest after : Bytes) :
    framed lines rest ++ after = framed lines (rest ++ after) := by
  induction lines with
  | nil => rfl
  | cons line lines inductionHypothesis =>
      simp only [framed, List.append_assoc, inductionHypothesis]

theorem framed_length (lines : List Bytes) (rest : Bytes) :
    (framed lines rest).length = (framed lines []).length + rest.length := by
  have split := framed_append lines [] rest
  rw [List.nil_append] at split
  rw [← split, List.length_append]

theorem drop_framed (lines : List Bytes) (rest : Bytes) :
    (framed lines rest).drop (framed lines []).length = rest := by
  have split := framed_append lines [] rest
  rw [List.nil_append] at split
  rw [← split, List.drop_left]

theorem takenName_subset (lines : Bytes) : takenName lines ⊆ lines := by
  rw [takenName]
  split
  · exact fun _ member => List.mem_of_mem_drop (List.mem_of_mem_dropLast member)
  · exact List.nil_subset lines

theorem takenName_length {lines : Bytes} {offset : Nat}
    (found : find filenameKey lines = some offset) :
    (takenName lines).length = lines.length - (offset + 11) := by
  rw [takenName, found]
  simp only [List.length_dropLast, List.length_drop]
  omega

/-- The name is the same with the rest of the body behind the lines. -/
theorem take_takenName {lines : Bytes} {offset : Nat}
    (found : find filenameKey lines = some offset) (inside : offset + 11 ≤ lines.length)
    (rest : Bytes) :
    ((lines ++ rest).drop (offset + 10)).take (takenName lines).length = takenName lines := by
  have count : (takenName lines).length = (lines.drop (offset + 10)).length - 1 := by
    rw [takenName_length found, List.length_drop]
    omega
  have short : (takenName lines).length ≤ (lines.drop (offset + 10)).length := by omega
  rw [List.drop_append_of_le_length (by omega), List.take_append_of_le_length short, count,
    takenName, found]
  exact List.dropLast_eq_take.symm

/-- The name is copied where it fits the target with its NUL. -/
theorem takeName_of_lines {src lines rest : Bytes} {offset : Nat}
    (holds : strAt src 0 = .ok (lines ++ rest)) (found : find filenameKey lines = some offset)
    (inside : offset + 11 ≤ lines.length) (walked : lineLoop src 2 0 = .ok (lines.length + 1))
    (small : (takenName lines).length < 2 ^ 31) (target : Bytes) :
    takeName src target =
      if (takenName lines).length < target.length then
        .ok (takenName lines ++ 0 :: target.drop ((takenName lines).length + 1))
      else .error .writeOutside := by
  have length := takenName_length found
  have there := strAt_drop holds
    (show offset + 10 ≤ (lines ++ rest).length by rw [List.length_append]; omega)
  have nameLen : toInt (((lines.length + 1 : Nat) : Int) - 2 - (offset + 10 : Nat)) =
      (takenName lines).length := by
    rw [toInt_of_isInt ⟨by omega, by omega⟩]
    omega
  simp only [takeName, strstr_of_strAt filenameKey holds, find_append_right found, ok_bind,
    Option.map_some, deref_some, walked, Nat.zero_add, nameLen, Int.toNat_natCast, memset_front]
  by_cases fits : (takenName lines).length < target.length
  · have cleared : (zeros ((takenName lines).length + 1) ++
        target.drop ((takenName lines).length + 1)).length = target.length := by
      simp only [zeros, List.length_append, List.length_replicate, List.length_drop]
      omega
    have short : (takenName lines).length ≤ ((lines ++ rest).drop (offset + 10)).length := by
      rw [List.length_drop, List.length_append]
      omega
    rw [if_pos fits, ok_bind, strncpy_terminated there short, cleared, if_pos fits, if_pos fits,
      take_takenName found inside, overwrite, List.drop_left' (by simp [zeros])]
  · rw [if_neg fits, if_neg fits, error_bind]

section NameLines

variable {first second rest : Bytes}

theorem strAt_nameLines (firstFree : 0 ∉ first) (secondFree : 0 ∉ second) (ends : 0 ∈ rest) :
    ∃ more, strAt (framed [first, second] rest) 0 =
      .ok (first ++ (crlf ++ second) ++ (crlf ++ more)) := by
  obtain ⟨more, tail, split, moreFree⟩ := List.eq_append_cons_of_mem ends
  refine ⟨more, (strAt_eq_ok_iff _ _ _).mpr
    ⟨by simp [firstFree, secondFree, crlf_nulFree, moreFree], tail, ?_⟩⟩
  rw [split, List.drop_zero]
  simp only [framed, List.append_assoc]

theorem lineLoop_nameLines (firstLine : IsLine first) (secondLine : IsLine second)
    (firstFree : 0 ∉ first) (secondFree : 0 ∉ second) (ends : 0 ∈ rest) :
    lineLoop (framed [first, second] rest) 2 0 = .ok ((first ++ (crlf ++ second)).length + 1) := by
  have started : (framed [first, second] rest).drop 0 = [] ++ framed [first, second] rest := rfl
  have looped := lineLoop_eq [second] (Or.inl rfl)
    (by simpa using ⟨firstLine, secondLine⟩) ends started
  rw [if_pos (by simpa using ⟨firstFree, secondFree⟩)] at looped
  refine looped.trans (congrArg Except.ok ?_)
  have two := crlf_length
  simp only [framed, List.nil_append, List.append_nil, List.length_append]
  omega

/-- The name is taken from the first two lines, whatever follows them. -/
theorem takeName_framed {offset : Nat} (firstLine : IsLine first)
    (secondLine : IsLine second) (firstFree : 0 ∉ first) (secondFree : 0 ∉ second)
    (ends : 0 ∈ rest) (found : find filenameKey (first ++ (crlf ++ second)) = some offset)
    (inside : offset + 11 ≤ (first ++ (crlf ++ second)).length)
    (small : (takenName (first ++ (crlf ++ second))).length < 2 ^ 31) (target : Bytes) :
    takeName (framed [first, second] rest) target =
      if (takenName (first ++ (crlf ++ second))).length < target.length then
        .ok (takenName (first ++ (crlf ++ second)) ++
          0 :: target.drop ((takenName (first ++ (crlf ++ second))).length + 1))
      else .error .writeOutside := by
  obtain ⟨more, holds⟩ := strAt_nameLines firstFree secondFree ends
  exact takeName_of_lines holds found inside
    (lineLoop_nameLines firstLine secondLine firstFree secondFree ends) small target

end NameLines

theorem takeName_eq (delimiterLine : IsLine (delimiter boundary))
    (nameLine : IsLine (dispositionLine disposition name))
    (delimiterFree : 0 ∉ delimiter boundary) (nameFree : 0 ∉ dispositionLine disposition name)
    (isInt : IsInt (body boundary disposition name contentType data).length) (target : Bytes) :
    takeName (body boundary disposition name contentType data ++ [0]) target =
      if (takenName (nameLines boundary disposition name)).length < target.length then
        .ok (takenName (nameLines boundary disposition name) ++
          0 :: target.drop ((takenName (nameLines boundary disposition name)).length + 1))
      else .error .writeOutside := by
  obtain ⟨offset, found, inside⟩ := nameLines_occurs boundary disposition name
  have small : (takenName (nameLines boundary disposition name)).length < 2 ^ 31 := by
    have upper := isInt.2
    rw [takenName_length found]
    simp only [body, headerLines, framed, nameLines, List.length_append] at upper ⊢
    omega
  have shape : body boundary disposition name contentType data ++ [0] =
      framed [delimiter boundary, dispositionLine disposition name]
        (framed [contentType, []] (dataPart boundary data ++ [0])) := by
    rw [body, framed_append]
    rfl
  have ends : 0 ∈ framed [contentType, []] (dataPart boundary data ++ [0]) := by simp [framed]
  rw [shape]
  exact takeName_framed delimiterLine nameLine delimiterFree nameFree ends found inside small target

theorem data_inside (boundary data : Bytes) :
    data.length + 2 ≤ (dataPart boundary data).length := by
  simp only [dataPart, crlf, List.length_append, List.length_cons, List.length_nil]
  omega

theorem body_length (boundary disposition name contentType data : Bytes) :
    (body boundary disposition name contentType data).length =
      (framed (headerLines boundary disposition name contentType) []).length +
        (dataPart boundary data).length :=
  framed_length _ _

theorem find_dashes_iff :
    find dashes (dataPart boundary data) = some (data.length + 2) ↔
      dashes <+: delimiter boundary ++ lit "--" ∧ ¬ dashes <:+: data := by
  have noReturn : (13 : Byte) ∉ dashes := by decide
  have noFeed : (10 : Byte) ∉ dashes := by decide
  have behind : (dataPart boundary data).drop (data.length + 2) =
      (delimiter boundary ++ lit "--") ++ 13 :: [10] := by
    rw [dataPart, ← List.drop_drop, List.drop_left, List.append_assoc]
    rfl
  have within : ∀ offset, offset ≤ data.length →
      (dashes <+: (dataPart boundary data).drop offset ↔ dashes <+: data.drop offset) := by
    intro offset inside
    rw [dataPart, List.drop_append_of_le_length inside]
    exact prefix_append_cons_iff noReturn _ _
  have onFeed : ¬ dashes <+: (dataPart boundary data).drop (data.length + 1) := by
    rw [dataPart, ← List.drop_drop, List.drop_left]
    intro occurs
    exact absurd (List.cons_prefix_cons.mp occurs).1 (by decide)
  rw [find_eq_some_iff, behind, prefix_append_cons_iff noReturn]
  constructor
  · rintro ⟨-, here, first⟩
    refine ⟨here, fun occurs => ?_⟩
    obtain ⟨offset, inside, found⟩ := (infix_iff_prefix_drop _ _).mp occurs
    exact first offset (by omega) ((within offset inside).mpr found)
  · rintro ⟨here, absent⟩
    refine ⟨data_inside boundary data, here, fun earlier before occurs => ?_⟩
    by_cases inside : earlier ≤ data.length
    · exact absent ((infix_iff_prefix_drop _ _).mpr
        ⟨earlier, inside, (within earlier inside).mp occurs⟩)
    · have onIt : earlier = data.length + 1 := by omega
      subst onIt
      exact onFeed occurs

theorem drop_headers :
    (body boundary disposition name contentType data ++ [0]).drop
        (framed (headerLines boundary disposition name contentType) []).length =
      dataPart boundary data ++ [0] := by
  rw [body, framed_append, drop_framed]

/-- The pointer `p` to the data. -/
def dataStart (src : Bytes) : C Nat := do
  let q ← lineLoop src 4 0
  return q - 1 + 2

theorem takeData_dataStart (src : Bytes) (len : Int) :
    takeData src len = (do
      let p ← dataStart src
      let s ← deref (← memstr src p (toInt (len - p)) dashes)
      return (p, toInt ((s : Int) - 2 - p))) := by
  rw [takeData, dataStart]
  cases lineLoop src 4 0 <;> rfl

section Framed

variable {first second third fourth rest : Bytes}

/-- The data starts behind the fourth line. -/
theorem dataStart_framed (areLines : ∀ line ∈ [first, second, third, fourth], IsLine line)
    (ends : 0 ∈ rest) :
    dataStart (framed [first, second, third, fourth] rest) =
      if ∀ line ∈ [first, second, third, fourth], 0 ∉ line then
        .ok (framed [first, second, third, fourth] []).length
      else .error .nullPointer := by
  have started : (framed [first, second, third, fourth] rest).drop 0 =
      [] ++ framed [first, second, third, fourth] rest := rfl
  have looped : lineLoop (framed [first, second, third, fourth] rest) 4 0 = _ :=
    lineLoop_eq [second, third, fourth] (Or.inl rfl) areLines ends started
  have two : 2 ≤ (framed [first, second, third, fourth] []).length := by
    simp only [framed, crlf, List.length_append, List.length_cons, List.length_nil]
    omega
  rw [dataStart, looped]
  refine bounded_bind (fun free => ?_) id
  rw [if_pos free, List.nil_append]
  refine congrArg Except.ok ?_
  omega

/-- The dashes are searched from the start of the data to the end of the body. -/
theorem memstr_framed (isInt : IsInt (framed [first, second, third, fourth] rest).length) :
    memstr (framed [first, second, third, fourth] (rest ++ [0]))
        (framed [first, second, third, fourth] []).length
        (toInt (((framed [first, second, third, fourth] rest).length : Int) -
          (framed [first, second, third, fourth] []).length)) dashes =
      .ok ((find dashes rest).map ((framed [first, second, third, fourth] []).length + ·)) := by
  have small := isInt.2
  have length := framed_length [first, second, third, fourth] rest
  have len1 : toInt (((framed [first, second, third, fourth] rest).length : Int) -
      (framed [first, second, third, fourth] []).length) = rest.length := by
    rw [toInt_of_isInt ⟨by omega, by omega⟩]
    omega
  rw [len1, memstr_eq (by decide) (by decide) _ _ (by omega)
    (by rw [framed_length _ (rest ++ [0]), List.length_append]; omega), drop_framed, List.take_left]

theorem takeData_framed (areLines : ∀ line ∈ [first, second, third, fourth], IsLine line)
    (isInt : IsInt (framed [first, second, third, fourth] rest).length) :
    takeData (framed [first, second, third, fourth] rest ++ [0])
        (framed [first, second, third, fourth] rest).length =
      if ∀ line ∈ [first, second, third, fourth], 0 ∉ line then do
        let n ← deref (find dashes rest)
        return ((framed [first, second, third, fourth] []).length, (n : Int) - 2)
      else .error .nullPointer := by
  rw [takeData_dataStart, framed_append, dataStart_framed areLines (by simp)]
  by_cases free : ∀ line ∈ [first, second, third, fourth], 0 ∉ line
  · rw [if_pos free, if_pos free, ok_bind, memstr_framed isInt]
    rcases found : find dashes rest with _ | n
    · rfl
    · have inside := ((find_eq_some_iff _ _ _).mp found).1
      have small := isInt.2
      have length := framed_length [first, second, third, fourth] rest
      simp only [Option.map_some, deref_some, ok_bind, pure_eq_ok]
      rw [toInt_of_isInt ⟨by omega, by omega⟩]
      congr 2
      omega
  · rw [if_neg free, if_neg free, error_bind]

end Framed

theorem takeData_eq
    (areLines : ∀ line ∈ headerLines boundary disposition name contentType, IsLine line)
    (isInt : IsInt (body boundary disposition name contentType data).length) :
    takeData (body boundary disposition name contentType data ++ [0])
        (body boundary disposition name contentType data).length =
      if ∀ line ∈ headerLines boundary disposition name contentType, 0 ∉ line then do
        let n ← deref (find dashes (dataPart boundary data))
        return ((framed (headerLines boundary disposition name contentType) []).length,
          (n : Int) - 2)
      else .error .nullPointer :=
  takeData_framed areLines isInt

theorem takenName_nulFree (delimiterFree : 0 ∉ delimiter boundary)
    (nameFree : 0 ∉ dispositionLine disposition name) :
    0 ∉ takenName (nameLines boundary disposition name) := by
  have linesFree : 0 ∉ nameLines boundary disposition name := by
    simp [nameLines, delimiterFree, nameFree, crlf_nulFree]
  exact fun member => linesFree (takenName_subset _ member)

theorem takenName_strAt
    (headersFree : ∀ line ∈ headerLines boundary disposition name contentType, 0 ∉ line)
    (rest : Bytes) : strAt (takenName (nameLines boundary disposition name) ++ 0 :: rest) 0 =
      .ok (takenName (nameLines boundary disposition name)) :=
  strAt_append [] _ rest (takenName_nulFree (headersFree _ (by simp [headerLines]))
    (headersFree _ (by simp [headerLines])))

/-- The text that follows an occurrence of `filename=` is longest for the
first one. -/
theorem takenName_fits_iff :
    (takenName (nameLines boundary disposition name)).length < filenameSize ↔
      ∀ before after, nameLines boundary disposition name = before ++ (filenameKey ++ after) →
        after.length ≤ filenameSize + 1 := by
  obtain ⟨offset, found, inside⟩ := nameLines_occurs boundary disposition name
  obtain ⟨-, ⟨rest, here⟩, first⟩ := (find_eq_some_iff _ _ _).mp found
  have nine := filenameKey_length
  rw [takenName_length found]
  constructor
  · intro fits before after split
    have late : offset ≤ before.length := by
      by_contra early
      refine first before.length (by omega) ?_
      rw [split, List.drop_left]
      exact List.prefix_append _ _
    have lengths := congrArg List.length split
    simp only [List.length_append] at lengths
    omega
  · intro bounded
    have split : nameLines boundary disposition name =
        (nameLines boundary disposition name).take offset ++ (filenameKey ++ rest) := by
      rw [here, List.take_append_drop]
    have short := bounded _ _ split
    have lengths := congrArg List.length here
    rw [List.length_append, List.length_drop] at lengths
    omega

/-- The contents given to `fwrite`. -/
def written : List Call → List Bytes
  | [] => []
  | .fwrite bytes :: calls => bytes :: written calls
  | _ :: calls => written calls

/-- Whenever the file can be opened, exactly `data` is written to it. -/
def Stores (src : Bytes) (len : Int) (sFilename data : Bytes) : Prop :=
  ∀ env : Env, (∀ path, env (.fopen path) = true) →
    ∃ filename, (uploadFile src len sFilename).outcome env = .returned (0, filename) ∧
      written ((uploadFile src len sFilename).trace env) = [data]

/-- What `upload_file` relies on: header lines it can search to their end, a
name that fits its buffer, a delimiter that starts with the nine dashes and
data without them. -/
structure Extractable (boundary disposition name contentType data : Bytes) : Prop where
  headersFree : ∀ line ∈ headerLines boundary disposition name contentType, 0 ∉ line
  nameFits : ∀ before after, nameLines boundary disposition name =
    before ++ (filenameKey ++ after) → after.length ≤ filenameSize + 1
  delimiterDashes : dashes <+: delimiter boundary ++ lit "--"
  dataDashes : ¬ dashes <:+: data

section Taken

variable {src filename path sFilename : Bytes} {p len : Nat} {len1 : Int}
variable (named : takeName src sFilename = .ok filename)
variable (located : takeData src len1 = .ok (p, (len : Int)))
variable (pathAt : strAt filename 0 = .ok path)
variable (inside : p + len ≤ src.length) (small : len < 2 ^ 64)

include inside small in
theorem bytesAt_data : bytesAt src p (toSize (len : Int)) = .ok ((src.drop p).take len) := by
  rw [toSize_natCast small]
  exact if_pos inside

include named located pathAt inside small in
theorem uploadFile_stores : Stores src len1 sFilename ((src.drop p).take len) := by
  have read := bytesAt_data inside small
  intro env opens
  refine ⟨filename, ?_, ?_⟩
  · simp [uploadFile, named, located, pathAt, read, opens]
  · simp [uploadFile, named, located, pathAt, read, opens, written]

include named located pathAt inside small in
/-- With the name and the data found only the file can fail. -/
theorem uploadFile_returns (env : Env) :
    ∃ code, (uploadFile src len1 sFilename).outcome env = .returned (code, filename) := by
  simp only [uploadFile, named, located, pathAt, ofC_ok, Prog.ret_bind, outcome_ask_bind]
  cases env (.fopen path) with
  | false => exact ⟨-1, rfl⟩
  | true =>
      simp only [bytesAt_data inside small, ofC_ok, Prog.ret_bind]
      exact ⟨0, rfl⟩

end Taken

/-- With a negative length `fwrite` would read outside the body. -/
theorem written_length {src filename path sFilename data : Bytes} {p : Nat} {len1 len2 : Int}
    (named : takeName src sFilename = .ok filename) (located : takeData src len1 = .ok (p, len2))
    (pathAt : strAt filename 0 = .ok path) (short : src.length < 2 ^ 63) (lower : -2 ^ 63 ≤ len2)
    (upper : len2 < 2 ^ 63) (stores : Stores src len1 sFilename data) : len2 = data.length := by
  obtain ⟨result, returns, wrote⟩ := stores allSucceed fun _ => rfl
  rcases read : bytesAt src p (toSize len2) with fault | bytes
  · simp [uploadFile, named, located, pathAt, allSucceed, read] at returns
  · have same : bytes = data := by
      simpa [uploadFile, named, located, pathAt, allSucceed, read, written] using wrote
    subst same
    rw [bytesAt] at read
    split at read
    · rename_i inside
      cases read
      have length : (((src.drop p).take (toSize len2)).length : Int) = toSize len2 := by
        rw [List.length_take, List.length_drop]
        omega
      rw [length]
      have converted : toSize len2 = (len2 % 2 ^ 64).toNat := rfl
      omega
    · cases read

section Proof

variable (delimiterLine : IsLine (delimiter boundary))
variable (nameLine : IsLine (dispositionLine disposition name))
variable (typeLine : IsLine contentType)
variable (isInt : IsInt (body boundary disposition name contentType data).length)

include delimiterLine nameLine typeLine in
theorem headerLines_areLines :
    ∀ line ∈ headerLines boundary disposition name contentType, IsLine line := by
  have blank : IsLine [] := by decide
  simpa [headerLines] using ⟨delimiterLine, nameLine, typeLine, blank⟩

include delimiterLine nameLine typeLine isInt in
theorem stores_of_extractable {sFilename : Bytes} (room : sFilename.length = filenameSize)
    (extractable : Extractable boundary disposition name contentType data) :
    Stores (body boundary disposition name contentType data ++ [0])
      (body boundary disposition name contentType data).length sFilename data := by
  obtain ⟨headersFree, nameFits, delimiterDashes, dataDashes⟩ := extractable
  have delimiterFree := headersFree (delimiter boundary) (by simp [headerLines])
  have nameFree := headersFree (dispositionLine disposition name) (by simp [headerLines])
  have named := takeName_eq delimiterLine nameLine delimiterFree nameFree isInt sFilename
  rw [room, if_pos (takenName_fits_iff.mpr nameFits)] at named
  have located := takeData_eq (headerLines_areLines delimiterLine nameLine typeLine) isInt
  rw [if_pos headersFree, find_dashes_iff.mpr ⟨delimiterDashes, dataDashes⟩] at located
  have length : ((data.length + 2 : Nat) : Int) - 2 = data.length := by omega
  rw [deref_some, ok_bind, length] at located
  have pathAt := takenName_strAt headersFree
    (sFilename.drop ((takenName (nameLines boundary disposition name)).length + 1))
  have whole := body_length boundary disposition name contentType data
  have inside := data_inside boundary data
  have small := isInt.2
  have stored := uploadFile_stores named located pathAt
    (by rw [List.length_append, whole]; omega) (by omega)
  rwa [drop_headers, dataPart, List.append_assoc, List.take_left] at stored

include delimiterLine nameLine typeLine isInt in
theorem extractable_of_stores {sFilename : Bytes} (room : sFilename.length = filenameSize)
    (stores : Stores (body boundary disposition name contentType data ++ [0])
      (body boundary disposition name contentType data).length sFilename data) :
    Extractable boundary disposition name contentType data := by
  obtain ⟨filename, returns, wrote⟩ := stores allSucceed fun _ => rfl
  obtain ⟨named, nameReturned, afterName⟩ := Prog.outcome_bind_eq_returned _ returns
  obtain ⟨⟨p, len2⟩, dataReturned, -⟩ := Prog.outcome_bind_eq_returned _ afterName
  have nameOk := outcome_ofC_returned nameReturned
  have dataOk := outcome_ofC_returned dataReturned
  have located := takeData_eq (headerLines_areLines delimiterLine nameLine typeLine) isInt
  rw [dataOk] at located
  split at located
  · rename_i headersFree
    have delimiterFree := headersFree (delimiter boundary) (by simp [headerLines])
    have nameFree := headersFree (dispositionLine disposition name) (by simp [headerLines])
    have nameTaken := takeName_eq delimiterLine nameLine delimiterFree nameFree isInt sFilename
    rw [nameOk] at nameTaken
    split at nameTaken
    · rename_i nameFits
      rw [room] at nameFits
      have pathAt := takenName_strAt headersFree
        (sFilename.drop ((takenName (nameLines boundary disposition name)).length + 1))
      cases nameTaken
      rcases found : find dashes (dataPart boundary data) with _ | n
      · simp [found] at located
      · simp only [found, deref_some, ok_bind, pure_eq_ok, Except.ok.injEq, Prod.mk.injEq] at located
        obtain ⟨rfl, rfl⟩ := located
        have within := ((find_eq_some_iff _ _ _).mp found).1
        have whole := body_length boundary disposition name contentType data
        have small := isInt.2
        have length := written_length nameOk dataOk pathAt
          (by rw [List.length_append, List.length_singleton]; omega) (by omega) (by omega) stores
        have count : n = data.length + 2 := by omega
        subst count
        obtain ⟨delimiterDashes, dataDashes⟩ := find_dashes_iff.mp found
        exact ⟨headersFree, takenName_fits_iff.mp nameFits, delimiterDashes, dataDashes⟩
    · cases nameTaken
  · cases located

end Proof

/-- Exactly in the extractable bodies the stored contents are the data sent. -/
theorem stores_iff (boundary disposition name contentType data sFilename : Bytes)
    (delimiterLine : IsLine (delimiter boundary))
    (nameLine : IsLine (dispositionLine disposition name)) (typeLine : IsLine contentType)
    (isInt : IsInt (body boundary disposition name contentType data).length)
    (room : sFilename.length = filenameSize) :
    Stores (body boundary disposition name contentType data ++ [0])
        (body boundary disposition name contentType data).length sFilename data ↔
      Extractable boundary disposition name contentType data :=
  ⟨extractable_of_stores delimiterLine nameLine typeLine isInt room,
    stores_of_extractable delimiterLine nameLine typeLine isInt room⟩

end Body

/-- A browser that puts seven dashes into its boundary stores its plain data. -/
theorem stores_iff_seven_dashes :
    Stores (body (lit "-------7e0") (lit "Content-Disposition: form-data; ") (lit "a.txt")
          (lit "Content-Type: text/plain") (lit "ab-cd") ++ [0])
        (body (lit "-------7e0") (lit "Content-Disposition: form-data; ") (lit "a.txt")
          (lit "Content-Type: text/plain") (lit "ab-cd")).length (zeros filenameSize)
        (lit "ab-cd") ↔
      Extractable (lit "-------7e0") (lit "Content-Disposition: form-data; ") (lit "a.txt")
        (lit "Content-Type: text/plain") (lit "ab-cd") :=
  stores_iff _ _ _ _ _ _ (by decide) (by decide) (by decide) (by decide) (zeros_length _)

set_option maxRecDepth 1000 in
/-- Nine dashes in the data are taken for the end of the data. -/
theorem not_stores_dashes :
    ¬ Stores (body (lit "-------7e0") (lit "Content-Disposition: form-data; ") (lit "a.txt")
          (lit "Content-Type: text/plain") (lit "ab---------cd") ++ [0])
        (body (lit "-------7e0") (lit "Content-Disposition: form-data; ") (lit "a.txt")
          (lit "Content-Type: text/plain") (lit "ab---------cd")).length (zeros filenameSize)
        (lit "ab---------cd") := by
  intro stores
  have extractable := extractable_of_stores (by decide) (by decide) (by decide) (by decide)
    List.length_replicate stores
  exact extractable.dataDashes (by decide)

end DistStore.UploadFile

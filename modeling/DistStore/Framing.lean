import DistStore.Upload

/-!
# What `upload_file` takes from a body

The name and the data are found by counting line ends from the start of the
body, so that nothing behind the fourth line end can move them.  Where one of
the markers is missing the pointer arithmetic goes on from a null pointer:
`upload_file` never refuses a body for what is in it.
-/

set_option autoImplicit false

namespace DistStore.Framing

open CMemory ListSearch Program Environment UploadFile Upload

/-! ## Bodies with a header -/

/-- A line of a header. -/
structure Plain (line : Bytes) : Prop where
  nulFree : 0 ∉ line
  noReturn : 13 ∉ line
  noFeed : 10 ∉ line

theorem Plain.isLine {line : Bytes} (plain : Plain line) : IsLine line :=
  fun occurs => plain.noReturn (occurs.subset (by decide))

/-- Two header lines around the one with the name, and `rest` behind the empty
line. -/
def message (delimiterLine front name typeLine rest : Bytes) : Bytes :=
  framed [delimiterLine, dispositionLine front name, typeLine, []] rest

section Header

variable {delimiterLine front name typeLine : Bytes}

/-- The marker of the name is found where the header has it. -/
theorem find_filenameKey (freshDelimiter : ¬ filenameKey <:+: delimiterLine)
    (freshFront : ¬ filenameKey <:+: front) :
    find filenameKey (delimiterLine ++ (crlf ++ dispositionLine front name)) =
      some (delimiterLine ++ (crlf ++ front)).length := by
  have shape : delimiterLine ++ (crlf ++ dispositionLine front name) =
      (delimiterLine ++ (crlf ++ front)) ++ (filenameKey ++ (34 :: (name ++ [34]))) := by
    simp only [dispositionLine, List.append_assoc]
  rw [shape]
  refine find_append_key (by decide) _ fun occurs => ?_
  have early : filenameKey <:+: delimiterLine ++ (crlf ++ front) :=
    infix_of_append_front (show (61 : Byte) ∉ filenameKey.dropLast by decide) occurs
  have noReturn : (13 : Byte) ∉ filenameKey := by decide
  have noFeed : (10 : Byte) ∉ filenameKey := by decide
  have split : delimiterLine ++ (crlf ++ front) = delimiterLine ++ 13 :: ([] ++ 10 :: front) := rfl
  rw [split, infix_append_cons_iff noReturn, infix_append_cons_iff noFeed] at early
  rcases early with inDelimiter | nowhere | inFront
  · exact freshDelimiter inDelimiter
  · exact absurd nowhere (by decide)
  · exact freshFront inFront

theorem takenName_disposition (freshDelimiter : ¬ filenameKey <:+: delimiterLine)
    (freshFront : ¬ filenameKey <:+: front) :
    takenName (delimiterLine ++ (crlf ++ dispositionLine front name)) = name := by
  have nine := filenameKey_length
  have shape : delimiterLine ++ (crlf ++ dispositionLine front name) =
      (delimiterLine ++ (crlf ++ front) ++ (filenameKey ++ [34])) ++ (name ++ [34]) := by
    simp only [dispositionLine, List.append_assoc, List.singleton_append]
  have length : (delimiterLine ++ (crlf ++ front)).length + 10 =
      (delimiterLine ++ (crlf ++ front) ++ (filenameKey ++ [34])).length := by
    simp only [List.length_append, List.length_singleton, nine]
  unfold takenName
  rw [find_filenameKey freshDelimiter freshFront]
  simp only []
  rw [length, shape, List.drop_left, List.dropLast_concat]

/-- Whatever follows the header, the name is the one between the quotes and the
data starts behind the empty line. -/
theorem header_framing {sFilename : Bytes} (rest after : Bytes) (plainDelimiter : Plain delimiterLine)
    (plainName : Plain (dispositionLine front name)) (plainType : Plain typeLine)
    (freshDelimiter : ¬ filenameKey <:+: delimiterLine) (freshFront : ¬ filenameKey <:+: front)
    (short : name.length ≤ 255) (room : sFilename.length = filenameSize) :
    ∃ filename p,
      takeName (message delimiterLine front name typeLine rest ++ 0 :: after) sFilename =
          .ok filename ∧ strAt filename 0 = .ok name ∧
        (∀ len, takeData (message delimiterLine front name typeLine rest ++ 0 :: after) len = (do
          let s ← deref (← memstr (message delimiterLine front name typeLine rest ++ 0 :: after) p
            (toInt (len - p)) dashes)
          return (p, toInt ((s : Int) - 2 - p)))) ∧
        (message delimiterLine front name typeLine rest ++ 0 :: after).drop p =
          rest ++ 0 :: after := by
  have areLines : ∀ line ∈ [delimiterLine, dispositionLine front name, typeLine, []],
      IsLine line := by
    simpa using ⟨plainDelimiter.isLine, plainName.isLine, plainType.isLine, show IsLine [] by decide⟩
  have nulFree : ∀ line ∈ [delimiterLine, dispositionLine front name, typeLine, []], 0 ∉ line := by
    simpa using ⟨plainDelimiter.nulFree, plainName.nulFree, plainType.nulFree⟩
  have taken : takenName (delimiterLine ++ (crlf ++ dispositionLine front name)) = name :=
    takenName_disposition freshDelimiter freshFront
  have nameFree : 0 ∉ name := fun member => plainName.nulFree (by simp [dispositionLine, member])
  have size : filenameSize = 256 := rfl
  refine ⟨name ++ 0 :: sFilename.drop (name.length + 1),
    (framed [delimiterLine, dispositionLine front name, typeLine, []] []).length, ?_, ?_, ?_, ?_⟩
  · have inside : (delimiterLine ++ (crlf ++ front)).length + 11 ≤
        (delimiterLine ++ (crlf ++ dispositionLine front name)).length := by
      simp only [dispositionLine, List.length_append, List.length_cons, filenameKey_length]
      omega
    have named := takeName_framed plainDelimiter.isLine plainName.isLine plainDelimiter.nulFree
      plainName.nulFree (show 0 ∈ framed [typeLine, []] (rest ++ 0 :: after) by simp [framed])
      (find_filenameKey freshDelimiter freshFront) inside (by rw [taken]; omega) sFilename
    rw [taken, if_pos (by omega)] at named
    unfold message
    rw [framed_append]
    exact named
  · exact strAt_append [] name _ nameFree
  · intro len
    unfold message
    rw [framed_append, takeData_dataStart, dataStart_framed areLines (by simp),
      if_pos nulFree, ok_bind]
  · unfold message
    rw [framed_append, drop_framed]

end Header

/-- An empty name, and data that looks like another header. -/
theorem header_framing_empty_name :
    ∃ filename p,
      takeName (message (lit "-----") (lit "form-data; ") [] [] (crlf ++ filenameKey) ++ 0 :: [])
          (zeros filenameSize) = .ok filename ∧ strAt filename 0 = .ok [] ∧
        (∀ len, takeData
          (message (lit "-----") (lit "form-data; ") [] [] (crlf ++ filenameKey) ++ 0 :: []) len = (do
          let s ← deref (← memstr
            (message (lit "-----") (lit "form-data; ") [] [] (crlf ++ filenameKey) ++ 0 :: []) p
            (toInt (len - p)) dashes)
          return (p, toInt ((s : Int) - 2 - p)))) ∧
        (message (lit "-----") (lit "form-data; ") [] [] (crlf ++ filenameKey) ++ 0 :: []).drop p =
          (crlf ++ filenameKey) ++ 0 :: [] :=
  header_framing (crlf ++ filenameKey) [] ⟨by decide, by decide, by decide⟩
    ⟨by decide, by decide, by decide⟩ ⟨by decide, by decide, by decide⟩ (by decide) (by decide)
    (by decide) (zeros_length _)

/-! ## Bodies that are refused -/

/-- The markers are found, and these are the lengths derived from them. -/
def Markers (src : Bytes) (len nameLen len2 : Int) : Prop :=
  ∃ found q p s, strstr src 0 filenameKey = .ok (some found) ∧ lineLoop src 2 0 = .ok q ∧
    nameLen = (q : Int) - 2 - (found + 10 : Nat) ∧ dataStart src = .ok p ∧
      memstr src p (toInt (len - p)) dashes = .ok (some s) ∧ len2 = (s : Int) - 2 - p

/-- All markers are found and the lengths are in their ranges. -/
def AllMarkers (src : Bytes) (len : Int) : Prop :=
  ∃ nameLen len2, Markers src len nameLen len2 ∧ 0 ≤ nameLen ∧ nameLen < 256 ∧ 0 ≤ len2 ∧
    len2 ≤ len

/-- The body is taken with all its markers, or refused without a file.  The run
returns in neither case when a search that finds nothing is used or a length is
negative. -/
def Handled (src : Bytes) (len : Int) (sFilename : Bytes) (env : Env) : Prop :=
  ∃ code filename, (uploadFile src len sFilename).outcome env = .returned (code, filename) ∧
    (AllMarkers src len ∨
      (code ≠ 0 ∧ ∀ path, .fopen path ∈ (uploadFile src len sFilename).trace env →
        env (.fopen path) = false))

/-- What `upload_file` needs of a body: four lines without a NUL, the marker of
the name in the first two of them with 2 to 257 bytes behind it, and nine
dashes at least two bytes behind the fourth. -/
def Complete (received : Bytes) : Prop :=
  ∃ first second third fourth rest f n,
    received = framed [first, second, third, fourth] rest ∧
    (∀ line ∈ [first, second, third, fourth], IsLine line ∧ 0 ∉ line) ∧
    find filenameKey (first ++ (crlf ++ second)) = some f ∧
    f + 11 ≤ (first ++ (crlf ++ second)).length ∧
    (first ++ (crlf ++ second)).length < f + 267 ∧ find dashes rest = some n ∧ 2 ≤ n

section Lines

variable {src lead tail : Bytes} {q r : Nat}

/-- A line end that is found cuts off a line. -/
theorem line_of_strstr (isLead : Lead lead) (shape : src.drop q = lead ++ tail)
    (found : strstr src q crlf = .ok (some r)) :
    ∃ line after, tail = line ++ (crlf ++ after) ∧ IsLine line ∧ 0 ∉ line ∧
      r = q + (lead ++ line).length := by
  obtain ⟨text, holds, returned⟩ := (bind_eq_ok_iff _ _ _).mp found
  obtain ⟨nulFree, rest, ends⟩ := (strAt_eq_ok_iff _ _ _).mp holds
  obtain ⟨m, occurs, rfl⟩ := Option.map_eq_some_iff.mp (Except.ok.inj returned)
  rw [shape] at ends
  have cut : ∀ {line : Bytes} {m : Nat}, 0 ∉ line → find crlf line = some m →
      line ++ 0 :: rest = line.take m ++ (crlf ++ (line.drop (m + 2) ++ 0 :: rest)) ∧
        IsLine (line.take m) ∧ 0 ∉ line.take m ∧ (line.take m).length = m := by
    intro line m free first
    refine ⟨?_, not_infix_take_of_find (by decide) first, fun member =>
      free (List.mem_of_mem_take member), List.length_take_of_le ?_⟩
    · conv_lhs => rw [split_of_find first]
      simp only [List.append_assoc, crlf_length]
    · exact ((find_eq_some_iff _ _ _).mp first).1
  cases isLead with
  | inl empty =>
      subst empty
      obtain ⟨split, isLine, free, length⟩ := cut nulFree occurs
      exact ⟨text.take m, _, ends.trans split, isLine, free, by rw [List.nil_append, length]⟩
  | inr feed =>
      -- the line feed of the end before is not the start of this one
      subst feed
      cases text with
      | nil => cases (List.cons.inj ends).1
      | cons byte text =>
          obtain ⟨rfl, same⟩ := List.cons.inj ends
          rw [find, if_neg (by simp [crlf])] at occurs
          obtain ⟨m', first, rfl⟩ := Option.map_eq_some_iff.mp occurs
          have free : 0 ∉ text := fun member => nulFree (List.mem_cons_of_mem _ member)
          obtain ⟨split, isLine, lineFree, length⟩ := cut free first
          refine ⟨text.take m', _, same.trans split, isLine, lineFree, ?_⟩
          rw [List.length_append, length, List.length_singleton]
          omega

/-- As many passes as end have cut off as many lines. -/
theorem lines_of_lineLoop (passes : Nat) (isLead : Lead lead) (shape : src.drop q = lead ++ tail)
    (walked : lineLoop src passes q = .ok r) :
    ∃ lines after, lines.length = passes ∧ tail = framed lines after ∧
      ∀ line ∈ lines, IsLine line ∧ 0 ∉ line := by
  induction passes generalizing lead tail q with
  | zero => exact ⟨[], tail, rfl, rfl, nofun⟩
  | succ passes inductionHypothesis =>
      obtain ⟨found, searched, rest⟩ := (bind_eq_ok_iff _ _ _).mp walked
      obtain ⟨s, here, continued⟩ := (bind_eq_ok_iff _ _ _).mp rest
      cases found with
      | none => cases here
      | some found =>
          cases here
          obtain ⟨line, after, split, isLine, nulFree, position⟩ :=
            line_of_strstr isLead shape searched
          rw [split] at shape
          have next := drop_line_end shape
          rw [← position] at next
          obtain ⟨lines, behind, count, later, good⟩ :=
            inductionHypothesis (Or.inr rfl) next continued
          refine ⟨line :: lines, behind, by rw [List.length_cons, count], ?_, ?_⟩
          · rw [split, later, framed]
          · rw [List.forall_mem_cons]
            exact ⟨⟨isLine, nulFree⟩, good⟩

end Lines

section Exact

variable {first second third fourth rest received sFilename : Bytes}

/-- The markers of a body of four lines. -/
theorem allMarkers_framed_iff (isInt : IsInt (framed [first, second, third, fourth] rest).length)
    (good : ∀ line ∈ [first, second, third, fourth], IsLine line ∧ 0 ∉ line) :
    AllMarkers (framed [first, second, third, fourth] rest ++ [0])
        (framed [first, second, third, fourth] rest).length ↔
      ∃ f n, find filenameKey (first ++ (crlf ++ second)) = some f ∧
        f + 11 ≤ (first ++ (crlf ++ second)).length ∧
        (first ++ (crlf ++ second)).length < f + 267 ∧ find dashes rest = some n ∧ 2 ≤ n := by
  obtain ⟨firstLine, firstFree⟩ := good first (by simp)
  obtain ⟨secondLine, secondFree⟩ := good second (by simp)
  have hasNul : 0 ∈ framed [third, fourth] (rest ++ [0]) := by simp [framed]
  obtain ⟨more, holds⟩ := strAt_nameLines firstFree secondFree hasNul
  have walked := lineLoop_nameLines firstLine secondLine firstFree secondFree hasNul
  have started := dataStart_framed (fun line member => (good line member).1)
    (show 0 ∈ rest ++ [0] by simp)
  rw [if_pos fun line member => (good line member).2] at started
  have searched := memstr_framed isInt
  have length := framed_length [first, second, third, fourth] rest
  have nine := filenameKey_length
  have shape : framed [first, second, third, fourth] (rest ++ [0]) =
      framed [first, second] (framed [third, fourth] (rest ++ [0])) := rfl
  rw [framed_append]
  rw [← shape] at holds walked
  constructor
  · rintro ⟨_, _, ⟨found, q, p, s, here, looped, rfl, dataAt, ends, rfl⟩, notNegative, short,
      dataThere, -⟩
    cases walked.symm.trans looped
    cases started.symm.trans dataAt
    rw [searched] at ends
    obtain ⟨n, dashesAt, rfl⟩ := Option.map_eq_some_iff.mp (Except.ok.inj ends)
    obtain ⟨f, keyAt, position⟩ := (strstr_eq_some_iff filenameKey holds _).mp here
    exact ⟨f, n, find_of_append keyAt (by omega), by omega, by omega, dashesAt, by omega⟩
  · rintro ⟨f, n, keyAt, inside, short, dashesAt, behind⟩
    have within := find_fits dashesAt
    have here := strstr_of_strAt filenameKey holds
    rw [find_append_right keyAt, Option.map_some, Nat.zero_add] at here
    rw [dashesAt, Option.map_some] at searched
    exact ⟨_, _, ⟨_, _, _, _, here, walked, rfl, started, searched, rfl⟩, by omega, by omega,
      by omega, by omega⟩

/-- The NUL behind the body is not part of its lines. -/
theorem framed_of_terminated {lines : List Bytes} {after : Bytes} (four : lines.length = 4)
    (split : received ++ [0] = framed lines after)
    (good : ∀ line ∈ lines, IsLine line ∧ 0 ∉ line) :
    ∃ first second third fourth rest, received = framed [first, second, third, fourth] rest ∧
      ∀ line ∈ [first, second, third, fourth], IsLine line ∧ 0 ∉ line := by
  match lines, four with
  | [first, second, third, fourth], _ =>
      refine ⟨first, second, third, fourth, ?_⟩
      rcases List.eq_nil_or_concat' after with rfl | ⟨rest, last, rfl⟩
      · have inLines : 0 ∈ framed [first, second, third, fourth] [] := split ▸ by simp
        have free := fun line member => (good line member).2
        simp [framed, crlf_nulFree, free first, free second, free third, free fourth] at inLines
      · rw [← framed_append] at split
        exact ⟨rest, (List.append_inj' split rfl).1, good⟩

theorem complete_iff_allMarkers (isInt : IsInt (received.length : Nat)) :
    Complete received ↔ AllMarkers (received ++ [0]) received.length := by
  constructor
  · rintro ⟨first, second, third, fourth, rest, f, n, rfl, good, markers⟩
    exact (allMarkers_framed_iff isInt good).mpr ⟨f, n, markers⟩
  · intro markers
    have split : ∃ first second third fourth rest,
        received = framed [first, second, third, fourth] rest ∧
          ∀ line ∈ [first, second, third, fourth], IsLine line ∧ 0 ∉ line := by
      obtain ⟨_, _, ⟨_, _, p, _, _, _, _, dataAt, _⟩, _⟩ := markers
      obtain ⟨q, looped, -⟩ := (bind_eq_ok_iff _ _ _).mp dataAt
      obtain ⟨lines, after, four, split, good⟩ :=
        lines_of_lineLoop 4 (Or.inl rfl) (show (received ++ [0]).drop 0 = [] ++ _ from rfl) looped
      exact framed_of_terminated four split good
    obtain ⟨first, second, third, fourth, rest, rfl, good⟩ := split
    obtain ⟨f, n, found⟩ := (allMarkers_framed_iff isInt good).mp markers
    exact ⟨first, second, third, fourth, rest, f, n, rfl, good, found⟩

/-- A complete body is taken, whether its file can be created or not. -/
theorem handled_of_complete (isInt : IsInt (received.length : Nat))
    (room : sFilename.length = filenameSize) (complete : Complete received) (env : Env) :
    Handled (received ++ [0]) received.length sFilename env := by
  have markers := (complete_iff_allMarkers isInt).mp complete
  obtain ⟨first, second, third, fourth, rest, f, n, rfl, good, found, inside, short, ends,
    behind⟩ := complete
  obtain ⟨firstLine, firstFree⟩ := good first (by simp)
  obtain ⟨secondLine, secondFree⟩ := good second (by simp)
  have taken := takenName_length found
  have size : filenameSize = 256 := rfl
  have shape : framed [first, second, third, fourth] rest ++ [0] =
      framed [first, second] (framed [third, fourth] (rest ++ [0])) := framed_append _ _ _
  have named := takeName_framed firstLine secondLine firstFree secondFree
    (show 0 ∈ framed [third, fourth] (rest ++ [0]) by simp [framed]) found inside
    (by omega) sFilename
  rw [if_pos (by omega), ← shape] at named
  have located := takeData_framed (fun line member => (good line member).1) isInt
  rw [if_pos fun line member => (good line member).2, ends, deref_some, ok_bind,
    pure_eq_ok] at located
  have linesFree : 0 ∉ first ++ (crlf ++ second) := by
    simp [firstFree, secondFree, crlf_nulFree]
  have pathAt := strAt_append [] _
    (sFilename.drop ((takenName (first ++ (crlf ++ second))).length + 1))
    fun member => linesFree (takenName_subset _ member)
  have within := find_fits ends
  have length := framed_length [first, second, third, fourth] rest
  have small := isInt.2
  have dataLength : (n : Int) - 2 = (n - 2 : Nat) := by omega
  rw [dataLength] at located
  have inside : (framed [first, second, third, fourth] []).length + (n - 2) ≤
      (framed [first, second, third, fourth] rest ++ [0]).length := by
    rw [List.length_append]
    omega
  obtain ⟨code, returned⟩ := uploadFile_returns named located pathAt inside (by omega) env
  exact ⟨code, _, returned, Or.inl markers⟩

/-- With a file that can be created only the markers are left. -/
theorem allMarkers_of_handled {src : Bytes} {len : Int}
    (handled : Handled src len sFilename allSucceed) : AllMarkers src len := by
  obtain ⟨code, filename, returned, markers | ⟨failed, notCreated⟩⟩ := handled
  · exact markers
  · exfalso
    obtain ⟨name, named, afterName⟩ := Prog.outcome_bind_eq_returned _ returned
    obtain ⟨⟨p, len2⟩, located, afterData⟩ := Prog.outcome_bind_eq_returned _ afterName
    obtain ⟨path, pathAt, afterPath⟩ := Prog.outcome_bind_eq_returned _ afterData
    have opened : .fopen path ∈ (uploadFile src len sFilename).trace allSucceed := by
      refine Prog.mem_trace_bind_returned _ named (Prog.mem_trace_bind_returned _ located ?_)
      exact Prog.mem_trace_bind_returned _ pathAt List.mem_cons_self
    exact absurd (notCreated path opened) (show ¬ true = false by decide)

end Exact

/-- The buffer of `main` is the body, zeros up to the announced length, and a
NUL. -/
theorem readBody_received {len : Nat} {stdin src : Bytes}
    (read : readBody len stdin (zeros (len + 1)) = .ok src) :
    src = padTo len (stdin.take len) ++ [0] ∧ (padTo len (stdin.take len)).length = len := by
  have short : (stdin.take len).length ≤ len := List.length_take_le _ _
  rw [readBody_eq] at read
  refine ⟨?_, padTo_length _ _ short⟩
  rw [← Except.ok.inj read, padTo, padTo, List.append_assoc]
  congr 1
  rw [zeros, zeros, ← List.replicate_succ', Nat.succ_sub short]

/-- Exactly the complete bodies are taken or refused as they should be. -/
theorem handled_iff {len : Nat} {stdin src sFilename : Bytes} (isInt : IsInt (len : Nat))
    (read : readBody len stdin (zeros (len + 1)) = .ok src)
    (room : sFilename.length = filenameSize) :
    (∀ env, Handled src len sFilename env) ↔ Complete (padTo len (stdin.take len)) := by
  obtain ⟨rfl, length⟩ := readBody_received read
  have inRange : IsInt ((padTo len (stdin.take len)).length : Nat) := by rwa [length]
  have complete := complete_iff_allMarkers inRange
  have taken := handled_of_complete inRange room
  rw [length] at complete taken
  constructor
  · intro handled
    exact complete.mpr (allMarkers_of_handled (handled allSucceed))
  · exact taken

/-- The smallest kind of body a browser sends. -/
def completeBody : Bytes :=
  message (lit "-----") (lit "form-data; ") (lit "a") [] (lit "x" ++ (crlf ++ dashes))

theorem handled_iff_complete_body :
    (∀ env, Handled (padTo 49 (completeBody.take 48)) (48 : Nat) (zeros filenameSize) env) ↔
      Complete (padTo 48 (completeBody.take 48)) :=
  handled_iff (by decide) (readBody_eq 48 completeBody) (zeros_length _)

/-- A body without markers ends the server. -/
theorem not_handled_unmarked :
    readBody 1 (lit "x") (zeros (1 + 1)) = .ok (lit "x" ++ [0]) ∧
      (uploadFile (lit "x" ++ [0]) 1 (zeros filenameSize)).outcome allSucceed =
        .stopped (.fault .nullPointer) ∧
      ¬ Handled (lit "x" ++ [0]) 1 (zeros filenameSize) allSucceed := by
  have ends : (uploadFile (lit "x" ++ [0]) 1 (zeros filenameSize)).outcome allSucceed =
      .stopped (.fault .nullPointer) := by
    decide +kernel
  refine ⟨by decide, ends, ?_⟩
  rintro ⟨code, filename, returned, -⟩
  cases ends.symm.trans returned

end DistStore.Framing

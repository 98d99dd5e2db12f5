import DistStore.Upload

/-!
# The temporary file of an upload

The file that `upload_file` writes and `main` unlinks has the name the client
gives in the body of the request.  Nothing looks at the bytes of the name.
-/

set_option autoImplicit false

namespace DistStore.TempFile

open CMemory ListSearch Program Environment UploadFile Fdfs WriteRedis Upload

/-- A name of a file in the working directory itself. -/
structure Plain (path : Bytes) : Prop where
  noSlash : 47 ∉ path
  nonempty : path ≠ []
  notSelf : path ≠ lit "."
  notParent : path ≠ lit ".."

/-- The name in a body: in the first two lines, behind the first `filename=`,
without the two bytes around it. -/
def Names (body name : Bytes) : Prop :=
  ∃ front open_ close_ rest,
    body = front ++ (filenameKey ++ open_ :: (name ++ close_ :: (crlf ++ rest))) ∧
      find filenameKey body = some front.length ∧ behind crlf 2 body = some rest

theorem Names.unique {body first second : Bytes} (firstNames : Names body first)
    (secondNames : Names body second) : first = second := by
  obtain ⟨front, open_, close_, rest, shape, found, ends⟩ := firstNames
  obtain ⟨front', open', close', rest', shape', found', ends'⟩ := secondNames
  have sameRest : rest = rest' := Option.some.inj (ends.symm.trans ends')
  have sameLength : front.length = front'.length := Option.some.inj (found.symm.trans found')
  have bodies := shape.symm.trans shape'
  have fronts := List.append_inj bodies sameLength
  have names := (List.cons.inj (List.append_cancel_left fronts.2)).2
  rw [sameRest] at names
  exact (List.append_inj' names rfl).1

/-! ## The name that is taken -/

/-- The search for the second end of a line starts on the line feed of the
first one. -/
theorem find_crlf_feed {text : Bytes} {offset : Nat} (found : find crlf text = some offset) :
    find crlf (text.drop (offset + 1)) = (find crlf (text.drop (offset + 2))).map (1 + ·) := by
  obtain ⟨-, ⟨after, here⟩, -⟩ := (find_eq_some_iff _ _ _).mp found
  have feed : text.drop (offset + 1) = [10] ++ text.drop (offset + 2) := by
    rw [← List.drop_drop, ← List.drop_drop, ← here]
    rfl
  rw [feed]
  apply find_append_skip
  intro position inside occurs
  have start : position = 0 := by simpa using inside
  rw [start, List.drop_zero, List.singleton_append] at occurs
  exact absurd (List.cons_prefix_cons.mp occurs).1 (by decide)

theorem lineLoop_two {src text : Bytes} {q : Nat} (holds : strAt src 0 = .ok text)
    (walked : lineLoop src 2 0 = .ok q) :
    ∃ lines rest, text = lines ++ (crlf ++ rest) ∧ q = lines.length + 1 ∧
      behind crlf 2 text = some rest := by
  unfold lineLoop lineLoop lineLoop at walked
  rw [strstr_of_strAt crlf holds, ok_bind] at walked
  rcases found : find crlf text with _ | first
  · rw [found] at walked
    cases walked
  · have fits := find_fits found
    have two := crlf_length
    have there := strAt_drop holds (show first + 1 ≤ text.length by omega)
    rw [found, Option.map_some, deref_some, ok_bind, Nat.zero_add, strstr_of_strAt crlf there,
      find_crlf_feed found, ok_bind] at walked
    rcases again : find crlf (text.drop (first + 2)) with _ | second
    · rw [again] at walked
      cases walked
    · rw [again] at walked
      have ends : q = first + 1 + (1 + second) + 1 := (Except.ok.inj walked).symm
      have before : (text.take (first + 2)).length = first + 2 :=
        List.length_take_of_le (by omega)
      refine ⟨text.take (first + 2) ++ (text.drop (first + 2)).take second,
        (text.drop (first + 2)).drop (second + crlf.length), ?_, ?_, ?_⟩
      · rw [List.append_assoc, ← split_of_find again, List.take_append_drop]
      · have inside := find_fits again
        rw [List.length_append, before, List.length_take_of_le (by omega)]
        omega
      · rw [behind_succ found, crlf_length, behind_succ again, crlf_length]
        rfl

/-- The lines of a name end in the name and one byte more. -/
theorem takenName_split {lines : Bytes} {offset : Nat}
    (found : find filenameKey lines = some offset) (inside : offset + 11 ≤ lines.length) :
    ∃ front open_ close_, front.length = offset ∧
      lines = front ++ (filenameKey ++ open_ :: (takenName lines ++ [close_])) := by
  have nine := filenameKey_length
  have nonempty : lines.drop (offset + 10) ≠ [] := by
    intro empty
    have length := congrArg List.length empty
    rw [List.length_drop, List.length_nil] at length
    omega
  have present : offset + 9 < lines.length := by omega
  have opened : lines.drop (offset + 9) = lines[offset + 9] :: lines.drop (offset + 10) :=
    List.drop_eq_getElem_cons present
  have closed : ∃ close_, lines.drop (offset + 10) = takenName lines ++ [close_] := by
    rw [takenName, found]
    exact ⟨_, (List.dropLast_append_getLast nonempty).symm⟩
  obtain ⟨close_, closed⟩ := closed
  refine ⟨lines.take offset, lines[offset + 9], close_, List.length_take_of_le (by omega), ?_⟩
  rw [← closed, ← opened]
  exact split_of_find found

/-- What is taken from the text of a body is the name in it. -/
theorem names_of_takeName {src target filename text : Bytes} (holds : strAt src 0 = .ok text)
    (isInt : IsInt (text.length + 1)) (named : takeName src target = .ok filename) :
    ∃ name, Names text name ∧ strAt filename 0 = .ok name := by
  have nine := filenameKey_length
  have two := crlf_length
  have small := isInt.2
  have whole := named
  unfold takeName at named
  rw [strstr_of_strAt filenameKey holds, ok_bind] at named
  rcases found : find filenameKey text with _ | offset
  · rw [found] at named
    cases named
  · rw [found, Option.map_some, deref_some, ok_bind, Nat.zero_add] at named
    obtain ⟨q, walked, taken⟩ := (bind_eq_ok_iff _ _ _).mp named
    obtain ⟨lines, rest, shape, qAt, behindTwo⟩ := lineLoop_two holds walked
    obtain ⟨cleared, -, afterClear⟩ := (bind_eq_ok_iff _ _ _).mp taken
    obtain ⟨copied, copies, -⟩ := (bind_eq_ok_iff _ _ _).mp afterClear
    have keyFits := find_fits found
    have total := congrArg List.length shape
    rw [List.length_append, List.length_append] at total
    have nameLen : toInt ((q : Int) - 2 - (offset + 10 : Nat)) =
        (lines.length : Int) - (offset + 11) := by
      rw [qAt, toInt_of_isInt ⟨by omega, by omega⟩]
      omega
    -- a negative length is no size of a copy
    have inside : offset + 11 ≤ lines.length := by
      by_contra outside
      rw [strncpy_negative (by rw [nameLen]; omega)] at copies
      cases copies
    rw [shape] at found
    have foundInLines := find_of_append found (by omega)
    have length := takenName_length foundInLines
    have stored := takeName_of_lines (shape ▸ holds) foundInLines inside (qAt ▸ walked)
      (by omega) target
    rw [whole] at stored
    split at stored
    · obtain ⟨front, open_, close_, frontLength, split⟩ := takenName_split foundInLines inside
      have linesFree : 0 ∉ lines := by
        intro member
        apply strAt_nulFree holds
        rw [shape]
        exact List.mem_append_left _ member
      have nulFree : 0 ∉ takenName lines := fun member => linesFree (takenName_subset _ member)
      refine ⟨takenName lines, ⟨front, open_, close_, rest, ?_, ?_, behindTwo⟩, ?_⟩
      · rw [shape]
        conv_lhs => rw [split]
        simp only [List.append_assoc, List.cons_append, List.nil_append]
      · rw [shape, frontLength]
        exact found
      · rw [Except.ok.inj stored]
        exact strAt_append [] _ _ nulFree
    · cases stored

/-! ## The files a request names -/

/-- The path of a file that is written or removed by name. -/
def filePath : Call → Option Bytes
  | .fopen path => some path
  | .unlink path => some path
  | _ => none

/-- A call that touches no other file than `path`. -/
def Touches (path : Bytes) (call : Call) : Prop :=
  ∀ other, filePath call = some other → other = path

section Request

variable {env : Env} {bufs : Bufs} {len : Int} {buf filename path : Bytes}

theorem pipeCall_touches {caller : Func} {command memory : Bytes} {call : Call}
    (made : PipeCall caller command memory call) : Touches path call := by
  intro other touched
  cases call with
  | fopen name => exact made.elim
  | unlink name => exact made.elim
  | _ => cases touched

theorem writeCall_touches {fileId url usr : Bytes} {call : Call}
    (made : WriteCall env fileId url filename usr call) : Touches path call := by
  intro other touched
  cases call with
  | fopen name => exact made.elim
  | unlink name => exact made.elim
  | _ => cases touched

theorem uploadCall_touches {src target : Bytes} (named : takeName src target = .ok filename)
    (pathAt : strAt filename 0 = .ok path) {call : Call} (made : UploadCall src target call) :
    Touches path call := by
  intro other touched
  cases call with
  | fopen name =>
      obtain ⟨stored, sameNamed, nameAt⟩ := made
      cases named.symm.trans sameNamed
      cases pathAt.symm.trans nameAt
      exact (Option.some.inj touched).symm
  | unlink name => exact made.elim
  | _ => cases touched

theorem recordFile_touches (pathAt : strAt bufs.filename 0 = .ok path) :
    (recordFile bufs).Satisfies env (Touches path) fun _ => True := by
  unfold recordFile
  rw [pathAt, ofC_ok, Prog.ret_bind]
  apply satisfies_ask_bind
  · intro other touched
    exact (Option.some.inj touched).symm
  apply ((getUrl_satisfies env _ _).weaken (fun _ => pipeCall_touches) fun _ _ => trivial).bind
  intro located _ _
  apply satisfies_ofC_bind
  intro usr _
  apply ((writeRedis_satisfies env _ _ _ _).weaken (fun _ => writeCall_touches)
    fun _ _ => trivial).bind
  intro _ _ _
  exact satisfies_ofC fun _ _ => trivial

/-- From the body on, a request touches the file of the taken name only. -/
theorem storeFile_touches (named : takeName buf bufs.filename = .ok filename)
    (pathAt : strAt filename 0 = .ok path) :
    (storeFile bufs len buf).Satisfies env (Touches path) fun _ => True := by
  unfold storeFile
  apply ((uploadFile_satisfies env buf len bufs.filename).weaken
    (fun _ => uploadCall_touches named pathAt) fun _ holds => holds).bind
  rintro ⟨uploaded, other⟩ _ sameNamed
  cases named.symm.trans sameNamed
  simp only []
  split
  · exact satisfies_ofC fun _ _ => trivial
  · apply ((fdfsClient_satisfies env _ _).weaken (fun _ => pipeCall_touches)
      fun _ _ => trivial).bind
    rintro ⟨delivered, fileId⟩ _ _
    simp only []
    split
    · exact satisfies_ofC fun _ _ => trivial
    · exact recordFile_touches pathAt

/-- An accepted body has had its file opened. -/
theorem fopen_mem_storeFile
    (accepted : (uploadFile buf len bufs.filename).outcome env = .returned (0, filename))
    (pathAt : strAt filename 0 = .ok path) : .fopen path ∈ (storeFile bufs len buf).trace env := by
  obtain ⟨named, nameReturned, afterName⟩ := Prog.outcome_bind_eq_returned _ accepted
  obtain ⟨⟨p, len2⟩, dataReturned, afterData⟩ := Prog.outcome_bind_eq_returned _ afterName
  obtain ⟨opened, pathReturned, afterPath⟩ := Prog.outcome_bind_eq_returned _ afterData
  have sameName : takeName buf bufs.filename = .ok filename :=
    (uploadFile_satisfies env buf len bufs.filename).2 _ accepted
  cases sameName.symm.trans (outcome_ofC_returned nameReturned)
  cases pathAt.symm.trans (outcome_ofC_returned pathReturned)
  apply Prog.mem_trace_bind_left
  apply Prog.mem_trace_bind_returned _ nameReturned
  apply Prog.mem_trace_bind_returned _ dataReturned
  apply Prog.mem_trace_bind_returned _ pathReturned
  exact List.mem_cons_self

end Request

/-- The files a request opens and removes are plain files of the working
directory exactly when the name in its body is a plain name. -/
theorem storeFile_plain_iff {env : Env} {bufs : Bufs} {len : Int} {buf filename text : Bytes}
    (received : strAt buf 0 = .ok text) (isInt : IsInt (text.length + 1))
    (accepted : (uploadFile buf len bufs.filename).outcome env = .returned (0, filename)) :
    (∀ call ∈ (storeFile bufs len buf).trace env, ∀ path, filePath call = some path → Plain path) ↔
      ∃ name, Names text name ∧ Plain name := by
  have named : takeName buf bufs.filename = .ok filename :=
    (uploadFile_satisfies env buf len bufs.filename).2 _ accepted
  obtain ⟨name, names, pathAt⟩ := names_of_takeName received isInt named
  constructor
  · intro plain
    exact ⟨name, names, plain _ (fopen_mem_storeFile accepted pathAt) name rfl⟩
  · rintro ⟨other, otherNames, plain⟩ call made path touched
    cases names.unique otherNames
    cases (storeFile_touches named pathAt).1 call made path touched
    exact plain

/-- An upload of a small file under a name. -/
def uploadOf (name : Bytes) : Bytes :=
  body (lit "-----") (lit "Content-Disposition: form-data; ") name
    (lit "Content-Type: text/plain") (lit "abc")

theorem storeFile_plain_text :
    (∀ call ∈ (storeFile .cleared 103 (uploadOf (lit "a.txt") ++ [0])).trace allSucceed,
        ∀ path, filePath call = some path → Plain path) ↔
      ∃ name, Names (uploadOf (lit "a.txt")) name ∧ Plain name := by
  have accepted : (uploadFile (uploadOf (lit "a.txt") ++ [0]) 103 Bufs.cleared.filename).outcome
      allSucceed = .returned (0, lit "a.txt" ++ zeros 251) := by decide +kernel
  exact storeFile_plain_iff (by decide +kernel) (by decide +kernel) accepted

def clientConf : Bytes := lit "conf/client.conf"

/-- The configuration of FastDFS is written over and removed. -/
theorem storeFile_removes_clientConf :
    (uploadFile (uploadOf clientConf ++ [0]) 114 (zeros filenameSize)).outcome allSucceed =
        .returned (0, clientConf ++ zeros 240) ∧
      .fopen clientConf ∈ (storeFile .cleared 114 (uploadOf clientConf ++ [0])).trace allSucceed ∧
      .unlink clientConf ∈ (storeFile .cleared 114 (uploadOf clientConf ++ [0])).trace allSucceed ∧
      ¬ Plain clientConf := by
  have slash : 47 ∈ clientConf := by decide
  refine ⟨by decide +kernel, by decide +kernel, by decide +kernel, ?_⟩
  intro plain
  exact plain.noSlash slash

end DistStore.TempFile

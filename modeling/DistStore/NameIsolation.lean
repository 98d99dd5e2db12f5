import DistStore.WriteRedis

/-!
# What a file name does to the record it is stored in

The name is copied between two delimiters as it is.  This module determines
the names that leave the other fields of the record alone.
-/

set_option autoImplicit false

namespace DistStore.NameIsolation

open CMemory ListSearch RedisOp Record WriteRedis

/-- A field as a reader of the record sees it. -/
def readField (record : Bytes) (wordNum : Int) : C Bytes := do
  let (_, value) ← getValueByRedis record 0 wordNum (zeros valuesIdSize) (valuesIdSize - 1)
  strAt value 0

section Names

variable (fileId url createTime user : Bytes)

/-- The record `write_redis` builds with the given file name. -/
def recordOf (filename : Bytes) : C Bytes :=
  buildRecord (fileId ++ [0]) (url ++ [0]) (filename ++ [0]) (createTime ++ [0]) (user ++ [0])

/-- The two names are read back, and nothing else in the two records differs
for a reader of the first five fields. -/
def Isolated (f g : Bytes) : Prop :=
  ∃ recordF recordG, recordOf fileId url createTime user f = .ok recordF ∧
    recordOf fileId url createTime user g = .ok recordG ∧
    (∀ wordNum ∈ ([1, 2, 4, 5] : List Int), ∃ value,
      readField recordF wordNum = .ok value ∧ readField recordG wordNum = .ok value) ∧
    readField recordF 3 = .ok f ∧ readField recordG 3 = .ok g

/-- A name that fits and cannot be mistaken for a part of the frame of the
record. -/
structure Harmless (filename : Bytes) : Prop where
  nonempty : filename ≠ []
  noKey : ¬ key <:+: filename
  noEnd : filename.getLast? ≠ some 124
  suffixFits : (suffixText filename).length < suffixLen
  recordFits : (uploadInfo fileId url filename createTime user).record.length < valuesIdSize

variable {fileId url createTime user}

theorem key_not_infix_suffixText {filename : Bytes} (noKey : ¬ key <:+: filename) :
    ¬ key <:+: suffixText filename := by
  rcases suffixText_cases filename with named | part
  · rw [named]
    decide
  · exact fun occurs => noKey (occurs.trans part)

/-- The other values of the record contain no `'|'` and are not empty. -/
structure Plain (fileId url createTime user : Bytes) : Prop where
  pipeFree : 124 ∉ fileId ∧ 124 ∉ url ∧ 124 ∉ createTime ∧ 124 ∉ user
  nulFree : 0 ∉ fileId ∧ 0 ∉ url ∧ 0 ∉ createTime ∧ 0 ∉ user
  nonempty : fileId ≠ [] ∧ url ≠ [] ∧ createTime ≠ [] ∧ user ≠ []

theorem decodable_of_harmless (plain : Plain fileId url createTime user) {filename : Bytes}
    (harmless : Harmless fileId url createTime user filename) :
    (uploadInfo fileId url filename createTime user).Decodable where
  clean := by
    obtain ⟨fileIdFree, urlFree, createTimeFree, userFree⟩ := plain.pipeFree
    intro field member
    simp only [uploadInfo, List.mem_cons, List.not_mem_nil, or_false] at member
    rcases member with rfl | rfl | rfl | rfl | rfl
    · exact clean_of_pipeFree fileIdFree
    · exact clean_of_pipeFree urlFree
    · exact (clean_iff _).mpr ⟨harmless.noKey, harmless.noEnd⟩
    · exact clean_of_pipeFree createTimeFree
    · exact clean_of_pipeFree userFree
  typeFree := key_not_infix_suffixText harmless.noKey
  urlNonempty := plain.nonempty.2.1
  filenameNonempty := harmless.nonempty
  createTimeNonempty := plain.nonempty.2.2.1

theorem recordOf_eq (plain : Plain fileId url createTime user) {filename : Bytes}
    (nulFree : 0 ∉ filename) :
    recordOf fileId url createTime user filename =
      if (suffixText filename).length < suffixLen ∧
          (uploadInfo fileId url filename createTime user).record.length < valuesIdSize then
        .ok (padTo valuesIdSize (uploadInfo fileId url filename createTime user).record)
      else .error .writeOutside := by
  obtain ⟨fileIdFree, urlFree, createTimeFree, userFree⟩ := plain.nulFree
  exact buildRecord_eq (strAt_append [] fileId [] fileIdFree) (strAt_append [] url [] urlFree)
    (strAt_append [] filename [] nulFree) (strAt_append [] createTime [] createTimeFree)
    (strAt_append [] user [] userFree)

theorem record_nulFree (plain : Plain fileId url createTime user) {filename : Bytes}
    (nulFree : 0 ∉ filename) : 0 ∉ (uploadInfo fileId url filename createTime user).record := by
  obtain ⟨fileIdFree, urlFree, createTimeFree, userFree⟩ := plain.nulFree
  exact uploadInfo_nulFree fileIdFree urlFree nulFree createTimeFree userFree

/-- Every one of the six fields of a harmless name's record is read back. -/
theorem readField_harmless (plain : Plain fileId url createTime user) {filename : Bytes}
    (nulFree : 0 ∉ filename) (harmless : Harmless fileId url createTime user filename)
    (k : Fin 6) :
    readField (padTo valuesIdSize (uploadInfo fileId url filename createTime user).record)
      (k + 1) = .ok ((uploadInfo fileId url filename createTime user).fields.get k) := by
  have decodable := decodable_of_harmless plain harmless
  have recordFree := record_nulFree plain nulFree
  have holds := strAt_padTo recordFree harmless.recordFits
  have inside := FileInfo.infix_joinFields (List.get_mem
    (uploadInfo fileId url filename createTime user).fields k)
  have fieldFits := inside.length_le.trans_lt harmless.recordFits
  have fieldFree : 0 ∉ (uploadInfo fileId url filename createTime user).fields.get k :=
    fun member => recordFree (inside.subset member)
  have isInt : IsInt ((valuesIdSize : Int) - 1) := by decide
  have read := FileInfo.getValueByRedis_decodable decodable holds k isInt (by omega) fieldFits
    (by decide)
  simp only [readField, read, ok_bind]
  exact strAt_padTo fieldFree fieldFits

/-- Field 3 ends at the first `"||"` behind the url, wherever that is. -/
theorem readField_filename (plain : Plain fileId url createTime user) {filename : Bytes}
    (nulFree : 0 ∉ filename)
    (recordFits : (uploadInfo fileId url filename createTime user).record.length < valuesIdSize) :
    ∃ n, find key (filename ++ (key ++
        (createTime ++ (key ++ (user ++ (key ++ suffixText filename)))))) = some n ∧
      readField (padTo valuesIdSize (uploadInfo fileId url filename createTime user).record) 3 =
        .ok (filename.take n) := by
  obtain ⟨fileIdFree, urlFree, -, -⟩ := plain.pipeFree
  have holds := strAt_padTo (record_nulFree plain nulFree) recordFits
  obtain ⟨n, inside, found⟩ := find_le_of_append_key key filename
    (createTime ++ (key ++ (user ++ (key ++ suffixText filename))))
  have member : filename ∈ (uploadInfo fileId url filename createTime user).fields := by
    simp [FileInfo.fields, uploadInfo]
  have nameFits := (FileInfo.infix_joinFields member).length_le.trans_lt recordFits
  have bounded : (n : Int) ≤ (valuesIdSize : Int) - 1 := by omega
  have fits : n ≤ valuesIdSize := by omega
  have taken : 0 ∉ filename.take n := fun member => nulFree (List.mem_of_mem_take member)
  have takenFits : (filename.take n).length < valuesIdSize := by
    rw [List.length_take]
    omega
  have copied := copyField_found
    (padTo valuesIdSize (uploadInfo fileId url filename createTime user).record) 0 [fileId] url
    (fun other member => by
      simp only [List.mem_cons, List.not_mem_nil, or_false] at member
      rcases member with rfl | rfl
      · exact clean_of_pipeFree urlFree
      · exact clean_of_pipeFree fileIdFree)
    found
    (by rw [holds, FileInfo.record_eq]; simp only [uploadInfo, terminated, List.append_assoc,
          List.nil_append])
    bounded fits
  refine ⟨n, found, ?_⟩
  have written : getField (padTo valuesIdSize (uploadInfo fileId url filename createTime
      user).record) 0 3 (zeros valuesIdSize) (valuesIdSize - 1) =
      .ok (padTo valuesIdSize (filename.take n)) := by
    rw [List.take_append_of_le_length inside] at copied
    exact copied
  simp only [readField, getValueByRedis, written, ok_bind, pure_eq_ok]
  exact strAt_padTo taken takenFits

/-- Behind an empty name the `"||||"` of the url is taken for that of an empty
user, and the length of field 4 is negative. -/
theorem readField_unnamed (plain : Plain fileId url createTime user)
    (recordFits : (uploadInfo fileId url [] createTime user).record.length < valuesIdSize) :
    readField (padTo valuesIdSize (uploadInfo fileId url [] createTime user).record) 4 =
      .error .negativeSize := by
  obtain ⟨fileIdFree, urlFree, -, -⟩ := plain.pipeFree
  have fileIdClean := clean_of_pipeFree fileIdFree
  have urlClean := clean_of_pipeFree urlFree
  have holds := strAt_padTo (record_nulFree plain (List.not_mem_nil)) recordFits
  have rest : find keyError (key ++ ([] ++ (key ++
      (createTime ++ (key ++ (user ++ (key ++ suffixText []))))))) = some 0 :=
    (find_eq_some_iff _ _ _).mpr ⟨Nat.zero_le _,
      ⟨createTime ++ (key ++ (user ++ (key ++ suffixText []))), by simp [keyError, key, lit]⟩,
      fun earlier before => absurd before (Nat.not_lt_zero _)⟩
  have found : find keyError (uploadInfo fileId url [] createTime user).record =
      some (fileId.length + (key.length + url.length)) := by
    rw [FileInfo.record_eq]
    simp only [uploadInfo]
    rw [find_keyError_field fileIdClean,
      find_keyError_key (not_key_prefix_field urlClean plain.nonempty.2.1 _),
      find_keyError_field urlClean, rest]
    simp
  obtain ⟨next, looped, position, -⟩ := delimLoop_skip
    (padTo valuesIdSize (uploadInfo fileId url [] createTime user).record) [fileId, url, []]
    (createTime ++ (key ++ (user ++ (key ++ suffixText [])))) 0 ⟨0, none, none⟩
    (by
      intro field member
      simp only [List.mem_cons, List.not_mem_nil, or_false] at member
      rcases member with rfl | rfl | rfl
      · exact fileIdClean
      · exact urlClean
      · decide)
    (by rw [holds, FileInfo.record_eq]; simp only [uploadInfo, terminated, List.append_assoc,
          List.nil_append])
  have behind : ((0 + (fileId.length + (key.length + url.length)) : Nat) : Int) - next.begin_ < 0 := by
    rw [position]
    simp only [terminated, List.length_append, List.length_nil]
    have length := key_length
    omega
  have bounded : ¬ ((0 + (fileId.length + (key.length + url.length)) : Nat) : Int) - next.begin_ >
      (valuesIdSize - 1 : Int) := by
    have positive : (valuesIdSize : Int) - 1 = 1023 := by decide
    omega
  have passes : delimLoop (padTo valuesIdSize (uploadInfo fileId url [] createTime user).record)
      none 3 0 ⟨0, none, none⟩ = .ok next := looped
  simp only [readField, getValueByRedis, getField, strstr_of_strAt keyError holds, found, passes,
    Option.map_some, ok_bind, copyOut, if_neg bounded, strncpy_negative behind]
  rfl

theorem harmless_of_read (plain : Plain fileId url createTime user) {filename record : Bytes}
    (nulFree : 0 ∉ filename)
    (built : recordOf fileId url createTime user filename = .ok record)
    (readTime : ∃ value, readField record 4 = .ok value)
    (readName : readField record 3 = .ok filename) :
    Harmless fileId url createTime user filename := by
  rw [recordOf_eq plain nulFree] at built
  split at built
  · rename_i fit
    obtain ⟨suffixFits, recordFits⟩ := fit
    cases built
    obtain ⟨n, found, read⟩ := readField_filename plain nulFree recordFits
    rw [readName] at read
    have whole : filename.take n = filename := (Except.ok.inj read).symm
    obtain ⟨le, ends⟩ : filename.length ≤ n ∧ n ≤ filename.length := by
      obtain ⟨other, inside, foundToo⟩ := find_le_of_append_key key filename
        (createTime ++ (key ++ (user ++ (key ++ suffixText filename))))
      rw [found, Option.some.injEq] at foundToo
      exact ⟨List.take_eq_self_iff _ |>.mp whole, by omega⟩
    have exactly : n = filename.length := by omega
    subst exactly
    obtain ⟨noKey, noEnd⟩ := (clean_iff filename).mp
      ((find_append_key_iff key_ne_nil _ _).mp found)
    refine ⟨?_, noKey, noEnd, suffixFits, recordFits⟩
    intro empty
    subst empty
    obtain ⟨value, time⟩ := readTime
    rw [readField_unnamed plain recordFits] at time
    cases time
  · cases built

/-- Exactly the harmless names leave the other fields alone and are read back. -/
theorem isolated_iff (plain : Plain fileId url createTime user) (f g : Bytes)
    (fFree : 0 ∉ f) (gFree : 0 ∉ g) :
    Isolated fileId url createTime user f g ↔
      Harmless fileId url createTime user f ∧ Harmless fileId url createTime user g := by
  constructor
  · rintro ⟨recordF, recordG, builtF, builtG, others, nameF, nameG⟩
    obtain ⟨time, timeF, timeG⟩ := others 4 (by decide)
    exact ⟨harmless_of_read plain fFree builtF ⟨time, timeF⟩ nameF,
      harmless_of_read plain gFree builtG ⟨time, timeG⟩ nameG⟩
  · rintro ⟨harmlessF, harmlessG⟩
    have readF := readField_harmless plain fFree harmlessF
    have readG := readField_harmless plain gFree harmlessG
    refine ⟨_, _, (recordOf_eq plain fFree).trans
      (if_pos ⟨harmlessF.suffixFits, harmlessF.recordFits⟩), (recordOf_eq plain gFree).trans
      (if_pos ⟨harmlessG.suffixFits, harmlessG.recordFits⟩), ?_, readF 2, readG 2⟩
    intro wordNum member
    simp only [List.mem_cons, List.not_mem_nil, or_false] at member
    rcases member with rfl | rfl | rfl | rfl
    · exact ⟨fileId, readF 0, readG 0⟩
    · exact ⟨url, readF 1, readG 1⟩
    · exact ⟨createTime, readF 3, readG 3⟩
    · exact ⟨user, readF 4, readG 4⟩

end Names

/-- Two plain names are stored apart. -/
theorem isolated_iff_plain_names :
    Isolated (lit "g1/M00/a") (lit "http://h/g1/M00/a") (lit "2016-09-08 10-00:00") (lit "user")
        (lit "a.jpg") (lit "b|c.tar.gz") ↔
      Harmless (lit "g1/M00/a") (lit "http://h/g1/M00/a") (lit "2016-09-08 10-00:00")
          (lit "user") (lit "a.jpg") ∧
        Harmless (lit "g1/M00/a") (lit "http://h/g1/M00/a") (lit "2016-09-08 10-00:00")
          (lit "user") (lit "b|c.tar.gz") :=
  isolated_iff ⟨by decide, by decide, by decide⟩ _ _ (by decide) (by decide)

/-- A name with a `"||"` in it becomes two fields. -/
theorem not_isolated_delimiter :
    ¬ Isolated (lit "g1/M00/a") (lit "http://h/g1/M00/a") (lit "2016-09-08 10-00:00")
      (lit "user") (lit "a||b.jpg") (lit "c.jpg") := by
  rintro ⟨recordF, recordG, builtF, -, others, nameF, -⟩
  obtain ⟨time, timeF, -⟩ := others 4 (by decide)
  have harmless := harmless_of_read ⟨by decide, by decide, by decide⟩ (by decide) builtF
    ⟨time, timeF⟩ nameF
  exact harmless.noKey (by decide)

end DistStore.NameIsolation

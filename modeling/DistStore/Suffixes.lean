import DistStore.RowIsolation
import DistStore.FieldSizes
import Mathlib.Data.List.DropRight

/-!
# What `get_file_suffix` makes of a name

The suffix is what stands behind the first dot of a name, as far as its length
is an `int`.  It is stored in 8 bytes, printed with `".png"` into 10, and is the
last field of the record; the extension of the name is what stands behind its
last dot.
-/

set_option autoImplicit false

namespace DistStore.Suffixes

open CMemory ListSearch Environment RedisOp Record WriteRedis Trim DataUse RowIsolation FieldSizes

/-! ## The first dot and the last -/

theorem behindDot_of_dot {front : Bytes} (first : 46 ∉ front) (rest : Bytes) :
    behindDot (front ++ 46 :: rest) = rest := by
  have fresh : ¬ lit "." <:+: front ++ (lit ".").dropLast := by
    intro occurs
    have nothing : (lit ".").dropLast = [] := by decide
    rw [nothing, List.append_nil] at occurs
    exact first (occurs.subset (by decide))
  have found : find (lit ".") (front ++ 46 :: rest) = some front.length :=
    find_append_key (by decide) rest fresh
  unfold behindDot
  rw [found]
  exact drop_behind_item front [] 46 rest

theorem behindDot_of_not_mem {filename : Bytes} (noDot : 46 ∉ filename) :
    behindDot filename = [] := by
  have absent : find (lit ".") filename = none :=
    (find_eq_none_iff _ _).mpr fun occurs => noDot (occurs.subset (by decide))
  unfold behindDot
  rw [absent]

/-- What stands behind the last dot of the name. -/
def behindLastDot (filename : Bytes) : Bytes :=
  if 46 ∈ filename then filename.rtakeWhile (· ≠ 46) else []

/-- The extension of a name. -/
def extension (filename : Bytes) : Bytes :=
  if behindLastDot filename = [] then lit "null" else behindLastDot filename

theorem behindLastDot_of_dot (front : Bytes) {last : Bytes} (final : 46 ∉ last) :
    behindLastDot (front ++ 46 :: last) = last := by
  have inLast : ∀ byte ∈ last.reverse, decide (byte ≠ 46) = true := by
    intro byte member
    simpa using fun dot : byte = 46 => final (dot ▸ List.mem_reverse.mp member)
  have taken : (last.reverse ++ 46 :: front.reverse).takeWhile (fun byte => decide (byte ≠ 46)) =
      last.reverse := by
    rw [List.takeWhile_append_of_pos inLast, List.takeWhile_cons_of_neg (by decide),
      List.append_nil]
  have reversed : (front ++ 46 :: last).reverse = last.reverse ++ 46 :: front.reverse := by
    rw [List.reverse_append, List.reverse_cons, List.append_assoc]
    rfl
  unfold behindLastDot List.rtakeWhile
  rw [if_pos (by simp), reversed, taken, List.reverse_reverse]

theorem not_mem_extension (filename : Bytes) : 46 ∉ extension filename := by
  have notBehind : 46 ∉ behindLastDot filename := by
    unfold behindLastDot
    split
    · intro member
      simpa using List.mem_rtakeWhile_imp member
    · exact List.not_mem_nil
  unfold extension
  split
  · decide
  · exact notBehind

theorem extension_ne_nil (filename : Bytes) : extension filename ≠ [] := by
  unfold extension
  split
  next => decide
  next something => exact something

theorem suffixText_of_short {filename : Bytes} (short : (behindDot filename).length < 2 ^ 31) :
    suffixText filename = if behindDot filename = [] then lit "null" else behindDot filename := by
  rw [suffixText, intFront_of_short short]

/-- The text behind the first dot has a length that is no `int`, and what this
length leaves of it is the extension by chance. -/
def CutToExtension (filename : Bytes) : Prop :=
  2 ^ 31 ≤ (behindDot filename).length ∧
    (extension filename <+: behindDot filename ∧
        ((extension filename).length : Int) = toInt (behindDot filename).length ∨
      toInt (behindDot filename).length ≤ 0 ∧ extension filename = lit "null")

/-- At most one dot, and not more than an `int` counts behind it. -/
def Extended (filename : Bytes) : Prop :=
  filename.count 46 ≤ 1 ∧ (behindDot filename).length < 2 ^ 31 ∨ CutToExtension filename

theorem suffixText_eq_extension_iff_of_short {filename : Bytes}
    (short : (behindDot filename).length < 2 ^ 31) :
    suffixText filename = extension filename ↔ filename.count 46 ≤ 1 := by
  rw [suffixText_of_short short]
  by_cases dotted : 46 ∈ filename
  · obtain ⟨front, rest, rfl, first⟩ := List.eq_append_cons_of_mem dotted
    have behind := behindDot_of_dot first rest
    rw [List.count_append, List.count_eq_zero_of_not_mem first, List.count_cons_self, zero_add]
    by_cases again : 46 ∈ rest
    · -- the text behind the first dot has a dot itself
      have positive := List.count_pos_iff.mpr again
      refine iff_of_false ?_ (by omega)
      intro same
      apply not_mem_extension (front ++ 46 :: rest)
      rw [← same, behind, if_neg (List.ne_nil_of_mem again)]
      exact again
    · have none_left := List.count_eq_zero_of_not_mem again
      refine iff_of_true ?_ (by omega)
      rw [extension, behind, behindLastDot_of_dot front again]
  · have absent : behindLastDot filename = [] := if_neg dotted
    rw [extension, behindDot_of_not_mem dotted, absent]
    exact iff_of_true rfl (by rw [List.count_eq_zero_of_not_mem dotted]; exact Nat.zero_le 1)

theorem suffixText_eq_extension_iff_of_long {filename : Bytes}
    (long : 2 ^ 31 ≤ (behindDot filename).length) :
    suffixText filename = extension filename ↔ CutToExtension filename := by
  have something := List.length_pos_iff.mpr (extension_ne_nil filename)
  have kept := intFront_length (behindDot filename)
  rw [CutToExtension, suffixText]
  by_cases positive : 0 < toInt (behindDot filename).length
  · have nonempty : intFront (behindDot filename) ≠ [] := List.ne_nil_of_length_pos (by omega)
    rw [if_neg nonempty]
    constructor
    · intro same
      exact ⟨long, Or.inl ⟨same ▸ intFront_isPrefix _, by rw [← same]; omega⟩⟩
    · rintro ⟨-, ⟨isFront, length⟩ | ⟨notPositive, -⟩⟩
      · rw [List.prefix_iff_eq_take.mp isFront, intFront_eq_take, ← length, Int.toNat_natCast]
      · omega
  · have empty : intFront (behindDot filename) = [] := List.eq_nil_of_length_eq_zero (by omega)
    rw [if_pos empty]
    constructor
    · intro same
      exact ⟨long, Or.inr ⟨by omega, same.symm⟩⟩
    · rintro ⟨-, ⟨-, length⟩ | ⟨-, named⟩⟩
      · omega
      · exact named.symm

theorem suffixText_eq_extension_iff (filename : Bytes) :
    suffixText filename = extension filename ↔ Extended filename := by
  by_cases short : (behindDot filename).length < 2 ^ 31
  · rw [suffixText_eq_extension_iff_of_short short]
    constructor
    · intro single
      exact Or.inl ⟨single, short⟩
    · rintro (⟨single, -⟩ | ⟨long, -⟩)
      · exact single
      · omega
  · rw [suffixText_eq_extension_iff_of_long (by omega)]
    constructor
    · intro cut
      exact Or.inr cut
    · rintro (⟨-, isShort⟩ | cut)
      · exact absurd isShort short
      · exact cut

/-- The extension is stored for names with at most one dot and not too long a
text behind it, and two such names with one extension get one type and one
picture. -/
theorem getFileSuffix_extension_iff {memory filename suffix : Bytes}
    (holds : strAt memory 0 = .ok filename) (room : (suffixText filename).length < suffix.length) :
    ((∃ stored, getFileSuffix memory suffix = .ok (0, stored) ∧
      strAt stored 0 = .ok (extension filename)) ↔ Extended filename) ∧
    ∀ other : Bytes, Extended filename → Extended other →
      extension other = extension filename → ∀ fileId url createTime usr : Bytes,
        (uploadInfo fileId url other createTime usr).type =
            (uploadInfo fileId url filename createTime usr).type ∧
          pictureUrl url other = pictureUrl url filename := by
  have stored := getFileSuffix_overwrite holds suffix
  rw [if_pos room] at stored
  have text := strAt_overwrite (suffixText_nulFree (strAt_nulFree holds)) suffix
  refine ⟨?_, ?_⟩
  · rw [← suffixText_eq_extension_iff]
    constructor
    · rintro ⟨other, same, otherText⟩
      cases stored.symm.trans same
      exact Except.ok.inj (text.symm.trans otherText)
    · intro same
      exact ⟨_, stored, same ▸ text⟩
  · intro other single otherSingle same fileId url createTime usr
    have suffixes : suffixText other = suffixText filename := by
      rw [(suffixText_eq_extension_iff other).mpr otherSingle, same,
        (suffixText_eq_extension_iff filename).mpr single]
    refine ⟨suffixes, ?_⟩
    rw [pictureUrl, pictureUrl, suffixes]

theorem getFileSuffix_extension_single :
    ((∃ stored, getFileSuffix (lit "a.gz" ++ [0]) (zeros 8) = .ok (0, stored) ∧
      strAt stored 0 = .ok (extension (lit "a.gz"))) ↔ Extended (lit "a.gz")) ∧
    ∀ other : Bytes, Extended (lit "a.gz") → Extended other →
      extension other = extension (lit "a.gz") → ∀ fileId url createTime usr : Bytes,
        (uploadInfo fileId url other createTime usr).type =
            (uploadInfo fileId url (lit "a.gz") createTime usr).type ∧
          pictureUrl url other = pictureUrl url (lit "a.gz") :=
  getFileSuffix_extension_iff (by decide) (by decide)

theorem getFileSuffix_two_dots :
    getFileSuffix (lit "a.tar.gz" ++ [0]) (zeros 8) = .ok (0, lit "tar.gz" ++ [0, 0]) ∧
      extension (lit "a.tar.gz") = lit "gz" ∧ extension (lit "b.gz") = lit "gz" ∧
      suffixText (lit "b.gz") = lit "gz" := by decide

/-! ## The buffers -/

/-- Every text made of the suffix of a name fits where it is put: both suffix
buffers, the name of the picture and the block of the record. -/
structure TextsFit (filename : Bytes) : Prop where
  suffix : ∀ memory buffer, strAt memory 0 = .ok filename → buffer.length = suffixLen →
    ∃ stored, getFileSuffix memory buffer = .ok (0, stored)
  picName : ∀ memory buffer picName, strAt memory 0 = .ok filename →
    buffer.length = suffixLen → picName.length = picNameLen →
      ∃ printed, (getFileSuffix memory buffer >>= fun stored => printPicName picName stored.2) =
        .ok printed
  record : ∀ (now : CText timeStringLen) (fileIdAt urlAt filenameAt usrAt fileId url usr : Bytes),
    strAt fileIdAt 0 = .ok fileId → strAt urlAt 0 = .ok url → strAt filenameAt 0 = .ok filename →
      strAt usrAt 0 = .ok usr → fileId.length ≤ 255 → url.length ≤ 255 → usr.length ≤ 63 →
        ∃ record, recordAt now.val fileIdAt urlAt filenameAt usrAt = .ok record ∧
          record.length < valuesIdSize

theorem suffixText_length_le_iff {filename : Bytes}
    (short : (behindDot filename).length < 2 ^ 31) :
    (suffixText filename).length ≤ 5 ↔ (behindDot filename).length ≤ 5 := by
  rw [suffixText_of_short short]
  split
  next empty =>
    rw [empty]
    exact iff_of_true (by decide) (Nat.zero_le 5)
  next => exact Iff.rfl

theorem printed_eq {memory filename buffer picName : Bytes} (holds : strAt memory 0 = .ok filename)
    (size : buffer.length = suffixLen) (picSize : picName.length = picNameLen) :
    (getFileSuffix memory buffer >>= fun stored => printPicName picName stored.2) =
      if (suffixText filename ++ lit ".png").length < picNameLen then
        .ok (overwrite (suffixText filename ++ lit ".png") picName)
      else .error .writeOutside := by
  have sizes : picNameLen = suffixLen + 2 ∧ (lit ".png").length = 4 := by decide
  have stored := strAt_overwrite (suffixText_nulFree (strAt_nulFree holds)) buffer
  rw [getFileSuffix_overwrite holds, size]
  apply bounded_bind
  · intro fits
    exact (printPicName_eq stored picName).trans (by rw [picSize])
  · intro fits
    rw [List.length_append] at fits
    omega

theorem recordAt_short {filename fileIdAt urlAt filenameAt usrAt fileId url usr : Bytes}
    (now : CText timeStringLen) (short : filename.length ≤ 255)
    (suffixShort : (suffixText filename).length ≤ 5) (fileIdHolds : strAt fileIdAt 0 = .ok fileId)
    (urlHolds : strAt urlAt 0 = .ok url) (filenameHolds : strAt filenameAt 0 = .ok filename)
    (usrHolds : strAt usrAt 0 = .ok usr) (fileIdShort : fileId.length ≤ 255)
    (urlShort : url.length ≤ 255) (usrShort : usr.length ≤ 63) :
    ∃ record, recordAt now.val fileIdAt urlAt filenameAt usrAt = .ok record ∧
      record.length < valuesIdSize := by
  have sizes : suffixLen = 8 ∧ timeStringLen = 64 ∧ valuesIdSize = 1024 ∧ key.length = 2 := by
    decide
  obtain ⟨createTimeAt, formatted, createTimeHolds⟩ := formatTime_eq 0 now
  have timeShort := (trimText_length_le now.val).trans now.property.2
  have recordFits : (uploadInfo fileId url filename (trimText now.val) usr).record.length <
      valuesIdSize := by
    rw [record_eq_terminated]
    simp only [terminated, List.length_append, List.length_nil]
    omega
  have built := buildRecord_eq fileIdHolds urlHolds filenameHolds createTimeHolds usrHolds
  rw [if_pos ⟨by omega, recordFits⟩] at built
  have nulFree := uploadInfo_nulFree (strAt_nulFree fileIdHolds) (strAt_nulFree urlHolds)
    (strAt_nulFree filenameHolds) (strAt_nulFree createTimeHolds) (strAt_nulFree usrHolds)
  refine ⟨_, ?_, recordFits⟩
  unfold recordAt
  rw [formatted, ok_bind, built, ok_bind]
  exact strAt_padTo nulFree recordFits

/-- The name of the picture is the tightest of the three. -/
theorem textsFit_iff {filename : Bytes} (nulFree : 0 ∉ filename) (short : filename.length ≤ 255) :
    TextsFit filename ↔ (behindDot filename).length ≤ 5 := by
  have sizes : suffixLen = 8 ∧ picNameLen = 10 ∧ (lit ".png").length = 4 := by decide
  have behindShort := (behindDot_suffix filename).length_le
  rw [← suffixText_length_le_iff (by omega)]
  constructor
  · intro fits
    have holds : strAt (filename ++ [0]) 0 = .ok filename := strAt_append [] filename [] nulFree
    obtain ⟨printed, prints⟩ := fits.picName _ _ _ holds (zeros_length _) (zeros_length _)
    rw [printed_eq holds (zeros_length _) (zeros_length _)] at prints
    have short := (bounded_eq_ok prints).1
    rw [List.length_append] at short
    omega
  · intro suffixShort
    refine ⟨?_, ?_, ?_⟩
    · intro memory buffer holds size
      refine ⟨_, (getFileSuffix_overwrite holds buffer).trans (if_pos ?_)⟩
      omega
    · intro memory buffer picName holds size picSize
      refine ⟨_, (printed_eq holds size picSize).trans (if_pos ?_)⟩
      rw [List.length_append]
      omega
    · intro now fileIdAt urlAt filenameAt usrAt fileId url usr fileIdHolds urlHolds filenameHolds
        usrHolds fileIdShort urlShort usrShort
      exact recordAt_short now short suffixShort fileIdHolds urlHolds filenameHolds usrHolds
        fileIdShort urlShort usrShort

theorem textsFit_iff_jpeg : TextsFit (lit "a.jpeg") ↔ (behindDot (lit "a.jpeg")).length ≤ 5 :=
  textsFit_iff (by decide) (by decide)

/-- A suffix of six bytes fits its own buffer but not the name of the picture. -/
theorem not_textsFit_backup :
    getFileSuffix (lit "a.backup" ++ [0]) (zeros 8) = .ok (0, lit "backup" ++ [0, 0]) ∧
      ¬ TextsFit (lit "a.backup") := by
  refine ⟨by decide, ?_⟩
  intro fits
  obtain ⟨printed, prints⟩ := fits.picName (lit "a.backup" ++ [0]) (zeros 8) (zeros 10) (by decide)
    (by decide) (by decide)
  have outside : (getFileSuffix (lit "a.backup" ++ [0]) (zeros 8) >>= fun stored =>
      printPicName (zeros 10) stored.2) = .error .writeOutside := by decide
  cases outside.symm.trans prints

end DistStore.Suffixes

import DistStore.Fdfs
import DistStore.RowIsolation

/-!
# The address of a storage server

`get_url` takes the address from a line of `fdfs_file_info` and puts a url
together; `get_ip_url` cuts the url again, in front of the first `"/group"`.
The line is copied before its blanks are trimmed.
-/

set_option autoImplicit false

namespace DistStore.Address

open CMemory ListSearch Program Environment Trim Fdfs DataUse RowIsolation

/-- An output of `fdfs_file_info`: `field` is what the line of the address has
behind the key. -/
structure InfoText (output front field rest : Bytes) : Prop where
  shape : output = front ++ (infoKey ++ (field ++ 10 :: rest))
  first : find infoKey output = some front.length
  line : 10 ∉ field

section Line

variable {fdfsBuf output front field rest : Bytes}

theorem takeIp_eq (holds : strAt fdfsBuf 0 = .ok output) (info : InfoText output front field rest)
    (before : Byte) :
    takeIp before fdfsBuf =
      if field.length < ipBufLen then
        trimSpace before (padTo ipBufLen field) >>= fun trimmed => return trimmed.2
      else .error .writeOutside := by
  obtain ⟨rfl, first, line⟩ := info
  have begins : strAt fdfsBuf (front.length + infoKey.length) = .ok (field ++ 10 :: rest) := by
    have moved := strAt_drop holds (show front.length + infoKey.length ≤ _ by
      rw [List.length_append, List.length_append]
      omega)
    rwa [← List.drop_drop, List.drop_left, List.drop_left] at moved
  have newline : find [10] (field ++ 10 :: rest) = some field.length := by
    refine find_append_key (List.cons_ne_nil _ _) rest ?_
    intro occurs
    exact line (by simpa using occurs.subset)
  have inside : field.length ≤ (field ++ 10 :: rest).length := by
    rw [List.length_append]
    omega
  have copied := @strncpy_terminated (zeros ipBufLen) _ _ _ _ begins inside
  rw [List.take_left, zeros_length] at copied
  unfold takeIp strchr
  simp only [strstr_of_strAt infoKey holds, first, Option.map_some, ok_bind, deref_some,
    Nat.zero_add, strstr_of_strAt [10] begins, newline, Nat.add_sub_cancel_left]
  rw [← bind_assoc, copied]
  by_cases fits : field.length < ipBufLen
  · rw [if_pos fits, if_pos fits, overwrite_zeros fits]
    rfl
  · rw [if_neg fits, if_neg fits]
    rfl

theorem takeIp_fits (holds : strAt fdfsBuf 0 = .ok output) (info : InfoText output front field rest)
    (fits : field.length < ipBufLen) (before : Byte) :
    ∃ ip, takeIp before fdfsBuf = .ok ip ∧ strAt ip 0 = .ok (trimText field) := by
  have nulFree : 0 ∉ field := by
    intro member
    apply strAt_nulFree holds
    rw [info.shape]
    simp [member]
  have small : field.length < 2 ^ 31 := fits.trans (by decide)
  obtain ⟨trimmed, trims, text, -⟩ := trimSpace_strAt before (strAt_padTo nulFree fits) small
  refine ⟨trimmed, ?_, text⟩
  rw [takeIp_eq holds info, if_pos fits, trims]
  rfl

/-- The copy stays inside of `ip_buf` exactly when the address and the blanks
around it have at most 15 bytes. -/
theorem takeIp_inside_iff {leading address trailing : Bytes}
    (holds : strAt fdfsBuf 0 = .ok output)
    (info : InfoText output front (leading ++ address ++ trailing) rest) (before : Byte) :
    (∃ ip, takeIp before fdfsBuf = .ok ip) ↔
      leading.length + address.length + trailing.length ≤ 15 := by
  have lengths : (leading ++ address ++ trailing).length =
      leading.length + address.length + trailing.length := by
    rw [List.length_append, List.length_append]
  constructor
  · rintro ⟨ip, taken⟩
    rw [takeIp_eq holds info] at taken
    by_contra long
    rw [if_neg (show ¬ (leading ++ address ++ trailing).length < ipBufLen by
      rw [lengths]
      exact fun short => long (Nat.le_of_lt_succ short))] at taken
    cases taken
  · intro short
    obtain ⟨ip, taken, -⟩ := takeIp_fits holds info
      (show _ < 16 by rw [lengths]; omega) before
    exact ⟨ip, taken⟩

theorem takeIp_inside_dotted :
    (∃ ip, takeIp 0 (lit "source ip address: 10.0.0.1\nfile size: 3\n" ++ [0]) = .ok ip) ↔
      (lit " ").length + (lit "10.0.0.1").length + ([] : Bytes).length ≤ 15 := by
  have holds : strAt (lit "source ip address: 10.0.0.1\nfile size: 3\n" ++ [0]) 0 =
      .ok (lit "source ip address: 10.0.0.1\nfile size: 3\n") := by decide
  have info : InfoText (lit "source ip address: 10.0.0.1\nfile size: 3\n") []
      (lit " " ++ lit "10.0.0.1" ++ []) (lit "file size: 3\n") :=
    ⟨by decide, by decide, by decide⟩
  exact takeIp_inside_iff holds info 0

/-- The blank `fdfs_file_info` prints in front of an address of 15 bytes. -/
theorem takeIp_overruns :
    InfoText (lit "source ip address: 192.168.100.100\n") []
        (lit " " ++ lit "192.168.100.100" ++ []) [] ∧
      (lit "192.168.100.100").length ≤ 15 ∧
        takeIp 0 (lit "source ip address: 192.168.100.100\n" ++ [0]) = .error .writeOutside :=
  ⟨⟨by decide, by decide, by decide⟩, by decide, by decide⟩

end Line

/-! ## The url and its front -/

section Url

variable {ip fileId : Bytes}

/-- The first `"/group"` of a url is the one behind its address. -/
theorem find_group (plain : 47 ∉ ip) (notGroup : ¬ lit "group" <+: ip)
    (group : lit "group" <+: fileId) :
    find (lit "/group") (urlText ip fileId) = some (lit "http://" ++ ip).length := by
  obtain ⟨behind, rfl⟩ := group
  have shape : urlText ip (lit "group" ++ behind) =
      (lit "http://" ++ ip) ++ (lit "/group" ++ behind) := by
    unfold urlText
    rw [List.append_assoc]
    rfl
  have word : lit "/group" = lit "/grou" ++ [112] := by decide
  have scheme : lit "http://" ++ ip = 104 :: 116 :: 116 :: 112 :: 58 :: 47 :: 47 :: ip := rfl
  have slashFirst : lit "/group" = 47 :: lit "group" := by decide
  have notInIp : ¬ lit "/group" <:+: ip := fun occurs => plain (occurs.subset (by decide))
  rw [shape]
  apply find_append_key (by decide)
  intro occurs
  have inside : lit "/group" <:+: lit "http://" ++ ip := by
    rw [word] at occurs ⊢
    exact infix_of_append_front (by decide) (by simpa using occurs)
  have notSecond : ¬ lit "group" <+: 47 :: ip := by
    intro starts
    have first : lit "group" = 103 :: lit "roup" := by decide
    rw [first, List.cons_prefix_cons] at starts
    exact absurd starts.1 (by decide)
  -- an occurrence starts at one of the two slashes of the scheme
  rw [scheme, slashFirst] at inside
  rw [slashFirst] at notInIp
  simp [List.infix_cons_iff, List.cons_prefix_cons, notInIp, notGroup, notSecond] at inside

/-- A url is appended to the text its buffer holds. -/
theorem appendUrl_of_strAt {sUrl ipAt fileIdAt old : Bytes} (holds : strAt sUrl 0 = .ok old)
    (ipHolds : strAt ipAt 0 = .ok ip) (fileIdHolds : strAt fileIdAt 0 = .ok fileId)
    (fits : (old ++ urlText ip fileId).length < sUrl.length) :
    ∃ url, appendUrl sUrl ipAt fileIdAt = .ok url ∧
      strAt url 0 = .ok (old ++ urlText ip fileId) := by
  have schemeHolds : strAt (lit "http://" ++ [0]) 0 = .ok (lit "http://") := by decide
  have slashHolds : strAt (lit "/" ++ [0]) 0 = .ok (lit "/") := by decide
  unfold urlText at fits ⊢
  simp only [List.length_append] at fits
  obtain ⟨withScheme, first, firstSize, firstText⟩ :=
    strcat_of_strAt holds schemeHolds (by omega)
  obtain ⟨withIp, second, secondSize, secondText⟩ :=
    strcat_of_strAt firstText ipHolds (by rw [List.length_append]; omega)
  obtain ⟨withSlash, third, thirdSize, thirdText⟩ :=
    strcat_of_strAt secondText slashHolds (by simp only [List.length_append]; omega)
  obtain ⟨url, fourth, -, text⟩ :=
    strcat_of_strAt thirdText fileIdHolds (by simp only [List.length_append]; omega)
  refine ⟨url, ?_, by rw [text]; simp only [List.append_assoc]⟩
  unfold appendUrl
  simp only [first, second, third, fourth, ok_bind]

end Url

section Agreement

variable {env : Env} {sFileId sUrl sGetIpBuf output front field rest fileId : Bytes}

/-- `get_ip_url` finds the front of the url that `get_url` has made. -/
theorem getUrl_getIpUrl (piped : env (.pipe .getUrl) = true)
    (forked : env (.fork .getUrl) = .parent) (read : (env (.read .getUrl fileIdLen)).val = output)
    (nulFree : 0 ∉ output) (short : output.length < 256) (info : InfoText output front field rest)
    (addressFits : field.length ≤ 15) (plain : 47 ∉ trimText field)
    (notGroup : ¬ lit "group" <+: trimText field) (fileIdHolds : strAt sFileId 0 = .ok fileId)
    (group : lit "group" <+: fileId) (empty : strAt sUrl 0 = .ok [])
    (urlFits : (urlText (trimText field) fileId).length < sUrl.length)
    (ipFits : (lit "http://" ++ trimText field).length < sGetIpBuf.length) :
    ∃ url ipBuf, (getUrl sFileId sUrl).outcome env = .returned (0, url) ∧
      strAt url 0 = .ok (urlText (trimText field) fileId) ∧
      getIpUrl url sGetIpBuf = .ok (0, ipBuf) ∧
      strAt ipBuf 0 = .ok (lit "http://" ++ trimText field) := by
  have stored : store (zeros tempBufMaxLen) 0 (env (.read .getUrl fileIdLen)).val =
      .ok (padTo tempBufMaxLen output) := by
    rw [read]
    exact store_zeros tempBufMaxLen output short.le
  have outputHolds : strAt (padTo tempBufMaxLen output) 0 = .ok output := strAt_padTo nulFree short
  obtain ⟨ip, taken, ipHolds⟩ := takeIp_fits outputHolds info (Nat.lt_succ_of_le addressFits) 0
  obtain ⟨url, appended, urlHolds⟩ := appendUrl_of_strAt empty ipHolds fileIdHolds urlFits
  rw [List.nil_append] at urlHolds
  have found := find_group plain notGroup group
  have cut : ipText (urlText (trimText field) fileId) = lit "http://" ++ trimText field := by
    simp only [ipText, found]
    unfold urlText
    rw [← List.append_assoc, List.take_left]
  have split := getIpUrl_eq urlHolds sGetIpBuf
  rw [cut, if_pos ipFits] at split
  have ipFree : 0 ∉ lit "http://" ++ trimText field := by
    rw [List.mem_append, not_or]
    exact ⟨scheme_nulFree, strAt_nulFree ipHolds⟩
  exact ⟨url, _, getUrl_outcome piped forked stored taken appended, urlHolds, split,
    strAt_overwrite ipFree sGetIpBuf⟩

end Agreement

def groupId : Bytes := lit "group1/M00/00/00/group.c"

/-- `fdfs_file_info` prints a short address. -/
def infoPrinted : Env
  | .read .getUrl size => chunkOf (lit "source ip address: 10.0.0.1\n") size
  | call => allSucceed call

theorem getUrl_getIpUrl_printed :
    ∃ url ipBuf, (getUrl (groupId ++ [0]) (zeros 256)).outcome infoPrinted = .returned (0, url) ∧
      strAt url 0 = .ok (urlText (trimText (lit " 10.0.0.1")) groupId) ∧
      getIpUrl url (zeros 256) = .ok (0, ipBuf) ∧
      strAt ipBuf 0 = .ok (lit "http://" ++ trimText (lit " 10.0.0.1")) :=
  getUrl_getIpUrl rfl rfl rfl (by decide) (by decide)
    ⟨show _ = [] ++ (infoKey ++ (_ ++ 10 :: [])) by decide, by decide, by decide⟩ (by decide)
    (by decide) (by decide) (by decide) (by decide) (by decide +kernel)
    (by rw [zeros_length]; decide) (by rw [zeros_length]; decide)

end DistStore.Address

import DistStore.Upload

/-!
# When `upload` records a file that was not stored

A record belongs to a stored file when `fdfs_client` delivered an id and
`get_url` a url.  The module determines the outcomes of the calls around the
two commands for which no request can be recorded without them.
-/

set_option autoImplicit false

namespace DistStore.RecordedFiles

open CMemory Program Environment RedisOp Record Trim Query UploadFile Fdfs WriteRedis Upload

/-- Both functions return success and leave a text in their cleared buffers. -/
def Delivered (env : Env) : Prop :=
  ∃ filename fileId id url text,
    (fdfsClient filename (zeros fileIdLen)).outcome env = .returned (0, fileId) ∧
      strAt fileId 0 = .ok id ∧ id ≠ [] ∧
        (getUrl fileId (zeros fileIdLen)).outcome env = .returned (0, url) ∧
          strAt url 0 = .ok text ∧ text ≠ []

/-- A request touches the two keys only for a delivered file. -/
def RecordsDelivered (env : Env) (request : Request) : Prop :=
  ∀ command, .redisCommand command ∈ (handleRequest .cleared request).trace env → Delivered env

/-- The calls around the two commands. -/
def CommandCall : Call → Prop
  | .pipe _ => True
  | .fork _ => True
  | .close _ _ => True
  | .dup2 _ => True
  | .execlp _ _ => True
  | .wait _ => True
  | .read _ _ => True
  | .byteBefore _ => True
  | .leave _ => True
  | _ => False

/-- However the other calls end and whatever the request is, it is recorded only
if it was delivered. -/
def Safe (env : Env) : Prop :=
  ∀ (other : Env) (request : Request), (∀ call, CommandCall call → other call = env call) →
    RecordsDelivered other request

/-- The outcomes in which nothing undelivered is recorded: once `fdfs_client`
has read a text, `get_url` must be able to fork and must not come back in its
child, and where it finds an address the text must not be blank. -/
structure Sound (env : Env) (text : Bytes) : Prop where
  pipe : env (.pipe .getUrl) = true
  fork : env (.fork .getUrl) ≠ .failed
  exec : env (.fork .getUrl) = .child →
    env (.execlp .getUrl [lit "fdfs_file_info", fdfsClientConf, trimText text]) = true
  printed : env (.fork .getUrl) = .parent →
    (∃ ip, takeIp 0 (padTo tempBufMaxLen (env (.read .getUrl fileIdLen)).val) = .ok ip) →
      ∃ byte ∈ text, isspace byte = false

/-- The text `fdfs_client` reads in a process that goes on behind it. -/
def ClientReads (env : Env) (text : Bytes) : Prop :=
  env (.pipe .fdfsClient) = true ∧ env (.fork .fdfsClient) ≠ .child ∧
    strAt (padTo fileIdLen (env (.read .fdfsClient fileIdLen)).val) 0 = .ok text

section Proof

variable {env : Env} {fileId url : Bytes} {code : Int}

theorem clientReads_of_outcome {filename : Bytes}
    (returned : (fdfsClient filename (zeros fileIdLen)).outcome env = .returned (0, fileId)) :
    ∃ text, ClientReads env text ∧ strAt fileId 0 = .ok (trimText text) := by
  have outcome := (fdfsClient_satisfies env filename (zeros fileIdLen)).2 _ returned
  rcases outcome with ⟨failed, -⟩ | ⟨-, piped, notChild, filled, code, stored, trimmed⟩
  · cases failed
  · have outputFits := (env (.read .fdfsClient fileIdLen)).property
    rw [store_zeros _ _ outputFits] at stored
    cases stored
    have small : (padTo fileIdLen (env (.read .fdfsClient fileIdLen)).val).length ≤ 2 ^ 31 := by
      rw [padTo_length _ _ outputFits]
      decide
    obtain ⟨text, holds, -, textAt, -⟩ := trimSpace_eq_ok small trimmed
    exact ⟨text, ⟨piped, notChild, holds⟩, textAt⟩

theorem delivered_of_sound {filename text : Bytes}
    (returned : (fdfsClient filename (zeros fileIdLen)).outcome env = .returned (0, fileId))
    (idAt : strAt fileId 0 = .ok (trimText text)) (sound : Sound env text)
    (located : (getUrl fileId (zeros fileIdLen)).outcome env = .returned (code, url)) :
    Delivered env := by
  have outcome := (getUrl_satisfies env fileId (zeros fileIdLen)).2 _ located
  rcases outcome with ⟨-, -, failed⟩ | ⟨rfl, output, fdfsBuf, ip, read, stored, taken, appended⟩
  · exfalso
    rcases failed with noPipe | noFork | ⟨child, name, holds, returns⟩
    · rw [sound.pipe] at noPipe
      cases noPipe
    · exact sound.fork noFork
    · cases idAt.symm.trans holds
      rw [sound.exec child] at returns
      cases returns
  · obtain ⟨ipText, ipAt, -⟩ := takeIp_eq_ok taken
    obtain ⟨forked, rfl⟩ := infoOutput_eq_some read
    have outputFits : (env (.read .getUrl fileIdLen)).val.length ≤ tempBufMaxLen :=
      (env (.read .getUrl fileIdLen)).property
    rw [store_zeros _ _ outputFits] at stored
    cases stored
    obtain ⟨byte, member, printed⟩ := sound.printed forked ⟨ip, taken⟩
    have idNonempty : trimText text ≠ [] := by
      intro blank
      rw [(trimText_eq_nil_iff text).mp blank byte member] at printed
      cases printed
    rw [appendUrl_eq fileIdLen (by decide) ipAt idAt] at appended
    split at appended
    · rename_i fits
      cases appended
      exact ⟨filename, fileId, trimText text, _, _, returned, idAt, idNonempty, located,
        strAt_padTo (urlText_nulFree (strAt_nulFree ipAt) (strAt_nulFree idAt)) fits,
        urlText_ne_nil⟩
    · cases appended

/-- A command is sent only for a delivered file. -/
def OnlyDelivered (env : Env) : Call → Prop
  | .redisCommand _ => Delivered env
  | _ => True

theorem onlyDelivered_of_pipeCall {caller : Func} {command memory : Bytes} (call : Call)
    (made : PipeCall caller command memory call) : OnlyDelivered env call := by
  cases call with
  | redisCommand command => exact made.elim
  | _ => trivial

theorem onlyDelivered_of_uploadCall {src sFilename : Bytes} (call : Call)
    (made : UploadCall src sFilename call) : OnlyDelivered env call := by
  cases call with
  | redisCommand command => exact made.elim
  | _ => trivial

theorem onlyDelivered_of_delivered (delivered : Delivered env) (call : Call) :
    OnlyDelivered env call := by
  cases call with
  | redisCommand command => exact delivered
  | _ => trivial

theorem storeFile_onlyDelivered (sound : ∀ text, ClientReads env text → Sound env text)
    (usr body : Bytes) (len : Int) :
    (storeFile { Bufs.cleared with usr } len body).Satisfies env (OnlyDelivered env)
      fun _ => True := by
  refine Prog.Satisfies.bind ((uploadFile_satisfies env body len _).weaken
    onlyDelivered_of_uploadCall fun _ holds => holds) ?_
  rintro ⟨uploaded, filename⟩ - -
  simp only []
  split
  · exact satisfies_ofC fun _ _ => trivial
  · refine Prog.Satisfies.bind ((fdfsClient_satisfies env filename _).weaken
      onlyDelivered_of_pipeCall fun _ holds => holds) ?_
    rintro ⟨delivered, fileId⟩ returned -
    simp only []
    split
    · exact satisfies_ofC fun _ _ => trivial
    · rename_i success
      have zero : delivered = 0 := not_not.mp success
      subst zero
      obtain ⟨text, reads, idAt⟩ := clientReads_of_outcome returned
      refine satisfies_ofC_bind fun name _ => satisfies_ask_bind trivial ?_
      refine Prog.Satisfies.bind ((getUrl_satisfies env fileId _).weaken
        onlyDelivered_of_pipeCall fun _ holds => holds) ?_
      rintro ⟨code, url⟩ located -
      have delivered := delivered_of_sound returned idAt (sound text reads) located
      refine satisfies_ofC_bind fun usr' _ => ?_
      refine Prog.Satisfies.bind ((writeRedis_satisfies env fileId url filename usr').weaken
        (fun call _ => onlyDelivered_of_delivered delivered call) fun _ holds => holds) ?_
      exact fun _ _ _ => satisfies_ofC fun _ _ => trivial

/-- With sound outcomes every command is that of a delivered file. -/
theorem recordsDelivered_of_sound (sound : ∀ text, ClientReads env text → Sound env text)
    (request : Request) : RecordsDelivered env request := by
  have satisfied : (handleRequest .cleared request).Satisfies env (OnlyDelivered env)
      fun _ => True := by
    refine satisfies_ofC_bind ?_
    rintro ⟨got, usr⟩ -
    simp only []
    split
    · exact Prog.satisfies_ret trivial
    · refine satisfies_ofC_bind fun len _ => ?_
      split
      · exact satisfies_ofC fun _ _ => trivial
      · refine Prog.Satisfies.bind (getBuf_satisfies fun size => trivial) ?_
        rintro (_ | buf) - -
        · exact Prog.satisfies_ret trivial
        · exact satisfies_ofC_bind fun body _ => storeFile_onlyDelivered sound usr body len
  intro command member
  exact satisfied.1 (.redisCommand command) member

end Proof

/-! ## A request that is recorded -/

def smallBody : Bytes :=
  body (lit "-----") (lit "Content-Disposition: form-data; ") (lit "a.b")
    (lit "Content-Type: text/plain") (lit "x")

def smallRequest : Request where
  contentLength := some (lit "99" ++ [0])
  queryString := some (lit "x" ++ [0])
  stdin := smallBody

/-- The answers of `env` around the two commands, and success everywhere
else. -/
def completed (env : Env) : Env
  | .pipe caller => env (.pipe caller)
  | .fork caller => env (.fork caller)
  | .close caller pipeEnd => env (.close caller pipeEnd)
  | .dup2 caller => env (.dup2 caller)
  | .execlp caller arguments => env (.execlp caller arguments)
  | .wait caller => env (.wait caller)
  | .read caller size => env (.read caller size)
  | .byteBefore caller => env (.byteBefore caller)
  | .leave caller => env (.leave caller)
  | call => allSucceed call

theorem completed_eq (env : Env) (call : Call) (around : CommandCall call) :
    completed env call = env call := by
  cases call <;> first | rfl | exact around.elim

set_option maxRecDepth 1000 in
theorem smallBody_upload (env : Env) :
    ∃ filename, (uploadFile (smallBody ++ [0]) 99 (zeros filenameSize)).outcome (completed env) =
      .returned (0, filename) ∧ strAt filename 0 = .ok (lit "a.b") := by
  have length : (99 : Int) = smallBody.length := by decide
  have isInt : IsInt (smallBody.length : Nat) := by decide
  have extractable : Extractable (lit "-----") (lit "Content-Disposition: form-data; ")
      (lit "a.b") (lit "Content-Type: text/plain") (lit "x") :=
    ⟨by decide, takenName_fits_iff.mp (by decide), by decide, by decide⟩
  have named := takeName_eq (by decide) (by decide) (by decide) (by decide) isInt
    (zeros filenameSize)
  have room : (zeros filenameSize).length = filenameSize := zeros_length _
  have stores : UploadFile.Stores (smallBody ++ [0]) smallBody.length (zeros filenameSize)
      (lit "x") :=
    stores_of_extractable (by decide) (by decide) (by decide) isInt room extractable
  obtain ⟨filename, returned, -⟩ := stores (completed env) fun _ => rfl
  rw [← length] at returned
  have taken := (uploadFile_satisfies _ _ _ _).2 _ returned
  refine ⟨filename, returned, ?_⟩
  cases taken.symm.trans (named.trans (if_pos (by rw [room]; decide)))
  exact strAt_append [] (lit "a.b") _ (by decide)

/-- FastDFS and Redis answer as they do for a file that is stored. -/
def fileStored : Env
  | .read .fdfsClient size => chunkOf (lit "g1/a") size
  | .read .getUrl size => chunkOf (lit "source ip address: 10.0.0.1\n") size
  | .redisCommand (.zincrby _ _) => some (.string (lit "1"))
  | call => allSucceed call

theorem smallRequest_stored :
    (handleRequest .cleared smallRequest).outcome fileStored = .returned (.again .cleared) := by
  decide +kernel

theorem smallRequest_usr :
    getUsr smallRequest.queryString (zeros usrSize) = .ok (0, zeros usrSize) := by
  decide

theorem smallRequest_len : contentLen smallRequest.contentLength = .ok 99 := by decide

theorem smallRequest_buf {env : Env} (allocated : env (.malloc .getBuf (toSize (99 + 1))) ≠ none) :
    (getBuf 99).outcome env = .returned (some (zeros (toSize (99 + 1)))) :=
  getBuf_outcome (by decide) (by decide) allocated

theorem smallRequest_body : readBody 99 smallRequest.stdin (zeros (toSize (99 + 1))) =
    .ok (smallBody ++ [0]) := by
  have length : smallBody.length = 99 := by decide
  have read := readBody_eq 99 smallBody
  rw [List.take_of_length_le length.le, padTo, length] at read
  exact read

/-- The small request gets as far as `write_redis`, whatever `get_url` says. -/
theorem smallRequest_recorded {env : Env} {text fileId url urlText : Bytes} {code : Int}
    (identified : ∀ filename,
      (fdfsClient filename (zeros fileIdLen)).outcome (completed env) = .returned (0, fileId))
    (fileIdLength : fileId.length = fileIdLen) (idAt : strAt fileId 0 = .ok text)
    (located : (getUrl fileId (zeros fileIdLen)).outcome (completed env) = .returned (code, url))
    (urlLength : url.length = fileIdLen) (urlAt : strAt url 0 = .ok urlText) :
    ∃ command, .redisCommand command ∈
      (handleRequest .cleared smallRequest).trace (completed env) := by
  obtain ⟨filename, uploaded, filenameAt⟩ := smallBody_upload env
  have usrCopied : strcpy (zeros usrSize) 0 (lit "user" ++ [0]) 0 =
      .ok (padTo usrSize (lit "user")) := by decide
  have textShort := strAt_length idAt
  have urlShort := strAt_length urlAt
  have recordFits : (uploadInfo text urlText (lit "a.b") (trimText []) (lit "user")).record.length <
      valuesIdSize := by
    have lengths : (lit "a.b").length = 3 ∧ (trimText []).length = 0 ∧ (lit "user").length = 4 ∧
        (suffixText (lit "a.b")).length = 1 ∧ key.length = 2 ∧ fileIdLen = 256 ∧
          valuesIdSize = 1024 := by decide
    simp only [uploadInfo, FileInfo.record_eq, List.length_append]
    omega
  have usrAt := strAt_padTo (show 0 ∉ lit "user" by decide)
    (show (lit "user").length < usrSize by decide)
  exact ⟨_, mem_handleRequest smallRequest_usr smallRequest_len (by decide)
    (smallRequest_buf (Option.some_ne_none _)) smallRequest_body uploaded filenameAt
    (identified filename) located usrCopied
    (writeRedis_pushes idAt urlAt filenameAt usrAt rfl rfl rfl (by decide) recordFits)⟩

section Exact

variable {env : Env} {text fileId : Bytes}

/-- What `get_url` returns when the small request is delivered. -/
theorem url_of_safe (safe : Safe env)
    (identified : ∀ filename,
      (fdfsClient filename (zeros fileIdLen)).outcome (completed env) = .returned (0, fileId))
    (fileIdLength : fileId.length = fileIdLen) (idAt : strAt fileId 0 = .ok (trimText text))
    {url urlText : Bytes} {code : Int}
    (located : (getUrl fileId (zeros fileIdLen)).outcome (completed env) = .returned (code, url))
    (urlLength : url.length = fileIdLen) (urlAt : strAt url 0 = .ok urlText) :
    code = 0 ∧ trimText text ≠ [] := by
  obtain ⟨command, member⟩ :=
    smallRequest_recorded identified fileIdLength idAt located urlLength urlAt
  obtain ⟨filename, fileId', id, url', text', returned, idAt', idNonempty, found, -, -⟩ :=
    safe (completed env) smallRequest (completed_eq env) command member
  cases (identified filename).symm.trans returned
  cases idAt.symm.trans idAt'
  cases located.symm.trans found
  exact ⟨rfl, idNonempty⟩

theorem sound_of_safe (safe : Safe env) (reads : ClientReads env text) : Sound env text := by
  obtain ⟨piped, notChild, textAt⟩ := reads
  have outputFits := (env (.read .fdfsClient fileIdLen)).property
  have small : text.length < 2 ^ 31 := by
    have inside := strAt_length textAt
    rw [padTo_length _ _ outputFits] at inside
    exact lt_of_lt_of_le (by omega) (show fileIdLen ≤ 2 ^ 31 by decide)
  obtain ⟨fileId, trimmed, idAt, length⟩ := trimSpace_strAt 0 textAt small
  have fileIdLength : fileId.length = fileIdLen := length.trans (padTo_length _ _ outputFits)
  have identified : ∀ filename,
      (fdfsClient filename (zeros fileIdLen)).outcome (completed env) = .returned (0, fileId) :=
    fun filename => fdfsClient_outcome filename piped notChild
      (store_zeros fileIdLen _ outputFits) trimmed
  have zerosLength : (zeros fileIdLen).length = fileIdLen := zeros_length _
  have notFailed : ¬ UrlFailed (completed env) fileId := by
    intro failed
    have located := getUrl_failed (zeros fileIdLen) failed
    have delivered := url_of_safe safe identified fileIdLength idAt located zerosLength rfl
    exact absurd delivered.1 (by decide)
  refine ⟨?_, ?_, ?_, ?_⟩
  · cases pipe : env (.pipe .getUrl) with
    | true => rfl
    | false => exact absurd (Or.inl pipe) notFailed
  · intro forkFails
    exact notFailed (Or.inr (Or.inl forkFails))
  · intro child
    cases exec : env (.execlp .getUrl [lit "fdfs_file_info", fdfsClientConf, trimText text]) with
    | true => rfl
    | false => exact absurd (Or.inr (Or.inr ⟨child, _, idAt, exec⟩)) notFailed
  · rintro parent ⟨ip, taken⟩
    by_contra blank
    have empty : trimText text = [] := by
      refine (trimText_eq_nil_iff text).mpr fun byte member => ?_
      by_contra notSpace
      exact blank ⟨byte, member, Bool.eq_false_iff.mpr notSpace⟩
    obtain ⟨ipText, ipAt, ipShort⟩ := takeIp_eq_ok taken
    have fits : (urlText ipText (trimText text)).length < fileIdLen := by
      have lengths : (lit "http://").length = 7 ∧ (lit "/").length = 1 ∧ fileIdLen = 256 ∧
          ipBufLen = 16 := by decide
      rw [empty]
      simp only [urlText, List.length_append, List.length_nil]
      omega
    have appended := (appendUrl_eq fileIdLen (by decide) ipAt idAt).trans (if_pos fits)
    have infoFits : (env (.read .getUrl fileIdLen)).val.length ≤ tempBufMaxLen :=
      (env (.read .getUrl fileIdLen)).property
    have pipe : completed env (.pipe .getUrl) = true := by
      by_contra noPipe
      exact notFailed (Or.inl (Bool.eq_false_iff.mpr noPipe))
    have located := getUrl_outcome pipe parent (store_zeros tempBufMaxLen _ infoFits) taken appended
    have delivered := url_of_safe safe identified fileIdLength idAt located
      (padTo_length _ _ fits.le)
      (strAt_padTo (urlText_nulFree (strAt_nulFree ipAt) (strAt_nulFree idAt)) fits)
    exact delivered.2 empty

/-- The outcomes around the two commands for which no request records a file
that was not delivered. -/
theorem safe_iff (env : Env) :
    Safe env ↔ ∀ text, ClientReads env text → Sound env text := by
  constructor
  · intro safe text reads
    exact sound_of_safe safe reads
  · intro sound other request same
    refine recordsDelivered_of_sound ?_ request
    intro text reads
    simp only [ClientReads, same _ (show CommandCall (.pipe .fdfsClient) from trivial),
      same _ (show CommandCall (.fork .fdfsClient) from trivial),
      same _ (show CommandCall (.read .fdfsClient fileIdLen) from trivial)] at reads
    obtain ⟨pipe, fork, exec, printed⟩ := sound text reads
    have fork' := same (.fork .getUrl) trivial
    have exec' := same (.execlp .getUrl [lit "fdfs_file_info", fdfsClientConf, trimText text]) trivial
    have info' := same (.read .getUrl fileIdLen) trivial
    exact ⟨(same (.pipe .getUrl) trivial).trans pipe, fun failed => fork (fork'.symm.trans failed),
      fun child => exec'.trans (exec (fork'.symm.trans child)),
      fun parent found => printed (fork'.symm.trans parent) (info' ▸ found)⟩

end Exact

/-- FastDFS has stored the file, and `get_url` cannot open its pipe. -/
def urlPipeFails : Env
  | .pipe .getUrl => false
  | .read .fdfsClient size => ⟨(lit "g1/a").take size, List.length_take_le _ _⟩
  | call => allSucceed call

/-- The file is recorded without a url. -/
theorem not_recordsDelivered_url : ¬ RecordsDelivered urlPipeFails smallRequest := by
  have textAt : strAt (padTo fileIdLen (lit "g1/a")) 0 = .ok (lit "g1/a") :=
    strAt_padTo (by decide) (by decide)
  obtain ⟨fileId, trimmed, idAt, length⟩ := trimSpace_strAt 0 textAt (by decide)
  have fileIdLength := length.trans (padTo_length fileIdLen (lit "g1/a") (by decide))
  have same : completed urlPipeFails = urlPipeFails := by
    funext call
    cases call with
    | pipe caller => cases caller <;> rfl
    | read caller size => cases caller <;> rfl
    | _ => rfl
  have identified : ∀ filename, (fdfsClient filename (zeros fileIdLen)).outcome
      (completed urlPipeFails) = .returned (0, fileId) :=
    fun filename => fdfsClient_outcome filename rfl nofun
      (store_zeros fileIdLen (lit "g1/a") (by decide)) trimmed
  have located := getUrl_failed (zeros fileIdLen)
    (Or.inl rfl : UrlFailed (completed urlPipeFails) fileId)
  obtain ⟨command, member⟩ := smallRequest_recorded identified fileIdLength idAt located
    List.length_replicate rfl
  rw [same] at identified located member
  intro delivered
  obtain ⟨filename, fileId', id, url, text, returned, -, -, found, -⟩ := delivered command member
  cases (identified filename).symm.trans returned
  cases located.symm.trans found

end DistStore.RecordedFiles

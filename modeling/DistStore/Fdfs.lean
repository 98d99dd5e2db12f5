import DistStore.Trim
import DistStore.Environment

/-!
# `fdfs_client` and `get_url`

Both functions fork, let the child run a FastDFS command with its output going
into a pipe, and read the pipe in the parent.  The two differ in what they do
when `pipe` or `fork` fails: `fdfs_client` exits or goes on as the parent,
`get_url` returns an error.
-/

set_option autoImplicit false

namespace DistStore.Fdfs

open CMemory Program Environment Trim

def fileIdLen : Nat := 256

def tempBufMaxLen : Nat := 256

def ipBufLen : Nat := 16

def fdfsClientConf : Bytes := lit "./conf/client.conf"

/-- Search for a byte other than NUL. -/
def strchr (memory : Bytes) (pointer : Nat) (byte : Byte) : C (Option Nat) :=
  strstr memory pointer [byte]

/-- The child's branch: its standard output is replaced and `execlp` replaces
the process, or returns. -/
def runCommand (caller : Func) (arguments : List Bytes) : Code Unit := do
  let _ ← ask (.close caller .readEnd)
  let _ ← ask (.dup2 caller)
  match ← ask (.execlp caller arguments) with
  | true => .stop .replaced
  | false => return ()

/-- The parent's branch up to the reading of the pipe. -/
def readCommand (caller : Func) (buffer : Bytes) : Code Bytes := do
  let _ ← ask (.close caller .writeEnd)
  let _ ← ask (.wait caller)
  let output ← ask (.read caller fileIdLen)
  ofC (store buffer 0 output.val)

/-- The branch of the parent in `fdfs_client`. -/
def readFileId (sFileId : Bytes) : Code (Int × Bytes) := do
  let filled ← readCommand .fdfsClient sFileId
  let before ← ask (.byteBefore .fdfsClient)
  let (_, fileId) ← ofC (trimSpace before filled)
  let _ ← ask (.leave .fdfsClient)
  return (0, fileId)

/-- `fdfs_client`: the returned code and the buffer of the file id.  A failed
`fork` is logged and takes the branch of the parent. -/
def fdfsClient (sFilename sFileId : Bytes) : Code (Int × Bytes) := do
  match ← ask (.pipe .fdfsClient) with
  | false => .stop (.exit 1)
  | true =>
      match ← ask (.fork .fdfsClient) with
      | .child =>
          let name ← ofC (strAt sFilename 0)
          runCommand .fdfsClient [lit "fdfs_upload_file", fdfsClientConf, name]
          let _ ← ask (.leave .fdfsClient)
          return (-1, sFileId)
      | .failed | .parent => readFileId sFileId

def infoKey : Bytes := lit "source ip address:"

/-- The address in the output of `fdfs_file_info`. -/
def takeIp (before : Byte) (fdfsBuf : Bytes) : C Bytes := do
  let found ← deref (← strstr fdfsBuf 0 infoKey)
  let begin_ := found + infoKey.length
  let end_ ← deref (← strchr fdfsBuf begin_ 10)
  let ipLen := end_ - begin_
  let copied ← strncpy (zeros ipBufLen) 0 fdfsBuf begin_ ipLen
  let ended ← store copied ipLen [0]
  let (_, ip) ← trimSpace before ended
  return ip

/-- The url is appended to what its buffer holds. -/
def appendUrl (sUrl ip sFileId : Bytes) : C Bytes := do
  let withScheme ← strcat sUrl (lit "http://" ++ [0]) 0
  let withIp ← strcat withScheme ip 0
  let withSlash ← strcat withIp (lit "/" ++ [0]) 0
  strcat withSlash sFileId 0

/-- `get_url`: the returned code and the buffer of the url. -/
def getUrl (sFileId sUrl : Bytes) : Code (Int × Bytes) := do
  match ← ask (.pipe .getUrl) with
  | false =>
      let _ ← ask (.leave .getUrl)
      return (-1, sUrl)
  | true =>
      match ← ask (.fork .getUrl) with
      | .failed =>
          let _ ← ask (.leave .getUrl)
          return (-1, sUrl)
      | .child =>
          let fileId ← ofC (strAt sFileId 0)
          runCommand .getUrl [lit "fdfs_file_info", fdfsClientConf, fileId]
          let _ ← ask (.leave .getUrl)
          return (-1, sUrl)
      | .parent =>
          let fdfsBuf ← readCommand .getUrl (zeros tempBufMaxLen)
          let before ← ask (.byteBefore .getUrl)
          let ip ← ofC (takeIp before fdfsBuf)
          let url ← ofC (appendUrl sUrl ip sFileId)
          let _ ← ask (.leave .getUrl)
          return (0, url)

/-! ## What the two functions do in a run -/

/-- The calls of a function that runs a command on the text in `memory`. -/
def PipeCall (caller : Func) (command memory : Bytes) : Call → Prop
  | .execlp func arguments => func = caller ∧
      ∃ name, strAt memory 0 = .ok name ∧ arguments = [command, fdfsClientConf, name]
  | .pipe func => func = caller
  | .fork func => func = caller
  | .close func _ => func = caller
  | .dup2 func => func = caller
  | .wait func => func = caller
  | .read func _ => func = caller
  | .byteBefore func => func = caller
  | .leave func => func = caller
  | _ => False

/-- What `fdfs_file_info` printed, if `get_url` came to read it. -/
def infoOutput (env : Env) : Option (Chunk fileIdLen) :=
  match env (.pipe .getUrl), env (.fork .getUrl) with
  | true, .parent => some (env (.read .getUrl fileIdLen))
  | _, _ => none

/-- The outcomes in which `get_url` returns its error. -/
def UrlFailed (env : Env) (sFileId : Bytes) : Prop :=
  env (.pipe .getUrl) = false ∨ env (.fork .getUrl) = .failed ∨
    (env (.fork .getUrl) = .child ∧ ∃ name, strAt sFileId 0 = .ok name ∧
      env (.execlp .getUrl [lit "fdfs_file_info", fdfsClientConf, name]) = false)

theorem infoOutput_of_failed {env : Env} {sFileId : Bytes} (failed : UrlFailed env sFileId) :
    infoOutput env = none := by
  rcases failed with piped | forked | ⟨forked, -⟩
  · simp only [infoOutput, piped]
  · cases piped : env (.pipe .getUrl) <;> simp only [infoOutput, piped, forked]
  · cases piped : env (.pipe .getUrl) <;> simp only [infoOutput, piped, forked]

theorem infoOutput_eq_some {env : Env} {output : Chunk fileIdLen}
    (read : infoOutput env = some output) :
    env (.fork .getUrl) = .parent ∧ env (.read .getUrl fileIdLen) = output := by
  cases piped : env (.pipe .getUrl) with
  | false =>
      simp only [infoOutput, piped] at read
      cases read
  | true =>
      cases forked : env (.fork .getUrl) with
      | failed =>
          simp only [infoOutput, piped, forked] at read
          cases read
      | child =>
          simp only [infoOutput, piped, forked] at read
          cases read
      | parent =>
          simp only [infoOutput, piped, forked] at read
          exact ⟨rfl, Option.some.inj read⟩

theorem takeIp_before (before other : Byte) (fdfsBuf : Bytes) :
    takeIp before fdfsBuf = takeIp other fdfsBuf := by
  simp only [takeIp, trimSpace_before before other]

section Runs

variable (env : Env)

theorem runCommand_satisfies (caller : Func) (command : Bytes) {memory name : Bytes}
    (holds : strAt memory 0 = .ok name) :
    (runCommand caller [command, fdfsClientConf, name]).Satisfies env
      (PipeCall caller command memory)
      fun _ => env (.execlp caller [command, fdfsClientConf, name]) = false := by
  refine satisfies_ask_bind rfl (satisfies_ask_bind rfl
    (satisfies_ask_bind ⟨rfl, name, holds, rfl⟩ ?_))
  cases replaced : env (.execlp caller [command, fdfsClientConf, name]) with
  | true => exact Prog.satisfies_stop _
  | false => exact Prog.satisfies_ret rfl

theorem readCommand_satisfies (caller : Func) (command memory buffer : Bytes) :
    (readCommand caller buffer).Satisfies env (PipeCall caller command memory)
      fun filled => store buffer 0 (env (.read caller fileIdLen)).val = .ok filled :=
  satisfies_ask_bind rfl (satisfies_ask_bind rfl (satisfies_ask_bind rfl
    (satisfies_ofC fun _ stored => stored)))

theorem readFileId_satisfies (sFilename sFileId : Bytes) :
    (readFileId sFileId).Satisfies env
      (PipeCall .fdfsClient (lit "fdfs_upload_file") sFilename)
      fun result => result.1 = 0 ∧ ∃ filled code,
        store sFileId 0 (env (.read .fdfsClient fileIdLen)).val = .ok filled ∧
          trimSpace 0 filled = .ok (code, result.2) := by
  refine (readCommand_satisfies env .fdfsClient _ sFilename sFileId).bind ?_
  intro filled _ stored
  refine satisfies_ask_bind rfl (satisfies_ofC_bind ?_)
  rintro ⟨code, fileId⟩ trimmed
  have sameTrim := (trimSpace_before 0 _ filled).trans trimmed
  exact satisfies_ask_bind rfl (Prog.satisfies_ret ⟨rfl, filled, code, stored, sameTrim⟩)

/-- The file id is the trimmed output of the command; with the code `-1` the
buffer is as it was. -/
theorem fdfsClient_satisfies (sFilename sFileId : Bytes) :
    (fdfsClient sFilename sFileId).Satisfies env
      (PipeCall .fdfsClient (lit "fdfs_upload_file") sFilename)
      fun result => (result.1 = -1 ∧ result.2 = sFileId) ∨
        (result.1 = 0 ∧ env (.pipe .fdfsClient) = true ∧ env (.fork .fdfsClient) ≠ .child ∧
          ∃ filled code, store sFileId 0 (env (.read .fdfsClient fileIdLen)).val = .ok filled ∧
            trimSpace 0 filled = .ok (code, result.2)) := by
  refine satisfies_ask_bind rfl ?_
  cases env (.pipe .fdfsClient) with
  | false => exact Prog.satisfies_stop _
  | true =>
      refine satisfies_ask_bind rfl ?_
      cases env (.fork .fdfsClient) with
      | failed =>
          exact (readFileId_satisfies env sFilename sFileId).weaken (fun _ made => made)
            fun _ holds => Or.inr ⟨holds.1, rfl, nofun, holds.2⟩
      | parent =>
          exact (readFileId_satisfies env sFilename sFileId).weaken (fun _ made => made)
            fun _ holds => Or.inr ⟨holds.1, rfl, nofun, holds.2⟩
      | child =>
          refine satisfies_ofC_bind fun name holds => ?_
          refine (runCommand_satisfies env .fdfsClient _ holds).bind fun _ _ _ => ?_
          exact satisfies_ask_bind rfl (Prog.satisfies_ret (Or.inl ⟨rfl, rfl⟩))

/-- The url is appended when the parent has read the output; otherwise the code
is `-1` and the buffer is as it was. -/
theorem getUrl_satisfies (sFileId sUrl : Bytes) :
    (getUrl sFileId sUrl).Satisfies env (PipeCall .getUrl (lit "fdfs_file_info") sFileId)
      fun result => (result.1 = -1 ∧ result.2 = sUrl ∧ UrlFailed env sFileId) ∨
        (result.1 = 0 ∧ ∃ output fdfsBuf ip, infoOutput env = some output ∧
          store (zeros tempBufMaxLen) 0 output.val = .ok fdfsBuf ∧
            takeIp 0 fdfsBuf = .ok ip ∧ appendUrl sUrl ip sFileId = .ok result.2) := by
  refine satisfies_ask_bind rfl ?_
  cases piped : env (.pipe .getUrl) with
  | false =>
      exact satisfies_ask_bind rfl
        (Prog.satisfies_ret (Or.inl ⟨rfl, rfl, Or.inl piped⟩))
  | true =>
      refine satisfies_ask_bind rfl ?_
      cases forked : env (.fork .getUrl) with
      | failed =>
          exact satisfies_ask_bind rfl
            (Prog.satisfies_ret (Or.inl ⟨rfl, rfl, Or.inr (Or.inl forked)⟩))
      | child =>
          refine satisfies_ofC_bind fun name holds => ?_
          refine (runCommand_satisfies env .getUrl _ holds).bind fun _ _ returned => ?_
          exact satisfies_ask_bind rfl (Prog.satisfies_ret
            (Or.inl ⟨rfl, rfl, Or.inr (Or.inr ⟨forked, name, holds, returned⟩)⟩))
      | parent =>
          refine (readCommand_satisfies env .getUrl _ sFileId _).bind ?_
          intro fdfsBuf _ stored
          refine satisfies_ask_bind rfl (satisfies_ofC_bind fun ip taken => ?_)
          refine satisfies_ofC_bind fun url appended => ?_
          have sameIp := (takeIp_before 0 _ fdfsBuf).trans taken
          exact satisfies_ask_bind rfl (Prog.satisfies_ret (Or.inr ⟨rfl, _, fdfsBuf, ip,
            by simp only [infoOutput, piped, forked], stored, sameIp, appended⟩))

end Runs

/-! ## The url -/

def urlText (ip fileId : Bytes) : Bytes := lit "http://" ++ (ip ++ (lit "/" ++ fileId))

theorem scheme_nulFree : 0 ∉ lit "http://" := by decide

theorem slash_nulFree : 0 ∉ lit "/" := by decide

section Url

variable {ipAt fileIdAt ip fileId : Bytes}

/-- In a cleared buffer the url is complete, if it fits. -/
theorem appendUrl_eq (size : Nat) (positive : 0 < size) (ipHolds : strAt ipAt 0 = .ok ip)
    (fileIdHolds : strAt fileIdAt 0 = .ok fileId) :
    appendUrl (zeros size) ipAt fileIdAt =
      if (urlText ip fileId).length < size then .ok (padTo size (urlText ip fileId))
      else .error .writeOutside := by
  have ipFree := strAt_nulFree ipHolds
  have schemeHolds : strAt (lit "http://" ++ [0]) 0 = .ok (lit "http://") := by decide
  have slashHolds : strAt (lit "/" ++ [0]) 0 = .ok (lit "/") := by decide
  have first := strcat_padTo (show 0 ∉ ([] : Bytes) by simp) positive schemeHolds
  rw [padTo_nil, List.nil_append] at first
  rw [appendUrl, first]
  -- each text fits when the whole url does
  have whole : urlText ip fileId = lit "http://" ++ ip ++ lit "/" ++ fileId := by
    simp only [urlText, List.append_assoc]
  rw [whole]
  simp only [List.length_append]
  refine bounded_bind (fun schemeFits => ?_) fun _ => by omega
  rw [strcat_padTo scheme_nulFree schemeFits ipHolds, List.length_append]
  refine bounded_bind (fun ipFits => ?_) fun _ => by omega
  have withIpFree : 0 ∉ lit "http://" ++ ip := by simp [scheme_nulFree, ipFree]
  rw [strcat_padTo withIpFree (by rwa [List.length_append]) slashHolds, List.length_append,
    List.length_append]
  refine bounded_bind (fun slashFits => ?_) fun _ => by omega
  have withSlashFree : 0 ∉ lit "http://" ++ ip ++ lit "/" := by simp [scheme_nulFree, ipFree, slash_nulFree]
  rw [strcat_padTo withSlashFree (by simpa only [List.length_append] using slashFits) fileIdHolds]
  simp only [List.length_append]

theorem urlText_ne_nil : urlText ip fileId ≠ [] := by
  intro empty
  have front := (List.append_eq_nil_iff.mp empty).1
  revert front
  decide

theorem urlText_nulFree (ipFree : 0 ∉ ip) (fileIdFree : 0 ∉ fileId) : 0 ∉ urlText ip fileId := by
  simp [urlText, scheme_nulFree, slash_nulFree, ipFree, fileIdFree]

theorem takeIp_eq_ok {before : Byte} {fdfsBuf : Bytes} (taken : takeIp before fdfsBuf = .ok ipAt) :
    ∃ text, strAt ipAt 0 = .ok text ∧ text.length < ipBufLen := by
  obtain ⟨found, -, afterFound⟩ := (bind_eq_ok_iff _ _ _).mp taken
  obtain ⟨position, -, afterPosition⟩ := (bind_eq_ok_iff _ _ _).mp afterFound
  obtain ⟨end_, -, afterEnd⟩ := (bind_eq_ok_iff _ _ _).mp afterPosition
  obtain ⟨position', -, afterPosition'⟩ := (bind_eq_ok_iff _ _ _).mp afterEnd
  obtain ⟨copied, copies, afterCopy⟩ := (bind_eq_ok_iff _ _ _).mp afterPosition'
  obtain ⟨ended, ends, afterEnded⟩ := (bind_eq_ok_iff _ _ _).mp afterCopy
  obtain ⟨⟨code, ip⟩, trimmed, same⟩ := (bind_eq_ok_iff _ _ _).mp afterEnded
  cases same
  have endedLength : ended.length = ipBufLen := by
    rw [store_length ends, strncpy_length copies, zeros_length]
  have small : ended.length ≤ 2 ^ 31 := by
    rw [endedLength]
    decide
  obtain ⟨text, -, -, textAt, length⟩ := trimSpace_eq_ok small trimmed
  refine ⟨trimText text, textAt, ?_⟩
  obtain ⟨-, rest, shape⟩ := (strAt_eq_ok_iff _ _ _).mp textAt
  rw [List.drop_zero] at shape
  rw [← endedLength, ← length, shape, List.length_append, List.length_cons]
  omega

end Url

theorem appendUrl_length {sUrl ip sFileId url : Bytes}
    (appended : appendUrl sUrl ip sFileId = .ok url) : url.length = sUrl.length := by
  obtain ⟨withScheme, first, afterScheme⟩ := (bind_eq_ok_iff _ _ _).mp appended
  obtain ⟨withIp, second, afterIp⟩ := (bind_eq_ok_iff _ _ _).mp afterScheme
  obtain ⟨withSlash, third, fourth⟩ := (bind_eq_ok_iff _ _ _).mp afterIp
  rw [strcat_length fourth, strcat_length third, strcat_length second, strcat_length first]

/-! ## How the two functions end -/

section Outcomes

variable {env : Env}

theorem runCommand_outcome {caller : Func} {arguments : List Bytes}
    (returned : env (.execlp caller arguments) = false) :
    (runCommand caller arguments).outcome env = .returned () := by
  simp only [runCommand, outcome_ask_bind]
  rw [returned]
  rfl

/-- Every process but the child delivers the trimmed output. -/
theorem fdfsClient_outcome (sFilename : Bytes) {sFileId filled fileId : Bytes} {code : Int}
    (piped : env (.pipe .fdfsClient) = true) (notChild : env (.fork .fdfsClient) ≠ .child)
    (stored : store sFileId 0 (env (.read .fdfsClient fileIdLen)).val = .ok filled)
    (trimmed : trimSpace 0 filled = .ok (code, fileId)) :
    (fdfsClient sFilename sFileId).outcome env = .returned (0, fileId) := by
  have read : (readFileId sFileId).outcome env = .returned (0, fileId) := by
    have sameTrim := (trimSpace_before (env (.byteBefore .fdfsClient)) 0 filled).trans trimmed
    simp [readFileId, readCommand, stored, sameTrim]
  rw [fdfsClient, outcome_ask_bind, piped]
  simp only [outcome_ask_bind]
  cases forked : env (.fork .fdfsClient) with
  | failed => exact read
  | parent => exact read
  | child => exact absurd forked notChild

theorem getUrl_outcome {sFileId sUrl fdfsBuf ip url : Bytes} (piped : env (.pipe .getUrl) = true)
    (forked : env (.fork .getUrl) = .parent)
    (stored : store (zeros tempBufMaxLen) 0 (env (.read .getUrl fileIdLen)).val = .ok fdfsBuf)
    (taken : takeIp 0 fdfsBuf = .ok ip) (appended : appendUrl sUrl ip sFileId = .ok url) :
    (getUrl sFileId sUrl).outcome env = .returned (0, url) := by
  have sameIp := (takeIp_before (env (.byteBefore .getUrl)) 0 fdfsBuf).trans taken
  rw [getUrl, outcome_ask_bind, piped]
  simp only [outcome_ask_bind]
  rw [forked]
  simp [readCommand, stored, sameIp, appended]

theorem getUrl_failed {sFileId : Bytes} (sUrl : Bytes) (failed : UrlFailed env sFileId) :
    (getUrl sFileId sUrl).outcome env = .returned (-1, sUrl) := by
  rw [getUrl, outcome_ask_bind]
  cases piped : env (.pipe .getUrl) with
  | false => rfl
  | true =>
      rcases failed with noPipe | forked | ⟨forked, name, holds, returned⟩
      · rw [piped] at noPipe
        cases noPipe
      · simp only [outcome_ask_bind]
        rw [forked]
        rfl
      · simp only [outcome_ask_bind]
        rw [forked]
        rw [holds, ofC_ok, Prog.ret_bind,
          Prog.outcome_bind_returned _ (runCommand_outcome returned)]
        rfl

end Outcomes

end DistStore.Fdfs

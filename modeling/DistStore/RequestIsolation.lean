import DistStore.RecordedFiles

/-!
# Uploads do not see earlier uploads

Whenever the loop of `upload` is back at `FCGI_Accept` its buffers are zero.
What a request passes to its environment is therefore computed from that
request, the clock and the output of the two commands alone.
-/

set_option autoImplicit false

namespace DistStore.RequestIsolation

open CMemory Program Environment RedisOp Trim Query UploadFile Fdfs WriteRedis Upload
open RecordedFiles (smallRequest fileStored smallRequest_stored)

/-- The clock and the output of the two commands; `info` is `none` when
`get_url` did not come to read the output. -/
structure Outputs where
  clock : Bytes
  upload : Bytes
  info : Option Bytes

def outputsOf (env : Env) : Outputs where
  clock := (env (.strftime (lit "%Y-%m-%d %H-%M:%S") timeStringLen)).val
  upload := (env (.read .fdfsClient fileIdLen)).val
  info := (infoOutput env).map (·.val)

/-! ## What a request produces from cleared buffers -/

def producedName (request : Request) : C Bytes := do
  let len ← contentLen request.contentLength
  let body ← readBody len request.stdin (zeros (toSize (len + 1)))
  takeName body (zeros filenameSize)

def producedFileId (outputs : Outputs) : C Bytes := do
  let filled ← store (zeros fileIdLen) 0 outputs.upload
  let (_, fileId) ← trimSpace 0 filled
  return fileId

def producedUrl (outputs : Outputs) : C Bytes :=
  match outputs.info with
  | none => .ok (zeros fileIdLen)
  | some output => do
      let fdfsBuf ← store (zeros tempBufMaxLen) 0 output
      let ip ← takeIp 0 fdfsBuf
      let fileId ← producedFileId outputs
      appendUrl (zeros fileIdLen) ip fileId

def producedRecord (request : Request) (outputs : Outputs) : C Bytes := do
  let (_, found) ← getUsr request.queryString (zeros usrSize)
  let filename ← producedName request
  let fileId ← producedFileId outputs
  let url ← producedUrl outputs
  let usr ← strcpy found 0 (lit "user" ++ [0]) 0
  recordAt outputs.clock fileId url filename usr

/-- A call that passes on nothing but what the request produced. -/
def Explained (request : Request) (outputs : Outputs) : Call → Prop
  | .fopen path => ∃ filename, producedName request = .ok filename ∧ strAt filename 0 = .ok path
  | .unlink path => ∃ filename, producedName request = .ok filename ∧ strAt filename 0 = .ok path
  | .execlp .fdfsClient arguments => ∃ filename name, producedName request = .ok filename ∧
      strAt filename 0 = .ok name ∧
        arguments = [lit "fdfs_upload_file", fdfsClientConf, name]
  | .execlp .getUrl arguments => ∃ fileId name, producedFileId outputs = .ok fileId ∧
      strAt fileId 0 = .ok name ∧ arguments = [lit "fdfs_file_info", fdfsClientConf, name]
  | .execlp _ _ => False
  | .redisCommand (.lpush key value) => key = fileInfoList ∧
      producedRecord request outputs = .ok value
  | .redisCommand (.zincrby key member) => key = fileHotZset ∧
      ∃ fileId, producedFileId outputs = .ok fileId ∧ strAt fileId 0 = .ok member
  | .redisCommand _ => False
  | _ => True

section Request

variable {env : Env} {request : Request} {usr filename fileId : Bytes} {got : Int}

/-- The buffers are cleared whenever the loop goes round again. -/
def Cleared (next : Next) : Prop := ∀ bufs, next = .again bufs → bufs = .cleared

theorem clearBufs_satisfies {allowed : Call → Prop} {bufs : Bufs} (sized : bufs.Sized) :
    (ofC (clearBufs bufs)).Satisfies env allowed Cleared := by
  rw [clearBufs_eq sized]
  refine Prog.satisfies_ret ?_
  rintro _ ⟨⟩
  rfl

theorem cleared_sized : Bufs.cleared.Sized where
  filename := zeros_length _
  fileId := zeros_length _
  fdfsFileUrl := zeros_length _
  usr := zeros_length _

theorem explained_fdfsClient (named : producedName request = .ok filename) (outputs : Outputs)
    (call : Call) (made : PipeCall .fdfsClient (lit "fdfs_upload_file") filename call) :
    Explained request outputs call := by
  cases call with
  | execlp caller arguments =>
      obtain ⟨rfl, name, holds, shape⟩ := made
      exact ⟨filename, name, named, holds, shape⟩
  | fopen path => exact made.elim
  | unlink path => exact made.elim
  | redisCommand command => exact made.elim
  | _ => trivial

theorem explained_getUrl {outputs : Outputs} (request : Request)
    (identified : producedFileId outputs = .ok fileId) (call : Call)
    (made : PipeCall .getUrl (lit "fdfs_file_info") fileId call) :
    Explained request outputs call := by
  cases call with
  | execlp caller arguments =>
      obtain ⟨rfl, name, holds, shape⟩ := made
      exact ⟨fileId, name, identified, holds, shape⟩
  | fopen path => exact made.elim
  | unlink path => exact made.elim
  | redisCommand command => exact made.elim
  | _ => trivial

theorem recordFile_satisfies (gotUsr : getUsr request.queryString (zeros usrSize) = .ok (got, usr))
    (named : producedName request = .ok filename)
    (identified : producedFileId (outputsOf env) = .ok fileId)
    (filenameLength : filename.length = filenameSize) (fileIdLength : fileId.length = fileIdLen) :
    (recordFile ⟨filename, fileId, zeros fileIdLen, usr⟩).Satisfies env
      (Explained request (outputsOf env)) Cleared := by
  refine satisfies_ofC_bind fun name holds => ?_
  refine satisfies_ask_bind ⟨filename, named, holds⟩ ?_
  refine Prog.Satisfies.bind ((getUrl_satisfies env fileId (zeros fileIdLen)).weaken
    (explained_getUrl request identified) fun _ holds => holds) ?_
  rintro ⟨code, url⟩ - outcome
  have produced : producedUrl (outputsOf env) = .ok url ∧ url.length = fileIdLen := by
    cases outcome with
    | inl failed =>
        obtain ⟨-, rfl, failure⟩ := failed
        have info : (outputsOf env).info = none :=
          congrArg (Option.map _) (infoOutput_of_failed failure)
        exact ⟨by simp only [producedUrl, info], List.length_replicate⟩
    | inr done =>
        obtain ⟨-, output, fdfsBuf, ip, read, stored, taken, appended⟩ := done
        refine ⟨?_, (appendUrl_length appended).trans (zeros_length _)⟩
        have info : (outputsOf env).info = some output.val := congrArg (Option.map _) read
        simp only [producedUrl, info, stored, taken, identified, appended, ok_bind]
  refine satisfies_ofC_bind fun usr' copied => ?_
  have record : producedRecord request (outputsOf env) =
      recordAt (outputsOf env).clock fileId url filename usr' := by
    simp only [producedRecord, gotUsr, named, identified, produced.1, copied, ok_bind]
  refine Prog.Satisfies.bind ((writeRedis_satisfies env fileId url filename usr').weaken
    ?_ fun _ holds => holds) ?_
  · intro call made
    cases call with
    | redisCommand command =>
        cases command with
        | lpush key value => exact ⟨made.1, record.trans made.2⟩
        | zincrby key member => exact ⟨made.1, fileId, identified, made.2⟩
        | lrange key start stop => exact made.elim
        | zscore key member => exact made.elim
    | fopen path => exact made.elim
    | unlink path => exact made.elim
    | execlp caller arguments => exact made.elim
    | _ => trivial
  · intro _ _ _
    refine clearBufs_satisfies ⟨filenameLength, fileIdLength, produced.2, ?_⟩
    rw [strcpy_length copied, (getParameter_length gotUsr).2]
    exact zeros_length _

theorem storeFile_satisfies (gotUsr : getUsr request.queryString (zeros usrSize) = .ok (got, usr))
    {len : Int} {body : Bytes}
    (name : producedName request = takeName body (zeros filenameSize)) :
    (storeFile { Bufs.cleared with usr } len body).Satisfies env
      (Explained request (outputsOf env)) Cleared := by
  have usrLength : usr.length = usrSize := (getParameter_length gotUsr).2.trans (zeros_length _)
  refine Prog.Satisfies.bind ((uploadFile_satisfies env body len (zeros filenameSize)).weaken
    ?_ fun _ holds => holds) ?_
  · intro call made
    cases call with
    | fopen path =>
        obtain ⟨filename, named, holds⟩ := made
        exact ⟨filename, name.trans named, holds⟩
    | unlink path => exact made.elim
    | execlp caller arguments => exact made.elim
    | redisCommand command => exact made.elim
    | _ => trivial
  · rintro ⟨uploaded, filename⟩ - named
    have filenameLength := (takeName_length named).trans (zeros_length _)
    have nameProduced := name.trans named
    simp only []
    split
    · exact clearBufs_satisfies ⟨filenameLength, cleared_sized.fileId, cleared_sized.fdfsFileUrl,
        usrLength⟩
    · refine Prog.Satisfies.bind ((fdfsClient_satisfies env filename (zeros fileIdLen)).weaken
        (explained_fdfsClient nameProduced _) fun _ holds => holds) ?_
      rintro ⟨delivered, fileId⟩ - outcome
      simp only [] at outcome ⊢
      cases outcome with
      | inl failed =>
          obtain ⟨rfl, rfl⟩ := failed
          rw [if_pos (by decide)]
          exact clearBufs_satisfies ⟨filenameLength, cleared_sized.fileId,
            cleared_sized.fdfsFileUrl, usrLength⟩
      | inr done =>
          obtain ⟨rfl, -, -, filled, code, stored, trimmed⟩ := done
          have identified : producedFileId (outputsOf env) = .ok fileId := by
            simp only [producedFileId, outputsOf, stored, trimmed, ok_bind, pure_eq_ok]
          rw [if_neg (by decide)]
          refine recordFile_satisfies gotUsr nameProduced identified filenameLength ?_
          have filledLength : filled.length = fileIdLen := by
            rw [store_length stored]
            exact zeros_length _
          have small : filled.length ≤ 2 ^ 31 := by
            rw [filledLength]
            decide
          obtain ⟨-, -, -, -, length⟩ := trimSpace_eq_ok small trimmed
          rw [length, filledLength]

theorem handleRequest_satisfies (env : Env) (request : Request) :
    (handleRequest .cleared request).Satisfies env (Explained request (outputsOf env))
      Cleared := by
  refine satisfies_ofC_bind ?_
  rintro ⟨got, usr⟩ gotUsr
  obtain ⟨rfl, usrLength⟩ := getParameter_length gotUsr
  simp only []
  rw [if_neg (by decide)]
  refine satisfies_ofC_bind fun len parsed => ?_
  split
  · exact clearBufs_satisfies ⟨cleared_sized.filename, cleared_sized.fileId,
      cleared_sized.fdfsFileUrl, usrLength.trans (zeros_length _)⟩
  · refine Prog.Satisfies.bind (getBuf_satisfies fun size => trivial) ?_
    rintro (_ | buf) - empty
    · exact Prog.satisfies_ret nofun
    · have fresh := empty buf rfl
      subst fresh
      refine satisfies_ofC_bind fun body filled => ?_
      refine storeFile_satisfies gotUsr ?_
      simp only [producedName, parsed, filled, ok_bind]

end Request

/-! ## Runs of the loop -/

/-- The loop of `main` is back at `FCGI_Accept` with these buffers after these
requests, each answered by its own environment. -/
inductive Serving : List (Request × Env) → Bufs → Prop where
  | start : Serving [] .cleared
  | again (history : List (Request × Env)) (bufs next : Bufs) (request : Request) (env : Env)
      (served : Serving history bufs)
      (returned : (handleRequest bufs request).outcome env = .returned (.again next)) :
      Serving (history ++ [(request, env)]) next

theorem serving_cleared {history : List (Request × Env)} {bufs : Bufs}
    (served : Serving history bufs) : bufs = .cleared := by
  induction served with
  | start => rfl
  | again history bufs next request env served returned inductionHypothesis =>
      subst inductionHypothesis
      exact (handleRequest_satisfies env request).2 _ returned next rfl

/-- After any history the buffers are zero, and the next request passes on only
what is computed from itself, the clock and the output of the commands. -/
theorem requests_isolated {history : List (Request × Env)} {bufs : Bufs}
    (served : Serving history bufs) :
    bufs = .cleared ∧ ∀ (request : Request) (env : Env),
      ∀ call ∈ (handleRequest bufs request).trace env, Explained request (outputsOf env) call := by
  have zero := serving_cleared served
  subst zero
  exact ⟨rfl, fun request env => (handleRequest_satisfies env request).1⟩

/-- A request whose file was stored comes first. -/
theorem requests_isolated_stored : Serving [(smallRequest, fileStored)] .cleared ∧
    Bufs.cleared = .cleared ∧ ∀ (request : Request) (env : Env),
      ∀ call ∈ (handleRequest .cleared request).trace env, Explained request (outputsOf env) call := by
  have served : Serving [(smallRequest, fileStored)] .cleared :=
    .again [] .cleared .cleared smallRequest fileStored .start smallRequest_stored
  exact ⟨served, requests_isolated served⟩

end DistStore.RequestIsolation

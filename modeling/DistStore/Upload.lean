import DistStore.Fdfs
import DistStore.Query
import DistStore.UploadFile
import DistStore.WriteRedis

/-!
# One request in the loop of `upload`

`handleRequest` is the body of the loop of `upload`'s `main`.  The buffers of
`main` are its state: the body either comes back to `FCGI_Accept` with them or
leaves the loop.
-/

set_option autoImplicit false

namespace DistStore.Upload

open CMemory Program Environment Query UploadFile Fdfs WriteRedis

def usrSize : Nat := 64

/-- The buffers of `main`. -/
structure Bufs where
  filename : Bytes
  fileId : Bytes
  fdfsFileUrl : Bytes
  usr : Bytes
  deriving DecidableEq, Repr

def Bufs.cleared : Bufs :=
  ⟨zeros filenameSize, zeros fileIdLen, zeros fileIdLen, zeros usrSize⟩

/-- Buffers of the declared sizes. -/
structure Bufs.Sized (bufs : Bufs) : Prop where
  filename : bufs.filename.length = filenameSize
  fileId : bufs.fileId.length = fileIdLen
  fdfsFileUrl : bufs.fdfsFileUrl.length = fileIdLen
  usr : bufs.usr.length = usrSize

/-- A request as FastCGI presents it: two variables, with their memory, and the
standard input. -/
structure Request where
  contentLength : Option Bytes
  queryString : Option Bytes
  stdin : Bytes
  deriving DecidableEq, Repr

/-- Where the loop body ends: back at `FCGI_Accept`, or out of the loop with the
code `main` returns. -/
inductive Next where
  | again (bufs : Bufs)
  | leave (code : Int)
  deriving DecidableEq, Repr

/-- `get_buf`: the buffer, unless `malloc` fails. -/
def getBuf (len : Int) : Code (Option Bytes) := do
  let size ← ofC (checkInt (len + 1))
  match ← ask (.malloc .getBuf (toSize size)) with
  | none => return none
  | some block =>
      let buf ← ofC (memset block.val 0 0 size)
      return some buf

/-- The loop over `getchar`, which ends early at the end of the input. -/
def readLoop : Nat → Bytes → Nat → Bytes → C (Bytes × Nat)
  | 0, _, p, buf => .ok (buf, p)
  | _ + 1, [], p, buf => .ok (buf, p)
  | count + 1, ch :: stdin, p, buf => do
      let next ← store buf p [ch]
      readLoop count stdin (p + 1) next

def readBody (len : Int) (stdin buf : Bytes) : C Bytes := do
  let (filled, p) ← readLoop len.toNat stdin 0 buf
  store filled p [0]

def contentLen (contentLength : Option Bytes) : C Int :=
  match contentLength with
  | none => .ok 0
  | some memory => do
      let text ← strAt memory 0
      return toInt (strtol text)

/-- The label `END`. -/
def clearBufs (bufs : Bufs) : C Next := do
  let filename ← memset bufs.filename 0 0 256
  let fileId ← memset bufs.fileId 0 0 256
  let fdfsFileUrl ← memset bufs.fdfsFileUrl 0 0 256
  let usr ← memset bufs.usr 0 0 64
  return .again ⟨filename, fileId, fdfsFileUrl, usr⟩

/-- The part of the loop body from the upload's arrival at FastDFS on. -/
def recordFile (bufs : Bufs) : Code Next := do
  let name ← ofC (strAt bufs.filename 0)
  let _ ← ask (.unlink name)
  -- an error of `get_url` is logged and the record written all the same
  let (_, fdfsFileUrl) ← getUrl bufs.fileId bufs.fdfsFileUrl
  let usr ← ofC (strcpy bufs.usr 0 (lit "user" ++ [0]) 0)
  let _ ← writeRedis bufs.fileId fdfsFileUrl bufs.filename usr
  ofC (clearBufs { bufs with fdfsFileUrl, usr })

/-- The part of the loop body from the received body on. -/
def storeFile (bufs : Bufs) (len : Int) (buf : Bytes) : Code Next := do
  let (uploaded, filename) ← uploadFile buf len bufs.filename
  if uploaded ≠ 0 then ofC (clearBufs { bufs with filename })
  else
    let (delivered, fileId) ← fdfsClient filename bufs.fileId
    if delivered ≠ 0 then ofC (clearBufs { bufs with filename, fileId })
    else recordFile { bufs with filename, fileId }

/-- The loop body. -/
def handleRequest (bufs : Bufs) (request : Request) : Code Next := do
  let (got, usr) ← ofC (getUsr request.queryString bufs.usr)
  if got < 0 then return .leave 0
  else
    let len ← ofC (contentLen request.contentLength)
    if len ≤ 0 then ofC (clearBufs { bufs with usr })
    else
      match ← getBuf len with
      | none => return .leave (-1)
      | some buf =>
          let filled ← ofC (readBody len request.stdin buf)
          storeFile { bufs with usr } len filled

/-! ## The label `END` and the received body -/

theorem clearBufs_eq {bufs : Bufs} (sized : bufs.Sized) :
    clearBufs bufs = .ok (.again .cleared) := by
  obtain ⟨filename, fileId, fdfsFileUrl, usr⟩ := sized
  have filenameCleared := memset_whole bufs.filename 0 filename
  have fileIdCleared := memset_whole bufs.fileId 0 fileId
  have urlCleared := memset_whole bufs.fdfsFileUrl 0 fdfsFileUrl
  have usrCleared := memset_whole bufs.usr 0 usr
  simp only [filenameSize, fileIdLen, usrSize, Nat.cast_ofNat] at *
  rw [clearBufs, filenameCleared, ok_bind, fileIdCleared, ok_bind, urlCleared, ok_bind, usrCleared]
  rfl

/-- The loop copies up to `count` bytes behind those it has copied before. -/
theorem readLoop_eq (count : Nat) (stdin taken : Bytes) (room : Nat) (fits : count ≤ room) :
    readLoop count stdin taken.length (taken ++ zeros room) =
      .ok (padTo (taken.length + room) (taken ++ stdin.take count),
        (taken ++ stdin.take count).length) := by
  induction count generalizing stdin taken room with
  | zero => simp [readLoop, padTo]
  | succ count inductionHypothesis =>
      cases stdin with
      | nil => simp [readLoop, padTo]
      | cons ch stdin =>
          have stored : store (taken ++ zeros room) taken.length [ch] =
              .ok (taken ++ [ch] ++ zeros (room - 1)) := by
            rw [store_behind, if_pos (by rw [List.length_singleton]; omega), List.length_singleton]
          have rest := inductionHypothesis stdin (taken ++ [ch]) (room - 1) (by omega)
          rw [List.length_append, List.length_singleton] at rest
          rw [readLoop, stored, ok_bind, rest, show taken.length + 1 + (room - 1) =
            taken.length + room by omega, List.take_succ_cons, List.append_assoc,
            List.singleton_append]

/-- The body is read up to `len` bytes and ended with a NUL. -/
theorem readBody_eq (len : Nat) (stdin : Bytes) :
    readBody len stdin (zeros (len + 1)) = .ok (padTo (len + 1) (stdin.take len)) := by
  have filled := readLoop_eq len stdin [] (len + 1) (by omega)
  simp only [List.nil_append, List.length_nil, Nat.zero_add] at filled
  have short : (stdin.take len).length ≤ len := List.length_take_le _ _
  rw [readBody, Int.toNat_natCast, filled, ok_bind]
  simp only []
  have room : 0 < len + 1 - (stdin.take len).length := by omega
  rw [padTo, store_behind, if_pos (by rw [List.length_singleton]; omega), List.append_assoc,
    List.length_singleton]
  congr 2
  exact (zeros_eq_cons room).symm

theorem memset_block {len : Int} (isInt : IsInt len) (nonnegative : 0 ≤ len)
    (block : Block (toSize len)) : memset block.val 0 0 len = .ok (zeros (toSize len)) := by
  have small := isInt.2
  have cast := toSize_of_nonneg nonnegative (by omega)
  have whole := memset_whole block.val 0 block.property
  rwa [cast] at whole

theorem getBuf_outcome {env : Env} {len : Int} (isInt : IsInt (len + 1))
    (nonnegative : 0 ≤ len + 1) (allocated : env (.malloc .getBuf (toSize (len + 1))) ≠ none) :
    (getBuf len).outcome env = .returned (some (zeros (toSize (len + 1)))) := by
  rw [getBuf, checkInt_of_isInt isInt, ofC_ok, Prog.ret_bind, outcome_ask_bind]
  cases answer : env (.malloc .getBuf (toSize (len + 1))) with
  | none => exact absurd answer allocated
  | some block =>
      simp only [memset_block isInt nonnegative block, ofC_ok, Prog.ret_bind]
      rfl

theorem getBuf_satisfies {env : Env} {allowed : Call → Prop} {len : Int}
    (isAllowed : ∀ size, allowed (.malloc .getBuf size)) :
    (getBuf len).Satisfies env allowed
      fun result => ∀ buf, result = some buf → buf = zeros (toSize (len + 1)) := by
  refine satisfies_ofC_bind fun size checked => satisfies_ask_bind (isAllowed _) ?_
  cases env (.malloc .getBuf (toSize size)) with
  | none => exact Prog.satisfies_ret nofun
  | some block =>
      obtain ⟨rfl, isInt⟩ := checkInt_eq_ok checked
      refine satisfies_ofC_bind fun buf filled => Prog.satisfies_ret ?_
      rintro _ ⟨⟩
      by_cases negative : len + 1 < 0
      · rw [memset, if_pos negative] at filled
        cases filled
      · exact Except.ok.inj (filled.symm.trans (memset_block isInt (by omega) block))

/-- A call of `write_redis` is made by a request all of whose steps before it
return, whatever code `get_url` returns. -/
theorem mem_handleRequest {env : Env} {bufs : Bufs} {request : Request}
    {usr usr' buf body filename name fileId url : Bytes} {len code : Int} {call : Call}
    (gotUsr : getUsr request.queryString bufs.usr = .ok (0, usr))
    (parsed : contentLen request.contentLength = .ok len) (positive : 0 < len)
    (allocated : (getBuf len).outcome env = .returned (some buf))
    (received : readBody len request.stdin buf = .ok body)
    (uploaded : (uploadFile body len bufs.filename).outcome env = .returned (0, filename))
    (named : strAt filename 0 = .ok name)
    (identified : (fdfsClient filename bufs.fileId).outcome env = .returned (0, fileId))
    (located : (getUrl fileId bufs.fdfsFileUrl).outcome env = .returned (code, url))
    (copied : strcpy usr 0 (lit "user" ++ [0]) 0 = .ok usr')
    (made : call ∈ (writeRedis fileId url filename usr').trace env) :
    call ∈ (handleRequest bufs request).trace env := by
  have recorded : call ∈ (recordFile ⟨filename, fileId, bufs.fdfsFileUrl, usr⟩).trace env := by
    rw [recordFile, named, ofC_ok, Prog.ret_bind, trace_ask_bind]
    refine List.mem_cons_of_mem _ (Prog.mem_trace_bind_returned _ located ?_)
    simp only [copied, ofC_ok, Prog.ret_bind]
    exact Prog.mem_trace_bind_left _ made
  have stored : call ∈ (storeFile { bufs with usr } len body).trace env := by
    refine Prog.mem_trace_bind_returned _ uploaded (Prog.mem_trace_bind_returned _ identified ?_)
    exact recorded
  rw [handleRequest, gotUsr, ofC_ok, Prog.ret_bind]
  simp only []
  rw [if_neg (by decide), parsed, ofC_ok, Prog.ret_bind, if_neg (by omega)]
  refine Prog.mem_trace_bind_returned _ allocated ?_
  simp only [received, ofC_ok, Prog.ret_bind]
  exact stored

end DistStore.Upload

import DistStore.Upload

/-!
# What ends the service

The loop of `upload` is left by `break`, by `goto FAIL` and where a function it
calls exits.  When the calls it depends on succeed only `get_buf` can still
fail: its argument is an `int`, and for the largest one the addition of the
byte for the NUL does not give the size of the buffer.
-/

set_option autoImplicit false

namespace DistStore.Service

open CMemory Program Environment RedisOp Query UploadFile Fdfs WriteRedis Upload

/-- `get_buf` with an addition on `int` that wraps. -/
def getBufWrapping (len : Int) : Code (Option Bytes) := do
  let size := toSize (toInt (len + 1))
  match ← ask (.malloc .getBuf size) with
  | none => return none
  | some block =>
      let buf ← ofC (memset block.val 0 0 size)
      return some buf

/-- The loop body with a given `get_buf`. -/
def handleWith (getBuf : Int → Code (Option Bytes)) (bufs : Bufs) (request : Request) :
    Code Next := do
  let (got, usr) ← ofC (getUsr request.queryString bufs.usr)
  if got < 0 then return .leave 0
  else
    let len ← ofC (contentLen request.contentLength)
    if len ≤ 0 then ofC (clearBufs { bufs with usr })
    else
      match ← getBuf len with
      | none => return .leave (-1)
      | some buf =>
          let filled ← ofC (readBody len request.stdin buf)
          storeFile { bufs with usr } len filled

theorem handleWith_getBuf : handleWith getBuf = handleRequest := rfl

/-- Where the addition stays in the range of `int` it does not matter how it
wraps. -/
theorem getBufWrapping_eq {len : Int} (isInt : IsInt (len + 1)) (notNegative : 0 ≤ len + 1) :
    getBufWrapping len = getBuf len := by
  have upper := isInt.2
  have size := toSize_of_nonneg notNegative (by omega)
  unfold getBufWrapping
  rw [getBuf, checkInt_of_isInt isInt, ofC_ok, Prog.ret_bind, toInt_of_isInt isInt]
  simp only [size]
  refine congrArg (ask _ >>= ·) (funext fun answer => ?_)
  cases answer with
  | none => rfl
  | some block => rfl

/-- The calls the service depends on succeed. -/
structure Provided (env : Env) : Prop where
  pipe : ∀ caller, env (.pipe caller) = true
  fork : ∀ caller, env (.fork caller) ≠ .failed
  connection : ∀ caller, env (.redisConnect caller) = .ok
  memory : ∀ caller size, size ≤ 2 ^ 32 → env (.malloc caller size) ≠ none

/-- The process does not exit. -/
def NoExit : Stop → Prop
  | .exit _ => False
  | .fault _ => True
  | .replaced => True

/-- The loop body comes back to `FCGI_Accept`. -/
def Again : Next → Prop
  | .again _ => True
  | .leave _ => False

/-- The loop has been left through `break`, `goto FAIL`, `return` or `exit`. -/
def Left : Outcome Stop Next → Prop
  | .returned (.leave _) => True
  | .returned (.again _) => False
  | .stopped (.exit _) => True
  | .stopped (.fault _) => False
  | .stopped .replaced => False

theorem not_left_of_ends {env : Env} {program : Code Next}
    (ends : program.Ends env Again NoExit) : ¬ Left (program.outcome env) := by
  obtain ⟨returns, stops⟩ := ends
  rcases ended : program.outcome env with next | reason
  · have again := returns next ended
    rw [ended]
    cases next with
    | again bufs => exact not_false
    | leave code => exact again.elim
  · have noExit := stops reason ended
    rw [ended]
    cases reason with
    | fault fault => exact not_false
    | exit code => exact noExit.elim
    | replaced => exact not_false

/-! ## No function of the loop body exits -/

section Functions

variable {env : Env}

theorem noExit_fault (fault : Fault) : NoExit (.fault fault) := trivial

theorem uploadFile_ends (src : Bytes) (len : Int) (sFilename : Bytes) :
    (uploadFile src len sFilename).Ends env (fun _ => True) NoExit := by
  refine ends_ofC_bind noExit_fault fun filename _ => ends_ofC_bind noExit_fault ?_
  rintro ⟨p, len2⟩ -
  refine ends_ofC_bind noExit_fault fun path _ => ends_ask_bind ?_
  cases env (.fopen path) with
  | false => exact Prog.ends_ret trivial
  | true =>
      refine ends_ofC_bind noExit_fault fun data _ => ?_
      exact ends_ask_bind (ends_ask_bind (Prog.ends_ret trivial))

theorem runCommand_ends (caller : Func) (arguments : List Bytes) :
    (runCommand caller arguments).Ends env (fun _ => True) NoExit := by
  refine ends_ask_bind (ends_ask_bind (ends_ask_bind ?_))
  cases env (.execlp caller arguments) with
  | true => exact Prog.ends_stop trivial
  | false => exact Prog.ends_ret trivial

theorem readCommand_ends (caller : Func) (buffer : Bytes) :
    (readCommand caller buffer).Ends env (fun _ => True) NoExit :=
  ends_ask_bind (ends_ask_bind (ends_ask_bind (ends_ofC (fun _ _ => trivial) noExit_fault)))

theorem fdfsClient_ends (sFilename sFileId : Bytes) (piped : env (.pipe .fdfsClient) = true) :
    (fdfsClient sFilename sFileId).Ends env (fun _ => True) NoExit := by
  have reads : (readFileId sFileId).Ends env (fun _ => True) NoExit := by
    refine (readCommand_ends .fdfsClient sFileId).bind fun filled _ => ?_
    refine ends_ask_bind (ends_ofC_bind noExit_fault ?_)
    rintro ⟨code, fileId⟩ -
    exact ends_ask_bind (Prog.ends_ret trivial)
  apply ends_ask_bind
  rw [piped]
  apply ends_ask_bind
  cases env (.fork .fdfsClient) with
  | failed => exact reads
  | parent => exact reads
  | child =>
      refine ends_ofC_bind noExit_fault fun name _ => (runCommand_ends .fdfsClient _).bind fun _ _ => ?_
      exact ends_ask_bind (Prog.ends_ret trivial)

theorem getUrl_ends (sFileId sUrl : Bytes) :
    (getUrl sFileId sUrl).Ends env (fun _ => True) NoExit := by
  apply ends_ask_bind
  cases env (.pipe .getUrl) with
  | false => exact ends_ask_bind (Prog.ends_ret trivial)
  | true =>
      apply ends_ask_bind
      cases env (.fork .getUrl) with
      | failed => exact ends_ask_bind (Prog.ends_ret trivial)
      | child =>
          refine ends_ofC_bind noExit_fault fun fileId _ => ?_
          refine (runCommand_ends .getUrl _).bind fun _ _ => ?_
          exact ends_ask_bind (Prog.ends_ret trivial)
      | parent =>
          refine (readCommand_ends .getUrl _).bind fun fdfsBuf _ => ends_ask_bind ?_
          refine ends_ofC_bind noExit_fault fun ip _ => ends_ofC_bind noExit_fault fun url _ => ?_
          exact ends_ask_bind (Prog.ends_ret trivial)

/-- `write_redis` exits only without a connection. -/
theorem writeRedis_ends (fileId url filename usr : Bytes)
    (connected : env (.redisConnect .writeRedis) = .ok) :
    (writeRedis fileId url filename usr).Ends env (fun _ => True) NoExit := by
  have connects : (ropConnectdbNopwd .writeRedis).Ends env (· = true) NoExit := by
    apply ends_ask_bind
    rw [connected]
    exact Prog.ends_ret rfl
  apply connects.bind
  rintro _ rfl
  apply ends_ask_bind
  cases env (.malloc .writeRedis valuesIdSize) with
  | none => exact ends_ask_bind (Prog.ends_ret trivial)
  | some block =>
      refine ends_ofC_bind noExit_fault fun cleared _ => ends_ofC_bind noExit_fault fun front _ => ?_
      refine ends_ask_bind (ends_ask_bind ?_)
      refine ends_ofC_bind noExit_fault fun createTime _ => ?_
      refine ends_ofC_bind noExit_fault fun record _ => ?_
      have pushes : (ropListPush fileInfoList record).Ends env (fun _ => True) NoExit := by
        refine ends_ofC_bind noExit_fault fun text _ => ends_ask_bind ?_
        refine ends_ofC_bind noExit_fault fun reply _ => ?_
        cases reply <;> exact Prog.ends_ret trivial
      have counts : (ropZsetIncrement fileHotZset fileId).Ends env (fun _ => True) NoExit := by
        refine ends_ofC_bind noExit_fault fun text _ => ends_ask_bind ?_
        refine ends_ofC_bind noExit_fault fun reply _ => ends_ofC_bind noExit_fault fun str _ => ?_
        split
        · exact Prog.ends_ret trivial
        · exact Prog.ends_ret trivial
      refine pushes.bind fun _ _ => counts.bind fun _ _ => ?_
      exact ends_ask_bind (Prog.ends_ret trivial)

theorem clearBufs_ends (bufs : Bufs) : (ofC (clearBufs bufs)).Ends env Again NoExit := by
  refine ends_ofC (fun next cleared => ?_) noExit_fault
  obtain ⟨filename, -, cleared⟩ := (bind_eq_ok_iff _ _ _).mp cleared
  obtain ⟨fileId, -, cleared⟩ := (bind_eq_ok_iff _ _ _).mp cleared
  obtain ⟨fdfsFileUrl, -, cleared⟩ := (bind_eq_ok_iff _ _ _).mp cleared
  obtain ⟨usr, -, same⟩ := (bind_eq_ok_iff _ _ _).mp cleared
  cases same
  trivial

theorem storeFile_ends (provided : Provided env) (bufs : Bufs) (len : Int) (buf : Bytes) :
    (storeFile bufs len buf).Ends env Again NoExit := by
  apply (uploadFile_ends _ _ _).bind
  rintro ⟨uploaded, filename⟩ -
  simp only []
  split
  · exact clearBufs_ends _
  · apply (fdfsClient_ends _ _ (provided.pipe _)).bind
    rintro ⟨delivered, fileId⟩ -
    simp only []
    split
    · exact clearBufs_ends _
    · refine ends_ofC_bind noExit_fault fun name _ => ends_ask_bind ?_
      apply (getUrl_ends _ _).bind
      rintro ⟨code, fdfsFileUrl⟩ -
      refine ends_ofC_bind noExit_fault fun usr _ => ?_
      refine (writeRedis_ends _ _ _ _ (provided.connection _)).bind fun _ _ => ?_
      exact clearBufs_ends _

end Functions

/-! ## What `get_buf` asks for -/

/-- The block for the body has a byte more than the body. -/
def RightSize (request : Request) : Call → Prop
  | .malloc .getBuf size =>
      ∃ len, contentLen request.contentLength = .ok len ∧ (size : Int) = len + 1
  | _ => True

theorem isInt_toInt (value : Int) : IsInt (toInt value) := by
  have lower := Int.le_bmod (x := value) (m := 2 ^ 32) (by decide)
  have upper := Int.bmod_lt (x := value) (m := 2 ^ 32) (by decide)
  unfold IsInt
  rw [toInt]
  omega

theorem isInt_contentLen {contentLength : Option Bytes} {len : Int}
    (parsed : contentLen contentLength = .ok len) : IsInt len := by
  cases contentLength with
  | none =>
      cases parsed
      decide
  | some memory =>
      obtain ⟨text, -, same⟩ := (bind_eq_ok_iff _ _ _).mp parsed
      cases same
      exact isInt_toInt _

section Request

variable {env : Env} {request : Request}

theorem storeFile_rightSize (bufs : Bufs) (len : Int) (buf : Bytes) :
    (storeFile bufs len buf).Satisfies env (RightSize request) fun _ => True := by
  have clears : ∀ bufs : Bufs, (ofC (clearBufs bufs)).Satisfies env (RightSize request)
      fun _ => True := fun bufs => satisfies_ofC fun _ _ => trivial
  have commands : ∀ {caller command memory}, ∀ call, PipeCall caller command memory call →
      RightSize request call := by
    intro caller command memory call made
    cases call with
    | malloc caller size => exact made.elim
    | _ => trivial
  refine ((uploadFile_satisfies env buf len bufs.filename).weaken ?_ fun _ _ => trivial).bind ?_
  · intro call made
    cases call with
    | malloc caller size => exact made.elim
    | _ => trivial
  · rintro ⟨uploaded, filename⟩ - -
    simp only []
    split
    · exact clears _
    · refine ((fdfsClient_satisfies env filename bufs.fileId).weaken commands
        fun _ _ => trivial).bind ?_
      rintro ⟨delivered, fileId⟩ - -
      simp only []
      split
      · exact clears _
      · refine satisfies_ofC_bind fun name _ => satisfies_ask_bind trivial ?_
        refine ((getUrl_satisfies env fileId bufs.fdfsFileUrl).weaken commands
          fun _ _ => trivial).bind ?_
        rintro ⟨code, fdfsFileUrl⟩ - -
        refine satisfies_ofC_bind fun usr _ => ?_
        refine ((writeRedis_satisfies env fileId fdfsFileUrl filename usr).weaken ?_
          fun _ _ => trivial).bind fun _ _ _ => clears _
        intro call made
        cases call with
        | malloc caller size =>
            cases made
            trivial
        | _ => trivial

variable (provided : Provided env)
variable (short : contentLen request.contentLength ≠ .ok (2 ^ 31 - 1))

include short in
/-- The byte for the NUL still fits an `int`. -/
theorem isInt_succ {len : Int} (parsed : contentLen request.contentLength = .ok len) :
    IsInt (len + 1) := by
  have inRange := isInt_contentLen parsed
  have notLast : len ≠ 2 ^ 31 - 1 := fun same => short (same ▸ parsed)
  simp only [IsInt] at inRange ⊢
  omega

include provided short in
/-- A request with another length than the largest `int` comes back to
`FCGI_Accept`. -/
theorem handleWrapping_ends (bufs : Bufs) :
    (handleWith getBufWrapping bufs request).Ends env Again NoExit := by
  apply ends_ofC_bind noExit_fault
  rintro ⟨got, usr⟩ gotUsr
  obtain ⟨rfl, -⟩ := getParameter_length gotUsr
  simp only []
  rw [if_neg (by decide)]
  refine ends_ofC_bind noExit_fault fun len parsed => ?_
  split
  · exact clearBufs_ends _
  · have inRange := isInt_succ short parsed
    have allocated : (getBuf len).Ends env (· ≠ none) NoExit := by
      have size := toSize_of_nonneg (show 0 ≤ len + 1 by omega) (by have := inRange.2; omega)
      have memory := provided.memory .getBuf (toSize (len + 1)) (by have := inRange.2; omega)
      unfold getBuf
      rw [checkInt_of_isInt inRange, ofC_ok, Prog.ret_bind]
      apply ends_ask_bind
      cases answer : env (.malloc .getBuf (toSize (len + 1))) with
      | none => exact absurd answer memory
      | some block => exact ends_ofC_bind noExit_fault fun buf _ => Prog.ends_ret (Option.some_ne_none buf)
    rw [getBufWrapping_eq inRange (by omega)]
    apply allocated.bind
    rintro (_ | buf) isSome
    · exact absurd rfl isSome
    · refine ends_ofC_bind noExit_fault fun filled _ => ?_
      exact storeFile_ends provided _ _ _

include short in
theorem handleWrapping_rightSize (bufs : Bufs) :
    (handleWith getBufWrapping bufs request).Satisfies env (RightSize request) fun _ => True := by
  apply satisfies_ofC_bind
  rintro ⟨got, usr⟩ -
  simp only []
  split
  · exact Prog.satisfies_ret trivial
  · refine satisfies_ofC_bind fun len parsed => ?_
    split
    · exact satisfies_ofC fun _ _ => trivial
    · have inRange := isInt_succ short parsed
      have size := toSize_of_nonneg (show 0 ≤ len + 1 by omega) (by have := inRange.2; omega)
      have allocates : (getBuf len).Satisfies env (RightSize request) fun _ => True := by
        unfold getBuf
        rw [checkInt_of_isInt inRange, ofC_ok, Prog.ret_bind]
        refine satisfies_ask_bind ⟨len, parsed, size⟩ ?_
        cases env (.malloc .getBuf (toSize (len + 1))) with
        | none => exact Prog.satisfies_ret trivial
        | some block => exact satisfies_ofC_bind fun _ _ => Prog.satisfies_ret trivial
      rw [getBufWrapping_eq inRange (by omega)]
      apply allocates.bind
      rintro (_ | buf) - -
      · exact Prog.satisfies_ret trivial
      · exact satisfies_ofC_bind fun filled _ => storeFile_rightSize _ _ _

end Request

/-! ## Runs of the service -/

/-- The loop has served these requests, each answered by its own environment,
has made these calls for them and is where the last argument says. -/
inductive Served : List (Request × Env) → List (Request × Call) → Outcome Stop Next → Prop where
  | start : Served [] [] (.returned (.again .cleared))
  | next (history : List (Request × Env)) (log : List (Request × Call)) (bufs : Bufs)
      (request : Request) (env : Env) (served : Served history log (.returned (.again bufs))) :
      Served (history ++ [(request, env)])
        (log ++ ((handleWith getBufWrapping bufs request).trace env).map (request, ·))
        ((handleWith getBufWrapping bufs request).outcome env)

/-- As long as no request announces the largest `int` the service goes on, and
every body gets a block of the right size. -/
theorem service_goes_on {history : List (Request × Env)} {log : List (Request × Call)}
    {outcome : Outcome Stop Next} (served : Served history log outcome)
    (provided : ∀ entry ∈ history, Provided entry.2)
    (short : ∀ entry ∈ history, contentLen entry.1.contentLength ≠ .ok (2 ^ 31 - 1)) :
    ¬ Left outcome ∧ ∀ (request : Request) (size : Nat), (request, .malloc .getBuf size) ∈ log →
      ∃ len, contentLen request.contentLength = .ok len ∧ (size : Int) = len + 1 := by
  induction served with
  | start => exact ⟨not_false, nofun⟩
  | next history log bufs request env served inductionHypothesis =>
      rw [List.forall_mem_append, List.forall_mem_singleton] at provided short
      obtain ⟨-, rightSizes⟩ := inductionHypothesis provided.1 short.1
      refine ⟨not_left_of_ends (handleWrapping_ends provided.2 short.2 bufs), ?_⟩
      intro other size member
      cases List.mem_append.mp member with
      | inl early => exact rightSizes other size early
      | inr late =>
          obtain ⟨call, made, same⟩ := List.mem_map.mp late
          cases same
          exact (handleWrapping_rightSize short.2 bufs).1 _ made

theorem allSucceed_provided : Provided allSucceed where
  pipe _ := rfl
  fork _ := nofun
  connection _ := rfl
  memory _ _ _ := Option.some_ne_none _

def fiveBytes : Request := ⟨some (lit "5" ++ [0]), some (lit "x" ++ [0]), lit "abcde"⟩

theorem service_goes_on_five_bytes :
    ¬ Left ((handleWith getBufWrapping .cleared fiveBytes).outcome allSucceed) ∧
      ∀ (request : Request) (size : Nat), (request, .malloc .getBuf size) ∈
        [] ++ ((handleWith getBufWrapping .cleared fiveBytes).trace allSucceed).map (fiveBytes, ·) →
          ∃ len, contentLen request.contentLength = .ok len ∧ (size : Int) = len + 1 :=
  service_goes_on (.next [] [] .cleared fiveBytes allSucceed .start)
    (List.forall_mem_singleton.mpr allSucceed_provided)
    (List.forall_mem_singleton.mpr
      (show contentLen (some (lit "5" ++ [0])) ≠ .ok (2 ^ 31 - 1) by decide))

/-- With the largest `int` the sum wraps to the least one, which is no size
`malloc` can serve. -/
theorem largest_leaves {env : Env} {bufs : Bufs} {request : Request} {usr : Bytes}
    (gotUsr : getUsr request.queryString bufs.usr = .ok (0, usr))
    (parsed : contentLen request.contentLength = .ok (2 ^ 31 - 1))
    (refused : env (.malloc .getBuf (2 ^ 64 - 2 ^ 31)) = none) :
    (handleWith getBufWrapping bufs request).outcome env = .returned (.leave (-1)) := by
  have wrapped : toSize (toInt (2 ^ 31 - 1 + 1)) = 2 ^ 64 - 2 ^ 31 := by decide
  have failed : (getBufWrapping (2 ^ 31 - 1)).outcome env = .returned none := by
    unfold getBufWrapping
    rw [outcome_ask_bind, wrapped, refused]
    rfl
  unfold handleWith
  rw [gotUsr, ofC_ok, Prog.ret_bind]
  simp only []
  rw [if_neg (by decide), parsed, ofC_ok, Prog.ret_bind, if_neg (by decide)]
  exact Prog.outcome_bind_returned _ failed _

def largest : Request := ⟨some (lit "2147483647" ++ [0]), some (lit "x" ++ [0]), []⟩

/-- Memory for blocks of up to 4 GiB. -/
def fourGiB : Env
  | .malloc _ size => if size ≤ 2 ^ 32 then some ⟨zeros size, zeros_length size⟩ else none
  | call => allSucceed call

theorem fourGiB_malloc (caller : Func) (size : Nat) :
    (fourGiB (.malloc caller size) : Option (Block size)) =
      if size ≤ 2 ^ 32 then some ⟨zeros size, zeros_length size⟩ else none := rfl

theorem fourGiB_provided : Provided fourGiB where
  pipe _ := rfl
  fork _ := nofun
  connection _ := rfl
  memory caller size small refused := by
    cases (fourGiB_malloc caller size).symm.trans refused |>.symm.trans (if_pos small)

/-- One header ends the service. -/
theorem largest_ends_service :
    Provided fourGiB ∧ ∃ log outcome, Served [(largest, fourGiB)] log outcome ∧ Left outcome := by
  refine ⟨fourGiB_provided, _, _, .next [] [] .cleared largest fourGiB .start, ?_⟩
  have refused : fourGiB (.malloc .getBuf (2 ^ 64 - 2 ^ 31)) = none :=
    (fourGiB_malloc _ _).trans (if_neg (by decide))
  have gotUsr : getUsr largest.queryString Bufs.cleared.usr = .ok (0, zeros usrSize) := by decide
  rw [largest_leaves gotUsr (by decide) refused]
  trivial

end DistStore.Service

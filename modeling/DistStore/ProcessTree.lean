import DistStore.RecordedFiles
import DistStore.RequestIsolation

/-!
# The processes of `upload`

Every `fork` of `fdfs_client` and `get_url` copies the whole program.  A child
is meant to end in `execlp`; whatever returns to the loop accepts requests like
the first process.
-/

set_option autoImplicit false

namespace DistStore.ProcessTree

open CMemory Program Environment RedisOp Query UploadFile Fdfs WriteRedis Upload RequestIsolation
  RecordedFiles

/-- Where a process stands: at `FCGI_Accept`, in the loop body of an accepted
request, or gone. -/
inductive State where
  | accepting (bufs : Bufs)
  | running (request : Nat) (rest : Code Next)
  | gone

/-- A process and the function whose `fork` made it. -/
structure Proc where
  pid : Nat
  born : Option Func
  state : State

inductive Action where
  | accept
  | call (call : Call)
  deriving DecidableEq

/-- An action of a process for an accepted request; requests are numbered in
the order of their acceptance. -/
structure Event where
  pid : Nat
  born : Option Func
  request : Nat
  action : Action
  deriving DecidableEq

structure System where
  procs : List Proc
  nextPid : Nat
  accepted : Nat
  log : List Event

def start : System := ⟨[⟨0, none, .accepting .cleared⟩], 1, 0, []⟩

/-- The answers that make no second process. -/
def Plain : (call : Call) → Answer call → Prop
  | .fork _, pid => pid = Pid.failed
  | _, _ => True

/-- One step of one process, with answers the environment may give. -/
inductive Step (admissible : (call : Call) → Answer call → Prop) : System → System → Prop where
  | accept (before after : List Proc) (pid : Nat) (born : Option Func) (bufs : Bufs)
      (request : Request) (nextPid accepted : Nat) (log : List Event) :
      Step admissible
        ⟨before ++ ⟨pid, born, .accepting bufs⟩ :: after, nextPid, accepted, log⟩
        ⟨before ++ ⟨pid, born, .running accepted (handleRequest bufs request)⟩ :: after, nextPid,
          accepted + 1, log ++ [⟨pid, born, accepted, .accept⟩]⟩
  | call (before after : List Proc) (pid : Nat) (born : Option Func) (request : Nat)
      (call : Call) (next : Answer call → Code Next) (answer : Answer call)
      (isAdmissible : admissible call answer) (plain : Plain call answer)
      (nextPid accepted : Nat) (log : List Event) :
      Step admissible
        ⟨before ++ ⟨pid, born, .running request (.call call next)⟩ :: after, nextPid, accepted, log⟩
        ⟨before ++ ⟨pid, born, .running request (next answer)⟩ :: after, nextPid, accepted,
          log ++ [⟨pid, born, request, .call call⟩]⟩
  | fork (before after : List Proc) (pid : Nat) (born : Option Func) (request : Nat)
      (func : Func) (next : Pid → Code Next) (nextPid accepted : Nat) (log : List Event) :
      Step admissible
        ⟨before ++ ⟨pid, born, .running request (.call (.fork func) next)⟩ :: after, nextPid,
          accepted, log⟩
        ⟨before ++ ⟨pid, born, .running request (next .parent)⟩ :: after ++
            [⟨nextPid, some func, .running request (next .child)⟩], nextPid + 1, accepted,
          log ++ [⟨pid, born, request, .call (.fork func)⟩]⟩
  | again (before after : List Proc) (pid : Nat) (born : Option Func) (request : Nat)
      (bufs : Bufs) (nextPid accepted : Nat) (log : List Event) :
      Step admissible
        ⟨before ++ ⟨pid, born, .running request (.ret (.again bufs))⟩ :: after, nextPid, accepted,
          log⟩
        ⟨before ++ ⟨pid, born, .accepting bufs⟩ :: after, nextPid, accepted, log⟩
  | leave (before after : List Proc) (pid : Nat) (born : Option Func) (request : Nat)
      (code : Int) (nextPid accepted : Nat) (log : List Event) :
      Step admissible
        ⟨before ++ ⟨pid, born, .running request (.ret (.leave code))⟩ :: after, nextPid, accepted,
          log⟩
        ⟨before ++ ⟨pid, born, .gone⟩ :: after, nextPid, accepted, log⟩
  | stop (before after : List Proc) (pid : Nat) (born : Option Func) (request : Nat)
      (reason : Stop) (nextPid accepted : Nat) (log : List Event) :
      Step admissible
        ⟨before ++ ⟨pid, born, .running request (.stop reason)⟩ :: after, nextPid, accepted, log⟩
        ⟨before ++ ⟨pid, born, .gone⟩ :: after, nextPid, accepted, log⟩

/-- The states of the runs in which the environment gives admissible answers. -/
inductive Reachable (admissible : (call : Call) → Answer call → Prop) : System → Prop where
  | start : Reachable admissible start
  | step (before after : System) (reached : Reachable admissible before)
      (step : Step admissible before after) : Reachable admissible after

/-- The calls a child makes before its image is replaced. -/
def ChildCall (func : Func) : Call → Prop
  | .close caller _ => caller = func
  | .dup2 caller => caller = func
  | .execlp caller _ => caller = func
  | _ => False

def isPush : Call → Bool
  | .redisCommand (.lpush _ _) => true
  | _ => false

def isPushFor (request : Nat) (event : Event) : Bool :=
  match event.action with
  | .accept => false
  | .call call => isPush call && event.request == request

/-- Only the accepting process carries a request on: a child does nothing but
run its command, and a request is pushed at most once, by the process that
accepted it. -/
structure Proper (log : List Event) : Prop where
  children : ∀ event ∈ log, ∀ func, event.born = some func →
    ∃ call, event.action = .call call ∧ ChildCall func call
  once : ∀ request, log.countP (isPushFor request) ≤ 1
  acceptor : ∀ event ∈ log, ∀ call, event.action = .call call → isPush call = true →
    ⟨event.pid, event.born, event.request, .accept⟩ ∈ log

/-- Every `execlp` replaces its process. -/
def ExecSucceeds : (call : Call) → Answer call → Prop
  | .execlp _ _, replaced => replaced = true
  | _, _ => True

/-! ## The programs of the processes -/

/-- Wherever the program forks, the child does not return. -/
def ForksDie {α : Type} : Code α → Prop
  | .ret _ => True
  | .stop _ => True
  | .call call next =>
      match call, next with
      | .fork func, next => (next Pid.child).NeverReturns ExecSucceeds (ChildCall func) ∧
          ∀ pid, pid ≠ Pid.child → ForksDie (next pid)
      | _, next => ∀ answer, ForksDie (next answer)

/-- Calls other than `fork`. -/
def NotFork : Call → Prop
  | .fork _ => False
  | _ => True

section Rules

variable {α β : Type}

theorem forksDie_call {call : Call} {next : Answer call → Code α} (notFork : NotFork call)
    (continued : ∀ answer, ForksDie (next answer)) :
    ForksDie (Prog.call (I := interface) call next) := by
  cases call with
  | fork caller => exact notFork.elim
  | _ => exact continued

theorem forksDie_of_call {call : Call} {next : Answer call → Code α} {answer : Answer call}
    (die : ForksDie (Prog.call (I := interface) call next)) (plain : Plain call answer) :
    ForksDie (next answer) := by
  cases call with
  | fork func =>
      obtain ⟨-, others⟩ := die
      cases plain
      exact others .failed nofun
  | _ => exact die answer

theorem forksDie_of_only {program : Code α} (only : program.Only NotFork) : ForksDie program := by
  induction program with
  | ret value => trivial
  | stop reason => trivial
  | call request next inductionHypothesis =>
      exact forksDie_call only.1 fun answer => inductionHypothesis answer (only.2 answer)

theorem ForksDie.bind {program : Code α} {continue_ : α → Code β} (die : ForksDie program)
    (continued : ∀ value, ForksDie (continue_ value)) : ForksDie (program >>= continue_) := by
  induction program with
  | ret value => exact continued value
  | stop reason => trivial
  | call request next inductionHypothesis =>
      cases request with
      | fork caller =>
          obtain ⟨child, others⟩ := die
          exact ⟨child.bind continue_,
            fun pid notChild => inductionHypothesis pid (others pid notChild)⟩
      | _ => exact fun answer => inductionHypothesis answer (die answer)

theorem forksDie_ofC_bind {computation : C β} {continue_ : β → Code α}
    (continued : ∀ value, ForksDie (continue_ value)) :
    ForksDie (ofC computation >>= continue_) := by
  cases computation with
  | ok value => exact continued value
  | error fault => trivial

theorem forksDie_ofC (computation : C α) : ForksDie (ofC computation) := by
  cases computation <;> trivial

theorem forksDie_ask_bind {call : Call} {continue_ : Answer call → Code α}
    (notFork : NotFork call) (continued : ∀ answer, ForksDie (continue_ answer)) :
    ForksDie (ask call >>= continue_) :=
  forksDie_call notFork continued

end Rules

section Functions

-- the proofs follow the calls; what is in the buffers is not evaluated
attribute [local irreducible] memset

/-- Calls that neither fork nor push. -/
def Quiet (call : Call) : Prop := NotFork call ∧ isPush call = false

theorem notFork_of_quiet {α : Type} {program : Code α} (only : program.Only Quiet) :
    program.Only NotFork :=
  only.mono fun _ quiet => quiet.1

theorem getBuf_only (len : Int) : (getBuf len).Only Quiet := by
  apply only_ofC_bind
  intro size
  apply only_ask_bind ⟨trivial, rfl⟩
  intro block
  cases block with
  | none => trivial
  | some block => exact only_ofC_bind fun buf => trivial

theorem uploadFile_only (src : Bytes) (len : Int) (sFilename : Bytes) :
    (uploadFile src len sFilename).Only Quiet := by
  apply only_ofC_bind
  intro filename
  apply only_ofC_bind
  intro located
  apply only_ofC_bind
  intro path
  apply only_ask_bind ⟨trivial, rfl⟩
  intro opened
  cases opened with
  | false => trivial
  | true =>
      apply only_ofC_bind
      intro data
      exact only_ask_bind ⟨trivial, rfl⟩ fun _ => only_ask_bind ⟨trivial, rfl⟩ fun _ => trivial

theorem readCommand_only (caller : Func) (buffer : Bytes) :
    (readCommand caller buffer).Only Quiet :=
  only_ask_bind ⟨trivial, rfl⟩ fun _ => only_ask_bind ⟨trivial, rfl⟩ fun _ =>
    only_ask_bind ⟨trivial, rfl⟩ fun _ => only_ofC _

theorem readFileId_only (sFileId : Bytes) : (readFileId sFileId).Only Quiet := by
  apply (readCommand_only _ _).bind
  intro filled
  apply only_ask_bind ⟨trivial, rfl⟩
  intro before
  apply only_ofC_bind
  intro trimmed
  exact only_ask_bind ⟨trivial, rfl⟩ fun _ => trivial

/-- The branch of the parent in `get_url`. -/
theorem readUrl_only (sFileId sUrl : Bytes) :
    (do
      let fdfsBuf ← readCommand .getUrl (zeros tempBufMaxLen)
      let before ← ask (.byteBefore .getUrl)
      let ip ← ofC (takeIp before fdfsBuf)
      let url ← ofC (appendUrl sUrl ip sFileId)
      let _ ← ask (.leave .getUrl)
      return (0, url) : Code (Int × Bytes)).Only Quiet := by
  apply (readCommand_only _ _).bind
  intro fdfsBuf
  apply only_ask_bind ⟨trivial, rfl⟩
  intro before
  apply only_ofC_bind
  intro ip
  apply only_ofC_bind
  intro url
  exact only_ask_bind ⟨trivial, rfl⟩ fun _ => trivial

/-- A child's branch with a working `execlp`. -/
theorem runCommand_neverReturns (caller : Func) (arguments : List Bytes) :
    (runCommand caller arguments).NeverReturns ExecSucceeds (ChildCall caller) := by
  refine ⟨rfl, fun _ _ => ⟨rfl, fun _ _ => ⟨rfl, ?_⟩⟩⟩
  intro replaced succeeds
  cases replaced with
  | true => trivial
  | false => cases succeeds

theorem childBranch_neverReturns {α : Type} (caller : Func) (arguments : Bytes → List Bytes)
    (memory : Bytes) (continue_ : Code α) :
    (do
      let name ← ofC (strAt memory 0)
      runCommand caller (arguments name)
      continue_).NeverReturns ExecSucceeds (ChildCall caller) := by
  cases strAt memory 0 with
  | error fault => trivial
  | ok name => exact (runCommand_neverReturns caller _).bind _

theorem fdfsClient_forksDie (sFilename sFileId : Bytes) :
    ForksDie (fdfsClient sFilename sFileId) := by
  apply forksDie_ask_bind
  · trivial
  intro piped
  cases piped with
  | false => trivial
  | true =>
      refine ⟨childBranch_neverReturns .fdfsClient
        (fun name => [lit "fdfs_upload_file", fdfsClientConf, name]) sFilename _, ?_⟩
      intro pid notChild
      cases pid with
      | child => exact absurd rfl notChild
      | failed => exact forksDie_of_only (notFork_of_quiet (readFileId_only sFileId))
      | parent => exact forksDie_of_only (notFork_of_quiet (readFileId_only sFileId))

theorem getUrl_forksDie (sFileId sUrl : Bytes) : ForksDie (getUrl sFileId sUrl) := by
  apply forksDie_ask_bind
  · trivial
  intro piped
  cases piped with
  | false => exact forksDie_ask_bind trivial fun _ => trivial
  | true =>
      refine ⟨childBranch_neverReturns .getUrl
        (fun name => [lit "fdfs_file_info", fdfsClientConf, name]) sFileId _, ?_⟩
      intro pid notChild
      cases pid with
      | child => exact absurd rfl notChild
      | failed => exact forksDie_ask_bind trivial fun _ => trivial
      | parent => exact forksDie_of_only (notFork_of_quiet (readUrl_only sFileId sUrl))

theorem runCommand_atMost (caller : Func) (arguments : List Bytes) :
    (runCommand caller arguments).AtMost isPush 0 := by
  apply atMost_ask_bind rfl
  intro _
  apply atMost_ask_bind rfl
  intro _
  apply atMost_ask_bind rfl
  intro replaced
  cases replaced <;> trivial

theorem quiet_atMost {α : Type} {program : Code α} (only : program.Only Quiet) :
    program.AtMost isPush 0 :=
  only.atMost (fun _ quiet => quiet.2) 0

theorem fdfsClient_atMost (sFilename sFileId : Bytes) :
    (fdfsClient sFilename sFileId).AtMost isPush 0 := by
  apply atMost_ask_bind rfl
  intro piped
  cases piped with
  | false => trivial
  | true =>
      apply atMost_ask_bind rfl
      intro pid
      cases pid with
      | failed => exact quiet_atMost (readFileId_only sFileId)
      | parent => exact quiet_atMost (readFileId_only sFileId)
      | child =>
          apply atMost_ofC_bind
          intro name
          apply (runCommand_atMost _ _).zero_bind
          intro _
          exact atMost_ask_bind rfl fun _ => trivial

theorem getUrl_atMost (sFileId sUrl : Bytes) : (getUrl sFileId sUrl).AtMost isPush 0 := by
  apply atMost_ask_bind rfl
  intro piped
  cases piped with
  | false => exact atMost_ask_bind rfl fun _ => trivial
  | true =>
      apply atMost_ask_bind rfl
      intro pid
      cases pid with
      | failed => exact atMost_ask_bind rfl fun _ => trivial
      | parent => exact quiet_atMost (readUrl_only sFileId sUrl)
      | child =>
          apply atMost_ofC_bind
          intro name
          apply (runCommand_atMost _ _).zero_bind
          intro _
          exact atMost_ask_bind rfl fun _ => trivial

theorem ropConnectdbNopwd_only (caller : Func) : (ropConnectdbNopwd caller).Only Quiet := by
  apply only_ask_bind ⟨trivial, rfl⟩
  intro connection
  cases connection with
  | null => trivial
  | err => exact only_ask_bind ⟨trivial, rfl⟩ fun _ => trivial
  | ok => trivial

theorem ropZsetIncrement_only (key member : Bytes) : (ropZsetIncrement key member).Only Quiet := by
  apply only_ofC_bind
  intro text
  apply only_ask_bind ⟨trivial, rfl⟩
  intro reply
  apply only_ofC_bind
  intro reply
  apply only_ofC_bind
  intro str
  split <;> trivial

theorem ropListPush_only (key value : Bytes) : (ropListPush key value).Only NotFork := by
  apply only_ofC_bind
  intro text
  apply only_ask_bind trivial
  intro reply
  apply only_ofC_bind
  intro reply
  cases reply <;> trivial

theorem ropListPush_atMost (key value : Bytes) : (ropListPush key value).AtMost isPush 1 := by
  apply atMost_ofC_bind
  intro text
  refine (Prog.atMost_call_counted (I := interface) rfl).mpr ⟨0, rfl, ?_⟩
  intro reply
  apply atMost_ofC_bind
  intro reply
  cases reply <;> trivial

theorem writeRedis_only (fileId url filename usr : Bytes) :
    (writeRedis fileId url filename usr).Only NotFork := by
  refine (notFork_of_quiet (ropConnectdbNopwd_only _)).bind fun connected => ?_
  cases connected with
  | false => trivial
  | true =>
      apply only_ask_bind trivial
      intro block
      cases block with
      | none => exact only_ask_bind trivial fun _ => trivial
      | some block =>
          refine only_ofC_bind fun cleared => ?_
          refine only_ofC_bind fun front => ?_
          apply only_ask_bind trivial
          intro now
          apply only_ask_bind trivial
          intro before
          refine only_ofC_bind fun createTime => ?_
          refine only_ofC_bind fun record => ?_
          refine (ropListPush_only _ _).bind fun _ => ?_
          refine (notFork_of_quiet (ropZsetIncrement_only _ _)).bind fun _ => ?_
          exact only_ask_bind trivial fun _ => trivial

theorem writeRedis_atMost (fileId url filename usr : Bytes) :
    (writeRedis fileId url filename usr).AtMost isPush 1 := by
  refine (quiet_atMost (ropConnectdbNopwd_only _)).zero_bind fun connected => ?_
  cases connected with
  | false => trivial
  | true =>
      apply atMost_ask_bind rfl
      intro block
      cases block with
      | none => exact atMost_ask_bind rfl fun _ => trivial
      | some block =>
          refine atMost_ofC_bind fun cleared => ?_
          refine atMost_ofC_bind fun front => ?_
          apply atMost_ask_bind rfl
          intro now
          apply atMost_ask_bind rfl
          intro before
          refine atMost_ofC_bind fun createTime => ?_
          refine atMost_ofC_bind fun record => ?_
          refine (ropListPush_atMost _ _).bind_zero fun _ => ?_
          refine (quiet_atMost (ropZsetIncrement_only _ _)).zero_bind fun _ => ?_
          exact atMost_ask_bind rfl fun _ => trivial

theorem recordFile_forksDie (bufs : Bufs) : ForksDie (recordFile bufs) := by
  refine forksDie_ofC_bind fun name => ?_
  apply forksDie_ask_bind
  · trivial
  intro _
  refine (getUrl_forksDie _ _).bind fun located => ?_
  refine forksDie_ofC_bind fun usr => ?_
  refine (forksDie_of_only (writeRedis_only _ _ _ _)).bind fun _ => ?_
  exact forksDie_ofC _

theorem recordFile_atMost (bufs : Bufs) : (recordFile bufs).AtMost isPush 1 := by
  refine atMost_ofC_bind fun name => ?_
  apply atMost_ask_bind rfl
  intro _
  refine (getUrl_atMost _ _).zero_bind fun located => ?_
  refine atMost_ofC_bind fun usr => ?_
  refine (writeRedis_atMost _ _ _ _).bind_zero fun _ => ?_
  exact atMost_ofC _

theorem storeFile_forksDie (bufs : Bufs) (len : Int) (buf : Bytes) :
    ForksDie (storeFile bufs len buf) := by
  refine (forksDie_of_only (notFork_of_quiet (uploadFile_only _ _ _))).bind fun uploaded => ?_
  dsimp only
  split
  · exact forksDie_ofC _
  · refine (fdfsClient_forksDie _ _).bind fun delivered => ?_
    split
    · exact forksDie_ofC _
    · exact recordFile_forksDie _

theorem storeFile_atMost (bufs : Bufs) (len : Int) (buf : Bytes) :
    (storeFile bufs len buf).AtMost isPush 1 := by
  refine (quiet_atMost (uploadFile_only _ _ _)).zero_bind fun uploaded => ?_
  dsimp only
  split
  · exact atMost_ofC _
  · refine (fdfsClient_atMost _ _).zero_bind fun delivered => ?_
    split
    · exact atMost_ofC _
    · exact recordFile_atMost _

theorem handleRequest_forksDie (bufs : Bufs) (request : Request) :
    ForksDie (handleRequest bufs request) := by
  refine forksDie_ofC_bind fun got => ?_
  dsimp only
  split
  · trivial
  · refine forksDie_ofC_bind fun len => ?_
    split
    · exact forksDie_ofC _
    · refine (forksDie_of_only (notFork_of_quiet (getBuf_only _))).bind fun buf => ?_
      cases buf with
      | none => trivial
      | some buf =>
          refine forksDie_ofC_bind fun filled => ?_
          exact storeFile_forksDie _ _ _

theorem handleRequest_atMost (bufs : Bufs) (request : Request) :
    (handleRequest bufs request).AtMost isPush 1 := by
  refine atMost_ofC_bind fun got => ?_
  dsimp only
  split
  · trivial
  · refine atMost_ofC_bind fun len => ?_
    split
    · exact atMost_ofC _
    · refine (quiet_atMost (getBuf_only _)).zero_bind fun buf => ?_
      cases buf with
      | none => trivial
      | some buf =>
          refine atMost_ofC_bind fun filled => ?_
          exact storeFile_atMost _ _ _

end Functions

/-! ## The invariant -/

/-- What is left to do in the process that accepts the requests. -/
def ServerOk (log : List Event) : State → Prop
  | .accepting _ => True
  | .running request rest => ⟨0, none, request, .accept⟩ ∈ log ∧ ForksDie rest ∧
      ∃ bound, rest.AtMost isPush bound ∧ log.countP (isPushFor request) + bound ≤ 1
  | .gone => True

/-- What is left to do in a child of `func`. -/
def ChildOk (func : Func) : State → Prop
  | .accepting _ => False
  | .running _ rest => rest.NeverReturns ExecSucceeds (ChildCall func)
  | .gone => True

/-- The first process is the only one that may come back to `FCGI_Accept`. -/
structure Healthy (system : System) : Prop where
  proper : Proper system.log
  numbered : ∀ event ∈ system.log, event.action = .accept → event.request < system.accepted
  procs : ∃ state children, system.procs = ⟨0, none, state⟩ :: children ∧
    ServerOk system.log state ∧ ∀ proc ∈ children, ∃ func, proc.born = some func ∧
      ChildOk func proc.state

theorem healthy_start : Healthy start := by
  have noEvent : ∀ event, event ∉ start.log := fun event => List.not_mem_nil
  have proper : Proper start.log :=
    ⟨fun event member => absurd member (noEvent event), fun request => Nat.zero_le 1,
      fun event member => absurd member (noEvent event)⟩
  exact ⟨proper, fun event member => absurd member (noEvent event), .accepting .cleared, [], rfl,
    trivial, nofun⟩

section Log

variable {log : List Event} {pid request : Nat} {born : Option Func} {action : Action}

theorem countP_quiet {call : Call} (other : Nat) (quiet : isPush call = false) :
    (log ++ [(⟨pid, born, request, .call call⟩ : Event)]).countP (isPushFor other) =
      log.countP (isPushFor other) := by
  simp [isPushFor, quiet]

theorem childCall_quiet {func : Func} {call : Call} (childCall : ChildCall func call) :
    isPush call = false := by
  cases call with
  | redisCommand command => exact childCall.elim
  | _ => rfl

/-- An event of a child. -/
theorem Proper.child {func : Func} {call : Call} (proper : Proper log)
    (childCall : ChildCall func call) :
    Proper (log ++ [⟨pid, some func, request, .call call⟩]) := by
  have quiet := childCall_quiet childCall
  refine ⟨?_, ?_, ?_⟩
  · intro event member actual born
    cases List.mem_append.mp member with
    | inl earlier => exact proper.children event earlier actual born
    | inr last =>
        cases List.mem_singleton.mp last
        cases born
        exact ⟨call, rfl, childCall⟩
  · intro other
    rw [countP_quiet other quiet]
    exact proper.once other
  · intro event member actual same push
    cases List.mem_append.mp member with
    | inl earlier =>
        exact List.mem_append_left _ (proper.acceptor event earlier actual same push)
    | inr last =>
        cases List.mem_singleton.mp last
        cases same
        rw [quiet] at push
        cases push

/-- An event of the first process. -/
theorem Proper.server (proper : Proper log)
    (accepted : ∀ call, action = .call call → isPush call = true →
      ⟨0, none, request, .accept⟩ ∈ log ∧ log.countP (isPushFor request) = 0) :
    Proper (log ++ [⟨0, none, request, action⟩]) := by
  refine ⟨?_, ?_, ?_⟩
  · intro event member func born
    cases List.mem_append.mp member with
    | inl earlier => exact proper.children event earlier func born
    | inr last =>
        cases List.mem_singleton.mp last
        cases born
  · intro other
    have before := proper.once other
    rw [List.countP_append, List.countP_singleton]
    split
    next push =>
      cases action with
      | accept => cases push
      | call call =>
          obtain ⟨isPush, same⟩ := Bool.and_eq_true_iff.mp push
          cases beq_iff_eq.mp same
          rw [(accepted call rfl isPush).2]
    next => exact before
  · intro event member call same push
    cases List.mem_append.mp member with
    | inl earlier =>
        exact List.mem_append_left _ (proper.acceptor event earlier call same push)
    | inr last =>
        cases List.mem_singleton.mp last
        exact List.mem_append_left _ (accepted call same push).1

theorem numbered_accept {accepted : Nat}
    (numbered : ∀ event ∈ log, event.action = .accept → event.request < accepted) :
    ∀ event ∈ log ++ [⟨pid, born, accepted, .accept⟩], event.action = .accept →
      event.request < accepted + 1 := by
  intro event member isAccept
  cases List.mem_append.mp member with
  | inl earlier => exact Nat.lt_succ_of_lt (numbered event earlier isAccept)
  | inr last =>
      cases List.mem_singleton.mp last
      exact Nat.lt_succ_self accepted

theorem numbered_call {accepted : Nat} {call : Call}
    (numbered : ∀ event ∈ log, event.action = .accept → event.request < accepted) :
    ∀ event ∈ log ++ [⟨pid, born, request, .call call⟩], event.action = .accept →
      event.request < accepted := by
  intro event member isAccept
  cases List.mem_append.mp member with
  | inl earlier => exact numbered event earlier isAccept
  | inr last =>
      cases List.mem_singleton.mp last
      cases isAccept

/-- A number not given out yet has no pushes. -/
theorem countP_fresh {accepted : Nat} (proper : Proper log)
    (numbered : ∀ event ∈ log, event.action = .accept → event.request < accepted) :
    log.countP (isPushFor accepted) = 0 := by
  rw [List.countP_eq_zero]
  intro event member push
  cases event with
  | mk pid born request action =>
      cases action with
      | accept => cases push
      | call call =>
          obtain ⟨isPush, same⟩ := Bool.and_eq_true_iff.mp push
          cases beq_iff_eq.mp same
          have accept := proper.acceptor _ member call rfl isPush
          exact absurd (numbered _ accept rfl) (Nat.lt_irrefl _)

/-- What a child does leaves the first process as it was. -/
theorem serverOk_child {func : Func} {call : Call} {state : State}
    (serverOk : ServerOk log state) (childCall : ChildCall func call) :
    ServerOk (log ++ [⟨pid, some func, request, .call call⟩]) state := by
  cases state with
  | accepting bufs => trivial
  | gone => trivial
  | running own rest =>
      obtain ⟨accepted, die, bound, bounded, few⟩ := serverOk
      refine ⟨List.mem_append_left _ accepted, die, bound, bounded, ?_⟩
      rwa [countP_quiet own (childCall_quiet childCall)]

end Log

/-! ## One step -/

theorem childOk_call {func : Func} {call : Call} {next : Answer call → Code Next} {request : Nat}
    {answer : Answer call} (childOk : ChildOk func (.running request (.call call next)))
    (isAdmissible : ExecSucceeds call answer) :
    ChildCall func call ∧ ChildOk func (.running request (next answer)) :=
  ⟨childOk.1, childOk.2 answer isAdmissible⟩

/-- A call of the first process that makes no child. -/
theorem serverOk_call {log : List Event} {request : Nat} {call : Call}
    {next : Answer call → Code Next} {answer : Answer call}
    (serverOk : ServerOk log (.running request (.call call next))) (plain : Plain call answer) :
    ServerOk (log ++ [⟨0, none, request, .call call⟩]) (.running request (next answer)) := by
  obtain ⟨accepted, die, bound, bounded, few⟩ := serverOk
  refine ⟨List.mem_append_left _ accepted, forksDie_of_call die plain, ?_⟩
  cases push : isPush call with
  | false =>
      rw [countP_quiet request push]
      exact ⟨bound, (Prog.atMost_call_other (I := interface) push).mp bounded answer, few⟩
  | true =>
      obtain ⟨rest, rfl, later⟩ := (Prog.atMost_call_counted (I := interface) push).mp bounded
      refine ⟨rest, later answer, ?_⟩
      rw [List.countP_append, List.countP_singleton, if_pos (by simp [isPushFor, push])]
      omega

/-- A `fork` of the first process: its child will not return. -/
theorem serverOk_fork {log : List Event} {request : Nat} {func : Func} {next : Pid → Code Next}
    (serverOk : ServerOk log (.running request (.call (.fork func) next))) :
    ServerOk (log ++ [⟨0, none, request, .call (.fork func)⟩]) (.running request (next .parent)) ∧
      ChildOk func (.running request (next .child)) := by
  obtain ⟨accepted, ⟨child, others⟩, bound, bounded, few⟩ := serverOk
  refine ⟨⟨List.mem_append_left _ accepted, others .parent nofun, bound, ?_, ?_⟩, child⟩
  · exact (Prog.atMost_call_other (I := interface) rfl).mp bounded Pid.parent
  · rwa [countP_quiet request rfl]

/-- Before a push the request has none. -/
theorem serverOk_push {log : List Event} {request : Nat} {call : Call}
    {next : Answer call → Code Next}
    (serverOk : ServerOk log (.running request (.call call next))) (push : isPush call = true) :
    ⟨0, none, request, .accept⟩ ∈ log ∧ log.countP (isPushFor request) = 0 := by
  obtain ⟨accepted, -, bound, bounded, few⟩ := serverOk
  obtain ⟨rest, rfl, -⟩ := (Prog.atMost_call_counted (I := interface) push).mp bounded
  exact ⟨accepted, by omega⟩

theorem Proper.serverCall {log : List Event} {request : Nat} {call : Call}
    {next : Answer call → Code Next} (proper : Proper log)
    (serverOk : ServerOk log (.running request (.call call next))) :
    Proper (log ++ [⟨0, none, request, .call call⟩]) := by
  apply proper.server
  intro made same push
  cases same
  exact serverOk_push serverOk push

/-- Where a process stands in the list: it is the first, or a child. -/
theorem split_procs {before after children : List Proc} {proc : Proc} {state : State}
    (split : before ++ proc :: after = ⟨0, none, state⟩ :: children) :
    (before = [] ∧ proc = ⟨0, none, state⟩ ∧ after = children) ∨
      ∃ earlier, before = ⟨0, none, state⟩ :: earlier ∧ children = earlier ++ proc :: after := by
  cases before with
  | nil =>
      cases split
      exact Or.inl ⟨rfl, rfl, rfl⟩
  | cons first earlier =>
      cases split
      exact Or.inr ⟨earlier, rfl, rfl⟩

/-- A child of the list is replaced by its next state. -/
theorem children_step {earlier after : List Proc} {pid : Nat} {func : Func} {state next : State}
    (childrenOk : ∀ proc ∈ earlier ++ ⟨pid, some func, state⟩ :: after,
      ∃ func, proc.born = some func ∧ ChildOk func proc.state)
    (nextOk : ChildOk func next) :
    ∀ proc ∈ earlier ++ ⟨pid, some func, next⟩ :: after,
      ∃ func, proc.born = some func ∧ ChildOk func proc.state := by
  intro proc member
  cases List.mem_append.mp member with
  | inl early => exact childrenOk proc (List.mem_append_left _ early)
  | inr late =>
      cases List.mem_cons.mp late with
      | inl here =>
          cases here
          exact ⟨func, rfl, nextOk⟩
      | inr behind =>
          exact childrenOk proc (List.mem_append_right _ (List.mem_cons_of_mem _ behind))

/-- The process that takes the step is the first one or a child. -/
theorem Healthy.located {before after : List Proc} {pid nextPid accepted : Nat}
    {born : Option Func} {state : State} {log : List Event}
    (healthy : Healthy ⟨before ++ ⟨pid, born, state⟩ :: after, nextPid, accepted, log⟩) :
    (before = [] ∧ pid = 0 ∧ born = none ∧ ServerOk log state ∧
      ∀ proc ∈ after, ∃ func, proc.born = some func ∧ ChildOk func proc.state) ∨
    ∃ server earlier func, before = ⟨0, none, server⟩ :: earlier ∧ born = some func ∧
      ServerOk log server ∧ ChildOk func state ∧
      ∀ proc ∈ earlier ++ ⟨pid, born, state⟩ :: after,
        ∃ func, proc.born = some func ∧ ChildOk func proc.state := by
  obtain ⟨server, children, shape, serverOk, childrenOk⟩ := healthy.procs
  cases split_procs shape with
  | inl first =>
      obtain ⟨rfl, same, rfl⟩ := first
      cases same
      exact Or.inl ⟨rfl, rfl, rfl, serverOk, childrenOk⟩
  | inr child =>
      obtain ⟨earlier, rfl, rfl⟩ := child
      obtain ⟨func, isBorn, childOk⟩ := childrenOk _ (List.mem_append_right _ List.mem_cons_self)
      exact Or.inr ⟨server, earlier, func, rfl, isBorn, serverOk, childOk, childrenOk⟩

theorem healthy_step {before after : System} (healthy : Healthy before)
    (step : Step ExecSucceeds before after) : Healthy after := by
  have proper := healthy.proper
  have numbered := healthy.numbered
  cases step with
  | accept earlier later pid born bufs request nextPid accepted log =>
      rcases healthy.located with ⟨rfl, rfl, rfl, -, childrenOk⟩ | ⟨_, _, _, -, -, -, childOk, -⟩
      · refine ⟨proper.server nofun, numbered_accept numbered, ?_⟩
        refine ⟨_, _, rfl, ⟨by simp, handleRequest_forksDie _ _, 1, handleRequest_atMost _ _, ?_⟩,
          childrenOk⟩
        rw [List.countP_append, countP_fresh proper numbered]
        exact Nat.le_refl 1
      · exact childOk.elim
  | call earlier later pid born request call next answer isAdmissible plain nextPid accepted log =>
      rcases healthy.located with ⟨rfl, rfl, rfl, serverOk, childrenOk⟩ |
        ⟨_, _, _, rfl, rfl, serverOk, childOk, childrenOk⟩
      · exact ⟨proper.serverCall serverOk, numbered_call numbered, _, _, rfl,
          serverOk_call serverOk plain, childrenOk⟩
      · obtain ⟨childCall, nextOk⟩ := childOk_call childOk isAdmissible
        exact ⟨proper.child childCall, numbered_call numbered, _, _, rfl,
          serverOk_child serverOk childCall, children_step childrenOk nextOk⟩
  | fork earlier later pid born request func next nextPid accepted log =>
      rcases healthy.located with ⟨rfl, rfl, rfl, serverOk, childrenOk⟩ | ⟨_, _, _, -, -, -, childOk, -⟩
      · obtain ⟨parentOk, childOk⟩ := serverOk_fork serverOk
        refine ⟨proper.serverCall serverOk, numbered_call numbered, _, _, rfl, parentOk, ?_⟩
        intro proc member
        cases List.mem_append.mp member with
        | inl old => exact childrenOk proc old
        | inr new =>
            cases List.mem_singleton.mp new
            exact ⟨func, rfl, childOk⟩
      · exact childOk.1.elim
  | again earlier later pid born request bufs nextPid accepted log =>
      rcases healthy.located with ⟨rfl, rfl, rfl, -, childrenOk⟩ | ⟨_, _, _, -, -, -, childOk, -⟩
      · exact ⟨proper, numbered, _, _, rfl, trivial, childrenOk⟩
      · exact childOk.elim
  | leave earlier later pid born request code nextPid accepted log =>
      rcases healthy.located with ⟨rfl, rfl, rfl, -, childrenOk⟩ | ⟨_, _, _, -, -, -, childOk, -⟩
      · exact ⟨proper, numbered, _, _, rfl, trivial, childrenOk⟩
      · exact childOk.elim
  | stop earlier later pid born request reason nextPid accepted log =>
      rcases healthy.located with ⟨rfl, rfl, rfl, -, childrenOk⟩ |
        ⟨_, _, _, rfl, rfl, serverOk, -, childrenOk⟩
      · exact ⟨proper, numbered, _, _, rfl, trivial, childrenOk⟩
      · exact ⟨proper, numbered, _, _, rfl, serverOk, children_step childrenOk trivial⟩

theorem healthy_of_reachable {system : System} (reached : Reachable ExecSucceeds system) :
    Healthy system := by
  induction reached with
  | start => exact healthy_start
  | step before after reached step inductionHypothesis =>
      exact healthy_step inductionHypothesis step

/-- In the runs in which every `execlp` replaces its process, only the process
that accepted a request carries it on. -/
theorem acceptor_carries_on (system : System) (reached : Reachable ExecSucceeds system) :
    Proper system.log :=
  (healthy_of_reachable reached).proper

/-! ## A request with its two children -/

/-- The children of a run, with the functions that forked. -/
def forked (env : Env) : Code Next → List (Func × Code Next)
  | .ret _ => []
  | .stop _ => []
  | .call call next =>
      match call, next with
      | .fork func, next => (func, next .child) :: forked env (next (env (.fork func)))
      | call, next => forked env (next (env call))

/-- The processes of the children, from this number on. -/
def newborn (request : Nat) : Nat → List (Func × Code Next) → List Proc
  | _, [] => []
  | pid, child :: later => ⟨pid, some child.1, .running request child.2⟩ :: newborn request (pid + 1) later

/-- What is left of a program that has ended. -/
def ended : Outcome Stop Next → Code Next
  | .returned next => .ret next
  | .stopped reason => .stop reason

theorem forked_call {env : Env} {call : Call} {next : Answer call → Code Next} (notFork : NotFork call) :
    forked env (Prog.call (I := interface) call next) = forked env (next (env call)) := by
  cases call with
  | fork func => exact notFork.elim
  | _ => rfl

theorem plain_of_notFork {call : Call} (notFork : NotFork call) (answer : Answer call) :
    Plain call answer := by
  cases call with
  | fork func => exact notFork.elim
  | _ => trivial

section Following

variable {admissible : (call : Call) → Answer call → Prop} {env : Env}
variable (given : ∀ call, admissible call (env call)) (parent : ∀ func, env (.fork func) = .parent)

include given parent

/-- A process with the answers of `env` comes to the end of its program, and its
children are there. -/
theorem follow {program : Code Next} {before after : List Proc} {pid request nextPid accepted : Nat}
    {born : Option Func} {log : List Event}
    (reached : Reachable admissible
      ⟨before ++ ⟨pid, born, .running request program⟩ :: after, nextPid, accepted, log⟩) :
    Reachable admissible
      ⟨before ++ ⟨pid, born, .running request (ended (program.outcome env))⟩ ::
          (after ++ newborn request nextPid (forked env program)),
        nextPid + (forked env program).length, accepted,
        log ++ (program.trace env).map fun call => ⟨pid, born, request, .call call⟩⟩ := by
  induction program generalizing after nextPid log with
  | ret value =>
      rw [forked, newborn, Prog.trace_ret, List.map_nil, List.append_nil, List.append_nil]
      exact reached
  | stop reason =>
      rw [forked, newborn, Prog.trace_stop, List.map_nil, List.append_nil, List.append_nil]
      exact reached
  | call call next inductionHypothesis =>
      have append : ∀ calls : List Call, log ++ (call :: calls).map (fun call =>
          (⟨pid, born, request, .call call⟩ : Event)) = log ++ [⟨pid, born, request, .call call⟩] ++
            calls.map fun call => ⟨pid, born, request, .call call⟩ := by
        intro calls
        rw [List.map_cons, List.append_assoc, List.singleton_append]
      rw [Prog.trace_call, append]
      by_cases notFork : NotFork call
      · rw [forked_call notFork]
        exact inductionHypothesis (env call) (.step _ _ reached (.call before after pid born request call
          next _ (given call) (plain_of_notFork notFork _) nextPid accepted log))
      · cases call with
        | fork func =>
            have forks : Reachable admissible _ := .step _ _ reached
              (.fork before after pid born request func next nextPid accepted log)
            rw [List.append_assoc, List.cons_append, ← parent func] at forks
            have went := inductionHypothesis (env (.fork func)) forks
            rw [List.append_assoc, Nat.add_assoc, Nat.add_comm 1] at went
            exact went
        | _ => exact absurd trivial notFork

end Following

def isExec (func : Func) : Call → Bool
  | .execlp caller _ => caller = func
  | _ => false

theorem fileStored_execs (call : Call) : ExecSucceeds call (fileStored call) := by
  cases call with
  | execlp caller arguments => rfl
  | _ => trivial

/-- The stored request has two children, and each runs its command. -/
theorem smallRequest_forked :
    ∃ upload info, forked fileStored (handleRequest .cleared smallRequest) =
        [(.fdfsClient, upload), (.getUrl, info)] ∧
      (upload.outcome fileStored = .stopped .replaced ∧ forked fileStored upload = [] ∧
        ∃ call ∈ upload.trace fileStored, isExec .fdfsClient call = true) ∧
      info.outcome fileStored = .stopped .replaced ∧ forked fileStored info = [] ∧
        ∃ call ∈ info.trace fileStored, isExec .getUrl call = true := by
  have children : (forked fileStored (handleRequest .cleared smallRequest)).map (fun child =>
      (child.1, child.2.outcome fileStored, (forked fileStored child.2).length,
        (child.2.trace fileStored).any (isExec child.1))) =
      [(.fdfsClient, .stopped .replaced, 0, true), (.getUrl, .stopped .replaced, 0, true)] := by
    decide +kernel
  obtain ⟨first, later, shape, upload, rest⟩ := List.map_eq_cons_iff.mp children
  obtain ⟨second, nothing, rfl, info, none⟩ := List.map_eq_cons_iff.mp rest
  cases List.map_eq_nil_iff.mp none
  obtain ⟨func, upload'⟩ := first
  obtain ⟨func', info'⟩ := second
  obtain ⟨rfl, uploads, alone, execs⟩ : _ ∧ _ ∧ _ ∧ _ := by simpa only [Prod.mk.injEq] using upload
  obtain ⟨rfl, informs, alone', execs'⟩ : _ ∧ _ ∧ _ ∧ _ := by simpa only [Prod.mk.injEq] using info
  exact ⟨upload', info', shape,
    ⟨uploads, List.length_eq_zero_iff.mp alone, List.any_eq_true.mp execs⟩,
    informs, List.length_eq_zero_iff.mp alone', List.any_eq_true.mp execs'⟩

/-- A file is stored: both children have run their commands, and the first
process has pushed the record and is back at `FCGI_Accept`. -/
theorem acceptor_carries_on_stored : ∃ procs nextPid accepted log,
    Reachable ExecSucceeds ⟨⟨0, none, .accepting .cleared⟩ :: procs, nextPid, accepted, log⟩ ∧
      procs.map Proc.born = [some .fdfsClient, some .getUrl] ∧
      (∃ event ∈ log, isPushFor 0 event = true) ∧
      (∀ func, some func ∈ procs.map Proc.born → ∃ event ∈ log, event.born = some func ∧
        ∃ call, event.action = .call call ∧ isExec func call = true) ∧ Proper log := by
  have pushes : ((handleRequest .cleared smallRequest).trace fileStored).any isPush = true := by
    decide +kernel
  obtain ⟨upload, info, children, ⟨uploads, alone, execs⟩, informs, alone', execs'⟩ := smallRequest_forked
  have accept : Reachable ExecSucceeds _ :=
    .step _ _ .start (.accept [] [] 0 none .cleared smallRequest 1 0 [])
  have stored := follow fileStored_execs (fun _ => rfl) accept
  rw [smallRequest_stored, children] at stored
  have back : Reachable ExecSucceeds ⟨[⟨0, none, .accepting .cleared⟩] ++
      ⟨1, some .fdfsClient, .running 0 upload⟩ :: [⟨2, some .getUrl, .running 0 info⟩], _, _, _⟩ :=
    .step _ _ stored (.again [] _ 0 none 0 .cleared _ _ _)
  have first := follow fileStored_execs (fun _ => rfl) back
  rw [uploads, alone] at first
  have replaced : Reachable ExecSucceeds ⟨[⟨0, none, .accepting .cleared⟩, ⟨1, some .fdfsClient, .gone⟩] ++
      ⟨2, some .getUrl, .running 0 info⟩ :: [], _, _, _⟩ :=
    .step _ _ first (.stop [_] [_] 1 _ 0 .replaced _ _ _)
  have second := follow fileStored_execs (fun _ => rfl) replaced
  rw [informs, alone'] at second
  have both : Reachable ExecSucceeds ⟨[⟨0, none, .accepting .cleared⟩, ⟨1, some .fdfsClient, .gone⟩,
      ⟨2, some .getUrl, .gone⟩], _, _, _⟩ := .step _ _ second (.stop [_, _] [] 2 _ 0 .replaced _ _ _)
  refine ⟨_, _, _, _, both, rfl, ?_, ?_, acceptor_carries_on _ both⟩
  · obtain ⟨call, made, push⟩ := List.any_eq_true.mp pushes
    exact ⟨⟨0, none, 0, .call call⟩, by simp [made], by simp [isPushFor, push]⟩
  · obtain ⟨call, made, exec⟩ := execs
    obtain ⟨call', made', exec'⟩ := execs'
    intro func member
    simp only [List.map_cons, List.map_nil, List.mem_cons, Option.some_inj, List.not_mem_nil,
      or_false] at member
    rcases member with rfl | rfl
    · exact ⟨⟨1, some .fdfsClient, 0, .call call⟩, by simp [made], rfl, call, rfl, exec⟩
    · exact ⟨⟨2, some .getUrl, 0, .call call'⟩, by simp [made'], rfl, call', rfl, exec'⟩

/-! ## A child that comes back -/

/-- Whatever the environment may answer. -/
def AnyAnswer (_call : Call) (_answer : Answer _call) : Prop := True

/-- Some run has a process made by `born` in this state. -/
def Seen (born : Option Func) (state : State) : Prop :=
  ∃ before after pid nextPid accepted log,
    Reachable AnyAnswer ⟨before ++ ⟨pid, born, state⟩ :: after, nextPid, accepted, log⟩

section Seen

variable {born : Option Func} {request : Nat}

theorem Seen.accept {bufs : Bufs} (seen : Seen born (.accepting bufs)) (next : Request) :
    ∃ request, Seen born (.running request (handleRequest bufs next)) := by
  obtain ⟨before, after, pid, nextPid, accepted, log, reached⟩ := seen
  exact ⟨accepted, before, after, pid, nextPid, accepted + 1, _,
    .step _ _ reached (.accept before after pid born bufs next nextPid accepted log)⟩

theorem Seen.call {call : Call} {next : Answer call → Code Next}
    (seen : Seen born (.running request (.call call next))) {answer : Answer call}
    (plain : Plain call answer) : Seen born (.running request (next answer)) := by
  obtain ⟨before, after, pid, nextPid, accepted, log, reached⟩ := seen
  exact ⟨before, after, pid, nextPid, accepted, _, .step _ _ reached
    (.call before after pid born request call next answer trivial plain nextPid accepted log)⟩

theorem Seen.again {bufs : Bufs} (seen : Seen born (.running request (.ret (.again bufs)))) :
    Seen born (.accepting bufs) := by
  obtain ⟨before, after, pid, nextPid, accepted, log, reached⟩ := seen
  exact ⟨before, after, pid, nextPid, accepted, log,
    .step _ _ reached (.again before after pid born request bufs nextPid accepted log)⟩

variable {func : Func} {next : Pid → Code Next}

theorem Seen.parent (seen : Seen born (.running request (.call (.fork func) next))) :
    Seen born (.running request (next .parent)) := by
  obtain ⟨before, after, pid, nextPid, accepted, log, reached⟩ := seen
  have forked : Reachable AnyAnswer _ := .step _ _ reached
    (.fork before after pid born request func next nextPid accepted log)
  rw [List.append_assoc, List.cons_append] at forked
  exact ⟨before, _, pid, _, accepted, _, forked⟩

theorem Seen.child (seen : Seen born (.running request (.call (.fork func) next))) :
    Seen (some func) (.running request (next .child)) := by
  obtain ⟨before, after, pid, nextPid, accepted, log, reached⟩ := seen
  exact ⟨_, [], nextPid, _, accepted, _,
    .step _ _ reached (.fork before after pid born request func next nextPid accepted log)⟩

end Seen

/-- The process that sees the answers of `env` comes to the end of its program;
where `fork` answers `child` this is the new process. -/
theorem Seen.follow {env : Env} {program : Code Next} {next : Next} {request : Nat}
    (returns : program.outcome env = .returned next) {born : Option Func}
    (seen : Seen born (.running request program)) :
    ∃ follower, Seen follower (.running request (.ret next)) ∧
      (born ≠ none ∨ (∃ func, .fork func ∈ program.trace env ∧ env (.fork func) = .child) →
        follower ≠ none) := by
  induction program generalizing born with
  | ret value =>
      cases returns
      refine ⟨born, seen, ?_⟩
      rintro (isChild | ⟨func, member, -⟩)
      · exact isChild
      · cases member
  | stop reason => cases returns
  | call call continue_ inductionHypothesis =>
      -- whether the process is a child behind this call
      have goOn : ∀ behind, Seen behind (.running request (continue_ (env call))) →
          (born ≠ none ∨ (∃ func, .fork func = call ∧ env (.fork func) = .child) →
            behind ≠ none) →
          ∃ follower, Seen follower (.running request (.ret next)) ∧
            (born ≠ none ∨ (∃ func, .fork func ∈ (Prog.call (I := interface) call continue_).trace env ∧
              env (.fork func) = .child) → follower ≠ none) := by
        intro behind moved child
        obtain ⟨follower, arrives, late⟩ := inductionHypothesis (env call) returns moved
        refine ⟨follower, arrives, ?_⟩
        rintro (isChild | ⟨func, member, forked⟩)
        · exact late (Or.inl (child (Or.inl isChild)))
        · cases List.mem_cons.mp member with
          | inl here => exact late (Or.inl (child (Or.inr ⟨func, here, forked⟩)))
          | inr later => exact late (Or.inr ⟨func, later, forked⟩)
      cases call with
      | fork func =>
          cases forked : env (.fork func) with
          | failed =>
              refine goOn born (seen.call forked) ?_
              rintro (isChild | ⟨_, ⟨⟩, child⟩)
              · exact isChild
              · cases forked.symm.trans child
          | parent =>
              refine goOn born (forked ▸ seen.parent) ?_
              rintro (isChild | ⟨_, ⟨⟩, child⟩)
              · exact isChild
              · cases forked.symm.trans child
          | child => exact goOn (some func) (forked ▸ seen.child) fun _ => nofun
      | _ =>
          refine goOn born (seen.call trivial) ?_
          rintro (isChild | ⟨_, ⟨⟩, -⟩)
          exact isChild

/-- The process is the child of `fdfs_client`, and FastDFS's command cannot be
started. -/
def execFails : Env
  | .fork .fdfsClient => .child
  | .execlp .fdfsClient _ => false
  | call => allSucceed call

theorem clearBufs_outcome (env : Env) {bufs : Bufs} (sized : bufs.Sized) :
    (ofC (clearBufs bufs)).outcome env = .returned (.again .cleared) := by
  rw [clearBufs_eq sized]
  rfl

/-- The child of the small request comes back to `FCGI_Accept`. -/
theorem smallRequest_execFails :
    (handleRequest .cleared smallRequest).outcome execFails = .returned (.again .cleared) ∧
      .fork .fdfsClient ∈ (handleRequest .cleared smallRequest).trace execFails := by
  have same : completed execFails = execFails := by
    funext call
    cases call with
    | fork caller => cases caller <;> rfl
    | execlp caller arguments => cases caller <;> rfl
    | _ => rfl
  obtain ⟨filename, uploaded, filenameAt⟩ := smallBody_upload execFails
  rw [same] at uploaded
  have named := (uploadFile_satisfies _ _ _ _).2 _ uploaded
  have sized : (Bufs.mk filename (zeros fileIdLen) (zeros fileIdLen) (zeros usrSize)).Sized :=
    ⟨(takeName_length named).trans (zeros_length _), zeros_length _,
      zeros_length _, zeros_length _⟩
  have piped : execFails (.pipe .fdfsClient) = true := rfl
  have forked : execFails (.fork .fdfsClient) = .child := rfl
  have failed : (fdfsClient filename (zeros fileIdLen)).outcome execFails =
      .returned (-1, zeros fileIdLen) := by
    simp only [fdfsClient, outcome_ask_bind, piped, forked, filenameAt, ofC_ok, Prog.ret_bind]
    rfl
  have made : .fork .fdfsClient ∈ (fdfsClient filename (zeros fileIdLen)).trace execFails := by
    simp only [fdfsClient, trace_ask_bind, piped]
    exact List.mem_cons_of_mem _ List.mem_cons_self
  have stored : (storeFile .cleared 99 (smallBody ++ [0])).outcome execFails =
      .returned (.again .cleared) := by
    refine (Prog.outcome_bind_returned _ uploaded _).trans ?_
    simp only []
    rw [if_neg (by decide)]
    refine (Prog.outcome_bind_returned _ failed _).trans ?_
    simp only []
    rw [if_pos (by decide)]
    exact clearBufs_outcome execFails sized
  have storedMade : .fork .fdfsClient ∈ (storeFile .cleared 99 (smallBody ++ [0])).trace execFails :=
    Prog.mem_trace_bind_returned _ uploaded (Prog.mem_trace_bind_left _ made)
  have allocated : (getBuf 99).outcome execFails = .returned (some (zeros (toSize (99 + 1)))) :=
    smallRequest_buf (Option.some_ne_none _)
  rw [handleRequest, show getUsr smallRequest.queryString Bufs.cleared.usr = _ from smallRequest_usr,
    ofC_ok, Prog.ret_bind]
  simp only []
  rw [if_neg (by decide), smallRequest_len, ofC_ok, Prog.ret_bind, if_neg (by decide)]
  constructor
  · refine (Prog.outcome_bind_returned _ allocated _).trans ?_
    simp only [smallRequest_body, ofC_ok, Prog.ret_bind]
    exact stored
  · refine Prog.mem_trace_bind_returned _ allocated ?_
    simp only [smallRequest_body, ofC_ok, Prog.ret_bind]
    exact storedMade

/-- A child that `execlp` could not replace accepts the next request. -/
theorem child_accepts : ∃ system, Reachable AnyAnswer system ∧
    (∃ event ∈ system.log, event.born ≠ none ∧ event.action = .accept) ∧
      ¬ Proper system.log := by
  have begun : Seen none (.accepting .cleared) := ⟨[], [], 0, 1, 0, [], .start⟩
  obtain ⟨request, running⟩ := begun.accept smallRequest
  obtain ⟨returns, forked⟩ := smallRequest_execFails
  obtain ⟨follower, arrived, child⟩ := running.follow returns
  have isChild := child (Or.inr ⟨.fdfsClient, forked, rfl⟩)
  obtain ⟨before, after, pid, nextPid, accepted, log, reached⟩ := arrived.again
  refine ⟨_, .step _ _ reached (.accept before after pid follower .cleared smallRequest nextPid
    accepted log), ⟨_, List.mem_append_right _ List.mem_cons_self, isChild, rfl⟩, ?_⟩
  intro proper
  obtain ⟨func, born⟩ := Option.ne_none_iff_exists'.mp isChild
  obtain ⟨call, made, -⟩ :=
    proper.children _ (List.mem_append_right _ List.mem_cons_self) func born
  cases made

end DistStore.ProcessTree

import DistStore.DataUse
import DistStore.Query
import DistStore.StrReplace

/-!
# The loop of `data_cgi`

`handleRequest` is the loop body of `data_cgi`'s `main`.  It clears its buffers
first, so that no request sees an earlier one.  The member a click passes to
`ZINCRBY` comes from `str_replace`, and with it bytes of the block that
`malloc` gave that function.
-/

set_option autoImplicit false

namespace DistStore.DataCgi

open CMemory ListSearch Program Environment RedisOp Query DataUse StrReplace

def fileIdLen : Nat := 256

/-- The buffers of `main`. -/
structure Bufs where
  cmd : Bytes
  fromId : Bytes
  cnt : Bytes
  fileId : Bytes
  deriving DecidableEq, Repr

def Bufs.cleared : Bufs := ⟨zeros 20, zeros 64, zeros 5, zeros fileIdLen⟩

/-- Buffers of the declared sizes. -/
structure Bufs.Sized (bufs : Bufs) : Prop where
  cmd : bufs.cmd.length = 20
  fromId : bufs.fromId.length = 64
  cnt : bufs.cnt.length = 5
  fileId : bufs.fileId.length = fileIdLen

/-- Where the loop body ends: back at `FCGI_Accept`, or out of the loop with the
code `main` returns. -/
inductive Next where
  | again (bufs : Bufs)
  | leave (code : Int)
  deriving DecidableEq, Repr

def clearBufs (bufs : Bufs) : C Bufs := do
  let cmd ← memset bufs.cmd 0 0 20
  let fromId ← memset bufs.fromId 0 0 64
  let cnt ← memset bufs.cnt 0 0 5
  let fileId ← memset bufs.fileId 0 0 fileIdLen
  return ⟨cmd, fromId, cnt, fileId⟩

/-- The command `newFile`. -/
def newFile (bufs : Bufs) (query : Option Bytes) : Code Next := do
  let (_, fromId) ← ofC (getFromId query bufs.fromId)
  let (_, cnt) ← ofC (getCnt query bufs.cnt)
  let from_ ← ofC (strAt fromId 0)
  let count ← ofC (strAt cnt 0)
  let _ ← readRedisToJson (atoi from_) (atoi count)
  return .again { bufs with fromId, cnt }

/-- The command `increase` once its file id is read. -/
def countClick (bufs : Bufs) (found : Bytes) : Code Next := do
  let (code, fileId) ← strReplace found (lit "%2F") (lit "/")
  if code ≠ 0 then return .leave (-1)
  else
    let _ ← increaseFilePv fileId
    return .again { bufs with fileId }

/-- The command `increase`. -/
def increase (bufs : Bufs) (query : Option Bytes) : Code Next := do
  let (_, found) ← ofC (getFileId query bufs.fileId)
  countClick bufs found

/-- The loop body. -/
def handleRequest (bufs : Bufs) (query : Option Bytes) : Code Next := do
  let cleared ← ofC (clearBufs bufs)
  let (_, cmd) ← ofC (getCmd query cleared.cmd)
  let command ← ofC (strAt cmd 0)
  if command = lit "newFile" then newFile { cleared with cmd } query
  else if command = lit "increase" then increase { cleared with cmd } query
  else return .again { cleared with cmd }

/-- The loop of `main` is back at `FCGI_Accept` with these buffers after these
requests, each answered by its own environment. -/
inductive Serving : List (Option Bytes × Env) → Bufs → Prop where
  | start : Serving [] .cleared
  | again (history : List (Option Bytes × Env)) (bufs next : Bufs) (query : Option Bytes)
      (env : Env) (served : Serving history bufs)
      (returned : (handleRequest bufs query).outcome env = .returned (.again next)) :
      Serving (history ++ [(query, env)]) next

/-! ## Earlier requests -/

theorem clearBufs_eq {bufs : Bufs} (sized : bufs.Sized) : clearBufs bufs = .ok .cleared := by
  obtain ⟨cmd, fromId, cnt, fileId⟩ := sized
  have cmdCleared := memset_whole bufs.cmd 0 cmd
  have fromIdCleared := memset_whole bufs.fromId 0 fromId
  have cntCleared := memset_whole bufs.cnt 0 cnt
  have fileIdCleared := memset_whole bufs.fileId 0 fileId
  simp only [Nat.cast_ofNat] at *
  rw [clearBufs, cmdCleared, ok_bind, fromIdCleared, ok_bind, cntCleared, ok_bind, fileIdCleared]
  rfl

theorem cleared_sized : Bufs.cleared.Sized where
  cmd := zeros_length _
  fromId := zeros_length _
  cnt := zeros_length _
  fileId := zeros_length _

/-- What the buffers held before makes no difference to a request. -/
theorem handleRequest_eq {bufs : Bufs} (sized : bufs.Sized) (query : Option Bytes) :
    handleRequest bufs query = handleRequest .cleared query := by
  rw [handleRequest, handleRequest, clearBufs_eq sized, clearBufs_eq cleared_sized]

section Request

variable {env : Env} {bufs : Bufs} {query : Option Bytes}

def KeepsSizes (next : Next) : Prop := ∀ bufs, next = .again bufs → bufs.Sized

theorem newFile_keepsSizes (sized : bufs.Sized) :
    (newFile bufs query).Satisfies env (fun _ => True) KeepsSizes := by
  refine satisfies_ofC_bind ?_
  rintro ⟨fromCode, fromId⟩ gotFrom
  refine satisfies_ofC_bind ?_
  rintro ⟨cntCode, cnt⟩ gotCnt
  refine satisfies_ofC_bind fun _ _ => satisfies_ofC_bind fun _ _ => ?_
  refine (Prog.satisfies_trivial _).bind fun _ _ _ => Prog.satisfies_ret ?_
  rintro _ ⟨⟩
  exact ⟨sized.cmd, (getParameter_length gotFrom).2.trans sized.fromId,
    (getParameter_length gotCnt).2.trans sized.cnt, sized.fileId⟩

theorem increase_keepsSizes (sized : bufs.Sized) :
    (increase bufs query).Satisfies env (fun _ => True) KeepsSizes := by
  refine satisfies_ofC_bind ?_
  rintro ⟨gotCode, found⟩ got
  simp only [countClick]
  refine (strReplace_satisfies fun _ => trivial).bind ?_
  rintro ⟨code, fileId⟩ - length
  simp only [] at length ⊢
  split
  · exact Prog.satisfies_ret nofun
  · refine (Prog.satisfies_trivial _).bind fun _ _ _ => Prog.satisfies_ret ?_
    rintro _ ⟨⟩
    exact ⟨sized.cmd, sized.fromId, sized.cnt,
      length.trans ((getParameter_length got).2.trans sized.fileId)⟩

theorem handleRequest_keepsSizes (sized : bufs.Sized) :
    (handleRequest bufs query).Satisfies env (fun _ => True) KeepsSizes := by
  rw [handleRequest, clearBufs_eq sized, ofC_ok, Prog.ret_bind]
  refine satisfies_ofC_bind ?_
  rintro ⟨code, cmd⟩ got
  have cmdSized : Bufs.Sized { Bufs.cleared with cmd } :=
    ⟨(getParameter_length got).2.trans cleared_sized.cmd, cleared_sized.fromId, cleared_sized.cnt,
      cleared_sized.fileId⟩
  refine satisfies_ofC_bind fun command _ => ?_
  split
  · exact newFile_keepsSizes cmdSized
  · split
    · exact increase_keepsSizes cmdSized
    · refine Prog.satisfies_ret ?_
      rintro _ ⟨⟩
      exact cmdSized

end Request

theorem serving_sized {history : List (Option Bytes × Env)} {bufs : Bufs}
    (served : Serving history bufs) : bufs.Sized := by
  induction served with
  | start => exact cleared_sized
  | again history bufs next query env served returned inductionHypothesis =>
      exact (handleRequest_keepsSizes inductionHypothesis).2 _ returned next rfl

/-! ## The member of a click -/

def commandOf : Call → Option Command
  | .redisCommand command => some command
  | _ => none

/-- The Redis commands of a run. -/
def commands {α : Type} (env : Env) (program : Code α) : List Command :=
  (program.trace env).filterMap commandOf

section Commands

variable {α β : Type} {env : Env} {program : Code β}

theorem commands_ask_bind (call : Call) (continue_ : Answer call → Code α) :
    commands env (ask call >>= continue_) =
      (commandOf call).toList ++ commands env (continue_ (env call)) := by
  rw [commands, trace_ask_bind, List.filterMap_cons]
  cases commandOf call with
  | none => rfl
  | some command => rfl

theorem commands_bind_returned {value : β} (returns : program.outcome env = .returned value)
    (continue_ : β → Code α) : commands env (program >>= continue_) =
      commands env program ++ commands env (continue_ value) := by
  have traces := Prog.trace_bind_returned (I := interface) env returns continue_
  exact (congrArg (List.filterMap commandOf) traces).trans List.filterMap_append

theorem commands_bind_stopped {reason : Stop} (stops : program.outcome env = .stopped reason)
    (continue_ : β → Code α) : commands env (program >>= continue_) = commands env program := by
  have traces := Prog.trace_bind_stopped (I := interface) env stops continue_
  exact congrArg (List.filterMap commandOf) traces

theorem commands_of_satisfies
    (silent : program.Satisfies env (fun call => commandOf call = none) fun _ => True) :
    commands env program = [] :=
  List.filterMap_eq_nil_iff.mpr silent.1

end Commands

/-- A click on a file id that fits its buffer. -/
structure Increase (query : Option Bytes) (fileId : Bytes) : Prop where
  command : ∃ code cmd, getCmd query (zeros 20) = .ok (code, cmd) ∧ strAt cmd 0 = .ok (lit "increase")
  fileId : ∃ code found, getFileId query (zeros fileIdLen) = .ok (code, found) ∧
    strAt found 0 = .ok fileId

/-- `malloc` gives `str_replace` its block, with any contents, and Redis is
reached. -/
structure Ready (env : Env) : Prop where
  malloc : ∀ size, ∃ block, env (.malloc .strReplace size) = some block
  connect : env (.redisConnect .increaseFilePv) = .ok

/-- The request passes one command to Redis, `ZINCRBY` with this member. -/
def Passes (env : Env) (bufs : Bufs) (query : Option Bytes) (member : Bytes) : Prop :=
  commands env (handleRequest bufs query) = [.zincrby fileHotZset member]

/-- The member depends on the query string alone. -/
def Isolated (query : Option Bytes) : Prop :=
  ∃ member, ∀ history bufs env, Serving history bufs → Ready env → Passes env bufs query member

section Click

variable {env : Env} {query : Option Bytes} {fileId found next : Bytes}

theorem commands_ropZsetIncrement (holds : strAt next 0 = .ok fileId) :
    commands env (ropZsetIncrement fileHotZset next) = [.zincrby fileHotZset fileId] := by
  rw [ropZsetIncrement, holds, ofC_ok, Prog.ret_bind, commands_ask_bind]
  have silent : commands env (do
      let reply ← ofC (present (env (.redisCommand (.zincrby fileHotZset fileId))))
      let str ← ofC (present reply.str)
      if str ≠ lit "OK" then return (-1 : Int) else return 0) = [] := by
    refine commands_of_satisfies (satisfies_ofC_bind fun reply _ =>
      satisfies_ofC_bind fun str _ => ?_)
    split
    · exact Prog.satisfies_ret trivial
    · exact Prog.satisfies_ret trivial
  rw [silent]
  rfl

theorem commands_increaseFilePv (ready : Ready env) (holds : strAt next 0 = .ok fileId) :
    commands env (increaseFilePv next) = [.zincrby fileHotZset fileId] := by
  have connects := ropConnectdbNopwd_outcome ready.connect
  have connecting : commands env (ropConnectdbNopwd .increaseFilePv) = [] := by
    rw [ropConnectdbNopwd, commands_ask_bind, ready.connect]
    rfl
  rw [increaseFilePv, commands_bind_returned connects, connecting, List.nil_append]
  simp only [Bool.not_true, Bool.false_eq_true, if_false]
  rcases ended : (ropZsetIncrement fileHotZset next).outcome env with code | reason
  · rw [commands_bind_returned ended, commands_ropZsetIncrement holds]
    rfl
  · rw [commands_bind_stopped ended, commands_ropZsetIncrement holds]

theorem handleRequest_increase (click : Increase query fileId) :
    ∃ bufs found, strAt found 0 = .ok fileId ∧
      handleRequest .cleared query = countClick bufs found := by
  obtain ⟨⟨cmdCode, cmd, gotCmd, isIncrease⟩, ⟨idCode, found, gotId, holds⟩⟩ := click
  refine ⟨{ Bufs.cleared with cmd }, found, holds, ?_⟩
  have other : lit "increase" ≠ lit "newFile" := by decide
  rw [handleRequest, clearBufs_eq cleared_sized, ofC_ok, Prog.ret_bind]
  simp only [Bufs.cleared, gotCmd, isIncrease, ofC_ok, Prog.ret_bind, if_neg other, if_true,
    increase, gotId]

theorem commands_strReplace (src key replace : Bytes) :
    commands env (strReplace src key replace) = [] :=
  commands_of_satisfies ((strReplace_satisfies fun _ => rfl).weaken (fun _ silent => silent)
    fun _ _ => trivial)

/-- The file id fits the buffer of the loop. -/
theorem Increase.short (click : Increase query fileId) : fileId.length < 256 := by
  obtain ⟨code, found, got, holds⟩ := click.fileId
  have size := (getParameter_length got).2.trans (zeros_length fileIdLen)
  have fits := strAt_length holds
  rw [Nat.zero_add, size] at fits
  exact fits

/-- A click passes on what `str_replace` makes of its file id. -/
theorem passes_of_replaced (click : Increase query fileId) (ready : Ready env) {member : Bytes}
    (replaced : ∀ found block, strAt found 0 = .ok fileId →
      env (.malloc .strReplace fileId.length) = some block →
      ∃ next, replaceIn found (lit "%2F") (lit "/") fileId.length block.val = .ok next ∧
        strAt next 0 = .ok member) : Passes env .cleared query member := by
  obtain ⟨bufs, found, holds, same⟩ := handleRequest_increase click
  obtain ⟨block, given⟩ := ready.malloc fileId.length
  obtain ⟨next, done, memberAt⟩ := replaced found block holds given
  have short := click.short
  rw [Passes, same, countClick,
    commands_bind_returned (strReplace_returns holds (by omega) given done),
    commands_strReplace, List.nil_append]
  simp only [ne_eq, not_true_eq_false, if_false]
  rcases ended : (increaseFilePv next).outcome env with code | reason
  · rw [commands_bind_returned ended, commands_increaseFilePv ready memberAt]
    rfl
  · rw [commands_bind_stopped ended, commands_increaseFilePv ready memberAt]

/-- Where `str_replace` has no result the click passes nothing on. -/
theorem not_passes_of_failed (click : Increase query fileId) (ready : Ready env)
    (fails : ∀ found block next, strAt found 0 = .ok fileId →
      env (.malloc .strReplace fileId.length) = some block →
      replaceIn found (lit "%2F") (lit "/") fileId.length block.val ≠ .ok next)
    (member : Bytes) : ¬ Passes env .cleared query member := by
  obtain ⟨bufs, found, holds, same⟩ := handleRequest_increase click
  obtain ⟨block, given⟩ := ready.malloc fileId.length
  have short := click.short
  obtain ⟨reason, stops⟩ := strReplace_stops holds (by omega) given fun next =>
    fails found block next holds given
  rw [Passes, same, countClick, commands_bind_stopped stops, commands_strReplace]
  exact List.cons_ne_nil _ _ ∘ Eq.symm

/-! ## The contents of the block -/

theorem take_zeros_length (content : Bytes) (size : Nat) :
    ((content ++ zeros size).take size).length = size := by
  rw [List.length_take, List.length_append, zeros_length]
  omega

/-- A block that begins with `content` and is zero behind it. -/
def leftoverBlock (content : Bytes) (size : Nat) : Block size :=
  ⟨(content ++ zeros size).take size, take_zeros_length content size⟩

/-- `str_replace` gets such a block and every other call succeeds. -/
def leftover (content : Bytes) : Env
  | .malloc .strReplace size => some (leftoverBlock content size)
  | call => allSucceed call

theorem leftover_ready (content : Bytes) : Ready (leftover content) where
  malloc _ := ⟨_, rfl⟩
  connect := rfl

theorem leftoverBlock_drop (offset : Nat) (junk : Bytes) {size : Nat}
    (fits : offset + junk.length < size) :
    (leftoverBlock (zeros offset ++ junk) size).val.drop offset =
      junk ++ 0 :: zeros (size - offset - junk.length - 1) := by
  have front : (zeros offset).length = offset := zeros_length _
  change ((zeros offset ++ junk ++ zeros size).take size).drop offset = _
  rw [List.append_assoc, List.drop_take, List.drop_left' front, List.take_append,
    List.take_of_length_le (by omega), zeros, List.take_replicate, Nat.min_eq_left (by omega)]
  exact congrArg (junk ++ ·) (zeros_eq_cons (by omega))

/-- What lies in the block at the place of the first occurrence comes out in
front of its replacement. -/
theorem passes_leftover (click : Increase query fileId) {offset : Nat} {junk : Bytes}
    (found : find (lit "%2F") fileId = some offset) (junkFree : 0 ∉ junk)
    (short : junk.length < 2) : Passes (leftover (zeros offset ++ junk)) .cleared query
      (fileId.take offset ++ junk ++ lit "/" ++
        replaceAll (lit "%2F") (lit "/") (fileId.drop (offset + 3))) := by
  have fits : offset + 3 ≤ fileId.length := find_fits found
  have behind := leftoverBlock_drop offset junk (show offset + junk.length < fileId.length by omega)
  refine passes_of_replaced click (leftover_ready _) fun memory block holds given => ?_
  cases given
  have replacement : 0 ∉ lit "/" := by decide
  have small := click.short
  obtain ⟨next, done, -, memberAt⟩ := replaceIn_of_some (List.cons_ne_nil _ _) holds (by omega)
    found replacement (leftoverBlock _ _).property behind junkFree
    (show junk.length + 1 < 3 by omega)
  exact ⟨next, done, memberAt⟩

theorem not_isolated_of_some (click : Increase query fileId) {offset : Nat}
    (found : find (lit "%2F") fileId = some offset) : ¬ Isolated query := by
  intro isolated
  obtain ⟨member, passes⟩ := isolated
  have xFree : (0 : Byte) ∉ [(120 : Byte)] := by decide
  have clean := passes_leftover click found List.not_mem_nil Nat.two_pos
  have dirty := passes_leftover click found xFree Nat.one_lt_two
  have fromClean := (passes [] .cleared _ .start (leftover_ready _)).symm.trans clean
  have fromDirty := (passes [] .cleared _ .start (leftover_ready _)).symm.trans dirty
  have same := fromClean.symm.trans fromDirty
  simp at same

theorem not_isolated_of_none (click : Increase query fileId) (nonempty : fileId ≠ [])
    (absent : find (lit "%2F") fileId = none) : ¬ Isolated query := by
  intro isolated
  obtain ⟨member, passes⟩ := isolated
  have ready := leftover_ready []
  refine not_passes_of_failed click ready ?_ member (passes [] .cleared _ .start ready)
  intro found block next holds _
  exact replaceIn_of_none nonempty holds absent block.property next

theorem isolated_nil (click : Increase query []) : Isolated query := by
  refine ⟨[], fun history bufs env served ready => ?_⟩
  rw [Passes, handleRequest_eq (serving_sized served)]
  refine passes_of_replaced click ready fun found block holds _ => ?_
  have key : lit "%2F" ≠ [] := by decide
  obtain ⟨next, done, -, memberAt⟩ := replaceIn_nil key holds block.val
  exact ⟨next, done, memberAt⟩

/-- The member of a click depends on its query string alone exactly when the
file id is empty. -/
theorem click_isolated_iff (click : Increase query fileId) : Isolated query ↔ fileId = [] := by
  constructor
  · intro isolated
    by_contra nonempty
    cases found : find (lit "%2F") fileId with
    | none => exact not_isolated_of_none click nonempty found isolated
    | some offset => exact not_isolated_of_some click found isolated
  · intro empty
    subst empty
    exact isolated_nil click

end Click

def emptyClick : Option Bytes := some (lit "cmd=increase&fileId=" ++ [0])

def slashClick : Option Bytes := some (lit "cmd=increase&fileId=a%2Fb" ++ [0])

theorem emptyClick_increase : Increase emptyClick [] where
  command := ⟨0, padTo 20 (lit "increase"), by decide, by decide⟩
  fileId := ⟨0, zeros fileIdLen, by decide +kernel, by decide⟩

theorem slashClick_increase : Increase slashClick (lit "a%2Fb") where
  command := ⟨0, padTo 20 (lit "increase"), by decide, by decide⟩
  fileId := ⟨0, padTo fileIdLen (lit "a%2Fb"), by decide +kernel, by decide⟩

/-- The empty file id and one with a slash. -/
theorem click_isolated_iff_examples : Isolated emptyClick ∧ ¬ Isolated slashClick :=
  ⟨(click_isolated_iff emptyClick_increase).mpr rfl,
    fun isolated => absurd ((click_isolated_iff slashClick_increase).mp isolated) (by decide)⟩

/-- Two contents of the block give one click two members. -/
theorem slashClick_two_members : Increase slashClick (lit "a%2Fb") ∧
    Passes (leftover []) .cleared slashClick (lit "a/b") ∧
    Passes (leftover [0, 120]) .cleared slashClick (lit "ax/b") ∧ ¬ Isolated slashClick := by
  have clean : Passes (leftover []) .cleared slashClick (lit "a/b") := by
    unfold Passes
    decide +kernel
  have dirty : Passes (leftover [0, 120]) .cleared slashClick (lit "ax/b") := by
    unfold Passes
    decide +kernel
  refine ⟨slashClick_increase, clean, dirty, ?_⟩
  intro isolated
  obtain ⟨member, passes⟩ := isolated
  have fromClean := (passes [] .cleared _ .start (leftover_ready _)).symm.trans clean
  have fromDirty := (passes [] .cleared _ .start (leftover_ready _)).symm.trans dirty
  exact absurd (fromClean.symm.trans fromDirty) (by decide)

end DistStore.DataCgi

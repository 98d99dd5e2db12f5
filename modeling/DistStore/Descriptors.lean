import DistStore.RecordedFiles
import DistStore.RequestIsolation

/-!
# The descriptors `upload` holds

Every call of a run opens or closes descriptors; their balance over a request
is what the process holds more when it is back at `FCGI_Accept`.  Neither
`fdfs_client` nor `get_url` closes the end of the pipe it reads from, so that a
request leaves one descriptor behind for each of them.
-/

set_option autoImplicit false

namespace DistStore.Descriptors

open CMemory Program Environment RedisOp Query UploadFile Fdfs WriteRedis Upload RequestIsolation
open RecordedFiles (smallRequest fileStored smallRequest_stored)

/-- The descriptors a call opens, less those it closes.  `dup2` puts a
descriptor in the place of another, and the child of a `fork` holds what its
parent holds. -/
def opened (env : Env) : Call → Int
  | .pipe caller =>
      match env (.pipe caller) with
      | true => 2
      | false => 0
  | .fopen path =>
      match env (.fopen path) with
      | true => 1
      | false => 0
  | .redisConnect caller =>
      match env (.redisConnect caller) with
      | .null => 0
      | .err => 1
      | .ok => 1
  | .close _ _ => -1
  | .fclose => -1
  | .redisFree _ => -1
  | _ => 0

/-- The temporary file of the request is created. -/
def CreatesFile (request : Request) (env : Env) : Prop :=
  ∃ len filename path, contentLen request.contentLength = .ok len ∧ 0 < len ∧
    producedName request = .ok filename ∧ strAt filename 0 = .ok path ∧ env (.fopen path) = true

/-! ## What each function leaves open -/

section Functions

variable {env : Env}

theorem uploadFile_costs (src : Bytes) (len : Int) (sFilename : Bytes) :
    (uploadFile src len sFilename).Costs env (opened env)
      fun result cost => cost = 0 ∧ takeName src sFilename = .ok result.2 ∧
        ∃ path, strAt result.2 0 = .ok path ∧ (result.1 = 0 ↔ env (.fopen path) = true) := by
  refine costs_ofC_bind fun filename named => costs_ofC_bind ?_
  rintro ⟨p, len2⟩ -
  refine costs_ofC_bind fun path pathAt => costs_ask_bind ?_
  cases opens : env (.fopen path) with
  | false =>
      have different : ¬ (false : Answer (.fopen path)) = true := Bool.false_ne_true
      refine Prog.costs_ret ⟨?_, named, path, pathAt, ?_⟩
      · simp only [opened, opens, Int.add_zero]
      · rw [opens]
        exact iff_of_false (show ¬ (-1 : Int) = 0 by decide) different
  | true =>
      refine costs_ofC_bind fun data _ => costs_ask_bind (costs_ask_bind (Prog.costs_ret ?_))
      refine ⟨?_, named, path, pathAt, iff_of_true rfl opens⟩
      simp only [opened, opens]
      decide

theorem runCommand_costs (caller : Func) (arguments : List Bytes) :
    (runCommand caller arguments).Costs env (opened env) fun _ cost => cost = -1 := by
  refine costs_ask_bind (costs_ask_bind (costs_ask_bind ?_))
  cases env (.execlp caller arguments) with
  | true => exact Prog.costs_stop _
  | false => exact Prog.costs_ret rfl

theorem readCommand_costs (caller : Func) (buffer : Bytes) :
    (readCommand caller buffer).Costs env (opened env) fun _ cost => cost = -1 :=
  costs_ask_bind (costs_ask_bind (costs_ask_bind (costs_ofC fun _ _ => rfl)))

/-- The child has closed the end it reads from, every other process the end it
writes to. -/
theorem fdfsClient_costs (sFilename sFileId : Bytes) :
    (fdfsClient sFilename sFileId).Costs env (opened env) fun _ cost => cost = 1 := by
  have reads : (readFileId sFileId).Costs env (opened env) fun _ cost => cost = -1 := by
    refine (readCommand_costs .fdfsClient sFileId).bind ?_
    rintro filled _ rfl
    refine costs_ask_bind (costs_ofC_bind ?_)
    rintro ⟨code, fileId⟩ -
    exact costs_ask_bind (Prog.costs_ret rfl)
  apply costs_ask_bind
  cases piped : env (.pipe .fdfsClient) with
  | false => exact Prog.costs_stop _
  | true =>
      have pipe : opened env (.pipe .fdfsClient) = 2 := by simp only [opened, piped]
      rw [pipe]
      apply costs_ask_bind
      cases env (.fork .fdfsClient) with
      | failed =>
          refine reads.weaken ?_
          rintro _ _ rfl
          rfl
      | parent =>
          refine reads.weaken ?_
          rintro _ _ rfl
          rfl
      | child =>
          refine costs_ofC_bind fun name _ => (runCommand_costs .fdfsClient _).bind ?_
          rintro _ _ rfl
          exact costs_ask_bind (Prog.costs_ret rfl)

/-- Where `fork` fails both ends of the pipe stay open. -/
theorem getUrl_costs (sFileId sUrl : Bytes) :
    (getUrl sFileId sUrl).Costs env (opened env) fun _ cost => 0 ≤ cost := by
  apply costs_ask_bind
  cases piped : env (.pipe .getUrl) with
  | false =>
      have noPipe : opened env (.pipe .getUrl) = 0 := by simp only [opened, piped]
      rw [noPipe]
      exact costs_ask_bind (Prog.costs_ret le_rfl)
  | true =>
      have pipe : opened env (.pipe .getUrl) = 2 := by simp only [opened, piped]
      rw [pipe]
      apply costs_ask_bind
      cases env (.fork .getUrl) with
      | failed => exact costs_ask_bind (Prog.costs_ret (by simp [opened]))
      | child =>
          refine costs_ofC_bind fun fileId _ => (runCommand_costs .getUrl _).bind ?_
          rintro _ _ rfl
          exact costs_ask_bind (Prog.costs_ret (by simp [opened]))
      | parent =>
          refine (readCommand_costs .getUrl _).bind ?_
          rintro fdfsBuf _ rfl
          refine costs_ask_bind (costs_ofC_bind fun ip _ => costs_ofC_bind fun url _ => ?_)
          exact costs_ask_bind (Prog.costs_ret (by simp [opened]))

theorem ropListPush_costs (key value : Bytes) :
    (ropListPush key value).Costs env (opened env) fun _ cost => cost = 0 := by
  refine costs_ofC_bind fun text _ => costs_ask_bind (costs_ofC_bind fun reply _ => ?_)
  cases reply <;> exact Prog.costs_ret rfl

theorem ropZsetIncrement_costs (key member : Bytes) :
    (ropZsetIncrement key member).Costs env (opened env) fun _ cost => cost = 0 := by
  refine costs_ofC_bind fun text _ => costs_ask_bind ?_
  refine costs_ofC_bind fun reply _ => costs_ofC_bind fun str _ => ?_
  split
  · exact Prog.costs_ret rfl
  · exact Prog.costs_ret rfl

/-- The connection is closed on every path that returns. -/
theorem writeRedis_costs (fileId url filename usr : Bytes) :
    (writeRedis fileId url filename usr).Costs env (opened env) fun _ cost => cost = 0 := by
  have connects : (ropConnectdbNopwd .writeRedis).Costs env (opened env)
      fun connected cost => connected = true → cost = 1 := by
    apply costs_ask_bind
    cases connection : env (.redisConnect .writeRedis) with
    | null => exact Prog.costs_ret nofun
    | err => exact costs_ask_bind (Prog.costs_ret nofun)
    | ok =>
        refine Prog.costs_ret fun _ => ?_
        simp only [opened, connection]
        rfl
  refine connects.bind ?_
  rintro (_ | _) early holds
  · exact Prog.costs_stop _
  · cases holds rfl
    apply costs_ask_bind
    cases env (.malloc .writeRedis valuesIdSize) with
    | none => exact costs_ask_bind (Prog.costs_ret rfl)
    | some block =>
        refine costs_ofC_bind fun cleared _ => costs_ofC_bind fun front _ => ?_
        refine costs_ask_bind (costs_ask_bind ?_)
        refine costs_ofC_bind fun createTime _ => costs_ofC_bind fun record _ => ?_
        refine (ropListPush_costs _ _).bind ?_
        rintro _ _ rfl
        refine (ropZsetIncrement_costs _ _).bind ?_
        rintro _ _ rfl
        exact costs_ask_bind (Prog.costs_ret rfl)

theorem recordFile_costs (bufs : Bufs) :
    (recordFile bufs).Costs env (opened env) fun _ cost => 0 ≤ cost := by
  refine costs_ofC_bind fun name _ => costs_ask_bind ?_
  refine (getUrl_costs _ _).bind ?_
  rintro ⟨code, url⟩ early nonnegative
  refine costs_ofC_bind fun usr _ => (writeRedis_costs _ _ _ _).bind ?_
  rintro _ _ rfl
  refine costs_ofC fun _ _ => ?_
  simp only [opened]
  omega

/-- A file that was created has been given to `fdfs_client`. -/
theorem storeFile_costs (bufs : Bufs) (len : Int) (buf : Bytes) :
    (storeFile bufs len buf).Costs env (opened env) fun _ cost => 0 ≤ cost ∧
      ∃ filename path, takeName buf bufs.filename = .ok filename ∧ strAt filename 0 = .ok path ∧
        (cost = 0 ↔ env (.fopen path) = false) := by
  refine (uploadFile_costs buf len bufs.filename).bind ?_
  rintro ⟨uploaded, filename⟩ _ ⟨rfl, named, path, pathAt, created⟩
  simp only [] at named pathAt created ⊢
  split
  · rename_i notUploaded
    have notCreated : env (.fopen path) = false := by
      cases opens : env (.fopen path) with
      | false => rfl
      | true => exact absurd (created.mpr opens) notUploaded
    exact costs_ofC fun _ _ => ⟨le_rfl, filename, path, named, pathAt, iff_of_true rfl notCreated⟩
  · rename_i uploadedZero
    have isCreated := created.mp (not_not.mp uploadedZero)
    have notFalse : ¬ env (.fopen path) = false := by
      rw [isCreated]
      exact show ¬ true = false by decide
    refine (fdfsClient_costs filename bufs.fileId).bind ?_
    rintro ⟨delivered, fileId⟩ _ rfl
    simp only []
    split
    · exact costs_ofC fun _ _ =>
        ⟨by decide, filename, path, named, pathAt, iff_of_false (by decide) notFalse⟩
    · refine (recordFile_costs _).weaken fun next later nonnegative => ?_
      exact ⟨by omega, filename, path, named, pathAt, iff_of_false (by omega) notFalse⟩

/-- A request that comes back to `FCGI_Accept` leaves the descriptors as they
were exactly when it created no file. -/
theorem handleRequest_costs (request : Request) :
    (handleRequest .cleared request).Costs env (opened env) fun next cost =>
      ∀ bufs, next = .again bufs → 0 ≤ cost ∧ (cost = 0 ↔ ¬ CreatesFile request env) := by
  apply costs_ofC_bind
  rintro ⟨got, usr⟩ gotUsr
  obtain ⟨rfl, -⟩ := getParameter_length gotUsr
  simp only []
  rw [if_neg (by decide)]
  refine costs_ofC_bind fun len parsed => ?_
  split
  · rename_i noBody
    refine costs_ofC fun next _ bufs _ => ⟨le_rfl, iff_of_true rfl ?_⟩
    rintro ⟨len', -, -, parsed', positive, -⟩
    cases parsed.symm.trans parsed'
    omega
  · rename_i positive
    have noDescriptor : (getBuf len).Costs env (opened env) fun _ cost => cost = 0 := by
      refine costs_ofC_bind fun size _ => costs_ask_bind ?_
      cases env (.malloc .getBuf (toSize size)) with
      | none => exact Prog.costs_ret rfl
      | some block => exact costs_ofC_bind fun buf _ => Prog.costs_ret rfl
    have cleared : (getBuf len).Satisfies env (fun _ => True)
        fun result => ∀ buf, result = some buf → buf = zeros (toSize (len + 1)) :=
      getBuf_satisfies fun _ => trivial
    refine (noDescriptor.and_satisfies cleared).bind ?_
    rintro (_ | buf) _ ⟨rfl, fresh⟩
    · exact Prog.costs_ret nofun
    · cases fresh buf rfl
      refine costs_ofC_bind fun body received => ?_
      refine (storeFile_costs _ len body).weaken ?_
      rintro next cost ⟨nonnegative, filename, path, named, pathAt, balanced⟩ bufs -
      have produced : producedName request = .ok filename := by
        simp only [producedName, parsed, received, ok_bind]
        exact named
      refine ⟨by omega, ?_⟩
      rw [Int.zero_add, balanced]
      constructor
      · rintro notCreated ⟨len', filename', path', -, -, produced', pathAt', created⟩
        cases produced.symm.trans produced'
        cases pathAt.symm.trans pathAt'
        rw [notCreated] at created
        exact Bool.false_ne_true created
      · intro notCreates
        cases created : env (.fopen path) with
        | false => rfl
        | true => exact absurd ⟨len, filename, path, parsed, by omega, produced, pathAt, created⟩ notCreates

end Functions

/-! ## Runs of the loop -/

/-- The loop of `main` is back at `FCGI_Accept` after these requests, each
answered by its own environment.  It held `initial` descriptors when it was
there first and holds the last argument now. -/
inductive Held (initial : Int) : List (Request × Env) → Bufs → Int → Prop where
  | start : Held initial [] .cleared initial
  | again (history : List (Request × Env)) (bufs next : Bufs) (request : Request) (env : Env)
      (held : Int) (serving : Held initial history bufs held)
      (returned : (handleRequest bufs request).outcome env = .returned (.again next)) :
      Held initial (history ++ [(request, env)]) next
        (held + (handleRequest bufs request).cost env (opened env))

section Runs

variable {initial held : Int} {history : List (Request × Env)} {bufs : Bufs}

theorem serving_of_held (serving : Held initial history bufs held) : Serving history bufs := by
  induction serving with
  | start => exact .start
  | again history bufs next request env held serving returned inductionHypothesis =>
      exact .again history bufs next request env inductionHypothesis returned

theorem held_balance (serving : Held initial history bufs held) :
    initial ≤ held ∧ (held = initial ↔ ∀ entry ∈ history, ¬ CreatesFile entry.1 entry.2) := by
  induction serving with
  | start => exact ⟨le_rfl, iff_of_true rfl nofun⟩
  | again history bufs next request env held serving returned inductionHypothesis =>
      obtain ⟨notLess, balanced⟩ := inductionHypothesis
      cases serving_cleared (serving_of_held serving)
      obtain ⟨nonnegative, kept⟩ := handleRequest_costs request _ returned next rfl
      refine ⟨by omega, ?_⟩
      rw [List.forall_mem_append, List.forall_mem_singleton, ← balanced, ← kept]
      constructor
      · intro same
        omega
      · rintro ⟨early, late⟩
        omega

/-- At every return to `FCGI_Accept` the descriptors are those of the first one
as long as no request has created its temporary file. -/
theorem descriptors_balanced_iff (serving : Held initial history bufs held) :
    held = initial ↔ ∀ entry ∈ history, ¬ CreatesFile entry.1 entry.2 :=
  (held_balance serving).2

end Runs

/-- The file cannot be created. -/
def noFile : Env
  | .fopen _ => false
  | call => allSucceed call

theorem smallRequest_noFile :
    (handleRequest .cleared smallRequest).outcome noFile = .returned (.again .cleared) := by
  decide +kernel

theorem descriptors_balanced_iff_no_file :
    0 + (handleRequest .cleared smallRequest).cost noFile (opened noFile) = 0 ↔
      ∀ entry ∈ [(smallRequest, noFile)], ¬ CreatesFile entry.1 entry.2 :=
  descriptors_balanced_iff (.again [] .cleared .cleared smallRequest noFile 0 .start
    smallRequest_noFile)

theorem smallRequest_cost :
    (handleRequest .cleared smallRequest).cost fileStored (opened fileStored) = 2 := by
  decide +kernel

/-- A file that is stored leaves an end of each pipe open. -/
theorem stored_not_balanced :
    ¬ ∀ history bufs held, Held 0 history bufs held → held = 0 := by
  intro balanced
  have same := balanced _ _ _
    (.again [] .cleared .cleared smallRequest fileStored 0 .start smallRequest_stored)
  rw [smallRequest_cost] at same
  cases same

end DistStore.Descriptors

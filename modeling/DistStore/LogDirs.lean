import DistStore.Lib.CNumber
import DistStore.Lib.Pool
import DistStore.Lib.Words

/-!
# The directories of the log files

Every message makes the directory of its log file first: `make_path` tests the
levels of the path from the top and creates those behind the first missing one,
until a `mkdir` fails.  Several processes do so in one working directory.
-/

set_option autoImplicit false

namespace DistStore.LogDirs

open CMemory Words Program

/-! ## The file system -/

/-- The names on a path from the working directory; `".."` counts as a name. -/
def resolve (path : Bytes) : List Bytes := (words 47 path).filter (· ≠ lit ".")

theorem resolve_append_cons (front rest : Bytes) :
    resolve (front ++ 47 :: rest) = resolve front ++ resolve rest := by
  unfold resolve
  rw [words_append_cons, List.filter_append]

/-- The directories there are, each with its parents. -/
structure Tree where
  dirs : List Bytes → Prop
  closed : ∀ path name, dirs (path ++ [name]) → dirs path

namespace Tree

/-- The directory above, if it is not above the working directory. -/
def HasParent (tree : Tree) (path : List Bytes) : Prop :=
  ∀ parent name, path = parent ++ [name] → tree.dirs parent

theorem make_closed {tree : Tree} {path : List Bytes} (parent : tree.HasParent path)
    (other : List Bytes) (name : Bytes)
    (there : tree.dirs (other ++ [name]) ∨ other ++ [name] = path) :
    tree.dirs other ∨ other = path := by
  rcases there with before | new
  · exact Or.inl (tree.closed other name before)
  · exact Or.inl (parent other name new.symm)

theorem hasParent_of_dropLast {tree : Tree} {path : List Bytes} (above : tree.dirs path.dropLast) :
    tree.HasParent path := by
  intro parent name shape
  rw [shape, List.dropLast_concat] at above
  exact above

def make (tree : Tree) (path : List Bytes) (parent : tree.HasParent path) : Tree :=
  ⟨fun other => tree.dirs other ∨ other = path, make_closed parent⟩

end Tree

/-- The five directories of a path, from the top. -/
inductive Level where
  | top
  | second
  | third
  | year
  | month
  deriving DecidableEq, Repr

inductive Call where
  | access (dir : Bytes)
  | mkdir (level : Level) (dir : Bytes)

/-- Whether the call succeeds. -/
def interface : Interface := ⟨Call, fun _ => Bool⟩

abbrev Code := Prog interface Fault

/-- `mkdir` fails only for a directory that exists or has no parent. -/
inductive Serves : Tree → (call : Call) → Bool → Tree → Prop where
  | there (tree : Tree) (dir : Bytes) (exists_ : tree.dirs (resolve dir)) :
      Serves tree (.access dir) true tree
  | missing (tree : Tree) (dir : Bytes) (absent : ¬ tree.dirs (resolve dir)) :
      Serves tree (.access dir) false tree
  | made (tree : Tree) (level : Level) (dir : Bytes) (absent : ¬ tree.dirs (resolve dir))
      (parent : tree.HasParent (resolve dir)) :
      Serves tree (.mkdir level dir) true (tree.make (resolve dir) parent)
  | failed (tree : Tree) (level : Level) (dir : Bytes)
      (refused : tree.dirs (resolve dir) ∨ ¬ tree.HasParent (resolve dir)) :
      Serves tree (.mkdir level dir) false tree

/-! ## `make_path` -/

/-- A number printed with leading zeros. -/
def percent0 (width value : Nat) : Bytes :=
  List.replicate (width - (decimalNat value).length) 48 ++ decimalNat value

/-- A message: its module and process name and the local time. -/
structure Job where
  moduleName : Bytes
  procName : Bytes
  year : Nat
  mon : Nat
  mday : Nat

namespace Job

def topDir : Bytes := lit "."

def secondDir : Bytes := lit "./logs"

variable (job : Job)

def thirdDir : Bytes := secondDir ++ 47 :: job.moduleName

def yDir : Bytes := job.thirdDir ++ 47 :: percent0 4 job.year ++ lit "/"

def mDir : Bytes := job.yDir ++ 47 :: percent0 2 job.mon ++ lit "/"

def dDir : Bytes := job.mDir ++ 47 :: percent0 2 job.mday ++ lit "/"

def pathDir : Bytes :=
  lit "./logs/" ++ job.moduleName ++ lit "/" ++ percent0 4 job.year ++ lit "/" ++
    percent0 2 job.mon ++ lit "/"

def pathFile : Bytes := job.procName ++ lit "-" ++ percent0 2 job.mday ++ lit ".log"

/-- `snprintf` into the 1024 bytes of `path`. -/
def path : Bytes := (job.pathDir ++ job.pathFile).take 1023

def levels : List (Level × Bytes) :=
  [(.top, topDir), (.second, secondDir), (.third, job.thirdDir), (.year, job.yDir),
    (.month, job.mDir)]

end Job

/-- `sprintf` into an array of 1024 bytes. -/
def sprintf (text : Bytes) : Code Bytes :=
  if text.length < 1024 then .ret text else .stop .writeOutside

/-- One of the five chains: each `mkdir` is made only when the one before it
succeeds. -/
def createChain (path : Bytes) : List (Level × Bytes) → Code Bytes
  | [] => .ret path
  | (level, dir) :: later =>
      .call (.mkdir level dir) fun (created : Bool) => if created then createChain path later else .ret path

/-- The tests of the levels; the first missing one starts its chain. -/
def testLevels (path : Bytes) : List (Level × Bytes) → Code Bytes
  | [] => .ret path
  | (level, dir) :: later =>
      .call (.access dir) fun (there : Bool) =>
        if there then testLevels path later else createChain path ((level, dir) :: later)

/-- `make_path`, with the path it leaves in `path`. -/
def makePath (job : Job) : Code Bytes := do
  let third ← sprintf job.thirdDir
  let y ← sprintf job.yDir
  let m ← sprintf job.mDir
  let _ ← sprintf job.dDir
  testLevels job.path
    [(.top, Job.topDir), (.second, Job.secondDir), (.third, third), (.year, y), (.month, m)]

/-! ## Paths and texts -/

theorem percent0_isWord (width value : Nat) : IsWord 47 (percent0 width value) := by
  unfold percent0
  refine ⟨List.append_ne_nil_of_right_ne_nil _ (decimalNat_ne_nil value), ?_⟩
  intro slash
  rcases List.mem_append.mp slash with zero | digit
  · exact absurd (List.eq_of_mem_replicate zero) (by decide)
  · exact absurd (decimalNat_digits value 47 digit) (by decide)

theorem percent0_ne_dot (width value : Nat) : percent0 width value ≠ lit "." := by
  intro same
  obtain ⟨byte, member⟩ := List.exists_mem_of_ne_nil _ (decimalNat_ne_nil value)
  have inText : byte ∈ lit "." := same ▸ List.mem_append_right _ member
  have isDot : byte = 46 := List.mem_singleton.mp inText
  exact absurd (isDot ▸ decimalNat_digits value byte member) (by decide)

theorem resolve_percent0 (width value : Nat) :
    resolve (percent0 width value) = [percent0 width value] := by
  unfold resolve
  rw [words_of_isWord (percent0_isWord width value)]
  exact List.filter_cons_of_pos (decide_eq_true (percent0_ne_dot width value))

theorem resolve_nil : resolve [] = [] := by decide

theorem lit_slash : lit "/" = [47] := by decide

/-- A number with a slash on both sides. -/
theorem resolve_number (front : Bytes) (width value : Nat) :
    resolve (front ++ 47 :: percent0 width value ++ lit "/") =
      resolve front ++ [percent0 width value] := by
  rw [lit_slash, resolve_append_cons, resolve_append_cons, resolve_percent0, resolve_nil,
    List.append_nil]

namespace Job

variable (job : Job)

/-- The directory of the log file. -/
def logDir : List Bytes := resolve job.pathDir

theorem resolve_thirdDir : resolve job.thirdDir = lit "logs" :: resolve job.moduleName := by
  have second : resolve secondDir = [lit "logs"] := by decide
  unfold thirdDir
  rw [resolve_append_cons, second]
  rfl

theorem resolve_yDir : resolve job.yDir = resolve job.thirdDir ++ [percent0 4 job.year] :=
  resolve_number _ _ _

theorem resolve_mDir : resolve job.mDir = resolve job.yDir ++ [percent0 2 job.mon] :=
  resolve_number _ _ _

/-- The doubled slashes of `m_dir` make no difference. -/
theorem resolve_mDir_eq_logDir : resolve job.mDir = job.logDir := by
  have shape : job.pathDir =
      (job.thirdDir ++ 47 :: percent0 4 job.year) ++ 47 :: percent0 2 job.mon ++ lit "/" := by
    have front : lit "./logs/" = secondDir ++ [47] := by decide
    simp only [pathDir, thirdDir, front, lit_slash, List.append_assoc, List.cons_append,
      List.nil_append]
  unfold logDir
  rw [shape, resolve_number, resolve_append_cons, resolve_percent0, resolve_mDir, resolve_yDir]

theorem logDir_length : 3 ≤ job.logDir.length := by
  rw [← resolve_mDir_eq_logDir, resolve_mDir, resolve_yDir, resolve_thirdDir]
  simp only [List.length_append, List.length_cons, List.length_nil]
  omega

/-- Where the path is not cut off, its directory is that one. -/
theorem resolve_path (whole : (job.pathDir ++ job.pathFile).length ≤ 1023)
    (noSlash : 47 ∉ job.procName) : resolve job.path = job.logDir ++ [job.pathFile] := by
  have shape : job.pathDir = (lit "./logs/" ++ job.moduleName ++ lit "/" ++ percent0 4 job.year ++
      lit "/" ++ percent0 2 job.mon) ++ 47 :: [] := by
    unfold pathDir
    rw [← lit_slash]
  have dash : (45 : Byte) ∈ job.pathFile := by
    have inDash : (45 : Byte) ∈ lit "-" := by decide
    exact List.mem_append_left _ (List.mem_append_left _ (List.mem_append_right _ inDash))
  have word : IsWord 47 job.pathFile := by
    refine ⟨List.ne_nil_of_mem dash, ?_⟩
    have inDash : (47 : Byte) ∉ lit "-" := by decide
    have inLog : (47 : Byte) ∉ lit ".log" := by decide
    simp only [pathFile, List.mem_append, not_or]
    exact ⟨⟨⟨noSlash, inDash⟩, (percent0_isWord 2 job.mday).whole⟩, inLog⟩
  have notDot : job.pathFile ≠ lit "." := by
    intro same
    rw [same] at dash
    exact absurd dash (by decide)
  have file : resolve job.pathFile = [job.pathFile] := by
    unfold resolve
    rw [words_of_isWord word]
    exact List.filter_cons_of_pos (decide_eq_true notDot)
  unfold path logDir
  rw [List.take_of_length_le whole, shape, resolve_append_cons, resolve_nil, List.append_nil,
    List.append_assoc, List.singleton_append, resolve_append_cons, file]

end Job

theorem sprintf_fits {text : Bytes} (short : text.length < 1024) : sprintf text = .ret text :=
  if_pos short

theorem makePath_eq {job : Job} (short : job.dDir.length < 1024) :
    makePath job = testLevels job.path job.levels := by
  have m : job.mDir.length < 1024 := by
    unfold Job.dDir at short
    rw [List.append_assoc, List.length_append] at short
    omega
  have y : job.yDir.length < 1024 := by
    unfold Job.mDir at m
    rw [List.append_assoc, List.length_append] at m
    omega
  have third : job.thirdDir.length < 1024 := by
    unfold Job.yDir at y
    rw [List.append_assoc, List.length_append] at y
    omega
  unfold makePath
  rw [sprintf_fits third, sprintf_fits y, sprintf_fits m, sprintf_fits short]
  rfl

/-! ## What a process relies on -/

/-- No `mkdir` above the last level finds its directory there, or no parent. -/
def Unhindered (tree : Tree) (call : Call) : Prop :=
  ∀ level dir, call = .mkdir level dir → level ≠ .month →
    ¬ tree.dirs (resolve dir) ∧ tree.HasParent (resolve dir)

def ServesUnhindered (tree : Tree) (call : Call) (answer : Bool) (after : Tree) : Prop :=
  Serves tree call answer after ∧ Unhindered tree call

/-- The levels in front of the next call exist, or an array was too small. -/
def Stage (tree : Tree) (job : Job) (code : Code Bytes) : Prop :=
  (∃ done later, job.levels = done ++ later ∧ (∀ level ∈ done, tree.dirs (resolve level.2)) ∧
    (code = testLevels job.path later ∨ code = createChain job.path later)) ∨
  ∃ fault, code = .stop fault

theorem dirs_grow {tree after : Tree} {call : Call} {answer : Bool}
    (served : Serves tree call answer after) {path : List Bytes} (there : tree.dirs path) :
    after.dirs path := by
  cases served with
  | there dir exists_ => exact there
  | missing dir absent => exact there
  | made level dir absent parent => exact Or.inl there
  | failed level dir refused => exact there

theorem stage_sprintf {tree : Tree} {job : Job} {text : Bytes} {rest : Bytes → Code Bytes}
    (stage : Stage tree job (rest text)) : Stage tree job (sprintf text >>= rest) := by
  unfold sprintf
  split
  · exact stage
  · exact Or.inr ⟨_, rfl⟩

theorem stage_start (tree : Tree) (job : Job) : Stage tree job (makePath job) :=
  stage_sprintf (stage_sprintf (stage_sprintf (stage_sprintf
    (Or.inl ⟨[], job.levels, rfl, nofun, Or.inl rfl⟩))))

theorem stage_grow {tree after : Tree} {job : Job} {code : Code Bytes}
    (grown : ∀ path, tree.dirs path → after.dirs path) (stage : Stage tree job code) :
    Stage after job code := by
  rcases stage with ⟨done, later, split, there, isCode⟩ | stopped
  · exact Or.inl ⟨done, later, split, fun level member => grown _ (there level member), isCode⟩
  · exact Or.inr stopped

/-- The last level has only the four others in front of it. -/
theorem month_last {job : Job} {done later : List (Level × Bytes)} {dir : Bytes}
    (split : job.levels = done ++ (.month, dir) :: later) :
    dir = job.mDir ∧ later = [] ∧ (.year, job.yDir) ∈ done := by
  obtain _ | ⟨top, _ | ⟨second, _ | ⟨third, _ | ⟨year, done⟩⟩⟩⟩ := done <;>
    simp only [Job.levels, List.nil_append, List.cons_append, List.cons.injEq, Prod.mk.injEq,
      reduceCtorEq, false_and, and_false] at split
  obtain ⟨-, -, -, isYear, last⟩ := split
  obtain ⟨rfl, same⟩ | ⟨-, absent⟩ := List.singleton_eq_append_iff.mp last
  · cases same
    refine ⟨rfl, rfl, ?_⟩
    rw [isYear]
    simp
  · cases absent

/-- One more level is there. -/
theorem there_append {tree : Tree} {done : List (Level × Bytes)} {level : Level} {dir : Bytes}
    (there : ∀ other ∈ done, tree.dirs (resolve other.2)) (here : tree.dirs (resolve dir)) :
    ∀ other ∈ done ++ [(level, dir)], tree.dirs (resolve other.2) := by
  intro other member
  rcases List.mem_append.mp member with old | new
  · exact there other old
  · rw [List.mem_singleton.mp new]
    exact here

theorem stage_move {tree after : Tree} {job : Job} {request : Call}
    {next : Bool → Code Bytes} {answer : Bool} (served : ServesUnhindered tree request answer after)
    (stage : Stage tree job (.call request next)) : Stage after job (next answer) := by
  obtain ⟨served, unhindered⟩ := served
  have grown : ∀ path, tree.dirs path → after.dirs path := fun _ => dirs_grow served
  rcases stage with ⟨done, later, split, there, isTest | isChain⟩ | ⟨fault, isStop⟩
  · cases later with
    | nil => cases isTest
    | cons level later =>
        obtain ⟨level, dir⟩ := level
        cases isTest
        cases served with
        | there _ exists_ =>
            refine Or.inl ⟨done ++ [(level, dir)], later, ?_, there_append there exists_, Or.inl rfl⟩
            rw [split, List.append_assoc, List.singleton_append]
        | missing _ absent => exact Or.inl ⟨done, (level, dir) :: later, split, there, Or.inr rfl⟩
  · cases later with
    | nil => cases isChain
    | cons level later =>
        obtain ⟨level, dir⟩ := level
        cases isChain
        cases served with
        | made _ _ absent parent =>
            refine Or.inl ⟨done ++ [(level, dir)], later, ?_, ?_, Or.inr rfl⟩
            · rw [split, List.append_assoc, List.singleton_append]
            · exact there_append (fun level member => grown _ (there level member)) (Or.inr rfl)
        | failed _ _ refused =>
            have isMonth : level = .month := by
              by_contra above
              obtain ⟨absent, parent⟩ := unhindered level dir rfl above
              exact refused.elim absent fun orphan => orphan parent
            subst isMonth
            obtain ⟨rfl, rfl, year⟩ := month_last split
            have parent : tree.HasParent (resolve job.mDir) := by
              intro parent name shape
              rw [Job.resolve_mDir] at shape
              rw [← (List.append_inj' shape rfl).1]
              exact there _ year
            have here : tree.dirs (resolve job.mDir) := refused.resolve_right (not_not.mpr parent)
            refine Or.inl ⟨job.levels, [], (List.append_nil _).symm, ?_, Or.inl rfl⟩
            rw [split]
            exact there_append there here
  · cases isStop

/-! ## Runs -/

/-- Every process that has returned has its log directory. -/
def LogsReady (jobs : List Job) (pool : Pool Tree interface Fault Bytes) : Prop :=
  List.Forall₂ (fun job thread => ∀ path, thread.rest = .ret path → pool.store.dirs job.logDir)
    jobs pool.threads

theorem stage_returned {tree : Tree} {job : Job} {path : Bytes}
    (stage : Stage tree job (.ret path)) : tree.dirs job.logDir := by
  rcases stage with ⟨done, later, split, there, isCode⟩ | ⟨fault, isStop⟩
  · have none_ : later = [] := by
      cases later with
      | nil => rfl
      | cons level later => rcases isCode with isTest | isChain <;> contradiction
    rw [none_, List.append_nil] at split
    rw [← Job.resolve_mDir_eq_logDir]
    have last : (.month, job.mDir) ∈ done := by
      rw [← split]
      simp [Job.levels]
    exact there _ last
  · cases isStop

/-- In every interleaving in which no `mkdir` above the last level is hindered. -/
theorem logsReady_of_reachable {tree : Tree} {jobs : List Job}
    {pool : Pool Tree interface Fault Bytes}
    (reached : Pool.Reachable ServesUnhindered (.start tree (jobs.map makePath)) pool) :
    LogsReady jobs pool := by
  have initially : List.Forall₂ (Stage tree) jobs (jobs.map makePath) := by
    rw [List.forall₂_map_right_iff]
    exact List.forall₂_same.mpr fun job _ => stage_start tree job
  have stages := Pool.threads_of_reachable reached initially
    (fun _ _ _ _ _ _ served stage => stage_grow (fun _ => dirs_grow served.1) stage)
    (fun _ _ _ _ _ _ served stage => stage_move served stage)
  refine stages.imp ?_
  intro job thread stage path returned
  rw [returned] at stage
  exact stage_returned stage

theorem upTo_closed (depth : Nat) (path : List Bytes) (name : Bytes)
    (there : (path ++ [name]).length ≤ depth) : path.length ≤ depth := by
  rw [List.length_append] at there
  omega

/-- All directories down to a depth; none but the working directory for `0`. -/
def upTo (depth : Nat) : Tree := ⟨fun path => path.length ≤ depth, upTo_closed depth⟩

def dataCgiJob : Job := ⟨lit "data_cgi", lit "data_test", 2016, 9, 8⟩

def databaseJob : Job := ⟨lit "database", lit "redis", 2016, 9, 8⟩

theorem makePath_dataCgiJob : makePath dataCgiJob = testLevels dataCgiJob.path dataCgiJob.levels :=
  makePath_eq (by decide +kernel)

theorem makePath_databaseJob :
    makePath databaseJob = testLevels databaseJob.path databaseJob.levels :=
  makePath_eq (by decide +kernel)

/-- The first message of a month. -/
theorem logsReady_databaseJob :
    ∃ pool, LogsReady [databaseJob] pool ∧
      ∃ thread ∈ pool.threads, thread.rest = .ret databaseJob.path := by
  have there : (resolve Job.topDir).length ≤ 3 ∧ (resolve Job.secondDir).length ≤ 3 ∧
      (resolve databaseJob.thirdDir).length ≤ 3 ∧ (resolve databaseJob.yDir).length ≤ 3 := by
    decide +kernel
  have absent : ¬ (resolve databaseJob.mDir).length ≤ 3 := by decide +kernel
  have above : (resolve databaseJob.mDir).dropLast.length ≤ 3 := by decide +kernel
  have parent : (upTo 3).HasParent (resolve databaseJob.mDir) := Tree.hasParent_of_dropLast above
  have tests : ∀ dir, Unhindered (upTo 3) (.access dir) := fun dir level other same => nomatch same
  have lastLevel : Unhindered (upTo 3) (.mkdir .month databaseJob.mDir) := by
    intro level dir same notLast
    cases same
    exact absurd rfl notLast
  have begins : Pool.start (upTo 3) ([databaseJob].map makePath) =
      ⟨upTo 3, [⟨[], testLevels databaseJob.path databaseJob.levels⟩]⟩ := by
    simp only [Pool.start, List.map_cons, List.map_nil, makePath_databaseJob]
  have begun : Pool.Reachable ServesUnhindered
      (.start (upTo 3) ([databaseJob].map makePath)) _ := .refl
  nth_rewrite 2 [begins] at begun
  have second := Pool.reachable_call [] [] begun ⟨.there _ _ there.1, tests _⟩
  have third := Pool.reachable_call [] [] second ⟨.there _ _ there.2.1, tests _⟩
  have year := Pool.reachable_call [] [] third ⟨.there _ _ there.2.2.1, tests _⟩
  have month := Pool.reachable_call [] [] year ⟨.there _ _ there.2.2.2, tests _⟩
  have missed := Pool.reachable_call [] [] month ⟨.missing _ _ absent, tests _⟩
  have created := Pool.reachable_call [] [] missed ⟨.made _ _ _ absent parent, lastLevel⟩
  exact ⟨_, logsReady_of_reachable created, ⟨_, List.mem_cons_self, rfl⟩⟩

section TwoProcesses

variable {start : Pool Tree interface Fault Bytes} {store store' : Tree}
  {other : Thread interface Fault Bytes} {made : List Call} {request : Call}
  {next : Bool → Code Bytes} {answer : Bool}

theorem first_moves
    (reached : Pool.Reachable Serves start ⟨store, [⟨made, .call request next⟩, other]⟩)
    (served : Serves store request answer store') :
    Pool.Reachable Serves start ⟨store', [⟨made ++ [request], next answer⟩, other]⟩ :=
  Pool.reachable_call [] [other] reached served

theorem second_moves
    (reached : Pool.Reachable Serves start ⟨store, [other, ⟨made, .call request next⟩]⟩)
    (served : Serves store request answer store') :
    Pool.Reachable Serves start ⟨store', [other, ⟨made ++ [request], next answer⟩]⟩ :=
  Pool.reachable_call [other] [] reached served

end TwoProcesses

/-- Both processes miss `./logs`; the second one finds it there when it creates
it and gives up. -/
theorem not_logsReady :
    ∃ pool, Pool.Reachable Serves (.start (upTo 0) ([dataCgiJob, databaseJob].map makePath)) pool ∧
      ¬ LogsReady [dataCgiJob, databaseJob] pool := by
  have topIs : (resolve Job.topDir).length ≤ 0 := by decide
  have secondIs : (resolve Job.secondDir).length = 1 := by decide
  have absent : ¬ (resolve Job.secondDir).length ≤ 0 := by decide
  have above : (resolve Job.secondDir).dropLast.length ≤ 0 := by decide
  have parent : (upTo 0).HasParent (resolve Job.secondDir) := Tree.hasParent_of_dropLast above
  have top : Serves (upTo 0) (.access Job.topDir) true (upTo 0) := .there _ _ topIs
  have missing : Serves (upTo 0) (.access Job.secondDir) false (upTo 0) := .missing _ _ absent
  have created := Serves.made (upTo 0) .second Job.secondDir absent parent
  have refused := Serves.failed ((upTo 0).make (resolve Job.secondDir) parent) .second Job.secondDir
    (Or.inl (Or.inr rfl))
  have begins : Pool.start (upTo 0) ([dataCgiJob, databaseJob].map makePath) =
      ⟨(upTo 0), [⟨[], testLevels dataCgiJob.path dataCgiJob.levels⟩,
        ⟨[], testLevels databaseJob.path databaseJob.levels⟩]⟩ := by
    simp only [Pool.start, List.map_cons, List.map_nil, makePath_dataCgiJob, makePath_databaseJob]
  have begun : Pool.Reachable Serves
      (.start (upTo 0) ([dataCgiJob, databaseJob].map makePath)) _ := .refl
  rw [begins] at begun ⊢
  have tested := second_moves (first_moves begun top) top
  have missed := second_moves (first_moves tested missing) missing
  have gaveUp := second_moves (first_moves missed created) refused
  refine ⟨_, gaveUp, ?_⟩
  intro ready
  cases ready with
  | cons _ rest =>
      cases rest with
      | cons ready _ =>
          have there : databaseJob.logDir.length ≤ 0 ∨ databaseJob.logDir = resolve Job.secondDir :=
            ready _ rfl
          have deep := databaseJob.logDir_length
          rcases there with shallow | same
          · omega
          · rw [same] at deep
            omega

end DistStore.LogDirs

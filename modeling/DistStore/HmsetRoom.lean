import DistStore.HashFill
import DistStore.Lib.Growth

/-!
# The room for an `hmset` command

`make_hmset_command` compares the length it counts with the size of its buffer
behind every text it appends, and never before.  The counted length charges 200
bytes for the key, and a buffer that has grown has less room than its recorded
size.
-/

set_option autoImplicit false

namespace DistStore.HmsetRoom

open CMemory Environment RedisOp HashTable HashFill

/-- Room for the text in the buffer, the text that is appended and its NUL. -/
def HasRoom (cmd source : Bytes) : Prop :=
  ∃ text added, strAt cmd 0 = .ok text ∧ strAt source 0 = .ok added ∧
    text.length + added.length + 1 ≤ cmd.length

/-- There is room before each `strncat` of the loop that is reached. -/
def RoomIn (heap : Heap) (pieces : List (Bytes × Nat)) (buf : CmdBuf) : Prop :=
  ∀ before piece after reached, pieces = before ++ piece :: after →
    appendPieces heap before buf = .ok (some reached) → HasRoom reached.cmd piece.1

/-- There is room before each `strncat` of `make_hmset_command`. -/
def AlwaysRoom (heap : Heap) (key : Bytes) (rows : List Row) : Prop :=
  ∀ block cleared, heap.malloc startSize = some block →
    memset block.val 0 0 startSize = .ok cleared →
    HasRoom cleared (lit "hmset" ++ [0]) ∧
    ∀ named, strncat cleared (lit "hmset" ++ [0]) 0 6 = .ok named →
      HasRoom named (blank ++ [0]) ∧
      ∀ spaced, strncat named (blank ++ [0]) 0 1 = .ok spaced →
        HasRoom spaced key ∧
        ∀ keyed, strncat spaced key 0 200 = .ok keyed →
          RoomIn heap (rows.flatMap rowPieces) ⟨keyed, 5 + 1 + 200, startSize⟩

/-! ## One piece -/

theorem strncat_ok_iff {cmd source added : Bytes} {limit : Nat}
    (appended : strAt source 0 = .ok added) (whole : added.length ≤ limit) :
    (∃ result, strncat cmd source 0 limit = .ok result) ↔ HasRoom cmd source := by
  constructor
  · intro appends
    obtain ⟨result, copied⟩ := appends
    cases holds : strAt cmd 0 with
    | error fault =>
        have notNegative : ¬ (limit : Int) < 0 := by omega
        rw [strncat, if_neg notNegative, holds] at copied
        cases copied
    | ok text =>
        rw [strncat_eq_strcat holds appended whole, strcat, holds, ok_bind, appended,
          ok_bind] at copied
        have fits := (store_eq_ok copied).1
        rw [List.length_append, List.length_singleton] at fits
        exact ⟨text, added, holds, appended, fits⟩
  · intro hasRoom
    obtain ⟨text, piece, holds, same, room⟩ := hasRoom
    cases same.symm.trans appended
    obtain ⟨result, copied, -⟩ := strncat_appends holds appended whole (by omega)
    exact ⟨result, copied⟩

theorem appendPieces_cons {heap : Heap} {piece : Bytes × Nat} {pieces : List (Bytes × Nat)}
    {buf : CmdBuf} {result : Option CmdBuf} :
    appendPieces heap (piece :: pieces) buf = .ok result ↔
      (appendPieces heap [piece] buf = .ok none ∧ result = none) ∨
        ∃ next, appendPieces heap [piece] buf = .ok (some next) ∧
          appendPieces heap pieces next = .ok result := by
  obtain ⟨source, limit⟩ := piece
  rw [appendPieces, appendPieces]
  cases strncat buf.cmd source 0 limit with
  | error fault => simp
  | ok cmd =>
      cases strlen source 0 with
      | error fault => simp
      | ok used =>
          simp only [ok_bind]
          cases CmdBuf.grow heap ⟨cmd, addUnsigned buf.useSize used, buf.bufSize⟩ with
          | none => simp [eq_comm]
          | some grown => simp [appendPieces]

theorem roomIn_nil (heap : Heap) (buf : CmdBuf) : RoomIn heap [] buf := by
  intro before piece after reached split _
  exact absurd split.symm (List.append_ne_nil_of_right_ne_nil _ (List.cons_ne_nil _ _))

theorem roomIn_cons {heap : Heap} {piece : Bytes × Nat} {pieces : List (Bytes × Nat)}
    {buf : CmdBuf} :
    RoomIn heap (piece :: pieces) buf ↔ HasRoom buf.cmd piece.1 ∧
      ∀ next, appendPieces heap [piece] buf = .ok (some next) → RoomIn heap pieces next := by
  constructor
  · intro room
    refine ⟨room [] piece pieces buf rfl rfl, ?_⟩
    intro next appended before other after reached split reaches
    refine room (piece :: before) other after reached (by rw [split, List.cons_append]) ?_
    exact appendPieces_cons.mpr (Or.inr ⟨next, appended, reaches⟩)
  · intro ⟨first, later⟩ before other after reached split reaches
    cases before with
    | nil =>
        obtain ⟨rfl, rfl⟩ := List.cons.inj split
        cases reaches
        exact first
    | cons head before =>
        obtain ⟨rfl, rest⟩ := List.cons.inj split
        obtain ⟨-, absent⟩ | ⟨next, appended, onward⟩ := appendPieces_cons.mp reaches
        · cases absent
        · exact later next appended before other after reached rest onward

section Steady

variable {heap : Heap} (steady : Heap.Steady heap)

include steady in
/-- With room the piece is appended, and then the lengths are compared. -/
theorem appendPiece_of_room {piece : Bytes × Nat} {text added : Bytes} {buf : CmdBuf}
    (holds : strAt buf.cmd 0 = .ok text) (pieceHolds : Holds piece added)
    (room : text.length + added.length < buf.cmd.length) :
    ∃ cmd grown, cmd.length = buf.cmd.length ∧ strAt cmd 0 = .ok (text ++ added) ∧
      CmdBuf.grow heap ⟨cmd, addUnsigned buf.useSize added.length, buf.bufSize⟩ = some grown ∧
      appendPieces heap [piece] buf = .ok (some grown) := by
  obtain ⟨cmd, copied, length, both⟩ := strncat_appends holds pieceHolds.1 pieceHolds.2 room
  obtain ⟨grown, grows⟩ := Option.ne_none_iff_exists'.mp
    (grow_steady steady ⟨cmd, addUnsigned buf.useSize added.length, buf.bufSize⟩)
  refine ⟨cmd, grown, length, both, grows, ?_⟩
  obtain ⟨source, limit⟩ := piece
  simp only [appendPieces, copied, ok_bind, strlen_of_strAt pieceHolds.1, grows]

include steady in
/-- Where room is missing, the command is not built. -/
theorem roomIn_iff_ok {pieces : List (Bytes × Nat)} {texts : List Bytes}
    (hold : List.Forall₂ Holds pieces texts) (buf : CmdBuf) :
    (∃ built, appendPieces heap pieces buf = .ok (some built)) ↔ RoomIn heap pieces buf := by
  induction hold generalizing buf with
  | nil => exact iff_of_true ⟨buf, rfl⟩ (roomIn_nil heap buf)
  | @cons piece added pieces texts pieceHolds _ inductionHypothesis =>
      rw [roomIn_cons]
      constructor
      · intro ⟨built, done⟩
        obtain ⟨-, absent⟩ | ⟨next, appended, onward⟩ := appendPieces_cons.mp done
        · cases absent
        · obtain ⟨source, limit⟩ := piece
          obtain ⟨cmd, copied, -⟩ := (bind_eq_ok_iff _ _ _).mp appended
          refine ⟨(strncat_ok_iff pieceHolds.1 pieceHolds.2).mp ⟨cmd, copied⟩, ?_⟩
          intro other same
          cases appended.symm.trans same
          exact (inductionHypothesis next).mp ⟨built, onward⟩
      · intro ⟨⟨text, same, holds, pieceIs, room⟩, later⟩
        cases pieceIs.symm.trans pieceHolds.1
        obtain ⟨cmd, grown, -, -, -, appended⟩ :=
          appendPiece_of_room steady holds pieceHolds (by omega)
        obtain ⟨built, onward⟩ := (inductionHypothesis grown).mpr (later grown appended)
        exact ⟨built, appendPieces_cons.mpr (Or.inr ⟨grown, appended, onward⟩)⟩

end Steady

/-! ## All pieces -/

/-- The last mark: one unit behind it the counted length is `2 ^ 32`. -/
def lastMark : Nat := 4095 * startSize

/-- The buffer while `text` is in it; the counted length is `slack` more than
the true one and has not passed the mark. -/
structure Growing (buf : CmdBuf) (text : Bytes) (slack : Nat) : Prop where
  holds : strAt buf.cmd 0 = .ok text
  counted : buf.useSize = text.length + slack
  below : buf.useSize < buf.bufSize
  marked : ∃ marks, marks ≤ 4095 ∧ buf.bufSize = marks * startSize

/-- A block that is made smaller than its text holds no string any more. -/
theorem strAt_cut {old moved text : Bytes} {size : Nat} (holds : strAt old 0 = .ok text)
    (small : size ≤ text.length) (front : old.take size <+: moved) (length : moved.length = size)
    (found : Bytes) : strAt moved 0 ≠ .ok found := by
  obtain ⟨nulFree, rest, shape⟩ := (strAt_eq_ok_iff _ _ _).mp holds
  rw [List.drop_zero] at shape
  have cut : old.take size = text.take size := by rw [shape, List.take_append_of_le_length small]
  have sizes : (text.take size).length = size := List.length_take_of_le small
  have same : moved = text.take size := by
    rw [cut] at front
    exact (front.eq_of_length (by omega)).symm
  intro holdsMoved
  obtain ⟨-, behind, shapeMoved⟩ := (strAt_eq_ok_iff _ _ _).mp holdsMoved
  rw [List.drop_zero, same] at shapeMoved
  have nul : 0 ∈ text.take size := by
    rw [shapeMoved]
    exact List.mem_append_right found List.mem_cons_self
  exact nulFree (List.mem_of_mem_take nul)

def sizes (buf : CmdBuf) : Growth.Sizes := ⟨buf.useSize, buf.bufSize, buf.cmd.length⟩

theorem grow_below {heap : Heap} {buf : CmdBuf} (below : buf.useSize < buf.bufSize) :
    buf.grow heap = some buf := if_neg (Nat.not_le.mpr below)

theorem grow_passing {heap : Heap} {buf grown : CmdBuf} (passes : buf.bufSize ≤ buf.useSize)
    (grows : buf.grow heap = some grown) :
    grown.useSize = buf.useSize ∧ grown.bufSize = addUnsigned buf.bufSize startSize ∧
      grown.cmd.length = addUnsigned buf.useSize startSize ∧
      buf.cmd.take (addUnsigned buf.useSize startSize) <+: grown.cmd := by
  unfold CmdBuf.grow at grows
  rw [if_pos passes] at grows
  obtain ⟨⟨block, front⟩, -, rfl⟩ := Option.map_eq_some_iff.mp grows
  exact ⟨rfl, rfl, block.property, front⟩

/-- Up to the last mark the lengths behind a piece are counted; there the size
of the new block wraps around and the text is cut off. -/
theorem growing_step {heap : Heap} {buf grown : CmdBuf} {text added cmd : Bytes} {slack : Nat}
    (growing : Growing buf text slack) (short : added.length ≤ startSize)
    (slackShort : slack ≤ startSize)
    (length : cmd.length = buf.cmd.length) (both : strAt cmd 0 = .ok (text ++ added))
    (grows : CmdBuf.grow heap ⟨cmd, addUnsigned buf.useSize added.length, buf.bufSize⟩ = some grown) :
    (buf.useSize + added.length < lastMark → Growing grown (text ++ added) slack ∧
        sizes grown = (sizes buf).append startSize added.length) ∧
      (lastMark ≤ buf.useSize + added.length → ∀ found, strAt grown.cmd 0 ≠ .ok found) := by
  obtain ⟨holds, counted, below, marks, limit, marked⟩ := growing
  have start := startSize_eq
  have last : lastMark = 4095 * startSize := rfl
  have bounded : buf.bufSize ≤ lastMark := by
    rw [marked]
    exact Nat.mul_le_mul_right _ limit
  have total : addUnsigned buf.useSize added.length = buf.useSize + added.length :=
    addUnsigned_eq (by omega)
  have bothLength : (text ++ added).length = text.length + added.length := List.length_append
  have bothCounted : buf.useSize + added.length = (text ++ added).length + slack := by omega
  rw [total] at grows
  by_cases passes : buf.bufSize ≤ buf.useSize + added.length
  · obtain ⟨used, marked', size, front⟩ := grow_passing passes grows
    simp only [] at used marked' size front
    constructor
    · intro early
      have fewer : marks < 4095 := by
        by_contra more
        have all : marks = 4095 := by omega
        rw [all] at marked
        omega
      have nextMark : addUnsigned buf.bufSize startSize = buf.bufSize + startSize :=
        addUnsigned_eq (by omega)
      have nextSize : addUnsigned (buf.useSize + added.length) startSize =
          buf.useSize + added.length + startSize := addUnsigned_eq (by omega)
      rw [nextMark] at marked'
      rw [nextSize] at size front
      have inside : (text ++ added).length < buf.useSize + added.length + startSize := by omega
      constructor
      · refine ⟨strAt_moved both inside front, used.trans bothCounted, by omega, ?_⟩
        exact ⟨marks + 1, fewer, by rw [marked', marked, Nat.succ_mul]⟩
      · unfold sizes Growth.Sizes.append
        rw [if_pos passes, used, marked', size]
    · intro late
      have wrapped : addUnsigned (buf.useSize + added.length) startSize =
          buf.useSize + added.length - lastMark := by
        unfold addUnsigned
        omega
      rw [wrapped] at size front
      exact strAt_cut both (by omega) front size
  · rw [grow_below (Nat.not_le.mp passes)] at grows
    obtain rfl := Option.some.inj grows
    refine ⟨fun _ => ⟨⟨both, bothCounted, Nat.not_le.mp passes, marks, limit, marked⟩, ?_⟩, ?_⟩
    · unfold sizes Growth.Sizes.append
      rw [if_neg passes, length]
    · intro late
      omega

theorem append_used (unit : Nat) (sizes : Growth.Sizes) (piece : Nat) :
    (sizes.append unit piece).used = sizes.used + piece := by
  unfold Growth.Sizes.append
  split <;> rfl

theorem growing_bounded {buf : CmdBuf} {text : Bytes} {slack : Nat} (growing : Growing buf text slack) :
    buf.useSize < lastMark := by
  obtain ⟨-, -, below, marks, limit, marked⟩ := growing
  have bounded : marks * startSize ≤ lastMark := Nat.mul_le_mul_right _ limit
  omega

/-- The length counted before the last of the pieces. -/
def countedBefore (used : Nat) (lengths : List Nat) : Nat := used + lengths.dropLast.sum

theorem countedBefore_cons (used first second : Nat) (lengths : List Nat) :
    countedBefore used (first :: second :: lengths) =
      countedBefore (used + first) (second :: lengths) := by
  unfold countedBefore
  rw [List.dropLast_cons_cons, List.sum_cons, Nat.add_assoc]

theorem roomIn_iff {heap : Heap} (steady : Heap.Steady heap) {pieces : List (Bytes × Nat)}
    {texts : List Bytes} (hold : List.Forall₂ Holds pieces texts)
    (short : ∀ added ∈ texts, added.length ≤ startSize) {buf : CmdBuf} {text : Bytes} {slack : Nat}
    (slackShort : slack ≤ startSize) (growing : Growing buf text slack) :
    RoomIn heap pieces buf ↔
      countedBefore buf.useSize (texts.map List.length) < lastMark ∧
        Growth.Roomy startSize slack (texts.map List.length) (sizes buf) := by
  induction hold generalizing buf text with
  | nil => exact iff_of_true (roomIn_nil heap buf) ⟨growing_bounded growing, trivial⟩
  | @cons piece added pieces texts pieceHolds hold inductionHypothesis =>
      rw [List.forall_mem_cons] at short
      have counted := growing.counted
      have bounded := growing_bounded growing
      have roomHere : HasRoom buf.cmd piece.1 ↔
          buf.useSize + added.length < buf.cmd.length + slack := by
        constructor
        · intro ⟨text', added', holds', added'Holds, room⟩
          cases growing.holds.symm.trans holds'
          cases pieceHolds.1.symm.trans added'Holds
          omega
        · intro room
          exact ⟨text, added, growing.holds, pieceHolds.1, by omega⟩
      rw [roomIn_cons, roomHere, List.map_cons, Growth.Roomy, and_left_comm]
      apply and_congr_right
      intro room
      obtain ⟨cmd, grown, length, both, grows, appended⟩ :=
        appendPiece_of_room steady growing.holds pieceHolds (by omega)
      have onlyGrown : (∀ next, appendPieces heap [piece] buf = .ok (some next) →
          RoomIn heap pieces next) ↔ RoomIn heap pieces grown := by
        constructor
        · exact fun rest => rest grown appended
        · intro rest next same
          cases appended.symm.trans same
          exact rest
      obtain ⟨early, late⟩ := growing_step growing short.1 slackShort length both grows
      rw [onlyGrown]
      by_cases before : buf.useSize + added.length < lastMark
      · obtain ⟨grownGrowing, same⟩ := early before
        have used : grown.useSize = buf.useSize + added.length :=
          (congrArg Growth.Sizes.used same).trans (append_used _ _ _)
        rw [inductionHypothesis short.2 grownGrowing, same, used]
        cases texts with
        | nil => exact and_congr_left' (iff_of_true before bounded)
        | cons next texts => rw [List.map_cons, countedBefore_cons]
      · cases hold with
        | nil => exact iff_of_true (roomIn_nil heap grown) ⟨bounded, trivial⟩
        | @cons nextPiece next pieces texts nextHolds hold =>
            apply iff_of_false
            · intro rest
              obtain ⟨found, -, holdsGrown, -⟩ := (roomIn_cons.mp rest).1
              exact late (Nat.not_lt.mp before) found holdsGrown
            · intro both
              have counted' := both.1
              rw [List.map_cons, countedBefore_cons] at counted'
              unfold countedBefore at counted'
              omega

/-! ## The whole command -/

def rowLengths (row : Row) : List Nat := [1, row.field.val.length, 1, row.value.val.length]

def pieceLengths (rows : List Row) : List Nat := rows.flatMap rowLengths

def loopTexts (rows : List Row) : List Bytes :=
  rows.flatMap fun row => [blank, row.field.val, blank, row.value.val]

theorem loopTexts_hold (rows : List Row) :
    List.Forall₂ Holds (rows.flatMap rowPieces) (loopTexts rows) := rows_hold rows

theorem loopTexts_lengths (rows : List Row) :
    (loopTexts rows).map List.length = pieceLengths rows := by
  unfold loopTexts pieceLengths
  rw [List.map_flatMap]
  rfl

theorem loopTexts_short {rows : List Row} {added : Bytes} (member : added ∈ loopTexts rows) :
    added.length ≤ startSize := by
  have start := startSize_eq
  obtain ⟨row, -, inRow⟩ := List.mem_flatMap.mp member
  have fieldLength := row.field.property.2
  have valueLength := row.value.property.2
  have blankLength : blank.length = 1 := by decide
  simp only [fieldIdSize, valuesIdSize] at fieldLength valueLength
  simp only [List.mem_cons, List.not_mem_nil, or_false] at inRow
  rcases inRow with rfl | rfl | rfl | rfl <;> omega

section Command

variable {heap : Heap} (steady : Heap.Steady heap) {key name : Bytes} {rows : List Row}
variable (holds : strAt key 0 = .ok name) (short : name.length ≤ 200)

include steady holds short in
/-- The front of the command has room; the loop starts behind it. -/
theorem front_hasRoom :
    ∃ keyed, Growing ⟨keyed, 5 + 1 + 200, startSize⟩ (lit "hmset" ++ blank ++ name)
        (200 - name.length) ∧ keyed.length = startSize ∧
      (AlwaysRoom heap key rows ↔
        RoomIn heap (rows.flatMap rowPieces) ⟨keyed, 5 + 1 + 200, startSize⟩) ∧
      makeHmsetCommand heap key rows = (do
        let built ← appendPieces heap (rows.flatMap rowPieces) ⟨keyed, 5 + 1 + 200, startSize⟩
        return built.map CmdBuf.cmd) := by
  have size := startSize_eq
  have five : (lit "hmset").length = 5 ∧ blank.length = 1 := by decide
  have wordHolds : strAt (lit "hmset" ++ [0]) 0 = .ok (lit "hmset") := by decide
  have blankHolds : strAt (blank ++ [0]) 0 = .ok blank := by decide
  obtain ⟨word, spaced, keyed, wordCopied, blankCopied, keyCopied, filled, length⟩ :=
    commandFront_filled holds short (by omega)
  obtain ⟨block, allocated⟩ := Option.ne_none_iff_exists'.mp (steady.malloc startSize)
  have cleared : memset block.val 0 0 startSize = .ok (zeros startSize) :=
    memset_whole block.val 0 block.property
  have wordLimit : (lit "hmset").length ≤ 6 := by omega
  have wordRoom := (strncat_ok_iff wordHolds wordLimit).mp ⟨word, wordCopied⟩
  have blankRoom := (strncat_ok_iff blankHolds five.2.le).mp ⟨spaced, blankCopied⟩
  have keyRoom := (strncat_ok_iff holds short).mp ⟨keyed, keyCopied⟩
  have counted : 5 + 1 + 200 = (lit "hmset" ++ blank ++ name).length + (200 - name.length) := by
    rw [List.length_append, List.length_append]
    omega
  have below : 5 + 1 + 200 < startSize := by omega
  refine ⟨keyed, ⟨filled.holds, counted, below, 1, by decide, (Nat.one_mul _).symm⟩, length, ?_, ?_⟩
  · constructor
    · intro room
      obtain ⟨-, afterWord⟩ := room block _ allocated cleared
      exact ((afterWord word wordCopied).2 spaced blankCopied).2 keyed keyCopied
    · intro room otherBlock other otherAllocated otherCleared
      cases allocated.symm.trans otherAllocated
      cases cleared.symm.trans otherCleared
      refine ⟨wordRoom, ?_⟩
      intro named sameWord
      cases wordCopied.symm.trans sameWord
      refine ⟨blankRoom, ?_⟩
      intro otherSpaced sameBlank
      cases blankCopied.symm.trans sameBlank
      refine ⟨keyRoom, ?_⟩
      intro otherKeyed sameKey
      cases keyCopied.symm.trans sameKey
      exact room
  · unfold makeHmsetCommand
    rw [allocated]
    simp only []
    rw [cleared, ok_bind, wordCopied, ok_bind, blankCopied, ok_bind, keyCopied, ok_bind]

include steady holds short in
/-- The command is built exactly when there is room all the way. -/
theorem makeHmsetCommand_builds_iff :
    (∃ cmd, makeHmsetCommand heap key rows = .ok (some cmd)) ↔ AlwaysRoom heap key rows := by
  obtain ⟨keyed, -, -, always, made⟩ := @front_hasRoom _ steady _ _ rows holds short
  rw [always, made, ← roomIn_iff_ok steady (loopTexts_hold rows)]
  constructor
  · intro ⟨cmd, done⟩
    obtain ⟨built, appended, isSome⟩ := (bind_eq_ok_iff _ _ _).mp done
    obtain ⟨grown, rfl, -⟩ := Option.map_eq_some_iff.mp (Except.ok.inj isSome)
    exact ⟨grown, appended⟩
  · intro ⟨grown, appended⟩
    exact ⟨grown.cmd, by rw [appended]; rfl⟩

end Command

/-- There is room all the way exactly when the counted length stays below the
last mark until the last text, and each mark is passed less than 1 MiB and the
200 bytes charged for the key behind the passing before it. -/
theorem alwaysRoom_iff {heap : Heap} (steady : Heap.Steady heap) {key name : Bytes}
    (rows : List Row) (holds : strAt key 0 = .ok name) (short : name.length ≤ 200) :
    AlwaysRoom heap key rows ↔
      countedBefore 206 (pieceLengths rows) < lastMark ∧
        Growth.Paced startSize (200 - name.length) 0
          (Growth.passings startSize startSize 206 (pieceLengths rows)) := by
  have start := startSize_eq
  obtain ⟨keyed, growing, length, always, -⟩ := @front_hasRoom _ steady _ _ rows holds short
  have lengthsShort : ∀ length ∈ pieceLengths rows, length ≤ startSize := by
    rw [← loopTexts_lengths]
    intro length member
    obtain ⟨added, inLoop, rfl⟩ := List.mem_map.mp member
    exact loopTexts_short inLoop
  have below : 206 < startSize := by omega
  have slackShort : 200 - name.length ≤ startSize := by omega
  have first : sizes ⟨keyed, 5 + 1 + 200, startSize⟩ = ⟨206, startSize, 0 + startSize⟩ := by
    rw [Nat.zero_add, ← length]
    rfl
  rw [always, roomIn_iff steady (loopTexts_hold rows) (fun _ => loopTexts_short) slackShort growing,
    loopTexts_lengths, first, Growth.roomy_iff below (Nat.zero_add _).ge lengthsShort]

theorem alwaysRoom_iff_one :
    AlwaysRoom plenty (lit "k" ++ [0]) [rowOf (lit "f") (lit "v")] ↔
      countedBefore 206 (pieceLengths [rowOf (lit "f") (lit "v")]) < lastMark ∧
        Growth.Paced startSize (200 - (lit "k").length) 0
          (Growth.passings startSize startSize 206 (pieceLengths [rowOf (lit "f") (lit "v")])) :=
  alwaysRoom_iff plenty_steady _ (by decide) (by decide)

/-- A field and a value of the greatest lengths. -/
def longRow : Row := rowOf (List.replicate 99 102) (List.replicate 1023 118)

theorem rowLengths_longRow : rowLengths longRow = [1, 99, 1, 1023] := by decide +kernel

/-- The value of the last of 933 such rows ends 123 bytes behind the buffer. -/
theorem not_alwaysRoom :
    Heap.Steady plenty ∧ ¬ AlwaysRoom plenty (lit "k" ++ [0]) (List.replicate 933 longRow) := by
  refine ⟨plenty_steady, ?_⟩
  intro room
  have lengths : pieceLengths (List.replicate 933 longRow) =
      (List.replicate 933 [1, 99, 1, 1023]).flatten := by
    unfold pieceLengths
    rw [List.flatMap_def, List.map_replicate, rowLengths_longRow]
  have holds : strAt (lit "k" ++ [0]) 0 = .ok (lit "k") := by decide
  obtain ⟨-, paced⟩ := (alwaysRoom_iff plenty_steady _ holds (by decide)).mp room
  rw [lengths] at paced
  revert paced
  decide +kernel

end DistStore.HmsetRoom

import DistStore.HashTable
import Mathlib.Data.List.Forall2

/-!
# Two ways to fill a hash

The command text of `make_hmset_command` is cut into words again before Redis
sees it.  The words are the pieces it was made of only when every piece is a
word; otherwise the fields and values behind it are shifted.
-/

set_option autoImplicit false

namespace DistStore.HashFill

open CMemory Words Environment RedisOp HashTable

/-! ## The text of the command -/

def rowTexts (row : Row) : List Bytes := [row.field.val, row.value.val]

def commandTexts (name : Bytes) (rows : List Row) : List Bytes := name :: rows.flatMap rowTexts

def hmsetText (name : Bytes) (rows : List Row) : Bytes :=
  lit "hmset" ++ (commandTexts name rows).flatMap (32 :: ·)

/-- A piece in memory and its text. -/
def Holds (piece : Bytes × Nat) (text : Bytes) : Prop :=
  strAt piece.1 0 = .ok text ∧ text.length ≤ piece.2

theorem rowPieces_hold (row : Row) :
    List.Forall₂ Holds (rowPieces row) [blank, row.field.val, blank, row.value.val] := by
  have blankHolds : Holds (blank ++ [0], 1) blank := ⟨by decide, by decide⟩
  have fieldLength : row.field.val.length ≤ fieldIdSize :=
    row.field.property.2.trans (Nat.sub_le _ _)
  have valueLength : row.value.val.length ≤ valuesIdSize :=
    row.value.property.2.trans (Nat.sub_le _ _)
  have fieldHolds : Holds (row.field.val ++ [0], fieldIdSize) row.field.val :=
    ⟨strAt_append [] _ [] row.field.property.1, fieldLength⟩
  have valueHolds : Holds (row.value.val ++ [0], valuesIdSize) row.value.val :=
    ⟨strAt_append [] _ [] row.value.property.1, valueLength⟩
  exact .cons blankHolds (.cons fieldHolds (.cons blankHolds (.cons valueHolds .nil)))

/-- The buffer of the command while `text` is in it. -/
structure Filled (buf : CmdBuf) (text : Bytes) : Prop where
  holds : strAt buf.cmd 0 = .ok text
  large : startSize ≤ buf.cmd.length
  used : buf.useSize ≤ text.length + 200

theorem startSize_eq : startSize = 2 ^ 20 := by decide

/-- An allocator that never fails. -/
structure Heap.Steady (heap : Heap) : Prop where
  malloc : ∀ size, heap.malloc size ≠ none
  realloc : ∀ old size, heap.realloc old size ≠ none

/-- A text stays where its block is moved to, if the new one has room for it. -/
theorem strAt_moved {old moved text : Bytes} {size : Nat} (holds : strAt old 0 = .ok text)
    (room : text.length < size) (front : old.take size <+: moved) : strAt moved 0 = .ok text := by
  obtain ⟨nulFree, rest, shape⟩ := (strAt_eq_ok_iff _ _ _).mp holds
  rw [List.drop_zero] at shape
  have inOld : text ++ [0] <+: old :=
    ⟨rest, by rw [shape, List.append_assoc, List.singleton_append]⟩
  have inTake : text ++ [0] <+: old.take size := by
    apply List.prefix_take_iff.mpr
    refine ⟨inOld, ?_⟩
    rw [List.length_append, List.length_singleton]
    omega
  obtain ⟨behind, same⟩ := inTake.trans front
  rw [← same, List.append_assoc]
  exact strAt_append [] text _ nulFree

theorem addUnsigned_eq {first second : Nat} (small : first + second < 2 ^ 32) :
    addUnsigned first second = first + second := Nat.mod_eq_of_lt small

theorem grow_filled {heap : Heap} {buf grown : CmdBuf} {text : Bytes} (filled : Filled buf text)
    (short : text.length < startSize) (grows : buf.grow heap = some grown) : Filled grown text := by
  obtain ⟨holds, large, used⟩ := filled
  have start := startSize_eq
  unfold CmdBuf.grow at grows
  split at grows
  · obtain ⟨⟨block, front⟩, -, same⟩ := Option.map_eq_some_iff.mp grows
    have size : addUnsigned buf.useSize startSize = buf.useSize + startSize :=
      addUnsigned_eq (by omega)
    have length := block.property
    have moved := strAt_moved holds (by omega) front
    have grownLarge : startSize ≤ block.val.length := by omega
    rw [← same]
    exact ⟨moved, grownLarge, used⟩
  · rw [← Option.some.inj grows]
    exact ⟨holds, large, used⟩

theorem grow_steady {heap : Heap} (steady : Heap.Steady heap) (buf : CmdBuf) : buf.grow heap ≠ none := by
  unfold CmdBuf.grow
  split
  · intro absent
    exact steady.realloc _ _ (Option.map_eq_none_iff.mp absent)
  · exact Option.some_ne_none _

/-- The pieces are appended one after the other; only the allocator can fail. -/
theorem appendPieces_filled (heap : Heap) {pieces : List (Bytes × Nat)} {texts : List Bytes}
    (hold : List.Forall₂ Holds pieces texts) {buf : CmdBuf} {old : Bytes} (filled : Filled buf old)
    (fits : (old ++ texts.flatten).length < startSize) :
    ∃ result, appendPieces heap pieces buf = .ok result ∧
      (∀ grown, result = some grown → Filled grown (old ++ texts.flatten)) ∧
      (Heap.Steady heap → result ≠ none) := by
  induction hold generalizing buf old with
  | nil =>
      refine ⟨some buf, rfl, ?_, fun _ => Option.some_ne_none _⟩
      intro grown same
      rw [← Option.some.inj same, List.flatten_nil, List.append_nil]
      exact filled
  | @cons piece text pieces texts pieceHolds _ inductionHypothesis =>
      obtain ⟨textAt, limit⟩ := pieceHolds
      rw [List.flatten_cons, ← List.append_assoc] at fits ⊢
      have size := startSize_eq
      have large := filled.large
      have used := filled.used
      have room : old.length + text.length < startSize := by
        rw [List.length_append, List.length_append] at fits
        omega
      obtain ⟨cmd, copied, cmdLength, cmdHolds⟩ :=
        strncat_appends filled.holds textAt limit (by omega)
      have counted : addUnsigned buf.useSize text.length = buf.useSize + text.length :=
        addUnsigned_eq (by omega)
      have next : Filled ⟨cmd, buf.useSize + text.length, buf.bufSize⟩ (old ++ text) := by
        refine ⟨cmdHolds, cmdLength ▸ large, ?_⟩
        rw [List.length_append]
        show buf.useSize + text.length ≤ _
        omega
      obtain ⟨source, count⟩ := piece
      simp only [appendPieces, copied, ok_bind, strlen_of_strAt textAt, counted]
      cases grows : CmdBuf.grow heap ⟨cmd, buf.useSize + text.length, buf.bufSize⟩ with
      | none =>
          exact ⟨none, rfl, nofun, fun steady => absurd grows (grow_steady steady _)⟩
      | some grown =>
          have grownFilled := grow_filled next (by rw [List.length_append]; exact room) grows
          exact inductionHypothesis grownFilled fits

theorem rows_hold (rows : List Row) :
    List.Forall₂ Holds (rows.flatMap rowPieces)
      (rows.flatMap fun row => [blank, row.field.val, blank, row.value.val]) := by
  induction rows with
  | nil => exact .nil
  | cons row rows inductionHypothesis =>
      exact List.rel_append (rowPieces_hold row) inductionHypothesis

theorem rows_flatten (rows : List Row) :
    (rows.flatMap fun row => [blank, row.field.val, blank, row.value.val]).flatten =
      (rows.flatMap rowTexts).flatMap (32 :: ·) := by
  have blankIs : blank = [32] := by decide
  induction rows with
  | nil => rfl
  | cons row rows inductionHypothesis =>
      rw [List.flatMap_cons, List.flatten_append, inductionHypothesis, List.flatMap_cons,
        List.flatMap_append, blankIs]
      simp [rowTexts]

section Command

variable {key name : Bytes} {rows : List Row} (holds : strAt key 0 = .ok name)
variable (short : name.length ≤ 200) (fits : (hmsetText name rows).length < startSize)

include holds short in
/-- The front of the command: its word, a blank and the key. -/
theorem commandFront_filled (room : name.length + 6 < startSize) :
    ∃ word spaced keyed, strncat (zeros startSize) (lit "hmset" ++ [0]) 0 6 = .ok word ∧
      strncat word (blank ++ [0]) 0 1 = .ok spaced ∧ strncat spaced key 0 200 = .ok keyed ∧
      Filled ⟨keyed, 5 + 1 + 200, startSize⟩ (lit "hmset" ++ blank ++ name) ∧
      keyed.length = startSize := by
  have size := startSize_eq
  have five : (lit "hmset").length = 5 ∧ blank.length = 1 := by decide
  have wordHolds : strAt (lit "hmset" ++ [0]) 0 = .ok (lit "hmset") := by decide
  have blankHolds : strAt (blank ++ [0]) 0 = .ok blank := by decide
  have empty : strAt (zeros startSize) 0 = .ok [] := by
    rw [zeros_eq_cons (by omega)]
    exact strAt_append [] [] _ List.not_mem_nil
  obtain ⟨word, wordCopied, wordSize, wordText⟩ := strncat_appends empty wordHolds
    (show _ ≤ 6 by omega) (by rw [zeros_length, List.length_nil]; omega)
  rw [zeros_length] at wordSize
  rw [List.nil_append] at wordText
  obtain ⟨spaced, blankCopied, spacedSize, spacedText⟩ := strncat_appends wordText blankHolds
    (show _ ≤ 1 by omega) (by omega)
  obtain ⟨keyed, keyCopied, keyedSize, keyedText⟩ := strncat_appends spacedText holds short
    (by rw [List.length_append]; omega)
  have size : keyed.length = startSize := by omega
  refine ⟨word, spaced, keyed, wordCopied, blankCopied, keyCopied, ⟨keyedText, size.ge, ?_⟩, size⟩
  show 5 + 1 + 200 ≤ _
  rw [List.length_append, List.length_append]
  omega

include holds short fits in
/-- The command is the word and the texts, each behind a blank. -/
theorem makeHmsetCommand_text (heap : Heap) :
    ∃ result, makeHmsetCommand heap key rows = .ok result ∧
      (∀ cmd, result = some cmd → strAt cmd 0 = .ok (hmsetText name rows)) ∧
      (Heap.Steady heap → result ≠ none) := by
  unfold makeHmsetCommand
  cases allocated : heap.malloc startSize with
  | none =>
      exact ⟨none, rfl, nofun, fun steady => absurd allocated (steady.malloc startSize)⟩
  | some block =>
      have hold := rows_hold rows
      have flat := rows_flatten rows
      generalize (rows.flatMap fun row => [blank, row.field.val, blank, row.value.val]) = texts
        at hold flat
      have whole : hmsetText name rows = lit "hmset" ++ blank ++ name ++ texts.flatten := by
        rw [flat]
        simp [hmsetText, commandTexts, show blank = [32] by decide]
      have five : (lit "hmset").length = 5 ∧ blank.length = 1 := by decide
      have lengths := congrArg List.length whole
      rw [List.length_append, List.length_append, List.length_append] at lengths
      obtain ⟨word, spaced, keyed, wordCopied, blankCopied, keyCopied, started, -⟩ :=
        commandFront_filled holds short (by omega)
      obtain ⟨result, built, filled, steadily⟩ :=
        appendPieces_filled heap hold started (whole ▸ fits)
      refine ⟨result.map CmdBuf.cmd, ?_, ?_, ?_⟩
      · have cleared : memset block.val 0 0 startSize = .ok (zeros startSize) :=
          memset_whole block.val 0 block.property
        simp only []
        rw [cleared, ok_bind, wordCopied, ok_bind, blankCopied, ok_bind, keyCopied, ok_bind, built,
          ok_bind]
        exact pure_eq_ok _
      · intro cmd same
        obtain ⟨grown, isSome, rfl⟩ := Option.map_eq_some_iff.mp same
        rw [whole]
        exact (filled grown isSome).holds
      · intro steady absent
        exact steadily steady (Option.map_eq_none_iff.mp absent)

end Command

/-! ## The server -/

section Server

variable {db : Db} {name key : Bytes} {arguments : List Bytes} {values : Bytes → Option Bytes}

theorem exec_fill (known : name = lit "hset" ∨ name = lit "hmset") (nonempty : arguments ≠ [])
    (even : arguments.length % 2 = 0) (hash : hashAt (db key) = some values) :
    (exec (name :: key :: arguments) db).2 =
        Function.update db key (some (.hash (assign values (pairUp arguments)))) ∧
      (name = lit "hmset" → (exec (name :: key :: arguments) db).1 = .status (lit "OK")) := by
  have isKnown : ¬ (name ≠ lit "hset" ∧ name ≠ lit "hmset") := by
    intro unknown
    exact known.elim unknown.1 unknown.2
  have rightNumber : ¬ (arguments = [] ∨ arguments.length % 2 = 1) := by
    rw [not_or]
    exact ⟨nonempty, by omega⟩
  rw [exec, if_neg isKnown, if_neg rightNumber, hash]
  exact ⟨rfl, fun hmset => if_pos hmset⟩

/-- `HMSET` answers `OK` only when it has a key, pairs and a hash to put them
into. -/
theorem exec_ok (answered : (exec (lit "hmset" :: arguments) db).1.str = some (lit "OK")) :
    ∃ first rest values, arguments = first :: rest ∧ rest ≠ [] ∧ rest.length % 2 = 0 ∧
      hashAt (db first) = some values := by
  have numberRefused : wrongNumber.str ≠ some (lit "OK") := by decide
  have typeRefused : wrongType.str ≠ some (lit "OK") := by decide
  cases arguments with
  | nil => exact absurd answered numberRefused
  | cons first rest =>
      rw [exec, if_neg (by decide)] at answered
      by_cases number : rest = [] ∨ rest.length % 2 = 1
      · rw [if_pos number] at answered
        exact absurd answered numberRefused
      · rw [if_neg number] at answered
        rw [not_or] at number
        cases hash : hashAt (db first) with
        | none =>
            rw [hash] at answered
            exact absurd answered typeRefused
        | some values => exact ⟨first, rest, values, rfl, number.1, by omega, hash⟩

end Server

/-! ## Filling with one command -/

theorem redisCommand_fresh (client : Client) (db : Db) (link : Nat → Bool) (format : Bytes) :
    redisCommand client (.fresh db link) format =
      (client.command format []).bind fun command =>
        if link 0 = false then none
        else some ((exec command db).1,
          ⟨(exec command db).2, [], [], fun read => link (read + 1)⟩) := by
  unfold redisCommand redisAppendCommand
  cases client.command format [] <;> rfl

section Create

variable {client : Client} {heap : Heap} {db : Db} {link : Nat → Bool} {created : Conn}
variable {key name : Bytes} {rows : List Row} (holds : strAt key 0 = .ok name)
variable (short : name.length ≤ 200) (fits : (hmsetText name rows).length < startSize)

include holds short fits in
theorem create_ok
    (done : ropCreateOrReplaceHashTable client heap (.fresh db link) key rows = .ok (0, created)) :
    ∃ command, client.command (hmsetText name rows) [] = some command ∧
      (exec command db).1.str = some (lit "OK") ∧ created.db = (exec command db).2 := by
  obtain ⟨result, made, text, -⟩ := makeHmsetCommand_text holds short fits heap
  unfold ropCreateOrReplaceHashTable at done
  rw [made, ok_bind] at done
  cases result with
  | none => cases done
  | some cmd =>
      simp only [text cmd rfl, ok_bind, redisCommand_fresh] at done
      cases understood : client.command (hmsetText name rows) [] with
      | none =>
          rw [understood] at done
          cases done
      | some command =>
          rw [understood, Option.bind_some] at done
          split at done
          · cases done
          · simp only [present, ok_bind] at done
            cases replied : (exec command db).1.str with
            | none =>
                rw [replied] at done
                cases done
            | some str =>
                rw [replied] at done
                simp only [ok_bind] at done
                split at done
                · cases done
                · rename_i same
                  cases done
                  exact ⟨command, rfl, by rw [replied, not_not.mp same], rfl⟩

include holds short fits in
theorem create_runs (steady : Heap.Steady heap) (linked : link 0 = true) {command : List Bytes}
    (understood : client.command (hmsetText name rows) [] = some command)
    (answered : (exec command db).1.str = some (lit "OK")) :
    ∃ created, ropCreateOrReplaceHashTable client heap (.fresh db link) key rows =
      .ok (0, created) ∧ created.db = (exec command db).2 := by
  obtain ⟨result, made, text, present_⟩ := makeHmsetCommand_text holds short fits heap
  cases result with
  | none => exact absurd rfl (present_ steady)
  | some cmd =>
      refine ⟨⟨(exec command db).2, [], [], fun read => link (read + 1)⟩, ?_, rfl⟩
      unfold ropCreateOrReplaceHashTable
      simp only [made, ok_bind, text cmd rfl, redisCommand_fresh, understood, Option.bind_some,
        linked, present, answered, reduceCtorEq, if_false, ne_eq, not_true_eq_false, pure_eq_ok]

end Create

/-! ## Filling with a command for every field -/

def hsetCommand (name : Bytes) (row : Row) : List Bytes :=
  [lit "hset", name, row.field.val, row.value.val]

def rowPair (row : Row) : Bytes × Bytes := (row.field.val, row.value.val)

section Append

variable {client : Client} {db : Db} {key name : Bytes} (holds : strAt key 0 = .ok name)

include holds in
theorem queueRows_eq (rows : List Row) (conn : Conn) :
    queueRows client key rows conn =
      .ok (0, { conn with output := conn.output ++ rows.map (hsetCommand name) }) := by
  induction rows generalizing conn with
  | nil => rw [List.map_nil, List.append_nil, queueRows]
  | cons row rows inductionHypothesis =>
      simp only [queueRows, holds, ok_bind, redisAppendCommand, client.whole, Option.map_some,
        inductionHypothesis, List.append_assoc, List.map_cons, List.singleton_append]
      rfl

theorem redisGetReply_db {conn next : Conn} {reply : Reply}
    (got : redisGetReply conn = some (reply, next)) :
    next.db = conn.flush.db ∧ next.output = [] := by
  unfold redisGetReply at got
  split at got
  · cases got
  · split at got
    · cases got
    · cases got
      exact ⟨rfl, rfl⟩

theorem flush_of_sent {conn : Conn} (sent : conn.output = []) : conn.flush.db = conn.db := by
  unfold Conn.flush
  rw [sent]
  rfl

theorem readReplies_db {count : Nat} {conn last : Conn} (sent : conn.output = [])
    (done : readReplies count conn = (0, last)) : last.db = conn.db := by
  induction count generalizing conn with
  | zero =>
      cases done
      rfl
  | succ count inductionHypothesis =>
      unfold readReplies at done
      split at done
      · cases done
      · rename_i next got
        obtain ⟨same, nextSent⟩ := redisGetReply_db got
        rw [inductionHypothesis nextSent done, same, flush_of_sent sent]

/-- The first read sends all commands. -/
theorem readReplies_flush {count : Nat} {conn last : Conn} (positive : 0 < count)
    (done : readReplies count conn = (0, last)) : last.db = conn.flush.db := by
  cases count with
  | zero => cases positive
  | succ count =>
      unfold readReplies at done
      split at done
      · cases done
      · rename_i next got
        obtain ⟨same, nextSent⟩ := redisGetReply_db got
        rw [readReplies_db nextSent done, same]

theorem execAll_length (commands : List (List Bytes)) (db : Db) :
    (execAll commands db).1.length = commands.length := by
  induction commands generalizing db with
  | nil => rfl
  | cons command commands inductionHypothesis =>
      exact congrArg (· + 1) (inductionHypothesis (exec command db).2)

theorem readReplies_runs {count : Nat} {conn : Conn} (linked : ∀ read, conn.link read = true)
    (enough : count ≤ conn.flush.replies.length) :
    ∃ last, readReplies count conn = (0, last) := by
  induction count generalizing conn with
  | zero => exact ⟨conn, rfl⟩
  | succ count inductionHypothesis =>
      unfold readReplies redisGetReply
      rw [linked 0, if_neg (by decide)]
      cases got : conn.flush.replies with
      | nil =>
          rw [got] at enough
          cases enough
      | cons reply replies =>
          rw [got] at enough
          apply inductionHypothesis
          · exact fun read => linked (read + 1)
          · show count ≤ (replies ++ []).length
            rw [List.append_nil]
            exact Nat.le_of_succ_le_succ enough

/-- The fields are set from left to right. -/
theorem execAll_hset {db : Db} {name : Bytes} {values : Bytes → Option Bytes} {rows : List Row}
    (nonempty : rows ≠ []) (hash : hashAt (db name) = some values) :
    (execAll (rows.map (hsetCommand name)) db).2 name =
      some (.hash (assign values (rows.map rowPair))) := by
  induction rows generalizing db values with
  | nil => exact absurd rfl nonempty
  | cons row rows inductionHypothesis =>
      have filled := (@exec_fill db (lit "hset") name [row.field.val, row.value.val] values
        (Or.inl rfl) (List.cons_ne_nil _ _) (Nat.mod_self 2) hash).1
      have here : (exec (hsetCommand name row) db).2 name =
          some (.hash (assign values [rowPair row])) := by
        unfold hsetCommand
        rw [filled, Function.update_self]
        rfl
      cases rows with
      | nil => exact here
      | cons next rows =>
          exact inductionHypothesis (List.cons_ne_nil _ _) (congrArg hashAt here)

include holds in
theorem append_ok {rows : List Row} {link : Nat → Bool} {appended : Conn} (nonempty : rows ≠ [])
    (done : ropHashSetAppend client (.fresh db link) key rows = .ok (0, appended)) :
    appended.db = (execAll (rows.map (hsetCommand name)) db).2 := by
  unfold ropHashSetAppend at done
  rw [queueRows_eq holds, ok_bind] at done
  have read := readReplies_flush (List.length_pos_iff.mpr nonempty) (Except.ok.inj done)
  rw [read]
  rfl

include holds in
theorem append_runs (db : Db) (rows : List Row) :
    ∃ appended, ropHashSetAppend client (.fresh db fun _ => true) key rows = .ok (0, appended) := by
  unfold ropHashSetAppend
  rw [queueRows_eq holds, ok_bind]
  have enough : rows.length ≤
      (Conn.flush ⟨db, [] ++ rows.map (hsetCommand name), [], fun _ => true⟩).replies.length := by
    unfold Conn.flush
    simp only [List.nil_append, execAll_length, List.length_map]
    exact le_rfl
  obtain ⟨last, read⟩ := readReplies_runs (fun _ => rfl) enough
  exact ⟨last, congrArg Except.ok read⟩

end Append

/-! ## When the two agree -/

/-- Whenever both succeed from the same state, they leave the same hash. -/
def Agree (key name : Bytes) (rows : List Row) : Prop :=
  ∀ (client : Client) (heap : Heap) (db : Db) (createLink appendLink : Nat → Bool)
    (created appended : Conn),
    ropCreateOrReplaceHashTable client heap (.fresh db createLink) key rows = .ok (0, created) →
      ropHashSetAppend client (.fresh db appendLink) key rows = .ok (0, appended) →
        created.db name = appended.db name

/-- What the command text is cut into, behind its first word. -/
def argumentWords (name : Bytes) (rows : List Row) : List Bytes :=
  (commandTexts name rows).flatMap (words 32)

/-- `HMSET` refuses to set no field, or a field without a value. -/
def Refused (arguments : List Bytes) : Prop := arguments.length < 3 ∨ arguments.length % 2 = 0

def rowWords (rows : List Row) : List Bytes := (rows.flatMap rowTexts).flatMap (words 32)

/-- Nothing in the text is read as a conversion, and its words are refused or
give every field the value the arrays give it. -/
structure Tame (name : Bytes) (rows : List Row) : Prop where
  noPercent : 37 ∉ hmsetText name rows
  sameValues : Refused (argumentWords name rows) ∨ (IsWord 32 name ∧
    ∀ field, lastValue (pairUp (rowWords rows)) field = lastValue (rows.map rowPair) field)

theorem words_hmsetText (name : Bytes) (rows : List Row) :
    words 32 (hmsetText name rows) = lit "hmset" :: argumentWords name rows := by
  have first : words 32 (lit "hmset") = [lit "hmset"] := words_of_isWord (by decide)
  unfold hmsetText argumentWords
  rw [words_append_pieces, first, List.singleton_append]

theorem argumentWords_of_isWord {name : Bytes} (word : IsWord 32 name) (rows : List Row) :
    argumentWords name rows = name :: rowWords rows := by
  unfold argumentWords commandTexts rowWords
  rw [List.flatMap_cons, words_of_isWord word, List.singleton_append]

theorem rowWords_of_words {rows : List Row}
    (plain : ∀ row ∈ rows, IsWord 32 row.field.val ∧ IsWord 32 row.value.val) :
    pairUp (rowWords rows) = rows.map rowPair := by
  have texts : rowWords rows = rows.flatMap rowTexts := by
    unfold rowWords
    rw [List.flatMap_assoc]
    apply List.flatMap_congr
    intro row member
    obtain ⟨fieldWord, valueWord⟩ := plain row member
    simp [rowTexts, words_of_isWord fieldWord, words_of_isWord valueWord]
  rw [texts]
  exact pairUp_flatMap rows _ _

/-- With distinct fields no value may be shifted, not even for a while. -/
theorem sameValues_iff {rows : List Row} (distinct : (rows.map fun row => row.field.val).Nodup) :
    (∀ field, lastValue (pairUp (rowWords rows)) field = lastValue (rows.map rowPair) field) ↔
      ∀ row ∈ rows, IsWord 32 row.field.val ∧ IsWord 32 row.value.val := by
  constructor
  · intro same row member
    have names : ((rows.map rowPair).map Prod.fst).Nodup := by
      rw [List.map_map]
      exact distinct
    have given := lastValue_of_mem names (List.mem_map_of_mem member)
    rw [← same] at given
    obtain ⟨inWords, valueInWords⟩ := mem_of_mem_pairUp (mem_of_lastValue given)
    obtain ⟨text, -, fieldWord⟩ := List.mem_flatMap.mp inWords
    obtain ⟨text', -, valueWord⟩ := List.mem_flatMap.mp valueInWords
    exact ⟨isWord_of_mem_words fieldWord, isWord_of_mem_words valueWord⟩
  · intro plain field
    rw [rowWords_of_words plain]

section Agreement

variable {key name : Bytes} {rows : List Row} (holds : strAt key 0 = .ok name)
variable (short : name.length ≤ 200) (fits : (hmsetText name rows).length < startSize)
variable (nonempty : rows ≠ [])

include holds short fits nonempty in
theorem agree_of_tame (tame : Tame name rows) : Agree key name rows := by
  intro client heap db createLink appendLink created appended createDone appendDone
  obtain ⟨command, understood, answered, createdDb⟩ := create_ok holds short fits createDone
  rw [client.words_of_plain _ tame.noPercent, words_hmsetText] at understood
  rw [← Option.some.inj understood] at answered createdDb
  obtain ⟨first, rest, values, split, some_, even, hash⟩ := exec_ok answered
  have accepted : ¬ Refused (argumentWords name rows) := by
    have positive := List.length_pos_iff.mpr some_
    unfold Refused
    rw [split, List.length_cons]
    omega
  obtain ⟨word, same⟩ := tame.sameValues.resolve_left accepted
  rw [argumentWords_of_isWord word] at split createdDb
  obtain ⟨rfl, rfl⟩ := List.cons.inj split
  rw [createdDb, (exec_fill (Or.inr rfl) some_ even hash).1, Function.update_self,
    append_ok holds nonempty appendDone, execAll_hset nonempty hash, assign_congr same]

/-- An allocator without limits. -/
theorem padded_length (old : Bytes) (size : Nat) : ((old ++ zeros size).take size).length = size := by
  rw [List.length_take, List.length_append, zeros_length]
  omega

theorem padded_front (old : Bytes) (size : Nat) : old.take size <+: (old ++ zeros size).take size :=
  (List.prefix_append old _).take size

def plenty : Heap where
  malloc size := some ⟨zeros size, zeros_length size⟩
  realloc old size := some ⟨⟨(old ++ zeros size).take size, padded_length old size⟩,
    padded_front old size⟩

theorem plenty_steady : Heap.Steady plenty :=
  ⟨fun _ => Option.some_ne_none _, fun _ _ => Option.some_ne_none _⟩

/-- hiredis with some reading of the formats that have a `'%'`. -/
def readFormat (reading : List Bytes) (format : Bytes) : List Bytes → Option (List Bytes)
  | [] => if 37 ∈ format then some reading else some (words 32 format)
  | [key, field, value] =>
      if format = lit "hset %s %s %s" then some [lit "hset", key, field, value] else none
  | _ => none

theorem readFormat_plain (reading : List Bytes) (format : Bytes) (plain : 37 ∉ format) :
    readFormat reading format [] = some (words 32 format) := if_neg plain

theorem readFormat_whole (reading : List Bytes) (key field value : Bytes) :
    readFormat reading (lit "hset %s %s %s") [key, field, value] =
      some [lit "hset", key, field, value] := by
  rw [readFormat, if_pos rfl]

def reader (reading : List Bytes) : Client :=
  ⟨readFormat reading, readFormat_plain reading, readFormat_whole reading⟩

include holds short fits nonempty in
/-- From an empty database the two show what the command was cut into. -/
theorem agree_at_empty (agree : Agree key name rows) {client : Client} {first : Bytes}
    {rest : List Bytes} (some_ : rest ≠ []) (even : rest.length % 2 = 0)
    (understood : client.command (hmsetText name rows) [] = some (lit "hmset" :: first :: rest)) :
    first = name ∧ ∀ field,
      lastValue (pairUp rest) field = lastValue (rows.map rowPair) field := by
  have hash : ∀ other, hashAt (emptyDb other) = some fun _ => none := fun _ => rfl
  obtain ⟨filled, replied⟩ := exec_fill (Or.inr rfl) some_ even (hash first)
  have answered : (exec (lit "hmset" :: first :: rest) emptyDb).1.str = some (lit "OK") := by
    rw [replied rfl]
    rfl
  obtain ⟨created, createDone, createdDb⟩ := @create_runs client plenty emptyDb (fun _ => true) _ _ _
    holds short fits plenty_steady rfl _ understood answered
  obtain ⟨appended, appendDone⟩ := @append_runs client _ _ holds emptyDb rows
  have same := agree client plenty emptyDb _ _ created appended createDone appendDone
  rw [createdDb, filled, append_ok holds nonempty appendDone,
    execAll_hset nonempty (hash name)] at same
  by_cases isKey : name = first
  · rw [isKey, Function.update_self] at same
    exact ⟨isKey.symm, fun field => congrFun (Entry.hash.inj (Option.some.inj same)) field⟩
  · rw [Function.update_of_ne isKey] at same
    cases same

include holds short fits nonempty in
theorem tame_of_agree (agree : Agree key name rows) : Tame name rows := by
  have noPercent : 37 ∉ hmsetText name rows := by
    intro percent
    have understood : (reader [lit "hmset", name ++ [1], lit "f", lit "v"]).command
        (hmsetText name rows) [] = some [lit "hmset", name ++ [1], lit "f", lit "v"] :=
      if_pos percent
    have even : [lit "f", lit "v"].length % 2 = 0 := Nat.mod_self 2
    have other := (agree_at_empty holds short fits nonempty agree (List.cons_ne_nil _ _) even
      understood).1
    have lengths := congrArg List.length other
    rw [List.length_append, List.length_singleton] at lengths
    omega
  refine ⟨noPercent, ?_⟩
  by_cases refused : Refused (argumentWords name rows)
  · exact Or.inl refused
  · right
    obtain ⟨large, odd⟩ := not_or.mp refused
    cases split : argumentWords name rows with
    | nil =>
        rw [split] at large
        exact absurd (by decide) large
    | cons first rest =>
        have understood : (reader []).command (hmsetText name rows) [] =
            some (lit "hmset" :: first :: rest) := by
          rw [(reader []).words_of_plain _ noPercent, words_hmsetText, split]
        rw [split, List.length_cons] at large odd
        have some_ : rest ≠ [] := by
          intro empty
          rw [empty] at large
          exact large (by decide)
        obtain ⟨same, values⟩ := agree_at_empty holds short fits nonempty agree some_
          (by omega) understood
        have member : first ∈ argumentWords name rows := split ▸ List.mem_cons_self
        obtain ⟨text, -, isFirst⟩ := List.mem_flatMap.mp member
        have word : IsWord 32 name := same ▸ isWord_of_mem_words isFirst
        rw [argumentWords_of_isWord word] at split
        rw [(List.cons.inj split).2]
        exact ⟨word, values⟩

/-- The two agree exactly on tame contents; with distinct fields these are the
ones whose texts are words or come out as an odd number of words. -/
theorem agree_iff (holds : strAt key 0 = .ok name) (short : name.length ≤ 200)
    (fits : (hmsetText name rows).length < startSize) (nonempty : rows ≠ []) :
    (Agree key name rows ↔ Tame name rows) ∧
      ((rows.map fun row => row.field.val).Nodup → (Tame name rows ↔
        37 ∉ hmsetText name rows ∧ (Refused (argumentWords name rows) ∨ (IsWord 32 name ∧
          ∀ row ∈ rows, IsWord 32 row.field.val ∧ IsWord 32 row.value.val)))) := by
  refine ⟨⟨tame_of_agree holds short fits nonempty, agree_of_tame holds short fits nonempty⟩, ?_⟩
  intro distinct
  rw [← sameValues_iff distinct]
  exact ⟨fun tame => ⟨tame.noPercent, tame.sameValues⟩, fun both => ⟨both.1, both.2⟩⟩

end Agreement

theorem cText_fits (size : Nat) (text : Bytes) :
    0 ∉ (text.takeWhile (· ≠ 0)).take (size - 1) ∧
      ((text.takeWhile (· ≠ 0)).take (size - 1)).length ≤ size - 1 := by
  refine ⟨?_, List.length_take_le _ _⟩
  intro member
  have nonzero := List.mem_takeWhile_imp (List.mem_of_mem_take member)
  exact absurd rfl (of_decide_eq_true nonzero)

/-- An array entry with a text in it. -/
def cText (size : Nat) (text : Bytes) : CText size :=
  ⟨(text.takeWhile (· ≠ 0)).take (size - 1), cText_fits size text⟩

def rowOf (field value : Bytes) : Row := ⟨cText fieldIdSize field, cText valuesIdSize value⟩

theorem agree_iff_words :
    (Agree (lit "k" ++ [0]) (lit "k") [rowOf (lit "f") (lit "v")] ↔
        Tame (lit "k") [rowOf (lit "f") (lit "v")]) ∧
      (([rowOf (lit "f") (lit "v")].map fun row => row.field.val).Nodup →
        (Tame (lit "k") [rowOf (lit "f") (lit "v")] ↔
          37 ∉ hmsetText (lit "k") [rowOf (lit "f") (lit "v")] ∧
            (Refused (argumentWords (lit "k") [rowOf (lit "f") (lit "v")]) ∨ (IsWord 32 (lit "k") ∧
              ∀ row ∈ [rowOf (lit "f") (lit "v")],
                IsWord 32 row.field.val ∧ IsWord 32 row.value.val)))) :=
  agree_iff (by decide) (by decide) (by decide) (by decide)

/-- `"a b c"` becomes the value `"a"` and the further field `"b"`. -/
theorem not_agree_blanks :
    ¬ Agree (lit "k" ++ [0]) (lit "k") [rowOf (lit "f") (lit "a b c")] := by
  intro agree
  have tame := tame_of_agree (by decide) (by decide) (by decide) (by decide) agree
  have accepted : ¬ Refused (argumentWords (lit "k") [rowOf (lit "f") (lit "a b c")]) := by
    unfold Refused
    decide
  have same := (tame.sameValues.resolve_left accepted).2 (lit "f")
  revert same
  decide

end DistStore.HashFill

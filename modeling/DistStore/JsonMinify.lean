import DistStore.JsonRoundTrip
import DistStore.JsonSafety

/-!
# Minifying

`cJSON_Minify` rewrites a text in its own block: what is kept moves down to
`into`, and `json` reads ahead of it.  What it keeps is given by a relation on
texts that knows nothing of the block, and the loop is shown to do that in
place.
-/

set_option autoImplicit false

namespace DistStore.JsonMinify

open CMemory JsonPrint JsonTree JsonParse JsonScalars

/-- The block: up to `into`, from there to `json`, and from `json` on. -/
structure Place where
  done : Bytes
  gap : Bytes
  json : Bytes
  deriving DecidableEq, Repr

/-- What lies between `into` and `json` when a byte has been copied. -/
def shift (gap : Bytes) (byte : Byte) : Bytes := (gap ++ [byte]).tail

/-- `json++`. -/
def pass : Place → Parser Place
  | ⟨_, _, []⟩ => .error (.fault .readOutside)
  | ⟨done, gap, byte :: rest⟩ => .ok ⟨done, gap ++ [byte], rest⟩

/-- `*into++=*json++`. -/
def copy : Place → Parser Place
  | ⟨_, _, []⟩ => .error (.fault .readOutside)
  | ⟨done, gap, byte :: rest⟩ => .ok ⟨done ++ [byte], shift gap byte, rest⟩

/-- `while (*json && *json!='\n') json++`. -/
def lineLoop (done gap : Bytes) : Bytes → Parser Place
  | [] => .error (.fault .readOutside)
  | byte :: rest =>
      if byte ≠ 0 ∧ byte ≠ 10 then lineLoop done (gap ++ [byte]) rest
      else .ok ⟨done, gap, byte :: rest⟩

/-- `while (*json && !(*json=='*' && json[1]=='/')) json++`. -/
def commentLoop (done gap : Bytes) : Bytes → Parser Place
  | [] => .error (.fault .readOutside)
  | byte :: rest =>
      if byte = 0 then .ok ⟨done, gap, byte :: rest⟩
      else if byte = 42 then do
        let next ← here rest
        if next = 47 then return ⟨done, gap, byte :: rest⟩
        commentLoop done (gap ++ [byte]) rest
      else commentLoop done (gap ++ [byte]) rest

/-- The loop over a string; the byte behind a backslash is copied whatever it
is. -/
def stringLoop (done gap : Bytes) : Bool → Bytes → Parser Place
  | _, [] => .error (.fault .readOutside)
  | true, byte :: rest => stringLoop (done ++ [byte]) (shift gap byte) false rest
  | false, byte :: rest =>
      if byte ≠ 0 ∧ byte ≠ 34 then stringLoop (done ++ [byte]) (shift gap byte) (byte = 92) rest
      else .ok ⟨done, gap, byte :: rest⟩

/-- `fuel` bounds the rounds of the loop. -/
def minifyLoop : Nat → Place → Parser Place
  | 0, _ => .error .fuel
  | fuel + 1, place => do
      let byte ← here place.json
      if byte = 0 then return place
      else if byte = 32 ∨ byte = 9 ∨ byte = 13 ∨ byte = 10 then minifyLoop fuel (← pass place)
      else if byte = 47 then
        let next ← here place.json.tail
        if next = 47 then minifyLoop fuel (← lineLoop place.done place.gap place.json)
        else if next = 42 then
          let place ← commentLoop place.done place.gap place.json
          let place ← pass place
          minifyLoop fuel (← pass place)
        else minifyLoop fuel (← copy place)
      else if byte = 34 then
        let place ← copy place
        let place ← stringLoop place.done place.gap false place.json
        minifyLoop fuel (← copy place)
      else minifyLoop fuel (← copy place)

/-- `cJSON_Minify`: the block afterwards. -/
def cJsonMinify (json : Bytes) : Parser Bytes := do
  let place ← minifyLoop (json.length + 1) ⟨[], [], json⟩
  return place.done ++ 0 :: (place.gap ++ place.json).tail


/-! ## What is kept -/

/-- A space, a tab, a carriage return or a line feed. -/
def Blank (byte : Byte) : Prop := byte = 32 ∨ byte = 9 ∨ byte = 13 ∨ byte = 10

/-- A byte that is kept wherever it stands. -/
def Kept (byte : Byte) : Prop := byte ≠ 0 ∧ ¬ Blank byte ∧ byte ≠ 47 ∧ byte ≠ 34

instance (byte : Byte) : Decidable (Blank byte) := by
  unfold Blank
  infer_instance

instance (byte : Byte) : Decidable (Kept byte) := by
  unfold Kept
  infer_instance

/-- Inside of a string: bytes and escaped bytes. -/
inductive Quoted : Bytes → Prop where
  | nil : Quoted []
  | plain {byte : Byte} {rest : Bytes} (literally : JsonSafety.Literally byte) (quoted : Quoted rest) :
      Quoted (byte :: rest)
  | pair (letter : Byte) {rest : Bytes} (quoted : Quoted rest) : Quoted (92 :: letter :: rest)

/-- From behind the first slash of a comment up to behind the last one.  A
comment that is not closed runs on behind the NUL. -/
inductive Comment : Bytes → Bytes → Prop where
  | closed (rest : Bytes) : Comment (42 :: 47 :: rest) rest
  | open_ (byte : Byte) (rest : Bytes) : Comment (0 :: byte :: rest) rest
  | star {byte : Byte} {rest last : Bytes} (notSlash : byte ≠ 47) (later : Comment (byte :: rest) last) :
      Comment (42 :: byte :: rest) last
  | other {byte : Byte} {rest last : Bytes} (nonzero : byte ≠ 0) (notStar : byte ≠ 42)
      (later : Comment rest last) : Comment (byte :: rest) last

/-- Reading from one text up to another one keeps these bytes. -/
inductive Passes : Bytes → Bytes → Bytes → Prop where
  | refl (text : Bytes) : Passes text [] text
  | blank {byte : Byte} {rest kept last : Bytes} (blank : Blank byte) (later : Passes rest kept last) :
      Passes (byte :: rest) kept last
  | line {comment : Bytes} {stop : Byte} {rest kept last : Bytes}
      (inside : ∀ byte ∈ comment, byte ≠ 0 ∧ byte ≠ 10) (ends : stop = 0 ∨ stop = 10)
      (later : Passes (stop :: rest) kept last) :
      Passes (47 :: 47 :: (comment ++ stop :: rest)) kept last
  | comment {text rest kept last : Bytes} (comment : Comment (42 :: text) rest)
      (later : Passes rest kept last) : Passes (47 :: 42 :: text) kept last
  | slash {byte : Byte} {rest kept last : Bytes} (noComment : byte ≠ 47 ∧ byte ≠ 42)
      (later : Passes (byte :: rest) kept last) : Passes (47 :: byte :: rest) (47 :: kept) last
  | string {body : Bytes} {stop : Byte} {rest kept last : Bytes} (quoted : Quoted body)
      (ends : stop = 34 ∨ stop = 0) (later : Passes rest kept last) :
      Passes (34 :: (body ++ stop :: rest)) (34 :: (body ++ stop :: kept)) last
  | other {byte : Byte} {rest kept last : Bytes} (isKept : Kept byte) (later : Passes rest kept last) :
      Passes (byte :: rest) (byte :: kept) last

theorem Passes.trans {text middle last first second : Bytes} (passes : Passes text first middle)
    (later : Passes middle second last) : Passes text (first ++ second) last := by
  induction passes with
  | refl => exact later
  | blank blank _ inductionHypothesis => exact .blank blank (inductionHypothesis later)
  | line inside ends _ inductionHypothesis => exact .line inside ends (inductionHypothesis later)
  | comment comment _ inductionHypothesis => exact .comment comment (inductionHypothesis later)
  | slash noComment _ inductionHypothesis => exact .slash noComment (inductionHypothesis later)
  | string quoted ends _ inductionHypothesis =>
      rw [List.cons_append, List.append_assoc]
      exact .string quoted ends (inductionHypothesis later)
  | other isKept _ inductionHypothesis => exact .other isKept (inductionHypothesis later)

/-! ## In place -/

/-- The bytes from `into` on are those of the text, and those before it are
what has been kept. -/
def Place.Of (place : Place) (text done : Bytes) : Prop :=
  place.done = done ∧ place.gap ++ place.json = text.drop done.length

theorem shift_append (gap rest : Bytes) (byte : Byte) :
    shift gap byte ++ rest = (gap ++ byte :: rest).tail := by
  unfold shift
  cases gap with
  | nil => rfl
  | cons first gap => simp

theorem of_pass {text done gap rest : Bytes} {byte : Byte}
    (of : Place.Of ⟨done, gap, byte :: rest⟩ text done) :
    Place.Of ⟨done, gap ++ [byte], rest⟩ text done := by
  refine ⟨rfl, ?_⟩
  rw [← of.2, List.append_assoc, List.singleton_append]

theorem of_copy {text done gap rest : Bytes} {byte : Byte}
    (of : Place.Of ⟨done, gap, byte :: rest⟩ text done) :
    Place.Of ⟨done ++ [byte], shift gap byte, rest⟩ text (done ++ [byte]) := by
  refine ⟨rfl, ?_⟩
  show shift gap byte ++ rest = _
  rw [shift_append, show gap ++ byte :: rest = text.drop done.length from of.2, List.tail_drop,
    List.length_append, List.length_singleton]

theorem lineLoop_eq {comment : Bytes} (inside : ∀ byte ∈ comment, byte ≠ 0 ∧ byte ≠ 10) {stop : Byte}
    (ends : stop = 0 ∨ stop = 10) (done gap rest : Bytes) :
    lineLoop done gap (comment ++ stop :: rest) = .ok ⟨done, gap ++ comment, stop :: rest⟩ := by
  induction comment generalizing gap with
  | nil =>
      have out : ¬ (stop ≠ 0 ∧ stop ≠ 10) := fun both => ends.elim both.1 both.2
      rw [List.nil_append, lineLoop, if_neg out, List.append_nil]
  | cons byte comment inductionHypothesis =>
      rw [List.forall_mem_cons] at inside
      rw [List.cons_append, lineLoop, if_pos inside.1, inductionHypothesis inside.2, List.append_assoc,
        List.singleton_append]

theorem commentLoop_eq {text last : Bytes} (comment : Comment text last) (done gap : Bytes) :
    ∃ skipped first second, text = skipped ++ first :: second :: last ∧
      commentLoop done gap text = .ok ⟨done, gap ++ skipped, first :: second :: last⟩ := by
  induction comment generalizing gap with
  | closed rest =>
      refine ⟨[], 42, 47, rfl, ?_⟩
      rw [commentLoop, if_neg (by decide), if_pos rfl, here_cons, found_bind, if_pos rfl, List.append_nil]
      rfl
  | open_ byte rest =>
      refine ⟨[], 0, byte, rfl, ?_⟩
      rw [commentLoop, if_pos rfl, List.append_nil]
  | @star byte rest last notSlash later inductionHypothesis =>
      obtain ⟨skipped, first, second, shape, looped⟩ := inductionHypothesis (gap ++ [42])
      refine ⟨42 :: skipped, first, second, by rw [shape, List.cons_append], ?_⟩
      rw [commentLoop, if_neg (by decide), if_pos rfl, here_cons, found_bind, if_neg notSlash, looped,
        List.append_assoc, List.singleton_append]
  | @other byte rest last nonzero notStar later inductionHypothesis =>
      obtain ⟨skipped, first, second, shape, looped⟩ := inductionHypothesis (gap ++ [byte])
      refine ⟨byte :: skipped, first, second, by rw [shape, List.cons_append], ?_⟩
      rw [commentLoop, if_neg nonzero, if_neg notStar, looped, List.append_assoc,
        List.singleton_append]

theorem stringLoop_eq {body : Bytes} (quoted : Quoted body) {stop : Byte} (ends : stop = 34 ∨ stop = 0)
    {whole done gap rest : Bytes} (of : Place.Of ⟨done, gap, body ++ stop :: rest⟩ whole done) :
    ∃ gap', stringLoop done gap false (body ++ stop :: rest) = .ok ⟨done ++ body, gap', stop :: rest⟩ ∧
      Place.Of ⟨done ++ body, gap', stop :: rest⟩ whole (done ++ body) := by
  induction quoted generalizing done gap with
  | nil =>
      have out : ¬ (stop ≠ 0 ∧ stop ≠ 34) := fun both => ends.elim both.2 both.1
      rw [List.nil_append] at of ⊢
      rw [List.append_nil]
      refine ⟨gap, ?_, of⟩
      rw [stringLoop, if_neg out]
  | @plain byte body literally _ inductionHypothesis =>
      obtain ⟨gap', looped, later⟩ := inductionHypothesis (of_copy of)
      rw [List.append_assoc, List.singleton_append] at looped later
      refine ⟨gap', ?_, later⟩
      rw [List.cons_append, stringLoop, if_pos ⟨literally.1, literally.2.1⟩,
        decide_eq_false literally.2.2, looped]
  | @pair letter body _ inductionHypothesis =>
      have moved := of_copy (of_copy of)
      rw [List.append_assoc, List.singleton_append] at moved
      obtain ⟨gap', looped, later⟩ := inductionHypothesis moved
      rw [List.append_assoc, List.cons_append, List.singleton_append] at looped later
      refine ⟨gap', ?_, later⟩
      rw [List.cons_append, List.cons_append, stringLoop, if_pos (by decide), decide_eq_true rfl,
        stringLoop, List.append_assoc, List.singleton_append]
      exact looped

section Rounds

variable (fuel : Nat) (done gap : Bytes)

theorem minifyLoop_blank {byte : Byte} (blank : Blank byte) (rest : Bytes) :
    minifyLoop (fuel + 1) ⟨done, gap, byte :: rest⟩ = minifyLoop fuel ⟨done, gap ++ [byte], rest⟩ := by
  have nonzero : byte ≠ 0 := by
    rintro rfl
    revert blank
    decide
  unfold Blank at blank
  rw [minifyLoop, here_cons, found_bind, if_neg nonzero, if_pos blank]
  rfl

theorem minifyLoop_line (rest : Bytes) :
    minifyLoop (fuel + 1) ⟨done, gap, 47 :: 47 :: rest⟩ =
      (lineLoop done gap (47 :: 47 :: rest)) >>= minifyLoop fuel := by
  rw [minifyLoop, here_cons, found_bind, if_neg (by decide), if_neg (by decide), if_pos rfl]
  rfl

theorem minifyLoop_comment (rest : Bytes) :
    minifyLoop (fuel + 1) ⟨done, gap, 47 :: 42 :: rest⟩ =
      (commentLoop done gap (47 :: 42 :: rest)) >>= fun place => pass place >>= fun place =>
        pass place >>= minifyLoop fuel := by
  rw [minifyLoop, here_cons, found_bind, if_neg (by decide), if_neg (by decide), if_pos rfl]
  rfl

theorem minifyLoop_slash {byte : Byte} (noComment : byte ≠ 47 ∧ byte ≠ 42) (rest : Bytes) :
    minifyLoop (fuel + 1) ⟨done, gap, 47 :: byte :: rest⟩ =
      minifyLoop fuel ⟨done ++ [47], shift gap 47, byte :: rest⟩ := by
  rw [minifyLoop, here_cons, found_bind, if_neg (by decide), if_neg (by decide), if_pos rfl,
    List.tail_cons, here_cons, found_bind, if_neg noComment.1, if_neg noComment.2]
  rfl

theorem minifyLoop_string (rest : Bytes) :
    minifyLoop (fuel + 1) ⟨done, gap, 34 :: rest⟩ =
      (stringLoop (done ++ [34]) (shift gap 34) false rest) >>= fun place =>
        copy place >>= minifyLoop fuel := by
  rw [minifyLoop, here_cons, found_bind, if_neg (by decide), if_neg (by decide), if_neg (by decide),
    if_pos rfl]
  rfl

theorem minifyLoop_other {byte : Byte} (kept : Kept byte) (rest : Bytes) :
    minifyLoop (fuel + 1) ⟨done, gap, byte :: rest⟩ =
      minifyLoop fuel ⟨done ++ [byte], shift gap byte, rest⟩ := by
  obtain ⟨nonzero, visible, slash, quote⟩ := kept
  unfold Blank at visible
  rw [minifyLoop, here_cons, found_bind, if_neg nonzero, if_neg visible, if_neg slash, if_neg quote]
  rfl

end Rounds

/-- What is kept is left in the block, and what lies behind it is what lay there
before. -/
theorem minifyLoop_passes {text kept last slack : Bytes} (passes : Passes text kept last)
    (ends : last = 0 :: slack) {whole done gap : Bytes} (of : Place.Of ⟨done, gap, text⟩ whole done)
    {fuel : Nat} (enough : text.length < fuel) :
    ∃ gap', minifyLoop fuel ⟨done, gap, text⟩ = .ok ⟨done ++ kept, gap', 0 :: slack⟩ ∧
      Place.Of ⟨done ++ kept, gap', 0 :: slack⟩ whole (done ++ kept) := by
  obtain ⟨more, rfl⟩ := Nat.exists_eq_add_one_of_ne_zero (Nat.ne_zero_of_lt enough)
  induction passes generalizing done gap more with
  | refl text =>
      subst ends
      rw [List.append_nil]
      exact ⟨gap, rfl, of⟩
  | @blank byte rest kept last blank _ inductionHypothesis =>
      rw [minifyLoop_blank more done gap blank]
      rw [List.length_cons] at enough
      obtain ⟨less, rfl⟩ := Nat.exists_eq_add_one_of_ne_zero (show more ≠ 0 by omega)
      exact inductionHypothesis ends (of_pass of) less (by omega)
  | @line comment stop rest kept last inside stops _ inductionHypothesis =>
      have skipped : ∀ byte ∈ 47 :: 47 :: comment, byte ≠ 0 ∧ byte ≠ 10 := by simpa using inside
      have looped := lineLoop_eq skipped stops done gap rest
      have moved : Place.Of ⟨done, gap ++ 47 :: 47 :: comment, stop :: rest⟩ whole done := by
        refine ⟨rfl, ?_⟩
        rw [← of.2]
        simp
      rw [minifyLoop_line]
      rw [List.cons_append, List.cons_append] at looped
      rw [looped, found_bind]
      simp only [List.length_cons, List.length_append] at enough inductionHypothesis
      obtain ⟨less, rfl⟩ := Nat.exists_eq_add_one_of_ne_zero (show more ≠ 0 by omega)
      exact inductionHypothesis ends moved less (by omega)
  | @comment text rest kept last comment _ inductionHypothesis =>
      obtain ⟨skipped, first, second, shape, looped⟩ :=
        commentLoop_eq (.other (by decide) (by decide) comment : Comment (47 :: 42 :: text) rest) done gap
      rw [minifyLoop_comment, looped, found_bind]
      simp only [pass, found_bind]
      have moved : Place.Of ⟨done, gap ++ skipped ++ [first] ++ [second], rest⟩ whole done := by
        refine ⟨rfl, ?_⟩
        rw [← of.2]
        simp [shape]
      have sizes := congrArg List.length shape
      simp only [List.length_cons, List.length_append] at enough sizes
      obtain ⟨less, rfl⟩ := Nat.exists_eq_add_one_of_ne_zero (show more ≠ 0 by omega)
      exact inductionHypothesis ends moved less (by omega)
  | @slash byte rest kept last noComment _ inductionHypothesis =>
      rw [minifyLoop_slash more done gap noComment]
      rw [List.length_cons] at enough
      obtain ⟨less, rfl⟩ := Nat.exists_eq_add_one_of_ne_zero (show more ≠ 0 by omega)
      have later := inductionHypothesis ends (of_copy of) less (by omega)
      rwa [List.append_assoc, List.singleton_append] at later
  | @string body stop rest kept last quoted stops _ inductionHypothesis =>
      obtain ⟨gap', looped, moved⟩ := stringLoop_eq quoted stops (of_copy of)
      rw [minifyLoop_string, looped, found_bind]
      simp only [copy, found_bind]
      simp only [List.length_cons, List.length_append] at enough
      obtain ⟨less, rfl⟩ := Nat.exists_eq_add_one_of_ne_zero (show more ≠ 0 by omega)
      have later := inductionHypothesis ends (of_copy moved) less (by omega)
      simpa using later
  | @other byte rest kept last isKept _ inductionHypothesis =>
      rw [minifyLoop_other more done gap isKept]
      rw [List.length_cons] at enough
      obtain ⟨less, rfl⟩ := Nat.exists_eq_add_one_of_ne_zero (show more ≠ 0 by omega)
      have later := inductionHypothesis ends (of_copy of) less (by omega)
      rwa [List.append_assoc, List.singleton_append] at later

/-! ## Where a text has no end -/

theorem lineLoop_cases (text : Bytes) :
    (∃ comment stop rest, text = comment ++ stop :: rest ∧
      (∀ byte ∈ comment, byte ≠ 0 ∧ byte ≠ 10) ∧ (stop = 0 ∨ stop = 10)) ∨
    ∀ done gap, lineLoop done gap text = .error (.fault .readOutside) := by
  induction text with
  | nil => exact Or.inr fun done gap => rfl
  | cons byte rest inductionHypothesis =>
      by_cases inside : byte ≠ 0 ∧ byte ≠ 10
      · rcases inductionHypothesis with ⟨comment, stop, rest, rfl, others, ends⟩ | faults
        · exact Or.inl ⟨byte :: comment, stop, rest, rfl, List.forall_mem_cons.mpr ⟨inside, others⟩, ends⟩
        · refine Or.inr fun done gap => ?_
          rw [lineLoop, if_pos inside, faults]
      · refine Or.inl ⟨[], byte, rest, rfl, List.forall_mem_nil _, ?_⟩
        rwa [not_and_or, not_not, not_not] at inside

theorem commentLoop_cases (text : Bytes) :
    (∃ last, Comment text last) ∨
    ∀ done gap next, (commentLoop done gap text >>= fun place => pass place >>= fun place =>
      pass place >>= next) = (.error (.fault .readOutside) : Parser Place) := by
  induction text with
  | nil => exact Or.inr fun done gap next => rfl
  | cons byte rest inductionHypothesis =>
      by_cases nul : byte = 0
      · subst nul
        cases rest with
        | nil => exact Or.inr fun done gap next => rfl
        | cons byte rest => exact Or.inl ⟨rest, .open_ byte rest⟩
      · by_cases star : byte = 42
        · subst star
          cases rest with
          | nil => exact Or.inr fun done gap next => rfl
          | cons byte rest =>
              by_cases slash : byte = 47
              · exact Or.inl ⟨rest, slash ▸ .closed rest⟩
              · rcases inductionHypothesis with ⟨last, comment⟩ | faults
                · exact Or.inl ⟨last, .star slash comment⟩
                · refine Or.inr fun done gap next => ?_
                  rw [commentLoop, if_neg nul, if_pos rfl, here_cons, found_bind, if_neg slash]
                  exact faults done (gap ++ [42]) next
        · rcases inductionHypothesis with ⟨last, comment⟩ | faults
          · exact Or.inl ⟨last, .other nul star comment⟩
          · refine Or.inr fun done gap next => ?_
            rw [commentLoop, if_neg nul, if_neg star]
            exact faults done (gap ++ [byte]) next

/-- What a backslash before the text makes of it. -/
def behindEscape (escaped : Bool) (text : Bytes) : Bytes := if escaped then 92 :: text else text

theorem stringLoop_cases (escaped : Bool) (text : Bytes) :
    (∃ body stop rest, text = body ++ stop :: rest ∧ Quoted (behindEscape escaped body) ∧
      (stop = 34 ∨ stop = 0)) ∨
    ∀ done gap, stringLoop done gap escaped text = .error (.fault .readOutside) := by
  induction text generalizing escaped with
  | nil => exact Or.inr fun done gap => by cases escaped <;> rfl
  | cons byte rest inductionHypothesis =>
      cases escaped with
      | true =>
          rcases inductionHypothesis false with ⟨body, stop, rest, rfl, quoted, ends⟩ | faults
          · exact Or.inl ⟨byte :: body, stop, rest, rfl, .pair byte quoted, ends⟩
          · exact Or.inr fun done gap => faults _ _
      | false =>
          by_cases inside : byte ≠ 0 ∧ byte ≠ 34
          · rcases inductionHypothesis (byte = 92) with ⟨body, stop, rest, rfl, quoted, ends⟩ | faults
            · refine Or.inl ⟨byte :: body, stop, rest, rfl, ?_, ends⟩
              show Quoted (byte :: body)
              by_cases escape : byte = 92
              · rw [decide_eq_true escape] at quoted
                rw [escape]
                exact quoted
              · rw [decide_eq_false escape] at quoted
                exact .plain ⟨inside.1, inside.2, escape⟩ quoted
            · refine Or.inr fun done gap => ?_
              rw [stringLoop, if_pos inside, faults]
          · refine Or.inl ⟨[], byte, rest, rfl, .nil, ?_⟩
            rw [not_and_or, not_not, not_not] at inside
            exact inside.symm

/-- Either the text is passed up to a NUL, or reading goes on behind the block. -/
def Ends (fuel : Nat) (text : Bytes) : Prop :=
  (∃ kept slack, Passes text kept (0 :: slack)) ∨
    ∀ done gap, minifyLoop fuel ⟨done, gap, text⟩ = .error (.fault .readOutside)

section Rounds

variable {fuel : Nat} (later : ∀ text : Bytes, text.length < fuel → Ends fuel text)

include later

theorem ends_line {rest : Bytes} (enough : rest.length + 1 < fuel) :
    Ends (fuel + 1) (47 :: 47 :: rest) := by
  rcases lineLoop_cases rest with ⟨comment, stop, rest, rfl, inside, ends⟩ | faults
  · rw [List.length_append] at enough
    rcases later (stop :: rest) (by omega) with ⟨kept, slack, passes⟩ | faults
    · exact Or.inl ⟨kept, slack, .line inside ends passes⟩
    · refine Or.inr fun done gap => ?_
      have skipped : ∀ byte ∈ 47 :: 47 :: comment, byte ≠ 0 ∧ byte ≠ 10 := by simpa using inside
      have looped := lineLoop_eq skipped ends done gap rest
      rw [List.cons_append, List.cons_append] at looped
      rw [minifyLoop_line, looped, found_bind, faults]
  · refine Or.inr fun done gap => ?_
    rw [minifyLoop_line, lineLoop, if_pos (by decide), lineLoop, if_pos (by decide), faults,
      stopped_bind]

theorem ends_comment {rest : Bytes} (enough : rest.length + 1 < fuel) :
    Ends (fuel + 1) (47 :: 42 :: rest) := by
  rcases commentLoop_cases (42 :: rest) with ⟨last, comment⟩ | faults
  · have looped := commentLoop_eq (.other (by decide) (by decide) comment : Comment (47 :: 42 :: rest) last)
    have shorter : last.length < fuel := by
      obtain ⟨skipped, first, second, shape, -⟩ := looped [] []
      have sizes := congrArg List.length shape
      simp only [List.length_cons, List.length_append] at sizes
      omega
    rcases later last shorter with ⟨kept, slack, passes⟩ | faults
    · exact Or.inl ⟨kept, slack, .comment comment passes⟩
    · refine Or.inr fun done gap => ?_
      obtain ⟨skipped, first, second, -, left⟩ := looped done gap
      rw [minifyLoop_comment, left, found_bind]
      exact faults _ _
  · refine Or.inr fun done gap => ?_
    rw [minifyLoop_comment, commentLoop, if_neg (by decide), if_neg (by decide)]
    exact faults _ _ _

theorem ends_string {rest : Bytes} (enough : rest.length < fuel) : Ends (fuel + 1) (34 :: rest) := by
  rcases stringLoop_cases false rest with ⟨body, stop, rest, rfl, quoted, ends⟩ | faults
  · replace quoted : Quoted body := quoted
    rw [List.length_append, List.length_cons] at enough
    rcases later rest (by omega) with ⟨kept, slack, passes⟩ | faults
    · exact Or.inl ⟨34 :: (body ++ stop :: kept), slack, .string quoted ends passes⟩
    · refine Or.inr fun done gap => ?_
      have here_ : Place.Of ⟨done ++ [34], shift gap 34, body ++ stop :: rest⟩
          (done ++ [34] ++ (shift gap 34 ++ (body ++ stop :: rest))) (done ++ [34]) :=
        ⟨rfl, (List.drop_left' rfl).symm⟩
      obtain ⟨gap', looped, -⟩ := stringLoop_eq quoted ends here_
      rw [minifyLoop_string, looped, found_bind]
      exact faults _ _
  · refine Or.inr fun done gap => ?_
    rw [minifyLoop_string, faults, stopped_bind]

end Rounds

theorem ends_minifyLoop {fuel : Nat} (text : Bytes) (enough : text.length < fuel) : Ends fuel text := by
  induction fuel generalizing text with
  | zero => exact absurd enough (Nat.not_lt_zero _)
  | succ fuel inductionHypothesis =>
      cases text with
      | nil => exact Or.inr fun done gap => rfl
      | cons byte rest =>
          rw [List.length_cons, Nat.succ_lt_succ_iff] at enough
          by_cases nul : byte = 0
          · exact Or.inl ⟨[], rest, nul ▸ .refl _⟩
          by_cases blank : Blank byte
          · rcases inductionHypothesis rest enough with ⟨kept, slack, passes⟩ | faults
            · exact Or.inl ⟨kept, slack, .blank blank passes⟩
            · exact Or.inr fun done gap => (minifyLoop_blank fuel done gap blank rest).trans (faults _ _)
          by_cases slash : byte = 47
          · subst slash
            cases rest with
            | nil => exact Or.inr fun done gap => rfl
            | cons next rest =>
                by_cases line : next = 47
                · exact line ▸ ends_line inductionHypothesis enough
                by_cases star : next = 42
                · exact star ▸ ends_comment inductionHypothesis enough
                rcases inductionHypothesis (next :: rest) enough with ⟨kept, slack, passes⟩ | faults
                · exact Or.inl ⟨47 :: kept, slack, .slash ⟨line, star⟩ passes⟩
                · exact Or.inr fun done gap =>
                    (minifyLoop_slash fuel done gap ⟨line, star⟩ rest).trans (faults _ _)
          by_cases quote : byte = 34
          · exact quote ▸ ends_string inductionHypothesis enough
          have isKept : Kept byte := ⟨nul, blank, slash, quote⟩
          rcases inductionHypothesis rest enough with ⟨kept, slack, passes⟩ | faults
          · exact Or.inl ⟨byte :: kept, slack, .other isKept passes⟩
          · exact Or.inr fun done gap => (minifyLoop_other fuel done gap isKept rest).trans (faults _ _)

theorem cJsonMinify_passes {json kept slack : Bytes} (passes : Passes json kept (0 :: slack)) :
    cJsonMinify json = .ok (kept ++ 0 :: json.drop (kept.length + 1)) := by
  have start : Place.Of ⟨[], [], json⟩ json [] := ⟨rfl, rfl⟩
  obtain ⟨gap, looped, -, behind⟩ := minifyLoop_passes passes rfl start (Nat.lt_succ_self _)
  unfold cJsonMinify
  rw [looped, found_bind]
  show Except.ok _ = _
  rw [List.nil_append] at behind ⊢
  rw [← List.drop_drop, ← behind, List.drop_one]

/-- Rewriting the text in place leaves what is kept, and behind its NUL what
was there before; where the text has no end, the only fault is a byte read
behind the block. -/
theorem cJsonMinify_eq_ok_iff (json result : Bytes) :
    (cJsonMinify json = .ok result ↔ ∃ kept slack, Passes json kept (0 :: slack) ∧
        result = kept ++ 0 :: json.drop (kept.length + 1)) ∧
      ∀ stop, cJsonMinify json = .error stop → stop = .fault .readOutside := by
  rcases ends_minifyLoop json (Nat.lt_succ_self _) with ⟨kept, slack, passes⟩ | faults
  · have ran := cJsonMinify_passes passes
    refine ⟨⟨fun same => ⟨kept, slack, passes, ?_⟩, ?_⟩, fun stop same => ?_⟩
    · cases ran.symm.trans same
      rfl
    · rintro ⟨kept, slack, passes, rfl⟩
      exact cJsonMinify_passes passes
    · cases ran.symm.trans same
  · have ran : cJsonMinify json = .error (.fault .readOutside) := by
      unfold cJsonMinify
      rw [faults, stopped_bind]
    refine ⟨⟨fun same => ?_, ?_⟩, fun stop same => ?_⟩
    · cases ran.symm.trans same
    · rintro ⟨kept, slack, passes, rfl⟩
      exact cJsonMinify_passes passes
    · cases ran.symm.trans same
      rfl

/-! ## Printed texts -/

theorem passes_kept {text : Bytes} (solid : ∀ byte ∈ text, Kept byte) (rest : Bytes) :
    Passes (text ++ rest) text rest := by
  induction text with
  | nil => exact .refl rest
  | cons byte text inductionHypothesis =>
      rw [List.forall_mem_cons] at solid
      exact .other solid.1 (inductionHypothesis solid.2)

theorem passes_blanks {text : Bytes} (blank : ∀ byte ∈ text, Blank byte) (rest : Bytes) :
    Passes (text ++ rest) [] rest := by
  induction text with
  | nil => exact .refl rest
  | cons byte text inductionHypothesis =>
      rw [List.forall_mem_cons] at blank
      exact .blank blank.1 (inductionHypothesis blank.2)

theorem kept_of_isNumeral {byte : Byte} (numeral : IsNumeral byte) : Kept byte := by
  have each : ∀ n < 256, (isdigit (UInt8.ofNat n) = true ∨ UInt8.ofNat n = 43 ∨ UInt8.ofNat n = 45 ∨
      UInt8.ofNat n = 46 ∨ 97 ≤ UInt8.ofNat n ∧ UInt8.ofNat n ≤ 122) → Kept (UInt8.ofNat n) := by
    decide +kernel
  have here_ := each byte.toNat byte.toNat_lt
  rw [UInt8.ofNat_toNat] at here_
  exact here_ numeral

theorem Quoted.append {first second : Bytes} (quoted : Quoted first) (later : Quoted second) :
    Quoted (first ++ second) := by
  induction quoted with
  | nil => exact later
  | plain literally _ inductionHypothesis => exact .plain literally inductionHypothesis
  | pair letter _ inductionHypothesis => exact .pair letter inductionHypothesis

theorem literally_hexDigit {digit : Nat} (small : digit < 16) :
    JsonSafety.Literally (hexDigit digit) := by
  revert digit
  decide

theorem quoted_escaped {byte : Byte} {code : Bytes} (nonzero : byte ≠ 0)
    (escaped : Escaped byte code) : Quoted code := by
  cases escaped with
  | plain quote backslash => exact .plain ⟨nonzero, quote, backslash⟩ .nil
  | short letter _ _ => exact .pair letter .nil
  | long control =>
      have below : byte.toNat < 256 := byte.toNat_lt
      have digits : lit "\\u00" = [92, 117, 48, 48] := by decide
      rw [digits]
      exact .pair 117 (.plain (by decide) (.plain (by decide)
        (.plain (literally_hexDigit (by omega)) (.plain (literally_hexDigit (by omega)) .nil))))

theorem quoted_text (text : Text) : Quoted (text.val.flatMap escapeByte) := by
  obtain ⟨text, nulFree⟩ := text
  induction text with
  | nil => exact .nil
  | cons byte text inductionHypothesis =>
      rw [List.mem_cons, not_or] at nulFree
      rw [List.flatMap_cons]
      exact (quoted_escaped (Ne.symm nulFree.1) (escapeByte_escaped byte)).append (inductionHypothesis nulFree.2)

theorem passes_stringText (text : Text) (rest : Bytes) :
    Passes (stringText text ++ rest) (stringText text) rest := by
  have passes := Passes.string (quoted_text text) (Or.inl rfl) (.refl rest)
  rw [stringText, List.cons_append, List.append_assoc]
  exact passes

section Printed

variable (fmt : Bool)

theorem passes_space (rest : Bytes) : Passes (space fmt ++ rest) [] rest :=
  passes_blanks (by cases fmt <;> decide +kernel) rest

theorem passes_newline (rest : Bytes) : Passes (newline fmt ++ rest) [] rest :=
  passes_blanks (by cases fmt <;> decide +kernel) rest

theorem passes_indent (depth : Nat) (rest : Bytes) : Passes (indent fmt depth ++ rest) [] rest := by
  refine passes_blanks (fun byte member => ?_) rest
  cases fmt with
  | false => exact absurd member List.not_mem_nil
  | true => exact Or.inr (Or.inl (List.eq_of_mem_replicate member))

variable {D : Type} [Double D]

/-- The text of a tree minifies to its text without line feeds and tabs. -/
def Shrinks (item : Json D) : Prop :=
  ∀ depth rest, Passes (item.text fmt depth ++ rest) (item.text false depth) rest

theorem passes_numberText [NumeralDouble D] (valueint : Int) (d : D) (rest : Bytes) :
    Passes (numberText valueint d ++ rest) (numberText valueint d) rest := by
  refine passes_kept (fun byte member => ?_) rest
  refine kept_of_isNumeral ?_
  unfold numberText at member
  split at member
  · rw [show lit "0" = [48] by decide, List.mem_singleton] at member
    exact Or.inl (member ▸ rfl)
  · split at member
    · exact isNumeral_decimal valueint byte member
    · split at member
      · exact NumeralDouble.isNumeral _ d byte member
      · split at member <;> exact NumeralDouble.isNumeral _ d byte member

theorem passes_items {child : List (Json D)} (shrinks : ∀ item ∈ child, Shrinks fmt item)
    (depth : Nat) (rest : Bytes) :
    Passes (itemsText fmt (itemTexts fmt depth child) ++ rest)
      (itemsText false (itemTexts false depth child)) rest := by
  induction child with
  | nil => exact .refl rest
  | cons item next inductionHypothesis =>
      rw [List.forall_mem_cons] at shrinks
      cases next with
      | nil => exact shrinks.1 depth rest
      | cons other next =>
          have later := inductionHypothesis shrinks.2
          simp only [itemTexts, itemsText, List.append_assoc, List.cons_append] at later ⊢
          exact (shrinks.1 depth _).trans (.other (by decide)
            ((passes_space fmt _).trans later))

theorem passes_member (string : Text) {item : Json D} (shrinks : Shrinks fmt item) (depth inner : Nat)
    (rest : Bytes) :
    Passes (memberText fmt depth (stringText string, item.text fmt inner) ++ rest)
      (memberText false depth (stringText string, item.text false inner)) rest := by
  unfold memberText
  simp only [List.append_assoc, List.cons_append]
  exact (passes_indent fmt depth _).trans ((passes_stringText string _).trans (.other (by decide)
    ((passes_indent fmt 1 _).trans (shrinks inner rest))))

theorem passes_members {child : List (Text × Json D)} (shrinks : ∀ item ∈ child, Shrinks fmt item.2)
    (depth inner : Nat) (rest : Bytes) :
    Passes (membersText fmt depth (memberTexts fmt inner child) ++ rest)
      (membersText false depth (memberTexts false inner child)) rest := by
  induction child with
  | nil => exact .refl rest
  | cons item next inductionHypothesis =>
      obtain ⟨string, value⟩ := item
      rw [List.forall_mem_cons] at shrinks
      have first := passes_member fmt string shrinks.1 depth inner
      cases next with
      | nil =>
          simp only [memberTexts, memberTextPair, membersText, List.append_assoc]
          exact (first _).trans (passes_newline fmt rest)
      | cons other next =>
          have later := inductionHypothesis shrinks.2
          simp only [memberTexts, memberTextPair, membersText, List.append_assoc, List.cons_append]
            at later ⊢
          exact (first _).trans (.other (by decide) ((passes_newline fmt _).trans later))

theorem shrinks [NumeralDouble D] (item : Json D) : Shrinks fmt item := by
  induction item using Json.induction with
  | null =>
      intro depth rest
      show Passes (lit "null" ++ rest) (lit "null") rest
      exact passes_kept (by decide +kernel) rest
  | false =>
      intro depth rest
      show Passes (lit "false" ++ rest) (lit "false") rest
      exact passes_kept (by decide +kernel) rest
  | true =>
      intro depth rest
      show Passes (lit "true" ++ rest) (lit "true") rest
      exact passes_kept (by decide +kernel) rest
  | number valueint valuedouble => exact fun depth rest => passes_numberText valueint valuedouble rest
  | string valuestring => exact fun depth rest => passes_stringText valuestring rest
  | array child inductionHypothesis =>
      intro depth rest
      simp only [Json.text, arrayText, List.cons_append, List.append_assoc]
      exact .other (by decide) ((passes_items fmt inductionHypothesis (depth + 1) _).trans
        (.other (by decide) (.refl rest)))
  | object child inductionHypothesis =>
      intro depth rest
      simp only [Json.text, objectText, List.cons_append, List.append_assoc]
      exact .other (by decide) ((passes_newline fmt _).trans
        ((passes_members fmt inductionHypothesis (depth + 1) (depth + 1) _).trans
          ((passes_indent fmt _ _).trans (.other (by decide) (.refl rest)))))

/-- What `cJSON_Print` writes is minified in its own block to what
`cJSON_PrintUnformatted` writes, and that stays as it is. -/
theorem cJsonMinify_text [NumeralDouble D] (item : Json D) (slack : Bytes) :
    cJsonMinify (item.text fmt 0 ++ 0 :: slack) =
      .ok (item.text false 0 ++ 0 :: (item.text fmt 0 ++ 0 :: slack).drop
        ((item.text false 0).length + 1)) :=
  cJsonMinify_passes (shrinks fmt item 0 (0 :: slack))

end Printed

theorem spaced_nulFree : 0 ∉ lit "a b" := by decide

theorem cJsonMinify_text_spaced : ∃ behind,
    cJsonMinify (lit "[null, \"a b\"]" ++ [0]) = .ok (lit "[null,\"a b\"]" ++ 0 :: behind) :=
  ⟨_, cJsonMinify_text true (.array [.null, .string ⟨lit "a b", spaced_nulFree⟩] : Json Rat) []⟩

end DistStore.JsonMinify

import DistStore.Lib.CNumber

/-!
# Parameters of the query string

`get_query_string` copies the text behind the first occurrence of the name and
one more byte.  The getters read `QUERY_STRING` with it; none of them fails.
-/

set_option autoImplicit false

namespace DistStore.Query

open CMemory

/-- Whether a byte ends a parameter: NUL, `'#'` or `'&'`. -/
def isValueEnd (byte : Byte) : Bool := byte == 0 || byte == 35 || byte == 38

/-- The loop on `end`, counting from `tmp`. -/
def valueLength : Bytes → C Nat
  | [] => .error .readOutside
  | byte :: rest =>
      if isValueEnd byte then .ok 0
      else do
        let length ← valueLength rest
        return length + 1

/-- The scan from `tmp` on and the copy of what it found. -/
def copyValue (memory : Bytes) (tmp : Nat) (value : Bytes) : C Bytes := do
  let length ← valueLength (memory.drop tmp)
  let valueLen := toInt length
  let copied ← strncpy value 0 memory tmp valueLen
  store copied valueLen.toNat [0]

/-- `get_query_string` with no `value_len_p`: the returned code and the value.
The pointer `tmp` is moved over the key, whose length is an `int`, and over the
byte behind it, whatever it is. -/
def getQueryString (query : Option Bytes) (key value : Bytes) : C (Int × Bytes) :=
  match query with
  | none => .error .nullPointer
  | some memory => do
      match ← strstr memory 0 key with
      | none => return (-1, value)
      | some found =>
          let keyLen := toInt key.length
          let behindKey ← moveBy found keyLen
          let ended ← copyValue memory (behindKey + 1) value
          return (0, ended)

/-- A getter: the code of `get_query_string` is dropped and the length of the
value is taken. -/
def getParameter (key : Bytes) (query : Option Bytes) (value : Bytes) : C (Int × Bytes) := do
  let (_, found) ← getQueryString query key value
  let _ ← strlen found 0
  return (0, found)

def getCmd : Option Bytes → Bytes → C (Int × Bytes) := getParameter (lit "cmd")

def getFromId : Option Bytes → Bytes → C (Int × Bytes) := getParameter (lit "fromId")

def getCnt : Option Bytes → Bytes → C (Int × Bytes) := getParameter (lit "count")

def getUsr : Option Bytes → Bytes → C (Int × Bytes) := getParameter (lit "user")

def getFileId : Option Bytes → Bytes → C (Int × Bytes) := getParameter (lit "fileId")

theorem copyValue_length {memory value result : Bytes} {tmp : Nat}
    (copies : copyValue memory tmp value = .ok result) : result.length = value.length := by
  obtain ⟨length, -, afterLength⟩ := (bind_eq_ok_iff _ _ _).mp copies
  obtain ⟨copied, written, stored⟩ := (bind_eq_ok_iff _ _ _).mp afterLength
  rw [store_length stored, strncpy_length written]

theorem getQueryString_length {query : Option Bytes} {key value result : Bytes} {code : Int}
    (got : getQueryString query key value = .ok (code, result)) :
    result.length = value.length := by
  cases query with
  | none => cases got
  | some memory =>
      obtain ⟨found, -, rest⟩ := (bind_eq_ok_iff _ _ _).mp got
      cases found with
      | none =>
          cases rest
          rfl
      | some found =>
          obtain ⟨behindKey, -, afterMove⟩ := (bind_eq_ok_iff _ _ _).mp rest
          obtain ⟨ended, copies, same⟩ := (bind_eq_ok_iff _ _ _).mp afterMove
          cases same
          exact copyValue_length copies

theorem getParameter_length {key value result : Bytes} {query : Option Bytes} {code : Int}
    (got : getParameter key query value = .ok (code, result)) :
    code = 0 ∧ result.length = value.length := by
  obtain ⟨⟨inner, found⟩, gets, rest⟩ := (bind_eq_ok_iff _ _ _).mp got
  obtain ⟨length, -, same⟩ := (bind_eq_ok_iff _ _ _).mp rest
  cases same
  exact ⟨rfl, getQueryString_length gets⟩

end DistStore.Query

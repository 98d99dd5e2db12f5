import DistStore.JsonTree

/-!
# The parser of cJSON

A pointer into the text is what lies from it on up to the end of the block, so
reading where nothing is left reads outside of it.  The parser gives up with
the pointer it leaves in `ep`.  Every allocation succeeds; an `int` that counts
the bytes of a string or spells an exponent can overflow.
-/

set_option autoImplicit false

namespace DistStore.JsonParse

open CMemory JsonPrint JsonTree

/-- Why no value comes out; `fuel` bounds the depth of the recursion of the
model. -/
inductive Stop where
  | fault (fault : Fault)
  | ep (at_ : Bytes)
  | fuel
  deriving DecidableEq, Repr

abbrev Parser := Except Stop

def ofC {α : Type} : C α → Parser α
  | .ok value => .ok value
  | .error fault => .error (.fault fault)

/-- `*ptr`. -/
def here : Bytes → Parser Byte
  | [] => .error (.fault .readOutside)
  | byte :: _ => .ok byte

/-- `!strncmp(value, word, strlen(word))` for a word of the program. -/
def startsWith : Bytes → Bytes → Parser Bool
  | [], _ => .ok true
  | _ :: _, [] => .error (.fault .readOutside)
  | letter :: word, byte :: rest => if byte = letter then startsWith word rest else .ok false

def skip : Bytes → Parser Bytes
  | [] => .error (.fault .readOutside)
  | byte :: rest => if byte ≠ 0 ∧ byte ≤ 32 then skip rest else .ok (byte :: rest)

/-! ## Numbers -/

section Numbers

variable {D : Type} [Double D]

/-- `n=(n*10.0)+(*num++ -'0')` as long as there are digits. -/
def digits (n : D) : Bytes → Parser (D × Bytes)
  | [] => .error (.fault .readOutside)
  | byte :: rest =>
      if isdigit byte then
        digits (Double.add (Double.mul n (Double.ofInt 10)) (Double.ofInt (byte.toNat - 48 : Nat))) rest
      else .ok (n, byte :: rest)

/-- The same with `scale--`. -/
def fraction (n scale : D) : Bytes → Parser (D × D × Bytes)
  | [] => .error (.fault .readOutside)
  | byte :: rest =>
      if isdigit byte then
        fraction (Double.add (Double.mul n (Double.ofInt 10)) (Double.ofInt (byte.toNat - 48 : Nat)))
          (Double.sub scale (Double.ofInt 1)) rest
      else .ok (n, scale, byte :: rest)

/-- `subscale=(subscale*10)+(*num++ - '0')`. -/
def exponent (subscale : Int) : Bytes → Parser (Int × Bytes)
  | [] => .error (.fault .readOutside)
  | byte :: rest =>
      if isdigit byte then do
        let shifted ← ofC (checkInt (subscale * 10))
        let next ← ofC (checkInt (shifted + (byte.toNat - 48 : Nat)))
        exponent next rest
      else .ok (subscale, byte :: rest)

/-- The sign in front of a number or an exponent. -/
def parseSign (num : Bytes) : Parser (Int × Bytes) := do
  if (← here num) = 45 then return (-1, num.tail) else return (1, num)

def parseWhole (num : Bytes) : Parser (D × Bytes) := do
  let num := if (← here num) = 48 then num.tail else num
  let first ← here num
  if 49 ≤ first ∧ first ≤ 57 then digits (Double.ofInt 0) num else return (Double.ofInt 0, num)

def parseFraction (n : D) (num : Bytes) : Parser (D × D × Bytes) := do
  if (← here num) = 46 then
    if isdigit (← here num.tail) then fraction n (Double.ofInt 0) num.tail
    else return (n, Double.ofInt 0, num)
  else return (n, Double.ofInt 0, num)

def parseExponent (num : Bytes) : Parser (Int × Int × Bytes) := do
  let byte ← here num
  if byte = 101 ∨ byte = 69 then
    let sign ← here num.tail
    let (signsubscale, num) ←
      if sign = 43 then pure (1, num.tail.tail) else parseSign num.tail
    let (subscale, num) ← exponent 0 num
    return (subscale, signsubscale, num)
  else return (0, 1, num)

def parseNumber (num : Bytes) : Parser (Json D × Bytes) := do
  let (sign, num) ← parseSign num
  let (n, num) ← parseWhole num
  let (n, scale, num) ← parseFraction (D := D) n num
  let (subscale, signsubscale, num) ← parseExponent num
  let n : D := Double.mul (Double.mul (Double.ofInt sign) n)
    (Double.pow (Double.ofInt 10) (Double.add scale (Double.ofInt (subscale * signsubscale))))
  return (.number (Double.toInt n) n, num)

end Numbers

/-! ## Strings -/

def hexValue (byte : Byte) : Option Nat :=
  if 48 ≤ byte ∧ byte ≤ 57 then some (byte.toNat - 48)
  else if 65 ≤ byte ∧ byte ≤ 70 then some (10 + byte.toNat - 65)
  else if 97 ≤ byte ∧ byte ≤ 102 then some (10 + byte.toNat - 97)
  else none

/-- `count` more digits of a number; one that is no digit makes it `0`. -/
def parseHex : Nat → Nat → Bytes → Parser Nat
  | 0, h, _ => .ok h
  | _ + 1, _, [] => .error (.fault .readOutside)
  | count + 1, h, byte :: rest =>
      match hexValue byte with
      | some digit => parseHex count (h * 16 + digit) rest
      | none => .ok 0

def parseHex4 (str : Bytes) : Parser Nat := parseHex 4 0 str

/-- A byte behind the first one; the cases of the switch fall through. -/
def laterByte (uc : Nat) : Byte := UInt8.ofNat ((uc ||| 0x80) &&& 0xBF)

def firstByte (uc mark : Nat) : Byte := UInt8.ofNat (uc ||| mark)

/-- The bytes of a character, the last one written first. -/
def utf8Bytes (uc : Nat) : Bytes :=
  if uc < 0x80 then [firstByte uc 0x00]
  else if uc < 0x800 then [firstByte (uc >>> 6) 0xC0, laterByte uc]
  else if uc < 0x10000 then
    [firstByte (uc >>> 6 >>> 6) 0xE0, laterByte (uc >>> 6), laterByte uc]
  else
    [firstByte (uc >>> 6 >>> 6 >>> 6) 0xF0, laterByte (uc >>> 6 >>> 6), laterByte (uc >>> 6),
      laterByte uc]

/-- `case 'u'`, where `ptr` stands on the `u`: the bytes that are written and by
how much `ptr` is moved. -/
def transcode (ptr : Bytes) : Parser (Bytes × Nat) := do
  let uc ← parseHex4 (ptr.drop 1)
  if (0xDC00 ≤ uc ∧ uc ≤ 0xDFFF) ∨ uc = 0 then return ([], 4)
  if 0xD800 ≤ uc ∧ uc ≤ 0xDBFF then
    if (← here (ptr.drop 5)) ≠ 92 then return ([], 4)
    if (← here (ptr.drop 6)) ≠ 117 then return ([], 4)
    let uc2 ← parseHex4 (ptr.drop 7)
    if uc2 < 0xDC00 ∨ 0xDFFF < uc2 then return ([], 10)
    return (utf8Bytes (0x10000 + (((uc &&& 0x3FF) <<< 10) ||| (uc2 &&& 0x3FF))), 10)
  return (utf8Bytes uc, 4)

/-- The other cases of the switch. -/
def unescape (byte : Byte) : Byte :=
  if byte = 98 then 8 else if byte = 102 then 12 else if byte = 110 then 10
  else if byte = 114 then 13 else if byte = 116 then 9 else byte

/-- The first loop counts an escaped pair as one byte. -/
def lengthLoop : Bool → Bytes → Parser Nat
  | _, [] => .error (.fault .readOutside)
  | true, _ :: rest => lengthLoop false rest
  | false, byte :: rest =>
      if byte = 34 ∨ byte = 0 then .ok 0
      else do
        let len ← lengthLoop (byte = 92) rest
        return len + 1

/-- `*ptr2++=` for some bytes, into a block of `size` bytes that holds `out`. -/
def put (size : Nat) (out bytes : Bytes) : Parser Bytes :=
  if out.length + bytes.length ≤ size then .ok (out ++ bytes) else .error (.fault .writeOutside)

/-- The second loop, after `ptr` has been moved over `ahead` more bytes. -/
def copyLoop (size : Nat) : Nat → Bytes → Bytes → Parser (Bytes × Bytes)
  | _, [], _ => .error (.fault .readOutside)
  | ahead + 1, _ :: rest, out => copyLoop size ahead rest out
  | 0, byte :: rest, out =>
      if byte = 34 ∨ byte = 0 then .ok (out, byte :: rest)
      else if byte ≠ 92 then do
        let out ← put size out [byte]
        copyLoop size 0 rest out
      else do
        let escaped ← here rest
        if escaped = 117 then
          let (bytes, moved) ← transcode rest
          let out ← put size out bytes
          copyLoop size (moved + 1) rest out
        else
          let out ← put size out [unescape escaped]
          copyLoop size 1 rest out

theorem takeWhile_text (out : Bytes) : 0 ∉ out.takeWhile (· ≠ 0) := by
  intro member
  simpa using List.mem_takeWhile_imp member

/-- The string in a block. -/
def textOf (out : Bytes) : Text := ⟨out.takeWhile (· ≠ 0), takeWhile_text out⟩

def parseString (str : Bytes) : Parser (Text × Bytes) := do
  if (← here str) ≠ 34 then throw (.ep str)
  let len ← lengthLoop false str.tail
  let size ← ofC (checkInt (len + 1))
  let (out, ptr) ← copyLoop size.toNat 0 str.tail []
  let out ← put size.toNat out [0]
  let ptr := if (← here ptr) = 34 then ptr.tail else ptr
  return (textOf out, ptr)

/-! ## Values -/

section Values

variable {D : Type} [Double D]

mutual

def parseValue : Nat → Bytes → Parser (Json D × Bytes)
  | 0, _ => .error .fuel
  | fuel + 1, value => do
      if ← startsWith (lit "null") value then return (.null, value.drop 4)
      if ← startsWith (lit "false") value then return (.false, value.drop 5)
      if ← startsWith (lit "true") value then return (.true, value.drop 4)
      let byte ← here value
      if byte = 34 then
        let (valuestring, value) ← parseString value
        return (.string valuestring, value)
      if byte = 45 ∨ isdigit byte then parseNumber value
      else if byte = 91 then parseArray fuel value
      else if byte = 123 then parseObject fuel value
      else throw (.ep value)

def parseArray : Nat → Bytes → Parser (Json D × Bytes)
  | 0, _ => .error .fuel
  | fuel + 1, value => do
      if (← here value) ≠ 91 then throw (.ep value)
      let value ← skip value.tail
      if (← here value) = 93 then return (.array [], value.tail)
      let (item, value) ← parseValue fuel (← skip value)
      let (next, value) ← parseItems fuel (← skip value)
      if (← here value) = 93 then return (.array (item :: next), value.tail)
      else throw (.ep value)

/-- The loop over the items behind the first one. -/
def parseItems : Nat → Bytes → Parser (List (Json D) × Bytes)
  | 0, _ => .error .fuel
  | fuel + 1, value => do
      if (← here value) = 44 then
        let (item, value) ← parseValue fuel (← skip value.tail)
        let (next, value) ← parseItems fuel (← skip value)
        return (item :: next, value)
      else return ([], value)

def parseObject : Nat → Bytes → Parser (Json D × Bytes)
  | 0, _ => .error .fuel
  | fuel + 1, value => do
      if (← here value) ≠ 123 then throw (.ep value)
      let value ← skip value.tail
      if (← here value) = 125 then return (.object [], value.tail)
      let (item, value) ← parseMember fuel value
      let (next, value) ← parseMembers fuel value
      if (← here value) = 125 then return (.object (item :: next), value.tail)
      else throw (.ep value)

/-- A name, a colon and a value, with the space around them. -/
def parseMember : Nat → Bytes → Parser ((Text × Json D) × Bytes)
  | 0, _ => .error .fuel
  | fuel + 1, value => do
      let (string, value) ← parseString (← skip value)
      let value ← skip value
      if (← here value) ≠ 58 then throw (.ep value)
      let (item, value) ← parseValue fuel (← skip value.tail)
      return ((string, item), ← skip value)

def parseMembers : Nat → Bytes → Parser (List (Text × Json D) × Bytes)
  | 0, _ => .error .fuel
  | fuel + 1, value => do
      if (← here value) = 44 then
        let (item, value) ← parseMember fuel value.tail
        let (next, value) ← parseMembers fuel value
        return (item :: next, value)
      else return ([], value)

end

/-- `cJSON_ParseWithOpts`: the tree and `*return_parse_end`. -/
def cJsonParseWithOpts (value : Bytes) (requireNullTerminated : Bool) : Parser (Json D × Bytes) := do
  let (c, end_) ← parseValue (3 * value.length + 1) (← skip value)
  if requireNullTerminated then
    let end_ ← skip end_
    if (← here end_) ≠ 0 then throw (.ep end_)
    return (c, end_)
  else return (c, end_)

/-- `cJSON_Parse`. -/
def cJsonParse (value : Bytes) : Parser (Json D) := do
  let (c, _) ← cJsonParseWithOpts value false
  return c

end Values

end DistStore.JsonParse

import Mathlib
import KmVirtualCamera.Core.Checked
import KmVirtualCamera.L1Encoding.H264

/-!
# The JSON reader (`km::json`)

The reader of the signaling messages: a recursive descent over the bytes with
a position, a nesting limit and a count of values.

Every read of the input goes through `peek`, which faults when the position is
not inside, unless the source itself tests the position first (`take`, `digit`,
`spaces`). `Fault.thrown` is the reader's `fail()`; the other two never happen.
A `while` loop is a `takeWhile` or runs on fuel; the nesting limit is the
recursion's own measure.

The members of an object are kept in the order they were emplaced in; nothing
reads them but by key.
-/
namespace KmVirtualCamera.L1.Json
open KmVirtualCamera.L1.H264

inductive Fault where
  | thrown
  | outside
  | fuel
  deriving DecidableEq, Repr

/-- mirrors shared/km/json.h:13-17 -/
inductive Value where
  | null
  | bool (text : Bytes)
  | number (text : Bytes)
  | string (text : Bytes)
  | array (array : List Value)
  | object (object : List (Bytes × Value))

def peek (s : Bytes) (p : Nat) : Except Fault UInt8 :=
  match s[p]? with
  | some b => .ok b
  | none => .error .outside

/-! ## UTF-8 -/

/-- mirrors shared/km/json.h:40-49 -/
def appendUtf8 (out : Bytes) (c : Nat) : Bytes :=
  if c ≤ 127 then out ++ [UInt8.ofNat c]
  else if c ≤ 2047 then out ++ [UInt8.ofNat (192 ||| (c >>> 6)), UInt8.ofNat (128 ||| (c &&& 63))]
  else if c ≤ 65535 then
    out ++ [UInt8.ofNat (224 ||| (c >>> 12)), UInt8.ofNat (128 ||| ((c >>> 6) &&& 63)),
      UInt8.ofNat (128 ||| (c &&& 63))]
  else
    out ++ [UInt8.ofNat (240 ||| (c >>> 18)), UInt8.ofNat (128 ||| ((c >>> 12) &&& 63)),
      UInt8.ofNat (128 ||| ((c >>> 6) &&& 63)), UInt8.ofNat (128 ||| (c &&& 63))]

/-- Continuation bytes, smallest value and payload bits of a first byte.
mirrors shared/km/json.h:54-58 -/
def lead (c : Nat) : Option (Nat × Nat × Nat) :=
  if c ≥ 194 ∧ c ≤ 223 then some (1, 128, c &&& 31)
  else if c ≥ 224 ∧ c ≤ 239 then some (2, 2048, c &&& 15)
  else if c ≥ 240 ∧ c ≤ 244 then some (3, 65536, c &&& 7)
  else none

/-- mirrors shared/km/json.h:60-63 -/
def continuation (s : Bytes) : Nat → Nat → Nat → Except Fault (Option (Nat × Nat))
  | 0, i, c => .ok (some (i, c))
  | remaining + 1, i, c => do
    let next ← peek s i
    if next.toNat &&& 192 ≠ 128 then .ok none
    else continuation s remaining (i + 1) ((c <<< 6) ||| (next.toNat &&& 63))

/-- mirrors shared/km/json.h:50-67 -/
def validUtf8Loop (s : Bytes) : Nat → Nat → Except Fault Bool
  | 0, _ => .error .fuel
  | fuel + 1, i =>
    if i < s.length then do
      let c ← peek s i
      if c.toNat < 128 then validUtf8Loop s fuel (i + 1)
      else match lead c.toNat with
        | none => .ok false
        | some (remaining, minimum, c) =>
          if remaining > s.length - (i + 1) then .ok false
          else do
            match ← continuation s remaining (i + 1) c with
            | none => .ok false
            | some (i, c) =>
              if c < minimum ∨ c > 0x10ffff ∨ (c ≥ 0xd800 ∧ c ≤ 0xdfff) then .ok false
              else validUtf8Loop s fuel i
    else .ok true

def validUtf8 (s : Bytes) : Except Fault Bool := validUtf8Loop s (s.length + 1) 0

/-! ## Lexical level -/

def isSpace (b : UInt8) : Bool :=
  b == ' '.toUInt8 || b == '\r'.toUInt8 || b == '\n'.toUInt8 || b == '\t'.toUInt8

/-- mirrors shared/km/json.h:77 -/
def spaces (s : Bytes) (p : Nat) : Nat := p + ((s.drop p).takeWhile isSpace).length

/-- `none` is `false`.
mirrors shared/km/json.h:78 -/
def take (s : Bytes) (p : Nat) (c : Char) : Option Nat :=
  if s[p]? = some c.toUInt8 then some (p + 1) else none

/-- `substr` throws when it starts outside.
mirrors shared/km/json.h:79 -/
def literal (s : Bytes) (p : Nat) (lit : Bytes) : Except Fault Nat :=
  if p > s.length then .error .outside
  else if (s.drop p).take lit.length ≠ lit then .error .thrown
  else .ok (p + lit.length)

def hexDigit (c : UInt8) : Option Nat :=
  if 48 ≤ c.toNat ∧ c.toNat ≤ 57 then some (c.toNat - 48)
  else if 97 ≤ c.toNat ∧ c.toNat ≤ 102 then some (c.toNat - 97 + 10)
  else if 65 ≤ c.toNat ∧ c.toNat ≤ 70 then some (c.toNat - 65 + 10)
  else none

def hexLoop (s : Bytes) : Nat → Nat → Nat → Except Fault Nat
  | 0, _, n => .ok n
  | k + 1, p, n => do
    let c ← peek s p
    match hexDigit c with
    | none => .error .thrown
    | some digit => hexLoop s k (p + 1) (n * 16 + digit)

/-- The difference of sizes is unsigned: behind the end it would not be small.
mirrors shared/km/json.h:80-90 -/
def hex (s : Bytes) (p : Nat) : Except Fault Nat :=
  if p ≤ s.length ∧ s.length - p < 4 then .error .thrown else hexLoop s 4 p 0

/-- mirrors shared/km/json.h:103-112 -/
def unicode (s : Bytes) (p : Nat) (out : Bytes) : Except Fault (Bytes × Nat) := do
  let cp ← hex s p
  let p := p + 4
  if cp ≥ 0xd800 ∧ cp ≤ 0xdbff then
    match take s p '\\' with
    | none => .error .thrown
    | some p =>
      match take s p 'u' with
      | none => .error .thrown
      | some p => do
        let low ← hex s p
        if low < 0xdc00 ∨ low > 0xdfff then .error .thrown
        else .ok (appendUtf8 out (0x10000 + ((cp - 0xd800) <<< 10) + (low - 0xdc00)), p + 4)
  else if cp ≥ 0xdc00 ∧ cp ≤ 0xdfff then .error .thrown
  else .ok (appendUtf8 out cp, p)

/-- mirrors shared/km/json.h:100-102 -/
def shortEscape (e : UInt8) : Option UInt8 :=
  if e = '"'.toUInt8 then some '"'.toUInt8
  else if e = '\\'.toUInt8 then some '\\'.toUInt8
  else if e = '/'.toUInt8 then some '/'.toUInt8
  else if e = 'b'.toUInt8 then some 8
  else if e = 'f'.toUInt8 then some 12
  else if e = 'n'.toUInt8 then some '\n'.toUInt8
  else if e = 'r'.toUInt8 then some '\r'.toUInt8
  else if e = 't'.toUInt8 then some '\t'.toUInt8
  else none

/-- mirrors shared/km/json.h:98-114 -/
def escape (s : Bytes) (p : Nat) (out : Bytes) : Except Fault (Bytes × Nat) :=
  if p = s.length then .error .thrown
  else do
    let e ← peek s p
    match shortEscape e with
    | some b => .ok (out ++ [b], p + 1)
    | none => if e = 'u'.toUInt8 then unicode s (p + 1) out else .error .thrown

/-- mirrors shared/km/json.h:94-117 -/
def stringLoop (s : Bytes) : Nat → Nat → Bytes → Except Fault (Bytes × Nat)
  | 0, _, _ => .error .fuel
  | fuel + 1, p, out =>
    if p < s.length then do
      let c ← peek s p
      if c = '"'.toUInt8 then .ok (out, p + 1)
      else if c.toNat < 32 then .error .thrown
      else if c ≠ '\\'.toUInt8 then stringLoop s fuel (p + 1) (out ++ [c])
      else do
        let (out, p) ← escape s (p + 1) out
        stringLoop s fuel p out
    else .error .thrown

/-- mirrors shared/km/json.h:91-118 -/
def string (s : Bytes) (p : Nat) : Except Fault (Bytes × Nat) :=
  match take s p '"' with
  | none => .error .thrown
  | some p => stringLoop s (s.length + 1) p []

def isDigit (b : UInt8) : Bool := 48 ≤ b.toNat && b.toNat ≤ 57

/-- mirrors shared/km/json.h:119 -/
def digit (s : Bytes) (p : Nat) : Bool :=
  match s[p]? with
  | some b => isDigit b
  | none => false

/-- `if (!digit()) fail(); while (digit()) ++position_;` -/
def digits (s : Bytes) (p : Nat) : Except Fault Nat :=
  if digit s p = false then .error .thrown
  else .ok (p + ((s.drop p).takeWhile isDigit).length)

def int (s : Bytes) (p : Nat) : Except Fault Nat :=
  match take s p '0' with
  | some p => if digit s p then .error .thrown else .ok p
  | none => digits s p

def frac (s : Bytes) (p : Nat) : Except Fault Nat :=
  match take s p '.' with
  | some p => digits s p
  | none => .ok p

/-- `if (!take('+')) take('-');` -/
def sign (s : Bytes) (p : Nat) : Nat :=
  match take s p '+' with
  | some p => p
  | none => (take s p '-').getD p

def exp (s : Bytes) (p : Nat) : Except Fault Nat :=
  match (take s p 'e').or (take s p 'E') with
  | some p => digits s (sign s p)
  | none => .ok p

/-- mirrors shared/km/json.h:145-149 -/
def number (s : Bytes) (p : Nat) : Except Fault Nat := do
  let p ← int s ((take s p '-').getD p)
  let p ← frac s p
  exp s p

/-! ## Values -/

/-- Where the reader is: `position_` and `nodes_`. -/
structure Cursor where
  position : Nat := 0
  nodes : Nat := 0

def Cursor.at (c : Cursor) (p : Nat) : Cursor := { c with position := p }

/-- mirrors shared/km/json.h:137-140 -/
def elements (s : Bytes) (child : Cursor → Except Fault (Value × Cursor)) :
    Nat → List Value → Cursor → Except Fault (Value × Cursor)
  | 0, _, _ => .error .fuel
  | fuel + 1, array, c => do
    let (v, c) ← child c
    let p := spaces s c.position
    match take s p ']' with
    | some p => .ok (.array (array ++ [v]), c.at p)
    | none =>
      match take s p ',' with
      | some p => elements s child fuel (array ++ [v]) (c.at p)
      | none => .error .thrown

/-- mirrors shared/km/json.h:129-135 -/
def members (s : Bytes) (child : Cursor → Except Fault (Value × Cursor)) :
    Nat → List (Bytes × Value) → Cursor → Except Fault (Value × Cursor)
  | 0, _, _ => .error .fuel
  | fuel + 1, object, c => do
    let (key, p) ← string s (spaces s c.position)
    match take s (spaces s p) ':' with
    | none => .error .thrown
    | some p => do
      let (v, c) ← child (c.at p)
      if key ∈ object.map Prod.fst then .error .thrown
      else
        let p := spaces s c.position
        match take s p '}' with
        | some p => .ok (.object (object ++ [(key, v)]), c.at p)
        | none =>
          match take s p ',' with
          | some p => members s child fuel (object ++ [(key, v)]) (c.at p)
          | none => .error .thrown

/-- mirrors shared/km/json.h:141-150 -/
def scalar (s : Bytes) (p : Nat) (b : UInt8) : Except Fault (Value × Nat) :=
  if b = 'n'.toUInt8 then do
    let p ← literal s p ("null".toList.map Char.toUInt8)
    .ok (.null, p)
  else if b = 't'.toUInt8 then do
    let p ← literal s p ("true".toList.map Char.toUInt8)
    .ok (.bool ("true".toList.map Char.toUInt8), p)
  else if b = 'f'.toUInt8 then do
    let p ← literal s p ("false".toList.map Char.toUInt8)
    .ok (.bool ("false".toList.map Char.toUInt8), p)
  else do
    let p' ← number s p
    .ok (.number ((s.drop p).take (p' - p)), p')

/-- What `value` reads at its first character. -/
def dispatch (s : Bytes) (child : Cursor → Except Fault (Value × Cursor)) (c : Cursor) :
    Except Fault (Value × Cursor) := do
  let p := c.position
  let b ← peek s p
  if b = '"'.toUInt8 then do
    let (text, p) ← string s p
    .ok (.string text, c.at p)
  else match take s p '{' with
    | some p =>
      let p := spaces s p
      match take s p '}' with
      | some p => .ok (.object [], c.at p)
      | none => members s child (s.length + 1) [] (c.at p)
    | none =>
      match take s p '[' with
      | some p =>
        let p := spaces s p
        match take s p ']' with
        | some p => .ok (.array [], c.at p)
        | none => elements s child (s.length + 1) [] (c.at p)
      | none => do
        let (v, p) ← scalar s p b
        .ok (v, c.at p)

/-- `left` is `33 - depth`.
mirrors shared/km/json.h:120-152 -/
def value (s : Bytes) : Nat → Cursor → Except Fault (Value × Cursor)
  | 0, _ => .error .thrown
  | left + 1, c =>
    let c := { c with nodes := c.nodes + 1 }
    if c.nodes > 16384 then .error .thrown
    else
      let p := spaces s c.position
      if p = s.length then .error .thrown
      else dispatch s (value s left) (c.at p)

/-- mirrors shared/km/json.h:71-74,155 -/
def parse (s : Bytes) : Except Fault Value :=
  if s.length > 1024 * 1024 then .error .thrown
  else do
    let valid ← validUtf8 s
    if valid = false then .error .thrown
    else do
      let (result, c) ← value s 33 {}
      if spaces s c.position ≠ s.length then .error .thrown else .ok result

/-! ## Access -/

/-- mirrors shared/km/json.h:24-27 -/
def Value.find (v : Value) (name : Bytes) : Option Value :=
  match v with
  | .object fields => fields.lookup name
  | _ => none

/-- mirrors shared/km/json.h:18-23 -/
def Value.at (v : Value) (name : Bytes) : Except String Value :=
  match v with
  | .object fields =>
    match fields.lookup name with
    | some v => .ok v
    | none => .error "missing JSON field"
  | _ => .error "expected JSON object"

/-- mirrors shared/km/json.h:28-31 -/
def Value.asString : Value → Except String Bytes
  | .string text => .ok text
  | _ => .error "expected JSON string"

/-- `from_chars`, which has to reach the end of the text and to fit.
mirrors shared/km/json.h:32-38 -/
def Value.uint32 : Value → Except String UInt32
  | .number text =>
    let n := text.foldl (fun n b => n * 10 + (b.toNat - 48)) 0
    if text ≠ [] ∧ text.all isDigit ∧ n < 2 ^ 32 then .ok (UInt32.ofNat n)
    else .error "expected bounded unsigned integer"
  | _ => .error "expected bounded unsigned integer"

def ascii (s : String) : Bytes := s.toList.map Char.toUInt8

/-- mirrors shared/km/json.h:159-161 -/
def quoteByte (c : UInt8) : Bytes :=
  if c = '"'.toUInt8 ∨ c = '\\'.toUInt8 then ['\\'.toUInt8, c]
  else if c.toNat < 32 then
    let digits := ascii "0123456789abcdef"
    ascii "\\u00" ++ [digits.getD (c.toNat >>> 4) 0, digits.getD (c.toNat &&& 15) 0]
  else [c]

/-- mirrors shared/km/json.h:155-164 -/
def quote (s : Bytes) : Except String Bytes :=
  match validUtf8 s with
  | .ok true => .ok ('"'.toUInt8 :: s.flatMap quoteByte ++ ['"'.toUInt8])
  | _ => .error "invalid UTF-8"

end KmVirtualCamera.L1.Json

import Mathlib.Data.Nat.Digits.Defs
import FalconStd.Foundation.Loop
import FalconStd.Foundation.Regex
import FalconStd.Foundation.Substring
import FalconStd.Collections.Array

/-! The string routines (`strings/strings-wrapper.cpp`).

A string is its bytes. A loop of the source is a `loop` with fuel; `Int64` is the
`int` of the DSL, and a size is a natural number. -/
namespace FalconStd.Strings
open Foundation Substring

abbrev Byte := UInt8

abbrev Bytes := List Byte

/-- A literal of the source. -/
def text (s : String) : Bytes := s.toList.map Char.toUInt8

/-- `ErrorObject{message, fatal}`, which a conversion returns for a result. -/
structure ErrorObject where
  message : Bytes
  fatal : Bool
  deriving DecidableEq

/-! ### Searching and replacing -/

def contains (s sub : Bytes) : Bool := (find? sub s).isSome

def indexOf (s sub : Bytes) : Int :=
  match find? sub s with
  | some pos => pos
  | none => -1

/-- `s.replace(pos, n, to)`. -/
def replaceAt (s : Bytes) (pos n : Nat) (to_ : Bytes) : Bytes :=
  s.take pos ++ to_ ++ s.drop (pos + n)

/-- The first occurrence of `from_`. -/
def replace (s from_ to_ : Bytes) : Bytes :=
  match find? from_ s with
  | some pos => replaceAt s pos from_.length to_
  | none => s

namespace ReplaceAll

/-- The string, and the position to search from. -/
structure State where
  s : Bytes
  pos : Nat

def guard (from_ : Bytes) (st : State) : Bool := (findFrom? from_ st.s st.pos).isSome

/-- The search of the guard gives `pos`. -/
def body (from_ to_ : Bytes) (st : State) : Except Failure State :=
  match findFrom? from_ st.s st.pos with
  | some pos => .ok ⟨replaceAt st.s pos from_.length to_, pos + to_.length⟩
  | none => .ok st

end ReplaceAll

def replaceAll (fuel : Nat) (s from_ to_ : Bytes) : Option (Except Failure Bytes) :=
  if from_ = [] then some (.ok s)
  else (loop (ReplaceAll.guard from_) (ReplaceAll.body from_ to_) fuel ⟨s, 0⟩).map
    (·.map ReplaceAll.State.s)

/-- `s.substr(pos, n)`: what there is of `n` bytes. -/
def substr (s : Bytes) (pos n : Nat) : Bytes := (s.drop pos).take n

/-- The length is cast to the unsigned `size_t`. -/
def substring (s : Bytes) (begin_ length : Int64) : Bytes :=
  let start := if begin_ < 0 then 0 else begin_
  if (s.length : Int) ≤ start.toInt then []
  else substr s start.toUInt64.toNat length.toUInt64.toNat

/-! ### Escape sequences -/

/-- `[0-9;?]`. -/
def isParameter (b : Byte) : Bool := (0x30 ≤ b && b ≤ 0x39) || b == 0x3B || b == 0x3F

/-- From the space to the slash. -/
def isIntermediate (b : Byte) : Bool := 0x20 ≤ b && b ≤ 0x2F

/-- `[@-~]`. -/
def isFinal (b : Byte) : Bool := 0x40 ≤ b && b ≤ 0x7E

/-- The pattern is a raw string, so it begins with a backslash and three digits. -/
def ansi_re : Regex Byte :=
  .seq (Regex.word (text "\\033["))
    (.seq (.many isParameter) (.seq (.many isIntermediate) (.set isFinal)))

def backslash : Byte := 0x5C

def stripAnsi (s : Bytes) : Bytes := (ansi_re.removeAll s).filter (· != backslash)

/-! ### Conversion -/

/-- The decimal digits of `std::to_string`. -/
def decimal (n : Nat) : Bytes :=
  if n = 0 then text "0" else (Nat.digits 10 n).reverse.map fun d => UInt8.ofNat (0x30 + d)

def fromInt (i : Int64) : Bytes :=
  if i < 0 then text "-" ++ decimal i.toInt.natAbs else decimal i.toInt.natAbs

def fromBool (b : Bool) : Bytes := text (if b then "true" else "false")

def isspace (b : Byte) : Bool := b == 0x20 || (0x09 ≤ b && b ≤ 0x0D)

def isdigit (b : Byte) : Bool := 0x30 ≤ b && b ≤ 0x39

/-- The number that digits denote. -/
def valueOf (digits : Bytes) : Nat := Nat.ofDigits 10 (digits.reverse.map fun b => b.toNat - 0x30)

/-- How `std::stoll` throws. -/
inductive StollError where
  | invalid_argument
  | out_of_range
  deriving DecidableEq

/-- An optional sign, and what follows it. -/
def sign : Bytes → Bool × Bytes
  | [] => (false, [])
  | b :: s => if b = 0x2D then (true, s) else if b = 0x2B then (false, s) else (false, b :: s)

/-- The number at the front, and what follows it. -/
def strtoll (s : Bytes) : Option (Int × Bytes) :=
  let (negative, s) := sign (s.dropWhile isspace)
  let digits := s.takeWhile isdigit
  let n : Int := if negative then -valueOf digits else valueOf digits
  if digits = [] then none else some (n, s.dropWhile isdigit)

/-- `std::stoll`, of which the source does not ask where the number ends. -/
def stoll (s : Bytes) : Except StollError Int64 :=
  match strtoll s with
  | none => .error .invalid_argument
  | some (n, _) => if n < -2 ^ 63 ∨ 2 ^ 63 ≤ n then .error .out_of_range else .ok (Int64.ofInt n)

def toInt (s : Bytes) : Except ErrorObject Int64 :=
  match stoll s with
  | .ok n => .ok n
  | .error _ => .error ⟨text "Cannot parse int: " ++ s, false⟩

def toBool (s : Bytes) : Except ErrorObject Bool :=
  if s = text "true" ∨ s = text "1" then .ok true
  else if s = text "false" ∨ s = text "0" then .ok false
  else .error ⟨text "Cannot parse bool: " ++ s, false⟩

/-! ### Format -/

namespace Format

structure State where
  i : Nat
  arg_index : Nat
  result : Bytes

def guard (fmt : Bytes) (st : State) : Bool := st.i < fmt.length

def body (fmt : Bytes) (args : List Bytes) (st : State) : Except Failure State :=
  if st.i + 1 < fmt.length ∧ fmt[st.i]? = some 0x7B ∧ fmt[st.i + 1]? = some 0x7D then
    match args[st.arg_index]? with
    | some arg => .ok ⟨st.i + 2, st.arg_index + 1, st.result ++ arg⟩
    | none => .ok ⟨st.i + 2, st.arg_index, st.result ++ text "{}"⟩
  else do
    let c ← unchecked fmt st.i
    .ok ⟨st.i + 1, st.arg_index, st.result ++ [c]⟩

end Format

def format_string (fuel : Nat) (fmt : Bytes) (args : List Bytes) : Option (Except Failure Bytes) :=
  (loop (Format.guard fmt) (Format.body fmt args) fuel ⟨0, 0, []⟩).map (·.map Format.State.result)

/-- An element of the array that `Format` is called with. -/
inductive Element where
  | string (s : Bytes)
  | other

/-- The arguments, which have to be strings. -/
def args_vec : List Element → Except Failure (List Bytes)
  | [] => .ok []
  | .string s :: rest => do
    let args ← args_vec rest
    .ok (s :: args)
  | .other :: _ => .error (.error "Format: array element is not a string")

def format (fuel : Nat) (fmt : Bytes) (elements : List Element) : Option (Except Failure Bytes) :=
  match args_vec elements with
  | .ok args => format_string fuel fmt args
  | .error failure => some (.error failure)

end FalconStd.Strings

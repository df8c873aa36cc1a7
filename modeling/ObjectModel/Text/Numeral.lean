import ObjectModel.Binary64
import ObjectModel.Decimal.Nearest
import ObjectModel.Text.Bytes

/-!
# Numbers at the start of a byte string

Leading blanks are skipped, the longest numeral is read, and what follows it is ignored. Without
a digit the number is zero. Main statement: what one more digit does to the value of a run of digits.
-/

namespace ObjectModel.Numeral

/-- Blanks before a numeral: space, tab, line feed, form feed and carriage return. -/
def isBlank (byte : UInt8) : Bool :=
  byte = 0x20 || byte = 0x09 || byte = 0x0A || byte = 0x0C || byte = 0x0D

def isDigit (byte : UInt8) : Bool := 0x30 ≤ byte && byte ≤ 0x39

def takeSign : Bytes → Bytes × Bytes
  | byte :: rest => if byte = 0x2B || byte = 0x2D then ([byte], rest) else ([], byte :: rest)
  | [] => ([], [])

def isMinus (sign : Bytes) : Bool := sign == [0x2D]

def digitValue (digit : UInt8) : Nat := digit.toNat - 0x30

/-- A run of digits read so far: the value of its earlier digits, and that of the group of digits
read since, with the power of ten of their count. Long values are multiplied once for a group. -/
structure Reading where
  earlier : Nat := 0
  group : Nat := 0
  scale : Nat := 1

namespace Reading

/-- Groups of digits are closed when their power of ten is this large. -/
def groupScale : Nat := Nat.pow 10 256

def value (reading : Reading) : Nat := reading.earlier * reading.scale + reading.group

def push (reading : Reading) (digit : UInt8) : Reading :=
  if reading.scale < groupScale then
    { reading with group := reading.group * 10 + digitValue digit, scale := reading.scale * 10 }
  else { earlier := reading.value, group := digitValue digit, scale := 10 }

theorem value_push (reading : Reading) (digit : UInt8) :
    (reading.push digit).value = reading.value * 10 + digitValue digit := by
  unfold push
  split
  · simp only [value, Nat.add_mul, Nat.mul_assoc, Nat.add_assoc]
  · rfl

end Reading

def digitsValue (digits : Bytes) : Nat := (digits.foldl Reading.push {}).value

theorem digitsValue_concat (digits : Bytes) (digit : UInt8) :
    digitsValue (digits ++ [digit]) = digitsValue digits * 10 + digitValue digit := by
  simp [digitsValue, Reading.value_push]

/-- The value of a run of digits in 64-bit arithmetic, which wraps. -/
def wrappedValue (digits : Bytes) : Int64 :=
  digits.foldl (fun value digit => value * 10 + Int64.ofNat (digitValue digit)) 0

/-- The integer at the start of a byte string, after blanks and at most one sign. -/
def leadingInt (bytes : Bytes) : Int64 :=
  let (sign, rest) := takeSign (bytes.dropWhile isBlank)
  let magnitude := wrappedValue (rest.takeWhile isDigit)
  if isMinus sign then -magnitude else magnitude

structure Exponent where
  marker : UInt8
  sign : Bytes
  digits : Bytes

/-- A decimal numeral in its parts, each as it was written. -/
structure Parts where
  sign : Bytes
  whole : Bytes
  point : Bytes
  fraction : Bytes
  exponent : Option Exponent

def Exponent.bytes (exponent : Exponent) : Bytes :=
  exponent.marker :: (exponent.sign ++ exponent.digits)

def Parts.bytes (parts : Parts) : Bytes :=
  parts.sign ++ parts.whole ++ parts.point ++ parts.fraction ++
    (parts.exponent.map Exponent.bytes).getD []

/-- The exponent at the start of a byte string; a marker without digits is none. -/
def takeExponent : Bytes → Option Exponent
  | marker :: rest =>
    if marker = 0x65 || marker = 0x45 then
      let (sign, rest) := takeSign rest
      let digits := rest.takeWhile isDigit
      if digits.isEmpty then none else some ⟨marker, sign, digits⟩
    else none
  | [] => none

def takeFraction : Bytes → Bytes × Bytes × Bytes
  | byte :: rest =>
    if byte = 0x2E then ([byte], rest.takeWhile isDigit, rest.dropWhile isDigit)
    else ([], [], byte :: rest)
  | [] => ([], [], [])

/-- The longest decimal numeral at the start of a byte string. -/
def takeDecimal (bytes : Bytes) : Parts :=
  let (sign, rest) := takeSign bytes
  let whole := rest.takeWhile isDigit
  let (point, fraction, rest) := takeFraction (rest.dropWhile isDigit)
  ⟨sign, whole, point, fraction, takeExponent rest⟩

/-- An exponent of this size is large enough; digits that follow are passed over. -/
def largeExponent : Nat := 0x10000

def Exponent.value (exponent : Exponent) : Int :=
  let magnitude : Nat := exponent.digits.foldl
    (fun value digit => if value < largeExponent then value * 10 + digitValue digit else value) 0
  if isMinus exponent.sign then -magnitude else magnitude

/-- The double nearest to a numeral that has a digit before its exponent, and zero for any other.
A minus sign sets the sign of a zero too. -/
def Parts.toFloat (parts : Parts) : Binary64 :=
  let digits := parts.whole ++ parts.fraction
  if digits.isEmpty then .zero
  else
    let exponent := (parts.exponent.map Exponent.value).getD 0
    let bits := Decimal.nearestDecimalBits (digitsValue digits) (exponent - parts.fraction.length)
    ⟨if isMinus parts.sign then bits ||| 0x8000000000000000 else bits⟩

/-- The double that a whole text stands for, if it is a numeral with a digit before its exponent. -/
def readDecimal? (text : String) : Option Binary64 :=
  let bytes := Bytes.ofText text
  let parts := takeDecimal bytes
  if parts.bytes = bytes && !(parts.whole ++ parts.fraction).isEmpty then some parts.toFloat else none

def signEnd (bytes : Bytes) (start : Nat) : Nat :=
  if bytes[start]? = some 0x2B || bytes[start]? = some 0x2D then start + 1 else start

def digitsEnd (bytes : Bytes) (start : Nat) : Nat :=
  start + ((bytes.drop start).takeWhile isDigit).length

def fractionEnd (bytes : Bytes) (start : Nat) : Nat :=
  if bytes[start]? = some 0x2E then digitsEnd bytes (start + 1) else start

/-- Where the exponent ends that may be at `start`. Behind a marker without digits the scan goes back to the
marker. -/
def exponentEnd (bytes : Bytes) (start : Nat) : Nat :=
  if bytes[start]? = some 0x65 || bytes[start]? = some 0x45 then
    let digits := signEnd bytes (start + 1)
    let stop := digitsEnd bytes digits
    if digits < stop then stop else start
  else start

/-- Where the numeral ends that a byte string starts with. -/
def decimalEnd (bytes : Bytes) : Nat :=
  exponentEnd bytes (fractionEnd bytes (digitsEnd bytes (signEnd bytes 0)))

/-- What a reader of whole texts makes of the numeral that a byte string starts with, after blanks; zero
where it reads no number. -/
def leadingBy (read : String → Option Binary64) (bytes : Bytes) : Binary64 :=
  let rest := bytes.dropWhile isBlank
  let numeral := rest.take (decimalEnd rest)
  ((String.fromUTF8? numeral.toByteArray).bind read).getD .zero

def leadingFloat (bytes : Bytes) : Binary64 := leadingBy readDecimal? bytes

end ObjectModel.Numeral

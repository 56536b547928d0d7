/-
The values behind the written numbers, dates and times of a document, and which of them
have one.
-/
import Bindery.Binary64
import Bindery.Toml.Parser

namespace Bindery.Toml

/-- A number with a point or an exponent, or one of the two that are no ordinary numbers. -/
inductive Real where
  | nan
  | infinite (negative : Bool)
  | finite (negative : Bool) (magnitude : Binary64)
  deriving DecidableEq, Repr

/-- Any number other than zero; what is no number is not zero either. -/
def Real.isNonzero : Real → Bool
  | .finite _ x => x.mantissa != 0
  | _ => true

/-- A minus sign, or nothing. -/
def minus (negative : Bool) : Bytes := if negative then [45] else []

/-- The shortest digits that read back, without an exponent. -/
def Real.text : Real → Bytes
  | .nan => utf8 "NaN"
  | .infinite negative => (if negative then utf8 "-" else utf8 "+") ++ utf8 "Inf"
  | .finite negative x => minus negative ++ x.shortest.positional

/-! ## Numbers -/

/-- The sign at the front of a number, and the rest. -/
def sign : Bytes → Bool × Bytes
  | 45 :: s => (true, s)
  | 43 :: s => (false, s)
  | s => (false, s)

/-- The value of digits in a base. -/
def digitsValue (base : Nat) (ds : Bytes) : Nat :=
  ds.foldl (fun n d => base * n + (Byte.hexValue? d).getD 0) 0

/-- Digits of a base with single underscores between them. -/
def digits? (base : Nat) (s : Bytes) : Option Bytes :=
  let parts := Bytes.split 95 s
  let isDigit (b : UInt8) := (Byte.hexValue? b).any (· < base)
  if parts.all fun p => !p.isEmpty && p.all isDigit then some parts.flatten else none

/-- A number that fits into 64 bits with a sign. -/
def fits? (n : Int) : Option Int :=
  if -0x8000000000000000 ≤ n ∧ n < 0x8000000000000000 then some n else none

/-- The value of an integer. A decimal one may have a sign and has no zero at its front. -/
def integer? (s : Bytes) : Option Int :=
  match s with
  | 48 :: 120 :: ds => do fits? (digitsValue 16 (← digits? 16 ds))
  | 48 :: 111 :: ds => do fits? (digitsValue 8 (← digits? 8 ds))
  | 48 :: 98 :: ds => do fits? (digitsValue 2 (← digits? 2 ds))
  | s => do
    let (negative, s) := sign s
    let ds ← digits? 10 s
    if ds.head? = some 48 ∧ ds.length ≠ 1 then none
    let n : Int := digitsValue 10 ds
    fits? (if negative then -n else n)

/-- The decimal digits at the front, of which there is at least one, with single
underscores between them. -/
def decimals : Parse Bytes := fun s => do
  let run := s.takeWhile fun b => Byte.isDigit b || b == 95
  return (← digits? 10 run, s.drop run.length)

/-- The exponent of a decimal, zero when none is written. -/
def exponent? : Bytes → Option Int
  | [] => some 0
  | mark :: s => do
    if mark ≠ 101 ∧ mark ≠ 69 then none
    let (negative, s) := sign s
    let (ds, s) ← decimals s
    if !s.isEmpty then none
    let n : Int := digitsValue 10 ds
    return if negative then -n else n

/-- The value of a number with a point or an exponent, nothing when it is malformed or too
large. -/
def real? (s : Bytes) : Option Real := do
  let (negative, s) := sign s
  if s = utf8 "nan" then return .nan
  if s = utf8 "inf" then return .infinite negative
  let (whole, s) ← decimals s
  if whole.head? = some 48 ∧ whole.length ≠ 1 then none
  let (places, s) ← match s with
    | 46 :: s => decimals s
    | s => some ([], s)
  let e ← exponent? s
  let x ← Binary64.ofDecimal ⟨digitsValue 10 (whole ++ places), e - places.length⟩
  return .finite negative x

/-! ## Dates and times -/

/-- A number of exactly so many digits that is at most `most`. -/
def bounded (digits most : Nat) : Parse Nat := fun s =>
  let ds := s.take digits
  let n := digitsValue 10 ds
  if ds.length = digits ∧ ds.all Byte.isDigit ∧ n ≤ most then some (n, s.drop digits) else none

def daysIn (year month : Nat) : Nat :=
  if month = 2 then
    if year % 4 = 0 ∧ (year % 100 ≠ 0 ∨ year % 400 = 0) then 29 else 28
  else if month = 4 ∨ month = 6 ∨ month = 9 ∨ month = 11 then 30
  else 31

/-- Steps over a date. -/
def dateRest (s : Bytes) : Option Bytes := do
  let (year, s) ← bounded 4 9999 s
  let (month, s) ← bounded 2 12 (← expect 45 s)
  let (day, s) ← bounded 2 31 (← expect 45 s)
  if month = 0 ∨ day = 0 ∨ daysIn year month < day then none else some s

/-- Steps over a time; its seconds may be a leap second and may have a fraction. -/
def timeRest (s : Bytes) : Option Bytes := do
  let (_, s) ← bounded 2 23 s
  let (_, s) ← bounded 2 59 (← expect 58 s)
  let (_, s) ← bounded 2 60 (← expect 58 s)
  match s with
  | 46 :: s =>
    let ds := s.takeWhile Byte.isDigit
    if ds.isEmpty then none else some (s.drop ds.length)
  | s => some s

/-- Steps over an offset from universal time. -/
def offsetRest : Bytes → Option Bytes
  | [] => none
  | c :: s =>
    if c = 90 ∨ c = 122 then some s
    else if c = 43 ∨ c = 45 then do
      let (_, s) ← bounded 2 23 s
      let (_, s) ← bounded 2 59 (← expect 58 s)
      return s
    else none

/-- Steps over a date and the time behind it. -/
def dateTimeRest (s : Bytes) : Option Bytes := do
  match ← dateRest s with
  | c :: s => if c = 84 ∨ c = 116 ∨ c = 32 then timeRest s else none
  | [] => none

/-- A written date or time names one. -/
def isMoment (date time offset : Bool) (s : Bytes) : Bool :=
  let rest :=
    if !time then dateRest s
    else if !date then timeRest s
    else if offset then (dateTimeRest s).bind offsetRest
    else dateTimeRest s
  rest == some []

/-! ## Sound values -/

mutual

/-- Every number, date and time in a value has a value of its own. -/
def Value.isSound : Value → Bool
  | .string _ => true
  | .boolean _ => true
  | .integer s => (integer? s).isSome
  | .float s => (real? s).isSome
  | .moment date time offset s => isMoment date time offset s
  | .array vs => areSound vs
  | .table es => entriesSound es

def areSound : List Value → Bool
  | [] => true
  | v :: vs => v.isSound && areSound vs

def entriesSound : List (Bytes × Value) → Bool
  | [] => true
  | (_, v) :: es => v.isSound && entriesSound es

end

end Bindery.Toml

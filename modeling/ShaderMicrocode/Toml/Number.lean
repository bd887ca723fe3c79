import ShaderMicrocode.Toml.Lexical
/-!
# TOML numbers and dates

Integers of 64 bits, floats of binary64 range, dates and times of day.
-/
namespace ShaderMicrocode.Toml

/-- The digits that follow a digit; single low lines may stand between digits. -/
def moreDigits (isDigit : Char → Bool) : List Char → List Char × List Char
  | [] => ([], [])
  | [c] => if isDigit c then ([c], []) else ([], [c])
  | c :: d :: rest =>
    if isDigit c then
      let (digits, rest) := moreDigits isDigit (d :: rest)
      (c :: digits, rest)
    else if c = '_' ∧ isDigit d then
      let (digits, rest) := moreDigits isDigit rest
      (d :: digits, rest)
    else ([], c :: d :: rest)

/-- One or more digits. -/
def readDigits (isDigit : Char → Bool) : Reader (List Char)
  | c :: rest =>
    if isDigit c then
      let (digits, rest) := moreDigits isDigit rest
      some (c :: digits, rest)
    else none
  | [] => none

def ofDigits (base : Nat) (digits : List Char) : Nat := digits.foldl (fun n c => base * n + digitValue c) 0

/-- Whether a minus stands in front, and the rest after a sign. -/
def readSign : List Char → Bool × List Char
  | '+' :: rest => (false, rest)
  | '-' :: rest => (true, rest)
  | rest => (false, rest)

/-- Decimal digits without leading zeros. -/
def readWhole : Reader (List Char)
  | '0' :: rest => some (['0'], rest)
  | cs => readDigits Char.isDigit cs

/-- Whether a number fits into 64 bits with sign. -/
def isInt64 (n : Int) : Bool := -9223372036854775808 ≤ n && n ≤ 9223372036854775807

def boundedInteger (n : Int) (rest : List Char) : Option (Int × List Char) :=
  if isInt64 n then some (n, rest) else none

/-- Decimal integers may have a sign; the other bases have none. -/
def readInteger : Reader Int
  | '0' :: 'x' :: rest => do
    let (digits, rest) ← readDigits isHexDigit rest
    boundedInteger (ofDigits 16 digits) rest
  | '0' :: 'o' :: rest => do
    let (digits, rest) ← readDigits (fun c => '0' ≤ c && c ≤ '7') rest
    boundedInteger (ofDigits 8 digits) rest
  | '0' :: 'b' :: rest => do
    let (digits, rest) ← readDigits (fun c => c == '0' || c == '1') rest
    boundedInteger (ofDigits 2 digits) rest
  | cs => do
    let (isNegative, rest) := readSign cs
    let (digits, rest) ← readWhole rest
    let n : Int := ofDigits 10 digits
    boundedInteger (if isNegative then -n else n) rest

/-- What rounds to no finite binary64 number starts half a step above the last of them. -/
def binary64Limit : Nat := Nat.pow 2 1024 - Nat.pow 2 970

/-- Whether `m · 10 ^ e` rounds to no finite binary64 number. -/
def exceedsBinary64 (m : Nat) (e : Int) : Bool :=
  let magnitude : Int := m.repr.length + e
  if m = 0 ∨ magnitude < 309 then false
  else if 309 < magnitude then true
  else if 0 ≤ e then binary64Limit ≤ m * Nat.pow 10 e.toNat
  else binary64Limit * Nat.pow 10 (-e).toNat ≤ m

def readFraction : Reader (List Char)
  | '.' :: rest => readDigits Char.isDigit rest
  | _ => none

def readExponent : Reader Int
  | c :: rest =>
    if c = 'e' ∨ c = 'E' then do
      let (isNegative, rest) := readSign rest
      let (digits, rest) ← readDigits Char.isDigit rest
      let n : Int := ofDigits 10 digits
      pure (if isNegative then -n else n, rest)
    else none
  | [] => none

/-- A number with a fraction, an exponent or both. One that exceeds the range upwards is refused. -/
def readDecimalFloat (cs : List Char) : Option (List Char) := do
  let (isNegative, rest) := readSign cs
  let (whole, rest) ← readWhole rest
  let (fraction, exponent, rest) ← match readFraction rest with
    | some (fraction, rest) =>
      match readExponent rest with
      | some (e, rest) => some (fraction, e, rest)
      | none => some (fraction, 0, rest)
    | none => (readExponent rest).map fun (e, rest) => ([], e, rest)
  if exceedsBinary64 (ofDigits 10 (whole ++ fraction)) (exponent - fraction.length) ∧ ¬isNegative then none
  else pure rest

def readSpecialFloat (cs : List Char) : Option (List Char) :=
  match (readSign cs).2 with
  | 'i' :: 'n' :: 'f' :: rest => some rest
  | 'n' :: 'a' :: 'n' :: rest => some rest
  | _ => none

/-- The rest after a float. -/
def readFloat (cs : List Char) : Option (List Char) := readDecimalFloat cs <|> readSpecialFloat cs

/-- A number of exactly `n` digits. -/
def readFixed (n : Nat) : Reader Nat := fun cs =>
  let digits := cs.take n
  if digits.length = n ∧ digits.all Char.isDigit then some (ofDigits 10 digits, cs.drop n) else none

/-- A number of two digits within bounds. -/
def readTwo (low high : Nat) : Reader Nat := fun cs =>
  (readFixed 2 cs).filter fun (n, _) => low ≤ n && n ≤ high

/-- The rest after a given character. -/
def expect (c : Char) : List Char → Option (List Char)
  | d :: rest => if c = d then some rest else none
  | [] => none

def daysInMonth (year month : Nat) : Nat :=
  if month = 2 then (if year % 4 = 0 ∧ (year % 100 ≠ 0 ∨ year % 400 = 0) then 29 else 28)
  else if month = 4 ∨ month = 6 ∨ month = 9 ∨ month = 11 then 30
  else 31

/-- The rest after a date. -/
def readDate (cs : List Char) : Option (List Char) := do
  let (year, rest) ← readFixed 4 cs
  let (month, rest) ← readTwo 1 12 (← expect '-' rest)
  let (_, rest) ← readTwo 1 (daysInMonth year month) (← expect '-' rest)
  pure rest

/-- The rest after a time of day; a minute may have a leap second. -/
def readTime (cs : List Char) : Option (List Char) := do
  let (_, rest) ← readTwo 0 23 cs
  let (_, rest) ← readTwo 0 59 (← expect ':' rest)
  let (_, rest) ← readTwo 0 60 (← expect ':' rest)
  match rest with
  | '.' :: digits =>
    if (digits.takeWhile Char.isDigit).isEmpty then pure rest else pure (digits.dropWhile Char.isDigit)
  | _ => pure rest

/-- The rest after an offset from universal time. -/
def readOffset : List Char → Option (List Char)
  | [] => none
  | c :: rest =>
    if c = 'Z' ∨ c = 'z' then some rest
    else if c = '+' ∨ c = '-' then do
      let (_, rest) ← readTwo 0 23 rest
      let (_, rest) ← readTwo 0 59 (← expect ':' rest)
      pure rest
    else none

/-- The rest after a date, a time, or both; a date with a time may have an offset. -/
def readDatetime (cs : List Char) : Option (List Char) :=
  match readDate cs with
  | none => readTime cs
  | some afterDate =>
    match afterDate with
    | c :: rest =>
      if c = 'T' ∨ c = 't' ∨ c = ' ' then
        match readTime rest with
        | some afterTime => some ((readOffset afterTime).getD afterTime)
        | none => some afterDate
      else some afterDate
    | [] => some afterDate

end ShaderMicrocode.Toml

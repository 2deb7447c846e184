import PathSelection.Toml.Value

namespace PathSelection.Toml

inductive Fault where
  | invalid
  /-- A decimal integer has more digits than are ever read. -/
  | integerTooLong
deriving DecidableEq, Repr

/-- An attempt to read something. Text that is not what it was taken for may still be something
else, but an integer that is too long ends the reading. -/
def Attempt (α : Type) : Type := Except Fault α

namespace Attempt

instance : Monad Attempt := inferInstanceAs (Monad (Except Fault))

def ofOption {α : Type} : Option α → Attempt α
  | some a => .ok a
  | none => .error .invalid

instance : MonadLift Option Attempt := ⟨ofOption⟩

def orElse {α : Type} (first : Attempt α) (second : Unit → Attempt α) : Attempt α :=
  match first with
  | .error .invalid => second ()
  | .error .integerTooLong => .error .integerTooLong
  | .ok a => .ok a

instance : Alternative Attempt where
  failure := .error .invalid
  orElse := orElse

end Attempt

/-- A scanner takes what it knows from the front of the text and leaves the rest. -/
abbrev Scanner := StateT Text Attempt

def isSpace (c : Char) : Bool := c == ' ' || c == '\t'

def isLayout (c : Char) : Bool := isSpace c || c == '\n'

/-- A control character other than the tab may stand neither in comments nor in strings. -/
def isControl (c : Char) : Bool := (c.toNat < 32 && c != '\t') || c.toNat == 127

def isBareKey (c : Char) : Bool := c.isAlphanum || c == '-' || c == '_'

def isHexDigit (c : Char) : Bool := c.isDigit || ('a' ≤ c && c ≤ 'f') || ('A' ≤ c && c ≤ 'F')

def digitValue (c : Char) : Nat :=
  if c.isDigit then c.toNat - 48 else if 'a' ≤ c then c.toNat - 87 else c.toNat - 55

def valueOf (base : Nat) (digits : Text) : Nat :=
  digits.foldl (fun n c => n * base + digitValue c) 0

namespace Scanner

def peek : Scanner (Option Char) := fun t => .ok (t.head?, t)

def skip (p : Char → Bool) : Scanner Unit := fun t => .ok ((), t.dropWhile p)

def expect (s : Text) : Scanner Unit := fun t =>
  if s.isPrefixOf t then .ok ((), t.drop s.length) else .error .invalid

def accept (s : Text) : Scanner Bool := fun t =>
  if s.isPrefixOf t then .ok (true, t.drop s.length) else .ok (false, t)

def takeAll (p : Char → Bool) : Scanner Text := fun t => .ok (t.takeWhile p, t.dropWhile p)

def withText {α : Type} (s : Scanner α) : Scanner (α × Text) := fun t => do
  let (a, rest) ← s t
  return ((a, t.take (t.length - rest.length)), rest)

def ofOption {α : Type} (f : Text → Option (α × Text)) : Scanner α := fun t => .ofOption (f t)

def comment : Scanner Unit := do
  if ← accept ['#'] then
    skip fun c => !isControl c
    let c ← peek
    guard (c.all (· == '\n'))

def layout : Nat → Scanner Unit
  | 0 => pure ()
  | n + 1 => do
    skip isLayout
    if (← peek) == some '#' then
      comment
      layout n

-- Strings.

def literal : Scanner Text := do
  let s ← takeAll fun c => !isControl c && c != '\''
  expect ['\'']
  return s

def literalLines : Scanner Text := ofOption go
where
  go : Text → Option (Text × Text)
    | [] => none
    | c :: cs =>
      if ['\'', '\'', '\''].isPrefixOf (c :: cs) then some ([], cs.drop 2)
      else if isControl c && c != '\n' then none
      else (go cs).map fun (s, rest) => (c :: s, rest)

inductive Margin where
  | none
  /-- After a backslash at the end of a line: only spaces may follow on that line. -/
  | lineEnd
  /-- After that line end: white space is left out. -/
  | nextLine
deriving DecidableEq

def escaped? : Char → Option Char
  | 'b' => some '\x08'
  | 't' => some '\t'
  | 'n' => some '\n'
  | 'f' => some '\x0c'
  | 'r' => some '\r'
  | '"' => some '"'
  | '\\' => some '\\'
  | _ => none

def ofCode? (digits : Text) : Option Char :=
  let n := valueOf 16 digits
  if h : digits.all isHexDigit ∧ n.isValidChar then some ⟨n.toUInt32, by
    have := h.2
    simp only [Nat.isValidChar] at this
    simp only [UInt32.isValidChar, Nat.isValidChar, Nat.toUInt32_eq, UInt32.toNat_ofNat']
    omega⟩
  else none

def basic (multiline : Bool) : Margin → Text → Option (Text × Text)
  | _, [] => none
  | margin, c :: cs =>
    let push (c : Char) : Option (Text × Text) → Option (Text × Text) :=
      Option.map fun (s, rest) => (c :: s, rest)
    if margin = .lineEnd then
      if c = '\n' then basic multiline .nextLine cs
      else if isSpace c then basic multiline .lineEnd cs
      else none
    else if margin = .nextLine ∧ isLayout c then basic multiline .nextLine cs
    else if c = '"' then
      if !multiline then some ([], cs)
      else if ['"', '"'].isPrefixOf cs then some ([], cs.drop 2)
      else push c (basic multiline .none cs)
    else if c = '\\' then
      match cs with
      | 'u' :: a :: b :: c :: d :: rest =>
        match ofCode? [a, b, c, d] with
        | some x => push x (basic multiline .none rest)
        | none => none
      | 'U' :: a :: b :: c :: d :: e :: f :: g :: h :: rest =>
        match ofCode? [a, b, c, d, e, f, g, h] with
        | some x => push x (basic multiline .none rest)
        | none => none
      | e :: rest =>
        if multiline && e == '\n' then basic multiline .nextLine rest
        else if multiline && isSpace e then basic multiline .lineEnd rest
        else match escaped? e with
          | some x => push x (basic multiline .none rest)
          | none => none
      | [] => none
    else if isControl c && !(multiline && c == '\n') then none
    else push c (basic multiline .none cs)

/-- Up to two more marks before the closing ones belong to a string of several lines. -/
def closingMarks (mark : Char) : Scanner Text := do
  if !(← accept [mark]) then return []
  else if !(← accept [mark]) then return [mark]
  else return [mark, mark]

def singleQuoted : Scanner Text := do
  if ← accept ['\'', '\'', '\''] then
    let _ ← accept ['\n']
    let s ← literalLines
    return s ++ (← closingMarks '\'')
  else
    expect ['\'']
    literal

def doubleQuoted : Scanner Text := do
  if ← accept ['"', '"', '"'] then
    let _ ← accept ['\n']
    let s ← ofOption (basic true .none)
    return s ++ (← closingMarks '"')
  else
    expect ['"']
    ofOption (basic false .none)

-- Keys.

def keyPart : Scanner Text := do
  match ← peek with
  | some '\'' => expect ['\'']; literal
  | some '"' => expect ['"']; ofOption (basic false .none)
  | _ =>
    let s ← takeAll isBareKey
    guard (s != [])
    return s

def moreParts : Nat → Scanner (List Text)
  | 0 => failure
  | n + 1 => do
    skip isSpace
    if ← accept ['.'] then
      skip isSpace
      let part ← keyPart
      return part :: (← moreParts n)
    else return []

def key : Scanner (List Text) := do
  let part ← keyPart
  let rest ← get
  return part :: (← moreParts (rest.length + 1))

-- Numbers, dates and times.

def moreDigits (isDigit : Char → Bool) : Text → Text × Text
  | [] => ([], [])
  | '_' :: c :: cs =>
    if isDigit c then
      let (ds, rest) := moreDigits isDigit cs
      (c :: ds, rest)
    else ([], '_' :: c :: cs)
  | c :: cs =>
    if isDigit c then
      let (ds, rest) := moreDigits isDigit cs
      (c :: ds, rest)
    else ([], c :: cs)

def digits (isDigit : Char → Bool) : Scanner Text
  | c :: cs =>
    if isDigit c then
      let (ds, rest) := moreDigits isDigit cs
      .ok (c :: ds, rest)
    else .error .invalid
  | [] => .error .invalid

def optional {α : Type} (s : Scanner α) : Scanner (Option α) := (some <$> s) <|> pure none

def basedInteger : Scanner Value :=
  based 'x' 16 isHexDigit <|> based 'b' 2 (fun c => c == '0' || c == '1')
    <|> based 'o' 8 (fun c => '0' ≤ c && c ≤ '7')
where
  based (mark : Char) (base : Nat) (isDigit : Char → Bool) : Scanner Value := do
    expect ['0', mark]
    return .integer (valueOf base (← digits isDigit))

/-- The digits before the point: no zero stands before others. -/
def wholePart : Scanner Text := do
  if ← accept ['0'] then return ['0'] else digits Char.isDigit

def maxDigits : Nat := 4300

def tooLong {α : Type} : Scanner α := fun _ => .error .integerTooLong

/-- Whether a decimal number has a fraction or an exponent, whether it is negative, and its digits
before the point. -/
def number : Scanner (Bool × Bool × Text) := do
  let negative ← accept ['-']
  if !negative then let _ ← accept ['+']
  let whole ← wholePart
  let fraction ← optional do expect ['.']; digits Char.isDigit
  let exponent ← optional do
    (expect ['e'] <|> expect ['E'])
    if !(← accept ['-']) then let _ ← accept ['+']
    digits Char.isDigit
  return (fraction.isSome || exponent.isSome, negative, whole)

def decimal : Scanner Value := do
  let ((isFloat, negative, whole), text) ← withText number
  if isFloat then return .float text
  else if whole.length > maxDigits then tooLong
  else
    let value := valueOf 10 whole
    return .integer (if negative then -(value : Int) else value)

def specialFloat : Scanner Value := do
  let (_, text) ← withText do
    if !(← accept ['-']) then let _ ← accept ['+']
    (expect ['i', 'n', 'f'] <|> expect ['n', 'a', 'n'])
  return .float text

def fixed (count low high : Nat) : Scanner Nat := fun t =>
  let ds := t.take count
  let n := valueOf 10 ds
  if ds.length == count && ds.all Char.isDigit && low ≤ n && n ≤ high then .ok (n, t.drop count)
  else .error .invalid

def clock : Scanner Unit := do
  let _ ← fixed 2 0 23
  expect [':']
  let _ ← fixed 2 0 59
  expect [':']
  let _ ← fixed 2 0 59
  let _ ← optional do
    expect ['.']
    let ds ← takeAll Char.isDigit
    guard (ds != [])

def offset : Scanner Unit :=
  expect ['Z'] <|> expect ['z'] <|> do
    (expect ['+'] <|> expect ['-'])
    let _ ← fixed 2 0 23
    expect [':']
    let _ ← fixed 2 0 59

def daysIn (year month : Nat) : Nat :=
  if month = 2 then if year % 4 = 0 ∧ (year % 100 ≠ 0 ∨ year % 400 = 0) then 29 else 28
  else if month ∈ [4, 6, 9, 11] then 30
  else 31

def day : Scanner Unit := do
  let year ← fixed 4 0 9999
  expect ['-']
  let month ← fixed 2 1 12
  expect ['-']
  let _ ← fixed 2 1 (daysIn year month)
  guard (year ≠ 0)

def dateOrDateTime : Scanner Value := do
  let (time, text) ← withText do
    day
    optional do
      (expect ['T'] <|> expect ['t'] <|> expect [' '])
      clock
      optional offset
  return if time.isSome then .dateTime text else .date text

def localTime : Scanner Value := do
  let (_, text) ← withText clock
  return .time text

def scalar : Scanner Value :=
  (do expect ['t', 'r', 'u', 'e']; return .boolean true)
    <|> (do expect ['f', 'a', 'l', 's', 'e']; return .boolean false)
    <|> dateOrDateTime <|> localTime <|> basedInteger <|> decimal <|> specialFloat

end Scanner
end PathSelection.Toml

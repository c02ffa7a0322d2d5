import Parlance.Text.Basic

/-!
The plain TOML values: numbers, dates and times, and strings in their four forms.
-/

namespace Parlance.Toml

/-! ## Numbers -/

/-- Whether a text is digits of some sort with single underscores between them. -/
def isRun (isDigit : Char → Bool) : Text → Bool
  | [] => false
  | [c] => isDigit c
  | c :: '_' :: rest => isDigit c && isRun isDigit rest
  | c :: rest => isDigit c && isRun isDigit rest

def digitValue (c : Char) : Nat :=
  if c.isDigit then c.toNat - '0'.toNat else c.toLower.toNat - 'a'.toNat + 10

def runValue (base : Nat) (t : Text) : Nat :=
  (t.filter (· ≠ '_')).foldl (fun n c => base * n + digitValue c) 0

def unsigned : Text → Text
  | '+' :: rest => rest
  | '-' :: rest => rest
  | t => t

/-- Whether a text is a decimal run without a leading zero. -/
def isWhole (t : Text) : Bool := t = ['0'] || (isRun Char.isDigit t && t.head? ≠ some '0')

def isHexDigit (c : Char) : Bool :=
  c.isDigit || ('a' ≤ c && c ≤ 'f') || ('A' ≤ c && c ≤ 'F')

/-- The least whole number that is too large. -/
def wholeLimit : Nat := Nat.pow 2 63

/-- Whether a text is a whole number: decimal with a sign, or hexadecimal, octal or binary. -/
def isInteger : Text → Bool
  | '0' :: 'x' :: t => isRun isHexDigit t && runValue 16 t < wholeLimit
  | '0' :: 'o' :: t => isRun (fun c => '0' ≤ c && c ≤ '7') t && runValue 8 t < wholeLimit
  | '0' :: 'b' :: t => isRun (fun c => c = '0' || c = '1') t && runValue 2 t < wholeLimit
  | t =>
    let digits := unsigned t
    isWhole digits &&
      -- the least number lies one further from zero than the greatest
      (runValue 10 digits < wholeLimit || (t.head? = some '-' && runValue 10 digits = wholeLimit))

/-- Whether a text is empty or an exponent. -/
def isExponent : Text → Bool
  | [] => true
  | c :: rest => c.toLower = 'e' && isRun Char.isDigit (unsigned rest)

/-- Whether a text is a number with a fraction or an exponent, or one without digits. -/
def isFloat (t : Text) : Bool :=
  let t := unsigned t
  let isMark (c : Char) : Bool := c = '.' || c = 'e' || c = 'E'
  t = "inf".toList || t = "nan".toList ||
    isWhole (t.takeWhile fun c => !isMark c) &&
      match t.dropWhile fun c => !isMark c with
      | [] => false
      | '.' :: rest =>
        isRun Char.isDigit (rest.takeWhile fun c => !isMark c) &&
          isExponent (rest.dropWhile fun c => !isMark c)
      | rest => isExponent rest

/-! ## Dates and times -/

/-- Whether a text is two digits with a value in a range. -/
def isPair (low high : Nat) (t : Text) : Bool :=
  t.length = 2 && t.all Char.isDigit && low ≤ runValue 10 t && runValue 10 t ≤ high

/-- The number of days of a month. -/
def monthLength (year month : Nat) : Nat :=
  if month = 2 then
    if year % 4 = 0 && (year % 100 ≠ 0 || year % 400 = 0) then 29 else 28
  else if month = 4 || month = 6 || month = 9 || month = 11 then 30
  else 31

def isDate : Text → Bool
  | [y₁, y₂, y₃, y₄, '-', m₁, m₂, '-', d₁, d₂] =>
    [y₁, y₂, y₃, y₄].all Char.isDigit && isPair 1 12 [m₁, m₂] &&
      isPair 1 (monthLength (runValue 10 [y₁, y₂, y₃, y₄]) (runValue 10 [m₁, m₂])) [d₁, d₂]
  | _ => false

/-- Whether a text is a time of day, with or without a fraction of the second. -/
def isTime : Text → Bool
  | h₁ :: h₂ :: ':' :: m₁ :: m₂ :: ':' :: s₁ :: s₂ :: rest =>
    -- a leap second has the number 60
    isPair 0 23 [h₁, h₂] && isPair 0 59 [m₁, m₂] && isPair 0 60 [s₁, s₂] &&
      match rest with
      | [] => true
      | '.' :: fraction => !fraction.isEmpty && fraction.all Char.isDigit
      | _ => false
  | _ => false

/-- Whether a text is empty or the offset of a time zone. -/
def isZone : Text → Bool
  | [] => true
  | [c] => c = 'Z' || c = 'z'
  | [sign, h₁, h₂, ':', m₁, m₂] =>
    (sign = '+' || sign = '-') && isPair 0 23 [h₁, h₂] && isPair 0 59 [m₁, m₂]
  | _ => false

/-- Whether a text is a time of day with or without a time zone. -/
def isZonedTime (t : Text) : Bool :=
  let isTimePart (c : Char) : Bool := c.isDigit || c = ':' || c = '.'
  isTime (t.takeWhile isTimePart) && isZone (t.dropWhile isTimePart)

def isMoment (t : Text) : Bool :=
  isDate t || isTime t ||
    -- both, with a letter or a space between
    isDate (t.take 10) && (t.drop 10).head?.any (fun c => c = 'T' || c = 't' || c = ' ') &&
      isZonedTime (t.drop 11)

/-! ## Strings -/

/-- Whether a character may stand in a comment or, unescaped, in a string. -/
def isPlain (c : Char) : Bool := c = '\t' || (32 ≤ c.toNat && c.toNat ≠ 127)

/-- The character with a code point given by hexadecimal digits. -/
def codePoint? (digits : Text) : Option Char :=
  let n := runValue 16 digits
  if digits.all isHexDigit && n.isValidChar then some (Char.ofNat n) else none

/-- The character that a letter after a backslash stands for. -/
def escaped? (c : Char) : Option Char :=
  [('b', '\x08'), ('t', '\t'), ('n', '\n'), ('f', '\x0c'), ('r', '\r'), ('"', '"'),
    ('\\', '\\')].lookup c

/-- A string read so far with one more character before it. -/
def withChar (c : Char) (read : Option (Text × Text)) : Option (Text × Text) :=
  read.map fun (t, rest) => (c :: t, rest)

/-- Reads a string after its opening quote, and what follows its closing one. -/
def basicString : Text → Option (Text × Text)
  | [] => none
  | '"' :: rest => some ([], rest)
  | '\\' :: 'u' :: a :: b :: c :: d :: rest => do
    withChar (← codePoint? [a, b, c, d]) (basicString rest)
  | '\\' :: 'U' :: a :: b :: c :: d :: e :: f :: g :: h :: rest => do
    withChar (← codePoint? [a, b, c, d, e, f, g, h]) (basicString rest)
  | '\\' :: c :: rest => do withChar (← escaped? c) (basicString rest)
  | c :: rest => if isPlain c && c ≠ '\\' then withChar c (basicString rest) else none

/-- Reads a string without escapes after its opening quote, and what follows its closing one. -/
def literalString : Text → Option (Text × Text)
  | [] => none
  | '\x27' :: rest => some ([], rest)
  | c :: rest => if isPlain c then withChar c (literalString rest) else none

/-- What a string of several lines does with the characters that follow: keep them, or, after a
backslash at the end of a line, drop blanks up to the line break and then all up to the next
character. -/
inductive LineMode where
  | keep
  | toLineEnd
  | trim

/-- Reads a string of several lines after its opening quotes, and what follows its closing ones. -/
def basicLines : LineMode → Text → Option (Text × Text)
  | _, [] => none
  -- behind a backslash: blanks up to the end of the line
  | .toLineEnd, '\n' :: rest => basicLines .trim rest
  | .toLineEnd, '\r' :: '\n' :: rest => basicLines .trim rest
  | .toLineEnd, c :: rest => if c = ' ' || c = '\t' then basicLines .toLineEnd rest else none
  -- behind such a line end: all blanks and line breaks
  | .trim, '\n' :: rest => basicLines .trim rest
  | .trim, '\r' :: '\n' :: rest => basicLines .trim rest
  | .trim, ' ' :: rest => basicLines .trim rest
  | .trim, '\t' :: rest => basicLines .trim rest
  -- the closing quotes, with the quotes of the string right before them
  | _, '"' :: '"' :: '"' :: '"' :: '"' :: rest => some (['"', '"'], rest)
  | _, '"' :: '"' :: '"' :: '"' :: rest => some (['"'], rest)
  | _, '"' :: '"' :: '"' :: rest => some ([], rest)
  -- a line break is a line feed, however it is written
  | _, '\r' :: '\n' :: rest => withChar '\n' (basicLines .keep rest)
  | _, '\\' :: '\r' :: '\n' :: rest => basicLines .trim rest
  -- escapes
  | _, '\\' :: 'u' :: a :: b :: c :: d :: rest => do
    withChar (← codePoint? [a, b, c, d]) (basicLines .keep rest)
  | _, '\\' :: 'U' :: a :: b :: c :: d :: e :: f :: g :: h :: rest => do
    withChar (← codePoint? [a, b, c, d, e, f, g, h]) (basicLines .keep rest)
  | _, '\\' :: c :: rest =>
    if c = '\n' then basicLines .trim rest
    else if c = ' ' || c = '\t' then basicLines .toLineEnd rest
    else do withChar (← escaped? c) (basicLines .keep rest)
  | _, c :: rest =>
    if (isPlain c || c = '\n') && c ≠ '\\' then withChar c (basicLines .keep rest) else none

/-- Reads a string of several lines without escapes after its opening quotes, and what follows its
closing ones. -/
def literalLines : Text → Option (Text × Text)
  | [] => none
  -- up to two quotes belong to the string
  | '\x27' :: '\x27' :: '\x27' :: '\x27' :: '\x27' :: rest => some (['\x27', '\x27'], rest)
  | '\x27' :: '\x27' :: '\x27' :: '\x27' :: rest => some (['\x27'], rest)
  | '\x27' :: '\x27' :: '\x27' :: rest => some ([], rest)
  | '\r' :: '\n' :: rest => withChar '\n' (literalLines rest)
  | c :: rest => if isPlain c || c = '\n' then withChar c (literalLines rest) else none

/-- A text without a line break at its start. -/
def afterBreak : Text → Text
  | '\n' :: rest => rest
  | '\r' :: '\n' :: rest => rest
  | t => t

/-- Reads a string in any of the four forms, and what follows it. -/
def string? : Text → Option (Text × Text)
  | '"' :: '"' :: '"' :: rest => basicLines .keep (afterBreak rest)
  | '"' :: rest => basicString rest
  | '\x27' :: '\x27' :: '\x27' :: rest => literalLines (afterBreak rest)
  | '\x27' :: rest => literalString rest
  | _ => none

end Parlance.Toml

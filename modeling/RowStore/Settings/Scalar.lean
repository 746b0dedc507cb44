/- RowStore/Settings/Scalar
   role: definitions
   digest: The scalar values of a TOML document: strings, integers, and all others by form alone. -/

import RowStore.Number.Reading

set_option autoImplicit false
set_option relaxedAutoImplicit false

namespace RowStore.Settings

open RowStore.Number.Reading (exceedsBinary64 isDigit naturalOf splitSign)

/-- A value of a document, as far as settings look at it. -/
inductive Setting
  | text (content : String)
  | integer (n : Int)
  | other
  deriving DecidableEq, Repr

namespace Scalar

/-- Control characters other than the tab stand in no string and no comment. -/
def isControl (c : Char) : Bool := (c < ' ' && c != '\t') || c == '\x7f'

def hexValue? (c : Char) : Option Nat :=
  if isDigit c then some (c.toNat - '0'.toNat)
  else if 'a' ≤ c ∧ c ≤ 'f' then some (c.toNat - 'a'.toNat + 10)
  else if 'A' ≤ c ∧ c ≤ 'F' then some (c.toNat - 'A'.toNat + 10)
  else none

/-- The character of a fixed number of hexadecimal digits, which must be a code point. -/
def codePoint? (digits : Nat) (text : List Char) : Option (Char × List Char) := do
  let values ← (text.take digits).mapM hexValue?
  if values.length ≠ digits then none
  let code := values.foldl (fun n d => 16 * n + d) 0
  if code < 0xd800 ∨ (0xdfff < code ∧ code < 0x110000) then
    some (Char.ofNat code, text.drop digits)
  else none

/-- The character that an escape sequence stands for, read behind its backslash. -/
def escape? : List Char → Option (Char × List Char)
  | 'b' :: rest => some ('\x08', rest)
  | 't' :: rest => some ('\t', rest)
  | 'n' :: rest => some ('\n', rest)
  | 'f' :: rest => some ('\x0c', rest)
  | 'r' :: rest => some ('\r', rest)
  | '"' :: rest => some ('"', rest)
  | '\\' :: rest => some ('\\', rest)
  | 'u' :: rest => codePoint? 4 rest
  | 'U' :: rest => codePoint? 8 rest
  | _ => none

/-- The rest of a string on one line, with at most the given number of characters. -/
def basic? : Nat → List Char → Option (List Char × List Char)
  | 0, _ => none
  | _ + 1, [] => none
  | _ + 1, '"' :: rest => some ([], rest)
  | n + 1, '\\' :: rest => do
    let (c, rest) ← escape? rest
    let (content, rest) ← basic? n rest
    some (c :: content, rest)
  | n + 1, c :: rest => do
    if isControl c then none
    let (content, rest) ← basic? n rest
    some (c :: content, rest)

def literal? (text : List Char) : Option (List Char × List Char) :=
  let content := text.takeWhile (· != '\'')
  match text.dropWhile (· != '\'') with
  | _ :: rest => if content.any isControl then none else some (content, rest)
  | [] => none

/-- The end of a string over several lines, if it is here: three quotes, of up to five the last
ones. -/
def closing? (quote : Char) : List Char → Option (List Char × List Char)
  | a :: b :: c :: rest =>
    if a = quote ∧ b = quote ∧ c = quote then
      let extra := (rest.takeWhile (· = quote)).take 2
      some (extra, rest.drop extra.length)
    else none
  | _ => none

def lineBreak? : List Char → Option (List Char)
  | '\n' :: rest => some rest
  | '\r' :: '\n' :: rest => some rest
  | _ => none

def isSpace (c : Char) : Bool := c == ' ' || c == '\t'

def skipGap : List Char → List Char
  | '\r' :: '\n' :: rest => skipGap rest
  | c :: rest => if isSpace c || c == '\n' then skipGap rest else c :: rest
  | [] => []

/-- The text behind a backslash that ends its line: the line break and all blanks and line breaks
after it are skipped. -/
def continuation? (text : List Char) : Option (List Char) :=
  (lineBreak? (text.dropWhile isSpace)).map skipGap

/-- The rest of a string over several lines, with at most the given number of characters. Escape
sequences count only if `escapes` is set. -/
def multiLine? (quote : Char) (escapes : Bool) : Nat → List Char → Option (List Char × List Char)
  | 0, _ => none
  | _ + 1, [] => none
  | n + 1, c :: rest =>
    match closing? quote (c :: rest) with
    | some found => some found
    | none =>
      if escapes && c == '\\' then
        match continuation? rest with
        | some rest => multiLine? quote escapes n rest
        | none => do
          let (c, rest) ← escape? rest
          let (content, rest) ← multiLine? quote escapes n rest
          some (c :: content, rest)
      else
        match lineBreak? (c :: rest) with
        | some rest => do
          let (content, rest) ← multiLine? quote escapes n rest
          some ('\n' :: content, rest)
        | none => do
          if isControl c then none
          let (content, rest) ← multiLine? quote escapes n rest
          some (c :: content, rest)

def skipLineBreak (text : List Char) : List Char := (lineBreak? text).getD text

def shortString? : List Char → Option (List Char × List Char)
  | '"' :: rest => basic? (rest.length + 1) rest
  | '\'' :: rest => literal? rest
  | _ => none

def string? : List Char → Option (List Char × List Char)
  | '"' :: '"' :: '"' :: rest => multiLine? '"' true (rest.length + 1) (skipLineBreak rest)
  | '\'' :: '\'' :: '\'' :: rest => multiLine? '\'' false (rest.length + 1) (skipLineBreak rest)
  | text => shortString? text

/-- Digits, with single underscores allowed between two of them. -/
def digits? (isOne : Char → Bool) : List Char → Option (List Char)
  | [] => none
  | [c] => if isOne c then some [c] else none
  | c :: '_' :: d :: rest => if isOne c then (digits? isOne (d :: rest)).map (c :: ·) else none
  | c :: d :: rest => if isOne c then (digits? isOne (d :: rest)).map (c :: ·) else none

def decimalDigits? (text : List Char) : Option (List Char) :=
  match digits? isDigit text with
  | some ('0' :: _ :: _) => none
  | found => found

/-- The number of digits in a base given by its values of digits. -/
def inBase? (base : Nat) (text : List Char) : Option Nat := do
  let digits ← digits? (fun c => (hexValue? c).any (· < base)) text
  let values ← digits.mapM hexValue?
  some (values.foldl (fun n d => base * n + d) 0)

/-- The integer that a word denotes, if 64 bits hold it. -/
def integer? (word : List Char) : Option Int := do
  let n : Int ←
    match word with
    | '0' :: 'x' :: rest => (inBase? 16 rest).map Int.ofNat
    | '0' :: 'o' :: rest => (inBase? 8 rest).map Int.ofNat
    | '0' :: 'b' :: rest => (inBase? 2 rest).map Int.ofNat
    | word =>
      let (negative, rest) := splitSign word
      (decimalDigits? rest).map fun digits =>
        if negative then -(naturalOf digits : Int) else naturalOf digits
  if -0x8000000000000000 ≤ n ∧ n < 0x8000000000000000 then some n else none

def fraction? : List Char → Option (List Char)
  | [] => some []
  | _ :: digits => digits? isDigit digits

/-- The exponent behind its letter, a sign, if any, and digits; zero if there is no exponent. -/
def exponent? : List Char → Option Int
  | [] => some 0
  | _ :: text =>
    let (negative, rest) := splitSign text
    (digits? isDigit rest).map fun digits =>
      if negative then -(naturalOf digits : Int) else naturalOf digits

/-- The coefficient and the exponent of ten of a float without its sign. It needs a fraction or an
exponent. -/
def decimal? (unsigned : List Char) : Option (Nat × Int) := do
  let mantissa := unsigned.takeWhile fun c => c != 'e' && c != 'E'
  let exponent := unsigned.dropWhile fun c => c != 'e' && c != 'E'
  let fraction := mantissa.dropWhile (· != '.')
  if fraction = [] ∧ exponent = [] then none
  let whole ← decimalDigits? (mantissa.takeWhile (· != '.'))
  let places ← fraction? fraction
  let scale ← exponent? exponent
  some (naturalOf (whole ++ places), scale - places.length)

/-- The word is a float. Digits after a minus sign may denote any number; others must not round to
infinity. -/
def isFloat (word : List Char) : Bool :=
  let (negative, unsigned) := splitSign word
  unsigned = ['i', 'n', 'f'] || unsigned = ['n', 'a', 'n'] ||
    (decimal? unsigned).any fun d => negative || !exceedsBinary64 d.1 d.2

def twoDigits? (low high : Nat) : List Char → Option (Nat × List Char)
  | a :: b :: rest =>
    let n := naturalOf [a, b]
    if isDigit a && isDigit b && decide (low ≤ n) && decide (n ≤ high) then some (n, rest) else none
  | _ => none

def daysIn (year month : Nat) : Nat :=
  if month = 2 then
    if year % 4 = 0 ∧ (year % 100 ≠ 0 ∨ year % 400 = 0) then 29 else 28
  else if month = 4 ∨ month = 6 ∨ month = 9 ∨ month = 11 then 30
  else 31

def date? : List Char → Option (List Char)
  | a :: b :: c :: d :: '-' :: rest => do
    if !([a, b, c, d].all isDigit) then none
    let (month, rest) ← twoDigits? 1 12 rest
    match rest with
    | '-' :: rest => (twoDigits? 1 (daysIn (naturalOf [a, b, c, d]) month) rest).map (·.2)
    | _ => none
  | _ => none

def time? (text : List Char) : Option (List Char) := do
  let (_, rest) ← twoDigits? 0 23 text
  let ':' :: rest := rest | none
  let (_, rest) ← twoDigits? 0 59 rest
  let ':' :: rest := rest | none
  let (_, rest) ← twoDigits? 0 60 rest
  match rest with
  | '.' :: rest => if (rest.takeWhile isDigit) = [] then none else some (rest.dropWhile isDigit)
  | rest => some rest

def isOffset : List Char → Bool
  | [] => true
  | ['Z'] => true
  | ['z'] => true
  | c :: rest =>
    (c == '+' || c == '-') &&
      match twoDigits? 0 23 rest with
      | some (_, ':' :: rest) => (twoDigits? 0 59 rest).any fun found => found.2 = []
      | _ => false

/-- The word is a date, a time of day, or both with a letter between them. -/
def isMoment (word : List Char) : Bool :=
  match date? word with
  | some [] => true
  | some (c :: rest) => (c == 'T' || c == 't') && (time? rest).any isOffset
  | none => (time? word).any (· = [])

/-- Characters of words that are no strings. -/
def isWordChar (c : Char) : Bool :=
  c.isAlphanum || c == '_' || c == '+' || c == '-' || c == '.' || c == ':'

/-- The word that the text starts with. A single space may stand between a date and a time. -/
def word (text : List Char) : List Char × List Char :=
  let first := text.takeWhile isWordChar
  match text.dropWhile isWordChar with
  | ' ' :: c :: rest =>
    if date? first = some [] && isDigit c then
      (first ++ 'T' :: (c :: rest).takeWhile isWordChar, (c :: rest).dropWhile isWordChar)
    else (first, ' ' :: c :: rest)
  | rest => (first, rest)

def wordSetting? (word : List Char) : Option Setting :=
  match integer? word with
  | some n => some (.integer n)
  | none =>
    if word = ['t', 'r', 'u', 'e'] || word = ['f', 'a', 'l', 's', 'e'] || isFloat word ||
        isMoment word then
      some .other
    else none

end Scalar

end RowStore.Settings

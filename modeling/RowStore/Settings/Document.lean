/- RowStore/Settings/Document
   role: definitions
   digest: TOML documents read into the settings at their top level. -/

import RowStore.Settings.Scalar

/-!
A document is a list of lines: settings, and headers that say to which table the settings below
them belong. The lines build a tree of tables in which no key may be set twice and no table be
defined twice. Only the keys at the top level are asked for afterwards, but the whole document has
to be well-formed.
-/

set_option autoImplicit false
set_option relaxedAutoImplicit false

namespace RowStore.Settings

/-- How a table came to be: named on the way to another table, by a header of its own, or by a key
with dots. -/
inductive Origin
  | implied
  | header
  | dotted
  deriving DecidableEq, Repr

/-- What stands under a key: a value, a table, or a list of tables, of which the last one is still
open. -/
inductive Node
  | value (setting : Setting)
  | table (origin : Origin) (entries : List (String × Node))
  | tables (last : List (String × Node))

abbrev Entries := List (String × Node)

namespace Entries

def put (key : String) (node : Node) : Entries → Entries
  | [] => [(key, node)]
  | e :: rest => if e.1 = key then (key, node) :: rest else e :: put key node rest

/-- A value set under a key. A dotted key may lead through all tables that have no header of their
own and through the last table of a list, but the table that gets the value must have been made by
dotted keys. -/
def assign (setting : Setting) : List String → Entries → Option Entries
  | [], _ => none
  | [key], entries =>
    match entries.lookup key with
    | none => some (put key (.value setting) entries)
    | some _ => none
  | key :: path, entries =>
    let onWay := 1 < path.length
    match entries.lookup key with
    | none => (assign setting path []).map fun sub => put key (.table .dotted sub) entries
    | some (.table .dotted sub) =>
      (assign setting path sub).map fun sub => put key (.table .dotted sub) entries
    | some (.table .implied sub) =>
      if onWay then (assign setting path sub).map fun sub => put key (.table .implied sub) entries
      else none
    | some (.tables last) =>
      if onWay then (assign setting path last).map fun sub => put key (.tables sub) entries
      else none
    | some _ => none

/-- The entries changed inside the table that a header's path names; the tables before the last one
are implied where they are missing. -/
def within (atEnd : String → Entries → Option Entries) : List String → Entries → Option Entries
  | [], _ => none
  | [key], entries => atEnd key entries
  | key :: path, entries =>
    match entries.lookup key with
    | none => (within atEnd path []).map fun sub => put key (.table .implied sub) entries
    | some (.table origin sub) =>
      (within atEnd path sub).map fun sub => put key (.table origin sub) entries
    | some (.tables last) => (within atEnd path last).map fun sub => put key (.tables sub) entries
    | some (.value _) => none

def define (key : String) (entries : Entries) : Option Entries :=
  match entries.lookup key with
  | none => some (put key (.table .header []) entries)
  | some (.table .implied sub) => some (put key (.table .header sub) entries)
  | some _ => none

def append (key : String) (entries : Entries) : Option Entries :=
  match entries.lookup key with
  | none => some (put key (.tables []) entries)
  | some (.tables _) => some (put key (.tables []) entries)
  | some _ => none

/-- The contents of a table or of the last one of a list changed. -/
def inside (change : Entries → Option Entries) (key : String) (entries : Entries) :
    Option Entries :=
  match entries.lookup key with
  | some (.table origin sub) => (change sub).map fun sub => put key (.table origin sub) entries
  | some (.tables last) => (change last).map fun sub => put key (.tables sub) entries
  | _ => none

end Entries

inductive Line
  | assign (path : List String) (setting : Setting)
  | table (path : List String)
  | tables (path : List String)
  deriving DecidableEq, Repr

namespace Line

/-- The effect of a line on the tables, given the path of the table it belongs to. -/
def apply (current : List String) (entries : Entries) : Line → Option (List String × Entries)
  | .assign path setting => do
    let entries ←
      if current = [] then Entries.assign setting path entries
      else Entries.within (Entries.inside (Entries.assign setting path)) current entries
    some (current, entries)
  | .table path => (Entries.within Entries.define path entries).map (path, ·)
  | .tables path => (Entries.within Entries.append path entries).map (path, ·)

def build : List Line → List String → Entries → Option Entries
  | [], _, entries => some entries
  | line :: rest, current, entries => do
    let (current, entries) ← line.apply current entries
    build rest current entries

end Line

namespace Document

open Scalar (isControl isSpace lineBreak? shortString? string? word wordSetting?)

def skipSpaces (text : List Char) : List Char := text.dropWhile isSpace

/-- The text behind a comment, which must not hold control characters. -/
def comment? : List Char → Option (List Char)
  | '#' :: rest =>
    let body := rest.takeWhile fun c => c != '\n' && c != '\r'
    if body.any isControl then none else some (rest.drop body.length)
  | rest => some rest

/-- The text of the next line, when nothing but a comment is left on this one. -/
def endLine? (text : List Char) : Option (List Char) := do
  match ← comment? (skipSpaces text) with
  | [] => some []
  | rest => lineBreak? rest

/-- The text behind blanks, comments and line breaks, of which there are at most the given
number. -/
def skipLines? : Nat → List Char → Option (List Char)
  | 0, _ => none
  | n + 1, text =>
    match skipSpaces text with
    | '#' :: rest => do skipLines? n (← comment? ('#' :: rest))
    | rest =>
      match lineBreak? rest with
      | some rest => skipLines? n rest
      | none => some rest

def isKeyChar (c : Char) : Bool := c.isAlphanum || c == '_' || c == '-'

def keyPart? (text : List Char) : Option (String × List Char) :=
  match shortString? text with
  | some (content, rest) => some (String.ofList content, rest)
  | none =>
    let bare := text.takeWhile isKeyChar
    if bare = [] then none else some (String.ofList bare, text.dropWhile isKeyChar)

/-- A key of at most the given number of parts with dots between them, and blanks around each. -/
def key? : Nat → List Char → Option (List String × List Char)
  | 0, _ => none
  | n + 1, text => do
    let (part, rest) ← keyPart? (skipSpaces text)
    match skipSpaces rest with
    | '.' :: rest => do
      let (parts, rest) ← key? n rest
      some (part :: parts, rest)
    | rest => some ([part], rest)

/-- How deep lists and inline tables may be nested, and how many parts a key may have. -/
def maxDepth : Nat := 79

mutual

/-- A value that takes at most the given number of steps to read and has lists and inline tables
nested at most to the given depth. -/
def value? : Nat → Nat → List Char → Option (Setting × List Char)
  | 0, _, _ => none
  | _ + 1, 0, '[' :: _ => none
  | n + 1, depth + 1, '[' :: rest => do
    let rest ← elements? n depth rest
    some (.other, rest)
  | _ + 1, 0, '\x7b' :: _ => none
  | n + 1, depth + 1, '\x7b' :: rest => do
    match skipSpaces rest with
    | '\x7d' :: rest => some (.other, rest)
    | rest => do
      let rest ← members? n depth [] rest
      some (.other, rest)
  | _ + 1, _, text =>
    match string? text with
    | some (content, rest) => some (.text (String.ofList content), rest)
    | none =>
      let (first, rest) := word text
      (wordSetting? first).map (·, rest)

/-- The text behind the elements of a list and its closing bracket. A comma may follow the last
element. -/
def elements? : Nat → Nat → List Char → Option (List Char)
  | 0, _, _ => none
  | n + 1, depth, text => do
    match ← skipLines? (text.length + 1) text with
    | ']' :: rest => some rest
    | rest => do
      let (_, rest) ← value? n depth rest
      match ← skipLines? (rest.length + 1) rest with
      | ',' :: rest => elements? n depth rest
      | ']' :: rest => some rest
      | _ => none

def members? : Nat → Nat → Entries → List Char → Option (List Char)
  | 0, _, _, _ => none
  | n + 1, depth, entries, text => do
    let (path, rest) ← key? maxDepth text
    match rest with
    | '=' :: rest => do
      let (setting, rest) ← value? n depth (skipSpaces rest)
      let entries ← Entries.assign setting path entries
      match skipSpaces rest with
      | ',' :: rest => members? n depth entries rest
      | '\x7d' :: rest => some rest
      | _ => none
    | _ => none

end

/-- A line that is not empty, and the text of the next one. -/
def line? (text : List Char) : Option (Line × List Char) :=
  match text with
  | '[' :: '[' :: rest => do
    let (path, rest) ← key? maxDepth rest
    match rest with
    | ']' :: ']' :: rest => some (.tables path, ← endLine? rest)
    | _ => none
  | '[' :: rest => do
    let (path, rest) ← key? maxDepth rest
    match rest with
    | ']' :: rest => some (.table path, ← endLine? rest)
    | _ => none
  | text => do
    let (path, rest) ← key? maxDepth text
    match rest with
    | '=' :: rest => do
      let (setting, rest) ← value? (rest.length + 1) maxDepth (skipSpaces rest)
      some (.assign path setting, ← endLine? rest)
    | _ => none

def lines? : Nat → List Char → Option (List Line)
  | 0, _ => none
  | n + 1, text => do
    match ← skipLines? (text.length + 1) text with
    | [] => some []
    | rest => do
      let (line, rest) ← line? rest
      some (line :: (← lines? n rest))

def skipMark : List Char → List Char
  | '\uFEFF' :: rest => rest
  | rest => rest

def ofText? (text : String) : Option Entries := do
  let characters := skipMark text.toList
  let lines ← lines? (characters.length + 1) characters
  Line.build lines [] []

def setting? (entries : Entries) (key : String) : Option Setting :=
  match entries.lookup key with
  | some (.value setting) => some setting
  | _ => none

end Document

end RowStore.Settings

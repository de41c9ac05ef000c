import Storyboard.Text.Blank

namespace Storyboard.Assignments

/-- The text with every line ended by a line feed, also those that a carriage return ends. -/
def withLineFeeds : List Char → List Char
  | [] => []
  | [c] => [if c == '\r' then '\n' else c]
  | c :: d :: rest =>
    if c == '\r' && d == '\n' then withLineFeeds (d :: rest)
    else (if c == '\r' then '\n' else c) :: withLineFeeds (d :: rest)

/-- A blank that does not end a line. -/
def isInnerBlank (c : Char) : Bool := Text.isBlank c && c != '\n'

/-- The text after the blanks in front that do not end the line. -/
def skipBlanks (cs : List Char) : List Char := cs.dropWhile isInnerBlank

/-- The text after the word `export` and blanks, if it is in front. -/
def skipExport (cs : List Char) : List Char :=
  let word := "export".toList
  if word.isPrefixOf cs then
    match cs.drop word.length with
    | c :: rest => if isInnerBlank c then skipBlanks rest else cs
    | [] => cs
  else cs

/-- The text up to the closing quote, and the rest behind it. A backslash keeps the character after
it from closing, and does not stand at the end of a line. -/
def readQuoted (quote : Char) : List Char → Option (List Char × List Char)
  | [] => none
  | c :: rest =>
    if c == quote then some ([], rest)
    else if c == '\\' then
      match rest with
      | [] | '\n' :: _ => none
      | d :: rest' => (readQuoted quote rest').map fun r => (c :: d :: r.1, r.2)
    else (readQuoted quote rest).map fun r => (c :: r.1, r.2)

def doubleEscape? : Char → Option Char
  | '\\' => some '\\'
  | '\x27' => some '\x27'
  | '"' => some '"'
  | 'a' => some (Char.ofNat 7)
  | 'b' => some (Char.ofNat 8)
  | 'f' => some (Char.ofNat 12)
  | 'n' => some '\n'
  | 'r' => some '\r'
  | 't' => some '\t'
  | 'v' => some (Char.ofNat 11)
  | _ => none

def singleEscape? : Char → Option Char
  | '\\' => some '\\'
  | '\x27' => some '\x27'
  | _ => none

/-- The text with its escapes replaced. -/
def unescape (escape? : Char → Option Char) : List Char → List Char
  | [] => []
  | [c] => [c]
  | c :: d :: rest =>
    match (if c == '\\' then escape? d else none) with
    | some e => e :: unescape escape? rest
    | none => c :: unescape escape? (d :: rest)

/-- The text before blanks that a comment follows. -/
def beforeComment : List Char → List Char
  | [] => []
  | c :: rest =>
    if Text.isBlank c && (rest.dropWhile Text.isBlank).head? == some '#' then []
    else c :: beforeComment rest

/-- The name in front of an assignment, and the rest; a comment has none. -/
def readName (cs : List Char) : Option (Option (List Char) × List Char) :=
  match cs with
  | '#' :: _ => some (none, cs)
  | '\x27' :: rest =>
    let name := rest.takeWhile (· != '\x27')
    match rest.dropWhile (· != '\x27') with
    | _ :: rest' => if name.isEmpty then none else some (some name, rest')
    | [] => none
  | _ =>
    let inName (c : Char) : Bool := c != '=' && c != '#' && !Text.isBlank c
    match cs.takeWhile inName with
    | [] => none
    | name => some (some name, cs.dropWhile inName)

/-- The value behind an equals sign, and the rest. Without quotes it goes on to a comment, in front
of which there has to be a blank. -/
def readValue (cs : List Char) : Option (List Char × List Char) :=
  match skipBlanks cs with
  | '\x27' :: rest => (readQuoted '\x27' rest).map fun r => (unescape singleEscape? r.1, r.2)
  | '"' :: rest => (readQuoted '"' rest).map fun r => (unescape doubleEscape? r.1, r.2)
  | _ =>
    some (Text.trim (beforeComment (cs.takeWhile (· != '\n'))), cs.dropWhile (· != '\n'))

/-- The text after the end of a line, if nothing but blanks and a comment comes before it. -/
def finishLine (cs : List Char) : Option (List Char) :=
  let cs := skipBlanks cs
  let cs := if cs.head? == some '#' then cs.dropWhile (· != '\n') else cs
  match skipBlanks cs with
  | [] => some []
  | '\n' :: rest => some rest
  | _ => none

/-- The text after the end of the line. -/
def skipLine (cs : List Char) : List Char := (cs.dropWhile (· != '\n')).drop 1

/-- A name with the text behind its equals sign, or without one. -/
abbrev Binding := List Char × Option (List Char)

/-- One assignment, if there is one in front, and where to go on. -/
def readLine (cs : List Char) : Option Binding × List Char :=
  match readName (skipExport cs) with
  | none => (none, skipLine (skipExport cs))
  | some (name, rest) =>
    match skipBlanks rest with
    | '=' :: rest' =>
      match readValue rest' with
      | none => (none, skipLine rest')
      | some (value, more) =>
        match finishLine more with
        | none => (none, skipLine more)
        | some next => (name.map (·, some value), next)
    | rest' =>
      match finishLine rest' with
      | none => (none, skipLine rest')
      | some next => (name.map (·, none), next)

def readLines : Nat → List Char → List Binding
  | 0, _ => []
  | fuel + 1, cs =>
    match cs.dropWhile Text.isBlank with
    | [] => []
    | cs =>
      match readLine cs with
      | (some a, rest) => a :: readLines fuel rest
      | (none, rest) => readLines fuel rest

/-- The reference in front, by its name and its default, and the rest. -/
def reference? (cs : List Char) : Option (List Char × List Char × List Char) :=
  match cs with
  | '$' :: '\x7b' :: rest =>
    let inName (c : Char) : Bool := c != '\x7d' && c != ':'
    let name := rest.takeWhile inName
    match rest.dropWhile inName with
    | '\x7d' :: more => some (name, [], more)
    | ':' :: '-' :: more =>
      match more.dropWhile (· != '\x7d') with
      | _ :: rest' => some (name, more.takeWhile (· != '\x7d'), rest')
      | [] => none
    | _ => none
  | _ => none

/-- The text with its references replaced by values. -/
def resolve (value? : String → Option String) : Nat → List Char → List Char
  | 0, cs => cs
  | _ + 1, [] => []
  | fuel + 1, c :: cs =>
    match reference? (c :: cs) with
    | some (name, default, rest) =>
      ((value? (String.ofList name)).map String.toList).getD default ++ resolve value? fuel rest
    | none => c :: resolve value? fuel cs

/-- Names with values. A name without an equals sign has none. -/
abbrev Values := List (String × Option String)

/-- The values with one more. A name that was there keeps its place. -/
def put (name : String) (value : Option String) : Values → Values
  | [] => [(name, value)]
  | v :: rest => if v.1 == name then (name, value) :: rest else v :: put name value rest

/-- The text without a byte order mark in front. -/
def withoutMark : List Char → List Char
  | '\ufeff' :: rest => rest
  | cs => cs

/-- The assignments of a text with their references replaced: by values given before in the text,
or else by those of the environment. A name without a value stands for the empty text. -/
def parse (environment : List (String × String)) (text : String) : Values :=
  let cs := withLineFeeds (withoutMark text.toList)
  (readLines (cs.length + 1) cs).foldl (fun values a =>
    let value? (name : String) : Option String :=
      match values.find? fun v => v.1 == name with
      | some v => some (v.2.getD "")
      | none => (environment.find? fun v => v.1 == name).map Prod.snd
    put (String.ofList a.1)
      (a.2.map fun t => String.ofList (resolve value? (t.length + 1) t)) values) []

end Storyboard.Assignments

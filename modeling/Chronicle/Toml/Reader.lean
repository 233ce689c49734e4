import Chronicle.Toml.Quoted
import Chronicle.Toml.Scalar
import Chronicle.Toml.Tables

-- Reading TOML texts. Each reader answers with what it read and the rest.

namespace Chronicle.Toml.Reader

def isBareKey (c : Char) : Bool := c.isAlphanum || c = '-' || c = '_'

def simpleKey? (text : List Char) : Option (String × List Char) :=
  match text with
  | '"' :: _ => lineString? text.length text
  | '\'' :: _ => lineString? text.length text
  | _ =>
      let name := text.takeWhile isBareKey
      if name = [] then none else some (String.ofList name, text.dropWhile isBareKey)

-- A name has at most this many parts.
def maxParts : Nat := 80

-- The parts of a dotted name before the last one, and the last one. Blanks may
-- stand around the dots and after the name.
def key? : (parts : Nat) → List Char → Option (List String × String × List Char)
  | 0, _ => none
  | parts + 1, text => do
      let (name, rest) ← simpleKey? (dropBlanks text)
      match dropBlanks rest with
      | '.' :: rest => do
          let (path, last, rest) ← key? parts rest
          some (name :: path, last, rest)
      | rest => some ([], name, rest)

-- A comment runs up to the end of its line.
def dropComment? (text : List Char) : Option (List Char) :=
  match text with
  | '#' :: rest =>
      let comment := rest.takeWhile fun c => c ≠ '\n' && c ≠ '\r'
      if comment.all isPlain then some (rest.drop comment.length) else none
  | _ => some text

-- Blanks, comments and line ends, such as may stand between the items of an array.
def dropFiller? : (fuel : Nat) → List Char → Option (List Char)
  | 0, _ => none
  | fuel + 1, text => do
      let text ← dropComment? (dropBlanks text)
      match newline? text with
      | some rest => dropFiller? fuel rest
      | none => some text

-- What no scalar contains.
def endsScalar (c : Char) : Bool :=
  c = '=' || c = ',' || c = '[' || c = ']' || c = '\x7b' || c = '\x7d' || c = '#' || c = ' ' ||
    c = '\t' || c = '\r' || c = '\n'

-- A scalar as far as it goes. A single space may stand between a date and a time.
def scalarText (text : List Char) : List Char × List Char :=
  let (word, rest) := text.span fun c => !endsScalar c
  match date? word, rest with
  | some (_, []), ' ' :: c :: rest =>
      if c.isDigit then
        let (time, rest) := (c :: rest).span fun c => !endsScalar c
        (word ++ ' ' :: time, rest)
      else (word, ' ' :: c :: rest)
  | _, _ => (word, rest)

mutual

-- A value, which takes no more steps than it has characters. `depth` bounds how
-- far arrays and inline tables may nest.
def value? : (fuel depth : Nat) → List Char → Option (Toml × List Char)
  | 0, _, _ => none
  | fuel + 1, depth, text =>
      match text with
      | '[' :: rest =>
          match depth with
          | 0 => none
          | depth + 1 => items? fuel depth [] rest
      | '\x7b' :: rest =>
          match depth with
          | 0 => none
          | depth + 1 => members? fuel depth [] rest
      | '"' :: _ => do
          let (s, rest) ← string? fuel text
          some (.string s, rest)
      | '\'' :: _ => do
          let (s, rest) ← string? fuel text
          some (.string s, rest)
      | _ => do
          let (word, rest) := scalarText text
          some (← scalar? word, rest)

-- The items of an array up to its end, put before `read` in reverse. A comma
-- may follow the last one.
def items? : (fuel depth : Nat) → (read : List Toml) → List Char → Option (Toml × List Char)
  | 0, _, _, _ => none
  | fuel + 1, depth, read, text => do
      match ← dropFiller? (fuel + 1) text with
      | ']' :: rest => some (.array read.reverse, rest)
      | text => do
          let (item, rest) ← value? fuel depth text
          match ← dropFiller? (fuel + 1) rest with
          | ',' :: rest => items? fuel depth (item :: read) rest
          | ']' :: rest => some (.array (item :: read).reverse, rest)
          | _ => none

-- The entries of an inline table up to its end. Lines may end anywhere but
-- within a name.
def members? : (fuel depth : Nat) → (read : List (String × Node)) → List Char →
    Option (Toml × List Char)
  | 0, _, _, _ => none
  | fuel + 1, depth, read, text => do
      match ← dropFiller? (fuel + 1) text with
      | '\x7d' :: rest => some (.table (Tables.values read), rest)
      | text => do
          let (path, name, rest) ← key? maxParts text
          match ← dropFiller? (fuel + 1) rest with
          | '=' :: rest => do
              let (v, rest) ← value? fuel depth (← dropFiller? (fuel + 1) rest)
              let read ← Tables.addValue? path name v read
              match ← dropFiller? (fuel + 1) rest with
              | ',' :: rest => members? fuel depth read rest
              | '\x7d' :: rest => some (.table (Tables.values read), rest)
              | _ => none
          | _ => none

end

-- Arrays and inline tables may nest this deep.
def maxDepth : Nat := 80

-- What is left of a line after its header or entry: a comment at most.
def endLine? (text : List Char) : Option (List Char) := do
  let text ← dropComment? (dropBlanks text)
  if text = [] then some [] else newline? text

-- A header after its first bracket.
def header? (text : List Char) : Option (Tables.Header × List Char) :=
  match text with
  | '[' :: rest => do
      let (path, name, rest) ← key? maxParts rest
      match rest with
      | ']' :: ']' :: rest => some (⟨path, name, true⟩, rest)
      | _ => none
  | _ => do
      let (path, name, rest) ← key? maxParts text
      match rest with
      | ']' :: rest => some (⟨path, name, false⟩, rest)
      | _ => none

def entry? (fuel : Nat) (text : List Char) :
    Option ((List String × String × Toml) × List Char) := do
  let (path, name, rest) ← key? maxParts text
  match rest with
  | '=' :: rest => do
      let (v, rest) ← value? fuel maxDepth (dropBlanks rest)
      some ((path, name, v), rest)
  | _ => none

-- Line by line.
def lines? : (fuel : Nat) → Tables.State → List Char → Option Tables.State
  | 0, _, _ => none
  | fuel + 1, state, text =>
      match dropBlanks text with
      | [] => some state
      | '[' :: rest => do
          let (header, rest) ← header? rest
          lines? fuel (← state.open? header) (← endLine? rest)
      | c :: rest =>
          if c = '#' ∨ c = '\n' ∨ c = '\r' then do
            lines? fuel state (← endLine? (c :: rest))
          else do
            let ((path, name, v), rest) ← entry? fuel (c :: rest)
            lines? fuel (← state.add? path name v) (← endLine? rest)

-- A byte order mark may stand at the beginning.
def dropMark : List Char → List Char
  | c :: rest => if c = '\uFEFF' then rest else c :: rest
  | [] => []

end Chronicle.Toml.Reader

namespace Chronicle.Toml

-- The entries of the table that a whole text is.
def parse? (text : String) : Option (List (String × Toml)) := do
  let chars := Reader.dropMark text.toList
  let state ← Reader.lines? (chars.length + 1) Tables.State.empty chars
  some (Tables.values (← state.close?))

end Chronicle.Toml

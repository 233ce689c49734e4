import Chronicle.Json.Reader

-- Strings of TOML texts. Basic strings have escapes and literal strings have
-- none; each may run over several lines between triple quotes.

namespace Chronicle.Toml.Reader

-- A space or a tab.
def isBlank (c : Char) : Bool := c = ' ' || c = '\t'

def dropBlanks (text : List Char) : List Char := text.dropWhile isBlank

-- Control characters stand in no string and no comment, but tabs do.
def isPlain (c : Char) : Bool := c = '\t' || (0x20 ≤ c.toNat && c.toNat ≠ 0x7F)

-- A line feed, before which a carriage return may stand.
def newline? : List Char → Option (List Char)
  | '\n' :: rest => some rest
  | '\r' :: '\n' :: rest => some rest
  | _ => none

-- The character whose code is written in `count` hexadecimal digits.
def codePoint? (count : Nat) (text : List Char) : Option (Char × List Char) := do
  let digits := text.take count
  if digits.length < count then none
  let code ← digits.foldlM (fun n c => do some (16 * n + (← Json.hexValue? c))) 0
  if code.isValidChar then some (Char.ofNat code, text.drop count) else none

-- What a backslash and the text after it stand for.
def escape? : List Char → Option (Char × List Char)
  | 'b' :: rest => some ('\x08', rest)
  | 't' :: rest => some ('\t', rest)
  | 'n' :: rest => some ('\n', rest)
  | 'f' :: rest => some ('\x0c', rest)
  | 'r' :: rest => some ('\r', rest)
  | 'e' :: rest => some ('\x1b', rest)
  | '"' :: rest => some ('"', rest)
  | '\\' :: rest => some ('\\', rest)
  | 'x' :: rest => codePoint? 2 rest
  | 'u' :: rest => codePoint? 4 rest
  | 'U' :: rest => codePoint? 8 rest
  | _ => none

-- What follows a backslash at the end of a line: blanks and line ends up to the
-- next other character. A carriage return belongs to a line end.
def dropLines : List Char → List Char
  | [] => []
  | c :: rest =>
      if isBlank c ∨ c = '\n' then dropLines rest
      else
        match c, rest with
        | '\r', '\n' :: rest => dropLines rest
        | _, _ => c :: rest

def continued? (text : List Char) : Option (List Char) := (newline? (dropBlanks text)).map dropLines

-- The rest of a basic string, what was read of it put before in reverse.
def basicTail? : (fuel : Nat) → (read : List Char) → List Char → Option (String × List Char)
  | 0, _, _ => none
  | _, _, [] => none
  | _, read, '"' :: rest => some (String.ofList read.reverse, rest)
  | fuel + 1, read, '\\' :: rest => do
      let (c, rest) ← escape? rest
      basicTail? fuel (c :: read) rest
  | fuel + 1, read, c :: rest => if isPlain c then basicTail? fuel (c :: read) rest else none

def literalTail? (read : List Char) : List Char → Option (String × List Char)
  | [] => none
  | '\'' :: rest => some (String.ofList read.reverse, rest)
  | c :: rest => if isPlain c then literalTail? (c :: read) rest else none

-- A run of quotes ends a string when it has three or more. Of these the last
-- three close it and at most two belong to it.
def closing? (quote : Char) (text : List Char) : Option (List Char × List Char) :=
  let run := (text.takeWhile (· = quote)).take 5
  if 3 ≤ run.length then some (run.drop 3, text.drop run.length) else none

-- The rest of a basic string over several lines.
def basicLines? : (fuel : Nat) → (read : List Char) → List Char → Option (String × List Char)
  | 0, _, _ => none
  | _, _, [] => none
  | fuel + 1, read, c :: rest =>
      match c with
      | '"' =>
          match closing? '"' (c :: rest) with
          | some (quotes, rest) => some (String.ofList (quotes ++ read).reverse, rest)
          | none => basicLines? fuel (c :: read) rest
      | '\\' =>
          match continued? rest with
          | some rest => basicLines? fuel read rest
          | none => do
              let (c, rest) ← escape? rest
              basicLines? fuel (c :: read) rest
      | '\n' => basicLines? fuel (c :: read) rest
      | '\r' =>
          match rest with
          | '\n' :: rest => basicLines? fuel ('\n' :: '\r' :: read) rest
          | _ => none
      | _ => if isPlain c then basicLines? fuel (c :: read) rest else none

def literalLines? : (fuel : Nat) → (read : List Char) → List Char → Option (String × List Char)
  | 0, _, _ => none
  | _, _, [] => none
  | fuel + 1, read, c :: rest =>
      match c with
      | '\'' =>
          match closing? '\'' (c :: rest) with
          | some (quotes, rest) => some (String.ofList (quotes ++ read).reverse, rest)
          | none => literalLines? fuel (c :: read) rest
      | '\n' => literalLines? fuel (c :: read) rest
      | '\r' =>
          match rest with
          | '\n' :: rest => literalLines? fuel ('\n' :: '\r' :: read) rest
          | _ => none
      | _ => if isPlain c then literalLines? fuel (c :: read) rest else none

-- A line end right after the opening quotes is not part of the string.
def dropFirstLine (text : List Char) : List Char := (newline? text).getD text

-- A string on one line, which is also what a quoted name may be.
def lineString? (fuel : Nat) (text : List Char) : Option (String × List Char) :=
  match text with
  | '"' :: rest => basicTail? fuel [] rest
  | '\'' :: rest => literalTail? [] rest
  | _ => none

def string? (fuel : Nat) (text : List Char) : Option (String × List Char) :=
  match text with
  | '"' :: '"' :: '"' :: rest => basicLines? fuel [] (dropFirstLine rest)
  | '\'' :: '\'' :: '\'' :: rest => literalLines? fuel [] (dropFirstLine rest)
  | _ => lineString? fuel text

end Chronicle.Toml.Reader

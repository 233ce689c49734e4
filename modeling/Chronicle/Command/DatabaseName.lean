import Chronicle.Bytes
import Chronicle.Json.Reader
import Chronicle.Text.Pieces

-- Names of databases. A name is a path, or a URI that begins with `file:`, in
-- which `%` and two hexadecimal digits stand for a byte, and which may go on with
-- options after `?` and with a fragment after `#` that names nothing.

namespace Chronicle.Command

inductive DatabaseError where
  | cannotOpen (name : String)
  -- The file holds something else.
  | notADatabase
  | locked
  | unknownAuthority (authority : String)
  | unknownMode (kind value : String)
  | unknownSystem (name : String)
  deriving DecidableEq

def DatabaseError.message : DatabaseError → String
  | .cannotOpen name => "unable to open database file: " ++ name
  | .notADatabase => "file is not a database"
  | .locked => "database is locked"
  | .unknownAuthority authority => "invalid uri authority: " ++ authority
  | .unknownMode kind value => "no such " ++ kind ++ " mode: " ++ value
  | .unknownSystem name => "no such vfs: " ++ name

inductive DatabaseName where
  | file (path : String)
  | memory
  -- A file without a name, which is gone once it is closed.
  | nameless
  deriving DecidableEq

namespace DatabaseName

-- The bytes that a part of a URI spells, up to the first null byte.
def bytes : List Char → Bytes
  | [] => []
  | '%' :: high :: low :: rest =>
      match Json.hexValue? high, Json.hexValue? low with
      | some h, some l => if h = 0 ∧ l = 0 then [] else UInt8.ofNat (16 * h + l) :: bytes rest
      | _, _ => Bytes.ofText "%" ++ bytes (high :: low :: rest)
  | c :: rest => Bytes.ofText c.toString ++ bytes rest

def spelled? (part : List Char) : Option String := Bytes.toText? (bytes part)

-- A part and what follows the first of some characters.
def cut (ends : Char → Bool) (text : List Char) : List Char × List Char :=
  let (part, rest) := text.span fun c => !ends c
  (part, rest.drop 1)

-- The options of a URI. One without a name does not count.
def options (query : List Char) : List (String × String) :=
  ((Text.pieces '&' query).map (cut (· = '='))).filterMap fun (name, value) => do
    let name ← spelled? name
    if name.isEmpty then none else some (name, (spelled? value).getD "")

-- What follows the two slashes before an authority, which is this machine.
def path? (text : List Char) : Except DatabaseError (List Char) :=
  match text with
  | '/' :: '/' :: rest =>
      let authority := String.ofList (rest.takeWhile (· ≠ '/'))
      if authority = "" ∨ authority = "localhost" then .ok (rest.dropWhile (· ≠ '/'))
      else .error (.unknownAuthority authority)
  | _ => .ok text

def checkMode (kind : String) (modes : List String) (value : String) : Except DatabaseError Unit :=
  if modes.contains value then .ok () else .error (.unknownMode kind value)

-- Refuses options that ask for what there is not.
def checkOption (option : String × String) : Except DatabaseError Unit :=
  match option with
  | ("mode", value) => checkMode "access" ["ro", "rw", "rwc", "memory"] value
  | ("cache", value) => checkMode "cache" ["shared", "private"] value
  | _ => .ok ()

-- The last option of a name counts.
def lastOption? (name : String) (options : List (String × String)) : Option String :=
  (options.reverse.find? fun option => option.1 = name).map (·.2)

def ofPath (path : String) : DatabaseName :=
  if path.isEmpty then .nameless else if path = ":memory:" then .memory else .file path

def ofUri (name : String) (uri : List Char) : Except DatabaseError DatabaseName := do
  let (path, query) := cut (· = '?') (cut (· = '#') (← path? uri)).1
  let options := options query
  options.forM checkOption
  match lastOption? "vfs" options with
  | some system => if system ≠ "unix" then throw (.unknownSystem system)
  | none => pure ()
  if lastOption? "mode" options = some "memory" then return .memory
  match spelled? path with
  | some path => return ofPath path
  | none => throw (.cannotOpen name)

def ofText (name : String) : Except DatabaseError DatabaseName :=
  match name.toList with
  | 'f' :: 'i' :: 'l' :: 'e' :: ':' :: uri => ofUri name uri
  | _ => .ok (ofPath name)

-- Databases that are no files keep journals of other kinds than the one that a
-- store needs.
def journal? : DatabaseName → Option String
  | .file _ => none
  | .memory => some "memory"
  | .nameless => some "delete"

end DatabaseName

end Chronicle.Command

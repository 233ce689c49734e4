import Chronicle.Command.DatabaseName
import Chronicle.Storage

-- What commands need of the machine that they run on.

namespace Chronicle.Command

-- Why a file could not be used.
inductive FileError where
  | notFound
  | exists
  | notADirectory
  | isADirectory
  | nameTooLong
  | nullCharacter
  | notText
  | other (message : String)
  deriving DecidableEq

def FileError.message : FileError → String
  | .notFound => "No such file or directory (os error 2)"
  | .exists => "File exists (os error 17)"
  | .notADirectory => "Not a directory (os error 20)"
  | .isADirectory => "Is a directory (os error 21)"
  | .nameTooLong => "File name too long (os error 36)"
  | .nullCharacter => "file name contained an unexpected NUL byte"
  | .notText => "stream did not contain valid UTF-8"
  | .other message => message

-- What a database file may turn out to be.
inductive Database where
  | table (directory : Directory)
  -- A file that is none.
  | foreign
  | unreachable

-- Why the files of a store could not be opened.
inductive OpenError where
  | directory (error : FileError)
  | database (error : DatabaseError)
  -- The database cannot keep the journal that is needed.
  | journal (mode : String)
  deriving DecidableEq

def OpenError.message : OpenError → String
  | .directory error => "IO error: " ++ error.message
  | .database error => "database error: " ++ error.message
  | .journal mode => "incompatible store format: journal mode '" ++ mode ++ "' instead of WAL"

structure Host (m : Type → Type) where
  readText : String → m (Except FileError String)
  isDirectory : String → m Bool
  -- The names of the files in a directory.
  listFiles : String → m (Except FileError (List String))
  -- Opens the log file, afresh if it is to be truncated.
  openLog : String → (truncate : Bool) → m (Except FileError Unit)
  makeDirectory : String → m (Except FileError Unit)
  -- The database in a file, which is made if it is missing and held for this run.
  openDatabase : String → m Database
  saveDatabase : String → Directory → m Unit
  -- A name for an import that no other import has.
  newBatch : m String

end Chronicle.Command

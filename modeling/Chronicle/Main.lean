import Chronicle.Command.Run
import Chronicle.Storage.Image

-- The program: commands run on the machine's files.

namespace Chronicle.Machine

open Command

-- Some system calls negate the number of their error.
def errorNumber (code : UInt32) : UInt32 := min code (0 - code)

def fileError : IO.Error → FileError
  | .noFileOrDirectory _ _ _ => .notFound
  | .alreadyExists _ _ _ => .exists
  | .inappropriateType _ code _ => if errorNumber code = 20 then .notADirectory else .isADirectory
  | .invalidArgument _ code _ => if errorNumber code = 36 then .nameTooLong else .nullCharacter
  | error => .other (toString error)

def attempt {α : Type} (action : IO α) : IO (Except FileError α) := do
  match ← action.toBaseIO with
  | .ok a => return .ok a
  | .error error => return .error (fileError error)

def readText (path : String) : IO (Except FileError String) := do
  match ← attempt (IO.FS.readBinFile path) with
  | .error error => return .error error
  | .ok bytes =>
      match String.fromUTF8? bytes with
      | some text => return .ok text
      | none => return .error .notText

def isDirectory (path : String) : IO Bool := do
  match ← attempt (IO.FS.realPath path) with
  | .ok found => found.isDir
  | .error _ => return false

def listFiles (path : String) : IO (Except FileError (List String)) := attempt do
  let mut names := #[]
  for entry in ← (← IO.FS.realPath path).readDir do
    if (← entry.path.metadata).type == .file then names := names.push entry.fileName
  return names.toList

def openLog (path : String) (truncate : Bool) : IO (Except FileError Unit) :=
  attempt (discard (IO.FS.Handle.mk path (if truncate then .write else .append)))

def makeDirectory (path : String) : IO (Except FileError Unit) := attempt (IO.FS.createDir path)

-- A database is a file with the image of a table. Its lock is kept until the
-- program ends.
def openDatabase (locks : IO.Ref (List IO.FS.Handle)) (path : String) : IO Database := do
  match ← attempt (IO.FS.Handle.mk path .append) with
  | .error _ => return .unreachable
  | .ok handle =>
      let isOurs ← handle.tryLock
      locks.modify (handle :: ·)
      let bytes := (← IO.FS.readBinFile path).data.toList
      match if bytes = [] then some Directory.fresh else Directory.ofImage? bytes with
      | some directory => return .table { directory with held := !isOurs }
      | none => return .foreign

def saveDatabase (path : String) (directory : Directory) : IO Unit :=
  IO.FS.writeBinFile path ⟨directory.image.toArray⟩

-- Sixteen random bytes in hexadecimal.
def newBatch : IO String := do
  let bytes ← IO.getRandomBytes 16
  return String.join (bytes.data.toList.map fun byte => Json.padLeft 2 (Text.hexDigits byte.toNat))

def host (locks : IO.Ref (List IO.FS.Handle)) : Host IO where
  readText := readText
  isDirectory := isDirectory
  listFiles := listFiles
  openLog := openLog
  makeDirectory := makeDirectory
  openDatabase := openDatabase locks
  saveDatabase := saveDatabase
  newBatch := newBatch

end Chronicle.Machine

def main (arguments : List String) : IO UInt32 := do
  let locks ← IO.mkRef []
  let outcome ← Chronicle.Command.run (Chronicle.Machine.host locks) arguments
  outcome.output.forM IO.println
  outcome.errors.forM IO.eprintln
  return UInt32.ofNat outcome.code

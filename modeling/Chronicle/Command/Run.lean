import Chronicle.Command.Arguments
import Chronicle.Command.Help
import Chronicle.Command.Report

-- The commands. Those that only read or change the store are functions of the
-- store; imports also read documents through the host.

namespace Chronicle.Command

def instant (text : String) : Except CommandError Timestamp :=
  match Timestamp.ofRfc3339? text with
  | some timestamp => .ok timestamp
  | none => .error (.badTimestamp text)

-- An end of the span to be read belongs to it.
def timeBound : Option String → Except CommandError TimeBound
  | none => .ok .unbounded
  | some text => do return .included (← instant text).micros

-- The lines of records up to the first error.
def recordLines : List (Except StoreError Record) → List String × Option CommandError
  | [] => ([], none)
  | .ok record :: rest =>
      let (lines, failure) := recordLines rest
      (recordLine record :: lines, failure)
  | .error error :: _ => ([], some (.store error))

def readRecords (store : EventStore) (entity : String) (lower upper : Option String) :
    Except CommandError Report := do
  let span : TimeSpan := ⟨← timeBound lower, ← timeBound upper⟩
  let (answers, records) := (← (store.read entity span).mapError .store).toEnd
  let (lines, failure) := recordLines answers
  let skipped :=
    if failure.isNone ∧ 0 < records.skipped then
      [toString records.skipped ++ " unreadable entries skipped"]
    else []
  return ⟨lines, skipped, failure⟩

def deleteRecords (store : EventStore) (entity : String) :
    Option String → Except CommandError (Report × EventStore)
  | some text => do
      let timestamp ← instant text
      let store ← (store.delete entity timestamp).mapError .store
      return (.ofOutput ["Deleted " ++ entity ++ " at " ++ timestamp.display], store)
  | none => do
      let (removed, store) ← (store.deleteEntity entity).mapError .store
      return (.ofOutput ["Deleted " ++ toString removed ++ " records of " ++ entity], store)

def statsLines (store : EventStore) : List String :=
  let stats := store.stats
  let schemas := store.registry.kinds.keys.filterMap fun kind =>
    (store.registry.latest? kind).map fun schema =>
      "Schema:     " ++ kind ++ " v" ++ toString schema.version.toNat
  ["Store:      " ++ store.storage.path,
    "Records:    " ++ toString stats.live,
    "Tombstones: " ++ toString stats.tombstones] ++ schemas

section Hosted

variable {m : Type → Type} [Monad m]

-- A name ends in an extension, letters in any case. What begins with its only
-- dot has none.
def hasExtension (extension name : String) : Bool :=
  let reversed := name.toList.reverse
  let last := (reversed.takeWhile (· ≠ '.')).reverse
  let before := (reversed.dropWhile (· ≠ '.')).drop 1
  before ≠ [] && last.map Char.toLower = extension.toList

def joinPath (path name : String) : String :=
  if path.endsWith "/" then path ++ name else path ++ "/" ++ name

def isOrdered (first second : String) : Bool := decide (first ≤ second)

-- The documents at a path: the path itself, or the files of a directory that
-- have the format's extension, in order.
def documentsAt (host : Host m) (extension path : String) :
    m (Except CommandError (List String)) := do
  if ← host.isDirectory path then
    match ← host.listFiles path with
    | .error error => return .error (.file error)
    | .ok names =>
        match (names.filter (hasExtension extension)).mergeSort isOrdered with
        | [] => return .error (.noDocuments path extension)
        | names => return .ok (names.map (joinPath path))
  else return .ok [path]

def documents (host : Host m) (extension : String) :
    List String → m (Except CommandError (List String))
  | [] => return .ok []
  | path :: rest => do
      match ← documentsAt host extension path with
      | .error error => return .error error
      | .ok found =>
          match ← documents host extension rest with
          | .error error => return .error error
          | .ok others => return .ok (found ++ others)

-- Imports one document. What fails is reported, and the next one is not kept
-- from being imported.
def importOne (host : Host m) (importer : Import.Importer) (store : EventStore) (path : String) :
    m (Report × Nat × EventStore) := do
  let fail (message : String) : Report × Nat × EventStore :=
    (⟨[], [path ++ ": " ++ message], none⟩, 1, store)
  match ← host.readText path with
  | .error error => return fail error.message
  | .ok text =>
      match store.importDocument importer text with
      | .error error => return fail error.message
      | .ok (report, store) =>
          return (.ofOutput (importLines path (← host.newBatch) report), 0, store)

-- Imports documents in turn and counts the failures.
def importEach (host : Host m) (importer : Import.Importer) (store : EventStore) :
    List String → m (Report × Nat × EventStore)
  | [] => return (.ofOutput [], 0, store)
  | path :: rest => do
      let (report, failed, store) ← importOne host importer store path
      let (others, more, store) ← importEach host importer store rest
      return (report.append others, failed + more, store)

def importPaths (host : Host m) (config : Config) (store : EventStore) (profile : String)
    (paths : List String) : m (Report × EventStore) := do
  match config.imports.get? profile with
  | none => return (.ofError (.unknownProfile profile config.imports.keys), store)
  | some settings =>
      match Import.Importer.ofConfig settings with
      | .error error => return (.ofError (.document error), store)
      | .ok importer =>
          match ← documents host settings.format.name paths with
          | .error error => return (.ofError error, store)
          | .ok found =>
              let (report, failed, store) ← importEach host importer store found
              let failure :=
                if failed = 0 then none else some (CommandError.incomplete failed found.length)
              return ({ report with failure := failure }, store)

def perform (host : Host m) (config : Config) (store : EventStore) :
    Request → m (Report × EventStore)
  | .importDocuments profile paths => importPaths host config store profile paths
  | .read entity lower upper =>
      match readRecords store entity lower upper with
      | .ok report => return (report, store)
      | .error error => return (.ofError error, store)
  | .delete entity instant =>
      match deleteRecords store entity instant with
      | .ok result => return result
      | .error error => return (.ofError error, store)
  | .stats => return (.ofOutput (statsLines store), store)
  | .compact =>
      let (purged, store) := store.compact
      return (.ofOutput ["Purged " ++ toString purged ++ " tombstones"], store)

def loadConfig (host : Host m) (path : String) : m (Except CommandError Config) := do
  match ← host.readText path with
  | .error error => return .error (.unreadableConfig path error)
  | .ok text =>
      match Config.parse? text with
      | some config => return .ok config
      | none => return .error .malformedConfig

def openLog (host : Host m) (logging : LoggingConfig) : m (Except CommandError Unit) := do
  match logging.file with
  | none => return .ok ()
  | some path => return (← host.openLog path logging.truncate).mapError .file

-- The paths of the directories above a path, the nearest one first. Names that
-- lead nowhere are left out.
def pathsAbove (path : String) : List String :=
  let names := (Text.pieces '/' path.toList).filter fun name => name ≠ [] && name ≠ ['.']
  let root := if path.startsWith "/" then "/" else ""
  let above := ((List.range names.length).drop 1).map names.take
  above.reverse.map fun names => root ++ "/".intercalate (names.map String.ofList)

-- A directory that is there need not be made.
def settle (host : Host m) (path : String) : m (Except FileError Unit) := do
  match ← host.makeDirectory path with
  | .ok () => return .ok ()
  | .error error => return if ← host.isDirectory path then .ok () else .error error

-- Makes the first of some directories after those that follow it in the list, as
-- far as they are missing.
def makeDirectories (host : Host m) : List String → m (Except FileError Unit)
  | [] => return .ok ()
  | path :: above => do
      match ← settle host path with
      | .error .notFound =>
          match ← makeDirectories host above with
          | .ok () => settle host path
          | .error error => return .error error
      | answer => return answer

def under (path name : String) : String := if path.isEmpty then name else joinPath path name

def openNamed (host : Host m) (name : String) :
    m (Except OpenError (DatabaseName × Directory)) := do
  match DatabaseName.ofText name with
  | .error error => return .error (.database error)
  | .ok (.file path) =>
      match ← host.openDatabase path with
      | .table directory => return .ok (.file path, directory)
      | .foreign => return .error (.database .notADatabase)
      | .unreachable => return .error (.database (.cannotOpen name))
  | .ok other => return .ok (other, Directory.fresh)

-- A second database keeps other runs from the store.
def lockName : String := "LOCK"

def tableName : String := "records.db"

-- The lock is opened first and kept, so the table cannot be the same file.
def openDirectory (host : Host m) (path : String) : m (Except OpenError Directory) := do
  let made ← if path.isEmpty then pure (.ok ()) else makeDirectories host (path :: pathsAbove path)
  match made with
  | .error error => return .error (.directory error)
  | .ok () =>
      match ← openNamed host (under path lockName) with
      | .error error => return .error error
      | .ok (lock, holder) =>
          if holder.held then return .ok holder
          match ← openNamed host (under path tableName) with
          | .error error => return .error error
          | .ok (table, directory) =>
              match table.journal? with
              | some mode => return .error (.journal mode)
              | none =>
                  if table = lock then return .error (.database .locked)
                  return .ok { directory with held := false }

def closeDirectory (host : Host m) (path : String) (directory : Directory) : m Unit := do
  match DatabaseName.ofText (under path tableName) with
  | .ok (.file path) => host.saveDatabase path directory
  | _ => return ()

-- Opens the store once the configuration makes a registry.
def openStore (host : Host m) (config : Config) : m (Except CommandError EventStore) := do
  match config.registry with
  | .error error => return .error (.config error)
  | .ok registry =>
      match ← openDirectory host config.store.path with
      | .error error => return .error (.opening error)
      | .ok directory =>
          return (EventStore.openIn directory config.store registry).mapError .store

def execute (host : Host m) (invocation : Invocation) : m Report := do
  match ← loadConfig host invocation.config with
  | .error error => return .ofError error
  | .ok config =>
      match ← openLog host config.logging with
      | .error error => return .ofError error
      | .ok () =>
          match ← openStore host config with
          | .error error => return .ofError error
          | .ok store =>
              let (report, store) ← perform host config store invocation.request
              closeDirectory host config.store.path store.close
              return report

-- A run of the program.
def run (host : Host m) (arguments : List String) : m Outcome := do
  match parse arguments with
  | .error .misuse => return ⟨2, [], usage⟩
  | .error (.help topic) => return ⟨0, help topic, []⟩
  | .error .version => return ⟨0, [versionLine], []⟩
  | .ok invocation => return (← execute host invocation).outcome

end Hosted

end Chronicle.Command

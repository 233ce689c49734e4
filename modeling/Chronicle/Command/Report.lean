import Chronicle.Config
import Chronicle.Command.Host
import Chronicle.EventStore

-- What commands print and how they fail.

namespace Chronicle.Command

inductive CommandError where
  | unreadableConfig (path : String) (cause : FileError)
  -- The configuration is no TOML or lacks what it must have.
  | malformedConfig
  | config (error : ConfigError)
  | unknownProfile (name : String) (known : List String)
  | badTimestamp (text : String)
  | noDocuments (path extension : String)
  | incomplete (failed total : Nat)
  | document (error : Import.Error)
  | store (error : StoreError)
  | file (error : FileError)
  | opening (error : OpenError)
  deriving DecidableEq

def CommandError.message : CommandError → String
  | .unreadableConfig path cause => "failed to read config " ++ path ++ ": " ++ cause.message
  | .malformedConfig => "failed to parse config"
  | .config error => error.message
  | .unknownProfile name known =>
      "no import profile '" ++ name ++ "' (configured: " ++ Text.quoteList known ++ ")"
  | .badTimestamp text =>
      "invalid timestamp '" ++ text ++ "': expected RFC 3339, e.g. 2024-03-01T20:00:00Z"
  | .noDocuments path extension => "no ." ++ extension ++ " documents in " ++ path
  | .incomplete failed total =>
      toString failed ++ " of " ++ toString total ++ " documents failed to import"
  | .document error => error.message
  | .store error => error.message
  | .file error => error.message
  | .opening error => error.message

-- Lines for standard output and standard error, and what went wrong in the end.
structure Report where
  output : List String
  errors : List String
  failure : Option CommandError

namespace Report

def ofOutput (output : List String) : Report := ⟨output, [], none⟩

def ofError (error : CommandError) : Report := ⟨[], [], some error⟩

def append (first second : Report) : Report :=
  ⟨first.output ++ second.output, first.errors ++ second.errors, first.failure <|> second.failure⟩

end Report

-- The end of a run.
structure Outcome where
  code : Nat
  output : List String
  errors : List String

def Report.outcome (report : Report) : Outcome :=
  match report.failure with
  | none => ⟨0, report.output, report.errors⟩
  | some error => ⟨1, report.output, report.errors ++ ["Error: " ++ error.message]⟩

-- The outcome of one imported document.
def importLines (path batch : String) (report : ImportReport) : List String :=
  let summary :=
    path ++ ": " ++ toString report.accepted ++ " accepted, " ++ toString report.rejected.length ++
      " rejected, " ++ toString report.failed.length ++ " failed (batch " ++ batch ++ ")"
  let notes := report.notes.map fun note => "  note: " ++ note.message
  let rejected := report.rejected.map fun rejection =>
    "  entry " ++ toString rejection.index ++ " rejected [" ++ rejection.reason.code ++ "]: " ++
      rejection.reason.message
  let failed := report.failed.map fun failure =>
    "  " ++ failure.entity ++ " at " ++ failure.timestamp.display ++ " not written: " ++
      failure.error.message
  summary :: notes ++ rejected ++ failed

-- A record as a line of JSON.
def recordLine (record : Record) : String :=
  let fields := record.payload.toList.map fun field => (field.name, field.value.toJson)
  (Json.ofMembers [
    ("kind", .string record.kind),
    ("entity", .string record.entity),
    ("timestamp", .string record.timestamp.display),
    ("version", .number (.int record.version.toNat)),
    ("fields", Json.ofMembers fields)]).render

end Chronicle.Command

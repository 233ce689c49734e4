import Chronicle.Import.Error
import Chronicle.RecordError
import Chronicle.RecordKey
import Chronicle.Storage

-- What can go wrong in a store of records.

namespace Chronicle

inductive StoreError where
  -- A record does not fit the schema of its version.
  | validation (kind : String) (version : UInt32) (entity : String) (timestamp : Timestamp)
      (violation : Violation)
  | invalidKey (reason : KeyError)
  | record (error : RecordError)
  | storage (error : StorageError)
  | document (error : Import.Error)
  deriving DecidableEq

namespace StoreError

def message : StoreError → String
  | .validation kind version entity timestamp violation =>
      "'" ++ kind ++ "' v" ++ toString version.toNat ++ " record for '" ++ entity ++ "' at " ++
        timestamp.display ++ ": " ++ violation.message
  | .invalidKey reason => "invalid key: " ++ reason.message
  | .record error => error.message
  | .storage error => error.message
  | .document error => error.message

-- Whether a read that skips steps over this error.
def isSkippable : StoreError → Bool
  | .record error => error.isDecodeFailure
  | .invalidKey _ => true
  | _ => false

end StoreError

end Chronicle

import Chronicle.Schema

-- What can go wrong between records, their schemas and their stored bytes.

namespace Chronicle

-- Why bytes are no record.
inductive Corruption where
  | tooShort (length : Nat)
  | badMagic
  | unknownFormat (format : UInt8)
  | bodyTooLong (length : Nat)
  | lengthMismatch (length available : Nat)
  | digestMismatch
  | badMessage
  | noTimestamp
  | badOffset (seconds : Int)
  | noValue (field : String)
  | repeatedName
  deriving DecidableEq

def Corruption.message : Corruption → String
  | .tooShort length => toString length ++ " bytes is shorter than a frame"
  | .badMagic => "bad magic"
  | .unknownFormat format => "unknown frame format " ++ toString format.toNat
  | .bodyTooLong length => "invalid body length: " ++ toString length
  | .lengthMismatch length available =>
      "body length " ++ toString length ++ " does not match " ++ toString available ++
        " available bytes"
  | .digestMismatch => "digest mismatch"
  | .badMessage => "protobuf decode error"
  | .noTimestamp => "record has no timestamp"
  | .badOffset seconds => "invalid offset: " ++ toString seconds ++ "s"
  | .noValue field => "field '" ++ field ++ "' has no value"
  | .repeatedName => "field name repeated"

inductive RecordError where
  | corrupt (reason : Corruption)
  | unsupportedSchema (kind : String) (version latest : UInt32)
  | unknownKind (kind : String)
  | kindMismatch (expected found : String)
  | invalidSchema (kind : String) (version : UInt32) (reason : SchemaDefect)
  | missingUpgrade (kind : String) (version : UInt32)
  | tooLarge (length limit : Nat)
  deriving DecidableEq

namespace RecordError

def message : RecordError → String
  | .corrupt reason => "corrupt record: " ++ reason.message
  | .unsupportedSchema kind version latest =>
      "unsupported schema: '" ++ kind ++ "' v" ++ toString version.toNat ++ " (latest known v" ++
        toString latest.toNat ++ ")"
  | .unknownKind kind => "unknown record kind: '" ++ kind ++ "'"
  | .kindMismatch expected found =>
      "record kind mismatch: expected '" ++ expected ++ "', found '" ++ found ++ "'"
  | .invalidSchema kind version reason =>
      "invalid schema '" ++ kind ++ "' v" ++ toString version.toNat ++ ": " ++ reason.message
  | .missingUpgrade kind version =>
      "no upgrade registered for '" ++ kind ++ "' from v" ++ toString version.toNat
  | .tooLarge length limit =>
      "record too large: " ++ toString length ++ " bytes (limit " ++ toString limit ++ ")"

-- Whether the stored bytes are at fault, or what is known about them.
def isDecodeFailure : RecordError → Bool
  | .corrupt _ => true
  | .unsupportedSchema _ _ _ => true
  | .unknownKind _ => true
  | .kindMismatch _ _ => true
  | _ => false

end RecordError

end Chronicle

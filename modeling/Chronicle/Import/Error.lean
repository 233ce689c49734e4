import Chronicle.Import.Config

-- What makes an import fail as a whole.

namespace Chronicle.Import

inductive Malformation where
  -- The text is not of the format.
  | unreadable
  | tooLong (length limit : Nat)
  | missingRecords (path : String)
  | notAnArray (path found : String)
  deriving DecidableEq

inductive ConfigDefect where
  | badTimezone (timezone : String)
  | badDefault (field : String) (type : FieldType)
  | otherKind (batch schema : String)
  deriving DecidableEq

inductive Error where
  | malformed (format : Format) (reason : Malformation)
  -- The configuration names a field that the schema does not have.
  | unknownField (kind field : String)
  | config (defect : ConfigDefect)
  deriving DecidableEq

def Malformation.message : Malformation → String
  | .unreadable => ""
  | .tooLong length limit =>
      ": document is " ++ toString length ++ " bytes, limit is " ++ toString limit
  | .missingRecords path => ": no '" ++ path ++ "' in document"
  | .notAnArray path found => ": '" ++ path ++ "' is " ++ found ++ ", expected an array"

def ConfigDefect.message : ConfigDefect → String
  | .badTimezone timezone => "timezone '" ++ timezone ++ "' is not UTC or an offset like +01:00"
  | .badDefault field type => "default for '" ++ field ++ "' is not a " ++ type.name
  | .otherKind batch schema =>
      "batch of kind '" ++ batch ++ "' validated against schema '" ++ schema ++ "'"

def Error.message : Error → String
  | .malformed format reason => "malformed " ++ format.name ++ " document" ++ reason.message
  | .unknownField kind field => "schema '" ++ kind ++ "' has no field '" ++ field ++ "'"
  | .config defect => "invalid import config: " ++ defect.message

end Chronicle.Import

import Chronicle.Json
import Chronicle.Schema

-- Entries that are refused, and why.

namespace Chronicle.Import

inductive Reason where
  | notAnObject
  | missingEntity (path : String)
  | longEntity (length limit : Nat)
  | missingTimestamp (path : String)
  | badTimestamp (text : String)
  | missingField (field : String)
  | typeMismatch (field : String) (expected : FieldType) (found : String)
  -- An accepted entry has the same entity and instant.
  | duplicate (entity : String) (timestamp : Timestamp) (first : Nat)
  deriving DecidableEq

structure Rejection where
  index : Nat
  entry : Json
  reason : Reason

namespace Reason

def code : Reason → String
  | .notAnObject => "not_an_object"
  | .missingEntity _ => "missing_entity_id"
  | .longEntity _ _ => "invalid_entity_id"
  | .missingTimestamp _ => "missing_timestamp"
  | .badTimestamp _ => "invalid_timestamp"
  | .missingField _ => "missing_field"
  | .typeMismatch _ _ _ => "type_mismatch"
  | .duplicate _ _ _ => "duplicate_key"

def message : Reason → String
  | .notAnObject => "entry is not an object"
  | .missingEntity path => "no entity id at '" ++ path ++ "'"
  | .longEntity length limit =>
      "entity id is " ++ toString length ++ " bytes, limit is " ++ toString limit
  | .missingTimestamp path => "no timestamp at '" ++ path ++ "'"
  | .badTimestamp text => "unreadable timestamp " ++ text
  | .missingField field => "missing required field '" ++ field ++ "'"
  | .typeMismatch field expected found =>
      "field '" ++ field ++ "' expects " ++ expected.name ++ ", found " ++ found
  | .duplicate entity timestamp first =>
      "entity '" ++ entity ++ "' at " ++ timestamp.display ++ " already appears as entry " ++
        toString first

def details : Reason → List (String × Json)
  | .notAnObject => []
  | .missingEntity path => [("path", .string path)]
  | .longEntity length limit => [("length", .number (.int length)), ("max", .number (.int limit))]
  | .missingTimestamp path => [("path", .string path)]
  | .badTimestamp text => [("value", .string text)]
  | .missingField field => [("field", .string field)]
  | .typeMismatch field expected found =>
      [("field", .string field), ("expected", .string expected.name), ("found", .string found)]
  | .duplicate entity timestamp first =>
      [("entity_id", .string entity), ("timestamp", .string timestamp.display),
        ("first", .number (.int first))]

-- The reason as a JSON object that begins with the code.
def render (reason : Reason) : String :=
  (Json.object (("code", .string reason.code) :: reason.details)).render

end Reason

end Chronicle.Import

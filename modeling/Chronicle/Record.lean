import Chronicle.Payload

-- Records: a payload under a schema version of its kind, of one entity at one
-- instant.

namespace Chronicle

structure Record where
  kind : String
  entity : String
  timestamp : Timestamp
  version : UInt32
  payload : Payload
  deriving DecidableEq

def Record.withPayload (record : Record) (payload : Payload) : Record :=
  { record with payload := payload }

end Chronicle

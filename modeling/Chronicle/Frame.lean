import Chronicle.Body
import Chronicle.RecordError
import Chronicle.Wire.Digest

-- Stored frames: the letters TDMK, the format number, the length of the body,
-- the body, and the first bytes of the body's digest.

namespace Chronicle.Frame

def magic : Bytes := [0x54, 0x44, 0x4D, 0x4B]

def format : UInt8 := 1

def headerLength : Nat := 9

def digestLength : Nat := 8

-- The longest body.
def maxBody : Nat := 16777216

def digest (body : Bytes) : Bytes := (Wire.Sha256.digest body).take digestLength

def header (length : Nat) : Bytes := magic ++ [format] ++ Bytes.littleEndian 4 length

def wrap (body : Bytes) : Bytes := header body.length ++ body ++ digest body

-- The frame of a body, unless the body is too long to be read back.
def pack (body : Body) : Except RecordError Bytes :=
  let bytes := body.encode
  if maxBody < bytes.length then .error (.tooLarge bytes.length maxBody) else .ok (wrap bytes)

-- The body bytes of a frame whose header and digest fit.
def unwrap (bytes : Bytes) : Except Corruption Bytes :=
  let total := bytes.length
  if total < headerLength + digestLength then .error (.tooShort total)
  else if bytes.take 4 ≠ magic then .error .badMagic
  else if (bytes.drop 4).take 1 ≠ [format] then
    .error (.unknownFormat ((bytes.drop 4).headD 0))
  else
    let length := Bytes.ofLittleEndian ((bytes.drop 5).take 4)
    if maxBody < length then .error (.bodyTooLong length)
    else if total - headerLength ≠ length + digestLength then
      .error (.lengthMismatch length (total - headerLength - digestLength))
    else
      let rest := bytes.drop headerLength
      let body := rest.take length
      if rest.drop length ≠ digest body then .error .digestMismatch else .ok body

def unpack (bytes : Bytes) : Except Corruption Body := do
  match Body.decode? (← unwrap bytes) with
  | some body => .ok body
  | none => .error .badMessage

end Chronicle.Frame

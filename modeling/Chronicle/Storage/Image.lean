import Chronicle.Storage

-- Directories as bytes: the format, then the cells of the table in key order.
-- Every length takes four bytes, least significant first.

namespace Chronicle.Directory

def lengthed (bytes : Bytes) : Bytes := Bytes.littleEndian 4 bytes.length ++ bytes

def lengthed? (bytes : Bytes) : Option (Bytes × Bytes) := do
  let (length, rest) ← Bytes.split? 4 bytes
  Bytes.split? (Bytes.ofLittleEndian length) rest

def cellImage (entry : Bytes × Cell) : Bytes :=
  match entry.2 with
  | .live value => 1 :: lengthed entry.1 ++ lengthed value
  | .tombstone => 0 :: lengthed entry.1

def image (directory : Directory) : Bytes :=
  lengthed (Bytes.ofText directory.format) ++ directory.table.toList.flatMap cellImage

-- Cells up to the end of the bytes. Each takes at least one.
def cells? : (fuel : Nat) → Bytes → Option (List (Bytes × Cell))
  | _, [] => some []
  | 0, _ => none
  | fuel + 1, mark :: rest => do
      let (key, rest) ← lengthed? rest
      if mark = 0 then
        some ((key, .tombstone) :: (← cells? fuel rest))
      else
        let (value, rest) ← lengthed? rest
        some ((key, .live value) :: (← cells? fuel rest))

def ofImage? (bytes : Bytes) : Option Directory := do
  let (format, rest) ← lengthed? bytes
  some ⟨← Bytes.toText? format, Table.ofList (← cells? rest.length rest), false⟩

end Chronicle.Directory

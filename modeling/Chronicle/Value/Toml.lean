import Chronicle.Toml.Decode
import Chronicle.Value

-- Values in TOML texts.

namespace Chronicle.Value

-- An integer is signed if it can be. Dates, arrays and tables are no values.
def ofToml? : Toml → Option Value
  | .string s => some (.text s)
  | .integer n => ofInt? n <|> ofNat? n
  | .float x => some (.float x)
  | .boolean b => some (.bool b)
  | .moment _ => none
  | .illegible => none
  | .array _ => none
  | .table _ => none

end Chronicle.Value

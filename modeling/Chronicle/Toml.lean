import Chronicle.Decimal.Binary64
import Chronicle.Toml.Moment

-- TOML trees. The entries of a table are kept in the order of their names, one
-- for each name.

namespace Chronicle

inductive Toml where
  | string (s : String)
  | integer (n : Int)
  | float (x : Binary64)
  | boolean (b : Bool)
  | moment (m : Toml.Moment)
  -- What is written like a number but has no value, either because it has no
  -- digits, or other ones than those of its base, or because it is too large.
  | illegible
  | array (items : List Toml)
  | table (entries : List (String × Toml))

end Chronicle

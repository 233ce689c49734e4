-- Texts that a mark divides into pieces.

namespace Chronicle.Text

-- What stands between the marks. A text without marks is one piece.
def pieces (mark : Char) : List Char → List (List Char)
  | [] => [[]]
  | c :: rest =>
      if c = mark then [] :: pieces mark rest
      else
        match pieces mark rest with
        | first :: others => (c :: first) :: others
        | [] => [[c]]

end Chronicle.Text

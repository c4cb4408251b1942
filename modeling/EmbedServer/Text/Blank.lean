/-
White space, and the ends of a text without it.

The blank characters are those with the white-space property of the character database.  The
zero-width space does not have it, and the ideographic space does.
-/

namespace EmbedServer.Text

/-- Whether a character is white space. -/
def isBlank (c : Char) : Bool :=
  let n := c.toNat
  (9 ≤ n && n ≤ 13) || n == 0x20 || n == 0x85 || n == 0xA0 || n == 0x1680
    || (0x2000 ≤ n && n ≤ 0x200A) || n == 0x2028 || n == 0x2029 || n == 0x202F || n == 0x205F
    || n == 0x3000

/-- The characters up to and including the last one that `p` refuses. -/
def dropEndWhile (p : Char → Bool) (cs : List Char) : List Char :=
  (cs.reverse.dropWhile p).reverse

/-- The text without white space at its ends. -/
def trim (text : String) : String :=
  String.ofList (dropEndWhile isBlank (text.toList.dropWhile isBlank))

/-- The ASCII lower-case form of a text. -/
def lower (text : String) : String := String.ofList (text.toList.map Char.toLower)

/-- Whether `text` starts with `start`. -/
def startsWith (text start : String) : Bool := start.toList.isPrefixOf text.toList

/-- The rest of `text` after `start`, if it starts so. -/
def dropStart? (text start : String) : Option String :=
  if startsWith text start then some (String.ofList (text.toList.drop start.toList.length)) else none

/-- The fields of a character list between separators; always at least one. -/
def splitAt (sep : Char) : List Char → List (List Char)
  | [] => [[]]
  | c :: rest =>
    if c = sep then [] :: splitAt sep rest
    else match splitAt sep rest with
      | first :: more => (c :: first) :: more
      | [] => [[c]]

/-- The pieces of a text between separators; always at least one. -/
def pieces (sep : Char) (text : String) : List String :=
  (splitAt sep text.toList).map String.ofList

end EmbedServer.Text

/-! Names a program can write: a letter or an underscore, then letters, digits and
underscores. Only ASCII letters and digits count. -/
namespace QuadAsm.Text

/-- A character a name can start with. -/
def isNameStart (c : Char) : Bool := c.isAlpha || c == '_'

/-- A character a name can go on with. -/
def isNamePart (c : Char) : Bool := c.isAlphanum || c == '_'

/-- Whether the whole text is one name. -/
def isName : List Char → Bool
  | [] => false
  | c :: cs => isNameStart c && cs.all isNamePart

end QuadAsm.Text

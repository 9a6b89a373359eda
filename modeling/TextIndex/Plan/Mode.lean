import TextIndex.Text.Blank

/-!
# When structures are compressed

There are three modes. In plain mode nothing is compressed. In compressed mode every structure is
built at its least width. In delayed mode a requested structure is built at full width and shrunk in
place when nobody but the client needs it any more.
-/

set_option autoImplicit false

namespace TextIndex

/-- When structures are brought to their least width. -/
inductive Mode where
  | plain
  | compressed
  | delayed
deriving DecidableEq, Repr, Inhabited

namespace Mode

/-- Every mode. -/
def all : List Mode := [plain, compressed, delayed]

/-- The name by which a user selects a mode. -/
def name : Mode → String
  | plain => "plain"
  | compressed => "compressed"
  | delayed => "delayed"

/-- The capitalised name. -/
def title : Mode → String
  | plain => "Plain"
  | compressed => "Compressed"
  | delayed => "Delayed"

/-- The sentence shown for a name that no mode has. -/
def unknownMessage : String := "unknown compress mode (expected plain, compressed or delayed)"

/-- The mode of a name; blanks around it and the case of its letters do not matter. -/
def ofString? (s : String) : Option Mode :=
  all.find? fun m => m.name == Text.foldCase (Text.trim s)

end Mode

end TextIndex

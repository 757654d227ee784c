/-!
The identity tag.  Compiled test values get a hidden field that holds a symbol which only the
compiled file can name, so a record that merely looks like a test is told apart from a test.
-/

namespace ElmSuite.Script

/-- The names of a tag: the variable that holds the symbol, the field, and the symbol's
description. -/
structure IdentityTag where
  binding : String := "__elmTestSymbol"
  field : String := "__elmTestSymbol"
  description : String := "elmTestSymbol"
deriving DecidableEq, Repr

namespace IdentityTag

/-- The line that makes the symbol. -/
def allocationLine (tag : IdentityTag) : String :=
  "const " ++ tag.binding ++ " = Symbol('" ++ tag.description ++ "');"

/-- The function that accepts exactly the values that carry the symbol. -/
def checkFunction (tag : IdentityTag) : String :=
  "value => value && value." ++ tag.field ++ " === " ++ tag.binding ++
    " ? $elm$core$Maybe$Just(value) : $elm$core$Maybe$Nothing;"

/-- The field with its value, as it is put into a record. -/
def fieldText (tag : IdentityTag) : String :=
  " " ++ tag.field ++ ": " ++ tag.binding ++ ", "

end IdentityTag

end ElmSuite.Script

/-!
# JSON values

The values that are written as JSON, and the two layouts in which they are written.
-/

namespace Acceptor.Json

/-- A JSON value, as far as this library writes them. -/
inductive Value where
  | text (s : String)
  | number (n : UInt32)
  | list (elements : List Value)
  | object (members : List (String × Value))
  deriving Inhabited

/-- A list of texts. -/
def Value.texts (l : List String) : Value :=
  .list (l.map .text)

/-- How the members of lists and objects are set apart. -/
inductive Layout where
  /-- Without any space. -/
  | compact
  /-- Each member on a line of its own. -/
  | indented
  deriving DecidableEq, Repr

end Acceptor.Json

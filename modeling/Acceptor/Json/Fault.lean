import Acceptor.Reader

/-!
# Faults of a JSON text

A JSON text is read from left to right straight into the value that it is to hold, and the
first fault met decides.  A fault is one of three kinds: the text ends too early, it is
not JSON, or it is JSON of the wrong shape.
-/

namespace Acceptor

namespace Json

/-- What can be wrong with a JSON text. -/
inductive Fault where
  /-- The text ends inside the value. -/
  | incomplete
  /-- The text is not JSON. -/
  | malformed
  /-- The text is JSON so far, and does not fit the value to be read. -/
  | mismatch
  deriving DecidableEq, Repr

end Json

/-- Readers of JSON texts. -/
abbrev JsonReader (α : Type) :=
  Reader Char Json.Fault α

namespace Json

/-- Whether `c` is one of the four characters that may stand between the parts of a JSON
text. -/
def isSpace (c : Char) : Bool :=
  c == ' ' || c == '\n' || c == '\t' || c == '\r'

/-- Skips spaces; the next character, if there is one, which is not taken. -/
def next : JsonReader (Option Char) := do
  let _ ← Reader.takeWhile isSpace
  Reader.peek

theorem run_next (cs : List Char) :
  next.run cs = .ok ((cs.dropWhile isSpace).head?, cs.dropWhile isSpace)
  := rfl

/-- Exactly the given characters. -/
def literal : List Char → JsonReader Unit
  | [] => pure ()
  | c :: cs => do
    match ← Reader.item with
    | none => Reader.fail .incomplete
    | some d => if d = c then literal cs else Reader.fail .malformed

end Json

end Acceptor

import Acceptor.Description.TokenReader
import Acceptor.Table

/-!
# Table bodies

The rows of a table are written `(q0,a)=q1`, one after the other, with or without blanks
between the tokens.  `readRows` lists the rows of a body; a fault comes with the rows
before it.  `parseTable` makes a table of them, in which a row replaces an earlier one
from the same pair, and `Table.render` writes the rows of a table, each on a line.
-/

namespace Acceptor

/-- A fault in a table body, with the rows before it. -/
structure BodyFault where
  /-- The well-formed rows before the fault. -/
  rows : List Transition
  fault : Fault
  deriving DecidableEq, Repr

/-- The number of the row in which the fault lies, counted from 1. -/
def BodyFault.entry (e : BodyFault) : Nat :=
  e.rows.length + 1

namespace TokenReader

/-- The parts of a key up to the closing parenthesis; `done` are the parts before in
reverse. -/
def keyPartsAfter (endOffset : Nat) (done : List String) : TokenReader (List String) :=
  Reader.loop
    (fun _ => .error ⟨endOffset, .keyPart, .endOfInput⟩)
    (fun parts token =>
      match token.kind with
      | .identifier name => do
        match ← Reader.peek with
        | some ⟨.closeParen, _⟩ =>
          let _ ← Reader.item
          pure (.inr (name :: parts).reverse)
        | some ⟨.comma, _⟩ =>
          let _ ← Reader.item
          pure (.inl (name :: parts))
        | _ => Reader.failWith (Fault.atNext endOffset .listSeparator)
      | kind => Reader.fail ⟨token.offset, .keyPart, .token kind⟩)
    done

/-- The parts of a key, the opening parenthesis of which has been taken. -/
def keyParts (endOffset : Nat) : TokenReader (List String) :=
  keyPartsAfter endOffset []

/-- The row that begins with `token`. -/
def row (endOffset : Nat) (token : Token) : TokenReader Transition :=
  match token.kind with
  | .openParen => do
    let first ← Reader.peek
    let key ← keyParts endOffset
    match key with
    | [source, symbol] =>
      mark endOffset .equals .equalsNext
      let target ← identifier endOffset .nextState
      pure ⟨source, symbol, target⟩
    | parts =>
      Reader.fail ⟨Token.nextOffset endOffset first.toList, .keyPair, .keyParts parts.length⟩
  | kind => Reader.fail ⟨token.offset, .token .openParen, .token kind⟩

/-- The rows up to the end of the body; `done` are the rows before in reverse. -/
def rowsAfter (endOffset : Nat) (done : List Transition) :
    Reader Token BodyFault (List Transition) :=
  Reader.loop
    (fun rows => .ok rows.reverse)
    (fun rows token => do
      let next ← (row endOffset token).mapFault (BodyFault.mk rows.reverse)
      pure (.inl (next :: rows)))
    done

/-- The rows up to the end of the body. -/
def rows (endOffset : Nat) : Reader Token BodyFault (List Transition) :=
  rowsAfter endOffset []

end TokenReader

/-- The rows of a table body, in their order. -/
def readRows (body : String) : Except BodyFault (List Transition) := do
  let (rows, _) ← (TokenReader.rows body.utf8ByteSize).run (lex body)
  pure rows

/-- Reads a table body. -/
def parseTable (body : String) : Except BodyFault Table := do
  let rows ← readRows body
  pure (Table.ofList rows)

/-! ### Writing -/

/-- The characters of a row. -/
def Transition.renderChars (t : Transition) : List Char :=
  '(' :: t.source.toList ++ ',' :: t.symbol.toList ++ ')' :: '=' :: t.target.toList

/-- The characters of a table body. -/
def Table.renderChars (t : Table) : List Char :=
  t.entries.flatMap fun e => e.renderChars ++ ['\n']

/-- Writes the rows of a table. -/
def Table.render (t : Table) : String :=
  String.ofList t.renderChars

end Acceptor

import Acceptor.Description.Token

/-!
# Tokens one at a time

A `Lexer` stands at a place of a text.  A call of `next` goes past the blanks ahead and yields
the token after them, if there is one; the lexer that it hands back stands after that token.
-/

namespace Acceptor

/-- A place in a text. -/
structure Lexer where
  /-- The byte offset of the place. -/
  position : Nat
  /-- The characters from there on. -/
  rest : List Char
  deriving DecidableEq, Repr

namespace Lexer

/-- The beginning of a text. -/
def ofText (text : String) : Lexer :=
  ⟨0, text.toList⟩

/-- The next token, if there is one, and the place after it. -/
def next (l : Lexer) : Option Token × Lexer :=
  let offset := l.position + byteLength (l.rest.takeWhile isBlank)
  match l.rest.dropWhile isBlank with
  | [] => (none, ⟨offset, []⟩)
  | c :: cs =>
    match TokenKind.ofMark? c with
    | some mark => (some ⟨mark, offset⟩, ⟨offset + c.utf8Size, cs⟩)
    | none =>
      let name := c :: cs.takeWhile isNameChar
      (some ⟨.identifier (String.ofList name), offset⟩,
        ⟨offset + byteLength name, cs.dropWhile isNameChar⟩)

/-- What the next `n` calls of `next` yield. -/
def calls (l : Lexer) : Nat → List (Option Token)
  | 0 => []
  | n + 1 =>
    let (token, l') := l.next
    token :: l'.calls n

/-- The tokens that are ahead. -/
def tokens (l : Lexer) : List Token :=
  lexFrom l.position l.rest

end Lexer

end Acceptor

import Acceptor.Text.Blank
import Acceptor.Text.ByteLength

/-!
# Tokens of a description

A description is made of six marks and of identifiers; an identifier is a longest run of
characters that are neither blanks nor marks.  `lex` lists the tokens of a text, each with
the byte offset at which it starts, and `isIdentifier` tells the names that a
description can hold.
-/

namespace Acceptor

/-- The kinds of token. -/
inductive TokenKind where
  /-- An identifier, with its characters. -/
  | identifier (name : String)
  | openBrace
  | closeBrace
  | openParen
  | closeParen
  | comma
  | equals
  deriving DecidableEq, Inhabited, Repr

/-- A token and the byte offset of its first character. -/
structure Token where
  kind : TokenKind
  offset : Nat
  deriving DecidableEq, Inhabited, Repr

/-- The mark that a character is, if it is one. -/
def TokenKind.ofMark? (c : Char) : Option TokenKind :=
  match c with
  | '{' => some .openBrace
  | '}' => some .closeBrace
  | '(' => some .openParen
  | ')' => some .closeParen
  | ',' => some .comma
  | '=' => some .equals
  | _ => none

/-- The characters of a token. -/
def TokenKind.chars : TokenKind → List Char
  | .identifier name => name.toList
  | .openBrace => ['{']
  | .closeBrace => ['}']
  | .openParen => ['(']
  | .closeParen => [')']
  | .comma => [',']
  | .equals => ['=']

/-- How a message speaks of a token: `identifier 'q0'`, or a mark in quotes. -/
def TokenKind.display : TokenKind → String
  | .identifier name => "identifier '" ++ name ++ "'"
  | mark => "'" ++ String.ofList mark.chars ++ "'"

/-- Whether `c` may stand in an identifier. -/
def isNameChar (c : Char) : Bool :=
  !isBlank c && (TokenKind.ofMark? c).isNone

/-- Whether a description can hold `s` as a name: it has characters, all of which may
stand in an identifier. -/
def isIdentifier (s : String) : Bool :=
  !s.isEmpty && s.toList.all isNameChar

/-- The tokens of a text that starts at a given byte offset. -/
def lexFrom (offset : Nat) : List Char → List Token
  | [] => []
  | c :: cs =>
    if isBlank c then lexFrom (offset + c.utf8Size) cs
    else
      match TokenKind.ofMark? c with
      | some mark => ⟨mark, offset⟩ :: lexFrom (offset + c.utf8Size) cs
      | none =>
        let name := c :: cs.takeWhile isNameChar
        ⟨.identifier (String.ofList name), offset⟩
          :: lexFrom (offset + byteLength name) (cs.dropWhile isNameChar)
termination_by cs => cs.length
decreasing_by
  · simp
  · simp
  · have := (List.dropWhile_sublist isNameChar (l := cs)).length_le
    simp only [List.length_cons]
    omega

/-- The tokens of a text, from left to right. -/
def lex (text : String) : List Token :=
  lexFrom 0 text.toList

/-! ### The steps of the lexer -/

@[simp]
theorem lexFrom_nil (offset : Nat) :
  lexFrom offset [] = []
  := by
  rw [lexFrom]

theorem lexFrom_blank {c : Char} (h : isBlank c = true) (offset : Nat) (cs : List Char) :
  lexFrom offset (c :: cs) = lexFrom (offset + c.utf8Size) cs
  := by
  rw [lexFrom, if_pos h]

theorem lexFrom_mark {c : Char} {mark : TokenKind} (hb : isBlank c = false)
    (h : TokenKind.ofMark? c = some mark) (offset : Nat) (cs : List Char) :
  lexFrom offset (c :: cs) = ⟨mark, offset⟩ :: lexFrom (offset + c.utf8Size) cs
  := by
  rw [lexFrom, hb]
  simp [h]

theorem lexFrom_name {c : Char} (h : isNameChar c = true) (offset : Nat) (cs : List Char) :
  lexFrom offset (c :: cs)
    = ⟨.identifier (String.ofList (c :: cs.takeWhile isNameChar)), offset⟩
      :: lexFrom (offset + byteLength (c :: cs.takeWhile isNameChar)) (cs.dropWhile isNameChar)
  := by
  simp only [isNameChar, Bool.and_eq_true, Bool.not_eq_true', Option.isNone_iff_eq_none] at h
  rw [lexFrom, if_neg (by simp [h.1])]
  simp only [h.2]

end Acceptor

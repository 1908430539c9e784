import Acceptor.Description.Token

/-!
# Faults of a description

A `Fault` says where a description goes wrong, what was wanted there and what was found.
A `DescriptionError` says in which part of the description the fault lies.  The wording of
all of them is in the functions `display` and `message`.
-/

namespace Acceptor

/-- The parts that stand between the parentheses of a descriptor, in their order. -/
inductive Role where
  | states
  | alphabet
  | placeholder
  | initial
  | finals
  deriving DecidableEq, Repr

/-- The place of a part, where the name has the place 0. -/
def Role.position : Role → Nat
  | .states => 1
  | .alphabet => 2
  | .placeholder => 3
  | .initial => 4
  | .finals => 5

/-- How a message speaks of a part. -/
def Role.display : Role → String
  | .states => "state set"
  | .alphabet => "alphabet set"
  | .placeholder => "program placeholder"
  | .initial => "initial state"
  | .finals => "final state set"

/-- What is wanted at some place of a description. -/
inductive Wanted where
  /-- The name with which a descriptor begins. -/
  | automatonName
  /-- A mark. -/
  | token (kind : TokenKind)
  /-- A set or an identifier, between the parentheses of a descriptor. -/
  | component
  /-- An identifier, in a set. -/
  | setMember
  /-- A comma or a closing brace, after a member of a set. -/
  | setSeparator
  /-- A comma or a closing parenthesis, after a part of a descriptor or of a key. -/
  | listSeparator
  /-- Nothing more, after a descriptor. -/
  | endOfLine
  /-- As many parts as a descriptor has. -/
  | fiveComponents
  /-- A part of the shape that its place asks for. -/
  | role (part : Role)
  /-- An identifier, in a key. -/
  | keyPart
  /-- A key of two parts. -/
  | keyPair
  /-- The equals sign between a key and a state. -/
  | equalsNext
  /-- The state to which a key leads. -/
  | nextState
  deriving DecidableEq, Repr

/-- How a message speaks of what is wanted. -/
def Wanted.display : Wanted → String
  | .automatonName => "automaton name"
  | .token kind => kind.display
  | .component => "a set or an identifier"
  | .setMember => "a set member"
  | .setSeparator => "',' or '\x7d'"
  | .listSeparator => "',' or ')'"
  | .endOfLine => "end of line"
  | .fiveComponents => "5 components (states, alphabet, Prog, initial, finals)"
  | .role part => part.display ++ " at position " ++ toString part.position
  | .keyPart => "a state or symbol"
  | .keyPair => "a (state,symbol) pair"
  | .equalsNext => "'=' followed by the next state"
  | .nextState => "the next state"

/-- What is found at some place of a description. -/
inductive Found where
  /-- Nothing. -/
  | endOfInput
  /-- A token. -/
  | token (kind : TokenKind)
  /-- A set, where an identifier is wanted. -/
  | set
  /-- So many parts of a descriptor. -/
  | components (count : Nat)
  /-- So many parts of a key. -/
  | keyParts (count : Nat)
  deriving DecidableEq, Repr

/-- How a message speaks of what is found. -/
def Found.display : Found → String
  | .endOfInput => "end of input"
  | .token kind => kind.display
  | .set => "a set"
  | .components count => toString count ++ " component(s)"
  | .keyParts count => toString count ++ " key part(s)"

/-- A place in a text, with what was wanted there and what was found. -/
structure Fault where
  /-- The byte offset. -/
  offset : Nat
  wanted : Wanted
  found : Found
  deriving DecidableEq, Repr

/-- The offset of the next token, or `endOffset` if there is none. -/
def Token.nextOffset (endOffset : Nat) : List Token → Nat
  | [] => endOffset
  | t :: _ => t.offset

/-- What is found where some tokens are ahead. -/
def Found.next : List Token → Found
  | [] => .endOfInput
  | t :: _ => .token t.kind

/-- The fault that something else is wanted where the next token stands. -/
def Fault.atNext (endOffset : Nat) (wanted : Wanted) (ahead : List Token) : Fault :=
  ⟨Token.nextOffset endOffset ahead, wanted, Found.next ahead⟩

/-- The ways in which a text fails to be a description. -/
inductive DescriptionError where
  /-- There are fewer than two lines. -/
  | tooFewLines (lines : Nat)
  /-- The first line is no descriptor. -/
  | descriptor (fault : Fault)
  /-- The row with this number, counted from 1, is not well formed. -/
  | transition (entry : Nat) (fault : Fault)
  deriving DecidableEq, Repr

/-- The wording of a fault, without the part of the description in which it lies. -/
def Fault.message (fault : Fault) : String :=
  " at offset " ++ toString fault.offset ++ ": expected " ++ fault.wanted.display
    ++ ", found " ++ fault.found.display

/-- The wording of an error. -/
def DescriptionError.message : DescriptionError → String
  | .tooFewLines lines =>
    "Description needs a descriptor line and a separator line, found "
      ++ toString lines ++ " line(s)"
  | .descriptor fault => "Malformed descriptor" ++ fault.message
  | .transition entry fault => "Malformed transition #" ++ toString entry ++ fault.message

end Acceptor

import Acceptor.Description.TokenReader
import Acceptor.Descriptor

/-!
# Descriptor lines

A descriptor is written `M=({q0,q1},{a,b},Prog,q0,{q1})`: a name, and between parentheses
the states, the alphabet, a placeholder, the initial state and the final states.  The
parts are read first, each a set or an identifier; their number is checked when the line
has been read to its end, and only then the shape of each.  `parseDescriptor` reads a
line and `Descriptor.render` writes one.
-/

namespace Acceptor

/-- A part of a descriptor. -/
inductive Component where
  /-- Identifiers between braces. -/
  | set (members : List String)
  /-- A single identifier. -/
  | identifier (name : String)
  deriving DecidableEq, Repr

/-- What is found where a part of the other shape is wanted. -/
def Component.found : Component → Found
  | .set _ => .set
  | .identifier name => .token (.identifier name)

namespace TokenReader

/-! ### Lists -/

/-- What stands after an item of a list: a comma, after which the list goes on, or the
mark `close`, which ends it; `done` are the items so far in reverse.  A token in its
place is taken, so that the fault has the offset of the token after it. -/
def listSeparator {α : Type} (endOffset : Nat) (close : TokenKind) (wanted : Wanted)
    (done : List α) : TokenReader (List α ⊕ List α) := do
  match ← Reader.item with
  | some token =>
    if token.kind = .comma then pure (.inl done)
    else if token.kind = close then pure (.inr done.reverse)
    else
      Reader.failWith fun ahead =>
        ⟨Token.nextOffset endOffset ahead, wanted, .token token.kind⟩
  | none => Reader.fail ⟨endOffset, .token close, .endOfInput⟩

/-- The items of a list, the first of which is ahead, up to the mark `close`.  `item`
reads the item that begins with a token, and `done` are the items before in reverse. -/
def listItems {α : Type} (endOffset : Nat) (close : TokenKind) (wanted separator : Wanted)
    (item : Token → TokenReader α) (done : List α) : TokenReader (List α) :=
  Reader.loop
    (fun _ => .error ⟨endOffset, wanted, .endOfInput⟩)
    (fun done token => do
      let a ← item token
      listSeparator endOffset close separator (a :: done))
    done

/-! ### Parts of a descriptor -/

/-- The member of a set that begins with `token`. -/
def member (token : Token) : TokenReader String :=
  match token.kind with
  | .identifier name => pure name
  | kind => Reader.fail ⟨token.offset, .setMember, .token kind⟩

/-- The members of a set, the opening brace of which has been taken. -/
def members (endOffset : Nat) : TokenReader (List String) := do
  match ← Reader.peek with
  | some ⟨.closeBrace, _⟩ =>
    let _ ← Reader.item
    pure []
  | _ => listItems endOffset .closeBrace .setMember .setSeparator member []

/-- The part of a descriptor that begins with `token`. -/
def component (endOffset : Nat) (token : Token) : TokenReader Component :=
  match token.kind with
  | .openBrace => do
    let names ← members endOffset
    pure (.set names)
  | .identifier name => pure (.identifier name)
  | kind => Reader.fail ⟨token.offset, .component, .token kind⟩

/-- The part of a descriptor that begins with `token`, with the offset of the token. -/
def locatedComponent (endOffset : Nat) (token : Token) : TokenReader (Nat × Component) := do
  let part ← component endOffset token
  pure (token.offset, part)

/-- The parts of a descriptor up to the closing parenthesis, each with its offset. -/
def components (endOffset : Nat) : TokenReader (List (Nat × Component)) :=
  listItems endOffset .closeParen .component .listSeparator (locatedComponent endOffset) []

/-- A whole line: the name and the parts. -/
def descriptorLine (endOffset : Nat) : TokenReader (String × List (Nat × Component)) := do
  let name ← identifier endOffset .automatonName
  mark endOffset .equals (.token .equals)
  mark endOffset .openParen (.token .openParen)
  let parts ← components endOffset
  match ← Reader.peek with
  | none => pure (name, parts)
  | some _ => Reader.failWith (Fault.atNext endOffset .endOfLine)

end TokenReader

/-- The members of a part that is to be a set. -/
def Component.members (role : Role) : Nat × Component → Except Fault (List String)
  | (_, .set names) => .ok names
  | (offset, part) => .error ⟨offset, .role role, part.found⟩

/-- The name of a part that is to be an identifier. -/
def Component.name (role : Role) : Nat × Component → Except Fault String
  | (_, .identifier name) => .ok name
  | (offset, part) => .error ⟨offset, .role role, part.found⟩

/-- The descriptor with the given name and parts, if there are five of the right shapes. -/
def Descriptor.ofComponents (endOffset : Nat) (name : String) :
    List (Nat × Component) → Except Fault Descriptor
  | [states, alphabet, placeholder, initial, finals] => do
    let states ← Component.members .states states
    let alphabet ← Component.members .alphabet alphabet
    let _ ← Component.name .placeholder placeholder
    let initial ← Component.name .initial initial
    let finals ← Component.members .finals finals
    pure (Descriptor.ofLists name states alphabet initial finals)
  | parts => .error ⟨endOffset, .fiveComponents, .components parts.length⟩

/-- Reads a descriptor line. -/
def parseDescriptor (line : String) : Except Fault Descriptor := do
  let endOffset := line.utf8ByteSize
  let ((name, parts), _) ← (TokenReader.descriptorLine endOffset).run (lex line)
  Descriptor.ofComponents endOffset name parts

/-! ### Writing -/

/-- Names with commas between them. -/
def commaSeparated : List String → List Char
  | [] => []
  | [name] => name.toList
  | name :: names => name.toList ++ ',' :: commaSeparated names

/-- The characters of a set. -/
def OrderedSet.renderChars (s : OrderedSet String) : List Char :=
  '{' :: commaSeparated s.toList ++ ['}']

/-- The characters of a descriptor line. -/
def Descriptor.renderChars (d : Descriptor) : List Char :=
  d.name.toList ++ '=' :: '(' :: d.states.renderChars ++ ',' :: d.alphabet.renderChars
    ++ ",Prog,".toList ++ d.initial.toList ++ ',' :: d.finals.renderChars ++ [')']

/-- Writes a descriptor line. -/
def Descriptor.render (d : Descriptor) : String :=
  String.ofList d.renderChars

end Acceptor

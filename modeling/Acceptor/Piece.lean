import Acceptor.Automaton

/-!
# Words in pieces

A word is cut into pieces from left to right.  The symbols of the alphabet are tried in the
order that the strategy sets, the empty symbol left out.  The first of them with which the
rest of the word begins is the next piece; if there is none, the next character is a piece
of its own, foreign to the alphabet.  `Automaton.tokenize` yields the symbols of a word
without foreign characters.
-/

namespace Acceptor

/-- A piece of a word. -/
inductive Piece where
  /-- A symbol of the alphabet. -/
  | symbol (name : String)
  /-- A character at which no symbol begins. -/
  | foreign (c : Char)
  deriving DecidableEq, Repr

/-- The characters of a piece. -/
def Piece.chars : Piece → List Char
  | .symbol name => name.toList
  | .foreign c => [c]

/-- The symbol that a piece is, if it is one. -/
def Piece.symbol? : Piece → Option String
  | .symbol name => some name
  | .foreign _ => none

/-- The foreign character that a piece is, if it is one. -/
def Piece.foreign? : Piece → Option Char
  | .symbol _ => none
  | .foreign c => some c

/-! ### Candidates -/

/-- The order in which a strategy tries symbols: those of more bytes first, and those of as
many bytes in the order in which they are declared. -/
def MatchStrategy.arrange : MatchStrategy → List String → List String
  | .longestMatch, names => names.mergeSort fun s t => t.utf8ByteSize ≤ s.utf8ByteSize
  | .declarationOrder, names => names

@[simp]
theorem MatchStrategy.mem_arrange {strategy : MatchStrategy} {names : List String} {s : String} :
  s ∈ strategy.arrange names ↔ s ∈ names
  := by
  cases strategy with
  | longestMatch => exact List.mem_mergeSort
  | declarationOrder => exact Iff.rfl

/-- Symbols in the order in which they are tried. -/
structure Candidates where
  /-- The symbols. -/
  toList : List String
  /-- None of them is empty, so that each takes some characters off a word. -/
  ne_empty : ∀ name ∈ toList, name ≠ ""

namespace Candidates

/-- The symbols of an alphabet other than the empty one, in the order that a strategy
sets. -/
def ofAlphabet (strategy : MatchStrategy) (alphabet : OrderedSet String) : Candidates where
  toList := strategy.arrange (alphabet.toList.filter (· ≠ ""))
  ne_empty name h := by
    rw [MatchStrategy.mem_arrange, List.mem_filter, decide_eq_true_eq] at h
    exact h.2

/-- The first candidate with which a text begins. -/
def first? (candidates : Candidates) (text : List Char) : Option String :=
  candidates.toList.find? fun name => name.toList.isPrefixOf text

theorem length_pos_of_first? {candidates : Candidates} {text : List Char} {name : String}
    (h : candidates.first? text = some name) :
  0 < name.length
  := by
  have hne := candidates.ne_empty name (List.mem_of_find?_eq_some h)
  rw [Nat.pos_iff_ne_zero]
  simpa using hne

theorem exists_append_of_first? {candidates : Candidates} {text : List Char} {name : String}
    (h : candidates.first? text = some name) :
  text = name.toList ++ text.drop name.length
  := by
  have hstarts := List.find?_some h
  obtain ⟨rest, rfl⟩ := List.isPrefixOf_iff_prefix.mp hstarts
  rw [← String.length_toList, List.drop_left]

end Candidates

/-! ### Pieces -/

/-- The pieces of a word. -/
def pieces (candidates : Candidates) : List Char → List Piece
  | [] => []
  | c :: cs =>
    match _h : candidates.first? (c :: cs) with
    | some name => .symbol name :: pieces candidates ((c :: cs).drop name.length)
    | none => .foreign c :: pieces candidates cs
termination_by cs => cs.length
decreasing_by
  · have := candidates.length_pos_of_first? _h
    simp only [List.length_drop, List.length_cons]
    omega
  · simp

@[simp]
theorem pieces_nil (candidates : Candidates) :
  pieces candidates [] = []
  := by
  rw [pieces]

theorem pieces_of_first?_eq_some {candidates : Candidates} {text : List Char} {name : String}
    (h : candidates.first? text = some name) :
  pieces candidates text = .symbol name :: pieces candidates (text.drop name.length)
  := by
  cases text with
  | nil =>
    have hpos := candidates.length_pos_of_first? h
    have htext := congrArg List.length (candidates.exists_append_of_first? h)
    simp only [List.length_nil, List.length_append, String.length_toList] at htext
    omega
  | cons c cs =>
    rw [pieces]
    split
    · next name' h' =>
      obtain rfl := Option.some.inj (h'.symm.trans h)
      rfl
    · next h' => cases h'.symm.trans h

theorem pieces_of_first?_eq_none {candidates : Candidates} {c : Char} {cs : List Char}
    (h : candidates.first? (c :: cs) = none) :
  pieces candidates (c :: cs) = .foreign c :: pieces candidates cs
  := by
  rw [pieces]
  split
  · next h' => cases h'.symm.trans h
  · rfl

/-! ### Tokens of a word -/

/-- A word with foreign characters, and those characters. -/
structure InvalidSymbol where
  word : String
  residue : String
  deriving DecidableEq, Repr

/-- The wording of the error. -/
def InvalidSymbol.message (e : InvalidSymbol) : String :=
  "Word '" ++ e.word ++ "' contains characters outside the alphabet: '" ++ e.residue ++ "'"

namespace Automaton

/-- The symbols of the alphabet in the order in which they are tried. -/
def candidates (a : Automaton) : Candidates :=
  .ofAlphabet a.config.strategy a.descriptor.alphabet

/-- The pieces of a word, under the alphabet and the strategy of an automaton. -/
def pieces (a : Automaton) (word : String) : List Piece :=
  Acceptor.pieces a.candidates word.toList

/-- The symbols of a word, or the characters of it that are foreign. -/
def tokenize (a : Automaton) (word : String) : Except InvalidSymbol (List String) :=
  match (a.pieces word).filterMap Piece.foreign? with
  | [] => .ok ((a.pieces word).filterMap Piece.symbol?)
  | residue => .error ⟨word, String.ofList residue⟩

end Automaton

end Acceptor

import Acceptor.Descriptor
import Acceptor.Table

/-!
# Automata

An `Automaton` joins a `Descriptor`, a `Table` and a `Config`.  Its parts need not agree:
the table may mention states and symbols that the descriptor does not declare.  Two
automata are equivalent when they differ at most in the orders of their sets and rows.
-/

namespace Acceptor

/-- How a symbol is chosen where several are possible at one place of a word. -/
inductive MatchStrategy where
  /-- The longest symbol. -/
  | longestMatch
  /-- The symbol declared first. -/
  | declarationOrder
  deriving DecidableEq, Repr

instance : Inhabited MatchStrategy := ⟨.longestMatch⟩

/-- The settings of an automaton, by default `longestMatch`. -/
structure Config where
  /-- The choice among several symbols. -/
  strategy : MatchStrategy
  deriving DecidableEq, Inhabited, Repr

namespace Config

/-- The settings that take the symbol declared first. -/
def declarationOrder : Config :=
  ⟨.declarationOrder⟩

/-- The settings with another strategy. -/
def withStrategy (_ : Config) (strategy : MatchStrategy) : Config :=
  ⟨strategy⟩

end Config

/-- A descriptor and a table, with settings. -/
structure Automaton where
  /-- What is declared. -/
  descriptor : Descriptor
  /-- The transitions. -/
  table : Table
  /-- The settings. -/
  config : Config
  deriving DecidableEq, Inhabited

namespace Automaton

/-- The automaton with the default settings. -/
def ofParts (descriptor : Descriptor) (table : Table) : Automaton :=
  ⟨descriptor, table, default⟩

/-- Two automata with the same settings that differ at most in the orders of their sets
and rows. -/
def Equiv (a b : Automaton) : Prop :=
  a.descriptor ≈ b.descriptor ∧ a.table ≈ b.table ∧ a.config = b.config

instance : HasEquiv Automaton := ⟨Equiv⟩

instance (a b : Automaton) : Decidable (a ≈ b) :=
  inferInstanceAs
    (Decidable (a.descriptor ≈ b.descriptor ∧ a.table ≈ b.table ∧ a.config = b.config))

end Automaton

end Acceptor

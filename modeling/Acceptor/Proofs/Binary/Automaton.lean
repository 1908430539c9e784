import Acceptor.Binary.Automaton
import Acceptor.Proofs.Binary.Codec

/-!
# Automata that are read back from bytes

If a codec is lawful, the parts of an automaton are read back as they were written, with all orders
and the settings, as long as all that is counted is fewer than 2 ^ 64: the bytes of each text, and
the members of each set and of the table (`Automaton.Countable`).
-/

namespace Acceptor

open Binary (Codec)
open Binary.Codec (ReadsAll readsAll_nil)

variable {c : Codec}

/-! ### Sets and descriptors -/

/-- The members of a set of texts, and the bytes of each, can be counted in eight bytes. -/
def OrderedSet.Countable (s : OrderedSet String) : Prop :=
  s.size < 2 ^ 64 ∧ ∀ name ∈ s.toList, name.utf8ByteSize < 2 ^ 64

instance (s : OrderedSet String) : Decidable s.Countable :=
  inferInstanceAs (Decidable (s.size < 2 ^ 64 ∧ ∀ name ∈ s.toList, name.utf8ByteSize < 2 ^ 64))

theorem OrderedSet.Countable.reads_toBinary {s : OrderedSet String} (h : s.Countable)
    (hc : c.Lawful) :
  c.Reads c.textSet s.toBinary s
  := by
  have hlist := hc.reads_list h.1 fun name hname => hc.reads_text name (h.2 name hname)
  apply hlist.bind_pure
  rw [OrderedSet.ofList_toList]

/-- All that is counted in a descriptor can be counted in eight bytes. -/
def Descriptor.Countable (d : Descriptor) : Prop :=
  d.name.utf8ByteSize < 2 ^ 64 ∧ d.states.Countable ∧ d.alphabet.Countable
    ∧ d.initial.utf8ByteSize < 2 ^ 64 ∧ d.finals.Countable

instance (d : Descriptor) : Decidable d.Countable :=
  inferInstanceAs (Decidable (d.name.utf8ByteSize < 2 ^ 64 ∧ d.states.Countable
    ∧ d.alphabet.Countable ∧ d.initial.utf8ByteSize < 2 ^ 64 ∧ d.finals.Countable))

theorem Descriptor.Countable.reads_toBinary {d : Descriptor} (h : d.Countable) (hc : c.Lawful) :
  c.Reads c.descriptor d.toBinary d
  := by
  obtain ⟨hname, hstates, halphabet, hinitial, hfinals⟩ := h
  apply hc.reads_record
  apply ReadsAll.cons (hc.reads_text d.name hname)
  apply ReadsAll.cons (hstates.reads_toBinary hc)
  apply ReadsAll.cons (halphabet.reads_toBinary hc)
  apply ReadsAll.cons (hc.reads_text d.initial hinitial)
  apply ReadsAll.cons (hfinals.reads_toBinary hc)
  apply readsAll_nil

/-! ### Rows and tables -/

/-- The bytes of the names in a row can be counted in eight bytes. -/
def Transition.Countable (t : Transition) : Prop :=
  t.source.utf8ByteSize < 2 ^ 64 ∧ t.symbol.utf8ByteSize < 2 ^ 64
    ∧ t.target.utf8ByteSize < 2 ^ 64

instance (t : Transition) : Decidable t.Countable :=
  inferInstanceAs (Decidable (t.source.utf8ByteSize < 2 ^ 64 ∧ t.symbol.utf8ByteSize < 2 ^ 64
    ∧ t.target.utf8ByteSize < 2 ^ 64))

theorem Transition.Countable.reads_toBinary {t : Transition} (h : t.Countable) (hc : c.Lawful) :
  c.Reads c.transition t.toBinary t
  := by
  obtain ⟨hsource, hsymbol, htarget⟩ := h
  apply hc.reads_record
  apply ReadsAll.cons (hc.reads_text t.source hsource)
  apply ReadsAll.cons (hc.reads_text t.symbol hsymbol)
  apply ReadsAll.cons (hc.reads_text t.target htarget)
  apply readsAll_nil

/-- The rows of a table, and all that is counted in them, can be counted in eight bytes. -/
def Table.Countable (t : Table) : Prop :=
  t.size < 2 ^ 64 ∧ ∀ row ∈ t.entries, row.Countable

instance (t : Table) : Decidable t.Countable :=
  inferInstanceAs (Decidable (t.size < 2 ^ 64 ∧ ∀ row ∈ t.entries, row.Countable))

theorem Table.Countable.reads_toBinary {t : Table} (h : t.Countable) (hc : c.Lawful) :
  c.Reads c.table t.toBinary t
  := by
  have hlist := hc.reads_list h.1 fun row hrow => (h.2 row hrow).reads_toBinary hc
  apply hlist.bind_pure
  rw [Table.ofList_entries]

/-! ### Automata -/

theorem MatchStrategy.reads_toBinary (strategy : MatchStrategy) (hc : c.Lawful) :
  c.Reads c.matchStrategy strategy.toBinary strategy
  := by
  cases strategy with
  | longestMatch => apply hc.reads_variant rfl
  | declarationOrder => apply hc.reads_variant rfl

theorem Config.reads_toBinary (settings : Config) (hc : c.Lawful) :
  c.Reads c.config settings.toBinary settings
  := by
  apply hc.reads_record
  apply ReadsAll.cons (settings.strategy.reads_toBinary hc)
  apply readsAll_nil

/-- All that is counted in an automaton can be counted in eight bytes. -/
def Automaton.Countable (a : Automaton) : Prop :=
  a.descriptor.Countable ∧ a.table.Countable

instance (a : Automaton) : Decidable a.Countable :=
  inferInstanceAs (Decidable (a.descriptor.Countable ∧ a.table.Countable))

/-- An automaton is read back, with all orders and the settings. -/
theorem Automaton.Countable.reads_toBinary {a : Automaton} (h : a.Countable) (hc : c.Lawful) :
  c.Reads c.automaton a.toBinary a
  := by
  apply hc.reads_record
  apply ReadsAll.cons (h.1.reads_toBinary hc)
  apply ReadsAll.cons (h.2.reads_toBinary hc)
  apply ReadsAll.cons (a.config.reads_toBinary hc)
  apply readsAll_nil

end Acceptor

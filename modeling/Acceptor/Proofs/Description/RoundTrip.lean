import Acceptor.Description
import Acceptor.Draft
import Acceptor.Proofs.Description.Lexing
import Acceptor.Proofs.Description.TableGrammar

/-!
# Reading what is written

A descriptor, and a table without its line breaks, are written as the characters of the
tokens that their grammars ask for.  In these no two names are neighbours, so that they
lex as themselves, provided that all names can be written (`Automaton.Writable`).  Hence
the description of an automaton is read as its descriptor and its table, with all their
orders (`parse_render`).
-/

namespace Acceptor

/-! ### Legible tokens -/

/-- Names with commas between them can be written. -/
theorem legible_nameKinds {names : List String} (h : ∀ name ∈ names, isIdentifier name = true) :
  Legible (nameKinds names)
  := by
  induction names with
  | nil => trivial
  | cons name names ih =>
    have hname := h name List.mem_cons_self
    have hnames := ih fun n hn => h n (List.mem_cons_of_mem _ hn)
    cases names with
    | nil =>
      use hname
      constructor
      · intro next hnext
        cases hnext
      · trivial
    | cons n names =>
      have htail : Legible (.comma :: nameKinds (n :: names)) := hnames
      apply legible_identifier_cons hname htail nofun

/-- A set, with what comes after it, can be written. -/
theorem legible_setKinds
    {names : List String} (h : ∀ name ∈ names, isIdentifier name = true)
    {ks : List TokenKind} (hks : Legible ks) :
  Legible (setKinds names ++ ks)
  := by
  have htail : Legible (.closeBrace :: ks) := hks
  have hnames : Legible (.openBrace :: nameKinds names) := legible_nameKinds h
  rw [setKinds, List.append_assoc]
  apply legible_append hnames htail nofun

/-- The tokens of a descriptor can be written. -/
theorem legible_descriptorKinds
    {name : String} {states alphabet : List String} {placeholder initial : String}
    {finals : List String} (hname : isIdentifier name = true)
    (hstates : ∀ s ∈ states, isIdentifier s = true)
    (halphabet : ∀ s ∈ alphabet, isIdentifier s = true)
    (hplaceholder : isIdentifier placeholder = true) (hinitial : isIdentifier initial = true)
    (hfinals : ∀ s ∈ finals, isIdentifier s = true) :
  Legible (descriptorKinds name states alphabet placeholder initial finals)
  := by
  have hfinals' : Legible (.comma :: (setKinds finals ++ [.closeParen])) :=
    legible_setKinds hfinals trivial
  have hinitial' : Legible (.comma :: .identifier initial :: _) :=
    legible_identifier_cons hinitial hfinals' nofun
  have hplaceholder' : Legible (.comma :: .identifier placeholder :: _) :=
    legible_identifier_cons hplaceholder hinitial' nofun
  have halphabet' : Legible (.comma :: (setKinds alphabet ++ _)) :=
    legible_setKinds halphabet hplaceholder'
  have hstates' : Legible (.equals :: .openParen :: (setKinds states ++ _)) :=
    legible_setKinds hstates halphabet'
  have hline := legible_identifier_cons hname hstates' nofun
  simpa [descriptorKinds, lineStart] using hline

/-- The tokens of rows can be written. -/
theorem legible_flatMap_kinds {ts : List Transition}
    (h : ∀ t ∈ ts, isIdentifier t.source = true ∧ isIdentifier t.symbol = true
      ∧ isIdentifier t.target = true) :
  Legible (ts.flatMap Transition.kinds)
  := by
  induction ts with
  | nil => trivial
  | cons t ts ih =>
    obtain ⟨hsource, hsymbol, htarget⟩ := h t List.mem_cons_self
    have hrows := ih fun u hu => h u (List.mem_cons_of_mem _ hu)
    have htarget' : Legible (.closeParen :: .equals :: .identifier t.target
        :: ts.flatMap Transition.kinds) := by
      use htarget
      constructor
      · cases ts with
        | nil => nofun
        | cons u us =>
          intro next hnext
          cases hnext
      · apply hrows
    have hsymbol' : Legible (.comma :: .identifier t.symbol :: _) :=
      legible_identifier_cons hsymbol htarget' nofun
    apply legible_identifier_cons hsource hsymbol' nofun

/-! ### Written tokens -/

theorem commaSeparated_eq (names : List String) :
  commaSeparated names = (nameKinds names).flatMap TokenKind.chars
  := by
  induction names with
  | nil => rfl
  | cons name names ih =>
    cases names with
    | nil => simp [commaSeparated, nameKinds, joined, TokenKind.chars]
    | cons n names =>
      rw [commaSeparated, ih]
      · rfl
      · intro hnil
        cases hnil

theorem OrderedSet.renderChars_eq (s : OrderedSet String) :
  s.renderChars = (setKinds s.toList).flatMap TokenKind.chars
  := by
  rw [renderChars, setKinds, List.flatMap_append, List.flatMap_cons, commaSeparated_eq]
  rfl

/-- A descriptor is written as the characters of its tokens. -/
theorem Descriptor.renderChars_eq (d : Descriptor) :
  d.renderChars
    = (descriptorKinds d.name d.states.toList d.alphabet.toList "Prog" d.initial
        d.finals.toList).flatMap TokenKind.chars
  := by
  simp only [renderChars, OrderedSet.renderChars_eq, descriptorKinds, lineStart,
    List.flatMap_append, List.flatMap_cons, List.flatMap_nil, TokenKind.chars]
  simp

/-- A row is written as the characters of its tokens. -/
theorem Transition.renderChars_eq (t : Transition) :
  t.renderChars = t.kinds.flatMap TokenKind.chars
  := by
  simp [renderChars, kinds, nameKinds, joined, TokenKind.chars]

/-! ### Written lines -/

/-- A written token holds no line break. -/
theorem newline_notMem {ks : List TokenKind} (h : Legible ks) :
  '\n' ∉ ks.flatMap TokenKind.chars
  := by
  intro hmem
  have hblank := h.isBlank_of_mem_chars hmem
  revert hblank
  decide

/-- A table is written as the characters of the tokens of its rows, with line breaks. -/
theorem Table.filter_renderChars {t : Table}
    (h : Legible (t.entries.flatMap Transition.kinds)) :
  t.renderChars.filter (· ≠ '\n')
    = (t.entries.flatMap Transition.kinds).flatMap TokenKind.chars
  := by
  have hne : ∀ c ∈ (t.entries.flatMap Transition.kinds).flatMap TokenKind.chars,
      decide (c ≠ '\n') = true := by
    rintro c hc
    rw [decide_eq_true_eq]
    rintro rfl
    apply newline_notMem h hc
  rw [← List.filter_eq_self.mpr hne, renderChars]
  generalize t.entries = ts
  induction ts with
  | nil => rfl
  | cons e es ih =>
    rw [List.flatMap_cons, List.flatMap_cons, List.flatMap_append, List.filter_append,
      List.filter_append, List.filter_append, ih, e.renderChars_eq]
    simp

/-- A written descriptor is read back. -/
theorem parseDescriptor_render {d : Descriptor}
    (h : Legible (descriptorKinds d.name d.states.toList d.alphabet.toList "Prog" d.initial
      d.finals.toList)) :
  parseDescriptor (String.ofList d.renderChars) = .ok d
  := by
  have hkinds : (lex (String.ofList d.renderChars)).map Token.kind
      = descriptorKinds d.name d.states.toList d.alphabet.toList "Prog" d.initial
        d.finals.toList := by
    rw [map_kind_lex_ofList, d.renderChars_eq, h.lexKinds_chars]
  rw [parseDescriptor_of_map_kind hkinds, Descriptor.ofLists, OrderedSet.ofList_toList,
    OrderedSet.ofList_toList, OrderedSet.ofList_toList]

/-- A written table is read back, whatever line breaks are left out. -/
theorem parseTable_render {t : Table} (h : Legible (t.entries.flatMap Transition.kinds)) :
  parseTable (String.ofList (t.renderChars.filter (· ≠ '\n'))) = .ok t
  := by
  have hkinds : (lex (String.ofList (t.renderChars.filter (· ≠ '\n')))).map Token.kind
      = t.entries.flatMap Transition.kinds := by
    rw [map_kind_lex_ofList, Table.filter_renderChars h, h.lexKinds_chars]
  rw [parseTable_of_map_kind hkinds, Table.ofList_entries]

/-! ### Written automata -/

/-- All names of an automaton, those that are not declared included. -/
def Automaton.names (a : Automaton) : List String :=
  a.descriptor.declaredNames ++ a.descriptor.initial :: a.descriptor.finals.toList
    ++ a.table.entries.flatMap fun e => [e.source, e.symbol, e.target]

/-- A description can hold all names of the automaton. -/
def Automaton.Writable (a : Automaton) : Prop :=
  ∀ name ∈ a.names, isIdentifier name = true

instance (a : Automaton) : Decidable a.Writable :=
  inferInstanceAs (Decidable (∀ name ∈ a.names, isIdentifier name = true))

namespace Automaton

variable {a : Automaton}

theorem Writable.legible_descriptor (h : a.Writable) :
  Legible (descriptorKinds a.descriptor.name a.descriptor.states.toList
    a.descriptor.alphabet.toList "Prog" a.descriptor.initial a.descriptor.finals.toList)
  := by
  apply legible_descriptorKinds
  · apply h
    simp [names, Descriptor.declaredNames]
  · intro s hs
    apply h
    simp [names, Descriptor.declaredNames, hs]
  · intro s hs
    apply h
    simp [names, Descriptor.declaredNames, hs]
  · decide
  · apply h
    simp [names]
  · intro s hs
    apply h
    simp [names, hs]

theorem Writable.legible_table (h : a.Writable) :
  Legible (a.table.entries.flatMap Transition.kinds)
  := by
  apply legible_flatMap_kinds
  intro e he
  have hrow : ∀ name ∈ [e.source, e.symbol, e.target], isIdentifier name = true := by
    intro name hname
    apply h
    apply List.mem_append_right
    apply List.mem_flatMap.mpr
    use e
  simpa using hrow

/-- The description of an automaton is read as its descriptor and its table. -/
theorem Writable.parse_renderChars (h : a.Writable) :
  parse (String.ofList a.renderChars) = .ok (a.descriptor, a.table)
  := by
  have hlines : lines a.renderChars
      = a.descriptor.renderChars :: "Prog".toList :: lines a.table.renderChars := by
    have hd : '\n' ∉ a.descriptor.renderChars := by
      rw [a.descriptor.renderChars_eq]
      apply newline_notMem h.legible_descriptor
    have htext : a.renderChars
        = a.descriptor.renderChars
          ++ '\n' :: ("Prog".toList ++ '\n' :: a.table.renderChars) := by
      simp [renderChars]
    rw [htext, lines_append_newline hd, lines_append_newline (by decide)]
  rw [parse, String.toList_ofList, hlines]
  dsimp only
  rw [flatten_lines, readParts, parseDescriptor_render h.legible_descriptor,
    parseTable_render h.legible_table]
  rfl

/-- A description can hold the names of an automaton with which nothing is wrong. -/
theorem writable_of_consistent (h : Consistent a.descriptor a.table) :
  a.Writable
  := by
  obtain ⟨hnames, hinitial, hfinals, hrows⟩ := consistent_iff.mp h
  have hstate : ∀ s ∈ a.descriptor.states, isIdentifier s = true := by
    intro s hs
    apply hnames
    simp [Descriptor.declaredNames, OrderedSet.mem_def.mp hs]
  have hsymbol : ∀ s ∈ a.descriptor.alphabet, isIdentifier s = true := by
    intro s hs
    apply hnames
    simp [Descriptor.declaredNames, OrderedSet.mem_def.mp hs]
  intro name hname
  simp only [names, List.mem_append, List.mem_cons, List.mem_flatMap, List.not_mem_nil,
    or_false] at hname
  rcases hname with (hname | rfl | hname) | ⟨e, he, rfl | rfl | rfl⟩
  · apply hnames name hname
  · apply hstate _ hinitial
  · apply hstate _ (hfinals name hname)
  · apply hstate _ (hrows e he).1
  · apply hsymbol _ (hrows e he).2.1
  · apply hstate _ (hrows e he).2.2

end Automaton

/-- The description of an automaton, all names of which can be written, is read as its
descriptor and its table, and so as the automaton with the default settings, which has the
same description.  This holds for the automata with which nothing is wrong, and hence for
those that drafts make. -/
theorem parse_render
    {a : Automaton}
    (h : a.Writable ∨ ensureConsistent a.descriptor a.table = .ok ()
      ∨ ∃ draft : Draft, draft.build = .ok a) :
  parse a.render = .ok (a.descriptor, a.table)
    ∧ parseAutomaton a.render = .ok { a with config := default }
    ∧ ({ a with config := default } : Automaton).render = a.render
  := by
  have hw : a.Writable := by
    rcases h with h | h | ⟨draft, h⟩
    · apply h
    · apply Automaton.writable_of_consistent
      apply ensureConsistent_eq_ok.mp h
    · apply Automaton.writable_of_consistent
      apply Draft.consistent_of_build h
  have hparse : parse a.render = .ok (a.descriptor, a.table) := hw.parse_renderChars
  use hparse
  constructor
  · rw [parseAutomaton, hparse]
    rfl
  · rfl

/-- The names that can be written need not be declared. -/
theorem parse_render_undeclared :
  let a : Automaton :=
    ⟨Descriptor.ofLists "M" ["q0", "é"] ["a"] "q7" ["q9", "q0"],
      Table.ofList [⟨"q8", "b", "q0"⟩, ⟨"é", "a", "'"⟩], .declarationOrder⟩
  a.Writable ∧ ¬ Consistent a.descriptor a.table
    ∧ parse a.render = .ok (a.descriptor, a.table)
  := by
  intro a
  have hw : a.Writable := by decide
  use hw
  constructor
  · decide
  · apply (parse_render (.inl hw)).1

end Acceptor

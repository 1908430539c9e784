import Acceptor.Proofs.Description.Lexing
import Acceptor.Proofs.Path

/-!
# Paths read off their texts

A path is written with a space before and after the arrow of each symbol.  When no state or symbol
has a space in it, these are the only ones, and the path can be read off its text
(`Path.ofText_render`).  This is so of the runs of automata with which nothing is wrong, so that
two of them that are written alike are the same (`eq_of_render_eq`).
-/

namespace Acceptor

/-! ### Texts of paths -/

namespace Path

/-- The arrow on which a symbol is written. -/
def arrow (symbol : String) : List Char :=
  '-' :: symbol.toList ++ ['-', '>']

/-- The symbol that is written on an arrow. -/
def ofArrow (arrow : List Char) : String :=
  String.ofList arrow.tail.dropLast.dropLast

/-- States and arrows in turns. -/
def parts : List String → List (List Char)
  | [] => []
  | [state] => [state.toList]
  | state :: symbol :: rest => state.toList :: arrow symbol :: parts rest

/-- The states and symbols of states and arrows in turns. -/
def ofParts : List (List Char) → List String
  | [] => []
  | [state] => [String.ofList state]
  | state :: arrow :: rest => String.ofList state :: ofArrow arrow :: ofParts rest

/-- Reads a path off its text, the parts of which are divided by spaces. -/
def ofText (text : String) : Path :=
  ⟨ofParts (text.toList.splitOn ' ')⟩

theorem ofArrow_arrow (symbol : String) :
  ofArrow (arrow symbol) = symbol
  := by
  have hend : symbol.toList ++ ['-', '>'] = symbol.toList ++ ['-'] ++ ['>'] := by
    rw [List.append_assoc, List.singleton_append]
  rw [ofArrow, arrow, List.cons_append, List.tail_cons, hend, List.dropLast_concat,
    List.dropLast_concat, String.ofList_toList]

theorem ofParts_parts (items : List String) :
  ofParts (parts items) = items
  := by
  induction items using parts.induct with
  | case1 => rfl
  | case2 state => rw [parts, ofParts, String.ofList_toList]
  | case3 state symbol rest ih =>
    rw [parts, ofParts, String.ofList_toList, ofArrow_arrow, ih]

theorem parts_ne_nil {items : List String} (h : items.length % 2 = 1) :
  parts items ≠ []
  := by
  match items with
  | [state] => apply List.cons_ne_nil
  | state :: symbol :: rest => apply List.cons_ne_nil

/-- The parts of a complete path are written with spaces between them. -/
theorem written_eq_intercalate {items : List String} (h : items.length % 2 = 1) :
  written items = [' '].intercalate (parts items)
  := by
  induction items using parts.induct with
  | case1 => cases h
  | case2 state => rw [written, parts, List.intercalate_singleton]
  | case3 state symbol rest ih =>
    have hrest : rest.length % 2 = 1 := by
      rw [List.length_cons, List.length_cons] at h
      omega
    obtain ⟨part, more, hparts⟩ := List.exists_cons_of_ne_nil (parts_ne_nil hrest)
    rw [written, parts, List.intercalate_cons_cons, hparts, List.intercalate_cons_cons, ← hparts,
      ← ih hrest]
    simp [arrow]

theorem notMem_of_mem_parts {items : List String} (h : ∀ item ∈ items, ' ' ∉ item.toList) :
  ∀ part ∈ parts items, ' ' ∉ part
  := by
  induction items using parts.induct with
  | case1 => nofun
  | case2 state => simpa [parts] using h
  | case3 state symbol rest ih =>
    simp only [List.forall_mem_cons] at h
    simp only [parts, List.forall_mem_cons]
    use h.1, by simp [arrow, h.2.1], ih h.2.2

/-- A complete path can be read off its text when nothing that it meets has a space in it. -/
theorem ofText_render {p : Path} (hp : p.Complete) (h : ∀ item ∈ p.items, ' ' ∉ item.toList) :
  ofText p.render = p
  := by
  rw [ofText, hp.render_eq, String.toList_ofList, written_eq_intercalate hp.size_odd,
    List.splitOn_intercalate ' ' (notMem_of_mem_parts h) (parts_ne_nil hp.size_odd),
    ofParts_parts]

end Path

/-! ### Paths of accepted words -/

theorem mem_everyOther_or {α : Type} {a : α} {l : List α} (h : a ∈ l) :
  a ∈ everyOther l ∨ a ∈ everyOther l.tail
  := by
  induction l with
  | nil => cases h
  | cons b l ih =>
    rw [List.tail_cons]
    rcases List.mem_cons.mp h with rfl | h
    · left
      cases l <;> apply List.mem_cons_self
    · cases l with
      | nil => cases h
      | cons c l =>
        rcases ih h with hmem | hmem
        · right
          apply hmem
        · left
          apply List.mem_cons_of_mem b hmem

/-- A name that a description can hold has no space in it. -/
theorem space_notMem_of_isIdentifier {name : String} (h : isIdentifier name = true) :
  ' ' ∉ name.toList
  := by
  intro hmem
  have hspace := isBlank_of_isNameChar ((isIdentifier_iff.mp h).2 ' ' hmem)
  cases hspace

namespace Automaton

variable {a : Automaton} {word : String} {path : Path}

/-- An accepted word is made up of the symbols of its path. -/
theorem join_symbols_of_accepts (h : a.accepts word = .ok (.accepted path)) :
  String.join path.symbols = word
  := by
  cases hword : a.tokenize word with
  | error e =>
    rw [accepts_of_tokenize_error hword] at h
    cases h
  | ok symbols =>
    rw [accepts_of_tokenize_ok hword, Except.ok.injEq] at h
    obtain ⟨k, q, hrun⟩ := exists_longestRun a.table a.descriptor.initial symbols
    rcases Nat.lt_or_eq_of_le hrun.le with hk | rfl
    · rw [hrun.outcome_of_lt hk] at h
      cases h
    · obtain rfl := Run.path_of_outcome h
      rw [hrun.leadsAlong.symbols_eq]
      apply (join_of_tokenize hword).2

/-- An automaton with which nothing is wrong accepts no word with a path that has a space in a
state or in a symbol. -/
theorem space_notMem_of_accepts
    (hconsistent : Consistent a.descriptor a.table)
    (h : a.accepts word = .ok (.accepted path)) :
  ∀ item ∈ path.items, ' ' ∉ item.toList
  := by
  obtain ⟨symbols, k, q, hrun, hsymbols, houtcome⟩ := exists_run_of_accepts h
  have hmem := hconsistent.outcome_mem hrun hsymbols
  rw [← houtcome] at hmem
  obtain ⟨hnames, -, -, -⟩ := consistent_iff.mp hconsistent
  intro item hitem
  apply space_notMem_of_isIdentifier
  apply hnames
  rw [Descriptor.declaredNames, List.mem_append, List.mem_cons]
  rcases mem_everyOther_or hitem with hstate | hsymbol
  · left
    right
    apply hmem.1 item hstate
  · right
    apply hmem.2 item hsymbol

end Automaton

/-- The runs with which two automata accept words, with neither of which anything is wrong, are the
same when they are written alike.  The words are then the same as well, since they are made up of
the symbols of the runs. -/
theorem eq_of_render_eq
    {a b : Automaton} {word word' : String} {path path' : Path}
    (ha : ensureConsistent a.descriptor a.table = .ok ())
    (hb : ensureConsistent b.descriptor b.table = .ok ())
    (h : a.accepts word = .ok (.accepted path))
    (h' : b.accepts word' = .ok (.accepted path'))
    (hrender : path.render = path'.render) :
  path = path' ∧ word = word' ∧ word = String.join path.symbols
  := by
  have hread : Path.ofText path.render = path :=
    Path.ofText_render (a.complete_of_accepts h)
      (a.space_notMem_of_accepts (ensureConsistent_eq_ok.mp ha) h)
  have hread' : Path.ofText path'.render = path' :=
    Path.ofText_render (b.complete_of_accepts h')
      (b.space_notMem_of_accepts (ensureConsistent_eq_ok.mp hb) h')
  obtain rfl : path = path' := by
    rw [← hread, hrender, hread']
  have hword := Automaton.join_symbols_of_accepts h
  have hword' := Automaton.join_symbols_of_accepts h'
  use rfl, hword.symm.trans hword', hword.symm

/-- Two automata with different states, symbols and transitions accept a word along a path in which
the names look like arrows. -/
theorem eq_of_render_eq_arrows :
  let a : Automaton :=
    ⟨Descriptor.ofLists "M" ["-", "->", ">"] ["->", ">-"] "-" [">"],
      Table.ofList [⟨"-", "->", "->"⟩, ⟨"->", ">-", ">"⟩], .declarationOrder⟩
  let b : Automaton :=
    ⟨Descriptor.ofLists "->" [">", "q", "->", "-"] [">-", "->", "-"] "-" [">", "q"],
      Table.ofList [⟨"->", ">-", ">"⟩, ⟨"q", ">-", "q"⟩, ⟨"-", "->", "->"⟩], .declarationOrder⟩
  let path : Path := ⟨["-", "->", "->", ">-", ">"]⟩
  ensureConsistent a.descriptor a.table = .ok ()
    ∧ ensureConsistent b.descriptor b.table = .ok ()
    ∧ a.accepts "->>-" = .ok (.accepted path)
    ∧ b.accepts "->>-" = .ok (.accepted path)
    ∧ path.render = "- -->-> -> ->--> >"
    ∧ "->>-" = String.join path.symbols
  := by
  intro a b path
  have ha : ensureConsistent a.descriptor a.table = .ok () :=
    ensureConsistent_eq_ok.mpr (by decide)
  have hb : ensureConsistent b.descriptor b.table = .ok () :=
    ensureConsistent_eq_ok.mpr (by decide)
  have h : a.accepts "->>-" = .ok (.accepted path) := by
    with_unfolding_all rfl
  have h' : b.accepts "->>-" = .ok (.accepted path) := by
    with_unfolding_all rfl
  use ha, hb, h, h', by decide
  apply (eq_of_render_eq ha hb h h' rfl).2.2

/-- With a space in the name of a state, two runs may be written alike. -/
example :
  Path.render ⟨["q", "a", "r"]⟩ = Path.render ⟨["q -a-> r"]⟩
  := by
  decide

end Acceptor

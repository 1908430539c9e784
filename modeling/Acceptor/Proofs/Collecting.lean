import Acceptor.Proofs.Description.RoundTrip
import Acceptor.Proofs.Draft
import Acceptor.Proofs.Json.Automaton

/-!
# Ways to collect rows

Rows come into a table in portions or one by one, from a JSON list, by the steps of a draft, or
from a table body in which they are written with blanks between them.  However they come, the
table is the one that is collected from them (`collectedFrom_everyWay`), so that its pairs stand
in the order of their first occurrences and lead where the last rows lead.
-/

namespace Acceptor

/-! ### Portions -/

theorem Table.foldl_insertMany (t : Table) (portions : List (List Transition)) :
  portions.foldl insertMany t = t.insertMany portions.flatten
  := by
  induction portions generalizing t with
  | nil => rfl
  | cons rows portions ih => rw [List.foldl_cons, ih, List.flatten_cons, insertMany_append]

/-! ### JSON -/

namespace Json.Codec

/-- A text of a list of rows is read as the table of these rows. -/
theorem decode_table (c : Codec) (text : String) :
  c.decode c.table text = (c.decode (c.list c.transition) text).map Table.ofList
  := c.decode_bind_pure (c.list c.transition) Table.ofList text

/-- A list of rows is read back, in whatever layout. -/
theorem Lawful.decode_rows {c : Codec} (hc : c.Lawful) (rows : List Transition) (layout : Layout) :
  c.decode (c.list c.transition) (c.render layout (.list (rows.map Transition.toJson))) = .ok rows
  := by
  have hrows : c.Reads (c.list c.transition) (.list (rows.map Transition.toJson)) rows :=
    hc.reads_list (fun row _ => row.reads_toJson hc) (Value.within_list fun row _ =>
      row.within_toJson _)
  apply hrows.decode_render hc

end Json.Codec

/-! ### Drafts -/

namespace DraftStep

/-- Whether a step adds rows. -/
def addsRows (step : DraftStep) : Bool :=
  step.rows?.isSome

theorem all_rows?_map_transition (rows : List Transition) :
  all rows? (rows.map transition) = rows
  := by
  induction rows with
  | nil => rfl
  | cons row rows ih =>
    rw [List.map_cons, all_cons, ih]
    rfl

theorem all_rows?_transitions (t : Table) :
  all rows? [transitions t] = t.entries
  := List.append_nil t.entries

end DraftStep

/-- The table that a draft makes is that of the rows that the steps add. -/
theorem Draft.table_of_build_ofSteps {steps : List DraftStep} {a : Automaton}
    (h : (ofSteps steps).build = .ok a) :
  a.table = Table.ofList (DraftStep.all DraftStep.rows? (steps.filter DraftStep.addsRows))
  := by
  have hrows : DraftStep.all DraftStep.rows? (steps.filter DraftStep.addsRows)
      = DraftStep.all DraftStep.rows? steps := DraftStep.all_telling DraftStep.rows? steps
  rw [table_of_build h, ofSteps_eq, hrows]

/-! ### Table bodies -/

/-- Rows, each with what is written after it. -/
def spacedRows (parts : List (Transition × List Char)) : List Char :=
  parts.flatMap fun part => part.1.renderChars ++ part.2

theorem stopsBefore_spacedRows (parts : List (Transition × List Char)) :
  Reader.StopsBefore isNameChar (spacedRows parts)
  := by
  cases parts with
  | nil => apply Reader.stopsBefore_nil
  | cons part parts =>
    apply Reader.stopsBefore_cons.mpr
    rfl

/-- The tokens of rows are the same whatever blanks stand after each of them. -/
theorem lexKinds_spacedRows
    {parts : List (Transition × List Char)}
    (hnames : ∀ row ∈ parts.map Prod.fst, isIdentifier row.source = true
      ∧ isIdentifier row.symbol = true ∧ isIdentifier row.target = true)
    (hblanks : ∀ part ∈ parts, ∀ c ∈ part.2, isBlank c = true) :
  lexKinds (spacedRows parts) = (parts.map Prod.fst).flatMap Transition.kinds
  := by
  induction parts with
  | nil => apply lexKinds_nil
  | cons part parts ih =>
    obtain ⟨row, blanks⟩ := part
    rw [List.map_cons, List.forall_mem_cons] at hnames
    rw [List.forall_mem_cons] at hblanks
    have hlegible : Legible row.kinds := by
      have hrow := legible_flatMap_kinds (List.forall_mem_singleton.mpr hnames.1)
      rwa [List.flatMap_singleton] at hrow
    have hstops := stopsBefore_blanks_append hblanks.1 (stopsBefore_spacedRows parts)
    have htext : spacedRows ((row, blanks) :: parts)
        = row.kinds.flatMap TokenKind.chars ++ (blanks ++ spacedRows parts) := by
      rw [spacedRows, List.flatMap_cons, row.renderChars_eq, List.append_assoc]
      rfl
    rw [htext, hlegible.lexKinds_append hstops, lexKinds_blanks_append hblanks.1,
      ih hnames.2 hblanks.2, List.map_cons, List.flatMap_cons]

/-! ### All ways -/

/-- The table into which rows are collected, in which each pair keeps its first place and leads
where the last row from it leads, is made of these rows in whatever portions they are added, and
one by one; it is what a JSON text is read as if the text is read as the list of these rows, and so
what a lawful codec reads where it has written this list; it is the table of an automaton of which
the draft adds these rows one by one, or the table itself; and if their names can be written, it is
what a body of these rows is read as, whatever blanks stand before, between and after them. -/
theorem collectedFrom_everyWay (rows : List Transition) :
  CollectedFrom rows (Table.ofList rows)
    ∧ (∀ portions : List (List Transition), portions.flatten = rows →
      portions.foldl Table.insertMany ∅ = Table.ofList rows)
    ∧ rows.foldl (fun t row => (t.exchange row).2) ∅ = Table.ofList rows
    ∧ (∀ (c : Json.Codec) (text : String), c.decode (c.list c.transition) text = .ok rows →
      c.decode c.table text = .ok (Table.ofList rows))
    ∧ (∀ c : Json.Codec, c.Lawful → ∀ layout,
      c.decode c.table (c.render layout (.list (rows.map Transition.toJson)))
        = .ok (Table.ofList rows))
    ∧ (∀ (steps : List DraftStep) (a : Automaton), (Draft.ofSteps steps).build = .ok a →
      steps.filter DraftStep.addsRows = rows.map .transition
          ∨ steps.filter DraftStep.addsRows = [.transitions (Table.ofList rows)] →
        a.table = Table.ofList rows)
    ∧ ((∀ row ∈ rows, isIdentifier row.source = true ∧ isIdentifier row.symbol = true
        ∧ isIdentifier row.target = true) →
      ∀ (blanks : List Char) (parts : List (Transition × List Char)),
        parts.map Prod.fst = rows → (∀ c ∈ blanks, isBlank c = true) →
          (∀ part ∈ parts, ∀ c ∈ part.2, isBlank c = true) →
            parseTable (String.ofList (blanks ++ spacedRows parts)) = .ok (Table.ofList rows))
  := by
  and_intros
  · apply collectedFrom_ofList
  · rintro portions rfl
    apply Table.foldl_insertMany
  · rfl
  · intro c text htext
    rw [c.decode_table, htext]
    rfl
  · intro c hc layout
    rw [c.decode_table, hc.decode_rows]
    rfl
  · intro steps a hbuild hsteps
    rw [Draft.table_of_build_ofSteps hbuild]
    rcases hsteps with hsteps | hsteps
    · rw [hsteps, DraftStep.all_rows?_map_transition]
    · rw [hsteps, DraftStep.all_rows?_transitions, Table.ofList_entries]
  · rintro hnames blanks parts rfl hblanks hparts
    apply parseTable_of_map_kind
    rw [map_kind_lex_ofList, lexKinds_blanks_append hblanks, lexKinds_spacedRows hnames hparts]

/-- The last of these rows replaces the target of the first, in whatever way they come. -/
theorem collectedFrom_everyWay_replaced :
  let rows : List Transition := [⟨"q0", "a", "q1"⟩, ⟨"q1", "é", "q1"⟩, ⟨"q0", "a", "q0"⟩]
  let t : Table := ⟨[⟨"q0", "a", "q0"⟩, ⟨"q1", "é", "q1"⟩], by decide⟩
  let steps : List DraftStep :=
    [.name "M", .states ["q0", "q1"], .transition ⟨"q0", "a", "q1"⟩, .initial "q0",
      .alphabet ["a", "é"], .transition ⟨"q1", "é", "q1"⟩, .finalState "q1",
      .transition ⟨"q0", "a", "q0"⟩]
  CollectedFrom rows t
    ∧ [rows.take 1, [], rows.drop 1].foldl Table.insertMany ∅ = t
    ∧ Json.standard.decode Json.standard.table
        (Json.standard.render .indented (.list (rows.map Transition.toJson))) = .ok t
    ∧ (∃ a, (Draft.ofSteps steps).build = .ok a ∧ a.table = t)
    ∧ (∃ a, (Draft.ofSteps (steps.take 2 ++ [.initial "q0", .alphabet ["a", "é"],
      .transitions t])).build = .ok a ∧ a.table = t)
    ∧ parseTable "\t(q0,a)=q1(q1,é)=q1\n\n(q0,a)=q0" = .ok t
  := by
  intro rows t steps
  have ht : Table.ofList rows = t := by decide
  have hcollected := collectedFrom_everyWay rows
  rw [ht] at hcollected
  obtain ⟨hspec, hportions, -, -, hjson, hdraft, hbody⟩ := hcollected
  use hspec, hportions _ rfl, hjson Json.standard Json.standard_lawful .indented
  and_intros
  · let a : Automaton :=
      ⟨Descriptor.ofLists "M" ["q0", "q1"] ["a", "é"] "q0" ["q1"], t, default⟩
    have hbuild : (Draft.ofSteps steps).build = .ok a := by decide
    exact ⟨a, hbuild, hdraft _ a hbuild (.inl rfl)⟩
  · let a : Automaton :=
      ⟨Descriptor.ofLists "M" ["q0", "q1"] ["a", "é"] "q0" [], t, default⟩
    have hbuild : (Draft.ofSteps (steps.take 2 ++ [.initial "q0", .alphabet ["a", "é"],
        .transitions t])).build = .ok a := by
      decide
    exact ⟨a, hbuild, hdraft _ a hbuild (.inr rfl)⟩
  · apply hbody (by decide) ['\t'] (rows.zip [[], ['\n', '\n'], []]) rfl
    · simp [isBlank]
    · simp [rows, isBlank]

end Acceptor

import Acceptor.Proofs.Draft
import Acceptor.Proofs.Equivalence

/-!
# Steps in another order

The steps of a draft can be taken in another order as long as those that replace something stay in
theirs: the names among each other, and likewise the initial states, the settings, and the rows.
The draft then makes an equivalent automaton with the same table, or it is refused for the same
reason, with the same violations up to their order (`build_rearranged`).
-/

namespace Acceptor

open DraftStep

/-- The same steps in an order that differs at most in the places of the steps that declare states
and symbols or make states final, and in how steps of different kinds stand to each other. -/
structure Rearranged (steps steps' : List DraftStep) : Prop where
  perm : steps.Perm steps'
  names : telling name? steps = telling name? steps'
  initials : telling initial? steps = telling initial? steps'
  configs : telling config? steps = telling config? steps'
  rows : telling rows? steps = telling rows? steps'

instance (steps steps' : List DraftStep) : Decidable (Rearranged steps steps') :=
  decidable_of_iff
    (steps.Perm steps' ∧ telling name? steps = telling name? steps'
      ∧ telling initial? steps = telling initial? steps'
      ∧ telling config? steps = telling config? steps'
      ∧ telling rows? steps = telling rows? steps')
    ⟨fun h => ⟨h.1, h.2.1, h.2.2.1, h.2.2.2.1, h.2.2.2.2⟩,
      fun h => ⟨h.perm, h.names, h.initials, h.configs, h.rows⟩⟩

/-- Two results of drafts that differ at most in the orders of sets and of violations. -/
inductive BuiltAlike : Except DraftError Automaton → Except DraftError Automaton → Prop
  | automaton {a b : Automaton} : a ≈ b → a.table = b.table → BuiltAlike (.ok a) (.ok b)
  | missingName : BuiltAlike (.error .missingName) (.error .missingName)
  | missingInitialState :
      BuiltAlike (.error .missingInitialState) (.error .missingInitialState)
  | inconsistent {v w : List Violation} :
      v.Perm w → BuiltAlike (.error (.inconsistent v)) (.error (.inconsistent w))

variable {steps steps' : List DraftStep}

namespace DraftStep

theorem last?_congr {α : Type} {f : DraftStep → Option α}
    (h : telling f steps = telling f steps') :
  last? f steps = last? f steps'
  := by
  rw [← last?_telling, h, last?_telling]

theorem all_congr {α : Type} {f : DraftStep → Option (List α)}
    (h : telling f steps = telling f steps') :
  all f steps = all f steps'
  := by
  rw [← all_telling, h, all_telling]

/-- Sets have the same members in whatever order these are told. -/
theorem ofList_all_equiv {α : Type} [DecidableEq α] (f : DraftStep → Option (List α))
    (h : steps.Perm steps') :
  OrderedSet.ofList (all f steps) ≈ OrderedSet.ofList (all f steps')
  := by
  have hperm : (all f steps).Perm (all f steps') := (h.filterMap f).flatten
  apply OrderedSet.equiv_iff.mpr
  intro a
  rw [OrderedSet.mem_ofList, OrderedSet.mem_ofList, hperm.mem_iff]

end DraftStep

namespace Rearranged

theorem table_ofSteps_eq (h : Rearranged steps steps') (name initial : String) :
  (Automaton.ofSteps name initial steps).table = (Automaton.ofSteps name initial steps').table
  := congrArg Table.ofList (all_congr h.rows)

/-- Rearranged steps make equivalent automata. -/
theorem ofSteps_equiv (h : Rearranged steps steps') (name initial : String) :
  Automaton.ofSteps name initial steps ≈ Automaton.ofSteps name initial steps'
  := by
  constructor
  · exact ⟨rfl, ofList_all_equiv states? h.perm, ofList_all_equiv alphabet? h.perm, rfl,
      ofList_all_equiv finals? h.perm⟩
  constructor
  · rw [h.table_ofSteps_eq]
    apply Table.equiv_iff.mpr fun _ => Iff.rfl
  · rw [Automaton.ofSteps, Automaton.ofSteps, last?_congr h.configs]

end Rearranged

theorem Automaton.violations_perm_of_equiv {a b : Automaton} (h : a ≈ b) :
  a.violations.Perm b.violations
  := violations_perm h.1 h.2.1

/-- Steps that make equivalent automata with the same table build alike. -/
theorem Makes.builtAlike {a b : Automaton} (ha : Makes steps a) (hb : Makes steps' b)
    (hequiv : a ≈ b) (htable : a.table = b.table) :
  BuiltAlike (Draft.ofSteps steps).build (Draft.ofSteps steps').build
  := by
  have hperm := Automaton.violations_perm_of_equiv hequiv
  rw [ha.build_eq, hb.build_eq]
  by_cases hnone : a.violations = []
  · have hnone' : b.violations = [] := by
      rw [hnone] at hperm
      apply hperm.symm.eq_nil
    rw [if_pos hnone, if_pos hnone']
    apply BuiltAlike.automaton hequiv htable
  · have hsome : b.violations ≠ [] := by
      intro hnone'
      rw [hnone'] at hperm
      apply hnone hperm.eq_nil
    rw [if_neg hnone, if_neg hsome]
    apply BuiltAlike.inconsistent hperm

theorem Draft.build_ofSteps_of_missingName (h : last? name? steps = none) :
  (Draft.ofSteps steps).build = .error .missingName
  := by
  rw [build_eq_missingName_iff, ofSteps_eq, h]

theorem Draft.build_ofSteps_of_missingInitialState
    {name : String} (hname : last? name? steps = some name) (h : last? initial? steps = none) :
  (Draft.ofSteps steps).build = .error .missingInitialState
  := by
  rw [build_eq_missingInitialState_iff, ofSteps_eq, hname, h]
  exact ⟨Option.some_ne_none name, rfl⟩

/-- Rearranged steps make equivalent automata with the same table, or are refused for the same
reason; if this is that something is wrong, it is the same that is wrong, up to the order. -/
theorem build_rearranged (h : Rearranged steps steps') :
  BuiltAlike (Draft.ofSteps steps).build (Draft.ofSteps steps').build
  := by
  have hnames := last?_congr h.names
  have hinitials := last?_congr h.initials
  cases hname : last? name? steps with
  | none =>
    rw [Draft.build_ofSteps_of_missingName hname,
      Draft.build_ofSteps_of_missingName (hnames.symm.trans hname)]
    apply BuiltAlike.missingName
  | some name =>
    have hname' : last? name? steps' = some name := hnames.symm.trans hname
    cases hinitial : last? initial? steps with
    | none =>
      rw [Draft.build_ofSteps_of_missingInitialState hname hinitial,
        Draft.build_ofSteps_of_missingInitialState hname' (hinitials.symm.trans hinitial)]
      apply BuiltAlike.missingInitialState
    | some initial =>
      have hmakes : Makes steps (Automaton.ofSteps name initial steps) :=
        makes_iff.mpr ⟨name, initial, hname, hinitial, rfl⟩
      have hmakes' : Makes steps' (Automaton.ofSteps name initial steps') :=
        makes_iff.mpr ⟨name, initial, hname', hinitials.symm.trans hinitial, rfl⟩
      apply hmakes.builtAlike hmakes' (h.ofSteps_equiv name initial)
      apply h.table_ofSteps_eq

/-- The two names and the two rows from one pair stay in their order here, and the other steps do
not.  With two final states more, which are not declared, the same is wrong in both orders. -/
theorem build_rearranged_bothWays :
  let steps : List DraftStep :=
    [.name "N", .state "q1", .states ["q0"], .initial "q0", .transition ⟨"q0", "a", "q1"⟩,
      .alphabet ["b"], .name "M", .alphabet ["a"], .transitions (Table.ofList [⟨"q0", "a", "q0"⟩])]
  let steps' : List DraftStep :=
    [.states ["q0"], .transition ⟨"q0", "a", "q1"⟩, .alphabet ["a"], .name "N",
      .transitions (Table.ofList [⟨"q0", "a", "q0"⟩]), .alphabet ["b"], .name "M", .initial "q0",
      .state "q1"]
  let finals : List DraftStep := [.finalState "q8", .finalState "q7"]
  let a : Automaton :=
    ⟨Descriptor.ofLists "M" ["q1", "q0"] ["b", "a"] "q0" [], Table.ofList [⟨"q0", "a", "q0"⟩],
      default⟩
  let b : Automaton :=
    ⟨Descriptor.ofLists "M" ["q0", "q1"] ["a", "b"] "q0" [], Table.ofList [⟨"q0", "a", "q0"⟩],
      default⟩
  Rearranged steps steps'
    ∧ (Draft.ofSteps steps).build = .ok a
    ∧ BuiltAlike (.ok a) (.ok b)
    ∧ Rearranged (steps ++ finals) (finals.reverse ++ steps')
    ∧ BuiltAlike
      (.error (.inconsistent [.unknownFinalState "q8", .unknownFinalState "q7"]))
      (.error (.inconsistent [.unknownFinalState "q7", .unknownFinalState "q8"]))
  := by
  intro steps steps' finals a b
  have hsteps : Rearranged steps steps' := by decide
  have hfinals : Rearranged (steps ++ finals) (finals.reverse ++ steps') := by decide
  have hbuild : (Draft.ofSteps steps).build = .ok a := by decide
  have hbuild' : (Draft.ofSteps steps').build = .ok b := by decide
  have hrefused : (Draft.ofSteps (steps ++ finals)).build
      = .error (.inconsistent [.unknownFinalState "q8", .unknownFinalState "q7"]) := by
    decide
  have hrefused' : (Draft.ofSteps (finals.reverse ++ steps')).build
      = .error (.inconsistent [.unknownFinalState "q7", .unknownFinalState "q8"]) := by
    decide
  use hsteps, hbuild
  and_intros
  · rw [← hbuild, ← hbuild']
    apply build_rearranged hsteps
  · exact hfinals
  · rw [← hrefused, ← hrefused']
    apply build_rearranged hfinals

end Acceptor

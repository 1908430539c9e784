import Acceptor.Proofs.Confinement
import Acceptor.Proofs.Json.Automaton

/-!
# Complete paths

A path that begins and ends with a state is complete: its states and symbols take turns, and
nothing is left out when it is written (`Path.Complete`).  The paths of runs are complete, and
each list of odd length is the path of a run, so that it is the odd length that makes a path
complete (`Path.complete_iff`).  A path that is read from JSON is whatever list stands there
(`complete_or_decoded`).
-/

namespace Acceptor

/-- The members of two lists in turns, beginning with the first list. -/
def alternate {α : Type} : List α → List α → List α
  | [], bs => bs
  | as, [] => as
  | a :: as, b :: bs => a :: b :: alternate as bs

namespace Path

/-- The characters of a list of states and symbols in turns, none of which is left out. -/
def written : List String → List Char
  | [] => []
  | [state] => state.toList
  | state :: symbol :: rest =>
    state.toList ++ " -".toList ++ symbol.toList ++ "-> ".toList ++ written rest

/-- A path begins and ends with a state. -/
structure Complete (p : Path) : Prop where
  /-- The length is odd. -/
  size_odd : p.size % 2 = 1
  /-- The last item is a state. -/
  lastState?_eq : p.lastState? = p.states.getLast?
  /-- There is one state more than there are symbols. -/
  length_states : p.states.length = p.symbols.length + 1
  /-- States and symbols take turns. -/
  alternate_eq : alternate p.states p.symbols = p.items
  /-- All items are written. -/
  render_eq : p.render = String.ofList (written p.items)

end Path

/-! ### Runs -/

namespace Run

theorem alternate_steps (start : String) (steps : List Transition) :
  alternate (start :: steps.map Transition.target) (steps.map Transition.symbol)
    = start :: steps.flatMap fun step => [step.symbol, step.target]
  := by
  induction steps generalizing start with
  | nil => rfl
  | cons step steps ih =>
    rw [List.map_cons, List.map_cons, alternate, ih, List.flatMap_cons]
    rfl

theorem append_renderSteps (start : String) (steps : List Transition) :
  start.toList ++ Path.renderSteps (steps.flatMap fun step => [step.symbol, step.target])
    = Path.written (start :: steps.flatMap fun step => [step.symbol, step.target])
  := by
  induction steps generalizing start with
  | nil => apply List.append_nil
  | cons step steps ih =>
    simp only [List.flatMap_cons, List.cons_append, List.nil_append, Path.renderSteps, Path.written]
    rw [← ih]
    simp only [List.append_assoc]

/-- The path of a run is complete. -/
theorem complete_path (r : Run) : r.path.Complete
  where
  size_odd := by
    rw [r.size_path]
    omega
  lastState?_eq := by
    rw [r.lastState?_path, r.states_path, last, List.getLast?_cons, List.getLast?_map]
    cases r.steps.getLast? with
    | none => rfl
    | some step => rfl
  length_states := by
    rw [r.states_path, r.symbols_path, List.length_cons, List.length_map, List.length_map]
  alternate_eq := by
    rw [r.states_path, r.symbols_path]
    apply alternate_steps
  render_eq := congrArg String.ofList (append_renderSteps r.start r.steps)

/-- What is accepted is accepted with the path of the run. -/
theorem path_of_outcome {r : Run} {finals : OrderedSet String} {path : Path}
    (h : r.outcome finals = .accepted path) :
  path = r.path
  := by
  rw [outcome] at h
  split at h
  · cases h
  · split at h
    · cases h
      rfl
    · cases h

end Run

/-! ### Paths of odd length -/

namespace Path

/-- A list of odd length is what some run meets. -/
theorem exists_run_of_odd (items : List String) (h : items.length % 2 = 1) :
  ∃ r : Run, r.path = ⟨items⟩
  := by
  match items, h with
  | [state], _ => exact ⟨⟨state, [], none⟩, rfl⟩
  | state :: symbol :: rest, h =>
    have hrest : rest.length % 2 = 1 := by
      rw [List.length_cons, List.length_cons] at h
      omega
    obtain ⟨r, hr⟩ := exists_run_of_odd rest hrest
    obtain ⟨start, steps, stuck⟩ := r
    use ⟨state, ⟨state, symbol, start⟩ :: steps, stuck⟩
    obtain rfl := Path.mk.inj hr
    rfl

/-- It is the odd length that makes a path complete. -/
theorem complete_iff (p : Path) :
  p.Complete ↔ p.size % 2 = 1
  := by
  constructor
  · apply Complete.size_odd
  · intro h
    obtain ⟨items⟩ := p
    obtain ⟨r, hr⟩ := exists_run_of_odd items h
    rw [← hr]
    apply r.complete_path

end Path

/-- The path of an accepted word is complete. -/
theorem Automaton.complete_of_accepts {a : Automaton} {word : String} {path : Path}
    (h : a.accepts word = .ok (.accepted path)) :
  path.Complete
  := by
  obtain ⟨symbols, k, q, -, -, houtcome⟩ := exists_run_of_accepts h
  obtain rfl := Run.path_of_outcome houtcome.symm
  apply Run.complete_path

/-! ### Paths from JSON -/

/-- A text is read as a path when it is read as the list of its items. -/
theorem Json.Codec.decode_path_eq_ok_iff {c : Json.Codec} {text : String} {path : Path} :
  c.decode c.path text = .ok path ↔ c.decode (c.list c.text) text = .ok path.items
  := by
  have hdecode : c.decode c.path text = (c.decode (c.list c.text) text).map Path.mk := by
    apply decode_bind_pure
  rw [hdecode]
  cases c.decode (c.list c.text) text with
  | error e => exact iff_of_false nofun nofun
  | ok items =>
    constructor
    · rintro ⟨⟩
      rfl
    · rintro ⟨⟩
      rfl

/-- A path with which a word is accepted is complete.  A path is also what a JSON text is read as
whenever the text is read as the list of its items, and a lawful codec reads it where it has written
it, by itself and in the outcome of a word; hence a path that is read is complete if the list has
odd length, and only then. -/
theorem complete_or_decoded (path : Path) :
  (∀ (a : Automaton) (word : String), a.accepts word = .ok (.accepted path) → path.Complete)
    ∧ (∀ (c : Json.Codec) (text : String),
      c.decode c.path text = .ok path ↔ c.decode (c.list c.text) text = .ok path.items)
    ∧ (∀ c : Json.Codec, c.Lawful → ∀ layout,
      c.decode c.path (c.render layout path.toJson) = .ok path
        ∧ c.decode c.acceptance (c.render layout (Acceptance.accepted path).toJson)
          = .ok (.accepted path))
    ∧ (path.Complete ↔ path.items.length % 2 = 1)
  := by
  and_intros
  · intro a word
    apply Automaton.complete_of_accepts
  · intro c text
    apply c.decode_path_eq_ok_iff
  · intro c hc layout
    use (path.reads_toJson hc).decode_render hc layout
    apply ((Acceptance.accepted path).reads_toJson hc).decode_render hc
  · apply Path.complete_iff

/-- A word of two symbols is accepted, and all that it meets is written. -/
theorem complete_or_decoded_accepted :
  let a : Automaton :=
    ⟨Descriptor.ofLists "M" ["q0", "q1"] ["a", "é"] "q0" ["q1"],
      Table.ofList [⟨"q0", "a", "q1"⟩, ⟨"q0", "é", "q0"⟩], .declarationOrder⟩
  let path : Path := ⟨["q0", "é", "q0", "a", "q1"]⟩
  a.accepts "éa" = .ok (.accepted path)
    ∧ path.Complete
    ∧ path.render = "q0 -é-> q0 -a-> q1"
  := by
  intro a path
  have haccepts : a.accepts "éa" = .ok (.accepted path) := by
    with_unfolding_all rfl
  obtain ⟨hcomplete, -, -, -⟩ := complete_or_decoded path
  use haccepts, hcomplete a "éa" haccepts
  rfl

/-- A list that breaks off after a symbol is read as a path all the same, and the symbol is left
out when this path is written. -/
theorem not_complete_decoded :
  let path : Path := ⟨["q0", "a"]⟩
  Json.standard.decode Json.standard.path "[\"q0\",\"a\"]" = .ok path
    ∧ ¬ path.Complete
    ∧ path.render = "q0"
  := by
  intro path
  have htext : Json.standard.render .compact path.toJson = "[\"q0\",\"a\"]" := by
    decide
  and_intros
  · rw [← htext]
    apply (path.reads_toJson Json.standard_lawful).decode_render Json.standard_lawful
  · rw [path.complete_iff]
    decide
  · rfl

end Acceptor

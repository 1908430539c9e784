import Acceptor.Log
import Acceptor.Proofs.Continuation
import Acceptor.Proofs.Path

/-!
# Logs of runs

While a word is run, an event is told for each transition that is followed, and one for the reason
for which the word is not accepted.  `Automaton.acceptsTelling` runs symbol after symbol and tells
each event when it happens; `Automaton.acceptLog` computes the same events from the run when it is
over (`Automaton.acceptsTelling_eq`).  They tell all of the run, so that the outcome of the word can
be read off them (`acceptLog_outcome`).
-/

namespace Acceptor

/-! ### Outcomes read off logs -/

/-- The symbol that an event tells, and the state to which it leads. -/
def Event.met : Event → List String
  | .step _ symbol target => [symbol, target]
  | _ => []

/-- The outcome of a run from `start`, of which the events are told. -/
def Acceptance.ofLog (start : String) (log : List Event) : Acceptance :=
  match log.getLast? with
  | some (.undefinedTransition _ state symbol) => .rejected (.undefinedTransition state symbol)
  | some (.endedOnNonFinal _ state) => .rejected (.nonFinalState state)
  | _ => .accepted ⟨start :: log.flatMap Event.met⟩

/-- The events that are told when the outcome of `word` is known. -/
def Acceptance.closing (word : String) : Acceptance → List Event
  | .accepted _ => []
  | .rejected (.undefinedTransition state symbol) => [.undefinedTransition word state symbol]
  | .rejected (.nonFinalState state) => [.endedOnNonFinal word state]

namespace Run

/-- The events of the transitions that are followed. -/
def events (r : Run) : List Event :=
  r.steps.map fun step => .step step.source step.symbol step.target

theorem log_eq (r : Run) (finals : OrderedSet String) (word : String) :
  r.log finals word = r.events ++ (r.outcome finals).closing word
  := by
  rw [log]
  cases r.outcome finals with
  | accepted path => rfl
  | rejected reason => cases reason <;> rfl

/-- The path of a run is the chain of its events. -/
theorem items_path (r : Run) :
  r.path.items = r.start :: r.events.flatMap Event.met
  := by
  rw [events, List.flatMap_map]
  rfl

theorem path_eq_of_log (r : Run) (finals : OrderedSet String) (word : String) :
  r.path = ⟨r.start :: (r.log finals word).flatMap Event.met⟩
  := by
  have hclosing : ((r.outcome finals).closing word).flatMap Event.met = [] := by
    cases r.outcome finals with
    | accepted path => rfl
    | rejected reason => cases reason <;> rfl
  rw [log_eq, List.flatMap_append, hclosing, List.append_nil, ← items_path]

/-- A run with one transition in front reaches what the run reaches. -/
theorem last_cons (r : Run) (state symbol : String) :
  last ⟨state, ⟨state, symbol, r.start⟩ :: r.steps, r.stuck⟩ = r.last
  := by
  have hlast : r.start = last ⟨state, [⟨state, symbol, r.start⟩], none⟩ := rfl
  apply last_followedBy hlast

/-- The outcome of a run can be read off its log. -/
theorem ofLog_log (r : Run) (finals : OrderedSet String) (word : String) :
  Acceptance.ofLog r.start (r.log finals word) = r.outcome finals
  := by
  rw [log_eq]
  cases houtcome : r.outcome finals with
  | accepted path =>
    obtain rfl := path_of_outcome houtcome
    rw [Acceptance.closing, List.append_nil, Acceptance.ofLog, ← items_path, events,
      List.getLast?_map]
    cases r.steps.getLast? <;> rfl
  | rejected reason =>
    cases reason <;> rw [Acceptance.closing, Acceptance.ofLog, List.getLast?_concat]

end Run

/-! ### Events told one by one -/

/-- How far a run has come: the state in which it is, what it has met from its first state on, and
the events that it has told. -/
structure Walk where
  state : String
  met : List String
  told : List Event

namespace Walk

/-- What is told, and the outcome, when no transition leads on from here. -/
def stop (word : String) (w : Walk) (symbol : String) : List Event × Acceptance :=
  (w.told ++ [.undefinedTransition word w.state symbol],
    .rejected (.undefinedTransition w.state symbol))

/-- Follows the transition from here on a symbol. -/
def take (t : Table) (word : String) (w : Walk) (symbol : String) :
    Except (List Event × Acceptance) Walk :=
  match t.get? w.state symbol with
  | none => .error (w.stop word symbol)
  | some target =>
    .ok ⟨target, w.met ++ [symbol, target], w.told ++ [.step w.state symbol target]⟩

/-- What is told, and the outcome, when there are no more symbols. -/
def finish (finals : OrderedSet String) (word : String) (w : Walk) : List Event × Acceptance :=
  if w.state ∈ finals then (w.told, .accepted ⟨w.met⟩)
  else (w.told ++ [.endedOnNonFinal word w.state], .rejected (.nonFinalState w.state))

end Walk

/-- The events and the outcome of a word, which is run symbol after symbol. -/
def Automaton.acceptsTelling (a : Automaton) (word : String) :
    List Event × Except InvalidSymbol Acceptance :=
  match a.tokenize word with
  | .error e => ([], .error e)
  | .ok symbols =>
    match symbols.foldlM (Walk.take a.table word)
        ⟨a.descriptor.initial, [a.descriptor.initial], []⟩ with
    | .error (told, outcome) => (told, .ok outcome)
    | .ok w =>
      let (told, outcome) := w.finish a.descriptor.finals word
      (told, .ok outcome)

namespace Walk

/-- How far a run has come that goes on with another one. -/
def along (w : Walk) (r : Run) : Walk :=
  ⟨r.last, w.met ++ r.events.flatMap Event.met, w.told ++ r.events⟩

theorem along_of_steps_nil (w : Walk) (stuck : Option String) :
  w.along ⟨w.state, [], stuck⟩ = w
  := by
  simp [along, Run.last, Run.events]

/-- What a run with one transition in front tells and meets is what its first step does, and then
what the rest of it does. -/
theorem along_cons (w : Walk) (symbol : String) (r : Run) :
  w.along ⟨w.state, ⟨w.state, symbol, r.start⟩ :: r.steps, r.stuck⟩
    = along ⟨r.start, w.met ++ [symbol, r.start], w.told ++ [.step w.state symbol r.start]⟩ r
  := by
  simp [along, r.last_cons, Run.events, Event.met]

/-- One symbol after another is taken up, as far as the run along them goes. -/
theorem foldlM_take (t : Table) (word : String) (symbols : List String) (w : Walk) :
  symbols.foldlM (take t word) w
    = match (t.run w.state symbols).stuck with
      | none => .ok (w.along (t.run w.state symbols))
      | some symbol => .error ((w.along (t.run w.state symbols)).stop word symbol)
  := by
  induction symbols generalizing w with
  | nil =>
    rw [Table.run, along_of_steps_nil]
    rfl
  | cons symbol symbols ih =>
    rw [List.foldlM_cons, take, Table.run]
    cases hget : t.get? w.state symbol with
    | none =>
      dsimp only
      rw [along_of_steps_nil]
      rfl
    | some target =>
      -- The rest of the run goes on from where the first step has come to.
      have halong := w.along_cons symbol (t.run target symbols)
      rw [t.start_run] at halong
      dsimp only
      rw [halong]
      apply ih

/-- How far a run has come when it is over. -/
def ofRun (r : Run) : Walk :=
  ⟨r.last, r.path.items, r.events⟩

theorem along_of_start {r : Run} {start : String} (h : r.start = start) :
  along ⟨start, [start], []⟩ r = ofRun r
  := by
  rw [ofRun, r.items_path, h]
  rfl

end Walk

/-- What is told of a run, and its outcome, when it is over. -/
theorem Run.log_outcome_eq (r : Run) (finals : OrderedSet String) (word : String) :
  (r.log finals word, r.outcome finals)
    = match r.stuck with
      | none => (Walk.ofRun r).finish finals word
      | some symbol => (Walk.ofRun r).stop word symbol
  := by
  rw [log_eq, outcome]
  cases r.stuck with
  | some symbol => rfl
  | none =>
    dsimp only [Walk.finish, Walk.ofRun]
    split
    · rw [Acceptance.closing, List.append_nil]
    · rfl

/-- The events that are told when they happen are those of the log, and the outcome is the same. -/
theorem Automaton.acceptsTelling_eq (a : Automaton) (word : String) :
  a.acceptsTelling word = (a.acceptLog word, a.accepts word)
  := by
  cases hword : a.tokenize word with
  | error e => rw [acceptsTelling, acceptLog, hword, accepts_of_tokenize_error hword]
  | ok symbols =>
    have hover := (a.run symbols).log_outcome_eq a.descriptor.finals word
    rw [acceptsTelling, acceptLog, hword, accepts_of_tokenize_ok hword]
    dsimp only
    rw [Walk.foldlM_take, Walk.along_of_start (a.table.start_run a.descriptor.initial symbols)]
    rw [run] at hover ⊢
    rw [Prod.ext_iff] at hover
    dsimp only at hover
    rw [hover.1, hover.2]
    cases (a.table.run a.descriptor.initial symbols).stuck <;> rfl

/-! ### Logs of runs -/

/-- How a run on `word` along the first `k` of its `symbols`, through the states `q 0`, …, `q k`,
comes out: the outcome, and what is observed after the steps. -/
inductive Closes
    (a : Automaton) (word : String) (symbols : List String) (k : Nat) (q : Nat → String) :
    Acceptance → List Record → Prop where
  /-- The run goes to the end and ends in a final state; its path is the chain of the steps. -/
  | accepted (hk : k = symbols.length) (hfinal : q k ∈ a.descriptor.finals) :
    Closes a word symbols k q
      (.accepted ⟨a.descriptor.initial :: (a.acceptLog word).flatMap Event.met⟩) []
  /-- No transition leads on. -/
  | undefinedTransition (hk : k < symbols.length) :
    Closes a word symbols k q (.rejected (.undefinedTransition (q k) symbols[k]))
      [⟨.debug, "undefined transition",
        [("word", word), ("state", q k), ("symbol", symbols[k])]⟩]
  /-- The run goes to the end and ends in a state that is not final. -/
  | nonFinalState (hk : k = symbols.length) (hfinal : q k ∉ a.descriptor.finals) :
    Closes a word symbols k q (.rejected (.nonFinalState (q k)))
      [⟨.debug, "ended on non-final state", [("word", word), ("state", q k)]⟩]

/-- What is observed of the steps of a longest run. -/
theorem LongestRun.map_record_events
    {t : Table} {start : String} {symbols : List String} {k : Nat} {q : Nat → String}
    (h : LongestRun t start symbols k q) :
  (t.run start symbols).events.map Event.record
    = (symbols.take k).mapIdx fun i symbol =>
        ⟨.trace, "step", [("from", q i), ("symbol", symbol), ("to", q (i + 1))]⟩
  := by
  rw [h.run_eq, Run.events]
  apply List.ext_getElem <;> simp [Event.record, Event.level, Event.message, Event.fields]

theorem Automaton.acceptLog_of_tokenize_ok (a : Automaton) {word : String} {symbols : List String}
    (h : a.tokenize word = .ok symbols) :
  a.acceptLog word = (a.run symbols).log a.descriptor.finals word
  := by
  rw [acceptLog, h]

/-- The outcome of a word, and what is observed after its steps. -/
theorem LongestRun.closes
    {a : Automaton} {word : String} {symbols : List String} {k : Nat} {q : Nat → String}
    (hsymbols : a.tokenize word = .ok symbols)
    (h : LongestRun a.table a.descriptor.initial symbols k q) :
  Closes a word symbols k q ((a.run symbols).outcome a.descriptor.finals)
    ((((a.run symbols).outcome a.descriptor.finals).closing word).map Event.record)
  := by
  rw [Automaton.run]
  rcases Nat.lt_or_eq_of_le h.le with hk | rfl
  · rw [h.outcome_of_lt hk]
    apply Closes.undefinedTransition hk
  · rw [h.outcome_of_length]
    split
    · next hfinal =>
      have hpath := (a.run symbols).path_eq_of_log a.descriptor.finals word
      rw [← a.acceptLog_of_tokenize_ok hsymbols, Automaton.run, Table.start_run] at hpath
      rw [hpath]
      apply Closes.accepted rfl hfinal
    · next hfinal => apply Closes.nonFinalState rfl hfinal

/-- A word with foreign characters leaves no log.  The log of another word has an event for each
transition of the longest run along its symbols, and after these none if the word is accepted, or
else one with the reason for which it is not.  The outcome can be read off the log, and the events
are told in the order in which they happen. -/
theorem acceptLog_outcome (a : Automaton) (word : String) :
  (∀ e, a.tokenize word = .error e → a.accepts word = .error e ∧ a.acceptLog word = [])
    ∧ (∀ symbols, a.tokenize word = .ok symbols →
      ∃ k q outcome closing,
        LongestRun a.table a.descriptor.initial symbols k q
          ∧ a.accepts word = .ok outcome
          ∧ Closes a word symbols k q outcome closing
          ∧ (a.acceptLog word).map Event.record
            = ((symbols.take k).mapIdx fun i symbol =>
                ⟨.trace, "step", [("from", q i), ("symbol", symbol), ("to", q (i + 1))]⟩)
              ++ closing
          ∧ outcome = Acceptance.ofLog a.descriptor.initial (a.acceptLog word))
    ∧ a.acceptsTelling word = (a.acceptLog word, a.accepts word)
  := by
  and_intros
  · intro e he
    use accepts_of_tokenize_error he
    rw [Automaton.acceptLog, he]
  · intro symbols hsymbols
    obtain ⟨k, q, h⟩ := exists_longestRun a.table a.descriptor.initial symbols
    have hlog := a.acceptLog_of_tokenize_ok hsymbols
    have hread := (a.run symbols).ofLog_log a.descriptor.finals word
    rw [← hlog, Automaton.run, Table.start_run] at hread
    use k, q, (a.run symbols).outcome a.descriptor.finals,
      (((a.run symbols).outcome a.descriptor.finals).closing word).map Event.record
    use h, accepts_of_tokenize_ok hsymbols
    and_intros
    · apply h.closes hsymbols
    · rw [hlog, Run.log_eq, List.map_append, Automaton.run, h.map_record_events]
    · apply hread.symm
  · apply a.acceptsTelling_eq

/-- The steps of a run are told before the reason for which it does not go on. -/
example :
  let a : Automaton :=
    ⟨Descriptor.ofLists "M" ["q0", "q1"] ["a", "bé"] "q0" ["q1"],
      Table.ofList [⟨"q0", "a", "q1"⟩, ⟨"q1", "bé", "q0"⟩], .declarationOrder⟩
  (a.acceptLog "abébéa").map Event.record
    = [⟨.trace, "step", [("from", "q0"), ("symbol", "a"), ("to", "q1")]⟩,
      ⟨.trace, "step", [("from", "q1"), ("symbol", "bé"), ("to", "q0")]⟩,
      ⟨.debug, "undefined transition", [("word", "abébéa"), ("state", "q0"), ("symbol", "bé")]⟩]
  := by
  with_unfolding_all rfl

end Acceptor

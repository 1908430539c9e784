import Acceptor.Proofs.Run
import Acceptor.Proofs.Word.PrefixFree

/-!
# Runs that go on

A run along the symbols of a first word can go on along those of a second one, from the state
that it reaches.  Where no symbol begins another, the tokens of the first word stay as they are
whatever is written after it, so that the outcome of the two words in a row is that of the second
word alone, for an automaton that starts where the first run ends (`accepts_append`).  The empty
symbol has to be left out of the first run, because no token is empty
(`accepts_append_ne_emptySymbol`).
-/

namespace Acceptor

/-! ### Runs one after the other -/

/-- A path, and after it the rest of a path that starts in the state in which the first one
ends. -/
def Path.followedBy (p q : Path) : Path :=
  ⟨p.items ++ q.items.tail⟩

namespace Run

/-- The transitions of a run, and after them those of a second run. -/
def followedBy (r s : Run) : Run :=
  ⟨r.start, r.steps ++ s.steps, s.stuck⟩

/-- What is reached is what the second run reaches. -/
theorem last_followedBy {r s : Run} (h : s.start = r.last) :
  (r.followedBy s).last = s.last
  := by
  have hlast : (r.followedBy s).steps.getLast? = s.steps.getLast?.or r.steps.getLast? :=
    List.getLast?_append
  rw [last, hlast]
  cases hs : s.steps.getLast? with
  | none =>
    have hnone : s.last = s.start := by
      rw [last, hs]
    rw [hnone, h]
    rfl
  | some step =>
    rw [last, hs]
    rfl

theorem path_followedBy (r s : Run) :
  (r.followedBy s).path = r.path.followedBy s.path
  := by
  simp only [path, followedBy, Path.followedBy, List.flatMap_append, List.cons_append,
    List.tail_cons]

end Run

/-- The outcome of a run that follows another one, the path of which is `front`. -/
def Acceptance.after (front : Path) : Acceptance → Acceptance
  | .accepted path => .accepted (front.followedBy path)
  | .rejected reason => .rejected reason

/-- Two runs, one after the other, come out as the second one does. -/
theorem Run.outcome_followedBy {r s : Run} (h : s.start = r.last) (finals : OrderedSet String) :
  (r.followedBy s).outcome finals = (s.outcome finals).after r.path
  := by
  obtain ⟨start, steps, stuck⟩ := s
  rw [outcome, outcome, last_followedBy h, path_followedBy]
  cases stuck with
  | some symbol => rfl
  | none =>
    dsimp only [followedBy]
    split <;> rfl

theorem Table.start_run (t : Table) (start : String) (symbols : List String) :
  (t.run start symbols).start = start
  := by
  cases symbols with
  | nil => rfl
  | cons symbol symbols =>
    rw [run]
    split <;> rfl

/-- A run that goes to the end of its symbols goes on along further ones. -/
theorem LongestRun.run_append
    {t : Table} {start : String} {symbols : List String} {q : Nat → String}
    (h : LongestRun t start symbols symbols.length q) (more : List String) :
  t.run start (symbols ++ more)
    = (t.run start symbols).followedBy (t.run (q symbols.length) more)
  := by
  induction symbols generalizing start q with
  | nil =>
    obtain rfl := h.zero
    calc t.run (q 0) more
        = Run.followedBy ⟨(t.run (q 0) more).start, [], none⟩ (t.run (q 0) more) := rfl
      _ = Run.followedBy ⟨q 0, [], none⟩ (t.run (q 0) more) := by rw [t.start_run]
  | cons symbol symbols ih =>
    obtain rfl := h.zero
    have hstep : t.get? (q 0) symbol = some (q 1) := h.step 0 (Nat.zero_lt_succ _)
    rw [List.cons_append, Table.run, hstep, Table.run, hstep]
    dsimp only
    rw [ih h.tail]
    rfl

/-! ### Words one after the other -/

namespace Automaton

variable {a : Automaton} {names : List String} {rest : String}

/-- The automaton that starts in another state. -/
def startingIn (a : Automaton) (state : String) : Automaton :=
  { a with descriptor := { a.descriptor with initial := state } }

/-- Symbols in front of a word stay tokens. -/
theorem tokenize_join_append_ok
    (hfree : a.descriptor.alphabet.PrefixFree)
    (hnames : ∀ name ∈ names, name ∈ a.descriptor.alphabet ∧ name ≠ "")
    {symbols : List String} (h : a.tokenize rest = .ok symbols) :
  a.tokenize (String.join names ++ rest) = .ok (names ++ symbols)
  := by
  rw [tokenize_eq_ok_iff] at h ⊢
  rw [pieces_join_append hfree hnames, h, List.map_append]

/-- Symbols in front of a word leave its residue as it is. -/
theorem tokenize_join_append_error
    (hfree : a.descriptor.alphabet.PrefixFree)
    (hnames : ∀ name ∈ names, name ∈ a.descriptor.alphabet ∧ name ≠ "")
    {e : InvalidSymbol} (h : a.tokenize rest = .error e) :
  a.tokenize (String.join names ++ rest) = .error ⟨String.join names ++ rest, e.residue⟩
  := by
  obtain ⟨⟨c, hc⟩, rfl⟩ := tokenize_eq_error_iff.mp h
  have hnone : (names.map Piece.symbol).filterMap Piece.foreign? = [] :=
    filterMap_foreign?_eq_nil_iff.mpr ⟨names, rfl⟩
  apply tokenize_eq_error_iff.mpr
  rw [pieces_join_append hfree hnames]
  constructor
  · use c
    apply List.mem_append_right _ hc
  · rw [List.filterMap_append, hnone, List.nil_append]

end Automaton

/-- Where no symbol begins another, let the table lead along the symbols that make up a first
word, the empty one left out.  Whatever is written after this word, the outcome is that of the
automaton that starts where the table has led to: it has the same residue if there is one, it is
rejected for the same reason, or it is accepted along the path of the first word and then along
the path of the rest, without the first state of the latter. -/
theorem accepts_append
    {a : Automaton} (hfree : a.descriptor.alphabet.PrefixFree)
    {names symbols : List String} (hnames : ∀ name ∈ names, name ∈ a.descriptor.alphabet)
    (hsymbols : symbols = names.filter (· ≠ "")) {q : Nat → String}
    (hrun : LongestRun a.table a.descriptor.initial symbols symbols.length q) :
  let front := (a.run symbols).path
  LeadsAlong a.table symbols q front
    ∧ ∀ rest : String,
      let word := String.join names ++ rest
      let b := a.startingIn (q symbols.length)
      (∀ residue, a.accepts word = .error ⟨word, residue⟩
          ↔ b.accepts rest = .error ⟨rest, residue⟩)
        ∧ (∀ reason, a.accepts word = .ok (.rejected reason)
          ↔ b.accepts rest = .ok (.rejected reason))
        ∧ ∀ path, a.accepts word = .ok (.accepted path)
          ↔ ∃ path', b.accepts rest = .ok (.accepted path') ∧ path = front.followedBy path'
  := by
  intro front
  use hrun.leadsAlong
  intro rest word b
  have hmem : ∀ name ∈ symbols, name ∈ a.descriptor.alphabet ∧ name ≠ "" := by
    intro name hname
    rw [hsymbols, List.mem_filter, decide_eq_true_eq] at hname
    use hnames name hname.1, hname.2
  have hword : word = String.join symbols ++ rest := by
    rw [hsymbols, join_filter_ne_empty]
  rw [hword]
  cases htokens : a.tokenize rest with
  | error e =>
    have hjoined := Automaton.tokenize_join_append_error hfree hmem htokens
    obtain ⟨-, rfl⟩ := Automaton.tokenize_eq_error_iff.mp htokens
    rw [accepts_of_tokenize_error hjoined, accepts_of_tokenize_error (a := b) htokens]
    simp
  | ok more =>
    have hjoined := Automaton.tokenize_join_append_ok hfree hmem htokens
    have hstart : (a.table.run (q symbols.length) more).start = (a.run symbols).last := by
      rw [Table.start_run, Automaton.run, hrun.last_run]
    have hcontinued : (a.table.run a.descriptor.initial (symbols ++ more)).outcome
          a.descriptor.finals
        = ((b.table.run b.descriptor.initial more).outcome b.descriptor.finals).after front := by
      rw [hrun.run_append]
      apply Run.outcome_followedBy hstart
    rw [accepts_of_tokenize_ok hjoined, accepts_of_tokenize_ok (a := b) htokens, hcontinued]
    cases (b.table.run b.descriptor.initial more).outcome b.descriptor.finals with
    | accepted path' => simp [Acceptance.after, eq_comm]
    | rejected reason => simp [Acceptance.after]

/-- The first word is made up of symbols and of the empty one.  What is written after it is
accepted, rejected, or no word at all. -/
theorem accepts_append_allOutcomes :
  let a : Automaton :=
    ⟨Descriptor.ofLists "M" ["q0", "q1", "q2"] ["", "aé", "ab", "b"] "q0" ["q1"],
      Table.ofList [⟨"q0", "ab", "q2"⟩, ⟨"q2", "b", "q1"⟩, ⟨"q1", "aé", "q1"⟩],
      .declarationOrder⟩
  a.descriptor.alphabet.PrefixFree
    ∧ (a.startingIn "q1").accepts "aé" = .ok (.accepted ⟨["q1", "aé", "q1"]⟩)
    ∧ a.accepts "abbaé" = .ok (.accepted ⟨["q0", "ab", "q2", "b", "q1", "aé", "q1"]⟩)
    ∧ a.accepts "abbb" = .ok (.rejected (.undefinedTransition "q1" "b"))
    ∧ a.accepts "abbaab" = .error ⟨"abbaab", "a"⟩
  := by
  intro a
  have hfree : a.descriptor.alphabet.PrefixFree := by decide
  have hlast := longestRun_nil a.table "q1"
  have hmiddle := hlast.cons (show a.table.get? "q2" "b" = some "q1" by decide)
  have hrun := hmiddle.cons (show a.table.get? "q0" "ab" = some "q2" by decide)
  have hnames : ∀ name ∈ ["ab", "", "b"], name ∈ a.descriptor.alphabet := by decide
  obtain ⟨-, hrest⟩ := accepts_append hfree hnames rfl hrun
  have haccepted : (a.startingIn "q1").accepts "aé" = .ok (.accepted ⟨["q1", "aé", "q1"]⟩) := by
    with_unfolding_all rfl
  use hfree, haccepted
  and_intros
  · apply ((hrest "aé").2.2 _).mpr
    use ⟨["q1", "aé", "q1"]⟩, haccepted
    rfl
  · apply ((hrest "b").2.1 _).mpr
    with_unfolding_all rfl
  · apply ((hrest "aab").1 _).mpr
    with_unfolding_all rfl

/-- The empty word is made up of the empty symbol, along which the table leads here to a final
state.  It is not accepted all the same. -/
theorem accepts_append_ne_emptySymbol :
  let a : Automaton :=
    ⟨Descriptor.ofLists "M" ["q0", "q1"] ["", "a"] "q0" ["q1"],
      Table.ofList [⟨"q0", "", "q1"⟩], default⟩
  a.descriptor.alphabet.PrefixFree
    ∧ "" ∈ a.descriptor.alphabet
    ∧ a.run [""] = ⟨"q0", [⟨"q0", "", "q1"⟩], none⟩
    ∧ (a.startingIn "q1").accepts "" = .ok (.accepted ⟨["q1"]⟩)
    ∧ a.accepts (String.join [""] ++ "") = .ok (.rejected (.nonFinalState "q0"))
  := by
  intro a
  use by decide, by decide, by decide
  constructor <;> with_unfolding_all rfl

end Acceptor

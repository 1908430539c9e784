import Acceptor.Json.Automaton
import Acceptor.Proofs.Json.Standard

/-!
# Automata that are read back from JSON

If a codec is lawful, the parts of an automaton are read back as they were written, in whatever
layout: sets and tables in their own order, and the strategy as it was set
(`Automaton.reads_toJson`).  So are paths, complete or not, and the outcomes of words
(`Acceptance.reads_toJson`).  Hence a value of any of these types and its text determine each other
(`decode_render_toJson`).
-/

namespace Acceptor

open Json (Codec Value)
open Json.Codec (ReadsFields)

/-! ### Depths -/

theorem OrderedSet.within_toJson (s : OrderedSet String) (n : Nat) :
  s.toJson.Within (n + 1)
  := Value.within_texts n s.toList

theorem Descriptor.within_toJson (d : Descriptor) (n : Nat) :
  d.toJson.Within (n + 2)
  := .object (by simp [OrderedSet.within_toJson])

theorem Transition.within_toJson (t : Transition) (n : Nat) :
  t.toJson.Within (n + 1)
  := .object (by simp)

theorem Table.within_toJson (t : Table) (n : Nat) :
  t.toJson.Within (n + 2)
  := Value.within_list fun row _ => row.within_toJson n

theorem Config.within_toJson (settings : Config) (n : Nat) :
  settings.toJson.Within (n + 1)
  := .object (by simp [MatchStrategy.toJson])

theorem Automaton.within_toJson (a : Automaton) (n : Nat) :
  a.toJson.Within (n + 3)
  := .object (by simp [Descriptor.within_toJson, Table.within_toJson, Config.within_toJson])

theorem Path.within_toJson (p : Path) (n : Nat) :
  p.toJson.Within (n + 1)
  := Value.within_texts n p.items

theorem Rejection.within_toJson (r : Rejection) (n : Nat) :
  r.toJson.Within (n + 2)
  := by
  cases r with
  | undefinedTransition state symbol => exact .object (by simp [Value.within_object])
  | nonFinalState state => exact .object (by simp [Value.within_object])

theorem Acceptance.within_toJson (outcome : Acceptance) (n : Nat) :
  outcome.toJson.Within (n + 4)
  := by
  cases outcome with
  | accepted path => exact .object (by simp [Value.within_object, Path.within_toJson])
  | rejected reason => exact .object (by simp [Value.within_object, Rejection.within_toJson])

/-! ### Automata -/

section Values

variable {c : Codec} (hc : c.Lawful)

include hc

theorem OrderedSet.reads_toJson (s : OrderedSet String) :
  c.Reads c.textSet s.toJson s
  := by
  apply (hc.reads_texts s.toList).bind_pure
  rw [OrderedSet.ofList_toList]

theorem Descriptor.reads_toJson (d : Descriptor) :
  c.Reads c.descriptor d.toJson d
  := by
  apply hc.reads_record (s := ⟨d.name, d.states, d.alphabet, d.initial, d.finals⟩)
  · apply ReadsFields.of rfl rfl (hc.reads_text d.name).readsMember
    apply ReadsFields.of rfl rfl (d.states.reads_toJson hc).readsMember
    apply ReadsFields.of rfl rfl (d.alphabet.reads_toJson hc).readsMember
    apply ReadsFields.of rfl rfl (hc.reads_text d.initial).readsMember
    apply ReadsFields.of rfl rfl (d.finals.reads_toJson hc).readsMember
    apply ReadsFields.nil
  · rfl
  · apply d.within_toJson

theorem Transition.reads_toJson (t : Transition) :
  c.Reads c.transition t.toJson t
  := by
  apply hc.reads_record (s := ⟨t.source, t.symbol, t.target⟩)
  · apply ReadsFields.of rfl rfl (hc.reads_text t.source).readsMember
    apply ReadsFields.of rfl rfl (hc.reads_text t.symbol).readsMember
    apply ReadsFields.of rfl rfl (hc.reads_text t.target).readsMember
    apply ReadsFields.nil
  · rfl
  · apply t.within_toJson

theorem Table.reads_toJson (t : Table) :
  c.Reads c.table t.toJson t
  := by
  have hlist : c.Reads (c.list c.transition) t.toJson t.entries :=
    hc.reads_list (fun row _ => row.reads_toJson hc) (t.within_toJson _)
  apply hlist.bind_pure
  rw [Table.ofList_entries]

theorem MatchStrategy.reads_toJson (strategy : MatchStrategy) :
  c.Reads c.matchStrategy strategy.toJson strategy
  := by
  cases strategy with
  | longestMatch => apply hc.reads_constant rfl
  | declarationOrder => apply hc.reads_constant rfl

theorem Config.reads_toJson (settings : Config) :
  c.Reads c.config settings.toJson settings
  := by
  apply hc.reads_record (s := some settings.strategy)
  · apply ReadsFields.of rfl rfl (settings.strategy.reads_toJson hc).readsMember
    apply ReadsFields.nil
  · rfl
  · apply settings.within_toJson

/-- An automaton is read back, with all orders and the settings. -/
theorem Automaton.reads_toJson (a : Automaton) :
  c.Reads c.automaton a.toJson a
  := by
  apply hc.reads_record (s := ⟨a.descriptor, a.table, a.config⟩)
  · apply ReadsFields.of rfl rfl (a.descriptor.reads_toJson hc).readsMember
    apply ReadsFields.of rfl rfl (a.table.reads_toJson hc).readsMember
    apply ReadsFields.of rfl rfl (a.config.reads_toJson hc).readsMember
    apply ReadsFields.nil
  · rfl
  · apply a.within_toJson

/-! ### Outcomes -/

/-- A path is read back, and need not be complete. -/
theorem Path.reads_toJson (p : Path) :
  c.Reads c.path p.toJson p
  := by
  apply (hc.reads_texts p.items).bind_pure
  rfl

theorem Rejection.reads_undefinedTransition (state symbol : String) :
  c.Reads c.undefinedTransition (.object [("state", .text state), ("symbol", .text symbol)])
    (.undefinedTransition state symbol)
  := by
  apply hc.reads_record (s := (some state, some symbol))
  · apply ReadsFields.of rfl rfl (hc.reads_text state).readsMember
    apply ReadsFields.of rfl rfl (hc.reads_text symbol).readsMember
    apply ReadsFields.nil
  · rfl
  · exact .object (by simp)

theorem Rejection.reads_toJson (r : Rejection) :
  c.Reads c.rejection r.toJson r
  := by
  cases r with
  | undefinedTransition state symbol =>
    apply hc.reads_holding rfl (reads_undefinedTransition hc state symbol)
    apply (Rejection.undefinedTransition state symbol).within_toJson
  | nonFinalState state =>
    have hcontent : c.Reads c.nonFinalState (.object [("state", .text state)])
        (.nonFinalState state) :=
      hc.reads_onlyField Rejection.nonFinalState (hc.reads_text state) (.object (by simp))
    apply hc.reads_holding rfl hcontent
    apply (Rejection.nonFinalState state).within_toJson

/-- An outcome is read back, with the path or with the reason of the rejection. -/
theorem Acceptance.reads_toJson (outcome : Acceptance) :
  c.Reads c.acceptance outcome.toJson outcome
  := by
  cases outcome with
  | accepted path =>
    apply hc.reads_holding rfl
    · apply hc.reads_onlyField Acceptance.accepted (path.reads_toJson hc)
      exact .object (by simp [Path.within_toJson])
    · apply (Acceptance.accepted path).within_toJson
  | rejected reason =>
    apply hc.reads_holding rfl
    · apply hc.reads_onlyField Acceptance.rejected (reason.reads_toJson hc)
      exact .object (by simp [Rejection.within_toJson])
    · apply (Acceptance.rejected reason).within_toJson

end Values

/-! ### Texts -/

/-- Every value is read back from its text as it was, in whatever layout the text is, so that the
same text is written again. -/
structure Json.Codec.RoundTrips {α : Type} (c : Codec) (r : JsonReader α)
    (write : α → Json.Value) : Prop where
  decode_eq : ∀ a layout, c.decode r (c.render layout (write a)) = .ok a
  render_eq : ∀ a layout layout',
    (c.decode r (c.render layout (write a))).map (fun b => c.render layout' (write b))
      = .ok (c.render layout' (write a))

theorem Json.Codec.RoundTrips.of_reads {α : Type} {c : Codec} {r : JsonReader α}
    {write : α → Json.Value} (hc : c.Lawful) (h : ∀ a, c.Reads r (write a) a) :
  c.RoundTrips r write
  where
  decode_eq a layout := (h a).decode_render hc layout
  render_eq a layout layout' := by
    rw [(h a).decode_render hc layout]
    rfl

/-- If the codec is lawful, each of the types that are written as JSON is read back from its texts,
whatever characters these hold, with the order of all sets, tables and paths.  So the text of the
outcome of a word, if the word has one, is read back as this outcome. -/
theorem decode_render_toJson {c : Codec} (hc : c.Lawful) :
  c.RoundTrips c.descriptor Descriptor.toJson
    ∧ c.RoundTrips c.table Table.toJson
    ∧ c.RoundTrips c.transition Transition.toJson
    ∧ c.RoundTrips c.config Config.toJson
    ∧ c.RoundTrips c.matchStrategy MatchStrategy.toJson
    ∧ c.RoundTrips c.automaton Automaton.toJson
    ∧ c.RoundTrips c.path Path.toJson
    ∧ c.RoundTrips c.rejection Rejection.toJson
    ∧ c.RoundTrips c.acceptance Acceptance.toJson
    ∧ ∀ (a : Automaton) (word : String),
      (a.accepts word).map
          (fun outcome => c.decode c.acceptance (c.render .compact outcome.toJson))
        = (a.accepts word).map .ok
  := by
  and_intros
  · apply Codec.RoundTrips.of_reads hc (Descriptor.reads_toJson hc)
  · apply Codec.RoundTrips.of_reads hc (Table.reads_toJson hc)
  · apply Codec.RoundTrips.of_reads hc (Transition.reads_toJson hc)
  · apply Codec.RoundTrips.of_reads hc (Config.reads_toJson hc)
  · apply Codec.RoundTrips.of_reads hc (MatchStrategy.reads_toJson hc)
  · apply Codec.RoundTrips.of_reads hc (Automaton.reads_toJson hc)
  · apply Codec.RoundTrips.of_reads hc (Path.reads_toJson hc)
  · apply Codec.RoundTrips.of_reads hc (Rejection.reads_toJson hc)
  · apply Codec.RoundTrips.of_reads hc (Acceptance.reads_toJson hc)
  · intro a word
    congr 1
    funext outcome
    apply (outcome.reads_toJson hc).decode_render hc

/-- A name with a quote and a control, and one of two bytes: both are read back from the text of the
outcome, in which the quote and the control are escaped. -/
theorem decode_render_toJson_escaped :
  let c := Json.standard
  let a : Automaton :=
    ⟨Descriptor.ofLists "M" ["q\"\x00"] ["é"] "q\"\x00" [], Table.ofList [], .declarationOrder⟩
  let outcome : Acceptance := .rejected (.undefinedTransition "q\"\x00" "é")
  let text := "\x7b\"Rejected\":\x7b\"reason\":\x7b\"UndefinedTransition\":"
    ++ "\x7b\"state\":\"q\\\"\\u0000\",\"symbol\":\"é\"\x7d\x7d\x7d\x7d"
  a.accepts "é" = .ok outcome
    ∧ c.render .compact outcome.toJson = text
    ∧ c.decode c.acceptance text = .ok outcome
    ∧ c.decode c.automaton (c.render .indented a.toJson) = .ok a
  := by
  intro c a outcome text
  obtain ⟨-, -, -, -, -, hautomaton, -, -, houtcome, hword⟩ :=
    decode_render_toJson Json.standard_lawful
  have haccepts : a.accepts "é" = .ok outcome := by
    with_unfolding_all rfl
  have htext : c.render .compact outcome.toJson = text := by
    decide
  use haccepts, htext
  constructor
  · rw [← htext]
    apply houtcome.decode_eq
  · apply hautomaton.decode_eq

end Acceptor

import Acceptor.Proofs.Description.Layout
import Acceptor.Proofs.Description.RoundTrip
import Acceptor.Proofs.Except
import Acceptor.Proofs.Table

/-!
# Descriptions in normal form

Whatever is read from a text can be written: the names among its tokens can
(`isIdentifier_of_mem_lex`), and the descriptor and the table that are read hold no
others (`writable_of_parse`).  So what is read, written again, is a normal form of the text
(`parse_normalForm`): it is read alike, it is its own normal form, and two texts are read
alike when they have the same one.
-/

namespace Acceptor

/-! ### The names among tokens -/

theorem identifier_mem_nameKinds {names : List String} {n : String} :
  .identifier n ∈ nameKinds names ↔ n ∈ names
  := by
  cases names <;> simp [nameKinds, joined]

theorem identifier_mem_setKinds {names : List String} {n : String} :
  .identifier n ∈ setKinds names ↔ n ∈ names
  := by
  simp [setKinds, identifier_mem_nameKinds]

theorem identifier_mem_descriptorKinds
    {name : String} {states alphabet : List String} {placeholder initial : String}
    {finals : List String} {n : String} :
  .identifier n ∈ descriptorKinds name states alphabet placeholder initial finals
    ↔ n = name ∨ n ∈ states ∨ n ∈ alphabet ∨ n = placeholder ∨ n = initial ∨ n ∈ finals
  := by
  simp [descriptorKinds, lineStart, identifier_mem_setKinds]

theorem Transition.identifier_mem_kinds {t : Transition} {n : String} :
  .identifier n ∈ t.kinds ↔ n ∈ [t.source, t.symbol, t.target]
  := by
  simp [kinds, identifier_mem_nameKinds, or_assoc]

/-! ### What is read -/

/-- The names of a descriptor that is read can be written. -/
theorem isIdentifier_of_parseDescriptor {line : String} {d : Descriptor}
    (h : parseDescriptor line = .ok d) :
  ∀ name ∈ d.declaredNames ++ d.initial :: d.finals.toList, isIdentifier name = true
  := by
  obtain ⟨name, states, alphabet, placeholder, initial, finals, hkinds, rfl⟩ :=
    exists_map_kind_of_parseDescriptor h
  intro n hn
  apply isIdentifier_of_mem_lex line
  rw [hkinds, identifier_mem_descriptorKinds]
  simp only [Descriptor.declaredNames, Descriptor.ofLists, List.mem_append, List.mem_cons,
    ← OrderedSet.mem_def, OrderedSet.mem_ofList] at hn
  tauto

/-- The names in rows of which a body has the tokens can be written. -/
theorem isIdentifier_of_map_kind
    {body : String} {ts : List Transition}
    (h : (lex body).map Token.kind = ts.flatMap Transition.kinds) {e : Transition} (he : e ∈ ts) :
  ∀ name ∈ [e.source, e.symbol, e.target], isIdentifier name = true
  := by
  intro name hname
  apply isIdentifier_of_mem_lex body
  rw [h]
  apply List.mem_flatMap.mpr
  use e, he
  apply Transition.identifier_mem_kinds.mpr hname

/-- The names in the rows of a table that is read can be written. -/
theorem isIdentifier_of_parseTable {body : String} {t : Table} (h : parseTable body = .ok t)
    {e : Transition} (he : e ∈ t.entries) :
  ∀ name ∈ [e.source, e.symbol, e.target], isIdentifier name = true
  := by
  obtain ⟨ts, hkinds, rfl⟩ := exists_map_kind_of_parseTable h
  apply isIdentifier_of_map_kind hkinds ((collectedFrom_ofList ts).mem_rows he)

variable {text : String} {d : Descriptor} {t : Table}

theorem readParts_eq_ok_iff {line body : List Char} :
  readParts line body = .ok (d, t)
    ↔ parseDescriptor (String.ofList line) = .ok d ∧ parseTable (String.ofList body) = .ok t
  := by
  rw [readParts]
  constructor
  · intro h
    obtain ⟨d', hd, h⟩ := bind_eq_ok h
    obtain ⟨t', ht, h⟩ := bind_eq_ok h
    cases h
    use mapError_eq_ok hd, mapError_eq_ok ht
  · rintro ⟨hd, ht⟩
    rw [hd, ht]
    rfl

/-- The first line and the lines after the second one are read apart. -/
theorem parse_eq_ok_iff :
  parse text = .ok (d, t)
    ↔ ∃ line skipped body, lines text.toList = line :: skipped :: body
      ∧ parseDescriptor (String.ofList line) = .ok d
      ∧ parseTable (String.ofList body.flatten) = .ok t
  := by
  constructor
  · intro h
    unfold parse at h
    split at h
    · next line skipped body hlines =>
      obtain ⟨hd, ht⟩ := readParts_eq_ok_iff.mp h
      use line, skipped, body, hlines, hd, ht
    · cases h
  · rintro ⟨line, skipped, body, hlines, hparts⟩
    rw [parse, hlines]
    apply readParts_eq_ok_iff.mpr hparts

/-- What is read from a text can be written. -/
theorem writable_of_parse (h : parse text = .ok (d, t)) :
  (Automaton.ofParts d t).Writable
  := by
  obtain ⟨line, skipped, body, -, hd, ht⟩ := parse_eq_ok_iff.mp h
  intro name hname
  rcases List.mem_append.mp hname with hname | hname
  · apply isIdentifier_of_parseDescriptor hd name hname
  · obtain ⟨e, he, hname⟩ := List.mem_flatMap.mp hname
    apply isIdentifier_of_parseTable ht he name hname

/-- What is read is read again from what is written of it. -/
theorem parse_render_of_parse (h : parse text = .ok (d, t)) :
  parse (Automaton.ofParts d t).render = .ok (d, t)
  := (writable_of_parse h).parse_renderChars

/-- The names that are said to be invalid are the declared ones that cannot be written. -/
theorem invalidName_mem_violations {name : String} :
  .invalidName name ∈ violations d t ↔ name ∈ d.declaredNames ∧ isIdentifier name = false
  := by
  simp [violations, Transition.violations, Violation.mem_unless, and_comm]

/-! ### Normal forms -/

/-- What is read from a text, written again. -/
def normalForm (text : String) : Except DescriptionError String := do
  let (d, t) ← parse text
  pure (Automaton.ofParts d t).render

theorem normalForm_of_parse (h : parse text = .ok (d, t)) :
  normalForm text = .ok (Automaton.ofParts d t).render
  := by
  rw [normalForm, h]
  rfl

/-- What is read from a text has names only that can be written, so that none of them is
said to be invalid, and it is read again, with all its orders, from what is written of it.
Hence two texts that can be read are read alike exactly when the same is written of both,
and to write again what is written of a text changes nothing. -/
theorem parse_normalForm :
  (∀ text d t, parse text = .ok (d, t) →
      (Automaton.ofParts d t).Writable
        ∧ (∀ name, .invalidName name ∉ violations d t)
        ∧ parse (Automaton.ofParts d t).render = .ok (d, t))
    ∧ (∀ text text' d d' t t', parse text = .ok (d, t) → parse text' = .ok (d', t') →
      (d = d' ∧ t = t'
        ↔ (Automaton.ofParts d t).render = (Automaton.ofParts d' t').render))
    ∧ ∀ text, normalForm text >>= normalForm = normalForm text
  := by
  and_intros
  · intro text d t h
    have hw := writable_of_parse h
    use hw
    constructor
    · intro name hname
      obtain ⟨hdeclared, hinvalid⟩ := invalidName_mem_violations.mp hname
      have hvalid : isIdentifier name = true := by
        apply hw
        simp [Automaton.names, Automaton.ofParts, hdeclared]
      rw [hvalid] at hinvalid
      cases hinvalid
    · apply parse_render_of_parse h
  · intro text text' d d' t t' h h'
    constructor
    · rintro ⟨rfl, rfl⟩
      rfl
    · intro hrender
      have hparse := parse_render_of_parse h
      rw [hrender, parse_render_of_parse h'] at hparse
      cases hparse
      exact ⟨rfl, rfl⟩
  · intro text
    cases h : parse text with
    | error e =>
      rw [normalForm, h]
      rfl
    | ok result =>
      obtain ⟨d, t⟩ := result
      rw [normalForm_of_parse h, bind_ok, normalForm_of_parse (parse_render_of_parse h)]

/-- Blanks, repetitions, the name in the place of `Prog`, the second line and the line
breaks of the body are not kept, and of the rows from a pair the last one is. -/
theorem parse_normalForm_untidy :
  let d := Descriptor.ofLists "M" ["q1", "q0", "q1"] ["é", "a"] "q0" ["q7"]
  let t := Table.ofList [⟨"q0", "a", "q1"⟩, ⟨"q2", "é", "q0"⟩, ⟨"q0", "a", "q7"⟩]
  parse "\tM =({ q1,q0 ,q1},{é, a},x,q0,{q7})\r\n(\n(q0,a)=q\n1(q2 , é)= q0 (q0,a)=q\n7"
      = .ok (d, t)
    ∧ parse "M=({q1,q0},{é,a},Prog,q0,{q7})\nProg\n(q0,a)=q7\n(q2,é)=q0\n" = .ok (d, t)
    ∧ ¬ Consistent d t ∧ ∀ name, .invalidName name ∉ violations d t
  := by
  intro d t
  have hlines : lines
        "\tM =({ q1,q0 ,q1},{é, a},x,q0,{q7})\r\n(\n(q0,a)=q\n1(q2 , é)= q0 (q0,a)=q\n7".toList
      = "\tM =({ q1,q0 ,q1},{é, a},x,q0,{q7})\r".toList :: "(".toList
        :: ["(q0,a)=q".toList, "1(q2 , é)= q0 (q0,a)=q".toList, "7".toList] := by
    decide
  have hline : (lex (String.ofList "\tM =({ q1,q0 ,q1},{é, a},x,q0,{q7})\r".toList)).map
      Token.kind = descriptorKinds "M" ["q1", "q0", "q1"] ["é", "a"] "x" "q0" ["q7"] := by
    with_unfolding_all rfl
  have hbody : (lex (String.ofList
      ["(q0,a)=q".toList, "1(q2 , é)= q0 (q0,a)=q".toList, "7".toList].flatten)).map Token.kind
      = [⟨"q0", "a", "q1"⟩, ⟨"q2", "é", "q0"⟩, ⟨"q0", "a", "q7"⟩].flatMap Transition.kinds := by
    with_unfolding_all rfl
  have hparse := parse_eq_ok_iff.mpr
    ⟨_, _, _, hlines, parseDescriptor_of_map_kind hline, parseTable_of_map_kind hbody⟩
  have hrender : (Automaton.ofParts d t).render
      = "M=({q1,q0},{é,a},Prog,q0,{q7})\nProg\n(q0,a)=q7\n(q2,é)=q0\n" := by
    decide
  obtain ⟨hread, -, -⟩ := parse_normalForm
  obtain ⟨-, hvalid, hagain⟩ := hread _ d t hparse
  rw [hrender] at hagain
  use hparse, hagain
  constructor
  · decide
  · apply hvalid

end Acceptor

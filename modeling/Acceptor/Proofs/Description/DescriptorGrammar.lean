import Acceptor.Proofs.Description.CommaList
import Acceptor.Proofs.Except

/-!
# The grammar of descriptor lines

The kinds of the tokens of a descriptor line are those of a name, an equals sign and, in
parentheses, of parts with commas between them, each of which is an identifier or a set.
A line is read exactly when its tokens are of this form (`run_descriptorLine_eq_ok_iff`),
and it is a descriptor when the parts are five and of the right shapes
(`parseDescriptor_eq_ok_iff`); else it is a fault that they are not five, or the first of the
wrong shape is one (`Descriptor.ofComponents_eq_error`).
-/

namespace Acceptor

/-! ### Kinds of the tokens of a line -/

/-- The kinds of the tokens of identifiers with commas between them. -/
def nameKinds (names : List String) : List TokenKind :=
  joined (names.map fun name => [.identifier name])

/-- The kinds of the tokens of a set. -/
def setKinds (names : List String) : List TokenKind :=
  .openBrace :: nameKinds names ++ [.closeBrace]

/-- The kinds of the tokens of a part. -/
def Component.kinds : Component → List TokenKind
  | .set names => setKinds names
  | .identifier name => [.identifier name]

/-- The kinds of the tokens before the first part. -/
def lineStart (name : String) : List TokenKind :=
  [.identifier name, .equals, .openParen]

/-- The kinds of the tokens of a line with the given name and parts. -/
def lineKinds (name : String) (parts : List Component) : List TokenKind :=
  lineStart name ++ (joined (parts.map Component.kinds) ++ [.closeParen])

/-- The kinds of the tokens of a line that reads as a descriptor. -/
def descriptorKinds (name : String) (states alphabet : List String)
    (placeholder initial : String) (finals : List String) : List TokenKind :=
  lineStart name ++ setKinds states ++ .comma :: setKinds alphabet
    ++ [.comma, .identifier placeholder, .comma, .identifier initial, .comma]
    ++ setKinds finals ++ [.closeParen]

/-- The token of an identifier. -/
def IsName (tokens : List Token) (name : String) : Prop :=
  tokens.map Token.kind = [.identifier name]

/-- The tokens of a part, which comes with the offset of the first of them. -/
def IsPart (tokens : List Token) (part : Nat × Component) : Prop :=
  tokens.map Token.kind = part.2.kinds ∧ tokens.head?.map Token.offset = some part.1

/-- The tokens of every part begin with one that stands at an offset. -/
theorem exists_isPart (tokens : List Token) (part : Component)
    (h : tokens.map Token.kind = part.kinds) :
  ∃ located, IsPart tokens located ∧ located.2 = part
  := by
  cases tokens with
  | nil => cases part <;> cases h
  | cons token tokens => use (token.offset, part), ⟨h, rfl⟩

/-- The first token of a part stands at its offset: an opening brace if the part is a set,
and an identifier else. -/
theorem IsPart.exists_first {tokens : List Token} {part : Nat × Component}
    (h : IsPart tokens part) :
  ∃ token ∈ tokens, token.offset = part.1
    ∧ (part.2.found = .set ∧ token.kind = .openBrace ∨ part.2.found = .token token.kind)
  := by
  obtain ⟨offset, part⟩ := part
  obtain ⟨hkinds, hhead⟩ := h
  cases tokens with
  | nil => cases hhead
  | cons token tokens =>
    use token, List.mem_cons_self, Option.some.inj hhead
    cases part with
    | set names =>
      left
      exact ⟨rfl, (List.cons.inj hkinds).1⟩
    | identifier name =>
      right
      have hkind : token.kind = .identifier name := (List.cons.inj hkinds).1
      rw [hkind]
      rfl

namespace TokenReader

variable {endOffset : Nat}

/-! ### Sets -/

/-- A member of a set is an identifier. -/
theorem readsAs_member :
  ReadsAs member IsName
  := by
  rintro ⟨kind, offset⟩ ahead name rest
  constructor
  · intro h
    cases kind with
    | identifier name' =>
      obtain ⟨rfl, rfl⟩ := Prod.mk.inj (Except.ok.inj h)
      use [⟨.identifier name', offset⟩], rfl
      rfl
    | _ => cases h
  · rintro ⟨tokens, htokens, hname⟩
    obtain ⟨⟨_, _⟩, rfl, rfl⟩ := List.map_eq_singleton_iff.mp hname
    obtain ⟨⟨rfl, rfl⟩, rfl⟩ := htokens
    rfl

theorem run_members_closeBrace (offset : Nat) (rest : List Token) :
  (members endOffset).run (⟨.closeBrace, offset⟩ :: rest) = .ok ([], rest)
  := rfl

theorem run_members_of_ne {ahead : List Token}
    (h : ∀ offset rest, ahead ≠ ⟨.closeBrace, offset⟩ :: rest) :
  (members endOffset).run ahead
    = (listItems endOffset .closeBrace .setMember .setSeparator member []).run ahead
  := by
  match ahead with
  | [] => rfl
  | ⟨kind, offset⟩ :: rest =>
    cases kind with
    | closeBrace => exact absurd rfl (h offset rest)
    | _ => rfl

/-- Tokens of the kinds of identifiers with commas between them stand for those. -/
theorem listed_of_nameKinds {front : List Token} {names : List String} (hnames : names ≠ [])
    (h : front.map Token.kind = nameKinds names) :
  Listed IsName front names
  := by
  obtain ⟨as, hl, rfl⟩ : ∃ as, Listed IsName front as ∧ as.map id = names :=
    exists_listed_of_map_kind (fun _ name hname => ⟨name, hname, rfl⟩) hnames h
  rwa [List.map_id]

/-- The members of a set are identifiers with commas between them. -/
theorem run_members_eq_ok_iff {ahead rest : List Token} {names : List String} :
  (members endOffset).run ahead = .ok (names, rest)
    ↔ ∃ tokens, ahead = tokens ++ rest
      ∧ tokens.map Token.kind = nameKinds names ++ [.closeBrace]
  := by
  by_cases hc : ∃ offset tail, ahead = ⟨.closeBrace, offset⟩ :: tail
  · obtain ⟨offset, tail, rfl⟩ := hc
    rw [run_members_closeBrace]
    constructor
    · intro h
      obtain ⟨rfl, rfl⟩ := Prod.mk.inj (Except.ok.inj h)
      use [⟨.closeBrace, offset⟩], rfl
      rfl
    · rintro ⟨tokens, htokens, hkinds⟩
      cases names with
      | nil =>
        obtain ⟨_, rfl, -⟩ := List.map_eq_singleton_iff.mp hkinds
        obtain ⟨-, rfl⟩ := List.cons.inj htokens
        rfl
      | cons name names =>
        obtain ⟨_, _, rfl, hkind, -⟩ := List.map_eq_cons_iff.mp hkinds
        obtain ⟨rfl, -⟩ := List.cons.inj htokens
        cases hkind
  · rw [run_members_of_ne fun offset tail h => hc ⟨offset, tail, h⟩]
    constructor
    · intro h
      have hout : ListOutcome endOffset .closeBrace .setMember .setSeparator member IsName
          ahead _ := listOutcome_run readsAs_member (by decide) ahead
      rw [h] at hout
      cases hout with
      | @ended front _ offset _ hl =>
        use front ++ [⟨.closeBrace, offset⟩]
        constructor
        · simp
        · rw [List.map_append, hl.map_kind fun _ _ => id]
          rfl
    · rintro ⟨tokens, rfl, hkinds⟩
      obtain ⟨front, close, rfl, hfront, hclose⟩ := List.map_eq_append_iff.mp hkinds
      obtain ⟨⟨_, offset⟩, rfl, rfl⟩ := List.map_eq_singleton_iff.mp hclose
      have hnames : names ≠ [] := by
        rintro rfl
        obtain rfl := List.map_eq_nil_iff.mp hfront
        apply hc ⟨offset, rest, rfl⟩
      rw [List.append_assoc, List.singleton_append]
      apply run_listItems_ended readsAs_member (by decide) (listed_of_nameKinds hnames hfront)

/-! ### Parts -/

theorem run_locatedComponent_openBrace (offset : Nat) (ahead : List Token) :
  (locatedComponent endOffset ⟨.openBrace, offset⟩).run ahead =
    match (members endOffset).run ahead with
    | .ok (names, rest) => .ok ((offset, .set names), rest)
    | .error fault => .error fault
  := by
  simp only [locatedComponent, component, Reader.run_bind]
  cases (members endOffset).run ahead <;> rfl

/-- A part is read from its tokens. -/
theorem readsAs_locatedComponent :
  ReadsAs (locatedComponent endOffset) IsPart
  := by
  rintro ⟨kind, offset⟩ ahead ⟨position, part⟩ rest
  constructor
  · intro h
    cases kind with
    | openBrace =>
      rw [run_locatedComponent_openBrace] at h
      split at h
      · next names tail hnames =>
        obtain ⟨⟨rfl, rfl⟩, rfl⟩ := Except.ok.inj h
        obtain ⟨tokens, rfl, hkinds⟩ := run_members_eq_ok_iff.mp hnames
        use ⟨.openBrace, offset⟩ :: tokens, rfl
        constructor
        · rw [List.map_cons, hkinds]
          rfl
        · rfl
      · cases h
    | identifier name =>
      obtain ⟨⟨rfl, rfl⟩, rfl⟩ := Except.ok.inj h
      use [⟨.identifier name, offset⟩], rfl
      constructor <;> rfl
    | _ => cases h
  · rintro ⟨tokens, htokens, hkinds, hhead⟩
    cases part with
    | set names =>
      obtain ⟨⟨_, _⟩, tokens, rfl, rfl, hnames⟩ := List.map_eq_cons_iff.mp hkinds
      rw [List.cons_append] at htokens
      obtain ⟨⟨rfl, rfl⟩, rfl⟩ := List.cons.inj htokens
      obtain rfl := Option.some.inj hhead
      rw [run_locatedComponent_openBrace, run_members_eq_ok_iff.mpr ⟨tokens, rfl, hnames⟩]
    | identifier name =>
      obtain ⟨⟨_, _⟩, rfl, rfl⟩ := List.map_eq_singleton_iff.mp hkinds
      obtain ⟨⟨rfl, rfl⟩, rfl⟩ := htokens
      obtain rfl := Option.some.inj hhead
      rfl

/-- The reading of the parts ends in one of the ways that `ListOutcome` tells. -/
theorem listOutcome_components (endOffset : Nat) (items : List Token) :
  ListOutcome endOffset .closeParen .component .listSeparator (locatedComponent endOffset)
    IsPart items ((components endOffset).run items)
  := listOutcome_run readsAs_locatedComponent (by decide) items

/-- The parts are read from their tokens, which a parenthesis ends. -/
theorem run_components_eq_ok_iff {items rest : List Token} {parts : List (Nat × Component)} :
  (components endOffset).run items = .ok (parts, rest)
    ↔ ∃ front offset, items = front ++ ⟨.closeParen, offset⟩ :: rest
      ∧ Listed IsPart front parts
  := by
  constructor
  · intro h
    have hout := listOutcome_components endOffset items
    rw [h] at hout
    cases hout with
    | @ended front _ offset _ hl => use front, offset, rfl
  · rintro ⟨front, offset, rfl, hl⟩
    apply run_listItems_ended readsAs_locatedComponent (by decide) hl

/-! ### Lines -/

/-- After the start of a line, the parts are read and then the end of the line. -/
theorem run_descriptorLine_start
    {name : String} {start : List Token} (h : start.map Token.kind = lineStart name)
    (back : List Token) :
  (descriptorLine endOffset).run (start ++ back) =
    match (components endOffset).run back with
    | .error fault => .error fault
    | .ok (parts, []) => .ok ((name, parts), [])
    | .ok (_, token :: rest) => .error (Fault.atNext endOffset .endOfLine (token :: rest))
  := by
  obtain ⟨⟨_, _⟩, _, rfl, rfl, hequals⟩ := List.map_eq_cons_iff.mp h
  obtain ⟨⟨_, _⟩, _, rfl, rfl, hparen⟩ := List.map_eq_cons_iff.mp hequals
  obtain ⟨⟨_, _⟩, rfl, rfl⟩ := List.map_eq_singleton_iff.mp hparen
  rw [descriptorLine, List.cons_append, Reader.run_bind_of_ok (run_identifier ..),
    List.cons_append, Reader.run_bind_of_ok (run_mark ..), List.cons_append, List.nil_append,
    Reader.run_bind_of_ok (run_mark ..), Reader.run_bind]
  rcases (components endOffset).run back with _ | ⟨_, _ | _⟩ <;> rfl

/-- The ways in which the reading of a line ends. -/
inductive LineOutcome (endOffset : Nat) :
    List Token → Except Fault ((String × List (Nat × Component)) × List Token) → Prop
  /-- The line does not start as it has to. -/
  | noStart (front back : List Token) (wanted : Wanted) :
      LineOutcome endOffset (front ++ back) (.error (Fault.atNext endOffset wanted back))
  /-- The parts are not read. -/
  | noParts {name : String} {start back : List Token} {fault : Fault} :
      start.map Token.kind = lineStart name → (components endOffset).run back = .error fault →
        LineOutcome endOffset (start ++ back) (.error fault)
  /-- Something stands after the parts. -/
  | trailing {name : String} {start back : List Token} {parts : List (Nat × Component)}
      {token : Token} {rest : List Token} :
      start.map Token.kind = lineStart name →
        (components endOffset).run back = .ok (parts, token :: rest) →
        LineOutcome endOffset (start ++ back)
          (.error (Fault.atNext endOffset .endOfLine (token :: rest)))
  /-- The line is read to its end. -/
  | read {name : String} {start back : List Token} {parts : List (Nat × Component)} :
      start.map Token.kind = lineStart name →
        (components endOffset).run back = .ok (parts, []) →
        LineOutcome endOffset (start ++ back) (.ok ((name, parts), []))

/-- The reading of a line ends in one of the ways that `LineOutcome` tells. -/
theorem lineOutcome_run (endOffset : Nat) (tokens : List Token) :
  LineOutcome endOffset tokens ((descriptorLine endOffset).run tokens)
  := by
  by_cases hname : ∀ name offset rest, tokens ≠ ⟨.identifier name, offset⟩ :: rest
  · rw [descriptorLine, Reader.run_bind_of_error (run_identifier_of_ne _ _ hname)]
    apply LineOutcome.noStart [] tokens
  simp only [ne_eq, Classical.not_forall, Classical.not_not] at hname
  obtain ⟨name, o₁, tokens, rfl⟩ := hname
  rw [descriptorLine, Reader.run_bind_of_ok (run_identifier ..)]
  by_cases hequals : ∀ offset rest, tokens ≠ ⟨.equals, offset⟩ :: rest
  · rw [Reader.run_bind_of_error (run_mark_of_ne _ _ hequals)]
    apply LineOutcome.noStart [_] tokens
  simp only [ne_eq, Classical.not_forall, Classical.not_not] at hequals
  obtain ⟨o₂, tokens, rfl⟩ := hequals
  rw [Reader.run_bind_of_ok (run_mark ..)]
  by_cases hparen : ∀ offset rest, tokens ≠ ⟨.openParen, offset⟩ :: rest
  · rw [Reader.run_bind_of_error (run_mark_of_ne _ _ hparen)]
    apply LineOutcome.noStart [_, _] tokens
  simp only [ne_eq, Classical.not_forall, Classical.not_not] at hparen
  obtain ⟨o₃, back, rfl⟩ := hparen
  let start : List Token := [⟨.identifier name, o₁⟩, ⟨.equals, o₂⟩, ⟨.openParen, o₃⟩]
  have hstart : start.map Token.kind = lineStart name := rfl
  rw [Reader.run_bind_of_ok (run_mark ..), Reader.run_bind]
  cases hparts : (components endOffset).run back with
  | error fault => apply LineOutcome.noParts hstart hparts
  | ok result =>
    obtain ⟨parts, rest⟩ := result
    cases rest with
    | nil => apply LineOutcome.read hstart hparts
    | cons token rest => apply LineOutcome.trailing hstart hparts

/-- A line is read to its end when its tokens are a start, parts and a parenthesis. -/
theorem run_descriptorLine_eq_ok_iff
    {tokens rest : List Token} {name : String} {parts : List (Nat × Component)} :
  (descriptorLine endOffset).run tokens = .ok ((name, parts), rest)
    ↔ rest = [] ∧ ∃ start front offset,
      tokens = start ++ (front ++ [⟨.closeParen, offset⟩])
        ∧ start.map Token.kind = lineStart name ∧ Listed IsPart front parts
  := by
  constructor
  · intro h
    have hout := lineOutcome_run endOffset tokens
    rw [h] at hout
    cases hout with
    | @read _ start back _ hstart hparts =>
      obtain ⟨front, offset, rfl, hl⟩ := run_components_eq_ok_iff.mp hparts
      use rfl, start, front, offset, rfl, hstart
  · rintro ⟨rfl, start, front, offset, rfl, hstart, hl⟩
    have hparts : (components endOffset).run (front ++ [⟨.closeParen, offset⟩]) = .ok (parts, []) :=
      run_components_eq_ok_iff.mpr ⟨front, offset, rfl, hl⟩
    rw [run_descriptorLine_start hstart, hparts]

end TokenReader

/-! ### Descriptors -/

/-- The kinds of the tokens of parts that are each followed by a comma. -/
theorem Begun.map_kind_part {front : List Token} {parts : List (Nat × Component)}
    (hb : Begun IsPart front parts) :
  front.map Token.kind = ((parts.map Prod.snd).map Component.kinds).flatMap (· ++ [.comma])
  := by
  rw [hb.map_kind (f := fun part => part.2.kinds) fun _ _ h => h.1, List.map_map]
  rfl

/-- The kinds of the tokens of listed parts. -/
theorem Listed.map_kind_part {front : List Token} {parts : List (Nat × Component)}
    (hl : Listed IsPart front parts) :
  front.map Token.kind = joined ((parts.map Prod.snd).map Component.kinds)
  := by
  rw [hl.map_kind (f := fun part => part.2.kinds) fun _ _ h => h.1, List.map_map]
  rfl

/-- A descriptor is made of five parts of the right shapes, and of no others. -/
theorem Descriptor.ofComponents_eq_ok_iff
    {endOffset : Nat} {name : String} {parts : List (Nat × Component)} {d : Descriptor} :
  ofComponents endOffset name parts = .ok d
    ↔ ∃ states alphabet placeholder initial finals,
      parts.map Prod.snd
          = [.set states, .set alphabet, .identifier placeholder, .identifier initial,
            .set finals]
        ∧ d = ofLists name states alphabet initial finals
  := by
  constructor
  · intro h
    match parts with
    | [(_, states), (_, alphabet), (_, placeholder), (_, initial), (_, finals)] =>
      cases states with
      | identifier => cases h
      | set states =>
        cases alphabet with
        | identifier => cases h
        | set alphabet =>
          cases placeholder with
          | set => cases h
          | identifier placeholder =>
            cases initial with
            | set => cases h
            | identifier initial =>
              cases finals with
              | identifier => cases h
              | set finals =>
                use states, alphabet, placeholder, initial, finals, rfl
                apply (Except.ok.inj h).symm
    | [] | [_] | [_, _] | [_, _, _] | [_, _, _, _] | _ :: _ :: _ :: _ :: _ :: _ :: _ => cases h
  · rintro ⟨states, alphabet, placeholder, initial, finals, hparts, rfl⟩
    match parts, hparts with
    | [(_, .set _), (_, .set _), (_, .identifier _), (_, .identifier _), (_, .set _)], rfl => rfl

/-! ### Shapes of parts -/

/-- Whether a part is a set. -/
def Component.isSet : Component → Bool
  | .set _ => true
  | .identifier _ => false

/-- Whether the part in a place has to be a set. -/
def Role.takesSet : Role → Bool
  | .states | .alphabet | .finals => true
  | .placeholder | .initial => false

/-- The part in a place has not the shape that the place asks for. -/
def Role.Misfit (role : Role) (parts : List Component) : Prop :=
  ∃ part, parts[role.position - 1]? = some part ∧ part.isSet ≠ role.takesSet

/-- The parts before a place have the shapes that their places ask for. -/
def Role.Reached (role : Role) (parts : List Component) : Prop :=
  ∀ earlier : Role, earlier.position < role.position → ¬ earlier.Misfit parts

/-- The first of the parts that has not the shape that its place asks for. -/
structure FirstMisfit (parts : List (Nat × Component)) (role : Role) (part : Nat × Component) :
    Prop where
  at_place : parts[role.position - 1]? = some part
  misfits : part.2.isSet ≠ role.takesSet
  reached : role.Reached (parts.map Prod.snd)

namespace Role

variable {role other : Role} {parts : List Component}

theorem position_injective (h : role.position = other.position) :
  role = other
  := by
  cases role <;> cases other <;> first | rfl | cases h

theorem not_misfit {part : Component} (hplace : parts[role.position - 1]? = some part)
    (hshape : part.isSet = role.takesSet) :
  ¬ role.Misfit parts
  := by
  rintro ⟨part', hplace', hne⟩
  obtain rfl := Option.some.inj (hplace.symm.trans hplace')
  apply hne hshape

theorem reached_states (parts : List Component) :
  states.Reached parts
  := by
  intro earlier hlt
  cases earlier <;> exact absurd hlt (by decide)

/-- The place after a part of the right shape is reached. -/
theorem Reached.next (h : role.Reached parts) (hnext : other.position = role.position + 1)
    (hfits : ¬ role.Misfit parts) :
  other.Reached parts
  := by
  intro earlier hlt
  rw [hnext] at hlt
  rcases Nat.lt_or_eq_of_le (Nat.le_of_lt_succ hlt) with hlt | heq
  · apply h earlier hlt
  · rwa [position_injective heq]

end Role

namespace Component

variable {role : Role} {part : Nat × Component} {fault : Fault}

theorem isSet_of_members {names : List String} (h : members role part = .ok names) :
  part.2.isSet = true
  := by
  obtain ⟨offset, _ | _⟩ := part
  · rfl
  · cases h

theorem isSet_of_name {name : String} (h : Component.name role part = .ok name) :
  part.2.isSet = false
  := by
  obtain ⟨offset, _ | _⟩ := part
  · cases h
  · rfl

theorem members_eq_error (h : members role part = .error fault) :
  part.2.isSet ≠ true ∧ fault = ⟨part.1, .role role, part.2.found⟩
  := by
  obtain ⟨offset, _ | _⟩ := part
  · cases h
  · use nofun, (Except.error.inj h).symm

theorem name_eq_error (h : Component.name role part = .error fault) :
  part.2.isSet ≠ false ∧ fault = ⟨part.1, .role role, part.2.found⟩
  := by
  obtain ⟨offset, _ | _⟩ := part
  · use nofun, (Except.error.inj h).symm
  · cases h

end Component

/-- Parts that are not five are counted, whatever their shapes. -/
theorem Descriptor.ofComponents_of_length_ne
    {parts : List (Nat × Component)} (h : parts.length ≠ 5) (endOffset : Nat) (name : String) :
  ofComponents endOffset name parts
    = .error ⟨endOffset, .fiveComponents, .components parts.length⟩
  := by
  match parts with
  | [_, _, _, _, _] => exact absurd rfl h
  | [] | [_] | [_, _] | [_, _, _] | [_, _, _, _] | _ :: _ :: _ :: _ :: _ :: _ :: _ => rfl

/-- Parts that make no descriptor are not five, or the first of the wrong shape is a fault. -/
theorem Descriptor.ofComponents_eq_error
    {endOffset : Nat} {name : String} {parts : List (Nat × Component)} {fault : Fault}
    (h : ofComponents endOffset name parts = .error fault) :
  parts.length ≠ 5 ∧ fault = ⟨endOffset, .fiveComponents, .components parts.length⟩
    ∨ ∃ role part, FirstMisfit parts role part ∧ fault = ⟨part.1, .role role, part.2.found⟩
  := by
  by_cases hlength : parts.length = 5
  · right
    match parts with
    | [states, alphabet, placeholder, initial, finals] =>
      rw [ofComponents] at h
      have hreached :=
        Role.reached_states (List.map Prod.snd [states, alphabet, placeholder, initial, finals])
      rcases bind_eq_error h with h | ⟨_, hok, h⟩
      · obtain ⟨hshape, hfault⟩ := Component.members_eq_error h
        use .states, states, ⟨rfl, hshape, hreached⟩
      replace hreached : Role.alphabet.Reached _ :=
        hreached.next rfl (Role.not_misfit rfl (Component.isSet_of_members hok))
      rcases bind_eq_error h with h | ⟨_, hok, h⟩
      · obtain ⟨hshape, hfault⟩ := Component.members_eq_error h
        use .alphabet, alphabet, ⟨rfl, hshape, hreached⟩
      replace hreached : Role.placeholder.Reached _ :=
        hreached.next rfl (Role.not_misfit rfl (Component.isSet_of_members hok))
      rcases bind_eq_error h with h | ⟨_, hok, h⟩
      · obtain ⟨hshape, hfault⟩ := Component.name_eq_error h
        use .placeholder, placeholder, ⟨rfl, hshape, hreached⟩
      replace hreached : Role.initial.Reached _ :=
        hreached.next rfl (Role.not_misfit rfl (Component.isSet_of_name hok))
      rcases bind_eq_error h with h | ⟨_, hok, h⟩
      · obtain ⟨hshape, hfault⟩ := Component.name_eq_error h
        use .initial, initial, ⟨rfl, hshape, hreached⟩
      replace hreached : Role.finals.Reached _ :=
        hreached.next rfl (Role.not_misfit rfl (Component.isSet_of_name hok))
      rcases bind_eq_error h with h | ⟨_, hok, h⟩
      · obtain ⟨hshape, hfault⟩ := Component.members_eq_error h
        use .finals, finals, ⟨rfl, hshape, hreached⟩
      cases h
  · left
    rw [ofComponents_of_length_ne hlength] at h
    use hlength, (Except.error.inj h).symm

theorem parseDescriptor_eq (line : String) :
  parseDescriptor line =
    match (TokenReader.descriptorLine line.utf8ByteSize).run (lex line) with
    | .ok ((name, parts), _) => Descriptor.ofComponents line.utf8ByteSize name parts
    | .error fault => .error fault
  := by
  dsimp only [parseDescriptor]
  cases (TokenReader.descriptorLine line.utf8ByteSize).run (lex line) <;> rfl

/-- The five parts of a descriptor with commas between them. -/
theorem lineKinds_descriptor
    (name : String) (states alphabet : List String) (placeholder initial : String)
    (finals : List String) :
  lineKinds name [.set states, .set alphabet, .identifier placeholder, .identifier initial,
      .set finals]
    = descriptorKinds name states alphabet placeholder initial finals
  := by
  simp [lineKinds, joined, descriptorKinds, Component.kinds]

/-- A line with the tokens of parts is read to its end, and each part gets its offset. -/
theorem exists_run_descriptorLine
    {tokens : List Token} {name : String} {parts : List Component} (hparts : parts ≠ [])
    (h : tokens.map Token.kind = lineKinds name parts) (endOffset : Nat) :
  ∃ located, located.map Prod.snd = parts
    ∧ (TokenReader.descriptorLine endOffset).run tokens = .ok ((name, located), [])
  := by
  obtain ⟨start, _, rfl, hstart, h⟩ := List.map_eq_append_iff.mp h
  obtain ⟨front, _, rfl, hfront, hclose⟩ := List.map_eq_append_iff.mp h
  obtain ⟨⟨_, offset⟩, rfl, rfl⟩ := List.map_eq_singleton_iff.mp hclose
  obtain ⟨located, hl, hlocated⟩ := exists_listed_of_map_kind exists_isPart hparts hfront
  use located, hlocated
  apply TokenReader.run_descriptorLine_eq_ok_iff.mpr ⟨rfl, start, front, offset, rfl, hstart, hl⟩

/-- A line that is read to its end has the tokens of its parts. -/
theorem map_kind_of_run_descriptorLine
    {endOffset : Nat} {tokens rest : List Token} {name : String} {parts : List (Nat × Component)}
    (h : (TokenReader.descriptorLine endOffset).run tokens = .ok ((name, parts), rest)) :
  tokens.map Token.kind = lineKinds name (parts.map Prod.snd) ∧ parts ≠ []
  := by
  obtain ⟨-, start, front, offset, rfl, hstart, hl⟩ :=
    TokenReader.run_descriptorLine_eq_ok_iff.mp h
  rw [List.map_append, List.map_append, hstart, hl.map_kind_part]
  use rfl, hl.ne_nil

/-- A line with the tokens of a descriptor is read. -/
theorem parseDescriptor_of_map_kind
    {line name placeholder initial : String} {states alphabet finals : List String}
    (h : (lex line).map Token.kind
      = descriptorKinds name states alphabet placeholder initial finals) :
  parseDescriptor line = .ok (Descriptor.ofLists name states alphabet initial finals)
  := by
  rw [← lineKinds_descriptor] at h
  obtain ⟨parts, hparts, hline⟩ :=
    exists_run_descriptorLine (List.cons_ne_nil _ _) h line.utf8ByteSize
  rw [parseDescriptor_eq, hline]
  apply Descriptor.ofComponents_eq_ok_iff.mpr
  use states, alphabet, placeholder, initial, finals

/-- A line that is read has the tokens of a descriptor. -/
theorem exists_map_kind_of_parseDescriptor {line : String} {d : Descriptor}
    (h : parseDescriptor line = .ok d) :
  ∃ name states alphabet placeholder initial finals,
    (lex line).map Token.kind
        = descriptorKinds name states alphabet placeholder initial finals
      ∧ d = Descriptor.ofLists name states alphabet initial finals
  := by
  rw [parseDescriptor_eq] at h
  split at h
  · next name parts rest hline =>
    obtain ⟨states, alphabet, placeholder, initial, finals, hparts, rfl⟩ :=
      Descriptor.ofComponents_eq_ok_iff.mp h
    use name, states, alphabet, placeholder, initial, finals
    rw [(map_kind_of_run_descriptorLine hline).1, hparts, lineKinds_descriptor]
    exact ⟨rfl, rfl⟩
  · cases h

/-- A line reads as a descriptor exactly when its tokens are those of a name and of five
parts: two sets, two identifiers, of which the first is not kept, and a set.  The
descriptor has the members of the sets in the order of their first occurrences. -/
theorem parseDescriptor_eq_ok_iff {line : String} {d : Descriptor} :
  parseDescriptor line = .ok d
    ↔ ∃ states alphabet placeholder finals,
      (lex line).map Token.kind
          = descriptorKinds d.name states alphabet placeholder d.initial finals
        ∧ d.states.toList = states.eraseDups
        ∧ d.alphabet.toList = alphabet.eraseDups
        ∧ d.finals.toList = finals.eraseDups
  := by
  constructor
  · intro h
    obtain ⟨name, states, alphabet, placeholder, initial, finals, hkinds, rfl⟩ :=
      exists_map_kind_of_parseDescriptor h
    use states, alphabet, placeholder, finals, hkinds
    and_intros <;> apply OrderedSet.toList_ofList
  · rintro ⟨states, alphabet, placeholder, finals, hkinds, hstates, halphabet, hfinals⟩
    rw [parseDescriptor_of_map_kind hkinds]
    obtain ⟨name, states', alphabet', initial, finals'⟩ := d
    have hs : OrderedSet.ofList states = states' :=
      OrderedSet.ext (by rw [OrderedSet.toList_ofList, hstates])
    have ha : OrderedSet.ofList alphabet = alphabet' :=
      OrderedSet.ext (by rw [OrderedSet.toList_ofList, halphabet])
    have hf : OrderedSet.ofList finals = finals' :=
      OrderedSet.ext (by rw [OrderedSet.toList_ofList, hfinals])
    rw [Descriptor.ofLists, hs, ha, hf]

end Acceptor

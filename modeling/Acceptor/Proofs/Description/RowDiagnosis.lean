import Acceptor.Proofs.Description.Diagnosis
import Acceptor.Proofs.Description.TableGrammar

/-!
# Where the faults of a table body lie

The fault of a body lies in the row that would come after the rows before it, and these use up
seven tokens each.  What is ahead there does not begin with a row, and `RowFault` tells the two
ways in which it fails to: it begins with a key of which the parts are not two, and the fault
then lies at the first of them, or it begins as a row does and breaks off, and the fault then
lies at the first token with which no row goes on.
-/

namespace Acceptor

/-! ### How rows begin -/

/-- The kinds of the tokens of a row, the key of which may have any number of parts. -/
def rowKinds (parts : List String) (target : String) : List TokenKind :=
  .openParen :: nameKinds parts ++ [.closeParen, .equals, .identifier target]

/-- A row, the key of which may have any number of parts, begins with these kinds of tokens. -/
def BeginsRow (ks : List TokenKind) : Prop :=
  ∃ parts target, parts ≠ [] ∧ ks <+: rowKinds parts target

theorem openParen_prefix_rowKinds {parts : List String} {target : String} {ks : List TokenKind} :
  .openParen :: ks <+: rowKinds parts target
    ↔ ks <+: nameKinds parts ++ [.closeParen, .equals, .identifier target]
  := by
  apply List.cons_prefix_cons.trans (and_iff_right rfl)

/-- A row begins with a parenthesis. -/
theorem beginsRow_singleton {k : TokenKind} :
  BeginsRow [k] ↔ k = .openParen
  := by
  constructor
  · rintro ⟨parts, target, -, hprefix⟩
    apply (List.cons_prefix_cons.mp hprefix).1
  · rintro rfl
    use [""], "", List.cons_ne_nil _ _
    apply openParen_prefix_rowKinds.mpr List.nil_prefix

/-- After the parenthesis stands the first part of the key. -/
theorem beginsRow_part {k : TokenKind} :
  BeginsRow [.openParen, k] ↔ ∃ name, k = .identifier name
  := by
  constructor
  · rintro ⟨parts, target, hparts, hprefix⟩
    obtain ⟨part, parts, rfl⟩ := List.exists_cons_of_ne_nil hparts
    use part
    apply (List.cons_prefix_cons.mp (openParen_prefix_rowKinds.mp hprefix)).1
  · rintro ⟨name, rfl⟩
    use [name], "", List.cons_ne_nil _ _
    apply openParen_prefix_rowKinds.mpr
    apply List.cons_prefix_cons.mpr ⟨rfl, List.nil_prefix⟩

/-- After a part of a key stands the end of the key and of the row, or a comma, after which the
key goes on as it begins. -/
theorem beginsRow_name {name : String} {k : TokenKind} {ks : List TokenKind} :
  BeginsRow (.openParen :: .identifier name :: k :: ks)
    ↔ (∃ target, k :: ks <+: [.closeParen, .equals, .identifier target])
      ∨ k = .comma ∧ BeginsRow (.openParen :: ks)
  := by
  constructor
  · rintro ⟨parts, target, hparts, hprefix⟩
    obtain ⟨part, parts, rfl⟩ := List.exists_cons_of_ne_nil hparts
    obtain ⟨-, hrest⟩ := List.cons_prefix_cons.mp (openParen_prefix_rowKinds.mp hprefix)
    cases parts with
    | nil =>
      left
      use target
      apply hrest
    | cons next parts =>
      obtain ⟨rfl, hks⟩ := List.cons_prefix_cons.mp hrest
      right
      use rfl, next :: parts, target, List.cons_ne_nil _ _
      apply openParen_prefix_rowKinds.mpr hks
  · rintro (⟨target, hks⟩ | ⟨rfl, parts, target, hparts, hprefix⟩)
    · use [name], target, List.cons_ne_nil _ _
      apply openParen_prefix_rowKinds.mpr
      apply List.cons_prefix_cons.mpr ⟨rfl, hks⟩
    · obtain ⟨next, parts, rfl⟩ := List.exists_cons_of_ne_nil hparts
      use name :: next :: parts, target, List.cons_ne_nil _ _
      apply openParen_prefix_rowKinds.mpr
      apply List.cons_prefix_cons.mpr ⟨rfl, _⟩
      apply List.cons_prefix_cons.mpr ⟨rfl, openParen_prefix_rowKinds.mp hprefix⟩

/-- Names that are each followed by a comma make no difference to how a row goes on. -/
theorem beginsRow_begun (names : List String) (ks : List TokenKind) :
  BeginsRow (.openParen ::
      ((names.map fun name => [TokenKind.identifier name]).flatMap (· ++ [.comma]) ++ ks))
    ↔ BeginsRow (.openParen :: ks)
  := by
  induction names with
  | nil => rfl
  | cons name names ih =>
    rw [← ih]
    simp [beginsRow_name]

theorem beginsRow_separator {name : String} {k : TokenKind} :
  BeginsRow [.openParen, .identifier name, k] ↔ k = .closeParen ∨ k = .comma
  := by
  have hbegins : BeginsRow [.openParen] := beginsRow_singleton.mpr rfl
  simp [beginsRow_name, hbegins]

theorem beginsRow_equals {name : String} {k : TokenKind} :
  BeginsRow [.openParen, .identifier name, .closeParen, k] ↔ k = .equals
  := by
  simp [beginsRow_name]

theorem beginsRow_target {name : String} {k : TokenKind} :
  BeginsRow [.openParen, .identifier name, .closeParen, .equals, k]
    ↔ ∃ target, k = .identifier target
  := by
  simp [beginsRow_name]

/-! ### How rows break off -/

/-- A row begins with the tokens of `front`, and goes on, but not as `back` does. -/
structure BreaksOff (front back : List Token) : Prop where
  /-- There is a token with which the row goes on. -/
  goesOn : ∃ k, BeginsRow (front.map Token.kind ++ [k])
  /-- The next token is none of these. -/
  stops : ∀ token ∈ back.head?, ¬ BeginsRow (front.map Token.kind ++ [token.kind])

/-- A key is ahead: names with commas between them, in parentheses, the first of which stands
at `offset`. -/
def KeyAhead (ahead : List Token) (parts : List String) (offset : Nat) : Prop :=
  ∃ o key o' rest, ahead = ⟨.openParen, o⟩ :: (key ++ ⟨.closeParen, o'⟩ :: rest)
    ∧ key.map Token.kind = nameKinds parts ∧ key.head?.map Token.offset = some offset

/-- The ways in which what is ahead fails to begin with a row. -/
inductive RowFault (endOffset : Nat) : List Token → Fault → Prop
  /-- It begins with a key that has not two parts. -/
  | keyPair {ahead : List Token} {parts : List String} {offset : Nat} :
      KeyAhead ahead parts offset → parts.length ≠ 2 →
        RowFault endOffset ahead ⟨offset, .keyPair, .keyParts parts.length⟩
  /-- It breaks off. -/
  | breaksOff {front back : List Token} (wanted : Wanted) :
      BreaksOff front back →
        RowFault endOffset (front ++ back) (Fault.atNext endOffset wanted back)

/-- When it is known with which tokens a row can go on, it breaks off before all others. -/
theorem breaksOff_of_iff
    {front back : List Token} {P : TokenKind → Prop}
    (h : ∀ k, BeginsRow (front.map Token.kind ++ [k]) ↔ P k) (hp : ∃ k, P k)
    (hback : ∀ token ∈ back.head?, ¬ P token.kind) :
  BreaksOff front back
  := by
  constructor
  · obtain ⟨k, hk⟩ := hp
    exact ⟨k, (h k).mpr hk⟩
  · intro token htoken hbegins
    apply hback token htoken ((h token.kind).mp hbegins)

/-- Where the next token is not of a kind, it is something else. -/
theorem head?_ne_of_forall_ne {k : TokenKind} {back : List Token}
    (h : ∀ offset rest, back ≠ ⟨k, offset⟩ :: rest) :
  ∀ token ∈ back.head?, token.kind ≠ k
  := by
  rintro ⟨kind, offset⟩ hhead rfl
  obtain ⟨rest, rfl⟩ := List.head?_eq_some_iff.mp hhead
  apply h offset rest rfl

theorem head?_ne_identifier {back : List Token}
    (h : ∀ name offset rest, back ≠ ⟨.identifier name, offset⟩ :: rest) :
  ∀ token ∈ back.head?, ¬ ∃ name, token.kind = .identifier name
  := by
  rintro token htoken ⟨name, hname⟩
  apply head?_ne_of_forall_ne (h name) token htoken hname

theorem Begun.beginsRow_iff
    {key : List Token} {names : List String} (hb : Begun IsName key names) (o : Nat)
    (ks : List TokenKind) :
  BeginsRow ((⟨.openParen, o⟩ :: key).map Token.kind ++ ks) ↔ BeginsRow (.openParen :: ks)
  := by
  rw [List.map_cons, hb.map_kind (f := fun name => [.identifier name]) fun _ _ => id,
    List.cons_append, beginsRow_begun]

theorem Listed.beginsRow_iff
    {key : List Token} {names : List String} (hl : Listed IsName key names) (o : Nat) :
  ∃ name, ∀ ks, BeginsRow ((⟨.openParen, o⟩ :: key).map Token.kind ++ ks)
    ↔ BeginsRow (.openParen :: .identifier name :: ks)
  := by
  obtain @⟨front, tokens, _, name, hb, hname⟩ := hl
  use name
  intro ks
  rw [← hb.beginsRow_iff o, List.map_cons, List.map_append, hname]
  simp

/-- Names with commas between them, in parentheses, are a key. -/
theorem Listed.exists_keyAhead
    {key : List Token} {parts : List String} (hl : Listed IsName key parts) (o o' : Nat)
    (rest : List Token) :
  ∃ offset, KeyAhead (⟨.openParen, o⟩ :: (key ++ ⟨.closeParen, o'⟩ :: rest)) parts offset
  := by
  have hkinds : key.map Token.kind = nameKinds parts := hl.map_kind fun _ _ => id
  cases key with
  | nil =>
    obtain ⟨part, parts, rfl⟩ := List.exists_cons_of_ne_nil hl.ne_nil
    cases hkinds
  | cons first key =>
    use first.offset, o, first :: key, o', rest, rfl, hkinds
    rfl

section Places

variable {key back : List Token} {names : List String} (o o' o'' : Nat)

/-- A row breaks off before it begins unless a parenthesis is ahead. -/
theorem breaksOff_start (h : ∀ token ∈ back.head?, token.kind ≠ .openParen) :
  BreaksOff [] back
  := by
  have hiff : ∀ k, BeginsRow (([] : List Token).map Token.kind ++ [k]) ↔ k = .openParen :=
    fun _ => beginsRow_singleton
  apply breaksOff_of_iff hiff ⟨.openParen, rfl⟩ h

/-- In the place of a part of its key, a row breaks off before everything but names. -/
theorem Begun.breaksOff
    (hb : Begun IsName key names)
    (h : ∀ name offset rest, back ≠ ⟨.identifier name, offset⟩ :: rest) :
  BreaksOff (⟨.openParen, o⟩ :: key) back
  := by
  have hiff : ∀ k, BeginsRow ((⟨.openParen, o⟩ :: key).map Token.kind ++ [k])
      ↔ ∃ name, k = .identifier name := by
    intro k
    rw [hb.beginsRow_iff, beginsRow_part]
  apply breaksOff_of_iff hiff ⟨.identifier "", "", rfl⟩
  apply head?_ne_identifier h

/-- After a part of its key, a row breaks off before everything but commas and closing
parentheses. -/
theorem Listed.breaksOff
    (hl : Listed IsName key names)
    (h : ∀ token ∈ back.head?, token.kind ≠ .comma ∧ token.kind ≠ .closeParen) :
  BreaksOff (⟨.openParen, o⟩ :: key) back
  := by
  obtain ⟨name, hbegins⟩ := hl.beginsRow_iff o
  have hiff : ∀ k, BeginsRow ((⟨.openParen, o⟩ :: key).map Token.kind ++ [k])
      ↔ k = .closeParen ∨ k = .comma := by
    intro k
    rw [hbegins, beginsRow_separator]
  apply breaksOff_of_iff hiff ⟨.comma, .inr rfl⟩
  rintro token htoken (hclose | hcomma)
  · apply (h token htoken).2 hclose
  · apply (h token htoken).1 hcomma

/-- After its key, a row breaks off before everything but equals signs. -/
theorem Listed.breaksOff_equals
    (hl : Listed IsName key names) (h : ∀ token ∈ back.head?, token.kind ≠ .equals) :
  BreaksOff (⟨.openParen, o⟩ :: (key ++ [⟨.closeParen, o'⟩])) back
  := by
  obtain ⟨name, hbegins⟩ := hl.beginsRow_iff o
  have hiff : ∀ k,
      BeginsRow ((⟨.openParen, o⟩ :: (key ++ [⟨.closeParen, o'⟩])).map Token.kind ++ [k])
        ↔ k = .equals := by
    intro k
    rw [← List.cons_append, List.map_append, List.append_assoc, hbegins]
    apply beginsRow_equals
  apply breaksOff_of_iff hiff ⟨.equals, rfl⟩ h

/-- After the equals sign, a row breaks off before everything but names. -/
theorem Listed.breaksOff_target
    (hl : Listed IsName key names)
    (h : ∀ name offset rest, back ≠ ⟨.identifier name, offset⟩ :: rest) :
  BreaksOff (⟨.openParen, o⟩ :: (key ++ [⟨.closeParen, o'⟩, ⟨.equals, o''⟩])) back
  := by
  obtain ⟨name, hbegins⟩ := hl.beginsRow_iff o
  have hiff : ∀ k,
      BeginsRow ((⟨.openParen, o⟩ :: (key ++ [⟨.closeParen, o'⟩, ⟨.equals, o''⟩])).map Token.kind
        ++ [k]) ↔ ∃ target, k = .identifier target := by
    intro k
    rw [← List.cons_append, List.map_append, List.append_assoc, hbegins]
    apply beginsRow_target
  apply breaksOff_of_iff hiff ⟨.identifier "", "", rfl⟩
  apply head?_ne_identifier h

end Places

namespace TokenReader

variable {endOffset : Nat}

theorem run_row_of_ne {token : Token} (h : token.kind ≠ .openParen) (ahead : List Token) :
  (row endOffset token).run ahead
    = .error (Fault.atNext endOffset (.token .openParen) (token :: ahead))
  := by
  obtain ⟨kind, o⟩ := token
  cases kind with
  | openParen => exact absurd rfl h
  | _ => rfl

/-- A fault in its key is the fault of a row. -/
theorem run_row_of_keyParts_error {o : Nat} {ahead : List Token} {fault : Fault}
    (h : (keyParts endOffset).run ahead = .error fault) :
  (row endOffset ⟨.openParen, o⟩).run ahead = .error fault
  := by
  dsimp only [row]
  rw [Reader.run_bind_of_ok (Reader.run_peek _), Reader.run_bind_of_error h]

/-- A key that has not two parts is a fault. -/
theorem run_row_of_keyAhead
    {token : Token} {ahead : List Token} {parts : List String} {offset : Nat}
    (h : KeyAhead (token :: ahead) parts offset) (hlength : parts.length ≠ 2) :
  (row endOffset token).run ahead = .error ⟨offset, .keyPair, .keyParts parts.length⟩
  := by
  obtain ⟨o, key, o', rest, hahead, hkinds, hoffset⟩ := h
  obtain ⟨rfl, rfl⟩ := List.cons.inj hahead
  cases key with
  | nil => cases hoffset
  | cons first key =>
    obtain rfl := Option.some.inj hoffset
    have hparts : parts ≠ [] := by
      rintro rfl
      cases hkinds
    have hkey : (keyParts endOffset).run (first :: key ++ ⟨.closeParen, o'⟩ :: rest)
        = .ok (parts, rest) :=
      run_keyParts_ended (listed_of_nameKinds hparts hkinds) o' rest
    dsimp only [row]
    rw [Reader.run_bind_of_ok (Reader.run_peek _), Reader.run_bind_of_ok hkey]
    match parts with
    | [_, _] => exact absurd rfl hlength
    | [] | [_] | _ :: _ :: _ :: _ => rfl

/-- After a key of two parts, what is ahead goes on as a row or breaks off. -/
theorem rowFault_afterKey
    {o o' : Nat} {key rest : List Token} {source symbol : String} {fault : Fault}
    (hl : Listed IsName key [source, symbol])
    (h : (row endOffset ⟨.openParen, o⟩).run (key ++ ⟨.closeParen, o'⟩ :: rest) = .error fault) :
  RowFault endOffset (⟨.openParen, o⟩ :: (key ++ ⟨.closeParen, o'⟩ :: rest)) fault
  := by
  dsimp only [row] at h
  rw [Reader.run_bind_of_ok (Reader.run_peek _),
    Reader.run_bind_of_ok (run_keyParts_ended hl o' rest)] at h
  dsimp only at h
  by_cases hequals : ∀ offset tail, rest ≠ ⟨.equals, offset⟩ :: tail
  · rw [Reader.run_bind_of_error (run_mark_of_ne _ _ hequals)] at h
    obtain rfl := Except.error.inj h
    have hbreaks := hl.breaksOff_equals o o' (head?_ne_of_forall_ne hequals)
    have hfault : RowFault endOffset _ (Fault.atNext endOffset .equalsNext rest) :=
      RowFault.breaksOff .equalsNext hbreaks
    simpa using hfault
  simp only [ne_eq, Classical.not_forall, Classical.not_not] at hequals
  obtain ⟨o'', rest, rfl⟩ := hequals
  rw [Reader.run_bind_of_ok (run_mark ..)] at h
  by_cases htarget : ∀ name offset tail, rest ≠ ⟨.identifier name, offset⟩ :: tail
  · rw [Reader.run_bind_of_error (run_identifier_of_ne _ _ htarget)] at h
    obtain rfl := Except.error.inj h
    have hbreaks := hl.breaksOff_target o o' o'' htarget
    have hfault : RowFault endOffset _ (Fault.atNext endOffset .nextState rest) :=
      RowFault.breaksOff .nextState hbreaks
    simpa using hfault
  · simp only [ne_eq, Classical.not_forall, Classical.not_not] at htarget
    obtain ⟨target, offset, rest, rfl⟩ := htarget
    cases h

/-- What is ahead fails to begin with a row in one of the ways that `RowFault` tells. -/
theorem rowFault_run {token : Token} {ahead : List Token} {fault : Fault}
    (h : (row endOffset token).run ahead = .error fault) :
  RowFault endOffset (token :: ahead) fault
  := by
  by_cases hkind : token.kind = .openParen
  · obtain ⟨_, o⟩ := token
    obtain rfl : _ = TokenKind.openParen := hkind
    have hout := keyOutcome_run endOffset ahead
    generalize hkey : (keyParts endOffset).run ahead = result at hout
    cases hout with
    | @ended key parts o' rest hl =>
      by_cases hlength : parts.length = 2
      · obtain ⟨source, symbol, rfl⟩ := List.length_eq_two.mp hlength
        apply rowFault_afterKey hl h
      · obtain ⟨offset, hahead⟩ := hl.exists_keyAhead o o' rest
        rw [run_row_of_keyAhead hahead hlength] at h
        obtain rfl := Except.error.inj h
        apply RowFault.keyPair hahead hlength
    | @noSeparator key back parts hl hback =>
      rw [run_row_of_keyParts_error hkey] at h
      obtain rfl := Except.error.inj h
      apply RowFault.breaksOff .listSeparator (hl.breaksOff o hback)
    | @noPart key back parts hb hback =>
      rw [run_row_of_keyParts_error hkey] at h
      obtain rfl := Except.error.inj h
      apply RowFault.breaksOff .keyPart (hb.breaksOff o hback)
  · rw [run_row_of_ne hkind] at h
    obtain rfl := Except.error.inj h
    apply RowFault.breaksOff (.token .openParen) (breaksOff_start _)
    rintro _ ⟨⟩
    apply hkind

end TokenReader

/-! ### The faults of a body -/

/-- The fault of a body has the number of the row in which it lies: the rows before it use up
seven tokens each, and what is ahead there does not begin with a row.  When it counts the parts
of a key, this key is ahead, its parts are not two, and the fault has the offset of the first
of them.  This is so for every such key.  Every other fault lies at the first token with which
what is ahead does not go on as a row, and speaks of that token, or it lies at the end of the
body, when the body ends before the row does. -/
theorem parseTable_located {body : String} {e : BodyFault} (h : parseTable body = .error e) :
  let ahead := (lex body).drop (7 * (e.entry - 1))
  (∃ ts : List Transition, ts.length = e.entry - 1
      ∧ ((lex body).take (7 * (e.entry - 1))).map Token.kind = ts.flatMap Transition.kinds)
    ∧ (∀ tokens rest t, ahead = tokens ++ rest → ¬ IsRow tokens t)
    ∧ (∀ k : Nat, e.fault.found.display = toString k ++ " key part(s)" →
      k ≠ 2 ∧ ∃ parts, parts.length = k ∧ KeyAhead ahead parts e.fault.offset)
    ∧ (∀ parts offset, KeyAhead ahead parts offset → parts.length ≠ 2 →
      e.fault.found.display = toString parts.length ++ " key part(s)")
    ∧ ((∀ k : Nat, e.fault.found.display ≠ toString k ++ " key part(s)") →
      ∃ front back, ahead = front ++ back ∧ BreaksOff front back
        ∧ e.fault.offset = Token.nextOffset body.utf8ByteSize back
        ∧ e.fault.found.display = (Found.next back).display)
  := by
  obtain ⟨ts, -, hts⟩ | ⟨e', front, token, ahead, he, hlex, hfront, hrow⟩ :=
    parseTable_outcome body
  · rw [h] at hts
    cases hts
  obtain rfl := Except.error.inj (h.symm.trans he)
  have hlength := length_of_map_kind hfront
  have hentry : e.entry - 1 = e.rows.length := rfl
  have htake : (lex body).take (7 * (e.entry - 1)) = front := by
    rw [hlex, hentry, ← hlength, List.take_left]
  have hdrop : (lex body).drop (7 * (e.entry - 1)) = token :: ahead := by
    rw [hlex, hentry, ← hlength, List.drop_left]
  dsimp only
  rw [htake, hdrop]
  have hfault := TokenReader.rowFault_run hrow
  and_intros
  · use e.rows, hentry.symm
  · intro tokens rest t htokens ht
    rw [(TokenReader.readsAs_row token ahead t rest).mpr ⟨tokens, htokens, ht⟩] at hrow
    cases hrow
  · intro k hk
    have hfound : e.fault.found = .keyParts k := Found.display_inj hk
    generalize token :: ahead = items at hfault
    generalize e.fault = fault at hfault hfound
    cases hfault with
    | @keyPair _ parts offset hahead hparts =>
      obtain rfl := Found.keyParts.inj hfound
      use hparts, parts
    | @breaksOff front back wanted hbreaks => cases back <;> cases hfound
  · intro parts offset hahead hparts
    rw [TokenReader.run_row_of_keyAhead hahead hparts] at hrow
    rw [← Except.error.inj hrow]
    rfl
  · intro hne
    generalize token :: ahead = items at hfault
    generalize e.fault = fault at hfault hne
    cases hfault with
    | @keyPair _ parts offset hahead hparts => exact absurd rfl (hne parts.length)
    | @breaksOff front back wanted hbreaks => exact ⟨front, back, rfl, hbreaks, rfl, rfl⟩

/-- The second key has one part, which stands at the offset 12: the offset counts bytes. -/
theorem parseTable_located_onePart :
  parseTable "(q0,é)=q1 (q1)=q0" = .error ⟨[⟨"q0", "é", "q1"⟩], ⟨12, .keyPair, .keyParts 1⟩⟩
    ∧ ∃ parts, parts.length = 1 ∧ KeyAhead ((lex "(q0,é)=q1 (q1)=q0").drop 7) parts 12
  := by
  have hfault : parseTable "(q0,é)=q1 (q1)=q0"
      = .error ⟨[⟨"q0", "é", "q1"⟩], ⟨12, .keyPair, .keyParts 1⟩⟩ := by
    with_unfolding_all rfl
  obtain ⟨-, -, hkey, -⟩ := parseTable_located hfault
  use hfault
  apply (hkey 1 rfl).2

end Acceptor

import Acceptor.Description.TableBody
import Acceptor.Proofs.Description.DescriptorGrammar
import Acceptor.Proofs.Table

/-!
# The grammar of table bodies

The tokens of a row are a parenthesis, the two parts of its key with a comma between them,
another parenthesis, an equals sign and a name; those of a table body are the tokens of
its rows, one row after the other.  `KeyOutcome` and `BodyOutcome` tell the ways in which
the reading of a key and of a body can end.  A body is read exactly when its tokens are
those of rows, and it then is the table into which these rows are collected
(`parseTable_collects`).
-/

namespace Acceptor

/-- The kinds of the tokens of a row. -/
def Transition.kinds (t : Transition) : List TokenKind :=
  .openParen :: nameKinds [t.source, t.symbol]
    ++ [.closeParen, .equals, .identifier t.target]

/-- The tokens of a row. -/
def IsRow (tokens : List Token) (t : Transition) : Prop :=
  tokens.map Token.kind = t.kinds

namespace TokenReader

variable {endOffset : Nat}

/-! ### Keys -/

theorem run_keyPartsAfter_closeParen
    (done : List String) (name : String) (o₁ o₂ : Nat) (rest : List Token) :
  (keyPartsAfter endOffset done).run (⟨.identifier name, o₁⟩ :: ⟨.closeParen, o₂⟩ :: rest)
    = .ok ((name :: done).reverse, rest)
  := by
  rw [keyPartsAfter, Reader.run_loop_cons]
  rfl

theorem run_keyPartsAfter_comma
    (done : List String) (name : String) (o₁ o₂ : Nat) (rest : List Token) :
  (keyPartsAfter endOffset done).run (⟨.identifier name, o₁⟩ :: ⟨.comma, o₂⟩ :: rest)
    = (keyPartsAfter endOffset (name :: done)).run rest
  := by
  rw [keyPartsAfter, Reader.run_loop_cons]
  rfl

/-- After a part of a key, something else than a comma or a parenthesis is a fault. -/
theorem run_keyPartsAfter_noSeparator
    (done : List String) (name : String) (offset : Nat) {back : List Token}
    (h : ∀ token, back.head? = some token → token.kind ≠ .comma ∧ token.kind ≠ .closeParen) :
  (keyPartsAfter endOffset done).run (⟨.identifier name, offset⟩ :: back)
    = .error (Fault.atNext endOffset .listSeparator back)
  := by
  rw [keyPartsAfter, Reader.run_loop_cons]
  match back with
  | [] => rfl
  | ⟨kind, _⟩ :: rest =>
    cases kind with
    | comma => exact absurd rfl (h _ rfl).1
    | closeParen => exact absurd rfl (h _ rfl).2
    | _ => rfl

/-- In the place of a part of a key, something else than a name is a fault. -/
theorem run_keyPartsAfter_noPart
    (done : List String) {back : List Token}
    (h : ∀ name offset rest, back ≠ ⟨.identifier name, offset⟩ :: rest) :
  (keyPartsAfter endOffset done).run back = .error (Fault.atNext endOffset .keyPart back)
  := by
  match back with
  | [] =>
    rw [keyPartsAfter, Reader.run_loop_nil]
    rfl
  | ⟨kind, offset⟩ :: rest =>
    rw [keyPartsAfter, Reader.run_loop_cons]
    cases kind with
    | identifier name => exact absurd rfl (h name offset rest)
    | _ => rfl

/-- The reading of a key gets past names that are each followed by a comma. -/
theorem run_keyPartsAfter_begun
    {front : List Token} {names : List String} (hb : Begun IsName front names)
    (done : List String) (back : List Token) :
  (keyPartsAfter endOffset done).run (front ++ back)
    = (keyPartsAfter endOffset (names.reverse ++ done)).run back
  := by
  induction hb generalizing done with
  | nil => rfl
  | @cons tokens name offset rest names hname _ ih =>
    obtain ⟨⟨_, o₁⟩, rfl, rfl⟩ := List.map_eq_singleton_iff.mp hname
    rw [List.append_assoc, List.cons_append, List.cons_append, List.nil_append,
      run_keyPartsAfter_comma, ih, List.reverse_cons, List.append_assoc, List.singleton_append]

/-- Names with commas between them and a parenthesis are read as the parts of a key. -/
theorem run_keyParts_ended
    {front : List Token} {names : List String} (hl : Listed IsName front names)
    (offset : Nat) (rest : List Token) :
  (keyParts endOffset).run (front ++ ⟨.closeParen, offset⟩ :: rest) = .ok (names, rest)
  := by
  obtain ⟨hb, hname⟩ := hl
  obtain ⟨⟨_, o₁⟩, rfl, rfl⟩ := List.map_eq_singleton_iff.mp hname
  rw [keyParts, List.append_assoc, run_keyPartsAfter_begun hb, List.singleton_append,
    run_keyPartsAfter_closeParen, List.append_nil, List.reverse_cons, List.reverse_reverse]

/-- The ways in which the reading of a key ends. -/
inductive KeyOutcome (endOffset : Nat) :
    List Token → Except Fault (List String × List Token) → Prop
  /-- The key is ended by a parenthesis. -/
  | ended {front : List Token} {names : List String} (offset : Nat) (rest : List Token) :
      Listed IsName front names →
        KeyOutcome endOffset (front ++ ⟨.closeParen, offset⟩ :: rest) (.ok (names, rest))
  /-- Something else than a comma or a parenthesis stands after a part. -/
  | noSeparator {front back : List Token} {names : List String} :
      Listed IsName front names →
        (∀ token, back.head? = some token →
          token.kind ≠ .comma ∧ token.kind ≠ .closeParen) →
        KeyOutcome endOffset (front ++ back)
          (.error (Fault.atNext endOffset .listSeparator back))
  /-- Something else than a name stands in the place of a part. -/
  | noPart {front back : List Token} {names : List String} :
      Begun IsName front names →
        (∀ name offset rest, back ≠ ⟨.identifier name, offset⟩ :: rest) →
        KeyOutcome endOffset (front ++ back) (.error (Fault.atNext endOffset .keyPart back))

/-- The reading of a key ends in one of the ways that `KeyOutcome` tells. -/
theorem keyOutcome_run (endOffset : Nat) (items : List Token) :
  KeyOutcome endOffset items ((keyParts endOffset).run items)
  := by
  obtain ⟨front, names, back, rfl, hb, hback⟩ := exists_begun IsName items
  by_cases hname : ∀ name offset rest, back ≠ ⟨.identifier name, offset⟩ :: rest
  · rw [keyParts, run_keyPartsAfter_begun hb, run_keyPartsAfter_noPart _ hname]
    apply KeyOutcome.noPart hb hname
  simp only [ne_eq, Classical.not_forall, Classical.not_not] at hname
  obtain ⟨name, offset, back, rfl⟩ := hname
  have hl : Listed IsName (front ++ [⟨.identifier name, offset⟩]) (names ++ [name]) :=
    .intro hb rfl
  have happend : front ++ ⟨.identifier name, offset⟩ :: back
      = front ++ [⟨.identifier name, offset⟩] ++ back := by
    rw [List.append_assoc, List.singleton_append]
  by_cases hclose : ∃ o rest, back = ⟨.closeParen, o⟩ :: rest
  · obtain ⟨o, rest, rfl⟩ := hclose
    rw [happend, run_keyParts_ended hl]
    apply KeyOutcome.ended o rest hl
  · have hseparator : ∀ token, back.head? = some token →
        token.kind ≠ .comma ∧ token.kind ≠ .closeParen := by
      rintro ⟨kind, o⟩ hhead
      obtain ⟨rest, rfl⟩ := List.head?_eq_some_iff.mp hhead
      constructor
      · rintro rfl
        apply hback [⟨.identifier name, offset⟩] name o rest rfl rfl
      · rintro rfl
        apply hclose ⟨o, rest, rfl⟩
    rw [keyParts, run_keyPartsAfter_begun hb, run_keyPartsAfter_noSeparator _ _ _ hseparator,
      happend]
    apply KeyOutcome.noSeparator hl hseparator

/-- The parts of a key are names with commas between them, which a parenthesis ends. -/
theorem run_keyParts_eq_ok_iff {items rest : List Token} {names : List String} :
  (keyParts endOffset).run items = .ok (names, rest)
    ↔ ∃ front offset, items = front ++ ⟨.closeParen, offset⟩ :: rest ∧ Listed IsName front names
  := by
  constructor
  · intro h
    have hout := keyOutcome_run endOffset items
    rw [h] at hout
    cases hout with
    | @ended front _ offset _ hl => use front, offset, rfl
  · rintro ⟨front, offset, rfl, hl⟩
    apply run_keyParts_ended hl

/-! ### Rows -/

/-- What is read after the parenthesis of a row: a key of two parts, an equals sign and a
name. -/
theorem run_row_openParen_eq_ok_iff
    {o₁ : Nat} {ahead rest : List Token} {t : Transition} :
  (row endOffset ⟨.openParen, o₁⟩).run ahead = .ok (t, rest)
    ↔ ∃ front o₂ o₃ o₄, Listed IsName front [t.source, t.symbol]
      ∧ ahead = front ++ ⟨.closeParen, o₂⟩ :: ⟨.equals, o₃⟩ :: ⟨.identifier t.target, o₄⟩ :: rest
  := by
  dsimp only [row]
  rw [Reader.run_bind_of_ok (Reader.run_peek _), Reader.run_bind_eq_ok_iff]
  constructor
  · rintro ⟨parts, middle, hparts, hpair⟩
    obtain ⟨front, o₂, rfl, hl⟩ := run_keyParts_eq_ok_iff.mp hparts
    match parts with
    | [source, symbol] =>
      obtain ⟨_, _, hmark, hnext⟩ := Reader.run_bind_eq_ok_iff.mp hpair
      obtain ⟨o₃, rfl⟩ := run_mark_eq_ok_iff.mp hmark
      obtain ⟨target, _, htarget, hend⟩ := Reader.run_bind_eq_ok_iff.mp hnext
      obtain ⟨o₄, rfl⟩ := run_identifier_eq_ok_iff.mp htarget
      obtain ⟨rfl, rfl⟩ := Prod.mk.inj (Except.ok.inj hend)
      use front, o₂, o₃, o₄, hl
    | [] | [_] | _ :: _ :: _ :: _ => cases hpair
  · rintro ⟨front, o₂, o₃, o₄, hl, rfl⟩
    use [t.source, t.symbol], ⟨.equals, o₃⟩ :: ⟨.identifier t.target, o₄⟩ :: rest
    use run_keyParts_ended hl o₂ _
    rw [Reader.run_bind_of_ok (run_mark ..), Reader.run_bind_of_ok (run_identifier ..)]
    rfl

/-- A row is read from its tokens. -/
theorem readsAs_row :
  ReadsAs (row endOffset) IsRow
  := by
  rintro ⟨kind, o₁⟩ ahead t rest
  constructor
  · intro h
    cases kind with
    | openParen =>
      obtain ⟨front, o₂, o₃, o₄, hl, rfl⟩ := run_row_openParen_eq_ok_iff.mp h
      use ⟨.openParen, o₁⟩ ::
        (front ++ [⟨.closeParen, o₂⟩, ⟨.equals, o₃⟩, ⟨.identifier t.target, o₄⟩])
      constructor
      · simp
      · have hkinds : front.map Token.kind = nameKinds [t.source, t.symbol] :=
          hl.map_kind fun _ _ => id
        rw [IsRow, List.map_cons, List.map_append, hkinds]
        rfl
    | _ => cases h
  · rintro ⟨tokens, htokens, hrow⟩
    obtain ⟨⟨_, _⟩, tail, rfl, rfl, htail⟩ := List.map_eq_cons_iff.mp hrow
    obtain ⟨⟨rfl, rfl⟩, rfl⟩ := List.cons.inj htokens
    obtain ⟨front, _, rfl, hfront, hclose⟩ := List.map_eq_append_iff.mp htail
    obtain ⟨⟨_, o₂⟩, _, rfl, rfl, hequals⟩ := List.map_eq_cons_iff.mp hclose
    obtain ⟨⟨_, o₃⟩, _, rfl, rfl, htarget⟩ := List.map_eq_cons_iff.mp hequals
    obtain ⟨⟨_, o₄⟩, rfl, rfl⟩ := List.map_eq_singleton_iff.mp htarget
    apply run_row_openParen_eq_ok_iff.mpr
    use front, o₂, o₃, o₄, listed_of_nameKinds (List.cons_ne_nil _ _) hfront
    simp

/-! ### Table bodies -/

theorem run_rowsAfter_nil (done : List Transition) :
  (rowsAfter endOffset done).run [] = .ok (done.reverse, [])
  := by
  rw [rowsAfter, Reader.run_loop_nil]
  rfl

/-- After a row, the reading of a body goes on with the tokens that are left. -/
theorem run_rowsAfter_row
    (done : List Transition) {token : Token} {ahead rest : List Token} {t : Transition}
    (h : (row endOffset token).run ahead = .ok (t, rest)) :
  (rowsAfter endOffset done).run (token :: ahead) = (rowsAfter endOffset (t :: done)).run rest
  := by
  have hnext : ((row endOffset token).mapFault (BodyFault.mk done.reverse)).run ahead
      = .ok (t, rest) := by
    rw [Reader.run_mapFault, h]
  rw [rowsAfter, Reader.run_loop_cons, Reader.run_bind_of_ok hnext]
  rfl

/-- A fault in a row ends the reading of a body. -/
theorem run_rowsAfter_noRow
    (done : List Transition) {token : Token} {ahead : List Token} {fault : Fault}
    (h : (row endOffset token).run ahead = .error fault) :
  (rowsAfter endOffset done).run (token :: ahead) = .error ⟨done.reverse, fault⟩
  := by
  have hnext : ((row endOffset token).mapFault (BodyFault.mk done.reverse)).run ahead
      = .error ⟨done.reverse, fault⟩ := by
    rw [Reader.run_mapFault, h]
  rw [rowsAfter, Reader.run_loop_cons, Reader.run_bind_of_error hnext]

/-- The reading of a body gets past the tokens of rows. -/
theorem run_rowsAfter_append
    (endOffset : Nat) (done ts : List Transition) {front : List Token}
    (h : front.map Token.kind = ts.flatMap Transition.kinds) (back : List Token) :
  (rowsAfter endOffset done).run (front ++ back)
    = (rowsAfter endOffset (ts.reverse ++ done)).run back
  := by
  induction ts generalizing done front with
  | nil =>
    obtain rfl := List.map_eq_nil_iff.mp h
    rfl
  | cons t ts ih =>
    obtain ⟨tokens, rest, rfl, htokens, hrest⟩ := List.map_eq_append_iff.mp h
    obtain ⟨token, ahead, htoken, hrow⟩ := readsAs_row.run htokens (rest ++ back)
    rw [List.append_assoc, htoken, run_rowsAfter_row done hrow, ih (t :: done) hrest,
      List.reverse_cons, List.append_assoc, List.singleton_append]

/-- The ways in which the reading of a body ends. -/
inductive BodyOutcome (endOffset : Nat) :
    List Token → Except BodyFault (List Transition × List Token) → Prop
  /-- All tokens belong to rows. -/
  | read {tokens : List Token} {ts : List Transition} :
      tokens.map Token.kind = ts.flatMap Transition.kinds →
        BodyOutcome endOffset tokens (.ok (ts, []))
  /-- The tokens after some rows do not begin with a row. -/
  | noRow {front ahead : List Token} {ts : List Transition} {token : Token} {fault : Fault} :
      front.map Token.kind = ts.flatMap Transition.kinds →
        (row endOffset token).run ahead = .error fault →
        BodyOutcome endOffset (front ++ token :: ahead) (.error ⟨ts, fault⟩)

/-- Tokens begin with the tokens of as many rows as they can. -/
theorem exists_rows (endOffset : Nat) (items : List Token) :
  ∃ (front : List Token) (ts : List Transition) (back : List Token), items = front ++ back
    ∧ front.map Token.kind = ts.flatMap Transition.kinds
    ∧ ∀ token ahead, back = token :: ahead →
      ∃ fault, (row endOffset token).run ahead = .error fault
  := by
  induction hn : items.length using Nat.strongRecOn generalizing items with
  | ind n ih =>
  subst hn
  cases items with
  | nil => use [], [], [], rfl, rfl, nofun
  | cons token ahead =>
    cases hrow : (row endOffset token).run ahead with
    | error fault =>
      use [], [], token :: ahead, rfl, rfl
      rintro _ _ ⟨⟩
      use fault
    | ok result =>
      obtain ⟨t, rest⟩ := result
      have hlt := Nat.lt_succ_of_le ((row endOffset token).length_le hrow)
      obtain ⟨tokens, htokens, ht⟩ := (readsAs_row token ahead t rest).mp hrow
      obtain ⟨front, ts, back, rfl, hfront, hback⟩ := ih _ hlt rest rfl
      use tokens ++ front, t :: ts, back
      and_intros
      · rw [htokens, List.append_assoc]
      · rw [List.map_append, hfront, ht, List.flatMap_cons]
      · apply hback

/-- The reading of a body ends in one of the ways that `BodyOutcome` tells. -/
theorem bodyOutcome_run (endOffset : Nat) (items : List Token) :
  BodyOutcome endOffset items ((rows endOffset).run items)
  := by
  obtain ⟨front, ts, back, rfl, hfront, hback⟩ := exists_rows endOffset items
  rw [rows, run_rowsAfter_append _ [] ts hfront, List.append_nil]
  cases back with
  | nil =>
    rw [run_rowsAfter_nil, List.reverse_reverse, List.append_nil]
    apply BodyOutcome.read hfront
  | cons token ahead =>
    obtain ⟨fault, hrow⟩ := hback token ahead rfl
    rw [run_rowsAfter_noRow _ hrow, List.reverse_reverse]
    apply BodyOutcome.noRow hfront hrow

end TokenReader

/-- A body with the tokens of rows is read as these rows. -/
theorem readRows_of_map_kind {body : String} {ts : List Transition}
    (h : (lex body).map Token.kind = ts.flatMap Transition.kinds) :
  readRows body = .ok ts
  := by
  have hrows := TokenReader.run_rowsAfter_append body.utf8ByteSize [] ts h []
  rw [List.append_nil, List.append_nil, TokenReader.run_rowsAfter_nil,
    List.reverse_reverse] at hrows
  rw [readRows, TokenReader.rows, hrows]
  rfl

theorem parseTable_of_map_kind {body : String} {ts : List Transition}
    (h : (lex body).map Token.kind = ts.flatMap Transition.kinds) :
  parseTable body = .ok (Table.ofList ts)
  := by
  rw [parseTable, readRows_of_map_kind h]
  rfl

theorem parseTable_eq (body : String) :
  parseTable body =
    match (TokenReader.rows body.utf8ByteSize).run (lex body) with
    | .ok (ts, _) => .ok (Table.ofList ts)
    | .error e => .error e
  := by
  rw [parseTable, readRows]
  cases (TokenReader.rows body.utf8ByteSize).run (lex body) <;> rfl

theorem length_flatMap_kinds (ts : List Transition) :
  (ts.flatMap Transition.kinds).length = 7 * ts.length
  := by
  induction ts with
  | nil => rfl
  | cons t ts ih =>
    have ht : t.kinds.length = 7 := rfl
    rw [List.flatMap_cons, List.length_append, ih, ht, List.length_cons]
    omega

/-- Every row has seven tokens. -/
theorem length_of_map_kind {tokens : List Token} {ts : List Transition}
    (h : tokens.map Token.kind = ts.flatMap Transition.kinds) :
  tokens.length = 7 * ts.length
  := by
  rw [← length_flatMap_kinds, ← h, List.length_map]

/-- The reading of a body ends with a table, when all tokens belong to rows, or with a fault of
the reading of a row, which comes with the rows before it. -/
theorem parseTable_outcome (body : String) :
  (∃ ts : List Transition, (lex body).map Token.kind = ts.flatMap Transition.kinds
      ∧ parseTable body = .ok (Table.ofList ts))
    ∨ ∃ e front token ahead, parseTable body = .error e
      ∧ lex body = front ++ token :: ahead
      ∧ front.map Token.kind = e.rows.flatMap Transition.kinds
      ∧ (TokenReader.row body.utf8ByteSize token).run ahead = .error e.fault
  := by
  have hout := TokenReader.bodyOutcome_run body.utf8ByteSize (lex body)
  rw [parseTable_eq]
  generalize lex body = tokens at hout
  generalize (TokenReader.rows body.utf8ByteSize).run tokens = result at hout
  cases hout with
  | @read tokens ts hkinds =>
    left
    use ts, hkinds
  | @noRow front ahead ts token fault hfront hrow =>
    right
    use ⟨ts, fault⟩, front, token, ahead

/-- The reading of a body ends with a table, or with a fault after some rows, which use up
some of the tokens but not all. -/
theorem parseTable_ends (body : String) :
  (∃ ts : List Transition, (lex body).map Token.kind = ts.flatMap Transition.kinds
      ∧ parseTable body = .ok (Table.ofList ts))
    ∨ ∃ e, parseTable body = .error e ∧ 7 * e.rows.length < (lex body).length
  := by
  rcases parseTable_outcome body with hread | ⟨e, front, token, ahead, he, hlex, hfront, -⟩
  · left
    apply hread
  · right
    use e, he
    rw [hlex, List.length_append, List.length_cons, length_of_map_kind hfront]
    omega

/-- The tokens of a body that is read are those of the rows of which the table is made. -/
theorem exists_map_kind_of_parseTable {body : String} {t : Table} (h : parseTable body = .ok t) :
  ∃ ts : List Transition, (lex body).map Token.kind = ts.flatMap Transition.kinds
    ∧ t = Table.ofList ts
  := by
  rcases parseTable_ends body with ⟨ts, hkinds, hts⟩ | ⟨e, he, -⟩
  · use ts, hkinds, Except.ok.inj (h.symm.trans hts)
  · rw [h] at he
    cases he

/-- A body is read exactly when its tokens are those of rows, one after the other, and the
table is the one into which these rows are collected.  It has as many rows at most, and as
many exactly when no two of them lead from the same pair.  The reading ends on every body:
if not with a table, then with a fault after fewer rows than there are tokens for. -/
theorem parseTable_collects (body : String) :
  ((∃ t, parseTable body = .ok t)
      ↔ ∃ ts : List Transition, (lex body).map Token.kind = ts.flatMap Transition.kinds)
    ∧ (∀ ts : List Transition, (lex body).map Token.kind = ts.flatMap Transition.kinds →
      (∀ t, parseTable body = .ok t ↔ CollectedFrom ts t)
        ∧ ∀ t, parseTable body = .ok t →
          t.size ≤ ts.length ∧ (t.size = ts.length ↔ (ts.map Transition.key).Nodup))
    ∧ ((∃ t, parseTable body = .ok t)
      ∨ ∃ e, parseTable body = .error e ∧ 7 * e.rows.length < (lex body).length)
  := by
  have hends := parseTable_ends body
  and_intros
  · constructor
    · rintro ⟨t, ht⟩
      rcases hends with ⟨ts, hkinds, _⟩ | ⟨e, he, _⟩
      · use ts
      · rw [ht] at he
        cases he
    · rintro ⟨ts, hkinds⟩
      use Table.ofList ts, parseTable_of_map_kind hkinds
  · intro ts hkinds
    rw [parseTable_of_map_kind hkinds]
    constructor
    · intro t
      rw [collectedFrom_iff, Except.ok.injEq, eq_comm]
    · intro t ht
      obtain rfl := Except.ok.inj ht
      use Table.size_ofList_le ts
      apply Table.size_ofList_eq_iff
  · rcases hends with ⟨ts, _, ht⟩ | he
    · left
      use Table.ofList ts
    · right
      apply he

/-- The last of these rows replaces the target of the first, which keeps its place. -/
theorem parseTable_collects_replaced :
  let ts : List Transition := [⟨"q0", "a", "q1"⟩, ⟨"q1", "é", "q1"⟩, ⟨"q0", "a", "q2"⟩]
  (lex "(q0,a)=q1(q1,é)=q1\n(q0,a)=q2").map Token.kind = ts.flatMap Transition.kinds
    ∧ ∃ t, parseTable "(q0,a)=q1(q1,é)=q1\n(q0,a)=q2" = .ok t ∧ CollectedFrom ts t
      ∧ t.entries = [⟨"q0", "a", "q2"⟩, ⟨"q1", "é", "q1"⟩] ∧ t.size < ts.length
  := by
  intro ts
  have hkinds : (lex "(q0,a)=q1(q1,é)=q1\n(q0,a)=q2").map Token.kind
      = ts.flatMap Transition.kinds := by
    with_unfolding_all rfl
  obtain ⟨hgrammar, hcollected, -⟩ := parseTable_collects "(q0,a)=q1(q1,é)=q1\n(q0,a)=q2"
  obtain ⟨t, ht⟩ := hgrammar.mpr ⟨ts, hkinds⟩
  have hts := ((hcollected ts hkinds).1 t).mp ht
  have hentries : t.entries = [⟨"q0", "a", "q2"⟩, ⟨"q1", "é", "q1"⟩] := by
    rw [collectedFrom_iff.mp hts]
    decide
  use hkinds, t, ht, hts, hentries
  rw [Table.size, hentries]
  decide

end Acceptor

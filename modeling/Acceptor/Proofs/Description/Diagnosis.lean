import Acceptor.Proofs.Description.DescriptorGrammar
import Acceptor.Proofs.Description.Layout

/-!
# Where the faults of a descriptor line lie

A fault has an offset and says what is found, and it is `Located` when that stands at the
offset.  Most faults of a descriptor line are made of the token ahead, or of the offset of
a part, and so they are located.  The fault of a missing separator is made after the token
in its place was taken: it speaks of that token with the offset of the next one.
`MissesSeparator` describes the lines with such a fault, and `parseDescriptor_located_iff`
says that there are no other faults that are not located.
-/

namespace Acceptor

/-! ### The wording of what is found -/

theorem TokenKind.toList_display_of_ofMark? {c : Char} {k : TokenKind}
    (h : TokenKind.ofMark? c = some k) :
  k.display.toList = ['\'', c, '\'']
  := by
  unfold TokenKind.ofMark? at h
  split at h <;> cases h <;> rfl

theorem TokenKind.toList_display_identifier (name : String) :
  (TokenKind.identifier name).display.toList = "identifier '".toList ++ name.toList ++ ['\'']
  := by
  rw [TokenKind.display, String.toList_append, String.toList_append]
  rfl

/-- What is said of a token tells its kind. -/
theorem TokenKind.display_inj {k l : TokenKind} (h : k.display = l.display) :
  k = l
  := by
  have hlist := congrArg String.toList h
  rcases k.identifier_or_mark with ⟨name, rfl⟩ | ⟨c, -, hc⟩
  · rw [toList_display_identifier] at hlist
    rcases l.identifier_or_mark with ⟨name', rfl⟩ | ⟨d, -, hd⟩
    · rw [toList_display_identifier] at hlist
      have hname := List.append_cancel_left (List.append_cancel_right hlist)
      rw [String.toList_inj.mp hname]
    · rw [toList_display_of_ofMark? hd] at hlist
      cases (List.cons.inj hlist).1
  · rw [toList_display_of_ofMark? hc] at hlist
    rcases l.identifier_or_mark with ⟨name', rfl⟩ | ⟨d, -, hd⟩
    · rw [toList_display_identifier] at hlist
      cases (List.cons.inj hlist).1
    · rw [toList_display_of_ofMark? hd] at hlist
      obtain ⟨rfl, -⟩ := List.cons.inj (List.cons.inj hlist).2
      apply Option.some.inj (hc.symm.trans hd)

/-- The last character of what is said of something found. -/
theorem Found.getLast?_display (found : Found) :
  found.display.toList.getLast? = some
    (match found with
      | .endOfInput | .set => 't'
      | .token _ => '\''
      | .components _ | .keyParts _ => ')')
  := by
  cases found with
  | endOfInput => decide
  | set => decide
  | token kind =>
    rw [display]
    rcases kind.identifier_or_mark with ⟨name, rfl⟩ | ⟨c, -, hc⟩
    · rw [TokenKind.toList_display_identifier, List.getLast?_concat]
    · rw [TokenKind.toList_display_of_ofMark? hc]
      rfl
  | components count =>
    rw [display, String.toList_append, List.getLast?_append]
    rfl
  | keyParts count =>
    rw [display, String.toList_append, List.getLast?_append]
    rfl

/-- A number of parts of a descriptor is not spoken of as one of parts of a key. -/
theorem Found.display_components_ne (count count' : Nat) :
  (components count).display ≠ (keyParts count').display
  := by
  intro h
  have hreverse := congrArg (fun s => s.toList.reverse.take 5) h
  simp [display] at hreverse

/-- Numbers that are written alike are the same. -/
theorem eq_of_toString_eq {m n : Nat} (h : toString m = toString n) :
  m = n
  := by
  have hdigits := congrArg (fun s => Nat.ofDigitChars 10 s.toList 0) h
  simpa using hdigits

/-- What is said of something found tells what it is. -/
theorem Found.display_inj {found found' : Found} (h : found.display = found'.display) :
  found = found'
  := by
  have hlast := found.getLast?_display
  rw [h, found'.getLast?_display] at hlast
  cases found with
  | endOfInput =>
    cases found' with
    | endOfInput => rfl
    | set => exact absurd h (by decide)
    | _ => cases hlast
  | set =>
    cases found' with
    | set => rfl
    | endOfInput => exact absurd h (by decide)
    | _ => cases hlast
  | token kind =>
    cases found' with
    | token kind' => rw [TokenKind.display_inj h]
    | _ => cases hlast
  | components count =>
    cases found' with
    | components count' => rw [eq_of_toString_eq ((String.append_left_inj _).mp h)]
    | keyParts count' => exact absurd h (display_components_ne count count')
    | _ => cases hlast
  | keyParts count =>
    cases found' with
    | keyParts count' => rw [eq_of_toString_eq ((String.append_left_inj _).mp h)]
    | components count' => exact absurd h.symm (display_components_ne count' count)
    | _ => cases hlast

/-! ### Missing separators -/

/-- After the members of a set, of kinds `ks`, a token of kind `k` stands in the place of
a comma or of a closing brace. -/
def MissesInSet (ks : List TokenKind) (k : TokenKind) : Prop :=
  k ≠ .comma ∧ k ≠ .closeBrace ∧ ∃ names, names ≠ [] ∧ ks = nameKinds names

/-- After the parts of a descriptor, of kinds `ks`, a token of kind `k` stands in the place
of a comma or of a closing parenthesis. -/
def MissesAfterPart (ks : List TokenKind) (k : TokenKind) : Prop :=
  k ≠ .comma ∧ k ≠ .closeParen
    ∧ ∃ parts : List Component, parts ≠ [] ∧ ks = joined (parts.map Component.kinds)

/-- After the beginning of a line, a token stands in the place of a separator. -/
inductive MissesSeparator : List TokenKind → TokenKind → Prop
  /-- The separator is missing in a set, which `parts` come before. -/
  | inSet (name : String) (parts : List Component) {ks : List TokenKind} {k : TokenKind} :
      MissesInSet ks k →
        MissesSeparator
          (lineStart name
            ++ ((parts.map Component.kinds).flatMap (· ++ [.comma]) ++ .openBrace :: ks)) k
  /-- The separator is missing after a part. -/
  | afterPart (name : String) {ks : List TokenKind} {k : TokenKind} :
      MissesAfterPart ks k → MissesSeparator (lineStart name ++ ks) k

namespace TokenReader

variable {endOffset : Nat}

/-- In a set, the fault of a missing separator is made after the token in its place. -/
theorem run_members_missesInSet
    {front back : List Token} {token : Token}
    (h : MissesInSet (front.map Token.kind) token.kind) :
  (members endOffset).run (front ++ token :: back)
    = .error ⟨Token.nextOffset endOffset back, .setSeparator, .token token.kind⟩
  := by
  obtain ⟨hcomma, hclose, names, hnames, hkinds⟩ := h
  have hl := listed_of_nameKinds hnames hkinds
  rw [run_members_of_ne, run_listItems_noSeparator readsAs_member hl hcomma hclose]
  intro offset rest hfront
  obtain ⟨name, names, rfl⟩ := List.exists_cons_of_ne_nil hnames
  obtain ⟨_, _, rfl, hkind, -⟩ := List.map_eq_cons_iff.mp hkinds
  obtain ⟨rfl, -⟩ := List.cons.inj hfront
  cases hkind

/-- The fault of a missing separator is made after the token in its place. -/
theorem run_descriptorLine_missesSeparator
    (endOffset : Nat) {front : List Token} (back : List Token) {token : Token}
    (h : MissesSeparator (front.map Token.kind) token.kind) :
  ∃ wanted, (descriptorLine endOffset).run (front ++ token :: back)
    = .error ⟨Token.nextOffset endOffset back, wanted, .token token.kind⟩
  := by
  generalize hks : front.map Token.kind = ks at h
  cases h with
  | inSet name parts h =>
    obtain ⟨start, _, rfl, hstart, hrest⟩ := List.map_eq_append_iff.mp hks
    obtain ⟨begun, _, rfl, hbegun, hset⟩ := List.map_eq_append_iff.mp hrest
    obtain ⟨⟨_, offset⟩, members, rfl, rfl, rfl⟩ := List.map_eq_cons_iff.mp hset
    obtain ⟨located, hb, -⟩ := exists_begun_of_map_kind exists_isPart hbegun
    have hpart : (locatedComponent endOffset ⟨.openBrace, offset⟩).run (members ++ token :: back)
        = .error ⟨Token.nextOffset endOffset back, .setSeparator, .token token.kind⟩ := by
      rw [run_locatedComponent_openBrace, run_members_missesInSet h]
    have hparts : (components endOffset).run
          (begun ++ ⟨.openBrace, offset⟩ :: (members ++ token :: back))
        = .error ⟨Token.nextOffset endOffset back, .setSeparator, .token token.kind⟩ :=
      run_listItems_noItem readsAs_locatedComponent hb hpart
    use .setSeparator
    rw [List.append_assoc, List.append_assoc, List.cons_append,
      run_descriptorLine_start hstart, hparts]
  | afterPart name h =>
    obtain ⟨start, list, rfl, hstart, rfl⟩ := List.map_eq_append_iff.mp hks
    obtain ⟨hcomma, hclose, parts, hne, hkinds⟩ := h
    obtain ⟨located, hl, -⟩ := exists_listed_of_map_kind exists_isPart hne hkinds
    have hparts : (components endOffset).run (list ++ token :: back)
        = .error ⟨Token.nextOffset endOffset back, .listSeparator, .token token.kind⟩ :=
      run_listItems_noSeparator readsAs_locatedComponent hl hcomma hclose back
    use .listSeparator
    rw [List.append_assoc, run_descriptorLine_start hstart, hparts]

/-! ### Where the faults of a reader are made -/

/-- A fault that is made of the tokens ahead, or after a token that was taken; `Missing`
then describes the kinds of the tokens before it and its own. -/
inductive Made (endOffset : Nat) (Missing : List TokenKind → TokenKind → Prop) :
    List Token → Fault → Prop
  /-- The fault speaks of the next token. -/
  | atNext (front back : List Token) (wanted : Wanted) :
      Made endOffset Missing (front ++ back) (Fault.atNext endOffset wanted back)
  /-- The fault speaks of `token`, which was taken. -/
  | past (front back : List Token) (token : Token) (wanted : Wanted) :
      Missing (front.map Token.kind) token.kind →
        Made endOffset Missing (front ++ token :: back)
          ⟨Token.nextOffset endOffset back, wanted, .token token.kind⟩

/-- What is read before does not change where a fault is made. -/
theorem Made.append
    {Missing Missing' : List TokenKind → TokenKind → Prop} {items : List Token} {fault : Fault}
    (before : List Token) (h : Made endOffset Missing items fault)
    (hmissing : ∀ ks k, Missing ks k → Missing' (before.map Token.kind ++ ks) k) :
  Made endOffset Missing' (before ++ items) fault
  := by
  cases h with
  | atNext front back wanted =>
    rw [← List.append_assoc]
    apply Made.atNext
  | past front back token wanted h =>
    rw [← List.append_assoc]
    apply Made.past
    rw [List.map_append]
    apply hmissing _ _ h

/-- Where the fault of a list is made: that of an item is made where the item's reader
makes it, and of a missing separator after the token in its place. -/
theorem ListOutcome.made
    {α : Type} {close : TokenKind} {wanted separator : Wanted} {item : Token → TokenReader α}
    {Item : List Token → α → Prop} {Missing : List TokenKind → TokenKind → Prop}
    {items : List Token} {fault : Fault}
    (h : ListOutcome endOffset close wanted separator item Item items (.error fault))
    (hseparator : ∀ {front : List Token} {as : List α} {k : TokenKind}, Listed Item front as →
      k ≠ .comma → k ≠ close → Missing (front.map Token.kind) k)
    (hitem : ∀ {front ahead : List Token} {as : List α} {token : Token} {fault : Fault},
      Begun Item front as → (item token).run ahead = .error fault →
        Made endOffset Missing (front ++ token :: ahead) fault) :
  Made endOffset Missing items fault
  := by
  cases h with
  | noSeparator rest hl hcomma hclose =>
    apply Made.past
    apply hseparator hl hcomma hclose
  | noSeparatorAtEnd hl =>
    rw [← List.append_nil items]
    apply Made.atNext _ []
  | noItem hb hf => apply hitem hb hf
  | noItemAtEnd hb =>
    rw [← List.append_nil items]
    apply Made.atNext _ []

/-- Where the fault of a set is made. -/
theorem made_members {ahead : List Token} {fault : Fault}
    (h : (members endOffset).run ahead = .error fault) :
  Made endOffset MissesInSet ahead fault
  := by
  by_cases hc : ∃ offset rest, ahead = ⟨.closeBrace, offset⟩ :: rest
  · obtain ⟨offset, rest, rfl⟩ := hc
    cases h
  rw [run_members_of_ne fun offset rest hr => hc ⟨offset, rest, hr⟩] at h
  have hout : ListOutcome endOffset .closeBrace .setMember .setSeparator member IsName
      ahead _ := listOutcome_run readsAs_member (by decide) ahead
  rw [h] at hout
  apply hout.made
  · intro front names k hl hcomma hclose
    use hcomma, hclose, names, hl.ne_nil
    apply hl.map_kind fun _ _ => id
  · intro front back names token fault hb hf
    have hfault : fault = Fault.atNext endOffset .setMember (token :: back) := by
      obtain ⟨kind, offset⟩ := token
      cases kind <;> cases hf
      all_goals rfl
    rw [hfault]
    apply Made.atNext

/-- Where the fault of a part is made. -/
theorem made_locatedComponent {token : Token} {ahead : List Token} {fault : Fault}
    (h : (locatedComponent endOffset token).run ahead = .error fault) :
  Made endOffset (fun ks k => ∃ ms, ks = .openBrace :: ms ∧ MissesInSet ms k)
    (token :: ahead) fault
  := by
  obtain ⟨kind, offset⟩ := token
  cases kind with
  | identifier name => cases h
  | openBrace =>
    rw [run_locatedComponent_openBrace] at h
    split at h
    · cases h
    · next fault' hmembers =>
      obtain rfl := Except.error.inj h
      apply (made_members hmembers).append [⟨.openBrace, offset⟩]
      intro ks k hk
      use ks, rfl
  | _ =>
    obtain rfl := Except.error.inj h
    apply Made.atNext [] (_ :: ahead) .component

/-- Where the fault of the parts of a line is made. -/
theorem made_components (name : String) {items : List Token} {fault : Fault}
    (h : (components endOffset).run items = .error fault) :
  Made endOffset (fun ks k => MissesSeparator (lineStart name ++ ks) k) items fault
  := by
  have hout := listOutcome_components endOffset items
  rw [h] at hout
  apply hout.made
  · intro front parts k hl hcomma hclose
    apply MissesSeparator.afterPart
    use hcomma, hclose, parts.map Prod.snd
    constructor
    · simpa using hl.ne_nil
    · apply hl.map_kind_part
  · intro front ahead parts token fault hb hf
    apply (made_locatedComponent hf).append front
    rintro _ k ⟨ks, rfl, hk⟩
    rw [hb.map_kind_part]
    apply MissesSeparator.inSet name _ hk

/-- Where the fault of a line is made. -/
theorem made_descriptorLine {tokens : List Token} {fault : Fault}
    (h : (descriptorLine endOffset).run tokens = .error fault) :
  Made endOffset MissesSeparator tokens fault
  := by
  have hout := lineOutcome_run endOffset tokens
  rw [h] at hout
  cases hout with
  | noStart front back wanted => apply Made.atNext
  | @noParts name start back _ hstart hparts =>
    apply (made_components name hparts).append start
    rw [hstart]
    intro ks k hk
    apply hk
  | @trailing name start back parts token rest hstart hparts =>
    obtain ⟨front, offset, rfl, -⟩ := run_components_eq_ok_iff.mp hparts
    have hmade : Made endOffset MissesSeparator
        (start ++ (front ++ [⟨.closeParen, offset⟩]) ++ token :: rest) _ :=
      Made.atNext _ _ .endOfLine
    simpa using hmade

end TokenReader

/-! ### Where the faults of a descriptor are made -/

/-- The fault of a line counts the parts, or is made of the tokens of the line, or speaks of
a part: a set begins with a brace at its offset, and an identifier stands there else. -/
theorem parseDescriptor_eq_error {line : String} {fault : Fault}
    (h : parseDescriptor line = .error fault) :
  (∃ count, fault.found = .components count)
    ∨ TokenReader.Made line.utf8ByteSize MissesSeparator (lex line) fault
    ∨ ∃ t ∈ lex line, t.offset = fault.offset
      ∧ (fault.found = .set ∧ t.kind = .openBrace ∨ fault.found = .token t.kind)
  := by
  rw [parseDescriptor_eq] at h
  split at h
  · next name parts rest hline =>
    obtain ⟨-, start, front, offset, hlex, -, hl⟩ :=
      TokenReader.run_descriptorLine_eq_ok_iff.mp hline
    rcases Descriptor.ofComponents_eq_error h with ⟨-, rfl⟩ | ⟨role, part, hfirst, rfl⟩
    · left
      use parts.length
    · right
      right
      obtain ⟨tokens, hsub, hitem⟩ := hl.exists_of_mem (List.mem_of_getElem? hfirst.at_place)
      obtain ⟨t, ht, hoffset, hkind⟩ := hitem.exists_first
      have hmem : t ∈ lex line := by
        rw [hlex]
        apply List.mem_append_right
        apply List.mem_append_left _ (hsub ht)
      use t, hmem, hoffset
  · next fault' hline =>
    obtain rfl := Except.error.inj h
    right
    left
    apply TokenReader.made_descriptorLine hline

/-! ### Located faults -/

/-- A fault lies where its wording says: at the end of the line if that is what is found,
at a token of which the wording speaks, and at the brace of a set. -/
structure Fault.Located (fault : Fault) (line : String) : Prop where
  /-- The end of the line is found there. -/
  atEnd : fault.found.display = "end of input" → fault.offset = line.utf8ByteSize
  /-- The token that is found stands there. -/
  atToken : ∀ kind : TokenKind, fault.found.display = kind.display →
    ∃ t ∈ lex line, t.offset = fault.offset ∧ t.kind.display = fault.found.display
  /-- The set that is found begins there. -/
  atSet : fault.found.display = "a set" →
    ∃ t ∈ lex line, t.offset = fault.offset ∧ t.kind = .openBrace

namespace Fault

variable {fault : Fault} {line : String}

theorem located_of_endOfInput
    (hfound : fault.found = .endOfInput) (hoffset : fault.offset = line.utf8ByteSize) :
  fault.Located line
  := by
  obtain ⟨offset, wanted, found⟩ := fault
  obtain rfl : found = .endOfInput := hfound
  constructor
  · intro _
    apply hoffset
  · intro kind hkind
    cases @Found.display_inj .endOfInput (.token kind) hkind
  · intro hset
    cases @Found.display_inj .endOfInput .set hset

theorem located_of_set
    (hfound : fault.found = .set)
    (h : ∃ t ∈ lex line, t.offset = fault.offset ∧ t.kind = .openBrace) :
  fault.Located line
  := by
  obtain ⟨offset, wanted, found⟩ := fault
  obtain rfl : found = .set := hfound
  constructor
  · intro hend
    cases @Found.display_inj .set .endOfInput hend
  · intro kind hkind
    cases @Found.display_inj .set (.token kind) hkind
  · intro _
    apply h

/-- A fault that speaks of a token is located when there is such a token at its offset. -/
theorem located_iff_of_token {kind : TokenKind} (hfound : fault.found = .token kind) :
  fault.Located line ↔ ∃ t ∈ lex line, t.offset = fault.offset ∧ t.kind = kind
  := by
  obtain ⟨offset, wanted, found⟩ := fault
  obtain rfl : found = .token kind := hfound
  constructor
  · intro h
    obtain ⟨t, ht, hoffset, hkind⟩ := h.atToken kind rfl
    use t, ht, hoffset
    apply TokenKind.display_inj hkind
  · rintro ⟨t, ht, hoffset, rfl⟩
    constructor
    · intro hend
      cases @Found.display_inj (.token t.kind) .endOfInput hend
    · intro _ _
      use t, ht, hoffset
      rfl
    · intro hset
      cases @Found.display_inj (.token t.kind) .set hset

/-- A fault that speaks of the next token is located. -/
theorem located_atNext
    {front back : List Token} (hlex : lex line = front ++ back) (wanted : Wanted) :
  (atNext line.utf8ByteSize wanted back).Located line
  := by
  cases back with
  | nil => apply located_of_endOfInput <;> rfl
  | cons t back =>
    apply (located_iff_of_token rfl).mpr
    use t
    and_intros
    · rw [hlex]
      simp
    · rfl
    · rfl

end Fault

/-- A token stands before the next one, or before the end of its text. -/
theorem offset_lt_nextOffset
    {line : String} {front back : List Token} {token : Token}
    (hlex : lex line = front ++ token :: back) :
  token.offset < Token.nextOffset line.utf8ByteSize back
  := by
  cases back with
  | nil =>
    have hmem : token ∈ lex line := by
      rw [hlex]
      simp
    obtain ⟨hlt, hle⟩ := offset_lt_stop_of_mem_lex hmem
    apply Nat.lt_of_lt_of_le hlt hle
  | cons next back =>
    have hpair := pairwise_offset_lex line
    rw [hlex] at hpair
    have htail := (List.pairwise_append.mp hpair).2.1
    apply (List.pairwise_cons.mp htail).1 next List.mem_cons_self

/-- After a missing separator, a fault is located only by chance: when the token after the
one that stands in its place is of the same kind. -/
theorem located_iff_of_missesSeparator
    {line : String} {front back : List Token} {token : Token} {fault : Fault}
    (hlex : lex line = front ++ token :: back)
    (hfound : fault.found = .token token.kind)
    (hoffset : fault.offset = Token.nextOffset line.utf8ByteSize back) :
  fault.Located line ↔ ∃ next rest, back = next :: rest ∧ next.kind = token.kind
  := by
  rw [Fault.located_iff_of_token hfound, hoffset]
  constructor
  · rintro ⟨t, ht, hoffset, hkind⟩
    cases back with
    | nil =>
      obtain ⟨hlt, hle⟩ := offset_lt_stop_of_mem_lex ht
      rw [hoffset] at hlt
      exact absurd hle (Nat.not_le_of_lt hlt)
    | cons next rest =>
      have hnext : next ∈ lex line := by
        rw [hlex]
        simp
      obtain rfl := eq_of_offset_eq ht hnext hoffset
      use t, rest, rfl
  · rintro ⟨next, rest, rfl, hkind⟩
    use next
    and_intros
    · rw [hlex]
      simp
    · rfl
    · apply hkind

/-- A fault of a line that does not count the parts is located, unless a token stands in
the place of a separator.  Then the fault speaks of that token, with the offset of what
comes after it, and is located only if this is a token of the same kind. -/
theorem parseDescriptor_located_iff {line : String} {fault : Fault}
    (h : parseDescriptor line = .error fault)
    (hcount : ∀ count, fault.found ≠ .components count) :
  (fault.Located line
      ↔ ∀ front token back, lex line = front ++ token :: back →
        MissesSeparator (front.map Token.kind) token.kind →
          ∃ next rest, back = next :: rest ∧ next.kind = token.kind)
    ∧ ∀ front token back, lex line = front ++ token :: back →
      MissesSeparator (front.map Token.kind) token.kind →
        fault.found = .token token.kind
          ∧ fault.offset = Token.nextOffset line.utf8ByteSize back
          ∧ token.offset < fault.offset
  := by
  have hpast : ∀ front token back, lex line = front ++ token :: back →
      MissesSeparator (front.map Token.kind) token.kind →
        fault.found = .token token.kind
          ∧ fault.offset = Token.nextOffset line.utf8ByteSize back := by
    intro front token back hlex hmiss
    obtain ⟨wanted, hrun⟩ :=
      TokenReader.run_descriptorLine_missesSeparator line.utf8ByteSize back hmiss
    rw [parseDescriptor_eq, hlex, hrun] at h
    obtain rfl := Except.error.inj h
    constructor <;> rfl
  constructor
  · constructor
    · intro hlocated front token back hlex hmiss
      obtain ⟨hfound, hoffset⟩ := hpast front token back hlex hmiss
      apply (located_iff_of_missesSeparator hlex hfound hoffset).mp hlocated
    · intro hnext
      rcases parseDescriptor_eq_error h with ⟨count, hc⟩ | hmade | ⟨t, ht, hoffset, hpart⟩
      · exact absurd hc (hcount count)
      · generalize hlex : lex line = tokens at hmade
        cases hmade with
        | atNext front back wanted => apply Fault.located_atNext hlex
        | past front back token wanted hmiss =>
          apply (located_iff_of_missesSeparator hlex rfl rfl).mpr
          apply hnext front token back hlex hmiss
      · rcases hpart with ⟨hset, hkind⟩ | hkind
        · apply Fault.located_of_set hset
          use t, ht, hoffset
        · apply (Fault.located_iff_of_token hkind).mpr
          use t, ht, hoffset
  · intro front token back hlex hmiss
    obtain ⟨hfound, hoffset⟩ := hpast front token back hlex hmiss
    use hfound, hoffset
    rw [hoffset]
    apply offset_lt_nextOffset hlex

/-- After the first part of this line, an equals sign stands in the place of a comma, and
the fault has the offset of the name after it. -/
theorem parseDescriptor_located_iff_equals :
  parseDescriptor "M=({q0}=q0)" = .error ⟨8, .listSeparator, .token .equals⟩
    ∧ ¬ Fault.Located ⟨8, .listSeparator, .token .equals⟩ "M=({q0}=q0)"
  := by
  have hfault : parseDescriptor "M=({q0}=q0)" = .error ⟨8, .listSeparator, .token .equals⟩ := by
    with_unfolding_all rfl
  have hlex : lex "M=({q0}=q0)"
      = [⟨.identifier "M", 0⟩, ⟨.equals, 1⟩, ⟨.openParen, 2⟩, ⟨.openBrace, 3⟩,
          ⟨.identifier "q0", 4⟩, ⟨.closeBrace, 6⟩]
        ++ ⟨.equals, 7⟩ :: [⟨.identifier "q0", 8⟩, ⟨.closeParen, 10⟩] := by
    with_unfolding_all rfl
  have hmiss : MissesSeparator
      (lineStart "M" ++ joined ([Component.set ["q0"]].map Component.kinds)) .equals := by
    apply MissesSeparator.afterPart
    use by decide, by decide, [.set ["q0"]], by decide
  use hfault
  intro hlocated
  obtain ⟨hiff, -⟩ := parseDescriptor_located_iff hfault fun count hcount => by cases hcount
  obtain ⟨next, rest, hback, hkind⟩ := hiff.mp hlocated _ _ _ hlex hmiss
  obtain ⟨rfl, -⟩ := List.cons.inj hback
  cases hkind

/-- In the set of this line, a name stands in the place of a comma, at the offset 7, and the
fault has the offset of the brace after it. -/
theorem not_located_unseparated :
  parseDescriptor "M=({q0 q1})" = .error ⟨9, .setSeparator, .token (.identifier "q1")⟩
    ∧ ¬ Fault.Located ⟨9, .setSeparator, .token (.identifier "q1")⟩ "M=({q0 q1})"
  := by
  have hlex : lex "M=({q0 q1})"
      = [⟨.identifier "M", 0⟩, ⟨.equals, 1⟩, ⟨.openParen, 2⟩, ⟨.openBrace, 3⟩,
        ⟨.identifier "q0", 4⟩, ⟨.identifier "q1", 7⟩, ⟨.closeBrace, 9⟩, ⟨.closeParen, 10⟩] := by
    with_unfolding_all rfl
  constructor
  · with_unfolding_all rfl
  · rw [Fault.located_iff_of_token rfl, hlex]
    decide

end Acceptor

import Acceptor.Description.DescriptorLine
import Mathlib.Tactic.Use

/-!
# Lists with commas

A list is read item by item.  After an item stands a comma, after which the list goes on,
or the mark that ends it.  `Begun` describes the tokens of items each of which is followed
by a comma and `Listed` those of items with commas between them.  `ListOutcome` tells the
ways in which the reading of a list can end: `listOutcome_run` says that there are no
others, and `run_listItems_listed` how the reading goes on after listed items.
-/

namespace Acceptor

/-- Items, as `Item` describes their tokens, each of which is followed by a comma. -/
inductive Begun {α : Type} (Item : List Token → α → Prop) : List Token → List α → Prop
  | nil : Begun Item [] []
  | cons {tokens : List Token} {a : α} {offset : Nat} {rest : List Token} {as : List α} :
      Item tokens a → Begun Item rest as →
        Begun Item (tokens ++ ⟨.comma, offset⟩ :: rest) (a :: as)

/-- Items, as `Item` describes their tokens, with a comma between each two; there is at
least one. -/
inductive Listed {α : Type} (Item : List Token → α → Prop) : List Token → List α → Prop
  | intro {front tokens : List Token} {as : List α} {a : α} :
      Begun Item front as → Item tokens a → Listed Item (front ++ tokens) (as ++ [a])

theorem Listed.ne_nil {α : Type} {Item : List Token → α → Prop} {front : List Token}
    {as : List α} (hl : Listed Item front as) :
  as ≠ []
  := by
  obtain ⟨-, -⟩ := hl
  simp

/-- Before the tokens of an item stand those of the items before it. -/
theorem Begun.exists_split
    {α : Type} {Item : List Token → α → Prop} {front : List Token} {before after : List α} {a : α}
    (hb : Begun Item front (before ++ a :: after)) :
  ∃ begun tokens rest, front = begun ++ tokens ++ rest ∧ Begun Item begun before ∧ Item tokens a
  := by
  induction before generalizing front with
  | nil =>
    cases hb with
    | @cons tokens _ offset rest _ hitem _ => use [], tokens, ⟨.comma, offset⟩ :: rest, rfl, .nil
  | cons b before ih =>
    cases hb with
    | @cons first _ offset rest _ hfirst hrest =>
      obtain ⟨begun, tokens, rest, rfl, hbegun, hitem⟩ := ih hrest
      use first ++ ⟨.comma, offset⟩ :: begun, tokens, rest
      and_intros
      · simp
      · apply Begun.cons hfirst hbegun
      · apply hitem

/-- Before the tokens of a listed item stand those of the items before it. -/
theorem Listed.exists_split
    {α : Type} {Item : List Token → α → Prop} {front : List Token} {before after : List α} {a : α}
    (hl : Listed Item front (before ++ a :: after)) :
  ∃ begun tokens rest, front = begun ++ tokens ++ rest ∧ Begun Item begun before ∧ Item tokens a
  := by
  generalize has : before ++ a :: after = as at hl
  obtain @⟨begun, last, as, b, hb, hlast⟩ := hl
  rcases after.eq_nil_or_concat with rfl | ⟨after, c, rfl⟩
  · obtain ⟨rfl, rfl⟩ := List.append_singleton_inj.mp has
    use begun, last, []
    rw [List.append_nil]
    use rfl, hb
  · rw [List.concat_eq_append, ← List.cons_append, ← List.append_assoc] at has
    obtain ⟨rfl, rfl⟩ := List.append_singleton_inj.mp has
    obtain ⟨begun, tokens, rest, rfl, hbegun, hitem⟩ := hb.exists_split
    use begun, tokens, rest ++ last
    rw [List.append_assoc _ rest]
    use rfl, hbegun

/-- The tokens of each of some listed items are among those of all. -/
theorem Listed.exists_of_mem
    {α : Type} {Item : List Token → α → Prop} {front : List Token} {as : List α} {a : α}
    (hl : Listed Item front as) (h : a ∈ as) :
  ∃ tokens, tokens ⊆ front ∧ Item tokens a
  := by
  obtain ⟨before, after, rfl⟩ := List.append_of_mem h
  obtain ⟨begun, tokens, rest, rfl, -, hitem⟩ := hl.exists_split
  use tokens
  constructor
  · intro token htoken
    simp [htoken]
  · apply hitem

/-- Tokens begin with as many items, each followed by a comma, as they can. -/
theorem exists_begun {α : Type} (Item : List Token → α → Prop) (items : List Token) :
  ∃ front as back, items = front ++ back ∧ Begun Item front as ∧
    ∀ tokens a offset rest, back = tokens ++ ⟨.comma, offset⟩ :: rest → ¬ Item tokens a
  := by
  induction hn : items.length using Nat.strongRecOn generalizing items with
  | ind n ih =>
  subst hn
  by_cases h : ∃ tokens a offset rest,
      items = tokens ++ ⟨.comma, offset⟩ :: rest ∧ Item tokens a
  · obtain ⟨tokens, a, offset, rest, rfl, ha⟩ := h
    have hlt : rest.length < (tokens ++ (⟨.comma, offset⟩ :: rest : List Token)).length := by
      simp only [List.length_append, List.length_cons]
      omega
    obtain ⟨front, as, back, rfl, hb, hback⟩ := ih _ hlt rest rfl
    use tokens ++ ⟨.comma, offset⟩ :: front, a :: as, back
    and_intros
    · simp
    · apply Begun.cons ha hb
    · apply hback
  · use [], [], items, rfl, .nil
    rintro tokens a offset rest rfl ha
    apply h ⟨tokens, a, offset, rest, rfl, ha⟩

/-! ### Kinds of the tokens of a list -/

/-- Kinds of tokens with a comma between each two groups. -/
def joined : List (List TokenKind) → List TokenKind
  | [] => []
  | ks :: kss => ks ++ kss.flatMap (TokenKind.comma :: ·)

theorem comma_joined (ks : List TokenKind) (kss : List (List TokenKind)) :
  (kss ++ [ks]).flatMap (TokenKind.comma :: ·)
    = .comma :: (kss.flatMap (· ++ [.comma]) ++ ks)
  := by
  induction kss with
  | nil => simp
  | cons k kss ih =>
    rw [List.cons_append, List.flatMap_cons, ih]
    simp

/-- All groups but the last one are followed by a comma. -/
theorem joined_concat (kss : List (List TokenKind)) (ks : List TokenKind) :
  joined (kss ++ [ks]) = kss.flatMap (· ++ [.comma]) ++ ks
  := by
  cases kss with
  | nil => simp [joined]
  | cons k kss =>
    rw [List.cons_append, joined, comma_joined]
    simp

section Kinds

variable {α β : Type} {Item : List Token → α → Prop}

/-- The kinds of the tokens of items that are each followed by a comma. -/
theorem Begun.map_kind
    {f : α → List TokenKind}
    (hf : ∀ tokens a, Item tokens a → tokens.map Token.kind = f a)
    {front : List Token} {as : List α} (hb : Begun Item front as) :
  front.map Token.kind = (as.map f).flatMap (· ++ [.comma])
  := by
  induction hb with
  | nil => rfl
  | cons ha _ ih =>
    rw [List.map_append, List.map_cons, hf _ _ ha, ih]
    simp

/-- The kinds of the tokens of listed items. -/
theorem Listed.map_kind
    {f : α → List TokenKind}
    (hf : ∀ tokens a, Item tokens a → tokens.map Token.kind = f a)
    {front : List Token} {as : List α} (hl : Listed Item front as) :
  front.map Token.kind = joined (as.map f)
  := by
  obtain ⟨hb, ha⟩ := hl
  rw [List.map_append, hb.map_kind hf, hf _ _ ha, List.map_append, List.map_singleton,
    joined_concat]

/-- Tokens of the kinds of items that are each followed by a comma stand for such
items. -/
theorem exists_begun_of_map_kind
    {f : β → List TokenKind} {g : α → β}
    (hf : ∀ tokens b, tokens.map Token.kind = f b → ∃ a, Item tokens a ∧ g a = b)
    {front : List Token} {bs : List β}
    (h : front.map Token.kind = (bs.map f).flatMap (· ++ [.comma])) :
  ∃ as, Begun Item front as ∧ as.map g = bs
  := by
  induction bs generalizing front with
  | nil =>
    obtain rfl := List.map_eq_nil_iff.mp h
    use [], .nil
    rfl
  | cons b bs ih =>
    rw [List.map_cons, List.flatMap_cons, List.append_assoc, List.singleton_append] at h
    obtain ⟨tokens, rest, rfl, htokens, hcomma⟩ := List.map_eq_append_iff.mp h
    obtain ⟨⟨_, offset⟩, rest, rfl, rfl, hrest⟩ := List.map_eq_cons_iff.mp hcomma
    obtain ⟨a, ha, rfl⟩ := hf _ _ htokens
    obtain ⟨as, hb, rfl⟩ := ih hrest
    use a :: as, .cons ha hb
    rfl

/-- Tokens of the kinds of listed items stand for such items. -/
theorem exists_listed_of_map_kind
    {f : β → List TokenKind} {g : α → β}
    (hf : ∀ tokens b, tokens.map Token.kind = f b → ∃ a, Item tokens a ∧ g a = b)
    {front : List Token} {bs : List β} (hbs : bs ≠ [])
    (h : front.map Token.kind = joined (bs.map f)) :
  ∃ as, Listed Item front as ∧ as.map g = bs
  := by
  obtain ⟨bs, b, rfl⟩ := bs.eq_nil_or_concat.resolve_left hbs
  rw [List.concat_eq_append, List.map_append, List.map_singleton, joined_concat] at h
  obtain ⟨front, tokens, rfl, hfront, htokens⟩ := List.map_eq_append_iff.mp h
  obtain ⟨as, hb, rfl⟩ := exists_begun_of_map_kind hf hfront
  obtain ⟨a, ha, rfl⟩ := hf _ _ htokens
  use as ++ [a], .intro hb ha
  simp

end Kinds

namespace TokenReader

variable {α : Type} {endOffset : Nat} {close : TokenKind} {wanted separator : Wanted}
variable {item : Token → TokenReader α} {Item : List Token → α → Prop}

/-- The values that `item` reads off some tokens are those that `Item` describes. -/
def ReadsAs (item : Token → TokenReader α) (Item : List Token → α → Prop) : Prop :=
  ∀ token ahead a rest, (item token).run ahead = .ok (a, rest)
    ↔ ∃ tokens, token :: ahead = tokens ++ rest ∧ Item tokens a

/-- A described item has a first token, from which it is read. -/
theorem ReadsAs.run
    (h : ReadsAs item Item) {tokens : List Token} {a : α} (ha : Item tokens a)
    (rest : List Token) :
  ∃ token ahead, tokens ++ rest = token :: ahead ∧ (item token).run ahead = .ok (a, rest)
  := by
  cases tokens with
  | nil =>
    have hr := (h default rest a (default :: rest)).mpr ⟨[], rfl, ha⟩
    have := (item default).length_le hr
    simp only [List.length_cons] at this
    omega
  | cons token tokens =>
    use token, tokens ++ rest, rfl
    apply (h token (tokens ++ rest) a rest).mpr
    use token :: tokens, rfl

/-! ### Separators -/

theorem run_listSeparator_comma (done : List α) (offset : Nat) (rest : List Token) :
  (listSeparator endOffset close separator done).run (⟨.comma, offset⟩ :: rest)
    = .ok (.inl done, rest)
  := rfl

theorem run_listSeparator_close (hclose : close ≠ .comma) (done : List α) (offset : Nat)
    (rest : List Token) :
  (listSeparator endOffset close separator done).run (⟨close, offset⟩ :: rest)
    = .ok (.inr done.reverse, rest)
  := by
  rw [listSeparator, Reader.run_bind_of_ok (Reader.run_item _)]
  simp only [List.head?_cons, List.tail_cons, if_neg hclose, if_true]
  rfl

theorem run_listSeparator_of_ne {token : Token} (hcomma : token.kind ≠ .comma)
    (hclose : token.kind ≠ close) (done : List α) (rest : List Token) :
  (listSeparator endOffset close separator done).run (token :: rest)
    = .error ⟨Token.nextOffset endOffset rest, separator, .token token.kind⟩
  := by
  rw [listSeparator, Reader.run_bind_of_ok (Reader.run_item _)]
  simp only [List.head?_cons, List.tail_cons, if_neg hcomma, if_neg hclose]
  rfl

theorem run_listSeparator_nil (done : List α) :
  (listSeparator endOffset close separator done).run []
    = .error ⟨endOffset, .token close, .endOfInput⟩
  := rfl

/-! ### The reading of a list -/

/-- After an item, the reading of a list goes on as the separator says. -/
theorem run_listItems_item
    (h : ReadsAs item Item) {tokens : List Token} {a : α} (ha : Item tokens a)
    (done : List α) (rest : List Token) :
  (listItems endOffset close wanted separator item done).run (tokens ++ rest) =
    match (listSeparator endOffset close separator (a :: done)).run rest with
    | .error e => .error e
    | .ok (.inr as, rest) => .ok (as, rest)
    | .ok (.inl done, rest) =>
      (listItems endOffset close wanted separator item done).run rest
  := by
  obtain ⟨token, ahead, htokens, hr⟩ := h.run ha rest
  rw [htokens, listItems, Reader.run_loop_cons, Reader.run_bind_of_ok hr]
  rcases (listSeparator endOffset close separator (a :: done)).run rest with
    _ | ⟨_ | _, _⟩ <;> rfl

/-- The reading of a list gets past items that are each followed by a comma. -/
theorem run_listItems_begun
    (h : ReadsAs item Item) {front : List Token} {as : List α} (hb : Begun Item front as)
    (done : List α) (back : List Token) :
  (listItems endOffset close wanted separator item done).run (front ++ back)
    = (listItems endOffset close wanted separator item (as.reverse ++ done)).run back
  := by
  induction hb generalizing done with
  | nil => rfl
  | cons ha _ ih =>
    rw [List.append_assoc, run_listItems_item h ha, List.cons_append,
      run_listSeparator_comma]
    dsimp only
    rw [ih, List.reverse_cons, List.append_assoc, List.singleton_append]

/-- After listed items, the reading of a list goes on as the separator says. -/
theorem run_listItems_listed
    (h : ReadsAs item Item) {front : List Token} {as : List α} (hl : Listed Item front as)
    (rest : List Token) :
  (listItems endOffset close wanted separator item []).run (front ++ rest) =
    match (listSeparator endOffset close separator as.reverse).run rest with
    | .error e => .error e
    | .ok (.inr as, rest) => .ok (as, rest)
    | .ok (.inl done, rest) =>
      (listItems endOffset close wanted separator item done).run rest
  := by
  obtain ⟨hb, ha⟩ := hl
  rw [List.append_assoc, run_listItems_begun h hb, run_listItems_item h ha,
    List.append_nil, List.reverse_concat]

/-- Listed items and the mark that ends them are read. -/
theorem run_listItems_ended
    (h : ReadsAs item Item) (hclose : close ≠ .comma) {front : List Token} {as : List α}
    (hl : Listed Item front as) (offset : Nat) (rest : List Token) :
  (listItems endOffset close wanted separator item []).run (front ++ ⟨close, offset⟩ :: rest)
    = .ok (as, rest)
  := by
  rw [run_listItems_listed h hl, run_listSeparator_close hclose]
  dsimp only
  rw [List.reverse_reverse]

/-- Listed items are not read when something else than a separator follows. -/
theorem run_listItems_noSeparator
    (h : ReadsAs item Item) {front : List Token} {as : List α} (hl : Listed Item front as)
    {token : Token} (hcomma : token.kind ≠ .comma) (hclose : token.kind ≠ close)
    (rest : List Token) :
  (listItems endOffset close wanted separator item []).run (front ++ token :: rest)
    = .error ⟨Token.nextOffset endOffset rest, separator, .token token.kind⟩
  := by
  rw [run_listItems_listed h hl, run_listSeparator_of_ne hcomma hclose]

/-- Items that are each followed by a comma are not read as a list when what follows is
not read as an item. -/
theorem run_listItems_noItem
    (h : ReadsAs item Item) {front : List Token} {as : List α} (hb : Begun Item front as)
    {token : Token} {ahead : List Token} {fault : Fault}
    (hf : (item token).run ahead = .error fault) :
  (listItems endOffset close wanted separator item []).run (front ++ token :: ahead)
    = .error fault
  := by
  rw [run_listItems_begun h hb, listItems, Reader.run_loop_cons, Reader.run_bind_of_error hf]

/-! ### How the reading of a list ends -/

/-- The ways in which the reading of a list ends. -/
inductive ListOutcome
    (endOffset : Nat) (close : TokenKind) (wanted separator : Wanted)
    (item : Token → TokenReader α) (Item : List Token → α → Prop) :
    List Token → Except Fault (List α × List Token) → Prop
  /-- The list is ended by its mark. -/
  | ended {front : List Token} {as : List α} (offset : Nat) (rest : List Token) :
      Listed Item front as →
        ListOutcome endOffset close wanted separator item Item
          (front ++ ⟨close, offset⟩ :: rest) (.ok (as, rest))
  /-- Something else stands after an item. -/
  | noSeparator {front : List Token} {as : List α} {token : Token} (rest : List Token) :
      Listed Item front as → token.kind ≠ .comma → token.kind ≠ close →
        ListOutcome endOffset close wanted separator item Item (front ++ token :: rest)
          (.error ⟨Token.nextOffset endOffset rest, separator, .token token.kind⟩)
  /-- Nothing stands after an item. -/
  | noSeparatorAtEnd {front : List Token} {as : List α} :
      Listed Item front as →
        ListOutcome endOffset close wanted separator item Item front
          (.error ⟨endOffset, .token close, .endOfInput⟩)
  /-- What is ahead is no item. -/
  | noItem {front ahead : List Token} {as : List α} {token : Token} {fault : Fault} :
      Begun Item front as → (item token).run ahead = .error fault →
        ListOutcome endOffset close wanted separator item Item
          (front ++ token :: ahead) (.error fault)
  /-- Nothing stands in the place of an item. -/
  | noItemAtEnd {front : List Token} {as : List α} :
      Begun Item front as →
        ListOutcome endOffset close wanted separator item Item front
          (.error ⟨endOffset, wanted, .endOfInput⟩)

/-- The reading of a list ends in one of the ways that `ListOutcome` tells. -/
theorem listOutcome_run
    (h : ReadsAs item Item) (hclose : close ≠ .comma) (items : List Token) :
  ListOutcome endOffset close wanted separator item Item items
    ((listItems endOffset close wanted separator item []).run items)
  := by
  obtain ⟨front, as, back, rfl, hb, hback⟩ := exists_begun Item items
  cases back with
  | nil =>
    rw [run_listItems_begun h hb, listItems, Reader.run_loop_nil, List.append_nil]
    apply ListOutcome.noItemAtEnd hb
  | cons token ahead =>
    cases hr : (item token).run ahead with
    | error fault =>
      rw [run_listItems_noItem h hb hr]
      apply ListOutcome.noItem hb hr
    | ok result =>
      obtain ⟨a, rest⟩ := result
      obtain ⟨tokens, htokens, ha⟩ := (h token ahead a rest).mp hr
      have hl := Listed.intro hb ha
      rw [htokens, ← List.append_assoc]
      cases rest with
      | nil =>
        rw [run_listItems_listed h hl, run_listSeparator_nil, List.append_nil]
        apply ListOutcome.noSeparatorAtEnd hl
      | cons next rest =>
        obtain ⟨kind, offset⟩ := next
        by_cases hk : kind = close
        · obtain rfl := hk
          rw [run_listItems_ended h hclose hl]
          apply ListOutcome.ended offset rest hl
        · have hcomma : kind ≠ .comma := by
            rintro rfl
            apply hback tokens a offset rest htokens ha
          rw [run_listItems_noSeparator h hl hcomma hk]
          apply ListOutcome.noSeparator rest hl hcomma hk

end TokenReader

end Acceptor

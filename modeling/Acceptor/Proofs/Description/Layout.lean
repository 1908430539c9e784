import Acceptor.Description.Lexer
import Acceptor.Proofs.Description.Lexing
import Mathlib.Logic.ExistsUnique

/-!
# Tokens in their text

`Layout` says how a text is made up of blanks and of tokens: a name is followed by no character
of a name, so that it is as long as it can be.  The tokens that `lexFrom` lists are laid out in
their text (`layout_lexFrom`), and all that is known of their offsets follows from this: they
grow, and the characters of a token stand at its offset.  A character of a text is a blank or
belongs to exactly one token (`lex_partition`).
-/

namespace Acceptor

/-- The byte offset at which a token ends. -/
def Token.stop (t : Token) : Nat :=
  t.offset + byteLength t.kind.chars

/-- The byte at `position` belongs to the token. -/
def Token.Covers (t : Token) (position : Nat) : Prop :=
  t.offset ≤ position ∧ position < t.stop

/-- A token of kind `k` ends before `rest`: a name has characters, all of which may stand in a
name, and the next character may not. -/
def TokenKind.EndsBefore : TokenKind → List Char → Prop
  | .identifier name, rest => isIdentifier name = true ∧ Reader.StopsBefore isNameChar rest
  | _, _ => True

/-- A text that starts at a given byte offset consists of blanks and of tokens, each of which
ends before what comes after it. -/
inductive Layout : Nat → List Char → List Token → Prop
  | nil (offset : Nat) : Layout offset [] []
  | blank {offset : Nat} {c : Char} {cs : List Char} {ts : List Token} :
      isBlank c = true → Layout (offset + c.utf8Size) cs ts → Layout offset (c :: cs) ts
  | token {offset : Nat} {k : TokenKind} {rest : List Char} {ts : List Token} :
      k.EndsBefore rest → Layout (offset + byteLength k.chars) rest ts →
        Layout offset (k.chars ++ rest) (⟨k, offset⟩ :: ts)

/-! ### Single tokens -/

namespace TokenKind

theorem chars_of_ofMark? {c : Char} {mark : TokenKind} (h : ofMark? c = some mark) :
  mark.chars = [c]
  := by
  unfold ofMark? at h
  split at h <;> cases h <;> rfl

theorem endsBefore_of_ofMark? {c : Char} {mark : TokenKind} (h : ofMark? c = some mark)
    (rest : List Char) :
  mark.EndsBefore rest
  := by
  cases mark with
  | identifier name => exact absurd h (ofMark?_ne_identifier c name)
  | _ => trivial

variable {k : TokenKind} {rest : List Char}

theorem EndsBefore.chars_ne_nil (h : k.EndsBefore rest) :
  k.chars ≠ []
  := by
  rcases k.identifier_or_mark with ⟨name, rfl⟩ | ⟨c, hc, -⟩
  · apply (isIdentifier_iff.mp h.1).1
  · rw [hc]
    apply List.cons_ne_nil

theorem EndsBefore.byteLength_pos (h : k.EndsBefore rest) :
  0 < byteLength k.chars
  := by
  obtain ⟨c, cs, hchars⟩ := List.exists_cons_of_ne_nil h.chars_ne_nil
  have hpos := c.utf8Size_pos
  rw [hchars, byteLength_cons]
  omega

/-- No character of a token is a blank. -/
theorem EndsBefore.isBlank_of_mem (h : k.EndsBefore rest) {c : Char} (hc : c ∈ k.chars) :
  isBlank c = false
  := by
  apply k.isBlank_of_mem_chars _ hc
  rintro name rfl
  apply h.1

/-- A token right after which a name begins is a mark. -/
theorem EndsBefore.isNameChar_of_not_stopsBefore
    (h : k.EndsBefore rest) (hrest : ¬ Reader.StopsBefore isNameChar rest) {c : Char}
    (hc : c ∈ k.chars) :
  isNameChar c = false
  := by
  rcases k.identifier_or_mark with ⟨name, rfl⟩ | ⟨d, hd, hm⟩
  · exact absurd h.2 hrest
  · rw [hd, List.mem_singleton] at hc
    rw [hc]
    apply isNameChar_of_ofMark? hm

end TokenKind

/-- A text that begins with a name does not stop before its characters. -/
theorem not_stopsBefore_name {name : String} (h : isIdentifier name = true) (after : List Char) :
  ¬ Reader.StopsBefore isNameChar (name.toList ++ after)
  := by
  obtain ⟨hne, hall⟩ := isIdentifier_iff.mp h
  obtain ⟨c, cs, hname⟩ := List.exists_cons_of_ne_nil hne
  rw [hname, List.cons_append, Reader.stopsBefore_cons, Bool.not_eq_false]
  apply hall
  rw [hname]
  apply List.mem_cons_self

/-! ### The tokens of a text -/

/-- The tokens of a text are laid out in it. -/
theorem layout_lexFrom (offset : Nat) (cs : List Char) :
  Layout offset cs (lexFrom offset cs)
  := by
  induction offset, cs using lexFrom_induction with
  | nil offset =>
    rw [lexFrom_nil]
    apply Layout.nil
  | blank offset c cs hb ih =>
    rw [lexFrom_blank hb]
    apply Layout.blank hb ih
  | mark offset c cs mark hm ih =>
    have hlayout := @Layout.token offset mark cs (lexFrom (offset + c.utf8Size) cs)
      (TokenKind.endsBefore_of_ofMark? hm cs)
    rw [TokenKind.chars_of_ofMark? hm] at hlayout
    rw [lexFrom_mark (isBlank_of_ofMark? hm) hm]
    apply hlayout ih
  | name offset c cs hc ih =>
    have hlayout := @Layout.token offset
      (.identifier (String.ofList (c :: cs.takeWhile isNameChar))) (cs.dropWhile isNameChar)
      (lexFrom (offset + byteLength (c :: cs.takeWhile isNameChar)) (cs.dropWhile isNameChar))
      ⟨isIdentifier_ofList hc List.all_takeWhile, Reader.stopsBefore_dropWhile isNameChar cs⟩
    rw [TokenKind.chars, String.toList_ofList, List.cons_append,
      List.takeWhile_append_dropWhile] at hlayout
    rw [lexFrom_name hc]
    apply hlayout ih

/-- What is laid out in a text are its tokens. -/
theorem Layout.lexFrom_eq {offset : Nat} {cs : List Char} {ts : List Token}
    (h : Layout offset cs ts) :
  lexFrom offset cs = ts
  := by
  induction h with
  | nil offset => apply lexFrom_nil
  | blank hc _ ih => rw [lexFrom_blank hc, ih]
  | @token offset k rest ts hk _ ih =>
    rcases k.identifier_or_mark with ⟨name, rfl⟩ | ⟨c, hc, hmark⟩
    · rw [TokenKind.chars] at ih ⊢
      rw [lexFrom_identifier hk.1 hk.2, ih]
    · rw [hc] at ih ⊢
      rw [List.singleton_append, lexFrom_mark (isBlank_of_ofMark? hmark) hmark]
      rw [byteLength_cons, byteLength_nil, Nat.add_zero] at ih
      rw [ih]

/-- The last character of two texts together is that of the second, unless it is empty. -/
theorem mem_getLast?_append {xs ys : List Char} {c : Char} (h : c ∈ (xs ++ ys).getLast?) :
  c ∈ ys.getLast? ∨ ys = [] ∧ c ∈ xs
  := by
  rcases ys.eq_nil_or_concat with rfl | ⟨ys, d, rfl⟩
  · right
    rw [List.append_nil] at h
    use rfl, List.mem_of_getLast? h
  · left
    rw [List.concat_eq_append, ← List.append_assoc, List.getLast?_append] at h
    rw [List.concat_eq_append, List.getLast?_append]
    exact h

/-- A character of two texts together is one of the first or one of the second. -/
theorem append_eq_append_cons_cases
    {xs ys before after : List Char} {c : Char} (h : xs ++ ys = before ++ c :: after) :
  (∃ more, before = xs ++ more ∧ ys = more ++ c :: after)
    ∨ ∃ more, xs = before ++ c :: more
  := by
  rcases List.append_eq_append_iff.mp h with ⟨more, rfl, rfl⟩ | ⟨more, rfl, hcons⟩
  · left
    use more
  · cases more with
    | nil =>
      left
      use []
      rw [List.append_nil, List.append_nil]
      use rfl, hcons.symm
    | cons d more =>
      right
      obtain ⟨rfl, -⟩ := List.cons.inj hcons
      use more

/-- A token stands between two parts of a text that starts at a given byte offset, and a name
is not part of a longer one. -/
structure Token.Between (t : Token) (offset : Nat) (before after : List Char) : Prop where
  offset_eq : t.offset = offset + byteLength before
  endsBefore : t.kind.EndsBefore after
  /-- The character before a name does not belong to a name. -/
  begins : ∀ name, t.kind = .identifier name → ∀ c ∈ before.getLast?, isNameChar c = false

namespace Layout

variable {offset : Nat} {cs : List Char} {ts : List Token}

/-- The characters of a token stand at its offset. -/
theorem exists_between (h : Layout offset cs ts) {t : Token} (ht : t ∈ ts) :
  ∃ before after, cs = before ++ t.kind.chars ++ after ∧ t.Between offset before after
  := by
  induction h with
  | nil => cases ht
  | @blank offset c cs ts hc _ ih =>
    obtain ⟨before, after, rfl, hoffset, hends, hbegins⟩ := ih ht
    use c :: before, after, rfl
    constructor
    · rw [hoffset, byteLength_cons, Nat.add_assoc]
    · apply hends
    · intro name hname d hd
      rcases @mem_getLast?_append [c] before d hd with hd | ⟨-, hd⟩
      · apply hbegins name hname d hd
      · rw [List.mem_singleton.mp hd]
        apply isNameChar_of_isBlank hc
  | @token offset k rest ts hk _ ih =>
    rcases List.mem_cons.mp ht with rfl | ht
    · use [], rest, rfl
      use rfl, hk
      nofun
    · obtain ⟨before, after, rfl, hoffset, hends, hbegins⟩ := ih ht
      use k.chars ++ before, after
      constructor
      · rw [List.append_assoc, List.append_assoc, List.append_assoc]
      constructor
      · rw [hoffset, byteLength_append, Nat.add_assoc]
      · apply hends
      · intro name hname d hd
        rcases mem_getLast?_append hd with hd | ⟨hnil, hd⟩
        · apply hbegins name hname d hd
        · apply hk.isNameChar_of_not_stopsBefore _ hd
          rw [hnil, List.nil_append, hname]
          rw [hname] at hends
          apply not_stopsBefore_name hends.1

/-- A token does not stand before its text. -/
theorem offset_le (h : Layout offset cs ts) {t : Token} (ht : t ∈ ts) :
  offset ≤ t.offset
  := by
  obtain ⟨before, after, -, hoffset, -, -⟩ := h.exists_between ht
  rw [hoffset]
  apply Nat.le_add_right

/-- A token ends where the next one starts, or earlier. -/
theorem pairwise_stop (h : Layout offset cs ts) :
  ts.Pairwise fun s t => s.stop ≤ t.offset
  := by
  induction h with
  | nil => apply List.Pairwise.nil
  | blank _ _ ih => apply ih
  | token _ hrest ih =>
    apply List.Pairwise.cons _ ih
    intro t ht
    apply hrest.offset_le ht

/-- A character of a text belongs to a token unless it is a blank. -/
theorem covered_iff
    (h : Layout offset cs ts) {before after : List Char} {c : Char}
    (hcs : cs = before ++ c :: after) :
  (∃ t ∈ ts, t.Covers (offset + byteLength before)) ↔ isBlank c = false
  := by
  induction h generalizing before with
  | nil => cases before <;> cases hcs
  | @blank offset d cs ts hd hlayout ih =>
    cases before with
    | nil =>
      obtain ⟨rfl, rfl⟩ := List.cons.inj hcs
      -- What comes after a blank does not reach back to it.
      have hpos := d.utf8Size_pos
      rw [byteLength_nil, Nat.add_zero, hd]
      constructor
      · rintro ⟨t, ht, hle, -⟩
        have := hlayout.offset_le ht
        omega
      · nofun
    | cons _ before =>
      obtain ⟨rfl, rfl⟩ := List.cons.inj hcs
      rw [byteLength_cons, ← Nat.add_assoc]
      apply ih rfl
  | @token offset k rest ts hk hlayout ih =>
    simp only [List.mem_cons, exists_eq_or_imp]
    rcases append_eq_append_cons_cases hcs with ⟨more, rfl, rfl⟩ | ⟨more, hchars⟩
    · have hfirst : ¬ Token.Covers ⟨k, offset⟩ (offset + byteLength (k.chars ++ more)) := by
        rintro ⟨-, hlt⟩
        rw [byteLength_append] at hlt
        apply absurd hlt
        dsimp only [Token.stop]
        omega
      rw [or_iff_right hfirst, byteLength_append, ← Nat.add_assoc]
      apply ih rfl
    · have hfirst : Token.Covers ⟨k, offset⟩ (offset + byteLength before) := by
        have hpos := c.utf8Size_pos
        use Nat.le_add_right _ _
        rw [Token.stop, hchars, byteLength_append, byteLength_cons]
        dsimp only
        omega
      have hc : isBlank c = false := by
        apply hk.isBlank_of_mem
        rw [hchars]
        simp
      rw [hc]
      use fun _ => rfl, fun _ => .inl hfirst

end Layout

/-! ### Offsets -/

variable {text : String} {s t : Token}

/-- A token of a text stands between two parts of it. -/
theorem exists_between_of_mem_lex (h : t ∈ lex text) :
  ∃ before after, text.toList = before ++ t.kind.chars ++ after ∧ t.Between 0 before after
  := (layout_lexFrom 0 text.toList).exists_between h

/-- Every token ends inside its text, and after its beginning. -/
theorem offset_lt_stop_of_mem_lex (h : t ∈ lex text) :
  t.offset < t.stop ∧ t.stop ≤ text.utf8ByteSize
  := by
  obtain ⟨before, after, htext, hoffset, hends, -⟩ := exists_between_of_mem_lex h
  have hpos := hends.byteLength_pos
  rw [← byteLength_toList, htext, byteLength_append, byteLength_append, Token.stop, hoffset]
  omega

theorem pairwise_stop_lex (text : String) :
  (lex text).Pairwise fun s t => s.stop ≤ t.offset
  := (layout_lexFrom 0 text.toList).pairwise_stop

/-- The offsets of tokens grow. -/
theorem pairwise_offset_lex (text : String) :
  (lex text).Pairwise fun s t => s.offset < t.offset
  := by
  apply (pairwise_stop_lex text).imp_of_mem
  intro s t hs _ hle
  apply Nat.lt_of_lt_of_le (offset_lt_stop_of_mem_lex hs).1 hle

/-- No two tokens of a text cover the same place. -/
theorem eq_of_covers (hs : s ∈ lex text) (ht : t ∈ lex text) {position : Nat}
    (hscovers : s.Covers position) (htcovers : t.Covers position) :
  s = t
  := by
  let R : Token → Token → Prop := fun s t => s.Covers position → t.Covers position → s = t
  have hrefl : ∀ t ∈ lex text, R t t := by
    intro t _ _ _
    rfl
  have hright : (lex text).Pairwise R := by
    apply (pairwise_stop_lex text).imp
    intro s t hle hs ht
    exact absurd (Nat.lt_of_lt_of_le hs.2 (Nat.le_trans hle ht.1)) (Nat.lt_irrefl _)
  have hleft : (lex text).Pairwise (flip R) := by
    apply (pairwise_stop_lex text).imp
    intro s t hle ht hs
    exact absurd (Nat.lt_of_lt_of_le hs.2 (Nat.le_trans hle ht.1)) (Nat.lt_irrefl _)
  apply hright.forall_of_forall_of_flip hrefl hleft hs ht hscovers htcovers

/-- No two tokens of a text stand at the same offset. -/
theorem eq_of_offset_eq (hs : s ∈ lex text) (ht : t ∈ lex text) (h : s.offset = t.offset) :
  s = t
  := by
  apply eq_of_covers hs ht ⟨Nat.le_refl _, (offset_lt_stop_of_mem_lex hs).1⟩
  rw [h]
  use Nat.le_refl _, (offset_lt_stop_of_mem_lex ht).1

/-- The names among the tokens of a text can be written. -/
theorem isIdentifier_of_mem_lex (text : String) {name : String}
    (h : .identifier name ∈ (lex text).map Token.kind) :
  isIdentifier name = true
  := by
  obtain ⟨⟨kind, offset⟩, ht, rfl⟩ := List.mem_map.mp h
  obtain ⟨before, after, -, hbetween⟩ := exists_between_of_mem_lex ht
  apply hbetween.endsBefore.1

/-! ### Calls of the lexer -/

/-- Blanks ahead make no difference to the tokens. -/
theorem lexFrom_dropWhile (offset : Nat) (cs : List Char) :
  lexFrom (offset + byteLength (cs.takeWhile isBlank)) (cs.dropWhile isBlank) = lexFrom offset cs
  := by
  induction cs generalizing offset with
  | nil => rfl
  | cons c cs ih =>
    by_cases hc : isBlank c = true
    · rw [List.takeWhile_cons_of_pos hc, List.dropWhile_cons_of_pos hc, byteLength_cons,
        ← Nat.add_assoc, ih, lexFrom_blank hc]
    · rw [List.takeWhile_cons_of_neg hc, List.dropWhile_cons_of_neg hc, byteLength_nil,
        Nat.add_zero]

namespace Lexer

/-- A call yields the first of the tokens ahead, and leaves the others ahead. -/
theorem next_eq (l : Lexer) :
  l.next.1 = l.tokens.head? ∧ l.next.2.tokens = l.tokens.tail
  := by
  have hblank := Reader.stopsBefore_dropWhile isBlank l.rest
  rw [tokens, ← lexFrom_dropWhile, next]
  generalize l.rest.dropWhile isBlank = rest at hblank
  cases rest with
  | nil =>
    rw [lexFrom_nil]
    use rfl
    apply lexFrom_nil
  | cons c cs =>
    rw [Reader.stopsBefore_cons] at hblank
    cases hm : TokenKind.ofMark? c with
    | some mark =>
      rw [lexFrom_mark hblank hm]
      simp only [hm]
      use rfl
      rfl
    | none =>
      rw [lexFrom_name (isNameChar_of_ne hblank hm)]
      simp only [hm]
      use rfl
      rfl

theorem calls_succ (l : Lexer) (n : Nat) :
  l.calls (n + 1) = l.next.1 :: l.next.2.calls n
  := rfl

/-- When no tokens are ahead, every call yields nothing. -/
theorem calls_of_tokens_eq_nil {l : Lexer} (h : l.tokens = []) (n : Nat) :
  l.calls n = List.replicate n none
  := by
  induction n generalizing l with
  | zero => rfl
  | succ n ih =>
    obtain ⟨hhead, htail⟩ := l.next_eq
    rw [h] at hhead htail
    rw [calls_succ, hhead, ih htail]
    rfl

/-- The tokens ahead are yielded one after the other, and after them nothing. -/
theorem calls_eq (l : Lexer) (n : Nat) :
  l.calls (l.tokens.length + n) = l.tokens.map some ++ List.replicate n none
  := by
  generalize hts : l.tokens = ts
  induction ts generalizing l with
  | nil =>
    rw [List.length_nil, Nat.zero_add, calls_of_tokens_eq_nil hts]
    rfl
  | cons t ts ih =>
    obtain ⟨hhead, htail⟩ := l.next_eq
    rw [hts] at hhead htail
    rw [List.length_cons, Nat.add_right_comm, calls_succ, hhead, ih _ htail]
    rfl

end Lexer

/-! ### The partition of a text -/

/-- The tokens of a text stand in it one after the other, each with its characters at its
offset.  No character of a token is a blank, and an identifier consists of characters of names
and is not part of a longer one.  A character of the text belongs to exactly one token, unless
it is a blank, which belongs to none.  Calls of the lexer yield the tokens, and then nothing any
more. -/
theorem lex_partition (text : String) :
  (lex text).Pairwise (fun s t => s.offset < t.offset)
    ∧ (∀ t ∈ lex text, ∃ before after,
        text.toList = before ++ t.kind.chars ++ after ∧ t.offset = byteLength before
          ∧ (∀ c ∈ t.kind.chars, isBlank c = false)
          ∧ ∀ name, t.kind = .identifier name →
            name ≠ "" ∧ (∀ c ∈ name.toList, isNameChar c = true)
              ∧ (∀ c ∈ before.getLast?, isNameChar c = false)
              ∧ ∀ c ∈ after.head?, isNameChar c = false)
    ∧ (∀ before c after, text.toList = before ++ c :: after →
        (isBlank c = false → ∃! t, t ∈ lex text ∧ t.Covers (byteLength before))
          ∧ (isBlank c = true → ∀ t ∈ lex text, ¬ t.Covers (byteLength before)))
    ∧ ∀ n, (Lexer.ofText text).calls ((lex text).length + n)
      = (lex text).map some ++ List.replicate n none
  := by
  and_intros
  · apply pairwise_offset_lex
  · intro t ht
    obtain ⟨before, after, htext, hoffset, hends, hbegins⟩ := exists_between_of_mem_lex ht
    rw [Nat.zero_add] at hoffset
    use before, after, htext, hoffset
    constructor
    · intro c hc
      apply hends.isBlank_of_mem hc
    · intro name hname
      rw [hname] at hends
      obtain ⟨hne, hchars⟩ := isIdentifier_iff.mp hends.1
      and_intros
      · rwa [Ne, ← String.toList_eq_nil_iff]
      · apply hchars
      · apply hbegins name hname
      · apply hends.2
  · intro before c after htext
    have hcovered := (layout_lexFrom 0 text.toList).covered_iff htext
    rw [Nat.zero_add] at hcovered
    constructor
    · intro hc
      obtain ⟨t, ht, hcovers⟩ := hcovered.mpr hc
      use t, ⟨ht, hcovers⟩
      rintro s ⟨hs, hs'⟩
      apply eq_of_covers hs ht hs' hcovers
    · intro hc t ht hcovers
      rw [hcovered.mp ⟨t, ht, hcovers⟩] at hc
      cases hc
  · intro n
    apply (Lexer.ofText text).calls_eq

/-- After an identifier of two bytes comes a blank of three. -/
example : (Lexer.ofText "é\u2003=").calls 4
    = [some ⟨.identifier "é", 0⟩, some ⟨.equals, 5⟩, none, none] := by
  decide

end Acceptor

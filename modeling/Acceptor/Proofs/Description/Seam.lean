import Acceptor.Proofs.Description.Layout

/-!
# Texts put together

When two texts are put together, the tokens of the second one come after those of the first one,
later by the length of the first text.  This is so of every text laid out in blanks and tokens
(`Layout.append`), unless a name goes on over the seam; its two parts are then one name, and no
other token changes (`Layout.append_name`).
-/

namespace Acceptor

/-- A token that stands `n` bytes later. -/
def Token.shift (n : Nat) (t : Token) : Token :=
  ⟨t.kind, n + t.offset⟩

/-! ### Seams -/

/-- The last character may stand in a name. -/
def EndsInName (xs : List Char) : Prop :=
  ∃ c ∈ xs.getLast?, isNameChar c = true

/-- The first character may stand in a name. -/
def BeginsInName (ys : List Char) : Prop :=
  ∃ c ∈ ys.head?, isNameChar c = true

/-- A name goes on over the seam of two texts. -/
def JoinsNames (xs ys : List Char) : Prop :=
  EndsInName xs ∧ BeginsInName ys

section Seams

variable {front rest ys : List Char} {c : Char}

@[simp]
theorem not_endsInName_nil :
  ¬ EndsInName []
  := by
  rintro ⟨c, hc, -⟩
  cases hc

@[simp]
theorem endsInName_singleton :
  EndsInName [c] ↔ isNameChar c = true
  := by
  simp [EndsInName]

/-- The end of a text is that of its rest, unless nothing is left. -/
theorem endsInName_append (hne : rest ≠ []) :
  EndsInName (front ++ rest) ↔ EndsInName rest
  := by
  rw [EndsInName, EndsInName, List.getLast?_append, List.getLast?_eq_some_getLast hne,
    Option.some_or]

/-- A name ends in itself. -/
theorem endsInName_name {name : String} (h : isIdentifier name = true) :
  EndsInName name.toList
  := by
  obtain ⟨hne, hall⟩ := isIdentifier_iff.mp h
  use name.toList.getLast hne, List.getLast?_eq_some_getLast hne
  apply hall _ (List.getLast_mem hne)

/-- Two names in a row make a name. -/
theorem isIdentifier_append {name next : String} (h : isIdentifier name = true)
    (h' : isIdentifier next = true) :
  isIdentifier (name ++ next) = true
  := by
  obtain ⟨hne, hall⟩ := isIdentifier_iff.mp h
  obtain ⟨-, hall'⟩ := isIdentifier_iff.mp h'
  rw [isIdentifier_iff, String.toList_append, List.forall_mem_append]
  use List.append_ne_nil_of_left_ne_nil hne _, hall, hall'

@[simp]
theorem not_beginsInName_nil :
  ¬ BeginsInName []
  := by
  rintro ⟨c, hc, -⟩
  cases hc

@[simp]
theorem beginsInName_cons :
  BeginsInName (c :: rest) ↔ isNameChar c = true
  := by
  simp [BeginsInName]

theorem stopsBefore_of_not_beginsInName (h : ¬ BeginsInName ys) :
  Reader.StopsBefore isNameChar ys
  := by
  intro c hc
  rw [← Bool.not_eq_true]
  intro hname
  apply h ⟨c, hc, hname⟩

theorem JoinsNames.append_left (h : JoinsNames rest ys) (front : List Char) :
  JoinsNames (front ++ rest) ys
  := by
  have hne : rest ≠ [] := by
    rintro rfl
    apply not_endsInName_nil h.1
  exact ⟨(endsInName_append hne).mpr h.1, h.2⟩

/-- A text that is not empty is not gone on with by what comes after it. -/
theorem stopsBefore_append (hne : rest ≠ []) (h : Reader.StopsBefore isNameChar rest)
    (ys : List Char) :
  Reader.StopsBefore isNameChar (rest ++ ys)
  := by
  obtain ⟨c, cs, rfl⟩ := List.exists_cons_of_ne_nil hne
  apply h

namespace TokenKind.EndsBefore

variable {k : TokenKind}

/-- What comes later makes no difference to the end of a token. -/
theorem append_of_ne_nil (hk : k.EndsBefore rest) (hne : rest ≠ []) (ys : List Char) :
  k.EndsBefore (rest ++ ys)
  := by
  cases k with
  | identifier name => use hk.1, stopsBefore_append hne hk.2 ys
  | _ => trivial

/-- A token ends where it did when no name goes on over the seam. -/
theorem append (hk : k.EndsBefore rest) (h : ¬ JoinsNames (k.chars ++ rest) ys) :
  k.EndsBefore (rest ++ ys)
  := by
  by_cases hne : rest = []
  · obtain rfl := hne
    rw [List.append_nil] at h
    cases k with
    | identifier name =>
      use hk.1
      apply stopsBefore_of_not_beginsInName
      intro hys
      apply h ⟨endsInName_name hk.1, hys⟩
    | _ => trivial
  · apply hk.append_of_ne_nil hne

end TokenKind.EndsBefore

end Seams

/-! ### Layouts -/

namespace Layout

variable {offset : Nat} {xs ys : List Char} {ts us : List Token}

/-- A text that starts later has its tokens later. -/
theorem shift (h : Layout offset xs ts) (n : Nat) :
  Layout (n + offset) xs (ts.map (Token.shift n))
  := by
  induction h with
  | nil offset => apply Layout.nil
  | blank hc _ ih =>
    apply Layout.blank hc
    rwa [Nat.add_assoc]
  | token hk _ ih =>
    apply Layout.token hk
    rwa [Nat.add_assoc]

/-- Nothing is laid out in an empty text. -/
theorem eq_nil (h : Layout offset [] ts) :
  ts = []
  := by
  rw [← h.lexFrom_eq, lexFrom_nil]

/-- A text that begins with a character of a name begins with a name. -/
theorem exists_name (h : Layout offset ys us) (hys : BeginsInName ys) :
  ∃ name rest back, ys = name.toList ++ rest ∧ us = ⟨.identifier name, offset⟩ :: back
    ∧ (TokenKind.identifier name).EndsBefore rest
    ∧ Layout (offset + byteLength name.toList) rest back
  := by
  cases h with
  | nil => exact absurd hys not_beginsInName_nil
  | blank hc _ =>
    rw [beginsInName_cons, isNameChar_of_isBlank hc] at hys
    cases hys
  | @token _ k rest back hk hback =>
    rcases k.identifier_or_mark with ⟨name, rfl⟩ | ⟨c, hc, hmark⟩
    · use name, rest, back, rfl, rfl, hk, hback
    · rw [hc, List.singleton_append, beginsInName_cons, isNameChar_of_ofMark? hmark] at hys
      cases hys

/-- Two texts put together have the tokens of both when no name goes on over the seam. -/
theorem append (hx : Layout offset xs ts) (hy : Layout (offset + byteLength xs) ys us)
    (h : ¬ JoinsNames xs ys) :
  Layout offset (xs ++ ys) (ts ++ us)
  := by
  induction hx with
  | nil offset => apply hy
  | @blank offset c cs ts hc _ ih =>
    rw [byteLength_cons, ← Nat.add_assoc] at hy
    apply Layout.blank hc
    apply ih hy
    intro hjoins
    apply h (hjoins.append_left [c])
  | @token offset k rest ts hk _ ih =>
    rw [byteLength_append, ← Nat.add_assoc] at hy
    rw [List.append_assoc]
    apply Layout.token (hk.append h)
    apply ih hy
    intro hjoins
    apply h (hjoins.append_left k.chars)

/-- A name at the beginning of the second text becomes part of the name in which the first text
ends. -/
theorem append_name
    (hx : Layout offset xs ts) (hxs : EndsInName xs) {name : String} {rest : List Char}
    (hname : (TokenKind.identifier name).EndsBefore rest)
    (hy : Layout (offset + byteLength xs + byteLength name.toList) rest us) :
  ∃ front last o, ts = front ++ [⟨.identifier last, o⟩]
    ∧ Layout offset (xs ++ (name.toList ++ rest))
      (front ++ ⟨.identifier (last ++ name), o⟩ :: us)
  := by
  induction hx with
  | nil offset => exact absurd hxs not_endsInName_nil
  | @blank offset c cs ts hc _ ih =>
    have hne : cs ≠ [] := by
      rintro rfl
      rw [endsInName_singleton, isNameChar_of_isBlank hc] at hxs
      cases hxs
    rw [← List.singleton_append, endsInName_append hne] at hxs
    rw [byteLength_cons, ← Nat.add_assoc] at hy
    obtain ⟨front, last, o, rfl, hlayout⟩ := ih hxs hy
    use front, last, o, rfl
    apply Layout.blank hc hlayout
  | @token offset k between ts hk hts ih =>
    rw [byteLength_append, ← Nat.add_assoc] at hy
    rw [List.append_assoc]
    by_cases hne : between = []
    · -- The token is the last one, and it is a name, since no mark may stand in one.
      obtain rfl := hne
      obtain rfl := hts.eq_nil
      rw [List.append_nil] at hxs
      rcases k.identifier_or_mark with ⟨last, rfl⟩ | ⟨c, hc, hmark⟩
      · use [], last, offset, rfl
        have hjoined : (TokenKind.identifier (last ++ name)).EndsBefore rest :=
          ⟨isIdentifier_append hk.1 hname.1, hname.2⟩
        have hlayout := @Layout.token offset _ _ us hjoined
        simp only [TokenKind.chars, String.toList_append, byteLength_append,
          ← Nat.add_assoc, List.append_assoc] at hlayout
        apply hlayout hy
      · rw [hc, endsInName_singleton, isNameChar_of_ofMark? hmark] at hxs
        cases hxs
    · obtain ⟨front, last, o, rfl, hlayout⟩ := ih ((endsInName_append hne).mp hxs) hy
      use ⟨k, offset⟩ :: front, last, o, rfl
      apply Layout.token (hk.append_of_ne_nil hne _) hlayout

end Layout

/-! ### Tokens -/

/-- The tokens of two texts put together are those of the first one and those of the second one,
the latter later by the length of the first text.  When a name goes on over the seam, the name in
which the first text ends and the one with which the second text begins are one token, which stands
where the former does; the others do not change. -/
theorem lex_append (x y : String) :
  (¬ JoinsNames x.toList y.toList →
      lex (x ++ y) = lex x ++ (lex y).map (Token.shift x.utf8ByteSize))
    ∧ (JoinsNames x.toList y.toList →
      ∃ front last offset name back,
        lex x = front ++ [⟨.identifier last, offset⟩]
          ∧ lex y = ⟨.identifier name, 0⟩ :: back
          ∧ lex (x ++ y)
            = front ++ ⟨.identifier (last ++ name), offset⟩
              :: back.map (Token.shift x.utf8ByteSize))
  := by
  have hx := layout_lexFrom 0 x.toList
  have hy := layout_lexFrom 0 y.toList
  have hoffset : 0 + byteLength x.toList = x.utf8ByteSize + 0 := by
    rw [byteLength_toList, Nat.zero_add, Nat.add_zero]
  rw [lex, lex, lex, String.toList_append]
  constructor
  · intro h
    have hshift := hy.shift x.utf8ByteSize
    rw [← hoffset] at hshift
    apply (hx.append hshift h).lexFrom_eq
  · rintro ⟨hends, hbegins⟩
    obtain ⟨name, rest, back, hrest, hback, hname, hlayout⟩ := hy.exists_name hbegins
    have hshift := hlayout.shift x.utf8ByteSize
    rw [← Nat.add_assoc, ← hoffset] at hshift
    obtain ⟨front, last, offset, hfront, hjoined⟩ := hx.append_name hends hname hshift
    rw [← hrest] at hjoined
    use front, last, offset, name, back, hfront, hback
    apply hjoined.lexFrom_eq

/-- The names `é` and `q` become one, before which there is a blank of three bytes. -/
example :
  lex ("\u2003é" ++ "q=") = [⟨.identifier "éq", 3⟩, ⟨.equals, 6⟩]
  := by
  with_unfolding_all rfl

end Acceptor

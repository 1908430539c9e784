import Acceptor.Proofs.Description.Normalization
import Acceptor.Proofs.Description.Seam

/-!
# Names between separators

Blanks and marks separate names.  What stands between separators has the tokens that it has
alone (`lex_between`), and a name is a token where it stands exactly when separators are around
it (`mem_lex_between_iff`).  So the names, which are told by their characters, are the texts that
have themselves as their only token, alone and between separators (`isIdentifier_iff_lex`).
-/

namespace Acceptor

/-! ### Separators -/

/-- Whether `c` is a blank or a mark. -/
def isSeparator (c : Char) : Bool :=
  isBlank c || (TokenKind.ofMark? c).isSome

/-- The separators are the characters that stand in no name. -/
theorem isSeparator_eq (c : Char) :
  isSeparator c = !isNameChar c
  := by
  simp [isSeparator, isNameChar]

/-- The text is empty, or its last character is a separator. -/
def EndsApart (xs : List Char) : Prop :=
  ∀ c ∈ xs.getLast?, isSeparator c = true

/-- The text is empty, or its first character is a separator. -/
def BeginsApart (ys : List Char) : Prop :=
  ∀ c ∈ ys.head?, isSeparator c = true

section Separators

variable {xs ys : List Char}

theorem endsApart_iff :
  EndsApart xs ↔ ∀ c ∈ xs.getLast?, isNameChar c = false
  := by
  simp only [EndsApart, isSeparator_eq, Bool.not_eq_true']

theorem beginsApart_iff :
  BeginsApart ys ↔ Reader.StopsBefore isNameChar ys
  := by
  simp only [BeginsApart, isSeparator_eq, Bool.not_eq_true', Reader.StopsBefore]

theorem EndsApart.not_endsInName (h : EndsApart xs) :
  ¬ EndsInName xs
  := by
  rintro ⟨c, hc, hname⟩
  rw [endsApart_iff.mp h c hc] at hname
  cases hname

theorem BeginsApart.not_beginsInName (h : BeginsApart ys) :
  ¬ BeginsInName ys
  := by
  rintro ⟨c, hc, hname⟩
  rw [beginsApart_iff.mp h c hc] at hname
  cases hname

end Separators

/-! ### Between separators -/

/-- The tokens of a text, when the text starts at a given byte offset. -/
theorem layout_map_shift_lex (offset : Nat) (text : String) :
  Layout offset text.toList ((lex text).map (Token.shift offset))
  := (layout_lexFrom 0 text.toList).shift offset

/-- No name goes on over the ends of a text that stands between separators. -/
theorem Layout.between
    {offset : Nat} {xs cs ys : List Char} {ts us vs : List Token} (hx : Layout offset xs ts)
    (hcs : Layout (offset + byteLength xs) cs us)
    (hy : Layout (offset + byteLength (xs ++ cs)) ys vs)
    (hxs : EndsApart xs) (hys : BeginsApart ys) :
  Layout offset (xs ++ cs ++ ys) (ts ++ us ++ vs)
  := by
  have hfront : Layout offset (xs ++ cs) (ts ++ us) := by
    apply hx.append hcs
    rintro ⟨hends, -⟩
    apply hxs.not_endsInName hends
  apply hfront.append hy
  rintro ⟨-, hbegins⟩
  apply hys.not_beginsInName hbegins

variable {x y text : String}

/-- What stands between separators has the tokens that it has alone, and so have the texts before
and after it. -/
theorem lex_between (hx : EndsApart x.toList) (hy : BeginsApart y.toList) (text : String) :
  lex (x ++ text ++ y)
    = lex x ++ (lex text).map (Token.shift x.utf8ByteSize)
      ++ (lex y).map (Token.shift (x ++ text).utf8ByteSize)
  := by
  rw [lex, String.toList_append, String.toList_append]
  apply Layout.lexFrom_eq
  apply (layout_lexFrom 0 x.toList).between _ _ hx hy
  · rw [Nat.zero_add, byteLength_toList]
    apply layout_map_shift_lex
  · rw [Nat.zero_add, ← String.toList_append, byteLength_toList]
    apply layout_map_shift_lex

/-- Between a mark and a blank of three bytes a space of no width belongs to the name. -/
example :
  lex ("(σ=" ++ "q\u200B1" ++ "\u3000é")
    = [⟨.openParen, 0⟩, ⟨.identifier "σ", 1⟩, ⟨.equals, 3⟩, ⟨.identifier "q\u200B1", 4⟩,
      ⟨.identifier "é", 12⟩]
  := by
  with_unfolding_all rfl

/-! ### Names -/

/-- A name is a text that has itself as its only token. -/
theorem isIdentifier_iff_lex_eq :
  isIdentifier text = true ↔ lex text = [⟨.identifier text, 0⟩]
  := by
  constructor
  · intro h
    have hlex := lexFrom_identifier h (Reader.stopsBefore_nil isNameChar) 0
    rwa [List.append_nil, lexFrom_nil] at hlex
  · intro h
    apply isIdentifier_of_mem_lex text
    rw [h]
    apply List.mem_singleton_self

/-- A name between separators is a token. -/
theorem lex_between_of_isIdentifier
    (h : isIdentifier text = true) (hx : EndsApart x.toList) (hy : BeginsApart y.toList) :
  lex (x ++ text ++ y)
    = lex x ++ ⟨.identifier text, x.utf8ByteSize⟩
      :: (lex y).map (Token.shift (x ++ text).utf8ByteSize)
  := by
  rw [lex_between hx hy, isIdentifier_iff_lex_eq.mp h, List.append_assoc]
  rfl

/-- A text is a token where it stands exactly when it is a name and stands between separators. -/
theorem mem_lex_between_iff :
  ⟨.identifier text, x.utf8ByteSize⟩ ∈ lex (x ++ text ++ y)
    ↔ isIdentifier text = true ∧ EndsApart x.toList ∧ BeginsApart y.toList
  := by
  constructor
  · intro h
    obtain ⟨before, after, htext, hoffset, ⟨hname, hstops⟩, hbegins⟩ :=
      exists_between_of_mem_lex h
    rw [Nat.zero_add, ← byteLength_toList] at hoffset
    rw [String.toList_append, String.toList_append, TokenKind.chars, List.append_assoc,
      List.append_assoc] at htext
    obtain ⟨rfl, hrest⟩ := append_inj_of_byteLength_eq htext hoffset
    obtain rfl := List.append_cancel_left hrest
    use hname
    constructor
    · apply endsApart_iff.mpr (hbegins text rfl)
    · apply beginsApart_iff.mpr hstops
  · rintro ⟨hname, hx, hy⟩
    rw [lex_between_of_isIdentifier hname hx hy]
    simp

/-- The names that are said to be invalid are the declared ones that are not their own only
token. -/
theorem invalidName_mem_violations_iff_lex {d : Descriptor} {t : Table} :
  .invalidName text ∈ violations d t
    ↔ text ∈ d.declaredNames ∧ lex text ≠ [⟨.identifier text, 0⟩]
  := by
  rw [invalidName_mem_violations, Ne, ← isIdentifier_iff_lex_eq, Bool.not_eq_true]

/-- The names, which are told by their characters, are the texts that have themselves as their
only token.  They are also the texts that are a token, where they stand, of every text in which
separators are around them, its other tokens being those of what is before and of what is after.
So a declared name is said to be invalid exactly when it is not its own only token. -/
theorem isIdentifier_iff_lex (text : String) :
  (isIdentifier text = true ↔ lex text = [⟨.identifier text, 0⟩])
    ∧ (isIdentifier text = true ↔
      ∀ x y : String, EndsApart x.toList → BeginsApart y.toList →
        lex (x ++ text ++ y)
          = lex x ++ ⟨.identifier text, x.utf8ByteSize⟩
            :: (lex y).map (Token.shift (x ++ text).utf8ByteSize))
    ∧ ∀ d t, .invalidName text ∈ violations d t
      ↔ text ∈ d.declaredNames ∧ lex text ≠ [⟨.identifier text, 0⟩]
  := by
  and_intros
  · apply isIdentifier_iff_lex_eq
  · constructor
    · intro h x y hx hy
      apply lex_between_of_isIdentifier h hx hy
    · intro h
      -- Nothing has to stand around the text: the ends of a text separate as well.
      have hmem : ⟨.identifier text, "".utf8ByteSize⟩ ∈ lex ("" ++ text ++ "") := by
        rw [h "" "" nofun nofun]
        simp
      apply (mem_lex_between_iff.mp hmem).1
  · intro d t
    apply invalidName_mem_violations_iff_lex

end Acceptor

import Acceptor.Description.Token
import Acceptor.Proofs.Reader
import Mathlib.Tactic.Use

/-!
# Lexing

Every character is a blank, a mark or a character of a name, and `lexFrom_induction` is
induction along these three.  By it, the kinds of the tokens of a text, `lexKinds`, do not
depend on where the text starts.  The characters of tokens of which no two names are
neighbours lex as these tokens (`Legible.lexKinds_append`).
-/

namespace Acceptor

/-! ### Characters -/

theorem isBlank_of_ofMark? {c : Char} {mark : TokenKind} (h : TokenKind.ofMark? c = some mark) :
  isBlank c = false
  := by
  unfold TokenKind.ofMark? at h
  split at h <;> first | rfl | cases h

theorem isNameChar_of_ofMark? {c : Char} {mark : TokenKind}
    (h : TokenKind.ofMark? c = some mark) :
  isNameChar c = false
  := by
  rw [isNameChar, h, Option.isNone_some, Bool.and_false]

theorem isNameChar_of_isBlank {c : Char} (h : isBlank c = true) :
  isNameChar c = false
  := by
  rw [isNameChar, h]
  rfl

/-- A character that is neither a blank nor a mark may stand in a name. -/
theorem isNameChar_of_ne {c : Char} (hb : isBlank c = false) (hm : TokenKind.ofMark? c = none) :
  isNameChar c = true
  := by
  rw [isNameChar, hb, hm]
  rfl

/-- A name is not a mark. -/
theorem ofMark?_ne_identifier (c : Char) (name : String) :
  TokenKind.ofMark? c ≠ some (.identifier name)
  := by
  unfold TokenKind.ofMark?
  split <;> simp

theorem isBlank_of_isNameChar {c : Char} (h : isNameChar c = true) :
  isBlank c = false
  := by
  rw [isNameChar, Bool.and_eq_true, Bool.not_eq_true'] at h
  apply h.1

/-- A name consists of characters of names, of which there is one at least. -/
theorem isIdentifier_iff {name : String} :
  isIdentifier name = true ↔ name.toList ≠ [] ∧ ∀ c ∈ name.toList, isNameChar c = true
  := by
  rw [isIdentifier, Bool.and_eq_true, Bool.not_eq_true', List.all_eq_true, Bool.eq_false_iff,
    Ne, String.isEmpty_iff, Ne, String.toList_eq_nil_iff]

theorem isIdentifier_ofList {c : Char} {cs : List Char} (hc : isNameChar c = true)
    (hcs : cs.all isNameChar = true) :
  isIdentifier (String.ofList (c :: cs)) = true
  := by
  rw [isIdentifier_iff, String.toList_ofList]
  use List.cons_ne_nil c cs
  rw [List.forall_mem_cons]
  use hc, List.all_eq_true.mp hcs

/-- A name at the beginning of a text is a token of it, up to a character that does not belong
to a name. -/
theorem lexFrom_identifier
    {name : String} (h : isIdentifier name = true) {cs : List Char}
    (hcs : Reader.StopsBefore isNameChar cs) (offset : Nat) :
  lexFrom offset (name.toList ++ cs)
    = ⟨.identifier name, offset⟩ :: lexFrom (offset + byteLength name.toList) cs
  := by
  obtain ⟨hne, hall⟩ := isIdentifier_iff.mp h
  obtain ⟨c, name', hname⟩ := List.exists_cons_of_ne_nil hne
  have hofList : String.ofList (c :: name') = name := by
    rw [← hname, String.ofList_toList]
  rw [hname] at hall ⊢
  obtain ⟨hc, hname'⟩ := List.forall_mem_cons.mp hall
  rw [List.cons_append, lexFrom_name hc, List.takeWhile_append_of_pos hname',
    List.dropWhile_append_of_pos hname', hcs.takeWhile_eq_nil, hcs.dropWhile_eq,
    List.append_nil, hofList]

theorem exists_of_not_stopsBefore {cs : List Char} (h : ¬ Reader.StopsBefore isNameChar cs) :
  ∃ d ds, cs = d :: ds ∧ isNameChar d = true
  := by
  cases cs with
  | nil => exact absurd (Reader.stopsBefore_nil _) h
  | cons d ds =>
    rw [Reader.stopsBefore_cons, Bool.not_eq_false] at h
    use d, ds, rfl, h

/-- A text is empty or begins with a blank, with a mark or with a name, after which the
same can be said of what is left. -/
theorem lexFrom_induction
    {P : Nat → List Char → Prop}
    (nil : ∀ offset, P offset [])
    (blank : ∀ offset c cs, isBlank c = true → P (offset + c.utf8Size) cs → P offset (c :: cs))
    (mark : ∀ offset c cs mark, TokenKind.ofMark? c = some mark →
      P (offset + c.utf8Size) cs → P offset (c :: cs))
    (name : ∀ offset c cs, isNameChar c = true →
      P (offset + byteLength (c :: cs.takeWhile isNameChar)) (cs.dropWhile isNameChar) →
      P offset (c :: cs))
    (offset : Nat) (cs : List Char) :
  P offset cs
  := by
  induction hn : cs.length using Nat.strongRecOn generalizing offset cs with
  | ind n ih =>
  subst hn
  cases cs with
  | nil => apply nil
  | cons c cs =>
    by_cases hb : isBlank c = true
    · apply blank offset c cs hb
      apply ih _ (Nat.lt_succ_self _) _ _ rfl
    · rw [Bool.not_eq_true] at hb
      cases hm : TokenKind.ofMark? c with
      | some m =>
        apply mark offset c cs m hm
        apply ih _ (Nat.lt_succ_self _) _ _ rfl
      | none =>
        apply name offset c cs (isNameChar_of_ne hb hm)
        have hle := (List.dropWhile_sublist isNameChar (l := cs)).length_le
        apply ih _ (Nat.lt_succ_of_le hle) _ _ rfl

/-- A token is a name or a mark, which has one character. -/
theorem TokenKind.identifier_or_mark (k : TokenKind) :
  (∃ name, k = .identifier name) ∨ ∃ c, k.chars = [c] ∧ ofMark? c = some k
  := by
  cases k with
  | identifier name =>
    left
    use name
  | _ =>
    right
    exact ⟨_, rfl, rfl⟩

/-- A token that can be written has no blanks. -/
theorem TokenKind.isBlank_of_mem_chars
    (k : TokenKind) (h : ∀ name, k = .identifier name → isIdentifier name = true) {c : Char}
    (hc : c ∈ k.chars) :
  isBlank c = false
  := by
  rcases k.identifier_or_mark with ⟨name, rfl⟩ | ⟨d, hd, hm⟩
  · apply isBlank_of_isNameChar ((isIdentifier_iff.mp (h name rfl)).2 c hc)
  · rw [hd, List.mem_singleton] at hc
    rw [hc]
    apply isBlank_of_ofMark? hm

/-! ### Kinds -/

/-- The kinds of the tokens of a text. -/
def lexKinds (text : List Char) : List TokenKind :=
  (lexFrom 0 text).map Token.kind

theorem map_kind_lex_ofList (text : List Char) :
  (lex (String.ofList text)).map Token.kind = lexKinds text
  := by
  rw [lex, String.toList_ofList, lexKinds]

/-- The kinds do not depend on where a text starts. -/
theorem map_kind_lexFrom (offset : Nat) (text : List Char) :
  (lexFrom offset text).map Token.kind = lexKinds text
  := by
  suffices h : ∀ offset', (lexFrom offset text).map Token.kind
      = (lexFrom offset' text).map Token.kind from h 0
  induction offset, text using lexFrom_induction with
  | nil offset =>
    intro offset'
    rw [lexFrom_nil, lexFrom_nil]
  | blank offset c cs hb ih =>
    intro offset'
    rw [lexFrom_blank hb, lexFrom_blank hb, ih]
  | mark offset c cs mark hm ih =>
    intro offset'
    have hb := isBlank_of_ofMark? hm
    rw [lexFrom_mark hb hm, lexFrom_mark hb hm, List.map_cons, List.map_cons, ih]
  | name offset c cs hc ih =>
    intro offset'
    rw [lexFrom_name hc, lexFrom_name hc, List.map_cons, List.map_cons, ih]

@[simp]
theorem lexKinds_nil :
  lexKinds [] = []
  := by
  rw [lexKinds, lexFrom_nil, List.map_nil]

theorem lexKinds_blank {c : Char} (h : isBlank c = true) (cs : List Char) :
  lexKinds (c :: cs) = lexKinds cs
  := by
  rw [lexKinds, lexFrom_blank h, map_kind_lexFrom]

theorem lexKinds_mark {c : Char} {mark : TokenKind} (h : TokenKind.ofMark? c = some mark)
    (cs : List Char) :
  lexKinds (c :: cs) = mark :: lexKinds cs
  := by
  rw [lexKinds, lexFrom_mark (isBlank_of_ofMark? h) h, List.map_cons, map_kind_lexFrom]

theorem lexKinds_name {c : Char} (h : isNameChar c = true) (cs : List Char) :
  lexKinds (c :: cs)
    = .identifier (String.ofList (c :: cs.takeWhile isNameChar))
      :: lexKinds (cs.dropWhile isNameChar)
  := by
  rw [lexKinds, lexFrom_name h, List.map_cons, map_kind_lexFrom]

/-- Where a name begins or not in both of two texts, a character before them makes no difference
between their kinds. -/
theorem lexKinds_cons_congr {c : Char} {cs ds : List Char} (h : lexKinds cs = lexKinds ds)
    (hstops : isNameChar c = true →
      (Reader.StopsBefore isNameChar cs ↔ Reader.StopsBefore isNameChar ds)) :
  lexKinds (c :: cs) = lexKinds (c :: ds)
  := by
  by_cases hb : isBlank c = true
  · rw [lexKinds_blank hb, lexKinds_blank hb, h]
  rw [Bool.not_eq_true] at hb
  cases hm : TokenKind.ofMark? c with
  | some mark => rw [lexKinds_mark hm, lexKinds_mark hm, h]
  | none =>
    have hc := isNameChar_of_ne hb hm
    rw [lexKinds_name hc, lexKinds_name hc]
    by_cases hcs : Reader.StopsBefore isNameChar cs
    · have hds := (hstops hc).mp hcs
      rw [hcs.takeWhile_eq_nil, hds.takeWhile_eq_nil, hcs.dropWhile_eq, hds.dropWhile_eq, h]
    · -- Both texts begin with a name, which is the same, and so is what comes after it.
      obtain ⟨d, cs, rfl, hd⟩ := exists_of_not_stopsBefore hcs
      obtain ⟨e, ds, rfl, he⟩ := exists_of_not_stopsBefore (mt (hstops hc).mpr hcs)
      rw [lexKinds_name hd, lexKinds_name he, List.cons.injEq, TokenKind.identifier.injEq,
        String.ofList_inj] at h
      rw [List.takeWhile_cons_of_pos hd, List.takeWhile_cons_of_pos he,
        List.dropWhile_cons_of_pos hd, List.dropWhile_cons_of_pos he, h.1, h.2]

/-- Blanks before a text are no tokens. -/
theorem lexKinds_blanks_append {blanks : List Char} (h : ∀ c ∈ blanks, isBlank c = true)
    (cs : List Char) :
  lexKinds (blanks ++ cs) = lexKinds cs
  := by
  induction blanks with
  | nil => rfl
  | cons c blanks ih =>
    rw [List.cons_append, lexKinds_blank (h c List.mem_cons_self),
      ih fun d hd => h d (List.mem_cons_of_mem c hd)]

/-- Blanks end a name. -/
theorem stopsBefore_blanks_append
    {blanks cs : List Char} (h : ∀ c ∈ blanks, isBlank c = true)
    (hcs : Reader.StopsBefore isNameChar cs) :
  Reader.StopsBefore isNameChar (blanks ++ cs)
  := by
  cases blanks with
  | nil => apply hcs
  | cons c blanks =>
    apply Reader.stopsBefore_cons.mpr
    apply isNameChar_of_isBlank (h c List.mem_cons_self)

/-- A name is lexed as a whole, up to a character that does not belong to a name. -/
theorem lexKinds_identifier
    {name : String} (h : isIdentifier name = true) {cs : List Char}
    (hcs : Reader.StopsBefore isNameChar cs) :
  lexKinds (name.toList ++ cs) = .identifier name :: lexKinds cs
  := by
  rw [lexKinds, lexFrom_identifier h hcs, List.map_cons, map_kind_lexFrom]

/-! ### Written tokens -/

/-- Kinds of tokens that can be written without blanks between them: the names can be
written, and no two of them are neighbours. -/
def Legible : List TokenKind → Prop
  | [] => True
  | .identifier name :: ks =>
    isIdentifier name = true ∧ (∀ next, ks.head? ≠ some (.identifier next)) ∧ Legible ks
  | _ :: ks => Legible ks

theorem Legible.tail {k : TokenKind} {ks : List TokenKind} (h : Legible (k :: ks)) :
  Legible ks
  := by
  cases k with
  | identifier name => apply h.2.2
  | _ => apply h

/-- A name before a mark gets no neighbour. -/
theorem legible_identifier_cons
    {name : String} (hname : isIdentifier name = true) {k : TokenKind} {ks : List TokenKind}
    (h : Legible (k :: ks)) (hk : ∀ next, k ≠ .identifier next) :
  Legible (.identifier name :: k :: ks)
  := by
  use hname
  constructor
  · intro next hnext
    apply hk next (Option.some.inj hnext)
  · apply h

/-- Tokens before a mark get no neighbours. -/
theorem legible_append
    {ks ls : List TokenKind} {k : TokenKind} (hks : Legible ks) (hls : Legible (k :: ls))
    (hk : ∀ name, k ≠ .identifier name) :
  Legible (ks ++ k :: ls)
  := by
  induction ks with
  | nil => apply hls
  | cons l ks ih =>
    cases l with
    | identifier name =>
      obtain ⟨hname, hhead, hks⟩ := hks
      cases ks with
      | nil => apply legible_identifier_cons hname hls hk
      | cons l ks => use hname, hhead, ih hks
    | _ => apply ih hks

/-- The names among the tokens can be written. -/
theorem Legible.isIdentifier_of_mem {ks : List TokenKind} (h : Legible ks) {name : String}
    (hname : .identifier name ∈ ks) :
  isIdentifier name = true
  := by
  induction ks with
  | nil => cases hname
  | cons k ks ih =>
    rcases List.mem_cons.mp hname with rfl | hmem
    · apply h.1
    · apply ih h.tail hmem

/-- No blanks are written. -/
theorem Legible.isBlank_of_mem_chars {ks : List TokenKind} (h : Legible ks) {c : Char}
    (hc : c ∈ ks.flatMap TokenKind.chars) :
  isBlank c = false
  := by
  obtain ⟨k, hk, hc⟩ := List.mem_flatMap.mp hc
  apply k.isBlank_of_mem_chars _ hc
  rintro name rfl
  apply h.isIdentifier_of_mem hk

/-- What is written does not begin with a character of a name, unless it begins with a
name. -/
theorem stopsBefore_chars_append {ks : List TokenKind}
    (h : ∀ next, ks.head? ≠ some (.identifier next)) {rest : List Char}
    (hrest : Reader.StopsBefore isNameChar rest) :
  Reader.StopsBefore isNameChar (ks.flatMap TokenKind.chars ++ rest)
  := by
  cases ks with
  | nil => apply hrest
  | cons k ks =>
    rcases k.identifier_or_mark with ⟨name, rfl⟩ | ⟨c, hc, hm⟩
    · exact absurd rfl (h name)
    · rw [List.flatMap_cons, hc]
      apply Reader.stopsBefore_cons.mpr (isNameChar_of_ofMark? hm)

/-- Written tokens lex as themselves, before a text that does not go on a name. -/
theorem Legible.lexKinds_append {ks : List TokenKind} (h : Legible ks) {rest : List Char}
    (hrest : Reader.StopsBefore isNameChar rest) :
  lexKinds (ks.flatMap TokenKind.chars ++ rest) = ks ++ lexKinds rest
  := by
  induction ks with
  | nil => rfl
  | cons k ks ih =>
    rw [List.flatMap_cons, List.append_assoc, List.cons_append]
    rcases k.identifier_or_mark with ⟨name, rfl⟩ | ⟨c, hc, hm⟩
    · obtain ⟨hname, hhead, hks⟩ := h
      rw [TokenKind.chars, lexKinds_identifier hname (stopsBefore_chars_append hhead hrest),
        ih hks]
    · rw [hc, List.singleton_append, lexKinds_mark hm, ih h.tail]

/-- No names become neighbours when the first character of a text is left out. -/
theorem Legible.lexKinds_of_cons {c : Char} {cs : List Char} (h : Legible (lexKinds (c :: cs))) :
  Legible (lexKinds cs)
  := by
  by_cases hb : isBlank c = true
  · rwa [lexKinds_blank hb] at h
  rw [Bool.not_eq_true] at hb
  cases hm : TokenKind.ofMark? c with
  | some mark =>
    rw [lexKinds_mark hm] at h
    apply h.tail
  | none =>
    rw [lexKinds_name (isNameChar_of_ne hb hm)] at h
    by_cases hcs : Reader.StopsBefore isNameChar cs
    · rw [hcs.dropWhile_eq] at h
      apply h.tail
    · obtain ⟨d, ds, rfl, hd⟩ := exists_of_not_stopsBefore hcs
      rw [List.dropWhile_cons_of_pos hd] at h
      rw [lexKinds_name hd]
      use isIdentifier_ofList hd List.all_takeWhile
      apply h.2

theorem Legible.lexKinds_chars {ks : List TokenKind} (h : Legible ks) :
  lexKinds (ks.flatMap TokenKind.chars) = ks
  := by
  have happend := h.lexKinds_append (Reader.stopsBefore_nil isNameChar)
  rwa [List.append_nil, lexKinds_nil, List.append_nil] at happend

end Acceptor

import Acceptor.Proofs.Description.Normalization
import Mathlib.Data.List.TakeWhile

/-!
# Line breaks

Of the line breaks of a description, the first ends the descriptor and the second begins the body,
from which the others are left out (`parse_eq_readParts`).  If a carriage return stands before
each of them, it stays where the line break is left out, and separates what the line break joined.
The tokens of the body remain the same unless a name goes on beyond line breaks
(`lexKinds_returned`).  If one does, its parts become neighbours (`BreaksName.not_legible`), as no
two names in a table body are; so it is only then that a description that can be read cannot be
read with carriage returns (`parse_lineBreaks`).
-/

namespace Acceptor

/-! ### Lines -/

/-- The text before the first line break. -/
def firstLine (text : List Char) : List Char :=
  text.takeWhile (· ≠ '\n')

/-- The text after the first line break, if there is one. -/
def afterBreak (text : List Char) : List Char :=
  (text.dropWhile (· ≠ '\n')).tail

/-- The text after the second line break, if there is one. -/
def tableBody (text : List Char) : List Char :=
  afterBreak (afterBreak text)

/-- A text without its line breaks. -/
def unbroken (text : List Char) : List Char :=
  text.filter (· ≠ '\n')

section Lines

variable {l text : List Char}

theorem forall_mem_ne_newline (h : '\n' ∉ l) :
  ∀ c ∈ l, decide (c ≠ '\n') = true
  := by
  rintro c hc
  rw [decide_eq_true_eq]
  rintro rfl
  apply h hc

theorem firstLine_of_notMem (h : '\n' ∉ l) :
  firstLine l = l
  := List.takeWhile_eq_self_iff.mpr (forall_mem_ne_newline h)

theorem afterBreak_of_notMem (h : '\n' ∉ l) :
  afterBreak l = []
  := by
  rw [afterBreak, List.dropWhile_eq_nil_iff.mpr (forall_mem_ne_newline h), List.tail_nil]

theorem firstLine_append_newline (h : '\n' ∉ l) (text : List Char) :
  firstLine (l ++ '\n' :: text) = l
  := by
  rw [firstLine, List.takeWhile_append_of_pos (forall_mem_ne_newline h), List.takeWhile_cons,
    if_neg (by simp), List.append_nil]

theorem afterBreak_append_newline (h : '\n' ∉ l) (text : List Char) :
  afterBreak (l ++ '\n' :: text) = text
  := by
  rw [afterBreak, List.dropWhile_append_of_pos (forall_mem_ne_newline h), List.dropWhile_cons,
    if_neg (by simp), List.tail_cons]

theorem lines_of_notMem (h : '\n' ∉ l) :
  lines l = [l]
  := by
  induction l with
  | nil => rfl
  | cons c l ih =>
    rw [List.mem_cons, not_or] at h
    apply lines_cons (Ne.symm h.1) (ih h.2)

/-- The lines of a text with a line break. -/
theorem lines_of_mem (h : '\n' ∈ text) :
  lines text = firstLine text :: lines (afterBreak text)
  := by
  obtain ⟨l, rest, rfl, hl⟩ := List.eq_append_cons_of_mem h
  rw [lines_append_newline hl, firstLine_append_newline hl, afterBreak_append_newline hl]

/-- The lines after the first one are together what comes after the first line break. -/
theorem exists_lines_eq (text : List Char) :
  ∃ ls, lines text = firstLine text :: ls ∧ ls.flatten = unbroken (afterBreak text)
  := by
  by_cases h : '\n' ∈ text
  · use lines (afterBreak text), lines_of_mem h
    apply flatten_lines
  · use []
    rw [lines_of_notMem h, firstLine_of_notMem h, afterBreak_of_notMem h]
    exact ⟨rfl, rfl⟩

end Lines

theorem readParts_of_parseTable_error
    {line body : List Char} {d : Descriptor} {e : BodyFault}
    (hd : parseDescriptor (String.ofList line) = .ok d)
    (he : parseTable (String.ofList body) = .error e) :
  readParts line body = .error (.transition e.entry e.fault)
  := by
  rw [readParts, hd, he]
  rfl

theorem readParts_ne_tooFewLines (line body : List Char) (n : Nat) :
  readParts line body ≠ .error (.tooFewLines n)
  := by
  intro h
  rw [readParts] at h
  cases hd : parseDescriptor (String.ofList line) with
  | error e =>
    rw [hd] at h
    cases h
  | ok d =>
    rw [hd] at h
    cases ht : parseTable (String.ofList body) with
    | error e =>
      rw [ht] at h
      cases h
    | ok t =>
      rw [ht] at h
      cases h

/-- Without a line break there is one line. -/
theorem parse_of_notMem {text : String} (h : '\n' ∉ text.toList) :
  parse text = .error (.tooFewLines 1)
  := by
  rw [parse, lines_of_notMem h]
  rfl

/-- The first line and the body without its line breaks are what is read. -/
theorem parse_eq_readParts {text : String} (h : '\n' ∈ text.toList) :
  parse text = readParts (firstLine text.toList) (unbroken (tableBody text.toList))
  := by
  obtain ⟨ls, hls, hbody⟩ := exists_lines_eq (afterBreak text.toList)
  rw [parse, lines_of_mem h, hls]
  dsimp only
  rw [hbody]
  rfl

/-! ### Carriage returns -/

/-- The text with a carriage return before each line break. -/
def crlf (text : List Char) : List Char :=
  text.flatMap fun c => if c = '\n' then ['\r', '\n'] else [c]

/-- The text with a carriage return in the place of each line break. -/
def returned (text : List Char) : List Char :=
  text.map fun c => if c = '\n' then '\r' else c

section Crlf

variable {l text : List Char}

@[simp]
theorem crlf_newline (text : List Char) :
  crlf ('\n' :: text) = '\r' :: '\n' :: crlf text
  := rfl

theorem crlf_cons {c : Char} (h : c ≠ '\n') (text : List Char) :
  crlf (c :: text) = c :: crlf text
  := by
  rw [crlf, List.flatMap_cons, if_neg h]
  rfl

theorem crlf_append (l text : List Char) :
  crlf (l ++ text) = crlf l ++ crlf text
  := List.flatMap_append

theorem crlf_of_notMem (h : '\n' ∉ l) :
  crlf l = l
  := by
  induction l with
  | nil => rfl
  | cons c l ih =>
    rw [List.mem_cons, not_or] at h
    rw [crlf_cons (Ne.symm h.1), ih h.2]

theorem returned_cons {c : Char} (h : c ≠ '\n') (text : List Char) :
  returned (c :: text) = c :: returned text
  := by
  rw [returned, List.map_cons, if_neg h]
  rfl

theorem unbroken_cons {c : Char} (h : c ≠ '\n') (text : List Char) :
  unbroken (c :: text) = c :: unbroken text
  := List.filter_cons_of_pos (by simpa using h)

/-- The carriage returns stay where the line breaks are left out. -/
theorem unbroken_crlf (text : List Char) :
  unbroken (crlf text) = returned text
  := by
  induction text with
  | nil => rfl
  | cons c text ih =>
    by_cases hc : c = '\n'
    · obtain rfl := hc
      rw [crlf_newline, unbroken_cons (by decide)]
      apply congrArg _ ih
    · rw [crlf_cons hc, unbroken_cons hc, returned_cons hc, ih]

/-- The first line of a text with carriage returns ends with one of them. -/
theorem exists_crlf_eq (h : '\n' ∈ text) :
  '\n' ∉ firstLine text ++ ['\r']
    ∧ crlf text = (firstLine text ++ ['\r']) ++ '\n' :: crlf (afterBreak text)
  := by
  obtain ⟨l, rest, rfl, hl⟩ := List.eq_append_cons_of_mem h
  rw [firstLine_append_newline hl, afterBreak_append_newline hl, crlf_append, crlf_of_notMem hl]
  constructor
  · simpa using hl
  · simp

theorem afterBreak_crlf (text : List Char) :
  afterBreak (crlf text) = crlf (afterBreak text)
  := by
  by_cases h : '\n' ∈ text
  · obtain ⟨hl, hcrlf⟩ := exists_crlf_eq h
    rw [hcrlf, afterBreak_append_newline hl]
  · rw [crlf_of_notMem h, afterBreak_of_notMem h]
    rfl

end Crlf

/-- What is read of a text with carriage returns. -/
theorem parse_crlf {text : String} (h : '\n' ∈ text.toList) :
  parse (String.ofList (crlf text.toList))
    = readParts (firstLine text.toList ++ ['\r']) (returned (tableBody text.toList))
  := by
  obtain ⟨hl, hcrlf⟩ := exists_crlf_eq h
  have hmem : '\n' ∈ (String.ofList (crlf text.toList)).toList := by
    rw [String.toList_ofList, hcrlf]
    apply List.mem_append_right _ List.mem_cons_self
  have hline : firstLine (crlf text.toList) = firstLine text.toList ++ ['\r'] := by
    rw [hcrlf, firstLine_append_newline hl]
  have hbody : unbroken (tableBody (crlf text.toList)) = returned (tableBody text.toList) := by
    rw [tableBody, afterBreak_crlf, afterBreak_crlf, unbroken_crlf]
    rfl
  rw [parse_eq_readParts hmem, String.toList_ofList, hline, hbody]

/-! ### Broken names -/

/-- Characters of names stand on both sides of some line breaks, which have nothing else between
them. -/
def BreaksName (text : List Char) : Prop :=
  ∃ before c breaks d after, text = before ++ c :: (breaks ++ d :: after)
    ∧ breaks ≠ [] ∧ (∀ b ∈ breaks, b = '\n') ∧ isNameChar c = true ∧ isNameChar d = true

theorem isBlank_return : isBlank '\r' = true
  := rfl

theorem ne_newline_of_isNameChar {c : Char} (h : isNameChar c = true) :
  c ≠ '\n'
  := by
  rintro rfl
  cases h

namespace BreaksName

variable {text : List Char}

theorem cons (h : BreaksName text) (c : Char) :
  BreaksName (c :: text)
  := by
  obtain ⟨before, d, breaks, e, after, rfl, hbreaks⟩ := h
  use c :: before, d, breaks, e, after, rfl

/-- Where a name does not go on beyond a line break, no name comes next. -/
theorem stopsBefore_unbroken {c : Char} (h : ¬ BreaksName (c :: '\n' :: text))
    (hc : isNameChar c = true) :
  Reader.StopsBefore isNameChar (unbroken text)
  := by
  intro d hd
  rw [Option.mem_def, List.head?_eq_some_iff] at hd
  obtain ⟨rest, hrest⟩ := hd
  obtain ⟨breaks, after, rfl, hbreaks, -, -⟩ := List.filter_eq_cons_iff.mp hrest
  rw [← Bool.not_eq_true]
  intro hname
  apply h
  use [], c, '\n' :: breaks, d, after, rfl, List.cons_ne_nil _ _
  constructor
  · intro b hb
    rcases List.mem_cons.mp hb with rfl | hb
    · rfl
    · simpa using hbreaks b hb
  · use hc

/-- The parts of a broken name become neighbours when a carriage return comes between them. -/
theorem not_legible (h : BreaksName text) :
  ¬ Legible (lexKinds (returned text))
  := by
  obtain ⟨before, c, breaks, d, after, rfl, hne, hbreaks, hc, hd⟩ := h
  induction before with
  | nil =>
    have hblanks : ∀ b ∈ returned breaks, isBlank b = true := by
      intro b hb
      obtain ⟨a, ha, rfl⟩ := List.mem_map.mp hb
      rw [if_pos (hbreaks a ha)]
      apply isBlank_return
    have htext : returned (c :: (breaks ++ d :: after))
        = c :: (returned breaks ++ d :: returned after) := by
      rw [returned_cons (ne_newline_of_isNameChar hc), returned, List.map_append, ← returned,
        ← returned, returned_cons (ne_newline_of_isNameChar hd)]
    have hstops : Reader.StopsBefore isNameChar (returned breaks ++ d :: returned after) := by
      obtain ⟨b, bs, rfl⟩ := List.exists_cons_of_ne_nil hne
      obtain rfl := hbreaks b List.mem_cons_self
      apply Reader.stopsBefore_cons.mpr (isNameChar_of_isBlank isBlank_return)
    intro hlegible
    rw [List.nil_append, htext, lexKinds_name hc, hstops.dropWhile_eq,
      lexKinds_blanks_append hblanks, lexKinds_name hd] at hlegible
    apply hlegible.2.1 _ rfl
  | cons b before ih =>
    intro hlegible
    apply ih hlegible.lexKinds_of_cons

end BreaksName

/-- After a character of a name, a name comes next where line breaks are left out as it does where
carriage returns come in their place, unless it is the same name that goes on. -/
theorem stopsBefore_returned_iff
    {c : Char} {text : List Char} (h : ¬ BreaksName (c :: text)) (hc : isNameChar c = true) :
  Reader.StopsBefore isNameChar (returned text) ↔ Reader.StopsBefore isNameChar (unbroken text)
  := by
  cases text with
  | nil => exact Iff.rfl
  | cons d text =>
    by_cases hd : d = '\n'
    · obtain rfl := hd
      apply iff_of_true
      · apply Reader.stopsBefore_cons.mpr (isNameChar_of_isBlank isBlank_return)
      · apply BreaksName.stopsBefore_unbroken h hc
    · rw [returned_cons hd, unbroken_cons hd, Reader.stopsBefore_cons, Reader.stopsBefore_cons]

/-- The tokens are the same whether line breaks are left out or carriage returns come in their
place, unless these break a name. -/
theorem lexKinds_returned {text : List Char} (h : ¬ BreaksName text) :
  lexKinds (returned text) = lexKinds (unbroken text)
  := by
  induction text with
  | nil => rfl
  | cons c text ih =>
    have hkinds := ih fun hbreaks => h (hbreaks.cons c)
    by_cases hc : c = '\n'
    · obtain rfl := hc
      apply (lexKinds_blank isBlank_return _).trans hkinds
    · rw [returned_cons hc, unbroken_cons hc]
      apply lexKinds_cons_congr hkinds (stopsBefore_returned_iff h)

/-- A blank at the end makes no difference. -/
theorem lexKinds_append_blank {c : Char} (h : isBlank c = true) (text : List Char) :
  lexKinds (text ++ [c]) = lexKinds text
  := by
  have hc := isNameChar_of_isBlank h
  induction text with
  | nil => apply lexKinds_blank h
  | cons d text ih =>
    apply lexKinds_cons_congr ih
    intro _
    cases text with
    | nil => simp [hc]
    | cons e text => exact Iff.rfl

/-! ### What can be read -/

theorem parseDescriptor_congr {line line' : List Char} (h : lexKinds line = lexKinds line')
    {d : Descriptor} (hd : parseDescriptor (String.ofList line) = .ok d) :
  parseDescriptor (String.ofList line') = .ok d
  := by
  obtain ⟨name, states, alphabet, placeholder, initial, finals, hkinds, rfl⟩ :=
    exists_map_kind_of_parseDescriptor hd
  apply parseDescriptor_of_map_kind
  rw [map_kind_lex_ofList, ← h, ← map_kind_lex_ofList, hkinds]

theorem parseTable_congr {body body' : List Char} (h : lexKinds body = lexKinds body')
    {t : Table} (ht : parseTable (String.ofList body) = .ok t) :
  parseTable (String.ofList body') = .ok t
  := by
  obtain ⟨ts, hkinds, rfl⟩ := exists_map_kind_of_parseTable ht
  apply parseTable_of_map_kind
  rw [map_kind_lex_ofList, ← h, ← map_kind_lex_ofList, hkinds]

/-- In a body that is read, no two names are neighbours. -/
theorem legible_of_parseTable {body : List Char} {t : Table}
    (h : parseTable (String.ofList body) = .ok t) :
  Legible (lexKinds body)
  := by
  obtain ⟨ts, hkinds, -⟩ := exists_map_kind_of_parseTable h
  rw [← map_kind_lex_ofList, hkinds]
  apply legible_flatMap_kinds
  intro e he
  simpa using isIdentifier_of_map_kind hkinds he

/-- A description is read with carriage returns when it is read without them and no name goes on
beyond line breaks of its body. -/
theorem parse_crlf_eq_ok_iff {text : String} {r : Descriptor × Table} :
  parse (String.ofList (crlf text.toList)) = .ok r
    ↔ parse text = .ok r ∧ ¬ BreaksName (tableBody text.toList)
  := by
  obtain ⟨d, t⟩ := r
  by_cases hmem : '\n' ∈ text.toList
  · have hline := lexKinds_append_blank isBlank_return (firstLine text.toList)
    rw [parse_crlf hmem, parse_eq_readParts hmem, readParts_eq_ok_iff, readParts_eq_ok_iff]
    constructor
    · rintro ⟨hd, ht⟩
      have hbreaks : ¬ BreaksName (tableBody text.toList) := by
        intro hbreaks
        apply hbreaks.not_legible (legible_of_parseTable ht)
      have hbody := lexKinds_returned hbreaks
      use ⟨parseDescriptor_congr hline hd, parseTable_congr hbody ht⟩
    · rintro ⟨⟨hd, ht⟩, hbreaks⟩
      have hbody := lexKinds_returned hbreaks
      use parseDescriptor_congr hline.symm hd, parseTable_congr hbody.symm ht
  · rw [crlf_of_notMem hmem, String.ofList_toList, parse_of_notMem hmem]
    simp

/-- With carriage returns inside a name of the body, a row is at fault. -/
theorem exists_parse_crlf_error
    {text : String} {r : Descriptor × Table} (h : parse text = .ok r)
    (hbreaks : BreaksName (tableBody text.toList)) :
  ∃ entry fault, parse (String.ofList (crlf text.toList)) = .error (.transition entry fault)
  := by
  obtain ⟨d, t⟩ := r
  by_cases hmem : '\n' ∈ text.toList
  · rw [parse_eq_readParts hmem, readParts_eq_ok_iff] at h
    have hline := lexKinds_append_blank isBlank_return (firstLine text.toList)
    have hd := parseDescriptor_congr hline.symm h.1
    cases ht : parseTable (String.ofList (returned (tableBody text.toList))) with
    | ok t => exact absurd (legible_of_parseTable ht) hbreaks.not_legible
    | error e =>
      use e.entry, e.fault
      rw [parse_crlf hmem, readParts_of_parseTable_error hd ht]
  · rw [parse_of_notMem hmem] at h
    cases h

/-- A text without a line break is too short.  Of any other text the first line and the body are
read, with the line breaks of the body left out; so neither what stands in the second line nor
where the body is broken into lines makes a difference.  What is read of a text with carriage
returns before its line breaks is read of the text itself, and the other way round if no name goes
on beyond line breaks of the body.  If one does, a row is at fault when the carriage returns
stand there. -/
theorem parse_lineBreaks :
  (∀ (text : String) (n : Nat),
      parse text = .error (.tooFewLines n) ↔ n = 1 ∧ '\n' ∉ text.toList)
    ∧ (∀ text : String, '\n' ∈ text.toList →
      parse text = readParts (firstLine text.toList) (unbroken (tableBody text.toList)))
    ∧ (∀ line skipped skipped' body body' : List Char,
      '\n' ∉ line → '\n' ∉ skipped → '\n' ∉ skipped' → unbroken body = unbroken body' →
        parse (String.ofList (line ++ '\n' :: (skipped ++ '\n' :: body)))
          = parse (String.ofList (line ++ '\n' :: (skipped' ++ '\n' :: body'))))
    ∧ (∀ (text : String) (r : Descriptor × Table),
      parse (String.ofList (crlf text.toList)) = .ok r
        ↔ parse text = .ok r ∧ ¬ BreaksName (tableBody text.toList))
    ∧ ∀ (text : String) (r : Descriptor × Table),
      parse text = .ok r → BreaksName (tableBody text.toList) →
        ∃ entry fault,
          parse (String.ofList (crlf text.toList)) = .error (.transition entry fault)
  := by
  have hparts : ∀ line skipped body : List Char, '\n' ∉ line → '\n' ∉ skipped →
      parse (String.ofList (line ++ '\n' :: (skipped ++ '\n' :: body)))
        = readParts line (unbroken body) := by
    intro line skipped body hline hskipped
    rw [parse_eq_readParts (by simp), String.toList_ofList, firstLine_append_newline hline,
      tableBody, afterBreak_append_newline hline, afterBreak_append_newline hskipped]
  and_intros
  · intro text n
    by_cases hmem : '\n' ∈ text.toList
    · rw [parse_eq_readParts hmem]
      simp [readParts_ne_tooFewLines, hmem]
    · rw [parse_of_notMem hmem]
      simp [hmem, eq_comm]
  · intro text
    apply parse_eq_readParts
  · intro line skipped skipped' body body' hline hskipped hskipped' hbody
    rw [hparts line skipped body hline hskipped, hparts line skipped' body' hline hskipped',
      hbody]
  · intro text r
    apply parse_crlf_eq_ok_iff
  · intro text r
    apply exists_parse_crlf_error

/-- The body of the first text breaks the name `q0`, which the carriage returns of the second
separate.  Those of the third stand beside marks. -/
theorem parse_lineBreaks_broken :
  let d := Descriptor.ofLists "M" ["q0"] ["é"] "q0" ["q0"]
  let t := Table.ofList [⟨"q0", "é", "q0"⟩]
  parse "M=({q0},{é},Prog,q0,{q0})\n((\n(q0,é)=q\n\n0" = .ok (d, t)
    ∧ (∃ entry fault,
      parse "M=({q0},{é},Prog,q0,{q0})\r\n((\r\n(q0,é)=q\r\n\r\n0"
        = .error (.transition entry fault))
    ∧ parse "M=({q0},{é},Prog,q0,{q0})\r\nProg\r\n(q0,\r\né)=q0\r\n" = .ok (d, t)
    ∧ parse "M=({q0},{é},Prog,q0,{q0})\nProg\n(q0,\né)=q0\n" = .ok (d, t)
  := by
  intro d t
  obtain ⟨-, -, hbroken, hcrlf, herror⟩ := parse_lineBreaks
  have hwritten : parse "M=({q0},{é},Prog,q0,{q0})\nProg\n(q0,é)=q0\n" = .ok (d, t) := by
    have hrender : (Automaton.ofParts d t).render
        = "M=({q0},{é},Prog,q0,{q0})\nProg\n(q0,é)=q0\n" := by
      decide
    have hnames : (Automaton.ofParts d t).Writable := by decide
    rw [← hrender]
    apply hnames.parse_renderChars
  have hparse : parse "M=({q0},{é},Prog,q0,{q0})\n((\n(q0,é)=q\n\n0" = .ok (d, t) := by
    rw [← hwritten]
    apply hbroken "M=({q0},{é},Prog,q0,{q0})".toList "((".toList "Prog".toList
      "(q0,é)=q\n\n0".toList "(q0,é)=q0\n".toList
    all_goals decide
  have hname : BreaksName (tableBody "M=({q0},{é},Prog,q0,{q0})\n((\n(q0,é)=q\n\n0".toList) := by
    use "(q0,é)=".toList, 'q', ['\n', '\n'], '0', []
    and_intros
    · decide
    · apply List.cons_ne_nil
    · simp
    · rfl
    · rfl
  have hreturned : String.ofList (crlf "M=({q0},{é},Prog,q0,{q0})\n((\n(q0,é)=q\n\n0".toList)
      = "M=({q0},{é},Prog,q0,{q0})\r\n((\r\n(q0,é)=q\r\n\r\n0" := by
    decide
  have hmarks : String.ofList (crlf "M=({q0},{é},Prog,q0,{q0})\nProg\n(q0,\né)=q0\n".toList)
      = "M=({q0},{é},Prog,q0,{q0})\r\nProg\r\n(q0,\r\né)=q0\r\n" := by
    decide
  have hlines : lines "M=({q0},{é},Prog,q0,{q0})\r\nProg\r\n(q0,\r\né)=q0\r\n".toList
      = "M=({q0},{é},Prog,q0,{q0})\r".toList :: "Prog\r".toList
        :: ["(q0,\r".toList, "é)=q0\r".toList, []] := by
    decide
  have hline : (lex (String.ofList "M=({q0},{é},Prog,q0,{q0})\r".toList)).map Token.kind
      = descriptorKinds "M" ["q0"] ["é"] "Prog" "q0" ["q0"] := by
    with_unfolding_all rfl
  have hbody : (lex (String.ofList
      ["(q0,\r".toList, "é)=q0\r".toList, []].flatten)).map Token.kind
      = [⟨"q0", "é", "q0"⟩].flatMap Transition.kinds := by
    with_unfolding_all rfl
  have hreturns := parse_eq_ok_iff.mpr
    ⟨_, _, _, hlines, parseDescriptor_of_map_kind hline, parseTable_of_map_kind hbody⟩
  have hfault := herror _ _ hparse hname
  have hread := hcrlf "M=({q0},{é},Prog,q0,{q0})\nProg\n(q0,\né)=q0\n" (d, t)
  rw [hreturned] at hfault
  rw [hmarks] at hread
  use hparse, hfault, hreturns, (hread.mp hreturns).1

end Acceptor

import Acceptor.Automaton
import Acceptor.Description.DescriptorLine
import Acceptor.Description.TableBody

/-!
# Descriptions

A description is a descriptor line, a line that is not read, and a table body, which may
be broken into lines at any place, also inside an identifier.  `parse` reads the two
halves and does not compare them; `Automaton.render` writes a description.
-/

namespace Acceptor

/-- The lines of a text, of which there is at least one. -/
def lines (text : List Char) : List (List Char) :=
  text.foldr
    (fun c ls =>
      if c = '\n' then [] :: ls
      else
        match ls with
        | [] => [[c]]
        | l :: ls => (c :: l) :: ls)
    [[]]

@[simp]
theorem lines_nil :
  lines [] = [[]]
  := rfl

theorem lines_newline (text : List Char) :
  lines ('\n' :: text) = [] :: lines text
  := rfl

theorem lines_ne_nil (text : List Char) :
  lines text ≠ []
  := by
  cases text with
  | nil => simp
  | cons c text =>
    simp only [lines, List.foldr_cons]
    split
    · simp
    · split <;> simp

theorem lines_cons {c : Char} (h : c ≠ '\n') {text l : List Char} {ls : List (List Char)}
    (hl : lines text = l :: ls) :
  lines (c :: text) = (c :: l) :: ls
  := by
  simp only [lines, List.foldr_cons, if_neg h] at hl ⊢
  rw [hl]

/-- The first line ends at the first line break. -/
theorem lines_append_newline {l : List Char} (h : '\n' ∉ l) (text : List Char) :
  lines (l ++ '\n' :: text) = l :: lines text
  := by
  induction l with
  | nil => rfl
  | cons c l ih =>
    rw [List.mem_cons, not_or] at h
    apply lines_cons (Ne.symm h.1) (ih h.2)

/-- The lines together are the text without its line breaks. -/
theorem flatten_lines (text : List Char) :
  (lines text).flatten = text.filter (· ≠ '\n')
  := by
  induction text with
  | nil => rfl
  | cons c text ih =>
    by_cases hc : c = '\n'
    · obtain rfl := hc
      rw [lines_newline, List.flatten_cons, ih]
      rfl
    · obtain ⟨l, ls, hl⟩ := List.exists_cons_of_ne_nil (lines_ne_nil text)
      rw [hl, List.flatten_cons] at ih
      rw [lines_cons hc hl, List.flatten_cons, List.cons_append, ih,
        List.filter_cons_of_pos (by simpa using hc)]

/-- Reads a descriptor line and a table body. -/
def readParts (line body : List Char) : Except DescriptionError (Descriptor × Table) := do
  let d ← (parseDescriptor (String.ofList line)).mapError .descriptor
  let t ← (parseTable (String.ofList body)).mapError fun e => .transition e.entry e.fault
  pure (d, t)

/-- Reads the descriptor and the table of a description. -/
def parse (text : String) : Except DescriptionError (Descriptor × Table) :=
  match lines text.toList with
  | descriptor :: _ :: body => readParts descriptor body.flatten
  | short => .error (.tooFewLines short.length)

/-- Reads a description as an automaton with the default settings. -/
def parseAutomaton (text : String) : Except DescriptionError Automaton := do
  let (d, t) ← parse text
  pure (Automaton.ofParts d t)

/-- Reads a description as an automaton with the given settings. -/
def Automaton.ofDescription (text : String) (config : Config) :
    Except DescriptionError Automaton := do
  let (d, t) ← parse text
  pure ⟨d, t, config⟩

/-- The characters of a description. -/
def Automaton.renderChars (a : Automaton) : List Char :=
  a.descriptor.renderChars ++ "\nProg\n".toList ++ a.table.renderChars

/-- Writes a description. -/
def Automaton.render (a : Automaton) : String :=
  String.ofList a.renderChars

end Acceptor

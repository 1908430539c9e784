/-!
# Forms of texts

A `TextForm` is a way to write the values of a type as texts and to read these.
-/

namespace Acceptor

/-- A way to write values as texts and to read them. -/
structure TextForm (α : Type) where
  /-- Writes a value. -/
  render : α → String
  /-- Reads a value. -/
  ofText? : String → Option α

/-- The values that satisfy `p` are read back from their texts. -/
def TextForm.ReadsBack {α : Type} (form : TextForm α) (p : α → Prop) : Prop :=
  ∀ a, p a → form.ofText? (form.render a) = some a

end Acceptor

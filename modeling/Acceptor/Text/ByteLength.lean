/-!
# Byte lengths

Offsets in a text count the bytes of its UTF-8 form.  `byteLength` is that length for a
list of characters.
-/

namespace Acceptor

/-- The number of bytes of a list of characters. -/
def byteLength (cs : List Char) : Nat :=
  cs.foldr (fun c n => c.utf8Size + n) 0

@[simp]
theorem byteLength_nil :
  byteLength [] = 0
  := rfl

@[simp]
theorem byteLength_cons (c : Char) (cs : List Char) :
  byteLength (c :: cs) = c.utf8Size + byteLength cs
  := rfl

@[simp]
theorem byteLength_append (cs ds : List Char) :
  byteLength (cs ++ ds) = byteLength cs + byteLength ds
  := by
  induction cs with
  | nil => simp
  | cons c cs ih =>
    rw [List.cons_append, byteLength_cons, byteLength_cons, ih, Nat.add_assoc]

/-- What comes after a list of characters and adds no bytes is empty. -/
theorem eq_nil_of_byteLength_append {cs ds : List Char}
    (h : byteLength (cs ++ ds) = byteLength cs) :
  ds = []
  := by
  cases ds with
  | nil => rfl
  | cons d ds =>
    have hpos := d.utf8Size_pos
    rw [byteLength_append, byteLength_cons] at h
    omega

/-- Where two lists of characters were put together is told by the length of the first one. -/
theorem append_inj_of_byteLength_eq {cs ds cs' ds' : List Char} (h : cs ++ ds = cs' ++ ds')
    (hlength : byteLength cs = byteLength cs') :
  cs = cs' ∧ ds = ds'
  := by
  rcases List.append_eq_append_iff.mp h with ⟨more, rfl, rfl⟩ | ⟨more, rfl, rfl⟩
  · obtain rfl := eq_nil_of_byteLength_append hlength.symm
    simp
  · obtain rfl := eq_nil_of_byteLength_append hlength
    simp

theorem byteLength_le (cs : List Char) :
  byteLength cs ≤ 4 * cs.length
  := by
  induction cs with
  | nil => apply Nat.le_refl
  | cons c cs ih =>
    have hc := c.utf8Size_le_four
    rw [byteLength_cons, List.length_cons]
    omega

/-- The length of a list of characters is the size of the string that they make. -/
theorem utf8ByteSize_ofList (cs : List Char) :
  (String.ofList cs).utf8ByteSize = byteLength cs
  := by
  induction cs with
  | nil => rfl
  | cons c cs ih =>
    rw [String.ofList_cons, String.utf8ByteSize_append, ih]
    simp

theorem byteLength_toList (s : String) :
  byteLength s.toList = s.utf8ByteSize
  := by
  rw [← utf8ByteSize_ofList, String.ofList_toList]

end Acceptor

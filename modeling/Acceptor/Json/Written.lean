import Acceptor.Json.Quoted
import Acceptor.Json.Value

/-!
# Written values

The characters of a value in either layout: one is without any space, and one has a line for
each member, indented by two spaces for each bracket around it.
-/

namespace Acceptor.Json

/-- What stands before a member inside `depth` brackets. -/
def Layout.newline (layout : Layout) (depth : Nat) : List Char :=
  match layout with
  | .compact => []
  | .indented => '\n' :: List.replicate (2 * depth) ' '

/-- What stands between the name of a member and its value. -/
def Layout.colon : Layout → List Char
  | .compact => [':']
  | .indented => [':', ' ']

/-- Written members between brackets, inside `depth` other brackets. -/
def Layout.enclose (layout : Layout) (depth : Nat) (opening closing : Char) :
    List (List Char) → List Char
  | [] => [opening, closing]
  | first :: rest =>
    opening :: layout.newline (depth + 1) ++ first
      ++ (rest.flatMap fun member => ',' :: layout.newline (depth + 1) ++ member)
      ++ layout.newline depth ++ [closing]

mutual

/-- Writes a value inside `depth` brackets. -/
def Value.write (layout : Layout) (depth : Nat) : Value → List Char
  | .text s => quote s
  | .number n => Nat.toDigits 10 n.toNat
  | .list elements => layout.enclose depth '[' ']' (Value.writeList layout (depth + 1) elements)
  | .object members =>
    layout.enclose depth '{' '}' (Value.writeMembers layout (depth + 1) members)

/-- Writes each element of a list. -/
def Value.writeList (layout : Layout) (depth : Nat) : List Value → List (List Char)
  | [] => []
  | v :: vs => v.write layout depth :: Value.writeList layout depth vs

/-- Writes each member of an object. -/
def Value.writeMembers (layout : Layout) (depth : Nat) :
    List (String × Value) → List (List Char)
  | [] => []
  | (key, v) :: members =>
    (quote key ++ layout.colon ++ v.write layout depth)
      :: Value.writeMembers layout depth members

end

theorem Value.writeList_eq_map (layout : Layout) (depth : Nat) (vs : List Value) :
  Value.writeList layout depth vs = vs.map fun v => v.write layout depth
  := by
  induction vs with
  | nil => rw [Value.writeList, List.map_nil]
  | cons v vs ih => rw [Value.writeList, ih, List.map_cons]

end Acceptor.Json

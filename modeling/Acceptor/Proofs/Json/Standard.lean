import Acceptor.Proofs.Json.Numeral
import Acceptor.Proofs.Json.Shape

/-!
# The standard JSON codec is lawful
-/

namespace Acceptor.Json

theorem run_onlySpaces (cs : List Char) :
  onlySpaces.run cs = if cs.all isSpace then .ok ((), []) else .error .malformed
  := by
  rw [onlySpaces, Reader.run_bind_of_ok (run_next cs)]
  split
  · next hhead =>
    have hnil := List.head?_eq_none_iff.mp hhead
    rw [if_pos (List.all_eq_true.mpr (List.dropWhile_eq_nil_iff.mp hnil)), hnil]
    rfl
  · next c hhead =>
    rw [if_neg]
    · rfl
    · intro hspaces
      rw [List.dropWhile_eq_nil_iff.mpr (List.all_eq_true.mp hspaces)] at hhead
      cases hhead

/-- The standard codec reads back what it writes. -/
theorem standard_lawful : standard.Lawful
  where
  reads_text := reads_text
  readsMember_number := readsMember_number
  reads_list h _ := reads_list h
  reads_record h hfinish _ := reads_record h hfinish
  reads_constant := reads_constant
  reads_holding hfind h _ := reads_holding hfind h
  run_finish := run_onlySpaces

end Acceptor.Json

import Acceptor.Proofs.Json.Shape
import Mathlib.Algebra.Group.Nat.Defs
import Mathlib.Data.List.Basic

/-!
# Numbers that are read back

A natural number is read back from its digits where no character follows that could go on a
numeral.  Digits that break off stand for a smaller number, which is in all ranges in which the
whole number is (`readsInside_naturalBelow`).
-/

namespace Acceptor.Json

open Reader (StopsBefore)

/-! ### Digits -/

theorem le_ofDigitChars (ds : List Char) (n : Nat) :
  n ≤ Nat.ofDigitChars 10 ds n
  := by
  rw [Nat.ofDigitChars_eq_ofDigitChars_zero]
  have hpos : 0 < 10 ^ ds.length := Nat.pow_pos (by decide)
  have hle := Nat.le_mul_of_pos_left n hpos
  omega

/-- Digits that break off stand for a number that is no larger. -/
theorem ofDigitChars_take_le (ds : List Char) (k n : Nat) :
  Nat.ofDigitChars 10 (ds.take k) n ≤ Nat.ofDigitChars 10 ds n
  := by
  rw [← List.take_append_drop k ds, Nat.ofDigitChars_append, List.take_append_drop]
  apply le_ofDigitChars

/-- The digits of a number do not begin with zero, unless zero is the number. -/
theorem head?_toDigits_ne {n : Nat} (h : 0 < n) :
  (Nat.toDigits 10 n).head? ≠ some '0'
  := by
  induction n using Nat.strongRecOn with
  | ind n ih =>
    rw [Nat.toDigits_eq_if (by decide)]
    split
    · next hlt =>
      have hdigit : ∀ d < 10, 0 < d → d.digitChar ≠ '0' := by decide
      intro heq
      apply hdigit n hlt h (Option.some.inj heq)
    · rw [List.head?_append_of_ne_nil _ Nat.toDigits_ne_nil]
      apply ih (n / 10)
      · omega
      · omega

/-- The digits of a number begin with zero only if there is no other digit. -/
theorem exists_toDigits_eq_cons (n : Nat) :
  ∃ c ds, Nat.toDigits 10 n = c :: ds ∧ (c ≠ '0' ∨ ds = [])
  := by
  obtain ⟨c, ds, htext⟩ := List.exists_cons_of_ne_nil (Nat.toDigits_ne_nil (n := n) (b := 10))
  use c, ds, htext
  rcases Nat.eq_zero_or_pos n with rfl | hpos
  · exact .inr (List.cons.inj htext).2.symm
  · left
    rintro rfl
    apply head?_toDigits_ne hpos
    rw [htext, List.head?_cons]

/-! ### Range -/

theorem round53_eq {n : Nat} (h : n < 2 ^ 53) :
  round53 n = n
  := by
  have hspare : n.log2 - 52 = 0 := by
    rcases Nat.eq_zero_or_pos n with rfl | hpos
    · decide
    · have hlog := (Nat.log2_lt (Nat.ne_of_gt hpos)).mpr h
      omega
  rw [round53, hspare]
  simp [Nat.mod_one]

/-- A significand takes up all digits of a number that fits in 64 bits. -/
theorem absorb_eq {n : Nat} {ds : List Char} (h : Nat.ofDigitChars 10 ds n < 2 ^ 64) :
  absorb n ds = (Nat.ofDigitChars 10 ds n, 0)
  := by
  induction ds generalizing n with
  | nil => rfl
  | cons d ds ih =>
    have hcons : Nat.ofDigitChars 10 (d :: ds) n
        = Nat.ofDigitChars 10 ds (Nat.ofDigitChars 10 [d] n) :=
      Nat.ofDigitChars_append (l := [d]) n
    have hle := le_ofDigitChars ds (Nat.ofDigitChars 10 [d] n)
    rw [hcons] at h ⊢
    rw [absorb, if_pos (by omega), ih h]

/-- A natural number of 53 bits is in range. -/
theorem Numeral.outOfRange_eq_false
    {ds : List Char} (h : Nat.ofDigitChars 10 ds 0 < 2 ^ 53) :
  (⟨false, ds, [], none⟩ : Numeral).outOfRange = false
  := by
  have habsorb : absorb 0 ds = (Nat.ofDigitChars 10 ds 0, 0) := absorb_eq (by omega)
  have hscaled : (⟨false, ds, [], none⟩ : Numeral).scaled = (Nat.ofDigitChars 10 ds 0, 0) := by
    rw [Numeral.scaled, habsorb]
    rfl
  have hone : round53 (Nat.pow 10 (Int.toNat 0)) = 1 := by decide
  have hlarge : 2 ^ 53 ≤ 1 <<< 1024 - 1 <<< 970 := by decide
  have hsmall : ¬ Nat.ofDigitChars 10 ds 0 * 1 ≥ 1 <<< 1024 - 1 <<< 970 := by omega
  rw [Numeral.outOfRange, hscaled]
  dsimp only
  rw [round53_eq h, hone, decide_eq_false hsmall]
  simp

/-! ### Numerals -/

theorem run_wholePart
    {c : Char} {ds rest : List Char} (hdigits : ∀ d ∈ c :: ds, d.isDigit = true)
    (hzero : c ≠ '0' ∨ ds = []) (hrest : StopsBefore Char.isDigit rest) :
  (wholePart c).run (ds ++ rest) = .ok (c :: ds, rest)
  := by
  rw [wholePart]
  split
  · next hc =>
    obtain rfl := hzero.resolve_left fun h => h hc
    rw [List.nil_append, Reader.run_bind_of_ok (Reader.run_peek rest)]
    cases rest with
    | nil => rfl
    | cons d rest =>
      rw [List.head?_cons]
      dsimp only
      rw [if_neg (by rw [Reader.stopsBefore_cons.mp hrest]; exact Bool.false_ne_true)]
      rfl
  · have hrun := Reader.run_takeWhile_append (ε := Fault)
      (fun d hd => hdigits d (List.mem_cons_of_mem c hd)) hrest
    rw [if_pos (hdigits c List.mem_cons_self), Reader.run_bind_of_ok hrun]
    rfl

theorem run_fractionPart
    {rest : List Char} (hrest : StopsBefore continuesNumeral rest) (atEnd : Fault) :
  (fractionPart atEnd).run rest = .ok ([], rest)
  := by
  rw [fractionPart, Reader.run_bind_of_ok (Reader.run_peek rest)]
  split
  · next hhead =>
    cases hrest '.' hhead
  · rfl

theorem run_exponentPart
    {rest : List Char} (hrest : StopsBefore continuesNumeral rest) (atEnd : Fault) :
  (exponentPart atEnd).run rest = .ok (none, rest)
  := by
  rw [exponentPart, Reader.run_bind_of_ok (Reader.run_peek rest)]
  split
  · next c hhead =>
    have hc := hrest c hhead
    rw [if_neg]
    · rfl
    · rintro (rfl | rfl)
      · cases hc
      · cases hc
  · rfl

theorem stopsBefore_isDigit {rest : List Char} (h : StopsBefore continuesNumeral rest) :
  StopsBefore Char.isDigit rest
  := by
  intro c hc
  have hcontinues := h c hc
  simp only [continuesNumeral, Bool.or_eq_false_iff] at hcontinues
  exact hcontinues.1.1.1

/-- Digits are read as a numeral without fraction and exponent. -/
theorem run_numeral
    {c : Char} {ds rest : List Char} (hdigits : ∀ d ∈ c :: ds, d.isDigit = true)
    (hzero : c ≠ '0' ∨ ds = []) (hrest : StopsBefore continuesNumeral rest) (atEnd : Fault) :
  (numeral atEnd c).run (ds ++ rest) = .ok (⟨false, c :: ds, [], none⟩, rest)
  := by
  have hsign : c ≠ '-' := by
    rintro rfl
    cases hdigits '-' List.mem_cons_self
  have hwhole := run_wholePart hdigits hzero (stopsBefore_isDigit hrest)
  rw [numeral, if_neg hsign, Reader.run_bind_of_ok hwhole,
    Reader.run_bind_of_ok (run_fractionPart hrest atEnd),
    Reader.run_bind_of_ok (run_exponentPart hrest atEnd), Reader.run_pure, beq_false_of_ne hsign]

/-- Digits are read as the number that they stand for, if it is small enough. -/
theorem run_naturalBelow
    {bound : Nat} {c : Char} {ds rest : List Char} (hdigits : ∀ d ∈ c :: ds, d.isDigit = true)
    (hzero : c ≠ '0' ∨ ds = []) (hrest : StopsBefore continuesNumeral rest)
    (hlt : Nat.ofDigitChars 10 (c :: ds) 0 < bound) (hbound : bound ≤ 2 ^ 53) :
  (naturalBelow bound).run (c :: ds ++ rest) = .ok (Nat.ofDigitChars 10 (c :: ds) 0, rest)
  := by
  have hc := hdigits c List.mem_cons_self
  have hnumeral : (numeralInRange c).run (ds ++ rest) = .ok (⟨false, c :: ds, [], none⟩, rest) := by
    rw [numeralInRange, Reader.run_bind_of_ok (run_numeral hdigits hzero hrest .incomplete),
      Numeral.outOfRange_eq_false (by omega), if_neg Bool.false_ne_true, Reader.run_pure]
  rw [naturalBelow, List.cons_append, run_next_bind (isSpace_of_isDigit hc)]
  dsimp only
  rw [if_pos (.inr hc), Reader.run_bind_of_ok (Reader.run_item _), List.tail_cons,
    Reader.run_bind_of_ok hnumeral]
  dsimp only [Numeral.natural?]
  simp [hlt]

/-- A natural number is read back inside brackets. -/
theorem readsInside_naturalBelow {bound n : Nat} (hlt : n < bound) (hbound : bound ≤ 2 ^ 53) :
  ReadsInside (naturalBelow bound) (Nat.toDigits 10 n) n
  := by
  obtain ⟨c, ds, htext, hzero⟩ := exists_toDigits_eq_cons n
  have hvalue : Nat.ofDigitChars 10 (c :: ds) 0 = n := by
    rw [← htext]
    apply Nat.ofDigitChars_ten_toDigits
  have hdigits : ∀ d ∈ c :: ds, d.isDigit = true := by
    rw [← htext]
    intro d hd
    apply Nat.isDigit_of_mem_toDigits (by decide) (by decide) hd
  rw [htext]
  constructor
  · intro rest hrest
    rw [run_naturalBelow hdigits hzero hrest (by omega) hbound, hvalue]
  · intro k _
    cases k with
    | zero => exact .inl rfl
    | succ k =>
      -- Fewer digits are a numeral too, and stand for a number that is small enough.
      have hle := ofDigitChars_take_le (c :: ds) (k + 1) 0
      have hfewer : ∀ d ∈ c :: ds.take k, d.isDigit = true := fun d hd =>
        hdigits d (List.mem_of_mem_take (i := k + 1) hd)
      have hrun := run_naturalBelow hfewer (hzero.imp_right fun h => by rw [h, List.take_nil])
        (Reader.stopsBefore_nil _) (by rw [← List.take_succ_cons]; omega) hbound
      rw [List.append_nil] at hrun
      exact .inr ⟨_, hrun⟩

/-- A number below 2 ^ 32 is read back inside brackets. -/
theorem readsMember_number (n : UInt32) :
  standard.ReadsMember number (.number n) n
  := by
  constructor
  · apply (skipsSpaces_next.bind _).bind
  · intro layout depth
    have hnatural := readsInside_naturalBelow n.toNat_lt (by decide)
    have hnumber := hnatural.map UInt32.ofNat
    rw [UInt32.ofNat_toNat] at hnumber
    rw [standard_write, Value.write]
    exact hnumber

end Acceptor.Json

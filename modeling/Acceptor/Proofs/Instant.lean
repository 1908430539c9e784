import Acceptor.Instant.Rfc3339
import Acceptor.Proofs.Reader
import Acceptor.Text.ByteLength
import Mathlib.Algebra.Group.Nat.Defs

/-!
# Instants that are read back

Every instant is read back from its text (`ofText?_render`): each part is read up to the mark
that follows it, which is neither a digit nor a blank.
-/

namespace Acceptor.Instant

open Reader (StopsBefore)

/-! ### Digits -/

theorem toNat_digit {d : Nat} (h : d < 10) :
  (Char.ofNat (48 + d)).toNat = 48 + d
  := by
  revert d
  decide

theorem isDigit_digit {d : Nat} (h : d < 10) :
  (Char.ofNat (48 + d)).isDigit = true
  := by
  revert d
  decide

theorem isBlank_of_isDigit {c : Char} (h : c.isDigit = true) :
  isBlank c = false
  := by
  have hlow : 48 ≤ c.toNat := (Char.isDigit_iff_toNat.mp h).1
  have hhigh : c.toNat ≤ 57 := (Char.isDigit_iff_toNat.mp h).2
  simp only [isBlank, Bool.or_eq_false_iff, Bool.and_eq_false_iff, decide_eq_false_iff_not,
    beq_eq_false_iff_ne]
  omega

theorem length_paddedDigits (width n : Nat) :
  (paddedDigits width n).length = width
  := by
  induction width generalizing n with
  | zero => rfl
  | succ width ih => simp [paddedDigits, ih]

theorem isDigit_of_mem_paddedDigits {width n : Nat} {c : Char} (h : c ∈ paddedDigits width n) :
  c.isDigit = true
  := by
  induction width generalizing n with
  | zero => cases h
  | succ width ih =>
    rcases List.mem_append.mp h with h | h
    · exact ih h
    · obtain rfl := List.mem_singleton.mp h
      apply isDigit_digit
      omega

/-- The digits stand for the number, if there are enough of them. -/
theorem decimal_paddedDigits {width n : Nat} (h : n < 10 ^ width) :
  decimal (paddedDigits width n) = n
  := by
  induction width generalizing n with
  | zero =>
    obtain rfl : n = 0 := by simpa using h
    rfl
  | succ width ih =>
    have hhigh : n / 10 < 10 ^ width := by
      rw [Nat.div_lt_iff_lt_mul (by decide), ← Nat.pow_succ]
      exact h
    have ih := ih hhigh
    have hlow : n % 10 < 10 := Nat.mod_lt n (by decide)
    rw [decimal] at ih ⊢
    rw [paddedDigits, Nat.ofDigitChars_append, ih, Nat.ofDigitChars_cons, Nat.ofDigitChars_nil,
      toNat_digit hlow]
    simp
    omega

/-! ### Parts -/

theorem stopsBefore_isBlank
    {ds : List Char} (hdigits : ∀ c ∈ ds, c.isDigit = true) (hne : ds ≠ []) (rest : List Char) :
  StopsBefore isBlank (ds ++ rest)
  := by
  obtain ⟨c, ds, rfl⟩ := List.exists_cons_of_ne_nil hne
  rw [List.cons_append, Reader.stopsBefore_cons]
  apply isBlank_of_isDigit
  apply hdigits c List.mem_cons_self

theorem run_blanks {rest : List Char} (h : StopsBefore isBlank rest) :
  blanks.run rest = .ok ((), rest)
  := by
  rw [blanks, Reader.run_bind, Reader.run_takeWhile, h.dropWhile_eq]
  rfl

theorem run_someDigits
    {most : Nat} {ds rest : List Char} (hdigits : ∀ c ∈ ds, c.isDigit = true) (hne : ds ≠ [])
    (hmost : ds.length ≤ most) (hrest : StopsBefore Char.isDigit rest) :
  (someDigits most).run (ds ++ rest) = .ok (ds, rest)
  := by
  have hstops := hrest.take (most - ds.length)
  have htake : ((ds ++ rest).take most).takeWhile Char.isDigit = ds := by
    rw [List.take_append, List.take_of_length_le hmost, List.takeWhile_append_of_pos hdigits,
      hstops.takeWhile_eq_nil, List.append_nil]
  rw [someDigits]
  dsimp only
  rw [htake, if_neg (by simpa using hne), List.drop_left]

/-- A number of two digits is read up to the mark that follows it. -/
theorem run_shortNumber
    {n : Nat} {rest : List Char} (hn : n < 100) (hrest : StopsBefore Char.isDigit rest) :
  shortNumber.run (paddedDigits 2 n ++ rest) = .ok (n, rest)
  := by
  have hdigits : ∀ c ∈ paddedDigits 2 n, c.isDigit = true := fun _ => isDigit_of_mem_paddedDigits
  have hlength := length_paddedDigits 2 n
  have hne : paddedDigits 2 n ≠ [] := List.ne_nil_of_length_eq_add_one hlength
  rw [shortNumber, Reader.run_bind_of_ok (run_blanks (stopsBefore_isBlank hdigits hne rest)),
    Reader.run_bind_of_ok (run_someDigits hdigits hne (Nat.le_of_eq hlength) hrest),
    decimal_paddedDigits hn]
  rfl

theorem run_separator {c : Char} (hc : isBlank c = false) (rest : List Char) :
  (separator c).run (c :: rest) = .ok ((), rest)
  := by
  rw [separator, Reader.run_bind_of_ok (run_blanks (Reader.stopsBefore_cons.mpr hc)),
    Reader.run_bind, Reader.run_item]
  simp

/-- A year is written as the digits of its size, after a sign if it needs one. -/
theorem exists_yearDigits (y : Int) :
  ∃ ds : List Char, (∀ c ∈ ds, c.isDigit = true) ∧ ds ≠ [] ∧ decimal ds = y.natAbs
    ∧ (y < 0 ∧ yearDigits y = '-' :: ds ∨ 10000 ≤ y ∧ yearDigits y = '+' :: ds
      ∨ 0 ≤ y ∧ ds.length = 4 ∧ yearDigits y = ds)
  := by
  obtain ⟨ds, hsize, hdigits, hne, hdecimal, hlength⟩ : ∃ ds : List Char,
      (if y.natAbs < 10000 then paddedDigits 4 y.natAbs else Nat.toDigits 10 y.natAbs) = ds
        ∧ (∀ c ∈ ds, c.isDigit = true) ∧ ds ≠ [] ∧ decimal ds = y.natAbs
        ∧ (y.natAbs < 10000 → ds.length = 4) := by
    by_cases h : y.natAbs < 10000
    · have hlength := length_paddedDigits 4 y.natAbs
      use paddedDigits 4 y.natAbs, if_pos h, fun _ => isDigit_of_mem_paddedDigits,
        List.ne_nil_of_length_eq_add_one hlength, decimal_paddedDigits h, fun _ => hlength
    · use Nat.toDigits 10 y.natAbs, if_neg h,
        fun _ => Nat.isDigit_of_mem_toDigits (by decide) (by decide), Nat.toDigits_ne_nil,
        Nat.ofDigitChars_ten_toDigits, fun h' => absurd h' h
  use ds, hdigits, hne, hdecimal
  rw [yearDigits, hsize]
  by_cases hnegative : y < 0
  · exact .inl ⟨hnegative, if_pos hnegative⟩
  · rw [if_neg hnegative]
    by_cases hlarge : 10000 ≤ y
    · exact .inr (.inl ⟨hlarge, if_pos hlarge⟩)
    · exact .inr (.inr ⟨by omega, hlength (by omega), if_neg hlarge⟩)

theorem run_signedDigits
    {ds rest : List Char} (hdigits : ∀ c ∈ ds, c.isDigit = true) (hne : ds ≠ [])
    (hrest : StopsBefore Char.isDigit rest) :
  year.signedDigits.run (ds ++ rest) = .ok (ds, rest)
  := by
  rw [year.signedDigits, Reader.run_bind_of_ok (Reader.run_takeWhile_append hdigits hrest),
    if_neg (by simpa using hne)]
  rfl

theorem run_year_minus (cs : List Char) :
  year.run ('-' :: cs) = (year.signedDigits >>= fun ds => pure (-(decimal ds : Int))).run cs
  := rfl

theorem run_year_plus (cs : List Char) :
  year.run ('+' :: cs) = (year.signedDigits >>= fun ds => pure (decimal ds : Int)).run cs
  := rfl

theorem run_year_of_isDigit {c : Char} (hc : c.isDigit = true) (cs : List Char) :
  year.run (c :: cs) = (someDigits 4 >>= fun ds => pure (decimal ds : Int)).run (c :: cs)
  := by
  have hblanks : StopsBefore isBlank (c :: cs) :=
    Reader.stopsBefore_cons.mpr (isBlank_of_isDigit hc)
  rw [year, Reader.run_bind_of_ok (run_blanks hblanks), Reader.run_bind, Reader.run_peek]
  dsimp only [List.head?_cons]
  split
  · next h =>
    obtain rfl := Option.some.inj h
    cases hc
  · next h =>
    obtain rfl := Option.some.inj h
    cases hc
  · rfl

/-- A year is read up to the mark that follows it. -/
theorem run_year (y : Int) {rest : List Char} (hrest : StopsBefore Char.isDigit rest) :
  year.run (yearDigits y ++ rest) = .ok (y, rest)
  := by
  obtain ⟨ds, hdigits, hne, hdecimal, hsign⟩ := exists_yearDigits y
  rcases hsign with ⟨hnegative, heq⟩ | ⟨hlarge, heq⟩ | ⟨hpositive, hlength, heq⟩
  · rw [heq, List.cons_append, run_year_minus,
      Reader.run_bind_of_ok (run_signedDigits hdigits hne hrest), hdecimal, Reader.run_pure,
      show -(y.natAbs : Int) = y by omega]
  · rw [heq, List.cons_append, run_year_plus,
      Reader.run_bind_of_ok (run_signedDigits hdigits hne hrest), hdecimal, Reader.run_pure,
      show (y.natAbs : Int) = y by omega]
  · have hrun := run_someDigits hdigits hne (Nat.le_of_eq hlength) hrest
    obtain ⟨c, ds, rfl⟩ := List.exists_cons_of_ne_nil hne
    rw [heq, List.cons_append, run_year_of_isDigit (hdigits c List.mem_cons_self),
      ← List.cons_append, Reader.run_bind_of_ok hrun, hdecimal, Reader.run_pure,
      show (y.natAbs : Int) = y by omega]

theorem run_nanoseconds_point (cs : List Char) :
  nanoseconds.run ('.' :: cs)
    = (do
        let ds ← someDigits 9
        let _ ← Reader.takeWhile Char.isDigit
        pure (decimal ds * Nat.pow 10 (9 - ds.length)) : Scan Nat).run cs
  := rfl

/-- The digits after the point are read up to the mark that follows them. -/
theorem run_nanoseconds_digits
    {width n : Nat} {rest : List Char} (hpos : 0 < width) (hwidth : width ≤ 9)
    (hn : n < 10 ^ width) (hrest : StopsBefore Char.isDigit rest) :
  nanoseconds.run ('.' :: paddedDigits width n ++ rest) = .ok (n * 10 ^ (9 - width), rest)
  := by
  have hdigits : ∀ c ∈ paddedDigits width n, c.isDigit = true :=
    fun _ => isDigit_of_mem_paddedDigits
  have hlength := length_paddedDigits width n
  have hne : paddedDigits width n ≠ [] := by
    rw [← List.length_pos_iff, hlength]
    exact hpos
  rw [List.cons_append, run_nanoseconds_point,
    Reader.run_bind_of_ok (run_someDigits hdigits hne (by omega) hrest), Reader.run_bind,
    Reader.run_takeWhile, hrest.dropWhile_eq, decimal_paddedDigits hn, hlength]
  rfl

/-- Nanoseconds are read up to the mark that follows them. -/
theorem run_nanoseconds {n : Nat} (hn : n < 1000000000) (rest : List Char) :
  nanoseconds.run (fractionDigits n ++ 'Z' :: rest) = .ok (n, 'Z' :: rest)
  := by
  have hrest : StopsBefore Char.isDigit ('Z' :: rest) := Reader.stopsBefore_cons.mpr rfl
  rw [fractionDigits]
  split
  · next hzero =>
    rw [hzero]
    rfl
  split
  · rw [run_nanoseconds_digits (by decide) (by decide) (by omega) hrest]
    congr 2
    omega
  split
  · rw [run_nanoseconds_digits (by decide) (by decide) (by omega) hrest]
    congr 2
    omega
  · rw [run_nanoseconds_digits (by decide) (by decide) (by omega) hrest]
    congr 2
    omega

theorem stopsBefore_fractionDigits (n : Nat) :
  StopsBefore Char.isDigit (fractionDigits n ++ ['Z'])
  := by
  rw [fractionDigits]
  repeat' split
  all_goals exact Reader.stopsBefore_cons.mpr rfl

theorem run_dateEnd_bind {α : Type} (k : Unit → Scan α) (cs : List Char) :
  (dateEnd >>= k).run ('T' :: cs) = (k ()).run cs
  := rfl

theorem run_offset_universal (cs : List Char) :
  offset.run ('Z' :: cs) = .ok (0, cs)
  := rfl

/-! ### Whole texts -/

theorem daysInMonth_le (year : Int) (month : Nat) :
  daysInMonth year month ≤ 31
  := by
  unfold daysInMonth
  repeat' split
  all_goals omega

/-- Clocks that are ahead by nothing show universal time. -/
theorem ofLocal?_zero (t : Instant) :
  ofLocal? t.date t.clock 0 = some t
  := by
  obtain ⟨hhour, hminute, -, -⟩ := t.clock.isClock
  have hlow : ¬ (t.clock.hour * 60 + t.clock.minute - 0 : Int) < 0 := by omega
  have hhigh : ¬ 1440 ≤ (t.clock.hour * 60 + t.clock.minute - 0 : Int) := by omega
  have hminutes : ((t.clock.hour * 60 + t.clock.minute - 0 : Int) % 1440).toNat
      = t.clock.hour * 60 + t.clock.minute := by omega
  rw [ofLocal?, if_pos (by decide)]
  dsimp only
  rw [if_neg hlow, if_neg hhigh, hminutes,
    show (t.clock.hour * 60 + t.clock.minute) / 60 = t.clock.hour by omega,
    show (t.clock.hour * 60 + t.clock.minute) % 60 = t.clock.minute by omega,
    Clock.ofNumbers?_numbers]
  rfl

theorem run_instant (t : Instant) :
  instant.run t.renderChars = .ok (t, [])
  := by
  obtain ⟨_, ⟨_, hmonth⟩, _, hday⟩ := t.date.isDate
  obtain ⟨hhour, hminute, hsecond, hnanosecond⟩ := t.clock.isClock
  have hdays := daysInMonth_le t.date.year t.date.month
  simp only [renderChars, List.append_assoc, List.cons_append]
  rw [instant, Reader.run_bind_of_ok (run_year _ (Reader.stopsBefore_cons.mpr rfl)),
    Reader.run_bind_of_ok (run_separator rfl _),
    Reader.run_bind_of_ok (run_shortNumber (by omega) (Reader.stopsBefore_cons.mpr rfl)),
    Reader.run_bind_of_ok (run_separator rfl _),
    Reader.run_bind_of_ok (run_shortNumber (by omega) (Reader.stopsBefore_cons.mpr rfl)),
    run_dateEnd_bind,
    Reader.run_bind_of_ok (run_shortNumber (by omega) (Reader.stopsBefore_cons.mpr rfl)),
    Reader.run_bind_of_ok (run_separator rfl _),
    Reader.run_bind_of_ok (run_shortNumber (by omega) (Reader.stopsBefore_cons.mpr rfl)),
    Reader.run_bind_of_ok (run_separator rfl _),
    Reader.run_bind_of_ok (run_shortNumber (by omega) (stopsBefore_fractionDigits _)),
    Reader.run_bind_of_ok (run_nanoseconds hnanosecond []),
    Reader.run_bind_of_ok (run_blanks (Reader.stopsBefore_cons.mpr rfl)),
    Reader.run_bind_of_ok (run_offset_universal []),
    Reader.run_bind_of_ok (run_blanks (Reader.stopsBefore_nil _)), Reader.run_bind,
    Reader.run_peek]
  dsimp only [List.head?_nil]
  rw [Date.ofNumbers?_numbers, Clock.ofNumbers?_numbers]
  show (present (ofLocal? t.date t.clock 0)).run [] = _
  rw [ofLocal?_zero]
  rfl

/-- Every instant is read back. -/
theorem ofText?_render (t : Instant) :
  ofText? t.render = some t
  := by
  rw [ofText?, render, String.toList_ofList, run_instant]

theorem rfc3339_readsBack (p : Instant → Prop) :
  rfc3339.ReadsBack p
  := by
  intro t _
  dsimp only [rfc3339]
  apply ofText?_render

/-! ### Lengths -/

theorem length_yearDigits_le {y : Int} (h : y.natAbs < 10 ^ 6) :
  (yearDigits y).length ≤ 7
  := by
  have hdigits : (if y.natAbs < 10000 then paddedDigits 4 y.natAbs
      else Nat.toDigits 10 y.natAbs).length ≤ 6 := by
    split
    · rw [length_paddedDigits]
      decide
    · apply (Nat.length_toDigits_le_iff (by decide) (by decide)).mpr h
  simp only [yearDigits]
  repeat' split
  all_goals grind

theorem length_fractionDigits_le (n : Nat) :
  (fractionDigits n).length ≤ 10
  := by
  rw [fractionDigits]
  repeat' split
  all_goals simp [length_paddedDigits]

/-- The text of an instant is short. -/
theorem utf8ByteSize_render_le (t : Instant) :
  t.render.utf8ByteSize ≤ 132
  := by
  obtain ⟨⟨hlow, hhigh⟩, _⟩ := t.date.isDate
  have hyear := length_yearDigits_le (show t.date.year.natAbs < 10 ^ 6 by omega)
  have hfraction := length_fractionDigits_le t.clock.nanosecond
  have hlength : t.renderChars.length ≤ 33 := by
    simp only [renderChars, List.length_append, List.length_cons, length_paddedDigits,
      List.length_nil]
    omega
  have hbytes := byteLength_le t.renderChars
  rw [render, utf8ByteSize_ofList]
  omega

end Acceptor.Instant

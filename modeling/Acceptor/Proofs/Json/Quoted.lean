import Acceptor.Json.Quoted
import Acceptor.Proofs.Reader

/-!
# Quoted texts that are read back

Every text is read back from its quoted form, whatever characters it holds, and the quoted form
is incomplete wherever it breaks off, also inside an escape (`delimits_unquote`).
-/

namespace Acceptor.Json

open Reader (Delimits)

/-! ### Escapes -/

/-- Four digits of one byte each are delimited. -/
theorem delimits_hexQuad
    {a b c d : Char} {n : Nat} (hn : hexQuad? a b c d = some n)
    (hsize : ∀ x ∈ [a, b, c, d], x.utf8Size = 1) :
  hexQuad.Delimits .incomplete [a, b, c, d] n
  := by
  constructor
  · intro rest
    simp [hexQuad, hn]
  · intro k hk
    simp only [List.mem_cons, List.not_mem_nil, or_false, forall_eq_or_imp, forall_eq] at hsize
    obtain ⟨ha, hb, hc, hd⟩ := hsize
    have hk : k = 0 ∨ k = 1 ∨ k = 2 ∨ k = 3 := by
      simp only [List.length_cons, List.length_nil] at hk
      omega
    rcases hk with rfl | rfl | rfl | rfl
    · rfl
    · simp [hexQuad, ha]
    · simp [hexQuad, ha, hb]
    · simp [hexQuad, ha, hb, hc]

theorem utf8Size_hexDigit {n : Nat} (h : n < 16) :
  (hexDigit n).utf8Size = 1
  := by
  revert n
  decide

/-- The `\u` escape of a control. -/
theorem delimits_unicodeEscape {c : Char} (h : c.toNat < 0x20) :
  unicodeEscape.Delimits .incomplete
    ['0', '0', hexDigit (c.toNat / 16), hexDigit (c.toNat % 16)] c
  := by
  have hhigh : c.toNat / 16 < 16 := by omega
  have hlow : c.toNat % 16 < 16 := by omega
  have hquad : hexQuad? '0' '0' (hexDigit (c.toNat / 16)) (hexDigit (c.toNat % 16))
      = some c.toNat := by
    simp only [hexQuad?, hexValue?_hexDigit hhigh, hexValue?_hexDigit hlow]
    show some (((0 * 16 + 0) * 16 + c.toNat / 16) * 16 + c.toNat % 16) = _
    congr 1
    omega
  have hsize : ∀ x ∈ ['0', '0', hexDigit (c.toNat / 16), hexDigit (c.toNat % 16)],
      x.utf8Size = 1 := by
    simp [utf8Size_hexDigit hhigh, utf8Size_hexDigit hlow]
    decide
  apply (delimits_hexQuad hquad hsize).bind_pure
  rw [if_neg (by omega), if_neg (by omega), Char.ofNat_toNat]

/-- A single letter that stands for a character. -/
theorem delimits_unescape_letter {x c : Char} (hx : x ≠ 'u') (h : unescape? x = some c) :
  unescape.Delimits .incomplete [x] c
  := by
  have hcons : ∀ items, unescape.run (x :: items) = (pure c : JsonReader Char).run items := by
    intro items
    rw [unescape, Reader.run_bind, Reader.run_item]
    dsimp only [List.head?_cons, List.tail_cons]
    split
    · next heq => cases heq
    · next heq => exact absurd (Option.some.inj heq) hx
    · next heq =>
      obtain rfl := Option.some.inj heq
      rw [h]
  apply Delimits.cons rfl hcons (Delimits.pure c)

/-- A character stands for itself, or an escape does that is read as the character. -/
theorem escape_cases (c : Char) :
  (escape c = [c] ∧ c ≠ '"' ∧ c ≠ '\\' ∧ ¬ c.toNat < 0x20)
    ∨ ∃ ds, escape c = '\\' :: ds ∧ unescape.Delimits .incomplete ds c
  := by
  unfold escape
  split
  · exact .inr ⟨_, rfl, delimits_unescape_letter (by decide) rfl⟩
  · exact .inr ⟨_, rfl, delimits_unescape_letter (by decide) rfl⟩
  · exact .inr ⟨_, rfl, delimits_unescape_letter (by decide) rfl⟩
  · exact .inr ⟨_, rfl, delimits_unescape_letter (by decide) rfl⟩
  · exact .inr ⟨_, rfl, delimits_unescape_letter (by decide) rfl⟩
  · next hquote hbackslash _ _ _ =>
    split
    · next hbackspace =>
      have hc : unescape? 'b' = some c := by
        rw [← Char.ofNat_toNat c, hbackspace]
        rfl
      exact .inr ⟨_, rfl, delimits_unescape_letter (by decide) hc⟩
    split
    · next hformfeed =>
      have hc : unescape? 'f' = some c := by
        rw [← Char.ofNat_toNat c, hformfeed]
        rfl
      exact .inr ⟨_, rfl, delimits_unescape_letter (by decide) hc⟩
    split
    · next hcontrol =>
      exact .inr ⟨_, rfl, Delimits.cons rfl (fun _ => rfl) (delimits_unicodeEscape hcontrol)⟩
    · next hplain => exact .inl ⟨rfl, hquote, hbackslash, hplain⟩

/-! ### Texts -/

theorem delimits_unquoteFrom_cons
    {done text : List Char} {c : Char} {s : String}
    (h : (unquoteStep done c >>= Sum.elim unquoteFrom pure).Delimits .incomplete text s) :
  (unquoteFrom done).Delimits .incomplete (c :: text) s
  := Delimits.loop rfl h

/-- The rest of a quoted text is read up to its closing quote. -/
theorem delimits_unquoteFrom (done cs : List Char) :
  (unquoteFrom done).Delimits .incomplete (cs.flatMap escape ++ ['"'])
    (String.ofList (done.reverse ++ cs))
  := by
  induction cs generalizing done with
  | nil =>
    rw [List.append_nil]
    apply delimits_unquoteFrom_cons
    apply Delimits.pure
  | cons c cs ih =>
    have ih := ih (c :: done)
    rw [List.reverse_cons, List.append_assoc, List.singleton_append] at ih
    rw [List.flatMap_cons, List.append_assoc]
    rcases escape_cases c with ⟨hescape, hquote, hbackslash, hplain⟩ | ⟨ds, hescape, hds⟩
    · rw [hescape]
      apply delimits_unquoteFrom_cons
      rw [unquoteStep, if_neg hquote, if_neg hbackslash, if_neg hplain, pure_bind]
      exact ih
    · rw [hescape]
      apply delimits_unquoteFrom_cons
      rw [unquoteStep, if_neg (by decide), if_pos rfl, bind_assoc]
      apply hds.bind ih

/-- A quoted text is read back, and is incomplete without its closing quote. -/
theorem delimits_unquote (s : String) :
  unquote.Delimits .incomplete (s.toList.flatMap escape ++ ['"']) s
  := by
  have h := delimits_unquoteFrom [] s.toList
  rwa [List.reverse_nil, List.nil_append, String.ofList_toList] at h

end Acceptor.Json

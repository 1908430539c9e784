import Acceptor.Json.Standard
import Acceptor.Proofs.Json.Codec
import Acceptor.Proofs.Json.Quoted
import Mathlib.Data.List.TakeWhile

/-!
# The shapes of the standard codec

Texts, lists, records and choices are read back by the readers of the standard codec when their
parts are.  Members between brackets are read one after the other, and only the bracket after them
ends the text (`ReadsMembers.delimits_enclose`).
-/

namespace Acceptor.Json

open Codec (ReadsFields ReadsMember)
open Reader (Delimits StopsBefore)

variable {α β σ : Type}

/-! ### Leading spaces -/

theorem skipsSpaces_next : SkipsSpaces next
  := by
  intro c hc cs
  rw [run_next, run_next, List.dropWhile_cons, if_pos hc]

/-- Spaces may stand before a text that is delimited. -/
theorem SkipsSpaces.delimits
    {r : JsonReader α} {spaces text : List Char} {a : α} (hskips : SkipsSpaces r)
    (hspaces : ∀ c ∈ spaces, isSpace c = true) (hnil : r.run [] = .error .incomplete)
    (h : r.Delimits .incomplete text a) :
  r.Delimits .incomplete (spaces ++ text) a
  := by
  apply Delimits.skip _ hnil h
  intro c hc
  apply hskips c (hspaces c hc)

theorem run_next_bind {c : Char} (hc : isSpace c = false) (k : Option Char → JsonReader α)
    (cs : List Char) :
  (next >>= k).run (c :: cs) = (k (some c)).run (c :: cs)
  := by
  rw [Reader.run_bind, run_next, List.dropWhile_cons, hc, if_neg Bool.false_ne_true]
  rfl

/-- A text is read as its first character says, which is looked at. -/
theorem delimits_next
    {k : Option Char → JsonReader α} {c : Char} {text : List Char} {a : α}
    (hc : isSpace c = false) (hnil : (k none).run [] = .error .incomplete)
    (h : (k (some c)).Delimits .incomplete (c :: text) a) :
  (next >>= k).Delimits .incomplete (c :: text) a
  := by
  have hnil' : (next >>= k).run [] = .error .incomplete := hnil
  apply Delimits.peek hnil' (run_next_bind hc k) h

/-- A text is read as its first character says, which is taken. -/
theorem delimits_next_item
    {k : Option Char → JsonReader α} {r : JsonReader α} {c : Char} {text : List Char} {a : α}
    (hc : isSpace c = false) (hnil : (k none).run [] = .error .incomplete)
    (hk : k (some c) = Reader.item >>= fun _ => r) (h : r.Delimits .incomplete text a) :
  (next >>= k).Delimits .incomplete (c :: text) a
  := by
  have hnil' : (next >>= k).run [] = .error .incomplete := hnil
  apply Delimits.cons hnil' _ h
  intro cs
  rw [run_next_bind hc, hk]
  rfl

theorem isSpace_of_mem_newline {layout : Layout} {depth : Nat} {c : Char}
    (h : c ∈ layout.newline depth) :
  isSpace c = true
  := by
  cases layout with
  | compact => cases h
  | indented =>
    rcases List.mem_cons.mp h with rfl | h
    · rfl
    · obtain rfl := (List.mem_replicate.mp h).2
      rfl

/-! ### Values inside brackets -/

namespace ReadsInside

variable {r : JsonReader α} {k : α → JsonReader β} {text text' : List Char} {a : α} {b : β}

/-- If nothing is there, nothing is left. -/
theorem run_nil (h : ReadsInside r text a) :
  r.run [] = .error .incomplete ∨ ∃ b, r.run [] = .ok (b, [])
  := by
  cases text with
  | nil => exact .inr ⟨a, h.run_append [] (Reader.stopsBefore_nil _)⟩
  | cons c text => exact h.run_take 0 (Nat.succ_pos _)

/-- A text that is delimited may stand before a value. -/
theorem after (h : r.Delimits .incomplete text a) (h' : ReadsInside (k a) text' b) :
  ReadsInside (r >>= k) (text ++ text') b
  := by
  constructor
  · intro rest hrest
    rw [List.append_assoc, Reader.run_bind_of_ok (h.run_append _), h'.run_append rest hrest]
  · intro n hn
    rcases Reader.take_append_cases hn with ⟨hlt, htake⟩ | ⟨m, hm, htake⟩
    · rw [htake]
      exact .inl (Reader.run_bind_of_error (h.run_take n hlt) k)
    · rw [htake, Reader.run_bind_of_ok (h.run_append _)]
      apply h'.run_take m hm

/-- Spaces may stand before a value. -/
theorem skip
    {spaces : List Char} (hskips : SkipsSpaces r) (hspaces : ∀ c ∈ spaces, isSpace c = true)
    (h : ReadsInside r text a) :
  ReadsInside r (spaces ++ text) a
  := by
  induction spaces with
  | nil => exact h
  | cons c spaces ih =>
    have hc := hskips c (hspaces c List.mem_cons_self)
    have ih := ih fun d hd => hspaces d (List.mem_cons_of_mem c hd)
    constructor
    · intro rest hrest
      rw [List.cons_append, List.cons_append, hc, ih.run_append rest hrest]
    · intro n hn
      cases n with
      | zero => exact h.run_nil
      | succ n =>
        rw [List.cons_append, List.take_succ_cons, hc]
        apply ih.run_take
        rw [List.cons_append, List.length_cons] at hn
        omega

/-- What follows a value completes it, if it does not go on a numeral and is missed where it is
not there. -/
theorem bind
    (h : ReadsInside r text a) (hend : ∀ b, (k b).run [] = .error .incomplete)
    (hstops : StopsBefore continuesNumeral text') (h' : (k a).Delimits .incomplete text' b) :
  (r >>= k).Delimits .incomplete (text ++ text') b
  := by
  constructor
  · intro rest
    have hstops' : StopsBefore continuesNumeral (text' ++ rest) := by
      cases text' with
      | nil =>
        have hrun := h'.run
        rw [hend a] at hrun
        cases hrun
      | cons c text' =>
        rw [List.cons_append, Reader.stopsBefore_cons]
        apply Reader.stopsBefore_cons.mp hstops
    rw [List.append_assoc, Reader.run_bind_of_ok (h.run_append _ hstops'), h'.run_append]
  · intro n hn
    rcases Reader.take_append_cases hn with ⟨hlt, htake⟩ | ⟨m, hm, htake⟩
    · rw [htake]
      rcases h.run_take n hlt with herror | ⟨b, hok⟩
      · rw [Reader.run_bind_of_error herror]
      · rw [Reader.run_bind_of_ok hok, hend]
    · rw [htake, Reader.run_bind_of_ok (h.run_append _ (hstops.take _)), h'.run_take m hm]

end ReadsInside

/-! ### Members between brackets -/

/-- The characters that close lists and objects. -/
def IsClosing (c : Char) : Prop :=
  c = ']' ∨ c = '}'

instance (c : Char) : Decidable (IsClosing c) :=
  inferInstanceAs (Decidable (c = ']' ∨ c = '}'))

/-- A text that begins neither with a space nor with a closing bracket. -/
def BeginsMember (text : List Char) : Prop :=
  ∃ c cs, text = c :: cs ∧ isSpace c = false ∧ ¬ IsClosing c

/-- `pieces` are read one after the other as members, which lead from a state to another. -/
inductive ReadsMembers (member : σ → JsonReader σ) : σ → List (List Char) → σ → Prop
  | nil (s : σ) : ReadsMembers member s [] s
  | cons {s s' s'' : σ} {piece : List Char} {pieces : List (List Char)} :
      BeginsMember piece → ReadsInside (member s) piece s' → ReadsMembers member s' pieces s'' →
        ReadsMembers member s (piece :: pieces) s''

/-- Members after the first one, and the bracket after them. -/
def Layout.encloseMore (layout : Layout) (depth : Nat) (closing : Char)
    (pieces : List (List Char)) : List Char :=
  (pieces.flatMap fun piece => ',' :: layout.newline (depth + 1) ++ piece)
    ++ layout.newline depth ++ [closing]

section Members

variable {member : σ → JsonReader σ} {closing : Char} {s s' : σ} {pieces : List (List Char)}

theorem IsClosing.isSpace_eq_false (hclosing : IsClosing closing) :
  isSpace closing = false
  := by
  rcases hclosing with rfl | rfl
  · rfl
  · rfl

theorem run_moreMembers_nil :
  (moreMembers closing member s).run [] = .error .incomplete
  := by
  rw [moreMembers, Reader.run_loop_nil]
  rfl

theorem run_moreMembers_closing (hclosing : IsClosing closing) (cs : List Char) :
  (moreMembers closing member s).run (closing :: cs) = .ok (s, cs)
  := by
  rw [moreMembers, Reader.run_loop_cons, hclosing.isSpace_eq_false, if_neg Bool.false_ne_true,
    if_pos rfl]
  rfl

theorem skipsSpaces_moreMembers : SkipsSpaces (moreMembers closing member s)
  := by
  intro c hc cs
  rw [moreMembers, Reader.run_loop_cons, if_pos hc]
  rfl

/-- The member that a comma announces, and the members after it. -/
theorem run_moreMembers_comma (hclosing : IsClosing closing) (cs : List Char) :
  (moreMembers closing member s).run (',' :: cs)
    = (do
        match ← next with
        | none => Reader.fail .incomplete
        | some d =>
          if d = closing then Reader.fail .malformed
          else
            let s ← member s
            moreMembers closing member s : JsonReader σ).run cs
  := by
  have hcomma : ¬ ',' = closing := by
    rcases hclosing with rfl | rfl
    · decide
    · decide
  rw [moreMembers, Reader.run_loop_cons_eq_bind, if_neg (by decide), if_neg hcomma, if_pos rfl,
    bind_assoc]
  congr 2
  funext d
  cases d with
  | none => rfl
  | some d =>
    dsimp only
    split
    · rfl
    · rw [bind_assoc]
      rfl

theorem stopsBefore_encloseMore (hclosing : IsClosing closing) (layout : Layout) (depth : Nat)
    (pieces : List (List Char)) :
  StopsBefore continuesNumeral (layout.encloseMore depth closing pieces)
  := by
  cases pieces with
  | nil =>
    cases layout with
    | compact =>
      rcases hclosing with rfl | rfl
      · exact Reader.stopsBefore_cons.mpr rfl
      · exact Reader.stopsBefore_cons.mpr rfl
    | indented => exact Reader.stopsBefore_cons.mpr rfl
  | cons piece pieces => exact Reader.stopsBefore_cons.mpr rfl

/-- A first member, the members after it and the bracket after them. -/
theorem delimits_member
    {k : Option Char → JsonReader σ} {piece text : List Char}
    (hnil : (k none).run [] = .error .incomplete)
    (hk : ∀ c, c ≠ closing → k (some c) = member s >>= moreMembers closing member)
    (hclosing : IsClosing closing) (hbegins : BeginsMember piece)
    (hpiece : ReadsInside (member s) piece s')
    (hstops : StopsBefore continuesNumeral text) {s'' : σ}
    (h : (moreMembers closing member s').Delimits .incomplete text s'') (layout : Layout)
    (depth : Nat) :
  (next >>= k).Delimits .incomplete (layout.newline depth ++ piece ++ text) s''
  := by
  obtain ⟨c, cs, rfl, hspace, hc⟩ := hbegins
  have hne : c ≠ closing := by
    rintro rfl
    apply hc hclosing
  have hnil' : (next >>= k).run [] = .error .incomplete := hnil
  have hmembers : (member s >>= moreMembers closing member).Delimits .incomplete
      (c :: cs ++ text) s'' := hpiece.bind (fun _ => run_moreMembers_nil) hstops h
  rw [List.append_assoc]
  apply (skipsSpaces_next.bind k).delimits (fun _ => isSpace_of_mem_newline) hnil'
  apply delimits_next hspace hnil
  rw [hk c hne]
  exact hmembers

theorem ReadsMembers.delimits_moreMembers
    (h : ReadsMembers member s pieces s') (hclosing : IsClosing closing) (layout : Layout)
    (depth : Nat) :
  (moreMembers closing member s).Delimits .incomplete (layout.encloseMore depth closing pieces) s'
  := by
  induction h with
  | nil s =>
    apply skipsSpaces_moreMembers.delimits (fun _ => isSpace_of_mem_newline) run_moreMembers_nil
    apply Delimits.cons run_moreMembers_nil (run_moreMembers_closing hclosing) (Delimits.pure s)
  | @cons s s' s'' piece pieces hbegins hpiece _ ih =>
    have htext : layout.encloseMore depth closing (piece :: pieces)
        = ',' :: (layout.newline (depth + 1) ++ piece
          ++ layout.encloseMore depth closing pieces) := by
      simp [Layout.encloseMore]
    rw [htext]
    apply Delimits.cons run_moreMembers_nil (run_moreMembers_comma hclosing)
    apply delimits_member rfl _ hclosing hbegins hpiece
      (stopsBefore_encloseMore hclosing layout depth pieces) ih
    intro c hc
    apply if_neg hc

/-- Members between brackets are delimited. -/
theorem ReadsMembers.delimits_enclose
    {r : JsonReader α} {k : σ → JsonReader α} {opening : Char} {a : α}
    (h : ReadsMembers member s pieces s') (hclosing : IsClosing closing)
    (hnil : r.run [] = .error .incomplete)
    (hopening : ∀ cs, r.run (opening :: cs) = (members closing member s >>= k).run cs)
    (hk : k s' = pure a) (layout : Layout) (depth : Nat) :
  r.Delimits .incomplete (layout.enclose depth opening closing pieces) a
  := by
  cases h with
  | nil =>
    have hmembers : (members closing member s).Delimits .incomplete [closing] s := by
      apply delimits_next_item hclosing.isSpace_eq_false rfl _ (Delimits.pure s)
      apply if_pos rfl
    apply Delimits.cons hnil hopening (hmembers.bind_pure hk)
  | @cons _ s₁ _ piece pieces hbegins hpiece hpieces =>
    have htext : layout.enclose depth opening closing (piece :: pieces)
        = opening :: (layout.newline (depth + 1) ++ piece
          ++ layout.encloseMore depth closing pieces) := by
      simp [Layout.enclose, Layout.encloseMore]
    rw [htext]
    apply Delimits.cons hnil hopening
    refine Delimits.bind_pure ?_ hk
    apply delimits_member rfl _ hclosing hbegins hpiece
      (stopsBefore_encloseMore hclosing layout depth pieces)
      (hpieces.delimits_moreMembers hclosing layout depth)
    intro c hc
    apply if_neg hc

end Members

/-! ### Values -/

section Values

variable {r : JsonReader α} {v : Value} {a : α}

theorem isSpace_of_isDigit {c : Char} (h : c.isDigit = true) :
  isSpace c = false
  := by
  simp only [isSpace, Bool.or_eq_false_iff, beq_eq_false_iff_ne]
  and_intros
  all_goals
    rintro rfl
    cases h

theorem isDigit_beginsMember {c : Char} (h : c.isDigit = true) (cs : List Char) :
  BeginsMember (c :: cs)
  := by
  use c, cs, rfl, isSpace_of_isDigit h
  rintro (rfl | rfl)
  · cases h
  · cases h

/-- A written value begins with a quote, a digit or an opening bracket. -/
theorem Value.beginsMember_write (v : Value) (layout : Layout) (depth : Nat) :
  BeginsMember (v.write layout depth)
  := by
  have henclose : ∀ opening closing pieces, opening = '[' ∨ opening = '\x7b' →
      BeginsMember (layout.enclose depth opening closing pieces) := by
    intro opening closing pieces hopening
    have hopening' : isSpace opening = false ∧ ¬ IsClosing opening := by
      rcases hopening with rfl | rfl
      · exact ⟨rfl, by decide⟩
      · exact ⟨rfl, by decide⟩
    cases pieces with
    | nil => exact ⟨_, _, rfl, hopening'⟩
    | cons piece pieces => exact ⟨_, _, rfl, hopening'⟩
  cases v with
  | text s => exact ⟨_, _, rfl, rfl, by decide⟩
  | number n =>
    rw [Value.write]
    obtain ⟨c, cs, hdigits⟩ := List.exists_cons_of_ne_nil
      (Nat.toDigits_ne_nil (n := n.toNat) (b := 10))
    have hc : c ∈ Nat.toDigits 10 n.toNat := by
      rw [hdigits]
      apply List.mem_cons_self
    rw [hdigits]
    apply isDigit_beginsMember
    apply Nat.isDigit_of_mem_toDigits (by decide) (by decide) hc
  | list elements =>
    rw [Value.write]
    apply henclose _ _ _ (.inl rfl)
  | object members =>
    rw [Value.write]
    apply henclose _ _ _ (.inr rfl)

/-- Where no value is, the text is incomplete. -/
theorem run_nil_of_reads (h : standard.Reads r v a) :
  r.run [] = .error .incomplete
  := by
  obtain ⟨c, cs, htext, -⟩ := v.beginsMember_write .compact 0
  have hpos : 0 < (v.write .compact 0).length := by
    rw [htext, List.length_cons]
    apply Nat.succ_pos
  have htake := (h.delimits .compact 0).run_take 0 hpos
  rwa [List.take_zero] at htake

/-! ### Texts -/

/-- A text is read back. -/
theorem reads_text (s : String) :
  standard.Reads text (.text s) s
  := by
  constructor
  · apply skipsSpaces_next.bind
  · intro layout depth
    rw [standard_write, Value.write]
    apply delimits_next_item rfl rfl rfl (delimits_unquote s)

/-! ### Lists -/

theorem readsMembers_list
    {f : α → Value} {l : List α} (h : ∀ a ∈ l, standard.Reads r (f a) a) (layout : Layout)
    (depth : Nat) (done : List α) :
  ReadsMembers (fun done => r >>= fun a => pure (a :: done)) done
    (l.map fun a => (f a).write layout depth) (l.reverse ++ done)
  := by
  induction l generalizing done with
  | nil => apply ReadsMembers.nil
  | cons a l ih =>
    have hl := ih (fun b hb => h b (List.mem_cons_of_mem a hb)) (a :: done)
    have ha := (h a List.mem_cons_self).readsMember.inside layout depth
    rw [List.map_cons, List.reverse_cons, List.append_assoc, List.singleton_append]
    apply ReadsMembers.cons ((f a).beginsMember_write layout depth) (ha.map fun a => a :: done) hl

/-- A list of values that are read back is read back. -/
theorem reads_list {f : α → Value} {l : List α} (h : ∀ a ∈ l, standard.Reads r (f a) a) :
  standard.Reads (list r) (.list (l.map f)) l
  := by
  constructor
  · apply skipsSpaces_next.bind
  · intro layout depth
    have hmembers := readsMembers_list h layout (depth + 1) []
    rw [List.append_nil] at hmembers
    rw [standard_write, Value.write, Value.writeList_eq_map, List.map_map]
    apply hmembers.delimits_enclose (.inl rfl) rfl (fun _ => rfl)
    rw [List.reverse_reverse]

/-! ### Records -/

theorem skipsSpaces_memberName : SkipsSpaces memberName
  := skipsSpaces_next.bind _

theorem delimits_memberName (key : String) :
  memberName.Delimits .incomplete (quote key) key
  := delimits_next_item rfl rfl rfl (delimits_unquote key)

theorem delimits_colon : colon.Delimits .incomplete [':'] ()
  := delimits_next_item rfl rfl rfl (Delimits.pure ())

/-- Nothing but spaces stands between a colon and a value. -/
theorem exists_colon_eq (layout : Layout) :
  ∃ spaces, layout.colon = [':'] ++ spaces ∧ ∀ c ∈ spaces, isSpace c = true
  := by
  cases layout with
  | compact => exact ⟨[], rfl, nofun⟩
  | indented => exact ⟨[' '], rfl, by simp [isSpace]⟩

theorem readsInside_namedField
    {fields : List (Field σ)} {field : Field σ} {key : String} {s s' : σ}
    (hfind : fields.find? (fun field => field.key == key) = some field)
    (hunread : field.isRead s = false) (h : standard.ReadsMember (field.read s) v s')
    (layout : Layout) (depth : Nat) :
  ReadsInside (namedField fields s) (quote key ++ layout.colon ++ v.write layout depth) s'
  := by
  obtain ⟨spaces, hcolon, hspaces⟩ := exists_colon_eq layout
  have hvalue := (h.inside layout depth).skip h.skipsSpaces hspaces
  have hmember := ReadsInside.after (k := fun _ => field.read s) delimits_colon hvalue
  rw [hcolon, List.append_assoc, List.append_assoc]
  apply ReadsInside.after (delimits_memberName key)
  rw [hfind]
  dsimp only
  rw [if_neg (by rw [hunread]; exact Bool.false_ne_true)]
  exact hmember

theorem readsMembers_of_readsFields
    {fields : List (Field σ)} {s s' : σ} {members : List (String × Value)}
    (h : standard.ReadsFields fields s members s') (layout : Layout) (depth : Nat) :
  ReadsMembers (namedField fields) s (Value.writeMembers layout depth members) s'
  := by
  induction h with
  | nil s =>
    rw [Value.writeMembers]
    apply ReadsMembers.nil
  | @cons s s' s'' field key v members hfind hunread hread _ ih =>
    rw [Value.writeMembers]
    apply ReadsMembers.cons _ (readsInside_namedField hfind hunread hread layout depth) ih
    exact ⟨_, _, rfl, rfl, by decide⟩

/-- An object whose members are the fields of a record is read back. -/
theorem reads_record
    {fields : List (Field σ)} {start s : σ} {finish : σ → Option α}
    {members : List (String × Value)} (h : standard.ReadsFields fields start members s)
    (hfinish : finish s = some a) :
  standard.Reads (record fields start finish) (.object members) a
  := by
  constructor
  · apply skipsSpaces_next.bind
  · intro layout depth
    have hmembers := readsMembers_of_readsFields h layout (depth + 1)
    rw [standard_write, Value.write]
    apply hmembers.delimits_enclose (.inr rfl) rfl (fun _ => rfl)
    dsimp only
    rw [hfinish]

/-! ### Choices -/

/-- The name of a variant without content is read back. -/
theorem reads_constant
    {variants : List (Variant α)} {key name : String}
    (hfind : variants.find? (fun variant => variant.key == key) = some (.constant name a)) :
  standard.Reads (choice variants) (.text key) a
  := by
  constructor
  · apply skipsSpaces_next.bind
  · intro layout depth
    have hkey := delimits_unquote key
    rw [standard_write, Value.write]
    apply delimits_next_item rfl rfl rfl
    apply hkey.bind_pure
    rw [variantNamed, hfind]
    rfl

/-- What is left of a choice after a value: a closing brace. -/
theorem delimits_closeBrace (a : α) (layout : Layout) (depth : Nat) :
  (do
    match ← next with
    | none => Reader.fail .incomplete
    | some '}' =>
      let _ ← Reader.item
      pure a
    | some _ => Reader.fail .malformed : JsonReader α).Delimits .incomplete
      (layout.newline depth ++ ['}']) a
  := by
  apply (skipsSpaces_next.bind _).delimits (fun _ => isSpace_of_mem_newline) rfl
  apply delimits_next_item rfl rfl rfl (Delimits.pure a)

/-- The name of a variant and its content, as the only member of an object, are read back. -/
theorem reads_holding
    {variants : List (Variant α)} {key name : String} {content : JsonReader α}
    (hfind : variants.find? (fun variant => variant.key == key) = some (.holding name content))
    (h : standard.Reads content v a) :
  standard.Reads (choice variants) (.object [(key, v)]) a
  := by
  constructor
  · apply skipsSpaces_next.bind
  · intro layout depth
    obtain ⟨spaces, hcolon, hspaces⟩ := exists_colon_eq layout
    have htext : (Value.object [(key, v)]).write layout depth
        = '{' :: ((layout.newline (depth + 1) ++ quote key) ++ ([':']
          ++ ((spaces ++ v.write layout (depth + 1)) ++ (layout.newline depth ++ ['}'])))) := by
      simp [Value.write, Value.writeMembers, Layout.enclose, hcolon]
    have hkey : memberName.Delimits .incomplete (layout.newline (depth + 1) ++ quote key) key := by
      apply skipsSpaces_memberName.delimits (fun _ => isSpace_of_mem_newline) rfl
      apply delimits_memberName
    have hvalue : content.Delimits .incomplete (spaces ++ v.write layout (depth + 1)) a := by
      apply h.skipsSpaces.delimits hspaces (run_nil_of_reads h)
      apply h.delimits
    rw [standard_write, htext]
    apply delimits_next_item rfl rfl rfl
    apply hkey.bind
    rw [variantNamed, hfind]
    dsimp only
    rw [pure_bind]
    apply delimits_colon.bind
    apply hvalue.bind
    apply delimits_closeBrace

end Values

end Acceptor.Json

import Acceptor.Json.Codec
import Acceptor.Proofs.Reader

/-!
# JSON values that are read back

`c.Reads r v a` says that the reader `r` reads the value `v` as `a`, in whatever layout the codec
`c` writes `v`: the text is delimited, and incomplete wherever it breaks off.  A codec is lawful
(`Codec.Lawful`) if it reads so what it writes in each of the shapes, of whatever values these are
made, as long as they are not nested too deep, and nothing but spaces may follow.

A number does not end by itself.  Inside brackets it is read all the same, since a comma, a
space or a bracket follows each value there, and a number that breaks off leaves nothing, so
that the bracket is missing.  `ReadsInside` is what remains of `Delimits` for such values.
-/

namespace Acceptor.Json

open Reader (StopsBefore)

variable {α β σ : Type}

/-! ### Leading spaces -/

/-- Spaces that stand before what `r` reads make no difference to it. -/
def SkipsSpaces (r : JsonReader α) : Prop :=
  ∀ c, isSpace c = true → ∀ cs, r.run (c :: cs) = r.run cs

theorem SkipsSpaces.bind {r : JsonReader α} (h : SkipsSpaces r) (k : α → JsonReader β) :
  SkipsSpaces (r >>= k)
  := by
  intro c hc cs
  rw [Reader.run_bind, Reader.run_bind, h c hc]

/-! ### Values inside brackets -/

/-- Whether a numeral may go on with `c`. -/
def continuesNumeral (c : Char) : Bool :=
  c.isDigit || c == '.' || c == 'e' || c == 'E'

/-- `r` reads `text` as `a` where a numeral cannot go on after it, and if the text breaks off
inside, it is incomplete or nothing of it is left. -/
structure ReadsInside (r : JsonReader α) (text : List Char) (a : α) : Prop where
  run_append : ∀ rest, StopsBefore continuesNumeral rest → r.run (text ++ rest) = .ok (a, rest)
  run_take : ∀ n < text.length,
    r.run (text.take n) = .error .incomplete ∨ ∃ b, r.run (text.take n) = .ok (b, [])

namespace ReadsInside

variable {r : JsonReader α} {text : List Char} {a : α}

theorem of_delimits (h : r.Delimits .incomplete text a) :
  ReadsInside r text a
  := by
  constructor
  · intro rest _
    apply h.run_append
  · intro n hn
    exact .inl (h.run_take n hn)

theorem map (h : ReadsInside r text a) (f : α → β) :
  ReadsInside (r >>= fun a => pure (f a)) text (f a)
  := by
  constructor
  · intro rest hrest
    rw [Reader.run_bind_of_ok (h.run_append rest hrest), Reader.run_pure]
  · intro n hn
    rcases h.run_take n hn with herror | ⟨b, hok⟩
    · exact .inl (Reader.run_bind_of_error herror _)
    · exact .inr ⟨f b, by rw [Reader.run_bind_of_ok hok, Reader.run_pure]⟩

end ReadsInside

/-! ### Nested values -/

/-- No more than `n` brackets are open at once in a value. -/
inductive Value.Within : Nat → Value → Prop
  | text {n : Nat} (s : String) : Within n (.text s)
  | number {n : Nat} (k : UInt32) : Within n (.number k)
  | list {n : Nat} {elements : List Value} :
      (∀ v ∈ elements, Within n v) → Within (n + 1) (.list elements)
  | object {n : Nat} {members : List (String × Value)} :
      (∀ member ∈ members, Within n member.2) → Within (n + 1) (.object members)

namespace Value

@[simp]
theorem within_text (n : Nat) (s : String) :
  (Value.text s).Within n
  := Within.text s

@[simp]
theorem within_number (n : Nat) (k : UInt32) :
  (Value.number k).Within n
  := Within.number k

theorem within_object {n : Nat} {members : List (String × Value)} :
  (Value.object members).Within (n + 1) ↔ ∀ member ∈ members, member.2.Within n
  := by
  constructor
  · rintro (_ | _ | _ | h)
    exact h
  · apply Within.object

theorem within_list {n : Nat} {write : α → Value} {l : List α} (h : ∀ a ∈ l, (write a).Within n) :
  (Value.list (l.map write)).Within (n + 1)
  := Within.list (List.forall_mem_map.mpr h)

theorem within_texts (n : Nat) (l : List String) :
  (Value.texts l).Within (n + 1)
  := within_list fun s _ => within_text n s

end Value

/-- The number of brackets that may be open at once: a codec need not read values that are nested
deeper. -/
def maxDepth : Nat :=
  127

/-! ### Values -/

namespace Codec

/-- `r` reads `v` as `a`, however `v` is written and whatever spaces stand before it, and sees where
it ends. -/
structure Reads (c : Codec) (r : JsonReader α) (v : Value) (a : α) : Prop where
  skipsSpaces : SkipsSpaces r
  delimits : ∀ layout depth, r.Delimits .incomplete (c.write layout depth v) a

/-- `r` reads `v` as `a` inside brackets, however `v` is written. -/
structure ReadsMember (c : Codec) (r : JsonReader α) (v : Value) (a : α) : Prop where
  skipsSpaces : SkipsSpaces r
  inside : ∀ layout depth, ReadsInside r (c.write layout depth v) a

/-- The members of an object are read one after the other as fields of a record. -/
inductive ReadsFields (c : Codec) (fields : List (Field σ)) :
    σ → List (String × Value) → σ → Prop
  | nil (s : σ) : ReadsFields c fields s [] s
  | cons {s s' s'' : σ} {field : Field σ} {key : String} {v : Value}
      {members : List (String × Value)} :
      fields.find? (fun field => field.key == key) = some field → field.isRead s = false →
        c.ReadsMember (field.read s) v s' → ReadsFields c fields s' members s'' →
        ReadsFields c fields s ((key, v) :: members) s''

section Values

variable {c : Codec} {r : JsonReader α} {v : Value} {a : α}

theorem Reads.readsMember (h : c.Reads r v a) :
  c.ReadsMember r v a
  := ⟨h.skipsSpaces, fun layout depth => .of_delimits (h.delimits layout depth)⟩

/-- What is made of a value afterwards. -/
theorem Reads.bind_pure {k : α → JsonReader β} {b : β} (h : c.Reads r v a) (hk : k a = pure b) :
  c.Reads (r >>= k) v b
  := ⟨h.skipsSpaces.bind k, fun layout depth => (h.delimits layout depth).bind_pure hk⟩

theorem ReadsMember.map (h : c.ReadsMember r v a) (f : α → β) :
  c.ReadsMember (r >>= fun a => pure (f a)) v (f a)
  := ⟨h.skipsSpaces.bind _, fun layout depth => (h.inside layout depth).map f⟩

/-- The member of an object that is read next is a field that has not been read. -/
theorem ReadsFields.of
    {fields : List (Field σ)} {key : String} {get : σ → Option α} {set : σ → α → σ} {s s' : σ}
    {members : List (String × Value)}
    (hfind : fields.find? (fun field => field.key == key) = some (Field.of key r get set))
    (hunread : get s = none) (h : c.ReadsMember r v a)
    (hmembers : c.ReadsFields fields (set s a) members s') :
  c.ReadsFields fields s ((key, v) :: members) s'
  := by
  have hfield : c.ReadsMember ((Field.of key r get set).read s) v (set s a) := h.map (set s)
  apply ReadsFields.cons hfind _ hfield hmembers
  apply Option.isSome_eq_false_iff.mpr
  rw [hunread, Option.isNone_none]

end Values

/-! ### Lawful codecs -/

/-- What the codec writes is read back, shape by shape. -/
structure Lawful (c : Codec) : Prop where
  /-- A text is read back, whatever characters it holds. -/
  reads_text : ∀ s, c.Reads c.text (.text s) s
  /-- A number is read back where its numeral cannot go on. -/
  readsMember_number : ∀ n, c.ReadsMember c.number (.number n) n
  /-- A list of values that are read back is read back, in its order. -/
  reads_list :
    ∀ {α : Type} {element : JsonReader α} {write : α → Value} {l : List α},
      (∀ a ∈ l, c.Reads element (write a) a) → (Value.list (l.map write)).Within maxDepth →
        c.Reads (c.list element) (.list (l.map write)) l
  /-- An object whose members are the fields of a record is read back. -/
  reads_record :
    ∀ {α σ : Type} {fields : List (Field σ)} {start s : σ} {finish : σ → Option α}
      {members : List (String × Value)} {a : α},
      c.ReadsFields fields start members s → finish s = some a →
        (Value.object members).Within maxDepth →
          c.Reads (c.record fields start finish) (.object members) a
  /-- The name of a variant without content is read back. -/
  reads_constant :
    ∀ {α : Type} {variants : List (Variant α)} {key name : String} {a : α},
      variants.find? (fun variant => variant.key == key) = some (.constant name a) →
        c.Reads (c.choice variants) (.text key) a
  /-- The name of a variant and its content, as the only member of an object, are read back. -/
  reads_holding :
    ∀ {α : Type} {variants : List (Variant α)} {key name : String} {content : JsonReader α}
      {v : Value} {a : α},
      variants.find? (fun variant => variant.key == key) = some (.holding name content) →
        c.Reads content v a → (Value.object [(key, v)]).Within maxDepth →
          c.Reads (c.choice variants) (.object [(key, v)]) a
  /-- Nothing but spaces may stand after a value. -/
  run_finish :
    ∀ cs, c.finish.run cs = if cs.all isSpace then .ok ((), []) else .error .malformed

namespace Lawful

variable {c : Codec} (hc : c.Lawful)

include hc

/-- The text of a value is read back. -/
theorem reads_parsedText {f : String → Option α} {s : String} {a : α} (h : f s = some a) :
  c.Reads (c.parsedText f) (.text s) a
  := by
  apply (hc.reads_text s).bind_pure
  rw [h]

/-- Texts are read back as a list. -/
theorem reads_texts (l : List String) :
  c.Reads (c.list c.text) (.texts l) l
  := hc.reads_list (fun s _ => hc.reads_text s) (Value.within_texts 126 l)

/-- An object with one member is read as what is made of the value of its only field. -/
theorem reads_onlyField
    {r : JsonReader α} {key : String} {v : Value} {a : α} (f : α → β) (h : c.Reads r v a)
    (hdepth : (Value.object [(key, v)]).Within maxDepth) :
  c.Reads (c.record [Field.of key r id fun _ a => some a] none fun s => s.map f)
    (.object [(key, v)]) (f a)
  := by
  let field : Field (Option α) := Field.of key r id fun _ a => some a
  have hfind : [field].find? (fun field => field.key == key) = some field :=
    List.find?_cons_of_pos (beq_self_eq_true key)
  apply hc.reads_record (s := some a)
  · apply ReadsFields.of hfind rfl h.readsMember
    apply ReadsFields.nil
  · rfl
  · exact hdepth

end Lawful

/-! ### Whole texts -/

/-- What is made of a value makes no difference to how its text is read. -/
theorem decode_bind_pure (c : Codec) (r : JsonReader α) (f : α → β) (s : String) :
  c.decode (r >>= fun a => pure (f a)) s = (c.decode r s).map f
  := by
  rw [decode, decode, bind_assoc]
  cases hrun : r.run s.toList with
  | error e =>
    rw [Reader.run_bind_of_error hrun, Reader.run_bind_of_error hrun]
    rfl
  | ok x =>
    obtain ⟨a, rest⟩ := x
    rw [Reader.run_bind_of_ok hrun, Reader.run_bind_of_ok hrun, pure_bind]
    cases hfinish : c.finish.run rest with
    | error e =>
      rw [Reader.run_bind_of_error hfinish, Reader.run_bind_of_error hfinish]
      rfl
    | ok x =>
      rw [Reader.run_bind_of_ok hfinish, Reader.run_bind_of_ok hfinish]
      rfl

section Texts

variable {c : Codec} {r : JsonReader α} {v : Value} {a : α}

/-- Nothing but spaces may follow a value. -/
theorem Reads.decode_render_append (h : c.Reads r v a) (hc : c.Lawful) (layout : Layout)
    (x : String) :
  c.decode r (c.render layout v ++ x)
    = if x.toList.all isSpace then .ok a else .error .malformed
  := by
  have hrun := (h.delimits layout 0).run_append x.toList
  have hfinish := hc.run_finish x.toList
  rw [decode, render, String.toList_append, String.toList_ofList, Reader.run_bind_of_ok hrun]
  split
  · next hspaces =>
    rw [if_pos hspaces] at hfinish
    rw [Reader.run_bind_of_ok hfinish]
    rfl
  · next hspaces =>
    rw [if_neg hspaces] at hfinish
    rw [Reader.run_bind_of_error hfinish]
    rfl

/-- A value is read back from its text. -/
theorem Reads.decode_render (h : c.Reads r v a) (hc : c.Lawful) (layout : Layout) :
  c.decode r (c.render layout v) = .ok a
  := by
  have hdecode := h.decode_render_append hc layout ""
  rwa [String.append_empty, if_pos (by rfl)] at hdecode

/-- A text that breaks off before the value ends is incomplete. -/
theorem Reads.decode_of_append_eq
    {front rest : String} {layout : Layout} (h : c.Reads r v a)
    (heq : front ++ rest = c.render layout v) (hrest : rest ≠ "") :
  c.decode r front = .error .incomplete
  := by
  have htext : front.toList ++ rest.toList = c.write layout 0 v := by
    rw [← String.toList_append, heq, render, String.toList_ofList]
  have hstart : front.toList <+: c.write layout 0 v := ⟨rest.toList, htext⟩
  have hne : front.toList ≠ c.write layout 0 v := by
    intro hfront
    rw [← htext, List.self_eq_append_right] at hfront
    apply hrest (String.toList_eq_nil_iff.mp hfront)
  have hdelimits := h.delimits layout 0
  rw [decode, Reader.run_bind_of_error (hdelimits.run_of_prefix hstart hne)]
  rfl

end Texts

end Codec

end Acceptor.Json

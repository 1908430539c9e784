import Acceptor.Proofs.Description.Diagnosis

/-!
# Faults in the number and in the shapes of parts

The parts of a descriptor line are read to the end of the line before they are counted, and
they are counted before it is asked whether each has the shape that its place asks for.  So the
number of parts is a fault exactly when a line consists of parts that are not five, and of five
parts the first of the wrong shape is the fault.
-/

namespace Acceptor

/-- The reading of a line does not count its parts. -/
theorem TokenReader.found_ne_components
    {endOffset : Nat} {tokens : List Token} {fault : Fault}
    (h : (descriptorLine endOffset).run tokens = .error fault) (count : Nat) :
  fault.found ≠ .components count
  := by
  have hmade := made_descriptorLine h
  cases hmade with
  | atNext front back wanted => cases back <;> nofun
  | past => nofun

/-! ### The number of parts -/

/-- A line of parts that are not five is refused with their number. -/
theorem parseDescriptor_of_length_ne
    {line name : String} {parts : List Component}
    (h : (lex line).map Token.kind = lineKinds name parts) (hne : parts ≠ [])
    (hlength : parts.length ≠ 5) :
  parseDescriptor line
    = .error ⟨line.utf8ByteSize, .fiveComponents, .components parts.length⟩
  := by
  obtain ⟨located, rfl, hline⟩ := exists_run_descriptorLine hne h line.utf8ByteSize
  rw [List.length_map] at hlength ⊢
  rw [parseDescriptor_eq, hline]
  apply Descriptor.ofComponents_of_length_ne hlength

/-- A fault that counts the parts is made of a line of parts that are not five. -/
theorem exists_lineKinds_of_components
    {line : String} {fault : Fault} {count : Nat} (h : parseDescriptor line = .error fault)
    (hfound : fault.found = .components count) :
  count ≠ 0 ∧ count ≠ 5
    ∧ ∃ name parts, (lex line).map Token.kind = lineKinds name parts ∧ parts.length = count
  := by
  rw [parseDescriptor_eq] at h
  split at h
  · next name parts rest hline =>
    obtain ⟨hkinds, hne⟩ := map_kind_of_run_descriptorLine hline
    rcases Descriptor.ofComponents_eq_error h with ⟨hlength, rfl⟩ | ⟨role, part, -, rfl⟩
    · obtain rfl := Found.components.inj hfound
      use mt List.length_eq_zero_iff.mp hne, hlength, name, parts.map Prod.snd, hkinds
      apply List.length_map
    · obtain ⟨offset, _ | _⟩ := part <;> cases hfound
  · next fault' hline =>
    obtain rfl := Except.error.inj h
    exact absurd hfound (TokenReader.found_ne_components hline count)

/-! ### The shapes of parts -/

/-- A part stands after the parts before it, each of which is followed by a comma. -/
theorem exists_split_of_run_descriptorLine
    {endOffset : Nat} {tokens rest : List Token} {name : String} {parts : List (Nat × Component)}
    (h : (TokenReader.descriptorLine endOffset).run tokens = .ok ((name, parts), rest)) {n : Nat}
    {part : Nat × Component} (hplace : parts[n]? = some part) :
  ∃ front token back, tokens = front ++ token :: back
    ∧ front.map Token.kind
      = lineStart name
        ++ (((parts.map Prod.snd).take n).map Component.kinds).flatMap (· ++ [.comma])
    ∧ token.offset = part.1
  := by
  obtain ⟨-, start, front, offset, rfl, hstart, hl⟩ :=
    TokenReader.run_descriptorLine_eq_ok_iff.mp h
  obtain ⟨hn, rfl⟩ := List.getElem?_eq_some_iff.mp hplace
  have hparts : parts = parts.take n ++ parts[n] :: parts.drop (n + 1) := by
    rw [← List.drop_eq_getElem_cons hn, List.take_append_drop]
  rw [hparts] at hl
  obtain ⟨begun, first, rest, rfl, hbegun, hitem⟩ := hl.exists_split
  obtain ⟨token, tail, rfl⟩ : ∃ token tail, first = token :: tail := by
    cases first with
    | nil => cases hitem.2
    | cons token tail => use token, tail
  use start ++ begun, token, tail ++ rest ++ [⟨.closeParen, offset⟩]
  and_intros
  · simp
  · rw [List.map_append, hstart, hbegun.map_kind_part, List.map_take]
  · apply Option.some.inj hitem.2

/-- Of five parts, the first that has not the shape that its place asks for is a fault, which
lies where this part begins. -/
theorem parseDescriptor_eq_error_of_length_eq
    {line name : String} {parts : List Component} {fault : Fault}
    (h : (lex line).map Token.kind = lineKinds name parts) (hlength : parts.length = 5)
    (herror : parseDescriptor line = .error fault) :
  ∃ role part, parts[role.position - 1]? = some part ∧ part.isSet ≠ role.takesSet
    ∧ (∀ other : Role, other.Misfit parts → role.position ≤ other.position)
    ∧ fault.wanted = .role role ∧ fault.found = part.found
    ∧ ∃ front token back, lex line = front ++ token :: back
      ∧ front.map Token.kind
        = lineStart name
          ++ ((parts.take (role.position - 1)).map Component.kinds).flatMap (· ++ [.comma])
      ∧ fault.offset = token.offset
  := by
  have hne : parts ≠ [] := by
    rintro rfl
    cases hlength
  obtain ⟨located, rfl, hline⟩ := exists_run_descriptorLine hne h line.utf8ByteSize
  rw [parseDescriptor_eq, hline] at herror
  rw [List.length_map] at hlength
  rcases Descriptor.ofComponents_eq_error herror with ⟨hlength', -⟩ | ⟨role, part, hfirst, rfl⟩
  · exact absurd hlength hlength'
  · obtain ⟨front, token, back, hlex, hfront, hoffset⟩ :=
      exists_split_of_run_descriptorLine hline hfirst.at_place
    use role, part.2
    and_intros
    · rw [List.getElem?_map, hfirst.at_place, Option.map_some]
    · apply hfirst.misfits
    · intro other hother
      apply Nat.le_of_not_lt
      intro hlt
      apply hfirst.reached other hlt hother
    · rfl
    · rfl
    · use front, token, back, hlex, hfront, hoffset.symm

/-- A line that is read has five parts, all of which have the right shapes. -/
theorem of_parseDescriptor_eq_ok
    {line name : String} {parts : List Component} {d : Descriptor}
    (h : (lex line).map Token.kind = lineKinds name parts) (hok : parseDescriptor line = .ok d) :
  parts.length = 5 ∧ ∀ role : Role, ¬ role.Misfit parts
  := by
  have hne : parts ≠ [] := by
    rintro rfl
    obtain ⟨name', _, _, _, _, _, hkinds, -⟩ := exists_map_kind_of_parseDescriptor hok
    rw [h] at hkinds
    simp [lineKinds, descriptorKinds, lineStart, joined, setKinds] at hkinds
  obtain ⟨located, rfl, hline⟩ := exists_run_descriptorLine hne h line.utf8ByteSize
  rw [parseDescriptor_eq, hline] at hok
  obtain ⟨states, alphabet, placeholder, initial, finals, hparts, -⟩ :=
    Descriptor.ofComponents_eq_ok_iff.mp hok
  rw [hparts]
  use rfl
  rintro (_ | _ | _ | _ | _) ⟨_, ⟨⟩, hshape⟩ <;> exact hshape rfl

/-- A line is refused for the number of its parts, at its end, exactly when its tokens are those
of a name and of parts that are not five.  A line of five parts is refused exactly when the
shape of some part is not the one that its place asks for, and the fault tells the first such
place and what is found there, where the part begins.  A part more or less than those of a line
that is read is always refused for the number of parts, wherever it stands. -/
theorem parseDescriptor_shapes (line : String) :
  (∀ k : Nat,
      (∃ fault, parseDescriptor line = .error fault
        ∧ fault.found.display = toString k ++ " component(s)"
        ∧ fault.offset = line.utf8ByteSize)
      ↔ k ≠ 0 ∧ k ≠ 5
        ∧ ∃ name parts, (lex line).map Token.kind = lineKinds name parts ∧ parts.length = k)
    ∧ (∀ name parts, (lex line).map Token.kind = lineKinds name parts → parts.length = 5 →
      ((∃ fault, parseDescriptor line = .error fault) ↔ ∃ role : Role, role.Misfit parts)
        ∧ ∀ fault, parseDescriptor line = .error fault →
          ∃ role part, parts[role.position - 1]? = some part ∧ part.isSet ≠ role.takesSet
            ∧ (∀ other : Role, other.Misfit parts → role.position ≤ other.position)
            ∧ fault.wanted = .role role ∧ fault.found = part.found
            ∧ ∃ front token back, lex line = front ++ token :: back
              ∧ front.map Token.kind
                = lineStart name
                  ++ ((parts.take (role.position - 1)).map Component.kinds).flatMap (· ++ [.comma])
              ∧ fault.offset = token.offset)
    ∧ ∀ name before part after d,
      ((lex line).map Token.kind = lineKinds name (before ++ part :: after) →
          parseDescriptor line = .ok d →
          ∀ line', (lex line').map Token.kind = lineKinds name (before ++ after) →
            parseDescriptor line' = .error ⟨line'.utf8ByteSize, .fiveComponents, .components 4⟩)
        ∧ ((lex line).map Token.kind = lineKinds name (before ++ after) →
          parseDescriptor line = .ok d →
          ∀ line', (lex line').map Token.kind = lineKinds name (before ++ part :: after) →
            parseDescriptor line' = .error ⟨line'.utf8ByteSize, .fiveComponents, .components 6⟩)
  := by
  and_intros
  · intro k
    constructor
    · rintro ⟨fault, herror, hfound, -⟩
      have hcount : fault.found = .components k := Found.display_inj hfound
      apply exists_lineKinds_of_components herror hcount
    · rintro ⟨hpos, hfive, name, parts, hkinds, rfl⟩
      use ⟨line.utf8ByteSize, .fiveComponents, .components parts.length⟩
      use parseDescriptor_of_length_ne hkinds (mt List.length_eq_zero_iff.mpr hpos) hfive
      use rfl
  · intro name parts hkinds hlength
    constructor
    · constructor
      · rintro ⟨fault, herror⟩
        obtain ⟨role, part, hplace, hshape, -⟩ :=
          parseDescriptor_eq_error_of_length_eq hkinds hlength herror
        exact ⟨role, part, hplace, hshape⟩
      · rintro ⟨role, hmisfit⟩
        cases hparse : parseDescriptor line with
        | error fault => use fault
        | ok d => exact absurd hmisfit ((of_parseDescriptor_eq_ok hkinds hparse).2 role)
    · intro fault herror
      apply parseDescriptor_eq_error_of_length_eq hkinds hlength herror
  · intro name before part after d
    constructor
    · intro hkinds hok line' hkinds'
      have hlength := (of_parseDescriptor_eq_ok hkinds hok).1
      rw [List.length_append, List.length_cons] at hlength
      have hfour : (before ++ after).length = 4 := by
        rw [List.length_append]
        omega
      rw [← hfour]
      apply parseDescriptor_of_length_ne hkinds' (List.ne_nil_of_length_pos (by omega)) (by omega)
    · intro hkinds hok line' hkinds'
      have hlength := (of_parseDescriptor_eq_ok hkinds hok).1
      rw [List.length_append] at hlength
      have hsix : (before ++ part :: after).length = 6 := by
        rw [List.length_append, List.length_cons]
        omega
      rw [← hsix]
      apply parseDescriptor_of_length_ne hkinds' (by simp) (by omega)

/-- The third part is a set; it begins at the offset 12, which counts bytes. -/
theorem parseDescriptor_shapes_placeholder :
  parseDescriptor "M=({é},{a},{b},q0,{})" = .error ⟨12, .role .placeholder, .set⟩
    ∧ ∃ role : Role, role.Misfit [.set ["é"], .set ["a"], .set ["b"], .identifier "q0", .set []]
  := by
  have hkinds : (lex "M=({é},{a},{b},q0,{})").map Token.kind
      = lineKinds "M" [.set ["é"], .set ["a"], .set ["b"], .identifier "q0", .set []] := by
    with_unfolding_all rfl
  have hfault : parseDescriptor "M=({é},{a},{b},q0,{})"
      = .error ⟨12, .role .placeholder, .set⟩ := by
    with_unfolding_all rfl
  obtain ⟨-, hfive, -⟩ := parseDescriptor_shapes "M=({é},{a},{b},q0,{})"
  use hfault
  apply (hfive "M" _ hkinds rfl).1.mp ⟨_, hfault⟩

end Acceptor

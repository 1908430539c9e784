import Acceptor.Log
import Acceptor.Proofs.Description.TableGrammar
import Acceptor.Proofs.History
import Acceptor.Proofs.Reader
import Mathlib.Data.List.Induction

/-!
# Logs of table bodies

While a table body is read, an event is told for each row that replaces another, with the number of
the row and the state to which the row before it led, and one for the table when the body ends.
`Overwrites` says which rows these are by the rows of the body alone, without a table.
`parseTableTelling` reads row after row and tells each event when it happens; `tableLog` computes
the same events from the rows when the body is read (`parseTableTelling_eq`).
-/

namespace Acceptor

open Transition

/-! ### Rows that replace others -/

/-- The row with the number `entry`, counted from 1, replaces one that leads to `previous`, which is
the last one before it from the same pair. -/
def Overwrites (rows : List Transition) (entry : Nat) (previous : String) : Prop :=
  ∃ front earlier between row after, rows = front ++ earlier :: (between ++ row :: after)
    ∧ entry = (front ++ earlier :: between).length + 1
    ∧ earlier.key = row.key
    ∧ row.key ∉ between.map key
    ∧ earlier.target = previous

/-- Numbers of rows, each with a state, are those of the rows that replace others, in their order
and once each, with the states to which these led. -/
structure ListsOverwrites (rows : List Transition) (l : List (Nat × String)) : Prop where
  increasing : l.Pairwise (·.1 < ·.1)
  mem_iff : ∀ entry previous, (entry, previous) ∈ l ↔ Overwrites rows entry previous

/-- After the last row from a pair there are only rows from other pairs. -/
theorem Transition.lastFrom?_key_eq_some_iff {rows : List Transition} {row last : Transition} :
  lastFrom? row.source row.symbol rows = some last
    ↔ ∃ front between, rows = front ++ last :: between
      ∧ last.key = row.key
      ∧ row.key ∉ between.map key
  := by
  have hkey : ∀ other : Transition,
      (decide (other.source = row.source ∧ other.symbol = row.symbol) = true)
        ↔ other.key = row.key := by
    simp [key]
  have hbetween : ∀ between : List Transition,
      (between.filter fun other => other.source = row.source ∧ other.symbol = row.symbol) = []
        ↔ row.key ∉ between.map key := by
    simp [List.filter_eq_nil_iff, key]
  rw [lastFrom?, List.getLast?_eq_some_iff]
  constructor
  · rintro ⟨earlier, h⟩
    obtain ⟨front, back, rfl, -, hback⟩ := List.filter_eq_append_iff.mp h
    obtain ⟨others, between, rfl, -, hlast, hnil⟩ := List.filter_eq_cons_iff.mp hback
    use front ++ others, between
    rw [List.append_assoc]
    use rfl, (hkey last).mp hlast, (hbetween between).mp hnil
  · rintro ⟨front, between, rfl, hlast, hnotMem⟩
    rw [List.filter_append, List.filter_cons, if_pos ((hkey last).mpr hlast),
      (hbetween between).mpr hnotMem]
    use front.filter fun other => other.source = row.source ∧ other.symbol = row.symbol

theorem Overwrites.le {rows : List Transition} {entry : Nat} {previous : String}
    (h : Overwrites rows entry previous) :
  entry ≤ rows.length
  := by
  obtain ⟨front, earlier, between, row, after, rfl, rfl, -⟩ := h
  simp only [List.length_append, List.length_cons]
  omega

/-- One more row replaces the last one from its pair, if there is one. -/
theorem overwrites_concat {rows : List Transition} {row : Transition} {entry : Nat}
    {previous : String} :
  Overwrites (rows ++ [row]) entry previous
    ↔ Overwrites rows entry previous
      ∨ entry = rows.length + 1
        ∧ (lastFrom? row.source row.symbol rows).map target = some previous
  := by
  constructor
  · rintro ⟨front, earlier, between, next, after, hrows, rfl, hkey, hbetween, rfl⟩
    -- It is the new row that replaces one, or the new row is the last of those that come after.
    rcases after.eq_nil_or_concat with rfl | ⟨after, last, rfl⟩
    · right
      rw [← List.cons_append, ← List.append_assoc] at hrows
      obtain ⟨rfl, ⟨⟩⟩ := List.append_inj' hrows rfl
      use rfl
      rw [lastFrom?_key_eq_some_iff.mpr ⟨front, between, rfl, hkey, hbetween⟩, Option.map_some]
    · left
      have hfront : front ++ earlier :: (between ++ next :: after.concat last)
          = front ++ earlier :: (between ++ next :: after) ++ [last] := by
        simp
      rw [hfront] at hrows
      obtain ⟨rfl, -⟩ := List.append_inj' hrows rfl
      use front, earlier, between, next, after
  · rintro (⟨front, earlier, between, next, after, rfl, rfl, hkey, hbetween, rfl⟩ | ⟨rfl, hlast⟩)
    · use front, earlier, between, next, after ++ [row]
      simp [hkey, hbetween]
    · obtain ⟨earlier, hearlier, rfl⟩ := Option.map_eq_some_iff.mp hlast
      obtain ⟨front, between, rfl, hkey, hbetween⟩ := lastFrom?_key_eq_some_iff.mp hearlier
      use front, earlier, between, row, []
      simp [hkey, hbetween]

/-! ### Logs of rows -/

theorem listsOverwrites_nil :
  ListsOverwrites [] []
  where
  increasing := List.Pairwise.nil
  mem_iff entry previous := by
    constructor
    · nofun
    · rintro ⟨front, earlier, between, row, after, hrows, -⟩
      cases List.append_ne_nil_of_right_ne_nil front (List.cons_ne_nil _ _) hrows.symm

/-- The row after some rows replaces at most one of them. -/
theorem ListsOverwrites.concat
    {rows : List Transition} {l : List (Nat × String)} (h : ListsOverwrites rows l)
    (row : Transition) :
  ListsOverwrites (rows ++ [row])
    (l ++ ((Table.ofList rows).get? row.source row.symbol).toList.map (rows.length + 1, ·))
  where
  increasing := by
    rw [List.pairwise_append]
    use h.increasing
    constructor
    · cases (Table.ofList rows).get? row.source row.symbol with
      | none => apply List.Pairwise.nil
      | some previous => apply List.pairwise_singleton
    · rintro ⟨entry, previous⟩ hentry _ hnew
      obtain ⟨_, -, rfl⟩ := List.mem_map.mp hnew
      apply Nat.lt_succ_of_le
      apply ((h.mem_iff entry previous).mp hentry).le
  mem_iff entry previous := by
    rw [List.mem_append, h.mem_iff, overwrites_concat, Table.get?_ofList]
    simp [eq_comm, and_comm]

theorem overwriteLog_append (t : Table) (entry : Nat) (rows more : List Transition) :
  overwriteLog t entry (rows ++ more)
    = overwriteLog t entry rows ++ overwriteLog (t.insertMany rows) (entry + rows.length) more
  := by
  induction rows generalizing t entry with
  | nil => rfl
  | cons row rows ih =>
    have hnext := ih (t.insert row) (entry + 1)
    rw [Nat.add_assoc, Nat.add_comm 1] at hnext
    rw [List.cons_append, overwriteLog, overwriteLog, Table.insertMany_cons, List.length_cons]
    rw [Table.insert] at hnext ⊢
    generalize t.exchange row = exchanged at hnext ⊢
    obtain ⟨_ | previous, u⟩ := exchanged
    · apply hnext
    · rw [List.cons_append]
      apply congrArg _ hnext

theorem overwriteLog_singleton (t : Table) (entry : Nat) (row : Transition) :
  overwriteLog t entry [row]
    = (t.get? row.source row.symbol).toList.map (.transitionOverwritten entry)
  := by
  rw [← t.fst_exchange, overwriteLog]
  generalize t.exchange row = exchanged
  obtain ⟨_ | previous, u⟩ := exchanged <;> rfl

theorem overwriteLog_concat (rows : List Transition) (row : Transition) :
  overwriteLog ∅ 1 (rows ++ [row])
    = overwriteLog ∅ 1 rows
      ++ ((Table.ofList rows).get? row.source row.symbol).toList.map
        (.transitionOverwritten (rows.length + 1))
  := by
  rw [overwriteLog_append, overwriteLog_singleton, Nat.add_comm 1]
  rfl

theorem Table.ofList_concat (rows : List Transition) (row : Transition) :
  ofList (rows ++ [row]) = ((ofList rows).exchange row).2
  := insertMany_append ∅ rows [row]

/-- The log of rows lists those that replace others, which are as many as there are rows too many
for the table. -/
theorem exists_listsOverwrites (rows : List Transition) :
  ∃ l, ListsOverwrites rows l
    ∧ l.length + (Table.ofList rows).size = rows.length
    ∧ overwriteLog ∅ 1 rows = l.map fun x => .transitionOverwritten x.1 x.2
  := by
  induction rows using List.reverseRecOn with
  | nil =>
    use [], listsOverwrites_nil
    constructor <;> rfl
  | append_singleton rows row ih =>
    obtain ⟨l, hl, hsize, hlog⟩ := ih
    have hinsert := inserts_exchange (Table.ofList rows) row
    refine ⟨_, hl.concat row, ?_, ?_⟩
    · rw [Table.ofList_concat, hinsert.size_eq, hinsert.replaced_eq, List.length_append,
        List.length_append, List.length_map, ← hsize]
      cases (Table.ofList rows).get? row.source row.symbol with
      | none => rfl
      | some previous =>
        rw [if_neg (Option.some_ne_none previous)]
        apply Nat.add_right_comm
    · rw [overwriteLog_concat, hlog, List.map_append, List.map_map]
      rfl

/-! ### Events told one by one -/

/-- How far the reading of a body has come: the number of the rows that are read, the table of them,
and the events that have been told. -/
structure TableReading where
  entries : Nat
  table : Table
  told : List Event

namespace TableReading

/-- Adds a row to the table, and tells which state it replaces there, if it replaces one. -/
def add (s : TableReading) (row : Transition) : TableReading :=
  match s.table.exchange row with
  | (some previous, table) =>
    ⟨s.entries + 1, table, s.told ++ [.transitionOverwritten (s.entries + 1) previous]⟩
  | (none, table) => ⟨s.entries + 1, table, s.told⟩

/-- Reads the rows up to the end of a body.  A fault comes with the events that have been told and
with the number of the row in which it lies. -/
def rowsAfter (endOffset : Nat) (s : TableReading) :
    Reader Token (List Event × Nat × Fault) (List Event × Table) :=
  Reader.loop
    (fun s => .ok (s.told ++ [.tableParsed s.entries s.table.size], s.table))
    (fun s token => do
      let next ← (TokenReader.row endOffset token).mapFault fun fault =>
        (s.told, s.entries + 1, fault)
      pure (.inl (s.add next)))
    s

/-- How far the reading of a body has come after some rows. -/
def ofRows (rows : List Transition) : TableReading :=
  ⟨rows.length, Table.ofList rows, overwriteLog ∅ 1 rows⟩

theorem add_ofRows (rows : List Transition) (row : Transition) :
  (ofRows rows).add row = ofRows (rows ++ [row])
  := by
  rw [add, ofRows, ofRows, Table.ofList_concat, overwriteLog_concat, List.length_append,
    ← Table.fst_exchange]
  dsimp only
  generalize (Table.ofList rows).exchange row = exchanged
  obtain ⟨_ | previous, t⟩ := exchanged
  · rw [Option.toList_none, List.map_nil, List.append_nil]
    rfl
  · rfl

/-- The rows of a body are read in step with the events that they tell. -/
theorem rowsAfter_ofRows (endOffset : Nat) (done : List Transition) :
  rowsAfter endOffset (ofRows done.reverse)
    = Reader.mapFault (fun e => ((ofRows e.rows).told, e.entry, e.fault))
      ((fun rows => ((ofRows rows).told ++ [.tableParsed rows.length (Table.ofList rows).size],
          Table.ofList rows))
        <$> TokenReader.rowsAfter endOffset done)
  := by
  rw [rowsAfter, TokenReader.rowsAfter]
  apply Reader.loop_map fun done : List Transition => ofRows done.reverse
  · intro done
    rfl
  · intro done token
    apply Reader.ext
    intro items
    simp only [Reader.run_bind, Reader.run_mapFault, Reader.run_map]
    cases (TokenReader.row endOffset token).run items with
    | error fault => rfl
    | ok result =>
      obtain ⟨row, rest⟩ := result
      simp [add_ofRows]

end TableReading

/-- Reads a table body, and tells what happens when it happens. -/
def parseTableTelling (body : String) : List Event × Except (Nat × Fault) Table :=
  match (TableReading.rowsAfter body.utf8ByteSize ⟨0, ∅, []⟩).run (lex body) with
  | .ok ((told, t), _) => (told, .ok t)
  | .error (told, e) => (told, .error e)

/-- The events that are told when they happen are those of the log. -/
theorem parseTableTelling_eq (body : String) :
  parseTableTelling body
    = (tableLog body, (parseTable body).mapError fun e => (e.entry, e.fault))
  := by
  have hstart : (⟨0, ∅, []⟩ : TableReading) = .ofRows [].reverse := rfl
  rw [parseTableTelling, hstart, TableReading.rowsAfter_ofRows, parseTable, tableLog, readRows,
    TokenReader.rows, Reader.run_mapFault, Reader.run_map]
  cases (TokenReader.rowsAfter body.utf8ByteSize []).run (lex body) <;> rfl

/-! ### Logs of table bodies -/

theorem tableLog_of_kinds {body : String} {rows : List Transition}
    (h : (lex body).map Token.kind = rows.flatMap Transition.kinds) :
  tableLog body = overwriteLog ∅ 1 rows ++ [.tableParsed rows.length (Table.ofList rows).size]
  := by
  rw [tableLog, readRows_of_map_kind h]

theorem tableLog_of_error {body : String} {e : BodyFault}
    (h : parseTable body = .error e) :
  tableLog body = overwriteLog ∅ 1 e.rows
  := by
  rw [parseTable] at h
  rw [tableLog]
  cases hrows : readRows body with
  | ok rows =>
    rw [hrows] at h
    cases h
  | error e' =>
    rw [hrows] at h
    obtain rfl : e' = e := Except.error.inj h
    rfl

/-- A body that is read tells the rows that replace others, in their order and once each, which are
as many as there are rows too many for the table, and then the table.  A body with a fault tells the
rows before the fault that replace others, and nothing else.  The events are told when they
happen. -/
theorem tableLog_overwrites (body : String) :
  (∀ t, parseTable body = .ok t →
    ∃ rows l, (lex body).map Token.kind = rows.flatMap Transition.kinds
      ∧ CollectedFrom rows t
      ∧ ListsOverwrites rows l
      ∧ l.length + t.size = rows.length
      ∧ (tableLog body).map Event.record
        = (l.map fun x => ⟨.debug, "transition overwritten",
            [("entry", toString x.1), ("previous", x.2)]⟩)
          ++ [⟨.debug, "transition table parsed",
            [("entries", toString rows.length), ("transitions", toString t.size)]⟩])
    ∧ (∀ e, parseTable body = .error e →
      ∃ ahead l, (lex body).map Token.kind = e.rows.flatMap Transition.kinds ++ ahead
        ∧ e.rows.length + 1 = e.entry
        ∧ ListsOverwrites e.rows l
        ∧ (tableLog body).map Event.record
          = l.map fun x => ⟨.debug, "transition overwritten",
              [("entry", toString x.1), ("previous", x.2)]⟩)
    ∧ parseTableTelling body
      = (tableLog body, (parseTable body).mapError fun e => (e.entry, e.fault))
  := by
  and_intros
  · intro t ht
    rcases parseTable_outcome body with ⟨rows, hkinds, htable⟩ | ⟨e, _, _, _, he, -⟩
    · obtain rfl : Table.ofList rows = t := Except.ok.inj (htable.symm.trans ht)
      obtain ⟨l, hl, hsize, hlog⟩ := exists_listsOverwrites rows
      use rows, l, hkinds, collectedFrom_ofList rows, hl, hsize
      rw [tableLog_of_kinds hkinds, hlog, List.map_append, List.map_map]
      rfl
    · cases he.symm.trans ht
  · intro e he
    obtain ⟨l, hl, -, hlog⟩ := exists_listsOverwrites e.rows
    rcases parseTable_outcome body with
      ⟨_, -, htable⟩ | ⟨e', front, token, ahead, he', hlex, hfront, -⟩
    · cases htable.symm.trans he
    · obtain rfl : e' = e := Except.error.inj (he'.symm.trans he)
      use (token :: ahead).map Token.kind, l
      rw [hlex, List.map_append, hfront, tableLog_of_error he, hlog, List.map_map]
      use rfl, rfl, hl
      rfl
  · apply parseTableTelling_eq

/-- A row replaces the last one before it from the same pair, also when both lead to the same
state. -/
example :
  (tableLog "(q0,a)=é(q0,b)=q1\n(q0,a)=é(q0,a)=q1").map Event.record
    = [⟨.debug, "transition overwritten", [("entry", "3"), ("previous", "é")]⟩,
      ⟨.debug, "transition overwritten", [("entry", "4"), ("previous", "é")]⟩,
      ⟨.debug, "transition table parsed", [("entries", "4"), ("transitions", "2")]⟩]
  := by
  with_unfolding_all rfl

end Acceptor

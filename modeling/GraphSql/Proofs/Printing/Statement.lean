import GraphSql.Proofs.Printing.Expression
import GraphSql.Proofs.Scoping

namespace GraphSql

open Fragment Segment

variable {column : OutputColumn} {outputs : List String} {visible : Visible} {σ τ : Type}

structure Declared.Shaped (rowSet : Declared) : Prop where
  name : IsFree rowSet.name
  columns : ∀ name ∈ rowSet.columns, IsFree name

structure Visible.Shaped (visible : Visible) : Prop where
  row : IsFree visible.row.text
  columns : ∀ name ∈ visible.columns, IsFree name

/-- The row name of a source is shaped. -/
def Source.Named : Source → Prop
  | .table _ | .relation _ none => True
  | .relation _ (some row) | .distinct _ _ row => IsFree row.text

/-- A name that is not quoted is shaped. -/
def OutputColumn.Shaped : OutputColumn → Prop
  | .named _ name => IsFree name
  | .plain _ | .quoted .. | .every _ => True

/-- The column keeps its name or has a generated one. -/
def OutputColumn.Generated : OutputColumn → Prop
  | .named _ name => IsFree name
  | .quoted .. => False
  | .plain _ | .every _ => True

theorem OutputColumn.Generated.shaped (generated : column.Generated) : column.Shaped := by
  cases column with
  | named term name => exact generated
  | plain _ | quoted _ _ | every _ => trivial

/-- The columns of a SELECT are admitted, and the row names of its sources are shaped. -/
structure Select.Named (admitted : OutputColumn → Prop) (select : Select σ) : Prop where
  columns : ∀ column ∈ select.columns, admitted column
  source : select.source.Named
  joins : ∀ join ∈ select.joins, join.source.Named

variable {select : Select σ} {holds : σ → Prop}

theorem Select.Named.shaped (named : select.Named OutputColumn.Generated) : select.Named OutputColumn.Shaped :=
  ⟨fun column mem => (named.columns column mem).shaped, named.source, named.joins⟩

/-- The names that a row set generates are shaped, and it has no names of the caller. -/
structure RowSet.Named (rowSet : RowSet σ) : Prop where
  name : IsFree rowSet.name
  members : ∀ member ∈ rowSet.members, member.Named OutputColumn.Generated

structure Level.Named (level : Level σ) : Prop where
  rowSets : ∀ rowSet ∈ level.rowSets, rowSet.Named
  select : level.select.Named OutputColumn.Shaped

theorem Table.shaped_columnNames (table : Table) : ∀ name ∈ table.columnNames, IsFree name := by
  unfold IsFree IsShaped
  cases table <;> decide

variable {known : List Declared} {rowSet : RowSet σ} {rowSets : List (RowSet Fragment)}
variable {dialect : Dialect} {level : Level Statement}

/-- What a source makes visible is shaped. -/
theorem Source.Gives.shaped {source : Source} (gives : source.Gives known visible)
    (named : source.Named) (declared : ∀ rowSet ∈ known, rowSet.Shaped) : visible.Shaped := by
  cases gives with
  | table base => exact ⟨by cases base <;> exact ⟨rfl, rfl⟩, base.shaped_columnNames⟩
  | relation member => exact ⟨(declared _ member).name, (declared _ member).columns⟩
  | renamed member row => exact ⟨named, (declared _ member).columns⟩
  | distinct member row output => exact ⟨named, fun name mem => (declared _ member).columns name (output mem)⟩

variable {reach : List Visible}

theorem Reference.InReach.shaped (shaped : ∀ visible ∈ reach, visible.Shaped)
    {reference : Reference} (inReach : reference.InReach reach) : reference.Shaped := by
  cases reference with
  | column row name =>
    obtain ⟨visible, mem, rfl, output⟩ := inReach
    exact ⟨(shaped visible mem).row, (shaped visible mem).columns name output⟩
  | bare name =>
    obtain ⟨visible, mem, output⟩ := inReach
    exact (shaped visible mem).columns name output
  | output name => trivial

theorem Term.Reads.shaped (shaped : ∀ visible ∈ reach, visible.Shaped) {term : Term}
    (reads : term.Reads (Reference.InReach reach)) : term.Reads Reference.Shaped :=
  fun reference mem => (reads reference mem).shaped shaped

theorem Condition.Admits.shaped (shaped : ∀ visible ∈ reach, visible.Shaped)
    {condition : Condition σ} (admitted : condition.Admits (Reference.InReach reach) holds) :
    condition.Admits Reference.Shaped holds :=
  ⟨fun reference mem => (admitted.references reference mem).shaped shaped, admitted.nested⟩

/-- What joins bring into reach is shaped, and so is what their conditions read. -/
theorem Join.Extend.shaped {final : List Visible} {joins : List (Join σ)}
    (extend : Join.Extend holds known reach joins final) (named : ∀ join ∈ joins, join.source.Named)
    (declared : ∀ rowSet ∈ known, rowSet.Shaped) (shaped : ∀ visible ∈ reach, visible.Shaped) :
    (∀ visible ∈ final, visible.Shaped) ∧ ∀ join ∈ joins, (∃ visible, join.source.Gives known visible) ∧
      ∀ condition ∈ join.conditions, condition.Admits Reference.Shaped holds := by
  induction joins generalizing reach with
  | nil =>
    obtain rfl : final = reach := extend
    exact ⟨shaped, by simp⟩
  | cons join rest ih =>
    obtain ⟨visible, gives, admitted, after⟩ := extend
    have wider : ∀ other ∈ visible :: reach, other.Shaped :=
      List.forall_mem_cons.mpr ⟨gives.shaped (named join (by simp)) declared, shaped⟩
    obtain ⟨ofFinal, ofRest⟩ := ih after (fun other mem => named other (by simp [mem])) wider
    refine ⟨ofFinal, List.forall_mem_cons.mpr ⟨⟨⟨visible, gives⟩, ?_⟩, ofRest⟩⟩
    exact fun condition mem => (admitted condition mem).shaped wider

theorem Select.Scoped.shaped {admitted : OutputColumn → Prop} (reaches : select.Scoped holds known outputs)
    (named : select.Named admitted) (declared : ∀ rowSet ∈ known, rowSet.Shaped) :
    ∃ first reach, select.source.Gives known first ∧ (∀ visible ∈ reach, visible.Shaped) ∧
      (∀ join ∈ select.joins, (∃ visible, join.source.Gives known visible) ∧
        ∀ condition ∈ join.conditions, condition.Admits Reference.Shaped holds) ∧
      select.Reads holds reach ∧ outputs = select.columns.flatMap (OutputColumn.names reach) := by
  obtain ⟨first, reach, gives, extend, reads, same⟩ := reaches
  obtain ⟨shaped, joins⟩ := extend.shaped named.joins declared
    (List.forall_mem_singleton.mpr (gives.shaped named.source declared))
  exact ⟨first, reach, gives, shaped, joins, reads, same⟩

/-- The columns that a SELECT outputs are shaped, if no name of the caller is among them. -/
theorem OutputColumn.shaped_names (shaped : ∀ visible ∈ reach, visible.Shaped)
    (inReach : column.InReach reach) (generated : column.Generated) :
    ∀ name ∈ column.names reach, IsFree name := by
  cases column with
  | plain term =>
    cases term with
    | column row name =>
      have reference := Term.Reads.shaped shaped inReach _ List.mem_cons_self
      exact List.forall_mem_singleton.mpr reference.2
    | _ => simp [names]
  | named term name => exact List.forall_mem_singleton.mpr generated
  | quoted term name => exact generated.elim
  | every row =>
    intro name mem
    obtain ⟨visible, selected, output⟩ := List.mem_flatMap.mp mem
    exact (shaped visible (List.mem_filter.mp selected).1).columns name output

section Print

variable {dialect : Dialect} {schema : Schema}

theorem lexes_intercalate {names : List String} (shaped : ∀ name ∈ names, IsFree name) :
    (ofString (String.intercalate ", " names)).Lexes dialect := by
  induction names with
  | nil => exact (continues_blank dialect).lexes
  | cons name rest ih =>
    have first : (ofString name).Lexes dialect := lexes_name (shaped name (by simp))
    cases rest with
    | nil => rwa [String.intercalate_singleton]
    | cons second others =>
      have further := ih fun other mem => shaped other (by simp [mem])
      rw [String.intercalate_cons_cons]
      exact (lexes_concat [.hole _, .glue ", ", .hole _] rfl ⟨first, further, trivial⟩).of_eq_text
        (by simp [concat, Segment.fragment, pieces_append, empty, ofString, textFrom]) rfl

variable {known : List Declared} {isRecursive : Bool}

theorem Source.Gives.lexes_print {source : Source} (gives : source.Gives known visible)
    (named : source.Named) (declared : ∀ rowSet ∈ known, rowSet.Shaped) :
    (source.print schema).Lexes dialect := by
  cases gives with
  | table base =>
    have row : IsFree base.row.text := by cases base <;> exact ⟨rfl, rfl⟩
    exact lexes_concat [.hole _, .glue " ", .hole _] rfl ⟨lexes_quoteName _, lexes_name row, trivial⟩
  | relation member => exact lexes_name (declared _ member).name
  | renamed member row =>
    exact lexes_concat [.hole _, .glue " ", .hole _] rfl
      ⟨lexes_name (declared _ member).name, lexes_name named, trivial⟩
  | distinct member row output =>
    have columns := fun name mem => (declared _ member).columns name (output mem)
    exact lexes_concat [.glue "(SELECT DISTINCT ", .hole _, .glue " FROM ", .hole _, .glue ") ", .hole _] rfl
      ⟨lexes_intercalate columns, lexes_name (declared _ member).name, lexes_name named, trivial⟩

theorem OutputColumn.lexes_print (shaped : ∀ visible ∈ reach, visible.Shaped)
    (inReach : column.InReach reach) (named : column.Shaped) :
    (column.print dialect).Lexes dialect := by
  cases column with
  | plain term => exact Term.lexesIn_print dialect (Term.Reads.shaped shaped inReach) false
  | named term name =>
    exact lexes_concat [.hole _, .glue " AS ", .hole _] rfl
      ⟨Term.lexesIn_print dialect (Term.Reads.shaped shaped inReach) false, lexes_name named, trivial⟩
  | quoted term name =>
    exact lexes_concat [.hole _, .glue " AS ", .hole _] rfl
      ⟨Term.lexesIn_print dialect (Term.Reads.shaped shaped inReach) false, lexes_quoteName name, trivial⟩
  | every row =>
    obtain ⟨visible, mem, rfl⟩ := inReach
    exact lexes_concat [.hole _, .glue ".*"] rfl ⟨lexes_name (shaped visible mem).row, trivial⟩

theorem SortKey.lexes_print (key : SortKey) (shaped : key.term.Reads Reference.Shaped) :
    (key.print dialect).Lexes dialect := by
  have term : (key.term.print dialect).Lexes dialect := Term.lexesIn_print dialect shaped false
  rcases key with ⟨_, _ | _, _ | _ | _⟩
  · exact lexes_concat [.hole _, .glue " ASC", .tail ""] rfl ⟨term, continues_blank _, trivial⟩
  · exact lexes_concat [.hole _, .glue " ASC", .glue " NULLS FIRST"] rfl ⟨term, trivial⟩
  · exact lexes_concat [.hole _, .glue " ASC", .glue " NULLS LAST"] rfl ⟨term, trivial⟩
  · exact lexes_concat [.hole _, .glue " DESC", .tail ""] rfl ⟨term, continues_blank _, trivial⟩
  · exact lexes_concat [.hole _, .glue " DESC", .glue " NULLS FIRST"] rfl ⟨term, trivial⟩
  · exact lexes_concat [.hole _, .glue " DESC", .glue " NULLS LAST"] rfl ⟨term, trivial⟩

/-- What stands between the clauses of a SELECT. -/
def IsGap (gap : String) : Prop := gap = " " ∨ gap = "\n"

section Clauses

variable {gap : String}

theorem continues_printClause {keyword separator : String} {entries : List Fragment}
    (opens : Fit dialect false [.glue gap, .glue keyword, .hole empty])
    (separates : Fit dialect true [.hole empty, .glue separator, .hole empty])
    (each : ∀ entry ∈ entries, entry.Lexes dialect) :
    (printClause gap keyword separator entries).Continues dialect := by
  cases entries with
  | nil => exact continues_empty dialect
  | cons entry rest =>
    exact continues_concat [.glue gap, .glue keyword, .hole (join separator (entry :: rest))]
      opens ⟨lexes_join separates each, trivial⟩

theorem continues_printOrderBy (isGap : IsGap gap) {keys : List SortKey}
    (shaped : ∀ key ∈ keys, key.term.Reads Reference.Shaped) :
    (printOrderBy dialect gap keys).Continues dialect := by
  refine continues_printClause (by rcases isGap with rfl | rfl <;> rfl) rfl ?_
  intro printed member
  obtain ⟨key, mem, rfl⟩ := List.mem_map.mp member
  exact key.lexes_print (shaped key mem)

theorem continues_printBounds (isGap : IsGap gap) (bounds : Option Bounds) :
    (printBounds dialect gap bounds).Continues dialect := by
  cases bounds with
  | none => exact continues_empty dialect
  | some bounds =>
    have fit : Fit dialect false [.glue gap, .hole empty] := by rcases isGap with rfl | rfl <;> rfl
    exact continues_concat [.glue gap, .hole (bounds.print dialect)] fit
      ⟨dialect.lexes_limitOffset bounds.limit bounds.offset, trivial⟩

variable {known : List Declared}

theorem Join.continues_print (isGap : IsGap gap) {join : Join Fragment}
    (source : (join.source.print schema).Lexes dialect)
    (admitted : ∀ condition ∈ join.conditions, condition.Admits Reference.Shaped (Fragment.Lexes dialect)) :
    (join.print dialect schema gap).Continues dialect := by
  have fit : Fit dialect false [.glue gap, .glue join.keyword, .hole empty, .glue " ON ", .hole empty] := by
    have keyword : join.keyword = "LEFT JOIN " ∨ join.keyword = "CROSS JOIN " ∨ join.keyword = "JOIN " := by
      rcases join with ⟨_ | _, _ | _, _, _⟩ <;> simp [Join.keyword]
    rcases keyword with same | same | same <;> rw [same] <;> rcases isGap with rfl | rfl <;> rfl
  have conditions : ∀ printed ∈ Condition.printAll dialect join.conditions, printed.Lexes dialect :=
    Condition.lexes_printAll fun condition mem => condition.lexesIn_print dialect (admitted condition mem)
  exact continues_concat [.glue gap, .glue join.keyword, .hole (join.source.print schema), .glue " ON ", .hole _] fit
    ⟨source, lexes_join rfl conditions, trivial⟩

theorem Select.fits_print (isGap : IsGap gap) :
    Fit dialect true [.glue "SELECT ", .hole empty, .glue gap, .glue "FROM ", .hole empty,
      .tail empty, .tail empty, .tail empty, .tail empty, .tail empty, .tail empty] := by
  rcases isGap with rfl | rfl <;> rfl

/-- A SELECT in its scope keeps its text in order. -/
theorem Select.Scoped.lexes_print (isGap : IsGap gap) {select : Select Fragment}
    (reaches : select.Scoped (Fragment.Lexes dialect) known outputs)
    (named : select.Named OutputColumn.Shaped) (declared : ∀ rowSet ∈ known, rowSet.Shaped) :
    (select.print dialect schema gap).Lexes dialect := by
  obtain ⟨first, reach, gives, shaped, joins, reads, -⟩ := reaches.shaped named declared
  have columns : (join ", " (select.columns.map (OutputColumn.print dialect))).Lexes dialect := by
    refine lexes_join rfl fun printed member => ?_
    obtain ⟨column, mem, rfl⟩ := List.mem_map.mp member
    exact OutputColumn.lexes_print shaped (reads.columns column mem) (named.columns column mem)
  have continues : ∀ printed ∈ select.joins.map (Join.print dialect schema gap), printed.Continues dialect := by
    intro printed member
    obtain ⟨join, mem, rfl⟩ := List.mem_map.mp member
    obtain ⟨visible, joined⟩ := (joins join mem).1
    exact Join.continues_print isGap (joined.lexes_print (named.joins join mem) declared) (joins join mem).2
  have conditions : ∀ printed ∈ Condition.printAll dialect select.conditions, printed.Lexes dialect :=
    Condition.lexes_printAll fun condition member =>
      condition.lexesIn_print dialect ((reads.conditions condition member).shaped shaped)
  have groupBy : ∀ printed ∈ select.groupBy.map (Term.print dialect), printed.Lexes dialect :=
    Term.lexes_printEach dialect fun term member => (reads.groupBy term member).shaped shaped
  have having : (printClause gap "HAVING " ""
      (select.having.toList.map (Condition.print dialect))).Continues dialect := by
    cases present : select.having with
    | none => exact continues_empty dialect
    | some condition =>
      have lexes : (condition.print dialect).Lexes dialect :=
        condition.lexesIn_print dialect ((reads.having condition present).shaped shaped)
      have fit : Fit dialect false [.glue gap, .glue "HAVING ", .hole empty] := by
        rcases isGap with rfl | rfl <;> rfl
      exact continues_concat [.glue gap, .glue "HAVING ", .hole (condition.print dialect)] fit ⟨lexes, trivial⟩
  exact lexes_concat [.glue "SELECT ", .hole _, .glue gap, .glue "FROM ", .hole _, .tail _, .tail _, .tail _,
      .tail _, .tail _, .tail _] (Select.fits_print isGap)
    ⟨columns, gives.lexes_print named.source declared, continues_join continues,
      continues_printClause (by rcases isGap with rfl | rfl <;> rfl) rfl conditions,
      continues_printClause (by rcases isGap with rfl | rfl <;> rfl) rfl groupBy, having,
      continues_printOrderBy isGap fun key member => (reads.orderBy key member).shaped shaped,
      continues_printBounds isGap select.bounds, trivial⟩

end Clauses

theorem RowSet.Scoped.shaped (reaches : rowSet.Scoped holds isRecursive known outputs)
    (named : rowSet.Named) (declared : ∀ other ∈ known, other.Shaped) :
    Declared.Shaped ⟨rowSet.name, outputs⟩ := by
  refine ⟨named.name, ?_⟩
  unfold RowSet.Scoped at reaches
  split at reaches
  · exact reaches.elim
  · next select further same =>
    have names := named.members select (by simp [same])
    obtain ⟨first, reach, gives, shaped, joins, reads, rfl⟩ := reaches.1.shaped names declared
    rw [List.forall_mem_flatMap]
    exact fun column mem => OutputColumn.shaped_names shaped (reads.columns column mem) (names.columns column mem)

/-- Each SELECT of a level is scoped after row sets of shaped names. -/
theorem Level.Scoped.selects_shaped {level : Level σ} (reaches : level.Scoped holds) (named : level.Named) :
    ∀ select ∈ level.selects, select.Named OutputColumn.Shaped ∧
      ∃ known outputs, (∀ rowSet ∈ known, rowSet.Shaped) ∧ select.Scoped holds known outputs := by
  intro select member
  refine ⟨?_, reaches.selects Declared.Shaped (fun rowSet mem known outputs each isScoped =>
    isScoped.shaped (named.rowSets rowSet mem) each) select member⟩
  rcases List.mem_append.mp member with inRowSets | final
  · obtain ⟨rowSet, mem, inside⟩ := List.mem_flatMap.mp inRowSets
    exact ((named.rowSets rowSet mem).members select inside).shaped
  · obtain rfl := List.mem_singleton.mp final
    exact named.select

theorem RowSet.lexes_print {rowSet : RowSet Fragment} (name : IsFree rowSet.name)
    (members : ∀ member ∈ rowSet.members, (member.print dialect schema " ").Lexes dialect) :
    (rowSet.print dialect schema).Lexes dialect := by
  have body : (join "\nUNION ALL\n" (rowSet.members.map (Select.print dialect schema " "))).Lexes dialect := by
    refine lexes_join rfl fun printed member => ?_
    obtain ⟨select, mem, rfl⟩ := List.mem_map.mp member
    exact members select mem
  have fit : Fit dialect true [.hole empty, .glue (if rowSet.materialized then " AS MATERIALIZED (" else " AS ("),
        .hole empty, .glue ")"] := by
    split <;> rfl
  exact lexes_concat [.hole _, .glue _, .hole _, .glue ")"] fit ⟨lexes_name name, body, trivial⟩

/-- The row sets and the SELECT of a level keep their text in order. -/
structure Level.Lexes (dialect : Dialect) (schema : Schema) (level : Level Fragment) : Prop where
  rowSets : ∀ rowSet ∈ level.rowSets, (rowSet.print dialect schema).Lexes dialect
  select : (level.select.print dialect schema "\n").Lexes dialect

/-- A level in its scope keeps its text in order. -/
theorem Level.Scoped.lexes {level : Level Fragment} (reaches : level.Scoped (Fragment.Lexes dialect))
    (named : level.Named) : level.Lexes dialect schema := by
  have selects (gap : String) (isGap : IsGap gap) :
      ∀ select ∈ level.selects, (select.print dialect schema gap).Lexes dialect := by
    intro select mem
    obtain ⟨names, known, outputs, declared, isScoped⟩ := reaches.selects_shaped named select mem
    exact isScoped.lexes_print isGap names declared
  refine ⟨fun rowSet mem => ?_, selects "\n" (.inr rfl) _ (by simp [Level.selects])⟩
  refine RowSet.lexes_print (named.rowSets rowSet mem).name fun select inside => selects " " (.inl rfl) _ ?_
  exact List.mem_append_left _ (List.mem_flatMap.mpr ⟨rowSet, mem, inside⟩)

theorem lexes_printRowSets {body : Fragment} (each : ∀ rowSet ∈ rowSets, (rowSet.print dialect schema).Lexes dialect)
    (bodyLexes : body.Lexes dialect) :
    (printRowSets dialect schema isRecursive rowSets ++ body).Lexes dialect := by
  cases rowSets with
  | nil => exact lexes_concat [.hole body] rfl ⟨bodyLexes, trivial⟩
  | cons first rest =>
    have fit : Fit dialect true [.glue (if isRecursive then "WITH RECURSIVE " else "WITH "), .hole empty, .glue "\n",
          .hole empty] := by
      split <;> rfl
    have mem : (join ",\n" ((first :: rest).map (RowSet.print dialect schema))).Lexes dialect := by
      refine lexes_join rfl fun printed member => ?_
      obtain ⟨rowSet, declared, rfl⟩ := List.mem_map.mp member
      exact each rowSet declared
    exact lexes_concat [.glue _, .hole _, .glue "\n", .hole body] fit ⟨mem, bodyLexes, trivial⟩

theorem Level.Lexes.lexes_print {level : Level Fragment} (lexes : level.Lexes dialect schema) :
    (level.print dialect schema).Lexes dialect :=
  lexes_printRowSets lexes.rowSets lexes.select

end Print

section Map

theorem Select.Named.map {admitted : OutputColumn → Prop} (named : select.Named admitted)
    (f : σ → τ) : (select.map f).Named admitted :=
  ⟨named.columns, named.source, by simpa [Select.map, Join.map] using named.joins⟩

theorem RowSet.Named.map (named : rowSet.Named) (f : σ → τ) : (rowSet.map f).Named := by
  refine ⟨named.name, ?_⟩
  intro member mem
  obtain ⟨original, member, rfl⟩ := List.mem_map.mp mem
  exact (named.members original member).map f

theorem Level.Named.map {level : Level σ} (named : level.Named) (f : σ → τ) : (level.map f).Named := by
  refine ⟨?_, named.select.map f⟩
  intro rowSet mem
  obtain ⟨original, member, rfl⟩ := List.mem_map.mp mem
  exact (named.rowSets original member).map f

end Map

/-- The text of the statement is in order. -/
def Statement.Lexes (dialect : Dialect) (schema : Schema) (statement : Statement) : Prop :=
  (statement.print dialect schema).Lexes dialect

theorem Level.Scoped.lexes_map {schema : Schema}
    (reaches : level.Scoped (Statement.Lexes dialect schema)) (named : level.Named) :
    (level.map (Statement.print dialect schema)).Lexes dialect schema :=
  Level.Scoped.lexes (Level.scopedAfter_map.mpr reaches) (named.map _)

theorem Statement.lexes_mk {schema : Schema}
    (lexes : (level.map (Statement.print dialect schema)).Lexes dialect schema) :
    (Statement.mk level).Lexes dialect schema := by
  rw [Statement.Lexes, Statement.print, Statement.fold_mk]
  exact lexes.lexes_print

end GraphSql

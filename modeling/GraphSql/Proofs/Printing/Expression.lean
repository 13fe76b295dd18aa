import GraphSql.Proofs.Printing.Layout
import GraphSql.Proofs.Reference

namespace GraphSql

open Dialect Fragment Segment

namespace Dialect

variable {dialect : Dialect} {free ranges : Bool} {document value : Fragment}

theorem lexes_postgresValue (lexes : document.Lexes .postgres) (pointer : Pointer) :
    (postgresValue document pointer).LexesIn .postgres free ranges :=
  lexesIn_concat [.glue "(", .hole document, .glue " #> ", .hole _, .glue ")"] rfl
    ⟨lexes, lexes_quoteLiteral _, trivial⟩

theorem lexes_sqliteType (lexes : document.Lexes .sqlite) (pointer : Pointer) :
    (sqliteType document pointer).LexesIn .sqlite free ranges :=
  lexesIn_concat [.glue "json_type(", .hole document, .glue ", ", .hole _, .glue ")"] rfl
    ⟨lexes, lexes_quoteLiteral _, trivial⟩

theorem lexes_extract (lexes : document.Lexes dialect) (pointer : Pointer)
    (extraction : Extraction) : (dialect.extract document pointer extraction).LexesIn dialect free ranges := by
  cases dialect with
  | sqlite =>
    exact lexesIn_concat [.glue "json_extract(", .hole document, .glue ", ", .hole _, .glue ")"] rfl
      ⟨lexes, lexes_quoteLiteral _, trivial⟩
  | postgres =>
    have text : LexesIn .postgres free ranges ("(" ++ document ++ " #>> " ++ pathLiteral .postgres pointer ++ ")") :=
      lexesIn_concat [.glue "(", .hole document, .glue " #>> ", .hole _, .glue ")"] rfl
        ⟨lexes, lexes_quoteLiteral _, trivial⟩
    cases extraction with
    | text => exact text
    | number | boolean | date => exact lexesIn_concat [.hole _, .glue _] rfl ⟨text, trivial⟩
    | raw => exact lexes_postgresValue lexes pointer

theorem lexes_arrayLength (lexes : document.Lexes dialect) (pointer : Pointer) :
    (dialect.arrayLength document pointer).LexesIn dialect free ranges := by
  cases dialect with
  | sqlite =>
    exact lexesIn_concat [.glue "json_array_length(", .hole document, .glue ", ", .hole _, .glue ")"] rfl
      ⟨lexes, lexes_quoteLiteral _, trivial⟩
  | postgres =>
    exact lexesIn_concat [.glue "(CASE WHEN jsonb_typeof(", .hole _,
        .glue ") = 'array' THEN jsonb_array_length(", .hole _, .glue ") END)"] rfl
      ⟨lexes_postgresValue lexes pointer, lexes_postgresValue lexes pointer, trivial⟩

theorem lexes_postgresTyped (valueType : ValueType) (lexes : value.Lexes .postgres) :
    (postgresTyped valueType value).Lexes .postgres := by
  cases valueType <;> exact lexes_concat [.hole value, .glue _] rfl ⟨lexes, trivial⟩

theorem lexes_arrayContains (documentLexes : document.Lexes dialect) (pointer : Pointer)
    (valueType : ValueType) (valueLexes : value.Lexes dialect) :
    (dialect.arrayContains document pointer valueType value).LexesIn dialect free ranges := by
  cases dialect with
  | sqlite =>
    exact lexesIn_concat [.glue "EXISTS (SELECT 1 FROM json_each(", .hole document, .glue ", ",
        .hole _, .glue ") WHERE json_each.value = ", .hole value,
        .glue ")"] rfl
      ⟨documentLexes, lexes_quoteLiteral _, valueLexes, trivial⟩
  | postgres =>
    exact lexesIn_concat [.hole _, .glue " @> jsonb_build_array(", .hole _, .glue ")"] rfl
      ⟨lexes_postgresValue documentLexes pointer, lexes_postgresTyped valueType valueLexes, trivial⟩

theorem lexes_parenthesized {fragment : Fragment} (lexes : fragment.Lexes dialect) :
    fragment.parenthesized.LexesIn dialect free ranges :=
  lexesIn_concat [.glue "(", .hole fragment, .glue ")"] rfl ⟨lexes, trivial⟩

section

variable (lexes : document.Lexes dialect) (pointer : Pointer)

include lexes

section

variable (valueType : ValueType) {values : List Fragment}
variable (each : ∀ value ∈ values, value.Lexes dialect)

include each

theorem lexes_arrayContainsAll :
    (dialect.arrayContainsAll document pointer valueType values).LexesIn dialect free ranges := by
  cases dialect with
  | sqlite =>
    exact lexes_parenthesized (lexes_join rfl (List.forall_mem_map.mpr fun value mem =>
      lexes_arrayContains lexes pointer valueType (each value mem)))
  | postgres =>
    have typed : (join ", " (values.map (postgresTyped valueType))).Lexes .postgres :=
      lexes_join rfl (List.forall_mem_map.mpr fun value mem => lexes_postgresTyped valueType (each value mem))
    exact lexesIn_concat [.hole _, .glue " @> jsonb_build_array(", .hole _, .glue ")"] rfl
      ⟨lexes_postgresValue lexes pointer, typed, trivial⟩

theorem lexes_arrayContainsAny :
    (dialect.arrayContainsAny document pointer valueType values).LexesIn dialect free ranges := by
  cases dialect with
  | sqlite =>
    exact lexesIn_concat [.glue "EXISTS (SELECT 1 FROM json_each(", .hole document, .glue ", ",
        .hole _, .glue ") WHERE json_each.value IN (",
        .hole _, .glue "))"] rfl
      ⟨lexes, lexes_quoteLiteral _, lexes_join rfl each, trivial⟩
  | postgres =>
    exact lexes_parenthesized (lexes_join rfl (List.forall_mem_map.mpr fun value mem =>
      lexes_arrayContains lexes pointer valueType (each value mem)))

end

theorem lexes_hasPath : (dialect.hasPath document pointer).LexesIn dialect free ranges := by
  cases dialect with
  | sqlite =>
    exact lexesIn_concat [.hole _, .glue " IS NOT NULL"] rfl ⟨lexes_sqliteType lexes pointer, trivial⟩
  | postgres =>
    exact lexesIn_concat [.hole _, .glue " IS NOT NULL"] rfl ⟨lexes_postgresValue lexes pointer, trivial⟩

theorem lexes_pathIsNull (negated : Bool) :
    (dialect.pathIsNull document pointer negated).LexesIn dialect free ranges := by
  cases dialect with
  | sqlite =>
    cases negated <;> exact lexesIn_concat [.glue "(", .hole _, .glue _, .hole _, .glue _] rfl
      ⟨lexes_sqliteType lexes pointer, lexes_sqliteType lexes pointer, trivial⟩
  | postgres =>
    cases negated <;> exact lexesIn_concat [.glue "(", .hole _, .glue _, .hole _, .glue _] rfl
      ⟨lexes_postgresValue lexes pointer, lexes_postgresValue lexes pointer, trivial⟩

end

section Match

variable {text pattern : Fragment} (textLexes : text.LexesIn dialect free ranges)
variable (patternLexes : pattern.LexesIn dialect free ranges)

include textLexes patternLexes

theorem lexes_ilike : (dialect.ilike text pattern).LexesIn dialect free ranges := by
  cases dialect <;> exact lexesIn_concat [.hole text, .glue _, .hole pattern, .glue " ESCAPE '\\'"] rfl
    ⟨textLexes, patternLexes, trivial⟩

theorem lexes_like : (dialect.like text pattern).LexesIn dialect free ranges := by
  cases dialect <;> exact lexesIn_concat [.hole text, .glue _, .hole pattern] rfl ⟨textLexes, patternLexes, trivial⟩

end Match

section Trail

variable {path id : Fragment} (idLexes : id.LexesIn dialect free ranges)

include idLexes

theorem lexes_pathStart : (dialect.pathStart id).LexesIn dialect free ranges := by
  cases dialect with
  | sqlite =>
    exact lexesIn_concat [.glue "'|' || ", .hole id, .glue " || '|'"] rfl ⟨idLexes, trivial⟩
  | postgres =>
    exact lexesIn_concat [.glue "ARRAY[", .hole id, .glue "]"] rfl ⟨idLexes, trivial⟩

variable (pathLexes : path.LexesIn dialect free ranges)

include pathLexes

theorem lexes_pathExtend : (dialect.pathExtend path id).LexesIn dialect free ranges := by
  cases dialect with
  | sqlite =>
    exact lexesIn_concat [.hole path, .glue " || ", .hole id, .glue " || '|'"] rfl ⟨pathLexes, idLexes, trivial⟩
  | postgres =>
    exact lexesIn_concat [.hole path, .glue " || ", .hole id] rfl ⟨pathLexes, idLexes, trivial⟩

theorem lexes_offPath : (dialect.offPath path id).LexesIn dialect free ranges := by
  cases dialect with
  | sqlite =>
    exact lexesIn_concat [.glue "instr(", .hole path, .glue ", '|' || ", .hole id, .glue " || '|') = 0"] rfl
      ⟨pathLexes.lexes, idLexes.lexes, trivial⟩
  | postgres =>
    exact lexesIn_concat [.hole id, .glue " <> ALL(", .hole path, .glue ")"] rfl ⟨idLexes, pathLexes.lexes, trivial⟩

end Trail

theorem lexes_now (dialect : Dialect) : dialect.now.LexesIn dialect free ranges := by
  cases dialect <;> exact lexesIn_concat [.glue _] rfl trivial

theorem lexes_distance (metric : Metric) {embedding vector : Fragment}
    (embeddingLexes : embedding.Lexes dialect) (vectorLexes : vector.Lexes dialect) :
    (dialect.distance metric embedding vector).LexesIn dialect free ranges := by
  cases dialect with
  | sqlite =>
    cases metric <;> exact lexesIn_concat [.glue _, .hole embedding, .glue ", vec_f32(", .hole vector, .glue "))"]
      rfl ⟨embeddingLexes, vectorLexes, trivial⟩
  | postgres =>
    cases metric <;> exact lexesIn_concat [.glue "(", .hole embedding, .glue _, .hole vector, .glue "::vector)"]
      rfl ⟨embeddingLexes, vectorLexes, trivial⟩

theorem lexes_boundText (dialect : Dialect) (bound : UInt64) : (ofString (boundText bound)).Lexes dialect :=
  lexes_toDigits _

theorem lexes_limitOffset (dialect : Dialect) (limit offset : Option UInt64) :
    (ofString (dialect.limitOffset limit offset)).Lexes dialect := by
  have one : ∀ (opening : String) (bound : UInt64), Fit dialect true [.glue opening, .hole _] →
      (ofString (opening ++ boundText bound)).Lexes dialect :=
    fun _ bound fit => lexes_ofString_append (lexes_concat _ fit ⟨lexes_boundText dialect bound, trivial⟩)
  have two : ∀ limit offset : UInt64,
      (ofString ("LIMIT " ++ boundText limit ++ " OFFSET " ++ boundText offset)).Lexes dialect := by
    intro limit offset
    have parts := lexes_concat [.glue "LIMIT ", .hole _, .glue " OFFSET ", .hole _] rfl
      ⟨lexes_boundText dialect limit, lexes_boundText dialect offset, trivial⟩
    exact Scans.of_eq_text parts (by simp [concat, Segment.fragment, pieces_append, empty, ofString, textFrom]) rfl
  cases limit with
  | none =>
    cases dialect with
    | sqlite =>
      cases offset with
      | none => exact lexes_concat [.glue "LIMIT -1"] rfl trivial
      | some offset => exact one "LIMIT -1 OFFSET " offset rfl
    | postgres =>
      cases offset with
      | none => exact (continues_blank .postgres).lexes
      | some offset => exact one "OFFSET " offset rfl
  | some limit =>
    cases offset with
    | none => cases dialect <;> exact one "LIMIT " limit rfl
    | some offset => cases dialect <;> exact two limit offset

end Dialect

/-- The names are written without quotes, so they are shaped like names, and none is a joining word. -/
def Reference.Shaped : Reference → Prop
  | .column row name => IsFree row.text ∧ IsFree name
  | .bare name => IsFree name
  | .output _ => True

variable {free : Bool} (dialect : Dialect)

namespace Term

theorem lexesIn_print {term : Term} (shaped : term.Reads Reference.Shaped) (ranges : Bool) :
    (term.print dialect).LexesIn dialect free ranges := by
  induction term with
  | column row name =>
    obtain ⟨rowFree, nameFree⟩ := shaped _ List.mem_cons_self
    exact lexesIn_concat [.hole row.text, .glue ".", .hole name] rfl ⟨lexes_name rowFree, lexes_name nameFree, trivial⟩
  | bare name => exact lexes_name (shaped _ List.mem_cons_self)
  | output name => exact lexes_quoteName name
  | integer value => exact lexes_ofInt value
  | slot slot => exact lexes_ofSlot slot
  | now => exact dialect.lexes_now
  | successor term ih =>
    exact lexesIn_concat [.hole _, .glue " + 1"] rfl ⟨ih shaped, trivial⟩
  | orZero term ih =>
    exact lexesIn_concat [.glue "COALESCE(", .hole _, .glue ", 0)"] rfl ⟨(ih shaped).lexes, trivial⟩
  | aggregate function argument ih =>
    cases function <;> exact lexesIn_concat [.glue _, .hole (argument.print dialect), .glue ")"] rfl
      ⟨(ih shaped).lexes, trivial⟩
  | extract document pointer extraction ih =>
    exact lexes_extract (ih shaped).lexes pointer extraction
  | arrayLength document pointer ih =>
    exact lexes_arrayLength (ih shaped).lexes pointer
  | pathStart id ih => exact lexes_pathStart (ih shaped)
  | pathExtend path id pathHypothesis idHypothesis =>
    have both := List.forall_mem_append.mp shaped
    exact lexes_pathExtend (idHypothesis both.2) (pathHypothesis both.1)
  | distance metric embedding vector embeddingHypothesis vectorHypothesis =>
    have both := List.forall_mem_append.mp shaped
    exact lexes_distance metric (embeddingHypothesis both.1).lexes (vectorHypothesis both.2).lexes

theorem lexes_printEach {terms : List Term} (shaped : ∀ term ∈ terms, term.Reads Reference.Shaped) :
    ∀ printed ∈ terms.map (Term.print dialect), printed.Lexes dialect :=
  List.forall_mem_map.mpr fun term mem => lexesIn_print dialect (shaped term mem) false

end Term

namespace Condition

theorem printAll_eq_map (conditions : List (Condition Fragment)) :
    printAll dialect conditions = conditions.map (print dialect) := by
  induction conditions with
  | nil => rfl
  | cons condition rest ih => rw [printAll, ih, List.map_cons]

theorem lexes_printAll {dialect : Dialect} {conditions : List (Condition Fragment)}
    (each : ∀ condition ∈ conditions, (condition.print dialect).LexesIn dialect free false) :
    ∀ printed ∈ printAll dialect conditions, printed.LexesIn dialect free false := by
  rw [printAll_eq_map]
  exact List.forall_mem_map.mpr each

/-- A condition keeps its text in order if its names are shaped and its nested statements do. If no name is
a joining word, the condition can stand between joining words. -/
theorem lexesIn_print (dialect : Dialect) (condition : Condition Fragment)
    (admitted : condition.Admits Reference.Shaped (Fragment.Lexes dialect)) :
    (condition.print dialect).LexesIn dialect free false := by
  induction condition with
  | constant value => cases value <;> exact lexesIn_concat [.glue _] rfl trivial
  | compare left comparator right =>
    have both := List.forall_mem_append.mp admitted.references
    cases comparator <;> exact lexesIn_concat [.hole _, .glue " ", .glue _, .glue " ", .hole _] rfl
      ⟨Term.lexesIn_print dialect both.1 _, Term.lexesIn_print dialect both.2 _, trivial⟩
  | isNull term negated =>
    cases negated <;> exact lexesIn_concat [.hole _, .glue _] rfl
      ⟨Term.lexesIn_print dialect admitted.references _, trivial⟩
  | isIn term values negated =>
    have both := List.forall_mem_append.mp admitted.references
    have mem : (printTerms dialect values).Lexes dialect :=
      lexes_join rfl (Term.lexes_printEach dialect (List.forall_mem_flatMap.mp both.2))
    cases negated <;> exact lexesIn_concat [.hole _, .glue _, .hole _, .glue ")"] rfl
      ⟨Term.lexesIn_print dialect both.1 _, mem, trivial⟩
  | between term lower upper =>
    have all := List.forall_mem_append.mp admitted.references
    have both := List.forall_mem_append.mp all.1
    -- The bounds stand inside of the range that BETWEEN opens, if anything is said of ranges.
    cases free <;> exact lexesIn_concat [.hole _, .glue " BETWEEN ", .hole _, .glue " AND ", .hole _] rfl
      ⟨Term.lexesIn_print dialect both.1 _, Term.lexesIn_print dialect both.2 _,
        Term.lexesIn_print dialect all.2 _, trivial⟩
  | like text pattern =>
    have both := List.forall_mem_append.mp admitted.references
    exact Dialect.lexes_like (Term.lexesIn_print dialect both.1 _) (Term.lexesIn_print dialect both.2 _)
  | ilike text pattern =>
    have both := List.forall_mem_append.mp admitted.references
    exact Dialect.lexes_ilike (Term.lexesIn_print dialect both.1 _) (Term.lexesIn_print dialect both.2 _)
  | arrayContains document pointer valueType value =>
    have both := List.forall_mem_append.mp admitted.references
    exact Dialect.lexes_arrayContains (Term.lexesIn_print dialect both.1 _) pointer valueType
      (Term.lexesIn_print dialect both.2 _)
  | arrayContainsAll document pointer valueType values =>
    have both := List.forall_mem_append.mp admitted.references
    exact Dialect.lexes_arrayContainsAll (Term.lexesIn_print dialect both.1 _) pointer valueType
      (Term.lexes_printEach dialect (List.forall_mem_flatMap.mp both.2))
  | arrayContainsAny document pointer valueType values =>
    have both := List.forall_mem_append.mp admitted.references
    exact Dialect.lexes_arrayContainsAny (Term.lexesIn_print dialect both.1 _) pointer valueType
      (Term.lexes_printEach dialect (List.forall_mem_flatMap.mp both.2))
  | hasPath document pointer =>
    exact Dialect.lexes_hasPath (Term.lexesIn_print dialect admitted.references _) pointer
  | pathIsNull document pointer negated =>
    exact Dialect.lexes_pathIsNull (Term.lexesIn_print dialect admitted.references _) pointer negated
  | offPath path id =>
    have both := List.forall_mem_append.mp admitted.references
    exact Dialect.lexes_offPath (Term.lexesIn_print dialect both.2 _) (Term.lexesIn_print dialect both.1 _)
  | all conditions ih | any conditions ih =>
    have mem := lexes_printAll fun part mem =>
      (ih part mem (each_of_admits_all ⟨admitted.references, admitted.nested⟩ part mem)).lexes
    exact Dialect.lexes_parenthesized (lexes_join rfl mem)
  | notAll conditions ih =>
    have mem := lexes_printAll fun part mem =>
      (ih part mem (each_of_admits_all ⟨admitted.references, admitted.nested⟩ part mem)).lexes
    exact lexesIn_concat [.glue "NOT ", .hole _] rfl ⟨Dialect.lexes_parenthesized (lexes_join rfl mem), trivial⟩
  | equalsCase term guard first second ih =>
    have all := List.forall_mem_append.mp admitted.references
    have three := List.forall_mem_append.mp all.1
    have both := List.forall_mem_append.mp three.1
    exact lexesIn_concat [.hole _, .glue " = CASE WHEN ", .hole _, .glue " THEN ", .hole _, .glue " ELSE ",
        .hole _, .glue " END"] rfl
      ⟨Term.lexesIn_print dialect both.1 _, ih ⟨both.2, admitted.nested⟩,
        Term.lexesIn_print dialect three.2 _, Term.lexesIn_print dialect all.2 _, trivial⟩
  | subquery statement negated =>
    cases negated <;> exact lexesIn_concat [.glue _, .hole _, .glue ")"] rfl
      ⟨admitted.nested _ List.mem_cons_self, trivial⟩
  | inSubquery term statement negated =>
    cases negated <;> exact lexesIn_concat [.hole _, .glue _, .hole _, .glue ")"] rfl
      ⟨Term.lexesIn_print dialect admitted.references _, admitted.nested _ List.mem_cons_self, trivial⟩

end Condition

end GraphSql

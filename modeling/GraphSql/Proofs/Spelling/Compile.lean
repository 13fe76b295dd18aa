import GraphSql.Proofs.Spelling.Lowering

namespace GraphSql

open Block Function List Projection ProjectionSource

section Block

variable (spelling : Spelling) {block : Block Nested} {env : Setting}

theorem Block.compileChain_respell : (block.respelled spelling).compileChain env = block.compileChain env := by
  have := Traced.lawful
  simp [compileChain, analyzeChain_respell, chainLevel_respell]

theorem Block.compileWalk_respell : (block.respelled spelling).compileWalk env = block.compileWalk env := by
  have := Traced.lawful
  simp [compileWalk, analyzeWalk_respell, walkLevel_respell]

theorem Block.compile_respell : (block.respelled spelling).compile env = block.compile env := by
  have single : (block.respelled spelling).withoutWalks =
      block.withoutWalks.respell spelling (Nested.respell spelling) := rfl
  simp only [compile, compileLevel, single, compileChain_respell, compileWalk_respell]
  rfl

theorem Block.nest_respell (opts : Options) (block : Block Nested) :
    (block.respelled spelling).nest opts = (block.nest opts).respell spelling := by
  have graphs : (block.respelled spelling).graphId = block.graphId := rfl
  simp only [nest, graphs, compile_respell]
  rfl

end Block

namespace Query

variable (spelling : Spelling) (opts : Options)

/-- The query with its fields written in another way, in nested queries too. -/
def respell : Query → Query := fold fun block => .mk (block.respell spelling id)

theorem respell_mk (block : Block Query) :
    (mk block).respell spelling = .mk (block.respell spelling (respell spelling)) := by
  rw [respell, fold_mk, respell_map]
  rfl

/-- What becomes of a nested query differs in the spelling of its columns only. -/
theorem fold_nest_respell : ∀ query : Query, (query.respell spelling).fold (Block.nest opts) =
      (query.fold (Block.nest opts)).respell spelling := by
  apply induction_nested
  intro block ih
  rw [respell_mk, fold_mk, fold_mk, map_respell, ← nest_respell, respelled, respell_map, respell_congr spelling ih]

theorem block_respell (query : Query) :
    (query.respell spelling).block = query.block.respell spelling (respell spelling) := by
  obtain ⟨block⟩ := query
  rw [respell_mk]
  rfl

theorem nested_respell (query : Query) : (query.respell spelling).nested opts =
      (query.nested opts).respell spelling (Nested.respell spelling) := by
  rw [nested, nested, block_respell, map_respell, respell_map]
  apply respell_congr
  intro inner _
  exact fold_nest_respell spelling opts inner

theorem compile_respell (graphId : String) (query : Query) :
    (query.respell spelling).compile opts graphId = query.compile opts graphId := by
  simp only [compile, statement, nested_respell, block_respell, Block.compile_respell]
  rfl

end Query

mutual

def SetOperand.respell (spelling : Spelling) : SetOperand → SetOperand
  | .query query => .query (query.respell spelling)
  | .operation operation => .operation (SetOperation.respell spelling operation)

/-- The set operation with its fields written in another way. -/
def SetOperation.respell (spelling : Spelling) : SetOperation → SetOperation
  | ⟨op, left, right, orderBy, limit, offset⟩ =>
      ⟨op, SetOperand.respell spelling left, SetOperand.respell spelling right,
        orderBy.map (Order.respell spelling), limit, offset⟩

end

section Compound

variable (spelling : Spelling) (opts : Options) (graphId : String)

theorem SetOperand.leaves_respell (operand : SetOperand) :
    (operand.respell spelling).leaves = operand.leaves.map (Query.respell spelling) := by
  induction operand with
  | query => rfl
  | operation _ _ _ _ _ _ ofLeft ofRight =>
    simp [SetOperand.respell, SetOperand.leaves, SetOperation.respell, SetOperation.leaves, ofLeft, ofRight]

theorem SetOperation.leaves_respell (operation : SetOperation) :
    (operation.respell spelling).leaves = operation.leaves.map (Query.respell spelling) :=
  SetOperand.leaves_respell spelling (.operation operation)

theorem SetOperand.leftmost_respell (operand : SetOperand) :
    (operand.respell spelling).leftmost = operand.leftmost.respell spelling := by
  induction operand with
  | query => rfl
  | operation _ _ _ _ _ _ ofLeft => exact ofLeft

theorem Query.compileLeaf_respell (index : Nat) (query : Query) :
    (query.respell spelling).compileLeaf opts graphId index = query.compileLeaf opts graphId index := by
  simp only [compileLeaf, nested_respell, block_respell, Block.compile_respell]
  rfl

/-- The projection returns what an order names. -/
def Projection.isOrderedBy (aliasName : String) (wanted : Target) (projection : Projection) : Bool :=
  !projection.source.isAggregate && projection.source.fieldOf.aliasName == aliasName &&
    projection.source.fieldOf.denotes wanted

theorem Projection.isOrderedBy_respell (aliasName : String) (wanted : Target) (projection : Projection) :
    (projection.respell spelling).isOrderedBy aliasName wanted = projection.isOrderedBy aliasName wanted := by
  simp [isOrderedBy, respell]

theorem orderColumn_respell (projections : List Projection) (order : Order) :
    orderColumn (projections.map (Projection.respell spelling)) (order.respell spelling) =
      orderColumn projections order := by
  have named : (projections.map (Projection.respell spelling)).map Projection.name =
      projections.map Projection.name := by
    simp [Projection.respell, comp_def]
  have tests : ∀ (wanted : Target) (list : List Projection) (test : Projection → Bool),
      (∀ projection, test projection = projection.isOrderedBy order.field.aliasName wanted) →
        list.find? test = list.find? (isOrderedBy order.field.aliasName wanted) := by
    intro wanted list test same
    rw [funext same]
  simp only [orderColumn, named, Order.respell, Spelling.resolve_write, Spelling.aliasName_write,
    Spelling.describe_write]
  apply bind_congr
  intro wanted
  rw [tests wanted (projections.map (Projection.respell spelling)), tests wanted projections, find?_map]
  · simp only [comp_def, isOrderedBy_respell]
    cases projections.find? (isOrderedBy order.field.aliasName wanted) <;> rfl
  all_goals
    rintro ⟨name, source⟩
    cases source <;> simp [isOrderedBy, isAggregate, fieldOf]

theorem orderColumns_respell (projections : List Projection) (orders : List Order) :
    orderColumns (projections.map (Projection.respell spelling))
        (orders.map (Order.respell spelling)) = orderColumns projections orders := by
  cases orders with
  | nil => rfl
  | cons order rest =>
    simp only [map_cons, orderColumns, isEmpty_map]
    rw [← map_cons, mapM_map]
    simp [comp_def, orderColumn_respell]

theorem Block.unhoistable_respell {σ τ : Type} {nested : σ → τ} (block : Block σ) :
    (block.respell spelling nested).unhoistable = block.unhoistable := by
  have predicates : (block.respell spelling nested).allPredicates =
      block.allPredicates.map (Predicate.edited (.ofSpelling spelling nested)) := by
    rw [funext (Predicate.edited_ofSpelling spelling nested)]
    cases found : block.having <;> simp [allPredicates, respell, Filter.respell, found, comp_def]
  simp only [unhoistable, predicates, any_map, comp_def,
    Predicate.containsSubquery_edited, Predicate.containsSimilarity_edited]
  simp [respell]

mutual

theorem SetOperand.combine_respell : (operand : SetOperand) → (index : Nat) →
      (operand.respell spelling).combine opts graphId index = operand.combine opts graphId index
  | .query query, index => by simp [SetOperand.respell, SetOperand.combine, Query.compileLeaf_respell]
  | .operation operation, index => by
    simp [SetOperand.respell, SetOperand.combine, SetOperation.combine_respell operation index]

theorem SetOperation.combine_respell : (operation : SetOperation) → (index : Nat) →
      (operation.respell spelling).combine opts graphId index = operation.combine opts graphId index
  | ⟨op, left, right, orderBy, limit, offset⟩, index => by
    have columns : (left.leftmost.respell spelling).block.projection =
        left.leftmost.block.projection.map (Projection.respell spelling) := by
      rw [Query.block_respell]
      rfl
    have plans : ∀ first second bounds, combinedPlan op first second (orderBy.map (Order.respell spelling)) bounds =
          combinedPlan op first second orderBy bounds := by
      intro first second bounds
      simp [combinedPlan]
    simp [SetOperation.respell, SetOperation.combine, SetOperand.combine_respell left,
      SetOperand.combine_respell right, SetOperand.leaves_respell, SetOperand.leftmost_respell,
      columns, orderColumns_respell, plans]

end

namespace SetOperation

variable (operation : SetOperation)

theorem widths_respell : (operation.respell spelling).widths = operation.widths := by
  have lengths : ((operation.respell spelling).leaves.map (·.block.projection.length)) =
      operation.leaves.map (·.block.projection.length) := by
    rw [leaves_respell, map_map]
    apply map_congr_left
    intro leaf _
    simp [Query.block_respell, Block.respell]
  simp [widths, lengths]

theorem checkHoisting_respell (dialect : Dialect) :
    (operation.respell spelling).checkHoisting dialect = operation.checkHoisting dialect := by
  have problems : (operation.respell spelling).hoistingProblems = operation.hoistingProblems := by
    have each : ∀ query : Query, (query.respell spelling).block.unhoistable = query.block.unhoistable := by
      intro query
      rw [Query.block_respell, unhoistable_respell]
    simp [hoistingProblems, leaves_respell, zipIdx_map, flatMap_map, each]
  simp [checkHoisting, problems]

theorem compile_respell : (operation.respell spelling).compile opts graphId = operation.compile opts graphId := by
  have operators : (operation.respell spelling).operator = operation.operator := by
    obtain ⟨op, left, right, orderBy, limit, offset⟩ := operation
    simp [respell]
  have widths : (operation.respell spelling).checkWidths = operation.checkWidths := by
    unfold checkWidths
    rw [widths_respell]
  simp [compile, statement, operators, leaves_respell, widths, checkHoisting_respell, combine_respell]

end SetOperation

end Compound

/-- The path of a canonical field. -/
def Target.path : Target → List String
  | .whole => []
  | .column found => [found.name]
  | .property _ => ["props"]

/-- The pointer of a canonical field. -/
def Target.pointer? : Target → Option Pointer
  | .property pointer => some pointer
  | .whole | .column _ => none

namespace Field

/-- The one spelling of a field that denotes something. -/
def canonical (field : Field) : Field :=
  match field.target with
  | .ok target => { field with path := target.path, pointer := target.pointer? }
  | .error _ => field

theorem canonical_of_ok {field : Field} {target : Target} (found : field.target = .ok target) :
    field.canonical = { field with path := target.path, pointer := target.pointer? } := by
  simp [canonical, found]

theorem canonical_of_error {field : Field} {fault : FieldFault}
    (found : field.target = .error fault) : field.canonical = field := by
  simp [canonical, found]

/-- The document as a whole is a property at the root, and not a column. -/
theorem target_ne_props (field : Field) : field.target ≠ .ok (.column .props) := by
  intro found
  obtain ⟨aliasName, path, pointer, valueType⟩ := field
  cases path with
  | nil => cases pointer <;> simp [target] at found
  | cons head rest =>
    by_cases props : head = "props"
    · simp [target, props] at found
    · cases rest with
      | cons second others => simp [target, props] at found
      | nil =>
        cases named : Column.ofName? head with
        | none => simp [target, props, named] at found
        | some column =>
          simp only [target, props, named, if_false, Except.ok.injEq, Target.column.injEq] at found
          rw [found] at named
          have spelled := find?_some named
          have same : "props" = head := by simpa [Column.name, Column.camelName?] using spelled
          exact props same.symm

theorem target_canonical (field : Field) : field.canonical.target = field.target := by
  cases found : field.target with
  | error fault => rw [canonical_of_error found, found]
  | ok target =>
    rw [canonical_of_ok found]
    cases target with
    | whole => rfl
    | property pointer => rfl
    | column column =>
      cases column with
      | props => exact absurd found field.target_ne_props
      | id | kind | fromKind | fromId | toKind | toId | version | validFrom | validTo | createdAt |
          updatedAt | deletedAt => rfl

/-- Two fields of one alias and one type denote the same. -/
structure SameMeaning (first second : Field) : Prop where
  aliasName : first.aliasName = second.aliasName
  valueType : first.valueType = second.valueType
  target : ∃ target, first.target = .ok target ∧ second.target = .ok target

/-- Fields have one canonical spelling if they are equal or denote the same. -/
theorem canonical_eq_iff (first second : Field) :
    first.canonical = second.canonical ↔ first = second ∨ first.SameMeaning second := by
  constructor
  · intro same
    have targets : first.target = second.target := by rw [← first.target_canonical, same, second.target_canonical]
    cases found : first.target with
    | error fault =>
      left
      rw [found] at targets
      rw [canonical_of_error found, canonical_of_error targets.symm] at same
      exact same
    | ok target =>
      right
      rw [found] at targets
      rw [canonical_of_ok found, canonical_of_ok targets.symm] at same
      obtain ⟨aliases, _, _, types⟩ := Field.mk.inj same
      exact ⟨aliases, types, target, found, targets.symm⟩
  · intro alike
    rcases alike with rfl | ⟨aliases, types, target, found, other⟩
    · rfl
    · rw [canonical_of_ok found, canonical_of_ok other, aliases, types]

end Field

/-- Fields are written canonically. -/
def Spelling.canonical : Spelling where
  write := Field.canonical
  aliasName_write field := by
    cases found : field.target with
    | ok target => rw [Field.canonical_of_ok found]
    | error fault => rw [Field.canonical_of_error found]
  valueType_write field := by
    cases found : field.target with
    | ok target => rw [Field.canonical_of_ok found]
    | error fault => rw [Field.canonical_of_error found]
  target_write := Field.target_canonical
  write_of_fault _ _ := Field.canonical_of_error

/-- The query with canonical fields. -/
def Query.canonical : Query → Query := respell Spelling.canonical

/-- The set operation with canonical fields. -/
def SetOperation.canonical : SetOperation → SetOperation := respell Spelling.canonical

/-- Compilation depends on a field only through what it denotes: queries and set operations that differ
in the spelling of fields compile to one result, or fail for one reason. -/
theorem compile_eq_of_same_meaning :
    (∀ first second : Field,
      first.canonical = second.canonical ↔ first = second ∨ first.SameMeaning second) ∧
    (∀ first second : Query, first.canonical = second.canonical → ∀ opts graphId,
      first.compile opts graphId = second.compile opts graphId) ∧
    ∀ first second : SetOperation, first.canonical = second.canonical → ∀ opts graphId,
      first.compile opts graphId = second.compile opts graphId := by
  refine ⟨Field.canonical_eq_iff, ?_, ?_⟩
  · intro first second same opts graphId
    rw [← first.compile_respell Spelling.canonical opts graphId,
      ← second.compile_respell Spelling.canonical opts graphId]
    exact congrArg (Query.compile opts graphId) same
  · intro first second same opts graphId
    rw [← first.compile_respell Spelling.canonical opts graphId,
      ← second.compile_respell Spelling.canonical opts graphId]
    exact congrArg (SetOperation.compile opts graphId) same

/-- Posts near a vector whose title some review has, counted by title. -/
def reviewedPosts (title created : String → Field) (vector : Field) : Query :=
  let reviewed : Query := .mk
    { (ofKind "r" "review" : Block Query).withGraph "reviews" with
      filters := [⟨"r", .node, .nullCheck (created "r") .isNotNull⟩]
      projection := [⟨"title", .field (title "r")⟩] }
  .mk
    { (ofKind "p" "post" : Block Query) with
      filters :=
        [⟨"p", .node, .and [.comparison (created "p") .greater (.literal (.string "2024") none),
            .similarity { field := vector, embedding := [], metric := .cosine, count := 3 }]⟩,
          ⟨"p", .node, .inSubquery (title "p") reviewed false⟩]
      projection := [⟨"title", .field (title "p")⟩, ⟨"posts", .aggregate ⟨.count, title "p"⟩⟩]
      groupBy := [title "p"]
      having := some (.aggregate ⟨.greatest, created "p"⟩ .greater (.literal (.ofNat 1) none))
      orderBy := [⟨created "p", .descending, none⟩]
      selected := some [⟨title "p", "title"⟩] }

/-- The fields as paths. -/
def reviewedPosts.byPath : Query :=
  reviewedPosts (.ofProperty · "title") (.ofColumn · "created_at") (.ofPointer "p" ⟨["vectors", "title"]⟩)

/-- The fields with pointers, and with the other name of the column. -/
def reviewedPosts.byPointer : Query :=
  reviewedPosts (⟨·, [], some ⟨["title"]⟩, none⟩) (.ofColumn · "createdAt")
    ⟨"p", ["props", "vectors"], some ⟨["title"]⟩, none⟩

/-- A union of two queries, ordered by a field. -/
def reviewedPosts.union (query : Query) (order : Field) : SetOperation :=
  ⟨.union, .query query, .query query, [⟨order, .ascending, none⟩], some 5, none⟩

theorem reviewedPosts_compile_alike :
    reviewedPosts.byPath.canonical = reviewedPosts.byPointer.canonical ∧
    reviewedPosts.byPath.compile {} "people" = reviewedPosts.byPointer.compile {} "people" ∧
    (reviewedPosts.union reviewedPosts.byPath (.ofProperty "p" "title")).compile
        { dialect := .postgres } "people" =
      (reviewedPosts.union reviewedPosts.byPointer (.ofPointer "p" ⟨["title"]⟩)).compile
        { dialect := .postgres } "people" := by
  have leaves : reviewedPosts.byPath.respell .canonical = reviewedPosts.byPointer.respell .canonical := rfl
  have unions : (reviewedPosts.union reviewedPosts.byPath (.ofProperty "p" "title")).canonical =
      (reviewedPosts.union reviewedPosts.byPointer (.ofPointer "p" ⟨["title"]⟩)).canonical := by
    simp only [SetOperation.canonical, reviewedPosts.union, SetOperation.respell, SetOperand.respell,
      leaves]
    rfl
  exact ⟨leaves, compile_eq_of_same_meaning.2.1 _ _ leaves {} "people",
    compile_eq_of_same_meaning.2.2 _ _ unions { dialect := .postgres } "people"⟩

end GraphSql

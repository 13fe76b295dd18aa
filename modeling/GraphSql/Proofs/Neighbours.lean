import GraphSql.Proofs.Semantics.Datum
import GraphSql.Proofs.Similarity

namespace GraphSql

open List Traced

variable {ν σ : Type} [DecidableEq ν] {world : Context ν σ} {select : Select σ} {result : Bag ν}

/-- In an ordered list, whatever comes before an entry stands before it. -/
theorem length_filter_le_of_pairwise {α : Type} (before : α → α → Prop) [DecidableRel before]
    {seen later : List α} {entry : α}
    (ordered : (seen ++ entry :: later).Pairwise fun first second => ¬ before second first) :
    ((seen ++ entry :: later).filter fun other => before other entry ∧ ¬ before entry other).length ≤
      seen.length := by
  rw [pairwise_append, pairwise_cons] at ordered
  have none : (entry :: later).filter (fun other => before other entry ∧ ¬ before entry other) = [] := by
    rw [filter_eq_nil_iff, forall_mem_cons]
    exact ⟨by simp, fun other mem => by simp [ordered.2.1.1 other mem]⟩
  rw [filter_append, none, append_nil]
  exact length_filter_le _ _

/-- An entry that is kept after some are dropped stands after fewer entries than these two numbers say. -/
theorem exists_split_of_mem_take_drop {α : Type} {entries : List α} {entry : α} {offset limit : Nat}
    (kept : entry ∈ (entries.drop offset).take limit) :
    ∃ seen later, entries = seen ++ entry :: later ∧ seen.length < offset + limit := by
  obtain ⟨index, within, rfl⟩ := getElem_of_mem kept
  simp only [length_take, length_drop] at within
  refine ⟨entries.take (offset + index), entries.drop (offset + index + 1), ?_, ?_⟩
  · simp
  · simp
    omega

/-- The rows in reach that come before another one by every order of the result. -/
def Select.earlier (world : Context ν σ) (select : Select σ) (frame : Frame ν) : Multiset (Frame ν) :=
  (select.frames world).filter fun other =>
    world.db.sortsBefore select.orderBy (select.sortValues world 0 other) (select.sortValues world 0 frame) ∧
      ¬ world.db.sortsBefore select.orderBy (select.sortValues world 0 frame) (select.sortValues world 0 other)

/-- A row is returned only if fewer rows come before it than are passed over and returned. -/
theorem Select.Returns.card_earlier_lt {limit : UInt64} {offset : Option UInt64} {row : Record ν}
    (ungrouped : select.isGrouped = false) (bounds : select.bounds = some ⟨some limit, offset⟩)
    (returns : select.Returns world result) (mem : row ∈ result) :
    ∃ frame ∈ select.frames world, row = select.output world 0 frame ∧
      (select.earlier world frame).card < (offset.map UInt64.toNat).getD 0 + limit.toNat := by
  obtain ⟨answers, answered, bounded⟩ := returns
  simp only [Answers, ungrouped, Bool.false_eq_true, if_false] at answered
  rw [bounds] at bounded
  obtain ⟨ordered, same, sorted, rfl⟩ := bounded
  obtain ⟨entry, kept, rfl⟩ := mem_map.mp (Multiset.mem_coe.mp mem)
  obtain ⟨seen, later, rfl, short⟩ := exists_split_of_mem_take_drop kept
  have reached : entry ∈ answers := by rw [← same]; simp
  rw [answered] at reached
  obtain ⟨frame, inFrames, rfl⟩ := Multiset.mem_map.mp reached
  refine ⟨frame, inFrames, rfl, Nat.lt_of_le_of_lt ?_ short⟩
  have few := length_filter_le_of_pairwise (fun first second : List ν × Record ν =>
    world.db.sortsBefore select.orderBy first.1 second.1) sorted
  rw [← Multiset.coe_card, ← Multiset.filter_coe, same, answered, Multiset.filter_map, Multiset.card_map] at few
  exact few

/-- A row that comes first by the first sort key comes first. -/
theorem Select.sortsBefore_of_head {key : SortKey} (head : select.orderBy.head? = some key) {other frame : Frame ν}
    (first : world.db.precedes key.direction key.nulls (key.term.eval world.db 0 other)
      (key.term.eval world.db 0 frame) = true)
    (second : world.db.precedes key.direction key.nulls (key.term.eval world.db 0 frame)
      (key.term.eval world.db 0 other) = false) :
    world.db.sortsBefore select.orderBy (select.sortValues world 0 other) (select.sortValues world 0 frame) = true ∧
      ¬ world.db.sortsBefore select.orderBy (select.sortValues world 0 frame)
        (select.sortValues world 0 other) = true := by
  obtain ⟨rest, orderBy⟩ := head?_eq_some_iff.mp head
  simp [sortValues, orderBy, Engine.sortsBefore, first, second]

/-- What the statement of a search does at its end: it orders the rows by the distance, passes over as many
of them as the query says, and returns no more than neighbours are searched. -/
structure Select.Nearest (offset : Option UInt64) (search : Similarity) (relation : String)
    (select : Select σ) : Prop where
  orderBy : select.orderBy.head? =
    some ⟨.column (.relation relation) (distanceName search.field.aliasName), .ascending, none⟩
  bounds : ∃ limit ≤ search.count, select.bounds = some ⟨some limit, offset⟩

theorem Block.compile_nearest (block : Block Nested) (env : Setting) :
    Returns (block.compile env).result fun compiled => ∀ search ∈ block.searches,
      ∃ relation, compiled.1.select.Nearest block.offset search relation := by
  have chain (block : Block Nested) {vector : Option VectorSearch}
      (searched : (block.analyzeReferences env.opts.dialect).result = .ok vector) :
      Returns (block.chainLevel env (block.chainDecisions env.opts vector)).result
        fun level => ∀ search ∈ block.searches, ∃ relation, level.select.Nearest block.offset search relation := by
    rw [(block.analyzeReferences_searches _).of_ok searched]
    cases vector with
    | none => exact returns_all (by simp)
    | some vector =>
      simp only [chainLevel, result_bind, result_pure, returns_bind, returns_ok]
      refine returns_all fun _ => returns_all fun _ => (chainSelect_searches rfl).imp ?_
      rintro select ⟨⟨relation, orderBy⟩, bounds⟩
      exact forall_mem_singleton.mpr ⟨relation, orderBy, bounds⟩
  refine compile_returns (fun level => ∀ search ∈ block.searches,
      ∃ relation, level.select.Nearest block.offset search relation)
    (fun _ _ searched => chain block.withoutWalks searched)
    (fun _ _ searched => returns_all fun _ => ?_) (fun _ _ searched => chain block searched)
  rw [(block.analyzeReferences_searches _).of_ok searched]
  exact forall_mem_nil _

/-- The node that a row gives to an alias. -/
def Engine.nodeOf (db : Engine ν) (relation aliasName : String) (frame : Frame ν) : ν × ν :=
  (db.read frame (.column (.relation relation) (carriedName aliasName .id)),
    db.read frame (.column (.relation relation) (carriedName aliasName .kind)))

/-- The node of one row is nearer than the node of another. -/
def Engine.nearer (db : Engine ν) (relation aliasName : String) (other frame : Frame ν) : Bool :=
  let distance (frame : Frame ν) := db.read frame (.column (.relation relation) (distanceName aliasName))
  db.precedes .ascending none (distance other) (distance frame) &&
    !db.precedes .ascending none (distance frame) (distance other)

/-- The nodes in reach that are nearer than the node of a row. -/
def Select.nearerNodes (world : Context ν σ) (select : Select σ) (relation aliasName : String)
    (frame : Frame ν) : Multiset (ν × ν) :=
  (((select.frames world).filter fun other => world.db.nearer relation aliasName other frame).map
    (world.db.nodeOf relation aliasName)).dedup

theorem Select.Nearest.card_nearerNodes_le {offset : Option UInt64} {search : Similarity}
    {relation : String} (nearest : select.Nearest offset search relation) (frame : Frame ν) :
    (select.nearerNodes world relation search.field.aliasName frame).card ≤ (select.earlier world frame).card := by
  refine (Multiset.card_le_card (Multiset.dedup_le _)).trans ?_
  rw [Multiset.card_map]
  refine Multiset.card_le_card (Multiset.monotone_filter_right _ fun other near => ?_)
  obtain ⟨first, second⟩ := Bool.and_eq_true_iff.mp near
  exact sortsBefore_of_head nearest.orderBy first (Bool.not_eq_true' _ ▸ second)

/-- The result is ordered by the distance first, and the node of a returned row has fewer nearer nodes than
neighbours are searched and rows passed over. -/
theorem neighbours_are_nearest (block : Block Nested) (env : Setting) (level : Level Statement)
    (plan : Plan) (compiled : (block.compile env).result = .ok (level, plan))
    (ungrouped : level.select.isGrouped = false) (search : Similarity)
    (searched : search ∈ block.searches) :
    ∃ relation, level.select.orderBy.head? =
        some ⟨.column (.relation relation) (distanceName search.field.aliasName), .ascending, none⟩ ∧
      ∀ (ν : Type) [DecidableEq ν] (world after : Context ν Statement) (result : Bag ν),
        Level.Prepares level.isRecursive world level.rowSets after → level.select.Returns after result →
          ∀ row ∈ result, ∃ frame ∈ level.select.frames after, row = level.select.output after 0 frame ∧
            (level.select.nearerNodes after relation search.field.aliasName frame).card <
              (block.offset.map UInt64.toNat).getD 0 + search.count.toNat := by
  obtain ⟨relation, nearest⟩ := (block.compile_nearest env).of_ok compiled search searched
  refine ⟨relation, nearest.orderBy, fun ν _ world after result _ returns row mem => ?_⟩
  obtain ⟨limit, most, bounds⟩ := nearest.bounds
  obtain ⟨frame, reached, output, few⟩ := returns.card_earlier_lt ungrouped bounds mem
  refine ⟨frame, reached, output, (nearest.card_nearerNodes_le frame).trans_lt (few.trans_le ?_)⟩
  exact Nat.add_le_add_left (UInt64.le_iff_toNat_le.mp most) _

def nextPicture.vector : VectorSearch where
  pointer := ⟨["content"]⟩
  search := { field := .ofProperty "p" "content", embedding := [0.5, 0.25], metric := .cosine, count := 1 }

/-- Of the pictures of some kind, the one after the nearest one. -/
def nextPicture : Block Nested where
  start := { aliasName := "p", kinds := ["picture"] }
  filters := [⟨"p", .node, .and [.nullCheck (.ofColumn "p" "kind") .isNotNull, .similarity nextPicture.vector.search]⟩]
  projection := [⟨"id", .field (.ofColumn "p" "id")⟩]
  temporal := .includeTombstones
  offset := some 1

namespace nextPicture

def env : Setting := ⟨{}, "album", ""⟩

def pictures : Select Statement where
  columns := nextPicture.tableColumns (nextPicture.chainDecisions {} (some vector)) "p" ++ vector.parts.columns
  source := .table .nodes
  joins := vector.parts.joins
  conditions := nextPicture.startConditions "album" ++
    [.all [.isNull (.ofColumn .node .kind) true, .constant true]] ++ vector.parts.conditions

def level : Level Statement where
  rowSets := [{ name := "cte_p", members := [pictures] }]
  select :=
    { columns := [.quoted (.column (.relation "cte_p") "p_id") "id"]
      source := .relation "cte_p" none
      orderBy := [⟨.column (.relation "cte_p") "p_distance", .ascending, none⟩]
      bounds := some ⟨some 1, some 1⟩ }

theorem result_compile : ∃ plan, (nextPicture.compile env).result = .ok (level, plan) := ⟨_, rfl⟩

theorem among_nearest :
    ∃ plan, (nextPicture.compile env).result = .ok (level, plan) ∧
      ∀ (ν : Type) [DecidableEq ν] (world after : Context ν Statement) (result : Bag ν),
        Level.Prepares level.isRecursive world level.rowSets after → level.select.Returns after result →
          ∀ row ∈ result, ∃ frame ∈ level.select.frames after,
            row = level.select.output after 0 frame ∧
              (level.select.nearerNodes after "cte_p" "p" frame).card < 2 := by
  obtain ⟨plan, compiled⟩ := result_compile
  obtain ⟨relation, orderBy, few⟩ := neighbours_are_nearest nextPicture env level plan compiled rfl
    vector.search mem_cons_self
  obtain ⟨⟩ : "cte_p" = relation :=
    Row.relation.inj (Term.column.inj (SortKey.mk.inj (Option.some.inj orderBy)).1).1
  exact ⟨plan, compiled, few⟩

/-- Two pictures, each with its distance for an embedding. -/
def album : Context Datum Statement where
  db := { Datum.db with distance := fun _ embedding _ => embedding }
  tables
    | .nodes => [Datum.nodeRow "album" ("picture", "near"), Datum.nodeRow "album" ("picture", "far")]
    | .edges => 0
    | .embeddings => ([("near", 1), ("far", 2)] : List (String × Int)).map fun picture : String × Int =>
      [("graph_id", Datum.text "album"), ("node_kind", .text "picture"), ("node_id", .text picture.1),
        ("field_path", .text "/content"), ("embedding", .integer picture.2)]
  relations _ := 0
  answers _ := 0

def prepared : Context Datum Statement := album.declare "cte_p" ((pictures.frames album).map (pictures.output album 0))

/-- One neighbour is searched, and the picture that is returned is not the nearest. -/
theorem passes_nearest :
    ∃ plan, (nextPicture.compile env).result = .ok (level, plan) ∧
      Level.Prepares level.isRecursive album level.rowSets prepared ∧
        level.select.Returns prepared {[("id", .text "far")]} ∧
        ∀ frame ∈ level.select.frames prepared,
          level.select.output prepared 0 frame = [("id", .text "far")] →
            level.select.nearerNodes prepared "cte_p" "p" frame = {(.text "near", .text "picture")} := by
  obtain ⟨plan, compiled⟩ := result_compile
  have plain : pictures.IsPlain := ⟨rfl, rfl, by decide, rfl⟩
  refine ⟨plan, compiled, ?_, ?_, ?_⟩
  · exact ⟨_, ⟨_, _, _, rfl, (plain.returns_iff album).mpr rfl, 0, .nil, (add_zero _).symm⟩, rfl⟩
  · refine ⟨_, rfl, [([.integer 1], [("id", .text "near")]), ([.integer 2], [("id", .text "far")])],
      ?_, ?_, rfl⟩
    · decide +kernel
    · decide +kernel
  · decide +kernel

end nextPicture

end GraphSql

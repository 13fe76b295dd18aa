import GraphSql.Proofs.Lowering.Hop
import GraphSql.Proofs.Semantics.Hop

namespace GraphSql

/-- Whether letter case counts where names are compared. An engine ignores it in names without
quotes. -/
inductive LetterCase where
  | significant
  | ignored
  deriving DecidableEq, Repr

namespace LetterCase

variable {letterCase : LetterCase} {name : String}

/-- What is compared of a letter. -/
def fold : LetterCase → Char → Char
  | .significant => id
  | .ignored => Char.toLower

/-- What is compared of a name. -/
def key (letterCase : LetterCase) (name : String) : String := String.ofList (name.toList.map letterCase.fold)

@[simp] theorem key_significant : key .significant = id := by
  funext name
  simp [key, fold]

theorem key_ignored : key .ignored = Text.lowerAscii := rfl

theorem key_append (first second : String) :
    letterCase.key (first ++ second) = letterCase.key first ++ letterCase.key second := by
  simp [key]

theorem key_eq_self (isLower : name.toList.map Char.toLower = name.toList) : letterCase.key name = name := by
  cases letterCase with
  | significant => rw [key_significant, id]
  | ignored => rw [key_ignored, Text.lowerAscii, isLower, String.ofList_toList]

theorem key_carriedName (aliasName : String) (column : Column) : letterCase.key (carriedName aliasName column) =
      carriedName (letterCase.key aliasName) column := by
  have separator : letterCase.key "_" = "_" := key_eq_self rfl
  have name : letterCase.key column.name = column.name := key_eq_self (by cases column <;> rfl)
  rw [carriedName, key_append, key_append, separator, name, carriedName]

theorem key_distanceName (aliasName : String) :
    letterCase.key (distanceName aliasName) = distanceName (letterCase.key aliasName) := by
  have suffix : letterCase.key "_distance" = "_distance" := key_eq_self rfl
  rw [distanceName, key_append, suffix, distanceName]

end LetterCase

open Column List Multiset NodeKey Row Text

variable {column : Column} {ν : Type}

theorem Column.name_injective : Function.Injective name := by
  intro first second same
  have unique : (all.map name).Nodup := by decide
  exact List.inj_on_of_nodup_map unique first.mem_all second.mem_all same

theorem carriedName_injective (aliasName : String) : Function.Injective (carriedName aliasName) := by
  intro first second same
  simp only [carriedName, String.append_right_inj] at same
  exact name_injective same

theorem lowerAscii_carriedName (aliasName : String) (column : Column) :
    lowerAscii (carriedName aliasName column) = carriedName (lowerAscii aliasName) column :=
  (LetterCase.key_carriedName aliasName column : LetterCase.key .ignored _ = _)

/-- No two columns of an alias differ in letter case only. -/
theorem lowerAscii_carriedName_ne {first second : Column} (different : first ≠ second) (aliasName : String) :
    lowerAscii (carriedName aliasName first) ≠ lowerAscii (carriedName aliasName second) := by
  rw [lowerAscii_carriedName, lowerAscii_carriedName]
  exact (carriedName_injective _).ne different

theorem Column.mem_ofElement {element : Element} : column ∈ ofElement element ↔ column.existsOn element = true := by
  simp [ofElement, mem_all]

/-- Two nodes have no column in common, if their aliases differ in more than letter case. -/
theorem lowerAscii_carriedName_node_ne {first second : String} (different : lowerAscii first ≠ lowerAscii second)
    {column other : Column} (present : column.existsOn .node = true) (otherPresent : other.existsOn .node = true) :
    lowerAscii (carriedName first column) ≠ lowerAscii (carriedName second other) := by
  -- No name of a column of nodes ends in another one after a bar.
  have suffixes : ∀ column ∈ Column.ofElement .node, ∀ other ∈ Column.ofElement .node,
      ("_" ++ column.name).toList <:+ ("_" ++ other.name).toList → column = other := by decide
  rw [← mem_ofElement] at present otherPresent
  rw [lowerAscii_carriedName, lowerAscii_carriedName]
  intro same
  have ends (name : String) (column : Column) : ("_" ++ column.name).toList <:+ (carriedName name column).toList :=
    ⟨name.toList, by simp [carriedName]⟩
  have equal : column = other := by
    rcases List.suffix_or_suffix_of_suffix (ends _ column) (same ▸ ends _ other) with shorter | longer
    · exact suffixes column present other otherPresent shorter
    · exact (suffixes other otherPresent column present longer).symm
  subst equal
  exact different (by simpa [carriedName] using same)

theorem rowSetName_injective (tag : String) : Function.Injective (rowSetName tag) := by
  intro first second same
  simpa [rowSetName, String.append_assoc] using same

/-- In a collection with distinct keys, the rows that belong to a key are those of one member. -/
theorem filter_bind_eq_of_key {α β γ : Type} [DecidableEq γ] {members : Multiset α} {key : α → γ}
    (distinct : (members.map key).Nodup) {rows : α → Multiset β} {keyOf : β → γ}
    (keyed : ∀ member ∈ members, ∀ row ∈ rows member, keyOf row = key member) {member : α}
    (mem : member ∈ members) :
    (members.bind rows).filter (keyOf · = key member) = rows member := by
  obtain ⟨others, rfl⟩ := exists_cons_of_mem mem
  rw [Multiset.map_cons, Multiset.nodup_cons] at distinct
  have own : (rows member).filter (keyOf · = key member) = rows member := Multiset.filter_eq_self.mpr (keyed member mem)
  have foreign : (others.bind rows).filter (keyOf · = key member) = 0 := by
    refine filter_eq_nil.mpr fun row inRows same => distinct.1 ?_
    obtain ⟨other, inOthers, ofOther⟩ := mem_bind.mp inRows
    rw [← same, keyed other (Multiset.mem_cons_of_mem inOthers) row ofOther]
    exact Multiset.mem_map_of_mem key inOthers
  rw [cons_bind, filter_add, own, foreign, add_zero]

namespace Engine

variable {db : Engine ν} {record : Record ν} {columns : List Column} {aliasName : String}

/-- The columns of a row under the names by which they are carried for an alias. -/
def carry (db : Engine ν) (columns : List Column) (aliasName : String) (record : Record ν) : Record ν :=
  columns.map fun column => (carriedName aliasName column, db.field record column.name)

theorem field_carry (mem : column ∈ columns) (rest : Record ν) :
    db.field (db.carry columns aliasName record ++ rest) (carriedName aliasName column) =
      db.field record column.name := by
  induction columns with
  | nil => simp at mem
  | cons first others ih =>
    by_cases same : column = first
    · simp [carry, same]
    · have later := ih ((List.mem_cons.mp mem).resolve_left same)
      rw [carry, List.map_cons, List.cons_append, field_cons_of_ne _ _ _ (lowerAscii_carriedName_ne same aliasName)]
      exact later

theorem field_carry_self (mem : column ∈ columns) :
    db.field (db.carry columns aliasName record) (carriedName aliasName column) = db.field record column.name := by
  rw [← append_nil (db.carry columns aliasName record)]
  exact field_carry mem []

theorem field_carry_of_ne {name : String}
    (apart : ∀ column ∈ columns, lowerAscii name ≠ lowerAscii (carriedName aliasName column)) (rest : Record ν) :
    db.field (db.carry columns aliasName record ++ rest) name = db.field rest name := by
  induction columns with
  | nil => rfl
  | cons first others ih =>
    rw [List.forall_mem_cons] at apart
    rw [carry, List.map_cons, List.cons_append, field_cons_of_ne _ _ _ apart.1]
    exact ih apart.2

theorem carriedKey_carry (id : .id ∈ columns) (kind : .kind ∈ columns) :
    db.carriedKey aliasName (db.carry columns aliasName record) = db.keyOf record := by
  simp [carriedKey, field_carry_self id, field_carry_self kind, keyOf]

/-- The key of an alias is read from a row that begins with it. -/
theorem carriedKey_cons (db : Engine ν) (aliasName : String) (key : ν × ν) (rest : Record ν) :
    db.carriedKey aliasName ((carriedName aliasName .id, key.1) :: (carriedName aliasName .kind, key.2) :: rest) =
      key := by
  have apart := lowerAscii_carriedName_ne (show Column.kind ≠ .id by decide) aliasName
  simp [carriedKey, field_cons_of_ne _ _ _ apart]

end Engine

namespace Block

variable {σ : Type} {block : Block σ} {letterCase : LetterCase}

/-- No name is carried for two aliases, where names are compared in the given way. -/
def Apart (letterCase : LetterCase) (block : Block σ) : Prop :=
  block.aliases.Pairwise fun first second =>
    ((block.carriedNames first).map letterCase.key).Disjoint ((block.carriedNames second).map letterCase.key)

instance : Decidable (block.Apart letterCase) :=
  inferInstanceAs (Decidable (block.aliases.Pairwise fun first second =>
    ∀ key ∈ (block.carriedNames first).map letterCase.key, key ∉ (block.carriedNames second).map letterCase.key))

/-- Aliases without a bar carry no name twice. -/
theorem apart_of_noBar (noBar : ∀ aliasName ∈ block.aliases, '_' ∉ (letterCase.key aliasName).toList)
    (distinct : (block.aliases.map letterCase.key).Nodup) : block.Apart letterCase := by
  have stem {aliasName name : String} (mem : aliasName ∈ block.aliases)
      (carried : name ∈ (block.carriedNames aliasName).map letterCase.key) :
      name.toList.takeWhile (· ≠ '_') = (letterCase.key aliasName).toList := by
    have own : ∀ letter ∈ (letterCase.key aliasName).toList, decide (letter ≠ '_') = true :=
      fun letter inAlias => decide_eq_true fun isBar => noBar aliasName mem (isBar ▸ inAlias)
    obtain ⟨_, mem, rfl⟩ := List.mem_map.mp carried
    rcases List.mem_append.mp mem with ofColumn | ofDistance
    · obtain ⟨column, -, rfl⟩ := List.mem_map.mp ofColumn
      rw [LetterCase.key_carriedName, carriedName, String.append_assoc, String.toList_append,
        takeWhile_append_of_pos own]
      simp
    · obtain rfl := List.mem_singleton.mp ofDistance
      rw [LetterCase.key_distanceName, distanceName, String.toList_append, takeWhile_append_of_pos own]
      simp
  refine (pairwise_map.mp distinct).imp_of_mem fun inFirst inSecond different name first second => different ?_
  exact String.ext ((stem inFirst first).symm.trans (stem inSecond second))

theorem checkCarriedNames_returns (taken : List (String × String)) (aliases : List String) :
    Returns (block.checkCarriedNames taken aliases) fun _ =>
      (∀ aliasName ∈ aliases, ∀ name ∈ block.carriedNames aliasName, ∀ entry ∈ taken, entry.1 ≠ name) ∧
      aliases.Pairwise fun first second => (block.carriedNames first).Disjoint (block.carriedNames second) := by
  induction aliases generalizing taken with
  | nil => simp [checkCarriedNames]
  | cons aliasName rest ih =>
    rw [checkCarriedNames]
    split
    · trivial
    · next free =>
      apply (ih _).imp
      rintro _ ⟨ofRest, apart⟩
      simp only [findSome?_eq_none_iff, List.find?_eq_none, beq_iff_eq] at free
      have before := fun other (mem : other ∈ rest) name named entry taken =>
        ofRest other mem name named entry (mem_append_right _ taken)
      refine ⟨List.forall_mem_cons.mpr ⟨free, before⟩, pairwise_cons.mpr ⟨?_, apart⟩⟩
      intro other mem name own named
      have taken : (name, aliasName) ∈ (block.carriedNames aliasName).map (·, aliasName) := List.mem_map_of_mem own
      exact ofRest other mem name named _ (mem_append_left _ taken) rfl

/-- Two aliases carry columns that they have under different names. -/
theorem Apart.carriedName_ne (apart : block.Apart letterCase) {first second : String}
    (bound : first ∈ block.aliases) (otherBound : second ∈ block.aliases)
    (different : first ≠ second) {other : Column}
    (present : column.existsOn (block.elementOf first) = true)
    (otherPresent : other.existsOn (block.elementOf second) = true) :
    letterCase.key (carriedName first column) ≠ letterCase.key (carriedName second other) := by
  have symmetric : Std.Symm fun first second => ((block.carriedNames first).map letterCase.key).Disjoint
      ((block.carriedNames second).map letterCase.key) := ⟨fun _ _ disjoint => disjoint.symm⟩
  have disjoint := apart.forall bound otherBound different
  have carries {aliasName : String} {column : Column} (present : column.existsOn (block.elementOf aliasName) = true) :
      letterCase.key (carriedName aliasName column) ∈ (block.carriedNames aliasName).map letterCase.key :=
    List.mem_map_of_mem (mem_append_left _ (List.mem_map_of_mem (mem_ofElement.mpr present)))
  intro same
  exact disjoint (carries present) (same ▸ carries otherPresent)

/-- The analysis refuses a name that is carried for two aliases, where letter case counts. -/
theorem analyzeReferences_apart (dialect : Dialect) :
    Returns (block.analyzeReferences dialect).result fun _ => block.Apart .significant := by
  have validated : Returns block.validate fun _ => block.Apart .significant := by
    unfold validate
    simp only [returns_bind]
    refine returns_all fun _ => returns_all fun _ => returns_all fun _ => ?_
    apply (block.checkCarriedNames_returns [] block.aliases).imp
    rintro _ ⟨-, apart⟩
    simpa [Apart] using apart
  exact analyzeReferences_returns validated dialect

end Block

/-- The predicates that are placed at the start, as conditions. -/
abbrev Block.loweredStart (block : Block Nested) (env : Setting) (picks : Decisions) : Attempt Conditions :=
  (block.lowerPlaced env.opts.dialect picks block.startScope (some block.start.aliasName)).result

/-- The predicates that are placed at a hop, as conditions. -/
abbrev Block.loweredHop (block : Block Nested) (env : Setting) (picks : Decisions)
    (hop : Traversal) : Attempt Conditions :=
  (block.lowerPlaced env.opts.dialect picks hop.scope (some hop.nodeAlias)).result

/-- The reference is to a column of an edge or of a node. -/
def Reference.OfElement : Reference → Prop
  | .column row _ => row = .edge ∨ row = .node
  | .bare _ | .output _ => False

/-- The conditions read only columns of edges and of nodes. -/
def Condition.ReadElements {σ : Type} (conditions : List (Condition σ)) : Prop :=
  ∀ condition ∈ conditions, ∀ reference ∈ condition.references, reference.OfElement

@[simp] theorem Condition.readElements_nil {σ : Type} : ReadElements ([] : List (Condition σ)) := List.forall_mem_nil _

theorem Term.ofColumn_readsElement (element : Element) (column : Column) :
    (Term.ofColumn element column).Reads Reference.OfElement := by
  intro reference mem
  obtain rfl := List.mem_singleton.mp mem
  cases element with
  | node => exact .inr rfl
  | edge => exact .inl rfl

section Meaning

variable [DecidableEq ν] {world : Context ν Statement}

/-- Conditions on an edge and a node do not depend on other rows in reach. -/
theorem Context.holds_of_element {conditions : Conditions} (reads : Condition.ReadElements conditions)
    {frame other : Frame ν} (edge : frame.lookup .edge = other.lookup .edge)
    (node : frame.lookup .node = other.lookup .node) :
    world.Holds frame conditions ↔ world.Holds other conditions := by
  refine Context.holds_congr fun condition mem reference read => ?_
  have ofElement := reads condition mem reference read
  cases reference with
  | column row name =>
    rcases ofElement with rfl | rfl
    · simp [Engine.read, edge]
    · simp [Engine.read, node]
  | bare name => exact ofElement.elim
  | output name => exact ofElement.elim

/-- A row of a row set with the rows of another one that are joined to it. -/
def rejoin (kind : JoinKind) (first second : String) (found : Bag ν) (record : Record ν) : Multiset (Frame ν) :=
  if kind = .left ∧ found.card = 0 then {[(.relation first, record), (.relation second, [])]}
  else found.map fun other => [(.relation first, record), (.relation second, other)]

/-- The rows of a row set that are joined to the rows in reach by the key of an alias. -/
theorem Join.matching_sameKey (kind : JoinKind) {frame : Frame ν} {first second aliasName : String}
    {record : Record ν} (fresh : frame.lookup (.relation second) = none)
    (found : frame.lookup (.relation first) = some record)
    (isText : world.db.IsTextKey (world.db.carriedKey aliasName record)) :
    Join.matching world
        { kind
          source := .relation second none
          conditions :=
            (carried (.relation second) aliasName).same
              (.carried (.relation first) aliasName) } frame =
      ((world.relations second).filter fun other =>
        world.db.carriedKey aliasName other = world.db.carriedKey aliasName record).map fun other =>
            frame ++ [(.relation second, other)] := by
  have joined (other : Record ν) : world.Holds (frame ++ [(.relation second, other)])
          ((carried (.relation second) aliasName).same (.carried (.relation first) aliasName)) ↔
        world.db.carriedKey aliasName other = world.db.carriedKey aliasName record := by
    have atFirst : lookup (relation first) (frame ++ [(.relation second, other)]) = some record := by
      rw [lookup_append, found, Option.some_or]
    have atSecond : lookup (relation second) (frame ++ [(.relation second, other)]) = some other := by
      rw [lookup_append, fresh, Option.none_or, lookup_cons_self]
    have text := isText
    rw [← eval_carried world.db atFirst] at text
    rw [holds_same text, eval_carried _ atFirst, eval_carried _ atSecond]
  simp [Join.matching, Source.row, Multiset.filter_map, Function.comp_def, joined]

/-- The rows in reach of a SELECT that joins two row sets by the key of an alias. -/
theorem Select.frames_rejoin {select : Select Statement} {kind : JoinKind}
    {first second aliasName : String} {rows others : Bag ν} (apart : first ≠ second)
    (source : select.source = .relation first none)
    (joins : select.joins =
      [{ kind
         source := .relation second none
         conditions :=
           (carried (.relation second) aliasName).same
             (.carried (.relation first) aliasName) }])
    (texts : ∀ record ∈ rows, world.db.IsTextKey (world.db.carriedKey aliasName record)) :
    select.frames ((world.declare first rows).declare second others) = (rows.bind fun record =>
        rejoin kind first second (others.filter fun other =>
            world.db.carriedKey aliasName other = world.db.carriedKey aliasName record) record).filter
        (world.Holds · select.conditions) := by
  unfold Select.frames
  rw [joins, source]
  simp only [Join.extendAll, Source.records_relation, Source.row, bind_map,
    Context.relations_declare_of_ne _ _ apart, Context.relations_declare, Context.holds_declare]
  refine congrArg _ (Multiset.bind_congr fun record mem => ?_)
  have different : (relation second == relation first) = false :=
    beq_false_of_ne fun same => apart (relation.inj same).symm
  have fresh : lookup (relation second) [(relation first, record)] = none := by
    rw [lookup_cons, different]
    rfl
  unfold Join.extend rejoin
  rw [Join.matching_sameKey kind fresh lookup_cons_self (by exact texts record mem),
    Context.relations_declare, card_map]
  cases kind with
  | inner => rfl
  | left =>
    simp only [true_and]
    rfl

end Meaning

end GraphSql

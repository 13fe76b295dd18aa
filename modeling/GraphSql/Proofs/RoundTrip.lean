import GraphSql.Proofs.Nested
import GraphSql.Query.Decode
import GraphSql.Query.Encode

namespace GraphSql

open Json List Option Predicate

variable {α β σ : Type}

variable (pointer : Pointer)

namespace Pointer

theorem unescape_escape (segment : List Char) : unescape (escape segment) = some segment := by
  induction segment with
  | nil => rfl
  | cons c rest ih =>
    have flat : escape (c :: rest) =
        (if c = '~' then ['~', '0'] else if c = '/' then ['~', '1'] else [c]) ++ escape rest := by
      simp [escape]
    rw [flat]
    split
    · next tilde => simp [unescape, ih, tilde]
    · next tilde =>
        split
        · next slash => simp [unescape, ih, slash]
        · simp [unescape, ih, tilde]

theorem slash_notMem_escape (segment : List Char) : '/' ∉ escape segment := by
  simp only [escape, mem_flatMap, not_exists, not_and]
  intro c _
  split
  · decide
  · split
    · decide
    · next slash => simpa using Ne.symm slash

theorem splitSlashes_append {part : List Char} (unslashed : '/' ∉ part) (rest : List Char) :
    splitSlashes (part ++ '/' :: rest) = part :: splitSlashes rest := by
  induction part with
  | nil => simp [splitSlashes]
  | cons c others ih =>
    rw [mem_cons, not_or] at unslashed
    simp [splitSlashes, ih unslashed.2, Ne.symm unslashed.1]

theorem splitSlashes_of_notMem {part : List Char} (unslashed : '/' ∉ part) : splitSlashes part = [part] := by
  induction part with
  | nil => rfl
  | cons c others ih =>
    rw [mem_cons, not_or] at unslashed
    simp [splitSlashes, ih unslashed.2, Ne.symm unslashed.1]

theorem splitSlashes_display (segment : String) (rest : List String) :
    splitSlashes (escape segment.toList ++ displayCharacters ⟨rest⟩) = (segment :: rest).map (escape ·.toList) := by
  induction rest generalizing segment with
  | nil => simp [displayCharacters, splitSlashes_of_notMem (slash_notMem_escape _)]
  | cons next rest ih =>
    have flat : displayCharacters ⟨next :: rest⟩ = '/' :: (escape next.toList ++ displayCharacters ⟨rest⟩) := by
      simp [displayCharacters]
    rw [flat, splitSlashes_append (slash_notMem_escape _), ih, map_cons, map_cons, map_cons]

theorem parse_display : parse pointer.display = .ok pointer := by
  obtain ⟨segments⟩ := pointer
  cases segments with
  | nil => rfl
  | cons segment rest =>
    have flat : (display ⟨segment :: rest⟩).toList = '/' :: (escape segment.toList ++ displayCharacters ⟨rest⟩) := by
      simp [display, displayCharacters]
    have segments : ((segment :: rest).map (escape ·.toList)).mapM unescape =
        some ((segment :: rest).map String.toList) := by
      rw [← mapM_map_eq_some_iff.mpr fun part _ => unescape_escape part, List.map_map]
      rfl
    unfold parse
    rw [flat]
    simp only [splitSlashes_display, segments, List.map_map]
    simp [Function.comp_def]

end Pointer

/-- Each member of a finite type is found by its name. -/
class LawfulNamed (α : Type) [Named α] : Prop where
  ofName?_name : ∀ value : α, Named.ofName? (Named.name value) = some value := by
    intro value
    cases value <;> rfl

instance : LawfulNamed ValueType where
instance : LawfulNamed Element where
instance : LawfulNamed Comparison where
instance : LawfulNamed TextOperator where
instance : LawfulNamed NullCheck where
instance : LawfulNamed ArrayOperator where
instance : LawfulNamed ObjectOperator where
instance : LawfulNamed AggregateFunction where
instance : LawfulNamed Metric where
instance : LawfulNamed Direction where
instance : LawfulNamed SortDirection where
instance : LawfulNamed NullsOrder where
instance : LawfulNamed SetOperator where
instance : LawfulNamed CyclePolicy where
instance : LawfulNamed Operand.Tag where
instance : LawfulNamed Predicate.Tag where
instance : LawfulNamed ProjectionSource.Tag where
instance : LawfulNamed TemporalMode.Tag where
instance : LawfulNamed SetOperand.Tag where

variable {read : Json → Option α} {write : α → Json}

namespace Json

theorem member?_insertMember (key other : String) (value : Json) (members : List (String × Json)) :
    (object (insertMember key value members)).member? other =
      if key = other then some value else (object members).member? other := by
  induction members with
  | nil => by_cases same : key = other <;> simp [insertMember, member?, same]
  | cons first rest ih =>
    obtain ⟨next, held⟩ := first
    simp only [member?] at ih ⊢
    simp only [insertMember]
    split
    · by_cases same : key = other <;> simp [same]
    · split
      · next found => by_cases same : key = other <;> simp [← found, same]
      · next apart =>
        by_cases same : next = other
        · simp [same, show ¬ key = other from same ▸ apart]
        · rw [find?_cons_of_neg (by simpa using same), find?_cons_of_neg (by simpa using same)]
          exact ih

@[simp] theorem member?_ofMembers (members : List (String × Json)) (key : String) : (ofMembers members).member? key =
      members.foldl (fun found mem => if mem.1 = key then some mem.2 else found) none := by
  suffices general : ∀ sorted : List (String × Json),
      (object (members.foldl (fun sorted mem => insertMember mem.1 mem.2 sorted) sorted)).member? key =
        members.foldl (fun found mem => if mem.1 = key then some mem.2 else found)
          ((object sorted).member? key) from general []
  induction members with
  | nil => simp
  | cons mem rest ih => simp [ih, member?_insertMember]

@[simp] theorem asName_ofName [Named α] [LawfulNamed α] (reading : Reading) (value : α) :
    asName reading (ofName value) = some value := LawfulNamed.ofName?_name value

@[simp] theorem asTag_ofName [Named α] [LawfulNamed α] (reading : Reading) (value : α) :
    asTag reading (ofName value) = some value := by
  cases reading <;> exact LawfulNamed.ofName?_name value

@[simp] theorem asUInt64_ofUInt64 (value : UInt64) : asUInt64 (ofUInt64 value) = some value := by
  have bound := value.toNat_lt
  simp [asUInt64, ofUInt64, ofNat, asInteger, UInt64.size]
  omega

@[simp] theorem asUInt32_ofNat (value : UInt32) : asUInt32 (ofNat value.toNat) = some value := by
  have bound := value.toNat_lt
  simp [asUInt32, ofNat, asInteger, UInt32.size]
  omega

@[simp] theorem asInt64_ofInt (value : Int64) : asInt64 (ofInt value.toInt) = some value := by
  have least : Int64.minValue.toInt ≤ value.toInt := value.minValue_le_toInt
  have greatest : value.toInt ≤ Int64.maxValue.toInt := value.toInt_le
  simp only [asInt64, ofInt, asInteger, least, greatest, decide_true, Bool.and_self, if_true,
    map_some, Int64.ofInt_toInt]

@[simp] theorem asList_array {items : List α} : asList read (.array (items.map write)) = some items ↔
      ∀ item ∈ items, read (write item) = some item := mapM_map_eq_some_iff

@[simp] theorem asList_ofStrings (values : List String) : asList asString (ofStrings values) = some values := by
  simp [ofStrings, asString]

/-- Reads a member that is there and may be null. -/
def asOption (read : Json → Option α) : Json → Option (Option α)
  | .null => some none
  | json => (read json).map some

theorem maybe_eq (json : Json) (key : String) (read : Json → Option α) :
    json.maybe key read = (json.member? key).elim (some none) (asOption read) := by
  unfold maybe asOption
  cases json.member? key with
  | none => rfl
  | some value => cases value <;> rfl

@[simp] theorem ofName_ne_null [Named α] (value : α) : ofName value ≠ null := by simp [ofName]

@[simp] theorem ofUInt64_ne_null (value : UInt64) : ofUInt64 value ≠ null := by simp [ofUInt64, ofNat]

@[simp] theorem ofMembers_ne_null (members : List (String × Json)) : ofMembers members ≠ null := by simp [ofMembers]

@[simp] theorem asString_string (text : String) : asString (string text) = some text := by rfl

@[simp] theorem asBool_bool (value : Bool) : asBool (bool value) = some value := by rfl

section

variable {read : Json → Option α} {write : α → Json}

theorem asOption_ofOption {option : Option α} (present : ∀ value ∈ option, write value ≠ null) :
    asOption read (ofOption write option) = some option ↔ ∀ value ∈ option, read (write value) = some value := by
  cases option with
  | none => simp [asOption, ofOption]
  | some value => simp [asOption, ofOption, present value rfl]

@[simp] theorem asOption_ofOption_eq (present : ∀ value, write value ≠ null)
    (reads : ∀ value, read (write value) = some value) (option : Option α) :
    asOption read (ofOption write option) = some option :=
  (asOption_ofOption fun value _ => present value).mpr fun value _ => reads value

@[simp] theorem asList_array_eq (reads : ∀ value, read (write value) = some value)
    (items : List α) : asList read (array (items.map write)) = some items :=
  asList_array.mpr fun item _ => reads item

end

@[simp] theorem asList_some (values : List Json) : asList some (array values) = some values := by
  have reads := mapM_pure (m := Option) (l := values) (f := id)
  rwa [List.map_id] at reads

end Json

@[simp] theorem Pointer.toJson_ne_null : pointer.toJson ≠ .null := by simp [toJson]

@[simp] theorem Pointer.ofJson_toJson : ofJson pointer.toJson = some pointer := by
  simp [ofJson, toJson, parse_display, Except.toOption]

section Objects

open Json (need getOr maybe_eq member?_ofMembers)

variable (reading : Json.Reading)

@[simp] theorem Field.ofJson_toJson (field : Field) : ofJson reading field.toJson = some field := by
  simp [ofJson, toJson, need, getOr, maybe_eq]

@[simp] theorem Operand.toJson_ne_null (operand : Operand) : operand.toJson ≠ .null := by
  cases operand <;> simp [toJson]

@[simp] theorem Operand.ofJson_toJson (operand : Operand) : ofJson reading operand.toJson = some operand := by
  cases operand <;> simp [ofJson, toJson, need, maybe_eq]

@[simp] theorem Aggregate.ofJson_toJson (aggregate : Aggregate) : ofJson reading aggregate.toJson = some aggregate := by
  simp [ofJson, toJson, need]

@[simp] theorem Start.ofJson_toJson (start : Start) : ofJson start.toJson = some start := by
  simp [ofJson, toJson, need, getOr]

@[simp] theorem WalkSpec.toJson_ne_null (walk : WalkSpec) : walk.toJson ≠ .null := by simp [toJson]

@[simp] theorem WalkSpec.ofJson_toJson (walk : WalkSpec) : ofJson reading walk.toJson = some walk := by
  simp [ofJson, toJson, need, getOr, maybe_eq]

@[simp] theorem Traversal.ofJson_toJson (hop : Traversal) : ofJson reading hop.toJson = some hop := by
  simp [ofJson, toJson, need, getOr, maybe_eq]

@[simp] theorem ProjectionSource.ofJson_toJson (source : ProjectionSource) :
    ofJson reading source.toJson = some source := by
  cases source <;> simp [ofJson, toJson, need]

@[simp] theorem Projection.ofJson_toJson (projection : Projection) :
    ofJson reading projection.toJson = some projection := by
  simp [ofJson, toJson, need]

@[simp] theorem Order.ofJson_toJson (order : Order) : ofJson reading order.toJson = some order := by
  simp [ofJson, toJson, need, getOr, maybe_eq]

@[simp] theorem TemporalMode.ofJson_toJson (mode : TemporalMode) : ofJson reading mode.toJson = some mode := by
  cases mode <;> simp [ofJson, toJson, need]

@[simp] theorem SelectedField.ofJson_toJson (selected : SelectedField) :
    ofJson reading selected.toJson = some selected := by
  simp [ofJson, toJson, need]

/-- The components of the embedding and the least score are finite, and rounding a component back
to a single gives it again. -/
def Similarity.IsExact (search : Similarity) : Prop :=
  (∀ component ∈ search.embedding, (widen component).isFinite = true ∧ narrow (widen component) = component) ∧
    ∀ score ∈ search.minScore, score.isFinite = true

theorem asSingle_ofSingle (component : Float32) : asSingle (.ofSingle component) = some component ↔
      (widen component).isFinite = true ∧ narrow (widen component) = component := by
  by_cases finite : (widen component).isFinite = true <;>
    simp [ofSingle, ofDouble, asSingle, finite]

theorem asOption_ofDouble (score : Option Float) : asOption asDouble (.ofOption .ofDouble score) = some score ↔
      ∀ value ∈ score, value.isFinite = true := by
  cases score with
  | none => simp [asOption, ofOption]
  | some value =>
    by_cases finite : value.isFinite = true <;>
      simp [asOption, ofOption, ofDouble, asDouble, finite]

theorem Similarity.ofJson_toJson (search : Similarity) :
    Similarity.ofJson reading (similarity search).toJson = some search ↔ search.IsExact := by
  obtain ⟨field, embedding, metric, count, minScore⟩ := search
  simp [Similarity.ofJson, toJson, need, maybe_eq, IsExact, bind_eq_some_iff, asOption_ofDouble, asSingle_ofSingle]

variable (predicate : Predicate Query)

theorem Predicate.form_ne_null : predicate.form ≠ .null := by cases predicate <;> simp [form, map, toJson]

theorem Predicate.toJsonAll_mapAll (operands : List (Predicate Query)) :
    toJsonAll (mapAll Query.toJson operands) = operands.map form := by
  induction operands with
  | nil => rfl
  | cons operand rest ih => simp [toJsonAll, mapAll, form, ih]

/-- What the tag of a predicate says. -/
def Predicate.tag : Predicate σ → Tag
  | .comparison .. => .comparison
  | .text .. => .text
  | .nullCheck .. => .nullCheck
  | .between .. => .between
  | .array .. => .array
  | .object .. => .object
  | .aggregate .. => .aggregate
  | .and _ => .and
  | .or _ => .or
  | .not _ => .not
  | .subquery .. => .subquery
  | .inSubquery .. => .inSubquery
  | .similarity _ => .similarity

theorem Predicate.need_tag : predicate.form.need "type" (asTag reading) = some predicate.tag := by
  cases predicate <;> simp [form, map, toJson, need, tag]

theorem Predicate.ofJson_form : ∀ reading, ofJson reading predicate.form = some predicate ↔
      (∀ search ∈ predicate.searches, search.IsExact) ∧
        ∀ query ∈ predicate.nested, Query.ofJson .lenient query.toJson = some query := by
  induction predicate
  all_goals
    intro reading
    rw [Predicate.ofJson, need_tag]
  case and operands ih | or operands ih =>
    have each := forall₂_congr fun operand (mem : operand ∈ operands) => ih operand mem .lenient
    simp only [searches, nested, searchesOf_eq_flatMap, nestedOf_eq_flatMap, forall_mem_flatMap, ← forall₂_and, ← each]
    simp [tag, form, map, toJson, need, bind_eq_some_iff, toJsonAll_mapAll]
  case not operand ih => simpa [tag, form, map, toJson, need, searches, nested, bind_eq_some_iff] using ih .lenient
  case similarity search => simp [tag, form, map, searches, nested, bind_eq_some_iff, Similarity.ofJson_toJson]
  all_goals
    simp [tag, form, map, toJson, need, getOr, maybe_eq, searches, nested, bind_eq_some_iff]

theorem Filter.ofJson_toJson (filter : Filter Query) : ofJson reading (filter.map Query.toJson).toJson = some filter ↔
      Predicate.ofJson reading filter.predicate.form = some filter.predicate := by
  obtain ⟨aliasName, element, predicate⟩ := filter
  rw [Filter.ofJson]
  simp [toJson, map, form, need, getOr, bind_eq_some_iff]

theorem Query.ofJson_mk (block : Block Query) : ofJson reading (toJson (.mk block)) = some (.mk block) ↔
      (∀ search ∈ block.searches, search.IsExact) ∧
        ∀ query ∈ block.nested, ofJson .lenient query.toJson = some query := by
  have filters : asList (Filter.ofJson reading)
      (.array (block.filters.map fun filter => (filter.map toJson).toJson)) = some block.filters ↔
        ∀ filter ∈ block.filters, Predicate.ofJson reading filter.predicate.form = some filter.predicate := by
    simp [Filter.ofJson_toJson]
  have having : asOption (Predicate.ofJson reading) (.ofOption Predicate.form block.having) =
      some block.having ↔ ∀ predicate ∈ block.having, Predicate.ofJson reading predicate.form = some predicate :=
    asOption_ofOption fun predicate _ => predicate.form_ne_null
  have written : (.ofOption Predicate.toJson (block.having.map (Predicate.map toJson)) : Json) =
      .ofOption Predicate.form block.having := by
    cases block.having <;> rfl
  have form : toJson (.mk block) = (block.map toJson).toJson := fold_mk _ _
  trans (∀ filter ∈ block.filters, Predicate.ofJson reading filter.predicate.form = some filter.predicate) ∧
    ∀ predicate ∈ block.having, Predicate.ofJson reading predicate.form = some predicate
  · rw [← filters, ← having, form, Query.ofJson]
    cases block
    simp [Block.toJson, Block.map, need, getOr, maybe_eq, bind_eq_some_iff, written, Function.comp_def]
  · simp only [ofJson_form, Block.searches, Block.nested, forall_mem_append, forall_mem_flatMap, mem_toList, forall_and]
    exact and_and_and_comm

/-- The searches of a query and of the queries that are nested in it are read back. -/
inductive Query.IsExact : Query → Prop
  | mk {block : Block Query} : (∀ search ∈ block.searches, search.IsExact) →
      (∀ query ∈ block.nested, query.IsExact) → IsExact (.mk block)

theorem Query.ofJson_toJson : ∀ (query : Query) (reading : Json.Reading),
    ofJson reading query.toJson = some query ↔ query.IsExact := by
  apply induction_nested
  intro block ih reading
  rw [Query.ofJson_mk]
  constructor
  · rintro ⟨searches, nested⟩
    exact .mk searches fun query mem => (ih query mem .lenient).mp (nested query mem)
  · rintro ⟨searches, nested⟩
    exact ⟨searches, fun query mem => (ih query mem .lenient).mpr (nested query mem)⟩

mutual

theorem SetOperand.ofJson_toJson (reading : Json.Reading) : (operand : SetOperand) →
    (SetOperand.ofJson reading operand.toJson = some operand ↔ ∀ query ∈ operand.leaves, query.IsExact)
  | .query query => by
    rw [SetOperand.ofJson]
    simp [SetOperand.toJson, need, SetOperand.leaves, bind_eq_some_iff, Query.ofJson_toJson]
  | .operation operation => by
    rw [SetOperand.ofJson]
    simpa [SetOperand.toJson, need, SetOperand.leaves, bind_eq_some_iff] using
      SetOperation.ofJson_toJson .lenient operation

theorem SetOperation.ofJson_toJson (reading : Json.Reading) : (operation : SetOperation) →
    (SetOperation.ofJson reading operation.toJson = some operation ↔ ∀ query ∈ operation.leaves, query.IsExact)
  | ⟨op, left, right, orderBy, limit, offset⟩ => by
    rw [SetOperation.ofJson, SetOperation.leaves, forall_mem_append,
      ← SetOperand.ofJson_toJson reading left, ← SetOperand.ofJson_toJson reading right]
    simp [SetOperation.toJson, need, getOr, maybe_eq, bind_eq_some_iff]

end

end Objects

/-- The searches of a predicate and of the queries that are nested in it are read back. -/
def Predicate.IsExact (predicate : Predicate Query) : Prop :=
  (∀ search ∈ predicate.searches, search.IsExact) ∧ ∀ query ∈ predicate.nested, query.IsExact

def SetOperation.IsExact (operation : SetOperation) : Prop := ∀ query ∈ operation.leaves, query.IsExact

/-- What is written is read back exactly if it is exact. Writing what has been read, and reading it
again, gives the same exactly if that is exact. -/
def RoundTrips (read : Json → Option α) (write : α → Json) (isExact : α → Prop) : Prop :=
  (∀ value, read (write value) = some value ↔ isExact value) ∧
    ∀ json, ((read json).bind fun value => read (write value)) = read json ↔ ∀ value ∈ read json, isExact value

theorem RoundTrips.mk {isExact : α → Prop} (readBack : ∀ value, read (write value) = some value ↔ isExact value) :
    RoundTrips read write isExact := by
  refine ⟨readBack, fun json => ?_⟩
  cases read json with
  | none => simp
  | some value => simpa using readBack value

/-- Queries, predicates and set operations are read back from their JSON form exactly if the
similarity searches in them are exact. -/
theorem json_roundTrips (reading : Json.Reading) :
    RoundTrips (Query.ofJson reading) Query.toJson Query.IsExact ∧
      RoundTrips (Predicate.ofJson reading) Predicate.form Predicate.IsExact ∧
      RoundTrips (SetOperation.ofJson reading) SetOperation.toJson SetOperation.IsExact := by
  refine ⟨.mk fun query => query.ofJson_toJson reading, .mk fun predicate => ?_,
    .mk (SetOperation.ofJson_toJson reading)⟩
  rw [Predicate.ofJson_form]
  simp only [Query.ofJson_toJson, Predicate.IsExact]

/-- The node whose picture is nearest to a single number. -/
def nearestPicture (embedding : List Float32) : Predicate Query :=
  .similarity { field := .ofProperty "p" "picture", embedding, metric := .cosine, count := 1, minScore := some 0.5 }

theorem nearestPicture_read_back :
    Predicate.ofJson .strict (nearestPicture [0.5]).form = some (nearestPicture [0.5]) := by
  refine ((json_roundTrips .strict).2.1.1 (nearestPicture [0.5])).mpr ⟨?_, ?_⟩
  · simp only [nearestPicture, Predicate.searches, List.mem_singleton, forall_eq]
    exact ⟨by decide, by decide⟩
  · simp [nearestPicture, Predicate.nested]

/-- A number beyond every single is read as infinity, which is written as null. -/
theorem overflow_not_read_back :
    ∃ json predicate, Predicate.ofJson .strict json = some predicate ∧
      Predicate.ofJson .strict predicate.form ≠ some predicate := by
  refine ⟨.ofMembers
    [("type", .ofName Predicate.Tag.similarity), ("field", (Field.ofProperty "p" "picture").toJson),
      ("query_embedding", .array [.number (.double 1e39)]), ("metric", .ofName Metric.cosine),
      ("k", .ofUInt64 1), ("min_score", .number (.double 0.5))],
    nearestPicture [narrow 1e39], ?_, ?_⟩
  · rw [Predicate.ofJson]
    simp [Json.need, Json.maybe_eq, Json.member?_ofMembers, Similarity.ofJson, Json.asList,
      Json.asSingle, Json.asOption, Json.asDouble, nearestPicture]
  · rw [ne_eq, Predicate.ofJson_form]
    rintro ⟨exact, -⟩
    have finite : (widen (narrow 1e39)).isFinite = true := ((exact _ List.mem_cons_self).1 _ List.mem_cons_self).1
    revert finite
    decide +kernel

end GraphSql

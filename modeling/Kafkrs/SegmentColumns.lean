import Kafkrs.Lib.Columnar
import Kafkrs.Record

/-! Records as the columns of a segment object and back. The writer and the fetcher agree only by
the position of a column; an empty key is stored as null and the schema id as a signed integer. -/
namespace Kafkrs.SegmentColumns

open Lib Lib.Columnar

/-- Column order is load-bearing. -/
def parquetArrowSchema : List Field :=
  [⟨"offset", .int64, false⟩, ⟨"timestamp_ns", .timestampNs (some "UTC"), false⟩,
    ⟨"key", .binary, true⟩, ⟨"value", .binary, false⟩, ⟨"schema_id", .int32, false⟩]

def appendKey (builder : BinaryBuilder) (r : Record) : Option BinaryBuilder :=
  if r.key = [] then some builder.appendNull else builder.appendValue r.key

def appendValue (builder : BinaryBuilder) (r : Record) : Option BinaryBuilder :=
  builder.appendValue r.value

/-- Nothing where the source panics. -/
def recordsToRecordbatch (records : List Record) : Option RecordBatch := do
  let offsets := records.map fun r => Int64.ofInt r.offset
  let timestamps := records.map fun r => r.timestampNs
  let keyBuilder ← records.foldlM appendKey BinaryBuilder.new
  let valueBuilder ← records.foldlM appendValue BinaryBuilder.new
  let schemaIds := records.map fun r => r.schemaId.toInt32
  RecordBatch.tryNew parquetArrowSchema [.int64 offsets, .timestampNs (some "UTC") timestamps,
    .binary keyBuilder.finish, .binary valueBuilder.finish, .int32 schemaIds]

def recordAt (off ts : List Int64) (key val : BinaryArray) (sid : List Int32) (i : Nat) :
    Option Record := do
  let offset ← off[i]?
  let timestampNs ← ts[i]?
  let schemaId ← sid[i]?
  let null ← key.isNull i
  let key ← if null then some [] else key.value i
  let value ← val.value i
  return ⟨offset.toInt, timestampNs, schemaId.toUInt32, key, value⟩

/-- Nothing where a downcast or an access panics. -/
def recordbatchToRecords (batch : RecordBatch) : Option (List Record) := do
  let off ← batch.columns[0]? >>= Column.asInt64
  let ts ← batch.columns[1]? >>= Column.asTimestampNs
  let key ← batch.columns[2]? >>= Column.asBinary
  let val ← batch.columns[3]? >>= Column.asBinary
  let sid ← batch.columns[4]? >>= Column.asInt32
  (List.range batch.numRows).mapM (recordAt off ts key val sid)

/-- The batch loop of `read_object_store`. -/
def readBatches (batches : List RecordBatch) : Option (List Record) :=
  batches.foldlM (fun out batch => (recordbatchToRecords batch).map (out ++ ·)) []

/-- An empty key is "no key". -/
def keyCell (r : Record) : Option Bytes := if r.key = [] then none else some r.key

def recordCell : Nat → Record → Cell
  | 0, r => .int64 (Int64.ofInt r.offset)
  | 1, r => .int64 r.timestampNs
  | 2, r => .ofBytes (keyCell r)
  | 3, r => .bytes r.value
  | 4, r => .int32 r.schemaId.toInt32
  | _, _ => .null

structure Holds (batches : List RecordBatch) (records : List Record) : Prop where
  schema : ∀ b ∈ batches, b.schema = parquetArrowSchema
  cells : ∀ k < 5, batches.flatMap (·.cellsAt k) = records.map (recordCell k)

/-- The offset is in the range of the source's type. -/
def InRange (r : Record) : Prop := -2 ^ 63 ≤ r.offset ∧ r.offset < 2 ^ 63

section Encode

variable {records : List Record} {batch : RecordBatch}

theorem keys_eq (builder : BinaryBuilder) : records.foldlM appendKey builder =
    (records.map keyCell).foldlM BinaryBuilder.append builder := by
  rw [List.foldlM_map]
  congr 1
  funext b r
  unfold appendKey keyCell
  split
  · rfl
  · rfl

theorem values_eq (builder : BinaryBuilder) : records.foldlM appendValue builder =
    (records.map fun r => some r.value).foldlM BinaryBuilder.append builder := by
  rw [List.foldlM_map]
  rfl

theorem keys_cells {builder : BinaryBuilder}
    (built : records.foldlM appendKey BinaryBuilder.new = some builder) :
    builder.finish.cells = records.map keyCell := by
  rw [keys_eq] at built
  have cells := BinaryBuilder.appendAll_cells built
  rwa [BinaryBuilder.new_cells, List.nil_append] at cells

theorem values_cells {builder : BinaryBuilder}
    (built : records.foldlM appendValue BinaryBuilder.new = some builder) :
    builder.finish.cells = records.map fun r => some r.value := by
  rw [values_eq] at built
  have cells := BinaryBuilder.appendAll_cells built
  rwa [BinaryBuilder.new_cells, List.nil_append] at cells

theorem total_keys : BinaryBuilder.total (records.map keyCell) =
    (records.map (·.key.length)).sum := by
  rw [BinaryBuilder.total, List.map_map]
  congr 1
  refine List.map_congr_left fun r _ => ?_
  unfold Function.comp keyCell
  split
  next empty => simp [empty]
  · rfl

theorem total_values : BinaryBuilder.total (records.map fun r => some r.value) =
    (records.map (·.value.length)).sum := by
  simp [BinaryBuilder.total, Function.comp_def]

/-- The arrays built from the records match the schema. -/
theorem tryNew_columns {keys values : BinaryArray} (keysAre : keys.cells = records.map keyCell)
    (valuesAre : values.cells = records.map fun r => some r.value) :
    ∃ batch, RecordBatch.tryNew parquetArrowSchema
        [.int64 (records.map fun r => Int64.ofInt r.offset),
          .timestampNs (some "UTC") (records.map fun r => r.timestampNs), .binary keys,
          .binary values, .int32 (records.map fun r => r.schemaId.toInt32)] = some batch ∧
      Holds [batch] records := by
  have keysLength : keys.length = records.length := by
    rw [← BinaryArray.cells_length, keysAre, List.length_map]
  have valuesLength : values.length = records.length := by
    rw [← BinaryArray.cells_length, valuesAre, List.length_map]
  obtain ⟨batch, made, schema, columns⟩ := @RecordBatch.tryNew_of_valid parquetArrowSchema
    (.int64 (records.map fun r => Int64.ofInt r.offset))
    [.timestampNs (some "UTC") (records.map fun r => r.timestampNs), .binary keys, .binary values,
      .int32 (records.map fun r => r.schemaId.toInt32)] rfl
    (by simp [parquetArrowSchema, Column.cells, valuesAre, Cell.ofBytes])
    (by simp [Column.length, keysLength, valuesLength])
  refine ⟨batch, made, by simpa using schema, fun k bound => ?_⟩
  simp only [List.flatMap_cons, List.flatMap_nil, List.append_nil, RecordBatch.cellsAt, columns]
  have position : k = 0 ∨ k = 1 ∨ k = 2 ∨ k = 3 ∨ k = 4 := by omega
  rcases position with rfl | rfl | rfl | rfl | rfl
  · simp [Column.cells, recordCell]
  · simp [Column.cells, recordCell]
  · simp [Column.cells, recordCell, keysAre]
  · simp [Column.cells, recordCell, valuesAre, Cell.ofBytes]
  · simp [Column.cells, recordCell]

theorem recordsToRecordbatch_holds (made : recordsToRecordbatch records = some batch) :
    Holds [batch] records := by
  simp only [recordsToRecordbatch, Option.bind_eq_bind, Option.bind_eq_some_iff] at made
  obtain ⟨keyBuilder, keysBuilt, valueBuilder, valuesBuilt, made⟩ := made
  obtain ⟨again, same, holds⟩ := tryNew_columns (keys_cells keysBuilt) (values_cells valuesBuilt)
  obtain rfl := Option.some.inj (made.symm.trans same)
  exact holds

/-- The batch is made exactly when the bytes of the keys and those of the values fit the offsets
of their columns. -/
theorem recordsToRecordbatch_isSome_iff : (recordsToRecordbatch records).isSome ↔
    (records.map (·.key.length)).sum ≤ offsetMax ∧
      (records.map (·.value.length)).sum ≤ offsetMax := by
  have keys := @BinaryBuilder.appendAll_isSome_iff (records.map keyCell) .new
  have values := @BinaryBuilder.appendAll_isSome_iff (records.map fun r => some r.value) .new
  have nothing : BinaryBuilder.new.bytes.length = 0 := rfl
  rw [← keys_eq, nothing, Nat.zero_add, total_keys] at keys
  rw [← values_eq, nothing, Nat.zero_add, total_values] at values
  rw [← keys, ← values]
  constructor
  · intro made
    obtain ⟨batch, made⟩ := Option.isSome_iff_exists.mp made
    simp only [recordsToRecordbatch, Option.bind_eq_bind, Option.bind_eq_some_iff] at made
    obtain ⟨keyBuilder, keysBuilt, valueBuilder, valuesBuilt, _⟩ := made
    simp [keysBuilt, valuesBuilt]
  · rintro ⟨keysBuilt, valuesBuilt⟩
    obtain ⟨keyBuilder, keysBuilt⟩ := Option.isSome_iff_exists.mp keysBuilt
    obtain ⟨valueBuilder, valuesBuilt⟩ := Option.isSome_iff_exists.mp valuesBuilt
    obtain ⟨batch, made, _⟩ := tryNew_columns (keys_cells keysBuilt) (values_cells valuesBuilt)
    simp only [recordsToRecordbatch, keysBuilt, valuesBuilt, Option.bind_eq_bind, Option.bind_some,
      made, Option.isSome_some]

end Encode

section Decode

variable {records : List Record} {batch written : RecordBatch} {batches read : List RecordBatch}

/-- The field at position `k` has a column of its type, with a cell for each record. -/
theorem Holds.column (holds : Holds [batch] records) {k : Nat} {f : Field} (bound : k < 5)
    (declared : parquetArrowSchema[k]? = some f) : ∃ c, batch.columns[k]? = some c ∧
      c.dataType = f.dataType ∧ c.cells = records.map (recordCell k) := by
  rw [← holds.schema batch (by simp)] at declared
  obtain ⟨c, here, type, cells, _⟩ := RecordBatch.column_of_field declared
  refine ⟨c, here, type, ?_⟩
  simpa [cells] using holds.cells k bound

theorem Holds.numRows (holds : Holds [batch] records) : batch.numRows = records.length := by
  have declared : batch.schema[0]? = some ⟨"offset", .int64, false⟩ := by
    rw [holds.schema batch (by simp)]
    rfl
  obtain ⟨c, _, _, cells, length⟩ := RecordBatch.column_of_field declared
  have held := holds.cells 0 (by omega)
  simp only [List.flatMap_cons, List.flatMap_nil, List.append_nil, cells] at held
  rw [← length, held, List.length_map]

theorem recordAt_of_cells {key val : BinaryArray} (keys : key.cells = records.map keyCell)
    (values : val.cells = records.map fun r => some r.value) {i : Nat} {r : Record}
    (here : records[i]? = some r) (inRange : InRange r) :
    recordAt (records.map fun r => Int64.ofInt r.offset) (records.map fun r => r.timestampNs) key
      val (records.map fun r => r.schemaId.toInt32) i = some r := by
  have keyHere : key.cells[i]? = some (keyCell r) := by rw [keys, List.getElem?_map, here]; rfl
  have valueHere : val.cells[i]? = some (some r.value) := by
    rw [values, List.getElem?_map, here]
    rfl
  have offset : (Int64.ofInt r.offset).toInt = r.offset :=
    Int64.toInt_ofInt_of_le inRange.1 inRange.2
  have value := (BinaryArray.read_value valueHere).2
  by_cases empty : r.key = []
  · rw [keyCell, if_pos empty] at keyHere
    have null := BinaryArray.read_null keyHere
    simp [recordAt, here, null, value, offset, ← empty]
  · rw [keyCell, if_neg empty] at keyHere
    obtain ⟨present, stored⟩ := BinaryArray.read_value keyHere
    simp [recordAt, here, present, stored, value, offset]

/-- Cells of one kind determine the values they were made from. -/
theorem values_of_cells {α : Type} {make : α → Cell} (injective : Function.Injective make)
    {values : List α} {f : Record → α} (same : values.map make = records.map fun r => make (f r)) :
    values = records.map f := by
  apply List.map_injective_iff.mpr injective
  rw [same, List.map_map]
  rfl

/-- One batch reads back. -/
theorem recordbatchToRecords_of_holds (holds : Holds [batch] records)
    (inRange : ∀ r ∈ records, InRange r) : recordbatchToRecords batch = some records := by
  obtain ⟨c0, here0, type0, cells0⟩ := @Holds.column _ _ holds 0 _ (by omega) rfl
  obtain ⟨c1, here1, type1, cells1⟩ := @Holds.column _ _ holds 1 _ (by omega) rfl
  obtain ⟨c2, here2, type2, cells2⟩ := @Holds.column _ _ holds 2 _ (by omega) rfl
  obtain ⟨c3, here3, type3, cells3⟩ := @Holds.column _ _ holds 3 _ (by omega) rfl
  obtain ⟨c4, here4, type4, cells4⟩ := @Holds.column _ _ holds 4 _ (by omega) rfl
  obtain ⟨off, offs, offCells⟩ := Column.asInt64_of_type type0
  obtain ⟨ts, tss, tsCells⟩ := Column.asTimestampNs_of_type type1
  obtain ⟨key, keys, keyCells⟩ := Column.asBinary_of_type type2
  obtain ⟨val, vals, valCells⟩ := Column.asBinary_of_type type3
  obtain ⟨sid, sids, sidCells⟩ := Column.asInt32_of_type type4
  have offAre := values_of_cells (fun _ _ => Cell.int64.inj) (offCells.symm.trans cells0)
  have tsAre := values_of_cells (fun _ _ => Cell.int64.inj) (tsCells.symm.trans cells1)
  have keysAre := values_of_cells Cell.ofBytes_injective (keyCells.symm.trans cells2)
  have valuesAre := @values_of_cells records _ _ Cell.ofBytes_injective val.cells
    (fun r => some r.value) (valCells.symm.trans cells3)
  have sidAre := values_of_cells (fun _ _ => Cell.int32.inj) (sidCells.symm.trans cells4)
  simp only [recordbatchToRecords, here0, here1, here2, here3, here4, Option.bind_eq_bind,
    Option.bind_some, offs, tss, keys, vals, sids, holds.numRows, offAre, tsAre, sidAre]
  refine mapM_range fun i r here => ?_
  exact recordAt_of_cells keysAre valuesAre here (inRange r (List.mem_of_getElem? here))

/-- The first batch says what the first records say, the others the rest. -/
theorem Holds.cons (holds : Holds (batch :: batches) records) :
    Holds [batch] (records.take batch.numRows) ∧ Holds batches (records.drop batch.numRows) := by
  have length {k : Nat} (bound : k < 5) : (batch.cellsAt k).length = batch.numRows := by
    have inside : k < parquetArrowSchema.length := bound
    have declared : batch.schema[k]? = some parquetArrowSchema[k] := by
      rw [holds.schema batch (by simp)]
      exact List.getElem?_eq_getElem inside
    obtain ⟨c, _, _, cells, rows⟩ := RecordBatch.column_of_field declared
    rw [cells, rows]
  refine ⟨⟨fun b member => holds.schema b (by simp_all), fun k bound => ?_⟩,
    ⟨fun b member => holds.schema b (by simp [member]), fun k bound => ?_⟩⟩
  · have all := holds.cells k bound
    rw [List.flatMap_cons] at all
    rw [List.map_take, ← all, ← length bound, List.take_left]
    simp
  · have all := holds.cells k bound
    rw [List.flatMap_cons] at all
    rw [List.map_drop, ← all, ← length bound, List.drop_left]

theorem readBatches_of_holds (holds : Holds batches records)
    (inRange : ∀ r ∈ records, InRange r) (out : List Record) :
    batches.foldlM (fun out batch => (recordbatchToRecords batch).map (out ++ ·)) out =
      some (out ++ records) := by
  induction batches generalizing records out with
  | nil =>
    have none : records = [] := by simpa using (holds.cells 0 (by omega)).symm
    simp [none]
  | cons batch rest ih =>
    obtain ⟨here, later⟩ := holds.cons
    have first := recordbatchToRecords_of_holds here
      fun r member => inRange r (List.mem_of_mem_take member)
    rw [List.foldlM_cons, first]
    have others := ih later (fun r member => inRange r (List.mem_of_mem_drop member))
      (out ++ records.take batch.numRows)
    simp only [Option.map_some, Option.bind_eq_bind, Option.bind_some, others]
    rw [List.append_assoc, List.take_append_drop]

theorem Holds.rechunked (holds : Holds [written] records)
    (preserved : written.Rechunked read) : Holds read records := by
  refine ⟨fun b member => ?_, fun k bound => ?_⟩
  · rw [preserved.schema b member]
    exact holds.schema written (by simp)
  · rw [preserved.cells k]
    simpa using holds.cells k bound

theorem Holds.append {front back : List Record} (here : Holds [batch] front)
    (later : Holds batches back) : Holds (batch :: batches) (front ++ back) := by
  refine ⟨fun b member => ?_, fun k bound => ?_⟩
  · rcases List.mem_cons.mp member with rfl | other
    · exact here.schema b (by simp)
    · exact later.schema b other
  · have first := here.cells k bound
    rw [List.flatMap_cons, List.flatMap_nil, List.append_nil] at first
    rw [List.flatMap_cons, first, later.cells k bound, List.map_append]

theorem cellsAt_outside (schema : batch.schema = parquetArrowSchema) {k : Nat} (outside : 5 ≤ k) :
    batch.cellsAt k = [] := by
  have width : batch.columns.length = 5 := by
    rw [← List.length_map (f := Column.dataType), batch.types, schema]
    rfl
  rw [RecordBatch.cellsAt, List.getElem?_eq_none_iff.mpr (by omega)]

/-- Batches that say what one batch says are a way to split it. -/
theorem Holds.split (one : Holds [written] records) (many : Holds read records) :
    written.Rechunked read := by
  have schema := one.schema written (by simp)
  refine ⟨fun r member => (many.schema r member).trans schema.symm, fun k => ?_⟩
  by_cases bound : k < 5
  · rw [many.cells k bound, ← one.cells k bound]
    simp
  · rw [cellsAt_outside schema (by omega), List.flatMap_eq_nil_iff]
    exact fun r member => cellsAt_outside (many.schema r member) (by omega)

theorem mapM_recordsToRecordbatch {parts : List (List Record)}
    (keys : (parts.flatten.map (·.key.length)).sum ≤ offsetMax)
    (values : (parts.flatten.map (·.value.length)).sum ≤ offsetMax) :
    ∃ read, parts.mapM recordsToRecordbatch = some read ∧ Holds read parts.flatten := by
  induction parts with
  | nil => exact ⟨[], rfl, by simp, by simp⟩
  | cons part rest ih =>
    rw [List.flatten_cons, List.map_append, List.sum_append] at keys values
    obtain ⟨batch, made⟩ := Option.isSome_iff_exists.mp
      (recordsToRecordbatch_isSome_iff.mpr ⟨show (part.map _).sum ≤ _ by omega, by omega⟩)
    obtain ⟨read, others, later⟩ := ih (by omega) (by omega)
    refine ⟨batch :: read, ?_, (recordsToRecordbatch_holds made).append later⟩
    rw [List.mapM_cons, made, others]
    rfl

end Decode

/-- Records whose keys and values fit the columns come back as they were, however a reader splits
the rows; the columns of any parts of the list are one way to split them. -/
theorem segment_round_trip {records : List Record} (inRange : ∀ r ∈ records, InRange r)
    (keys : (records.map (·.key.length)).sum ≤ offsetMax)
    (values : (records.map (·.value.length)).sum ≤ offsetMax) :
    ∃ batch, recordsToRecordbatch records = some batch ∧
      (∀ read, batch.Rechunked read → readBatches read = some records) ∧
      ∀ parts : List (List Record), parts.flatten = records →
        ∃ read, parts.mapM recordsToRecordbatch = some read ∧ batch.Rechunked read := by
  obtain ⟨batch, made⟩ := Option.isSome_iff_exists.mp
    (recordsToRecordbatch_isSome_iff.mpr ⟨keys, values⟩)
  have holds := recordsToRecordbatch_holds made
  refine ⟨batch, made, fun read preserved => ?_, fun parts joined => ?_⟩
  · exact readBatches_of_holds (holds.rechunked preserved) inRange []
  · subst joined
    obtain ⟨read, encoded, many⟩ := mapM_recordsToRecordbatch keys values
    exact ⟨read, encoded, holds.split many⟩

/-- A schema id above the signed range, a negative offset and a record with neither key nor
value, read in two batches. -/
theorem segment_round_trip_extremes :
    let first : Record := ⟨-1, -5, 4294967295, [], []⟩
    let second : Record := ⟨2 ^ 63 - 1, 7, 2147483648, [1, 2], [3]⟩
    ∃ batch read, recordsToRecordbatch [first, second] = some batch ∧
      [[first], [second]].mapM recordsToRecordbatch = some read ∧
      readBatches read = some [first, second] := by
  intro first second
  obtain ⟨batch, made, reads, splits⟩ := @segment_round_trip [first, second]
    (by simp [InRange, first, second]) (by decide) (by decide)
  obtain ⟨read, encoded, preserved⟩ := splits [[first], [second]] rfl
  exact ⟨batch, read, made, encoded, reads read preserved⟩

end Kafkrs.SegmentColumns

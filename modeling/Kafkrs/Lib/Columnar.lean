import Kafkrs.Lib.Bytes
import Mathlib.Data.List.Induction

/-! Columnar arrays in the Arrow layout: a variable-size column is one run of bytes with 32-bit
offsets into it, a batch is a list of columns of one length that match a schema. -/
namespace Lib.Columnar

/-- A list is read back by its positions. -/
theorem mapM_range {α : Type} {f : Nat → Option α} {xs : List α}
    (reads : ∀ i x, xs[i]? = some x → f i = some x) :
    (List.range xs.length).mapM f = some xs := by
  induction xs using List.reverseRecOn with
  | nil => rfl
  | append_singleton xs x ih =>
    have front := ih fun i y found => reads i y (by
      rw [List.getElem?_append_left (List.getElem?_eq_some_iff.mp found).1, found])
    have last := reads xs.length x (by simp)
    rw [List.length_append, List.length_singleton, List.range_succ, List.mapM_append, front,
      List.mapM_cons, last]
    rfl

def offsetMax : Nat := 2 ^ 31 - 1

/-- Slot `i` holds the bytes from offset `i` to offset `i + 1`. -/
structure BinaryArray where
  offsets : List Nat
  bytes : Bytes
  valid : List Bool
  slots : offsets.length = valid.length + 1
  within : ∀ o ∈ offsets, o ≤ bytes.length
  fits : ∀ o ∈ offsets, o ≤ offsetMax

namespace BinaryArray

def length (a : BinaryArray) : Nat := a.valid.length

/-- The bytes of a slot, also those of a null one; nothing out of bounds. -/
def value (a : BinaryArray) (i : Nat) : Option Bytes :=
  match a.offsets[i]?, a.offsets[i + 1]? with
  | some start, some stop => some ((a.bytes.take stop).drop start)
  | _, _ => none

def isNull (a : BinaryArray) (i : Nat) : Option Bool := a.valid[i]?.map (!·)

def cell (a : BinaryArray) (i : Nat) : Option Bytes :=
  if a.valid[i]? = some true then a.value i else none

def cells (a : BinaryArray) : List (Option Bytes) := (List.range a.length).map a.cell

@[simp] theorem cells_length (a : BinaryArray) : a.cells.length = a.length := by simp [cells]

theorem value_isSome (a : BinaryArray) {i : Nat} (inside : i < a.length) :
    ∃ v, a.value i = some v := by
  have slots := a.slots
  unfold length at inside
  have first : a.offsets[i]? = some a.offsets[i] := List.getElem?_eq_getElem (by omega)
  have second : a.offsets[i + 1]? = some a.offsets[i + 1] := List.getElem?_eq_getElem (by omega)
  simp [value, first, second]

theorem read_value {a : BinaryArray} {i : Nat} {v : Bytes} (here : a.cells[i]? = some (some v)) :
    a.isNull i = some false ∧ a.value i = some v := by
  obtain ⟨_, held⟩ := List.getElem?_eq_some_iff.mp here
  simp only [cells, List.getElem_map, List.getElem_range, cell] at held
  by_cases present : a.valid[i]? = some true
  · rw [if_pos present] at held
    exact ⟨by simp [isNull, present], held⟩
  · rw [if_neg present] at held
    cases held

theorem read_null {a : BinaryArray} {i : Nat} (here : a.cells[i]? = some none) :
    a.isNull i = some true := by
  obtain ⟨inside, held⟩ := List.getElem?_eq_some_iff.mp here
  rw [cells_length] at inside
  simp only [cells, List.getElem_map, List.getElem_range, cell] at held
  obtain ⟨v, present⟩ := a.value_isSome inside
  cases marked : a.valid[i]? with
  | none => simp [length] at inside; simp at marked; omega
  | some mark =>
    cases mark with
    | true => simp [marked, present] at held
    | false => simp [isNull, marked]

end BinaryArray

/-- An array under construction ends where its bytes do. -/
structure BinaryBuilder extends BinaryArray where
  closed : offsets.getLast? = some bytes.length

namespace BinaryBuilder

def new : BinaryBuilder where
  offsets := [0]
  bytes := []
  valid := []
  slots := rfl
  within := by simp
  fits := by simp
  closed := rfl

/-- Fails when the next offset does not fit. -/
def appendValue (b : BinaryBuilder) (v : Bytes) : Option BinaryBuilder :=
  if room : b.bytes.length + v.length ≤ offsetMax then some {
    offsets := b.offsets ++ [b.bytes.length + v.length]
    bytes := b.bytes ++ v
    valid := b.valid ++ [true]
    slots := by simp [b.slots]
    within := by
      intro o member
      rw [List.length_append]
      rcases List.mem_append.mp member with old | last
      · have := b.within o old
        omega
      · rw [List.mem_singleton.mp last]
    fits := by
      intro o member
      rcases List.mem_append.mp member with old | last
      · exact b.fits o old
      · rwa [List.mem_singleton.mp last]
    closed := by simp }
  else none

def appendNull (b : BinaryBuilder) : BinaryBuilder where
  offsets := b.offsets ++ [b.bytes.length]
  bytes := b.bytes
  valid := b.valid ++ [false]
  slots := by simp [b.slots]
  within := by
    intro o member
    rcases List.mem_append.mp member with old | last
    · exact b.within o old
    · rw [List.mem_singleton.mp last]
  fits := by
    intro o member
    rcases List.mem_append.mp member with old | last
    · exact b.fits o old
    · rw [List.mem_singleton.mp last]
      exact b.fits _ (List.mem_of_getLast? b.closed)
  closed := by simp

def finish (b : BinaryBuilder) : BinaryArray := b.toBinaryArray

@[simp] theorem finish_cells (b : BinaryBuilder) : b.finish.cells = b.cells := rfl

@[simp] theorem new_cells : new.cells = [] := rfl

def append (b : BinaryBuilder) : Option Bytes → Option BinaryBuilder
  | some v => b.appendValue v
  | none => some b.appendNull

/-- Later offsets and bytes leave a slot as it is. -/
theorem cell_append {b : BinaryBuilder} {a : BinaryArray} {stop : Nat} {more : Bytes} {mark : Bool}
    (offsets : a.offsets = b.offsets ++ [stop]) (bytes : a.bytes = b.bytes ++ more)
    (valid : a.valid = b.valid ++ [mark]) {i : Nat} (inside : i < b.length) :
    a.cell i = b.cell i := by
  have slots := b.slots
  unfold BinaryArray.length at inside
  have first : a.offsets[i]? = b.offsets[i]? := by
    rw [offsets, List.getElem?_append_left (by omega)]
  have second : a.offsets[i + 1]? = b.offsets[i + 1]? := by
    rw [offsets, List.getElem?_append_left (by omega)]
  have marks : a.valid[i]? = b.valid[i]? := by rw [valid, List.getElem?_append_left inside]
  have found : b.offsets[i + 1]? = some b.offsets[i + 1] := List.getElem?_eq_getElem (by omega)
  have bound : b.offsets[i + 1] ≤ b.bytes.length := b.within _ (List.getElem_mem _)
  have slice : (b.bytes ++ more).take b.offsets[i + 1] = b.bytes.take b.offsets[i + 1] :=
    List.take_append_of_le_length bound
  unfold BinaryArray.cell BinaryArray.value
  rw [marks, first, second, found, bytes]
  cases b.offsets[i]? with
  | none => rfl
  | some start => simp only [slice]

/-- The slot that an append adds. -/
theorem cells_append {b : BinaryBuilder} {a : BinaryArray} {stop : Nat} {more : Bytes} {mark : Bool}
    (offsets : a.offsets = b.offsets ++ [stop]) (bytes : a.bytes = b.bytes ++ more)
    (valid : a.valid = b.valid ++ [mark]) :
    a.cells = b.cells ++ [a.cell b.length] := by
  have grown : a.length = b.length + 1 := by simp [BinaryArray.length, valid]
  rw [BinaryArray.cells, grown, List.range_succ, List.map_append, BinaryArray.cells]
  congr 1
  refine List.map_congr_left fun i member => ?_
  exact cell_append offsets bytes valid (List.mem_range.mp member)

theorem append_cells {b next : BinaryBuilder} {cell : Option Bytes}
    (appended : b.append cell = some next) : next.cells = b.cells ++ [cell] := by
  have slots := b.slots
  cases cell with
  | some v =>
    simp only [append, appendValue] at appended
    split at appended
    next room =>
      rw [← Option.some.inj appended]
      rw [cells_append (b := b) rfl rfl rfl]
      have last : b.offsets[b.length]? = some b.bytes.length := by
        rw [← b.closed, List.getLast?_eq_getElem?, slots]
        rfl
      have first : (b.offsets ++ [b.bytes.length + v.length])[b.length]? = some b.bytes.length := by
        rw [List.getElem?_append_left (by rw [slots]; exact Nat.lt_succ_self _), last]
      have second : (b.offsets ++ [b.bytes.length + v.length])[b.length + 1]? =
          some (b.bytes.length + v.length) := by
        rw [List.getElem?_append_right (by rw [slots]; exact le_refl _), slots]
        simp [BinaryArray.length]
      have mark : (b.valid ++ [true])[b.length]? = some true := by simp [BinaryArray.length]
      simp only [BinaryArray.cell, BinaryArray.value, first, second, mark, ↓reduceIte]
      rw [List.take_of_length_le (by simp), List.drop_left]
    · cases appended
  | none =>
    rw [← Option.some.inj appended]
    have bytes : b.appendNull.bytes = b.bytes ++ [] := (List.append_nil b.bytes).symm
    rw [cells_append (b := b) rfl bytes rfl]
    simp [BinaryArray.cell, appendNull, BinaryArray.length]

def total (cells : List (Option Bytes)) : Nat := (cells.map (fun c => (c.getD []).length)).sum

theorem append_bytes {b next : BinaryBuilder} {cell : Option Bytes}
    (appended : b.append cell = some next) :
    next.bytes.length = b.bytes.length + (cell.getD []).length := by
  cases cell with
  | some v =>
    simp only [append, appendValue] at appended
    split at appended
    · rw [← Option.some.inj appended]
      simp
    · cases appended
  | none =>
    rw [← Option.some.inj appended]
    simp [appendNull]

/-- Building a column fails exactly when its bytes outgrow the offsets. -/
theorem appendAll_isSome_iff {cells : List (Option Bytes)} {b : BinaryBuilder} :
    (cells.foldlM append b).isSome ↔ b.bytes.length + total cells ≤ offsetMax := by
  induction cells generalizing b with
  | nil => simpa [total] using b.fits _ (List.mem_of_getLast? b.closed)
  | cons cell rest ih =>
    have sum : total (cell :: rest) = (cell.getD []).length + total rest := by simp [total]
    rw [List.foldlM_cons, sum]
    cases appended : b.append cell with
    | some next =>
      have size := append_bytes appended
      simp only [Option.bind_eq_bind, Option.bind_some, ih, size]
      omega
    | none =>
      have full : ¬ b.bytes.length + (cell.getD []).length ≤ offsetMax := by
        cases cell with
        | some v => simpa [append, appendValue] using appended
        | none => cases appended
      simp
      omega

theorem appendAll_cells {cells : List (Option Bytes)} {b last : BinaryBuilder}
    (built : cells.foldlM append b = some last) : last.cells = b.cells ++ cells := by
  induction cells generalizing b with
  | nil =>
    obtain rfl : b = last := Option.some.inj built
    simp
  | cons cell rest ih =>
    rw [List.foldlM_cons] at built
    obtain ⟨next, appended, built⟩ := Option.bind_eq_some_iff.mp built
    rw [ih built, append_cells appended]
    simp

end BinaryBuilder
inductive DataType where
  | int64
  | timestampNs (timezone : Option String)
  | binary
  | int32
  deriving DecidableEq, Repr

structure Field where
  name : String
  dataType : DataType
  nullable : Bool
  deriving DecidableEq, Repr

/-- Fixed-width columns are built from plain vectors and hold no nulls. -/
inductive Column where
  | int64 (values : List Int64)
  | timestampNs (timezone : Option String) (values : List Int64)
  | binary (array : BinaryArray)
  | int32 (values : List Int32)

inductive Cell where
  | int64 (x : Int64)
  | bytes (v : Bytes)
  | int32 (x : Int32)
  | null
  deriving DecidableEq, Repr

def Cell.ofBytes : Option Bytes → Cell
  | some v => .bytes v
  | none => .null

theorem Cell.ofBytes_injective : Function.Injective Cell.ofBytes := by
  rintro (_ | v) (_ | w) same
  · rfl
  · cases same
  · cases same
  · rw [Cell.bytes.inj same]

namespace Column

def dataType : Column → DataType
  | int64 _ => .int64
  | timestampNs timezone _ => .timestampNs timezone
  | binary _ => .binary
  | int32 _ => .int32

def length : Column → Nat
  | int64 values => values.length
  | timestampNs _ values => values.length
  | binary array => array.length
  | int32 values => values.length

def cells : Column → List Cell
  | int64 values => values.map .int64
  | timestampNs _ values => values.map .int64
  | binary array => array.cells.map .ofBytes
  | int32 values => values.map .int32

theorem cells_length (c : Column) : c.cells.length = c.length := by
  cases c with
  | int64 values => simp [cells, length]
  | timestampNs timezone values => simp [cells, length]
  | binary array => simp [cells, length]
  | int32 values => simp [cells, length]

def asInt64 : Column → Option (List Int64)
  | int64 values => some values
  | _ => none

def asTimestampNs : Column → Option (List Int64)
  | timestampNs _ values => some values
  | _ => none

def asBinary : Column → Option BinaryArray
  | binary array => some array
  | _ => none

def asInt32 : Column → Option (List Int32)
  | int32 values => some values
  | _ => none

theorem asInt64_of_type {c : Column} (type : c.dataType = .int64) :
    ∃ values, c.asInt64 = some values ∧ c.cells = values.map .int64 := by
  cases c with
  | int64 values => exact ⟨values, rfl, rfl⟩
  | _ => cases type

theorem asTimestampNs_of_type {c : Column} {timezone : Option String}
    (type : c.dataType = .timestampNs timezone) :
    ∃ values, c.asTimestampNs = some values ∧ c.cells = values.map .int64 := by
  cases c with
  | timestampNs _ values => exact ⟨values, rfl, rfl⟩
  | _ => cases type

theorem asBinary_of_type {c : Column} (type : c.dataType = .binary) :
    ∃ array, c.asBinary = some array ∧ c.cells = array.cells.map .ofBytes := by
  cases c with
  | binary array => exact ⟨array, rfl, rfl⟩
  | _ => cases type

theorem asInt32_of_type {c : Column} (type : c.dataType = .int32) :
    ∃ values, c.asInt32 = some values ∧ c.cells = values.map .int32 := by
  cases c with
  | int32 values => exact ⟨values, rfl, rfl⟩
  | _ => cases type

end Column

structure RecordBatch where
  schema : List Field
  columns : List Column
  numRows : Nat
  types : columns.map Column.dataType = schema.map Field.dataType
  nulls : ∀ p ∈ schema.zip columns, p.1.nullable = false → Cell.null ∉ p.2.cells
  rows : ∀ c ∈ columns, c.length = numRows

namespace RecordBatch

/-- Fails unless the columns match the schema and have one length. -/
def tryNew (schema : List Field) (columns : List Column) : Option RecordBatch := do
  let first ← columns.head?
  if valid : columns.map Column.dataType = schema.map Field.dataType ∧
      (∀ p ∈ schema.zip columns, p.1.nullable = false → Cell.null ∉ p.2.cells) ∧
      ∀ c ∈ columns, c.length = first.length
  then some ⟨schema, columns, first.length, valid.1, valid.2.1, valid.2.2⟩
  else none

theorem tryNew_of_valid {schema : List Field} {first : Column} {rest : List Column}
    (types : (first :: rest).map Column.dataType = schema.map Field.dataType)
    (nulls : ∀ p ∈ schema.zip (first :: rest), p.1.nullable = false → Cell.null ∉ p.2.cells)
    (rows : ∀ c ∈ first :: rest, c.length = first.length) :
    ∃ batch, tryNew schema (first :: rest) = some batch ∧ batch.schema = schema ∧
      batch.columns = first :: rest := by
  refine ⟨⟨schema, first :: rest, first.length, types, nulls, rows⟩, ?_, rfl, rfl⟩
  simp only [tryNew, List.head?_cons, Option.bind_eq_bind, Option.bind_some]
  exact dif_pos ⟨types, nulls, rows⟩

def cellsAt (batch : RecordBatch) (k : Nat) : List Cell :=
  match batch.columns[k]? with
  | some c => c.cells
  | none => []

/-- `read` holds the rows of `written`, split into consecutive batches in some way. -/
structure Rechunked (written : RecordBatch) (read : List RecordBatch) : Prop where
  schema : ∀ r ∈ read, r.schema = written.schema
  cells : ∀ k, read.flatMap (·.cellsAt k) = written.cellsAt k

/-- A field of the schema has its column. -/
theorem column_of_field {batch : RecordBatch} {k : Nat} {f : Field}
    (declared : batch.schema[k]? = some f) : ∃ c, batch.columns[k]? = some c ∧
      c.dataType = f.dataType ∧ batch.cellsAt k = c.cells ∧ c.cells.length = batch.numRows := by
  have type : (batch.columns.map Column.dataType)[k]? = some f.dataType := by
    rw [batch.types, List.getElem?_map, declared]
    rfl
  rw [List.getElem?_map] at type
  obtain ⟨c, here, same⟩ := Option.map_eq_some_iff.mp type
  refine ⟨c, here, same, by simp [cellsAt, here], ?_⟩
  rw [c.cells_length]
  exact batch.rows c (List.mem_of_getElem? here)

end RecordBatch

end Lib.Columnar

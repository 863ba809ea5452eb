import FrogAgent.Lib.LittleEndian
import Mathlib.Algebra.BigOperators.Group.List.Basic
import Mathlib.Data.List.Forall2

/-!
# Tables of little-endian records

A record is a row of unsigned numbers, each in a field of its own width, without padding;
a table is one record after the other.  Cutting a buffer into records and reading their
fields gives back the rows that were written, whatever stands behind them.
-/

namespace FrogAgent.Records

open FrogAgent.LittleEndian

section Chunks

variable {α β : Type*} {size : ℕ} {encode : β → List α}

/-- `count` runs of `size` cells from the front of a buffer. -/
def chunks (size : ℕ) : ℕ → List α → List (List α)
  | 0, _ => []
  | count + 1, buffer => buffer.take size :: chunks size count (buffer.drop size)

/-- Items written one after the other are cut apart again. -/
theorem chunks_flatMap {items : List β} (hsize : ∀ item ∈ items, (encode item).length = size)
    (rest : List α) :
    chunks size items.length (items.flatMap encode ++ rest) = items.map encode := by
  induction items with
  | nil => rfl
  | cons item items ih =>
      have hitem : (encode item).length = size := hsize item List.mem_cons_self
      have hitems := ih fun other hother => hsize other (List.mem_cons_of_mem _ hother)
      rw [List.length_cons, chunks, List.flatMap_cons, List.append_assoc,
        List.take_left' hitem, List.drop_left' hitem, hitems, List.map_cons]

end Chunks

/-- A record: the bytes of its fields in order. -/
def encode : List ℕ → List ℕ → List UInt8
  | width :: widths, value :: values => leBytes width value ++ encode widths values
  | _, _ => []

/-- The fields of the record at the front of a buffer. -/
def decode : List ℕ → List UInt8 → List ℕ
  | [], _ => []
  | width :: widths, bytes => leValue (bytes.take width) :: decode widths (bytes.drop width)

/-- There is a value for every field, and it fits. -/
def Fits (widths values : List ℕ) : Prop :=
  List.Forall₂ (fun width value => value < 256 ^ width) widths values

variable {widths values : List ℕ} {rows : List (List ℕ)}

theorem length_encode (hfits : Fits widths values) :
    (encode widths values).length = widths.sum := by
  induction hfits with
  | nil => rfl
  | cons _ _ ih => rw [encode, List.length_append, length_leBytes, ih, List.sum_cons]

theorem decode_encode (hfits : Fits widths values) (rest : List UInt8) :
    decode widths (encode widths values ++ rest) = values := by
  induction hfits with
  | nil => rfl
  | cons hvalue _ ih =>
      rw [encode, decode, List.append_assoc, List.take_left' (length_leBytes _ _),
        List.drop_left' (length_leBytes _ _), leValue_leBytes hvalue, ih]

/-- The first `count` rows of the table at the front of a buffer. -/
def table (widths : List ℕ) (count : ℕ) (buffer : List UInt8) : List (List ℕ) :=
  (chunks widths.sum count buffer).map (decode widths)

theorem length_flatMap_encode (hfits : ∀ row ∈ rows, Fits widths row) :
    (rows.flatMap (encode widths)).length = rows.length * widths.sum := by
  induction rows with
  | nil => rw [List.flatMap_nil, List.length_nil, List.length_nil, Nat.zero_mul]
  | cons row rows ih =>
      have hrows := ih fun other hother => hfits other (List.mem_cons_of_mem _ hother)
      rw [List.flatMap_cons, List.length_append, length_encode (hfits row List.mem_cons_self),
        hrows, List.length_cons, Nat.add_mul, Nat.one_mul, Nat.add_comm]

/-- The rows of a table read back. -/
theorem table_flatMap (hfits : ∀ row ∈ rows, Fits widths row) (rest : List UInt8) :
    table widths rows.length (rows.flatMap (encode widths) ++ rest) = rows := by
  have hcut : chunks widths.sum rows.length (rows.flatMap (encode widths) ++ rest) =
      rows.map (encode widths) :=
    chunks_flatMap (fun row hrow => length_encode (hfits row hrow)) rest
  rw [table, hcut, List.map_map]
  calc rows.map (decode widths ∘ encode widths) = rows.map id := by
        apply List.map_congr_left
        intro row hrow
        have hrow := decode_encode (hfits row hrow) []
        rwa [List.append_nil] at hrow
    _ = rows := List.map_id rows

end FrogAgent.Records

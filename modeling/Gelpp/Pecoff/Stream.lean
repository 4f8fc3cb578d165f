import Gelpp.Outcome
import Gelpp.Library.ByteOrder
import Gelpp.Library.Effect

namespace Gelpp.Pecoff

open Effect

-- `fails` tells which operations on the stream fail, by their number.
structure Stream where
  bytes : List UInt8
  pos : Nat := 0
  fails : Nat → Bool := fun _ => false
  count : Nat := 0
  lastErrorMessage : String := ""

abbrev StreamM (α : Type) := Effect Stop Stream α

def cell (mem : List UInt8) (off width : Nat) : List UInt8 := (mem.drop off).take width

-- swap is empty: with ENDIANNESS_BIG, which a big-endian host sets, the source is not well formed.
def u16At (mem : List UInt8) (off : Nat) : UInt16 := .ofNat (ByteOrder.little.value (cell mem off 2))
def u32At (mem : List UInt8) (off : Nat) : UInt32 := .ofNat (ByteOrder.little.value (cell mem off 4))
def u64At (mem : List UInt8) (off : Nat) : UInt64 := .ofNat (ByteOrder.little.value (cell mem off 8))

namespace Stream

def tick : StreamM Bool := do
  let s ← get
  modify fun s => { s with count := s.count + 1 }
  return s.fails s.count

def moveTo (offset : Nat) : StreamM Bool := do
  let failed ← tick
  if failed then return false
  else
    modify fun s => { s with pos := offset }
    return true

def moveBackward (n : Nat) : StreamM Bool := do
  let s ← get
  let failed ← tick
  if failed ∨ s.pos < n then return false
  else
    modify fun s => { s with pos := s.pos - n }
    return true

def read (mem : List UInt8) (len : Int) : StreamM (Int × List UInt8) := do
  let s ← get
  let failed ← tick
  if failed then return (-1, mem)
  else
    let data := InStream.delivered s.bytes s.pos len
    if mem.length < data.length then raise (.fault .bounds)
    else
      modify fun s => { s with pos := s.pos + data.length }
      return (InStream.answer data, data ++ mem.drop data.length)

end Stream

def ioError (s : Stream) : Stop := .exception ("IO error: " ++ s.lastErrorMessage)

def formatError (len r : Int) : Stop :=
  .exception ("format error, requested " ++ toString len ++ " bytes, got " ++ toString r ++ " bytes")

-- The memory is written even when the exception is thrown.
def read (mem : List UInt8) (len : Int) : StreamM (Res Unit × List UInt8) := do
  let (r, mem) ← Stream.read mem len
  let s ← get
  if r < 0 then return (.error (ioError s), mem)
  else if r ≠ len then return (.error (formatError len r), mem)
  else return (.ok (), mem)

def move (offset : Nat) : StreamM Unit := do
  let moved ← Stream.moveTo offset
  let s ← get
  if moved then return () else raise (ioError s)

def readRecord (size : Nat) : StreamM (List UInt8) := do
  let (r, mem) ← read (.replicate size 0) size
  lift r
  return mem

def records {α : Type} (decode : List UInt8 → α) (size count : Nat) (mem : List UInt8) : List α :=
  (List.range count).map fun i => decode (cell mem (i * size) size)

def allocate (junk : Nat → UInt8) (n : Nat) : Res (List UInt8) :=
  if n < 2 ^ 63 then .ok ((List.range n).map junk) else .error .badAlloc

-- new record_t[count], filled by one read.
def readRecords {α : Type} (junk : Nat → UInt8) (decode : List UInt8 → α) (size count : Nat) :
    StreamM (List α) := do
  let mem ← lift (allocate junk (size * count))
  let (r, mem) ← read mem (toInt (size * count))
  lift r
  return records decode size count mem

section
variable {s : Stream}

def Stream.Calm (s : Stream) : Prop := s.fails = fun _ => false

def Stream.moved (s : Stream) (pos k : Nat) : Stream := { s with pos, count := s.count + k }

theorem Stream.Calm.moved (h : s.Calm) (pos k : Nat) : (s.moved pos k).Calm := h

@[simp] theorem moved_bytes (pos k : Nat) : (s.moved pos k).bytes = s.bytes := rfl
@[simp] theorem moved_pos (pos k : Nat) : (s.moved pos k).pos = pos := rfl
@[simp] theorem moved_moved (pos k pos' k' : Nat) :
    (s.moved pos k).moved pos' k' = s.moved pos' (k + k') := by
  simp only [Stream.moved, Nat.add_assoc]

theorem cell_length {mem : List UInt8} {off width : Nat} (h : off + width ≤ mem.length) :
    (cell mem off width).length = width := by
  rw [cell, List.length_take, List.length_drop]
  omega

theorem cell_cell {mem : List UInt8} {off width off' width' : Nat} (h : off' + width' ≤ width) :
    cell (cell mem off width) off' width' = cell mem (off + off') width' := by
  rw [cell, cell, cell, List.drop_take, List.take_take, List.drop_drop, Nat.min_eq_left (by omega)]

theorem cell_all (mem : List UInt8) : cell mem 0 mem.length = mem := by
  rw [cell, List.drop_zero, List.take_length]

theorem cell_append {mem : List UInt8} {off m n : Nat} :
    cell mem off (m + n) = cell mem off m ++ cell mem (off + m) n := by
  rw [cell, cell, cell, List.take_add, List.drop_drop]

theorem tick_eq (s : Stream) : Stream.tick.run s = (.ok (s.fails s.count), s.moved s.pos 1) := rfl

theorem Stream.Calm.served (h : s.Calm) : s.fails s.count = false := congrFun h s.count

theorem tick_served (h : s.fails s.count = false) :
    Stream.tick.run s = (.ok false, s.moved s.pos 1) := by
  rw [tick_eq, h]

theorem moveTo_served (h : s.fails s.count = false) (offset : Nat) :
    (Stream.moveTo offset).run s = (.ok true, s.moved offset 1) := by
  rw [Stream.moveTo, bind_of_ok (tick_served h)]
  rfl

theorem moveTo_failed (h : s.fails s.count = true) (offset : Nat) :
    (Stream.moveTo offset).run s = (.ok false, s.moved s.pos 1) := by
  rw [Stream.moveTo, bind_of_ok (tick_eq s), h]
  rfl

theorem moveBackward_calm (h : s.Calm) {n : Nat} (hn : n ≤ s.pos) :
    (Stream.moveBackward n).run s = (.ok true, s.moved (s.pos - n) 1) := by
  rw [Stream.moveBackward, get_bind, bind_of_ok (tick_served h.served), if_neg (by simpa using hn)]
  rfl

theorem move_calm (h : s.Calm) (offset : Nat) : (move offset).run s = (.ok (), s.moved offset 1) := by
  rw [move, bind_of_ok (moveTo_served h.served offset)]
  rfl

theorem streamRead_fits (h : s.fails s.count = false) {mem : List UInt8} {len : Int}
    (hmem : (InStream.delivered s.bytes s.pos len).length ≤ mem.length) :
    (Stream.read mem len).run s =
      (.ok (InStream.answer (InStream.delivered s.bytes s.pos len),
        InStream.delivered s.bytes s.pos len ++
          mem.drop (InStream.delivered s.bytes s.pos len).length),
        s.moved (s.pos + (InStream.delivered s.bytes s.pos len).length) 1) := by
  rw [Stream.read, get_bind, bind_of_ok (tick_served h), if_neg (by simp)]
  dsimp only
  rw [if_neg (Nat.not_lt.mpr hmem)]
  rfl

theorem streamRead_failed (h : s.fails s.count = true) (mem : List UInt8) (len : Int) :
    (Stream.read mem len).run s = (.ok (-1, mem), s.moved s.pos 1) := by
  rw [Stream.read, get_bind, bind_of_ok (tick_eq s), if_pos h]
  rfl

theorem read_long (h : s.fails s.count = false) {mem : List UInt8} {len : Int}
    (hmem : mem.length < (InStream.delivered s.bytes s.pos len).length) :
    (read mem len).run s = (.error (.fault .bounds), s.moved s.pos 1) := by
  have hread : (Stream.read mem len).run s = (.error (.fault .bounds), s.moved s.pos 1) := by
    rw [Stream.read, get_bind, bind_of_ok (tick_served h), if_neg (by simp)]
    dsimp only
    rw [if_pos hmem]
    rfl
  rw [read]
  exact bind_of_error hread

theorem delivered_toInt {bytes : List UInt8} {pos n : Nat} (h : n < 2 ^ 32) :
    InStream.delivered bytes pos (toInt n) = cell bytes pos n := by
  rw [InStream.delivered, count_toInt, Nat.mod_eq_of_lt h, cell]

theorem delivered_small {bytes : List UInt8} {pos len : Nat} (h : len < 2 ^ 32) :
    InStream.delivered bytes pos len = cell bytes pos len := by
  rw [InStream.delivered, count_small h, cell]

theorem read_served (h : s.fails s.count = false) {mem : List UInt8} {len : Nat}
    (hsize : len < 2 ^ 31) (hmem : len ≤ mem.length) (hbytes : s.pos + len ≤ s.bytes.length) :
    (read mem len).run s =
      (.ok (.ok (), cell s.bytes s.pos len ++ mem.drop len), s.moved (s.pos + len) 1) := by
  have hlen : (cell s.bytes s.pos len).length = len := cell_length hbytes
  have hdata : InStream.delivered s.bytes s.pos len = cell s.bytes s.pos len :=
    delivered_small (by omega)
  have hread : (Stream.read mem len).run s = _ :=
    streamRead_fits h (by rw [hdata, hlen]; exact hmem)
  rw [hdata, InStream.answer, hlen, toInt_small hsize] at hread
  rw [read, bind_of_ok hread]
  dsimp only
  rw [get_bind, if_neg (by omega), if_neg (by simp)]
  rfl

theorem readRecord_served (h : s.fails s.count = false) {size : Nat} (hsize : size < 2 ^ 31)
    (hbytes : s.pos + size ≤ s.bytes.length) :
    (readRecord size).run s = (.ok (cell s.bytes s.pos size), s.moved (s.pos + size) 1) := by
  have hlen : (List.replicate size (0 : UInt8)).length = size := List.length_replicate
  rw [readRecord, bind_of_ok (read_served h hsize (Nat.le_of_eq hlen.symm) hbytes)]
  dsimp only
  rw [List.drop_eq_nil_of_le (Nat.le_of_eq hlen), List.append_nil]
  rfl

theorem readRecord_calm (h : s.Calm) {size : Nat} (hsize : size < 2 ^ 31)
    (hbytes : s.pos + size ≤ s.bytes.length) :
    (readRecord size).run s = (.ok (cell s.bytes s.pos size), s.moved (s.pos + size) 1) :=
  readRecord_served h.served hsize hbytes

theorem readRecords_calm {α : Type} (h : s.Calm) (junk : Nat → UInt8) (decode : List UInt8 → α)
    {size count : Nat} (hsize : size * count < 2 ^ 31)
    (hbytes : s.pos + size * count ≤ s.bytes.length) :
    (readRecords junk decode size count).run s =
      (.ok (records decode size count (cell s.bytes s.pos (size * count))),
        s.moved (s.pos + size * count) 1) := by
  have hlen : ((List.range (size * count)).map junk).length = size * count := by
    rw [List.length_map, List.length_range]
  rw [readRecords, allocate, if_pos (by omega), lift_ok_bind, toInt_small hsize,
    bind_of_ok (read_served h.served hsize (Nat.le_of_eq hlen.symm) hbytes)]
  dsimp only
  rw [List.drop_eq_nil_of_le (Nat.le_of_eq hlen), List.append_nil]
  rfl

theorem records_cell {α : Type} (decode : List UInt8 → α) {mem : List UInt8} {size count pos : Nat} :
    records decode size count (cell mem pos (size * count)) =
      (List.range count).map fun i => decode (cell mem (pos + i * size) size) := by
  rw [records]
  apply List.map_congr_left
  intro i hi
  have hlt := List.mem_range.mp hi
  rw [cell_cell]
  calc i * size + size = (i + 1) * size := (Nat.succ_mul i size).symm
    _ ≤ count * size := Nat.mul_le_mul_right size hlt
    _ = size * count := Nat.mul_comm count size

end

end Gelpp.Pecoff

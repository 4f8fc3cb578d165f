import Gelpp.Writer
import Gelpp.Consume
import Gelpp.Elf.Endian

namespace Gelpp

inductive Kind where
  | u8
  | i8
  | u16
  | i16
  | u32
  | i32
  | u64
  | i64
  | text
  deriving DecidableEq, Repr

inductive Item where
  | u8 (v : UInt8)
  | i8 (v : Int8)
  | u16 (v : UInt16)
  | i16 (v : Int16)
  | u32 (v : UInt32)
  | i32 (v : Int32)
  | u64 (v : UInt64)
  | i64 (v : Int64)
  | text (s : List UInt8)
  deriving DecidableEq

namespace Item

def kind : Item → Kind
  | u8 _ => .u8
  | i8 _ => .i8
  | u16 _ => .u16
  | i16 _ => .i16
  | u32 _ => .u32
  | i32 _ => .i32
  | u64 _ => .u64
  | i64 _ => .i64
  | text _ => .text

def bytes (host : ByteOrder) : Item → List UInt8
  | u8 v => [v]
  | i8 v => [v.toUInt8]
  | u16 v => host.bytes 2 v.toNat
  | i16 v => host.bytes 2 v.toUInt16.toNat
  | u32 v => host.bytes 4 v.toNat
  | i32 v => host.bytes 4 v.toUInt32.toNat
  | u64 v => host.bytes 8 v.toNat
  | i64 v => host.bytes 8 v.toUInt64.toNat
  | text s => s ++ [0]

def size : Item → Nat
  | u8 _ => 1
  | i8 _ => 1
  | u16 _ => 2
  | i16 _ => 2
  | u32 _ => 4
  | i32 _ => 4
  | u64 _ => 8
  | i64 _ => 8
  | text s => s.length + 1

def advance : Item → Nat
  | text s => s.length
  | x => x.size

@[simp] theorem bytes_length (host : ByteOrder) (x : Item) : (x.bytes host).length = x.size := by
  cases x <;> simp [bytes, size]

theorem advance_le (x : Item) : x.advance ≤ x.size := by
  cases x <;> simp [advance, size]

theorem advance_le_bytes (host : ByteOrder) (x : Item) : x.advance ≤ (x.bytes host).length := by
  rw [bytes_length]
  exact x.advance_le

def Survives (d : Decoder) : Item → Prop
  | u8 _ => True
  | i8 _ => True
  | u16 v => d.fix16 v = v
  | i16 v => d.fix16 v.toUInt16 = v.toUInt16
  | u32 v => d.fix32 v = v
  | i32 v => d.fix32 v.toUInt32 = v.toUInt32
  | u64 v => d.fix64 v = v
  | i64 v => d.fix64 v.toUInt64 = v.toUInt64
  | text _ => False

def fixed (d : Decoder) : Item → Item
  | u16 v => u16 (d.fix16 v)
  | i16 v => i16 (d.fix16 v.toUInt16).toInt16
  | u32 v => u32 (d.fix32 v)
  | i32 v => i32 (d.fix32 v.toUInt32).toInt32
  | u64 v => u64 (d.fix64 v)
  | i64 v => i64 (d.fix64 v.toUInt64).toInt64
  | x => x

def Integer : Item → Prop
  | text _ => False
  | _ => True

theorem survives_iff {d : Decoder} {x : Item} : x.Survives d ↔ x.Integer ∧ x.fixed d = x := by
  cases x with
  | i16 v =>
    have hback (w : UInt16) : w.toInt16 = v ↔ w = v.toUInt16 :=
      ⟨fun h => by rw [← h, UInt16.toUInt16_toInt16], fun h => by rw [h, Int16.toInt16_toUInt16]⟩
    simp [Survives, Integer, fixed, hback]
  | i32 v =>
    have hback (w : UInt32) : w.toInt32 = v ↔ w = v.toUInt32 :=
      ⟨fun h => by rw [← h, UInt32.toUInt32_toInt32], fun h => by rw [h, Int32.toInt32_toUInt32]⟩
    simp [Survives, Integer, fixed, hback]
  | i64 v =>
    have hback (w : UInt64) : w.toInt64 = v ↔ w = v.toUInt64 :=
      ⟨fun h => by rw [← h, UInt64.toUInt64_toInt64], fun h => by rw [h, Int64.toInt64_toUInt64]⟩
    simp [Survives, Integer, fixed, hback]
  | _ => simp [Survives, Integer, fixed]

theorem advance_integer {x : Item} (h : x.Integer) : x.advance = x.size := by
  cases x with
  | text s => exact h.elim
  | _ => rfl

theorem integer_of_advance {x : Item} (h : x.advance = x.size) : x.Integer := by
  cases x with
  | text s => simp [advance, size] at h
  | _ => trivial

section
variable {d : Decoder}

theorem fix16_native (h : d.order = d.host) (v : UInt16) : d.fix16 v = v := by
  have hload := d.fix16_load (d.host.bytes 2 v.toNat) (by simp)
  rw [h, ByteOrder.value_bytes _ v.toNat_lt, UInt16.ofNat_toNat] at hload
  exact UInt16.toNat_inj.mp hload

theorem fix32_native (h : d.order = d.host) (v : UInt32) : d.fix32 v = v := by
  have hload := d.fix32_load (d.host.bytes 4 v.toNat) (by simp)
  rw [h, ByteOrder.value_bytes _ v.toNat_lt, UInt32.ofNat_toNat] at hload
  exact UInt32.toNat_inj.mp hload

theorem fix64_native (h : d.order = d.host) (v : UInt64) : d.fix64 v = v := by
  have hload := d.fix64_load (d.host.bytes 8 v.toNat) (by simp)
  rw [h, ByteOrder.value_bytes _ v.toNat_lt, UInt64.ofNat_toNat] at hload
  exact UInt64.toNat_inj.mp hload

theorem survives_native (h : d.order = d.host) {x : Item} (hx : x.Integer) : x.Survives d := by
  cases x with
  | u8 v => trivial
  | i8 v => trivial
  | u16 v => exact fix16_native h v
  | i16 v => exact fix16_native h _
  | u32 v => exact fix32_native h v
  | i32 v => exact fix32_native h _
  | u64 v => exact fix64_native h v
  | i64 v => exact fix64_native h _
  | text s => exact hx.elim

end

end Item

namespace Cursor

-- c.write(x), where none is its false. The sum that avail makes does not wrap.
def write (c : Cursor) (x : Item) : Option Cursor :=
  if c.off + x.size ≤ c.buf.size then
    some (c.put (x.bytes c.buf.decoder.host) x.advance (x.advance_le_bytes _))
  else none

def writeAll (c : Cursor) (items : List Item) : Option Cursor := items.foldlM write c

def readI16 : Cursor → Res (Option (Int16 × Cursor)) := read 2 fun b off => (b.getU16 off).toInt16
def readI32 : Cursor → Res (Option (Int32 × Cursor)) := read 4 fun b off => (b.getU32 off).toInt32
def readI64 : Cursor → Res (Option (Int64 × Cursor)) := read 8 fun b off => (b.getU64 off).toInt64

def readAs {α : Type} (f : α → Item) (read : Res (Option (α × Cursor))) :
    Res (Option (Item × Cursor)) := do return (← read).map (Prod.map f id)

-- c.read(x). It is none when no item is read: read(string) says true then, of a string that does
-- not end in the buffer.
def readItem (c : Cursor) : Kind → Res (Option (Item × Cursor))
  | .u8 => readAs .u8 c.readU8
  | .i8 => readAs .i8 c.readI8
  | .u16 => readAs .u16 c.readU16
  | .i16 => readAs .i16 c.readI16
  | .u32 => readAs .u32 c.readU32
  | .i32 => readAs .i32 c.readI32
  | .u64 => readAs .u64 c.readU64
  | .i64 => readAs .i64 c.readI64
  | .text => do
    match ← c.readCString with
    | .found chars c => return some (.text chars, c)
    | _ => return none

def readItems (c : Cursor) : List Kind → Res (Option (List Item × Cursor))
  | [] => return some ([], c)
  | k :: ks => do
    match ← c.readItem k with
    | none => return none
    | some (x, c) =>
      match ← c.readItems ks with
      | none => return none
      | some (items, c) => return some (x :: items, c)

structure Passes (c : Cursor) (items got : List Item) (w r₀ r : Cursor) : Prop where
  written : c.writeAll items = some w
  buf : r₀.buf = w.buf
  off : r₀.off = c.off
  read : r₀.readItems (items.map Item.kind) = .ok (some (got, r))
  meet : r.off = w.off
  others : ∀ i, i < c.off ∨ c.off + (items.map Item.size).sum ≤ i →
    w.buf.bytes[i]? = c.buf.bytes[i]?

def RoundTrip (c : Cursor) (items : List Item) : Prop := ∃ w r₀ r, Passes c items items w r₀ r

theorem put_off {c : Cursor} {bs : List UInt8} {n : Nat} {hn : n ≤ bs.length}
    (h : c.off + bs.length ≤ c.buf.size) : (c.put bs n hn).off = c.off + n := by
  rw [put, dif_pos h]

theorem write_off {c d : Cursor} {x : Item} (h : c.write x = some d) : d.off = c.off + x.advance := by
  rw [write] at h
  split at h
  · next hle =>
    cases h
    exact put_off (by rwa [Item.bytes_length])
  · cases h

theorem writeAll_off {c d : Cursor} {items : List Item} (h : c.writeAll items = some d) :
    d.off = c.off + (items.map Item.advance).sum := by
  induction items generalizing c with
  | nil =>
    cases h
    simp
  | cons x items ih =>
    rw [writeAll, List.foldlM_cons, Option.bind_eq_bind, Option.bind_eq_some_iff] at h
    obtain ⟨e, hx, hrest⟩ := h
    rw [ih hrest, write_off hx, List.map_cons, List.sum_cons, Nat.add_assoc]

theorem readAs_off {α : Type} {n : Nat} {get : Buffer → Nat → α} {c d : Cursor} {f : α → Item}
    {x : Item} (hf : c.buf.fence = none) (h : readAs f (c.read n get) = .ok (some (x, d)))
    (hn : n < 2 ^ 63) (hsize : ∀ v, (f v).size = n) :
    d.buf = c.buf ∧ d.off = c.off + x.size := by
  rw [readAs] at h
  by_cases hle : c.off + n ≤ c.buf.size
  · rw [read_some hf hle] at h
    cases h
    rw [hsize]
    exact ⟨rfl, forward_off hle⟩
  · rw [read_none hf hn (Nat.lt_of_not_le hle)] at h
    cases h

theorem readAs_some {α : Type} {n : Nat} {get : Buffer → Nat → α} {c : Cursor} (f : α → Item)
    (hf : c.buf.fence = none) (h : c.off + n ≤ c.buf.size) :
    readAs f (c.read n get) = .ok (some (f (get c.buf c.off), c.forward n)) := by
  rw [readAs, read_some hf h]
  rfl

theorem readCString_off {c d : Cursor} {chars : List UInt8} (hf : c.buf.fence = none)
    (h : c.readCString = .ok (.found chars d)) :
    d.buf = c.buf ∧ d.off = c.off + (chars.length + 1) := by
  have hle := (List.takeWhile_prefix (l := c.rest) (· ≠ (0 : UInt8))).length_le
  have hlen := c.rest_length
  rw [readCString] at h
  simp only [Buffer.demand_unfenced hf, Res.ok_bind] at h
  split at h
  · cases h
  · split at h
    · cases h
    · next hne hnot =>
      cases h
      exact ⟨rfl, forward_off (by omega)⟩

theorem readItem_off {c d : Cursor} {k : Kind} {x : Item} (hf : c.buf.fence = none)
    (h : c.readItem k = .ok (some (x, d))) : d.buf = c.buf ∧ d.off = c.off + x.size := by
  cases k with
  | text =>
    obtain ⟨r, hr, hx⟩ := Res.bind_ok.mp h
    cases r with
    | found chars e =>
      cases hx
      exact readCString_off hf hr
    | _ => cases hx
  | _ => exact readAs_off hf h (by norm_num) fun _ => rfl

theorem readItems_off {c d : Cursor} {ks : List Kind} {items : List Item} (hf : c.buf.fence = none)
    (h : c.readItems ks = .ok (some (items, d))) :
    d.off = c.off + (items.map Item.size).sum := by
  induction ks generalizing c items with
  | nil =>
    cases h
    simp
  | cons k ks ih =>
    obtain ⟨o, ho, hrest⟩ := Res.bind_ok.mp h
    cases o with
    | none => cases hrest
    | some p =>
      obtain ⟨x, e⟩ := p
      obtain ⟨q, hq, hend⟩ := Res.bind_ok.mp hrest
      cases q with
      | none => cases hend
      | some q =>
        cases hend
        obtain ⟨hbuf, hoff⟩ := readItem_off hf ho
        rw [ih (hbuf ▸ hf) hq, hoff, List.map_cons, List.sum_cons, Nat.add_assoc]

section
variable {c : Cursor} {tail : List UInt8}

theorem getU16_stored {v : UInt16} (h : c.rest = c.buf.decoder.host.bytes 2 v.toNat ++ tail) :
    c.buf.getU16 c.off = c.buf.decoder.fix16 v := by
  have hslice := slice_rest h
  rw [ByteOrder.bytes_length] at hslice
  rw [Buffer.getU16, hslice, ByteOrder.value_bytes _ v.toNat_lt, UInt16.ofNat_toNat]

theorem getU32_stored {v : UInt32} (h : c.rest = c.buf.decoder.host.bytes 4 v.toNat ++ tail) :
    c.buf.getU32 c.off = c.buf.decoder.fix32 v := by
  have hslice := slice_rest h
  rw [ByteOrder.bytes_length] at hslice
  rw [Buffer.getU32, hslice, ByteOrder.value_bytes _ v.toNat_lt, UInt32.ofNat_toNat]

theorem getU64_stored {v : UInt64} (h : c.rest = c.buf.decoder.host.bytes 8 v.toNat ++ tail) :
    c.buf.getU64 c.off = c.buf.decoder.fix64 v := by
  have hslice := slice_rest h
  rw [ByteOrder.bytes_length] at hslice
  rw [Buffer.getU64, hslice, ByteOrder.value_bytes _ v.toNat_lt, UInt64.ofNat_toNat]

theorem getU8_stored {b : UInt8} (h : c.rest = b :: tail) : c.buf.getU8 c.off = b := by
  have hget : c.buf.bytes[c.off]? = some b := by
    rw [← Nat.add_zero c.off, ← List.getElem?_drop]
    change c.rest[0]? = some b
    rw [h]
    rfl
  rw [Buffer.getU8, List.getD_eq_getElem?_getD, hget]
  rfl

theorem readItem_stored {x : Item} (hf : c.buf.fence = none) (hx : x.Integer)
    (h : c.rest = x.bytes c.buf.decoder.host ++ tail) :
    c.readItem x.kind = .ok (some (x.fixed c.buf.decoder, c.forward x.size)) := by
  have hle := off_add_le h
  rw [Item.bytes_length] at hle
  cases x with
  | u8 v => exact (readAs_some .u8 hf hle).trans (by rw [getU8_stored h]; rfl)
  | i8 v =>
    refine (readAs_some .i8 hf hle).trans ?_
    rw [Buffer.getI8, getU8_stored h, Int8.toInt8_toUInt8]
    rfl
  | u16 v => exact (readAs_some .u16 hf hle).trans (by rw [getU16_stored h]; rfl)
  | i16 v => exact (readAs_some .i16 hf hle).trans (by rw [getU16_stored h]; rfl)
  | u32 v => exact (readAs_some .u32 hf hle).trans (by rw [getU32_stored h]; rfl)
  | i32 v => exact (readAs_some .i32 hf hle).trans (by rw [getU32_stored h]; rfl)
  | u64 v => exact (readAs_some .u64 hf hle).trans (by rw [getU64_stored h]; rfl)
  | i64 v => exact (readAs_some .i64 hf hle).trans (by rw [getU64_stored h]; rfl)
  | text s => exact hx.elim

def stored (host : ByteOrder) (items : List Item) : List UInt8 := items.flatMap (Item.bytes host)

theorem readItems_stored {items : List Item} (hf : c.buf.fence = none)
    (hitems : ∀ x ∈ items, x.Integer)
    (h : c.rest = stored c.buf.decoder.host items ++ tail) :
    c.readItems (items.map Item.kind) = .ok (some (items.map (Item.fixed c.buf.decoder),
      c.forward (items.map Item.size).sum)) := by
  induction items generalizing c with
  | nil =>
    change _ = Except.ok (some ([], c.forward 0))
    rw [forward_zero]
    rfl
  | cons x items ih =>
    rw [stored, List.flatMap_cons, List.append_assoc] at h
    have hx := readItem_stored hf (hitems x (List.mem_cons_self ..)) h
    have hrest := forward_tail h
    rw [Item.bytes_length] at hrest
    have htail := ih (c := c.forward x.size) hf (fun y hy => hitems y (List.mem_cons_of_mem _ hy)) hrest
    rw [List.map_cons, readItems, hx]
    simp only [Res.ok_bind]
    rw [htail, forward_forward, List.map_cons, List.map_cons, List.sum_cons]
    rfl

theorem Split.write {d : Decoder} {pre post : List UInt8} {x : Item} (hs : Split d c pre post)
    (hx : x.Integer) (hfit : x.size ≤ post.length) :
    ∃ w, c.write x = some w ∧ Split d w (pre ++ x.bytes d.host) (post.drop x.size) := by
  have hlen : (x.bytes d.host).length = x.size := Item.bytes_length _ _
  have hle : (x.bytes d.host).length ≤ x.advance := by rw [hlen, Item.advance_integer hx]
  have hin : c.off + x.size ≤ c.buf.size := by
    rw [Buffer.size, hs.bytes, List.length_append, hs.off]
    omega
  have hput := hs.put (x.advance_le_bytes d.host) (by rwa [hlen])
  rw [List.take_of_length_le hle, List.drop_of_length_le hle, List.nil_append, hlen] at hput
  rw [Cursor.write, if_pos hin]
  refine ⟨_, rfl, ?_⟩
  simp only [hs.decoder]
  exact hput

theorem Split.writeAll {d : Decoder} {pre post : List UInt8} {items : List Item}
    (hs : Split d c pre post) (hitems : ∀ x ∈ items, x.Integer)
    (hfit : (items.map Item.size).sum ≤ post.length) :
    ∃ w, c.writeAll items = some w ∧
      Split d w (pre ++ stored d.host items) (post.drop (items.map Item.size).sum) := by
  induction items generalizing c pre post with
  | nil => exact ⟨c, rfl, by simpa [stored] using hs⟩
  | cons x items ih =>
    rw [List.map_cons, List.sum_cons] at hfit
    obtain ⟨e, he, hse⟩ := hs.write (hitems x (List.mem_cons_self ..)) (by omega)
    obtain ⟨w, hw, hsw⟩ := ih hse (fun y hy => hitems y (List.mem_cons_of_mem _ hy))
      (by rw [List.length_drop]; omega)
    refine ⟨w, ?_, ?_⟩
    · rw [Cursor.writeAll, List.foldlM_cons, he]
      exact hw
    · rwa [List.append_assoc, List.drop_drop] at hsw

end

section
variable {c : Cursor} {items : List Item}

theorem stored_length (host : ByteOrder) (items : List Item) :
    (stored host items).length = (items.map Item.size).sum := by
  induction items with
  | nil => rfl
  | cons x items ih =>
    rw [stored, List.flatMap_cons, List.length_append, Item.bytes_length, List.map_cons,
      List.sum_cons, ← ih, stored]

theorem write_getD (x : Item) (c : Cursor) : (c.write x).getD c =
    c.put (x.bytes c.buf.decoder.host) x.advance (x.advance_le_bytes _) := by
  by_cases h : c.off + x.size ≤ c.buf.size
  · rw [write, if_pos h]
    rfl
  · rw [write, if_neg h, put, dif_neg (by rwa [Item.bytes_length])]
    rfl

theorem writeU32_eq (v : UInt32) (c : Cursor) : c.writeU32 v = (c.write (.u32 v)).getD c :=
  (write_getD (.u32 v) c).symm

theorem writeCString_eq (s : List UInt8) (c : Cursor) :
    c.writeCString s = (c.write (.text s)).getD c :=
  (write_getD (.text s) c).symm

theorem Split.of_cursor (c : Cursor) : Split c.buf.decoder c (c.buf.bytes.take c.off) c.rest :=
  ⟨rfl, (List.take_append_drop ..).symm, by
    have := c.off_le
    rw [List.length_take]
    exact (Nat.min_eq_left this).symm⟩

theorem put_fence (c : Cursor) (bs : List UInt8) (n : Nat) (hn : n ≤ bs.length) :
    (c.put bs n hn).buf.fence = c.buf.fence := by
  rw [put]
  split <;> rfl

theorem writeAll_fence {d : Cursor} (h : c.writeAll items = some d) : d.buf.fence = c.buf.fence := by
  induction items generalizing c with
  | nil =>
    cases h
    rfl
  | cons x items ih =>
    rw [writeAll, List.foldlM_cons, Option.bind_eq_bind, Option.bind_eq_some_iff] at h
    obtain ⟨e, hx, hrest⟩ := h
    rw [ih hrest]
    rw [write] at hx
    split at hx
    · cases hx
      exact put_fence ..
    · cases hx

theorem integers_pass (hf : c.buf.fence = none)
    (hfit : c.off + (items.map Item.size).sum ≤ c.buf.size) (hitems : ∀ x ∈ items, x.Integer) :
    ∃ w r₀ r, Passes c items (items.map (Item.fixed c.buf.decoder)) w r₀ r := by
  have hs := Split.of_cursor c
  have hpre : (c.buf.bytes.take c.off).length = c.off := hs.off.symm
  have hlen := stored_length c.buf.decoder.host items
  have hrest := c.rest_length
  obtain ⟨w, hw, hsw⟩ := hs.writeAll hitems (by omega)
  have hwf : w.buf.fence = none := (writeAll_fence hw).trans hf
  have hoff := hsw.off
  rw [List.length_append, hpre, hlen] at hoff
  have hle := w.off_le
  have hdrop : w.buf.bytes.drop c.off = stored w.buf.decoder.host items ++
      c.rest.drop (items.map Item.size).sum := by
    rw [hsw.bytes, hsw.decoder, List.append_assoc, List.drop_left' hpre]
  let r₀ : Cursor := ⟨w.buf, c.off, by omega⟩
  have hread := readItems_stored (c := r₀) hwf hitems hdrop
  rw [show r₀.buf.decoder = c.buf.decoder from hsw.decoder] at hread
  have hin : r₀.off + (items.map Item.size).sum ≤ r₀.buf.size := by
    change c.off + _ ≤ w.buf.size
    omega
  refine ⟨w, r₀, _, hw, rfl, rfl, hread, (forward_off hin).trans hoff.symm, fun i hi => ?_⟩
  have hc : c.buf.bytes = c.buf.bytes.take c.off ++ c.rest := hs.bytes
  rw [hsw.bytes]
  rcases hi with hi | hi
  · rw [List.append_assoc, List.getElem?_append_left (by omega), List.getElem?_take_of_lt hi]
  · rw [List.getElem?_append_right (by rw [List.length_append]; omega), List.length_append, hpre, hlen,
      List.getElem?_drop, rest, List.getElem?_drop]
    congr 1
    omega

theorem Passes.unique {got got' : List Item} {w r₀ r w' r₀' r' : Cursor}
    (h : Passes c items got w r₀ r) (h' : Passes c items got' w' r₀' r') : got = got' := by
  obtain ⟨buf, off, hle⟩ := r₀
  obtain ⟨buf', off', hle'⟩ := r₀'
  have hw : w = w' := Option.some.inj (h.written.symm.trans h'.written)
  have hbuf : buf = buf' := (h.buf.trans (congrArg Cursor.buf hw)).trans h'.buf.symm
  have hoff : off = off' := h.off.trans h'.off.symm
  subst hbuf hoff
  have hread := h.read.symm.trans h'.read
  cases hread
  rfl

theorem roundTrip_of_survives (hf : c.buf.fence = none)
    (hfit : c.off + (items.map Item.size).sum ≤ c.buf.size)
    (h : ∀ x ∈ items, x.Survives c.buf.decoder) : RoundTrip c items := by
  have hsurvives (x : Item) (hx : x ∈ items) := Item.survives_iff.mp (h x hx)
  obtain ⟨w, r₀, r, hpass⟩ := integers_pass hf hfit fun x hx => (hsurvives x hx).1
  rw [List.map_congr_left fun x hx => (hsurvives x hx).2, List.map_id'] at hpass
  exact ⟨w, r₀, r, hpass⟩

theorem integers_of_roundTrip (hf : c.buf.fence = none) (h : RoundTrip c items) :
    ∀ x ∈ items, x.Integer := by
  obtain ⟨w, r₀, r, hpass⟩ := h
  have hrf : r₀.buf.fence = none := by rw [hpass.buf, writeAll_fence hpass.written, hf]
  have hsum : (items.map Item.size).sum = (items.map Item.advance).sum := by
    have hr := readItems_off hrf hpass.read
    have hw := writeAll_off hpass.written
    have hmeet := hpass.meet
    have hoff := hpass.off
    omega
  clear hpass
  induction items with
  | nil => simp
  | cons x items ih =>
    have hx := x.advance_le
    have hle : (items.map Item.advance).sum ≤ (items.map Item.size).sum :=
      List.sum_le_sum fun y _ => y.advance_le
    rw [List.map_cons, List.map_cons, List.sum_cons, List.sum_cons] at hsum
    rintro y hy
    rcases List.mem_cons.mp hy with rfl | hy
    · exact Item.integer_of_advance (by omega)
    · exact ih (by omega) y hy

theorem survives_of_roundTrip (hf : c.buf.fence = none)
    (hfit : c.off + (items.map Item.size).sum ≤ c.buf.size) (h : RoundTrip c items) :
    ∀ x ∈ items, x.Survives c.buf.decoder := by
  have hitems := integers_of_roundTrip hf h
  obtain ⟨w, r₀, r, hpass⟩ := h
  obtain ⟨w', r₀', r', hfixed⟩ := integers_pass hf hfit hitems
  have hsame := hfixed.unique hpass
  intro x hx
  refine Item.survives_iff.mpr ⟨hitems x hx, ?_⟩
  have hmap := hsame.trans (List.map_id items).symm
  exact List.map_inj_left.mp hmap x hx

theorem roundTrip_native (hf : c.buf.fence = none)
    (horder : c.buf.decoder.order = c.buf.decoder.host)
    (hfit : c.off + (items.map Item.size).sum ≤ c.buf.size) (hitems : ∀ x ∈ items, x.Integer) :
    RoundTrip c items :=
  roundTrip_of_survives hf hfit fun x hx => Item.survives_native horder (hitems x hx)

theorem round_trip_iff (hf : c.buf.fence = none)
    (hfit : c.off + (items.map Item.size).sum ≤ c.buf.size) :
    RoundTrip c items ↔ ∀ x ∈ items, x.Survives c.buf.decoder :=
  ⟨survives_of_roundTrip hf hfit, roundTrip_of_survives hf hfit⟩

end

end Cursor

def blank (eiData : UInt8) : Buffer :=
  { decoder := Elf.decoder .little eiData, bytes := [0, 0, 0, 0], size_lt := by decide }

theorem round_trip_palindrome : (Cursor.start (blank Elf.elfData2MSB)).RoundTrip [.u16 0x0101, .i8 (-1)] ↔
    ∀ x ∈ [Item.u16 0x0101, .i8 (-1)], x.Survives (blank Elf.elfData2MSB).decoder :=
  Cursor.round_trip_iff rfl (by decide)

theorem not_roundTrip_text_swapped :
    ¬ (Cursor.start (blank Elf.elfData2LSB)).RoundTrip [.text [97], .u8 5] ∧
    ¬ (Cursor.start (blank Elf.elfData2MSB)).RoundTrip [.u16 1] := by
  constructor
  · intro h
    exact Cursor.integers_of_roundTrip rfl h (.text [97]) (by simp)
  · intro h
    have hfix := Cursor.survives_of_roundTrip rfl (by decide) h (.u16 1) (by simp)
    have hswap : Elf.fix16 Elf.elfData2MSB 1 ≠ 1 := by decide
    exact hswap hfix

end Gelpp

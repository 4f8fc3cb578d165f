import Gelpp.Elf.Fixed
import Gelpp.Elf.Remember

namespace Gelpp.Elf

-- The operand of a macro is promoted: an int16 to int, and the shift of an int64 keeps its sign.
def swapI16 (i : Int16) : Int16 := .ofBitVec ((swap2 (i.toBitVec.signExtend 32)).setWidth 16)

def swapI32 (i : Int32) : Int32 := .ofBitVec (swap4 i.toBitVec)

def swapI64 (i : Int64) : Int64 :=
  .ofBitVec ((swap4 (i.toBitVec &&& 0xFFFFFFFF#64) <<< 32) |||
    swap4 (i.toBitVec.sshiftRight 32 &&& 0xFFFFFFFF#64))

inductive IntType where
  | uint16
  | int16
  | uint32
  | int32
  | uint64
  | int64
  deriving DecidableEq, Repr

namespace IntType

def size : IntType → Nat
  | uint16 => 2
  | int16 => 2
  | uint32 => 4
  | int32 => 4
  | uint64 => 8
  | int64 => 8

abbrev Value : IntType → Type
  | uint16 => UInt16
  | int16 => Int16
  | uint32 => UInt32
  | int32 => Int32
  | uint64 => UInt64
  | int64 => Int64

def load (order : ByteOrder) (bs : List UInt8) : (t : IntType) → t.Value
  | uint16 => .ofNat (order.value bs)
  | int16 => (UInt16.ofNat (order.value bs)).toInt16
  | uint32 => .ofNat (order.value bs)
  | int32 => (UInt32.ofNat (order.value bs)).toInt32
  | uint64 => .ofNat (order.value bs)
  | int64 => (UInt64.ofNat (order.value bs)).toInt64

end IntType

namespace File

variable (f : File)

def fix : (t : IntType) → t.Value → t.Value
  | .uint16, i => fix16 f.eiData i
  | .int16, i => if f.eiData = elfData2LSB then i else swapI16 i
  | .uint32, i => fix32 f.eiData i
  | .int32, i => if f.eiData = elfData2LSB then i else swapI32 i
  | .uint64, i => fix64 f.eiData i
  | .int64, i => if f.eiData = elfData2LSB then i else swapI64 i

-- UN_ENDIAN2, UN_ENDIAN4 and UN_ENDIAN8 are ENDIAN2, ENDIAN4 and ENDIAN8.
def unfix (t : IntType) (i : t.Value) : t.Value := f.fix t i

def isBigEndian : Bool := f.eiData == elfData2MSB

end File

theorem swapI16_toInt16 (i : UInt16) : swapI16 i.toInt16 = (swap16 i).toInt16 := by
  have hbits : (swap2 (i.toBitVec.signExtend 32)).setWidth 16 = swap2 i.toBitVec := by
    have hlow : (i.toBitVec.signExtend 32).toNat % 65536 = i.toBitVec.toNat := by
      have hi := i.toBitVec.isLt
      rw [BitVec.toNat_signExtend, BitVec.toNat_setWidth]
      split <;> omega
    have hlt := reverse2_lt i.toBitVec.toNat
    apply BitVec.eq_of_toNat_eq
    rw [BitVec.toNat_setWidth, swap2_toNat (by omega), swap2_toNat (by omega), ← reverse2_mod, hlow,
      Nat.mod_eq_of_lt hlt]
  exact congrArg Int16.ofBitVec hbits

theorem swapI32_toInt32 (i : UInt32) : swapI32 i.toInt32 = (swap32 i).toInt32 := rfl

theorem sshiftRight_mask (x : BitVec 64) :
    x.sshiftRight 32 &&& 0xFFFFFFFF#64 = x >>> 32 &&& 0xFFFFFFFF#64 := by
  have hmask (y : BitVec 64) : (y &&& 0xFFFFFFFF#64).toNat = y.toNat % 2 ^ 32 :=
    mask_toNat (k := 32) (by omega) y
  apply BitVec.eq_of_toNat_eq
  rw [hmask, hmask]
  have hx := x.isLt
  cases hmsb : x.msb with
  | false => rw [BitVec.sshiftRight_eq_of_msb_false hmsb]
  | true =>
    rw [BitVec.sshiftRight_eq_of_msb_true hmsb, BitVec.toNat_not, BitVec.toNat_ushiftRight,
      BitVec.toNat_not, BitVec.toNat_ushiftRight, Nat.shiftRight_eq_div_pow,
      Nat.shiftRight_eq_div_pow]
    omega

theorem swapI64_toInt64 (i : UInt64) : swapI64 i.toInt64 = (swap64 i).toInt64 := by
  have hbits : (swap4 (i.toBitVec &&& 0xFFFFFFFF#64) <<< 32) |||
      swap4 (i.toBitVec.sshiftRight 32 &&& 0xFFFFFFFF#64) = swap8 i.toBitVec := by
    rw [sshiftRight_mask]
    rfl
  exact congrArg Int64.ofBitVec hbits

section
variable {host : ByteOrder} {e : UInt8} {bs : List UInt8}

theorem fix16_ofNat (h : bs.length = 2) :
    fix16 e (.ofNat (host.value bs)) = .ofNat ((fileOrder host e).value bs) := by
  have hload : (fix16 e (.ofNat (host.value bs))).toNat = (fileOrder host e).value bs :=
    (decoder host e).fix16_load bs h
  rw [← hload, UInt16.ofNat_toNat]

theorem fix32_ofNat (h : bs.length = 4) :
    fix32 e (.ofNat (host.value bs)) = .ofNat ((fileOrder host e).value bs) := by
  have hload : (fix32 e (.ofNat (host.value bs))).toNat = (fileOrder host e).value bs :=
    (decoder host e).fix32_load bs h
  rw [← hload, UInt32.ofNat_toNat]

theorem fix64_ofNat (h : bs.length = 8) :
    fix64 e (.ofNat (host.value bs)) = .ofNat ((fileOrder host e).value bs) := by
  have hload : (fix64 e (.ofNat (host.value bs))).toNat = (fileOrder host e).value bs :=
    (decoder host e).fix64_load bs h
  rw [← hload, UInt64.ofNat_toNat]

end

theorem fix_int16 (f : File) (i : UInt16) :
    f.fix .int16 i.toInt16 = (fix16 f.eiData i).toInt16 := by
  rw [File.fix, fix16, swapI16_toInt16]
  split <;> rfl

theorem fix_int32 (f : File) (i : UInt32) :
    f.fix .int32 i.toInt32 = (fix32 f.eiData i).toInt32 := by
  rw [File.fix, fix32, swapI32_toInt32]
  split <;> rfl

theorem fix_int64 (f : File) (i : UInt64) :
    f.fix .int64 i.toInt64 = (fix64 f.eiData i).toInt64 := by
  rw [File.fix, fix64, swapI64_toInt64]
  split <;> rfl

theorem fix_load (f : File) {host : ByteOrder} (t : IntType) {bs : List UInt8}
    (h : bs.length = t.size) :
    f.fix t (t.load host bs) = t.load (fileOrder host f.eiData) bs := by
  cases t with
  | uint16 => exact fix16_ofNat h
  | int16 =>
    rw [IntType.load, fix_int16, fix16_ofNat h]
    rfl
  | uint32 => exact fix32_ofNat h
  | int32 =>
    rw [IntType.load, fix_int32, fix32_ofNat h]
    rfl
  | uint64 => exact fix64_ofNat h
  | int64 =>
    rw [IntType.load, fix_int64, fix64_ofNat h]
    rfl

theorem load_surjective (order : ByteOrder) (t : IntType) (v : t.Value) :
    ∃ bs : List UInt8, bs.length = t.size ∧ t.load order bs = v := by
  have load16 (n : UInt16) : UInt16.ofNat (order.value (order.bytes 2 n.toNat)) = n := by
    rw [order.value_bytes n.toNat_lt, UInt16.ofNat_toNat]
  have load32 (n : UInt32) : UInt32.ofNat (order.value (order.bytes 4 n.toNat)) = n := by
    rw [order.value_bytes n.toNat_lt, UInt32.ofNat_toNat]
  have load64 (n : UInt64) : UInt64.ofNat (order.value (order.bytes 8 n.toNat)) = n := by
    rw [order.value_bytes n.toNat_lt, UInt64.ofNat_toNat]
  cases t with
  | uint16 => exact ⟨order.bytes 2 (UInt16.toNat v), order.bytes_length .., load16 v⟩
  | int16 =>
    refine ⟨order.bytes 2 (Int16.toUInt16 v).toNat, order.bytes_length .., ?_⟩
    rw [IntType.load, load16]
    rfl
  | uint32 => exact ⟨order.bytes 4 (UInt32.toNat v), order.bytes_length .., load32 v⟩
  | int32 =>
    refine ⟨order.bytes 4 (Int32.toUInt32 v).toNat, order.bytes_length .., ?_⟩
    rw [IntType.load, load32]
    rfl
  | uint64 => exact ⟨order.bytes 8 (UInt64.toNat v), order.bytes_length .., load64 v⟩
  | int64 =>
    refine ⟨order.bytes 8 (Int64.toUInt64 v).toNat, order.bytes_length .., ?_⟩
    rw [IntType.load, load64]
    rfl

theorem load_reverse (order : ByteOrder) (t : IntType) (bs : List UInt8) :
    t.load order.other bs = t.load order bs.reverse := by
  have h : order.other.value bs = order.value bs.reverse := by
    cases order with
    | little => rfl
    | big => simp [ByteOrder.other, ByteOrder.value]
  cases t <;> simp only [IntType.load, h]

theorem unfix_fix (f : File) (t : IntType) (v : t.Value) : f.unfix t (f.fix t v) = v := by
  obtain ⟨bs, hlen, rfl⟩ := load_surjective .little t v
  have hrev : bs.reverse.length = t.size := by rw [List.length_reverse, hlen]
  rw [File.unfix, fix_load f t hlen, fileOrder]
  split
  · next h =>
    rw [fix_load f t hlen, fileOrder, if_pos h]
  · next h =>
    rw [load_reverse, fix_load f t hrev, fileOrder, if_neg h, load_reverse, List.reverse_reverse]

def File.denoted (f : File) : ByteOrder := if f.isBigEndian then .big else .little

def File.Fixes (f : File) : Prop :=
  ∀ (t : IntType) (bs : List UInt8), bs.length = t.size →
    f.fix t (t.load f.host bs) = t.load f.denoted bs

theorem order_of_load {o o' : ByteOrder}
    (h : IntType.load o [1, 0] .uint16 = IntType.load o' [1, 0] .uint16) : o = o' := by
  cases o <;> cases o' <;> first | rfl | exact absurd h (by decide)

theorem fixes_iff_order (f : File) : f.Fixes ↔ fileOrder f.host f.eiData = f.denoted := by
  constructor
  · intro h
    have h16 := h .uint16 [1, 0] rfl
    rw [fix_load f .uint16 rfl] at h16
    exact order_of_load h16
  · intro h t bs hlen
    rw [fix_load f t hlen, h]

theorem byte_order_iff (f : File) :
    (f.Fixes ∧ ∀ (t : IntType) (v : t.Value), f.unfix t (f.fix t v) = v) ↔
      (f.host = .little ↔ f.eiData = elfData2LSB ∨ f.eiData = elfData2MSB) := by
  rw [and_iff_left (unfix_fix f), fixes_iff_order, fileOrder, File.denoted, File.isBigEndian]
  by_cases hlsb : f.eiData = elfData2LSB
  · rw [hlsb]
    cases f.host <;> decide
  · by_cases hmsb : f.eiData = elfData2MSB
    · rw [hmsb]
      cases f.host <;> decide
    · cases f.host <;> simp [hlsb, hmsb, ByteOrder.other]

-- EI_DATA is 0, and e_shnum is 1 in big-endian order.
def unmarked : Stream where
  bytes := elfMagic ++ [1] ++ .replicate 43 0 ++ [0, 1, 0, 0]

theorem unmarked_swapped :
    ∃ f, FileM.construct.run (.blank elf32 .little "unmarked" unmarked fun _ => 0) = (.ok (), f) ∧
      f.eiData = 0 ∧ ¬ f.Fixes := by
  refine ⟨_, Effect.run_fst ?_, ?_, ?_⟩
  · decide +kernel
  · decide +kernel
  · rw [fixes_iff_order]
    decide +kernel

end Gelpp.Elf

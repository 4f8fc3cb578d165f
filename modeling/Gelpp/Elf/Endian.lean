import Gelpp.Cursor

namespace Gelpp.Elf

def elfData2LSB : UInt8 := 1
def elfData2MSB : UInt8 := 2

def swap2 {w : Nat} (x : BitVec w) : BitVec w :=
  ((x &&& 0xFF#w) <<< 8) ||| ((x &&& 0xFF00#w) >>> 8)

def swap4 {w : Nat} (x : BitVec w) : BitVec w :=
  (swap2 (x &&& 0xFFFF#w) <<< 16) ||| swap2 ((x &&& 0xFFFF0000#w) >>> 16)

def swap8 {w : Nat} (x : BitVec w) : BitVec w :=
  (swap4 (x &&& 0xFFFFFFFF#w) <<< 32) ||| swap4 ((x >>> 32) &&& 0xFFFFFFFF#w)

def swap16 (i : UInt16) : UInt16 := ⟨swap2 i.toBitVec⟩
def swap32 (i : UInt32) : UInt32 := ⟨swap4 i.toBitVec⟩
def swap64 (i : UInt64) : UInt64 := ⟨swap8 i.toBitVec⟩

-- The file that defines File::fix does not include config.h, so BIGENDIAN is undefined there.
def fix16 (eiData : UInt8) (i : UInt16) : UInt16 :=
  if eiData = elfData2LSB then i else swap16 i

def fix32 (eiData : UInt8) (i : UInt32) : UInt32 :=
  if eiData = elfData2LSB then i else swap32 i

def fix64 (eiData : UInt8) (i : UInt64) : UInt64 :=
  if eiData = elfData2LSB then i else swap64 i

def reverse2 (n : Nat) : Nat := n % 256 * 256 + n / 256 % 256

def reverse4 (n : Nat) : Nat := reverse2 n * 65536 + reverse2 (n / 65536)

theorem reverse2_lt (n : Nat) : reverse2 n < 65536 := by
  unfold reverse2
  omega

theorem reverse2_mod (n : Nat) : reverse2 (n % 65536) = reverse2 n := by
  unfold reverse2
  omega

theorem reverse4_lt (n : Nat) : reverse4 n < 2 ^ 32 := by
  have h0 := reverse2_lt n
  have h1 := reverse2_lt (n / 65536)
  unfold reverse4
  omega

theorem mask_toNat {w k : Nat} (hk : k ≤ w) (x : BitVec w) :
    (x &&& BitVec.ofNat w (2 ^ k - 1)).toNat = x.toNat % 2 ^ k := by
  have hpow : 2 ^ k ≤ 2 ^ w := Nat.pow_le_pow_right (by omega) hk
  have hpos : 0 < 2 ^ k := Nat.two_pow_pos k
  rw [BitVec.toNat_and, BitVec.toNat_ofNat, Nat.mod_eq_of_lt (by omega),
    Nat.and_two_pow_sub_one_eq_mod]

theorem high_mask_toNat {w k : Nat} (hk : 2 * k ≤ w) (x : BitVec w) :
    ((x &&& BitVec.ofNat w ((2 ^ k - 1) * 2 ^ k)) >>> k).toNat = x.toNat / 2 ^ k % 2 ^ k := by
  have hpow : 2 ^ k * 2 ^ k ≤ 2 ^ w := by
    rw [← Nat.pow_add]
    exact Nat.pow_le_pow_right (by omega) (by omega)
  have hpos : 0 < 2 ^ k := Nat.two_pow_pos k
  have hlt : (2 ^ k - 1) * 2 ^ k < 2 ^ k * 2 ^ k := Nat.mul_lt_mul_of_pos_right (by omega) hpos
  rw [BitVec.toNat_ushiftRight, BitVec.toNat_and, BitVec.toNat_ofNat, Nat.mod_eq_of_lt (by omega),
    Nat.shiftRight_and_distrib, Nat.shiftRight_eq_div_pow, Nat.shiftRight_eq_div_pow,
    Nat.mul_div_cancel _ hpos, Nat.and_two_pow_sub_one_eq_mod]

theorem shift_or_toNat {w k : Nat} (x y : BitVec w) (hx : x.toNat * 2 ^ k < 2 ^ w)
    (hy : y.toNat < 2 ^ k) : (x <<< k ||| y).toNat = x.toNat * 2 ^ k + y.toNat := by
  rw [BitVec.toNat_or, BitVec.toNat_shiftLeft, Nat.shiftLeft_eq, Nat.mod_eq_of_lt hx,
    Nat.mul_comm, Nat.two_pow_add_eq_or_of_lt hy]

theorem swap2_toNat {w : Nat} (hw : 16 ≤ w) (x : BitVec w) :
    (swap2 x).toNat = reverse2 x.toNat := by
  have hpow : 2 ^ 16 ≤ 2 ^ w := Nat.pow_le_pow_right (by omega) hw
  have hlow : (x &&& 0xFF#w).toNat = x.toNat % 2 ^ 8 := mask_toNat (k := 8) (by omega) x
  have hhigh : ((x &&& 0xFF00#w) >>> 8).toNat = x.toNat / 2 ^ 8 % 2 ^ 8 :=
    high_mask_toNat (k := 8) (by omega) x
  rw [swap2, shift_or_toNat _ _ (by omega) (by omega), hlow, hhigh]
  rfl

theorem swap4_toNat {w : Nat} (hw : 32 ≤ w) (x : BitVec w) :
    (swap4 x).toNat = reverse4 x.toNat := by
  have hpow : 2 ^ 32 ≤ 2 ^ w := Nat.pow_le_pow_right (by omega) hw
  have hmask : (x &&& 0xFFFF#w).toNat = x.toNat % 2 ^ 16 := mask_toNat (k := 16) (by omega) x
  have hshift : ((x &&& 0xFFFF0000#w) >>> 16).toNat = x.toNat / 2 ^ 16 % 2 ^ 16 :=
    high_mask_toNat (k := 16) (by omega) x
  have hlow : (swap2 (x &&& 0xFFFF#w)).toNat = reverse2 x.toNat := by
    rw [swap2_toNat (by omega), hmask]
    exact reverse2_mod _
  have hhigh : (swap2 ((x &&& 0xFFFF0000#w) >>> 16)).toNat = reverse2 (x.toNat / 65536) := by
    rw [swap2_toNat (by omega), hshift]
    exact reverse2_mod _
  have h0 := reverse2_lt x.toNat
  have h1 := reverse2_lt (x.toNat / 65536)
  rw [swap4, shift_or_toNat _ _ (by omega) (by omega), hlow, hhigh]
  rfl

theorem swap8_toNat (x : BitVec 64) :
    (swap8 x).toNat = reverse4 (x.toNat % 2 ^ 32) * 2 ^ 32 + reverse4 (x.toNat / 2 ^ 32) := by
  have hx := x.isLt
  have hmask (y : BitVec 64) : (y &&& 0xFFFFFFFF#64).toNat = y.toNat % 2 ^ 32 :=
    mask_toNat (k := 32) (by omega) y
  have hlow : (swap4 (x &&& 0xFFFFFFFF#64)).toNat = reverse4 (x.toNat % 2 ^ 32) := by
    rw [swap4_toNat (by omega), hmask]
  have hhigh : (swap4 ((x >>> 32) &&& 0xFFFFFFFF#64)).toNat = reverse4 (x.toNat / 2 ^ 32) := by
    rw [swap4_toNat (by omega), hmask, BitVec.toNat_ushiftRight, Nat.shiftRight_eq_div_pow,
      Nat.mod_eq_of_lt (by omega)]
  have h0 := reverse4_lt (x.toNat % 2 ^ 32)
  have h1 := reverse4_lt (x.toNat / 2 ^ 32)
  rw [swap8, shift_or_toNat _ _ (by omega) (by omega), hlow, hhigh]

open ByteOrder (littleValue littleValue_append littleValue_lt)

theorem reverse2_littleValue {bs : List UInt8} (h : bs.length = 2) :
    reverse2 (littleValue bs) = littleValue bs.reverse := by
  obtain ⟨a, b, rfl⟩ := List.length_eq_two.mp h
  have ha := a.toNat_lt
  have hb := b.toNat_lt
  simp only [List.reverse_cons, List.reverse_nil, List.nil_append, List.cons_append,
    ByteOrder.littleValue_cons, ByteOrder.littleValue_nil, reverse2]
  omega

theorem reverse4_littleValue {bs : List UInt8} (h : bs.length = 4) :
    reverse4 (littleValue bs) = littleValue bs.reverse := by
  have hlow : (bs.take 2).length = 2 := by simp [h]
  have hhigh : (bs.drop 2).length = 2 := by simp [h]
  have hsplit : littleValue bs = littleValue (bs.take 2) + 65536 * littleValue (bs.drop 2) := by
    have := littleValue_append (bs.take 2) (bs.drop 2)
    rwa [List.take_append_drop, hlow] at this
  have hlt : littleValue (bs.take 2) < 65536 := by simpa [hlow] using littleValue_lt (bs.take 2)
  have hmod : reverse2 (littleValue bs) = reverse2 (littleValue (bs.take 2)) := by
    rw [← reverse2_mod, hsplit]
    congr 1
    omega
  have hdiv : littleValue bs / 65536 = littleValue (bs.drop 2) := by omega
  have hrev := littleValue_append (bs.drop 2).reverse (bs.take 2).reverse
  rw [← List.reverse_append, List.take_append_drop, List.length_reverse, hhigh] at hrev
  rw [reverse4, hmod, hdiv, reverse2_littleValue hlow, reverse2_littleValue hhigh, hrev]
  omega

theorem swap16_value (host : ByteOrder) (bs : List UInt8) (h : bs.length = 2) :
    (swap16 (.ofNat (host.value bs))).toNat = host.other.value bs := by
  have hlt : host.value bs < 2 ^ 16 := by simpa [h] using host.value_lt bs
  have hnat : (UInt16.ofNat (host.value bs)).toBitVec.toNat = host.value bs := by
    simpa using Nat.mod_eq_of_lt hlt
  change (swap2 (UInt16.ofNat (host.value bs)).toBitVec).toNat = _
  rw [swap2_toNat (by omega), hnat]
  cases host with
  | little => exact reverse2_littleValue h
  | big => simpa [ByteOrder.value, ByteOrder.other] using
      @reverse2_littleValue bs.reverse (by simpa using h)

theorem swap32_value (host : ByteOrder) (bs : List UInt8) (h : bs.length = 4) :
    (swap32 (.ofNat (host.value bs))).toNat = host.other.value bs := by
  have hlt : host.value bs < 2 ^ 32 := by simpa [h] using host.value_lt bs
  have hnat : (UInt32.ofNat (host.value bs)).toBitVec.toNat = host.value bs := by
    simpa using Nat.mod_eq_of_lt hlt
  change (swap4 (UInt32.ofNat (host.value bs)).toBitVec).toNat = _
  rw [swap4_toNat (by omega), hnat]
  cases host with
  | little => exact reverse4_littleValue h
  | big => simpa [ByteOrder.value, ByteOrder.other] using
      @reverse4_littleValue bs.reverse (by simpa using h)

def reverse8 (n : Nat) : Nat := reverse4 (n % 2 ^ 32) * 2 ^ 32 + reverse4 (n / 2 ^ 32)

theorem reverse8_littleValue {bs : List UInt8} (h : bs.length = 8) :
    reverse8 (littleValue bs) = littleValue bs.reverse := by
  have hlow : (bs.take 4).length = 4 := by simp [h]
  have hhigh : (bs.drop 4).length = 4 := by simp [h]
  have hsplit : littleValue bs = littleValue (bs.take 4) + 2 ^ 32 * littleValue (bs.drop 4) := by
    have := littleValue_append (bs.take 4) (bs.drop 4)
    rwa [List.take_append_drop, hlow] at this
  have hlt : littleValue (bs.take 4) < 2 ^ 32 := by simpa [hlow] using littleValue_lt (bs.take 4)
  have hmod : littleValue bs % 2 ^ 32 = littleValue (bs.take 4) := by omega
  have hdiv : littleValue bs / 2 ^ 32 = littleValue (bs.drop 4) := by omega
  have hrev := littleValue_append (bs.drop 4).reverse (bs.take 4).reverse
  rw [← List.reverse_append, List.take_append_drop, List.length_reverse, hhigh] at hrev
  rw [reverse8, hmod, hdiv, reverse4_littleValue hlow, reverse4_littleValue hhigh, hrev]
  omega

theorem swap64_value (host : ByteOrder) (bs : List UInt8) (h : bs.length = 8) :
    (swap64 (.ofNat (host.value bs))).toNat = host.other.value bs := by
  have hlt : host.value bs < 2 ^ 64 := by simpa [h] using host.value_lt bs
  have hnat : (UInt64.ofNat (host.value bs)).toBitVec.toNat = host.value bs := by
    simpa using Nat.mod_eq_of_lt hlt
  change (swap8 (UInt64.ofNat (host.value bs)).toBitVec).toNat = _
  rw [swap8_toNat, hnat]
  change reverse8 (host.value bs) = _
  cases host with
  | little => exact reverse8_littleValue h
  | big => simpa [ByteOrder.value, ByteOrder.other] using
      @reverse8_littleValue bs.reverse (by simpa using h)

def fileOrder (host : ByteOrder) (eiData : UInt8) : ByteOrder :=
  if eiData = elfData2LSB then host else host.other

def decoder (host : ByteOrder) (eiData : UInt8) : Decoder where
  host := host
  order := fileOrder host eiData
  fix16 := fix16 eiData
  fix32 := fix32 eiData
  fix64 := fix64 eiData
  fix16_load bs h := by
    have hlt : host.value bs < 2 ^ 16 := by simpa [h] using host.value_lt bs
    unfold fix16 fileOrder
    split
    · simpa using Nat.mod_eq_of_lt hlt
    · exact swap16_value host bs h
  fix32_load bs h := by
    have hlt : host.value bs < 2 ^ 32 := by simpa [h] using host.value_lt bs
    unfold fix32 fileOrder
    split
    · simpa using Nat.mod_eq_of_lt hlt
    · exact swap32_value host bs h
  fix64_load bs h := by
    have hlt : host.value bs < 2 ^ 64 := by simpa [h] using host.value_lt bs
    unfold fix64 fileOrder
    split
    · simpa using Nat.mod_eq_of_lt hlt
    · exact swap64_value host bs h

end Gelpp.Elf

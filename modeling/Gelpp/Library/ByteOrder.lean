import Mathlib

inductive ByteOrder where
  | little
  | big
  deriving DecidableEq, Repr

namespace ByteOrder

def other : ByteOrder → ByteOrder
  | .little => .big
  | .big => .little

def littleValue (bs : List UInt8) : Nat :=
  Nat.ofDigits 256 (bs.map UInt8.toNat)

def value : ByteOrder → List UInt8 → Nat
  | .little, bs => littleValue bs
  | .big, bs => littleValue bs.reverse

def littleBytes : Nat → Nat → List UInt8
  | 0, _ => []
  | n + 1, v => UInt8.ofNat v :: littleBytes n (v / 256)

def bytes : ByteOrder → Nat → Nat → List UInt8
  | .little, n, v => littleBytes n v
  | .big, n, v => (littleBytes n v).reverse

@[simp] theorem littleValue_nil : littleValue [] = 0 := rfl

@[simp] theorem littleValue_cons (b : UInt8) (bs : List UInt8) :
    littleValue (b :: bs) = b.toNat + 256 * littleValue bs := by
  simp [littleValue, Nat.ofDigits_cons]

theorem littleValue_append (xs ys : List UInt8) :
    littleValue (xs ++ ys) = littleValue xs + 256 ^ xs.length * littleValue ys := by
  simp [littleValue, Nat.ofDigits_append]

theorem littleValue_lt (bs : List UInt8) : littleValue bs < 256 ^ bs.length := by
  induction bs with
  | nil => simp
  | cons b bs ih =>
    have hb := b.toNat_lt
    rw [littleValue_cons, List.length_cons, Nat.pow_succ]
    omega

@[simp] theorem littleBytes_length (n v : Nat) : (littleBytes n v).length = n := by
  induction n generalizing v with
  | zero => rfl
  | succ n ih => simp [littleBytes, ih]

theorem littleValue_littleBytes (n v : Nat) : littleValue (littleBytes n v) = v % 256 ^ n := by
  induction n generalizing v with
  | zero => simp [littleBytes, Nat.mod_one]
  | succ n ih =>
    have hmod : v % 256 ^ (n + 1) = v % 256 + 256 * (v / 256 % 256 ^ n) := by
      rw [Nat.pow_succ, Nat.mul_comm (256 ^ n), Nat.mod_mul]
    rw [littleBytes, littleValue_cons, ih, UInt8.toNat_ofNat', hmod]

theorem littleBytes_littleValue (bs : List UInt8) :
    littleBytes bs.length (littleValue bs) = bs := by
  induction bs with
  | nil => rfl
  | cons b bs ih =>
    have hb := b.toNat_lt
    have hhead : UInt8.ofNat (b.toNat + 256 * littleValue bs) = b := by
      apply UInt8.toNat_inj.mp
      rw [UInt8.toNat_ofNat']
      omega
    have htail : (b.toNat + 256 * littleValue bs) / 256 = littleValue bs := by omega
    rw [List.length_cons, littleValue_cons, littleBytes, hhead, htail, ih]

@[simp] theorem bytes_length (o : ByteOrder) (n v : Nat) : (o.bytes n v).length = n := by
  cases o <;> simp [bytes]

theorem value_lt (o : ByteOrder) (bs : List UInt8) : o.value bs < 256 ^ bs.length := by
  cases o with
  | little => exact littleValue_lt bs
  | big => simpa [value] using littleValue_lt bs.reverse

theorem value_bytes (o : ByteOrder) {n v : Nat} (h : v < 256 ^ n) : o.value (o.bytes n v) = v := by
  cases o <;> simp [value, bytes, littleValue_littleBytes, Nat.mod_eq_of_lt h]

theorem bytes_value (o : ByteOrder) (bs : List UInt8) : o.bytes bs.length (o.value bs) = bs := by
  cases o with
  | little => exact littleBytes_littleValue bs
  | big =>
    have h := littleBytes_littleValue bs.reverse
    rw [List.length_reverse] at h
    simp [value, bytes, h]

theorem value_inj (o : ByteOrder) {bs cs : List UInt8} (hlen : bs.length = cs.length)
    (h : o.value bs = o.value cs) : bs = cs := by
  rw [← o.bytes_value bs, hlen, h, o.bytes_value]

end ByteOrder

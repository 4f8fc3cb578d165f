import Mathlib

namespace Leb128

def digit (b : UInt8) : Nat := b.toNat % 128

inductive Terminated : List UInt8 → Prop
  | last {b : UInt8} (h : b.toNat < 128) : Terminated [b]
  | more {b : UInt8} {bs : List UInt8} (h : 128 ≤ b.toNat) (ht : Terminated bs) :
      Terminated (b :: bs)

def unsigned (bs : List UInt8) : Nat := Nat.ofDigits 128 (bs.map digit)

def signed (bs : List UInt8) : Int :=
  if 2 * unsigned bs < 128 ^ bs.length then unsigned bs
  else unsigned bs - (128 : Int) ^ bs.length

@[simp] theorem unsigned_nil : unsigned [] = 0 := rfl

@[simp] theorem unsigned_cons (b : UInt8) (bs : List UInt8) :
    unsigned (b :: bs) = digit b + 128 * unsigned bs := by
  simp [unsigned, Nat.ofDigits_cons]

theorem digit_lt (b : UInt8) : digit b < 128 := Nat.mod_lt _ (by omega)

theorem unsigned_lt (bs : List UInt8) : unsigned bs < 128 ^ bs.length := by
  induction bs with
  | nil => simp
  | cons b bs ih =>
    have hb := digit_lt b
    rw [unsigned_cons, List.length_cons, Nat.pow_succ]
    omega

-- The groups of `v` in `n` bytes: with more bytes than it needs, a number that is not negative is
-- padded with zeros and another one with its sign.
def encoding (v : Int) : Nat → List UInt8
  | 0 => []
  | n + 1 =>
    if n = 0 then [.ofNat (v % 128).toNat]
    else .ofNat (128 + (v % 128).toNat) :: encoding (v / 128) n

theorem encoding_length (v : Int) (n : Nat) : (encoding v n).length = n := by
  induction n generalizing v with
  | zero => rfl
  | succ n ih =>
    by_cases h : n = 0
    · rw [encoding, if_pos h, h, List.length_singleton]
    · rw [encoding, if_neg h, List.length_cons, ih]

section
variable {v : Int}

theorem group_lt (v : Int) : (v % 128).toNat < 128 := by omega

theorem last_toNat (v : Int) : (UInt8.ofNat (v % 128).toNat).toNat = (v % 128).toNat := by
  have h := group_lt v
  rw [UInt8.toNat_ofNat', Nat.mod_eq_of_lt (by omega)]

theorem more_toNat (v : Int) :
    (UInt8.ofNat (128 + (v % 128).toNat)).toNat = 128 + (v % 128).toNat := by
  have h := group_lt v
  rw [UInt8.toNat_ofNat', Nat.mod_eq_of_lt (by omega)]

theorem encoding_terminated (v : Int) (n : Nat) : Terminated (encoding v (n + 1)) := by
  induction n generalizing v with
  | zero =>
    refine .last ?_
    rw [last_toNat]
    exact group_lt v
  | succ n ih =>
    rw [encoding, if_neg (Nat.succ_ne_zero n)]
    refine .more ?_ (ih (v / 128))
    rw [more_toNat]
    exact Nat.le_add_right _ _

-- The induction is on the number of bytes: a byte takes the low group of what is left.
theorem unsigned_encoding (v : Int) (n : Nat) : (unsigned (encoding v n) : Int) = v % 128 ^ n := by
  induction n generalizing v with
  | zero => simp [encoding]
  | succ n ih =>
    have hg := group_lt v
    have hgroup : ((v % 128).toNat : Int) = v % 128 := Int.toNat_of_nonneg (by omega)
    have hsplit : v % 128 ^ (n + 1) = v % 128 + 128 * (v / 128 % 128 ^ n) := by
      have hpow : (0 : Int) < 128 ^ n := by positivity
      have h1 := Int.mul_ediv_add_emod v 128
      have h2 := Int.mul_ediv_add_emod (v / 128) (128 ^ n)
      have h3 := Int.emod_lt_of_pos (v / 128) hpow
      have h4 := Int.emod_nonneg (v / 128) hpow.ne'
      rw [pow_succ']
      refine ((Int.ediv_emod_unique (q := v / 128 / 128 ^ n) (by positivity)).mpr
        ⟨?_, by omega, by omega⟩).2
      linarith [mul_assoc (128 : Int) (128 ^ n) (v / 128 / 128 ^ n)]
    by_cases h : n = 0
    · rw [encoding, if_pos h, unsigned_cons, digit, last_toNat, h]
      simp only [unsigned_nil]
      omega
    · rw [encoding, if_neg h, unsigned_cons, digit, more_toNat, hsplit, ← ih (v / 128)]
      push_cast
      omega

theorem unsigned_encoding_of_lt {v n : Nat} (h : v < 128 ^ n) : unsigned (encoding v n) = v := by
  have hv : (v : Int) < 128 ^ n := by exact_mod_cast h
  have hcast := unsigned_encoding v n
  rw [Int.emod_eq_of_lt (by omega) hv] at hcast
  exact_mod_cast hcast

theorem signed_encoding {n : Nat} (hlow : -128 ^ n ≤ 2 * v) (hhigh : 2 * v < 128 ^ n) :
    signed (encoding v n) = v := by
  have hcast := unsigned_encoding v n
  have hpow : ((128 ^ n : Nat) : Int) = 128 ^ n := by push_cast; rfl
  rw [signed, encoding_length]
  by_cases hv : 0 ≤ v
  · rw [Int.emod_eq_of_lt hv (by omega)] at hcast
    rw [if_pos (by omega), hcast]
  · rw [← Int.add_emod_right, Int.emod_eq_of_lt (by omega) (by omega)] at hcast
    rw [if_neg (by omega), hcast]
    omega

theorem continued_initial {bs pre : List UInt8} (ht : Terminated bs) (hpre : pre <+: bs)
    (hne : pre ≠ bs) : ∀ b ∈ pre, 128 ≤ b.toNat := by
  induction ht generalizing pre with
  | last h =>
    cases pre with
    | nil => exact List.forall_mem_nil _
    | cons a as =>
      obtain ⟨rfl, has⟩ := List.cons_prefix_cons.mp hpre
      exact absurd (by rw [List.prefix_nil.mp has]) hne
  | more h _ ih =>
    cases pre with
    | nil => exact List.forall_mem_nil _
    | cons a as =>
      obtain ⟨rfl, has⟩ := List.cons_prefix_cons.mp hpre
      have htail := ih has fun heq => hne (by rw [heq])
      exact List.forall_mem_cons.mpr ⟨h, htail⟩

end

theorem Terminated.length_pos {bs : List UInt8} (h : Terminated bs) : 0 < bs.length := by
  cases h <;> simp

section
variable {bs tail : List UInt8}

def continued (bs : List UInt8) : Nat := (bs.takeWhile fun b => 128 ≤ b.toNat).length

def number (bs : List UInt8) : List UInt8 := bs.take (continued bs + 1)

def afterNumber (bs : List UInt8) : List UInt8 := bs.drop (continued bs + 1)

def Ended (bs : List UInt8) : Prop := ∃ b ∈ bs, b.toNat < 128

instance (bs : List UInt8) : Decidable (Ended bs) := inferInstanceAs (Decidable (∃ b ∈ bs, _))

def Long (bs : List UInt8) : Prop := 10 < bs.length ∧ ∀ b ∈ bs.take 10, 128 ≤ b.toNat

instance (bs : List UInt8) : Decidable (Long bs) := inferInstanceAs (Decidable (_ ∧ _))

def Numbers (P : List UInt8 → Prop) : Nat → List UInt8 → Prop
  | 0, _ => True
  | n + 1, bs => P bs ∧ Numbers P n (afterNumber bs)

def afterNumbers (n : Nat) (bs : List UInt8) : List UInt8 := afterNumber^[n] bs

instance decidableNumbers (P : List UInt8 → Prop) [DecidablePred P] :
    ∀ n bs, Decidable (Numbers P n bs)
  | 0, _ => .isTrue trivial
  | n + 1, bs =>
    have := decidableNumbers P n (afterNumber bs)
    inferInstanceAs (Decidable (P bs ∧ _))

theorem numbers_add {P : List UInt8 → Prop} {m n : Nat} :
    Numbers P (m + n) bs ↔ Numbers P m bs ∧ Numbers P n (afterNumbers m bs) := by
  induction m generalizing bs with
  | zero =>
    rw [Nat.zero_add]
    exact ⟨fun h => ⟨trivial, h⟩, fun h => h.2⟩
  | succ m ih =>
    rw [Nat.add_right_comm]
    exact (and_congr_right fun _ => ih).trans and_assoc.symm

theorem afterNumbers_add (m n : Nat) (bs : List UInt8) :
    afterNumbers (m + n) bs = afterNumbers n (afterNumbers m bs) := by
  rw [afterNumbers, Nat.add_comm, Function.iterate_add_apply]
  rfl

theorem number_append (bs : List UInt8) : number bs ++ afterNumber bs = bs :=
  List.take_append_drop _ _

theorem continued_cons_of_lt {b : UInt8} (hb : b.toNat < 128) (bs : List UInt8) :
    continued (b :: bs) = 0 := by
  rw [continued, List.takeWhile_cons_of_neg (by simpa using hb)]
  rfl

theorem continued_cons_of_le {b : UInt8} (hb : 128 ≤ b.toNat) (bs : List UInt8) :
    continued (b :: bs) = continued bs + 1 := by
  rw [continued, List.takeWhile_cons_of_pos (by simpa using hb)]
  rfl

theorem number_cons_of_lt {b : UInt8} (hb : b.toNat < 128) (bs : List UInt8) :
    number (b :: bs) = [b] := by
  rw [number, continued_cons_of_lt hb]
  rfl

theorem number_cons_of_le {b : UInt8} (hb : 128 ≤ b.toNat) (bs : List UInt8) :
    number (b :: bs) = b :: number bs := by
  rw [number, continued_cons_of_le hb]
  rfl

theorem ended_cons_of_le {b : UInt8} (hb : 128 ≤ b.toNat) : Ended (b :: bs) ↔ Ended bs := by
  simp only [Ended, List.mem_cons, exists_eq_or_imp]
  exact or_iff_right (by omega)

theorem number_terminated (h : Ended bs) : Terminated (number bs) := by
  induction bs with
  | nil => simp [Ended] at h
  | cons b bs ih =>
    by_cases hb : b.toNat < 128
    · rw [number_cons_of_lt hb]
      exact .last hb
    · rw [number_cons_of_le (by omega)]
      exact .more (by omega) (ih ((ended_cons_of_le (by omega)).mp h))

theorem Terminated.continued (h : Terminated bs) : continued (bs ++ tail) + 1 = bs.length := by
  induction h with
  | last hb =>
    rw [List.singleton_append, continued_cons_of_lt hb]
    rfl
  | more hb _ ih => rw [List.cons_append, continued_cons_of_le hb, List.length_cons, ih]

theorem Terminated.number (h : Terminated bs) : number (bs ++ tail) = bs := by
  rw [Leb128.number, h.continued, List.take_left]

theorem Terminated.afterNumber (h : Terminated bs) : afterNumber (bs ++ tail) = tail := by
  rw [Leb128.afterNumber, h.continued, List.drop_left]

theorem Terminated.ended (h : Terminated bs) : Ended (bs ++ tail) := by
  induction h with
  | last hb => exact ⟨_, List.mem_cons_self, hb⟩
  | more hb _ ih => exact (ended_cons_of_le hb).mpr ih

theorem not_ended (h : ¬ Ended bs) : ∀ b ∈ bs, 128 ≤ b.toNat :=
  fun b hb => Nat.le_of_not_lt fun hlt => h ⟨b, hb, hlt⟩

theorem number_length_le (h : ¬ Long bs) (he : Ended bs) : (number bs).length ≤ 10 := by
  by_contra hlong
  have happend := number_append bs
  have hten : bs.take 10 = (number bs).take 10 := by
    rw [← happend, List.take_append_of_le_length (by omega), happend]
  refine h ⟨?_, fun b hb => ?_⟩
  · rw [← happend, List.length_append]
    omega
  · rw [hten] at hb
    refine continued_initial (number_terminated he) (List.take_prefix _ _) (fun heq => ?_) b hb
    have hlen := congrArg List.length heq
    rw [List.length_take] at hlen
    omega

theorem length_le_of_not_ended (h : ¬ Long bs) (he : ¬ Ended bs) : bs.length ≤ 10 :=
  Nat.le_of_not_lt fun hlt => h ⟨hlt, fun b hb => not_ended he b (List.mem_of_mem_take hb)⟩

end

end Leb128

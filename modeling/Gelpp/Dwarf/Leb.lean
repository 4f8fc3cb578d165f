import Gelpp.Dwarf.Reading
import Gelpp.Library.Leb128

namespace Gelpp

namespace Dwarf

open Leb128 (Terminated unsigned unsigned_cons unsigned_lt signed digit digit_lt continued_initial
  Long Ended number afterNumber)

theorem low_bits (b : UInt8) : (b &&& 0x7f).toNat = digit b := by
  rw [UInt8.toNat_and]
  exact Nat.and_two_pow_sub_one_eq_mod b.toNat 7

theorem high_bit (b : UInt8) : (b &&& 0x80 != 0) = decide (128 ≤ b.toNat) := by
  have h : ∀ n : Fin 256, (UInt8.ofFin n &&& 0x80 != 0) = decide (128 ≤ n.val) := by
    decide +kernel
  exact h b.toFin

theorem leb_or {r : UInt64} {b : UInt8} {p : Nat} (hp : p < 64) (hr : r.toNat < 2 ^ p) :
    (r ||| (b &&& 0x7f).toUInt64 <<< p.toUInt64).toNat = (r.toNat + 2 ^ p * digit b) % 2 ^ 64 := by
  have hpow : 2 ^ p * 2 ^ (64 - p) = 2 ^ 64 := by
    rw [← Nat.pow_add]
    congr 1
    omega
  have hpn : p.toUInt64.toNat % 64 = p := by
    simp only [Nat.toUInt64_eq, UInt64.toNat_ofNat']
    omega
  have hshift : ((b &&& 0x7f).toUInt64 <<< p.toUInt64).toNat =
      2 ^ p * (digit b % 2 ^ (64 - p)) := by
    rw [UInt64.toNat_shiftLeft, hpn, UInt8.toNat_toUInt64, low_bits, Nat.shiftLeft_eq,
      Nat.mul_comm, ← hpow, Nat.mul_mod_mul_left]
  rw [UInt64.toNat_or, hshift, Nat.or_comm, ← Nat.two_pow_add_eq_or_of_lt hr]
  have hmod : 2 ^ p * digit b % 2 ^ 64 = 2 ^ p * (digit b % 2 ^ (64 - p)) := by
    rw [← hpow, Nat.mul_mod_mul_left]
  have hlt : 2 ^ p * (digit b % 2 ^ (64 - p)) + r.toNat < 2 ^ 64 := by
    have h1 : digit b % 2 ^ (64 - p) + 1 ≤ 2 ^ (64 - p) := Nat.mod_lt _ (Nat.two_pow_pos _)
    calc 2 ^ p * (digit b % 2 ^ (64 - p)) + r.toNat
        < 2 ^ p * (digit b % 2 ^ (64 - p)) + 2 ^ p := by omega
      _ = 2 ^ p * (digit b % 2 ^ (64 - p) + 1) := by ring
      _ ≤ 2 ^ p * 2 ^ (64 - p) := Nat.mul_le_mul_left _ h1
      _ = 2 ^ 64 := hpow
  omega

theorem lebBody_rest {s : LebState} {b : UInt8} {tail : List UInt8} (hf : s.c.buf.fence = none)
    (h : s.c.rest = b :: tail) (hp : s.p < 64) :
    lebBody s = .ok {
      c := s.c.forward 1
      r := s.r ||| (b &&& 0x7f).toUInt64 <<< s.p.toUInt64
      p := s.p + 7
      more := decide (128 ≤ b.toNat) } := by
  rw [lebBody, Cursor.readU8_rest hf h, ← high_bit b]
  simp only [errorIf, Res.ok_bind, if_neg (Nat.not_le_of_lt hp)]

-- The induction is on the bytes read: what is in `r` is kept below 2^p while p is at most 63.
theorem lebRun_terminated {bs tail : List UInt8} (hbs : Terminated bs) {s : LebState} {n : Nat}
    (hf : s.c.buf.fence = none) (hrest : s.c.rest = bs ++ tail) (hm : s.more = true)
    (hr : s.r.toNat < 2 ^ s.p) (hlen : s.p + 7 * bs.length ≤ 70) (hn : bs.length ≤ n) :
    ∃ r, r.toNat = (s.r.toNat + 2 ^ s.p * unsigned bs) % 2 ^ 64 ∧
      Loop.run .steps LebState.more lebBody n s = .ok {
        c := s.c.forward bs.length, r, p := s.p + 7 * bs.length, more := false } := by
  induction hbs generalizing s n with
  | @last b hb =>
    obtain ⟨k, rfl⟩ : ∃ k, n = k + 1 := ⟨n - 1, by simp at hn; omega⟩
    have hp : s.p < 64 := by simp at hlen; omega
    have hstep := lebBody_rest hf hrest hp
    rw [decide_eq_false (by omega)] at hstep
    refine ⟨_, ?_, (Loop.run_ok ⟨hm, hstep⟩).trans (Loop.run_done rfl)⟩
    rw [leb_or hp hr]
    simp
  | @more b bs hb ht ih =>
    rw [List.length_cons] at hlen hn
    have hpos := ht.length_pos
    obtain ⟨k, rfl⟩ : ∃ k, n = k + 1 := ⟨n - 1, by omega⟩
    have hp : s.p + 7 ≤ 63 := by omega
    have hstep := lebBody_rest hf hrest (by omega)
    rw [decide_eq_true hb] at hstep
    have hsmall : s.r.toNat + 2 ^ s.p * digit b < 2 ^ (s.p + 7) := by
      have hd := digit_lt b
      calc s.r.toNat + 2 ^ s.p * digit b < 2 ^ s.p + 2 ^ s.p * digit b := by omega
        _ = 2 ^ s.p * (digit b + 1) := by ring
        _ ≤ 2 ^ s.p * 128 := Nat.mul_le_mul_left _ hd
        _ = 2 ^ (s.p + 7) := by rw [Nat.pow_add]
    have hfit : s.r.toNat + 2 ^ s.p * digit b < 2 ^ 64 :=
      hsmall.trans_le (Nat.pow_le_pow_right (by omega) (by omega))
    have hor := leb_or (b := b) (by omega : s.p < 64) hr
    rw [Nat.mod_eq_of_lt hfit] at hor
    let t : LebState := ⟨s.c.forward 1, s.r ||| (b &&& 0x7f).toUInt64 <<< s.p.toUInt64, s.p + 7, true⟩
    have hrest' : t.c.rest = bs ++ tail := by
      rw [Cursor.forward_rest, hrest]
      rfl
    have hr' : t.r.toNat < 2 ^ t.p := by
      rw [hor]
      exact hsmall
    obtain ⟨r, hrn, hrun⟩ := @ih t k hf hrest' rfl hr' (by dsimp only [t]; omega) (by omega)
    refine ⟨r, ?_, ?_⟩
    · rw [hrn]
      dsimp only [t]
      rw [hor, unsigned_cons, Nat.pow_add]
      congr 1
      ring
    · rw [Loop.run_ok ⟨hm, hstep⟩, hrun, List.length_cons]
      dsimp only [t]
      rw [Cursor.forward_forward, Nat.add_comm 1, Nat.mul_add, ← Nat.add_assoc,
        Nat.add_right_comm]

theorem readLEB128_terminated {bs tail : List UInt8} (hbs : Terminated bs)
    (hlen : bs.length ≤ 10) {c : Cursor} (hf : c.buf.fence = none) (hrest : c.rest = bs ++ tail) :
    ∃ r, r.toNat = unsigned bs % 2 ^ 64 ∧ readLEB128 c = .ok {
      c := c.forward bs.length, r, p := 7 * bs.length, more := false } := by
  have hsize := c.rest_length
  rw [hrest, List.length_append] at hsize
  obtain ⟨r, hr, hrun⟩ := lebRun_terminated hbs (s := { c }) (n := c.buf.size - c.off + 1) hf hrest
    rfl (by simp) (by dsimp only; omega) (by omega)
  refine ⟨r, by simpa using hr, ?_⟩
  rw [readLEB128, hrun, Nat.zero_add]

theorem readLEB128U_terminated {bs tail : List UInt8} (hbs : Terminated bs)
    (hlen : bs.length ≤ 10) {c : Cursor} (hf : c.buf.fence = none) (hrest : c.rest = bs ++ tail) :
    readLEB128U c = .ok (.ofNat (unsigned bs), c.forward bs.length) := by
  obtain ⟨r, hr, hread⟩ := readLEB128_terminated hbs hlen hf hrest
  have hreq : r = .ofNat (unsigned bs) := by
    apply UInt64.toNat_inj.mp
    rw [hr, UInt64.toNat_ofNat']
  rw [readLEB128U, hread, hreq]
  rfl

theorem lebBody_late {s : LebState} {b : UInt8} {tail : List UInt8} (hf : s.c.buf.fence = none)
    (h : s.c.rest = b :: tail) (hp : 64 ≤ s.p) : lebBody s = .error (.fault .shift) := by
  rw [lebBody, Cursor.readU8_rest hf h]
  simp only [errorIf, Res.ok_bind, if_pos hp]

theorem lebBody_ended {s : LebState} (hf : s.c.buf.fence = none) (h : s.c.rest = []) :
    lebBody s = raise "debug line error" := by
  rw [lebBody, Cursor.readU8_nil hf h]
  rfl

theorem lebRun_continued {bs tail : List UInt8} (hbs : ∀ b ∈ bs, 128 ≤ b.toNat) {s : LebState} {n : Nat}
    (hf : s.c.buf.fence = none) (hrest : s.c.rest = bs ++ tail) (hm : s.more = true)
    (hlen : s.p + 7 * bs.length ≤ 70) :
    ∃ r, Loop.run .steps LebState.more lebBody (bs.length + n) s =
      Loop.run .steps LebState.more lebBody n
        { c := s.c.forward bs.length, r, p := s.p + 7 * bs.length, more := true } := by
  induction bs generalizing s with
  | nil =>
    obtain ⟨c, r, p, more⟩ := s
    cases hm
    refine ⟨r, ?_⟩
    rw [List.length_nil, Nat.zero_add, Cursor.forward_zero]
    rfl
  | cons b bs ih =>
    obtain ⟨hb, hbs⟩ := List.forall_mem_cons.mp hbs
    rw [List.length_cons] at hlen
    have hstep := lebBody_rest hf hrest (by omega)
    rw [decide_eq_true hb] at hstep
    have hrest' : (s.c.forward 1).rest = bs ++ tail := by
      rw [Cursor.forward_rest, hrest]
      rfl
    obtain ⟨r, hr⟩ := ih hbs (s := ⟨s.c.forward 1, _, s.p + 7, true⟩) hf hrest' rfl
      (by dsimp only; omega)
    refine ⟨r, ?_⟩
    rw [List.length_cons, Nat.add_right_comm, Loop.run_ok ⟨hm, hstep⟩, hr, Cursor.forward_forward,
      Nat.add_comm 1, Nat.mul_add, ← Nat.add_assoc, Nat.add_right_comm s.p]

theorem readLEB128_long {bs tail : List UInt8} {b : UInt8} (hbs : ∀ b ∈ bs, 128 ≤ b.toNat)
    (hlen : bs.length = 10) {c : Cursor} (hf : c.buf.fence = none)
    (hrest : c.rest = bs ++ b :: tail) : readLEB128 c = .error (.fault .shift) := by
  have hsize := c.rest_length
  rw [hrest, List.length_append, List.length_cons] at hsize
  obtain ⟨n, hn⟩ : ∃ n, c.buf.size - c.off + 1 = bs.length + (n + 1) := ⟨tail.length + 1, by omega⟩
  obtain ⟨r, hr⟩ := lebRun_continued hbs (s := { c }) (n := n + 1) hf hrest rfl (by simp [hlen])
  have hlast : (c.forward bs.length).rest = b :: tail := Cursor.forward_tail hrest
  rw [readLEB128, hn, hr]
  exact Loop.run_error rfl (lebBody_late hf hlast (by simp [hlen]))

theorem readLEB128_cut {c : Cursor} (hbs : ∀ b ∈ c.rest, 128 ≤ b.toNat) (hlen : c.rest.length ≤ 10)
    (hf : c.buf.fence = none) : readLEB128 c = raise "debug line error" := by
  have hsize := c.rest_length
  have hrest : c.rest = c.rest ++ [] := (List.append_nil _).symm
  obtain ⟨r, hr⟩ := lebRun_continued hbs (s := { c }) (n := 1) hf hrest rfl (by dsimp only; omega)
  rw [readLEB128, ← hsize, hr]
  exact Loop.run_error rfl (lebBody_ended hf (Cursor.forward_tail hrest))

theorem readLEB128U_long {bs tail : List UInt8} (hbs : Terminated bs) (hlen : 10 < bs.length)
    {c : Cursor} (hf : c.buf.fence = none) (hrest : c.rest = bs ++ tail) :
    readLEB128U c = .error (.fault .shift) := by
  have hne : bs.take 10 ≠ bs := by
    intro h
    have hten := congrArg List.length h
    rw [List.length_take] at hten
    omega
  obtain ⟨b, more, hmore⟩ := List.exists_cons_of_length_pos (l := bs.drop 10) (by simp; omega)
  have hsplit : c.rest = bs.take 10 ++ b :: (more ++ tail) := by
    rw [← List.cons_append, ← hmore, ← List.append_assoc, List.take_append_drop, hrest]
  have hcont := continued_initial hbs (List.take_prefix 10 bs) hne
  rw [readLEB128U, readLEB128_long hcont (by rw [List.length_take]; omega) hf hsplit]
  rfl

theorem signed_bounds {bs : List UInt8} (hpos : 0 < bs.length) :
    -(2 : Int) ^ (7 * bs.length - 1) ≤ signed bs ∧ signed bs < 2 ^ (7 * bs.length - 1) ∧
      ∃ k : Int, signed bs = unsigned bs + k * 2 ^ (7 * bs.length) := by
  obtain ⟨n, hn⟩ : ∃ n, 7 * bs.length = n + 1 := ⟨7 * bs.length - 1, by omega⟩
  have hpow : 128 ^ bs.length = 2 * 2 ^ n := by
    calc 128 ^ bs.length = 2 ^ (7 * bs.length) := (Nat.pow_mul 2 7 _).symm
      _ = 2 * 2 ^ n := by rw [hn, Nat.pow_succ']
  have hint : (128 : Int) ^ bs.length = 2 * 2 ^ n := by exact_mod_cast hpow
  have hlt := unsigned_lt bs
  have hcast : ((2 ^ n : Nat) : Int) = 2 ^ n := by push_cast; rfl
  rw [hn, Nat.add_sub_cancel, signed, hpow, hint, pow_succ]
  rw [hpow] at hlt
  split
  · exact ⟨by omega, by omega, 0, by omega⟩
  · exact ⟨by omega, by omega, -1, by ring⟩

theorem bmod_of_congr {x y k : Int} (h : x = y + k * 2 ^ 64) (hlow : -2 ^ 63 ≤ y)
    (hhigh : y < 2 ^ 63) : x.bmod (2 ^ 64) = y := by
  have hmul : x = y + k * ((2 ^ 64 : Nat) : Int) := by exact_mod_cast h
  rw [hmul, Int.add_mul_bmod_self_right]
  exact Int.bmod_eq_of_le (by omega) (by omega)

theorem signExtend_signed {bs : List UInt8} {r : UInt64} (hpos : 0 < bs.length)
    (hr : r.toNat = unsigned bs % 2 ^ 64) (hlen : bs.length ≤ 10)
    (hlow : -(2 : Int) ^ 63 ≤ signed bs) (hhigh : signed bs < 2 ^ 63) :
    signExtend r (7 * bs.length) = signed bs := by
  obtain ⟨h1, h2, k, hk⟩ := signed_bounds hpos
  have hlt := unsigned_lt bs
  rw [signExtend]
  by_cases hp : bs.length = 10
  · rw [if_neg (by omega), BitVec.toInt_eq_toNat_bmod, UInt64.toNat_toBitVec, hr]
    rw [hp] at hk
    refine bmod_of_congr (k := -(unsigned bs / 2 ^ 64 : Nat) - k * 2 ^ 6) ?_ (by omega) (by omega)
    omega
  · obtain ⟨n, hn⟩ : ∃ n, 64 - 7 * bs.length = n := ⟨_, rfl⟩
    have hpow : (2 : Int) ^ (7 * bs.length) * 2 ^ n = 2 ^ 64 := by
      rw [← pow_add]
      congr 1
      omega
    have hhalf : (2 : Int) ^ (7 * bs.length - 1) * 2 ^ n = 2 ^ 63 := by
      rw [← pow_add]
      congr 1
      omega
    have hfit : unsigned bs % 2 ^ 64 = unsigned bs := by
      refine Nat.mod_eq_of_lt (hlt.trans_le ?_)
      calc 128 ^ bs.length = 2 ^ (7 * bs.length) := (Nat.pow_mul 2 7 _).symm
        _ ≤ 2 ^ 64 := Nat.pow_le_pow_right (by omega) (by omega)
    have hn0 : (0 : Int) < 2 ^ n := by positivity
    have hshift : (r.toBitVec <<< n).toInt = signed bs * 2 ^ n := by
      rw [BitVec.toInt_shiftLeft, UInt64.toNat_toBitVec, hr, hfit, Nat.shiftLeft_eq]
      refine bmod_of_congr (k := -k) ?_ ?_ ?_
      · rw [hk, ← hpow, Nat.cast_mul, Nat.cast_pow, Nat.cast_ofNat]
        ring
      · calc -(2 : Int) ^ 63 = -2 ^ (7 * bs.length - 1) * 2 ^ n := by rw [neg_mul, hhalf]
          _ ≤ signed bs * 2 ^ n := Int.mul_le_mul_of_nonneg_right h1 hn0.le
      · calc signed bs * 2 ^ n < 2 ^ (7 * bs.length - 1) * 2 ^ n :=
            Int.mul_lt_mul_of_pos_right h2 hn0
          _ = 2 ^ 63 := hhalf
    rw [if_pos (by omega), hn, BitVec.toInt_sshiftRight, hshift, Int.shiftRight_eq_div_pow]
    push_cast
    exact Int.mul_ediv_cancel _ hn0.ne'

theorem readLEB128S_terminated {bs tail : List UInt8} (hbs : Terminated bs)
    (hlen : bs.length ≤ 10) {c : Cursor} (hf : c.buf.fence = none) (hrest : c.rest = bs ++ tail)
    (hlow : -(2 : Int) ^ 63 ≤ signed bs) (hhigh : signed bs < 2 ^ 63) :
    readLEB128S c = .ok (signed bs, c.forward bs.length) := by
  obtain ⟨r, hr, hread⟩ := readLEB128_terminated hbs hlen hf hrest
  rw [readLEB128S, hread, ← signExtend_signed hbs.length_pos hr hlen hlow hhigh]
  rfl

def firstU (bs : List UInt8) : UInt64 := .ofNat (unsigned (number bs))

def firstS (bs : List UInt8) : Int := signExtend (firstU bs) (7 * (number bs).length)

section
variable {c : Cursor}

theorem after_number (c : Cursor) :
    (c.forward (number c.rest).length).rest = afterNumber c.rest :=
  Cursor.forward_tail (Leb128.number_append c.rest).symm

theorem readLEB128_eq (hf : c.buf.fence = none) : readLEB128 c =
    if Long c.rest then .error (.fault .shift)
    else if Ended c.rest then .ok {
      c := c.forward (number c.rest).length, r := firstU c.rest, p := 7 * (number c.rest).length
      more := false }
    else raise "debug line error" := by
  have happend := (Leb128.number_append c.rest).symm
  split
  · next h =>
    obtain ⟨b, tail, htail⟩ := List.exists_cons_of_length_pos (l := c.rest.drop 10)
      (by rw [List.length_drop]; have := h.1; omega)
    have hrest : c.rest = c.rest.take 10 ++ b :: tail := by rw [← htail, List.take_append_drop]
    exact readLEB128_long h.2 (by rw [List.length_take]; have := h.1; omega) hf hrest
  · next h =>
    split
    · next he =>
      obtain ⟨r, hr, hread⟩ := readLEB128_terminated (Leb128.number_terminated he)
        (Leb128.number_length_le h he) hf happend
      have hreq : r = firstU c.rest := by
        apply UInt64.toNat_inj.mp
        rw [hr, firstU, UInt64.toNat_ofNat']
      rw [hread, hreq]
    · next he =>
      exact readLEB128_cut (Leb128.not_ended he) (Leb128.length_le_of_not_ended h he) hf

theorem readLEB128U_eq (hf : c.buf.fence = none) : readLEB128U c =
    if Long c.rest then .error (.fault .shift)
    else if Ended c.rest then .ok (firstU c.rest, c.forward (number c.rest).length)
    else raise "debug line error" := by
  rw [readLEB128U, readLEB128_eq hf]
  split
  · rfl
  · split <;> rfl

theorem readLEB128U_ok {r : UInt64 × Cursor} (hf : c.buf.fence = none)
    (h : readLEB128U c = .ok r) :
    Ended c.rest ∧ r = (firstU c.rest, c.forward (number c.rest).length) := by
  rw [readLEB128U_eq hf] at h
  split at h
  · cases h
  · split at h
    · next he =>
      cases h
      exact ⟨he, rfl⟩
    · cases h

theorem readLEB128S_eq (hf : c.buf.fence = none) : readLEB128S c =
    if Long c.rest then .error (.fault .shift)
    else if Ended c.rest then .ok (firstS c.rest, c.forward (number c.rest).length)
    else raise "debug line error" := by
  rw [readLEB128S, readLEB128_eq hf]
  split
  · rfl
  · split <;> rfl

end

end Dwarf

end Gelpp

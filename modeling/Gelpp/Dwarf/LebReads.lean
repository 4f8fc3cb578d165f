import Gelpp.Dwarf.Leb

namespace Gelpp.Dwarf

open Leb128 (encoding encoding_length encoding_terminated unsigned_encoding_of_lt signed_encoding
  continued_initial)

section
variable {c : Cursor}

theorem forward_encoding {v : Int} {n : Nat} {tail : List UInt8}
    (hrest : c.rest = encoding v n ++ tail) :
    (c.forward n).buf = c.buf ∧ (c.forward n).off = c.off + n := by
  have hle := Cursor.off_add_le hrest
  rw [encoding_length] at hle
  exact ⟨rfl, Nat.min_eq_left hle⟩

theorem readLEB128U_encoding (hf : c.buf.fence = none) {v : UInt64} {n : Nat} {tail : List UInt8}
    (hn : n + 1 ≤ 10) (hv : v.toNat < 128 ^ (n + 1))
    (hrest : c.rest = encoding v.toNat (n + 1) ++ tail) :
    readLEB128U c = .ok (v, c.forward (n + 1)) := by
  have hlen := encoding_length v.toNat (n + 1)
  rw [readLEB128U_terminated (encoding_terminated _ n) (by omega) hf hrest, hlen,
    unsigned_encoding_of_lt hv, UInt64.ofNat_toNat]

theorem readLEB128S_encoding (hf : c.buf.fence = none) {v : Int64} {n : Nat} {tail : List UInt8}
    (hn : n + 1 ≤ 10) (hlow : -128 ^ (n + 1) ≤ 2 * v.toInt) (hhigh : 2 * v.toInt < 128 ^ (n + 1))
    (hrest : c.rest = encoding v.toInt (n + 1) ++ tail) :
    readLEB128S c = .ok (v.toInt, c.forward (n + 1)) := by
  have hlen := encoding_length v.toInt (n + 1)
  have hsigned := signed_encoding hlow hhigh
  have hmin := v.le_toInt
  have hmax := v.toInt_lt
  rw [readLEB128S_terminated (encoding_terminated _ n) (by omega) hf hrest (by omega) (by omega),
    hlen, hsigned]

theorem readLEB128_truncated (hf : c.buf.fence = none) {v : Int} {n : Nat} (hn : n + 1 ≤ 10)
    (hpre : c.rest <+: encoding v (n + 1)) (hne : c.rest ≠ encoding v (n + 1)) :
    readLEB128 c = raise "debug line error" := by
  have hle := hpre.length_le
  rw [encoding_length] at hle
  exact readLEB128_cut (continued_initial (encoding_terminated v n) hpre hne) (by omega) hf

theorem leb128_decoded (hf : c.buf.fence = none) {n : Nat} (hpos : 1 ≤ n) (hn : n ≤ 10) :
    (∀ (v : UInt64) (tail : List UInt8), v.toNat < 128 ^ n → c.rest = encoding v.toNat n ++ tail →
      ∃ d, readLEB128U c = .ok (v, d) ∧ d.buf = c.buf ∧ d.off = c.off + n) ∧
    (∀ (v : Int64) (tail : List UInt8), -128 ^ n ≤ 2 * v.toInt → 2 * v.toInt < 128 ^ n →
      c.rest = encoding v.toInt n ++ tail →
      ∃ d, readLEB128S c = .ok (v.toInt, d) ∧ d.buf = c.buf ∧ d.off = c.off + n) ∧
    ∀ v : Int, c.rest <+: encoding v n → c.rest ≠ encoding v n →
      readLEB128U c = raise "debug line error" ∧ readLEB128S c = raise "debug line error" := by
  obtain ⟨k, rfl⟩ : ∃ k, n = k + 1 := ⟨n - 1, by omega⟩
  refine ⟨fun v tail hv hrest => ?_, fun v tail hlow hhigh hrest => ?_, fun v hpre hne => ?_⟩
  · exact ⟨_, readLEB128U_encoding hf hn hv hrest, forward_encoding hrest⟩
  · exact ⟨_, readLEB128S_encoding hf hn hlow hhigh hrest, forward_encoding hrest⟩
  · have hcut := readLEB128_truncated hf hn hpre hne
    constructor
    · rw [readLEB128U, hcut]
      rfl
    · rw [readLEB128S, hcut]
      rfl

end

def bytesCursor (bytes : List UInt8) (h : bytes.length < 2 ^ 63) : Cursor :=
  .start { decoder := nullDecoder, bytes, size_lt := h }

-- -2 takes one byte, and is here in three.
theorem leb128_decoded_padded :
    ∃ d, readLEB128S (bytesCursor [0xfe, 0xff, 0x7f] (by decide)) = .ok ((-2 : Int64).toInt, d) ∧
      d.buf = (bytesCursor [0xfe, 0xff, 0x7f] (by decide)).buf ∧ d.off = 0 + 3 :=
  (leb128_decoded (c := bytesCursor [0xfe, 0xff, 0x7f] (by decide)) rfl (n := 3) (by decide)
    (by decide)).2.1 (-2) [] (by decide) (by decide) (by decide)

section
variable {c : Cursor}

def Overlong (c : Cursor) : Prop :=
  10 < c.rest.length ∧ ∀ b ∈ c.rest.take 10, 128 ≤ b.toNat

instance (c : Cursor) : Decidable (Overlong c) := inferInstanceAs (Decidable (_ ∧ _))

def Answered {α : Type} (x : Res α) : Prop := (∃ a, x = .ok a) ∨ ∃ m, x = .error (.exception m)

structure ShiftsKept (c : Cursor) : Prop where
  shifts : ∀ s, Loop.Visits LebState.more lebBody { c } s → s.more = true → s.c.rest ≠ [] →
    s.p < 64 ∧ s.p + 7 < 2 ^ 31
  unsigned : Answered (readLEB128U c)
  signed : Answered (readLEB128S c)

theorem not_shiftsKept (hf : c.buf.fence = none) (h : Overlong c) : ¬ ShiftsKept c := by
  intro hkept
  obtain ⟨b, tail, htail⟩ := List.exists_cons_of_length_pos (l := c.rest.drop 10)
    (by rw [List.length_drop]; have := h.1; omega)
  have hrest : c.rest = c.rest.take 10 ++ b :: tail := by rw [← htail, List.take_append_drop]
  have hlong := readLEB128_long h.2 (by rw [List.length_take]; have := h.1; omega) hf hrest
  have hread : readLEB128U c = .error (.fault .shift) := by
    rw [readLEB128U, hlong]
    rfl
  obtain ⟨r, hr⟩ | ⟨m, hm⟩ := hkept.unsigned
  · rw [hread] at hr
    cases hr
  · rw [hread] at hm
    cases hm

def Reading (c : Cursor) (s : LebState) : Prop :=
  ∃ bs, c.rest = bs ++ s.c.rest ∧ s.c.buf = c.buf ∧ s.p = 7 * bs.length ∧
    (s.more = true → ∀ b ∈ bs, 128 ≤ b.toNat)

theorem Reading.start (c : Cursor) : Reading c { c } :=
  ⟨[], rfl, rfl, rfl, fun _ => List.forall_mem_nil _⟩

theorem Reading.counter {s : LebState} (hs : Reading c s) (h : ¬ Overlong c) (hm : s.more = true)
    (hne : s.c.rest ≠ []) : s.p < 64 := by
  obtain ⟨bs, hrest, -, hp, hbs⟩ := hs
  by_contra hlate
  have hten : 10 ≤ bs.length := by omega
  refine h ⟨?_, fun b hb => hbs hm b ?_⟩
  · have hlen := List.length_pos_of_ne_nil hne
    rw [hrest, List.length_append]
    omega
  · rw [hrest, List.take_append_of_le_length hten] at hb
    exact List.mem_of_mem_take hb

theorem Reading.turn {s : LebState} (hf : c.buf.fence = none) (hs : Reading c s) (h : ¬ Overlong c)
    (hm : s.more = true) :
    Meets Raised (fun t => Reading c t ∧ (t.more = true → t.c.rest.length < s.c.rest.length))
      (lebBody s) := by
  have hp := hs.counter h hm
  obtain ⟨bs, hrest, hbuf, hcount, hbs⟩ := hs
  have hsf : s.c.buf.fence = none := by rw [hbuf, hf]
  cases hcur : s.c.rest with
  | nil =>
    rw [lebBody_ended hsf hcur]
    exact raised_exception _
  | cons b tail =>
    have hnext : (s.c.forward 1).rest = tail := by
      rw [Cursor.forward_rest, hcur]
      rfl
    rw [lebBody_rest hsf hcur (hp (by rw [hcur]; exact List.cons_ne_nil _ _))]
    refine ⟨⟨bs ++ [b], ?_, hbuf, ?_, fun hmore => ?_⟩, fun _ => ?_⟩
    · rw [hrest, hcur, hnext, List.append_assoc, List.singleton_append]
    · rw [List.length_append, List.length_singleton, hcount, Nat.mul_add]
    · have hb : 128 ≤ b.toNat := of_decide_eq_true hmore
      exact List.forall_mem_append.mpr ⟨hbs hm, List.forall_mem_singleton.mpr hb⟩
    · rw [hnext, List.length_cons]
      exact Nat.lt_succ_self _

theorem readLEB128_answered (hf : c.buf.fence = none) (h : ¬ Overlong c) :
    Meets Raised (fun _ => True) (readLEB128 c) := by
  have hsize := c.rest_length
  refine (Meets.run (Reading c) (fun s => s.c.rest.length)
    (fun s _ hm hs => Reading.turn hf hs h hm) (.start c) fun _ => ?_).post fun _ _ => trivial
  dsimp only
  omega

theorem answered_of_meets {α : Type} {x : Res α} (h : Meets Raised (fun _ => True) x) :
    Answered x := by
  cases x with
  | ok a => exact .inl ⟨a, rfl⟩
  | error e =>
    obtain ⟨m, rfl⟩ := h
    exact .inr ⟨m, rfl⟩

theorem shiftsKept (hf : c.buf.fence = none) (h : ¬ Overlong c) : ShiftsKept c where
  shifts s hv hm hne := by
    have hreading : Reading c s := by
      refine Loop.visits_invariant (fun t u ht hstep => ?_) (.start c) hv
      exact ((Reading.turn hf ht h hstep.1).of_ok hstep.2).1
    have hp := hreading.counter h hm hne
    exact ⟨hp, by omega⟩
  unsigned := answered_of_meets ((readLEB128_answered hf h).bind fun _ _ => trivial)
  signed := answered_of_meets ((readLEB128_answered hf h).bind fun _ _ => trivial)

theorem shifts_kept_iff (hf : c.buf.fence = none) : ShiftsKept c ↔ ¬ Overlong c :=
  ⟨fun hkept h => not_shiftsKept hf h hkept, shiftsKept hf⟩

end

theorem shifts_kept_padded : ShiftsKept (bytesCursor [0xfe, 0xff, 0x7f] (by decide)) :=
  (shifts_kept_iff rfl).mpr (by decide +kernel)

-- The number 0 padded to eleven bytes: the last one is shifted by 70.
theorem eleven_bytes_shifted :
    ¬ ShiftsKept (bytesCursor (.replicate 10 0x80 ++ [0]) (by decide)) :=
  not_shiftsKept rfl (by decide +kernel)

end Gelpp.Dwarf

import Gelpp.Cursor
import Gelpp.Library.Meets

namespace Gelpp

theorem takeWhile_length_lt_iff (l : List UInt8) :
    (l.takeWhile (· ≠ 0)).length < l.length ↔ 0 ∈ l := by
  induction l with
  | nil => simp
  | cons b l ih =>
    by_cases hb : b = 0
    · simp [hb]
    · simp only [List.mem_cons, Ne.symm hb, false_or]
      rw [List.takeWhile_cons_of_pos (by simpa using hb), List.length_cons, List.length_cons,
        Nat.add_lt_add_iff_right]
      exact ih

namespace Cursor

@[simp] theorem forward_buf (c : Cursor) (n : Nat) : (c.forward n).buf = c.buf := rfl

theorem forward_off {c : Cursor} {n : Nat} (h : c.off + n ≤ c.buf.size) :
    (c.forward n).off = c.off + n := Nat.min_eq_left h

theorem forward_rest (c : Cursor) (n : Nat) : (c.forward n).rest = c.rest.drop n := by
  change c.buf.bytes.drop (min (c.off + n) c.buf.size) = _
  rw [rest, List.drop_drop]
  by_cases h : c.off + n ≤ c.buf.size
  · rw [Nat.min_eq_left h]
  · have hlen : c.buf.bytes.length ≤ c.off + n := Nat.le_of_not_le h
    rw [Nat.min_eq_right (Nat.le_of_not_le h), Buffer.size, List.drop_length,
      List.drop_eq_nil_of_le hlen]

theorem rest_length (c : Cursor) : c.rest.length = c.buf.size - c.off := by
  simp [rest, Buffer.size]

theorem size_lt (c : Cursor) : c.buf.size < 2 ^ 63 := c.buf.size_lt

structure Past (n : Nat) (c d : Cursor) : Prop where
  buf : d.buf = c.buf
  off : c.off + n ≤ d.off

namespace Past

variable {m n : Nat} {c d e : Cursor}

theorem refl (c : Cursor) : Past 0 c c := ⟨rfl, Nat.le_refl _⟩

theorem trans (h : Past m c d) (h' : Past n d e) : Past (m + n) c e :=
  ⟨h'.buf.trans h.buf, by
    have := h.off
    have := h'.off
    omega⟩

theorem weaken (h : Past m c d) (hn : n ≤ m) : Past n c d :=
  ⟨h.buf, by
    have := h.off
    omega⟩

end Past

section
variable {α : Type} {n : Nat} {get : Buffer → Nat → α} {c : Cursor}

theorem avail_of_le (h : c.off + n ≤ c.buf.size) : c.avail n := by
  have hlt := c.size_lt
  rw [avail, Nat.mod_eq_of_lt (by omega)]
  exact h

theorem not_avail (hn : c.off + n < 2 ^ 64) (h : c.buf.size < c.off + n) : ¬ c.avail n := by
  rw [avail, Nat.mod_eq_of_lt hn]
  exact Nat.not_le_of_lt h

theorem advance_eq (h : c.off + n ≤ c.buf.size) (ha : c.avail n) : c.advance n ha = c.forward n := by
  have hlt := c.size_lt
  have hmod : (c.off + n) % 2 ^ 64 = c.off + n := Nat.mod_eq_of_lt (by omega)
  simp only [advance, forward, hmod, Nat.min_eq_left h]

theorem read_some (hf : c.buf.fence = none) (h : c.off + n ≤ c.buf.size) :
    c.read n get = .ok (some (get c.buf c.off, c.forward n)) := by
  rw [read, Buffer.demand_unfenced hf, Res.ok_bind, dif_pos (avail_of_le h), advance_eq h]
  rfl

theorem read_none (hf : c.buf.fence = none) (hn : n < 2 ^ 63) (h : c.buf.size < c.off + n) :
    c.read n get = .ok none := by
  have hlt := c.size_lt
  have hle := c.off_le
  rw [read, Buffer.demand_unfenced hf, Res.ok_bind, dif_neg (not_avail (by omega) h)]
  rfl

theorem read_meets {A : Stop → Prop} (hf : c.buf.fence = none) (hn : n < 2 ^ 63) :
    Meets A (fun o => ∀ v d, o = some (v, d) → Past n c d) (c.read n get) := by
  by_cases h : c.off + n ≤ c.buf.size
  · rw [read_some hf h]
    rintro v d heq
    cases heq
    exact ⟨rfl, (forward_off h).ge⟩
  · rw [read_none hf hn (Nat.lt_of_not_le h)]
    rintro v d heq
    cases heq

end

theorem skip_meets {A : Stop → Prop} {c : Cursor} {n : Nat} (hf : c.buf.fence = none) :
    Meets A (fun o => ∀ d, o = some d → d.buf = c.buf ∧ d.off = (c.off + n) % 2 ^ 64)
      (c.skip n) := by
  rw [skip, Buffer.demand_unfenced hf, Res.ok_bind]
  split
  · rintro d heq
    cases heq
    exact ⟨rfl, rfl⟩
  · rintro d heq
    cases heq

theorem skip_forward {c : Cursor} {n : Nat} (hf : c.buf.fence = none)
    (h : c.off + n ≤ c.buf.size) : c.skip n = .ok (some (c.forward n)) := by
  rw [skip, Buffer.demand_unfenced hf, Res.ok_bind, dif_pos (avail_of_le h), advance_eq h]
  rfl

theorem skip_refused {c : Cursor} {n : Nat} (hf : c.buf.fence = none) (hn : c.off + n < 2 ^ 64)
    (h : c.buf.size < c.off + n) : c.skip n = .ok none := by
  rw [skip, Buffer.demand_unfenced hf, Res.ok_bind, dif_neg (not_avail hn h)]
  rfl

theorem move_some {c : Cursor} {o : Nat} (hf : c.buf.fence = none) (h : o ≤ c.buf.size) :
    c.move o = .ok (some { c with off := o, off_le := h }) := by
  rw [move, Buffer.demand_unfenced hf, Res.ok_bind, dif_pos h]
  rfl

theorem move_none {c : Cursor} {o : Nat} (hf : c.buf.fence = none) (h : c.buf.size < o) :
    c.move o = .ok none := by
  rw [move, Buffer.demand_unfenced hf, Res.ok_bind, dif_neg (by omega)]
  rfl

theorem readCString_meets {A : Stop → Prop} {c : Cursor} (hf : c.buf.fence = none) :
    Meets A (fun r => match r with
      | .absent => True
      | .unterminated d => Past 0 c d
      | .found _ d => Past 1 c d) c.readCString := by
  have hlen := c.rest_length
  have hle := (List.takeWhile_prefix (l := c.rest) (· ≠ (0 : UInt8))).length_le
  have hoff := c.off_le
  rw [readCString]
  simp only [Buffer.demand_unfenced hf, Res.ok_bind]
  split
  · trivial
  · split
    · exact ⟨rfl, by rw [forward_off (by omega)]; omega⟩
    · exact ⟨rfl, by rw [forward_off (by omega)]; omega⟩

theorem readU8_rest {c : Cursor} {b : UInt8} {tail : List UInt8} (hf : c.buf.fence = none)
    (h : c.rest = b :: tail) : c.readU8 = .ok (some (b, c.forward 1)) := by
  have hlen := c.rest_length
  have hbyte : c.buf.getU8 c.off = b := by
    have hget : c.buf.bytes[c.off]? = some b := by
      rw [← Nat.add_zero c.off, ← List.getElem?_drop]
      change c.rest[0]? = some b
      rw [h]
      rfl
    rw [Buffer.getU8, List.getD_eq_getElem?_getD, hget]
    rfl
  rw [h, List.length_cons] at hlen
  rw [readU8, read_some hf (by omega), hbyte]

theorem readU8_nil {c : Cursor} (hf : c.buf.fence = none) (h : c.rest = []) :
    c.readU8 = .ok none := by
  have hlen := c.rest_length
  rw [h, List.length_nil] at hlen
  exact read_none hf (by omega) (by omega)

theorem forward_zero (c : Cursor) : c.forward 0 = c := by
  have h : min (c.off + 0) c.buf.size = c.off := Nat.min_eq_left c.off_le
  simp only [forward, h]

theorem forward_forward (c : Cursor) (m n : Nat) : (c.forward m).forward n = c.forward (m + n) := by
  simp only [forward]
  congr 1
  omega

theorem off_le_forward (c : Cursor) (n : Nat) : c.off ≤ (c.forward n).off :=
  Nat.le_min.mpr ⟨Nat.le_add_right _ _, c.off_le⟩

section
variable {c : Cursor} {bs tail : List UInt8}

theorem off_add_le (h : c.rest = bs ++ tail) : c.off + bs.length ≤ c.buf.size := by
  have hlen := c.rest_length
  have hle := c.off_le
  rw [h, List.length_append] at hlen
  omega

theorem forward_tail (h : c.rest = bs ++ tail) : (c.forward bs.length).rest = tail := by
  rw [forward_rest, h, List.drop_left]

theorem forward_one {b : UInt8} (h : c.rest = b :: tail) :
    (c.forward 1).rest = tail ∧ (c.forward 1).off = c.off + 1 := by
  have hone : c.rest = [b] ++ tail := h
  exact ⟨forward_tail hone, forward_off (off_add_le hone)⟩

theorem off_of_rest {d : Cursor} (h : c.rest = bs ++ tail) (hbuf : d.buf = c.buf) (hd : d.rest = tail) :
    d.off = c.off + bs.length := by
  have hlen := c.rest_length
  have hlen' := d.rest_length
  have hle := c.off_le
  have hle' := d.off_le
  rw [h, List.length_append] at hlen
  rw [hd, hbuf] at hlen'
  rw [hbuf] at hle'
  omega

theorem slice_rest (h : c.rest = bs ++ tail) : c.buf.slice c.off bs.length = bs := by
  change c.rest.take bs.length = bs
  rw [h, List.take_left]

theorem readU16_rest (hf : c.buf.fence = none) (h : c.rest = bs ++ tail) (hlen : bs.length = 2) :
    ∃ v : UInt16, v.toNat = c.buf.decoder.order.value bs ∧
      c.readU16 = .ok (some (v, c.forward bs.length)) := by
  have hle := off_add_le h
  have hslice := slice_rest h
  rw [hlen] at hle hslice ⊢
  refine ⟨c.buf.getU16 c.off, ?_, read_some hf hle⟩
  rw [Buffer.getU16, hslice, c.buf.decoder.fix16_load bs hlen]

theorem readU32_rest (hf : c.buf.fence = none) (h : c.rest = bs ++ tail) (hlen : bs.length = 4) :
    ∃ v : UInt32, v.toNat = c.buf.decoder.order.value bs ∧
      c.readU32 = .ok (some (v, c.forward bs.length)) := by
  have hle := off_add_le h
  have hslice := slice_rest h
  rw [hlen] at hle hslice ⊢
  refine ⟨c.buf.getU32 c.off, ?_, read_some hf hle⟩
  rw [Buffer.getU32, hslice, c.buf.decoder.fix32_load bs hlen]

theorem readU64_rest (hf : c.buf.fence = none) (h : c.rest = bs ++ tail) (hlen : bs.length = 8) :
    ∃ v : UInt64, v.toNat = c.buf.decoder.order.value bs ∧
      c.readU64 = .ok (some (v, c.forward bs.length)) := by
  have hle := off_add_le h
  have hslice := slice_rest h
  rw [hlen] at hle hslice ⊢
  refine ⟨c.buf.getU64 c.off, ?_, read_some hf hle⟩
  rw [Buffer.getU64, hslice, c.buf.decoder.fix64_load bs hlen]

end

end Cursor

end Gelpp

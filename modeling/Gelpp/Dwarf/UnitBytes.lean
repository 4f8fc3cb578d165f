import Gelpp.Dwarf.Reading

namespace Gelpp

structure Buffer.Holds (b : Buffer) (decoder : Decoder) (bytes : List UInt8) : Prop where
  decoder : b.decoder = decoder
  bytes : b.bytes = bytes
  free : b.fence = none

namespace Dwarf

def IsUnit (decoder : Decoder) (bytes : List UInt8) : Prop :=
  ∃ b : Buffer, b.Holds decoder bytes ∧ ∃ length is64 c,
    readUnitLength (.start b) = .ok (length, is64, c) ∧ c.off + length.toNat = bytes.length

section
variable {b b' : Buffer} {decoder : Decoder} {p q : List UInt8}

theorem readUnitLength_start (hf : b.fence = none) : readUnitLength (.start b) =
    if b.size < 4 then raise "debug line error"
    else if b.getU32 0 < 0xffffff00 then
      .ok ((b.getU32 0).toUInt64, false, (Cursor.start b).forward 4)
    else if b.size < 12 then raise "debug line error"
    else .ok (b.getU64 4, true, ((Cursor.start b).forward 4).forward 8) := by
  have hstart : (Cursor.start b).off = 0 := rfl
  have hbuf : (Cursor.start b).buf.size = b.size := rfl
  have hbuf4 : ((Cursor.start b).forward 4).buf.size = b.size := rfl
  by_cases h4 : b.size < 4
  · rw [if_pos h4, readUnitLength, Cursor.readU32, Cursor.read_none hf (by omega) (by omega)]
    rfl
  · have hle : (Cursor.start b).off + 4 ≤ b.size := by omega
    have hoff : ((Cursor.start b).forward 4).off = 4 := Cursor.forward_off hle
    rw [if_neg h4, readUnitLength, Cursor.readU32, Cursor.read_some hf hle]
    change (if b.getU32 0 < 0xffffff00 then _ else _) = _
    split
    · rfl
    · by_cases h12 : b.size < 12
      · rw [if_pos h12, Cursor.readU64, Cursor.read_none hf (by omega) (by omega)]
        rfl
      · rw [if_neg h12, Cursor.readU64, Cursor.read_some hf (by omega), hoff]
        rfl

def UnitSize (b : Buffer) (n : Nat) : Prop :=
  4 ≤ b.size ∧ if b.getU32 0 < 0xffffff00 then 4 + (b.getU32 0).toNat = n
    else 12 ≤ b.size ∧ 12 + (b.getU64 4).toNat = n

theorem IsUnit.unitSize (h : IsUnit decoder p) (hb : b.Holds decoder p) : UnitSize b b.size := by
  obtain ⟨b₀, h₀, length, is64, c, hread, hend⟩ := h
  obtain rfl : b₀ = b := by
    cases b₀
    cases b
    obtain ⟨rfl, rfl, rfl⟩ := h₀
    obtain ⟨rfl, rfl, rfl⟩ := hb
    rfl
  rw [readUnitLength_start hb.free] at hread
  rw [← hb.bytes, ← Buffer.size] at hend
  split at hread
  · cases hread
  · next h4 =>
    refine ⟨by omega, ?_⟩
    split at hread
    · next h32 =>
      cases hread
      rw [if_pos h32]
      rw [Cursor.forward_off (by change 0 + 4 ≤ b₀.size; omega), UInt32.toNat_toUInt64] at hend
      change 0 + 4 + _ = _ at hend
      omega
    · next h32 =>
      rw [if_neg h32]
      split at hread
      · cases hread
      · next h12 =>
        cases hread
        have h1 : ((Cursor.start b₀).forward 4).off = 0 + 4 :=
          Cursor.forward_off (by change 0 + 4 ≤ b₀.size; omega)
        rw [Cursor.forward_off (by rw [h1]; change 0 + 4 + 8 ≤ b₀.size; omega), h1] at hend
        exact ⟨by omega, hend⟩

theorem getU_prefix (hdec : b'.decoder = b.decoder) (h : b.bytes <+: b'.bytes) :
    (4 ≤ b.size → b'.getU32 0 = b.getU32 0) ∧ (12 ≤ b.size → b'.getU64 4 = b.getU64 4) := by
  obtain ⟨more, hmore⟩ := h
  have hslice (o k : Nat) (hk : o + k ≤ b.size) : b'.slice o k = b.slice o k := by
    rw [Buffer.slice, Buffer.slice, ← hmore]
    rw [Buffer.size] at hk
    rw [List.drop_append_of_le_length (by omega), List.take_append_of_le_length (by
      rw [List.length_drop]
      omega)]
  exact ⟨fun h4 => by rw [Buffer.getU32, Buffer.getU32, hslice 0 4 h4, hdec],
    fun h12 => by rw [Buffer.getU64, Buffer.getU64, hslice 4 8 h12, hdec]⟩

theorem IsUnit.eq_of_prefix (hp : IsUnit decoder p) (hq : IsUnit decoder q) (h : p <+: q) : p = q := by
  obtain ⟨b, hb, -⟩ := id hp
  obtain ⟨b', hb', -⟩ := id hq
  obtain ⟨h4, hn⟩ := hp.unitSize hb
  obtain ⟨-, hn'⟩ := hq.unitSize hb'
  have hbytes : b.bytes <+: b'.bytes := by rwa [hb.bytes, hb'.bytes]
  obtain ⟨h32, h64⟩ := getU_prefix (hb'.decoder.trans hb.decoder.symm) hbytes
  refine h.eq_of_length ?_
  rw [← hb.bytes, ← hb'.bytes, ← Buffer.size, ← Buffer.size]
  rw [h32 h4] at hn'
  split at hn
  · next hlt =>
    rw [if_pos hlt] at hn'
    omega
  · next hlt =>
    rw [if_neg hlt, h64 hn.1] at hn'
    omega

theorem IsUnit.ne_nil (hp : IsUnit decoder p) : p ≠ [] := by
  obtain ⟨b, hb, -⟩ := id hp
  obtain ⟨h4, -⟩ := hp.unitSize hb
  rintro rfl
  rw [Buffer.size, hb.bytes] at h4
  simp at h4

theorem not_flatten_half {ps qs : List (List UInt8)} {half more : List UInt8}
    (hps : ∀ p ∈ ps, IsUnit decoder p) (hqs : ∀ q ∈ qs, IsUnit decoder q)
    (hlast : IsUnit decoder (half ++ more)) (hhalf : half ≠ []) (hmore : more ≠ []) :
    ps.flatten ++ half ≠ qs.flatten := by
  intro heq
  induction ps generalizing qs with
  | nil =>
    cases qs with
    | nil => exact hhalf heq
    | cons q qs =>
      have hq := hqs q List.mem_cons_self
      rw [List.flatten_nil, List.nil_append, List.flatten_cons] at heq
      rw [heq, List.append_assoc] at hlast
      have hsame := hq.eq_of_prefix hlast (List.prefix_append _ _)
      have hempty := List.self_eq_append_right.mp hsame
      exact hmore (List.append_eq_nil_iff.mp hempty).2
  | cons p ps ih =>
    have hp := hps p List.mem_cons_self
    cases qs with
    | nil =>
      rw [List.flatten_cons, List.flatten_nil, List.append_assoc] at heq
      exact hp.ne_nil (List.append_eq_nil_iff.mp heq).1
    | cons q qs =>
      have hq := hqs q List.mem_cons_self
      rw [List.flatten_cons, List.flatten_cons, List.append_assoc] at heq
      obtain rfl : p = q := by
        rcases List.prefix_or_prefix_of_prefix (List.prefix_append p _)
          (heq ▸ List.prefix_append q qs.flatten) with h | h
        · exact hp.eq_of_prefix hq h
        · exact (hq.eq_of_prefix hp h).symm
      exact ih (fun p hp => hps p (List.mem_cons_of_mem _ hp))
        (fun q hq => hqs q (List.mem_cons_of_mem _ hq)) (List.append_cancel_left heq)

end

end Dwarf

end Gelpp

import Gelpp.Dwarf.Refused
import Gelpp.Dwarf.TableRead

namespace Gelpp.Dwarf

open Leb128 (Terminated unsigned)

section
variable {s : Reader} {ls operand tail : List UInt8}

structure SetAddressAt (s : Reader) (ls operand tail : List UInt8) : Prop where
  rest : s.c.rest = 0 :: (ls ++ 2 :: (operand ++ tail))
  terminated : Terminated ls
  length : unsigned ls = 1 + operand.length
  width : operand.length = 4 ∨ operand.length = 8

def operandEnd (s : Reader) (ls operand : List UInt8) : Nat :=
  s.c.off + (2 + ls.length + operand.length)

structure AddressSet (s : Reader) (ls operand : List UInt8) (t : Reader) : Prop where
  address : t.sm.address.toNat = s.c.buf.decoder.order.value operand
  opIndex : t.sm.opIndex = 0
  buf : t.c.buf = s.c.buf
  off : t.c.off = operandEnd s ls operand

-- readAddress takes an offset of the unit's format, op_index is left as it is, and the move to the
-- end of the opcode is made in an int.
structure AddressFits (s : Reader) (ls operand tail : List UInt8) : Prop where
  extended : 0 < s.sm.opcodeBase.toNat
  length : ls.length ≤ 10
  room : offsetSize s.dl.is64 ≤ (operand ++ tail).length
  value : s.c.buf.decoder.order.value ((operand ++ tail).take (offsetSize s.dl.is64)) =
    s.c.buf.decoder.order.value operand
  opIndex : s.sm.opIndex = 0
  place : operandEnd s ls operand < 2 ^ 31 ∨
    2 ^ 31 ≤ operandEnd s ls operand % 2 ^ 32 ∧ operand.length = offsetSize s.dl.is64

theorem operandEnd_le (h : SetAddressAt s ls operand tail) :
    operandEnd s ls operand + tail.length = s.c.buf.size := by
  have hlen := s.c.rest_length
  have hle := s.c.off_le
  rw [h.rest, List.length_cons, List.length_append, List.length_cons, List.length_append] at hlen
  rw [operandEnd]
  omega

theorem moveTo_off {o : Nat} (hf : s.c.buf.fence = none) : ∃ c, s.moveTo o = .ok { s with c } ∧
    c.buf = s.c.buf ∧ c.off = if o ≤ s.c.buf.size then o else s.c.off := by
  rw [Reader.moveTo]
  by_cases h : o ≤ s.c.buf.size
  · rw [Cursor.move_some hf h, if_pos h]
    exact ⟨_, rfl, rfl, rfl⟩
  · rw [Cursor.move_none hf (by omega), if_neg h]
    exact ⟨_, rfl, rfl, rfl⟩

theorem readAddress_short {is64 : Bool} {c : Cursor} (hf : c.buf.fence = none)
    (h : c.rest.length < offsetSize is64) : readAddress is64 c = raise "debug line error" := by
  have hlen := c.rest_length
  have hle := c.off_le
  have hlt := c.size_lt
  cases is64 with
  | true =>
    have hsize : c.rest.length < 8 := h
    rw [readAddress, if_pos rfl, Cursor.readU64, Cursor.read_none hf (by omega) (by omega)]
    rfl
  | false =>
    have hsize : c.rest.length < 4 := h
    rw [readAddress, if_neg (by decide), Cursor.readU32, Cursor.read_none hf (by omega) (by omega)]
    rfl

theorem move_place {p q size : Nat} (hp : p ≤ size) (hsize : size < 2 ^ 63) :
    (if extendedEnd 0 p ≤ size then extendedEnd 0 p else q) = p ↔
      p < 2 ^ 31 ∨ 2 ^ 31 ≤ p % 2 ^ 32 ∧ q = p := by
  rw [extendedEnd, UInt64.toNat_zero, Nat.zero_add]
  split <;> split <;> omega

variable {join : Path → Path → Path} {e : Nat}

theorem decode_setAddress (hf : s.c.buf.fence = none) (h : SetAddressAt s ls operand tail)
    (hbase : 0 < s.sm.opcodeBase.toNat) (hlen : ls.length ≤ 10) :
    decode s = readAddress s.dl.is64 (s.c.forward (2 + ls.length)) >>= fun r => .ok {
      action := .setAddress r.1, c := r.2
      target := some (extendedEnd 0 (operandEnd s ls operand)) } := by
  have hwidth := h.width
  have hend : extendedEnd (.ofNat (unsigned ls)) (s.c.off + (1 + ls.length)) =
      extendedEnd 0 (operandEnd s ls operand) := by
    rw [extendedEnd_add, h.length, ofNat_toNat (by omega), operandEnd]
    congr 1
    omega
  have haddress (c : Cursor) : decodeExtendedOpcode s.dl.is64 2 c =
      readAddress s.dl.is64 c >>= fun r => .ok { action := .setAddress r.1, c := r.2 } := by
    rw [decodeExtendedOpcode, if_neg (by decide), if_pos rfl]
    rfl
  rw [decode_extended hf h.rest hbase ⟨h.terminated, hlen⟩, hend, haddress, bind_assoc]
  rfl

theorem step_setAddress (hf : s.c.buf.fence = none) (h : SetAddressAt s ls operand tail)
    (hlt : s.c.off < e) (hbase : 0 < s.sm.opcodeBase.toNat) (hlen : ls.length ≤ 10)
    (hroom : offsetSize s.dl.is64 ≤ (operand ++ tail).length) :
    ∃ t, step join e s = .ok t ∧ t.sm.opIndex = s.sm.opIndex ∧ t.c.buf = s.c.buf ∧
      t.sm.address.toNat =
        s.c.buf.decoder.order.value ((operand ++ tail).take (offsetSize s.dl.is64)) ∧
      (t.c.off = operandEnd s ls operand ↔ operandEnd s ls operand < 2 ^ 31 ∨
        2 ^ 31 ≤ operandEnd s ls operand % 2 ^ 32 ∧ operand.length = offsetSize s.dl.is64) := by
  obtain ⟨bs, hbs⟩ : ∃ bs, bs = (operand ++ tail).take (offsetSize s.dl.is64) := ⟨_, rfl⟩
  have hbslen : bs.length = offsetSize s.dl.is64 := by
    rw [hbs, List.length_take]
    omega
  have hrest : (s.c.forward (2 + ls.length)).rest =
      bs ++ (operand ++ tail).drop (offsetSize s.dl.is64) := by
    rw [extended_rest h.rest, hbs, List.take_append_drop]
  have hread := readAddress_encoded (c := s.c.forward (2 + ls.length)) hf hbslen hrest
  have hdecode := decode_setAddress hf h hbase hlen
  rw [hread, Res.ok_bind] at hdecode
  let u : Reader := { s with
    c := (s.c.forward (2 + ls.length)).forward bs.length
    sm.address := .ofNat (s.c.buf.decoder.order.value bs) }
  obtain ⟨c, hmove, hbuf, hoff⟩ := moveTo_off (s := u) (o := extendedEnd 0 (operandEnd s ls operand)) hf
  have hvalue := s.c.buf.decoder.order.value_lt bs
  have hsize : (256 : Nat) ^ bs.length ≤ 2 ^ 64 := by
    rw [hbslen]
    cases s.dl.is64 <;> decide
  refine ⟨{ u with c }, ?_, rfl, hbuf, ?_, ?_⟩
  · rw [step_eq, if_neg (by omega), hdecode]
    exact hmove
  · rw [← hbs]
    exact UInt64.toNat_ofNat_of_lt' (hvalue.trans_le hsize)
  · have hend := operandEnd_le h
    have hplace := s.c.off_le
    have hrestlen := s.c.rest_length
    have hbound := s.c.size_lt
    have hu : u.c.off = s.c.off + (2 + ls.length + bs.length) := by
      have hfwd : u.c = s.c.forward (2 + ls.length + bs.length) := Cursor.forward_forward ..
      rw [hfwd, Cursor.forward_off]
      rw [List.length_append] at hroom
      rw [operandEnd] at hend
      omega
    change c.off = _ ↔ _
    rw [hoff, hu, hbslen]
    change (if _ ≤ s.c.buf.size then _ else _) = _ ↔ _
    rw [move_place (by omega) hbound]
    refine or_congr_right (and_congr_right fun _ => ?_)
    rw [operandEnd]
    omega

theorem decode_long (hf : s.c.buf.fence = none) (h : SetAddressAt s ls operand tail)
    (hbase : 0 < s.sm.opcodeBase.toNat) (hlen : 10 < ls.length) :
    decode s = .error (.fault .shift) := by
  have hrest : (s.c.forward 1).rest = ls ++ 2 :: (operand ++ tail) := by
    rw [Cursor.forward_rest, h.rest]
    rfl
  rw [decode_zero hf h.rest hbase, decodeExtended,
    readLEB128U_long h.terminated hlen (c := s.c.forward 1) hf hrest]
  rfl

theorem special_cursor (opcode : UInt8) (s : Reader) :
    Meets Any (fun t => t.c = s.c) (special opcode s) :=
  Meets.ite (fun _ => trivial) fun _ => (Meets.any _).bind fun _ _ => (Meets.any _).bind fun _ _ =>
    (Meets.any _).bind fun _ _ => rfl

theorem special_opcode {t : Reader} {b : UInt8} {bs : List UInt8} (hf : s.c.buf.fence = none)
    (hrest : s.c.rest = b :: bs) (hlt : s.c.off < e) (h0 : s.sm.opcodeBase.toNat = 0)
    (h : step join e s = .ok t) : t.c.off = s.c.off + 1 := by
  have hbase : s.sm.opcodeBase ≤ b := UInt8.le_iff_toNat_le.mpr (by omega)
  have hle : s.c.off + 1 ≤ s.c.buf.size := Cursor.off_add_le (by rw [hrest]; rfl : s.c.rest = [b] ++ bs)
  rw [step_eq, if_neg (by omega), decode_cons hf hrest, if_pos hbase, Res.ok_bind] at h
  obtain ⟨u, hu, hland⟩ := Res.bind_ok.mp h
  cases hland
  rw [(special_cursor b _).of_ok hu]
  exact Cursor.forward_off hle

theorem set_address_iff (hf : s.c.buf.fence = none) (h : SetAddressAt s ls operand tail)
    (hlt : s.c.off < e) :
    (∃ t, step join e s = .ok t ∧ AddressSet s ls operand t) ↔ AddressFits s ls operand tail := by
  constructor
  · rintro ⟨t, ht, hset⟩
    have hbase : 0 < s.sm.opcodeBase.toNat := Nat.pos_of_ne_zero fun h0 => by
      have hoff := special_opcode hf h.rest hlt h0 ht
      rw [hset.off, operandEnd] at hoff
      omega
    have hlen : ls.length ≤ 10 := Nat.le_of_not_lt fun hlong => by
      rw [step_eq, if_neg (by omega), decode_long hf h hbase hlong] at ht
      cases ht
    have hroom : offsetSize s.dl.is64 ≤ (operand ++ tail).length := Nat.le_of_not_lt fun hshort => by
      have hrest : (s.c.forward (2 + ls.length)).rest.length < offsetSize s.dl.is64 := by
        rw [extended_rest h.rest]
        exact hshort
      have hread := readAddress_short (c := s.c.forward (2 + ls.length)) hf hrest
      rw [step_eq, if_neg (by omega), decode_setAddress hf h hbase hlen, hread] at ht
      cases ht
    obtain ⟨u, hu, hindex, -, haddress, hoff⟩ := step_setAddress hf h hlt hbase hlen hroom
    rw [hu] at ht
    cases ht
    exact ⟨hbase, hlen, hroom, haddress.symm.trans hset.address, hindex.symm.trans hset.opIndex,
      hoff.mp hset.off⟩
  · rintro ⟨hbase, hlen, hroom, hvalue, hindex, hplace⟩
    obtain ⟨u, hu, huindex, hbuf, haddress, hoff⟩ :=
      step_setAddress hf h hlt hbase hlen hroom
    exact ⟨u, hu, haddress.trans hvalue, huindex.trans hindex, hbuf, hoff.mpr hplace⟩

end

-- A unit in 32-bit format with the program set_address, copy, end_sequence: the operand has 4 bytes,
-- then 8, for the address 2^32.
def lowAddress : Scan :=
  lineBuffer [30, 0, 0, 0, 2, 0, 13, 0, 0, 0, 1, 1, 0xfb, 14, 2, 0, 0, 97, 0, 0, 0, 0, 0, 0, 5, 2, 0, 16,
    0, 0, 1, 0, 1, 1] (by decide)

def highAddress : Scan :=
  lineBuffer [34, 0, 0, 0, 2, 0, 13, 0, 0, 0, 1, 1, 0xfb, 14, 2, 0, 0, 97, 0, 0, 0, 0, 0, 0, 9, 2, 0, 0,
    0, 0, 1, 0, 0, 0, 1, 0, 1, 1] (by decide)

theorem set_address_lowAddress : ∃ s, OpcodeAt slashed lowAddress s 34 ∧
    ((∃ t, step slashed 34 s = .ok t ∧ AddressSet s [5] [0, 16, 0, 0] t) ↔
      AddressFits s [5] [0, 16, 0, 0] [1, 0, 1, 1]) := by
  obtain ⟨s, -, hs, hfirst⟩ : ∃ s, firstOpcode slashed lowAddress = .ok (s, 34) ∧
      OpcodeAt slashed lowAddress s 34 ∧ FirstAt s 34 23 2 2 [0, 5, 2, 0, 16, 0, 0, 1, 0, 1, 1] :=
    OpcodeAt.first rfl (by decide) (by decide +kernel)
  have hat : SetAddressAt s [5] [0, 16, 0, 0] [1, 0, 1, 1] :=
    ⟨hfirst.rest, .last (by decide), rfl, .inl rfl⟩
  exact ⟨s, hs, set_address_iff (hs.plain ⟨rfl, rfl, rfl⟩).c hat hfirst.lt⟩

theorem highAddress_cut : ∃ s t, OpcodeAt slashed highAddress s 38 ∧
    SetAddressAt s [9] [0, 0, 0, 0, 1, 0, 0, 0] [1, 0, 1, 1] ∧ step slashed 38 s = .ok t ∧
    ¬ AddressSet s [9] [0, 0, 0, 0, 1, 0, 0, 0] t := by
  obtain ⟨s, h, hs, hfirst⟩ : ∃ s, firstOpcode slashed highAddress = .ok (s, 38) ∧
      OpcodeAt slashed highAddress s 38 ∧
      FirstAt s 38 23 2 2 [0, 9, 2, 0, 0, 0, 0, 1, 0, 0, 0, 1, 0, 1, 1] :=
    OpcodeAt.first rfl (by decide) (by decide +kernel)
  have hnext : (firstOpcode slashed highAddress >>= fun p => step slashed p.2 p.1).toOption.map
      (fun t => (t.sm.address, t.c.buf.decoder.order)) = some (0, .little) := by decide +kernel
  rw [h, Res.ok_bind] at hnext
  obtain ⟨t, ht, hmachine⟩ := Res.ok_of_map hnext
  obtain ⟨haddress, horder⟩ := Prod.mk.inj hmachine
  refine ⟨s, t, hs, ⟨hfirst.rest, .last (by decide), rfl, .inr rfl⟩, ht, fun hset => ?_⟩
  have hvalue := hset.address
  rw [haddress, ← hset.buf, horder] at hvalue
  revert hvalue
  decide

end Gelpp.Dwarf

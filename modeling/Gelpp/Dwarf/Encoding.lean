import Gelpp.Dwarf.Leb
import Gelpp.Dwarf.Attributes

namespace Gelpp.Dwarf

open LineMachine (Op)
open Leb128 (Terminated unsigned signed)

structure Operand (bs : List UInt8) : Prop where
  terminated : Terminated bs
  length : bs.length ≤ 10

theorem Operand.readU {bs tail : List UInt8} {c : Cursor} (h : Operand bs)
    (hf : c.buf.fence = none) (hrest : c.rest = bs ++ tail) :
    readLEB128U c = .ok (.ofNat (unsigned bs), c.forward bs.length) :=
  readLEB128U_terminated h.terminated h.length hf hrest

inductive Encodes (order : ByteOrder) (opcodeBase : Nat) : Op → List UInt8 → Prop
  | special {b : UInt8} (h : opcodeBase ≤ b.toNat) : Encodes order opcodeBase (.special b.toNat) [b]
  | copy (h : 1 < opcodeBase) : Encodes order opcodeBase .copy [1]
  | advancePc {bs : List UInt8} (h : 2 < opcodeBase) (hbs : Operand bs)
      (hlt : unsigned bs < 2 ^ 63) : Encodes order opcodeBase (.advancePc (unsigned bs)) (2 :: bs)
  | advanceLine {bs : List UInt8} (h : 3 < opcodeBase) (hbs : Operand bs)
      (hlow : -2 ^ 31 < signed bs) (hhigh : signed bs < 2 ^ 31) :
      Encodes order opcodeBase (.advanceLine (signed bs)) (3 :: bs)
  | setFile {bs : List UInt8} (h : 4 < opcodeBase) (hbs : Operand bs)
      (hlt : unsigned bs < 2 ^ 31) : Encodes order opcodeBase (.setFile (unsigned bs)) (4 :: bs)
  | setColumn {bs : List UInt8} (h : 5 < opcodeBase) (hbs : Operand bs)
      (hlt : unsigned bs < 2 ^ 31) : Encodes order opcodeBase (.setColumn (unsigned bs)) (5 :: bs)
  | negateStmt (h : 6 < opcodeBase) : Encodes order opcodeBase .negateStmt [6]
  | setBasicBlock (h : 7 < opcodeBase) : Encodes order opcodeBase .setBasicBlock [7]
  | constAddPc (h : 8 < opcodeBase) : Encodes order opcodeBase .constAddPc [8]
  | fixedAdvancePc {bs : List UInt8} (h : 9 < opcodeBase) (hlen : bs.length = 2) :
      Encodes order opcodeBase (.fixedAdvancePc (order.value bs)) (9 :: bs)
  | setPrologueEnd (h : 10 < opcodeBase) : Encodes order opcodeBase .setPrologueEnd [10]
  | setEpilogueBegin (h : 11 < opcodeBase) : Encodes order opcodeBase .setEpilogueBegin [11]
  | setIsa {bs : List UInt8} (h : 12 < opcodeBase) (hbs : Operand bs)
      (hlt : unsigned bs < 2 ^ 63) : Encodes order opcodeBase (.setIsa (unsigned bs)) (12 :: bs)
  | endSequence {ls : List UInt8} (hls : Operand ls) (hlen : unsigned ls = 1) :
      Encodes order opcodeBase .endSequence (0 :: (ls ++ [1]))
  | setDiscriminator {ls bs : List UInt8} (hls : Operand ls) (hbs : Operand bs)
      (hlen : unsigned ls = 1 + bs.length) (hlt : unsigned bs < 2 ^ 63) :
      Encodes order opcodeBase (.setDiscriminator (unsigned bs)) (0 :: (ls ++ 4 :: bs))

namespace Action

def Encodable (opcodeBase : UInt8) : Action → Prop
  | special opcode => opcodeBase ≤ opcode
  | advancePC adv => adv.toNat < 2 ^ 63
  | advanceLine adv => adv < 2 ^ 31
  | setFile file => file.toNat < 2 ^ 31
  | setColumn column => column.toNat < 2 ^ 31
  | setAddress _ => False
  | defineFile => False
  | _ => True

end Action

def isExtended : Op → Bool
  | .endSequence => true
  | .setDiscriminator _ => true
  | _ => false

structure Decodes (s : Reader) (o : Op) (n : Nat) (d : Decoded) : Prop where
  op : d.action.op = o
  encodable : d.action.Encodable s.sm.opcodeBase
  c : d.c = s.c.forward n
  target : d.target = if isExtended o then some (extendedEnd 0 (s.c.off + n)) else none

theorem ofNat_toNat {n : Nat} (h : n < 2 ^ 63) : (UInt64.ofNat n).toNat = n := by
  rw [UInt64.toNat_ofNat', Nat.mod_eq_of_lt (by omega)]

theorem extendedEnd_add (length : UInt64) (off : Nat) :
    extendedEnd length off = extendedEnd 0 (off + length.toNat) := by
  rw [extendedEnd, extendedEnd, Nat.add_comm length.toNat, UInt64.toNat_zero, Nat.zero_add]

section
variable {s : Reader} {tail : List UInt8}

theorem decode_cons {b : UInt8} {bs : List UInt8} (hf : s.c.buf.fence = none)
    (h : s.c.rest = b :: bs) : decode s =
      if s.sm.opcodeBase ≤ b then .ok { action := .special b, c := s.c.forward 1 }
      else if b = 0 then decodeExtended s.dl.is64 (s.c.forward 1)
      else decodeStandard b (s.c.forward 1) := by
  rw [decode, Cursor.readU8_rest hf h]
  rfl

theorem decode_standard {b : UInt8} {bs : List UInt8} (hf : s.c.buf.fence = none)
    (h : s.c.rest = b :: bs) (hb : b.toNat < s.sm.opcodeBase.toNat) (h0 : b ≠ 0) :
    decode s = decodeStandard b (s.c.forward 1) := by
  have hlt : ¬ s.sm.opcodeBase ≤ b := fun hle => by
    have := UInt8.le_iff_toNat_le.mp hle
    omega
  rw [decode_cons hf h, if_neg hlt, if_neg h0]

theorem decode_zero {bs : List UInt8} (hf : s.c.buf.fence = none) (h : s.c.rest = 0 :: bs)
    (hbase : 0 < s.sm.opcodeBase.toNat) :
    decode s = decodeExtended s.dl.is64 (s.c.forward 1) := by
  have hnot : ¬ s.sm.opcodeBase ≤ 0 := fun hle => by
    have := UInt8.le_iff_toNat_le.mp hle
    rw [UInt8.toNat_zero] at this
    omega
  rw [decode_cons hf h, if_neg hnot, if_pos rfl]

theorem forward_operand {bs : List UInt8} {b : UInt8} (h : s.c.rest = b :: bs ++ tail) :
    (s.c.forward 1).rest = bs ++ tail ∧
      (s.c.forward 1).forward bs.length = s.c.forward (b :: bs).length := by
  have hlen := s.c.rest_length
  rw [h, List.cons_append, List.length_cons] at hlen
  refine ⟨by rw [Cursor.forward_rest, h]; rfl, ?_⟩
  rw [Cursor.forward_forward, List.length_cons, Nat.add_comm]

theorem operandU_encoded {bs : List UInt8} {b : UInt8} {action : UInt64 → Action}
    (hf : s.c.buf.fence = none) (h : s.c.rest = b :: bs ++ tail) (hbs : Operand bs) :
    operandU action (s.c.forward 1) =
      .ok { action := action (.ofNat (unsigned bs)), c := s.c.forward (b :: bs).length } := by
  obtain ⟨hrest, hc⟩ := forward_operand h
  have hf' : (s.c.forward 1).buf.fence = none := hf
  rw [operandU, hbs.readU hf' hrest, hc]
  rfl

theorem decodes_plain {o : Op} {b : UInt8} {action : Action} (hf : s.c.buf.fence = none)
    (h : s.c.rest = b :: tail) (hb : b.toNat < s.sm.opcodeBase.toNat) (h0 : b ≠ 0)
    (hd : ∀ c, decodeStandard b c = .ok { action, c }) (hop : action.op = o)
    (henc : action.Encodable s.sm.opcodeBase) (hext : isExtended o = false) :
    ∃ d, decode s = .ok d ∧ Decodes s o 1 d := by
  refine ⟨_, (decode_standard hf h hb h0).trans (hd _), hop, henc, rfl, ?_⟩
  rw [hext]
  rfl

theorem decodes_operand {o : Op} {b : UInt8} {bs : List UInt8} {action : UInt64 → Action}
    (hf : s.c.buf.fence = none) (h : s.c.rest = b :: bs ++ tail)
    (hb : b.toNat < s.sm.opcodeBase.toNat) (h0 : b ≠ 0) (hbs : Operand bs)
    (hd : ∀ c, decodeStandard b c = operandU action c) (hop : (action (.ofNat (unsigned bs))).op = o)
    (henc : (action (.ofNat (unsigned bs))).Encodable s.sm.opcodeBase)
    (hext : isExtended o = false) :
    ∃ d, decode s = .ok d ∧ Decodes s o (b :: bs).length d := by
  refine ⟨_, (decode_standard hf h hb h0).trans ((hd _).trans (operandU_encoded hf h hbs)), hop, henc,
    rfl, ?_⟩
  rw [hext]
  rfl

theorem extended_rest {ls : List UInt8} {b : UInt8} (h : s.c.rest = 0 :: (ls ++ b :: tail)) :
    (s.c.forward (2 + ls.length)).rest = tail := by
  have hdrop : s.c.rest = (0 :: (ls ++ [b])) ++ tail := by simp [h]
  have hlen : (0 :: (ls ++ [b])).length = 2 + ls.length := by
    simp only [List.length_cons, List.length_append, List.length_nil]
    omega
  rw [← hlen]
  exact Cursor.forward_tail hdrop

theorem decode_extended {ls : List UInt8} {b : UInt8} (hf : s.c.buf.fence = none)
    (h : s.c.rest = 0 :: (ls ++ b :: tail)) (hbase : 0 < s.sm.opcodeBase.toNat) (hls : Operand ls) :
    decode s = decodeExtendedOpcode s.dl.is64 b (s.c.forward (2 + ls.length)) >>= fun d =>
      .ok { d with
        target := some (extendedEnd (.ofNat (unsigned ls)) (s.c.off + (1 + ls.length))) } := by
  have hrest : (s.c.forward 1).rest = ls ++ b :: tail := by
    rw [Cursor.forward_rest, h]
    rfl
  have hrest2 : ((s.c.forward 1).forward ls.length).rest = b :: tail := Cursor.forward_tail hrest
  have hroom := Cursor.off_add_le (by rw [h]; rfl : s.c.rest = (0 :: ls) ++ b :: tail)
  rw [List.length_cons] at hroom
  have hoff : ((s.c.forward 1).forward ls.length).off = s.c.off + (1 + ls.length) := by
    rw [Cursor.forward_forward, Cursor.forward_off (by omega)]
  have hfwd : ((s.c.forward 1).forward ls.length).forward 1 = s.c.forward (2 + ls.length) := by
    rw [Cursor.forward_forward, Cursor.forward_forward]
    congr 1
    omega
  rw [decode_zero hf h hbase, decodeExtended,
    hls.readU (c := s.c.forward 1) hf hrest, Res.ok_bind]
  dsimp only
  rw [hoff, Cursor.readU8_rest (c := (s.c.forward 1).forward ls.length) hf hrest2]
  simp only [errorIf, Res.ok_bind, hfwd]
  rfl

theorem decodes_extended {o : Op} {b : UInt8} {ls bs : List UInt8} {action : Action}
    (hf : s.c.buf.fence = none) (h : s.c.rest = 0 :: (ls ++ b :: bs) ++ tail)
    (hbase : 0 < s.sm.opcodeBase.toNat) (hls : Operand ls) (hlen : unsigned ls = 1 + bs.length)
    (hd : ∀ c : Cursor, c.buf = s.c.buf → c.rest = bs ++ tail →
      decodeExtendedOpcode s.dl.is64 b c = .ok { action, c := c.forward bs.length })
    (hop : action.op = o) (henc : action.Encodable s.sm.opcodeBase) (hext : isExtended o = true) :
    ∃ d, decode s = .ok d ∧ Decodes s o (0 :: (ls ++ b :: bs)).length d := by
  have hrest : s.c.rest = 0 :: (ls ++ b :: (bs ++ tail)) := by
    rw [h, List.cons_append, List.append_assoc]
    rfl
  have hle := Cursor.off_add_le h
  have hlt := s.c.size_lt
  have hn : (0 :: (ls ++ b :: bs)).length = 2 + ls.length + bs.length := by
    simp only [List.length_cons, List.length_append]
    omega
  rw [hn] at hle ⊢
  have hlength : (UInt64.ofNat (unsigned ls)).toNat = 1 + bs.length := by
    rw [ofNat_toNat (by omega), hlen]
  have hend : extendedEnd (.ofNat (unsigned ls)) (s.c.off + (1 + ls.length)) =
      extendedEnd 0 (s.c.off + (2 + ls.length + bs.length)) := by
    rw [extendedEnd_add, hlength]
    congr 1
    omega
  have hread := decode_extended hf hrest hbase hls
  rw [hend, hd (s.c.forward _) rfl (extended_rest hrest), Res.ok_bind, Cursor.forward_forward] at hread
  refine ⟨_, hread, hop, henc, rfl, ?_⟩
  rw [hext]
  rfl

theorem decode_encoded {o : Op} {bs : List UInt8} (hf : s.c.buf.fence = none)
    (hbase : 0 < s.sm.opcodeBase.toNat)
    (h : Encodes s.c.buf.decoder.order s.sm.opcodeBase.toNat o bs) (hrest : s.c.rest = bs ++ tail) :
    ∃ d, decode s = .ok d ∧ Decodes s o bs.length d := by
  cases h with
  | @special b h =>
    have hle : s.sm.opcodeBase ≤ b := UInt8.le_iff_toNat_le.mpr h
    exact ⟨_, (decode_cons hf hrest).trans (if_pos hle), rfl, hle, rfl, rfl⟩
  | copy h => exact decodes_plain hf hrest h (by decide) (fun _ => rfl) rfl trivial rfl
  | advancePc h hbs hlt =>
    have hv := ofNat_toNat hlt
    exact decodes_operand hf hrest h (by decide) hbs (fun _ => rfl)
      (congrArg Op.advancePc hv) (hv.trans_lt hlt) rfl
  | @advanceLine bs h hbs hlow hhigh =>
    obtain ⟨hrest', hc⟩ := forward_operand hrest
    have hf' : (s.c.forward 1).buf.fence = none := hf
    have hread : decodeStandard 3 (s.c.forward 1) =
        .ok { action := .advanceLine (signed bs), c := s.c.forward (3 :: bs).length } := by
      rw [← hc]
      change (readLEB128S (s.c.forward 1) >>= fun r => _) = _
      rw [readLEB128S_terminated hbs.terminated hbs.length hf' hrest' (by omega) (by omega)]
      rfl
    exact ⟨_, (decode_standard hf hrest h (by decide)).trans hread, rfl, hhigh, rfl, rfl⟩
  | setFile h hbs hlt =>
    have hv := ofNat_toNat (hlt.trans (by norm_num))
    exact decodes_operand hf hrest h (by decide) hbs (fun _ => rfl)
      (congrArg Op.setFile hv) (hv.trans_lt hlt) rfl
  | setColumn h hbs hlt =>
    have hv := ofNat_toNat (hlt.trans (by norm_num))
    exact decodes_operand hf hrest h (by decide) hbs (fun _ => rfl)
      (congrArg Op.setColumn hv) (hv.trans_lt hlt) rfl
  | negateStmt h => exact decodes_plain hf hrest h (by decide) (fun _ => rfl) rfl trivial rfl
  | setBasicBlock h => exact decodes_plain hf hrest h (by decide) (fun _ => rfl) rfl trivial rfl
  | constAddPc h => exact decodes_plain hf hrest h (by decide) (fun _ => rfl) rfl trivial rfl
  | @fixedAdvancePc bs h hlen =>
    obtain ⟨hrest', hc⟩ := forward_operand hrest
    have hf' : (s.c.forward 1).buf.fence = none := hf
    obtain ⟨v, hv, hread16⟩ := Cursor.readU16_rest hf' hrest' hlen
    rw [hc] at hread16
    have hread : decodeStandard 9 (s.c.forward 1) =
        .ok { action := .fixedAdvancePC v, c := s.c.forward (9 :: bs).length } := by
      change ((s.c.forward 1).readU16 >>= fun r => _) = _
      rw [hread16]
      rfl
    exact ⟨_, (decode_standard hf hrest h (by decide)).trans hread, congrArg Op.fixedAdvancePc hv,
      trivial, rfl, rfl⟩
  | setPrologueEnd h => exact decodes_plain hf hrest h (by decide) (fun _ => rfl) rfl trivial rfl
  | setEpilogueBegin h => exact decodes_plain hf hrest h (by decide) (fun _ => rfl) rfl trivial rfl
  | setIsa h hbs hlt =>
    have hv := ofNat_toNat hlt
    exact decodes_operand hf hrest h (by decide) hbs (fun _ => rfl)
      (congrArg Op.setIsa hv) trivial rfl
  | endSequence hls hlen =>
    have hread (c : Cursor) : decodeExtendedOpcode s.dl.is64 1 c =
        .ok { action := .endSequence, c := c.forward ([] : List UInt8).length } := by
      rw [List.length_nil, c.forward_zero]
      rfl
    exact decodes_extended hf hrest hbase hls hlen (fun c _ _ => hread c) rfl trivial rfl
  | @setDiscriminator ls bs hls hbs hlen hlt =>
    have hv := ofNat_toNat hlt
    have hop : (Action.setDiscriminator (.ofNat (unsigned bs))).op = _ :=
      congrArg Op.setDiscriminator hv
    refine decodes_extended hf hrest hbase hls hlen (fun c hc hrest' => ?_) hop trivial rfl
    change (operandU .setDiscriminator c) = _
    rw [operandU, hbs.readU (hc ▸ hf) hrest']
    rfl

end

end Gelpp.Dwarf

import Gelpp.Dwarf.Interned
import Gelpp.Dwarf.Rows
import Gelpp.Dwarf.SetAddress

namespace Gelpp.Dwarf

open LineMachine (Op Place Attributes State rows)
open Leb128 (unsigned)
open Reader (Plain)

inductive Written (order : ByteOrder) (is64 : Bool) (opcodeBase : Nat) : Op → List UInt8 → Prop
  | plain {o : Op} {bs : List UInt8} (h : Encodes order opcodeBase o bs) :
      Written order is64 opcodeBase o bs
  | setAddress {ls operand : List UInt8} (hls : Operand ls)
      (hlen : unsigned ls = 1 + operand.length) (hwidth : operand.length = offsetSize is64) :
      Written order is64 opcodeBase (.setAddress (order.value operand)) (0 :: (ls ++ 2 :: operand))

def Narrow : Op → Prop
  | .setIsa isa => isa < 256
  | .setDiscriminator discriminator => discriminator < 256
  | _ => True

instance : DecidablePred Narrow := fun o => by
  cases o <;> unfold Narrow <;> infer_instance

def SetsAddress : Op → Prop
  | .setAddress _ => True
  | _ => False

instance : DecidablePred SetsAddress := fun o => by
  cases o <;> unfold SetsAddress <;> infer_instance

-- Rows have one of the unit's files, and the address is set at the start of an instruction:
-- set_address leaves op_index as it is.
def Regular (files : Nat) (h : LineMachine.Header) : Place → List Op → Prop
  | _, [] => True
  | p, o :: ops => ((o.emits = true → 1 ≤ p.file ∧ p.file ≤ files) ∧
      (SetsAddress o → p.opIndex = 0) ∧ Narrow o) ∧ Regular files h (p.step h o) ops

def regularDecidable (files : Nat) (h : LineMachine.Header) :
    (p : Place) → (ops : List Op) → Decidable (Regular files h p ops)
  | _, [] => .isTrue trivial
  | p, o :: ops =>
    have := regularDecidable files h (p.step h o) ops
    inferInstanceAs (Decidable (_ ∧ _))

instance (files : Nat) (h : LineMachine.Header) (p : Place) (ops : List Op) :
    Decidable (Regular files h p ops) := regularDecidable files h p ops

structure RowShows (files : List Nat) (l : LineNumber) (x : State) : Prop where
  place : RowAgrees files l x.place
  attributes : l.attributes = x.attributes

-- The rows of the machine as the table has them: after a row its flags are set, not cleared.
def flaggedFrom : Bool → List State → List State
  | _, [] => []
  | dirty, x :: xs => { x with attributes := shown dirty x.attributes } :: flaggedFrom true xs

theorem flaggedFrom_append (dirty : Bool) (xs ys : List State) :
    flaggedFrom dirty (xs ++ ys) = flaggedFrom dirty xs ++ flaggedFrom (dirty || !xs.isEmpty) ys := by
  induction xs generalizing dirty with
  | nil => simp [flaggedFrom]
  | cons x xs ih =>
    rw [List.cons_append, flaggedFrom, flaggedFrom, ih, List.cons_append]
    simp

structure Turn (h : LineMachine.Header) (s : Reader) (x : State) (dirty : Bool) (o : Op) (n : Nat)
    (t : Reader) : Prop extends Kept s t where
  simulates : Simulates h t.sm (x.place.step h o)
  agrees : Agrees (dirty || o.emits) t.sm (x.attributes.step o)
  ended : t.sm.endSequence = (decide (o = .endSequence) || s.sm.endSequence)
  c : t.c = s.c.forward n
  interns : Interns s [] t
  rows : ∃ ls, t.cu.lines = s.cu.lines ++ ls ∧
    List.Forall₂ (RowShows s.cu.files) ls (flaggedFrom dirty (x.row h o))

theorem small_of_narrow {a : Action} (h : Narrow a.op) : a.small = true := by
  cases a with
  | setIsa isa => exact decide_eq_true h
  | setDiscriminator discriminator => exact decide_eq_true h
  | _ => rfl

theorem stays_of_size {c : Cursor} (hsize : c.buf.size < 2 ^ 31) {n : Nat}
    (hn : c.off + n ≤ c.buf.size) : Stays (c.off + n) := .inl (by omega)

section
variable {h : LineMachine.Header} {s : Reader} {x : State} {dirty : Bool} {o : Op}
  {bs tail : List UInt8} {e : Nat} {join : Path → Path → Path}

theorem rows_show {ls : List LineNumber} {files : List Nat}
    (hplace : List.Forall₂ (RowAgrees files) ls (if o.emits then [x.place.step h o] else []))
    (hattributes : ls.map LineNumber.attributes =
      if o.emits then [shown dirty x.attributes] else []) :
    List.Forall₂ (RowShows files) ls (flaggedFrom dirty (x.row h o)) := by
  rw [State.row]
  by_cases ho : o.emits = true
  · rw [if_pos ho] at hplace hattributes
    cases hplace with
    | cons hl hnil =>
      cases hnil
      rw [if_pos ho]
      exact .cons ⟨hl, List.singleton_inj.mp hattributes⟩ .nil
  · rw [if_neg ho] at hplace
    cases hplace
    rw [if_neg ho]
    exact .nil

variable (join) in
theorem turn_encoded (hp : s.Plain) (hs : Simulates h s.sm x.place)
    (ha : Agrees dirty s.sm x.attributes) (hrange : 0 < h.lineRange) (hbase : 0 < h.opcodeBase)
    (henc : Encodes s.c.buf.decoder.order h.opcodeBase o bs) (hrest : s.c.rest = bs ++ tail)
    (hoff : s.c.off < e) (hsize : s.c.buf.size < 2 ^ 31) (hnarrow : Narrow o)
    (hrow : o.emits = true → 1 ≤ x.place.file ∧ x.place.file ≤ s.cu.files.length) :
    ∃ t, step join e s = .ok t ∧ Turn h s x dirty o bs.length t := by
  have hroom := Cursor.off_add_le hrest
  obtain ⟨t, hfol, hc, hstep⟩ := step_encoded join hs hrange hbase hp.c henc hrest hoff hrow
  have htoff : t.c.off = s.c.off + bs.length := by rw [hc, Cursor.forward_off hroom]
  have ht : step join e s = .ok t := by
    rw [hstep]
    by_cases ho : isExtended o = true
    · have hf : t.c.buf.fence = none := by rw [hc]; exact hp.c
      rw [if_pos ho, ← htoff]
      exact land_stays hf (htoff ▸ stays_of_size hsize hroom)
    · rw [if_neg ho]
      rfl
  have hb : s.sm.opcodeBase.toNat = h.opcodeBase := by rw [← hs.header, lineHeader]
  rw [← hb] at henc hbase
  obtain ⟨d, hd, hdec⟩ := decode_encoded hp.c hbase henc hrest
  obtain ⟨u, hu, hsm, hcu⟩ := step_performs hp hd ht
  have hdp : Plain { s with c := d.c } := (kept_of_past ((decode_meets hp.c).of_ok hd)).plain hp
  have hsmall : d.action.small = true := small_of_narrow (by rw [hdec.op]; exact hnarrow)
  obtain ⟨hagree, hattributes⟩ := perform_attributes hdp ha hsmall hu
  rw [← op_emits, hdec.op, ← hsm] at hagree
  rw [← op_emits, hdec.op, ← hcu] at hattributes
  obtain ⟨ls, hls, hplace⟩ := hfol.rows
  rw [hls, List.map_append] at hattributes
  obtain ⟨d', hd'⟩ := stepped_of_step hp ht
  have hdefine : d.action ≠ .defineFile := fun h => by
    have henc := hdec.encodable
    rw [h] at henc
    exact henc
  have hinterns : Interns s [] t := by
    rw [step_eq, if_neg (by omega), hd, Res.ok_bind, enact] at ht
    obtain ⟨v, hv, hland⟩ := Res.bind_ok.mp ht
    have h1 : Interns s [] { s with c := d.c } := .aside rfl rfl rfl
    exact (h1.before ((perform_interns hdefine).of_ok hv)).after ((land_interns _ v).of_ok hland)
  exact ⟨t, ht, hd'.toKept, hfol.simulates, hagree, hfol.ended, hc, hinterns, ls, hls,
    rows_show hplace (List.append_cancel_left hattributes)⟩

variable (join) in
theorem turn_setAddress {ls operand : List UInt8} (hp : s.Plain) (hs : Simulates h s.sm x.place)
    (ha : Agrees dirty s.sm x.attributes) (hbase : 0 < h.opcodeBase) (hls : Operand ls)
    (hlen : unsigned ls = 1 + operand.length) (hwidth : operand.length = offsetSize s.dl.is64)
    (hrest : s.c.rest = 0 :: (ls ++ 2 :: operand) ++ tail) (hoff : s.c.off < e)
    (hsize : s.c.buf.size < 2 ^ 31) (hindex : x.place.opIndex = 0) :
    ∃ t, step join e s = .ok t ∧ Turn h s x dirty (.setAddress (s.c.buf.decoder.order.value operand))
      (0 :: (ls ++ 2 :: operand)).length t := by
  have hroom := Cursor.off_add_le hrest
  have hn : (0 :: (ls ++ 2 :: operand)).length = 2 + ls.length + operand.length := by
    simp only [List.length_cons, List.length_append]
    omega
  rw [hn] at hroom ⊢
  have hrest' : s.c.rest = 0 :: (ls ++ 2 :: (operand ++ tail)) := by
    rw [hrest, List.cons_append, List.append_assoc]
    rfl
  have hat : SetAddressAt s ls operand tail := by
    refine ⟨hrest', hls.terminated, hlen, ?_⟩
    rw [hwidth, offsetSize]
    cases s.dl.is64 with
    | false => exact .inl rfl
    | true => exact .inr rfl
  have hb : 0 < s.sm.opcodeBase.toNat := by
    rw [← hs.header, lineHeader] at hbase
    exact hbase
  have hread := readAddress_encoded (c := s.c.forward (2 + ls.length)) hp.c hwidth (extended_rest hrest')
  have hdecode := decode_setAddress hp.c hat hb hls.length
  rw [hread, Res.ok_bind, Cursor.forward_forward] at hdecode
  let t : Reader := { s with
    c := s.c.forward (2 + ls.length + operand.length)
    sm.address := .ofNat (s.c.buf.decoder.order.value operand) }
  have htoff : t.c.off = s.c.off + (2 + ls.length + operand.length) := Cursor.forward_off hroom
  have hf : t.c.buf.fence = none := hp.c
  have ht : step join e s = .ok t := by
    rw [step_eq, if_neg (by omega), hdecode, Res.ok_bind, enact, operandEnd, ← htoff]
    exact land_stays hf (htoff ▸ stays_of_size hsize hroom)
  have hvalue : (UInt64.ofNat (s.c.buf.decoder.order.value operand)).toNat =
      s.c.buf.decoder.order.value operand := by
    refine UInt64.toNat_ofNat_of_lt' ((s.c.buf.decoder.order.value_lt operand).trans_le ?_)
    rw [hwidth]
    cases s.dl.is64 <;> decide
  have hpos : 0 < h.maximumOperations := hs.opIndex_lt.trans_le' (Nat.zero_le _)
  have hsim : Simulates h t.sm (x.place.step h (.setAddress (s.c.buf.decoder.order.value operand))) := by
    refine ⟨hs.header, ?_, ?_, hpos, hs.file, hs.file_lt, hs.line, hs.column, hs.column_lt⟩
    · change (UInt64.ofNat _).toNat = s.c.buf.decoder.order.value operand % 2 ^ 64
      rw [← hvalue, Nat.mod_eq_of_lt (UInt64.toNat_lt _), UInt64.ofNat_toNat]
    · exact hs.opIndex.trans hindex
  refine ⟨t, ht, ⟨rfl, rfl, rfl, rfl, rfl, rfl, List.prefix_refl _, List.prefix_refl _⟩, hsim, ?_, rfl,
    rfl, .aside rfl rfl rfl, [], (List.append_nil _).symm, .nil⟩
  change Agrees (dirty || false) t.sm x.attributes
  rw [Bool.or_false]
  exact ha.of_eq rfl rfl rfl

variable (join) in
theorem turn_written (hp : s.Plain) (hs : Simulates h s.sm x.place)
    (ha : Agrees dirty s.sm x.attributes) (hrange : 0 < h.lineRange) (hbase : 0 < h.opcodeBase)
    (hwritten : Written s.c.buf.decoder.order s.dl.is64 h.opcodeBase o bs)
    (hrest : s.c.rest = bs ++ tail) (hoff : s.c.off < e) (hsize : s.c.buf.size < 2 ^ 31)
    (hnarrow : Narrow o) (hindex : SetsAddress o → x.place.opIndex = 0)
    (hrow : o.emits = true → 1 ≤ x.place.file ∧ x.place.file ≤ s.cu.files.length) :
    ∃ t, step join e s = .ok t ∧ Turn h s x dirty o bs.length t := by
  cases hwritten with
  | plain henc =>
    exact turn_encoded join hp hs ha hrange hbase henc hrest hoff hsize hnarrow hrow
  | setAddress hls hlen hwidth =>
    exact turn_setAddress join hp hs ha hbase hls hlen hwidth hrest hoff hsize (hindex trivial)

theorem Written.length_pos {order : ByteOrder} {is64 : Bool} {base : Nat}
    (hw : Written order is64 base o bs) : 0 < bs.length := by
  cases hw with
  | plain henc => exact henc.length_pos
  | setAddress => exact Nat.succ_pos _

theorem Turn.files_eq {n : Nat} {t : Reader} (ht : Turn h s x dirty o n t) : t.cu.files = s.cu.files := by
  rw [ht.interns.files, Pool.places, List.append_nil]

end

structure Before (h : LineMachine.Header) (e : Nat) (s : Reader) (x : State) (dirty : Bool)
    (ops : List Op) (bs : List UInt8) : Prop extends s.Plain where
  simulates : Simulates h s.sm x.place
  agrees : Agrees dirty s.sm x.attributes
  lineRange : 0 < h.lineRange
  opcodeBase : 0 < h.opcodeBase
  live : running s = true
  size : s.c.buf.size < 2 ^ 31
  written : Concat (Written s.c.buf.decoder.order s.dl.is64 h.opcodeBase) ops bs
  rest : ∃ tail, s.c.rest = bs ++ tail
  inside : s.c.off + bs.length ≤ e
  regular : Regular s.cu.files.length h x.place ops

section
variable {h : LineMachine.Header} {s t : Reader} {x : State} {dirty : Bool} {o : Op} {ops : List Op}
  {bs cs : List UInt8} {e : Nat} {join : Path → Path → Path}

variable (join) in
theorem Before.turn (hb : Before h e s x dirty (o :: ops) (bs ++ cs))
    (hw : Written s.c.buf.decoder.order s.dl.is64 h.opcodeBase o bs) :
    ∃ t, step join e s = .ok t ∧ Turn h s x dirty o bs.length t := by
  obtain ⟨tail, hrest⟩ := hb.rest
  have hinside := hb.inside
  have hpos := hw.length_pos
  rw [List.length_append] at hinside
  rw [List.append_assoc] at hrest
  obtain ⟨hrow, hindex, hnarrow⟩ := hb.regular.1
  exact turn_written join hb.toPlain hb.simulates hb.agrees hb.lineRange hb.opcodeBase hw hrest
    (by omega) hb.size hnarrow hindex hrow

theorem Before.next (hb : Before h e s x dirty (o :: ops) (bs ++ cs))
    (hw : Concat (Written s.c.buf.decoder.order s.dl.is64 h.opcodeBase) ops cs)
    (hne : o ≠ .endSequence) (ht : Turn h s x dirty o bs.length t) :
    Before h e t (x.step h o) (dirty || o.emits) ops cs := by
  obtain ⟨tail, hrest⟩ := hb.rest
  have hinside := hb.inside
  rw [List.length_append] at hinside
  rw [List.append_assoc] at hrest
  have hlive : running t = true := by
    have hrun := hb.live
    rw [running, Bool.not_eq_true'] at hrun ⊢
    rw [ht.ended, hrun, decide_eq_false hne]
    rfl
  refine ⟨ht.toKept.plain hb.toPlain, ht.simulates, ht.agrees, hb.lineRange, hb.opcodeBase, hlive,
    by rw [ht.buf]; exact hb.size, by rw [ht.buf, ht.is64]; exact hw, ⟨tail, ?_⟩, ?_, ?_⟩
  · rw [ht.c]
    exact Cursor.forward_tail hrest
  · rw [ht.c, Cursor.forward_off (Cursor.off_add_le hrest)]
    omega
  · rw [ht.files_eq]
    exact hb.regular.2

theorem flaggedFrom_rows (dirty : Bool) (o : Op) (ops : List Op) :
    flaggedFrom dirty (rows h x (o :: ops)) =
      flaggedFrom dirty (x.row h o) ++ flaggedFrom (dirty || o.emits) (rows h (x.step h o) ops) := by
  rw [rows, flaggedFrom_append]
  congr 2
  rw [State.row]
  cases o.emits <;> rfl

structure SequenceRun (h : LineMachine.Header) (s : Reader) (x : State) (dirty : Bool) (ops : List Op)
    (t : Reader) : Prop extends Kept s t where
  interns : Interns s [] t
  rows : ∃ ls, t.cu.lines = s.cu.lines ++ ls ∧
    List.Forall₂ (RowShows s.cu.files) ls (flaggedFrom dirty (LineMachine.rows h x ops))

theorem Turn.first (ht : Turn h s x dirty o bs.length t) {u : Reader}
    (hu : SequenceRun h t (x.step h o) (dirty || o.emits) ops u) :
    SequenceRun h s x dirty (o :: ops) u := by
  obtain ⟨ls, hls, hall⟩ := ht.rows
  obtain ⟨ms, hms, hall'⟩ := hu.rows
  rw [ht.files_eq] at hall'
  refine ⟨ht.toKept.trans hu.toKept, ht.interns.before hu.interns, ls ++ ms, ?_, ?_⟩
  · rw [hms, hls, List.append_assoc]
  · rw [flaggedFrom_rows]
    exact List.rel_append hall hall'

end

end Gelpp.Dwarf

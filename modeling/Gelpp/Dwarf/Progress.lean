import Gelpp.Dwarf.Fits
import Gelpp.Dwarf.SetAddress

namespace Gelpp.Dwarf

open Leb128 (Long Ended Numbers number afterNumber)
open Reader (Plain)

@[mk_iff] structure SpecialFits (r : Reader) : Prop where
  range : r.sm.lineRange ≠ 0
  operations : r.sm.maximumOperationsPerInstruction ≠ 0
  row : RowOk r

@[mk_iff] structure StandardFits (r : Reader) (opcode : UInt8) (bs : List UInt8) : Prop where
  row : opcode = 1 → RowOk r
  number : opcode ∈ [2, 3, 4, 5, 12] → ¬ Long bs
  operations : opcode = 2 → Ended bs → r.sm.maximumOperationsPerInstruction ≠ 0
  line : opcode = 3 → Ended bs → r.sm.line.toNat + firstS bs < 2 ^ 63
  divisors : opcode = 8 → r.sm.lineRange ≠ 0 ∧ r.sm.maximumOperationsPerInstruction ≠ 0

@[mk_iff] structure ExtendedFits (r : Reader) (bs : List UInt8) : Prop where
  length : ¬ Long bs
  row : Ended bs → (afterNumber bs).head? = some 1 → RowOk r
  discriminator : Ended bs → (afterNumber bs).head? = some 4 → ¬ Long (afterNumber bs).tail

def BytesFit (r : Reader) : List UInt8 → Prop
  | [] => True
  | opcode :: bs =>
    if r.sm.opcodeBase ≤ opcode then SpecialFits r
    else if opcode = 0 then ExtendedFits r bs
    else StandardFits r opcode bs

def OpcodeFits (r : Reader) : Prop := BytesFit r r.c.rest

-- No operation that C++ leaves undefined, and no ASSERT that fails.
structure Defined (join : Path → Path → Path) (s₀ : Scan) : Prop where
  headers : ∀ h e, HeaderAt join s₀ h e → HeaderFits h
  files : ∀ t, TableAt join s₀ t → FilesFit join t
  opcodes : ∀ r e, OpcodeAt join s₀ r e → OpcodeFits r

structure ActionFits (s : Reader) (a : Action) : Prop where
  row : a.records = true → RowOk s
  range : a.ranges = true → s.sm.lineRange ≠ 0
  operations : a.advances = true → s.sm.maximumOperationsPerInstruction ≠ 0
  line : ∀ adv, a = .advanceLine adv → s.sm.line.toNat + adv < 2 ^ 63

section
variable {s : Reader}

theorem actionFits_row {a : Action} (hr : a.records = true → RowOk s) (hg : a.ranges = false)
    (ha : a.advances = false) (hl : ∀ adv, a ≠ .advanceLine adv) : ActionFits s a where
  row := hr
  range h := absurd (hg.symm.trans h) Bool.false_ne_true
  operations h := absurd (ha.symm.trans h) Bool.false_ne_true
  line adv h := absurd h (hl adv)

theorem actionFits_free {a : Action} (hr : a.records = false) (hg : a.ranges = false)
    (ha : a.advances = false) (hl : ∀ adv, a ≠ .advanceLine adv) : ActionFits s a :=
  actionFits_row (fun h => absurd (hr.symm.trans h) Bool.false_ne_true) hg ha hl

theorem operandU_fits {action : UInt64 → Action} {c : Cursor} (hf : c.buf.fence = none)
    (h : ¬ Long c.rest) (ha : Ended c.rest → ∀ v, ActionFits s (action v)) :
    Meets Steady (fun d => ActionFits s d.action) (operandU action c) :=
  (readLEB128U_steady hf h).bind fun r hr => ha hr.1 r.1

theorem decodeStandard_fits {opcode : UInt8} {c : Cursor} (hf : c.buf.fence = none)
    (h : StandardFits s opcode c.rest) :
    Meets Steady (fun d => ActionFits s d.action) (decodeStandard opcode c) := by
  refine Meets.ite (fun h1 => actionFits_row (fun _ => h.row h1) rfl rfl (by simp)) fun _ => ?_
  refine Meets.ite (fun h2 => ?_) fun _ => ?_
  · refine operandU_fits hf (h.number (by simp [h2])) fun he v => ?_
    exact {
      row := fun h => by cases h
      range := fun h => by cases h
      operations := fun _ => h.operations h2 he
      line := fun _ h => by cases h }
  refine Meets.ite (fun h3 => ?_) fun _ => ?_
  · refine (readLEB128S_steady hf (h.number (by simp [h3]))).bind ?_
    rintro _ ⟨he, rfl⟩
    refine ⟨fun h => ?_, fun h => ?_, fun h => ?_, fun adv hadv => ?_⟩
    iterate 3 cases h
    cases hadv
    exact h.line h3 he
  refine Meets.ite (fun h4 => ?_) fun _ => ?_
  · exact operandU_fits hf (h.number (by simp [h4])) fun _ _ =>
      actionFits_free rfl rfl rfl (by simp)
  refine Meets.ite (fun h5 => ?_) fun _ => ?_
  · exact operandU_fits hf (h.number (by simp [h5])) fun _ _ =>
      actionFits_free rfl rfl rfl (by simp)
  refine Meets.ite (fun _ => actionFits_free rfl rfl rfl (by simp)) fun _ => ?_
  refine Meets.ite (fun _ => actionFits_free rfl rfl rfl (by simp)) fun _ => ?_
  refine Meets.ite (fun h8 => ?_) fun _ => ?_
  · obtain ⟨hrange, hops⟩ := h.divisors h8
    exact ⟨fun h => absurd h Bool.false_ne_true, fun _ => hrange, fun _ => hops, by simp⟩
  refine Meets.ite (fun _ => ?_) fun _ => ?_
  · rw [← bind_assoc]
    exact (Cursor.readOrRaise_meets steady_exception hf (by omega)).bind fun _ _ =>
      actionFits_free rfl rfl rfl (by simp)
  refine Meets.ite (fun _ => actionFits_free rfl rfl rfl (by simp)) fun _ => ?_
  refine Meets.ite (fun _ => actionFits_free rfl rfl rfl (by simp)) fun _ => ?_
  refine Meets.ite (fun h12 => ?_) fun _ => steady_exception _
  exact operandU_fits hf (h.number (by simp [h12])) fun _ _ =>
    actionFits_free rfl rfl rfl (by simp)

theorem decodeExtended_fits {is64 : Bool} {c : Cursor} (hf : c.buf.fence = none)
    (h : ExtendedFits s c.rest) :
    Meets Steady (fun d => ActionFits s d.action) (decodeExtended is64 c) := by
  refine (readLEB128U_steady hf h.length).bind ?_
  rintro _ ⟨he, rfl⟩
  have hafter := after_number c
  dsimp only
  cases hrest : afterNumber c.rest with
  | nil =>
    rw [Cursor.readU8_nil (by exact hf) (hafter.trans hrest)]
    exact steady_exception _
  | cons code tail =>
    have hcode : (afterNumber c.rest).head? = some code := by rw [hrest]; rfl
    rw [Cursor.readU8_rest (by exact hf) (hafter.trans hrest), Res.ok_bind, errorIf, Res.ok_bind]
    refine Meets.bind (P := fun d : Decoded => ActionFits s d.action) ?_ fun d hd => Meets.ok hd
    refine Meets.ite (fun h1 => ?_) fun _ => ?_
    · exact actionFits_row (fun _ => h.row he (h1 ▸ hcode)) rfl rfl (by simp)
    refine Meets.ite (fun _ => ?_) fun _ => ?_
    · exact (readAddress_meets steady_exception (by exact hf)).bind fun _ _ =>
        actionFits_free rfl rfl rfl (by simp)
    refine Meets.ite (fun _ => actionFits_free rfl rfl rfl (by simp)) fun _ => ?_
    refine Meets.ite (fun h4 => ?_) fun _ => steady_exception _
    refine operandU_fits (by exact hf) ?_ fun _ _ =>
      actionFits_free rfl rfl rfl (by simp)
    have hlong := h.discriminator he (h4 ▸ hcode)
    rwa [hrest, List.tail_cons, ← (Cursor.forward_one (hafter.trans hrest)).1] at hlong

theorem decode_fits (hf : s.c.buf.fence = none) (h : OpcodeFits s) :
    Meets Steady (fun d => ActionFits s d.action) (decode s) := by
  rw [OpcodeFits] at h
  cases hrest : s.c.rest with
  | nil =>
    rw [decode, Cursor.readU8_nil hf hrest]
    exact steady_exception _
  | cons opcode bs =>
    have htail : (s.c.forward 1).rest = bs := (Cursor.forward_one hrest).1
    rw [hrest, BytesFit] at h
    rw [decode_cons hf hrest]
    split
    · next hspecial =>
      rw [if_pos hspecial] at h
      exact ⟨fun _ => h.row, fun _ => h.range, fun _ => h.operations, by simp⟩
    · next hlow =>
      rw [if_neg hlow] at h
      split
      · next h0 =>
        rw [if_pos h0, ← htail] at h
        exact decodeExtended_fits hf h
      · next h0 =>
        rw [if_neg h0, ← htail] at h
        exact decodeStandard_fits hf h

end

section
variable {join : Path → Path → Path} {s₀ : Scan}

theorem runAllowed_defined (hd : Defined join s₀) : RunAllowed Raised join s₀ where
  raised := raised_exception
  header h e hh hp := readHeader_raised hp (hd.headers h e hh) fun r t hr ht =>
    hd.files t (.header hh hr ht)
  opcode r e hat hp := by
    have hdecode : Meets Orderly (fun _ => True) (decode r) :=
      (decode_meets hp.c).mono (fun _ he => he.orderly) fun _ _ => trivial
    have hfits := decode_fits hp.c (hd.opcodes r e hat)
    refine ⟨raised_of_steady hdecode (hfits.post fun _ _ => trivial), fun d hdec => ?_⟩
    have ha := hfits.of_ok hdec
    have hdp : Plain { r with c := d.c } :=
      (kept_of_past ((decode_meets hp.c).of_ok hdec)).plain hp
    refine ⟨fun hr hn => ?_, fun hr h0 => absurd h0 (ha.range hr),
      fun hr h0 => absurd h0 (ha.operations hr), fun adv hl hn => absurd (ha.line adv hl) hn,
      fun hdef => readFile_raised hdp (hd.files _ (.defined hat hdec hdef))⟩
    have hrow := ha.row hr
    exact absurd ⟨hrow.pos, hrow.le, hrow.int⟩ hn

end

structure Jumps (r : Reader) (code : UInt8) (o : Nat) : Prop where
  extended : r.c.rest.head? = some 0
  base : 0 < r.sm.opcodeBase.toNat
  length : Ended r.c.rest.tail
  opcode : (afterNumber r.c.rest.tail).head? = some code
  known : code ∈ [1, 2, 3, 4]
  address : code = 2 → offsetSize r.dl.is64 ≤ (afterNumber r.c.rest.tail).tail.length
  discriminator : code = 4 → Ended (afterNumber r.c.rest.tail).tail
  target : o = extendedEnd (firstU r.c.rest.tail) (r.c.off + 1 + (number r.c.rest.tail).length)

-- A unit ends after its start, and no extended opcode goes back; the one of end_sequence may when
-- the unit_length brings the cursor to its place.
structure Ahead (join : Path → Path → Path) (s₀ : Scan) : Prop where
  units : ∀ s h e, UnitAt join s₀ s → scanning s = true → openUnit s = .ok (h, e) →
    (e ≤ s.c.buf.size → s.c.off < e) ∧
    (s.c.buf.size < e → ∀ r, headerStart h = .ok r → r.2 ≤ s.c.buf.size → s.c.off < r.2)
  opcodes : ∀ r e code o, OpcodeAt join s₀ r e → Jumps r code o → o ≤ r.c.buf.size →
    r.c.off < o ∨ code = 1 ∧ e ≤ r.c.buf.size

structure ExtendedRead (is64 : Bool) (c : Cursor) (d : Decoded) (code : UInt8) : Prop where
  length : Ended c.rest
  opcode : (afterNumber c.rest).head? = some code
  known : code ∈ [1, 2, 3, 4]
  address : code = 2 → offsetSize is64 ≤ (afterNumber c.rest).tail.length
  discriminator : code = 4 → Ended (afterNumber c.rest).tail
  target : d.target = some (extendedEnd (firstU c.rest) (c.off + (number c.rest).length))
  ends : code = 1 → d.action = .endSequence

theorem readLEB128U_ended {c : Cursor} (hf : c.buf.fence = none) :
    Meets Any (fun r => Ended c.rest ∧ r = (firstU c.rest, c.forward (number c.rest).length))
      (readLEB128U c) :=
  (Meets.any _).exact_post fun _ h _ => readLEB128U_ok hf h

theorem readAddress_room {is64 : Bool} {c : Cursor} (hf : c.buf.fence = none) :
    Meets Any (fun _ => offsetSize is64 ≤ c.rest.length) (readAddress is64 c) := by
  rcases Nat.lt_or_ge c.rest.length (offsetSize is64) with h | h
  · rw [readAddress_short hf h]
    trivial
  · exact (Meets.any _).post fun _ _ => h

theorem decodeExtendedOpcode_read {is64 : Bool} {code : UInt8} {c : Cursor}
    (hf : c.buf.fence = none) :
    Meets Any (fun d => code ∈ [1, 2, 3, 4] ∧ (code = 2 → offsetSize is64 ≤ c.rest.length) ∧
      (code = 4 → Ended c.rest) ∧ (code = 1 → d.action = .endSequence))
      (decodeExtendedOpcode is64 code c) := by
  have off {a b : UInt8} {p : Prop} (h : a ≠ b) (hab : a = b) : p := absurd hab h
  refine Meets.ite (fun h1 => ?_) fun h1 => ?_
  · exact ⟨by simp [h1], off (by simp [h1]), off (by simp [h1]), fun _ => rfl⟩
  refine Meets.ite (fun h2 => ?_) fun h2 => ?_
  · refine (readAddress_room hf).bind fun _ hlen => ?_
    exact ⟨by simp [h2], fun _ => hlen, off (by simp [h2]), off h1⟩
  refine Meets.ite (fun h3 => ?_) fun h3 => ?_
  · exact ⟨by simp [h3], off h2, off (by simp [h3]), off h1⟩
  refine Meets.ite (fun h4 => ?_) fun _ => trivial
  refine (readLEB128U_ended hf).bind fun _ he => ?_
  exact ⟨by simp [h4], off h2, fun _ => he.1, off h1⟩

theorem decodeExtended_read {is64 : Bool} {c : Cursor} (hf : c.buf.fence = none) :
    Meets Any (fun d => ∃ code, ExtendedRead is64 c d code) (decodeExtended is64 c) := by
  refine (readLEB128U_ended hf).bind ?_
  rintro _ ⟨he, rfl⟩
  have hafter := after_number c
  have hoff : (c.forward (number c.rest).length).off = c.off + (number c.rest).length :=
    Cursor.forward_off (Cursor.off_add_le (Leb128.number_append c.rest).symm)
  dsimp only
  cases hrest : afterNumber c.rest with
  | nil =>
    rw [Cursor.readU8_nil (by exact hf) (hafter.trans hrest)]
    trivial
  | cons code tail =>
    have htail : ((c.forward (number c.rest).length).forward 1).rest = tail :=
      (Cursor.forward_one (hafter.trans hrest)).1
    rw [Cursor.readU8_rest (by exact hf) (hafter.trans hrest), Res.ok_bind, errorIf, Res.ok_bind, hoff]
    refine (decodeExtendedOpcode_read (by exact hf)).bind fun d hd => ?_
    obtain ⟨hknown, haddr, hdisc, hends⟩ := hd
    dsimp only at haddr hdisc
    rw [htail] at haddr hdisc
    refine Meets.ok ⟨code, he, by rw [hrest]; rfl, hknown, ?_, ?_, rfl, hends⟩
    · rwa [hrest]
    · rwa [hrest]

theorem decodeStandard_target {opcode : UInt8} {c : Cursor} :
    Meets Any (fun d => d.target = none) (decodeStandard opcode c) := by
  have operand {action : UInt64 → Action} : Meets Any (fun d => d.target = none)
      (operandU action c) := (Meets.any _).bind fun _ _ => rfl
  refine Meets.ite (fun _ => rfl) fun _ => ?_
  refine Meets.ite (fun _ => operand) fun _ => ?_
  refine Meets.ite (fun _ => (Meets.any _).bind fun _ _ => rfl) fun _ => ?_
  refine Meets.ite (fun _ => operand) fun _ => ?_
  refine Meets.ite (fun _ => operand) fun _ => ?_
  refine Meets.ite (fun _ => rfl) fun _ => ?_
  refine Meets.ite (fun _ => rfl) fun _ => ?_
  refine Meets.ite (fun _ => rfl) fun _ => ?_
  refine Meets.ite (fun _ => (Meets.any _).bind fun _ _ => (Meets.any _).bind fun _ _ => rfl) fun _ => ?_
  refine Meets.ite (fun _ => rfl) fun _ => ?_
  refine Meets.ite (fun _ => rfl) fun _ => ?_
  exact Meets.ite (fun _ => operand) fun _ => trivial

theorem decode_jumps {r : Reader} (hf : r.c.buf.fence = none) :
    Meets Any (fun d => ∀ o, d.target = some o →
      ∃ code, Jumps r code o ∧ (code = 1 → d.action = .endSequence)) (decode r) := by
  cases hrest : r.c.rest with
  | nil =>
    rw [decode, Cursor.readU8_nil hf hrest]
    trivial
  | cons opcode bs =>
    have htail : (r.c.forward 1).rest = bs := (Cursor.forward_one hrest).1
    have hoff : (r.c.forward 1).off = r.c.off + 1 :=
      (Cursor.forward_one hrest).2
    rw [decode_cons hf hrest]
    refine Meets.ite (fun _ => fun o ho => by cases ho) fun hbase => Meets.ite (fun h0 => ?_) fun _ => ?_
    · subst h0
      refine (decodeExtended_read (by exact hf)).post fun d hd o ho => ?_
      obtain ⟨code, h⟩ := hd
      refine ⟨code, ?_, h.ends⟩
      have htarget := h.target.symm.trans ho
      obtain ⟨hended, hcode, hknown, haddr, hdisc, -, -⟩ := h
      rw [htail] at hended hcode haddr hdisc
      rw [htail, hoff] at htarget
      rw [UInt8.le_iff_toNat_le] at hbase
      refine ⟨by rw [hrest]; rfl, Nat.lt_of_not_le hbase, ?_, ?_, hknown, ?_, ?_, ?_⟩
      all_goals rw [hrest, List.tail_cons]
      · exact hended
      · exact hcode
      · exact haddr
      · exact hdisc
      · exact (Option.some.inj htarget).symm
    · refine decodeStandard_target.post fun d hd o ho => ?_
      rw [hd] at ho
      cases ho

section
variable {join : Path → Path → Path} {s₀ : Scan}

theorem Ahead.forward (ha : Ahead join s₀) (hs : s₀.Plain) : Forward join s₀ where
  units := ha.units
  opcodes r e d o hat hd ho hle := by
    obtain ⟨code, hjump, hends⟩ := (decode_jumps (hat.plain hs).c).of_ok hd o ho
    exact (ha.opcodes r e code o hat hjump hle).imp id fun h => ⟨hends h.1, h.2⟩

structure Ends (join : Path → Path → Path) (s₀ : Scan) : Prop where
  result : ∀ fuel, s₀.c.buf.size < fuel →
    (∃ t, readAll join fuel s₀ = .ok t) ∨ ∃ m, readAll join fuel s₀ = .error (.exception m)
  units : ∀ s t fuel, UnitAt join s₀ s → scanning s = true → readCU join fuel s = .ok t →
    s.c.off < t.c.off
  opcodes : ∀ r t e, OpcodeAt join s₀ r e → step join e r = .ok t → running t = true →
    r.c.off < t.c.off

theorem construction_ends (hs : s₀.Plain) (hd : Defined join s₀) (ha : Ahead join s₀) :
    Ends join s₀ where
  result fuel hfuel := by
    have hf := ha.forward hs
    have h : Meets Raised (AllRead s₀) (readAll join fuel s₀) :=
      readAll_meets (runAllowed_defined hd) (.inr ⟨⟨hf.onward, hf.advances hs⟩, hfuel⟩) hs
    cases hrun : readAll join fuel s₀ with
    | ok t => exact .inl ⟨t, rfl⟩
    | error e =>
      obtain ⟨m, rfl⟩ := h.of_error hrun
      exact .inr ⟨m, rfl⟩
  units := (ha.forward hs).advances hs
  opcodes r t e hat h hm := by
    obtain ⟨d, hstep⟩ := stepped_of_step (hat.plain hs) h
    exact stepped_onward (ha.forward hs).onward hat hstep hm

end

instance (sm : StateMachine) : Decidable (Room sm) := inferInstanceAs (Decidable (_ < _))

instance (bs : List UInt8) : Decidable (Named bs) := inferInstanceAs (Decidable (_ ∧ _))

instance decidableText : (o : Option CString) → Decidable (∃ chars, o = some (.text chars))
  | some (.text chars) => .isTrue ⟨chars, rfl⟩
  | some .wild => .isFalse fun ⟨_, h⟩ => by cases h
  | none => .isFalse fun ⟨_, h⟩ => by cases h

instance (sm : StateMachine) (dir : UInt64) : Decidable (Directs sm dir) :=
  inferInstanceAs (Decidable (_ ∨ _ ∧ ∃ _, _ = _))

instance (f : FileState) : Decidable (EntryFits f) :=
  decidable_of_iff _ (entryFits_iff f).symm

instance (r : Reader) : Decidable (SpecialFits r) := decidable_of_iff _ (specialFits_iff r).symm

instance (r : Reader) (opcode : UInt8) (bs : List UInt8) : Decidable (StandardFits r opcode bs) :=
  decidable_of_iff _ (standardFits_iff r opcode bs).symm

instance (r : Reader) (bs : List UInt8) : Decidable (ExtendedFits r bs) :=
  decidable_of_iff _ (extendedFits_iff r bs).symm

instance decidableBytesFit (r : Reader) : (bs : List UInt8) → Decidable (BytesFit r bs)
  | [] => .isTrue trivial
  | opcode :: bs => inferInstanceAs (Decidable (if r.sm.opcodeBase ≤ opcode then SpecialFits r
      else if opcode = 0 then ExtendedFits r bs else StandardFits r opcode bs))

instance (r : Reader) : Decidable (OpcodeFits r) := decidableBytesFit r r.c.rest

section
variable (join : Path → Path → Path)

def dirsFit (t : Reader) : Bool :=
  decide (t.sm.version < 5) && Loop.every DirState.more readDirBody
    (fun d => decide (Named d.s.c.rest → Room d.s.sm)) (t.c.rest.length + 1) { s := t }

def filesFit (t : Reader) : Bool :=
  decide (t.sm.version < 5) && (readName t.c).toOption.all fun r =>
    Loop.every FileState.more (readFileBody join) (fun f => decide (EntryFits f))
      (r.2.rest.length + 1) { s := { t with c := r.2 }, name := r.1 }

def headerFits (h : Reader) : Bool :=
  ((readVersion h).toOption.all fun v =>
    decide (v.c.off + offsetSize v.dl.is64 ≤ v.c.buf.size)) &&
  (headerStart h).toOption.all fun r =>
    decide (r.1.c.off + operationsRead r.1.sm + 1 < r.1.c.buf.size) &&
    ((readBase r.1).toOption.all fun b =>
      decide (b.c.off < b.c.buf.size ∨ 1 < b.sm.opcodeBase.toNat) &&
      (readOpcodeLengths b).toOption.all dirsFit) &&
    (readBaseAndDir r.1).toOption.all (filesFit join)

def forwardUnit (s : Scan) : Bool :=
  match openUnit s with
  | .error _ => true
  | .ok (h, e) => decide (e ≤ s.c.buf.size → s.c.off < e) &&
    match headerStart h with
    | .error _ => true
    | .ok r => decide (s.c.buf.size < e → r.2 ≤ s.c.buf.size → s.c.off < r.2)

def jumpEnd (r : Reader) : Nat :=
  extendedEnd (firstU r.c.rest.tail) (r.c.off + 1 + (number r.c.rest.tail).length)

def forwardOpcode (r : Reader) (e : Nat) : Bool :=
  decide (r.c.rest.head? = some 0 → jumpEnd r ≤ r.c.buf.size → r.c.off < jumpEnd r ∨
    (afterNumber r.c.rest.tail).head? = some 1 ∧ e ≤ r.c.buf.size)

def progressChecks : Checks where
  unit := forwardUnit
  header h _ := headerFits join h
  opcode r e := decide (OpcodeFits r) && forwardOpcode r e &&
    (decode r).toOption.all fun d => d.action != .defineFile || filesFit join { r with c := d.c }

variable {join} {fuel : Nat} {s₀ : Scan}

theorem dirsFit_sound {t : Reader} (h : dirsFit t = true) : DirsFit t := by
  rw [dirsFit, Bool.and_eq_true, decide_eq_true_eq] at h
  refine ⟨fun _ d hd hm => ?_, fun hv => absurd h.1 hv, fun hv => absurd h.1 hv,
    fun hv => absurd h.1 hv⟩
  have hname := Loop.of_every h.2 hd hm
  simpa only [decide_eq_true_eq] using hname

theorem filesFit_sound {t : Reader} (h : filesFit join t = true) : FilesFit join t := by
  rw [filesFit, Bool.and_eq_true, decide_eq_true_eq] at h
  refine ⟨fun _ f hf => ?_, fun hv => absurd h.1 hv, fun hv => absurd h.1 hv,
    fun hv => absurd h.1 hv⟩
  obtain ⟨name, c, hname, hvisit, hm⟩ := hf
  have hall := of_all h.2 hname
  have hentry := Loop.of_every hall hvisit hm
  simpa only [decide_eq_true_eq] using hentry

theorem headerFits_sound {h : Reader} (hfit : headerFits join h = true) : HeaderFits h where
  length v hv := by
    rw [headerFits, Bool.and_eq_true] at hfit
    have hlength := of_all hfit.1 hv
    simpa only [decide_eq_true_eq] using hlength
  stmt r hr := by
    rw [headerFits, Bool.and_eq_true] at hfit
    have hstart := of_all hfit.2 hr
    simp only [Bool.and_eq_true, decide_eq_true_eq] at hstart
    exact hstart.1.1
  lengths r b hr hb := by
    rw [headerFits, Bool.and_eq_true] at hfit
    have hstart := of_all hfit.2 hr
    simp only [Bool.and_eq_true] at hstart
    have hbase := of_all hstart.1.2 hb
    simp only [Bool.and_eq_true, decide_eq_true_eq] at hbase
    exact hbase.1
  dirs r b t hr hb ht := by
    rw [headerFits, Bool.and_eq_true] at hfit
    have hstart := of_all hfit.2 hr
    simp only [Bool.and_eq_true] at hstart
    have hbase := of_all hstart.1.2 hb
    simp only [Bool.and_eq_true] at hbase
    exact dirsFit_sound (of_all hbase.2 ht)

theorem headerFits_files {h t : Reader} {r : Reader × Nat} (hfit : headerFits join h = true)
    (hr : headerStart h = .ok r) (ht : readBaseAndDir r.1 = .ok t) : FilesFit join t := by
  rw [headerFits, Bool.and_eq_true] at hfit
  have hstart := of_all hfit.2 hr
  simp only [Bool.and_eq_true] at hstart
  exact filesFit_sound (of_all hstart.2 ht)

theorem defined_of_checks (h : (progressChecks join).passed join fuel s₀ = true) :
    Defined join s₀ where
  headers r e hr := headerFits_sound (Checks.of_header h hr)
  files t ht := by
    cases ht with
    | header hh hr ht => exact headerFits_files (Checks.of_header h hh) hr ht
    | defined hr hd ha =>
      have hop := Checks.of_opcode h hr
      simp only [progressChecks, Bool.and_eq_true] at hop
      have hfile := of_all hop.2 hd
      rw [ha, bne_self_eq_false, Bool.false_or] at hfile
      exact filesFit_sound hfile
  opcodes r e hr := by
    have hop := Checks.of_opcode h hr
    simp only [progressChecks, Bool.and_eq_true, decide_eq_true_eq] at hop
    exact hop.1.1

theorem ahead_of_checks (h : (progressChecks join).passed join fuel s₀ = true) :
    Ahead join s₀ where
  units s r e hat hm hopen := by
    have hunit := Checks.of_unit h hat hm
    simp only [Checks.atUnit, progressChecks, forwardUnit, hopen, Bool.and_eq_true,
      decide_eq_true_eq] at hunit
    refine ⟨hunit.1.1.1, fun hlt p hp => ?_⟩
    have hstart := hunit.1.1.2
    simp only [hp, decide_eq_true_eq] at hstart
    exact hstart hlt
  opcodes r e code o hr hjump hle := by
    have hop := Checks.of_opcode h hr
    simp only [progressChecks, Bool.and_eq_true, forwardOpcode, decide_eq_true_eq] at hop
    have htarget : o = jumpEnd r := hjump.target
    rw [htarget] at hle ⊢
    refine (hop.1.2 hjump.extended hle).imp id fun hone => ⟨?_, hone.2⟩
    exact Option.some.inj (hjump.opcode.symm.trans hone.1)

end

theorem construction_ends_twoRows : Ends slashed twoRows :=
  have h : (progressChecks slashed).passed slashed 40 twoRows = true := by decide +kernel
  construction_ends ⟨rfl, rfl, rfl⟩ (defined_of_checks h) (ahead_of_checks h)

-- A unit_length of 2^64 - 12 brings the cursor back to the start of the unit.
def wrapped : Scan :=
  lineBuffer [255, 255, 255, 255, 244, 255, 255, 255, 255, 255, 255, 255, 2, 0, 8, 0, 0, 0, 0, 0, 0, 0,
    1, 1, 0, 1, 1, 0, 0] (by decide)

theorem wrapped_stays : ¬ Ends slashed wrapped := by
  intro h
  have hback : (readCU slashed 1 wrapped).toOption.map (fun t => t.c.off) = some 0 := by
    decide +kernel
  cases hcu : readCU slashed 1 wrapped with
  | error e =>
    rw [hcu] at hback
    cases hback
  | ok t =>
    rw [hcu] at hback
    have hoff : t.c.off = 0 := Option.some.inj hback
    have := h.units wrapped t 1 .refl (by decide) hcu
    omega

end Gelpp.Dwarf

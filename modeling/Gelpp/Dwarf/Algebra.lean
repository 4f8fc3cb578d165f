import Gelpp.Dwarf.Interned
import Gelpp.Dwarf.LebReads

namespace Gelpp.Dwarf

def StateMachine.InRange (sm : StateMachine) : Prop :=
  sm.opIndex.toNat < sm.maximumOperationsPerInstruction.toNat

instance (sm : StateMachine) : Decidable sm.InRange := Nat.decLt _ _

def StateMachine.reaching (sm : StateMachine) (n : Nat) : StateMachine :=
  { sm with
    address := sm.address + sm.minimumInstructionLength.toUInt64 *
      .ofNat (n / sm.maximumOperationsPerInstruction.toNat)
    opIndex := .ofNat (n % sm.maximumOperationsPerInstruction.toNat) }

section
variable {sm : StateMachine}

theorem StateMachine.InRange.ops_ne (h : sm.InRange) :
    sm.maximumOperationsPerInstruction ≠ 0 := by
  intro h0
  unfold InRange at h
  rw [h0] at h
  exact Nat.not_lt_zero _ h

theorem StateMachine.reaching_opIndex (h : sm.InRange) (n : Nat) :
    (sm.reaching n).opIndex.toNat = n % sm.maximumOperationsPerInstruction.toNat := by
  have hbyte := sm.maximumOperationsPerInstruction.toNat_lt
  have hmod : n % sm.maximumOperationsPerInstruction.toNat <
      sm.maximumOperationsPerInstruction.toNat := Nat.mod_lt _ (Nat.zero_lt_of_lt h)
  simp only [reaching, UInt32.toNat_ofNat']
  omega

theorem StateMachine.reaching_inRange (h : sm.InRange) (n : Nat) : (sm.reaching n).InRange := by
  unfold InRange
  rw [reaching_opIndex h]
  exact Nat.mod_lt _ (Nat.zero_lt_of_lt h)

theorem StateMachine.reaching_reaching (h : sm.InRange) (n b : Nat) :
    (sm.reaching n).reaching ((sm.reaching n).opIndex.toNat + b) = sm.reaching (n + b) := by
  rw [reaching_opIndex h]
  have hpos := Nat.zero_lt_of_lt h
  generalize hm : sm.maximumOperationsPerInstruction.toNat = m at hpos
  have hquot : (n + b) / m = n / m + (n % m + b) / m := by
    calc (n + b) / m = (m * (n / m) + (n % m + b)) / m := by
          rw [← Nat.add_assoc, Nat.div_add_mod]
      _ = n / m + (n % m + b) / m := Nat.mul_add_div hpos _ _
  have hrem : (n % m + b) % m = (n + b) % m := Nat.mod_add_mod n m b
  simp only [reaching, hm, hrem, hquot, UInt64.ofNat_add]
  rw [mul_add, add_assoc]

theorem advancePC_reaching {adv : UInt64} (h : sm.InRange)
    (hsum : sm.opIndex.toNat + adv.toNat < 2 ^ 64) :
    advancePC sm adv = .ok (sm.reaching (sm.opIndex.toNat + adv.toNat)) := by
  unfold advancePC
  dsimp only
  by_cases h1 : sm.maximumOperationsPerInstruction = 1
  · have hone : sm.maximumOperationsPerInstruction.toNat = 1 := by
      rw [h1]
      rfl
    have hzero : sm.opIndex.toNat = 0 := by
      unfold StateMachine.InRange at h
      omega
    have hindex : sm.opIndex = 0 := UInt32.toNat_inj.mp hzero
    rw [if_pos h1, StateMachine.reaching, hone, hzero, Nat.zero_add, Nat.div_one, Nat.mod_one,
      UInt64.ofNat_toNat]
    conv_lhs => rw [show sm = { sm with opIndex := 0 } from by rw [← hindex]]
    rfl
  · have hadd : (sm.opIndex.toUInt64 + adv).toNat = sm.opIndex.toNat + adv.toNat := by
      rw [UInt64.toNat_add, UInt32.toNat_toUInt64, Nat.mod_eq_of_lt hsum]
    have hquot : (sm.opIndex.toUInt64 + adv) / sm.maximumOperationsPerInstruction.toUInt64 =
        .ofNat ((sm.opIndex.toNat + adv.toNat) / sm.maximumOperationsPerInstruction.toNat) := by
      rw [← UInt64.ofNat_toNat (x := (sm.opIndex.toUInt64 + adv) / _), UInt64.toNat_div, hadd,
        UInt8.toNat_toUInt64]
    have hrem :
        ((sm.opIndex.toUInt64 + adv) % sm.maximumOperationsPerInstruction.toUInt64).toUInt32 =
          .ofNat ((sm.opIndex.toNat + adv.toNat) % sm.maximumOperationsPerInstruction.toNat) := by
      apply UInt32.toNat_inj.mp
      rw [UInt64.toNat_toUInt32, UInt64.toNat_mod, hadd, UInt8.toNat_toUInt64, UInt32.toNat_ofNat']
    rw [if_neg h1, if_neg h.ops_ne, hquot, hrem]
    rfl

theorem advancePC_add {a b : UInt64} (h : sm.InRange)
    (hsum : sm.opIndex.toNat + a.toNat + b.toNat < 2 ^ 64) :
    (advancePC sm a >>= fun t => advancePC t b) = advancePC sm (a + b) := by
  have hab : (a + b).toNat = a.toNat + b.toNat := by
    rw [UInt64.toNat_add, Nat.mod_eq_of_lt (by omega)]
  have ht := StateMachine.reaching_inRange h (sm.opIndex.toNat + a.toNat)
  have hindex := StateMachine.reaching_opIndex h (sm.opIndex.toNat + a.toNat)
  have hle := Nat.mod_le (sm.opIndex.toNat + a.toNat) sm.maximumOperationsPerInstruction.toNat
  rw [advancePC_reaching h (by omega), Res.ok_bind, advancePC_reaching ht (by omega),
    advancePC_reaching h (by omega), StateMachine.reaching_reaching h, hab, Nat.add_assoc]

theorem advancePC_inRange (h : sm.InRange) (adv : UInt64) :
    ∃ t, advancePC sm adv = .ok t ∧ t.InRange := by
  unfold advancePC
  by_cases h1 : sm.maximumOperationsPerInstruction = 1
  · exact ⟨_, if_pos h1, h⟩
  · refine ⟨_, (if_neg h1).trans (if_neg h.ops_ne), ?_⟩
    have hbyte := sm.maximumOperationsPerInstruction.toNat_lt
    have hmod : (sm.opIndex.toUInt64 + adv).toNat % sm.maximumOperationsPerInstruction.toNat <
        sm.maximumOperationsPerInstruction.toNat := Nat.mod_lt _ (Nat.zero_lt_of_lt h)
    unfold StateMachine.InRange
    simp only [UInt64.toNat_toUInt32, UInt64.toNat_mod, UInt8.toNat_toUInt64]
    omega

theorem advancePC_advanceLine {line : Int} (hline : sm.line.toNat + line < 2 ^ 63) (adv : UInt64) :
    (advanceLine sm line >>= fun t => advancePC t adv) =
      advancePC sm adv >>= fun t => advanceLine t line := by
  rw [advanceLine_of_lt hline, Res.ok_bind]
  unfold advancePC
  dsimp only
  split
  · exact (if_pos hline).symm
  · split
    · rfl
    · exact (if_pos hline).symm

end

def specialAdvance (sm : StateMachine) (opcode : UInt8) : UInt64 :=
  ((opcode - sm.opcodeBase) / sm.lineRange).toUInt64

def specialLine (sm : StateMachine) (opcode : UInt8) : Int :=
  sm.lineBase.toInt + ((opcode - sm.opcodeBase) % sm.lineRange).toNat

theorem specialLine_lt (sm : StateMachine) (opcode : UInt8) :
    sm.line.toNat + specialLine sm opcode < 2 ^ 63 := special_line_lt _ _ _

theorem special_eq {s : Reader} (hr : s.sm.lineRange ≠ 0) (opcode : UInt8) :
    special opcode s = advancePC s.sm (specialAdvance s.sm opcode) >>= fun t =>
      advanceLine t (specialLine s.sm opcode) >>= fun u => recordLine { s with sm := u } := by
  have hswap := advancePC_advanceLine (specialLine_lt s.sm opcode) (specialAdvance s.sm opcode)
  unfold special
  dsimp only
  rw [if_neg hr, ← specialLine, ← specialAdvance, ← bind_assoc, hswap, bind_assoc]

-- Opcode 2 with the decoded advance, opcode 3 with the decoded line, then opcode 1.
theorem special_expanded {s : Reader} {opcode : UInt8} {c c' d d' : Cursor}
    (hr : s.sm.lineRange ≠ 0) (hc : readLEB128U c = .ok (specialAdvance s.sm opcode, c'))
    (hd : readLEB128S d = .ok (specialLine s.sm opcode, d')) :
    special opcode s = standard 2 { s with c } >>= fun t =>
      standard 3 { t with c := d } >>= fun u => standard 1 { u with c := s.c } := by
  have hadvance : standard 2 { s with c } =
      readLEB128U c >>= fun v => advancePC s.sm v.1 >>= fun sm => .ok { s with c := v.2, sm } := rfl
  have hline (t : Reader) : standard 3 { t with c := d } =
      readLEB128S d >>= fun v => advanceLine t.sm v.1 >>= fun sm => .ok { t with c := v.2, sm } := rfl
  have hcopy (t : Reader) : standard 1 t = recordLine t := rfl
  rw [special_eq hr, hadvance, hc, Res.ok_bind, bind_assoc]
  simp only [hline, hd, Res.ok_bind, hcopy, bind_assoc]

theorem constAddPC_eq {s : Reader} (hr : s.sm.lineRange ≠ 0) :
    standard 8 s = advancePC s.sm (specialAdvance s.sm 255) >>= fun sm => .ok { s with sm } :=
  if_neg hr

section
variable {join : Path → Path → Path}

theorem keep_sm {α : Type} (read : Cursor → Res (Option (α × Cursor))) (s : Reader) :
    Meets Any (fun t => t.sm = s.sm) (s.keep read fun _ sm => sm) := by
  refine (Meets.any _).bind fun o _ => ?_
  cases o with
  | none => rfl
  | some r => rfl

theorem readPath_sm (message : String) (form : UInt64) (old : CString) (s : Reader) :
    Meets Any (fun r => r.2.sm = s.sm) (readPath message form old s) := by
  refine Meets.ite (fun _ => ?_) fun _ => ?_
  · exact (Meets.any _).bind fun r _ => rfl
  refine Meets.ite (fun _ => ?_) fun _ => ?_
  · exact (Meets.any _).bind fun r _ => (Meets.any _).bind fun _ _ => rfl
  refine Meets.ite (fun _ => ?_) fun _ => trivial
  exact (Meets.any _).bind fun r _ => (Meets.any _).bind fun _ _ => rfl

theorem readFileField_sm (f : FileEntry) (format : UInt64 × UInt64) :
    Meets Any (fun g => g.s.sm = f.s.sm) (readFileField f format) := by
  refine Meets.ite (fun _ => ?_) fun _ => ?_
  · exact (readPath_sm ..).bind fun _ h => h
  refine Meets.ite (fun _ => ?_) fun _ => ?_
  · refine (Meets.any _).bind fun r _ => ?_
    dsimp only
    split <;> rfl
  refine Meets.ite (fun _ => ?_) fun _ => trivial
  exact (keep_sm ..).bind fun _ h => h

theorem readFileEntry5_sm (formats : List (UInt64 × UInt64)) (s : Reader) :
    Meets Any (fun t => t.sm = s.sm) (readFileEntry5 join formats s) := by
  refine (Meets.foldlM (fun f : FileEntry => f.s.sm = s.sm) (fun f format hf => ?_) rfl).bind
    fun f hf => ?_
  · exact (readFileField_sm f format).post fun g hg => hg.trans hf
  refine Meets.ite (fun _ => hf) fun _ => ?_
  exact (Meets.any _).bind fun _ _ => (Meets.any _).bind fun _ _ => hf

theorem readFileBody_sm (f : FileState) :
    Meets Any (fun g => g.s.sm = f.s.sm) (readFileBody join f) :=
  (Meets.any _).bind fun _ _ => (Meets.any _).bind fun _ _ => (Meets.any _).bind fun _ _ =>
    (Meets.any _).bind fun _ _ => (Meets.any _).bind fun _ _ => rfl

theorem readFile_sm (s : Reader) : Meets Any (fun t => t.sm = s.sm) (readFile join s) := by
  refine Meets.ite (fun _ => ?_) fun _ => ?_
  · refine (Meets.any _).bind fun r _ => ?_
    refine (Meets.run_stuck (fun f : FileState => f.s.sm = s.sm) trivial (fun f _ _ hf => ?_)
      rfl).bind fun f hf => hf.1
    exact (readFileBody_sm f).post fun g hg => hg.trans hf
  · refine (Meets.any _).bind fun _ _ => (Meets.any _).bind fun formats _ =>
      (Meets.any _).bind fun _ _ => ?_
    refine Meets.times (fun t : Reader => t.sm = s.sm) (fun t ht => ?_) rfl
    exact (readFileEntry5_sm formats.1 t).post fun u hu => hu.trans ht

theorem land_sm (target : Option Nat) (s : Reader) :
    Meets Any (fun t => t.sm = s.sm) (land target s) := by
  cases target with
  | none => rfl
  | some o =>
    refine (Meets.any _).bind fun c _ => ?_
    cases c with
    | none => rfl
    | some c => rfl

theorem perform_inRange {s : Reader} (h : s.sm.InRange) (a : Action) :
    Meets Any (fun t => t.sm.InRange) (perform join s a) := by
  have hadvance {sm : StateMachine} (hsm : sm.InRange) (adv : UInt64) :
      Meets Any StateMachine.InRange (advancePC sm adv) := by
    obtain ⟨t, ht, hin⟩ := advancePC_inRange hsm adv
    rw [ht]
    exact hin
  have hline {sm : StateMachine} (hsm : sm.InRange) (adv : Int) :
      Meets Any StateMachine.InRange (advanceLine sm adv) :=
    Meets.ite (fun _ => hsm) fun _ => trivial
  have hrecord {t : Reader} (ht : t.sm.InRange) :
      Meets Any (fun u : Reader => u.sm.InRange) (recordLine t) :=
    (Meets.any _).bind fun _ _ => ht
  cases a with
  | special opcode =>
    refine Meets.ite (fun _ => trivial) fun _ => (hline h _).bind fun sm hsm => ?_
    exact (hadvance hsm _).bind fun sm hsm => hrecord hsm
  | copy => exact hrecord h
  | advancePC adv => exact (hadvance h adv).bind fun sm hsm => hsm
  | advanceLine adv => exact (hline h adv).bind fun sm hsm => hsm
  | negateStmt => exact Meets.ite (fun _ => h) fun _ => h
  | constAddPC =>
    exact Meets.ite (fun _ => trivial) fun _ => (hadvance h _).bind fun sm hsm => hsm
  | fixedAdvancePC o => exact Nat.zero_lt_of_lt h
  | endSequence => exact (hrecord h).bind fun t ht => ht
  | defineFile =>
    refine (readFile_sm s).post fun t ht => ?_
    rw [ht]
    exact h
  | _ => exact h

theorem step_inRange {s : Reader} (h : s.sm.InRange) (endOffset : Nat) :
    Meets Any (fun t => t.sm.InRange) (step join endOffset s) := by
  rw [step_eq]
  refine Meets.ite (fun _ => trivial) fun _ => (Meets.any _).bind fun d _ => ?_
  refine (perform_inRange (s := { s with c := d.c }) h d.action).bind fun t ht => ?_
  refine (land_sm d.target t).post fun u hu => ?_
  rw [hu]
  exact ht

theorem visits_inRange {s t : Reader} (h : s.sm.InRange) {endOffset : Nat}
    (hv : Loop.Visits running (step join endOffset) s t) : t.sm.InRange :=
  Loop.visits_invariant (I := fun u => u.sm.InRange)
    (fun _ _ hu hstep => (step_inRange hu endOffset).of_ok hstep.2) h hv

end

theorem opcode_algebra (join : Path → Path → Path) {s : Reader} (hrange : 0 < s.sm.lineRange)
    (hindex : s.sm.opIndex.toNat < s.sm.maximumOperationsPerInstruction.toNat) :
    (∀ a b : UInt64, s.sm.opIndex.toNat + (a.toNat + b.toNat) < 2 ^ 64 →
      ∃ t, advancePC s.sm (a + b) = .ok t ∧
        (advancePC s.sm a >>= fun u => advancePC u b) = .ok t) ∧
    (∀ adv, ∃ t, advancePC s.sm adv = .ok t ∧
      t.opIndex.toNat < t.maximumOperationsPerInstruction.toNat) ∧
    (∀ endOffset t, Loop.Visits running (step join endOffset) s t →
      t.sm.opIndex.toNat < t.sm.maximumOperationsPerInstruction.toNat) ∧
    (∀ opcode c c' d d', s.sm.opcodeBase ≤ opcode →
      readLEB128U c = .ok (specialAdvance s.sm opcode, c') →
      readLEB128S d = .ok (specialLine s.sm opcode, d') →
      execute join opcode s = standard 2 { s with c } >>= fun t =>
        standard 3 { t with c := d } >>= fun u => standard 1 { u with c := s.c }) ∧
    ∃ t, standard 8 s = .ok t ∧
      t = { s with sm.address := t.sm.address, sm.opIndex := t.sm.opIndex } ∧
      ∃ sm, advanceLine t.sm (specialLine s.sm 255) = .ok sm ∧
        execute join 255 s = recordLine { t with sm } := by
  have hr : s.sm.lineRange ≠ 0 := by
    intro h0
    rw [h0] at hrange
    exact absurd hrange (by decide)
  refine ⟨fun a b hsum => ?_, advancePC_inRange hindex, fun _ _ => visits_inRange hindex,
    fun opcode c c' d d' hop hc hd => ?_, ?_⟩
  · obtain ⟨t, ht, -⟩ := advancePC_inRange hindex (a + b)
    exact ⟨t, ht, (advancePC_add hindex (by omega)).trans ht⟩
  · rw [execute, if_pos hop]
    exact special_expanded hr hc hd
  · have hmax : s.sm.opcodeBase ≤ 255 := by
      have hlt := s.sm.opcodeBase.toNat_lt
      rw [UInt8.le_iff_toNat_le]
      exact Nat.le_of_lt_succ hlt
    have hquot : (specialAdvance s.sm 255).toNat ≤ 255 := by
      unfold specialAdvance
      rw [UInt8.toNat_toUInt64]
      exact Nat.le_of_lt_succ (UInt8.toNat_lt _)
    have hbyte := s.sm.maximumOperationsPerInstruction.toNat_lt
    have hsum : s.sm.opIndex.toNat + (specialAdvance s.sm 255).toNat < 2 ^ 64 := by omega
    have hadvance := advancePC_reaching hindex hsum
    let t := s.sm.reaching (s.sm.opIndex.toNat + (specialAdvance s.sm 255).toNat)
    have hline : advanceLine t (specialLine s.sm 255) = .ok
        { t with line := .ofInt (t.line.toNat + specialLine s.sm 255) } :=
      advanceLine_of_lt (specialLine_lt s.sm 255)
    refine ⟨_, (constAddPC_eq hr).trans (by rw [hadvance]; rfl), rfl, _, hline, ?_⟩
    rw [execute, if_pos hmax, special_eq hr, hadvance, Res.ok_bind, hline]
    rfl

def packed : Reader where
  c := bytesCursor [2, 125] (by decide)
  sm := {
    opIndex := 3, lineBase := -3, lineRange := 12, opcodeBase := 10
    minimumInstructionLength := 2, maximumOperationsPerInstruction := 4 }
  cu := { files := [0] }
  dl := { strSect := nullCursor, lineStrSect := nullCursor }

-- The special opcode 34 of two operations and the line -3: two operands of one byte.
theorem opcode_algebra_packed :
    (∃ t, advancePC packed.sm (3 + 6) = .ok t ∧
      (advancePC packed.sm 3 >>= fun u => advancePC u 6) = .ok t) ∧
    (execute (fun _ path => path) 34 packed = standard 2 packed >>= fun t =>
      standard 3 { t with c := packed.c.forward 1 } >>= fun u =>
        standard 1 { u with c := packed.c }) ∧
    ∃ t, standard 8 packed = .ok t ∧
      t = { packed with sm.address := t.sm.address, sm.opIndex := t.sm.opIndex } ∧
      ∃ sm, advanceLine t.sm (specialLine packed.sm 255) = .ok sm ∧
        execute (fun _ path => path) 255 packed = recordLine { t with sm } :=
  have h := opcode_algebra (fun _ path => path) (s := packed) (by decide) (by decide)
  have hadvance : packed.c.rest = Leb128.encoding ((2 : UInt64).toNat : Int) 1 ++ [125] := by decide
  have hline : (packed.c.forward 1).rest = Leb128.encoding (-3 : Int64).toInt 1 ++ [] := by decide
  ⟨h.1 3 6 (by decide), h.2.2.2.1 34 packed.c (packed.c.forward 1) (packed.c.forward 1)
    (packed.c.forward 2) (by decide) (readLEB128U_encoding rfl (by decide) (by decide) hadvance)
    (readLEB128S_encoding rfl (by decide) (by decide) (by decide) hline), h.2.2.2.2⟩

end Gelpp.Dwarf

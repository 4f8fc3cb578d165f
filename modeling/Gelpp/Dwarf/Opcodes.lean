import Gelpp.Dwarf.HeaderRead

namespace Gelpp.Dwarf

inductive Action where
  | special (opcode : UInt8)
  | copy
  | advancePC (adv : UInt64)
  | advanceLine (adv : Int)
  | setFile (file : UInt64)
  | setColumn (column : UInt64)
  | negateStmt
  | setBasicBlock
  | constAddPC
  | fixedAdvancePC (o : UInt16)
  | setPrologueEnd
  | setEpilogueBegin
  | setIsa (isa : UInt64)
  | endSequence
  | setAddress (address : UInt64)
  | defineFile
  | setDiscriminator (discriminator : UInt64)
  deriving DecidableEq

namespace Action

def records : Action → Bool
  | special _ => true
  | copy => true
  | endSequence => true
  | _ => false

def ends : Action → Bool
  | endSequence => true
  | _ => false

def ranges : Action → Bool
  | special _ => true
  | constAddPC => true
  | _ => false

def advances : Action → Bool
  | special _ => true
  | advancePC _ => true
  | constAddPC => true
  | _ => false

theorem records_of_ends {a : Action} (h : a.ends = true) : a.records = true := by
  cases a with
  | endSequence => rfl
  | _ => cases h

end Action

structure Decoded where
  action : Action
  c : Cursor
  target : Option Nat := none

def operandU (action : UInt64 → Action) (c : Cursor) : Res Decoded := do
  let (v, c) ← readLEB128U c
  return { action := action v, c }

def decodeStandard (opcode : UInt8) (c : Cursor) : Res Decoded :=
  if opcode = 1 then return { action := .copy, c }
  else if opcode = 2 then operandU .advancePC c
  else if opcode = 3 then do
    let (adv, c) ← readLEB128S c
    return { action := .advanceLine adv, c }
  else if opcode = 4 then operandU .setFile c
  else if opcode = 5 then operandU .setColumn c
  else if opcode = 6 then return { action := .negateStmt, c }
  else if opcode = 7 then return { action := .setBasicBlock, c }
  else if opcode = 8 then return { action := .constAddPC, c }
  else if opcode = 9 then do
    let (o, c) ← errorIf (← c.readU16)
    return { action := .fixedAdvancePC o, c }
  else if opcode = 10 then return { action := .setPrologueEnd, c }
  else if opcode = 11 then return { action := .setEpilogueBegin, c }
  else if opcode = 12 then operandU .setIsa c
  else raise "invalid debug line standard opcode"

def decodeExtendedOpcode (is64 : Bool) (opcode : UInt8) (c : Cursor) : Res Decoded :=
  if opcode = 1 then return { action := .endSequence, c }
  else if opcode = 2 then do
    let (address, c) ← readAddress is64 c
    return { action := .setAddress address, c }
  else if opcode = 3 then return { action := .defineFile, c }
  else if opcode = 4 then operandU .setDiscriminator c
  else raise "invalid debug line extended opcode"

def decodeExtended (is64 : Bool) (c : Cursor) : Res Decoded := do
  let (length, c) ← readLEB128U c
  let offset := extendedEnd length c.off
  let (opcode, c) ← errorIf (← c.readU8)
  let d ← decodeExtendedOpcode is64 opcode c
  return { d with target := some offset }

def decode (s : Reader) : Res Decoded := do
  let (opcode, c) ← errorIf (← s.c.readU8)
  if s.sm.opcodeBase ≤ opcode then return { action := .special opcode, c }
  else if opcode = 0 then decodeExtended s.dl.is64 c
  else decodeStandard opcode c

def perform (join : Path → Path → Path) (s : Reader) : Action → Res Reader
  | .special opcode => special opcode s
  | .copy => recordLine s
  | .advancePC adv => do
    let sm ← advancePC s.sm adv
    return { s with sm }
  | .advanceLine adv => do
    let sm ← advanceLine s.sm adv
    return { s with sm }
  | .setFile v => return { s with sm.file := v.toUInt32 }
  | .setColumn v => return { s with sm.column := v.toUInt32 }
  | .negateStmt =>
    if s.sm.bit isStmt then return { s with sm := s.sm.clear isStmt }
    else return { s with sm := s.sm.set isStmt }
  | .setBasicBlock => return { s with sm := s.sm.set basicBlock }
  | .constAddPC =>
    if s.sm.lineRange = 0 then .error (.fault .division)
    else do
      let sm ← advancePC s.sm ((255 - s.sm.opcodeBase) / s.sm.lineRange).toUInt64
      return { s with sm }
  | .fixedAdvancePC o =>
    return { s with sm.address := s.sm.address + o.toUInt64, sm.opIndex := 0 }
  | .setPrologueEnd => return { s with sm := s.sm.set prologueEnd }
  | .setEpilogueBegin => return { s with sm := s.sm.set epilogueBegin }
  | .setIsa v => return { s with sm.isa := v.toUInt32 }
  | .endSequence => do
    let s ← recordLine s
    return { s with sm.endSequence := true }
  | .setAddress address => return { s with sm.address := address }
  | .defineFile => readFile join s
  | .setDiscriminator v => return { s with sm.discriminator := v.toUInt32 }

def land (target : Option Nat) (s : Reader) : Res Reader :=
  match target with
  | none => .ok s
  | some o => s.moveTo o

def enact (join : Path → Path → Path) (s : Reader) (d : Decoded) : Res Reader := do
  let t ← perform join { s with c := d.c } d.action
  land d.target t

theorem ite_eq_bind {α β : Type} {p : Prop} [Decidable p] {x y : Res β} {a b : Res α}
    {f : α → Res β} (hpos : p → x = a >>= f) (hneg : ¬ p → y = b >>= f) :
    (if p then x else y) = (if p then a else b) >>= f := by
  by_cases h : p
  · rw [if_pos h, if_pos h, hpos h]
  · rw [if_neg h, if_neg h, hneg h]

theorem bind_land {d : Decoded} {x : Res Reader} (hd : d.target = none) :
    (x >>= fun t => land d.target t) = x := by
  rw [hd]
  cases x <;> rfl

section
variable {join : Path → Path → Path}

theorem withU_eq (s : Reader) (action : UInt64 → Action)
    (put : UInt64 → StateMachine → StateMachine)
    (h : ∀ c v, perform join { s with c } (action v) = .ok { s with c, sm := put v s.sm }) :
    withU s put = operandU action s.c >>= enact join s := by
  unfold withU operandU
  cases readLEB128U s.c with
  | error e => rfl
  | ok r =>
    change .ok { s with c := r.2, sm := put r.1 s.sm } =
      perform join { s with c := r.2 } (action r.1) >>= land none
    rw [h]
    rfl

theorem standard_eq (opcode : UInt8) (s : Reader) :
    standard opcode s = decodeStandard opcode s.c >>= enact join s := by
  unfold standard decodeStandard
  refine ite_eq_bind (fun _ => ?_) fun _ => ?_
  · exact (bind_land (d := { action := .copy, c := s.c }) rfl).symm
  refine ite_eq_bind (fun _ => ?_) fun _ => ?_
  · unfold operandU
    cases readLEB128U s.c with
    | error e => rfl
    | ok r => exact (bind_land (d := { action := .advancePC r.1, c := r.2 }) rfl).symm
  refine ite_eq_bind (fun _ => ?_) fun _ => ?_
  · cases readLEB128S s.c with
    | error e => rfl
    | ok r => exact (bind_land (d := { action := .advanceLine r.1, c := r.2 }) rfl).symm
  refine ite_eq_bind (fun _ => withU_eq s _ _ fun _ _ => rfl) fun _ => ?_
  refine ite_eq_bind (fun _ => withU_eq s _ _ fun _ _ => rfl) fun _ => ?_
  refine ite_eq_bind (fun _ => ?_) fun _ => ?_
  · exact (bind_land (d := { action := .negateStmt, c := s.c }) rfl).symm
  refine ite_eq_bind (fun _ => rfl) fun _ => ?_
  refine ite_eq_bind (fun _ => ?_) fun _ => ?_
  · exact (bind_land (d := { action := .constAddPC, c := s.c }) rfl).symm
  refine ite_eq_bind (fun _ => ?_) fun _ => ?_
  · cases s.c.readU16 with
    | error e => rfl
    | ok o => cases o <;> rfl
  refine ite_eq_bind (fun _ => rfl) fun _ => ?_
  refine ite_eq_bind (fun _ => rfl) fun _ => ?_
  exact ite_eq_bind (fun _ => withU_eq s _ _ fun _ _ => rfl) fun _ => rfl

theorem extendedOpcode_eq (opcode : UInt8) (s : Reader) :
    extendedOpcode join opcode s = decodeExtendedOpcode s.dl.is64 opcode s.c >>=
      fun d => perform join { s with c := d.c } d.action := by
  unfold extendedOpcode decodeExtendedOpcode
  refine ite_eq_bind (fun _ => rfl) fun _ => ?_
  refine ite_eq_bind (fun _ => ?_) fun _ => ?_
  · cases readAddress s.dl.is64 s.c <;> rfl
  refine ite_eq_bind (fun _ => rfl) fun _ => ?_
  refine ite_eq_bind (fun _ => ?_) fun _ => rfl
  unfold withU operandU
  cases readLEB128U s.c <;> rfl

theorem extended_eq (s : Reader) :
    extended join s = decodeExtended s.dl.is64 s.c >>= enact join s := by
  unfold extended decodeExtended
  cases readLEB128U s.c with
  | error e => rfl
  | ok r =>
    simp only [Res.ok_bind, bind_assoc]
    cases r.2.readU8 with
    | error e => rfl
    | ok o =>
      simp only [Res.ok_bind]
      cases errorIf o with
      | error e => rfl
      | ok v =>
        simp only [Res.ok_bind, extendedOpcode_eq, bind_assoc]
        cases decodeExtendedOpcode s.dl.is64 v.1 v.2 <;> rfl

theorem step_eq (s : Reader) (endOffset : Nat) :
    step join endOffset s =
      if endOffset ≤ s.c.off then raise "endless debug line opcode program"
      else decode s >>= enact join s := by
  unfold step decode execute
  split
  · rfl
  · cases s.c.readU8 with
    | error e => rfl
    | ok o =>
      simp only [Res.ok_bind]
      cases errorIf o with
      | error e => rfl
      | ok v =>
        simp only [Res.ok_bind]
        refine ite_eq_bind (fun _ => ?_) fun _ => ?_
        · exact (bind_land (d := { action := .special v.1, c := v.2 }) rfl).symm
        · exact ite_eq_bind (fun _ => extended_eq _) fun _ => standard_eq _ _

end

open Cursor (Past)

theorem operandU_meets {action : UInt64 → Action} {c : Cursor} (hf : c.buf.fence = none) :
    Meets Tame (fun d => Past 1 c d.c) (operandU action c) :=
  (readLEB128U_meets hf).bind fun _ hr => hr

theorem decodeStandard_meets {opcode : UInt8} {c : Cursor} (hf : c.buf.fence = none) :
    Meets Tame (fun d => Past 0 c d.c) (decodeStandard opcode c) := by
  have operand {action : UInt64 → Action} : Meets Tame (fun d => Past 0 c d.c) (operandU action c) :=
    (operandU_meets hf).post fun d hd => hd.weaken (by omega)
  refine Meets.ite (fun _ => .refl c) fun _ => ?_
  refine Meets.ite (fun _ => operand) fun _ => ?_
  refine Meets.ite (fun _ => ?_) fun _ => ?_
  · exact (readLEB128S_meets hf).bind fun r hr => hr.weaken (by omega)
  refine Meets.ite (fun _ => operand) fun _ => ?_
  refine Meets.ite (fun _ => operand) fun _ => ?_
  refine Meets.ite (fun _ => .refl c) fun _ => ?_
  refine Meets.ite (fun _ => .refl c) fun _ => ?_
  refine Meets.ite (fun _ => .refl c) fun _ => ?_
  refine Meets.ite (fun _ => ?_) fun _ => ?_
  · rw [← bind_assoc]
    exact (Cursor.readOrRaise_meets tame_exception hf (by omega)).bind fun r hr => hr.weaken (by omega)
  refine Meets.ite (fun _ => .refl c) fun _ => ?_
  refine Meets.ite (fun _ => .refl c) fun _ => ?_
  exact Meets.ite (fun _ => operand) fun _ => trivial

theorem decodeExtendedOpcode_meets {is64 : Bool} {opcode : UInt8} {c : Cursor}
    (hf : c.buf.fence = none) :
    Meets Tame (fun d => Past 0 c d.c) (decodeExtendedOpcode is64 opcode c) := by
  unfold decodeExtendedOpcode
  split
  · exact .refl c
  split
  · exact (readAddress_meets tame_exception hf).bind fun r hr => hr.weaken (by omega)
  split
  · exact .refl c
  split
  · exact (operandU_meets hf).post fun d hd => hd.weaken (by omega)
  · trivial

theorem decodeExtended_meets {is64 : Bool} {c : Cursor} (hf : c.buf.fence = none) :
    Meets Tame (fun d => Past 0 c d.c) (decodeExtended is64 c) := by
  refine (readLEB128U_meets hf).bind fun r h1 => ?_
  have hf1 : r.2.buf.fence = none := by rw [h1.buf, hf]
  dsimp only
  rw [← bind_assoc]
  refine (Cursor.readOrRaise_meets tame_exception hf1 (by omega)).bind fun v h2 => ?_
  have hf2 : v.2.buf.fence = none := by rw [h2.buf, hf1]
  refine (decodeExtendedOpcode_meets hf2).bind fun d h3 => ?_
  exact ((h1.trans h2).trans h3).weaken (by omega)

theorem decode_meets {s : Reader} (hf : s.c.buf.fence = none) :
    Meets Tame (fun d => Past 1 s.c d.c) (decode s) := by
  unfold decode
  rw [← bind_assoc]
  refine (Cursor.readOrRaise_meets tame_exception hf (by omega)).bind fun v hv => ?_
  have hvf : v.2.buf.fence = none := by rw [hv.buf, hf]
  dsimp only
  split
  · exact hv
  split
  · exact (decodeExtended_meets hvf).post fun d hd => (hv.trans hd).weaken (by omega)
  · exact (decodeStandard_meets hvf).post fun d hd => (hv.trans hd).weaken (by omega)

structure RowOk (s : Reader) : Prop where
  pos : 1 ≤ s.sm.file.toNat
  le : s.sm.file.toNat ≤ s.cu.files.length
  int : s.sm.file.toNat ≤ 2 ^ 31

instance (s : Reader) : Decidable (RowOk s) :=
  decidable_of_iff (1 ≤ s.sm.file.toNat ∧ s.sm.file.toNat ≤ s.cu.files.length ∧
    s.sm.file.toNat ≤ 2 ^ 31) ⟨fun ⟨h1, h2, h3⟩ => ⟨h1, h2, h3⟩, fun ⟨h1, h2, h3⟩ => ⟨h1, h2, h3⟩⟩

def recorded (s : Reader) (file : Nat) : Reader :=
  { s with
    cu.lines := s.cu.lines ++ [lineNumber s.sm file]
    sm := { s.sm.set (basicBlock ||| prologueEnd ||| epilogueBegin) with discriminator := 0 } }

theorem fileIndex_of_pos {v : UInt32} (hpos : 1 ≤ v.toNat) (hint : v.toNat ≤ 2 ^ 31) :
    (v - 1).toInt32.toInt = ((v.toNat - 1 : Nat) : Int) := by
  have hsub : (v - 1).toNat = v.toNat - 1 :=
    UInt32.toNat_sub_of_le v 1 (UInt32.le_iff_toNat_le.mpr hpos)
  rw [int_of_lt (by omega), hsub]

theorem recordLine_eq {s : Reader} {f : Nat} (hf : s.cu.files[s.sm.file.toNat - 1]? = some f)
    (hpos : 1 ≤ s.sm.file.toNat) (hint : s.sm.file.toNat ≤ 2 ^ 31) :
    recordLine s = .ok (recorded s f) := by
  obtain ⟨hlt, hget⟩ := List.getElem?_eq_some_iff.mp hf
  rw [recordLine, fileIndex_of_pos hpos hint, vectorAt_of_lt hlt, hget]
  rfl

theorem vectorAt_mem {α : Type} {l : List α} {i : Int} {a : α} (h : vectorAt l i = .ok a) :
    a ∈ l := by
  unfold vectorAt at h
  split at h
  · split at h
    · next b hb =>
      cases h
      exact List.mem_of_getElem? hb
    · cases h
  · cases h

theorem recordLine_meets {A : Stop → Prop} {s : Reader} (hrow : ¬ RowOk s → A (.fault .index)) :
    Meets A (fun t => ∃ f ∈ s.cu.files, t = recorded s f) (recordLine s) := by
  rw [recordLine]
  cases h : vectorAt s.cu.files (s.sm.file - 1).toInt32.toInt with
  | ok f => exact ⟨f, vectorAt_mem h, rfl⟩
  | error e =>
    rw [vectorAt_error h]
    refine hrow fun hok => ?_
    have hpos := hok.pos
    have hle := hok.le
    rw [fileIndex_of_pos hpos hok.int, vectorAt_of_lt (by omega)] at h
    cases h

def StateMachine.header (sm : StateMachine) :
    UInt16 × Int8 × UInt8 × UInt8 × UInt8 × UInt8 × List CString :=
  (sm.version, sm.lineBase, sm.lineRange, sm.opcodeBase, sm.minimumInstructionLength,
    sm.maximumOperationsPerInstruction, sm.includeDirectories)

theorem advancePC_meets {A : Stop → Prop} {sm : StateMachine} {adv : UInt64}
    (hops : sm.maximumOperationsPerInstruction = 0 → A (.fault .division)) :
    Meets A (fun t => ∃ a o, t = { sm with address := a, opIndex := o }) (advancePC sm adv) := by
  unfold advancePC
  refine Meets.ite (fun _ => ⟨_, _, rfl⟩) fun _ => ?_
  exact Meets.ite hops fun _ => ⟨_, _, rfl⟩

theorem advanceLine_of_lt {sm : StateMachine} {adv : Int} (h : sm.line.toNat + adv < 2 ^ 63) :
    advanceLine sm adv = .ok { sm with line := .ofInt (sm.line.toNat + adv) } :=
  if_pos h

theorem advanceLine_meets {A : Stop → Prop} {sm : StateMachine} {adv : Int}
    (hline : ¬ sm.line.toNat + adv < 2 ^ 63 → A (.fault .overflow)) :
    Meets A (fun t => ∃ l, t = { sm with line := l }) (advanceLine sm adv) :=
  Meets.ite (fun _ => ⟨_, rfl⟩) hline

theorem special_line_lt (line : UInt32) (base : Int8) (k : UInt8) :
    line.toNat + (base.toInt + (k.toNat : Int)) < 2 ^ 63 := by
  have hline := line.toNat_lt
  have hbase := base.toInt_lt
  have hk := k.toNat_lt
  omega

structure Performed (s : Reader) (a : Action) (t : Reader) : Prop where
  buf : t.c.buf = s.c.buf
  strSect : t.dl.strSect.buf = s.dl.strSect.buf
  lineStrSect : t.dl.lineStrSect.buf = s.dl.lineStrSect.buf
  is64 : t.dl.is64 = s.dl.is64
  units : t.dl.units = s.dl.units
  off : s.c.off ≤ t.c.off
  files : s.cu.files <+: t.cu.files
  header : t.sm.header = s.sm.header
  ended : t.sm.endSequence = (a.ends || s.sm.endSequence)
  rows : ∃ rows : List LineNumber, t.cu.lines = s.cu.lines ++ rows ∧
    rows.length = a.records.toNat ∧ ∀ l ∈ rows, l.file ∈ s.cu.files

theorem performed_sm {s : Reader} {a : Action} {sm : StateMachine}
    (hh : sm.header = s.sm.header) (he : sm.endSequence = (a.ends || s.sm.endSequence))
    (hr : a.records = false) : Performed s a { s with sm } :=
  ⟨rfl, rfl, rfl, rfl, rfl, Nat.le_refl _, List.prefix_refl _, hh, he, [], by simp, by simp [hr],
    by simp⟩

theorem performed_recorded {s : Reader} {a : Action} {sm row : StateMachine} {f : Nat}
    (hf : f ∈ s.cu.files) (hh : sm.header = s.sm.header)
    (he : sm.endSequence = (a.ends || s.sm.endSequence)) (hr : a.records = true) :
    Performed s a { s with sm, cu.lines := s.cu.lines ++ [lineNumber row f] } :=
  ⟨rfl, rfl, rfl, rfl, rfl, Nat.le_refl _, List.prefix_refl _, hh, he, [lineNumber row f], rfl,
    by simp [hr], by simp [lineNumber, hf]⟩

section
variable {join : Path → Path → Path}

structure Allowed (A : Stop → Prop) (join : Path → Path → Path) (s : Reader) (a : Action) :
    Prop where
  row : a.records = true → ¬ RowOk s → A (.fault .index)
  range : a.ranges = true → s.sm.lineRange = 0 → A (.fault .division)
  operations : a.advances = true → s.sm.maximumOperationsPerInstruction = 0 → A (.fault .division)
  line : ∀ adv, a = .advanceLine adv → ¬ s.sm.line.toNat + adv < 2 ^ 63 → A (.fault .overflow)
  files : a = .defineFile → Meets A (Reader.Filed 0 s) (readFile join s)

theorem special_meets {A : Stop → Prop} {opcode : UInt8} {s : Reader}
    (h : Allowed A join s (.special opcode)) :
    Meets A (Performed s (.special opcode)) (special opcode s) := by
  unfold special
  refine Meets.ite (h.range rfl) fun _ => ?_
  rw [advanceLine_of_lt (special_line_lt _ _ _), Res.ok_bind]
  refine Meets.bind (advancePC_meets fun h0 => h.operations rfl h0) ?_
  rintro sm ⟨address, opIndex, rfl⟩
  refine Meets.post (recordLine_meets ?_) ?_
  · exact fun hn => h.row rfl fun ok => hn ⟨ok.pos, ok.le, ok.int⟩
  · rintro t ⟨f, hf, rfl⟩
    exact performed_recorded hf rfl rfl rfl

theorem perform_meets {A : Stop → Prop} {s : Reader} {a : Action} (h : Allowed A join s a) :
    Meets A (Performed s a) (perform join s a) := by
  cases a with
  | special opcode => exact special_meets h
  | copy =>
    refine (recordLine_meets (h.row rfl)).post ?_
    rintro t ⟨f, hf, rfl⟩
    exact performed_recorded hf rfl rfl rfl
  | advancePC adv =>
    refine (advancePC_meets (h.operations rfl)).bind ?_
    rintro sm ⟨address, opIndex, rfl⟩
    exact performed_sm rfl rfl rfl
  | advanceLine adv =>
    refine (advanceLine_meets (h.line adv rfl)).bind ?_
    rintro sm ⟨line, rfl⟩
    exact performed_sm rfl rfl rfl
  | setFile v => exact performed_sm rfl rfl rfl
  | setColumn v => exact performed_sm rfl rfl rfl
  | negateStmt =>
    exact Meets.ite (fun _ => performed_sm rfl rfl rfl) fun _ => performed_sm rfl rfl rfl
  | setBasicBlock => exact performed_sm rfl rfl rfl
  | constAddPC =>
    refine Meets.ite (h.range rfl) fun _ => ?_
    refine (advancePC_meets (h.operations rfl)).bind ?_
    rintro sm ⟨address, opIndex, rfl⟩
    exact performed_sm rfl rfl rfl
  | fixedAdvancePC o => exact performed_sm rfl rfl rfl
  | setPrologueEnd => exact performed_sm rfl rfl rfl
  | setEpilogueBegin => exact performed_sm rfl rfl rfl
  | setIsa v => exact performed_sm rfl rfl rfl
  | endSequence =>
    refine (recordLine_meets (h.row rfl)).bind ?_
    rintro t ⟨f, hf, rfl⟩
    exact performed_recorded hf rfl rfl rfl
  | setAddress address => exact performed_sm rfl rfl rfl
  | defineFile =>
    refine (h.files rfl).post fun t ht => ?_
    exact ⟨ht.buf, ht.strSect, ht.lineStrSect, ht.is64, ht.units, by have := ht.off; omega,
      ht.files, by rw [ht.sm], by rw [ht.sm]; rfl, [], by simp [ht.lines], rfl, by simp⟩
  | setDiscriminator v => exact performed_sm rfl rfl rfl

end

end Gelpp.Dwarf

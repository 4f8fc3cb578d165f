import Gelpp.Dwarf.Encoding

namespace Gelpp.Dwarf

open LineMachine (Op Place placeRows)

def lineHeader (sm : StateMachine) : LineMachine.Header where
  minimumInstructionLength := sm.minimumInstructionLength.toNat
  maximumOperations := sm.maximumOperationsPerInstruction.toNat
  lineBase := sm.lineBase.toInt
  lineRange := sm.lineRange.toNat
  opcodeBase := sm.opcodeBase.toNat

def place (sm : StateMachine) : Place where
  address := sm.address.toNat
  opIndex := sm.opIndex.toNat
  file := sm.file.toNat
  line := sm.line.toNat
  column := sm.column.toNat

structure Simulates (h : LineMachine.Header) (sm : StateMachine) (p : Place) : Prop where
  header : lineHeader sm = h
  address : sm.address.toNat = p.address % 2 ^ 64
  opIndex : sm.opIndex.toNat = p.opIndex
  opIndex_lt : p.opIndex < h.maximumOperations
  file : sm.file.toNat = p.file
  file_lt : p.file < 2 ^ 31
  line : (sm.line.toNat : Int) = p.line % 2 ^ 32
  column : sm.column.toNat = p.column
  column_lt : p.column < 2 ^ 31

structure RowAgrees (files : List Nat) (l : LineNumber) (p : Place) : Prop where
  addr : l.addr.toNat = p.address % 2 ^ 64
  opi : l.opi.toNat = p.opIndex
  file : files[p.file - 1]? = some l.file
  line : l.line.toInt % 2 ^ 32 = p.line % 2 ^ 32
  col : l.col.toInt = p.column

section
variable {h : LineMachine.Header} {sm : StateMachine} {p : Place}

theorem Simulates.ops_pos (hs : Simulates h sm p) : sm.maximumOperationsPerInstruction ≠ 0 := by
  rintro h0
  have hlt := hs.opIndex_lt
  rw [← hs.header, lineHeader, h0] at hlt
  exact Nat.not_lt_zero _ hlt

theorem Simulates.of_place {sm' : StateMachine} (hs : Simulates h sm p)
    (hh : lineHeader sm' = lineHeader sm) (hp : place sm' = place sm) : Simulates h sm' p := by
  rw [place, place, Place.mk.injEq] at hp
  obtain ⟨ha, ho, hf, hl, hc⟩ := hp
  exact ⟨hh.trans hs.header, ha.trans hs.address, ho.trans hs.opIndex, hs.opIndex_lt,
    hf.trans hs.file, hs.file_lt, hl.trans hs.line, hc.trans hs.column, hs.column_lt⟩

theorem wrapped_add {a b : UInt64} {x y : Nat} (ha : a.toNat = x % 2 ^ 64)
    (hb : b.toNat = y % 2 ^ 64) : (a + b).toNat = (x + y) % 2 ^ 64 := by
  rw [UInt64.toNat_add, ha, hb, ← Nat.add_mod]

theorem wrapped_mul (l : UInt8) (q : UInt64) :
    (l.toUInt64 * q).toNat = l.toNat * q.toNat % 2 ^ 64 := by
  rw [UInt64.toNat_mul, UInt8.toNat_toUInt64]

theorem advancePC_simulates {adv : UInt64} (hs : Simulates h sm p) (hadv : adv.toNat < 2 ^ 63) :
    ∃ sm', advancePC sm adv = .ok sm' ∧ Simulates h sm' (p.advance h adv.toNat) ∧
      sm'.endSequence = sm.endSequence := by
  have hops := hs.ops_pos
  have hmax : h.maximumOperations = sm.maximumOperationsPerInstruction.toNat := by
    rw [← hs.header, lineHeader]
  have hmin : h.minimumInstructionLength = sm.minimumInstructionLength.toNat := by
    rw [← hs.header, lineHeader]
  have hlt := hs.opIndex_lt
  have hbyte := sm.maximumOperationsPerInstruction.toNat_lt
  unfold advancePC
  by_cases h1 : sm.maximumOperationsPerInstruction = 1
  · have hone : h.maximumOperations = 1 := by
      rw [hmax, h1]
      rfl
    have hop : p.opIndex = 0 := by omega
    refine ⟨_, if_pos h1, ⟨hs.header, ?_, ?_, ?_, hs.file, hs.file_lt, hs.line, hs.column,
      hs.column_lt⟩, rfl⟩
    · dsimp only [Place.advance]
      rw [hone, hop, Nat.zero_add, Nat.div_one, hmin]
      exact wrapped_add hs.address (wrapped_mul _ _)
    · dsimp only [Place.advance]
      rw [hs.opIndex, hone, Nat.mod_one, hop]
    · dsimp only [Place.advance]
      exact Nat.mod_lt _ (by omega)
  · have hsum : (sm.opIndex.toUInt64 + adv).toNat = p.opIndex + adv.toNat := by
      rw [UInt64.toNat_add, UInt32.toNat_toUInt64, hs.opIndex, Nat.mod_eq_of_lt (by omega)]
    have hmod := Nat.mod_lt (p.opIndex + adv.toNat) (hlt.trans_le' (Nat.zero_le _))
    refine ⟨_, (if_neg h1).trans (if_neg hops), ⟨hs.header, ?_, ?_, ?_, hs.file, hs.file_lt, hs.line,
      hs.column, hs.column_lt⟩, rfl⟩
    · dsimp only [Place.advance]
      refine wrapped_add hs.address ?_
      rw [wrapped_mul, UInt64.toNat_div, hsum, UInt8.toNat_toUInt64, hmin, hmax]
    · dsimp only [Place.advance]
      rw [UInt64.toNat_toUInt32, UInt64.toNat_mod, hsum, UInt8.toNat_toUInt64, ← hmax,
        Nat.mod_eq_of_lt (by omega)]
    · exact hmod

theorem advanceLine_simulates (hs : Simulates h sm p) {n : Int} (hn : sm.line.toNat + n < 2 ^ 63) :
    ∃ sm', advanceLine sm n = .ok sm' ∧ Simulates h sm' { p with line := p.line + n } ∧
      sm'.endSequence = sm.endSequence := by
  refine ⟨_, advanceLine_of_lt hn, ⟨hs.header, hs.address, hs.opIndex, hs.opIndex_lt, hs.file,
    hs.file_lt, ?_, hs.column, hs.column_lt⟩, rfl⟩
  have hline := hs.line
  dsimp only
  rw [UInt32.ofInt, UInt32.toNat_ofNat']
  omega

theorem lineNumber_agrees {files : List Nat} {f : Nat} (hs : Simulates h sm p)
    (hf : files[p.file - 1]? = some f) : RowAgrees files (lineNumber sm f) p where
  addr := hs.address
  opi := by
    have hlt := hs.opIndex_lt
    have hbyte := sm.maximumOperationsPerInstruction.toNat_lt
    rw [← hs.header, lineHeader] at hlt
    dsimp only [lineNumber] at hlt ⊢
    rw [UInt32.toNat_toUInt8, hs.opIndex, Nat.mod_eq_of_lt (by omega)]
  file := hf
  line := by
    dsimp only [lineNumber]
    have hint : sm.line.toInt32.toInt = (sm.line.toNat : Int).bmod (2 ^ 32) :=
      BitVec.toInt_eq_toNat_bmod sm.line.toBitVec
    have hmod : (sm.line.toNat : Int).bmod (2 ^ 32) % ((2 ^ 32 : Nat) : Int) =
        (sm.line.toNat : Int) % ((2 ^ 32 : Nat) : Int) := Int.bmod_emod
    have hline := hs.line
    rw [hint]
    omega
  col := by
    have hlt := hs.column_lt
    dsimp only [lineNumber]
    rw [int_of_lt (by rw [hs.column]; exact hlt), hs.column]

variable (h) in
structure Follows (s : Reader) (p : Place) (o : Op) (t : Reader) : Prop where
  simulates : Simulates h t.sm (p.step h o)
  files : t.cu.files = s.cu.files
  ended : t.sm.endSequence = (decide (o = .endSequence) || s.sm.endSequence)
  rows : ∃ rows, t.cu.lines = s.cu.lines ++ rows ∧
    List.Forall₂ (RowAgrees s.cu.files) rows (if o.emits then [p.step h o] else [])

theorem follows_silent {s t : Reader} {o : Op} (hsim : Simulates h t.sm (p.step h o))
    (hcu : t.cu = s.cu) (hend : t.sm.endSequence = s.sm.endSequence) (ho : o.emits = false) :
    Follows h s p o t := by
  refine ⟨hsim, by rw [hcu], ?_, [], by rw [hcu, List.append_nil], ?_⟩
  · have hne : o ≠ .endSequence := by
      rintro rfl
      cases ho
    rw [hend, decide_eq_false hne, Bool.false_or]
  · rw [ho]
    exact .nil

theorem recordLine_follows {s : Reader} (hs : Simulates h s.sm p) (hpos : 1 ≤ p.file)
    (hle : p.file ≤ s.cu.files.length) : ∃ t, recordLine s = .ok t ∧ t.c = s.c ∧
      Simulates h t.sm p ∧ t.cu.files = s.cu.files ∧ t.sm.endSequence = s.sm.endSequence ∧
      ∃ rows, t.cu.lines = s.cu.lines ++ rows ∧ List.Forall₂ (RowAgrees s.cu.files) rows [p] := by
  have hfile := hs.file
  have hlt := hs.file_lt
  obtain ⟨f, hf⟩ : ∃ f, s.cu.files[p.file - 1]? = some f :=
    ⟨_, List.getElem?_eq_getElem (by omega)⟩
  exact ⟨_, recordLine_eq (hfile ▸ hf) (by omega) (by omega), rfl, hs.of_place rfl rfl, rfl, rfl, _,
    rfl, .cons (lineNumber_agrees hs hf) .nil⟩

theorem narrow_toNat {v : UInt64} (hv : v.toNat < 2 ^ 31) : v.toUInt32.toNat = v.toNat := by
  rw [UInt64.toNat_toUInt32, Nat.mod_eq_of_lt (by omega)]

theorem special_follows {s : Reader} {opcode : UInt8} (hs : Simulates h s.sm p)
    (hrange : 0 < h.lineRange) (hbase : s.sm.opcodeBase ≤ opcode)
    (hpos : 1 ≤ p.file) (hle : p.file ≤ s.cu.files.length) :
    ∃ t, special opcode s = .ok t ∧ t.c = s.c ∧ Follows h s p (.special opcode.toNat) t := by
  have hk : (opcode - s.sm.opcodeBase).toNat = opcode.toNat - h.opcodeBase := by
    rw [UInt8.toNat_sub_of_le _ _ hbase, ← hs.header, lineHeader]
  have hr : s.sm.lineRange.toNat = h.lineRange := by rw [← hs.header, lineHeader]
  have hlb : s.sm.lineBase.toInt = h.lineBase := by rw [← hs.header, lineHeader]
  have hr0 : s.sm.lineRange ≠ 0 := by
    rintro h0
    rw [h0] at hr
    exact hrange.ne hr
  obtain ⟨sm', hadvance, hline, hended'⟩ := advanceLine_simulates hs
    (special_line_lt s.sm.line s.sm.lineBase ((opcode - s.sm.opcodeBase) % s.sm.lineRange))
  have hadv : ((opcode - s.sm.opcodeBase) / s.sm.lineRange).toUInt64.toNat < 2 ^ 63 := by
    rw [UInt8.toNat_toUInt64]
    exact (UInt8.toNat_lt _).trans (by norm_num)
  obtain ⟨sm, hpc, hsim, hended⟩ := advancePC_simulates hline hadv
  have hplace : Place.advance h
      { p with line := p.line +
        (s.sm.lineBase.toInt + (((opcode - s.sm.opcodeBase) % s.sm.lineRange).toNat : Int)) }
      ((opcode - s.sm.opcodeBase) / s.sm.lineRange).toUInt64.toNat =
      p.step h (.special opcode.toNat) := by
    rw [UInt8.toNat_toUInt64, UInt8.toNat_div, UInt8.toNat_mod, hk, hr, hlb, ← add_assoc]
    rfl
  rw [hplace] at hsim
  obtain ⟨t, ht, hc, htsim, hfiles, hend, hrows⟩ :=
    recordLine_follows (s := { s with sm }) hsim hpos hle
  refine ⟨t, ?_, hc, htsim, hfiles, hend.trans (hended.trans hended'), hrows⟩
  rw [special, if_neg hr0, hadvance, Res.ok_bind]
  have hkept := (advanceLine_meets (A := Any) fun _ => trivial).of_ok hadvance
  obtain ⟨line, rfl⟩ := hkept
  rw [hpc]
  exact ht

theorem perform_follows (join : Path → Path → Path) {s : Reader} {a : Action}
    (hs : Simulates h s.sm p) (hrange : 0 < h.lineRange) (ha : a.Encodable s.sm.opcodeBase)
    (hrow : a.records = true → 1 ≤ p.file ∧ p.file ≤ s.cu.files.length) :
    ∃ t, perform join s a = .ok t ∧ t.c = s.c ∧ Follows h s p a.op t := by
  cases a with
  | special opcode =>
    obtain ⟨hpos, hle⟩ := hrow rfl
    exact special_follows hs hrange ha hpos hle
  | copy =>
    obtain ⟨hpos, hle⟩ := hrow rfl
    obtain ⟨t, ht, hc, hsim, hfiles, hend, hrows⟩ := recordLine_follows hs hpos hle
    exact ⟨t, ht, hc, hsim, hfiles, hend, hrows⟩
  | advancePC adv =>
    obtain ⟨sm, hpc, hsim, hended⟩ := advancePC_simulates hs ha
    refine ⟨{ s with sm }, ?_, rfl, follows_silent hsim rfl hended rfl⟩
    rw [perform, hpc]
    rfl
  | advanceLine adv =>
    have hadv : adv < 2 ^ 31 := ha
    have hlt := s.sm.line.toNat_lt
    obtain ⟨sm, hline, hsim, hended⟩ := advanceLine_simulates hs (n := adv) (by omega)
    refine ⟨{ s with sm }, ?_, rfl, follows_silent hsim rfl hended rfl⟩
    rw [perform, hline]
    rfl
  | setFile file =>
    exact ⟨_, rfl, rfl, follows_silent ⟨hs.header, hs.address, hs.opIndex, hs.opIndex_lt,
      narrow_toNat ha, ha, hs.line, hs.column, hs.column_lt⟩ rfl rfl rfl⟩
  | setColumn column =>
    exact ⟨_, rfl, rfl, follows_silent ⟨hs.header, hs.address, hs.opIndex, hs.opIndex_lt,
      hs.file, hs.file_lt, hs.line, narrow_toNat ha, ha⟩ rfl rfl rfl⟩
  | negateStmt =>
    rw [perform]
    by_cases hbit : s.sm.bit isStmt = true
    · exact ⟨_, if_pos hbit, rfl, follows_silent (hs.of_place rfl rfl) rfl rfl rfl⟩
    · exact ⟨_, if_neg hbit, rfl, follows_silent (hs.of_place rfl rfl) rfl rfl rfl⟩
  | setBasicBlock => exact ⟨_, rfl, rfl, follows_silent (hs.of_place rfl rfl) rfl rfl rfl⟩
  | constAddPC =>
    have hr : s.sm.lineRange.toNat = h.lineRange := by rw [← hs.header, lineHeader]
    have hb : s.sm.opcodeBase.toNat = h.opcodeBase := by rw [← hs.header, lineHeader]
    have hr0 : s.sm.lineRange ≠ 0 := by
      rintro h0
      rw [h0] at hr
      exact hrange.ne hr
    have hval : ((255 - s.sm.opcodeBase) / s.sm.lineRange).toUInt64.toNat =
        (255 - h.opcodeBase) / h.lineRange := by
      have hle : s.sm.opcodeBase ≤ 255 := UInt8.le_iff_toNat_le.mpr (Nat.le_of_lt_succ (UInt8.toNat_lt _))
      rw [UInt8.toNat_toUInt64, UInt8.toNat_div, UInt8.toNat_sub_of_le _ _ hle, hr, hb]
      rfl
    have hadv : ((255 - s.sm.opcodeBase) / s.sm.lineRange).toUInt64.toNat < 2 ^ 63 := by
      rw [UInt8.toNat_toUInt64]
      exact (UInt8.toNat_lt _).trans (by norm_num)
    obtain ⟨sm, hpc, hsim, hended⟩ := advancePC_simulates hs hadv
    rw [hval] at hsim
    refine ⟨{ s with sm }, ?_, rfl, follows_silent hsim rfl hended rfl⟩
    rw [perform, if_neg hr0, hpc]
    rfl
  | fixedAdvancePC o =>
    have hpos : 0 < h.maximumOperations := hs.opIndex_lt.trans_le' (Nat.zero_le _)
    refine ⟨_, rfl, rfl, follows_silent ⟨hs.header, ?_, rfl, hpos, hs.file, hs.file_lt, hs.line,
      hs.column, hs.column_lt⟩ rfl rfl rfl⟩
    refine wrapped_add hs.address ?_
    rw [UInt16.toNat_toUInt64, Nat.mod_eq_of_lt (o.toNat_lt.trans (by norm_num))]
  | setPrologueEnd => exact ⟨_, rfl, rfl, follows_silent (hs.of_place rfl rfl) rfl rfl rfl⟩
  | setEpilogueBegin => exact ⟨_, rfl, rfl, follows_silent (hs.of_place rfl rfl) rfl rfl rfl⟩
  | setIsa isa => exact ⟨_, rfl, rfl, follows_silent (hs.of_place rfl rfl) rfl rfl rfl⟩
  | endSequence =>
    obtain ⟨hpos, hle⟩ := hrow rfl
    obtain ⟨t, ht, hc, hsim, hfiles, -, hrows⟩ := recordLine_follows hs hpos hle
    refine ⟨{ t with sm.endSequence := true }, ?_, hc, hsim.of_place rfl rfl, hfiles, rfl, hrows⟩
    rw [perform, ht]
    rfl
  | setAddress address => exact ha.elim
  | defineFile => exact ha.elim
  | setDiscriminator v => exact ⟨_, rfl, rfl, follows_silent (hs.of_place rfl rfl) rfl rfl rfl⟩

theorem step_encoded (join : Path → Path → Path) {endOffset : Nat} {s : Reader} {o : Op}
    {bs tail : List UInt8} (hs : Simulates h s.sm p) (hrange : 0 < h.lineRange)
    (hbase : 0 < h.opcodeBase) (hf : s.c.buf.fence = none)
    (henc : Encodes s.c.buf.decoder.order h.opcodeBase o bs) (hrest : s.c.rest = bs ++ tail)
    (hoff : s.c.off < endOffset)
    (hrow : o.emits = true → 1 ≤ p.file ∧ p.file ≤ s.cu.files.length) :
    ∃ t, Follows h s p o t ∧ t.c = s.c.forward bs.length ∧ step join endOffset s =
      land (if isExtended o then some (extendedEnd 0 (s.c.off + bs.length)) else none) t := by
  have hb : s.sm.opcodeBase.toNat = h.opcodeBase := by rw [← hs.header, lineHeader]
  rw [← hb] at henc hbase
  obtain ⟨d, hd, hdec⟩ := decode_encoded hf hbase henc hrest
  have hrow' : d.action.records = true → 1 ≤ p.file ∧ p.file ≤ s.cu.files.length := by
    rw [← op_emits, hdec.op]
    exact hrow
  obtain ⟨t, ht, hc, hfol⟩ :=
    perform_follows join (s := { s with c := d.c }) hs hrange hdec.encodable hrow'
  rw [hdec.op] at hfol
  refine ⟨t, ⟨hfol.simulates, hfol.files, hfol.ended, hfol.rows⟩, hc.trans hdec.c, ?_⟩
  rw [step_eq, if_neg (by omega), hd, Res.ok_bind, enact, ht, Res.ok_bind, hdec.target]

end

-- Where the move that ends an extended opcode at `e` leaves the cursor there.
def Stays (e : Nat) : Prop := e < 2 ^ 31 ∨ 2 ^ 31 ≤ e % 2 ^ 32

theorem land_stays {t : Reader} (hf : t.c.buf.fence = none) (h : Stays t.c.off) :
    land (some (extendedEnd 0 t.c.off)) t = .ok t := by
  have hle := t.c.off_le
  have hlt := t.c.size_lt
  rw [land, Reader.moveTo, extendedEnd, UInt64.toNat_zero, Nat.zero_add]
  rcases h with h | h
  · have hmod : t.c.off % 2 ^ 32 = t.c.off := Nat.mod_eq_of_lt (by omega)
    simp only [hmod, if_pos h, Cursor.move_some hf hle]
    rfl
  · have hnone := Cursor.move_none hf (c := t.c) (o := t.c.off % 2 ^ 32 + (2 ^ 64 - 2 ^ 32)) (by omega)
    simp only [if_neg (Nat.not_lt.mpr h), hnone]
    rfl

theorem land_jumps {t : Reader} (hf : t.c.buf.fence = none) (h : ¬ Stays t.c.off) :
    2 ^ 32 ≤ t.c.off ∧ ∃ c : Cursor, c.buf = t.c.buf ∧ c.off = t.c.off % 2 ^ 32 ∧
      land (some (extendedEnd 0 t.c.off)) t = .ok { t with c } := by
  have hle := t.c.off_le
  rw [Stays, not_or, Nat.not_lt, Nat.not_le] at h
  have hmod := Nat.mod_le t.c.off (2 ^ 32)
  refine ⟨by omega, { t.c with off := t.c.off % 2 ^ 32, off_le := by omega }, rfl, rfl, ?_⟩
  rw [land, Reader.moveTo, extendedEnd, UInt64.toNat_zero, Nat.zero_add]
  simp only [if_pos h.2, Cursor.move_some hf (hmod.trans hle)]
  rfl

inductive Program (order : ByteOrder) (opcodeBase : Nat) : List (Op × List UInt8) → Prop
  | last {bs : List UInt8} (h : Encodes order opcodeBase .endSequence bs) :
      Program order opcodeBase [(.endSequence, bs)]
  | more {o : Op} {bs : List UInt8} {prog : List (Op × List UInt8)}
      (h : Encodes order opcodeBase o bs) (hne : o ≠ .endSequence)
      (ht : Program order opcodeBase prog) : Program order opcodeBase ((o, bs) :: prog)

def programBytes (prog : List (Op × List UInt8)) : List UInt8 := prog.flatMap Prod.snd

def Straight : Nat → List (Op × List UInt8) → Prop
  | _, [] => True
  | off, (o, bs) :: prog => (isExtended o = true → prog ≠ [] → Stays (off + bs.length)) ∧
      Straight (off + bs.length) prog

def FileKnown (files : List Nat) (p : Place) : Prop := 1 ≤ p.file ∧ p.file ≤ files.length

instance (files : List Nat) (p : Place) : Decidable (FileKnown files p) :=
  inferInstanceAs (Decidable (1 ≤ p.file ∧ p.file ≤ files.length))

def RowsAgree (join : Path → Path → Path) (endOffset : Nat) (s : Reader) (ops : List Op) : Prop :=
  ∃ t rows, (∀ fuel, ops.length ≤ fuel → runSM join fuel endOffset s = .ok t) ∧
    t.cu.lines = s.cu.lines ++ rows ∧
    List.Forall₂ (RowAgrees s.cu.files) rows (placeRows (lineHeader s.sm) (place s.sm) ops)

structure Underway (h : LineMachine.Header) (endOffset : Nat) (s : Reader) (p : Place)
    (prog : List (Op × List UInt8)) : Prop where
  simulates : Simulates h s.sm p
  lineRange : 0 < h.lineRange
  opcodeBase : 0 < h.opcodeBase
  unfenced : s.c.buf.fence = none
  live : running s = true
  program : Program s.c.buf.decoder.order h.opcodeBase prog
  rest : ∃ tail, s.c.rest = programBytes prog ++ tail
  inside : s.c.off + (programBytes prog).length ≤ endOffset
  files : ∀ q ∈ placeRows h p (prog.map Prod.fst), FileKnown s.cu.files q

section
variable {h : LineMachine.Header} {endOffset : Nat} {s t : Reader} {p : Place} {o : Op}
  {bs : List UInt8} {prog : List (Op × List UInt8)} {join : Path → Path → Path}

theorem step_file (ho : o.emits = true) : (p.step h o).file = p.file := by
  cases o <;> first | rfl | cases ho

theorem Encodes.length_pos {order : ByteOrder} {base : Nat} (henc : Encodes order base o bs) :
    0 < bs.length := by
  cases henc <;> exact Nat.succ_pos _

variable (join) in
theorem Underway.turn (hu : Underway h endOffset s p ((o, bs) :: prog)) :
    ∃ t, Follows h s p o t ∧ t.c = s.c.forward bs.length ∧ t.c.off = s.c.off + bs.length ∧
      step join endOffset s =
        land (if isExtended o then some (extendedEnd 0 (s.c.off + bs.length)) else none) t := by
  obtain ⟨tail, htail⟩ := hu.rest
  have hbytes : programBytes ((o, bs) :: prog) = bs ++ programBytes prog := rfl
  have hinside := hu.inside
  rw [hbytes, List.append_assoc] at htail
  rw [hbytes, List.length_append] at hinside
  have henc : Encodes s.c.buf.decoder.order h.opcodeBase o bs := by
    cases hu.program with
    | last henc => exact henc
    | more henc _ _ => exact henc
  have hpos := henc.length_pos
  have hrow : o.emits = true → 1 ≤ p.file ∧ p.file ≤ s.cu.files.length := by
    intro ho
    rw [← step_file (h := h) (p := p) ho]
    refine hu.files _ ?_
    rw [List.map_cons, placeRows, if_pos ho]
    exact List.mem_append_left _ (List.mem_singleton_self _)
  have hoff : s.c.off < endOffset := by omega
  obtain ⟨t, hfol, hc, hstep⟩ := step_encoded join hu.simulates hu.lineRange hu.opcodeBase
    hu.unfenced henc htail hoff hrow
  have hlen := s.c.rest_length
  have hle := s.c.off_le
  rw [htail, List.length_append] at hlen
  exact ⟨t, hfol, hc, by rw [hc, Cursor.forward_off (by omega)], hstep⟩

theorem Underway.next (hu : Underway h endOffset s p ((o, bs) :: prog)) (hne : o ≠ .endSequence)
    (hprog : Program s.c.buf.decoder.order h.opcodeBase prog) (hfol : Follows h s p o t)
    (hc : t.c = s.c.forward bs.length) : Underway h endOffset t (p.step h o) prog := by
  obtain ⟨tail, htail⟩ := hu.rest
  have hbytes : programBytes ((o, bs) :: prog) = bs ++ programBytes prog := rfl
  have hinside := hu.inside
  have hlen := s.c.rest_length
  have hle := s.c.off_le
  rw [htail, List.length_append] at hlen
  rw [hbytes, List.append_assoc] at htail
  rw [hbytes, List.length_append] at hlen hinside
  refine ⟨hfol.simulates, hu.lineRange, hu.opcodeBase, by rw [hc]; exact hu.unfenced, ?_,
    by rw [hc]; exact hprog, ⟨tail, ?_⟩, ?_, ?_⟩
  · have hrun := hu.live
    rw [running, Bool.not_eq_true'] at hrun ⊢
    rw [hfol.ended, hrun, decide_eq_false hne]
    rfl
  · rw [hc, Cursor.forward_rest, htail, List.drop_left]
  · rw [hc, Cursor.forward_off (by omega)]
    omega
  · intro q hq
    rw [hfol.files]
    refine hu.files q ?_
    rw [List.map_cons, placeRows]
    exact List.mem_append_right _ hq

variable (join) in
theorem Underway.lands (hu : Underway h endOffset s p ((o, bs) :: prog))
    (hst : isExtended o = true → Stays (s.c.off + bs.length)) :
    ∃ t, Follows h s p o t ∧ t.c = s.c.forward bs.length ∧ t.c.off = s.c.off + bs.length ∧
      step join endOffset s = .ok t := by
  obtain ⟨t, hfol, hc, hoff, hstep⟩ := hu.turn join
  refine ⟨t, hfol, hc, hoff, hstep.trans ?_⟩
  by_cases ho : isExtended o = true
  · have hf : t.c.buf.fence = none := by
      rw [hc]
      exact hu.unfenced
    rw [if_pos ho, ← hoff]
    exact land_stays hf (hoff ▸ hst ho)
  · rw [if_neg ho]
    rfl

theorem runSM_last (hu : Underway h endOffset s p [(.endSequence, bs)]) :
    ∃ t rows, (∀ fuel, 1 ≤ fuel → runSM join fuel endOffset s = .ok t) ∧
      t.cu.lines = s.cu.lines ++ rows ∧
      List.Forall₂ (RowAgrees s.cu.files) rows (placeRows h p [.endSequence]) := by
  obtain ⟨t, hfol, hc, hoff, hstep⟩ := hu.turn join
  obtain ⟨rows, hrows, hall⟩ := hfol.rows
  have hland : Meets (fun _ => False) (Landed (some (extendedEnd 0 (s.c.off + bs.length))) t)
      (step join endOffset s) := by
    rw [hstep]
    refine land_meets ?_
    rw [hc]
    exact hu.unfenced
  obtain ⟨u, hu', hlanded⟩ := hland.ok_of_never
  have hdone : running u = false := by
    rw [running, hlanded.sm, hfol.ended]
    rfl
  refine ⟨u, rows, fun fuel hfuel => ?_, by rw [hlanded.cu, hrows], hall⟩
  obtain ⟨k, rfl⟩ : ∃ k, fuel = k + 1 := ⟨fuel - 1, by omega⟩
  exact (Loop.run_ok ⟨hu.live, hu'⟩).trans (Loop.run_done hdone)

variable (join) in
theorem runSM_rows_agree (hu : Underway h endOffset s p prog) (hst : Straight s.c.off prog) :
    ∃ t rows, (∀ fuel, prog.length ≤ fuel → runSM join fuel endOffset s = .ok t) ∧
      t.cu.lines = s.cu.lines ++ rows ∧
      List.Forall₂ (RowAgrees s.cu.files) rows (placeRows h p (prog.map Prod.fst)) := by
  induction prog generalizing s p with
  | nil => cases hu.program
  | cons x prog ih =>
    obtain ⟨o, bs⟩ := x
    cases hprog : hu.program with
    | last henc => exact runSM_last hu
    | more henc hne ht =>
      have hprog : prog ≠ [] := by
        rintro rfl
        cases ht
      obtain ⟨t, hfol, hc, hoff, hstep⟩ := hu.lands join fun ho => hst.1 ho hprog
      obtain ⟨rows, hrows, hall⟩ := hfol.rows
      obtain ⟨u, rows', hrun, hlines, hall'⟩ := ih (hu.next hne ht hfol hc) (hoff ▸ hst.2)
      refine ⟨u, rows ++ rows', fun fuel hfuel => ?_, ?_, ?_⟩
      · rw [List.length_cons] at hfuel
        obtain ⟨k, rfl⟩ : ∃ k, fuel = k + 1 := ⟨fuel - 1, by omega⟩
        exact (Loop.run_ok ⟨hu.live, hstep⟩).trans (hrun k (by omega))
      · rw [hlines, hrows, List.append_assoc]
      · rw [hfol.files] at hall'
        exact List.rel_append hall hall'

theorem step_zeros {tail : List UInt8} (hf : s.c.buf.fence = none)
    (hbase : 0 < s.sm.opcodeBase.toNat) (hrest : s.c.rest = 0 :: 0 :: 0 :: tail)
    (hoff : s.c.off < endOffset) :
    step join endOffset s = raise "invalid debug line extended opcode" := by
  have hnot : ¬ s.sm.opcodeBase ≤ 0 := fun hle => by
    have := UInt8.le_iff_toNat_le.mp hle
    rw [UInt8.toNat_zero] at this
    omega
  have hrest1 : (s.c.forward 1).rest = [0] ++ 0 :: tail := by
    rw [Cursor.forward_rest, hrest]
    rfl
  have hrest2 : ((s.c.forward 1).forward 1).rest = 0 :: tail := by
    rw [Cursor.forward_rest, hrest1]
    rfl
  have hf1 : (s.c.forward 1).buf.fence = none := hf
  have hf2 : ((s.c.forward 1).forward 1).buf.fence = none := hf
  have hzero : Operand [0] := ⟨.last (by decide), by decide⟩
  rw [step_eq, if_neg (by omega), decode_cons hf hrest, if_neg hnot, if_pos rfl, decodeExtended,
    hzero.readU hf1 hrest1, Res.ok_bind]
  dsimp only
  rw [List.length_singleton, Cursor.readU8_rest hf2 hrest2]
  rfl

def Blank (n : Nat) (b : Buffer) : Prop := b.bytes.take n = .replicate n 0

theorem Blank.rest {n : Nat} {c : Cursor} (hb : Blank n c.buf) (hn : c.off + 3 ≤ n) :
    ∃ tail, c.rest = 0 :: 0 :: 0 :: tail := by
  obtain ⟨k, rfl⟩ : ∃ k, n = c.off + (k + 3) := ⟨n - c.off - 3, by omega⟩
  have htake : c.rest.take (k + 3) = .replicate (k + 3) 0 := by
    rw [Cursor.rest, List.take_drop, hb, List.drop_replicate]
    congr 1
    omega
  refine ⟨.replicate k 0 ++ c.rest.drop (k + 3), ?_⟩
  rw [← List.take_append_drop (k + 3) c.rest, htake]
  simp [List.replicate_succ]

theorem runSM_jumps {n : Nat} (hu : Underway h endOffset s p prog) (hst : ¬ Straight s.c.off prog)
    (hblank : Blank n s.c.buf) (hn : n ≤ s.c.off)
    (hshort : s.c.off + (programBytes prog).length + 3 ≤ n + 2 ^ 32) (fuel : Nat)
    (hfuel : prog.length ≤ fuel) :
    runSM join fuel endOffset s = raise "invalid debug line extended opcode" := by
  induction prog generalizing s p fuel with
  | nil => cases hu.program
  | cons x prog ih =>
    obtain ⟨o, bs⟩ := x
    have hbytes : programBytes ((o, bs) :: prog) = bs ++ programBytes prog := rfl
    rw [hbytes, List.length_append] at hshort
    cases hu.program with
    | last henc => exact absurd ⟨fun _ hne => absurd rfl hne, trivial⟩ hst
    | more henc hne ht =>
      rw [List.length_cons] at hfuel
      obtain ⟨k, rfl⟩ : ∃ k, fuel = k + 1 := ⟨fuel - 1, by omega⟩
      have hprog : prog ≠ [] := by
        rintro rfl
        cases ht
      by_cases hstay : isExtended o = true → Stays (s.c.off + bs.length)
      · obtain ⟨t, hfol, hc, hoff, hstep⟩ := hu.lands join hstay
        have hnext : ¬ Straight t.c.off prog := fun h => hst ⟨fun ho _ => hstay ho, hoff ▸ h⟩
        have hblank' : Blank n t.c.buf := by
          rw [hc]
          exact hblank
        refine (Loop.run_ok ⟨hu.live, hstep⟩).trans ?_
        exact ih (hu.next hne ht hfol hc) hnext hblank' (by omega) (by omega) k (by omega)
      · rw [Classical.not_imp] at hstay
        obtain ⟨t, hfol, hc, hoff, hstep⟩ := hu.turn join
        have hbuf : t.c.buf = s.c.buf := by
          rw [hc]
          rfl
        rw [if_pos hstay.1, ← hoff] at hstep
        obtain ⟨hbig, c, hcbuf, hcoff, hland⟩ :=
          land_jumps (hbuf ▸ hu.unfenced) (hoff ▸ hstay.2)
        have hnext := hu.next hne ht hfol hc
        obtain ⟨tail, htail⟩ := Blank.rest (n := n) (c := c) (by rwa [hcbuf, hbuf]) (by omega)
        obtain ⟨j, rfl⟩ : ∃ j, k = j + 1 := by
          obtain ⟨x, xs, rfl⟩ := List.exists_cons_of_ne_nil hprog
          rw [List.length_cons] at hfuel
          exact ⟨k - 1, by omega⟩
        have hinside := hu.inside
        rw [hbytes, List.length_append] at hinside
        have hbase : 0 < t.sm.opcodeBase.toNat := by
          have := hu.opcodeBase
          rwa [← hfol.simulates.header] at this
        have hzeros : step join endOffset { t with c } = raise "invalid debug line extended opcode" :=
          step_zeros (by rw [hcbuf, hbuf]; exact hu.unfenced) hbase htail (by dsimp only; omega)
        refine (Loop.run_ok ⟨hu.live, hstep.trans hland⟩).trans ?_
        exact Loop.run_error hnext.live hzeros

structure Ready (endOffset : Nat) (s : Reader) (prog : List (Op × List UInt8)) : Prop where
  unfenced : s.c.buf.fence = none
  live : running s = true
  lineRange : 0 < s.sm.lineRange.toNat
  opcodeBase : 0 < s.sm.opcodeBase.toNat
  opIndex : s.sm.opIndex.toNat < s.sm.maximumOperationsPerInstruction.toNat
  file : s.sm.file.toNat < 2 ^ 31
  column : s.sm.column.toNat < 2 ^ 31
  program : Program s.c.buf.decoder.order s.sm.opcodeBase.toNat prog
  rest : ∃ tail, s.c.rest = programBytes prog ++ tail
  inside : s.c.off + (programBytes prog).length ≤ endOffset
  files : ∀ p ∈ placeRows (lineHeader s.sm) (place s.sm) (prog.map Prod.fst),
    FileKnown s.cu.files p

theorem Ready.underway (hs : Ready endOffset s prog) :
    Underway (lineHeader s.sm) endOffset s (place s.sm) prog where
  simulates := {
    header := rfl
    address := (Nat.mod_eq_of_lt s.sm.address.toNat_lt).symm
    opIndex := rfl
    opIndex_lt := hs.opIndex
    file := rfl
    file_lt := hs.file
    line := by
      have hlt := s.sm.line.toNat_lt
      dsimp only [place]
      omega
    column := rfl
    column_lt := hs.column }
  lineRange := hs.lineRange
  opcodeBase := hs.opcodeBase
  unfenced := hs.unfenced
  live := hs.live
  program := hs.program
  rest := hs.rest
  inside := hs.inside
  files := hs.files

structure SameRest (c c' : Cursor) : Prop where
  decoder : c'.buf.decoder = c.buf.decoder
  fence : c'.buf.fence = c.buf.fence
  off : c'.off = c.off
  rest : c'.rest = c.rest

theorem Ready.sameRest {c : Cursor} (hs : Ready endOffset s prog) (hc : SameRest s.c c) :
    Ready endOffset { s with c } prog where
  unfenced := hc.fence.trans hs.unfenced
  live := hs.live
  lineRange := hs.lineRange
  opcodeBase := hs.opcodeBase
  opIndex := hs.opIndex
  file := hs.file
  column := hs.column
  program := by
    dsimp only
    rw [hc.decoder]
    exact hs.program
  rest := by
    dsimp only
    rw [hc.rest]
    exact hs.rest
  inside := by
    dsimp only
    rw [hc.off]
    exact hs.inside
  files := hs.files

def blanked (c : Cursor) : Cursor where
  buf := {
    decoder := c.buf.decoder
    bytes := .replicate c.off 0 ++ c.rest
    fence := c.buf.fence
    size_lt := by
      have h1 := c.rest_length
      have h2 := c.off_le
      have h3 := c.size_lt
      rw [List.length_append, List.length_replicate]
      omega }
  off := c.off
  off_le := by
    rw [Buffer.size, List.length_append, List.length_replicate]
    exact Nat.le_add_right _ _

theorem sameRest_blanked (c : Cursor) : SameRest c (blanked c) :=
  ⟨rfl, rfl, rfl, List.drop_left' List.length_replicate⟩

theorem blank_blanked (c : Cursor) : Blank c.off (blanked c).buf :=
  List.take_left' List.length_replicate

theorem not_rowsAgree {ops : List Op} {m : String}
    (h : ∀ fuel, ops.length ≤ fuel → runSM join fuel endOffset s = raise m) :
    ¬ RowsAgree join endOffset s ops := by
  rintro ⟨t, rows, hrun, -⟩
  have heq := hrun ops.length (Nat.le_refl _)
  rw [h _ (Nat.le_refl _)] at heq
  cases heq

theorem rows_agree_iff (hs : Ready endOffset s prog) :
    (Straight s.c.off prog → RowsAgree join endOffset s (prog.map Prod.fst)) ∧
    ((programBytes prog).length + 3 ≤ 2 ^ 32 →
      ((∀ c, SameRest s.c c → RowsAgree join endOffset { s with c } (prog.map Prod.fst)) ↔
        Straight s.c.off prog)) := by
  have agree {u : Reader} (hu : Ready endOffset u prog) (hst : Straight u.c.off prog) :
      RowsAgree join endOffset u (prog.map Prod.fst) := by
    obtain ⟨t, rows, hrun, hlines, hall⟩ := runSM_rows_agree join hu.underway hst
    exact ⟨t, rows, fun fuel hfuel => hrun fuel (by rwa [List.length_map] at hfuel), hlines, hall⟩
  refine ⟨agree hs, fun hshort => ⟨fun hall => ?_, fun hst c hc => ?_⟩⟩
  · by_contra hst
    have hjump (fuel : Nat) (hfuel : (prog.map Prod.fst).length ≤ fuel) :
        runSM join fuel endOffset { s with c := blanked s.c } =
          raise "invalid debug line extended opcode" := by
      rw [List.length_map] at hfuel
      exact runSM_jumps (hs.sameRest (sameRest_blanked s.c)).underway hst (blank_blanked s.c)
        (Nat.le_refl _) (by dsimp only [blanked]; omega) fuel hfuel
    exact not_rowsAgree hjump (hall _ (sameRest_blanked s.c))
  · refine agree (hs.sameRest hc) ?_
    rw [hc.off]
    exact hst

end

def smallHeader : StateMachine :=
  { lineRange := 1, opcodeBase := 10, maximumOperationsPerInstruction := 1 }

def readerAt (n : Nat) (bytes : List UInt8) (h : n + bytes.length < 2 ^ 63) : Reader where
  c := {
    buf := {
      decoder := nullDecoder
      bytes := .replicate n 0 ++ bytes
      size_lt := by rwa [List.length_append, List.length_replicate] }
    off := n
    off_le := by
      rw [Buffer.size, List.length_append, List.length_replicate]
      exact Nat.le_add_right _ _ }
  sm := smallHeader
  cu := { files := [0] }
  dl := { strSect := nullCursor, lineStrSect := nullCursor }

theorem readerAt_ready {n : Nat} {prog : List (Op × List UInt8)}
    (h : n + (programBytes prog).length < 2 ^ 63) (hprog : Program .little 10 prog)
    (hfiles : ∀ p ∈ placeRows (lineHeader smallHeader) (place smallHeader) (prog.map Prod.fst),
      FileKnown [0] p) :
    Ready (n + (programBytes prog).length) (readerAt n (programBytes prog) h) prog where
  unfenced := rfl
  live := rfl
  lineRange := (by decide : 0 < smallHeader.lineRange.toNat)
  opcodeBase := (by decide : 0 < smallHeader.opcodeBase.toNat)
  opIndex := (by decide :
    smallHeader.opIndex.toNat < smallHeader.maximumOperationsPerInstruction.toNat)
  file := (by decide : smallHeader.file.toNat < 2 ^ 31)
  column := (by decide : smallHeader.column.toNat < 2 ^ 31)
  program := hprog
  rest := ⟨[], by rw [List.append_nil]; exact List.drop_left' List.length_replicate⟩
  inside := Nat.le_refl _
  files := hfiles

-- set_discriminator 5, then end_sequence.
def discriminated : List (Op × List UInt8) :=
  [(.setDiscriminator 5, [0, 2, 4, 5]), (.endSequence, [0, 1, 1])]

theorem discriminated_program : Program .little 10 discriminated :=
  have small {b : UInt8} (hb : b.toNat < 128) : Operand [b] := ⟨.last hb, Nat.le_add_left 1 9⟩
  have hlast : Encodes .little 10 .endSequence ([0] ++ ([1] ++ [1])) :=
    .endSequence (small (by decide)) (by decide)
  have hfirst := @Encodes.setDiscriminator .little 10 [2] [5] (small (by decide)) (small (by decide))
    (by decide) (by decide)
  .more hfirst (by decide) (.last hlast)

theorem discriminated_ready {n : Nat} (h : n + (programBytes discriminated).length < 2 ^ 63) :
    Ready (n + 7) (readerAt n (programBytes discriminated) h) discriminated :=
  readerAt_ready h discriminated_program (by decide)

theorem rows_agree_discriminated :
    (Straight 0 discriminated → RowsAgree slashed 7
      (readerAt 0 (programBytes discriminated) (by decide)) (discriminated.map Prod.fst)) ∧
    ((programBytes discriminated).length + 3 ≤ 2 ^ 32 →
      ((∀ c, SameRest (readerAt 0 (programBytes discriminated) (by decide)).c c → RowsAgree slashed 7
        { readerAt 0 (programBytes discriminated) (by decide) with c }
        (discriminated.map Prod.fst)) ↔ Straight 0 discriminated)) :=
  rows_agree_iff (discriminated_ready (n := 0) (by decide))

-- The int that holds the end of set_discriminator is 4 there.
theorem discriminated_rows_lost :
    ∃ s, Ready (2 ^ 32 + 7) s discriminated ∧
      ¬ RowsAgree slashed (2 ^ 32 + 7) s (discriminated.map Prod.fst) := by
  have h : 2 ^ 32 + (programBytes discriminated).length < 2 ^ 63 := by decide
  have hready := discriminated_ready h
  refine ⟨_, hready, not_rowsAgree (m := "invalid debug line extended opcode") fun fuel hfuel => ?_⟩
  refine runSM_jumps (n := 2 ^ 32) hready.underway ?_ (List.take_left' List.length_replicate)
    (Nat.le_refl _) (by change 2 ^ 32 + 7 + 3 ≤ 2 ^ 32 + 2 ^ 32; omega) fuel hfuel
  intro hst
  have hstays : Stays (2 ^ 32 + 4) := hst.1 rfl (by decide)
  rcases hstays with h | h <;> omega

end Gelpp.Dwarf

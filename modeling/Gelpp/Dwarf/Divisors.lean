import Gelpp.Dwarf.Indices

namespace Gelpp.Dwarf

open Reader (Plain Filed Headed)

def StateMachine.divisors (sm : StateMachine) : UInt8 × UInt8 × UInt8 :=
  (sm.lineRange, sm.maximumOperationsPerInstruction, sm.opcodeBase)

section
variable {s t : Reader}

theorem readDirBody_divisors (d : DirState) :
    Meets Any (fun e => e.s.sm.divisors = d.s.sm.divisors) (readDirBody d) := by
  have hname : Meets Any (fun _ => True) (readName d.s.c) := by
    cases readName d.s.c <;> trivial
  refine hname.bind fun r _ => Meets.ite (fun _ => rfl) fun _ => ?_
  refine (addDirectory_meets (A := Any) fun _ => trivial).bind ?_
  rintro sm rfl
  rfl

theorem readDir4_divisors (s : Reader) :
    Meets Any (fun t => t.sm.divisors = s.sm.divisors) (readDir4 s) := by
  refine Meets.bind (Meets.run_stuck (fun d : DirState => d.s.sm.divisors = s.sm.divisors) trivial
    ?_ rfl) fun d hd => hd.1
  intro d _ _ hd
  exact (readDirBody_divisors d).post fun e he => he.trans hd

theorem readDirEntry5_divisors {formats : List (UInt64 × UInt64)} (hs : s.Plain) :
    Meets Any (fun t => t.Plain ∧ t.sm.divisors = s.sm.divisors) (readDirEntry5 formats s) := by
  have hfields : Meets Tame (fun r : CString × Reader => Filed 0 s r.2)
      (formats.foldlM readDirField (.text [], s)) :=
    Meets.foldlM (fun r : CString × Reader => Filed 0 s r.2) (readDirField_meets tame_exception hs) (.refl s)
  refine (hfields.mono (fun _ _ => trivial) fun _ h => h).bind fun r hr => ?_
  have hp := hr.plain hs
  have hd : r.2.sm.divisors = s.sm.divisors := congrArg StateMachine.divisors hr.sm
  refine (addDirectory_meets (A := Any) fun _ => trivial).bind ?_
  rintro sm rfl
  exact ⟨⟨hp.c, hp.strSect, hp.lineStrSect⟩, hd⟩

theorem readDir5_divisors (hs : s.Plain) :
    Meets Any (fun t => t.sm.divisors = s.sm.divisors) (readDir5 s) := by
  refine (Cursor.read_meets hs.c (by omega)).bind fun o ho => ?_
  cases o with
  | none => trivial
  | some r =>
    have hr := ho r.1 r.2 rfl
    refine Meets.ite (fun _ => trivial) fun _ => ?_
    refine Meets.ite (fun _ => trivial) fun _ => ?_
    have hrf : r.2.buf.fence = none := by rw [hr.buf, hs.c]
    refine ((readFormats_meets hrf).mono (fun _ _ => trivial) fun _ h => h).bind fun f hf => ?_
    have hff : f.2.buf.fence = none := by rw [hf.buf, hrf]
    refine ((readLEB128U_meets hff).mono (fun _ _ => trivial) fun _ h => h).bind fun u hu => ?_
    have hup : Plain { s with c := u.2 } :=
      ⟨by rw [hu.buf, hff], hs.strSect, hs.lineStrSect⟩
    refine (Meets.times (fun t : Reader => t.Plain ∧ t.sm.divisors = s.sm.divisors) ?_
      ⟨hup, rfl⟩).post fun t ht => ht.2
    intro t ht
    exact (readDirEntry5_divisors ht.1).post fun u hu => ⟨hu.1, hu.2.trans ht.2⟩

theorem readDir_divisors (hs : s.Plain) :
    Meets Any (fun t => t.sm.divisors = s.sm.divisors) (readDir s) :=
  Meets.ite (fun _ => readDir4_divisors s) fun _ => readDir5_divisors hs

theorem readOpcodeLengths_divisors (hs : s.Plain) :
    Meets Any (fun t => t.sm.divisors = s.sm.divisors) (readOpcodeLengths s) := by
  have hskip : Meets Any (fun _ => True) (s.c.skip (opcodeCount s.sm.opcodeBase)) :=
    (Cursor.skip_meets hs.c).post fun _ _ => trivial
  refine hskip.bind fun o _ => ?_
  cases o with
  | none => trivial
  | some d =>
    have hhere : Meets Any (fun _ => True) s.c.here :=
      (here_meets hs.c).mono (fun _ _ => trivial) fun _ _ => trivial
    exact hhere.bind fun p _ => rfl

theorem readTables_divisors {join : Path → Path → Path} {b : Reader} (hs : s.Plain)
    (hb : readBase s = .ok b) (ht : readTables join s = .ok t) :
    t.sm.divisors = b.sm.divisors := by
  have hbp : b.Plain := (((readBase_meets hs).of_ok hb).toOutside).plain hs
  rw [readTables, readBaseAndDir, hb, Res.ok_bind, bind_assoc] at ht
  obtain ⟨u, hu, ht⟩ := Res.bind_ok.mp ht
  obtain ⟨v, hv, ht⟩ := Res.bind_ok.mp ht
  have hup : u.Plain := ((readOpcodeLengths_meets hbp).of_ok hu).1.plain hbp
  have hvp : v.Plain := (((readDir_meets hup).of_ok hv).toOutside).plain hup
  have htsm : t.sm = v.sm := ((readFile_meets hvp).of_ok ht).sm
  calc t.sm.divisors = v.sm.divisors := by rw [htsm]
    _ = u.sm.divisors := (readDir_divisors hup).of_ok hv
    _ = b.sm.divisors := (readOpcodeLengths_divisors hbp).of_ok hu

theorem keep_byte {α : Type} {get : Buffer → Nat → α} {put : α → StateMachine → StateMachine}
    (hs : s.Plain) : s.keep (Cursor.read 1 get) put =
      .ok { s with
        c := s.c.forward 1
        sm := if s.c.off < s.c.buf.size then put (get s.c.buf s.c.off) s.sm else s.sm } := by
  rw [Reader.keep]
  by_cases h : s.c.off < s.c.buf.size
  · rw [Cursor.read_some hs.c h, if_pos h]
    rfl
  · have hle := s.c.off_le
    have hstay : s.c.forward 1 = s.c := by
      have hmin : min (s.c.off + 1) s.c.buf.size = s.c.off := by omega
      simp only [Cursor.forward, hmin]
    rw [Cursor.read_none hs.c (by omega) (by omega), if_neg h, hstay]
    rfl

theorem kept_byte {α : Type} {get : Buffer → Nat → α} {put : α → StateMachine → StateMachine}
    (hs : s.Plain) (h : s.keep (Cursor.read 1 get) put = .ok t) :
    t.c = s.c.forward 1 ∧ t.Plain ∧
      t.sm = if s.c.off < s.c.buf.size then put (get s.c.buf s.c.off) s.sm else s.sm := by
  rw [keep_byte hs] at h
  cases h
  exact ⟨rfl, ⟨hs.c, hs.strSect, hs.lineStrSect⟩, rfl⟩

def operationsRead (sm : StateMachine) : Nat := if 4 ≤ sm.version then 1 else 0

structure BaseRead (s t : Reader) : Prop where
  operations : s.sm.version < 4 ∨ s.c.buf.getU8 (s.c.off + 1) ≠ 0 →
    t.sm.maximumOperationsPerInstruction ≠ 0
  lineRange : s.c.buf.getU8 (s.c.off + (operationsRead s.sm + 3)) ≠ 0 → t.sm.lineRange ≠ 0
  opcodeBase : s.c.buf.getU8 (s.c.off + (operationsRead s.sm + 4)) ≠ 0 → t.sm.opcodeBase ≠ 0

theorem lt_of_getU8 {b : Buffer} {off : Nat} (h : b.getU8 off ≠ 0) : off < b.size := by
  by_contra hn
  apply h
  rw [Buffer.getU8, List.getD_eq_getElem?_getD, List.getElem?_eq_none (Nat.le_of_not_lt hn)]
  rfl

theorem forward_getU8 {c : Cursor} {n : Nat} (h : c.buf.getU8 (c.off + n) ≠ 0) :
    (c.forward n).off < (c.forward n).buf.size ∧
      (c.forward n).buf.getU8 (c.forward n).off = c.buf.getU8 (c.off + n) := by
  have hlt := lt_of_getU8 h
  have hoff : (c.forward n).off = c.off + n := Cursor.forward_off (by omega)
  rw [hoff]
  exact ⟨hlt, rfl⟩

theorem readMaximumOperations_bytes (hs : s.Plain) (h : readMaximumOperations s = .ok t) :
    t.c = s.c.forward (operationsRead s.sm) ∧ t.Plain ∧
      t.sm.lineRange = s.sm.lineRange ∧ t.sm.opcodeBase = s.sm.opcodeBase ∧
      (s.sm.version < 4 ∨ s.c.buf.getU8 s.c.off ≠ 0 → t.sm.maximumOperationsPerInstruction ≠ 0) := by
  rw [readMaximumOperations] at h
  rw [operationsRead]
  by_cases hv : 4 ≤ s.sm.version
  · rw [if_pos hv] at h ⊢
    rw [Cursor.readU8, keep_byte hs] at h
    cases h
    refine ⟨rfl, ⟨hs.c, hs.strSect, hs.lineStrSect⟩, ?_, ?_, fun hb => ?_⟩
    · dsimp only
      split <;> rfl
    · dsimp only
      split <;> rfl
    · have hb' := hb.resolve_left (by simpa using hv)
      dsimp only
      rw [if_pos (lt_of_getU8 hb')]
      exact hb'
  · rw [if_neg hv] at h ⊢
    cases h
    refine ⟨(s.c.forward_zero).symm, ⟨hs.c, hs.strSect, hs.lineStrSect⟩, rfl, rfl, fun _ => ?_⟩
    exact (by decide : (1 : UInt8) ≠ 0)

theorem readDefaultIsStmt_bytes (hs : s.Plain) (h : readDefaultIsStmt s = .ok t) :
    t.c = s.c.forward 1 ∧ t.Plain ∧ t.sm.divisors = s.sm.divisors := by
  rw [readDefaultIsStmt] at h
  by_cases hlt : s.c.off < s.c.buf.size
  · rw [Cursor.readU8, Cursor.read_some hs.c hlt, Res.ok_bind] at h
    dsimp only at h
    split at h
    · cases h
      exact ⟨rfl, ⟨hs.c, hs.strSect, hs.lineStrSect⟩, rfl⟩
    · cases h
      exact ⟨rfl, ⟨hs.c, hs.strSect, hs.lineStrSect⟩, rfl⟩
  · rw [Cursor.readU8, Cursor.read_none hs.c (by omega) (by omega)] at h
    cases h

theorem readBase_bytes (hs : s.Plain) (h : readBase s = .ok t) : BaseRead s t := by
  rw [readBase] at h
  obtain ⟨t1, h1, h⟩ := Res.bind_ok.mp h
  obtain ⟨t2, h2, h⟩ := Res.bind_ok.mp h
  obtain ⟨t3, h3, h⟩ := Res.bind_ok.mp h
  obtain ⟨t4, h4, h⟩ := Res.bind_ok.mp h
  obtain ⟨t5, h5, h6⟩ := Res.bind_ok.mp h
  obtain ⟨hc1, hp1, hsm1⟩ := kept_byte hs h1
  have hv1 : t1.sm.version = s.sm.version := by
    rw [hsm1]
    split <;> rfl
  obtain ⟨hc2, hp2, -, -, hops2⟩ := readMaximumOperations_bytes hp1 h2
  obtain ⟨hc3, hp3, hd3⟩ := readDefaultIsStmt_bytes hp2 h3
  obtain ⟨hc4, hp4, hsm4⟩ := kept_byte hp3 h4
  obtain ⟨hc5, hp5, hsm5⟩ := kept_byte hp4 h5
  obtain ⟨hc6, hp6, hsm6⟩ := kept_byte hp5 h6
  have hk : operationsRead t1.sm = operationsRead s.sm := by rw [operationsRead, operationsRead, hv1]
  have hat4 : t4.c = s.c.forward (operationsRead s.sm + 3) := by
    rw [hc4, hc3, hc2, hc1, hk]
    simp only [Cursor.forward_forward]
    congr 1
    omega
  have hat5 : t5.c = s.c.forward (operationsRead s.sm + 4) := by
    rw [hc5, hat4, Cursor.forward_forward]
  refine ⟨fun hops => ?_, fun hrange => ?_, fun hbase => ?_⟩
  · have hkept : t.sm.maximumOperationsPerInstruction = t2.sm.maximumOperationsPerInstruction := by
      have h3 := congrArg (fun d : UInt8 × UInt8 × UInt8 => d.2.1) hd3
      rw [hsm6, hsm5, hsm4]
      split <;> split <;> split <;> exact h3
    rw [hkept]
    apply hops2
    rw [hv1, hc1]
    exact hops.imp id fun hb => by rwa [(forward_getU8 hb).2]
  · have hkept : t.sm.lineRange = t5.sm.lineRange := by
      rw [hsm6]
      split <;> rfl
    obtain ⟨hlt, hbyte⟩ := forward_getU8 hrange
    rw [hkept, hsm5, hat4, if_pos hlt]
    exact hbyte ▸ hrange
  · obtain ⟨hlt, hbyte⟩ := forward_getU8 hbase
    rw [hsm6, hat5, if_pos hlt]
    exact hbyte ▸ hbase

end

section
variable (join : Path → Path → Path) (s₀ : Scan)

structure HeadersDivide : Prop where
  operations : ∀ h e r t, HeaderAt join s₀ h e → headerStart h = .ok r →
    readHeader join h = .ok t → t.c.off < e →
    r.1.sm.version < 4 ∨ r.1.c.buf.getU8 (r.1.c.off + 1) ≠ 0
  lineRange : ∀ h e r t, HeaderAt join s₀ h e → headerStart h = .ok r →
    readHeader join h = .ok t → t.c.off < e →
    r.1.c.buf.getU8 (r.1.c.off + (operationsRead r.1.sm + 3)) ≠ 0
  opcodeBase : ∀ h e r t, HeaderAt join s₀ h e → headerStart h = .ok r → readBase r.1 = .ok t →
    r.1.c.buf.getU8 (r.1.c.off + (operationsRead r.1.sm + 4)) ≠ 0

structure InDomain : Prop where
  ranges : ∀ r e d, OpcodeAt join s₀ r e → decode r = .ok d → d.action.ranges = true →
    r.sm.lineRange ≠ 0
  operations : ∀ r e d, OpcodeAt join s₀ r e → decode r = .ok d → d.action.advances = true →
    r.sm.maximumOperationsPerInstruction ≠ 0
  lengths : ∀ h e r t, HeaderAt join s₀ h e → headerStart h = .ok r → readBase r.1 = .ok t →
    1 ≤ t.sm.opcodeBase

variable {join s₀}

theorem programAt_header {r : Reader} {e : Nat} (hs : s₀.Plain) (hr : OpcodeAt join s₀ r e) :
    ∃ h p b t, HeaderAt join s₀ h e ∧ headerStart h = .ok p ∧ readBase p.1 = .ok b ∧
      readHeader join h = .ok t ∧ t.c.off < e ∧ p.1.Plain ∧ r.sm.divisors = b.sm.divisors := by
  obtain ⟨t, ⟨h, hh, hread, hlt⟩, hv, -⟩ := hr
  have hhp := hh.plain hs
  have htp : t.Plain := ((readHeader_meets hhp).of_ok hread).plain hhp
  have hkept : Kept t r := by
    refine Loop.visits_invariant (I := Kept t) ?_ (.refl t) hv
    rintro u v hku ⟨-, hst⟩
    obtain ⟨d, hd⟩ := stepped_of_step (hku.plain htp) hst
    exact hku.trans hd.toKept
  have hheader : r.sm.divisors = t.sm.divisors := by
    have h := hkept.header
    simp only [StateMachine.header, Prod.mk.injEq] at h
    obtain ⟨-, -, hrange, hbase, -, hops, -⟩ := h
    rw [StateMachine.divisors, hrange, hops, hbase]
    rfl
  have hread' := hread
  rw [readHeader_eq] at hread'
  obtain ⟨p, hp, hread'⟩ := Res.bind_ok.mp hread'
  obtain ⟨u, hu, hmove⟩ := Res.bind_ok.mp hread'
  have hpp : p.1.Plain := ((headerStart_meets hhp).of_ok hp).plain hhp
  have hup : u.Plain := ((readTables_meets hpp).of_ok hu).plain hpp
  have hsm : t.sm = u.sm := ((Reader.moveTo_meets (A := Any) hup).of_ok hmove).2.2.2
  have hbase : ∃ b, readBase p.1 = .ok b := by
    rw [readTables, readBaseAndDir, bind_assoc] at hu
    obtain ⟨b, hb, -⟩ := Res.bind_ok.mp hu
    exact ⟨b, hb⟩
  obtain ⟨b, hb⟩ := hbase
  refine ⟨h, p, b, t, hh, hp, hb, hread, hlt, hpp, ?_⟩
  rw [hheader, hsm, readTables_divisors hpp hb hu]

theorem arithmetic_in_domain (hs : s₀.Plain) (hd : HeadersDivide join s₀) : InDomain join s₀ where
  ranges r e d hr hdec ha := by
    obtain ⟨h, p, b, t, hh, hp, hb, ht, hlt, hpp, hdiv⟩ := programAt_header hs hr
    have hrange : r.sm.lineRange = b.sm.lineRange := congrArg Prod.fst hdiv
    rw [hrange]
    exact (readBase_bytes hpp hb).lineRange (hd.lineRange h e p t hh hp ht hlt)
  operations r e d hr hdec ha := by
    obtain ⟨h, p, b, t, hh, hp, hb, ht, hlt, hpp, hdiv⟩ := programAt_header hs hr
    have hops : r.sm.maximumOperationsPerInstruction = b.sm.maximumOperationsPerInstruction :=
      congrArg (fun d => d.2.1) hdiv
    rw [hops]
    exact (readBase_bytes hpp hb).operations (hd.operations h e p t hh hp ht hlt)
  lengths h e r t hh hr ht := by
    have hrp : r.1.Plain := ((headerStart_meets (hh.plain hs)).of_ok hr).plain (hh.plain hs)
    have hne := (readBase_bytes hrp ht).opcodeBase (hd.opcodeBase h e r t hh hr ht)
    rw [UInt8.le_iff_toNat_le]
    have h0 : t.sm.opcodeBase.toNat ≠ 0 := fun h0 => hne (UInt8.toNat_inj.mp h0)
    exact Nat.one_le_iff_ne_zero.mpr h0

end

def dividingHeader (h : Reader) : Bool :=
  match headerStart h with
  | .error _ => true
  | .ok r => (decide (r.1.sm.version < 4) || r.1.c.buf.getU8 (r.1.c.off + 1) != 0) &&
    r.1.c.buf.getU8 (r.1.c.off + (operationsRead r.1.sm + 3)) != 0 &&
    r.1.c.buf.getU8 (r.1.c.off + (operationsRead r.1.sm + 4)) != 0

def divisorChecks : Checks where
  unit _ := true
  header h _ := dividingHeader h
  opcode _ _ := true

theorem headersDivide_of_checks {join : Path → Path → Path} {fuel : Nat} {s₀ : Scan}
    (h : divisorChecks.passed join fuel s₀ = true) : HeadersDivide join s₀ := by
  have hbytes {t : Reader} {e : Nat} {r : Reader × Nat} (ht : HeaderAt join s₀ t e)
      (hr : headerStart t = .ok r) :
      ((r.1.sm.version < 4 ∨ r.1.c.buf.getU8 (r.1.c.off + 1) ≠ 0) ∧
        r.1.c.buf.getU8 (r.1.c.off + (operationsRead r.1.sm + 3)) ≠ 0) ∧
        r.1.c.buf.getU8 (r.1.c.off + (operationsRead r.1.sm + 4)) ≠ 0 := by
    have hhead := Checks.of_header h ht
    simpa only [divisorChecks, dividingHeader, hr, Bool.and_eq_true, Bool.or_eq_true, bne_iff_ne,
      decide_eq_true_eq] using hhead
  exact ⟨fun _ _ _ _ hh hr _ _ => (hbytes hh hr).1.1, fun _ _ _ _ hh hr _ _ => (hbytes hh hr).1.2,
    fun _ _ _ _ hh hr _ => (hbytes hh hr).2⟩

theorem arithmetic_in_domain_twoRows : InDomain slashed twoRows :=
  have h : divisorChecks.passed slashed 40 twoRows = true := by decide +kernel
  arithmetic_in_domain ⟨rfl, rfl, rfl⟩ (headersDivide_of_checks h)

-- A special opcode in a unit whose line_range is 0.
def nullRange : Scan :=
  lineBuffer [20, 0, 0, 0, 2, 0, 13, 0, 0, 0, 1, 1, 0xfb, 0, 2, 0, 0, 97, 0, 0, 0, 0, 0, 2] (by decide)

theorem nullRange_divided : ¬ InDomain slashed nullRange := by
  intro hd
  have hrun : ((openUnit nullRange).toOption.bind fun p => (readHeader slashed p.1).toOption.bind
      fun t => (decode t).toOption.map fun d =>
        decide (t.c.off < p.2) && running t && d.action.ranges && t.sm.lineRange == 0) =
      some true := by decide +kernel
  cases hopen : openUnit nullRange with
  | error e =>
    rw [hopen] at hrun
    cases hrun
  | ok p =>
    cases hread : readHeader slashed p.1 with
    | error e =>
      simp [hopen, hread, Except.toOption] at hrun
    | ok t =>
      cases hdec : decode t with
      | error e => simp [hopen, hread, hdec, Except.toOption] at hrun
      | ok d =>
        simp only [hopen, hread, hdec, Except.toOption, Option.bind_some, Option.map_some,
          Option.some.injEq, Bool.and_eq_true, decide_eq_true_eq, beq_iff_eq] at hrun
        obtain ⟨⟨⟨hlt, hm⟩, ha⟩, h0⟩ := hrun
        have hat : OpcodeAt slashed nullRange t p.2 :=
          ⟨t, ⟨p.1, ⟨nullRange, .refl, by decide, hopen⟩, hread, hlt⟩, .refl, hm⟩
        exact hd.ranges t p.2 d hat hdec ha h0

end Gelpp.Dwarf

import Gelpp.Dwarf.Sequences
import Gelpp.Library.LineMachine

namespace Gelpp.Dwarf

open Reader (Plain)
open LineMachine (Op Attributes attributeRows)

def Action.op : Action → Op
  | .special opcode => .special opcode.toNat
  | .copy => .copy
  | .advancePC adv => .advancePc adv.toNat
  | .advanceLine adv => .advanceLine adv
  | .setFile file => .setFile file.toNat
  | .setColumn column => .setColumn column.toNat
  | .negateStmt => .negateStmt
  | .setBasicBlock => .setBasicBlock
  | .constAddPC => .constAddPc
  | .fixedAdvancePC o => .fixedAdvancePc o.toNat
  | .setPrologueEnd => .setPrologueEnd
  | .setEpilogueBegin => .setEpilogueBegin
  | .setIsa isa => .setIsa isa.toNat
  | .endSequence => .endSequence
  | .setAddress address => .setAddress address.toNat
  | .defineFile => .defineFile
  | .setDiscriminator discriminator => .setDiscriminator discriminator.toNat

def Action.small : Action → Bool
  | .setIsa isa => decide (isa.toNat < 256)
  | .setDiscriminator discriminator => decide (discriminator.toNat < 256)
  | _ => true

@[simp] theorem op_emits (a : Action) : a.op.emits = a.records := by
  cases a <;> rfl

def LineNumber.attributes (l : LineNumber) : Attributes where
  isStmt := l.flags &&& isStmt.toUInt32 != 0
  basicBlock := l.flags &&& basicBlock.toUInt32 != 0
  prologueEnd := l.flags &&& prologueEnd.toUInt32 != 0
  epilogueBegin := l.flags &&& epilogueBegin.toUInt32 != 0
  isa := l.isa.toNat
  discriminator := l.disc.toNat

namespace StateMachine

theorem bit_widen (f m : UInt8) : (f.toUInt32 &&& m.toUInt32 != 0) = (f &&& m != 0) := by
  rw [← UInt8.toUInt32_and, Bool.eq_iff_iff, bne_iff_ne, bne_iff_ne, not_iff_not]
  exact UInt8.toUInt32_inj (b := 0)

theorem bit_set (sm : StateMachine) (m n : UInt8) :
    (sm.set m).bit n = (sm.bit n || m &&& n != 0) := by
  have hdist : (sm.flags ||| m) &&& n = sm.flags &&& n ||| m &&& n := by
    apply UInt8.toBitVec_inj.mp
    simp [BitVec.and_or_distrib_right]
  rw [Bool.eq_iff_iff]
  simp only [bit, set, hdist, bne_iff_ne, Bool.or_eq_true, ne_eq, UInt8.or_eq_zero_iff]
  tauto

theorem bit_clear (sm : StateMachine) {m n : UInt8} (h : ~~~m &&& n = n) :
    (sm.clear m).bit n = sm.bit n := by
  rw [bit, bit, clear, UInt8.and_assoc, h]

theorem bit_clear_self (sm : StateMachine) (m : UInt8) : (sm.clear m).bit m = false := by
  have h : ~~~m &&& m = 0 := by
    apply UInt8.toBitVec_inj.mp
    simp
  simp [bit, clear, UInt8.and_assoc, h]

end StateMachine

-- Before the first row the flags of the machine are the right ones; from then on recordLine has set
-- the three flags that a row should leave cleared.
structure Agrees (dirty : Bool) (sm : StateMachine) (a : Attributes) : Prop where
  isStmt : sm.bit isStmt = a.isStmt
  basicBlock : sm.bit basicBlock = (dirty || a.basicBlock)
  prologueEnd : sm.bit prologueEnd = (dirty || a.prologueEnd)
  epilogueBegin : sm.bit epilogueBegin = (dirty || a.epilogueBegin)
  isa : sm.isa.toNat = a.isa
  isa_lt : a.isa < 256
  discriminator : sm.discriminator.toNat = a.discriminator
  discriminator_lt : a.discriminator < 256

def flagged (a : Attributes) : Bool := a.basicBlock && a.prologueEnd && a.epilogueBegin

def shown (dirty : Bool) (a : Attributes) : Attributes :=
  { a with
    basicBlock := dirty || a.basicBlock
    prologueEnd := dirty || a.prologueEnd
    epilogueBegin := dirty || a.epilogueBegin }

theorem Agrees.of_eq {dirty : Bool} {sm sm' : StateMachine} {a : Attributes}
    (h : Agrees dirty sm a) (hf : sm'.flags = sm.flags) (hi : sm'.isa = sm.isa)
    (hd : sm'.discriminator = sm.discriminator) : Agrees dirty sm' a := by
  have hbit (m : UInt8) : sm'.bit m = sm.bit m := by rw [StateMachine.bit, StateMachine.bit, hf]
  exact ⟨by rw [hbit, h.isStmt], by rw [hbit, h.basicBlock], by rw [hbit, h.prologueEnd],
    by rw [hbit, h.epilogueBegin], by rw [hi, h.isa], h.isa_lt, by rw [hd, h.discriminator],
    h.discriminator_lt⟩

theorem lineNumber_attributes {dirty : Bool} {sm : StateMachine} {a : Attributes}
    (h : Agrees dirty sm a) (f : Nat) : (lineNumber sm f).attributes = shown dirty a := by
  have hisa : sm.isa.toUInt8.toNat = a.isa := by
    rw [UInt32.toNat_toUInt8, h.isa, Nat.mod_eq_of_lt h.isa_lt]
  have hdisc : sm.discriminator.toUInt8.toNat = a.discriminator := by
    rw [UInt32.toNat_toUInt8, h.discriminator, Nat.mod_eq_of_lt h.discriminator_lt]
  have hbit (m : UInt8) : (sm.flags.toUInt32 &&& m.toUInt32 != 0) = sm.bit m :=
    StateMachine.bit_widen sm.flags m
  rw [LineNumber.attributes]
  simp only [lineNumber, hbit, hisa, hdisc, h.isStmt, h.basicBlock, h.prologueEnd,
    h.epilogueBegin, shown]

theorem recorded_agrees {dirty : Bool} {s : Reader} {a : Attributes} (h : Agrees dirty s.sm a)
    (f : Nat) : Agrees true (recorded s f).sm a.cleared := by
  have hbit (m : UInt8) : (recorded s f).sm.bit m =
      (s.sm.bit m || (basicBlock ||| prologueEnd ||| epilogueBegin) &&& m != 0) :=
    StateMachine.bit_set s.sm _ m
  have hstmt : ((basicBlock ||| prologueEnd ||| epilogueBegin) &&& isStmt != 0) = false := rfl
  have hblock : ((basicBlock ||| prologueEnd ||| epilogueBegin) &&& basicBlock != 0) = true := rfl
  have hpro : ((basicBlock ||| prologueEnd ||| epilogueBegin) &&& prologueEnd != 0) = true := rfl
  have hepi : ((basicBlock ||| prologueEnd ||| epilogueBegin) &&& epilogueBegin != 0) = true := rfl
  refine ⟨?_, ?_, ?_, ?_, h.isa, h.isa_lt, rfl, Nat.succ_pos 255⟩
  · rw [hbit, hstmt, Bool.or_false, h.isStmt]
    rfl
  · rw [hbit, hblock, Bool.or_true, Bool.true_or]
  · rw [hbit, hpro, Bool.or_true, Bool.true_or]
  · rw [hbit, hepi, Bool.or_true, Bool.true_or]

theorem recordLine_attributes {dirty : Bool} {s t : Reader} {a : Attributes}
    (h : Agrees dirty s.sm a) (ht : recordLine s = .ok t) :
    Agrees true t.sm a.cleared ∧
      t.cu.lines.map LineNumber.attributes =
        s.cu.lines.map LineNumber.attributes ++ [shown dirty a] := by
  obtain ⟨f, -, rfl⟩ := (recordLine_meets (A := Any) fun _ => trivial).of_ok ht
  refine ⟨recorded_agrees h f, ?_⟩
  rw [recorded, List.map_append, List.map_singleton, lineNumber_attributes h]

theorem set_agrees {dirty : Bool} {sm : StateMachine} {a b : Attributes} {m : UInt8}
    (h : Agrees dirty sm a) (h0 : (a.isStmt || m &&& isStmt != 0) = b.isStmt)
    (h1 : (a.basicBlock || m &&& basicBlock != 0) = b.basicBlock)
    (h2 : (a.prologueEnd || m &&& prologueEnd != 0) = b.prologueEnd)
    (h3 : (a.epilogueBegin || m &&& epilogueBegin != 0) = b.epilogueBegin)
    (hi : a.isa = b.isa) (hd : a.discriminator = b.discriminator) :
    Agrees dirty (sm.set m) b := by
  refine ⟨?_, ?_, ?_, ?_, h.isa.trans hi, hi ▸ h.isa_lt, h.discriminator.trans hd,
    hd ▸ h.discriminator_lt⟩
  · rw [StateMachine.bit_set, h.isStmt, h0]
  · rw [StateMachine.bit_set, h.basicBlock, Bool.or_assoc, h1]
  · rw [StateMachine.bit_set, h.prologueEnd, Bool.or_assoc, h2]
  · rw [StateMachine.bit_set, h.epilogueBegin, Bool.or_assoc, h3]

theorem negate_agrees {dirty : Bool} {sm : StateMachine} {a : Attributes}
    (h : Agrees dirty sm a) :
    Agrees dirty (if sm.bit isStmt then sm.clear isStmt else sm.set isStmt)
      { a with isStmt := !a.isStmt } := by
  cases hs : a.isStmt with
  | false =>
    rw [h.isStmt, hs, if_neg (by simp)]
    exact set_agrees h (by rw [hs]; rfl) (Bool.or_false _) (Bool.or_false _) (Bool.or_false _) rfl
      rfl
  | true =>
    rw [h.isStmt, hs, if_pos rfl]
    exact ⟨StateMachine.bit_clear_self sm isStmt,
      (StateMachine.bit_clear sm (by decide)).trans h.basicBlock,
      (StateMachine.bit_clear sm (by decide)).trans h.prologueEnd,
      (StateMachine.bit_clear sm (by decide)).trans h.epilogueBegin, h.isa, h.isa_lt,
      h.discriminator, h.discriminator_lt⟩

section
variable {join : Path → Path → Path}

theorem advancePC_agrees {dirty : Bool} {sm sm' : StateMachine} {a : Attributes} {adv : UInt64}
    (h : Agrees dirty sm a) (hadv : advancePC sm adv = .ok sm') : Agrees dirty sm' a := by
  obtain ⟨address, opIndex, rfl⟩ := (advancePC_meets (A := Any) fun _ => trivial).of_ok hadv
  exact h.of_eq rfl rfl rfl

theorem advanceLine_agrees {dirty : Bool} {sm sm' : StateMachine} {a : Attributes} {adv : Int}
    (h : Agrees dirty sm a) (hadv : advanceLine sm adv = .ok sm') : Agrees dirty sm' a := by
  obtain ⟨line, rfl⟩ := (advanceLine_meets (A := Any) fun _ => trivial).of_ok hadv
  exact h.of_eq rfl rfl rfl

theorem perform_attributes {dirty : Bool} {s t : Reader} {a : Action} {b : Attributes}
    (hs : s.Plain) (h : Agrees dirty s.sm b) (hsmall : a.small = true) (ht : perform join s a = .ok t) :
    Agrees (dirty || a.records) t.sm (b.step a.op) ∧
      t.cu.lines.map LineNumber.attributes = s.cu.lines.map LineNumber.attributes ++
        (if a.records then [shown dirty b] else []) := by
  have silent (sm : StateMachine) {b' : Attributes} (h' : Agrees dirty sm b')
      (heq : (.ok { s with sm } : Res Reader) = .ok t) :
      Agrees (dirty || false) t.sm b' ∧ t.cu.lines.map LineNumber.attributes =
        s.cu.lines.map LineNumber.attributes ++ [] := by
    cases heq
    rw [Bool.or_false, List.append_nil]
    exact ⟨h', rfl⟩
  cases a with
  | special opcode =>
    rw [perform, special] at ht
    split at ht
    · cases ht
    · obtain ⟨sm', hsm', ht⟩ := Res.bind_ok.mp ht
      obtain ⟨sm, hsm, ht⟩ := Res.bind_ok.mp ht
      have hline := advanceLine_agrees h hsm'
      rw [show (Action.special opcode).records = true from rfl, Bool.or_true, if_pos rfl]
      exact recordLine_attributes (s := { s with sm }) (advancePC_agrees hline hsm) ht
  | copy =>
    rw [show Action.copy.records = true from rfl, Bool.or_true, if_pos rfl]
    exact recordLine_attributes h ht
  | advancePC adv =>
    obtain ⟨sm, hsm, ht⟩ := Res.bind_ok.mp ht
    exact silent sm (advancePC_agrees h hsm) ht
  | advanceLine adv =>
    obtain ⟨sm, hsm, ht⟩ := Res.bind_ok.mp ht
    exact silent sm (advanceLine_agrees h hsm) ht
  | setFile v => exact silent { s.sm with file := v.toUInt32 } (h.of_eq rfl rfl rfl) ht
  | setColumn v => exact silent { s.sm with column := v.toUInt32 } (h.of_eq rfl rfl rfl) ht
  | negateStmt =>
    refine silent _ (negate_agrees h) ?_
    rw [← ht, perform]
    split <;> rfl
  | setBasicBlock =>
    refine silent (s.sm.set basicBlock) (set_agrees h ?_ ?_ ?_ ?_ rfl rfl) ht
    · exact Bool.or_false _
    · exact Bool.or_true _
    · exact Bool.or_false _
    · exact Bool.or_false _
  | constAddPC =>
    rw [perform] at ht
    split at ht
    · cases ht
    · obtain ⟨sm, hsm, ht⟩ := Res.bind_ok.mp ht
      exact silent sm (advancePC_agrees h hsm) ht
  | fixedAdvancePC o =>
    exact silent { s.sm with address := s.sm.address + o.toUInt64, opIndex := 0 }
      (h.of_eq rfl rfl rfl) ht
  | setPrologueEnd =>
    refine silent (s.sm.set prologueEnd) (set_agrees h ?_ ?_ ?_ ?_ rfl rfl) ht
    · exact Bool.or_false _
    · exact Bool.or_false _
    · exact Bool.or_true _
    · exact Bool.or_false _
  | setEpilogueBegin =>
    refine silent (s.sm.set epilogueBegin) (set_agrees h ?_ ?_ ?_ ?_ rfl rfl) ht
    · exact Bool.or_false _
    · exact Bool.or_false _
    · exact Bool.or_false _
    · exact Bool.or_true _
  | setIsa v =>
    have hsmall : v.toNat < 256 := of_decide_eq_true hsmall
    have hv : v.toUInt32.toNat = v.toNat := by
      rw [UInt64.toNat_toUInt32]
      omega
    exact silent { s.sm with isa := v.toUInt32 }
      { isStmt := h.isStmt, basicBlock := h.basicBlock, prologueEnd := h.prologueEnd
        epilogueBegin := h.epilogueBegin, isa := hv, isa_lt := hsmall
        discriminator := h.discriminator, discriminator_lt := h.discriminator_lt } ht
  | endSequence =>
    obtain ⟨u, hu, ht⟩ := Res.bind_ok.mp ht
    cases ht
    obtain ⟨hagree, hrows⟩ := recordLine_attributes h hu
    rw [show Action.endSequence.records = true from rfl, Bool.or_true, if_pos rfl]
    exact ⟨hagree.of_eq rfl rfl rfl, hrows⟩
  | setAddress address => exact silent { s.sm with address } (h.of_eq rfl rfl rfl) ht
  | defineFile =>
    have hfile := (readFile_meets hs).of_ok ht
    have hrecords : Action.defineFile.records = false := rfl
    rw [hrecords, Bool.or_false, if_neg (by simp), List.append_nil, hfile.sm, hfile.lines]
    exact ⟨h, rfl⟩
  | setDiscriminator v =>
    have hsmall : v.toNat < 256 := of_decide_eq_true hsmall
    have hv : v.toUInt32.toNat = v.toNat := by
      rw [UInt64.toNat_toUInt32]
      omega
    exact silent { s.sm with discriminator := v.toUInt32 }
      { isStmt := h.isStmt, basicBlock := h.basicBlock, prologueEnd := h.prologueEnd
        epilogueBegin := h.epilogueBegin, isa := h.isa, isa_lt := h.isa_lt
        discriminator := hv, discriminator_lt := hsmall } ht

inductive Executes (join : Path → Path → Path) (endOffset : Nat) :
    Reader → List Action → Reader → Prop
  | done (r : Reader) : Executes join endOffset r [] r
  | next {r s t : Reader} {d : Decoded} {as : List Action} (hm : running r = true)
      (hd : decode r = .ok d) (hs : step join endOffset r = .ok s)
      (ht : Executes join endOffset s as t) : Executes join endOffset r (d.action :: as) t

theorem step_performs {endOffset : Nat} {r s : Reader} {d : Decoded} (hp : r.Plain)
    (hd : decode r = .ok d) (hs : step join endOffset r = .ok s) :
    ∃ u, perform join { r with c := d.c } d.action = .ok u ∧ s.sm = u.sm ∧ s.cu = u.cu := by
  rw [step_eq] at hs
  split at hs
  · cases hs
  · rw [hd, Res.ok_bind, enact] at hs
    obtain ⟨u, hu, hs⟩ := Res.bind_ok.mp hs
    have hdp : Plain { r with c := d.c } := (kept_of_past ((decode_meets hp.c).of_ok hd)).plain hp
    have huf : u.c.buf.fence = none := by
      have hperf := (perform_meets ((stepAllowed_any hp).action d hd)).of_ok hu
      rw [hperf.buf, hdp.c]
    have hland := (land_meets (A := Any) huf).of_ok hs
    exact ⟨u, hu, hland.sm, hland.cu⟩

def shownRows (dirty : Bool) (b : Attributes) : List Action → List Attributes
  | [] => []
  | a :: as => (if a.records then [shown dirty b] else []) ++
      shownRows (dirty || a.records) (b.step a.op) as

theorem executes_attributes {endOffset : Nat} {dirty : Bool} {r t : Reader} {as : List Action}
    {b : Attributes} (hp : r.Plain) (h : Agrees dirty r.sm b) (hsmall : ∀ a ∈ as, a.small = true)
    (ht : Executes join endOffset r as t) :
    t.cu.lines.map LineNumber.attributes =
      r.cu.lines.map LineNumber.attributes ++ shownRows dirty b as := by
  induction ht generalizing dirty b with
  | done r => simp [shownRows]
  | @next r s t d as hm hd hs _ ih =>
    have hdp : Plain { r with c := d.c } := (kept_of_past ((decode_meets hp.c).of_ok hd)).plain hp
    obtain ⟨u, hu, hsm, hcu⟩ := step_performs hp hd hs
    obtain ⟨hagree, hrows⟩ :=
      perform_attributes hdp h (hsmall _ List.mem_cons_self) hu
    obtain ⟨d', hd'⟩ := stepped_of_step hp hs
    rw [ih (hd'.toKept.plain hp) (hsm ▸ hagree) fun a ha => hsmall a (List.mem_cons_of_mem _ ha),
      hcu, hrows, List.append_assoc, shownRows]

theorem shown_eq_iff {dirty : Bool} {b : Attributes} :
    shown dirty b = b ↔ (dirty = true → flagged b = true) := by
  cases b with
  | mk s x y z i d =>
    cases dirty with
    | false => simp [shown]
    | true =>
      simp only [shown, flagged, Bool.true_or, Attributes.mk.injEq, true_and, and_true,
        Bool.and_eq_true, true_implies]
      constructor
      · rintro ⟨rfl, rfl, rfl⟩
        exact ⟨⟨rfl, rfl⟩, rfl⟩
      · rintro ⟨⟨rfl, rfl⟩, rfl⟩
        exact ⟨rfl, rfl, rfl⟩

theorem shownRows_dirty {b : Attributes} {as : List Action} :
    shownRows true b as = attributeRows b (as.map Action.op) ↔
      ∀ a ∈ attributeRows b (as.map Action.op), flagged a = true := by
  induction as generalizing b with
  | nil => simp [shownRows, attributeRows]
  | cons a as ih =>
    rw [shownRows, List.map_cons, attributeRows, op_emits, Bool.true_or]
    cases ha : a.records with
    | false =>
      simp only [Bool.false_eq_true, if_false, List.nil_append]
      exact ih
    | true =>
      simp only [if_true, List.cons_append, List.nil_append, List.cons.injEq, List.mem_cons,
        forall_eq_or_imp, ih, shown_eq_iff, true_implies]

theorem shownRows_clean {b : Attributes} {as : List Action} :
    shownRows false b as = attributeRows b (as.map Action.op) ↔
      ∀ a ∈ (attributeRows b (as.map Action.op)).tail, flagged a = true := by
  induction as generalizing b with
  | nil => simp [shownRows, attributeRows]
  | cons a as ih =>
    rw [shownRows, List.map_cons, attributeRows, op_emits, Bool.false_or]
    cases ha : a.records with
    | false =>
      simp only [Bool.false_eq_true, if_false, List.nil_append]
      exact ih
    | true =>
      have hshown : shown false b = b := shown_eq_iff.mpr fun h => by cases h
      simp only [if_true, List.cons_append, List.nil_append, List.cons.injEq, hshown, true_and,
        List.tail_cons, shownRows_dirty]

def headerDefault (h : Reader) : Res UInt8 := do
  let (s, _) ← headerStart h
  defaultIsStmt s

theorem header_agrees {s : Scan} {h r₀ : Reader} {endOffset : Nat} {b : UInt8} (hs : s.Plain)
    (hopen : openUnit s = .ok (h, endOffset)) (hread : readHeader join h = .ok r₀)
    (hb : headerDefault h = .ok b) :
    r₀.cu.lines = [] ∧ Agrees false r₀.sm { isStmt := b != 0 } := by
  have ho := (openUnit_meets (A := Any) hs fun _ => trivial).of_ok hopen
  have hhead := (readHeader_meets (ho.plain hs)).of_ok hread
  obtain ⟨r, hstart, -, -, b', hb', hflags⟩ := hhead.start
  have hbeq : headerDefault h = .ok b' := by
    rw [headerDefault, hstart]
    exact hb'
  obtain rfl : b = b' := by
    rw [hb] at hbeq
    cases hbeq
    rfl
  have hreg := hhead.registers
  rw [ho.sm] at hreg hflags
  have hisa : r₀.sm.isa = 0 := congrArg (fun x => x.2.2.2.2.2.1) hreg
  have hdisc : r₀.sm.discriminator = 0 := congrArg (fun x => x.2.2.2.2.2.2.1) hreg
  refine ⟨by rw [hhead.lines, ho.cu], ?_, ?_, ?_, ?_, by rw [hisa]; rfl, Nat.succ_pos 255,
    by rw [hdisc]; rfl, Nat.succ_pos 255⟩
  all_goals
    rw [StateMachine.bit, hflags, stmtFlags]
    split
    · next h0 =>
      subst h0
      rfl
    · next h0 => first | rfl | exact (bne_iff_ne.mpr h0).symm

theorem attributes_iff {s : Scan} {h r₀ t : Reader} {endOffset : Nat} {b : UInt8}
    {as : List Action} (hs : s.Plain) (hopen : openUnit s = .ok (h, endOffset))
    (hread : readHeader join h = .ok r₀) (hb : headerDefault h = .ok b)
    (hsmall : ∀ a ∈ as, a.small = true) (ht : Executes join endOffset r₀ as t) :
    t.cu.lines.map LineNumber.attributes =
        attributeRows { isStmt := b != 0 } (as.map Action.op) ↔
      ∀ a ∈ (attributeRows { isStmt := b != 0 } (as.map Action.op)).tail, flagged a = true := by
  obtain ⟨hp, -⟩ := running_header hs hopen hread
  obtain ⟨hlines, hagree⟩ := header_agrees hs hopen hread hb
  rw [executes_attributes hp hagree hsmall ht, hlines, List.map_nil, List.nil_append,
    shownRows_clean]

variable (join)

def trace (endOffset : Nat) : Nat → Reader → Res (List Action × Reader)
  | 0, r => if running r then .error .steps else .ok ([], r)
  | n + 1, r => if running r then do
      let d ← decode r
      let s ← step join endOffset r
      let (as, t) ← trace endOffset n s
      return (d.action :: as, t)
    else .ok ([], r)

def unitTrace (fuel : Nat) (s : Scan) : Res (Reader × Nat × Reader × UInt8 × List Action × Reader) := do
  let (h, endOffset) ← openUnit s
  let r₀ ← readHeader join h
  let b ← headerDefault h
  let (as, t) ← trace join endOffset fuel r₀
  return (h, endOffset, r₀, b, as, t)

variable {join}

theorem executes_of_trace {endOffset n : Nat} {r t : Reader} {as : List Action}
    (h : trace join endOffset n r = .ok (as, t)) : Executes join endOffset r as t := by
  induction n generalizing r as with
  | zero =>
    unfold trace at h
    split at h
    · cases h
    · cases h
      exact .done _
  | succ n ih =>
    unfold trace at h
    split at h
    · next hm =>
      obtain ⟨d, hd, h⟩ := Res.bind_ok.mp h
      obtain ⟨s, hs, h⟩ := Res.bind_ok.mp h
      obtain ⟨x, hx, h⟩ := Res.bind_ok.mp h
      cases h
      exact .next hm hd hs (ih hx)
    · cases h
      exact .done _

theorem of_unitTrace {fuel : Nat} {s : Scan} {x : Reader × Nat × Reader × UInt8 × List Action × Reader}
    (hx : unitTrace join fuel s = .ok x) : openUnit s = .ok (x.1, x.2.1) ∧
      readHeader join x.1 = .ok x.2.2.1 ∧ headerDefault x.1 = .ok x.2.2.2.1 ∧
      Executes join x.2.1 x.2.2.1 x.2.2.2.2.1 x.2.2.2.2.2 := by
  obtain ⟨v, hopen, hx⟩ := Res.bind_ok.mp hx
  obtain ⟨r₀, hread, hx⟩ := Res.bind_ok.mp hx
  obtain ⟨b, hb, hx⟩ := Res.bind_ok.mp hx
  obtain ⟨y, hy, hx⟩ := Res.bind_ok.mp hx
  cases hx
  exact ⟨hopen, hread, hb, executes_of_trace hy⟩

end

-- The program copy, set_basic_block, set_prologue_end, set_epilogue_begin, end_sequence.
def flaggedRows : Scan :=
  lineBuffer [37, 0, 0, 0, 2, 0, 24, 0, 0, 0, 1, 1, 0xfb, 14, 13, 0, 1, 1, 1, 1, 0, 0, 0, 1, 0, 0, 1,
    0, 97, 0, 0, 0, 0, 0, 1, 7, 10, 11, 0, 1, 1] (by decide)

theorem attributes_flaggedRows : ∃ h e r₀ b as t, openUnit flaggedRows = .ok (h, e) ∧
    readHeader slashed h = .ok r₀ ∧ headerDefault h = .ok b ∧ Executes slashed e r₀ as t ∧
    (t.cu.lines.map LineNumber.attributes =
        attributeRows { isStmt := b != 0 } (as.map Action.op) ↔
      ∀ a ∈ (attributeRows { isStmt := b != 0 } (as.map Action.op)).tail, flagged a = true) := by
  have hrun : (unitTrace slashed 40 flaggedRows).toOption.map (fun x => x.2.2.2.2.1) =
      some [.copy, .setBasicBlock, .setPrologueEnd, .setEpilogueBegin, .endSequence] := by
    decide +kernel
  cases hx : unitTrace slashed 40 flaggedRows with
  | error e =>
    rw [hx] at hrun
    cases hrun
  | ok x =>
    rw [hx] at hrun
    have hactions : x.2.2.2.2.1 = _ := Option.some.inj hrun
    have hsmall : ∀ a ∈ x.2.2.2.2.1, a.small = true := by
      rw [hactions]
      decide
    obtain ⟨hopen, hread, hb, hexec⟩ := of_unitTrace hx
    exact ⟨x.1, x.2.1, x.2.2.1, x.2.2.2.1, x.2.2.2.2.1, x.2.2.2.2.2, hopen, hread, hb, hexec,
      attributes_iff ⟨rfl, rfl, rfl⟩ hopen hread hb hsmall hexec⟩

-- Of the rows of copy and end_sequence the second should show none of the three flags.
theorem twoRows_flags : ∃ h e r₀ b as t, openUnit twoRows = .ok (h, e) ∧
    readHeader slashed h = .ok r₀ ∧ headerDefault h = .ok b ∧ (∀ a ∈ as, a.small = true) ∧
    Executes slashed e r₀ as t ∧ t.cu.lines.map LineNumber.attributes ≠
      attributeRows { isStmt := b != 0 } (as.map Action.op) := by
  have hrun : (unitTrace slashed 40 twoRows).toOption.map (fun x =>
      (x.2.2.2.1, x.2.2.2.2.1, x.2.2.2.2.2.cu.lines.map LineNumber.attributes)) =
      some (1, [.copy, .endSequence], [{ isStmt := true },
        { isStmt := true, basicBlock := true, prologueEnd := true, epilogueBegin := true }]) := by
    decide +kernel
  cases hx : unitTrace slashed 40 twoRows with
  | error e =>
    rw [hx] at hrun
    cases hrun
  | ok x =>
    rw [hx] at hrun
    have htriple := Option.some.inj hrun
    have hstmt : x.2.2.2.1 = 1 := congrArg (fun y => y.1) htriple
    have hactions : x.2.2.2.2.1 = [.copy, .endSequence] := congrArg (fun y => y.2.1) htriple
    have hrows : x.2.2.2.2.2.cu.lines.map LineNumber.attributes = _ :=
      congrArg (fun y => y.2.2) htriple
    have hsmall : ∀ a ∈ x.2.2.2.2.1, a.small = true := by
      rw [hactions]
      decide
    obtain ⟨hopen, hread, hb, hexec⟩ := of_unitTrace hx
    refine ⟨x.1, x.2.1, x.2.2.1, x.2.2.2.1, x.2.2.2.2.1, x.2.2.2.2.2, hopen, hread, hb, hsmall,
      hexec, ?_⟩
    rw [hrows, hstmt, hactions]
    decide

end Gelpp.Dwarf

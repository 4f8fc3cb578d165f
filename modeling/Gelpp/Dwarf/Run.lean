import Gelpp.Dwarf.Opcodes

namespace Gelpp.Dwarf

open Reader (Plain Outside)

structure Kept (s t : Reader) : Prop where
  buf : t.c.buf = s.c.buf
  strSect : t.dl.strSect.buf = s.dl.strSect.buf
  lineStrSect : t.dl.lineStrSect.buf = s.dl.lineStrSect.buf
  is64 : t.dl.is64 = s.dl.is64
  units : t.dl.units = s.dl.units
  header : t.sm.header = s.sm.header
  files : s.cu.files <+: t.cu.files
  lines : s.cu.lines <+: t.cu.lines

theorem Kept.refl (s : Reader) : Kept s s :=
  ⟨rfl, rfl, rfl, rfl, rfl, rfl, List.prefix_refl _, List.prefix_refl _⟩

theorem Kept.trans {s t u : Reader} (h : Kept s t) (h' : Kept t u) : Kept s u :=
  ⟨h'.buf.trans h.buf, h'.strSect.trans h.strSect, h'.lineStrSect.trans h.lineStrSect,
    h'.is64.trans h.is64, h'.units.trans h.units, h'.header.trans h.header, h.files.trans h'.files,
    h.lines.trans h'.lines⟩

theorem Kept.plain {s t : Reader} (h : Kept s t) (hs : s.Plain) : t.Plain :=
  ⟨by rw [h.buf, hs.c], by rw [h.strSect, hs.strSect], by rw [h.lineStrSect, hs.lineStrSect]⟩

theorem Performed.kept {s t : Reader} {a : Action} (h : Performed s a t) : Kept s t := by
  obtain ⟨rows, hrows, -⟩ := h.rows
  exact ⟨h.buf, h.strSect, h.lineStrSect, h.is64, h.units, h.header, h.files,
    hrows ▸ List.prefix_append _ _⟩

def FilesKnown (cu : CompilationUnit) : Prop := ∀ l ∈ cu.lines, l.file ∈ cu.files

theorem Performed.filesKnown {s t : Reader} {a : Action} (h : Performed s a t)
    (hs : FilesKnown s.cu) : FilesKnown t.cu := by
  obtain ⟨rows, hrows, -, hmem⟩ := h.rows
  intro l hl
  rw [hrows, List.mem_append] at hl
  rcases hl with hl | hl
  · exact h.files.subset (hs l hl)
  · exact h.files.subset (hmem l hl)

structure Landed (target : Option Nat) (s t : Reader) : Prop where
  cu : t.cu = s.cu
  sm : t.sm = s.sm
  dl : t.dl = s.dl
  buf : t.c.buf = s.c.buf
  off : t.c.off = s.c.off ∨ target = some t.c.off ∧ t.c.off ≤ s.c.buf.size

theorem land_meets {A : Stop → Prop} {target : Option Nat} {s : Reader}
    (hf : s.c.buf.fence = none) : Meets A (Landed target s) (land target s) := by
  cases target with
  | none => exact ⟨rfl, rfl, rfl, rfl, .inl rfl⟩
  | some o =>
    rw [land, Reader.moveTo]
    by_cases h : o ≤ s.c.buf.size
    · rw [Cursor.move_some hf h]
      exact ⟨rfl, rfl, rfl, rfl, .inr ⟨rfl, h⟩⟩
    · rw [Cursor.move_none hf (by omega)]
      exact ⟨rfl, rfl, rfl, rfl, .inl rfl⟩

structure Stepped (s : Reader) (d : Decoded) (t : Reader) : Prop extends Kept s t where
  decoded : decode s = .ok d
  off : s.c.off < t.c.off ∨ d.target = some t.c.off ∧ t.c.off ≤ s.c.buf.size
  ended : t.sm.endSequence = (d.action.ends || s.sm.endSequence)
  rows : ∃ rows : List LineNumber, t.cu.lines = s.cu.lines ++ rows ∧
    rows.length = d.action.records.toNat
  filesKnown : FilesKnown s.cu → FilesKnown t.cu

theorem kept_of_past {n : Nat} {s : Reader} {c : Cursor} (h : Cursor.Past n s.c c) :
    Kept s { s with c } :=
  ⟨h.buf, rfl, rfl, rfl, rfl, rfl, List.prefix_refl _, List.prefix_refl _⟩

theorem Landed.kept {target : Option Nat} {s t : Reader} (h : Landed target s t) : Kept s t :=
  ⟨h.buf, by rw [h.dl], by rw [h.dl], by rw [h.dl], by rw [h.dl], by rw [h.sm],
    by rw [h.cu], by rw [h.cu]⟩

section
variable {join : Path → Path → Path} {A : Stop → Prop}

theorem enact_meets {s : Reader} {d : Decoded} (hs : s.Plain) (hd : decode s = .ok d)
    (hA : Allowed A join { s with c := d.c } d.action) :
    Meets A (Stepped s d) (enact join s d) := by
  have hc := (decode_meets hs.c).of_ok hd
  have hk := kept_of_past hc
  refine (perform_meets hA).bind fun t ht => ?_
  have hkt := hk.trans ht.kept
  refine (land_meets (hkt.plain hs).c).post fun u hu => ?_
  obtain ⟨rows, hrows, hlen, -⟩ := ht.rows
  refine ⟨hkt.trans hu.kept, hd, ?_, by rw [hu.sm, ht.ended], ⟨rows, by rw [hu.cu, hrows], hlen⟩,
    fun h => hu.cu ▸ ht.filesKnown h⟩
  have h1 := hc.off
  have h2 := ht.off
  rcases hu.off with h | ⟨h, hle⟩
  · left
    dsimp only at h2
    omega
  · exact .inr ⟨h, by rwa [hkt.buf] at hle⟩

structure StepAllowed (A : Stop → Prop) (join : Path → Path → Path) (s : Reader) : Prop where
  decoding : Meets A (fun _ => True) (decode s)
  action : ∀ d, decode s = .ok d → Allowed A join { s with c := d.c } d.action

theorem step_meets {s : Reader} {endOffset : Nat} (hs : s.Plain) (hA : ∀ m, A (.exception m))
    (h : StepAllowed A join s) :
    Meets A (fun t => ∃ d, Stepped s d t) (step join endOffset s) := by
  rw [step_eq]
  refine Meets.ite (fun _ => hA _) fun _ => ?_
  refine h.decoding.exact_bind fun d hd _ => ?_
  exact (enact_meets hs hd (h.action d hd)).post fun t ht => ⟨d, ht⟩

end

structure Opened (s : Scan) (h : Reader) : Prop where
  past : Cursor.Past 4 s.c h.c
  sm : h.sm = {}
  cu : h.cu = {}
  units : h.dl.units = s.dl.units
  strSect : h.dl.strSect = s.dl.strSect
  lineStrSect : h.dl.lineStrSect = s.dl.lineStrSect

structure Scan.Plain (s : Scan) : Prop where
  c : s.c.buf.fence = none
  strSect : s.dl.strSect.buf.fence = none
  lineStrSect : s.dl.lineStrSect.buf.fence = none

theorem openUnit_meets {A : Stop → Prop} {s : Scan} (hs : s.Plain) (hA : ∀ m, A (.exception m)) :
    Meets A (fun r => Opened s r.1) (openUnit s) :=
  (readUnitLength_meets hA hs.c).bind fun _ hr => ⟨hr, rfl, rfl, rfl, rfl, rfl⟩

theorem Opened.plain {s : Scan} {h : Reader} (ho : Opened s h) (hs : s.Plain) : h.Plain :=
  ⟨by rw [ho.past.buf, hs.c], by rw [ho.strSect, hs.strSect], by rw [ho.lineStrSect, hs.lineStrSect]⟩

theorem closeUnit_meets {A : Stop → Prop} {endOffset : Nat} {s : Reader}
    (hf : s.c.buf.fence = none) : Meets A (fun t => t.c.buf = s.c.buf ∧ t.dl = addUnit s ∧
      (endOffset ≤ s.c.buf.size → t.c.off = endOffset) ∧
      (s.c.buf.size < endOffset → t.c = s.c)) (closeUnit endOffset s) := by
  rw [closeUnit]
  by_cases h : endOffset ≤ s.c.buf.size
  · rw [Cursor.move_some hf h]
    exact ⟨rfl, rfl, fun _ => rfl, fun h' => by omega⟩
  · rw [Cursor.move_none hf (by omega)]
    exact ⟨rfl, rfl, fun h' => by omega, fun _ => rfl⟩

section
variable (join : Path → Path → Path) (s₀ : Scan)

def UnitTurn (s t : Scan) : Prop := scanning s = true ∧ ∃ fuel, readCU join fuel s = .ok t

def UnitAt (s : Scan) : Prop := Relation.ReflTransGen (UnitTurn join) s₀ s

def HeaderAt (h : Reader) (endOffset : Nat) : Prop :=
  ∃ s, UnitAt join s₀ s ∧ scanning s = true ∧ openUnit s = .ok (h, endOffset)

def ProgramAt (r : Reader) (endOffset : Nat) : Prop :=
  ∃ h, HeaderAt join s₀ h endOffset ∧ readHeader join h = .ok r ∧ r.c.off < endOffset

def OpcodeAt (r : Reader) (endOffset : Nat) : Prop :=
  ∃ r₀, ProgramAt join s₀ r₀ endOffset ∧ Loop.Visits running (step join endOffset) r₀ r ∧
    running r = true

def RowAt (s : Reader) : Prop :=
  ∃ r e d, OpcodeAt join s₀ r e ∧ decode r = .ok d ∧ d.action.records = true ∧
    s = { r with c := d.c }

inductive TableAt : Reader → Prop
  | header {h : Reader} {e : Nat} {r : Reader × Nat} {t : Reader} (hh : HeaderAt join s₀ h e)
      (hr : headerStart h = .ok r) (ht : readBaseAndDir r.1 = .ok t) : TableAt t
  | defined {r : Reader} {e : Nat} {d : Decoded} (hr : OpcodeAt join s₀ r e)
      (hd : decode r = .ok d) (ha : d.action = .defineFile) : TableAt { r with c := d.c }

def EntryAt (f : FileState) : Prop :=
  ∃ t, TableAt join s₀ t ∧ t.sm.version < 5 ∧ EntryFrom join t f

variable {join s₀}

theorem unitAt_of_visits {fuel : Nat} {s : Scan}
    (h : Loop.Visits scanning (readCU join fuel) s₀ s) : UnitAt join s₀ s :=
  Relation.ReflTransGen.mono (fun _ _ hst => ⟨hst.1, fuel, hst.2⟩) _ _ h

-- No jump of an extended opcode goes back; the one of end_sequence may when the unit_length brings
-- the cursor to its place.
structure Forward (join : Path → Path → Path) (s₀ : Scan) : Prop where
  units : ∀ s h e, UnitAt join s₀ s → scanning s = true → openUnit s = .ok (h, e) →
    (e ≤ s.c.buf.size → s.c.off < e) ∧
    (s.c.buf.size < e → ∀ r, headerStart h = .ok r → r.2 ≤ s.c.buf.size → s.c.off < r.2)
  opcodes : ∀ r e d o, OpcodeAt join s₀ r e → decode r = .ok d → d.target = some o →
    o ≤ r.c.buf.size → r.c.off < o ∨ d.action = .endSequence ∧ e ≤ r.c.buf.size

def Onward (join : Path → Path → Path) (s₀ : Scan) : Prop :=
  ∀ r e d o, OpcodeAt join s₀ r e → decode r = .ok d → d.target = some o → o ≤ r.c.buf.size →
    r.c.off < o ∨ d.action = .endSequence

def Advances (join : Path → Path → Path) (s₀ : Scan) : Prop :=
  ∀ s t fuel, UnitAt join s₀ s → scanning s = true → readCU join fuel s = .ok t → s.c.off < t.c.off

theorem Forward.onward (hf : Forward join s₀) : Onward join s₀ :=
  fun r e d o hat hd ho hle => (hf.opcodes r e d o hat hd ho hle).imp id And.left

structure RunAllowed (A : Stop → Prop) (join : Path → Path → Path) (s₀ : Scan) : Prop where
  raised : ∀ m, A (.exception m)
  header : ∀ h e, HeaderAt join s₀ h e → h.Plain → Meets A (HeaderRead h) (readHeader join h)
  opcode : ∀ r e, OpcodeAt join s₀ r e → r.Plain → StepAllowed A join r

variable {A : Stop → Prop}

theorem stepped_forward {r t : Reader} {e : Nat} {d : Decoded} (hf : Forward join s₀)
    (hat : OpcodeAt join s₀ r e) (h : Stepped r d t) :
    r.c.off < t.c.off ∨ d.action = .endSequence ∧ e ≤ r.c.buf.size := by
  rcases h.off with hlt | ⟨htarget, hle⟩
  · exact .inl hlt
  · exact hf.opcodes r e d _ hat h.decoded htarget hle

theorem stepped_onward {r t : Reader} {e : Nat} {d : Decoded} (ho : Onward join s₀)
    (hat : OpcodeAt join s₀ r e) (h : Stepped r d t) (hm : running t = true) : r.c.off < t.c.off := by
  rcases h.off with hlt | ⟨htarget, hle⟩
  · exact hlt
  · refine (ho r e d _ hat h.decoded htarget hle).resolve_right fun ha => ?_
    have hended := h.ended
    rw [ha] at hended
    simp [running, hended, Action.ends] at hm

theorem runProgram_meets {fuel endOffset : Nat} {h r : Reader} (hA : RunAllowed A join s₀)
    (hn : A .steps ∨ Onward join s₀ ∧ r.c.buf.size < fuel)
    (hh : HeaderAt join s₀ h endOffset) (hr : readHeader join h = .ok r) (hp : r.Plain)
    (hk : FilesKnown r.cu) :
    Meets A (fun t => Kept r t ∧ FilesKnown t.cu ∧
      (Forward join s₀ → r.c.off ≤ t.c.off ∨ endOffset ≤ r.c.buf.size))
      (runProgram join fuel endOffset r) := by
  refine Meets.ite (fun hlt => ?_) fun _ => ⟨.refl r, hk, fun _ => .inl (Nat.le_refl _)⟩
  refine (Meets.run_or (fun t => Kept r t ∧ FilesKnown t.cu ∧
    (Forward join s₀ → r.c.off ≤ t.c.off ∨ endOffset ≤ r.c.buf.size))
    (fun t => r.c.buf.size - t.c.off) ?_ ⟨.refl r, hk, fun _ => .inl (Nat.le_refl _)⟩ ?_).post
    fun t ht => ht.1
  · rintro t hv hm ⟨hkt, hft, hoff⟩
    have hat : OpcodeAt join s₀ t endOffset := ⟨r, ⟨h, hh, hr, hlt⟩, hv, hm⟩
    refine (step_meets (hkt.plain hp) hA.raised (hA.opcode t _ hat (hkt.plain hp))).post ?_
    rintro u ⟨d, hu⟩
    refine ⟨⟨hkt.trans hu.toKept, hu.filesKnown hft, fun hf => ?_⟩, fun hmu => ?_⟩
    · rcases hoff hf with h1 | h1
      · rcases stepped_forward hf hat hu with h2 | ⟨-, h2⟩
        · exact .inl (by omega)
        · exact .inr (by rwa [hkt.buf] at h2)
      · exact .inr h1
    · refine hn.imp id fun ⟨ho, _⟩ => ?_
      have hle := u.c.off_le
      rw [hu.buf, hkt.buf] at hle
      have hlt := stepped_onward ho hat hu hmu
      omega
  · exact fun _ => hn.imp id fun h => by omega

structure UnitRead (s t : Scan) : Prop where
  buf : t.c.buf = s.c.buf
  strSect : t.dl.strSect.buf = s.dl.strSect.buf
  lineStrSect : t.dl.lineStrSect.buf = s.dl.lineStrSect.buf
  units : ∃ u, t.dl.units = s.dl.units ++ [u] ∧ FilesKnown u

theorem UnitRead.plain {s t : Scan} (h : UnitRead s t) (hs : s.Plain) : t.Plain :=
  ⟨by rw [h.buf, hs.c], by rw [h.strSect, hs.strSect], by rw [h.lineStrSect, hs.lineStrSect]⟩

theorem readCU_meets {fuel : Nat} {s : Scan} (hA : RunAllowed A join s₀)
    (hn : A .steps ∨ Onward join s₀ ∧ s.c.buf.size < fuel) (hat : UnitAt join s₀ s)
    (hs : s.Plain) (hm : scanning s = true) :
    Meets A (fun t => UnitRead s t ∧ (Forward join s₀ → s.c.off < t.c.off))
      (readCU join fuel s) := by
  refine (openUnit_meets hs hA.raised).exact_bind fun ⟨h, e⟩ hopen ho => ?_
  have hh : HeaderAt join s₀ h e := ⟨s, hat, hm, hopen⟩
  have hhp : h.Plain := ho.plain hs
  refine (hA.header h e hh hhp).exact_bind fun r hr hread => ?_
  have hrp : r.Plain := hread.plain hhp
  have hbuf : r.c.buf = s.c.buf := hread.buf.trans ho.past.buf
  have hk : FilesKnown r.cu := by
    intro l hl
    rw [hread.lines, ho.cu] at hl
    cases hl
  refine (runProgram_meets hA (by rwa [hbuf]) hh hr hrp hk).bind fun t ⟨hkt, hft, hoff⟩ => ?_
  refine (closeUnit_meets (hkt.plain hrp).c).post ?_
  rintro u ⟨hubuf, hdl, hin, hout⟩
  rw [hkt.buf, hbuf] at hin hout
  refine ⟨⟨by rw [hubuf, hkt.buf, hbuf], ?_, ?_, t.cu, ?_, hft⟩, fun hf => ?_⟩
  · rw [hdl]
    exact hkt.strSect.trans (hread.strSect.trans (congrArg Cursor.buf ho.strSect))
  · rw [hdl]
    exact hkt.lineStrSect.trans (hread.lineStrSect.trans (congrArg Cursor.buf ho.lineStrSect))
  · rw [hdl, addUnit, hkt.units, hread.units, ho.units]
  · obtain ⟨hinside, houtside⟩ := hf.units s h e hat hm hopen
    rcases Nat.lt_or_ge s.c.buf.size e with hlt | hle
    · obtain ⟨p, hp, htarget, hstay, -⟩ := hread.start
      rw [ho.past.buf] at htarget hstay
      have hstart : s.c.off + 4 ≤ h.c.off := ho.past.off
      have hlater : r.c.off ≤ t.c.off := (hoff hf).resolve_right (by rw [hbuf]; omega)
      rw [hout hlt]
      rcases Nat.lt_or_ge s.c.buf.size p.2 with hp2 | hp2
      · have := hstay hp2
        omega
      · have := htarget hp2
        have := houtside hlt p hp hp2
        omega
    · rw [hin hle]
      exact hinside hle

def Any (_ : Stop) : Prop := True

theorem Meets.any {α : Type} (x : Res α) : Meets Any (fun _ => True) x := by
  cases x <;> trivial

theorem stepAllowed_any {r : Reader} (hp : r.Plain) : StepAllowed Any join r := by
  refine ⟨(decode_meets hp.c).mono (fun _ _ => trivial) fun _ _ => trivial, fun d hd => ?_⟩
  have hdp : Plain { r with c := d.c } := (kept_of_past ((decode_meets hp.c).of_ok hd)).plain hp
  exact ⟨fun _ _ => trivial, fun _ _ => trivial, fun _ _ => trivial, fun _ _ _ => trivial,
    fun _ => (readFile_meets hdp).mono (fun _ _ => trivial) fun _ h => h⟩

theorem runAllowed_any : RunAllowed Any join s₀ where
  raised _ := trivial
  header _ _ _ hp := (readHeader_meets hp).mono (fun _ _ => trivial) fun _ h => h
  opcode _ _ _ hp := stepAllowed_any hp

theorem stepped_of_step {r t : Reader} {e : Nat} (hp : r.Plain) (h : step join e r = .ok t) :
    ∃ d, Stepped r d t :=
  (step_meets (A := Any) hp (fun _ => trivial) (stepAllowed_any hp)).of_ok h

theorem unitRead_of_readCU {fuel : Nat} {s t : Scan} (hat : UnitAt join s₀ s) (hs : s.Plain)
    (hm : scanning s = true) (h : readCU join fuel s = .ok t) :
    UnitRead s t ∧ (Forward join s₀ → s.c.off < t.c.off) :=
  (readCU_meets runAllowed_any (.inl trivial) hat hs hm).of_ok h

structure AllRead (s t : Scan) : Prop where
  buf : t.c.buf = s.c.buf
  plain : t.Plain
  units : ∀ u ∈ t.dl.units, u ∈ s.dl.units ∨ FilesKnown u

theorem readAll_meets {fuel : Nat} (hA : RunAllowed A join s₀)
    (hn : A .steps ∨ (Onward join s₀ ∧ Advances join s₀) ∧ s₀.c.buf.size < fuel) (hs : s₀.Plain) :
    Meets A (AllRead s₀) (readAll join fuel s₀) := by
  refine (Meets.run_or (AllRead s₀) (fun s => s₀.c.buf.size - s.c.off) ?_
    ⟨rfl, hs, fun u hu => .inl hu⟩ ?_).post fun t ht => ht.1
  · rintro s hv hm hs
    have hat := unitAt_of_visits hv
    refine (readCU_meets hA (hn.imp id fun h => ⟨h.1.1, by rw [hs.buf]; exact h.2⟩) hat hs.plain
      hm).exact_post ?_
    rintro t hread ⟨ht, -⟩
    obtain ⟨u, hunits, hu⟩ := ht.units
    refine ⟨⟨ht.buf.trans hs.buf, ht.plain hs.plain, fun v hv => ?_⟩, fun hmt => ?_⟩
    · rw [hunits, List.mem_append, List.mem_singleton] at hv
      rcases hv with hv | rfl
      · exact hs.units v hv
      · exact .inr hu
    · refine hn.imp id fun ⟨h, _⟩ => ?_
      have := h.2 s t fuel hat hm hread
      have hle := t.c.off_le
      rw [ht.buf, hs.buf] at hle
      omega
  · exact fun _ => hn.imp id fun h => by omega

theorem UnitAt.plain {s : Scan} (h : UnitAt join s₀ s) (hs : s₀.Plain) : s.Plain := by
  induction h with
  | refl => exact hs
  | tail hat hst ih =>
    obtain ⟨hm, fuel, hfuel⟩ := hst
    exact (unitRead_of_readCU hat ih hm hfuel).1.plain ih

theorem Forward.advances (hf : Forward join s₀) (hs : s₀.Plain) : Advances join s₀ :=
  fun _ _ _ hat hm h => (unitRead_of_readCU hat (hat.plain hs) hm h).2 hf

theorem HeaderAt.plain {h : Reader} {e : Nat} (hh : HeaderAt join s₀ h e) (hs : s₀.Plain) :
    h.Plain := by
  obtain ⟨s, hat, -, hopen⟩ := hh
  have hsp := hat.plain hs
  exact ((openUnit_meets (A := Any) hsp fun _ => trivial).of_ok hopen).plain hsp

theorem OpcodeAt.plain {r : Reader} {e : Nat} (hr : OpcodeAt join s₀ r e) (hs : s₀.Plain) :
    r.Plain := by
  obtain ⟨r₀, ⟨h, hh, hread, hlt⟩, hv, -⟩ := hr
  have hp := hh.plain hs
  have hp₀ : r₀.Plain := ((readHeader_meets hp).of_ok hread).plain hp
  induction hv with
  | refl => exact hp₀
  | tail hv hst ih =>
    obtain ⟨d, hd⟩ := stepped_of_step ih hst.2
    exact hd.toKept.plain ih

theorem runProgram_mono {n k endOffset : Nat} {r : Reader} (hk : n ≤ k)
    (h : runProgram join n endOffset r ≠ .error .steps) :
    runProgram join k endOffset r = runProgram join n endOffset r := by
  unfold runProgram at h ⊢
  split
  · next hlt =>
    rw [if_pos hlt] at h
    exact Loop.run_mono hk h
  · rfl

theorem readCU_mono {n k : Nat} {s : Scan} (hk : n ≤ k) (h : readCU join n s ≠ .error .steps) :
    readCU join k s = readCU join n s := by
  unfold readCU at h ⊢
  cases hopen : openUnit s with
  | error e => rfl
  | ok v =>
    cases hr : readHeader join v.1 with
    | error e => simp only [Res.ok_bind, hr, Res.error_bind]
    | ok r =>
      simp only [hopen, Res.ok_bind, hr] at h ⊢
      rw [runProgram_mono hk]
      intro he
      rw [he] at h
      exact h rfl

theorem readCU_same {n k : Nat} {s : Scan} (hn : readCU join n s ≠ .error .steps)
    (hk : readCU join k s ≠ .error .steps) : readCU join k s = readCU join n s := by
  rcases Nat.le_total n k with h | h
  · exact readCU_mono h hn
  · exact (readCU_mono h hk).symm

theorem readCU_agree {n k : Nat} {s t : Scan} (hn : readCU join n s = .ok t)
    (hk : readCU join k s ≠ .error .steps) : readCU join k s = .ok t := by
  have hn' : readCU join n s ≠ .error .steps := by
    rw [hn]
    exact fun h => by cases h
  rw [readCU_same hn' hk, hn]

end

section
variable (join : Path → Path → Path)

structure Checks where
  unit : Scan → Bool
  header : Reader → Nat → Bool
  opcode : Reader → Nat → Bool

def Checks.atUnit (k : Checks) (fuel : Nat) (s : Scan) : Bool :=
  k.unit s && decide (Res.stop (readCU join fuel s) ≠ some .steps) &&
    match openUnit s with
    | .error _ => true
    | .ok (h, e) => k.header h e && match readHeader join h with
      | .error _ => true
      | .ok r => !decide (r.c.off < e) || Loop.every running (step join e) (k.opcode · e) fuel r

def Checks.passed (k : Checks) (fuel : Nat) (s₀ : Scan) : Bool :=
  Loop.every scanning (readCU join fuel) (k.atUnit join fuel) fuel s₀

variable {join} {k : Checks} {fuel : Nat} {s₀ : Scan}

theorem Checks.visits (h : k.passed join fuel s₀ = true) {s : Scan} (hs : UnitAt join s₀ s) :
    Loop.Visits scanning (readCU join fuel) s₀ s := by
  induction hs with
  | refl => exact .refl
  | tail _ hst ih =>
    obtain ⟨hm, n, hn⟩ := hst
    have hunit := Loop.of_every h ih hm
    simp only [Checks.atUnit, Bool.and_eq_true, decide_eq_true_eq] at hunit
    refine ih.tail ⟨hm, readCU_agree hn fun he => hunit.1.2 ?_⟩
    rw [he]
    rfl

theorem Checks.of_unit (h : k.passed join fuel s₀ = true) {s : Scan} (hs : UnitAt join s₀ s)
    (hm : scanning s = true) : k.atUnit join fuel s = true :=
  Loop.of_every h (Checks.visits h hs) hm

theorem Checks.of_header (h : k.passed join fuel s₀ = true) {r : Reader} {e : Nat}
    (hr : HeaderAt join s₀ r e) : k.header r e = true := by
  obtain ⟨s, hs, hm, hopen⟩ := hr
  have hunit := Checks.of_unit h hs hm
  simp only [Checks.atUnit, hopen, Bool.and_eq_true] at hunit
  exact hunit.2.1

theorem Checks.of_opcode (h : k.passed join fuel s₀ = true) {r : Reader} {e : Nat}
    (hr : OpcodeAt join s₀ r e) : k.opcode r e = true := by
  obtain ⟨r₀, ⟨t, ⟨s, hs, hm, hopen⟩, hread, hlt⟩, hv, hrun⟩ := hr
  have hunit := Checks.of_unit h hs hm
  simp only [Checks.atUnit, hopen, hread, hlt, decide_true, Bool.not_true, Bool.false_or,
    Bool.and_eq_true] at hunit
  exact Loop.of_every (p := (k.opcode · e)) hunit.2.2 hv hrun

end

end Gelpp.Dwarf

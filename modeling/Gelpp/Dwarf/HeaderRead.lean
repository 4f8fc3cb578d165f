import Gelpp.Dwarf.Tables

namespace Gelpp.Dwarf

open Cursor (Past)
open Reader (Plain Filed Headed Outside filed_of_past)

theorem headed_of_past {n : Nat} {s : Reader} {d : Cursor} {sm : StateMachine}
    (h : Past n s.c d) (hr : sm.registers = s.sm.registers)
    (hf : sm.flags = s.sm.flags) : Headed n s { s with c := d, sm } :=
  ⟨⟨h.buf, rfl, rfl, rfl, rfl, rfl, List.prefix_refl _⟩, h.off, hr, hf⟩

theorem readVersion_meets {A : Stop → Prop} {s : Reader} (hA : ∀ m, A (.exception m))
    (hs : s.Plain) : Meets A (Headed 2 s) (readVersion s) := by
  unfold readVersion
  rw [← bind_assoc]
  refine (Cursor.readOrRaise_meets hA hs.c (by omega)).bind fun ⟨version, c⟩ hc => ?_
  have hv : Headed 2 s { s with c, sm.version := version } := headed_of_past hc rfl rfl
  dsimp only
  split
  · exact hA _
  split
  · refine (Reader.keep_meets (hv.plain hs) (by omega) (fun _ => rfl) fun _ => rfl).bind
      fun t ht => ?_
    have hst := hv.trans ht
    refine (Reader.keep_meets (hst.plain hs) (by omega) (fun _ => rfl) fun _ => rfl).post
      fun u hu => ?_
    exact (hst.trans hu).weaken (by omega)
  · exact hv

theorem readMaximumOperations_meets {A : Stop → Prop} {s : Reader} (hs : s.Plain) :
    Meets A (Headed 0 s) (readMaximumOperations s) := by
  unfold readMaximumOperations
  split
  · exact Reader.keep_meets hs (by omega) (fun _ => rfl) fun _ => rfl
  · exact headed_of_past (.refl s.c) rfl rfl

def defaultIsStmt (s : Reader) : Res UInt8 := do
  let s ← s.keep Cursor.readU8 (fun v sm => { sm with minimumInstructionLength := v })
  let s ← readMaximumOperations s
  match ← s.c.readU8 with
  | none => .error (.fault .unset)
  | some (b, _) => return b

def stmtFlags (b flags : UInt8) : UInt8 := if b = 0 then flags else flags ||| isStmt

theorem readDefaultIsStmt_meets {s : Reader} (hs : s.Plain) :
    Meets Tame (fun t => (Outside s t ∧ s.c.off + 1 ≤ t.c.off) ∧
      t.sm.registers = s.sm.registers ∧ ∃ b c, s.c.readU8 = .ok (some (b, c)) ∧
        t.sm.flags = stmtFlags b s.sm.flags) (readDefaultIsStmt s) := by
  unfold readDefaultIsStmt
  refine (Cursor.read_meets hs.c (by omega)).exact_bind fun o hread ho => ?_
  cases o with
  | none => exact fun h => by cases h
  | some r =>
    have hr := ho r.1 r.2 rfl
    have hout : Outside s { s with c := r.2 } := (filed_of_past hr).toOutside
    dsimp only
    split
    · next h0 =>
      exact ⟨⟨hout, hr.off⟩, rfl, r.1, r.2, hread, by rw [stmtFlags, if_pos h0]⟩
    · next h0 =>
      exact ⟨⟨⟨hr.buf, rfl, rfl, rfl, rfl, rfl, List.prefix_refl _⟩, hr.off⟩, rfl, r.1, r.2, hread, by
        rw [stmtFlags, if_neg h0]; rfl⟩

structure Based (n : Nat) (s t : Reader) : Prop extends Outside s t where
  off : s.c.off + n ≤ t.c.off
  registers : t.sm.registers = s.sm.registers
  stmt : ∃ b, defaultIsStmt s = .ok b ∧ t.sm.flags = stmtFlags b s.sm.flags

theorem Based.headed {m n : Nat} {s t u : Reader} (h : Based m s t) (h' : Headed n t u) :
    Based m s u := by
  obtain ⟨b, hb, hflags⟩ := h.stmt
  have hoff := h.off
  have hoff' := h'.off
  exact ⟨h.toOutside.trans h'.toOutside, by omega, h'.registers.trans h.registers, b, hb,
    h'.flags.trans hflags⟩

theorem readBase_meets {s : Reader} (hs : s.Plain) : Meets Tame (Based 1 s) (readBase s) := by
  refine (Reader.keep_meets hs (by omega) (fun _ => rfl) fun _ => rfl).exact_bind
    fun t1 hr1 h1 => ?_
  refine (readMaximumOperations_meets (h1.plain hs)).exact_bind fun t2 hr2 h2 => ?_
  have h12 := h1.trans h2
  refine (readDefaultIsStmt_meets (h12.plain hs)).bind fun t3 h3 => ?_
  obtain ⟨⟨hout, hoff⟩, hreg, b, c, hread, hflags⟩ := h3
  have hoff12 := h12.off
  have h13 : Based 1 s t3 := by
    refine ⟨h12.toOutside.trans hout, by omega, hreg.trans h12.registers, b, ?_, ?_⟩
    · change Reader.keep (Cursor.read 1 Buffer.getU8) _ s >>= _ = _
      rw [hr1, Res.ok_bind, hr2, Res.ok_bind, hread]
      rfl
    · rw [hflags, h12.flags]
  refine (Reader.keep_meets (h13.plain hs) (by omega) (fun _ => rfl) fun _ => rfl).bind
    fun t4 h4 => ?_
  have h14 := h13.headed h4
  refine (Reader.keep_meets (h14.plain hs) (by omega) (fun _ => rfl) fun _ => rfl).bind
    fun t5 h5 => ?_
  have h15 := h14.headed h5
  exact (Reader.keep_meets (h15.plain hs) (by omega) (fun _ => rfl) fun _ => rfl).post
    fun t6 h6 => h15.headed h6

-- With opcode_base = 0 the cursor steps one byte back.
theorem skipOpcodes_meets {A : Stop → Prop} {c : Cursor} {b : UInt8} (hf : c.buf.fence = none) :
    Meets A (fun o => ∀ d, o = some d → d.buf = c.buf ∧ c.off ≤ d.off + 1)
      (c.skip (opcodeCount b)) := by
  refine (Cursor.skip_meets hf).post fun o ho d hd => ?_
  obtain ⟨hbuf, hoff⟩ := ho d hd
  have hle := c.off_le
  have hlt := c.size_lt
  have hb := b.toNat_lt
  have hle' := d.off_le
  refine ⟨hbuf, ?_⟩
  rw [hbuf] at hle'
  unfold opcodeCount at hoff
  omega

theorem here_meets {c : Cursor} (hf : c.buf.fence = none) :
    Meets Tame (fun p => p = c.off ∧ c.off < c.buf.size) c.here := by
  rw [Cursor.here, Buffer.demand_unfenced hf, Res.ok_bind]
  split
  · next h => exact ⟨rfl, h⟩
  · exact fun h => by cases h

theorem readOpcodeLengths_meets {s : Reader} (hs : s.Plain) :
    Meets Tame (fun t => Outside s t ∧ t.sm.registers = s.sm.registers ∧
      t.sm.flags = s.sm.flags ∧ s.c.off ≤ t.c.off + 1) (readOpcodeLengths s) := by
  refine (skipOpcodes_meets hs.c).bind fun o ho => ?_
  cases o with
  | none => trivial
  | some d =>
    obtain ⟨hbuf, hoff⟩ := ho d rfl
    refine (here_meets hs.c).bind fun p _ => ?_
    exact ⟨⟨hbuf, rfl, rfl, rfl, rfl, rfl, List.prefix_refl _⟩, rfl, rfl, hoff⟩

theorem readBaseAndDir_meets {s : Reader} (hs : s.Plain) :
    Meets Tame (Based 0 s) (readBaseAndDir s) := by
  refine (readBase_meets hs).bind fun t1 h1 => ?_
  refine (readOpcodeLengths_meets (h1.plain hs)).bind fun t2 h2 => ?_
  obtain ⟨hout, hreg, hfl, hoff⟩ := h2
  obtain ⟨b, hb, hflags⟩ := h1.stmt
  have hoff1 := h1.off
  have h12 : Based 0 s t2 :=
    ⟨h1.toOutside.trans hout, by omega, hreg.trans h1.registers, b, hb, hfl.trans hflags⟩
  exact (readDir_meets (h12.plain hs)).post fun t3 h3 => h12.headed h3

section
variable {join : Path → Path → Path}

theorem readTables_meets {s : Reader} (hs : s.Plain) :
    Meets (Guarded (∀ u, readBaseAndDir s = .ok u → FilesOk join u)) (Based 0 s)
      (readTables join s) := by
  refine ((readBaseAndDir_meets hs).mono (fun _ he => .inl he) fun _ h => h).exact_bind
    fun u hu h => ?_
  refine (readFile_meets (h.plain hs)).mono (fun e he => he.mono fun ok => ok u hu) fun t ht => ?_
  exact h.headed ht.headed

def headerStart (h : Reader) : Res (Reader × Nat) := do
  let s ← readVersion h
  let (headerLength, c) ← readHeaderLength s.dl.is64 s.c
  return ({ s with c }, (c.off + headerLength.toNat) % 2 ^ 64)

theorem readHeader_eq (h : Reader) :
    readHeader join h = headerStart h >>= fun r => readTables join r.1 >>= fun t => t.moveTo r.2 := by
  simp only [readHeader, headerStart, bind_assoc]
  congr 1

theorem headerStart_meets {h : Reader} (hs : h.Plain) :
    Meets Tame (fun r => Headed 6 h r.1) (headerStart h) := by
  refine (readVersion_meets tame_exception hs).bind fun s h1 => ?_
  refine (readHeaderLength_meets (h1.plain hs).c).bind fun r h2 => ?_
  exact h1.trans (filed_of_past h2).headed

def HeaderFilesOk (join : Path → Path → Path) (h : Reader) : Prop :=
  ∀ r u, headerStart h = .ok r → readBaseAndDir r.1 = .ok u → FilesOk join u

structure HeaderRead (h t : Reader) : Prop extends Outside h t where
  registers : t.sm.registers = h.sm.registers
  start : ∃ r, headerStart h = .ok r ∧ (r.2 ≤ h.c.buf.size → t.c.off = r.2) ∧
    (h.c.buf.size < r.2 → h.c.off + 6 ≤ t.c.off) ∧
    ∃ b, defaultIsStmt r.1 = .ok b ∧ t.sm.flags = stmtFlags b h.sm.flags

theorem readHeader_meets {h : Reader} (hs : h.Plain) :
    Meets (Guarded (HeaderFilesOk join h)) (HeaderRead h) (readHeader join h) := by
  rw [readHeader_eq]
  refine ((headerStart_meets hs).mono (fun _ he => .inl he) fun _ h => h).exact_bind
    fun r hr h1 => ?_
  refine ((readTables_meets (h1.plain hs)).mono
    (fun _ he => he.mono fun ok u hu => ok r u hr hu) fun _ h => h).bind fun t h2 => ?_
  have hout := h1.toOutside.trans h2.toOutside
  refine (Reader.moveTo_meets (hout.plain hs)).post fun u hu => ?_
  obtain ⟨hin, hafter, hkept, hsm⟩ := hu
  obtain ⟨b, hb, hflags⟩ := h2.stmt
  have hoff1 := h1.off
  have hoff2 := h2.off
  rw [hout.buf] at hin hafter
  refine ⟨hout.trans hkept, by rw [hsm, h2.registers, h1.registers], r, hr, hin, fun hlt => ?_, b, hb,
    by rw [hsm, hflags, h1.flags]⟩
  rw [hafter hlt]
  omega

end

end Gelpp.Dwarf

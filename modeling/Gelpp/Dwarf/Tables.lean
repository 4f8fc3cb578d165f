import Gelpp.Dwarf.Reading

namespace Gelpp.Dwarf

open Cursor (Past)

def StateMachine.registers (sm : StateMachine) :
    UInt64 × UInt32 × UInt32 × UInt32 × UInt32 × UInt32 × UInt32 × Bool :=
  (sm.address, sm.opIndex, sm.file, sm.line, sm.column, sm.isa, sm.discriminator, sm.endSequence)

namespace Reader

structure Plain (s : Reader) : Prop where
  c : s.c.buf.fence = none
  strSect : s.dl.strSect.buf.fence = none
  lineStrSect : s.dl.lineStrSect.buf.fence = none

structure Outside (s t : Reader) : Prop where
  buf : t.c.buf = s.c.buf
  strSect : t.dl.strSect.buf = s.dl.strSect.buf
  lineStrSect : t.dl.lineStrSect.buf = s.dl.lineStrSect.buf
  is64 : t.dl.is64 = s.dl.is64
  units : t.dl.units = s.dl.units
  lines : t.cu.lines = s.cu.lines
  files : s.cu.files <+: t.cu.files

theorem Outside.refl (s : Reader) : Outside s s :=
  ⟨rfl, rfl, rfl, rfl, rfl, rfl, List.prefix_refl _⟩

theorem Outside.trans {s t u : Reader} (h : Outside s t) (h' : Outside t u) : Outside s u :=
  ⟨h'.buf.trans h.buf, h'.strSect.trans h.strSect, h'.lineStrSect.trans h.lineStrSect,
    h'.is64.trans h.is64, h'.units.trans h.units, h'.lines.trans h.lines, h.files.trans h'.files⟩

theorem Outside.plain {s t : Reader} (h : Outside s t) (hs : s.Plain) : t.Plain :=
  ⟨by rw [h.buf, hs.c], by rw [h.strSect, hs.strSect], by rw [h.lineStrSect, hs.lineStrSect]⟩

structure Filed (n : Nat) (s t : Reader) : Prop extends Outside s t where
  off : s.c.off + n ≤ t.c.off
  sm : t.sm = s.sm

structure Headed (n : Nat) (s t : Reader) : Prop extends Outside s t where
  off : s.c.off + n ≤ t.c.off
  registers : t.sm.registers = s.sm.registers
  flags : t.sm.flags = s.sm.flags

theorem Filed.refl (s : Reader) : Filed 0 s s := ⟨.refl s, Nat.le_refl _, rfl⟩

theorem Filed.trans {m n : Nat} {s t u : Reader} (h : Filed m s t) (h' : Filed n t u) :
    Filed (m + n) s u :=
  ⟨h.toOutside.trans h'.toOutside, by
    have := h.off
    have := h'.off
    omega, h'.sm.trans h.sm⟩

theorem Filed.weaken {m n : Nat} {s t : Reader} (h : Filed m s t) (hn : n ≤ m) : Filed n s t :=
  ⟨h.toOutside, by
    have := h.off
    omega, h.sm⟩

theorem Filed.headed {n : Nat} {s t : Reader} (h : Filed n s t) : Headed n s t :=
  ⟨h.toOutside, h.off, by rw [h.sm], by rw [h.sm]⟩

theorem Headed.refl (s : Reader) : Headed 0 s s := (Filed.refl s).headed

theorem Headed.trans {m n : Nat} {s t u : Reader} (h : Headed m s t) (h' : Headed n t u) :
    Headed (m + n) s u :=
  ⟨h.toOutside.trans h'.toOutside, by
    have := h.off
    have := h'.off
    omega, h'.registers.trans h.registers, h'.flags.trans h.flags⟩

theorem Headed.weaken {m n : Nat} {s t : Reader} (h : Headed m s t) (hn : n ≤ m) :
    Headed n s t :=
  ⟨h.toOutside, by
    have := h.off
    omega, h.registers, h.flags⟩

theorem filed_of_past {n : Nat} {s : Reader} {d : Cursor} (h : Past n s.c d) :
    Filed n s { s with c := d } :=
  ⟨⟨h.buf, rfl, rfl, rfl, rfl, rfl, List.prefix_refl _⟩, h.off, rfl⟩

theorem filed_intern (s : Reader) (path : Path) (date size : UInt64) :
    Filed 0 s (s.intern path date size) :=
  ⟨⟨rfl, rfl, rfl, rfl, rfl, rfl, List.prefix_append _ _⟩, Nat.le_refl _, rfl⟩

theorem keep_meets {A : Stop → Prop} {α : Type} {n : Nat} {get : Buffer → Nat → α}
    {put : α → StateMachine → StateMachine} {s : Reader} (hs : s.Plain) (hn : n < 2 ^ 63)
    (hr : ∀ v, (put v s.sm).registers = s.sm.registers)
    (hfl : ∀ v, (put v s.sm).flags = s.sm.flags) :
    Meets A (Headed 0 s) (s.keep (Cursor.read n get) put) := by
  refine (Cursor.read_meets hs.c hn).bind fun o ho => ?_
  cases o with
  | none => exact .refl s
  | some r =>
    have hpast := ho r.1 r.2 rfl
    exact ⟨⟨hpast.buf, rfl, rfl, rfl, rfl, rfl, List.prefix_refl _⟩, (hpast.weaken (Nat.zero_le n)).off,
      hr r.1, hfl r.1⟩

theorem moveTo_meets {A : Stop → Prop} {s : Reader} {o : Nat} (hs : s.Plain) :
    Meets A (fun t => (o ≤ s.c.buf.size → t.c.off = o) ∧ (s.c.buf.size < o → t = s) ∧
      Outside s t ∧ t.sm = s.sm) (s.moveTo o) := by
  rw [moveTo]
  by_cases h : o ≤ s.c.buf.size
  · rw [Cursor.move_some hs.c h]
    exact ⟨fun _ => rfl, fun h' => by omega, ⟨rfl, rfl, rfl, rfl, rfl, rfl, List.prefix_refl _⟩, rfl⟩
  · rw [Cursor.move_none hs.c (by omega)]
    exact ⟨fun h' => by omega, fun _ => rfl, .refl s, rfl⟩

end Reader

open Reader (Plain Filed Headed Outside filed_of_past filed_intern)

theorem textOf_meets (d : CString) : Meets Tame (fun _ => True) (textOf d) := by
  cases d with
  | text chars => trivial
  | wild => exact fun h => by cases h

theorem readName_meets {A : Stop → Prop} {c : Cursor} (hA : ∀ m, A (.exception m))
    (hf : c.buf.fence = none) : Meets A (fun r => Past 1 c r.2) (readName c) := by
  refine (Cursor.readCString_meets hf).bind fun r hr => ?_
  cases r with
  | absent => exact hA _
  | unterminated d => exact hA _
  | found chars d => exact hr

theorem readInto_meets {A : Stop → Prop} {c : Cursor} {old : CString} (hf : c.buf.fence = none) :
    Meets A (fun r => Past 0 c r.2) (readInto c old) := by
  refine (Cursor.readCString_meets hf).bind fun r hr => ?_
  cases r with
  | absent => exact .refl c
  | unterminated d => exact hr
  | found chars d => exact hr.weaken (by omega)

theorem readSect_meets {A : Stop → Prop} {c : Cursor} {offset : UInt64} {old : CString}
    (hf : c.buf.fence = none) : Meets A (fun r => r.2.buf = c.buf) (readSect c offset old) := by
  unfold readSect
  by_cases h : offset.toNat ≤ c.buf.size
  · rw [Cursor.move_some hf h, Res.ok_bind]
    exact (readInto_meets (c := { c with off := offset.toNat, off_le := h }) hf).post
      fun r hr => hr.buf
  · rw [Cursor.move_none hf (by omega), Res.ok_bind]
    exact (readInto_meets hf).post fun r hr => hr.buf

theorem readPath_meets {A : Stop → Prop} {message : String} {form : UInt64} {old : CString}
    {s : Reader} (hA : ∀ m, A (.exception m)) (hs : s.Plain) :
    Meets A (fun r => Filed 0 s r.2) (readPath message form old s) := by
  unfold readPath
  split
  · exact (readInto_meets hs.c).bind fun r hr => filed_of_past hr
  split
  · refine (readAddress_meets hA hs.c).bind fun a ha => ?_
    refine (readSect_meets hs.lineStrSect).bind fun r hr => ?_
    have hfiled := filed_of_past ha
    exact ⟨⟨ha.buf, rfl, hr, rfl, rfl, rfl, List.prefix_refl _⟩, by have := ha.off; dsimp only; omega,
      rfl⟩
  split
  · refine (readAddress_meets hA hs.c).bind fun a ha => ?_
    refine (readSect_meets hs.strSect).bind fun r hr => ?_
    exact ⟨⟨ha.buf, hr, rfl, rfl, rfl, rfl, List.prefix_refl _⟩, by have := ha.off; dsimp only; omega,
      rfl⟩
  · exact hA _

theorem readFormat_meets {c : Cursor} (hf : c.buf.fence = none)
    {f : List (UInt64 × UInt64) × Cursor} (h : Past 0 c f.2) :
    Meets Tame (fun r => Past 0 c r.2) (readFormat f) := by
  have hff : f.2.buf.fence = none := by rw [h.buf, hf]
  refine (readLEB128U_meets hff).bind fun t ht => ?_
  have htf : t.2.buf.fence = none := by rw [ht.buf, hff]
  refine (readLEB128U_meets htf).bind fun u hu => ?_
  exact ((h.trans ht).trans hu).weaken (by omega)

theorem readFormats_meets {n : Nat} {c : Cursor} (hf : c.buf.fence = none) :
    Meets Tame (fun r => Past 0 c r.2) (Loop.times readFormat n ([], c)) :=
  Meets.times (fun r : List (UInt64 × UInt64) × Cursor => Past 0 c r.2)
    (fun _ h => readFormat_meets hf h) (.refl c)

theorem addDirectory_meets {A : Stop → Prop} {sm : StateMachine} {dir : CString}
    (hroom : ¬ sm.includeDirectories.length + 1 < 2 ^ 31 → A (.fault .overflow)) :
    Meets A (fun t => t = { sm with includeDirectories := sm.includeDirectories ++ [dir] })
      (addDirectory sm dir) :=
  Meets.ite (fun _ => rfl) hroom

theorem addDirectory_tame (sm : StateMachine) (dir : CString) :
    Meets Tame (fun t => t = { sm with includeDirectories := sm.includeDirectories ++ [dir] })
      (addDirectory sm dir) :=
  addDirectory_meets fun _ h => by cases h

theorem headed_directories {n : Nat} {s t : Reader} (h : Headed n s t) (dirs : List CString) :
    Headed n s { t with sm.includeDirectories := dirs } :=
  ⟨⟨h.buf, h.strSect, h.lineStrSect, h.is64, h.units, h.lines, h.files⟩, h.off, h.registers,
    h.flags⟩

theorem readDirBody_meets {d : DirState} (hs : d.s.Plain) :
    Meets Tame (fun e => Headed 1 d.s e.s) (readDirBody d) := by
  refine (readName_meets tame_exception hs.c).bind fun r hr => ?_
  dsimp only
  split
  · exact (filed_of_past hr).headed
  · refine (addDirectory_tame d.s.sm (.text r.1)).bind ?_
    rintro sm rfl
    exact headed_directories (filed_of_past hr).headed _

theorem readDir4_meets {s : Reader} (hs : s.Plain) :
    Meets Tame (Headed 0 s) (readDir4 s) := by
  refine (Meets.run (fun d : DirState => Headed 0 s d.s) (fun d => d.s.c.buf.size - d.s.c.off)
    ?_ (.refl s) fun _ => Nat.lt_succ_self _).bind fun d hd => hd.1
  rintro d - - hd
  refine (readDirBody_meets (hd.plain hs)).post fun e he => ?_
  have hlt := e.s.c.off_le
  have hoff := he.off
  refine ⟨(hd.trans he).weaken (by omega), fun _ => ?_⟩
  rw [he.buf] at hlt ⊢
  omega

theorem readDirField_meets {A : Stop → Prop} {s : Reader} (hA : ∀ m, A (.exception m))
    (hs : s.Plain) (d : CString × Reader) (format : UInt64 × UInt64) (hd : Filed 0 s d.2) :
    Meets A (fun r => Filed 0 s r.2) (readDirField d format) := by
  unfold readDirField
  split
  · exact (readPath_meets hA (hd.plain hs)).post fun r hr => (hd.trans hr).weaken (by omega)
  · exact hA _

theorem readDirEntry5_meets {formats : List (UInt64 × UInt64)} {s t : Reader} (hs : s.Plain)
    (h : Headed 0 s t) : Meets Tame (Headed 0 s) (readDirEntry5 formats t) := by
  refine (Meets.foldlM (fun r : CString × Reader => Filed 0 t r.2)
    (readDirField_meets tame_exception (h.plain hs)) (.refl t)).bind fun r hr => ?_
  refine (addDirectory_tame r.2.sm r.1).bind ?_
  rintro sm rfl
  exact headed_directories ((h.trans hr.headed).weaken (by omega)) _

theorem readDir5_meets {s : Reader} (hs : s.Plain) :
    Meets Tame (Headed 0 s) (readDir5 s) := by
  refine (Cursor.read_meets hs.c (by omega)).bind fun o ho => ?_
  cases o with
  | none => exact fun h => by cases h
  | some r =>
    have hr := ho r.1 r.2 rfl
    dsimp only
    split
    · trivial
    split
    · trivial
    have hrf : r.2.buf.fence = none := by rw [hr.buf, hs.c]
    refine (readFormats_meets hrf).bind fun f hf => ?_
    have hff : f.2.buf.fence = none := by rw [hf.buf, hrf]
    refine (readLEB128U_meets hff).bind fun t ht => ?_
    have hpast : Past 0 s.c t.2 := ((hr.trans hf).trans ht).weaken (by omega)
    exact Meets.times (Headed 0 s) (fun _ h => readDirEntry5_meets hs h)
      (filed_of_past hpast).headed

theorem readDir_meets {s : Reader} (hs : s.Plain) : Meets Tame (Headed 0 s) (readDir s) := by
  unfold readDir
  split
  · exact readDir4_meets hs
  · exact readDir5_meets hs

def Guarded (p : Prop) (e : Stop) : Prop := Tame e ∨ e = .fault .index ∧ ¬ p

theorem Guarded.orderly {p : Prop} {e : Stop} (h : Guarded p e) : Orderly e := by
  rcases h with h | ⟨rfl, -⟩
  · exact h.orderly
  · trivial

theorem Guarded.tame {p : Prop} {e : Stop} (h : Guarded p e) (hp : p) : Tame e := by
  rcases h with h | ⟨-, hn⟩
  · exact h
  · exact absurd hp hn

theorem Guarded.mono {p q : Prop} {e : Stop} (h : Guarded p e) (hpq : q → p) : Guarded q e :=
  h.imp id fun ⟨he, hn⟩ => ⟨he, fun hq => hn (hpq hq)⟩

def DirectoryOk (f : FileState) : Prop :=
  ∀ dir c, readLEB128U f.s.c = .ok (dir, c) →
    dir.toNat < f.s.sm.includeDirectories.length ∧ dir.toNat < 2 ^ 31

theorem vectorAt_of_lt {α : Type} {l : List α} {n : Nat} (h : n < l.length) :
    vectorAt l n = .ok l[n] := by
  simp [vectorAt, h]

theorem vectorAt_error {α : Type} {l : List α} {i : Int} {e : Stop} (h : vectorAt l i = .error e) :
    e = .fault .index := by
  unfold vectorAt at h
  split at h
  · split at h
    · cases h
    · cases h
      rfl
  · cases h
    rfl

theorem int_of_lt {v : UInt32} (h : v.toNat < 2 ^ 31) : v.toInt32.toInt = v.toNat :=
  BitVec.toInt_eq_toNat_of_lt (x := v.toBitVec) (by
    have : v.toBitVec.toNat = v.toNat := rfl
    omega)

theorem narrow_of_lt {v : UInt64} (h : v.toNat < 2 ^ 31) :
    v.toUInt32.toInt32.toInt = v.toNat := by
  have hmod : v.toUInt32.toNat = v.toNat := by
    rw [UInt64.toNat_toUInt32]
    omega
  rw [int_of_lt (by omega), hmod]

theorem includeDirectory_meets {sm : StateMachine} {dir : UInt64} :
    Meets (Guarded (dir.toNat < sm.includeDirectories.length ∧ dir.toNat < 2 ^ 31))
      (fun _ => True) (includeDirectory sm dir) := by
  rw [includeDirectory]
  cases h : vectorAt sm.includeDirectories dir.toUInt32.toInt32.toInt with
  | ok d => exact (textOf_meets d).mono (fun e he => .inl he) fun _ _ => trivial
  | error e =>
    refine .inr ⟨vectorAt_error h, fun ⟨hlen, hlt⟩ => ?_⟩
    rw [narrow_of_lt hlt, vectorAt_of_lt hlen] at h
    cases h

section
variable (join : Path → Path → Path)

def EntryFrom (t : Reader) (f : FileState) : Prop :=
  ∃ name c, readName t.c = .ok (name, c) ∧
    Loop.Visits FileState.more (readFileBody join) { s := { t with c }, name } f ∧ f.more = true

def FilesOk (t : Reader) : Prop := t.sm.version < 5 → ∀ f, EntryFrom join t f → DirectoryOk f

variable {join}

theorem readFileBody_meets {f : FileState} (hs : f.s.Plain) :
    Meets (Guarded (DirectoryOk f)) (fun g => Filed 1 f.s g.s) (readFileBody join f) := by
  have tame {e : Stop} (he : Tame e) : Guarded (DirectoryOk f) e := .inl he
  refine ((readLEB128U_meets hs.c).mono (fun _ => tame) fun _ h => h).exact_bind
    fun ⟨dir, c⟩ hdir h1 => ?_
  have hf1 : c.buf.fence = none := by rw [h1.buf, hs.c]
  refine ((readLEB128U_meets hf1).mono (fun _ => tame) fun _ h => h).bind fun r2 h2 => ?_
  have hf2 : r2.2.buf.fence = none := by rw [h2.buf, hf1]
  refine ((readLEB128U_meets hf2).mono (fun _ => tame) fun _ h => h).bind fun r3 h3 => ?_
  have hf3 : r3.2.buf.fence = none := by rw [h3.buf, hf2]
  have hd : Meets (Guarded (DirectoryOk f)) (fun _ => True) (entryDirectory f.s.sm dir) := by
    unfold entryDirectory
    split
    · trivial
    · exact includeDirectory_meets.mono (fun e he => he.mono fun ok => ok dir c hdir)
        fun _ _ => trivial
  refine hd.bind fun d _ => ?_
  refine ((readName_meets tame_exception hf3).mono (fun _ => tame) fun _ h => h).bind fun r4 h4 => ?_
  have hpast : Past 3 f.s.c r3.2 := (h1.trans h2).trans h3
  have hfiled := (filed_of_past hpast).trans (filed_intern { f.s with c := r3.2 } (join d f.name) r2.1 r3.1)
  exact (hfiled.trans (filed_of_past h4)).weaken (by omega)

theorem readFile4_meets {s : Reader} (hs : s.Plain) :
    Meets (Guarded (∀ f, EntryFrom join s f → DirectoryOk f)) (Filed 1 s) (readFile4 join s) := by
  refine ((readName_meets tame_exception hs.c).mono (fun _ he => .inl he) fun _ h => h).exact_bind
    fun ⟨name, c⟩ hname hc => ?_
  have hstart : Filed 1 s { s with c } := filed_of_past hc
  refine (Meets.run (fun f : FileState => Filed 1 s f.s) (fun f => f.s.c.buf.size - f.s.c.off)
    ?_ hstart fun _ => Nat.lt_succ_self _).bind fun f hf => hf.1
  rintro f hvisit hm hf
  refine (readFileBody_meets (hf.plain hs)).mono
    (fun e he => he.mono fun ok => ok f ⟨name, c, hname, hvisit, hm⟩) fun g hg => ?_
  have hlt := g.s.c.off_le
  have hoff := hg.off
  refine ⟨(hf.trans hg).weaken (by omega), fun _ => ?_⟩
  rw [hg.buf] at hlt ⊢
  omega

theorem readFileField_meets {s : Reader} (hs : s.Plain) (f : FileEntry)
    (format : UInt64 × UInt64) (hf : Filed 0 s f.s) :
    Meets Tame (fun g => Filed 0 s g.s) (readFileField f format) := by
  unfold readFileField
  split
  · refine (readPath_meets tame_exception (hf.plain hs)).bind fun r hr => ?_
    exact (hf.trans hr).weaken (by omega)
  split
  · refine (readLEB128U_meets (hf.plain hs).c).bind fun r hr => ?_
    have hr' : Filed 0 s { f.s with c := r.2 } :=
      (hf.trans (filed_of_past hr)).weaken (by omega)
    dsimp only
    split
    · exact hr'
    · exact hr'
  split
  · refine Meets.bind (P := fun t => Filed 0 f.s t) ?_ fun t ht => ?_
    · refine (Cursor.read_meets (hf.plain hs).c (by omega)).bind fun o ho => ?_
      cases o with
      | none => exact .refl _
      | some r => exact (filed_of_past (ho r.1 r.2 rfl)).weaken (by omega)
    · exact (hf.trans ht).weaken (by omega)
  · trivial

theorem readFileEntry5_meets {formats : List (UInt64 × UInt64)} {s t : Reader} (hs : s.Plain)
    (h : Filed 0 s t) : Meets Tame (Filed 0 s) (readFileEntry5 join formats t) := by
  refine (Meets.foldlM (fun f : FileEntry => Filed 0 t f.s)
    (readFileField_meets (h.plain hs)) (.refl t)).bind fun f hf => ?_
  split
  · exact (h.trans hf).weaken (by omega)
  · refine (textOf_meets _).bind fun d _ => ?_
    refine (textOf_meets _).bind fun n _ => ?_
    exact ((h.trans hf).trans (filed_intern f.s _ 0 0)).weaken (by omega)

theorem readFile5_meets {s : Reader} (hs : s.Plain) :
    Meets Tame (Filed 0 s) (readFile5 join s) := by
  refine (readLEB128U_meets hs.c).bind fun r1 h1 => ?_
  have hf1 : r1.2.buf.fence = none := by rw [h1.buf, hs.c]
  refine (readFormats_meets hf1).bind fun r2 h2 => ?_
  have hf2 : r2.2.buf.fence = none := by rw [h2.buf, hf1]
  refine (readLEB128U_meets hf2).bind fun r3 h3 => ?_
  have hpast : Past 0 s.c r3.2 := ((h1.trans h2).trans h3).weaken (by omega)
  exact Meets.times (Filed 0 s) (fun _ h => readFileEntry5_meets hs h) (filed_of_past hpast)

theorem readFile_meets {s : Reader} (hs : s.Plain) :
    Meets (Guarded (FilesOk join s)) (Filed 0 s) (readFile join s) := by
  unfold readFile
  split
  · next hv =>
    exact (readFile4_meets hs).mono (fun e he => he.mono fun ok => ok hv)
      fun t ht => ht.weaken (by omega)
  · exact (readFile5_meets hs).mono (fun e he => .inl he) fun t ht => ht

end

end Gelpp.Dwarf

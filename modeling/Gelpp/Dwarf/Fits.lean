import Gelpp.Dwarf.Divisors
import Gelpp.Dwarf.Interned
import Gelpp.Dwarf.Leb

namespace Gelpp.Dwarf

open Leb128 (Long Ended Numbers number afterNumber afterNumbers)
open Reader (Plain Filed Headed filed_of_past)

def Room (sm : StateMachine) : Prop := sm.includeDirectories.length + 1 < 2 ^ 31

def Named (bs : List UInt8) : Prop := bs.head? ≠ some 0 ∧ 0 ∈ bs

def dirStart5 (s : Reader) : Res (List (UInt64 × UInt64) × Nat × Reader) := do
  match ← s.c.readU8 with
  | none => .error (.fault .unset)
  | some (count, c) =>
    if 1 < count then raise "Don't know how to do if there is more than one format."
    else if count = 0 then raise "Missing format to decode directories."
    else
      let (formats, c) ← Loop.times readFormat count.toNat ([], c)
      let (directoriesCount, c) ← readLEB128U c
      return (formats, directoriesCount.toNat, { s with c })

def DirectoryFrom5 (t : Reader) (formats : List (UInt64 × UInt64)) (u : Reader) : Prop :=
  ∃ n s k, dirStart5 t = .ok (formats, n, s) ∧ k < n ∧
    Loop.times (readDirEntry5 formats) k s = .ok u

structure DirsFit (t : Reader) : Prop where
  names : t.sm.version < 5 → ∀ d, Loop.Visits DirState.more readDirBody { s := t } d →
    d.more = true → Named d.s.c.rest → Room d.s.sm
  count : ¬ t.sm.version < 5 → t.c.rest ≠ []
  numbers : ¬ t.sm.version < 5 → t.c.rest.head? = some 1 → Numbers (¬ Long ·) 3 t.c.rest.tail
  directories : ¬ t.sm.version < 5 → ∀ formats u d, DirectoryFrom5 t formats u →
    formats.foldlM readDirField (.text [], u) = .ok d → Room u.sm

def Directs (sm : StateMachine) (dir : UInt64) : Prop :=
  dir = 0 ∨ dir.toUInt32.toNat < 2 ^ 31 ∧
    ∃ chars, sm.includeDirectories[dir.toUInt32.toNat]? = some (.text chars)

@[mk_iff] structure EntryFits (f : FileState) : Prop where
  numbers : Numbers (¬ Long ·) 3 f.s.c.rest
  directory : Numbers Ended 3 f.s.c.rest → Directs f.s.sm (firstU f.s.c.rest)

structure FilesFit (join : Path → Path → Path) (t : Reader) : Prop where
  entries : t.sm.version < 5 → ∀ f, EntryFrom join t f → EntryFits f
  numbers : ¬ t.sm.version < 5 →
    Numbers (¬ Long ·) (1 + (2 * (firstU t.c.rest).toUInt8.toNat + 1)) t.c.rest
  indices : ¬ t.sm.version < 5 → ∀ formats u, EntryFrom5 join t formats u → ∀ pre format post,
    formats = pre ++ format :: post → format.1 = lnctDirectoryIndex → ∀ f,
    pre.foldlM readFileField { s := u } = .ok f → ¬ Long f.s.c.rest
  names : ¬ t.sm.version < 5 → ∀ formats u, EntryFrom5 join t formats u → ∀ f,
    formats.foldlM readFileField { s := u } = .ok f → f.fileName ≠ .text [] →
    f.fileName ≠ .wild ∧ f.dirName ≠ .wild

structure HeaderFits (h : Reader) : Prop where
  length : ∀ v, readVersion h = .ok v → v.c.off + offsetSize v.dl.is64 ≤ v.c.buf.size
  stmt : ∀ r, headerStart h = .ok r → r.1.c.off + operationsRead r.1.sm + 1 < r.1.c.buf.size
  lengths : ∀ r b, headerStart h = .ok r → readBase r.1 = .ok b →
    b.c.off < b.c.buf.size ∨ 1 < b.sm.opcodeBase.toNat
  dirs : ∀ r b t, headerStart h = .ok r → readBase r.1 = .ok b → readOpcodeLengths b = .ok t →
    DirsFit t

theorem of_all {α : Type} {x : Res α} {p : α → Bool} {a : α} (h : x.toOption.all p = true)
    (hx : x = .ok a) : p a = true := by
  rw [hx] at h
  exact h

def Steady (e : Stop) : Prop := ∀ kind, e ≠ .fault kind

theorem steady_exception (m : String) : Steady (.exception m) := fun _ h => by cases h

theorem raised_of_steady {α : Type} {P : α → Prop} {x : Res α} (h : Meets Orderly P x)
    (hs : Meets Steady (fun _ => True) x) : Meets Raised P x := by
  cases x with
  | ok a => exact h
  | error e =>
    cases e with
    | exception m => exact raised_exception m
    | fault kind => exact absurd rfl (hs kind)
    | badAlloc => exact h.elim
    | outside => exact h.elim
    | steps => exact h.elim

section
variable {c : Cursor}

theorem readLEB128U_steady (hf : c.buf.fence = none) (h : ¬ Long c.rest) :
    Meets Steady (fun r => Ended c.rest ∧ r = (firstU c.rest, c.forward (number c.rest).length))
      (readLEB128U c) := by
  rw [readLEB128U_eq hf, if_neg h]
  exact Meets.ite (fun he => ⟨he, rfl⟩) fun _ => steady_exception _

theorem readLEB128S_steady (hf : c.buf.fence = none) (h : ¬ Long c.rest) :
    Meets Steady (fun r => Ended c.rest ∧ r = (firstS c.rest, c.forward (number c.rest).length))
      (readLEB128S c) := by
  rw [readLEB128S_eq hf, if_neg h]
  exact Meets.ite (fun he => ⟨he, rfl⟩) fun _ => steady_exception _

theorem readFormat_steady {f : List (UInt64 × UInt64) × Cursor} (hf : f.2.buf.fence = none)
    (h : Numbers (¬ Long ·) 2 f.2.rest) :
    Meets Steady (fun g => g.2.buf = f.2.buf ∧ g.2.rest = afterNumbers 2 f.2.rest)
      (readFormat f) := by
  obtain ⟨h1, h2, -⟩ := h
  have hafter := after_number f.2
  refine (readLEB128U_steady hf h1).bind ?_
  rintro _ ⟨-, rfl⟩
  rw [← hafter] at h2
  refine Meets.bind (readLEB128U_steady (by exact hf) h2) ?_
  rintro _ ⟨-, rfl⟩
  exact ⟨rfl, (after_number _).trans (congrArg afterNumber hafter)⟩

theorem readFormats_steady {n : Nat} {f : List (UInt64 × UInt64) × Cursor}
    (hf : f.2.buf.fence = none) (h : Numbers (¬ Long ·) (2 * n) f.2.rest) :
    Meets Steady (fun g => g.2.buf = f.2.buf ∧ g.2.rest = afterNumbers (2 * n) f.2.rest)
      (Loop.times readFormat n f) := by
  induction n generalizing f with
  | zero => exact ⟨rfl, rfl⟩
  | succ n ih =>
    rw [Nat.mul_succ, Nat.add_comm] at h ⊢
    obtain ⟨htwo, hmore⟩ := Leb128.numbers_add.mp h
    refine (readFormat_steady hf htwo).bind fun g ⟨hbuf, hrest⟩ => ?_
    refine (ih (by rw [hbuf, hf]) (by rwa [hrest])).post fun k hk => ⟨hk.1.trans hbuf, ?_⟩
    rw [hk.2, hrest, Leb128.afterNumbers_add]

theorem readHeaderLength_steady {is64 : Bool} (hf : c.buf.fence = none)
    (h : c.off + offsetSize is64 ≤ c.buf.size) :
    Meets Steady (fun _ => True) (readHeaderLength is64 c) := by
  unfold readHeaderLength
  cases is64 with
  | true =>
    have h8 : c.off + 8 ≤ c.buf.size := h
    rw [if_pos rfl, Cursor.readU64, Cursor.read_some hf h8]
    trivial
  | false =>
    have h4 : c.off + 4 ≤ c.buf.size := h
    rw [if_neg Bool.false_ne_true, Cursor.readU32, Cursor.read_some hf h4]
    trivial

end

section
variable {s : Reader}

theorem readDefaultIsStmt_steady (hs : s.Plain) (h : s.c.off < s.c.buf.size) :
    Meets Steady (fun _ => True) (readDefaultIsStmt s) := by
  rw [readDefaultIsStmt, Cursor.readU8, Cursor.read_some hs.c h, Res.ok_bind]
  exact Meets.ite (fun _ => trivial) fun _ => trivial

theorem keep_steady {α : Type} {n : Nat} {get : Buffer → Nat → α}
    {put : α → StateMachine → StateMachine} (hs : s.Plain) (hn : n < 2 ^ 63) :
    Meets Steady (fun _ => True) (s.keep (Cursor.read n get) put) := by
  refine (Cursor.read_meets hs.c hn).bind fun o _ => ?_
  cases o <;> trivial

theorem readMaximumOperations_steady (hs : s.Plain) :
    Meets Steady (fun _ => True) (readMaximumOperations s) :=
  Meets.ite (fun _ => keep_steady hs (by omega)) fun _ => trivial

theorem readBase_steady (hs : s.Plain)
    (h : s.c.off + operationsRead s.sm + 1 < s.c.buf.size) :
    Meets Steady (fun _ => True) (readBase s) := by
  refine (keep_steady hs (by omega)).exact_bind fun t1 hr1 _ => ?_
  obtain ⟨hc1, hp1, hsm1⟩ := kept_byte hs hr1
  refine (readMaximumOperations_steady hp1).exact_bind fun t2 hr2 _ => ?_
  obtain ⟨hc2, hp2, -⟩ := readMaximumOperations_bytes hp1 hr2
  have hops : operationsRead t1.sm = operationsRead s.sm := by
    rw [hsm1, operationsRead, operationsRead]
    split <;> rfl
  have hc : t2.c = s.c.forward (1 + operationsRead s.sm) := by
    rw [hc2, hc1, hops, Cursor.forward_forward]
  have hat : t2.c.off < t2.c.buf.size := by
    rw [hc, Cursor.forward_off (by omega), Cursor.forward_buf]
    omega
  refine (readDefaultIsStmt_steady hp2 hat).exact_bind fun t3 hr3 _ => ?_
  have hp3 := ((readDefaultIsStmt_meets hp2).of_ok hr3).1.1.plain hp2
  refine (keep_steady hp3 (by omega)).exact_bind fun t4 hr4 _ => ?_
  have hp4 := (kept_byte hp3 hr4).2.1
  refine (keep_steady hp4 (by omega)).exact_bind fun t5 hr5 _ => ?_
  exact keep_steady (kept_byte hp4 hr5).2.1 (by omega)

theorem readOpcodeLengths_steady (hs : s.Plain)
    (h : s.c.off < s.c.buf.size ∨ 1 < s.sm.opcodeBase.toNat) :
    Meets Steady (fun _ => True) (readOpcodeLengths s) := by
  refine (Cursor.skip_meets hs.c).bind fun o ho => ?_
  cases o with
  | none => exact steady_exception _
  | some d =>
    obtain ⟨hbuf, hoff⟩ := ho d rfl
    have hlt : s.c.off < s.c.buf.size := by
      refine h.elim id fun hbase => ?_
      have hle := d.off_le
      have hle' := s.c.off_le
      have hsize := s.c.size_lt
      have hbyte := s.sm.opcodeBase.toNat_lt
      rw [hoff, hbuf, opcodeCount] at hle
      omega
    rw [errorIf, Res.ok_bind, Cursor.here, Buffer.demand_unfenced hs.c, Res.ok_bind, if_pos hlt]
    trivial

theorem readName_steady {c : Cursor} (hf : c.buf.fence = none) :
    Meets Steady (fun _ => True) (readName c) :=
  (readName_meets steady_exception hf).post fun _ _ => trivial

theorem named_of_readName {c d : Cursor} {name : List UInt8} (hf : c.buf.fence = none)
    (h : readName c = .ok (name, d)) (hne : ¬ name = []) : Named c.rest :=
  ⟨fun h0 => hne ((readName_empty hf h).mpr h0), (readName_chars hf h).1⟩

theorem addDirectory_steady {sm : StateMachine} {dir : CString} (h : Room sm) :
    Meets Steady (fun _ => True) (addDirectory sm dir) :=
  (addDirectory_meets fun hn => absurd h hn).post fun _ _ => trivial

theorem readDirBody_steady {d : DirState} (hs : d.s.Plain)
    (h : Named d.s.c.rest → Room d.s.sm) : Meets Steady (fun _ => True) (readDirBody d) := by
  refine (readName_steady hs.c).exact_bind fun r hr _ => ?_
  refine Meets.ite (fun _ => trivial) fun hne => ?_
  exact (addDirectory_steady (h (named_of_readName hs.c hr hne))).bind fun _ _ => trivial

theorem readDir4_steady (hs : s.Plain) (hf : DirsFit s) (hv : s.sm.version < 5) :
    Meets Steady (fun _ => True) (readDir4 s) := by
  refine (Meets.run_stuck (fun d : DirState => d.s.Plain) (fun _ h => by cases h)
    (fun d hvisit hm hd => ?_) hs).bind fun _ _ => trivial
  refine (readDirBody_steady hd (hf.names hv d hvisit hm)).exact_post fun e he _ => ?_
  exact ((readDirBody_meets hd).of_ok he).plain hd

theorem readDirField_steady (hs : s.Plain) (d : CString × Reader) (format : UInt64 × UInt64)
    (hd : Filed 0 s d.2) : Meets Steady (fun r => Filed 0 s r.2) (readDirField d format) :=
  readDirField_meets steady_exception hs d format hd

theorem readDirEntry5_steady {formats : List (UInt64 × UInt64)} (hs : s.Plain)
    (h : ∀ d, formats.foldlM readDirField (.text [], s) = .ok d → Room s.sm) :
    Meets Steady (fun _ => True) (readDirEntry5 formats s) := by
  refine (Meets.foldlM (fun r : CString × Reader => Filed 0 s r.2)
    (readDirField_steady hs) (.refl s)).exact_bind fun d hd hfiled => ?_
  have hroom := h d hd
  rw [← hfiled.sm] at hroom
  exact (addDirectory_steady hroom).bind fun _ _ => trivial

theorem readDir5_eq (s : Reader) :
    readDir5 s = dirStart5 s >>= fun r => Loop.times (readDirEntry5 r.1) r.2.1 r.2.2 := by
  unfold readDir5 dirStart5
  rw [bind_assoc]
  congr 1
  funext o
  cases o with
  | none => rfl
  | some r =>
    dsimp only
    split
    · rfl
    split
    · rfl
    · rw [bind_assoc]
      congr 1
      funext f
      rw [bind_assoc]
      rfl

theorem dirStart5_meets (hs : s.Plain) :
    Meets Tame (fun r => Filed 0 s r.2.2) (dirStart5 s) := by
  refine (Cursor.read_meets hs.c (by omega)).bind fun o ho => ?_
  cases o with
  | none => exact fun h => by cases h
  | some r =>
    have hr := ho r.1 r.2 rfl
    refine Meets.ite (fun _ => trivial) fun _ => Meets.ite (fun _ => trivial) fun _ => ?_
    have hrf : r.2.buf.fence = none := by rw [hr.buf, hs.c]
    refine (readFormats_meets hrf).bind fun f hf => ?_
    have hff : f.2.buf.fence = none := by rw [hf.buf, hrf]
    refine (readLEB128U_meets hff).bind fun t ht => ?_
    exact filed_of_past (((hr.trans hf).trans ht).weaken (by omega))

theorem dirStart5_steady (hs : s.Plain) (hf : DirsFit s) (hv : ¬ s.sm.version < 5) :
    Meets Steady (fun _ => True) (dirStart5 s) := by
  rw [dirStart5]
  cases hrest : s.c.rest with
  | nil => exact absurd hrest (hf.count hv)
  | cons count tail =>
    rw [Cursor.readU8_rest hs.c hrest, Res.ok_bind]
    refine Meets.ite (fun _ => steady_exception _) fun hone => ?_
    refine Meets.ite (fun _ => steady_exception _) fun hzero => ?_
    have hcount : count = 1 := by
      rw [UInt8.lt_iff_toNat_lt] at hone
      have hne : count.toNat ≠ 0 := fun h => hzero (UInt8.toNat_inj.mp h)
      have h1 : (1 : UInt8).toNat = 1 := rfl
      exact UInt8.toNat_inj.mp (by omega)
    have hnumbers := hf.numbers hv (by rw [hrest, hcount]; rfl)
    have htail : (s.c.forward 1).rest = tail := by
      rw [Cursor.forward_rest, hrest]
      rfl
    rw [hrest, List.tail_cons, ← htail] at hnumbers
    subst hcount
    have htwo := (Leb128.numbers_add (m := 2) (n := 1)).mp hnumbers
    refine (readFormats_steady (n := 1) (f := ([], s.c.forward 1)) hs.c htwo.1).bind ?_
    intro f ⟨hbuf, hafter⟩
    have hlong : ¬ Long f.2.rest := by
      rw [hafter]
      exact htwo.2.1
    exact (readLEB128U_steady (by rw [hbuf]; exact hs.c) hlong).bind fun _ _ => trivial

theorem readDir5_steady (hs : s.Plain) (hf : DirsFit s) (hv : ¬ s.sm.version < 5) :
    Meets Steady (fun _ => True) (readDir5 s) := by
  rw [readDir5_eq]
  refine (dirStart5_steady hs hf hv).exact_bind fun r hr _ => ?_
  have hrp := ((dirStart5_meets hs).of_ok hr).plain hs
  refine (Meets.times_at (fun t : Reader => t.Plain) (fun k u hk hu hup => ?_) hrp).post
    fun _ _ => trivial
  have hentry := hf.directories hv r.1 u
  refine (readDirEntry5_steady hup fun d hd => ?_).exact_post fun v hv _ => ?_
  · exact hentry d ⟨r.2.1, r.2.2, k, hr, hk, hu⟩ hd
  · exact ((readDirEntry5_meets hup (.refl u)).of_ok hv).plain hup

theorem readDir_steady (hs : s.Plain) (hf : DirsFit s) :
    Meets Steady (fun _ => True) (readDir s) :=
  Meets.ite (readDir4_steady hs hf) (readDir5_steady hs hf)

theorem readBaseAndDir_steady {h : Reader} {r : Reader × Nat} (hf : HeaderFits h)
    (hr : headerStart h = .ok r) (hs : r.1.Plain) :
    Meets Steady (fun _ => True) (readBaseAndDir r.1) := by
  refine (readBase_steady hs (hf.stmt r hr)).exact_bind fun b hb _ => ?_
  have hbp : b.Plain := (((readBase_meets hs).of_ok hb).toOutside).plain hs
  refine (readOpcodeLengths_steady hbp (hf.lengths r b hr hb)).exact_bind fun t ht _ => ?_
  exact readDir_steady (((readOpcodeLengths_meets hbp).of_ok ht).1.plain hbp)
    (hf.dirs r b t hr hb ht)

theorem headerStart_steady {h : Reader} (hs : h.Plain) (hf : HeaderFits h) :
    Meets Steady (fun _ => True) (headerStart h) := by
  refine ((readVersion_meets steady_exception hs).exact_bind fun v hv hhead => ?_)
  exact (readHeaderLength_steady (hhead.plain hs).c (hf.length v hv)).bind fun _ _ => trivial

theorem entryDirectory_steady {sm : StateMachine} {dir : UInt64} (h : Directs sm dir) :
    Meets Steady (fun _ => True) (entryDirectory sm dir) := by
  refine Meets.ite (fun _ => trivial) fun hne => ?_
  obtain ⟨hlt, chars, hget⟩ := h.resolve_left hne
  obtain ⟨hlen, hget⟩ := List.getElem?_eq_some_iff.mp hget
  rw [includeDirectory, int_of_lt hlt, vectorAt_of_lt hlen, hget]
  trivial

section
variable {join : Path → Path → Path}

theorem readFileBody_steady {f : FileState} (hs : f.s.Plain) (hf : EntryFits f) :
    Meets Steady (fun _ => True) (readFileBody join f) := by
  obtain ⟨h1, h2, h3, -⟩ := hf.numbers
  have hafter := after_number f.s.c
  refine (readLEB128U_steady hs.c h1).bind ?_
  rintro _ ⟨he1, rfl⟩
  rw [← hafter] at h2
  refine Meets.bind (readLEB128U_steady (by exact hs.c) h2) ?_
  rintro _ ⟨he2, rfl⟩
  have hafter2 := (after_number (f.s.c.forward (number f.s.c.rest).length)).trans
    (congrArg afterNumber hafter)
  rw [← hafter2] at h3
  refine Meets.bind (readLEB128U_steady (by exact hs.c) h3) ?_
  rintro _ ⟨he3, rfl⟩
  rw [hafter] at he2
  rw [hafter2] at he3
  refine (entryDirectory_steady (hf.directory ⟨he1, he2, he3, trivial⟩)).bind fun d _ => ?_
  exact (readName_steady (by exact hs.c)).bind fun _ _ => trivial

theorem readFile4_steady (hs : s.Plain) (hf : FilesFit join s) (hv : s.sm.version < 5) :
    Meets Steady (fun _ => True) (readFile4 join s) := by
  refine (readName_meets steady_exception hs.c).exact_bind fun ⟨name, c⟩ hname hc => ?_
  refine (Meets.run_stuck (fun f : FileState => f.s.Plain) (fun _ h => by cases h)
    (fun f hvisit hm hp => ?_) ((filed_of_past hc).plain hs)).bind fun _ _ => trivial
  have hentry := hf.entries hv f ⟨name, c, hname, hvisit, hm⟩
  refine (readFileBody_steady hp hentry).exact_post fun g hg _ => ?_
  exact ((readFileBody_meets hp).of_ok hg).plain hp

theorem tableStart5_meets (hs : s.Plain) :
    Meets Tame (fun r => Filed 0 s r.2.2) (tableStart5 s) := by
  refine (readLEB128U_meets hs.c).bind fun r1 h1 => ?_
  have hf1 : r1.2.buf.fence = none := by rw [h1.buf, hs.c]
  refine (readFormats_meets hf1).bind fun r2 h2 => ?_
  have hf2 : r2.2.buf.fence = none := by rw [h2.buf, hf1]
  refine (readLEB128U_meets hf2).bind fun r3 h3 => ?_
  exact filed_of_past (((h1.trans h2).trans h3).weaken (by omega))

theorem tableStart5_steady (hs : s.Plain) (hf : FilesFit join s) (hv : ¬ s.sm.version < 5) :
    Meets Steady (fun _ => True) (tableStart5 s) := by
  obtain ⟨⟨h1, -⟩, hmore⟩ := Leb128.numbers_add.mp (hf.numbers hv)
  obtain ⟨hformats, hlast, -⟩ := Leb128.numbers_add.mp hmore
  have hafter : (s.c.forward (number s.c.rest).length).rest = afterNumbers 1 s.c.rest :=
    after_number s.c
  refine (readLEB128U_steady hs.c h1).bind ?_
  rintro _ ⟨-, rfl⟩
  rw [← hafter] at hformats hlast
  refine (readFormats_steady (f := ([], s.c.forward (number s.c.rest).length)) hs.c hformats).bind fun f ⟨hbuf, hrest⟩ => ?_
  rw [← hrest] at hlast
  exact (readLEB128U_steady (by rw [hbuf]; exact hs.c) hlast).bind fun _ _ => trivial

theorem readFileField_steady {f : FileEntry} {format : UInt64 × UInt64} (hs : f.s.Plain)
    (h : format.1 = lnctDirectoryIndex → ¬ Long f.s.c.rest) :
    Meets Steady (fun _ => True) (readFileField f format) := by
  refine Meets.ite (fun _ => ?_) fun _ => Meets.ite (fun hi => ?_) fun _ => Meets.ite (fun _ => ?_)
    fun _ => steady_exception _
  · exact (readPath_meets steady_exception hs).bind fun _ _ => trivial
  · refine (readLEB128U_steady hs.c (h hi)).bind fun r _ => ?_
    dsimp only
    split <;> trivial
  · exact (keep_steady hs (by omega)).bind fun _ _ => trivial

theorem textOf_steady {d : CString} (h : d ≠ .wild) : Meets Steady (fun _ => True) (textOf d) := by
  cases d with
  | text chars => trivial
  | wild => exact absurd rfl h

theorem readFileEntry5_steady {t : Reader} {formats : List (UInt64 × UInt64)} (hs : s.Plain)
    (hf : FilesFit join t) (hv : ¬ t.sm.version < 5) (hat : EntryFrom5 join t formats s) :
    Meets Steady (fun _ => True) (readFileEntry5 join formats s) := by
  refine (Meets.foldlM_at (fun f : FileEntry => f.s.Plain) (fun pre format post f hsplit hfold hp => ?_)
    hs).exact_bind fun f hfold _ => ?_
  · refine (readFileField_steady hp fun hi => ?_).exact_post fun g hg _ => ?_
    · exact hf.indices hv formats s hat pre format post hsplit hi f hfold
    · exact ((readFileField_meets hp f format (.refl f.s)).of_ok hg).plain hp
  · refine Meets.ite (fun _ => trivial) fun hne => ?_
    obtain ⟨hfile, hdir⟩ := hf.names hv formats s hat f hfold hne
    exact (textOf_steady hdir).bind fun _ _ => (textOf_steady hfile).bind fun _ _ => trivial

theorem readFile5_steady (hs : s.Plain) (hf : FilesFit join s) (hv : ¬ s.sm.version < 5) :
    Meets Steady (fun _ => True) (readFile5 join s) := by
  rw [readFile5_eq]
  refine (tableStart5_steady hs hf hv).exact_bind fun r hr _ => ?_
  have hrp := ((tableStart5_meets hs).of_ok hr).plain hs
  refine (Meets.times_at (fun t : Reader => t.Plain) (fun k u hk hu hup => ?_) hrp).post
    fun _ _ => trivial
  refine (readFileEntry5_steady hup hf hv ⟨r.2.1, r.2.2, k, hr, hk, hu⟩).exact_post fun v hv _ => ?_
  exact ((readFileEntry5_meets hup (.refl u)).of_ok hv).plain hup

theorem readFile_raised (hs : s.Plain) (hf : FilesFit join s) :
    Meets Raised (Filed 0 s) (readFile join s) :=
  raised_of_steady ((readFile_meets hs).mono (fun _ he => he.orderly) fun _ h => h)
    (Meets.ite (readFile4_steady hs hf) (readFile5_steady hs hf))

theorem moveTo_steady {o : Nat} (hs : s.Plain) : Meets Steady (fun _ => True) (s.moveTo o) :=
  (Reader.moveTo_meets hs).post fun _ _ => trivial

theorem readHeader_raised {h : Reader} (hs : h.Plain) (hf : HeaderFits h)
    (hfiles : ∀ r t, headerStart h = .ok r → readBaseAndDir r.1 = .ok t → FilesFit join t) :
    Meets Raised (HeaderRead h) (readHeader join h) := by
  refine raised_of_steady ((readHeader_meets hs).mono (fun _ he => he.orderly) fun _ h => h) ?_
  rw [readHeader_eq]
  refine (headerStart_steady hs hf).exact_bind fun r hr _ => ?_
  have hrp := ((headerStart_meets hs).of_ok hr).plain hs
  refine Meets.bind (P := Reader.Plain) ?_ fun t ht => moveTo_steady ht
  refine (readBaseAndDir_steady hf hr hrp).exact_bind fun t ht _ => ?_
  have htp : t.Plain := ((readBaseAndDir_meets hrp).of_ok ht).plain hrp
  exact ((readFile_raised htp (hfiles r t hr ht)).mono
    (fun e ⟨m, hm⟩ => hm ▸ steady_exception m) fun u hu => hu.plain htp)

end

end

end Gelpp.Dwarf

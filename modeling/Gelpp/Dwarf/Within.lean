import Gelpp.Dwarf.Fits

namespace Gelpp

def Cursor.left (c : Cursor) (e : Nat) : List UInt8 := c.rest.take (e - c.off)

namespace Dwarf

open Leb128 (Ended Numbers number afterNumber afterNumbers)

def SectHas (sect : Cursor) (offset : UInt64) : Prop :=
  offset.toNat ≤ sect.buf.size ∧ 0 ∈ sect.buf.bytes.drop offset.toNat

structure PathWithin (e : Nat) (form : UInt64) (s : Reader) : Prop where
  text : form = formString → 0 ∈ s.c.left e
  offset : form = formLineStrp ∨ form = formStrp → s.c.off + offsetSize s.dl.is64 ≤ e
  lineStr : form = formLineStrp → ∀ o c, readAddress s.dl.is64 s.c = .ok (o, c) →
    SectHas s.dl.lineStrSect o
  str : form = formStrp → ∀ o c, readAddress s.dl.is64 s.c = .ok (o, c) → SectHas s.dl.strSect o

structure DirsWithin (e : Nat) (t : Reader) : Prop where
  names : t.sm.version < 5 → ∀ d, Loop.Visits DirState.more readDirBody { s := t } d →
    d.more = true → 0 ∈ d.s.c.left e
  count : ¬ t.sm.version < 5 → t.c.left e ≠ []
  numbers : ¬ t.sm.version < 5 → (t.c.left e).head? = some 1 → Numbers Ended 3 (t.c.left e).tail
  fields : ¬ t.sm.version < 5 → ∀ formats u, DirectoryFrom5 t formats u → ∀ pre format post d,
    formats = pre ++ format :: post → pre.foldlM readDirField (.text [], u) = .ok d →
    format.1 = lnctPath → PathWithin e format.2 d.2

def Dated (s : Reader) (path : Path) (date size : UInt64) : Prop :=
  ∀ (i : Nat) x, s.dl.files[i]? = some x → x.path = path → i ∉ s.cu.files →
    x.date = date ∧ x.size = size

structure EntryWithin (join : Path → Path → Path) (e : Nat) (f : FileState) : Prop where
  numbers : Numbers Ended 3 (f.s.c.left e)
  name : 0 ∈ afterNumbers 3 (f.s.c.left e)
  dated : ∀ d, entryDirectory f.s.sm (firstU (f.s.c.left e)) = .ok d → Dated f.s (join d f.name)
    (firstU (afterNumber (f.s.c.left e))) (firstU (afterNumbers 2 (f.s.c.left e)))

structure FieldWithin (e : Nat) (format : UInt64 × UInt64) (f : FileEntry) : Prop where
  path : format.1 = lnctPath → PathWithin e format.2 f.s
  index : format.1 = lnctDirectoryIndex → Ended (f.s.c.left e)
  digest : format.1 = lnctMD5 → f.s.c.off + 2 ≤ e

structure FilesWithin (join : Path → Path → Path) (e : Nat) (t : Reader) : Prop where
  name : t.sm.version < 5 → 0 ∈ t.c.left e
  entries : t.sm.version < 5 → ∀ f, EntryFrom join t f → EntryWithin join e f
  numbers : ¬ t.sm.version < 5 →
    Numbers Ended (1 + (2 * (firstU (t.c.left e)).toUInt8.toNat + 1)) (t.c.left e)
  fields : ¬ t.sm.version < 5 → ∀ formats u, EntryFrom5 join t formats u → ∀ pre format post f,
    formats = pre ++ format :: post → pre.foldlM readFileField { s := u } = .ok f →
    FieldWithin e format f
  dated : ¬ t.sm.version < 5 → ∀ formats u, EntryFrom5 join t formats u → ∀ f d n,
    formats.foldlM readFileField { s := u } = .ok f → f.fileName ≠ .text [] → f.dirName = .text d →
    f.fileName = .text n → Dated f.s (join d n) 0 0

structure HeaderWithin (start e : Nat) (h : Reader) : Prop where
  version : h.c.off + 4 ≤ e
  length : ∀ v, readVersion h = .ok v → v.c.off + offsetSize v.dl.is64 ≤ e
  base : ∀ r, headerStart h = .ok r → r.1.c.off + operationsRead r.1.sm + 5 ≤ e
  lengths : ∀ r b, headerStart h = .ok r → readBase r.1 = .ok b →
    b.c.off < e ∧ b.c.off + (b.sm.opcodeBase.toNat - 1) ≤ e
  dirs : ∀ r b t, headerStart h = .ok r → readBase r.1 = .ok b → readOpcodeLengths b = .ok t →
    DirsWithin e t
  program : ∀ r, headerStart h = .ok r → start ≤ r.2 ∧ r.2 ≤ e

@[mk_iff] structure StandardWithin (opcode : UInt8) (bs : List UInt8) : Prop where
  number : opcode ∈ [2, 3, 4, 5, 12] → Ended bs
  advance : opcode = 9 → 2 ≤ bs.length

@[mk_iff] structure ExtendedWithin (start e : Nat) (r : Reader) (bs : List UInt8) : Prop where
  length : Ended bs
  opcode : afterNumber bs ≠ []
  address : (afterNumber bs).head? = some 2 → offsetSize r.dl.is64 ≤ (afterNumber bs).tail.length
  discriminator : (afterNumber bs).head? = some 4 → Ended (afterNumber bs).tail
  target : start ≤ extendedEnd (firstU bs) (r.c.off + 1 + (number bs).length) ∧
    extendedEnd (firstU bs) (r.c.off + 1 + (number bs).length) ≤ e

def BytesWithin (start e : Nat) (r : Reader) : List UInt8 → Prop
  | [] => False
  | opcode :: bs =>
    if r.sm.opcodeBase ≤ opcode then True
    else if opcode = 0 then ExtendedWithin start e r bs
    else StandardWithin opcode bs

def OpcodeWithin (start e : Nat) (r : Reader) : Prop := BytesWithin start e r (r.c.left e)

section
variable (join : Path → Path → Path)

def OpcodeOf (h : Reader) (e : Nat) (r : Reader) : Prop :=
  ∃ r₀, readHeader join h = .ok r₀ ∧ r₀.c.off < e ∧
    Loop.Visits running (step join e) r₀ r ∧ running r = true

inductive TableOf (h : Reader) (e : Nat) : Reader → Prop
  | header {r : Reader × Nat} {t : Reader} (hr : headerStart h = .ok r)
      (ht : readBaseAndDir r.1 = .ok t) : TableOf h e t
  | defined {r : Reader} {d : Decoded} (hr : OpcodeOf join h e r) (hd : decode r = .ok d)
      (ha : d.action = .defineFile) : TableOf h e { r with c := d.c }

structure Contained (start : Nat) (h : Reader) (e : Nat) : Prop where
  after : h.c.off ≤ e
  room : e ≤ h.c.buf.size
  header : HeaderWithin start e h
  files : ∀ t, TableOf join h e t → FilesWithin join e t
  opcodes : ∀ r, OpcodeOf join h e r → OpcodeWithin start e r

end

instance (start e : Nat) (r : Reader) (bs : List UInt8) : Decidable (ExtendedWithin start e r bs) :=
  decidable_of_iff _ (extendedWithin_iff start e r bs).symm

instance (opcode : UInt8) (bs : List UInt8) : Decidable (StandardWithin opcode bs) :=
  decidable_of_iff _ (standardWithin_iff opcode bs).symm

instance decidableBytesWithin (start e : Nat) (r : Reader) :
    (bs : List UInt8) → Decidable (BytesWithin start e r bs)
  | [] => .isFalse id
  | opcode :: bs => inferInstanceAs (Decidable (if r.sm.opcodeBase ≤ opcode then True
      else if opcode = 0 then ExtendedWithin start e r bs else StandardWithin opcode bs))

instance (start e : Nat) (r : Reader) : Decidable (OpcodeWithin start e r) :=
  decidableBytesWithin start e r (r.c.left e)

section
variable (join : Path → Path → Path)

def dated (s : Reader) (path : Path) (date size : UInt64) : Bool :=
  s.dl.files.zipIdx.all fun x =>
    decide (x.1.path = path → x.2 ∉ s.cu.files → x.1.date = date ∧ x.1.size = size)

def dirsWithin (e : Nat) (t : Reader) : Bool :=
  decide (t.sm.version < 5) && Loop.every DirState.more readDirBody
    (fun d => decide (0 ∈ d.s.c.left e)) (t.c.rest.length + 1) { s := t }

def entryWithin (e : Nat) (f : FileState) : Bool :=
  decide (Numbers Ended 3 (f.s.c.left e)) && decide (0 ∈ afterNumbers 3 (f.s.c.left e)) &&
    (entryDirectory f.s.sm (firstU (f.s.c.left e))).toOption.all fun d => dated f.s (join d f.name)
      (firstU (afterNumber (f.s.c.left e))) (firstU (afterNumbers 2 (f.s.c.left e)))

def filesWithin (e : Nat) (t : Reader) : Bool :=
  decide (t.sm.version < 5) && decide (0 ∈ t.c.left e) && (readName t.c).toOption.all fun r =>
    Loop.every FileState.more (readFileBody join) (entryWithin join e) (r.2.rest.length + 1)
      { s := { t with c := r.2 }, name := r.1 }

def headerWithin (start e : Nat) (h : Reader) : Bool :=
  decide (h.c.off + 4 ≤ e) &&
  ((readVersion h).toOption.all fun v => decide (v.c.off + offsetSize v.dl.is64 ≤ e)) &&
  (headerStart h).toOption.all fun r =>
    decide (r.1.c.off + operationsRead r.1.sm + 5 ≤ e) && decide (start ≤ r.2 ∧ r.2 ≤ e) &&
    ((readBase r.1).toOption.all fun b =>
      decide (b.c.off < e ∧ b.c.off + (b.sm.opcodeBase.toNat - 1) ≤ e) &&
      (readOpcodeLengths b).toOption.all (dirsWithin e)) &&
    (readBaseAndDir r.1).toOption.all (filesWithin join e)

def opcodeWithin (start e : Nat) (r : Reader) : Bool :=
  decide (OpcodeWithin start e r) && (decode r).toOption.all fun d => d.action != .defineFile

variable {join} {start e : Nat}

theorem dated_sound {r : Reader} {path : Path} {date size : UInt64} (h : dated r path date size = true) :
    Dated r path date size := by
  intro i x hx
  have hall := List.all_eq_true.mp h (x, i) (List.mk_mem_zipIdx_iff_getElem?.mpr hx)
  simpa only [decide_eq_true_eq] using hall

theorem dirsWithin_sound {t : Reader} (h : dirsWithin e t = true) : DirsWithin e t := by
  rw [dirsWithin, Bool.and_eq_true, decide_eq_true_eq] at h
  refine ⟨fun _ d hd hm => ?_, fun hv => absurd h.1 hv, fun hv => absurd h.1 hv,
    fun hv => absurd h.1 hv⟩
  have hname := Loop.of_every h.2 hd hm
  simpa only [decide_eq_true_eq] using hname

theorem entryWithin_sound {f : FileState} (h : entryWithin join e f = true) : EntryWithin join e f := by
  simp only [entryWithin, Bool.and_eq_true, decide_eq_true_eq] at h
  refine ⟨h.1.1, h.1.2, fun d hd => ?_⟩
  have hdated := of_all h.2 hd
  exact dated_sound hdated

theorem filesWithin_sound {t : Reader} (h : filesWithin join e t = true) : FilesWithin join e t := by
  simp only [filesWithin, Bool.and_eq_true, decide_eq_true_eq] at h
  refine ⟨fun _ => h.1.2, fun _ f hf => ?_, fun hv => absurd h.1.1 hv, fun hv => absurd h.1.1 hv,
    fun hv => absurd h.1.1 hv⟩
  obtain ⟨name, c, hname, hvisit, hm⟩ := hf
  have hentries := of_all h.2 hname
  exact entryWithin_sound (Loop.of_every hentries hvisit hm)

theorem headerWithin_sound {h : Reader} (hw : headerWithin join start e h = true) :
    HeaderWithin start e h := by
  simp only [headerWithin, Bool.and_eq_true, decide_eq_true_eq] at hw
  obtain ⟨⟨hversion, hlength⟩, hstart⟩ := hw
  refine ⟨hversion, fun v hv => ?_, fun r hr => ?_, fun r b hr hb => ?_, fun r b t hr hb ht => ?_,
    fun r hr => ?_⟩
  · simpa only [decide_eq_true_eq] using of_all hlength hv
  all_goals
    have hrest := of_all hstart hr
    simp only [Bool.and_eq_true, decide_eq_true_eq] at hrest
  · exact hrest.1.1.1
  · have hbase := of_all hrest.1.2 hb
    simp only [Bool.and_eq_true, decide_eq_true_eq] at hbase
    exact hbase.1
  · have hbase := of_all hrest.1.2 hb
    simp only [Bool.and_eq_true] at hbase
    exact dirsWithin_sound (of_all hbase.2 ht)
  · exact hrest.1.1.2

theorem headerWithin_files {h t : Reader} {r : Reader × Nat} (hw : headerWithin join start e h = true)
    (hr : headerStart h = .ok r) (ht : readBaseAndDir r.1 = .ok t) : FilesWithin join e t := by
  simp only [headerWithin, Bool.and_eq_true] at hw
  have hstart := of_all hw.2 hr
  simp only [Bool.and_eq_true] at hstart
  exact filesWithin_sound (of_all hstart.2 ht)

end

end Dwarf

end Gelpp

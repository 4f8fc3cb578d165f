import Gelpp.Dwarf.Window

namespace Gelpp.Dwarf

open Leb128 (Ended Numbers number afterNumber afterNumbers)
open Reader (Plain)

def RowAlike (fs gs : List Nat) (l m : LineNumber) : Prop :=
  m = { l with file := m.file } ∧ ∃ i : Nat, fs[i]? = some l.file ∧ gs[i]? = some m.file

structure Joint (h h' r q : Reader) : Prop where
  calls : ∃ calls, Interns h calls r ∧ Interns h' calls q
  length : q.cu.files.length = r.cu.files.length

def SameDates (fs gs : List File) : Prop :=
  ∀ f ∈ fs, ∀ g ∈ gs, f.path = g.path → f.date = g.date ∧ f.size = g.size

structure Agreed (h h' : Reader) (files : List File) : Prop where
  empty : h.dl.files = []
  unit : h'.cu.files = []
  dates : SameDates h'.dl.files files

structure Mirrored (loose : Prop) (w : Window) (h h' r q : Reader) : Prop extends Sees w r.c q.c where
  sm : q.sm = r.sm
  is64 : q.dl.is64 = r.dl.is64
  strSect : Shelved r.dl.strSect q.dl.strSect
  lineStrSect : Shelved r.dl.lineStrSect q.dl.lineStrSect
  calls : Joint h h' r q
  rows : List.Forall₂ (RowAlike r.cu.files q.cu.files) r.cu.lines q.cu.lines
  dates : loose ∨ Agreed h h' r.dl.files

theorem RowAlike.append {fs gs : List Nat} {l m : LineNumber} (h : RowAlike fs gs l m)
    (more more' : List Nat) : RowAlike (fs ++ more) (gs ++ more') l m := by
  obtain ⟨heq, i, hl, hm⟩ := h
  refine ⟨heq, i, ?_, ?_⟩
  · rw [List.getElem?_append_left (List.getElem?_eq_some_iff.mp hl).1, hl]
  · rw [List.getElem?_append_left (List.getElem?_eq_some_iff.mp hm).1, hm]

theorem labels_map (dl : DebugLine) :
    Pool.labels dl.pool = dl.files.map fun f => (f.path, f.date, f.size) := by
  rw [Pool.labels, DebugLine.pool, List.map_map]
  rfl

theorem sameDates_iff {dl dl' : DebugLine} : SameDates dl.files dl'.files ↔
    ∀ a ∈ Pool.labels dl.pool, ∀ b ∈ Pool.labels dl'.pool, a.1 = b.1 → a.2 = b.2 := by
  simp only [SameDates, labels_map, List.forall_mem_map, Prod.mk.injEq]

section
variable {loose : Prop} {w : Window} {h h' r q r' q' : Reader} {c d : Cursor}

theorem Joint.aside (hj : Joint h h' r q) (hr : Interns r [] r') (hq : Interns q [] q') :
    Joint h h' r' q' := by
  obtain ⟨calls, hcr, hcq⟩ := hj.calls
  exact ⟨⟨calls, hcr.after hr, hcq.after hq⟩, by rw [hr.length, hq.length, hj.length]⟩

theorem Joint.intern (hj : Joint h h' r q) (path : Path) (date size : UInt64) :
    Joint h h' (r.intern path date size) (q.intern path date size) := by
  have hr := intern_interns r path date size
  have hq := intern_interns q path date size
  obtain ⟨calls, hcr, hcq⟩ := hj.calls
  exact ⟨⟨_, hcr.trans hr, hcq.trans hq⟩, by rw [hr.length, hq.length, hj.length]⟩

theorem Shelved.free (hs : Shelved c d) : d.buf.fence = none := Views.free hs

theorem Mirrored.plain (m : Mirrored loose w h h' r q) : q.Plain :=
  ⟨m.free, m.strSect.free, m.lineStrSect.free⟩

theorem Mirrored.renew (m : Mirrored loose w h h' r q) (hcd : Sees w c d) {sm sm' : StateMachine}
    (hsm : sm' = sm) : Mirrored loose w h h' { r with c := c, sm := sm } { q with c := d, sm := sm' } :=
  ⟨hcd, hsm, m.is64, m.strSect, m.lineStrSect,
    m.calls.aside (.aside rfl rfl rfl) (.aside rfl rfl rfl), m.rows, m.dates⟩

theorem Mirrored.update (m : Mirrored loose w h h' r q) (hcd : Sees w c d)
    (put : StateMachine → StateMachine) :
    Mirrored loose w h h' { r with c := c, sm := put r.sm } { q with c := d, sm := put q.sm } :=
  m.renew hcd (congrArg put m.sm)

theorem Mirrored.cursor (m : Mirrored loose w h h' r q) (hcd : Sees w c d) :
    Mirrored loose w h h' { r with c := c } { q with c := d } := m.update hcd id

theorem Mirrored.machine (m : Mirrored loose w h h' r q) (put : StateMachine → StateMachine) :
    Mirrored loose w h h' { r with sm := put r.sm } { q with sm := put q.sm } := m.update m.toSees put

theorem Agreed.intern {path : Path} {date size : UInt64} (hj : Joint h h' r q)
    (ha : Agreed h h' r.dl.files) (hd : Dated q path date size) :
    Agreed h h' (r.intern path date size).dl.files := by
  obtain ⟨calls, hr, hq⟩ := hj.calls
  refine ⟨ha.empty, ha.unit, sameDates_iff.mpr ?_⟩
  have hold := sameDates_iff.mp ha.dates
  have hpool : (r.intern path date size).dl.pool =
      Pool.intern r.dl.units.length r.dl.pool (path, date, size) := (intern_interns r path date size).pool
  intro a ha' b hb hab
  rw [hpool, Pool.labels_intern] at hb
  split at hb
  · exact hold a ha' b hb hab
  · next hnew =>
    rcases List.mem_append.mp hb with hb | hb
    · exact hold a ha' b hb hab
    · rw [List.mem_singleton] at hb
      subst hb
      have hinit : Pool.labels h'.dl.pool <+: Pool.labels q.dl.pool := by
        rw [hq.pool]
        exact Pool.labels_internAll
      obtain ⟨i, hi⟩ := List.getElem?_of_mem (hinit.subset ha')
      have hfile := hi
      rw [labels_map, List.getElem?_map] at hfile
      obtain ⟨x, hx, rfl⟩ := Option.map_eq_some_iff.mp hfile
      have hother : i ∉ q.cu.files := by
        intro hmem
        rw [hq.files_eq ha.unit, List.mem_map] at hmem
        obtain ⟨c, hc, rfl⟩ := hmem
        have hkey := Pool.keys_place (hq.mem_keys hc)
        rw [← Pool.labels_keys, List.getElem?_map, hi, Option.map_some, Option.some.injEq] at hkey
        exact hnew ((hkey.symm.trans hab) ▸ hr.mem_keys hc)
      obtain ⟨hdate, hsize⟩ := hd i x hx hab hother
      rw [hdate, hsize]

theorem Mirrored.intern (m : Mirrored loose w h h' r q) {path : Path} {date size : UInt64}
    (hd : loose ∨ Dated q path date size) :
    Mirrored loose w h h' (r.intern path date size) (q.intern path date size) := by
  refine ⟨m.toSees, m.sm, m.is64, m.strSect, m.lineStrSect, m.calls.intern path date size,
    m.rows.imp fun _ _ hlm => hlm.append _ _, ?_⟩
  rcases m.dates with hl | ha
  · exact .inl hl
  · exact hd.imp_right fun hd => ha.intern m.calls hd

theorem keep_echo {α : Type} {read : Cursor → Res (Option (α × Cursor))}
    (m : Mirrored loose w h h' r q) (hread : Echo (Barred loose) (Finds w) (read r.c) (read q.c))
    (put : α → StateMachine → StateMachine) :
    Echo (Barred loose) (Mirrored loose w h h') (r.keep read put) (q.keep read put) := by
  refine hread.bind ?_
  rintro x y ⟨v, c, d, rfl, rfl, hcd⟩
  exact .ok (m.update hcd (put v))

theorem moveTo_echo {o o' : Nat} (m : Mirrored loose w h h' r q) (ho : Aims w o o')
    (hin : loose ∨ Lands w o') :
    Echo (Barred loose) (Mirrored loose w h h') (r.moveTo o) (q.moveTo o') := by
  refine (m.move ho hin).bind ?_
  rintro x y ⟨c, d, rfl, rfl, hcd⟩
  exact .ok (m.cursor hcd)

def Together {α : Type} (loose : Prop) (w : Window) (h h' : Reader) (x y : α × Reader) : Prop :=
  y.1 = x.1 ∧ Mirrored loose w h h' x.2 y.2

theorem readPath_echo (message : String) {form : UInt64} (old : CString)
    (m : Mirrored loose w h h' r q) (hin : loose ∨ PathWithin (w.place + w.length) form q) :
    Echo (Barred loose) (Together loose w h h') (readPath message form old r)
      (readPath message form old q) := by
  refine Echo.ite Iff.rfl (fun hf => ?_) fun _ => Echo.ite Iff.rfl (fun hf => ?_) fun _ =>
    Echo.ite Iff.rfl (fun hf => ?_) fun _ => .error _
  · refine (readInto_echo m.toSees (hin.imp_right fun k => k.text hf)).bind ?_
    rintro ⟨str, c⟩ ⟨str', d⟩ ⟨rfl, hcd⟩
    exact .ok ⟨rfl, m.cursor hcd⟩
  · rw [← m.is64]
    refine (readAddress_echo m.toSees (hin.imp_right fun k => k.offset (.inl hf))).exact_bind ?_
    rintro ⟨offset, c⟩ ⟨offset', d⟩ - hq ⟨rfl, hcd⟩
    refine (readSect_echo m.lineStrSect (hin.imp_right fun k => k.lineStr hf _ _ hq)).bind ?_
    rintro ⟨str, s⟩ ⟨str', t⟩ ⟨rfl, hst⟩
    exact .ok ⟨rfl, hcd, m.sm, m.is64, m.strSect, hst,
      m.calls.aside (.aside rfl rfl rfl) (.aside rfl rfl rfl), m.rows, m.dates⟩
  · rw [← m.is64]
    refine (readAddress_echo m.toSees (hin.imp_right fun k => k.offset (.inr hf))).exact_bind ?_
    rintro ⟨offset, c⟩ ⟨offset', d⟩ - hq ⟨rfl, hcd⟩
    refine (readSect_echo m.strSect (hin.imp_right fun k => k.str hf _ _ hq)).bind ?_
    rintro ⟨str, s⟩ ⟨str', t⟩ ⟨rfl, hst⟩
    exact .ok ⟨rfl, hcd, m.sm, m.is64, hst, m.lineStrSect,
      m.calls.aside (.aside rfl rfl rfl) (.aside rfl rfl rfl), m.rows, m.dates⟩

def Counted (loose : Prop) (w : Window) (k : Nat) (bs : List UInt8) (d : Cursor) : Prop :=
  loose ∨ d.left (w.place + w.length) = afterNumbers k bs

theorem readFormat_echo {f g : List (UInt64 × UInt64) × Cursor} (hfg : Alike w f g)
    (hin : loose ∨ Numbers Ended 2 (g.2.left (w.place + w.length))) :
    Echo (Barred loose) (fun x y => Alike w x y ∧
      Counted loose w 2 (g.2.left (w.place + w.length)) y.2) (readFormat f) (readFormat g) := by
  obtain ⟨hformats, hcd⟩ := hfg
  refine (readLEB128U_echo hcd (hin.imp_right And.left)).exact_bind ?_
  rintro ⟨contentType, c⟩ ⟨contentType', d⟩ - hq1 ⟨rfl, hcd1⟩
  have h1 : loose ∨ d.left (w.place + w.length) = afterNumber (g.2.left (w.place + w.length)) ∧
      Ended (d.left (w.place + w.length)) := hin.imp_right fun k => by
    have hafter := (readLEB128U_left hcd.free k.1 hq1).2.1
    exact ⟨hafter, hafter ▸ k.2.1⟩
  refine (readLEB128U_echo hcd1 (h1.imp_right And.right)).exact_bind ?_
  rintro ⟨formatCode, c⟩ ⟨formatCode', d2⟩ - hq2 ⟨rfl, hcd2⟩
  refine .ok ⟨⟨by rw [hformats], hcd2⟩, h1.imp_right fun k => ?_⟩
  exact (readLEB128U_left hcd1.free k.2 hq2).2.1.trans (congrArg _ k.1)

theorem readFormats_echo {n : Nat} {f g : List (UInt64 × UInt64) × Cursor} (hfg : Alike w f g)
    (hin : loose ∨ Numbers Ended (2 * n) (g.2.left (w.place + w.length))) :
    Echo (Barred loose) (fun x y => Alike w x y ∧
      Counted loose w (2 * n) (g.2.left (w.place + w.length)) y.2) (Loop.times readFormat n f)
      (Loop.times readFormat n g) := by
  induction n generalizing f g with
  | zero => exact .ok ⟨hfg, .inr rfl⟩
  | succ n ih =>
    rw [Nat.mul_succ, Nat.add_comm] at hin ⊢
    have hsplit := hin.imp_right fun k => Leb128.numbers_add.mp k
    refine (readFormat_echo hfg (hsplit.imp_right And.left)).bind fun x y ⟨hxy, htwo⟩ => ?_
    have hboth := or_and_left.mpr ⟨htwo, hsplit⟩
    refine (ih hxy (hboth.imp_right fun ⟨h, k⟩ => by rw [h]; exact k.2)).mono
      fun u v ⟨huv, hafter⟩ => ⟨huv, ?_⟩
    refine (or_and_left.mpr ⟨htwo, hafter⟩).imp_right fun ⟨h, k⟩ => ?_
    rw [k, h, Leb128.afterNumbers_add]

structure DirAlike (loose : Prop) (w : Window) (h h' : Reader) (x y : DirState) : Prop where
  s : Mirrored loose w h h' x.s y.s
  more : y.more = x.more

theorem readDirBody_echo {x y : DirState} (hxy : DirAlike loose w h h' x y)
    (hin : loose ∨ 0 ∈ y.s.c.left (w.place + w.length)) :
    Echo (Barred loose) (DirAlike loose w h h') (readDirBody x) (readDirBody y) := by
  refine (readName_echo hxy.s.toSees hin).bind ?_
  rintro ⟨name, c⟩ ⟨name', d⟩ ⟨rfl, hcd⟩
  refine Echo.ite Iff.rfl (fun _ => .ok ⟨hxy.s.cursor hcd, rfl⟩) fun _ => ?_
  rw [hxy.s.sm]
  refine Echo.refl.bind ?_
  rintro sm _ rfl
  exact .ok ⟨hxy.s.renew hcd rfl, rfl⟩

theorem readDir4_echo (m : Mirrored loose w h h' r q) (hv : q.sm.version < 5)
    (hin : loose ∨ DirsWithin (w.place + w.length) q) :
    Echo (Barred loose) (Mirrored loose w h h') (readDir4 r) (readDir4 q) := by
  have hsize := m.size
  refine Echo.bind (R := DirAlike loose w h h') ?_ fun x y hxy => .ok hxy.s
  refine Echo.run (fun x => w.start + w.length - x.s.c.off) (fun _ _ hxy => hxy.more.symm)
    (fun x y hvisit hm hxy => ?_) ?_ ?_ ⟨m, rfl⟩
  · have hname := hin.imp_right fun k => k.names hv y hvisit hm
    refine ((readDirBody_echo hxy hname).meets (readDirBody_meets hxy.s.plain)).mono fun u v huv =>
      ⟨huv.1, ?_⟩
    have hoff := huv.2.off
    have hshift := hxy.s.shift
    have hshift' := huv.1.s.shift
    have hle := huv.1.s.off_le
    omega
  · dsimp only
    omega
  · have hroom := m.room_le
    omega

theorem readDirEntry5_echo {formats : List (UInt64 × UInt64)} (m : Mirrored loose w h h' r q)
    (hin : loose ∨ ∀ pre format post d, formats = pre ++ format :: post →
      pre.foldlM readDirField (.text [], q) = .ok d → format.1 = lnctPath →
      PathWithin (w.place + w.length) format.2 d.2) :
    Echo (Barred loose) (Mirrored loose w h h') (readDirEntry5 formats r) (readDirEntry5 formats q) := by
  refine Echo.bind (R := Together loose w h h')
    (Echo.foldlM (fun pre format post x y hsplit hy hxy => ?_) ⟨rfl, m⟩) ?_
  · obtain ⟨hdir, m⟩ := hxy
    refine Echo.ite Iff.rfl (fun hpath => ?_) fun _ => .error _
    rw [hdir]
    exact readPath_echo _ _ m (hin.imp_right fun k => k pre format post y hsplit hy hpath)
  · rintro ⟨dir, r⟩ ⟨dir', q⟩ ⟨rfl, m⟩
    dsimp only at m ⊢
    rw [m.sm]
    refine Echo.refl.bind ?_
    rintro sm _ rfl
    exact .ok (m.renew m.toSees rfl)

theorem dirStart5_echo (m : Mirrored loose w h h' r q) (hv : ¬ q.sm.version < 5)
    (hin : loose ∨ DirsWithin (w.place + w.length) q) :
    Echo (Barred loose) (fun x y => y.1 = x.1 ∧ y.2.1 = x.2.1 ∧ Mirrored loose w h h' x.2.2 y.2.2)
      (dirStart5 r) (dirStart5 q) := by
  have hcons : loose ∨ ∃ b bs, q.c.left (w.place + w.length) = b :: bs ∧
      (b = 1 → Numbers Ended 3 bs) := hin.imp_right fun k => by
    have hnumbers := k.numbers hv
    cases hleft : q.c.left (w.place + w.length) with
    | nil => exact absurd hleft (k.count hv)
    | cons b bs =>
      rw [hleft] at hnumbers
      exact ⟨b, bs, rfl, fun hb => hnumbers (by rw [hb]; rfl)⟩
  refine (m.readU8 (hcons.imp_right fun ⟨b, bs, hleft, _⟩ => (left_cons hleft).1)).exact_bind ?_
  rintro x y - hy ⟨count, c, d, rfl, rfl, hcd⟩
  refine Echo.ite Iff.rfl (fun _ => .error _) fun hone => Echo.ite Iff.rfl (fun _ => .error _) fun hzero => ?_
  have hcount : count = 1 := by
    rw [UInt8.lt_iff_toNat_lt] at hone
    have hne : count.toNat ≠ 0 := fun h => hzero (UInt8.toNat_inj.mp h)
    have h1 : (1 : UInt8).toNat = 1 := rfl
    exact UInt8.toNat_inj.mp (by omega)
  have hnumbers : loose ∨ Numbers Ended (2 * count.toNat + 1) (d.left (w.place + w.length)) :=
    hcons.imp_right fun ⟨b, bs, hleft, hbs⟩ => by
      obtain ⟨-, tail, hrest, hafter⟩ := left_cons hleft
      rw [Cursor.readU8_rest m.free hrest] at hy
      cases hy
      rw [hafter, hcount]
      exact hbs hcount
  have hsplit := hnumbers.imp_right fun k => Leb128.numbers_add.mp k
  refine (readFormats_echo (f := ([], c)) (g := ([], d)) ⟨rfl, hcd⟩ (hsplit.imp_right And.left)).bind ?_
  rintro ⟨formats, c⟩ ⟨formats', d'⟩ ⟨⟨rfl, hcd'⟩, hafter⟩
  have hlast := (or_and_left.mpr ⟨hafter, hsplit⟩).imp_right fun ⟨h, k⟩ => h ▸ k.2.1
  refine (readLEB128U_echo hcd' hlast).bind ?_
  rintro ⟨directoriesCount, c⟩ ⟨directoriesCount', d⟩ ⟨rfl, hcd⟩
  exact .ok ⟨rfl, rfl, m.cursor hcd⟩

theorem readDir5_echo (m : Mirrored loose w h h' r q) (hv : ¬ q.sm.version < 5)
    (hin : loose ∨ DirsWithin (w.place + w.length) q) :
    Echo (Barred loose) (Mirrored loose w h h') (readDir5 r) (readDir5 q) := by
  rw [readDir5_eq, readDir5_eq]
  refine (dirStart5_echo m hv hin).exact_bind ?_
  rintro ⟨formats, n, r⟩ ⟨formats', n', s⟩ - hstart ⟨rfl, rfl, m⟩
  refine Echo.times (fun k x y hk hy mxy => readDirEntry5_echo mxy ?_) m
  exact hin.imp_right fun b pre format post d hsplit hd hpath =>
    b.fields hv formats' y ⟨n', s, k, hstart, hk, hy⟩ pre format post d hsplit hd hpath

theorem readDir_echo (m : Mirrored loose w h h' r q)
    (hin : loose ∨ DirsWithin (w.place + w.length) q) :
    Echo (Barred loose) (Mirrored loose w h h') (readDir r) (readDir q) := by
  refine Echo.ite (by rw [m.sm]) (fun hv => ?_) fun hv => ?_
  · exact readDir4_echo m (m.sm ▸ hv) hin
  · exact readDir5_echo m (m.sm ▸ hv) hin

structure FileAlike (loose : Prop) (w : Window) (h h' : Reader) (x y : FileState) : Prop where
  s : Mirrored loose w h h' x.s y.s
  name : y.name = x.name

structure EntryAlike (loose : Prop) (w : Window) (h h' : Reader) (x y : FileEntry) : Prop where
  s : Mirrored loose w h h' x.s y.s
  fileName : y.fileName = x.fileName
  dirName : y.dirName = x.dirName

theorem readFileField_echo {x y : FileEntry} {format : UInt64 × UInt64}
    (hxy : EntryAlike loose w h h' x y) (hin : loose ∨ FieldWithin (w.place + w.length) format y) :
    Echo (Barred loose) (EntryAlike loose w h h') (readFileField x format)
      (readFileField y format) := by
  refine Echo.ite Iff.rfl (fun hf => ?_) fun _ => Echo.ite Iff.rfl (fun hf => ?_) fun _ =>
    Echo.ite Iff.rfl (fun hf => ?_) fun _ => .error _
  · rw [hxy.fileName]
    refine (readPath_echo _ _ hxy.s (hin.imp_right fun k => k.path hf)).bind ?_
    rintro ⟨fileName, r⟩ ⟨fileName', q⟩ ⟨rfl, m⟩
    exact .ok ⟨m, rfl, hxy.dirName⟩
  · rw [hxy.s.sm]
    refine (readLEB128U_echo hxy.s.toSees (hin.imp_right fun k => k.index hf)).bind ?_
    rintro ⟨index, c⟩ ⟨index', d⟩ ⟨rfl, hcd⟩
    dsimp only
    cases x.s.sm.includeDirectories[index'.toNat]? with
    | none => exact .ok ⟨hxy.s.cursor hcd, hxy.fileName, hxy.dirName⟩
    | some dirName => exact .ok ⟨hxy.s.cursor hcd, hxy.fileName, rfl⟩
  · refine (keep_echo hxy.s (hxy.s.readU16 (hin.imp_right fun k => k.digest hf)) fun _ sm => sm).bind
      fun r q m => ?_
    exact .ok ⟨m, hxy.fileName, hxy.dirName⟩

variable {join : Path → Path → Path}

theorem readFileBody_echo {x y : FileState} (hxy : FileAlike loose w h h' x y)
    (hin : loose ∨ EntryWithin join (w.place + w.length) y) :
    Echo (Barred loose) (FileAlike loose w h h') (readFileBody join x) (readFileBody join y) := by
  refine (readLEB128U_echo hxy.s.toSees (hin.imp_right fun k => k.numbers.1)).exact_bind ?_
  rintro ⟨dir, c⟩ ⟨dir', d1⟩ - hq1 ⟨rfl, hcd1⟩
  have h1 := hin.imp_right fun k => readLEB128U_left hxy.s.free k.numbers.1 hq1
  have hin1 := (or_and_left.mpr ⟨h1, hin⟩).imp_right fun ⟨h1, k⟩ => h1.2.1 ▸ k.numbers.2.1
  refine (readLEB128U_echo hcd1 hin1).exact_bind ?_
  rintro ⟨date, c⟩ ⟨date', d2⟩ - hq2 ⟨rfl, hcd2⟩
  have h2 := (or_and_left.mpr ⟨h1, hin1⟩).imp_right fun ⟨h1, k⟩ =>
    h1.2.1 ▸ readLEB128U_left hcd1.free k hq2
  have hin2 := (or_and_left.mpr ⟨h2, hin⟩).imp_right fun ⟨h2, k⟩ => h2.2.1 ▸ k.numbers.2.2.1
  refine (readLEB128U_echo hcd2 hin2).exact_bind ?_
  rintro ⟨size, c⟩ ⟨size', d3⟩ - hq3 ⟨rfl, hcd3⟩
  have h3 := (or_and_left.mpr ⟨h2, hin2⟩).imp_right fun ⟨h2, k⟩ =>
    h2.2.1 ▸ readLEB128U_left hcd2.free k hq3
  dsimp only
  rw [← hxy.s.sm, ← hxy.name]
  refine Echo.refl.exact_bind ?_
  rintro dirName _ - hdir rfl
  have hname : loose ∨ 0 ∈ d3.left (w.place + w.length) :=
    (or_and_left.mpr ⟨h3, hin⟩).imp_right fun ⟨h3, k⟩ => by
      rw [h3.2.1]
      exact k.name
  refine (readName_echo hcd3 hname).bind ?_
  rintro ⟨name, c'⟩ ⟨name', d'⟩ ⟨rfl, hcd'⟩
  have hall := or_and_left.mpr ⟨h1, or_and_left.mpr ⟨h2, or_and_left.mpr ⟨h3, hin⟩⟩⟩
  have hdated : loose ∨ Dated { y.s with c := d3 } (join dirName y.name) date' size' :=
    hall.imp_right fun ⟨h1, h2, h3, k⟩ => by
      rw [h2.1, h3.1]
      exact k.dated dirName (h1.1 ▸ hdir)
  have m : Mirrored loose w h h' { x.s with c := c, sm := y.s.sm } { y.s with c := d3 } :=
    hxy.s.renew hcd3 rfl
  exact .ok ⟨(m.intern hdated).cursor hcd', rfl⟩

theorem readFile4_echo (m : Mirrored loose w h h' r q) (hv : q.sm.version < 5)
    (hin : loose ∨ FilesWithin join (w.place + w.length) q) :
    Echo (Barred loose) (Mirrored loose w h h') (readFile4 join r) (readFile4 join q) := by
  refine (readName_echo m.toSees (hin.imp_right fun k => k.name hv)).exact_bind ?_
  rintro ⟨name, c⟩ ⟨name', d⟩ - hname ⟨rfl, hcd⟩
  replace hcd : Sees w c d := hcd
  have hsize := hcd.size
  refine Echo.bind (R := FileAlike loose w h h') ?_ fun x y hxy => .ok hxy.s
  refine Echo.run (fun x => w.start + w.length - x.s.c.off)
    (fun x y hxy => by rw [FileState.more, FileState.more, hxy.name]) (fun x y hvisit hm hxy => ?_) ?_ ?_
    ⟨m.cursor hcd, rfl⟩
  · have hentry := hin.imp_right fun k => k.entries hv y ⟨name', d, hname, hvisit, hm⟩
    refine ((readFileBody_echo hxy hentry).meets (readFileBody_meets hxy.s.plain)).mono fun u v huv =>
      ⟨huv.1, ?_⟩
    have hoff := huv.2.off
    have hshift := hxy.s.shift
    have hshift' := huv.1.s.shift
    have hle := huv.1.s.off_le
    omega
  · dsimp only
    omega
  · have hroom := hcd.room_le
    omega

theorem textOf_ok {d : CString} {chars : List UInt8} (h : textOf d = .ok chars) : d = .text chars := by
  cases d with
  | text chars' =>
    cases h
    rfl
  | wild => cases h

theorem readFileEntry5_echo {formats : List (UInt64 × UInt64)} (m : Mirrored loose w h h' r q)
    (hin : loose ∨ ∀ pre format post f, formats = pre ++ format :: post →
      pre.foldlM readFileField { s := q } = .ok f → FieldWithin (w.place + w.length) format f)
    (hdated : loose ∨ ∀ f d n, formats.foldlM readFileField { s := q } = .ok f →
      f.fileName ≠ .text [] → f.dirName = .text d → f.fileName = .text n →
      Dated f.s (join d n) 0 0) :
    Echo (Barred loose) (Mirrored loose w h h') (readFileEntry5 join formats r)
      (readFileEntry5 join formats q) := by
  refine Echo.exact_bind (R := EntryAlike loose w h h')
    (Echo.foldlM (fun pre format post x y hsplit hy hxy => ?_) ⟨m, rfl, rfl⟩) ?_
  · exact readFileField_echo hxy (hin.imp_right fun k => k pre format post y hsplit hy)
  intro x y _ hy hxy
  rw [← hxy.fileName, ← hxy.dirName]
  refine Echo.ite Iff.rfl (fun _ => .ok hxy.s) fun hne => ?_
  refine Echo.refl.exact_bind ?_
  rintro d _ - hd rfl
  refine Echo.refl.exact_bind ?_
  rintro n _ - hn rfl
  exact .ok (hxy.s.intern (hdated.imp_right fun k => k y d n hy hne (textOf_ok hd) (textOf_ok hn)))

theorem tableStart5_echo (m : Mirrored loose w h h' r q) (hv : ¬ q.sm.version < 5)
    (hin : loose ∨ FilesWithin join (w.place + w.length) q) :
    Echo (Barred loose) (fun x y => y.1 = x.1 ∧ y.2.1 = x.2.1 ∧ Mirrored loose w h h' x.2.2 y.2.2)
      (tableStart5 r) (tableStart5 q) := by
  have hsplit := hin.imp_right fun k => Leb128.numbers_add.mp (k.numbers hv)
  refine (readLEB128U_echo m.toSees (hsplit.imp_right fun k => k.1.1)).exact_bind ?_
  rintro ⟨count, c⟩ ⟨count', d1⟩ - hq1 ⟨rfl, hcd1⟩
  have h1 := hsplit.imp_right fun k => readLEB128U_left m.free k.1.1 hq1
  have hmore : loose ∨ Numbers Ended (2 * count'.toUInt8.toNat + 1) (d1.left (w.place + w.length)) :=
    (or_and_left.mpr ⟨h1, hsplit⟩).imp_right fun ⟨h1, k⟩ => by
      rw [h1.1, h1.2.1]
      exact k.2
  have hsplit1 := hmore.imp_right fun k => Leb128.numbers_add.mp k
  refine (readFormats_echo (f := ([], c)) (g := ([], d1)) ⟨rfl, hcd1⟩ (hsplit1.imp_right And.left)).bind ?_
  rintro ⟨formats, c⟩ ⟨formats', d2⟩ ⟨⟨rfl, hcd2⟩, hafter⟩
  have hlast := (or_and_left.mpr ⟨hafter, hsplit1⟩).imp_right fun ⟨h, k⟩ => h ▸ k.2.1
  refine (readLEB128U_echo hcd2 hlast).bind ?_
  rintro ⟨fileNamesCount, c⟩ ⟨fileNamesCount', d⟩ ⟨rfl, hcd⟩
  exact .ok ⟨rfl, rfl, m.cursor hcd⟩

theorem readFile5_echo (m : Mirrored loose w h h' r q) (hv : ¬ q.sm.version < 5)
    (hin : loose ∨ FilesWithin join (w.place + w.length) q) :
    Echo (Barred loose) (Mirrored loose w h h') (readFile5 join r) (readFile5 join q) := by
  rw [readFile5_eq, readFile5_eq]
  refine (tableStart5_echo m hv hin).exact_bind ?_
  rintro ⟨formats, n, r⟩ ⟨formats', n', s⟩ - hstart ⟨rfl, rfl, m⟩
  refine Echo.times (fun k x y hk hy mxy => ?_) m
  have hat : EntryFrom5 join q formats' y := ⟨n', s, k, hstart, hk, hy⟩
  exact readFileEntry5_echo mxy (hin.imp_right fun b => b.fields hv formats' y hat)
    (hin.imp_right fun b => b.dated hv formats' y hat)

theorem readFile_echo (m : Mirrored loose w h h' r q)
    (hin : loose ∨ FilesWithin join (w.place + w.length) q) :
    Echo (Barred loose) (Mirrored loose w h h') (readFile join r) (readFile join q) := by
  refine Echo.ite (by rw [m.sm]) (fun hv => ?_) fun hv => ?_
  · exact readFile4_echo m (m.sm ▸ hv) hin
  · exact readFile5_echo m (m.sm ▸ hv) hin

end

end Gelpp.Dwarf

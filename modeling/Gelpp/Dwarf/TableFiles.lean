import Gelpp.Dwarf.TableRead

namespace Gelpp.Dwarf

open Reader (Plain Outside)

def Reader.Indexed (s : Reader) : Prop := ∀ i ∈ s.cu.files, i < s.dl.files.length

section
variable {s : Reader}

theorem getElem?_modify_path (l : List File) (f : Nat) (g : File → File) (hg : ∀ x, (g x).path = x.path)
    (i : Nat) : ((l.modify f g)[i]?).map File.path = (l[i]?).map File.path := by
  rw [List.getElem?_modify]
  split
  · cases l[i]? with
    | none => rfl
    | some x => exact congrArg some (hg x)
  · cases l[i]? <;> rfl

def fileTable (files : List File) (path : Path) (date size : UInt64) : List File :=
  if files.findIdx (·.path == path) < files.length then files
  else files ++ [{ path, date, size, units := [] }]

theorem fileTable_prefix (files : List File) (path : Path) (date size : UInt64) {i : Nat}
    (hi : i < files.length) : (fileTable files path date size)[i]? = files[i]? := by
  rw [fileTable]
  split
  · rfl
  · exact List.getElem?_append_left hi

theorem fileTable_path (files : List File) (path : Path) (date size : UInt64) :
    ((fileTable files path date size)[files.findIdx (·.path == path)]?).map File.path = some path := by
  rw [fileTable]
  by_cases h : files.findIdx (·.path == path) < files.length
  · rw [if_pos h, List.getElem?_eq_getElem h]
    have hfound := List.findIdx_getElem (p := fun f : File => f.path == path) (w := h)
    exact congrArg some (beq_iff_eq.mp hfound)
  · have hend : files.findIdx (·.path == path) = files.length :=
      Nat.le_antisymm List.findIdx_le_length (Nat.le_of_not_lt h)
    rw [if_neg h, hend, List.getElem?_append_right (Nat.le_refl _), Nat.sub_self]
    rfl

theorem fileTable_length (files : List File) (path : Path) (date size : UInt64) :
    files.length ≤ (fileTable files path date size).length ∧
      files.findIdx (·.path == path) < (fileTable files path date size).length := by
  rw [fileTable]
  by_cases h : files.findIdx (·.path == path) < files.length
  · rw [if_pos h]
    exact ⟨Nat.le_refl _, h⟩
  · have hle : files.findIdx (·.path == path) ≤ files.length := List.findIdx_le_length
    rw [if_neg h, List.length_append, List.length_singleton]
    omega

theorem intern_files (path : Path) (date size : UInt64) (i : Nat) :
    (((s.intern path date size).dl.files)[i]?).map File.path =
      ((fileTable s.dl.files path date size)[i]?).map File.path := by
  change ((List.modify (fileTable s.dl.files path date size) _ _)[i]?).map File.path = _
  apply getElem?_modify_path
  intro x
  rfl

theorem intern_known (h : s.Indexed) (path : Path) (date size : UInt64) :
    (s.intern path date size).Indexed := by
  obtain ⟨hle, hlt⟩ := fileTable_length s.dl.files path date size
  intro i hi
  change i < (List.modify (fileTable s.dl.files path date size) _ _).length
  rw [List.length_modify]
  rcases List.mem_append.mp hi with hi | hi
  · exact (h i hi).trans_le hle
  · rw [List.mem_singleton.mp hi]
    exact hlt

theorem intern_paths (h : s.Indexed) (path : Path) (date size : UInt64) :
    (s.intern path date size).paths = s.paths ++ [some path] := by
  change (s.cu.files ++ [s.dl.files.findIdx (·.path == path)]).map _ = _
  rw [List.map_append, List.map_singleton, intern_files, fileTable_path]
  congr 1
  apply List.map_congr_left
  intro i hi
  rw [intern_files, fileTable_prefix _ _ _ _ (h i hi)]

end

section
variable {t : Tables} {e : Entry} {s : Reader} {k : List Field} {f : FileEntry}

structure FieldsRead (t : Tables) (e : Entry) (s : Reader) (k : List Field) (f : FileEntry) : Prop
    extends Aside s f.s where
  name : .path ∈ k → Located (t.form.sect s.dl) e.name → f.fileName = .text e.name.text
  dir : .directoryIndex ∈ k → s.sm.includeDirectories[e.index]? = some f.dirName

def Tables.format (t : Tables) (a : Field) : UInt64 × UInt64 :=
  wordPair (a.contentType, a.formatCode t.form)

theorem readPathField {bs tail : List UInt8} (hs : s.Plain) (hk : FieldsRead t e s k f)
    (h : EncodesPath s.dl.is64 s.c.buf.decoder.order t.form e.name bs)
    (hrest : f.s.c.rest = bs ++ tail) :
    ∃ g, readFileField f (t.format .path) = .ok g ∧ FieldsRead t e s (k ++ [.path]) g ∧
      g.s.c.rest = tail := by
  rw [← hk.is64, ← hk.buf] at h
  obtain ⟨r, hr, hpath⟩ := readPath_encoded (hk.toOutside.plain hs) h hrest
    "Don't know how to get the files." f.fileName
  refine ⟨{ f with s := r.2, fileName := r.1 }, ?_, ⟨hk.toAside.trans hpath.toAside, ?_, ?_⟩,
    hpath.rest⟩
  · rw [readFileField, if_pos (by rfl)]
    change (readPath _ (.ofNat t.form.code) _ _ >>= _) = _
    rw [hr]
    rfl
  · intro _ hl
    rw [← hk.toOutside.sect] at hl
    exact hpath.text hl
  · intro hmem
    rcases List.mem_append.mp hmem with hmem | hmem
    · exact hk.dir hmem
    · cases List.mem_singleton.mp hmem

theorem readIndexField {bs tail : List UInt8} (hs : s.Plain) (hk : FieldsRead t e s k f)
    (h : EncodesU e.index bs) (hindex : e.index < s.sm.includeDirectories.length)
    (hlt : e.index < 2 ^ 63) (hrest : f.s.c.rest = bs ++ tail) :
    ∃ g, readFileField f (t.format .directoryIndex) = .ok g ∧
      FieldsRead t e s (k ++ [.directoryIndex]) g ∧ g.s.c.rest = tail := by
  have hread := h.read (hk.toOutside.plain hs).c hrest
  have hdir := List.getElem?_eq_getElem hindex
  refine ⟨{ f with s := { f.s with c := f.s.c.forward bs.length }, dirName := _ }, ?_,
    ⟨hk.toAside.trans (aside_cursor f.s rfl), ?_, fun _ => hdir⟩, Cursor.forward_tail hrest⟩
  · have hother : ¬ (t.format .directoryIndex).1 = lnctPath :=
      show ¬ lnctDirectoryIndex = lnctPath by decide
    rw [readFileField, if_neg hother, if_pos (by rfl), hread, Res.ok_bind]
    dsimp only
    rw [ofNat_toNat hlt, hk.sm, hdir]
    rfl
  · intro hmem
    rcases List.mem_append.mp hmem with hmem | hmem
    · exact hk.name hmem
    · cases List.mem_singleton.mp hmem

theorem readFields_encoded {bs tail : List UInt8} (hs : s.Plain) (hplain : .md5 ∉ t.fields)
    (h : Concat (EncodesField s.dl.is64 s.c.buf.decoder.order t.form e) t.fields bs)
    (hindex : e.index < s.sm.includeDirectories.length) (hlt : e.index < 2 ^ 63)
    (hrest : s.c.rest = bs ++ tail) :
    ∃ g, (t.fields.map t.format).foldlM readFileField { s } = .ok g ∧ FieldsRead t e s t.fields g ∧
      g.s.c.rest = tail := by
  rw [List.foldlM_map]
  have hstep (k : List Field) (a : Field) (bs : List UInt8) (f : FileEntry) (tail : List UInt8)
      (hk : FieldsRead t e s k f)
      (ha : a ∈ t.fields ∧ EncodesField s.dl.is64 s.c.buf.decoder.order t.form e a bs)
      (hrest : f.s.c.rest = bs ++ tail) :
      Meets (fun _ => False) (fun g : FileEntry => FieldsRead t e s (k ++ [a]) g ∧ g.s.c.rest = tail)
        (readFileField f (t.format a)) := by
    cases a with
    | path =>
      obtain ⟨g, hg, hread⟩ := readPathField hs hk ha.2 hrest
      rw [hg]
      exact hread
    | directoryIndex =>
      obtain ⟨g, hg, hread⟩ := readIndexField hs hk ha.2 hindex hlt hrest
      rw [hg]
      exact hread
    | md5 => exact absurd ha.1 hplain
  exact (Concat.foldlM_meets (FieldsRead t e s) (fun f => f.s.c.rest) hstep h.mem (k := [])
    (s := { s }) ⟨.refl s, nofun, nofun⟩ hrest).ok_of_never

end

section
variable (join : Path → Path → Path) {t : Tables} {s : Reader}

structure Seeded (t : Tables) (s : Reader) : Prop extends s.Plain where
  length : s.sm.includeDirectories.length = 1 + t.dirs.length
  text : t.InRange s.dl →
    s.sm.includeDirectories = .text [46] :: t.dirs.map fun d => .text d.text

theorem Seeded.directory {k : Nat} {d : CString} (h : Seeded t s) (hr : t.InRange s.dl)
    (hd : s.sm.includeDirectories[k]? = some d) : d = .text (t.seeded k) := by
  have hmap : s.sm.includeDirectories = ([46] :: t.dirs.map Stored.text).map CString.text := by
    rw [h.text hr, List.map_cons, List.map_map]
    rfl
  rw [hmap, List.getElem?_map] at hd
  obtain ⟨chars, hchars, rfl⟩ := Option.map_eq_some_iff.mp hd
  rw [Tables.seeded, List.getD_eq_getElem?_getD, hchars]
  rfl

structure FilesRead (t : Tables) (s : Reader) (k : List Entry) (u : Reader) : Prop
    extends Outside s u where
  sm : u.sm = s.sm
  indexed : u.Indexed
  paths : t.InRange s.dl →
    u.paths = s.paths ++ k.map fun e => some (join (t.seeded e.index) e.name.text)

def Strayed (t : Tables) (s : Reader) (e : Stop) : Prop := e = .fault .bounds ∧ ¬ t.InRange s.dl

theorem textOf_strayed (hr : ¬ t.InRange s.dl) (d : CString) :
    Meets (Strayed t s) (fun _ => True) (textOf d) := by
  cases d with
  | text chars => trivial
  | wild => exact ⟨rfl, hr⟩

theorem readFileEntry5_encoded {k : List Entry} {u : Reader} {e : Entry} {bs tail : List UInt8}
    (hs : Seeded t s) (hplain : .md5 ∉ t.fields) (hk : FilesRead join t s k u) (he : e ∈ t.files)
    (hlt : e.index < 2 ^ 63)
    (h : Concat (EncodesField s.dl.is64 s.c.buf.decoder.order t.form e) t.fields bs)
    (hrest : u.c.rest = bs ++ tail) :
    Meets (Strayed t s) (fun v => FilesRead join t s (k ++ [e]) v ∧ v.c.rest = tail)
      (readFileEntry5 join (t.fields.map t.format) u) := by
  rw [← hk.is64, ← hk.buf] at h
  have hindex : e.index < u.sm.includeDirectories.length := by
    have hindex := t.index_lt e he
    rw [hk.sm, hs.length]
    omega
  obtain ⟨g, hg, hread, htail⟩ := readFields_encoded (hk.toOutside.plain hs.toPlain) hplain h hindex
    hlt hrest
  have hout : Outside s g.s := hk.toOutside.trans hread.toOutside
  have hsm : g.s.sm = s.sm := hread.sm.trans hk.sm
  have hindexed : g.s.Indexed := by
    rw [Reader.Indexed, hread.cu, hread.filed]
    exact hk.indexed
  have hsame : g.s.paths = u.paths := by
    rw [Reader.paths, hread.cu, hread.filed]
    rfl
  have hintern (path : Path) : Outside s (g.s.intern path 0 0) :=
    hout.trans (Reader.filed_intern g.s path 0 0).toOutside
  rw [readFileEntry5, hg, Res.ok_bind]
  by_cases hr : t.InRange s.dl
  · have hname : g.fileName = .text e.name.text := by
      apply hread.name t.path_mem
      rw [hk.toOutside.sect]
      exact hr.2 e he
    have hdir : g.dirName = .text (t.seeded e.index) := by
      have hdir := hread.dir t.index_mem
      rw [hk.sm] at hdir
      exact hs.directory hr hdir
    rw [hname, if_neg fun hnil => t.named e he (CString.text.inj hnil), hdir]
    refine ⟨⟨hintern _, hsm, intern_known hindexed _ _ _, fun _ => ?_⟩, htail⟩
    rw [intern_paths hindexed, hsame, hk.paths hr, List.map_append, List.append_assoc]
    rfl
  · split
    · exact ⟨⟨hout, hsm, hindexed, fun h => absurd h hr⟩, htail⟩
    · refine (textOf_strayed hr g.dirName).bind fun d _ => ?_
      refine (textOf_strayed hr g.fileName).bind fun n _ => ?_
      exact ⟨⟨hintern _, hsm, intern_known hindexed _ _ _, fun h => absurd h hr⟩, htail⟩

theorem fields_length (t : Tables) : t.fields.length ≤ 3 := by
  have hsub : t.fields ⊆ [.path, .directoryIndex, .md5] := by
    intro k _
    cases k <;> decide
  exact (List.subperm_of_subset t.fields_nodup hsub).length_le

theorem encodes_count {n : Nat} (hn : n < 128) : EncodesU n [.ofNat n] := by
  have hb : (UInt8.ofNat n).toNat = n := UInt8.toNat_ofNat_of_lt' (by rw [UInt8.size]; omega)
  refine ⟨⟨.last (by omega), Nat.le_add_left 1 9⟩, ?_⟩
  rw [Leb128.unsigned_cons, Leb128.digit, hb, Leb128.unsigned_nil]
  omega

theorem readFile5_entries {bs tail : List UInt8} (hs : s.Plain)
    (h : t.EncodesFiles s.dl.is64 s.c.buf.decoder.order bs) (hrest : s.c.rest = bs ++ tail) :
    ∃ (d : Cursor) (entries : List UInt8),
      readFile5 join s = Loop.times (readFileEntry5 join (t.fields.map t.format)) t.files.length
        { s with c := d } ∧
      Concat (fun e => Concat (EncodesField s.dl.is64 s.c.buf.decoder.order t.form e) t.fields)
        t.files entries ∧
      d.buf = s.c.buf ∧ d.rest = entries ++ tail := by
  obtain ⟨formats, count, entries, rfl, hformats, hcount, hentries⟩ := h
  rw [List.cons_append, List.append_assoc, List.append_assoc] at hrest
  have hc := hs.c
  have hlen := fields_length t
  have hfirst := (encodes_count (by omega)).read hc hrest
  have hrest1 : (s.c.forward 1).rest = formats ++ (count ++ (entries ++ tail)) := by
    rw [Cursor.forward_rest, hrest]
    rfl
  obtain ⟨d, hread, hbuf, hrest2⟩ := readFormats_encoded (c := s.c.forward 1) hc hformats hrest1
  have hentry (e : Entry) (cs : List UInt8)
      (he : Concat (EncodesField s.dl.is64 s.c.buf.decoder.order t.form e) t.fields cs) :
      1 ≤ cs.length := by
    obtain ⟨ds, hds, hle⟩ := he.exists_of_mem t.path_mem
    exact (EncodesPath.length_pos hds).trans hle
  have hlt : t.files.length < 2 ^ 63 :=
    count_lt (hentries.length_le fun e _ cs hcs => hentry e cs hcs) hrest2
  have hd : d.buf.fence = none := hbuf ▸ hc
  have hnumber := hcount.read hd hrest2
  have hbyte : (UInt64.ofNat t.fields.length).toUInt8.toNat = t.formats.length := by
    rw [UInt64.toNat_toUInt8, ofNat_toNat (by omega), Tables.formats, List.length_map]
    omega
  have hwords : t.formats.map wordPair = t.fields.map t.format := by
    rw [Tables.formats, List.map_map]
    rfl
  refine ⟨d.forward count.length, entries, ?_, hentries, hbuf, Cursor.forward_tail hrest2⟩
  rw [readFile5, hfirst, Res.ok_bind]
  dsimp only
  rw [hbyte, show [UInt8.ofNat t.fields.length].length = 1 from rfl, hread, Res.ok_bind]
  dsimp only
  rw [hnumber, Res.ok_bind]
  dsimp only
  rw [ofNat_toNat hlt, hwords]

theorem readFile5_encoded {bs tail : List UInt8} (hs : Seeded t s) (hi : s.Indexed)
    (hplain : .md5 ∈ t.fields → t.files = []) (hdirs : t.dirs.length < 2 ^ 63)
    (h : t.EncodesFiles s.dl.is64 s.c.buf.decoder.order bs) (hrest : s.c.rest = bs ++ tail) :
    Meets (Strayed t s) (fun v => FilesRead join t s t.files v ∧ v.c.rest = tail)
      (readFile5 join s) := by
  obtain ⟨d, entries, hrun, hentries, hbuf, hd⟩ := readFile5_entries join hs.toPlain h hrest
  have hstep (k : List Entry) (e : Entry) (bs : List UInt8) (u : Reader) (tail : List UInt8)
      (hk : FilesRead join t s k u)
      (he : e ∈ t.files ∧
        Concat (EncodesField s.dl.is64 s.c.buf.decoder.order t.form e) t.fields bs)
      (hrest : u.c.rest = bs ++ tail) :
      Meets (Strayed t s) (fun v => FilesRead join t s (k ++ [e]) v ∧ v.c.rest = tail)
        (readFileEntry5 join (t.fields.map t.format) u) := by
    have hmd5 : .md5 ∉ t.fields := by
      intro hmem
      have hnil := he.1
      rw [hplain hmem] at hnil
      cases hnil
    exact readFileEntry5_encoded join hs hmd5 hk he.1 ((t.index_lt e he.1).trans hdirs) he.2 hrest
  have hstart : FilesRead join t s [] { s with c := d } :=
    ⟨(aside_cursor s hbuf).toOutside, rfl, hi, fun _ => (List.append_nil _).symm⟩
  rw [hrun, Loop.times_eq_foldlM]
  exact Concat.foldlM_meets (FilesRead join t s) (fun u => u.c.rest) hstep hentries.mem (k := [])
    hstart hd

variable {dirBytes fileBytes : List UInt8}

theorem AtTables.dirs_lt (h : AtTables s t dirBytes fileBytes) : t.dirs.length < 2 ^ 63 := by
  obtain ⟨format, count, entries, rfl, -, -, hentries⟩ := h.dirTable
  obtain ⟨tail, hrest⟩ := h.rest
  rw [List.cons_append, List.append_assoc, List.append_assoc, ← List.cons_append,
    ← List.append_assoc] at hrest
  exact count_lt (hentries.length_le fun _ _ cs hcs => hcs.length_pos) hrest

theorem DirsRead.seeded {u : Reader} (h : AtTables s t dirBytes fileBytes)
    (hread : DirsRead t.dirForm s t.dirs u) : Seeded t u where
  toPlain := hread.toOutside.plain h.toPlain
  length := by
    rw [hread.length, h.fresh]
    rfl
  text hr := by
    rw [hread.text fun d hd => hread.toOutside.sect t.dirForm ▸ hr.1 d hd, h.fresh]
    rfl

theorem inRange_outside {u : Reader} (h : Outside s u) : t.InRange u.dl ↔ t.InRange s.dl := by
  rw [Tables.InRange, Tables.InRange, h.sect, h.sect]

structure BothRead (s u : Reader) (t : Tables) (n : Nat) : Prop where
  buf : u.c.buf = s.c.buf
  off : u.c.off = s.c.off + n
  fits : t.Fits
  paths : t.InRange s.dl → u.paths = t.files.map fun e => some (join (t.seeded e.index) e.name.text)

def Spoiled (t : Tables) (s : Reader) (e : Stop) : Prop := t.Crowded e ∨ Strayed t s e

theorem readTables_encoded (h : AtTables s t dirBytes fileBytes)
    (hplain : .md5 ∈ t.fields → t.files = []) :
    Meets (Spoiled t s) (fun v => BothRead join s v t (dirBytes ++ fileBytes).length)
      (readDir s >>= readFile join) := by
  obtain ⟨tail, hstart⟩ := h.rest
  refine ((readDir_encoded h hstart).mono (fun _ he => .inl he) fun _ hu => hu).bind
    fun u ⟨⟨hread, hfits⟩, hrest⟩ => ?_
  have hs := hread.seeded h
  have hr := inRange_outside (t := t) hread.toOutside
  have hindexed : u.Indexed := by
    rw [Reader.Indexed, hread.cu, h.files]
    exact nofun
  have htable := h.fileTable
  rw [← hread.is64, ← hread.buf] at htable
  have hfiles := readFile5_encoded join hs hindexed hplain h.dirs_lt htable hrest
  have hversion : ¬ u.sm.version < 5 := by
    rw [hread.version, h.version]
    decide
  rw [readFile, if_neg hversion]
  refine hfiles.mono (fun e he => .inr ⟨he.1, fun hin => he.2 (hr.mpr hin)⟩) fun v ⟨hv, htail⟩ => ?_
  have hbuf : v.c.buf = s.c.buf := hv.buf.trans hread.buf
  refine ⟨hbuf, ?_, hfits, fun hin => ?_⟩
  · rw [← List.append_assoc] at hstart
    exact Cursor.off_of_rest hstart hbuf htail
  · have hnone : u.paths = [] := by
      rw [Reader.paths, hread.cu, h.files]
      rfl
    rw [hv.paths (hr.mpr hin), hnone, List.nil_append]

theorem not_exception_of_spoiled {message : String} : ¬ Spoiled t s (.exception message) := by
  rintro (⟨he, -⟩ | ⟨he, -⟩)
  · cases he
  · cases he

theorem plain_decode_iff (h : AtTables s t dirBytes fileBytes)
    (hplain : .md5 ∈ t.fields → t.files = []) :
    t.Decode join s (dirBytes ++ fileBytes).length ↔ ¬ t.Astray s.dl ∧ (t.InRange s.dl →
      t.Fits ∧ ∀ e ∈ t.files,
        join (t.seeded e.index) e.name.text = join (t.directory e.index) e.name.text) := by
  have hmeets := readTables_encoded join h hplain
  constructor
  · rintro ⟨hin, hout⟩
    constructor
    · intro hastray
      obtain ⟨message, herror⟩ := hout hastray
      exact not_exception_of_spoiled (hmeets.of_error herror)
    · intro hr
      obtain ⟨u, hu, hread⟩ := hin hr
      have hboth := hmeets.of_ok hu
      refine ⟨hboth.fits, fun e he => ?_⟩
      have hpaths := hboth.paths hr
      rw [hread.paths] at hpaths
      have hsame := List.map_inj_left.mp hpaths e he
      exact (Option.some.inj hsame).symm
  · rintro ⟨hastray, hsame⟩
    refine ⟨fun hr => ?_, fun h => absurd h hastray⟩
    obtain ⟨hfits, hsame⟩ := hsame hr
    have hnever := hmeets.mono (B := fun _ => False)
      (fun e he => he.elim (fun h => h.2 hfits) fun h => h.2 hr) fun _ hv => hv
    obtain ⟨u, hu, hread⟩ := hnever.ok_of_never
    refine ⟨u, hu, hread.buf, hread.off, ?_⟩
    rw [hread.paths hr]
    exact List.map_congr_left fun e he => congrArg some (hsame e he)

end

end Gelpp.Dwarf

import Gelpp.Dwarf.Indices
import Gelpp.Dwarf.TableFiles

namespace Gelpp.Dwarf

open Reader (Plain Outside)

theorem not_raised_fault (kind : Fault) : ¬ Raised (.fault kind) := by
  rintro ⟨m, hm⟩
  cases hm

theorem not_raised_steps : ¬ Raised .steps := by
  rintro ⟨m, hm⟩
  cases hm

structure Within (n : Nat) (c d : Cursor) : Prop where
  buf : d.buf = c.buf
  off : d.off ≤ c.off + n

section
variable {c d : Cursor} {m n : Nat}

theorem Within.trans {e : Cursor} (h : Within m c d) (h' : Within n d e) : Within (m + n) c e :=
  ⟨h'.buf.trans h.buf, by
    have := h.off
    have := h'.off
    omega⟩

theorem readOrRaise_within {α : Type} {get : Buffer → Nat → α} (hf : c.buf.fence = none)
    (hroom : c.off + n ≤ c.buf.size) :
    Meets (¬ Raised ·) (fun r => Within n c r.2) (c.read n get >>= errorIf) := by
  rw [Cursor.read_some hf hroom]
  exact ⟨rfl, (Cursor.forward_off hroom).le⟩

theorem readLEB128U_within (hf : c.buf.fence = none) (hroom : c.off + 11 ≤ c.buf.size) :
    Meets (¬ Raised ·) (fun r => Within 11 c r.2) (readLEB128U c) := by
  have hbody (s : LebState) (hs : s.c.buf = c.buf ∧ 7 * s.c.off ≤ 7 * c.off + s.p ∧ s.p ≤ 70) :
      Meets (¬ Raised ·) (fun t : LebState =>
        t.c.buf = c.buf ∧ 7 * t.c.off ≤ 7 * c.off + t.p ∧ t.p ≤ 70) (lebBody s) := by
    obtain ⟨hbuf, hoff, hp⟩ := hs
    have hnext : s.c.off + 1 ≤ s.c.buf.size := by
      rw [hbuf]
      omega
    rw [lebBody, ← bind_assoc]
    refine (readOrRaise_within (hbuf ▸ hf) hnext).bind fun r hr => ?_
    dsimp only
    split
    · exact not_raised_fault .shift
    · have hoff' := hr.off
      refine ⟨hr.buf.trans hbuf, ?_, ?_⟩
      · dsimp only
        omega
      · dsimp only
        omega
  have hrun : Meets (¬ Raised ·) (fun t : LebState =>
      t.c.buf = c.buf ∧ 7 * t.c.off ≤ 7 * c.off + t.p ∧ t.p ≤ 70) (readLEB128 c) := by
    rw [readLEB128]
    exact (Meets.run_stuck (A := (¬ Raised ·)) _ not_raised_steps (fun t _ _ ht => hbody t ht)
      ⟨rfl, Nat.le_refl _, Nat.zero_le _⟩).post fun t ht => ht.1
  refine hrun.bind fun t ht => ⟨ht.1, ?_⟩
  have hoff := ht.2.1
  have hp := ht.2.2
  dsimp only
  omega

theorem readAddress_within {is64 : Bool} (hf : c.buf.fence = none)
    (hroom : c.off + offsetSize is64 ≤ c.buf.size) :
    Meets (¬ Raised ·) (fun r => Within (offsetSize is64) c r.2) (readAddress is64 c) := by
  cases is64 with
  | true => exact readOrRaise_within hf hroom
  | false =>
    rw [readAddress, if_neg (by decide), ← bind_assoc]
    exact (readOrRaise_within hf hroom).bind fun r hr => hr

end

section
variable {s : Reader}

structure Advanced (n : Nat) (s t : Reader) : Prop extends Outside s t where
  off : t.c.off ≤ s.c.off + n

theorem Advanced.refl (s : Reader) : Advanced 0 s s := ⟨.refl s, Nat.le_refl _⟩

theorem Advanced.trans {m n : Nat} {t u : Reader} (h : Advanced m s t) (h' : Advanced n t u) :
    Advanced (m + n) s u :=
  ⟨h.toOutside.trans h'.toOutside, by
    have := h.off
    have := h'.off
    omega⟩

theorem Advanced.room {m n : Nat} {t : Reader} (h : Advanced m s t)
    (hroom : s.c.off + (m + n) ≤ s.c.buf.size) : t.c.off + n ≤ t.c.buf.size := by
  have hoff := h.off
  rw [h.buf]
  omega

theorem advanced_cursor {n : Nat} {c : Cursor} (h : Within n s.c c) : Advanced n s { s with c } :=
  ⟨(aside_cursor s h.buf).toOutside, h.off⟩

theorem readPath_advanced {form : PathForm} (hform : form ≠ .string) (hs : s.Plain)
    (hroom : s.c.off + offsetSize s.dl.is64 ≤ s.c.buf.size) (message : String) (old : CString) :
    Meets (¬ Raised ·) (fun r => Advanced (offsetSize s.dl.is64) s r.2)
      (readPath message (.ofNat form.code) old s) := by
  cases form with
  | string => exact absurd rfl hform
  | strp =>
    rw [readPath, if_neg (by decide), if_neg (by decide), if_pos (by decide)]
    refine (readAddress_within hs.c hroom).bind fun a ha => ?_
    obtain ⟨str, d, hread, hd⟩ := readSect_any hs.strSect a.1 old
    dsimp only
    rw [hread]
    exact ⟨⟨ha.buf, hd, rfl, rfl, rfl, rfl, List.prefix_refl _⟩, ha.off⟩
  | lineStrp =>
    rw [readPath, if_neg (by decide), if_pos (by decide)]
    refine (readAddress_within hs.c hroom).bind fun a ha => ?_
    obtain ⟨str, d, hread, hd⟩ := readSect_any hs.lineStrSect a.1 old
    dsimp only
    rw [hread]
    exact ⟨⟨ha.buf, rfl, hd, rfl, rfl, rfl, List.prefix_refl _⟩, ha.off⟩

def Field.taken (is64 : Bool) : Field → Nat
  | .path => offsetSize is64
  | .directoryIndex => 11
  | .md5 => 2

def Field.written (is64 : Bool) : Field → Nat
  | .path => offsetSize is64
  | .directoryIndex => 1
  | .md5 => 16

variable {t : Tables}

theorem readFileField_advanced (hform : t.form ≠ .string) {f : FileEntry} (hs : f.s.Plain) (k : Field)
    (hroom : f.s.c.off + k.taken f.s.dl.is64 ≤ f.s.c.buf.size) :
    Meets (¬ Raised ·) (fun g => Advanced (k.taken f.s.dl.is64) f.s g.s)
      (readFileField f (t.format k)) := by
  cases k with
  | path =>
    rw [readFileField, if_pos (by rfl)]
    exact (readPath_advanced hform hs hroom _ _).bind fun r hr => Meets.ok hr
  | directoryIndex =>
    have hother : ¬ (t.format .directoryIndex).1 = lnctPath :=
      show ¬ lnctDirectoryIndex = lnctPath by decide
    rw [readFileField, if_neg hother, if_pos (by rfl)]
    refine (readLEB128U_within hs.c hroom).bind fun r hr => ?_
    dsimp only
    split <;> exact advanced_cursor hr
  | md5 =>
    have hother : ¬ (t.format .md5).1 = lnctPath := show ¬ lnctMD5 = lnctPath by decide
    have hindex : ¬ (t.format .md5).1 = lnctDirectoryIndex :=
      show ¬ lnctMD5 = lnctDirectoryIndex by decide
    rw [readFileField, if_neg hother, if_neg hindex, if_pos (by rfl)]
    have hbytes : f.s.c.off + 2 ≤ f.s.c.buf.size := hroom
    change Meets _ _ (Reader.keep Cursor.readU16 _ _ >>= _)
    rw [Reader.keep, Cursor.readU16, Cursor.read_some hs.c hbytes]
    exact advanced_cursor ⟨rfl, (Cursor.forward_off hbytes).le⟩

theorem readFields_advanced (hform : t.form ≠ .string) {l : List Field} {f : FileEntry}
    (hs : f.s.Plain)
    (hroom : f.s.c.off + (l.map (Field.taken f.s.dl.is64)).sum ≤ f.s.c.buf.size) :
    Meets (¬ Raised ·) (fun g => Advanced (l.map (Field.taken f.s.dl.is64)).sum f.s g.s)
      ((l.map t.format).foldlM readFileField f) := by
  induction l generalizing f with
  | nil => exact .refl f.s
  | cons k l ih =>
    rw [List.map_cons, List.sum_cons] at hroom ⊢
    rw [List.map_cons, List.foldlM_cons]
    refine (readFileField_advanced hform hs k (by omega)).bind fun g hg => ?_
    have hrest := hg.room (n := (l.map (Field.taken f.s.dl.is64)).sum) (by omega)
    rw [← hg.is64] at hrest
    refine (ih (hg.toOutside.plain hs) hrest).post fun g' hg' => ?_
    rw [hg.is64] at hg'
    exact hg.trans hg'

theorem Field.written_le (hform : t.form ≠ .string) {is64 : Bool} {order : ByteOrder} {e : Entry}
    {k : Field} {bs : List UInt8} (h : EncodesField is64 order t.form e k bs) :
    k.written is64 ≤ bs.length := by
  cases k with
  | path =>
    rw [EncodesField, EncodesPath.eq_def] at h
    cases hf : t.form with
    | string => exact absurd hf hform
    | strp =>
      rw [hf] at h
      exact h.1.ge
    | lineStrp =>
      rw [hf] at h
      exact h.1.ge
  | directoryIndex => exact EncodesU.length_pos h
  | md5 =>
    rw [show bs = e.digest from h, e.digest_length]
    exact Nat.le_refl _

theorem taken_lt_written (h : .md5 ∈ t.fields) (is64 : Bool) :
    (t.fields.map (Field.taken is64)).sum < (t.fields.map (Field.written is64)).sum := by
  have hperm : t.fields.Perm [.path, .directoryIndex, .md5] := by
    apply (List.perm_ext_iff_of_nodup t.fields_nodup (by decide)).mpr
    intro k
    cases k with
    | path => simp [t.path_mem]
    | directoryIndex => simp [t.index_mem]
    | md5 => simp [h]
  rw [(hperm.map _).sum_eq, (hperm.map _).sum_eq]
  cases is64 <;> decide

section
variable (join : Path → Path → Path)

theorem textOf_calm (d : CString) : Meets (¬ Raised ·) (fun _ => True) (textOf d) := by
  cases d with
  | text chars => trivial
  | wild => exact not_raised_fault .bounds

theorem readFileEntry5_advanced (hform : t.form ≠ .string) {u : Reader} (hs : u.Plain)
    (hroom : u.c.off + (t.fields.map (Field.taken u.dl.is64)).sum ≤ u.c.buf.size) :
    Meets (¬ Raised ·) (Advanced (t.fields.map (Field.taken u.dl.is64)).sum u)
      (readFileEntry5 join (t.fields.map t.format) u) := by
  refine (readFields_advanced hform hs hroom).bind fun g hg => ?_
  split
  · exact hg
  · refine (textOf_calm g.dirName).bind fun d _ => ?_
    refine (textOf_calm g.fileName).bind fun n _ => ?_
    exact ⟨hg.toOutside.trans (Reader.filed_intern g.s _ 0 0).toOutside, hg.off⟩

theorem readEntries_advanced (hform : t.form ≠ .string) {u : Reader} (hs : u.Plain) (n : Nat)
    (hroom : u.c.off + n * (t.fields.map (Field.taken u.dl.is64)).sum ≤ u.c.buf.size) :
    Meets (¬ Raised ·) (Advanced (n * (t.fields.map (Field.taken u.dl.is64)).sum) u)
      (Loop.times (readFileEntry5 join (t.fields.map t.format)) n u) := by
  induction n generalizing u with
  | zero =>
    rw [Nat.zero_mul]
    exact .refl u
  | succ n ih =>
    rw [Nat.succ_mul, Nat.add_comm] at hroom ⊢
    refine (readFileEntry5_advanced join hform hs (by omega)).bind fun v hv => ?_
    have hrest := hv.room (n := n * (t.fields.map (Field.taken u.dl.is64)).sum) (by omega)
    rw [← hv.is64] at hrest
    refine (ih (hv.toOutside.plain hs) hrest).post fun w hw => ?_
    rw [hv.is64] at hw
    exact hv.trans hw

variable {dirBytes fileBytes : List UInt8}

theorem readTables_short (h : AtTables s t dirBytes fileBytes) (hmd5 : .md5 ∈ t.fields)
    (hform : t.form ≠ .string) (hfiles : t.files ≠ []) :
    Meets (¬ Raised ·) (fun v => v.c.off < s.c.off + (dirBytes ++ fileBytes).length)
      (readDir s >>= readFile join) := by
  obtain ⟨tail, hstart⟩ := h.rest
  refine ((readDir_encoded h hstart).mono (fun _ he => he.1 ▸ not_raised_fault .overflow)
    fun _ hu => hu).bind fun u ⟨⟨hread, _⟩, hrest⟩ => ?_
  have hu : u.Plain := hread.toOutside.plain h.toPlain
  have htable := h.fileTable
  rw [← hread.is64, ← hread.buf] at htable
  obtain ⟨d, entries, hrun, hentries, hbuf, hd⟩ := readFile5_entries join hu htable hrest
  have hversion : ¬ u.sm.version < 5 := by
    rw [hread.version, h.version]
    decide
  have hlen : t.files.length * (t.fields.map (Field.written u.dl.is64)).sum ≤ entries.length :=
    hentries.length_le fun e _ cs hcs => hcs.sum_le fun k ds hds => Field.written_le hform hds
  have hmore : t.files.length * (t.fields.map (Field.taken u.dl.is64)).sum <
      t.files.length * (t.fields.map (Field.written u.dl.is64)).sum :=
    Nat.mul_lt_mul_of_pos_left (taken_lt_written hmd5 _) (List.length_pos_iff.mpr hfiles)
  have hplain : ({ u with c := d } : Reader).Plain := (aside_cursor u hbuf).toOutside.plain hu
  have hend : d.off + entries.length = s.c.off + (dirBytes ++ fileBytes).length := by
    have hdbuf : (d.forward entries.length).buf = s.c.buf := hbuf.trans hread.buf
    have hstop : (d.forward entries.length).rest = tail := Cursor.forward_tail hd
    rw [← List.append_assoc] at hstart
    rw [← Cursor.off_of_rest hstart hdbuf hstop, Cursor.forward_off (Cursor.off_add_le hd)]
  rw [readFile, if_neg hversion, hrun]
  have hroom := Cursor.off_add_le hd
  refine (readEntries_advanced join hform hplain t.files.length ?_).post fun v hv => ?_
  · dsimp only
    omega
  · have hoff := hv.off
    dsimp only at hoff
    omega

def Tables.Undigested (t : Tables) : Prop := .md5 ∈ t.fields → t.files = []

structure Tables.Straight (t : Tables) (dl : DebugLine) : Prop where
  offsets : ¬ t.Astray dl
  digests : t.InRange dl → t.Undigested
  fits : t.InRange dl → t.Fits
  directories : t.InRange dl → ∀ e ∈ t.files,
    join (t.seeded e.index) e.name.text = join (t.directory e.index) e.name.text

theorem undigested_decode_iff (h : AtTables s t dirBytes fileBytes) (hplain : t.Undigested) :
    t.Decode join s (dirBytes ++ fileBytes).length ↔ t.Straight join s.dl := by
  rw [plain_decode_iff join h hplain]
  exact ⟨fun h => ⟨h.1, fun _ => hplain, fun hr => (h.2 hr).1, fun hr => (h.2 hr).2⟩,
    fun h => ⟨h.offsets, fun hr => ⟨h.fits hr, h.directories hr⟩⟩⟩

theorem Tables.Straight.decode (h : AtTables s t dirBytes fileBytes) (hs : t.Straight join s.dl) :
    t.Decode join s (dirBytes ++ fileBytes).length := by
  by_cases hplain : t.Undigested
  · exact (undigested_decode_iff join h hplain).mpr hs
  · exact ⟨fun hr => absurd (hs.digests hr) hplain, fun hastray => absurd hastray hs.offsets⟩

theorem Tables.Decode.straight (h : AtTables s t dirBytes fileBytes) (hmd5 : ¬ t.Undigested)
    (hform : t.form ≠ .string) (hd : t.Decode join s (dirBytes ++ fileBytes).length) :
    t.Straight join s.dl := by
  rw [Tables.Undigested, Classical.not_imp] at hmd5
  have hshort := readTables_short join h hmd5.1 hform hmd5.2
  have hrange : ¬ t.InRange s.dl := by
    intro hr
    obtain ⟨u, hu, hread⟩ := hd.1 hr
    exact (hshort.of_ok hu).ne hread.off
  refine ⟨fun hastray => ?_, fun hr => absurd hr hrange, fun hr => absurd hr hrange,
    fun hr => absurd hr hrange⟩
  obtain ⟨message, herror⟩ := hd.2 hastray
  exact hshort.of_error herror (raised_exception message)

theorem tables_decode_iff (h : AtTables s t dirBytes fileBytes) :
    (t.Straight join s.dl → t.Decode join s (dirBytes ++ fileBytes).length) ∧
    (t.Undigested ∨ t.form ≠ .string →
      t.Decode join s (dirBytes ++ fileBytes).length → t.Straight join s.dl) := by
  refine ⟨Tables.Straight.decode join h, fun hcase hd => ?_⟩
  by_cases hplain : t.Undigested
  · exact (undigested_decode_iff join h hplain).mp hd
  · exact hd.straight join h hplain (hcase.resolve_left hplain)

end

end

def listed (dirs : List (List UInt8)) (files : List (List UInt8 × Nat)) (hname : ∀ f ∈ files, f.1 ≠ [])
    (hindex : ∀ f ∈ files, f.2 < dirs.length) : Tables where
  dirForm := .string
  dirs := dirs.map fun d => ⟨d, 0⟩
  form := .string
  fields := [.path, .directoryIndex]
  files := files.map fun f => ⟨⟨f.1, 0⟩, f.2, .replicate 16 0, rfl⟩
  fields_nodup := by decide
  path_mem := by decide
  index_mem := by decide
  named := List.forall_mem_map.mpr hname
  index_lt := List.forall_mem_map.mpr fun f hf => by simpa using hindex f hf

def listedDirs (dirs : List (List UInt8)) : List UInt8 :=
  1 :: ([1, 8] ++ ([.ofNat dirs.length] ++ dirs.flatMap (· ++ [0])))

def listedFiles (files : List (List UInt8 × Nat)) : List UInt8 :=
  2 :: ([1, 8, 2, 15] ++ ([.ofNat files.length] ++ files.flatMap fun f => f.1 ++ [0] ++ [.ofNat f.2]))

def atListed (dirs : List (List UInt8)) (files : List (List UInt8 × Nat))
    (h : (listedDirs dirs ++ listedFiles files).length < 2 ^ 63) : Reader where
  c := .start { decoder := nullDecoder, bytes := listedDirs dirs ++ listedFiles files, size_lt := h }
  sm := { version := 5 }
  cu := {}
  dl := { strSect := nullCursor, lineStrSect := nullCursor }

section
variable {dirs : List (List UInt8)} {files : List (List UInt8 × Nat)}

theorem dirs_concat (h0 : ∀ d ∈ dirs, 0 ∉ d) : Concat (EncodesPath false .little .string)
    (dirs.map fun d => (⟨d, 0⟩ : Stored)) (dirs.flatMap (· ++ [0])) := by
  induction dirs with
  | nil => exact .nil
  | cons d dirs ih =>
    rw [List.forall_mem_cons] at h0
    exact .cons ⟨h0.1, rfl⟩ (ih h0.2)

theorem files_concat (h0 : ∀ f ∈ files, 0 ∉ f.1 ∧ f.2 < 128) :
    Concat (fun e => Concat (EncodesField false .little .string e) [.path, .directoryIndex])
      (files.map fun f => (⟨⟨f.1, 0⟩, f.2, .replicate 16 0, rfl⟩ : Entry))
      (files.flatMap fun f => f.1 ++ [0] ++ [.ofNat f.2]) := by
  induction files with
  | nil => exact .nil
  | cons f files ih =>
    rw [List.forall_mem_cons] at h0
    have hindex := Concat.cons (E := EncodesField false .little .string
      ⟨⟨f.1, 0⟩, f.2, .replicate 16 0, rfl⟩) (a := .directoryIndex) (encodes_count h0.1.2) .nil
    exact .cons (.cons ⟨h0.1.1, rfl⟩ hindex) (ih h0.2)

theorem listed_encoded {hname : ∀ f ∈ files, f.1 ≠ []} {hindex : ∀ f ∈ files, f.2 < dirs.length}
    (h : (listedDirs dirs ++ listedFiles files).length < 2 ^ 63) (hdirs : dirs.length < 128)
    (hfiles : files.length < 128) (hd : ∀ d ∈ dirs, 0 ∉ d) (hf : ∀ f ∈ files, 0 ∉ f.1) :
    AtTables (atListed dirs files h) (listed dirs files hname hindex) (listedDirs dirs)
      (listedFiles files) where
  c := rfl
  strSect := rfl
  lineStrSect := rfl
  version := rfl
  fresh := rfl
  files := rfl
  dirTable := by
    refine ⟨[1, 8], _, _, rfl, ?_, ?_, dirs_concat hd⟩
    · exact ⟨[1], [8], rfl, encodes_count (n := 1) (by decide), encodes_count (n := 8) (by decide)⟩
    · have hlen : (listed dirs files hname hindex).dirs.length = dirs.length := List.length_map _
      rw [hlen]
      exact encodes_count hdirs
  fileTable := by
    have hindices (f : List UInt8 × Nat) (hin : f ∈ files) : 0 ∉ f.1 ∧ f.2 < 128 :=
      ⟨hf f hin, (hindex f hin).trans hdirs⟩
    refine ⟨[1, 8] ++ ([2, 15] ++ []), _, _, rfl, ?_, ?_, files_concat hindices⟩
    · refine .cons ⟨[1], [8], rfl, ?_, ?_⟩ (.cons ⟨[2], [15], rfl, ?_, ?_⟩ .nil)
      · exact encodes_count (n := 1) (by decide)
      · exact encodes_count (n := 8) (by decide)
      · exact encodes_count (n := 2) (by decide)
      · exact encodes_count (n := 15) (by decide)
    · have hlen : (listed dirs files hname hindex).files.length = files.length := List.length_map _
      rw [hlen]
      exact encodes_count hfiles
  rest := ⟨[], by simp [atListed, Cursor.rest, Cursor.start]⟩

end

-- The first directory twice, as producers write it, another one, and a file by each of the first two.
def threeDirs : Tables :=
  listed [[46], [46], [98]] [([97], 0), ([99], 1)] (by decide) (by decide)

theorem threeDirs_straight (dl : DebugLine) : threeDirs.Straight slashed dl := by
  refine ⟨?_, fun _ => nofun, fun _ => (by decide : 1 + 3 < 2 ^ 31), fun _ e he => ?_⟩
  · rintro (⟨_, _, _, h, _⟩ | ⟨_, _, _, h, _⟩) <;> cases h
  · rcases List.mem_cons.mp he with rfl | he
    · rfl
    · rw [List.mem_singleton.mp he]
      rfl

theorem tables_decode_here : threeDirs.Decode slashed
    (atListed [[46], [46], [98]] [([97], 0), ([99], 1)] (by decide))
    (listedDirs [[46], [46], [98]] ++ listedFiles [([97], 0), ([99], 1)]).length :=
  (tables_decode_iff slashed (listed_encoded (by decide) (by decide) (by decide) (by decide) (by decide))).1
    (threeDirs_straight _)

def oneDir : Tables := listed [[98]] [([97], 0)] (by decide) (by decide)

-- The file a of the directory b is taken for the file a of the directory ".".
theorem tables_misread :
    AtTables (atListed [[98]] [([97], 0)] (by decide)) oneDir (listedDirs [[98]]) (listedFiles [([97], 0)]) ∧
    ¬ oneDir.Decode slashed (atListed [[98]] [([97], 0)] (by decide))
      (listedDirs [[98]] ++ listedFiles [([97], 0)]).length := by
  have h : AtTables (atListed [[98]] [([97], 0)] (by decide)) oneDir (listedDirs [[98]])
      (listedFiles [([97], 0)]) := listed_encoded (by decide) (by decide) (by decide) (by decide) (by decide)
  refine ⟨h, fun hd => ?_⟩
  have hplain : oneDir.Undigested := nofun
  have hrange : oneDir.InRange (atListed [[98]] [([97], 0)] (by decide)).dl :=
    ⟨fun _ _ => nofun, fun _ _ => nofun⟩
  have hs := (undigested_decode_iff slashed h hplain).mp hd
  exact absurd (hs.directories hrange _ (List.mem_singleton_self _)) (by decide)

end Gelpp.Dwarf

import Gelpp.Dwarf.Linked

namespace Gelpp.Dwarf

open Reader (Plain Outside)

structure Entry4 where
  name : List UInt8
  dir : Nat
  date : UInt64
  size : UInt64

-- The two tables of a header up to version 4. The directories are put in an elm::Vector, whose count
-- is an int.
structure Tables4 where
  dirs : List (List UInt8)
  files : List Entry4
  dirs_named : ∀ d ∈ dirs, d ≠ [] ∧ 0 ∉ d
  files_named : ∀ e ∈ files, e.name ≠ [] ∧ 0 ∉ e.name
  dir_le : ∀ e ∈ files, e.dir ≤ dirs.length
  vector : 1 + dirs.length < 2 ^ 31

def EncodesNumbers (e : Entry4) (bs : List UInt8) : Prop :=
  ∃ us vs ws, bs = us ++ (vs ++ ws) ∧ EncodesU e.dir us ∧ EncodesU e.date.toNat vs ∧
    EncodesU e.size.toNat ws

def EncodesEntry4 (e : Entry4) (bs : List UInt8) : Prop :=
  ∃ ns, bs = e.name ++ 0 :: ns ∧ EncodesNumbers e ns

theorem EncodesNumbers.length_pos {e : Entry4} {bs : List UInt8} (h : EncodesNumbers e bs) :
    1 ≤ bs.length := by
  obtain ⟨us, vs, ws, rfl, hus, -, -⟩ := h
  have hpos := hus.length_pos
  rw [List.length_append]
  omega

theorem EncodesEntry4.length_pos {e : Entry4} {bs : List UInt8} (h : EncodesEntry4 e bs) :
    1 ≤ bs.length := by
  obtain ⟨ns, rfl, -⟩ := h
  rw [List.length_append, List.length_cons]
  omega

namespace Tables4

variable (t : Tables4)

def dirBytes : List UInt8 := t.dirs.flatMap (· ++ [0]) ++ [0]

def EncodesFiles (bs : List UInt8) : Prop := ∃ es, bs = es ++ [0] ∧ Concat EncodesEntry4 t.files es

def directory (k : Nat) : Path := ([46] :: t.dirs).getD k []

def includes : List CString := .text [46] :: t.dirs.map .text

variable (join : Path → Path → Path)

def path (e : Entry4) : Path := join (t.directory e.dir) e.name

def call (e : Entry4) : Call := (t.path join e, e.date, e.size)

end Tables4

section
variable {c : Cursor} {n tail : List UInt8}

theorem readName_found (hf : c.buf.fence = none) (h0 : 0 ∉ n) (h : c.rest = n ++ 0 :: tail) :
    readName c = .ok (n, c.forward (n.length + 1)) := by
  rw [readName, readCString_found hf h0 h]
  rfl

theorem forward_name (h : c.rest = n ++ 0 :: tail) : (c.forward (n.length + 1)).rest = tail := by
  have happend : c.rest = (n ++ [0]) ++ tail := by
    rw [h, List.append_assoc]
    rfl
  have hrest := Cursor.forward_tail happend
  rwa [List.length_append, List.length_singleton] at hrest

end

-- Each turn takes a name; the induction is on the directories that are left.
theorem readDirs_named {dirs : List (List UInt8)} {s : Reader} {tail : List UInt8} {n : Nat}
    (hf : s.c.buf.fence = none) (hdirs : ∀ d ∈ dirs, d ≠ [] ∧ 0 ∉ d)
    (hroom : s.sm.includeDirectories.length + dirs.length < 2 ^ 31)
    (hrest : s.c.rest = dirs.flatMap (· ++ [0]) ++ 0 :: tail) (hn : dirs.length < n) :
    ∃ d, Loop.run .steps DirState.more readDirBody n { s } = .ok d ∧ d.s.c.rest = tail ∧
      d.s.c.buf = s.c.buf ∧ d.s.cu = s.cu ∧ d.s.dl = s.dl ∧
      d.s.sm = { s.sm with includeDirectories := s.sm.includeDirectories ++ dirs.map .text } := by
  induction dirs generalizing s n with
  | nil =>
    obtain ⟨m, rfl⟩ : ∃ m, n = m + 1 := ⟨n - 1, by rw [List.length_nil] at hn; omega⟩
    have hname := readName_found (n := []) hf List.not_mem_nil hrest
    have hbody : readDirBody { s } = .ok { s := { s with c := s.c.forward 1 }, more := false } := by
      rw [readDirBody, hname]
      rfl
    refine ⟨_, (Loop.run_ok ⟨rfl, hbody⟩).trans (Loop.run_done rfl), forward_name (n := []) hrest,
      rfl, rfl, rfl, ?_⟩
    rw [List.map_nil, List.append_nil]
  | cons d dirs ih =>
    obtain ⟨hne, h0⟩ := hdirs d (List.mem_cons_self ..)
    rw [List.flatMap_cons, List.append_assoc, List.append_assoc, List.singleton_append] at hrest
    have hname := readName_found hf h0 hrest
    let s' : Reader := { s with
      c := s.c.forward (d.length + 1)
      sm.includeDirectories := s.sm.includeDirectories ++ [.text d] }
    have hbody : readDirBody { s } = .ok { s := s' } := by
      rw [readDirBody, hname, Res.ok_bind]
      dsimp only
      rw [if_neg hne, addDirectory, if_pos (by rw [List.length_cons] at hroom; omega)]
      rfl
    rw [List.length_cons] at hn
    have hroom' : s'.sm.includeDirectories.length + dirs.length < 2 ^ 31 := by
      rw [List.length_cons] at hroom
      change (s.sm.includeDirectories ++ [CString.text d]).length + dirs.length < 2 ^ 31
      rw [List.length_append, List.length_singleton]
      omega
    obtain ⟨m, rfl⟩ : ∃ m, n = m + 1 := ⟨n - 1, by omega⟩
    obtain ⟨e, hrun, htail, hbuf, hcu, hdl, hsm⟩ := ih (s := s') (n := m) hf
      (fun x hx => hdirs x (List.mem_cons_of_mem _ hx)) hroom' (forward_name hrest) (by omega)
    refine ⟨e, (Loop.run_ok ⟨rfl, hbody⟩).trans hrun, htail, hbuf, hcu, hdl, ?_⟩
    rw [hsm]
    change StateMachine.mk .. = StateMachine.mk ..
    rw [List.append_assoc]
    rfl

section
variable (join : Path → Path → Path)

theorem readEntry4_encoded {f : FileState} {e : Entry4} {d : Path} {ns tail : List UInt8}
    (hf : f.s.c.buf.fence = none) (h : EncodesNumbers e ns) (hrest : f.s.c.rest = ns ++ tail)
    (hd : entryDirectory f.s.sm (.ofNat e.dir) = .ok d) :
    readEntry4 join f =
      .ok ({ f.s with c := f.s.c.forward ns.length }, (join d f.name, e.date, e.size)) := by
  obtain ⟨us, vs, ws, rfl, hus, hvs, hws⟩ := h
  rw [List.append_assoc, List.append_assoc] at hrest
  have hrest2 := Cursor.forward_tail hrest
  have hrest3 := Cursor.forward_tail hrest2
  have hdir := hus.read hf hrest
  have hdate := hvs.read (c := f.s.c.forward us.length) hf hrest2
  have hsize := hws.read (c := (f.s.c.forward us.length).forward vs.length) hf hrest3
  rw [UInt64.ofNat_toNat] at hdate hsize
  simp only [Cursor.forward_forward] at hdate hsize
  rw [readEntry4, hdir, Res.ok_bind]
  dsimp only
  rw [hdate, Res.ok_bind]
  dsimp only
  rw [hsize, Res.ok_bind]
  dsimp only
  rw [hd, List.length_append, List.length_append, ← Nat.add_assoc]
  rfl

theorem entryDirectory_included {t : Tables4} {sm : StateMachine}
    (hsm : sm.includeDirectories = t.includes) {e : Entry4} (he : e ∈ t.files) :
    entryDirectory sm (.ofNat e.dir) = .ok (t.directory e.dir) := by
  have hle := t.dir_le e he
  have hvector := t.vector
  have hdir : (UInt64.ofNat e.dir).toNat = e.dir := ofNat_toNat (by omega)
  have hlen : e.dir < sm.includeDirectories.length := by
    rw [hsm, Tables4.includes, List.length_cons, List.length_map]
    omega
  have hlt : e.dir < ([46] :: t.dirs).length := by
    rw [List.length_cons]
    omega
  have hget : sm.includeDirectories[e.dir] = .text (t.directory e.dir) := by
    have hmap : sm.includeDirectories = ([46] :: t.dirs).map CString.text := hsm
    simp only [hmap, List.getElem_map, Tables4.directory, List.getD_eq_getElem?_getD,
      List.getElem?_eq_getElem hlt]
    rfl
  rw [entryDirectory]
  by_cases h0 : UInt64.ofNat e.dir = 0
  · have hzero : e.dir = 0 := by rw [← hdir, h0]; rfl
    rw [if_pos h0, hzero]
    rfl
  · rw [if_neg h0, includeDirectory, narrow_of_lt (by omega), hdir, vectorAt_of_lt hlen, hget]
    rfl

-- The name of an entry is read before its turn, so the induction carries the reading of the first.
theorem readFiles_named {t : Tables4} {es : List Entry4} {bs tail : List UInt8}
    (h : Concat (fun e cs => e ∈ t.files ∧ EncodesEntry4 e cs) es bs) {s : Reader}
    (hf : s.c.buf.fence = none) (hsm : s.sm.includeDirectories = t.includes)
    (hrest : s.c.rest = bs ++ 0 :: tail) :
    ∃ name c g, readName s.c = .ok (name, c) ∧ es.length ≤ c.buf.size - c.off ∧
      (∀ n, es.length ≤ n → Loop.run .steps FileState.more (readFileBody join) n
        { s := { s with c }, name } = .ok g) ∧
      Interns s (es.map (t.call join)) g.s ∧ g.s.c.rest = tail ∧ g.s.c.buf = s.c.buf ∧
      g.s.sm = s.sm := by
  induction h generalizing s with
  | nil =>
    have hname := readName_found (n := []) hf List.not_mem_nil hrest
    refine ⟨[], _, _, hname, Nat.zero_le _, fun n _ => Loop.run_done rfl, .aside rfl rfl rfl, ?_, rfl, rfl⟩
    exact forward_name (n := []) hrest
  | @cons e es bs cs head htable ih =>
    obtain ⟨he, ns, rfl, hns⟩ := head
    obtain ⟨hne, h0⟩ := t.files_named e he
    rw [List.append_assoc, List.append_assoc, List.cons_append] at hrest
    have hname := readName_found hf h0 hrest
    have hrest1 := forward_name hrest
    let f : FileState := { s := { s with c := s.c.forward (e.name.length + 1) }, name := e.name }
    have hentry := readEntry4_encoded join (f := f) hf hns hrest1
      (entryDirectory_included (t := t) hsm he)
    let u : Reader := { f.s with c := f.s.c.forward ns.length }
    let v : Reader := u.internCall (t.call join e)
    have hsv : Interns s [t.call join e] v :=
      (Interns.aside rfl rfl rfl : Interns s [] u).before (intern_interns u _ _ _)
    obtain ⟨name, c, g, hnext, -, hrun, hg, htail, hbuf, hgsm⟩ := ih (s := v) hf hsm
      (Cursor.forward_tail hrest1)
    have hbody : readFileBody join f = .ok { s := { v with c }, name } := by
      rw [readFileBody_eq, hentry, Res.ok_bind]
      change (readName v.c >>= _) = _
      rw [hnext]
      rfl
    have hroom : (e :: es).length ≤ f.s.c.buf.size - f.s.c.off := by
      have hes := htable.length_le (n := 1) fun a _ ds ha => ha.2.length_pos
      have hpos := hns.length_pos
      rw [← Cursor.rest_length, hrest1, List.length_append, List.length_append, List.length_cons,
        List.length_cons]
      omega
    refine ⟨e.name, _, g, hname, hroom, fun n hn => ?_, hsv.trans hg, htail, hbuf, hgsm⟩
    rw [List.length_cons] at hn
    obtain ⟨m, rfl⟩ : ∃ m, n = m + 1 := ⟨n - 1, by omega⟩
    have hmore : FileState.more f = true := by
      cases hcase : e.name with
      | nil => exact absurd hcase hne
      | cons b bs => simp [FileState.more, f, hcase]
    exact (Loop.run_ok ⟨hmore, hbody⟩).trans (hrun m (by omega))

theorem dirs_length_le (dirs : List (List UInt8)) :
    dirs.length ≤ (dirs.flatMap (· ++ [0])).length := by
  induction dirs with
  | nil => exact Nat.le_refl _
  | cons d dirs ih =>
    rw [List.flatMap_cons, List.length_append, List.length_append, List.length_cons,
      List.length_singleton]
    omega

theorem readTables4_interns {t : Tables4} {s : Reader} {fileBytes tail : List UInt8} (hs : s.Plain)
    (hv : s.sm.version < 5) (hfresh : s.sm.includeDirectories = [.text [46]])
    (hfiles : t.EncodesFiles fileBytes) (hrest : s.c.rest = t.dirBytes ++ (fileBytes ++ tail)) :
    ∃ u, (readDir s >>= readFile join) = .ok u ∧ Interns s (t.files.map (t.call join)) u ∧
      u.c.rest = tail ∧ u.c.buf = s.c.buf ∧ u.sm = { s.sm with includeDirectories := t.includes } := by
  obtain ⟨es, rfl, hes⟩ := hfiles
  rw [Tables4.dirBytes, List.append_assoc, List.append_assoc, List.singleton_append,
    List.singleton_append] at hrest
  have hlen : t.dirs.length < s.c.buf.size - s.c.off + 1 := by
    have hle := dirs_length_le t.dirs
    have hroom := s.c.rest_length
    rw [hrest, List.length_append] at hroom
    omega
  obtain ⟨d, hrun, hdrest, hdbuf, hdcu, hddl, hdsm⟩ :=
    readDirs_named hs.c t.dirs_named (by rw [hfresh]; exact t.vector) hrest hlen
  have hdir : readDir s = .ok d.s := by
    rw [readDir, if_pos hv, readDir4, hrun]
    rfl
  have hincludes : d.s.sm.includeDirectories = t.includes := by
    rw [hdsm, hfresh]
    rfl
  obtain ⟨name, c, g, hname, hroom, hloop, hg, htail, hgbuf, hgsm⟩ :=
    readFiles_named join hes.mem (s := d.s) (hdbuf ▸ hs.c) hincludes hdrest
  have hv' : d.s.sm.version < 5 := by
    rw [hdsm]
    exact hv
  have hfile : readFile join d.s = .ok g.s := by
    rw [readFile, if_pos hv', readFile4, hname, Res.ok_bind]
    dsimp only
    rw [hloop _ (by omega)]
    rfl
  refine ⟨g.s, ?_, ?_, htail, hgbuf.trans hdbuf, ?_⟩
  · rw [hdir, Res.ok_bind, hfile]
  · have hsd : Interns s [] d.s := .aside (by rw [hddl]) (by rw [hdcu]) (by rw [hddl])
    exact hsd.before hg
  · rw [hgsm, hdsm, hfresh]
    rfl

end

def DebugLine.labels (dl : DebugLine) : List Call := dl.files.map fun f => (f.path, f.date, f.size)

-- What the two tables leave: one file for each entry, and one File for each path, of this unit or
-- an earlier one, with the date and the size of the first entry with the path.
structure Tables4Read (join : Path → Path → Path) (s : Reader) (t : Tables4) (n : Nat)
    (u : Reader) : Prop where
  buf : u.c.buf = s.c.buf
  off : u.c.off = s.c.off + n
  directories : u.sm.includeDirectories = t.includes
  paths : u.paths = t.files.map fun e => some (t.path join e)
  same : ∀ (j k : Nat) (e e' : Entry4), t.files[j]? = some e → t.files[k]? = some e' →
    (t.path join e = t.path join e' ↔ u.cu.files[j]? = u.cu.files[k]?)
  earlier : ∀ (j : Nat) (e : Entry4) (i : Nat) (file : File), t.files[j]? = some e →
    s.dl.files[i]? = some file → file.path = t.path join e → u.cu.files[j]? = some i
  first : ∀ i ∈ u.cu.files, ∀ file, u.dl.files[i]? = some file →
    (s.dl.labels ++ t.files.map (t.call join)).lookup file.path = some (file.date, file.size)

section
variable {join : Path → Path → Path} {s u : Reader} {calls : List Call}

theorem labels_pool (dl : DebugLine) : Pool.labels dl.pool = dl.labels := by
  rw [Pool.labels, DebugLine.pool, List.map_map]
  rfl

theorem Interns.first (h : Interns s calls u) (hu : u.Linked) {i : Nat} {file : File}
    (hi : u.dl.files[i]? = some file) :
    (s.dl.labels ++ calls).lookup file.path = some (file.date, file.size) := by
  have hget : u.dl.pool[i]? = some file.entry := by rw [DebugLine.pool_get, hi]; rfl
  have hlookup := Pool.lookup_label hu.nodup hget
  rw [h.pool, Pool.lookup_internAll, labels_pool] at hlookup
  exact hlookup

theorem Interns.earlier (h : Interns s calls u) (hs : s.Linked) {i : Nat} {file : File}
    (hi : s.dl.files[i]? = some file) : Pool.place u.dl.pool file.path = i := by
  have hkey : (Pool.keys s.dl.pool)[i]? = some file.path := by
    rw [Pool.keys, List.getElem?_map, DebugLine.pool_get, hi]
    rfl
  rw [h.pool, Pool.place_internAll (List.mem_of_getElem? hkey), Pool.place_of_get hs.nodup hkey]

theorem tables4_read_of_interns {t : Tables4} {n : Nat} (h : Interns s (t.files.map (t.call join)) u)
    (hs : s.Linked) (hempty : s.cu.files = []) (hbuf : u.c.buf = s.c.buf)
    (hoff : u.c.off = s.c.off + n) (hdirs : u.sm.includeDirectories = t.includes) :
    Tables4Read join s t n u where
  buf := hbuf
  off := hoff
  directories := hdirs
  paths := by
    rw [h.paths_eq hempty, List.map_map]
    rfl
  same j k e e' hj hk := by
    have hfiles := h.files_eq hempty
    rw [List.map_map] at hfiles
    have hmem (x : Entry4) (hx : x ∈ t.files) : t.path join x ∈ Pool.keys u.dl.pool :=
      h.mem_keys (List.mem_map_of_mem hx)
    rw [hfiles, List.getElem?_map, List.getElem?_map, hj, hk]
    constructor
    · intro heq
      exact congrArg (fun p => some (Pool.place u.dl.pool p)) heq
    · intro heq
      exact Pool.place_inj (hmem e (List.mem_of_getElem? hj)) (hmem e' (List.mem_of_getElem? hk))
        (Option.some.inj heq)
  earlier j e i file hj hi hpath := by
    have hfiles := h.files_eq hempty
    rw [List.map_map] at hfiles
    rw [hfiles, List.getElem?_map, hj]
    refine congrArg some ?_
    change Pool.place u.dl.pool (t.path join e) = i
    rw [← hpath, h.earlier hs hi]
  first i _ file hi := h.first (h.linked hs) hi

end

def Undirected (s t : Reader) : Prop := t.sm.includeDirectories = s.sm.includeDirectories

section
variable {s : Reader}

theorem keep_undirected {α : Type} (read : Cursor → Res (Option (α × Cursor)))
    {put : α → StateMachine → StateMachine}
    (hput : ∀ v sm, (put v sm).includeDirectories = sm.includeDirectories) (s : Reader) :
    Meets Any (Undirected s) (s.keep read put) := by
  refine (Meets.any _).bind fun o _ => ?_
  cases o with
  | none => rfl
  | some r => exact hput _ _

theorem readVersion_undirected (s : Reader) : Meets Any (Undirected s) (readVersion s) := by
  refine (Meets.any _).bind fun _ _ => (Meets.any _).bind fun r _ => ?_
  refine Meets.ite (fun _ => trivial) fun _ => Meets.ite (fun _ => ?_) fun _ => rfl
  refine (keep_undirected _ (by intros; rfl) _).bind fun t ht => ?_
  exact (keep_undirected _ (by intros; rfl) _).post fun u hu => hu.trans ht

theorem headerStart_undirected (h : Reader) :
    Meets Any (fun r => Undirected h r.1) (headerStart h) :=
  (readVersion_undirected h).bind fun _ hs => (Meets.any _).bind fun _ _ => hs

theorem readBase_undirected (s : Reader) : Meets Any (Undirected s) (readBase s) := by
  refine (keep_undirected _ (by intros; rfl) _).bind fun t1 h1 => ?_
  refine Meets.bind (P := Undirected t1) ?_ fun t2 h2 => Meets.bind (P := Undirected t2) ?_ fun t3 h3 => ?_
  · exact Meets.ite (fun _ => keep_undirected _ (by intros; rfl) _) fun _ => rfl
  · refine (Meets.any _).bind fun o _ => ?_
    cases o with
    | none => trivial
    | some r => exact Meets.ite (fun _ => rfl) fun _ => rfl
  · refine (keep_undirected _ (by intros; rfl) _).bind fun t4 h4 => ?_
    refine (keep_undirected _ (by intros; rfl) _).bind fun t5 h5 => ?_
    exact (keep_undirected _ (by intros; rfl) _).post fun t6 h6 =>
      h6.trans (h5.trans (h4.trans (h3.trans (h2.trans h1))))

theorem readOpcodeLengths_undirected (s : Reader) :
    Meets Any (Undirected s) (readOpcodeLengths s) :=
  (Meets.any _).bind fun _ _ => (Meets.any _).bind fun _ _ => (Meets.any _).bind fun _ _ => rfl

theorem readOpcodeLengths_interns (s : Reader) :
    Meets Any (Interns s []) (readOpcodeLengths s) :=
  (Meets.any _).bind fun _ _ => (Meets.any _).bind fun _ _ => (Meets.any _).bind fun _ _ =>
    .aside rfl rfl rfl

end

section
variable (join : Path → Path → Path) (s₀ : Scan)

def TablesAt (s : Reader) : Prop :=
  ∃ h e r t, HeaderAt join s₀ h e ∧ headerStart h = .ok r ∧ readBase r.1 = .ok t ∧
    readOpcodeLengths t = .ok s

variable {join s₀}

structure AtStart (s : Reader) : Prop extends s.Plain where
  linked : s.Linked
  files : s.cu.files = []
  fresh : s.sm.includeDirectories = [.text [46]]

theorem TablesAt.start {s : Reader} (h : TablesAt join s₀ s) (hp : s₀.Plain) (hl : s₀.Linked) :
    AtStart s := by
  obtain ⟨h, e, r, t, hh, hr, ht, hs⟩ := h
  have hhp := hh.plain hp
  have h1 := (headerStart_interns h).of_ok hr
  have h2 := (readBase_interns r.1).of_ok ht
  have h3 := (readOpcodeLengths_interns t).of_ok hs
  have hinterns := (h1.before h2).before h3
  have hrp := ((headerStart_meets hhp).of_ok hr).plain hhp
  have htp := ((readBase_meets hrp).of_ok ht).plain hrp
  have hsp := ((readOpcodeLengths_meets htp).of_ok hs).1.plain htp
  have hdirs := ((readOpcodeLengths_undirected t).of_ok hs).trans
    (((readBase_undirected r.1).of_ok ht).trans ((headerStart_undirected h).of_ok hr))
  obtain ⟨sc, -, -, hopen⟩ := id hh
  obtain ⟨_, -, hopened⟩ := Res.bind_ok.mp hopen
  have hfiles := hinterns.files
  rw [Pool.places, List.append_nil] at hfiles
  refine ⟨hsp, hinterns.linked (hh.linked hl), ?_, ?_⟩
  · rw [hfiles]
    cases hopened
    rfl
  · rw [hdirs]
    cases hopened
    rfl

end

section
variable {join : Path → Path → Path} {buf : Buffer} {strSect lineStrSect : Cursor} {s : Reader}

theorem tables4_round_trip (t : Tables4) {fileBytes tail : List UInt8} (hbuf : buf.fence = none)
    (hstr : strSect.buf.fence = none) (hlineStr : lineStrSect.buf.fence = none)
    (hs : TablesAt join (.start buf strSect lineStrSect) s) (hv : s.sm.version < 5)
    (hfiles : t.EncodesFiles fileBytes) (hrest : s.c.rest = t.dirBytes ++ (fileBytes ++ tail)) :
    ∃ u, (readDir s >>= readFile join) = .ok u ∧
      Tables4Read join s t (t.dirBytes ++ fileBytes).length u := by
  have hat := hs.start ⟨hbuf, hstr, hlineStr⟩ (start_linked buf strSect lineStrSect)
  obtain ⟨u, hu, hinterns, htail, hubuf, husm⟩ :=
    readTables4_interns join hat.toPlain hv hat.fresh hfiles hrest
  rw [← List.append_assoc] at hrest
  refine ⟨u, hu, tables4_read_of_interns hinterns hat.linked hat.files hubuf
    (Cursor.off_of_rest hrest hubuf htail) ?_⟩
  rw [husm]

end

def firstTables (s₀ : Scan) : Res Reader := do
  let (h, _) ← openUnit s₀
  let r ← headerStart h
  let t ← readBase r.1
  readOpcodeLengths t

theorem TablesAt.first {join : Path → Path → Path} {s₀ : Scan} {s : Reader}
    (hscan : scanning s₀ = true) (h : firstTables s₀ = .ok s) : TablesAt join s₀ s := by
  obtain ⟨⟨h, e⟩, hopen, h⟩ := Res.bind_ok.mp h
  obtain ⟨r, hr, h⟩ := Res.bind_ok.mp h
  obtain ⟨t, ht, hs⟩ := Res.bind_ok.mp h
  exact ⟨_, e, r, t, ⟨s₀, .refl, hscan, hopen⟩, hr, ht, hs⟩

-- The directory d, the file a in it and the file b.
def twoFiles : Tables4 where
  dirs := [[100]]
  files := [⟨[97], 1, 5, 6⟩, ⟨[98], 0, 0, 0⟩]
  dirs_named := by decide
  files_named := by simp
  dir_le := by simp
  vector := by decide

def twoFilesBuffer : Buffer where
  decoder := nullDecoder
  bytes := [30, 0, 0, 0, 2, 0, 20, 0, 0, 0, 1, 1, 0xfb, 14, 2, 0, 100, 0, 0, 97, 0, 1, 5, 6, 98, 0, 0,
    0, 0, 0, 1, 0, 1, 1]
  size_lt := by decide

theorem twoFiles_encoded : twoFiles.EncodesFiles [97, 0, 1, 5, 6, 98, 0, 0, 0, 0, 0] := by
  have hzero : EncodesU 0 [0] := .byte (by decide)
  have hone : EncodesU 1 [1] := .byte (by decide)
  have hfive : EncodesU 5 [5] := .byte (by decide)
  have hsix : EncodesU 6 [6] := .byte (by decide)
  refine ⟨[97, 0, 1, 5, 6] ++ ([98, 0, 0, 0, 0] ++ []), rfl, .cons ?_ (.cons ?_ .nil)⟩
  · exact ⟨[1, 5, 6], rfl, [1], [5], [6], rfl, hone, hfive, hsix⟩
  · exact ⟨[0, 0, 0], rfl, [0], [0], [0], rfl, hzero, hzero, hzero⟩

theorem tables4_round_trip_twoFiles : ∃ s u,
    TablesAt slashed (.start twoFilesBuffer nullCursor nullCursor) s ∧
    (readDir s >>= readFile slashed) = .ok u ∧ Tables4Read slashed s twoFiles 14 u := by
  have hrun : (firstTables (.start twoFilesBuffer nullCursor nullCursor)).toOption.map
      (fun s => (s.sm.version, s.c.rest)) =
      some (2, [100, 0, 0, 97, 0, 1, 5, 6, 98, 0, 0, 0, 0, 0, 1, 0, 1, 1]) := by decide +kernel
  obtain ⟨s, hx, hpair⟩ := Res.ok_of_map hrun
  obtain ⟨hv, hrest⟩ := Prod.mk.inj hpair
  have hs : TablesAt slashed (.start twoFilesBuffer nullCursor nullCursor) s := .first rfl hx
  obtain ⟨u, hu, hread⟩ := tables4_round_trip twoFiles rfl rfl rfl hs
    (by rw [hv]; decide) twoFiles_encoded (by rw [hrest]; rfl : s.c.rest = twoFiles.dirBytes ++ (_ ++ [1, 0, 1, 1]))
  exact ⟨s, u, hs, hu, hread⟩

end Gelpp.Dwarf

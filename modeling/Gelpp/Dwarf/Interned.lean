import Gelpp.Dwarf.Run
import Gelpp.Dwarf.TableRead
import Gelpp.Library.Pool

namespace Gelpp.Dwarf

abbrev Call := Path × (UInt64 × UInt64)

abbrev FilePool := List (Pool.Entry Path (UInt64 × UInt64) Nat)

def File.entry (f : File) : Pool.Entry Path (UInt64 × UInt64) Nat where
  key := f.path
  data := (f.date, f.size)
  owners := f.units

namespace DebugLine

def pool (dl : DebugLine) : FilePool := dl.files.map File.entry

theorem pool_length (dl : DebugLine) : dl.pool.length = dl.files.length := List.length_map _

theorem pool_get (dl : DebugLine) (i : Nat) : dl.pool[i]? = dl.files[i]?.map File.entry :=
  List.getElem?_map

theorem pool_place (dl : DebugLine) (path : Path) :
    Pool.place dl.pool path = dl.files.findIdx (·.path == path) := by
  rw [Pool.place, pool, List.findIdx_map]
  rfl

end DebugLine

structure Interns (s : Reader) (calls : List Call) (t : Reader) : Prop where
  pool : t.dl.pool = Pool.internAll s.dl.units.length s.dl.pool calls
  files : t.cu.files = s.cu.files ++ Pool.places s.dl.units.length s.dl.pool calls
  units : t.dl.units = s.dl.units

namespace Interns

variable {s t u : Reader} {calls more : List Call}

theorem refl (s : Reader) : Interns s [] s := ⟨rfl, (List.append_nil _).symm, rfl⟩

theorem trans (h : Interns s calls t) (h' : Interns t more u) : Interns s (calls ++ more) u where
  pool := by rw [h'.pool, h.pool, h.units, Pool.internAll_append]
  files := by rw [h'.files, h.files, h.pool, h.units, Pool.places_append, List.append_assoc]
  units := h'.units.trans h.units

theorem after (h : Interns s calls t) (h' : Interns t [] u) : Interns s calls u := by
  have htrans := h.trans h'
  rwa [List.append_nil] at htrans

theorem before (h : Interns s [] t) (h' : Interns t calls u) : Interns s calls u := h.trans h'

theorem aside (hpool : t.dl.files = s.dl.files) (hfiles : t.cu.files = s.cu.files)
    (hunits : t.dl.units = s.dl.units) : Interns s [] t where
  pool := by
    rw [DebugLine.pool, hpool]
    rfl
  files := by rw [hfiles, Pool.places, List.append_nil]
  units := hunits

theorem files_eq (h : Interns s calls t) (hempty : s.cu.files = []) :
    t.cu.files = calls.map fun c => Pool.place t.dl.pool c.1 := by
  rw [h.files, hempty, Pool.places_eq, h.pool]
  rfl

theorem mem_keys (h : Interns s calls t) {c : Call} (hc : c ∈ calls) :
    c.1 ∈ Pool.keys t.dl.pool := by
  rw [h.pool]
  exact Pool.mem_keys_internAll.mpr (.inr (List.mem_map_of_mem hc))

theorem paths_eq (h : Interns s calls t) (hempty : s.cu.files = []) :
    t.paths = calls.map fun c => some c.1 := by
  rw [Reader.paths, h.files_eq hempty, List.map_map]
  refine List.map_congr_left fun c hc => ?_
  have hkey := Pool.keys_place (h.mem_keys hc)
  rw [Pool.keys, List.getElem?_map, DebugLine.pool_get, Option.map_map] at hkey
  exact hkey

theorem length (h : Interns s calls t) :
    t.cu.files.length = s.cu.files.length + calls.length := by
  rw [h.files, List.length_append, Pool.places_length]

theorem get (h : Interns s calls t) {i f : Nat} (hi : s.cu.files[i]? = some f) :
    t.cu.files[i]? = some f := by
  rw [h.files, List.getElem?_append_left (List.getElem?_eq_some_iff.mp hi).1, hi]

end Interns

theorem map_modify_entry (files : List File) (f k : Nat) :
    (files.modify f fun x => { x with units := k :: x.units }).map File.entry =
      (files.map File.entry).modify f (Pool.own k) := by
  induction files generalizing f with
  | nil => simp
  | cons x files ih =>
    cases f with
    | zero => rfl
    | succ f => simp [ih]

theorem intern_interns (s : Reader) (path : Path) (date size : UInt64) :
    Interns s [(path, date, size)] (s.intern path date size) where
  pool := by
    change (List.modify _ _ _).map File.entry = _
    rw [map_modify_entry, Pool.internAll, List.foldl_cons, List.foldl_nil, Pool.intern, Pool.extend,
      DebugLine.pool_place, DebugLine.pool_length]
    congr 1
    split
    · rfl
    · exact List.map_append
  files := by
    rw [Pool.places, Pool.places, DebugLine.pool_place]
    rfl
  units := rfl

theorem readPath_interns (message : String) (form : UInt64) (old : CString) (s : Reader) :
    Meets Any (fun r => Interns s [] r.2) (readPath message form old s) := by
  refine Meets.ite (fun _ => ?_) fun _ => ?_
  · exact (Meets.any _).bind fun r _ => .aside rfl rfl rfl
  refine Meets.ite (fun _ => ?_) fun _ => ?_
  · exact (Meets.any _).bind fun r _ => (Meets.any _).bind fun _ _ => .aside rfl rfl rfl
  refine Meets.ite (fun _ => ?_) fun _ => trivial
  exact (Meets.any _).bind fun r _ => (Meets.any _).bind fun _ _ => .aside rfl rfl rfl

theorem keep_interns {α : Type} (read : Cursor → Res (Option (α × Cursor)))
    (put : α → StateMachine → StateMachine) (s : Reader) :
    Meets Any (Interns s []) (s.keep read put) := by
  refine (Meets.any _).bind fun o _ => ?_
  cases o with
  | none => exact .refl s
  | some r => exact .aside rfl rfl rfl

theorem moveTo_interns (s : Reader) (o : Nat) : Meets Any (Interns s []) (s.moveTo o) := by
  refine (Meets.any _).bind fun c _ => ?_
  cases c with
  | none => exact .refl s
  | some c => exact .aside rfl rfl rfl

theorem readDir4_interns (s : Reader) : Meets Any (Interns s []) (readDir4 s) := by
  refine (Meets.run_stuck (fun d : DirState => Interns s [] d.s) trivial (fun d _ _ hd => ?_)
    (.refl s)).bind fun d hd => hd.1
  refine (Meets.any _).bind fun r _ => ?_
  refine Meets.ite (fun _ => ?_) fun _ => ?_
  · exact hd.after (.aside rfl rfl rfl)
  · exact (Meets.any _).bind fun sm _ => hd.after (.aside rfl rfl rfl)

theorem readDir5_interns (s : Reader) : Meets Any (Interns s []) (readDir5 s) := by
  refine (Meets.any _).bind fun o _ => ?_
  cases o with
  | none => trivial
  | some r =>
    refine Meets.ite (fun _ => trivial) fun _ => Meets.ite (fun _ => trivial) fun _ => ?_
    refine (Meets.any _).bind fun f _ => (Meets.any _).bind fun n _ => ?_
    refine Meets.times (Interns s []) (fun t ht => ?_) (.aside rfl rfl rfl)
    refine (Meets.foldlM (fun d : CString × Reader => Interns t [] d.2) (fun d format hd => ?_)
      (.refl t)).bind fun d hd => ?_
    · exact Meets.ite (fun _ => (readPath_interns ..).post fun _ h => hd.after h) fun _ => trivial
    · exact (Meets.any _).bind fun sm _ => (ht.after hd).after (.aside rfl rfl rfl)

theorem readDir_interns (s : Reader) : Meets Any (Interns s []) (readDir s) :=
  Meets.ite (fun _ => readDir4_interns s) fun _ => readDir5_interns s

section
variable (join : Path → Path → Path)

def readEntry4 (f : FileState) : Res (Reader × Call) := do
  let (dir, c) ← readLEB128U f.s.c
  let (date, c) ← readLEB128U c
  let (size, c) ← readLEB128U c
  let d ← entryDirectory f.s.sm dir
  return ({ f.s with c }, (join d f.name, date, size))

def readEntry5 (formats : List (UInt64 × UInt64)) (s : Reader) : Res (Reader × Option Call) := do
  let f ← formats.foldlM readFileField { s }
  if f.fileName = .text [] then return (f.s, none)
  else
    let d ← textOf f.dirName
    let n ← textOf f.fileName
    return (f.s, some (join d n, 0, 0))

def tableStart5 (s : Reader) : Res (List (UInt64 × UInt64) × Nat × Reader) := do
  let (count, c) ← readLEB128U s.c
  let (formats, c) ← Loop.times readFormat count.toUInt8.toNat ([], c)
  let (fileNamesCount, c) ← readLEB128U c
  return (formats, fileNamesCount.toNat, { s with c })

def Reader.internCall (s : Reader) (call : Call) : Reader := s.intern call.1 call.2.1 call.2.2

theorem readFileBody_eq (f : FileState) : readFileBody join f = readEntry4 join f >>= fun p =>
    readName p.1.c >>= fun r => .ok { s := { p.1.internCall p.2 with c := r.2 }, name := r.1 } := by
  simp only [readFileBody, readEntry4, bind_assoc]
  rfl

theorem readFileEntry5_eq (formats : List (UInt64 × UInt64)) (s : Reader) :
    readFileEntry5 join formats s = readEntry5 join formats s >>= fun p =>
      .ok (p.2.elim p.1 p.1.internCall) := by
  simp only [readFileEntry5, readEntry5, bind_assoc]
  congr 1
  funext f
  split
  · rfl
  · simp only [bind_assoc]
    rfl

theorem readFile5_eq (s : Reader) : readFile5 join s = tableStart5 s >>= fun r =>
    Loop.times (readFileEntry5 join r.1) r.2.1 r.2.2 := by
  simp only [readFile5, tableStart5, bind_assoc]
  rfl

def EntryFrom5 (t : Reader) (formats : List (UInt64 × UInt64)) (u : Reader) : Prop :=
  ∃ n s k, tableStart5 t = .ok (formats, n, s) ∧ k < n ∧
    Loop.times (readFileEntry5 join formats) k s = .ok u

variable {join}

theorem tableStart5_interns (s : Reader) :
    Meets Any (fun r => Interns s [] r.2.2) (tableStart5 s) :=
  (Meets.any _).bind fun _ _ => (Meets.any _).bind fun _ _ => (Meets.any _).bind fun _ _ =>
    .aside rfl rfl rfl

theorem readEntry4_interns (f : FileState) :
    Meets Any (fun p => Interns f.s [] p.1) (readEntry4 join f) :=
  (Meets.any _).bind fun _ _ => (Meets.any _).bind fun _ _ => (Meets.any _).bind fun _ _ =>
    (Meets.any _).bind fun _ _ => .aside rfl rfl rfl

theorem readFileBody_interns (f : FileState) :
    Meets Any (fun g => ∃ s call, readEntry4 join f = .ok (s, call) ∧ Interns f.s [call] g.s)
      (readFileBody join f) := by
  rw [readFileBody_eq]
  refine (readEntry4_interns f).exact_bind fun p hp h => (Meets.any _).bind fun r _ => ?_
  exact ⟨p.1, p.2, hp, h.before ((intern_interns p.1 _ _ _).after (.aside rfl rfl rfl))⟩

def Fills (s t : Reader) : Prop := ∃ calls, Interns s calls t

theorem Fills.refl (s : Reader) : Fills s s := ⟨[], .refl s⟩

theorem Fills.trans {s t u : Reader} (h : Fills s t) (h' : Fills t u) : Fills s u := by
  obtain ⟨calls, h⟩ := h
  obtain ⟨more, h'⟩ := h'
  exact ⟨calls ++ more, h.trans h'⟩

theorem Interns.fills {s t : Reader} {calls : List Call} (h : Interns s calls t) : Fills s t :=
  ⟨calls, h⟩

theorem fills_aside {s t : Reader} (hpool : t.dl.files = s.dl.files) (hfiles : t.cu.files = s.cu.files)
    (hunits : t.dl.units = s.dl.units) : Fills s t :=
  (Interns.aside hpool hfiles hunits).fills

theorem readFile4_fills (s : Reader) : Meets Any (Fills s) (readFile4 join s) := by
  refine (Meets.any _).bind fun r _ => ?_
  refine (Meets.run_stuck (fun f : FileState => Fills s f.s) trivial (fun f _ _ hf => ?_)
    (fills_aside rfl rfl rfl)).bind fun f hf => hf.1
  exact (readFileBody_interns f).post fun g ⟨_, _, _, hg⟩ => hf.trans hg.fills

theorem readFileField_interns (f : FileEntry) (format : UInt64 × UInt64) :
    Meets Any (fun g => Interns f.s [] g.s) (readFileField f format) := by
  refine Meets.ite (fun _ => ?_) fun _ => Meets.ite (fun _ => ?_) fun _ => Meets.ite (fun _ => ?_)
    fun _ => trivial
  · exact (readPath_interns ..).bind fun _ h => h
  · refine (Meets.any _).bind fun r _ => ?_
    dsimp only
    split
    · exact .aside rfl rfl rfl
    · exact .aside rfl rfl rfl
  · exact (keep_interns ..).bind fun _ h => h

theorem readEntry5_interns (formats : List (UInt64 × UInt64)) (s : Reader) :
    Meets Any (fun p => Interns s [] p.1) (readEntry5 join formats s) := by
  refine (Meets.foldlM (fun f : FileEntry => Interns s [] f.s) (fun f format hf => ?_)
    (.refl s)).bind fun f hf => ?_
  · exact (readFileField_interns f format).post fun g hg => hf.after hg
  · refine Meets.ite (fun _ => hf) fun _ => ?_
    exact (Meets.any _).bind fun _ _ => (Meets.any _).bind fun _ _ => hf

theorem readFileEntry5_interns (formats : List (UInt64 × UInt64)) (s : Reader) :
    Meets Any (fun t => ∃ u call, readEntry5 join formats s = .ok (u, call) ∧
      Interns s call.toList t) (readFileEntry5 join formats s) := by
  rw [readFileEntry5_eq]
  refine (readEntry5_interns formats s).exact_bind fun p hp h => ?_
  obtain ⟨u, call⟩ := p
  refine ⟨u, call, hp, ?_⟩
  cases call with
  | none => exact h
  | some call => exact h.before (intern_interns u _ _ _)

theorem readFile5_fills (s : Reader) : Meets Any (Fills s) (readFile5 join s) := by
  rw [readFile5_eq]
  refine (tableStart5_interns s).bind fun r hr => Meets.times (Fills s) (fun t ht => ?_) hr.fills
  exact (readFileEntry5_interns r.1 t).post fun u ⟨_, _, _, hu⟩ => ht.trans hu.fills

theorem readFile_fills (s : Reader) : Meets Any (Fills s) (readFile join s) :=
  Meets.ite (fun _ => readFile4_fills s) fun _ => readFile5_fills s

theorem readVersion_interns (s : Reader) : Meets Any (Interns s []) (readVersion s) := by
  refine (Meets.any _).bind fun _ _ => (Meets.any _).bind fun r _ => ?_
  refine Meets.ite (fun _ => trivial) fun _ => Meets.ite (fun _ => ?_) fun _ => .aside rfl rfl rfl
  refine (keep_interns ..).bind fun t ht => (keep_interns ..).post fun u hu => ?_
  exact (Interns.aside rfl rfl rfl : Interns s [] { s with c := r.2, sm.version := r.1 }).before
    (ht.after hu)

theorem readMaximumOperations_interns (s : Reader) :
    Meets Any (Interns s []) (readMaximumOperations s) :=
  Meets.ite (fun _ => keep_interns ..) fun _ => .aside rfl rfl rfl

theorem readDefaultIsStmt_interns (s : Reader) : Meets Any (Interns s []) (readDefaultIsStmt s) := by
  refine (Meets.any _).bind fun o _ => ?_
  cases o with
  | none => trivial
  | some r => exact Meets.ite (fun _ => .aside rfl rfl rfl) fun _ => .aside rfl rfl rfl

theorem readBase_interns (s : Reader) : Meets Any (Interns s []) (readBase s) := by
  refine (keep_interns ..).bind fun t1 h1 => (readMaximumOperations_interns t1).bind fun t2 h2 => ?_
  refine (readDefaultIsStmt_interns t2).bind fun t3 h3 => (keep_interns ..).bind fun t4 h4 => ?_
  refine (keep_interns ..).bind fun t5 h5 => (keep_interns ..).post fun t6 h6 => ?_
  exact h1.after (h2.after (h3.after (h4.after (h5.after h6))))

theorem readBaseAndDir_interns (s : Reader) : Meets Any (Interns s []) (readBaseAndDir s) := by
  refine (readBase_interns s).bind fun t1 h1 => Meets.bind (P := Interns t1 []) ?_ fun t2 h2 => ?_
  · exact (Meets.any _).bind fun _ _ => (Meets.any _).bind fun _ _ => (Meets.any _).bind fun _ _ =>
      .aside rfl rfl rfl
  · exact (readDir_interns t2).post fun t3 h3 => h1.after (h2.after h3)

theorem headerStart_interns (h : Reader) :
    Meets Any (fun r => Interns h [] r.1) (headerStart h) :=
  (readVersion_interns h).bind fun _ hs => (Meets.any _).bind fun _ _ => hs.after (.aside rfl rfl rfl)

theorem readHeader_fills (h : Reader) : Meets Any (Fills h) (readHeader join h) := by
  rw [readHeader_eq]
  refine (headerStart_interns h).bind fun r hr => Meets.bind (P := Fills r.1) ?_ fun t ht => ?_
  · exact (readBaseAndDir_interns r.1).bind fun u hu => (readFile_fills u).post fun t ht =>
      hu.fills.trans ht
  · exact (moveTo_interns t r.2).post fun u hu => (hr.fills.trans ht).trans hu.fills

theorem recordLine_interns (s : Reader) : Meets Any (Interns s []) (recordLine s) :=
  (Meets.any _).bind fun _ _ => .aside rfl rfl rfl

theorem special_interns (opcode : UInt8) (s : Reader) : Meets Any (Interns s []) (special opcode s) := by
  refine Meets.ite (fun _ => trivial) fun _ => (Meets.any _).bind fun _ _ => ?_
  refine (Meets.any _).bind fun sm _ => (recordLine_interns _).post fun t ht => ?_
  exact (Interns.aside rfl rfl rfl : Interns s [] { s with sm }).before ht

theorem perform_interns {s : Reader} {a : Action} (ha : a ≠ .defineFile) :
    Meets Any (Interns s []) (perform join s a) := by
  cases a with
  | special opcode => exact special_interns opcode s
  | copy => exact recordLine_interns s
  | advancePC adv => exact (Meets.any _).bind fun _ _ => .aside rfl rfl rfl
  | advanceLine adv => exact (Meets.any _).bind fun _ _ => .aside rfl rfl rfl
  | negateStmt => exact Meets.ite (fun _ => .aside rfl rfl rfl) fun _ => .aside rfl rfl rfl
  | constAddPC =>
    exact Meets.ite (fun _ => trivial) fun _ => (Meets.any _).bind fun _ _ => .aside rfl rfl rfl
  | endSequence => exact (recordLine_interns s).bind fun _ h => h.after (.aside rfl rfl rfl)
  | defineFile => exact absurd rfl ha
  | _ => exact .aside rfl rfl rfl

theorem perform_fills (s : Reader) (a : Action) : Meets Any (Fills s) (perform join s a) := by
  by_cases ha : a = .defineFile
  · rw [ha]
    exact readFile_fills s
  · exact (perform_interns ha).post fun _ h => h.fills

theorem land_interns (target : Option Nat) (s : Reader) : Meets Any (Interns s []) (land target s) := by
  cases target with
  | none => exact .refl s
  | some o => exact moveTo_interns s o

theorem step_fills (e : Nat) (s : Reader) : Meets Any (Fills s) (step join e s) := by
  rw [step_eq]
  refine Meets.ite (fun _ => trivial) fun _ => (Meets.any _).bind fun d _ => ?_
  refine (perform_fills _ d.action).bind fun t ht => (land_interns d.target t).post fun u hu => ?_
  exact ((fills_aside rfl rfl rfl : Fills s { s with c := d.c }).trans ht).trans hu.fills

theorem runProgram_fills (fuel e : Nat) (s : Reader) :
    Meets Any (Fills s) (runProgram join fuel e s) := by
  refine Meets.ite (fun _ => ?_) fun _ => .refl s
  refine (Meets.run_stuck (Fills s) trivial (fun t _ _ ht => ?_) (.refl s)).post fun u hu => hu.1
  exact (step_fills e t).post fun u hu => ht.trans hu

end

end Gelpp.Dwarf

import Gelpp.Dwarf.Links

namespace Gelpp.Dwarf

section
variable (join : Path → Path → Path) (s₀ : Scan)

inductive AddAt : Reader → Call → Prop
  | upTo4 {t s : Reader} {f : FileState} {call : Call} (ht : TableAt join s₀ t)
      (hv : t.sm.version < 5) (hf : EntryFrom join t f) (h : readEntry4 join f = .ok (s, call)) :
      AddAt s call
  | from5 {t u s : Reader} {formats : List (UInt64 × UInt64)} {call : Call}
      (ht : TableAt join s₀ t) (hv : ¬ t.sm.version < 5) (hu : EntryFrom5 join t formats u)
      (h : readEntry5 join formats u = .ok (s, some call)) : AddAt s call

def PathsNew : Prop := ∀ s call, AddAt join s₀ s call → some call.1 ∉ s.paths

end

section
variable {s t : Reader} {call : Call}

def Reader.Distinct (s : Reader) : Prop := s.Linked ∧ s.cu.files.Nodup

theorem place_mem_paths (h : s.Linked) (path : Path) (hp : Pool.place s.dl.pool path ∈ s.cu.files) :
    some path ∈ s.paths := by
  have hlt := h.indexed s.cu (by simp) _ hp
  have hkey := Pool.keys_place (Pool.place_lt.mp hlt)
  refine List.mem_map.mpr ⟨_, hp, ?_⟩
  rw [Pool.keys, List.getElem?_map, DebugLine.pool_get, Option.map_map] at hkey
  exact hkey

theorem Interns.distinct (h : Interns s [call] t) (hs : s.Distinct) (hnew : some call.1 ∉ s.paths) :
    t.Distinct := by
  refine ⟨h.linked hs.1, ?_⟩
  rw [h.files, Pool.places, Pool.places]
  refine List.nodup_append.mpr ⟨hs.2, List.nodup_singleton _, ?_⟩
  rintro i hi j hj rfl
  rw [List.mem_singleton] at hj
  exact hnew (place_mem_paths hs.1 call.1 (hj ▸ hi))

theorem Interns.distinct_none (h : Interns s [] t) (hs : s.Distinct) : t.Distinct := by
  refine ⟨h.linked hs.1, ?_⟩
  rw [h.files, Pool.places, List.append_nil]
  exact hs.2

end

section
variable {join : Path → Path → Path} {s₀ : Scan}

theorem readFile4_distinct {t : Reader} (hnew : PathsNew join s₀) (ht : TableAt join s₀ t)
    (hv : t.sm.version < 5) (hd : t.Distinct) :
    Meets Any Reader.Distinct (readFile4 join t) := by
  refine (Meets.any _).exact_bind fun r hr _ => ?_
  have hstart : Reader.Distinct { t with c := r.2 } :=
    (Interns.aside rfl rfl rfl : Interns t [] { t with c := r.2 }).distinct_none hd
  refine (Meets.run_stuck (fun f : FileState => f.s.Distinct) trivial (fun f hf hm hfd => ?_)
    hstart).bind fun f hf => hf.1
  rw [readFileBody_eq]
  refine (readEntry4_interns f).exact_bind fun p hp h => (Meets.any _).bind fun q _ => ?_
  have hat : AddAt join s₀ p.1 p.2 := .upTo4 ht hv ⟨r.1, r.2, hr, hf, hm⟩ hp
  have hadd := (intern_interns p.1 _ _ _).distinct (h.distinct_none hfd) (hnew p.1 p.2 hat)
  exact (Interns.aside rfl rfl rfl : Interns _ [] _).distinct_none hadd

theorem readFile5_distinct {t : Reader} (hnew : PathsNew join s₀) (ht : TableAt join s₀ t)
    (hv : ¬ t.sm.version < 5) (hd : t.Distinct) :
    Meets Any Reader.Distinct (readFile5 join t) := by
  rw [readFile5_eq]
  refine (tableStart5_interns t).exact_bind fun r hr h => ?_
  refine Meets.times_at Reader.Distinct (fun k u hk hu hud => ?_) (h.distinct_none hd)
  rw [readFileEntry5_eq]
  refine (readEntry5_interns r.1 u).exact_bind fun p hp hi => ?_
  obtain ⟨v, call⟩ := p
  cases call with
  | none => exact hi.distinct_none hud
  | some call =>
    have hat : AddAt join s₀ v call := .from5 ht hv ⟨r.2.1, r.2.2, k, hr, hk, hu⟩ hp
    exact (intern_interns v _ _ _).distinct (hi.distinct_none hud) (hnew v call hat)

theorem readFile_distinct {t : Reader} (hnew : PathsNew join s₀) (ht : TableAt join s₀ t)
    (hd : t.Distinct) : Meets Any Reader.Distinct (readFile join t) :=
  Meets.ite (fun hv => readFile4_distinct hnew ht hv hd) fun hv => readFile5_distinct hnew ht hv hd

theorem readHeader_distinct {h : Reader} {e : Nat} (hnew : PathsNew join s₀)
    (hh : HeaderAt join s₀ h e) (hd : h.Distinct) : Meets Any Reader.Distinct (readHeader join h) := by
  rw [readHeader_eq]
  refine (headerStart_interns h).exact_bind fun r hr hi => ?_
  refine Meets.bind (P := Reader.Distinct) ?_ fun t ht => ?_
  · refine (readBaseAndDir_interns r.1).exact_bind fun t ht hj => ?_
    exact readFile_distinct hnew (.header hh hr ht) (hj.distinct_none (hi.distinct_none hd))
  · exact (moveTo_interns t r.2).post fun u hu => hu.distinct_none ht

theorem step_distinct {r : Reader} {e : Nat} (hnew : PathsNew join s₀) (hr : OpcodeAt join s₀ r e)
    (hd : r.Distinct) : Meets Any Reader.Distinct (step join e r) := by
  rw [step_eq]
  refine Meets.ite (fun _ => trivial) fun _ => (Meets.any _).exact_bind fun d hdec _ => ?_
  have hstart : Reader.Distinct { r with c := d.c } :=
    (Interns.aside rfl rfl rfl : Interns r [] { r with c := d.c }).distinct_none hd
  refine Meets.bind (P := Reader.Distinct) ?_ fun t ht => ?_
  · by_cases ha : d.action = .defineFile
    · rw [ha]
      exact readFile_distinct hnew (.defined hr hdec ha) hstart
    · exact (perform_interns ha).post fun t ht => ht.distinct_none hstart
  · exact (land_interns d.target t).post fun u hu => hu.distinct_none ht

theorem runProgram_distinct {fuel e : Nat} {h r : Reader} (hnew : PathsNew join s₀)
    (hh : HeaderAt join s₀ h e) (hr : readHeader join h = .ok r) (hd : r.Distinct) :
    Meets Any Reader.Distinct (runProgram join fuel e r) := by
  refine Meets.ite (fun hlt => ?_) fun _ => hd
  refine (Meets.run_stuck Reader.Distinct trivial (fun t hv hm ht => ?_) hd).post fun u hu => hu.1
  exact step_distinct hnew ⟨r, ⟨h, hh, hr, hlt⟩, hv, hm⟩ ht

def Scan.Distinct (s : Scan) : Prop := s.Linked ∧ ∀ u ∈ s.dl.units, u.files.Nodup

theorem readCU_distinct {fuel : Nat} {s t : Scan} (hnew : PathsNew join s₀)
    (hat : UnitAt join s₀ s) (hm : scanning s = true) (hs : s.Distinct)
    (h : readCU join fuel s = .ok t) : t.Distinct := by
  refine ⟨readCU_linked hs.1 h, ?_⟩
  obtain ⟨⟨r, e⟩, hopen, h⟩ := Res.bind_ok.mp h
  obtain ⟨p, hp, h⟩ := Res.bind_ok.mp h
  obtain ⟨q, hq, h⟩ := Res.bind_ok.mp h
  have hh : HeaderAt join s₀ r e := ⟨s, hat, hm, hopen⟩
  have hr : r.Distinct := ⟨openUnit_linked hs.1 hopen, by
    obtain ⟨_, -, hr⟩ := Res.bind_ok.mp hopen
    cases hr
    exact .nil⟩
  have hpd := (readHeader_distinct hnew hh hr).of_ok hp
  have hqd := (runProgram_distinct hnew hh hp hpd).of_ok hq
  have hunits : q.dl.units = s.dl.units := by
    obtain ⟨calls, hcalls⟩ := (readHeader_fills r).of_ok hp
    obtain ⟨more, hmore⟩ := (runProgram_fills fuel e p).of_ok hq
    obtain ⟨_, -, hr⟩ := Res.bind_ok.mp hopen
    cases hr
    exact hmore.units.trans hcalls.units
  rw [closeUnit_dl h, addUnit, hunits]
  intro u hu
  rcases List.mem_append.mp hu with hu | hu
  · exact hs.2 u hu
  · exact List.mem_singleton.mp hu ▸ hqd.2

theorem UnitAt.distinct {s : Scan} (hnew : PathsNew join s₀) (h₀ : s₀.Distinct)
    (h : UnitAt join s₀ s) : s.Distinct := by
  induction h with
  | refl => exact h₀
  | tail hat hst ih =>
    obtain ⟨hm, fuel, hfuel⟩ := hst
    exact readCU_distinct hnew hat hm ih hfuel

theorem start_distinct (buf : Buffer) (strSect lineStrSect : Cursor) :
    (Scan.start buf strSect lineStrSect).Distinct :=
  ⟨start_linked buf strSect lineStrSect, fun u hu => by cases hu⟩

theorem unitAt_of_readAll {fuel : Nat} {s : Scan} (h : readAll join fuel s₀ = .ok s) :
    UnitAt join s₀ s :=
  unitAt_of_visits (Loop.visits_of_run h).1

theorem files_linked_once {buf : Buffer} {strSect lineStrSect : Cursor}
    (hnew : PathsNew join (.start buf strSect lineStrSect)) :
    (∀ s, UnitAt join (.start buf strSect lineStrSect) s → LinkedOnce s.dl) ∧
    ∀ fuel dl, debugLine join fuel buf strSect lineStrSect = .ok dl → LinkedOnce dl := by
  have hunits (s : Scan) (hs : UnitAt join (.start buf strSect lineStrSect) s) :
      LinkedOnce s.dl := by
    have hd := hs.distinct hnew (start_distinct buf strSect lineStrSect)
    exact linkedOnce_of_nodup hd.1 hd.2
  refine ⟨hunits, fun fuel dl h => ?_⟩
  obtain ⟨s, hs, hdl⟩ := Res.bind_ok.mp h
  cases hdl
  exact hunits s (unitAt_of_readAll hs)

end

section
variable (join : Path → Path → Path)

def entryNew (f : FileState) : Bool :=
  match readEntry4 join f with
  | .ok (s, call) => decide (some call.1 ∉ s.paths)
  | .error _ => true

def tableNew (fuel : Nat) (t : Reader) : Bool :=
  match readName t.c with
  | .ok (name, c) =>
    Loop.every FileState.more (readFileBody join) (entryNew join) fuel { s := { t with c }, name }
  | .error _ => true

def newChecks (fuel : Nat) : Checks where
  unit _ := true
  header h _ := match headerStart h >>= fun r => readBaseAndDir r.1 with
    | .ok t => decide (t.sm.version < 5) && tableNew join fuel t
    | .error _ => true
  opcode r _ := match decode r with
    | .ok d => d.action != .defineFile
    | .error _ => true

variable {join} {fuel : Nat} {s₀ : Scan}

theorem pathsNew_of_checks (h : (newChecks join fuel).passed join fuel s₀ = true) :
    PathsNew join s₀ := by
  have htable (t : Reader) (ht : TableAt join s₀ t) : t.sm.version < 5 ∧ tableNew join fuel t = true := by
    cases ht with
    | header hh hr ht =>
      have hhead := Checks.of_header h hh
      simpa only [newChecks, hr, Res.ok_bind, ht, Bool.and_eq_true, decide_eq_true_eq] using hhead
    | defined hr hd ha =>
      have hop := Checks.of_opcode h hr
      simp [newChecks, hd, ha] at hop
  intro s call hadd
  cases hadd with
  | upTo4 ht hv hf hentry =>
    obtain ⟨name, c, hname, hvisit, hm⟩ := hf
    have hnew := (htable _ ht).2
    simp only [tableNew, hname] at hnew
    have hcall := Loop.of_every hnew hvisit hm
    simpa only [entryNew, hentry, decide_eq_true_eq] using hcall
  | from5 ht hv hu hentry => exact absurd (htable _ ht).1 hv

end

theorem files_linked_once_twoRows :
    (∀ s, UnitAt slashed twoRows s → LinkedOnce s.dl) ∧
    ∀ fuel dl, debugLine slashed fuel twoRows.c.buf nullCursor nullCursor = .ok dl →
      LinkedOnce dl :=
  files_linked_once (pathsNew_of_checks (by decide +kernel :
    (newChecks slashed 40).passed slashed 40 twoRows = true))

-- A unit whose table has the file a twice.
def twice : Scan :=
  lineBuffer [28, 0, 0, 0, 2, 0, 18, 0, 0, 0, 1, 1, 0xfb, 14, 2, 0, 0, 97, 0, 0, 0, 0, 97, 0, 0, 0, 0,
    0, 1, 0, 1, 1] (by decide)

theorem twice_linked_twice :
    ∃ dl, debugLine slashed 40 twice.c.buf nullCursor nullCursor = .ok dl ∧ ¬ LinkedOnce dl := by
  have hfiles : (debugLine slashed 40 twice.c.buf nullCursor nullCursor).toOption.map
      (fun dl => (dl.files[0]?.map File.units, dl.units[0]?.map CompilationUnit.files)) =
      some (some [0, 0], some [0, 0]) := by
    decide +kernel
  cases h : debugLine slashed 40 twice.c.buf nullCursor nullCursor with
  | error e =>
    rw [h] at hfiles
    cases hfiles
  | ok dl =>
    rw [h] at hfiles
    obtain ⟨hf, hu⟩ := Prod.mk.inj (Option.some.inj hfiles)
    obtain ⟨file, hfile, hunits⟩ := Option.map_eq_some_iff.mp hf
    obtain ⟨u, hunit, hmem⟩ := Option.map_eq_some_iff.mp hu
    refine ⟨dl, rfl, fun hlinked => ?_⟩
    have honce := hlinked.once 0 file 0 u hfile hunit
    rw [hunits, hmem] at honce
    simp at honce

end Gelpp.Dwarf

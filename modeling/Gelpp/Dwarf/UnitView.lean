import Gelpp.Dwarf.WindowRun
import Gelpp.Dwarf.Linked

namespace Gelpp.Dwarf

def DebugLine.fileView (dl : DebugLine) (f : Nat) : Option Call :=
  dl.files[f]?.map fun x => (x.path, x.date, x.size)

def DebugLine.unitView (dl : DebugLine) (u : CompilationUnit) :
    List (Option Call) × List (LineNumber × Option Call) :=
  (u.files.map dl.fileView, u.lines.map fun l => ({ l with file := 0 }, dl.fileView l.file))

section
variable {dl dl' : DebugLine} {u : CompilationUnit}

theorem fileView_eq (dl : DebugLine) (f : Nat) : dl.fileView f = (Pool.labels dl.pool)[f]? := by
  rw [labels_map, List.getElem?_map]
  rfl

theorem file_of_lookup {path : Path} {data : UInt64 × UInt64}
    (h : (Pool.labels dl.pool).lookup path = some data) :
    ∃ f ∈ dl.files, f.path = path ∧ (f.date, f.size) = data := by
  obtain ⟨before, after, hsplit, -⟩ := List.lookup_eq_some_iff.mp h
  have hmem : (path, data) ∈ Pool.labels dl.pool := by
    rw [hsplit]
    exact List.mem_append_right _ List.mem_cons_self
  rw [labels_map, List.mem_map] at hmem
  obtain ⟨f, hf, heq⟩ := hmem
  exact ⟨f, hf, Prod.mk_inj.mp heq⟩

theorem fileView_mono (h : Pool.labels dl.pool <+: Pool.labels dl'.pool) {f : Nat}
    (hf : f < dl.pool.length) : dl'.fileView f = dl.fileView f := by
  obtain ⟨more, hmore⟩ := h
  rw [fileView_eq, fileView_eq, ← hmore, List.getElem?_append_left]
  rwa [Pool.labels, List.length_map]

theorem unitView_mono (h : Pool.labels dl.pool <+: Pool.labels dl'.pool)
    (hfiles : ∀ f ∈ u.files, f < dl.pool.length) (hknown : FilesKnown u) :
    dl'.unitView u = dl.unitView u := by
  rw [DebugLine.unitView, DebugLine.unitView, Prod.mk_inj]
  constructor
  · exact List.map_congr_left fun f hf => fileView_mono h (hfiles f hf)
  · refine List.map_congr_left fun l hl => ?_
    rw [fileView_mono h (hfiles _ (hknown l hl))]

end

section
variable {loose : Prop} {h h' r q : Reader} {calls : List Call} {w : Window}

theorem Interns.fileView (hr : Interns h calls r) (path : Path) :
    r.dl.fileView (Pool.place r.dl.pool path) =
      ((Pool.labels h.dl.pool ++ calls).lookup path).map (path, ·) := by
  rw [fileView_eq, Pool.label_place, hr.pool, Pool.lookup_internAll]

theorem Interns.lookup_eq (hr : Interns h calls r) (hnew : h.dl.files = [])
    (hdates : SameDates h'.dl.files r.dl.files) {c : Call} (hc : c ∈ calls) :
    (Pool.labels h'.dl.pool ++ calls).lookup c.1 = (Pool.labels h.dl.pool ++ calls).lookup c.1 := by
  have hempty : Pool.labels h.dl.pool = [] := by rw [DebugLine.pool, hnew]; rfl
  have hall : (Pool.labels r.dl.pool).lookup c.1 = calls.lookup c.1 := by
    rw [hr.pool, Pool.lookup_internAll, hempty, List.nil_append]
  rw [hempty, List.nil_append, List.lookup_append]
  cases hold : (Pool.labels h'.dl.pool).lookup c.1 with
  | none => rfl
  | some old =>
    cases hown : calls.lookup c.1 with
    | none =>
      have hne := List.lookup_eq_none_iff.mp hown c hc
      simp at hne
    | some own =>
      rw [hown] at hall
      obtain ⟨f, hf, hfp, hfd⟩ := file_of_lookup hold
      obtain ⟨g, hg, hgp, hgd⟩ := file_of_lookup hall
      obtain ⟨hdate, hsize⟩ := hdates f hf g hg (hfp.trans hgp.symm)
      rw [← hfd, ← hgd, hdate, hsize]
      rfl

theorem Mirrored.fileView_eq (m : Mirrored loose w h h' r q) (hnew : h.dl.files = [])
    (hcu : h.cu.files = []) (hcu' : h'.cu.files = []) (hdates : SameDates h'.dl.files r.dl.files)
    {i f g : Nat}
    (hf : r.cu.files[i]? = some f) (hg : q.cu.files[i]? = some g) :
    r.dl.fileView f = q.dl.fileView g := by
  obtain ⟨calls, hr, hq⟩ := m.calls.calls
  rw [hr.files_eq hcu, List.getElem?_map] at hf
  rw [hq.files_eq hcu', List.getElem?_map] at hg
  obtain ⟨c, hc, rfl⟩ := Option.map_eq_some_iff.mp hf
  rw [hc] at hg
  cases hg
  rw [hr.fileView, hq.fileView, hr.lookup_eq hnew hdates (List.mem_of_getElem? hc)]

theorem Mirrored.unitView_eq (m : Mirrored loose w h h' r q) (hnew : h.dl.files = [])
    (hcu : h.cu.files = []) (hcu' : h'.cu.files = []) (hdates : SameDates h'.dl.files r.dl.files) :
    r.dl.unitView r.cu = q.dl.unitView q.cu := by
  rw [DebugLine.unitView, DebugLine.unitView, Prod.mk_inj]
  constructor
  · refine List.ext_getElem? fun i => ?_
    rw [List.getElem?_map, List.getElem?_map]
    cases hf : r.cu.files[i]? with
    | none =>
      rw [List.getElem?_eq_none_iff, ← m.calls.length, ← List.getElem?_eq_none_iff] at hf
      rw [hf]
      rfl
    | some f =>
      have hlt : i < q.cu.files.length := m.calls.length ▸ (List.getElem?_eq_some_iff.mp hf).1
      have hg := List.getElem?_eq_getElem hlt
      rw [hg, Option.map_some, Option.map_some, m.fileView_eq hnew hcu hcu' hdates hf hg]
  · rw [← List.forall₂_eq_eq_eq, List.forall₂_map_left_iff, List.forall₂_map_right_iff]
    refine m.rows.imp fun l l' ⟨heq, i, hl, hl'⟩ => ?_
    rw [m.fileView_eq hnew hcu hcu' hdates hl hl', heq]

theorem openUnit_new {s : Scan} {e : Nat} (hopen : openUnit s = .ok (h, e)) :
    h.cu = {} ∧ h.dl.files = s.dl.files ∧ h.dl.units = s.dl.units := by
  obtain ⟨v, -, hv⟩ := Res.bind_ok.mp hopen
  cases hv
  exact ⟨rfl, rfl, rfl⟩

theorem ReadAlike.labels {s t x y : Scan} (hxy : ReadAlike loose w s t x y) :
    Pool.labels t.dl.pool <+: Pool.labels y.dl.pool := by
  obtain ⟨h, h', r, q, -, ht, m, -, hy⟩ := hxy.read
  obtain ⟨-, hfiles, -⟩ := openUnit_new ht
  obtain ⟨calls, -, hq⟩ := m.calls.calls
  rw [DebugLine.pool, ← hfiles, hy]
  change Pool.labels h'.dl.pool <+: Pool.labels q.dl.pool
  rw [hq.pool]
  exact Pool.labels_internAll

theorem ReadAlike.dates {s t x y : Scan} (hxy : ReadAlike False w s t x y) :
    SameDates t.dl.files x.dl.files := by
  obtain ⟨h, h', r, q, -, ht, m, hx, -⟩ := hxy.read
  obtain ⟨-, hfiles, -⟩ := openUnit_new ht
  rw [hx, ← hfiles]
  exact (m.dates.resolve_left id).dates

theorem ReadAlike.unitView_eq {s t x y : Scan} (hxy : ReadAlike loose w s t x y) (hnew : s.dl.files = [])
    (hdates : SameDates t.dl.files x.dl.files) : ∃ u v, x.dl.units = s.dl.units ++ [u] ∧
      y.dl.units = t.dl.units ++ [v] ∧ x.dl.unitView u = y.dl.unitView v := by
  obtain ⟨h, h', r, q, hs, ht, m, hx, hy⟩ := hxy.read
  obtain ⟨hcu, hfiles, hunits⟩ := openUnit_new hs
  obtain ⟨hcu', hfiles', hunits'⟩ := openUnit_new ht
  obtain ⟨calls, hr, hq⟩ := m.calls.calls
  refine ⟨r.cu, q.cu, ?_, ?_, ?_⟩
  · rw [hx, addUnit, hr.units, hunits]
  · rw [hy, addUnit, hq.units, hunits']
  · rw [hx, hy]
    refine m.unitView_eq (hfiles.trans hnew) (by rw [hcu]) (by rw [hcu']) ?_
    rw [hfiles']
    rwa [hx] at hdates

end

end Gelpp.Dwarf

import Gelpp.Elf.Order
import Gelpp.Elf.UnixBuilder

namespace Gelpp.Elf

open FileM Effect

namespace Source

variable (b : Source)

def phdr (mem : List UInt8) (i : Nat) : Res Phdr :=
  readPhdr b.host b.layout.phdr mem (i * b.h.phentsize)

def segmentInit (p : Phdr) (buf : List UInt8) : Res (List UInt8) :=
  if p.filesz ≠ 0 then b.read p.offset p.filesz buf else .ok buf

def segmentContent (p : Phdr) : Res (List UInt8) :=
  if p.memsz < 2 ^ 63 then (b.segmentInit p (b.fresh p.memsz)).map (zeroFill p)
  else .error .badAlloc

end Source

structure Executable (b : Source) where
  mem : List UInt8
  phdrs : List Phdr
  contents : Nat → List UInt8
  table : b.headerTable = .ok mem
  length : phdrs.length = b.h.phnum
  phdr : ∀ i p, phdrs[i]? = some p → b.phdr mem i = .ok p
  content : ∀ i p, phdrs[i]? = some p → p.type = ptLoad → b.segmentContent p = .ok (contents i)

section
variable {b : Source} {f g : File}

theorem readBuf_calm (hc : f.Calm) (p : Phdr) :
    ∃ k, (readBuf p).run f = (f.source.segmentContent p, ticked f k) := by
  rw [readBuf, Source.segmentContent]
  by_cases hlt : p.memsz < 2 ^ 63
  · rw [bind_of_ok ((alloc_run f p.memsz).trans (if_pos hlt)), if_pos hlt, readInit,
      Source.segmentInit]
    by_cases hz : p.filesz ≠ 0
    · refine ⟨asks p.offset p.filesz, ?_⟩
      have hread := readAt_calm hc p.offset p.filesz (fresh f p.memsz)
      have hfresh : f.source.fresh p.memsz = fresh f p.memsz := rfl
      rw [if_pos hz, if_pos hz, hfresh]
      cases hr : f.source.read p.offset p.filesz (fresh f p.memsz) with
      | ok buf =>
        rw [hr] at hread
        exact bind_of_ok hread
      | error e =>
        rw [hr] at hread
        exact bind_of_error hread
    · rw [if_neg hz, if_neg hz]
      exact ⟨[], by rw [ticked_nil]; rfl⟩
  · rw [bind_of_error ((alloc_run f p.memsz).trans (if_neg hlt)), if_neg hlt]
    exact ⟨[], by rw [ticked_nil]⟩

theorem zeroFill_length {p : Phdr} {buf : List UInt8} (h : buf.length = p.memsz) :
    (zeroFill p buf).length = p.memsz := by
  rw [zeroFill]
  split
  · rw [List.length_append, List.length_replicate, List.length_drop]
    omega
  · exact h

theorem sourceRead_length {pos size : Nat} {buf raw : List UInt8} (h : b.read pos size buf = .ok raw) :
    raw.length = buf.length := by
  rw [Source.read] at h
  split at h
  · cases h
  · next hfits =>
    split at h
    · cases h
    · cases h
      rw [List.length_append, List.length_drop]
      omega

theorem segmentContent_length {p : Phdr} {buf : List UInt8} (h : b.segmentContent p = .ok buf) :
    buf.length = p.memsz ∧ p.memsz < 2 ^ 63 := by
  rw [Source.segmentContent] at h
  split at h
  · next hlt =>
    refine ⟨?_, hlt⟩
    have hfresh : (b.fresh p.memsz).length = p.memsz := by
      rw [Source.fresh, List.length_map, List.length_range]
    cases hinit : b.segmentInit p (b.fresh p.memsz) with
    | error e =>
      rw [hinit] at h
      cases h
    | ok init =>
      rw [hinit] at h
      cases h
      apply zeroFill_length
      rw [Source.segmentInit] at hinit
      split at hinit
      · exact (sourceRead_length hinit).trans hfresh
      · cases hinit
        exact hfresh
  · cases h

variable {x : Executable b} {init : Bool}

def Executable.loads (x : Executable b) : List Nat :=
  (List.range b.h.phnum).filter fun i => (x.phdrs[i]?.map Phdr.type) == some ptLoad

def Executable.segs (x : Executable b) : List Segment := x.loads.map fun i => { head := i }

structure Ready (x : Executable b) (init : Bool) (f : File) : Prop where
  source : f.source = b
  calm : f.Calm
  phLoaded : f.phLoaded = true
  phBuf : f.phBuf = some x.mem
  ptrs : f.phs.map ProgramHeader.ptr = (headersAt b.h).map ProgramHeader.ptr
  bufs : ∀ (i : Nat) (h : ProgramHeader), f.phs[i]? = some h → ∀ buf, h.buf = some buf →
    ∀ p, x.phdrs[i]? = some p → b.segmentContent p = .ok buf
  segsInit : f.segsInit = init
  segs : init = true → f.segs = x.segs

theorem Ready.length (h : Ready x init f) : f.phs.length = b.h.phnum := by
  have hlen := congrArg List.length h.ptrs
  rwa [List.length_map, List.length_map, headersAt, List.length_map, List.length_range] at hlen

theorem Ready.ph (h : Ready x init f) {i : Nat} {p : Phdr} (hp : x.phdrs[i]? = some p) :
    ∃ ph, f.phs[i]? = some ph ∧ f.phdr ph.ptr = .ok p := by
  have hi : i < b.h.phnum := by
    rw [← x.length]
    exact (List.getElem?_eq_some_iff.mp hp).1
  have hptr := congrArg (fun l => l[i]?) h.ptrs
  rw [headersAt, List.map_map, List.getElem?_map, List.getElem?_map, List.getElem?_range hi] at hptr
  obtain ⟨ph, hph, heq⟩ := Option.map_eq_some_iff.mp hptr
  refine ⟨ph, hph, ?_⟩
  have hhost : f.host = b.host := congrArg Source.host h.source
  have hlayout : f.layout = b.layout := congrArg Source.layout h.source
  rw [File.phdr, h.phBuf, hhost, hlayout, heq]
  exact x.phdr i p hp

theorem header_gives {i : Nat} {p : Phdr} (hp : x.phdrs[i]? = some p) :
    Gives (Ready x init) (header i) (.ok p) := by
  intro s hs
  obtain ⟨ph, hph, hread⟩ := hs.ph hp
  refine ⟨s, ?_, hs⟩
  rw [header, get_bind, bind_of_ok (at_some (Int.natCast_nonneg i) hph s), hread]
  rfl

theorem Ready.ticked (h : Ready x init f) (k : List Asked) : Ready x init (ticked f k) :=
  ⟨h.source, h.calm, h.phLoaded, h.phBuf, h.ptrs, h.bufs, h.segsInit, h.segs⟩

theorem Ready.store (h : Ready x init f) {i : Nat} {ph : ProgramHeader} {p : Phdr} {buf : List UInt8}
    (hph : f.phs[i]? = some ph) (hp : x.phdrs[i]? = some p) (hbuf : b.segmentContent p = .ok buf) :
    Ready x init { f with phs := f.phs.set i { ph with buf := some buf } } := by
  refine ⟨h.source, h.calm, h.phLoaded, h.phBuf, ?_, ?_, h.segsInit, h.segs⟩
  · obtain ⟨hi, hget⟩ := List.getElem?_eq_some_iff.mp hph
    rw [← h.ptrs, List.map_set]
    apply List.ext_getElem?
    intro j
    rw [List.getElem?_set]
    split
    · next hij =>
      subst hij
      rw [List.length_map, if_pos hi, List.getElem?_map, hph]
      rfl
    · rfl
  · intro j ph' hph' buf' hbuf' p' hp'
    rw [List.getElem?_set] at hph'
    split at hph'
    · next hij =>
      subst hij
      rw [if_pos (List.getElem?_eq_some_iff.mp hph).1] at hph'
      cases hph'
      cases hbuf'
      rw [hp] at hp'
      cases hp'
      exact hbuf
    · exact h.bufs j ph' hph' buf' hbuf' p' hp'

theorem content_gives {i : Nat} {p : Phdr} (hp : x.phdrs[i]? = some p) (ht : p.type = ptLoad) :
    Gives (Ready x init) (content i) (.ok (x.contents i)) := by
  intro s hs
  obtain ⟨ph, hph, hread⟩ := hs.ph hp
  have hat := at_some (Int.natCast_nonneg i) hph s
  have hcontent := x.content i p hp ht
  rw [content, get_bind, bind_of_ok hat]
  cases hb : ph.buf with
  | some buf =>
    have hkept := hs.bufs i ph hph buf hb p hp
    rw [hcontent] at hkept
    cases hkept
    exact ⟨s, rfl, hs⟩
  | none =>
    obtain ⟨k, hk⟩ := readBuf_calm hs.calm p
    rw [hs.source, hcontent] at hk
    dsimp only
    rw [hread, lift_ok_bind, bind_of_ok hk]
    exact ⟨_, rfl, (hs.ticked k).store hph hp hcontent⟩

theorem phdr_type {i : Nat} (hi : i < b.h.phnum) :
    ∃ p, x.phdrs[i]? = some p ∧ b.phdr x.mem i = .ok p := by
  rw [← x.length] at hi
  exact ⟨_, List.getElem?_eq_getElem hi, x.phdr i _ (List.getElem?_eq_getElem hi)⟩

theorem addSegments_loads {l : List Nat} (hl : ∀ i ∈ l, i < b.h.phnum) (segs : List Segment) :
    l.foldlM (b.addSegment x.mem) segs = .ok (segs ++
      (l.filter fun i => (x.phdrs[i]?.map Phdr.type) == some ptLoad).map
        fun i => { head := i }) := by
  induction l generalizing segs with
  | nil =>
    rw [List.filter_nil, List.map_nil, List.append_nil]
    rfl
  | cons i l ih =>
    obtain ⟨p, hp, hread⟩ := phdr_type (x := x) (hl i (List.mem_cons_self ..))
    rw [List.foldlM_cons, Source.addSegment, show readPhdr b.host b.layout.phdr x.mem
      (i * b.h.phentsize) = .ok p from hread, Res.ok_bind]
    change (l.foldlM (b.addSegment x.mem) (if p.type = ptLoad then segs ++ [{ head := i }] else segs))
      = _
    rw [ih fun j hj => hl j (List.mem_cons_of_mem _ hj)]
    by_cases ht : p.type = ptLoad
    · rw [if_pos ht, List.filter_cons_of_pos (by rw [hp]; simpa using ht), List.map_cons,
        List.append_assoc]
      rfl
    · rw [if_neg ht, List.filter_cons_of_neg (by rw [hp]; simpa using ht)]

theorem loads_mem {i : Nat} (hi : i ∈ x.loads) :
    ∃ p, x.phdrs[i]? = some p ∧ p.type = ptLoad := by
  obtain ⟨-, ht⟩ := List.mem_filter.mp hi
  rw [beq_iff_eq] at ht
  exact Option.map_eq_some_iff.mp ht

theorem headers_bare {i : Nat} {ph : ProgramHeader} (h : (headersAt b.h)[i]? = some ph) :
    ph.buf = none := by
  obtain ⟨j, -, rfl⟩ := List.mem_map.mp (List.mem_of_getElem? h)
  rfl

theorem fresh_headers (hf : Fresh f) (hc : f.Calm) (x : Executable f.source) :
    ∃ f', programHeaders.run f = (.ok (headersAt f.h), f') ∧ Ready x false f' ∧
      f'.phs = headersAt f.source.h ∧ f'.segs = [] := by
  obtain ⟨k, hload⟩ := loadProgramHeaders_ok hc hf.phBuf x.table
  refine ⟨{ ticked f k with phBuf := some x.mem, phs := headersAt f.h, phLoaded := true }, ?_,
    ⟨rfl, hc, rfl, rfl, rfl, fun i ph hph buf hbuf => ?_, hf.segsInit, nofun⟩, rfl, hf.segs⟩
  · rw [programHeaders, get_bind, hf.phLoaded, if_neg Bool.false_ne_true, bind_of_ok hload]
    rfl
  · rw [headers_bare (b := f.source) hph] at hbuf
    cases hbuf

theorem fresh_segments (hf : Fresh f) (hc : f.Calm) (x : Executable f.source) :
    ∃ f', initSegments.run f = (.ok (), f') ∧ Ready x true f' := by
  obtain ⟨f1, hphs, hr, hheaders, hsegs⟩ := fresh_headers hf hc x
  have hloop := addSegments_run hr.source hr.phBuf hheaders (l := List.range f.h.phnum)
    fun i hi => List.mem_range.mp hi
  have hfold : (List.range f.h.phnum).foldlM (f.source.addSegment x.mem) [] = .ok ([] ++ x.segs) :=
    addSegments_loads (x := x) (fun i hi => List.mem_range.mp hi) []
  rw [hsegs, hfold, List.nil_append] at hloop
  refine ⟨{ f1 with segs := x.segs, segsInit := true }, ?_,
    ⟨hr.source, hr.calm, hr.phLoaded, hr.phBuf, hr.ptrs, hr.bufs, rfl, fun _ => rfl⟩⟩
  rw [initSegments, get_bind, hf.segsInit, if_neg Bool.false_ne_true, bind_of_ok hphs, headersAt,
    List.length_map, List.length_range]
  exact bind_of_ok hloop

theorem initSegments_ready (h : Ready x true f) : initSegments.run f = (.ok (), f) := by
  rw [initSegments, get_bind, h.segsInit]
  rfl

theorem initSegments_gives : Gives (Ready x true) initSegments (.ok ()) :=
  fun s hs => ⟨s, initSegments_ready hs, hs⟩

theorem count_gives : Gives (Ready x true) count (.ok x.segs.length) := by
  refine initSegments_gives.bind_ok fun s hs => ⟨s, ?_, hs⟩
  rw [get_bind, hs.segs rfl]
  rfl

theorem segment_gives {i : Nat} {seg : Segment} (h : x.segs[i]? = some seg) :
    Gives (Ready x true) (segment i) (.ok seg) := by
  refine initSegments_gives.bind_ok fun s hs => ⟨s, ?_, hs⟩
  rw [get_bind, hs.segs rfl]
  exact at_some (Int.natCast_nonneg i) h s

namespace Executable

def header (x : Executable b) (i : Nat) : Phdr := x.phdrs.getD i ⟨0, 0, 0, 0, 0, 0, 0, 0⟩

def view (x : Executable b) (i : Nat) : SegmentView where
  name := (x.header i).name
  loadAddress := .ofNat (x.header i).paddr
  size := (x.header i).memsz
  executable := (x.header i).isExecutable
  writable := (x.header i).isWritable
  content := true
  buffer := some (x.contents i)

def unixSegment (x : Executable b) (i : Nat) : ImageSegment :=
  .ofBuffer (x.contents i) (0 + .ofNat (x.header i).vaddr) (UnixBuilder.loadFlags (x.header i)) ""

end Executable

theorem header_some {i : Nat} {p : Phdr} (h : x.phdrs[i]? = some p) : x.header i = p := by
  rw [Executable.header, List.getD_eq_getElem?_getD, h]
  rfl

theorem described {i : Nat} (hi : i ∈ x.loads) :
    Described (Ready x true) (Segment.ops { head := i }) (x.view i) := by
  obtain ⟨p, hp, ht⟩ := loads_mem hi
  have hheader : Gives (Ready x true) (header i) (.ok (x.header i)) := by
    rw [header_some hp]
    exact header_gives hp
  exact ⟨hheader.bind_ok (Gives.pure _), hheader.bind_ok (Gives.pure _),
    hheader.bind_ok (Gives.pure _), hheader.bind_ok (Gives.pure _),
    hheader.bind_ok (Gives.pure _), Gives.pure _, (content_gives hp ht).bind_ok (Gives.pure _)⟩

theorem lists : Lists (Ready x true) fileOps (x.loads.map x.view) where
  count := by
    have hcount := count_gives (x := x)
    rwa [Executable.segs, List.length_map, ← List.length_map (f := x.view)] at hcount
  segment i v hv := by
    obtain ⟨j, hj, rfl⟩ := Option.map_eq_some_iff.mp (List.getElem?_map .. ▸ hv)
    have hseg : x.segs[i]? = some { head := j } := by
      rw [Executable.segs, List.getElem?_map, hj]
      rfl
    exact ⟨_, (segment_gives hseg).bind_ok (Gives.pure _), described (List.mem_of_getElem? hj)⟩

structure Static (x : Executable b) : Prop where
  addr : ∀ i ∈ x.loads, (x.header i).vaddr = (x.header i).paddr
  nonempty : ∀ i ∈ x.loads, 0 < (x.header i).filesz
  fits : ∀ i ∈ x.loads, (x.header i).filesz ≤ (x.header i).memsz

theorem contents_length {i : Nat} (hi : i ∈ x.loads) :
    (x.contents i).length = (x.header i).memsz ∧ (x.header i).memsz < 2 ^ 63 := by
  obtain ⟨p, hp, ht⟩ := loads_mem hi
  rw [header_some hp]
  exact segmentContent_length (x.content i p hp ht)

theorem Static.kept (hx : Static x) {i : Nat} (hi : i ∈ x.loads) : (x.view i).Kept := by
  have hpos := hx.nonempty i hi
  have hle := hx.fits i hi
  refine ⟨?_, rfl⟩
  change (x.header i).memsz ≠ 0
  omega

def Executable.simpleImage (x : Executable b) : Gelpp.Image :=
  { segs := x.loads.map fun i => (x.view i).image }

def Executable.unixImage (x : Executable b) : Gelpp.Image := { segs := x.loads.map x.unixSegment }

theorem kept_gives (x : Executable b) (junk : Nat → UInt8) :
    Gives (Ready x true) (SimpleBuilder.build junk fileOps)
      (.ok { segs := ((x.loads.map x.view).filter (·.Kept)).map SegmentView.image }) := by
  have hfit : ∀ v ∈ x.loads.map x.view, ∀ buf, v.buffer = some buf → buf.length ≤ v.size := by
    intro v hv buf hbuf
    obtain ⟨i, hi, rfl⟩ := List.mem_map.mp hv
    cases hbuf
    exact Nat.le_of_eq (contents_length hi).1
  have hsize : ∀ v ∈ x.loads.map x.view, v.Kept → v.size < 2 ^ 63 := by
    intro v hv _
    obtain ⟨i, hi, rfl⟩ := List.mem_map.mp hv
    exact (contents_length hi).2
  have hbuild := build_gives junk lists hfit
  rwa [addViews_ok hsize, List.nil_append] at hbuild

theorem simple_gives (hx : Static x) (junk : Nat → UInt8) :
    Gives (Ready x true) (SimpleBuilder.build junk fileOps) (.ok x.simpleImage) := by
  have hkept : (x.loads.map x.view).filter (·.Kept) = x.loads.map x.view := by
    apply List.filter_eq_self.mpr
    intro v hv
    obtain ⟨i, hi, rfl⟩ := List.mem_map.mp hv
    exact decide_eq_true (hx.kept hi)
  have hbuild := kept_gives x junk
  rwa [hkept, List.map_map] at hbuild

theorem count_fresh (hf : Fresh f) (hc : f.Calm) (x : Executable f.source) :
    ∃ g, Ready x true g ∧ count.run f = (.ok x.segs.length, g) := by
  obtain ⟨g, hrun, hg⟩ := fresh_segments hf hc x
  refine ⟨g, hg, ?_⟩
  rw [count, bind_of_ok hrun, get_bind, hg.segs rfl]
  rfl

theorem build_fresh (hf : Fresh f) (hc : f.Calm) {x : Executable f.source} {junk : Nat → UInt8}
    {im : Gelpp.Image} (h : Gives (Ready x true) (SimpleBuilder.build junk fileOps) (.ok im)) :
    ∃ g, (SimpleBuilder.build junk fileOps).run f = (.ok im, g) ∧ Ready x true g := by
  obtain ⟨g, hg, hfresh⟩ := count_fresh hf hc x
  obtain ⟨g', hbuild, hg'⟩ := h g hg
  have hready : count.run g = (.ok x.segs.length, g) := by
    rw [count, bind_of_ok (initSegments_ready hg), get_bind, hg.segs rfl]
    rfl
  refine ⟨g', ?_, hg'⟩
  rw [← hbuild, SimpleBuilder.build]
  exact (bind_of_ok hfresh).trans
    (bind_of_ok (k := fun n => (List.range n).foldlM (SimpleBuilder.addSegment junk fileOps) {})
      hready).symm

theorem simple_run (hf : Fresh f) (hc : f.Calm) {x : Executable f.source} (hx : Static x)
    (junk : Nat → UInt8) :
    ∃ g, (SimpleBuilder.build junk fileOps).run f = (.ok x.simpleImage, g) := by
  obtain ⟨g, hrun, -⟩ := build_fresh hf hc (simple_gives hx junk)
  exact ⟨g, hrun⟩

theorem loadHeader_gives (init : Bool) {i : Nat} {p : Phdr} (hp : x.phdrs[i]? = some p)
    (y : Gelpp.Image × UInt64) :
    Gives (Ready x init) (UnixBuilder.loadHeader 0 y i) (.ok (if p.type = ptLoad then
      (y.1.add (x.unixSegment i), max y.2 (0 + .ofNat p.vaddr + .ofNat p.memsz)) else y)) := by
  refine (header_gives hp).bind_ok ?_
  dsimp only
  by_cases ht : p.type = ptLoad
  · rw [if_pos ht, if_pos ht]
    refine (content_gives hp ht).bind_ok ?_
    rw [Executable.unixSegment, header_some hp]
    exact Gives.pure _
  · rw [if_neg ht, if_neg ht]
    exact Gives.pure _

theorem loadHeaders_gives (x : Executable b) (init : Bool) {l : List Nat}
    (hl : ∀ i ∈ l, i < b.h.phnum) (y : Gelpp.Image × UInt64) :
    ∃ top, Gives (Ready x init) (l.foldlM (UnixBuilder.loadHeader 0) y) (.ok (⟨y.1.segs ++
      (l.filter fun i => (x.phdrs[i]?.map Phdr.type) == some ptLoad).map x.unixSegment⟩, top)) := by
  induction l generalizing y with
  | nil =>
    refine ⟨y.2, ?_⟩
    rw [List.filter_nil, List.map_nil, List.append_nil]
    exact Gives.pure y
  | cons i l ih =>
    obtain ⟨p, hp, -⟩ := phdr_type (x := x) (hl i (List.mem_cons_self ..))
    have hstep := loadHeader_gives init hp y
    obtain ⟨top, hrest⟩ := ih (fun j hj => hl j (List.mem_cons_of_mem _ hj)) (if p.type = ptLoad then
      (y.1.add (x.unixSegment i), max y.2 (0 + .ofNat p.vaddr + .ofNat p.memsz)) else y)
    refine ⟨top, ?_⟩
    rw [List.foldlM_cons]
    have hall := hstep.bind_ok (k := fun z => l.foldlM (UnixBuilder.loadHeader 0) z) hrest
    by_cases ht : p.type = ptLoad
    · rw [List.filter_cons_of_pos (by rw [hp]; simpa using ht), List.map_cons]
      simpa [ht, Gelpp.Image.add] using hall
    · rw [List.filter_cons_of_neg (by rw [hp]; simpa using ht)]
      simpa [ht] using hall

theorem load_run (hf : Fresh f) (hc : f.Calm) (x : Executable f.source) :
    ∃ g top, (UnixBuilder.load 0 {}).run f = (.ok (x.unixImage, top), g) ∧ Ready x false g := by
  obtain ⟨f1, hphs, hr, -, -⟩ := fresh_headers hf hc x
  obtain ⟨top, hload⟩ := loadHeaders_gives x false (l := List.range f.h.phnum)
    (fun i hi => List.mem_range.mp hi) ({}, 0)
  obtain ⟨g, hrun, hg⟩ := hload f1 hr
  refine ⟨g, top.toUInt32, ?_, hg⟩
  rw [UnixBuilder.load, bind_of_ok hphs, headersAt, List.length_map, List.length_range]
  exact bind_of_ok hrun

theorem buildStack_off {params : Parameter} {u : UnixParameter} (h : u.stackAlloc = false) :
    buildStack f params u = .ok none := by
  rw [buildStack, h, if_neg Bool.false_ne_true]
  rfl

theorem buildStack_on {params : Parameter} {u : UnixParameter} (h : u.stackAlloc = true) :
    buildStack f params u ≠ .ok none := by
  intro hnone
  rw [buildStack, if_pos h] at hnone
  obtain ⟨z, -, hrest⟩ := Res.bind_ok.mp hnone
  dsimp only at hrest
  split at hrest
  · cases hrest
  · split at hrest
    · obtain ⟨c, -, hsome⟩ := Res.bind_ok.mp hrest
      cases hsome
    · cases hrest

variable {p : BuildParameter}

theorem unix_run (hf : Fresh f) (hc : f.Calm) (x : Executable f.source) (habi : p.abi = unixAbi)
    (halloc : p.params.stackAlloc = false) :
    ∃ g, (UnixBuilder.build p).run f = (.ok x.unixImage, g) := by
  obtain ⟨g, top, hload, -⟩ := load_run hf hc x
  refine ⟨g, ?_⟩
  have hparams : UnixBuilder.unixParams p = p.params := if_pos habi
  rw [UnixBuilder.build, bind_of_ok hload, hparams]
  dsimp only
  rw [get_bind, buildStack_off halloc]
  rfl

theorem unix_stack (hf : Fresh f) (hc : f.Calm) (x : Executable f.source) (habi : p.abi ≠ unixAbi)
    {im : Gelpp.Image} {g : File} (h : (UnixBuilder.build p).run f = (.ok im, g)) :
    im.segs.length = x.loads.length + 1 := by
  obtain ⟨g', top, hload, -⟩ := load_run hf hc x
  have hparams : UnixBuilder.unixParams p = {} := if_neg habi
  rw [UnixBuilder.build, bind_of_ok hload, hparams] at h
  dsimp only at h
  rw [get_bind] at h
  obtain ⟨o, f', hstack, hrest⟩ := bind_ok.mp h
  cases o with
  | none => exact absurd (Prod.mk.inj hstack).1 (buildStack_on rfl)
  | some st =>
    cases hrest
    rw [Image.add, Executable.unixImage, List.length_append, List.length_map, List.length_singleton]

end

structure SameMemory (s t : ImageSegment) : Prop where
  base : s.base = t.base
  size : s.size = t.size
  bytes : s.buf = t.buf
  writable : s.isWritable = t.isWritable
  executable : s.isExecutable = t.isExecutable

structure SameSegment (h : Phdr) (s t : ImageSegment) : Prop extends SameMemory s t where
  readable : h.isReadable → s.isReadable = t.isReadable
  content : h.isReadable → s.hasContent = t.hasContent

def BuiltAlike (junk : Nat → UInt8) (p : BuildParameter) {f : File} (x : Executable f.source)
    (R : Phdr → ImageSegment → ImageSegment → Prop) : Prop :=
  ∃ im im' g g', (SimpleBuilder.build junk fileOps).run f = (.ok im, g) ∧
    (UnixBuilder.build p).run f = (.ok im', g') ∧ im.segs.length = im'.segs.length ∧
    ∀ (k i : Nat) (s t : ImageSegment), x.loads[k]? = some i → im.segs[k]? = some s → im'.segs[k]? = some t →
      R (x.header i) s t

theorem segmentFlags_bare (w x : Bool) :
    ImageSegment.segmentFlags w x &&& ImageSegment.READABLE = 0 ∧
      ImageSegment.segmentFlags w x &&& ImageSegment.CONTENT = 0 := by
  cases w <;> cases x <;> decide

def accessFlags (x w r : Bool) : UInt32 :=
  let f : UInt32 := 0
  let f := if x then f ||| ImageSegment.EXECUTABLE else f
  let f := if w then f ||| ImageSegment.WRITABLE else f
  if r then f ||| ImageSegment.READABLE else f

structure Flagged (h : Phdr) (flags : UInt32) : Prop where
  writable : (flags &&& ImageSegment.WRITABLE != 0) = h.isWritable
  executable : (flags &&& ImageSegment.EXECUTABLE != 0) = h.isExecutable
  readable : (flags &&& ImageSegment.READABLE != 0) = h.isReadable
  content : (flags &&& ImageSegment.CONTENT != 0) = (h.filesz != 0)

theorem loadFlags_flagged (h : Phdr) : Flagged h (UnixBuilder.loadFlags h) := by
  have hflags : UnixBuilder.loadFlags h = (if h.filesz != 0 then
      accessFlags h.isExecutable h.isWritable h.isReadable ||| ImageSegment.CONTENT
      else accessFlags h.isExecutable h.isWritable h.isReadable) := by
    rw [UnixBuilder.loadFlags, accessFlags]
    simp only [bne_iff_ne]
  rw [hflags]
  constructor <;> cases h.isExecutable <;> cases h.isWritable <;> cases h.isReadable <;>
    cases h.filesz != 0 <;> decide

section
variable {f : File} {x : Executable f.source} {p : BuildParameter} {junk : Nat → UInt8}

theorem segments_same (hx : Static x) {i : Nat} (hi : i ∈ x.loads) :
    SameMemory (x.view i).image (x.unixSegment i) := by
  have hflagged := loadFlags_flagged (x.header i)
  have hfilled : (x.view i).filled = x.contents i := by
    have hlen := (contents_length hi).1
    change x.contents i ++ List.replicate ((x.header i).memsz - (x.contents i).length) 0 = x.contents i
    rw [hlen, Nat.sub_self, List.replicate_zero, List.append_nil]
  refine ⟨?_, congrArg List.length hfilled, hfilled, ?_, ?_⟩
  · change UInt64.ofNat (x.header i).paddr = 0 + UInt64.ofNat (x.header i).vaddr
    rw [hx.addr i hi, UInt64.zero_add]
  · exact (segmentFlags_writable _ _).trans hflagged.writable.symm
  · exact (segmentFlags_executable _ _).trans hflagged.executable.symm

theorem view_content (i : Nat) : (x.view i).image.hasContent = false := by
  change (ImageSegment.segmentFlags _ _ &&& ImageSegment.CONTENT != 0) = false
  rw [(segmentFlags_bare _ _).2]
  rfl

theorem unixSegment_content (hx : Static x) {i : Nat} (hi : i ∈ x.loads) :
    (x.unixSegment i).hasContent = true := by
  have hpos := hx.nonempty i hi
  apply (loadFlags_flagged (x.header i)).content.trans
  rw [bne_iff_ne]
  omega

theorem sameSegment_iff (hx : Static x) {i : Nat} (hi : i ∈ x.loads) :
    SameSegment (x.header i) (x.view i).image (x.unixSegment i) ↔ (x.header i).isReadable = false := by
  constructor
  · intro h
    rw [← Bool.not_eq_true]
    intro hread
    have hcontent := h.content hread
    rw [view_content, unixSegment_content hx hi] at hcontent
    cases hcontent
  · intro hread
    refine ⟨segments_same hx hi, ?_, ?_⟩ <;>
    · rw [hread]
      exact nofun

theorem builtAlike_unix (hf : Fresh f) (hc : f.Calm) (hx : Static x) (habi : p.abi = unixAbi)
    (halloc : p.params.stackAlloc = false) {R : Phdr → ImageSegment → ImageSegment → Prop} :
    BuiltAlike junk p x R ↔ ∀ i ∈ x.loads, R (x.header i) (x.view i).image (x.unixSegment i) := by
  obtain ⟨g, hsimple⟩ := simple_run hf hc hx junk
  obtain ⟨g', hunix⟩ := unix_run hf hc x habi halloc
  constructor
  · rintro ⟨im, im', h, h', hrun, hrun', -, halike⟩ i hi
    obtain ⟨k, hk⟩ := List.getElem?_of_mem hi
    rw [hsimple] at hrun
    rw [hunix] at hrun'
    cases hrun
    cases hrun'
    apply halike k i _ _ hk
    · rw [Executable.simpleImage, List.getElem?_map, hk]
      rfl
    · rw [Executable.unixImage, List.getElem?_map, hk]
      rfl
  · intro halike
    refine ⟨_, _, g, g', hsimple, hunix, ?_, fun k i s t hk hs ht => ?_⟩
    · rw [Executable.simpleImage, Executable.unixImage, List.length_map, List.length_map]
    · rw [Executable.simpleImage, List.getElem?_map, hk] at hs
      rw [Executable.unixImage, List.getElem?_map, hk] at ht
      cases hs
      cases ht
      exact halike i (List.mem_of_getElem? hk)

theorem builtAlike_gen (hf : Fresh f) (hc : f.Calm) (hx : Static x) (habi : p.abi ≠ unixAbi)
    {R : Phdr → ImageSegment → ImageSegment → Prop} : ¬ BuiltAlike junk p x R := by
  rintro ⟨im, im', h, h', hrun, hrun', hlength, -⟩
  obtain ⟨g, hsimple⟩ := simple_run hf hc hx junk
  rw [hsimple] at hrun
  cases hrun
  rw [unix_stack hf hc x habi hrun', Executable.simpleImage, List.length_map] at hlength
  omega

theorem builders_agree_iff (hf : Fresh f) (hc : f.Calm) (hx : Static x)
    (halloc : p.params.stackAlloc = false) :
    (BuiltAlike junk p x (fun _ => SameMemory) ↔ p.abi = unixAbi) ∧
    (BuiltAlike junk p x SameSegment ↔
      p.abi = unixAbi ∧ ∀ i ∈ x.loads, (x.header i).isReadable = false) := by
  by_cases habi : p.abi = unixAbi
  · constructor
    · rw [builtAlike_unix hf hc hx habi halloc]
      exact iff_of_true (fun i hi => segments_same hx hi) habi
    · rw [builtAlike_unix hf hc hx habi halloc, and_iff_right habi]
      exact forall₂_congr fun i hi => sameSegment_iff hx hi
  · exact ⟨iff_of_false (builtAlike_gen hf hc hx habi) habi,
      iff_of_false (builtAlike_gen hf hc hx habi) fun h => habi h.1⟩

end

def staticPhdr : Phdr where
  type := ptLoad
  flags := 5
  offset := 124
  vaddr := 4096
  paddr := 4096
  filesz := 4
  memsz := 4
  align := 4

def staticFile : File := opened .little [staticPhdr] [nullShdr] [1, 2, 3, 4]

theorem staticFile_fresh : Fresh staticFile := by constructor <;> decide +kernel

def staticExecutable : Executable staticFile.source where
  mem := phdrBytes .little staticPhdr
  phdrs := [staticPhdr]
  contents _ := [1, 2, 3, 4]
  table := by decide +kernel
  length := by decide +kernel
  phdr i p hp := by
    cases i with
    | zero =>
      cases hp
      decide +kernel
    | succ i => cases hp
  content i p hp _ := by
    cases i with
    | zero =>
      cases hp
      decide +kernel
    | succ i => cases hp

theorem staticExecutable_static : Static staticExecutable := by
  constructor <;>
  · intro i hi
    cases List.mem_singleton.mp hi
    decide +kernel

def unstacked (abi : String) : BuildParameter := { params := { stackAlloc := false }, abi }

theorem builders_agree_static :
    (BuiltAlike (fun _ => 7) (unstacked unixAbi) staticExecutable (fun _ => SameMemory) ↔
      (unstacked unixAbi).abi = unixAbi) ∧
    (BuiltAlike (fun _ => 7) (unstacked unixAbi) staticExecutable SameSegment ↔
      (unstacked unixAbi).abi = unixAbi ∧
        ∀ i ∈ staticExecutable.loads, (staticExecutable.header i).isReadable = false) :=
  builders_agree_iff staticFile_fresh rfl staticExecutable_static rfl

theorem builders_apart : Fresh staticFile ∧ staticFile.Calm ∧ Static staticExecutable ∧
    ¬ BuiltAlike (fun _ => 7) (unstacked "gen") staticExecutable (fun _ => SameMemory) ∧
    ¬ BuiltAlike (fun _ => 7) (unstacked unixAbi) staticExecutable SameSegment := by
  refine ⟨staticFile_fresh, rfl, staticExecutable_static, ?_, ?_⟩
  · exact builtAlike_gen staticFile_fresh rfl staticExecutable_static (by decide)
  · rw [builtAlike_unix staticFile_fresh rfl staticExecutable_static rfl rfl]
    intro h
    have hmem : 0 ∈ staticExecutable.loads := by decide +kernel
    have hread := (sameSegment_iff staticExecutable_static hmem).mp (h 0 hmem)
    exact absurd hread (by decide +kernel)

end Gelpp.Elf

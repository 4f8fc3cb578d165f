import Gelpp.Elf.Requests

namespace Gelpp.Elf

open FileM Effect

namespace Source

variable (b : Source)

def headerTable : Res (List UInt8) := do
  let size ← product b.h.phentsize b.h.phnum
  let buf ← b.read b.h.phoff size (b.fresh size)
  b.fixAll b.layout.phdr.fixes b.h.phentsize b.h.phnum buf

def addSegment (mem : List UInt8) (segs : List Segment) (i : Nat) : Res (List Segment) := do
  let p ← readPhdr b.host b.layout.phdr mem (i * b.h.phentsize)
  return if p.type = ptLoad then segs ++ [{ head := i }] else segs

def segments (mem : List UInt8) : Res (List Segment) :=
  (List.range b.h.phnum).foldlM (b.addSegment mem) []

end Source

section
variable {f : File}

theorem loadProgramHeaders_ok (hc : f.Calm) (hp : f.phBuf = none) {mem : List UInt8}
    (h : f.source.headerTable = .ok mem) : ∃ k, loadProgramHeaders.run f =
      (.ok (), { ticked f k with phBuf := some mem, phs := headersAt f.h }) := by
  obtain ⟨size, hsize, h⟩ := Res.bind_ok.mp h
  obtain ⟨raw, hraw, hmem⟩ := Res.bind_ok.mp h
  have hlt := product_lt hsize
  let f1 : File := { f with phBuf := some (fresh f size) }
  have hread := readAt_calm (f := f1) hc f.h.phoff size (fresh f size)
  have hraw' : f1.source.read f.h.phoff size (fresh f size) = .ok raw := hraw
  rw [hraw'] at hread
  refine ⟨asks f.h.phoff size, ?_⟩
  rw [loadProgramHeaders, get_bind, hp]
  dsimp only
  rw [show product f.h.phentsize f.h.phnum = .ok size from hsize, lift_ok_bind,
    bind_of_ok ((alloc_run f size).trans (if_pos (by omega))), modify_bind]
  change ((readAt f.h.phoff size (fresh f size)) >>= fun buf => _).run f1 = _
  rw [bind_of_ok hread, show fixTable f.host f.eiData f.layout.phdr.fixes f.h.phentsize f.h.phnum raw =
    .ok mem from hmem, lift_ok_bind, modify_run]
  rfl

theorem loadProgramHeaders_error (hc : f.Calm) (hp : f.phBuf = none) {e : Stop}
    (h : f.source.headerTable = .error e) : ∃ f', loadProgramHeaders.run f = (.error e, f') := by
  rw [loadProgramHeaders, get_bind, hp]
  dsimp only
  rcases Res.bind_error.mp h with hsize | ⟨size, hsize, h⟩
  · rw [show product f.h.phentsize f.h.phnum = .error e from hsize]
    exact ⟨_, rfl⟩
  · have hlt := product_lt hsize
    let f1 : File := { f with phBuf := some (fresh f size) }
    have hread := readAt_calm (f := f1) hc f.h.phoff size (fresh f size)
    rw [show product f.h.phentsize f.h.phnum = .ok size from hsize, lift_ok_bind,
      bind_of_ok ((alloc_run f size).trans (if_pos (by omega))), modify_bind]
    change ∃ f', ((readAt f.h.phoff size (fresh f size)) >>= fun buf => _).run f1 = _
    rcases Res.bind_error.mp h with hraw | ⟨raw, hraw, hmem⟩
    · have hraw' : f1.source.read f.h.phoff size (fresh f size) = .error e := hraw
      rw [hraw'] at hread
      exact ⟨_, bind_of_error hread⟩
    · have hraw' : f1.source.read f.h.phoff size (fresh f size) = .ok raw := hraw
      rw [hraw'] at hread
      rw [bind_of_ok hread,
        show fixTable f.host f.eiData f.layout.phdr.fixes f.h.phentsize f.h.phnum raw = .error e
          from hmem]
      exact ⟨_, rfl⟩

variable {b : Source} {mem : List UInt8}

theorem addSegment_run (hb : f.source = b) (hbuf : f.phBuf = some mem)
    (hphs : f.phs = headersAt b.h) {i : Nat} (hi : i < b.h.phnum) :
    (addSegment i).run f = match b.addSegment mem f.segs i with
      | .ok segs => (.ok (), { f with segs := segs })
      | .error e => (.error e, f) := by
  have hget : f.phs[(i : Int).toNat]? = some { ptr := i * b.h.phentsize } := by
    rw [hphs, Int.toNat_natCast, headersAt, List.getElem?_map, List.getElem?_range hi]
    rfl
  have hphdr : f.phdr (i * b.h.phentsize) =
      readPhdr b.host b.layout.phdr mem (i * b.h.phentsize) := by
    rw [File.phdr, hbuf, ← hb]
    rfl
  rw [addSegment, get_bind, bind_of_ok (at_some (Int.natCast_nonneg i) hget f), hphdr,
    Source.addSegment]
  cases readPhdr b.host b.layout.phdr mem (i * b.h.phentsize) with
  | error e => rfl
  | ok p =>
    rw [lift_ok_bind, Res.ok_bind, ite_run]
    split <;> rfl

theorem addSegments_run (hb : f.source = b) (hbuf : f.phBuf = some mem)
    (hphs : f.phs = headersAt b.h) {l : List Nat} (hl : ∀ i ∈ l, i < b.h.phnum) :
    match l.foldlM (b.addSegment mem) f.segs with
    | .ok segs => (l.forM addSegment).run f = (.ok (), { f with segs := segs })
    | .error e => ∃ f', (l.forM addSegment).run f = (.error e, f') := by
  induction l generalizing f with
  | nil => rfl
  | cons i l ih =>
    have hrun := addSegment_run hb hbuf hphs (hl i (List.mem_cons_self ..))
    have hcons : (i :: l).forM addSegment = (addSegment i >>= fun _ => l.forM addSegment) := rfl
    rw [List.foldlM_cons, hcons]
    cases hseg : b.addSegment mem f.segs i with
    | error e =>
      rw [hseg] at hrun
      exact ⟨f, bind_of_error hrun⟩
    | ok segs =>
      rw [hseg] at hrun
      rw [Res.ok_bind, bind_of_ok hrun]
      exact ih (f := { f with segs := segs }) hb hbuf hphs
        fun j hj => hl j (List.mem_cons_of_mem _ hj)

end

def File.heads (f : File) :
    Bool × Option (List UInt8) × List ProgramHeader × List Segment × Bool :=
  (f.phLoaded, f.phBuf, f.phs, f.segs, f.segsInit)

structure Tabled (b : Source) where
  headers : List UInt8
  segs : List Segment
  syms : SymbolTable
  headers_eq : b.headerTable = .ok headers
  segs_eq : b.segments headers = .ok segs
  syms_eq : ∀ f : File, Coherent b f → f.Calm → ∃ f', fillSymbols.run { f with syms := some {} } =
    (.ok syms, f') ∧ Coherent b f' ∧ f'.Calm ∧ f'.heads = f.heads ∧ f'.syms = some syms ∧
      f'.sectsLoaded = true
  sections : ∃ buf, b.sectionTable = .ok buf

section
variable {b : Source} {f g : File}

structure Settled (k : Tabled b) (f : File) : Prop where
  coherent : Coherent b f
  calm : f.Calm
  heads : f.heads = (false, none, [], [], false) ∨
    f.heads = (true, some k.headers, headersAt b.h, [], false) ∨
    f.heads = (true, some k.headers, headersAt b.h, k.segs, true)
  syms : f.syms = none ∨ f.syms = some k.syms ∧ f.sectsLoaded = true
  bare : f.sectsLoaded = false → f.sects = []

variable {k : Tabled b}

theorem initSections_settled (h : Settled k f) :
    ∃ f', initSections.run f = (.ok (), f') ∧ Settled k f' ∧ f'.sectsLoaded = true := by
  obtain ⟨buf, hbuf⟩ := k.sections
  obtain ⟨f', hrun, hcoh, hcalm, htables, hl⟩ := (initSections_calm h.coherent h.calm).1 buf hbuf
  have hheads : f'.heads = f.heads := congrArg (fun x => (x.1, x.2.1, x.2.2.1, x.2.2.2.2)) htables
  have hsyms : f'.syms = f.syms := congrArg (fun x => x.2.2.2.1) htables
  refine ⟨f', hrun, ⟨hcoh, hcalm, hheads ▸ h.heads, ?_, fun hn => ?_⟩, hl⟩
  · rw [hsyms]
    exact h.syms.imp_right fun hs => ⟨hs.1, hl⟩
  · rw [hl] at hn
    cases hn

theorem sectional_settled (h : Settled k f) (hl : f.sectsLoaded = true) {r : Request}
    (hr : r.Sectional) :
    Settled k ((serve r).run f).2 ∧ ((serve r).run f).2.sectsLoaded = true := by
  have hloads : Loads (fun t _ => t = f.tables) b f f :=
    ⟨⟨⟨h.coherent, h.coherent, rfl⟩, h.calm, h.calm⟩, hl, hl⟩
  have hafter := (sectional_twin hr hloads).states fun _ _ _ h' => h'
  have hheads : ((serve r).run f).2.heads = f.heads :=
    congrArg (fun x => (x.1, x.2.1, x.2.2.1, x.2.2.2.2)) hafter.tables
  have hsyms : ((serve r).run f).2.syms = f.syms := congrArg (fun x => x.2.2.2.1) hafter.tables
  refine ⟨⟨hafter.left, hafter.leftCalm, hheads ▸ h.heads, ?_, fun hn => ?_⟩, hafter.leftLoaded⟩
  · rw [hsyms]
    exact h.syms.imp_right fun hs => ⟨hs.1, hafter.leftLoaded⟩
  · rw [hafter.leftLoaded] at hn
    cases hn

theorem sectional_reply (hf : Settled k f) (hg : Settled k g) {r : Request} (hr : r.Sectional)
    (hlf : f.sectsLoaded = true) (hlg : g.sectsLoaded = true) : reply r f = reply r g := by
  have hloads : Loads (fun _ _ => True) b f g :=
    ⟨⟨⟨hf.coherent, hg.coherent, trivial⟩, hf.calm, hg.calm⟩, hlf, hlg⟩
  exact (sectional_twin hr hloads).result

theorem programHeaders_settled (h : Settled k f) :
    ∃ f', programHeaders.run f = (.ok (headersAt b.h), f') ∧ Settled k f' ∧
      f'.sectsLoaded = f.sectsLoaded ∧ f'.segsInit = f.segsInit ∧
      (f'.heads = (true, some k.headers, headersAt b.h, [], false) ∨
        f'.heads = (true, some k.headers, headersAt b.h, k.segs, true)) := by
  have hloaded (hph : f.phLoaded = true) (hphs : f.phs = headersAt b.h) :
      programHeaders.run f = (.ok (headersAt b.h), f) := by
    rw [programHeaders, get_bind, hph, if_pos rfl, hphs]
    rfl
  rcases h.heads with hheads | hheads | hheads
  · have hph : f.phLoaded = false := congrArg (fun x => x.1) hheads
    have hbuf : f.phBuf = none := congrArg (fun x => x.2.1) hheads
    have hrest : (f.segs, f.segsInit) = ([], false) := congrArg (fun x => x.2.2.2) hheads
    have htable : f.source.headerTable = .ok k.headers := by rw [h.coherent.source, k.headers_eq]
    have hsource : f.h = b.h := by rw [← h.coherent.source]; rfl
    obtain ⟨ops, hload⟩ := loadProgramHeaders_ok h.calm hbuf htable
    rw [hsource] at hload
    have hheads' : ((true, some k.headers, headersAt b.h, f.segs, f.segsInit) :
        Bool × Option (List UInt8) × List ProgramHeader × List Segment × Bool) =
        (true, some k.headers, headersAt b.h, [], false) :=
      congrArg (fun x => (true, some k.headers, headersAt b.h, x.1, x.2)) hrest
    refine ⟨{ ticked f ops with
      phBuf := some k.headers, phs := headersAt b.h, phLoaded := true }, ?_,
      ⟨⟨h.coherent.source, h.coherent.loaded⟩, h.calm, .inr (.inl hheads'), h.syms, h.bare⟩, rfl,
      rfl, .inl hheads'⟩
    rw [programHeaders, get_bind, hph, if_neg Bool.false_ne_true, bind_of_ok hload]
    rfl
  · have hph : f.phLoaded = true := congrArg (fun x => x.1) hheads
    have hphs : f.phs = headersAt b.h := congrArg (fun x => x.2.2.1) hheads
    exact ⟨f, hloaded hph hphs, h, rfl, rfl, .inl hheads⟩
  · have hph : f.phLoaded = true := congrArg (fun x => x.1) hheads
    have hphs : f.phs = headersAt b.h := congrArg (fun x => x.2.2.1) hheads
    exact ⟨f, hloaded hph hphs, h, rfl, rfl, .inr hheads⟩

theorem initSegments_settled (h : Settled k f) :
    ∃ f', initSegments.run f = (.ok (), f') ∧ Settled k f' ∧ f'.sectsLoaded = f.sectsLoaded ∧
      f'.heads = (true, some k.headers, headersAt b.h, k.segs, true) := by
  cases hinit : f.segsInit with
  | true =>
    have hrun : initSegments.run f = (.ok (), f) := by
      rw [initSegments, get_bind, hinit]
      rfl
    have hheads : f.heads = (true, some k.headers, headersAt b.h, k.segs, true) := by
      rcases h.heads with hheads | hheads | hheads
      · rw [show f.segsInit = false from congrArg (fun x => x.2.2.2.2) hheads] at hinit
        cases hinit
      · rw [show f.segsInit = false from congrArg (fun x => x.2.2.2.2) hheads] at hinit
        cases hinit
      · exact hheads
    exact ⟨f, hrun, h, rfl, hheads⟩
  | false =>
    obtain ⟨f1, hrun, hs, hsects, hinit1, hheads⟩ := programHeaders_settled h
    rw [hinit] at hinit1
    have hheads1 : f1.heads = (true, some k.headers, headersAt b.h, [], false) := by
      rcases hheads with hheads | hheads
      · exact hheads
      · rw [show f1.segsInit = true from congrArg (fun x => x.2.2.2.2) hheads] at hinit1
        cases hinit1
    have hbuf : f1.phBuf = some k.headers := congrArg (fun x => x.2.1) hheads1
    have hphs : f1.phs = headersAt b.h := congrArg (fun x => x.2.2.1) hheads1
    have hsegs : f1.segs = [] := congrArg (fun x => x.2.2.2.1) hheads1
    have hph : f1.phLoaded = true := congrArg (fun x => x.1) hheads1
    have hloop := addSegments_run hs.coherent.source hbuf hphs (l := List.range b.h.phnum)
      fun i hi => List.mem_range.mp hi
    rw [hsegs, show (List.range b.h.phnum).foldlM (b.addSegment k.headers) [] = .ok k.segs from
      k.segs_eq] at hloop
    have hheads' : ({ f1 with segs := k.segs, segsInit := true } : File).heads =
        (true, some k.headers, headersAt b.h, k.segs, true) := by
      rw [File.heads, hph, hbuf, hphs]
    refine ⟨{ f1 with segs := k.segs, segsInit := true }, ?_,
      ⟨⟨hs.coherent.source, hs.coherent.loaded⟩, hs.calm, .inr (.inr hheads'), hs.syms, hs.bare⟩,
      hsects, hheads'⟩
    have hlen : (headersAt b.h).length = b.h.phnum := by
      rw [headersAt, List.length_map, List.length_range]
    rw [initSegments, get_bind, hinit, if_neg Bool.false_ne_true, bind_of_ok hrun, hlen,
      bind_of_ok hloop]
    rfl

structure Beside (k : Tabled b) (f g f' g' : File) : Prop where
  left : Settled k f'
  right : Settled k g'
  leftSame : f'.sectsLoaded = f.sectsLoaded
  rightSame : g'.sectsLoaded = g.sectsLoaded

theorem phdr_settled (h : Settled k f) {segs : List Segment} {init : Bool}
    (hheads : f.heads = (true, some k.headers, headersAt b.h, segs, init)) (ptr : Nat) :
    f.phdr ptr = readPhdr b.host b.layout.phdr k.headers ptr := by
  have hbuf : f.phBuf = some k.headers := congrArg (fun x => x.2.1) hheads
  have hhost : f.host = b.host := congrArg Source.host h.coherent.source
  have hlayout : f.layout = b.layout := congrArg Source.layout h.coherent.source
  rw [File.phdr, hbuf, hhost, hlayout]
  rfl

theorem programHeaders_beside (hf : Settled k f) (hg : Settled k g) :
    Twin (Beside k f g) (fun _ => Beside k f g) ((answer .programHeaders).run f)
      ((answer .programHeaders).run g) := by
  have hphdr {f' : File} (h : Settled k f')
      (hheads : f'.heads = (true, some k.headers, headersAt b.h, [], false) ∨
        f'.heads = (true, some k.headers, headersAt b.h, k.segs, true)) :
      f'.phdr = readPhdr b.host b.layout.phdr k.headers :=
    hheads.elim (fun hh => funext (phdr_settled h hh)) fun hh => funext (phdr_settled h hh)
  obtain ⟨f', hrunf, hsf, hlf, -, hheadsf⟩ := programHeaders_settled hf
  obtain ⟨g', hrung, hsg, hlg, -, hheadsg⟩ := programHeaders_settled hg
  rw [answer, bind_of_ok hrunf, bind_of_ok hrung, get_bind, get_bind, hphdr hsf hheadsf,
    hphdr hsg hheadsg]
  exact .ok ⟨hsf, hsg, hlf, hlg⟩

theorem initSegments_beside (hf : Settled k f) (hg : Settled k g) :
    Twin (Beside k f g) (fun _ f' g' => Beside k f g f' g' ∧ f'.heads = g'.heads)
      (initSegments.run f) (initSegments.run g) := by
  obtain ⟨f', hrunf, hsf, hlf, hheadsf⟩ := initSegments_settled hf
  obtain ⟨g', hrung, hsg, hlg, hheadsg⟩ := initSegments_settled hg
  rw [hrunf, hrung]
  exact .ok ⟨⟨hsf, hsg, hlf, hlg⟩, hheadsf.trans hheadsg.symm⟩

theorem count_beside (hf : Settled k f) (hg : Settled k g) :
    Twin (Beside k f g) (fun _ => Beside k f g) ((answer .count).run f)
      ((answer .count).run g) := by
  have hcount : Twin (Beside k f g) (fun _ => Beside k f g) (count.run f) (count.run g) := by
    refine Twin.bind (initSegments_beside hf hg) fun _ f' g' ⟨h, hheads⟩ => ?_
    have hsegs : f'.segs = g'.segs := congrArg (fun x => x.2.2.2.1) hheads
    rw [get_bind, get_bind, hsegs]
    exact .ok h
  exact Twin.bind hcount fun _ _ _ h => .ok h

theorem segment_beside (hf : Settled k f) (hg : Settled k g) (i : Int) :
    Twin (Beside k f g) (fun _ => Beside k f g) ((answer (.segment i)).run f)
      ((answer (.segment i)).run g) := by
  have hsegment : Twin (Beside k f g) (fun _ f' g' => Beside k f g f' g' ∧ f'.heads = g'.heads)
      ((segment i).run f) ((segment i).run g) := by
    refine Twin.bind (initSegments_beside hf hg) fun _ f' g' h => ?_
    have hsegs : f'.segs = g'.segs := congrArg (fun x => x.2.2.2.1) h.2
    rw [get_bind, get_bind, hsegs]
    exact at_twin _ _ (fun _ => h) h.1
  refine Twin.bind hsegment fun s f' g' ⟨h, hheads⟩ => ?_
  have hphs : f'.phs = g'.phs := congrArg (fun x => x.2.2.1) hheads
  have hbuf : f'.phBuf = g'.phBuf := congrArg (fun x => x.2.1) hheads
  have hsource : f'.source = g'.source :=
    h.left.coherent.source.trans h.right.coherent.source.symm
  have hphdr : f'.phdr = g'.phdr := by
    have hhost : f'.host = g'.host := congrArg Source.host hsource
    have hlayout : f'.layout = g'.layout := congrArg Source.layout hsource
    funext ptr
    rw [File.phdr, File.phdr, hbuf, hhost, hlayout]
  have hhead : f'.segmentHeader s = g'.segmentHeader s := by
    rw [File.segmentHeader, File.segmentHeader, hphs, hphdr]
  rw [get_bind, get_bind, hhead]
  exact .ok h

theorem symbols_settled (h : Settled k f) :
    ∃ f', symbols.run f = (.ok k.syms, f') ∧ Settled k f' ∧ f'.sectsLoaded = true := by
  rcases h.syms with hs | ⟨hs, hl⟩
  · obtain ⟨f', hrun, hcoh, hcalm, hheads, hsyms, hl⟩ := k.syms_eq f h.coherent h.calm
    refine ⟨f', (symbols_run hs).trans hrun, ⟨hcoh, hcalm, hheads ▸ h.heads, .inr ⟨hsyms, hl⟩,
      fun hn => ?_⟩, hl⟩
    rw [hl] at hn
    cases hn
  · refine ⟨f, ?_, h, hl⟩
    rw [symbols, get_bind, hs]
    rfl

structure Served (k : Tabled b) (r : Request) (f f' : File) : Prop where
  settled : Settled k f'
  loaded : f'.sectsLoaded = true ↔ f.sectsLoaded = true ∨ r.Loading

theorem served_beside {r : Request} {x y : Res Reply × File} (hr : ¬ r.Loading)
    (h : Twin (Beside k f g) (fun _ => Beside k f g) x y) :
    x.1 = y.1 ∧ Served k r f x.2 ∧ Served k r g y.2 := by
  have hafter := h.states fun _ _ _ h' => h'
  refine ⟨h.result, ⟨hafter.left, ?_⟩, ⟨hafter.right, ?_⟩⟩
  · rw [hafter.leftSame, or_iff_left hr]
  · rw [hafter.rightSame, or_iff_left hr]

theorem call_beside {c : Call} (h : Twin (Beside k f g) (fun _ => Beside k f g)
    ((answer c).run f) ((answer c).run g)) : Twin (Beside k f g) (fun _ => Beside k f g)
      ((serve (.call c)).run f) ((serve (.call c)).run g) :=
  Twin.bind h fun _ _ _ h' => .ok h'

theorem served_symbols (h : Settled k f) :
    reply (.call .symbols) f = .ok (.value (.symbols k.syms)) ∧
      Served k (.call .symbols) f ((serve (.call .symbols)).run f).2 := by
  obtain ⟨f', hrun, hs, hl⟩ := symbols_settled h
  have hserve : (serve (.call .symbols)).run f = (.ok (.value (.symbols k.syms)), f') :=
    bind_of_ok (bind_of_ok hrun)
  rw [reply, hserve]
  exact ⟨rfl, hs, fun _ => .inr trivial, fun _ => hl⟩

theorem served_sectional (h : Settled k f) {r : Request} (hr : r.Sectional) (hload : r.Loading) :
    ∃ f1, Settled k f1 ∧ f1.sectsLoaded = true ∧ reply r f = reply r f1 ∧
      Served k r f ((serve r).run f).2 := by
  obtain ⟨f1, hinit, hs, hl⟩ := initSections_settled h
  have hne : r ≠ .dyns := by
    rintro rfl
    exact hload
  have hrun := serve_first hinit hl hr hne
  obtain ⟨hs2, hl2⟩ := sectional_settled hs hl hr
  refine ⟨f1, hs, hl, by rw [reply, hrun, reply], ?_⟩
  rw [hrun]
  exact ⟨hs2, fun _ => .inr hload, fun _ => hl2⟩

theorem dyns_bare (h : Settled k f) (hl : f.sectsLoaded = false) :
    (serve .dyns).run f = (.error (.fault .assertion), f) := by
  have hrun : dyns.run f = (.error (.fault .assertion), f) := by
    rw [dyns, get_bind, h.bare hl]
    rfl
  exact bind_of_error hrun

theorem served (hf : Settled k f) (r : Request) : Served k r f ((serve r).run f).2 := by
  cases r with
  | call c =>
    cases c with
    | programHeaders =>
      exact (served_beside (r := .call .programHeaders) id (call_beside (programHeaders_beside hf hf))).2.1
    | sections =>
      obtain ⟨f1, -, -, -, hs⟩ := served_sectional hf (r := .call .sections) trivial trivial
      exact hs
    | symbols => exact (served_symbols hf).2
    | count =>
      exact (served_beside (r := .call .count) id (call_beside (count_beside hf hf))).2.1
    | segment i =>
      exact (served_beside (r := .call (.segment i)) id (call_beside (segment_beside hf hf i))).2.1
  | countSections =>
    obtain ⟨f1, -, -, -, hs⟩ := served_sectional hf (r := .countSections) trivial trivial
    exact hs
  | findSection name =>
    obtain ⟨f1, -, -, -, hs⟩ := served_sectional hf (r := .findSection name) trivial trivial
    exact hs
  | stringAt offset sect =>
    obtain ⟨f1, -, -, -, hs⟩ := served_sectional hf (r := .stringAt offset sect) trivial trivial
    exact hs
  | dyns =>
    cases hl : f.sectsLoaded with
    | false =>
      rw [dyns_bare hf hl]
      refine ⟨hf, ?_⟩
      rw [hl, or_iff_left (id : ¬ Request.dyns.Loading)]
    | true =>
      obtain ⟨hs, hl'⟩ := sectional_settled hf hl (r := .dyns) trivial
      exact ⟨hs, fun _ => .inl hl, fun _ => hl'⟩

theorem reply_sectional (hf : Settled k f) (hg : Settled k g) {r : Request} (hr : r.Sectional)
    (hload : r.Loading) : reply r f = reply r g := by
  obtain ⟨f1, hsf, hlf, hrf, -⟩ := served_sectional hf hr hload
  obtain ⟨g1, hsg, hlg, hrg, -⟩ := served_sectional hg hr hload
  rw [hrf, hrg]
  exact sectional_reply hsf hsg hr hlf hlg

theorem reply_same (hf : Settled k f) (hg : Settled k g) {r : Request}
    (hr : r = .dyns → (f.sectsLoaded = true ↔ g.sectsLoaded = true)) : reply r f = reply r g := by
  cases r with
  | call c =>
    cases c with
    | programHeaders =>
      exact (call_beside (programHeaders_beside hf hg)).result
    | sections => exact reply_sectional hf hg trivial trivial
    | symbols => rw [(served_symbols hf).1, (served_symbols hg).1]
    | count => exact (call_beside (count_beside hf hg)).result
    | segment i => exact (call_beside (segment_beside hf hg i)).result
  | countSections => exact reply_sectional hf hg trivial trivial
  | findSection name => exact reply_sectional hf hg trivial trivial
  | stringAt offset sect => exact reply_sectional hf hg trivial trivial
  | dyns =>
    have hiff := hr rfl
    cases hl : f.sectsLoaded with
    | false =>
      have hlg : g.sectsLoaded = false := by
        rw [hl] at hiff
        simpa using hiff
      rw [reply, dyns_bare hf hl, reply, dyns_bare hg hlg]
    | true => exact sectional_reply hf hg trivial hl (hiff.mp hl)

theorem after_settled (rs : List Request) (hf : Settled k f) :
    Settled k (after rs f) ∧
      ((after rs f).sectsLoaded = true ↔ f.sectsLoaded = true ∨ ∃ r ∈ rs, r.Loading) := by
  induction rs generalizing f with
  | nil => exact ⟨hf, by simp [after]⟩
  | cons r rs ih =>
    obtain ⟨hs, hloaded⟩ := served hf r
    obtain ⟨hs', hloaded'⟩ := ih hs
    refine ⟨hs', hloaded'.trans ?_⟩
    rw [hloaded, or_assoc]
    simp

end

structure WellFormed (f : File) : Prop where
  segments : ∃ n g, count.run f = (.ok n, g)
  symbols : ∃ t g, symbols.run f = (.ok t, g)
  dynamic : ∃ ptr ∈ f.source.sectionPtrs, ∃ h, f.source.shdr ptr = .ok h ∧ h.type = shtDynamic

section
variable {f g : File}

theorem programHeaders_fresh (hf : Fresh f) (hc : f.Calm) {mem : List UInt8}
    (htable : f.source.headerTable = .ok mem) :
    ∃ f', programHeaders.run f = (.ok (headersAt f.h), f') ∧ f'.source = f.source ∧
      f'.phBuf = some mem ∧ f'.phs = headersAt f.source.h ∧ f'.segs = [] := by
  obtain ⟨k, hload⟩ := loadProgramHeaders_ok hc hf.phBuf htable
  refine ⟨{ ticked f k with phBuf := some mem, phs := headersAt f.h, phLoaded := true }, ?_, rfl,
    rfl, rfl, hf.segs⟩
  rw [programHeaders, get_bind, hf.phLoaded, if_neg Bool.false_ne_true, bind_of_ok hload]
  rfl

theorem headers_read (hf : Fresh f) (hc : f.Calm) {n : Nat} (h : count.run f = (.ok n, g)) :
    ∃ mem segs, f.source.headerTable = .ok mem ∧ f.source.segments mem = .ok segs := by
  obtain ⟨_, f1, hinit, -⟩ := bind_ok.mp h
  rw [initSegments, get_bind, hf.segsInit, if_neg Bool.false_ne_true] at hinit
  cases htable : f.source.headerTable with
  | error e =>
    obtain ⟨f', hload⟩ := loadProgramHeaders_error hc hf.phBuf htable
    have hphs : programHeaders.run f = (.error e, f') := by
      rw [programHeaders, get_bind, hf.phLoaded, if_neg Bool.false_ne_true, bind_of_error hload]
    rw [bind_of_error hphs] at hinit
    cases hinit
  | ok mem =>
    obtain ⟨f2, hphs, hsource, hbuf, hheaders, hsegs⟩ := programHeaders_fresh hf hc htable
    have hrun := addSegments_run hsource hbuf hheaders (l := List.range f.h.phnum)
      fun i hi => List.mem_range.mp hi
    rw [bind_of_ok hphs, headersAt, List.length_map, List.length_range] at hinit
    obtain ⟨_, f3, hloop, -⟩ := bind_ok.mp hinit
    rw [hsegs, hloop] at hrun
    cases hfold : (List.range f.h.phnum).foldlM (f.source.addSegment mem) [] with
    | error e =>
      rw [hfold] at hrun
      obtain ⟨f', hrun⟩ := hrun
      cases hrun
    | ok segs => exact ⟨mem, segs, rfl, hfold⟩

theorem symbols_read (hf : Fresh f) (hc : f.Calm) {t : SymbolTable}
    (h : symbols.run f = (.ok t, g)) {f1 : File} (hcoh : Coherent f.source f1) (hc1 : f1.Calm) :
    ∃ f', fillSymbols.run { f1 with syms := some {} } = (.ok t, f') ∧ Coherent f.source f' ∧
      f'.Calm ∧ f'.heads = f1.heads ∧ f'.syms = some t ∧ f'.sectsLoaded = true := by
  let E : Tables → Tables → Prop := fun x y => x.2.2.2.1 = y.2.2.2.1 ∧ x.2.2.2.1.isSome ∧
    (x.1, x.2.1, x.2.2.1, x.2.2.2.2) = f1.heads
  have hE : Keeps E := ⟨fun _ _ h => h.1, fun _ _ _ h => ⟨rfl, rfl, h.2.2⟩⟩
  have hfresh := (Fresh.agree hf).left
  have hstart : Alike E f.source { f1 with syms := some {} } { f with syms := some {} } :=
    ⟨⟨⟨hcoh.source, hcoh.loaded⟩, ⟨hfresh.source, hfresh.loaded⟩, rfl, rfl, rfl⟩, hc1, hc⟩
  rw [symbols_run hf.syms] at h
  have htwin := fillSymbols_twin hE hstart
  rw [h] at htwin
  cases hrun : fillSymbols.run { f1 with syms := some {} } with
  | mk r f' =>
    rw [hrun] at htwin
    cases r with
    | error e => exact absurd htwin.1 (by simp)
    | ok t' =>
      obtain ⟨heq, hloads, ht⟩ := htwin
      cases heq
      obtain ⟨table, htable⟩ := Option.isSome_iff_exists.mp hloads.tables.2.1
      have hsyms : f'.syms = some table := htable
      rw [hsyms] at ht
      cases ht
      exact ⟨f', rfl, hloads.left, hloads.leftCalm, hloads.tables.2.2, hsyms, hloads.leftLoaded⟩

theorem shdr_table {b : Source} {ptr : Nat} {h : Shdr} (hh : b.shdr ptr = .ok h) :
    ∃ buf, b.sectionTable = .ok buf := by
  obtain ⟨buf, hbuf, -⟩ := Res.bind_ok.mp hh
  exact ⟨buf, hbuf⟩

theorem WellFormed.tabled (hw : WellFormed f) (hf : Fresh f) (hc : f.Calm) :
    Nonempty (Tabled f.source) := by
  obtain ⟨n, g, hcount⟩ := hw.segments
  obtain ⟨t, g', hsyms⟩ := hw.symbols
  obtain ⟨ptr, -, h, hh, -⟩ := hw.dynamic
  obtain ⟨mem, segs, hmem, hsegs⟩ := headers_read hf hc hcount
  exact ⟨⟨mem, segs, t, hmem, hsegs, fun _ => symbols_read hf hc hsyms, shdr_table hh⟩⟩

theorem Fresh.settled (hf : Fresh f) (hc : f.Calm) (k : Tabled f.source) : Settled k f where
  coherent := (Fresh.agree hf).left
  calm := hc
  heads := by
    rw [File.heads, hf.phLoaded, hf.phBuf, hf.phs, hf.segs, hf.segsInit]
    exact .inl rfl
  syms := .inl hf.syms
  bare _ := hf.sects

end

def Unasserted (e : Stop) : Prop := e ≠ .fault .assertion

theorem unasserted_exception (m : String) : Unasserted (.exception m) := by
  intro h
  cases h

theorem unasserted_bounds : Unasserted (.fault .bounds) := by
  intro h
  cases h

theorem unasserted_badAlloc : Unasserted .badAlloc := by
  intro h
  cases h

section
variable {f g : File} {h : Shdr}

theorem readAll_unasserted {pos size : Nat} {e : Stop}
    (hr : (readAll pos size).run f = (.error e, g)) : Unasserted e := by
  rw [readAll] at hr
  by_cases hlt : size < 2 ^ 63
  · rw [bind_of_ok ((alloc_run f size).trans (if_pos hlt))] at hr
    by_cases hs : Serves f
    · rw [readAt_served hs] at hr
      split at hr
      · cases hr
        exact unasserted_bounds
      · split at hr
        · cases hr
          exact unasserted_exception _
        · cases hr
    · obtain ⟨m, hk⟩ := readAt_unserved hs pos size (fresh f size)
      rw [hk] at hr
      cases hr
      exact unasserted_exception _
  · rw [bind_of_error ((alloc_run f size).trans (if_neg hlt))] at hr
    cases hr
    exact unasserted_badAlloc

theorem content_unasserted {i : Nat} {s : Section} {e : Stop} (hs : f.sects[i]? = some s)
    (hh : f.shdr s.ptr = .ok h) (ht : h.type = shtDynamic)
    (hc : (sectionContent i).run f = (.error e, g)) : Unasserted e := by
  rw [sectionContent, contentFor_run (n := 1) (Int.natCast_nonneg i) (f := f) hs] at hc
  cases hb : s.buf with
  | some buf =>
    rw [hb] at hc
    cases hc
  | none =>
    rw [hb] at hc
    dsimp only at hc
    rw [fillContent, get_bind, hh, lift_ok_bind, readSection] at hc
    have hplain : ¬ (h.type = shtSymtab ∨ h.type = shtDynsym) := by
      rw [ht]
      decide
    simp only [if_neg hplain] at hc
    cases hr : (readAll h.offset h.size).run f with
    | mk r f' =>
      cases r with
      | ok raw =>
        rw [bind_of_ok (bind_of_ok hr)] at hc
        cases hc
      | error e' =>
        rw [bind_of_error (bind_of_error hr)] at hc
        cases hc
        exact readAll_unasserted hr

theorem fetch_unasserted {b : Buffer} {e : Nat} (hf : b.fence = none) :
    Meets Unasserted (fun _ => True) ((begun b e).fetch f) := by
  have hstands := begun_stands b e
  by_cases hpos : 0 * e < b.size
  · exact (fetch_meets (A := Unasserted) nofun hf hstands hpos).post fun _ _ => trivial
  · rw [fetch_ended hstands (by omega)]
    trivial

theorem dynIter_unasserted {i : Nat} {s : Section} (hs : f.sects[i]? = some s)
    (hh : f.shdr s.ptr = .ok h) (ht : h.type = shtDynamic) (ended : Bool) :
    Meets Unasserted (fun _ => True) ((dynIter i ended).run f).1 := by
  cases hc : (sectionContent i).run f with
  | mk r f' =>
    cases r with
    | error e =>
      rw [dynIter, get_bind, bind_of_ok (at_some (Int.natCast_nonneg i) hs f), hh, lift_ok_bind,
        bind_of_error hc]
      exact content_unasserted hs hh ht hc
    | ok buf =>
      cases hb : bufferOf f buf with
      | error e =>
        rw [dynIter, get_bind, bind_of_ok (at_some (Int.natCast_nonneg i) hs f), hh, lift_ok_bind,
          bind_of_ok hc, hb, lift_error_bind]
        rw [bufferOf] at hb
        split at hb
        · cases hb
        · cases hb
          exact unasserted_badAlloc
      | ok b =>
        have hf : b.fence = none := by
          rw [bufferOf] at hb
          split at hb
          · cases hb
            rfl
          · cases hb
        rw [dynIter_run hs hh hc hb]
        cases ended with
        | true => trivial
        | false => exact fetch_unasserted hf

theorem shdr_unasserted (ptr : Nat) : Meets Unasserted (fun _ => True) (f.shdr ptr) := by
  have hload (slot : Slot) :
      Meets Unasserted (fun _ => True) (loadAt f.host f.secBuf ptr slot) :=
    Meets.ite (fun _ => trivial) fun _ => nofun
  refine (hload _).bind fun _ _ => (hload _).bind fun _ _ => (hload _).bind fun _ _ => ?_
  refine (hload _).bind fun _ _ => (hload _).bind fun _ _ => (hload _).bind fun _ _ => ?_
  refine (hload _).bind fun _ _ => (hload _).bind fun _ _ => (hload _).bind fun _ _ => ?_
  exact (hload _).bind fun _ _ => trivial

def FirstDynamic (f : File) (i : Nat) (l : List Section) (o : Option Nat) : Prop :=
  match o with
  | none => ∀ s ∈ l, ∀ h, f.shdr s.ptr = .ok h → h.type ≠ shtDynamic
  | some j => ∃ s h, i ≤ j ∧ l[j - i]? = some s ∧ f.shdr s.ptr = .ok h ∧ h.type = shtDynamic

theorem dynamicFrom_meets (i : Nat) (l : List Section) :
    Meets Unasserted (FirstDynamic f i l) (dynamicFrom f i l) := by
  induction l generalizing i with
  | nil => exact fun s hs => absurd hs List.not_mem_nil
  | cons s l ih =>
    refine (shdr_unasserted s.ptr).exact_bind fun h hh _ => ?_
    refine Meets.ite (fun ht => ⟨s, h, Nat.le_refl i, by simp, hh, ht⟩) fun ht => ?_
    refine (ih (i + 1)).post fun o ho => ?_
    cases o with
    | none =>
      intro s' hs' h' hh'
      rcases List.mem_cons.mp hs' with rfl | hs'
      · rw [hh] at hh'
        cases hh'
        exact ht
      · exact ho s' hs' h' hh'
    | some j =>
      obtain ⟨s', h', hle, hget, hh', ht'⟩ := ho
      refine ⟨s', h', by omega, ?_, hh', ht'⟩
      rw [show j - i = j - (i + 1) + 1 by omega]
      simpa using hget

end

section
variable {f : File} {b : Source} {k : Tabled b}

theorem dyns_loaded (h : Settled k f) (hl : f.sectsLoaded = true)
    (hdyn : ∃ ptr ∈ b.sectionPtrs, ∃ h, b.shdr ptr = .ok h ∧ h.type = shtDynamic) :
    Meets Unasserted (fun _ => True) (dyns.run f).1 := by
  have hloads : Loads (fun _ _ => True) b f f :=
    ⟨⟨⟨h.coherent, h.coherent, trivial⟩, h.calm, h.calm⟩, hl, hl⟩
  have hfirst := dynamicFrom_meets (f := f) 0 f.sects
  rw [dyns, get_bind]
  cases ho : dynamicFrom f 0 f.sects with
  | error e => exact hfirst.of_error ho
  | ok o =>
    rw [lift_ok_bind]
    have hfound := hfirst.of_ok ho
    cases o with
    | none =>
      exfalso
      obtain ⟨ptr, hptr, sh, hsh, ht⟩ := hdyn
      rw [← h.coherent.ptrs hl] at hptr
      obtain ⟨s, hs, rfl⟩ := List.mem_map.mp hptr
      exact hfound s hs sh (by rw [h.coherent.shdr hl, hsh]) ht
    | some i =>
      obtain ⟨s, sh, -, hs, hsh, ht⟩ := hfound
      rw [Nat.sub_zero] at hs
      dsimp only
      rw [dynsOf]
      have hbegin := dynIter_unasserted hs hsh ht false
      have htwin := dynIter_twin hloads i false
      cases hrun : (dynIter i false).run f with
      | mk r g =>
        rw [hrun] at hbegin htwin
        cases r with
        | error e =>
          rw [bind_of_error hrun]
          exact hbegin
        | ok first =>
          obtain ⟨-, hg⟩ := htwin
          have hptr := ptr_of_sects h.coherent hl hs
          have hmap : (g.sects.map Section.ptr)[i]? = some s.ptr := by
            rw [hg.left.ptrs hg.leftLoaded, hptr]
          rw [List.getElem?_map, Option.map_eq_some_iff] at hmap
          obtain ⟨s', hs', hsp⟩ := hmap
          have hsh' : g.shdr s'.ptr = .ok sh := by
            rw [hg.left.shdr hg.leftLoaded, hsp, ← h.coherent.shdr hl, hsh]
          have hend := dynIter_unasserted hs' hsh' ht true
          rw [bind_of_ok hrun]
          cases hrun' : (dynIter i true).run g with
          | mk r g' =>
            rw [hrun'] at hend
            cases r with
            | error e =>
              rw [bind_of_error hrun']
              exact hend
            | ok last =>
              rw [bind_of_ok hrun']
              trivial

end

theorem replies_agree_iff {f : File} (hf : Fresh f) (hc : f.Calm) (hw : WellFormed f)
    (p q : List Request) (r : Request) :
    reply r (after p f) = reply r (after q f) ↔
      (r = .dyns → ((∃ c ∈ p, c.Loading) ↔ ∃ c ∈ q, c.Loading)) := by
  obtain ⟨k⟩ := hw.tabled hf hc
  have hloaded (rs : List Request) : Settled k (after rs f) ∧
      ((after rs f).sectsLoaded = true ↔ ∃ c ∈ rs, c.Loading) := by
    obtain ⟨hs, hiff⟩ := after_settled rs (hf.settled hc k)
    rw [hf.sectsLoaded] at hiff
    exact ⟨hs, hiff.trans (or_iff_right Bool.false_ne_true)⟩
  have hapart (rs rs' : List Request) (hl : (after rs f).sectsLoaded = false)
      (hl' : (after rs' f).sectsLoaded = true) :
      reply .dyns (after rs f) ≠ reply .dyns (after rs' f) := by
    intro heq
    have hmeets := dyns_loaded (hloaded rs').1 hl' hw.dynamic
    rw [reply, dyns_bare (hloaded rs).1 hl] at heq
    cases hrun : dyns.run (after rs' f) with
    | mk x g =>
      rw [hrun] at hmeets
      cases x with
      | ok range =>
        rw [reply, serve, bind_of_ok hrun] at heq
        cases heq
      | error e =>
        rw [reply, serve, bind_of_error hrun] at heq
        cases heq
        exact hmeets rfl
  obtain ⟨hsp, hlp⟩ := hloaded p
  obtain ⟨hsq, hlq⟩ := hloaded q
  constructor
  · rintro heq rfl
    rw [← hlp, ← hlq]
    cases hp : (after p f).sectsLoaded with
    | false =>
      cases hq : (after q f).sectsLoaded with
      | false => exact Iff.rfl
      | true => exact absurd heq (hapart p q hp hq)
    | true =>
      cases hq : (after q f).sectsLoaded with
      | false => exact absurd heq.symm (hapart q p hq hp)
      | true => exact Iff.rfl
  · intro h
    rw [← hlp, ← hlq] at h
    exact reply_same hsp hsq h

-- One dynamic section with one entry.
def dynamicFile : File := opened .little [] [loneShdr 8 8] [1, 0, 0, 0, 2, 0, 0, 0]

theorem dynamicFile_fresh : Fresh dynamicFile := by constructor <;> decide +kernel

theorem dynamicFile_wellFormed : WellFormed dynamicFile where
  segments := ⟨_, _, rfl⟩
  symbols := ⟨_, _, rfl⟩
  dynamic := ⟨0, List.mem_singleton_self 0, loneShdr 8 8, by decide +kernel, rfl⟩

theorem replies_agree_dyns :
    reply .dyns (after [.call .sections] dynamicFile) =
      reply .dyns (after [.call .symbols, .call .count] dynamicFile) ↔
    (Request.dyns = .dyns → ((∃ c ∈ [Request.call .sections], c.Loading) ↔
      ∃ c ∈ [Request.call .symbols, .call .count], c.Loading)) :=
  replies_agree_iff dynamicFile_fresh rfl dynamicFile_wellFormed _ _ _

theorem dyns_first : Fresh dynamicFile ∧ dynamicFile.Calm ∧ WellFormed dynamicFile ∧
    reply .dyns (after [] dynamicFile) ≠ reply .dyns (after [.call .sections] dynamicFile) := by
  refine ⟨dynamicFile_fresh, rfl, dynamicFile_wellFormed, ?_⟩
  have hfirst : reply .dyns (after [] dynamicFile) = .error (.fault .assertion) := rfl
  have hloaded : ∃ r, reply .dyns (after [.call .sections] dynamicFile) = .ok r := ⟨_, rfl⟩
  obtain ⟨r, hr⟩ := hloaded
  rw [hfirst, hr]
  exact nofun

end Gelpp.Elf

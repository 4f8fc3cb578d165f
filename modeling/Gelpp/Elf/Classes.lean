import Gelpp.Elf.SymbolsRead

namespace Gelpp.Elf

open FileM Effect

section
variable {l : Layout} {host : ByteOrder} {eiData : UInt8} {bytes : List UInt8} {d : Description}
  {p : Places}

theorem ehdr_slots (hl : l = elf32 ∨ l = elf64) :
    ∀ s ∈ [l.ehdr.shnum, l.ehdr.phnum, l.ehdr.shentsize, l.ehdr.phentsize, l.ehdr.shstrndx,
      l.ehdr.shoff, l.ehdr.phoff], s.Swapped ∧ s.off + s.width ≤ l.ehdr.size := by
  rcases hl with rfl | rfl <;> decide

theorem ehdr_size (hl : l = elf32 ∨ l = elf64) : 16 ≤ l.ehdr.size ∧ l.ehdr.size ≤ 64 := by
  rcases hl with rfl | rfl <;> decide

theorem ehdr_field (hin : l.ehdr.size ≤ bytes.length) (hdata : bytes.getD 5 0 = eiData)
    {s : Slot} (hs : s.Swapped ∧ s.off + s.width ≤ l.ehdr.size) (hl : 16 ≤ l.ehdr.size) :
    (loadAt host (cell bytes 0 l.ehdr.size) 0 s >>= fun v =>
      pure (fixWidth ((cell bytes 0 l.ehdr.size).getD 5 0) s.width v)) =
        .ok (word (fileOrder host eiData) bytes 0 s) := by
  have hlen : (cell bytes 0 l.ehdr.size).length = l.ehdr.size := cell_length (by omega)
  have hident : (cell bytes 0 l.ehdr.size).getD 5 0 = eiData := by
    rw [← hdata, List.getD_eq_getElem?_getD, List.getD_eq_getElem?_getD, cell, List.drop_zero,
      List.getElem?_take_of_lt (by omega)]
  have hword : (cell bytes (0 + (0 + s.off)) s.width).length = s.width := cell_length (by omega)
  rw [loadAt_some host (by omega), Res.ok_bind, hident, cell_cell (by omega), word, Nat.zero_add]
  exact congrArg Except.ok (fixWidth_value host eiData hs.1 (by simpa using hword))

def headerOf (order : ByteOrder) (bytes : List UInt8) (l : EhdrLayout) : Ehdr where
  ident := (cell bytes 0 l.size).take 16
  phoff := word order bytes 0 l.phoff
  shoff := word order bytes 0 l.shoff
  phentsize := word order bytes 0 l.phentsize
  phnum := word order bytes 0 l.phnum
  shentsize := word order bytes 0 l.shentsize
  shnum := word order bytes 0 l.shnum
  shstrndx := word order bytes 0 l.shstrndx

theorem readEhdr_words (hl : l = elf32 ∨ l = elf64) (hin : l.ehdr.size ≤ bytes.length)
    (hdata : bytes.getD 5 0 = eiData) : readEhdr host l.ehdr (cell bytes 0 l.ehdr.size) =
      .ok (headerOf (fileOrder host eiData) bytes l.ehdr) := by
  have hslots := ehdr_slots hl
  simp only [List.forall_mem_cons] at hslots
  obtain ⟨hshnum, hphnum, hshentsize, hphentsize, hshstrndx, hshoff, hphoff, -⟩ := hslots
  have hfield {s : Slot} (hs : s.Swapped ∧ s.off + s.width ≤ l.ehdr.size) :
      (loadAt host (cell bytes 0 l.ehdr.size) 0 s >>= fun v =>
        pure (fixWidth ((cell bytes 0 l.ehdr.size).getD 5 0) s.width v)) =
          .ok (word (fileOrder host eiData) bytes 0 s) :=
    ehdr_field hin hdata hs (ehdr_size hl).1
  rw [readEhdr]
  dsimp only
  rw [hfield hshnum, hfield hphnum, hfield hshentsize, hfield hphentsize, hfield hshstrndx,
    hfield hshoff, hfield hphoff]
  rfl

theorem readEhdr_described (hl : l = elf32 ∨ l = elf64)
    (h : Encodes (fileOrder host eiData) bytes l eiData d p) :
    readEhdr host l.ehdr (cell bytes 0 l.ehdr.size) = .ok {
      ident := (cell bytes 0 l.ehdr.size).take 16
      phoff := p.headers
      shoff := p.sections
      phentsize := l.phdr.size
      phnum := d.headers.length
      shentsize := l.shdr.size
      shnum := d.sections.length
      shstrndx := d.shstrndx } := by
  rw [readEhdr_words hl h.inside h.eiData, headerOf, h.shnum, h.phnum, h.shentsize, h.phentsize,
    h.shstrndx, h.shoff, h.phoff]

theorem construct_described (hl : l = elf32 ∨ l = elf64) {stream : Stream}
    (hc : stream.fails = fun _ => false)
    (h : Encodes (fileOrder host eiData) stream.bytes l eiData d p) (path : String)
    (junk : Nat → UInt8) :
    ∃ f, construct.run (File.blank l host path stream junk) = (.ok (), f) ∧ Fresh f ∧ f.Calm ∧
      f.layout = l ∧ Depicted f.source d p := by
  obtain ⟨hmin, hmax⟩ := ehdr_size hl
  obtain ⟨k, hread⟩ := readAll_calm (f := File.blank l host path stream junk) hc 0 l.ehdr.size
  have hraw : (File.blank l host path stream junk).source.readAll 0 l.ehdr.size =
      .ok (cell stream.bytes 0 l.ehdr.size) := by
    rw [Source.readAll, if_pos (by omega)]
    apply Source.read_cell (by omega) (by omega) (.inl (by rw [Nat.zero_add]; exact h.inside))
    rw [Source.fresh, List.length_map, List.length_range]
  have hmagic : (cell stream.bytes 0 l.ehdr.size).take 4 = elfMagic := by
    rw [← h.magic, cell, cell, List.take_take, Nat.min_eq_left (by omega)]
  have hget {n : Nat} (hn : n < 16) :
      (cell stream.bytes 0 l.ehdr.size).getD n 0 = stream.bytes.getD n 0 := by
    rw [List.getD_eq_getElem?_getD, List.getD_eq_getElem?_getD, cell, List.drop_zero,
      List.getElem?_take_of_lt (by omega)]
  have hclass : (cell stream.bytes 0 l.ehdr.size).getD 4 0 = l.eiClass :=
    (hget (by omega)).trans h.eiClass
  have hdata : ((cell stream.bytes 0 l.ehdr.size).take 16).getD 5 0 = eiData := by
    rw [← h.eiData, ← hget (by omega), List.getD_eq_getElem?_getD, List.getD_eq_getElem?_getD,
      List.getElem?_take_of_lt (by omega)]
  have hstrndx := d.shstrndx_lt
  rw [hraw] at hread
  let f : File := {
    ticked (File.blank l host path stream junk) k with
    h := {
      ident := (cell stream.bytes 0 l.ehdr.size).take 16
      phoff := p.headers
      shoff := p.sections
      phentsize := l.phdr.size
      phnum := d.headers.length
      shentsize := l.shdr.size
      shnum := d.sections.length
      shstrndx := d.shstrndx } }
  refine ⟨f, ?_, ⟨rfl, rfl, rfl, rfl, rfl, rfl, rfl, rfl⟩, hc, rfl,
    ⟨hl, ?_, rfl, rfl, rfl, rfl, rfl, rfl, rfl⟩⟩
  · rw [construct, get_bind]
    change (readAll 0 l.ehdr.size >>= fun buf => if buf.take 4 ≠ elfMagic then _
      else if buf.getD 4 0 ≠ l.eiClass then _
      else lift (readEhdr host l.ehdr buf) >>= fun h => _).run _ = _
    rw [bind_of_ok hread, if_neg (not_not_intro hmagic), if_neg (not_not_intro hclass),
      readEhdr_described hl h, lift_ok_bind]
    dsimp only
    rw [if_neg (by omega), modify_run]
  · have heq := h
    rw [← hdata] at heq
    exact heq

end

section
variable {b : Source} {d : Description} {p : Places} {f : File}

theorem Depicted.segments (h : Depicted b d p) {mem : List UInt8}
    (hmem : b.headerTable = .ok mem) : ∃ segs, b.segments mem = .ok segs := by
  obtain ⟨mem', hmem', hread⟩ := h.headerTable
  rw [hmem] at hmem'
  cases hmem'
  have hfold (l : List Nat) (hl : ∀ i ∈ l, i < b.h.phnum) (segs : List Segment) :
      ∃ segs', l.foldlM (b.addSegment mem) segs = .ok segs' := by
    induction l generalizing segs with
    | nil => exact ⟨segs, rfl⟩
    | cons i l ih =>
      have hi := hl i (List.mem_cons_self ..)
      rw [h.phnum] at hi
      obtain ⟨y, hy, -⟩ := hread i _ (List.getElem?_eq_getElem hi)
      rw [List.foldlM_cons, Source.addSegment, h.phentsize, hy]
      exact ih (fun j hj => hl j (List.mem_cons_of_mem _ hj)) _
  exact hfold _ (fun i hi => List.mem_range.mp hi) []

theorem Depicted.tabled (h : Depicted f.source d p) (hf : Fresh f) (hc : f.Calm) :
    ∃ k : Tabled f.source, Shows f.source k.syms d.symbols := by
  obtain ⟨mem, hmem, -⟩ := h.headerTable
  obtain ⟨segs, hsegs⟩ := h.segments hmem
  obtain ⟨buf, hbuf, -⟩ := h.sectionTable
  obtain ⟨t, g, hsyms, hshows⟩ := symbols_described h hf hc rfl
  exact ⟨⟨mem, segs, t, hmem, hsegs, fun _ => symbols_read hf hc hsyms, buf, hbuf⟩, hshows⟩

variable {k : Tabled b}

theorem observeHeaders_run (h : Depicted b d p) (hs : Settled k f) :
    ∃ f', observeHeaders.run f = (.ok d.headers, f') ∧ Settled k f' := by
  obtain ⟨f', hrun, hs', -, -, hheads⟩ := programHeaders_settled hs
  obtain ⟨mem, hmem, hread⟩ := h.headerTable
  rw [k.headers_eq] at hmem
  cases hmem
  have hphdr (ptr : Nat) : f'.phdr ptr = readPhdr b.host b.layout.phdr k.headers ptr :=
    hheads.elim (fun hh => phdr_settled hs' hh ptr) fun hh => phdr_settled hs' hh ptr
  have hmap : (headersAt b.h).mapM (fun x => do return (← f'.phdr x.ptr).header) =
      (.ok d.headers : Res (List Header)) := by
    apply Res.mapM_ok
    rw [List.forall₂_iff_get]
    refine ⟨by rw [headersAt, List.length_map, List.length_range, h.phnum], fun i hi hi' => ?_⟩
    obtain ⟨y, hy, hheader⟩ := hread i _ (List.getElem?_eq_getElem hi')
    have hptr : ((headersAt b.h).get ⟨i, hi⟩).ptr = i * b.layout.phdr.size := by
      simp [headersAt, h.phentsize]
    rw [hptr, hphdr, hy]
    exact congrArg Except.ok hheader
  refine ⟨f', ?_, hs'⟩
  rw [observeHeaders, bind_of_ok hrun, get_bind, hmap]
  rfl

theorem Settled.kin {f' : File} (hs : Settled k f) (h : Kin b f f') : Settled k f' := by
  have hheads : f'.heads = f.heads := congrArg (fun x => (x.1, x.2.1, x.2.2.1, x.2.2.2.2)) h.tables
  have hsyms : f'.syms = f.syms := congrArg (fun x => x.2.2.2.1) h.tables
  refine ⟨h.coherent, h.calm, hheads ▸ hs.heads, ?_, fun hn => ?_⟩
  · rw [hsyms]
    exact hs.syms.imp_right fun hs => ⟨hs.1, h.loaded⟩
  · rw [h.loaded] at hn
    cases hn

theorem observeSymbols_run (hs : Settled k f) (hshows : Shows b k.syms d.symbols) :
    ∃ f', observeSymbols.run f = (.ok (d.symbols.map fun x => (x.1, x.2.view)), f') := by
  obtain ⟨f', hrun, hs', -⟩ := symbols_settled hs
  have hhost : f'.host = b.host := congrArg Source.host hs'.coherent.source
  have hlayout : f'.layout = b.layout := congrArg Source.layout hs'.coherent.source
  have hmap : k.syms.map.mapM (observeSymbol f' k.syms) =
      .ok (d.symbols.map fun x => (x.1, x.2.view)) := by
    rw [Shows, ← List.forall₂_eq_eq_eq, List.forall₂_map_left_iff,
      List.forall₂_map_right_iff] at hshows
    apply Res.mapM_ok
    rw [List.forall₂_map_right_iff]
    refine hshows.imp fun x y hxy => ?_
    have hname : x.1 = y.1 := congrArg Prod.fst hxy
    have hread : readSym b.host b.layout.sym (k.syms.mems.getD x.2.mem []) x.2.ptr = .ok y.2 :=
      congrArg Prod.snd hxy
    rw [observeSymbol, hhost, hlayout, hread, ← hname]
    rfl
  refine ⟨f', ?_⟩
  rw [observeSymbols, bind_of_ok hrun, get_bind, hmap]
  rfl

theorem observe_run (h : Depicted b d p) (hs : Settled k f) (hshows : Shows b k.syms d.symbols) :
    ∃ f', observe.run f = (.ok (d.view b.layout), f') := by
  obtain ⟨f1, hheaders, hs1⟩ := observeHeaders_run h hs
  obtain ⟨f2, hinit, hs2, hl2⟩ := initSections_settled hs1
  have hsectioned2 : Sectioned b f2 := ⟨hs2.coherent, hs2.calm, hl2⟩
  have hlen : f2.sects.length = d.sections.length := by rw [hsectioned2.length, h.shnum]
  have hall : List.Forall₂ (fun i s => d.sections[i]? = some s) (List.range f2.sects.length)
      d.sections := by
    rw [List.forall₂_iff_get]
    refine ⟨by rw [List.length_range, hlen], fun i hi hi' => ?_⟩
    simp
  obtain ⟨f3, hviews, hkin3⟩ := observeSections_run h hsectioned2 hall
  obtain ⟨f4, hdyns, hkin4⟩ := observeDynamics_run h hkin3.toSectioned hall
  obtain ⟨f5, hsyms⟩ := observeSymbols_run (hs2.kin (hkin3.trans hkin4)) hshows
  refine ⟨f5, ?_⟩
  rw [observe, bind_of_ok hheaders, sections_bind, bind_of_ok hinit, get_bind, bind_of_ok hviews,
    bind_of_ok hdyns, bind_of_ok hsyms]
  rfl

end

theorem described_observed {l : Layout} (hl : l = elf32 ∨ l = elf64) {host : ByteOrder}
    {eiData : UInt8} {d : Description} {p : Places} {stream : Stream}
    (hc : stream.fails = fun _ => false)
    (h : Encodes (fileOrder host eiData) stream.bytes l eiData d p) (path : String)
    (junk : Nat → UInt8) (rs : List Request) :
    ∃ f, construct.run (File.blank l host path stream junk) = (.ok (), f) ∧
      (observe.run (after rs f)).1 = .ok (d.view l) := by
  obtain ⟨f, hrun, hfresh, hcalm, hlayout, hdescribed⟩ := construct_described hl hc h path junk
  obtain ⟨k, hshows⟩ := hdescribed.tabled hfresh hcalm
  have hsettled := (after_settled rs (hfresh.settled hcalm k)).1
  obtain ⟨f', hobserve⟩ := observe_run hdescribed hsettled hshows
  refine ⟨f, hrun, ?_⟩
  rw [hobserve, ← hlayout]
  rfl

theorem classes_agree {host : ByteOrder} {eiData : UInt8} {d : Description} {p q : Places}
    {s t : Stream} (hs : s.fails = fun _ => false) (ht : t.fails = fun _ => false)
    (h32 : Encodes (fileOrder host eiData) s.bytes elf32 eiData d p)
    (h64 : Encodes (fileOrder host eiData) t.bytes elf64 eiData d q) (path path' : String)
    (junk junk' : Nat → UInt8) (rs rs' : List Request) :
    ∃ f g v w, construct.run (File.blank elf32 host path s junk) = (.ok (), f) ∧
      construct.run (File.blank elf64 host path' t junk') = (.ok (), g) ∧
      (observe.run (after rs f)).1 = .ok v ∧ (observe.run (after rs' g)).1 = .ok w ∧
      v = d.view elf32 ∧ w = d.view elf64 ∧ v.common = w.common := by
  obtain ⟨f, hf, hv⟩ := described_observed (.inl rfl) hs h32 path junk rs
  obtain ⟨g, hg, hw⟩ := described_observed (.inr rfl) ht h64 path' junk' rs'
  exact ⟨f, g, _, _, hf, hg, hv, hw, rfl, rfl, view_common d elf32 elf64⟩

-- A section of names, a table with one symbol and a dynamic section with one entry.
def smallSections : List SectionDesc := [
  { name := 0, type := 3, flags := 0, addr := 0, link := 0, info := 0, addralign := 1
    body := .bits [0, 97, 0] 0 },
  { name := 1, type := shtSymtab, flags := 0, addr := 0, link := 0, info := 0, addralign := 4
    body := .symbols [{ name := 1, value := 7, size := 9, info := 18, shndx := 1 }] },
  { name := 1, type := shtDynamic, flags := 3, addr := 8, link := 0, info := 0, addralign := 4
    body := .dynamic [{ tag := 1, val := 2 }] }]

def smallHeaders : List Header :=
  [{ type := 1, flags := 5, vaddr := 4096, paddr := 4096, memsz := 200, filesz := 100, align := 4 }]

theorem smallHeaders_lt : smallHeaders.length < 2 ^ 16 := by decide

theorem smallSections_lt : smallSections.length < 2 ^ 16 := by decide

theorem small_shstrndx : 0 < smallSections.length := by decide

theorem small_bodies : ∀ s ∈ smallSections, s.body.Of s.type := by
  simp only [smallSections, List.forall_mem_cons]
  exact ⟨by unfold Body.Of; decide, .inl rfl, rfl, nofun⟩

theorem small_text {off : Nat} (h : off < 2) : HasText smallSections 0 off := by
  refine ⟨_, _, _, rfl, rfl, ?_, ?_⟩
  · exact Nat.lt_trans h (by decide)
  · interval_cases off <;> decide

theorem small_names : ∀ s ∈ smallSections, HasText smallSections 0 s.name := by
  simp only [smallSections, List.forall_mem_cons]
  exact ⟨small_text (by decide), small_text (by decide), small_text (by decide), nofun⟩

theorem small_symbols : ∀ s ∈ smallSections, ∀ syms, s.body = .symbols syms →
    ∀ y ∈ syms, HasText smallSections s.link y.name := by
  simp only [smallSections, List.forall_mem_cons]
  refine ⟨nofun, fun syms hsyms y hy => ?_, nofun, nofun⟩
  cases hsyms
  rw [List.mem_singleton.mp hy]
  exact small_text (by decide)

def smallDescription : Description where
  headers := smallHeaders
  sections := smallSections
  shstrndx := 0
  headers_lt := smallHeaders_lt
  sections_lt := smallSections_lt
  shstrndx_lt := small_shstrndx
  bodies := small_bodies
  names := small_names
  symbolNames := small_symbols

def fields (l : List (Nat × Nat)) : List UInt8 :=
  (l.map fun x => ByteOrder.little.bytes x.1 x.2).flatten

def small32 : Stream where
  bytes := [0x7f, 0x45, 0x4c, 0x46, 1, 1, 1, 0, 0, 0, 0, 0, 0, 0, 0, 0] ++
    fields [(2, 2), (2, 3), (4, 1), (4, 0), (4, 52), (4, 84), (4, 0), (2, 52), (2, 32), (2, 1),
      (2, 40), (2, 3), (2, 0)] ++
    fields [(4, 1), (4, 0), (4, 4096), (4, 4096), (4, 100), (4, 200), (4, 5), (4, 4)] ++
    fields [(4, 0), (4, 3), (4, 0), (4, 0), (4, 204), (4, 3), (4, 0), (4, 0), (4, 1), (4, 0)] ++
    fields [(4, 1), (4, 2), (4, 0), (4, 0), (4, 207), (4, 16), (4, 0), (4, 0), (4, 4), (4, 16)] ++
    fields [(4, 1), (4, 6), (4, 3), (4, 8), (4, 223), (4, 8), (4, 0), (4, 0), (4, 4), (4, 8)] ++
    [0, 97, 0] ++ fields [(4, 1), (4, 7), (4, 9), (1, 18), (1, 0), (2, 1)] ++
    fields [(4, 1), (4, 2)]

def small64 : Stream where
  bytes := [0x7f, 0x45, 0x4c, 0x46, 2, 1, 1, 0, 0, 0, 0, 0, 0, 0, 0, 0] ++
    fields [(2, 2), (2, 3), (4, 1), (8, 0), (8, 64), (8, 120), (4, 0), (2, 64), (2, 56), (2, 1),
      (2, 64), (2, 3), (2, 0)] ++
    fields [(4, 1), (4, 5), (8, 0), (8, 4096), (8, 4096), (8, 100), (8, 200), (8, 4)] ++
    fields [(4, 0), (4, 3), (8, 0), (8, 0), (8, 312), (8, 3), (4, 0), (4, 0), (8, 1), (8, 0)] ++
    fields [(4, 1), (4, 2), (8, 0), (8, 0), (8, 315), (8, 24), (4, 0), (4, 0), (8, 4), (8, 24)] ++
    fields [(4, 1), (4, 6), (8, 3), (8, 8), (8, 339), (8, 16), (4, 0), (4, 0), (8, 4), (8, 16)] ++
    [0, 97, 0] ++ fields [(4, 1), (1, 18), (1, 0), (2, 1), (8, 7), (8, 9)] ++
    fields [(8, 1), (8, 2)]

def placedAt (headers sections : UInt32) (content : List UInt32) : Places where
  headers := headers.toNat
  sections := sections.toNat
  content i := (content.getD i 0).toNat
  headers_lt := headers.toNat_lt
  sections_lt := sections.toNat_lt
  content_lt i := (content.getD i 0).toNat_lt

def smallLayout (wide : Bool) : Layout := if wide then elf64 else elf32

def small (wide : Bool) : Stream := if wide then small64 else small32

def smallPlaces (wide : Bool) : Places :=
  if wide then placedAt 64 120 [312, 315, 339] else placedAt 52 84 [204, 207, 223]

theorem small_encodes (wide : Bool) : Encodes .little (small wide).bytes (smallLayout wide) 1
    smallDescription (smallPlaces wide) where
  magic := by cases wide <;> rfl
  eiClass := by cases wide <;> rfl
  eiData := by cases wide <;> rfl
  inside := by cases wide <;> decide +kernel
  phoff := by cases wide <;> rfl
  shoff := by cases wide <;> rfl
  phentsize := by cases wide <;> rfl
  phnum := by cases wide <;> rfl
  shentsize := by cases wide <;> rfl
  shnum := by cases wide <;> rfl
  shstrndx := by cases wide <;> rfl
  headers := by
    rintro (_ | i) h hh
    · cases hh
      cases wide <;> exact ⟨by decide +kernel, rfl, rfl, rfl, rfl, rfl, rfl, rfl⟩
    · cases hh
  sections := by
    have hall : ∀ i : Fin 3, SectionAt .little (small wide).bytes (smallLayout wide)
        ((smallPlaces wide).sections + i * (smallLayout wide).shdr.size)
        (smallSections.get i) ((smallPlaces wide).content i) := by
      intro i
      cases wide <;> fin_cases i <;>
        exact ⟨by decide +kernel, rfl, rfl, rfl, rfl, rfl, rfl, rfl, rfl, rfl, rfl⟩
    intro i s hs
    obtain ⟨hi, rfl⟩ := List.getElem?_eq_some_iff.mp hs
    exact hall ⟨i, hi⟩
  bodies := by
    rintro (_ | _ | _ | i) s hs
    · cases hs
      cases wide <;> exact ⟨by decide +kernel, rfl⟩
    · cases hs
      refine ⟨by cases wide <;> decide +kernel, ?_⟩
      rintro (_ | i) y hy
      · cases hy
        cases wide <;> exact ⟨by decide +kernel, rfl, rfl, rfl, rfl, rfl⟩
      · cases hy
    · cases hs
      refine ⟨by cases wide <;> decide +kernel, ?_⟩
      rintro (_ | i) y hy
      · cases hy
        cases wide <;> exact ⟨by decide +kernel, rfl, rfl⟩
      · cases hy
    · cases hs
  sizes := by
    change ∀ s ∈ smallSections, _
    simp only [smallSections, List.forall_mem_cons]
    cases wide <;> exact ⟨by decide, by decide, by decide, nofun⟩

theorem small32_encodes : Encodes (fileOrder .little 1) small32.bytes elf32 1 smallDescription
    (smallPlaces false) := small_encodes false

theorem small64_encodes : Encodes (fileOrder .little 1) small64.bytes elf64 1 smallDescription
    (smallPlaces true) := small_encodes true

theorem classes_agree_small :
    ∃ f g v w, construct.run (File.blank elf32 .little "small" small32 fun _ => 0) = (.ok (), f) ∧
      construct.run (File.blank elf64 .little "wide" small64 fun _ => 0) = (.ok (), g) ∧
      (observe.run (after [] f)).1 = .ok v ∧ (observe.run (after [.dyns] g)).1 = .ok w ∧
      v = smallDescription.view elf32 ∧ w = smallDescription.view elf64 ∧ v.common = w.common :=
  classes_agree rfl rfl small32_encodes small64_encodes "small" "wide" _ _ [] [.dyns]

theorem entry_sizes_differ : ∃ f g v w,
    Encodes (fileOrder .little 1) small32.bytes elf32 1 smallDescription (smallPlaces false) ∧
    Encodes (fileOrder .little 1) small64.bytes elf64 1 smallDescription (smallPlaces true) ∧
    construct.run (File.blank elf32 .little "small" small32 fun _ => 0) = (.ok (), f) ∧
    construct.run (File.blank elf64 .little "wide" small64 fun _ => 0) = (.ok (), g) ∧
    (observe.run f).1 = .ok v ∧ (observe.run g).1 = .ok w ∧
    v.sections.map SectionView.entsize = [0, 16, 8] ∧
    w.sections.map SectionView.entsize = [0, 24, 16] := by
  obtain ⟨f, hf, hv⟩ := described_observed (.inl rfl) rfl small32_encodes "small"
    (fun _ => 0) []
  obtain ⟨g, hg, hw⟩ := described_observed (.inr rfl) rfl small64_encodes "wide"
    (fun _ => 0) []
  exact ⟨f, g, _, _, small32_encodes, small64_encodes, hf, hg, hv, hw, rfl, rfl⟩

end Gelpp.Elf

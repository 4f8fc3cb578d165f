import Gelpp.Elf.Depicted

namespace Gelpp.Elf

open FileM Effect

namespace FileM

def observeHeaders : FileM (List Header) := do
  let phs ← programHeaders
  let f ← get
  lift (phs.mapM fun h => do return (← f.phdr h.ptr).header)

def observeContent (i : Nat) (h : Shdr) : FileM (Option (List UInt8)) :=
  if Tabular h.type ∨ h.type = shtNobits then return none
  else do return some (← sectionContent i)

def observeSection (i : Nat) : FileM SectionView := do
  let f ← get
  let s ← at_ f.sects i
  let h ← lift (f.shdr s.ptr)
  let name ← FileM.name h
  let content ← observeContent i h
  return {
    name
    type := h.type
    flags := h.flags
    addr := h.addr
    size := h.size
    link := h.link
    info := h.info
    addralign := h.addralign
    entsize := h.entsize
    content }

def observeSections : List Nat → FileM (List SectionView)
  | [] => return []
  | i :: is => do
    let v ← observeSection i
    let vs ← observeSections is
    return v :: vs

def observeDynamics : List Nat → FileM (List (List Dyn))
  | [] => return []
  | i :: is => do
    let f ← get
    let s ← at_ f.sects i
    let h ← lift (f.shdr s.ptr)
    if h.type = shtDynamic then do
      let ds ← readDyns h.size i
      let rest ← observeDynamics is
      return ds :: rest
    else observeDynamics is

def observeSymbol (f : File) (table : SymbolTable) (x : List UInt8 × Symbol) :
    Res (List UInt8 × SymbolView) := do
  let y ← readSym f.host f.layout.sym (table.mems.getD x.2.mem []) x.2.ptr
  return (x.1, y.view)

def observeSymbols : FileM (List (List UInt8 × SymbolView)) := do
  let table ← symbols
  let f ← get
  lift (table.map.mapM (observeSymbol f table))

def observe : FileM View := do
  let headers ← observeHeaders
  let sects ← FileM.sections
  let views ← observeSections (List.range sects.length)
  let dynamics ← observeDynamics (List.range sects.length)
  let symbols ← observeSymbols
  return { headers, sections := views, symbols, dynamics }

end FileM

structure Sectioned (b : Source) (f : File) : Prop where
  coherent : Coherent b f
  calm : f.Calm
  loaded : f.sectsLoaded = true

structure Kin (b : Source) (f f' : File) : Prop extends Sectioned b f' where
  tables : f'.tables = f.tables

section
variable {b : Source} {f f' g : File}

theorem Kin.trans (h : Kin b f f') (h' : Kin b f' g) : Kin b f g :=
  ⟨h'.toSectioned, h'.tables.trans h.tables⟩

theorem Sectioned.kin (h : Sectioned b f) : Kin b f f := ⟨h, rfl⟩

theorem Sectioned.sect (h : Sectioned b f) {i ptr : Nat} (hptr : b.sectionPtrs[i]? = some ptr) :
    ∃ s, f.sects[i]? = some s ∧ s.ptr = ptr := by
  rw [← h.coherent.ptrs h.loaded, List.getElem?_map] at hptr
  exact Option.map_eq_some_iff.mp hptr

theorem content_delivered (h : Sectioned b f) {i ptr : Nat} {buf : List UInt8}
    (hptr : b.sectionPtrs[i]? = some ptr) (hd : b.Delivers ptr buf) (n : Nat) :
    ∃ f', (contentFor (n + 1) i).run f = (.ok buf, f') ∧ Kin b f f' := by
  obtain ⟨s, hs, rfl⟩ := h.sect hptr
  rw [contentFor_run (Int.natCast_nonneg i) hs]
  cases hb : s.buf with
  | some buf' =>
    have hbuf := (h.coherent.loaded h.loaded).2.2 s (List.mem_of_getElem? hs) buf' hb
    rw [hbuf.unique hd]
    exact ⟨f, rfl, h.kin⟩
  | none =>
    obtain ⟨k, hk⟩ := fillContent_delivers (n := n) (i := (i : Int)) (s := s) h.coherent h.calm
      h.loaded hd
    exact ⟨_, hk, ⟨(h.coherent.ticked k).store hptr hd, h.calm, h.loaded⟩, rfl⟩

variable {d : Description} {p : Places} {i : Nat} {s : SectionDesc}

theorem Depicted.ptr (h : Depicted b d p) (hs : d.sections[i]? = some s) :
    b.sectionPtrs[i]? = some (i * b.layout.shdr.size) := by
  have hi : i < b.h.shnum := by
    rw [h.shnum]
    exact (List.getElem?_eq_some_iff.mp hs).1
  rw [Source.sectionPtrs, List.getElem?_map, List.getElem?_range hi, h.shentsize]
  rfl

theorem Depicted.raw (h : Depicted b d p) (hs : d.sections[i]? = some s)
    (hin : p.content i + s.body.size b.layout ≤ b.bytes.length) :
    b.readAll (p.content i) (s.body.size b.layout) =
      .ok (cell b.bytes (p.content i) (s.body.size b.layout)) := by
  have hsize := h.encodes.sizes s (List.mem_of_getElem? hs)
  rw [Source.readAll, if_pos (by omega)]
  apply Source.read_cell (p.content_lt i) hsize (.inl hin)
  rw [Source.fresh, List.length_map, List.length_range]

theorem Depicted.delivers (h : Depicted b d p) (hs : d.sections[i]? = some s)
    (hin : p.content i + s.body.size b.layout ≤ b.bytes.length)
    (ht : ¬ (s.type = shtSymtab ∨ s.type = shtDynsym)) :
    b.Delivers (i * b.layout.shdr.size) (cell b.bytes (p.content i) (s.body.size b.layout)) := by
  refine ⟨_, _, h.shdr hs, h.raw hs hin, ?_⟩
  rw [if_neg (show ¬ ((s.header b.layout (p.content i)).type = shtSymtab ∨
    (s.header b.layout (p.content i)).type = shtDynsym) from ht)]

theorem Depicted.bits (h : Depicted b d p) (hs : d.sections[i]? = some s) {content : List UInt8}
    {entsize : Nat} (hb : s.body = .bits content entsize) :
    b.Delivers (i * b.layout.shdr.size) content := by
  have hat := h.encodes.bodies i s hs
  have hof := d.bodies s (List.mem_of_getElem? hs)
  rw [hb] at hat hof
  have hin : p.content i + s.body.size b.layout ≤ b.bytes.length := by
    rw [hb]
    exact hat.1
  have hd := h.delivers hs hin fun ht => ht.elim hof.1 hof.2.1
  rw [hb] at hd
  rwa [show Body.size b.layout (.bits content entsize) = content.length from rfl, hat.2] at hd

theorem Sectioned.length (h : Sectioned b f) : f.sects.length = b.h.shnum := by
  rw [← List.length_map Section.ptr, h.coherent.ptrs h.loaded, Source.sectionPtrs, List.length_map,
    List.length_range]

def Source.HasName (b : Source) (sect off : Nat) (text : List UInt8) : Prop :=
  ∃ ptr content, b.sectionPtrs[sect]? = some ptr ∧ b.Delivers ptr content ∧
    off < content.length ∧ off + (textIn content off).length < content.length ∧
      textIn content off = text

theorem text_found (hr : Sectioned b f) {sect off : Nat} {text : List UInt8}
    (ht : b.HasName sect off text) :
    ∃ f', (stringAt off (sect : Int)).run f = (.ok text, f') ∧ Kin b f f' := by
  obtain ⟨ptr, content, hptr, hd, hoff, hend, htext⟩ := ht
  obtain ⟨f', hrun, hkin⟩ := content_delivered hr hptr hd 1
  have hstring : cstringAt content off = .ok text := by
    rw [cstringAt, if_pos hoff, ← htext]
    exact if_pos hend
  have hcount : ¬ (f.sects.length : Int) ≤ (sect : Int) := by
    have hlt := (List.getElem?_eq_some_iff.mp hptr).1
    rw [Source.sectionPtrs, List.length_map, List.length_range] at hlt
    rw [hr.length]
    omega
  refine ⟨f', ?_, hkin⟩
  have hcontent : (sectionContent (sect : Int)).run f = (.ok content, f') := hrun
  rw [stringAt, stringIn, sections_loaded _ hr.loaded, if_neg hcount, bind_of_ok hcontent, hstring]
  rfl

theorem Depicted.hasName (h : Depicted b d p) {sect off : Nat} (ht : HasText d.sections sect off) :
    b.HasName sect off (d.text sect off) := by
  obtain ⟨s, content, entsize, hs, hb, hoff, hend⟩ := ht
  refine ⟨_, content, h.ptr hs, h.bits hs hb, hoff, hend, ?_⟩
  rw [Description.text, hs]
  dsimp only
  rw [hb]

theorem text_read (h : Depicted b d p) (hr : Sectioned b f) {sect off : Nat}
    (ht : HasText d.sections sect off) :
    ∃ f', (stringAt off (sect : Int)).run f = (.ok (d.text sect off), f') ∧ Kin b f f' :=
  text_found hr (h.hasName ht)

theorem Sectioned.shdr (hr : Sectioned b f) (h : Depicted b d p) (hs : d.sections[i]? = some s) :
    ∃ sec, f.sects[i]? = some sec ∧ f.shdr sec.ptr = .ok (s.header b.layout (p.content i)) := by
  obtain ⟨sec, hsec, hptr⟩ := hr.sect (h.ptr hs)
  refine ⟨sec, hsec, ?_⟩
  rw [hr.coherent.shdr hr.loaded, hptr, h.shdr hs]

theorem name_read (h : Depicted b d p) (hr : Sectioned b f) (hs : d.sections[i]? = some s) :
    ∃ f', (name (s.header b.layout (p.content i))).run f = (.ok (d.text d.shstrndx s.name), f') ∧
      Kin b f f' := by
  have hidx : f.h.shstrndx = d.shstrndx := by
    rw [← h.shstrndx, ← hr.coherent.source]
    rfl
  rw [name, get_bind, hidx]
  exact text_read h hr (d.names s (List.mem_of_getElem? hs))

theorem observeContent_run (h : Depicted b d p) (hr : Sectioned b f) (hs : d.sections[i]? = some s) :
    ∃ f', (observeContent i (s.header b.layout (p.content i))).run f =
      (.ok (d.sectionView b.layout s).content, f') ∧ Kin b f f' := by
  have hof := d.bodies s (List.mem_of_getElem? hs)
  have hnone (ht : Tabular s.type ∨ s.type = shtNobits) :
      (observeContent i (s.header b.layout (p.content i))).run f = (.ok none, f) := by
    rw [observeContent, if_pos (show Tabular (s.header b.layout (p.content i)).type ∨
      (s.header b.layout (p.content i)).type = shtNobits from ht)]
    rfl
  cases hb : s.body with
  | bits content entsize =>
    rw [hb] at hof
    obtain ⟨hsymtab, hdynsym, hdynamic, hnobits⟩ := hof
    have ht : ¬ (Tabular s.type ∨ s.type = shtNobits) := by
      rintro ((hty | hty | hty) | hty)
      · exact hsymtab hty
      · exact hdynsym hty
      · exact hdynamic hty
      · exact hnobits hty
    obtain ⟨f', hrun, hkin⟩ := content_delivered hr (h.ptr hs) (h.bits hs hb) 1
    have hcontent : (sectionContent (i : Int)).run f = (.ok content, f') := hrun
    refine ⟨f', ?_, hkin⟩
    rw [observeContent, if_neg (show ¬ (Tabular (s.header b.layout (p.content i)).type ∨
      (s.header b.layout (p.content i)).type = shtNobits) from ht), bind_of_ok hcontent]
    simp only [Description.sectionView, hb]
    rfl
  | nobits size entsize =>
    rw [hb] at hof
    refine ⟨f, ?_, hr.kin⟩
    rw [hnone (.inr hof), Description.sectionView, hb]
  | symbols syms =>
    rw [hb] at hof
    refine ⟨f, ?_, hr.kin⟩
    rw [hnone (.inl (hof.imp_right .inl)), Description.sectionView, hb]
  | dynamic dyns =>
    rw [hb] at hof
    refine ⟨f, ?_, hr.kin⟩
    rw [hnone (.inl (.inr (.inr hof))), Description.sectionView, hb]

theorem observeSection_run (h : Depicted b d p) (hr : Sectioned b f) (hs : d.sections[i]? = some s) :
    ∃ f', (observeSection i).run f = (.ok (d.sectionView b.layout s), f') ∧ Kin b f f' := by
  obtain ⟨sec, hsec, hshdr⟩ := hr.shdr h hs
  obtain ⟨f1, hname, hkin1⟩ := name_read h hr hs
  obtain ⟨f2, hcontent, hkin2⟩ := observeContent_run h hkin1.toSectioned hs
  refine ⟨f2, ?_, hkin1.trans hkin2⟩
  rw [observeSection, get_bind, bind_of_ok (at_some (Int.natCast_nonneg i) hsec f), hshdr,
    lift_ok_bind, bind_of_ok hname, bind_of_ok hcontent]
  rfl

theorem observeSections_run (h : Depicted b d p) (hr : Sectioned b f) {is : List Nat}
    {l : List SectionDesc} (hl : List.Forall₂ (fun i s => d.sections[i]? = some s) is l) :
    ∃ f', (observeSections is).run f = (.ok (l.map (d.sectionView b.layout)), f') ∧ Kin b f f' := by
  induction hl generalizing f with
  | nil => exact ⟨f, rfl, hr.kin⟩
  | cons hs _ ih =>
    obtain ⟨f1, hrun1, hkin1⟩ := observeSection_run h hr hs
    obtain ⟨f2, hrun2, hkin2⟩ := ih hkin1.toSectioned
    refine ⟨f2, ?_, hkin1.trans hkin2⟩
    rw [observeSections, bind_of_ok hrun1, bind_of_ok hrun2]
    rfl

theorem dyn_cut {l : Layout} (hl : l = elf32 ∨ l = elf64) {order : ByteOrder} {bytes : List UInt8}
    {pos : Nat} {x : Dyn} (h : DynAt order bytes l.dyn pos x) :
    (Dyn.mk (Int.bmod (word order bytes pos l.dyn.tag) (256 ^ l.dyn.tag.width))
      (word order bytes pos l.dyn.val)).cut = x.cut := by
  have hdvd : (2 ^ 32 : Nat) ∣ 256 ^ l.dyn.tag.width := by
    rcases hl with rfl | rfl <;> decide
  rw [Dyn.cut, Dyn.cut, h.val, h.tag, Int.emod_bmod, Int.bmod_bmod_of_dvd hdvd]

theorem dyn_slots {l : Layout} (hl : l = elf32 ∨ l = elf64) :
    l.dyn.tag.off + l.dyn.tag.width ≤ l.dyn.size ∧ l.dyn.val.off + l.dyn.val.width ≤ l.dyn.size ∧
      0 < l.dyn.size := by
  rcases hl with rfl | rfl <;> decide

theorem records_cut (h : Depicted b d p) (hf : f.source = b) (hs : d.sections[i]? = some s)
    {dyns : List Dyn} (hb : s.body = .dynamic dyns) {raw : List UInt8}
    (hraw : raw = cell b.bytes (p.content i) (dyns.length * b.layout.dyn.size)) :
    (records f raw b.layout.dyn.size 0 dyns.length).map Dyn.cut = dyns.map Dyn.cut := by
  have hat := h.encodes.bodies i s hs
  rw [hb] at hat
  obtain ⟨htag, hval, -⟩ := dyn_slots h.layout
  rw [range_records]
  apply List.ext_getElem?
  intro k
  rw [List.map_map, List.getElem?_map, List.getElem?_map]
  by_cases hk : k < dyns.length
  · rw [List.getElem?_range hk, List.getElem?_eq_getElem hk]
    have hrow := row_le k dyns.length b.layout.dyn.size hk
    have hword {slot : Slot} (hfit : slot.off + slot.width ≤ b.layout.dyn.size) :
        f.decoder.order.value (cell raw (k * b.layout.dyn.size + slot.off) slot.width) =
          word (fileOrder b.host b.eiData) b.bytes (p.content i + k * b.layout.dyn.size) slot := by
      rw [hraw, cell_cell (by omega), word, Nat.add_assoc, ← hf]
      rfl
    have hlayout : f.layout = b.layout := congrArg Source.layout hf
    have hcut := dyn_cut h.layout (hat.2 k _ (List.getElem?_eq_getElem hk))
    rw [← hword htag, ← hword hval, ← hlayout] at hcut
    rw [← hlayout]
    exact congrArg some hcut
  · rw [List.getElem?_eq_none (by rw [List.length_range]; omega), List.getElem?_eq_none (by omega)]
    rfl

theorem readDyns_delivered (h : Depicted b d p) (hr : Sectioned b f) (hs : d.sections[i]? = some s)
    {dyns : List Dyn} (hb : s.body = .dynamic dyns) {fuel : Nat} (hfuel : dyns.length ≤ fuel) :
    ∃ f', (readDyns fuel i).run f = (.ok (dyns.map Dyn.cut), f') ∧ Kin b f f' := by
  have hof := d.bodies s (List.mem_of_getElem? hs)
  have hat := h.encodes.bodies i s hs
  rw [hb] at hof hat
  have hsize : s.body.size b.layout = dyns.length * b.layout.dyn.size := by
    rw [hb]
    rfl
  have hentsize : s.body.entsize b.layout = b.layout.dyn.size := by
    rw [hb]
    rfl
  have ht : ¬ (s.type = shtSymtab ∨ s.type = shtDynsym) := by
    rw [show s.type = shtDynamic from hof]
    decide
  have hd := h.delivers hs (hsize ▸ hat.1) ht
  rw [hsize] at hd
  let raw := cell b.bytes (p.content i) (dyns.length * b.layout.dyn.size)
  obtain ⟨f1, hrun1, hkin1⟩ := content_delivered hr (h.ptr hs) hd 1
  obtain ⟨f2, hrun2, hkin2⟩ := content_delivered hkin1.toSectioned (h.ptr hs) hd 1
  obtain ⟨sec, hsec, hshdr⟩ := hr.shdr h hs
  obtain ⟨sec1, hsec1, hshdr1⟩ := hkin1.toSectioned.shdr h hs
  have hlen : raw.length = dyns.length * b.layout.dyn.size := cell_length hat.1
  have hsmall : raw.length < 2 ^ 63 := by
    have hlt := h.encodes.sizes s (List.mem_of_getElem? hs)
    rw [hsize] at hlt
    omega
  let buf : Buffer := { decoder := f.decoder, bytes := raw, size_lt := hsmall }
  have hbuf : bufferOf f raw = .ok buf := dif_pos hsmall
  have hbuf1 : bufferOf f1 raw = .ok buf := by
    rw [bufferOf_congr (hkin1.coherent.source.trans hr.coherent.source.symm)]
    exact hbuf
  have hfirst := dynIter_run (g := f1) hsec hshdr hrun1 hbuf false
  have hlast := dynIter_run (g := f2) hsec1 hshdr1 hrun2 hbuf1 true
  have hent : (s.header b.layout (p.content i)).entsize = b.layout.dyn.size := hentsize
  have hlayout : f.layout = b.layout := congrArg Source.layout hr.coherent.source
  obtain ⟨-, -, hpos⟩ := dyn_slots h.layout
  have hwhole := traverse_whole (f := f) (b := buf) (k := 0) (hlayout ▸ h.layout) rfl
    (by rw [hlayout]) hpos (by rw [Nat.zero_add]; exact hlen.symm) hfuel
    (begun_stands buf b.layout.dyn.size)
  rw [records_cut h hr.coherent.source hs hb rfl] at hwhole
  obtain ⟨first, hfetch, htraverse⟩ := Res.bind_ok.mp hwhole
  rw [hent, hfetch] at hfirst
  rw [hent] at hlast
  have hrange : (dynsOf i).run f = (.ok (first, finished buf b.layout.dyn.size), f2) := by
    rw [dynsOf, bind_of_ok hfirst, bind_of_ok hlast]
    rfl
  refine ⟨f2, ?_, hkin1.trans hkin2⟩
  have hfetches : fetchDyn f2 = fetchDyn f :=
    fetchDyn_congr (hkin2.coherent.source.trans hr.coherent.source.symm)
  rw [readDyns, bind_of_ok hrange, get_bind, traverse_congr hfetches, htraverse]
  rfl

theorem observeDynamics_run (h : Depicted b d p) (hr : Sectioned b f) {is : List Nat}
    {l : List SectionDesc} (hl : List.Forall₂ (fun i s => d.sections[i]? = some s) is l) :
    ∃ f', (observeDynamics is).run f = (.ok (l.filterMap fun s =>
      match s.body with
      | .dynamic dyns => some (dyns.map Dyn.cut)
      | _ => none), f') ∧ Kin b f f' := by
  induction hl generalizing f with
  | nil => exact ⟨f, rfl, hr.kin⟩
  | @cons i s is l hs _ ih =>
    obtain ⟨sec, hsec, hshdr⟩ := hr.shdr h hs
    have hof := d.bodies s (List.mem_of_getElem? hs)
    have hrun (k : Shdr → FileM (List (List Dyn))) :
        (do let sec ← at_ f.sects i
            let sh ← lift (f.shdr sec.ptr)
            k sh : FileM (List (List Dyn))).run f = (k (s.header b.layout (p.content i))).run f := by
      rw [bind_of_ok (at_some (Int.natCast_nonneg i) hsec f), hshdr, lift_ok_bind]
    have hskip (hne : s.type ≠ shtDynamic) :
        (observeDynamics (i :: is)).run f = (observeDynamics is).run f := by
      rw [observeDynamics, get_bind, hrun,
        if_neg (show ¬ (s.header b.layout (p.content i)).type = shtDynamic from hne)]
    rw [List.filterMap_cons]
    cases hb : s.body with
    | bits content entsize =>
      rw [hb] at hof
      rw [hskip hof.2.2.1]
      exact ih hr
    | nobits size entsize =>
      rw [hb] at hof
      rw [hskip (by rw [show s.type = shtNobits from hof]; decide)]
      exact ih hr
    | symbols syms =>
      rw [hb] at hof
      have hne : s.type ≠ shtDynamic := by
        rcases hof with hty | hty <;> rw [hty] <;> decide
      rw [hskip hne]
      exact ih hr
    | dynamic dyns =>
      rw [hb] at hof
      have hsize : (s.header b.layout (p.content i)).size = dyns.length * b.layout.dyn.size := by
        rw [SectionDesc.header, hb]
        rfl
      have hfuel : dyns.length ≤ (s.header b.layout (p.content i)).size := by
        rw [hsize]
        exact Nat.le_mul_of_pos_right _ (dyn_slots h.layout).2.2
      obtain ⟨f1, hrun1, hkin1⟩ := readDyns_delivered h hr hs hb hfuel
      obtain ⟨f2, hrun2, hkin2⟩ := ih hkin1.toSectioned
      refine ⟨f2, ?_, hkin1.trans hkin2⟩
      rw [observeDynamics, get_bind, hrun,
        if_pos (show (s.header b.layout (p.content i)).type = shtDynamic from hof),
        bind_of_ok hrun1, bind_of_ok hrun2]
      rfl

end

end Gelpp.Elf

import Gelpp.Elf.Presented

namespace Gelpp.Elf

open FileM Effect

def seen (b : Source) (t : SymbolTable) (x : List UInt8 × Symbol) : List UInt8 × Res Sym :=
  (x.1, readSym b.host b.layout.sym (t.mems.getD x.2.mem []) x.2.ptr)

def Shows (b : Source) (t : SymbolTable) (acc : List (List UInt8 × Sym)) : Prop :=
  t.map.map (seen b t) = acc.map fun x => (x.1, .ok x.2)

section
variable {b : Source} {t u : SymbolTable} {acc : List (List UInt8 × Sym)}

theorem Shows.put (h : Shows b t acc) {name : List UInt8} {sym : Symbol} {y : Sym}
    (hy : readSym b.host b.layout.sym (t.mems.getD sym.mem []) sym.ptr = .ok y) :
    Shows b (t.put name sym) (putNamed acc name y) := by
  have hkept : (t.map.filter fun x => x.1 != name).map (seen b t) =
      (acc.filter fun x => x.1 != name).map fun x => (x.1, .ok x.2) := by
    have hfilter := congrArg (List.filter fun x : List UInt8 × Res Sym => x.1 != name) h
    rwa [List.filter_map, List.filter_map] at hfilter
  rw [Shows, putNamed, List.map_cons, ← hkept]
  exact congrArg (· :: _) (Prod.ext rfl hy)

theorem Shows.of_same (h : Shows b t acc) (hmap : u.map = t.map)
    (hsame : ∀ x ∈ t.map, (seen b u x).2 = (seen b t x).2) : Shows b u acc := by
  rw [Shows, hmap, ← h]
  apply List.map_congr_left
  intro x hx
  exact Prod.ext rfl (hsame x hx)

end

section
variable {b : Source} {raw : List UInt8} {link : Nat} {es : List (List UInt8 × Sym)}

theorem sym_info {l : Layout} (hl : l = elf32 ∨ l = elf64) : l.sym.info.off + l.sym.info.width ≤ l.sym.size ∧
    (∀ t ∈ l.sym.fixes, t.Apart l.sym.info) ∧ l.sym.info.width = 1 ∧ 0 < l.sym.size := by
  rcases hl with rfl | rfl <;> decide

structure EntriesIn (b : Source) (raw : List UInt8) (link : Nat) (es : List (List UInt8 × Sym)) :
    Prop where
  length : raw.length = es.length * b.layout.sym.size
  records : ∀ (j : Nat) x, es[j]? = some x →
    SymAt (fileOrder b.host b.eiData) raw b.layout.sym (j * b.layout.sym.size) x.2
  names : ∀ x ∈ es, b.HasName link x.2.name x.1

theorem sym_slots {l : Layout} (hl : l = elf32 ∨ l = elf64) :
    ∀ s ∈ [l.sym.name, l.sym.value, l.sym.bytes, l.sym.info, l.sym.shndx],
      s.off + s.width ≤ l.sym.size := by
  rcases hl with rfl | rfl <;> decide

theorem SymAt.cell {l : Layout} (hl : l = elf32 ∨ l = elf64) {order : ByteOrder}
    {bytes : List UInt8} {pos size off : Nat} {y : Sym} (h : SymAt order bytes l.sym (pos + off) y)
    (hin : pos + size ≤ bytes.length) (hoff : off + l.sym.size ≤ size) :
    SymAt order (cell bytes pos size) l.sym off y := by
  have hword : ∀ s ∈ [l.sym.name, l.sym.value, l.sym.bytes, l.sym.info, l.sym.shndx],
      word order (Elf.cell bytes pos size) off s = word order bytes (pos + off) s := by
    intro s hs
    have hslot := sym_slots hl s hs
    rw [word, word, cell_cell (by omega), Nat.add_assoc]
  simp only [List.forall_mem_cons] at hword
  obtain ⟨hname, hvalue, hbytes, hinfo, hshndx, -⟩ := hword
  refine ⟨?_, hname.trans h.name, hvalue.trans h.value, hbytes.trans h.size, hinfo.trans h.info,
    hshndx.trans h.shndx⟩
  rw [cell_length hin]
  exact hoff

theorem sym_read (hl : b.layout = elf32 ∨ b.layout = elf64) (h : EntriesIn b raw link es)
    {buf : List UInt8} {n : Nat} (hn : n ≤ es.length)
    (hfixed : TableFixed b.host b.eiData b.layout.sym.fixes b.layout.sym.size n raw buf)
    {j : Nat} (hj : j < n) {x : List UInt8 × Sym} (hx : es[j]? = some x) :
    readSym b.host b.layout.sym buf (j * b.layout.sym.size) = .ok x.2 := by
  have hsym := h.records j x hx
  obtain ⟨hfit, hapart, hone, -⟩ := sym_info hl
  have hrows : n * b.layout.sym.size ≤ raw.length := by
    rw [h.length]
    exact Nat.mul_le_mul_right _ hn
  have hf := sym_fixable hl
  rw [readSym_loads (fun slot hslot => hfixed.load_word hf hrows hj hslot)
    (hfixed.load_byte hf hrows hj hfit hapart hone), hsym.name, hsym.value, hsym.size, hsym.info,
    hsym.shndx]

structure Filling (b : Source) (raw : List UInt8) (m j : Nat) (acc : List (List UInt8 × Sym))
    (f : File) : Prop extends Sectioned b f where
  table : ∃ t ms buf, f.syms = some t ∧ t.mems = ms ++ [buf] ∧ ms.length = m ∧
    TableFixed b.host b.eiData b.layout.sym.fixes b.layout.sym.size j raw buf ∧ Shows b t acc ∧
    (∀ x ∈ t.map, x.2.mem = m → ∃ k < j, x.2.ptr = k * b.layout.sym.size) ∧
    ∀ x ∈ t.map, x.2.mem ≤ m

variable {f : File} {acc : List (List UInt8 × Sym)} {m j : Nat}

theorem Sectioned.setSyms (h : Sectioned b f) (o : Option SymbolTable) : Sectioned b { f with syms := o } :=
  ⟨⟨h.coherent.source, h.coherent.loaded⟩, h.calm, h.loaded⟩

theorem fillSymbol_run (hl : b.layout = elf32 ∨ b.layout = elf64) (h : EntriesIn b raw link es)
    (hf : Filling b raw m j acc f) {x : List UInt8 × Sym} (hx : es[j]? = some x) :
    ∃ f', (fillSymbol m b.layout.sym.size (link : Int) j).run f = (.ok (), f') ∧
      Filling b raw m (j + 1) (putNamed acc x.1 x.2) f' := by
  obtain ⟨t, ms, buf, ht, hmems, hm, hfixed, hshows, hrows, hle⟩ := hf.table
  have hj : j < es.length := (List.getElem?_eq_some_iff.mp hx).1
  have hend : (j + 1) * b.layout.sym.size ≤ raw.length := by
    rw [h.length]
    exact Nat.mul_le_mul_right _ hj
  obtain ⟨buf', hfix, hfixed'⟩ := hfixed.row (sym_fixable hl) hend
  have hread := sym_read hl h hj hfixed' (Nat.lt_succ_self j) hx
  have hmem : t.mems[m]? = some buf := by
    rw [hmems, ← hm, List.getElem?_append_right (Nat.le_refl _), Nat.sub_self]
    rfl
  have hset : t.mems.set m buf' = ms ++ [buf'] := by
    rw [hmems, ← hm, List.set_append_right _ _ (Nat.le_refl _), Nat.sub_self]
    rfl
  have hlast : (ms ++ [buf']).getD m [] = buf' := by
    rw [List.getD_eq_getElem?_getD, ← hm, List.getElem?_append_right (Nat.le_refl _), Nat.sub_self]
    rfl
  have hhost : f.host = b.host := congrArg Source.host hf.coherent.source
  have hlayout : f.layout = b.layout := congrArg Source.layout hf.coherent.source
  have hdata : f.eiData = b.eiData := congrArg Source.eiData hf.coherent.source
  let f1 : File := { f with syms := some { t with mems := ms ++ [buf'] } }
  have hsectioned1 : Sectioned b f1 := hf.toSectioned.setSyms _
  obtain ⟨f2, hrun, hkin⟩ := text_found hsectioned1 (h.names x (List.mem_of_getElem? hx))
  have hsyms2 : f2.syms = some { t with mems := ms ++ [buf'] } :=
    congrArg (fun x => x.2.2.2.1) hkin.tables
  have hshows1 : Shows b { t with mems := ms ++ [buf'] } acc := by
    apply hshows.of_same (u := { t with mems := ms ++ [buf'] }) rfl
    intro x hx
    dsimp only [seen]
    by_cases hxm : x.2.mem = m
    · obtain ⟨k, hk, hptr⟩ := hrows x hx hxm
      obtain ⟨z, hz⟩ : ∃ z, es[k]? = some z := ⟨_, List.getElem?_eq_getElem (by omega)⟩
      have hbefore : t.mems.getD x.2.mem [] = buf := by
        rw [hxm, List.getD_eq_getElem?_getD, hmem]
        rfl
      rw [hbefore, hxm, hlast, hptr, sym_read hl h (by omega) hfixed hk hz,
        sym_read hl h (by omega) hfixed' (by omega) hz]
    · have hlt : x.2.mem < ms.length := by
        have hxle := hle x hx
        omega
      rw [hmems, List.getD_eq_getElem?_getD, List.getD_eq_getElem?_getD,
        List.getElem?_append_left hlt, List.getElem?_append_left hlt]
  let table : SymbolTable :=
    ({ t with mems := ms ++ [buf'] } : SymbolTable).put x.1
      { mem := m, ptr := j * b.layout.sym.size }
  refine ⟨{ f2 with syms := some table }, ?_, hkin.toSectioned.setSyms _, table, ms, buf', rfl, rfl, hm,
    hfixed', ?_, ?_, ?_⟩
  · rw [fillSymbol, get_bind, ht]
    dsimp only [Option.getD_some]
    rw [bind_of_ok (at_some (Int.natCast_nonneg m) hmem f), hhost, hdata, hlayout, hfix, lift_ok_bind,
      modify_bind, hset, hread, lift_ok_bind, bind_of_ok hrun, modify_run, hsyms2]
    rfl
  · exact hshows1.put (by rw [hlast]; exact hread)
  · intro x hx hxm
    rcases List.mem_cons.mp hx with rfl | hx
    · exact ⟨j, Nat.lt_succ_self j, rfl⟩
    · obtain ⟨k, hk, hptr⟩ := hrows x (List.mem_filter.mp hx).1 hxm
      exact ⟨k, Nat.lt_succ_of_lt hk, hptr⟩
  · intro x hx
    rcases List.mem_cons.mp hx with rfl | hx
    · exact Nat.le_refl m
    · exact hle x (List.mem_filter.mp hx).1

theorem fillSymbols_loop (hl : b.layout = elf32 ∨ b.layout = elf64) (h : EntriesIn b raw link es)
    {l : List (List UInt8 × Sym)} (hdrop : es.drop j = l) (hf : Filling b raw m j acc f) :
    ∃ f', ((List.range' j l.length).forM (fillSymbol m b.layout.sym.size (link : Int))).run f =
        (.ok (), f') ∧
      Filling b raw m (j + l.length) (l.foldl (fun acc x => putNamed acc x.1 x.2) acc) f' := by
  induction l generalizing j f acc with
  | nil => exact ⟨f, rfl, hf⟩
  | cons x l ih =>
    have hx : es[j]? = some x := by
      have hhead := congrArg List.head? hdrop
      rwa [List.head?_drop] at hhead
    have htail : es.drop (j + 1) = l := by
      rw [← List.tail_drop, hdrop]
      rfl
    obtain ⟨f1, hrun1, hf1⟩ := fillSymbol_run hl h hf hx
    obtain ⟨f2, hrun2, hf2⟩ := ih htail hf1
    have hcons : (List.range' j (x :: l).length).forM
        (fillSymbol m b.layout.sym.size (link : Int)) =
        (fillSymbol m b.layout.sym.size (link : Int) j >>= fun _ =>
          (List.range' (j + 1) l.length).forM (fillSymbol m b.layout.sym.size (link : Int))) := rfl
    refine ⟨f2, ?_, ?_⟩
    · rw [hcons, bind_of_ok hrun1, hrun2]
    · rw [List.length_cons, ← Nat.add_assoc, Nat.add_right_comm]
      exact hf2

structure Recording (b : Source) (acc : List (List UInt8 × Sym)) (f : File) : Prop
    extends Sectioned b f where
  table : ∃ t, f.syms = some t ∧ Shows b t acc ∧ ∀ x ∈ t.map, x.2.mem < t.mems.length

theorem Filling.recording {raw : List UInt8} (h : Filling b raw m j acc f) : Recording b acc f := by
  obtain ⟨t, ms, buf, ht, hmems, hm, -, hshows, -, hle⟩ := h.table
  refine ⟨h.toSectioned, t, ht, hshows, fun x hx => ?_⟩
  have hxle := hle x hx
  rw [hmems, List.length_append, hm, List.length_singleton]
  omega

theorem Recording.filling (h : Recording b acc f) (raw : List UInt8) {k : List Asked} :
    ∃ t, f.syms = some t ∧ Filling b raw t.mems.length 0 acc
      { ticked f k with syms := some { t with mems := t.mems ++ [raw] } } := by
  obtain ⟨t, ht, hshows, hlt⟩ := h.table
  have hsectioned : Sectioned b (ticked f k) := ⟨h.coherent.ticked k, h.calm, h.loaded⟩
  refine ⟨t, ht, hsectioned.setSyms _, _, t.mems, raw, rfl, rfl, rfl, ⟨rfl, nofun, fun _ _ _ => rfl⟩,
    ?_, fun x hx hxm => ?_, fun x hx => (hlt x hx).le⟩
  · apply hshows.of_same (u := { t with mems := t.mems ++ [raw] }) rfl
    intro x hx
    dsimp only [seen]
    rw [List.getD_eq_getElem?_getD, List.getD_eq_getElem?_getD, List.getElem?_append_left (hlt x hx)]
  · exact absurd hxm (hlt x hx).ne

def putAll {α : Type} (acc : List (List UInt8 × α)) (es : List (List UInt8 × α)) :
    List (List UInt8 × α) := es.foldl (fun acc x => putNamed acc x.1 x.2) acc

structure Tabulated (b : Source) (sh : Shdr) (es : List (List UInt8 × Sym)) : Prop where
  raw : ∃ raw, b.readAll sh.offset sh.size = .ok raw ∧ EntriesIn b raw sh.link es
  size : sh.size = es.length * b.layout.sym.size
  entsize : sh.entsize = b.layout.sym.size
  link : es ≠ [] → sh.link < 2 ^ 31

def SectionEntries (b : Source) (ptr : Nat) (es : List (List UInt8 × Sym)) : Prop :=
  ∃ sh, b.shdr ptr = .ok sh ∧
    if sh.type = shtSymtab ∨ sh.type = shtDynsym then Tabulated b sh es else es = []

theorem link_int {link : Nat} (h : link < 2 ^ 31) :
    (UInt32.ofNat link).toInt32.toInt = (link : Int) := by
  rw [toInt32_bmod]
  apply Int.bmod_eq_of_le <;> omega

theorem fillSymbolTable_run (hl : b.layout = elf32 ∨ b.layout = elf64) {sh : Shdr}
    (h : Tabulated b sh es) (hf : Recording b acc f) :
    ∃ f', (fillSymbolTable sh).run f = (.ok (), f') ∧ Recording b (putAll acc es) f' := by
  obtain ⟨raw, hraw, hin⟩ := h.raw
  obtain ⟨k, hread⟩ := readAll_calm hf.calm sh.offset sh.size
  rw [hf.coherent.source, hraw] at hread
  obtain ⟨t, ht, hfilling⟩ := hf.filling raw (k := k)
  obtain ⟨f', hrun, hfilled⟩ := fillSymbols_loop hl hin List.drop_zero hfilling
  have hpos := (sym_info hl).2.2.2
  have hcount : es.length * b.layout.sym.size / b.layout.sym.size = es.length :=
    Nat.mul_div_cancel _ hpos
  have hloop : (List.range es.length).forM (fillSymbol t.mems.length b.layout.sym.size
      (UInt32.ofNat sh.link).toInt32.toInt) = (List.range' 0 es.length).forM
        (fillSymbol t.mems.length b.layout.sym.size (sh.link : Int)) := by
    rw [List.range_eq_range']
    cases hes : es with
    | nil => rfl
    | cons x l => rw [link_int (h.link (by rw [hes]; exact List.cons_ne_nil x l))]
  have hentries (name : FileM (List UInt8)) (g : File) :
      (entries name sh).run g = (.ok es.length, g) := by
    rw [entries, h.size, h.entsize, if_neg hpos.ne', hcount, if_neg (not_not_intro rfl)]
    rfl
  refine ⟨f', ?_, hfilled.recording⟩
  rw [fillSymbolTable, bind_of_ok hread, get_bind, show (ticked f k).syms = some t from ht]
  dsimp only [Option.getD_some]
  rw [modify_bind, bind_of_ok (hentries _ _), h.entsize, hloop]
  exact hrun

theorem fillFrom_run (hl : b.layout = elf32 ∨ b.layout = elf64) {sec : Section}
    (h : SectionEntries b sec.ptr es) (hf : Recording b acc f) :
    ∃ f', (fillFrom sec).run f = (.ok (), f') ∧ Recording b (putAll acc es) f' := by
  obtain ⟨sh, hsh, h⟩ := h
  have hshdr : f.shdr sec.ptr = .ok sh := by rw [hf.coherent.shdr hf.loaded, hsh]
  rw [fillFrom, get_bind, hshdr, lift_ok_bind]
  split at h
  · next ht =>
    rw [if_pos ht]
    exact fillSymbolTable_run hl h hf
  · next ht =>
    rw [if_neg ht, h]
    exact ⟨f, rfl, hf⟩

theorem fillAll_run (hl : b.layout = elf32 ∨ b.layout = elf64) {sects : List Section}
    {ess : List (List (List UInt8 × Sym))}
    (h : List.Forall₂ (fun (sec : Section) es => SectionEntries b sec.ptr es) sects ess)
    (hf : Recording b acc f) :
    ∃ f', (sects.forM fillFrom).run f = (.ok (), f') ∧ Recording b (putAll acc ess.flatten) f' := by
  induction h generalizing f acc with
  | nil => exact ⟨f, rfl, hf⟩
  | @cons sec es sects ess hsec _ ih =>
    obtain ⟨f1, hrun1, hf1⟩ := fillFrom_run hl hsec hf
    obtain ⟨f2, hrun2, hf2⟩ := ih hf1
    have hcons : (sec :: sects).forM fillFrom = (fillFrom sec >>= fun _ => sects.forM fillFrom) := rfl
    refine ⟨f2, ?_, ?_⟩
    · rw [hcons, bind_of_ok hrun1, hrun2]
    · rw [putAll, List.flatten_cons, List.foldl_append]
      exact hf2

theorem symbols_recorded (hl : b.layout = elf32 ∨ b.layout = elf64) (hfresh : Fresh f) (hc : f.Calm)
    (hsource : f.source = b) {mem : List UInt8} (htable : b.sectionTable = .ok mem)
    {ess : List (List (List UInt8 × Sym))}
    (h : List.Forall₂ (SectionEntries b) b.sectionPtrs ess) :
    ∃ t f', symbols.run f = (.ok t, f') ∧ f'.source = b ∧ Shows b t (putAll [] ess.flatten) := by
  have hcoh : Coherent b f := hsource ▸ hfresh.agree.left
  have hstart : Coherent b { f with syms := some {} } := ⟨hcoh.source, hcoh.loaded⟩
  obtain ⟨f1, hinit, hcoh1, hcalm1, htables1, hl1⟩ := (initSections_calm hstart hc).1 mem htable
  have hsyms1 : f1.syms = some {} := congrArg (fun x => x.2.2.2.1) htables1
  have hrecording : Recording b [] f1 := ⟨⟨hcoh1, hcalm1, hl1⟩, {}, hsyms1, rfl, nofun⟩
  rw [← hcoh1.ptrs hl1, List.forall₂_map_left_iff] at h
  obtain ⟨f2, hfill, hf2⟩ := fillAll_run hl h hrecording
  obtain ⟨t, ht, hshows, -⟩ := hf2.table
  refine ⟨t, f2, ?_, hf2.coherent.source, hshows⟩
  rw [symbols_run hfresh.syms, fillSymbols, sections_bind, bind_of_ok hinit, get_bind,
    bind_of_ok hfill, get_bind, ht]
  rfl

end

end Gelpp.Elf

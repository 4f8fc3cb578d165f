import Gelpp.Elf.Classes

namespace Gelpp.Elf

open FileM Effect

def dataOrder (eiData : UInt8) : ByteOrder := if eiData = elfData2LSB then .little else .big

def Symbolic (type : Nat) : Prop := type = shtSymtab ∨ type = shtDynsym

instance (type : Nat) : Decidable (Symbolic type) := inferInstanceAs (Decidable (_ ∨ _))

section
variable (order : ByteOrder) (bytes : List UInt8) (l : Layout)

def sectionHeader (i : Nat) : Shdr :=
  let pos := word order bytes 0 l.ehdr.shoff + i * l.shdr.size
  { name := word order bytes pos l.shdr.name
    type := word order bytes pos l.shdr.type
    flags := word order bytes pos l.shdr.flags
    addr := word order bytes pos l.shdr.addr
    offset := word order bytes pos l.shdr.offset
    size := word order bytes pos l.shdr.bytes
    link := word order bytes pos l.shdr.link
    info := word order bytes pos l.shdr.info
    addralign := word order bytes pos l.shdr.addralign
    entsize := word order bytes pos l.shdr.entsize }

structure NameAt (count sect off : Nat) (text : List UInt8) : Prop where
  sect_lt : sect < count
  plain : ¬ Symbolic (sectionHeader order bytes l sect).type
  inside : (sectionHeader order bytes l sect).offset + (sectionHeader order bytes l sect).size ≤
    bytes.length
  ends : off + text.length < (sectionHeader order bytes l sect).size
  spelled : cell bytes ((sectionHeader order bytes l sect).offset + off) (text.length + 1) = text ++ [0]
  visible : 0 ∉ text

structure SymbolsAt (count : Nat) (h : Shdr) (es : List (List UInt8 × Sym)) : Prop where
  size : h.size = es.length * l.sym.size
  entsize : h.entsize = l.sym.size
  records : ∀ (j : Nat) x, es[j]? = some x → SymAt order bytes l.sym (h.offset + j * l.sym.size) x.2
  names : ∀ x ∈ es, NameAt order bytes l count h.link x.2.name x.1

structure SymbolFile (ess : List (List (List UInt8 × Sym))) : Prop where
  shentsize : word order bytes 0 l.ehdr.shentsize = l.shdr.size
  shnum : word order bytes 0 l.ehdr.shnum = ess.length
  inside : word order bytes 0 l.ehdr.shoff + ess.length * l.shdr.size ≤ bytes.length
  sections : ∀ i es, ess[i]? = some es →
    if Symbolic (sectionHeader order bytes l i).type then
      SymbolsAt order bytes l ess.length (sectionHeader order bytes l i) es
    else es = []

structure Near (ess : List (List (List UInt8 × Sym))) : Prop where
  table : word order bytes 0 l.ehdr.shoff < 2 ^ 32
  sections : ∀ i es, ess[i]? = some es → es ≠ [] →
    ∀ h ∈ [sectionHeader order bytes l i,
      sectionHeader order bytes l (sectionHeader order bytes l i).link],
      h.offset < 2 ^ 32 ∧ h.size < 2 ^ 32

end

structure Opened (b : Source) : Prop where
  layout : b.layout = elf32 ∨ b.layout = elf64
  eiData : b.eiData = b.bytes.getD 5 0
  header : b.h = headerOf (fileOrder b.host b.eiData) b.bytes b.layout.ehdr

section
variable {b : Source} {pos size : Nat} {buf raw : List UInt8}

theorem Source.read_found (hpos : pos < 2 ^ 32) (hsize : size < 2 ^ 32) (h : b.read pos size buf = .ok raw) :
    pos + size ≤ b.bytes.length ∨ size = 0 := by
  rw [Source.read, Nat.mod_eq_of_lt hpos, Nat.mod_eq_of_lt hsize] at h
  split at h
  · cases h
  · split at h
    · cases h
    · next hlen =>
      rw [not_ne_iff, List.length_take, List.length_drop] at hlen
      omega

theorem Source.readAll_found (hpos : pos < 2 ^ 32) (hsize : size < 2 ^ 32)
    (h : b.readAll pos size = .ok raw) :
    (pos + size ≤ b.bytes.length ∨ size = 0) ∧ raw = cell b.bytes pos size := by
  have hfresh : (b.fresh size).length = size := by rw [Source.fresh, List.length_map, List.length_range]
  rw [Source.readAll, if_pos (by omega)] at h
  have hin := Source.read_found hpos hsize h
  rw [Source.read_cell hpos hsize hin hfresh] at h
  cases h
  exact ⟨hin, rfl⟩

end

section
variable {l : Layout} {host : ByteOrder} {path : String} {stream : Stream} {junk : Nat → UInt8} {f : File}

theorem construct_opened (hl : l = elf32 ∨ l = elf64) (hc : stream.fails = fun _ => false)
    (h : construct.run (File.blank l host path stream junk) = (.ok (), f)) :
    Fresh f ∧ f.Calm ∧ Opened f.source ∧ f.source.layout = l ∧ f.source.host = host ∧
      f.source.bytes = stream.bytes := by
  obtain ⟨hmin, hmax⟩ := ehdr_size hl
  rw [construct, get_bind] at h
  obtain ⟨buf, f1, hread, h⟩ := bind_ok.mp h
  obtain ⟨k, hcalm⟩ := readAll_calm (f := File.blank l host path stream junk) hc 0 l.ehdr.size
  have heq := hcalm.symm.trans hread
  obtain ⟨hin, hbuf⟩ := Source.readAll_found (by omega) (by omega) (congrArg Prod.fst heq)
  obtain rfl : buf = cell stream.bytes 0 l.ehdr.size := hbuf
  obtain rfl : ticked (File.blank l host path stream junk) k = f1 := congrArg Prod.snd heq
  have hlen : l.ehdr.size ≤ stream.bytes.length := by
    rw [Nat.zero_add] at hin
    exact hin.resolve_right (by omega)
  split at h
  · cases h
  · split at h
    · cases h
    · have hwords : readEhdr (File.blank l host path stream junk).host
          (File.blank l host path stream junk).layout.ehdr (cell stream.bytes 0 l.ehdr.size) =
          .ok (headerOf (fileOrder host (stream.bytes.getD 5 0)) stream.bytes l.ehdr) :=
        readEhdr_words hl hlen rfl
      rw [hwords, lift_ok_bind] at h
      split at h
      · cases h
      · cases h
        have hident : ((cell stream.bytes 0 l.ehdr.size).take 16).getD 5 0 = stream.bytes.getD 5 0 := by
          rw [cell, List.drop_zero, List.take_take, List.getD_eq_getElem?_getD,
            List.getD_eq_getElem?_getD, List.getElem?_take_of_lt (by omega)]
        refine ⟨⟨rfl, rfl, rfl, rfl, rfl, rfl, rfl, rfl⟩, hc, ⟨hl, hident, ?_⟩, rfl, rfl, rfl⟩
        exact congrArg (fun e => headerOf (fileOrder host e) stream.bytes l.ehdr) hident.symm

end

structure Legible (b : Source) (ess : List (List (List UInt8 × Sym))) : Prop where
  opened : Opened b
  file : SymbolFile (fileOrder b.host b.eiData) b.bytes b.layout ess
  near : Near (fileOrder b.host b.eiData) b.bytes b.layout ess

def Source.header (b : Source) (i : Nat) : Shdr :=
  sectionHeader (fileOrder b.host b.eiData) b.bytes b.layout i

section
variable {b : Source} {ess : List (List (List UInt8 × Sym))}

theorem ehdr_widths {l : Layout} (hl : l = elf32 ∨ l = elf64) : l.ehdr.shnum.width = 2 := by
  rcases hl with rfl | rfl <;> rfl

theorem word_lt (order : ByteOrder) (bytes : List UInt8) (pos : Nat) (s : Slot) :
    word order bytes pos s < 256 ^ s.width := by
  have hlt := order.value_lt (cell bytes (pos + s.off) s.width)
  have hlen : (cell bytes (pos + s.off) s.width).length ≤ s.width := List.length_take_le _ _
  exact hlt.trans_le (Nat.pow_le_pow_right (by omega) hlen)

theorem Legible.count_lt (h : Legible b ess) : ess.length < 2 ^ 16 := by
  have hlt := word_lt (fileOrder b.host b.eiData) b.bytes 0 b.layout.ehdr.shnum
  rw [h.file.shnum, ehdr_widths h.opened.layout] at hlt
  exact hlt

theorem Legible.shentsize (h : Legible b ess) : b.h.shentsize = b.layout.shdr.size := by
  rw [h.opened.header]
  exact h.file.shentsize

theorem Legible.shnum (h : Legible b ess) : b.h.shnum = ess.length := by
  rw [h.opened.header]
  exact h.file.shnum

theorem Legible.sectionTable (h : Legible b ess) :
    ∃ mem, b.sectionTable = .ok mem ∧ ∀ i < ess.length,
      readShdr b.host b.layout.shdr mem (i * b.layout.shdr.size) = .ok (b.header i) := by
  have hsize := (size_le h.opened.layout).2
  have hcount := h.count_lt
  have hshoff : b.h.shoff = word (fileOrder b.host b.eiData) b.bytes 0 b.layout.ehdr.shoff := by
    rw [h.opened.header]
    rfl
  have hinside : ∀ i < ess.length, b.h.shoff + i * b.layout.shdr.size + b.layout.shdr.size ≤
      b.bytes.length := by
    intro i hi
    have hrow := row_le i ess.length b.layout.shdr.size hi
    have hin := h.file.inside
    rw [hshoff]
    omega
  have hproduct : product b.h.shentsize b.h.shnum = .ok (b.layout.shdr.size * ess.length) := by
    rw [h.shentsize, h.shnum]
    exact product_small hsize hcount
  obtain ⟨raw, mem, hraw, hmem, hload⟩ := table_read (shdr_fixable h.opened.layout) hsize hcount
    (hshoff ▸ h.near.table) hinside List.length_replicate
  refine ⟨mem, ?_, fun i hi => ?_⟩
  · rw [Source.sectionTable, hproduct, Res.ok_bind, hraw, Res.ok_bind, h.shentsize, h.shnum, hmem]
  · rw [readShdr_loads (hload i hi), hshoff]
    rfl

theorem Legible.ptr (h : Legible b ess) {i : Nat} (hi : i < ess.length) :
    b.sectionPtrs[i]? = some (i * b.layout.shdr.size) := by
  rw [Source.sectionPtrs, h.shnum, h.shentsize, List.getElem?_map, List.getElem?_range hi]
  rfl

theorem Legible.shdr (h : Legible b ess) {i : Nat} (hi : i < ess.length) :
    b.shdr (i * b.layout.shdr.size) = .ok (b.header i) := by
  obtain ⟨mem, hmem, hread⟩ := h.sectionTable
  rw [Source.shdr, hmem, Res.ok_bind, hread i hi]

theorem readAll_near {pos size : Nat} (hpos : pos < 2 ^ 32) (hsize : size < 2 ^ 32)
    (hin : pos + size ≤ b.bytes.length) : b.readAll pos size = .ok (cell b.bytes pos size) := by
  rw [Source.readAll, if_pos (by omega)]
  apply Source.read_cell hpos hsize (.inl hin)
  rw [Source.fresh, List.length_map, List.length_range]

theorem readAll_none (pos : Nat) : b.readAll pos 0 = .ok [] := by
  rw [Source.readAll, if_pos (by decide), Source.read]
  simp [Source.fresh]

theorem textIn_spelled {bytes text : List UInt8} {pos size off : Nat}
    (hends : off + text.length < size) (h : cell bytes (pos + off) (text.length + 1) = text ++ [0])
    (hvisible : 0 ∉ text) : textIn (cell bytes pos size) off = text := by
  have htake : ((cell bytes pos size).drop off).take (text.length + 1) = text ++ [0] := by
    rw [← h]
    exact cell_cell (by omega)
  have hsplit : (cell bytes pos size).drop off =
      text ++ 0 :: ((cell bytes pos size).drop off).drop (text.length + 1) := by
    have happend := List.take_append_drop (text.length + 1) ((cell bytes pos size).drop off)
    rw [htake, List.append_assoc] at happend
    exact happend.symm
  have htext : ∀ x ∈ text, (decide (x ≠ 0)) = true := by
    intro x hx
    rw [decide_eq_true_eq]
    rintro rfl
    exact hvisible hx
  rw [textIn, hsplit, List.takeWhile_append_of_pos htext, List.takeWhile_cons_of_neg (by simp),
    List.append_nil]

theorem Legible.hasName (h : Legible b ess) {sect off : Nat} {text : List UInt8}
    (ht : NameAt (fileOrder b.host b.eiData) b.bytes b.layout ess.length sect off text)
    (hnear : (b.header sect).offset < 2 ^ 32 ∧ (b.header sect).size < 2 ^ 32) :
    b.HasName sect off text := by
  have hplain : ¬ ((b.header sect).type = shtSymtab ∨ (b.header sect).type = shtDynsym) := ht.plain
  have htext : textIn (cell b.bytes (b.header sect).offset (b.header sect).size) off = text :=
    textIn_spelled ht.ends ht.spelled ht.visible
  have hin : (b.header sect).offset + (b.header sect).size ≤ b.bytes.length := ht.inside
  have hends : off + text.length < (b.header sect).size := ht.ends
  refine ⟨_, _, h.ptr ht.sect_lt,
    ⟨_, _, h.shdr ht.sect_lt, readAll_near hnear.1 hnear.2 hin, ?_⟩, ?_, ?_, htext⟩
  · rw [if_neg hplain]
  · rw [cell_length hin]
    omega
  · rw [htext, cell_length hin]
    exact hends

theorem Legible.tabulated (h : Legible b ess) {i : Nat} {es : List (List UInt8 × Sym)}
    (hes : ess[i]? = some es)
    (hat : SymbolsAt (fileOrder b.host b.eiData) b.bytes b.layout ess.length (b.header i) es) :
    Tabulated b (b.header i) es := by
  by_cases hnil : es = []
  · obtain rfl := hnil
    have hsize : (b.header i).size = 0 := by
      rw [hat.size, List.length_nil, Nat.zero_mul]
    refine ⟨⟨[], ?_, ?_⟩, hat.size, hat.entsize, fun hne => absurd rfl hne⟩
    · rw [hsize]
      exact readAll_none _
    · exact ⟨by rw [List.length_nil, List.length_nil, Nat.zero_mul], nofun, nofun⟩
  have hnear := h.near.sections i es hes hnil
  simp only [List.forall_mem_cons] at hnear
  obtain ⟨hself, hlink, -⟩ := hnear
  have hin : (b.header i).offset + (b.header i).size ≤ b.bytes.length := by
    have hpos : 0 < es.length := List.length_pos_iff.mpr hnil
    have hlast := (hat.records (es.length - 1) _ (List.getElem?_eq_getElem (by omega))).inside
    have hcount : (es.length - 1) * b.layout.sym.size + b.layout.sym.size =
        es.length * b.layout.sym.size := by
      rw [← Nat.succ_mul]
      congr 1
      omega
    rw [hat.size]
    omega
  refine ⟨⟨_, readAll_near hself.1 hself.2 hin, ?_, ?_, ?_⟩, hat.size, hat.entsize, fun _ => ?_⟩
  · rw [cell_length hin, hat.size]
  · intro j x hx
    have hrow := row_le j es.length b.layout.sym.size (List.getElem?_eq_some_iff.mp hx).1
    rw [← hat.size] at hrow
    exact (hat.records j x hx).cell h.opened.layout hin hrow
  · exact fun x hx => h.hasName (hat.names x hx) hlink
  · obtain ⟨x, hx⟩ := List.exists_mem_of_ne_nil es hnil
    have hlt := (hat.names x hx).sect_lt
    have hcount := h.count_lt
    omega

theorem Legible.sectionEntries (h : Legible b ess) :
    List.Forall₂ (SectionEntries b) b.sectionPtrs ess := by
  rw [Source.sectionPtrs, List.forall₂_map_left_iff, h.shentsize, h.shnum, List.forall₂_iff_get]
  refine ⟨List.length_range, fun i hi hi' => ?_⟩
  rw [List.get_eq_getElem, List.getElem_range]
  have hes : ess[i]? = some (ess.get ⟨i, hi'⟩) := List.getElem?_eq_getElem hi'
  have hsection : if Symbolic (b.header i).type then SymbolsAt (fileOrder b.host b.eiData) b.bytes
      b.layout ess.length (b.header i) (ess.get ⟨i, hi'⟩) else ess.get ⟨i, hi'⟩ = [] :=
    h.file.sections i _ hes
  refine ⟨_, h.shdr hi', ?_⟩
  by_cases ht : Symbolic (b.header i).type
  · rw [if_pos ht] at hsection
    rw [if_pos (show _ ∨ _ from ht)]
    exact h.tabulated hes hsection
  · rw [if_neg ht] at hsection
    rw [if_neg (show ¬ (_ ∨ _) from ht)]
    exact hsection

end

structure Recorded (b : Source) (ess : List (List (List UInt8 × Sym))) : Prop where
  table : ∃ mem, b.sectionTable = .ok mem
  sections : List.Forall₂ (SectionEntries b) b.sectionPtrs ess

theorem Legible.recorded {b : Source} {ess : List (List (List UInt8 × Sym))} (h : Legible b ess) :
    Recorded b ess := by
  obtain ⟨mem, htable, -⟩ := h.sectionTable
  exact ⟨⟨mem, htable⟩, h.sectionEntries⟩

section
variable {l : Layout} {host : ByteOrder} {path : String} {stream : Stream} {junk : Nat → UInt8} {f : File}
  {ess : List (List (List UInt8 × Sym))}

theorem Recorded.symbols (h : Recorded f.source ess) (hl : l = elf32 ∨ l = elf64)
    (hc : stream.fails = fun _ => false)
    (hopen : construct.run (File.blank l host path stream junk) = (.ok (), f)) :
    ∃ t f', symbols.run f = (.ok t, f') ∧ f'.source = f.source ∧
      Shows f.source t (putAll [] ess.flatten) := by
  obtain ⟨hfresh, hcalm, hopened, -⟩ := construct_opened hl hc hopen
  obtain ⟨mem, htable⟩ := h.table
  exact symbols_recorded hopened.layout hfresh hcalm rfl htable h.sections

theorem legible_little (hl : l = elf32 ∨ l = elf64) (hc : stream.fails = fun _ => false)
    (hopen : construct.run (File.blank l .little path stream junk) = (.ok (), f))
    (h : SymbolFile (dataOrder (stream.bytes.getD 5 0)) stream.bytes l ess)
    (hnear : Near (dataOrder (stream.bytes.getD 5 0)) stream.bytes l ess) : Legible f.source ess := by
  obtain ⟨-, -, hopened, hlayout, hhost, hbytes⟩ := construct_opened hl hc hopen
  have horder : fileOrder f.source.host f.source.eiData = dataOrder (stream.bytes.getD 5 0) := by
    rw [hopened.eiData, hhost, hbytes]
    rfl
  refine ⟨hopened, ?_, ?_⟩
  · rw [horder, hlayout, hbytes]
    exact h
  · rw [horder, hlayout, hbytes]
    exact hnear

end

end Gelpp.Elf

import Gelpp.Elf.Description
import Gelpp.Elf.Order

namespace Gelpp.Elf

open FileM Effect

def Phdr.header (p : Phdr) : Header where
  type := p.type
  flags := p.flags
  vaddr := p.vaddr
  paddr := p.paddr
  memsz := p.memsz
  filesz := p.filesz
  align := p.align

structure Depicted (b : Source) (d : Description) (p : Places) : Prop where
  layout : b.layout = elf32 ∨ b.layout = elf64
  encodes : Encodes (fileOrder b.host b.eiData) b.bytes b.layout b.eiData d p
  phoff : b.h.phoff = p.headers
  shoff : b.h.shoff = p.sections
  phentsize : b.h.phentsize = b.layout.phdr.size
  phnum : b.h.phnum = d.headers.length
  shentsize : b.h.shentsize = b.layout.shdr.size
  shnum : b.h.shnum = d.sections.length
  shstrndx : b.h.shstrndx = d.shstrndx

section
variable {l : Layout}

theorem phdr_fixable (hl : l = elf32 ∨ l = elf64) : Fixable l.phdr.fixes l.phdr.size := by
  rcases hl with rfl | rfl
  · exact ⟨by decide, by decide, by decide⟩
  · exact ⟨by decide, by decide, by decide⟩

theorem shdr_fixable (hl : l = elf32 ∨ l = elf64) : Fixable l.shdr.fixes l.shdr.size := by
  rcases hl with rfl | rfl
  · exact ⟨by decide, by decide, by decide⟩
  · exact ⟨by decide, by decide, by decide⟩

theorem sym_fixable (hl : l = elf32 ∨ l = elf64) : Fixable l.sym.fixes l.sym.size := by
  rcases hl with rfl | rfl
  · exact ⟨by decide, by decide, by decide⟩
  · exact ⟨by decide, by decide, by decide⟩

end

section
variable {host : ByteOrder} {mem : List UInt8} {ptr : Nat} {v : Slot → Nat}

theorem readPhdr_loads {l : PhdrLayout} (h : ∀ s ∈ l.fixes, loadAt host mem ptr s = .ok (v s)) :
    readPhdr host l mem ptr = .ok {
      type := v l.type
      flags := v l.flags
      offset := v l.offset
      vaddr := v l.vaddr
      paddr := v l.paddr
      filesz := v l.filesz
      memsz := v l.memsz
      align := v l.align } := by
  simp only [PhdrLayout.fixes, List.forall_mem_cons] at h
  obtain ⟨halign, hfilesz, hflags, hmemsz, hoffset, hpaddr, htype, hvaddr, -⟩ := h
  rw [readPhdr, htype, hflags, hoffset, hvaddr, hpaddr, hfilesz, hmemsz, halign]
  rfl

theorem readShdr_loads {l : ShdrLayout} (h : ∀ s ∈ l.fixes, loadAt host mem ptr s = .ok (v s)) :
    readShdr host l mem ptr = .ok {
      name := v l.name
      type := v l.type
      flags := v l.flags
      addr := v l.addr
      offset := v l.offset
      size := v l.bytes
      link := v l.link
      info := v l.info
      addralign := v l.addralign
      entsize := v l.entsize } := by
  simp only [ShdrLayout.fixes, List.forall_mem_cons] at h
  obtain ⟨haddr, haddralign, hentsize, hflags, hinfo, hlink, hname, hoffset, hbytes, htype, -⟩ := h
  rw [readShdr, hname, htype, hflags, haddr, hoffset, hbytes, hlink, hinfo, haddralign, hentsize]
  rfl

theorem readSym_loads {l : SymLayout} (h : ∀ s ∈ l.fixes, loadAt host mem ptr s = .ok (v s))
    (hinfo : loadAt host mem ptr l.info = .ok (v l.info)) :
    readSym host l mem ptr = .ok {
      name := v l.name
      value := v l.value
      size := v l.bytes
      info := v l.info
      shndx := v l.shndx } := by
  simp only [SymLayout.fixes, List.forall_mem_cons] at h
  obtain ⟨hname, hvalue, hbytes, hshndx, -⟩ := h
  rw [readSym, hname, hvalue, hbytes, hinfo, hshndx]
  rfl

end

section
variable {bytes : List UInt8} {pos size : Nat}

theorem cell_cell {off width : Nat} (h : off + width ≤ size) :
    cell (cell bytes pos size) off width = cell bytes (pos + off) width := by
  rw [cell, cell, cell, List.drop_take, List.drop_drop, List.take_take, Nat.min_eq_left (by omega)]

theorem Source.read_cell {b : Source} {buf : List UInt8} (hpos : pos < 2 ^ 32) (hsize : size < 2 ^ 32)
    (hin : pos + size ≤ b.bytes.length ∨ size = 0) (hbuf : buf.length = size) :
    b.read pos size buf = .ok (cell b.bytes pos size) := by
  have hlen : (cell b.bytes pos size).length = size := by
    rcases hin with hin | rfl
    · exact cell_length hin
    · rw [cell, List.take_zero]
      rfl
  rw [Source.read, Nat.mod_eq_of_lt hpos, Nat.mod_eq_of_lt hsize]
  change (if buf.length < (cell b.bytes pos size).length then _
    else if (cell b.bytes pos size).length ≠ size then _ else _) = _
  rw [hlen, hbuf, if_neg (Nat.lt_irrefl _), if_neg (not_not_intro rfl)]
  change Except.ok (cell b.bytes pos size ++ buf.drop (cell b.bytes pos size).length) = _
  rw [hlen, List.drop_eq_nil_of_le hbuf.le, List.append_nil]

theorem product_small {m n : Nat} (hm : m ≤ 64) (hn : n < 2 ^ 16) : product m n = .ok (m * n) := by
  have hle : m * n ≤ 64 * n := Nat.mul_le_mul_right n hm
  exact if_pos (by omega)

variable {host : ByteOrder} {eiData : UInt8} {slots : List Slot} {e n : Nat} {mem : List UInt8}

theorem value_byte (a b : ByteOrder) {bs : List UInt8} (h : bs.length = 1) : a.value bs = b.value bs := by
  obtain ⟨x, rfl⟩ := List.length_eq_one_iff.mp h
  cases a <;> cases b <;> rfl

theorem TableFixed.load_word (hf : Fixable slots e) {raw : List UInt8}
    (h : TableFixed host eiData slots e n raw mem) (hn : n * e ≤ raw.length) {i : Nat} (hi : i < n)
    {s : Slot} (hs : s ∈ slots) :
    loadAt host mem (i * e) s = .ok (word (fileOrder host eiData) raw (i * e) s) :=
  h.load hf hi hs hn

theorem TableFixed.load_byte (hf : Fixable slots e) {raw : List UInt8}
    (h : TableFixed host eiData slots e n raw mem) (hn : n * e ≤ raw.length) {i : Nat} (hi : i < n)
    {s : Slot} (hfit : s.off + s.width ≤ e) (hs : ∀ t ∈ slots, t.Apart s) (hone : s.width = 1) :
    loadAt host mem (i * e) s = .ok (word (fileOrder host eiData) raw (i * e) s) := by
  have hrow := row_le i n e hi
  have hcell : (cell raw (i * e + s.off) s.width).length = 1 := by
    rw [cell_length (by omega), hone]
  rw [h.load_apart hf hi hfit hs hn, word, value_byte host _ hcell]

theorem TableFixed.loaded (hf : Fixable slots e)
    (h : TableFixed host eiData slots e n (cell bytes pos size) mem) (hn : n * e ≤ size)
    (hin : pos + size ≤ bytes.length) {i : Nat} (hi : i < n) {s : Slot} (hs : s ∈ slots) :
    loadAt host mem (i * e) s = .ok (word (fileOrder host eiData) bytes (pos + i * e) s) := by
  have hlen : (cell bytes pos size).length = size := cell_length hin
  have hfit := hf.fits s hs
  have hrow := row_le i n e hi
  rw [h.load_word hf (by omega) hi hs, word, cell_cell (by omega), word, Nat.add_assoc]

end

theorem table_inside {pos e n len : Nat} (h : ∀ i < n, pos + i * e + e ≤ len) :
    pos + n * e ≤ len ∨ n * e = 0 := by
  cases n with
  | zero => exact .inr (Nat.zero_mul e)
  | succ n =>
    have hlast := h n (Nat.lt_succ_self n)
    rw [Nat.succ_mul]
    exact .inl (by omega)

section
variable {b : Source} {d : Description} {p : Places}

theorem size_le {l : Layout} (hl : l = elf32 ∨ l = elf64) : l.phdr.size ≤ 64 ∧ l.shdr.size ≤ 64 := by
  rcases hl with rfl | rfl <;> decide

theorem table_read {pos e n : Nat} {slots : List Slot} {buf : List UInt8} (hf : Fixable slots e)
    (he : e ≤ 64) (hn : n < 2 ^ 16) (hpos : pos < 2 ^ 32)
    (hin : ∀ i < n, pos + i * e + e ≤ b.bytes.length) (hbuf : buf.length = e * n) :
    ∃ raw mem, b.read pos (e * n) buf = .ok raw ∧ b.fixAll slots e n raw = .ok mem ∧
      ∀ i < n, ∀ s ∈ slots, loadAt b.host mem (i * e) s =
        .ok (word (fileOrder b.host b.eiData) b.bytes (pos + i * e) s) := by
  have hle : e * n ≤ 64 * n := Nat.mul_le_mul_right n he
  have hinside := table_inside hin
  rw [Nat.mul_comm n e] at hinside
  have hlen : (cell b.bytes pos (e * n)).length = e * n := by
    rcases hinside with h | h
    · exact cell_length h
    · rw [h, cell, List.take_zero]
      rfl
  have hrow : n * e ≤ (cell b.bytes pos (e * n)).length := by
    rw [hlen, Nat.mul_comm]
  obtain ⟨mem, hrun, hfixed⟩ : ∃ mem, b.fixAll slots e n (cell b.bytes pos (e * n)) = .ok mem ∧
      TableFixed b.host b.eiData slots e n (cell b.bytes pos (e * n)) mem := fixTable_fixed hf hrow
  refine ⟨_, mem, Source.read_cell hpos (by omega) hinside hbuf, hrun, fun i hi s hs => ?_⟩
  rw [Nat.mul_comm e n] at hfixed
  have hfit := row_le i n e hi
  have hlast := hin (n - 1) (by omega)
  have hend : (n - 1) * e + e = n * e := by
    rw [← Nat.succ_mul]
    congr 1
    omega
  exact hfixed.loaded hf (Nat.le_refl _) (by omega) hi hs

theorem Depicted.header_inside (h : Depicted b d p) {i : Nat} (hi : i < b.h.phnum) :
    p.headers + i * b.layout.phdr.size + b.layout.phdr.size ≤ b.bytes.length := by
  rw [h.phnum] at hi
  exact (h.encodes.headers i _ (List.getElem?_eq_getElem hi)).inside

theorem Depicted.headerTable (h : Depicted b d p) : ∃ mem, b.headerTable = .ok mem ∧
    ∀ i x, d.headers[i]? = some x → ∃ y,
      readPhdr b.host b.layout.phdr mem (i * b.layout.phdr.size) = .ok y ∧ y.header = x := by
  have hsize := (size_le h.layout).1
  have hcount : b.h.phnum < 2 ^ 16 := by
    rw [h.phnum]
    exact d.headers_lt
  have hproduct : product b.h.phentsize b.h.phnum = .ok (b.layout.phdr.size * b.h.phnum) := by
    rw [h.phentsize]
    exact product_small hsize hcount
  have hfresh : (b.fresh (b.layout.phdr.size * b.h.phnum)).length =
      b.layout.phdr.size * b.h.phnum := by
    rw [Source.fresh, List.length_map, List.length_range]
  obtain ⟨raw, mem, hraw, hmem, hload⟩ := table_read (phdr_fixable h.layout) hsize hcount
    p.headers_lt (fun i hi => h.header_inside hi) hfresh
  refine ⟨mem, ?_, fun i x hx => ?_⟩
  · rw [Source.headerTable, hproduct, Res.ok_bind, h.phoff, hraw, Res.ok_bind, h.phentsize, hmem]
  · have hi : i < b.h.phnum := by
      rw [h.phnum]
      exact (List.getElem?_eq_some_iff.mp hx).1
    have hat := h.encodes.headers i x hx
    refine ⟨_, readPhdr_loads (hload i hi), ?_⟩
    rw [Phdr.header, hat.type, hat.flags, hat.vaddr, hat.paddr, hat.memsz, hat.filesz, hat.align]

theorem Depicted.section_inside (h : Depicted b d p) {i : Nat} (hi : i < b.h.shnum) :
    p.sections + i * b.layout.shdr.size + b.layout.shdr.size ≤ b.bytes.length := by
  rw [h.shnum] at hi
  exact (h.encodes.sections i _ (List.getElem?_eq_getElem hi)).inside

def SectionDesc.header (s : SectionDesc) (l : Layout) (offset : Nat) : Shdr where
  name := s.name
  type := s.type
  flags := s.flags
  addr := s.addr
  offset := offset
  size := s.body.size l
  link := s.link
  info := s.info
  addralign := s.addralign
  entsize := s.body.entsize l

theorem Depicted.sectionTable (h : Depicted b d p) : ∃ mem, b.sectionTable = .ok mem ∧
    ∀ i s, d.sections[i]? = some s →
      readShdr b.host b.layout.shdr mem (i * b.layout.shdr.size) =
        .ok (s.header b.layout (p.content i)) := by
  have hsize := (size_le h.layout).2
  have hcount : b.h.shnum < 2 ^ 16 := by
    rw [h.shnum]
    exact d.sections_lt
  have hproduct : product b.h.shentsize b.h.shnum = .ok (b.layout.shdr.size * b.h.shnum) := by
    rw [h.shentsize]
    exact product_small hsize hcount
  obtain ⟨raw, mem, hraw, hmem, hload⟩ := table_read (shdr_fixable h.layout) hsize hcount
    p.sections_lt (fun i hi => h.section_inside hi) List.length_replicate
  refine ⟨mem, ?_, fun i s hs => ?_⟩
  · rw [Source.sectionTable, hproduct, Res.ok_bind, h.shoff, hraw, Res.ok_bind, h.shentsize, hmem]
  · have hi : i < b.h.shnum := by
      rw [h.shnum]
      exact (List.getElem?_eq_some_iff.mp hs).1
    have hat := h.encodes.sections i s hs
    rw [readShdr_loads (hload i hi), hat.name, hat.type, hat.flags, hat.addr, hat.offset, hat.size,
      hat.link, hat.info, hat.addralign, hat.entsize]
    rfl

theorem Depicted.shdr (h : Depicted b d p) {i : Nat} {s : SectionDesc}
    (hs : d.sections[i]? = some s) :
    b.shdr (i * b.layout.shdr.size) = .ok (s.header b.layout (p.content i)) := by
  obtain ⟨mem, hmem, hread⟩ := h.sectionTable
  rw [Source.shdr, hmem, Res.ok_bind, hread i s hs]

end

end Gelpp.Elf

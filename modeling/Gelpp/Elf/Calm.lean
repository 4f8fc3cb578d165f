import Gelpp.Elf.Content
import Gelpp.Library.Twin

namespace Gelpp.Elf

open FileM Effect

structure Source where
  layout : Layout
  host : ByteOrder
  path : String
  bytes : List UInt8
  message : String
  junk : Nat → UInt8
  h : Ehdr

def File.source (f : File) : Source where
  layout := f.layout
  host := f.host
  path := f.path
  bytes := f.stream.bytes
  message := f.stream.lastErrorMessage
  junk := f.junk
  h := f.h

def File.Calm (f : File) : Prop := f.stream.fails = fun _ => false

namespace Source

variable (b : Source)

def eiData : UInt8 := b.h.ident.getD 5 0

def fresh (n : Nat) : List UInt8 := (List.range n).map b.junk

def read (pos size : Nat) (buf : List UInt8) : Res (List UInt8) :=
  let data := (b.bytes.drop (pos % 2 ^ 32)).take (size % 2 ^ 32)
  if buf.length < data.length then .error (.fault .bounds)
  else if data.length ≠ size % 2 ^ 32 then
    .error (.exception ("cannot read " ++ toString (size % 2 ^ 32) ++ " bytes from " ++ b.path ++
      ": " ++ b.message))
  else .ok (data ++ buf.drop data.length)

def readAll (pos size : Nat) : Res (List UInt8) :=
  if size < 2 ^ 63 then b.read pos size (b.fresh size) else .error .badAlloc

def fixAll (slots : List Slot) (entsize count : Nat) (mem : List UInt8) : Res (List UInt8) :=
  fixTable b.host b.eiData slots entsize count mem

def sectionTable : Res (List UInt8) := do
  let size ← product b.h.shentsize b.h.shnum
  let buf ← b.read b.h.shoff size (.replicate size 0)
  b.fixAll b.layout.shdr.fixes b.h.shentsize b.h.shnum buf

def sectionPtrs : List Nat := (List.range b.h.shnum).map fun i => i * b.h.shentsize

def shdr (ptr : Nat) : Res Shdr := do
  let mem ← b.sectionTable
  readShdr b.host b.layout.shdr mem ptr

def Delivers (ptr : Nat) (buf : List UInt8) : Prop :=
  ∃ s raw, b.shdr ptr = .ok s ∧ b.readAll s.offset s.size = .ok raw ∧
    if s.type = shtSymtab ∨ s.type = shtDynsym then
      s.entsize ≠ 0 ∧ s.size / s.entsize * s.entsize = s.size ∧
        b.fixAll b.layout.sym.fixes s.entsize (s.size / s.entsize) raw = .ok buf
    else raw = buf

variable {b}

theorem Delivers.unique {ptr : Nat} {buf buf' : List UInt8} (h : b.Delivers ptr buf)
    (h' : b.Delivers ptr buf') : buf = buf' := by
  obtain ⟨s, raw, hs, hraw, hbuf⟩ := h
  obtain ⟨s', raw', hs', hraw', hbuf'⟩ := h'
  rw [hs] at hs'
  cases hs'
  rw [hraw] at hraw'
  cases hraw'
  split at hbuf
  · next ht =>
    rw [if_pos ht] at hbuf'
    have heq := hbuf.2.2
    rw [hbuf'.2.2] at heq
    cases heq
    rfl
  · next ht =>
    rw [if_neg ht] at hbuf'
    exact hbuf.symm.trans hbuf'

end Source

section
variable {E : Tables → Tables → Prop} {b : Source} {f g : File}

theorem readAt_source (hserves : Serves f) (pos size : Nat) (buf : List UInt8) :
    (readAt pos size buf).run f = (f.source.read pos size buf, consulted f pos size) := by
  have hread : f.source.read pos size buf =
      if buf.length < (streamBytes f pos size).length then .error (.fault .bounds)
      else if (streamBytes f pos size).length ≠ size % 2 ^ 32 then
        .error (.exception (cannotRead f (size % 2 ^ 32)))
      else .ok (streamBytes f pos size ++ buf.drop (streamBytes f pos size).length) := rfl
  rw [readAt_served hserves, hread]
  split_ifs <;> rfl

theorem File.Calm.serves (hc : f.Calm) : Serves f := by
  rw [File.Calm] at hc
  rw [Serves, hc]
  exact ⟨rfl, rfl⟩

theorem readAt_calm (hc : f.Calm) (pos size : Nat) (buf : List UInt8) :
    (readAt pos size buf).run f = (f.source.read pos size buf, consulted f pos size) :=
  readAt_source hc.serves pos size buf

theorem readAll_calm (hc : f.Calm) (pos size : Nat) :
    ∃ k, (readAll pos size).run f = (f.source.readAll pos size, ticked f k) := by
  rw [readAll]
  by_cases h : size < 2 ^ 63
  · refine ⟨asks pos size, ?_⟩
    rw [bind_of_ok ((alloc_run f size).trans (if_pos h)), readAt_calm hc, Source.readAll, if_pos h]
    rfl
  · refine ⟨[], ?_⟩
    rw [bind_of_error ((alloc_run f size).trans (if_neg h)), Source.readAll, if_neg h, ticked_nil]

def File.loaded (f : File) (buf : List UInt8) : File :=
  { f with secBuf := buf, sects := f.source.sectionPtrs.map fun ptr => { ptr } }

theorem product_lt {m n size : Nat} (h : product m n = .ok size) : size < 2 ^ 31 := by
  unfold product at h
  split at h
  · next hlt =>
    cases h
    exact hlt
  · cases h

theorem loadSections_ok (hs : Serves f) {buf : List UInt8} (h : f.source.sectionTable = .ok buf) :
    ∃ k, loadSections.run f = (.ok (), (ticked f k).loaded buf) := by
  obtain ⟨size, hp, h⟩ := Res.bind_ok.mp h
  obtain ⟨raw, hr, h⟩ := Res.bind_ok.mp h
  have hlt := product_lt hp
  have hread := readAt_source hs f.h.shoff size (.replicate size 0)
  refine ⟨asks f.h.shoff size, ?_⟩
  rw [loadSections, get_bind]
  rw [show product f.h.shentsize f.h.shnum = .ok size from hp, lift_ok_bind,
    bind_of_ok ((alloc_run f size).trans (if_pos (by omega))),
    bind_of_ok (hread.trans (Prod.ext hr rfl))]
  rw [show fixTable f.host f.eiData f.layout.shdr.fixes f.h.shentsize f.h.shnum raw = .ok buf from h,
    lift_ok_bind, modify_run]
  simp only [File.loaded, Source.sectionPtrs, List.map_map]
  rfl

theorem loadSections_error (hs : Serves f) {e : Stop} (h : f.source.sectionTable = .error e) :
    ∃ k, loadSections.run f = (.error e, ticked f k) := by
  rw [loadSections, get_bind]
  rcases Res.bind_error.mp h with hp | ⟨size, hp, h⟩
  · rw [show product f.h.shentsize f.h.shnum = .error e from hp]
    exact ⟨[], by rw [ticked_nil]; rfl⟩
  · have hlt := product_lt hp
    have hread := readAt_source hs f.h.shoff size (.replicate size 0)
    refine ⟨asks f.h.shoff size, ?_⟩
    rw [show product f.h.shentsize f.h.shnum = .ok size from hp, lift_ok_bind,
      bind_of_ok ((alloc_run f size).trans (if_pos (by omega)))]
    rcases Res.bind_error.mp h with hr | ⟨raw, hr, h⟩
    · exact bind_of_error (hread.trans (Prod.ext hr rfl))
    · rw [bind_of_ok (hread.trans (Prod.ext hr rfl))]
      rw [show fixTable f.host f.eiData f.layout.shdr.fixes f.h.shentsize f.h.shnum raw =
        .error e from h]
      rfl

end

theorem loadSections_unserved {f : File} (hs : ¬ Serves f) :
    ∃ e k, loadSections.run f = (.error e, ticked f k) := by
  rw [loadSections, get_bind]
  cases hp : product f.h.shentsize f.h.shnum with
  | error e => exact ⟨e, [], by rw [ticked_nil]; rfl⟩
  | ok size =>
    have hlt := product_lt hp
    obtain ⟨m, hk⟩ := readAt_unserved hs f.h.shoff size (.replicate size 0)
    refine ⟨.exception m, reached f f.h.shoff size, ?_⟩
    rw [lift_ok_bind, bind_of_ok ((alloc_run f size).trans (if_pos (by omega)))]
    exact bind_of_error hk

def Loaded (b : Source) (f : File) : Prop :=
  b.sectionTable = .ok f.secBuf ∧ f.sects.map Section.ptr = b.sectionPtrs ∧
    ∀ s ∈ f.sects, ∀ buf, s.buf = some buf → b.Delivers s.ptr buf

structure Coherent (b : Source) (f : File) : Prop where
  source : f.source = b
  loaded : f.sectsLoaded = true → Loaded b f

abbrev Tables :=
  Bool × Option (List UInt8) × List ProgramHeader × Option SymbolTable × List Segment × Bool

def File.tables (f : File) : Tables :=
  (f.phLoaded, f.phBuf, f.phs, f.syms, f.segs, f.segsInit)

-- `E` is what is known about the other tables of the two files.
structure Agree (E : Tables → Tables → Prop) (b : Source) (f g : File) : Prop where
  left : Coherent b f
  right : Coherent b g
  tables : E f.tables g.tables

structure Alike (E : Tables → Tables → Prop) (b : Source) (f g : File) : Prop extends Agree E b f g where
  leftCalm : f.Calm
  rightCalm : g.Calm

structure Loads (E : Tables → Tables → Prop) (b : Source) (f g : File) : Prop extends Alike E b f g where
  leftLoaded : f.sectsLoaded = true
  rightLoaded : g.sectsLoaded = true

section
variable {E : Tables → Tables → Prop} {b : Source} {f g : File}

theorem Coherent.ticked (h : Coherent b f) (k : List Asked) : Coherent b (ticked f k) := ⟨h.source, h.loaded⟩

theorem Alike.ticked (h : Alike E b f g) (j k : List Asked) : Alike E b (ticked f j) (ticked g k) :=
  ⟨⟨h.left.ticked j, h.right.ticked k, h.tables⟩, h.leftCalm, h.rightCalm⟩

theorem Loads.ticked (h : Loads E b f g) (j k : List Asked) : Loads E b (ticked f j) (ticked g k) :=
  ⟨h.toAlike.ticked j k, h.leftLoaded, h.rightLoaded⟩

theorem Coherent.of_table (h : Coherent b f) {buf : List UInt8} (hb : b.sectionTable = .ok buf)
    (k : List Asked) : Coherent b { (Elf.ticked f k).loaded buf with sectsLoaded := true } := by
  refine ⟨h.source, fun _ => ⟨hb, ?_, ?_⟩⟩
  · have hsource : (Elf.ticked f k).source = b := h.source
    simp only [File.loaded, hsource, List.map_map]
    exact List.map_id _
  · intro s hs buf' hbuf'
    obtain ⟨ptr, -, rfl⟩ := List.mem_map.mp hs
    cases hbuf'

theorem initSections_calm (h : Coherent b f) (hc : f.Calm) :
    (∀ buf, b.sectionTable = .ok buf → ∃ f', initSections.run f = (.ok (), f') ∧ Coherent b f' ∧
      f'.Calm ∧ f'.tables = f.tables ∧ f'.sectsLoaded = true) ∧
    (∀ e, b.sectionTable = .error e → ∃ f', initSections.run f = (.error e, f') ∧ Coherent b f' ∧
      f'.Calm ∧ f'.tables = f.tables) := by
  cases hl : f.sectsLoaded with
  | true =>
    have hrun : initSections.run f = (.ok (), f) := by
      rw [initSections, get_bind, hl]
      rfl
    obtain ⟨htable, -⟩ := h.loaded hl
    refine ⟨fun buf _ => ⟨f, hrun, h, hc, rfl, hl⟩, fun e he => ?_⟩
    rw [htable] at he
    cases he
  | false =>
    rw [initSections, get_bind, hl]
    refine ⟨fun buf hbuf => ?_, fun e he => ?_⟩
    · obtain ⟨k, hk⟩ := loadSections_ok hc.serves (h.source ▸ hbuf)
      exact ⟨_, bind_of_ok hk, h.of_table hbuf k, hc, rfl, rfl⟩
    · obtain ⟨k, hk⟩ := loadSections_error hc.serves (h.source ▸ he)
      exact ⟨_, bind_of_error hk, h.ticked k, hc, rfl⟩

theorem initSections_twin (h : Alike E b f g) :
    Twin (Alike E b) (fun _ => Loads E b) (initSections.run f) (initSections.run g) := by
  obtain ⟨hf, hf'⟩ := initSections_calm h.left h.leftCalm
  obtain ⟨hg, hg'⟩ := initSections_calm h.right h.rightCalm
  cases htable : b.sectionTable with
  | ok buf =>
    obtain ⟨f', hrunf, hcf, hkf, htf, hlf⟩ := hf buf htable
    obtain ⟨g', hrung, hcg, hkg, htg, hlg⟩ := hg buf htable
    rw [hrunf, hrung]
    exact .ok ⟨⟨⟨hcf, hcg, by rw [htf, htg]; exact h.tables⟩, hkf, hkg⟩, hlf, hlg⟩
  | error e =>
    obtain ⟨f', hrunf, hcf, hkf, htf⟩ := hf' e htable
    obtain ⟨g', hrung, hcg, hkg, htg⟩ := hg' e htable
    rw [hrunf, hrung]
    exact .error ⟨⟨hcf, hcg, by rw [htf, htg]; exact h.tables⟩, hkf, hkg⟩

theorem readAll_twin (h : Loads E b f g) (pos size : Nat) :
    Twin (Loads E b) (fun raw f' g' => Loads E b f' g' ∧ b.readAll pos size = .ok raw)
      ((readAll pos size).run f) ((readAll pos size).run g) := by
  obtain ⟨j, hf⟩ := readAll_calm h.leftCalm pos size
  obtain ⟨k, hg⟩ := readAll_calm h.rightCalm pos size
  rw [h.left.source] at hf
  rw [h.right.source] at hg
  rw [hf, hg]
  cases hr : b.readAll pos size with
  | ok raw => exact .ok ⟨h.ticked j k, rfl⟩
  | error e => exact .error (h.ticked j k)

theorem at_some {α : Type} {l : List α} {i : Int} {a : α} (h0 : 0 ≤ i) (h : l[i.toNat]? = some a)
    (f : File) : (at_ l i).run f = (.ok a, f) := by
  rw [at_, if_pos h0, h]
  rfl

theorem at_none {α : Type} {l : List α} {i : Int} (h : 0 ≤ i → l[i.toNat]? = none) (f : File) :
    (at_ l i).run f = (.error (.fault .index), f) := by
  rw [at_]
  split
  · next h0 =>
    rw [h h0]
    rfl
  · rfl

theorem Coherent.shdr (h : Coherent b f) (hl : f.sectsLoaded = true) (ptr : Nat) :
    f.shdr ptr = b.shdr ptr := by
  obtain ⟨htable, -⟩ := h.loaded hl
  rw [Source.shdr, htable, ← h.source]
  rfl

theorem Coherent.ptrs (h : Coherent b f) (hl : f.sectsLoaded = true) :
    f.sects.map Section.ptr = b.sectionPtrs := (h.loaded hl).2.1

theorem Coherent.store (h : Coherent b f) {i ptr : Nat} {buf : List UInt8}
    (hptr : b.sectionPtrs[i]? = some ptr) (hd : b.Delivers ptr buf) :
    Coherent b { f with sects := f.sects.set i { ptr, buf := some buf } } := by
  refine ⟨h.source, fun hl => ?_⟩
  obtain ⟨htable, hptrs, hbufs⟩ := h.loaded hl
  refine ⟨htable, ?_, fun s hs buf' hbuf' => ?_⟩
  · obtain ⟨hlt, hget⟩ := List.getElem?_eq_some_iff.mp hptr
    rw [List.map_set, hptrs]
    change b.sectionPtrs.set i ptr = b.sectionPtrs
    rw [← hget, List.set_getElem_self]
  · rcases List.mem_or_eq_of_mem_set hs with hs | rfl
    · exact hbufs s hs buf' hbuf'
    · cases hbuf'
      exact hd

theorem Loads.store (h : Loads E b f g) {i ptr : Nat} {buf : List UInt8}
    (hptr : b.sectionPtrs[i]? = some ptr) (hd : b.Delivers ptr buf) :
    Loads E b { f with sects := f.sects.set i { ptr, buf := some buf } }
      { g with sects := g.sects.set i { ptr, buf := some buf } } :=
  ⟨⟨⟨h.left.store hptr hd, h.right.store hptr hd, h.tables⟩, h.leftCalm, h.rightCalm⟩,
    h.leftLoaded, h.rightLoaded⟩

theorem Loads.storeLeft (h : Loads E b f g) {i ptr : Nat} {buf : List UInt8}
    (hptr : b.sectionPtrs[i]? = some ptr) (hd : b.Delivers ptr buf) :
    Loads E b { f with sects := f.sects.set i { ptr, buf := some buf } } g :=
  ⟨⟨⟨h.left.store hptr hd, h.right, h.tables⟩, h.leftCalm, h.rightCalm⟩, h.leftLoaded,
    h.rightLoaded⟩

theorem Loads.storeRight (h : Loads E b f g) {i ptr : Nat} {buf : List UInt8}
    (hptr : b.sectionPtrs[i]? = some ptr) (hd : b.Delivers ptr buf) :
    Loads E b f { g with sects := g.sects.set i { ptr, buf := some buf } } :=
  ⟨⟨⟨h.left, h.right.store hptr hd, h.tables⟩, h.leftCalm, h.rightCalm⟩, h.leftLoaded,
    h.rightLoaded⟩

def Named (E : Tables → Tables → Prop) (b : Source) (name : FileM (List UInt8)) : Prop :=
  ∀ f g, Loads E b f g → Twin (Loads E b) (fun _ => Loads E b) (name.run f) (name.run g)

structure Whole (s : Shdr) (count : Nat) : Prop where
  entsize : s.entsize ≠ 0
  size : s.size / s.entsize * s.entsize = s.size
  count : count = s.size / s.entsize

theorem entries_twin (h : Loads E b f g) {name : FileM (List UInt8)} (hname : Named E b name)
    (s : Shdr) : Twin (Loads E b) (fun count f' g' => Loads E b f' g' ∧ Whole s count)
      ((entries name s).run f) ((entries name s).run g) := by
  unfold entries
  refine Twin.ite (fun _ => .error h) fun h0 => ?_
  refine Twin.ite (fun _ => ?_) fun hw => .ok ⟨h, h0, not_not.mp hw, rfl⟩
  exact Twin.bind (hname f g h) fun _ _ _ h' => .error h'

theorem readSection_twin (h : Loads E b f g) {name : FileM (List UInt8)} (hname : Named E b name)
    {ptr : Nat} {s : Shdr} (hs : b.shdr ptr = .ok s) :
    Twin (Loads E b) (fun buf f' g' => Loads E b f' g' ∧ b.Delivers ptr buf)
      ((readSection name s).run f) ((readSection name s).run g) := by
  refine Twin.bind (readAll_twin h s.offset s.size) fun raw f' g' ⟨h', hraw⟩ => ?_
  refine Twin.ite (fun ht => ?_) fun ht => .ok ⟨h', s, raw, hs, hraw, by rw [if_neg ht]⟩
  refine Twin.bind (entries_twin h' hname s) fun count f'' g'' ⟨h'', hw⟩ => ?_
  rw [get_bind, get_bind]
  have hf : fixTable f''.host f''.eiData f''.layout.sym.fixes s.entsize count raw =
      b.fixAll b.layout.sym.fixes s.entsize count raw := by
    rw [← h''.left.source]
    rfl
  have hg : fixTable g''.host g''.eiData g''.layout.sym.fixes s.entsize count raw =
      b.fixAll b.layout.sym.fixes s.entsize count raw := by
    rw [← h''.right.source]
    rfl
  rw [hf, hg]
  refine Twin.lift (fun buf hbuf => ⟨h'', s, raw, hs, hraw, ?_⟩) h''
  rw [if_pos ht]
  exact ⟨hw.entsize, hw.size, hw.count ▸ hbuf⟩

theorem readSection_delivers (h : Coherent b f) (hc : f.Calm) (name : FileM (List UInt8))
    {ptr : Nat} {s : Shdr} {buf : List UInt8} (hs : b.shdr ptr = .ok s) (hd : b.Delivers ptr buf) :
    ∃ k, (readSection name s).run f = (.ok buf, ticked f k) := by
  obtain ⟨s', raw, hs', hraw, hbuf⟩ := hd
  rw [hs] at hs'
  cases hs'
  obtain ⟨k, hk⟩ := readAll_calm hc s.offset s.size
  rw [h.source, hraw] at hk
  refine ⟨k, ?_⟩
  rw [readSection, bind_of_ok hk]
  split at hbuf
  · next ht =>
    obtain ⟨h0, hw, hfix⟩ := hbuf
    have hent : (entries name s).run (ticked f k) = (.ok (s.size / s.entsize), ticked f k) := by
      rw [entries, if_neg h0, if_neg (not_not_intro hw)]
      rfl
    have hrun : fixTable f.host f.eiData f.layout.sym.fixes s.entsize (s.size / s.entsize) raw =
        .ok buf := by
      rw [← hfix, ← h.source]
      rfl
    rw [if_pos ht, bind_of_ok hent, get_bind]
    exact congrArg (·, ticked f k) hrun
  · next ht =>
    rw [if_neg ht, hbuf]
    rfl

theorem ptr_of_sects (h : Coherent b f) (hl : f.sectsLoaded = true) {i : Nat} {s : Section}
    (hs : f.sects[i]? = some s) : b.sectionPtrs[i]? = some s.ptr := by
  rw [← h.ptrs hl, List.getElem?_map, hs]
  rfl

def fillContent (n : Nat) (i : Int) (s : Section) : FileM (List UInt8) := do
  let f ← get
  let h ← lift (f.shdr s.ptr)
  let buf ← readSection (stringIn (contentFor n) h.name f.h.shstrndx) h
  modify fun f => { f with sects := f.sects.set i.toNat { s with buf := some buf } }
  return buf

theorem contentFor_run {n : Nat} {i : Int} {s : Section} (h0 : 0 ≤ i)
    (hs : f.sects[i.toNat]? = some s) : (contentFor (n + 1) i).run f =
      match s.buf with
      | some buf => (.ok buf, f)
      | none => (fillContent n i s).run f := by
  rw [contentFor, get_bind, bind_of_ok (at_some h0 hs f)]
  cases s.buf <;> rfl

theorem fillContent_delivers (h : Coherent b f) (hc : f.Calm) (hl : f.sectsLoaded = true) {n : Nat}
    {i : Int} {s : Section} {buf : List UInt8} (hd : b.Delivers s.ptr buf) :
    ∃ k, (fillContent n i s).run f = (.ok buf, { ticked f k with
      sects := f.sects.set i.toNat { ptr := s.ptr, buf := some buf } }) := by
  have hd' := hd
  obtain ⟨sh, raw, hs, -⟩ := hd'
  obtain ⟨k, hk⟩ := readSection_delivers h hc (stringIn (contentFor n) sh.name f.h.shstrndx) hs hd
  refine ⟨k, ?_⟩
  rw [fillContent, get_bind, h.shdr hl, hs, lift_ok_bind, bind_of_ok hk, modify_bind]
  rfl

theorem sections_bind {α : Type} (k : List Section → FileM α) :
    (sections >>= k).run f = (initSections >>= fun _ => get >>= fun f => k f.sects).run f := by
  rw [sections]
  cases h : initSections.run f with
  | mk r f' =>
    cases r with
    | ok u => rw [bind_of_ok (m := initSections >>= _) (bind_of_ok h), bind_of_ok h, get_bind]
    | error e => rw [bind_of_error (m := initSections >>= _) (bind_of_error h), bind_of_error h]

theorem sections_twin {α : Type} {P : α → File → File → Prop} {k l : List Section → FileM α}
    (h : Alike E b f g) (hk : ∀ f' g', Loads E b f' g' →
      Twin (Alike E b) P ((k f'.sects).run f') ((l g'.sects).run g')) :
    Twin (Alike E b) P ((sections >>= k).run f) ((sections >>= l).run g) := by
  rw [sections_bind, sections_bind]
  refine Twin.bind (initSections_twin h) fun _ f' g' h' => ?_
  rw [get_bind, get_bind]
  exact hk f' g' h'

theorem sections_loaded {α : Type} (k : List Section → FileM α) (hl : f.sectsLoaded = true) :
    (sections >>= k).run f = (k f.sects).run f := by
  have hinit : initSections.run f = (.ok (), f) := by
    rw [initSections, get_bind, hl]
    rfl
  rw [sections_bind, bind_of_ok hinit, get_bind]

theorem Loads.length (h : Loads E b f g) : f.sects.length = g.sects.length := by
  rw [← List.length_map Section.ptr, h.left.ptrs h.leftLoaded, ← h.right.ptrs h.rightLoaded,
    List.length_map]

theorem stringIn_twin {content : Int → FileM (List UInt8)} (hcontent : ∀ i, Named E b (content i))
    (offset : Nat) (sect : Int) : Named E b (stringIn content offset sect) := by
  intro f g h
  rw [stringIn, sections_loaded _ h.leftLoaded, sections_loaded _ h.rightLoaded, h.length]
  refine Twin.ite (fun _ => .error h) fun _ => ?_
  refine Twin.bind (hcontent sect f g h) fun buf f' g' h' => ?_
  exact Twin.lift (fun _ _ => h') h'

theorem fillContent_twin {n : Nat} (hn : ∀ i, Named E b (contentFor n i)) {i : Int} {s t : Section}
    (h : Loads E b f g) (hs : b.sectionPtrs[i.toNat]? = some s.ptr) (ht : t.ptr = s.ptr) :
    Twin (Loads E b) (fun _ => Loads E b) ((fillContent n i s).run f) ((fillContent n i t).run g) := by
  rw [fillContent, fillContent, get_bind, get_bind, h.left.shdr h.leftLoaded,
    h.right.shdr h.rightLoaded, ht]
  have hidx : f.h.shstrndx = g.h.shstrndx := by
    have hsource := h.left.source.trans h.right.source.symm
    exact congrArg (fun b => b.h.shstrndx) hsource
  refine Twin.bind (Twin.lift (Q := fun a f' g' => Loads E b f' g' ∧ b.shdr s.ptr = .ok a)
    (fun a ha => ⟨h, ha⟩) h) fun sh f' g' ⟨h', hsh⟩ => ?_
  rw [hidx]
  refine Twin.bind (readSection_twin h' (stringIn_twin hn _ _) hsh)
    fun buf f'' g'' ⟨h'', hd⟩ => ?_
  rw [modify_bind, modify_bind]
  exact .ok (h''.store hs hd)

theorem Loads.at_cases (h : Loads E b f g) (i : Int) :
    (∃ s t, 0 ≤ i ∧ f.sects[i.toNat]? = some s ∧ g.sects[i.toNat]? = some t ∧ t.ptr = s.ptr) ∨
    (∀ f', (at_ f.sects i).run f' = (.error (.fault .index), f')) ∧
      ∀ g', (at_ g.sects i).run g' = (.error (.fault .index), g') := by
  by_cases hin : 0 ≤ i ∧ i.toNat < f.sects.length
  · left
    obtain ⟨h0, hlt⟩ := hin
    obtain ⟨s, hs⟩ : ∃ s, f.sects[i.toNat]? = some s := ⟨_, List.getElem?_eq_getElem hlt⟩
    obtain ⟨t, ht⟩ : ∃ t, g.sects[i.toNat]? = some t :=
      ⟨_, List.getElem?_eq_getElem (h.length ▸ hlt)⟩
    have hsp := ptr_of_sects h.left h.leftLoaded hs
    have htp := ptr_of_sects h.right h.rightLoaded ht
    rw [hsp] at htp
    exact ⟨s, t, h0, hs, ht, (Option.some.inj htp).symm⟩
  · right
    have hf : 0 ≤ i → f.sects[i.toNat]? = none := fun h0 =>
      List.getElem?_eq_none (by omega)
    have hg : 0 ≤ i → g.sects[i.toNat]? = none := fun h0 =>
      List.getElem?_eq_none (by rw [← h.length]; omega)
    exact ⟨at_none hf, at_none hg⟩

theorem contentFor_twin (n : Nat) (i : Int) : Named E b (contentFor n i) := by
  induction n generalizing i with
  | zero => exact fun f g h => .error h
  | succ n ih =>
    intro f g h
    rcases h.at_cases i with ⟨s, t, h0, hs, ht, hptr⟩ | ⟨hf, hg⟩
    · have hsp := ptr_of_sects h.left h.leftLoaded hs
      obtain ⟨-, -, hbufs⟩ := h.left.loaded h.leftLoaded
      obtain ⟨-, -, hbuft⟩ := h.right.loaded h.rightLoaded
      rw [contentFor_run h0 hs, contentFor_run h0 ht]
      cases hsb : s.buf with
      | some buf =>
        have hd := hbufs s (List.mem_of_getElem? hs) buf hsb
        cases htb : t.buf with
        | some buf' =>
          have hd' := hbuft t (List.mem_of_getElem? ht) buf' htb
          rw [hptr] at hd'
          obtain rfl := hd.unique hd'
          exact .ok h
        | none =>
          obtain ⟨k, hk⟩ := fillContent_delivers (n := n) (i := i) (s := t) h.right h.rightCalm
            h.rightLoaded (hptr ▸ hd)
          dsimp only
          rw [hk, hptr]
          have hticked : Loads E b f (ticked g k) := ticked_nil (f := f) ▸ h.ticked [] k
          exact .ok (hticked.storeRight hsp hd)
      | none =>
        cases htb : t.buf with
        | some buf =>
          have hd := hbuft t (List.mem_of_getElem? ht) buf htb
          rw [hptr] at hd
          obtain ⟨k, hk⟩ := fillContent_delivers (n := n) (i := i) (s := s) h.left h.leftCalm
            h.leftLoaded hd
          dsimp only
          rw [hk]
          have hticked : Loads E b (ticked f k) g := ticked_nil (f := g) ▸ h.ticked k []
          exact .ok (hticked.storeLeft hsp hd)
        | none => exact fillContent_twin ih h hsp hptr
    · rw [contentFor, get_bind, get_bind, bind_of_error (hf f), bind_of_error (hg g)]
      exact .error h

theorem name_twin (s : Shdr) : Named E b (name s) := by
  intro f g h
  have hidx : f.h.shstrndx = g.h.shstrndx := by
    have hsource := h.left.source.trans h.right.source.symm
    exact congrArg (fun b => b.h.shstrndx) hsource
  rw [name, get_bind, get_bind, hidx]
  exact stringIn_twin (contentFor_twin 2) _ _ f g h

end

end Gelpp.Elf

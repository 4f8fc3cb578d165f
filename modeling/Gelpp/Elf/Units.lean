import Gelpp.Elf.Builders

theorem List.Forall₂.partner {α β : Type} {R : α → β → Prop} {l : List α} {m : List β}
    (h : List.Forall₂ R l m) {b : β} (hb : b ∈ m) : ∃ a ∈ l, R a b := by
  induction h with
  | nil => cases hb
  | cons hab _ ih =>
    rcases List.mem_cons.mp hb with rfl | hb
    · exact ⟨_, List.mem_cons_self .., hab⟩
    · obtain ⟨a, ha, hr⟩ := ih hb
      exact ⟨a, List.mem_cons_of_mem _ ha, hr⟩

namespace Gelpp.Elf

open FileM Effect

def File.Sized (f : File) : Prop :=
  ∀ h ∈ f.phs, ∀ buf, h.buf = some buf → ∀ p, f.phdr h.ptr = .ok p → buf.length = p.memsz

structure UnixUnit where
  file : File
  sized : file.Sized

namespace UnixBuilder

section
variable (roundup : UInt64 → UInt64 → UInt64) (pageSize : UInt64)

def loadNext (x : Gelpp.Image × UInt64) (u : UnixUnit) : Res (Gelpp.Image × UInt64) := do
  let (im, top) ← ((load x.2.toUInt32 x.1).run u.file).1
  return (im, roundup top.toUInt64 pageSize)

def loadUnits (units : List UnixUnit) : Res (Gelpp.Image × UInt64) :=
  units.foldlM (loadNext roundup pageSize) ({}, 0)

end

-- elm::roundup gives the least multiple when it is a value of the type.
def RoundsUp (roundup : UInt64 → UInt64 → UInt64) : Prop :=
  ∀ v m : UInt64, m ≠ 0 → ∀ r, IsLeast {k | m.toNat ∣ k ∧ v.toNat ≤ k} r → r < 2 ^ 64 →
    (roundup v m).toNat = r

end UnixBuilder

def headersOf (f : File) : Res (List Phdr) := f.phs.mapM fun h => f.phdr h.ptr

def FileM.unitHeaders : FileM (List Phdr) := do
  let _ ← programHeaders
  let f ← get
  lift (headersOf f)

def loadsOf (hs : List Phdr) : List Phdr := hs.filter fun p => p.type == ptLoad

def endAt (base : Nat) (hs : List Phdr) : Nat :=
  (loadsOf hs).foldl (fun top p => max top (base + p.vaddr + p.memsz)) base

def Apart (s t : ImageSegment) : Prop :=
  s.base.toNat + s.size ≤ t.base.toNat ∨ t.base.toNat + t.size ≤ s.base.toNat

structure UnitPlaced (base : Nat) (hs : List Phdr) (top : Nat) (im im' : Gelpp.Image)
    (added : List ImageSegment) : Prop where
  segs : im'.segs = im.segs ++ added
  based : List.Forall₂ (fun p s => s.base.toNat = base + p.vaddr ∧ s.size = p.memsz)
    (loadsOf hs) added
  above : ∀ p ∈ loadsOf hs, base + p.vaddr + p.memsz ≤ top
  apart : ∀ s ∈ added, ∀ t ∈ im.segs, Apart s t

theorem UnitPlaced.ends {base top : Nat} {hs : List Phdr} {im im' : Gelpp.Image}
    {added : List ImageSegment} (h : UnitPlaced base hs top im im' added)
    {s : ImageSegment} (hmem : s ∈ added) :
    base ≤ s.base.toNat ∧ s.base.toNat + s.size ≤ top := by
  obtain ⟨p, hp, hbase, hsize⟩ := h.based.partner hmem
  have habove := h.above p hp
  omega

section
variable {f g : File} {base : UInt64} {x y : Gelpp.Image × UInt64}

structure SameHeaders (f g : File) : Prop where
  phdr : f.phdr = g.phdr
  ptrs : g.phs.map ProgramHeader.ptr = f.phs.map ProgramHeader.ptr
  sized : g.Sized

theorem SameHeaders.trans {f' : File} (h : SameHeaders f f') (h' : SameHeaders f' g) :
    SameHeaders f g :=
  ⟨h.phdr.trans h'.phdr, h'.ptrs.trans h.ptrs, h'.sized⟩

theorem readBuf_length {p : Phdr} {buf : List UInt8} (h : (readBuf p).run f = (.ok buf, g)) :
    buf.length = p.memsz ∧ ∃ k, g = ticked f k := by
  obtain ⟨mem, f1, halloc, h⟩ := bind_ok.mp h
  obtain ⟨init, f2, hinit, h⟩ := bind_ok.mp h
  cases h
  rw [alloc_run] at halloc
  split at halloc
  · cases halloc
    rw [readInit] at hinit
    split at hinit
    · obtain ⟨hlen, hg⟩ := readAt_length hinit
      exact ⟨zeroFill_length (hlen.trans (fresh_length ..)), _, hg⟩
    · cases hinit
      exact ⟨zeroFill_length (fresh_length ..), [], ticked_nil.symm⟩
  · cases halloc

theorem at_ok {α : Type} {l : List α} {i : Int} {a : α} (h : (at_ l i).run f = (.ok a, g)) :
    0 ≤ i ∧ l[i.toNat]? = some a ∧ g = f := by
  rw [at_] at h
  split at h
  · next h0 =>
    split at h
    · next hget =>
      cases h
      exact ⟨h0, hget, rfl⟩
    · cases h
  · cases h

theorem header_ok {i : Nat} {p : Phdr} (h : (header i).run f = (.ok p, g)) :
    ∃ ph, f.phs[i]? = some ph ∧ f.phdr ph.ptr = .ok p ∧ g = f := by
  obtain ⟨f', f1, hget, h⟩ := bind_ok.mp h
  cases hget
  obtain ⟨ph, f2, hat, h⟩ := bind_ok.mp h
  obtain ⟨-, hph, rfl⟩ := at_ok hat
  obtain ⟨hp, rfl⟩ := Prod.mk.inj h
  exact ⟨ph, hph, hp, rfl⟩

theorem content_sized (hf : f.Sized) {i : Nat} {ph : ProgramHeader} (hph : f.phs[i]? = some ph)
    {p : Phdr} (hp : f.phdr ph.ptr = .ok p) {buf : List UInt8}
    (h : (content i).run f = (.ok buf, g)) : buf.length = p.memsz ∧ SameHeaders f g := by
  rw [content, get_bind, bind_of_ok (at_some (Int.natCast_nonneg i) hph f)] at h
  cases hb : ph.buf with
  | some kept =>
    rw [hb] at h
    cases h
    exact ⟨hf ph (List.mem_of_getElem? hph) buf hb p hp, rfl, rfl, hf⟩
  | none =>
    rw [hb] at h
    dsimp only at h
    rw [hp, lift_ok_bind] at h
    obtain ⟨raw, f1, hread, h⟩ := bind_ok.mp h
    obtain ⟨hlen, k, rfl⟩ := readBuf_length hread
    rw [modify_bind] at h
    cases h
    refine ⟨hlen, rfl, ?_, ?_⟩
    · obtain ⟨hlt, hget⟩ := List.getElem?_eq_some_iff.mp hph
      have hi : i < (f.phs.map ProgramHeader.ptr).length := by rwa [List.length_map]
      have hptr : (f.phs.map ProgramHeader.ptr)[i] = ph.ptr := by
        rw [List.getElem_map, hget]
      change (f.phs.set i _).map ProgramHeader.ptr = _
      rw [List.map_set, ← hptr, List.set_getElem_self]
    · intro h' hmem buf' hbuf' p' hp'
      rcases List.mem_or_eq_of_mem_set hmem with hmem | rfl
      · exact hf h' hmem buf' hbuf' p' hp'
      · cases hbuf'
        cases hp.symm.trans hp'
        exact hlen

def Added (base : UInt64) (p : Phdr) (x y : Gelpp.Image × UInt64) : Prop :=
  if p.type = ptLoad then
    (∃ s, y.1.segs = x.1.segs ++ [s] ∧ s.base = base + .ofNat p.vaddr ∧ s.size = p.memsz) ∧
      y.2 = max x.2 (base + .ofNat p.vaddr + .ofNat p.memsz)
  else y = x

theorem loadHeader_ok (hf : f.Sized) {i : Nat}
    (h : (UnixBuilder.loadHeader base x i).run f = (.ok y, g)) :
    ∃ ph p, f.phs[i]? = some ph ∧ f.phdr ph.ptr = .ok p ∧ Added base p x y ∧ SameHeaders f g := by
  obtain ⟨p, f1, hhead, hrest⟩ := bind_ok.mp h
  obtain ⟨ph, hph, hp, rfl⟩ := header_ok hhead
  refine ⟨ph, p, hph, hp, ?_⟩
  rw [Added]
  split at hrest
  · next ht =>
    obtain ⟨buf, f2, hcontent, hdone⟩ := bind_ok.mp hrest
    obtain ⟨hlen, hsame⟩ := content_sized hf hph hp hcontent
    cases hdone
    rw [if_pos ht]
    exact ⟨⟨⟨_, rfl, rfl, hlen⟩, rfl⟩, hsame⟩
  · next ht =>
    cases hrest
    rw [if_neg ht]
    exact ⟨rfl, rfl, rfl, hf⟩

def AddedAll (base : UInt64) : List Phdr → (x y : Gelpp.Image × UInt64) → Prop
  | [], x, y => y = x
  | p :: hs, x, y => ∃ z, Added base p x z ∧ AddedAll base hs z y

theorem loadHeaders_ok (hf : f.Sized) {l : List Nat}
    (h : (l.foldlM (UnixBuilder.loadHeader base) x).run f = (.ok y, g)) :
    ∃ hs, List.Forall₂ (fun i p => ∃ ptr, (f.phs.map ProgramHeader.ptr)[i]? = some ptr ∧
      f.phdr ptr = .ok p) l hs ∧ AddedAll base hs x y := by
  induction l generalizing f x with
  | nil =>
    cases h
    exact ⟨[], .nil, rfl⟩
  | cons i l ih =>
    rw [List.foldlM_cons] at h
    obtain ⟨z, f1, hstep, h⟩ := bind_ok.mp h
    obtain ⟨ph, p, hph, hp, hloaded, hsame⟩ := loadHeader_ok hf hstep
    obtain ⟨hs, hall, hrest⟩ := ih hsame.sized h
    rw [← hsame.phdr, hsame.ptrs] at hall
    refine ⟨p :: hs, .cons ⟨ph.ptr, ?_, hp⟩ hall, z, hloaded, hrest⟩
    rw [List.getElem?_map, hph]
    rfl

theorem programHeaders_sized (hf : f.Sized) {phs : List ProgramHeader}
    (h : programHeaders.run f = (.ok phs, g)) : g.phs = phs ∧ g.Sized := by
  rw [programHeaders, get_bind] at h
  split at h
  · cases h
    exact ⟨rfl, hf⟩
  · obtain ⟨u, f1, hload, h⟩ := bind_ok.mp h
    cases h
    refine ⟨rfl, ?_⟩
    rw [loadProgramHeaders, get_bind] at hload
    split at hload
    · cases hload
      exact hf
    · obtain ⟨size, f2, -, hload⟩ := bind_ok.mp hload
      obtain ⟨buf, f3, -, hload⟩ := bind_ok.mp hload
      rw [modify_bind] at hload
      obtain ⟨raw, f4, -, hload⟩ := bind_ok.mp hload
      obtain ⟨mem, f5, -, hload⟩ := bind_ok.mp hload
      cases hload
      intro ph hph buf' hbuf'
      obtain ⟨i, -, rfl⟩ := List.mem_map.mp hph
      cases hbuf'

theorem load_ok (hf : f.Sized) {base : UInt32} {im im' : Gelpp.Image} {top : UInt32}
    (h : (UnixBuilder.load base im).run f = (.ok (im', top), g)) :
    ∃ hs y, (unitHeaders.run f).1 = .ok hs ∧ AddedAll base.toUInt64 hs (im, base.toUInt64) y ∧
      im' = y.1 ∧ top = y.2.toUInt32 := by
  obtain ⟨phs, f1, hphs, h⟩ := bind_ok.mp h
  obtain ⟨y, f2, hloads, h⟩ := bind_ok.mp h
  cases h
  obtain ⟨rfl, hsized⟩ := programHeaders_sized hf hphs
  obtain ⟨hs, hall, hadded⟩ := loadHeaders_ok hsized hloads
  refine ⟨hs, y, ?_, hadded, rfl, rfl⟩
  rw [unitHeaders, bind_of_ok hphs, get_bind, lift_run]
  apply Res.mapM_ok
  rw [List.forall₂_iff_get] at hall ⊢
  obtain ⟨hlen, hall⟩ := hall
  rw [List.length_range] at hlen
  refine ⟨hlen, fun i hi hi' => ?_⟩
  obtain ⟨ptr, hptr, hp⟩ := hall i (by rwa [List.length_range]) hi'
  simp only [List.get_eq_getElem, List.getElem_range, List.getElem?_map,
    List.getElem?_eq_getElem hi, Option.map_some, Option.some.injEq] at hptr
  rw [← hptr] at hp
  exact hp

end

theorem endAt_spec (base top : Nat) (hs : List Phdr) :
    let last := (loadsOf hs).foldl (fun top p => max top (base + p.vaddr + p.memsz)) top
    top ≤ last ∧ ∀ p ∈ loadsOf hs, base + p.vaddr + p.memsz ≤ last := by
  induction loadsOf hs generalizing top with
  | nil => exact ⟨le_rfl, nofun⟩
  | cons p ps ih =>
    obtain ⟨htop, hall⟩ := ih (max top (base + p.vaddr + p.memsz))
    refine ⟨(le_max_left ..).trans htop, fun q hq => ?_⟩
    rcases List.mem_cons.mp hq with rfl | hq
    · exact (le_max_right ..).trans htop
    · exact hall q hq

section
variable {base : UInt64} {hs : List Phdr} {x y : Gelpp.Image × UInt64}

theorem placed_toNat (base : UInt64) {m n : Nat} (h : base.toNat + m + n < 2 ^ 64) :
    (base + .ofNat m).toNat = base.toNat + m ∧
      (base + .ofNat m + .ofNat n).toNat = base.toNat + m + n := by
  have hm : (UInt64.ofNat m).toNat = m := UInt64.toNat_ofNat_of_lt (show m < 2 ^ 64 by omega)
  have hn : (UInt64.ofNat n).toNat = n := UInt64.toNat_ofNat_of_lt (show n < 2 ^ 64 by omega)
  have hadd : (base + .ofNat m).toNat = base.toNat + m := by
    rw [UInt64.toNat_add, hm]
    omega
  refine ⟨hadd, ?_⟩
  rw [UInt64.toNat_add, hadd, hn]
  omega

theorem max_toNat (a b : UInt64) : (max a b).toNat = max a.toNat b.toNat := by
  change (if a ≤ b then b else a).toNat = _
  split
  · next h => rw [max_eq_right (UInt64.le_iff_toNat_le.mp h)]
  · next h =>
    rw [UInt64.le_iff_toNat_le, not_le] at h
    rw [max_eq_left h.le]

theorem addedAll_exact (h : AddedAll base hs x y)
    (hsmall : (loadsOf hs).foldl (fun top p => max top (base.toNat + p.vaddr + p.memsz)) x.2.toNat
      < 2 ^ 64) :
    y.2.toNat =
        (loadsOf hs).foldl (fun top p => max top (base.toNat + p.vaddr + p.memsz)) x.2.toNat ∧
      ∃ added, y.1.segs = x.1.segs ++ added ∧
        List.Forall₂ (fun p s => s.base.toNat = base.toNat + p.vaddr ∧ s.size = p.memsz)
          (loadsOf hs) added := by
  induction hs generalizing x with
  | nil =>
    obtain rfl := h
    exact ⟨rfl, [], (List.append_nil _).symm, .nil⟩
  | cons p hs ih =>
    obtain ⟨z, hstep, hrest⟩ := h
    rw [Added] at hstep
    by_cases ht : p.type = ptLoad
    · have hcons : loadsOf (p :: hs) = p :: loadsOf hs := List.filter_cons_of_pos (beq_iff_eq.mpr ht)
      rw [hcons, List.foldl_cons] at hsmall ⊢
      rw [if_pos ht] at hstep
      obtain ⟨⟨s, hsegs, hbase, hsize⟩, htop⟩ := hstep
      obtain ⟨hle, -⟩ := endAt_spec base.toNat (max x.2.toNat (base.toNat + p.vaddr + p.memsz)) hs
      obtain ⟨haddr, hend⟩ := placed_toNat base (m := p.vaddr) (n := p.memsz) (by omega)
      have hz : z.2.toNat = max x.2.toNat (base.toNat + p.vaddr + p.memsz) := by
        rw [htop, max_toNat, hend]
      obtain ⟨hy, added, hadd, hall⟩ := ih hrest (by rwa [hz])
      rw [hz] at hy
      refine ⟨hy, s :: added, ?_, .cons ⟨by rw [hbase, haddr], hsize⟩ hall⟩
      rw [hadd, hsegs, List.append_assoc]
      rfl
    · have hskip : loadsOf (p :: hs) = loadsOf hs :=
        List.filter_cons_of_neg (by rwa [beq_iff_eq])
      rw [if_neg ht] at hstep
      obtain rfl := hstep
      rw [hskip] at hsmall ⊢
      exact ih hrest hsmall

end

namespace UnixBuilder

variable {roundup : UInt64 → UInt64 → UInt64} {pageSize : UInt64}

theorem RoundsUp.le (hr : RoundsUp roundup) (hp : pageSize ≠ 0) {v : UInt64}
    (hv : v.toNat < 2 ^ 32) : v.toNat ≤ (roundup v pageSize).toNat := by
  have hpos : 0 < pageSize.toNat := by
    rw [Nat.pos_iff_ne_zero, Ne, ← UInt64.toNat_zero, UInt64.toNat_inj]
    exact hp
  have hlt := pageSize.toNat_lt
  let multiples := {k | pageSize.toNat ∣ k ∧ v.toNat ≤ k}
  obtain ⟨k, hk, hsmall⟩ : ∃ k ∈ multiples, k < 2 ^ 64 := by
    rcases Nat.le_total v.toNat pageSize.toNat with hle | hle
    · exact ⟨pageSize.toNat, ⟨dvd_rfl, hle⟩, hlt⟩
    · refine ⟨pageSize.toNat * v.toNat, ⟨dvd_mul_right .., Nat.le_mul_of_pos_left _ hpos⟩, ?_⟩
      calc pageSize.toNat * v.toNat ≤ v.toNat * v.toNat := Nat.mul_le_mul_right _ hle
        _ < 2 ^ 32 * 2 ^ 32 := Nat.mul_lt_mul'' hv hv
        _ = 2 ^ 64 := by norm_num
  have hleast : IsLeast multiples (sInf multiples) :=
    ⟨Nat.sInf_mem ⟨k, hk⟩, fun _ hm => Nat.sInf_le hm⟩
  rw [hr v pageSize hp _ hleast ((Nat.sInf_le hk).trans_lt hsmall)]
  exact hleast.1.2

def Low (base : UInt64) (hs : List Phdr) : Prop := base.toNat < 2 ^ 32 ∧ endAt base.toNat hs < 2 ^ 32

def Below (im : Gelpp.Image) (base : UInt64) : Prop :=
  ∀ s ∈ im.segs, s.base.toNat + s.size ≤ base.toNat

variable {u : UnixUnit} {im im' : Gelpp.Image} {base : UInt64} {top : UInt32} {g : File}
variable {hs : List Phdr}

theorem load_low (h : (load base.toUInt32 im).run u.file = (.ok (im', top), g))
    (hhs : (unitHeaders.run u.file).1 = .ok hs) (hlow : Low base hs) :
    top.toNat = endAt base.toNat hs ∧ ∃ added, im'.segs = im.segs ++ added ∧
      List.Forall₂ (fun p s => s.base.toNat = base.toNat + p.vaddr ∧ s.size = p.memsz)
        (loadsOf hs) added := by
  obtain ⟨hbase, hend⟩ := hlow
  have hwide : base.toUInt32.toUInt64 = base := by
    rw [← UInt64.toNat_inj, UInt32.toNat_toUInt64, UInt64.toNat_toUInt32, Nat.mod_eq_of_lt hbase]
  obtain ⟨hs', y, hhs', hadded, rfl, rfl⟩ := load_ok u.sized h
  rw [hhs] at hhs'
  cases hhs'
  rw [hwide] at hadded
  obtain ⟨htop, hsegs⟩ := addedAll_exact hadded (by
    rw [endAt] at hend
    dsimp only
    omega)
  refine ⟨?_, hsegs⟩
  rw [UInt64.toNat_toUInt32, htop]
  exact Nat.mod_eq_of_lt hend

theorem load_placed (h : (load base.toUInt32 im).run u.file = (.ok (im', top), g))
    (hhs : (unitHeaders.run u.file).1 = .ok hs) (hlow : Low base hs) (hb : Below im base) :
    ∃ added, UnitPlaced base.toNat hs top.toNat im im' added := by
  obtain ⟨htop, added, hsegs, hall⟩ := load_low h hhs hlow
  refine ⟨added, hsegs, hall, fun p hp => ?_, fun s hmem t ht => .inr ?_⟩
  · rw [htop]
    exact (endAt_spec base.toNat base.toNat hs).2 p hp
  · obtain ⟨p, hp, hbase, -⟩ := hall.partner hmem
    have hbelow := hb t ht
    omega

theorem loadNext_below (hr : RoundsUp roundup) (hp : pageSize ≠ 0) {base' : UInt64}
    (h : loadNext roundup pageSize (im, base) u = .ok (im', base'))
    (hlow : ∀ hs, (unitHeaders.run u.file).1 = .ok hs → Low base hs) (hb : Below im base) :
    Below im' base' := by
  rw [loadNext] at h
  obtain ⟨x, hload, h⟩ := Res.bind_ok.mp h
  have hrun : (load base.toUInt32 im).run u.file =
      (.ok (x.1, x.2), ((load base.toUInt32 im).run u.file).2) := Prod.ext hload rfl
  cases h
  obtain ⟨hs, -, hhs, -⟩ := load_ok u.sized hrun
  obtain ⟨added, hplaced⟩ := load_placed hrun hhs (hlow hs hhs) hb
  obtain ⟨htop, -⟩ := load_low hrun hhs (hlow hs hhs)
  have hnext := hr.le hp (v := x.2.toUInt64) (by
    rw [UInt32.toNat_toUInt64]
    exact x.2.toNat_lt)
  rw [UInt32.toNat_toUInt64] at hnext
  have hstart := (endAt_spec base.toNat base.toNat hs).1
  change base.toNat ≤ endAt base.toNat hs at hstart
  intro s hmem
  rw [hplaced.segs] at hmem
  rcases List.mem_append.mp hmem with hmem | hmem
  · have hold := hb s hmem
    omega
  · have hends := (hplaced.ends hmem).2
    omega

variable (roundup pageSize) in
def AllLow (units : List UnixUnit) : Prop :=
  ∀ pre u post, units = pre ++ u :: post → ∀ im base, loadUnits roundup pageSize pre = .ok (im, base) →
    ∀ hs, (unitHeaders.run u.file).1 = .ok hs → Low base hs

theorem AllLow.below {units : List UnixUnit} (hr : RoundsUp roundup) (hp : pageSize ≠ 0)
    (hall : AllLow roundup pageSize units) {pre post : List UnixUnit} (hunits : units = pre ++ post)
    (h : loadUnits roundup pageSize pre = .ok (im, base)) : Below im base := by
  induction pre using List.reverseRecOn generalizing post im base with
  | nil =>
    cases h
    exact nofun
  | append_singleton pre u ih =>
    rw [loadUnits, List.foldlM_append] at h
    obtain ⟨⟨im0, base0⟩, hpre, hlast⟩ := Res.bind_ok.mp h
    rw [List.foldlM_cons] at hlast
    obtain ⟨x, hnext, hx⟩ := Res.bind_ok.mp hlast
    cases hx
    rw [List.append_assoc] at hunits
    have hlow := hall pre u post hunits im0 base0 hpre
    exact loadNext_below hr hp hnext hlow (ih hunits hpre)

theorem units_apart (hr : RoundsUp roundup) (hp : pageSize ≠ 0) (units : List UnixUnit)
    (hall : AllLow roundup pageSize units) (pre : List UnixUnit) (u : UnixUnit)
    (post : List UnixUnit) (hunits : units = pre ++ u :: post) (im : Gelpp.Image) (base : UInt64)
    (hpre : loadUnits roundup pageSize pre = .ok (im, base)) (im' : Gelpp.Image) (top : UInt32)
    (g : File) (h : (load base.toUInt32 im).run u.file = (.ok (im', top), g)) :
    ∃ hs added, (unitHeaders.run u.file).1 = .ok hs ∧
      UnitPlaced base.toNat hs top.toNat im im' added := by
  obtain ⟨hs, -, hhs, -⟩ := load_ok u.sized h
  obtain ⟨added, hplaced⟩ := load_placed h hhs (hall pre u post hunits im base hpre hs hhs)
    (hall.below hr hp hunits hpre)
  exact ⟨hs, added, hhs, hplaced⟩

def leastMultiple (v m : UInt64) : UInt64 := .ofNat ((v.toNat + m.toNat - 1) / m.toNat * m.toNat)

theorem leastMultiple_roundsUp : RoundsUp leastMultiple := by
  intro v m hm r hr hlt
  have hpos : 0 < m.toNat := by
    rw [Nat.pos_iff_ne_zero, Ne, ← UInt64.toNat_zero, UInt64.toNat_inj]
    exact hm
  have hleast : IsLeast {k | m.toNat ∣ k ∧ v.toNat ≤ k}
      ((v.toNat + m.toNat - 1) / m.toNat * m.toNat) := by
    have hdiv := Nat.div_add_mod (v.toNat + m.toNat - 1) m.toNat
    have hmod := Nat.mod_lt (v.toNat + m.toNat - 1) hpos
    rw [Nat.mul_comm] at hdiv
    refine ⟨⟨dvd_mul_left .., by omega⟩, ?_⟩
    rintro k ⟨⟨j, rfl⟩, hle⟩
    rw [Nat.mul_comm m.toNat j]
    refine Nat.mul_le_mul_right _ (Nat.lt_succ_iff.mp ((Nat.div_lt_iff_lt_mul hpos).mpr ?_))
    rw [Nat.mul_comm] at hle
    rw [Nat.succ_mul]
    omega
  rw [leastMultiple, hleast.unique hr]
  exact UInt64.toNat_ofNat_of_lt hlt

def onePhdr (vaddr : Nat) : Phdr where
  type := ptLoad
  flags := 5
  offset := 0
  vaddr := vaddr
  paddr := vaddr
  filesz := 0
  memsz := 1
  align := 4

theorem opened_phs (p : Phdr) : (opened .little [p] [nullShdr] []).phs = [] := rfl

-- A file with one byte, which has no content.
def oneByte (vaddr : Nat) : UnixUnit where
  file := opened .little [onePhdr vaddr] [nullShdr] []
  sized := by
    intro h hh
    rw [opened_phs] at hh
    cases hh

theorem oneByte_low :
    AllLow leastMultiple 4096 [oneByte 8192, oneByte 8192] := by
  intro pre u post hunits im base hpre hs hhs
  have hheaders : (unitHeaders.run (oneByte 8192).file).1 = .ok [⟨1, 5, 0, 8192, 8192, 0, 1, 4⟩] := rfl
  rcases pre with _ | ⟨v, _ | ⟨w, pre⟩⟩
  · cases hunits
    cases hpre
    rw [hheaders] at hhs
    cases hhs
    exact ⟨by decide, by decide⟩
  · cases hunits
    cases hpre
    rw [hheaders] at hhs
    cases hhs
    exact ⟨by decide, by decide⟩
  · have hlen := congrArg List.length hunits
    simp at hlen

theorem units_apart_pages : ∃ hs added, (unitHeaders.run (oneByte 8192).file).1 = .ok hs ∧
    UnitPlaced (UInt64.toNat 12288) hs (UInt32.toNat 20481) { segs := [⟨"code", 8192, [0], 6⟩] }
      { segs := [⟨"code", 8192, [0], 6⟩, ⟨"code", 20480, [0], 6⟩] } added :=
  units_apart leastMultiple_roundsUp (by decide) [oneByte 8192, oneByte 8192] oneByte_low
    [oneByte 8192] (oneByte 8192) [] rfl _ 12288 rfl _ 20481 _ rfl

-- The only byte is the last one of 4 GiB.
theorem units_overlap : ∃ im im' g, loadUnits leastMultiple 4096 [oneByte 0xffffffff] = .ok (im, 0) ∧
    (load 0 im).run (oneByte 0xffffffff).file = (.ok (im', 0), g) ∧
    ∃ s t, im'.segs = [s, t] ∧ s.base.toNat + s.size = 2 ^ 32 ∧ ¬ Apart s t := by
  refine ⟨_, _, _, rfl, rfl, _, _, rfl, rfl, ?_⟩
  unfold Apart
  decide

end UnixBuilder

end Gelpp.Elf

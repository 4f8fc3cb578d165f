import Gelpp.Elf.Dyns

namespace Gelpp.Elf

open FileM Effect

section
variable {f g : File} {buf : List UInt8}

theorem readAll_length {pos size : Nat} (h : (readAll pos size).run f = (.ok buf, g)) :
    buf.length = size ∧ size < 2 ^ 63 ∧ g = consulted f pos size := by
  obtain ⟨raw, f', halloc, hread⟩ := bind_ok.mp h
  rw [alloc_run] at halloc
  split at halloc
  · next hlt =>
    cases halloc
    obtain ⟨hlen, hg⟩ := readAt_length hread
    exact ⟨hlen.trans (fresh_length f size), hlt, hg⟩
  · cases halloc

theorem fixAt_length {host : ByteOrder} {eiData : UInt8} {base : Nat} {mem : List UInt8} (s : Slot) :
    Meets (fun _ => True) (fun mem' => mem'.length = mem.length)
      (fixAt host eiData base mem s) := by
  rw [fixAt, loadAt]
  split
  · next hle =>
    change (storeAt host mem base s _).length = mem.length
    simp only [storeAt, List.length_append, List.length_take, List.length_drop,
      ByteOrder.bytes_length]
    omega
  · trivial

theorem fixTable_length {host : ByteOrder} {eiData : UInt8} {slots : List Slot}
    {entsize count : Nat} {mem : List UInt8} :
    Meets (fun _ => True) (fun mem' => mem'.length = mem.length)
      (fixTable host eiData slots entsize count mem) := by
  refine Meets.foldlM (fun m : List UInt8 => m.length = mem.length) (fun m i hm => ?_) rfl
  refine Meets.foldlM (fun m : List UInt8 => m.length = mem.length) (fun m s hm => ?_) hm
  exact (fixAt_length s).post fun _ h => h.trans hm

theorem entries_ok {name : FileM (List UInt8)} {s : Shdr} {n : Nat}
    (h : (entries name s).run f = (.ok n, g)) : g = f := by
  rw [entries, ite_run] at h
  split at h
  · cases h
  · rw [ite_run] at h
    split at h
    · obtain ⟨text, f', -, hthrow⟩ := bind_ok.mp h
      cases hthrow
    · cases h
      rfl

theorem readSection_length {name : FileM (List UInt8)} {s : Shdr}
    (h : (readSection name s).run f = (.ok buf, g)) :
    buf.length = s.size ∧ s.size < 2 ^ 63 ∧ g = consulted f s.offset s.size := by
  obtain ⟨raw, f', hraw, h⟩ := bind_ok.mp h
  obtain ⟨hlen, hlt, rfl⟩ := readAll_length hraw
  rw [ite_run] at h
  split at h
  · obtain ⟨count, f', hcount, h⟩ := bind_ok.mp h
    cases entries_ok hcount
    rw [get_bind] at h
    have hfix := congrArg Prod.fst h
    have hg := congrArg Prod.snd h
    exact ⟨(fixTable_length.of_ok hfix).trans hlen, hlt, hg.symm⟩
  · cases h
    exact ⟨hlen, hlt, rfl⟩

def Kept (s : Section) (h : Shdr) : Prop :=
  ∀ buf, s.buf = some buf → buf.length = h.size ∧ h.size < 2 ^ 63

variable {i : Nat} {s : Section} {h : Shdr}

theorem content_kept (hs : f.sects[i]? = some s) (hh : f.shdr s.ptr = .ok h) (hk : Kept s h)
    (hc : (sectionContent i).run f = (.ok buf, g)) :
    buf.length = h.size ∧ h.size < 2 ^ 63 ∧
      ∃ k, g = { ticked f k with sects := f.sects.set i { s with buf := some buf } } := by
  have hrun := contentFor_run (n := 1) (Int.natCast_nonneg i) (f := f) hs
  rw [sectionContent, hrun] at hc
  cases hb : s.buf with
  | some buf' =>
    rw [hb] at hc
    cases hc
    obtain ⟨hlen, hlt⟩ := hk _ hb
    refine ⟨hlen, hlt, [], ?_⟩
    have hself : f.sects.set i { s with buf := some buf } = f.sects := by
      obtain ⟨hi, hget⟩ := List.getElem?_eq_some_iff.mp hs
      rw [← hb, ← hget, List.set_getElem_self]
    rw [hself, ticked_nil]
  | none =>
    rw [hb] at hc
    dsimp only at hc
    rw [fillContent, get_bind, hh, lift_ok_bind] at hc
    obtain ⟨raw, f', hraw, hc⟩ := bind_ok.mp hc
    obtain ⟨hlen, hlt, rfl⟩ := readSection_length hraw
    cases hc
    exact ⟨hlen, hlt, asks h.offset h.size, rfl⟩

theorem fetch_congr (hg : fetchDyn g = fetchDyn f) (it : DynIter) : it.fetch g = it.fetch f := by
  rw [DynIter.fetch, hg]
  rfl

theorem traverse_congr (hg : fetchDyn g = fetchDyn f) (last : DynIter) (fuel : Nat) (it : DynIter) :
    traverse g last fuel it = traverse f last fuel it := by
  induction fuel generalizing it with
  | zero => rfl
  | succ fuel ih =>
    have hnext : it.next g = it.next f := by
      simp only [DynIter.next, fetch_congr hg]
    rw [traverse, traverse, hnext]
    simp only [ih]

theorem dynIter_run {b : Buffer} (hs : f.sects[i]? = some s) (hh : f.shdr s.ptr = .ok h)
    (hc : (sectionContent i).run f = (.ok buf, g)) (hb : bufferOf f buf = .ok b) (ended : Bool) :
    (dynIter i ended).run f =
      (if ended then .ok (finished b h.entsize) else (begun b h.entsize).fetch f, g) := by
  rw [dynIter, get_bind, bind_of_ok (at_some (Int.natCast_nonneg i) hs f), hh, lift_ok_bind,
    bind_of_ok hc, hb, lift_ok_bind]
  cases ended <;> rfl

theorem readDyns_run (hs : f.sects[i]? = some s) (hh : f.shdr s.ptr = .ok h) (hk : Kept s h)
    (hc : (sectionContent i).run f = (.ok buf, g)) :
    ∃ b : Buffer, b.bytes = buf ∧ b.fence = none ∧ b.size = h.size ∧
      ∀ fuel, ((readDyns fuel i).run f).1 = ((begun b h.entsize).fetch f >>=
        traverse f (finished b h.entsize) fuel) := by
  obtain ⟨hlen, hlt, k, rfl⟩ := content_kept hs hh hk hc
  have hsmall : buf.length < 2 ^ 63 := by omega
  let b : Buffer := { decoder := f.decoder, bytes := buf, size_lt := hsmall }
  have hb : bufferOf f buf = .ok b := dif_pos hsmall
  refine ⟨b, rfl, rfl, hlen, fun fuel => ?_⟩
  have hi : i < f.sects.length := (List.getElem?_eq_some_iff.mp hs).1
  let g : File := { ticked f k with sects := f.sects.set i { s with buf := some buf } }
  have hs' : g.sects[i]? = some { s with buf := some buf } := List.getElem?_set_self hi
  have hc' : (sectionContent i).run g = (.ok buf, g) :=
    contentFor_run (Int.natCast_nonneg i) hs'
  have hfirst := dynIter_run hs hh hc hb false
  have hlast := dynIter_run (f := g) hs' hh hc' hb true
  cases hfetch : (begun b h.entsize).fetch f with
  | error e =>
    rw [hfetch] at hfirst
    have hrange : (dynsOf i).run f = (.error e, g) := bind_of_error hfirst
    rw [readDyns, bind_of_error hrange]
    rfl
  | ok first =>
    rw [hfetch] at hfirst
    have hrange : (dynsOf i).run f = (.ok (first, finished b h.entsize), g) := by
      rw [dynsOf, bind_of_ok hfirst, bind_of_ok hlast]
      rfl
    rw [readDyns, bind_of_ok hrange]
    exact traverse_congr (f := f) (g := g) rfl _ _ _

structure Iterated (f : File) (i : Nat) (h : Shdr) (buf : List UInt8) : Prop where
  whole : f.layout.dyn.size ≤ h.entsize → ∃ k, ∀ fuel, k ≤ fuel →
    ((readDyns fuel i).run f).1 =
      .ok ((List.range (h.size / h.entsize)).map fun k => dynAt f buf (k * h.entsize))
  short : h.entsize < f.layout.dyn.size → ∃ x, Skipped x ∧ ∃ k, ∀ fuel, k ≤ fuel →
    ((readDyns fuel i).run f).1 = x

def Filled (f : File) (h : Shdr) (buf : List UInt8) : Prop :=
  f.layout.dyn.size ≤ h.entsize ∧ h.entsize ∣ h.size ∧ ∀ k < h.size / h.entsize,
    -2 ^ 31 ≤ (dynAt f buf (k * h.entsize)).tag ∧ (dynAt f buf (k * h.entsize)).tag < 2 ^ 31

theorem value_lt_of_cell {host : ByteOrder} {mem : List UInt8} {base : Nat} {slot : Slot} {v : Nat}
    (hw : slot.width ≤ 8) (h : loadAt host mem base slot = .ok v) : v < 2 ^ 64 := by
  rw [loadAt] at h
  split at h
  · next hle =>
    cases h
    have hlen : (cell mem (base + slot.off) slot.width).length = slot.width := cell_length hle
    calc host.value (cell mem (base + slot.off) slot.width)
        < 256 ^ slot.width := by simpa [hlen] using host.value_lt (cell mem (base + slot.off) slot.width)
      _ ≤ 256 ^ 8 := Nat.pow_le_pow_right (by decide) hw
      _ = 2 ^ 64 := by decide
  · cases h

theorem entsize_lt (hl : f.layout = elf32 ∨ f.layout = elf64) (hh : f.shdr i = .ok h) :
    h.entsize < 2 ^ 64 := by
  have hw : f.layout.shdr.entsize.width ≤ 8 := by
    rcases hl with hl | hl <;> simp [hl, elf32, elf64]
  rw [File.shdr, readShdr] at hh
  obtain ⟨_, -, hh⟩ := Res.bind_ok.mp hh
  obtain ⟨_, -, hh⟩ := Res.bind_ok.mp hh
  obtain ⟨_, -, hh⟩ := Res.bind_ok.mp hh
  obtain ⟨_, -, hh⟩ := Res.bind_ok.mp hh
  obtain ⟨_, -, hh⟩ := Res.bind_ok.mp hh
  obtain ⟨_, -, hh⟩ := Res.bind_ok.mp hh
  obtain ⟨_, -, hh⟩ := Res.bind_ok.mp hh
  obtain ⟨_, -, hh⟩ := Res.bind_ok.mp hh
  obtain ⟨_, -, hh⟩ := Res.bind_ok.mp hh
  obtain ⟨entsize, he, hh⟩ := Res.bind_ok.mp hh
  cases hh
  exact value_lt_of_cell hw he

theorem range_records (f : File) (mem : List UInt8) (e n : Nat) :
    records f mem e 0 n = (List.range n).map fun k => dynAt f mem (k * e) := by
  rw [records, List.range_eq_range']

theorem records_cut_iff {mem : List UInt8} {e n : Nat} :
    (records f mem e 0 n).map Dyn.cut = records f mem e 0 n ↔ ∀ k < n,
      -2 ^ 31 ≤ (dynAt f mem (k * e)).tag ∧ (dynAt f mem (k * e)).tag < 2 ^ 31 := by
  rw [range_records, List.map_map, List.map_inj_left]
  constructor
  · intro h k hk
    exact cut_eq_iff.mp (h k (List.mem_range.mpr hk))
  · intro h k hk
    exact cut_eq_iff.mpr (h k (List.mem_range.mp hk))

theorem iterated_filled (hl : f.layout = elf32 ∨ f.layout = elf64) (hs : f.sects[i]? = some s)
    (hh : f.shdr s.ptr = .ok h) (hk : Kept s h)
    (hc : (sectionContent i).run f = (.ok buf, g)) (hsize : h.size ≠ 0)
    (hit : Iterated f i h buf) : Filled f h buf := by
  obtain ⟨b, rfl, hf, hlen, hrun⟩ := readDyns_run hs hh hk hc
  have hpos : 0 < b.size := by omega
  by_cases he : f.layout.dyn.size ≤ h.entsize
  · obtain ⟨k, hwhole⟩ := hit.whole he
    rw [← range_records] at hwhole
    have hentry : 0 < h.entsize := by
      rcases hl with hl | hl <;> simp only [hl, elf32, elf64] at he <;> omega
    by_cases hdvd : h.entsize ∣ b.size
    · obtain ⟨n, hn⟩ := hdvd
      have hcount : h.size / h.entsize = n := by rw [← hlen, hn, Nat.mul_div_cancel_left _ hentry]
      have hcuts := traverse_whole (k := 0) (n := n) hl hf he hentry
        (by rw [Nat.zero_add, hn, Nat.mul_comm]) (Nat.le_max_left n k) (begun_stands b h.entsize)
      have heq := hwhole (max n k) (Nat.le_max_right n k)
      rw [hrun, hcuts, hcount, Except.ok.injEq, records_cut_iff] at heq
      refine ⟨he, ⟨n, by rw [← hlen, hn]⟩, ?_⟩
      rwa [hcount]
    · exfalso
      have heq := hwhole k (Nat.le_refl k)
      rw [hrun] at heq
      obtain ⟨t, ht, heq⟩ := Res.bind_ok.mp heq
      have hlt : 0 * h.entsize < b.size := by rwa [Nat.zero_mul]
      have hstands := (fetch_meets (A := fun _ => True) trivial hf (begun_stands b h.entsize)
        hlt).of_ok ht
      exact traverse_endless hf (entsize_lt hl hh) hdvd hstands.1 hlt heq
  · obtain ⟨x, hx, k, hshort⟩ := hit.short (Nat.lt_of_not_le he)
    have heq := hshort k (Nat.le_refl k)
    rw [hrun] at heq
    rw [← heq] at hx
    exact absurd hx (short_not_skipped hf hpos)

theorem filled_iterated (hl : f.layout = elf32 ∨ f.layout = elf64) (hs : f.sects[i]? = some s)
    (hh : f.shdr s.ptr = .ok h) (hk : Kept s h)
    (hc : (sectionContent i).run f = (.ok buf, g)) (hfill : Filled f h buf) :
    Iterated f i h buf := by
  obtain ⟨b, rfl, hf, hlen, hrun⟩ := readDyns_run hs hh hk hc
  obtain ⟨he, ⟨n, hn⟩, htags⟩ := hfill
  have hentry : 0 < h.entsize := by
    rcases hl with hl | hl <;> simp only [hl, elf32, elf64] at he <;> omega
  have hcount : h.size / h.entsize = n := by rw [hn, Nat.mul_div_cancel_left _ hentry]
  refine ⟨fun _ => ⟨n, fun fuel hfuel => ?_⟩, fun hlt => absurd he (Nat.not_le_of_lt hlt)⟩
  rw [hrun, traverse_whole (k := 0) hl hf he hentry
    (by rw [Nat.zero_add, hlen, hn, Nat.mul_comm]) hfuel (begun_stands b h.entsize),
    ← range_records, hcount, records_cut_iff.mpr (hcount ▸ htags)]

theorem empty_iterated (hs : f.sects[i]? = some s) (hh : f.shdr s.ptr = .ok h) (hk : Kept s h)
    (hc : (sectionContent i).run f = (.ok buf, g)) (hsize : h.size = 0) : Iterated f i h buf := by
  obtain ⟨b, rfl, hf, hlen, hrun⟩ := readDyns_run hs hh hk hc
  have hzero : 0 * h.entsize = b.size := by rw [Nat.zero_mul, hlen, hsize]
  have hstands := begun_stands b h.entsize
  have hnone (fuel : Nat) : ((readDyns fuel i).run f).1 = .ok [] := by
    rw [hrun, fetch_ended hstands hzero, Res.ok_bind, traverse_ended hstands hzero]
  refine ⟨fun _ => ⟨0, fun fuel _ => ?_⟩, fun _ => ⟨_, .inl rfl, 0, fun fuel _ => hnone fuel⟩⟩
  rw [hnone, hsize, Nat.zero_div]
  rfl

theorem dyns_iterated_iff (hl : f.layout = elf32 ∨ f.layout = elf64) (hs : f.sects[i]? = some s)
    (hh : f.shdr s.ptr = .ok h) (hk : Kept s h) :
    (∀ buf g, (sectionContent i).run f = (.ok buf, g) →
      (Iterated f i h buf ↔ h.size = 0 ∨ Filled f h buf)) ∧
    ∀ e g, (sectionContent i).run f = (.error e, g) → ∀ fuel,
      (readDyns fuel i).run f = (.error e, g) := by
  constructor
  · intro buf g hc
    constructor
    · intro hit
      by_cases hsize : h.size = 0
      · exact .inl hsize
      · exact .inr (iterated_filled hl hs hh hk hc hsize hit)
    · rintro (hsize | hfill)
      · exact empty_iterated hs hh hk hc hsize
      · exact filled_iterated hl hs hh hk hc hfill
  · intro e g hc fuel
    have hfirst : (dynIter i false).run f = (.error e, g) := by
      rw [dynIter, get_bind, bind_of_ok (at_some (Int.natCast_nonneg i) hs f), hh, lift_ok_bind,
        bind_of_error hc]
    rw [readDyns]
    exact bind_of_error (bind_of_error hfirst)

end

def loneDynamic (size entsize : Nat) (data : List UInt8) : File :=
  (sections.run (opened .little [] [loneShdr size entsize] data)).2

theorem dyns_iterated_one :
    (∀ buf g, (sectionContent 0).run (loneDynamic 8 8 [1, 0, 0, 0, 2, 0, 0, 0]) = (.ok buf, g) →
      (Iterated (loneDynamic 8 8 [1, 0, 0, 0, 2, 0, 0, 0]) 0 (loneShdr 8 8) buf ↔
        (loneShdr 8 8).size = 0 ∨
          Filled (loneDynamic 8 8 [1, 0, 0, 0, 2, 0, 0, 0]) (loneShdr 8 8) buf)) ∧
    ∀ e g, (sectionContent 0).run (loneDynamic 8 8 [1, 0, 0, 0, 2, 0, 0, 0]) = (.error e, g) →
      ∀ fuel, (readDyns fuel 0).run (loneDynamic 8 8 [1, 0, 0, 0, 2, 0, 0, 0]) = (.error e, g) := by
  have hkept : Kept { ptr := 0 } (loneShdr 8 8) := by
    rintro buf hbuf
    cases hbuf
  exact dyns_iterated_iff (.inl rfl) (i := 0) rfl (by decide) hkept

-- A record and two bytes more: the iterator fetches a second record from these.
theorem dyns_overrun :
    ∃ buf g, (sectionContent 0).run (loneDynamic 10 8 [1, 0, 0, 0, 2, 0, 0, 0, 9, 9]) =
        (.ok buf, g) ∧
      ¬ Iterated (loneDynamic 10 8 [1, 0, 0, 0, 2, 0, 0, 0, 9, 9]) 0 (loneShdr 10 8) buf := by
  refine ⟨_, _, rfl, fun h => ?_⟩
  obtain ⟨k, hk⟩ := h.whole (by decide)
  cases k with
  | zero => cases hk 0 (Nat.le_refl 0)
  | succ k => cases hk (k + 1) (Nat.le_refl _)

end Gelpp.Elf

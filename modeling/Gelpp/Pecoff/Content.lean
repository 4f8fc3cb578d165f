import Gelpp.Pecoff.Sections

namespace Gelpp.Pecoff

open FileM Effect

section
variable {f : File} {i : Nat} {s : Section} {buf : List UInt8}

theorem onStream_run {α : Type} {m : StreamM α} {r : Res α} {t : Stream} (h : m.run f.stream = (r, t)) :
    (onStream m).run f = (r, { f with stream := t }) := by
  change ((m.run f.stream).1, { f with stream := (m.run f.stream).2 }) = _
  rw [h]

theorem at_run (hs : f.sects[i]? = some s) : (at_ f.sects i).run f = (.ok s, f) := by
  rw [at_, hs]
  rfl

theorem readRaw_ok (hc : f.stream.Calm) (hraw : s.hd.sizeOfRawData.toNat < 2 ^ 31)
    (hbytes : s.hd.pointerToRawData.toNat + s.hd.sizeOfRawData.toNat ≤ f.stream.bytes.length)
    (hfit : s.hd.sizeOfRawData.toNat ≤ buf.length) :
    ∃ g, (readRaw i s buf).run f = (.ok (cell f.stream.bytes s.hd.pointerToRawData.toNat
      s.hd.sizeOfRawData.toNat ++ buf.drop s.hd.sizeOfRawData.toNat), g) ∧
      g.sects.length = f.sects.length := by
  have hmove := onStream_run (f := f) (moveTo_served hc.served s.hd.pointerToRawData.toNat)
  have hread := onStream_run
    (f := { f with stream := f.stream.moved s.hd.pointerToRawData.toNat 1 })
    (read_served (hc.moved s.hd.pointerToRawData.toNat 1).served hraw hfit hbytes)
  rw [← toInt_small hraw] at hread
  constructor
  constructor
  · rw [readRaw, bind_of_ok hmove, if_pos rfl, bind_of_ok hread]
    rfl
  · exact File.store_length ..

theorem read_negative {t : Stream} (h : t.fails t.count = false) {len : Int} (hlen : len < 0)
    (hmem : (InStream.delivered t.bytes t.pos len).length ≤ buf.length) :
    ∃ m buf' u, (read buf len).run t = (.ok (.error (.exception m), buf'), u) := by
  rw [read, bind_of_ok (streamRead_fits h hmem)]
  dsimp only
  rw [get_bind]
  by_cases hanswer : InStream.answer (InStream.delivered t.bytes t.pos len) < 0
  · rw [if_pos hanswer]
    exact ⟨_, _, _, rfl⟩
  · rw [if_neg hanswer, if_pos (by omega)]
    exact ⟨_, _, _, rfl⟩

theorem readRaw_error (hc : f.stream.Calm)
    (hbytes : s.hd.pointerToRawData.toNat + s.hd.sizeOfRawData.toNat ≤ f.stream.bytes.length)
    (hlong : 2 ^ 31 ≤ s.hd.sizeOfRawData.toNat ∨ buf.length < s.hd.sizeOfRawData.toNat) :
    ∃ e g, (readRaw i s buf).run f = (.error e, g) := by
  have hlt := s.hd.sizeOfRawData.toNat_lt
  have hmove := onStream_run (f := f) (moveTo_served hc.served s.hd.pointerToRawData.toNat)
  rw [readRaw, bind_of_ok hmove, if_pos rfl]
  have hcalm := hc.moved s.hd.pointerToRawData.toNat 1
  have hdata : (InStream.delivered (f.stream.moved s.hd.pointerToRawData.toNat 1).bytes
      s.hd.pointerToRawData.toNat (toInt s.hd.sizeOfRawData.toNat)).length =
      s.hd.sizeOfRawData.toNat := by
    rw [delivered_toInt hlt]
    exact cell_length hbytes
  by_cases hmem : buf.length < s.hd.sizeOfRawData.toNat
  · have hread : (read buf _).run (f.stream.moved _ 1) = _ :=
      read_long hcalm.served (by rw [moved_pos, hdata]; exact hmem)
    rw [bind_of_error (onStream_run (f := { f with stream := f.stream.moved _ 1 }) hread)]
    exact ⟨_, _, rfl⟩
  · have hneg := toInt_large (hlong.resolve_right hmem) hlt
    have hfits : (InStream.delivered f.stream.bytes s.hd.pointerToRawData.toNat
        (toInt s.hd.sizeOfRawData.toNat)).length ≤ buf.length :=
      hdata.trans_le (Nat.le_of_not_lt hmem)
    obtain ⟨m, mem, t, hread⟩ := read_negative hcalm.served hneg hfits
    rw [bind_of_ok (onStream_run (f := { f with stream := f.stream.moved _ 1 }) hread)]
    exact ⟨_, _, rfl⟩

theorem clearRest_iff (hbuf : buf.length = s.hd.virtualSize.toNat) {buf' : List UInt8} :
    clearRest s.hd buf = .ok buf' ↔ ¬ s.hd.sizeOfRawData < s.hd.virtualSize ∧ buf' = buf := by
  rw [clearRest]
  by_cases hlt : s.hd.sizeOfRawData < s.hd.virtualSize
  · have hpos : 0 < (s.hd.virtualSize - s.hd.sizeOfRawData).toNat := by
      rw [UInt32.toNat_sub_of_le _ _ (UInt32.le_of_lt hlt)]
      have := UInt32.lt_iff_toNat_lt.mp hlt
      omega
    rw [if_pos hlt, ImageSegment.clear, if_neg (by omega)]
    constructor
    · intro h
      cases h
    · rintro ⟨hge, -⟩
      exact absurd hlt hge
  · rw [if_neg hlt]
    constructor
    · intro h
      cases h
      exact ⟨hlt, rfl⟩
    · rintro ⟨-, rfl⟩
      rfl

def Contained (f : File) (i : Nat) (hd : SectionHeader) : Prop :=
  ∃ buf g, (buffer i).run f = (.ok buf, g) ∧ (buffer i).run g = (.ok buf, g) ∧
    buf.length = hd.virtualSize.toNat ∧
    ∀ k < hd.virtualSize.toNat, buf[k]? = some
      (if k < min hd.virtualSize.toNat hd.sizeOfRawData.toNat then
        f.stream.bytes.getD (hd.pointerToRawData.toNat + k) 0 else 0)

theorem allocated (f : File) (hd : SectionHeader) :
    allocate f.junk hd.virtualSize.toNat = .ok ((List.range hd.virtualSize.toNat).map f.junk) := by
  have hlt := hd.virtualSize.toNat_lt
  rw [allocate, if_pos (by omega)]

theorem buffer_start (hs : f.sects[i]? = some s) (hbuf : s.buf = none) :
    (buffer i).run f = (do
      let buf ← fillRaw i s ((List.range s.hd.virtualSize.toNat).map f.junk)
      let buf ← lift (clearRest s.hd buf)
      set i { s with buf := some buf }
      return buf).run (f.store i
        { s with buf := some ((List.range s.hd.virtualSize.toNat).map f.junk) }) := by
  rw [buffer, get_bind, bind_of_ok (at_run hs), hbuf]
  dsimp only
  rw [allocated, lift_ok_bind, FileM.set, modify_bind]

theorem buffer_again (hs : f.sects[i]? = some s) (hbuf : s.buf = some buf) :
    (buffer i).run f = (.ok buf, f) := by
  rw [buffer, get_bind, bind_of_ok (at_run hs), hbuf]
  rfl

theorem fillRaw_exact (hc : f.stream.Calm)
    (hbytes : s.hd.pointerToRawData.toNat + s.hd.sizeOfRawData.toNat ≤ f.stream.bytes.length)
    (hraw : s.hd.sizeOfRawData.toNat < 2 ^ 31) (hbuf : buf.length = s.hd.sizeOfRawData.toNat) :
    ∃ g, (fillRaw i s buf).run f =
      (.ok (cell f.stream.bytes s.hd.pointerToRawData.toNat s.hd.sizeOfRawData.toNat), g) ∧
      g.sects.length = f.sects.length := by
  by_cases hzero : s.hd.sizeOfRawData = 0
  · rw [hzero] at hbuf
    have hnil : buf = [] := List.length_eq_zero_iff.mp hbuf
    rw [fillRaw, if_neg (not_not_intro hzero), hzero, hnil]
    exact ⟨f, rfl, rfl⟩
  · obtain ⟨g, hrun, hg⟩ := readRaw_ok (i := i) hc hraw hbytes (Nat.le_of_eq hbuf.symm)
    rw [List.drop_eq_nil_of_le (Nat.le_of_eq hbuf), List.append_nil] at hrun
    rw [fillRaw, if_pos hzero]
    exact ⟨g, hrun, hg⟩

theorem buffer_exact (hc : f.stream.Calm) (hs : f.sects[i]? = some s) (hbuf : s.buf = none)
    (hbytes : s.hd.pointerToRawData.toNat + s.hd.sizeOfRawData.toNat ≤ f.stream.bytes.length)
    (hsize : s.hd.sizeOfRawData = s.hd.virtualSize) (hraw : s.hd.sizeOfRawData.toNat < 2 ^ 31) :
    ∃ g t, (buffer i).run f = (.ok (cell f.stream.bytes s.hd.pointerToRawData.toNat
      s.hd.sizeOfRawData.toNat), g) ∧ g.sects[i]? = some t ∧ t.buf = some
        (cell f.stream.bytes s.hd.pointerToRawData.toNat s.hd.sizeOfRawData.toNat) := by
  obtain ⟨hi, -⟩ := List.getElem?_eq_some_iff.mp hs
  have hlen : ((List.range s.hd.virtualSize.toNat).map f.junk).length = s.hd.sizeOfRawData.toNat := by
    rw [List.length_map, List.length_range, hsize]
  rw [buffer_start hs hbuf]
  obtain ⟨g, hrun, hg⟩ := fillRaw_exact (i := i) (s := s) (f := f.store i
    { s with buf := some ((List.range s.hd.virtualSize.toNat).map f.junk) }) hc hbytes hraw hlen
  have hclear := (clearRest_iff (s := s) ((cell_length hbytes).trans (congrArg UInt32.toNat hsize))).mpr
    ⟨fun h => UInt32.lt_irrefl _ (hsize ▸ h), rfl⟩
  rw [File.store_stream] at hrun
  rw [bind_of_ok hrun, hclear, lift_ok_bind, FileM.set, modify_bind]
  refine ⟨_, _, rfl, File.store_get _ ?_, rfl⟩
  rw [hg, File.store_length]
  exact hi

theorem fillRaw_long (hc : f.stream.Calm)
    (hbytes : s.hd.pointerToRawData.toNat + s.hd.sizeOfRawData.toNat ≤ f.stream.bytes.length)
    (hlong : 2 ^ 31 ≤ s.hd.sizeOfRawData.toNat ∨ buf.length < s.hd.sizeOfRawData.toNat) :
    ∃ e g, (fillRaw i s buf).run f = (.error e, g) := by
  have hzero : s.hd.sizeOfRawData ≠ 0 := by
    intro hzero
    rw [hzero] at hlong
    simp at hlong
  rw [fillRaw, if_pos hzero]
  exact readRaw_error hc hbytes hlong

theorem fillRaw_short (hc : f.stream.Calm) (hraw : s.hd.sizeOfRawData.toNat < 2 ^ 31)
    (hbytes : s.hd.pointerToRawData.toNat + s.hd.sizeOfRawData.toNat ≤ f.stream.bytes.length)
    (hfit : s.hd.sizeOfRawData.toNat ≤ buf.length) :
    ∃ buf' g, (fillRaw i s buf).run f = (.ok buf', g) ∧ buf'.length = buf.length := by
  rw [fillRaw]
  by_cases hzero : s.hd.sizeOfRawData ≠ 0
  · obtain ⟨g, hrun, -⟩ := readRaw_ok (i := i) hc hraw hbytes hfit
    rw [if_pos hzero]
    refine ⟨_, g, hrun, ?_⟩
    rw [List.length_append, cell_length hbytes, List.length_drop]
    omega
  · rw [if_neg hzero]
    exact ⟨buf, f, rfl, rfl⟩

theorem buffer_failed (hc : f.stream.Calm) (hs : f.sects[i]? = some s) (hbuf : s.buf = none)
    (hbytes : s.hd.pointerToRawData.toNat + s.hd.sizeOfRawData.toNat ≤ f.stream.bytes.length)
    (hsize : ¬ (s.hd.sizeOfRawData = s.hd.virtualSize ∧ s.hd.sizeOfRawData.toNat < 2 ^ 31)) :
    ∃ e g, (buffer i).run f = (.error e, g) := by
  have hlen : ((List.range s.hd.virtualSize.toNat).map f.junk).length = s.hd.virtualSize.toNat := by
    rw [List.length_map, List.length_range]
  rw [buffer_start hs hbuf]
  by_cases hlong : 2 ^ 31 ≤ s.hd.sizeOfRawData.toNat ∨
      s.hd.virtualSize.toNat < s.hd.sizeOfRawData.toNat
  · obtain ⟨e, g, hrun⟩ := fillRaw_long (i := i) (s := s) (f := f.store i
      { s with buf := some ((List.range s.hd.virtualSize.toNat).map f.junk) }) hc hbytes
      (hlen.symm ▸ hlong)
    exact ⟨e, g, bind_of_error hrun⟩
  · -- The raw data is in the memory, and what is cleared is behind it.
    rw [not_or, Nat.not_le, Nat.not_lt] at hlong
    have hlt : s.hd.sizeOfRawData < s.hd.virtualSize := by
      rw [UInt32.lt_iff_toNat_lt]
      apply Nat.lt_of_le_of_ne hlong.2
      exact fun heq => hsize ⟨UInt32.toNat_inj.mp heq, hlong.1⟩
    obtain ⟨buf, g, hrun, hbuflen⟩ := fillRaw_short (i := i) (s := s)
      (f := f.store i
        { s with buf := some ((List.range s.hd.virtualSize.toNat).map f.junk) }) hc hlong.1 hbytes
      (hlen.symm ▸ hlong.2)
    rw [bind_of_ok hrun]
    cases hclear : clearRest s.hd buf with
    | ok buf' => exact absurd hlt ((clearRest_iff (hbuflen.trans hlen)).mp hclear).1
    | error e => exact ⟨e, g, rfl⟩

theorem not_contained {e : Stop} {g : File} (h : (buffer i).run f = (.error e, g))
    (hd : SectionHeader) : ¬ Contained f i hd := by
  rintro ⟨buf, g', hrun, -⟩
  rw [h] at hrun
  cases hrun

theorem buffer_contained_iff (hc : f.stream.Calm) (hs : f.sects[i]? = some s) (hbuf : s.buf = none)
    (hbytes : s.hd.pointerToRawData.toNat + s.hd.sizeOfRawData.toNat ≤ f.stream.bytes.length) :
    Contained f i s.hd ↔
      s.hd.sizeOfRawData = s.hd.virtualSize ∧ s.hd.sizeOfRawData.toNat < 2 ^ 31 := by
  constructor
  · intro hcontained
    by_contra hsize
    obtain ⟨e, g, hfail⟩ := buffer_failed hc hs hbuf hbytes hsize
    exact not_contained hfail s.hd hcontained
  · rintro ⟨hsize, hraw⟩
    obtain ⟨g, t, hrun, ht, hkept⟩ := buffer_exact hc hs hbuf hbytes hsize hraw
    refine ⟨_, g, hrun, buffer_again ht hkept, hsize ▸ cell_length hbytes, fun k hk => ?_⟩
    rw [← hsize] at hk ⊢
    rw [Nat.min_self, if_pos hk, cell, List.getElem?_take_of_lt hk, List.getElem?_drop,
      List.getElem?_eq_getElem (by omega), List.getD_eq_getElem?_getD,
      List.getElem?_eq_getElem (by omega), Option.getD_some]

end

def imageHeader (virtualSize sizeOfRawData : Nat) : SectionHeader :=
  .decode (sectionBytes virtualSize sizeOfRawData)

theorem image_file (virtualSize sizeOfRawData : Nat) (raw : List UInt8) :
    ∃ f, File.construct (fun _ => 1) (fun _ => .ok 0) (imageStream [] virtualSize sizeOfRawData raw) =
      .ok f ∧ f.stream.Calm ∧
      f.stream.bytes = (imageStream [] virtualSize sizeOfRawData raw).bytes ∧
      f.sects[0]? = some { hd := imageHeader virtualSize sizeOfRawData } := by
  obtain ⟨f, pos, k, hrun, hstream, hsects⟩ := construct_run
    (s := imageStream [] virtualSize sizeOfRawData raw) rfl
    (imagePe [] virtualSize sizeOfRawData raw (by decide)) (fun _ => 1) (fun _ => .ok 0)
  refine ⟨f, hrun, ?_, ?_, ?_⟩
  · rw [hstream]
    rfl
  · rw [hstream]
    rfl
  · rw [hsects]
    rfl

theorem buffer_contained_image :
    ∃ f, File.construct (fun _ => 1) (fun _ => .ok 0) (imageStream [] 2 2 (.replicate 8 7)) = .ok f ∧
      (Contained f 0 (imageHeader 2 2) ↔ (imageHeader 2 2).sizeOfRawData = (imageHeader 2 2).virtualSize ∧
        (imageHeader 2 2).sizeOfRawData.toNat < 2 ^ 31) := by
  obtain ⟨f, hrun, hc, hbytes, hs⟩ := image_file 2 2 (.replicate 8 7)
  refine ⟨f, hrun, buffer_contained_iff hc hs rfl ?_⟩
  rw [hbytes]
  decide +kernel

-- A raw size that is rounded up, and a section that ends with zeros.
theorem buffer_overrun :
    (∃ f, File.construct (fun _ => 1) (fun _ => .ok 0) (imageStream [] 2 8 (.replicate 8 7)) = .ok f ∧
      (imageHeader 2 8).pointerToRawData.toNat + (imageHeader 2 8).sizeOfRawData.toNat ≤
        f.stream.bytes.length ∧ ¬ Contained f 0 (imageHeader 2 8)) ∧
    (∃ f, File.construct (fun _ => 1) (fun _ => .ok 0) (imageStream [] 8 2 (.replicate 8 7)) = .ok f ∧
      (imageHeader 8 2).pointerToRawData.toNat + (imageHeader 8 2).sizeOfRawData.toNat ≤
        f.stream.bytes.length ∧ ¬ Contained f 0 (imageHeader 8 2)) := by
  constructor
  · obtain ⟨f, hrun, hc, hbytes, hs⟩ := image_file 2 8 (.replicate 8 7)
    have hraw : (imageHeader 2 8).pointerToRawData.toNat + (imageHeader 2 8).sizeOfRawData.toNat ≤
        f.stream.bytes.length := by
      rw [hbytes]
      decide +kernel
    obtain ⟨e, g, hfail⟩ := buffer_failed hc hs rfl hraw (by decide)
    exact ⟨f, hrun, hraw, not_contained hfail _⟩
  · obtain ⟨f, hrun, hc, hbytes, hs⟩ := image_file 8 2 (.replicate 8 7)
    have hraw : (imageHeader 8 2).pointerToRawData.toNat + (imageHeader 8 2).sizeOfRawData.toNat ≤
        f.stream.bytes.length := by
      rw [hbytes]
      decide +kernel
    obtain ⟨e, g, hfail⟩ := buffer_failed hc hs rfl hraw (by decide)
    exact ⟨f, hrun, hraw, not_contained hfail _⟩

end Gelpp.Pecoff

import Gelpp.Dwarf.UnitBytes
import Gelpp.Dwarf.UnitView
import Gelpp.Dwarf.Progress

namespace Gelpp.Dwarf

def fenced (c : Cursor) : Cursor where
  buf := { c.buf with fence := some 0 }
  off := c.off
  off_le := c.off_le

-- The unit of `s` up to `e` by itself: neither what is around it nor what is around the string
-- sections can be read.
def Scan.alone (s : Scan) (e : Nat) : Scan where
  c := Cursor.forward (.start {
    decoder := s.c.buf.decoder
    bytes := s.c.buf.bytes.take e
    fence := some s.c.off
    size_lt := (List.length_take_le' _ _).trans_lt s.c.buf.size_lt }) s.c.off
  dl := { strSect := fenced s.dl.strSect, lineStrSect := fenced s.dl.lineStrSect }

def Scan.piece (s : Scan) (e : Nat) : Buffer where
  decoder := s.c.buf.decoder
  bytes := (s.c.buf.bytes.take e).drop s.c.off
  size_lt := by
    have hlt := s.c.buf.size_lt
    rw [List.length_drop, List.length_take]
    omega

section
variable (join : Path → Path → Path)

def Says (decoder : Decoder) (strSect lineStrSect : Cursor) (bytes : List UInt8)
    (view : List (Option Call) × List (LineNumber × Option Call)) : Prop :=
  ∃ b : Buffer, b.Holds decoder bytes ∧ ∃ fuel dl u,
    debugLine join fuel b strSect lineStrSect = .ok dl ∧ dl.units = [u] ∧ dl.unitView u = view

def UnitOf (s₀ : Scan) (dl : DebugLine) (bytes : List UInt8) (u : CompilationUnit) : Prop :=
  IsUnit s₀.c.buf.decoder bytes ∧
    Says join s₀.c.buf.decoder s₀.dl.strSect s₀.dl.lineStrSect bytes (dl.unitView u)

def Closes (h : Reader) (e : Nat) : Prop :=
  ∃ r, readHeader join h = .ok r ∧
    (e ≤ r.c.off ∨ ∃ t, Loop.Visits running (step join e) r t ∧ running t = false)

def ClosedAt (s₀ s : Scan) (h : Reader) (e : Nat) : Prop :=
  UnitAt join s₀ s ∧ scanning s = true ∧ openUnit s = .ok (h, e) ∧ Closes join h e

structure Conforming (s₀ : Scan) : Prop where
  defined : Defined join s₀
  onward : ∀ r e code o, OpcodeAt join s₀ r e → Jumps r code o → o ≤ r.c.buf.size →
    r.c.off < o ∨ code = 1
  contained : ∀ s h e, ClosedAt join s₀ s h e → Contained join s.c.off h e

structure Framed (s₀ : Scan) : Prop where
  result : ∀ fuel, s₀.c.buf.size < fuel →
    (∃ t, readAll join fuel s₀ = .ok t) ∨ ∃ m, readAll join fuel s₀ = .error (.exception m)
  units : ∀ s t fuel, UnitAt join s₀ s → scanning s = true → readCU join fuel s = .ok t →
    ∃ length is64 c, readUnitLength s.c = .ok (length, is64, c) ∧
      c.off + length.toNat ≤ s.c.buf.size ∧ t.c.off = c.off + length.toNat ∧
      ∃ u, t.dl.units = s.dl.units ++ [u] ∧ UnitOf join s₀ t.dl (s.piece t.c.off).bytes u
  split : ∀ fuel t, readAll join fuel s₀ = .ok t →
    ∃ pieces : List (List UInt8), s₀.c.buf.bytes = pieces.flatten ∧
    List.Forall₂ (UnitOf join s₀ t.dl) pieces t.dl.units
  cut : ∀ (pieces : List (List UInt8)) (half more : List UInt8), (∀ p ∈ pieces, IsUnit s₀.c.buf.decoder p) →
    IsUnit s₀.c.buf.decoder (half ++ more) → half ≠ [] → more ≠ [] →
    s₀.c.buf.bytes = pieces.flatten ++ half → ∀ fuel, s₀.c.buf.size < fuel →
    ∃ m, readAll join fuel s₀ = .error (.exception m)

end

section
variable {s : Scan} {e : Nat}

theorem alone_c_off (hle : s.c.off ≤ e) : (s.alone e).c.off = s.c.off := by
  have hoff := s.c.off_le
  have hlen : (s.alone e).c.buf.size = min e s.c.buf.size := List.length_take
  change min (0 + s.c.off) (s.alone e).c.buf.size = s.c.off
  omega

theorem alone_sees {d : Cursor} {place : Nat} (hle : s.c.off ≤ e) (he : e ≤ s.c.buf.size)
    (hfree : d.buf.fence = none) (hdec : d.buf.decoder = s.c.buf.decoder)
    (hbytes : (d.buf.bytes.drop place).take (e - s.c.off) = (s.piece e).bytes)
    (hroom : place + (e - s.c.off) ≤ d.buf.size) (hbefore : place ≤ s.c.off) (hoff : d.off = place) :
    Sees ⟨s.c.off, place, e - s.c.off⟩ (s.alone e).c d := by
  have hsize : (s.alone e).c.buf.size = e := by
    change (s.c.buf.bytes.take e).length = e
    rw [List.length_take]
    exact Nat.min_eq_left he
  refine ⟨⟨rfl, ?_, hfree, hroom, hbytes, hdec, hbefore⟩, ?_, ?_⟩
  · dsimp only
    omega
  · rw [alone_c_off hle]
  · rw [alone_c_off hle, hoff]
    dsimp only
    omega

theorem fenced_shelved {c d : Cursor} (hc : c.buf.fence = none) (hd : d.buf = c.buf) :
    Shelved (fenced c) d := by
  refine ⟨rfl, ?_, by rw [hd, hc], ?_, ?_, by rw [hd]; rfl, Nat.le_refl _⟩
  · rw [hd, Nat.zero_add]
    rfl
  · rw [Nat.zero_add]
  · rw [List.drop_zero, List.drop_zero, hd]
    exact List.take_length

theorem alone_here (hs : s.Plain) (hle : s.c.off ≤ e) (he : e ≤ s.c.buf.size) :
    Sees ⟨s.c.off, s.c.off, e - s.c.off⟩ (s.alone e).c s.c := by
  refine alone_sees hle he hs.c rfl ?_ (by omega) (Nat.le_refl _) rfl
  exact List.drop_take.symm

theorem piece_size (he : e ≤ s.c.buf.size) : (s.piece e).size = e - s.c.off := by
  change ((s.c.buf.bytes.take e).drop s.c.off).length = _
  rw [List.length_drop, List.length_take]
  exact congrArg (· - s.c.off) (Nat.min_eq_left he)

theorem alone_piece (hle : s.c.off ≤ e) (he : e ≤ s.c.buf.size) :
    Sees ⟨s.c.off, 0, e - s.c.off⟩ (s.alone e).c (.start (s.piece e)) := by
  have hsize := piece_size he
  refine alone_sees hle he rfl rfl ?_ ?_ (Nat.zero_le _) rfl
  · rw [List.drop_zero]
    exact List.take_of_length_le hsize.le
  · rw [Nat.zero_add]
    exact hsize.ge

variable {length : UInt64} {is64 : Bool} {c : Cursor}

theorem alone_length (hs : s.Plain) (hread : readUnitLength s.c = .ok (length, is64, c))
    (hle : s.c.off ≤ e) (he : e ≤ s.c.buf.size) (hend : c.off + length.toNat = e)
    {v : UInt64 × Bool × Cursor} (hv : readUnitLength (s.alone e).c = .ok v) :
    v.2.2.off + v.1.toNat = e := by
  have hoff : c.off ≤ s.c.off + (e - s.c.off) := by omega
  obtain ⟨u, hu, hlength, -, hsees⟩ := (readUnitLength_echo (alone_here hs hle he)
    (.inr ⟨_, hread, hoff⟩ : False ∨ _)).of_ok hv
  rw [hread, Except.ok.injEq] at hu
  subst hu
  have hshift := hsees.shift
  dsimp only at hlength hshift
  rw [← hlength]
  omega

theorem alone_end (hs : s.Plain) (hread : readUnitLength s.c = .ok (length, is64, c))
    (hle : s.c.off ≤ e) (he : e ≤ s.c.buf.size) (hend : c.off + length.toNat = e) (h : Reader)
    (e' : Nat) (hopen : openUnit (s.alone e) = .ok (h, e')) : e' = s.c.off + (e - s.c.off) := by
  obtain ⟨⟨length', is64', c'⟩, hv, hopen⟩ := Res.bind_ok.mp hopen
  have hlength : c'.off + length'.toNat = e := alone_length hs hread hle he hend hv
  have hlt := s.c.size_lt
  cases hopen
  omega

end

section
variable {join : Path → Path → Path} {s₀ s t : Scan} {fuel : Nat}

structure Sections (s₀ s : Scan) : Prop where
  buf : s.c.buf = s₀.c.buf
  strSect : s.dl.strSect.buf = s₀.dl.strSect.buf
  lineStrSect : s.dl.lineStrSect.buf = s₀.dl.lineStrSect.buf

theorem UnitAt.sections (h : UnitAt join s₀ s) (hs : s₀.Plain) : Sections s₀ s := by
  induction h with
  | refl => exact ⟨rfl, rfl, rfl⟩
  | tail hat hst ih =>
    obtain ⟨hm, fuel, hfuel⟩ := hst
    obtain ⟨hread, -⟩ := unitRead_of_readCU hat (UnitAt.plain hat hs) hm hfuel
    exact ⟨hread.buf.trans ih.buf, hread.strSect.trans ih.strSect,
      hread.lineStrSect.trans ih.lineStrSect⟩

theorem closedAt_of_readCU (hat : UnitAt join s₀ s) (hm : scanning s = true)
    (h : readCU join fuel s = .ok t) : ∃ r e, openUnit s = .ok (r, e) ∧ ClosedAt join s₀ s r e := by
  obtain ⟨⟨r, e⟩, hopen, h⟩ := Res.bind_ok.mp h
  obtain ⟨p, hp, h⟩ := Res.bind_ok.mp h
  obtain ⟨q, hq, -⟩ := Res.bind_ok.mp h
  refine ⟨r, e, hopen, hat, hm, hopen, p, hp, ?_⟩
  rw [runProgram] at hq
  split at hq
  · exact .inr ⟨q, Loop.visits_of_run hq⟩
  · next hle => exact .inl (Nat.le_of_not_lt hle)

structure Enclosed (join : Path → Path → Path) (s t : Scan) (fuel e : Nat) (x : Scan) : Prop where
  length : ∃ length is64 c, readUnitLength s.c = .ok (length, is64, c) ∧ c.off + length.toNat = e
  lt : s.c.off < e
  size : e ≤ s.c.buf.size
  read : readCU join fuel (s.alone e) = .ok x
  alike : ReadAlike False ⟨s.c.off, s.c.off, e - s.c.off⟩ (s.alone e) s x t

theorem enclosed (hs : s₀.Plain) (hc : Conforming join s₀) (hat : UnitAt join s₀ s)
    (hm : scanning s = true) (h : readCU join fuel s = .ok t) :
    ∃ e x, Enclosed join s t fuel e x := by
  have hsp := hat.plain hs
  obtain ⟨r, e, hopen, hclosed⟩ := closedAt_of_readCU hat hm h
  have hcontained := hc.contained s r e hclosed
  obtain ⟨⟨length, is64, c⟩, hread, hr⟩ := Res.bind_ok.mp hopen
  cases hr
  have hpast := (readUnitLength_meets (A := Any) (fun _ => trivial) hsp.c).of_ok hread
  have hbuf : c.buf = s.c.buf := hpast.buf
  have hoff : s.c.off + 4 ≤ c.off := hpast.off
  have hafter : c.off ≤ (c.off + length.toNat) % 2 ^ 64 := hcontained.after
  have hroom : (c.off + length.toNat) % 2 ^ 64 ≤ s.c.buf.size := hbuf ▸ hcontained.room
  have hlt := s.c.size_lt
  have hlength := length.toNat_lt
  have hmod : (c.off + length.toNat) % 2 ^ 64 = c.off + length.toNat := by omega
  rw [hmod] at hcontained hroom hopen
  have hstart : s.c.off < c.off + length.toNat := by omega
  have hend : s.c.off + (c.off + length.toNat - s.c.off) = c.off + length.toNat := by omega
  have hin : Inside join ⟨s.c.off, s.c.off, c.off + length.toNat - s.c.off⟩
      (s.alone (c.off + length.toNat)) s := by
    refine ⟨rfl, rfl, ⟨_, hread, by dsimp only; omega⟩, fun h' e' ht => ?_⟩
    rw [hopen, Except.ok.injEq, Prod.mk.injEq] at ht
    obtain ⟨rfl, -⟩ := ht
    dsimp only
    rw [hend]
    exact ⟨by omega, hcontained⟩
  have hecho : Echo _ _ (readCU join fuel (s.alone (c.off + length.toNat))) (readCU join fuel s) :=
    readCU_echo (alone_here hsp hstart.le hroom) (fenced_shelved hsp.strSect rfl)
      (fenced_shelved hsp.lineStrSect rfl) (alone_end hsp hread hstart.le hroom rfl)
      (.inr hin : False ∨ _)
  obtain ⟨x, hx, halike⟩ := hecho.of_ok_right (fun _ he => he.1.elim) h
  exact ⟨_, x, ⟨length, is64, c, hread, rfl⟩, hstart, hroom, hx, halike⟩

theorem Enclosed.piece {e : Nat} {x : Scan} (h : Enclosed join s t fuel e x) (hs : s.Plain)
    (hsect : Sections s₀ s) :
    ∃ y, readCU join fuel (.start (s.piece e) s₀.dl.strSect s₀.dl.lineStrSect) = .ok y ∧
      ReadAlike True ⟨s.c.off, 0, e - s.c.off⟩ (s.alone e)
        (.start (s.piece e) s₀.dl.strSect s₀.dl.lineStrSect) x y := by
  obtain ⟨length, is64, c, hread, hend⟩ := h.length
  exact (readCU_echo (alone_piece h.lt.le h.size) (fenced_shelved hs.strSect hsect.strSect.symm)
    (fenced_shelved hs.lineStrSect hsect.lineStrSect.symm)
    (alone_end hs hread h.lt.le h.size hend) (.inl trivial)).of_ok h.read

theorem Enclosed.isUnit {e : Nat} {x : Scan} (h : Enclosed join s t fuel e x) (hs : s.Plain) :
    IsUnit s.c.buf.decoder (s.piece e).bytes := by
  obtain ⟨length, is64, c, hread, hend⟩ := h.length
  obtain ⟨⟨r, e'⟩, hopen, -⟩ := Res.bind_ok.mp h.read
  obtain ⟨v, hv, -⟩ := Res.bind_ok.mp hopen
  have hlength := alone_length hs hread h.lt.le h.size hend hv
  obtain ⟨u, hu, hsame, -, hsees⟩ := (readUnitLength_echo (alone_piece h.lt.le h.size)
    (.inl trivial : True ∨ _)).of_ok hv
  have hshift : u.2.2.off + s.c.off = v.2.2.off + 0 := hsees.shift
  have hsize := piece_size h.size
  refine ⟨s.piece e, ⟨rfl, rfl, rfl⟩, u.1, u.2.1, u.2.2, hu, ?_⟩
  rw [← Buffer.size, hsize, hsame]
  omega

theorem debugLine_piece {b : Buffer} {strSect lineStrSect : Cursor} {y : Scan}
    (hy : readCU join fuel (.start b strSect lineStrSect) = .ok y) (hb : 0 < b.size)
    (hend : y.c.buf.size ≤ y.c.off) :
    debugLine join (fuel + 1) b strSect lineStrSect = .ok y.dl := by
  have hmono : readCU join (fuel + 1) (.start b strSect lineStrSect) = .ok y := by
    rw [readCU_mono (Nat.le_succ fuel) (by rw [hy]; exact fun h => by cases h), hy]
  have hm : scanning (.start b strSect lineStrSect) = true := by
    rw [scanning, Cursor.ended, Bool.not_eq_true', decide_eq_false_iff_not]
    exact Nat.not_le.mpr hb
  have hdone : scanning y = false := by
    rw [scanning, Cursor.ended, Bool.not_eq_false', decide_eq_true_eq]
    exact hend
  rw [debugLine, readAll, Loop.run_ok ⟨hm, hmono⟩, Loop.run_done hdone]
  rfl

theorem Enclosed.unitOf {e : Nat} {x : Scan} (h : Enclosed join s t fuel e x)
    (hs : s.Plain) (hp : s₀.Plain) (hsect : Sections s₀ s) :
    ∃ u, t.dl.units = s.dl.units ++ [u] ∧ UnitOf join s₀ t.dl (s.piece e).bytes u := by
  obtain ⟨y, hy, halike⟩ := h.piece hs hsect
  obtain ⟨u, v, hxu, htv, huv⟩ := h.alike.unitView_eq rfl h.alike.dates
  obtain ⟨u', v', hxu', hyv', huv'⟩ := halike.unitView_eq rfl fun f hf => by cases hf
  obtain rfl : u' = u := by
    rw [hxu] at hxu'
    simpa using hxu'.symm
  have hdec : s₀.c.buf.decoder = s.c.buf.decoder := by rw [hsect.buf]
  refine ⟨v, htv, by rw [hdec]; exact h.isUnit hs, s.piece e, ⟨hdec.symm, rfl, rfl⟩, fuel + 1, y.dl, v',
    ?_, hyv', huv'.symm.trans huv⟩
  have hsize := piece_size h.size
  have hlt := h.lt
  have hpiece : (Scan.start (s.piece e) s₀.dl.strSect s₀.dl.lineStrSect).Plain :=
    ⟨rfl, hp.strSect, hp.lineStrSect⟩
  have hm : scanning (.start (s.piece e) s₀.dl.strSect s₀.dl.lineStrSect) = true := by
    rw [scanning, Cursor.ended, Bool.not_eq_true', decide_eq_false_iff_not]
    change ¬ (s.piece e).size ≤ 0
    omega
  obtain ⟨hread, -⟩ := unitRead_of_readCU (.refl) hpiece hm hy
  refine debugLine_piece hy (by omega) ?_
  have hplace := halike.place
  rw [hplace, hread.buf]
  change (s.piece e).size ≤ 0 + (e - s.c.off)
  omega

theorem UnitOf.later {dl dl' : DebugLine} {piece : List UInt8} {u : CompilationUnit}
    (h : UnitOf join s₀ dl piece u) (hview : dl'.unitView u = dl.unitView u) :
    UnitOf join s₀ dl' piece u := by
  refine ⟨h.1, ?_⟩
  rw [hview]
  exact h.2

structure Cut (join : Path → Path → Path) (s₀ s : Scan) : Prop where
  at_unit : UnitAt join s₀ s
  linked : s.Linked
  known : ∀ u ∈ s.dl.units, FilesKnown u
  pieces : ∃ pieces : List (List UInt8), s.c.buf.bytes.take s.c.off = pieces.flatten ∧
    List.Forall₂ (UnitOf join s₀ s.dl) pieces s.dl.units

theorem Cut.next (hcut : Cut join s₀ s) (hp : s₀.Plain) (hc : Conforming join s₀)
    (hm : scanning s = true) (h : readCU join fuel s = .ok t) : Cut join s₀ t := by
  have hsp := hcut.at_unit.plain hp
  obtain ⟨e, x, henc⟩ := enclosed hp hc hcut.at_unit hm h
  obtain ⟨hread, -⟩ := unitRead_of_readCU hcut.at_unit hsp hm h
  obtain ⟨u, hu, hunit⟩ := henc.unitOf hsp hp (hcut.at_unit.sections hp)
  obtain ⟨u', hu', hknown⟩ := hread.units
  obtain rfl : u' = u := by
    rw [hu] at hu'
    simpa using hu'.symm
  obtain ⟨pieces, hbytes, hall⟩ := hcut.pieces
  refine ⟨hcut.at_unit.tail ⟨hm, fuel, h⟩, readCU_linked hcut.linked h, ?_,
    pieces ++ [(s.piece e).bytes], ?_, ?_⟩
  · intro v hv
    rw [hu] at hv
    rcases List.mem_append.mp hv with hv | hv
    · exact hcut.known v hv
    · exact List.mem_singleton.mp hv ▸ hknown
  · have hoff : t.c.off = e := by
      have hplace := henc.alike.place
      have hlt := henc.lt
      dsimp only at hplace
      omega
    rw [List.flatten_append, ← hbytes, hoff, hread.buf, List.flatten_singleton]
    have htake : (s.c.buf.bytes.take e).take s.c.off = s.c.buf.bytes.take s.c.off := by
      rw [List.take_take, Nat.min_eq_left henc.lt.le]
    rw [← htake]
    exact (List.take_append_drop _ _).symm
  · rw [hu]
    have hold := (List.forall₂_and_left _ _).mpr ⟨fun v hv => hv, hall.flip⟩
    have hlater : List.Forall₂ (UnitOf join s₀ t.dl) pieces s.dl.units :=
      List.Forall₂.flip <| hold.imp fun v piece ⟨hv, hpiece⟩ => UnitOf.later hpiece
        (unitView_mono henc.alike.labels (hcut.linked.indexed v hv) (hcut.known v hv))
    exact List.rel_append hlater (.cons hunit .nil)

end

section
variable {join : Path → Path → Path} {s₀ : Scan}

theorem Conforming.goes_on (hc : Conforming join s₀) (hp : s₀.Plain) : Onward join s₀ :=
  fun r e d o hat hd ho hle => by
    obtain ⟨code, hjump, hends⟩ := (decode_jumps (hat.plain hp).c).of_ok hd o ho
    exact (hc.onward r e code o hat hjump hle).imp id hends

theorem Conforming.advances (hc : Conforming join s₀) (hp : s₀.Plain) : Advances join s₀ := by
  intro s t fuel hat hm h
  obtain ⟨e, x, henc⟩ := enclosed hp hc hat hm h
  have hplace := henc.alike.place
  have hlt := henc.lt
  dsimp only at hplace
  omega

theorem Conforming.result (hc : Conforming join s₀) (hp : s₀.Plain) {fuel : Nat}
    (hfuel : s₀.c.buf.size < fuel) :
    (∃ t, readAll join fuel s₀ = .ok t) ∨ ∃ m, readAll join fuel s₀ = .error (.exception m) := by
  have h : Meets Raised (AllRead s₀) (readAll join fuel s₀) :=
    readAll_meets (runAllowed_defined hc.defined) (.inr ⟨⟨hc.goes_on hp, hc.advances hp⟩, hfuel⟩) hp
  cases hrun : readAll join fuel s₀ with
  | ok t => exact .inl ⟨t, rfl⟩
  | error e =>
    obtain ⟨m, rfl⟩ := h.of_error hrun
    exact .inr ⟨m, rfl⟩

theorem Conforming.unit (hc : Conforming join s₀) (hp : s₀.Plain) {s t : Scan} {fuel : Nat}
    (hat : UnitAt join s₀ s) (hm : scanning s = true) (h : readCU join fuel s = .ok t) :
    ∃ length is64 c, readUnitLength s.c = .ok (length, is64, c) ∧
      c.off + length.toNat ≤ s.c.buf.size ∧ t.c.off = c.off + length.toNat ∧
      ∃ u, t.dl.units = s.dl.units ++ [u] ∧ UnitOf join s₀ t.dl (s.piece t.c.off).bytes u := by
  obtain ⟨e, x, henc⟩ := enclosed hp hc hat hm h
  obtain ⟨length, is64, c, hread, hend⟩ := henc.length
  have hoff : t.c.off = e := by
    have hplace := henc.alike.place
    have hlt := henc.lt
    dsimp only at hplace
    omega
  obtain ⟨u, hu, hunit⟩ := henc.unitOf (hat.plain hp) hp (hat.sections hp)
  refine ⟨length, is64, c, hread, hend ▸ henc.size, hoff.trans hend.symm, u, hu, ?_⟩
  rw [hoff]
  exact hunit

theorem Cut.whole {t : Scan} (hcut : Cut join s₀ t) (hp : s₀.Plain) (hm : scanning t = false) :
    ∃ pieces : List (List UInt8), s₀.c.buf.bytes = pieces.flatten ∧
      List.Forall₂ (UnitOf join s₀ t.dl) pieces t.dl.units := by
  obtain ⟨pieces, hbytes, hall⟩ := hcut.pieces
  rw [scanning, Cursor.ended, Bool.not_eq_false', decide_eq_true_eq] at hm
  refine ⟨pieces, ?_, hall⟩
  rw [← hbytes, ← (hcut.at_unit.sections hp).buf]
  exact (List.take_of_length_le hm).symm

end

section
variable {join : Path → Path → Path} {buf : Buffer} {strSect lineStrSect : Cursor}

theorem Cut.start : Cut join (.start buf strSect lineStrSect) (.start buf strSect lineStrSect) :=
  ⟨.refl, start_linked buf strSect lineStrSect, fun u hu => (by cases hu), [], rfl, .nil⟩

theorem units_framed (hbuf : buf.fence = none) (hstr : strSect.buf.fence = none)
    (hlineStr : lineStrSect.buf.fence = none)
    (hc : Conforming join (.start buf strSect lineStrSect)) :
    Framed join (.start buf strSect lineStrSect) := by
  have hp : (Scan.start buf strSect lineStrSect).Plain := ⟨hbuf, hstr, hlineStr⟩
  have hsplit (fuel : Nat) (t : Scan)
      (h : readAll join fuel (.start buf strSect lineStrSect) = .ok t) :
      ∃ pieces : List (List UInt8), buf.bytes = pieces.flatten ∧
        List.Forall₂ (UnitOf join (.start buf strSect lineStrSect) t.dl) pieces t.dl.units := by
    obtain ⟨hv, hm⟩ := Loop.visits_of_run h
    refine Cut.whole ?_ hp hm
    exact Loop.visits_invariant (fun _ _ hcut hst => hcut.next hp hc hst.1 hst.2) Cut.start hv
  refine ⟨fun fuel => hc.result hp, fun s t fuel => hc.unit hp, hsplit, ?_⟩
  intro ps half more hps hlast hhalf hmore hbytes fuel hfuel
  refine (hc.result hp hfuel).resolve_left fun ⟨t, ht⟩ => ?_
  obtain ⟨pieces, hpieces, hall⟩ := hsplit fuel t ht
  have hunits := ((List.forall₂_and_left (p := IsUnit buf.decoder) pieces t.dl.units).mp hall).1
  exact not_flatten_half hps hunits hlast hhalf hmore (hbytes.symm.trans hpieces)

end

section
variable (join : Path → Path → Path)

def framedUnit (fuel : Nat) (s : Scan) : Bool :=
  (openUnit s).toOption.all fun v =>
    decide (v.1.c.off ≤ v.2 ∧ v.2 ≤ v.1.c.buf.size) && headerWithin join s.c.off v.2 v.1 &&
    (readHeader join v.1).toOption.all fun r => !decide (r.c.off < v.2) ||
      Loop.every running (step join v.2) (opcodeWithin s.c.off v.2) fuel r

def framingChecks (fuel : Nat) : Checks where
  unit := framedUnit join fuel
  header _ _ := true
  opcode _ _ := true

variable {join} {fuel : Nat} {s₀ s : Scan} {e : Nat}

theorem contained_of_checks (h : (framingChecks join fuel).passed join fuel s₀ = true) {r : Reader}
    (hs : ClosedAt join s₀ s r e) : Contained join s.c.off r e := by
  obtain ⟨hat, hm, hopen, -⟩ := hs
  have hunit := Checks.of_unit h hat hm
  simp only [Checks.atUnit, framingChecks, framedUnit, Bool.and_eq_true] at hunit
  have hframed := of_all hunit.1.1 hopen
  simp only [Bool.and_eq_true, decide_eq_true_eq] at hframed
  obtain ⟨⟨⟨hafter, hroom⟩, hheader⟩, hprogram⟩ := hframed
  have hopcode (p : Reader) (hp : OpcodeOf join r e p) : opcodeWithin s.c.off e p = true := by
    obtain ⟨r₀, hr₀, hlt, hv, hrun⟩ := hp
    have hevery := of_all hprogram hr₀
    simp only [hlt, decide_true, Bool.not_true, Bool.false_or] at hevery
    exact Loop.of_every hevery hv hrun
  refine ⟨hafter, hroom, headerWithin_sound hheader, fun t ht => ?_, fun p hp => ?_⟩
  · cases ht with
    | header hr ht => exact headerWithin_files hheader hr ht
    | defined hr hd ha =>
      have hop := hopcode _ hr
      simp only [opcodeWithin, Bool.and_eq_true] at hop
      have hne := of_all hop.2 hd
      rw [ha, bne_self_eq_false] at hne
      cases hne
  · have hop := hopcode p hp
    simp only [opcodeWithin, Bool.and_eq_true, decide_eq_true_eq] at hop
    exact hop.1

theorem conforming_of_checks (hprogress : (progressChecks join).passed join fuel s₀ = true)
    (hframing : (framingChecks join fuel).passed join fuel s₀ = true) : Conforming join s₀ where
  defined := defined_of_checks hprogress
  onward r e code o hat hjump hle :=
    ((ahead_of_checks hprogress).opcodes r e code o hat hjump hle).imp id And.left
  contained _ _ _ hclosed := contained_of_checks hframing hclosed

end

-- The unit of `twoRows`, twice.
def twoUnits : Scan :=
  lineBuffer [23, 0, 0, 0, 2, 0, 13, 0, 0, 0, 1, 1, 0xfb, 14, 2, 0, 0, 97, 0, 0, 0, 0, 0, 1, 0, 1, 1,
    23, 0, 0, 0, 2, 0, 13, 0, 0, 0, 1, 1, 0xfb, 14, 2, 0, 0, 97, 0, 0, 0, 0, 0, 1, 0, 1, 1] (by decide)

theorem units_framed_twoUnits : Framed slashed twoUnits :=
  units_framed rfl rfl rfl (conforming_of_checks
    (by decide +kernel : (progressChecks slashed).passed slashed 60 twoUnits = true)
    (by decide +kernel : (framingChecks slashed 60).passed slashed 60 twoUnits = true))

-- The unit of `twoRows` with one byte more in its length than in the buffer.
def shortened : Scan :=
  lineBuffer [24, 0, 0, 0, 2, 0, 13, 0, 0, 0, 1, 1, 0xfb, 14, 2, 0, 0, 97, 0, 0, 0, 0, 0, 1, 0, 1, 1]
    (by decide)

theorem shortened_accepted : ¬ Framed slashed shortened := by
  intro h
  have hread : (readCU slashed 40 shortened).toOption.map (fun t => t.c.off) = some 27 := by
    decide +kernel
  obtain ⟨t, ht, -⟩ := Res.ok_of_map hread
  obtain ⟨length, is64, c, hlength, hin, -⟩ := h.units shortened t 40 .refl (by decide) ht
  have hend : (readUnitLength shortened.c).toOption.map (fun v => v.2.2.off + v.1.toNat) = some 28 := by
    decide +kernel
  rw [hlength] at hend
  have h28 : c.off + length.toNat = 28 := Option.some.inj hend
  have hsize : shortened.c.buf.size = 27 := rfl
  omega

end Gelpp.Dwarf

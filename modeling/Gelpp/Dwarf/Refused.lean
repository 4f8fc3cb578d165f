import Gelpp.Dwarf.Encoding
import Gelpp.Dwarf.Indices

namespace Gelpp.Dwarf

inductive Unknown (s : Reader) : String → Prop
  | standard {k : UInt8} {tail : List UInt8} (hrest : s.c.rest = k :: tail) (hlow : 13 ≤ k.toNat)
      (hhigh : k.toNat < s.sm.opcodeBase.toNat) : Unknown s "invalid debug line standard opcode"
  | extended {ls tail : List UInt8} {b : UInt8} (hbase : 0 < s.sm.opcodeBase.toNat)
      (hrest : s.c.rest = 0 :: (ls ++ b :: tail)) (hls : Operand ls) (hb : b ∉ [1, 2, 3, 4]) :
      Unknown s "invalid debug line extended opcode"

theorem decodeStandard_unknown {k : UInt8} (h : 13 ≤ k.toNat) (c : Cursor) :
    decodeStandard k c = raise "invalid debug line standard opcode" := by
  have hne (n : UInt8) (hn : n.toNat < 13) : k ≠ n := by
    rintro rfl
    omega
  rw [decodeStandard, if_neg (hne 1 (by decide)), if_neg (hne 2 (by decide)),
    if_neg (hne 3 (by decide)), if_neg (hne 4 (by decide)), if_neg (hne 5 (by decide)),
    if_neg (hne 6 (by decide)), if_neg (hne 7 (by decide)), if_neg (hne 8 (by decide)),
    if_neg (hne 9 (by decide)), if_neg (hne 10 (by decide)), if_neg (hne 11 (by decide)),
    if_neg (hne 12 (by decide))]

theorem decodeExtendedOpcode_unknown {b : UInt8} (h : b ∉ [1, 2, 3, 4]) (is64 : Bool) (c : Cursor) :
    decodeExtendedOpcode is64 b c = raise "invalid debug line extended opcode" := by
  simp only [List.mem_cons, List.not_mem_nil, or_false, not_or] at h
  obtain ⟨h1, h2, h3, h4⟩ := h
  rw [decodeExtendedOpcode, if_neg h1, if_neg h2, if_neg h3, if_neg h4]

theorem decode_unknown {s : Reader} {m : String} (hf : s.c.buf.fence = none) (h : Unknown s m) :
    decode s = .error (.exception m) := by
  cases h with
  | @standard k tail hrest hlow hhigh =>
    have h0 : k ≠ 0 := by
      rintro rfl
      simp at hlow
    rw [decode_standard hf hrest hhigh h0, decodeStandard_unknown hlow]
    rfl
  | @extended ls tail b hbase hrest hls hb =>
    rw [decode_extended hf hrest hbase hls, decodeExtendedOpcode_unknown hb]
    rfl

section
variable {join : Path → Path → Path} {s₀ : Scan}

theorem step_unknown {s : Reader} {e : Nat} {m : String} (hf : s.c.buf.fence = none)
    (hlt : s.c.off < e) (h : Unknown s m) : step join e s = .error (.exception m) := by
  rw [step_eq, if_neg (by omega), decode_unknown hf h]
  rfl

-- Each turn of the loop over the units has a fuel of its own; one that is large enough for them
-- all makes the same turns.
theorem UnitAt.run {s : Scan} (h : UnitAt join s₀ s) : ∃ n m, ∀ k, n ≤ k → ∀ j,
    Loop.run .steps scanning (readCU join k) (j + m) s₀ =
      Loop.run .steps scanning (readCU join k) j s := by
  induction h with
  | refl => exact ⟨0, 0, fun _ _ _ => rfl⟩
  | @tail s t _ hst ih =>
    obtain ⟨n, m, hrun⟩ := ih
    obtain ⟨hm, f, hf⟩ := hst
    refine ⟨max n f, m + 1, fun k hk j => ?_⟩
    have hbody : readCU join k s = .ok t := by
      rw [readCU_mono (n := f) (by omega) (by rw [hf]; exact fun h => by cases h), hf]
    have hnext := hrun k (by omega) (j + 1)
    rw [Loop.run_ok ⟨hm, hbody⟩] at hnext
    rw [← hnext]
    congr 1
    omega

theorem UnitAt.raises {s : Scan} {e : Stop} (h : UnitAt join s₀ s) (hm : scanning s = true)
    (hs : ∃ n, ∀ k, n ≤ k → readCU join k s = .error e) :
    ∃ n, ∀ k, n ≤ k → readAll join k s₀ = .error e := by
  obtain ⟨n, m, hrun⟩ := h.run
  obtain ⟨f, hf⟩ := hs
  refine ⟨n + f + m + 1, fun k hk => ?_⟩
  obtain ⟨j, rfl⟩ : ∃ j, k = j + 1 + m := ⟨k - 1 - m, by omega⟩
  rw [readAll, hrun _ (by omega) (j + 1)]
  exact Loop.run_error hm (hf _ (by omega))

theorem OpcodeAt.raises {r : Reader} {e : Nat} {stop : Stop} (h : OpcodeAt join s₀ r e)
    (hstep : step join e r = .error stop) :
    ∃ n, ∀ k, n ≤ k → readAll join k s₀ = .error stop := by
  obtain ⟨r₀, ⟨hd, ⟨s, hs, hm, hopen⟩, hread, hlt⟩, hv, hrun⟩ := h
  obtain ⟨n, hn⟩ : ∃ n, ∀ k, n ≤ k → runSM join k e r₀ = .error stop :=
    Loop.run_error_of_visits hv hrun hstep
  refine hs.raises hm ⟨n, fun k hk => ?_⟩
  rw [readCU, hopen, Res.ok_bind]
  dsimp only
  rw [hread, Res.ok_bind, runProgram, if_pos hlt, hn k hk]
  rfl

end

def firstOpcode (join : Path → Path → Path) (s₀ : Scan) : Res (Reader × Nat) := do
  let (h, e) ← openUnit s₀
  let r ← readHeader join h
  return (r, e)

structure FirstAt (s : Reader) (e off : Nat) (version : UInt16) (opcodeBase : UInt8)
    (rest : List UInt8) : Prop where
  lt : s.c.off < e
  off : s.c.off = off
  version : s.sm.version = version
  opcodeBase : s.sm.opcodeBase = opcodeBase
  rest : s.c.rest = rest

theorem OpcodeAt.first {join : Path → Path → Path} {s₀ : Scan} {e off : Nat} {version : UInt16}
    {opcodeBase : UInt8} {rest : List UInt8} (hm : scanning s₀ = true) (hlt : off < e)
    (h : (firstOpcode join s₀).toOption.map (fun p =>
      ((p.2, p.1.c.off, running p.1), (p.1.sm.version, p.1.sm.opcodeBase), p.1.c.rest)) =
      some ((e, off, true), (version, opcodeBase), rest)) :
    ∃ s, firstOpcode join s₀ = .ok (s, e) ∧ OpcodeAt join s₀ s e ∧
      FirstAt s e off version opcodeBase rest := by
  obtain ⟨⟨s, _⟩, hs, h⟩ := Res.ok_of_map h
  obtain ⟨⟨t, o⟩, hopen, hr⟩ := Res.bind_ok.mp hs
  obtain ⟨u, hread, hu⟩ := Res.bind_ok.mp hr
  cases hu
  simp only [Prod.mk.injEq] at h
  obtain ⟨⟨rfl, rfl, hrun⟩, ⟨rfl, rfl⟩, rfl⟩ := h
  exact ⟨s, hs, ⟨s, ⟨t, ⟨s₀, .refl, hm, hopen⟩, hread, hlt⟩, .refl, hrun⟩, hlt, rfl, rfl, rfl, rfl⟩

theorem unknown_refused {join : Path → Path → Path} {m : String} :
    (∀ s e fuel, s.c.buf.fence = none → running s = true → s.c.off < e → Unknown s m →
      runSM join (fuel + 1) e s = .error (.exception m)) ∧
    ∀ buf strSect lineStrSect, (Scan.start buf strSect lineStrSect).Plain → ∀ r e,
      OpcodeAt join (.start buf strSect lineStrSect) r e → r.c.off < e → Unknown r m →
      ∃ n, ∀ fuel, n ≤ fuel →
        debugLine join fuel buf strSect lineStrSect = .error (.exception m) := by
  refine ⟨fun s e fuel hf hm hlt hu => Loop.run_error hm (step_unknown hf hlt hu), ?_⟩
  intro buf strSect lineStrSect hp r e hr hlt hu
  obtain ⟨n, hn⟩ := hr.raises (step_unknown (hr.plain hp).c hlt hu)
  refine ⟨n, fun fuel hfuel => ?_⟩
  rw [debugLine, hn fuel hfuel]
  rfl

-- A unit with opcode_base 14 and the program copy, end_sequence, then the same with opcode 13, which
-- has no operand, before.
def thirteenOpcodes : Scan :=
  lineBuffer [35, 0, 0, 0, 2, 0, 25, 0, 0, 0, 1, 1, 0xfb, 14, 14, 0, 1, 1, 1, 1, 0, 0, 0, 1, 0, 0, 1, 0,
    0, 97, 0, 0, 0, 0, 0, 1, 0, 1, 1] (by decide)

def vendorOpcode : Scan :=
  lineBuffer [36, 0, 0, 0, 2, 0, 25, 0, 0, 0, 1, 1, 0xfb, 14, 14, 0, 1, 1, 1, 1, 0, 0, 0, 1, 0, 0, 1, 0,
    0, 97, 0, 0, 0, 0, 0, 13, 1, 0, 1, 1] (by decide)

theorem vendorOpcode_reached : ∃ r, OpcodeAt slashed vendorOpcode r 40 ∧ r.c.off < 40 ∧
    Unknown r "invalid debug line standard opcode" := by
  obtain ⟨r, -, hr, hfirst⟩ : ∃ r, firstOpcode slashed vendorOpcode = .ok (r, 40) ∧
      OpcodeAt slashed vendorOpcode r 40 ∧ FirstAt r 40 35 2 14 [13, 1, 0, 1, 1] :=
    OpcodeAt.first rfl (by decide) (by decide +kernel)
  refine ⟨r, hr, hfirst.lt, .standard hfirst.rest (by decide) ?_⟩
  rw [hfirst.opcodeBase]
  decide

theorem unknown_refused_vendorOpcode : ∃ n, ∀ fuel, n ≤ fuel →
    debugLine slashed fuel vendorOpcode.c.buf nullCursor nullCursor =
      .error (.exception "invalid debug line standard opcode") := by
  obtain ⟨r, hr, hlt, hu⟩ := vendorOpcode_reached
  exact unknown_refused.2 vendorOpcode.c.buf nullCursor nullCursor ⟨rfl, rfl, rfl⟩ r 40 hr hlt hu

theorem vendorOpcode_not_skipped :
    (debugLine slashed 40 thirteenOpcodes.c.buf nullCursor nullCursor).toOption.map (fun dl =>
      dl.units.map fun u => u.lines.length) = some [2] ∧
    debugLine slashed 40 vendorOpcode.c.buf nullCursor nullCursor =
      .error (.exception "invalid debug line standard opcode") :=
  ⟨by decide +kernel, Res.stop_eq_some (by decide +kernel)⟩

end Gelpp.Dwarf

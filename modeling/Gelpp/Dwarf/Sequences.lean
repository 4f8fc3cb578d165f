import Gelpp.Dwarf.Indices

namespace Gelpp.Dwarf

open Reader (Plain)

section
variable {join : Path → Path → Path}

theorem runSM_rows {fuel endOffset : Nat} {r t : Reader} (hp : r.Plain) (hm : running r = true)
    (h : runSM join fuel endOffset r = .ok t) :
    Kept r t ∧ r.cu.lines.length < t.cu.lines.length := by
  obtain ⟨hv, hended⟩ := Loop.visits_of_run h
  have hinv : Kept r t ∧ (running t = false → r.cu.lines.length < t.cu.lines.length) := by
    refine Loop.visits_invariant (I := fun u => Kept r u ∧
      (running u = false → r.cu.lines.length < u.cu.lines.length)) ?_
      ⟨.refl r, fun hf => by simp [hm] at hf⟩ hv
    rintro u v ⟨hku, -⟩ ⟨hmu, hst⟩
    obtain ⟨d, hd⟩ := stepped_of_step (hku.plain hp) hst
    refine ⟨hku.trans hd.toKept, fun hmv => ?_⟩
    obtain ⟨rows, hrows, hlen⟩ := hd.rows
    have hle := hku.lines.length_le
    have hends : d.action.ends = true := by
      have hended := hd.ended
      simp only [running, Bool.not_eq_true', Bool.not_eq_false'] at hmu hmv
      rwa [hmu, hmv, Bool.or_false, eq_comm] at hended
    have hrecords : d.action.records = true := Action.records_of_ends hends
    rw [hrows, List.length_append, hlen, hrecords, Bool.toNat_true]
    omega
  exact ⟨hinv.1, hinv.2 hended⟩

def restart (r₀ r : Reader) : Reader := { r with sm := r₀.sm }

inductive Sequences (join : Path → Path → Path) (endOffset : Nat) (r₀ : Reader) :
    Nat → Reader → Prop
  | none : Sequences join endOffset r₀ 0 r₀
  | next {n fuel : Nat} {r t : Reader} (hr : Sequences join endOffset r₀ n r)
      (hlt : r.c.off < endOffset) (ht : runSM join fuel endOffset (restart r₀ r) = .ok t) :
      Sequences join endOffset r₀ (n + 1) t

theorem Sequences.plain {endOffset n : Nat} {r₀ r : Reader} (hp : r₀.Plain)
    (hm : running r₀ = true) (h : Sequences join endOffset r₀ n r) : r.Plain := by
  induction h with
  | none => exact hp
  | @next n fuel r t _ _ ht ih =>
    have hp' : (restart r₀ r).Plain := ⟨ih.c, ih.strSect, ih.lineStrSect⟩
    exact (runSM_rows hp' hm ht).1.plain hp'

theorem Sequences.first {endOffset n : Nat} {r₀ r : Reader} (hp : r₀.Plain)
    (hm : running r₀ = true) (h : Sequences join endOffset r₀ (n + 1) r) :
    ∃ fuel t, r₀.c.off < endOffset ∧ runSM join fuel endOffset r₀ = .ok t ∧
      (n = 0 → t = r) ∧ t.cu.lines.length + n ≤ r.cu.lines.length := by
  induction n generalizing r with
  | zero =>
    cases h with
    | @next _ fuel r _ hr hlt ht =>
      cases hr
      exact ⟨fuel, _, hlt, ht, fun _ => rfl, Nat.le_refl _⟩
  | succ n ih =>
    cases h with
    | @next _ fuel r t hr hlt ht =>
      obtain ⟨fuel', u, h1, h2, -, hlen⟩ := ih hr
      have hrp := hr.plain hp hm
      have hp' : (restart r₀ r).Plain := ⟨hrp.c, hrp.strSect, hrp.lineStrSect⟩
      obtain ⟨-, hlt'⟩ := runSM_rows hp' hm ht
      change r.cu.lines.length < _ at hlt'
      exact ⟨fuel', u, h1, h2, fun h0 => by omega, by omega⟩

def UnitLines (join : Path → Path → Path) (s : Scan) (lines : List LineNumber) : Prop :=
  ∃ fuel t u, readCU join fuel s = .ok t ∧ t.dl.units = s.dl.units ++ [u] ∧ u.lines = lines

theorem readCU_of_first {fuel endOffset : Nat} {s : Scan} {h r₀ t : Reader} (hs : s.Plain)
    (hopen : openUnit s = .ok (h, endOffset)) (hread : readHeader join h = .ok r₀)
    (hlt : r₀.c.off < endOffset) (ht : runSM join fuel endOffset r₀ = .ok t) :
    ∃ u, readCU join fuel s = .ok u ∧ u.dl.units = s.dl.units ++ [t.cu] := by
  have ho := (openUnit_meets (A := Any) hs fun _ => trivial).of_ok hopen
  have hhp := ho.plain hs
  have hhead := (readHeader_meets hhp).of_ok hread
  have hp := hhead.plain hhp
  have hk : Kept r₀ t := by
    refine Loop.visits_invariant (I := Kept r₀) ?_ (.refl r₀) (Loop.visits_of_run ht).1
    rintro u v hku ⟨-, hst⟩
    obtain ⟨d, hd⟩ := stepped_of_step (hku.plain hp) hst
    exact hku.trans hd.toKept
  have hmeets : Meets (fun _ => False) (fun u => u.dl = addUnit t) (closeUnit endOffset t) :=
    (closeUnit_meets (hk.plain hp).c).post fun u hu => hu.2.1
  obtain ⟨u, hclose, hdl⟩ := hmeets.ok_of_never
  refine ⟨u, ?_, ?_⟩
  · rw [readCU, hopen, Res.ok_bind]
    simp only [hread, Res.ok_bind, runProgram, if_pos hlt, ht, hclose]
  · rw [hdl, addUnit, hk.units, hhead.units, ho.units]

theorem unitLines_iff {fuel endOffset : Nat} {s : Scan} {h r₀ t : Reader} (hs : s.Plain)
    (hopen : openUnit s = .ok (h, endOffset)) (hread : readHeader join h = .ok r₀)
    (hlt : r₀.c.off < endOffset) (ht : runSM join fuel endOffset r₀ = .ok t)
    (lines : List LineNumber) : UnitLines join s lines ↔ t.cu.lines = lines := by
  obtain ⟨u, hu, hunits⟩ := readCU_of_first hs hopen hread hlt ht
  constructor
  · rintro ⟨n, v, w, hv, hw, rfl⟩
    have hne : readCU join fuel s ≠ .error .steps := by
      rw [hu]
      exact fun he => by cases he
    rw [readCU_agree hv hne] at hu
    cases hu
    rw [hunits] at hw
    rw [List.singleton_inj.mp (List.append_cancel_left hw)]
  · rintro rfl
    exact ⟨fuel, u, t.cu, hu, hunits, rfl⟩

theorem running_header {s : Scan} {h r₀ : Reader} {endOffset : Nat} (hs : s.Plain)
    (hopen : openUnit s = .ok (h, endOffset)) (hread : readHeader join h = .ok r₀) :
    r₀.Plain ∧ running r₀ = true := by
  have ho := (openUnit_meets (A := Any) hs fun _ => trivial).of_ok hopen
  have hhp := ho.plain hs
  have hhead := (readHeader_meets hhp).of_ok hread
  have hreg := hhead.registers
  rw [ho.sm] at hreg
  have hended : r₀.sm.endSequence = false := congrArg (fun x => x.2.2.2.2.2.2.2) hreg
  exact ⟨hhead.plain hhp, by rw [running, hended]; rfl⟩

theorem sequences_kept_iff {n endOffset : Nat} {s : Scan} {h r₀ r : Reader} (hs : s.Plain)
    (hopen : openUnit s = .ok (h, endOffset)) (hread : readHeader join h = .ok r₀) (hn : 1 ≤ n)
    (hseq : Sequences join endOffset r₀ n r) : UnitLines join s r.cu.lines ↔ n = 1 := by
  obtain ⟨k, rfl⟩ : ∃ k, n = k + 1 := ⟨n - 1, by omega⟩
  obtain ⟨hp, hm⟩ := running_header hs hopen hread
  obtain ⟨fuel, t, hlt, ht, hone, hlen⟩ := hseq.first hp hm
  rw [unitLines_iff hs hopen hread hlt ht]
  constructor
  · intro heq
    rw [heq] at hlen
    omega
  · intro h1
    rw [hone (by omega)]

variable (join)

def nextSequence (fuel endOffset : Nat) (r₀ r : Reader) : Res Reader :=
  if r.c.off < endOffset then runSM join fuel endOffset (restart r₀ r) else .error .steps

def runSequences (fuel : Nat) : Nat → Scan → Res (Reader × Nat × Reader × Reader)
  | 0, s => do
    let (h, endOffset) ← openUnit s
    let r₀ ← readHeader join h
    return (h, endOffset, r₀, r₀)
  | n + 1, s => do
    let (h, endOffset, r₀, r) ← runSequences fuel n s
    let t ← nextSequence join fuel endOffset r₀ r
    return (h, endOffset, r₀, t)

variable {join}

theorem of_runSequences {fuel n : Nat} {s : Scan} {x : Reader × Nat × Reader × Reader}
    (h : runSequences join fuel n s = .ok x) :
    openUnit s = .ok (x.1, x.2.1) ∧ readHeader join x.1 = .ok x.2.2.1 ∧
      Sequences join x.2.1 x.2.2.1 n x.2.2.2 := by
  induction n generalizing x with
  | zero =>
    obtain ⟨v, hopen, h⟩ := Res.bind_ok.mp h
    obtain ⟨r₀, hread, h⟩ := Res.bind_ok.mp h
    cases h
    exact ⟨hopen, hread, .none⟩
  | succ n ih =>
    obtain ⟨y, hy, h⟩ := Res.bind_ok.mp h
    obtain ⟨t, ht, h⟩ := Res.bind_ok.mp h
    cases h
    obtain ⟨hopen, hread, hseq⟩ := ih hy
    unfold nextSequence at ht
    split at ht
    · next hlt => exact ⟨hopen, hread, .next hseq hlt ht⟩
    · cases ht

end

theorem sequences_kept_twoRows : ∃ h e r₀ r, openUnit twoRows = .ok (h, e) ∧
    readHeader slashed h = .ok r₀ ∧ Sequences slashed e r₀ 1 r ∧
    (UnitLines slashed twoRows r.cu.lines ↔ 1 = 1) := by
  have hrun : (runSequences slashed 40 1 twoRows).toOption.isSome = true := by decide +kernel
  cases hx : runSequences slashed 40 1 twoRows with
  | error e =>
    rw [hx] at hrun
    cases hrun
  | ok x =>
    obtain ⟨hopen, hread, hseq⟩ := of_runSequences hx
    exact ⟨x.1, x.2.1, x.2.2.1, x.2.2.2, hopen, hread, hseq,
      sequences_kept_iff ⟨rfl, rfl, rfl⟩ hopen hread (by decide) hseq⟩

-- The sequence copy, end_sequence twice.
def twoSequences : Scan :=
  lineBuffer [27, 0, 0, 0, 2, 0, 13, 0, 0, 0, 1, 1, 0xfb, 14, 2, 0, 0, 97, 0, 0, 0, 0, 0, 1, 0, 1, 1,
    1, 0, 1, 1] (by decide)

theorem twoSequences_lost : ∃ h e r₀ r, openUnit twoSequences = .ok (h, e) ∧
    readHeader slashed h = .ok r₀ ∧ Sequences slashed e r₀ 2 r ∧ r.c.off = e ∧
    ¬ UnitLines slashed twoSequences r.cu.lines := by
  have hrun : (runSequences slashed 40 2 twoSequences).toOption.map (fun x =>
      (x.2.1, x.2.2.2.c.off, x.2.2.2.cu.lines.length)) = some (31, 31, 4) := by decide +kernel
  have hcu : (readCU slashed 40 twoSequences).toOption.map (fun t =>
      t.dl.units.map fun u => u.lines.length) = some [2] := by decide +kernel
  cases hx : runSequences slashed 40 2 twoSequences with
  | error e =>
    rw [hx] at hrun
    cases hrun
  | ok x =>
    rw [hx] at hrun
    have htriple := Option.some.inj hrun
    have hend : x.2.1 = 31 := congrArg (fun y => y.1) htriple
    have hoff : x.2.2.2.c.off = 31 := congrArg (fun y => y.2.1) htriple
    have hlen : x.2.2.2.cu.lines.length = 4 := congrArg (fun y => y.2.2) htriple
    obtain ⟨hopen, hread, hseq⟩ := of_runSequences hx
    refine ⟨x.1, x.2.1, x.2.2.1, x.2.2.2, hopen, hread, hseq, by omega, ?_⟩
    rintro ⟨fuel, t, u, ht, hunits, hlines⟩
    have hne : readCU slashed 40 twoSequences ≠ .error .steps := by
      intro he
      rw [he] at hcu
      cases hcu
    rw [readCU_agree ht hne] at hcu
    have hlens : t.dl.units.map (fun u => u.lines.length) = [2] := Option.some.inj hcu
    rw [hunits, List.map_append, List.map_singleton, hlines, hlen] at hlens
    cases hlens

end Gelpp.Dwarf

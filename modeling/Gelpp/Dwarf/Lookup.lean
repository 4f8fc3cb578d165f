import Gelpp.Dwarf.Tables
import Gelpp.Library.Steps

namespace Gelpp.Dwarf

namespace CompilationUnit

def baseAddress (u : CompilationUnit) : Res UInt64 := do
  let l ← vectorAt u.lines 0
  return l.addr

def topAddress (u : CompilationUnit) : Res UInt64 := do
  let l ← vectorAt u.lines ((u.lines.length : Int) - 1)
  return l.addr

def lineAtFrom (addr : UInt64) (i : Nat) : List LineNumber → Option Nat
  | l :: next :: lines =>
    if l.addr ≤ addr ∧ addr < next.addr then some i else lineAtFrom addr (i + 1) (next :: lines)
  | _ => none

def lineAt (u : CompilationUnit) (addr : UInt64) : Option Nat := lineAtFrom addr 0 u.lines

def spans (u : CompilationUnit) (addr : UInt64) : Res Bool := do
  let base ← u.baseAddress
  if base ≤ addr then
    let top ← u.topAddress
    return decide (addr < top)
  else return false

end CompilationUnit

namespace DebugLine

def lineAtFrom (addr : UInt64) (k : Nat) : List CompilationUnit → Res (Option (Nat × Nat))
  | [] => .ok none
  | u :: units => do
    if ← u.spans addr then return (u.lineAt addr).map fun i => (k, i)
    else lineAtFrom addr (k + 1) units

def lineAt (dl : DebugLine) (addr : UInt64) : Res (Option (Nat × Nat)) :=
  lineAtFrom addr 0 dl.units

end DebugLine

def Ascending (u : CompilationUnit) : Prop := u.lines.Pairwise fun l next => l.addr ≤ next.addr

def RowHolds (u : CompilationUnit) (addr : UInt64) (i : Nat) : Prop :=
  ∃ l next, u.lines[i]? = some l ∧ u.lines[i + 1]? = some next ∧ l.addr ≤ addr ∧ addr < next.addr

section
variable {u : CompilationUnit} {addr : UInt64}

theorem rowHolds_iff {i : Nat} : RowHolds u addr i ↔
    Steps.Encloses (fun l : LineNumber => l.addr.toNat) u.lines addr.toNat i := by
  simp only [RowHolds, Steps.Encloses, UInt64.le_iff_toNat_le, UInt64.lt_iff_toNat_lt]

theorem lineAtFrom_some {lines : List LineNumber} {n i : Nat}
    (h : CompilationUnit.lineAtFrom addr n lines = some i) :
    ∃ j, i = n + j ∧ RowHolds { lines } addr j := by
  induction lines generalizing n with
  | nil => cases h
  | cons l lines ih =>
    cases lines with
    | nil => cases h
    | cons next lines =>
      rw [CompilationUnit.lineAtFrom] at h
      split at h
      · next hrow =>
        cases h
        exact ⟨0, rfl, l, next, rfl, rfl, hrow.1, hrow.2⟩
      · obtain ⟨j, rfl, hj⟩ := ih h
        refine ⟨j + 1, by omega, ?_⟩
        rw [rowHolds_iff] at hj ⊢
        exact Steps.encloses_cons hj

theorem lineAtFrom_none {lines : List LineNumber} {n : Nat}
    (h : CompilationUnit.lineAtFrom addr n lines = none) (i : Nat) :
    ¬ RowHolds { lines } addr i := by
  induction lines generalizing n i with
  | nil => exact fun hi => Steps.not_encloses_nil (rowHolds_iff.mp hi)
  | cons l lines ih =>
    cases lines with
    | nil =>
      rintro ⟨x, y, -, hy, -⟩
      simp at hy
    | cons next lines =>
      rw [CompilationUnit.lineAtFrom] at h
      split at h
      · cases h
      · next hrow =>
        intro hi
        cases i with
        | zero =>
          obtain ⟨x, y, hx, hy, hle, hlt⟩ := hi
          cases hx
          cases hy
          exact hrow ⟨hle, hlt⟩
        | succ i =>
          rw [rowHolds_iff] at hi
          exact ih h i (rowHolds_iff.mpr (Steps.encloses_tail hi))

theorem spans_empty (h : u.lines = []) : u.spans addr = .error (.fault .index) := by
  rw [CompilationUnit.spans, CompilationUnit.baseAddress, h]
  rfl

theorem spans_rows (h : u.lines ≠ []) (ha : Ascending u) (addr : UInt64) :
    ∃ b, u.spans addr = .ok b ∧ (b = true ↔ ∃ i, RowHolds u addr i) := by
  obtain ⟨l, lines, hl⟩ := List.exists_cons_of_ne_nil h
  have hbase : u.baseAddress = .ok l.addr := by
    rw [CompilationUnit.baseAddress, hl]
    rfl
  have htop : u.topAddress = .ok ((l :: lines).getLast (List.cons_ne_nil l lines)).addr := by
    have hlast : vectorAt (l :: lines) (((l :: lines).length : Int) - 1) =
        .ok ((l :: lines).getLast (List.cons_ne_nil l lines)) := by
      have hindex : ((l :: lines).length : Int) - 1 = (lines.length : Nat) := by
        simp
      rw [hindex, vectorAt_of_lt (by simp), List.getLast_eq_getElem]
      rfl
    rw [CompilationUnit.topAddress, hl, hlast]
    rfl
  have hasc : (l :: lines).Pairwise fun x y => x.addr.toNat ≤ y.addr.toNat := by
    rw [← hl]
    exact ha.imp fun hxy => UInt64.le_iff_toNat_le.mp hxy
  have hholds : (∃ i, RowHolds u addr i) ↔ l.addr ≤ addr ∧
      addr < ((l :: lines).getLast (List.cons_ne_nil l lines)).addr := by
    simp only [rowHolds_iff, hl, UInt64.le_iff_toNat_le, UInt64.lt_iff_toNat_lt]
    constructor
    · rintro ⟨i, hi⟩
      exact hi.hull hasc
    · rintro ⟨hlow, hhigh⟩
      exact Steps.exists_encloses hlow hhigh
  rw [CompilationUnit.spans, hbase, htop]
  by_cases hlow : l.addr ≤ addr
  · refine ⟨_, if_pos hlow, ?_⟩
    rw [hholds, decide_eq_true_eq]
    exact ⟨fun hhigh => ⟨hlow, hhigh⟩, fun h => h.2⟩
  · refine ⟨false, if_neg hlow, ?_⟩
    rw [hholds]
    exact ⟨fun h => (by cases h), fun h => absurd h.1 hlow⟩

end

section
variable {units : List CompilationUnit} {addr : UInt64}

def Holds (units : List CompilationUnit) (addr : UInt64) (k i : Nat) : Prop :=
  ∃ u, units[k]? = some u ∧ RowHolds u addr i

def Sheltered (units : List CompilationUnit) (addr : UInt64) : Prop :=
  ∀ j u, units[j]? = some u → u.lines = [] → ∃ k i, k < j ∧ Holds units addr k i

theorem Sheltered.tail {u : CompilationUnit} (h : Sheltered (u :: units) addr)
    (hu : ¬ ∃ i, RowHolds u addr i) : Sheltered units addr := by
  intro j v hv hrows
  obtain ⟨k, i, hk, w, hw, hi⟩ := h (j + 1) v (by simpa using hv) hrows
  cases k with
  | zero =>
    cases hw
    exact absurd ⟨i, hi⟩ hu
  | succ k => exact ⟨k, i, by omega, w, by simpa using hw, hi⟩

theorem sheltered_cons {u : CompilationUnit} (hrows : u.lines ≠ []) (h : Sheltered units addr) :
    Sheltered (u :: units) addr := by
  intro j v hv hempty
  cases j with
  | zero =>
    cases hv
    exact absurd hempty hrows
  | succ j =>
    obtain ⟨k, i, hk, w, hw, hi⟩ := h j v (by simpa using hv) hempty
    exact ⟨k + 1, i, by omega, w, by simpa using hw, hi⟩

theorem sheltered_of_head {u : CompilationUnit} {i : Nat} (hrows : u.lines ≠ [])
    (hi : RowHolds u addr i) : Sheltered (u :: units) addr := by
  intro j v hv hempty
  cases j with
  | zero =>
    cases hv
    exact absurd hempty hrows
  | succ j => exact ⟨0, i, by omega, u, rfl, hi⟩

theorem lineAtFrom_next {u : CompilationUnit} {n : Nat} (hrows : u.lines ≠ []) (ha : Ascending u)
    (hu : ¬ ∃ i, RowHolds u addr i) :
    DebugLine.lineAtFrom addr n (u :: units) = DebugLine.lineAtFrom addr (n + 1) units := by
  obtain ⟨b, hb, hiff⟩ := spans_rows hrows ha addr
  have hfalse : b = false := by
    cases b with
    | false => rfl
    | true => exact absurd (hiff.mp rfl) hu
  rw [DebugLine.lineAtFrom, hb, hfalse]
  rfl

theorem lineAtFrom_here {u : CompilationUnit} (units : List CompilationUnit) (n : Nat)
    (hrows : u.lines ≠ []) (ha : Ascending u)
    (hu : ∃ i, RowHolds u addr i) :
    ∃ i, DebugLine.lineAtFrom addr n (u :: units) = .ok (some (n, i)) ∧ RowHolds u addr i := by
  obtain ⟨b, hb, hiff⟩ := spans_rows hrows ha addr
  have htrue : b = true := hiff.mpr hu
  have hwalk : DebugLine.lineAtFrom addr n (u :: units) =
      .ok ((u.lineAt addr).map fun i => (n, i)) := by
    rw [DebugLine.lineAtFrom, hb, htrue]
    rfl
  cases hline : u.lineAt addr with
  | none =>
    obtain ⟨i, hi⟩ := hu
    exact absurd hi (lineAtFrom_none hline i)
  | some i =>
    obtain ⟨j, hj, hrow⟩ := lineAtFrom_some hline
    rw [Nat.zero_add] at hj
    rw [hwalk, hline]
    exact ⟨i, rfl, hj ▸ hrow⟩

theorem lineAtFrom_found {n : Nat} (ha : ∀ u ∈ units, Ascending u) (hs : Sheltered units addr) :
    ∃ r, DebugLine.lineAtFrom addr n units = .ok r ∧
      (∀ p, r = some p → ∃ k i, p = (n + k, i) ∧ Holds units addr k i) ∧
      (r = none → ∀ k i, ¬ Holds units addr k i) := by
  induction units generalizing n with
  | nil =>
    refine ⟨none, rfl, fun p hp => (by cases hp), fun _ k i => ?_⟩
    rintro ⟨u, hu, -⟩
    simp at hu
  | cons u units ih =>
    have hrows : u.lines ≠ [] := by
      intro hempty
      obtain ⟨k, i, hk, -⟩ := hs 0 u rfl hempty
      exact absurd hk (Nat.not_lt_zero k)
    have hau : Ascending u := ha u (by simp)
    by_cases hu : ∃ i, RowHolds u addr i
    · obtain ⟨i, hi, hrow⟩ := lineAtFrom_here units n hrows hau hu
      refine ⟨_, hi, ?_, fun h => (by cases h)⟩
      rintro p hp
      cases hp
      exact ⟨0, i, rfl, u, rfl, hrow⟩
    · obtain ⟨r, hr, hsome, hnone⟩ := ih (n := n + 1) (fun v hv => ha v (by simp [hv])) (hs.tail hu)
      refine ⟨r, (lineAtFrom_next hrows hau hu).trans hr, ?_, ?_⟩
      · intro p hp
        obtain ⟨k, i, rfl, v, hv, hi⟩ := hsome p hp
        exact ⟨k + 1, i, by rw [Nat.add_assoc, Nat.add_comm 1 k], v, by simpa using hv, hi⟩
      · rintro hn k i ⟨v, hv, hi⟩
        cases k with
        | zero =>
          cases hv
          exact hu ⟨i, hi⟩
        | succ k => exact hnone hn k i ⟨v, by simpa using hv, hi⟩

theorem lineAtFrom_lost {n : Nat} (ha : ∀ u ∈ units, Ascending u) (hs : ¬ Sheltered units addr) :
    DebugLine.lineAtFrom addr n units = .error (.fault .index) := by
  induction units generalizing n with
  | nil =>
    refine absurd (fun j u hu _ => ?_) hs
    simp at hu
  | cons u units ih =>
    by_cases hrows : u.lines = []
    · rw [DebugLine.lineAtFrom, spans_empty hrows]
      rfl
    · have hu : ¬ ∃ i, RowHolds u addr i := fun ⟨_, hi⟩ => hs (sheltered_of_head hrows hi)
      rw [lineAtFrom_next hrows (ha u (by simp)) hu]
      exact ih (fun v hv => ha v (by simp [hv])) fun h => hs (sheltered_cons hrows h)

end

def LineFound (dl : DebugLine) (addr : UInt64) : Prop :=
  ∃ r, dl.lineAt addr = .ok r ∧ (∀ k i, r = some (k, i) → Holds dl.units addr k i) ∧
    (r = none → ∀ k i, ¬ Holds dl.units addr k i)

theorem line_found_iff {dl : DebugLine} (ha : ∀ u ∈ dl.units, Ascending u) (addr : UInt64) :
    LineFound dl addr ↔ Sheltered dl.units addr := by
  constructor
  · rintro ⟨r, hr, -⟩
    by_contra hs
    rw [DebugLine.lineAt, lineAtFrom_lost ha hs] at hr
    cases hr
  · intro hs
    obtain ⟨r, hr, hsome, hnone⟩ := lineAtFrom_found (n := 0) ha hs
    refine ⟨r, hr, fun k i hp => ?_, hnone⟩
    obtain ⟨k', i', heq, hi⟩ := hsome _ hp
    rw [Nat.zero_add] at heq
    cases heq
    exact hi

def row (addr : UInt64) (line : Int32) : LineNumber where
  addr := addr
  file := 0
  line := line
  col := 0
  flags := 0
  isa := 0
  disc := 0
  opi := 0

def tabled (units : List CompilationUnit) : DebugLine where
  units := units
  strSect := nullCursor
  lineStrSect := nullCursor

theorem line_found_second : LineFound (tabled [{ lines := [row 0 1, row 4 2] },
      { lines := [row 8 1, row 12 2] }]) 9 ↔
    Sheltered [{ lines := [row 0 1, row 4 2] }, { lines := [row 8 1, row 12 2] }] 9 :=
  line_found_iff (by simp [tabled, Ascending, row]) 9

-- A unit that has only a header comes first.
theorem headerOnly_lost : (∀ u ∈ (tabled [{}, { lines := [row 0 1, row 4 2] }]).units, Ascending u) ∧
    ¬ LineFound (tabled [{}, { lines := [row 0 1, row 4 2] }]) 2 := by
  refine ⟨by simp [tabled, Ascending, row], ?_⟩
  rintro ⟨r, hr, -⟩
  cases hr

end Gelpp.Dwarf

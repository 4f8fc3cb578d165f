import Gelpp.Dwarf.Linked
import Gelpp.Dwarf.Lookup
import Gelpp.Dwarf.Indices

namespace Gelpp.Dwarf

namespace CompilationUnit

def addrAt (u : CompilationUnit) (i : Nat) : UInt64 := (u.lines[i]?.map LineNumber.addr).getD 0

def rows (u : CompilationUnit) (f : Nat) (line : Int32) : List Nat :=
  (List.range (u.lines.length - 1)).filter fun i =>
    u.lines[i]?.any fun l => l.file = f ∧ l.line = line

def range (u : CompilationUnit) (i : Nat) : UInt64 × UInt64 := (u.addrAt i, u.addrAt (i + 1))

end CompilationUnit

namespace DebugLine

def unitRows (dl : DebugLine) (f : Nat) (line : Int32) (k : Nat) : List (Nat × Nat) :=
  ((dl.units[k]?.map fun u => u.rows f line).getD []).map fun i => (k, i)

def findRows (dl : DebugLine) (f : Nat) (line : Int32) : List (Nat × Nat) :=
  ((dl.files[f]?.map File.units).getD []).flatMap (dl.unitRows f line)

def rangeAt (dl : DebugLine) (p : Nat × Nat) : UInt64 × UInt64 :=
  (dl.units[p.1]?.map fun u => u.range p.2).getD (0, 0)

def find (dl : DebugLine) (f : Nat) (line : Int32) : List (UInt64 × UInt64) :=
  (dl.findRows f line).map dl.rangeAt

def Reports (dl : DebugLine) (f : Nat) (line : Int32) (k : Nat) (r : UInt64 × UInt64) : Prop :=
  ∃ i, (k, i) ∈ dl.findRows f line ∧ dl.rangeAt (k, i) = r

end DebugLine

section
variable {u : CompilationUnit} {dl : DebugLine} {f k i : Nat} {line : Int32} {addr : UInt64}

theorem mem_rows : i ∈ u.rows f line ↔ ∃ l next, u.lines[i]? = some l ∧
    u.lines[i + 1]? = some next ∧ l.file = f ∧ l.line = line := by
  rw [CompilationUnit.rows, List.mem_filter, List.mem_range]
  constructor
  · rintro ⟨hlt, hany⟩
    have hi : i < u.lines.length := by omega
    rw [List.getElem?_eq_getElem hi] at hany ⊢
    have hrow : u.lines[i].file = f ∧ u.lines[i].line = line := by simpa using hany
    exact ⟨_, _, rfl, List.getElem?_eq_getElem (by omega), hrow⟩
  · rintro ⟨l, next, hl, hnext, hrow⟩
    obtain ⟨hlt, -⟩ := List.getElem?_eq_some_iff.mp hnext
    refine ⟨by omega, ?_⟩
    rw [hl]
    simpa using hrow

theorem mem_unitRows {p : Nat × Nat} : p ∈ dl.unitRows f line k ↔
    ∃ u, dl.units[k]? = some u ∧ p.1 = k ∧ p.2 ∈ u.rows f line := by
  rw [DebugLine.unitRows, List.mem_map]
  cases dl.units[k]? with
  | none => simp
  | some u =>
    constructor
    · rintro ⟨i, hi, rfl⟩
      exact ⟨u, rfl, rfl, hi⟩
    · rintro ⟨v, hv, rfl, hi⟩
      cases hv
      exact ⟨p.2, hi, rfl⟩

theorem mem_findRows : (k, i) ∈ dl.findRows f line ↔ ∃ file u, dl.files[f]? = some file ∧
    k ∈ file.units ∧ dl.units[k]? = some u ∧ i ∈ u.rows f line := by
  rw [DebugLine.findRows, List.mem_flatMap]
  constructor
  · rintro ⟨k', hk', hmem⟩
    obtain ⟨u, hu, rfl, hi⟩ := mem_unitRows.mp hmem
    cases hf : dl.files[f]? with
    | none =>
      rw [hf] at hk'
      cases hk'
    | some file =>
      rw [hf] at hk'
      exact ⟨file, u, rfl, hk', hu, hi⟩
  · rintro ⟨file, u, hf, hk, hu, hi⟩
    rw [hf]
    exact ⟨k, hk, mem_unitRows.mpr ⟨u, hu, rfl, hi⟩⟩

theorem rangeAt_unit (hu : dl.units[k]? = some u) : dl.rangeAt (k, i) = u.range i := by
  rw [DebugLine.rangeAt, hu]
  rfl

theorem range_rows {l next : LineNumber} (hl : u.lines[i]? = some l)
    (hnext : u.lines[i + 1]? = some next) : u.range i = (l.addr, next.addr) := by
  rw [CompilationUnit.range, CompilationUnit.addrAt, CompilationUnit.addrAt, hl, hnext]
  rfl

theorem Linked.mem_units (h : Linked dl.pool dl.units) {file : File} (hf : dl.files[f]? = some file)
    (hu : dl.units[k]? = some u) : k ∈ file.units ↔ f ∈ u.files := by
  have hcount := h.count f k
  rw [Pool.owners, DebugLine.pool_get, hf, hu] at hcount
  change file.units.count k = u.files.count f at hcount
  rw [← List.count_pos_iff, hcount, List.count_pos_iff]

theorem rowHolds_unique {j : Nat} (ha : Ascending u) (hi : RowHolds u addr i)
    (hj : RowHolds u addr j) : i = j := by
  rw [rowHolds_iff] at hi hj
  exact hi.unique (ha.imp fun hxy => UInt64.le_iff_toNat_le.mp hxy) hj

theorem lineAt_iff (ha : Ascending u) : u.lineAt addr = some i ↔ RowHolds u addr i := by
  constructor
  · intro h
    obtain ⟨j, hj, hrow⟩ := lineAtFrom_some h
    rw [Nat.zero_add] at hj
    exact hj ▸ hrow
  · intro hi
    cases h : u.lineAt addr with
    | none => exact absurd hi (lineAtFrom_none h i)
    | some j =>
      obtain ⟨m, hm, hrow⟩ := lineAtFrom_some h
      rw [Nat.zero_add] at hm
      rw [rowHolds_unique ha hi (hm ▸ hrow)]

def LooksUp (u : CompilationUnit) (f : Nat) (line : Int32) (addr : UInt64) : Prop :=
  ∃ i l, u.lineAt addr = some i ∧ u.lines[i]? = some l ∧ l.file = f ∧ l.line = line

def Covers (dl : DebugLine) (f : Nat) (line : Int32) (k : Nat) (addr : UInt64) : Prop :=
  ∃ lo hi, dl.Reports f line k (lo, hi) ∧ lo ≤ addr ∧ addr < hi

theorem looksUp_iff_covers (h : Linked dl.pool dl.units) (hu : dl.units[k]? = some u)
    (hknown : FilesKnown u) (ha : Ascending u) :
    LooksUp u f line addr ↔ Covers dl f line k addr := by
  constructor
  · rintro ⟨i, l, hline, hl, hfile, hrow⟩
    obtain ⟨l', next, hl', hnext, hle, hlt⟩ := (lineAt_iff ha).mp hline
    rw [hl] at hl'
    cases hl'
    have hmem : f ∈ u.files := hfile ▸ hknown l (List.mem_of_getElem? hl)
    have hflt : f < dl.files.length := by
      have := h.indexed u (List.mem_of_getElem? hu) f hmem
      rwa [DebugLine.pool_length] at this
    have hf := List.getElem?_eq_getElem hflt
    refine ⟨l.addr, next.addr, ⟨i, mem_findRows.mpr ⟨_, u, hf, (h.mem_units hf hu).mpr hmem, hu, ?_⟩, ?_⟩,
      hle, hlt⟩
    · exact mem_rows.mpr ⟨l, next, hl, hnext, hfile, hrow⟩
    · rw [rangeAt_unit hu, range_rows hl hnext]
  · rintro ⟨lo, hi, ⟨i, hmem, hrange⟩, hle, hlt⟩
    obtain ⟨file, v, hf, hk, hv, hi⟩ := mem_findRows.mp hmem
    rw [hu] at hv
    cases hv
    obtain ⟨l, next, hl, hnext, hfile, hrow⟩ := mem_rows.mp hi
    rw [rangeAt_unit hu, range_rows hl hnext] at hrange
    cases hrange
    exact ⟨i, l, (lineAt_iff ha).mpr ⟨l, next, hl, hnext, hle, hlt⟩, hl, hfile, hrow⟩

end

section
variable {join : Path → Path → Path} {fuel : Nat} {buf : Buffer} {strSect lineStrSect : Cursor}
  {dl : DebugLine}

theorem find_inverse (hbuf : buf.fence = none) (hstr : strSect.buf.fence = none)
    (hlineStr : lineStrSect.buf.fence = none)
    (h : debugLine join fuel buf strSect lineStrSect = .ok dl) (ha : ∀ u ∈ dl.units, Ascending u)
    {k : Nat} {u : CompilationUnit} (hu : dl.units[k]? = some u) (f : Nat) (line : Int32)
    (addr : UInt64) : LooksUp u f line addr ↔ Covers dl f line k addr := by
  have hlinked := debugLine_linked h
  obtain ⟨s, hs, hdl⟩ := Res.bind_ok.mp h
  cases hdl
  have hmem : u ∈ s.dl.units := List.mem_of_getElem? hu
  have hplain : (Scan.start buf strSect lineStrSect).Plain := ⟨hbuf, hstr, hlineStr⟩
  have hread : AllRead _ s := (readAll_meets runAllowed_any (.inl trivial) hplain).of_ok hs
  have hknown : FilesKnown u := (hread.units u hmem).resolve_left fun h => by cases h
  exact looksUp_iff_covers hlinked hu hknown (ha u hmem)

-- A unit with the file a and the program copy, advance_pc 4, end_sequence.
def spread : Scan :=
  lineBuffer [26, 0, 0, 0, 2, 0, 14, 0, 0, 0, 1, 1, 0xfb, 14, 3, 0, 1, 0, 97, 0, 0, 0, 0, 0, 1, 2, 4,
    0, 1, 1] (by decide)

theorem find_inverse_spread : ∃ dl u,
    debugLine slashed 40 spread.c.buf nullCursor nullCursor = .ok dl ∧ dl.units[0]? = some u ∧
    (LooksUp u 0 1 2 ↔ Covers dl 0 1 0 2) := by
  have hrows : (debugLine slashed 40 spread.c.buf nullCursor nullCursor).toOption.map
      (fun dl => dl.units.map fun u => u.lines.map LineNumber.addr) = some [[0, 4]] := by
    decide +kernel
  cases h : debugLine slashed 40 spread.c.buf nullCursor nullCursor with
  | error e =>
    rw [h] at hrows
    cases hrows
  | ok dl =>
    rw [h] at hrows
    obtain ⟨u, hunits, hlines⟩ := List.map_eq_singleton_iff.mp (Option.some.inj hrows)
    have hu : dl.units[0]? = some u := by rw [hunits]; rfl
    refine ⟨dl, u, rfl, hu, find_inverse rfl rfl rfl h (fun v hv => ?_) hu 0 1 2⟩
    rw [hunits, List.mem_singleton] at hv
    subst hv
    have hsorted : (v.lines.map LineNumber.addr).Pairwise (· ≤ ·) := by
      rw [hlines]
      decide
    exact List.pairwise_map.mp hsorted

end

structure LinkedOnce (dl : DebugLine) : Prop where
  once : ∀ (f : Nat) (file : File) (k : Nat) (u : CompilationUnit), dl.files[f]? = some file →
    dl.units[k]? = some u → file.units.count k = if f ∈ u.files then 1 else 0
  rows : ∀ f line, (dl.findRows f line).Nodup

section
variable {dl : DebugLine}

theorem rows_nodup (u : CompilationUnit) (f : Nat) (line : Int32) : (u.rows f line).Nodup :=
  List.nodup_range.filter _

theorem unitRows_nodup (dl : DebugLine) (f : Nat) (line : Int32) (k : Nat) :
    (dl.unitRows f line k).Nodup := by
  rw [DebugLine.unitRows]
  refine List.Nodup.map (fun i j hij => (Prod.mk.inj hij).2) ?_
  cases dl.units[k]? with
  | none => exact .nil
  | some u => exact rows_nodup u f line

theorem findRows_nodup {f : Nat} (hunits : ∀ file, dl.files[f]? = some file → file.units.Nodup)
    (line : Int32) : (dl.findRows f line).Nodup := by
  rw [DebugLine.findRows]
  cases hf : dl.files[f]? with
  | none => exact .nil
  | some file =>
    refine List.nodup_flatMap.mpr ⟨fun k _ => unitRows_nodup dl f line k, ?_⟩
    refine (hunits file hf).imp fun hne p hp hq => ?_
    obtain ⟨-, -, hpk, -⟩ := mem_unitRows.mp hp
    obtain ⟨-, -, hqk, -⟩ := mem_unitRows.mp hq
    exact hne (hpk.symm.trans hqk)

theorem linkedOnce_of_nodup (h : Linked dl.pool dl.units) (hn : ∀ u ∈ dl.units, u.files.Nodup) :
    LinkedOnce dl := by
  have hcount (f : Nat) (file : File) (hf : dl.files[f]? = some file) (k : Nat) :
      file.units.count k = ((dl.units[k]?.map CompilationUnit.files).getD []).count f := by
    have hcount := h.count f k
    rw [Pool.owners, DebugLine.pool_get, hf] at hcount
    exact hcount
  constructor
  · intro f file k u hf hu
    have hone := hcount f file hf k
    rw [hu] at hone
    rw [hone]
    exact (hn u (List.mem_of_getElem? hu)).count
  · intro f line
    refine findRows_nodup (fun file hf => List.nodup_iff_count_le_one.mpr fun k => ?_) line
    rw [hcount f file hf k]
    cases hu : dl.units[k]? with
    | none => simp
    | some u => exact List.nodup_iff_count_le_one.mp (hn u (List.mem_of_getElem? hu)) f

end

end Gelpp.Dwarf

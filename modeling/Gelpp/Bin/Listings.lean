import Gelpp.Bin.LineCommand

namespace Gelpp.LineCommand

open Dwarf

abbrev CodeLine := UInt64 × Nat × Int32

def codeLine (u : CompilationUnit) (i : Nat) : Option CodeLine :=
  u.lines[i]?.map fun l => (l.addr, l.file, l.line)

def listUnit (u : CompilationUnit) : List CodeLine :=
  (List.range (u.lines.length - 1)).filterMap (codeLine u)

def listCode (dl : DebugLine) : List CodeLine := dl.units.flatMap listUnit

section
variable {dl : DebugLine} {u : CompilationUnit} {f : Nat} {line : Int32} {a : UInt64}

theorem mem_listUnit : (a, f, line) ∈ listUnit u ↔ ∃ i l next, u.lines[i]? = some l ∧
    u.lines[i + 1]? = some next ∧ l.addr = a ∧ l.file = f ∧ l.line = line := by
  rw [listUnit, List.mem_filterMap]
  constructor
  · rintro ⟨i, hi, hline⟩
    obtain ⟨l, hl, heq⟩ := Option.map_eq_some_iff.mp hline
    cases heq
    have hnext : i + 1 < u.lines.length := by
      have hlt := List.mem_range.mp hi
      omega
    exact ⟨i, l, _, hl, List.getElem?_eq_getElem hnext, rfl, rfl, rfl⟩
  · rintro ⟨i, l, next, hl, hnext, rfl, rfl, rfl⟩
    obtain ⟨hlt, -⟩ := List.getElem?_eq_some_iff.mp hnext
    refine ⟨i, List.mem_range.mpr (by omega), ?_⟩
    rw [codeLine, hl]
    rfl

theorem mem_find_code (hlinked : Linked dl.pool dl.units) (hknown : ∀ u ∈ dl.units, FilesKnown u) :
    (∃ b, (a, b) ∈ dl.find f line) ↔ (a, f, line) ∈ listCode dl := by
  rw [listCode, List.mem_flatMap]
  constructor
  · rintro ⟨b, hb⟩
    obtain ⟨⟨k, i⟩, hrow, hrange⟩ := List.mem_map.mp hb
    obtain ⟨file, u, -, -, hu, hi⟩ := mem_findRows.mp hrow
    obtain ⟨l, next, hl, hnext, hfile, hline⟩ := mem_rows.mp hi
    rw [rangeAt_unit hu, range_rows hl hnext] at hrange
    cases hrange
    exact ⟨u, List.mem_of_getElem? hu, mem_listUnit.mpr ⟨i, l, next, hl, hnext, rfl, hfile, hline⟩⟩
  · rintro ⟨u, hmem, hlist⟩
    obtain ⟨k, hu⟩ := List.mem_iff_getElem?.mp hmem
    obtain ⟨i, l, next, hl, hnext, rfl, hfile, hline⟩ := mem_listUnit.mp hlist
    have hin : f ∈ u.files := hfile ▸ hknown u hmem l (List.mem_of_getElem? hl)
    have hlt : f < dl.files.length := by
      rw [← DebugLine.pool_length]
      exact hlinked.indexed u hmem f hin
    have hf := List.getElem?_eq_getElem hlt
    refine ⟨next.addr, List.mem_map.mpr ⟨(k, i), ?_, ?_⟩⟩
    · exact mem_findRows.mpr ⟨_, u, hf, (hlinked.mem_units hf hu).mpr hin, hu,
        mem_rows.mpr ⟨l, next, hl, hnext, hfile, hline⟩⟩
    · rw [rangeAt_unit hu, range_rows hl hnext]

theorem listed_code (hlinked : Linked dl.pool dl.units) (hknown : ∀ u ∈ dl.units, FilesKnown u)
    {out : List (Int32 × AddressRange)} (h : listFile dl f = .ok out) :
    (∃ b, (line, a, b) ∈ out) ↔ (a, f, line) ∈ listCode dl ∧ line ≤ (collect dl f).max := by
  have hcollect : collect dl f = recordAll {} (seen dl f) := collect_eq
  have hmin := (recordAll_min {} (seen dl f)).2
  rw [listFile] at h
  rw [← mem_find_code hlinked hknown]
  simp only [mem_display h, ← mem_seen, hcollect, mem_collected]
  constructor
  · rintro ⟨b, -, hle, hb⟩
    exact ⟨⟨b, hb⟩, hle⟩
  · rintro ⟨⟨b, hb⟩, hle⟩
    exact ⟨b, hmin _ hb, hle, hb⟩

end

theorem listings_agree {join : Path → Path → Path} {fuel : Nat} {buf : Buffer}
    {strSect lineStrSect : Cursor} {dl : DebugLine} (hbuf : buf.fence = none)
    (hstr : strSect.buf.fence = none) (hlineStr : lineStrSect.buf.fence = none)
    (h : debugLine join fuel buf strSect lineStrSect = .ok dl) (f : Nat) :
    (∀ out, listFile dl f = .ok out → ∀ line a, (∃ b, (line, a, b) ∈ out) ↔
      (a, f, line) ∈ listCode dl ∧ line ≤ (collect dl f).max) ∧
    (LinesInRange ((seen dl f).map Prod.fst) → ∃ out, listFile dl f = .ok out ∧
      ∀ line a, (∃ b, (line, a, b) ∈ out) ↔ (a, f, line) ∈ listCode dl) := by
  have hlinked := debugLine_linked h
  have hknown : ∀ u ∈ dl.units, FilesKnown u := by
    obtain ⟨s, hs, hdl⟩ := Res.bind_ok.mp h
    cases hdl
    have hplain : (Scan.start buf strSect lineStrSect).Plain := ⟨hbuf, hstr, hlineStr⟩
    have hread : AllRead _ s := (readAll_meets runAllowed_any (.inl trivial) hplain).of_ok hs
    exact fun u hu => (hread.units u hu).resolve_left fun h => by cases h
  refine ⟨fun out hout line a => listed_code hlinked hknown hout, fun hrange => ?_⟩
  obtain ⟨out, hout, hmem⟩ := display_of_linesInRange hrange
  have hcollect : collect dl f = recordAll {} (seen dl f) := collect_eq
  refine ⟨out, by rw [listFile, hcollect, hout], fun line a => ?_⟩
  rw [← mem_find_code hlinked hknown]
  simp only [hmem, mem_seen]
  constructor
  · rintro ⟨b, -, hb⟩
    exact ⟨b, hb⟩
  · rintro ⟨b, hb⟩
    exact ⟨b, hrange.pos _ (List.mem_map_of_mem (mem_seen.mpr hb)), hb⟩

-- Two rows of a file, on the lines 1 and 2, in front of the end of the sequence.
def ascending : Scan :=
  lineBuffer [29, 0, 0, 0, 2, 0, 14, 0, 0, 0, 1, 1, 0xfb, 14, 3, 0, 1, 0, 97, 0, 0, 0, 0, 0, 1, 2, 4, 9,
    2, 4, 0, 1, 1] (by decide +kernel)

theorem listings_agree_ascending : ∃ dl,
    debugLine slashed 40 ascending.c.buf nullCursor nullCursor = .ok dl ∧
    (∀ out, listFile dl 0 = .ok out → ∀ line a, (∃ b, (line, a, b) ∈ out) ↔
      (a, 0, line) ∈ listCode dl ∧ line ≤ (collect dl 0).max) ∧
    ∃ out, listFile dl 0 = .ok out ∧ ∀ line a, (∃ b, (line, a, b) ∈ out) ↔ (a, 0, line) ∈ listCode dl := by
  have hread : (debugLine slashed 40 ascending.c.buf nullCursor nullCursor).toOption.map
      (fun dl => (seen dl 0).map Prod.fst) = some [1, 2] := by decide +kernel
  obtain ⟨dl, hdl, hseen⟩ := Res.ok_of_map hread
  have hrange : LinesInRange [1, 2] := by
    have htop (i : Int32) (h : i.toInt ≠ 2 ^ 31 - 1) : Int32.maxValue ≠ i := by
      rintro rfl
      exact h Int32.toInt_maxValue
    constructor
    · simp [Int32.lt_iff_toInt_lt]
    · simp [htop 1 (by decide), htop 2 (by decide)]
    · intro a rest h
      cases h
      exact ⟨2, List.mem_singleton_self _, by simp [Int32.le_iff_toInt_le]⟩
  obtain ⟨hlisted, hall⟩ := listings_agree rfl rfl rfl hdl 0
  exact ⟨dl, hdl, hlisted, hall (hseen.symm ▸ hrange)⟩

end Gelpp.LineCommand

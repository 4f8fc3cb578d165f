import Gelpp.Dwarf.LineUnit

namespace Gelpp.Dwarf

open LineMachine (Op Place Attributes State)
open Reader (Plain Outside)

namespace LineUnit

variable (u : LineUnit)

end LineUnit

structure UnitShows (join : Path → Path → Path) (dl : DebugLine) (u : LineUnit)
    (cu : CompilationUnit) : Prop where
  paths : (cu.files.map fun f => dl.files[f]?.map File.path) =
    u.tables.files.map fun e => some (u.tables.path join e)
  rows : List.Forall₂ (RowShows cu.files) cu.lines u.rows

structure UnitTaken (join : Path → Path → Path) (s : Scan) (u : LineUnit) (tail : List UInt8)
    (cu : CompilationUnit) (t : Scan) : Prop extends t.Plain where
  buf : t.c.buf = s.c.buf
  rest : t.c.rest = tail
  pool : t.dl.pool = Pool.internAll s.dl.units.length s.dl.pool (u.calls join)
  units : t.dl.units = s.dl.units ++ [cu]
  shows_unit : UnitShows join t.dl u cu

section
variable {join : Path → Path → Path} {s : Scan} {u : LineUnit} {bs tail : List UInt8}

theorem Written.length {ops : List Op} {order : ByteOrder} {is64 : Bool} {base : Nat}
    (h : Concat (Written order is64 base) ops bs) : ops.length ≤ bs.length := by
  have hle := h.length_le (n := 1) fun o _ cs ho => ho.length_pos
  omega

theorem UnitShows.mono {dl dl' : DebugLine} {cu : CompilationUnit} (h : UnitShows join dl u cu)
    (hlabels : Pool.labels dl.pool <+: Pool.labels dl'.pool) : UnitShows join dl' u cu := by
  refine ⟨?_, h.rows⟩
  rw [← h.paths]
  refine List.map_congr_left fun f hf => ?_
  have hmem := List.mem_map_of_mem (f := fun f => dl.files[f]?.map File.path) hf
  rw [h.paths] at hmem
  obtain ⟨e, -, he⟩ := List.mem_map.mp hmem
  obtain ⟨file, hfile, -⟩ := Option.map_eq_some_iff.mp he.symm
  obtain ⟨more, hmore⟩ := hlabels
  have hget (dl : DebugLine) : dl.files[f]?.map File.path = (Pool.labels dl.pool)[f]?.map Prod.fst := by
    rw [Pool.labels, DebugLine.pool, List.map_map, List.getElem?_map, Option.map_map]
    rfl
  rw [hget, hget, ← hmore, List.getElem?_append_left]
  rw [Pool.labels, DebugLine.pool, List.map_map, List.length_map]
  exact (List.getElem?_eq_some_iff.mp hfile).1

structure UnitsTaken (join : Path → Path → Path) (s : Scan) (us : List LineUnit) (t : Scan) : Prop where
  labels : Pool.labels s.dl.pool <+: Pool.labels t.dl.pool
  lookup (path : Path) : (Pool.labels t.dl.pool).lookup path =
    (Pool.labels s.dl.pool ++ us.flatMap (LineUnit.calls · join)).lookup path
  units : ∃ cus, t.dl.units = s.dl.units ++ cus ∧ List.Forall₂ (UnitShows join t.dl) us cus

theorem UnitTaken.cons {us : List LineUnit} {cu : CompilationUnit} {t x : Scan}
    (h : UnitTaken join s u tail cu t) (h' : UnitsTaken join t us x) : UnitsTaken join s (u :: us) x where
  labels := by
    refine List.IsPrefix.trans ?_ h'.labels
    rw [h.pool]
    exact Pool.labels_internAll
  lookup path := by
    rw [h'.lookup, List.lookup_append, h.pool, Pool.lookup_internAll, ← List.lookup_append,
      List.flatMap_cons, List.append_assoc]
  units := by
    obtain ⟨cus, hcus, hall⟩ := h'.units
    refine ⟨cu :: cus, ?_, .cons (h.shows_unit.mono h'.labels) hall⟩
    rw [hcus, h.units, List.append_assoc]
    rfl

theorem LineUnit.Encodes.ne_nil {order : ByteOrder} (h : u.Encodes order bs) : bs ≠ [] := by
  obtain ⟨fileBytes, program, -, -, -, rfl⟩ := h
  intro hnil
  have hlen := congrArg List.length hnil
  rw [List.length_append, LineUnit.content, List.length_append, ByteOrder.bytes_length] at hlen
  simp at hlen

end

end Gelpp.Dwarf

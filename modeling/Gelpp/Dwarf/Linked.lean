import Gelpp.Dwarf.Interned

namespace Gelpp.Dwarf

-- There is one File for each path, and a File lists each unit once for each of the entries of the
-- unit that are it.
structure Linked (pool : FilePool) (units : List CompilationUnit) : Prop where
  nodup : (Pool.keys pool).Nodup
  indexed : ∀ u ∈ units, ∀ i ∈ u.files, i < pool.length
  count : ∀ i k, (Pool.owners pool i).count k =
    ((units[k]?.map CompilationUnit.files).getD []).count i

def Reader.Linked (s : Reader) : Prop := Dwarf.Linked s.dl.pool (s.dl.units ++ [s.cu])

def Scan.Linked (s : Scan) : Prop := Dwarf.Linked s.dl.pool s.dl.units

section
variable {s t : Reader} {calls : List Call}

theorem places_lt {o : Nat} {l : FilePool} {i : Nat}
    (hi : i ∈ Pool.places o l calls) : i < (Pool.internAll o l calls).length := by
  rw [Pool.places_eq] at hi
  obtain ⟨c, hc, rfl⟩ := List.mem_map.mp hi
  exact Pool.place_lt.mpr (Pool.mem_keys_internAll.mpr (.inr (List.mem_map_of_mem hc)))

theorem internAll_length (o : Nat) (l : FilePool)
    (calls : List Call) : l.length ≤ (Pool.internAll o l calls).length := by
  induction calls generalizing l with
  | nil => exact Nat.le_refl _
  | cons c calls ih =>
    refine Nat.le_trans ?_ (ih (Pool.intern o l c))
    rw [Pool.intern, List.length_modify, Pool.extend]
    split
    · exact Nat.le_refl _
    · rw [List.length_append]
      exact Nat.le_add_right _ _

theorem Interns.length_le (h : Interns s calls t) : s.dl.pool.length ≤ t.dl.pool.length := by
  rw [h.pool]
  exact internAll_length _ _ _

theorem Interns.linked (h : Interns s calls t) (hs : s.Linked) : t.Linked where
  nodup := by
    rw [h.pool]
    exact Pool.nodup_internAll hs.nodup
  indexed := by
    have hle := h.length_le
    intro u hu i hi
    rw [h.units] at hu
    rcases List.mem_append.mp hu with hu | hu
    · exact (hs.indexed u (List.mem_append_left _ hu) i hi).trans_le hle
    · rw [List.mem_singleton.mp hu, h.files] at hi
      rcases List.mem_append.mp hi with hi | hi
      · exact (hs.indexed s.cu (by simp) i hi).trans_le hle
      · rw [h.pool]
        exact places_lt hi
  count i k := by
    have hcount := hs.count i k
    rw [h.pool, Pool.owners_internAll, List.count_append, hcount, h.units]
    rcases Nat.lt_trichotomy k s.dl.units.length with hk | rfl | hk
    · rw [List.count_replicate, if_neg (by simp; omega), Nat.zero_add, List.getElem?_append_left hk,
        List.getElem?_append_left hk]
    · rw [List.count_replicate_self, List.getElem?_concat_length, List.getElem?_concat_length]
      change _ + s.cu.files.count i = t.cu.files.count i
      rw [h.files, List.count_append, Nat.add_comm]
    · rw [List.count_replicate, if_neg (by simp; omega), Nat.zero_add,
        List.getElem?_eq_none (by simp; omega), List.getElem?_eq_none (by simp; omega)]

theorem Fills.linked (h : Fills s t) (hs : s.Linked) : t.Linked := by
  obtain ⟨calls, h⟩ := h
  exact h.linked hs

end

theorem openUnit_linked {s : Scan} {h : Reader} {e : Nat} (hs : s.Linked)
    (hopen : openUnit s = .ok (h, e)) : h.Linked := by
  obtain ⟨r, -, hr⟩ := Res.bind_ok.mp hopen
  cases hr
  refine ⟨hs.nodup, fun u hu i hi => ?_, fun i k => ?_⟩
  · rcases List.mem_append.mp hu with hu | hu
    · exact hs.indexed u hu i hi
    · rw [List.mem_singleton.mp hu] at hi
      cases hi
  · refine (hs.count i k).trans ?_
    dsimp only
    rcases Nat.lt_trichotomy k s.dl.units.length with hk | rfl | hk
    · rw [List.getElem?_append_left hk]
    · rw [List.getElem?_concat_length, List.getElem?_eq_none (Nat.le_refl _)]
      rfl
    · rw [List.getElem?_eq_none (by omega), List.getElem?_eq_none (by simp; omega)]

theorem closeUnit_dl {e : Nat} {s : Reader} {t : Scan} (h : closeUnit e s = .ok t) :
    t.dl = addUnit s := by
  obtain ⟨o, -, ho⟩ := Res.bind_ok.mp h
  cases o with
  | none =>
    cases ho
    rfl
  | some c =>
    cases ho
    rfl

section
variable {join : Path → Path → Path} {s₀ : Scan}

theorem readCU_linked {fuel : Nat} {s t : Scan} (hs : s.Linked) (h : readCU join fuel s = .ok t) :
    t.Linked := by
  obtain ⟨⟨r, e⟩, hopen, h⟩ := Res.bind_ok.mp h
  obtain ⟨p, hp, h⟩ := Res.bind_ok.mp h
  obtain ⟨q, hq, h⟩ := Res.bind_ok.mp h
  have hr := openUnit_linked hs hopen
  have hpl := ((readHeader_fills r).of_ok hp).linked hr
  have hql := ((runProgram_fills fuel e p).of_ok hq).linked hpl
  rw [Scan.Linked, closeUnit_dl h]
  exact hql

theorem start_linked (buf : Buffer) (strSect lineStrSect : Cursor) :
    (Scan.start buf strSect lineStrSect).Linked := by
  exact ⟨.nil, fun u hu => (by cases hu), fun i k => rfl⟩

theorem debugLine_linked {fuel : Nat} {buf : Buffer} {strSect lineStrSect : Cursor} {dl : DebugLine}
    (h : debugLine join fuel buf strSect lineStrSect = .ok dl) : Linked dl.pool dl.units := by
  obtain ⟨s, hs, hdl⟩ := Res.bind_ok.mp h
  cases hdl
  exact Loop.run_invariant (I := Scan.Linked) (fun _ _ ht hst => readCU_linked ht hst.2)
    (start_linked buf strSect lineStrSect) hs

theorem UnitAt.linked {s : Scan} (h : UnitAt join s₀ s) (h₀ : s₀.Linked) : s.Linked := by
  induction h with
  | refl => exact h₀
  | tail _ hst ih =>
    obtain ⟨-, fuel, hfuel⟩ := hst
    exact readCU_linked ih hfuel

theorem HeaderAt.linked {h : Reader} {e : Nat} (hh : HeaderAt join s₀ h e) (h₀ : s₀.Linked) :
    h.Linked := by
  obtain ⟨s, hat, -, hopen⟩ := hh
  exact openUnit_linked (hat.linked h₀) hopen

theorem ProgramAt.linked {r : Reader} {e : Nat} (hr : ProgramAt join s₀ r e) (h₀ : s₀.Linked) :
    r.Linked := by
  obtain ⟨h, hh, hread, -⟩ := hr
  exact ((readHeader_fills h).of_ok hread).linked (hh.linked h₀)

theorem OpcodeAt.linked {r : Reader} {e : Nat} (hr : OpcodeAt join s₀ r e) (h₀ : s₀.Linked) :
    r.Linked := by
  obtain ⟨p, hp, hv, -⟩ := hr
  exact Loop.visits_invariant (I := Reader.Linked)
    (fun t _ ht hst => ((step_fills e t).of_ok hst.2).linked ht) (hp.linked h₀) hv

theorem TableAt.linked {t : Reader} (ht : TableAt join s₀ t) (h₀ : s₀.Linked) : t.Linked := by
  cases ht with
  | header hh hr ht =>
    have hs := ((headerStart_interns _).of_ok hr).linked (hh.linked h₀)
    exact ((readBaseAndDir_interns _).of_ok ht).linked hs
  | defined hr hd ha => exact hr.linked h₀

end

end Gelpp.Dwarf

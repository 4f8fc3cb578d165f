import Gelpp.Dwarf.Tables4
import Gelpp.Dwarf.SetAddress

namespace Gelpp.Dwarf

open Leb128 (unsigned)

structure DefineFileAt (s : Reader) (ls : List UInt8) (x : Entry4) (ns tail : List UInt8) : Prop where
  extended : 0 < s.sm.opcodeBase.toNat
  rest : s.c.rest = 0 :: (ls ++ 3 :: (x.name ++ 0 :: (ns ++ tail)))
  operand : Operand ls
  length : unsigned ls = 1 + (x.name.length + 1 + ns.length)
  name : 0 ∉ x.name
  numbers : EncodesNumbers x ns

-- The directory that an index gives: 0 is that of the compilation, and an index is an int.
def Designates (sm : StateMachine) (dir : Nat) (d : Path) : Prop :=
  if dir = 0 then d = [46] else dir < 2 ^ 31 ∧ sm.includeDirectories[dir]? = some (.text d)

def DefinesOne (join : Path → Path → Path) (s : Reader) (x : Entry4) (t : Reader) : Prop :=
  ∃ d, Designates s.sm x.dir d ∧ Interns s [(join d x.name, x.date, x.size)] t

theorem Designates.entryDirectory {sm : StateMachine} {dir : Nat} {d : Path}
    (h : Designates sm dir d) : entryDirectory sm (.ofNat dir) = .ok d := by
  rw [Designates] at h
  split at h
  · next h0 =>
    rw [h0, h]
    rfl
  · next h0 =>
    obtain ⟨hlt, hget⟩ := h
    obtain ⟨hlen, hget⟩ := List.getElem?_eq_some_iff.mp hget
    have hdir : (UInt64.ofNat dir).toNat = dir := ofNat_toNat (by omega)
    have hne : UInt64.ofNat dir ≠ 0 := fun hz => by
      rw [hz] at hdir
      exact h0 hdir.symm
    rw [Dwarf.entryDirectory, if_neg hne, includeDirectory, narrow_of_lt (by omega), hdir,
      vectorAt_of_lt hlen, hget]
    rfl

section
variable {join : Path → Path → Path} {s : Reader} {ls ns tail : List UInt8} {x : Entry4} {e : Nat}

theorem decode_defineFile (hf : s.c.buf.fence = none) (h : DefineFileAt s ls x ns tail) :
    ∃ o, decode s = .ok { action := .defineFile, c := s.c.forward (2 + ls.length), target := some o } :=
  ⟨_, decode_extended hf h.rest h.extended h.operand⟩

theorem runFiles_fills (f : FileState) (n : Nat) : Meets Any (fun g => Fills f.s g.s)
    (Loop.run .steps FileState.more (readFileBody join) n f) :=
  (Meets.run_stuck (fun g : FileState => Fills f.s g.s) trivial
    (fun g _ _ hg => (readFileBody_interns g).post fun _ ⟨_, _, _, hk⟩ => hg.trans hk.fills)
    (.refl _)).post fun _ hg => hg.1

theorem readFile4_named (hf : s.c.buf.fence = none) (hv : s.sm.version < 5) (h0 : 0 ∉ x.name)
    (hrest : s.c.rest = x.name ++ 0 :: tail) : readFile join s =
      Loop.run .steps FileState.more (readFileBody join)
        (s.c.buf.size - (s.c.forward (x.name.length + 1)).off + 1)
        { s := { s with c := s.c.forward (x.name.length + 1) }, name := x.name } >>=
        fun f => .ok f.s := by
  rw [readFile, if_pos hv, readFile4, readName_found hf h0 hrest]
  rfl

variable (join) in
theorem readFileBody_operand {d : Path} (hf : s.c.buf.fence = none)
    (hd : entryDirectory s.sm (.ofNat x.dir) = .ok d) (hx : EncodesNumbers x ns)
    (hrest : s.c.rest = x.name ++ 0 :: (ns ++ tail)) :
    ∃ v, Interns s [(join d x.name, x.date, x.size)] v ∧ v.c.rest = tail ∧ v.c.buf = s.c.buf ∧
      readFileBody join { s := { s with c := s.c.forward (x.name.length + 1) }, name := x.name } =
        readName v.c >>= fun r => .ok { s := { v with c := r.2 }, name := r.1 } := by
  have hrest1 := forward_name hrest
  let f : FileState := { s := { s with c := s.c.forward (x.name.length + 1) }, name := x.name }
  have hentry := readEntry4_encoded join (f := f) hf hx hrest1 hd
  let u : Reader := { f.s with c := f.s.c.forward ns.length }
  refine ⟨u.internCall (join d x.name, x.date, x.size), ?_, Cursor.forward_tail hrest1, rfl, ?_⟩
  · exact (Interns.aside rfl rfl rfl : Interns s [] u).before (intern_interns u _ _ _)
  · rw [readFileBody_eq, hentry]
    rfl

theorem more_of_named {f : FileState} (h : f.name ≠ []) : f.more = true := by
  rw [FileState.more, List.isEmpty_eq_false_iff.mpr h]
  rfl

variable (join) in
theorem readFile_closed {d : Path} (hf : s.c.buf.fence = none) (hv : s.sm.version < 5)
    (h0 : 0 ∉ x.name) (hne : x.name ≠ []) (hx : EncodesNumbers x ns)
    (hd : entryDirectory s.sm (.ofNat x.dir) = .ok d)
    (hrest : s.c.rest = x.name ++ 0 :: (ns ++ tail)) (htail : tail.head? = some 0) :
    ∃ u, readFile join s = .ok u ∧ Interns s [(join d x.name, x.date, x.size)] u ∧
      u.c.buf = s.c.buf := by
  obtain ⟨v, hv1, hvrest, hvbuf, hbody⟩ := readFileBody_operand join hf hd hx hrest
  obtain ⟨rest, hcons⟩ := List.head?_eq_some_iff.mp htail
  have hname := readName_found (c := v.c) (n := []) (hvbuf ▸ hf) List.not_mem_nil (hvrest.trans hcons)
  rw [hname, Res.ok_bind] at hbody
  refine ⟨{ v with c := v.c.forward 1 }, ?_, hv1.after (.aside rfl rfl rfl), hvbuf⟩
  rw [readFile4_named hf hv h0 hrest, Loop.run_ok ⟨more_of_named hne, hbody⟩, Loop.run_done rfl]
  rfl

theorem readFile_unclosed {d : Path} {u : Reader} (hf : s.c.buf.fence = none)
    (hv : s.sm.version < 5) (h0 : 0 ∉ x.name) (hne : x.name ≠ []) (hx : EncodesNumbers x ns)
    (hd : entryDirectory s.sm (.ofNat x.dir) = .ok d)
    (hrest : s.c.rest = x.name ++ 0 :: (ns ++ tail)) (htail : tail.head? ≠ some 0)
    (h : readFile join s = .ok u) : s.cu.files.length + 2 ≤ u.cu.files.length := by
  obtain ⟨v, hv1, hvrest, hvbuf, hbody⟩ := readFileBody_operand join hf hd hx hrest
  rw [readFile4_named hf hv h0 hrest] at h
  obtain ⟨g, hrun, hg⟩ := Res.bind_ok.mp h
  cases hg
  rw [Loop.run, if_pos (more_of_named hne), hbody, bind_assoc] at hrun
  obtain ⟨⟨name, c⟩, hname, hrun⟩ := Res.bind_ok.mp hrun
  rw [Res.ok_bind] at hrun
  have hmore : name ≠ [] := fun hempty =>
    htail (hvrest ▸ (readName_empty (hvbuf ▸ hf) hname).mp hempty)
  obtain ⟨n, hn⟩ : ∃ n, s.c.buf.size - (s.c.forward (x.name.length + 1)).off = n := ⟨_, rfl⟩
  rw [hn] at hrun
  cases n with
  | zero =>
    rw [Loop.run, if_pos (more_of_named hmore)] at hrun
    cases hrun
  | succ n =>
    rw [Loop.run, if_pos (more_of_named hmore)] at hrun
    obtain ⟨k, hk, hrun⟩ := Res.bind_ok.mp hrun
    obtain ⟨_, call, -, hcall⟩ := (readFileBody_interns _).of_ok hk
    obtain ⟨calls, hcalls⟩ := (runFiles_fills k n).of_ok hrun
    have h1 := hv1.length
    have h2 := hcall.length
    have h3 := hcalls.length
    simp only [List.length_singleton] at h1 h2
    omega

theorem readFile_unnamed {u : Reader} (hf : s.c.buf.fence = none) (hv : s.sm.version < 5)
    (hname : x.name = []) (hrest : s.c.rest = x.name ++ 0 :: tail) (h : readFile join s = .ok u) :
    u.cu.files = s.cu.files := by
  rw [readFile4_named hf hv (hname ▸ List.not_mem_nil) hrest, Loop.run_done (by rw [hname]; rfl)] at h
  cases h
  rfl

theorem define_file_iff (hf : s.c.buf.fence = none) (hv : s.sm.version < 5) (hlt : s.c.off < e)
    (h : DefineFileAt s ls x ns tail) :
    (∃ t, step join e s = .ok t ∧ DefinesOne join s x t) ↔
      x.name ≠ [] ∧ (∃ d, Designates s.sm x.dir d) ∧ tail.head? = some 0 := by
  obtain ⟨o, hdecode⟩ := decode_defineFile hf h
  have hrest := extended_rest h.rest
  let r : Reader := { s with c := s.c.forward (2 + ls.length) }
  have hstep : step join e s = readFile join r >>= land (some o) := by
    rw [step_eq, if_neg (by omega), hdecode]
    rfl
  rw [hstep]
  constructor
  · rintro ⟨t, ht, d, hd, hone⟩
    obtain ⟨u, hu, hland⟩ := Res.bind_ok.mp ht
    have hlen : t.cu.files.length = u.cu.files.length := ((land_interns (some o) u).of_ok hland).length
    have htlen := hone.length
    rw [List.length_singleton] at htlen
    have hname : x.name ≠ [] := fun hempty => by
      have hsame := congrArg List.length (readFile_unnamed (s := r) hf hv hempty hrest hu)
      change _ = s.cu.files.length at hsame
      omega
    refine ⟨hname, ⟨d, hd⟩, by_contra fun htail => ?_⟩
    have htwo := readFile_unclosed (s := r) hf hv h.name hname h.numbers hd.entryDirectory hrest htail hu
    change s.cu.files.length + 2 ≤ _ at htwo
    omega
  · rintro ⟨hname, ⟨d, hd⟩, htail⟩
    obtain ⟨u, hu, hone, hbuf⟩ := readFile_closed join (s := r) hf hv h.name hname h.numbers
      hd.entryDirectory hrest htail
    obtain ⟨c, hmove, -, -⟩ := moveTo_off (s := u) (o := o) (by rw [hbuf]; exact hf)
    refine ⟨{ u with c }, by rw [hu]; exact hmove, d, hd, ?_⟩
    exact ((Interns.aside rfl rfl rfl : Interns s [] r).before hone).after (.aside rfl rfl rfl)

end

def plainFile : Entry4 := ⟨[98], 0, 0, 0⟩

-- The programs define_file of b, end_sequence and define_file of b, copy, end_sequence.
def defineEnd : Scan :=
  lineBuffer [30, 0, 0, 0, 2, 0, 13, 0, 0, 0, 1, 1, 0xfb, 14, 2, 0, 0, 97, 0, 0, 0, 0, 0, 0, 6, 3, 98, 0,
    0, 0, 0, 0, 1, 1] (by decide)

def defineCopy : Scan :=
  lineBuffer [31, 0, 0, 0, 2, 0, 13, 0, 0, 0, 1, 1, 0xfb, 14, 2, 0, 0, 97, 0, 0, 0, 0, 0, 0, 6, 3, 98, 0,
    0, 0, 0, 1, 0, 1, 1] (by decide)

theorem defineFileAt_plainFile {s : Reader} {tail : List UInt8} (hbase : 0 < s.sm.opcodeBase.toNat)
    (hrest : s.c.rest = [0, 6, 3, 98, 0, 0, 0, 0] ++ tail) :
    DefineFileAt s [6] plainFile [0, 0, 0] tail where
  extended := hbase
  rest := hrest
  operand := ⟨.last (by decide), by decide⟩
  length := rfl
  name := by decide
  numbers := ⟨[0], [0], [0], rfl, .byte (by decide), .byte (by decide), .byte (by decide)⟩

theorem define_file_defineEnd : ∃ s, OpcodeAt slashed defineEnd s 34 ∧
    ((∃ t, step slashed 34 s = .ok t ∧ DefinesOne slashed s plainFile t) ↔
      plainFile.name ≠ [] ∧ (∃ d, Designates s.sm plainFile.dir d) ∧
        ([0, 1, 1] : List UInt8).head? = some 0) := by
  obtain ⟨s, -, hs, hfirst⟩ : ∃ s, firstOpcode slashed defineEnd = .ok (s, 34) ∧
      OpcodeAt slashed defineEnd s 34 ∧
      FirstAt s 34 23 2 2 [0, 6, 3, 98, 0, 0, 0, 0, 0, 1, 1] :=
    OpcodeAt.first rfl (by decide) (by decide +kernel)
  have hat : DefineFileAt s [6] plainFile [0, 0, 0] [0, 1, 1] :=
    defineFileAt_plainFile (by rw [hfirst.opcodeBase]; decide) hfirst.rest
  exact ⟨s, hs, define_file_iff (hs.plain ⟨rfl, rfl, rfl⟩).c (by rw [hfirst.version]; decide)
    hfirst.lt hat⟩

-- The copy is read as the name of one more entry, which the buffer does not hold.
theorem defineCopy_thrown : ∃ s, OpcodeAt slashed defineCopy s 35 ∧ s.sm.version = 2 ∧
    DefineFileAt s [6] plainFile [0, 0, 0] [1, 0, 1, 1] ∧
    step slashed 35 s = .error (.exception "debug line error") := by
  obtain ⟨s, h, hs, hfirst⟩ : ∃ s, firstOpcode slashed defineCopy = .ok (s, 35) ∧
      OpcodeAt slashed defineCopy s 35 ∧
      FirstAt s 35 23 2 2 [0, 6, 3, 98, 0, 0, 0, 0, 1, 0, 1, 1] :=
    OpcodeAt.first rfl (by decide) (by decide +kernel)
  have hnext : Res.stop (firstOpcode slashed defineCopy >>= fun p => step slashed p.2 p.1) =
      some (.exception "debug line error") := by decide +kernel
  rw [h, Res.ok_bind] at hnext
  have hat : DefineFileAt s [6] plainFile [0, 0, 0] [1, 0, 1, 1] :=
    defineFileAt_plainFile (by rw [hfirst.opcodeBase]; decide) hfirst.rest
  exact ⟨s, hs, hfirst.version, hat, Res.stop_eq_some hnext⟩

end Gelpp.Dwarf

import Gelpp.Dwarf.Links
import Gelpp.Dwarf.Refused

namespace Gelpp.Dwarf

open Reader (Plain)

section
variable (join : Path → Path → Path)

inductive Entries4 : FileState → List Call → FileState → Prop
  | nil {f : FileState} (h : f.more = false) : Entries4 f [] f
  | cons {f g k : FileState} {s : Reader} {call : Call} {calls : List Call} (hm : f.more = true)
      (hentry : readEntry4 join f = .ok (s, call)) (hbody : readFileBody join f = .ok g)
      (ht : Entries4 g calls k) : Entries4 f (call :: calls) k

inductive Entries5 (formats : List (UInt64 × UInt64)) : Reader → List (Option Call) → Reader → Prop
  | nil (s : Reader) : Entries5 formats s [] s
  | cons {s t u v : Reader} {call : Option Call} {calls : List (Option Call)}
      (hentry : readEntry5 join formats s = .ok (u, call))
      (hbody : readFileEntry5 join formats s = .ok t) (ht : Entries5 formats t calls v) :
      Entries5 formats s (call :: calls) v

inductive FileTable : Reader → List (Option Call) → Reader → Prop
  | upTo4 {s : Reader} {name : List UInt8} {c : Cursor} {calls : List Call} {f : FileState}
      (hv : s.sm.version < 5) (hname : readName s.c = .ok (name, c))
      (h : Entries4 join { s := { s with c }, name } calls f) : FileTable s (calls.map some) f.s
  | from5 {s t u : Reader} {formats : List (UInt64 × UInt64)} {calls : List (Option Call)}
      (hv : ¬ s.sm.version < 5) (hstart : tableStart5 s = .ok (formats, calls.length, t))
      (h : Entries5 join formats t calls u) : FileTable s calls u

variable {join}

theorem entries4_of_run {n : Nat} {f g : FileState}
    (h : Loop.run .steps FileState.more (readFileBody join) n f = .ok g) :
    ∃ calls, Entries4 join f calls g := by
  induction n generalizing f with
  | zero =>
    rw [Loop.run] at h
    split at h
    · cases h
    · next hm =>
      cases h
      exact ⟨[], .nil (Bool.eq_false_iff.mpr hm)⟩
  | succ n ih =>
    rw [Loop.run] at h
    split at h
    · next hm =>
      obtain ⟨k, hk, hrun⟩ := Res.bind_ok.mp h
      obtain ⟨s, call, hentry, -⟩ := (readFileBody_interns f).of_ok hk
      obtain ⟨calls, hcalls⟩ := ih hrun
      exact ⟨call :: calls, .cons hm hentry hk hcalls⟩
    · next hm =>
      cases h
      exact ⟨[], .nil (Bool.eq_false_iff.mpr hm)⟩

theorem entries5_of_times {formats : List (UInt64 × UInt64)} {n : Nat} {s t : Reader}
    (h : Loop.times (readFileEntry5 join formats) n s = .ok t) :
    ∃ calls : List (Option Call), calls.length = n ∧ Entries5 join formats s calls t := by
  induction n generalizing s with
  | zero =>
    cases h
    exact ⟨[], rfl, .nil _⟩
  | succ n ih =>
    obtain ⟨u, hu, ht⟩ := Res.bind_ok.mp h
    obtain ⟨v, call, hentry, -⟩ := (readFileEntry5_interns formats s).of_ok hu
    obtain ⟨calls, hlen, hcalls⟩ := ih ht
    exact ⟨call :: calls, congrArg Nat.succ hlen, .cons hentry hu hcalls⟩

theorem fileTable_of_readFile {s t : Reader} (h : readFile join s = .ok t) :
    ∃ entries, FileTable join s entries t := by
  rw [readFile] at h
  split at h
  · next hv =>
    obtain ⟨⟨name, c⟩, hname, h⟩ := Res.bind_ok.mp h
    obtain ⟨f, hrun, hf⟩ := Res.bind_ok.mp h
    cases hf
    obtain ⟨calls, hcalls⟩ := entries4_of_run hrun
    exact ⟨_, .upTo4 hv hname hcalls⟩
  · next hv =>
    rw [readFile5_eq] at h
    obtain ⟨⟨formats, n, u⟩, hstart, h⟩ := Res.bind_ok.mp h
    obtain ⟨calls, rfl, hcalls⟩ := entries5_of_times h
    exact ⟨calls, .from5 hv hstart hcalls⟩

theorem Entries4.interns {f g : FileState} {calls : List Call} (h : Entries4 join f calls g) :
    Interns f.s calls g.s := by
  induction h with
  | nil => exact .refl _
  | cons hm hentry hbody _ ih =>
    obtain ⟨s, call, hcall, hi⟩ := (readFileBody_interns _).of_ok hbody
    rw [hentry] at hcall
    cases hcall
    exact hi.trans ih

theorem Entries5.interns {formats : List (UInt64 × UInt64)} {s t : Reader}
    {calls : List (Option Call)} (h : Entries5 join formats s calls t) :
    Interns s calls.reduceOption t := by
  induction h with
  | nil s => exact .refl s
  | @cons _ _ _ _ call _ hentry hbody _ ih =>
    obtain ⟨_, _, hcall, hi⟩ := (readFileEntry5_interns _ _).of_ok hbody
    rw [hentry] at hcall
    cases hcall
    cases call with
    | none => exact hi.before ih
    | some call => exact hi.trans ih

theorem FileTable.interns {s t : Reader} {entries : List (Option Call)}
    (h : FileTable join s entries t) : Interns s entries.reduceOption t := by
  cases h with
  | @upTo4 _ c _ _ hv hname h =>
    rw [List.reduceOption, List.filterMap_map, Function.id_comp, List.filterMap_some]
    exact (Interns.aside rfl rfl rfl : Interns s [] { s with c }).before h.interns
  | from5 hv hstart h => exact ((tableStart5_interns s).of_ok hstart).before h.interns

end

section
variable (join : Path → Path → Path)

def AddsEntries (r : Reader) (d : Decoded) (entries : List (Option Call)) : Prop :=
  if d.action = .defineFile then ∃ u, FileTable join { r with c := d.c } entries u ∧
    readFile join { r with c := d.c } = .ok u
  else entries = []

inductive UnitRun (h : Reader) (e : Nat) : List (Option Call) → List UInt32 → Reader → Prop
  | header {p : Reader × Nat} {t u r : Reader} {entries : List (Option Call)}
      (hstart : headerStart h = .ok p) (ht : readBaseAndDir p.1 = .ok t)
      (htable : FileTable join t entries u) (hu : readFile join t = .ok u)
      (hr : readHeader join h = .ok r) : UnitRun h e entries [] r
  | step {entries more : List (Option Call)} {registers : List UInt32} {r s : Reader} {d : Decoded}
      (hrun : UnitRun h e entries registers r) (hstep : Loop.Step running (step join e) r s)
      (hd : decode r = .ok d) (hmore : AddsEntries join r d more) :
      UnitRun h e (entries ++ more)
        (registers ++ if d.action.records then [r.sm.file] else []) s

variable {join} {s₀ : Scan}

theorem step_adds {r s : Reader} {e : Nat} (h : step join e r = .ok s) :
    ∃ d entries, decode r = .ok d ∧ AddsEntries join r d entries := by
  rw [step_eq] at h
  split at h
  · cases h
  obtain ⟨d, hd, h⟩ := Res.bind_ok.mp h
  obtain ⟨u, hu, -⟩ := Res.bind_ok.mp h
  by_cases ha : d.action = .defineFile
  · rw [ha] at hu
    obtain ⟨entries, htable⟩ := fileTable_of_readFile hu
    exact ⟨d, entries, hd, by rw [AddsEntries, if_pos ha]; exact ⟨u, htable, hu⟩⟩
  · exact ⟨d, [], hd, by rw [AddsEntries, if_neg ha]⟩

theorem OpcodeAt.unitRun {r : Reader} {e : Nat} (hr : OpcodeAt join s₀ r e) :
    ∃ h entries registers, HeaderAt join s₀ h e ∧ UnitRun join h e entries registers r := by
  obtain ⟨r₀, ⟨h, hh, hread, hlt⟩, hv, -⟩ := hr
  refine ⟨h, ?_⟩
  suffices ∃ entries registers, UnitRun join h e entries registers r by
    obtain ⟨entries, registers, hrun⟩ := this
    exact ⟨entries, registers, hh, hrun⟩
  induction hv with
  | refl =>
    have hread' := hread
    rw [readHeader_eq] at hread'
    obtain ⟨p, hp, hread'⟩ := Res.bind_ok.mp hread'
    obtain ⟨u, hu, -⟩ := Res.bind_ok.mp hread'
    obtain ⟨t, ht, hu⟩ := Res.bind_ok.mp hu
    obtain ⟨entries, htable⟩ := fileTable_of_readFile hu
    exact ⟨entries, [], .header hp ht htable hu hread⟩
  | tail _ hst ih =>
    obtain ⟨entries, registers, hrun⟩ := ih
    obtain ⟨d, more, hd, hmore⟩ := step_adds hst.2
    exact ⟨_, _, .step hrun hst hd hmore⟩

end

theorem lt_of_int_nonneg {v : UInt32} (h : 0 ≤ v.toInt32.toInt) : v.toNat < 2 ^ 31 := by
  have hcond : v.toInt32.toInt = v.toBitVec.toInt := rfl
  have hlt := v.toNat_lt
  have hnat : v.toBitVec.toNat = v.toNat := rfl
  rw [hcond, BitVec.toInt_eq_toNat_cond, hnat] at h
  split at h <;> omega

theorem recordLine_row {s t : Reader} (h : recordLine s = .ok t) :
    ∃ f, 1 ≤ s.sm.file.toNat ∧ s.cu.files[s.sm.file.toNat - 1]? = some f ∧ t = recorded s f := by
  obtain ⟨f, hf, ht⟩ := Res.bind_ok.mp h
  cases ht
  have hnonneg : 0 ≤ (s.sm.file - 1).toInt32.toInt := by
    by_contra hneg
    rw [vectorAt, if_neg hneg] at hf
    cases hf
  have hlt := lt_of_int_nonneg hnonneg
  have hpos : 1 ≤ s.sm.file.toNat := by
    by_contra h0
    have hzero : s.sm.file = 0 := UInt32.toNat_inj.mp (by rw [UInt32.toNat_zero]; omega)
    rw [hzero] at hlt
    exact absurd hlt (by decide)
  have hsub : (s.sm.file - 1).toNat = s.sm.file.toNat - 1 :=
    UInt32.toNat_sub_of_le _ 1 (UInt32.le_iff_toNat_le.mpr hpos)
  rw [vectorAt, if_pos hnonneg, int_of_lt hlt, hsub, Int.toNat_natCast] at hf
  refine ⟨f, hpos, ?_, rfl⟩
  split at hf
  · next g hg =>
    cases hf
    exact hg
  · cases hf

structure RowFrom (s : Reader) (row : LineNumber) : Prop where
  pos : 1 ≤ s.sm.file.toNat
  get : s.cu.files[s.sm.file.toNat - 1]? = some row.file

theorem recorded_row {s t u : Reader} (h : recordLine t = .ok u) (hcu : t.cu = s.cu)
    (hfile : t.sm.file = s.sm.file) :
    ∃ row, RowFrom s row ∧ u.cu.lines = s.cu.lines ++ [row] := by
  obtain ⟨f, hpos, hget, rfl⟩ := recordLine_row h
  rw [hfile] at hpos hget
  rw [hcu] at hget
  refine ⟨lineNumber t.sm f, ⟨hpos, hget⟩, ?_⟩
  rw [recorded, hcu]

section
variable {join : Path → Path → Path} {s₀ : Scan}

theorem special_row {opcode : UInt8} {s t : Reader} (h : special opcode s = .ok t) :
    ∃ row, RowFrom s row ∧ t.cu.lines = s.cu.lines ++ [row] := by
  unfold special at h
  dsimp only at h
  split at h
  · cases h
  · obtain ⟨sm, hsm, h⟩ := Res.bind_ok.mp h
    obtain ⟨sm', hsm', hrow⟩ := Res.bind_ok.mp h
    obtain ⟨line, rfl⟩ := (advanceLine_meets (A := Any) fun _ => trivial).of_ok hsm
    obtain ⟨address, opIndex, rfl⟩ := (advancePC_meets (A := Any) fun _ => trivial).of_ok hsm'
    exact recorded_row hrow rfl rfl

theorem perform_rows {s t : Reader} {a : Action} (hs : s.Plain) (h : perform join s a = .ok t) :
    if a.records then ∃ row, RowFrom s row ∧ t.cu.lines = s.cu.lines ++ [row]
    else t.cu.lines = s.cu.lines := by
  by_cases hr : a.records = true
  · rw [if_pos hr]
    cases a with
    | special opcode => exact special_row h
    | copy => exact recorded_row h rfl rfl
    | endSequence =>
      obtain ⟨u, hu, ht⟩ := Res.bind_ok.mp h
      cases ht
      have hrow := recorded_row (s := s) hu rfl rfl
      exact hrow
    | _ => cases hr
  · rw [if_neg hr]
    have hallowed : Allowed Any join s a :=
      ⟨fun _ _ => trivial, fun _ _ => trivial, fun _ _ => trivial, fun _ _ _ => trivial,
        fun _ => (readFile_meets hs).mono (fun _ _ => trivial) fun _ h => h⟩
    obtain ⟨rows, hrows, hlen, -⟩ := ((perform_meets hallowed).of_ok h).rows
    rw [Bool.eq_false_iff.mpr hr] at hlen
    rw [hrows, List.length_eq_zero_iff.mp hlen, List.append_nil]

def Numbered (r : Reader) (row : LineNumber) (file : UInt32) : Prop :=
  1 ≤ file.toNat ∧ r.cu.files[file.toNat - 1]? = some row.file

structure UnitKept (h : Reader) (entries : List (Option Call)) (registers : List UInt32) (r : Reader) :
    Prop where
  plain : r.Plain
  interns : Interns h entries.reduceOption r
  named : r.sm.version < 5 → none ∉ entries
  rows : List.Forall₂ (Numbered r) r.cu.lines registers

theorem FileTable.named {s t : Reader} {entries : List (Option Call)}
    (h : FileTable join s entries t) (hv : s.sm.version < 5) : none ∉ entries := by
  cases h with
  | upTo4 => simp
  | from5 hn => exact absurd hv hn

theorem version_eq {s t : StateMachine} (h : t.header = s.header) : t.version = s.version :=
  congrArg (fun x => x.1) h

theorem AddsEntries.interns {r : Reader} {d : Decoded} {entries : List (Option Call)} {u : Reader}
    (h : AddsEntries join r d entries) (hu : perform join { r with c := d.c } d.action = .ok u) :
    Interns r entries.reduceOption u := by
  have haside : Interns r [] { r with c := d.c } := .aside rfl rfl rfl
  rw [AddsEntries] at h
  split at h
  · next ha =>
    obtain ⟨v, htable, hread⟩ := h
    rw [ha] at hu
    have hvu : v = u := Except.ok.inj (hread.symm.trans hu)
    exact haside.before (hvu ▸ htable.interns)
  · next ha =>
    rw [h]
    exact haside.before ((perform_interns ha).of_ok hu)

theorem AddsEntries.named {r : Reader} {d : Decoded} {entries : List (Option Call)}
    (h : AddsEntries join r d entries) (hv : r.sm.version < 5) : none ∉ entries := by
  rw [AddsEntries] at h
  split at h
  · obtain ⟨v, htable, -⟩ := h
    exact htable.named hv
  · rw [h]
    exact List.not_mem_nil

theorem Interns.numbered_rows {s t : Reader} {calls : List Call} (h : Interns s calls t)
    {lines : List LineNumber} {registers : List UInt32}
    (hrows : List.Forall₂ (Numbered s) lines registers) :
    List.Forall₂ (Numbered t) lines registers :=
  hrows.imp fun _ _ hrow => ⟨hrow.1, h.get hrow.2⟩

theorem UnitKept.step {h r s : Reader} {e : Nat} {entries more : List (Option Call)}
    {registers : List UInt32} {d : Decoded} (hk : UnitKept h entries registers r)
    (hstep : step join e r = .ok s) (hd : decode r = .ok d) (hmore : AddsEntries join r d more) :
    UnitKept h (entries ++ more) (registers ++ if d.action.records then [r.sm.file] else []) s := by
  obtain ⟨d', hd'⟩ := stepped_of_step hk.plain hstep
  have hkept : Kept r s := hd'.toKept
  rw [step_eq] at hstep
  split at hstep
  · cases hstep
  rw [hd, Res.ok_bind] at hstep
  obtain ⟨u, hu, hland⟩ := Res.bind_ok.mp hstep
  have hrp : Plain { r with c := d.c } :=
    (kept_of_past ((decode_meets hk.plain.c).of_ok hd)).plain hk.plain
  have hadd := hmore.interns hu
  have hlanded := land_interns d.target u
  have hrs : Interns r more.reduceOption s := hadd.after (hlanded.of_ok hland)
  have hrows := perform_rows hrp hu
  have hlines : s.cu.lines = u.cu.lines := by
    cases htarget : d.target with
    | none =>
      rw [htarget] at hland
      cases hland
      rfl
    | some o =>
      rw [htarget] at hland
      obtain ⟨_ | c, -, hc⟩ := Res.bind_ok.mp hland
      · cases hc
        rfl
      · cases hc
        rfl
  refine ⟨hkept.plain hk.plain, ?_, fun hv => ?_, ?_⟩
  · rw [List.reduceOption_append]
    exact hk.interns.trans hrs
  · rw [version_eq hkept.header] at hv
    rw [List.mem_append, not_or]
    exact ⟨hk.named hv, hmore.named hv⟩
  · rw [hlines]
    split at hrows
    · next hr =>
      obtain ⟨row, hrow, hlast⟩ := hrows
      rw [hlast, if_pos hr]
      exact List.rel_append (hrs.numbered_rows hk.rows) (.cons ⟨hrow.pos, hrs.get hrow.get⟩ .nil)
    · next hr =>
      rw [hrows, if_neg hr, List.append_nil]
      exact hrs.numbered_rows hk.rows

theorem UnitRun.kept {h r : Reader} {e : Nat} {entries : List (Option Call)} {registers : List UInt32}
    (hp : h.Plain) (hcu : h.cu = {}) (hrun : UnitRun join h e entries registers r) :
    UnitKept h entries registers r := by
  induction hrun with
  | @header p t u r entries hstart ht htable hu hr =>
    have hread := (readHeader_meets hp).of_ok hr
    have hpp := ((headerStart_meets hp).of_ok hstart).plain hp
    have htp := ((readBaseAndDir_meets hpp).of_ok ht).plain hpp
    have hfiled := (readFile_meets htp).of_ok hu
    have h1 := ((headerStart_interns h).of_ok hstart).before ((readBaseAndDir_interns p.1).of_ok ht)
    rw [readHeader_eq, hstart, Res.ok_bind, readTables, ht, Res.ok_bind, hu, Res.ok_bind] at hr
    have hmove := (Reader.moveTo_meets (A := Any) (hfiled.plain htp)).of_ok hr
    refine ⟨hread.plain hp, ?_, fun hv => ?_, ?_⟩
    · exact (h1.before htable.interns).after ((moveTo_interns u p.2).of_ok hr)
    · rw [hmove.2.2.2, hfiled.sm] at hv
      exact htable.named hv
    · rw [hread.lines, hcu]
      exact .nil
  | step _ hstep hd hmore ih => exact ih.step hstep.2 hd hmore

end

def entryPath (entries : List (Option Call)) (k : Nat) : Option Path :=
  entries[k]?.join.map fun call => call.1

-- A row carries the file of the entry of its register, counted from 1 up to version 4 and from 0
-- in version 5.
def Carries (r : Reader) (entries : List (Option Call)) (row : LineNumber) (file : UInt32) : Prop :=
  ∃ path, (r.dl.files[row.file]?).map File.path = some path ∧
    if r.sm.version < 5 then 1 ≤ file.toNat ∧ entryPath entries (file.toNat - 1) = some path
    else entryPath entries file.toNat = some path

theorem reduceOption_get {α : Type} {l : List (Option α)} (h : none ∉ l) (k : Nat) :
    l.reduceOption[k]? = l[k]?.join := by
  induction l generalizing k with
  | nil => rfl
  | cons x l ih =>
    rw [List.mem_cons, not_or] at h
    cases x with
    | none => exact absurd rfl h.1
    | some a =>
      cases k with
      | zero => rfl
      | succ k => exact ih h.2 k

theorem forall₂_iff_forall {α β : Type} {P Q : α → β → Prop} {S : β → Prop} {l : List α} {m : List β}
    (h : List.Forall₂ P l m) (hQ : ∀ a b, P a b → (Q a b ↔ S b)) :
    List.Forall₂ Q l m ↔ ∀ b ∈ m, S b := by
  induction h with
  | nil => simp
  | cons hab _ ih => rw [List.forall₂_cons, List.forall_mem_cons, hQ _ _ hab, ih]

theorem UnitKept.path {h r : Reader} {entries : List (Option Call)} {registers : List UInt32}
    (hk : UnitKept h entries registers r) (hcu : h.cu = {}) (hnamed : none ∉ entries) {k i : Nat}
    (hi : r.cu.files[k]? = some i) :
    ∃ path, (r.dl.files[i]?).map File.path = some path ∧ entryPath entries k = some path := by
  have hpaths := hk.interns.paths_eq (by rw [hcu])
  have hget := congrArg (·[k]?) hpaths
  simp only [Reader.paths, List.getElem?_map, hi, Option.map_some, reduceOption_get hnamed] at hget
  obtain ⟨call, hcall, hpath⟩ := Option.map_eq_some_iff.mp hget.symm
  exact ⟨call.1, hpath.symm, by rw [entryPath, hcall]; rfl⟩

section
variable {join : Path → Path → Path} {buf : Buffer} {strSect lineStrSect : Cursor}

theorem rows_numbered_iff (hbuf : buf.fence = none) (hstr : strSect.buf.fence = none)
    (hlineStr : lineStrSect.buf.fence = none) {h r : Reader} {e : Nat}
    {entries : List (Option Call)} {registers : List UInt32}
    (hh : HeaderAt join (.start buf strSect lineStrSect) h e)
    (hrun : UnitRun join h e entries registers r) (hnamed : ¬ r.sm.version < 5 → none ∉ entries) :
    List.Forall₂ (Carries r entries) r.cu.lines registers ↔ r.sm.version < 5 ∨
      ∀ file ∈ registers, entryPath entries file.toNat = entryPath entries (file.toNat - 1) := by
  have hplain : (Scan.start buf strSect lineStrSect).Plain := ⟨hbuf, hstr, hlineStr⟩
  have hcu : h.cu = {} := by
    obtain ⟨s, hat, -, hopen⟩ := hh
    exact ((openUnit_meets (A := Any) (hat.plain hplain) fun _ => trivial).of_ok hopen).cu
  have hk := hrun.kept (hh.plain hplain) hcu
  have hall : none ∉ entries := by
    by_cases hv : r.sm.version < 5
    · exact hk.named hv
    · exact hnamed hv
  rw [forall₂_iff_forall hk.rows (S := fun file => r.sm.version < 5 ∨
    entryPath entries file.toNat = entryPath entries (file.toNat - 1))]
  · by_cases hv : r.sm.version < 5
    · simp [hv]
    · simp [hv]
  · rintro row file ⟨hpos, hget⟩
    obtain ⟨path, hpath, hentry⟩ := hk.path hcu hall hget
    rw [Carries, hentry]
    by_cases hv : r.sm.version < 5
    · exact ⟨fun _ => .inl hv, fun _ => ⟨path, hpath, by rw [if_pos hv]; exact ⟨hpos, rfl⟩⟩⟩
    · constructor
      · rintro ⟨p, hp, hfile⟩
        rw [if_neg hv] at hfile
        rw [hpath] at hp
        exact .inr (hfile.trans hp.symm)
      · intro hfile
        exact ⟨path, hpath, by rw [if_neg hv]; exact hfile.resolve_left hv⟩

end

section
variable (join : Path → Path → Path)

def entries5 (formats : List (UInt64 × UInt64)) : Nat → Reader → Res (List (Option Call) × Reader)
  | 0, s => .ok ([], s)
  | n + 1, s => do
    let (_, call) ← readEntry5 join formats s
    let t ← readFileEntry5 join formats s
    let (calls, u) ← entries5 formats n t
    return (call :: calls, u)

def firstRow5 (s₀ : Scan) : Res (List (Option Call) × Reader × Decoded × Reader) := do
  let (h, e) ← openUnit s₀
  let p ← headerStart h
  let t ← readBaseAndDir p.1
  if t.sm.version < 5 then raise "DWARF version < 5"
  let (formats, n, u) ← tableStart5 t
  let (entries, _) ← entries5 join formats n u
  let r ← readHeader join h
  let d ← decode r
  let s ← step join e r
  return (entries, r, d, s)

variable {join}

theorem entries5_ok {formats : List (UInt64 × UInt64)} {n : Nat} {s t : Reader}
    {calls : List (Option Call)} (h : entries5 join formats n s = .ok (calls, t)) :
    calls.length = n ∧ Entries5 join formats s calls t := by
  induction n generalizing s calls with
  | zero =>
    cases h
    exact ⟨rfl, .nil _⟩
  | succ n ih =>
    obtain ⟨⟨v, call⟩, hentry, h⟩ := Res.bind_ok.mp h
    obtain ⟨w, hbody, h⟩ := Res.bind_ok.mp h
    obtain ⟨⟨more, u⟩, hmore, h⟩ := Res.bind_ok.mp h
    cases h
    obtain ⟨hlen, hcalls⟩ := ih hmore
    exact ⟨congrArg Nat.succ hlen, .cons hentry hbody hcalls⟩

theorem Entries5.times {formats : List (UInt64 × UInt64)} {s t : Reader}
    {calls : List (Option Call)} (h : Entries5 join formats s calls t) :
    Loop.times (readFileEntry5 join formats) calls.length s = .ok t := by
  induction h with
  | nil s => rfl
  | cons _ hbody _ ih =>
    rw [List.length_cons, Loop.times, hbody, Res.ok_bind, ih]

theorem unitRun_of_firstRow5 {s₀ : Scan} {entries : List (Option Call)} {r s : Reader} {d : Decoded}
    (hm : scanning s₀ = true) (h : firstRow5 join s₀ = .ok (entries, r, d, s))
    (hrun : running r = true) (hd : d.action ≠ .defineFile) (hrow : d.action.records = true) :
    ∃ h e, HeaderAt join s₀ h e ∧ UnitRun join h e entries [r.sm.file] s := by
  obtain ⟨⟨h₀, e⟩, hopen, h⟩ := Res.bind_ok.mp h
  obtain ⟨p, hp, h⟩ := Res.bind_ok.mp h
  obtain ⟨t, ht, h⟩ := Res.bind_ok.mp h
  split at h
  · cases h
  next hv =>
  obtain ⟨⟨formats, n, u⟩, hstart, h⟩ := Res.bind_ok.mp h
  obtain ⟨⟨calls, v⟩, hcalls, h⟩ := Res.bind_ok.mp h
  obtain ⟨r', hr, h⟩ := Res.bind_ok.mp h
  obtain ⟨d', hdec, h⟩ := Res.bind_ok.mp h
  obtain ⟨s', hstep, h⟩ := Res.bind_ok.mp h
  cases h
  obtain ⟨rfl, hentries⟩ := entries5_ok hcalls
  have hread : readFile join t = .ok v := by
    rw [readFile, if_neg hv, readFile5_eq, hstart]
    exact hentries.times
  have hheader : UnitRun join h₀ e entries [] r := .header hp ht (.from5 hv hstart hentries) hread hr
  have hadds : AddsEntries join r d [] := by rw [AddsEntries, if_neg hd]
  have hone := hheader.step ⟨hrun, hstep⟩ hdec hadds
  rw [List.append_nil, List.nil_append, if_pos hrow] at hone
  exact ⟨h₀, e, ⟨s₀, .refl, hm, hopen⟩, hone⟩

end

-- The same file twice, as producers write the primary one.
def repeated5 : Scan :=
  lineBuffer [33, 0, 0, 0, 5, 0, 8, 0, 21, 0, 0, 0, 1, 1, 1, 0xfb, 14, 2, 0, 1, 1, 8, 1, 100, 0, 1, 1, 8,
    2, 97, 0, 97, 0, 1, 0, 1, 1] (by decide)

theorem twoRows_unit : ∃ h entries registers r, HeaderAt slashed twoRows h 27 ∧
    UnitRun slashed h 27 entries registers r ∧ r.cu.lines.length = 1 ∧ r.sm.version < 5 := by
  obtain ⟨s, h, hs, hfirst⟩ : ∃ s, firstOpcode slashed twoRows = .ok (s, 27) ∧
      OpcodeAt slashed twoRows s 27 ∧ FirstAt s 27 23 2 2 [1, 0, 1, 1] :=
    OpcodeAt.first rfl (by decide) (by decide +kernel)
  have hnext : (firstOpcode slashed twoRows >>= fun p => step slashed p.2 p.1).toOption.map
      (fun t => ((running t, decide (t.sm.version < 5)), t.cu.lines.length)) = some ((true, true), 1) := by
    decide +kernel
  rw [h, Res.ok_bind] at hnext
  obtain ⟨t, ht, hmachine⟩ := Res.ok_of_map hnext
  simp only [Prod.mk.injEq, decide_eq_true_eq] at hmachine
  obtain ⟨⟨hrun, hv⟩, hlines⟩ := hmachine
  obtain ⟨r₀, hprogram, hvisits, hm⟩ := hs
  have hat : OpcodeAt slashed twoRows t 27 := ⟨r₀, hprogram, hvisits.tail ⟨hm, ht⟩, hrun⟩
  obtain ⟨u, entries, registers, hu, hunit⟩ := hat.unitRun
  exact ⟨u, entries, registers, t, hu, hunit, hlines, hv⟩

theorem repeated5_unit : ∃ h e entries r, HeaderAt slashed repeated5 h e ∧
    UnitRun slashed h e entries [1] r ∧ r.sm.version = 5 ∧
    entries = [some ([46, 47, 97], 0, 0), some ([46, 47, 97], 0, 0)] := by
  have hrow : (firstRow5 slashed repeated5).toOption.map (fun x =>
      ((decide (x.1 = [some ([46, 47, 97], 0, 0), some ([46, 47, 97], 0, 0)]), x.2.1.sm.file),
        (running x.2.1, decide (x.2.2.1.action = .copy), x.2.2.2.sm.version))) =
      some ((true, 1), (true, true, 5)) := by decide +kernel
  obtain ⟨⟨entries, r, d, s⟩, hx, hrow⟩ := Res.ok_of_map hrow
  simp only [Prod.mk.injEq, decide_eq_true_eq] at hrow
  obtain ⟨⟨hentries, hfile⟩, hrun, hd, hversion⟩ := hrow
  obtain ⟨h, e, hh, hunit⟩ := unitRun_of_firstRow5 rfl hx hrun (by rw [hd]; decide) (by rw [hd]; rfl)
  exact ⟨h, e, entries, s, hh, hfile ▸ hunit, hversion, hentries⟩

theorem rows_numbered_both :
    (∃ h entries registers r, HeaderAt slashed twoRows h 27 ∧
      UnitRun slashed h 27 entries registers r ∧ r.cu.lines.length = 1 ∧
      List.Forall₂ (Carries r entries) r.cu.lines registers) ∧
    ∃ h e entries r, HeaderAt slashed repeated5 h e ∧ UnitRun slashed h e entries [1] r ∧
      r.sm.version = 5 ∧ List.Forall₂ (Carries r entries) r.cu.lines [1] := by
  constructor
  · obtain ⟨h, entries, registers, r, hh, hunit, hlines, hv⟩ := twoRows_unit
    exact ⟨h, entries, registers, r, hh, hunit, hlines,
      (rows_numbered_iff rfl rfl rfl hh hunit fun hn => absurd hv hn).mpr (.inl hv)⟩
  · obtain ⟨h, e, entries, r, hh, hunit, hversion, hentries⟩ := repeated5_unit
    refine ⟨h, e, entries, r, hh, hunit, hversion,
      (rows_numbered_iff rfl rfl rfl hh hunit fun _ => by rw [hentries]; decide).mpr (.inr ?_)⟩
    intro file hfile
    rw [List.mem_singleton.mp hfile, hentries]
    rfl

-- A unit of version 5 with the files a and b and the program copy, end_sequence.
def twoFiles5 : Scan :=
  lineBuffer [33, 0, 0, 0, 5, 0, 8, 0, 21, 0, 0, 0, 1, 1, 1, 0xfb, 14, 2, 0, 1, 1, 8, 1, 100, 0, 1, 1, 8,
    2, 97, 0, 98, 0, 1, 0, 1, 1] (by decide)

theorem twoFiles5_misnumbered : ∃ h e entries registers r, HeaderAt slashed twoFiles5 h e ∧
    UnitRun slashed h e entries registers r ∧ r.sm.version = 5 ∧ none ∉ entries ∧
    ¬ List.Forall₂ (Carries r entries) r.cu.lines registers := by
  have hrow : (firstRow5 slashed twoFiles5).toOption.map (fun x =>
      ((decide (x.1 = [some ([46, 47, 97], 0, 0), some ([46, 47, 98], 0, 0)]), x.2.1.sm.file),
        (running x.2.1, decide (x.2.2.1.action = .copy), x.2.2.2.sm.version),
        x.2.2.2.cu.lines.map (fun row => (x.2.2.2.dl.files[row.file]?).map File.path))) =
      some ((true, 1), (true, true, 5), [some [46, 47, 97]]) := by decide +kernel
  obtain ⟨⟨entries, r, d, s⟩, hx, hrow⟩ := Res.ok_of_map hrow
  simp only [Prod.mk.injEq, decide_eq_true_eq] at hrow
  obtain ⟨⟨hentries, hfile⟩, ⟨hrun, hd, hversion⟩, hlines⟩ := hrow
  obtain ⟨h, e, hh, hunit⟩ := unitRun_of_firstRow5 rfl hx hrun (by rw [hd]; decide) (by rw [hd]; rfl)
  refine ⟨h, e, entries, _, s, hh, hunit, hversion, by rw [hentries]; decide, fun hall => ?_⟩
  obtain ⟨row, hrow⟩ := List.map_eq_singleton_iff.mp hlines
  rw [hrow.1, List.forall₂_cons] at hall
  obtain ⟨path, hpath, hcarry⟩ := hall.1
  rw [hversion, if_neg (by decide), hentries, hfile] at hcarry
  rw [hrow.2] at hpath
  rw [← hpath] at hcarry
  revert hcarry
  decide

end Gelpp.Dwarf

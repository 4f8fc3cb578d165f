import Gelpp.Pecoff.Entry
import Gelpp.Pecoff.Content
import Gelpp.Consume

namespace Gelpp.Pecoff

open FileM Effect

def IsDigit (d : UInt8) : Prop := 48 ≤ d ∧ d ≤ 57

def decimal (ds : List UInt8) : Nat := ds.foldl (fun v d => 10 * v + (d.toNat - 48)) 0

structure Numbered (hd : SectionHeader) (ds rest : List UInt8) : Prop where
  name : hd.name = 47 :: (ds ++ rest)
  digits : ∀ d ∈ ds, IsDigit d
  some : ds ≠ []
  ends : rest = [] ∨ ∃ more, rest = 0 :: more

def Scans (scan : List UInt8 → Res UInt32) : Prop :=
  ∀ ds, ds ≠ [] → (∀ d ∈ ds, IsDigit d) → decimal ds < 2 ^ 32 → scan ds = .ok (.ofNat (decimal ds))

def bodyAt (bytes : List UInt8) (place : Nat) : Option (List UInt8) :=
  if place + 4 ≤ bytes.length ∧ 4 ≤ (u32At bytes place).toNat ∧
      place + (u32At bytes place).toNat ≤ bytes.length then
    some (cell bytes (place + 4) ((u32At bytes place).toNat - 4))
  else none

def textIn (n : Nat) (body : List UInt8) : Option (List UInt8) :=
  if 4 ≤ n ∧ 0 ∈ body.drop (n - 4) then some ((body.drop (n - 4)).takeWhile (· ≠ 0)) else none

namespace File

variable (f : File)

def place : Nat := f.coffHeader.pointerToSymbolTable.toNat + 18 * f.coffHeader.numberOfSymbols.toNat

def Fails (k : Nat) : Prop := f.stream.fails (f.stream.count + k) = true

instance (k : Nat) : Decidable (f.Fails k) := inferInstanceAs (Decidable (_ = true))

def tableBody : Option (List UInt8) :=
  if f.stringTable = none ∧ (f.Fails 0 ∨ f.Fails 1 ∨ f.Fails 2) then none
  else bodyAt f.stream.bytes f.place

-- Where the texts are looked for: in the recorded table, else at the place modulo 2^32, or where
-- the stream stands if it does not move, with a size that is an int.
def lookedBody : Option (List UInt8) :=
  match f.stringTable with
  | some table => some table
  | none =>
    if f.Fails 1 ∨ f.Fails 2 then none
    else (bodyAt f.stream.bytes (if f.Fails 0 then f.stream.pos else f.place % 2 ^ 32)).filter
      fun body => body.length < 2 ^ 31

end File

theorem textAt_eq (mem : List UInt8) (off : Nat) : textAt mem off =
    if 0 ∈ mem.drop off then .ok ((mem.drop off).takeWhile (· ≠ 0)) else .error (.fault .bounds) := by
  rw [textAt]
  refine if_congr ?_ rfl rfl
  rw [← takeWhile_length_lt_iff, List.length_drop]
  have hle := (List.takeWhile_prefix (· ≠ 0) (l := mem.drop off)).length_le
  rw [List.length_drop] at hle
  by_cases hoff : off ≤ mem.length
  · omega
  · omega

theorem tableText_eq (body : List UInt8) (n : UInt32) : tableText body n =
    match textIn n.toNat body with
    | some text => .ok text
    | none => .error (.fault .bounds) := by
  rw [tableText, textIn, textAt_eq]
  by_cases h4 : n.toNat < 4
  · rw [if_pos h4, if_neg fun h => absurd h.1 (by omega)]
  · rw [if_neg h4]
    by_cases h0 : (0 : UInt8) ∈ body.drop (n.toNat - 4)
    · rw [if_pos h0, if_pos ⟨by omega, h0⟩]
    · rw [if_neg h0, if_neg fun h => h0 h.2]

section
variable {s : Stream}

theorem moveTo_eq (offset : Nat) : ∃ r, (Stream.moveTo offset).run s =
    (.ok r, s.moved (if s.fails s.count = true then s.pos else offset) 1) := by
  rw [Stream.moveTo, bind_of_ok (tick_eq s)]
  cases s.fails s.count with
  | true => exact ⟨_, rfl⟩
  | false => exact ⟨_, rfl⟩

theorem read_refused (mem : List UInt8) (len : Int) (hmem : InStream.count len ≤ mem.length)
    (h : s.fails s.count = true ∨ len < 0 ∨
      0 < len ∧ len < 2 ^ 31 ∧ s.bytes.length < s.pos + len.toNat) :
    ∃ m mem' t, (read mem len).run s = (.ok (.error (.exception m), mem'), t) := by
  have hfits : (InStream.delivered s.bytes s.pos len).length ≤ mem.length :=
    (List.length_take_le ..).trans hmem
  cases hfails : s.fails s.count with
  | true =>
    rw [read, bind_of_ok (streamRead_failed hfails mem len)]
    exact ⟨_, _, _, rfl⟩
  | false =>
    rw [hfails] at h
    rcases h with h | hneg | ⟨hpos, hint, hshort⟩
    · cases h
    · exact read_negative hfails hneg hfits
    · obtain ⟨n, rfl⟩ := Int.eq_ofNat_of_zero_le hpos.le
      rw [Int.toNat_natCast] at hshort
      have hlen : (InStream.delivered s.bytes s.pos n).length < n := by
        rw [delivered_small (by omega), cell, List.length_take, List.length_drop]
        omega
      have hanswer : InStream.answer (InStream.delivered s.bytes s.pos n) =
          (InStream.delivered s.bytes s.pos n).length := toInt_small (by omega)
      rw [read, bind_of_ok (streamRead_fits hfails hfits), hanswer]
      dsimp only
      rw [get_bind, if_neg (by omega), if_pos (by omega)]
      exact ⟨_, _, _, rfl⟩

end

section
variable {f : File} {n : UInt32}

theorem place_toNat (f : File) :
    (f.coffHeader.pointerToSymbolTable + 18 * f.coffHeader.numberOfSymbols).toNat =
      f.place % 2 ^ 32 := by
  rw [UInt32.toNat_add, UInt32.toNat_mul, File.place, Nat.add_mod_mod]
  rfl

def File.start (f : File) : Nat := if f.Fails 0 then f.stream.pos else f.place % 2 ^ 32

def readTable (n : UInt32) : FileM (List UInt8) := do
  let f ← get
  let mem ← onStream (readRecord 4)
  let size := u32At mem 0 - 4
  modify fun f => { f with stringTableSize := size }
  let table ← lift (allocate f.junk size.toNat)
  modify fun f => { f with stringTable := some table }
  let (r, table) ← onStream (read table (toInt size.toNat))
  modify fun f => { f with stringTable := some table }
  lift r
  lift (tableText table n)

theorem getString_start (h : f.stringTable = none) : (getString n).run f =
    (readTable n).run { f with stream := f.stream.moved f.start 1 } := by
  obtain ⟨r, hmove⟩ := moveTo_eq (s := f.stream) (f.place % 2 ^ 32)
  generalize hg : { f with stream := f.stream.moved f.start 1 } = g
  rw [getString, get_bind, h]
  dsimp only
  rw [place_toNat, bind_of_ok (onStream_run hmove), ← hg]
  rfl

theorem readRecord_refused (s : Stream) (size : Nat) (hsize : size < 2 ^ 31) (h : s.fails s.count = true ∨
    0 < size ∧ s.bytes.length < s.pos + size) :
    ∃ m t, (readRecord size).run s = (.error (.exception m), t) := by
  obtain ⟨m, mem, t, hrun⟩ := read_refused (s := s) (.replicate size 0) size
    (by rw [List.length_replicate, count_small (by omega)])
    (by
      rw [Int.toNat_natCast]
      exact h.imp_right fun h => .inr ⟨by omega, by omega, h.2⟩)
  rw [readRecord, bind_of_ok hrun]
  exact ⟨m, t, rfl⟩

theorem sub_four_toNat (v : UInt32) :
    (v - 4).toNat = if 4 ≤ v.toNat then v.toNat - 4 else v.toNat + (2 ^ 32 - 4) := by
  have hlt := v.toNat_lt
  rw [UInt32.toNat_sub]
  change (2 ^ 32 - 4 + v.toNat) % 2 ^ 32 = _
  split <;> omega

def File.bodyHere (f : File) : Option (List UInt8) :=
  if f.Fails 0 ∨ f.Fails 1 then none
  else (bodyAt f.stream.bytes f.stream.pos).filter fun body => body.length < 2 ^ 31

def File.Readable (f : File) : Prop :=
  ¬ f.Fails 1 ∧ 4 ≤ (u32At f.stream.bytes f.stream.pos).toNat ∧
    (u32At f.stream.bytes f.stream.pos).toNat - 4 < 2 ^ 31 ∧
    f.stream.pos + (u32At f.stream.bytes f.stream.pos).toNat ≤ f.stream.bytes.length

theorem bodyHere_short (h : f.Fails 0 ∨ f.stream.bytes.length < f.stream.pos + 4) :
    f.bodyHere = none := by
  rw [File.bodyHere]
  split
  · rfl
  · next hfails =>
    have hshort := h.resolve_left fun h0 => hfails (.inl h0)
    rw [bodyAt, if_neg fun h => absurd h.1 (by omega)]
    rfl

theorem bodyHere_readable (h0 : ¬ f.Fails 0) (hread : f.Readable) : f.bodyHere =
    some (cell f.stream.bytes (f.stream.pos + 4) ((u32At f.stream.bytes f.stream.pos).toNat - 4)) := by
  obtain ⟨h1, h4, hsmall, hbytes⟩ := hread
  have hlen : (cell f.stream.bytes (f.stream.pos + 4)
      ((u32At f.stream.bytes f.stream.pos).toNat - 4)).length < 2 ^ 31 := by
    rwa [cell_length (by omega)]
  rw [File.bodyHere, if_neg (not_or.mpr ⟨h0, h1⟩), bodyAt, if_pos ⟨by omega, h4, hbytes⟩]
  exact if_pos (decide_eq_true hlen)

theorem bodyHere_unreadable (hread : ¬ f.Readable) : f.bodyHere = none := by
  rw [File.bodyHere]
  split
  · rfl
  · next hfails =>
    rw [bodyAt]
    split
    · next hat =>
      refine if_neg fun hdec => hread ?_
      have hlen := of_decide_eq_true hdec
      rw [cell_length (by omega)] at hlen
      exact ⟨(not_or.mp hfails).2, hat.2.1, hlen, hat.2.2⟩
    · rfl

def File.tableSize (f : File) : UInt32 := u32At f.stream.bytes f.stream.pos - 4

theorem readTable_sized (h0 : ¬ f.Fails 0) (hfour : f.stream.pos + 4 ≤ f.stream.bytes.length) :
    (readTable n).run f = (do
      let (r, table) ← onStream (read ((List.range f.tableSize.toNat).map f.junk)
        (toInt f.tableSize.toNat))
      modify fun f => { f with stringTable := some table }
      lift r
      lift (tableText table n)).run { f with
        stream := f.stream.moved (f.stream.pos + 4) 1
        stringTableSize := f.tableSize
        stringTable := some ((List.range f.tableSize.toNat).map f.junk) } := by
  have hsize := readRecord_served (Bool.not_eq_true _ ▸ h0) (by decide) hfour
  have hv : u32At (cell f.stream.bytes f.stream.pos 4) 0 - 4 = f.tableSize :=
    congrArg (· - 4) (u32At_cell (Nat.le_refl 4))
  have hlt := f.tableSize.toNat_lt
  have halloc : allocate f.junk f.tableSize.toNat = .ok ((List.range f.tableSize.toNat).map f.junk) :=
    if_pos (hlt.trans (by norm_num))
  rw [readTable, get_bind, bind_of_ok (onStream_run hsize), hv, modify_bind]
  dsimp only
  rw [halloc, lift_ok_bind, modify_bind]

theorem readTable_readable (h0 : ¬ f.Fails 0) (hread : f.Readable) (n : UInt32) :
    ∃ t, t.bytes = f.stream.bytes ∧ (readTable n).run f =
      (tableText (cell f.stream.bytes (f.stream.pos + 4)
        ((u32At f.stream.bytes f.stream.pos).toNat - 4)) n,
        { f with
          stream := t
          stringTableSize := f.tableSize
          stringTable := some (cell f.stream.bytes (f.stream.pos + 4)
            ((u32At f.stream.bytes f.stream.pos).toNat - 4)) }) := by
  obtain ⟨h1, h4, hsmall, hbytes⟩ := hread
  have hsub : f.tableSize.toNat = (u32At f.stream.bytes f.stream.pos).toNat - 4 :=
    (sub_four_toNat _).trans (if_pos h4)
  have hmem : ((List.range f.tableSize.toNat).map f.junk).length = f.tableSize.toNat := by
    rw [List.length_map, List.length_range]
  have hwhole := read_served (s := f.stream.moved (f.stream.pos + 4) 1) (Bool.not_eq_true _ ▸ h1)
    (by omega) (Nat.le_of_eq hmem.symm) (by simp only [moved_pos, moved_bytes]; omega)
  rw [← toInt_small (by omega), List.drop_eq_nil_of_le (Nat.le_of_eq hmem), List.append_nil] at hwhole
  refine ⟨(f.stream.moved (f.stream.pos + 4) 1).moved
    (f.stream.pos + 4 + f.tableSize.toNat) 1, rfl, ?_⟩
  rw [readTable_sized h0 (by omega), bind_of_ok (onStream_run hwhole), modify_bind, hsub]
  rfl

theorem readTable_run (f : File) (n : UInt32) :
    match f.bodyHere with
    | some body => ∃ g, (readTable n).run f = (tableText body n, g)
    | none => ∃ m g, (readTable n).run f = (.error (.exception m), g) := by
  by_cases hshort : f.Fails 0 ∨ f.stream.bytes.length < f.stream.pos + 4
  · obtain ⟨m, t, hrun⟩ := readRecord_refused f.stream 4 (by decide) (hshort.imp_right fun h => ⟨by omega, h⟩)
    rw [bodyHere_short hshort]
    rw [readTable, get_bind]
    exact ⟨m, _, bind_of_error (onStream_run hrun)⟩
  rw [not_or] at hshort
  obtain ⟨h0, hfour⟩ := hshort
  by_cases hread : f.Readable
  · obtain ⟨t, -, hrun⟩ := readTable_readable h0 hread n
    rw [bodyHere_readable h0 hread]
    exact ⟨_, hrun⟩
  · rw [bodyHere_unreadable hread]
    have hlt := f.tableSize.toNat_lt
    have hsub : f.tableSize.toNat = _ := sub_four_toNat (u32At f.stream.bytes f.stream.pos)
    have hvlt := (u32At f.stream.bytes f.stream.pos).toNat_lt
    have hmem : ((List.range f.tableSize.toNat).map f.junk).length = f.tableSize.toNat := by
      rw [List.length_map, List.length_range]
    have hstop : f.Fails 1 ∨ toInt f.tableSize.toNat < 0 ∨
        0 < toInt f.tableSize.toNat ∧ toInt f.tableSize.toNat < 2 ^ 31 ∧
        f.stream.bytes.length < f.stream.pos + 4 + (toInt f.tableSize.toNat).toNat := by
      by_cases h1 : f.Fails 1
      · exact .inl h1
      by_cases hsmall : f.tableSize.toNat < 2 ^ 31
      · rw [toInt_small hsmall, Int.toNat_natCast]
        split at hsub
        · next h4 =>
          have hbytes : ¬ f.stream.pos + (u32At f.stream.bytes f.stream.pos).toNat ≤
              f.stream.bytes.length := fun hbytes => hread ⟨h1, h4, by omega, hbytes⟩
          exact .inr (.inr ⟨by omega, by omega, by omega⟩)
        · omega
      · exact .inr (.inl (toInt_large (Nat.le_of_not_lt hsmall) hlt))
    obtain ⟨m, table, t, hrefused⟩ := read_refused (s := f.stream.moved (f.stream.pos + 4) 1)
      ((List.range f.tableSize.toNat).map f.junk) _ (by rw [hmem, count_toInt]; exact Nat.mod_le ..)
      hstop
    rw [readTable_sized h0 (by omega), bind_of_ok (onStream_run hrefused), modify_bind]
    exact ⟨m, _, rfl⟩

theorem getString_run (f : File) (n : UInt32) :
    match f.lookedBody with
    | some body => ∃ g, (getString n).run f = (tableText body n, g)
    | none => ∃ m g, (getString n).run f = (.error (.exception m), g) := by
  cases htable : f.stringTable with
  | some table =>
    rw [File.lookedBody, htable, getString, get_bind, htable]
    exact ⟨f, rfl⟩
  | none =>
    have hrun := readTable_run { f with stream := f.stream.moved f.start 1 } n
    have hbody : File.bodyHere { f with stream := f.stream.moved f.start 1 } = f.lookedBody := by
      rw [File.lookedBody, htable]
      rfl
    rw [hbody] at hrun
    rw [getString_start htable]
    exact hrun

end

def NameIs (f : File) (i : Nat) (expected : Option (List UInt8)) : Prop :=
  match expected with
  | some text => ∃ g, (name i).run f = (.ok text, g)
  | none => ∃ m g, (name i).run f = (.error (.exception m), g)

def File.offsetText (f : File) (n : Nat) : Option (List UInt8) := f.tableBody.bind (textIn n)

-- Where no name is kept, the digits end in the field, a table that is looked into has a text at the
-- offset, and it is the text of the file's table.
def NameFound (f : File) (s : Section) (n : Nat) : Prop :=
  if s.name = [] then
    0 ∈ s.hd.name ∧ (∀ body, f.lookedBody = some body → (textIn n body).isSome) ∧
      f.lookedBody.bind (textIn n) = f.offsetText n
  else f.offsetText n = some (s.name.takeWhile (· ≠ 0))

section
variable {f : File} {i : Nat} {s : Section}

theorem name_kept (hs : f.sects[i]? = some s) (hname : s.name ≠ []) :
    (name i).run f = (.ok (s.name.takeWhile (· ≠ 0)), f) := by
  rw [name, get_bind, bind_of_ok (at_run hs), if_neg hname]
  rfl

theorem name_looked (hs : f.sects[i]? = some s) (hname : s.name = []) :
    (name i).run f = (findName s.hd >>= fun text => set i { s with name := text } >>= fun _ =>
      pure (text.takeWhile (· ≠ 0))).run f := by
  rw [name, get_bind, bind_of_ok (at_run hs), if_pos hname]

theorem name_ok (hs : f.sects[i]? = some s) (hname : s.name = []) {text : List UInt8} {g : File}
    (h : (findName s.hd).run f = (.ok text, g)) :
    ∃ g', (name i).run f = (.ok (text.takeWhile (· ≠ 0)), g') := by
  rw [name_looked hs hname, bind_of_ok h]
  exact ⟨_, rfl⟩

theorem name_error (hs : f.sects[i]? = some s) (hname : s.name = []) {e : Stop} {g : File}
    (h : (findName s.hd).run f = (.error e, g)) : (name i).run f = (.error e, g) := by
  rw [name_looked hs hname, bind_of_error h]

theorem findName_plain (h8 : s.hd.name.length = 8) (h : s.hd.name.getD 0 0 ≠ 47) :
    ∃ text, (findName s.hd).run f = (.ok text, f) ∧
      text.takeWhile (· ≠ 0) = s.hd.name.takeWhile (· ≠ 0) := by
  rw [findName, if_neg h]
  split
  · next h7 =>
    have hmem : (0 : UInt8) ∈ s.hd.name.drop 0 := by
      have hget : s.hd.name[7]? = some 0 := by
        rw [List.getD_eq_getElem?_getD, List.getElem?_eq_getElem (by omega)] at h7
        rw [List.getElem?_eq_getElem (by omega)]
        exact congrArg some h7
      exact List.mem_of_getElem? hget
    rw [textAt_eq, if_pos hmem]
    exact ⟨_, rfl, List.takeWhile_idem ..⟩
  · exact ⟨_, rfl, rfl⟩

theorem decimal_lt {ds : List UInt8} (h : ∀ d ∈ ds, IsDigit d) : decimal ds < 10 ^ ds.length := by
  induction ds using List.reverseRecOn with
  | nil => decide
  | append_singleton ds d ih =>
    have hlt := ih fun e he => h e (List.mem_append_left _ he)
    have hd := h d (List.mem_append_right _ (List.mem_singleton_self d))
    unfold IsDigit at hd
    rw [UInt8.le_iff_toNat_le, UInt8.le_iff_toNat_le] at hd
    change 48 ≤ d.toNat ∧ d.toNat ≤ 57 at hd
    rw [decimal, List.foldl_append, List.length_append, List.length_singleton, Nat.pow_succ]
    change 10 * decimal ds + (d.toNat - 48) < _
    omega

variable {ds rest : List UInt8}

theorem digits_takeWhile (hn : Numbered s.hd ds rest) :
    (ds ++ rest).takeWhile (· ≠ 0) = ds := by
  have hall : ∀ d ∈ ds, decide (d ≠ 0) = true := by
    intro d hd
    rw [decide_eq_true_eq]
    rintro rfl
    exact absurd (hn.digits 0 hd).1 (by decide)
  rw [List.takeWhile_append_of_pos hall]
  rcases hn.ends with rfl | ⟨more, rfl⟩
  · simp
  · simp

theorem zero_mem_iff (hn : Numbered s.hd ds rest) : 0 ∈ s.hd.name ↔ 0 ∈ ds ++ rest := by
  rw [hn.name, List.mem_cons]
  exact or_iff_right (by decide)

theorem decimal_small (h8 : s.hd.name.length = 8) (hn : Numbered s.hd ds rest) :
    decimal ds < 2 ^ 32 := by
  have hlen := congrArg List.length hn.name
  rw [h8, List.length_cons, List.length_append] at hlen
  calc decimal ds < 10 ^ ds.length := decimal_lt hn.digits
    _ ≤ 10 ^ 7 := Nat.pow_le_pow_right (by norm_num) (by omega)
    _ < 2 ^ 32 := by norm_num

theorem findName_numbered (h8 : s.hd.name.length = 8) (hscan : Scans f.scan)
    (hn : Numbered s.hd ds rest) : (findName s.hd).run f =
      if 0 ∈ s.hd.name then (getString (.ofNat (decimal ds))).run f
      else (.error (.fault .bounds), f) := by
  have hlt := decimal_small h8 hn
  have hfirst : s.hd.name.getD 0 0 = 47 := by rw [hn.name]; rfl
  have htail : (s.hd.name.drop 1).drop 0 = ds ++ rest := by rw [hn.name]; rfl
  rw [findName, if_pos hfirst, textAt_eq, htail, digits_takeWhile hn]
  by_cases h0 : 0 ∈ s.hd.name
  · rw [if_pos h0, if_pos ((zero_mem_iff hn).mp h0), lift_ok_bind, get_bind,
      hscan ds hn.some hn.digits hlt, lift_ok_bind]
  · rw [if_neg h0, if_neg fun h => h0 ((zero_mem_iff hn).mpr h)]
    rfl

theorem nameIs_text {text : List UInt8} (h : ∃ g, (name i).run f = (.ok text, g))
    (expected : Option (List UInt8)) : NameIs f i expected ↔ some text = expected := by
  obtain ⟨g, hrun⟩ := h
  cases expected with
  | none => simp [NameIs, hrun]
  | some text' => simp [NameIs, hrun]

theorem nameIs_exception (h : ∃ m g, (name i).run f = (.error (.exception m), g))
    (expected : Option (List UInt8)) : NameIs f i expected ↔ none = expected := by
  obtain ⟨m, g, hrun⟩ := h
  cases expected with
  | none => simp [NameIs, hrun]
  | some text => simp [NameIs, hrun]

theorem not_nameIs_fault (h : ∃ g, (name i).run f = (.error (.fault .bounds), g))
    (expected : Option (List UInt8)) : ¬ NameIs f i expected := by
  obtain ⟨g, hrun⟩ := h
  cases expected with
  | none => simp [NameIs, hrun]
  | some text => simp [NameIs, hrun]

theorem name_plain_iff (hs : f.sects[i]? = some s) (h8 : s.hd.name.length = 8)
    (h : s.hd.name.getD 0 0 ≠ 47) : NameIs f i (some (s.hd.name.takeWhile (· ≠ 0))) ↔
      s.name = [] ∨ s.name.takeWhile (· ≠ 0) = s.hd.name.takeWhile (· ≠ 0) := by
  by_cases hname : s.name = []
  · obtain ⟨text, hrun, htext⟩ := findName_plain (f := f) h8 h
    rw [nameIs_text (name_ok hs hname hrun), htext]
    exact iff_of_true rfl (.inl hname)
  · rw [nameIs_text ⟨f, name_kept hs hname⟩, or_iff_right hname, Option.some_inj]

theorem textIn_takeWhile {m : Nat} {body text : List UInt8} (h : textIn m body = some text) :
    text.takeWhile (· ≠ 0) = text := by
  rw [textIn] at h
  split at h
  · cases h
    exact List.takeWhile_idem ..
  · cases h

theorem name_numbered (hs : f.sects[i]? = some s) (h8 : s.hd.name.length = 8) (hscan : Scans f.scan)
    (hn : Numbered s.hd ds rest) (hname : s.name = []) :
    if 0 ∈ s.hd.name then
      match f.lookedBody with
      | some body => match textIn (decimal ds) body with
        | some text => ∃ g, (name i).run f = (.ok text, g)
        | none => ∃ g, (name i).run f = (.error (.fault .bounds), g)
      | none => ∃ m g, (name i).run f = (.error (.exception m), g)
    else ∃ g, (name i).run f = (.error (.fault .bounds), g) := by
  have hfind := findName_numbered h8 hscan hn
  by_cases h0 : 0 ∈ s.hd.name
  · rw [if_pos h0] at hfind ⊢
    have hget := getString_run f (.ofNat (decimal ds))
    have hval : (UInt32.ofNat (decimal ds)).toNat = decimal ds :=
      UInt32.toNat_ofNat_of_lt' (decimal_small h8 hn)
    cases hbody : f.lookedBody with
    | none =>
      rw [hbody] at hget
      obtain ⟨m, g, hrun⟩ := hget
      exact ⟨m, g, name_error hs hname (hfind.trans hrun)⟩
    | some body =>
      rw [hbody] at hget
      obtain ⟨g, hrun⟩ := hget
      rw [tableText_eq, hval] at hrun
      dsimp only
      cases htext : textIn (decimal ds) body with
      | none =>
        rw [htext] at hrun
        exact ⟨g, name_error hs hname (hfind.trans hrun)⟩
      | some text =>
        rw [htext] at hrun
        obtain ⟨g', hok⟩ := name_ok hs hname (hfind.trans hrun)
        rw [textIn_takeWhile htext] at hok
        exact ⟨g', hok⟩
  · rw [if_neg h0] at hfind ⊢
    exact ⟨f, name_error hs hname hfind⟩

theorem name_numbered_iff (hs : f.sects[i]? = some s) (h8 : s.hd.name.length = 8)
    (hscan : Scans f.scan) (hn : Numbered s.hd ds rest) :
    NameIs f i (f.offsetText (decimal ds)) ↔ NameFound f s (decimal ds) := by
  rw [NameFound]
  by_cases hname : s.name = []
  · have hrun := name_numbered hs h8 hscan hn hname
    rw [if_pos hname]
    by_cases h0 : 0 ∈ s.hd.name
    · rw [if_pos h0] at hrun
      rw [and_iff_right h0]
      cases hbody : f.lookedBody with
      | none =>
        rw [hbody] at hrun
        exact (nameIs_exception hrun _).trans (and_iff_right nofun).symm
      | some body =>
        rw [hbody] at hrun
        dsimp only at hrun
        rw [Option.bind_some]
        cases htext : textIn (decimal ds) body with
        | none =>
          rw [htext] at hrun
          refine iff_of_false (not_nameIs_fault hrun _) fun h => ?_
          have hsome := h.1 body rfl
          rw [htext] at hsome
          cases hsome
        | some text =>
          rw [htext] at hrun
          refine (nameIs_text hrun _).trans (and_iff_right ?_).symm
          rintro _ ⟨⟩
          rw [htext]
          rfl
    · rw [if_neg h0] at hrun
      exact iff_of_false (not_nameIs_fault hrun _) fun h => h0 h.1
  · rw [if_neg hname, nameIs_text ⟨f, name_kept hs hname⟩]
    exact eq_comm

theorem name_iff (hs : f.sects[i]? = some s) (h8 : s.hd.name.length = 8) (hscan : Scans f.scan) :
    (s.hd.name.getD 0 0 ≠ 47 → (NameIs f i (some (s.hd.name.takeWhile (· ≠ 0))) ↔
      s.name = [] ∨ s.name.takeWhile (· ≠ 0) = s.hd.name.takeWhile (· ≠ 0))) ∧
    ∀ ds rest, Numbered s.hd ds rest →
      (NameIs f i (f.offsetText (decimal ds)) ↔ NameFound f s (decimal ds)) :=
  ⟨name_plain_iff hs h8, fun _ _ hn => name_numbered_iff hs h8 hscan hn⟩

def namedHeader (name : List UInt8) : SectionHeader := ⟨name, 2, 0x1000, 2, 0, 0, 0, 0, 0, 0⟩

-- A section with this name, and a string table of 6 bytes behind the headers.
def namedImage (name : List UInt8) (h8 : name.length = 8) : Description where
  stub := .replicate 60 0
  gap := []
  coff := ⟨magic, 0x14c, 1, 0, 224, 0, 0, 2⟩
  standard := ⟨0, 0, 0, 0, 0, 0, 0x1000, 0, 0⟩
  windows := ⟨0x400000, 0, 0, 0, 0, 0, 0, 0, 0, 0, 0, 0, 0, 0, 0, 0, 0, 0, 0, 0, 0⟩
  directories := []
  sections := [namedHeader name]
  stub_length := blankStub_length
  gap_lt := noGap_lt
  numbers := rfl
  count := rfl
  names := by simpa [namedHeader] using h8

def scanDecimal (text : List UInt8) : Res UInt32 := .ok (.ofNat (decimal text))

theorem scans_decimal : Scans scanDecimal := fun _ _ _ _ => rfl

theorem namedImage_open (name : List UInt8) (h8 : name.length = 8) :
    ∃ f, File.construct (fun _ => 1) scanDecimal
        ((namedImage name h8).stream false [6, 0, 0, 0, 97, 0]) = .ok f ∧
      f.sects[0]? = some { hd := namedHeader name } ∧ f.scan = scanDecimal ∧
      f.lookedBody = (bodyAt ((namedImage name h8).encode false [6, 0, 0, 0, 97, 0]) 224).filter
        fun body => body.length < 2 ^ 31 := by
  obtain ⟨f, pos, k, hrun, hd, hstream, htable, hscan⟩ := construct_encoded (namedImage name h8) false
    [6, 0, 0, 0, 97, 0] (by simp [namedImage]) (fun _ => 1) scanDecimal
  have hfails : ∀ k, ¬ f.Fails k := by
    intro k
    rw [File.Fails, hstream]
    exact Bool.false_ne_true
  have hplace : f.place = 224 := by
    rw [File.place, hd.coff]
    rfl
  refine ⟨f, hrun, ?_, hscan, ?_⟩
  · rw [hd.sects]
    rfl
  · rw [File.lookedBody, htable]
    dsimp only
    rw [if_neg (not_or.mpr ⟨hfails 1, hfails 2⟩), if_neg (hfails 0), hplace, hstream]
    rfl

theorem name_iff_image : ∃ f s, File.construct (fun _ => 1) scanDecimal
      ((namedImage [47, 52, 0, 0, 0, 0, 0, 0] rfl).stream false [6, 0, 0, 0, 97, 0]) = .ok f ∧
    f.sects[0]? = some s ∧
    ((s.hd.name.getD 0 0 ≠ 47 → (NameIs f 0 (some (s.hd.name.takeWhile (· ≠ 0))) ↔
      s.name = [] ∨ s.name.takeWhile (· ≠ 0) = s.hd.name.takeWhile (· ≠ 0))) ∧
    ∀ ds rest, Numbered s.hd ds rest →
      (NameIs f 0 (f.offsetText (decimal ds)) ↔ NameFound f s (decimal ds))) := by
  obtain ⟨f, hrun, hs, hscan, -⟩ := namedImage_open [47, 52, 0, 0, 0, 0, 0, 0] rfl
  exact ⟨f, _, hrun, hs, name_iff hs rfl (hscan ▸ scans_decimal)⟩

-- The offset 0 is in front of the table that is read.
theorem name_before_table : ∃ f s, File.construct (fun _ => 1) scanDecimal
      ((namedImage [47, 48, 0, 0, 0, 0, 0, 0] rfl).stream false [6, 0, 0, 0, 97, 0]) = .ok f ∧
    f.sects[0]? = some s ∧ Scans f.scan ∧ Numbered s.hd [48] [0, 0, 0, 0, 0, 0] ∧
    ¬ NameIs f 0 (f.offsetText (decimal [48])) := by
  obtain ⟨f, hrun, hs, hscan, hbody⟩ := namedImage_open [47, 48, 0, 0, 0, 0, 0, 0] rfl
  have hn : Numbered (namedHeader [47, 48, 0, 0, 0, 0, 0, 0]) [48] [0, 0, 0, 0, 0, 0] :=
    ⟨rfl, by simp [IsDigit], by simp, .inr ⟨_, rfl⟩⟩
  have hscans : Scans f.scan := hscan ▸ scans_decimal
  have hsome : f.lookedBody = some [97, 0] := by
    rw [hbody]
    decide +kernel
  have hname := name_numbered hs rfl hscans hn rfl
  rw [if_pos (by decide), hsome] at hname
  exact ⟨f, _, hrun, hs, hscans, hn, not_nameIs_fault hname _⟩

end

end Gelpp.Pecoff

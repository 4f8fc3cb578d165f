import Gelpp.Dwarf.TableBytes

namespace Gelpp.Dwarf

open Reader (Plain Outside)
open Cursor (Past)

structure Aside (s t : Reader) : Prop extends Outside s t where
  sm : t.sm = s.sm
  cu : t.cu = s.cu
  filed : t.dl.files = s.dl.files

theorem Aside.refl (s : Reader) : Aside s s := ⟨.refl s, rfl, rfl, rfl⟩

theorem Aside.trans {s t u : Reader} (h : Aside s t) (h' : Aside t u) : Aside s u :=
  ⟨h.toOutside.trans h'.toOutside, h'.sm.trans h.sm, h'.cu.trans h.cu, h'.filed.trans h.filed⟩

theorem aside_cursor (s : Reader) {c : Cursor} (h : c.buf = s.c.buf) : Aside s { s with c } :=
  ⟨⟨h, rfl, rfl, rfl, rfl, rfl, List.prefix_refl _⟩, rfl, rfl, rfl⟩

section
variable {c : Cursor} {text tail : List UInt8}

theorem takeWhile_text (h : 0 ∉ text) : (text ++ 0 :: tail).takeWhile (· ≠ 0) = text := by
  induction text with
  | nil => simp
  | cons b text ih =>
    rw [List.mem_cons, not_or] at h
    rw [List.cons_append, List.takeWhile_cons_of_pos (by simpa using Ne.symm h.1), ih h.2]

theorem readCString_found (hf : c.buf.fence = none) (h0 : 0 ∉ text) (h : c.rest = text ++ 0 :: tail) :
    c.readCString = .ok (.found text (c.forward (text.length + 1))) := by
  rw [Cursor.readCString, h, takeWhile_text h0, Buffer.demand_unfenced hf, Res.ok_bind,
    if_neg (by simp), if_neg (by simp)]
  rfl

theorem readName_chars {d : Cursor} {name : List UInt8} (hf : c.buf.fence = none)
    (h : readName c = .ok (name, d)) : 0 ∈ c.rest ∧ name = c.rest.takeWhile (· ≠ 0) := by
  rw [readName, Cursor.readCString, Buffer.demand_unfenced hf, Res.ok_bind] at h
  split at h
  · cases h
  · split at h
    · cases h
    · next hlen =>
      cases h
      have hle := (List.takeWhile_prefix (l := c.rest) (· ≠ (0 : UInt8))).length_le
      exact ⟨(takeWhile_length_lt_iff _).mp (Nat.lt_of_le_of_ne hle hlen), rfl⟩

theorem readName_empty {d : Cursor} {name : List UInt8} (hf : c.buf.fence = none)
    (h : readName c = .ok (name, d)) : name = [] ↔ c.rest.head? = some 0 := by
  obtain ⟨hmem, rfl⟩ := readName_chars hf h
  cases hrest : c.rest with
  | nil => simp [hrest] at hmem
  | cons b tail => by_cases hb : b = 0 <;> simp [hb]

theorem readInto_found (old : CString) (hf : c.buf.fence = none) (h0 : 0 ∉ text)
    (h : c.rest = text ++ 0 :: tail) :
    readInto c old = .ok (.text text, c.forward (text.length + 1)) := by
  rw [readInto, readCString_found hf h0 h]
  rfl

theorem readInto_any (hf : c.buf.fence = none) (old : CString) :
    ∃ str d, readInto c old = .ok (str, d) ∧ d.buf = c.buf := by
  rw [readInto, Cursor.readCString, Buffer.demand_unfenced hf, Res.ok_bind]
  split
  · exact ⟨_, _, rfl, rfl⟩
  · split
    · exact ⟨_, _, rfl, rfl⟩
    · exact ⟨_, _, rfl, rfl⟩

theorem readSect_any (hf : c.buf.fence = none) (offset : UInt64) (old : CString) :
    ∃ str d, readSect c offset old = .ok (str, d) ∧ d.buf = c.buf := by
  rw [readSect]
  by_cases h : offset.toNat ≤ c.buf.size
  · rw [Cursor.move_some hf h]
    exact readInto_any (c := { c with off := offset.toNat, off_le := h }) hf old
  · rw [Cursor.move_none hf (Nat.lt_of_not_le h)]
    exact readInto_any hf old

theorem readSect_located (old : CString) {p : Stored} (hf : c.buf.fence = none) (h : Located (some c.buf) p)
    (hp : p.offset < 2 ^ 64) : ∃ d, readSect c (.ofNat p.offset) old = .ok (.text p.text, d) ∧
      d.buf = c.buf := by
  obtain ⟨h0, tail, hdrop⟩ := h c.buf rfl
  have hoffset : (UInt64.ofNat p.offset).toNat = p.offset := UInt64.toNat_ofNat_of_lt' hp
  have hle : p.offset ≤ c.buf.size := by
    apply Nat.le_of_lt
    rw [← Nat.not_le]
    intro hle
    rw [List.drop_eq_nil_of_le hle] at hdrop
    exact List.cons_ne_nil _ _ (List.append_eq_nil_iff.mp hdrop.symm).2
  rw [readSect, hoffset, Cursor.move_some hf hle]
  exact ⟨_, readInto_found old hf h0 hdrop, rfl⟩

theorem readAddress_encoded {is64 : Bool} {bs : List UInt8} (hf : c.buf.fence = none)
    (hlen : bs.length = offsetSize is64) (h : c.rest = bs ++ tail) :
    readAddress is64 c = .ok (.ofNat (c.buf.decoder.order.value bs), c.forward bs.length) := by
  cases is64 with
  | true =>
    obtain ⟨v, hv, hread⟩ := Cursor.readU64_rest hf h hlen
    rw [readAddress, if_pos rfl, hread, Res.ok_bind, ← hv, UInt64.ofNat_toNat]
    rfl
  | false =>
    obtain ⟨v, hv, hread⟩ := Cursor.readU32_rest hf h hlen
    have hv' : UInt64.ofNat v.toNat = v.toUInt64 := by
      apply UInt64.toNat_inj.mp
      rw [UInt32.toNat_toUInt64, UInt64.toNat_ofNat_of_lt' (v.toNat_lt.trans (by decide))]
    rw [readAddress, if_neg Bool.false_ne_true, hread, Res.ok_bind, ← hv, hv']
    rfl

theorem offset_lt {is64 : Bool} {order : ByteOrder} {p : Stored} {bs : List UInt8}
    (hlen : bs.length = offsetSize is64) (h : order.value bs = p.offset) : p.offset < 2 ^ 64 := by
  have hlt := order.value_lt bs
  rw [h, hlen] at hlt
  apply hlt.trans_le
  cases is64 <;> decide

end

section
variable {s : Reader} {form : PathForm} {p : Stored} {bs tail : List UInt8}

structure PathRead (s : Reader) (form : PathForm) (p : Stored) (tail : List UInt8)
    (r : CString × Reader) : Prop extends Aside s r.2 where
  rest : r.2.c.rest = tail
  text : Located (form.sect s.dl) p → r.1 = .text p.text

theorem readPath_encoded (hs : s.Plain)
    (h : EncodesPath s.dl.is64 s.c.buf.decoder.order form p bs) (hrest : s.c.rest = bs ++ tail)
    (message : String) (old : CString) :
    ∃ r, readPath message (.ofNat form.code) old s = .ok r ∧ PathRead s form p tail r := by
  cases form with
  | string =>
    obtain ⟨h0, rfl⟩ := h
    have htail := Cursor.forward_tail hrest
    rw [List.length_append, List.length_singleton] at htail
    rw [List.append_assoc] at hrest
    have hread := readInto_found old hs.c h0 hrest
    refine ⟨(.text p.text, { s with c := s.c.forward (p.text.length + 1) }), ?_,
      aside_cursor s rfl, htail, fun _ => rfl⟩
    rw [readPath, if_pos (by decide), hread]
    rfl
  | strp =>
    obtain ⟨hlen, hvalue⟩ := h
    have haddress := readAddress_encoded hs.c hlen hrest
    rw [hvalue] at haddress
    obtain ⟨str, d, hread, hd⟩ := readSect_any hs.strSect (.ofNat p.offset) old
    refine ⟨(str, { s with c := s.c.forward bs.length, dl.strSect := d }), ?_, ?_,
      Cursor.forward_tail hrest, fun hl => ?_⟩
    · rw [readPath, if_neg (by decide), if_neg (by decide), if_pos (by decide), haddress, Res.ok_bind]
      dsimp only
      rw [hread]
      rfl
    · exact ⟨⟨rfl, hd, rfl, rfl, rfl, rfl, List.prefix_refl _⟩, rfl, rfl, rfl⟩
    · obtain ⟨d', hread', -⟩ := readSect_located old hs.strSect hl (offset_lt hlen hvalue)
      rw [hread] at hread'
      cases hread'
      rfl
  | lineStrp =>
    obtain ⟨hlen, hvalue⟩ := h
    have haddress := readAddress_encoded hs.c hlen hrest
    rw [hvalue] at haddress
    obtain ⟨str, d, hread, hd⟩ := readSect_any hs.lineStrSect (.ofNat p.offset) old
    refine ⟨(str, { s with c := s.c.forward bs.length, dl.lineStrSect := d }), ?_, ?_,
      Cursor.forward_tail hrest, fun hl => ?_⟩
    · rw [readPath, if_neg (by decide), if_pos (by decide), haddress, Res.ok_bind]
      dsimp only
      rw [hread]
      rfl
    · exact ⟨⟨rfl, rfl, hd, rfl, rfl, rfl, List.prefix_refl _⟩, rfl, rfl, rfl⟩
    · obtain ⟨d', hread', -⟩ := readSect_located old hs.lineStrSect hl (offset_lt hlen hvalue)
      rw [hread] at hread'
      cases hread'
      rfl

end

def wordPair (p : Nat × Nat) : UInt64 × UInt64 := (.ofNat p.1, .ofNat p.2)

theorem readFormats_encoded {c : Cursor} {l : List (Nat × Nat)} {bs tail : List UInt8}
    (hf : c.buf.fence = none) (h : Concat EncodesFormat l bs) (hrest : c.rest = bs ++ tail) :
    ∃ d : Cursor, Loop.times readFormat l.length ([], c) = .ok (l.map wordPair, d) ∧
      d.buf = c.buf ∧ d.rest = tail := by
  rw [Loop.times_eq_foldlM]
  have hstep (k : List (Nat × Nat)) (a : Nat × Nat) (bs : List UInt8)
      (r : List (UInt64 × UInt64) × Cursor) (tail : List UInt8)
      (hr : r.1 = k.map wordPair ∧ r.2.buf = c.buf) (ha : EncodesFormat a bs)
      (hrest : r.2.rest = bs ++ tail) :
      Meets (fun _ => False) (fun r : List (UInt64 × UInt64) × Cursor =>
        (r.1 = (k ++ [a]).map wordPair ∧ r.2.buf = c.buf) ∧ r.2.rest = tail) (readFormat r) := by
    obtain ⟨us, vs, rfl, hus, hvs⟩ := ha
    have hfr : r.2.buf.fence = none := hr.2 ▸ hf
    rw [List.append_assoc] at hrest
    have hafter := Cursor.forward_tail hrest
    have hfirst := hus.read hfr hrest
    have hsecond := hvs.read (c := r.2.forward us.length) hfr hafter
    rw [readFormat, hfirst, Res.ok_bind]
    dsimp only
    rw [hsecond]
    refine ⟨⟨?_, hr.2⟩, Cursor.forward_tail hafter⟩
    rw [List.map_append, ← hr.1]
    rfl
  obtain ⟨r, hr, ⟨hl, hbuf⟩, htail⟩ := (Concat.foldlM_meets
    (fun k (r : List (UInt64 × UInt64) × Cursor) => r.1 = k.map wordPair ∧ r.2.buf = c.buf)
    (fun r => r.2.rest) hstep h (k := []) (s := ([], c)) ⟨rfl, rfl⟩ hrest).ok_of_never
  exact ⟨r.2, hr.trans (congrArg Except.ok (Prod.ext hl rfl)), hbuf, htail⟩

section
variable {s : Reader} {form : PathForm}

structure DirsRead (form : PathForm) (s : Reader) (k : List Stored) (t : Reader) : Prop
    extends Outside s t where
  version : t.sm.version = s.sm.version
  cu : t.cu = s.cu
  filed : t.dl.files = s.dl.files
  length : t.sm.includeDirectories.length = s.sm.includeDirectories.length + k.length
  text : (∀ d ∈ k, Located (form.sect s.dl) d) →
    t.sm.includeDirectories = s.sm.includeDirectories ++ k.map fun d => .text d.text

theorem Reader.Outside.sect {t : Reader} (h : Outside s t) (form : PathForm) :
    form.sect t.dl = form.sect s.dl := by
  cases form with
  | string => rfl
  | strp => exact congrArg some h.strSect
  | lineStrp => exact congrArg some h.lineStrSect

theorem readDirEntry5_encoded {d : Stored} {k : List Stored} {t : Reader} {bs tail : List UInt8}
    (hs : s.Plain) (hk : DirsRead form s k t)
    (h : EncodesPath s.dl.is64 s.c.buf.decoder.order form d bs) (hrest : t.c.rest = bs ++ tail) :
    Meets (fun e => e = .fault .overflow ∧ ¬ t.sm.includeDirectories.length + 1 < 2 ^ 31)
      (fun u => (DirsRead form s (k ++ [d]) u ∧ u.sm.includeDirectories.length < 2 ^ 31) ∧
        u.c.rest = tail)
      (readDirEntry5 [wordPair (Field.path.contentType, form.code)] t) := by
  rw [← hk.is64, ← hk.buf] at h
  obtain ⟨r, hr, hpath⟩ := readPath_encoded (hk.toOutside.plain hs) h hrest
    "Don't know how to get the include directory." (.text [])
  have hfield : readDirField (.text [], t) (wordPair (Field.path.contentType, form.code)) = .ok r :=
    (if_pos rfl).trans hr
  have hout := hk.toOutside.trans hpath.toOutside
  have hlength : r.2.sm.includeDirectories.length = t.sm.includeDirectories.length := by rw [hpath.sm]
  rw [readDirEntry5, List.foldlM_cons, hfield]
  change Meets _ _ (addDirectory r.2.sm r.1 >>= fun sm => .ok { r.2 with sm })
  rw [addDirectory, hlength]
  split
  · next hroom =>
    refine ⟨⟨⟨⟨hout.buf, hout.strSect, hout.lineStrSect, hout.is64, hout.units, hout.lines,
      hout.files⟩, ?_, hpath.cu.trans hk.cu, hpath.filed.trans hk.filed, ?_, fun hl => ?_⟩, ?_⟩,
      hpath.rest⟩
    · exact (congrArg StateMachine.version hpath.sm).trans hk.version
    · dsimp only
      rw [hpath.sm, List.length_append, hk.length, List.length_append, Nat.add_assoc]
      rfl
    · have htext := hk.text fun d' hd' => hl d' (List.mem_append_left _ hd')
      have hlast := hl d (List.mem_append_right _ (List.mem_singleton_self d))
      rw [← hk.toOutside.sect] at hlast
      dsimp only
      rw [hpath.sm, htext, hpath.text hlast, List.map_append, List.append_assoc]
      rfl
    · dsimp only
      rw [List.length_append, hlength]
      exact hroom
  · next hroom => exact ⟨rfl, hroom⟩

theorem EncodesPath.length_pos {is64 : Bool} {order : ByteOrder} {p : Stored} {bs : List UInt8}
    (h : EncodesPath is64 order form p bs) : 1 ≤ bs.length := by
  have hsize : 1 ≤ offsetSize is64 := by cases is64 <;> decide
  cases form with
  | string =>
    rw [h.2, List.length_append]
    exact Nat.le_add_left 1 p.text.length
  | strp => exact hsize.trans h.1.ge
  | lineStrp => exact hsize.trans h.1.ge

theorem readDirs_encoded {l : List Stored} {t : Reader} {bs tail : List UInt8} (hs : s.Plain)
    (h : Concat (EncodesPath s.dl.is64 s.c.buf.decoder.order form) l bs)
    (ht : DirsRead form s [] t) (hlt : t.sm.includeDirectories.length < 2 ^ 31)
    (hrest : t.c.rest = bs ++ tail) :
    Meets (fun e => e = .fault .overflow ∧ ¬ s.sm.includeDirectories.length + l.length < 2 ^ 31)
      (fun u => (DirsRead form s l u ∧ u.sm.includeDirectories.length < 2 ^ 31) ∧ u.c.rest = tail)
      (Loop.times (readDirEntry5 [wordPair (Field.path.contentType, form.code)]) l.length t) := by
  rw [Loop.times_eq_foldlM]
  have hstep (k : List Stored) (d : Stored) (m : List Stored) (bs : List UInt8) (t : Reader)
      (tail : List UInt8) (hl : k ++ d :: m = l)
      (hk : DirsRead form s k t ∧ t.sm.includeDirectories.length < 2 ^ 31)
      (hd : EncodesPath s.dl.is64 s.c.buf.decoder.order form d bs) (hrest : t.c.rest = bs ++ tail) :
      Meets (fun e => e = .fault .overflow ∧ ¬ s.sm.includeDirectories.length + l.length < 2 ^ 31)
        (fun u => (DirsRead form s (k ++ [d]) u ∧ u.sm.includeDirectories.length < 2 ^ 31) ∧
          u.c.rest = tail)
        (readDirEntry5 [wordPair (Field.path.contentType, form.code)] t) := by
    refine (readDirEntry5_encoded hs hk.1 hd hrest).mono (fun e he => ⟨he.1, ?_⟩) fun u hu => hu
    have hcount := hk.1.length
    have hover := he.2
    have hlen : k.length + (m.length + 1) = l.length := by
      rw [← hl, List.length_append, List.length_cons]
    omega
  exact Concat.foldlM_meets_prefix
    (fun k t => DirsRead form s k t ∧ t.sm.includeDirectories.length < 2 ^ 31) (fun t => t.c.rest) h
    (k := []) hstep ⟨ht, hlt⟩ hrest

theorem count_lt {c : Cursor} {n : Nat} {pre entries tail : List UInt8} (hn : n * 1 ≤ entries.length)
    (h : c.rest = pre ++ (entries ++ tail)) : n < 2 ^ 63 := by
  have hsize := c.size_lt
  have hlen := c.rest_length
  rw [h, List.length_append, List.length_append] at hlen
  omega

def Tables.Fits (t : Tables) : Prop := 1 + t.dirs.length < 2 ^ 31

def Tables.Crowded (t : Tables) (e : Stop) : Prop := e = .fault .overflow ∧ ¬ t.Fits

theorem readDir_encoded {t : Tables} {dirBytes fileBytes tail : List UInt8}
    (h : AtTables s t dirBytes fileBytes) (hrest : s.c.rest = dirBytes ++ (fileBytes ++ tail)) :
    Meets t.Crowded
      (fun u => (DirsRead t.dirForm s t.dirs u ∧ t.Fits) ∧ u.c.rest = fileBytes ++ tail)
      (readDir s) := by
  obtain ⟨format, count, entries, rfl, hformat, hcount, hentries⟩ := h.dirTable
  rw [List.cons_append, List.append_assoc, List.append_assoc] at hrest
  have hc := h.c
  have hone : s.sm.includeDirectories.length = 1 := by
    rw [h.fresh]
    rfl
  have hfirst := Cursor.readU8_rest hc hrest
  have hrest1 : (s.c.forward 1).rest = format ++ (count ++ (entries ++ (fileBytes ++ tail))) := by
    rw [Cursor.forward_rest, hrest]
    rfl
  have hformat' : Concat EncodesFormat [(Field.path.contentType, t.dirForm.code)] (format ++ []) :=
    .cons hformat .nil
  rw [List.append_nil] at hformat'
  obtain ⟨d, hformats, hbuf, hrest2⟩ := readFormats_encoded (c := s.c.forward 1) hc hformat' hrest1
  have hlt : t.dirs.length < 2 ^ 63 :=
    count_lt (hentries.length_le fun _ _ cs hcs => hcs.length_pos) hrest2
  have hd : d.buf.fence = none := hbuf ▸ hc
  have hnumber := hcount.read hd hrest2
  have hbuf' : (d.forward count.length).buf = s.c.buf := hbuf
  have hstart : DirsRead t.dirForm s [] { s with c := d.forward count.length } :=
    ⟨(aside_cursor s hbuf').toOutside, rfl, rfl, rfl, rfl, fun _ => (List.append_nil _).symm⟩
  rw [readDir, h.version, if_neg (by decide), readDir5, hfirst, Res.ok_bind]
  dsimp only
  rw [if_neg (by decide), if_neg (by decide)]
  change Meets _ _ (Loop.times readFormat [(Field.path.contentType, t.dirForm.code)].length
    ([], s.c.forward 1) >>= _)
  rw [hformats, Res.ok_bind]
  dsimp only
  rw [hnumber, Res.ok_bind]
  dsimp only
  rw [ofNat_toNat hlt]
  refine (readDirs_encoded h.toPlain hentries hstart ?_ (Cursor.forward_tail hrest2)).mono
    (fun e he => ⟨he.1, ?_⟩) fun u hu => ⟨⟨hu.1.1, ?_⟩, hu.2⟩
  · change s.sm.includeDirectories.length < 2 ^ 31
    omega
  · have hover := he.2
    rwa [hone] at hover
  · have hcount := hu.1.1.length
    have hfit := hu.1.2
    rwa [hcount, hone] at hfit

end

end Gelpp.Dwarf

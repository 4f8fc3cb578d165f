import Gelpp.Elf.LinkScan

namespace Gelpp.Elf

open Effect

def Linking.start (name : SearchPath) (units : List SearchPath) : Linking :=
  { unit := { name }, units }

section
variable {b : LinkBuilder} {f : File} {content : List UInt8} {name : SearchPath}
variable {units : List SearchPath}

open LinkM

theorem hostEntries_eq (f : File) (content : List UInt8) : hostEntries f content =
    (beforeNull (rows f.host content 0 (content.length / 8))).map (Dyn.fixVal f.eiData) := by
  rw [hostEntries, tableOf_map fun k hk => storedDyn_some hk]
  rfl

theorem hostEntries_val {d : Dyn} (hd : d ∈ hostEntries f content) : d.val < 2 ^ 32 := by
  obtain ⟨d', -, rfl⟩ := List.mem_map.mp hd
  exact fixWidth_lt ..

theorem requests_map (e : UInt8) (ds : List Dyn) :
    requests (ds.map (Dyn.fixVal e)) = (requests ds).map (Dyn.fixVal e) := by
  rw [requests, List.filter_map, requests]
  rfl

theorem link_run (b : LinkBuilder) (f : File) (name : SearchPath) (units : List SearchPath)
    (hlt : content.length < 2 ^ 63) :
    ∃ t, t.unit.Records (hostEntries f content) ∧
      match b.im.at_ (.ofNat (lastOf dtStrtab (hostEntries f content))) with
      | none => t.asked = [] ∧ (link b f (some content)).run (.start name units) =
          (.error (.exception "STRTAB address not in loaded segments!"), t)
      | some str => t.asked =
            (answers (lastOf dtStrsz (hostEntries f content)) str (requests (hostEntries f content))).1 ∧
          (link b f (some content)).run (.start name units) =
            ((answers (lastOf dtStrsz (hostEntries f content)) str
              (requests (hostEntries f content))).2, t) := by
  let l : Linking := { Linking.start name units with mem := content, off := 0 }
  have hfuel : content.length / 8 ≤ content.length := Nat.div_le_self ..
  obtain ⟨t, hrun, hunit, hentries, hasked⟩ := collect_scan (f := f) (l := l) (k := 0)
    (m := content.length / 8) (Nat.zero_mul 8).symm hlt (Nat.zero_add _) hfuel
  have hfold : t.unit = (hostEntries f content).foldl withEntry { name } := by
    rw [hunit, hostEntries_eq]
    rfl
  have hrecords : t.unit.Records (hostEntries f content) := by
    rw [hfold]
    exact ⟨fold_get fun d hd => hostEntries_val hd, fold_flags⟩
  have hstrtab : t.unit.strtab.toUInt64 = .ofNat (lastOf dtStrtab (hostEntries f content)) := by
    have hfield : t.unit.strtab.toNat = lastOf dtStrtab (hostEntries f content) :=
      hrecords.fields .strtab
    rw [← hfield]
    exact UInt64.toNat_inj.mp (by simp)
  have hlink : (link b f (some content)).run (.start name units) =
      (match b.im.at_ (.ofNat (lastOf dtStrtab (hostEntries f content))) with
        | none => (raise (.exception "STRTAB address not in loaded segments!") : LinkM Unit).run t
        | some str => (scan (perform b f str) content.length).run { t with off := 0 }) := by
    rw [link, modify_bind, bind_of_ok hrun, get_bind, hstrtab]
    cases b.im.at_ (.ofNat (lastOf dtStrtab (hostEntries f content))) <;> rfl
  cases hat : b.im.at_ (.ofNat (lastOf dtStrtab (hostEntries f content))) with
  | none =>
    rw [hat] at hlink
    exact ⟨t, hrecords, hasked, hlink⟩
  | some str =>
    rw [hat] at hlink
    have hlen : t.mem.length = content.length := hentries.length
    obtain ⟨u, hu, hasked', hget, hflags⟩ := perform_scan b str (f := f)
      (l := { t with off := 0 }) (k := 0) (m := content.length / 8) (Nat.zero_mul 8).symm
      (hlen.symm ▸ hlt) (hlen.symm ▸ Nat.zero_add _) hfuel
    have hstrsz : (t.unit.get .strsz).toNat = lastOf dtStrsz (hostEntries f content) :=
      hrecords.fields .strsz
    have hrequests : (requests (beforeNull (rows f.host t.mem 0 (content.length / 8)))).map
        (Dyn.fixVal f.eiData) = requests (hostEntries f content) := by
      rw [requests_same hentries, hostEntries_eq, requests_map]
    dsimp only at hu hasked' hget hflags
    rw [hrequests, hstrsz] at hu hasked'
    refine ⟨u, ⟨fun fd => ?_, hflags.trans hrecords.flags⟩, ?_, hlink.trans hu⟩
    · rw [hget fd, hrecords.fields fd]
    · rw [hasked', hasked]
      rfl

theorem of_eq_iff {d d' : Dyn} {s s' : List UInt8} :
    LinkRequest.of d s = .of d' s' ↔ (d.tag = dtNeeded ↔ d'.tag = dtNeeded) ∧ s = s' := by
  rw [LinkRequest.of, LinkRequest.of]
  by_cases h : d.tag = dtNeeded <;> by_cases h' : d'.tag = dtNeeded <;> simp [h, h']

theorem stringFor_error {str : ImageSegment} {off : Nat} {e : Stop}
    (h : stringFor str off = .error e) (m : String) : e ≠ .exception m := by
  rintro rfl
  rw [stringFor, cstringAt] at h
  split at h
  · dsimp only at h
    split at h <;> cases h
  · cases h

-- The induction is on the requests that are answered.
theorem answers_iff {str : ImageSegment} {strtab strsz : Nat} {ds ds' : List Dyn} :
    Resolves str strtab strsz ds' (answers strsz str ds).1 (answers strsz str ds).2 ↔
      SameTexts str strtab strsz ds ds' := by
  induction ds generalizing ds' with
  | nil =>
    rw [answers]
    constructor
    · rintro ⟨⟩
      exact .done
    · rintro ⟨⟩
      exact .done
  | cons d ds ih =>
    rw [answers]
    by_cases hrange : strsz ≤ d.val
    · rw [if_pos hrange]
      constructor
      · rintro ⟨⟩
        exact .refused hrange ‹_›
      · intro h
        cases h with
        | refused _ h' => exact .refused h'
        | served h => omega
    rw [if_neg hrange]
    cases hstring : stringFor str d.val with
    | error e =>
      dsimp only
      constructor
      · intro h
        generalize hx : (Except.error e : Res Unit) = x at h
        cases h with
        | done => cases hx
        | refused => cases hx; exact absurd rfl (stringFor_error hstring _)
      · intro h
        cases h with
        | refused h => exact absurd h hrange
        | served _ _ _ ht => cases hstring.symm.trans ht
    | ok s =>
      dsimp only
      constructor
      · intro h
        generalize hr : LinkRequest.of d s = r at h
        cases h with
        | served h' ht hs =>
          obtain ⟨hkind, rfl⟩ := of_eq_iff.mp hr
          exact .served (by omega) h' hkind hstring ht (ih.mp hs)
      · intro h
        cases h with
        | refused h => exact absurd h hrange
        | served _ h' hkind ht ht' hs =>
          cases hstring.symm.trans ht
          rw [of_eq_iff.mpr ⟨hkind, rfl⟩]
          exact .served h' ht' (ih.mpr hs)

theorem records_iff {u : LinkUnit} {ds : List Dyn} (h : u.Records ds) (ds' : List Dyn) :
    u.Records ds' ↔
      (∀ fd : DynField, lastOf fd.tag ds = lastOf fd.tag ds') ∧ flagsOf ds = flagsOf ds' := by
  constructor
  · intro h'
    exact ⟨fun fd => (h.fields fd).symm.trans (h'.fields fd), h.flags.symm.trans h'.flags⟩
  · rintro ⟨hfields, hflags⟩
    exact ⟨fun fd => (h.fields fd).trans (hfields fd), h.flags.trans hflags⟩

theorem table_fields {ds ds' : List Dyn}
    (h : ∀ fd : DynField, lastOf fd.tag ds = lastOf fd.tag ds') :
    lastOf dtStrtab ds = lastOf dtStrtab ds' ∧ lastOf dtStrsz ds = lastOf dtStrsz ds' :=
  ⟨h .strtab, h .strsz⟩

theorem link_iff (b : LinkBuilder) (f : File) (name : SearchPath) (units : List SearchPath)
    (hlt : content.length < 2 ^ 63) :
    Linked b.im (decoded f content) ((link b f (some content)).run (.start name units)) ↔
      Linkable b.im (hostEntries f content) (decoded f content) := by
  obtain ⟨t, hrecords, hrun⟩ := link_run b f name units hlt
  have hiff := records_iff hrecords (decoded f content)
  cases hat : b.im.at_ (.ofNat (lastOf dtStrtab (hostEntries f content))) with
  | none =>
    rw [hat] at hrun
    obtain ⟨hasked, hrun⟩ := hrun
    rw [hrun]
    constructor
    · intro h
      obtain ⟨hfields, hflags⟩ := hiff.mp h.records
      refine ⟨hfields, hflags, fun str hstr => ?_⟩
      rw [← (table_fields hfields).1, hat] at hstr
      cases hstr
    · intro h
      refine ⟨hiff.mpr ⟨h.fields, h.flags⟩, fun str hstr => ?_, fun _ => ⟨hasked, _, rfl⟩⟩
      rw [← (table_fields h.fields).1, hat] at hstr
      cases hstr
  | some str =>
    rw [hat] at hrun
    obtain ⟨hasked, hrun⟩ := hrun
    rw [hrun]
    constructor
    · intro h
      obtain ⟨hfields, hflags⟩ := hiff.mp h.records
      obtain ⟨hstrtab, hstrsz⟩ := table_fields hfields
      refine ⟨hfields, hflags, fun str' hstr => ?_⟩
      have hheld := h.held str' hstr
      rw [← hstrtab, hat] at hstr
      cases hstr
      dsimp only at hheld
      rw [hasked, hstrsz] at hheld
      exact answers_iff.mp hheld
    · intro h
      obtain ⟨hstrtab, hstrsz⟩ := table_fields h.fields
      refine ⟨hiff.mpr ⟨h.fields, h.flags⟩, fun str' hstr => ?_, fun hnone => ?_⟩
      · have htexts := h.texts str' hstr
        rw [← hstrtab, hat] at hstr
        cases hstr
        dsimp only
        rw [hasked, hstrsz]
        exact answers_iff.mpr htexts
      · rw [← hstrtab, hat] at hnone
        cases hnone

def decodedAt (f : File) (mem : List UInt8) (k : Nat) : Dyn where
  tag := (UInt32.ofNat (fixWidth f.eiData 4 (f.host.value (cell mem (k * 8) 4)))).toInt32.toInt
  val := fixWidth f.eiData 4 (f.host.value (cell mem (k * 8 + 4) 4))

theorem decoded_eq (hl : f.layout = elf32) : decoded f content =
    beforeNull ((List.range' 0 (content.length / 8)).map (decodedAt f content)) := by
  refine tableOf_map fun k hk => ?_
  have htag : k * 8 + elf32.dyn.tag.off + elf32.dyn.tag.width ≤ content.length := by
    change k * 8 + 0 + 4 ≤ content.length
    omega
  have hval : k * 8 + elf32.dyn.val.off + elf32.dyn.val.width ≤ content.length := by
    change k * 8 + 4 + 4 ≤ content.length
    omega
  rw [fetchDyn, hl, loadAt_some f.host htag, Res.ok_bind, loadAt_some f.host hval, Res.ok_bind]
  rfl

theorem hostEntries_unswapped (content : List UInt8) (hl : f.layout = elf32) (h : f.eiData = elfData2LSB) :
    hostEntries f content = decoded f content := by
  have hfix (v : Nat) : fixWidth f.eiData 4 v = (UInt32.ofNat v).toNat := by
    rw [h]
    rfl
  have hrow (k : Nat) : decodedAt f content k =
      (storedAt f.host content k).fixVal f.eiData := by
    simp only [decodedAt, storedAt, Dyn.fixVal, hfix, UInt32.ofNat_toNat]
  have htake (ds : List Dyn) :
      beforeNull (ds.map (Dyn.fixVal f.eiData)) = (beforeNull ds).map (Dyn.fixVal f.eiData) := by
    rw [beforeNull, List.takeWhile_map]
    rfl
  rw [decoded_eq hl, hostEntries_eq, ← htake, rows, List.map_map]
  exact congrArg beforeNull (List.map_congr_left fun k _ => (hrow k).symm)

end

-- A table of strings at an address, and the name at the offset 1 and the path at 3.
def dynTable (order : ByteOrder) (strtab : Nat) : List UInt8 :=
  [5, strtab, 10, 8, 1, 1, 15, 3, 0, 0].flatMap (order.bytes 4)

def marked (order : ByteOrder) (strtab : Nat) : File :=
  opened order [] [loneShdr 40 8] (dynTable order strtab)

def stringsAt (base : UInt64) : LinkBuilder where
  paths := { absolute := id, parent := id, join := fun p q => p ++ q }
  lpaths := []
  im := { segs := [⟨"rodata", base, [0, 97, 0, 98, 58, 99, 0, 0], 0⟩] }

theorem hostEntries_dynTable : hostEntries (marked .little 0) (dynTable .little 0) =
    [⟨5, 0⟩, ⟨10, 8⟩, ⟨1, 1⟩, ⟨15, 3⟩] := by
  decide +kernel

theorem link_at_zero : Linked (stringsAt 0).im (decoded (marked .little 0) (dynTable .little 0))
    ((LinkM.link (stringsAt 0) (marked .little 0) (some (dynTable .little 0))).run
      (.start [] [])) := by
  refine (link_iff _ _ _ _ (by decide)).mpr ?_
  have hsame := hostEntries_unswapped (dynTable .little 0) (f := marked .little 0) rfl rfl
  rw [← hsame, hostEntries_dynTable]
  refine ⟨fun _ => rfl, rfl, fun str hstr => ?_⟩
  cases hstr
  change SameTexts _ 0 8 [⟨1, 1⟩, ⟨15, 3⟩] [⟨1, 1⟩, ⟨15, 3⟩]
  have hname : ([0, 97, 0, 98, 58, 99, 0, 0] : List UInt8).drop 1 = [97] ++ 0 :: [98, 58, 99, 0, 0] := rfl
  have hpath : ([0, 97, 0, 98, 58, 99, 0, 0] : List UInt8).drop 3 = [98, 58, 99] ++ 0 :: [0] := rfl
  refine .served (s := [97]) (by decide) (by decide) Iff.rfl (by decide) ?_ ?_
  · exact ⟨by decide, by decide, _, hname⟩
  refine .served (s := [98, 58, 99]) (by decide) (by decide) Iff.rfl (by decide) ?_ .done
  exact ⟨by decide, by decide, _, hpath⟩

-- In native order at another address than 0, and in the other order at 0.
theorem link_missed :
    (¬ Linked (stringsAt 4096).im (decoded (marked .little 4096) (dynTable .little 4096))
      ((LinkM.link (stringsAt 4096) (marked .little 4096) (some (dynTable .little 4096))).run
        (.start [] []))) ∧
    ¬ Linked (stringsAt 0).im (decoded (marked .big 0) (dynTable .big 0))
      ((LinkM.link (stringsAt 0) (marked .big 0) (some (dynTable .big 0))).run
        (.start [] [])) := by
  constructor
  · intro h
    have htexts := ((link_iff _ _ _ _ (by decide)).mp h).texts
    have hseen : hostEntries (marked .little 4096) (dynTable .little 4096) =
        [⟨5, 4096⟩, ⟨10, 8⟩, ⟨1, 1⟩, ⟨15, 3⟩] := by decide +kernel
    rw [← hostEntries_unswapped _ rfl rfl, hseen] at htexts
    have hfirst : SameTexts _ 4096 8 [⟨1, 1⟩, ⟨15, 3⟩] [⟨1, 1⟩, ⟨15, 3⟩] := htexts _ rfl
    cases hfirst with
    | refused h => exact absurd h (by decide)
    | served _ _ _ ht =>
      have hfault : cstringAt [0, 97, 0, 98, 58, 99, 0, 0] (UInt64.toNat (1 - 4096)) =
          .error (.fault .assertion) := by decide +kernel
      cases hfault.symm.trans ht
  · intro h
    have hstrsz := ((link_iff _ _ _ _ (by decide)).mp h).fields .strsz
    have hseen : lastOf dtStrsz (hostEntries (marked .big 0) (dynTable .big 0)) = 0 := by
      decide +kernel
    have hdecoded : lastOf dtStrsz (decoded (marked .big 0) (dynTable .big 0)) = 8 := by
      decide +kernel
    cases hseen.symm.trans (hstrsz.trans hdecoded)

end Gelpp.Elf

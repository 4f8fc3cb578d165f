import Gelpp.Elf.Link

namespace Gelpp.Elf

open Effect

theorem fixWidth_lt (e : UInt8) (v : Nat) : fixWidth e 4 v < 2 ^ 32 :=
  (fix32 e (.ofNat v)).toNat_lt

def storedAt (host : ByteOrder) (mem : List UInt8) (k : Nat) : Dyn where
  tag := (UInt32.ofNat (host.value (cell mem (k * 8) 4))).toInt32.toInt
  val := host.value (cell mem (k * 8 + 4) 4)

def rows (host : ByteOrder) (mem : List UInt8) (k m : Nat) : List Dyn :=
  (List.range' k m).map (storedAt host mem)

def beforeNull (ds : List Dyn) : List Dyn := ds.takeWhile fun d => d.tag ≠ dtNull

section
variable {host : ByteOrder} {mem mem' : List UInt8} {k m : Nat}

theorem storedDyn_some (h : (k + 1) * 8 ≤ mem.length) :
    storedDyn host mem (k * 8) = .ok (storedAt host mem k) := by
  have htag : k * 8 + elf32.dyn.tag.off + elf32.dyn.tag.width ≤ mem.length := by
    change k * 8 + 0 + 4 ≤ mem.length
    omega
  have hval : k * 8 + elf32.dyn.val.off + elf32.dyn.val.width ≤ mem.length := by
    change k * 8 + 4 + 4 ≤ mem.length
    omega
  rw [storedDyn, loadAt_some host htag, Res.ok_bind, loadAt_some host hval, Res.ok_bind]
  rfl

theorem tableOf_map {read : Nat → Res Dyn} {g : Nat → Dyn}
    (h : ∀ k, (k + 1) * 8 ≤ mem.length → read (k * 8) = .ok (g k)) :
    tableOf read mem = beforeNull ((List.range' 0 (mem.length / 8)).map g) := by
  have hread : ∀ k ∈ List.range (mem.length / 8), (read (k * 8)).toOption = some (g k) := by
    intro k hk
    have hlt := List.mem_range.mp hk
    rw [h k (by omega)]
    rfl
  have hrows : ((List.range (mem.length / 8)).filterMap fun k => (read (k * 8)).toOption) =
      (List.range' 0 (mem.length / 8)).map g := by
    rw [List.filterMap_congr hread, List.range_eq_range']
    exact congrFun List.filterMap_eq_map' _
  exact congrArg beforeNull hrows

theorem storedAt_storeAt (host : ByteOrder) {v : Nat} (h : (k + 1) * 8 ≤ mem.length) (j : Nat) :
    (storedAt host (storeAt host mem (k * 8) elf32.dyn.val v) j).tag = (storedAt host mem j).tag ∧
      (j ≠ k → storedAt host (storeAt host mem (k * 8) elf32.dyn.val v) j =
        storedAt host mem j) := by
  have hin : k * 8 + elf32.dyn.val.off + elf32.dyn.val.width ≤ mem.length := by
    change k * 8 + 4 + 4 ≤ mem.length
    omega
  have htag : cell (storeAt host mem (k * 8) elf32.dyn.val v) (j * 8) 4 = cell mem (j * 8) 4 := by
    refine cell_storeAt_apart hin ?_
    change j * 8 + 4 ≤ k * 8 + 4 ∨ k * 8 + 4 + 4 ≤ j * 8
    omega
  refine ⟨congrArg (fun bs => (UInt32.ofNat (host.value bs)).toInt32.toInt) htag, fun hne => ?_⟩
  have hval : cell (storeAt host mem (k * 8) elf32.dyn.val v) (j * 8 + 4) 4 =
      cell mem (j * 8 + 4) 4 := by
    refine cell_storeAt_apart hin ?_
    change j * 8 + 4 + 4 ≤ k * 8 + 4 ∨ k * 8 + 4 + 4 ≤ j * 8 + 4
    omega
  rw [storedAt, storedAt, htag, hval]

structure SameEntries (host : ByteOrder) (mem mem' : List UInt8) : Prop where
  length : mem'.length = mem.length
  tag : ∀ j, (storedAt host mem' j).tag = (storedAt host mem j).tag
  entry : ∀ j, (∀ fd, LinkM.action (storedAt host mem j).tag ≠ .record fd) →
    storedAt host mem' j = storedAt host mem j

theorem SameEntries.refl (host : ByteOrder) (mem : List UInt8) : SameEntries host mem mem :=
  ⟨rfl, fun _ => rfl, fun _ _ => rfl⟩

theorem SameEntries.trans {mem'' : List UInt8} (h : SameEntries host mem mem')
    (h' : SameEntries host mem' mem'') : SameEntries host mem mem'' where
  length := h'.length.trans h.length
  tag j := (h'.tag j).trans (h.tag j)
  entry j hj := by
    rw [← h.entry j hj]
    exact h'.entry j fun fd => by rw [h.tag j]; exact hj fd

end

namespace LinkM

section
variable {f : File} {l : Linking} {k m : Nat}

theorem avail_at (hoff : l.off = k * 8) (hlt : l.mem.length < 2 ^ 63)
    (hk : k ≤ l.mem.length / 8) : l.avail = decide ((k + 1) * 8 ≤ l.mem.length) := by
  have hsum : (l.off + elf32.dyn.size) % 2 ^ 64 = (k + 1) * 8 := by
    change (l.off + 8) % 2 ^ 64 = _
    rw [hoff]
    omega
  rw [Linking.avail, hsum]

theorem avail_entry (hoff : l.off = k * 8) (hlt : l.mem.length < 2 ^ 63)
    (hk : (k + 1) * 8 ≤ l.mem.length) : l.avail = true := by
  rw [avail_at hoff hlt (by omega)]
  exact decide_eq_true hk

theorem avail_last (hoff : l.off = k * 8) (hlt : l.mem.length < 2 ^ 63)
    (hk : k = l.mem.length / 8) : l.avail = false := by
  rw [avail_at hoff hlt (Nat.le_of_eq hk)]
  exact decide_eq_false (by omega)

theorem avail_finish (hlt : l.mem.length < 2 ^ 63) : l.finish.avail = false := by
  refine decide_eq_false ?_
  change ¬ (l.mem.length + 8) % 2 ^ 64 ≤ l.mem.length
  omega

theorem here_at (host : ByteOrder) (hoff : l.off = k * 8) (hk : (k + 1) * 8 ≤ l.mem.length) :
    l.here host = .ok (storedAt host l.mem k) := by
  have hlt : l.off < l.mem.length := by omega
  rw [Linking.here, if_pos hlt, hoff, storedDyn_some hk]

theorem scan_ended (body : LinkM Unit) (fuel : Nat) (h : l.avail = false) :
    (scan body fuel).run l = (.ok (), l) := by
  cases fuel with
  | zero => rw [scan, get_bind, h]; rfl
  | succ fuel => rw [scan, get_bind, h]; rfl

theorem scan_next {body : LinkM Unit} {fuel : Nat} {t : Linking} (h : l.avail = true)
    (hbody : body.run l = (.ok (), t)) :
    (scan body (fuel + 1)).run l = (scan body fuel).run t.skip := by
  rw [scan, get_bind, if_pos h, bind_of_ok hbody]
  rfl

theorem scan_null {body : LinkM Unit} {fuel : Nat} (h : l.avail = true)
    (hlt : l.mem.length < 2 ^ 63) (hbody : body.run l = (.ok (), l.finish)) :
    (scan body (fuel + 1)).run l = (.ok (), l.finish) := by
  have hended : l.finish.avail = false := avail_finish hlt
  have hskip : l.finish.skip = l.finish := by
    rw [Linking.skip, hended]
    rfl
  rw [scan_next h hbody, hskip, scan_ended body fuel hended]

theorem scan_error {body : LinkM Unit} {fuel : Nat} {t : Linking} {e : Stop} (h : l.avail = true)
    (hbody : body.run l = (.error e, t)) :
    (scan body (fuel + 1)).run l = (.error e, t) := by
  rw [scan, get_bind, if_pos h, bind_of_error hbody]

structure Collected (f : File) (k : Nat) (l t : Linking) : Prop where
  unit : t.unit = withEntry l.unit ((storedAt f.host l.mem k).fixVal f.eiData)
  off : t.off = l.off
  entries : SameEntries f.host l.mem t.mem
  later : ∀ j, k < j → storedAt f.host t.mem j = storedAt f.host l.mem j
  asked : t.asked = l.asked

theorem collect_run (hoff : l.off = k * 8) (hk : (k + 1) * 8 ≤ l.mem.length)
    (hnull : (storedAt f.host l.mem k).tag ≠ dtNull) :
    ∃ t, (collect f).run l = (.ok (), t) ∧ Collected f k l t := by
  rw [collect, get_bind, here_at f.host hoff hk, lift_ok_bind]
  have htag : ((storedAt f.host l.mem k).fixVal f.eiData).tag = (storedAt f.host l.mem k).tag := rfl
  cases haction : action (storedAt f.host l.mem k).tag with
  | finish => exact absurd (action_finish_iff.mp haction) hnull
  | record fd =>
    have hin : k * 8 + elf32.dyn.val.off + elf32.dyn.val.width ≤ l.mem.length := by
      change k * 8 + 4 + 4 ≤ l.mem.length
      omega
    have hval : fixWidth f.eiData 4 (storedAt f.host l.mem k).val < 2 ^ 32 := fixWidth_lt ..
    have hfix : fixAt f.host f.eiData (k * 8) l.mem elf32.dyn.val =
        .ok (storeAt f.host l.mem (k * 8) elf32.dyn.val
          (fixWidth f.eiData 4 (storedAt f.host l.mem k).val)) := by
      rw [fixAt, loadAt_some f.host hin]
      rfl
    have hlen : (storeAt f.host l.mem (k * 8) elf32.dyn.val
        (fixWidth f.eiData 4 (storedAt f.host l.mem k).val)).length = l.mem.length :=
      storeAt_length hin
    have hload := loadAt_some f.host (hlen.symm ▸ hin)
    rw [cell_storeAt hin, f.host.value_bytes hval] at hload
    have hrows (j : Nat) := storedAt_storeAt f.host
      (v := fixWidth f.eiData 4 (storedAt f.host l.mem k).val) hk j
    dsimp only
    rw [hoff, hfix, lift_ok_bind, hload, lift_ok_bind, modify_run]
    refine ⟨_, rfl, ?_, rfl, ⟨hlen, fun j => (hrows j).1, fun j hj => (hrows j).2 ?_⟩,
      fun j hj => (hrows j).2 (Nat.ne_of_gt hj), rfl⟩
    · rw [withEntry, htag, haction]
      rfl
    · rintro rfl
      exact hj fd haction
  | flag bit =>
    refine ⟨_, rfl, ?_, rfl, .refl .., fun _ _ => rfl, rfl⟩
    rw [withEntry, htag, haction]
  | ignore =>
    refine ⟨_, rfl, ?_, rfl, .refl .., fun _ _ => rfl, rfl⟩
    rw [withEntry, htag, haction]
  | warn =>
    refine ⟨_, rfl, ?_, rfl, .refl .., fun _ _ => rfl, rfl⟩
    rw [withEntry, htag, haction]
    rfl

theorem rows_congr {host : ByteOrder} {mem mem' : List UInt8}
    (h : ∀ j, k ≤ j → storedAt host mem' j = storedAt host mem j) :
    rows host mem' k m = rows host mem k m := by
  refine List.map_congr_left fun j hj => h j ?_
  exact (List.mem_range'_1.mp hj).1

theorem rows_cons (host : ByteOrder) (mem : List UInt8) (k m : Nat) :
    rows host mem k (m + 1) = storedAt host mem k :: rows host mem (k + 1) m := by
  rw [rows, List.range'_succ, List.map_cons, rows]

theorem beforeNull_cons {d : Dyn} (ds : List Dyn) :
    beforeNull (d :: ds) = if d.tag = dtNull then [] else d :: beforeNull ds := by
  rw [beforeNull, List.takeWhile_cons]
  by_cases h : d.tag = dtNull <;> simp [h, beforeNull]

theorem skip_at (hoff : l.off = k * 8) (hlt : l.mem.length < 2 ^ 63)
    (hk : (k + 1) * 8 ≤ l.mem.length) : l.skip = { l with off := (k + 1) * 8 } := by
  have hsum : (l.off + elf32.dyn.size) % 2 ^ 64 = (k + 1) * 8 := by
    change (l.off + 8) % 2 ^ 64 = _
    rw [hoff]
    omega
  rw [Linking.skip, if_pos (avail_entry hoff hlt hk), hsum]

-- The induction is on the number of entries that are left.
theorem collect_scan {fuel : Nat} (hoff : l.off = k * 8) (hlt : l.mem.length < 2 ^ 63)
    (hm : k + m = l.mem.length / 8) (hfuel : m ≤ fuel) :
    ∃ t, (scan (collect f) fuel).run l = (.ok (), t) ∧
      t.unit = ((beforeNull (rows f.host l.mem k m)).map (Dyn.fixVal f.eiData)).foldl withEntry l.unit ∧
      SameEntries f.host l.mem t.mem ∧ t.asked = l.asked := by
  induction m generalizing l k fuel with
  | zero =>
    have hended := avail_last hoff hlt hm
    exact ⟨l, scan_ended _ fuel hended, rfl, .refl .., rfl⟩
  | succ m ih =>
    obtain ⟨fuel, rfl⟩ := Nat.exists_eq_add_of_le' (Nat.le_trans (Nat.le_add_left 1 m) hfuel)
    have hk : (k + 1) * 8 ≤ l.mem.length := by omega
    have havail := avail_entry hoff hlt hk
    rw [rows_cons, beforeNull_cons]
    by_cases hnull : (storedAt f.host l.mem k).tag = dtNull
    · have hbody : (collect f).run l = (.ok (), l.finish) := by
        rw [collect, get_bind, here_at f.host hoff hk, lift_ok_bind, hnull]
        rfl
      rw [if_pos hnull]
      exact ⟨l.finish, scan_null havail hlt hbody, rfl, .refl .., rfl⟩
    · obtain ⟨t, hbody, hc⟩ := collect_run hoff hk hnull
      have hlen := hc.entries.length
      have hskip : t.skip = { t with off := (k + 1) * 8 } :=
        skip_at (hc.off.trans hoff) (hlen ▸ hlt) (hlen ▸ hk)
      obtain ⟨u, hu, hunit, hentries, hasked⟩ := ih (l := { t with off := (k + 1) * 8 }) rfl
        (hlen ▸ hlt) (hlen.symm ▸ (by omega)) (Nat.le_of_succ_le_succ hfuel)
      refine ⟨u, ?_, ?_, hc.entries.trans hentries, hasked.trans hc.asked⟩
      · rw [scan_next havail hbody, hskip, hu]
      · rw [if_neg hnull, List.map_cons, List.foldl_cons, ← hc.unit, hunit]
        dsimp only
        rw [rows_congr fun j hj => hc.later j hj]

end

theorem requests_cons (d : Dyn) (ds : List Dyn) : requests (d :: ds) =
    if d.tag = dtNeeded ∨ d.tag = dtRpath then d :: requests ds else requests ds := by
  rw [requests, List.filter_cons]
  simp only [decide_eq_true_eq]
  rfl

theorem requested_unrecorded {tag : Int} (h : tag = dtNeeded ∨ tag = dtRpath) (fd : DynField) :
    action tag ≠ .record fd := by
  have hneeded : action dtNeeded = .ignore := rfl
  have hrpath : action dtRpath = .ignore := rfl
  rcases h with rfl | rfl
  · simp [hneeded]
  · simp [hrpath]

theorem requests_same {host : ByteOrder} {mem mem' : List UInt8} (h : SameEntries host mem mem')
    (k m : Nat) : requests (beforeNull (rows host mem' k m)) =
      requests (beforeNull (rows host mem k m)) := by
  induction m generalizing k with
  | zero => simp only [rows, List.range'_zero, List.map_nil]
  | succ m ih =>
    rw [rows_cons, rows_cons, beforeNull_cons, beforeNull_cons]
    have htag := h.tag k
    by_cases hnull : (storedAt host mem k).tag = dtNull
    · rw [if_pos hnull, if_pos (htag.trans hnull)]
    · rw [if_neg hnull, if_neg (htag ▸ hnull), requests_cons, requests_cons, ih]
      by_cases hreq : (storedAt host mem k).tag = dtNeeded ∨ (storedAt host mem k).tag = dtRpath
      · rw [if_pos hreq, if_pos (htag.symm ▸ hreq), h.entry k (requested_unrecorded hreq)]
      · rw [if_neg hreq, if_neg (htag.symm ▸ hreq)]

structure Untouched (s t : Linking) : Prop where
  get : ∀ fd, t.unit.get fd = s.unit.get fd
  flags : t.unit.flags = s.unit.flags
  mem : t.mem = s.mem
  off : t.off = s.off
  asked : t.asked = s.asked

theorem Untouched.refl (s : Linking) : Untouched s s := ⟨fun _ => rfl, rfl, rfl, rfl, rfl⟩

theorem Untouched.trans {s t u : Linking} (h : Untouched s t) (h' : Untouched t u) :
    Untouched s u where
  get fd := (h'.get fd).trans (h.get fd)
  flags := h'.flags.trans h.flags
  mem := h'.mem.trans h.mem
  off := h'.off.trans h.off
  asked := h'.asked.trans h.asked

theorem untouched_rpath (s : Linking) (ps : List SearchPath) :
    Untouched s { s with unit := { s.unit with rpath := ps } } where
  get fd := by cases fd <;> rfl
  flags := rfl
  mem := rfl
  off := rfl
  asked := rfl

theorem untouched_needed (s : Linking) (us : List (Option SearchPath)) :
    Untouched s { s with unit := { s.unit with needed := us } } where
  get fd := by cases fd <;> rfl
  flags := rfl
  mem := rfl
  off := rfl
  asked := rfl

section
variable {b : LinkBuilder} {l : Linking}

theorem expand_run (s : List UInt8) :
    ∃ p t, (expand b s).run l = (.ok p, t) ∧ Untouched l t := by
  rw [expand, get_bind]
  cases expansion b s l.unit with
  | some p => exact ⟨p, l, rfl, .refl l⟩
  | none => exact ⟨s, _, rfl, fun _ => rfl, rfl, rfl, rfl, rfl⟩

theorem addRpaths_run (ss : List (List UInt8)) :
    ∃ t, (addRpaths b ss).run l = (.ok (), t) ∧ Untouched l t := by
  induction ss generalizing l with
  | nil => exact ⟨l, rfl, .refl l⟩
  | cons s ss ih =>
    obtain ⟨p, t, hp, ht⟩ := expand_run (b := b) (l := l) s
    have hadd : (addRpath b s).run l =
        (.ok (), { t with unit := { t.unit with rpath := t.unit.rpath ++ [p] } }) := by
      rw [addRpath, bind_of_ok hp]
      rfl
    obtain ⟨u, hu, hrest⟩ := ih (l := { t with unit := { t.unit with rpath := t.unit.rpath ++ [p] } })
    refine ⟨u, ?_, (ht.trans (untouched_rpath t _)).trans hrest⟩
    rw [addRpaths, bind_of_ok hadd, hu]

theorem getUnit_run (p : SearchPath) :
    ∃ t, (getUnit b p).run l = (.ok (b.paths.absolute p), t) ∧ Untouched l t := by
  refine ⟨_, rfl, ?_⟩
  dsimp only
  split
  · exact .refl l
  · exact ⟨fun _ => rfl, rfl, rfl, rfl, rfl⟩

theorem resolve_run (name : List UInt8) :
    ∃ u t, (resolve b name).run l = (.ok u, t) ∧ Untouched l t := by
  rw [resolve, get_bind, ite_run]
  split
  · obtain ⟨t, ht, hkeep⟩ := getUnit_run (b := b) (l := l) name
    exact ⟨_, t, bind_of_ok ht, hkeep⟩
  · cases l.unit.rpath ++ b.lpaths with
    | nil => exact ⟨none, l, rfl, .refl l⟩
    | cons p ps =>
      obtain ⟨t, ht, hkeep⟩ := getUnit_run (b := b) (l := l) (b.paths.join p name)
      exact ⟨_, t, bind_of_ok ht, hkeep⟩

end

def stringFor (str : ImageSegment) (off : Nat) : Res (List UInt8) :=
  cstringAt str.buf (UInt64.ofNat off - str.base).toNat

def answers (strsz : Nat) (str : ImageSegment) : List Dyn → List LinkRequest × Res Unit
  | [] => ([], .ok ())
  | d :: ds =>
    if strsz ≤ d.val then ([], .error (.exception "bad offset in DT_RPATH entry"))
    else
      match stringFor str d.val with
      | .error e => ([], .error e)
      | .ok s => (.of d s :: (answers strsz str ds).1, (answers strsz str ds).2)

section
variable {b : LinkBuilder} {f : File} {str : ImageSegment} {l : Linking} {k m : Nat}

theorem getString_eq (u : LinkUnit) (str : ImageSegment) (off : UInt32) :
    u.getString str off = if (u.get .strsz).toNat ≤ off.toNat then
      .error (.exception "bad offset in DT_RPATH entry") else stringFor str off.toNat := by
  have hoff : off.toUInt64 = .ofNat off.toNat := UInt64.toNat_inj.mp (by simp)
  rw [LinkUnit.getString, hoff]
  rfl

theorem perform_ignored (hoff : l.off = k * 8) (hk : (k + 1) * 8 ≤ l.mem.length)
    (hnull : (storedAt f.host l.mem k).tag ≠ dtNull)
    (hreq : ¬ ((storedAt f.host l.mem k).tag = dtNeeded ∨
      (storedAt f.host l.mem k).tag = dtRpath)) :
    (perform b f str).run l = (.ok (), l) := by
  obtain ⟨hneeded, hrpath⟩ := not_or.mp hreq
  rw [perform, get_bind, here_at f.host hoff hk, lift_ok_bind]
  dsimp only
  rw [if_neg hnull, if_neg hrpath, if_neg hneeded]
  rfl

theorem perform_requested (b : LinkBuilder) (str : ImageSegment) (hoff : l.off = k * 8)
    (hk : (k + 1) * 8 ≤ l.mem.length)
    (hnull : (storedAt f.host l.mem k).tag ≠ dtNull)
    (hreq : (storedAt f.host l.mem k).tag = dtNeeded ∨ (storedAt f.host l.mem k).tag = dtRpath) :
    match l.unit.getString str (fix32 f.eiData (.ofNat (storedAt f.host l.mem k).val)) with
    | .error e => (perform b f str).run l = (.error e, l)
    | .ok s => ∃ t, (perform b f str).run l = (.ok (), t) ∧
        Untouched (l.ask (.of (storedAt f.host l.mem k) s)) t := by
  rw [perform, get_bind, here_at f.host hoff hk, lift_ok_bind]
  dsimp only
  rw [if_neg hnull]
  rcases hreq with hneeded | hrpath
  · have hrpath : (storedAt f.host l.mem k).tag ≠ dtRpath := by
      rw [hneeded]
      decide
    rw [if_neg hrpath, if_pos hneeded]
    cases l.unit.getString str (fix32 f.eiData (.ofNat (storedAt f.host l.mem k).val)) with
    | error e => rfl
    | ok s =>
      dsimp only
      rw [lift_ok_bind, modify_bind, LinkRequest.of, if_pos hneeded]
      obtain ⟨u, t, ht, hkeep⟩ := resolve_run (b := b) (l := l.ask (.needed s)) s
      exact ⟨_, bind_of_ok ht, hkeep.trans (untouched_needed t _)⟩
  · have hneeded : (storedAt f.host l.mem k).tag ≠ dtNeeded := by
      rw [hrpath]
      decide
    rw [if_pos hrpath]
    cases l.unit.getString str (fix32 f.eiData (.ofNat (storedAt f.host l.mem k).val)) with
    | error e => rfl
    | ok s =>
      dsimp only
      rw [lift_ok_bind, modify_bind, UnixBuilder.splitPaths_eq, lift_ok_bind, LinkRequest.of,
        if_neg hneeded]
      exact addRpaths_run _

theorem perform_scan (b : LinkBuilder) (str : ImageSegment) {fuel : Nat} (hoff : l.off = k * 8)
    (hlt : l.mem.length < 2 ^ 63) (hm : k + m = l.mem.length / 8) (hfuel : m ≤ fuel) :
    ∃ t, (scan (perform b f str) fuel).run l = ((answers (l.unit.get .strsz).toNat str
        ((requests (beforeNull (rows f.host l.mem k m))).map (Dyn.fixVal f.eiData))).2, t) ∧
      t.asked = l.asked ++ (answers (l.unit.get .strsz).toNat str
        ((requests (beforeNull (rows f.host l.mem k m))).map (Dyn.fixVal f.eiData))).1 ∧
      (∀ fd, t.unit.get fd = l.unit.get fd) ∧ t.unit.flags = l.unit.flags := by
  induction m generalizing l k fuel with
  | zero =>
    have hended := avail_last hoff hlt hm
    exact ⟨l, scan_ended _ fuel hended, (List.append_nil _).symm, fun _ => rfl, rfl⟩
  | succ m ih =>
    obtain ⟨fuel, rfl⟩ := Nat.exists_eq_add_of_le' (Nat.le_trans (Nat.le_add_left 1 m) hfuel)
    have hk : (k + 1) * 8 ≤ l.mem.length := by omega
    have havail := avail_entry hoff hlt hk
    have hnext {t : Linking} (hmem : t.mem = l.mem) (ht : t.off = l.off) :
        t.skip = { t with off := (k + 1) * 8 } :=
      skip_at (ht.trans hoff) (hmem ▸ hlt) (hmem ▸ hk)
    have hcount : k + 1 + m = l.mem.length / 8 := by omega
    rw [rows_cons, beforeNull_cons]
    by_cases hnull : (storedAt f.host l.mem k).tag = dtNull
    · have hbody : (perform b f str).run l = (.ok (), l.finish) := by
        rw [perform, get_bind, here_at f.host hoff hk, lift_ok_bind]
        dsimp only
        rw [if_pos hnull]
        rfl
      rw [if_pos hnull]
      exact ⟨l.finish, scan_null havail hlt hbody, (List.append_nil _).symm, fun _ => rfl, rfl⟩
    rw [if_neg hnull, requests_cons]
    by_cases hreq : (storedAt f.host l.mem k).tag = dtNeeded ∨
        (storedAt f.host l.mem k).tag = dtRpath
    · have hperform := perform_requested b str hoff hk hnull hreq
      have hval : (fix32 f.eiData (.ofNat (storedAt f.host l.mem k).val)).toNat =
          ((storedAt f.host l.mem k).fixVal f.eiData).val := rfl
      rw [getString_eq, hval] at hperform
      rw [if_pos hreq, List.map_cons, answers]
      by_cases hrange : (l.unit.get .strsz).toNat ≤ ((storedAt f.host l.mem k).fixVal f.eiData).val
      · rw [if_pos hrange] at hperform ⊢
        exact ⟨l, scan_error havail hperform, (List.append_nil _).symm, fun _ => rfl, rfl⟩
      rw [if_neg hrange] at hperform ⊢
      cases hstring : stringFor str ((storedAt f.host l.mem k).fixVal f.eiData).val with
      | error e =>
        rw [hstring] at hperform
        exact ⟨l, scan_error havail hperform, (List.append_nil _).symm, fun _ => rfl, rfl⟩
      | ok s =>
        rw [hstring] at hperform
        obtain ⟨t, ht, hkeep⟩ := hperform
        have hmem : t.mem = l.mem := hkeep.mem
        obtain ⟨u, hu, hasked, hget, hflags⟩ := ih (l := { t with off := (k + 1) * 8 }) rfl
          (hmem.symm ▸ hlt) (hmem.symm ▸ hcount) (Nat.le_of_succ_le_succ hfuel)
        have hstrsz : t.unit.get .strsz = l.unit.get .strsz := hkeep.get .strsz
        dsimp only at hu hasked hget hflags
        rw [hmem, hstrsz] at hu hasked
        refine ⟨u, ?_, ?_, fun fd => (hget fd).trans (hkeep.get fd), hflags.trans hkeep.flags⟩
        · rw [scan_next havail ht, hnext hmem hkeep.off, hmem, hu]
        · rw [hasked, hkeep.asked]
          exact List.append_assoc ..
    · rw [if_neg hreq, scan_next havail (perform_ignored hoff hk hnull hreq), hnext rfl rfl]
      exact ih (l := { l with off := (k + 1) * 8 }) rfl hlt hcount (Nat.le_of_succ_le_succ hfuel)

end

end LinkM

end Gelpp.Elf

import Gelpp.Dwarf.Links

namespace Gelpp.LineCommand

open Dwarf

abbrev AddressRange := UInt64 × UInt64

structure Collected where
  addrs : Int32 → Option (List AddressRange) := fun _ => none
  min : Int32 := Int32.maxValue
  max : Int32 := 0

def record (s : Collected) (line : Int32) (r : AddressRange) : Collected :=
  let addrs := Function.update s.addrs line (some (r :: (s.addrs line).getD []))
  if line < s.min then { s with addrs, min := line }
  else if s.max < line then { s with addrs, max := line }
  else { s with addrs }

def collectRow (f : Nat) (u : CompilationUnit) (s : Collected) (i : Nat) : Collected :=
  match u.lines[i]? with
  | some l => if l.file = f then record s l.line (u.range i) else s
  | none => s

def collectUnit (dl : DebugLine) (f : Nat) (s : Collected) (k : Nat) : Collected :=
  match dl.units[k]? with
  | some u => (List.range (u.lines.length - 1)).foldl (collectRow f u) s
  | none => s

def collect (dl : DebugLine) (f : Nat) : Collected :=
  ((dl.files[f]?.map File.units).getD []).foldl (collectUnit dl f) {}

structure Display where
  i : Int32
  out : List (Int32 × AddressRange) := []

def displaying (s : Collected) (d : Display) : Bool := decide (d.i ≤ s.max)

def displayLine (s : Collected) (d : Display) : Res Display :=
  let out := d.out ++ ((s.addrs d.i).getD []).map fun a => (d.i, a)
  if d.i = Int32.maxValue then .error (.fault .overflow) else .ok { i := d.i + 1, out }

-- The width of a line number is log10(max) + 1, which is no int for a max of 0.
def display (s : Collected) : Res (List (Int32 × AddressRange)) :=
  if s.min ≤ s.max then
    if s.max = 0 then .error (.fault .overflow)
    else do
      let d ← Loop.run .steps (displaying s) (displayLine s)
        ((s.max.toInt - s.min.toInt).toNat + 1) { i := s.min }
      return d.out
  else .ok []

def listFile (dl : DebugLine) (f : Nat) : Res (List (Int32 × AddressRange)) := display (collect dl f)

def unitSeen (dl : DebugLine) (f k : Nat) : List (Int32 × AddressRange) :=
  ((dl.units[k]?.map fun u => (List.range (u.lines.length - 1)).filterMap fun i =>
    (u.lines[i]?).bind fun l => if l.file = f then some (l.line, u.range i) else none)).getD []

def seen (dl : DebugLine) (f : Nat) : List (Int32 × AddressRange) :=
  ((dl.files[f]?.map File.units).getD []).flatMap (unitSeen dl f)

section
variable {dl : DebugLine} {f : Nat}

theorem collectUnit_eq (s : Collected) (k : Nat) : collectUnit dl f s k =
    (unitSeen dl f k).foldl (fun s x => record s x.1 x.2) s := by
  rw [collectUnit, unitSeen]
  cases dl.units[k]? with
  | none => rfl
  | some u =>
    rw [Option.map_some, Option.getD_some, List.foldl_filterMap]
    change List.foldl _ _ _ = _
    congr 1
    funext s i
    rw [collectRow]
    cases u.lines[i]? with
    | none => rfl
    | some l => by_cases hl : l.file = f <;> simp [hl]

theorem collect_eq : collect dl f = (seen dl f).foldl (fun s x => record s x.1 x.2) {} := by
  rw [collect, seen, List.foldl_flatMap]
  congr 1
  funext s k
  exact collectUnit_eq s k

theorem mem_unitSeen {k : Nat} {line : Int32} {r : AddressRange} :
    (line, r) ∈ unitSeen dl f k ↔ ∃ u, dl.units[k]? = some u ∧ ∃ i ∈ u.rows f line, u.range i = r := by
  rw [unitSeen]
  cases dl.units[k]? with
  | none => simp
  | some u =>
    simp only [Option.map_some, Option.getD_some, List.mem_filterMap, Option.bind_eq_some_iff,
      Option.some.injEq, exists_eq_left', CompilationUnit.rows, List.mem_filter]
    refine exists_congr fun i => ?_
    cases u.lines[i]? with
    | none => simp
    | some l =>
      simp only [Option.some.injEq, exists_eq_left', Option.any_some, decide_eq_true_eq,
        Option.ite_none_right_eq_some, Prod.mk.injEq, and_assoc]

theorem mem_seen {line : Int32} {r : AddressRange} :
    (line, r) ∈ seen dl f ↔ r ∈ dl.find f line := by
  rw [DebugLine.find, DebugLine.findRows, seen, List.map_flatMap, List.mem_flatMap, List.mem_flatMap]
  refine exists_congr fun k => and_congr_right fun _ => ?_
  rw [mem_unitSeen, List.mem_map]
  constructor
  · rintro ⟨u, hu, i, hi, rfl⟩
    exact ⟨(k, i), mem_unitRows.mpr ⟨u, hu, rfl, hi⟩, rangeAt_unit hu⟩
  · rintro ⟨⟨k', i⟩, hp, rfl⟩
    obtain ⟨u, hu, rfl, hi⟩ := mem_unitRows.mp hp
    exact ⟨u, hu, i, hi, (rangeAt_unit hu).symm⟩

end

section
variable {s : Collected} {xs : List (Int32 × AddressRange)}

def recordAll (s : Collected) (xs : List (Int32 × AddressRange)) : Collected :=
  xs.foldl (fun s x => record s x.1 x.2) s

theorem recordAll_cons (x : Int32 × AddressRange) :
    recordAll s (x :: xs) = recordAll (record s x.1 x.2) xs := rfl

theorem record_addrs (s : Collected) (line : Int32) (r : AddressRange) : (record s line r).addrs =
    Function.update s.addrs line (some (r :: (s.addrs line).getD [])) := by
  simp only [record]
  split
  · rfl
  · split <;> rfl

theorem mem_recordAll (line : Int32) (r : AddressRange) :
    r ∈ ((recordAll s xs).addrs line).getD [] ↔
      r ∈ (s.addrs line).getD [] ∨ (line, r) ∈ xs := by
  induction xs generalizing s with
  | nil => simp [recordAll]
  | cons x xs ih =>
    rw [recordAll_cons, ih, record_addrs, List.mem_cons, ← or_assoc]
    refine or_congr_left ?_
    by_cases hline : line = x.1
    · have hpair : (line, r) = x ↔ r = x.2 := by simp [Prod.ext_iff, hline]
      rw [hpair, hline, Function.update_self, Option.getD_some, List.mem_cons, or_comm]
    · have hpair : (line, r) ≠ x := fun h => hline (congrArg Prod.fst h)
      rw [Function.update_of_ne hline]
      simp [hpair]

theorem record_min (s : Collected) (line : Int32) (r : AddressRange) :
    (record s line r).min = if line < s.min then line else s.min := by
  simp only [record]
  split
  · rfl
  · split <;> rfl

theorem record_max (s : Collected) (line : Int32) (r : AddressRange) :
    (record s line r).max = if line < s.min then s.max else if s.max < line then line else s.max := by
  simp only [record]
  split
  · rfl
  · split <;> rfl

theorem recordAll_min (s : Collected) (xs : List (Int32 × AddressRange)) :
    (recordAll s xs).min ≤ s.min ∧ ∀ x ∈ xs, (recordAll s xs).min ≤ x.1 := by
  induction xs generalizing s with
  | nil => exact ⟨Int32.le_refl _, fun x hx => by cases hx⟩
  | cons x xs ih =>
    obtain ⟨hle, hall⟩ := ih (record s x.1 x.2)
    rw [recordAll_cons, List.forall_mem_cons]
    rw [record_min] at hle
    have hfirst : (recordAll (record s x.1 x.2) xs).min ≤ s.min ∧
        (recordAll (record s x.1 x.2) xs).min ≤ x.1 := by
      simp only [Int32.le_iff_toInt_le, Int32.lt_iff_toInt_lt] at hle ⊢
      split at hle <;> omega
    exact ⟨hfirst.1, hfirst.2, hall⟩

theorem recordAll_max (s : Collected) (xs : List (Int32 × AddressRange)) :
    s.max ≤ (recordAll s xs).max ∧ ∀ x ∈ xs, s.min ≤ x.1 → x.1 ≤ (recordAll s xs).max := by
  induction xs generalizing s with
  | nil => exact ⟨Int32.le_refl _, fun x hx => by cases hx⟩
  | cons x xs ih =>
    obtain ⟨hle, hall⟩ := ih (record s x.1 x.2)
    rw [recordAll_cons, List.forall_mem_cons]
    rw [record_max] at hle
    simp only [record_min, Int32.le_iff_toInt_le, Int32.lt_iff_toInt_lt] at hle hall ⊢
    refine ⟨?_, fun hmin => ?_, fun y hy hmin => hall y hy ?_⟩
    · split at hle
      · exact hle
      · split at hle <;> omega
    · rw [if_neg (by omega)] at hle
      split at hle <;> omega
    · split <;> omega

theorem recordAll_max_mem (s : Collected) (xs : List (Int32 × AddressRange)) :
    (recordAll s xs).max = s.max ∨ ∃ x ∈ xs, (recordAll s xs).max = x.1 := by
  induction xs generalizing s with
  | nil => exact .inl rfl
  | cons x xs ih =>
    rw [recordAll_cons]
    rcases ih (record s x.1 x.2) with h | ⟨y, hy, h⟩
    · rw [h, record_max]
      split
      · exact .inl rfl
      · split
        · exact .inr ⟨x, List.mem_cons_self .., rfl⟩
        · exact .inl rfl
    · exact .inr ⟨y, List.mem_cons_of_mem _ hy, h⟩

theorem displayLine_eq {d : Display} (h : d.i ≠ Int32.maxValue) : displayLine s d = .ok {
    i := d.i + 1
    out := d.out ++ ((s.addrs d.i).getD []).map fun a => (d.i, a) } := by
  rw [displayLine]
  exact if_neg h

theorem toInt_next {i : Int32} (h : i.toInt < 2 ^ 31 - 1) : (i + 1).toInt = i.toInt + 1 := by
  have hle := i.le_toInt
  rw [Int32.toInt_add, Int32.toInt_one]
  exact Int.bmod_eq_of_le (by omega) (by omega)

def Adds (s : Collected) (d e : Display) : Prop :=
  ∀ line r, (line, r) ∈ e.out ↔ (line, r) ∈ d.out ∨
    (d.i ≤ line ∧ line ≤ s.max ∧ r ∈ (s.addrs line).getD [])

theorem adds_nothing {d : Display} (h : ¬ d.i ≤ s.max) : Adds s d d := by
  intro line r
  rw [Int32.le_iff_toInt_le] at h
  simp only [Int32.le_iff_toInt_le]
  constructor
  · exact .inl
  · rintro (hr | ⟨h1, h2, -⟩)
    · exact hr
    · omega

theorem adds_line {d e : Display} (hle : d.i ≤ s.max) (hnext : (d.i + 1).toInt = d.i.toInt + 1)
    (h : Adds s ⟨d.i + 1, d.out ++ ((s.addrs d.i).getD []).map fun a => (d.i, a)⟩ e) :
    Adds s d e := by
  intro line r
  rw [Int32.le_iff_toInt_le] at hle
  rw [h line r]
  dsimp only
  rw [List.mem_append, or_assoc]
  refine or_congr_right ?_
  simp only [List.mem_map, Prod.mk.injEq, Int32.le_iff_toInt_le, hnext]
  constructor
  · rintro (⟨a, ha, rfl, rfl⟩ | ⟨h1, h2, h3⟩)
    · exact ⟨Int.le_refl _, hle, ha⟩
    · exact ⟨by omega, h2, h3⟩
  · rintro ⟨h1, h2, h3⟩
    by_cases heq : d.i.toInt = line.toInt
    · rw [Int32.toInt_inj] at heq
      exact .inl ⟨r, heq ▸ h3, heq, rfl⟩
    · exact .inr ⟨by omega, h2, h3⟩

-- The display goes through the lines up to the maximum; the induction is on the fuel, which is
-- enough for the lines that are left.
theorem display_run {n : Nat} {d : Display} (hmax : s.max.toInt < 2 ^ 31 - 1)
    (hn : s.max.toInt + 1 - d.i.toInt ≤ n) :
    ∃ e, Loop.run .steps (displaying s) (displayLine s) n d = .ok e ∧ Adds s d e := by
  induction n generalizing d with
  | zero =>
    have hlt : ¬ d.i ≤ s.max := by
      rw [Int32.le_iff_toInt_le]
      omega
    exact ⟨d, Loop.run_done (decide_eq_false hlt), adds_nothing hlt⟩
  | succ n ih =>
    by_cases hle : d.i ≤ s.max
    · have hle' := Int32.le_iff_toInt_le.mp hle
      have hnext := toInt_next (i := d.i) (by omega)
      have hne : d.i ≠ Int32.maxValue := fun h => by
        rw [h, Int32.toInt_maxValue] at hle'
        omega
      obtain ⟨e, he, hadds⟩ :=
        ih (d := ⟨d.i + 1, d.out ++ ((s.addrs d.i).getD []).map fun a => (d.i, a)⟩)
          (by dsimp only; omega)
      have hstep : Loop.Step (displaying s) (displayLine s) d _ :=
        ⟨decide_eq_true hle, displayLine_eq hne⟩
      exact ⟨e, (Loop.run_ok hstep).trans he, adds_line hle hnext hadds⟩
    · exact ⟨d, Loop.run_done (decide_eq_false hle), adds_nothing hle⟩

theorem display_overflows {n : Nat} {d e : Display} (hmax : s.max = Int32.maxValue) :
    Loop.run .steps (displaying s) (displayLine s) n d ≠ .ok e := by
  intro h
  have hdone : displaying s e = false := (Loop.visits_of_run h).2
  rw [displaying, hmax, decide_eq_false_iff_not] at hdone
  exact hdone (Int32.le_maxValue _)

theorem display_some (hle : s.min ≤ s.max) (h0 : s.max ≠ 0) : display s =
    Loop.run .steps (displaying s) (displayLine s)
      ((s.max.toInt - s.min.toInt).toNat + 1) { i := s.min } >>= fun d => .ok d.out := by
  rw [display, if_pos hle, if_neg h0]
  rfl

theorem display_ok (h0 : s.min ≤ s.max → s.max ≠ 0) (hmax : s.max ≠ Int32.maxValue) :
    ∃ out, display s = .ok out ∧
      ∀ line r, (line, r) ∈ out ↔ s.min ≤ line ∧ line ≤ s.max ∧ r ∈ (s.addrs line).getD [] := by
  by_cases hle : s.min ≤ s.max
  · have hlt : s.max.toInt < 2 ^ 31 - 1 := by
      have hne : s.max.toInt ≠ Int32.maxValue.toInt := fun h => hmax (Int32.toInt_inj.mp h)
      have hbound := s.max.toInt_le
      rw [Int32.toInt_maxValue] at hne hbound
      omega
    obtain ⟨e, he, hadds⟩ := display_run (n := (s.max.toInt - s.min.toInt).toNat + 1)
      (d := { i := s.min }) hlt (by dsimp only; omega)
    refine ⟨e.out, by rw [display_some hle (h0 hle), he]; rfl, fun line r => ?_⟩
    rw [hadds line r]
    simp
  · refine ⟨[], if_neg hle, fun line r => ?_⟩
    rw [Int32.le_iff_toInt_le] at hle
    simp only [List.not_mem_nil, false_iff, Int32.le_iff_toInt_le]
    omega

theorem bounds_of_display {out : List (Int32 × AddressRange)} (h : display s = .ok out)
    (hle : s.min ≤ s.max) : s.max ≠ 0 ∧ s.max ≠ Int32.maxValue := by
  have h0 : s.max ≠ 0 := fun h0 => by
    rw [display, if_pos hle, if_pos h0] at h
    cases h
  refine ⟨h0, fun hmax => ?_⟩
  rw [display_some hle h0] at h
  obtain ⟨e, he, -⟩ := Res.bind_ok.mp h
  exact display_overflows hmax he

theorem mem_display {out : List (Int32 × AddressRange)} (h : display s = .ok out) (line : Int32)
    (r : AddressRange) : (line, r) ∈ out ↔
      s.min ≤ line ∧ line ≤ s.max ∧ r ∈ (s.addrs line).getD [] := by
  by_cases hle : s.min ≤ s.max
  · obtain ⟨h0, hmax⟩ := bounds_of_display h hle
    obtain ⟨out', hout, hmem⟩ := display_ok (fun _ => h0) hmax
    rw [h] at hout
    cases hout
    exact hmem line r
  · rw [display, if_neg hle] at h
    cases h
    rw [Int32.le_iff_toInt_le] at hle
    simp only [List.not_mem_nil, false_iff, Int32.le_iff_toInt_le]
    omega

end

def PrintsAll (dl : DebugLine) (f : Nat) : Prop :=
  ∃ out, listFile dl f = .ok out ∧ ∀ line r, (line, r) ∈ out ↔ 0 < line ∧ r ∈ dl.find f line

-- The lines of the rows of a file, in their order: the first one raises the minimum only, so one
-- that is as great has to come after it.
structure LinesInRange (lines : List Int32) : Prop where
  pos : ∀ x ∈ lines, 0 < x
  lt_max : Int32.maxValue ∉ lines
  again : ∀ a rest, lines = a :: rest → ∃ y ∈ rest, a ≤ y

section
variable {xs : List (Int32 × AddressRange)}

theorem mem_collected (line : Int32) (r : AddressRange) :
    r ∈ ((recordAll {} xs).addrs line).getD [] ↔ (line, r) ∈ xs := by
  rw [mem_recordAll]
  simp

theorem linesInRange_of_display {out : List (Int32 × AddressRange)}
    (h : display (recordAll {} xs) = .ok out)
    (hmem : ∀ line r, (line, r) ∈ out ↔ 0 < line ∧ (line, r) ∈ xs) :
    LinesInRange (xs.map Prod.fst) := by
  have hmin := recordAll_min {} xs
  have hmax := recordAll_max {} xs
  have hshown {line : Int32} {r : AddressRange} (hx : (line, r) ∈ xs)
      (hle : line ≤ (recordAll {} xs).max) : (line, r) ∈ out :=
    (mem_display h line r).mpr ⟨hmin.2 _ hx, hle, (mem_collected line r).mpr hx⟩
  have hpos : ∀ x ∈ xs, 0 < x.1 := by
    intro x hx
    by_contra hneg
    have hle : x.1 ≤ (recordAll {} xs).max := by
      have h0 := hmax.1
      simp only [Int32.le_iff_toInt_le, Int32.lt_iff_toInt_lt] at h0 hneg ⊢
      change (0 : Int32).toInt ≤ _ at h0
      omega
    exact hneg ((hmem _ _).mp (hshown hx hle)).1
  have hlt : ∀ x ∈ xs, x.1 ≠ Int32.maxValue := by
    intro x hx heq
    have hle : x.1 ≤ (recordAll {} xs).max := hmax.2 x hx (by rw [heq]; exact Int32.le_maxValue _)
    have htop : (recordAll {} xs).max = Int32.maxValue := by
      rw [heq] at hle
      exact Int32.le_antisymm (Int32.le_maxValue _) hle
    have hrange : (recordAll {} xs).min ≤ (recordAll {} xs).max := by
      rw [htop]
      exact Int32.le_maxValue _
    exact (bounds_of_display h hrange).2 htop
  refine ⟨by simpa using hpos, fun htop => ?_, fun a rest hlines => ?_⟩
  · obtain ⟨x, hx, heq⟩ := List.mem_map.mp htop
    exact hlt x hx heq
  · obtain ⟨x, ys, rfl, rfl, rfl⟩ := List.map_eq_cons_iff.mp hlines
    have hx : x ∈ x :: ys := List.mem_cons_self ..
    have hle := ((mem_display h x.1 x.2).mp ((hmem _ _).mpr ⟨hpos x hx, hx⟩)).2.1
    have hfirst : (record {} x.1 x.2).max = 0 := by
      have hne := hlt x hx
      have hbelow : x.1 < Int32.maxValue := by
        rw [Int32.lt_iff_toInt_lt]
        have hbound := x.1.toInt_le
        have hne' : x.1.toInt ≠ Int32.maxValue.toInt := fun h => hne (Int32.toInt_inj.mp h)
        omega
      rw [record_max, if_pos hbelow]
    rw [recordAll_cons] at hle
    rcases recordAll_max_mem (record {} x.1 x.2) ys with hzero | ⟨y, hy, heq⟩
    · rw [hzero, hfirst] at hle
      have h0 := hpos x hx
      rw [Int32.le_iff_toInt_le] at hle
      rw [Int32.lt_iff_toInt_lt] at h0
      omega
    · rw [heq] at hle
      exact ⟨y.1, List.mem_map_of_mem hy, hle⟩

theorem le_max_of_again {s : Collected} {x y : Int32 × AddressRange} (hy : y ∈ xs)
    (hle : x.1 ≤ y.1) : ∀ z ∈ x :: xs, z.1 ≤ (recordAll s (x :: xs)).max := by
  have hmin : (record s x.1 x.2).min ≤ x.1 := by
    rw [record_min]
    simp only [Int32.le_iff_toInt_le, Int32.lt_iff_toInt_lt]
    split <;> omega
  have hmax := (recordAll_max (record s x.1 x.2) xs).2
  have htop : y.1 ≤ (recordAll s (x :: xs)).max := hmax y hy (Int32.le_trans hmin hle)
  intro z hz
  rcases List.mem_cons.mp hz with rfl | hz
  · exact Int32.le_trans hle htop
  by_cases hxz : x.1 ≤ z.1
  · exact hmax z hz (Int32.le_trans hmin hxz)
  · have hlt : z.1 ≤ x.1 := by
      simp only [Int32.le_iff_toInt_le] at hxz ⊢
      omega
    exact Int32.le_trans hlt (Int32.le_trans hle htop)

theorem display_of_linesInRange (h : LinesInRange (xs.map Prod.fst)) :
    ∃ out, display (recordAll {} xs) = .ok out ∧
      ∀ line r, (line, r) ∈ out ↔ 0 < line ∧ (line, r) ∈ xs := by
  have hpos : ∀ x ∈ xs, 0 < x.1 := fun x hx => h.pos _ (List.mem_map_of_mem hx)
  have hmin := (recordAll_min {} xs).2
  cases xs with
  | nil => exact ⟨[], rfl, by simp⟩
  | cons x ys =>
    obtain ⟨z, hz, hxz⟩ := h.again x.1 (ys.map Prod.fst) rfl
    obtain ⟨y, hy, rfl⟩ := List.mem_map.mp hz
    have hmax := le_max_of_again (s := {}) hy hxz
    have hsome : (recordAll {} (x :: ys)).max ≠ 0 ∧ (recordAll {} (x :: ys)).max ≠ Int32.maxValue := by
      have hx := List.mem_cons_self (a := x) (l := ys)
      have hxpos := hpos x hx
      have hxmax := hmax x hx
      refine ⟨fun h0 => ?_, fun htop => ?_⟩
      · rw [h0] at hxmax
        rw [Int32.lt_iff_toInt_lt] at hxpos
        rw [Int32.le_iff_toInt_le] at hxmax
        omega
      · rcases recordAll_max_mem {} (x :: ys) with h0 | ⟨w, hw, heq⟩
        · rw [htop] at h0
          exact absurd h0 (by decide)
        · exact h.lt_max (List.mem_map.mpr ⟨w, hw, heq.symm.trans htop⟩)
    obtain ⟨out, hout, hmem⟩ := display_ok (fun _ => hsome.1) hsome.2
    refine ⟨out, hout, fun line r => ?_⟩
    rw [hmem, mem_collected]
    constructor
    · rintro ⟨-, -, hr⟩
      exact ⟨hpos _ hr, hr⟩
    · rintro ⟨-, hr⟩
      exact ⟨hmin _ hr, hmax _ hr, hr⟩

end

theorem list_files_iff (dl : DebugLine) (f : Nat) :
    PrintsAll dl f ↔ LinesInRange ((seen dl f).map Prod.fst) := by
  have hcollect : collect dl f = recordAll {} (seen dl f) := collect_eq
  rw [PrintsAll, listFile, hcollect]
  simp only [← mem_seen]
  constructor
  · rintro ⟨out, hout, hmem⟩
    exact linesInRange_of_display hout hmem
  · exact display_of_linesInRange

-- The only range of the file, at line 1, is not printed.
theorem twoRows_unlisted : ∃ dl, debugLine slashed 40 twoRows.c.buf nullCursor nullCursor = .ok dl ∧
    ¬ PrintsAll dl 0 := by
  have hlisted : (debugLine slashed 40 twoRows.c.buf nullCursor nullCursor).toOption.map (fun dl =>
      ((listFile dl 0).toOption, dl.find 0 1)) = some (some [], [(0, 0)]) := by decide +kernel
  obtain ⟨dl, hdl, hlisted⟩ := Res.ok_of_map hlisted
  obtain ⟨hout, hfind⟩ := Prod.mk.inj hlisted
  refine ⟨dl, hdl, fun ⟨out, hok, hmem⟩ => ?_⟩
  rw [hok] at hout
  cases hout
  have hone := (hmem 1 (0, 0)).mpr ⟨by decide, by rw [hfind]; exact List.mem_singleton_self _⟩
  cases hone

end Gelpp.LineCommand

import Gelpp.Dwarf.Run

namespace Gelpp.Dwarf

open Reader (Plain Outside)

section
variable {join : Path → Path → Path} {s₀ : Scan}

structure IndicesOk (join : Path → Path → Path) (s₀ : Scan) : Prop where
  rows : ∀ s, RowAt join s₀ s → RowOk s
  entries : ∀ f, EntryAt join s₀ f → DirectoryOk f

def Unindexed (e : Stop) : Prop := e ≠ .fault .index

theorem tame_unindexed {e : Stop} (h : Tame e) : Unindexed e := by
  rintro rfl
  exact h rfl

theorem Guarded.unindexed {p : Prop} {e : Stop} (h : Guarded p e) (hp : p) : Unindexed e :=
  tame_unindexed (h.tame hp)

theorem runAllowed_indices (hok : IndicesOk join s₀) : RunAllowed Unindexed join s₀ where
  raised _ h := by cases h
  header h e hh hp := by
    refine (readHeader_meets hp).mono (fun _ he => he.unindexed ?_) fun _ h => h
    exact fun _ t hr ht hv f hf => hok.entries f ⟨t, .header hh hr ht, hv, hf⟩
  opcode r e hat hp := by
    refine ⟨(decode_meets hp.c).mono (fun _ => tame_unindexed) fun _ _ => trivial, fun d hd => ?_⟩
    have hdp : Plain { r with c := d.c } := (kept_of_past ((decode_meets hp.c).of_ok hd)).plain hp
    have hdivision : Unindexed (.fault .division) := fun h => by cases h
    have hoverflow : Unindexed (.fault .overflow) := fun h => by cases h
    refine ⟨fun ha hn => absurd (hok.rows _ ⟨r, e, d, hat, hd, ha, rfl⟩) hn, fun _ _ => hdivision,
      fun _ _ => hdivision, fun _ _ _ => hoverflow, fun ha => ?_⟩
    refine (readFile_meets hdp).mono (fun _ he => he.unindexed ?_) fun _ h => h
    exact fun hv f hf => hok.entries f ⟨_, .defined hat hd ha, hv, hf⟩

structure IndicesChecked (join : Path → Path → Path) (s₀ : Scan) : Prop where
  inside : ∀ fuel, readAll join fuel s₀ ≠ .error (.fault .index)
  rows : ∀ fuel t, readAll join fuel s₀ = .ok t → ∀ u ∈ t.dl.units, u ∈ s₀.dl.units ∨ FilesKnown u
  entries : ∀ f, EntryAt join s₀ f → ∀ dir c, readLEB128U f.s.c = .ok (dir, c) → dir ≠ 0 →
    ∀ d, entryDirectory f.s.sm dir = .ok d →
      f.s.sm.includeDirectories[dir.toNat]? = some (.text d)

theorem entryDirectory_designates {sm : StateMachine} {dir : UInt64} {d : List UInt8}
    (h0 : dir ≠ 0) (hlen : dir.toNat < sm.includeDirectories.length) (hlt : dir.toNat < 2 ^ 31)
    (h : entryDirectory sm dir = .ok d) : sm.includeDirectories[dir.toNat]? = some (.text d) := by
  rw [entryDirectory, if_neg h0, includeDirectory, narrow_of_lt hlt, vectorAt_of_lt hlen] at h
  rw [List.getElem?_eq_getElem hlen]
  cases hd : sm.includeDirectories[dir.toNat] with
  | text chars =>
    rw [hd] at h
    cases h
    rfl
  | wild =>
    rw [hd] at h
    cases h

theorem readAll_indices {fuel : Nat} (hs : s₀.Plain) (hok : IndicesOk join s₀) :
    Meets Unindexed (AllRead s₀) (readAll join fuel s₀) :=
  readAll_meets (runAllowed_indices hok) (.inl fun h => by cases h) hs

theorem indices_checked (hs : s₀.Plain) (hok : IndicesOk join s₀) : IndicesChecked join s₀ where
  inside fuel he := (readAll_indices hs hok).of_error he rfl
  rows fuel t ht := ((readAll_indices hs hok).of_ok ht).units
  entries f hf dir c hdir h0 d hd := by
    obtain ⟨hlen, hlt⟩ := hok.entries f hf dir c hdir
    exact entryDirectory_designates h0 hlen hlt hd

end

section
variable (join : Path → Path → Path)

def directoryChecked (f : FileState) : Bool :=
  match readLEB128U f.s.c with
  | .ok (dir, _) =>
    decide (dir.toNat < f.s.sm.includeDirectories.length ∧ dir.toNat < 2 ^ 31)
  | .error _ => true

def tableChecked (fuel : Nat) (t : Reader) : Bool :=
  match readName t.c with
  | .ok (name, c) =>
    Loop.every FileState.more (readFileBody join) directoryChecked fuel { s := { t with c }, name }
  | .error _ => true

def indexChecks (fuel : Nat) : Checks where
  unit _ := true
  header h _ := match headerStart h >>= fun r => readBaseAndDir r.1 with
    | .ok t => tableChecked join fuel t
    | .error _ => true
  opcode r _ := match decode r with
    | .ok d => d.action != .defineFile &&
      (!d.action.records || decide (RowOk { r with c := d.c }))
    | .error _ => true

variable {join} {fuel : Nat} {s₀ : Scan}

theorem directoryOk_of_checked {f : FileState} (h : directoryChecked f = true) :
    DirectoryOk f := by
  intro dir c hdir
  simpa [directoryChecked, hdir] using h

theorem indicesOk_of_checks (h : (indexChecks join fuel).passed join fuel s₀ = true) :
    IndicesOk join s₀ where
  rows := by
    rintro s ⟨r, e, d, hr, hd, ha, rfl⟩
    have hop := Checks.of_opcode h hr
    simp only [indexChecks, hd, ha, Bool.and_eq_true, Bool.not_true, Bool.false_or,
      decide_eq_true_eq] at hop
    exact hop.2
  entries := by
    rintro f ⟨t, ht, -, name, c, hname, hv, hm⟩
    cases ht with
    | header hh hr ht =>
      have hhead := Checks.of_header h hh
      simp only [indexChecks, hr, Res.ok_bind, ht, tableChecked, hname] at hhead
      exact directoryOk_of_checked (Loop.of_every hhead hv hm)
    | defined hr hd ha =>
      have hop := Checks.of_opcode h hr
      simp [indexChecks, hd, ha] at hop

end

def slashed (d n : Path) : Path := d ++ 47 :: n

def lineBuffer (bytes : List UInt8) (h : bytes.length < 2 ^ 63) : Scan :=
  .start { decoder := nullDecoder, bytes, size_lt := h } nullCursor nullCursor

-- A unit with the file a and the program copy, end_sequence.
def twoRows : Scan :=
  lineBuffer [23, 0, 0, 0, 2, 0, 13, 0, 0, 0, 1, 1, 0xfb, 14, 2, 0, 0, 97, 0, 0, 0, 0, 0, 1, 0, 1, 1]
    (by decide)

theorem indices_checked_twoRows : IndicesChecked slashed twoRows :=
  indices_checked ⟨rfl, rfl, rfl⟩ (indicesOk_of_checks (by decide +kernel :
    (indexChecks slashed 40).passed slashed 40 twoRows = true))

-- The same program in a unit without files.
def noFiles : Scan :=
  lineBuffer [18, 0, 0, 0, 2, 0, 8, 0, 0, 0, 1, 1, 0xfb, 14, 2, 0, 0, 0, 1, 0, 1, 1] (by decide)

theorem noFiles_unchecked : ¬ IndicesChecked slashed noFiles := fun h =>
  h.inside 40 (Res.stop_eq_some (by decide +kernel))

end Gelpp.Dwarf

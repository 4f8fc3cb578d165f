import Gelpp.Pecoff.Encoding

namespace Gelpp.Pecoff

namespace Section

def ends (s : Section) : Nat := s.hd.virtualAddress.toNat + s.hd.virtualSize.toNat

def Holds (s : Section) (rva : Nat) : Prop := s.hd.virtualAddress.toNat ≤ rva ∧ rva < s.ends

def Maps (s : Section) (a : UInt64) : Prop :=
  s.baseAddress.toNat ≤ a.toNat ∧ a.toNat < s.baseAddress.toNat + s.size.toNat

instance (s : Section) (rva : Nat) : Decidable (s.Holds rva) := inferInstanceAs (Decidable (_ ∧ _))
instance (s : Section) (a : UInt64) : Decidable (s.Maps a) := inferInstanceAs (Decidable (_ ∧ _))

theorem maps_iff (s : Section) (a : UInt64) : s.Maps a ↔ s.Holds a.toNat := by
  rw [Maps, Holds, ends, baseAddress, size, UInt32.toNat_toUInt64, UInt32.toNat_toUInt64]

end Section

variable {f : File}

def File.entryPoint (f : File) : Nat := f.standardCoffFields.addressOfEntryPoint.toNat

def File.imageBase (f : File) : Nat := f.windowsSpecificFields.imageBase.toNat

def EntryMapped (f : File) : Prop :=
  (∀ i s, f.segment i = some s → s.Holds f.entryPoint → s.Maps f.entry) ∧
    ((∀ i s, f.segment i = some s → ¬ s.Holds f.entryPoint) →
      ∀ i s, f.segment i = some s → ¬ s.Maps f.entry)

structure SectionsApart (f : File) : Prop where
  ends : ∀ i s, f.segment i = some s → f.imageBase + s.ends < 2 ^ 64
  apart : ∀ i j s t, f.segment i = some s → f.segment j = some t → i ≠ j →
    ∀ rva, s.Holds rva → ¬ t.Holds rva

-- The image base is less than what follows the entry point in its section; without such a section
-- the base is not the distance, on 64 bits, from the entry point to an address of another one.
def BaseStays (f : File) : Prop :=
  (∃ i s, f.segment i = some s ∧ s.Holds f.entryPoint ∧ f.imageBase < s.ends - f.entryPoint) ∨
    ∀ i s, f.segment i = some s → ¬ s.Holds f.entryPoint ∧
      ∀ rva, s.Holds rva → f.imageBase ≠ (rva + (2 ^ 64 - f.entryPoint)) % 2 ^ 64

theorem entry_toNat (f : File) : f.entry.toNat = (f.entryPoint + f.imageBase) % 2 ^ 64 := by
  rw [File.entry, UInt64.toNat_add, UInt32.toNat_toUInt64]
  rfl

theorem holds_unique (h : SectionsApart f) {i j : Nat} {s t : Section} {rva : Nat}
    (hs : f.segment i = some s) (ht : f.segment j = some t) (hrva : s.Holds rva)
    (hrva' : t.Holds rva) : s = t := by
  by_cases hij : i = j
  · subst hij
    exact Option.some.inj (hs.symm.trans ht)
  · exact absurd hrva' (h.apart i j s t hs ht hij rva hrva)

theorem holds_sum_iff (h : SectionsApart f) {i : Nat} {s : Section} (hs : f.segment i = some s)
    (hrva : s.Holds f.entryPoint) :
    s.Holds ((f.entryPoint + f.imageBase) % 2 ^ 64) ↔ f.imageBase < s.ends - f.entryPoint := by
  have hends := h.ends i s hs
  unfold Section.Holds at hrva ⊢
  rw [Nat.mod_eq_of_lt (by omega)]
  omega

theorem distance_iff (s : Section) : (∀ rva, s.Holds rva →
      f.imageBase ≠ (rva + (2 ^ 64 - f.entryPoint)) % 2 ^ 64) ↔
    ¬ s.Holds ((f.entryPoint + f.imageBase) % 2 ^ 64) := by
  have hbase : f.imageBase < 2 ^ 64 := f.windowsSpecificFields.imageBase.toNat_lt
  have hpoint : f.entryPoint < 2 ^ 32 := f.standardCoffFields.addressOfEntryPoint.toNat_lt
  constructor
  · intro h hsum
    refine h _ hsum ?_
    omega
  · intro h rva hrva heq
    have hends : s.ends < 2 ^ 64 := by
      have hva := s.hd.virtualAddress.toNat_lt
      have hsize := s.hd.virtualSize.toNat_lt
      rw [Section.ends]
      omega
    have hlt : rva < s.ends := hrva.2
    refine h ?_
    rw [heq]
    have hsum : (f.entryPoint + (rva + (2 ^ 64 - f.entryPoint)) % 2 ^ 64) % 2 ^ 64 = rva := by omega
    rwa [hsum]

theorem entry_mapped_iff (h : SectionsApart f) : EntryMapped f ↔ BaseStays f := by
  simp only [EntryMapped, BaseStays, Section.maps_iff, entry_toNat, distance_iff]
  constructor
  · rintro ⟨hin, hout⟩
    by_cases hex : ∃ i s, f.segment i = some s ∧ s.Holds f.entryPoint
    · obtain ⟨i, s, hs, hrva⟩ := hex
      exact .inl ⟨i, s, hs, hrva, (holds_sum_iff h hs hrva).mp (hin i s hs hrva)⟩
    · have hnone : ∀ i s, f.segment i = some s → ¬ s.Holds f.entryPoint :=
        fun i s hs hrva => hex ⟨i, s, hs, hrva⟩
      exact .inr fun i s hs => ⟨hnone i s hs, hout hnone i s hs⟩
  · rintro (⟨i, s, hs, hrva, hlt⟩ | hnone)
    · refine ⟨fun j t ht htrva => ?_, fun hall => absurd hrva (hall i s hs)⟩
      obtain rfl := holds_unique h hs ht hrva htrva
      exact (holds_sum_iff h hs hrva).mpr hlt
    · exact ⟨fun j t ht htrva => absurd htrva (hnone j t ht).1, fun _ j t ht => (hnone j t ht).2⟩

theorem baseStays_zero (h : f.imageBase = 0) : BaseStays f := by
  by_cases hex : ∃ i s, f.segment i = some s ∧ s.Holds f.entryPoint
  · obtain ⟨i, s, hs, hrva⟩ := hex
    refine .inl ⟨i, s, hs, hrva, ?_⟩
    unfold Section.Holds at hrva
    omega
  · refine .inr fun i s hs => ?_
    rw [distance_iff]
    have hlt := f.standardCoffFields.addressOfEntryPoint.toNat_lt
    have hmod : (f.entryPoint + f.imageBase) % 2 ^ 64 = f.entryPoint := by
      rw [h, Nat.add_zero, Nat.mod_eq_of_lt]
      exact hlt.trans (by decide)
    rw [hmod, and_self]
    exact fun hrva => hex ⟨i, s, hs, hrva⟩

theorem entryImage_segment {imageBase : UInt32} {i : Nat} {s : Section}
    (hd : Declared (entryImage imageBase) false f) (h : f.segment i = some s) :
    i = 0 ∧ s.hd.virtualAddress = 0x1000 ∧ s.hd.virtualSize = 2 := by
  rw [File.segment, hd.sects] at h
  cases i with
  | zero =>
    cases h
    exact ⟨rfl, rfl, rfl⟩
  | succ i => cases h

theorem entryImage_apart {imageBase : UInt32} (hd : Declared (entryImage imageBase) false f) :
    SectionsApart f := by
  constructor
  · intro i s h
    obtain ⟨-, hva, hvs⟩ := entryImage_segment hd h
    have hbase : f.imageBase = imageBase.toNat := by
      rw [File.imageBase, hd.windows]
      exact UInt32.toNat_toUInt64 imageBase
    have hlt := imageBase.toNat_lt
    rw [Section.ends, hva, hvs, hbase]
    change imageBase.toNat + (4096 + 2) < 2 ^ 64
    omega
  · intro i j s t h h' hij rva
    exact absurd ((entryImage_segment hd h).1.trans (entryImage_segment hd h').1.symm) hij

theorem entry_mapped_image : ∃ f, File.construct (fun _ => 1) (fun _ => .ok 0)
    ((entryImage 0).stream false []) = .ok f ∧ (EntryMapped f ↔ BaseStays f) := by
  obtain ⟨f, -, -, hrun, hd, -⟩ := construct_encoded (entryImage 0) false [] (by decide) (fun _ => 1)
    fun _ => .ok 0
  exact ⟨f, hrun, entry_mapped_iff (entryImage_apart hd)⟩

theorem entry_unmapped : ∃ f, File.construct (fun _ => 1) (fun _ => .ok 0)
    ((entryImage 0x400000).stream false []) = .ok f ∧ SectionsApart f ∧ ¬ EntryMapped f := by
  obtain ⟨f, -, -, hrun, hd, -⟩ := construct_encoded (entryImage 0x400000) false [] (by decide) (fun _ => 1)
    fun _ => .ok 0
  refine ⟨f, hrun, entryImage_apart hd, fun hmapped => ?_⟩
  have hsegment : f.segment 0 =
      some { hd := ⟨[46, 116, 101, 120, 116, 0, 0, 0], 2, 0x1000, 2, 0, 0, 0, 0, 0, 0⟩ } := by
    rw [File.segment, hd.sects]
    rfl
  have hentry : f.entry = 0x401000 := by
    rw [File.entry, hd.windows, hd.standard]
    rfl
  have hholds := hmapped.1 0 _ hsegment (by
    rw [File.entryPoint, hd.standard]
    decide)
  rw [hentry] at hholds
  exact absurd hholds (by decide)

end Gelpp.Pecoff

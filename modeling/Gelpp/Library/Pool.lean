import Mathlib

-- A table with one entry for each key, and the owners that asked for it.
namespace Pool

structure Entry (κ δ ω : Type) where
  key : κ
  data : δ
  owners : List ω

section
variable {κ δ ω : Type}

def keys (l : List (Entry κ δ ω)) : List κ := l.map Entry.key

def labels (l : List (Entry κ δ ω)) : List (κ × δ) := l.map fun e => (e.key, e.data)

def owners (l : List (Entry κ δ ω)) (i : Nat) : List ω := (l[i]?.map Entry.owners).getD []

def own (o : ω) (e : Entry κ δ ω) : Entry κ δ ω := { e with owners := o :: e.owners }

theorem keys_length (l : List (Entry κ δ ω)) : (keys l).length = l.length := List.length_map _

theorem labels_keys (l : List (Entry κ δ ω)) : (labels l).map Prod.fst = keys l := by
  rw [labels, List.map_map]
  rfl

theorem map_modify_own {β : Type} {o : ω} (f : Entry κ δ ω → β) (hf : ∀ e, f (own o e) = f e)
    (l : List (Entry κ δ ω)) (i : Nat) : (l.modify i (own o)).map f = l.map f := by
  induction l generalizing i with
  | nil => simp
  | cons e l ih =>
    cases i with
    | zero => simp [hf]
    | succ i => simp [ih]

end

section
variable {κ δ ω : Type} [BEq κ]

def place (l : List (Entry κ δ ω)) (k : κ) : Nat := l.findIdx (·.key == k)

def extend (l : List (Entry κ δ ω)) (c : κ × δ) : List (Entry κ δ ω) :=
  if place l c.1 < l.length then l else l ++ [⟨c.1, c.2, []⟩]

def intern (o : ω) (l : List (Entry κ δ ω)) (c : κ × δ) : List (Entry κ δ ω) :=
  (extend l c).modify (place l c.1) (own o)

def internAll (o : ω) (l : List (Entry κ δ ω)) (calls : List (κ × δ)) : List (Entry κ δ ω) :=
  calls.foldl (intern o) l

def places (o : ω) : List (Entry κ δ ω) → List (κ × δ) → List Nat
  | _, [] => []
  | l, c :: calls => place l c.1 :: places o (intern o l c) calls

variable {l : List (Entry κ δ ω)} {k : κ} {o : ω} {c : κ × δ} {calls : List (κ × δ)}

theorem internAll_cons : internAll o l (c :: calls) = internAll o (intern o l c) calls := rfl

theorem internAll_append (more : List (κ × δ)) :
    internAll o l (calls ++ more) = internAll o (internAll o l calls) more := List.foldl_append

theorem places_append (more : List (κ × δ)) :
    places o l (calls ++ more) = places o l calls ++ places o (internAll o l calls) more := by
  induction calls generalizing l with
  | nil => rfl
  | cons c calls ih =>
    rw [List.cons_append, places, places, ih]
    rfl

theorem places_length : (places o l calls).length = calls.length := by
  induction calls generalizing l with
  | nil => rfl
  | cons c calls ih => rw [places, List.length_cons, ih, List.length_cons]

theorem place_eq (l : List (Entry κ δ ω)) (k : κ) : place l k = (keys l).idxOf k := by
  induction l with
  | nil => rfl
  | cons e l ih =>
    simp only [place, keys, List.map_cons, List.idxOf_cons, List.findIdx_cons] at ih ⊢
    rw [ih]

theorem place_le (l : List (Entry κ δ ω)) (k : κ) : place l k ≤ l.length := List.findIdx_le_length

theorem owners_intern (i : Nat) :
    owners (intern o l c) i = if i = place l c.1 then o :: owners l i else owners l i := by
  have hle := place_le l c.1
  have hsame : owners (extend l c) i = owners l i := by
    rw [extend]
    split
    · rfl
    · rw [owners, owners]
      rcases Nat.lt_trichotomy i l.length with hi | rfl | hi
      · rw [List.getElem?_append_left hi]
      · simp
      · rw [List.getElem?_eq_none (by simp; omega), List.getElem?_eq_none (by omega)]
  rw [← hsame]
  by_cases hi : i = place l c.1
  · have hlt : place l c.1 < (extend l c).length := by
      rw [extend]
      split
      · assumption
      · rw [List.length_append, List.length_singleton]
        omega
    rw [if_pos hi, owners, intern, hi, List.getElem?_modify_eq, owners, List.getElem?_eq_getElem hlt]
    rfl
  · rw [if_neg hi, owners, intern, List.getElem?_modify_ne _ _ (Ne.symm hi), owners]

theorem owners_internAll (i : Nat) : owners (internAll o l calls) i =
    List.replicate ((places o l calls).count i) o ++ owners l i := by
  induction calls generalizing l with
  | nil => rfl
  | cons c calls ih =>
    rw [internAll_cons, ih, owners_intern, places]
    by_cases hi : i = place l c.1
    · rw [if_pos hi, hi, List.count_cons_self, List.replicate_succ', List.append_assoc]
      rfl
    · rw [if_neg hi, List.count_cons_of_ne (Ne.symm hi)]

variable [LawfulBEq κ]

theorem place_lt : place l k < l.length ↔ k ∈ keys l := by
  rw [place_eq, ← keys_length, List.idxOf_lt_length_iff]

theorem keys_place (h : k ∈ keys l) : (keys l)[place l k]? = some k := by
  rw [place_eq]
  exact List.getElem?_idxOf h

theorem place_of_get (h : (keys l).Nodup) {i : Nat} (hi : (keys l)[i]? = some k) :
    place l k = i := by
  obtain ⟨hlt, rfl⟩ := List.getElem?_eq_some_iff.mp hi
  rw [place_eq]
  exact h.idxOf_getElem i hlt

theorem label_place (l : List (Entry κ δ ω)) (k : κ) :
    (labels l)[place l k]? = ((labels l).lookup k).map (k, ·) := by
  induction l with
  | nil => rfl
  | cons e l ih =>
    rw [labels, List.map_cons, List.lookup_cons, place, List.findIdx_cons]
    by_cases he : e.key = k
    · rw [he, beq_self_eq_true]
      rfl
    · rw [beq_eq_false_iff_ne.mpr he, beq_eq_false_iff_ne.mpr (Ne.symm he)]
      exact ih

theorem place_inj {k' : κ} (hk : k ∈ keys l) (hk' : k' ∈ keys l) (h : place l k = place l k') :
    k = k' := by
  have hget := keys_place hk
  rw [h, keys_place hk'] at hget
  exact (Option.some.inj hget).symm

theorem lookup_label (h : (keys l).Nodup) {i : Nat} {e : Entry κ δ ω} (hi : l[i]? = some e) :
    (labels l).lookup e.key = some e.data := by
  induction l generalizing i with
  | nil => simp at hi
  | cons f l ih =>
    rw [keys, List.map_cons, List.nodup_cons] at h
    cases i with
    | zero =>
      cases hi
      exact List.lookup_cons_self
    | succ i =>
      rw [List.getElem?_cons_succ] at hi
      have hne : (e.key == f.key) = false := beq_eq_false_iff_ne.mpr fun heq =>
        h.1 (heq ▸ List.mem_map_of_mem (List.mem_of_getElem? hi))
      rw [labels, List.map_cons, List.lookup_cons, hne]
      exact ih h.2 hi

end

section
variable {κ δ ω : Type} [BEq κ] [LawfulBEq κ] {l : List (Entry κ δ ω)} {k : κ} {o : ω} {c : κ × δ}
  {calls : List (κ × δ)}

theorem map_intern {β : Type} (f : Entry κ δ ω → β) (hf : ∀ e, f (own o e) = f e) :
    (intern o l c).map f = if c.1 ∈ keys l then l.map f else l.map f ++ [f ⟨c.1, c.2, []⟩] := by
  rw [intern, map_modify_own f hf, extend]
  by_cases h : c.1 ∈ keys l
  · rw [if_pos (place_lt.mpr h), if_pos h]
  · rw [if_neg fun hlt => h (place_lt.mp hlt), if_neg h, List.map_append, List.map_singleton]

theorem keys_intern : keys (intern o l c) = if c.1 ∈ keys l then keys l else keys l ++ [c.1] :=
  map_intern Entry.key fun _ => rfl

theorem labels_intern :
    labels (intern o l c) = if c.1 ∈ keys l then labels l else labels l ++ [c] :=
  map_intern (fun e => (e.key, e.data)) fun _ => rfl

theorem mem_keys_intern : k ∈ keys (intern o l c) ↔ k ∈ keys l ∨ k = c.1 := by
  rw [keys_intern]
  split
  · next h =>
    constructor
    · exact .inl
    · rintro (hk | rfl)
      · exact hk
      · exact h
  · rw [List.mem_append, List.mem_singleton]

theorem nodup_intern (h : (keys l).Nodup) : (keys (intern o l c)).Nodup := by
  rw [keys_intern]
  split
  · exact h
  · next hc =>
    refine List.nodup_append.mpr ⟨h, List.nodup_singleton _, ?_⟩
    rintro a ha b hb rfl
    exact hc (List.mem_singleton.mp hb ▸ ha)

theorem place_intern (h : k ∈ keys l) : place (intern o l c) k = place l k := by
  rw [place_eq, place_eq, keys_intern]
  split
  · rfl
  · exact List.idxOf_append_of_mem h

theorem place_intern_self : place (intern o l c) c.1 = place l c.1 := by
  by_cases h : c.1 ∈ keys l
  · exact place_intern h
  · rw [place_eq, place_eq, keys_intern, if_neg h, List.idxOf_append_of_notMem h,
      List.idxOf_eq_length h]
    simp

theorem lookup_intern (k : κ) :
    (labels (intern o l c)).lookup k = (labels l ++ [c]).lookup k := by
  rw [labels_intern]
  split
  · next h =>
    rw [List.lookup_append]
    cases hk : (labels l).lookup k with
    | some d => rfl
    | none =>
      have hne : (k == c.1) = false := by
        refine beq_eq_false_iff_ne.mpr fun heq => ?_
        rw [← labels_keys, ← heq] at h
        obtain ⟨p, hp, hpk⟩ := List.mem_map.mp h
        have hnone := List.lookup_eq_none_iff.mp hk p hp
        simp [hpk] at hnone
      rw [List.lookup_cons, hne]
      rfl
  · rfl

theorem mem_keys_internAll :
    k ∈ keys (internAll o l calls) ↔ k ∈ keys l ∨ k ∈ calls.map Prod.fst := by
  induction calls generalizing l with
  | nil => simp [internAll]
  | cons c calls ih =>
    rw [internAll_cons, ih, mem_keys_intern, List.map_cons, List.mem_cons, or_assoc]

theorem nodup_internAll (h : (keys l).Nodup) : (keys (internAll o l calls)).Nodup := by
  induction calls generalizing l with
  | nil => exact h
  | cons c calls ih => exact ih (nodup_intern h)

theorem lookup_internAll (k : κ) :
    (labels (internAll o l calls)).lookup k = (labels l ++ calls).lookup k := by
  induction calls generalizing l with
  | nil => simp [internAll]
  | cons c calls ih =>
    rw [internAll_cons, ih, List.lookup_append, lookup_intern,
      ← List.lookup_append, List.append_assoc]
    rfl

theorem labels_internAll : labels l <+: labels (internAll o l calls) := by
  induction calls generalizing l with
  | nil => exact List.prefix_refl _
  | cons c calls ih =>
    refine List.IsPrefix.trans ?_ ih
    rw [labels_intern]
    split
    · exact List.prefix_refl _
    · exact List.prefix_append _ _

theorem place_internAll (h : k ∈ keys l) : place (internAll o l calls) k = place l k := by
  induction calls generalizing l with
  | nil => rfl
  | cons c calls ih =>
    rw [internAll_cons, ih (mem_keys_intern.mpr (.inl h)), place_intern h]

theorem places_eq : places o l calls = calls.map fun c => place (internAll o l calls) c.1 := by
  induction calls generalizing l with
  | nil => rfl
  | cons c calls ih =>
    rw [places, ih, List.map_cons, internAll_cons,
      place_internAll (mem_keys_intern.mpr (.inr rfl)), place_intern_self]

end

end Pool

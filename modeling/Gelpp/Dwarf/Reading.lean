import Gelpp.Dwarf.Unit
import Gelpp.Consume

namespace Gelpp

def Orderly : Stop → Prop
  | .exception _ => True
  | .fault _ => True
  | _ => False

def Tame : Stop → Prop
  | .exception _ => True
  | .fault kind => kind ≠ .index
  | _ => False

def Raised (e : Stop) : Prop := ∃ m, e = .exception m

theorem raised_exception (m : String) : Raised (.exception m) := ⟨m, rfl⟩

theorem tame_exception (m : String) : Tame (.exception m) := trivial

theorem Tame.orderly {e : Stop} (h : Tame e) : Orderly e := by
  cases e with
  | exception m => trivial
  | fault kind => trivial
  | badAlloc => exact h
  | outside => exact h
  | steps => exact h

namespace Cursor

theorem readOrRaise_meets {A : Stop → Prop} {α : Type} {n : Nat} {get : Buffer → Nat → α}
    {c : Cursor} (hA : ∀ m, A (.exception m))
    (hf : c.buf.fence = none) (hn : n < 2 ^ 63) :
    Meets A (fun r => Past n c r.2) (c.read n get >>= Dwarf.errorIf) := by
  refine (read_meets hf hn).bind fun o ho => ?_
  cases o with
  | some r => exact ho r.1 r.2 rfl
  | none => exact hA _

end Cursor

namespace Dwarf

open Cursor (Past)

theorem lebBody_meets {s : LebState} (hf : s.c.buf.fence = none) :
    Meets Tame (fun t => Past 1 s.c t.c) (lebBody s) := by
  rw [lebBody]
  refine Meets.bind (Cursor.read_meets hf (by omega)) fun o ho => ?_
  cases o with
  | none => trivial
  | some r =>
    simp only [errorIf, Res.ok_bind]
    split
    · exact fun h => by cases h
    · exact ho r.1 r.2 rfl

theorem readLEB128_meets {c : Cursor} (hf : c.buf.fence = none) :
    Meets Tame (fun s => Past 1 c s.c) (readLEB128 c) := by
  refine (Meets.run (fun s => Past 0 c s.c ∧ (s.more = false → Past 1 c s.c))
    (fun s => s.c.buf.size - s.c.off) ?_ ⟨.refl c, fun h => by cases h⟩ ?_).post ?_
  · rintro s - - ⟨hs, -⟩
    have hsf : s.c.buf.fence = none := by rw [hs.buf, hf]
    refine (lebBody_meets hsf).post fun t ht => ?_
    have hlt := t.c.off_le
    have hoff := ht.off
    have hpast : Past 1 c t.c := hs.trans ht
    refine ⟨⟨hpast.weaken (by omega), fun _ => hpast⟩, fun _ => ?_⟩
    rw [ht.buf] at hlt ⊢
    omega
  · exact fun _ => Nat.lt_succ_self _
  · rintro s ⟨⟨-, hs⟩, hm, -⟩
    exact hs hm

theorem readLEB128U_meets {c : Cursor} (hf : c.buf.fence = none) :
    Meets Tame (fun r => Past 1 c r.2) (readLEB128U c) :=
  (readLEB128_meets hf).bind fun _ hs => hs

theorem readLEB128S_meets {c : Cursor} (hf : c.buf.fence = none) :
    Meets Tame (fun r => Past 1 c r.2) (readLEB128S c) :=
  (readLEB128_meets hf).bind fun _ hs => hs

theorem readAddress_meets {A : Stop → Prop} {is64 : Bool} {c : Cursor}
    (hA : ∀ m, A (.exception m)) (hf : c.buf.fence = none) :
    Meets A (fun r => Past 4 c r.2) (readAddress is64 c) := by
  unfold readAddress
  split
  · refine (Cursor.readOrRaise_meets hA hf (by omega)).post fun r hr => ?_
    exact Past.weaken hr (by omega)
  · rw [← bind_assoc]
    exact (Cursor.readOrRaise_meets hA hf (by omega)).bind fun r hr => hr

theorem readUnitLength_meets {A : Stop → Prop} {c : Cursor} (hA : ∀ m, A (.exception m))
    (hf : c.buf.fence = none) : Meets A (fun r => Past 4 c r.2.2) (readUnitLength c) := by
  unfold readUnitLength
  rw [← bind_assoc]
  refine (Cursor.readOrRaise_meets hA hf (by omega)).bind fun ⟨l, d⟩ hd => ?_
  dsimp only
  split
  · exact hd
  · have hdf : d.buf.fence = none := by rw [hd.buf, hf]
    rw [← bind_assoc]
    refine (Cursor.readOrRaise_meets hA hdf (by omega)).bind fun r hr => ?_
    exact (hd.trans hr).weaken (by omega)

theorem readHeaderLength_meets {is64 : Bool} {c : Cursor} (hf : c.buf.fence = none) :
    Meets Tame (fun r => Past 4 c r.2) (readHeaderLength is64 c) := by
  unfold readHeaderLength
  split
  · refine (Cursor.read_meets hf (by omega)).bind fun o ho => ?_
    cases o with
    | none => exact fun h => by cases h
    | some r => exact (ho r.1 r.2 rfl).weaken (by omega)
  · refine (Cursor.read_meets hf (by omega)).bind fun o ho => ?_
    cases o with
    | none => exact fun h => by cases h
    | some r => exact ho r.1 r.2 rfl

end Dwarf

end Gelpp

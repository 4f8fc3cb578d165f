import Gelpp.Dwarf.WindowHeader

namespace Gelpp.Dwarf

open Leb128 (Ended number afterNumber)

section
variable {loose : Prop} {w : Window} {h h' r q : Reader} {c d : Cursor}

theorem extendedEnd_aims (hcd : Sees w c d) (length : UInt64) :
    Aims w (extendedEnd length c.off) (extendedEnd length d.off) := by
  have hsize := hcd.size
  have hlt := c.size_lt
  have hshift := hcd.shift
  have hbefore := hcd.before
  refine ⟨fun hlo hhi => ?_, fun hplace => by rw [show d.off = c.off by omega]⟩
  rw [extendedEnd] at hlo hhi
  rw [extendedEnd, extendedEnd]
  by_cases hsum : (length.toNat + c.off) % 2 ^ 32 < 2 ^ 31
  · rw [if_pos hsum] at hlo hhi ⊢
    rw [if_pos (by omega)]
    omega
  · rw [if_neg hsum] at hhi
    omega

structure DecodedAlike (loose : Prop) (w : Window) (x y : Decoded) : Prop where
  action : y.action = x.action
  c : Sees w x.c y.c
  target : Option.Rel (fun o o' => Aims w o o' ∧ (loose ∨ Lands w o')) x.target y.target

theorem operandU_echo (action : UInt64 → Action) (hcd : Sees w c d)
    (hin : loose ∨ Ended (d.left (w.place + w.length))) :
    Echo (Barred loose) (DecodedAlike loose w) (operandU action c) (operandU action d) := by
  refine (readLEB128U_echo hcd hin).bind ?_
  rintro ⟨v, c⟩ ⟨v', d⟩ ⟨rfl, hcd⟩
  exact .ok ⟨rfl, hcd, .none⟩

theorem decodeStandard_echo (opcode : UInt8) (hcd : Sees w c d)
    (hin : loose ∨ StandardWithin opcode (d.left (w.place + w.length))) :
    Echo (Barred loose) (DecodedAlike loose w) (decodeStandard opcode c)
      (decodeStandard opcode d) := by
  have plain (action : Action) : Echo (ε := Stop) (Barred loose) (DecodedAlike loose w)
      (.ok { action, c }) (.ok { action, c := d }) := .ok ⟨rfl, hcd, .none⟩
  have ended (hop : opcode ∈ [2, 3, 4, 5, 12]) : loose ∨ Ended (d.left (w.place + w.length)) :=
    hin.imp_right fun k => k.number hop
  refine Echo.ite Iff.rfl (fun _ => plain _) fun _ => ?_
  refine Echo.ite Iff.rfl (fun h2 => operandU_echo _ hcd (ended (by simp [h2]))) fun _ => ?_
  refine Echo.ite Iff.rfl (fun h3 => ?_) fun _ => ?_
  · refine (readLEB128S_echo hcd (ended (by simp [h3]))).bind ?_
    rintro ⟨adv, c⟩ ⟨adv', d⟩ ⟨rfl, hcd⟩
    exact .ok ⟨rfl, hcd, .none⟩
  refine Echo.ite Iff.rfl (fun h4 => operandU_echo _ hcd (ended (by simp [h4]))) fun _ => ?_
  refine Echo.ite Iff.rfl (fun h5 => operandU_echo _ hcd (ended (by simp [h5]))) fun _ => ?_
  refine Echo.ite Iff.rfl (fun _ => plain _) fun _ => ?_
  refine Echo.ite Iff.rfl (fun _ => plain _) fun _ => ?_
  refine Echo.ite Iff.rfl (fun _ => plain _) fun _ => ?_
  refine Echo.ite Iff.rfl (fun h9 => ?_) fun _ => ?_
  · have htwo : loose ∨ d.off + 2 ≤ w.place + w.length :=
      hin.imp_right fun k => left_room Nat.two_pos (k.advance h9)
    refine (hcd.readU16 htwo).bind fun x y hxy => (errorIf_echo hxy).bind ?_
    rintro ⟨o, c⟩ ⟨o', d⟩ ⟨rfl, hcd⟩
    exact .ok ⟨rfl, hcd, .none⟩
  refine Echo.ite Iff.rfl (fun _ => plain _) fun _ => ?_
  refine Echo.ite Iff.rfl (fun _ => plain _) fun _ => ?_
  exact Echo.ite Iff.rfl (fun h12 => operandU_echo _ hcd (ended (by simp [h12]))) fun _ => .error _

theorem decodeExtendedOpcode_echo (is64 : Bool) (opcode : UInt8) (hcd : Sees w c d)
    (hin : loose ∨ (opcode = 2 → d.off + offsetSize is64 ≤ w.place + w.length) ∧
      (opcode = 4 → Ended (d.left (w.place + w.length)))) :
    Echo (Barred loose) (DecodedAlike loose w) (decodeExtendedOpcode is64 opcode c)
      (decodeExtendedOpcode is64 opcode d) := by
  refine Echo.ite Iff.rfl (fun _ => .ok ⟨rfl, hcd, .none⟩) fun _ => ?_
  refine Echo.ite Iff.rfl (fun h2 => ?_) fun _ => ?_
  · refine (readAddress_echo hcd (hin.imp_right fun k => k.1 h2)).bind ?_
    rintro ⟨address, c⟩ ⟨address', d⟩ ⟨rfl, hcd⟩
    exact .ok ⟨rfl, hcd, .none⟩
  refine Echo.ite Iff.rfl (fun _ => .ok ⟨rfl, hcd, .none⟩) fun _ => ?_
  exact Echo.ite Iff.rfl (fun h4 => operandU_echo _ hcd (hin.imp_right fun k => k.2 h4)) fun _ =>
    .error _

theorem decodeExtended_echo (hcd : Sees w c d)
    (hin : loose ∨ w.place = w.start ∧ d.off = q.c.off + 1 ∧
      ExtendedWithin w.place (w.place + w.length) q (d.left (w.place + w.length))) :
    Echo (Barred loose) (DecodedAlike loose w) (decodeExtended q.dl.is64 c)
      (decodeExtended q.dl.is64 d) := by
  refine (readLEB128U_echo hcd (hin.imp_right fun k => k.2.2.length)).exact_bind ?_
  rintro ⟨length, c1⟩ ⟨length', d1⟩ - hlen ⟨rfl, hcd1⟩
  replace hcd1 : Sees w c1 d1 := hcd1
  have h1 := hin.imp_right fun k => And.intro k (readLEB128U_left hcd.free k.2.2.length hlen)
  have hcons : loose ∨ ∃ b bs, d1.left (w.place + w.length) = b :: bs ∧
      afterNumber (d.left (w.place + w.length)) = b :: bs := h1.imp_right fun ⟨k, _, hleft, _⟩ => by
    cases hafter : afterNumber (d.left (w.place + w.length)) with
    | nil => exact absurd hafter k.2.2.opcode
    | cons b bs => exact ⟨b, bs, hleft.trans hafter, rfl⟩
  have hone := hcons.imp_right fun ⟨b, bs, hleft, _⟩ => (left_cons hleft).1
  refine (hcd1.readU8 hone).exact_bind fun x y _ hy hxy => (errorIf_echo hxy).exact_bind ?_
  rintro ⟨opcode, c2⟩ ⟨opcode', d2⟩ - hb ⟨rfl, hcd2⟩
  replace hcd2 : Sees w c2 d2 := hcd2
  have hbyte : loose ∨ afterNumber (d.left (w.place + w.length)) =
      opcode' :: d2.left (w.place + w.length) := hcons.imp_right fun ⟨b, bs, hleft, hafter⟩ => by
    obtain ⟨-, tail, hrest, hnext⟩ := left_cons hleft
    rw [Cursor.readU8_rest hcd1.free hrest] at hy
    cases hy
    cases hb
    rw [hafter, hnext]
  have hoperands := (or_and_left.mpr ⟨hbyte, hin⟩).imp_right fun ⟨hbyte, _, _, k⟩ =>
    And.intro (a := opcode' = 2 → d2.off + offsetSize q.dl.is64 ≤ w.place + w.length)
      (b := opcode' = 4 → Ended (d2.left (w.place + w.length)))
      (fun h2 => by
        have hroom := k.address (by rw [hbyte, h2]; rfl)
        rw [hbyte, List.tail_cons] at hroom
        exact left_room (offsetSize_pos _) hroom)
      fun h4 => by
        have hended := k.discriminator (by rw [hbyte, h4]; rfl)
        rwa [hbyte, List.tail_cons] at hended
  refine (decodeExtendedOpcode_echo q.dl.is64 opcode' hcd2 hoperands).bind fun x y hxy => ?_
  refine .ok ⟨hxy.action, hxy.c, .some ⟨extendedEnd_aims hcd1 length', h1.imp_right fun ⟨k, hv, _, ho⟩ => ?_⟩⟩
  have htarget := k.2.2.target
  rw [← k.2.1, ← hv, ← ho] at htarget
  exact ⟨k.1, htarget⟩

theorem decode_echo (m : Mirrored loose w h h' r q)
    (hin : loose ∨ w.place = w.start ∧ OpcodeWithin w.place (w.place + w.length) q) :
    Echo (Barred loose) (DecodedAlike loose w) (decode r) (decode q) := by
  have hcons : loose ∨ ∃ b bs, q.c.left (w.place + w.length) = b :: bs ∧
      BytesWithin w.place (w.place + w.length) q (b :: bs) := hin.imp_right fun ⟨_, k⟩ => by
    rw [OpcodeWithin] at k
    cases hleft : q.c.left (w.place + w.length) with
    | nil =>
      rw [hleft] at k
      exact k.elim
    | cons b bs => exact ⟨b, bs, rfl, hleft ▸ k⟩
  have hone := hcons.imp_right fun ⟨b, bs, hleft, _⟩ => (left_cons hleft).1
  refine (m.readU8 hone).exact_bind fun x y _ hy hxy => (errorIf_echo hxy).exact_bind ?_
  rintro ⟨opcode, c⟩ ⟨opcode', d⟩ - hb ⟨rfl, hcd⟩
  replace hcd : Sees w c d := hcd
  have hbytes : loose ∨ d.off = q.c.off + 1 ∧ BytesWithin w.place (w.place + w.length) q
      (opcode' :: d.left (w.place + w.length)) := hcons.imp_right fun ⟨b, bs, hleft, k⟩ => by
    obtain ⟨-, tail, hrest, hnext⟩ := left_cons hleft
    rw [Cursor.readU8_rest m.free hrest] at hy
    cases hy
    cases hb
    rw [hnext]
    exact ⟨(Cursor.forward_one hrest).2, k⟩
  rw [← m.is64, ← m.sm]
  refine Echo.ite Iff.rfl (fun _ => .ok ⟨rfl, hcd, .none⟩) fun hspecial => ?_
  refine Echo.ite Iff.rfl (fun h0 => ?_) fun h0 => ?_
  · refine decodeExtended_echo hcd ?_
    refine (or_and_left.mpr ⟨hin, hbytes⟩).imp_right fun ⟨k, hoff, hb⟩ => ⟨k.1, hoff, ?_⟩
    rwa [BytesWithin, if_neg hspecial, if_pos h0] at hb
  · refine decodeStandard_echo opcode' hcd (hbytes.imp_right fun ⟨_, hb⟩ => ?_)
    rwa [BytesWithin, if_neg hspecial, if_neg h0] at hb

theorem vectorAt_echo {α β : Type} {l : List α} {k : List β} (hlen : k.length = l.length) (i : Int) :
    Echo (Barred loose) (fun a b => ∃ n : Nat, l[n]? = some a ∧ k[n]? = some b) (vectorAt l i)
      (vectorAt k i) := by
  refine Echo.ite Iff.rfl (fun _ => ?_) fun _ => .error _
  cases hl : l[i.toNat]? with
  | none =>
    rw [List.getElem?_eq_none_iff, ← hlen, ← List.getElem?_eq_none_iff] at hl
    rw [hl]
    exact .error _
  | some a =>
    have hlt : i.toNat < k.length := hlen ▸ (List.getElem?_eq_some_iff.mp hl).1
    rw [List.getElem?_eq_getElem hlt]
    exact .ok ⟨i.toNat, hl, List.getElem?_eq_getElem hlt⟩

theorem recordLine_echo (m : Mirrored loose w h h' r q) :
    Echo (Barred loose) (Mirrored loose w h h') (recordLine r) (recordLine q) := by
  rw [recordLine, recordLine, m.sm]
  refine (vectorAt_echo m.calls.length _).bind ?_
  rintro f g ⟨n, hf, hg⟩
  refine .ok ⟨m.toSees, rfl, m.is64, m.strSect, m.lineStrSect,
    m.calls.aside (.aside rfl rfl rfl) (.aside rfl rfl rfl), ?_, m.dates⟩
  exact List.rel_append m.rows (.cons ⟨rfl, n, hf, hg⟩ .nil)

theorem special_echo (opcode : UInt8) (m : Mirrored loose w h h' r q) :
    Echo (Barred loose) (Mirrored loose w h h') (special opcode r) (special opcode q) := by
  rw [special, special, m.sm]
  refine Echo.ite Iff.rfl (fun _ => .error _) fun _ => Echo.refl.bind ?_
  rintro sm _ rfl
  refine Echo.refl.bind ?_
  rintro sm _ rfl
  exact recordLine_echo (m.renew m.toSees rfl)

variable {join : Path → Path → Path}

theorem perform_echo (a : Action) (m : Mirrored loose w h h' r q)
    (hin : loose ∨ (a = .defineFile → FilesWithin join (w.place + w.length) q)) :
    Echo (Barred loose) (Mirrored loose w h h') (perform join r a) (perform join q a) := by
  cases a with
  | special opcode => exact special_echo opcode m
  | copy => exact recordLine_echo m
  | advancePC adv =>
    rw [perform, perform, m.sm]
    refine Echo.refl.bind ?_
    rintro sm _ rfl
    exact .ok (m.renew m.toSees rfl)
  | advanceLine adv =>
    rw [perform, perform, m.sm]
    refine Echo.refl.bind ?_
    rintro sm _ rfl
    exact .ok (m.renew m.toSees rfl)
  | negateStmt =>
    refine Echo.ite (by rw [m.sm]) (fun _ => ?_) fun _ => ?_
    · exact .ok (m.renew m.toSees (by rw [m.sm]))
    · exact .ok (m.renew m.toSees (by rw [m.sm]))
  | constAddPC =>
    rw [perform, perform, m.sm]
    refine Echo.ite Iff.rfl (fun _ => .error _) fun _ => Echo.refl.bind ?_
    rintro sm _ rfl
    exact .ok (m.renew m.toSees rfl)
  | endSequence =>
    refine (recordLine_echo m).bind fun r q m => .ok ?_
    exact m.renew m.toSees (by rw [m.sm])
  | defineFile => exact readFile_echo m (hin.imp_right fun k => k rfl)
  | _ => exact .ok (m.renew m.toSees (by rw [m.sm]))

theorem land_echo {t t' : Option Nat}
    (ht : Option.Rel (fun o o' => Aims w o o' ∧ (loose ∨ Lands w o')) t t')
    (m : Mirrored loose w h h' r q) :
    Echo (Barred loose) (Mirrored loose w h h') (land t r) (land t' q) := by
  cases ht with
  | none => exact .ok m
  | some ho => exact moveTo_echo m ho.1 ho.2

theorem step_echo (m : Mirrored loose w h h' r q)
    (hin : loose ∨ w.place = w.start ∧ OpcodeWithin w.place (w.place + w.length) q ∧
      ∀ d, decode q = .ok d → d.action = .defineFile →
        FilesWithin join (w.place + w.length) { q with c := d.c }) :
    Echo (Barred loose) (Mirrored loose w h h') (step join (w.start + w.length) r)
      (step join (w.place + w.length) q) := by
  have hshift := m.shift
  rw [step_eq, step_eq]
  refine Echo.ite (by omega) (fun _ => .error _) fun _ => ?_
  refine (decode_echo m (hin.imp_right fun k => ⟨k.1, k.2.1⟩)).exact_bind fun x y _ hy hxy => ?_
  rw [enact, enact, ← hxy.action]
  refine (perform_echo _ (m.cursor hxy.c) (hin.imp_right fun k => k.2.2 y hy)).bind fun r q m => ?_
  exact land_echo hxy.target m

theorem runProgram_echo {fuel : Nat} {p : Reader} (m : Mirrored loose w h h' r q)
    (hp : readHeader join p = .ok q)
    (hin : loose ∨ w.place = w.start ∧ Contained join w.place p (w.place + w.length)) :
    Echo (Barred loose) (Mirrored loose w h h') (runProgram join fuel (w.start + w.length) r)
      (runProgram join fuel (w.place + w.length) q) := by
  have hshift := m.shift
  refine Echo.ite (by omega) (fun hlt => ?_) fun _ => .ok m
  refine Echo.run_same (fun r q m => by rw [running, running, m.sm]) (fun x y hv hm mxy => ?_) m
  refine step_echo mxy (hin.imp_right fun hk => ?_)
  obtain ⟨hplace, k⟩ := hk
  have hat : OpcodeOf join p (w.place + w.length) y := ⟨q, hp, by omega, hv, hm⟩
  exact ⟨hplace, k.opcodes y hat, fun d hd ha => k.files _ (.defined hat hd ha)⟩

structure ReadAlike (loose : Prop) (w : Window) (s t x y : Scan) : Prop where
  read : ∃ h h' r q, openUnit s = .ok (h, w.start + w.length) ∧
    openUnit t = .ok (h', w.place + w.length) ∧ Mirrored loose w h h' r q ∧ x.dl = addUnit r ∧
    y.dl = addUnit q
  start : x.c.off = w.start + w.length
  place : y.c.off = w.place + w.length

theorem closeUnit_at {e : Nat} {s : Reader} (hfence : ∀ f, s.c.buf.fence = some f → f ≤ e)
    (he : e ≤ s.c.buf.size) :
    closeUnit e s = .ok { c := { s.c with off := e, off_le := he }, dl := addUnit s } := by
  have hdemand : s.c.buf.demand e e = .ok () := by
    cases hf : s.c.buf.fence with
    | none => exact Buffer.demand_unfenced hf e e
    | some f => exact Buffer.demand_inside hf (hfence f hf) he
  rw [closeUnit, Cursor.move, hdemand, Res.ok_bind, dif_pos he]
  rfl

theorem openUnit_echo {s t : Scan} (hst : Sees w s.c t.c)
    (hstr : Shelved s.dl.strSect t.dl.strSect)
    (hline : Shelved s.dl.lineStrSect t.dl.lineStrSect) (hnew : loose ∨ s.dl.files = [])
    (hin : loose ∨ ∃ v, readUnitLength t.c = .ok v ∧ v.2.2.off ≤ w.place + w.length) :
    Echo (Barred loose) (fun x y => Mirrored loose w x.1 y.1 x.1 y.1 ∧ Aims w x.2 y.2) (openUnit s)
      (openUnit t) := by
  refine (readUnitLength_echo hst hin).bind ?_
  rintro ⟨unitLength, is64, c⟩ ⟨unitLength', is64', d⟩ ⟨rfl, hal⟩
  obtain ⟨h64, hcd⟩ := hal
  refine .ok ⟨⟨hcd, rfl, h64, hstr, hline, ⟨⟨[], .refl _, .refl _⟩, rfl⟩, .nil, ?_⟩, hcd.aims _⟩
  refine hnew.imp_right fun hfiles => ⟨hfiles, rfl, fun f _ g hg => ?_⟩
  rw [show s.dl.files = [] from hfiles] at hg
  cases hg

structure Inside (join : Path → Path → Path) (w : Window) (s t : Scan) : Prop where
  same : w.place = w.start
  empty : s.dl.files = []
  length : ∃ v, readUnitLength t.c = .ok v ∧ v.2.2.off ≤ w.place + w.length
  after : ∀ h' e, openUnit t = .ok (h', e) → w.place < h'.c.off ∧
    Contained join w.place h' (w.place + w.length)

theorem readCU_echo {fuel : Nat} {s t : Scan} (hst : Sees w s.c t.c)
    (hstr : Shelved s.dl.strSect t.dl.strSect)
    (hline : Shelved s.dl.lineStrSect t.dl.lineStrSect)
    (hend : ∀ h e, openUnit s = .ok (h, e) → e = w.start + w.length)
    (hin : loose ∨ Inside join w s t) :
    Echo (Barred loose) (ReadAlike loose w s t) (readCU join fuel s) (readCU join fuel t) := by
  refine (openUnit_echo hst hstr hline (hin.imp_right fun k => k.empty)
    (hin.imp_right fun k => k.length)).exact_bind ?_
  rintro ⟨h, e⟩ ⟨h', e'⟩ hs ht ⟨m, haims⟩
  obtain rfl : e = w.start + w.length := hend h e hs
  obtain rfl : e' = w.place + w.length := by
    have := haims.shift (Nat.le_add_right _ _) (Nat.le_refl _)
    omega
  have hafter := hin.imp_right fun k => And.intro k.same (k.after h' _ ht)
  refine (readHeader_echo m (hafter.imp_right fun ⟨hsame, hlt, k⟩ =>
    ⟨hsame, hlt, k.header, fun p t hp ht => k.files t (.header hp ht)⟩)).exact_bind
      fun r q _ hq m => ?_
  refine (runProgram_echo m hq (hafter.imp_right fun k => ⟨k.1, k.2.2⟩)).bind fun r q m => ?_
  have hfence {f : Nat} (hf : r.c.buf.fence = some f) : f ≤ w.start + w.length := by
    rw [m.fence] at hf
    have := Option.some.inj hf
    omega
  rw [closeUnit_at (fun _ => hfence) m.size.ge,
    closeUnit_at (fun f hf => by rw [m.free] at hf; cases hf) m.room]
  exact .ok ⟨⟨h, h', r, q, hs, ht, m, rfl, rfl⟩, rfl, rfl⟩

end

end Gelpp.Dwarf

import Gelpp.Dwarf.WindowTables

namespace Gelpp

theorem Cursor.forward_off_le (c : Cursor) (n : Nat) : (c.forward n).off ≤ c.off + n :=
  Nat.min_le_left _ _

namespace Dwarf

section
variable {loose : Prop} {w : Window} {h h' r q : Reader}

theorem readVersion_echo (m : Mirrored loose w h h' r q)
    (hin : loose ∨ q.c.off + 4 ≤ w.place + w.length) :
    Echo (Barred loose) (Mirrored loose w h h') (readVersion r) (readVersion q) := by
  refine (m.readU16 (hin.imp_right fun k => by omega)).exact_bind fun x y _ hy hxy =>
    (errorIf_echo hxy).exact_bind ?_
  rintro ⟨version, c⟩ ⟨version', d⟩ - hb ⟨rfl, hcd⟩
  have hd : loose ∨ d.off + 2 ≤ w.place + w.length := hin.imp_right fun k => by
    have hroom := m.room
    rw [Cursor.readU16, Cursor.read_some m.free (by omega), Except.ok.injEq] at hy
    rw [← hy, errorIf, Except.ok.injEq, Prod.mk.injEq] at hb
    have hle := q.c.forward_off_le 2
    rw [hb.2] at hle
    omega
  have hm := m.update hcd fun sm => { sm with version := version' }
  refine Echo.ite Iff.rfl (fun _ => .error _) fun _ => Echo.ite Iff.rfl (fun _ => ?_) fun _ => .ok hm
  refine (keep_echo hm (hm.readU8 (hd.imp_right fun k => by dsimp only; omega)) _).exact_bind
    fun r q _ hq mq => ?_
  obtain ⟨hc, -⟩ := kept_byte hm.plain hq
  refine keep_echo mq (mq.readU8 (hd.imp_right fun k => ?_)) _
  have hle := d.forward_off_le 1
  rw [hc]
  dsimp only
  omega

theorem readMaximumOperations_echo (m : Mirrored loose w h h' r q)
    (hin : loose ∨ q.c.off + operationsRead q.sm ≤ w.place + w.length) :
    Echo (Barred loose) (Mirrored loose w h h') (readMaximumOperations r)
      (readMaximumOperations q) := by
  refine Echo.ite (by rw [m.sm]) (fun hv => ?_) fun _ =>
    .ok (m.machine fun sm => { sm with maximumOperationsPerInstruction := 1 })
  rw [← m.sm] at hv
  rw [operationsRead, if_pos hv] at hin
  exact keep_echo m (m.readU8 hin) _

theorem readDefaultIsStmt_echo (m : Mirrored loose w h h' r q)
    (hin : loose ∨ q.c.off + 1 ≤ w.place + w.length) :
    Echo (Barred loose) (Mirrored loose w h h') (readDefaultIsStmt r) (readDefaultIsStmt q) := by
  refine (m.readU8 hin).bind ?_
  rintro x y ⟨stmt, c, d, rfl, rfl, hcd⟩
  exact Echo.ite Iff.rfl (fun _ => .ok (m.cursor hcd)) fun _ => .ok (m.update hcd fun sm => sm.set isStmt)

theorem readBase_echo (m : Mirrored loose w h h' r q)
    (hin : loose ∨ q.c.off + operationsRead q.sm + 5 ≤ w.place + w.length) :
    Echo (Barred loose) (Mirrored loose w h h') (readBase r) (readBase q) := by
  refine (keep_echo m (m.readU8 (hin.imp_right fun k => by omega)) _).exact_bind
    fun r1 q1 _ h1 m1 => ?_
  obtain ⟨hc1, -, hsm1⟩ := kept_byte m.plain h1
  have hk : operationsRead q1.sm = operationsRead q.sm := by
    rw [operationsRead, operationsRead, hsm1]
    split <;> rfl
  have hle1 := hc1 ▸ q.c.forward_off_le 1
  refine (readMaximumOperations_echo m1 (hin.imp_right fun k => by omega)).exact_bind
    fun r2 q2 _ h2 m2 => ?_
  have hle2 := (readMaximumOperations_bytes m1.plain h2).1 ▸ q1.c.forward_off_le _
  refine (readDefaultIsStmt_echo m2 (hin.imp_right fun k => by omega)).exact_bind
    fun r3 q3 _ h3 m3 => ?_
  have hle3 := (readDefaultIsStmt_bytes m2.plain h3).1 ▸ q2.c.forward_off_le _
  refine (keep_echo m3 (m3.readI8 (hin.imp_right fun k => by omega)) _).exact_bind
    fun r4 q4 _ h4 m4 => ?_
  have hle4 := (kept_byte m3.plain h4).1 ▸ q3.c.forward_off_le _
  refine (keep_echo m4 (m4.readU8 (hin.imp_right fun k => by omega)) _).exact_bind
    fun r5 q5 _ h5 m5 => ?_
  have hle5 := (kept_byte m4.plain h5).1 ▸ q4.c.forward_off_le _
  exact keep_echo m5 (m5.readU8 (hin.imp_right fun k => by omega)) _

theorem readOpcodeLengths_echo (m : Mirrored loose w h h' r q)
    (hin : loose ∨ w.place < q.c.off ∧ q.c.off < w.place + w.length ∧
      q.c.off + (q.sm.opcodeBase.toNat - 1) ≤ w.place + w.length) :
    Echo (Barred loose) (Mirrored loose w h h') (readOpcodeLengths r) (readOpcodeLengths q) := by
  rw [readOpcodeLengths, readOpcodeLengths, ← m.sm]
  have hbase := q.sm.opcodeBase.toNat_lt
  have hsize := r.c.size_lt
  have hwin := m.size
  have hoff_le := m.off_le
  have hshift := m.shift
  have hskip : loose ∨ w.start ≤ (r.c.off + opcodeCount q.sm.opcodeBase) % 2 ^ 64 ∧
      (r.c.off + opcodeCount q.sm.opcodeBase) % 2 ^ 64 ≤ w.start + w.length :=
    hin.imp_right fun ⟨hlo, hlt, hhi⟩ => by
      rw [opcodeCount]
      omega
  refine (m.skip hskip).bind ?_
  rintro x y ⟨c, d, rfl, rfl, hcd, hoff⟩
  refine (m.here (hin.imp_right fun k => k.2.1)).bind ?_
  rintro o o' ⟨rfl, rfl, hlt⟩
  have hslice : q.c.buf.slice q.c.off (q.sm.opcodeBase.toNat - 1) =
      r.c.buf.slice r.c.off (q.sm.opcodeBase.toNat - 1) := by
    refine m.slice m.inside ?_ m.shift
    have hle := hcd.off_le
    rw [opcodeCount] at hoff
    omega
  rw [hslice]
  exact .ok (m.renew hcd (by rw [m.sm]))

theorem headerStart_echo (m : Mirrored loose w h h' r q)
    (hin : loose ∨ HeaderWithin w.place (w.place + w.length) q) :
    Echo (Barred loose) (fun x y => Mirrored loose w h h' x.1 y.1 ∧ Aims w x.2 y.2) (headerStart r)
      (headerStart q) := by
  refine (readVersion_echo m (hin.imp_right fun k => k.version)).exact_bind fun r q _ hq m => ?_
  have hlength := hin.imp_right fun k => k.length q hq
  rw [m.is64] at hlength ⊢
  refine (readHeaderLength_echo m.toSees hlength).bind ?_
  rintro ⟨headerLength, c⟩ ⟨headerLength', d⟩ ⟨rfl, hcd⟩
  exact .ok ⟨m.cursor hcd, hcd.aims _⟩

theorem readBaseAndDir_echo {p : Reader} {s : Reader × Nat} (m : Mirrored loose w h h' r s.1)
    (hp : p.Plain) (hs : headerStart p = .ok s)
    (hin : loose ∨ w.place < p.c.off ∧ HeaderWithin w.place (w.place + w.length) p) :
    Echo (Barred loose) (Mirrored loose w h h') (readBaseAndDir r) (readBaseAndDir s.1) := by
  refine (readBase_echo m (hin.imp_right fun k => k.2.base s hs)).exact_bind fun r1 b _ hb m1 => ?_
  have hsoff := ((headerStart_meets hp).of_ok hs).off
  have hboff := ((readBase_meets m.plain).of_ok hb).off
  have hlengths := hin.imp_right fun k => And.intro (by omega : w.place < b.c.off) (k.2.lengths s b hs hb)
  refine (readOpcodeLengths_echo m1 hlengths).exact_bind fun r2 t _ ht m2 => ?_
  exact readDir_echo m2 (hin.imp_right fun k => k.2.dirs s b t hs hb ht)

theorem readHeader_echo {join : Path → Path → Path} (m : Mirrored loose w h h' r q)
    (hin : loose ∨ w.place = w.start ∧ w.place < q.c.off ∧
      HeaderWithin w.place (w.place + w.length) q ∧
      ∀ s t, headerStart q = .ok s → readBaseAndDir s.1 = .ok t →
        FilesWithin join (w.place + w.length) t) :
    Echo (Barred loose) (Mirrored loose w h h') (readHeader join r) (readHeader join q) := by
  rw [readHeader_eq, readHeader_eq]
  refine (headerStart_echo m (hin.imp_right fun k => k.2.2.1)).exact_bind fun x s _ hs ⟨ms, ho⟩ => ?_
  refine Echo.bind (R := Mirrored loose w h h') ?_ fun r t mt => moveTo_echo mt ho ?_
  · refine (readBaseAndDir_echo ms m.plain hs (hin.imp_right fun k => ⟨k.2.1, k.2.2.1⟩)).exact_bind
      fun r t _ ht mt => ?_
    exact readFile_echo mt (hin.imp_right fun k => k.2.2.2 s t hs ht)
  · exact hin.imp_right fun k => ⟨k.1, k.2.2.1.program s hs⟩

end

end Dwarf

end Gelpp

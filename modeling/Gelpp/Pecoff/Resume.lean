import Gelpp.Pecoff.Encoding

namespace Gelpp.Pecoff

open Effect

section
variable {s t : Stream}

structure Resumed (s t : Stream) : Prop where
  left : s.Calm
  right : t.Calm
  bytes : s.bytes = t.bytes
  pos : s.pos = t.pos
  message : s.lastErrorMessage = t.lastErrorMessage

theorem Resumed.moved (h : Resumed s t) (pos k : Nat) : Resumed (s.moved pos k) (t.moved pos k) :=
  ⟨h.left, h.right, h.bytes, rfl, h.message⟩

theorem resumed_moveTo (h : Resumed s t) (offset : Nat) :
    Twin Resumed (fun _ => Resumed) ((Stream.moveTo offset).run s) ((Stream.moveTo offset).run t) := by
  rw [moveTo_served h.left.served, moveTo_served h.right.served]
  exact .ok (h.moved _ _)

theorem resumed_moveBackward (h : Resumed s t) (n : Nat) : Twin Resumed (fun _ => Resumed)
    ((Stream.moveBackward n).run s) ((Stream.moveBackward n).run t) := by
  have h1 : Resumed (s.moved s.pos 1) (t.moved t.pos 1) := by
    rw [h.pos]
    exact h.moved _ _
  rw [Stream.moveBackward, get_bind, get_bind, bind_of_ok (tick_served h.left.served),
    bind_of_ok (tick_served h.right.served), h.pos]
  refine Twin.ite (fun _ => ?_) fun _ => ?_
  · exact .ok (h.moved _ _)
  · exact .ok (h.moved (t.pos - n) 1)

theorem resumed_streamRead (h : Resumed s t) (mem : List UInt8) (len : Int) :
    Twin Resumed (fun _ => Resumed) ((Stream.read mem len).run s) ((Stream.read mem len).run t) := by
  rw [Stream.read, get_bind, get_bind, bind_of_ok (tick_served h.left.served),
    bind_of_ok (tick_served h.right.served), h.bytes, h.pos]
  refine Twin.ite (fun _ => .ok (h.moved _ _)) fun _ => ?_
  refine Twin.ite (fun _ => .error (h.moved _ _)) fun _ => ?_
  exact .ok (h.moved _ _)

theorem resumed_read (h : Resumed s t) (mem : List UInt8) (len : Int) :
    Twin Resumed (fun _ => Resumed) ((read mem len).run s) ((read mem len).run t) := by
  refine Twin.bind (resumed_streamRead h mem len) fun x s' t' h' => ?_
  have hmessage : ioError s' = ioError t' := by rw [ioError, ioError, h'.message]
  rw [get_bind, get_bind, hmessage]
  refine Twin.ite (fun _ => .ok h') fun _ => ?_
  exact Twin.ite (fun _ => .ok h') fun _ => .ok h'

theorem resumed_move (h : Resumed s t) (offset : Nat) :
    Twin Resumed (fun _ => Resumed) ((move offset).run s) ((move offset).run t) := by
  refine Twin.bind (resumed_moveTo h offset) fun moved s' t' h' => ?_
  have hmessage : ioError s' = ioError t' := by rw [ioError, ioError, h'.message]
  rw [get_bind, get_bind, hmessage]
  exact Twin.ite (fun _ => .ok h') fun _ => .error h'

theorem resumed_lift {α : Type} (h : Resumed s t) (x : Res α) :
    Twin Resumed (fun _ => Resumed) ((lift x : StreamM α).run s) ((lift x : StreamM α).run t) :=
  Twin.lift (fun _ _ => h) h

theorem resumed_readRecord (h : Resumed s t) (size : Nat) :
    Twin Resumed (fun _ => Resumed) ((readRecord size).run s) ((readRecord size).run t) :=
  Twin.bind (resumed_read h _ _) fun x _ _ h' =>
    Twin.bind (resumed_lift h' x.1) fun _ _ _ h' => .ok h'

theorem resumed_readRecords {α : Type} (h : Resumed s t) (junk : Nat → UInt8) (decode : List UInt8 → α)
    (size count : Nat) : Twin Resumed (fun _ => Resumed) ((readRecords junk decode size count).run s)
      ((readRecords junk decode size count).run t) :=
  Twin.bind (resumed_lift h _) fun _ _ _ h' => Twin.bind (resumed_read h' _ _) fun x _ _ h' =>
    Twin.bind (resumed_lift h' x.1) fun _ _ _ h' => .ok h'

theorem resumed_readCoffHeader (h : Resumed s t) :
    Twin Resumed (fun _ => Resumed) (readCoffHeader.run s) (readCoffHeader.run t) := by
  refine Twin.bind (resumed_move h _) fun _ s t h => ?_
  refine Twin.bind (resumed_readRecord h _) fun _ s t h => ?_
  refine Twin.bind (resumed_move h _) fun _ s t h => ?_
  refine Twin.bind (resumed_readRecord h _) fun _ s t h => ?_
  exact Twin.ite (fun _ => .error h) fun _ => .ok h

theorem resumed_readStandardCoffFields (h : Resumed s t) :
    Twin Resumed (fun _ => Resumed) (readStandardCoffFields.run s) (readStandardCoffFields.run t) := by
  refine Twin.bind (resumed_readRecord h _) fun _ s t h => ?_
  exact Twin.ite (fun _ => .error h) fun _ => .ok h

theorem resumed_readWindowsSpecificFields (h : Resumed s t) (type : UInt16) :
    Twin Resumed (fun _ => Resumed) ((readWindowsSpecificFields type).run s)
      ((readWindowsSpecificFields type).run t) := by
  refine Twin.ite (fun _ => ?_) fun _ => ?_
  · refine Twin.bind (resumed_moveBackward h _) fun _ s t h => ?_
    exact Twin.bind (resumed_readRecord h _) fun _ s t h => .ok h
  · exact Twin.bind (resumed_readRecord h _) fun _ s t h => .ok h

theorem resumed_readHeaders (h : Resumed s t) (junk : Nat → UInt8) :
    Twin Resumed (fun _ => Resumed) ((readHeaders junk).run s) ((readHeaders junk).run t) := by
  refine Twin.bind (resumed_readCoffHeader h) fun _ s t h => ?_
  refine Twin.bind (resumed_readStandardCoffFields h) fun _ s t h => ?_
  refine Twin.bind (resumed_readWindowsSpecificFields h _) fun _ s t h => ?_
  refine Twin.bind (resumed_readRecords h _ _ _ _) fun _ s t h => ?_
  exact Twin.bind (resumed_readRecords h _ _ _ _) fun _ s t h => .ok h

theorem resumed_construct (h : Resumed s t) (junk : Nat → UInt8) (scan : List UInt8 → Res UInt32)
    {f : File} (hf : File.construct junk scan s = .ok f) : ∃ u, Resumed f.stream u ∧
      File.construct junk scan t = .ok { f with stream := u } := by
  have htwin := resumed_readHeaders h junk
  rw [File.construct] at hf
  cases hs : (readHeaders junk).run s with
  | mk r s' =>
    rw [hs] at hf htwin
    cases r with
    | error e => cases hf
    | ok headers =>
      cases hf
      cases ht : (readHeaders junk).run t with
      | mk r' u =>
        rw [ht] at htwin
        obtain ⟨hr, hu⟩ := htwin
        obtain rfl : r' = .ok headers := hr
        refine ⟨u, hu, ?_⟩
        rw [File.construct, ht]

end

end Gelpp.Pecoff

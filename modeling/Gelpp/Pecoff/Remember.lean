import Gelpp.Pecoff.Names

namespace Gelpp.Pecoff

open FileM Effect

def offsetOf (scan : List UInt8 → Res UInt32) (hd : SectionHeader) : Res UInt32 := do
  let text ← textAt (hd.name.drop 1) 0
  scan text

def File.Looks (f : File) (s : Section) : Prop :=
  s.name = [] ∧ s.hd.name.getD 0 0 = 47 ∧ (∃ n, offsetOf f.scan s.hd = .ok n) ∧ f.stringTable = none

def File.body (f : File) : Option (List UInt8) :=
  (bodyAt f.stream.bytes (f.place % 2 ^ 32)).filter fun body => body.length < 2 ^ 31

def File.stuck (f : File) : File := { f with stream := f.stream.moved f.stream.pos 1 }

def File.Unread (f : File) : Prop := f.Fails 1 ∨ f.stream.bytes.length < f.start + 4

def File.raw (f : File) (hd : SectionHeader) : List UInt8 :=
  cell f.stream.bytes hd.pointerToRawData.toNat hd.sizeOfRawData.toNat

-- The read of the raw data does not throw: the size is an int, and the file has all the bytes or
-- more than the memory.
def File.RawOk (f : File) (hd : SectionHeader) : Prop :=
  hd.sizeOfRawData.toNat < 2 ^ 31 ∧
    (hd.virtualSize.toNat < (f.raw hd).length ∨ (f.raw hd).length = hd.sizeOfRawData.toNat)

section
variable {s : Stream}

theorem streamRead_bytes (s : Stream) (mem : List UInt8) (len : Int) :
    ((Stream.read mem len).run s).2.bytes = s.bytes := by
  rw [Stream.read, get_bind, bind_of_ok (tick_eq s), ite_run]
  split
  · rfl
  · dsimp only
    rw [ite_run]
    split <;> rfl

theorem read_bytes (s : Stream) (mem : List UInt8) (len : Int) :
    ((read mem len).run s).2.bytes = s.bytes := by
  refine bind_keeps (P := fun t : Stream => t.bytes = s.bytes) (streamRead_bytes s mem len) fun x t ht => ?_
  dsimp only
  rw [get_bind, ite_run]
  split
  · exact ht
  · rw [ite_run]
    split <;> exact ht

theorem readRecord_bytes (s : Stream) (size : Nat) : ((readRecord size).run s).2.bytes = s.bytes := by
  refine bind_keeps (P := fun t : Stream => t.bytes = s.bytes) (read_bytes s (.replicate size 0) size) ?_
  rintro ⟨r, mem⟩ t ht
  cases r <;> exact ht

end

def File.tabled (f : File) (t : Stream) (size : UInt32) (table : Option (List UInt8)) : File :=
  { f with stream := t, stringTableSize := size, stringTable := table }

section
variable {f : File} {n : UInt32}

theorem getString_kept {table : List UInt8} (h : f.stringTable = some table) :
    (getString n).run f = (tableText table n, f) := by
  rw [getString, get_bind, h]
  rfl

theorem getString_unread (h : f.stringTable = none) (hu : f.Unread) :
    ∃ m t, (getString n).run f = (.error (.exception m), f.tabled t f.stringTableSize none) ∧
      t.bytes = f.stream.bytes := by
  obtain ⟨m, t, hrun⟩ := readRecord_refused (f.stream.moved f.start 1) 4 (by decide)
    (hu.imp_right fun h => ⟨by omega, h⟩)
  have hbytes := readRecord_bytes (f.stream.moved f.start 1) 4
  rw [hrun] at hbytes
  refine ⟨m, t, ?_, hbytes⟩
  rw [getString_start h, readTable, get_bind,
    bind_of_error (onStream_run (f := { f with stream := f.stream.moved f.start 1 }) hrun), ← h]
  rfl

theorem getString_loaded (h : f.stringTable = none) {body : List UInt8}
    (hbody : f.lookedBody = some body) :
    ∃ t size, (getString n).run f = (tableText body n, f.tabled t size (some body)) ∧
      t.bytes = f.stream.bytes := by
  have hhere : File.bodyHere { f with stream := f.stream.moved f.start 1 } = some body := by
    rw [← hbody, File.lookedBody, h]
    rfl
  have h0 : ¬ File.Fails { f with stream := f.stream.moved f.start 1 } 0 := by
    intro h0
    rw [bodyHere_short (.inl h0)] at hhere
    cases hhere
  by_cases hread : File.Readable { f with stream := f.stream.moved f.start 1 }
  · obtain ⟨t, hbytes, hrun⟩ := readTable_readable h0 hread n
    rw [bodyHere_readable h0 hread, Option.some.injEq] at hhere
    rw [hhere] at hrun
    exact ⟨t, _, (getString_start h).trans hrun, hbytes⟩
  · rw [bodyHere_unreadable hread] at hhere
    cases hhere

theorem readBody_frame (f : File) (mem : List UInt8) (len : Int) (n : UInt32) :
    ∃ r t table, (do
      let (r, table) ← onStream (read mem len)
      modify fun f => { f with stringTable := some table }
      lift r
      lift (tableText table n) : FileM (List UInt8)).run f =
        (r, f.tabled t f.stringTableSize table) ∧ t.bytes = f.stream.bytes := by
  have hbytes := read_bytes f.stream mem len
  cases hrun : (read mem len).run f.stream with
  | mk r t =>
    rw [hrun] at hbytes
    cases r with
    | error e => exact ⟨.error e, t, f.stringTable, bind_of_error (onStream_run hrun), hbytes⟩
    | ok x =>
      obtain ⟨x, table⟩ := x
      rw [bind_of_ok (onStream_run hrun), modify_bind]
      cases x with
      | error e => exact ⟨.error e, t, some table, rfl, hbytes⟩
      | ok u => exact ⟨tableText table n, t, some table, rfl, hbytes⟩

theorem getString_frame (n : UInt32) (h : f.stringTable = none) :
    ∃ r t size table, (getString n).run f = (r, f.tabled t size table) ∧
      t.bytes = f.stream.bytes := by
  by_cases hu : f.Unread
  · obtain ⟨m, t, hrun, hbytes⟩ := getString_unread (n := n) h hu
    exact ⟨_, t, _, _, hrun, hbytes⟩
  have hsized := readTable_sized (f := { f with stream := f.stream.moved f.start 1 }) (n := n)
    (fun h0 => hu (.inl h0)) (Nat.le_of_not_lt fun hshort => hu (.inr hshort))
  obtain ⟨r, t, table, hrun, hbytes⟩ := readBody_frame _ _ _ n
  rw [hrun] at hsized
  exact ⟨r, t, _, table, (getString_start h).trans hsized, hbytes⟩

end

structure Unchanged (b f : File) : Prop where
  headers : f.toHeaders = b.toHeaders
  junk : f.junk = b.junk
  scan : f.scan = b.scan
  bytes : f.stream.bytes = b.stream.bytes
  sects : f.sects.map Section.hd = b.sects.map Section.hd

def plainText (hd : SectionHeader) : Res (List UInt8) :=
  if hd.name.getD 7 0 = 0 then textAt hd.name 0 else .ok hd.name

def File.text (b : File) (hd : SectionHeader) : Option (List UInt8) :=
  if hd.name.getD 0 0 = 47 then
    match offsetOf b.scan hd with
    | .ok n => b.body.bind fun body => (tableText body n).toOption
    | .error _ => none
  else (plainText hd).toOption

theorem tableText_unthrown (mem : List UInt8) (n : UInt32) (m : String) :
    tableText mem n ≠ .error (.exception m) := by
  rw [tableText_eq]
  split <;> nofun

theorem toOption_some {α : Type} {r : Res α} {a : α} : r.toOption = some a ↔ r = .ok a := by
  cases r <;> simp [Except.toOption]

section
variable {b f : File} {s : Section} {i : Nat}

theorem Unchanged.place (h : Unchanged b f) : f.place = b.place := by
  rw [File.place, File.place, h.headers]

theorem Unchanged.body (h : Unchanged b f) : f.body = b.body := by
  rw [File.body, File.body, h.bytes, h.place]

theorem store_self (hs : f.sects[i]? = some s) : f.store i s = f := by
  obtain ⟨hi, hget⟩ := List.getElem?_eq_some_iff.mp hs
  rw [File.store, ← hget, List.set_getElem_self]

theorem findName_offset (h : s.hd.name.getD 0 0 = 47) : (findName s.hd).run f =
    match offsetOf f.scan s.hd with
    | .ok n => (getString n).run f
    | .error e => (.error e, f) := by
  rw [findName, if_pos h, offsetOf]
  cases textAt (s.hd.name.drop 1) 0 with
  | error e => rfl
  | ok text =>
    rw [lift_ok_bind, get_bind, Res.ok_bind]
    cases f.scan text <;> rfl

theorem findName_chars (h : s.hd.name.getD 0 0 ≠ 47) :
    (findName s.hd).run f = (plainText s.hd, f) := by
  rw [findName, if_neg h, plainText]
  split <;> rfl

structure Looked (b f : File) (s : Section) (r : Res (List UInt8)) (table : Option (List UInt8)) :
    Prop where
  found : ∀ text, r = .ok text → b.text s.hd = some text
  known : ∀ t, table = some t → b.body = some t
  thrown : ∀ m, r = .error (.exception m) → table = f.stringTable
  unread : (f.Looks s → f.Unread) → table = f.stringTable

theorem findName_looked (hb : Unchanged b f) (ht : ∀ t, f.stringTable = some t → b.body = some t)
    (hname : s.name = [])
    (hspared : f.Looks s → f.Unread ∨ f.lookedBody.isSome ∧ f.lookedBody = f.body) :
    ∃ r t size table, (findName s.hd).run f = (r, f.tabled t size table) ∧
      t.bytes = f.stream.bytes ∧ Looked b f s r table := by
  by_cases hslash : s.hd.name.getD 0 0 = 47
  · rw [findName_offset hslash]
    cases hoff : offsetOf f.scan s.hd with
    | error e =>
      exact ⟨_, _, _, _, rfl, rfl, nofun, ht, fun _ _ => rfl, fun _ => rfl⟩
    | ok n =>
      have htext (body : List UInt8) (hbody : b.body = some body) (text : List UInt8)
          (h : tableText body n = .ok text) : b.text s.hd = some text := by
        rw [File.text, if_pos hslash, ← hb.scan, hoff, hbody]
        exact toOption_some.mpr h
      cases htable : f.stringTable with
      | some table =>
        refine ⟨_, _, _, _, getString_kept htable, rfl, htext table (ht table htable), ht, ?_, ?_⟩
        · exact fun m h => absurd h (tableText_unthrown table n m)
        · exact fun _ => rfl
      | none =>
        by_cases hu : f.Unread
        · obtain ⟨m, t, hrun, hbytes⟩ := getString_unread (n := n) htable hu
          exact ⟨_, t, _, none, hrun, hbytes, nofun, nofun, fun _ _ => htable.symm,
            fun _ => htable.symm⟩
        have hlooks : f.Looks s := ⟨hname, hslash, ⟨n, hoff⟩, htable⟩
        obtain ⟨hsome, hbody⟩ := (hspared hlooks).resolve_left hu
        obtain ⟨body, hlooked⟩ := Option.isSome_iff_exists.mp hsome
        obtain ⟨t, size, hrun, hbytes⟩ := getString_loaded (n := n) htable hlooked
        have hown : b.body = some body := by rw [← hb.body, ← hbody, hlooked]
        refine ⟨_, t, size, some body, hrun, hbytes, htext body hown, ?_, ?_, ?_⟩
        · rintro _ ⟨⟩
          exact hown
        · exact fun m h => absurd h (tableText_unthrown body n m)
        · exact fun h => absurd (h hlooks) hu
  · rw [findName_chars hslash]
    refine ⟨_, _, _, _, rfl, rfl, fun text h => ?_, ht, fun _ _ => rfl, fun _ => rfl⟩
    rw [File.text, if_neg hslash]
    exact toOption_some.mpr h

structure Named (b f : File) (i : Nat) (s : Section) (x : Res (List UInt8) × File)
    (kept : List UInt8) (table : Option (List UInt8)) : Prop where
  state : ∃ t size, x.2 = (f.store i { s with name := kept }).tabled t size table ∧
    t.bytes = f.stream.bytes
  own : kept ≠ [] → b.text s.hd = some kept
  value : ∀ v, x.1 = .ok v → ∃ text, b.text s.hd = some text ∧ v = text.takeWhile (· ≠ 0)
  known : ∀ t, table = some t → b.body = some t
  thrown : ∀ m, x.1 = .error (.exception m) → table = f.stringTable
  unread : (f.Looks s → f.Unread) → table = f.stringTable

theorem name_named (hs : f.sects[i]? = some s) (hb : Unchanged b f)
    (ht : ∀ t, f.stringTable = some t → b.body = some t)
    (hown : s.name ≠ [] → b.text s.hd = some s.name)
    (hspared : f.Looks s → f.Unread ∨ f.lookedBody.isSome ∧ f.lookedBody = f.body) :
    ∃ kept table, Named b f i s ((name i).run f) kept table := by
  have hself : f = f.store i { s with name := s.name } := (store_self hs).symm
  by_cases hname : s.name = []
  · obtain ⟨r, t, size, table, hrun, hbytes, hlooked⟩ := findName_looked hb ht hname hspared
    cases r with
    | error e =>
      refine ⟨s.name, table, ?_⟩
      rw [name_error hs hname hrun]
      refine ⟨⟨t, size, ?_, hbytes⟩, hown, nofun, hlooked.known, fun m h => ?_, hlooked.unread⟩
      · exact congrArg (File.tabled · t size table) hself
      · exact hlooked.thrown m h
    | ok text =>
      refine ⟨text, table, ?_⟩
      rw [name_looked hs hname, bind_of_ok hrun]
      refine ⟨⟨t, size, rfl, hbytes⟩, fun _ => hlooked.found text rfl, fun v hv => ?_,
        hlooked.known, nofun, hlooked.unread⟩
      cases hv
      exact ⟨text, hlooked.found text rfl, rfl⟩
  · refine ⟨s.name, f.stringTable, ?_⟩
    rw [name_kept hs hname]
    refine ⟨⟨f.stream, f.stringTableSize, hself, rfl⟩, hown, fun v hv => ?_, ht, nofun,
      fun _ => rfl⟩
    cases hv
    exact ⟨s.name, hown hname, rfl⟩

theorem calm_served (hc : f.stream.Calm) (k : Nat) : ¬ f.Fails k := by
  rw [File.Fails, hc]
  exact Bool.false_ne_true

theorem lookedBody_calm (hc : f.stream.Calm) (htable : f.stringTable = none) :
    f.lookedBody = f.body := by
  rw [File.lookedBody, htable]
  dsimp only
  rw [if_neg (not_or.mpr ⟨calm_served hc 1, calm_served hc 2⟩), if_neg (calm_served hc 0)]
  rfl

structure Answered (b f : File) (i : Nat) (s : Section) (x : Res (List UInt8) × File)
    (kept : List UInt8) (table : Option (List UInt8)) : Prop where
  state : ∃ t size, x.2 = (f.store i { s with name := kept }).tabled t size table ∧
    t.bytes = f.stream.bytes
  own : ∀ text, b.text s.hd = some text → kept = [] ∨ kept = text
  value : ∀ text, b.text s.hd = some text → x.1 = .ok (text.takeWhile (· ≠ 0))
  known : ∀ body, b.body = some body → table = none ∨ table = some body

theorem findName_calm (hb : Unchanged b f) (hc : f.stream.Calm)
    (ht : ∀ body, b.body = some body → f.stringTable = none ∨ f.stringTable = some body) :
    ∃ r t size table, (findName s.hd).run f = (r, f.tabled t size table) ∧
      t.bytes = f.stream.bytes ∧ (∀ text, b.text s.hd = some text → r = .ok text) ∧
      ∀ body, b.body = some body → table = none ∨ table = some body := by
  by_cases hslash : s.hd.name.getD 0 0 = 47
  · have htext : b.text s.hd = match offsetOf b.scan s.hd with
        | .ok n => b.body.bind fun body => (tableText body n).toOption
        | .error _ => none := if_pos hslash
    rw [findName_offset hslash, htext, hb.scan]
    cases hoff : offsetOf b.scan s.hd with
    | error e => exact ⟨_, _, _, _, rfl, rfl, nofun, ht⟩
    | ok n =>
      dsimp only
      cases htable : f.stringTable with
      | some table =>
        refine ⟨_, _, _, _, getString_kept htable, rfl, fun text h => ?_, ht⟩
        obtain ⟨body, hbody, hget⟩ := Option.bind_eq_some_iff.mp h
        have hsame := ht body hbody
        rw [htable] at hsame
        cases hsame.resolve_left nofun
        exact toOption_some.mp hget
      | none =>
        cases hbody : b.body with
        | none =>
          obtain ⟨r, t, size, table, hrun, hbytes⟩ := getString_frame n htable
          exact ⟨r, t, size, table, hrun, hbytes, nofun, nofun⟩
        | some body =>
          have hlooked : f.lookedBody = some body := by rw [lookedBody_calm hc htable, hb.body, hbody]
          obtain ⟨t, size, hrun, hbytes⟩ := getString_loaded (n := n) htable hlooked
          refine ⟨_, t, size, _, hrun, hbytes, fun text h => toOption_some.mp h, ?_⟩
          rintro _ ⟨⟩
          exact .inr rfl
  · rw [findName_chars hslash, File.text, if_neg hslash]
    exact ⟨_, _, _, _, rfl, rfl, fun text h => toOption_some.mp h, ht⟩

theorem name_answered (hs : f.sects[i]? = some s) (hb : Unchanged b f) (hc : f.stream.Calm)
    (ht : ∀ body, b.body = some body → f.stringTable = none ∨ f.stringTable = some body)
    (hown : ∀ text, b.text s.hd = some text → s.name = [] ∨ s.name = text) :
    ∃ kept table, Answered b f i s ((name i).run f) kept table := by
  have hself : f = f.store i { s with name := s.name } := (store_self hs).symm
  by_cases hname : s.name = []
  · obtain ⟨r, t, size, table, hrun, hbytes, htext, hknown⟩ := findName_calm (s := s) hb hc ht
    cases r with
    | error e =>
      refine ⟨s.name, table, ?_⟩
      rw [name_error hs hname hrun]
      refine ⟨⟨t, size, congrArg (File.tabled · t size table) hself, hbytes⟩, hown, ?_, hknown⟩
      exact fun text h => nomatch htext text h
    | ok text =>
      refine ⟨text, table, ?_⟩
      rw [name_looked hs hname, bind_of_ok hrun]
      refine ⟨⟨t, size, rfl, hbytes⟩, fun text' h => ?_, fun text' h => ?_, hknown⟩
      · cases htext text' h
        exact .inr rfl
      · cases htext text' h
        rfl
  · refine ⟨s.name, f.stringTable, ?_⟩
    rw [name_kept hs hname]
    refine ⟨⟨f.stream, f.stringTableSize, hself, rfl⟩, hown, fun text h => ?_, ht⟩
    rw [(hown text h).resolve_left hname]

end

namespace File

variable (b : File) (hd : SectionHeader)

def fresh : List UInt8 := (List.range hd.virtualSize.toNat).map b.junk

def kept : List UInt8 :=
  if hd.virtualSize.toNat < (b.raw hd).length then b.fresh hd
  else b.raw hd ++ (b.fresh hd).drop (b.raw hd).length

def outcome : Res (List UInt8) :=
  if hd.virtualSize.toNat < (b.raw hd).length then .error (.fault .bounds)
  else clearRest hd (b.kept hd)

theorem fresh_length : (b.fresh hd).length = hd.virtualSize.toNat := by
  rw [fresh, List.length_map, List.length_range]

theorem kept_length : (b.kept hd).length = hd.virtualSize.toNat := by
  rw [kept]
  split
  · exact b.fresh_length hd
  · rw [List.length_append, List.length_drop, b.fresh_length]
    omega

theorem store_store (f : File) (i : Nat) (s t : Section) : (f.store i s).store i t = f.store i t := by
  simp only [store, List.set_set]

end File

section
variable {b f : File} {s : Section} {i : Nat}

theorem Unchanged.raw (h : Unchanged b f) (hd : SectionHeader) : f.raw hd = b.raw hd := by
  rw [File.raw, File.raw, h.bytes]

theorem Unchanged.kept (h : Unchanged b f) (hd : SectionHeader) : f.kept hd = b.kept hd := by
  rw [File.kept, File.kept, h.raw, File.fresh, File.fresh, h.junk]

theorem Unchanged.outcome (h : Unchanged b f) (hd : SectionHeader) : f.outcome hd = b.outcome hd := by
  rw [File.outcome, File.outcome, h.raw, h.kept]

theorem Unchanged.rawOk (h : Unchanged b f) (hd : SectionHeader) : f.RawOk hd ↔ b.RawOk hd := by
  rw [File.RawOk, File.RawOk, h.raw]

theorem outcome_ok {hd : SectionHeader} {v : List UInt8} (h : b.outcome hd = .ok v) :
    v = b.kept hd := by
  rw [File.outcome] at h
  split at h
  · cases h
  · exact ((clearRest_iff (s := { hd }) (b.kept_length hd)).mp h).2

theorem outcome_unthrown (b : File) (hd : SectionHeader) (m : String) :
    b.outcome hd ≠ .error (.exception m) := by
  rw [File.outcome, clearRest, ImageSegment.clear]
  intro h
  split at h
  · cases h
  · split at h
    · split at h <;> cases h
    · cases h

def File.buffered (f : File) (i : Nat) (s : Section) (buf : Option (List UInt8)) (t : Stream) : File :=
  { f.store i { s with buf } with stream := t }

theorem set_buffered (f : File) (i : Nat) (s : Section) (old : Option (List UInt8))
    (buf : List UInt8) (t : Stream) :
    (FileM.set i { s with buf := some buf }).run (f.buffered i s old t) =
      (.ok (), f.buffered i s (some buf) t) := by
  rw [FileM.set, modify_run, File.buffered, File.buffered]
  exact Prod.ext rfl (congrArg (fun g : File => { g with stream := t }) (File.store_store ..))

theorem buffered_run {α : Type} {m : StreamM α} {r : Res α} {t t' : Stream} {buf : Option (List UInt8)}
    (h : m.run t = (r, t')) :
    (onStream m).run (f.buffered i s buf t) = (r, f.buffered i s buf t') := by
  change ((m.run t).1, f.buffered i s buf (m.run t).2) = _
  rw [h]

def finish (i : Nat) (s : Section) (raw : List UInt8) : FileM (List UInt8) := do
  let buf ← lift (clearRest s.hd raw)
  set i { s with buf := some buf }
  return buf

theorem buffer_fills (hs : f.sects[i]? = some s) (hbuf : s.buf = none) : (buffer i).run f =
    (fillRaw i s (f.fresh s.hd) >>= finish i s).run
      (f.buffered i s (some (f.fresh s.hd)) f.stream) :=
  buffer_start hs hbuf

theorem finish_kept (t : Stream) (hbuf : f.outcome s.hd = clearRest s.hd (f.kept s.hd)) :
    (finish i s (f.kept s.hd)).run (f.buffered i s (some (f.kept s.hd)) t) =
      (f.outcome s.hd, f.buffered i s (some (f.kept s.hd)) t) := by
  rw [hbuf, finish]
  cases hclear : clearRest s.hd (f.kept s.hd) with
  | error e => rfl
  | ok buf =>
    obtain ⟨-, rfl⟩ := (clearRest_iff (f.kept_length s.hd)).mp hclear
    rw [lift_ok_bind, bind_of_ok (set_buffered ..)]
    rfl

theorem readRaw_read (hraw : f.RawOk s.hd) (hzero : s.hd.sizeOfRawData ≠ 0) (h0 : ¬ f.Fails 0)
    (h1 : ¬ f.Fails 1) :
    ∃ t, t.bytes = f.stream.bytes ∧
      (readRaw i s (f.fresh s.hd)).run (f.buffered i s (some (f.fresh s.hd)) f.stream) =
        (if s.hd.virtualSize.toNat < (f.raw s.hd).length then .error (.fault .bounds)
          else .ok (f.kept s.hd), f.buffered i s (some (f.kept s.hd)) t) := by
  have hmove := moveTo_served (s := f.stream) (Bool.not_eq_true _ ▸ h0) s.hd.pointerToRawData.toNat
  have hnext : (f.stream.moved s.hd.pointerToRawData.toNat 1).fails
      (f.stream.moved s.hd.pointerToRawData.toNat 1).count = false := Bool.not_eq_true _ ▸ h1
  rw [readRaw, bind_of_ok (buffered_run hmove), if_pos rfl, File.kept]
  by_cases hlong : s.hd.virtualSize.toNat < (f.raw s.hd).length
  · rw [← f.fresh_length] at hlong
    have hread : (read (f.fresh s.hd) (toInt s.hd.sizeOfRawData.toNat)).run
        (f.stream.moved s.hd.pointerToRawData.toNat 1) = _ :=
      read_long hnext
        (by rw [moved_bytes, moved_pos, delivered_toInt s.hd.sizeOfRawData.toNat_lt]; exact hlong)
    rw [← f.fresh_length, if_pos hlong, if_pos hlong,
      bind_of_error (buffered_run hread)]
    exact ⟨(f.stream.moved s.hd.pointerToRawData.toNat 1).moved s.hd.pointerToRawData.toNat 1, rfl,
      rfl⟩
  · have hlen := hraw.2.resolve_left hlong
    have hpos : 0 < s.hd.sizeOfRawData.toNat :=
      Nat.pos_of_ne_zero fun h => hzero (UInt32.toNat_inj.mp h)
    have hbytes : s.hd.pointerToRawData.toNat + s.hd.sizeOfRawData.toNat ≤
        f.stream.bytes.length := by
      rw [File.raw, cell, List.length_take, List.length_drop] at hlen
      omega
    have hfit : s.hd.sizeOfRawData.toNat ≤ (f.fresh s.hd).length := by
      rw [f.fresh_length]
      omega
    have hread := read_served hnext hraw.1 hfit hbytes
    rw [← toInt_small hraw.1] at hread
    rw [if_neg hlong, if_neg hlong, bind_of_ok (buffered_run hread), hlen]
    dsimp only
    rw [bind_of_ok (set_buffered ..)]
    exact ⟨(f.stream.moved s.hd.pointerToRawData.toNat 1).moved
      (s.hd.pointerToRawData.toNat + s.hd.sizeOfRawData.toNat) 1, rfl, rfl⟩

theorem buffer_read (hs : f.sects[i]? = some s) (hbuf : s.buf = none) (hraw : f.RawOk s.hd)
    (hserved : s.hd.sizeOfRawData ≠ 0 → ¬ f.Fails 0 ∧ ¬ f.Fails 1) :
    ∃ t, (buffer i).run f = (f.outcome s.hd, f.buffered i s (some (f.kept s.hd)) t) ∧
      t.bytes = f.stream.bytes := by
  rw [buffer_fills hs hbuf]
  by_cases hzero : s.hd.sizeOfRawData ≠ 0
  · obtain ⟨h0, h1⟩ := hserved hzero
    obtain ⟨t, hbytes, hrun⟩ := readRaw_read (i := i) hraw hzero h0 h1
    refine ⟨t, ?_, hbytes⟩
    rw [fillRaw, if_pos hzero]
    by_cases hlong : s.hd.virtualSize.toNat < (f.raw s.hd).length
    · rw [if_pos hlong] at hrun
      rw [bind_of_error hrun, File.outcome, if_pos hlong]
    · rw [if_neg hlong] at hrun
      rw [bind_of_ok hrun]
      exact finish_kept t (if_neg hlong)
  · have hnil : f.raw s.hd = [] := by
      rw [File.raw, not_not.mp hzero]
      rfl
    have hshort : ¬ s.hd.virtualSize.toNat < (f.raw s.hd).length := by
      rw [hnil]
      exact Nat.not_lt_zero _
    have hkept : f.kept s.hd = f.fresh s.hd := by
      rw [File.kept, if_neg hshort, hnil]
      rfl
    refine ⟨f.stream, ?_, rfl⟩
    rw [fillRaw, if_neg hzero, Effect.pure_bind, ← hkept]
    exact finish_kept f.stream (if_neg hshort)

theorem readRaw_frame (h0 : ¬ f.Fails 0) (old : List UInt8) :
    ∃ r buf t, (readRaw i s old).run (f.buffered i s (some old) f.stream) =
      (r, f.buffered i s (some buf) t) ∧ t.bytes = f.stream.bytes := by
  have hmove := moveTo_served (s := f.stream) (Bool.not_eq_true _ ▸ h0) s.hd.pointerToRawData.toNat
  have hbytes := read_bytes (f.stream.moved s.hd.pointerToRawData.toNat 1) old
    (toInt s.hd.sizeOfRawData.toNat)
  rw [readRaw, bind_of_ok (buffered_run hmove), if_pos rfl]
  cases hread : (read old (toInt s.hd.sizeOfRawData.toNat)).run
      (f.stream.moved s.hd.pointerToRawData.toNat 1) with
  | mk r t =>
    rw [hread] at hbytes
    cases r with
    | error e => exact ⟨_, old, t, bind_of_error (buffered_run hread), hbytes⟩
    | ok x =>
      obtain ⟨r, buf⟩ := x
      rw [bind_of_ok (buffered_run hread)]
      dsimp only
      rw [bind_of_ok (set_buffered ..)]
      cases r with
      | error e => exact ⟨_, buf, t, rfl, hbytes⟩
      | ok u => exact ⟨_, buf, t, rfl, hbytes⟩

theorem buffer_frame (hs : f.sects[i]? = some s) (hbuf : s.buf = none)
    (hzero : s.hd.sizeOfRawData ≠ 0) (h0 : ¬ f.Fails 0) :
    ∃ r buf t, (buffer i).run f = (r, f.buffered i s (some buf) t) ∧ t.bytes = f.stream.bytes := by
  obtain ⟨r, buf, t, hrun, hbytes⟩ := readRaw_frame (i := i) (s := s) h0 (f.fresh s.hd)
  rw [buffer_fills hs hbuf, fillRaw, if_pos hzero]
  cases r with
  | error e => exact ⟨_, buf, t, bind_of_error hrun, hbytes⟩
  | ok raw =>
    rw [bind_of_ok hrun, finish]
    cases clearRest s.hd raw with
    | error e => exact ⟨_, buf, t, rfl, hbytes⟩
    | ok buf' =>
      rw [lift_ok_bind, bind_of_ok (set_buffered ..)]
      exact ⟨_, buf', t, rfl, hbytes⟩

theorem buffer_unmoved (hs : f.sects[i]? = some s) (hbuf : s.buf = none)
    (hzero : s.hd.sizeOfRawData ≠ 0) (h0 : f.Fails 0) :
    ∃ e, (buffer i).run f = (.error e, ((name i).run f.stuck).2) := by
  have hmove := moveTo_failed (s := f.stream) h0 s.hd.pointerToRawData.toNat
  have hback : (f.buffered i s (some (f.fresh s.hd)) (f.stream.moved f.stream.pos 1)).store i
      { s with buf := none } = f.stuck := by
    have hsame : ({ s with buf := none } : Section) = s := by
      rw [← hbuf]
    have hstore : (f.store i { s with buf := some (f.fresh s.hd) }).store i s = f :=
      (File.store_store ..).trans (store_self hs)
    rw [hsame]
    exact congrArg File.stuck hstore
  have hrun : (readRaw i s (f.fresh s.hd)).run (f.buffered i s (some (f.fresh s.hd)) f.stream) =
      (name i >>= fun text => raise (badPointer text) : FileM (List UInt8)).run f.stuck := by
    rw [readRaw, bind_of_ok (buffered_run hmove), if_neg Bool.false_ne_true, FileM.set, modify_bind,
      hback]
  rw [buffer_fills hs hbuf, fillRaw, if_pos hzero]
  cases hname : (name i).run f.stuck with
  | mk r g =>
    cases r with
    | error e => exact ⟨e, bind_of_error (hrun.trans (bind_of_error hname))⟩
    | ok text => exact ⟨badPointer text, bind_of_error (hrun.trans (bind_of_ok hname))⟩

end

end Gelpp.Pecoff

import Gelpp.Elf.UnixBuilder

namespace Gelpp.Elf

abbrev SearchPath := List UInt8

def text (cs : List Char) : List UInt8 := cs.map fun c => .ofNat c.toNat

def colon : UInt8 := 58
def equals : UInt8 := 61

def ldLibraryPath : List UInt8 :=
  text ['L', 'D', '_', 'L', 'I', 'B', 'R', 'A', 'R', 'Y', '_', 'P', 'A', 'T', 'H']

-- The name as the constructor writes it.
def ldLibaryPath : List UInt8 :=
  text ['L', 'D', '_', 'L', 'I', 'B', 'A', 'R', 'Y', '_', 'P', 'A', 'T', 'H']

def libPath : SearchPath := text ['/', 'l', 'i', 'b']
def usrLibPath : SearchPath := text ['/', 'u', 's', 'r', '/', 'l', 'i', 'b']

structure PathParameter extends UnixParameter where
  libPaths : List SearchPath := []
  isLinux : Bool := true
  noDefaultPath : Bool := false
  abi : String := "gen"

namespace UnixBuilder

def getenv (env : List (List UInt8)) (name : List UInt8) : List UInt8 :=
  match env.find? fun e =>
      name.isPrefixOf e && decide (name.length + 1 ≤ e.length) && e.getD name.length 0 == equals with
  | some e => e.drop (name.length + 1)
  | none => []

structure Splitting where
  lpaths : List SearchPath
  llp : List UInt8

def Splitting.more (s : Splitting) : Bool := s.llp.contains colon

def Splitting.body (s : Splitting) : Res Splitting :=
  let i := s.llp.idxOf colon
  .ok { lpaths := s.lpaths ++ [s.llp.take i], llp := s.llp.drop (i + 1) }

def splitPaths (llp : List UInt8) : Res (List SearchPath) := do
  let s ← Loop.run .steps Splitting.more Splitting.body (llp.length + 1) { lpaths := [], llp }
  return s.lpaths ++ [s.llp]

def defaultPaths (u : PathParameter) : List SearchPath :=
  if u.noDefaultPath then [] else (if u.isLinux then [libPath] else []) ++ [usrLibPath]

structure Prog where
  elf : Bool
  program : Bool

def searchPaths (prog : Prog) (params : PathParameter) : Res (List SearchPath) := do
  let u : PathParameter := if params.abi = unixAbi then params else {}
  if ¬ prog.elf then .error (.fault .assertion)
  else if ¬ prog.program then .error (.fault .assertion)
  else
    let lpaths ← splitPaths (getenv u.env ldLibaryPath)
    return lpaths ++ u.libPaths ++ defaultPaths u

def firstValue (env : List (List UInt8)) (name : List UInt8) : Option (List UInt8) :=
  (env.find? (name ++ [equals]).isPrefixOf).map fun e => e.drop (name.length + 1)

def asked (p : PathParameter) : List SearchPath :=
  ((firstValue p.env ldLibraryPath).map (List.splitOn colon)).getD [] ++ p.libPaths ++ defaultPaths p

section
variable {env : List (List UInt8)} {name : List UInt8}

theorem isPrefixOf_entry (name e : List UInt8) : (name ++ [equals]).isPrefixOf e =
    (name.isPrefixOf e && decide (name.length + 1 ≤ e.length) && e.getD name.length 0 == equals) := by
  induction name generalizing e with
  | nil =>
    cases e with
    | nil => rfl
    | cons b e => simp [List.isPrefixOf, eq_comm, beq_eq_decide]
  | cons a name ih =>
    cases e with
    | nil => rfl
    | cons b e =>
      rw [List.cons_append, List.isPrefixOf_cons_cons, ih, List.isPrefixOf_cons_cons]
      simp [Bool.and_assoc]

theorem getenv_eq (env : List (List UInt8)) (name : List UInt8) :
    getenv env name = (firstValue env name).getD [] := by
  have hpred : (name ++ [equals]).isPrefixOf = fun e =>
      name.isPrefixOf e && decide (name.length + 1 ≤ e.length) && e.getD name.length 0 == equals :=
    funext (isPrefixOf_entry name)
  rw [getenv, firstValue, ← hpred]
  cases env.find? (name ++ [equals]).isPrefixOf <;> rfl

-- The induction is on the fuel: a turn takes one component off what is left.
theorem split_run {n : Nat} (lpaths : List SearchPath) {llp : List UInt8} (hn : llp.length < n) :
    ∃ s, Loop.run .steps Splitting.more Splitting.body n { lpaths, llp } = .ok s ∧
      s.lpaths ++ [s.llp] = lpaths ++ llp.splitOn colon := by
  induction n generalizing lpaths llp with
  | zero => omega
  | succ n ih =>
    by_cases hmem : colon ∈ llp
    · obtain ⟨as, bs, rfl, has⟩ := List.eq_append_cons_of_mem hmem
      have hidx : (as ++ colon :: bs).idxOf colon = as.length := by
        rw [List.idxOf_append_of_notMem has, List.idxOf_cons_self, Nat.add_zero]
      have hstep : Loop.Step Splitting.more Splitting.body { lpaths, llp := as ++ colon :: bs }
          { lpaths := lpaths ++ [as], llp := bs } := by
        refine ⟨List.contains_iff_mem.mpr hmem, ?_⟩
        rw [Splitting.body]
        simp only [hidx, List.take_left]
        rw [← List.drop_drop, List.drop_left]
        rfl
      have hlen : bs.length < n := by
        rw [List.length_append, List.length_cons] at hn
        omega
      obtain ⟨s, hs, hpaths⟩ := ih _ hlen
      refine ⟨s, (Loop.run_ok hstep).trans hs, ?_⟩
      rw [hpaths, List.splitOn_append_cons_self_of_not_mem has, List.append_assoc,
        List.singleton_append]
    · refine ⟨_, Loop.run_done (by simpa [Splitting.more] using hmem), ?_⟩
      rw [List.splitOn_eq_singleton hmem]

theorem splitPaths_eq (llp : List UInt8) : splitPaths llp = .ok (llp.splitOn colon) := by
  obtain ⟨s, hs, hpaths⟩ := split_run [] (Nat.lt_succ_self llp.length)
  rw [splitPaths, hs, Res.ok_bind, hpaths]
  rfl

theorem splitOn_inj {xs ys : List UInt8} (h : xs.splitOn colon = ys.splitOn colon) : xs = ys := by
  have hxs : [colon].intercalate (xs.splitOn colon) = xs := List.intercalate_splitOn colon
  rw [← hxs, h, List.intercalate_splitOn]

end

section
variable {prog : Prog} {p : PathParameter}

theorem searchPaths_unix (helf : prog.elf) (hprog : prog.program) (h : p.abi = unixAbi) :
    searchPaths prog p =
      .ok ((getenv p.env ldLibaryPath).splitOn colon ++ p.libPaths ++ defaultPaths p) := by
  rw [searchPaths, if_pos h]
  simp only [helf, hprog, not_true_eq_false, if_false, splitPaths_eq, Res.ok_bind]
  rfl

theorem searchPaths_null (helf : prog.elf) (hprog : prog.program) (h : p.abi ≠ unixAbi) :
    searchPaths prog p = .ok [[], libPath, usrLibPath] := by
  rw [searchPaths, if_neg h]
  simp only [helf, hprog, not_true_eq_false, if_false, splitPaths_eq, Res.ok_bind]
  rfl

theorem search_paths_iff (helf : prog.elf) (hprog : prog.program) :
    searchPaths prog p = .ok (asked p) ↔
      if p.abi = unixAbi then firstValue p.env ldLibraryPath = some (getenv p.env ldLibaryPath)
      else asked p = [[], libPath, usrLibPath] := by
  by_cases h : p.abi = unixAbi
  · rw [if_pos h, searchPaths_unix helf hprog h, Except.ok.injEq, asked, List.append_assoc,
      List.append_assoc, List.append_cancel_right_eq]
    cases hfirst : firstValue p.env ldLibraryPath with
    | none => exact iff_of_false (List.splitOn_ne_nil _ _) nofun
    | some v =>
      rw [Option.map_some, Option.getD_some, Option.some.injEq]
      constructor
      · exact fun heq => (splitOn_inj heq).symm
      · exact fun heq => congrArg _ heq.symm
  · rw [if_neg h, searchPaths_null helf hprog h, Except.ok.injEq]
    exact eq_comm

end

def program : Prog := { elf := true, program := true }

def onePath : SearchPath := text ['/', 'a']
def otherPath : SearchPath := text ['/', 'b']

def twoPaths : List UInt8 := onePath ++ colon :: otherPath

theorem splitOn_twoPaths : twoPaths.splitOn colon = [onePath, otherPath] :=
  Except.ok.inj ((splitPaths_eq twoPaths).symm.trans (by decide +kernel))

def bothNames : PathParameter where
  env := [ldLibraryPath ++ equals :: twoPaths, ldLibaryPath ++ equals :: twoPaths]
  abi := unixAbi

theorem search_paths_both : searchPaths program bothNames = .ok (asked bothNames) := by
  have hunix : bothNames.abi = unixAbi := rfl
  refine (search_paths_iff rfl rfl).mpr ?_
  rw [if_pos hunix]
  decide +kernel

-- The parameters of the library, and those of a class that answers unix_abi.
def rightName (abi : String) : PathParameter where
  env := [ldLibraryPath ++ equals :: twoPaths]
  abi := abi

theorem asked_rightName (abi : String) :
    asked (rightName abi) = [onePath, otherPath, libPath, usrLibPath] := by
  have hvalue : firstValue [ldLibraryPath ++ equals :: twoPaths] ldLibraryPath = some twoPaths := by
    decide +kernel
  have hentry : firstValue (rightName abi).env ldLibraryPath = some twoPaths := hvalue
  rw [asked, hentry, Option.map_some, splitOn_twoPaths]
  rfl

theorem search_paths_missed :
    searchPaths program (rightName "gen") ≠ .ok (asked (rightName "gen")) ∧
    searchPaths program (rightName unixAbi) ≠ .ok (asked (rightName unixAbi)) := by
  rw [asked_rightName, asked_rightName]
  constructor
  · rw [searchPaths_null rfl rfl (by decide)]
    decide
  · have hvalue : getenv (rightName unixAbi).env ldLibaryPath = [] := by decide +kernel
    rw [searchPaths_unix rfl rfl rfl, hvalue, List.splitOn_nil]
    decide

end UnixBuilder

end Gelpp.Elf

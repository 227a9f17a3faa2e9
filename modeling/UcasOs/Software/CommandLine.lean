import UcasOs.Software.Shell

/-!
# How a line is split

`separate` answers -1 when there is no space, and `parse_commend` compares the
answer with the length of the line.  So a line without a space is cut before
its first byte, and becomes its own argument.
-/

namespace UcasOs.Software

open UcasOs.Foundation UcasOs.Libs UcasOs.Drivers

/-- What has been typed. -/
def Shell.line (sh : Shell) : List UInt8 := (List.ofFn sh.inputBuffer).take sh.bufferIndex

/-- The name that a call hands to the file system. -/
def Call.name : Call → Arg
  | .mkdir s | .rmdir s | .cd s | .touch s | .fopen s _ => s
  | _ => none

/-- The line is split at its first space. -/
structure Splits (sh : Shell) : Prop where
  argument : ∀ word rest, sh.line = word ++ space :: rest → space ∉ word →
    (splitCommend sh.entered).2 = ⟨word, some rest, atoi rest⟩
  none : space ∉ sh.line →
    (splitCommend sh.entered).2.commendPart = sh.line ∧
    (splitCommend sh.entered).2.argInt = 0 ∧
    ∀ rounds header call, (parseCommend rounds header sh.entered).2.Makes call →
      call.name ≠ some sh.line
  inside : (splitCommend sh.entered).1.outside = sh.outside

/-! ## The editor -/

/-- The bytes of the line are keys, and there is room for the zero behind them. -/
structure Typed (sh : Shell) : Prop where
  length : sh.bufferIndex ≤ 57
  nonzero : ∀ i : Fin screenWidth, i.val < sh.bufferIndex → sh.inputBuffer i ≠ 0

variable {sh sh' : Shell} {c : UInt8}

theorem Shell.store_inside (sh : Shell) {k : Nat} (hk : k < screenWidth) (c : UInt8) :
    sh.store k c = { sh with inputBuffer := Function.update sh.inputBuffer ⟨k, hk⟩ c } :=
  dif_pos ⟨Int.natCast_nonneg k, hk⟩

theorem typed_boot : Typed Shell.boot :=
  ⟨Nat.zero_le _, fun _ hi => absurd hi (Nat.not_lt_zero _)⟩

/-- A key at the end of the line. -/
theorem Typed.append (h : Typed sh) (hless : sh.bufferIndex < 57) (hc : c ≠ 0) :
    Typed { sh.store sh.bufferIndex c with bufferIndex := sh.bufferIndex + 1 } := by
  have hk : sh.bufferIndex < screenWidth := by
    show _ < 75
    omega
  rw [sh.store_inside hk]
  refine ⟨hless, fun i hi => ?_⟩
  change i.val < sh.bufferIndex + 1 at hi
  change Function.update sh.inputBuffer ⟨sh.bufferIndex, hk⟩ c i ≠ 0
  rw [Function.update_apply]
  split
  case isTrue => exact hc
  case isFalse hne =>
      refine h.nonzero i (Nat.lt_of_le_of_ne (Nat.le_of_lt_succ hi) fun heq => hne ?_)
      exact Fin.ext heq

theorem Typed.step (h : Typed sh) (hstep : swShell.step sh c sh') : Typed sh' := by
  have hlength := h.length
  simp only [swShell] at hstep
  split at hstep
  case isTrue =>
      rw [hstep]
      exact h
  case isFalse hzero =>
      split at hstep
      case isTrue =>
          obtain ⟨inputBuffer, rfl⟩ := hstep
          exact ⟨Nat.zero_le _, fun _ hi => absurd hi (Nat.not_lt_zero _)⟩
      case isFalse =>
          split at hstep
          case isTrue =>
              subst hstep
              exact ⟨by show _ - 1 ≤ _; omega, fun i hi => h.nonzero i (Nat.lt_of_lt_of_le hi
                (Nat.sub_le _ _))⟩
          case isFalse =>
              split at hstep
              case isTrue =>
                  have hempty : Typed { sh with bufferIndex := 0 } :=
                    ⟨Nat.zero_le _, fun _ hi => absurd hi (Nat.not_lt_zero _)⟩
                  rw [hstep]
                  exact hempty.append (show 0 < 57 by decide) hzero
              case isFalse hfull =>
                  have hfull' : sh.bufferIndex ≠ 57 := hfull
                  rw [hstep]
                  exact h.append (by omega) hzero

/-! ## Strings in the buffer -/

theorem ofFn_update {n : Nat} (b : Bytes n) {k : Nat} (hk : k < n) (c : UInt8) :
    List.ofFn (Function.update b ⟨k, hk⟩ c) = (List.ofFn b).set k c := by
  apply List.ext_getElem
  · simp
  · intro j hj _
    rw [List.getElem_ofFn, List.getElem_set, Function.update_apply, List.getElem_ofFn]
    simp only [Fin.ext_iff, eq_comm]

/-- The buffer when the line has been ended. -/
theorem Typed.entered (h : Typed sh) :
    sh.entered.bufferIndex = sh.bufferIndex ∧ sh.entered.outside = sh.outside ∧
      ∃ rest, List.ofFn sh.entered.inputBuffer = sh.line ++ 0 :: rest := by
  have hlength := h.length
  have hk : sh.bufferIndex < screenWidth := by
    show _ < 75
    omega
  rw [Shell.entered, sh.store_inside hk]
  refine ⟨rfl, rfl, (List.ofFn sh.inputBuffer).drop (sh.bufferIndex + 1), ?_⟩
  rw [ofFn_update, List.set_eq_take_append_cons_drop, if_pos (by rwa [List.length_ofFn])]
  rfl

theorem Typed.zero_notMem (h : Typed sh) : 0 ∉ sh.line := by
  intro hmem
  obtain ⟨j, hj, hget⟩ := List.getElem_of_mem hmem
  rw [Shell.line, List.length_take] at hj
  simp only [Shell.line, List.getElem_take, List.getElem_ofFn] at hget
  exact h.nonzero _ (by show j < _; omega) hget

theorem Typed.length_line (h : Typed sh) : sh.line.length = sh.bufferIndex := by
  have hlength := h.length
  rw [Shell.line, List.length_take, List.length_ofFn, screenWidth]
  omega

theorem Typed.string_entered (h : Typed sh) : sh.entered.string 0 = sh.line := by
  obtain ⟨-, -, rest, hbuffer⟩ := h.entered
  rw [Shell.string, hbuffer]
  exact untilZero_append_zero h.zero_notMem rest

/-! ## Lines with and without a space -/

theorem Typed.splitCommend_space (h : Typed sh) {word rest : List UInt8}
    (hline : sh.line = word ++ space :: rest) (hword : space ∉ word) :
    (splitCommend sh.entered).2 = ⟨word, some rest, atoi rest⟩ ∧
      (splitCommend sh.entered).1.outside = sh.outside := by
  obtain ⟨hindex, houtside, tail, hbuffer⟩ := h.entered
  have hlength := h.length_line
  have hshort := h.length
  have hzero := h.zero_notMem
  rw [hline, List.length_append, List.length_cons] at hlength
  rw [hline, List.mem_append, List.mem_cons, not_or, not_or] at hzero
  have hk : word.length < screenWidth := by
    show _ < 75
    omega
  have hsep : separate (sh.entered.string 0) space = some word.length := by
    rw [h.string_entered, hline, separate_append hword]
  have hcut : List.ofFn (sh.entered.store word.length 0).inputBuffer =
      word ++ 0 :: (rest ++ 0 :: tail) := by
    rw [Shell.store_inside _ hk, ofFn_update, hbuffer, hline]
    simp
  have hword' : (sh.entered.store word.length 0).string 0 = word := by
    rw [Shell.string, hcut]
    exact untilZero_append_zero hzero.1 _
  have hrest : (sh.entered.store word.length 0).string ((word.length : Int) + 1) = rest := by
    rw [Shell.string, hcut, show ((word.length : Int) + 1).toNat = word.length + 1 by omega,
      List.append_cons, List.drop_left' (by simp)]
    exact untilZero_append_zero hzero.2.2 tail
  have hne : (word.length : Int) ≠ (sh.entered.bufferIndex : Int) := by
    rw [hindex]
    omega
  simp only [splitCommend, hsep, if_pos hne, hword', hrest, true_and]
  rw [Shell.store_inside _ hk]
  exact houtside

theorem Typed.splitCommend_none (h : Typed sh) (hline : space ∉ sh.line) :
    (splitCommend sh.entered).1.outside = sh.outside ++ [-1] := by
  obtain ⟨hindex, houtside, -⟩ := h.entered
  have hsep : separate (sh.entered.string 0) space = none := by
    rw [h.string_entered, separate_none hline]
  have hne : (-1 : Int) ≠ (sh.entered.bufferIndex : Int) := by omega
  simp only [splitCommend, hsep, if_pos hne]
  rw [Shell.store, dif_neg (by decide), houtside]

/-- A line is split correctly exactly when it has a space. -/
theorem splits_iff {keys : List UInt8} {sh : Shell} (run : swShell.Run Shell.boot keys sh) :
    Splits sh ↔ space ∈ sh.line := by
  have h : Typed sh := run.invariant (fun _ _ _ hs hstep => hs.step hstep) typed_boot
  constructor
  · intro hsplits
    by_contra hnone
    have houtside := hsplits.inside
    rw [h.splitCommend_none hnone] at houtside
    simp at houtside
  · intro hspace
    refine ⟨fun word rest hline hword => (h.splitCommend_space hline hword).1,
      fun hnone => absurd hspace hnone, ?_⟩
    obtain ⟨word, rest, hline, hword⟩ := List.eq_append_cons_of_mem hspace
    exact (h.splitCommend_space hline hword).2

/-- A key that goes to the line. -/
def Plain (c : UInt8) : Prop := c ≠ 0 ∧ ¬ (c = 10 ∨ c = 13) ∧ ¬ (c = 8 ∨ c = 127)

instance (c : UInt8) : Decidable (Plain c) := inferInstanceAs (Decidable (_ ∧ _ ∧ _))

def Shell.type (sh : Shell) (c : UInt8) : Shell :=
  { sh.store sh.bufferIndex c with bufferIndex := sh.bufferIndex + 1 }

theorem swShell_type (hc : Plain c) (hroom : sh.bufferIndex < 57) :
    swShell.step sh c (sh.type c) := by
  have hindex : sh.bufferIndex ≠ screenWidth - prefixLength := by
    show _ ≠ 57
    omega
  simp only [swShell, if_neg hc.1, if_neg hc.2.1, if_neg hc.2.2, if_neg hindex]
  rfl

theorem swShell_run (sh : Shell) (keys : List UInt8) (hkeys : ∀ c ∈ keys, Plain c)
    (hroom : sh.bufferIndex + keys.length ≤ 57) :
    swShell.Run sh keys (keys.foldl Shell.type sh) := by
  induction keys generalizing sh with
  | nil => exact .nil sh
  | cons c keys ih =>
      rw [List.length_cons] at hroom
      have hrest := ih (sh.type c) (fun c hc => hkeys c (List.mem_cons_of_mem _ hc))
        (by show sh.bufferIndex + 1 + _ ≤ 57; omega)
      exact (Lts.Run.single (swShell_type (hkeys c (List.mem_cons_self ..)) (by omega))).append
        hrest

/-- `cd a` is typed. -/
def cdKeys : List UInt8 := [0x63, 0x64, 0x20, 0x61]

theorem splits_cd : ∃ sh, swShell.Run Shell.boot cdKeys sh ∧ Splits sh := by
  have run := swShell_run Shell.boot cdKeys (by decide +kernel) (by decide)
  exact ⟨_, run, (splits_iff run).mpr (by decide)⟩

/-- `mkdir` is typed. -/
def mkdirKeys : List UInt8 := [0x6d, 0x6b, 0x64, 0x69, 0x72]

/-- The byte before `input_buffer` is overwritten. -/
theorem splits_not_mkdir :
    ¬ ∀ (keys : List UInt8) (sh : Shell), swShell.Run Shell.boot keys sh → Splits sh := by
  intro hall
  have run := swShell_run Shell.boot mkdirKeys (by decide +kernel) (by decide)
  have hinside := (hall mkdirKeys _ run).inside
  exact absurd hinside (by decide)

end UcasOs.Software

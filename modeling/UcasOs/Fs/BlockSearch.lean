import UcasOs.Foundation.Run
import UcasOs.Fs.FileData

/-!
# The search for a free block

`darray_alloc` looks for a free block from the cached map sector on and never
goes back, and `darray_free` makes the sector of its block the cached one.  A
free block is found again unless a block behind it was freed after it.
-/

namespace UcasOs.Fs

open UcasOs.Foundation UcasOs.Libs

/-! ## What a search has seen -/

theorem bitOf_lt_scanWord {n : Nat} {t : UInt32} {j : Nat} (hj : j < scanWord n t) :
    bitOf t j = true := by
  induction n generalizing t j with
  | zero => cases hj
  | succ n ih =>
      rw [scanWord] at hj
      split at hj
      case isTrue hone =>
          cases j with
          | zero => exact (bitOf_low t).mp hone
          | succ j =>
              rw [← bitOf_shift]
              exact ih (Nat.lt_of_succ_lt_succ hj)
      case isFalse => cases hj

/-- Below the first zero of its word a bit is set. -/
theorem mem_of_scanWord {m : Bitmap 128} {k : Nat} (hk : k < 4096)
    (h : k % 32 < scanWord 32 (m (Fin.ofNat 128 (k / 32)))) : m.mem k = true := by
  have hmem := Bitmap.mem_word m (Fin.ofNat 128 (k / 32)) (show k % 32 < 32 by omega)
  have hk' : (Fin.ofNat 128 (k / 32)).val * 32 + k % 32 = k := by
    simp only [Fin.ofNat]
    omega
  rw [hk'] at hmem
  rw [hmem, bitOf_lt_scanWord h]

theorem scanMap_none {m : Bitmap 128} (h : scanMap m = none) {k : Nat} (hk : k < 4096) :
    m.mem k = true := by
  rw [scanMap, Option.map_eq_none_iff, List.find?_eq_none] at h
  have hword := h (Fin.ofNat 128 (k / 32)) (List.mem_finRange _)
  simp only [decide_eq_true_eq, not_not] at hword
  refine mem_of_scanWord hk ?_
  rw [hword]
  omega

/-- The search ends at the first zero. -/
theorem scanMap_least {m : Bitmap 128} {i : Fin 128} {j k : Nat} (h : scanMap m = some (i, j))
    (hk : k < i * 32 + j) : m.mem k = true := by
  have hj := (scanMap_some h).1
  rw [scanMap, Option.map_eq_some_iff] at h
  obtain ⟨i', hfind, heq⟩ := h
  obtain ⟨rfl, rfl⟩ := Prod.mk.inj heq
  obtain ⟨-, n, hn, hget, hbefore⟩ := List.find?_eq_some_iff_getElem.mp hfind
  have hval : i'.val = n := by
    rw [← hget, List.getElem_finRange]
    rfl
  refine mem_of_scanWord (by omega) ?_
  by_cases hword : k / 32 = i'.val
  · have hfin : Fin.ofNat 128 (k / 32) = i' := by
      apply Fin.ext
      simp only [Fin.ofNat]
      omega
    rw [hfin]
    omega
  · have hfull := hbefore (k / 32) (by omega)
    have hlength : k / 32 < (List.finRange 128).length := by
      rw [List.length_finRange]
      omega
    have hfin : (List.finRange 128)[k / 32] = Fin.ofNat 128 (k / 32) := by
      rw [List.getElem_finRange]
      apply Fin.ext
      simp only [Fin.ofNat, Fin.cast_mk]
      omega
    rw [hfin] at hfull
    simp only [ne_eq, decide_not, Bool.not_not, decide_eq_true_eq] at hfull
    rw [hfull]
    omega

variable {σ σ' : FsState} {d : Nat}

/-- The cached sector has no free bit. -/
theorem Cached.used_of_scanMap (h : Cached σ) (hlt : σ.smapIndex < 256)
    (hscan : scanMap σ.smap = none) {e : Nat} (he : e / 4096 = σ.smapIndex) :
    (volume σ.disk).used e = true := by
  rw [Volume.used, he, h.smap hlt]
  exact scanMap_none hscan (by omega)

theorem darrayAllocLoop_search {fuel : Nat} (h : Cached σ) (hfuel : fuel = 256 - σ.smapIndex)
    (hrun : darrayAllocLoop fuel σ = (σ', some d)) :
    σ.smapIndex ≤ d / 4096 ∧ σ'.smapIndex = d / 4096 ∧
      ∀ e, σ.smapIndex ≤ e / 4096 → e / 4096 < d / 4096 → (volume σ.disk).used e = true := by
  induction fuel generalizing σ with
  | zero => cases hrun
  | succ fuel ih =>
      have hlt : σ.smapIndex < 256 := by omega
      rw [darrayAllocLoop] at hrun
      split at hrun
      case h_1 hscan =>
          have hnext := h.readSmap (show σ.smapIndex + 1 ≤ 256 by omega)
          obtain ⟨hle, hindex, hused⟩ := ih hnext
            (by show fuel = 256 - (σ.smapIndex + 1); omega) hrun
          change σ.smapIndex + 1 ≤ d / 4096 at hle
          refine ⟨by omega, hindex, fun e hlow hhigh => ?_⟩
          by_cases heq : e / 4096 = σ.smapIndex
          · exact h.used_of_scanMap hlt hscan heq
          · exact hused e (by show σ.smapIndex + 1 ≤ _; omega) hhigh
      case h_2 i j hscan =>
          obtain ⟨hj, -⟩ := scanMap_some hscan
          obtain ⟨rfl, hn⟩ := Prod.mk.inj hrun
          have hd : σ.smapIndex * 4096 + i.val * 32 + j = d := Option.some.inj hn
          have hsector : d / 4096 = σ.smapIndex := by omega
          refine ⟨by omega, hsector.symm, fun e hlow hhigh => ?_⟩
          omega

theorem darrayAllocLoop_full {fuel : Nat} (h : Cached σ) (hfuel : fuel = 256 - σ.smapIndex)
    (hrun : darrayAllocLoop fuel σ = (σ', none)) :
    σ'.smapIndex = 256 ∧
      ∀ e, σ.smapIndex ≤ e / 4096 → e / 4096 < 256 → (volume σ.disk).used e = true := by
  have hle := h.smapIndex
  induction fuel generalizing σ with
  | zero =>
      obtain ⟨rfl, -⟩ := Prod.mk.inj hrun
      exact ⟨by omega, fun e hlow hhigh => by omega⟩
  | succ fuel ih =>
      have hlt : σ.smapIndex < 256 := by omega
      rw [darrayAllocLoop] at hrun
      split at hrun
      case h_1 hscan =>
          have hnext := h.readSmap (show σ.smapIndex + 1 ≤ 256 by omega)
          obtain ⟨hindex, hused⟩ := ih hnext
            (by show fuel = 256 - (σ.smapIndex + 1); omega) hrun hnext.smapIndex
          refine ⟨hindex, fun e hlow hhigh => ?_⟩
          by_cases heq : e / 4096 = σ.smapIndex
          · exact h.used_of_scanMap hlt hscan heq
          · exact hused e (by show σ.smapIndex + 1 ≤ _; omega) hhigh
      case h_2 => cases hrun

/-! ## Allocating and freeing -/

inductive BlockCall where
  | alloc
  | free (dno : Nat)
  deriving DecidableEq, Repr

/-- Only blocks that are allocated are freed. -/
def blockSystem : Lts FsState BlockCall where
  step σ call σ' :=
    match call with
    | .alloc => σ' = (darrayAlloc σ).1
    | .free d => d < dataItemNum ∧ (volume σ.disk).used d = true ∧ σ' = darrayFree d σ

/-- `darray_alloc` fails only on a disk that is full. -/
def FindsBlocks (σ : FsState) : Prop :=
  (darrayAlloc σ).2 = none → ∀ d < dataItemNum, (volume σ.disk).used d = true

/-- A block that is freed has no free block before it that the search has not passed. -/
def LeavesNone (σ : FsState) (call : BlockCall) : Prop :=
  ∀ d, call = .free d → ∀ e, σ.smapIndex ≤ e / 4096 → e / 4096 < d / 4096 →
    (volume σ.disk).used e = true

/-- Everything before the cached sector is in use. -/
structure Searched (σ : FsState) : Prop where
  cached : Cached σ
  behind : ∀ e, e / 4096 < σ.smapIndex → (volume σ.disk).used e = true

theorem Searched.finds (h : Searched σ) : FindsBlocks σ := by
  intro hnone d hd
  have hd' : d < 1048576 := hd
  cases hrun : darrayAlloc σ with
  | mk σ' answer =>
      rw [hrun] at hnone
      obtain rfl : answer = none := hnone
      by_cases hbehind : d / 4096 < σ.smapIndex
      · exact h.behind d hbehind
      · exact (darrayAllocLoop_full h.cached rfl hrun).2 d (by omega) (by omega)

theorem Searched.alloc (h : Searched σ) : Searched (darrayAlloc σ).1 := by
  cases hrun : darrayAlloc σ with
  | mk σ' answer =>
      cases answer with
      | none =>
          obtain ⟨hindex, hused⟩ := darrayAllocLoop_full h.cached rfl hrun
          obtain ⟨hcached, -, hdisk⟩ := darrayAlloc_none h.cached hrun
          refine ⟨hcached, fun e he => ?_⟩
          dsimp only at he ⊢
          rw [hdisk]
          by_cases hbehind : e / 4096 < σ.smapIndex
          · exact h.behind e hbehind
          · exact hused e (by omega) (by omega)
      | some d =>
          obtain ⟨hle, hindex, hused⟩ := darrayAllocLoop_search h.cached rfl hrun
          obtain ⟨-, -, hcached, -, hvol⟩ := darrayAlloc_spec h.cached hrun
          refine ⟨hcached, fun e he => ?_⟩
          dsimp only at he ⊢
          rw [hvol, Volume.used_allocBlock, Bool.or_eq_true]
          right
          by_cases hbehind : e / 4096 < σ.smapIndex
          · exact h.behind e hbehind
          · exact hused e (by omega) (by omega)

theorem Searched.free (h : Searched σ) (hd : d < dataItemNum)
    (hleaves : LeavesNone σ (.free d)) : Searched (darrayFree d σ) := by
  obtain ⟨hcached, -, hvol⟩ := darrayFree_spec h.cached hd
  refine ⟨hcached, fun e he => ?_⟩
  change e / 4096 < d / 4096 at he
  have hne : e ≠ d := fun heq => by rw [heq] at he; omega
  rw [hvol, Volume.used_freeBlock, decide_eq_false hne, Bool.not_false, Bool.true_and]
  by_cases hbehind : e / 4096 < σ.smapIndex
  · exact h.behind e hbehind
  · exact hleaves d rfl e (by omega) he

theorem Searched.step {call : BlockCall} (h : Searched σ)
    (hstep : (blockSystem.restrict LeavesNone).step σ call σ') : Searched σ' := by
  obtain ⟨hleaves, hstep⟩ := hstep
  cases call with
  | alloc =>
      rw [show σ' = _ from hstep]
      exact h.alloc
  | free d =>
      obtain ⟨hd, -, rfl⟩ := hstep
      exact h.free hd hleaves

theorem searched_mount (u : MkfsLocals) (σ₀ : FsState) : Searched (mount (mkfs u σ₀)) :=
  ⟨(mkfs_mount_mounted u σ₀).1.cached, fun _ he => absurd he (Nat.not_lt_zero _)⟩

/-- As long as no free block is left behind, `darray_alloc` fails only on a full disk. -/
theorem findsBlocks_of_run (u : MkfsLocals) (σ₀ : FsState) {calls : List BlockCall} {σ : FsState}
    (run : (blockSystem.restrict LeavesNone).Run (mount (mkfs u σ₀)) calls σ) : FindsBlocks σ :=
  (run.invariant (fun _ _ _ h hstep => h.step hstep) (searched_mount u σ₀)).finds

/-- The first block is allocated. -/
theorem findsBlocks_first :
    FindsBlocks (darrayAlloc (mount (mkfs blankLocals blankFs))).1 :=
  findsBlocks_of_run blankLocals blankFs
    (.single ⟨fun _ hcall => (nomatch hcall), rfl⟩ :
      (blockSystem.restrict LeavesNone).Run _ [.alloc] _)

/-! ## A block that is left behind -/

def unusedBlocks (v : Volume) : Finset Nat :=
  (Finset.range dataItemNum).filter fun d => v.used d = false

theorem unusedBlocks_allocBlock (v : Volume) (d : Nat) :
    unusedBlocks (v.allocBlock d) = (unusedBlocks v).erase d := by
  ext k
  simp only [unusedBlocks, Finset.mem_filter, Finset.mem_erase, Volume.used_allocBlock,
    Bool.or_eq_false_iff, decide_eq_false_iff_not]
  constructor
  · rintro ⟨hk, hne, hunused⟩
    exact ⟨hne, hk, hunused⟩
  · rintro ⟨hne, hk, hunused⟩
    exact ⟨hk, hne, hunused⟩

/-- All blocks can be allocated. -/
theorem Searched.fill (h : Searched σ) :
    ∃ calls σ', blockSystem.Run σ calls σ' ∧ Searched σ' ∧
      ∀ d < dataItemNum, (volume σ'.disk).used d = true := by
  obtain ⟨n, hn⟩ : ∃ n, n = (unusedBlocks (volume σ.disk)).card := ⟨_, rfl⟩
  induction n using Nat.strong_induction_on generalizing σ with
  | _ n ih =>
      cases hrun : darrayAlloc σ with
      | mk σ' answer =>
          cases answer with
          | none => exact ⟨[], σ, .nil σ, h, h.finds (by rw [hrun])⟩
          | some d =>
              obtain ⟨hd, hunused, -, -, hvol⟩ := darrayAlloc_spec h.cached hrun
              have hnext := h.alloc
              rw [hrun] at hnext
              have hless : (unusedBlocks (volume σ'.disk)).card < n := by
                rw [hvol, unusedBlocks_allocBlock, hn]
                refine Finset.card_erase_lt_of_mem ?_
                rw [unusedBlocks, Finset.mem_filter]
                exact ⟨Finset.mem_range.mpr hd, hunused⟩
              obtain ⟨calls, σ'', run, hsearched, hfull⟩ := ih _ hless hnext rfl
              refine ⟨[.alloc] ++ calls, σ'', (Lts.Run.single ?_).append run, hsearched, hfull⟩
              show σ' = (darrayAlloc σ).1
              rw [hrun]

/-- On a full disk a block is freed, and then one in the next sector. -/
theorem blockSystem_leaves (h : Searched σ)
    (hfull : ∀ d < dataItemNum, (volume σ.disk).used d = true) :
    ∃ calls σ', blockSystem.Run σ calls σ' ∧ (darrayAlloc σ').2 = none ∧
      (volume σ'.disk).used 1 = false := by
  have hone : (1 : Nat) < dataItemNum := by decide
  have htwo : (4097 : Nat) < dataItemNum := by decide
  obtain ⟨hcached₁, -, hvol₁⟩ := darrayFree_spec h.cached hone
  obtain ⟨hcached₂, -, hvol₂⟩ := darrayFree_spec hcached₁ htwo
  have hused₁ : ∀ e, (volume (darrayFree 1 σ).disk).used e =
      (!decide (e = 1) && (volume σ.disk).used e) := by
    intro e
    rw [hvol₁, Volume.used_freeBlock]
  have hused₂ : ∀ e, (volume (darrayFree 4097 (darrayFree 1 σ)).disk).used e =
      (!decide (e = 4097) && (!decide (e = 1) && (volume σ.disk).used e)) := by
    intro e
    rw [hvol₂, Volume.used_freeBlock, hused₁]
  have hstep₁ : blockSystem.step σ (.free 1) (darrayFree 1 σ) := ⟨hone, hfull 1 hone, rfl⟩
  have hstep₂ : blockSystem.step (darrayFree 1 σ) (.free 4097)
      (darrayFree 4097 (darrayFree 1 σ)) := by
    refine ⟨htwo, ?_, rfl⟩
    rw [hused₁, hfull 4097 htwo]
    rfl
  have hindex : (darrayFree 4097 (darrayFree 1 σ)).smapIndex = 1 := rfl
  cases hrun : darrayAlloc (darrayFree 4097 (darrayFree 1 σ)) with
  | mk σ₃ answer =>
      cases answer with
      | none =>
          -- block 4097 would be in use
          have hbad := (darrayAllocLoop_full hcached₂ rfl hrun).2 4097 (by rw [hindex])
            (by decide)
          rw [hused₂] at hbad
          exact nomatch hbad
      | some d =>
          obtain ⟨hle, hindex₃, -⟩ := darrayAllocLoop_search hcached₂ rfl hrun
          obtain ⟨hd, hunused, hcached₃, -, hvol₃⟩ := darrayAlloc_spec hcached₂ hrun
          rw [hindex] at hle
          have hd' : d = 4097 := by
            rw [hused₂, hfull d hd] at hunused
            by_contra hne
            rw [decide_eq_false hne, decide_eq_false (show d ≠ 1 by omega)] at hunused
            cases hunused
          subst hd'
          have hused₃ : ∀ e, (volume σ₃.disk).used e =
              (decide (e = 4097) || (volume (darrayFree 4097 (darrayFree 1 σ)).disk).used e) := by
            intro e
            rw [hvol₃, Volume.used_allocBlock]
          refine ⟨[.free 1] ++ [.free 4097] ++ [.alloc], σ₃,
            .snoc (.snoc (.single hstep₁) hstep₂) (by show _ = (darrayAlloc _).1; rw [hrun]), ?_, ?_⟩
          · -- from the second sector on everything is in use again
            by_contra hsome
            obtain ⟨e, he⟩ := Option.ne_none_iff_exists'.mp hsome
            have hrun₃ : darrayAlloc σ₃ = ((darrayAlloc σ₃).1, some e) := Prod.ext rfl he
            obtain ⟨hbehind, -, -⟩ := darrayAllocLoop_search hcached₃ rfl hrun₃
            obtain ⟨hbound, hfree, -⟩ := darrayAlloc_spec hcached₃ hrun₃
            rw [hindex₃] at hbehind
            rw [hused₃, hused₂, hfull e hbound, decide_eq_false (show e ≠ 1 by omega)] at hfree
            cases hdec : decide (e = 4097) with
            | true => simp [hdec] at hfree
            | false => simp [hdec] at hfree
          · rw [hused₃, hused₂]
            rfl

/-- The free block 1 is not found any more. -/
theorem findsBlocks_not_behind :
    ¬ ∀ (u : MkfsLocals) (σ₀ : FsState) (calls : List BlockCall) (σ : FsState),
      blockSystem.Run (mount (mkfs u σ₀)) calls σ → FindsBlocks σ := by
  intro hall
  obtain ⟨calls, σ, run, hsearched, hfull⟩ := (searched_mount blankLocals blankFs).fill
  obtain ⟨more, σ', run', hnone, hunused⟩ := blockSystem_leaves hsearched hfull
  have hused := hall blankLocals blankFs _ σ' (run.append run') hnone 1 (by decide)
  exact nomatch hunused.symm.trans hused

end UcasOs.Fs

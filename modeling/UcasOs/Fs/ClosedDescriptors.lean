import UcasOs.Fs.Descriptors

/-!
# Descriptors that are not open

`fclose` asks the static list whether a descriptor is open; `fread`, `fwrite`
and `fseek` only compare it with -1, and go to its entry of `fd_array`
otherwise.  So a call on a descriptor that is not open does something unless
what the entry holds by chance leaves nothing to do.
-/

namespace UcasOs.Fs

open UcasOs.Foundation UcasOs.Libs

/-- The descriptor that a call is made on. -/
def FdCall.fd : FdCall → Option Int
  | .fopen _ _ => none
  | .fclose fd | .fread fd _ | .fwrite fd _ _ | .fseek fd _ => some fd

/-- Neither the disk nor an entry of `fd_array` has changed. -/
def Untouched (σ σ' : FsState) : Prop := σ'.disk = σ.disk ∧ σ'.fdArray = σ.fdArray

/-- The call returns 0 and touches nothing. -/
def Dead (σ : FsState) : FdCall → Prop
  | .fopen _ _ => True
  | .fclose fd => fclose fd σ = (σ, false)
  | .fread fd size => ∃ a, fread fd size σ = .ok a ∧ a.2.2 = 0 ∧ Untouched σ a.1
  | .fwrite fd buf size => ∃ a, fwrite fd buf size σ = .ok a ∧ a.2 = 0 ∧ Untouched σ a.1
  | .fseek fd offset => ∃ a, fseek fd offset σ = .ok a ∧ Untouched σ a

/-- `fd` is -1, or an index of `fd_array` whose entry has a property. -/
def EntryHas (fd : Int) (property : Nat → Prop) : Prop :=
  fd = -1 ∨ ∃ i, fdIndex fd = .ok i ∧ property i

/-- What the entry of the descriptor holds leaves nothing to do. -/
def Harmless (σ : FsState) : FdCall → Prop
  | .fopen _ _ | .fclose _ => True
  | .fread fd size => EntryHas fd fun i =>
      (σ.fdArray i).readable = false ∨ size = 0 ∨ (σ.fdArray i).size = (σ.fdArray i).offset
  | .fwrite fd _ size => EntryHas fd fun i =>
      let ino := (σ.fdArray i).ino.toNat
      (σ.fdArray i).writable = false ∨ size = 0 ∨
        (¬ (readInodes σ.disk ino (inoRemain ino)).sizeAllocated - (σ.fdArray i).offset ≥ size ∧
          (darrayAlloc σ).2 = none)
  | .fseek fd offset => EntryHas fd fun i => (σ.fdArray i).offset = offset

variable {σ σ' : FsState} {fd : Int} {i : Nat} {size offset : UInt32} {buf : Nat → UInt8}

/-! ## One call -/

/-- The three calls begin alike. -/
theorem entryHas_iff {α : Type} {call : Except Fault α} {quiet : α} {body : Nat → Except Fault α}
    {good : α → Prop} {property : Nat → Prop}
    (hcall : call = if fd = -1 then .ok quiet else fdIndex fd >>= body) (hquiet : good quiet)
    (hbody : ∀ i, fdIndex fd = .ok i → ((∃ a, body i = .ok a ∧ good a) ↔ property i)) :
    (∃ a, call = .ok a ∧ good a) ↔ EntryHas fd property := by
  subst hcall
  by_cases hminus : fd = -1
  · rw [if_pos hminus]
    exact iff_of_true ⟨quiet, rfl, hquiet⟩ (.inl hminus)
  · rw [if_neg hminus]
    constructor
    · rintro ⟨a, h, hgood⟩
      obtain ⟨i, hi, h⟩ := bind_eq_ok.mp h
      exact .inr ⟨i, hi, (hbody i hi).mp ⟨a, h, hgood⟩⟩
    · rintro (h | ⟨i, hi, hproperty⟩)
      · exact absurd h hminus
      · obtain ⟨a, h, hgood⟩ := (hbody i hi).mpr hproperty
        exact ⟨a, bind_eq_ok.mpr ⟨i, hi, h⟩, hgood⟩

theorem fseek_dead_iff : Dead σ (.fseek fd offset) ↔ Harmless σ (.fseek fd offset) := by
  refine entryHas_iff rfl ⟨rfl, rfl⟩ fun i _ => ?_
  constructor
  · rintro ⟨a, h, -, hfd⟩
    cases h
    rw [← congrFun hfd i, setFd_self]
  · intro heq
    refine ⟨_, rfl, rfl, ?_⟩
    rw [← heq]
    exact Function.update_eq_self _ _

/-- Nothing is left to read. -/
theorem sizeRemain_eq_zero {f : Fd} :
    (if f.size - f.offset < size then f.size - f.offset else size) = 0 ↔
      size = 0 ∨ f.size = f.offset := by
  have hsub : f.size - f.offset = 0 ↔ f.size = f.offset := by
    rw [UInt32.sub_eq_iff_eq_add, UInt32.zero_add]
  split
  case isTrue hlt =>
      rw [hsub]
      refine ⟨.inr, ?_⟩
      rintro (rfl | heq)
      · exact absurd hlt UInt32.not_lt_zero
      · exact heq
  case isFalse hle =>
      refine ⟨.inl, ?_⟩
      rintro (heq | heq)
      · exact heq
      · rw [hsub.mpr heq] at hle
        exact UInt32.le_zero_iff.mp (UInt32.not_lt.mp hle)

theorem fread_dead_iff : Dead σ (.fread fd size) ↔ Harmless σ (.fread fd size) := by
  refine entryHas_iff rfl ⟨rfl, rfl, rfl⟩ fun i _ => ?_
  cases hreadable : (σ.fdArray i).readable with
  | false =>
      refine iff_of_true ⟨(σ, [], 0), ?_, rfl, rfl, rfl⟩ (.inl rfl)
      rw [if_pos (by simp)]
  | true =>
      rw [if_neg (by simp)]
      dsimp only [freadInode]
      constructor
      · rintro ⟨a, h, hzero, -⟩
        obtain ⟨⟨σ₁, copied⟩, -, h⟩ := bind_eq_ok.mp h
        cases h
        exact .inr (sizeRemain_eq_zero.mp hzero)
      · rintro (h | h)
        · cases h
        · rw [sizeRemain_eq_zero.mpr h]
          exact ⟨(σ, [], 0), rfl, rfl, rfl, rfl⟩

/-! ### `fwrite` -/

theorem darrayAlloc_untouched (h : (darrayAlloc σ).2 = none) : Untouched σ (darrayAlloc σ).1 :=
  ⟨(darrayAlloc_sameDir σ).2 h, (darrayAlloc_sameDir σ).1.fdArray⟩

section

variable {r : Fin 8} {I I' : Fin 8 → Inode} {w : UInt32} {fuel : Nat} {stores : List (Nat × Nat)}

/-- A request that the file has room for is stored at least in part. -/
theorem fwriteLoop_stores
    (h : fwriteLoop i r buf (fuel + 1) I size 0 σ = .ok (σ', I', w, stores)) (hsize : size ≠ 0)
    (hroom : (I r).sizeAllocated - (σ.fdArray i).offset ≥ size) : w ≠ 0 := by
  have hpos : 0 < size.toNat := Nat.pos_of_ne_zero fun h => hsize (UInt32.toNat_inj.mp h)
  rw [fwriteLoop, if_neg hsize] at h
  dsimp only at h
  rw [if_pos hroom] at h
  obtain ⟨p, -, h⟩ := bind_eq_ok.mp h
  obtain ⟨c, hc, rfl, -⟩ := fwriteLoop_advanced h
  have ht := toNat_chunk (σ.fdArray i).offset size
  rw [chunk] at ht
  rw [UInt32.le_iff_toNat_le, UInt32.toNat_sub_of_le _ _ (by
    rw [UInt32.le_iff_toNat_le, ht]
    omega), ht] at hc
  have hlt := size.toNat_lt
  intro hzero
  have hsum := congrArg UInt32.toNat hzero
  rw [UInt32.zero_add, UInt32.toNat_add, ht, Nat.mod_eq_of_lt (by omega), UInt32.toNat_zero] at hsum
  omega

/-- A file that gets a block has another inode afterwards. -/
theorem fwriteLoop_grows
    (h : fwriteLoop i r buf (fuel + 1) I size 0 σ = .ok (σ', I', w, stores)) (hsize : size ≠ 0)
    (hroom : ¬ (I r).sizeAllocated - (σ.fdArray i).offset ≥ size)
    (hsome : (darrayAlloc σ).2 ≠ none) : I' ≠ I := by
  obtain ⟨c, -, -, hadvanced⟩ := fwriteLoop_advanced h
  have hlength : stores ≠ [] := by
    rw [fwriteLoop, if_neg hsize] at h
    dsimp only at h
    rw [if_neg hroom] at h
    split at h
    case h_1 σ₁ halloc => exact absurd (congrArg Prod.snd halloc) hsome
    case h_2 σ₁ d halloc =>
        obtain ⟨I₁, -, h⟩ := bind_eq_ok.mp h
        obtain ⟨⟨σ₂, I₂, w₂, rest⟩, -, h⟩ := bind_eq_ok.mp h
        cases h
        exact List.cons_ne_nil _ _
  rintro rfl
  have hallocated := hadvanced.sizeAllocated
  exact hlength (List.length_eq_zero_iff.mp (by omega))

variable (buf fuel) in
/-- The first round ends the loop. -/
theorem fwriteLoop_ends (h : size = 0 ∨
      (¬ (I r).sizeAllocated - (σ.fdArray i).offset ≥ size ∧ (darrayAlloc σ).2 = none)) :
    ∃ σ', fwriteLoop i r buf (fuel + 1) I size 0 σ = .ok (σ', I, 0, []) ∧ Untouched σ σ' := by
  by_cases hsize : size = 0
  · refine ⟨σ, ?_, rfl, rfl⟩
    rw [fwriteLoop, if_pos hsize]
  · obtain ⟨hroom, hnone⟩ := h.resolve_left hsize
    refine ⟨(darrayAlloc σ).1, ?_, darrayAlloc_untouched hnone⟩
    have halloc : darrayAlloc σ = ((darrayAlloc σ).1, none) := Prod.ext rfl hnone
    rw [fwriteLoop, if_neg hsize]
    dsimp only
    rw [if_neg hroom]
    split
    case h_1 σ₁ heq => rw [heq]
    case h_2 σ₁ d heq => cases (congrArg Prod.snd heq).symm.trans hnone

end

theorem fwrite_dead_iff : Dead σ (.fwrite fd buf size) ↔ Harmless σ (.fwrite fd buf size) := by
  have hstores : Dead σ (.fwrite fd buf size) ↔
      ∃ a, fwriteStores fd buf size σ = .ok a ∧ a.2.1 = 0 ∧ Untouched σ a.1 := by
    constructor
    · rintro ⟨⟨σ', w⟩, h, hzero, huntouched⟩
      obtain ⟨stores, h⟩ := fwrite_eq_ok.mp h
      exact ⟨_, h, hzero, huntouched⟩
    · rintro ⟨⟨σ', w, stores⟩, h, hzero, huntouched⟩
      exact ⟨(σ', w), fwrite_eq_ok.mpr ⟨stores, h⟩, hzero, huntouched⟩
  rw [hstores]
  refine entryHas_iff rfl ⟨rfl, rfl, rfl⟩ fun i _ => ?_
  cases hwritable : (σ.fdArray i).writable with
  | false =>
      refine iff_of_true ⟨(σ, 0, []), ?_, rfl, rfl, rfl⟩ (.inl rfl)
      rw [if_pos (by simp)]
  | true =>
      rw [if_neg (by simp)]
      dsimp only
      constructor
      · rintro ⟨a, h, hzero, hdisk, -⟩
        obtain ⟨⟨σ₁, I₁, w₁, stores⟩, hloop, h⟩ := bind_eq_ok.mp h
        cases h
        by_cases hsize : size = 0
        · exact .inr (.inl hsize)
        · have hroom := fun hroom => fwriteLoop_stores hloop hsize hroom hzero
          refine .inr (.inr ⟨hroom, ?_⟩)
          by_contra hsome
          -- the sector of inodes on the disk is the one that was written last
          refine fwriteLoop_grows hloop hsize hroom hsome ?_
          rw [readInodes, ← hdisk]
          exact (sdread_sdwrite_self _ _ _).symm
      · rintro (h | h)
        · cases h
        · obtain ⟨σ', hloop, hdisk, hfd⟩ := fwriteLoop_ends buf
            (size.toNat + dataItemNum) h
          rw [hloop]
          refine ⟨_, rfl, rfl, ?_, hfd⟩
          change sdwrite (readInodes σ.disk _) _ σ'.disk = _
          rw [hdisk]
          exact sdwrite_sdread _ _

/-! ## Every session -/

/-- The static list knows the descriptors that are open. -/
def Listed (s : Session) : Prop :=
  (∃ free, Implements s.fs.fdArraySlist fdArraySlistSize free) ∧
    ∀ fd, fd ∈ s.opened ↔ slistIsValid s.fs.fdArraySlist (fd + 1) fdArraySlistSize = true

theorem Listed.congr {s t : Session} (h : Listed s)
    (hslist : t.fs.fdArraySlist = s.fs.fdArraySlist) (hopened : t.opened = s.opened) :
    Listed t := by
  rw [Listed, hslist, hopened]
  exact h

theorem Listed.fopen {s : Session} (h : Listed s) (name : CString) (access : UInt32) :
    Listed ⟨(Fs.fopen name access s.fs).1,
      if (Fs.fopen name access s.fs).2 = -1 then s.opened
      else insert (Fs.fopen name access s.fs).2 s.opened⟩ := by
  obtain ⟨⟨free, himpl⟩, hopened⟩ := h
  rcases fopen_cases himpl name access with hfail | ⟨n, t, rest, -, -, -, rfl, -, hopen⟩
  · rw [hfail, if_pos rfl]
    exact ⟨⟨free, himpl⟩, hopened⟩
  · obtain ⟨ht, himpl', -, -, halloc⟩ := slistAlloc_cons himpl
    rw [hopen, if_neg (by show ¬ (t : Int) = -1; omega)]
    refine ⟨⟨rest, himpl'⟩, fun fd => ?_⟩
    rw [Finset.mem_insert, hopened, slistIsValid_iff, slistIsValid_iff]
    change _ ↔ ∃ i : Nat, fd + 1 = i ∧ Allocated (slistAlloc s.fs.fdArraySlist).2 fdArraySlistSize i
    constructor
    · rintro (rfl | ⟨i, hi, hallocated⟩)
      · exact ⟨t + 1, by omega, (halloc _).mpr (.inl rfl)⟩
      · exact ⟨i, hi, (halloc i).mpr (.inr hallocated)⟩
    · rintro ⟨i, hi, hallocated⟩
      rcases (halloc i).mp hallocated with rfl | hold
      · exact .inl (by omega)
      · exact .inr ⟨i, hi, hold⟩

/-- What `fclose` answers, and what it does to the list. -/
theorem fclose_cases (fd : Int) (σ : FsState) :
    (slistIsValid σ.fdArraySlist (fd + 1) fdArraySlistSize = false ∧ fclose fd σ = (σ, false)) ∨
    ∃ i : Nat, fd + 1 = i ∧ Allocated σ.fdArraySlist fdArraySlistSize i ∧
      fclose fd σ =
        ({ σ with fdArraySlist := (slistFree σ.fdArraySlist i fdArraySlistSize).2 }, true) := by
  cases hvalid : slistIsValid σ.fdArraySlist (fd + 1) fdArraySlistSize with
  | false =>
      refine .inl ⟨rfl, ?_⟩
      unfold fclose
      split
      case isTrue => rfl
      case isFalse => rw [fdArrayFree, slistFree_invalid hvalid]
  | true =>
      obtain ⟨i, hi, hallocated⟩ := slistIsValid_iff.mp hvalid
      refine .inr ⟨i, hi, hallocated, ?_⟩
      have hne : ¬ fd = -1 := by
        rintro rfl
        have := hallocated.1
        omega
      have hfreed : (slistFree σ.fdArraySlist i fdArraySlistSize).1 = true := by
        rw [← hi]
        simp [slistFree, hvalid]
      rw [fclose, if_neg hne, fdArrayFree, hi]
      dsimp only
      rw [hfreed]

theorem Listed.fclose {s : Session} (h : Listed s) (fd : Int) :
    Listed ⟨(Fs.fclose fd s.fs).1, s.opened.erase fd⟩ := by
  obtain ⟨⟨free, himpl⟩, hopened⟩ := h
  rcases fclose_cases fd s.fs with ⟨hinvalid, hcall⟩ | ⟨i, hi, hallocated, hcall⟩
  · rw [hcall, Finset.erase_eq_of_notMem (by rw [hopened, hinvalid]; exact Bool.false_ne_true)]
    exact ⟨⟨free, himpl⟩, hopened⟩
  · obtain ⟨-, himpl', hrest⟩ := slistFree_allocated himpl hallocated
    rw [hcall]
    refine ⟨⟨_, himpl'⟩, fun fd' => ?_⟩
    rw [Finset.mem_erase, hopened, slistIsValid_iff, slistIsValid_iff]
    change _ ↔ ∃ j : Nat, fd' + 1 = j ∧
      Allocated (slistFree s.fs.fdArraySlist i fdArraySlistSize).2 fdArraySlistSize j
    constructor
    · rintro ⟨hne, j, hj, hold⟩
      exact ⟨j, hj, (hrest j).mpr ⟨by omega, hold⟩⟩
    · rintro ⟨j, hj, hnew⟩
      obtain ⟨hji, hold⟩ := (hrest j).mp hnew
      exact ⟨by omega, j, hj, hold⟩

theorem Listed.step {s t : Session} {call : FdCall} (h : Listed s)
    (hstep : sessions.step s call t) : Listed t := by
  cases call with
  | fopen name access =>
      obtain rfl := Except.ok.inj hstep
      exact h.fopen name access
  | fclose fd =>
      obtain rfl := Except.ok.inj hstep
      exact h.fclose fd
  | fread fd size =>
      obtain ⟨⟨σ', bytes, total⟩, hcall, heq⟩ := bind_eq_ok.mp hstep
      obtain rfl := Except.ok.inj heq
      refine h.congr ?_ rfl
      rcases fread_fields hcall with rfl | ⟨i, f, -, rfl⟩
      · rfl
      · rfl
  | fwrite fd buf size =>
      obtain ⟨⟨σ', written⟩, hcall, heq⟩ := bind_eq_ok.mp hstep
      obtain rfl := Except.ok.inj heq
      obtain ⟨stores, hcall⟩ := fwrite_eq_ok.mp hcall
      exact h.congr (fwriteStores_slist hcall) rfl
  | fseek fd offset =>
      obtain ⟨σ', hcall, heq⟩ := bind_eq_ok.mp hstep
      obtain rfl := Except.ok.inj heq
      refine h.congr ?_ rfl
      rcases fseek_fields hcall with rfl | ⟨i, -, rfl⟩
      · rfl
      · rfl

theorem listed_slistInit {σ : FsState} {l : Slist}
    (h : σ.fdArraySlist = slistInit l fdArraySlistSize) : Listed ⟨σ, ∅⟩ := by
  rw [Listed, h]
  refine ⟨⟨_, slistInit_implements (by decide)⟩, fun fd => ?_⟩
  refine iff_of_false (by simp) ?_
  intro hvalid
  obtain ⟨i, -, hpos, hlt, hi⟩ := slistIsValid_iff.mp hvalid
  simp [slistInit, hlt] at hi
  omega

theorem listed_boot (u : MkfsLocals) (σ₀ : FsState) : Listed ⟨initFileSystem u σ₀, ∅⟩ := by
  refine listed_slistInit (l := σ₀.fdArraySlist) ?_
  unfold initFileSystem
  dsimp only
  split
  · rfl
  · rfl

/-- In every session from the boot on, a call on a descriptor that is not open does nothing
exactly when its entry of `fd_array` leaves nothing to do. -/
theorem dead_iff (u : MkfsLocals) (σ₀ : FsState) {calls : List FdCall} {s : Session}
    (run : sessions.Run ⟨initFileSystem u σ₀, ∅⟩ calls s) {call : FdCall} {fd : Int}
    (hfd : call.fd = some fd) (hclosed : fd ∉ s.opened) : Dead s.fs call ↔ Harmless s.fs call := by
  have hlisted : Listed s := run.invariant (fun _ _ _ h hstep => h.step hstep) (listed_boot u σ₀)
  cases call with
  | fopen => cases hfd
  | fclose fd =>
      cases hfd
      rw [hlisted.2] at hclosed
      refine iff_of_true ?_ trivial
      rcases fclose_cases fd s.fs with ⟨-, hcall⟩ | ⟨i, hi, hallocated, -⟩
      · exact hcall
      · exact absurd (slistIsValid_iff.mpr ⟨i, hi, hallocated⟩) hclosed
  | fread => exact fread_dead_iff
  | fwrite => exact fwrite_dead_iff
  | fseek => exact fseek_dead_iff

/-- The file is opened, and the descriptor 0 is closed. -/
def afterFclose (s : Session) (name : CString) : Session :=
  ⟨(fclose 0 (fopen name oRdwr s.fs).1).1,
    (if (fopen name oRdwr s.fs).2 = -1 then s.opened
      else insert (fopen name oRdwr s.fs).2 s.opened).erase 0⟩

theorem afterFclose_run (s : Session) (name : CString) :
    sessions.Run s [.fopen name oRdwr, .fclose 0] (afterFclose s name) := by
  have hopen : sessions.step s (.fopen name oRdwr) ⟨(fopen name oRdwr s.fs).1,
      if (fopen name oRdwr s.fs).2 = -1 then s.opened
      else insert (fopen name oRdwr s.fs).2 s.opened⟩ := rfl
  exact .snoc (.single hopen) rfl

/-- The boot from a disk that has the file `a`. -/
def bootSession : Session := ⟨initFileSystem blankLocals (touch fileName newFs).1, ∅⟩

/-- Nothing is read of an empty file that has been closed. -/
theorem dead_after_fclose :
    sessions.Run bootSession [.fopen fileName oRdwr, .fclose 0] (afterFclose bootSession fileName) ∧
      Dead (afterFclose bootSession fileName).fs (.fread 0 5) := by
  have hrun := afterFclose_run bootSession fileName
  have hclosed : (0 : Int) ∉ (afterFclose bootSession fileName).opened := by
    rw [afterFclose]
    exact Finset.notMem_erase _ _
  refine ⟨hrun, (dead_iff blankLocals (touch fileName newFs).1 hrun rfl hclosed).mpr ?_⟩
  exact .inr ⟨0, rfl, .inr (.inr (by decide +kernel))⟩

/-- `fseek` moves a descriptor that was never opened. -/
theorem dead_not_fseek :
    ¬ ∀ (u : MkfsLocals) (σ₀ : FsState) (calls : List FdCall) (s : Session),
      sessions.Run ⟨initFileSystem u σ₀, ∅⟩ calls s →
      ∀ call fd, call.fd = some fd → fd ∉ s.opened → Dead s.fs call := by
  intro h
  have hdead := h blankLocals blankFs [] _ (.nil _) (.fseek 0 7) 0 rfl (Finset.notMem_empty _)
  obtain hminus | ⟨i, hi, hoffset⟩ := fseek_dead_iff.mp hdead
  · exact absurd hminus (by decide)
  · cases hi
    have hzero : ((initFileSystem blankLocals blankFs).fdArray 0).offset = 0 := by decide +kernel
    exact absurd (hzero.symm.trans hoffset) (by decide)

end UcasOs.Fs

import UcasOs.Foundation.Run
import UcasOs.Fs.FileData

/-!
# Calls through descriptors

What `fread` and `fwrite` do whatever the descriptor holds, and the system of
the five calls with the descriptors that are open.
-/

namespace UcasOs.Fs

open UcasOs.Foundation UcasOs.Libs

variable {i : Nat} {r : Fin 8} {I I' : Fin 8 → Inode} {buf : Nat → UInt8} {size w w' : UInt32}
  {σ σ' : FsState}

/-! ## The buffer of inodes -/

/-- A word of the buffer behind inode `r` is no part of it. -/
theorem update_word_behind (I : Fin 8 → Inode) (r : Fin 8) {k : Fin 128} (hk : r.val * 16 + 16 ≤ k)
    (p : UInt32) :
    (Sector.layout.symm (Sector.layout (Function.update
      (Sector.layout.symm (Sector.layout I) : Fin 128 → UInt32) k p)) : Fin 8 → Inode) r = I r := by
  have hbyte : ∀ j : Fin 64, (Sector.layout (Function.update
      (Sector.layout.symm (Sector.layout I) : Fin 128 → UInt32) k p) : Bytes 512)
        (finProdFinEquiv (r, j)) = Sector.layout I (finProdFinEquiv (r, j)) := by
    intro j
    obtain ⟨b, hb, hbval⟩ : ∃ b : Fin (128 * 4), b = finProdFinEquiv (r, j) ∧
        b.val = j.val + 64 * r.val := ⟨_, rfl, rfl⟩
    have hne : b.divNat ≠ k := by
      intro heq
      have hval : b.val / 4 = k.val := congrArg Fin.val heq
      have := j.isLt
      omega
    rw [← hb]
    calc Layout.array 128 Layout.word (Function.update
          (Sector.layout.symm (Sector.layout I) : Fin 128 → UInt32) k p) b
        = Layout.array 128 Layout.word (Sector.layout.symm (Sector.layout I)) b := by
          rw [Layout.array_apply, Function.update_of_ne hne, Layout.array_apply]
      _ = Sector.layout I b := congrFun (Equiv.apply_symm_apply Sector.layout _) b
  calc (Sector.layout.symm _ : Fin 8 → Inode) r
      = Inode.layout.symm fun j => Sector.layout I (finProdFinEquiv (r, j)) :=
        congrArg Inode.layout.symm (funext hbyte)
    _ = I r := congrFun (Equiv.symm_apply_apply Sector.layout I) r

/-- Storing a pointer keeps the sizes of the inode. -/
theorem storePointer_self {pi : Nat} {p : UInt32} (h : storePointer I r pi p = .ok I') :
    pi < 125 ∧ (I' r).size = (I r).size ∧ (I' r).sizeAllocated = (I r).sizeAllocated := by
  unfold storePointer at h
  split at h
  case isTrue hpi =>
      cases h
      rw [Function.update_self]
      exact ⟨by omega, rfl, rfl⟩
  case isFalse hpi =>
      split at h
      case isTrue hword =>
          cases h
          have hk : r.val * 16 + 16 ≤ (Fin.ofNat 128 (r.val * 16 + 3 + pi)).val := by
            simp only [Fin.ofNat]
            omega
          rw [update_word_behind I r hk p]
          exact ⟨by omega, rfl, rfl⟩
      case isFalse => cases h

/-! ## The loop of `fwrite` -/

/-- What the loop has done when it comes back, with `c` bytes and `m` blocks more. -/
structure Advanced (i : Nat) (r : Fin 8) (c : UInt32) (m : Nat) (I I' : Fin 8 → Inode)
    (σ σ' : FsState) : Prop where
  fdArray : σ'.fdArray = Function.update σ.fdArray i ((σ.fdArray i).advance c)
  fdArraySlist : σ'.fdArraySlist = σ.fdArraySlist
  size : (I' r).size = (I r).size + c
  sizeAllocated : (I' r).sizeAllocated.toNat = (I r).sizeAllocated.toNat + 512 * m

theorem Advanced.zero (h : SameDir σ σ') : Advanced i r 0 0 I I σ σ' := by
  refine ⟨?_, h.fdArraySlist, ?_, rfl⟩
  · rw [h.fdArray]
    simp [Fd.advance]
  · rw [UInt32.add_zero]

/-- A sector that is filled, and then the rest. -/
theorem Advanced.fill {I₁ : Fin 8 → Inode} {σ₁ : FsState} {t c : UInt32} {m : Nat}
    (h : Advanced i r c m I₁ I' σ₁ σ')
    (hfd : σ₁.fdArray = Function.update σ.fdArray i ((σ.fdArray i).advance t))
    (hslist : σ₁.fdArraySlist = σ.fdArraySlist) (hsize : (I₁ r).size = (I r).size + t)
    (hallocated : (I₁ r).sizeAllocated = (I r).sizeAllocated) :
    Advanced i r (t + c) m I I' σ σ' := by
  refine ⟨?_, h.fdArraySlist.trans hslist, ?_, ?_⟩
  · rw [h.fdArray, hfd]
    simp [Fd.advance, UInt32.add_assoc]
  · rw [h.size, hsize, UInt32.add_assoc]
  · rw [h.sizeAllocated, hallocated]

/-- A block that the file gets, and then the rest. -/
theorem Advanced.grow {I₁ : Fin 8 → Inode} {σ₁ : FsState} {c : UInt32} {m : Nat}
    (h : Advanced i r c m I₁ I' σ₁ σ') (hsame : SameDir σ σ₁) (hsize : (I₁ r).size = (I r).size)
    (hallocated : (I₁ r).sizeAllocated.toNat = (I r).sizeAllocated.toNat + 512) :
    Advanced i r c (m + 1) I I' σ σ' := by
  refine ⟨?_, h.fdArraySlist.trans hsame.fdArraySlist, ?_, ?_⟩
  · rw [h.fdArray, hsame.fdArray]
  · rw [h.size, hsize]
  · rw [h.sizeAllocated, hallocated]
    omega

theorem fwriteLoop_advanced {fuel : Nat} {stores : List (Nat × Nat)}
    (h : fwriteLoop i r buf fuel I size w σ = .ok (σ', I', w', stores)) :
    ∃ c ≤ size, w' = w + c ∧ Advanced i r c stores.length I I' σ σ' := by
  induction fuel generalizing I size w σ stores with
  | zero => cases h
  | succ fuel ih =>
      rw [fwriteLoop] at h
      split at h
      case isTrue =>
          cases h
          exact ⟨0, UInt32.zero_le, (UInt32.add_zero _).symm, .zero ⟨rfl, rfl, rfl, rfl⟩⟩
      case isFalse =>
          dsimp only at h
          split at h
          case isTrue =>
              obtain ⟨p, -, h⟩ := bind_eq_ok.mp h
              obtain ⟨t, ht, htval⟩ : ∃ t : UInt32,
                  t.toNat = chunk (σ.fdArray i).offset.toNat size.toNat ∧
                  (if size < 512 - offsetRemain (σ.fdArray i).offset then size
                    else 512 - offsetRemain (σ.fdArray i).offset) = t :=
                ⟨_, toNat_chunk _ _, rfl⟩
              rw [htval] at h
              rw [chunk] at ht
              obtain ⟨c, hc, hw, hrest⟩ := ih h
              have hle : t ≤ size := by
                rw [UInt32.le_iff_toNat_le]
                omega
              rw [UInt32.le_iff_toNat_le, UInt32.toNat_sub_of_le _ _ hle] at hc
              refine ⟨t + c, ?_, ?_, hrest.fill rfl rfl ?_ ?_⟩
              · rw [UInt32.le_iff_toNat_le, UInt32.toNat_add]
                have := size.toNat_lt
                rw [Nat.mod_eq_of_lt (by omega)]
                omega
              · rw [hw, UInt32.add_assoc]
              · rw [Function.update_self]
              · rw [Function.update_self]
          case isFalse =>
              have hsame := (darrayAlloc_sameDir σ).1
              split at h
              case h_1 σ₁ halloc =>
                  rw [halloc] at hsame
                  cases h
                  exact ⟨0, UInt32.zero_le, (UInt32.add_zero _).symm, .zero hsame⟩
              case h_2 σ₁ d halloc =>
                  rw [halloc] at hsame
                  obtain ⟨I₁, hstore, h⟩ := bind_eq_ok.mp h
                  obtain ⟨⟨σ₂, I₂, w₂, rest⟩, hloop, h⟩ := bind_eq_ok.mp h
                  cases h
                  obtain ⟨c, hc, hw, hrest⟩ := ih hloop
                  obtain ⟨hpi, hsize, hallocated⟩ := storePointer_self hstore
                  rw [UInt32.toNat_div] at hpi
                  refine ⟨c, hc, hw, hrest.grow hsame ?_ ?_⟩
                  · rw [Function.update_self]
                    exact hsize
                  · rw [Function.update_self, hallocated, UInt32.toNat_add]
                    have hpi' : (I r).sizeAllocated.toNat / 512 < 125 := hpi
                    exact Nat.mod_eq_of_lt (by
                      show _ + 512 < _
                      omega)

/-! ## The other calls -/

theorem freadLoop_fields {x : Inode} {fuel : Nat} {bytes : List UInt8}
    (h : freadLoop x i fuel size σ = .ok (σ', bytes)) :
    ∃ f, σ' = setFd i { σ.fdArray i with offset := f } σ := by
  induction fuel generalizing size σ bytes with
  | zero => cases h
  | succ fuel ih =>
      rw [freadLoop] at h
      split at h
      case isTrue =>
          cases h
          exact ⟨(σ'.fdArray i).offset, by simp [setFd]⟩
      case isFalse =>
          obtain ⟨p, -, h⟩ := bind_eq_ok.mp h
          obtain ⟨⟨σ₁, rest⟩, hloop, h⟩ := bind_eq_ok.mp h
          cases h
          obtain ⟨f, hf⟩ := ih hloop
          exact ⟨f, by rw [hf]; simp [setFd]⟩

/-- Reading moves the descriptor, and nothing else. -/
theorem fread_fields {fd : Int} {bytes : List UInt8} {total : UInt32}
    (h : fread fd size σ = .ok (σ', bytes, total)) :
    σ' = σ ∨ ∃ i f, fdIndex fd = .ok i ∧ σ' = setFd i { σ.fdArray i with offset := f } σ := by
  unfold fread at h
  split at h
  case isTrue =>
      cases h
      exact .inl rfl
  case isFalse =>
      obtain ⟨i, hi, h⟩ := bind_eq_ok.mp h
      split at h
      case isTrue =>
          cases h
          exact .inl rfl
      case isFalse =>
          obtain ⟨⟨σ₁, copied⟩, hloop, h⟩ := bind_eq_ok.mp h
          cases h
          obtain ⟨f, hf⟩ := freadLoop_fields hloop
          exact .inr ⟨i, f, hi, hf⟩

theorem fseek_fields {fd : Int} {offset : UInt32} (h : fseek fd offset σ = .ok σ') :
    σ' = σ ∨ ∃ i, fdIndex fd = .ok i ∧ σ' = setFd i { σ.fdArray i with offset := offset } σ := by
  unfold fseek at h
  split at h
  case isTrue =>
      cases h
      exact .inl rfl
  case isFalse =>
      obtain ⟨i, hi, h⟩ := bind_eq_ok.mp h
      cases h
      exact .inr ⟨i, hi, rfl⟩

theorem fwriteStores_slist {fd : Int} {written : UInt32} {stores : List (Nat × Nat)}
    (h : fwriteStores fd buf size σ = .ok (σ', written, stores)) :
    σ'.fdArraySlist = σ.fdArraySlist := by
  unfold fwriteStores at h
  split at h
  case isTrue =>
      cases h
      rfl
  case isFalse =>
      obtain ⟨i, -, h⟩ := bind_eq_ok.mp h
      split at h
      case isTrue =>
          cases h
          rfl
      case isFalse =>
          obtain ⟨⟨σ₁, I₁, w₁, rest⟩, hloop, h⟩ := bind_eq_ok.mp h
          cases h
          obtain ⟨c, -, -, hadvanced⟩ := fwriteLoop_advanced hloop
          exact hadvanced.fdArraySlist

theorem fwrite_eq_ok {fd : Int} {written : UInt32} :
    fwrite fd buf size σ = .ok (σ', written) ↔
      ∃ stores, fwriteStores fd buf size σ = .ok (σ', written, stores) := by
  constructor
  · intro h
    obtain ⟨⟨σ₁, w₁, stores⟩, hcall, h⟩ := bind_eq_ok.mp h
    cases h
    exact ⟨stores, hcall⟩
  · rintro ⟨stores, hcall⟩
    exact bind_eq_ok.mpr ⟨_, hcall, rfl⟩

/-- Nothing can be read at the end of a file, or without access. -/
theorem fread_nothing {fd : Int} (hfd : fdIndex fd = .ok i)
    (h : (σ.fdArray i).readable = false ∨ (σ.fdArray i).size = (σ.fdArray i).offset) :
    fread fd size σ = .ok (σ, [], 0) := by
  rw [fread, if_neg (ne_minus_of_fdIndex hfd), hfd, ok_bind]
  split
  case isTrue => rfl
  case isFalse hreadable =>
      have hend := h.resolve_left (by simpa using hreadable)
      have hzero : (if (σ.fdArray i).size - (σ.fdArray i).offset < size
          then (σ.fdArray i).size - (σ.fdArray i).offset else size) = 0 := by
        rw [hend, UInt32.sub_self]
        split
        case isTrue => rfl
        case isFalse hle => exact UInt32.le_zero_iff.mp (UInt32.not_lt.mp hle)
      dsimp only [freadInode]
      rw [hzero]
      rfl

variable (buf) in
theorem fwrite_nothing {fd : Int} (hfd : fdIndex fd = .ok i)
    (h : (σ.fdArray i).writable = false ∨ size = 0) : fwrite fd buf size σ = .ok (σ, 0) := by
  refine fwrite_eq_ok.mpr ⟨[], ?_⟩
  rw [fwriteStores, if_neg (ne_minus_of_fdIndex hfd), hfd, ok_bind]
  split
  case isTrue => rfl
  case isFalse hwritable =>
      obtain rfl := h.resolve_left (by simpa using hwritable)
      dsimp only
      rw [fwriteLoop, if_pos rfl, ok_bind, writeInodes, readInodes, sdwrite_sdread]

theorem fdIndex_natCast {t : Nat} (ht : t < fdArraySize) : fdIndex t = .ok t := by
  have ht' : t < 64 := ht
  have hrange : 0 ≤ (t : Int) ∧ (t : Int) < fdArraySize := ⟨by omega, by
    show (t : Int) < 64
    omega⟩
  rw [fdIndex, if_pos hrange, Int.toNat_natCast]

theorem fdIndex_inj {fd fd' : Int} (h : fdIndex fd = .ok i) (h' : fdIndex fd' = .ok i) :
    fd = fd' := by
  unfold fdIndex at h h'
  split at h
  case isTrue hrange =>
      split at h'
      case isTrue hrange' =>
          have heq := (Except.ok.inj h).trans (Except.ok.inj h').symm
          omega
      case isFalse => cases h'
  case isFalse => cases h

/-- In the first sector the place of an inode is its number. -/
theorem toNat_inoRemain {n : Nat} (hn : n < 8) : (UInt32.ofNat (inoRemain n)).toNat = n := by
  have hremain : (inoRemain n).val = n := by
    simp only [inoRemain]
    omega
  rw [hremain, UInt32.toNat_ofNat']
  exact Nat.mod_eq_of_lt (by omega)

/-- `fopen` fails, or takes the next free descriptor. -/
theorem fopen_cases {free : List Nat}
    (himpl : Implements σ.fdArraySlist fdArraySlistSize free) (s : CString) (access : UInt32) :
    fopen s access σ = (σ, -1) ∨
      ∃ (n t : Nat) (rest : List Nat), (isFileExist s σ).toNat = n ∧ n ≠ 0 ∧
        (readInodes σ.disk n (inoRemain n)).type = fileNormal ∧ free = (t + 1) :: rest ∧
        fdIndex (t : Int) = .ok t ∧
        fopen s access σ =
          (setFd t ⟨UInt32.ofNat (inoRemain n), access, (readInodes σ.disk n (inoRemain n)).size, 0⟩
            { σ with fdArraySlist := (slistAlloc σ.fdArraySlist).2 }, (t : Int)) := by
  by_cases hexist : (isFileExist s σ).toNat = 0
  · left
    rw [fopen, if_pos hexist]
  · rw [fopen, if_neg hexist]
    dsimp only
    split
    case isTrue => exact .inl rfl
    case isFalse htype =>
        cases free with
        | nil =>
            left
            have halloc := slistAlloc_nil himpl
            rw [fdArrayAlloc, halloc]
            rfl
        | cons t rest =>
            obtain ⟨ht, -, hpos, hlt, -⟩ := slistAlloc_cons himpl
            obtain ⟨t, rfl⟩ := Nat.exists_eq_add_of_le' hpos
            have hindex : fdIndex t = .ok t := fdIndex_natCast (Nat.lt_of_succ_lt_succ hlt)
            refine .inr ⟨_, t, rest, rfl, hexist, not_not.mp htype, rfl, hindex, ?_⟩
            have hfd : ((slistAlloc σ.fdArraySlist).1 : Int) - 1 = t := by
              rw [ht]
              omega
            have hne : ¬ (t : Int) = -1 := by omega
            simp only [fdArrayAlloc, hfd, if_neg hne, Int.toNat_natCast]

/-! ## Sessions -/

inductive FdCall where
  | fopen (s : CString) (access : UInt32)
  | fclose (fd : Int)
  | fread (fd : Int) (size : UInt32)
  | fwrite (fd : Int) (buf : Nat → UInt8) (size : UInt32)
  | fseek (fd : Int) (offset : UInt32)

/-- The file system, and the descriptors that are open. -/
structure Session where
  fs : FsState
  opened : Finset Int

def FdCall.run : FdCall → Session → Except Fault Session
  | .fopen s access, t =>
      let (σ, fd) := Fs.fopen s access t.fs
      .ok ⟨σ, if fd = -1 then t.opened else insert fd t.opened⟩
  | .fclose fd, t => .ok ⟨(Fs.fclose fd t.fs).1, t.opened.erase fd⟩
  | .fread fd size, t => do
      let (σ, _) ← Fs.fread fd size t.fs
      .ok ⟨σ, t.opened⟩
  | .fwrite fd buf size, t => do
      let (σ, _) ← Fs.fwrite fd buf size t.fs
      .ok ⟨σ, t.opened⟩
  | .fseek fd offset, t => do
      let σ ← Fs.fseek fd offset t.fs
      .ok ⟨σ, t.opened⟩

def sessions : Lts Session FdCall where
  step s call t := call.run s = .ok t

end UcasOs.Fs

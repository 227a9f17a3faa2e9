import UcasOs.Fs.AllOrNothing
import UcasOs.Fs.Descriptors

/-!
# The size of a file

`fwrite` adds the number of bytes it has written to the size in the inode and
to the size in its descriptor, wherever in the file they were written.  Both
are the extent of the file as long as every write begins at the end of the
file, through the only descriptor.
-/

namespace UcasOs.Fs

open UcasOs.Foundation UcasOs.Libs

/-- A session on one file, with the largest end offset of a write so far. -/
structure Extents where
  session : Session
  extent : Nat

/-- Where the bytes end that a call has written. -/
def FdCall.endOffset (σ : FsState) : FdCall → Nat
  | .fwrite fd buf size =>
      match fdIndex fd, Fs.fwrite fd buf size σ with
      | .ok i, .ok (_, written) => (σ.fdArray i).offset.toNat + written.toNat
      | _, _ => 0
  | _ => 0

/-- The calls on the file called `name`: the descriptors are its own, `fseek` stays within its
size and `fwrite` within ten blocks. -/
def FdCall.Concerns (name : CString) (n : Nat) (s : Session) : FdCall → Prop
  | .fopen name' _ => name' = name
  | .fclose _ => False
  | .fread fd _ => fd ∈ s.opened
  | .fwrite fd _ size => fd ∈ s.opened ∧
      ∀ i, fdIndex fd = .ok i → (s.fs.fdArray i).offset.toNat + size.toNat ≤ 5120
  | .fseek fd offset => fd ∈ s.opened ∧
      offset.toNat ≤ ((volume s.fs.disk).inode n).size.toNat

def oneFile (name : CString) (n : Nat) : Lts Extents FdCall where
  step s call t := call.Concerns name n s.session ∧ sessions.step s.session call t.session ∧
    t.extent = max s.extent (call.endOffset s.session.fs)

/-- The file called `name` has inode `n`, is empty and not open. -/
structure Unwritten (name : CString) (n : Nat) (s : Extents) : Prop where
  cached : Cached s.session.fs
  list : ∃ free, Implements s.session.fs.fdArraySlist fdArraySlistSize free
  name : (isFileExist name s.session.fs).toNat = n
  bound : n < inodeItemNum
  size : ((volume s.session.fs.disk).inode n).size = 0
  sizeAllocated : ((volume s.session.fs.disk).inode n).sizeAllocated = 0
  opened : s.session.opened = ∅
  extent : s.extent = 0

/-- The sizes in the inode and in the open descriptors are the extent of the file. -/
structure SizeIsExtent (n : Nat) (s : Extents) : Prop where
  inode : ((volume s.session.fs.disk).inode n).size.toNat = s.extent
  fd : ∀ fd ∈ s.session.opened, ∀ i, fdIndex fd = .ok i →
    (s.session.fs.fdArray i).size.toNat = s.extent

/-- The call writes nothing, or to the end of the file through its only descriptor. -/
def Appends (n : Nat) (s : Extents) : FdCall → Prop
  | .fwrite fd _ size => ∀ i, fdIndex fd = .ok i →
      (s.session.fs.fdArray i).writable = false ∨ size = 0 ∨
      (n < 8 ∧ (¬ Allocates (missing i n size s.session.fs) s.session.fs ∨
        ((s.session.fs.fdArray i).offset = ((volume s.session.fs.disk).inode n).size ∧
          s.session.opened ⊆ {fd})))
  | _ => True

/-! ## The invariant -/

/-- An open descriptor of the file. -/
structure FdKept (n extent : Nat) (f : Fd) : Prop where
  size : f.size.toNat = extent
  offset : f.offset.toNat ≤ extent
  ino : n < 8 → f.ino.toNat = n

structure SizeKept (name : CString) (n : Nat) (s : Extents) : Prop where
  cached : Cached s.session.fs
  list : ∃ free, Implements s.session.fs.fdArraySlist fdArraySlistSize free
  name : (isFileExist name s.session.fs).toNat = n
  bound : n < inodeItemNum
  held : Held (volume s.session.fs.disk) ((volume s.session.fs.disk).inode n)
  size : ((volume s.session.fs.disk).inode n).size.toNat = s.extent
  room : s.extent ≤ ((volume s.session.fs.disk).inode n).sizeAllocated.toNat
  ten : ((volume s.session.fs.disk).inode n).sizeAllocated.toNat ≤ 5120
  fds : ∀ fd ∈ s.session.opened, ∃ i, fdIndex fd = .ok i ∧
    FdKept n s.extent (s.session.fs.fdArray i)
  early : n < 8 ∨ s.extent = 0

variable {name : CString} {n : Nat} {s t : Extents} {call : FdCall}

theorem Unwritten.sizeKept (h : Unwritten name n s) : SizeKept name n s := by
  have hblocks : ((volume s.session.fs.disk).inode n).blocks = 0 := by
    rw [Inode.blocks, h.sizeAllocated]
    rfl
  refine ⟨h.cached, h.list, h.name, h.bound, ⟨?_, ?_, ?_⟩, ?_, ?_, ?_, ?_, .inr h.extent⟩
  · rw [h.sizeAllocated]
    rfl
  · simp [hblocks]
  · simp [hblocks]
  · rw [h.size, h.extent]
    rfl
  · rw [h.extent]
    exact Nat.zero_le _
  · rw [h.sizeAllocated]
    decide
  · simp [h.opened]

theorem SizeKept.sizeIsExtent (h : SizeKept name n s) : SizeIsExtent n s := by
  refine ⟨h.size, fun fd hfd i hi => ?_⟩
  obtain ⟨j, hj, hkept⟩ := h.fds fd hfd
  rw [hi] at hj
  cases hj
  exact hkept.size

/-- Only the descriptors have changed. -/
theorem SizeKept.setFds (h : SizeKept name n s) {opened : Finset Int} {fdArray : Nat → Fd}
    {fdArraySlist : Slist} (hlist : ∃ free, Implements fdArraySlist fdArraySlistSize free)
    (hfds : ∀ fd ∈ opened, ∃ i, fdIndex fd = .ok i ∧ FdKept n s.extent (fdArray i)) :
    SizeKept name n ⟨⟨{ s.session.fs with fdArray, fdArraySlist }, opened⟩, s.extent⟩ :=
  ⟨h.cached.congr fdArray fdArraySlist, hlist, h.name, h.bound, h.held, h.size, h.room, h.ten,
    hfds, h.early⟩

/-- A descriptor has been moved within the file. -/
theorem SizeKept.move (h : SizeKept name n s) (i : Nat) {offset : UInt32}
    (hoffset : offset.toNat ≤ s.extent) :
    SizeKept name n ⟨⟨setFd i { s.session.fs.fdArray i with offset := offset } s.session.fs,
      s.session.opened⟩, s.extent⟩ := by
  refine h.setFds h.list fun fd hfd => ?_
  obtain ⟨j, hj, hkept⟩ := h.fds fd hfd
  refine ⟨j, hj, ?_⟩
  by_cases hji : j = i
  · subst hji
    rw [Function.update_self]
    exact ⟨hkept.size, hoffset, hkept.ino⟩
  · rw [Function.update_of_ne hji]
    exact hkept

theorem SizeKept.fopen (h : SizeKept name n s) (access : UInt32) :
    SizeKept name n ⟨⟨(Fs.fopen name access s.session.fs).1,
      if (Fs.fopen name access s.session.fs).2 = -1 then s.session.opened
      else insert (Fs.fopen name access s.session.fs).2 s.session.opened⟩, s.extent⟩ := by
  obtain ⟨free, himpl⟩ := h.list
  rcases fopen_cases himpl name access with hfail | ⟨m, t, rest, hm, -, -, rfl, ht, hopen⟩
  · rw [hfail, if_pos rfl]
    exact h
  · obtain rfl : n = m := h.name.symm.trans hm
    obtain ⟨-, himpl', -⟩ := slistAlloc_cons himpl
    rw [hopen, if_neg (by show ¬ (t : Int) = -1; omega)]
    -- the new descriptor begins with the size that the inode has
    have hnew : FdKept n s.extent ⟨UInt32.ofNat (inoRemain n), access,
        (readInodes s.session.fs.disk n (inoRemain n)).size, 0⟩ := by
      refine ⟨?_, Nat.zero_le _, fun hn => ?_⟩
      · rw [readInodes_remain _ h.bound]
        exact h.size
      · exact toNat_inoRemain hn
    refine h.setFds ⟨rest, himpl'⟩ fun fd hfd => ?_
    rcases Finset.mem_insert.mp hfd with rfl | hold
    · exact ⟨t, ht, by
        rw [Function.update_self]
        exact hnew⟩
    · obtain ⟨j, hj, hkept⟩ := h.fds fd hold
      refine ⟨j, hj, ?_⟩
      by_cases hjt : j = t
      · rw [hjt, Function.update_self]
        exact hnew
      · rw [Function.update_of_ne hjt]
        exact hkept

theorem SizeKept.fread (h : SizeKept name n s) {fd : Int} (hfd : fd ∈ s.session.opened)
    (size : UInt32) : ∃ σ' bytes total, Fs.fread fd size s.session.fs = .ok (σ', bytes, total) ∧
      SizeKept name n ⟨⟨σ', s.session.opened⟩, s.extent⟩ := by
  obtain ⟨i, hi, hkept⟩ := h.fds fd hfd
  by_cases hnothing : (s.session.fs.fdArray i).readable = false ∨
      (s.session.fs.fdArray i).size = (s.session.fs.fdArray i).offset
  · exact ⟨_, _, _, fread_nothing hi hnothing, h⟩
  · rw [not_or] at hnothing
    have hoffset := hkept.offset
    have hsize := hkept.size
    have hroom := h.room
    have hten := h.ten
    have hn : n < 8 := h.early.resolve_right fun hzero => hnothing.2 (UInt32.toNat_inj.mp (by omega))
    obtain ⟨total, htotal, hcall⟩ := fread_reads size hi (by simpa using hnothing.1) (hkept.ino hn)
      h.bound h.held (by omega) (by omega) (by omega)
    refine ⟨_, _, _, hcall, h.move i ?_⟩
    rw [UInt32.toNat_add, Nat.mod_eq_of_lt (by omega)]
    omega

theorem FdCall.endOffset_fwrite {σ σ' : FsState} {fd : Int} {i : Nat} {buf : Nat → UInt8}
    {size written : UInt32} (hi : fdIndex fd = .ok i)
    (hcall : Fs.fwrite fd buf size σ = .ok (σ', written)) :
    (FdCall.fwrite fd buf size).endOffset σ = (σ.fdArray i).offset.toNat + written.toNat := by
  simp only [FdCall.endOffset, hi, hcall]

/-- A call that wrote nothing, or to the end of the file through its only descriptor. -/
theorem SizeKept.wrote (h : SizeKept name n s) {fd : Int} {i : Nat} {buf : Nat → UInt8}
    {size written : UInt32} {ds : List Nat} {x : Inode} {σ' : FsState}
    (hfd : fd ∈ s.session.opened) (hn : n < 8) (hrequest : WriteRequest fd i n size s.session.fs)
    (hwrote : Wrote i n buf size written ds x s.session.fs σ')
    (happend : written = 0 ∨
      ((s.session.fs.fdArray i).offset = ((volume s.session.fs.disk).inode n).size ∧
        s.session.opened ⊆ {fd})) :
    SizeKept name n ⟨⟨σ', s.session.opened⟩,
      max s.extent ((s.session.fs.fdArray i).offset.toNat + written.toNat)⟩ := by
  obtain ⟨j, hj, hkept⟩ := h.fds fd hfd
  obtain rfl : j = i := Except.ok.inj (hj.symm.trans hrequest.index)
  have hoffset := hkept.offset
  have hsize := hkept.size
  have hinode := h.size
  have hroom := h.room
  have hten := h.ten
  have hfit := hrequest.fit
  have hallocated := hwrote.sizeAllocated
  have hwritten : written.toNat ≤ size.toNat := by
    obtain ⟨σ₁, -, ⟨rfl, -⟩ | ⟨rfl, -⟩⟩ := hwrote.outcome
    · exact le_refl _
    · exact Nat.zero_le _
  -- in both cases the extent grows by what was written
  have hextent : max s.extent ((s.session.fs.fdArray j).offset.toNat + written.toNat) =
      s.extent + written.toNat := by
    rcases happend with rfl | ⟨hend, -⟩
    · rw [UInt32.toNat_zero]
      omega
    · rw [hend, hinode]
      omega
  have hsum : ∀ z : UInt32, z.toNat = s.extent → (z + written).toNat = s.extent + written.toNat := by
    intro z hz
    rw [UInt32.toNat_add, hz]
    exact Nat.mod_eq_of_lt (by omega)
  have hroom' : s.extent + written.toNat ≤ x.sizeAllocated.toNat := by
    obtain ⟨σ₁, -, ⟨rfl, -, hle⟩ | ⟨rfl, -, -⟩⟩ := hwrote.outcome
    · rcases happend with rfl | ⟨hend, -⟩
      · rw [UInt32.toNat_zero]
        omega
      · rw [hend, hinode] at hle
        exact hle
    · rw [UInt32.toNat_zero]
      omega
  rw [hextent]
  refine ⟨hwrote.cached, ?_, ?_, h.bound, hwrote.held_self, ?_, ?_, ?_, fun fd' hfd' => ?_, .inl hn⟩
  · show ∃ free, Implements σ'.fdArraySlist fdArraySlistSize free
    rw [hwrote.fdArraySlist]
    exact h.list
  · show (isFileExist name σ').toNat = n
    rw [hwrote.name_same]
    exact h.name
  · show ((volume σ'.disk).inode n).size.toNat = _
    rw [hwrote.inode_self]
    exact hsum _ hinode
  · show _ ≤ ((volume σ'.disk).inode n).sizeAllocated.toNat
    rw [hwrote.inode_self]
    show _ ≤ x.sizeAllocated.toNat
    exact hroom'
  · show ((volume σ'.disk).inode n).sizeAllocated.toNat ≤ 5120
    rw [hwrote.inode_self]
    show x.sizeAllocated.toNat ≤ 5120
    rcases hwrote.sizeAllocated_le h.held.aligned hfit with rfl | hle
    · rw [hallocated]
      exact hten
    · rw [hallocated]
      exact hle
  · obtain ⟨k, hk, hkept'⟩ := h.fds fd' hfd'
    refine ⟨k, hk, ?_⟩
    show FdKept n (s.extent + written.toNat) (σ'.fdArray k)
    by_cases hkj : k = j
    · subst hkj
      rw [hwrote.fd_self]
      refine ⟨hsum _ hsize, ?_, hkept.ino⟩
      show ((s.session.fs.fdArray k).offset + written).toNat ≤ _
      rw [UInt32.toNat_add, Nat.mod_eq_of_lt (by omega)]
      omega
    · rw [hwrote.fd_other hkj]
      rcases happend with rfl | ⟨-, honly⟩
      · rw [UInt32.toNat_zero]
        exact hkept'
      · rw [Finset.mem_singleton.mp (honly hfd'), hj] at hk
        exact absurd (Except.ok.inj hk).symm hkj

theorem SizeKept.fwrite (h : SizeKept name n s) {fd : Int} {buf : Nat → UInt8} {size : UInt32}
    (hconcerns : (FdCall.fwrite fd buf size).Concerns name n s.session)
    (happends : Appends n s (.fwrite fd buf size)) :
    ∃ σ' written, Fs.fwrite fd buf size s.session.fs = .ok (σ', written) ∧
      SizeKept name n ⟨⟨σ', s.session.opened⟩,
        max s.extent ((FdCall.fwrite fd buf size).endOffset s.session.fs)⟩ := by
  obtain ⟨hfd, hfit⟩ := hconcerns
  obtain ⟨i, hi, hkept⟩ := h.fds fd hfd
  by_cases hnothing : (s.session.fs.fdArray i).writable = false ∨ size = 0
  · have hcall := fwrite_nothing buf hi hnothing
    refine ⟨_, _, hcall, ?_⟩
    have hoffset := hkept.offset
    rw [FdCall.endOffset_fwrite hi hcall, UInt32.toNat_zero, max_eq_left (by omega)]
    exact h
  · rw [not_or] at hnothing
    obtain ⟨hn, hcase⟩ := ((happends i hi).resolve_left hnothing.1).resolve_left hnothing.2
    have hrequest : WriteRequest fd i n size s.session.fs :=
      ⟨h.cached, hi, by simpa using hnothing.1, hkept.ino hn, h.bound, h.held,
        hkept.offset.trans h.room, hfit i hi⟩
    obtain ⟨written, ds, x, σ', hwrote, hcall⟩ := hrequest.wrote buf
    refine ⟨σ', written, hcall, ?_⟩
    rw [FdCall.endOffset_fwrite hi hcall]
    refine h.wrote hfd hn hrequest hwrote ?_
    rcases hrequest.outcome hwrote with ⟨-, halloc, -⟩ | ⟨hzero, -⟩
    · exact .inr (hcase.resolve_left (not_not.mpr halloc))
    · exact .inl hzero

/-! ## Every run -/

theorem oneFile_unique {u : Extents} (h : (oneFile name n).step s call t)
    (h' : (oneFile name n).step s call u) : t = u := by
  obtain ⟨⟨σ, opened⟩, extent⟩ := t
  obtain ⟨⟨σ', opened'⟩, extent'⟩ := u
  cases h.2.1.symm.trans h'.2.1
  cases h.2.2.trans h'.2.2.symm
  rfl

/-- A call that writes nothing. -/
theorem oneFile_quiet {u : Session} (hconcerns : call.Concerns name n s.session)
    (hrun : call.run s.session = .ok u) (hend : call.endOffset s.session.fs = 0) :
    (oneFile name n).step s call ⟨u, s.extent⟩ := by
  refine ⟨hconcerns, hrun, ?_⟩
  rw [hend]
  exact (Nat.max_zero _).symm

/-- A call under the condition returns, and keeps the sizes right. -/
theorem SizeKept.next (h : SizeKept name n s) (hconcerns : call.Concerns name n s.session)
    (happends : Appends n s call) :
    ∃ t, (oneFile name n).step s call t ∧ SizeKept name n t := by
  cases call with
  | fopen name' access =>
      have hname : name' = name := hconcerns
      subst hname
      exact ⟨_, oneFile_quiet hconcerns rfl rfl, h.fopen access⟩
  | fclose fd => exact hconcerns.elim
  | fread fd size =>
      obtain ⟨σ', bytes, total, hcall, hkept⟩ := h.fread hconcerns size
      have hrun : (FdCall.fread fd size).run s.session = .ok ⟨σ', s.session.opened⟩ :=
        bind_eq_ok.mpr ⟨_, hcall, rfl⟩
      exact ⟨_, oneFile_quiet hconcerns hrun rfl, hkept⟩
  | fwrite fd buf size =>
      obtain ⟨σ', written, hcall, hkept⟩ := h.fwrite hconcerns happends
      have hrun : (FdCall.fwrite fd buf size).run s.session = .ok ⟨σ', s.session.opened⟩ :=
        bind_eq_ok.mpr ⟨_, hcall, rfl⟩
      exact ⟨⟨⟨σ', s.session.opened⟩, _⟩, ⟨hconcerns, hrun, rfl⟩, hkept⟩
  | fseek fd offset =>
      obtain ⟨hfd, hle⟩ := hconcerns
      obtain ⟨i, hi, -⟩ := h.fds fd hfd
      have hcall : Fs.fseek fd offset s.session.fs =
          .ok (setFd i { s.session.fs.fdArray i with offset := offset } s.session.fs) := by
        rw [Fs.fseek, if_neg (ne_minus_of_fdIndex hi), hi]
        rfl
      have hrun : (FdCall.fseek fd offset).run s.session = .ok
          ⟨setFd i { s.session.fs.fdArray i with offset := offset } s.session.fs,
            s.session.opened⟩ :=
        bind_eq_ok.mpr ⟨_, hcall, rfl⟩
      refine ⟨_, oneFile_quiet ⟨hfd, hle⟩ hrun rfl, h.move i ?_⟩
      rwa [h.size] at hle

theorem SizeKept.step (h : SizeKept name n s)
    (hstep : ((oneFile name n).restrict (Appends n)).step s call t) : SizeKept name n t := by
  obtain ⟨u, hu, hkept⟩ := h.next hstep.2.1 hstep.1
  rwa [oneFile_unique hstep.2 hu]

/-- As long as everything is written to the end of the file, through its only descriptor, its size
is its extent; and the calls return. -/
theorem sizeIsExtent_of_run {name : CString} {n : Nat} {s t : Extents} {calls : List FdCall}
    (h : Unwritten name n s) (run : ((oneFile name n).restrict (Appends n)).Run s calls t) :
    SizeIsExtent n t ∧ ∀ call, call.Concerns name n t.session → Appends n t call →
      ∃ u, (oneFile name n).step t call u := by
  have hkept : SizeKept name n t :=
    run.invariant (fun _ _ _ hs hstep => hs.step hstep) h.sizeKept
  refine ⟨hkept.sizeIsExtent, fun call hconcerns happends => ?_⟩
  obtain ⟨u, hu, -⟩ := hkept.next hconcerns happends
  exact ⟨u, hu⟩

/-- The empty file `a` before it is opened. -/
def unwritten : Extents := ⟨⟨(touch fileName newFs).1, ∅⟩, 0⟩

theorem unwritten_start : Unwritten fileName 1 unwritten := by
  obtain ⟨p, k, n, htouched⟩ := newFs_touched
  refine ⟨by simpa only [unwritten] using htouched.mounted.cached, ?_, by decide +kernel,
    by decide, by decide +kernel, by decide +kernel, rfl, rfl⟩
  have hlist : unwritten.session.fs.fdArraySlist = newFs.fdArraySlist := by
    simpa only [unwritten] using htouched.fdArraySlist
  rw [hlist]
  exact ⟨_, slistInit_implements (by decide)⟩

/-- The file has been opened. -/
def openedOnce (s : Extents) : Extents :=
  ⟨⟨(fopen fileName oRdwr s.session.fs).1,
    if (fopen fileName oRdwr s.session.fs).2 = -1 then s.session.opened
    else insert (fopen fileName oRdwr s.session.fs).2 s.session.opened⟩, s.extent⟩

theorem openedOnce_step (s : Extents) :
    (oneFile fileName n).step s (.fopen fileName oRdwr) (openedOnce s) :=
  oneFile_quiet rfl rfl rfl

/-- Three bytes, through the first descriptor. -/
def firstWrite : FdCall := .fwrite 0 (fun _ => 7) 3

theorem sizeIsExtent_first :
    Unwritten fileName 1 unwritten ∧ ∃ t, ((oneFile fileName 1).restrict (Appends 1)).Run unwritten
      [.fopen fileName oRdwr, firstWrite] t ∧ SizeIsExtent 1 t := by
  have run : ((oneFile fileName 1).restrict (Appends 1)).Run unwritten [.fopen fileName oRdwr]
      (openedOnce unwritten) := .single ⟨trivial, openedOnce_step unwritten⟩
  have hconcerns : firstWrite.Concerns fileName 1 (openedOnce unwritten).session := by
    refine ⟨by decide +kernel, fun i hi => ?_⟩
    cases hi
    decide +kernel
  have happends : Appends 1 (openedOnce unwritten) firstWrite := by
    intro i hi
    cases hi
    exact .inr (.inr ⟨by decide, .inr ⟨by decide +kernel, by decide +kernel⟩⟩)
  obtain ⟨t, hstep⟩ := (sizeIsExtent_of_run unwritten_start run).2 firstWrite hconcerns happends
  have run' := run.snoc ⟨happends, hstep⟩
  exact ⟨unwritten_start, t, run', (sizeIsExtent_of_run unwritten_start run').1⟩

/-- A second descriptor does not learn of what is written through the first. -/
theorem sizeIsExtent_not_two :
    ¬ ∀ (name : CString) (n : Nat) (s t : Extents) (calls : List FdCall), Unwritten name n s →
      (oneFile name n).Run s calls t → SizeIsExtent n t := by
  intro h
  obtain ⟨s, hs⟩ : ∃ s, s = openedOnce (openedOnce unwritten) := ⟨_, rfl⟩
  have run : (oneFile fileName 1).Run unwritten [.fopen fileName oRdwr, .fopen fileName oRdwr] s :=
    hs ▸ .snoc (.single (openedOnce_step unwritten)) (openedOnce_step _)
  have hkept : SizeKept fileName 1 s := by
    rw [hs]
    exact (unwritten_start.sizeKept.fopen oRdwr).fopen oRdwr
  have hfirst : (0 : Int) ∈ s.session.opened ∧ (1 : Int) ∈ s.session.opened := by
    rw [hs]
    decide +kernel
  have hentry : (s.session.fs.fdArray 0).writable = true ∧ (s.session.fs.fdArray 0).offset = 0 ∧
      s.extent = 0 := by
    rw [hs]
    decide +kernel
  have halloc : Allocates (missing 0 1 3 s.session.fs) s.session.fs := by
    have hmissing : missing 0 1 3 s.session.fs = 1 := by
      rw [hs]
      decide +kernel
    rw [hmissing, hs]
    exact allocates_of_iterate (by decide +kernel)
  obtain ⟨i, hi, hfd⟩ := hkept.fds 0 hfirst.1
  obtain rfl : i = 0 := (Except.ok.inj hi).symm
  have hfit : (s.session.fs.fdArray 0).offset.toNat + (3 : UInt32).toNat ≤ 5120 := by
    rw [hentry.2.1]
    decide
  have hrequest : WriteRequest 0 0 1 3 s.session.fs :=
    ⟨hkept.cached, hi, hentry.1, hfd.ino (by decide), hkept.bound, hkept.held,
      hfd.offset.trans hkept.room, hfit⟩
  obtain ⟨written, ds, x, σ', hwrote, hcall⟩ := hrequest.wrote fun _ => 7
  obtain rfl : written = 3 := by
    rcases hrequest.outcome hwrote with ⟨hw, -, -⟩ | ⟨-, hnone⟩
    · exact hw
    · exact absurd halloc hnone
  have hconcerns : firstWrite.Concerns fileName 1 s.session := by
    refine ⟨hfirst.1, fun i hi => ?_⟩
    cases hi
    exact hfit
  have hrun : firstWrite.run s.session = .ok ⟨σ', s.session.opened⟩ :=
    bind_eq_ok.mpr ⟨_, hcall, rfl⟩
  have hall := h fileName 1 unwritten ⟨⟨σ', s.session.opened⟩, _⟩ _ unwritten_start
    (run.snoc ⟨hconcerns, hrun, rfl⟩)
  have hsize : (σ'.fdArray 1).size.toNat = max s.extent (firstWrite.endOffset s.session.fs) :=
    hall.fd 1 hfirst.2 1 rfl
  obtain ⟨j, hj, hfd'⟩ := hkept.fds 1 hfirst.2
  obtain rfl : j = 1 := (Except.ok.inj hj).symm
  rw [hwrote.fd_other (by decide), hfd'.size, firstWrite, FdCall.endOffset_fwrite hi hcall,
    hentry.2.1, hentry.2.2] at hsize
  exact absurd hsize (by decide)

end UcasOs.Fs

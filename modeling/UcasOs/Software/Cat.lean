import UcasOs.Fs.Descriptors
import UcasOs.Fs.RoundTrip
import UcasOs.Libs.Printk
import Mathlib.Algebra.Order.BigOperators.Group.List

/-!
# The command `cat`

`kernel/software/shell.c` reads a file 512 bytes at a time and gives every
piece to `printf` as a string.
-/

namespace UcasOs.Software

open UcasOs.Foundation UcasOs.Libs UcasOs.Fs

/-- `memcopy` to the start of the buffer. -/
def fill (buf : Bytes 513) (copied : List UInt8) : Bytes 513 := fun j =>
  copied.getD j (buf j)

/-- A call of `printf`; a missing argument is read from memory that belongs to none. -/
def print (fmt : CString) (va : List VaArg) : Except Fault (List UInt8) :=
  (printf fmt va).elim (.error .outside) .ok

/-- The reads of `cat`, at most `n` of them, and the strings that `sys_write` is given. -/
def catReads (fd : Int) : Nat → Bytes 513 → FsState → Except Fault (FsState × List (List UInt8))
  | 0, _, _ => .error .endless
  | n + 1, buf, σ => do
      let (σ, copied, size) ← fread fd sectorSize σ
      let buf := fill buf copied
      if size = sectorSize then
        let line ← print stringFormat [.pointer (List.ofFn buf)]
        let (σ, lines) ← catReads fd n buf σ
        .ok (σ, line :: lines)
      else if h : size.toNat < 513 then
        let line ← print stringFormat
          [.pointer (List.ofFn (Function.update buf ⟨size.toNat, h⟩ 0))]
        .ok (σ, [line])
      else .error .outside

def openFailed : CString := ⟨"Error: open file failed.\n".toUTF8.toList, by decide +kernel⟩

/-- `buf` is on the stack, with whatever is there. -/
def cat (argString : CString) (n : Nat) (buf : Bytes 513) (σ : FsState) :
    Except Fault (FsState × List (List UInt8)) :=
  let (σ, fd) := fopen argString oRd σ
  if fd = -1 then do
    let line ← print openFailed []
    .ok (σ, [line])
  else catReads fd n (Function.update buf 512 0) σ

/-- Reading on through `fd`, 512 bytes at a time, gives `data` and then nothing. -/
def Delivers (fd : Int) (σ : FsState) (data : List UInt8) : Prop :=
  ∃ states : Nat → FsState, states 0 = σ ∧ ∀ k, fread fd sectorSize (states k) =
    .ok (states (k + 1), (data.drop (512 * k)).take 512,
      UInt32.ofNat (min 512 (data.length - 512 * k)))

/-! ## What is printed -/

theorem print_buffer {b : Bytes 513} {s : List UInt8} (h : untilZero (List.ofFn b) = s) :
    print stringFormat [.pointer (List.ofFn b)] = .ok (s.take 255) := by
  have hlen : (List.ofFn b).length < 2 ^ 32 := by
    rw [List.length_ofFn]
    omega
  rw [print, printf_string hlen, h]
  rfl

/-- A piece in the buffer, ended by a zero. -/
theorem untilZero_fill {buf b : Bytes 513} {copied : List UInt8} (hzero : 0 ∉ copied)
    (hlen : copied.length < 513) (hsame : ∀ j, j.val < copied.length → b j = fill buf copied j)
    (hend : b ⟨copied.length, hlen⟩ = 0) : untilZero (List.ofFn b) = copied := by
  apply untilZero_ofFn hzero hlen _ hend
  intro j hj
  rw [hsame j hj, fill]
  exact List.getD_eq_getElem _ _ hj

theorem fill_behind {buf : Bytes 513} {copied : List UInt8} {j : Fin 513}
    (hj : copied.length ≤ j.val) : fill buf copied j = buf j :=
  List.getD_eq_default _ _ hj

theorem print_full {buf : Bytes 513} (hend : buf 512 = 0) {copied : List UInt8}
    (hzero : 0 ∉ copied) (hlen : copied.length = 512) :
    print stringFormat [.pointer (List.ofFn (fill buf copied))] = .ok (copied.take 255) := by
  apply print_buffer
  apply untilZero_fill hzero (by omega) (fun _ _ => rfl)
  have hlast : (⟨copied.length, by omega⟩ : Fin 513) = 512 := Fin.ext hlen
  rw [hlast, fill_behind (by rw [hlen]; rfl), hend]

theorem print_last {buf : Bytes 513} {copied : List UInt8} {n : Nat} (hzero : 0 ∉ copied)
    (hlen : copied.length = n) (h : n < 513) :
    print stringFormat [.pointer (List.ofFn (Function.update (fill buf copied) ⟨n, h⟩ 0))] =
      .ok (copied.take 255) := by
  subst hlen
  apply print_buffer
  apply untilZero_fill hzero h
  · intro j hj
    exact Function.update_of_ne (fun heq => by rw [heq] at hj; exact lt_irrefl _ hj) _ _
  · exact Function.update_self ..

/-- What `sys_write` is given from the `k`-th piece on. -/
def printed (data : List UInt8) (k : Nat) : List (List UInt8) :=
  (List.range' k (data.length / 512 + 1 - k)).map fun j => (data.drop (512 * j)).take 255

theorem printed_last (data : List UInt8) :
    printed data (data.length / 512) = [(data.drop (512 * (data.length / 512))).take 255] := by
  rw [printed, Nat.add_sub_cancel_left]
  rfl

theorem printed_cons {data : List UInt8} {k : Nat} (hk : k < data.length / 512) :
    printed data k = (data.drop (512 * k)).take 255 :: printed data (k + 1) := by
  rw [printed, show data.length / 512 + 1 - k = (data.length / 512 + 1 - (k + 1)) + 1 by omega,
    List.range'_succ]
  rfl

theorem catReads_printed {fd : Int} {data : List UInt8} {states : Nat → FsState}
    (hreads : ∀ k, fread fd sectorSize (states k) = .ok (states (k + 1),
      (data.drop (512 * k)).take 512, UInt32.ofNat (min 512 (data.length - 512 * k))))
    (hzero : 0 ∉ data) {n k : Nat} (hk : k ≤ data.length / 512) (hn : data.length / 512 < n + k)
    {buf : Bytes 513} (hbuf : buf 512 = 0) :
    ∃ σ', catReads fd n buf (states k) = .ok (σ', printed data k) := by
  induction n generalizing k buf with
  | zero => omega
  | succ n ih =>
      have hpiece : 0 ∉ (data.drop (512 * k)).take 512 := fun h =>
        hzero (List.mem_of_mem_drop (List.mem_of_mem_take h))
      have hlength : ((data.drop (512 * k)).take 512).length =
          min 512 (data.length - 512 * k) := by
        rw [List.length_take, List.length_drop]
      have htake : ((data.drop (512 * k)).take 512).take 255 = (data.drop (512 * k)).take 255 := by
        rw [List.take_take]
        rfl
      have hsize : (UInt32.ofNat (min 512 (data.length - 512 * k))).toNat =
          min 512 (data.length - 512 * k) := by
        rw [UInt32.toNat_ofNat']
        exact Nat.mod_eq_of_lt (by omega)
      rw [catReads, hreads k, ok_bind]
      dsimp only
      by_cases hlast : k = data.length / 512
      · -- fewer than 512 bytes are left
        have hne : UInt32.ofNat (min 512 (data.length - 512 * k)) ≠ sectorSize := by
          intro heq
          rw [heq, show sectorSize.toNat = 512 from rfl] at hsize
          omega
        refine ⟨states (k + 1), ?_⟩
        rw [if_neg hne, dif_pos (by omega), print_last hpiece (hlength.trans hsize.symm), ok_bind,
          htake, hlast, printed_last]
      · have heq : UInt32.ofNat (min 512 (data.length - 512 * k)) = sectorSize := by
          rw [show min 512 (data.length - 512 * k) = 512 by omega]
          rfl
        have hfull : ((data.drop (512 * k)).take 512).length = 512 := by omega
        have hbuf' : fill buf ((data.drop (512 * k)).take 512) 512 = 0 := by
          rw [fill_behind (by rw [hfull]; rfl), hbuf]
        have hcons : printed data k = _ := printed_cons (by omega)
        obtain ⟨σ', hrest⟩ := ih (k := k + 1) (by omega) (by omega) hbuf'
        refine ⟨σ', ?_⟩
        rw [if_pos heq, print_full hbuf hpiece hfull, ok_bind, hrest, ok_bind, htake, hcons]

/-- Cut lines never make up for a file that is longer than one of them. -/
theorem flatten_printed_iff (data : List UInt8) :
    (printed data 0).flatten = data ↔ data.length ≤ 255 := by
  constructor
  · intro h
    by_contra hlong
    have hline : ∀ line ∈ (printed data 0).map List.length, line ≤ 255 := by
      simp only [printed, List.map_map, List.mem_map, Function.comp_apply]
      rintro _ ⟨j, -, rfl⟩
      rw [List.length_take]
      omega
    have hsum := List.sum_le_card_nsmul _ 255 hline
    rw [← List.length_flatten, h, List.length_map, printed, List.length_map, List.length_range',
      Nat.nsmul_eq_mul] at hsum
    omega
  · intro hshort
    have hzero : data.length / 512 = 0 := by omega
    rw [printed, hzero]
    simpa using hshort

/-- What `cat` prints of a file that `fread` delivers. -/
theorem cat_printed {argString : CString} {σ σ₁ : FsState} {fd : Int} {data : List UInt8}
    (hopen : fopen argString oRd σ = (σ₁, fd)) (hfd : fd ≠ -1) (hdelivers : Delivers fd σ₁ data)
    (hzero : 0 ∉ data) {n : Nat} (hn : data.length / 512 < n) (buf : Bytes 513) :
    ∃ σ', cat argString n buf σ = .ok (σ', printed data 0) := by
  obtain ⟨states, rfl, hreads⟩ := hdelivers
  rw [cat, hopen]
  dsimp only
  rw [if_neg hfd]
  exact catReads_printed hreads hzero (Nat.zero_le _) hn (Function.update_self ..)

/-! ## Files that are delivered -/

/-- The current directory has a file of that name, with that content. -/
structure HasFile (name : CString) (n : Nat) (data : List UInt8) (σ : FsState) : Prop where
  name : (isFileExist name σ).toNat = n
  nonzero : n ≠ 0
  early : n < 8
  type : ((volume σ.disk).inode n).type = fileNormal
  size : ((volume σ.disk).inode n).size.toNat = data.length
  short : data.length ≤ 5120
  held : Held (volume σ.disk) ((volume σ.disk).inode n)
  room : data.length ≤ ((volume σ.disk).inode n).sizeAllocated.toNat
  content : fileBytes (volume σ.disk) ((volume σ.disk).inode n) 0 data.length = data

variable {name : CString} {n i : Nat} {data : List UInt8} {σ : FsState}

/-- The descriptor that `cat` gets, once the reads have come to `offset`. -/
def readFd (n : Nat) (σ : FsState) (offset : Nat) : Fd :=
  { access := oRd, ino := UInt32.ofNat (inoRemain n), offset := UInt32.ofNat offset,
    size := ((volume σ.disk).inode n).size }

theorem HasFile.fopen (h : HasFile name n data σ) (hfree : (slistAlloc σ.fdArraySlist).1 = i + 1) :
    fopen name oRd σ =
      (setFd i (readFd n σ 0) { σ with fdArraySlist := (slistAlloc σ.fdArraySlist).2 },
        (i : Int)) := by
  have hbound : n < inodeItemNum := h.early.trans (by decide)
  have hfd : ((slistAlloc σ.fdArraySlist).1 : Int) - 1 = i := by
    rw [hfree]
    omega
  have hminus : ¬ (i : Int) = -1 := by omega
  simp only [Fs.fopen, h.name, h.nonzero, if_false, readInodes_remain σ.disk hbound, h.type,
    ne_eq, not_true_eq_false, fdArrayAlloc, hfd, hminus, Int.toNat_natCast]
  rfl

/-- One read from where the reads before it have ended. -/
theorem HasFile.fread (h : HasFile name n data σ) {fd : Int} (hfd : fdIndex fd = .ok i) (k : Nat) :
    fread fd sectorSize (setFd i (readFd n σ (min data.length (512 * k))) σ) =
      .ok (setFd i (readFd n σ (min data.length (512 * (k + 1)))) σ,
        (data.drop (512 * k)).take 512, UInt32.ofNat (min 512 (data.length - 512 * k))) := by
  have hshort := h.short
  have hoffset : ∀ m, (UInt32.ofNat (min data.length m)).toNat = min data.length m := by
    intro m
    rw [UInt32.toNat_ofNat']
    exact Nat.mod_eq_of_lt (by omega)
  obtain ⟨f, hf⟩ : ∃ f, f = readFd n σ (min data.length (512 * k)) := ⟨_, rfl⟩
  have hat : f.offset.toNat = min data.length (512 * k) := by
    rw [hf]
    exact hoffset _
  have hsize : f.size.toNat = data.length := by
    rw [hf]
    exact h.size
  have hfd' : (setFd i f σ).fdArray i = f := setFd_self i f σ
  have hreadable : ((setFd i f σ).fdArray i).readable = true := by
    rw [hfd', hf]
    rfl
  have hino : ((setFd i f σ).fdArray i).ino.toNat = n := by
    rw [hfd', hf]
    exact toNat_inoRemain h.early
  obtain ⟨total, htotal, hcall⟩ := fread_reads sectorSize hfd hreadable hino
    (h.early.trans (by decide)) h.held (by rw [hfd', hat, hsize]; omega)
    (by rw [hfd', hsize]; exact h.room) (by rw [hfd', hsize]; exact h.short)
  rw [hfd', hat, hsize, show sectorSize.toNat = 512 from rfl] at htotal
  have hrest : data.length - min data.length (512 * k) = data.length - 512 * k := by omega
  rw [hrest] at htotal
  have hword : total = UInt32.ofNat (min 512 (data.length - 512 * k)) := by
    rw [← htotal, UInt32.ofNat_toNat]
  have hnext : f.offset + total = UInt32.ofNat (min data.length (512 * (k + 1))) := by
    apply UInt32.toNat_inj.mp
    rw [UInt32.toNat_add, hat, htotal, hoffset, Nat.mod_eq_of_lt (by omega)]
    omega
  have hpiece : fileBytes (volume σ.disk) ((volume σ.disk).inode n) f.offset.toNat total.toNat =
      (data.drop (512 * k)).take 512 := by
    rw [fileBytes_piece h.content (by omega), hat, htotal]
    rcases Nat.le_total (512 * k) data.length with hle | hle
    · rw [min_eq_right hle, ← List.length_drop, List.take_eq_take_iff, List.length_drop]
      omega
    · rw [min_eq_left hle, List.drop_length, List.drop_eq_nil_of_le hle, List.take_nil,
        List.take_nil]
  have hpiece' : fileBytes (volume (setFd i f σ).disk) ((volume (setFd i f σ).disk).inode n)
      f.offset.toNat total.toNat = (data.drop (512 * k)).take 512 := hpiece
  have hmoved : readFd n σ (min data.length (512 * (k + 1))) =
      { f with offset := f.offset + total } := by
    rw [hnext, hf]
    rfl
  rw [← hf, hcall, hfd', hpiece', ← hword, hmoved]
  simp only [setFd, Function.update_idem]

/-- A file with that content can be written. -/
theorem exists_hasFile (hpos : 0 < data.length) (hlen : data.length ≤ 512) :
    ∃ σ, HasFile fileName 1 data σ ∧ σ.fdArraySlist = openFs.fdArraySlist := by
  obtain ⟨j, hj, hstart⟩ := openFs_empty.appended
  have hbytes : (UInt32.ofNat data.length).toNat = data.length := by
    rw [UInt32.toNat_ofNat']
    exact Nat.mod_eq_of_lt (by omega)
  have halloc : Allocates (blocksFor data.length - blocksFor 0) openFs := by
    rw [show blocksFor data.length - blocksFor 0 = 1 by unfold blocksFor; omega]
    exact openFs_allocates.1
  obtain ⟨σ, hcall, hdata, -⟩ := hstart.fwrite (by decide) hj (show data.length ≤ 5120 by omega)
    (show ([] : List UInt8).length + data.length ≤ data.length by simp) halloc
  rw [List.nil_append, List.length_nil, landed_short hlen] at hdata
  have hoffset : (openFs.fdArray j).offset.toNat = 0 := hstart.offset
  obtain ⟨written, ds, x, σ', hwrote, hstores⟩ := fwriteStores_wrote (source data) hstart.cached hj
    (by rw [Fd.writable, hstart.access]; rfl) hstart.ino (by decide) hstart.held
    (by rw [hoffset]; exact Nat.zero_le _)
    (show _ + (UInt32.ofNat data.length).toNat ≤ 5120 by rw [hoffset, hbytes]; omega)
  rw [fwrite, hstores] at hcall
  obtain ⟨rfl, hwritten⟩ := Prod.mk.inj (Except.ok.inj hcall)
  have hself := hwrote.inode_self
  refine ⟨σ', ⟨?_, by decide, by decide, ?_, ?_, hdata.short, hdata.held, ?_, hdata.content⟩,
    hwrote.fdArraySlist⟩
  · rw [hwrote.name_same]
    decide +kernel
  · rw [hself]
    show x.type = fileNormal
    rw [hwrote.places, places_type]
    decide +kernel
  · rw [hself]
    show (((volume openFs.disk).inode 1).size + written).toNat = data.length
    rw [openFs_empty.size, hwritten, UInt32.zero_add, hbytes]
  · rw [hdata.allocated]
    unfold blocksFor
    omega

theorem HasFile.delivers (h : HasFile name n data σ) {fd : Int} (hfd : fdIndex fd = .ok i) :
    Delivers fd (setFd i (readFd n σ 0) σ) data := by
  refine ⟨fun k => setFd i (readFd n σ (min data.length (512 * k))) σ, ?_, h.fread hfd⟩
  simp only [Nat.mul_zero, Nat.min_zero]

theorem exists_delivered (hpos : 0 < data.length) (hlen : data.length ≤ 512) :
    ∃ σ σ₁, Fs.fopen fileName oRd σ = (σ₁, 1) ∧ Delivers 1 σ₁ data := by
  obtain ⟨σ, hfile, hlist⟩ := exists_hasFile hpos hlen
  have hfree : (slistAlloc σ.fdArraySlist).1 = 1 + 1 := by
    rw [hlist]
    decide +kernel
  have hrest : HasFile fileName 1 data { σ with fdArraySlist := (slistAlloc σ.fdArraySlist).2 } :=
    ⟨hfile.name, hfile.nonzero, hfile.early, hfile.type, hfile.size, hfile.short, hfile.held,
      hfile.room, hfile.content⟩
  exact ⟨σ, _, hfile.fopen hfree, hrest.delivers rfl⟩

/-! ## What `cat` shows -/

/--
`cat` shows a file without zeros as it is exactly if it fits in the buffer of
`printf`, whatever is on the stack; eleven reads are enough.
-/
theorem cat_shows_iff {argString : CString} {σ σ₁ : FsState} {fd : Int} {data : List UInt8}
    (hopen : fopen argString oRd σ = (σ₁, fd)) (hfd : fd ≠ -1) (hdelivers : Delivers fd σ₁ data)
    (hzero : 0 ∉ data) (hshort : data.length ≤ 5120) {n : Nat} (hn : 11 ≤ n) (buf : Bytes 513) :
    ∃ σ' lines, cat argString n buf σ = .ok (σ', lines) ∧
      (lines.flatten = data ↔ data.length ≤ 255) := by
  obtain ⟨σ', hcat⟩ := cat_printed hopen hfd hdelivers hzero (by omega : data.length / 512 < n) buf
  exact ⟨σ', _, hcat, flatten_printed_iff data⟩

/-- A file of three bytes is shown. -/
theorem cat_shows_three : ∃ σ σ₁, Fs.fopen fileName oRd σ = (σ₁, 1) ∧
    Delivers 1 σ₁ [72, 105, 10] ∧
    ∃ σ' lines, cat fileName 11 (fun _ => 0) σ = .ok (σ', lines) ∧
      lines.flatten = [72, 105, 10] := by
  obtain ⟨σ, σ₁, hopen, hdelivers⟩ :=
    exists_delivered (show 0 < [(72 : UInt8), 105, 10].length by decide) (by decide)
  obtain ⟨σ', lines, hcat, hshows⟩ :=
    cat_shows_iff hopen (by decide) hdelivers (by decide) (by decide) (Nat.le_refl 11) fun _ => 0
  exact ⟨σ, σ₁, hopen, hdelivers, σ', lines, hcat, hshows.mpr (by decide)⟩

/-- Of 256 bytes the last one is lost. -/
theorem cat_not_shows :
    ¬ ∀ (argString : CString) (σ σ₁ : FsState) (fd : Int) (data : List UInt8),
      Fs.fopen argString oRd σ = (σ₁, fd) → fd ≠ -1 → Delivers fd σ₁ data → 0 ∉ data →
      data.length ≤ 5120 → ∀ n buf, 11 ≤ n →
        ∃ σ' lines, cat argString n buf σ = .ok (σ', lines) ∧ lines.flatten = data := by
  intro h
  have hlength : (List.replicate 256 (65 : UInt8)).length = 256 := List.length_replicate
  have hzero : 0 ∉ List.replicate 256 (65 : UInt8) := fun hmem =>
    absurd (List.eq_of_mem_replicate hmem) (by decide)
  obtain ⟨σ, σ₁, hopen, hdelivers⟩ :=
    exists_delivered (show 0 < (List.replicate 256 (65 : UInt8)).length by omega) (by omega)
  obtain ⟨σ', lines, hcat, hflatten⟩ :=
    h fileName σ σ₁ 1 _ hopen (by decide) hdelivers hzero (by omega) 11 (fun _ => 0) (by decide)
  obtain ⟨σ'', hprinted⟩ := cat_printed hopen (by decide) hdelivers hzero
    (show _ < 11 by omega) fun _ => 0
  rw [hprinted] at hcat
  obtain ⟨-, rfl⟩ := Prod.mk.inj (Except.ok.inj hcat)
  have hshort := (flatten_printed_iff _).mp hflatten
  omega

end UcasOs.Software

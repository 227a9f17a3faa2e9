import UcasOs.Fs.FileData

/-!
# Reading back what was written

Strings are written to an empty file one after another, and the file is read
back from its start.  Each sector is filled from the start of the string, so
the bytes come back exactly where every string that goes on in a new block
goes on with its own beginning.
-/

namespace UcasOs.Fs

open UcasOs.Foundation UcasOs.Libs

/-! ## Calls -/

/-- The memory that a string is written from. -/
def source (bytes : List UInt8) (j : Nat) : UInt8 := bytes.getD j 0

def fwrites (fd : Int) : List (List UInt8) → FsState → Except Fault (FsState × List UInt32)
  | [], σ => .ok (σ, [])
  | bytes :: rest, σ => do
      let (σ, written) ← fwrite fd (source bytes) (UInt32.ofNat bytes.length) σ
      let (σ, answers) ← fwrites fd rest σ
      .ok (σ, written :: answers)

def freads (fd : Int) : List UInt32 → FsState → Except Fault (FsState × List (List UInt8 × UInt32))
  | [], σ => .ok (σ, [])
  | size :: rest, σ => do
      let (σ, bytes, total) ← fread fd size σ
      let (σ, pieces) ← freads fd rest σ
      .ok (σ, (bytes, total) :: pieces)

/-- The answers of the reads when `remaining` bytes are left. -/
def counts : Nat → List UInt32 → List Nat
  | _, [] => []
  | remaining, size :: rest =>
      min size.toNat remaining :: counts (remaining - min size.toNat remaining) rest

/-- Apart from inode `n` and from blocks that were not in use before, nothing has changed. -/
structure Confined (n : Nat) (v v' : Volume) : Prop where
  imap : v'.imap = v.imap
  inode : ∀ m, m ≠ n → v'.inode m = v.inode m
  block : ∀ d < dataItemNum, ¬ (v.used d = false ∧ v'.used d = true) →
    v'.dir (dataBlock d) = v.dir (dataBlock d)

/-- The strings are written, each in full, and read back in pieces of the given sizes. -/
def RoundTrip (fd : Int) (n : Nat) (strings : List (List UInt8)) (sizes : List UInt32)
    (σ : FsState) : Prop :=
  ∃ σ₁ σ₂ σ₃ answers pieces,
    fwrites fd strings σ = .ok (σ₁, answers) ∧
    answers.map UInt32.toNat = strings.map List.length ∧
    fseek fd 0 σ₁ = .ok σ₂ ∧
    freads fd sizes σ₂ = .ok (σ₃, pieces) ∧
    pieces.map (fun piece => piece.2.toNat) = counts strings.flatten.length sizes ∧
    (pieces.map Prod.fst).flatten = strings.flatten.take (sizes.map UInt32.toNat).sum ∧
    Confined n (volume σ.disk) (volume σ₃.disk)

/-- A descriptor at the start of an empty file, on a mounted disk. -/
structure EmptyFile (fd : Int) (n : Nat) (σ : FsState) : Prop where
  cached : Cached σ
  fd : ∃ i, fdIndex fd = .ok i ∧ (σ.fdArray i).access = oRdwr ∧ (σ.fdArray i).ino.toNat = n ∧
    (σ.fdArray i).offset = 0 ∧ (σ.fdArray i).size = 0
  ino : n < inodeItemNum
  size : ((volume σ.disk).inode n).size = 0
  sizeAllocated : ((volume σ.disk).inode n).sizeAllocated = 0

/--
Where one of the strings, written from `offset` on, goes on in a new block of
the file, it goes on with its own beginning; only the bytes before `limit` count.
-/
def Repeats (limit : Nat) : Nat → List (List UInt8) → Prop
  | _, [] => True
  | offset, bytes :: rest =>
      (∀ j < bytes.length, offset + j < limit → offset < 512 * ((offset + j) / 512) →
        source bytes j = source bytes ((offset + j) % 512)) ∧
      Repeats limit (offset + bytes.length) rest

/-! ## What lands in the file -/

/-- What a string written from `offset` on leaves in the file. -/
def landed (offset : Nat) (bytes : List UInt8) : List UInt8 :=
  (List.range bytes.length).map fun j =>
    source bytes (offset + j - max offset (512 * ((offset + j) / 512)))

def landedAll : Nat → List (List UInt8) → List UInt8
  | _, [] => []
  | offset, bytes :: rest => landed offset bytes ++ landedAll (offset + bytes.length) rest

@[simp] theorem length_landed (offset : Nat) (bytes : List UInt8) :
    (landed offset bytes).length = bytes.length := by
  simp [landed]

/-- A string that fits in one block lands as it is. -/
theorem landed_short {bytes : List UInt8} (h : bytes.length ≤ 512) : landed 0 bytes = bytes := by
  apply List.ext_getElem (length_landed 0 bytes)
  intro j hj hj'
  have hplace : 0 + j - max 0 (512 * ((0 + j) / 512)) = j := by omega
  simp only [landed, List.getElem_map, List.getElem_range, hplace, source]
  exact List.getD_eq_getElem _ _ hj'

theorem length_landedAll (offset : Nat) (strings : List (List UInt8)) :
    (landedAll offset strings).length = strings.flatten.length := by
  induction strings generalizing offset with
  | nil => rfl
  | cons bytes rest ih => simp [landedAll, ih]

theorem take_landed_iff (limit offset : Nat) (bytes : List UInt8) :
    (landed offset bytes).take limit = bytes.take limit ↔
      ∀ j < bytes.length, j < limit → offset < 512 * ((offset + j) / 512) →
        source bytes j = source bytes ((offset + j) % 512) := by
  have hget : ∀ j (hj : j < bytes.length), bytes[j] = source bytes j := by
    intro j hj
    simp [source, hj]
  have hland : ∀ j (hj : j < (landed offset bytes).length), (landed offset bytes)[j] =
      source bytes (offset + j - max offset (512 * ((offset + j) / 512))) := by
    intro j hj
    simp [landed]
  constructor
  · intro h j hj hlimit hcross
    have hj' : j < (landed offset bytes).length := by simpa using hj
    have heq := congrArg (·[j]?) h
    simp only [List.getElem?_take_of_lt hlimit, List.getElem?_eq_getElem hj,
      List.getElem?_eq_getElem hj', Option.some.injEq] at heq
    rw [hland j hj', hget j hj] at heq
    rw [← heq, max_eq_right hcross.le]
    congr 1
    omega
  · intro h
    apply List.ext_getElem
    · simp
    · intro j hj _
      simp only [List.length_take, length_landed] at hj
      rw [List.getElem_take, List.getElem_take, hland j (by simp; omega), hget j (by omega)]
      by_cases hcross : offset < 512 * ((offset + j) / 512)
      · rw [h j (by omega) (by omega) hcross, max_eq_right hcross.le]
        congr 1
        omega
      · rw [max_eq_left (by omega), Nat.add_sub_cancel_left]

theorem take_landedAll_iff (limit offset : Nat) (strings : List (List UInt8)) :
    (landedAll offset strings).take (limit - offset) = strings.flatten.take (limit - offset) ↔
      Repeats limit offset strings := by
  induction strings generalizing offset with
  | nil => simp [landedAll, Repeats]
  | cons bytes rest ih =>
      have hstep : limit - offset - bytes.length = limit - (offset + bytes.length) := by omega
      rw [landedAll, List.flatten_cons, List.take_append, List.take_append, length_landed, hstep,
        Repeats, ← ih]
      have hinj : ∀ {a b c d : List UInt8}, a.length = b.length →
          (a ++ c = b ++ d ↔ a = b ∧ c = d) := by
        intro a b c d hlength
        exact ⟨fun h => List.append_inj h hlength, fun ⟨h, h'⟩ => by rw [h, h']⟩
      rw [hinj (by simp), take_landed_iff]
      refine and_congr_left fun _ => ⟨fun h j hj hlimit => h j hj (by omega),
        fun h j hj hlimit => h j hj (by omega)⟩

/-! ## Writing -/

/-- The number of blocks that `n` bytes take. -/
def blocksFor (n : Nat) : Nat := (n + 511) / 512

/-- Since `σ₀` the file of inode `n`, empty then, has been filled with `data` through the
descriptor `i`. -/
structure Appended (i n : Nat) (σ₀ σ : FsState) (data : List UInt8) : Prop where
  cached : Cached σ
  access : (σ.fdArray i).access = oRdwr
  ino : (σ.fdArray i).ino.toNat = n
  offset : (σ.fdArray i).offset.toNat = data.length
  size : (σ.fdArray i).size.toNat = data.length
  short : data.length ≤ 5120
  held : Held (volume σ.disk) ((volume σ.disk).inode n)
  allocated : ((volume σ.disk).inode n).sizeAllocated.toNat = 512 * blocksFor data.length
  content : fileBytes (volume σ.disk) ((volume σ.disk).inode n) 0 data.length = data
  imap : (volume σ.disk).imap = (volume σ₀.disk).imap
  inode : ∀ m, m ≠ n → (volume σ.disk).inode m = (volume σ₀.disk).inode m
  used : ∀ d, (volume σ₀.disk).used d = true → (volume σ.disk).used d = true
  fresh : ∀ k < 10, k < ((volume σ.disk).inode n).blocks → ∀ d < dataItemNum,
    ((volume σ.disk).inode n).pointer k = dataBlock d → (volume σ₀.disk).used d = false
  frame : ∀ p, (∀ k < 10, k < ((volume σ.disk).inode n).blocks →
    p ≠ ((volume σ.disk).inode n).pointer k) → (volume σ.disk).dir p = (volume σ₀.disk).dir p

variable {i n : Nat} {fd : Int} {σ₀ σ σ' : FsState} {data bytes : List UInt8}

theorem EmptyFile.appended (h : EmptyFile fd n σ) :
    ∃ i, fdIndex fd = .ok i ∧ Appended i n σ σ [] := by
  obtain ⟨i, hi, haccess, hino, hoffset, hsize⟩ := h.fd
  have hblocks : ((volume σ.disk).inode n).blocks = 0 := by
    rw [Inode.blocks, h.sizeAllocated]
    rfl
  refine ⟨i, hi, h.cached, haccess, hino, ?_, ?_, by simp, ⟨?_, ?_, ?_⟩, ?_, rfl, rfl,
    fun _ _ => rfl, fun _ => id, ?_, fun _ _ => rfl⟩
  · rw [hoffset]
    rfl
  · rw [hsize]
    rfl
  · rw [h.sizeAllocated]
    rfl
  · simp [hblocks]
  · simp [hblocks]
  · rw [h.sizeAllocated]
    rfl
  · simp [hblocks]

theorem toNat_length (h : data.length + bytes.length ≤ 5120) :
    (UInt32.ofNat bytes.length).toNat = bytes.length := by
  rw [UInt32.toNat_ofNat']
  exact Nat.mod_eq_of_lt (by omega)

/-- The file grows by as many blocks as it lacks. -/
theorem blocksFor_add {o m l : Nat} (hneeded : ∀ j < l, 512 * blocksFor o + 512 * j < o + m)
    (hroom : o + m ≤ 512 * blocksFor o + 512 * l) : blocksFor o + l = blocksFor (o + m) := by
  unfold blocksFor at hneeded hroom ⊢
  cases l with
  | zero => omega
  | succ l =>
      have hlast := hneeded l (Nat.lt_succ_self l)
      omega

section

variable {ds : List Nat} {x : Inode} {size written : UInt32} {buf : Nat → UInt8}

theorem Appended.blocks (h : Appended i n σ₀ σ data) :
    ((volume σ.disk).inode n).blocks = blocksFor data.length := by
  rw [Inode.blocks, h.allocated]
  omega

/-- A write that found its blocks appends to the file. -/
theorem Appended.wrote (h : Appended i n σ₀ σ data) (hfit : data.length + bytes.length ≤ 5120)
    (hwrote : Wrote i n (source bytes) (UInt32.ofNat bytes.length) (UInt32.ofNat bytes.length) ds x
      σ σ')
    (hroom : data.length + bytes.length ≤ x.sizeAllocated.toNat) :
    Appended i n σ₀ σ' (data ++ landed data.length bytes) ∧
      blocksFor data.length + ds.length = blocksFor (data.length + bytes.length) := by
  have hbytes := toNat_length hfit
  have hlength := hwrote.sizeAllocated
  have hallocated := h.allocated
  have hcount : blocksFor data.length + ds.length = blocksFor (data.length + bytes.length) := by
    refine blocksFor_add (fun j hj => ?_) (by omega)
    have hneeded := hwrote.needed j hj
    rw [hbytes, h.offset, h.allocated] at hneeded
    exact hneeded
  have hten : blocksFor (data.length + bytes.length) ≤ 10 := by
    unfold blocksFor
    omega
  have hxsize : x.sizeAllocated.toNat = 512 * blocksFor (data.length + bytes.length) := by
    omega
  have hxblocks : x.blocks = blocksFor (data.length + bytes.length) := by
    rw [Inode.blocks, hxsize]
    omega
  have hold : ∀ k < blocksFor data.length,
      x.pointer k = ((volume σ.disk).inode n).pointer k := by
    intro k hk
    refine hwrote.pointer_old h.held.aligned ?_ (by omega) (by rwa [h.blocks])
    rw [h.offset, hbytes]
    exact hfit
  have hbyte : ∀ pos < data.length + bytes.length,
      fileByte (volume σ'.disk) ((volume σ'.disk).inode n) pos =
        if data.length ≤ pos ∧ pos < data.length + bytes.length then
          source bytes (pos - max data.length (512 * (pos / 512)))
        else fileByte (volume σ.disk) x pos := by
    intro pos hpos
    have := hwrote.fileByte (show pos < 5120 by omega) (by rw [hxblocks]; omega)
    rwa [h.offset, hbytes] at this
  refine ⟨⟨hwrote.cached, ?_, ?_, ?_, ?_, ?_, hwrote.held_self, ?_, ?_, hwrote.imap.trans h.imap,
    fun m hm => (hwrote.inode_other hm).trans (h.inode m hm), fun d hd => ?_,
    fun k hk hkb d hd hp => ?_, fun p hp => ?_⟩, hcount⟩
  · rw [hwrote.fd_self]
    exact h.access
  · rw [hwrote.fd_self]
    exact h.ino
  · rw [hwrote.fd_self, Fd.advance, UInt32.toNat_add, h.offset, hbytes, List.length_append,
      length_landed]
    exact Nat.mod_eq_of_lt (by omega)
  · rw [hwrote.fd_self, Fd.advance, UInt32.toNat_add, h.size, hbytes, List.length_append,
      length_landed]
    exact Nat.mod_eq_of_lt (by omega)
  · rw [List.length_append, length_landed]
    exact hfit
  · rw [hwrote.inode_self, List.length_append, length_landed]
    exact hxsize
  · rw [List.length_append, length_landed, fileBytes_add]
    congr 1
    · conv_rhs => rw [← h.content]
      apply List.map_congr_left
      intro j hj
      rw [List.mem_range] at hj
      rw [hbyte _ (by omega), if_neg (by omega), fileByte, fileByte,
        hold _ (by unfold blocksFor; omega)]
    · apply List.map_congr_left
      intro j hj
      rw [List.mem_range] at hj
      rw [hbyte _ (by omega), if_pos (by omega), Nat.zero_add]
  · rw [hwrote.used, h.used d hd, Bool.or_true]
  · rw [hwrote.pointer_self] at hp
    rw [hwrote.blocks_self] at hkb
    by_cases hnew : k < blocksFor data.length
    · rw [hold k hnew] at hp
      exact h.fresh k hk (by rwa [h.blocks]) d hd hp
    · rw [hwrote.places, places_pointer (by omega) h.held.aligned hk, h.blocks,
        if_pos (by omega)] at hp
      have hlt : k - blocksFor data.length < ds.length := by omega
      rw [List.getD_eq_getElem _ _ hlt] at hp
      have hmem := List.getElem_mem hlt
      obtain rfl := dataBlock_inj (hwrote.bound _ hmem) hd hp
      have hunused := hwrote.unused _ hmem
      rw [← Bool.not_eq_true] at hunused ⊢
      exact fun hd => hunused (h.used _ hd)
  · rw [hwrote.blocks_self] at hp
    refine (hwrote.frame p fun k hk hkb => ?_).trans (h.frame p fun k hk hkb => ?_)
    · rw [← hwrote.pointer_self]
      exact hp k hk hkb
    · rw [h.blocks] at hkb
      rw [← hold k hkb, ← hwrote.pointer_self]
      exact hp k hk (by omega)

theorem blocksFor_mono {a b : Nat} (h : a ≤ b) : blocksFor a ≤ blocksFor b := by
  unfold blocksFor
  omega

/-- One string, on a disk that has blocks for `total` bytes in all. -/
theorem Appended.fwrite (h : Appended i n σ₀ σ data) (hn : n < inodeItemNum)
    (hfd : fdIndex fd = .ok i) {total : Nat} (htotal : total ≤ 5120)
    (hfit : data.length + bytes.length ≤ total)
    (halloc : Allocates (blocksFor total - blocksFor data.length) σ) :
    ∃ σ', Fs.fwrite fd (source bytes) (UInt32.ofNat bytes.length) σ =
        .ok (σ', UInt32.ofNat bytes.length) ∧
      Appended i n σ₀ σ' (data ++ landed data.length bytes) ∧
      Allocates (blocksFor total - blocksFor (data.length + bytes.length)) σ' := by
  have hbytes := toNat_length (show data.length + bytes.length ≤ 5120 by omega)
  have hwritable : (σ.fdArray i).writable = true := by
    rw [Fd.writable, h.access]
    rfl
  have hallocated := h.allocated
  obtain ⟨written, ds, x, σ', hwrote, hcall⟩ := fwriteStores_wrote (source bytes) h.cached hfd
    hwritable h.ino hn h.held (by rw [h.offset, h.allocated]; unfold blocksFor; omega)
    (show _ + (UInt32.ofNat bytes.length).toNat ≤ 5120 by rw [h.offset, hbytes]; omega)
  have hsize := hwrote.sizeAllocated
  have hmono := blocksFor_mono hfit
  obtain ⟨σ₁, hallocs, ⟨hw, hmap, hroom⟩ | ⟨-, hnone, hfull⟩⟩ := hwrote.outcome
  · subst hw
    rw [h.offset, hbytes] at hroom
    obtain ⟨happended, hcount⟩ := h.wrote (by omega) hwrote hroom
    refine ⟨σ', ?_, happended, ?_⟩
    · rw [Fs.fwrite, hcall]
      rfl
    · refine Allocates.sameMap (Allocates.after ?_ hallocs) hmap
      rwa [show ds.length + (blocksFor total - blocksFor (data.length + bytes.length)) =
        blocksFor total - blocksFor data.length by omega]
  · -- the disk would have had one more block
    rw [h.offset, hbytes] at hfull
    have hmore : blocksFor data.length + ds.length < blocksFor total := by
      unfold blocksFor at hallocated ⊢
      omega
    obtain ⟨m, hm⟩ := Nat.exists_eq_add_of_lt hmore
    refine absurd hnone (Allocates.ne_none (m := m) (Allocates.after ?_ hallocs))
    rwa [show ds.length + (m + 1) = blocksFor total - blocksFor data.length by omega]

theorem Appended.fwrites (hn : n < inodeItemNum) (hfd : fdIndex fd = .ok i) {total : Nat}
    (htotal : total ≤ 5120) (strings : List (List UInt8)) {σ : FsState} {data : List UInt8}
    (h : Appended i n σ₀ σ data) (hfit : data.length + strings.flatten.length ≤ total)
    (halloc : Allocates (blocksFor total - blocksFor data.length) σ) :
    ∃ σ' answers, Fs.fwrites fd strings σ = .ok (σ', answers) ∧
      answers.map UInt32.toNat = strings.map List.length ∧
      Appended i n σ₀ σ' (data ++ landedAll data.length strings) := by
  induction strings generalizing σ data with
  | nil =>
      refine ⟨σ, [], rfl, rfl, ?_⟩
      rw [landedAll, List.append_nil]
      exact h
  | cons bytes rest ih =>
      rw [List.flatten_cons, List.length_append] at hfit
      obtain ⟨σ₁, hcall, h₁, halloc₁⟩ := h.fwrite hn hfd htotal
        (show data.length + bytes.length ≤ total by omega) halloc
      have hlength : (data ++ landed data.length bytes).length = data.length + bytes.length := by
        rw [List.length_append, length_landed]
      obtain ⟨σ', answers, hrest, hanswers, h'⟩ := ih h₁ (by omega) (by rwa [hlength])
      refine ⟨σ', UInt32.ofNat bytes.length :: answers, ?_, ?_, ?_⟩
      · simp only [Fs.fwrites, hcall, ok_bind, hrest]
      · rw [List.map_cons, List.map_cons, hanswers,
          toNat_length (show data.length + bytes.length ≤ 5120 by omega)]
      · rwa [landedAll, ← List.append_assoc, ← hlength]

end

/-! ## Reading -/

/-- The file of inode `n` holds `data`, and the descriptor `i` knows its size. -/
structure Stored (i n : Nat) (σ : FsState) (data : List UInt8) : Prop where
  access : (σ.fdArray i).access = oRdwr
  ino : (σ.fdArray i).ino.toNat = n
  size : (σ.fdArray i).size.toNat = data.length
  short : data.length ≤ 5120
  held : Held (volume σ.disk) ((volume σ.disk).inode n)
  room : data.length ≤ ((volume σ.disk).inode n).sizeAllocated.toNat
  content : fileBytes (volume σ.disk) ((volume σ.disk).inode n) 0 data.length = data

theorem Appended.stored (h : Appended i n σ₀ σ data) : Stored i n σ data := by
  refine ⟨h.access, h.ino, h.size, h.short, h.held, ?_, h.content⟩
  rw [h.allocated]
  unfold blocksFor
  omega

/-- The descriptor may be moved. -/
theorem Stored.seek (h : Stored i n σ data) (offset : UInt32) :
    Stored i n (setFd i { σ.fdArray i with offset := offset } σ) data := by
  refine ⟨?_, ?_, ?_, h.short, h.held, h.room, h.content⟩
  · rw [setFd_self]
    exact h.access
  · rw [setFd_self]
    exact h.ino
  · rw [setFd_self]
    exact h.size

theorem Stored.piece (h : Stored i n σ data) {o c : Nat} (hle : o + c ≤ data.length) :
    fileBytes (volume σ.disk) ((volume σ.disk).inode n) o c = (data.drop o).take c :=
  fileBytes_piece h.content hle

theorem take_append_take_min (l : List UInt8) (a b : Nat) :
    l.take (min a l.length) ++ (l.drop (min a l.length)).take b = l.take (a + b) := by
  rcases Nat.le_total a l.length with hle | hle
  · rw [min_eq_left hle, List.take_add]
  · rw [min_eq_right hle, List.drop_length, List.take_nil, List.append_nil, List.take_length,
      List.take_of_length_le (by omega)]

theorem Stored.freads (hn : n < inodeItemNum) (hfd : fdIndex fd = .ok i) (sizes : List UInt32)
    {σ : FsState} (h : Stored i n σ data) (hoffset : (σ.fdArray i).offset.toNat ≤ data.length) :
    ∃ σ' pieces, Fs.freads fd sizes σ = .ok (σ', pieces) ∧ σ'.disk = σ.disk ∧
      pieces.map (fun piece => piece.2.toNat) =
        counts (data.length - (σ.fdArray i).offset.toNat) sizes ∧
      (pieces.map Prod.fst).flatten =
        (data.drop (σ.fdArray i).offset.toNat).take (sizes.map UInt32.toNat).sum := by
  induction sizes generalizing σ with
  | nil => exact ⟨σ, [], rfl, rfl, rfl, by simp⟩
  | cons size rest ih =>
      have hreadable : (σ.fdArray i).readable = true := by
        rw [Fd.readable, h.access]
        rfl
      obtain ⟨total, htotal, hcall⟩ := fread_reads size hfd hreadable h.ino hn h.held
        (by rw [h.size]; exact hoffset) (by rw [h.size]; exact h.room)
        (by rw [h.size]; exact h.short)
      rw [h.size] at htotal
      rw [h.piece (by omega)] at hcall
      have hnext : ((setFd i { σ.fdArray i with offset := (σ.fdArray i).offset + total }
          σ).fdArray i).offset.toNat = (σ.fdArray i).offset.toNat + total.toNat := by
        have hshort := h.short
        rw [setFd_self, UInt32.toNat_add]
        exact Nat.mod_eq_of_lt (by omega)
      obtain ⟨σ', pieces, hrest, hdisk, hcounts, hbytes⟩ := ih
        (h.seek ((σ.fdArray i).offset + total)) (by rw [hnext]; omega)
      refine ⟨σ', ((data.drop (σ.fdArray i).offset.toNat).take total.toNat, total) :: pieces, ?_,
        hdisk, ?_, ?_⟩
      · simp only [Fs.freads, hcall, ok_bind, hrest]
      · rw [List.map_cons, counts, hcounts, hnext, htotal, Nat.sub_sub]
      · rw [List.map_cons, List.flatten_cons, hbytes, hnext, List.map_cons, List.sum_cons,
          ← List.drop_drop, htotal, ← List.length_drop]
        exact take_append_take_min _ _ _

/-! ## The round trip -/

theorem Appended.confined (h : Appended i n σ₀ σ data) :
    Confined n (volume σ₀.disk) (volume σ.disk) := by
  refine ⟨h.imap, h.inode, fun d hd hold => h.frame _ fun k hk hkb hp => ?_⟩
  obtain ⟨e, he, hpe, hused⟩ := h.held.owned k hk hkb
  obtain rfl := dataBlock_inj hd he (hp.trans hpe)
  exact hold ⟨h.fresh k hk hkb d he hpe, hused⟩

/-- What comes back is what has landed in the file. -/
theorem EmptyFile.reads {strings : List (List UInt8)} (h : EmptyFile fd n σ)
    (htotal : strings.flatten.length ≤ 5120)
    (halloc : Allocates (blocksFor strings.flatten.length) σ) (sizes : List UInt32) :
    ∃ σ₁ σ₂ σ₃ answers pieces,
      fwrites fd strings σ = .ok (σ₁, answers) ∧
      answers.map UInt32.toNat = strings.map List.length ∧
      fseek fd 0 σ₁ = .ok σ₂ ∧
      freads fd sizes σ₂ = .ok (σ₃, pieces) ∧
      pieces.map (fun piece => piece.2.toNat) = counts strings.flatten.length sizes ∧
      (pieces.map Prod.fst).flatten = (landedAll 0 strings).take (sizes.map UInt32.toNat).sum ∧
      Confined n (volume σ.disk) (volume σ₃.disk) := by
  obtain ⟨i, hfd, hstart⟩ := h.appended
  obtain ⟨σ₁, answers, hwrites, hanswers, h₁⟩ := hstart.fwrites h.ino hfd htotal strings
    (by simp) (by simpa [blocksFor] using halloc)
  rw [List.nil_append, List.length_nil] at h₁
  have hminus := ne_minus_of_fdIndex hfd
  have hseek : fseek fd 0 σ₁ = .ok (setFd i { σ₁.fdArray i with offset := 0 } σ₁) := by
    simp only [fseek, if_neg hminus, hfd, ok_bind]
  have hzero : ((setFd i { σ₁.fdArray i with offset := 0 } σ₁).fdArray i).offset.toNat = 0 := by
    rw [setFd_self]
    rfl
  obtain ⟨σ₃, pieces, hreads, hdisk, hcounts, hbytes⟩ := (h₁.stored.seek 0).freads h.ino hfd sizes
    (by rw [hzero]; exact Nat.zero_le _)
  rw [hzero, Nat.sub_zero, length_landedAll] at hcounts
  rw [hzero, List.drop_zero] at hbytes
  refine ⟨σ₁, _, σ₃, answers, pieces, hwrites, hanswers, hseek, hreads, hcounts, hbytes, ?_⟩
  rw [hdisk]
  exact h₁.confined

theorem roundTrip_landed {strings : List (List UInt8)} (h : EmptyFile fd n σ)
    (htotal : strings.flatten.length ≤ 5120)
    (halloc : Allocates (blocksFor strings.flatten.length) σ) (sizes : List UInt32) :
    RoundTrip fd n strings sizes σ ↔
      (landedAll 0 strings).take (sizes.map UInt32.toNat).sum =
        strings.flatten.take (sizes.map UInt32.toNat).sum := by
  obtain ⟨σ₁, σ₂, σ₃, answers, pieces, hwrites, hanswers, hseek, hreads, hcounts, hbytes,
    hconfined⟩ := h.reads htotal halloc sizes
  constructor
  · rintro ⟨τ₁, τ₂, τ₃, answers', pieces', hwrites', -, hseek', hreads', -, hbytes', -⟩
    rw [hwrites] at hwrites'
    cases hwrites'
    rw [hseek] at hseek'
    cases hseek'
    rw [hreads] at hreads'
    cases hreads'
    rw [← hbytes, hbytes']
  · intro heq
    exact ⟨σ₁, σ₂, σ₃, answers, pieces, hwrites, hanswers, hseek, hreads, hcounts,
      hbytes.trans heq, hconfined⟩

/-- The bytes come back exactly when every string that goes on in a new block goes on with its
own beginning there, as far as it is read. -/
theorem roundTrip_iff {fd : Int} {n : Nat} {σ : FsState} (h : EmptyFile fd n σ)
    (strings : List (List UInt8)) (htotal : strings.flatten.length ≤ 5120)
    (halloc : Allocates (blocksFor strings.flatten.length) σ) (sizes : List UInt32) :
    RoundTrip fd n strings sizes σ ↔ Repeats (sizes.map UInt32.toNat).sum 0 strings := by
  rw [roundTrip_landed h htotal halloc, ← take_landedAll_iff, Nat.sub_zero]

theorem openFs_empty : EmptyFile 0 1 openFs := by
  refine ⟨openFs_cached, ⟨0, rfl, ?_, ?_, ?_, ?_⟩, by decide, ?_, ?_⟩
  · decide +kernel
  · decide +kernel
  · decide +kernel
  · decide +kernel
  · decide +kernel
  · decide +kernel

theorem openFs_allocates : Allocates 1 openFs ∧ Allocates 2 openFs :=
  ⟨allocates_of_iterate (by decide +kernel), allocates_of_iterate (by decide +kernel)⟩

/-- Three bytes come back in two reads. -/
theorem roundTrip_three :
    EmptyFile 0 1 openFs ∧ Allocates (blocksFor 3) openFs ∧
      RoundTrip 0 1 [[1, 2, 3]] [2, 5] openFs := by
  refine ⟨openFs_empty, openFs_allocates.1,
    (roundTrip_iff openFs_empty [[1, 2, 3]] (by decide) openFs_allocates.1 [2, 5]).mpr ?_⟩
  refine ⟨fun j hj _ hcross => ?_, trivial⟩
  rw [List.length_cons, List.length_cons, List.length_cons, List.length_nil] at hj
  omega

/-- A block of zeros and a one. -/
def overflowing : List UInt8 := List.replicate 512 0 ++ [1]

/-- A string that does not fit in one block does not come back. -/
theorem roundTrip_overflowing :
    ¬ ∀ (fd : Int) (n : Nat) (σ : FsState) (strings : List (List UInt8)) (sizes : List UInt32),
      EmptyFile fd n σ → strings.flatten.length ≤ 5120 →
      Allocates (blocksFor strings.flatten.length) σ → RoundTrip fd n strings sizes σ := by
  intro h
  have hlength : [overflowing].flatten.length = 513 := by decide +kernel
  have hfit : [overflowing].flatten.length ≤ 5120 := by omega
  have halloc : Allocates (blocksFor [overflowing].flatten.length) openFs := by
    rw [hlength]
    exact openFs_allocates.2
  have htrip := h 0 1 openFs [overflowing] [513] openFs_empty hfit halloc
  rw [roundTrip_landed openFs_empty hfit halloc, ← Nat.sub_zero (List.sum _),
    take_landedAll_iff] at htrip
  have hlast : source overflowing 512 = source overflowing 0 :=
    htrip.1 512 (by decide +kernel) (by decide) (by decide)
  have hdiffer : source overflowing 512 ≠ source overflowing 0 := by decide +kernel
  exact hdiffer hlast

end UcasOs.Fs

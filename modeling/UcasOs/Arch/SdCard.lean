import UcasOs.Arch.Memcopy

/-!
# Bytes on the card

`sdwrite` and `sdread` of `arch/mips/pmon/common.c`, where they do not run under
QEMU.  The card moves whole sectors, so both go through a staging buffer at a
fixed address.  `sdread` fills it from the card before it takes bytes out;
`sdwrite` puts bytes in and writes the sector with whatever else is there.
-/

namespace UcasOs.Arch

open UcasOs.Foundation

structure Board where
  memory : Memory
  card : Nat → UInt8

/-- The two transfers of a sector, and what is relied on. -/
structure CardDriver where
  readSingleBlock : UInt32 → UInt32 → Board → Board
  writeBlock : UInt32 → UInt32 → Board → Board
  readSingleBlock_eq : ∀ sector buffer b, readSingleBlock sector buffer b =
    { b with memory := fun a =>
        if buffer.toNat ≤ a.toNat ∧ a.toNat < buffer.toNat + 512 then
          b.card (512 * sector.toNat + (a.toNat - buffer.toNat))
        else b.memory a }
  writeBlock_eq : ∀ sector buffer b, writeBlock sector buffer b =
    { b with card := fun x =>
        if x / 512 = sector.toNat then b.memory (buffer + UInt32.ofNat (x % 512)) else b.card x }

/-- The staging buffer of `sdwrite`. -/
abbrev writeBuf : UInt32 := 0xa0100400

/-- The staging buffer of `sdread`. -/
abbrev readBuf : UInt32 := 0xa0100200

/-- How many bytes one round moves. -/
def once (pos left : UInt32) : UInt32 :=
  if 512 - (pos &&& 511) < left then 512 - (pos &&& 511) else left

namespace CardDriver

variable (d : CardDriver)

def writeRound (buf pos k : UInt32) (b : Board) : Board :=
  let b := { b with memory := memcopy (writeBuf + (pos &&& 511)) buf k.toNat b.memory }
  d.writeBlock (pos >>> 9) writeBuf b

def readRound (buf pos k : UInt32) (b : Board) : Board :=
  let b := d.readSingleBlock (pos >>> 9) readBuf b
  { b with memory := memcopy buf (readBuf + (pos &&& 511)) k.toNat b.memory }

def sdwriteLoop : Nat → UInt32 → UInt32 → UInt32 → Board → Option Board
  | 0, _, _, left, b => if left = 0 then some b else none
  | fuel + 1, buf, pos, left, b =>
      if left = 0 then some b
      else
        let k := once pos left
        sdwriteLoop fuel (buf + k) (pos + k) (left - k) (d.writeRound buf pos k b)

def sdreadLoop : Nat → UInt32 → UInt32 → UInt32 → Board → Option Board
  | 0, _, _, left, b => if left = 0 then some b else none
  | fuel + 1, buf, pos, left, b =>
      if left = 0 then some b
      else
        let k := once pos left
        sdreadLoop fuel (buf + k) (pos + k) (left - k) (d.readRound buf pos k b)

/-- Every round moves a byte, so as many rounds as bytes are enough. -/
def sdwrite (buf base : UInt32) (n : Int) (b : Board) : Option (Int × Board) :=
  (d.sdwriteLoop (UInt32.ofInt n).toNat buf base (UInt32.ofInt n) b).map (n, ·)

def sdread (buf base : UInt32) (n : Int) (b : Board) : Option (Int × Board) :=
  (d.sdreadLoop (UInt32.ofInt n).toNat buf base (UInt32.ofInt n) b).map (n, ·)

end CardDriver

/-! ## Rounds -/

theorem toNat_and_511 (pos : UInt32) : (pos &&& 511).toNat = pos.toNat % 512 := by
  rw [UInt32.toNat_and]
  exact Word.and_low pos.toNat 9

theorem toNat_shift_9 (pos : UInt32) : (pos >>> 9).toNat = pos.toNat / 512 := by
  rw [UInt32.toNat_shiftRight]
  exact Nat.shiftRight_eq_div_pow _ 9

theorem toNat_once (pos left : UInt32) :
    (once pos left).toNat = min (512 - pos.toNat % 512) left.toNat := by
  have hmod := Nat.mod_lt pos.toNat (show 0 < 512 by decide)
  have hroom : (512 - (pos &&& 511)).toNat = 512 - pos.toNat % 512 := by
    rw [UInt32.toNat_sub_of_le _ _ (by rw [UInt32.le_iff_toNat_le, toNat_and_511]; exact hmod.le),
      toNat_and_511]
    rfl
  unfold once
  split
  case isTrue h =>
      rw [UInt32.lt_iff_toNat_lt] at h
      omega
  case isFalse h =>
      rw [UInt32.lt_iff_toNat_lt] at h
      omega

/-- A buffer in memory that is no part of the staging buffers. -/
structure Fits (buf : UInt32) (n : Nat) : Prop where
  inside : buf.toNat + n ≤ 2 ^ 32
  apart : buf.toNat + n ≤ 0xa0100200 ∨ 0xa0100600 ≤ buf.toNat

theorem Fits.rest {buf : UInt32} {n k : Nat} (h : Fits buf n) (hk : k < n) :
    (buf + UInt32.ofNat k).toNat = buf.toNat + k ∧ Fits (buf + UInt32.ofNat k) (n - k) := by
  have hinside := h.inside
  have haddr : (buf + UInt32.ofNat k).toNat = buf.toNat + k := Word.toNat_add_ofNat (by omega)
  refine ⟨haddr, ?_, ?_⟩
  · omega
  · have := h.apart
    omega

/-- An address in a staging buffer. -/
theorem toNat_staging {staging : UInt32} (pos : UInt32) (h : staging.toNat + 512 ≤ 2 ^ 32) :
    (staging + (pos &&& 511)).toNat = staging.toNat + pos.toNat % 512 := by
  have hmod := Nat.mod_lt pos.toNat (show 0 < 512 by decide)
  rw [UInt32.toNat_add, toNat_and_511, Nat.mod_eq_of_lt (by omega)]

theorem writeBuf_inside : writeBuf.toNat + 512 ≤ 2 ^ 32 := by decide

theorem readBuf_inside : readBuf.toNat + 512 ≤ 2 ^ 32 := by decide

namespace CardDriver

variable {d : CardDriver} {buf pos left k : UInt32} {b : Board}

/-- The staging buffer gets the bytes of the round. -/
theorem writeRound_memory (hfits : Fits buf k.toNat) (hk : pos.toNat % 512 + k.toNat ≤ 512) :
    (d.writeRound buf pos k b).memory =
      moved (writeBuf + (pos &&& 511)) buf k.toNat b.memory := by
  rw [writeRound, d.writeBlock_eq]
  refine memcopy_eq ?_ hfits.inside b.memory
  have hinside := writeBuf_inside
  rw [toNat_staging pos hinside]
  omega

theorem writeRound_outside (hfits : Fits buf k.toNat) (hk : pos.toNat % 512 + k.toNat ≤ 512)
    {a : UInt32} (ha : ¬ (writeBuf.toNat ≤ a.toNat ∧ a.toNat < writeBuf.toNat + 512)) :
    (d.writeRound buf pos k b).memory a = b.memory a := by
  rw [writeRound_memory hfits hk, moved, toNat_staging pos writeBuf_inside, if_neg (by omega)]

theorem writeRound_staging (hfits : Fits buf k.toNat) (hk : pos.toNat % 512 + k.toNat ≤ 512)
    {j : Nat} (hj : j < 512) :
    (d.writeRound buf pos k b).memory (writeBuf + UInt32.ofNat j) =
      if pos.toNat % 512 ≤ j ∧ j < pos.toNat % 512 + k.toNat then
        b.memory (buf + UInt32.ofNat (j - pos.toNat % 512))
      else b.memory (writeBuf + UInt32.ofNat j) := by
  have hinside := writeBuf_inside
  have haddr : (writeBuf + UInt32.ofNat j).toNat = writeBuf.toNat + j :=
    Word.toNat_add_ofNat (by omega)
  rw [writeRound_memory hfits hk, moved, toNat_staging pos hinside, haddr]
  refine ite_congr (propext ⟨fun h => by omega, fun h => by omega⟩) (fun _ => ?_) fun _ => rfl
  rw [Nat.add_sub_add_left]

/-- The whole sector is written. -/
theorem writeRound_card (x : Nat) :
    (d.writeRound buf pos k b).card x =
      if x / 512 = pos.toNat / 512 then
        (d.writeRound buf pos k b).memory (writeBuf + UInt32.ofNat (x % 512))
      else b.card x := by
  rw [writeRound, d.writeBlock_eq, toNat_shift_9]

theorem readRound_card : (d.readRound buf pos k b).card = b.card := by
  rw [readRound, d.readSingleBlock_eq]

/-- The buffer gets bytes of the sector. -/
theorem readRound_memory (hfits : Fits buf k.toNat) (hk : pos.toNat % 512 + k.toNat ≤ 512)
    {a : UInt32} (ha : ¬ (readBuf.toNat ≤ a.toNat ∧ a.toNat < readBuf.toNat + 512)) :
    (d.readRound buf pos k b).memory a =
      if buf.toNat ≤ a.toNat ∧ a.toNat < buf.toNat + k.toNat then
        b.card (pos.toNat + (a.toNat - buf.toNat))
      else b.memory a := by
  have hinside := readBuf_inside
  have hstaging := toNat_staging pos hinside
  rw [readRound, d.readSingleBlock_eq]
  show memcopy buf _ _ _ a = _
  rw [memcopy_eq hfits.inside (by omega), moved]
  refine ite_congr rfl (fun h => ?_) fun _ => if_neg ha
  have haddr : (readBuf + (pos &&& 511) + UInt32.ofNat (a.toNat - buf.toNat)).toNat =
      readBuf.toNat + pos.toNat % 512 + (a.toNat - buf.toNat) := by
    rw [Word.toNat_add_ofNat (by omega), hstaging]
  dsimp only
  rw [haddr, if_pos (by omega), toNat_shift_9]
  exact congrArg b.card (by omega)

end CardDriver

/-! ## Whole requests -/

/-- What a sector that is written has at `x` when `x` is not in the range: a byte of the buffer
from the sector before, or what the staging buffer held before the call. -/
def leftover (buf : UInt32) (base : Nat) (b : Board) (x : Nat) : UInt8 :=
  if base + 512 ≤ x then b.memory (buf + UInt32.ofNat (x - 512 - base))
  else b.memory (writeBuf + UInt32.ofNat (x % 512))

/-- The sector of `x` has a byte of the range. -/
def Shares (base n x : Nat) : Prop :=
  0 < n ∧ base / 512 ≤ x / 512 ∧ x / 512 ≤ (base + n - 1) / 512

instance (base n x : Nat) : Decidable (Shares base n x) := inferInstanceAs (Decidable (_ ∧ _ ∧ _))

/-- The card after a write. -/
structure Written (buf : UInt32) (base n : Nat) (b b' : Board) : Prop where
  range : ∀ i < n, b'.card (base + i) = b.memory (buf + UInt32.ofNat i)
  shared : ∀ x, ¬ (base ≤ x ∧ x < base + n) → Shares base n x → b'.card x = leftover buf base b x
  other : ∀ x, ¬ Shares base n x → b'.card x = b.card x

/-- What one round leaves to be done. -/
structure Round (pos left k buf : UInt32) : Prop where
  some : 0 < k.toNat
  le : k.toNat ≤ left.toNat
  sector : pos.toNat % 512 + k.toNat ≤ 512
  full : k.toNat < left.toNat → pos.toNat % 512 + k.toNat = 512
  fits : Fits buf k.toNat

theorem round_once (pos : UInt32) {left buf : UInt32} (hleft : left ≠ 0)
    (hfits : Fits buf left.toNat) :
    Round pos left (once pos left) buf := by
  have hk := toNat_once pos left
  have hmod := Nat.mod_lt pos.toNat (show 0 < 512 by decide)
  have hpos : 0 < left.toNat := by
    rw [Nat.pos_iff_ne_zero]
    exact fun h => hleft (UInt32.toNat_inj.mp h)
  have hinside := hfits.inside
  have hapart := hfits.apart
  exact ⟨by omega, by omega, by omega, by omega, by omega, by omega⟩

theorem Round.toNat_rest {pos left k buf : UInt32} (h : Round pos left k buf) :
    (left - k).toNat = left.toNat - k.toNat :=
  UInt32.toNat_sub_of_le _ _ (UInt32.le_iff_toNat_le.mpr h.le)

/-- Unless the round is the last one, the next begins behind it. -/
theorem Round.toNat_next {pos left k buf : UInt32} (h : Round pos left k buf)
    (hmore : k.toNat < left.toNat) (hpos : pos.toNat + left.toNat ≤ 2 ^ 32) :
    (pos + k).toNat = pos.toNat + k.toNat ∧
      (pos + k).toNat + (left - k).toNat ≤ 2 ^ 32 := by
  have hrest := h.toNat_rest
  have hnext : (pos + k).toNat = pos.toNat + k.toNat := by
    rw [UInt32.toNat_add, Nat.mod_eq_of_lt (by omega)]
  exact ⟨hnext, by omega⟩

namespace CardDriver

variable {d : CardDriver} {buf pos left k : UInt32} {b : Board}

theorem writeRound_written (hround : Round pos left k buf) :
    Written buf pos.toNat k.toNat b (d.writeRound buf pos k b) := by
  have hsector := hround.sector
  have hsome := hround.some
  refine ⟨fun i hi => ?_, fun x hx hshares => ?_, fun x hx => ?_⟩
  · rw [writeRound_card, if_pos (by omega), writeRound_staging hround.fits hsector (by omega),
      if_pos (by omega)]
    exact congrArg (fun j => b.memory (buf + UInt32.ofNat j)) (by omega)
  · obtain ⟨-, hfirst, hlast⟩ := hshares
    rw [writeRound_card, if_pos (by omega), writeRound_staging hround.fits hsector (by omega),
      if_neg (by omega), leftover, if_neg (by omega)]
  · rw [Shares] at hx
    rw [writeRound_card, if_neg (by omega)]

/-- A round that ends with its sector, and then the rest. -/
theorem writeRound_append {b' : Board} (hround : Round pos left k buf) (hmore : k.toNat < left.toNat)
    (hfits : Fits buf left.toNat)
    (h : Written (buf + k) (pos.toNat + k.toNat) (left.toNat - k.toNat) (d.writeRound buf pos k b) b') :
    Written buf pos.toNat left.toNat b b' := by
  have hfirst := writeRound_written (d := d) (b := b) hround
  have hfull := hround.full hmore
  have hsector := hround.sector
  have hinside := hfits.inside
  have hapart := hfits.apart
  have hbuf : ∀ i, buf + k + UInt32.ofNat i = buf + UInt32.ofNat (k.toNat + i) := by
    intro i
    rw [Word.add_ofNat_add, UInt32.ofNat_toNat]
  -- the bytes of the buffer are still there after the round
  have hkept : ∀ i < left.toNat, (d.writeRound buf pos k b).memory (buf + UInt32.ofNat i) =
      b.memory (buf + UInt32.ofNat i) := by
    intro i hi
    refine writeRound_outside hround.fits hsector ?_
    rw [Word.toNat_add_ofNat (by omega)]
    show ¬ (2685404160 ≤ _ ∧ _ < 2685404160 + 512)
    omega
  refine ⟨fun i hi => ?_, fun x hx hshares => ?_, fun x hx => ?_⟩
  · by_cases hik : i < k.toNat
    · rw [h.other _ (by rw [Shares]; omega), hfirst.range i hik]
    · have hrest := h.range (i - k.toNat) (by omega)
      rw [hbuf, show pos.toNat + k.toNat + (i - k.toNat) = pos.toNat + i by omega,
        show k.toNat + (i - k.toNat) = i by omega, hkept i hi] at hrest
      exact hrest
  · rw [Shares] at hshares
    by_cases hbefore : x < pos.toNat
    · rw [h.other x (by rw [Shares]; omega), hfirst.shared x (by omega) (by rw [Shares]; omega)]
    · -- behind the range, in the last sector
      rw [h.shared x (by omega) (by rw [Shares]; omega), leftover, leftover]
      by_cases hfar : pos.toNat + k.toNat + 512 ≤ x
      · rw [if_pos hfar, if_pos (by omega), hbuf, hkept _ (by omega)]
        exact congrArg (fun j => b.memory (buf + UInt32.ofNat j)) (by omega)
      · rw [if_neg hfar, writeRound_staging hround.fits hsector (by omega)]
        refine ite_congr (propext ⟨fun _ => by omega, fun _ => by omega⟩) (fun _ => ?_)
          fun _ => rfl
        exact congrArg (fun j => b.memory (buf + UInt32.ofNat j)) (by omega)
  · rw [Shares] at hx
    rw [h.other x (by rw [Shares]; omega), hfirst.other x (by rw [Shares]; omega)]

theorem sdwriteLoop_zero (fuel : Nat) (buf pos : UInt32) (b : Board) :
    d.sdwriteLoop fuel buf pos 0 b = some b := by
  cases fuel <;> rfl

theorem sdwriteLoop_written {fuel : Nat} (hfuel : left.toNat ≤ fuel)
    (hpos : pos.toNat + left.toNat ≤ 2 ^ 32) (hfits : Fits buf left.toNat) :
    ∃ b', d.sdwriteLoop fuel buf pos left b = some b' ∧
      Written buf pos.toNat left.toNat b b' := by
  induction fuel generalizing buf pos left b with
  | zero =>
      obtain rfl : left = 0 := UInt32.toNat_inj.mp (Nat.le_zero.mp hfuel)
      refine ⟨b, rfl, fun i hi => absurd hi (Nat.not_lt_zero i), fun x _ h => ?_, fun _ _ => rfl⟩
      exact absurd h.1 (Nat.lt_irrefl 0)
  | succ fuel ih =>
      by_cases hleft : left = 0
      · subst hleft
        refine ⟨b, rfl, fun i hi => absurd hi (Nat.not_lt_zero i), fun x _ h => ?_, fun _ _ => rfl⟩
        exact absurd h.1 (Nat.lt_irrefl 0)
      · have hround := round_once pos hleft hfits
        rw [sdwriteLoop, if_neg hleft]
        dsimp only
        generalize once pos left = k at hround
        have hsome := hround.some
        have hrest := hround.toNat_rest
        rcases Nat.lt_or_eq_of_le hround.le with hmore | hlast
        · obtain ⟨haddr, hinside⟩ := hround.toNat_next hmore hpos
          have hfits' := (hfits.rest hmore).2
          rw [UInt32.ofNat_toNat, ← hrest] at hfits'
          obtain ⟨b', hloop, hwritten⟩ := ih (b := d.writeRound buf pos k b)
            (show (left - k).toNat ≤ fuel by omega) hinside hfits'
          rw [haddr, hrest] at hwritten
          exact ⟨b', hloop, writeRound_append hround hmore hfits hwritten⟩
        · obtain rfl : k = left := UInt32.toNat_inj.mp hlast
          rw [UInt32.sub_self]
          exact ⟨_, sdwriteLoop_zero .., writeRound_written hround⟩

theorem sdreadLoop_zero (fuel : Nat) (buf pos : UInt32) (b : Board) :
    d.sdreadLoop fuel buf pos 0 b = some b := by
  cases fuel <;> rfl

/-- The bytes of the range are read, and nothing is stored elsewhere but in the staging buffer. -/
theorem sdreadLoop_reads {fuel : Nat} (hfuel : left.toNat ≤ fuel)
    (hpos : pos.toNat + left.toNat ≤ 2 ^ 32) (hfits : Fits buf left.toNat) :
    ∃ b', d.sdreadLoop fuel buf pos left b = some b' ∧
      ∀ a : UInt32, ¬ (readBuf.toNat ≤ a.toNat ∧ a.toNat < readBuf.toNat + 512) → b'.memory a =
        if buf.toNat ≤ a.toNat ∧ a.toNat < buf.toNat + left.toNat then
          b.card (pos.toNat + (a.toNat - buf.toNat))
        else b.memory a := by
  induction fuel generalizing buf pos left b with
  | zero =>
      obtain rfl : left = 0 := UInt32.toNat_inj.mp (Nat.le_zero.mp hfuel)
      refine ⟨b, rfl, fun a _ => ?_⟩
      rw [UInt32.toNat_zero, if_neg (by omega)]
  | succ fuel ih =>
      by_cases hleft : left = 0
      · subst hleft
        refine ⟨b, rfl, fun a _ => ?_⟩
        rw [UInt32.toNat_zero, if_neg (by omega)]
      · have hround := round_once pos hleft hfits
        rw [sdreadLoop, if_neg hleft]
        dsimp only
        generalize once pos left = k at hround
        have hsome := hround.some
        have hrest := hround.toNat_rest
        rcases Nat.lt_or_eq_of_le hround.le with hmore | hlast
        · obtain ⟨haddr, hinside⟩ := hround.toNat_next hmore hpos
          obtain ⟨hbuf, hfits'⟩ := hfits.rest hmore
          rw [UInt32.ofNat_toNat] at hbuf hfits'
          rw [← hrest] at hfits'
          obtain ⟨b', hloop, hreads⟩ := ih (b := d.readRound buf pos k b)
            (show (left - k).toNat ≤ fuel by omega) hinside hfits'
          refine ⟨b', hloop, fun a ha => ?_⟩
          rw [hreads a ha, hbuf, hrest, haddr, readRound_card,
            readRound_memory hround.fits hround.sector ha]
          by_cases hbehind : buf.toNat + k.toNat ≤ a.toNat ∧
              a.toNat < buf.toNat + k.toNat + (left.toNat - k.toNat)
          · rw [if_pos hbehind, if_pos (by omega)]
            exact congrArg b.card (by omega)
          · rw [if_neg hbehind]
            exact if_congr (by omega) rfl rfl
        · obtain rfl : k = left := UInt32.toNat_inj.mp hlast
          rw [UInt32.sub_self]
          exact ⟨_, sdreadLoop_zero .., fun a ha => readRound_memory hround.fits hround.sector ha⟩

end CardDriver

/-! ## Access by bytes -/

/-- The card and the buffer after the calls are as an access by bytes would leave them. -/
structure ByteAccess (d : CardDriver) (buf base : UInt32) (n : Int) (b : Board) : Prop where
  write : ∃ b', d.sdwrite buf base n b = some (n, b') ∧
    (∀ i : Nat, i < n → b'.card (base.toNat + i) = b.memory (buf + UInt32.ofNat i)) ∧
    ∀ x : Nat, ¬ (base.toNat ≤ x ∧ x < base.toNat + n) → b'.card x = b.card x
  read : ∃ b', d.sdread buf base n b = some (n, b') ∧
    ∀ i : Nat, i < n → b'.memory (buf + UInt32.ofNat i) = b.card (base.toNat + i)
  readBack : ∀ buf', Fits buf' n.toNat → ∃ b' b'', d.sdwrite buf base n b = some (n, b') ∧
    d.sdread buf' base n b' = some (n, b'') ∧
    ∀ i : Nat, i < n → b''.memory (buf' + UInt32.ofNat i) = b.memory (buf + UInt32.ofNat i)

/-- The bytes beside the range, in the sectors it shares, are those that get written there. -/
def Undisturbed (buf base : UInt32) (n : Int) (b : Board) : Prop :=
  ∀ x : Nat, ¬ (base.toNat ≤ x ∧ x < base.toNat + n) → Shares base.toNat n.toNat x →
    leftover buf base.toNat b x = b.card x

section

variable {d : CardDriver} {buf base : UInt32} {n : Nat} {b : Board}

theorem toNat_ofInt_of_lt (hn : n < 2 ^ 31) : (UInt32.ofInt n).toNat = n := by
  rw [Word.ofInt_eq_ofNat (by omega), UInt32.toNat_ofNat', Int.toNat_natCast]
  omega

theorem CardDriver.sdwrite_written (hn : n < 2 ^ 31) (hbase : base.toNat + n ≤ 2 ^ 32)
    (hfits : Fits buf n) :
    ∃ b', d.sdwrite buf base n b = some ((n : Int), b') ∧ Written buf base.toNat n b b' := by
  have hleft := toNat_ofInt_of_lt hn
  obtain ⟨b', hloop, hwritten⟩ := CardDriver.sdwriteLoop_written (d := d) (b := b)
    (Nat.le_refl (UInt32.ofInt n).toNat)
    (show base.toNat + (UInt32.ofInt n).toNat ≤ 2 ^ 32 by rwa [hleft])
    (show Fits buf (UInt32.ofInt n).toNat by rwa [hleft])
  rw [hleft] at hloop hwritten
  exact ⟨b', by rw [CardDriver.sdwrite, hleft, hloop]; rfl, hwritten⟩

theorem CardDriver.sdread_reads (hn : n < 2 ^ 31) (hbase : base.toNat + n ≤ 2 ^ 32)
    (hfits : Fits buf n) :
    ∃ b', d.sdread buf base n b = some ((n : Int), b') ∧
      ∀ i < n, b'.memory (buf + UInt32.ofNat i) = b.card (base.toNat + i) := by
  have hleft := toNat_ofInt_of_lt hn
  have hinside := hfits.inside
  have hapart := hfits.apart
  obtain ⟨b', hloop, hreads⟩ := CardDriver.sdreadLoop_reads (d := d) (b := b)
    (Nat.le_refl (UInt32.ofInt n).toNat)
    (show base.toNat + (UInt32.ofInt n).toNat ≤ 2 ^ 32 by rwa [hleft])
    (show Fits buf (UInt32.ofInt n).toNat by rwa [hleft])
  rw [hleft] at hloop hreads
  refine ⟨b', by rw [CardDriver.sdread, hleft, hloop]; rfl, fun i hi => ?_⟩
  have haddr : (buf + UInt32.ofNat i).toNat = buf.toNat + i := Word.toNat_add_ofNat (by omega)
  have hstaging : ¬ (readBuf.toNat ≤ buf.toNat + i ∧ buf.toNat + i < readBuf.toNat + 512) := by
    show ¬ (2685403648 ≤ _ ∧ _ < 2685403648 + 512)
    omega
  rw [hreads _ (by rwa [haddr]), haddr, if_pos (by omega), Nat.add_sub_cancel_left]

/-- The calls access the card by bytes exactly when what is beside the range gets written back. -/
theorem byteAccess_iff (d : CardDriver) {buf base : UInt32} {n : Int} (b : Board) (hn : 0 ≤ n)
    (hint : n < 2 ^ 31) (hbase : base.toNat + n ≤ 2 ^ 32) (hfits : Fits buf n.toNat) :
    ByteAccess d buf base n b ↔ Undisturbed buf base n b := by
  obtain ⟨n, rfl⟩ := Int.eq_ofNat_of_zero_le hn
  rw [Int.toNat_natCast] at hfits
  obtain ⟨b', hwrite, hwritten⟩ := CardDriver.sdwrite_written (d := d) (b := b)
    (show n < 2 ^ 31 by omega) (show base.toNat + n ≤ 2 ^ 32 by omega) hfits
  constructor
  · rintro ⟨⟨b₁, hcall, -, hother⟩, -, -⟩ x hx hshares
    obtain rfl : b₁ = b' := (Prod.mk.inj (Option.some.inj (hcall.symm.trans hwrite))).2
    rw [← hwritten.shared x (by omega) hshares]
    exact hother x hx
  · intro hundisturbed
    refine ⟨⟨b', hwrite, fun i hi => hwritten.range i (by omega), fun x hx => ?_⟩, ?_, ?_⟩
    · by_cases hshares : Shares base.toNat n x
      · rw [hwritten.shared x (by omega) hshares]
        exact hundisturbed x hx hshares
      · exact hwritten.other x hshares
    · obtain ⟨b'', hread, hbytes⟩ := CardDriver.sdread_reads (d := d) (b := b)
        (show n < 2 ^ 31 by omega) (show base.toNat + n ≤ 2 ^ 32 by omega) hfits
      exact ⟨b'', hread, fun i hi => hbytes i (by omega)⟩
    · intro buf' hfits'
      obtain ⟨b'', hread, hbytes⟩ := CardDriver.sdread_reads (d := d) (b := b')
        (show n < 2 ^ 31 by omega) (show base.toNat + n ≤ 2 ^ 32 by omega) hfits'
      refine ⟨b', b'', hwrite, hread, fun i hi => ?_⟩
      rw [hbytes i (by omega), hwritten.range i (by omega)]

/-- A driver that does nothing else. -/
def plainDriver : CardDriver where
  readSingleBlock sector buffer b :=
    { b with memory := fun a =>
        if buffer.toNat ≤ a.toNat ∧ a.toNat < buffer.toNat + 512 then
          b.card (512 * sector.toNat + (a.toNat - buffer.toNat))
        else b.memory a }
  writeBlock sector buffer b :=
    { b with card := fun x =>
        if x / 512 = sector.toNat then b.memory (buffer + UInt32.ofNat (x % 512)) else b.card x }
  readSingleBlock_eq := fun _ _ _ => rfl
  writeBlock_eq := fun _ _ _ => rfl

/-- One byte of the staging buffer of `sdwrite` is not zero. -/
def stagedBoard : Board := ⟨Function.update (fun _ => 0) 0xa0100401 1, fun _ => 0⟩

/-- A whole sector shares no sector with other bytes. -/
theorem byteAccess_sector : ByteAccess plainDriver 0 512 512 stagedBoard := by
  have hfits : Fits 0 (512 : Int).toNat := ⟨by decide, by decide⟩
  refine (byteAccess_iff plainDriver stagedBoard (by decide) (by decide) (by decide) hfits).mpr ?_
  rintro x hx ⟨-, hfirst, hlast⟩
  change 512 / 512 ≤ x / 512 at hfirst
  change x / 512 ≤ (512 + 512 - 1) / 512 at hlast
  change ¬ (512 ≤ x ∧ (x : Int) < 512 + 512) at hx
  omega

/-- One byte is written, and the byte behind it is overwritten. -/
theorem byteAccess_not_one :
    ¬ ∀ (d : CardDriver) (buf base : UInt32) (n : Int) (b : Board), 0 ≤ n → n < 2 ^ 31 →
      base.toNat + n ≤ 2 ^ 32 → Fits buf n.toNat → ByteAccess d buf base n b := by
  intro hall
  have hfits : Fits 0 1 := ⟨by decide, by decide⟩
  obtain ⟨b', hcall, -, hother⟩ := (hall plainDriver 0 0 1 stagedBoard (by decide) (by decide)
    (by decide) hfits).write
  obtain ⟨b₁, hwrite, hwritten⟩ := CardDriver.sdwrite_written (d := plainDriver) (b := stagedBoard)
    (n := 1) (by decide) (show (0 : UInt32).toNat + 1 ≤ 2 ^ 32 by decide) hfits
  obtain rfl : b' = b₁ := (Prod.mk.inj (Option.some.inj (hcall.symm.trans hwrite))).2
  have hshared := hwritten.shared 1 (by decide) (by decide)
  have hkept := hother 1 (by decide)
  rw [hkept] at hshared
  exact absurd hshared (by decide)

end

end UcasOs.Arch

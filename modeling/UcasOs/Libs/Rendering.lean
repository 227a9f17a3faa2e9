import UcasOs.Libs.Printk
import Mathlib.Data.Nat.Digits.Lemmas

/-!
# What a format stands for

The text of a format without any bound: its pieces one after the other, with
numbers as numerals.  `mini_vsnprintf` delivers as much of it as the buffer
holds before the terminating zero.
-/

namespace UcasOs.Libs

open UcasOs.Foundation

/-! ## Numerals -/

def numeral (radix : Nat) (uppercase : Bool) (n : Nat) : List UInt8 :=
  if n = 0 then [0x30]
  else ((Nat.digits radix n).map fun d => digitChar uppercase (UInt32.ofNat d)).reverse

def padLeft (zeroPad : Nat) (s : List UInt8) : List UInt8 :=
  List.replicate (zeroPad - s.length) 0x30 ++ s

/-- What a word stands for under `%u` and `%x`, or under `%d`. -/
def wordValue (unsig : Bool) (value : UInt32) : Int :=
  if 0x80000000 ≤ value ∧ ¬ unsig then value.toNat - 2 ^ 32 else value.toNat

def signOf (z : Int) : List UInt8 := if z < 0 then [0x2d] else []

/-- The bytes of a string literal. -/
def ascii (s : String) : List UInt8 := s.toList.map fun c => UInt8.ofNat c.toNat

variable {radix : UInt32} {uppercase unsig : Bool}

theorem digitsBack_eq (hr : 2 ≤ radix.toNat) {fuel : Nat} {value : UInt32} (hfuel : 0 < fuel)
    (hlt : value.toNat < radix.toNat ^ fuel) :
    digitsBack radix uppercase fuel value =
      if value = 0 then [0x30]
      else
        (Nat.digits radix.toNat value.toNat).map fun d =>
          digitChar uppercase (UInt32.ofNat d) := by
  induction fuel generalizing value with
  | zero => omega
  | succ fuel ih =>
      have hrest : (value / radix).toNat = value.toNat / radix.toNat := UInt32.toNat_div value radix
      have hhalf : value.toNat / radix.toNat < 0x80000000 := by
        have hle : value.toNat / radix.toNat ≤ value.toNat / 2 := Nat.div_le_div_left hr (by decide)
        have hvalue := value.toNat_lt
        omega
      have hmod : UInt32.ofNat (value.toNat % radix.toNat) = value % radix := by
        apply UInt32.toNat_inj.mp
        rw [UInt32.toNat_mod, UInt32.toNat_ofNat']
        refine Nat.mod_eq_of_lt ?_
        exact lt_of_le_of_lt (Nat.mod_le _ _) value.toNat_lt
      rw [digitsBack]
      by_cases hzero : value = 0
      · subst hzero
        have hnone : ¬ (0 < (0 : UInt32) / radix ∧ (0 : UInt32) / radix < 0x80000000) := by
          rw [UInt32.lt_iff_toNat_lt, hrest]
          simp
        rw [if_neg hnone, if_pos rfl]
        have hdigit : (0 : UInt32) % radix = 0 := by
          apply UInt32.toNat_inj.mp
          rw [UInt32.toNat_mod]
          simp
        rw [hdigit]
        cases uppercase <;> rfl
      · have hpos : 0 < value.toNat := by
          apply Nat.pos_of_ne_zero
          intro h
          exact hzero (UInt32.toNat_inj.mp h)
        rw [if_neg hzero, Nat.digits_def' hr hpos, List.map_cons, hmod]
        congr 1
        by_cases hmore : value.toNat / radix.toNat = 0
        · have hnone : ¬ (0 < value / radix ∧ value / radix < 0x80000000) := by
            rw [UInt32.lt_iff_toNat_lt, hrest, hmore]
            simp
          rw [if_neg hnone, hmore, Nat.digits_zero]
          rfl
        · have hsome : 0 < value / radix ∧ value / radix < 0x80000000 := by
            rw [UInt32.lt_iff_toNat_lt, UInt32.lt_iff_toNat_lt, hrest]
            exact ⟨Nat.pos_of_ne_zero hmore, hhalf⟩
          have hne : value / radix ≠ 0 := by
            intro h
            rw [h] at hrest
            exact hmore hrest.symm
          have hnext : (value / radix).toNat < radix.toNat ^ fuel := by
            rw [hrest]
            exact Nat.div_lt_of_lt_mul (by rwa [pow_succ, Nat.mul_comm] at hlt)
          have hfuel' : 0 < fuel := by
            apply Nat.pos_of_ne_zero
            rintro rfl
            rw [hrest, pow_zero] at hnext
            omega
          rw [if_pos hsome, ih hfuel' hnext, if_neg hne, hrest]

theorem digitsBack_numeral (hr : 2 ≤ radix.toNat) (value : UInt32) :
    (digitsBack radix uppercase 32 value).reverse =
      numeral radix.toNat uppercase value.toNat := by
  have hpow : 2 ^ 32 ≤ radix.toNat ^ 32 := Nat.pow_le_pow_left hr 32
  rw [digitsBack_eq hr (by decide) (lt_of_lt_of_le value.toNat_lt hpow), numeral]
  by_cases hzero : value = 0
  · subst hzero
    rfl
  · have hne : value.toNat ≠ 0 := fun h => hzero (UInt32.toNat_inj.mp h)
    rw [if_neg hzero, if_neg hne]

theorem wordValue_neg_iff (value : UInt32) :
    wordValue unsig value < 0 ↔ 0x80000000 ≤ value ∧ ¬ unsig := by
  have hlt := value.toNat_lt
  unfold wordValue
  split
  case isTrue h => exact iff_of_true (by omega) h
  case isFalse h => exact iff_of_false (by omega) h

theorem natAbs_wordValue (value : UInt32) :
    (wordValue unsig value).natAbs =
      (if 0x80000000 ≤ value ∧ ¬ unsig then -value else value).toNat := by
  have hlt := value.toNat_lt
  unfold wordValue
  split
  case isTrue h =>
      have hle := UInt32.le_iff_toNat_le.mp h.1
      rw [show (0x80000000 : UInt32).toNat = 2 ^ 31 from rfl] at hle
      rw [UInt32.toNat_neg]
      change _ = (2 ^ 32 - value.toNat) % 2 ^ 32
      omega
  case isFalse => exact Int.natAbs_natCast _

/-- The digits of a number, filled up with zeros from the left, behind the sign. -/
theorem miniItoa_eq (hr : 2 ≤ radix.toNat) (hr' : radix.toNat ≤ 16) (value : UInt32)
    (zeroPad : Nat) :
    miniItoa value radix uppercase unsig zeroPad =
      signOf (wordValue unsig value) ++
        padLeft zeroPad (numeral radix.toNat uppercase (wordValue unsig value).natAbs) := by
  have hradix : ¬ radix > 16 := by
    rw [gt_iff_lt, UInt32.lt_iff_toNat_lt]
    exact Nat.not_lt.mpr hr'
  rw [miniItoa, if_neg hradix, natAbs_wordValue, ← digitsBack_numeral hr, padLeft,
    List.length_reverse, signOf]
  by_cases hneg : 0x80000000 ≤ value ∧ ¬ unsig
  · simp only [if_pos ((wordValue_neg_iff value).mpr hneg), if_pos hneg]
    simp
  · simp only [if_neg (mt (wordValue_neg_iff value).mp hneg), if_neg hneg]
    simp

theorem length_numeral_le {r k n : Nat} (hr : 1 < r) (hk : 0 < k) (hn : n < r ^ k) :
    (numeral r uppercase n).length ≤ k := by
  unfold numeral
  split
  case isTrue => exact hk
  case isFalse =>
      rw [List.length_reverse, List.length_map, Nat.digits_length_le_iff hr]
      exact hn

/-! ## Formats -/

/-- A character of a format, or a directive with its padding. -/
inductive Piece where
  | literal (ch : UInt8)
  | directive (ch : UInt8) (zeroPad : Nat)
  deriving DecidableEq, Repr

/-- A format ends where a directive is cut short. -/
def pieces : List UInt8 → List Piece
  | [] => []
  | ch :: fmt =>
      if ch ≠ 0x25 then .literal ch :: pieces fmt
      else
        match fmt with
        | [] => []
        | ch :: fmt =>
            if ch = 0x30 then
              match fmt with
              | [] | [_] => []
              | pad :: ch :: fmt =>
                  .directive ch (if 0x30 ≤ pad ∧ pad ≤ 0x39 then (pad - 0x30).toNat else 0) ::
                    pieces fmt
            else .directive ch 0 :: pieces fmt

/-- The text of a directive, and the arguments that it leaves. -/
def converted (ch : UInt8) (zeroPad : Nat) (va : List VaArg) : Option (List VaArg × List UInt8) :=
  if ch = 0x75 ∨ ch = 0x64 then
    match va with
    | .word value :: va =>
        let z := wordValue (ch = 0x75) value
        some (va, signOf z ++ padLeft zeroPad (numeral 10 false z.natAbs))
    | _ => none
  else if ch = 0x78 ∨ ch = 0x58 then
    match va with
    | .word value :: va => some (va, padLeft zeroPad (numeral 16 (ch = 0x58) value.toNat))
    | _ => none
  else if ch = 0x63 then
    match va with
    | .word value :: va => some (va, [value.toUInt8])
    | _ => none
  else if ch = 0x73 then
    match va with
    | .pointer ptr :: va => some (va, untilZero ptr)
    | _ => none
  else some (va, [ch])

def render : List Piece → List VaArg → Option (List UInt8)
  | [], _ => some []
  | .literal ch :: rest, va => (render rest va).map (ch :: ·)
  | .directive ch zeroPad :: rest, va =>
      (converted ch zeroPad va).bind fun (va, s) => (render rest va).map (s ++ ·)

theorem render_literal {lit : List UInt8} (hlit : 0x25 ∉ lit) (fmt : List UInt8) (va : List VaArg) :
    render (pieces (lit ++ fmt)) va = (render (pieces fmt) va).map (lit ++ ·) := by
  induction lit with
  | nil => simp
  | cons ch lit ih =>
      rw [List.mem_cons, not_or] at hlit
      rw [List.cons_append, pieces.eq_def]
      dsimp only
      rw [if_pos (Ne.symm hlit.1), render, ih hlit.2, Option.map_map]
      rfl

theorem render_decimal {value : UInt32} (hvalue : value.toNat < 2 ^ 31) (fmt : List UInt8)
    (va : List VaArg) :
    render (pieces (0x25 :: 0x64 :: fmt)) (.word value :: va) =
      (render (pieces fmt) va).map (numeral 10 false value.toNat ++ ·) := by
  have hword : wordValue false value = value.toNat := by
    refine if_neg fun h => ?_
    have hle : 2 ^ 31 ≤ value.toNat := UInt32.le_iff_toNat_le.mp h.1
    omega
  have hconverted : converted 0x64 0 (.word value :: va) =
      some (va, numeral 10 false value.toNat) := by
    change some (va, signOf (wordValue false value) ++
      padLeft 0 (numeral 10 false (wordValue false value).natAbs)) = _
    rw [hword, signOf, if_neg (by omega), Int.natAbs_natCast, padLeft, Nat.zero_sub]
    rfl
  have hpieces : pieces (0x25 :: 0x64 :: fmt) = .directive 0x64 0 :: pieces fmt := by
    rw [pieces.eq_def]
    rfl
  rw [hpieces, render, hconverted]
  rfl

theorem zero_notMem_numeral {uppercase : Bool} (n : Nat) : 0 ∉ numeral 10 uppercase n := by
  have hall : ∀ u : Bool, ∀ i : Fin 10, digitChar u (UInt32.ofNat i) ≠ 0 := by decide
  unfold numeral
  split
  case isTrue => decide
  case isFalse =>
      rw [List.mem_reverse, List.mem_map]
      rintro ⟨d, hd, hzero⟩
      exact hall uppercase ⟨d, Nat.digits_lt_base (by decide) hd⟩ hzero

/-! ## What the buffer holds -/

/-- What is left of a text when the buffer also holds the terminating zero. -/
def fit (bufferLen : UInt32) (text : List UInt8) : List UInt8 := text.take (bufferLen.toNat - 1)

/-- Strings in memory are shorter than memory. -/
def VaArg.Addressable : VaArg → Prop
  | word _ => True
  | pointer s => s.length < 2 ^ 32

variable {bufferLen : UInt32} {text s : List UInt8} {ch : UInt8}

theorem fit_length_le (bufferLen : UInt32) (text : List UInt8) :
    (fit bufferLen text).length ≤ bufferLen.toNat - 1 := List.length_take_le _ _

theorem fit_append_fit : fit bufferLen (fit bufferLen text ++ s) = fit bufferLen (text ++ s) := by
  unfold fit
  rw [List.take_append, List.take_append, List.take_take, Nat.min_self, List.length_take]
  congr 2
  omega

/-- The test at the start of the loop and in `_putc`. -/
theorem full_iff (hlen : text.length ≤ bufferLen.toNat - 1) :
    UInt32.ofNat text.length + 1 ≥ bufferLen ↔ text.length = bufferLen.toNat - 1 := by
  have hlt := bufferLen.toNat_lt
  have hnat : (UInt32.ofNat text.length + 1).toNat = text.length + 1 := by
    rw [UInt32.toNat_add, UInt32.toNat_ofNat', show (1 : UInt32).toNat = 1 from rfl]
    omega
  rw [ge_iff_le, UInt32.le_iff_toNat_le, hnat]
  omega

theorem fit_full (h : text.length = bufferLen.toNat - 1) (s : List UInt8) :
    fit bufferLen (text ++ s) = text := by
  rw [fit, ← h]
  exact List.take_left

theorem fit_of_length_le (h : text.length ≤ bufferLen.toNat - 1) : fit bufferLen text = text :=
  List.take_of_length_le h

theorem putc_eq (hlen : text.length ≤ bufferLen.toNat - 1) (ch : UInt8) :
    putc bufferLen text ch = fit bufferLen (text ++ [ch]) := by
  unfold putc
  by_cases hfull : text.length = bufferLen.toNat - 1
  · rw [if_pos ((full_iff hlen).mpr hfull), fit_full hfull]
  · rw [if_neg (mt (full_iff hlen).mp hfull), fit_of_length_le]
    rw [List.length_append, List.length_singleton]
    omega

/-- The buffer is not full when `_puts` is called. -/
theorem puts_eq (hlen : text.length < bufferLen.toNat - 1) {len : Nat} (hlt : len < 2 ^ 32) :
    puts bufferLen text s (UInt32.ofNat len) = fit bufferLen (text ++ s.take len) := by
  have hbuffer := bufferLen.toNat_lt
  have hroom : (bufferLen - UInt32.ofNat text.length - 1).toNat =
      bufferLen.toNat - 1 - text.length := by
    rw [UInt32.toNat_sub_of_le, UInt32.toNat_sub_of_le, UInt32.toNat_ofNat',
      show (1 : UInt32).toNat = 1 from rfl]
    · omega
    · rw [UInt32.le_iff_toNat_le, UInt32.toNat_ofNat']
      omega
    · rw [UInt32.le_iff_toNat_le, UInt32.toNat_sub_of_le, UInt32.toNat_ofNat',
        show (1 : UInt32).toNat = 1 from rfl]
      · omega
      · rw [UInt32.le_iff_toNat_le, UInt32.toNat_ofNat']
        omega
  have hnat : (UInt32.ofNat len).toNat = len := by
    rw [UInt32.toNat_ofNat']
    exact Nat.mod_eq_of_lt hlt
  rw [puts, fit, List.take_append, List.take_of_length_le (Nat.le_of_lt hlen), List.take_take]
  congr 2
  split
  case isTrue h =>
      rw [UInt32.lt_iff_toNat_lt, hroom, hnat] at h
      omega
  case isFalse h =>
      rw [UInt32.lt_iff_toNat_lt, hroom, hnat] at h
      omega

theorem length_padLeft (zeroPad : Nat) (s : List UInt8) :
    (padLeft zeroPad s).length = max zeroPad s.length := by
  simp [padLeft]
  omega

/-- The local buffer of the directives has room for every number. -/
theorem length_miniItoa_lt (hr : 10 ≤ radix.toNat) (hr' : radix.toNat ≤ 16) (value : UInt32)
    {zeroPad : Nat} (hpad : zeroPad ≤ 9) :
    (miniItoa value radix uppercase unsig zeroPad).length < 24 - 1 := by
  have hvalue : (wordValue unsig value).natAbs < radix.toNat ^ 10 := by
    refine lt_of_lt_of_le ?_ (Nat.pow_le_pow_left hr 10)
    rw [natAbs_wordValue]
    exact lt_of_lt_of_le (UInt32.toNat_lt _) (by decide)
  have hnumeral : (numeral radix.toNat uppercase (wordValue unsig value).natAbs).length ≤ 10 :=
    length_numeral_le (by omega) (by decide) hvalue
  have hsign : (signOf (wordValue unsig value)).length ≤ 1 := by
    unfold signOf
    split <;> simp
  rw [miniItoa_eq (by omega) hr', List.length_append, length_padLeft]
  omega

theorem puts_miniItoa (hlen : text.length < bufferLen.toNat - 1) (hr : 10 ≤ radix.toNat)
    (hr' : radix.toNat ≤ 16) (value : UInt32) {zeroPad : Nat} (hpad : zeroPad ≤ 9) :
    puts bufferLen text (miniItoa value radix uppercase unsig zeroPad)
        (UInt32.ofNat (miniItoa value radix uppercase unsig zeroPad).length) =
      fit bufferLen (text ++ (signOf (wordValue unsig value) ++
        padLeft zeroPad (numeral radix.toNat uppercase (wordValue unsig value).natAbs))) := by
  have hlt : (miniItoa value radix uppercase unsig zeroPad).length < 24 - 1 :=
    length_miniItoa_lt hr hr' value hpad
  rw [puts_eq hlen (by omega), List.take_length, miniItoa_eq (by omega) hr']

theorem directive_eq (hlen : text.length < bufferLen.toNat - 1) {zeroPad : Nat} (hpad : zeroPad ≤ 9)
    {va : List VaArg} (hva : ∀ a ∈ va, a.Addressable) :
    directive bufferLen ch zeroPad va text =
      (converted ch zeroPad va).map fun (va, s) => (va, fit bufferLen (text ++ s)) := by
  unfold directive converted
  by_cases hd : ch = 0x75 ∨ ch = 0x64
  · rw [if_pos hd, if_pos hd]
    rcases va with _ | ⟨value | ptr, va⟩
    · rfl
    · dsimp only
      rw [puts_miniItoa hlen (by decide) (by decide) value hpad]
      rfl
    · rfl
  rw [if_neg hd, if_neg hd]
  by_cases hx : ch = 0x78 ∨ ch = 0x58
  · rw [if_pos hx, if_pos hx]
    rcases va with _ | ⟨value | ptr, va⟩
    · rfl
    · have hvalue : wordValue true value = value.toNat := if_neg (by simp)
      dsimp only
      rw [puts_miniItoa hlen (by decide) (by decide) value hpad, hvalue, signOf,
        if_neg (by omega), Int.natAbs_natCast]
      rfl
    · rfl
  rw [if_neg hx, if_neg hx]
  by_cases hc : ch = 0x63
  · rw [if_pos hc, if_pos hc]
    rcases va with _ | ⟨value | ptr, va⟩
    · rfl
    · dsimp only
      rw [putc_eq (Nat.le_of_lt hlen)]
      rfl
    · rfl
  rw [if_neg hc, if_neg hc]
  by_cases hs : ch = 0x73
  · rw [if_pos hs, if_pos hs]
    rcases va with _ | ⟨value | ptr, va⟩
    · rfl
    · rfl
    · have hptr : ptr.length < 2 ^ 32 := hva (.pointer ptr) List.mem_cons_self
      have hle := length_untilZero_le ptr
      dsimp only
      rw [puts_eq hlen (by unfold miniStrlen; omega), take_untilZero (Nat.le_refl _), miniStrlen,
        List.take_length]
      rfl
  rw [if_neg hs, if_neg hs, putc_eq (Nat.le_of_lt hlen)]
  rfl

theorem converted_suffix {zeroPad : Nat} {va va' : List VaArg}
    (h : converted ch zeroPad va = some (va', s)) : va' <:+ va := by
  have htail : ∀ a : VaArg, va' <:+ a :: va' := fun a => List.suffix_cons a va'
  unfold converted at h
  rcases va with _ | ⟨value | ptr, va⟩ <;> simp only at h <;> split_ifs at h <;>
    cases h <;> first | exact htail _ | exact List.suffix_refl _

theorem full_stops (hfull : text.length = bufferLen.toNat - 1) (fmt : List UInt8)
    (va : List VaArg) : miniVsnprintf bufferLen fmt va text = some text := by
  cases fmt with
  | nil => rfl
  | cons ch fmt =>
      unfold miniVsnprintf
      exact if_pos ((full_iff (Nat.le_of_eq hfull)).mpr hfull)

theorem padDigit_le (pad : UInt8) :
    (if 0x30 ≤ pad ∧ pad ≤ 0x39 then (pad - 0x30).toNat else 0) ≤ 9 := by
  split
  case isTrue h =>
      rw [UInt8.toNat_sub_of_le _ _ h.1]
      have hle := UInt8.le_iff_toNat_le.mp h.2
      rw [show (0x39 : UInt8).toNat = 57 from rfl] at hle
      rw [show (0x30 : UInt8).toNat = 48 from rfl]
      omega
  case isFalse => exact Nat.zero_le 9

/-- The rest of a format after a directive. -/
theorem rest_eq {zeroPad : Nat} {rest : List Piece} {va : List VaArg} {fmt full : List UInt8}
    (hpad : zeroPad ≤ 9) (hlen : text.length < bufferLen.toNat - 1)
    (hva : ∀ a ∈ va, a.Addressable)
    (hrender : render (.directive ch zeroPad :: rest) va = some full)
    (ih : ∀ {va : List VaArg} {full text : List UInt8}, text.length ≤ bufferLen.toNat - 1 →
      (∀ a ∈ va, a.Addressable) → render rest va = some full →
      miniVsnprintf bufferLen fmt va text = some (fit bufferLen (text ++ full))) :
    (do
      let (va, text) ← directive bufferLen ch zeroPad va text
      miniVsnprintf bufferLen fmt va text) = some (fit bufferLen (text ++ full)) := by
  rw [render] at hrender
  obtain ⟨⟨va', s⟩, hconv, hrest⟩ := Option.bind_eq_some_iff.mp hrender
  obtain ⟨more, hmore, rfl⟩ := Option.map_eq_some_iff.mp hrest
  have hva' : ∀ a ∈ va', a.Addressable := fun a ha =>
    hva a ((converted_suffix hconv).subset ha)
  rw [directive_eq hlen hpad hva, hconv]
  change miniVsnprintf bufferLen fmt va' (fit bufferLen (text ++ s)) = _
  rw [ih (fit_length_le _ _) hva' hmore, fit_append_fit, List.append_assoc]

/-- `mini_vsnprintf` writes the text of the format behind what is there, as far as it fits. -/
theorem miniVsnprintf_fits {fmt full : List UInt8} {va : List VaArg}
    (hlen : text.length ≤ bufferLen.toNat - 1) (hva : ∀ a ∈ va, a.Addressable)
    (hrender : render (pieces fmt) va = some full) :
    miniVsnprintf bufferLen fmt va text = some (fit bufferLen (text ++ full)) := by
  fun_induction pieces fmt generalizing va full text with
  | case1 =>
      cases hrender
      rw [List.append_nil, fit_of_length_le hlen]
      rfl
  | case2 ch fmt hch ih =>
      by_cases hfull : text.length = bufferLen.toNat - 1
      · rw [full_stops hfull, fit_full hfull]
      obtain ⟨more, hmore, rfl⟩ := Option.map_eq_some_iff.mp hrender
      unfold miniVsnprintf
      rw [if_neg (mt (full_iff hlen).mp hfull), if_pos hch, putc_eq hlen,
        ih (fit_length_le _ _) hva hmore, fit_append_fit, List.append_assoc]
      rfl
  | case3 ch hch =>
      cases hrender
      rw [List.append_nil, fit_of_length_le hlen]
      unfold miniVsnprintf
      rw [if_neg hch, ite_self]
  | case4 ch hch =>
      cases hrender
      rw [List.append_nil, fit_of_length_le hlen]
      unfold miniVsnprintf
      rw [if_neg hch]
      exact ite_self _
  | case5 ch hch pad =>
      cases hrender
      rw [List.append_nil, fit_of_length_le hlen]
      unfold miniVsnprintf
      rw [if_neg hch]
      exact ite_self _
  | case6 percent hpercent pad ch fmt ih =>
      by_cases hfull : text.length = bufferLen.toNat - 1
      · rw [full_stops hfull, fit_full hfull]
      unfold miniVsnprintf
      rw [if_neg (mt (full_iff hlen).mp hfull), if_neg hpercent]
      exact rest_eq (padDigit_le pad) (lt_of_le_of_ne hlen hfull) hva hrender ih
  | case7 percent hpercent ch fmt hch ih =>
      by_cases hfull : text.length = bufferLen.toNat - 1
      · rw [full_stops hfull, fit_full hfull]
      unfold miniVsnprintf
      rw [if_neg (mt (full_iff hlen).mp hfull), if_neg hpercent]
      dsimp only
      rw [if_neg hch]
      exact rest_eq (Nat.zero_le 9) (lt_of_le_of_ne hlen hfull) hva hrender ih

theorem printf_eq_printks (fmt : CString) (va : List VaArg) : printf fmt va = printks fmt va := rfl

theorem printks_render {fmt : CString} {full : List UInt8} {va : List VaArg}
    (hva : ∀ a ∈ va, a.Addressable) (hrender : render (pieces fmt.bytes) va = some full) :
    printks fmt va = some (untilZero (full.take 255)) := by
  rw [printks, miniVsnprintf_fits (Nat.zero_le _) hva hrender]
  rfl

/-- Whatever the size of its buffer, `mini_vsnprintf` fills it with the text of the format and
writes no byte behind it; the printing functions pass 255 bytes of the text on. -/
theorem formatted_text {fmt : CString} {full : List UInt8} {va : List VaArg}
    (hva : ∀ a ∈ va, a.Addressable) (hrender : render (pieces fmt.bytes) va = some full) :
    (∀ bufferLen : UInt32, miniVsnprintf bufferLen fmt.bytes va [] =
      some (full.take (bufferLen.toNat - 1))) ∧
    printf fmt va = some (untilZero (full.take 255)) ∧
    printk fmt va = some (untilZero (full.take 255)) ∧
    printks fmt va = some (untilZero (full.take 255)) := by
  have hfits : ∀ bufferLen : UInt32, miniVsnprintf bufferLen fmt.bytes va [] =
      some (full.take (bufferLen.toNat - 1)) := fun bufferLen =>
    miniVsnprintf_fits (Nat.zero_le _) hva hrender
  refine ⟨hfits, ?_, ?_, printks_render hva hrender⟩
  · rw [printf, hfits]
    rfl
  · rw [printk, hfits]
    rfl

/-- `"%05d|%s"` -/
def paddedFormat : CString := ⟨[0x25, 0x30, 0x35, 0x64, 0x7c, 0x25, 0x73], by decide⟩

theorem formatted_text_padded :
    (∀ bufferLen : UInt32,
      miniVsnprintf bufferLen paddedFormat.bytes [.word (-42), .pointer [0x6f, 0x6b, 0]] [] =
        some (([0x2d, 0x30, 0x30, 0x30, 0x34, 0x32, 0x7c, 0x6f, 0x6b] : List UInt8).take
          (bufferLen.toNat - 1))) ∧
    printf paddedFormat [.word (-42), .pointer [0x6f, 0x6b, 0]] =
      some [0x2d, 0x30, 0x30, 0x30, 0x34, 0x32, 0x7c, 0x6f, 0x6b] ∧
    printk paddedFormat [.word (-42), .pointer [0x6f, 0x6b, 0]] =
      some [0x2d, 0x30, 0x30, 0x30, 0x34, 0x32, 0x7c, 0x6f, 0x6b] ∧
    printks paddedFormat [.word (-42), .pointer [0x6f, 0x6b, 0]] =
      some [0x2d, 0x30, 0x30, 0x30, 0x34, 0x32, 0x7c, 0x6f, 0x6b] := by
  refine formatted_text (fun a ha => ?_) (by decide +kernel)
  rcases List.mem_cons.mp ha with rfl | ha
  · trivial
  · rw [List.mem_singleton.mp ha]
    exact (by decide : 3 < 2 ^ 32)

end UcasOs.Libs

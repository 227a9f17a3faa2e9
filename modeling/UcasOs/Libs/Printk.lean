import UcasOs.Libs.CString

/-!
# Formatted output

`libs/printk.c`.  The text is built in a buffer of `buffer_len` bytes and cut
where the buffer is full; `printf` has 256 bytes of it, the terminating zero
among them.
-/

namespace UcasOs.Libs

open UcasOs.Foundation

/-- What `va_arg` takes next: a word, or the bytes from a pointer on. -/
inductive VaArg where
  | word (value : UInt32)
  | pointer (s : List UInt8)
  deriving DecidableEq

def miniStrlen (s : List UInt8) : Nat := (untilZero s).length

def digitChar (uppercase : Bool) (digit : UInt32) : UInt8 :=
  if digit < 10 then 0x30 + digit.toUInt8
  else (if uppercase then 0x41 else 0x61) + digit.toUInt8 - 10

/-- The digits from the last to the first.  The loop ends at a value that is not positive. -/
def digitsBack (radix : UInt32) (uppercase : Bool) : Nat → UInt32 → List UInt8
  | 0, _ => []
  | n + 1, value =>
      let rest := value / radix
      digitChar uppercase (value % radix) ::
        if 0 < rest ∧ rest < 0x80000000 then digitsBack radix uppercase n rest else []

def miniItoa (value radix : UInt32) (uppercase unsig : Bool) (zeroPad : Nat) : List UInt8 :=
  if radix > 16 then []
  else
    let negative := 0x80000000 ≤ value ∧ ¬ unsig
    let digits := digitsBack radix uppercase 32 (if negative then -value else value)
    let padded := digits ++ List.replicate (zeroPad - digits.length) 0x30
    (if negative then padded ++ [0x2d] else padded).reverse

/-- `text` is what stands between `buffer` and `pbuffer`. -/
def putc (bufferLen : UInt32) (text : List UInt8) (ch : UInt8) : List UInt8 :=
  if UInt32.ofNat text.length + 1 ≥ bufferLen then text else text ++ [ch]

def puts (bufferLen : UInt32) (text s : List UInt8) (len : UInt32) : List UInt8 :=
  let room := bufferLen - UInt32.ofNat text.length - 1
  text ++ s.take (if room < len then room else len).toNat

/-- One directive: the arguments that are left, and the text.  There is no argument to take when
the list is too short or has one of the other kind. -/
def directive (bufferLen : UInt32) (ch : UInt8) (zeroPad : Nat) (va : List VaArg)
    (text : List UInt8) : Option (List VaArg × List UInt8) :=
  if ch = 0x75 ∨ ch = 0x64 then
    match va with
    | .word value :: va =>
        let bf := miniItoa value 10 false (ch = 0x75) zeroPad
        some (va, puts bufferLen text bf (UInt32.ofNat bf.length))
    | _ => none
  else if ch = 0x78 ∨ ch = 0x58 then
    match va with
    | .word value :: va =>
        let bf := miniItoa value 16 (ch = 0x58) true zeroPad
        some (va, puts bufferLen text bf (UInt32.ofNat bf.length))
    | _ => none
  else if ch = 0x63 then
    match va with
    | .word value :: va => some (va, putc bufferLen text value.toUInt8)
    | _ => none
  else if ch = 0x73 then
    match va with
    | .pointer ptr :: va => some (va, puts bufferLen text ptr (UInt32.ofNat (miniStrlen ptr)))
    | _ => none
  else some (va, putc bufferLen text ch)

def miniVsnprintf (bufferLen : UInt32) :
    List UInt8 → List VaArg → List UInt8 → Option (List UInt8)
  | [], _, text => some text
  | ch :: fmt, va, text =>
      if UInt32.ofNat text.length + 1 ≥ bufferLen then some text
      else if ch ≠ 0x25 then miniVsnprintf bufferLen fmt va (putc bufferLen text ch)
      else
        match fmt with
        | [] => some text
        | ch :: fmt =>
            if ch = 0x30 then
              -- the character behind the zero is skipped, a digit or not
              match fmt with
              | [] | [_] => some text
              | pad :: ch :: fmt => do
                  let zeroPad := if 0x30 ≤ pad ∧ pad ≤ 0x39 then (pad - 0x30).toNat else 0
                  let (va, text) ← directive bufferLen ch zeroPad va text
                  miniVsnprintf bufferLen fmt va text
            else do
              let (va, text) ← directive bufferLen ch 0 va text
              miniVsnprintf bufferLen fmt va text

/-- The string that `sys_write` is given. -/
def printf (fmt : CString) (va : List VaArg) : Option (List UInt8) :=
  (miniVsnprintf 256 fmt.bytes va []).map untilZero

/-- The string that `port_write` is given. -/
def printk (fmt : CString) (va : List VaArg) : Option (List UInt8) :=
  (miniVsnprintf 256 fmt.bytes va []).map untilZero

/-- The string that `screen_write` is given. -/
def printks (fmt : CString) (va : List VaArg) : Option (List UInt8) :=
  (miniVsnprintf 256 fmt.bytes va []).map untilZero

example : printf ⟨[0x25, 0x30, 0x34, 0x78, 0x2c, 0x25, 0x64], by decide⟩ [.word 171, .word (-5)] =
    some [0x30, 0x30, 0x61, 0x62, 0x2c, 0x2d, 0x35] := by decide

/-! ## What fits in the buffer -/

def stringFormat : CString := ⟨[0x25, 0x73], by decide⟩

theorem length_untilZero_le (s : List UInt8) : (untilZero s).length ≤ s.length :=
  (List.takeWhile_prefix _).length_le

theorem zero_notMem_untilZero (s : List UInt8) : 0 ∉ untilZero s := by
  intro h
  simpa using List.mem_takeWhile_imp h

theorem take_untilZero {s : List UInt8} {n : Nat} (h : n ≤ miniStrlen s) :
    s.take n = (untilZero s).take n := by
  obtain ⟨t, ht⟩ := List.takeWhile_prefix (fun a : UInt8 => decide (a ≠ 0)) (l := s)
  have hs : untilZero s ++ t = s := ht
  conv_lhs => rw [← hs]
  rw [List.take_append_of_le_length h]

/-- A string is cut at 255 characters. -/
theorem printf_string {s : List UInt8} (h : s.length < 2 ^ 32) :
    printf stringFormat [.pointer s] = some ((untilZero s).take 255) := by
  have hle := length_untilZero_le s
  have hlen : (UInt32.ofNat (miniStrlen s)).toNat = miniStrlen s := by
    rw [UInt32.toNat_ofNat']
    exact Nat.mod_eq_of_lt (by unfold miniStrlen; omega)
  have hputs : puts 256 [] s (UInt32.ofNat (miniStrlen s)) = (untilZero s).take 255 := by
    have hroom : (256 - UInt32.ofNat ([] : List UInt8).length - 1 : UInt32) = 255 := rfl
    simp only [puts, List.nil_append, hroom]
    split
    · rename_i hlt
      rw [UInt32.lt_iff_toNat_lt, hlen] at hlt
      exact take_untilZero (Nat.le_of_lt hlt)
    · rename_i hge
      rw [UInt32.lt_iff_toNat_lt, hlen] at hge
      rw [hlen, take_untilZero (Nat.le_refl _), miniStrlen, List.take_length]
      exact (List.take_of_length_le (Nat.not_lt.mp hge)).symm
  have hformat : miniVsnprintf 256 [0x25, 0x73] [.pointer s] [] =
      some (puts 256 [] s (UInt32.ofNat (miniStrlen s))) := rfl
  change (miniVsnprintf 256 [0x25, 0x73] [.pointer s] []).map untilZero = _
  rw [hformat, hputs, Option.map_some, untilZero_of_noZero]
  exact fun hzero => zero_notMem_untilZero s (List.mem_of_mem_take hzero)

end UcasOs.Libs

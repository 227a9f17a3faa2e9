import UcasOs.Foundation.Outcome
import UcasOs.Libs.CString

/-!
# The screen

`drivers/screen.c`.  The functions stop where a store through `new_screen`
falls outside the array: what the program does after such a store depends on
how memory is laid out.
-/

namespace UcasOs.Drivers

open UcasOs.Foundation UcasOs.Libs

def screenWidth : Nat := 75

def screenHeight : Nat := 28

structure Screen where
  cursorX : Int
  cursorY : Int
  newScreen : Bytes (screenHeight * screenWidth)
  oldScreen : Bytes (screenHeight * screenWidth)
  /-- The characters sent to the serial port, with the places `vt100_move_cursor` gave them. -/
  port : List (Nat × Nat × UInt8)

namespace Screen

def cursor (s : Screen) : Int × Int := (s.cursorX, s.cursorY)

def load (s : Screen) (i : Int) : Option UInt8 :=
  if h : i.toNat < screenHeight * screenWidth then
    if 0 ≤ i then some (s.newScreen ⟨i.toNat, h⟩) else none
  else none

def store (s : Screen) (i : Int) (ch : UInt8) : Option Screen :=
  if h : i.toNat < screenHeight * screenWidth then
    if 0 ≤ i then some { s with newScreen := Function.update s.newScreen ⟨i.toNat, h⟩ ch }
    else none
  else none

/-- The values of the loop variable in `for (i = line1; i <= line2; i++)`. -/
def lines (line1 line2 : Int) : List Int :=
  (List.range (line2 + 1 - line1).toNat).map fun n : Nat => line1 + n

/-- The character that moves to line `i`, column `j`. -/
def scrolled (s : Screen) (line2 i : Int) (j : Nat) : Option UInt8 :=
  if i = line2 then some 32 else s.load ((i + 1) * screenWidth + j)

def screenScroll (s : Screen) (line1 line2 : Int) : Option Screen :=
  (lines line1 line2).foldlM (fun s i =>
    (List.range screenWidth).foldlM (fun s (j : Nat) => do
      let ch ← s.scrolled line2 i j
      s.store (i * screenWidth + j) ch) s) s

/-- Where the next character goes. -/
def place (s : Screen) : Int := s.cursorY * screenWidth + s.cursorX

/-- The character itself: a new line, a backspace, or a character to show. -/
def put (s : Screen) (ch : UInt8) : Option Screen :=
  if ch = 10 ∨ ch = 13 then
    some { s with cursorX := 0, cursorY := s.cursorY + 1 }
  else if ch = 8 ∨ ch = 127 then
    if s.cursorX > 0 then
      let s := { s with cursorX := s.cursorX - 1 }
      s.store s.place 32
    else some s
  else do
    let s ← s.store s.place ch
    return { s with cursorX := s.cursorX + 1 }

def wrap (s : Screen) : Screen :=
  if s.cursorX = screenWidth then { s with cursorX := 0, cursorY := s.cursorY + 1 } else s

/-- One line is preserved at the bottom. -/
def keepLine (s : Screen) : Option Screen :=
  if s.cursorY = screenHeight - 1 then do
    let s ← s.screenScroll (screenHeight / 2 + 1) (screenHeight - 2)
    return { s with cursorX := 0, cursorY := screenHeight - 2 }
  else some s

def screenWriteCh (s : Screen) (ch : UInt8) : Option Screen := do
  let s ← s.put ch
  s.wrap.keepLine

def screenReflush (s : Screen) : Screen :=
  (List.finRange (screenHeight * screenWidth)).foldl (fun s n =>
    if s.newScreen n ≠ s.oldScreen n then
      { s with
        oldScreen := Function.update s.oldScreen n (s.newScreen n)
        port := s.port ++ [(n % screenWidth + 1, n / screenWidth + 1, s.newScreen n)] }
    else s) s

def screenClear (s : Screen) (line1 line2 : Int) : Option Screen := do
  let s ← (lines line1 line2).foldlM (fun s i =>
    (List.range screenWidth).foldlM (fun s (j : Nat) => s.store (i * screenWidth + j) 32) s) s
  return s.screenReflush

/-- Hiding the cursor sends no character. -/
def initScreen (s : Screen) : Option Screen := s.screenClear 0 (screenHeight - 1)

def screenMoveCursor (s : Screen) (x y : Int) : Screen := { s with cursorX := x, cursorY := y }

def screenWrite (s : Screen) (buff : CString) : Option Screen :=
  buff.bytes.foldlM screenWriteCh s

/-! ## The cursor -/

def movePut (cursor : Int × Int) (ch : UInt8) : Int × Int :=
  if ch = 10 ∨ ch = 13 then (0, cursor.2 + 1)
  else if ch = 8 ∨ ch = 127 then (if cursor.1 > 0 then cursor.1 - 1 else cursor.1, cursor.2)
  else (cursor.1 + 1, cursor.2)

def moveWrap (cursor : Int × Int) : Int × Int :=
  if cursor.1 = screenWidth then (0, cursor.2 + 1) else cursor

def moveKeepLine (cursor : Int × Int) : Int × Int :=
  if cursor.2 = screenHeight - 1 then (0, (screenHeight : Int) - 2) else cursor

/-- How a character moves the cursor, whatever is on the screen. -/
def advance (cursor : Int × Int) (ch : UInt8) : Int × Int :=
  moveKeepLine (moveWrap (movePut cursor ch))

variable {s s' : Screen} {ch : UInt8}

theorem eq_of_store {i : Int} (h : s.store i ch = some s') :
    ∃ newScreen, s' = { s with newScreen := newScreen } := by
  unfold store at h
  split at h
  · split at h
    · exact ⟨_, (Option.some.inj h).symm⟩
    · cases h
  · cases h

theorem store_cursor {i : Int} (h : s.store i ch = some s') : s'.cursor = s.cursor := by
  obtain ⟨newScreen, rfl⟩ := eq_of_store h
  rfl

theorem screenReflush_cursor (s : Screen) : s.screenReflush.cursor = s.cursor := by
  unfold screenReflush
  generalize List.finRange (screenHeight * screenWidth) = cells
  induction cells generalizing s with
  | nil => rfl
  | cons n rest ih =>
      rw [List.foldl_cons, ih]
      split <;> rfl

theorem screenClear_cursor {line1 line2 : Int} (h : s.screenClear line1 line2 = some s') :
    s'.cursor = s.cursor := by
  obtain ⟨s₁, hloop, hlast⟩ := Option.bind_eq_some_iff.mp h
  rw [← Option.some.inj hlast, screenReflush_cursor]
  refine foldlM_keeps (P := fun t => t.cursor = s.cursor) (fun t i t' ht hline => ?_) rfl hloop
  refine foldlM_keeps (P := fun u => u.cursor = s.cursor) (fun u j u' hu hcell => ?_) ht hline
  exact (store_cursor hcell).trans hu

theorem put_cursor (h : s.put ch = some s') : s'.cursor = movePut s.cursor ch := by
  unfold put at h
  unfold movePut
  split at h
  · cases h
    rw [if_pos ‹_›]
    rfl
  · rw [if_neg ‹_›]
    split at h
    · rw [if_pos ‹_›]
      split at h
      · rw [store_cursor h, if_pos (show s.cursor.1 > 0 from ‹_›)]
        rfl
      · cases h
        rw [if_neg (show ¬ s.cursor.1 > 0 from ‹_›)]
    · rw [if_neg ‹_›]
      obtain ⟨s₁, hstore, hlast⟩ := Option.bind_eq_some_iff.mp h
      rw [← store_cursor hstore]
      cases hlast
      rfl

theorem wrap_cursor (s : Screen) : s.wrap.cursor = moveWrap s.cursor := by
  unfold wrap moveWrap
  by_cases hwidth : s.cursorX = screenWidth
  · rw [if_pos hwidth, if_pos (show s.cursor.1 = screenWidth from hwidth)]
    rfl
  · rw [if_neg hwidth, if_neg (show ¬ s.cursor.1 = screenWidth from hwidth)]

theorem keepLine_cursor (h : s.keepLine = some s') : s'.cursor = moveKeepLine s.cursor := by
  unfold keepLine at h
  unfold moveKeepLine
  split at h
  · rw [if_pos (show s.cursor.2 = screenHeight - 1 from ‹_›)]
    obtain ⟨s₁, -, hlast⟩ := Option.bind_eq_some_iff.mp h
    cases hlast
    rfl
  · rw [if_neg (show ¬ s.cursor.2 = screenHeight - 1 from ‹_›)]
    cases h
    rfl

theorem screenWriteCh_cursor (h : s.screenWriteCh ch = some s') :
    s'.cursor = advance s.cursor ch := by
  obtain ⟨s₁, hput, hlast⟩ := Option.bind_eq_some_iff.mp h
  rw [keepLine_cursor hlast, wrap_cursor, put_cursor hput]
  rfl

theorem screenWrite_cursor {buff : CString} (h : s.screenWrite buff = some s') :
    s'.cursor = buff.bytes.foldl advance s.cursor := by
  refine foldlM_simulates (R := fun t cursor => t.cursor = cursor) (fun t cursor ch t' ht hch => ?_)
    rfl h
  rw [screenWriteCh_cursor hch, ht]

/-! ## The cells -/

/-- The character at a line and a column of a screen buffer. -/
def charAt (buffer : Bytes (screenHeight * screenWidth)) (line column : Nat) : Option UInt8 :=
  if h : line * screenWidth + column < screenHeight * screenWidth then some (buffer ⟨_, h⟩)
  else none

theorem natCast_place (line column : Nat) :
    (line : Int) * screenWidth + column = ((line * screenWidth + column : Nat) : Int) := by
  push_cast
  rfl

theorem load_eq (s : Screen) (line column : Nat) :
    s.load ((line : Int) * screenWidth + column) = charAt s.newScreen line column := by
  unfold load charAt
  rw [natCast_place, Int.toNat_natCast]
  simp only [Int.natCast_nonneg, if_true]

/-- A cell is determined by its line and column. -/
theorem cell_inj {line line' column column' : Nat} (h : column < screenWidth)
    (h' : column' < screenWidth) :
    line * screenWidth + column = line' * screenWidth + column' ↔
      line = line' ∧ column = column' := by
  unfold screenWidth at *
  omega

theorem charAt_update {buffer : Bytes (screenHeight * screenWidth)} {line column l c : Nat}
    (hcolumn : column < screenWidth)
    (hin : line * screenWidth + column < screenHeight * screenWidth) (ch : UInt8)
    (hc : c < screenWidth) :
    charAt (Function.update buffer ⟨line * screenWidth + column, hin⟩ ch) l c =
      if l = line ∧ c = column then some ch else charAt buffer l c := by
  unfold charAt
  by_cases hcell : l = line ∧ c = column
  · rw [if_pos hcell]
    obtain ⟨rfl, rfl⟩ := hcell
    rw [dif_pos hin, Function.update_self]
  · rw [if_neg hcell]
    split
    · rw [Function.update_of_ne]
      rw [ne_eq, Fin.mk.injEq, cell_inj hc hcolumn]
      exact hcell
    · rfl

/-- `s'` is `s` with `value` on its new screen, and nothing sent. -/
structure Drawn (s s' : Screen) (value : Nat → Nat → Option UInt8) : Prop where
  cursor : s'.cursor = s.cursor
  old : s'.oldScreen = s.oldScreen
  port : s'.port = s.port
  cell : ∀ l c, c < screenWidth → charAt s'.newScreen l c = value l c

theorem Drawn.refl (s : Screen) : s.Drawn s (charAt s.newScreen) :=
  ⟨rfl, rfl, rfl, fun _ _ _ => rfl⟩

theorem Drawn.trans {s₁ s₂ : Screen} {value value' : Nat → Nat → Option UInt8}
    (first : s.Drawn s₁ value) (second : s₁.Drawn s₂ value') : s.Drawn s₂ value' :=
  ⟨second.cursor.trans first.cursor, second.old.trans first.old, second.port.trans first.port,
    second.cell⟩

theorem Drawn.congr {value value' : Nat → Nat → Option UInt8} (h : s.Drawn s' value)
    (heq : ∀ l c, c < screenWidth → value l c = value' l c) : s.Drawn s' value' :=
  ⟨h.cursor, h.old, h.port, fun l c hc => (h.cell l c hc).trans (heq l c hc)⟩

theorem store_drawn (s : Screen) {line column : Nat} (hline : line < screenHeight)
    (hcolumn : column < screenWidth) (ch : UInt8) :
    ∃ s', s.store ((line : Int) * screenWidth + column) ch = some s' ∧
      s.Drawn s' fun l c => if l = line ∧ c = column then some ch else charAt s.newScreen l c := by
  have hin : line * screenWidth + column < screenHeight * screenWidth := by
    unfold screenHeight screenWidth at *
    omega
  refine ⟨{ s with newScreen := Function.update s.newScreen ⟨_, hin⟩ ch }, ?_, rfl, rfl, rfl, ?_⟩
  · rw [store, natCast_place]
    simp only [Int.toNat_natCast, hin, Int.natCast_nonneg, dite_true, if_true]
  · exact fun l c hc => charAt_update hcolumn hin ch hc

/-- Filling one line, from what lies behind it. -/
theorem storeLine {g : Screen → Nat → Option UInt8} {w : Nat → Option UInt8} {line : Nat}
    (hline : line < screenHeight) (hw : ∀ j, j < screenWidth → (w j).isSome)
    (hg : ∀ s' j, j < screenWidth → (∀ l c, c < screenWidth → line < l →
      charAt s'.newScreen l c = charAt s.newScreen l c) → g s' j = w j) :
    ∃ s', (List.range screenWidth).foldlM (fun s (j : Nat) => do
        let ch ← g s j
        s.store ((line : Int) * screenWidth + j) ch) s = some s' ∧
      s.Drawn s' fun l c => if l = line then w c else charAt s.newScreen l c := by
  -- After `k` columns the first `k` cells of the line are filled.
  have hloop := foldlM_range (n := screenWidth)
    (P := fun k s' => s.Drawn s' fun l c =>
      if l = line ∧ c < k then w c else charAt s.newScreen l c)
    (f := fun s (j : Nat) => do
      let ch ← g s j
      s.store ((line : Int) * screenWidth + j) ch)
    ((Drawn.refl s).congr (by simp)) ?_
  · obtain ⟨s', hloop, hdrawn⟩ := hloop
    exact ⟨s', hloop, hdrawn.congr fun l c hc => by simp [hc]⟩
  · intro k s' hk hdrawn
    obtain ⟨ch, hch⟩ := Option.isSome_iff_exists.mp (hw k hk)
    have hread : g s' k = some ch := by
      rw [hg s' k hk, hch]
      intro l c hc hl
      rw [hdrawn.cell l c hc, if_neg (by omega)]
    obtain ⟨s₁, hstore, hdrawn₁⟩ := store_drawn s' hline hk ch
    refine ⟨s₁, by rw [hread]; exact hstore, (hdrawn.trans hdrawn₁).congr ?_⟩
    intro l c hc
    by_cases hcell : l = line ∧ c = k
    · rw [if_pos hcell, if_pos (by omega), hcell.2, hch]
    · rw [if_neg hcell, hdrawn.cell l c hc]
      congr 1
      rw [eq_iff_iff]
      omega

/-- Filling line after line, each from what lies behind it. -/
theorem storeLines {g : Screen → Int → Nat → Option UInt8} {w : Nat → Nat → Option UInt8}
    (line1 : Nat) {line2 : Nat} (hline2 : line2 < screenHeight)
    (hw : ∀ i j, i ≤ line2 → j < screenWidth → (w i j).isSome)
    (hg : ∀ s' i j, i ≤ line2 → j < screenWidth → (∀ l c, c < screenWidth → i < l →
      charAt s'.newScreen l c = charAt s.newScreen l c) → g s' (i : Nat) j = w i j) :
    ∃ s', (lines line1 line2).foldlM (fun s i =>
        (List.range screenWidth).foldlM (fun s (j : Nat) => do
          let ch ← g s i j
          s.store (i * screenWidth + j) ch) s) s = some s' ∧
      s.Drawn s' fun l c =>
        if line1 ≤ l ∧ l ≤ line2 then w l c else charAt s.newScreen l c := by
  have hcount : ((line2 : Int) + 1 - line1).toNat = line2 + 1 - line1 := by omega
  have hend : ∀ l, line1 ≤ l ∧ l < line1 + (line2 + 1 - line1) ↔ line1 ≤ l ∧ l ≤ line2 := by
    omega
  rw [lines, List.foldlM_map, hcount]
  have hloop := foldlM_range (n := line2 + 1 - line1)
    (P := fun k s' => s.Drawn s' fun l c =>
      if line1 ≤ l ∧ l < line1 + k then w l c else charAt s.newScreen l c)
    (f := fun s (k : Nat) => (List.range screenWidth).foldlM (fun s (j : Nat) => do
      let ch ← g s ((line1 : Int) + k) j
      s.store (((line1 : Int) + k) * screenWidth + j) ch) s)
    ((Drawn.refl s).congr fun l c _ => by rw [if_neg (by omega)]) ?_
  · obtain ⟨s', hloop, hdrawn⟩ := hloop
    exact ⟨s', hloop, hdrawn.congr fun l c _ => by simp only [hend]⟩
  · intro k s' hk hdrawn
    have hcast : (line1 : Int) + k = ((line1 + k : Nat) : Int) := by
      push_cast
      rfl
    have hline : line1 + k < screenHeight := by omega
    obtain ⟨s₁, hloop, hdrawn₁⟩ := storeLine (s := s')
      (g := fun s j => g s ((line1 + k : Nat) : Int) j) (w := w (line1 + k)) hline
      (fun j hj => hw _ j (by omega) hj) (by
        intro s₁ j hj hbehind
        apply hg s₁ (line1 + k) j (by omega) hj
        intro l c hc hl
        rw [hbehind l c hc hl, hdrawn.cell l c hc, if_neg (by omega)])
    refine ⟨s₁, by rw [hcast]; exact hloop, (hdrawn.trans hdrawn₁).congr ?_⟩
    intro l c hc
    by_cases hl : l = line1 + k
    · rw [if_pos hl, if_pos (by omega), hl]
    · rw [if_neg hl, hdrawn.cell l c hc]
      congr 1
      rw [eq_iff_iff]
      omega

theorem screenScroll_drawn (s : Screen) (line1 : Nat) {line2 : Nat} (hline2 : line2 < screenHeight) :
    ∃ s', s.screenScroll line1 line2 = some s' ∧ s.Drawn s' fun l c =>
      if line1 ≤ l ∧ l ≤ line2 then
        if l = line2 then some 32 else charAt s.newScreen (l + 1) c
      else charAt s.newScreen l c := by
  apply storeLines (w := fun l c => if l = line2 then some 32 else charAt s.newScreen (l + 1) c)
    (g := fun s i j => s.scrolled line2 i j) line1 hline2
  · intro i j hi hj
    split
    · rfl
    · have hin : (i + 1) * screenWidth + j < screenHeight * screenWidth := by
        unfold screenHeight screenWidth at *
        omega
      rw [charAt, dif_pos hin]
      rfl
  · intro s' i j hi hj hbehind
    simp only [scrolled, Int.natCast_inj]
    split
    · rfl
    · rw [← hbehind (i + 1) j hj (by omega), ← load_eq]
      push_cast
      rfl

theorem screenClear_drawn (s : Screen) (line1 : Nat) {line2 : Nat} (hline2 : line2 < screenHeight) :
    ∃ s', s.screenClear line1 line2 = some s'.screenReflush ∧ s.Drawn s' fun l c =>
      if line1 ≤ l ∧ l ≤ line2 then some 32 else charAt s.newScreen l c := by
  obtain ⟨s', hloop, hdrawn⟩ := storeLines (s := s) (g := fun _ _ _ => some 32)
    (w := fun _ _ => some 32) line1 hline2 (fun _ _ _ _ => rfl)
    (fun _ _ _ _ _ _ => rfl)
  exact ⟨s', Option.bind_eq_some_iff.mpr ⟨s', hloop, rfl⟩, hdrawn⟩

end Screen

end UcasOs.Drivers

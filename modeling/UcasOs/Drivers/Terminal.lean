import UcasOs.Drivers.Screen

/-!
# The shell region is a scrolling terminal

Lines 15 to 26 of the screen scroll.  Writing to them is the same as writing to
a terminal that has no last line, and showing the twelve lines that end at the
cursor once it has come so far down.
-/

namespace UcasOs.Drivers

open UcasOs.Foundation UcasOs.Libs

/-- The lines that `screen_write_ch` scrolls. -/
def regionTop : Nat := screenHeight / 2 + 1

def regionBottom : Nat := screenHeight - 2

/-- A terminal of `screenWidth` columns whose lines go on without end. -/
structure Terminal where
  column : Nat
  line : Nat
  cells : Nat → Nat → UInt8

namespace Terminal

def newLine (t : Terminal) : Terminal := { t with column := 0, line := t.line + 1 }

def putAt (t : Terminal) (column : Nat) (ch : UInt8) : Terminal :=
  { t with cells := fun l c => if l = t.line ∧ c = column then ch else t.cells l c }

def writeCh (t : Terminal) (ch : UInt8) : Terminal :=
  if ch = 10 ∨ ch = 13 then t.newLine
  else if ch = 8 ∨ ch = 127 then
    if t.column > 0 then { t.putAt (t.column - 1) 32 with column := t.column - 1 } else t
  else if t.column + 1 = screenWidth then (t.putAt t.column ch).newLine
  else { t.putAt t.column ch with column := t.column + 1 }

def write (t : Terminal) (buff : CString) : Terminal := buff.bytes.foldl writeCh t

end Terminal

namespace Screen

/-- The terminal that starts with the region of the screen and goes on with blank lines. -/
def terminal (s : Screen) : Terminal where
  column := s.cursorX.toNat
  line := s.cursorY.toNat
  cells l c :=
    if regionTop ≤ l ∧ l ≤ regionBottom then (charAt s.newScreen l c).getD 32 else 32

structure InRegion (s : Screen) : Prop where
  left : 0 ≤ s.cursorX
  right : s.cursorX < screenWidth
  top : regionTop ≤ s.cursorY
  bottom : s.cursorY ≤ regionBottom

/--
The region shows the window of the terminal that ends at the cursor; behind it
the terminal is blank, and the rest of the screen is that of `s₀`.
-/
structure Shows (s₀ s : Screen) (t : Terminal) : Prop where
  column : s.cursorX = t.column
  columnLt : t.column < screenWidth
  top : regionTop ≤ t.line
  line : s.cursorY = (min t.line regionBottom : Nat)
  window : ∀ l c, regionTop ≤ l → l ≤ regionBottom → c < screenWidth →
    charAt s.newScreen l c = some (t.cells (l + (t.line - regionBottom)) c)
  blank : ∀ l c, regionBottom < l → t.line < l → t.cells l c = 32
  rest : ∀ l c, l < regionTop ∨ regionBottom < l → c < screenWidth →
    charAt s.newScreen l c = charAt s₀.newScreen l c

section

variable {s₀ s : Screen} {t : Terminal}

theorem InRegion.shows (h : s.InRegion) : Shows s s s.terminal := by
  obtain ⟨hleft, hright, htop, hbottom⟩ := h
  have hline : s.terminal.line = s.cursorY.toNat := rfl
  refine ⟨?_, ?_, ?_, ?_, ?_, ?_, fun _ _ _ _ => rfl⟩
  · exact (Int.toNat_of_nonneg hleft).symm
  · change s.cursorX.toNat < screenWidth
    omega
  · omega
  · omega
  · intro l c hl hl' hc
    have hin : l * screenWidth + c < screenHeight * screenWidth := by
      unfold regionBottom screenHeight screenWidth at *
      omega
    have hgone : s.terminal.line - regionBottom = 0 := by omega
    rw [hgone, Nat.add_zero]
    simp only [terminal, hl, hl', and_self, if_true, charAt, hin, dite_true, Option.getD_some]
  · intro l c hl _
    exact if_neg (by omega)

theorem Shows.inRegion (h : Shows s₀ s t) : s.InRegion := by
  have hregion : regionTop ≤ regionBottom := by decide
  have hcolumn := h.columnLt
  have htop := h.top
  constructor
  · rw [h.column]
    omega
  · rw [h.column]
    omega
  · rw [h.line]
    omega
  · rw [h.line]
    omega

theorem Shows.putAt (h : Shows s₀ s t) {column : Nat} (hcolumn : column < screenWidth)
    (ch : UInt8) :
    ∃ s', s.store (s.cursorY * screenWidth + column) ch = some s' ∧
      s'.cursor = s.cursor ∧ Shows s₀ s' (t.putAt column ch) := by
  have htop := h.top
  have hline : min t.line regionBottom < screenHeight := by
    unfold regionBottom screenHeight
    omega
  obtain ⟨s', hstore, hdrawn⟩ := store_drawn s hline hcolumn ch
  rw [← h.line] at hstore
  obtain ⟨hx, hy⟩ := Prod.mk.inj hdrawn.cursor
  refine ⟨s', hstore, hdrawn.cursor, ?_, h.columnLt, h.top, ?_, ?_, ?_, ?_⟩
  · exact hx.trans h.column
  · exact hy.trans h.line
  · intro l c hl hl' hc
    -- The line of the cursor is that of the terminal, less the lines gone.
    have hsame : l = min t.line regionBottom ↔ l + (t.line - regionBottom) = t.line := by omega
    rw [hdrawn.cell l c hc, h.window l c hl hl' hc]
    simp only [hsame, Terminal.putAt]
    split <;> rfl
  · intro l c hl hl'
    change t.line < l at hl'
    exact (if_neg (by omega)).trans (h.blank l c hl hl')
  · intro l c hl hc
    have hregion : regionTop ≤ regionBottom := by decide
    rw [hdrawn.cell l c hc, if_neg (by omega), h.rest l c hl hc]

theorem Shows.newLine (h : Shows s₀ s t) :
    ∃ s', { s with cursorX := 0, cursorY := s.cursorY + 1 }.keepLine = some s' ∧
      Shows s₀ s' t.newLine := by
  have htop := h.top
  have hline := h.line
  have hwidth : 0 < screenWidth := by decide
  have hregion : regionTop ≤ regionBottom := by decide
  have hlast : (screenHeight : Int) - 1 = regionBottom + 1 := by decide
  by_cases hbottom : t.line < regionBottom
  · refine ⟨_, if_neg ?_, rfl, hwidth, ?_, ?_, ?_, ?_, h.rest⟩
    · rw [hlast]
      change s.cursorY + 1 ≠ _
      omega
    · exact Nat.le_succ_of_le htop
    · change s.cursorY + 1 = (min (t.line + 1) regionBottom : Nat)
      omega
    · intro l c hl hl' hc
      have hgone : t.line + 1 - regionBottom = t.line - regionBottom := by omega
      change _ = some (t.cells (l + (t.line + 1 - regionBottom)) c)
      rw [hgone]
      exact h.window l c hl hl' hc
    · intro l c hl hl'
      exact h.blank l c hl (Nat.lt_of_succ_lt hl')
  · obtain ⟨s', hscroll, hdrawn⟩ := screenScroll_drawn
      { s with cursorX := 0, cursorY := s.cursorY + 1 } regionTop
      (show regionBottom < screenHeight by decide)
    refine ⟨{ s' with cursorX := 0, cursorY := regionBottom }, ?_, rfl, hwidth, ?_, ?_, ?_, ?_, ?_⟩
    · rw [keepLine, if_pos (by rw [hlast]; change s.cursorY + 1 = _; omega)]
      change (screenScroll _ regionTop regionBottom >>= _) = _
      rw [hscroll]
      rfl
    · exact Nat.le_succ_of_le htop
    · change (regionBottom : Int) = (min (t.line + 1) regionBottom : Nat)
      omega
    · intro l c hl hl' hc
      have hgone : t.line + 1 - regionBottom = t.line - regionBottom + 1 := by omega
      change charAt s'.newScreen l c = some (t.cells (l + (t.line + 1 - regionBottom)) c)
      rw [hgone, hdrawn.cell l c hc, if_pos ⟨hl, hl'⟩]
      split
      · rw [h.blank _ c (by omega) (by omega)]
      · rw [h.window (l + 1) c (by omega) (by omega) hc]
        congr 2
        omega
    · intro l c hl hl'
      exact h.blank l c hl (Nat.lt_of_succ_lt hl')
    · intro l c hl hc
      exact (hdrawn.cell l c hc).trans ((if_neg (by omega)).trans (h.rest l c hl hc))

/-- With the cursor inside the region nothing wraps and nothing scrolls. -/
theorem Shows.keepLine (h : Shows s₀ s t) : s.wrap.keepLine = some s := by
  obtain ⟨hleft, hright, htop, hbottom⟩ := h.inRegion
  have hlast : (screenHeight : Int) - 1 = regionBottom + 1 := by decide
  rw [wrap, if_neg (by omega), Screen.keepLine, if_neg (by omega)]

theorem Shows.moveTo (h : Shows s₀ s t) {column : Nat} (hcolumn : column < screenWidth) :
    Shows s₀ { s with cursorX := column } { t with column := column } :=
  ⟨rfl, hcolumn, h.top, h.line, h.window, h.blank, h.rest⟩

/-- A character written to the screen shows as it does on the terminal. -/
theorem Shows.writeCh (h : Shows s₀ s t) (ch : UInt8) :
    ∃ s', s.screenWriteCh ch = some s' ∧ Shows s₀ s' (t.writeCh ch) := by
  have hcolumn := h.columnLt
  have hx := h.column
  unfold screenWriteCh put Terminal.writeCh
  by_cases hnewline : ch = 10 ∨ ch = 13
  · rw [if_pos hnewline, if_pos hnewline]
    exact h.newLine
  rw [if_neg hnewline, if_neg hnewline]
  by_cases hback : ch = 8 ∨ ch = 127
  · rw [if_pos hback, if_pos hback]
    by_cases hpos : t.column > 0
    · rw [if_pos (by omega), if_pos hpos]
      have hbefore : t.column - 1 < screenWidth := by omega
      have hcast : s.cursorX - 1 = ((t.column - 1 : Nat) : Int) := by omega
      obtain ⟨s', hstore, -, hshows⟩ := (h.moveTo hbefore).putAt hbefore 32
      refine ⟨s', ?_, hshows⟩
      rw [hcast]
      change (store _ _ 32 >>= _) = _
      rw [place, hstore]
      exact hshows.keepLine
    · rw [if_neg (by omega), if_neg hpos]
      exact ⟨s, h.keepLine, h⟩
  · rw [if_neg hback, if_neg hback]
    obtain ⟨s', hstore, hcursor, hshows⟩ := h.putAt hcolumn ch
    have hplace : s.place = s.cursorY * screenWidth + t.column := by rw [place, hx]
    rw [hplace, hstore]
    obtain ⟨hx', hy'⟩ := Prod.mk.inj hcursor
    have hnext : s'.cursorX + 1 = ((t.column + 1 : Nat) : Int) := by
      rw [hx', hx]
      push_cast
      rfl
    by_cases hlast : t.column + 1 = screenWidth
    · rw [if_pos hlast]
      obtain ⟨s₁, hkeep, hshows₁⟩ := hshows.newLine
      refine ⟨s₁, ?_, hshows₁⟩
      change ({ s' with cursorX := s'.cursorX + 1 } : Screen).wrap.keepLine = _
      rw [wrap, if_pos (by rw [← hlast]; exact hnext)]
      exact hkeep
    · rw [if_neg hlast]
      have hmoved := hshows.moveTo (show t.column + 1 < screenWidth by omega)
      refine ⟨_, ?_, hmoved⟩
      change ({ s' with cursorX := s'.cursorX + 1 } : Screen).wrap.keepLine = _
      rw [hnext]
      exact hmoved.keepLine

theorem Shows.write (h : Shows s₀ s t) (bytes : List UInt8) :
    ∃ s', bytes.foldlM screenWriteCh s = some s' ∧
      Shows s₀ s' (bytes.foldl Terminal.writeCh t) :=
  foldlM_returns (fun _ _ ch _ h => h.writeCh ch) h

end

/--
Writing any string with the cursor in the shell region touches `new_screen`
inside its bounds only, keeps the lines outside the region and the cursor in
it, and leaves in the region what a terminal without a last line shows in the
twelve lines that end at line 26, or at its cursor if that is further down.
-/
theorem screenWrite_scrolls (s : Screen) (buff : CString) (hregion : s.InRegion) :
    ∃ s', s.screenWrite buff = some s' ∧ s'.InRegion ∧
      (∀ l c, l < regionTop ∨ regionBottom < l → c < screenWidth →
        charAt s'.newScreen l c = charAt s.newScreen l c) ∧
      ∀ l c, regionTop ≤ l → l ≤ regionBottom → c < screenWidth →
        charAt s'.newScreen l c = some ((s.terminal.write buff).cells
          (max regionBottom (s.terminal.write buff).line - (regionBottom - l)) c) := by
  obtain ⟨s', hwrite, hshows⟩ := hregion.shows.write buff.bytes
  refine ⟨s', hwrite, hshows.inRegion, hshows.rest, ?_⟩
  intro l c hl hl' hc
  rw [hshows.window l c hl hl' hc]
  change some ((s.terminal.write buff).cells
    (l + ((s.terminal.write buff).line - regionBottom)) c) = _
  congr 2
  omega

/-- A blank screen with the cursor in the last cell of the region. -/
def lastCell : Screen := ⟨74, 26, fun _ => 32, fun _ => 32, []⟩

/-- Here the first character wraps and scrolls, and the second scrolls again. -/
theorem screenWrite_scrolls_lastCell :
    lastCell.InRegion ∧ ∃ s', lastCell.screenWrite ⟨[97, 10, 98], by decide⟩ = some s' ∧
      s'.InRegion ∧ charAt s'.newScreen 24 74 = some 97 ∧ charAt s'.newScreen 26 0 = some 98 := by
  have hregion : lastCell.InRegion := by constructor <;> decide
  obtain ⟨s', hwrite, hregion', -, hwindow⟩ :=
    screenWrite_scrolls lastCell ⟨[97, 10, 98], by decide⟩ hregion
  refine ⟨hregion, s', hwrite, hregion', ?_, ?_⟩
  · rw [hwindow 24 74 (by decide) (by decide) (by decide)]
    decide
  · rw [hwindow 26 0 (by decide) (by decide) (by decide)]
    decide

end Screen

end UcasOs.Drivers

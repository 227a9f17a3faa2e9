import UcasOs.Drivers.Screen

/-!
# Sending only what has changed

`screen_reflush` sends the cells in which `new_screen` differs from
`old_screen`.  What the terminal at the serial port shows is `old_screen` at
all times, and `new_screen` after every refresh.
-/

namespace UcasOs.Drivers

open UcasOs.Foundation UcasOs.Libs

/-- What a terminal of the size of the screen shows. -/
abbrev Grid := Fin screenHeight → Fin screenWidth → UInt8

namespace Grid

/-- A cursor position, counted from one, and a character. -/
def receive (g : Grid) : Nat × Nat × UInt8 → Grid
  | (x, y, ch), line, column => if line + 1 = y ∧ column + 1 = x then ch else g line column

def cell (line : Fin screenHeight) (column : Fin screenWidth) :
    Fin (screenHeight * screenWidth) :=
  ⟨line * screenWidth + column, by
    have := line.isLt
    have := column.isLt
    unfold screenHeight screenWidth at *
    omega⟩

def ofBuffer (buffer : Bytes (screenHeight * screenWidth)) : Grid :=
  fun line column => buffer (cell line column)

theorem receive_cell (g : Grid) (n : Fin (screenHeight * screenWidth)) (ch : UInt8)
    (line : Fin screenHeight) (column : Fin screenWidth) :
    g.receive (n % screenWidth + 1, n / screenWidth + 1, ch) line column =
      if cell line column = n then ch else g line column := by
  have hcolumn := column.isLt
  have hplace : line.val + 1 = n / screenWidth + 1 ∧ column.val + 1 = n % screenWidth + 1 ↔
      cell line column = n := by
    rw [Fin.ext_iff]
    change _ ↔ line.val * screenWidth + column = n
    unfold screenWidth at *
    omega
  simp only [receive, hplace]

end Grid

namespace Screen

/-- What the terminal shows that showed `initial` before the first character was sent. -/
def shown (initial : Grid) (s : Screen) : Grid := s.port.foldl Grid.receive initial

theorem charAt_cell (buffer : Bytes (screenHeight * screenWidth)) (line : Fin screenHeight)
    (column : Fin screenWidth) :
    charAt buffer line column = some (buffer (Grid.cell line column)) :=
  dif_pos (Grid.cell line column).isLt

/-! ## One refresh -/

variable {initial : Grid} {s s' : Screen}

/-- One turn of the loops of `screen_reflush`. -/
private def sendCell (s : Screen) (n : Fin (screenHeight * screenWidth)) : Screen :=
  if s.newScreen n ≠ s.oldScreen n then
    { s with
      oldScreen := Function.update s.oldScreen n (s.newScreen n)
      port := s.port ++ [(n % screenWidth + 1, n / screenWidth + 1, s.newScreen n)] }
  else s

private theorem sendCell_new (s : Screen) (n : Fin (screenHeight * screenWidth)) :
    (sendCell s n).newScreen = s.newScreen := by
  unfold sendCell
  split <;> rfl

private theorem sendCell_old (s : Screen) (n m : Fin (screenHeight * screenWidth)) :
    (sendCell s n).oldScreen m = if m = n then s.newScreen m else s.oldScreen m := by
  unfold sendCell
  by_cases hm : m = n
  · subst hm
    rw [if_pos rfl]
    split
    · exact Function.update_self ..
    · rename_i heq
      exact (not_not.mp heq).symm
  · rw [if_neg hm]
    split
    · exact Function.update_of_ne hm ..
    · rfl

private theorem sendCell_shown (s : Screen) (n : Fin (screenHeight * screenWidth))
    (line : Fin screenHeight) (column : Fin screenWidth) :
    (sendCell s n).shown initial line column =
      if Grid.cell line column = n ∧ s.newScreen n ≠ s.oldScreen n then s.newScreen n
      else s.shown initial line column := by
  unfold sendCell
  split
  · rename_i hdiffers
    simp only [shown, List.foldl_append, List.foldl_cons, List.foldl_nil, Grid.receive_cell,
      hdiffers, ne_eq, not_false_eq_true, and_true]
  · rename_i heq
    rw [if_neg fun h => heq h.2]

/-- The cells of a list, once gone through. -/
private theorem sendCells (initial : Grid) (cells : List (Fin (screenHeight * screenWidth)))
    (s : Screen) :
    (cells.foldl sendCell s).newScreen = s.newScreen ∧
      (∀ n, (cells.foldl sendCell s).oldScreen n =
        if n ∈ cells then s.newScreen n else s.oldScreen n) ∧
      ∀ line column, (cells.foldl sendCell s).shown initial line column =
        if Grid.cell line column ∈ cells ∧
            s.newScreen (Grid.cell line column) ≠ s.oldScreen (Grid.cell line column) then
          s.newScreen (Grid.cell line column)
        else s.shown initial line column := by
  induction cells generalizing s with
  | nil => simp
  | cons m rest ih =>
      obtain ⟨hnew, hold, hshown⟩ := ih (sendCell s m)
      rw [List.foldl_cons]
      refine ⟨hnew.trans (sendCell_new s m), fun n => ?_, fun line column => ?_⟩
      · rw [hold, sendCell_new, sendCell_old]
        by_cases hn : n = m <;> simp [hn]
      · rw [hshown, sendCell_new, sendCell_old, sendCell_shown]
        by_cases hcell : Grid.cell line column = m
        · simp [hcell]
        · simp [hcell]

private theorem screenReflush_eq (s : Screen) :
    s.screenReflush = (List.finRange (screenHeight * screenWidth)).foldl sendCell s := rfl

theorem screenReflush_new (s : Screen) : s.screenReflush.newScreen = s.newScreen := by
  rw [screenReflush_eq]
  exact (sendCells (fun _ _ => 0) _ s).1

theorem screenReflush_old (s : Screen) : s.screenReflush.oldScreen = s.newScreen := by
  rw [screenReflush_eq]
  funext n
  rw [(sendCells (fun _ _ => 0) _ s).2.1 n, if_pos (List.mem_finRange n)]

/-- A refresh repaints the cells that differ from the remembered ones, and no others. -/
theorem screenReflush_shown (s : Screen) (line : Fin screenHeight) (column : Fin screenWidth) :
    s.screenReflush.shown initial line column =
      if s.newScreen (Grid.cell line column) ≠ s.oldScreen (Grid.cell line column) then
        s.newScreen (Grid.cell line column)
      else s.shown initial line column := by
  rw [screenReflush_eq, (sendCells initial _ s).2.2 line column]
  simp only [List.mem_finRange, true_and]

/-! ## The calls -/

/-- The terminal shows what is remembered. -/
def Synced (initial : Grid) (s : Screen) : Prop := s.shown initial = Grid.ofBuffer s.oldScreen

/-- Nothing sent, and nothing remembered anew. -/
def Quiet (s s' : Screen) : Prop := s'.oldScreen = s.oldScreen ∧ s'.port = s.port

theorem Quiet.trans {s₁ s₂ : Screen} (first : Quiet s s₁) (second : Quiet s₁ s₂) : Quiet s s₂ :=
  ⟨second.1.trans first.1, second.2.trans first.2⟩

theorem Quiet.synced (h : Quiet s s') (hs : Synced initial s) : Synced initial s' := by
  unfold Synced shown at *
  rw [h.1, h.2]
  exact hs

theorem screenReflush_synced (h : Synced initial s) : Synced initial s.screenReflush := by
  unfold Synced at h ⊢
  funext line column
  rw [screenReflush_shown, screenReflush_old, Grid.ofBuffer]
  rw [h, Grid.ofBuffer]
  split
  · rfl
  · rename_i heq
    exact (not_not.mp heq).symm

theorem store_quiet {i : Int} {ch : UInt8} (h : s.store i ch = some s') : Quiet s s' := by
  obtain ⟨newScreen, rfl⟩ := eq_of_store h
  exact ⟨rfl, rfl⟩

theorem foldlM_quiet {ι : Type} {f : Screen → ι → Option Screen} {l : List ι}
    (hf : ∀ s i s', f s i = some s' → Quiet s s') (h : l.foldlM f s = some s') : Quiet s s' := by
  refine foldlM_keeps (P := Quiet s) (fun s₁ i s₂ h₁ hturn => ?_) ⟨rfl, rfl⟩ h
  exact h₁.trans (hf s₁ i s₂ hturn)

theorem screenScroll_quiet {line1 line2 : Int} (h : s.screenScroll line1 line2 = some s') :
    Quiet s s' := by
  refine foldlM_quiet (fun s i s' hline => ?_) h
  refine foldlM_quiet (fun s j s' hcell => ?_) hline
  obtain ⟨ch, -, hstore⟩ := Option.bind_eq_some_iff.mp hcell
  exact store_quiet hstore

theorem put_quiet {ch : UInt8} (h : s.put ch = some s') : Quiet s s' := by
  unfold put at h
  split at h
  · cases h
    exact ⟨rfl, rfl⟩
  · split at h
    · split at h
      · exact show Quiet { s with cursorX := s.cursorX - 1 } s' from store_quiet h
      · cases h
        exact ⟨rfl, rfl⟩
    · obtain ⟨s₁, hstore, hlast⟩ := Option.bind_eq_some_iff.mp h
      cases hlast
      exact (store_quiet hstore).trans ⟨rfl, rfl⟩

theorem wrap_quiet (s : Screen) : Quiet s s.wrap := by
  unfold wrap
  split <;> exact ⟨rfl, rfl⟩

theorem keepLine_quiet (h : s.keepLine = some s') : Quiet s s' := by
  unfold keepLine at h
  split at h
  · obtain ⟨s₁, hscroll, hlast⟩ := Option.bind_eq_some_iff.mp h
    cases hlast
    exact (screenScroll_quiet hscroll).trans ⟨rfl, rfl⟩
  · cases h
    exact ⟨rfl, rfl⟩

theorem screenWrite_quiet {buff : CString} (h : s.screenWrite buff = some s') : Quiet s s' := by
  refine foldlM_quiet (fun s ch s' hch => ?_) h
  obtain ⟨s₁, hput, hlast⟩ := Option.bind_eq_some_iff.mp hch
  exact (put_quiet hput).trans ((wrap_quiet s₁).trans (keepLine_quiet hlast))

/-- A clearing is stores and a refresh. -/
theorem screenClear_cases {line1 line2 : Int} (h : s.screenClear line1 line2 = some s') :
    ∃ s₁, Quiet s s₁ ∧ s' = s₁.screenReflush := by
  obtain ⟨s₁, hloop, hlast⟩ := Option.bind_eq_some_iff.mp h
  refine ⟨s₁, ?_, (Option.some.inj hlast).symm⟩
  refine foldlM_quiet (fun s i s' hline => ?_) hloop
  exact foldlM_quiet (fun s j s' hcell => store_quiet hcell) hline

/-! ## Calls in range -/

/-- The cursor where characters go: not on the last line, which is kept. -/
structure OnScreen (s : Screen) : Prop where
  left : 0 ≤ s.cursorX
  right : s.cursorX < screenWidth
  top : 0 ≤ s.cursorY
  bottom : s.cursorY < screenHeight - 1

theorem store_some {x y : Int} (hx : 0 ≤ x) (hx' : x < screenWidth) (hy : 0 ≤ y)
    (hy' : y < screenHeight) (ch : UInt8) : ∃ s', s.store (y * screenWidth + x) ch = some s' := by
  lift x to Nat using hx
  lift y to Nat using hy
  obtain ⟨s', hstore, -⟩ := store_drawn s (by omega : y < screenHeight)
    (by omega : x < screenWidth) ch
  exact ⟨s', hstore⟩

theorem OnScreen.put (h : s.OnScreen) (ch : UInt8) : ∃ s', s.put ch = some s' := by
  obtain ⟨hleft, hright, htop, hbottom⟩ := h
  unfold Screen.put
  split
  · exact ⟨_, rfl⟩
  · split
    · split
      · exact store_some (show 0 ≤ s.cursorX - 1 by omega) (show s.cursorX - 1 < _ by omega) htop
          (show s.cursorY < _ by omega) 32
      · exact ⟨_, rfl⟩
    · obtain ⟨s', hstore⟩ := store_some (s := s) hleft hright htop (by omega) ch
      rw [place, hstore]
      exact ⟨_, rfl⟩

theorem keepLine_some (s : Screen) : ∃ s', s.keepLine = some s' := by
  unfold keepLine
  split
  · obtain ⟨s', hscroll, -⟩ := screenScroll_drawn s (screenHeight / 2 + 1)
      (show screenHeight - 2 < screenHeight by decide)
    have hlines : s.screenScroll (screenHeight / 2 + 1) (screenHeight - 2) = some s' := hscroll
    rw [hlines]
    exact ⟨_, rfl⟩
  · exact ⟨_, rfl⟩

theorem OnScreen.writeCh (h : s.OnScreen) (ch : UInt8) :
    ∃ s', s.screenWriteCh ch = some s' ∧ s'.OnScreen := by
  obtain ⟨s₁, hput⟩ := h.put ch
  obtain ⟨s', hkeep⟩ := keepLine_some s₁.wrap
  have hwrite : s.screenWriteCh ch = some s' :=
    Option.bind_eq_some_iff.mpr ⟨s₁, hput, hkeep⟩
  refine ⟨s', hwrite, ?_⟩
  obtain ⟨hleft, hright, htop, hbottom⟩ := h
  have hcursor : (s'.cursorX, s'.cursorY) = advance (s.cursorX, s.cursorY) ch :=
    screenWriteCh_cursor hwrite
  unfold advance movePut moveWrap moveKeepLine at hcursor
  have hwidth : (screenWidth : Int) = 75 := rfl
  have hheight : (screenHeight : Int) = 28 := rfl
  constructor <;> grind

theorem OnScreen.write (h : s.OnScreen) (buff : CString) :
    ∃ s', s.screenWrite buff = some s' ∧ s'.OnScreen :=
  foldlM_returns_keeping (fun _ ch _ h => h.writeCh ch) h

end Screen

open Screen

inductive DrawCall where
  | write (buff : CString)
  | clear (line1 line2 : Int)
  | moveCursor (x y : Int)
  | reflush

namespace DrawCall

def run (s : Screen) : DrawCall → Option Screen
  | .write buff => s.screenWrite buff
  | .clear line1 line2 => s.screenClear line1 line2
  | .moveCursor x y => some (s.screenMoveCursor x y)
  | .reflush => some s.screenReflush

variable {initial : Grid} {s s' : Screen} {call : DrawCall}

theorem run_synced (h : Synced initial s) (hrun : call.run s = some s') : Synced initial s' := by
  cases call with
  | write buff => exact (screenWrite_quiet hrun).synced h
  | clear line1 line2 =>
      obtain ⟨s₁, hquiet, heq⟩ := screenClear_cases hrun
      rw [heq]
      exact screenReflush_synced (hquiet.synced h)
  | moveCursor x y =>
      cases hrun
      exact h
  | reflush =>
      rw [run, Option.some.injEq] at hrun
      rw [← hrun]
      exact screenReflush_synced h

theorem runs_synced {calls : List DrawCall} (h : Synced initial s)
    (hruns : calls.foldlM run s = some s') : Synced initial s' :=
  foldlM_keeps (fun _ _ _ h hrun => run_synced h hrun) h hruns

/-- Lines of the screen, and places where the cursor may be put. -/
def InRange : DrawCall → Prop
  | .write _ => True
  | .clear line1 line2 =>
      (0 ≤ line1 ∧ line1 < screenHeight) ∧ 0 ≤ line2 ∧ line2 < screenHeight
  | .moveCursor x y => (0 ≤ x ∧ x < screenWidth) ∧ 0 ≤ y ∧ y < screenHeight - 1
  | .reflush => True

theorem run_some (h : s.OnScreen) (hrange : call.InRange) :
    ∃ s', call.run s = some s' ∧ s'.OnScreen := by
  have hcursor {s₁ s₂ : Screen} (h₁ : s₁.OnScreen) (heq : s₂.cursor = s₁.cursor) :
      s₂.OnScreen := by
    obtain ⟨hx, hy⟩ := Prod.mk.inj heq
    exact ⟨hx ▸ h₁.left, hx ▸ h₁.right, hy ▸ h₁.top, hy ▸ h₁.bottom⟩
  cases call with
  | write buff => exact h.write buff
  | clear line1 line2 =>
      obtain ⟨⟨hline1, -⟩, hline2, hline2'⟩ := hrange
      lift line1 to Nat using hline1
      lift line2 to Nat using hline2
      obtain ⟨s', hclear, -⟩ :=
        screenClear_drawn s line1 (by omega : line2 < screenHeight)
      exact ⟨_, hclear, hcursor h (screenClear_cursor hclear)⟩
  | moveCursor x y => exact ⟨_, rfl, hrange.1.1, hrange.1.2, hrange.2.1, hrange.2.2⟩
  | reflush => exact ⟨_, rfl, hcursor h (screenReflush_cursor s)⟩

theorem runs_some {calls : List DrawCall} (h : s.OnScreen)
    (hrange : ∀ call ∈ calls, call.InRange) : ∃ s', calls.foldlM run s = some s' := by
  obtain ⟨s', hruns, -⟩ :=
    foldlM_returns_keeping (fun s call hcall h => run_some h (hrange call hcall)) h
  exact ⟨s', hruns⟩

end DrawCall

/-- The screen driver before `init_screen`. -/
def zeroed : Screen := ⟨0, 0, fun _ => 0, fun _ => 0, []⟩

/-- `init_screen` repaints every cell, whatever the terminal showed. -/
theorem initScreen_zeroed (initial : Grid) :
    ∃ s₀, zeroed.initScreen = some s₀ ∧ Synced initial s₀ ∧ s₀.OnScreen := by
  obtain ⟨s', hclear, hdrawn⟩ := screenClear_drawn zeroed 0
    (show screenHeight - 1 < screenHeight by decide)
  have hinit : zeroed.initScreen = some s'.screenReflush := hclear
  have hblank (line : Fin screenHeight) (column : Fin screenWidth) :
      s'.newScreen (Grid.cell line column) = 32 := by
    have hcell := hdrawn.cell line column column.isLt
    rw [if_pos ⟨Nat.zero_le _, Nat.le_pred_of_lt line.isLt⟩, charAt_cell] at hcell
    exact Option.some.inj hcell
  refine ⟨_, hinit, ?_, ?_⟩
  · unfold Synced
    funext line column
    rw [screenReflush_shown, screenReflush_old, Grid.ofBuffer, hblank, hdrawn.old]
    rfl
  · have hcursor := (screenReflush_cursor s').trans hdrawn.cursor
    obtain ⟨hx, hy⟩ := Prod.mk.inj hcursor
    constructor
    · rw [hx]
      decide
    · rw [hx]
      decide
    · rw [hy]
      decide
    · rw [hy]
      decide

/--
From `init_screen` on, and whatever was drawn and cleared in between, the
terminal shows `old_screen` after every call, and `new_screen` too after every
refresh.  Calls in range never leave the buffers.
-/
theorem refresh_equals_redraw (initial : Grid) (calls : List DrawCall) :
    ∃ s₀, zeroed.initScreen = some s₀ ∧
      (∀ s, calls.foldlM DrawCall.run s₀ = some s →
        s.shown initial = Grid.ofBuffer s.oldScreen ∧
          (calls.getLast? = some .reflush → s.oldScreen = s.newScreen)) ∧
      ((∀ call ∈ calls, call.InRange) → ∃ s, calls.foldlM DrawCall.run s₀ = some s) := by
  obtain ⟨s₀, hinit, hsynced, honscreen⟩ := initScreen_zeroed initial
  refine ⟨s₀, hinit, fun s hruns => ⟨DrawCall.runs_synced hsynced hruns, fun hlast => ?_⟩,
    DrawCall.runs_some honscreen⟩
  obtain ⟨front, rfl⟩ := List.getLast?_eq_some_iff.mp hlast
  rw [List.foldlM_append] at hruns
  obtain ⟨s₁, -, hreflush⟩ := Option.bind_eq_some_iff.mp hruns
  have heq : s = s₁.screenReflush := by simpa [DrawCall.run] using hreflush.symm
  rw [heq, screenReflush_old, screenReflush_new]

end UcasOs.Drivers

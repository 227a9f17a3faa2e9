import UcasOs.Drivers.Screen
import UcasOs.Sched.Moves

/-!
# The cursors of the tasks

There is one cursor, which `scheduler` saves and restores.  In `consoleSystem`
the tasks write to the screen one character at a time, and everything else the
kernel does may come between two characters.  Each task still finds the cursor
where its own calls have put it.
-/

namespace UcasOs.Sched

open UcasOs.Foundation UcasOs.Libs UcasOs.Drivers

variable {k k' : Kernel} {v v' v₁ v₂ : View} {event : Event} {q : QueueId} {lock : Nat}
  {kont : Kont} {status : TaskStatus} {pid p : Pid}

namespace View

/-- The cursor as the task will find it when it runs. -/
def cursorOf (v : View) (p : Pid) : Int × Int := if p = v.current then v.screen else v.cursor p

/-- No cursor moves, and no task comes to life. -/
structure Unmoved (v v' : View) : Prop where
  cursor : ∀ p, v'.cursorOf p = v.cursorOf p
  live : ∀ p, v'.live p → v.live p

theorem Unmoved.refl (v : View) : v.Unmoved v := ⟨fun _ => rfl, fun _ => id⟩

theorem Unmoved.trans (h : v.Unmoved v₁) (h' : v₁.Unmoved v₂) : v.Unmoved v₂ :=
  ⟨fun p => (h'.cursor p).trans (h.cursor p), fun p hp => h.live p (h'.live p hp)⟩

/-- An update of other parts of the view. -/
theorem Unmoved.after_set (h : v₁.Unmoved v') (hcurrent : v₁.current = v.current)
    (hcursor : v₁.cursor = v.cursor) (hscreen : v₁.screen = v.screen)
    (hlive : v₁.live = v.live) : v.Unmoved v' := by
  refine Unmoved.trans ⟨fun p => ?_, fun p hp => by rwa [hlive] at hp⟩ h
  rw [cursorOf, cursorOf, hcurrent, hcursor, hscreen]

/-- The cursor is saved for the task that is left before that of the next is restored. -/
theorem switch_unmoved (v : View) (kont : Kont) (next : Pid) :
    v.Unmoved (v.switch kont next) := by
  refine ⟨fun p => ?_, fun _ => id⟩
  change (if p = next then Function.update v.cursor v.current v.screen next
    else Function.update v.cursor v.current v.screen p) = _
  have hsaved : Function.update v.cursor v.current v.screen p = v.cursorOf p := by
    by_cases hp : p = v.current
    · rw [hp, Function.update_self, cursorOf, if_pos rfl]
    · rw [Function.update_of_ne hp, cursorOf, if_neg hp]
  by_cases hnext : p = next
  · rw [if_pos hnext, ← hnext, hsaved]
  · rw [if_neg hnext, hsaved]

theorem Switches.unmoved (h : v.Switches kont v') : v.Unmoved v' := by
  obtain ⟨next, -, rfl⟩ := h
  exact v.switch_unmoved kont next

theorem Waits.unmoved (h : v.Waits q status kont v') : v.Unmoved v' :=
  (Switches.unmoved h).after_set rfl rfl rfl rfl

theorem WakesOne.unmoved (h : v.WakesOne q v') : v.Unmoved v' := by
  obtain ⟨-, rfl⟩ | ⟨p, -, rfl⟩ := h
  · exact Unmoved.refl _
  · exact (Unmoved.refl _).after_set rfl rfl rfl rfl

theorem wakeAll_unmoved (v : View) (q : QueueId) : v.Unmoved (v.wakeAll q) :=
  (Unmoved.refl _).after_set rfl rfl rfl rfl

theorem wakeSleeper_unmoved (v : View) : v.Unmoved v.wakeSleeper := by
  unfold wakeSleeper
  cases (v.queue .sleep).find? fun p => v.Due p with
  | none => exact Unmoved.refl v
  | some p => exact (Unmoved.refl _).after_set rfl rfl rfl rfl

theorem Takes.unmoved (h : v.Takes lock v') : v.Unmoved v' := by
  unfold Takes at h
  split at h
  · exact Waits.unmoved h
  · rw [h]
    exact (Unmoved.refl _).after_set rfl rfl rfl rfl

theorem Acquires.unmoved (h : v.Acquires lock v') : v.Unmoved v' := by
  unfold Acquires at h
  split at h
  · rw [h]
    exact Unmoved.refl v
  · exact h.unmoved

theorem opened_unmoved (h : v.WakesOne (.mutex lock) v₁) :
    v.Unmoved ((v₁.addLocks pid (-1)).setMutex lock ⟨.unlocked, 0⟩) :=
  h.unmoved.trans ((Unmoved.refl _).after_set rfl rfl rfl rfl)

theorem Releases.unmoved (h : v.Releases lock v') : v.Unmoved v' := by
  unfold Releases at h
  split at h
  · rw [h]
    exact Unmoved.refl v
  · obtain ⟨v₁, hwakes, rfl⟩ := h
    exact opened_unmoved hwakes

theorem KillLocks.unmoved {locks : List Nat} (h : KillLocks pid locks v v') : v.Unmoved v' := by
  induction locks generalizing v with
  | nil =>
      rw [show v' = v from h]
      exact Unmoved.refl v
  | cons i rest ih =>
      unfold KillLocks at h
      split at h
      · obtain ⟨v₁, hlock, hrest⟩ := h
        unfold KillLock at hlock
        split at hlock
        · obtain ⟨v₂, hwakes, rfl⟩ := hlock
          exact (opened_unmoved hwakes).trans (ih hrest)
        · rw [hlock] at hrest
          exact ih hrest
      · rw [h]
        exact Unmoved.refl v

theorem Kills.unmoved (h : v.Kills pid v') : v.Unmoved v' := by
  obtain ⟨q, v₁, -, hlocks, hlast⟩ := h
  have hremove : v.Unmoved (v.remove q pid) := ⟨fun _ => rfl, fun _ hp => hp.2⟩
  have hwoken : v.Unmoved (v₁.wakeAll (.wait pid)) :=
    hremove.trans (hlocks.unmoved.trans (v₁.wakeAll_unmoved _))
  split at hlast
  · exact hwoken.trans hlast.unmoved
  · rw [hlast]
    exact hwoken

theorem KillStep.unmoved {pid : Int} (h : v.KillStep pid v') : v.Unmoved v' := by
  obtain ⟨-, rfl⟩ | ⟨-, p, -, hkills⟩ := h
  · exact Unmoved.refl _
  · exact hkills.unmoved

theorem Resumes.unmoved (h : v.Resumes v') : v.Unmoved v' := by
  unfold Resumes at h
  split at h
  · rw [h]
    exact Unmoved.refl v
  · exact (Takes.unmoved h).after_set rfl rfl rfl rfl
  · exact (Acquires.unmoved h).after_set rfl rfl rfl rfl

/-- A new task finds the cursor in the corner. -/
theorem spawn_cursorOf (hwf : v.Wf) (hdead : ¬ v.live pid) (hpid : pid ≠ 0) (p : Pid) :
    (v.spawn pid).cursorOf p = if p = pid then (0, 0) else v.cursorOf p := by
  have hcur : pid ≠ v.current := by
    rintro rfl
    exact hdead (hwf.live (hwf.current hpid))
  change (if p = v.current then v.screen else Function.update v.cursor pid (0, 0) p) = _
  by_cases hp : p = pid
  · rw [if_pos hp, hp, if_neg hcur, Function.update_self]
  · rw [if_neg hp, Function.update_of_ne hp]
    rfl

/-- No event but a spawn moves a cursor. -/
theorem Moves.unmoved (h : v.Moves event v') :
    v.Unmoved v' ∨ ∃ pid, ¬ v.live pid ∧ pid ≠ 0 ∧ v' = v.spawn pid := by
  have hdoes := h.does
  cases event with
  | resume => exact .inl (Resumes.unmoved hdoes)
  | entry e =>
      change v.Step v' e at hdoes
      cases e with
      | spawn task =>
          obtain rfl | hspawned := hdoes
          · exact .inl (Unmoved.refl _)
          · exact .inr hspawned
      | kill pid => exact .inl (KillStep.unmoved hdoes)
      | exit => exact .inl (KillStep.unmoved hdoes)
      | wait pid =>
          obtain ⟨-, rfl⟩ | ⟨-, p, -, hwaits⟩ := hdoes
          · exact .inl (Unmoved.refl _)
          · exact .inl hwaits.unmoved
      | sleep time => exact .inl ((Waits.unmoved hdoes).after_set rfl rfl rfl rfl)
      | mutexInit | semaphoreInit | conditionInit | barrierInit =>
          rw [hdoes]
          exact .inl ((Unmoved.refl _).after_set rfl rfl rfl rfl)
      | mutexAcquire lock => exact .inl (Acquires.unmoved hdoes)
      | mutexRelease lock => exact .inl (Releases.unmoved hdoes)
      | semaphoreUp s =>
          simp only [Step] at hdoes
          split at hdoes
          · exact .inl ((WakesOne.unmoved hdoes).after_set rfl rfl rfl rfl)
          · exact .inl (hdoes ▸ (Unmoved.refl _).after_set rfl rfl rfl rfl)
      | semaphoreDown s =>
          simp only [Step] at hdoes
          split at hdoes
          · exact .inl ((Waits.unmoved hdoes).after_set rfl rfl rfl rfl)
          · exact .inl (hdoes ▸ (Unmoved.refl _).after_set rfl rfl rfl rfl)
      | conditionWait condition lock =>
          obtain ⟨v₁, hreleases, hwaits⟩ := hdoes
          exact .inl ((hreleases.unmoved.trans hwaits.unmoved).after_set rfl rfl rfl rfl)
      | conditionSignal condition =>
          simp only [Step] at hdoes
          split at hdoes
          · exact .inl ((WakesOne.unmoved hdoes).after_set rfl rfl rfl rfl)
          · exact .inl (hdoes ▸ Unmoved.refl _)
      | conditionBroadcast condition =>
          simp only [Step] at hdoes
          split at hdoes
          · rw [hdoes]
            exact .inl ((wakeAll_unmoved _ _).after_set rfl rfl rfl rfl)
          · exact .inl (hdoes ▸ Unmoved.refl _)
      | barrierWait barrier =>
          simp only [Step] at hdoes
          split at hdoes
          · rw [hdoes]
            exact .inl ((wakeAll_unmoved _ _).after_set rfl rfl rfl rfl)
          · exact .inl ((Waits.unmoved hdoes).after_set rfl rfl rfl rfl)
      | waitRecv => exact .inl (Waits.unmoved hdoes)
      | timer =>
          refine .inl (((wakeSleeper_unmoved _).trans (Switches.unmoved hdoes)).after_set
            rfl rfl rfl rfl)
      | mac => exact .inl (WakesOne.unmoved hdoes)

end View

/-! ## The console -/

inductive ScreenCall where
  | write (buff : CString)
  | moveCursor (x y : Int)
  deriving DecidableEq

/-- The kernel with the buffers of the screen driver. -/
structure Console where
  kernel : Kernel
  newScreen : Bytes (screenHeight * screenWidth)
  oldScreen : Bytes (screenHeight * screenWidth)
  port : List (Nat × Nat × UInt8)
  /-- What each task has still to write in its call of `screen_write`. -/
  rest : Pid → List UInt8

inductive ConsoleEvent where
  | kernel (event : Event)
  | scheduler
  | call (call : ScreenCall)
  | writeCh
  | clear (line1 line2 : Int)
  | reflush

/-- A task with this pid has been created in the step. -/
def Born (k k' : Kernel) (p : Pid) : Prop := ¬ k.Live p ∧ k'.Live p

instance (k k' : Kernel) (p : Pid) : Decidable (Born k k' p) := inferInstanceAs (Decidable (_ ∧ _))

namespace Console

def screen (c : Console) : Screen where
  cursorX := c.kernel.screenCursorX
  cursorY := c.kernel.screenCursorY
  newScreen := c.newScreen
  oldScreen := c.oldScreen
  port := c.port

def setScreen (c : Console) (s : Screen) : Console :=
  { c with
    kernel := { c.kernel with screenCursorX := s.cursorX, screenCursorY := s.cursorY }
    newScreen := s.newScreen
    oldScreen := s.oldScreen
    port := s.port }

def setRest (c : Console) (rest : List UInt8) : Console :=
  { c with rest := Function.update c.rest c.kernel.currentRunning rest }

def setKernel (c : Console) (k : Kernel) : Console :=
  { c with
    kernel := k
    rest := fun p => if Born c.kernel k p then [] else c.rest p }

/-- A call of the running task.  The loop of `screen_write` is left to `writeCh`. -/
def begin (c : Console) : ScreenCall → Console
  | .write buff => c.setRest buff.bytes
  | .moveCursor x y => c.setScreen (c.screen.screenMoveCursor x y)

/-- One round of the loop of `screen_write`. -/
def writeCh (c : Console) : Option Console :=
  match c.rest c.kernel.currentRunning with
  | [] => none
  | ch :: rest => (c.screen.screenWriteCh ch).map fun s => (c.setScreen s).setRest rest

def exec (c : Console) : ConsoleEvent → Option Console
  | .kernel event => (c.kernel.exec event).toOption.map c.setKernel
  | .scheduler => (c.kernel.doScheduler .ret).toOption.map c.setKernel
  | .call call => some (c.begin call)
  | .writeCh => c.writeCh
  | .clear line1 line2 => (c.screen.screenClear line1 line2).map c.setScreen
  | .reflush => some (c.setScreen c.screen.screenReflush)

end Console

def ConsoleEvent.Enabled (c : Console) : ConsoleEvent → Prop
  | .kernel event => event.Enabled c.kernel
  | .call _ =>
      c.kernel.kont c.kernel.currentRunning = .ret ∧ c.rest c.kernel.currentRunning = []
  | _ => c.kernel.kont c.kernel.currentRunning = .ret

/-- The calls of one task, and the cursor at each of its characters. -/
structure Journal where
  calls : List ScreenCall
  marks : List (Int × Int)

def Journal.post (j : Journal) (t : Pid) (c : Console) (event : ConsoleEvent) (c' : Console) :
    Journal :=
  match event with
  | .kernel _ => if Born c.kernel c'.kernel t then ⟨[], []⟩ else j
  | .call call =>
      if c.kernel.currentRunning = t then { j with calls := j.calls ++ [call] } else j
  | .writeCh =>
      if c.kernel.currentRunning = t then { j with marks := j.marks ++ [c.screen.cursor] } else j
  | _ => j

/-- The runs of the console, with the journal of the task `t`. -/
def consoleSystem (t : Pid) : Lts (Console × Journal) ConsoleEvent where
  step s event s' :=
    event.Enabled s.1 ∧ s.1.exec event = some s'.1 ∧ s'.2 = s.2.post t s.1 event s'.1

/-- The screen before the first character. -/
def Console.blank (k : Kernel) (newScreen oldScreen : Bytes (screenHeight * screenWidth)) :
    Console :=
  ⟨k, newScreen, oldScreen, [], fun _ => []⟩

/-! ## What a task's own calls determine -/

/-- The cursor at each character of a string that is written from `cursor` on. -/
def trail (cursor : Int × Int) : List UInt8 → List (Int × Int)
  | [] => []
  | ch :: rest => cursor :: trail (Screen.advance cursor ch) rest

namespace ScreenCall

def trail (cursor : Int × Int) : ScreenCall → List (Int × Int)
  | .write buff => Sched.trail cursor buff.bytes
  | .moveCursor _ _ => []

def move (cursor : Int × Int) : ScreenCall → Int × Int
  | .write buff => buff.bytes.foldl Screen.advance cursor
  | .moveCursor x y => (x, y)

end ScreenCall

/-- The cursor at each character of a sequence of calls. -/
def replay (cursor : Int × Int) : List ScreenCall → List (Int × Int)
  | [] => []
  | call :: calls => call.trail cursor ++ replay (call.move cursor) calls

theorem replay_append (cursor : Int × Int) (calls more : List ScreenCall) :
    replay cursor (calls ++ more) =
      replay cursor calls ++ replay (calls.foldl ScreenCall.move cursor) more := by
  induction calls generalizing cursor with
  | nil => rfl
  | cons call rest ih =>
      rw [List.cons_append, replay, replay, ih, List.append_assoc]
      rfl

theorem replay_mono {calls more : List ScreenCall} (h : calls <+: more) (cursor : Int × Int) :
    replay cursor calls <+: replay cursor more := by
  obtain ⟨rest, rfl⟩ := h
  rw [replay_append]
  exact List.prefix_append _ _

/-- The journal is what the calls determine, up to the characters that are still to come. -/
structure Journal.Keeps (j : Journal) (cursor : Int × Int) (rest : List UInt8) : Prop where
  marks : j.marks ++ trail cursor rest = replay (0, 0) j.calls
  cursor : rest.foldl Screen.advance cursor = j.calls.foldl ScreenCall.move (0, 0)

namespace Journal.Keeps

variable {j : Journal} {cursor : Int × Int} {ch : UInt8} {rest : List UInt8}

theorem fresh : Journal.Keeps ⟨[], []⟩ (0, 0) [] := ⟨rfl, rfl⟩

theorem write (h : j.Keeps cursor []) (buff : CString) :
    Journal.Keeps { j with calls := j.calls ++ [.write buff] } cursor buff.bytes := by
  have hmarks : j.marks = replay (0, 0) j.calls := by simpa [trail] using h.marks
  have hcursor : cursor = j.calls.foldl ScreenCall.move (0, 0) := h.cursor
  constructor
  · simp only [replay_append, replay, List.append_nil, ScreenCall.trail, ← hcursor, hmarks]
  · rw [List.foldl_append, ← hcursor]
    rfl

theorem moveCursor (h : j.Keeps cursor []) (x y : Int) :
    Journal.Keeps { j with calls := j.calls ++ [.moveCursor x y] } (x, y) [] := by
  have hmarks : j.marks = replay (0, 0) j.calls := by simpa [trail] using h.marks
  constructor
  · simp only [replay_append, replay, List.append_nil, ScreenCall.trail, trail, hmarks]
  · rw [List.foldl_append]
    rfl

theorem writeCh (h : j.Keeps cursor (ch :: rest)) :
    Journal.Keeps { j with marks := j.marks ++ [cursor] } (Screen.advance cursor ch) rest := by
  refine ⟨?_, h.cursor⟩
  rw [← h.marks, trail, List.append_assoc]
  rfl

end Journal.Keeps

/-! ## Runs -/

variable {t : Pid} {c c' : Console} {j j' : Journal}

/-- The view of a kernel whose screen driver has moved the cursor. -/
theorem Seen.setScreen (h : Seen noTask True c.kernel v) (s : Screen) :
    Seen noTask True (c.setScreen s).kernel { v with screen := s.cursor } := by
  refine h.congr rfl rfl rfl (fun _ => Pcb.Keeps.refl _) ?_
  conv_rhs => rw [← h.view]
  rfl

theorem Seen.cursorOf_current (h : Seen noTask True c.kernel v) :
    v.cursorOf c.kernel.currentRunning = c.screen.cursor := by
  rw [View.cursorOf, h.current_eq, if_pos rfl, ← h.view]
  rfl

theorem View.cursorOf_screen (v : View) (cursor : Int × Int) (p : Pid) :
    View.cursorOf { v with screen := cursor } p =
      if p = v.current then cursor else v.cursorOf p := by
  unfold View.cursorOf
  split <;> rfl

/-- The task finds its cursor where its journal says. -/
def Faithful (t : Pid) (c : Console) (j : Journal) : Prop :=
  ∃ v, Seen noTask True c.kernel v ∧ j.Keeps (v.cursorOf t) (c.rest t)

theorem Faithful.unmoved (hseen : Seen noTask True c.kernel v)
    (hkeeps : j.Keeps (v.cursorOf t) (c.rest t)) (hseen' : Seen noTask True k' v')
    (hunmoved : v.Unmoved v') : ¬ Born c.kernel k' t ∧ Faithful t (c.setKernel k') j := by
  have hborn : ¬ Born c.kernel k' t := fun hborn =>
    hborn.1 ((hseen.live_iff t).mp (hunmoved.live t ((hseen'.live_iff t).mpr hborn.2)))
  refine ⟨hborn, v', hseen', ?_⟩
  change j.Keeps _ (if Born c.kernel k' t then [] else c.rest t)
  rwa [if_neg hborn, hunmoved.cursor]

theorem Faithful.kernel (h : Faithful t c j) (hstep : kernelSystem.step c.kernel event k') :
    Faithful t (c.setKernel k') (if Born c.kernel k' t then ⟨[], []⟩ else j) := by
  obtain ⟨v, hseen, hkeeps⟩ := h
  obtain ⟨v', hseen', hmoves⟩ := hseen.step hstep
  obtain hunmoved | ⟨pid, hdead, hpid, rfl⟩ := hmoves.unmoved
  · obtain ⟨hborn, hfaithful⟩ := Faithful.unmoved hseen hkeeps hseen' hunmoved
    rwa [if_neg hborn]
  · have hcursor := View.spawn_cursorOf hmoves.before hdead hpid t
    have hlive : (v.spawn pid).live t ↔ t = pid ∨ v.live t := Iff.rfl
    rw [hseen'.live_iff, hseen.live_iff] at hlive
    refine ⟨v.spawn pid, hseen', ?_⟩
    change Journal.Keeps _ _ (if Born c.kernel k' t then [] else c.rest t)
    rw [hcursor]
    by_cases ht : t = pid
    · have hborn : Born c.kernel k' t :=
        ⟨fun hlive => hdead ((hseen.live_iff pid).mpr (ht ▸ hlive)), hlive.mpr (.inl ht)⟩
      rw [if_pos hborn, if_pos hborn, if_pos ht]
      exact .fresh
    · have hborn : ¬ Born c.kernel k' t := fun hborn =>
        hborn.1 ((hlive.mp hborn.2).resolve_left ht)
      rwa [if_neg hborn, if_neg hborn, if_neg ht]

/-- The screen driver moves the cursor of the running task only. -/
theorem Faithful.screen (hseen : Seen noTask True c.kernel v) (s : Screen) (rest : Pid → List UInt8)
    (hkeeps : j.Keeps (if t = c.kernel.currentRunning then s.cursor else v.cursorOf t) (rest t)) :
    Faithful t { c.setScreen s with rest } j := by
  refine ⟨_, hseen.setScreen s, ?_⟩
  rwa [View.cursorOf_screen, hseen.current_eq]

theorem Faithful.begin (h : Faithful t c j) (call : ScreenCall)
    (hrest : c.rest c.kernel.currentRunning = []) :
    Faithful t (c.begin call)
      (if c.kernel.currentRunning = t then { j with calls := j.calls ++ [call] } else j) := by
  obtain ⟨v, hseen, hkeeps⟩ := h
  by_cases ht : c.kernel.currentRunning = t
  · rw [if_pos ht]
    rw [ht] at hrest
    rw [hrest] at hkeeps
    cases call with
    | write buff =>
        refine ⟨v, hseen, ?_⟩
        change Journal.Keeps _ _ (Function.update c.rest c.kernel.currentRunning _ t)
        rw [ht, Function.update_self]
        exact hkeeps.write buff
    | moveCursor x y =>
        refine Faithful.screen hseen _ c.rest ?_
        rw [if_pos ht.symm, hrest]
        exact hkeeps.moveCursor x y
  · rw [if_neg ht]
    cases call with
    | write buff =>
        refine ⟨v, hseen, ?_⟩
        change Journal.Keeps _ _ (Function.update c.rest c.kernel.currentRunning _ t)
        rwa [Function.update_of_ne (Ne.symm ht)]
    | moveCursor x y =>
        refine Faithful.screen hseen _ c.rest ?_
        rwa [if_neg (Ne.symm ht)]

theorem Faithful.writeCh (h : Faithful t c j) (hwrite : c.writeCh = some c') :
    Faithful t c'
      (if c.kernel.currentRunning = t then { j with marks := j.marks ++ [c.screen.cursor] }
        else j) := by
  obtain ⟨v, hseen, hkeeps⟩ := h
  unfold Console.writeCh at hwrite
  split at hwrite
  · cases hwrite
  rename_i ch rest hrest
  obtain ⟨s, hch, rfl⟩ := Option.map_eq_some_iff.mp hwrite
  refine Faithful.screen hseen s (Function.update c.rest c.kernel.currentRunning rest) ?_
  by_cases ht : c.kernel.currentRunning = t
  · rw [if_pos ht, if_pos ht.symm, ht, Function.update_self, Screen.screenWriteCh_cursor hch]
    rw [ht] at hrest
    rw [hrest, ← ht, hseen.cursorOf_current] at hkeeps
    exact hkeeps.writeCh
  · rw [if_neg ht, if_neg (Ne.symm ht), Function.update_of_ne (Ne.symm ht)]
    exact hkeeps

/-- A driver function that leaves the cursor where it is. -/
theorem Faithful.still (h : Faithful t c j) {s : Screen} (hs : s.cursor = c.screen.cursor) :
    Faithful t (c.setScreen s) j := by
  obtain ⟨v, hseen, hkeeps⟩ := h
  refine Faithful.screen hseen s c.rest ?_
  by_cases ht : t = c.kernel.currentRunning
  · rw [if_pos ht, hs, ← hseen.cursorOf_current, ← ht]
    exact hkeeps
  · rwa [if_neg ht]

theorem Faithful.step {event : ConsoleEvent} (h : Faithful t c j)
    (hstep : (consoleSystem t).step (c, j) event (c', j')) : Faithful t c' j' := by
  obtain ⟨henabled, hexec, hpost⟩ := hstep
  change c.exec event = some c' at hexec
  change j' = j.post t c event c' at hpost
  subst hpost
  cases event with
  | kernel event =>
      obtain ⟨k', hk', rfl⟩ := Option.map_eq_some_iff.mp hexec
      exact h.kernel ⟨henabled, eq_ok_of_toOption hk'⟩
  | scheduler =>
      obtain ⟨k', hk', rfl⟩ := Option.map_eq_some_iff.mp hexec
      obtain ⟨v, hseen, hkeeps⟩ := h
      obtain ⟨v', hseen', hswitches⟩ :=
        (doScheduler_seen hseen .ret).of_ok (eq_ok_of_toOption hk')
      exact (Faithful.unmoved hseen hkeeps hseen' hswitches.unmoved).2
  | call call =>
      cases hexec
      exact h.begin call henabled.2
  | writeCh => exact h.writeCh hexec
  | clear line1 line2 =>
      obtain ⟨s, hs, rfl⟩ := Option.map_eq_some_iff.mp hexec
      exact h.still (Screen.screenClear_cursor hs)
  | reflush =>
      cases hexec
      exact h.still (Screen.screenReflush_cursor _)

theorem faithful_of_run {events : List ConsoleEvent}
    {newScreen oldScreen : Bytes (screenHeight * screenWidth)}
    (hinit : initTask Kernel.zero = .ok k)
    (run : (consoleSystem t).Run (.blank k newScreen oldScreen, ⟨[], []⟩) events (c, j)) :
    Faithful t c j := by
  have hstart : ∃ v, Seen noTask True k v ∧ ∀ p, v.cursorOf p = (0, 0) := by
    refine (initTask_seen (I := fun v => ∀ p, v.cursorOf p = (0, 0)) ?_ ?_).of_ok hinit
    · intro p
      unfold View.cursorOf
      split <;> rfl
    · intro v pid hwf h hdead hpid p
      rw [View.spawn_cursorOf hwf hdead hpid, h]
      split <;> rfl
  obtain ⟨v, hseen, hcorner⟩ := hstart
  refine run.invariant (I := fun s => Faithful t s.1 s.2)
    (fun s event s' h hstep => h.step hstep) ⟨v, hseen, ?_⟩
  rw [hcorner t]
  exact .fresh

/--
Two runs from boot.  As long as the task's calls are the beginning of one
sequence in both, its characters find the cursor at the same places.
-/
theorem cursors_agree_of_runs {k : Kernel} {t₁ t₂ : Pid} {c₁ c₂ : Console} {j₁ j₂ : Journal}
    {events₁ events₂ : List ConsoleEvent} {calls : List ScreenCall} {n : Nat}
    {mark₁ mark₂ : Int × Int}
    {new₁ old₁ new₂ old₂ : Bytes (screenHeight * screenWidth)}
    (hinit : initTask Kernel.zero = .ok k)
    (run₁ : (consoleSystem t₁).Run (.blank k new₁ old₁, ⟨[], []⟩) events₁ (c₁, j₁))
    (run₂ : (consoleSystem t₂).Run (.blank k new₂ old₂, ⟨[], []⟩) events₂ (c₂, j₂))
    (hcalls₁ : j₁.calls <+: calls) (hcalls₂ : j₂.calls <+: calls)
    (hmark₁ : j₁.marks[n]? = some mark₁) (hmark₂ : j₂.marks[n]? = some mark₂) :
    mark₁ = mark₂ := by
  have hmarks : ∀ {t c j events new old},
      (consoleSystem t).Run (.blank k new old, ⟨[], []⟩) events (c, j) → j.calls <+: calls →
      j.marks <+: replay (0, 0) calls := by
    intro t c j events new old run hcalls
    obtain ⟨v, -, hkeeps⟩ := faithful_of_run hinit run
    have hown : j.marks <+: replay (0, 0) j.calls := ⟨_, hkeeps.marks⟩
    exact hown.trans (replay_mono hcalls _)
  have hat : ∀ {marks : List (Int × Int)} {mark : Int × Int}, marks <+: replay (0, 0) calls →
      marks[n]? = some mark → (replay (0, 0) calls)[n]? = some mark := by
    rintro marks mark ⟨more, hmore⟩ hmark
    obtain ⟨hlt, -⟩ := List.getElem?_eq_some_iff.mp hmark
    rw [← hmore, List.getElem?_append_left hlt, hmark]
  have h₁ := hat (hmarks run₁ hcalls₁) hmark₁
  have h₂ := hat (hmarks run₂ hcalls₂) hmark₂
  rw [h₁] at h₂
  exact Option.some.inj h₂

instance (c : Console) (event : ConsoleEvent) : Decidable (event.Enabled c) := by
  unfold ConsoleEvent.Enabled
  split <;> infer_instance

/-- The state that the events lead to, where they can. -/
def consoleNext (t : Pid) (s : Console × Journal) (event : ConsoleEvent) : Console × Journal :=
  let c := (s.1.exec event).getD s.1
  (c, s.2.post t s.1 event c)

def consoleCan (t : Pid) : Console × Journal → List ConsoleEvent → Bool
  | _, [] => true
  | s, event :: rest =>
      decide (event.Enabled s.1) && (s.1.exec event).isSome && consoleCan t (consoleNext t s event) rest

theorem run_consoleNext {s : Console × Journal} {events : List ConsoleEvent}
    (h : consoleCan t s events = true) :
    (consoleSystem t).Run s events (events.foldl (consoleNext t) s) := by
  induction events generalizing s with
  | nil => exact .nil s
  | cons event rest ih =>
      simp only [consoleCan, Bool.and_eq_true, decide_eq_true_eq] at h
      obtain ⟨⟨henabled, hok⟩, hrest⟩ := h
      have hstep : (consoleSystem t).step s event (consoleNext t s event) := by
        refine ⟨henabled, ?_, rfl⟩
        obtain ⟨c, hc⟩ := Option.isSome_iff_exists.mp hok
        simp only [consoleNext, hc, Option.getD_some]
      exact (Lts.Run.single hstep).append (ih hrest)

/-- The shell moves its cursor and writes two characters. -/
def shellAlone : List ConsoleEvent :=
  [.kernel (.entry .timer), .call (.moveCursor 3 4), .call (.write ⟨[65, 66], by decide⟩),
    .writeCh, .writeCh]

/-- The same, with another task writing elsewhere between the two characters. -/
def shellDisturbed : List ConsoleEvent :=
  [.kernel (.entry .timer), .call (.moveCursor 3 4), .call (.write ⟨[65, 66], by decide⟩),
    .writeCh, .scheduler, .call (.moveCursor 70 20), .call (.write ⟨[67], by decide⟩),
    .writeCh, .scheduler, .writeCh]

def shellStart : Console × Journal := (.blank booted (fun _ => 32) (fun _ => 32), ⟨[], []⟩)

theorem cursors_agree_shell :
    ∃ c₁ j₁ c₂ j₂ mark₁ mark₂,
      (consoleSystem 2).Run shellStart shellAlone (c₁, j₁) ∧
      (consoleSystem 2).Run shellStart shellDisturbed (c₂, j₂) ∧
      j₁.marks[1]? = some mark₁ ∧ j₂.marks[1]? = some mark₂ ∧ mark₁ = mark₂ := by
  have run₁ : (consoleSystem 2).Run shellStart shellAlone
      (shellAlone.foldl (consoleNext 2) shellStart) := run_consoleNext (by decide +kernel)
  have run₂ : (consoleSystem 2).Run shellStart shellDisturbed
      (shellDisturbed.foldl (consoleNext 2) shellStart) := run_consoleNext (by decide +kernel)
  have hcalls₁ : (shellAlone.foldl (consoleNext 2) shellStart).2.calls <+:
      [.moveCursor 3 4, .write ⟨[65, 66], by decide⟩] := by decide +kernel
  have hcalls₂ : (shellDisturbed.foldl (consoleNext 2) shellStart).2.calls <+:
      [.moveCursor 3 4, .write ⟨[65, 66], by decide⟩] := by decide +kernel
  have hmark₁ : (shellAlone.foldl (consoleNext 2) shellStart).2.marks[1]? = some (4, 4) := by
    decide +kernel
  have hmark₂ : (shellDisturbed.foldl (consoleNext 2) shellStart).2.marks[1]? = some (4, 4) := by
    decide +kernel
  exact ⟨_, _, _, _, _, _, run₁, run₂, hmark₁, hmark₂,
    cursors_agree_of_runs initTask_zero run₁ run₂ hcalls₁ hcalls₂ hmark₁ hmark₂⟩

end UcasOs.Sched

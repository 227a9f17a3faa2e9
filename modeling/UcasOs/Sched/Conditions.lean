import UcasOs.Sched.BarrierRounds
import UcasOs.Sched.KilledOwners

/-!
# Condition variables

`waiting_num` counts the waiters of a condition a second time.  A kill takes a
waiter away without counting, so the number is an upper bound; that is enough
for a signal to find the waiters that are left.  A task inside
`do_condition_wait` comes out of it with the lock.
-/

namespace UcasOs.Sched

open UcasOs.Foundation UcasOs.Libs

variable {k k' : Kernel} {v v' v₁ : View} {event : Event} {q : QueueId} {condition lock : Nat}
  {pid p : Pid}

/-- Entries that leave the caller and the mutexes as they are. -/
def Entry.Passing : Entry → Prop
  | .timer | .mac | .conditionSignal _ | .conditionInit _ => True
  | _ => False

namespace View

/-! ## The count -/

def Covers (v : View) (condition : Nat) : Prop :=
  ((v.queue (.condition condition)).length : Int) ≤ (v.conditions condition).waitingNum

theorem Covers.of_untouched (h : v.Covers condition)
    (huntouched : Untouched (.condition condition) v v') : v'.Covers condition := by
  unfold Covers
  rw [huntouched.queue, huntouched.condition condition rfl]
  exact h

theorem Covers.remove (h : v.Covers condition) : (v.remove (.condition condition) p).Covers
    condition := by
  have hle := List.length_erase_le (a := p) (l := v.queue (.condition condition))
  unfold Covers at h ⊢
  simp only [View.remove, leave, Function.update_self]
  omega

theorem Covers.wait (h : v.Covers condition)
    (hdoes : v.Step v' (.conditionWait condition lock)) : v'.Covers condition := by
  obtain ⟨v₁, hreleases, hwaits⟩ := hdoes
  have hset : Untouched (.condition condition)
      (v.setCondition condition ((v.conditions condition).waitingNum + 1)) v₁ :=
    Releases.untouched trivial hreleases
  have hconditions : v'.conditions condition = v₁.conditions condition := by
    obtain ⟨next, -, rfl⟩ := hwaits
    rfl
  unfold Covers at h ⊢
  rw [hwaits.queue_self (by simp), hconditions, hset.queue, hset.condition condition rfl,
    List.length_append, List.length_singleton]
  simp only [setCondition, Function.update_self]
  omega

theorem Covers.signal (h : v.Covers condition)
    (hdoes : v.Step v' (.conditionSignal condition)) : v'.Covers condition := by
  unfold Covers at h ⊢
  simp only [Step] at hdoes
  split at hdoes
  · obtain ⟨hnil, rfl⟩ | ⟨p, hp, rfl⟩ := hdoes
    · have hnil' : v.queue (.condition condition) = [] := hnil
      simp only [setCondition, Function.update_self, hnil', List.length_nil]
      omega
    · have hp' : p ∈ v.queue (.condition condition) := hp
      have hpos := List.length_pos_of_mem hp'
      rw [wake_queue_self _ (by simp)]
      simp only [wake, setCondition, Function.update_self, List.length_erase_of_mem hp']
      omega
  · rwa [hdoes]

theorem Covers.broadcast (h : v.Covers condition)
    (hdoes : v.Step v' (.conditionBroadcast condition)) : v'.Covers condition := by
  simp only [Step] at hdoes
  split at hdoes
  · rw [hdoes]
    simp [Covers, wakeAll, setCondition]
  · rwa [hdoes]

theorem Covers.moves (h : v.Covers condition) (hmoves : v.Moves event v') :
    v'.Covers condition := by
  by_cases huses : event.uses = some (.condition condition)
  · cases event with
    | resume => cases huses
    | entry e =>
        have hdoes := hmoves.does
        cases e with
        | conditionInit c =>
            obtain rfl : c = condition := by simpa [Event.uses, Entry.uses] using huses
            rw [show v' = v.setCondition c 0 from hdoes]
            simp [Covers, setCondition, show v.queue (.condition c) = [] from hmoves.enabled.2.2]
        | conditionWait c lock =>
            obtain rfl : c = condition := by simpa [Event.uses, Entry.uses] using huses
            exact h.wait hdoes
        | conditionSignal c =>
            obtain rfl : c = condition := by simpa [Event.uses, Entry.uses] using huses
            exact h.signal hdoes
        | conditionBroadcast c =>
            obtain rfl : c = condition := by simpa [Event.uses, Entry.uses] using huses
            exact h.broadcast hdoes
        | _ => simp [Event.uses, Entry.uses] at huses
  · obtain huntouched | ⟨p, -, -, huntouched⟩ :=
      Does.cases (q := .condition condition) trivial huses hmoves.does
    · exact h.of_untouched huntouched
    · exact h.remove.of_untouched huntouched

/-! ## The lock -/

/-- A mutex with an owner is locked. -/
def Guarded (v : View) : Prop :=
  ∀ lock, (v.mutexes lock).owner ≠ 0 → (v.mutexes lock).status = .locked

/-- Each mutex is as it was, or has been opened. -/
def Opens (v v' : View) : Prop :=
  ∀ lock, v'.mutexes lock = v.mutexes lock ∨ v'.mutexes lock = ⟨.unlocked, 0⟩

theorem Opens.refl (v : View) : v.Opens v := fun _ => .inl rfl

theorem Opens.trans {v₂ : View} (h : v.Opens v₁) (h' : v₁.Opens v₂) : v.Opens v₂ := by
  intro lock
  rcases h' lock with hsame | hopened
  · rw [hsame]
    exact h lock
  · exact .inr hopened

theorem Guarded.opens (h : v.Guarded) (hopens : v.Opens v') : v'.Guarded := by
  intro lock howner
  rcases hopens lock with hsame | hopened
  · rw [hsame] at howner ⊢
    exact h lock howner
  · rw [hopened] at howner
    exact absurd rfl howner

theorem opens_of_update (hmutexes : v'.mutexes = Function.update v.mutexes lock ⟨.unlocked, 0⟩) :
    v.Opens v' := by
  intro l
  rw [hmutexes]
  by_cases hl : l = lock
  · exact .inr (by rw [hl, Function.update_self])
  · exact .inl (Function.update_of_ne hl _ _)

theorem KillLocks.opens {locks : List Nat} (h : KillLocks pid locks v v') :
    v.Wakeful v' ∧ v.Opens v' := by
  induction locks generalizing v with
  | nil =>
      rw [show v' = v from h]
      exact ⟨Wakeful.refl v, Opens.refl v⟩
  | cons i rest ih =>
      unfold KillLocks at h
      split at h
      · obtain ⟨v₁, hlock, hrest⟩ := h
        obtain ⟨hwakeful, hopens⟩ := ih hrest
        unfold KillLock at hlock
        split at hlock
        · obtain ⟨v₀, hwakes, hv₁⟩ := hlock
          obtain ⟨hwakeful₁, -, -, hmutexes, -⟩ := hwakes.handsOver hv₁
          exact ⟨hwakeful₁.trans hwakeful, (opens_of_update hmutexes).trans hopens⟩
        · rw [hlock] at hwakeful hopens
          exact ⟨hwakeful, hopens⟩
      · rw [h]
        exact ⟨Wakeful.refl v, Opens.refl v⟩

/-- What a kill does to the mutexes and to the tasks that stay. -/
theorem Kills.opens (h : v.Kills pid v') :
    v.Opens v' ∧ ∀ p, p ≠ pid → v'.kont p = v.kont p ∧ (v.live p → v'.live p) := by
  obtain ⟨q, v₁, -, hlocks, hlast⟩ := h
  obtain ⟨hwakeful, hopens⟩ := hlocks.opens
  have hopens' : v.Opens v₁ := hopens
  have hlive : ∀ p, p ≠ pid → v.live p → v₁.live p := by
    intro p hp hlive
    rw [hwakeful.live]
    exact ⟨hp, hlive⟩
  split at hlast
  · rename_i hself
    obtain ⟨next, -, rfl⟩ := hlast
    refine ⟨hopens', fun p hp => ⟨?_, hlive p hp⟩⟩
    have hne : p ≠ v₁.current := by
      rw [hwakeful.current]
      exact hself ▸ hp
    change Function.update v₁.kont v₁.current .ret p = _
    rw [Function.update_of_ne hne, hwakeful.kont]
    rfl
  · subst hlast
    exact ⟨hopens', fun p hp => ⟨congrFun hwakeful.kont p, hlive p hp⟩⟩

theorem Guarded.moves (h : v.Guarded) (hmoves : v.Moves event v') : v'.Guarded := by
  obtain ⟨-, hsteady⟩ | ⟨-, pid, -, -, rfl⟩ | ⟨-, l, -, -, rfl⟩ | ⟨l, -, -, v₀, hloop, rfl⟩ |
    ⟨l, -, -, v₀, hloop, hwaits⟩ | ⟨-, -, l, -, v₁, hwakes, hsteady⟩ | ⟨-, p, -, hkilled⟩ :=
    hmoves.lockStep
  · exact h.opens fun lock => .inl (by rw [hsteady.mutexes])
  · exact h
  · exact h.opens (opens_of_update rfl)
  · have hmutexes : v₀.mutexes = v.mutexes := by obtain ⟨rfl, -⟩ | rfl := hloop <;> rfl
    intro lock howner
    by_cases hl : lock = l
    · simp [setMutex, hl]
    · simp only [setMutex, addLocks, Function.update_of_ne hl, hmutexes] at howner ⊢
      exact h lock howner
  · have hmutexes : v₀.mutexes = v.mutexes := by obtain ⟨rfl, -⟩ | rfl := hloop <;> rfl
    refine h.opens fun lock => .inl ?_
    obtain ⟨next, -, rfl⟩ := hwaits
    exact congrFun hmutexes lock
  · obtain ⟨-, -, -, hmutexes, -⟩ := hwakes.handsOver rfl
    have hopened : v'.mutexes = Function.update v.mutexes l ⟨.unlocked, 0⟩ := by
      rw [hsteady.mutexes, hmutexes]
    exact h.opens (opens_of_update hopened)
  · exact h.opens hkilled.opens.1

/-! ## Inside `do_condition_wait` -/

/-- A task that is not running goes on where it was. -/
theorem Moves.bystander (hmoves : v.Moves event v') (hp : p ≠ v.current) (hlive : v.live p)
    (hspares : ¬ event.Kills v p) : v'.kont p = v.kont p ∧ v'.live p := by
  obtain ⟨-, hsteady⟩ | ⟨-, pid, hdead, -, rfl⟩ | ⟨-, l, -, -, rfl⟩ | ⟨l, -, -, v₀, hloop, rfl⟩ |
    ⟨l, -, -, v₀, hloop, hwaits⟩ | ⟨-, -, l, -, v₁, hwakes, hsteady⟩ | ⟨-, x, hkills, hkilled⟩ :=
    hmoves.lockStep
  · exact ⟨hsteady.kont p hp, by rwa [hsteady.live]⟩
  · have hne : p ≠ pid := fun he => hdead (he ▸ hlive)
    exact ⟨Function.update_of_ne hne _ _, .inr hlive⟩
  · exact ⟨rfl, hlive⟩
  · obtain ⟨rfl, -⟩ | rfl := hloop
    · exact ⟨rfl, hlive⟩
    · exact ⟨Function.update_of_ne hp _ _, hlive⟩
  · obtain ⟨next, -, rfl⟩ := hwaits
    obtain ⟨rfl, -⟩ | rfl := hloop
    · exact ⟨Function.update_of_ne hp _ _, hlive⟩
    · refine ⟨?_, hlive⟩
      change Function.update (Function.update v.kont v.current .ret) v.current _ p = _
      rw [Function.update_of_ne hp, Function.update_of_ne hp]
  · obtain ⟨hwakeful, -⟩ := hwakes.handsOver rfl
    refine ⟨?_, by rw [hsteady.live, hwakeful.live]; exact hlive⟩
    rw [hsteady.kont p (by rw [hwakeful.current]; exact hp), hwakeful.kont]
  · have hne : p ≠ x := fun he => hspares (he ▸ hkills)
    obtain ⟨hkont, hlives⟩ := hkilled.opens.2 p hne
    exact ⟨hkont, hlives hlive⟩

theorem KillLocks.mutex_other {locks : List Nat} (h : KillLocks pid locks v v')
    (howner : (v.mutexes lock).owner ≠ pid) : v'.mutexes lock = v.mutexes lock := by
  induction locks generalizing v with
  | nil => rw [show v' = v from h]
  | cons i rest ih =>
      unfold KillLocks at h
      split at h
      · obtain ⟨v₁, hlock, hrest⟩ := h
        have hsame : v₁.mutexes lock = v.mutexes lock := by
          unfold KillLock at hlock
          split at hlock
          · rename_i hi
            obtain ⟨v₀, hwakes, hv₁⟩ := hlock
            obtain ⟨-, -, -, hmutexes, -⟩ := hwakes.handsOver hv₁
            have hne : lock ≠ i := by
              rintro rfl
              exact howner hi
            rw [hmutexes, Function.update_of_ne hne]
          · rw [hlock]
        rw [ih hrest (hsame ▸ howner), hsame]
      · rw [h]

/-- A kill opens the locks of its victim only. -/
theorem Kills.mutex_other (h : v.Kills pid v') (howner : (v.mutexes lock).owner ≠ pid) :
    v'.mutexes lock = v.mutexes lock := by
  obtain ⟨q, v₁, -, hlocks, hlast⟩ := h
  have hsame : v₁.mutexes lock = v.mutexes lock := hlocks.mutex_other howner
  split at hlast
  · obtain ⟨next, -, rfl⟩ := hlast
    exact hsame
  · rw [hlast]
    exact hsame

theorem Kills.dead (h : v.Kills pid v') : ¬ v'.live pid := by
  obtain ⟨q, v₁, -, hlocks, hlast⟩ := h
  have hdead : ¬ v₁.live pid := by
    rw [hlocks.opens.1.live]
    exact fun hlive => hlive.1 rfl
  split at hlast
  · obtain ⟨next, -, rfl⟩ := hlast
    exact hdead
  · rw [hlast]
    exact hdead

/-- A lock stays with its owner while others run. -/
theorem Moves.keeps_word (hmoves : v.Moves event v') (hp : p ≠ v.current)
    (hspares : ¬ event.Kills v p) (hinit : event ≠ .entry (.mutexInit lock))
    (hword : v.mutexes lock = ⟨.locked, p⟩) : v'.mutexes lock = ⟨.locked, p⟩ := by
  rw [← hword]
  obtain ⟨-, hsteady⟩ | ⟨-, pid, -, -, rfl⟩ | ⟨-, l, hevent, -, rfl⟩ | ⟨l, -, hopen, v₀, hloop, rfl⟩ |
    ⟨l, -, -, v₀, hloop, hwaits⟩ | ⟨-, -, l, howner, v₁, hwakes, hsteady⟩ |
    ⟨-, x, hkills, hkilled⟩ := hmoves.lockStep
  · rw [hsteady.mutexes]
  · rfl
  · have hne : lock ≠ l := by
      rintro rfl
      exact hinit hevent
    exact Function.update_of_ne hne _ _
  · have hmutexes : v₀.mutexes = v.mutexes := by obtain ⟨rfl, -⟩ | rfl := hloop <;> rfl
    have hne : lock ≠ l := by
      rintro rfl
      rw [hword] at hopen
      exact hopen rfl
    simp only [setMutex, addLocks, Function.update_of_ne hne, hmutexes]
  · have hmutexes : v₀.mutexes = v.mutexes := by obtain ⟨rfl, -⟩ | rfl := hloop <;> rfl
    obtain ⟨next, -, rfl⟩ := hwaits
    exact congrFun hmutexes lock
  · have hne : lock ≠ l := by
      rintro rfl
      rw [hword] at howner
      exact hp howner
    obtain ⟨-, -, -, hmutexes, -⟩ := hwakes.handsOver rfl
    rw [hsteady.mutexes, hmutexes, Function.update_of_ne hne]
  · have hne : p ≠ x := fun he => hspares (he ▸ hkills)
    exact hkilled.mutex_other (by rw [hword]; exact hne)

/-- The task is inside `do_condition_wait(_, lock)`, or has come out of it with the lock. -/
structure Inside (lock : Nat) (p : Pid) (v : View) : Prop where
  guarded : v.Guarded
  live : v.live p
  kont : v.kont p = .reacquire lock ∨ v.kont p = .acquire lock ∨
    (v.kont p = .ret ∧ v.mutexes lock = ⟨.locked, p⟩)

theorem Guarded.mutex_eq (h : v.Guarded) (hp : p ≠ 0) (howner : (v.mutexes lock).owner = p) :
    v.mutexes lock = ⟨.locked, p⟩ := by
  have hlocked := h lock (howner ▸ hp)
  cases hm : v.mutexes lock with
  | mk status owner =>
      rw [hm] at hlocked howner
      rw [← howner, ← hlocked]

theorem Takes.comesOut {v₀ : View} (h : v₀.Takes lock v') (hret : v₀.kont v₀.current = .ret) :
    v'.kont v₀.current = .acquire lock ∨
      (v'.kont v₀.current = .ret ∧ v'.mutexes lock = ⟨.locked, v₀.current⟩) := by
  unfold Takes at h
  split at h
  · obtain ⟨next, -, rfl⟩ := h
    exact .inl (Function.update_self _ _ _)
  · rw [h]
    exact .inr ⟨hret, Function.update_self _ _ _⟩

theorem Takes.live_eq {v₀ : View} (h : v₀.Takes lock v') : v'.live = v₀.live := by
  unfold Takes at h
  split at h
  · obtain ⟨next, -, rfl⟩ := h
    rfl
  · rw [h]
    rfl

theorem Inside.moves (h : v.Inside lock p) (hmoves : v.Moves event v') (hkont : v.kont p ≠ .ret)
    (hspares : ¬ event.Kills v p) : v'.Inside lock p := by
  have hguarded := h.guarded.moves hmoves
  have hinside : v.kont p = .reacquire lock ∨ v.kont p = .acquire lock :=
    h.kont.imp id fun hk => hk.resolve_right fun hk => hkont hk.1
  by_cases hp : p = v.current
  · subst hp
    have hparked : (v.park .ret).kont (v.park .ret).current = .ret := Function.update_self _ _ _
    cases event with
    | entry e => exact absurd hmoves.enabled.1 hkont
    | resume =>
        have hdoes : v.Resumes v' := hmoves.does
        unfold Resumes at hdoes
        rcases hinside with hk | hk
        · rw [hk] at hdoes
          simp only [Acquires] at hdoes
          split at hdoes
          · rename_i howner
            subst hdoes
            exact ⟨hguarded, h.live, .inr (.inr ⟨hparked,
              h.guarded.mutex_eq (hmoves.before.ne_zero h.live) howner⟩)⟩
          · exact ⟨hguarded, hdoes.live_eq ▸ h.live, .inr (hdoes.comesOut hparked)⟩
        · rw [hk] at hdoes
          have htakes : (v.park .ret).Takes lock v' := hdoes
          exact ⟨hguarded, htakes.live_eq ▸ h.live, .inr (htakes.comesOut hparked)⟩
  · obtain ⟨hsame, hlive⟩ := hmoves.bystander hp h.live hspares
    exact ⟨hguarded, hlive, by rw [hsame]; exact hinside.imp id .inl⟩

/-- A task inside a critical section, or on its way into it, while another one runs. -/
theorem Inside.bystander (h : v.Inside lock p) (hmoves : v.Moves event v') (hp : p ≠ v.current)
    (hspares : ¬ event.Kills v p) (hinit : event ≠ .entry (.mutexInit lock)) :
    v'.Inside lock p ∧ v'.kont p = v.kont p := by
  obtain ⟨hsame, hlive⟩ := hmoves.bystander hp h.live hspares
  refine ⟨⟨h.guarded.moves hmoves, hlive, ?_⟩, hsame⟩
  rw [hsame]
  refine h.kont.imp id fun hk => hk.imp id fun hk => ⟨hk.1, ?_⟩
  exact hmoves.keeps_word hp hspares hinit hk.2

theorem Step.passing {e : Entry} (h : v.Step v' e) (he : e.Passing)
    (hret : v.kont v.current = .ret) :
    v'.kont v.current = .ret ∧ v'.mutexes = v.mutexes ∧ v'.live = v.live := by
  have hwakes : ∀ {q v v'}, View.WakesOne q v v' →
      v'.kont = v.kont ∧ v'.mutexes = v.mutexes ∧ v'.live = v.live := by
    rintro q v v' (⟨-, rfl⟩ | ⟨p, -, rfl⟩) <;> exact ⟨rfl, rfl, rfl⟩
  cases e with
  | timer =>
      obtain ⟨next, -, rfl⟩ := h
      obtain ⟨hsteady, hcurrent⟩ := wakeSleeper_steady { v with time := v.time + 1 }
      refine ⟨?_, hsteady.mutexes, hsteady.live⟩
      rw [switch_kont, hcurrent]
      exact Function.update_self _ _ _
  | mac =>
      obtain ⟨hkont, hrest⟩ := hwakes h
      exact ⟨by rw [hkont]; exact hret, hrest⟩
  | conditionSignal condition =>
      simp only [Step] at h
      split at h
      · obtain ⟨hkont, hrest⟩ := hwakes h
        exact ⟨by rw [hkont]; exact hret, hrest⟩
      · rw [h]
        exact ⟨hret, rfl, rfl⟩
  | conditionInit condition =>
      rw [show v' = v.setCondition condition 0 from h]
      exact ⟨hret, rfl, rfl⟩
  | _ => exact he.elim

/-- The owner of the lock goes on, or an interrupt comes. -/
theorem Inside.passing {e : Entry} (h : v.Inside lock v.current)
    (hmoves : v.Moves (.entry e) v') (he : e.Passing) :
    v'.Inside lock v.current ∧ v'.kont v.current = .ret := by
  have hret : v.kont v.current = .ret := hmoves.enabled.1
  obtain ⟨hkont, hmutexes, hlive⟩ := Step.passing hmoves.does he hret
  have hword : v.mutexes lock = ⟨.locked, v.current⟩ := by
    rcases h.kont with hk | hk | hk
    · rw [hret] at hk
      cases hk
    · rw [hret] at hk
      cases hk
    · exact hk.2
  refine ⟨⟨h.guarded.moves hmoves, hlive ▸ h.live, .inr (.inr ⟨hkont, ?_⟩)⟩, hkont⟩
  rw [hmutexes, hword]

/-- The owner gives the lock up and is in the queue before the next task runs. -/
theorem Step.conditionWait_owner (h : v.Step v' (.conditionWait condition lock))
    (howner : (v.mutexes lock).owner = v.current) :
    v.current ∈ v'.queue (.condition condition) ∧ v'.mutexes lock = ⟨.unlocked, 0⟩ := by
  obtain ⟨v₁, hreleases, hwaits⟩ := h
  have hcurrent : v₁.current = v.current := hreleases.current
  unfold Releases at hreleases
  split at hreleases
  · rename_i hother
    exact absurd howner hother
  obtain ⟨v₂, -, rfl⟩ := hreleases
  refine ⟨?_, ?_⟩
  · rw [hwaits.queue_self (by simp), hcurrent]
    simp
  · obtain ⟨next, -, rfl⟩ := hwaits
    exact Function.update_self _ _ _

theorem Step.conditionWait_kont (h : v.Step v' (.conditionWait condition lock)) :
    v'.kont v.current = .reacquire lock ∧ v'.live = v.live := by
  obtain ⟨v₁, hreleases, hwaits⟩ := h
  have hcurrent : v₁.current = v.current := hreleases.current
  have hlive : v₁.live = v.live := by
    obtain rfl | ⟨-, v₂, hwakes, hsteady⟩ := hreleases.cases
    · rfl
    · obtain ⟨hwakeful, -⟩ := hwakes.handsOver rfl
      rw [hsteady.live, hwakeful.live]
      rfl
  obtain ⟨next, -, rfl⟩ := hwaits
  refine ⟨?_, hlive⟩
  rw [← hcurrent]
  exact Function.update_self _ _ _

/-- The caller of `do_mutex_lock_acquire` has the lock or waits for it. -/
theorem Guarded.acquire (h : v.Guarded) (hmoves : v.Moves (.entry (.mutexAcquire lock)) v') :
    v'.Inside lock v.current := by
  have hret : v.kont v.current = .ret := hmoves.enabled.1
  have hboot : v.current ≠ 0 := hmoves.enabled.2.1
  have hlive := hmoves.before.live (hmoves.before.current hboot)
  have hdoes : v.Acquires lock v' := hmoves.does
  have hguarded := h.moves hmoves
  unfold Acquires at hdoes
  split at hdoes
  · rename_i howner
    rw [hdoes]
    exact ⟨h, hlive, .inr (.inr ⟨hret, h.mutex_eq hboot howner⟩)⟩
  · exact ⟨hguarded, hdoes.live_eq ▸ hlive, .inr (hdoes.comesOut hret)⟩

theorem Inside.conditionWait (h : v.Inside lock v.current)
    (hmoves : v.Moves (.entry (.conditionWait condition lock)) v') :
    v'.Inside lock v.current ∧ v'.kont v.current = .reacquire lock := by
  obtain ⟨hkont, hlive⟩ := Step.conditionWait_kont hmoves.does
  exact ⟨⟨h.guarded.moves hmoves, hlive ▸ h.live, .inl hkont⟩, hkont⟩

end View

/-! ## Runs -/

/-- The steps during a call of a task: it lives, and has not returned yet. -/
def callSystem (p : Pid) : Lts Kernel Event :=
  kernelSystem.restrict fun k event => k.kont p ≠ .ret ∧ ¬ event.Victim k p

theorem inside_of_call {later : List Event}
    (h : ∃ v, Seen noTask True k v ∧ v.Inside lock p) (run : (callSystem p).Run k later k') :
    ∃ v, Seen noTask True k' v ∧ v.Inside lock p := by
  refine run.invariant (I := fun k => ∃ v, Seen noTask True k v ∧ v.Inside lock p) ?_ h
  rintro k₁ event k₂ ⟨v, hseen, h⟩ ⟨⟨hkont, hspares⟩, hstep⟩
  obtain ⟨v', hseen', hmoves⟩ := hseen.step hstep
  refine ⟨v', hseen', h.moves hmoves ?_ fun hkills => hspares (hseen.kills_iff.mp hkills)⟩
  rwa [hseen.kont_eq]

theorem guarded_of_run {events : List Event} (hinit : initTask Kernel.zero = .ok k)
    (run : kernelSystem.Run k events k') (condition : Nat) :
    ∃ v, Seen noTask True k' v ∧ v.Guarded ∧ v.Covers condition := by
  have run' : (kernelSystem.restrict fun _ _ => True).Run k events k' :=
    run.restricted fun _ _ _ => trivial
  refine seen_of_run (I := fun v => v.Guarded ∧ v.Covers condition)
    ⟨fun lock howner => absurd rfl howner, le_refl _⟩ ?_ ?_ hinit run'
  · rintro v pid - ⟨hguarded, hcovers⟩ - -
    exact ⟨hguarded, hcovers.of_untouched (View.spawn_untouched (q := .condition condition) trivial v pid)⟩
  · rintro k v event v' - - hmoves ⟨hguarded, hcovers⟩
    exact ⟨hguarded.moves hmoves, hcovers.moves hmoves⟩

theorem conditionSignals_of_run {k k₁ : Kernel} {events : List Event}
    (hinit : initTask Kernel.zero = .ok k) (run : kernelSystem.Run k events k₁)
    (condition : Nat) :
    ((k₁.items (.condition condition)).length : Int) ≤ (k₁.conditions condition).waitingNum ∧
    (k₁.items (.condition condition) ≠ [] →
      (∃ k₂, k₁.enter (.conditionSignal condition) = .ok k₂ ∧
        ReadiesOne (.condition condition) k₁ k₂) ∧
      ∃ k₂, k₁.enter (.conditionBroadcast condition) = .ok k₂ ∧
        ReleasesGroup (.condition condition) k₁ k₂) ∧
    ∀ lock k₂, kernelSystem.step k₁ (.entry (.conditionWait condition lock)) k₂ →
      ((k₁.mutexes lock).owner = k₁.currentRunning →
        k₁.currentRunning ∈ k₂.items (.condition condition) ∧
          k₂.mutexes lock = ⟨.unlocked, 0⟩) ∧
      ∀ later k₃, (callSystem k₁.currentRunning).Run k₂ later k₃ →
        k₃.kont k₁.currentRunning = .ret →
        k₃.mutexes lock = ⟨.locked, k₁.currentRunning⟩ := by
  obtain ⟨v, hseen, hguarded, hcovers⟩ := guarded_of_run hinit run condition
  refine ⟨?_, ?_, ?_⟩
  · rw [hseen.items, ← hseen.conditions_eq]
    exact hcovers
  · intro hwaiters
    rw [hseen.items] at hwaiters
    have hpos := List.length_pos_iff.mpr hwaiters
    have hcount : (v.conditions condition).waitingNum > 0 := by
      unfold View.Covers at hcovers
      omega
    constructor
    · obtain ⟨k₂, hsignal, v₂, hseen₂, hstep⟩ := (doConditionSignal_seen hseen condition).returns
      refine ⟨k₂, hsignal, ?_⟩
      simp only [View.Step, if_pos hcount] at hstep
      obtain ⟨hnone, -⟩ | ⟨p, hp, rfl⟩ := hstep
      · exact absurd hnone hwaiters
      · exact readiesOne_wake hseen hseen₂ rfl (by simp) hp
    · obtain ⟨k₂, hbroadcast, v₂, hseen₂, hstep⟩ :=
        (doConditionBroadcast_seen hseen condition).returns
      refine ⟨k₂, hbroadcast, ?_⟩
      simp only [View.Step, if_pos hcount] at hstep
      subst hstep
      exact releasesGroup_of_wakeAll hseen hseen₂ rfl rfl (by simp)
  · intro lock k₂ hstep
    obtain ⟨v₂, hseen₂, hmoves⟩ := hseen.step hstep
    have hcurrent : v.current = k₁.currentRunning := hseen.current_eq
    have hdoes : v.Step v₂ (.conditionWait condition lock) := hmoves.does
    constructor
    · intro howner
      rw [← hseen.mutexes_eq, ← hcurrent] at howner
      rw [hseen₂.items, ← hseen₂.mutexes_eq, ← hcurrent]
      exact hdoes.conditionWait_owner howner
    · intro later k₃ call hret
      obtain ⟨hkont, hlive⟩ := hdoes.conditionWait_kont
      have hcaller : v.live v.current :=
        hmoves.before.live (hmoves.before.current hmoves.enabled.2.1)
      have hcall : v₂.Inside lock k₁.currentRunning :=
        ⟨hguarded.moves hmoves, by rwa [hlive, ← hcurrent],
          .inl (by rw [← hcurrent]; exact hkont)⟩
      obtain ⟨v₃, hseen₃, hinside⟩ := inside_of_call ⟨v₂, hseen₂, hcall⟩ call
      rw [← hseen₃.kont_eq] at hret
      rw [← hseen₃.mutexes_eq]
      rcases hinside.kont with hk | hk | hk
      · rw [hret] at hk
        cases hk
      · rw [hret] at hk
        cases hk
      · exact hk.2

/-- Task 3 waits for the condition with the lock, is signalled and returns with the lock. -/
theorem conditionSignals_signalled :
    ∃ k₁ k₂ k₃, kernelSystem.step k₁ (.entry (.conditionWait 0 0)) k₂ ∧
      k₂.items (.condition 0) = [3] ∧ k₂.mutexes 0 = ⟨.unlocked, 0⟩ ∧
      (callSystem 3).Run k₂ [.entry (.conditionSignal 0), .entry .timer, .resume] k₃ ∧
      k₃.mutexes 0 = ⟨.locked, 3⟩ := by
  let k₁ := spawned.after (.mutexAcquire 0)
  let k₂ := k₁.after (.conditionWait 0 0)
  have run₁ : kernelSystem.Run booted _ k₁ :=
    .snoc run_spawned (step_after (by decide +kernel) (by decide +kernel))
  have hwait : kernelSystem.step k₁ (.entry (.conditionWait 0 0)) k₂ :=
    step_after (by decide +kernel) (by decide +kernel)
  have hcaller : k₁.currentRunning = 3 := by decide +kernel
  let k₃ := (k₂.after (.conditionSignal 0)).after .timer
  have hsignal : (callSystem 3).step k₂ (.entry (.conditionSignal 0))
      (k₂.after (.conditionSignal 0)) :=
    ⟨⟨by decide +kernel, id⟩, step_after (by decide +kernel) (by decide +kernel)⟩
  have htimer : (callSystem 3).step (k₂.after (.conditionSignal 0)) (.entry .timer) k₃ :=
    ⟨⟨by decide +kernel, id⟩, step_after (by decide +kernel) (by decide +kernel)⟩
  have hresume : (callSystem 3).step k₃ .resume (k₃.next .resume) :=
    ⟨⟨by decide +kernel, id⟩, by decide +kernel, eq_ok_getD (by decide +kernel) _⟩
  have call : (callSystem 3).Run k₂ [.entry (.conditionSignal 0), .entry .timer, .resume]
      (k₃.next .resume) :=
    .snoc (.snoc (.single hsignal) htimer) hresume
  have h := (conditionSignals_of_run initTask_zero run₁ 0).2.2 0 k₂ hwait
  rw [hcaller] at h
  exact ⟨k₁, k₂, _, hwait, by decide +kernel, (h.1 (by decide +kernel)).2, call,
    h.2 _ _ call (by decide +kernel)⟩

end UcasOs.Sched

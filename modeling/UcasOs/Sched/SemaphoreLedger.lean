import UcasOs.Sched.Moves

/-!
# The ledger of a semaphore

The value of a semaphore says how many tasks are in its queue, as long as
nobody who waits there is killed.  Along such runs a ledger of the calls
determines the value, the waiters and the downs that are over.
-/

namespace UcasOs.Sched

open UcasOs.Foundation UcasOs.Libs

/-- The event kills no task in `q`.  (A task that exits is running, and not in `q`.) -/
def Event.Spares (k : Kernel) (q : QueueId) (event : Event) : Prop :=
  ∀ p ∈ k.items q, event ≠ .entry (.kill p)

variable {k k' : Kernel} {v v' : View} {event : Event} {q : QueueId} {s : Nat}

theorem Event.Spares.kills (hspares : event.Spares k q) (hseen : Seen noTask True k v)
    (hq : q.Counted) : ∀ p ∈ v.queue q, ¬ event.Kills v p := by
  intro p hp hkills
  cases event with
  | resume => exact hkills
  | entry e =>
      cases e with
      | kill pid =>
          obtain ⟨-, rfl, -⟩ := hkills
          exact hspares p (by rwa [hseen.items]) rfl
      | exit =>
          obtain ⟨-, hcur, hlive⟩ := hkills
          have hcur' : v.current = p := by exact_mod_cast hcur
          have hready := hseen.wf.current (hcur' ▸ hseen.wf.ne_zero hlive)
          rw [hcur'] at hready
          rw [hseen.wf.apart hp hready] at hq
          exact hq
      | _ => exact hkills

theorem View.Waits.queue_self {status : TaskStatus} {kont : Kont} (hq : q ≠ .ready)
    (h : v.Waits q status kont v') : v'.queue q = v.queue q ++ [v.current] := by
  obtain ⟨next, -, rfl⟩ := h
  simp [View.switch, View.block, join, leave, hq]

theorem View.wake_queue_self (v : View) (hq : q ≠ .ready) (p : Pid) :
    (v.wake q p).queue q = (v.queue q).erase p := by
  simp [View.wake, join, leave, hq]

/-! ## Semaphores -/

/-- There are as many waiters as the value is below zero. -/
def View.SemaphoreAgrees (v : View) (s : Nat) : Prop :=
  ((v.queue (.semaphore s)).length : Int) = max 0 (-(v.semaphores s).value)

/-- An up finds a waiter exactly when the value was negative. -/
theorem semaphoreUp_cases (hagrees : v.SemaphoreAgrees s) (h : v.Step v' (.semaphoreUp s)) :
    (v.queue (.semaphore s) = [] ∧
      v' = v.setSemaphore s ((v.semaphores s).value + 1)) ∨
    ∃ p ∈ v.queue (.semaphore s),
      v' = (v.setSemaphore s ((v.semaphores s).value + 1)).wake (.semaphore s) p := by
  unfold View.SemaphoreAgrees at hagrees
  simp only [View.Step] at h
  split at h
  · obtain ⟨hnil, -⟩ | ⟨p, hp, rfl⟩ := h
    · have hnil' : v.queue (.semaphore s) = [] := hnil
      rw [hnil', List.length_nil] at hagrees
      omega
    · exact .inr ⟨p, hp, rfl⟩
  · have hnil : v.queue (.semaphore s) = [] := List.length_eq_zero_iff.mp (by omega)
    exact .inl ⟨hnil, h⟩

theorem semaphoreDown_cases (h : v.Step v' (.semaphoreDown s)) :
    (0 < (v.semaphores s).value ∧ v' = v.setSemaphore s ((v.semaphores s).value - 1)) ∨
    ((v.semaphores s).value ≤ 0 ∧
      (v.setSemaphore s ((v.semaphores s).value - 1)).Waits (.semaphore s) .blocked .ret v') := by
  simp only [View.Step] at h
  split at h
  · exact .inr ⟨by omega, h⟩
  · exact .inl ⟨by omega, h⟩

theorem View.Waits.semaphores {status : TaskStatus} {kont : Kont}
    (h : v.Waits q status kont v') : v'.semaphores = v.semaphores := by
  obtain ⟨next, -, rfl⟩ := h
  rfl

theorem View.SemaphoreAgrees.up (hagrees : v.SemaphoreAgrees s)
    (h : v.Step v' (.semaphoreUp s)) : v'.SemaphoreAgrees s := by
  obtain ⟨hnil, rfl⟩ | ⟨p, hp, rfl⟩ := semaphoreUp_cases hagrees h
  · unfold View.SemaphoreAgrees at hagrees ⊢
    rw [hnil, List.length_nil] at hagrees
    simp only [View.setSemaphore, Function.update_self, hnil, List.length_nil]
    omega
  · unfold View.SemaphoreAgrees at hagrees ⊢
    rw [View.wake_queue_self _ (by simp)]
    simp only [View.wake, View.setSemaphore, Function.update_self, List.length_erase_of_mem hp]
    have hpos := List.length_pos_of_mem hp
    omega

theorem View.SemaphoreAgrees.down (hagrees : v.SemaphoreAgrees s)
    (h : v.Step v' (.semaphoreDown s)) : v'.SemaphoreAgrees s := by
  obtain ⟨hpos, rfl⟩ | ⟨hvalue, hwaits⟩ := semaphoreDown_cases h
  · unfold View.SemaphoreAgrees at hagrees ⊢
    simp only [View.setSemaphore, Function.update_self]
    omega
  · unfold View.SemaphoreAgrees at hagrees ⊢
    rw [hwaits.queue_self (by simp), hwaits.semaphores, List.length_append,
      List.length_singleton]
    simp only [View.setSemaphore, Function.update_self]
    omega

theorem View.SemaphoreAgrees.untouched (hagrees : v.SemaphoreAgrees s)
    (h : View.Untouched (.semaphore s) v v') : v'.SemaphoreAgrees s := by
  unfold View.SemaphoreAgrees
  rw [h.queue, h.semaphore s rfl]
  exact hagrees

/-- The waiters of a semaphore stay counted while none of them is killed. -/
theorem View.SemaphoreAgrees.moves (hagrees : v.SemaphoreAgrees s) (h : v.Moves event v')
    (hspares : ∀ p ∈ v.queue (.semaphore s), ¬ event.Kills v p) : v'.SemaphoreAgrees s := by
  by_cases huses : event.uses = some (.semaphore s)
  · cases event with
    | resume => cases huses
    | entry e =>
        cases e with
        | semaphoreInit s' value =>
            obtain rfl : s' = s := by simpa [Event.uses, Entry.uses] using huses
            obtain rfl := h.does
            have hnil : v.queue (.semaphore s') = [] := h.enabled.2.2
            unfold View.SemaphoreAgrees
            simp only [View.setSemaphore, Function.update_self, hnil, List.length_nil]
            split <;> omega
        | semaphoreUp s' =>
            obtain rfl : s' = s := by simpa [Event.uses, Entry.uses] using huses
            exact hagrees.up h.does
        | semaphoreDown s' =>
            obtain rfl : s' = s := by simpa [Event.uses, Entry.uses] using huses
            exact hagrees.down h.does
        | _ => simp [Event.uses, Entry.uses] at huses
  · exact hagrees.untouched (View.Does.untouched trivial huses hspares h.does)

/-! ## The ledger of a semaphore -/

structure Ledger where
  ups : Nat
  downs : Nat
  completed : Nat

def Event.ups (s : Nat) : Event → Nat
  | .entry (.semaphoreUp s') => if s' = s then 1 else 0
  | _ => 0

def Event.downs (s : Nat) : Event → Nat
  | .entry (.semaphoreDown s') => if s' = s then 1 else 0
  | _ => 0

/-- The downs that are over: one that returned at once, and those whose task left the queue. -/
def completions (caller : Pid) (downs : Nat) (before after : List Pid) : Nat :=
  (if caller ∈ after then 0 else downs) + (before.filter fun p => p ∉ after).length

def Ledger.post (g : Ledger) (s : Nat) (k : Kernel) (event : Event) (k' : Kernel) : Ledger where
  ups := g.ups + event.ups s
  downs := g.downs + event.downs s
  completed := g.completed +
    completions k.currentRunning (event.downs s) (k.items (.semaphore s))
      (k'.items (.semaphore s))

/-- The kernel with a ledger of one semaphore since its initialisation. -/
def semaphoreSystem (s : Nat) : Lts (Kernel × Ledger) Event where
  step c event c' :=
    kernelSystem.step c.1 event c'.1 ∧ (∀ value, event ≠ .entry (.semaphoreInit s value)) ∧
      event.Spares c.1 (.semaphore s) ∧ c'.2 = c.2.post s c.1 event c'.1

structure Balanced (s : Nat) (initial : Int) (v : View) (g : Ledger) : Prop where
  agrees : v.SemaphoreAgrees s
  value : (v.semaphores s).value = initial + g.ups - g.downs
  completed : g.completed + (v.queue (.semaphore s)).length = g.downs

theorem completions_self (caller : Pid) (downs : Nat) {l : List Pid} (hcaller : caller ∉ l) :
    completions caller downs l l = downs := by
  have hnone : l.filter (fun p => p ∉ l) = [] := by simp
  rw [completions, if_neg hcaller, hnone]
  rfl

theorem completions_push (caller : Pid) (downs : Nat) (l : List Pid) :
    completions caller downs l (l ++ [caller]) = 0 := by
  have hnone : l.filter (fun p => p ∉ l ++ [caller]) = [] := by
    simp only [List.filter_eq_nil_iff, List.mem_append, decide_eq_true_eq, not_not]
    exact fun p hp => .inl hp
  rw [completions, if_pos (by simp), hnone]
  rfl

theorem completions_erase (caller : Pid) {l : List Pid} (hl : l.Nodup) {p : Pid} (hp : p ∈ l) :
    completions caller 0 l (l.erase p) = 1 := by
  have hone : l.filter (fun x => x ∉ l.erase p) = l.filter (fun x => x == p) := by
    refine List.filter_congr fun x hx => ?_
    rw [Bool.eq_iff_iff, decide_eq_true_eq, beq_iff_eq, hl.mem_erase_iff]
    tauto
  rw [completions, hone, ← List.count_eq_length_filter, List.count_eq_one_of_mem hl hp]
  split <;> rfl

theorem Balanced.step {initial : Int} {g g' : Ledger} (hseen : Seen noTask True k v)
    (h : Balanced s initial v g) (hseen' : Seen noTask True k' v') (hmoves : v.Moves event v')
    (hinit : ∀ value, event ≠ .entry (.semaphoreInit s value))
    (hspares : event.Spares k (.semaphore s)) (hg : g' = g.post s k event k') :
    Balanced s initial v' g' := by
  have hagrees := h.agrees.moves hmoves (hspares.kills hseen trivial)
  have hvalue := h.value
  have hcompleted := h.completed
  rw [Ledger.post, hseen.items, hseen'.items, ← hseen.current_eq] at hg
  subst hg
  -- The caller is not in the queue when it enters the kernel.
  have hcaller : v.current ∉ v.queue (.semaphore s) := by
    intro hmem
    have hready := hmoves.before.current (hmoves.before.ne_zero (hmoves.before.live hmem))
    exact nomatch hmoves.before.apart hmem hready
  by_cases huses : event.uses = some (.semaphore s)
  · cases event with
    | resume => cases huses
    | entry e =>
        cases e with
        | semaphoreInit s' value =>
            obtain rfl : s' = s := by simpa [Event.uses, Entry.uses] using huses
            exact absurd rfl (hinit value)
        | semaphoreUp s' =>
            obtain rfl : s' = s := by simpa [Event.uses, Entry.uses] using huses
            refine ⟨hagrees, ?_, ?_⟩ <;>
              obtain ⟨hnil, rfl⟩ | ⟨p, hp, rfl⟩ := semaphoreUp_cases h.agrees hmoves.does
            · simp [View.setSemaphore, hvalue, Event.ups, Event.downs]
              omega
            · simp [View.wake, View.setSemaphore, hvalue, Event.ups, Event.downs]
              omega
            · have hsame : (v.setSemaphore s' ((v.semaphores s').value + 1)).queue = v.queue := rfl
              simp only [hsame, Event.downs, completions_self _ _ hcaller]
              omega
            · have hpos := List.length_pos_of_mem hp
              have hsame : (v.setSemaphore s' ((v.semaphores s').value + 1)).queue = v.queue := rfl
              simp only [View.wake_queue_self _ (show QueueId.semaphore s' ≠ .ready by simp), hsame,
                Event.downs, completions_erase _ (hmoves.before.nodup _) hp,
                List.length_erase_of_mem hp]
              omega
        | semaphoreDown s' =>
            obtain rfl : s' = s := by simpa [Event.uses, Entry.uses] using huses
            refine ⟨hagrees, ?_, ?_⟩ <;>
              obtain ⟨-, rfl⟩ | ⟨-, hwaits⟩ := semaphoreDown_cases hmoves.does
            · simp [View.setSemaphore, hvalue, Event.ups, Event.downs]
              omega
            · rw [hwaits.semaphores]
              simp [View.setSemaphore, hvalue, Event.ups, Event.downs]
              omega
            · have hsame : (v.setSemaphore s' ((v.semaphores s').value - 1)).queue = v.queue := rfl
              simp only [hsame, Event.downs, completions_self _ _ hcaller, if_true]
              omega
            · have hqueue := hwaits.queue_self (by simp)
              change v'.queue (.semaphore s') = v.queue (.semaphore s') ++ [v.current] at hqueue
              simp only [hqueue, Event.downs, completions_push, if_true, List.length_append,
                List.length_singleton]
              omega
        | _ => simp [Event.uses, Entry.uses] at huses
  · have huntouched := View.Does.untouched (q := .semaphore s) trivial huses
      (hspares.kills hseen trivial) hmoves.does
    have hups : event.ups s = 0 := by
      cases event with
      | resume => rfl
      | entry e =>
          cases e with
          | semaphoreUp s' =>
              have hne : s' ≠ s := fun he => huses (he ▸ rfl)
              simp [Event.ups, hne]
          | _ => rfl
    have hdowns : event.downs s = 0 := by
      cases event with
      | resume => rfl
      | entry e =>
          cases e with
          | semaphoreDown s' =>
              have hne : s' ≠ s := fun he => huses (he ▸ rfl)
              simp [Event.downs, hne]
          | _ => rfl
    refine ⟨hagrees, ?_, ?_⟩
    · rw [huntouched.semaphore s rfl, hups, hdowns, hvalue]
      simp
    · rw [huntouched.queue, hdowns, completions_self _ _ hcaller]
      simpa using hcompleted

/-- One task of `q` was made ready if there was any, and no other task moved. -/
def ReadiesOne (q : QueueId) (k k' : Kernel) : Prop :=
  (k.items q = [] ∧ ∀ q', k'.items q' = k.items q') ∨
    ∃ p ∈ k.items q, (k'.pcb p).status = .ready ∧ k'.items q = (k.items q).erase p ∧
      k'.items .ready = k.items .ready ++ [p] ∧
      ∀ q', q' ≠ q → q' ≠ .ready → k'.items q' = k.items q'

theorem readiesOne_nil (hseen : Seen noTask True k v) (hseen' : Seen noTask True k' v')
    (hnil : v.queue q = []) (hqueue : v'.queue = v.queue) : ReadiesOne q k k' := by
  refine .inl ⟨by rw [hseen.items, hnil], fun q' => ?_⟩
  rw [hseen'.items, hqueue, hseen.items]

theorem Seen.status_eq {S : Pid → Prop} {boot : Prop} (h : Seen S boot k v) (p : Pid) :
    (k.pcb p).status = v.status p :=
  congrFun (congrArg View.status h.view) p

theorem readiesOne_wake {v₁ : View} {p : Pid} (hseen : Seen noTask True k v)
    (hseen' : Seen noTask True k' (v₁.wake q p)) (hqueue : v₁.queue = v.queue) (hq : q ≠ .ready)
    (hp : p ∈ v.queue q) : ReadiesOne q k k' := by
  refine .inr ⟨p, by rwa [hseen.items], ?_, ?_, ?_, ?_⟩
  · rw [hseen'.status_eq]
    simp [View.wake]
  · rw [hseen'.items, hseen.items, View.wake_queue_self _ hq, hqueue]
  · rw [hseen'.items, hseen.items]
    simp [View.wake, join, leave, hqueue, hq.symm]
  · intro q' hne hready
    rw [hseen'.items, hseen.items]
    simp [View.wake, join, leave, hqueue, hne, hready]

theorem doSemaphoreInit_seen {value : Int} (hseen : Seen noTask True k v)
    (henabled : (Event.entry (.semaphoreInit s value)).Enabled k) :
    Seen noTask True (k.doSemaphoreInit s value) (v.setSemaphore s (max 0 value)) ∧
      v.queue (.semaphore s) = [] := by
  have hnil := (hseen.queueIsEmpty_iff _).mp henabled.2.2
  have hvalue : (if value < 0 then 0 else value) = max 0 value := by split <;> omega
  rw [Kernel.doSemaphoreInit, hvalue]
  exact ⟨(hseen.setSemaphore s _).queueInit henabled.2.2, hnil⟩

theorem semaphoreConservation_of_run {k k₁ k₂ : Kernel} {events more : List Event} {g : Ledger}
    {value : Int} (hinit : initTask Kernel.zero = .ok k) (run₁ : kernelSystem.Run k events k₁)
    (hsemaphore : (Event.entry (.semaphoreInit s value)).Enabled k₁)
    (run₂ : (semaphoreSystem s).Run (k₁.doSemaphoreInit s value, ⟨0, 0, 0⟩) more (k₂, g)) :
    (k₂.semaphores s).value = max 0 value + g.ups - g.downs ∧
    ((k₂.items (.semaphore s)).length : Int) = max 0 (-(k₂.semaphores s).value) ∧
    (g.completed : Int) ≤ max 0 value + g.ups ∧
    (k₂.items (.semaphore s) ≠ [] → (g.completed : Int) = max 0 value + g.ups) ∧
    ∃ k₃, k₂.enter (.semaphoreUp s) = .ok k₃ ∧ ReadiesOne (.semaphore s) k₂ k₃ := by
  obtain ⟨v₁, hseen₁⟩ := (inv_of_run hinit run₁).seen
  obtain ⟨hstart, hnil⟩ := doSemaphoreInit_seen hseen₁ hsemaphore
  have hbalanced : Balanced s (max 0 value) (v₁.setSemaphore s (max 0 value)) ⟨0, 0, 0⟩ := by
    refine ⟨?_, by simp [View.setSemaphore], by simp [View.setSemaphore, hnil]⟩
    simp only [View.SemaphoreAgrees, View.setSemaphore, Function.update_self, hnil,
      List.length_nil]
    omega
  obtain ⟨v₂, hseen₂, h₂⟩ := run₂.invariant
    (I := fun c => ∃ v, Seen noTask True c.1 v ∧ Balanced s (max 0 value) v c.2)
    (by
      rintro c event c' ⟨v, hseen, h⟩ ⟨hstep, hnoinit, hspares, hledger⟩
      obtain ⟨v', hseen', hmoves⟩ := hseen.step hstep
      exact ⟨v', hseen', Balanced.step hseen h hseen' hmoves hnoinit hspares hledger⟩)
    ⟨_, hstart, hbalanced⟩
  have hagrees := h₂.agrees
  have hvalue : (v₂.semaphores s).value = max 0 value + g.ups - g.downs := h₂.value
  have hcompleted : g.completed + (v₂.queue (.semaphore s)).length = g.downs := h₂.completed
  unfold View.SemaphoreAgrees at hagrees
  refine ⟨?_, ?_, ?_, ?_, ?_⟩
  · rw [← hseen₂.semaphores_eq, hvalue]
  · rw [hseen₂.items, hagrees, hseen₂.semaphores_eq]
  · omega
  · intro hwaiters
    rw [hseen₂.items] at hwaiters
    have hpos := List.length_pos_iff.mpr hwaiters
    omega
  · obtain ⟨k₃, hup, v₃, hseen₃, hstep⟩ := (doSemaphoreUp_seen hseen₂ s).returns
    refine ⟨k₃, hup, ?_⟩
    obtain ⟨hnone, rfl⟩ | ⟨p, hp, rfl⟩ := semaphoreUp_cases h₂.agrees hstep
    · exact readiesOne_nil hseen₂ hseen₃ hnone rfl
    · exact readiesOne_wake hseen₂ hseen₃ rfl (by simp) hp

/-- One down on a semaphore without permits: the caller waits. -/
theorem semaphoreConservation_spawned :
    ∃ k₂ g, (semaphoreSystem 0).Run (spawned.doSemaphoreInit 0 0, ⟨0, 0, 0⟩)
        [.entry (.semaphoreDown 0)] (k₂, g) ∧
      (k₂.semaphores 0).value = 0 + g.ups - g.downs ∧ g.downs = 1 ∧
      (k₂.items (.semaphore 0)).length = 1 := by
  let k₂ := (spawned.doSemaphoreInit 0 0).after (.semaphoreDown 0)
  have hstep : (semaphoreSystem 0).step (spawned.doSemaphoreInit 0 0, ⟨0, 0, 0⟩)
      (.entry (.semaphoreDown 0)) (k₂, Ledger.post ⟨0, 0, 0⟩ 0 (spawned.doSemaphoreInit 0 0)
        (.entry (.semaphoreDown 0)) k₂) :=
    ⟨step_after ⟨by decide +kernel, fun h => absurd h (by decide +kernel), trivial⟩
      (by decide +kernel), by simp, by simp [Event.Spares], rfl⟩
  have h := semaphoreConservation_of_run initTask_zero run_spawned
    ⟨by decide +kernel, fun h => absurd h (by decide +kernel),
      show queueIsEmpty spawned.heap (.semaphore 0) = true by decide +kernel⟩ (.single hstep)
  have hvalue : (k₂.semaphores 0).value = -1 := by decide +kernel
  refine ⟨k₂, _, .single hstep, ?_, rfl, ?_⟩
  · simpa using h.1
  · have hlength := h.2.1
    rw [hvalue] at hlength
    exact Int.ofNat.inj hlength

end UcasOs.Sched

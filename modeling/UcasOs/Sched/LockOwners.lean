import Mathlib.Data.Set.Card
import UcasOs.Sched.LockMoves

/-!
# Owners of mutexes

`lock_num` counts the mutexes a task owns, and `kill` scans `locks[]` for as
long as the count of the victim is positive.  If the victim owns nothing
outside `locks[]`, the scan gives up all its mutexes, so every owner is a live
task and every count stays right.
-/

namespace UcasOs.Sched

open UcasOs.Foundation UcasOs.Libs

namespace View

def owned (v : View) (p : Pid) : Set Nat := {lock | (v.mutexes lock).owner = p}

/-- How far `lock_num` is above the number of mutexes the task owns. -/
noncomputable def slack (v : View) (p : Pid) : Int := v.lockNum p - (v.owned p).ncard

/--
The mutexes are owned by tasks that are `alive`, and no `lock_num` is below the
number of them; `strict` says that it is that number.
-/
structure Held (strict : Prop) (alive : Pid → Prop) (v : View) : Prop where
  ne_zero : ∀ p, alive p → p ≠ 0
  locked : ∀ lock, (v.mutexes lock).status = .locked ↔ (v.mutexes lock).owner ≠ 0
  owner_alive : ∀ lock, (v.mutexes lock).owner ≠ 0 → alive (v.mutexes lock).owner
  finite : ∀ p, p ≠ 0 → (v.owned p).Finite
  slack_nonneg : ∀ p, alive p → 0 ≤ v.slack p
  slack_zero : strict → ∀ p, alive p → v.slack p = 0

variable {v v' v₁ v₂ : View} {q : QueueId} {event : Event} {lock : Nat} {strict : Prop}
  {alive : Pid → Prop} {pid p : Pid}

theorem Held.congr (h : Held strict alive v) (hmutexes : v'.mutexes = v.mutexes)
    (hlockNum : v'.lockNum = v.lockNum) : Held strict alive v' := by
  have howned : v'.owned = v.owned := by
    funext p
    rw [owned, owned, hmutexes]
  have hslack : v'.slack = v.slack := by
    funext p
    rw [slack, slack, howned, hlockNum]
  refine ⟨h.ne_zero, ?_, ?_, ?_, ?_, ?_⟩
  · rw [hmutexes]
    exact h.locked
  · rw [hmutexes]
    exact h.owner_alive
  · rw [howned]
    exact h.finite
  · rw [hslack]
    exact h.slack_nonneg
  · rw [hslack]
    exact h.slack_zero

theorem Held.unlocked (h : Held strict alive v) (hopen : (v.mutexes lock).status ≠ .locked) :
    (v.mutexes lock).owner = 0 := by
  by_contra howner
  exact hopen ((h.locked lock).mpr howner)

/-- One lock gets a new owner, and the counts follow. -/
theorem Held.set (h : Held strict alive v) {m : MutexLock}
    (hmutexes : v'.mutexes = Function.update v.mutexes lock m)
    (hlocked : m.status = .locked ↔ m.owner ≠ 0) (halive : m.owner ≠ 0 → alive m.owner)
    (hslack : ∀ p, alive p → v.slack p ≤ v'.slack p ∧ (strict → v'.slack p = v.slack p)) :
    Held strict alive v' := by
  have hsub : ∀ p, v'.owned p ⊆ insert lock (v.owned p) := by
    intro p l hl
    by_cases hne : l = lock
    · exact .inl hne
    · refine .inr ?_
      rwa [owned, hmutexes, Set.mem_ofPred_eq, Function.update_of_ne hne] at hl
  refine ⟨h.ne_zero, ?_, ?_, ?_, ?_, ?_⟩
  · intro l
    by_cases hl : l = lock
    · rw [hl, hmutexes, Function.update_self]
      exact hlocked
    · rw [hmutexes, Function.update_of_ne hl]
      exact h.locked l
  · intro l
    by_cases hl : l = lock
    · rw [hl, hmutexes, Function.update_self]
      exact halive
    · rw [hmutexes, Function.update_of_ne hl]
      exact h.owner_alive l
  · exact fun p hp => ((h.finite p hp).insert lock).subset (hsub p)
  · exact fun p hp => le_trans (h.slack_nonneg p hp) (hslack p hp).1
  · exact fun hstrict p hp => ((hslack p hp).2 hstrict).trans (h.slack_zero hstrict p hp)

/-- A live task takes an open lock. -/
theorem Held.take (h : Held strict alive v) (hopen : (v.mutexes lock).status ≠ .locked)
    (hp : alive p) (hmutexes : v'.mutexes = Function.update v.mutexes lock ⟨.locked, p⟩)
    (hlockNum : v'.lockNum = Function.update v.lockNum p (v.lockNum p + 1)) :
    Held strict alive v' := by
  have hzero := h.ne_zero p hp
  have hfree := h.unlocked hopen
  refine h.set hmutexes (by simp [hzero]) (fun _ => hp) fun x hx => ?_
  suffices hslack : v'.slack x = v.slack x from ⟨hslack.ge, fun _ => hslack⟩
  by_cases hxp : x = p
  · subst hxp
    have hself : v'.owned x = insert lock (v.owned x) := by
      ext l
      by_cases hl : l = lock <;> simp [owned, hmutexes, hl]
    have hnew : lock ∉ v.owned x := fun hmem =>
      hzero ((show (v.mutexes lock).owner = x from hmem).symm.trans hfree)
    rw [slack, slack, hself, hlockNum, Function.update_self,
      Set.ncard_insert_of_notMem hnew (h.finite x hzero)]
    omega
  · have hother : v'.owned x = v.owned x := by
      ext l
      by_cases hl : l = lock
      · subst hl
        simp [owned, hmutexes, hfree, Ne.symm hxp, Ne.symm (h.ne_zero x hx)]
      · simp [owned, hmutexes, hl]
    rw [slack, slack, hother, hlockNum, Function.update_of_ne hxp]

/-- A task gives up a lock it owns. -/
theorem Held.open (h : Held strict alive v) (howner : (v.mutexes lock).owner = p) (hp : alive p)
    (hmutexes : v'.mutexes = Function.update v.mutexes lock ⟨.unlocked, 0⟩)
    (hlockNum : v'.lockNum = Function.update v.lockNum p (v.lockNum p + -1)) :
    Held strict alive v' := by
  have hzero := h.ne_zero p hp
  refine h.set hmutexes (by simp) (by simp) fun x hx => ?_
  suffices hslack : v'.slack x = v.slack x from ⟨hslack.ge, fun _ => hslack⟩
  by_cases hxp : x = p
  · subst hxp
    have hself : v'.owned x = v.owned x \ {lock} := by
      ext l
      by_cases hl : l = lock
      · simp [owned, hmutexes, hl, Ne.symm hzero]
      · simp [owned, hmutexes, hl]
    have hcard : (v'.owned x).ncard + 1 = (v.owned x).ncard := by
      rw [hself, Set.ncard_sdiff_singleton_add_one (show lock ∈ v.owned x from howner)
        (h.finite x hzero)]
    rw [slack, slack, hlockNum, Function.update_self]
    omega
  · have hother : v'.owned x = v.owned x := by
      ext l
      by_cases hl : l = lock
      · subst hl
        simp [owned, hmutexes, howner, Ne.symm hxp, Ne.symm (h.ne_zero x hx)]
      · simp [owned, hmutexes, hl]
    rw [slack, slack, hother, hlockNum, Function.update_of_ne hxp]

/-- Initialising a lock that nobody owns keeps the counts; of another, its owner keeps the count. -/
theorem Held.init (h : Held strict alive v) (hfree : strict → (v.mutexes lock).owner = 0) :
    Held strict alive (v.setMutex lock ⟨.unlocked, 0⟩) := by
  refine h.set rfl (by simp) (by simp) fun x hx => ?_
  have hzero := h.ne_zero x hx
  have hsub : (v.setMutex lock ⟨.unlocked, 0⟩).owned x ⊆ v.owned x := by
    intro l hl
    by_cases hne : l = lock
    · subst hne
      exact absurd (show x = 0 by simpa [owned, setMutex, eq_comm] using hl) hzero
    · simpa [owned, setMutex, hne] using hl
  constructor
  · have := Set.ncard_le_ncard hsub (h.finite x hzero)
    simp only [slack, setMutex] at this ⊢
    omega
  · intro hstrict
    have hsame : (v.setMutex lock ⟨.unlocked, 0⟩).owned x = v.owned x := by
      refine Set.Subset.antisymm hsub fun l hl => ?_
      have hne : l ≠ lock := by
        rintro rfl
        exact hzero ((show (v.mutexes l).owner = x from hl).symm.trans (hfree hstrict))
      simpa [owned, setMutex, hne] using hl
    rw [slack, hsame]
    rfl

theorem Held.spawn (h : Held strict v.live v) (hdead : ¬ v.live pid) (hpid : pid ≠ 0) :
    Held strict (v.spawn pid).live (v.spawn pid) := by
  have hnone : v.owned pid = ∅ := by
    refine Set.eq_empty_iff_forall_notMem.mpr fun l hl => hdead ?_
    have howner : (v.mutexes l).owner = pid := hl
    rw [← howner]
    exact h.owner_alive l (howner ▸ hpid)
  have hself : (v.spawn pid).slack pid = 0 := by
    change Function.update v.lockNum pid 0 pid - (v.owned pid).ncard = 0
    rw [hnone]
    simp
  have hother : ∀ x, x ≠ pid → (v.spawn pid).slack x = v.slack x := by
    intro x hx
    change Function.update v.lockNum pid 0 x - (v.owned x).ncard = v.lockNum x - (v.owned x).ncard
    rw [Function.update_of_ne hx]
  refine ⟨?_, h.locked, fun l hl => .inr (h.owner_alive l hl), h.finite, ?_, ?_⟩
  · rintro x (rfl | hx)
    · exact hpid
    · exact h.ne_zero x hx
  · intro x hx
    by_cases hxp : x = pid
    · rw [hxp, hself]
    · rw [hother x hxp]
      exact h.slack_nonneg x (hx.resolve_left hxp)
  · intro hstrict x hx
    by_cases hxp : x = pid
    · rw [hxp, hself]
    · rw [hother x hxp]
      exact h.slack_zero hstrict x (hx.resolve_left hxp)

/-! ## The scan of `kill` -/

/-- The lock is open, and one of its waiters is ready if it had any. -/
def HandsOver (lock : Nat) (v v' : View) : Prop :=
  v'.mutexes lock = ⟨.unlocked, 0⟩ ∧
    ((v.queue (.mutex lock) = [] ∧ v'.queue (.mutex lock) = []) ∨
      ∃ w ∈ v.queue (.mutex lock), w ∈ v'.queue .ready ∧
        v'.queue (.mutex lock) = (v.queue (.mutex lock)).erase w)

def Leaves (lock : Nat) (v v' : View) : Prop :=
  v'.mutexes lock = v.mutexes lock ∧ v'.queue (.mutex lock) = v.queue (.mutex lock)

/-- What waking tasks leaves alone. -/
structure Wakeful (v v' : View) : Prop where
  live : v'.live = v.live
  kont : v'.kont = v.kont
  current : v'.current = v.current
  ready : v.queue .ready ⊆ v'.queue .ready

theorem Wakeful.refl (v : View) : v.Wakeful v := ⟨rfl, rfl, rfl, List.Subset.refl _⟩

theorem Wakeful.trans (h : v.Wakeful v₁) (h' : v₁.Wakeful v₂) : v.Wakeful v₂ :=
  ⟨h'.live.trans h.live, h'.kont.trans h.kont, h'.current.trans h.current,
    List.Subset.trans h.ready h'.ready⟩

/-- Opening a lock, as `kill` and `do_mutex_lock_release` do it. -/
theorem WakesOne.handsOver (h : v.WakesOne (.mutex lock) v₁)
    (hv' : v' = (v₁.addLocks pid (-1)).setMutex lock ⟨.unlocked, 0⟩) :
    v.Wakeful v' ∧ HandsOver lock v v' ∧ (∀ l, l ≠ lock → Leaves l v v') ∧
      v'.mutexes = Function.update v.mutexes lock ⟨.unlocked, 0⟩ ∧
      v'.lockNum = Function.update v.lockNum pid (v.lockNum pid + -1) := by
  subst hv'
  obtain ⟨hnil, rfl⟩ | ⟨w, hw, rfl⟩ := h
  · refine ⟨⟨rfl, rfl, rfl, List.Subset.refl _⟩, ⟨?_, .inl ⟨hnil, hnil⟩⟩, ?_, rfl, rfl⟩
    · simp [setMutex]
    · intro l hl
      exact ⟨by simp [setMutex, addLocks, hl], rfl⟩
  · refine ⟨⟨rfl, rfl, rfl, ?_⟩, ⟨?_, .inr ⟨w, hw, ?_, ?_⟩⟩, ?_, rfl, rfl⟩
    · intro x hx
      simp [setMutex, addLocks, wake, join, leave, hx]
    · simp [setMutex]
    · simp [setMutex, addLocks, wake, join]
    · simp [setMutex, addLocks, wake, join, leave]
    · intro l hl
      exact ⟨by simp [setMutex, addLocks, wake, hl],
        by simp [setMutex, addLocks, wake, join, leave, hl]⟩

theorem HandsOver.trans_leaves (h : HandsOver lock v v₁) (hready : v₁.queue .ready ⊆ v₂.queue .ready)
    (h' : Leaves lock v₁ v₂) : HandsOver lock v v₂ := by
  obtain ⟨hopen, hqueue⟩ := h
  refine ⟨h'.1.trans hopen, ?_⟩
  rw [h'.2]
  exact hqueue.imp id fun ⟨w, hw, hmem, heq⟩ => ⟨w, hw, hready hmem, heq⟩

theorem HandsOver.of_leaves (h : Leaves lock v v₁) (h' : HandsOver lock v₁ v₂) :
    HandsOver lock v v₂ := by
  obtain ⟨hopen, hqueue⟩ := h'
  refine ⟨hopen, ?_⟩
  rwa [h.2] at hqueue

/-- While the victim's count is not below the number of its locks, none is missed. -/
theorem KillLocks.spec {locks : List Nat} (h : KillLocks pid locks v v')
    (hheld : Held strict alive v) (hpid : alive pid) (hnodup : locks.Nodup) :
    Held strict alive v' ∧ v.Wakeful v' ∧
      (∀ l ∈ locks, (v.mutexes l).owner = pid → HandsOver l v v') ∧
      ∀ l, l ∉ locks ∨ (v.mutexes l).owner ≠ pid → Leaves l v v' := by
  induction locks generalizing v with
  | nil =>
      rw [show v' = v from h]
      exact ⟨hheld, Wakeful.refl v, by simp, fun l _ => ⟨rfl, rfl⟩⟩
  | cons i rest ih =>
      obtain ⟨hi, hrest⟩ := List.nodup_cons.mp hnodup
      unfold KillLocks at h
      split at h
      · obtain ⟨v₁, hlock, hlocks⟩ := h
        unfold KillLock at hlock
        split at hlock
        · rename_i howner
          obtain ⟨v₀, hwakes, hv₁⟩ := hlock
          obtain ⟨hwakeful, hhands, hleaves, hmutexes, hlockNum⟩ := hwakes.handsOver hv₁
          have hheld₁ := hheld.open howner hpid hmutexes hlockNum
          obtain ⟨hheld', hwakeful', hopened, hothers⟩ := ih hlocks hheld₁ hrest
          refine ⟨hheld', hwakeful.trans hwakeful', ?_, ?_⟩
          · intro l hl hown
            rcases List.mem_cons.mp hl with rfl | hl
            · exact hhands.trans_leaves hwakeful'.ready (hothers l (.inl hi))
            · have hli : l ≠ i := fun he => hi (he ▸ hl)
              have hsame := hleaves l hli
              exact (hopened l hl (by rw [hsame.1, hown])).of_leaves hsame
          · intro l hl
            have hli : l ≠ i := by
              rintro rfl
              exact hl.elim (fun hn => hn (by simp)) fun hn => hn howner
            have hsame := hleaves l hli
            have hsame' := hothers l (hl.imp (fun hn hm => hn (by simp [hm])) fun hn => by
              rwa [hsame.1])
            exact ⟨hsame'.1.trans hsame.1, hsame'.2.trans hsame.2⟩
        · rename_i howner
          subst hlock
          obtain ⟨hheld', hwakeful', hopened, hothers⟩ := ih hlocks hheld hrest
          refine ⟨hheld', hwakeful', ?_, ?_⟩
          · intro l hl hown
            rcases List.mem_cons.mp hl with rfl | hl
            · exact absurd hown howner
            · exact hopened l hl hown
          · intro l hl
            by_cases hli : l = i
            · exact hothers l (.inr (hli ▸ howner))
            · exact hothers l (hl.imp (fun hn hm => hn (by simp [hm])) id)
      · -- The count is zero, so the victim owns nothing.
        rename_i hcount
        subst h
        have hnone : ∀ l, (v'.mutexes l).owner ≠ pid := by
          intro l hown
          have hslack := hheld.slack_nonneg pid hpid
          have hpos : 0 < (v'.owned pid).ncard :=
            (Set.ncard_pos (hheld.finite pid (hheld.ne_zero pid hpid))).mpr ⟨l, hown⟩
          unfold slack at hslack
          omega
        exact ⟨hheld, Wakeful.refl _, fun l _ hown => absurd hown (hnone l),
          fun l _ => ⟨rfl, rfl⟩⟩

/-- What the death of a task leaves. -/
structure Buried (pid : Pid) (v v' : View) : Prop where
  live : v'.live = fun p => p ≠ pid ∧ v.live p
  kont : ∀ p, p ≠ pid → v'.kont p = v.kont p
  ready : ∀ p ∈ v.queue .ready, p ≠ pid → p ∈ v'.queue .ready
  opened : ∀ l, (v.mutexes l).owner = pid → pid ∉ v.queue (.mutex l) → HandsOver l v v'
  other : ∀ l, (v.mutexes l).owner ≠ pid → v'.mutexes l = v.mutexes l ∧
    v'.queue (.mutex l) = (v.queue (.mutex l)).erase pid

theorem remove_queue (hwf : v.Wf) (hpid : pid ∈ v.queue q) (q' : QueueId) :
    (v.remove q pid).queue q' = (v.queue q').erase pid := by
  by_cases hq : q' = q
  · subst hq
    simp [remove, leave]
  · have hnot : pid ∉ v.queue q' := fun hmem => hq (hwf.apart hmem hpid)
    simp [remove, leave, hq, List.erase_of_not_mem hnot]

theorem Kills.buried (h : v.Kills pid v') (hwf : v.Wf) (hheld : Held strict v.live v)
    (hlocks : ∀ l, (v.mutexes l).owner = pid → l < maxLocksNum) :
    Buried pid v v' ∧ Held strict v'.live v' ∧ ∀ l, (v'.mutexes l).owner ≠ pid := by
  obtain ⟨q, v₁, hq, hscan, hlast⟩ := h
  have hpid := hwf.live hq
  have hzero := hwf.ne_zero hpid
  have hremoved : Held strict v.live (v.remove q pid) := hheld.congr rfl rfl
  obtain ⟨hheld₁, hwakeful, hopened, hleaves⟩ := hscan.spec hremoved hpid List.nodup_range
  -- The rest of `kill` is not about mutexes.
  have hrest : v'.mutexes = v₁.mutexes ∧ v'.lockNum = v₁.lockNum ∧ v'.live = v₁.live ∧
      (∀ l, v'.queue (.mutex l) = v₁.queue (.mutex l)) ∧
      v₁.queue .ready ⊆ v'.queue .ready ∧ ∀ p, p ≠ pid → v'.kont p = v₁.kont p := by
    have hwoken := v₁.wakeAll_steady (q := .wait pid) (by simp)
    have hready : v₁.queue .ready ⊆ (v₁.wakeAll (.wait pid)).queue .ready := by
      intro p hp
      simp [wakeAll, hp]
    split at hlast
    · rename_i hself
      obtain ⟨next, -, rfl⟩ := hlast
      refine ⟨rfl, rfl, rfl, hwoken.queue, hready, ?_⟩
      intro p hp
      have hne : p ≠ v₁.current := by
        rw [hwakeful.current]
        exact hself ▸ hp
      exact Function.update_of_ne hne _ _
    · subst hlast
      exact ⟨rfl, rfl, rfl, hwoken.queue, hready, fun _ _ => rfl⟩
  obtain ⟨hmutexes, hlockNum, hlive, hqueue, hready, hkont⟩ := hrest
  have hlive' : v'.live = fun p => p ≠ pid ∧ v.live p := by rw [hlive, hwakeful.live]; rfl
  have hgone : ∀ l, (v'.mutexes l).owner ≠ pid := by
    intro l hown
    rw [hmutexes] at hown
    by_cases howner : (v.mutexes l).owner = pid
    · have hhands := hopened l (List.mem_range.mpr (hlocks l howner)) howner
      rw [hhands.1] at hown
      exact hzero hown.symm
    · rw [(hleaves l (.inr howner)).1] at hown
      exact howner hown
  refine ⟨⟨hlive', ?_, ?_, ?_, ?_⟩, ?_, hgone⟩
  · intro p hp
    rw [hkont p hp, hwakeful.kont]
    rfl
  · intro p hp hne
    refine hready (hwakeful.ready ?_)
    rw [remove_queue hwf hq]
    exact (List.mem_erase_of_ne hne).mpr hp
  · intro l howner hnot
    have hhands := hopened l (List.mem_range.mpr (hlocks l howner)) howner
    have hsame : Leaves l v (v.remove q pid) :=
      ⟨rfl, by rw [remove_queue hwf hq, List.erase_of_not_mem hnot]⟩
    exact (HandsOver.of_leaves hsame hhands).trans_leaves hready ⟨by rw [hmutexes], hqueue l⟩
  · intro l howner
    have hsame := hleaves l (.inr howner)
    refine ⟨by rw [hmutexes, hsame.1]; rfl, ?_⟩
    rw [hqueue l, hsame.2, remove_queue hwf hq]
  · have hheld' : Held strict v.live v' := hheld₁.congr hmutexes hlockNum
    rw [hlive']
    refine ⟨fun p hp => hheld'.ne_zero p hp.2, hheld'.locked, ?_, hheld'.finite,
      fun p hp => hheld'.slack_nonneg p hp.2, fun hstrict p hp => hheld'.slack_zero hstrict p hp.2⟩
    exact fun l hl => ⟨hgone l, hheld'.owner_alive l hl⟩

/-- A killed task owns no mutex outside `locks[]`. -/
def SparesLocks (v : View) (event : Event) : Prop :=
  ∀ p, event.Kills v p → ∀ l, (v.mutexes l).owner = p → l < maxLocksNum

theorem Held.moves (h : Held strict v.live v) (hmoves : v.Moves event v')
    (hspares : v.SparesLocks event)
    (hinit : strict → ∀ l, event = .entry (.mutexInit l) → (v.mutexes l).owner = 0) :
    Held strict v'.live v' := by
  have hcurrent : v.current ≠ 0 → v.live v.current := fun hboot =>
    hmoves.before.live (hmoves.before.current hboot)
  obtain ⟨-, hsteady⟩ | ⟨-, pid, hdead, hpid, rfl⟩ | ⟨-, l, hevent, -, rfl⟩ |
    ⟨l, hcomes, hopen, v₀, hloop, rfl⟩ | ⟨l, -, -, v₀, hloop, hwaits⟩ |
    ⟨-, hboot, l, howner, v₁, hwakes, hsteady⟩ | ⟨-, p, hkills, hkilled⟩ := hmoves.lockStep
  · rw [hsteady.live]
    exact h.congr hsteady.mutexes hsteady.lockNum
  · exact h.spawn hdead hpid
  · exact h.init fun hstrict => hinit hstrict l hevent
  · obtain ⟨rfl, -⟩ | rfl := hloop
    · exact h.take hopen (hcurrent hcomes.1) rfl rfl
    · exact h.take hopen (hcurrent hcomes.1) rfl rfl
  · have hrest : v'.mutexes = v.mutexes ∧ v'.lockNum = v.lockNum ∧ v'.live = v.live := by
      obtain ⟨next, -, rfl⟩ := hwaits
      obtain ⟨rfl, -⟩ | rfl := hloop <;> exact ⟨rfl, rfl, rfl⟩
    rw [hrest.2.2]
    exact h.congr hrest.1 hrest.2.1
  · obtain ⟨hwakeful, -, -, hmutexes, hlockNum⟩ := hwakes.handsOver rfl
    have hgiven := h.open howner (hcurrent hboot) hmutexes hlockNum
    rw [hsteady.live, show _ = v.live from hwakeful.live]
    exact hgiven.congr hsteady.mutexes hsteady.lockNum
  · exact (hkilled.buried hmoves.before h (hspares p hkills)).2.1

/-! ## Tasks in the queue of a mutex -/

/-- A task in the queue of a mutex comes back to its loop, and does not own it. -/
structure Queued (v : View) : Prop where
  kont : ∀ l p, p ∈ v.queue (.mutex l) → v.kont p = .acquire l
  owner : ∀ l p, v.live p → v.kont p = .acquire l → (v.mutexes l).owner ≠ p

/-- A step in which the tasks on their way back to a lock stay so. -/
theorem Queued.steady (h : Queued v) (hwf : v.Wf) (hfresh : v.Fresh) (hlive : v'.live = v.live)
    (hqueue : ∀ l, v'.queue (.mutex l) ⊆ v.queue (.mutex l))
    (hkont : ∀ p, p ≠ v.current → v'.kont p = v.kont p)
    (hback : ∀ l, v'.kont v.current = .acquire l → v.kont v.current = .acquire l)
    (howner : ∀ l, v'.mutexes l = v.mutexes l ∨ (v'.mutexes l).owner = 0) : Queued v' := by
  refine ⟨?_, ?_⟩
  · intro l p hp
    have hold := h.kont l p (hqueue l hp)
    have hne : p ≠ v.current := fun he => hfresh l (he ▸ hold)
    rw [hkont p hne, hold]
  · intro l p hp hacquire
    rw [hlive] at hp
    by_cases hcur : p = v.current
    · exact absurd (hback l (hcur ▸ hacquire)) (hfresh l)
    · rw [hkont p hcur] at hacquire
      rcases howner l with hsame | hzero
      · rw [hsame]
        exact h.owner l p hp hacquire
      · rw [hzero]
        exact (hwf.ne_zero hp).symm

theorem Queued.spawn (h : Queued v) (hwf : v.Wf) (hdead : ¬ v.live pid) :
    Queued (v.spawn pid) := by
  have hne : ∀ p, v.live p → p ≠ pid := fun p hp he => hdead (he ▸ hp)
  refine ⟨?_, ?_⟩
  · intro l p hp
    have hp' : p ∈ v.queue (.mutex l) := by simpa [View.spawn, join] using hp
    change Function.update v.kont pid .ret p = _
    rw [Function.update_of_ne (hne p (hwf.live hp')), h.kont l p hp']
  · intro l p hp hacquire
    change Function.update v.kont pid .ret p = _ at hacquire
    by_cases hpp : p = pid
    · rw [hpp, Function.update_self] at hacquire
      cases hacquire
    · rw [Function.update_of_ne hpp] at hacquire
      exact h.owner l p (hp.resolve_left hpp) hacquire

theorem AtLoop.kont_current {v₀ : View} (h : v.AtLoop v₀) (l : Nat) :
    v₀.kont v.current ≠ .acquire l := by
  obtain ⟨rfl, hfresh⟩ | rfl := h
  · exact hfresh l
  · rw [park_kont, Function.update_self]
    simp

theorem AtLoop.kont_other {v₀ : View} (h : v.AtLoop v₀) (hp : p ≠ v.current) :
    v₀.kont p = v.kont p := by
  obtain ⟨rfl, -⟩ | rfl := h
  · rfl
  · exact Function.update_of_ne hp _ _

theorem Queued.take (h : Queued v) (hwf : v.Wf) (hboot : v.current ≠ 0)
    (htakes : v.TakesOpen lock v') : Queued v' := by
  obtain ⟨-, v₀, hloop, rfl⟩ := htakes
  have hqueue : v₀.queue = v.queue ∧ v₀.mutexes = v.mutexes ∧ v₀.live = v.live := by
    obtain ⟨rfl, -⟩ | rfl := hloop <;> exact ⟨rfl, rfl, rfl⟩
  refine ⟨?_, ?_⟩
  · intro l p hp
    change p ∈ v₀.queue (.mutex l) at hp
    rw [hqueue.1] at hp
    have hne : p ≠ v.current := by
      rintro rfl
      exact nomatch hwf.apart hp (hwf.current hboot)
    exact (hloop.kont_other hne).trans (h.kont l p hp)
  · intro l p hp hacquire
    change v₀.kont p = .acquire l at hacquire
    change v₀.live p at hp
    rw [hqueue.2.2] at hp
    have hne : p ≠ v.current := by
      rintro rfl
      exact hloop.kont_current l hacquire
    by_cases hl : l = lock
    · subst hl
      simpa [setMutex] using hne.symm
    · rw [hloop.kont_other hne] at hacquire
      simpa [setMutex, addLocks, hl, hqueue.2.1] using h.owner l p hp hacquire

theorem Queued.block (h : Queued v) (hwf : v.Wf) (hcomes : v.Comes lock)
    (hblocks : v.BlocksOn lock v') : Queued v' := by
  obtain ⟨-, v₀, hloop, next, -, rfl⟩ := hblocks
  have hsame : v₀.queue = v.queue ∧ v₀.mutexes = v.mutexes ∧ v₀.live = v.live ∧
      v₀.current = v.current := by
    obtain ⟨rfl, -⟩ | rfl := hloop <;> exact ⟨rfl, rfl, rfl, rfl⟩
  obtain ⟨hqueue, hmutexes, hlive, hcurrent⟩ := hsame
  have hkont : ((v₀.block (.mutex lock) .blocked).switch (.acquire lock) next).kont =
      Function.update v₀.kont v.current (.acquire lock) := by
    rw [switch_kont, ← hcurrent]
    rfl
  have hmem : ∀ l p, p ∈ ((v₀.block (.mutex lock) .blocked).switch (.acquire lock) next).queue
      (.mutex l) → p ∈ v.queue (.mutex l) ∨ (l = lock ∧ p = v.current) := by
    intro l p hp
    change p ∈ join (leave v₀.queue .ready v₀.current) (.mutex lock) v₀.current (.mutex l) at hp
    rw [mem_join, hqueue, hcurrent, leave, Function.update_of_ne (by simp),
      QueueId.mutex.injEq] at hp
    exact hp
  refine ⟨?_, ?_⟩
  · intro l p hp
    rw [hkont]
    rcases hmem l p hp with hold | ⟨rfl, rfl⟩
    · have hne : p ≠ v.current := by
        rintro rfl
        cases hwf.apart hold (hwf.current hcomes.1)
      rw [Function.update_of_ne hne, hloop.kont_other hne]
      exact h.kont l p hold
    · rw [Function.update_self]
  · intro l p hp hacquire
    change (v₀.mutexes l).owner ≠ p
    change v₀.live p at hp
    rw [hlive] at hp
    rw [hkont] at hacquire
    rw [hmutexes]
    by_cases hne : p = v.current
    · subst hne
      rw [Function.update_self, Kont.acquire.injEq] at hacquire
      subst hacquire
      exact hcomes.2.2.elim (h.owner lock v.current hp) id
    · rw [Function.update_of_ne hne, hloop.kont_other hne] at hacquire
      exact h.owner l p hp hacquire

theorem Queued.moves (h : Queued v) (hheld : Held strict v.live v) (hmoves : v.Moves event v')
    (hspares : v.SparesLocks event) : Queued v' := by
  have hwf := hmoves.before
  obtain ⟨hfresh, hsteady⟩ | ⟨-, pid, hdead, -, rfl⟩ | ⟨hfresh, l, -, -, rfl⟩ |
    ⟨l, hcomes, htakes⟩ | ⟨l, hcomes, hblocks⟩ |
    ⟨hfresh, hboot, l, howner, v₁, hwakes, hsteady⟩ | ⟨-, pid, hkills, hkilled⟩ :=
      hmoves.lockStep
  · exact h.steady hwf hfresh hsteady.live (fun l => by rw [hsteady.queue l]; simp) hsteady.kont
      hsteady.fresh fun l => .inl (by rw [hsteady.mutexes])
  · exact h.spawn hwf hdead
  · refine h.steady hwf hfresh rfl (fun _ => List.Subset.refl _) (fun _ _ => rfl) (fun _ => id) ?_
    intro l'
    by_cases hl : l' = l
    · exact .inr (by simp [setMutex, hl])
    · exact .inl (by simp [setMutex, hl])
  · exact h.take hwf hcomes.1 htakes
  · exact h.block hwf hcomes hblocks
  · obtain ⟨hwakeful, hhands, hleaves, hmutexes, -⟩ := hwakes.handsOver rfl
    refine h.steady hwf hfresh (hsteady.live.trans hwakeful.live) ?_ ?_ ?_ ?_
    · intro l'
      rw [hsteady.queue l']
      by_cases hl : l' = l
      · subst hl
        obtain ⟨-, ⟨-, hnil⟩ | ⟨w, -, -, herase⟩⟩ := hhands
        · rw [hnil]
          exact List.nil_subset _
        · rw [herase]
          exact List.erase_subset
      · rw [(hleaves l' hl).2]
        exact List.Subset.refl _
    · intro p hp
      rw [hsteady.kont p (by rw [hwakeful.current]; exact hp), hwakeful.kont]
    · intro l' hacquire
      have := hsteady.fresh l' (by rw [hwakeful.current]; exact hacquire)
      rwa [hwakeful.current, hwakeful.kont] at this
    · intro l'
      rw [hsteady.mutexes, hmutexes]
      by_cases hl : l' = l
      · exact .inr (by simp [hl])
      · exact .inl (by simp [hl])
  · have hburied := (hkilled.buried hwf hheld (hspares pid hkills)).1
    have hlive : ∀ p, v'.live p → p ≠ pid ∧ v.live p := fun p hp => by rwa [hburied.live] at hp
    have hpid : ∀ l, (v.mutexes l).owner = pid → pid ∉ v.queue (.mutex l) := fun l howner hmem =>
      h.owner l pid (hwf.live hmem) (h.kont l pid hmem) howner
    have hqueue : ∀ l, v'.queue (.mutex l) ⊆ v.queue (.mutex l) := by
      intro l
      by_cases howner : (v.mutexes l).owner = pid
      · obtain ⟨-, ⟨-, hnil⟩ | ⟨w, -, -, herase⟩⟩ := hburied.opened l howner (hpid l howner)
        · rw [hnil]
          exact List.nil_subset _
        · rw [herase]
          exact List.erase_subset
      · rw [(hburied.other l howner).2]
        exact List.erase_subset
    refine ⟨?_, ?_⟩
    · intro l p hp
      rw [hburied.kont p (hlive p (hmoves.after.live hp)).1]
      exact h.kont l p (hqueue l hp)
    · intro l p hp hacquire
      obtain ⟨hne, hold⟩ := hlive p hp
      rw [hburied.kont p hne] at hacquire
      by_cases howner : (v.mutexes l).owner = pid
      · rw [(hburied.opened l howner (hpid l howner)).1]
        exact (hwf.ne_zero hold).symm
      · rw [(hburied.other l howner).1]
        exact h.owner l p hold hacquire

end View

end UcasOs.Sched

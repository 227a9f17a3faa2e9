import UcasOs.Mm.IoQueues
import UcasOs.Sched.Entries

/-!
# Requests to the I/O task

Nothing but the order in which tasks happen to run keeps two of them from using
`io_task` at once.  As long as a request is posted only when no task waits for
another one, requests are executed in the order in which they were posted, each
once and with the values of its poster.
-/

namespace UcasOs.Mm

open UcasOs.Foundation UcasOs.Libs UcasOs.Sched Machine

/-! ## The protocol -/

/-- The semaphores are not initialised any more. -/
def IoPc.Started : IoPc → Prop
  | .initTasks | .initDone | .initFree => False
  | _ => True

/-- No request is being served. -/
def IoPc.Idle : IoPc → Prop
  | .initTasks | .initDone | .initFree | .down => True
  | _ => False

/-- The request is being served: what has been loaded of it is right. -/
def IoPc.Serves (ioTask : IoTask) : IoPc → Prop
  | .test => True
  | .buffer type => type = ioTask.type
  | .base type address => type = ioTask.type ∧ address = ioTask.buffer
  | .n type address unit =>
      type = ioTask.type ∧ address = ioTask.buffer ∧ unit = ioTask.base
  | .transfer task => task = ioTask
  | _ => False

/--
The values of `io_tasks` and `io_done` with the tasks that wait there, and the
requests that are posted and not executed.
-/
inductive Phase (ioTask : IoTask) :
    IoPc → Int → Int → List Pid → List Pid → List (Pid × IoTask) → Prop
  | idle {io : IoPc} (hio : io.Idle) : Phase ioTask io 0 0 [] [] []
  | asleep : Phase ioTask .test (-1) 0 [ioProc] [] []
  | early {p : Pid} (hp : p ≠ ioProc) : Phase ioTask .down 1 (-1) [] [p] [(p, ioTask)]
  | serving {p : Pid} {io : IoPc} (hp : p ≠ ioProc) (hio : io.Serves ioTask) :
      Phase ioTask io 0 (-1) [] [p] [(p, ioTask)]
  | served {p : Pid} (hp : p ≠ ioProc) : Phase ioTask .up 0 (-1) [] [p] []

structure Protocol (s : IoState) (L : QueueId → List Pid)
    (finished outstanding : List (Pid × IoTask)) : Prop where
  queues : Queues s.kernel L (TakenOut s.pc)
  once : Once s.pc
  live : s.kernel.Live ioProc
  present : ¬ TakenOut s.pc ioProc
  inside : ∀ p, s.pc p ≠ .user → s.kernel.Live p
  pids : s.machine.pidList = s.kernel.pidList
  frames : Frames s.machine (∃ p, s.pc p ≠ .user)
  phase : Phase s.machine.ioTask s.io (s.kernel.semaphores ioTasks).value
    (s.kernel.semaphores ioDone).value (L (.semaphore ioTasks)) (L (.semaphore ioDone))
    outstanding
  posted : s.posted = finished ++ outstanding
  executed : s.executed = finished.map Prod.snd

/-- What the event runs up to its end or to a request. -/
def IoState.progress (s : IoState) : IoEvent → Except Fault Progress
  | .fault va random => s.machine.beginException s.current va random
  | .resume random => .ok (s.machine.continueException s.current random (s.pc s.current))
  | _ => .ok (.done s.machine)

/--
A request may be posted: the I/O task has made its semaphores, nobody waits for
a completion, and neither the poster nor the task that it takes out of its
queue is the I/O task or out of its queue already.
-/
structure IoState.CanPost (s : IoState) (victim : Option Pid) : Prop where
  started : s.io.Started
  free : 0 ≤ (s.kernel.semaphores ioDone).value
  poster : s.current ≠ ioProc
  victim : ∀ v, victim = some v → v ≠ ioProc ∧ ¬ TakenOut s.pc v

def IoEvent.Orderly (s : IoState) (e : IoEvent) : Prop :=
  ∀ victim ioTask pc m, s.progress e = .ok (.post victim ioTask pc m) → s.CanPost victim

def orderlySystem : Lts IoState IoEvent := ioSystem.restrict fun s e => e.Orderly s

/-- Fields of the request are being loaded, or it is about to be executed. -/
def IoPc.Loads : IoPc → Prop
  | .test | .buffer _ | .base _ _ | .n _ _ _ | .transfer _ => True
  | _ => False

section

variable {ioTask : IoTask} {io : IoPc} {tasks done : Int} {T W : List Pid}
  {outstanding : List (Pid × IoTask)}

theorem Phase.of_free (h : Phase ioTask io tasks done T W outstanding)
    (hstarted : io.Started) (hfree : 0 ≤ done) :
    done = 0 ∧ W = [] ∧ outstanding = [] ∧
      ((io = .down ∧ tasks = 0 ∧ T = []) ∨ (io = .test ∧ tasks = -1 ∧ T = [ioProc])) := by
  cases h with
  | idle hio =>
      cases io with
      | down => exact ⟨rfl, rfl, rfl, .inl ⟨rfl, rfl, rfl⟩⟩
      | initTasks | initDone | initFree => exact hstarted.elim
      | test | buffer | base | n | transfer | up => exact hio.elim
  | asleep => exact ⟨rfl, rfl, rfl, .inr ⟨rfl, rfl, rfl⟩⟩
  | early | serving | served => omega

theorem Phase.of_init (h : Phase ioTask io tasks done T W outstanding) (hinit : ¬ io.Started) :
    tasks = 0 ∧ done = 0 ∧ T = [] ∧ W = [] ∧ outstanding = [] := by
  cases h with
  | idle hio => exact ⟨rfl, rfl, rfl, rfl, rfl⟩
  | asleep | early | served => exact absurd trivial hinit
  | serving _ hio =>
      cases io with
      | initTasks | initDone | initFree | down | up => exact hio.elim
      | test | buffer | base | n | transfer => exact absurd trivial hinit

theorem Phase.of_down (h : Phase ioTask .down tasks done T W outstanding) :
    (tasks = 0 ∧ done = 0 ∧ T = [] ∧ W = [] ∧ outstanding = []) ∨
      ∃ p, p ≠ ioProc ∧ tasks = 1 ∧ done = -1 ∧ T = [] ∧ W = [p] ∧
        outstanding = [(p, ioTask)] := by
  cases h with
  | idle hio => exact .inl ⟨rfl, rfl, rfl, rfl, rfl⟩
  | early hp => exact .inr ⟨_, hp, rfl, rfl, rfl, rfl, rfl⟩
  | serving _ hio => exact hio.elim

theorem Phase.of_loads (h : Phase ioTask io tasks done T W outstanding) (hio : io.Loads)
    (hT : ioProc ∉ T) :
    io.Serves ioTask ∧
      ∃ p, p ≠ ioProc ∧ tasks = 0 ∧ done = -1 ∧ T = [] ∧ W = [p] ∧
        outstanding = [(p, ioTask)] := by
  cases h with
  | idle hidle =>
      cases io with
      | initTasks | initDone | initFree | down => exact hio.elim
      | test | buffer | base | n | transfer | up => exact hidle.elim
  | asleep => exact absurd (List.mem_singleton_self _) hT
  | early | served => exact hio.elim
  | serving hp hserves => exact ⟨hserves, _, hp, rfl, rfl, rfl, rfl, rfl⟩

theorem Phase.of_up (h : Phase ioTask .up tasks done T W outstanding) :
    ∃ p, tasks = 0 ∧ done = -1 ∧ T = [] ∧ W = [p] ∧ outstanding = [] := by
  cases h with
  | idle hio => exact hio.elim
  | serving _ hio => exact hio.elim
  | served hp => exact ⟨_, rfl, rfl, rfl, rfl, rfl⟩

theorem Phase.cases_outstanding (h : Phase ioTask io tasks done T W outstanding) :
    outstanding = [] ∨ ∃ p, p ≠ ioProc ∧ T = [] ∧ W = [p] ∧ outstanding = [(p, ioTask)] ∧
      (io = .down ∨ io.Serves ioTask) := by
  cases h with
  | idle | asleep | served => exact .inl rfl
  | early hp => exact .inr ⟨_, hp, rfl, rfl, rfl, .inl rfl⟩
  | serving hp hio => exact .inr ⟨_, hp, rfl, rfl, rfl, .inr hio⟩

end

/-- The two semaphore operations of a poster. -/
theorem Queues.post {k : Kernel} {L : QueueId → List Pid} {S : Pid → Prop} (h : Queues k L S)
    (hcur : k.currentRunning ∈ L .ready) (hdone : (k.semaphores ioDone).value = 0)
    (hW : L (.semaphore ioDone) = [])
    (hT : ((k.semaphores ioTasks).value = 0 ∧ L (.semaphore ioTasks) = []) ∨
      ((k.semaphores ioTasks).value = -1 ∧ L (.semaphore ioTasks) = [ioProc])) :
    Meets IsPanic
      (fun k' => ∃ L', Queues k' L' S ∧ k'.pidList = k.pidList ∧
        (k'.semaphores ioTasks).value = (k.semaphores ioTasks).value + 1 ∧
        (k'.semaphores ioDone).value = -1 ∧ L' (.semaphore ioTasks) = [] ∧
        L' (.semaphore ioDone) = [k.currentRunning])
      (k.doSemaphoreUp ioTasks >>= fun k => k.doSemaphoreDown ioDone) := by
  have hup : Meets IsPanic
      (fun k₁ => ∃ L₁, Queues k₁ L₁ S ∧ k₁.pidList = k.pidList ∧
        k₁.semaphores = Function.update k.semaphores ioTasks ⟨(k.semaphores ioTasks).value + 1⟩ ∧
        k₁.currentRunning = k.currentRunning ∧ k.currentRunning ∈ L₁ .ready ∧
        L₁ (.semaphore ioTasks) = [] ∧ L₁ (.semaphore ioDone) = [])
      (k.doSemaphoreUp ioTasks) := by
    obtain ⟨hvalue, hnil⟩ | ⟨hvalue, hone⟩ := hT
    · rw [doSemaphoreUp_counts (by omega)]
      exact ⟨L, h.setSemaphore _ _, rfl, rfl, rfl, hcur, hnil, hW⟩
    · refine (h.up hone hvalue).mono fun k₁ hk₁ => ?_
      obtain ⟨L₁, hq, hpids, hsem, hcurrent, hready, hother⟩ := hk₁
      refine ⟨L₁, hq, hpids, by rw [hsem, hvalue]; rfl, hcurrent, hready hcur, ?_, ?_⟩
      · rw [hother _ (by simp), Function.update_self]
      · rw [hother _ (by simp), Function.update_of_ne (by decide)]
        exact hW
  refine hup.bind fun k₁ hk₁ => ?_
  obtain ⟨L₁, hq, hpids, hsem, hcurrent, hready, htasks, hwaiting⟩ := hk₁
  have hvalue : (k₁.semaphores ioDone).value = 0 := by
    rw [hsem, Function.update_of_ne (by decide)]
    exact hdone
  refine (hq.down (hcurrent ▸ hready) (.inr rfl) hwaiting hvalue).mono fun k₂ hk₂ => ?_
  obtain ⟨L₂, hq₂, hpids₂, hsem₂, -, hother⟩ := hk₂
  refine ⟨L₂, hq₂, hpids₂.trans hpids, ?_, ?_, ?_, ?_⟩
  · rw [hsem₂, Function.update_of_ne (by decide), hsem, Function.update_self]
  · rw [hsem₂, Function.update_self]
  · rw [hother _ (by simp), Function.update_of_ne (by decide)]
    exact htasks
  · rw [hother _ (by simp), Function.update_self, hcurrent]

section

variable {s : IoState} {L : QueueId → List Pid} {finished outstanding : List (Pid × IoTask)}

/-- The protocol holds, whatever the queues and the requests are. -/
def InProtocol (s : IoState) : Prop :=
  ∃ L finished outstanding, Protocol s L finished outstanding

/-- A request is posted, with the queues of `k₁` after a task has been taken out or put back. -/
theorem Protocol.post (h : Protocol s L finished outstanding) {k₁ : Kernel}
    {L₁ : QueueId → List Pid} {ioTask : IoTask} {pc : SwapPc} {m : Machine}
    {victim : Option Pid} (hcan : s.CanPost victim)
    (hq : Queues k₁ L₁ (TakenOut (Function.update s.pc s.current pc)))
    (hsame : SameData s.kernel k₁) (hcur : s.current ∈ L₁ .ready)
    (hother : ∀ q, q ≠ .ready → L₁ q = L q) (hframes : Frames m True)
    (hpids : m.pidList = s.machine.pidList) (honce : Once (Function.update s.pc s.current pc))
    (hio : ¬ TakenOut (Function.update s.pc s.current pc) ioProc) :
    Meets IsPanic InProtocol ({ s with machine := m }.postRequest ioTask pc k₁) := by
  obtain ⟨hdone, hW, rfl, hphase⟩ := h.phase.of_free hcan.started hcan.free
  have hcurrent : k₁.currentRunning ∈ L₁ .ready := by rwa [hsame.current]
  have hpost := hq.post hcurrent (by rw [hsame.semaphores]; exact hdone)
    (by rw [hother _ (by simp)]; exact hW)
    (by
      rw [hsame.semaphores, hother _ (by simp)]
      exact hphase.imp (fun hp => hp.2) (fun hp => hp.2))
  rw [hsame.semaphores] at hpost
  unfold IoState.postRequest
  dsimp only
  rw [← bind_assoc]
  refine hpost.bind fun k' hk' => ?_
  obtain ⟨L', hq', hpids', htasks, hdone', hT', hW'⟩ := hk'
  have hlive' : ∀ p, s.kernel.Live p → k'.Live p := by
    intro p hp
    rwa [Kernel.Live, hpids', hsame.pidList]
  refine ⟨L', finished, [(s.current, ioTask)],
    ⟨hq', honce, hlive' ioProc h.live, hio, ?_, ?_, ?_, ?_, ?_, ?_⟩⟩
  · intro p hp
    change Function.update s.pc s.current pc p ≠ .user at hp
    refine hlive' p ?_
    by_cases hpc : p = s.current
    · rw [hpc, Kernel.Live, ← hsame.pidList]
      exact hq.table.live hcur
    · exact h.inside p (by rwa [Function.update_of_ne hpc] at hp)
  · exact hpids.trans (h.pids.trans (hsame.pidList.symm.trans hpids'.symm))
  · exact ⟨hframes.free, hframes.owned, hframes.swapped, fun _ => hframes.full trivial⟩
  · dsimp only [IoState.setPc]
    rw [htasks, hdone', hT', hW', hsame.current]
    obtain ⟨hio, hvalue, -⟩ | ⟨hio, hvalue, -⟩ := hphase
    · rw [hio, hvalue]
      exact .early hcan.poster
    · rw [hio, hvalue]
      exact .serving hcan.poster trivial
  · change s.posted ++ [(s.current, ioTask)] = _
    rw [h.posted, List.append_nil]
  · exact h.executed

theorem Protocol.current_ready (h : Protocol s L finished outstanding) (hboot : s.current ≠ 0) :
    s.current ∈ L .ready :=
  h.queues.current.resolve_left fun h0 => hboot h0.2

theorem Protocol.current_live (h : Protocol s L finished outstanding) (hboot : s.current ≠ 0) :
    Allocated s.machine.pidList maxTaskNum s.current := by
  rw [h.pids]
  exact h.queues.table.live (h.current_ready hboot)

theorem Protocol.done (h : Protocol s L finished outstanding) {k₁ : Kernel}
    {L₁ : QueueId → List Pid} {m : Machine}
    (hq : Queues k₁ L₁ (TakenOut (Function.update s.pc s.current .user)))
    (hsame : SameData s.kernel k₁) (hother : ∀ q, q ≠ .ready → L₁ q = L q)
    (hframes : Frames m (∃ p, s.pc p ≠ .user)) (hpids : m.pidList = s.machine.pidList)
    (hslot : m.ioTask = s.machine.ioTask) :
    Protocol ({ s with kernel := k₁, machine := m }.setPc s.current .user) L₁ finished
      outstanding := by
  have hpc : ∀ p, Function.update s.pc s.current .user p ≠ .user → s.pc p ≠ .user := by
    intro p hp
    by_cases hpc : p = s.current
    · rw [hpc, Function.update_self] at hp
      exact absurd rfl hp
    · rwa [Function.update_of_ne hpc] at hp
  have hlive : ∀ p, s.kernel.Live p → k₁.Live p := by
    intro p hp
    rwa [Kernel.Live, hsame.pidList]
  refine ⟨hq, h.once.end rfl, hlive ioProc h.live, fun hio => h.present (takenOut_drop rfl hio),
    fun p hp => hlive p (h.inside p (hpc p hp)), ?_, ?_, ?_, h.posted, h.executed⟩
  · exact hpids.trans (h.pids.trans hsame.pidList.symm)
  · exact ⟨hframes.free, hframes.owned, hframes.swapped,
      fun hbusy => hframes.full (hbusy.imp hpc)⟩
  · dsimp only [IoState.setPc]
    rw [hslot, hsame.semaphores, hother _ (by simp), hother _ (by simp)]
    exact h.phase

theorem Protocol.victim_ready (h : Protocol s L finished outstanding) {v : Pid}
    (hcan : s.CanPost (some v)) (hlive : s.kernel.Live v) : v ∈ L .ready := by
  obtain ⟨hio, hin⟩ := hcan.victim v rfl
  obtain ⟨-, hW, -, hphase⟩ := h.phase.of_free hcan.started hcan.free
  obtain ⟨q, hq⟩ := h.queues.table.covered hlive hin
  by_cases hready : q = .ready
  · exact hready ▸ hq
  · by_cases hdone : q = .semaphore ioDone
    · rw [hdone, hW] at hq
      cases hq
    · by_cases htasks : q = .semaphore ioTasks
      · rw [htasks] at hq
        obtain ⟨-, -, hT⟩ | ⟨-, -, hT⟩ := hphase
        · rw [hT] at hq
          cases hq
        · rw [hT, List.mem_singleton] at hq
          exact absurd hq hio
      · rw [h.queues.others q hready htasks hdone] at hq
        cases hq

theorem Protocol.fault (h : Protocol s L finished outstanding) {va random : Nat}
    (henabled : (IoEvent.fault va random).Enabled s)
    (horderly : (IoEvent.fault va random).Orderly s) :
    Meets IsPanic InProtocol (s.fault va random) := by
  obtain ⟨hpc, hboot, -, -⟩ := henabled
  have hcur := h.current_ready hboot
  have hlive := h.current_live hboot
  have hold : (s.pc s.current).victim = none := by rw [hpc]; rfl
  have hbegin := beginException_sound h.frames hlive va random
  unfold IoState.fault
  cases hb : s.machine.beginException s.current va random with
  | error e =>
      rw [hb] at hbegin
      exact hbegin
  | ok progress =>
      have hsound := hbegin.of_ok hb
      rw [ok_bind]
      cases progress with
      | done m =>
          obtain ⟨hframes, hpids, hslot⟩ := hsound
          have hsame : Function.update s.pc s.current .user = s.pc := by
            rw [← hpc, Function.update_eq_self]
          refine ⟨L, finished, outstanding, h.done ?_ ⟨rfl, rfl, rfl⟩ (fun _ _ => rfl) hframes
            hpids hslot⟩
          rw [hsame]
          exact h.queues
      | post victim ioTask pc m =>
          obtain ⟨hframes, hpids, hvictim, -, hvlive⟩ := hsound
          have hcan := horderly victim ioTask pc m hb
          have hnew : ∀ v, pc.victim = some v → v ≠ ioProc ∧ ¬ TakenOut s.pc v :=
            fun v hv => hcan.victim v (hvictim ▸ hv)
          have honce := h.once.begin hold fun v hv => (hnew v hv).2
          have hio : ¬ TakenOut (Function.update s.pc s.current pc) ioProc := by
            rw [takenOut_begin hold]
            rintro (hio | ⟨hio, -⟩)
            · exact h.present hio
            · exact (hnew ioProc hio).1 rfl
          cases victim with
          | none =>
              refine h.post hcan (h.queues.congr_outside fun v => ?_) ⟨rfl, rfl, rfl⟩ hcur
                (fun _ _ => rfl) hframes hpids honce hio
              rw [takenOut_begin hold, hvictim]
              simp
          | some v =>
              have hv : s.kernel.Live v := by
                rw [Kernel.Live, ← h.pids]
                exact hvlive v rfl
              obtain ⟨k₁, L₁, htake, hq, hsame, hready, hother⟩ :=
                h.queues.takeOut hcur (h.victim_ready hcan hv)
              rw [IoState.proceed, htake, ok_bind]
              refine h.post hcan (hq.congr_outside fun x => ?_) hsame hready hother hframes hpids
                honce hio
              rw [takenOut_begin hold, hvictim, Option.some.injEq]
              refine or_congr Iff.rfl ⟨?_, ?_⟩
              · rintro ⟨rfl, hne⟩
                exact ⟨rfl, hne⟩
              · rintro ⟨rfl, hne⟩
                exact ⟨rfl, hne⟩

theorem continueException_cases (m : Machine) (p : Pid) (random : Nat) (pc : SwapPc) :
    (∃ m', m.continueException p random pc = .done m') ∨
      ∃ ioTask pc' m', m.continueException p random pc = .post none ioTask pc' m' := by
  cases pc with
  | user => exact .inl ⟨_, rfl⟩
  | swapOut pid address x =>
      cases address with
      | none => exact .inl ⟨_, rfl⟩
      | some address => exact .inr ⟨_, _, _, rfl⟩
  | swapIn address pmIndex x => exact .inl ⟨_, rfl⟩

/-- The task that was taken out is put back, and nothing else. -/
theorem Protocol.endSwapOut (h : Protocol s L finished outstanding) (hcur : s.current ∈ L .ready) :
    ∃ k₁ L₁, s.endSwapOut = .ok k₁ ∧
      (∀ new : SwapPc, new.victim = none →
        Queues k₁ L₁ (TakenOut (Function.update s.pc s.current new))) ∧
      SameData s.kernel k₁ ∧ s.current ∈ L₁ .ready ∧ ∀ q, q ≠ .ready → L₁ q = L q := by
  have hself : ¬ TakenOut s.pc s.current := h.queues.running_not_outside hcur
  unfold IoState.endSwapOut
  cases hpc : s.pc s.current with
  | swapOut pid address x =>
      have hold : (s.pc s.current).victim = some pid := by rw [hpc]; rfl
      obtain ⟨k₁, L₁, hput, hq, hsame, hready, hother⟩ :=
        h.queues.putBack hcur (v := pid) fun hne => ⟨s.current, hold, hne⟩
      refine ⟨k₁, L₁, hput, fun new hnew => hq.congr_outside fun v => ?_, hsame, hready, hother⟩
      exact takenOut_end h.once hold hnew hself
  | user | swapIn =>
      have hold : (s.pc s.current).victim = none := by rw [hpc]; rfl
      refine ⟨s.kernel, L, rfl, fun new hnew => h.queues.congr_outside fun v => ?_,
        ⟨rfl, rfl, rfl⟩, hcur, fun _ _ => rfl⟩
      rw [takenOut_begin hold, hnew]
      simp

theorem Protocol.resume (h : Protocol s L finished outstanding) {random : Nat}
    (henabled : (IoEvent.resume random).Enabled s) (horderly : (IoEvent.resume random).Orderly s) :
    Meets IsPanic InProtocol (s.resume random) := by
  obtain ⟨hpc, -⟩ := henabled
  have hlive := h.inside s.current hpc
  have hboot : s.current ≠ 0 := by
    intro h0
    rw [h0] at hlive
    exact absurd hlive.1 (by decide)
  have hcur := h.current_ready hboot
  have hall : Frames s.machine True :=
    ⟨h.frames.free, h.frames.owned, h.frames.swapped, fun _ => h.frames.full ⟨_, hpc⟩⟩
  have hsound := continueException_sound hall (h.current_live hboot) random hpc
  obtain ⟨k₁, L₁, hend, hq, hsame, hready, hother⟩ := h.endSwapOut hcur
  unfold IoState.resume
  rw [hend, ok_bind]
  rcases continueException_cases s.machine s.current random (s.pc s.current) with
    ⟨m, hdone⟩ | ⟨ioTask, pc, m, hpost⟩
  · rw [hdone] at hsound ⊢
    obtain ⟨hframes, hpids, hslot⟩ := hsound
    have hcurrent : ({ s with kernel := k₁ } : IoState).current = s.current := hsame.current
    rw [IoState.proceed, hcurrent]
    refine ⟨L₁, finished, outstanding, h.done (hq .user rfl) hsame hother ?_ hpids hslot⟩
    exact ⟨hframes.free, hframes.owned, hframes.swapped, fun _ => hframes.full trivial⟩
  · have hcan := horderly none ioTask pc m (by rw [IoState.progress, hpost])
    rw [hpost] at hsound ⊢
    obtain ⟨hframes, hpids, hvictim, -, -⟩ := hsound
    have hsplit : ({ s with kernel := k₁ } : IoState).proceed (.post none ioTask pc m) =
        { s with machine := m }.postRequest ioTask pc k₁ := by
      have hcurrent : ({ s with kernel := k₁, machine := m } : IoState).current = s.current :=
        hsame.current
      rw [IoState.proceed, IoState.postRequest, hcurrent]
      rfl
    rw [hsplit]
    exact h.post hcan (hq pc hvictim) hsame hready hother hframes hpids (h.once.end hvictim)
      fun hio => h.present (takenOut_drop hvictim hio)

/-- Nothing happens to the requests. -/
theorem Protocol.quiet (h : Protocol s L finished outstanding) {k' : Kernel}
    {L' : QueueId → List Pid} {m' : Machine} (hq : Queues k' L' (TakenOut s.pc))
    (hsem : k'.semaphores = s.kernel.semaphores) (hother : ∀ q, q ≠ .ready → L' q = L q)
    (hlive : ∀ p, s.kernel.Live p → k'.Live p) (hframes : Frames m' (∃ p, s.pc p ≠ .user))
    (hpids : m'.pidList = k'.pidList) (hslot : m'.ioTask = s.machine.ioTask) :
    Protocol { s with kernel := k', machine := m' } L' finished outstanding := by
  refine ⟨hq, h.once, hlive _ h.live, h.present, fun p hp => hlive p (h.inside p hp), hpids,
    hframes, ?_, h.posted, h.executed⟩
  dsimp only
  rw [hslot, hsem, hother _ (by simp), hother _ (by simp)]
  exact h.phase

theorem Protocol.timer (h : Protocol s L finished outstanding) :
    Meets IsPanic InProtocol s.irqTimer := by
  refine h.queues.timer.bind fun k' hk' => ?_
  obtain ⟨hq, hpids, hsem⟩ := hk'
  refine ⟨L, finished, outstanding, h.quiet hq hsem (fun _ _ => rfl) ?_ ?_ ?_ rfl⟩
  · intro p hp
    rwa [Kernel.Live, hpids]
  · exact h.frames.mono rfl rfl rfl fun _ => id
  · exact h.pids.trans hpids.symm

theorem Protocol.spawn (h : Protocol s L finished outstanding) {task : TaskInfo}
    (htask : 1 ≤ task.priority) : Meets IsPanic InProtocol (s.initPcb task) := by
  refine (h.queues.spawn htask).bind fun k' hk' => ?_
  obtain ⟨L', hq, hpids, hsem, -, hother⟩ := hk'
  obtain ⟨pageDir, hinit⟩ := initPcb_cases s.machine
  have hgrow : ∀ p, s.kernel.Live p → Allocated (slistAlloc s.kernel.pidList).2 maxTaskNum p := by
    intro p hp
    obtain ⟨free, hfree⟩ := h.queues.table.free
    cases free with
    | nil =>
        rw [slistAlloc_nil hfree]
        exact hp
    | cons i free => exact ((slistAlloc_cons hfree).2.2.2.2 p).mpr (.inr hp)
  rw [meets_pure, hinit]
  refine ⟨L', finished, outstanding, h.quiet hq hsem hother ?_ ?_ ?_ rfl⟩
  · intro p hp
    rw [Kernel.Live, hpids]
    exact hgrow p hp
  · refine h.frames.mono rfl rfl rfl fun p hp => ?_
    rw [h.pids] at hp ⊢
    exact hgrow p hp
  · rw [hpids, ← h.pids]

/-- The I/O task goes on to `io`, with its effect on the semaphores. -/
theorem Protocol.advance (h : Protocol s L finished outstanding) {k' : Kernel}
    {L' : QueueId → List Pid} {io : IoPc} (hq : Queues k' L' (TakenOut s.pc))
    (hpids : k'.pidList = s.kernel.pidList)
    (hphase : Phase s.machine.ioTask io (k'.semaphores ioTasks).value
      (k'.semaphores ioDone).value (L' (.semaphore ioTasks)) (L' (.semaphore ioDone))
      outstanding) :
    InProtocol { s with kernel := k', io } := by
  have hlive : ∀ p, s.kernel.Live p → k'.Live p := by
    intro p hp
    rwa [Kernel.Live, hpids]
  exact ⟨L', finished, outstanding, hq, h.once, hlive _ h.live, h.present,
    fun p hp => hlive p (h.inside p hp), h.pids.trans hpids.symm, h.frames, hphase, h.posted,
    h.executed⟩

theorem Protocol.init (h : Protocol s L finished outstanding) (hinit : ¬ s.io.Started)
    {sem : Nat} {value : Int} (hsem : sem = freeIoTasks ∨ value = 0) {io : IoPc}
    (hio : io.Idle) :
    InProtocol { s with kernel := s.kernel.doSemaphoreInit sem value, io } := by
  obtain ⟨htasks, hdone, hT, hW, hout⟩ := h.phase.of_init hinit
  have hnil : L (.semaphore sem) = [] := by
    by_cases hst : sem = ioTasks
    · rw [hst]
      exact hT
    · by_cases hsd : sem = ioDone
      · rw [hsd]
        exact hW
      · exact h.queues.others _ (by simp) (by simpa using hst) (by simpa using hsd)
  have hvalue : ∀ x, x ≠ freeIoTasks → (s.kernel.semaphores x).value = 0 →
      ((s.kernel.doSemaphoreInit sem value).semaphores x).value = 0 := by
    intro x hx hzero
    change (Function.update s.kernel.semaphores sem ⟨if value < 0 then 0 else value⟩ x).value = 0
    by_cases hxs : x = sem
    · have hv : value = 0 := hsem.resolve_left (hxs ▸ hx)
      rw [hxs, Function.update_self, hv]
      rfl
    · rw [Function.update_of_ne hxs]
      exact hzero
  refine h.advance (h.queues.initSemaphore hnil value) rfl ?_
  rw [hvalue ioTasks (by decide) htasks, hvalue ioDone (by decide) hdone, hT, hW, hout]
  exact .idle hio

theorem Protocol.load (h : Protocol s L finished outstanding) (hcur : ioProc ∈ L .ready)
    (hloads : s.io.Loads) {io : IoPc}
    (hio : s.io.Serves s.machine.ioTask → io.Serves s.machine.ioTask) :
    InProtocol { s with io } := by
  have hT : ioProc ∉ L (.semaphore ioTasks) := by
    intro hmem
    cases h.queues.table.holds.apart hcur hmem
  obtain ⟨hserves, p, hp, htasks, hdone, hnil, hone, hout⟩ := h.phase.of_loads hloads hT
  refine h.advance h.queues rfl ?_
  rw [htasks, hdone, hnil, hone, hout]
  exact .serving hp (hio hserves)

theorem transfer_cases (m : Machine) (ioTask : IoTask) :
    ∃ memory sd, m.transfer ioTask = { m with memory, sd } := by
  unfold transfer
  cases ioTask.type with
  | write => exact ⟨_, _, rfl⟩
  | read => exact ⟨_, _, rfl⟩

theorem Protocol.swIoProc (h : Protocol s L finished outstanding)
    (henabled : IoEvent.io.Enabled s) : Meets IsPanic InProtocol s.swIoProc := by
  obtain ⟨-, hcurrent⟩ := henabled
  have hcur : s.current ∈ L .ready := h.current_ready (by rw [hcurrent]; decide)
  have hready : ioProc ∈ L .ready := hcurrent ▸ hcur
  unfold IoState.swIoProc
  cases hio : s.io with
  | initTasks => exact h.init (by rw [hio]; exact id) (.inr rfl) trivial
  | initDone => exact h.init (by rw [hio]; exact id) (.inr rfl) trivial
  | initFree => exact h.init (by rw [hio]; exact id) (.inl rfl) trivial
  | down =>
      have hphase := h.phase
      rw [hio] at hphase
      obtain ⟨htasks, hdone, hT, hW, hout⟩ | ⟨p, hp, htasks, hdone, hT, hW, hout⟩ :=
        hphase.of_down
      · refine (h.queues.down hcur (.inl rfl) hT htasks).bind fun k' hk' => ?_
        obtain ⟨L', hq, hpids, hsem, -, hother⟩ := hk'
        refine h.advance hq hpids ?_
        rw [hsem, Function.update_self, Function.update_of_ne (by decide), hdone,
          hother _ (by simp), hother _ (by simp), Function.update_self,
          Function.update_of_ne (by decide), hW, hout]
        have hself : s.kernel.currentRunning = ioProc := hcurrent
        rw [hself]
        exact .asleep
      · rw [doSemaphoreDown_returns (by omega), ok_bind]
        refine h.advance (h.queues.setSemaphore _ _) rfl ?_
        rw [Kernel.setSemaphore]
        dsimp only
        rw [Function.update_self, Function.update_of_ne (by decide), htasks, hdone, hT, hW, hout]
        exact .serving hp trivial
  | test => exact h.load hready (by rw [hio]; trivial) fun _ => rfl
  | buffer type =>
      refine h.load hready (by rw [hio]; trivial) fun hserves => ?_
      rw [hio] at hserves
      exact ⟨hserves, rfl⟩
  | base type buffer =>
      refine h.load hready (by rw [hio]; trivial) fun hserves => ?_
      rw [hio] at hserves
      exact ⟨hserves.1, hserves.2, rfl⟩
  | n type buffer base =>
      refine h.load hready (by rw [hio]; trivial) fun hserves => ?_
      rw [hio] at hserves
      obtain ⟨rfl, rfl, rfl⟩ := hserves
      rfl
  | transfer task =>
      have hT : ioProc ∉ L (.semaphore ioTasks) := by
        intro hmem
        cases h.queues.table.holds.apart hready hmem
      obtain ⟨hserves, p, hp, htasks, hdone, hT, hW, hout⟩ :=
        h.phase.of_loads (by rw [hio]; trivial) hT
      rw [hio] at hserves
      subst hserves
      obtain ⟨memory, sd, htransfer⟩ := transfer_cases s.machine s.machine.ioTask
      rw [meets_ok, htransfer]
      refine ⟨L, finished ++ outstanding, [], h.queues, h.once, h.live, h.present, h.inside,
        h.pids, h.frames.mono rfl rfl rfl fun _ => id, ?_, ?_, ?_⟩
      · dsimp only
        rw [htasks, hdone, hT, hW]
        exact .served hp
      · exact h.posted.trans (List.append_nil _).symm
      · dsimp only
        rw [h.executed, List.map_append, hout]
        rfl
  | up =>
      have hphase := h.phase
      rw [hio] at hphase
      obtain ⟨p, htasks, hdone, hT, hW, hout⟩ := hphase.of_up
      refine (h.queues.up hW hdone).bind fun k' hk' => ?_
      obtain ⟨L', hq, hpids, hsem, -, -, hother⟩ := hk'
      refine h.advance hq hpids ?_
      rw [hsem, Function.update_self, Function.update_of_ne (by decide), htasks,
        hother _ (by simp), hother _ (by simp), Function.update_self,
        Function.update_of_ne (by decide), hT, hout]
      exact .idle trivial

theorem InProtocol.exec (h : InProtocol s) {event : IoEvent} (henabled : event.Enabled s)
    (horderly : event.Orderly s) : Meets IsPanic InProtocol (s.exec event) := by
  obtain ⟨L, finished, outstanding, h⟩ := h
  cases event with
  | timer => exact h.timer
  | spawn task => exact h.spawn henabled.2.2
  | fault va random => exact h.fault henabled horderly
  | resume random => exact h.resume henabled horderly
  | io => exact h.swIoProc henabled

end

/-! ## Runs -/

theorem boot_inProtocol (memory sd : Nat → UInt8) :
    InProtocol (IoState.boot booted memory sd) := by
  obtain ⟨L, ht, -, hcurrent⟩ := initTask_inv.of_ok initTask_zero
  have hqueue : ∀ p, p < maxTaskNum →
      (booted.pcb p).queue = none ∨ (booted.pcb p).queue = some .ready := by decide +kernel
  have hothers : ∀ q, q ≠ .ready → L q = [] := by
    intro q hq
    refine List.eq_nil_iff_forall_not_mem.mpr fun p hp => ?_
    have hnamed := ht.queue_eq hp
    rcases hqueue p (ht.live hp).2.1 with hnone | hready
    · rw [hnone] at hnamed
      cases hnamed
    · rw [hready, Option.some.injEq] at hnamed
      exact hq hnamed.symm
  have hout : ∀ v, ¬ TakenOut (fun _ => SwapPc.user) v := fun v ⟨_, hv, _⟩ => nomatch hv
  have hqueues : Queues booted L (TakenOut fun _ => SwapPc.user) := by
    have hnone : TakenOut (fun _ => SwapPc.user) = noTask :=
      funext fun v => propext ⟨fun hv => hout v hv, fun hv => hv.elim⟩
    rw [hnone]
    exact ⟨ht, fun q hq _ _ => hothers q hq, hcurrent, fun v hv => hv.elim⟩
  refine ⟨L, [], [], hqueues, fun p p' v hv => (nomatch hv), ?_, hout ioProc,
    fun p hp => absurd rfl hp, ?_, ?_, ?_, rfl, rfl⟩
  · exact (by decide +kernel : Allocated booted.pidList maxTaskNum 2)
  · rfl
  · obtain ⟨pageDir₁, hinit₁⟩ := initPcb_cases (Machine.boot memory sd)
    obtain ⟨pageDir₂, hinit₂⟩ := initPcb_cases (Machine.boot memory sd).initPcb
    change Frames (Machine.boot memory sd).initPcb.initPcb _
    rw [hinit₂, hinit₁]
    refine ⟨⟨_, slistInit_implements (by decide)⟩, ?_, fun _ _ hvalid => (nomatch hvalid), ?_⟩
    · intro f ha
      have hvalid := ha.2.2
      have hlt := ha.2.1
      simp [Machine.boot, slistInit, hlt] at hvalid
    · rintro ⟨p, hp⟩
      exact absurd rfl hp
  · change Phase _ _ (booted.semaphores ioTasks).value (booted.semaphores ioDone).value _ _ _
    rw [hothers _ (by simp), hothers _ (by simp)]
    exact .idle trivial

/-- Requests are executed in order, and a task that goes on after a request has got it. -/
structure Delivered (s : IoState) : Prop where
  executed : s.executed <+: s.posted.map Prod.snd
  one : s.posted.length ≤ s.executed.length + 1
  returned : ∀ {i : Nat} {ioTask : IoTask}, s.posted[i]? = some (s.current, ioTask) →
    s.executed[i]? = some ioTask
  pending : s.executed.length < s.posted.length →
    ∃ ready, s.kernel.heap.Represents .ready ready ∧ ioProc ∈ ready ∧
      (s.io = .down ∨ s.io.Serves s.machine.ioTask)

theorem Protocol.delivered {s : IoState} {L : QueueId → List Pid}
    {finished outstanding : List (Pid × IoTask)} (h : Protocol s L finished outstanding) :
    Delivered s := by
  have hphase := h.phase.cases_outstanding
  have hlength : s.executed.length = finished.length := by rw [h.executed, List.length_map]
  refine ⟨?_, ?_, ?_, ?_⟩
  · rw [h.executed, h.posted, List.map_append]
    exact List.prefix_append _ _
  · rw [h.posted, hlength, List.length_append]
    obtain rfl | ⟨p, -, -, -, rfl, -⟩ := hphase <;> simp
  · intro i ioTask hi
    rw [h.posted] at hi
    by_cases hlt : i < finished.length
    · rw [List.getElem?_append_left hlt] at hi
      rw [h.executed, List.getElem?_map, hi]
      rfl
    · -- The request that is not executed is that of a task in the queue of `io_done`.
      rw [List.getElem?_append_right (by omega)] at hi
      obtain rfl | ⟨p, -, -, hW, rfl, -⟩ := hphase
      · cases hi
      · have hself : p = s.current := by
          have hmem := List.mem_of_getElem? hi
          rw [List.mem_singleton, Prod.mk.injEq] at hmem
          exact hmem.1.symm
        have hwaits : s.current ∈ L (.semaphore ioDone) := by simp [hW, hself]
        rcases h.queues.current with h0 | hready
        · have hlive := (h.queues.table.live hwaits).1
          rw [IoState.current, h0.2] at hlive
          exact absurd hlive (by decide)
        · cases h.queues.table.holds.apart hwaits hready
  · intro hlt
    rw [h.posted, hlength, List.length_append] at hlt
    obtain rfl | ⟨p, hp, hT, hW, -, hio⟩ := hphase
    · simp at hlt
    · refine ⟨L .ready, h.queues.table.holds.represents .ready, ?_, hio⟩
      obtain ⟨q, hq⟩ := h.queues.table.covered h.live h.present
      by_cases hready : q = .ready
      · exact hready ▸ hq
      · by_cases htasks : q = .semaphore ioTasks
        · rw [htasks, hT] at hq
          cases hq
        · by_cases hdone : q = .semaphore ioDone
          · rw [hdone, hW, List.mem_singleton] at hq
            exact absurd hq.symm hp
          · rw [h.queues.others q hready htasks hdone] at hq
            cases hq

/-! ## A run that fills the memory -/

theorem orderly_of_done {s : IoState} {e : IoEvent} {m : Machine}
    (hdone : s.progress e = .ok (.done m)) : e.Orderly s :=
  fun _ _ _ _ hpost => nomatch hdone.symm.trans hpost

theorem exec_fault_done (s : IoState) {va random : Nat} {m : Machine}
    (hbegin : s.machine.beginException s.current va random = .ok (.done m)) :
    s.exec (.fault va random) = .ok ({ s with machine := m }.setPc s.current .user) := by
  rw [IoState.exec, IoState.fault, hbegin, ok_bind, IoState.proceed]

theorem exec_fault_post (s : IoState) {va random : Nat} {m : Machine} {v : Pid}
    {ioTask : IoTask} {pc : SwapPc} {k₁ k₂ k₃ : Kernel}
    (hbegin : s.machine.beginException s.current va random = .ok (.post (some v) ioTask pc m))
    (htake : IoState.takeOut s.kernel v = .ok k₁) (hup : k₁.doSemaphoreUp ioTasks = .ok k₂)
    (hdown : k₂.doSemaphoreDown ioDone = .ok k₃) :
    s.exec (.fault va random) = .ok
      { s with
        kernel := k₃
        machine := { m with ioTask }
        posted := s.posted ++ [(s.current, ioTask)]
        pc := Function.update s.pc s.current pc } := by
  rw [IoState.exec, IoState.fault, hbegin, ok_bind, IoState.proceed, htake, ok_bind,
    IoState.postRequest, hup, ok_bind, hdown]
  rfl

/-- Every task is in user mode before each step. -/
def calmSystem : Lts IoState IoEvent :=
  ioSystem.restrict fun s e => e.Orderly s ∧ ∀ p, s.pc p = .user

/-- All tasks are in user mode, and no request has been posted. -/
private def calm (kernel : Kernel) (machine : Machine) (io : IoPc) : IoState where
  kernel := kernel
  machine := machine
  pc _ := .user
  io := io
  posted := []
  executed := []

private def initialised : Kernel :=
  ((ticked.after (.semaphoreInit ioTasks 0)).after (.semaphoreInit ioDone 0)).after
    (.semaphoreInit freeIoTasks 1)

private def asleep : Kernel := initialised.after (.semaphoreDown ioTasks)

/-- The I/O task waits for requests; the shell has spawned a task and runs. -/
private def waiting : Kernel := asleep.after (.spawn ⟨1⟩)

private theorem run_waiting : ∃ events,
    calmSystem.Run (IoState.boot booted (fun _ => 0) fun _ => 0) events
      (calm waiting (Machine.boot (fun _ => 0) fun _ => 0).initPcb.initPcb.tick.initPcb .test) := by
  generalize hm : (Machine.boot (fun _ => 0) fun _ => 0).initPcb.initPcb = m
  have hboot : IoState.boot booted (fun _ => 0) (fun _ => 0) = calm booted m .initTasks := by
    rw [← hm]
    rfl
  have hio : ticked.currentRunning = ioProc := by decide +kernel
  have htimer : ioSystem.step (calm booted m .initTasks) .timer
      (calm ticked m.tick .initTasks) := by
    refine ⟨rfl, ?_⟩
    change (booted.irqTimer >>= _) = _
    rw [show booted.irqTimer = .ok ticked from eq_ok_getD (by decide +kernel) booted]
    rfl
  have htasks : ioSystem.step (calm ticked m.tick .initTasks) .io
      (calm (ticked.after (.semaphoreInit ioTasks 0)) m.tick .initDone) := ⟨⟨rfl, hio⟩, rfl⟩
  have hdone : ioSystem.step
      (calm (ticked.after (.semaphoreInit ioTasks 0)) m.tick .initDone) .io
      (calm ((ticked.after (.semaphoreInit ioTasks 0)).after (.semaphoreInit ioDone 0)) m.tick
        .initFree) := ⟨⟨rfl, hio⟩, rfl⟩
  have hfree : ioSystem.step
      (calm ((ticked.after (.semaphoreInit ioTasks 0)).after (.semaphoreInit ioDone 0)) m.tick
        .initFree) .io (calm initialised m.tick .down) := ⟨⟨rfl, hio⟩, rfl⟩
  have hdown : ioSystem.step (calm initialised m.tick .down) .io (calm asleep m.tick .test) := by
    refine ⟨⟨rfl, hio⟩, ?_⟩
    change (initialised.doSemaphoreDown ioTasks >>= _) = _
    rw [show initialised.doSemaphoreDown ioTasks = .ok asleep from
      eq_ok_getD (by decide +kernel) initialised]
    rfl
  have hspawn : ioSystem.step (calm asleep m.tick .test) (.spawn ⟨1⟩)
      (calm waiting m.tick.initPcb .test) := by
    refine ⟨⟨rfl, ?_, le_refl _⟩, ?_⟩
    · change asleep.currentRunning ≠ 0
      decide +kernel
    · change (asleep.initPcb ⟨1⟩ >>= _) = _
      rw [show asleep.initPcb ⟨1⟩ = .ok waiting from eq_ok_getD (by decide +kernel) asleep]
      rfl
  rw [hboot]
  have quiet : ∀ {k m io e s'}, (calm k m io).progress e = .ok (.done m) →
      ioSystem.step (calm k m io) e s' → calmSystem.step (calm k m io) e s' :=
    fun hprogress hstep => ⟨⟨orderly_of_done hprogress, fun _ => rfl⟩, hstep⟩
  exact ⟨_, (((((Lts.Run.single (quiet rfl htimer)).snoc (quiet rfl htasks)).snoc
    (quiet rfl hdone)).snoc (quiet rfl hfree)).snoc (quiet rfl hdown)).snoc (quiet rfl hspawn)⟩

private theorem machine_waiting :
    (Machine.boot (fun _ => 0) fun _ => 0).initPcb.initPcb.tick.initPcb =
      { Machine.boot (fun _ => 0) fun _ => 0 with
        pidList := (slistAlloc (slistAlloc (slistAlloc
          (Machine.boot (fun _ => 0) fun _ => 0).pidList).2).2).2
        timeElapsed := 1 } := by
  have h₀ := boot_paging (fun _ => 0) fun _ => 0
  have h₁ := (initPcb_paging h₀).1
  have h₂ := (initPcb_paging h₁).1
  have htick : Dirs (Machine.boot (fun _ => 0) fun _ => 0).initPcb.initPcb.tick :=
    h₂.dirs.congr rfl rfl rfl
  rw [initPcb_eq htick, initPcb_eq h₁.dirs, initPcb_eq h₀.dirs]
  rfl

private theorem waiting_current : waiting.currentRunning = 1 := by decide +kernel

/-- The shell touches pages until all frames are taken. -/
theorem run_touched (n : Nat) (hn : n ≤ 2048) : ∃ events m,
    calmSystem.Run (IoState.boot booted (fun _ => 0) fun _ => 0) events (calm waiting m .test) ∧
      Touched m 1 n ∧ m.timeElapsed = 1 := by
  induction n with
  | zero =>
      obtain ⟨events, run⟩ := run_waiting
      refine ⟨events, _, run, ?_, ?_⟩
      · rw [machine_waiting]
        refine ⟨slistInit_implements (by decide), fun f hf => absurd hf (by omega),
          ⟨_, slistInit_implements (by decide), by simp [pageTablePoolSlistSize]⟩, ?_, ?_, ?_⟩
        · intro d
          simp [Machine.boot]
        · intro i _ hvalid
          cases hvalid
        · exact fun q d _ => rfl
      · rw [machine_waiting]
  | succ n ih =>
      obtain ⟨events, m, run, htouched, htime⟩ := ih (by omega)
      obtain ⟨m', hbegin, hnext, htime'⟩ := htouched.next (by omega) 0
      have hstep : ioSystem.step (calm waiting m .test) (.fault (n * 0x2000) 0)
          (calm waiting m' .test) := by
        refine ⟨⟨rfl, ?_, by omega, by decide⟩, ?_⟩
        · change waiting.currentRunning ≠ 0
          rw [waiting_current]
          decide
        · have hpc : Function.update (fun _ => SwapPc.user) waiting.currentRunning .user =
              fun _ => .user := Function.update_eq_self _ _
          rw [← waiting_current] at hbegin
          refine (exec_fault_done (calm waiting m .test) hbegin).trans ?_
          rw [IoState.setPc]
          dsimp only [calm, IoState.current]
          rw [hpc]
      have horderly : (IoEvent.fault (n * 0x2000) 0).Orderly (calm waiting m .test) := by
        rw [← waiting_current] at hbegin
        exact orderly_of_done hbegin
      exact ⟨_, m', run.snoc ⟨⟨horderly, fun _ => rfl⟩, hstep⟩, hnext, htime'.trans htime⟩

def blocked : Kernel :=
  (waiting.after (.semaphoreUp ioTasks)).after (.semaphoreDown ioDone)

/-- The shell faults with all frames taken. -/
theorem run_posted : ∃ (events : _) (m₁ : Machine) (pc : SwapPc),
    calmSystem.Run (IoState.boot booted (fun _ => 0) fun _ => 0) events
      ⟨blocked, { m₁.evict.2.2 with ioTask := m₁.evict.2.1 },
        Function.update (fun _ => .user) 1 pc, .test, [(1, m₁.evict.2.1)], []⟩ ∧
    m₁.swapScheduler = 12 ∧
    Implements m₁.pmSlist pmSlistSize [] ∧ (∀ f : Nat, f < 2048 → m₁.pmPid f = 1) ∧
    m₁.timeElapsed = 1 ∧
    (∃ slot rest, Implements m₁.ptPoolSlist pageTablePoolSlistSize ((slot + 1) :: rest)) ∧
    ∀ d, (m₁.pageDir 3 d).valid = false := by
  obtain ⟨events, m, run, htouched, htime⟩ := run_touched 2048 (le_refl _)
  obtain ⟨m₁, htable, hfree, howner, htime₁, ⟨slots, hslots, hlength⟩, hdirs, hentries, hothers⟩ :=
    htouched.pageTable (le_refl _)
  have hsched : m₁.swapScheduler = 12 := by
    unfold swapScheduler getTimer
    rw [htime₁, htime]
    decide
  have hvictim : m₁.evict.1 = 1 := by
    change m₁.pmPid m₁.swapScheduler % 2 ^ 8 = 1
    rw [hsched, howner, htouched.owner 12 (by decide)]
    rfl
  have hentry := hentries 2048 (le_refl _) ((hdirs _).mpr (by decide))
  have hbegin := beginException_invalid (page_dir 2048) (page_table 2048) htable hentry 0
  rw [findFrame_full hfree, hvictim] at hbegin
  generalize SwapPc.swapOut 1 none _ = pc at hbegin
  have hcur : (calm waiting m .test).current = 1 := waiting_current
  have hup : waiting.doSemaphoreUp ioTasks = .ok (waiting.after (.semaphoreUp ioTasks)) :=
    eq_ok_getD (by decide +kernel) waiting
  have hdown : (waiting.after (.semaphoreUp ioTasks)).doSemaphoreDown ioDone = .ok blocked :=
    eq_ok_getD (by decide +kernel) (waiting.after (.semaphoreUp ioTasks))
  have htake : IoState.takeOut waiting 1 = .ok waiting := by
    rw [IoState.takeOut, waiting_current]
    rfl
  have hpost := exec_fault_post (calm waiting m .test) (by rw [hcur]; exact hbegin)
    htake hup hdown
  rw [hcur] at hpost
  have hfault : ioSystem.step (calm waiting m .test) (.fault (2048 * 0x2000) 0) _ :=
    ⟨⟨rfl, by rw [hcur]; decide, by decide, by decide⟩, hpost⟩
  have hcan : (calm waiting m .test).CanPost (some 1) := by
    refine ⟨trivial, ?_, by rw [hcur]; decide, ?_⟩
    · change 0 ≤ (waiting.semaphores ioDone).value
      decide +kernel
    · intro v hv
      cases hv
      exact ⟨by decide, fun ⟨_, hv, _⟩ => nomatch hv⟩
  have horderly : (IoEvent.fault (2048 * 0x2000) 0).Orderly (calm waiting m .test) := by
    intro victim ioTask pc' m' hprogress
    rw [IoState.progress, hcur] at hprogress
    cases hbegin.symm.trans hprogress
    exact hcan
  have run₂ := run.snoc ⟨⟨horderly, fun _ => rfl⟩, hfault⟩
  cases slots with
  | nil => cases hlength
  | cons i rest =>
      obtain ⟨slot, rfl⟩ : ∃ slot, i = slot + 1 := by
        have hpos := ((hslots.mem_iff i).mp (by simp)).1
        exact ⟨i - 1, by omega⟩
      refine ⟨_, m₁, _, run₂, hsched, hfree, ?_, htime₁.trans htime, ⟨slot, rest, hslots⟩,
        fun d => hothers 3 d (by decide)⟩
      intro f hf
      rw [howner]
      exact htouched.owner f hf

/--
In a run whose requests are all posted while no other one is pending, each
request is executed once, in the order of the posts and with the values of its
poster; the poster runs again only after that, and until then the I/O task is
ready to run.
-/
theorem requests_of_run {memory sd : Nat → UInt8} {events : List IoEvent} {s : IoState}
    (run : orderlySystem.Run (IoState.boot booted memory sd) events s) : Delivered s := by
  have hinv : InProtocol s := by
    refine run.invariant (I := InProtocol) ?_ (boot_inProtocol memory sd)
    rintro s event s' h ⟨horderly, henabled, hexec⟩
    exact (h.exec henabled horderly).of_ok hexec
  obtain ⟨L, finished, outstanding, h⟩ := hinv
  exact h.delivered

/-- The first request of a run, which the I/O task is about to serve. -/
theorem requests_first : ∃ events s,
    orderlySystem.Run (IoState.boot booted (fun _ => 0) fun _ => 0) events s ∧
      s.posted.length = 1 ∧ s.executed = [] ∧ Delivered s := by
  obtain ⟨events, m, pc, run, -⟩ := run_posted
  have run' := run.restrict_mono fun _ _ h => h.1
  exact ⟨_, _, run', rfl, rfl, requests_of_run run'⟩

/-! ## The overwritten request -/

/-- The I/O task has been preempted before it has read the request, and the new task runs. -/
def preempted : Kernel := blocked.after .timer

def interrupted (m₁ : Machine) (pc : SwapPc) : IoState where
  kernel := preempted
  machine := { m₁.evict.2.2 with ioTask := m₁.evict.2.1 }.tick
  pc := Function.update (fun _ => .user) 1 pc
  io := .test
  posted := [(1, m₁.evict.2.1)]
  executed := []

private theorem preempted_current : preempted.currentRunning = 3 := by decide +kernel

private theorem run_interrupted : ∃ (events : _) (m₁ : Machine) (pc : SwapPc),
    ioSystem.Run (IoState.boot booted (fun _ => 0) fun _ => 0) events (interrupted m₁ pc) ∧
    m₁.swapScheduler = 12 ∧
    Implements (interrupted m₁ pc).machine.pmSlist pmSlistSize [12 + 1] ∧
    (∀ f : Nat, f < 2048 → m₁.pmPid f = 1) ∧ m₁.timeElapsed = 1 ∧
    (∃ slot rest, Implements m₁.ptPoolSlist pageTablePoolSlistSize ((slot + 1) :: rest)) ∧
    (m₁.pageDir 3 0).valid = false := by
  obtain ⟨events, m₁, pc, run, hsched, hfull, howner, htime, hslots, hdirs⟩ := run_posted
  have hpc₁ : Function.update (fun _ => SwapPc.user) 1 pc blocked.currentRunning = .user :=
    Function.update_of_ne (by decide +kernel) _ _
  have htimer : ioSystem.step
      ⟨blocked, { m₁.evict.2.2 with ioTask := m₁.evict.2.1 },
        Function.update (fun _ => .user) 1 pc, .test, [(1, m₁.evict.2.1)], []⟩ .timer
      (interrupted m₁ pc) := by
    refine ⟨hpc₁, ?_⟩
    change (blocked.irqTimer >>= _) = _
    rw [show blocked.irqTimer = .ok preempted from eq_ok_getD (by decide +kernel) blocked]
    rfl
  have hframe : Allocated m₁.pmSlist pmSlistSize (m₁.swapScheduler + 1) :=
    hfull.allocated_of_nil (by omega) (by rw [hsched]; decide)
  refine ⟨_, m₁, pc, run.unrestrict.snoc htimer, hsched, ?_, howner, htime, hslots, hdirs 0⟩
  have hfreed := (slistFree_allocated hfull hframe).2.1
  rw [← hsched]
  exact hfreed

/-- The new task gets the frame that the shell has made free. -/
theorem run_handed : ∃ (events : _) (m₁ m₃ : Machine) (pc : SwapPc),
    ioSystem.Run (IoState.boot booted (fun _ => 0) fun _ => 0) events (interrupted m₁ pc) ∧
    ioSystem.step (interrupted m₁ pc) (.fault 0 0)
      ({ interrupted m₁ pc with machine := m₃ }.setPc 3 .user) ∧
    m₁.swapScheduler = 12 ∧ m₃.swapScheduler = 22 ∧ m₃.evict.1 = 1 ∧
    Implements (interrupted m₁ pc).machine.pmSlist pmSlistSize [12 + 1] ∧
    Implements m₃.pmSlist pmSlistSize [] ∧
    ∃ slot, m₃.pageDir 3 0 = ⟨slot, true⟩ ∧ (m₃.pageTablePool slot 1).valid = false := by
  obtain ⟨events, m₁, pc, run, hsched, hfree, howner, htime, ⟨slot, rest, hslots⟩, hdir₀⟩ :=
    run_interrupted
  have hcur : (interrupted m₁ pc).current = 3 := preempted_current
  generalize hm₂ : (interrupted m₁ pc).machine = m₂ at hfree
  have htable : m₂.pageTableOf 3 0 = .ok (slot, newTable m₂ 3 0 slot) := by
    rw [← hm₂]
    exact pageTableOf_new hdir₀ hslots
  have hentry : ((newTable m₂ 3 0 slot).pageTablePool slot 0).valid = false := by
    simp [newTable, pageTableInit, pteNumber]
  have hfree₂ : Implements (newTable m₂ 3 0 slot).pmSlist pmSlistSize [12 + 1] := hfree
  have hbegin₂ := beginException_invalid (show 0 >>> 22 = 0 from rfl) rfl htable hentry 0
  rw [findFrame_free hfree₂] at hbegin₂
  obtain ⟨m₃, hbegin, hm₃⟩ : ∃ m₃, m₂.beginException 3 0 0 = .ok (.done m₃) ∧
      Progress.done m₃ = (newTable m₂ 3 0 slot).pmAlloc.2.useFrame 3 _ none 12 0 :=
    ⟨_, hbegin₂, rfl⟩
  have hdone := exec_fault_done (interrupted m₁ pc) (by rw [hcur, hm₂]; exact hbegin)
  rw [hcur] at hdone
  have hpc : (interrupted m₁ pc).pc 3 = .user := by simp [interrupted]
  have hfault : ioSystem.step (interrupted m₁ pc) (.fault 0 0)
      ({ interrupted m₁ pc with machine := m₃ }.setPc 3 .user) :=
    ⟨⟨by rw [hcur]; exact hpc, by rw [hcur]; decide, by decide, by decide⟩, hdone⟩
  have hsched₃ : m₃.swapScheduler = 22 := by
    cases hm₃
    change 2 + (m₂.timeElapsed * 10).toNat % (pmSlistSize - 3) = 22
    rw [← hm₂]
    change 2 + ((m₁.timeElapsed + 1) * 10).toNat % (pmSlistSize - 3) = 22
    rw [htime]
    decide
  refine ⟨events, m₁, m₃, pc, run, hfault, hsched, hsched₃, ?_, by rw [hm₂]; exact hfree, ?_,
    slot, ?_, ?_⟩
  · change m₃.pmPid m₃.swapScheduler % 2 ^ 8 = 1
    rw [hsched₃]
    cases hm₃
    change Function.update m₂.pmPid 12 3 22 % 2 ^ 8 = 1
    rw [Function.update_of_ne (by decide), ← hm₂]
    change m₁.pmPid (22 : Nat) % 2 ^ 8 = 1
    rw [howner 22 (by decide)]
    rfl
  · cases hm₃
    exact (slistAlloc_cons hfree₂).2.1
  · cases hm₃
    change (newTable m₂ 3 0 slot).pageDir 3 0 = _
    simp [newTable]
  · cases hm₃
    change (Function.update (newTable m₂ 3 0 slot).pageTablePool slot
      (Function.update ((newTable m₂ 3 0 slot).pageTablePool slot) 0 _) slot 1).valid = false
    rw [Function.update_self, Function.update_of_ne (by decide)]
    simp [newTable, pageTableInit, pteNumber]

private def taken : Kernel := (IoState.takeOut preempted 1).toOption.getD preempted

private def overwritten : Kernel :=
  (taken.after (.semaphoreUp ioTasks)).after (.semaphoreDown ioDone)

/-- The new task faults again before the I/O task has read the request of the shell. -/
private theorem run_overwritten : ∃ (events : _) (m₁ m₃ : Machine) (pc pc' : SwapPc),
    ioSystem.Run (IoState.boot booted (fun _ => 0) fun _ => 0) events
      ⟨overwritten, { m₃.evict.2.2 with ioTask := m₃.evict.2.1 },
        Function.update (Function.update (Function.update (fun _ => .user) 1 pc) 3 .user) 3 pc',
        .test, [(1, m₁.evict.2.1), (3, m₃.evict.2.1)], []⟩ ∧
    m₁.swapScheduler = 12 ∧ m₃.swapScheduler = 22 := by
  obtain ⟨events, m₁, m₃, pc, run, hfault₂, hsched, hsched₃, hvictim, -, hfree₃, slot, hdir,
    hentry₃⟩ := run_handed
  have htable₃ := pageTableOf_old (m := m₃) (p := 3) (d := 0) (by rw [hdir])
  rw [hdir] at htable₃
  have hbegin₃ := beginException_invalid (show 0x2000 >>> 22 = 0 from rfl) rfl htable₃ hentry₃ 0
  rw [findFrame_full hfree₃, hvictim] at hbegin₃
  generalize SwapPc.swapOut 1 none _ = pc' at hbegin₃
  let s₃ : IoState := { interrupted m₁ pc with machine := m₃ }.setPc 3 .user
  have hcur₃ : s₃.current = 3 := preempted_current
  have htake : IoState.takeOut preempted 1 = .ok taken :=
    eq_ok_getD (by decide +kernel) preempted
  have hup : taken.doSemaphoreUp ioTasks = .ok (taken.after (.semaphoreUp ioTasks)) :=
    eq_ok_getD (by decide +kernel) taken
  have hdown : (taken.after (.semaphoreUp ioTasks)).doSemaphoreDown ioDone = .ok overwritten :=
    eq_ok_getD (by decide +kernel) (taken.after (.semaphoreUp ioTasks))
  have hpost := exec_fault_post s₃ (by rw [hcur₃]; exact hbegin₃) htake hup hdown
  rw [hcur₃] at hpost
  have hpc₃ : s₃.pc 3 = .user := by simp [s₃, IoState.setPc]
  have hfault₃ : ioSystem.step s₃ (.fault 0x2000 0) _ :=
    ⟨⟨by rw [hcur₃]; exact hpc₃, by rw [hcur₃]; decide, by decide, by decide⟩, hpost⟩
  exact ⟨_, m₁, m₃, pc, pc', (run.snoc hfault₂).snoc hfault₃, hsched, hsched₃⟩

/-- The I/O task serves the request of the second poster. -/
private def racing (pcs : Pid → SwapPc) (m₁ m₃ m : Machine) (io : IoPc) (executed : List IoTask) :
    IoState :=
  ⟨overwritten, m, pcs, io, [(1, m₁.evict.2.1), (3, m₃.evict.2.1)], executed⟩

/-- Two tasks post requests before the I/O task runs: that of the first is lost. -/
theorem requests_lost : ∃ events s,
    ioSystem.Run (IoState.boot booted (fun _ => 0) fun _ => 0) events s ∧ ¬ Delivered s := by
  obtain ⟨events, m₁, m₃, pc, pc', run, hsched₁, hsched₃⟩ := run_overwritten
  have hcur : overwritten.currentRunning = ioProc := by decide +kernel
  generalize hpcs : Function.update (Function.update (Function.update (fun _ => SwapPc.user) 1 pc)
    3 .user) 3 pc' = pcs at run
  have hpc : pcs ioProc = .user := by
    rw [← hpcs, Function.update_of_ne (by decide), Function.update_of_ne (by decide),
      Function.update_of_ne (by decide)]
  have hio : pcs overwritten.currentRunning = .user ∧ overwritten.currentRunning = ioProc :=
    ⟨by rw [hcur]; exact hpc, hcur⟩
  have hstep : ∀ {m m' io io' ex ex'},
      (racing pcs m₁ m₃ m io ex).swIoProc = .ok (racing pcs m₁ m₃ m' io' ex') →
      ioSystem.step (racing pcs m₁ m₃ m io ex) .io (racing pcs m₁ m₃ m' io' ex') :=
    fun h => ⟨hio, h⟩
  have run' := ((((Lts.Run.snoc (t := racing pcs m₁ m₃ _ _ _) run (hstep rfl)).snoc
    (hstep rfl)).snoc (hstep rfl)).snoc (hstep rfl)).snoc (hstep rfl)
  refine ⟨_, _, run', fun h => ?_⟩
  have hprefix : [m₃.evict.2.1] <+: [m₁.evict.2.1, m₃.evict.2.1] := h.executed
  have hsame : m₃.evict.2.1.buffer = m₁.evict.2.1.buffer := by
    rw [(List.cons_prefix_cons.mp hprefix).1]
  change kernelAddress (physicalAddress m₃.swapScheduler) =
    kernelAddress (physicalAddress m₁.swapScheduler) at hsame
  rw [hsched₁, hsched₃] at hsame
  exact absurd hsame (by decide)

end UcasOs.Mm

import UcasOs.Mm.Requests

/-!
# Frames between eviction and use

`swap_out` frees the frame before its content is written, and `swap_in` names
the owner of a frame only after the content is read.  Nothing reserves these
frames.  If no other exception takes or evicts one of them in the meantime, every
present page has a frame of its own.
-/

namespace UcasOs.Mm

open UcasOs.Foundation UcasOs.Libs UcasOs.Sched Machine

/-- A task is reading a page into the frame. -/
def InTransit (pc : Pid → SwapPc) (f : Nat) : Prop :=
  ∃ p address x, pc p = .swapIn address f x

/-- The exception of a task that is stopped, with the unit of the page if it has one. -/
def SwapPc.exception : SwapPc → Option (Option Nat × TlbException)
  | .user => none
  | .swapOut _ address x => some (address, x)
  | .swapIn address _ x => some (some address, x)

variable {m m' : Machine} {pc : Pid → SwapPc} {p q : Pid} {x : TlbException} {f : Nat}
  {address : Option Nat} {r : Option Nat} {free : List Nat}

/-! ## Exceptions that are stopped -/

/-- An exception about a page that is not in memory. -/
structure Stopped (m : Machine) (p : Pid) (address : Option Nat) (x : TlbException) : Prop where
  live : Allocated m.pidList maxTaskNum p
  va : x.badvaddr < 2 ^ 31
  dir : m.pageDir p (x.badvaddr >>> 22) = ⟨x.poolNum, true⟩
  table : x.pageTableNum = (x.badvaddr >>> 13) &&& 0x1ff
  out : ∀ pte, m.look (pageOf p x.badvaddr) = some pte → pte.present = false
  swapped : address.isSome = true → ∃ pte, m.look (pageOf p x.badvaddr) = some pte

theorem Stopped.congr (h : Stopped m p address x)
    (hlive : Allocated m.pidList maxTaskNum p → Allocated m'.pidList maxTaskNum p)
    (hdir : ∀ d, (m.pageDir p d).valid = true → m'.pageDir p d = m.pageDir p d)
    (hlook : m'.look (pageOf p x.badvaddr) = m.look (pageOf p x.badvaddr)) :
    Stopped m' p address x := by
  refine ⟨hlive h.live, h.va, ?_, h.table, ?_, ?_⟩
  · rw [hdir _ (by rw [h.dir]), h.dir]
  · rw [hlook]
    exact h.out
  · rw [hlook]
    exact h.swapped

/-- A write to the entry of the page. -/
theorem Stopped.look_modifyPte (h : Stopped m p address x) (hdirs : Dirs m) {g : Pte → Pte}
    (hg : (g (m.pageTablePool x.poolNum x.pageTableNum)).valid = true) :
    (m.modifyPte x.poolNum x.pageTableNum g).look =
      Function.update m.look (pageOf p x.badvaddr)
        (some (g (m.pageTablePool x.poolNum x.pageTableNum))) := by
  have hdir := h.dir
  have hvalid : (m.pageDir p (x.badvaddr >>> 22)).valid = true := by rw [hdir]
  have hmodify := hdirs.look_modifyPte (f := g) hvalid (pageOf_table_lt p x.badvaddr)
    (by
      rw [hdir]
      rw [h.table] at hg
      exact hg)
  rw [hdir] at hmodify
  rw [h.table]
  exact hmodify

/-- The entry of a page that was swapped out is valid. -/
theorem Stopped.entry_valid (h : Stopped m p address x) (hsome : address.isSome = true) :
    (m.pageTablePool x.poolNum x.pageTableNum).valid = true := by
  obtain ⟨pte, hlook⟩ := h.swapped hsome
  obtain ⟨-, -, hvalid, hcell⟩ := Machine.look_eq_some.mp hlook
  change m.pageTablePool (m.pageDir p (x.badvaddr >>> 22)).poolNum _ = pte at hcell
  rw [h.dir] at hcell
  rw [h.table]
  exact (congrArg Pte.valid hcell).trans hvalid

/-! ## Frames in the hands of tasks -/

/--
The page tables agree with the frames, except for those that tasks are reading
pages into and the frame `r` that the running task has just taken.
-/
structure Shared (m : Machine) (pc : Pid → SwapPc) (r : Option Nat) : Prop where
  dirs : Dirs m
  frames : HeldFrames m.look m.pmSlist m.owner fun g => r = some g ∨ InTransit pc g
  fresh : ∀ f, r = some f → ¬ InTransit pc f
  index : ∀ {p address x} {i : Int}, pc p = .swapIn address i x → ∃ f : Nat, i = f
  apart : ∀ {p q address address' x x'} {i : Int}, pc p = .swapIn address i x →
    pc q = .swapIn address' i x' → p = q
  stopped : ∀ {p address x}, (pc p).exception = some (address, x) → Stopped m p address x

/-- What is not about page tables and frames may change. -/
theorem Shared.congr (h : Shared m pc r) (hdirs : Dirs m') (hlook : m'.look = m.look)
    (hpm : m'.pmSlist = m.pmSlist) (howner : m'.owner = m.owner)
    (hlive : ∀ p, Allocated m.pidList maxTaskNum p → Allocated m'.pidList maxTaskNum p)
    (hdir : ∀ p d, (m.pageDir p d).valid = true → m'.pageDir p d = m.pageDir p d) :
    Shared m' pc r := by
  refine ⟨hdirs, ?_, h.fresh, h.index, h.apart, ?_⟩
  · rw [hlook, hpm, howner]
    exact h.frames
  · intro p address x hp
    exact (h.stopped hp).congr (hlive p) (hdir p) (by rw [hlook])

theorem Shared.fillTlb (h : Shared m pc r) (poolNum pageTableNum entryHi : Nat)
    (isTlbRefill : Bool) (random : Nat) :
    Shared (m.fillTlb poolNum pageTableNum entryHi isTlbRefill random) pc r :=
  h.congr (h.dirs.congr rfl rfl rfl) rfl rfl rfl (fun _ => id) fun _ _ _ => rfl

theorem Shared.alloc (h : Shared m pc none)
    (hfree : Implements m.pmSlist pmSlistSize ((f + 1) :: free)) :
    m.pmAlloc.1 = f ∧ Shared m.pmAlloc.2 pc (some f) ∧
      Implements m.pmAlloc.2.pmSlist pmSlistSize free := by
  obtain ⟨hindex, himpl, -, -, -⟩ := slistAlloc_cons hfree
  have hfresh : ¬ InTransit pc f := fun hf =>
    hfree.not_allocated (by simp) (h.frames.reserved (.inr hf))
  refine ⟨?_, ⟨h.dirs.congr rfl rfl rfl, ?_, ?_, h.index, h.apart, ?_⟩, himpl⟩
  · change ((slistAlloc m.pmSlist).1 : Int) - 1 = f
    omega
  · refine (h.frames.alloc hfree).congr fun g => ?_
    simp [eq_comm]
  · rintro g rfl'
    cases rfl'
    exact hfresh
  · intro p address x hp
    exact (h.stopped hp).congr id (fun _ _ => rfl) rfl

/-- A page comes into the frame that the running task has taken. -/
theorem Shared.place (h : Shared m pc (some f)) (hp : pc p = .user) (hx : Stopped m p address x)
    (hdirs : Dirs m') (hpids : m'.pidList = m.pidList) (hdir : m'.pageDir = m.pageDir)
    (hpm : m'.pmSlist = m.pmSlist)
    (howner : m'.owner = Function.update m.owner f (pageOf p x.badvaddr))
    (hlook : m'.look = Function.update m.look (pageOf p x.badvaddr)
      (some ⟨frameNumber f, true, true⟩)) : Shared m' pc none := by
  refine ⟨hdirs, ?_, by simp, h.index, h.apart, ?_⟩
  · rw [hlook, hpm, howner]
    refine (h.frames.place (.inl rfl) hx.out).congr fun g => ?_
    simp only [reduceCtorEq, false_or, Option.some.injEq]
    constructor
    · intro hg
      exact ⟨.inr hg, fun he => h.fresh f rfl (he ▸ hg)⟩
    · rintro ⟨rfl | hg, hne⟩
      · exact absurd rfl hne
      · exact hg
  · intro q address' x' hq
    have hne : q ≠ p := by
      rintro rfl
      rw [hp] at hq
      cases hq
    refine (h.stopped hq).congr (by rw [hpids]; exact id) (fun _ _ => by rw [hdir]) ?_
    rw [hlook, Function.update_of_ne]
    intro he
    exact hne (congrArg Page.pid he)

theorem Shared.mapFrame (h : Shared m pc (some f)) (hp : pc p = .user)
    (hx : Stopped m p address x) :
    Shared (m.mapFrame p x.poolNum x.pageTableNum x.badvaddr f) pc none := by
  refine h.place hp hx (h.dirs.congr rfl rfl rfl) rfl rfl rfl (stamp_owner hx.va) ?_
  exact (Machine.look_congr rfl rfl).trans
    (hx.look_modifyPte h.dirs (g := fun _ => ⟨frameNumber f, true, true⟩) rfl)

theorem Shared.swapInEnd (h : Shared m pc (some f)) (hp : pc p = .user)
    (hx : Stopped m p address x) (hsome : address.isSome = true) (unit : Nat) :
    Shared (m.swapInEnd p x.poolNum x.pageTableNum x.badvaddr unit f) pc none := by
  have hvalid := hx.entry_valid hsome
  refine h.place hp hx (h.dirs.congr rfl rfl rfl) rfl rfl rfl (stamp_owner hx.va) ?_
  refine (Machine.look_congr rfl rfl).trans ((hx.look_modifyPte h.dirs
    (g := fun pte => { pte with addr := frameNumber f, present := true }) hvalid).trans ?_)
  rw [hvalid]

/-- The chosen frame is given up, with the page that was in it. -/
theorem Shared.evict (h : Shared m pc none) (hfull : Implements m.pmSlist pmSlistSize [])
    (hspared : ¬ InTransit pc m.swapScheduler) :
    Shared m.evict.2.2 pc none ∧
      Implements m.evict.2.2.pmSlist pmSlistSize [m.swapScheduler + 1] ∧
      ∀ q address x, Stopped m q address x → Stopped m.evict.2.2 q address x := by
  have hlt := swapScheduler_lt m
  have hframe : Allocated m.pmSlist pmSlistSize (m.swapScheduler + 1) :=
    hfull.allocated_of_nil (by omega) (by unfold pmSlistSize; omega)
  have hnot : ¬ ((none : Option Nat) = some m.swapScheduler ∨ InTransit pc m.swapScheduler) := by
    simpa using hspared
  obtain ⟨pte, hlook, hpresent, -⟩ := h.frames.owned hframe hnot
  obtain ⟨out, hout, hevict⟩ := evict_out h.dirs hlook
  have hstopped : ∀ q address x, Stopped m q address x → Stopped m.evict.2.2 q address x := by
    intro q address x hx
    have hne : pageOf q x.badvaddr ≠ m.owner m.swapScheduler := by
      intro he
      rw [← he] at hlook
      rw [hx.out pte hlook] at hpresent
      cases hpresent
    exact hx.congr id (fun _ _ => rfl) (by rw [hevict, Function.update_of_ne hne])
  refine ⟨⟨h.dirs.congr rfl rfl rfl, ?_, by simp, h.index, h.apart, fun hq => ?_⟩,
    (slistFree_allocated hfull hframe).2.1, hstopped⟩
  · rw [hevict]
    exact h.frames.evict hframe hnot hout
  · exact hstopped _ _ _ (h.stopped hq)

/-! ## Tasks stop and go on -/

theorem inTransit_update {new : SwapPc} (hp : ∀ address i x, pc p ≠ .swapIn address i x) :
    InTransit (Function.update pc p new) f ↔
      (∃ address x, new = .swapIn address f x) ∨ InTransit pc f := by
  constructor
  · rintro ⟨q, address, x, hq⟩
    by_cases hqp : q = p
    · rw [hqp, Function.update_self] at hq
      exact .inl ⟨address, x, hq⟩
    · rw [Function.update_of_ne hqp] at hq
      exact .inr ⟨q, address, x, hq⟩
  · rintro (⟨address, x, rfl⟩ | ⟨q, address, x, hq⟩)
    · exact ⟨p, address, x, Function.update_self _ _ _⟩
    · refine ⟨q, address, x, ?_⟩
      rw [Function.update_of_ne, hq]
      rintro rfl
      exact hp _ _ _ hq

/-- A task that reads no page into a frame stops or goes on somewhere else. -/
theorem Shared.setPc (h : Shared m pc r) {new : SwapPc}
    (hp : ∀ address i x, pc p ≠ .swapIn address i x)
    (hnew : ∀ address i x, new ≠ .swapIn address i x)
    (hx : ∀ address x, new.exception = some (address, x) → Stopped m p address x) :
    Shared m (Function.update pc p new) r := by
  have htransit : ∀ g, InTransit (Function.update pc p new) g ↔ InTransit pc g := by
    intro g
    rw [inTransit_update hp]
    exact or_iff_right fun ⟨_, _, he⟩ => hnew _ _ _ he
  have hold : ∀ {q address x i}, Function.update pc p new q = .swapIn address i x →
      pc q = .swapIn address i x := by
    intro q address x i hq
    by_cases hqp : q = p
    · rw [hqp, Function.update_self] at hq
      exact absurd hq (hnew _ _ _)
    · rwa [Function.update_of_ne hqp] at hq
  refine ⟨h.dirs, ?_, fun g hg => ?_, fun hq => h.index (hold hq),
    fun hq hq' => h.apart (hold hq) (hold hq'), ?_⟩
  · refine h.frames.congr fun g => ?_
    rw [htransit]
  · rw [htransit]
    exact h.fresh g hg
  · intro q address x hq
    by_cases hqp : q = p
    · rw [hqp, Function.update_self] at hq
      exact hqp ▸ hx address x hq
    · rw [Function.update_of_ne hqp] at hq
      exact h.stopped hq

/-- The running task keeps its frame while the page is read. -/
theorem Shared.keep (h : Shared m pc (some f)) (hp : pc p = .user) {unit : Nat}
    (hx : Stopped m p (some unit) x) :
    Shared m (Function.update pc p (.swapIn unit f x)) none := by
  have htransit : ∀ g, InTransit (Function.update pc p (.swapIn unit f x)) g ↔
      f = g ∨ InTransit pc g := by
    intro g
    rw [inTransit_update (by simp [hp])]
    simp
  have hself : ∀ {q address x'}, pc q = .swapIn address f x' → False :=
    fun hq => h.fresh f rfl ⟨_, _, _, hq⟩
  refine ⟨h.dirs, ?_, by simp, ?_, ?_, ?_⟩
  · refine h.frames.congr fun g => ?_
    rw [htransit]
    simp
  · intro q address x' i hq
    by_cases hqp : q = p
    · rw [hqp, Function.update_self] at hq
      cases hq
      exact ⟨f, rfl⟩
    · rw [Function.update_of_ne hqp] at hq
      exact h.index hq
  · intro q q' address address' x₁ x₂ i hq hq'
    by_cases hqp : q = p <;> by_cases hqp' : q' = p
    · exact hqp.trans hqp'.symm
    · rw [hqp, Function.update_self] at hq
      rw [Function.update_of_ne hqp'] at hq'
      cases hq
      exact (hself hq').elim
    · rw [hqp', Function.update_self] at hq'
      rw [Function.update_of_ne hqp] at hq
      cases hq'
      exact (hself hq).elim
    · rw [Function.update_of_ne hqp] at hq
      rw [Function.update_of_ne hqp'] at hq'
      exact h.apart hq hq'
  · intro q address x' hq
    by_cases hqp : q = p
    · rw [hqp, Function.update_self] at hq
      cases hq
      exact hqp ▸ hx
    · rw [Function.update_of_ne hqp] at hq
      exact h.stopped hq

/-- The task whose page has been read goes on with its frame. -/
theorem Shared.release (h : Shared m pc none) {unit : Nat} (hp : pc p = .swapIn unit f x) :
    Shared m (Function.update pc p .user) (some f) := by
  have hold : ∀ {q new}, new ≠ .user → Function.update pc p .user q = new →
      q ≠ p ∧ pc q = new := by
    intro q new hnew hq
    by_cases hqp : q = p
    · rw [hqp, Function.update_self] at hq
      exact absurd hq.symm hnew
    · rw [Function.update_of_ne hqp] at hq
      exact ⟨hqp, hq⟩
  have hne : ¬ InTransit (Function.update pc p .user) f := by
    rintro ⟨q, address, x', hq⟩
    obtain ⟨hqp, hq⟩ := hold (by simp) hq
    exact hqp (h.apart hq hp)
  refine ⟨h.dirs, ?_, ?_, ?_, ?_, ?_⟩
  · refine h.frames.congr fun g => ?_
    simp only [Option.some.injEq, reduceCtorEq, false_or]
    constructor
    · rintro (rfl | ⟨q, address, x', hq⟩)
      · exact ⟨p, unit, x, hp⟩
      · exact ⟨q, address, x', (hold (by simp) hq).2⟩
    · rintro ⟨q, address, x', hq⟩
      by_cases hqp : q = p
      · rw [hqp, hp] at hq
        cases hq
        exact .inl rfl
      · refine .inr ⟨q, address, x', ?_⟩
        rw [Function.update_of_ne hqp, hq]
  · rintro g he
    cases he
    exact hne
  · exact fun hq => h.index (hold (by simp) hq).2
  · exact fun hq hq' => h.apart (hold (by simp) hq).2 (hold (by simp) hq').2
  · intro q address x' hq
    have hqp : q ≠ p := by
      rintro rfl
      rw [Function.update_self] at hq
      cases hq
    rw [Function.update_of_ne hqp] at hq
    exact h.stopped hq

/-! ## Exceptions -/

/--
What an exception of `p` leaves: only an eviction posts a write, and it leaves
nothing free but the frame that it has evicted.
-/
def Progress.Shares (pc : Pid → SwapPc) (p : Pid) : Progress → Prop
  | .done m => Shared m pc none
  | .post _ ioTask new m =>
      Shared m (Function.update pc p new) none ∧ (ioTask.type = .write → new.victim ≠ none) ∧
        (new.victim ≠ none → ∃ f, Implements m.pmSlist pmSlistSize [f + 1])

theorem useFrame_shares (h : Shared m pc (some f)) (hp : pc p = .user)
    (hx : Stopped m p address x) (random : Nat) :
    (m.useFrame p x address f random).Shares pc p := by
  cases address with
  | none => exact (h.mapFrame hp hx).fillTlb _ _ _ _ _
  | some unit => exact ⟨h.keep hp hx, nofun, fun hv => absurd rfl hv⟩

/-- The index that `pm_alloc` takes from a free list is a frame. -/
theorem exists_frame {i : Nat} (hfree : Implements m.pmSlist pmSlistSize (i :: free)) :
    ∃ f, i = f + 1 := by
  have hpos := ((hfree.mem_iff i).mp (by simp)).1
  exact ⟨i - 1, by omega⟩

theorem slistIsInsufficient_nil (hfull : Implements m.pmSlist pmSlistSize []) :
    slistIsInsufficient m.pmSlist = true := by
  have hcursor : (m.pmSlist 0).cursor = 0 := hfull.chain
  simp [slistIsInsufficient, hcursor]

theorem findFrame_shares (h : Shared m pc none) (hp : pc p = .user) (hx : Stopped m p address x)
    (hspared : slistIsInsufficient m.pmSlist = true → ¬ InTransit pc m.swapScheduler)
    (random : Nat) : (m.findFrame p x address random).Shares pc p := by
  obtain ⟨free, hfree⟩ := h.frames.impl
  cases free with
  | nil =>
      obtain ⟨hevict, hone, hstopped⟩ := h.evict hfree (hspared (slistIsInsufficient_nil hfree))
      rw [findFrame_full hfree]
      refine ⟨hevict.setPc (by simp [hp]) (by simp) ?_, by simp [SwapPc.victim],
        fun _ => ⟨_, hone⟩⟩
      intro address' x' he
      cases he
      exact hstopped p address x hx
  | cons i free =>
      obtain ⟨f, rfl⟩ := exists_frame hfree
      obtain ⟨-, halloc, -⟩ := h.alloc hfree
      rw [findFrame_free hfree]
      exact useFrame_shares halloc hp (hx.congr id (fun _ _ => rfl) rfl) random

theorem beginException_shares (h : Shared m pc none) (hp : pc p = .user)
    (hlive : Allocated m.pidList maxTaskNum p) {va : Nat} (hva : va < 2 ^ 31)
    (hspared : (∀ pte, m.look (pageOf p va) = some pte → pte.present = false) →
      slistIsInsufficient m.pmSlist = true → ¬ InTransit pc m.swapScheduler) (random : Nat) :
    Meets IsPanic
      (fun progress => progress.Shares pc p ∧
        ((∀ pte, m.look (pageOf p va) = some pte → pte.present = false) ∨
          ∃ m', progress = .done m' ∧ m'.pmSlist = m.pmSlist))
      (m.beginException p va random) := by
  have hd : va >>> 22 < pdeNumber := (pageOf_dir_lt_iff p).mpr hva
  unfold beginException
  dsimp only
  refine (pageTableOf_dirs h.dirs hlive hd).bind ?_
  rintro ⟨poolNum, m₁⟩ ⟨hdirs, hdir, hlook, hkept, ptPoolSlist, pageTablePool, pageDir, hm₁⟩
  dsimp only at hdirs hdir hlook hkept hm₁ ⊢
  have hpm : m₁.pmSlist = m.pmSlist := by rw [hm₁]
  have hsched : m₁.swapScheduler = m.swapScheduler := by rw [hm₁]; rfl
  have hpids : m₁.pidList = m.pidList := by rw [hm₁]
  have hshared : Shared m₁ pc none := by
    refine h.congr hdirs hlook hpm ?_ (fun _ => ?_) hkept
    · rw [hm₁]
      rfl
    · rw [hpids]
      exact id
  have hcell : ∀ {pte}, m₁.pageTablePool poolNum ((va >>> 13) &&& 0x1ff) = pte →
      pte.valid = true → m.look (pageOf p va) = some pte := by
    intro pte hpte hvalid
    rw [← hlook, Machine.look_eq_some]
    refine ⟨?_, pageOf_table_lt p va, hvalid, ?_⟩
    · change (m₁.pageDir p (va >>> 22)).valid = true
      rw [hdir]
    · change m₁.pageTablePool (m₁.pageDir p (va >>> 22)).poolNum _ = pte
      rw [hdir]
      exact hpte
  have hfind : ∀ address, (∀ pte, m.look (pageOf p va) = some pte → pte.present = false) →
      (address.isSome = true → ∃ pte, m.look (pageOf p va) = some pte) →
      (m₁.findFrame p ⟨va, entryHiOf p va, (tlbp m.tlb (entryHiOf p va)).isNone, poolNum,
        (va >>> 13) &&& 0x1ff⟩ address random).Shares pc p := by
    intro address hout hswapped
    have hx : Stopped m₁ p address ⟨va, entryHiOf p va, (tlbp m.tlb (entryHiOf p va)).isNone,
        poolNum, (va >>> 13) &&& 0x1ff⟩ := by
      refine ⟨?_, hva, hdir, rfl, ?_, ?_⟩
      · rw [hpids]
        exact hlive
      · rw [hlook]
        exact hout
      · rw [hlook]
        exact hswapped
    refine findFrame_shares hshared hp hx ?_ random
    rw [hpm, hsched]
    exact hspared hout
  split
  · rename_i hvalid
    have hpte := hcell rfl hvalid
    split
    · exact ⟨hshared.fillTlb _ _ _ _ _, .inr ⟨_, rfl, hpm⟩⟩
    · rename_i hpresent
      have hout : ∀ pte, m.look (pageOf p va) = some pte → pte.present = false := by
        intro pte hpte'
        rw [hpte] at hpte'
        cases hpte'
        simpa using hpresent
      exact ⟨hfind _ hout fun _ => ⟨_, hpte⟩, .inl hout⟩
  · rename_i hinvalid
    have hout : ∀ pte, m.look (pageOf p va) = some pte → pte.present = false := by
      intro pte hpte
      rw [← hlook] at hpte
      obtain ⟨-, -, hvalid, he⟩ := Machine.look_eq_some.mp hpte
      change m₁.pageTablePool (m₁.pageDir p (va >>> 22)).poolNum _ = pte at he
      rw [hdir] at he
      exact absurd ((congrArg Pte.valid he).trans hvalid) hinvalid
    exact ⟨hfind none hout (by simp), .inl hout⟩

/-- The exception goes on after its request. -/
theorem continueException_shares (h : Shared m pc none) (random : Nat) (hpc : pc p ≠ .user)
    (hone : (pc p).victim ≠ none → ∃ f, Implements m.pmSlist pmSlistSize [f + 1]) :
    (m.continueException p random (pc p)).Shares (Function.update pc p .user) p ∧
      ((pc p).victim ≠ none ∨
        ∃ m', m.continueException p random (pc p) = .done m' ∧ m'.pmSlist = m.pmSlist) := by
  have huser : Function.update pc p .user p = .user := Function.update_self _ _ _
  cases hp : pc p with
  | user => exact absurd hp hpc
  | swapOut v address x =>
      obtain ⟨f, hfree⟩ := hone (by simp [hp, SwapPc.victim])
      have hx : Stopped m p address x := h.stopped (by rw [hp]; rfl)
      have hleft : Shared m (Function.update pc p .user) none :=
        h.setPc (by simp [hp]) (by simp) nofun
      obtain ⟨hindex, halloc, -⟩ := hleft.alloc hfree
      refine ⟨?_, .inl (by simp [SwapPc.victim])⟩
      unfold continueException
      dsimp only
      rw [hindex]
      exact useFrame_shares halloc huser (hx.congr id (fun _ _ => rfl) rfl) random
  | swapIn unit i x =>
      obtain ⟨f, rfl⟩ := h.index hp
      have hx : Stopped m p (some unit) x := h.stopped (by rw [hp]; rfl)
      have hend := (h.release hp).swapInEnd huser hx rfl unit
      exact ⟨hend.fillTlb _ _ _ _ _, .inr ⟨_, rfl, rfl⟩⟩

/-! ## The system -/

/-- The page is not in memory. -/
def IoState.NeedsFrame (s : IoState) (va : Nat) : Prop :=
  ∀ pte, s.machine.look (pageOf s.current va) = some pte → pte.present = false

/--
An exception that needs a frame begins while no task is in `swap_out`, and it
does not evict a frame that some task is reading a page into.
-/
def IoEvent.Reserves (s : IoState) : IoEvent → Prop
  | .fault va _ => s.NeedsFrame va →
      (∀ p, (s.pc p).victim = none) ∧
        (slistIsInsufficient s.machine.pmSlist = true → ¬ InTransit s.pc s.machine.swapScheduler)
  | _ => True

def reservedSystem : Lts IoState IoEvent :=
  ioSystem.restrict fun s e => e.Orderly s ∧ e.Reserves s

/-- No task but the running one is in `swap_out`. -/
def IoState.Alone (s : IoState) : Prop :=
  ∀ q, q ≠ s.current → (s.pc q).victim = none

structure Reserved (s : IoState) : Prop where
  shared : Shared s.machine s.pc none
  alone : ∀ {p q}, (s.pc p).victim ≠ none → (s.pc q).victim ≠ none → q = p
  evicted : ∀ {p}, (s.pc p).victim ≠ none →
    ∃ f, Implements s.machine.pmSlist pmSlistSize [f + 1]
  pending : ∀ {i p ioTask}, s.posted[i]? = some (p, ioTask) → s.executed.length ≤ i →
    ioTask.type = .write → (s.pc p).victim ≠ none

section

variable {s s' : IoState} {e : IoEvent}

theorem Progress.proceed_done {m : Machine} (h : s.proceed (.done m) = .ok s') :
    s' = { s with machine := m }.setPc s.current .user := by
  cases h
  rfl

theorem IoState.postRequest_eq {ioTask : IoTask} {new : SwapPc} {k : Kernel}
    (h : s.postRequest ioTask new k = .ok s') :
    ∃ kernel, s' =
      { s with
        kernel
        machine := { s.machine with ioTask }
        posted := s.posted ++ [(s.current, ioTask)]
        pc := Function.update s.pc s.current new } := by
  unfold IoState.postRequest at h
  obtain ⟨k₁, -, h⟩ := bind_eq_ok.mp h
  obtain ⟨k₂, -, h⟩ := bind_eq_ok.mp h
  cases h
  exact ⟨k₂, rfl⟩

theorem Progress.proceed_post {v : Option Pid} {ioTask : IoTask} {new : SwapPc} {m : Machine}
    (h : s.proceed (.post v ioTask new m) = .ok s') :
    ∃ kernel, s' =
      { s with
        kernel
        machine := { m with ioTask }
        posted := s.posted ++ [(s.current, ioTask)]
        pc := Function.update s.pc s.current new } := by
  cases v with
  | none => exact IoState.postRequest_eq h
  | some v =>
      obtain ⟨k, -, h⟩ := bind_eq_ok.mp h
      exact IoState.postRequest_eq h

/-- A request may be posted only when all that were posted have been executed. -/
theorem InProtocol.posted_le (h : InProtocol s) {victim : Option Pid} (hcan : s.CanPost victim) :
    s.posted.length ≤ s.executed.length := by
  obtain ⟨L, finished, outstanding, h⟩ := h
  obtain ⟨-, -, rfl, -⟩ := h.phase.of_free hcan.started hcan.free
  rw [h.posted, h.executed, List.append_nil, List.length_map]

theorem InProtocol.delivered (h : InProtocol s) : Delivered s := by
  obtain ⟨L, finished, outstanding, h⟩ := h
  exact h.delivered

/-- A request that the running task has posted is executed. -/
theorem Delivered.lt_of_current (h : Delivered s) {i : Nat} {ioTask : IoTask}
    (hi : s.posted[i]? = some (s.current, ioTask)) : i < s.executed.length :=
  (List.getElem?_eq_some_iff.mp (h.returned hi)).1

/-- The exception of the running task goes on to its end or to a request. -/
theorem Reserved.proceed (h : Reserved s) {progress : Progress}
    (hreturned : ∀ i ioTask, s.posted[i]? = some (s.current, ioTask) → i < s.executed.length)
    (hshares : progress.Shares (Function.update s.pc s.current .user) s.current)
    (hpost : ∀ v ioTask new m, progress = .post v ioTask new m →
      s.posted.length ≤ s.executed.length)
    (halone : s.Alone ∨ ∃ m, progress = .done m ∧ m.pmSlist = s.machine.pmSlist)
    (hproceed : s.proceed progress = .ok s') :
    Reserved s' ∧ (s.Alone ∨ s'.machine.pmSlist = s.machine.pmSlist) := by
  cases progress with
  | done m =>
      have hvictim : ∀ {q}, (Function.update s.pc s.current .user q).victim ≠ none →
          q ≠ s.current ∧ (s.pc q).victim ≠ none := by
        intro q hq
        by_cases hqc : q = s.current
        · rw [hqc, Function.update_self] at hq
          exact absurd rfl hq
        · rw [Function.update_of_ne hqc] at hq
          exact ⟨hqc, hq⟩
      obtain rfl := Progress.proceed_done hproceed
      refine ⟨⟨hshares, fun hp hq => h.alone (hvictim hp).2 (hvictim hq).2, ?_, ?_⟩, ?_⟩
      · intro p hp
        obtain ⟨hne, hp⟩ := hvictim hp
        obtain halone | ⟨m', he, hpm⟩ := halone
        · exact absurd (halone p hne) hp
        · cases he
          change ∃ f, Implements m.pmSlist pmSlistSize [f + 1]
          rw [hpm]
          exact h.evicted hp
      · intro i p ioTask hi hlen hwrite
        change (Function.update s.pc s.current .user p).victim ≠ none
        have hne : p ≠ s.current := by
          rintro rfl
          exact absurd (hreturned i ioTask hi) (Nat.not_lt.mpr hlen)
        rw [Function.update_of_ne hne]
        exact h.pending hi hlen hwrite
      · obtain halone | ⟨m', he, hpm⟩ := halone
        · exact .inl halone
        · cases he
          exact .inr hpm
  | post v ioTask new m =>
      obtain ⟨hshared, hwrite, hone⟩ := hshares
      have hall := hpost v ioTask new m rfl
      have halone' : s.Alone := halone.resolve_right fun ⟨_, he, _⟩ => nomatch he
      have hvictim : ∀ {q}, (Function.update s.pc s.current new q).victim ≠ none →
          q = s.current ∧ new.victim ≠ none := by
        intro q hq
        by_cases hqc : q = s.current
        · rw [hqc, Function.update_self] at hq
          exact ⟨hqc, hq⟩
        · rw [Function.update_of_ne hqc] at hq
          exact absurd (halone' q hqc) hq
      rw [Function.update_idem] at hshared
      obtain ⟨kernel, rfl⟩ := Progress.proceed_post hproceed
      refine ⟨⟨?_, fun hp hq => (hvictim hq).1.trans (hvictim hp).1.symm,
        fun hp => hone (hvictim hp).2, ?_⟩, .inl halone'⟩
      · exact hshared.congr (hshared.dirs.congr rfl rfl rfl) rfl rfl rfl (fun _ => id)
          fun _ _ _ => rfl
      · intro i p ioTask' hi hlen hwrite'
        change (s.posted ++ [(s.current, ioTask)])[i]? = some (p, ioTask') at hi
        change s.executed.length ≤ i at hlen
        change (Function.update s.pc s.current new p).victim ≠ none
        rw [List.getElem?_append_right (by omega)] at hi
        have hmem := List.mem_of_getElem? hi
        rw [List.mem_singleton, Prod.mk.injEq] at hmem
        obtain ⟨rfl, rfl⟩ := hmem
        rw [Function.update_self]
        exact hwrite hwrite'

/-- Page tables, frames and requests stay as they are, or a request is executed. -/
theorem Reserved.quiet (h : Reserved s) {kernel : Kernel} {m : Machine} {io : IoPc}
    {executed : List IoTask} (hshared : Shared m s.pc none) (hpm : m.pmSlist = s.machine.pmSlist)
    (hlen : s.executed.length ≤ executed.length) :
    Reserved { s with kernel, machine := m, io, executed } := by
  refine ⟨hshared, h.alone, fun hp => ?_, fun hi hle => h.pending hi (hlen.trans hle)⟩
  dsimp only
  rw [hpm]
  exact h.evicted hp

theorem Reserved.timer (h : Reserved s) (hstep : s.irqTimer = .ok s') :
    Reserved s' ∧ s'.machine.pmSlist = s.machine.pmSlist := by
  obtain ⟨kernel, -, hs'⟩ := bind_eq_ok.mp hstep
  cases hs'
  exact ⟨h.quiet (h.shared.congr (h.shared.dirs.congr rfl rfl rfl) rfl rfl rfl (fun _ => id)
    fun _ _ _ => rfl) rfl (le_refl _), rfl⟩

theorem Reserved.spawn (h : Reserved s) {task : TaskInfo} (hstep : s.initPcb task = .ok s') :
    Reserved s' ∧ s'.machine.pmSlist = s.machine.pmSlist := by
  obtain ⟨kernel, -, hs'⟩ := bind_eq_ok.mp hstep
  cases hs'
  obtain ⟨hdirs, hlive⟩ := initPcb_dirs h.shared.dirs
  dsimp only
  rw [initPcb_eq h.shared.dirs] at hdirs hlive ⊢
  exact ⟨h.quiet (h.shared.congr hdirs rfl rfl rfl hlive fun _ _ _ => rfl) rfl (le_refl _), rfl⟩

theorem Reserved.swIoProc (h : Reserved s) (hstep : s.swIoProc = .ok s') :
    Reserved s' ∧ s'.machine.pmSlist = s.machine.pmSlist := by
  unfold IoState.swIoProc at hstep
  cases hio : s.io with
  | initTasks | initDone | initFree | test | buffer | base | n =>
      rw [hio] at hstep
      cases hstep
      exact ⟨h.quiet h.shared rfl (le_refl _), rfl⟩
  | down | up =>
      rw [hio] at hstep
      obtain ⟨kernel, -, hs'⟩ := bind_eq_ok.mp hstep
      cases hs'
      exact ⟨h.quiet h.shared rfl (le_refl _), rfl⟩
  | transfer ioTask =>
      rw [hio] at hstep
      cases hstep
      obtain ⟨memory, sd, htransfer⟩ := transfer_cases s.machine ioTask
      dsimp only
      rw [htransfer]
      refine ⟨h.quiet ?_ rfl (by simp), rfl⟩
      exact h.shared.congr (h.shared.dirs.congr rfl rfl rfl) rfl rfl rfl (fun _ => id)
        fun _ _ _ => rfl

theorem Reserved.fault (h : Reserved s) (hprotocol : InProtocol s) {va random : Nat}
    (henabled : (IoEvent.fault va random).Enabled s)
    (horderly : (IoEvent.fault va random).Orderly s)
    (hreserves : (IoEvent.fault va random).Reserves s) (hstep : s.fault va random = .ok s') :
    Reserved s' ∧ (s.Alone ∨ s'.machine.pmSlist = s.machine.pmSlist) := by
  obtain ⟨hpc, hboot, hva, -⟩ := henabled
  have hlive : Allocated s.machine.pidList maxTaskNum s.current := by
    obtain ⟨L, finished, outstanding, hp⟩ := hprotocol
    exact hp.current_live hboot
  obtain ⟨progress, hbegin, hproceed⟩ := bind_eq_ok.mp hstep
  obtain ⟨hshares, hneeds⟩ := (beginException_shares h.shared hpc hlive hva
    (fun hneeds => (hreserves hneeds).2) random).of_ok hbegin
  have huser : Function.update s.pc s.current .user = s.pc := by
    rw [← hpc, Function.update_eq_self]
  refine h.proceed (fun _ _ => hprotocol.delivered.lt_of_current) (by rwa [huser]) ?_ ?_ hproceed
  · rintro v ioTask new m rfl
    exact hprotocol.posted_le (horderly v ioTask new m hbegin)
  · exact hneeds.imp_left fun hneeds q _ => (hreserves hneeds).1 q

theorem Reserved.resume (h : Reserved s) (hprotocol : InProtocol s) {random : Nat}
    (henabled : (IoEvent.resume random).Enabled s)
    (horderly : (IoEvent.resume random).Orderly s) (hstep : s.resume random = .ok s') :
    Reserved s' ∧ (s.Alone ∨ s'.machine.pmSlist = s.machine.pmSlist) := by
  obtain ⟨hpc, -⟩ := henabled
  obtain ⟨L, finished, outstanding, hp⟩ := id hprotocol
  have hlive := hp.inside s.current hpc
  have hboot : s.current ≠ 0 := by
    intro h0
    rw [h0] at hlive
    exact absurd hlive.1 (by decide)
  obtain ⟨k₁, L₁, hend, -, hsame, -, -⟩ := hp.endSwapOut (hp.current_ready hboot)
  have hcurrent : ({ s with kernel := k₁ } : IoState).current = s.current := hsame.current
  unfold IoState.resume at hstep
  rw [hend, ok_bind] at hstep
  obtain ⟨hshares, hvictim⟩ := continueException_shares h.shared random hpc h.evicted
  have h₁ : Reserved { s with kernel := k₁ } := h.quiet h.shared rfl (le_refl _)
  have halone : s.Alone ∨ ∃ m, s.machine.continueException s.current random (s.pc s.current) =
      .done m ∧ m.pmSlist = s.machine.pmSlist := by
    refine hvictim.imp_left fun hvictim q hq => ?_
    by_contra hne
    exact hq (h.alone hvictim hne)
  have hproceed := h₁.proceed ?_ (by rw [hcurrent]; exact hshares) ?_ ?_ hstep
  · refine hproceed.imp_right fun hpm => hpm.imp_left fun hq q hne => hq q (by rwa [hcurrent])
  · intro i ioTask hi
    rw [hcurrent] at hi
    exact hprotocol.delivered.lt_of_current hi
  · intro v ioTask new m he
    exact hprotocol.posted_le (horderly v ioTask new m (by rw [IoState.progress, he]))
  · refine halone.imp_left fun hq q hne => hq q ?_
    rwa [hcurrent] at hne

theorem Reserved.exec (h : Reserved s) (hprotocol : InProtocol s)
    (hstep : reservedSystem.step s e s') :
    Reserved s' ∧ (s.Alone ∨ s'.machine.pmSlist = s.machine.pmSlist) := by
  obtain ⟨⟨horderly, hreserves⟩, henabled, hexec⟩ := hstep
  cases e with
  | timer => exact (h.timer hexec).imp_right .inr
  | spawn task => exact (h.spawn hexec).imp_right .inr
  | fault va random => exact h.fault hprotocol henabled horderly hreserves hexec
  | resume random => exact h.resume hprotocol henabled horderly hexec
  | io => exact (h.swIoProc hexec).imp_right .inr

/-! ## Runs -/

/--
The `pm_alloc` after `swap_out` finds a frame, and every page in memory has a
frame of its own.
-/
structure OwnFrames (s : IoState) : Prop where
  found : ∀ pid address x, s.pc s.current = .swapOut pid address x → s.machine.pmAlloc.1 ≠ -1
  frame : ∀ page pte, s.machine.look page = some pte → pte.present = true →
    ∃ f : Nat, f < 2048 ∧ pte.addr = (pmBase + f * pmScheSize) >>> 12
  apart : ∀ page page' pte pte', s.machine.look page = some pte →
    s.machine.look page' = some pte' → pte.present = true → pte'.present = true →
    page ≠ page' → pte.addr ≠ pte'.addr

/-- A frame is handed out only after every write of its content has been executed. -/
def WrittenFirst (s s' : IoState) : Prop :=
  ∀ f : Nat, ¬ Allocated s.machine.pmSlist pmSlistSize (f + 1) →
    Allocated s'.machine.pmSlist pmSlistSize (f + 1) →
    ∀ (i : Nat) p ioTask, s.posted[i]? = some (p, ioTask) → ioTask.type = .write →
      ioTask.buffer = kernelAddress (physicalAddress f) → s.executed[i]? = some ioTask

theorem Reserved.ownFrames (h : Reserved s) : OwnFrames s := by
  refine ⟨?_, ?_, ?_⟩
  · intro pid address x hp
    obtain ⟨f, hfree⟩ := h.evicted (p := s.current) (by simp [hp, SwapPc.victim])
    rw [(h.shared.alloc hfree).1]
    omega
  · intro page pte hlook hpresent
    obtain ⟨f, -, ha, haddr, -⟩ := h.shared.frames.mapped hlook hpresent
    exact ⟨f, frame_lt ha, haddr.trans (by rw [frameNumber, physicalAddress_eq (frame_lt ha)])⟩
  · intro page page' pte pte' hlook hlook' hpresent hpresent' hne haddr
    obtain ⟨f, -, ha, hf, howner⟩ := h.shared.frames.mapped hlook hpresent
    obtain ⟨f', -, ha', hf', howner'⟩ := h.shared.frames.mapped hlook' hpresent'
    have hsame : f = f' :=
      frameNumber_inj (frame_lt ha) (frame_lt ha') (hf.symm.trans (haddr.trans hf'))
    rw [hsame] at howner
    exact hne (howner.symm.trans howner')

theorem Reserved.writtenFirst (h : Reserved s) (hprotocol : InProtocol s)
    (hstep : reservedSystem.step s e s') : WrittenFirst s s' := by
  intro f hfree htaken i p ioTask hi hwrite _
  have halone : s.Alone := by
    refine (h.exec hprotocol hstep).2.resolve_right fun hpm => ?_
    rw [hpm] at htaken
    exact hfree htaken
  have hdelivered := hprotocol.delivered
  by_cases hlt : i < s.executed.length
  · have hposted := List.prefix_iff_getElem?.mp hdelivered.executed i hlt
    rw [List.getElem?_map, hi] at hposted
    rw [List.getElem?_eq_getElem hlt]
    exact hposted.symm
  · -- The request is pending, so its poster is in `swap_out`: it is the running task.
    have hself : p = s.current := by
      by_contra hne
      exact h.pending hi (by omega) hwrite (halone p hne)
    exact hdelivered.returned (hself ▸ hi)

theorem boot_reserved (memory sd : Nat → UInt8) :
    Reserved (IoState.boot booted memory sd) := by
  have hpaging : Paging (Machine.boot memory sd).initPcb.initPcb none :=
    (initPcb_paging (initPcb_paging (boot_paging memory sd)).1).1
  have hnone : ∀ g, ¬ InTransit (IoState.boot booted memory sd).pc g :=
    fun g ⟨_, _, _, hp⟩ => nomatch hp
  refine ⟨⟨hpaging.dirs, ?_, by simp, nofun, nofun, nofun⟩, fun hp => absurd rfl hp,
    fun hp => absurd rfl hp, by simp [IoState.boot]⟩
  refine (frameMap_iff.mp hpaging.frames).congr fun g => ?_
  simpa using hnone g

/--
As long as no exception that needs a frame begins while another task is in
`swap_out`, none evicts a frame that is being filled, and requests are posted
while no other one is pending.
-/
theorem reserved_of_run {memory sd : Nat → UInt8} {events : List IoEvent} {s : IoState}
    (run : reservedSystem.Run (IoState.boot booted memory sd) events s) :
    OwnFrames s ∧ ∀ e s', reservedSystem.step s e s' → WrittenFirst s s' := by
  have hinv : InProtocol s ∧ Reserved s := by
    refine run.invariant (I := fun s => InProtocol s ∧ Reserved s) ?_
      ⟨boot_inProtocol memory sd, boot_reserved memory sd⟩
    rintro s e s' ⟨hprotocol, h⟩ hstep
    refine ⟨?_, (h.exec hprotocol hstep).1⟩
    obtain ⟨⟨horderly, -⟩, henabled, hexec⟩ := hstep
    exact (hprotocol.exec henabled horderly).of_ok hexec
  exact ⟨hinv.2.ownFrames, fun e s' hstep => hinv.2.writtenFirst hinv.1 hstep⟩

theorem calm_reserves (s : IoState) (e : IoEvent) (hcalm : ∀ p, s.pc p = .user) :
    e.Reserves s := by
  cases e with
  | fault va random =>
      refine fun _ => ⟨fun p => by rw [hcalm]; rfl, fun _ ⟨p, _, _, hp⟩ => ?_⟩
      rw [hcalm] at hp
      cases hp
  | timer | spawn | resume | io => trivial

/-- The shell has evicted a page and waits until it is written. -/
theorem reserved_first : ∃ events s,
    reservedSystem.Run (IoState.boot booted (fun _ => 0) fun _ => 0) events s ∧
      s.posted.length = 1 ∧ s.executed = [] ∧
      OwnFrames s ∧ ∀ e s', reservedSystem.step s e s' → WrittenFirst s s' := by
  obtain ⟨events, m, pc, run, -⟩ := run_posted
  have run' : reservedSystem.Run (IoState.boot booted (fun _ => 0) fun _ => 0) events _ :=
    run.restrict_mono fun s e h => ⟨h.1, calm_reserves s e h.2⟩
  exact ⟨_, _, run', rfl, rfl, reserved_of_run run'⟩

/-- The new task gets the frame of the shell, whose content is not yet written. -/
theorem reserved_taken : ∃ events s e s',
    ioSystem.Run (IoState.boot booted (fun _ => 0) fun _ => 0) events s ∧
      ioSystem.step s e s' ∧ ¬ WrittenFirst s s' := by
  obtain ⟨events, m₁, m₃, pc, run, hstep, hsched, -, -, hfree, hfull, -⟩ := run_handed
  refine ⟨events, _, _, _, run, hstep, fun h => ?_⟩
  have hwritten := h 12 (hfree.not_allocated (by simp))
    (hfull.allocated_of_nil (by decide) (by decide)) 0 1 m₁.evict.2.1 rfl rfl
    (by
      change kernelAddress (physicalAddress m₁.swapScheduler) = _
      rw [hsched])
  cases hwritten

end

end UcasOs.Mm

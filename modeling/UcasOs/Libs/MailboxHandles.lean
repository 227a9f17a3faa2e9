import UcasOs.Libs.Mailbox

/-!
# Mailbox names and their users

Beside the library, `handleSystem` keeps the handles that `mbox_open` has
returned and `mbox_close` has not taken back, each with the name it was opened
with.  A close is of such a handle, and no two tasks close the same one.
-/

namespace UcasOs.Libs

open UcasOs.Foundation UcasOs.Sched

structure Handle where
  id : Nat
  box : Nat
  name : String
  deriving DecidableEq

structure Desk where
  handles : List Handle
  /-- The handle that a task inside `mbox_close` gives back. -/
  closing : Pid → Option Handle
  next : Nat

def Desk.empty : Desk := ⟨[], fun _ => none, 0⟩

/-- The mailbox whose address `mbox_open(name)` returns. -/
def MboxState.opens (s : MboxState) (name : String) : Option Nat :=
  match s.findName name with
  | some i => some i
  | none => s.findInvalid

def Desk.issue (d : Desk) (box : Nat) (name : String) : Desk :=
  { d with handles := ⟨d.next, box, name⟩ :: d.handles, next := d.next + 1 }

def Desk.takeBack (d : Desk) (p : Pid) : Desk :=
  { d with handles := (d.closing p).elim d.handles d.handles.erase }

/-- `d'` is the desk after the event. -/
def Desk.Serves (d : Desk) (s : MboxState) (event : MboxEvent) (d' : Desk) : Prop :=
  match event with
  | .call (.mboxClose box) =>
      ∃ h ∈ d.handles, h.box = box ∧ (∀ p, s.pc p = .closing box → d.closing p ≠ some h) ∧
        d' = { d with
          closing := Function.update d.closing s.kernel.currentRunning (some h) }
  | .advance =>
      match s.pc s.kernel.currentRunning with
      | .opening name => d' = (s.opens name).elim d fun i => d.issue i name
      | .closing _ => d' = d.takeBack s.kernel.currentRunning
      | _ => d' = d
  | _ => d' = d

def handleSystem : Lts (MboxState × Desk) MboxEvent where
  step a event b := mboxSystem.step a.1 event b.1 ∧ a.2.Serves a.1 event b.2

/-- The mailboxes are the names of the outstanding handles, each with the number of its users. -/
structure Tended (s : MboxState) (d : Desk) : Prop where
  nodup : d.handles.Nodup
  fresh : ∀ h ∈ d.handles, h.id < d.next
  named : ∀ h ∈ d.handles, h.box < maxBoxNum ∧ (s.mboxs h.box).name = h.name
  userNum : ∀ box < maxBoxNum,
    (s.mboxs box).userNum = d.handles.countP fun h => h.box = box
  valid : ∀ box < maxBoxNum, (s.mboxs box).valid = true ↔ ∃ h ∈ d.handles, h.box = box
  distinct : ∀ box < maxBoxNum, ∀ box' < maxBoxNum, (s.mboxs box).valid = true →
    (s.mboxs box').valid = true → (s.mboxs box).name = (s.mboxs box').name → box = box'
  closing : ∀ p box, s.pc p = .closing box → ∃ h ∈ d.handles, d.closing p = some h ∧ h.box = box
  apart : ∀ p p' box box', s.pc p = .closing box → s.pc p' = .closing box' →
    d.closing p = d.closing p' → p = p'

variable {s s' : MboxState} {d d' : Desk} {event : MboxEvent} {name : String}

/-- What sending, receiving and the kernel leave alone. -/
theorem Tended.congr (h : Tended s d)
    (hboxes : ∀ box, (s'.mboxs box).valid = (s.mboxs box).valid ∧
      (s'.mboxs box).name = (s.mboxs box).name ∧ (s'.mboxs box).userNum = (s.mboxs box).userNum)
    (hpc : ∀ p box, s'.pc p = .closing box → s.pc p = .closing box) : Tended s' d := by
  refine ⟨h.nodup, h.fresh, ?_, ?_, ?_, ?_, ?_, ?_⟩
  · intro x hx
    rw [(hboxes _).2.1]
    exact h.named x hx
  · intro box hbox
    rw [(hboxes _).2.2]
    exact h.userNum box hbox
  · intro box hbox
    rw [(hboxes _).1]
    exact h.valid box hbox
  · intro box hbox box' hbox'
    rw [(hboxes _).1, (hboxes _).1, (hboxes _).2.1, (hboxes _).2.1]
    exact h.distinct box hbox box' hbox'
  · intro p box hp
    exact h.closing p box (hpc p box hp)
  · intro p p' box box' hp hp'
    exact h.apart p p' box box' (hpc p box hp) (hpc p' box' hp')

theorem closing_of_setPc (kernel : Kernel) {pc : MboxPc} (hpc : ∀ box, pc ≠ .closing box)
    (p : Pid) (box : Nat) (hp : (s.setPc kernel pc).pc p = .closing box) :
    s.pc p = .closing box ∧ p ≠ s.kernel.currentRunning := by
  by_cases hcur : p = s.kernel.currentRunning
  · subst hcur
    simp only [MboxState.setPc, Function.update_self] at hp
    exact absurd hp (hpc box)
  · simp only [MboxState.setPc, Function.update_of_ne hcur] at hp
    exact ⟨hp, hcur⟩

theorem Tended.setPc (h : Tended s d) (kernel : Kernel) {pc : MboxPc}
    (hpc : ∀ box, pc ≠ .closing box) : Tended (s.setPc kernel pc) d :=
  h.congr (fun _ => ⟨rfl, rfl, rfl⟩) fun p box hp => (closing_of_setPc kernel hpc p box hp).1

theorem Tended.leave (h : Tended s d) (hleave : s.leave = .ok s') : Tended s' d := by
  obtain ⟨kernel, -, hs'⟩ := bind_eq_ok.mp hleave
  cases hs'
  exact h.setPc kernel (by simp)

/-- A change of a ring alone. -/
theorem Tended.modifyBox (h : Tended s d) (i : Nat) {f : Mailbox → Mailbox}
    (hf : ∀ m, (f m).valid = m.valid ∧ (f m).name = m.name ∧ (f m).userNum = m.userNum) :
    Tended (s.modifyBox i f) d := by
  refine h.congr (fun box => ?_) fun _ _ hp => hp
  by_cases hbox : box = i
  · subst hbox
    simpa only [MboxState.modifyBox, Function.update_self] using hf _
  · simp [MboxState.modifyBox, hbox]

/-! ## Opening -/

theorem findName_eq_some {i : Nat} (hfind : s.findName name = some i) :
    i < maxBoxNum ∧ (s.mboxs i).valid = true ∧ (s.mboxs i).name = name := by
  have hmem := List.mem_of_find?_eq_some hfind
  have htest := List.find?_some hfind
  simp only [Bool.and_eq_true, beq_iff_eq] at htest
  exact ⟨List.mem_range.mp hmem, htest⟩

theorem findName_eq_none (hfind : s.findName name = none) {i : Nat} (hi : i < maxBoxNum)
    (hvalid : (s.mboxs i).valid = true) : (s.mboxs i).name ≠ name := by
  have htest := List.find?_eq_none.mp hfind i (List.mem_range.mpr hi)
  simpa [hvalid] using htest

theorem findInvalid_eq_some {i : Nat} (hfind : s.findInvalid = some i) :
    i < maxBoxNum ∧ (s.mboxs i).valid = false := by
  have hmem := List.mem_of_find?_eq_some hfind
  have htest := List.find?_some hfind
  exact ⟨List.mem_range.mp hmem, by simpa using htest⟩

theorem findInvalid_eq_none (hfind : s.findInvalid = none) {i : Nat} (hi : i < maxBoxNum) :
    (s.mboxs i).valid = true := by
  have htest := List.find?_eq_none.mp hfind i (List.mem_range.mpr hi)
  simpa using htest

theorem countP_issue (d : Desk) (i : Nat) (name : String) (box : Nat) :
    ((d.issue i name).handles.countP fun h => h.box = box) =
      (d.handles.countP fun h => h.box = box) + if box = i then 1 else 0 := by
  rw [Desk.issue, List.countP_cons]
  simp [eq_comm]

/--
The box `i` gets one more user, with the name `name`.  All its other fields and
all other boxes stay.
-/
theorem Tended.issue (h : Tended s d) {i : Nat} (hi : i < maxBoxNum) {f : Mailbox → Mailbox}
    (hvalid : (f (s.mboxs i)).valid = true) (hname : (f (s.mboxs i)).name = name)
    (huser : (f (s.mboxs i)).userNum = (s.mboxs i).userNum + 1)
    (hkeep : (s.mboxs i).valid = true → (s.mboxs i).name = name)
    (hnew : ∀ box < maxBoxNum, box ≠ i → (s.mboxs box).valid = true → (s.mboxs box).name ≠ name) :
    Tended (s.modifyBox i f) (d.issue i name) := by
  have hself : (s.modifyBox i f).mboxs i = f (s.mboxs i) := Function.update_self _ _ _
  have hother : ∀ box, box ≠ i → (s.modifyBox i f).mboxs box = s.mboxs box := fun box hbox =>
    Function.update_of_ne hbox _ _
  have hid : ∀ x ∈ d.handles, x.id ≠ d.next := fun x hx => (h.fresh x hx).ne
  refine ⟨?_, ?_, ?_, ?_, ?_, ?_, ?_, ?_⟩
  · exact List.nodup_cons.mpr ⟨fun hmem => hid _ hmem rfl, h.nodup⟩
  · intro x hx
    rcases List.mem_cons.mp hx with rfl | hx
    · exact Nat.lt_succ_self _
    · exact Nat.lt_succ_of_lt (h.fresh x hx)
  · intro x hx
    rcases List.mem_cons.mp hx with rfl | hx
    · exact ⟨hi, by rw [hself]; exact hname⟩
    · obtain ⟨hbox, hx'⟩ := h.named x hx
      refine ⟨hbox, ?_⟩
      by_cases hxi : x.box = i
      · rw [hxi] at hx' ⊢
        rw [hself, hname, ← hx']
        exact (hkeep ((h.valid i hi).mpr ⟨x, hx, hxi⟩)).symm
      · rw [hother _ hxi, hx']
  · intro box hbox
    rw [countP_issue]
    by_cases hbi : box = i
    · subst hbi
      rw [hself, huser, h.userNum box hbox]
      simp
    · rw [hother _ hbi, h.userNum box hbox]
      simp [hbi]
  · intro box hbox
    by_cases hbi : box = i
    · subst hbi
      rw [hself]
      exact iff_of_true hvalid ⟨_, List.mem_cons_self, rfl⟩
    · rw [hother _ hbi, h.valid box hbox]
      constructor
      · rintro ⟨x, hx, hxbox⟩
        exact ⟨x, List.mem_cons_of_mem _ hx, hxbox⟩
      · rintro ⟨x, hx, hxbox⟩
        rcases List.mem_cons.mp hx with rfl | hx
        · exact absurd hxbox.symm hbi
        · exact ⟨x, hx, hxbox⟩
  · intro box hbox box' hbox' hvb hvb' hnames
    by_cases hbi : box = i <;> by_cases hbi' : box' = i
    · rw [hbi, hbi']
    · subst hbi
      rw [hself, hname, hother _ hbi'] at hnames
      rw [hother _ hbi'] at hvb'
      exact absurd hnames.symm (hnew box' hbox' hbi' hvb')
    · subst hbi'
      rw [hself, hname, hother _ hbi] at hnames
      rw [hother _ hbi] at hvb
      exact absurd hnames (hnew box hbox hbi hvb)
    · rw [hother _ hbi] at hvb hnames
      rw [hother _ hbi'] at hvb' hnames
      exact h.distinct box hbox box' hbox' hvb hvb' hnames
  · intro p box hp
    obtain ⟨x, hx, hxp, hxbox⟩ := h.closing p box hp
    exact ⟨x, List.mem_cons_of_mem _ hx, hxp, hxbox⟩
  · exact h.apart

theorem Tended.mboxOpen (h : Tended s d) (hopen : s.mboxOpen name = .ok s') :
    Tended s' ((s.opens name).elim d fun i => d.issue i name) := by
  unfold MboxState.mboxOpen at hopen
  split at hopen
  · rename_i i hfind
    obtain ⟨hi, hvalid, hname⟩ := findName_eq_some hfind
    have hopens : s.opens name = some i := by rw [MboxState.opens, hfind]
    rw [hopens]
    refine Tended.leave (h.issue hi hvalid hname rfl (fun _ => hname) ?_) hopen
    intro box hbox hne hvb hnb
    exact hne (h.distinct box hbox i hi hvb hvalid (hnb.trans hname.symm))
  · rename_i hnone
    have hopens : s.opens name = s.findInvalid := by rw [MboxState.opens, hnone]
    rw [hopens]
    split at hopen
    · rename_i hfull
      rw [hfull]
      exact h.leave hopen
    · rename_i i hfind
      obtain ⟨hi, hinvalid⟩ := findInvalid_eq_some hfind
      rw [hfind]
      obtain ⟨k₁, -, hopen⟩ := bind_eq_ok.mp hopen
      obtain ⟨k₂, -, hopen⟩ := bind_eq_ok.mp hopen
      refine Tended.leave ?_ hopen
      have hunused : (s.mboxs i).userNum = 0 := by
        rw [h.userNum i hi, Int.natCast_eq_zero, List.countP_eq_zero]
        intro x hx hbox
        have := (h.valid i hi).mpr ⟨x, hx, of_decide_eq_true hbox⟩
        rw [hinvalid] at this
        cases this
      have hissued := h.issue hi (f := fun m =>
        { m with valid := true, name, userNum := 1, head := 0, tail := 0 }) rfl
        (show _ = name from rfl)
        (by rw [hunused]; rfl) (fun hvalid => by rw [hinvalid] at hvalid; cases hvalid)
        fun box hbox _ hvb => findName_eq_none hnone hbox hvb
      exact hissued.congr (fun _ => ⟨rfl, rfl, rfl⟩) fun _ _ hp => hp

/-! ## Closing -/

theorem countP_erase_box {x : Handle} {handles : List Handle} (hx : x ∈ handles) (box : Nat) :
    (handles.countP fun h => h.box = box) =
      ((handles.erase x).countP fun h => h.box = box) + if x.box = box then 1 else 0 := by
  rw [(List.perm_cons_erase hx).countP_eq, List.countP_cons]
  simp

/-- The running task gives back the handle `x`. -/
theorem Tended.takeBack (h : Tended s d) {x : Handle} (hx : x ∈ d.handles)
    (hpc : s.pc s.kernel.currentRunning = .closing x.box)
    (hclosing : d.closing s.kernel.currentRunning = some x) (kernel : Kernel) :
    Tended ((s.modifyBox x.box fun m =>
        { m with userNum := m.userNum - 1, valid := m.valid && m.userNum - 1 != 0 }).setPc
          kernel .idle) (d.takeBack s.kernel.currentRunning) := by
  have hhandles : (d.takeBack s.kernel.currentRunning).handles = d.handles.erase x := by
    rw [Desk.takeBack, hclosing]
    rfl
  generalize hs₁ : MboxState.setPc _ kernel MboxPc.idle = s₁
  have hself : s₁.mboxs x.box = { s.mboxs x.box with
      userNum := (s.mboxs x.box).userNum - 1
      valid := (s.mboxs x.box).valid && (s.mboxs x.box).userNum - 1 != 0 } := by
    rw [← hs₁]
    exact Function.update_self _ _ _
  have hother : ∀ box, box ≠ x.box → s₁.mboxs box = s.mboxs box := by
    intro box hbox
    rw [← hs₁]
    exact Function.update_of_ne hbox _ _
  have hname : ∀ box, (s₁.mboxs box).name = (s.mboxs box).name := by
    intro box
    by_cases hbox : box = x.box
    · rw [hbox, hself]
    · rw [hother box hbox]
  have hpcs : ∀ p box, s₁.pc p = .closing box →
      s.pc p = .closing box ∧ p ≠ s.kernel.currentRunning := by
    intro p box hp
    rw [← hs₁] at hp
    exact closing_of_setPc kernel (by simp) p box hp
  have hmem : ∀ {y}, y ∈ d.handles.erase x → y ∈ d.handles := List.mem_of_mem_erase
  have hcount := h.userNum x.box (h.named x hx).1
  rw [countP_erase_box hx, if_pos rfl] at hcount
  have hvalid₁ : ∀ box, (s₁.mboxs box).valid = true → (s.mboxs box).valid = true := by
    intro box hv
    by_cases hbox : box = x.box
    · rw [hbox, hself, Bool.and_eq_true] at hv
      rw [hbox]
      exact hv.1
    · rwa [hother box hbox] at hv
  refine ⟨?_, ?_, ?_, ?_, ?_, ?_, ?_, ?_⟩
  · rw [hhandles]
    exact h.nodup.erase x
  · rw [hhandles]
    exact fun y hy => h.fresh y (hmem hy)
  · rw [hhandles]
    intro y hy
    rw [hname]
    exact h.named y (hmem hy)
  · intro box hbox
    rw [hhandles]
    by_cases hxb : box = x.box
    · subst hxb
      rw [hself]
      dsimp only
      omega
    · rw [hother box hxb, h.userNum box hbox, countP_erase_box hx, if_neg (Ne.symm hxb)]
      rfl
  · intro box hbox
    rw [hhandles]
    by_cases hxb : box = x.box
    · subst hxb
      have hused : (s.mboxs x.box).valid = true := (h.valid _ hbox).mpr ⟨x, hx, rfl⟩
      have hleft : (∃ y ∈ d.handles.erase x, y.box = x.box) ↔
          0 < (d.handles.erase x).countP fun h => h.box = x.box := by
        simp [List.countP_pos_iff]
      rw [hself, hused, hleft]
      simp only [Bool.true_and, bne_iff_ne]
      omega
    · rw [hother box hxb, h.valid box hbox]
      constructor
      · rintro ⟨y, hy, hyb⟩
        have hyx : y ≠ x := by
          rintro rfl
          exact hxb hyb.symm
        exact ⟨y, (List.mem_erase_of_ne hyx).mpr hy, hyb⟩
      · rintro ⟨y, hy, hyb⟩
        exact ⟨y, hmem hy, hyb⟩
  · intro box hbox box' hbox' hv hv'
    rw [hname, hname]
    exact h.distinct box hbox box' hbox' (hvalid₁ box hv) (hvalid₁ box' hv')
  · intro p box hp
    obtain ⟨hp, hcur⟩ := hpcs p box hp
    obtain ⟨y, hy, hyp, hyb⟩ := h.closing p box hp
    -- No other task closes the same handle.
    have hyx : y ≠ x := by
      rintro rfl
      exact hcur (h.apart p _ box _ hp hpc (hyp.trans hclosing.symm))
    rw [hhandles]
    exact ⟨y, (List.mem_erase_of_ne hyx).mpr hy, hyp, hyb⟩
  · intro p p' box box' hp hp'
    exact h.apart p p' box box' (hpcs p box hp).1 (hpcs p' box' hp').1

theorem Tended.mboxClose (h : Tended s d) {box : Nat}
    (hpc : s.pc s.kernel.currentRunning = .closing box) (hclose : s.mboxClose box = .ok s') :
    Tended s' (d.takeBack s.kernel.currentRunning) := by
  obtain ⟨x, hx, hclosing, rfl⟩ := h.closing _ _ hpc
  obtain ⟨kernel, -, hs'⟩ := bind_eq_ok.mp hclose
  cases hs'
  exact h.takeBack hx hpc hclosing kernel

/-! ## Steps -/

theorem Tended.mboxSend (h : Tended s d) {box : Nat} {msg : List UInt8}
    (hsend : s.mboxSend box msg = .ok s') : Tended s' d := by
  cases msg with
  | nil => exact h.leave hsend
  | cons byte msg =>
      rw [MboxState.mboxSend] at hsend
      split at hsend
      · obtain ⟨kernel, -, hs'⟩ := bind_eq_ok.mp hsend
        cases hs'
        exact h.setPc kernel (by simp)
      · obtain ⟨kernel, -, hs'⟩ := bind_eq_ok.mp hsend
        cases hs'
        have hput : Tended ((s.modifyBox box fun m => m.put byte).setPc kernel
            (.sending box msg)) d :=
          (h.modifyBox box (f := fun m => m.put byte) fun m => ⟨rfl, rfl, rfl⟩).setPc kernel
            (by simp)
        exact hput.congr (fun _ => ⟨rfl, rfl, rfl⟩) fun _ _ hp => hp

theorem Tended.mboxRecv (h : Tended s d) {box remaining : Nat} {msg : List UInt8}
    (hrecv : s.mboxRecv box remaining msg = .ok s') : Tended s' d := by
  cases remaining with
  | zero => exact h.leave hrecv
  | succ remaining =>
      rw [MboxState.mboxRecv] at hrecv
      split at hrecv
      · obtain ⟨kernel, -, hs'⟩ := bind_eq_ok.mp hrecv
        cases hs'
        exact h.setPc kernel (by simp)
      · obtain ⟨kernel, -, hs'⟩ := bind_eq_ok.mp hrecv
        cases hs'
        have htake : Tended ((s.modifyBox box fun m => m.take.2).setPc kernel
            (.receiving box remaining (msg ++ [(s.mboxs box).take.1]))) d :=
          (h.modifyBox box (f := fun m => m.take.2) fun m => ⟨rfl, rfl, rfl⟩).setPc kernel
            (by simp)
        exact htake.congr (fun _ => ⟨rfl, rfl, rfl⟩) fun _ _ hp => hp

theorem Tended.advance (h : Tended s d) (hadvance : s.advance = .ok s')
    (hserves : d.Serves s .advance d') : Tended s' d' := by
  unfold MboxState.advance at hadvance
  unfold Desk.Serves at hserves
  cases hpc : s.pc s.kernel.currentRunning with
  | idle =>
      simp only [hpc] at hadvance hserves
      cases hadvance
      exact hserves ▸ h
  | opening name =>
      simp only [hpc] at hadvance hserves
      exact hserves ▸ h.mboxOpen hadvance
  | closing box =>
      simp only [hpc] at hadvance hserves
      exact hserves ▸ h.mboxClose hpc hadvance
  | sending box msg =>
      simp only [hpc] at hadvance hserves
      exact hserves ▸ h.mboxSend hadvance
  | receiving box remaining msg =>
      simp only [hpc] at hadvance hserves
      exact hserves ▸ h.mboxRecv hadvance

/-- A task begins to close a handle that no other task closes. -/
theorem Tended.beginClose (h : Tended s d) {x : Handle} (hx : x ∈ d.handles)
    (hfree : ∀ p, s.pc p = .closing x.box → d.closing p ≠ some x) (kernel : Kernel) :
    Tended (s.setPc kernel (.closing x.box))
      { d with closing := Function.update d.closing s.kernel.currentRunning (some x) } := by
  have hpcs : ∀ p box, p ≠ s.kernel.currentRunning →
      (s.setPc kernel (.closing x.box)).pc p = .closing box → s.pc p = .closing box := by
    intro p box hcur hp
    simpa only [MboxState.setPc, Function.update_of_ne hcur] using hp
  -- A handle that another task closes is not `x`.
  have hothers : ∀ p box, s.pc p = .closing box → d.closing p ≠ some x := by
    intro p box hp hpx
    obtain ⟨y, -, hyp, rfl⟩ := h.closing p box hp
    rw [hpx, Option.some.injEq] at hyp
    subst hyp
    exact hfree p hp hpx
  refine ⟨h.nodup, h.fresh, h.named, h.userNum, h.valid, h.distinct, ?_, ?_⟩
  · intro p box hp
    by_cases hcur : p = s.kernel.currentRunning
    · subst hcur
      simp only [MboxState.setPc, Function.update_self, MboxPc.closing.injEq] at hp
      exact ⟨x, hx, Function.update_self _ _ _, hp⟩
    · simp only [Function.update_of_ne hcur]
      exact h.closing p box (hpcs p box hcur hp)
  · intro p p' box box' hp hp'
    by_cases hcur : p = s.kernel.currentRunning <;>
      by_cases hcur' : p' = s.kernel.currentRunning
    · exact fun _ => hcur.trans hcur'.symm
    · subst hcur
      simp only [Function.update_self, Function.update_of_ne hcur']
      exact fun heq => absurd heq.symm (hothers p' box' (hpcs p' box' hcur' hp'))
    · subst hcur'
      simp only [Function.update_self, Function.update_of_ne hcur]
      exact fun heq => absurd heq (hothers p box (hpcs p box hcur hp))
    · simp only [Function.update_of_ne hcur, Function.update_of_ne hcur']
      exact h.apart p p' box box' (hpcs p box hcur hp) (hpcs p' box' hcur' hp')

theorem Tended.step (h : Tended s d) (hstep : handleSystem.step (s, d) event (s', d')) :
    Tended s' d' := by
  obtain ⟨⟨-, hstep⟩, hserves⟩ := hstep
  cases event with
  | call c =>
      obtain ⟨kernel, -, hs'⟩ := bind_eq_ok.mp hstep
      cases hs'
      cases c with
      | mboxClose box =>
          obtain ⟨x, hx, rfl, hfree, rfl⟩ := hserves
          exact h.beginClose hx hfree kernel
      | mboxOpen name => exact (show d' = d from hserves) ▸ h.setPc kernel (by simp [MboxCall.start])
      | mboxSend box msg =>
          exact (show d' = d from hserves) ▸ h.setPc kernel (by simp [MboxCall.start])
      | mboxRecv box msgLength =>
          exact (show d' = d from hserves) ▸ h.setPc kernel (by simp [MboxCall.start])
  | advance => exact h.advance hstep hserves
  | resume =>
      obtain ⟨kernel, -, rfl⟩ := hstep
      rw [show d' = d from hserves]
      exact h.congr (fun _ => ⟨rfl, rfl, rfl⟩) fun _ _ hp => hp
  | entry e =>
      obtain ⟨kernel, pc, -, rfl, hpc⟩ := hstep
      rw [show d' = d from hserves]
      refine h.congr (fun _ => ⟨rfl, rfl, rfl⟩) fun p box hp => ?_
      rcases hpc p with ⟨-, -, hsame⟩ | ⟨-, hidle⟩
      · exact hsame ▸ hp
      · rw [show pc p = .closing box from hp] at hidle
        cases hidle

theorem boot_tended (kernel : Kernel) : Tended (MboxState.boot kernel) Desk.empty := by
  have hboxes : ∀ box < maxBoxNum, (MboxState.boot kernel).mboxs box = Mailbox.zero := by
    intro box hbox
    simp [MboxState.boot, MboxState.mboxInit, Mailbox.zero]
  refine ⟨List.nodup_nil, by simp [Desk.empty], by simp [Desk.empty], ?_, ?_, ?_, ?_, ?_⟩
  · intro box hbox
    rw [hboxes box hbox]
    rfl
  · intro box hbox
    rw [hboxes box hbox]
    simp [Desk.empty, Mailbox.zero]
  · intro box hbox box' hbox' hv
    rw [hboxes box hbox] at hv
    cases hv
  · intro p box hp
    cases hp
  · intro p p' box box' hp
    cases hp

/-! ## Runs -/

/-- What the callers of `mbox_open` and `mbox_close` can rely on. -/
structure Named (s : MboxState) (d : Desk) : Prop where
  valid_iff : ∀ box < maxBoxNum, (s.mboxs box).valid = true ↔ 0 < (s.mboxs box).userNum
  userNum_eq : ∀ box < maxBoxNum,
    (s.mboxs box).userNum = d.handles.countP fun h => h.box = box
  distinct : ∀ box < maxBoxNum, ∀ box' < maxBoxNum, (s.mboxs box).valid = true →
    (s.mboxs box').valid = true → (s.mboxs box).name = (s.mboxs box').name → box = box'
  same_iff : ∀ h ∈ d.handles, ∀ h' ∈ d.handles, h.box = h'.box ↔ h.name = h'.name
  /-- NULL is returned only where eight other names are in use. -/
  null : ∀ name, s.opens name = none → ∃ other : Fin maxBoxNum → Handle,
    (∀ i, other i ∈ d.handles ∧ (other i).name ≠ name) ∧
      ∀ i j, (other i).name = (other j).name → i = j
  /-- A mailbox that has no user when it is opened is empty. -/
  starts_empty : ∀ name i s', (∀ h ∈ d.handles, h.box ≠ i) → s.opens name = some i →
    s.mboxOpen name = .ok s' → (s'.mboxs i).content = []

theorem Tended.valid_iff (h : Tended s d) {box : Nat} (hbox : box < maxBoxNum) :
    (s.mboxs box).valid = true ↔ 0 < (s.mboxs box).userNum := by
  rw [h.valid box hbox, h.userNum box hbox, Int.natCast_pos, List.countP_pos_iff]
  simp

theorem Tended.same_iff (h : Tended s d) {x y : Handle} (hx : x ∈ d.handles)
    (hy : y ∈ d.handles) : x.box = y.box ↔ x.name = y.name := by
  obtain ⟨hxbox, hxname⟩ := h.named x hx
  obtain ⟨hybox, hyname⟩ := h.named y hy
  constructor
  · intro hbox
    rw [← hxname, ← hyname, hbox]
  · intro hname
    exact h.distinct _ hxbox _ hybox ((h.valid _ hxbox).mpr ⟨x, hx, rfl⟩)
      ((h.valid _ hybox).mpr ⟨y, hy, rfl⟩) (by rw [hxname, hyname, hname])

theorem Tended.null (h : Tended s d) (hnull : s.opens name = none) :
    ∃ other : Fin maxBoxNum → Handle,
      (∀ i, other i ∈ d.handles ∧ (other i).name ≠ name) ∧
        ∀ i j, (other i).name = (other j).name → i = j := by
  unfold MboxState.opens at hnull
  split at hnull
  · cases hnull
  rename_i hnone
  have hused : ∀ i : Fin maxBoxNum, ∃ x ∈ d.handles, x.box = i := fun i =>
    (h.valid i i.isLt).mp (findInvalid_eq_none hnull i.isLt)
  choose other hmem hbox using hused
  refine ⟨other, fun i => ⟨hmem i, fun hname => ?_⟩, fun i j hname => ?_⟩
  · have hbox' := (h.named _ (hmem i)).2
    rw [hbox i, hname] at hbox'
    exact findName_eq_none hnone i.isLt (findInvalid_eq_none hnull i.isLt) hbox'
  · have hsame := (h.same_iff (hmem i) (hmem j)).mpr hname
    rw [hbox i, hbox j] at hsame
    exact Fin.ext hsame

theorem Tended.starts_empty (h : Tended s d) {i : Nat} (hunused : ∀ x ∈ d.handles, x.box ≠ i)
    (hopens : s.opens name = some i) (hopen : s.mboxOpen name = .ok s') :
    (s'.mboxs i).content = [] := by
  unfold MboxState.opens at hopens
  unfold MboxState.mboxOpen at hopen
  split at hopens
  · rename_i j hfind
    obtain ⟨hj, hvalid, -⟩ := findName_eq_some hfind
    obtain rfl := Option.some.inj hopens
    obtain ⟨x, hx, hbox⟩ := (h.valid j hj).mp hvalid
    exact absurd hbox (hunused x hx)
  · rename_i hnone
    simp only [hnone, hopens] at hopen
    obtain ⟨k₁, -, hopen⟩ := bind_eq_ok.mp hopen
    obtain ⟨k₂, -, hopen⟩ := bind_eq_ok.mp hopen
    obtain ⟨k₃, -, hs'⟩ := bind_eq_ok.mp hopen
    cases hs'
    simp [MboxState.setPc, MboxState.modifyBox, Mailbox.content]

theorem named_of_run {kernel : Kernel} {events : List MboxEvent}
    (run : handleSystem.Run (MboxState.boot kernel, Desk.empty) events (s, d)) : Named s d := by
  have h : Tended s d :=
    run.invariant (I := fun a => Tended a.1 a.2) (fun _ _ _ => Tended.step) (boot_tended kernel)
  exact ⟨fun _ hbox => h.valid_iff hbox, h.userNum, h.distinct,
    fun _ hx _ hy => h.same_iff hx hy, fun _ hnull => h.null hnull,
    fun _ _ _ hunused hopens hopen => h.starts_empty hunused hopens hopen⟩

/-- The spawned task has opened a mailbox. -/
theorem named_opened : ∃ events s,
    handleSystem.Run (MboxState.boot spawned, Desk.empty) events
      (s, Desk.empty.issue 0 "box") ∧
    Named s (Desk.empty.issue 0 "box") ∧ (s.mboxs 0).userNum = 1 := by
  let s₁ := ((MboxState.boot spawned).call (.mboxOpen "box")).toOption.getD
    (MboxState.boot spawned)
  let s₂ := s₁.advance.toOption.getD s₁
  have hcall : handleSystem.step (MboxState.boot spawned, Desk.empty) (.call (.mboxOpen "box"))
      (s₁, Desk.empty) :=
    ⟨⟨⟨by decide +kernel, by decide +kernel, rfl⟩,
      eq_ok_getD (by decide +kernel) (MboxState.boot spawned)⟩, rfl⟩
  have hpc : s₁.pc s₁.kernel.currentRunning = .opening "box" := by decide +kernel
  have hopens : s₁.opens "box" = some 0 := by decide +kernel
  have hadvance : handleSystem.step (s₁, Desk.empty) .advance
      (s₂, Desk.empty.issue 0 "box") := by
    refine ⟨⟨show s₁.kernel.kont _ = _ by decide +kernel, eq_ok_getD (by decide +kernel) s₁⟩, ?_⟩
    simp only [Desk.Serves, hpc, hopens, Option.elim_some]
  have run := (Lts.Run.single hcall).snoc hadvance
  exact ⟨_, s₂, run, named_of_run run, by decide +kernel⟩

end UcasOs.Libs

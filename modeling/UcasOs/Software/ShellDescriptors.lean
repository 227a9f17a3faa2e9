import UcasOs.Fs.ClosedDescriptors
import UcasOs.Fs.Namespace
import UcasOs.Software.Shell

/-!
# The descriptors of the shell

`cat` and `run` of `kernel/software/shell.c` open a file and never close it.
What the other tasks do with descriptors of their own is left out.
-/

namespace UcasOs.Software

open UcasOs.Foundation UcasOs.Libs UcasOs.Fs

/-! ## What a command line does to the file system -/

/-- The string of an argument; a pointer that was never set points at `stray`. -/
def argBytes (stray : CString) : Arg → List UInt8
  | some s => s
  | none => stray.bytes

/-- The calls that touch no file are given any answer. -/
def Call.Effect (stray : CString) (σ : FsState) (answer : Int) (σ' : FsState) : Call → Prop
  | .mkfs => ∃ u, σ' = Fs.mkfs u σ
  | .mount => σ' = Fs.mount σ
  | .mkdir s => ∃ name d, name.bytes = argBytes stray s ∧ σ' = ((NameCall.mkdir d name).run σ).1
  | .rmdir s => ∃ name, name.bytes = argBytes stray s ∧ σ' = ((NameCall.rmdir name).run σ).1
  | .cd s => ∃ name, name.bytes = argBytes stray s ∧ σ' = ((NameCall.cd name).run σ).1
  | .touch s => ∃ name, name.bytes = argBytes stray s ∧ σ' = ((NameCall.touch name).run σ).1
  | .fopen s access => ∃ name, name.bytes = argBytes stray s ∧
      Fs.fopen name access σ = (σ', answer)
  | .fread fd size => ∃ bytes total,
      Fs.fread fd (UInt32.ofNat size) σ = .ok (σ', bytes, total) ∧ answer = total.toNat
  | _ => σ' = σ

inductive Talk.Plays (stray : CString) : Talk → FsState → FsState → Prop
  | done (σ : FsState) : Plays stray .done σ σ
  | call {c : Call} {next : Int → Talk} {answer : Int} {σ σ₁ σ' : FsState} :
      c.Effect stray σ answer σ₁ → Plays stray (next answer) σ₁ σ' →
        Plays stray (.call c next) σ σ'

/-- The buffer when a line is entered, and what a pointer that was never set points at. -/
structure Line where
  shell : Shell
  stray : CString

/-- From one prompt to the next. -/
def prompts : Lts FsState Line where
  step σ line σ' := ∃ rounds header,
    (parseCommend rounds header line.shell.entered).2.Plays line.stray σ σ'

/-! ## What is open -/

def openDescriptors (σ : FsState) : Set Nat :=
  { fd | Allocated σ.fdArraySlist fdArraySlistSize (fd + 1) }

/-- The same descriptors are open, and `fopen` finds one if and only if it did. -/
structure GivenBack (σ₀ σ : FsState) : Prop where
  same : openDescriptors σ = openDescriptors σ₀
  supply : slistIsInsufficient σ.fdArraySlist = slistIsInsufficient σ₀.fdArraySlist

/-- The name is that of a regular file, and there is a descriptor for it. -/
def CanOpen (name : CString) (σ : FsState) : Prop :=
  (isFileExist name σ).toNat ≠ 0 ∧
    (readInodes σ.disk (isFileExist name σ).toNat (inoRemain (isFileExist name σ).toNat)).type =
      fileNormal ∧
    slistIsInsufficient σ.fdArraySlist = false

/-- The line is a `cat` or a `run` of a file that can be opened. -/
def Line.Opens (line : Line) (σ : FsState) : Prop :=
  (findCommend (splitCommend line.shell.entered).2.commendPart = some .cat ∨
    findCommend (splitCommend line.shell.entered).2.commendPart = some .run) ∧
  ∃ name : CString,
    name.bytes = argBytes line.stray (splitCommend line.shell.entered).2.argString ∧
      CanOpen name σ

variable {stray name : CString} {σ σ' σ₀ : FsState} {line : Line} {lines : List Line}

/-! ## One call -/

theorem iarrayAlloc_slist (σ : FsState) : (iarrayAlloc σ).1.fdArraySlist = σ.fdArraySlist := by
  unfold iarrayAlloc
  split <;> rfl

theorem newEntry_slist (s : CString) (σ : FsState) :
    (newEntry s σ).1.fdArraySlist = σ.fdArraySlist := by
  rcases newEntry_cases s σ with ⟨-, m, hnew⟩ | ⟨-, -, i, -, hnew⟩ |
    ⟨-, i, σ₁, n, -, -, halloc, hnew⟩
  · rw [hnew]
  · rw [hnew]
    rfl
  · have hslist := iarrayAlloc_slist (setEntry i { σ.currentDir.map i with valid := 1 } σ)
    rw [halloc] at hslist
    rw [hnew]
    exact hslist

theorem mkdir_slist (d : Dir) (s : CString) (σ : FsState) :
    (mkdir d s σ).1.fdArraySlist = σ.fdArraySlist := by
  have hentry := newEntry_slist s σ
  unfold mkdir
  split
  · rename_i τ m hrun
    rwa [hrun] at hentry
  · rename_i τ ino hrun
    rw [hrun] at hentry
    have hblock := (darrayAlloc_sameDir τ).1.fdArraySlist
    dsimp only
    split
    · rename_i τ' hrun'
      rw [hrun'] at hblock
      exact hblock.trans hentry
    · rename_i τ' dno hrun'
      rw [hrun'] at hblock
      exact hblock.trans hentry

theorem touch_slist (s : CString) (σ : FsState) :
    (touch s σ).1.fdArraySlist = σ.fdArraySlist := by
  have hentry := newEntry_slist s σ
  unfold touch
  split
  · rename_i τ m hrun
    rwa [hrun] at hentry
  · rename_i τ ino hrun
    rwa [hrun] at hentry

theorem rmdir_slist (s : CString) (σ : FsState) :
    (rmdir s σ).1.fdArraySlist = σ.fdArraySlist := by
  unfold rmdir
  split
  · rfl
  · dsimp only
    split
    · rfl
    · split <;> rfl

theorem cd_slist (s : CString) (σ : FsState) : (cd s σ).1.fdArraySlist = σ.fdArraySlist := by
  unfold cd
  split
  · split <;> rfl
  · split
    · rfl
    · split
      · rfl
      · dsimp only
        split <;> rfl

theorem nameCall_slist (call : NameCall) (σ : FsState) :
    (call.run σ).1.fdArraySlist = σ.fdArraySlist := by
  cases call with
  | mkdir d s => exact mkdir_slist d s σ
  | rmdir s => exact rmdir_slist s σ
  | touch s => exact touch_slist s σ
  | cd s => exact cd_slist s σ

/-- Only `fopen` takes from the list. -/
theorem Call.Effect.slist {c : Call} {answer : Int} (h : c.Effect stray σ answer σ')
    (hopen : ∀ s access, c ≠ .fopen s access) : σ'.fdArraySlist = σ.fdArraySlist := by
  cases c with
  | mkfs =>
      obtain ⟨u, rfl⟩ := h
      rfl
  | mount =>
      cases h
      rfl
  | mkdir s =>
      obtain ⟨name, d, -, rfl⟩ := h
      exact nameCall_slist _ σ
  | rmdir s =>
      obtain ⟨name, -, rfl⟩ := h
      exact nameCall_slist _ σ
  | cd s =>
      obtain ⟨name, -, rfl⟩ := h
      exact nameCall_slist _ σ
  | touch s =>
      obtain ⟨name, -, rfl⟩ := h
      exact nameCall_slist _ σ
  | fopen s access => exact absurd rfl (hopen s access)
  | fread fd size =>
      obtain ⟨bytes, total, hread, -⟩ := h
      rcases fread_fields hread with rfl | ⟨i, f, -, rfl⟩ <;> rfl
  | _ =>
      cases h
      rfl

/-- `fopen` takes a descriptor exactly if the file can be opened. -/
theorem fopen_slist (name : CString) (access : UInt32) (σ : FsState) :
    (CanOpen name σ → (fopen name access σ).1.fdArraySlist = (slistAlloc σ.fdArraySlist).2) ∧
      (¬ CanOpen name σ → (fopen name access σ).1.fdArraySlist = σ.fdArraySlist) := by
  unfold fopen CanOpen
  dsimp only
  by_cases hexist : (isFileExist name σ).toNat = 0
  · rw [if_pos hexist]
    exact ⟨fun h => absurd hexist h.1, fun _ => rfl⟩
  rw [if_neg hexist]
  split
  · rename_i htype
    exact ⟨fun h => absurd h.2.1 htype, fun _ => rfl⟩
  · rename_i htype
    have hlist : (if (fdArrayAlloc σ).2 = -1 then ((fdArrayAlloc σ).1, (-1 : Int))
        else (setFd (fdArrayAlloc σ).2.toNat ⟨UInt32.ofNat (inoRemain (isFileExist name σ).toNat),
          access, (readInodes σ.disk (isFileExist name σ).toNat
            (inoRemain (isFileExist name σ).toNat)).size, 0⟩ (fdArrayAlloc σ).1,
          (fdArrayAlloc σ).2)).1.fdArraySlist = (slistAlloc σ.fdArraySlist).2 := by
      split <;> rfl
    refine ⟨fun _ => hlist, fun h => hlist.trans ?_⟩
    have hfull : slistIsInsufficient σ.fdArraySlist = true := by
      by_contra hfree
      exact h ⟨hexist, not_not.mp htype, by simpa using hfree⟩
    rw [slistAlloc, if_pos hfull]

/-! ## One line -/

/-- No call that can be made is an `fopen`. -/
def Talk.OpensNone : Talk → Prop
  | .done => True
  | .call c next => (∀ s access, c ≠ .fopen s access) ∧ ∀ answer, (next answer).OpensNone

theorem Talk.Plays.slist {talk : Talk} (h : talk.Plays stray σ σ') (hnone : talk.OpensNone) :
    σ'.fdArraySlist = σ.fdArraySlist := by
  induction h with
  | done => rfl
  | call heffect _ ih => exact (ih (hnone.2 _)).trans (heffect.slist hnone.1)

theorem calls_opensNone {calls : List Call} (h : ∀ s access, .fopen s access ∉ calls) :
    (Talk.calls calls).OpensNone := by
  induction calls with
  | nil => trivial
  | cons c rest ih =>
      refine ⟨fun s access hc => h s access (by simp [hc]), fun _ => ?_⟩
      exact ih fun s access hmem => h s access (List.mem_cons_of_mem _ hmem)

theorem catLoop_opensNone (fd : Int) (n : Nat) : (catLoop fd n).OpensNone := by
  induction n with
  | zero => trivial
  | succ n ih =>
      refine ⟨fun _ _ h => (nomatch h), fun size => ⟨fun _ _ h => (nomatch h), fun _ => ?_⟩⟩
      dsimp only
      split
      · exact ih
      · trivial

/-- `cat` and `run` begin with the only `fopen` there is. -/
theorem handler_cases (rounds : Nat) (header : Bool) (argInt : BitVec 32) (argString : Arg)
    (c : Commend) :
    (∃ next, (c = .cat ∨ c = .run) ∧
      c.handler rounds header argInt argString = .call (.fopen argString oRd) next ∧
        ∀ answer, (next answer).OpensNone) ∨
    (¬ (c = .cat ∨ c = .run) ∧ (c.handler rounds header argInt argString).OpensNone) := by
  cases c with
  | cat =>
      refine .inl ⟨_, .inl rfl, rfl, fun fd => ?_⟩
      split
      · exact calls_opensNone (by simp)
      · exact catLoop_opensNone fd rounds
  | run =>
      refine .inl ⟨_, .inr rfl, rfl, fun fd => ?_⟩
      split
      · exact calls_opensNone (by simp)
      · refine ⟨fun _ _ h => (nomatch h), fun _ => ?_⟩
        split <;> exact calls_opensNone (by simp)
  | clear =>
      refine .inr ⟨by decide, ?_⟩
      simp only [Commend.handler]
      split
      · exact calls_opensNone (by simp)
      · split <;> exact calls_opensNone (by simp)
  | exec =>
      refine .inr ⟨by decide, ?_⟩
      simp only [Commend.handler]
      split
      · exact calls_opensNone (by simp)
      · split
        · exact calls_opensNone (by simp)
        · refine ⟨fun _ _ h => (nomatch h), fun _ => ?_⟩
          dsimp only
          split
          · exact calls_opensNone (by simp)
          · trivial
  | kill =>
      refine .inr ⟨by decide, fun _ _ h => (nomatch h), fun _ => ?_⟩
      dsimp only
      split
      · exact calls_opensNone (by simp)
      · trivial
  | _ => exact .inr ⟨by decide, calls_opensNone (by simp)⟩

/-- A line takes a descriptor exactly if it opens a file. -/
theorem prompts_slist (h : prompts.step σ line σ') :
    (line.Opens σ → σ'.fdArraySlist = (slistAlloc σ.fdArraySlist).2) ∧
      (¬ line.Opens σ → σ'.fdArraySlist = σ.fdArraySlist) := by
  obtain ⟨rounds, header, hplays⟩ := h
  unfold Line.Opens
  unfold parseCommend at hplays
  dsimp only at hplays
  cases hfind : findCommend (splitCommend line.shell.entered).2.commendPart with
  | none =>
      rw [hfind] at hplays
      refine ⟨fun h => by simp at h, fun _ => ?_⟩
      dsimp only at hplays
      split at hplays
      · exact hplays.slist (calls_opensNone (by simp))
      · exact hplays.slist trivial
  | some c =>
      rw [hfind] at hplays
      dsimp only at hplays
      simp only [Option.some.injEq]
      rcases handler_cases rounds header (splitCommend line.shell.entered).2.argInt
        (splitCommend line.shell.entered).2.argString c with
        ⟨next, hc, hhandler, hnone⟩ | ⟨hc, hnone⟩
      · rw [hhandler] at hplays
        cases hplays with
        | call heffect hrest =>
            obtain ⟨name, hname, hopen⟩ := heffect
            have hslist := fopen_slist name oRd σ
            rw [hopen] at hslist
            rw [hrest.slist (hnone _)]
            constructor
            · rintro ⟨-, ⟨bytes, hzero⟩, hbytes, hcan⟩
              obtain rfl : bytes = name.bytes := hbytes.trans hname.symm
              exact hslist.1 hcan
            · intro h
              exact hslist.2 fun hcan => h ⟨hc, name, hname, hcan⟩
      · exact ⟨fun h => absurd h.1 hc, fun _ => hplays.slist hnone⟩

/-! ## Many lines -/

/-- The list stays a list, what is open stays open, and opening a file opens one more. -/
theorem prompts_grows (hlist : ∃ free, Implements σ.fdArraySlist fdArraySlistSize free)
    (h : prompts.step σ line σ') :
    (∃ free, Implements σ'.fdArraySlist fdArraySlistSize free) ∧
      openDescriptors σ ⊆ openDescriptors σ' ∧
      (line.Opens σ → ∃ fd ∈ openDescriptors σ', fd ∉ openDescriptors σ) := by
  obtain ⟨free, himpl⟩ := hlist
  obtain ⟨hopens, hquiet⟩ := prompts_slist h
  by_cases hopen : line.Opens σ
  · have hlist' := hopens hopen
    obtain ⟨-, name, -, -, -, hfree⟩ := hopen
    cases free with
    | nil =>
        have hcursor : (σ.fdArraySlist 0).cursor = 0 := himpl.chain
        simp [slistIsInsufficient, hcursor] at hfree
    | cons t rest =>
        obtain ⟨-, himpl', hpos, -, hiff⟩ := slistAlloc_cons himpl
        rw [← hlist'] at himpl' hiff
        obtain ⟨fd, rfl⟩ := Nat.exists_eq_add_of_le' hpos
        have hnew := (himpl.mem_iff (fd + 1)).mp (List.mem_cons_self ..)
        refine ⟨⟨rest, himpl'⟩, fun e he => (hiff _).mpr (.inr he), fun _ => ?_⟩
        refine ⟨fd, (hiff _).mpr (.inl rfl), fun hold => ?_⟩
        have hvalid : (σ.fdArraySlist (fd + 1)).valid = true := hold.2.2
        rw [hnew.2.2] at hvalid
        cases hvalid
  · have hlist' := hquiet hopen
    refine ⟨⟨free, hlist' ▸ himpl⟩, ?_, fun h => absurd h hopen⟩
    unfold openDescriptors
    rw [hlist']

theorem grows_of_run (hlist : ∃ free, Implements σ₀.fdArraySlist fdArraySlistSize free)
    (run : prompts.Run σ₀ lines σ) :
    (∃ free, Implements σ.fdArraySlist fdArraySlistSize free) ∧
      openDescriptors σ₀ ⊆ openDescriptors σ := by
  induction run with
  | nil => exact ⟨hlist, subset_rfl⟩
  | snoc _ hstep ih =>
      obtain ⟨hlist', hsub, -⟩ := prompts_grows ih.1 hstep
      exact ⟨hlist', ih.2.trans hsub⟩

/-- Without a file being opened the list stays as it is. -/
theorem same_of_run (run : (prompts.restrict fun σ line => ¬ line.Opens σ).Run σ₀ lines σ) :
    σ.fdArraySlist = σ₀.fdArraySlist := by
  induction run with
  | nil => rfl
  | snoc _ hstep ih => exact ((prompts_slist hstep.2).2 hstep.1).trans ih

theorem GivenBack.of_eq (h : σ.fdArraySlist = σ₀.fdArraySlist) : GivenBack σ₀ σ := by
  refine ⟨?_, by rw [h]⟩
  unfold openDescriptors
  rw [h]

/--
A shell gives its descriptors back exactly if none of its lines is a `cat` or a
`run` of a regular file for which there is a descriptor.
-/
theorem givenBack_iff (hlist : ∃ free, Implements σ₀.fdArraySlist fdArraySlistSize free)
    (run : prompts.Run σ₀ lines σ) :
    GivenBack σ₀ σ ↔ (prompts.restrict fun σ line => ¬ line.Opens σ).Run σ₀ lines σ := by
  refine ⟨fun hback => ?_, fun hquiet => .of_eq (same_of_run hquiet)⟩
  induction run with
  | nil => exact .nil _
  | snoc run hstep ih =>
      obtain ⟨hlist', hsub₀⟩ := grows_of_run hlist run
      obtain ⟨-, hsub, hmore⟩ := prompts_grows hlist' hstep
      have hquiet : ¬ Line.Opens _ _ := fun hopens => by
        obtain ⟨fd, hfd, hnew⟩ := hmore hopens
        rw [hback.same] at hfd
        exact hnew (hsub₀ hfd)
      have hsame := (prompts_slist hstep).2 hquiet
      refine .snoc (ih ⟨?_, ?_⟩) ⟨hquiet, hstep⟩
      · rw [← hback.same]
        unfold openDescriptors
        rw [hsame]
      · rw [← hback.supply, hsame]

def typed (keys : List UInt8) : Line :=
  ⟨⟨fun i => keys.getD i 0, keys.length, []⟩, ⟨[], by decide⟩⟩

/-- `touch a` -/
def touchLine : Line := typed [0x74, 0x6f, 0x75, 0x63, 0x68, 0x20, 0x61]

/-- `cat a` -/
def catLine : Line := typed [0x63, 0x61, 0x74, 0x20, 0x61]

theorem parseCommend_touchLine (rounds : Nat) (header : Bool) :
    (parseCommend rounds header touchLine.shell.entered).2 = .calls [.touch (some [0x61])] := by
  have hsplit : (splitCommend touchLine.shell.entered).2 =
      ⟨[0x74, 0x6f, 0x75, 0x63, 0x68], some [0x61], -1⟩ := by decide +kernel
  have hfind : findCommend [0x74, 0x6f, 0x75, 0x63, 0x68] = some .touch := by decide +kernel
  simp only [parseCommend, hsplit, hfind, Commend.handler]

theorem splitCommend_catLine :
    (splitCommend catLine.shell.entered).2 = ⟨[0x63, 0x61, 0x74], some [0x61], -1⟩ := by
  decide +kernel

theorem findCommend_cat : findCommend [0x63, 0x61, 0x74] = some .cat := by decide +kernel

/-- What there is after `touch a` on a new file system. -/
def touchedFs : FsState := (touch fileName newFs).1

theorem newFs_implements : ∃ free, Implements newFs.fdArraySlist fdArraySlistSize free :=
  ⟨_, slistInit_implements (by decide)⟩

theorem touchLine_step : prompts.step newFs touchLine touchedFs := by
  refine ⟨0, false, ?_⟩
  have heffect : (Call.touch (some [0x61])).Effect touchLine.stray newFs 0 touchedFs :=
    ⟨fileName, rfl, rfl⟩
  rw [parseCommend_touchLine]
  exact .call heffect (.done _)

/-- A file that is not there is not opened. -/
theorem catLine_missing (h : (isFileExist fileName σ).toNat = 0) : prompts.step σ catLine σ := by
  refine ⟨0, false, ?_⟩
  have hopen : fopen fileName oRd σ = (σ, -1) := by rw [fopen, if_pos h]
  have heffect : (Call.fopen (some [0x61]) oRd).Effect catLine.stray σ (-1) σ :=
    ⟨fileName, rfl, hopen⟩
  have hprint : (Call.printf "Error: open file failed.\n").Effect catLine.stray σ 0 σ := rfl
  simp only [parseCommend, splitCommend_catLine, findCommend_cat, Commend.handler]
  exact .call heffect (.call hprint (.done _))

theorem not_opens_touchLine : ¬ touchLine.Opens σ := by
  have hfind : findCommend (splitCommend touchLine.shell.entered).2.commendPart = some .touch := by
    decide +kernel
  rintro ⟨hcommend, -⟩
  rw [hfind] at hcommend
  simp at hcommend

theorem givenBack_two :
    (∃ free, Implements newFs.fdArraySlist fdArraySlistSize free) ∧
      prompts.Run newFs [catLine, touchLine] touchedFs ∧ GivenBack newFs touchedFs := by
  have hmissing : (isFileExist fileName newFs).toNat = 0 := by decide +kernel
  have hcat : ¬ catLine.Opens newFs := by
    rintro ⟨-, ⟨bytes, hzero⟩, hname, hcan⟩
    rw [splitCommend_catLine] at hname
    obtain rfl : bytes = fileName.bytes := hname
    exact hcan.1 hmissing
  have run : prompts.Run newFs [catLine, touchLine] touchedFs :=
    .snoc (.single (catLine_missing hmissing)) touchLine_step
  have hcatStep : (prompts.restrict fun σ line => ¬ line.Opens σ).step newFs catLine newFs :=
    ⟨hcat, catLine_missing hmissing⟩
  have htouchStep : (prompts.restrict fun σ line => ¬ line.Opens σ).step newFs touchLine
      touchedFs :=
    ⟨not_opens_touchLine, touchLine_step⟩
  exact ⟨newFs_implements, run,
    (givenBack_iff newFs_implements run).mpr (.snoc (.single hcatStep) htouchStep)⟩

/-- The file is empty, so that `cat` leaves its loop at once. -/
theorem catLine_step : prompts.step touchedFs catLine (fopen fileName oRd touchedFs).1 := by
  have hfd : (fopen fileName oRd touchedFs).2 = 0 := by decide +kernel
  have hend : ((fopen fileName oRd touchedFs).1.fdArray 0).size =
      ((fopen fileName oRd touchedFs).1.fdArray 0).offset := by
    decide +kernel
  have hopen : (Call.fopen (some [0x61]) oRd).Effect catLine.stray touchedFs 0
      (fopen fileName oRd touchedFs).1 :=
    ⟨fileName, rfl, by rw [← hfd]⟩
  have hindex : fdIndex 0 = .ok 0 := rfl
  have hread : (Call.fread 0 512).Effect catLine.stray (fopen fileName oRd touchedFs).1 0
      (fopen fileName oRd touchedFs).1 :=
    ⟨[], 0, fread_nothing hindex (.inr hend), rfl⟩
  have hprint : Call.printString.Effect catLine.stray (fopen fileName oRd touchedFs).1 0
      (fopen fileName oRd touchedFs).1 := rfl
  refine ⟨1, false, ?_⟩
  simp only [parseCommend, splitCommend_catLine, findCommend_cat, Commend.handler]
  exact .call hopen (.call hread (.call hprint (.done _)))

theorem givenBack_not_cat : ¬ ∀ (σ₀ σ : FsState) (lines : List Line),
    (∃ free, Implements σ₀.fdArraySlist fdArraySlistSize free) →
      prompts.Run σ₀ lines σ → GivenBack σ₀ σ := by
  intro h
  have run : prompts.Run newFs [touchLine, catLine] (fopen fileName oRd touchedFs).1 :=
    .snoc (.single touchLine_step) catLine_step
  have hopen : 0 ∈ openDescriptors (fopen fileName oRd touchedFs).1 := by
    show Allocated (fopen fileName oRd touchedFs).1.fdArraySlist fdArraySlistSize (0 + 1)
    decide +kernel
  have hclosed : ¬ Allocated newFs.fdArraySlist fdArraySlistSize (0 + 1) := by decide +kernel
  rw [(h _ _ _ newFs_implements run).same] at hopen
  exact hclosed hopen

end UcasOs.Software

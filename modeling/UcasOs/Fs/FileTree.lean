import UcasOs.Fs.PathRefinement
import UcasOs.Fs.Files

/-!
# What the file system is for

The tree of paths, with the bytes of every file, and descriptors that stand at a
place in a file.  A descriptor reads no further than the file went when it was
opened, and what it has written itself.  A restart closes all descriptors.
That the calls do the same on the disk is proved in `Fs.FileRefinement`.
-/

namespace UcasOs.Fs

open UcasOs.Foundation UcasOs.Libs

structure Opened where
  path : Path
  access : UInt32
  offset : Nat
  size : Nat

namespace Opened

def Readable (f : Opened) : Prop := f.access = oRdwr ∨ f.access = oRd

def Writable (f : Opened) : Prop := f.access = oRdwr ∨ f.access = oWr

instance decidableReadable (f : Opened) : Decidable f.Readable :=
  inferInstanceAs (Decidable (_ ∨ _))

def reads (f : Opened) (data : List UInt8) (n : Nat) : List UInt8 :=
  if f.Readable then ((data.take f.size).drop f.offset).take n else []

/-- The bytes would not fit into the blocks that a file up to the offset needs. -/
def NeedsBlock (f : Opened) (n : Nat) : Prop := (f.offset + 511) / 512 * 512 < f.offset + n

end Opened

structure FileTree where
  tree : PathTree
  data : Path → List UInt8
  handle : Int → Option Opened

/-- A call with its answer, or a restart with anything in memory. -/
inductive Exchange where
  | name (call : NameCall) (answer : Option Message)
  | fopen (s : CString) (access : UInt32) (fd : Int)
  | fclose (fd : Int) (closed : Bool)
  | fread (fd : Int) (size : UInt32) (bytes : List UInt8) (total : UInt32)
  | fwrite (fd : Int) (bytes : List UInt8) (written : UInt32)
  | fseek (fd : Int) (offset : UInt32)
  | restart (u : MkfsLocals) (memory : FsState)

namespace FileTree

def empty : FileTree := ⟨.root, fun _ => [], fun _ => none⟩

def setHandle (a : FileTree) (fd : Int) (f : Option Opened) : FileTree :=
  { a with handle := Function.update a.handle fd f }

theorem setHandle_self (a : FileTree) {fd : Int} {f : Opened} (h : a.handle fd = some f) :
    a.setHandle fd (some f) = a := by
  rw [setHandle, ← h, Function.update_eq_self]

def append (a : FileTree) (path : Path) (bytes : List UInt8) : FileTree :=
  { a with data := Function.update a.data path (a.data path ++ bytes) }

theorem data_append_self (a : FileTree) (path : Path) (bytes : List UInt8) :
    (a.append path bytes).data path = a.data path ++ bytes := Function.update_self _ _ _

theorem data_prefix_append (a : FileTree) (path : Path) (bytes : List UInt8) (other : Path) :
    a.data other <+: (a.append path bytes).data other := by
  by_cases hpath : other = path
  · rw [hpath, data_append_self]
    exact List.prefix_append _ _
  · change _ <+: Function.update a.data path _ other
    rw [Function.update_of_ne hpath]

/-- No descriptor is free. -/
def Full (a : FileTree) : Prop := ∀ fd : Int, 0 ≤ fd → fd < fdArraySize → a.handle fd ≠ none

def place (a : FileTree) (s : CString) : Path := a.tree.here ++ [s.bytes]

/-- What an exchange does. -/
def Moves (a b : FileTree) : Exchange → Prop
  | .name call answer => ∃ tree, call.act a.tree = (tree, answer) ∧ b = { a with tree }
  | .fopen s access fd =>
      (fd = -1 ∧ (a.tree.kind (a.place s) ≠ some .file ∨ a.Full) ∧ b = a) ∨
      (fd ≠ -1 ∧ a.tree.kind (a.place s) = some .file ∧ a.handle fd = none ∧
        b = a.setHandle fd (some ⟨a.place s, access, 0, (a.data (a.place s)).length⟩))
  | .fclose fd closed => closed = (a.handle fd).isSome ∧ b = a.setHandle fd none
  | .fread fd size bytes total => total.toNat = bytes.length ∧
      ((a.handle fd = none ∧ bytes = [] ∧ b = a) ∨
        ∃ f, a.handle fd = some f ∧ bytes = f.reads (a.data f.path) size.toNat ∧
          b = a.setHandle fd (some { f with offset := f.offset + bytes.length }))
  | .fwrite fd bytes written =>
      (a.handle fd = none ∧ written = 0 ∧ b = a) ∨
      ∃ f, a.handle fd = some f ∧
        ((written = 0 ∧ (¬ f.Writable ∨ bytes = [] ∨ f.NeedsBlock bytes.length) ∧ b = a) ∨
          (f.Writable ∧ f.offset = (a.data f.path).length ∧ written.toNat = bytes.length ∧
            b = (a.append f.path bytes).setHandle fd (some { f with
              offset := f.offset + bytes.length, size := f.size + bytes.length })))
  | .fseek fd offset =>
      (a.handle fd = none ∧ b = a) ∨
      ∃ f, a.handle fd = some f ∧ b = a.setHandle fd (some { f with offset := offset.toNat })
  | .restart _ _ => b = ⟨{ a.tree with here := [] }, a.data, fun _ => none⟩

end FileTree

def fileTreeSystem : Lts FileTree Exchange where
  step a exchange b := a.Moves b exchange

/-! ## Files stay -/

theorem PathTree.create_file {a : PathTree} {what : Kind} {s : CString} {path : Path}
    (h : a.kind path = some .file) : (a.create what s).1.kind path = some .file := by
  unfold create
  split
  · exact h
  · split
    · exact h
    · rename_i hfree
      split
      · exact h
      · have hne : path ≠ a.here ++ [s.bytes] := by
          rintro rfl
          rw [h] at hfree
          exact hfree (Option.some_ne_none _)
        exact (Function.update_of_ne hne _ _).trans h

theorem PathTree.rmdir_file {a : PathTree} {s : CString} {path : Path}
    (h : a.kind path = some .file) : (a.rmdir s).1.kind path = some .file := by
  cases hkind : a.kind (a.here ++ [s.bytes]) with
  | none => simp [rmdir, hkind, h]
  | some what =>
      cases what with
      | file => simp [rmdir, hkind, h]
      | directory =>
          have hne : path ≠ a.here ++ [s.bytes] := by
            rintro rfl
            rw [h] at hkind
            cases hkind
          by_cases hempty : a.names (a.here ++ [s.bytes]) = ∅
          · simp [rmdir, hkind, hempty, put, Function.update_of_ne hne, h]
          · simp [rmdir, hkind, hempty, h]

theorem PathTree.cd_kind (a : PathTree) (s : CString) : (a.cd s).1.kind = a.kind := by
  unfold cd
  split
  · rfl
  · split
    · rfl
    · cases a.kind (a.goal s) with
      | none => rfl
      | some what => cases what <;> rfl

theorem NameCall.act_file {a : PathTree} {path : Path} (call : NameCall)
    (h : a.kind path = some .file) : (call.act a).1.kind path = some .file := by
  cases call with
  | mkdir d s => exact PathTree.create_file h
  | rmdir s => exact PathTree.rmdir_file h
  | touch s => exact PathTree.create_file h
  | cd s =>
      change (a.cd s).1.kind path = _
      rw [PathTree.cd_kind, h]

/-- Where there is a file, there is one afterwards, with more at its end at most. -/
theorem FileTree.Moves.keeps {a b : FileTree} {exchange : Exchange} (h : a.Moves b exchange)
    {path : Path} (hfile : a.tree.kind path = some .file) :
    b.tree.kind path = some .file ∧ a.data path <+: b.data path := by
  cases exchange with
  | name call answer =>
      obtain ⟨tree, hact, rfl⟩ := h
      have hkept := call.act_file hfile
      rw [hact] at hkept
      exact ⟨hkept, List.prefix_rfl⟩
  | fopen s access fd =>
      obtain ⟨-, -, rfl⟩ | ⟨-, -, -, rfl⟩ := h
      · exact ⟨hfile, List.prefix_rfl⟩
      · exact ⟨hfile, List.prefix_rfl⟩
  | fclose fd closed =>
      obtain ⟨-, rfl⟩ := h
      exact ⟨hfile, List.prefix_rfl⟩
  | fread fd size bytes total =>
      obtain ⟨-, ⟨-, -, rfl⟩ | ⟨f, -, -, rfl⟩⟩ := h
      · exact ⟨hfile, List.prefix_rfl⟩
      · exact ⟨hfile, List.prefix_rfl⟩
  | fwrite fd bytes written =>
      obtain ⟨-, -, rfl⟩ | ⟨f, -, ⟨-, -, rfl⟩ | ⟨-, -, -, rfl⟩⟩ := h
      · exact ⟨hfile, List.prefix_rfl⟩
      · exact ⟨hfile, List.prefix_rfl⟩
      · exact ⟨hfile, a.data_prefix_append f.path bytes path⟩
  | fseek fd offset =>
      obtain ⟨-, rfl⟩ | ⟨f, -, rfl⟩ := h
      · exact ⟨hfile, List.prefix_rfl⟩
      · exact ⟨hfile, List.prefix_rfl⟩
  | restart u memory =>
      obtain rfl := h
      exact ⟨hfile, List.prefix_rfl⟩

end UcasOs.Fs

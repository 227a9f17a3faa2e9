import UcasOs.Drivers.Screen
import UcasOs.Foundation.Run
import UcasOs.Fs.Operations

/-!
# The shell

`kernel/software/shell.c`: keys are collected in `input_buffer`, and a line is
split at its first space and looked up in a table of commands.  What the shell
echoes while a line is typed is left out.
-/

namespace UcasOs.Software

open UcasOs.Foundation UcasOs.Libs UcasOs.Drivers

def space : UInt8 := 0x20

/-- The signed value is `a.toInt`; a number that is too large wraps around. -/
def atoiFrom (res : BitVec 32) : List UInt8 → BitVec 32
  | [] => res
  | c :: s =>
      if 0x30 ≤ c ∧ c ≤ 0x39 then atoiFrom (res * 10 + BitVec.ofNat 32 (c.toNat - 0x30)) s
      else -1

def atoi (s : List UInt8) : BitVec 32 := atoiFrom 0 s

inductive Commend where
  | ps
  | clear
  | exec
  | kill
  | mkfs
  | statfs
  | currdir
  | mkdir
  | rmdir
  | ls
  | cd
  | touch
  | cat
  | run
  deriving DecidableEq, Repr

def Commend.all : List Commend :=
  [.ps, .clear, .exec, .kill, .mkfs, .statfs, .currdir, .mkdir, .rmdir, .ls, .cd, .touch, .cat,
    .run]

def Commend.text : Commend → String
  | ps => "ps"
  | clear => "clear"
  | exec => "exec"
  | kill => "kill"
  | mkfs => "mkfs"
  | statfs => "statfs"
  | currdir => "currdir"
  | mkdir => "mkdir"
  | rmdir => "rmdir"
  | ls => "ls"
  | cd => "cd"
  | touch => "touch"
  | cat => "cat"
  | run => "run"

/-! ## What a command does -/

/-- A string argument; `none` is a pointer that was never set. -/
abbrev Arg := Option (List UInt8)

inductive Call where
  | showProcess
  | clear (y y' : Nat)
  | moveCursor (x y : Nat)
  | spawn (index : Nat)
  | spawnRun
  | kill (pid : Int)
  | mkfs
  | mount
  | statfs
  | getCurrDirName
  | mkdir (s : Arg)
  | rmdir (s : Arg)
  | ls
  | cd (s : Arg)
  | touch (s : Arg)
  | fopen (s : Arg) (access : UInt32)
  | fread (fd : Int) (size : Nat)
  | printf (text : String)
  /-- a string that another call has returned -/
  | printString
  deriving DecidableEq

/-- The calls of a command, each with what follows on its answer. -/
inductive Talk where
  | done
  | call (c : Call) (next : Int → Talk)

/-- Calls whose answers are not looked at. -/
def Talk.calls : List Call → Talk
  | [] => .done
  | c :: rest => .call c fun _ => Talk.calls rest

/-- The call can be made, on some answers. -/
inductive Talk.Makes : Talk → Call → Prop
  | here (c : Call) (next : Int → Talk) : Makes (.call c next) c
  | later (c c' : Call) (next : Int → Talk) (answer : Int) :
      Makes (next answer) c' → Makes (.call c next) c'

/-- The loop of `cat`, for at most `n` full sectors. -/
def catLoop (fd : Int) : Nat → Talk
  | 0 => .done
  | n + 1 => .call (.fread fd 512) fun size =>
      .call .printString fun _ => if size = 512 then catLoop fd n else .done

def testTasksNum : Nat := 2

/-- `header` says whether `run_buf` begins like an ELF file. -/
def Commend.handler (rounds : Nat) (header : Bool) (argInt : BitVec 32) (argString : Arg) :
    Commend → Talk
  | ps => .calls [.showProcess]
  | clear =>
      let lower := [.clear (screenHeight / 2 + 1) (screenHeight - 1),
        .moveCursor 0 (screenHeight / 2 + 1)]
      if argInt = 0 then .calls lower
      else if argInt = 1 then .calls [.clear 0 (screenHeight / 2 - 1)]
      else .calls (.clear 0 (screenHeight / 2 - 1) :: lower)
  | exec =>
      if argInt.toInt > testTasksNum then .calls [.printf "Error: too large index.\n"]
      else if argInt.toInt < 1 then .calls [.printf "Error: wrong index.\n"]
      else .call (.spawn (argInt.toInt.toNat - 1)) fun answer =>
        if answer = 0 then .calls [.printf "Error: too many tasks.\n"] else .done
  | kill => .call (.kill argInt.toInt) fun answer =>
      if answer = 0 then .calls [.printf "Illegal pid.\n"] else .done
  | mkfs => .calls [.mkfs, .mount]
  | statfs => .calls [.statfs]
  | currdir => .calls [.getCurrDirName, .printString]
  | mkdir => .calls [.mkdir argString]
  | rmdir => .calls [.rmdir argString]
  | ls => .calls [.ls]
  | cd => .calls [.cd argString]
  | touch => .calls [.touch argString]
  | cat => .call (.fopen argString Fs.oRd) fun fd =>
      if fd = -1 then .calls [.printf "Error: open file failed.\n"] else catLoop fd rounds
  | run => .call (.fopen argString Fs.oRd) fun fd =>
      if fd = -1 then .calls [.printf "Error: no such executable file.\n"]
      else .call (.fread fd 2047) fun _ =>
        if header then .calls [.spawnRun] else .calls [.printf "Error: not a ELF file.\n"]

/-! ## Lines -/

/-- `outside` has the stores that met no byte of `input_buffer`. -/
structure Shell where
  inputBuffer : Bytes screenWidth
  bufferIndex : Nat
  outside : List Int

/-- A store to `input_buffer[index]`. -/
def Shell.store (sh : Shell) (index : Int) (c : UInt8) : Shell :=
  if h : 0 ≤ index ∧ index.toNat < screenWidth then
    { sh with inputBuffer := Function.update sh.inputBuffer ⟨index.toNat, h.2⟩ c }
  else { sh with outside := sh.outside ++ [index] }

/-- The string that begins at `input_buffer + start`. -/
def Shell.string (sh : Shell) (start : Int) : List UInt8 :=
  untilZero ((List.ofFn sh.inputBuffer).drop start.toNat)

/-- What `parse_commend` finds in a line. -/
structure Parsed where
  commendPart : List UInt8
  argString : Arg
  argInt : BitVec 32
  deriving DecidableEq

/-- `parse_commend` up to its loop over the table. -/
def splitCommend (sh : Shell) : Shell × Parsed :=
  let separatorPosition : Int :=
    match separate (sh.string 0) space with
    | some pos => pos
    | none => -1
  if separatorPosition ≠ sh.bufferIndex then
    let argString := separatorPosition + 1
    let sh := sh.store separatorPosition 0
    (sh, ⟨sh.string 0, some (sh.string argString), atoi (sh.string argString)⟩)
  else (sh, ⟨sh.string 0, none, 0⟩)

def findCommend (commendPart : List UInt8) : Option Commend :=
  Commend.all.find? fun c => strcmp (c.text.toUTF8.toList) commendPart = 0

/-- What `parse_commend` calls. -/
def parseCommend (rounds : Nat) (header : Bool) (sh : Shell) : Shell × Talk :=
  let (sh, p) := splitCommend sh
  match findCommend p.commendPart with
  | some c => (sh, c.handler rounds header p.argInt p.argString)
  | none =>
      if 0 < sh.bufferIndex then (sh, .calls [.printf "No such commend.\n"]) else (sh, .done)

def prefixLength : Nat := 18

/-- The line is ended before it is parsed. -/
def Shell.entered (sh : Shell) : Shell := sh.store sh.bufferIndex 0

/-- Rounds of the loop of `sw_shell`; a key that is 0 is none.  The command may write to the buffer:
`parse_path` cuts its argument into pieces there. -/
def swShell : Lts Shell UInt8 where
  step sh c sh' :=
    if c = 0 then sh' = sh
    else if c = 10 ∨ c = 13 then
      ∃ inputBuffer,
        sh' = { (splitCommend sh.entered).1 with inputBuffer := inputBuffer, bufferIndex := 0 }
    else if c = 8 ∨ c = 127 then sh' = { sh with bufferIndex := sh.bufferIndex - 1 }
    else
      let sh := if sh.bufferIndex = screenWidth - prefixLength then { sh with bufferIndex := 0 }
        else sh
      sh' = { sh.store sh.bufferIndex c with bufferIndex := sh.bufferIndex + 1 }

/-- Static storage is zero. -/
def Shell.boot : Shell := ⟨fun _ => 0, 0, []⟩

end UcasOs.Software

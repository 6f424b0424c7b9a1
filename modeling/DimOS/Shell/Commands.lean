import Mathlib
import DimOS.Cpp.StringNumbers
import DimOS.Filesystem.VfsLookup

/-! The commands of the kernel shell over the VFS of the kernel. The thread's stdout is a descriptor
of a node of that VFS. A crash is an access of args behind its end, a call through a null node, a row
of pixels of negative length or a position that fits no int, or what the VFS does not guard against. -/
namespace DimOS.Shell
open Cpp.Containers
open Filesystem.Vfs
open Filesystem.RamDisk (Disk Buffer NodeType)

inductive Crash where
  | argument
  | nullNode
  | drawing
  | vfs (fault : Fault)
  deriving DecidableEq

/- kernel::FileDescriptor with the node it points to. -/
structure Descriptor where
  readOffset : Nat
  writeOffset : Nat
  fileNode : Nat
  deriving DecidableEq

structure State where
  vfs : VFS (Disk × Buffer)
  currDir : Chars
  stdout : Descriptor

def text (s : String) : Chars := s.toList.map fun c => BitVec.ofNat 8 c.toNat

/- `(uint8_t*)data.c_str()`. -/
def bytesOf (data : Chars) : Buffer := fun k => (data[k]?).getD 0#8

/- `args[i]`. -/
def argument (args : List Chars) (i : Nat) : Except Crash Chars :=
  match args[i]? with
  | none => .error .argument
  | some arg => .ok arg

section
variable (fbSize : Nat)

/- Node::read and Node::write. -/
def nodeRead (v : VFS (Disk × Buffer)) (node offset size : Nat) (buffer : Buffer) : Except Crash (Buffer × Nat) :=
  match (kernelFs fbSize).read v.disk (v.nodes node).fileSystem (v.nodes node).info.resource offset size buffer with
  | none => .error (.vfs .fileSystem)
  | some out => .ok out

def nodeWrite (v : VFS (Disk × Buffer)) (node offset size : Nat) (buffer : Buffer) :
    Except Crash (VFS (Disk × Buffer) × Nat) :=
  match (kernelFs fbSize).write v.disk (v.nodes node).fileSystem (v.nodes node).info.resource offset size buffer with
  | none => .error (.vfs .fileSystem)
  | some (disk, resource, bytes) =>
    .ok ({ v with disk := disk }.setInfo node { (v.nodes node).info with resource := resource }, bytes)

def echoBytes (s : State) (size : Nat) (buffer : Buffer) : Except Crash State :=
  (nodeWrite fbSize s.vfs s.stdout.fileNode s.stdout.writeOffset size buffer).map fun (v, bytesWritten) =>
    { s with vfs := v, stdout := { s.stdout with writeOffset := (s.stdout.writeOffset + bytesWritten) % 2 ^ 32 } }

def echo (s : State) (data : Chars) : Except Crash State := echoBytes fbSize s (data.length % 2 ^ 32) (bytesOf data)

def lookup {α : Type} (x : Except Fault α) : Except Crash α := x.mapError .vfs

def formPath (currDir relPath : Chars) : Chars :=
  if relPath.head? = some slash then relPath else currDir ++ [slash] ++ relPath

/- `while (currDir.size() && currDir.back() == '/') currDir.pop_back();` -/
def stripSlashes (path : Chars) : Chars := path.rdropWhile (· == slash)

/- The node is the directory that was opened when cd reports success. -/
def cd (s : State) (args : List Chars) : Except Crash (State × Option Nat) :=
  if args.length ≠ 2 then
    (echo fbSize s (text "Bad arguments to command. Usage: cd <dirname>")).map (·, none)
  else do
    let path := formPath s.currDir (← argument args 1)
    let (v, node) ← lookup (openNode (kernelFs fbSize) s.vfs path)
    let s := { s with vfs := v }
    match node with
    | none => (echo fbSize s (text "Directory not found.")).map (·, none)
    | some node =>
      if (v.nodes node).info.type ≠ .DIRECTORY then (echo fbSize s (text "Directory not found.")).map (·, none)
      else (echo fbSize { s with currDir := stripSlashes path } (text "Changed dir")).map (·, some node)

/- The loops of touch and mkdir. `rest` is what the stack held at each call. -/
def createAll (type : NodeType) (report : String) (rest : Nat → Nat → BitVec 8) :
    List Chars → State → Except Crash State
  | [], s => .ok s
  | arg :: args, s => do
    let path := formPath s.currDir arg
    let (v, _) ← lookup (mkNode (kernelFs fbSize) type (rest args.length) s.vfs path)
    let s ← echo fbSize { s with vfs := v } (text report ++ path ++ text "\n")
    createAll type report rest args s

def touch (rest : Nat → Nat → BitVec 8) (s : State) (args : List Chars) : Except Crash State :=
  if args.length < 2 then echo fbSize s (text "Please enter file name(s) to create")
  else createAll fbSize .FILE "Created file: " rest (args.drop 1) s

def mkdir (rest : Nat → Nat → BitVec 8) (s : State) (args : List Chars) : Except Crash State :=
  if args.length < 2 then echo fbSize s (text "Please enter dir name(s) to create")
  else createAll fbSize .DIRECTORY "Created dir: " rest (args.drop 1) s

def chunkSize : Nat := 2048

/- FileDescriptor::canReadXbytes(1) of a node with that size. -/
def canRead (size readOffset : Nat) : Bool :=
  (BitVec.ofNat 32 size - BitVec.ofNat 32 readOffset).toInt ≥ 1

/- At most `rounds` rounds of the loop of cat. -/
def catLoop (node : Nat) : Nat → Nat → Buffer → State → Except Crash State
  | 0, _, _, s => .ok s
  | rounds + 1, readOffset, buffer, s =>
    if canRead (s.vfs.nodes node).info.resource.size readOffset then do
      let (buffer, bytesRead) ← nodeRead fbSize s.vfs node readOffset chunkSize buffer
      let s ← echoBytes fbSize s bytesRead buffer
      catLoop node rounds ((readOffset + bytesRead) % 2 ^ 32) buffer s
    else .ok s

def cat (rounds : Nat) (s : State) (args : List Chars) : Except Crash State :=
  if args.length ≠ 2 then echo fbSize s (text "Bad arguments to command. Usage: cat <filename>")
  else do
    let path := formPath s.currDir (← argument args 1)
    let (v, fileNode) ← lookup (openNode (kernelFs fbSize) s.vfs path)
    match fileNode with
    | none => .error .nullNode
    | some fileNode => catLoop fbSize fileNode rounds 0 (fun _ => 0#8) { s with vfs := v }

def catLoopOver (node : Nat) : Nat → Nat → Buffer → State → Bool
  | 0, _, _, _ => false
  | rounds + 1, readOffset, buffer, s =>
    if canRead (s.vfs.nodes node).info.resource.size readOffset then
      match nodeRead fbSize s.vfs node readOffset chunkSize buffer with
      | .error _ => true
      | .ok (buffer, bytesRead) =>
        match echoBytes fbSize s bytesRead buffer with
        | .error _ => true
        | .ok s => catLoopOver node rounds ((readOffset + bytesRead) % 2 ^ 32) buffer s
    else true

def catOver (rounds : Nat) (s : State) (args : List Chars) : Bool :=
  match openNode (kernelFs fbSize) s.vfs (formPath s.currDir ((args[1]?).getD [])) with
  | .ok (v, some fileNode) =>
    args.length ≠ 2 || catLoopOver fbSize fileNode rounds 0 (fun _ => 0#8) { s with vfs := v }
  | _ => true

def lsLoop : List Nat → State → Except Crash State
  | [], s => .ok s
  | node :: nodes, s => do
    let name := (s.vfs.nodes node).name
    let name := if (s.vfs.nodes node).info.type = .DIRECTORY then
        [0x1b#8] ++ text "[1;34m" ++ name ++ [0x1b#8] ++ text "[0m" else name
    let s ← echo fbSize s name
    let s ← echo fbSize s (text " ")
    lsLoop nodes s

def ls (s : State) : Except Crash State := do
  let (v, nodes) ← lookup (readDir (kernelFs fbSize) s.vfs (s.currDir ++ [slash]))
  lsLoop fbSize nodes { s with vfs := v }

/- The arguments from `i` on with blanks between them. -/
def joinArgs (args : List Chars) : Chars := (text " ").intercalate args

def fprint (s : State) (args : List Chars) : Except Crash State :=
  if args.length < 3 then echo fbSize s (text "Bad arguments. Usage: fprint <filename> <data>")
  else do
    let path := formPath s.currDir (← argument args 1)
    let (v, node) ← lookup (openNode (kernelFs fbSize) s.vfs path)
    match node with
    | none => echo fbSize { s with vfs := v } (text "File not present")
    | some node =>
      let data := joinArgs (args.drop 2)
      let (v, _) ← nodeWrite fbSize v node 0 (data.length % 2 ^ 32) (bytesOf data)
      .ok { s with vfs := v }

def help (s : State) : Except Crash State := do
  let s ← echo fbSize s (text "Welcome to DimOS, will have a hard time finding a worse OS\n")
  let s ← echo fbSize s (text "Following commands are supported in this fake kernel space shell:\n")
  echo fbSize s (text "snake, ls, cd, help, pwd, cat, fprint, echo, mkdir, touch\n")

def number (n : Int) : Chars :=
  match Cpp.StringNumbers.stoi (Int.bmod n (2 ^ 32)) with
  | none => []
  | some data => Cpp.Strings.chars data

def statTexts (info : Filesystem.RamDisk.VfsNode) : List Chars :=
  [text "Type: ", if info.type = .DIRECTORY then text "directory" else text "file", text "\n",
   text "inode: ", number info.resource.inode, text "\n",
   text "device:", number info.resource.deviceID, text "\n",
   text "size: ", number info.resource.size]

def echoAll : List Chars → State → Except Crash State
  | [], s => .ok s
  | data :: rest, s => do
    let s ← echo fbSize s data
    echoAll rest s

def stat (s : State) (args : List Chars) : Except Crash State :=
  if args.length ≠ 2 then echo fbSize s (text "Bad arguments. Usage: stat <file/dir name>")
  else do
    let path := formPath s.currDir (← argument args 1)
    let (v, node) ← lookup (openNode (kernelFs fbSize) s.vfs path)
    match node with
    | none => echo fbSize { s with vfs := v } (text "File/dir not found")
    | some node => echoAll fbSize (statTexts (v.nodes node).info) { s with vfs := v }

def pwd (s : State) : Except Crash State := echo fbSize s (formPath s.currDir [])

def echoCommand (s : State) (args : List Chars) : Except Crash State := do
  echo fbSize s (← argument args 1)

end

end DimOS.Shell

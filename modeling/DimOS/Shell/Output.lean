import Mathlib
import DimOS.Filesystem.RamDiskThrough
import DimOS.Process.FileDescriptor
import DimOS.Shell.Screen

/-! stdin and stdout of the shell as queues of bytes. A command writes to stdout through the descriptor only,
as long as none of its paths leads to one of the two files; whatever else it does leaves the queues alone. The
disk of the kernel has two inodes on one block from its boot on, so nothing is asked of the other files. -/
namespace DimOS.Shell
open Cpp.Bitset (bitAt)
open Cpp.Containers
open Filesystem.Vfs
open Filesystem.Vfs.Open (inodeOf nodeAt nodeAtSpec)
open Filesystem.Vfs.Files (mapOk nodeAtLinked resolveStays createInNodes createInDisk)
open Filesystem.RamDisk (Disk Buffer NodeType Live Refers BlockSize MaxDataBlocks taken fileBytes Through BitsSet
  Secluded)
open Process (Session Fifo Untouched writeFifo elsewhereFifo)

variable {fbSize : Nat} {v v' : VFS (Disk × Buffer)} {s s' : State} {name other : Chars} {fd : Descriptor}
  {accepted got typed read : List (BitVec 8)}

def stdinName : Chars := text "stdin_1"

def stdoutName : Chars := text "stdout_1"

def State.on (s : State) (fd : Descriptor) : State := { s with stdout := fd }

def fileInode (s : State) : Nat := inodeOf s.vfs s.stdout.fileNode

/- stdout as a descriptor of the RamDisk, with what was written to it and what was read. -/
def session (s : State) (accepted got : List (BitVec 8)) : Session :=
  ⟨⟨s.stdout.readOffset, s.stdout.writeOffset, (s.vfs.nodes s.stdout.fileNode).info⟩, s.vfs.disk.1, accepted, got⟩

/- The node of stdout has that name, its inode and its blocks for itself, and its descriptor is a queue. -/
structure Queue (name : Chars) (s : State) (accepted got : List (BitVec 8)) : Prop where
  sturdy : Sturdy s
  screen : Screen s.vfs
  named : (s.vfs.nodes s.stdout.fileNode).name = name
  apart : ∀ n, n < s.vfs.count → n ≠ s.stdout.fileNode → (s.vfs.nodes n).fileSystem = 0 →
    inodeOf s.vfs n ≠ fileInode s
  bits : BitsSet (fun _ => False) s.vfs.disk.1
  secluded : Secluded (fileInode s) s.vfs.disk.1
  fifo : Fifo (fileInode s) (session s accepted got)

theorem Queue.linked (h : Queue name s accepted got) :
    Filesystem.RamDisk.Linked (fun i => i = fileInode s) s.vfs.disk.1 := h.fifo.linked

theorem Queue.live (h : Queue name s accepted got) : Live s.vfs.disk.1 (fileInode s) := h.fifo.live

theorem untouchedTrans {d d' d'' : Disk} {inode : Nat} (first : Untouched inode d d')
    (second : Untouched inode d' d'') : Untouched inode d d'' := by
  have refers : ∀ k b, Refers d inode k b → Refers d' inode k b := by
    intro k b ref
    unfold Refers Live at *
    rw [first.super, first.node]
    exact ref
  refine ⟨second.super.trans first.super, second.node.trans first.node, fun k b ref o low => ?_, fun k b ref => ?_⟩
  · have later := second.bytes k b (refers k b ref) o low
    unfold Disk.blockAddr at later ⊢
    rw [first.super] at later
    exact later.trans (first.bytes k b ref o low)
  · exact second.marked k b (refers k b ref)

theorem throughUntouched {d d' : Disk} {inode other : Nat}
    (linked : Filesystem.RamDisk.Linked (fun i => i = inode) d) (secluded : Secluded inode d)
    (through : Through other d d') (apart : other ≠ inode) : Untouched inode d d' := by
  have held : ∀ k b, Refers d inode k b → b < d.super.blockCnt ∧ bitAt d.data b = true := by
    intro k b ref
    obtain ⟨b', inside, slot⟩ := linked.slots inode k rfl ref.1 ref.2.1
    cases Option.some.inj (ref.2.2.symm.trans slot)
    exact ⟨inside, linked.marked inode k b rfl ref⟩
  refine ⟨through.super, through.nodes inode (Ne.symm apart), fun k b ref => ?_, fun k b ref => ?_⟩
  · obtain ⟨inside, set⟩ := held k b ref
    exact through.bytes b inside set fun k' mine => secluded other k' b apart mine k ref.2
  · obtain ⟨inside, set⟩ := held k b ref
    exact through.kept b inside set

theorem untouchedRefl {d : Disk} {inode : Nat} (linked : Filesystem.RamDisk.Linked (fun i => i = inode) d) :
    Untouched inode d d := ⟨rfl, rfl, fun _ _ _ _ _ => rfl, fun k b ref => linked.marked inode k b rfl ref⟩

structure Apart (inode : Nat) (d d' : Disk) : Prop where
  bits : BitsSet (fun _ => False) d'
  secluded : Secluded inode d'
  untouched : Untouched inode d d'

theorem throughApart {d d' : Disk} {inode other : Nat} (linked : Filesystem.RamDisk.Linked (fun i => i = inode) d)
    (bits : BitsSet (fun _ => False) d) (secluded : Secluded inode d) (through : Through other d d')
    (apart : other ≠ inode) : Apart inode d d' :=
  ⟨through.bitsKept bits, through.secludedOther apart bits secluded,
    throughUntouched linked secluded through apart⟩

theorem Queue.elsewhere (h : Queue name s accepted got) (kept : Kept s.vfs v')
    (grows : Grows s.vfs v')
    (info : (v'.nodes s.stdout.fileNode).info = (s.vfs.nodes s.stdout.fileNode).info)
    (apart : ∀ n, n < v'.count → n ≠ s.stdout.fileNode → (v'.nodes n).fileSystem = 0 → inodeOf v' n ≠ fileInode s)
    (disk : Apart (fileInode s) s.vfs.disk.1 v'.disk.1) : Queue name { s with vfs := v' } accepted got := by
  have inode : fileInode { s with vfs := v' } = fileInode s := kept.inode _ h.sturdy.inside
  refine ⟨h.sturdy.moves kept s.currDir, h.screen.keeps h.sturdy.solid.hung grows kept.fileSystem,
    (grows.name _ h.sturdy.inside).trans h.named, fun n here other onDisk => ?_, disk.bits, ?_, ?_⟩
  · rw [inode]
    exact apart n here other onDisk
  · rw [inode]
    exact disk.secluded
  · have queue := elsewhereFifo h.fifo disk.untouched
    rw [inode]
    unfold session at queue ⊢
    rw [info]
    exact queue

theorem nodeWriteDisk {node offset size bytes : Nat} {buffer : Buffer} (onDisk : (v.nodes node).fileSystem = 0)
    (ok : nodeWrite fbSize v node offset size buffer = .ok (v', bytes)) :
    ∃ out, v.disk.1.write (v.nodes node).info.resource offset size buffer = some out ∧ bytes = out.bytes ∧
      v' = { v with disk := (out.disk, v.disk.2) }.setInfo node { (v.nodes node).info with resource := out.resource } := by
  unfold nodeWrite at ok
  split at ok
  · cases ok
  · next disk resource bytes' wrote =>
    cases ok
    simp only [kernelFs, withRamDisk, onDisk, if_true] at wrote
    obtain ⟨out, written, pair⟩ := Option.map_eq_some_iff.mp wrote
    simp only [Prod.mk.injEq] at pair
    obtain ⟨rfl, rfl, rfl⟩ := pair
    exact ⟨out, written, rfl, rfl⟩

theorem nodeWriteDevice {node offset size bytes : Nat} {buffer : Buffer} (device : (v.nodes node).fileSystem ≠ 0)
    (ok : nodeWrite fbSize v node offset size buffer = .ok (v', bytes)) :
    ∃ memory, v' = { v with disk := (v.disk.1, memory) }.setInfo node
      { (v.nodes node).info with resource := (v.nodes node).info.resource } := by
  unfold nodeWrite at ok
  split at ok
  · cases ok
  · next disk resource bytes' wrote =>
    cases ok
    simp only [kernelFs, withRamDisk, device, if_false, framebufferDevice] at wrote
    obtain ⟨out, written, pair⟩ := Option.map_eq_some_iff.mp wrote
    split at written
    · cases written
      simp only [Prod.mk.injEq] at pair
      obtain ⟨rfl, rfl, -⟩ := pair
      exact ⟨_, rfl⟩
    · cases written

theorem setInfoApart (h : Queue name s accepted got) {node : Nat} {disk : Disk × Buffer}
    {resource : Filesystem.RamDisk.Resource} (other : node ≠ s.stdout.fileNode)
    (kept : Kept s.vfs ({ s.vfs with disk := disk }.setInfo node { (s.vfs.nodes node).info with resource }))
    (apart : Apart (fileInode s) s.vfs.disk.1 disk.1) :
    Queue name { s with vfs := { s.vfs with disk := disk }.setInfo node { (s.vfs.nodes node).info with resource } }
      accepted got := by
  refine h.elsewhere kept (setInfoGrows _ _ _) ?_ (fun n here away onDisk => ?_) apart
  · rw [VFS.setInfoInfo, if_neg (Ne.symm other)]
  · have old : n < s.vfs.count := here
    rw [kept.fileSystem n old] at onDisk
    rw [kept.inode n old]
    exact h.apart n old away onDisk

theorem Queue.writesElsewhere (h : Queue name s accepted got) {node offset size bytes : Nat} {buffer : Buffer}
    (inside : node < s.vfs.count) (other : node ≠ s.stdout.fileNode)
    (begins : (s.vfs.nodes node).fileSystem = 0 →
      offset / BlockSize ≤ (s.vfs.disk.1.nodes (inodeOf s.vfs node)).blocksInUse)
    (ok : nodeWrite fbSize s.vfs node offset size buffer = .ok (v', bytes)) :
    Queue name { s with vfs := v' } accepted got ∧ s.vfs.count ≤ v'.count ∧
      (v'.nodes node).fileSystem = (s.vfs.nodes node).fileSystem := by
  have solid := h.sturdy.solid
  by_cases onDisk : (s.vfs.nodes node).fileSystem = 0
  · have first := begins onDisk
    obtain ⟨out, wrote, -, rfl⟩ := nodeWriteDisk onDisk ok
    obtain ⟨out', again, steady, inode, -⟩ := Filesystem.RamDisk.writeFit size buffer solid.fit (.inl first)
    cases Option.some.inj (wrote.symm.trans again)
    have through := (Filesystem.RamDisk.writeThrough h.linked.valid solid.fit first wrote).1
    have kept := @setInfoKept s.vfs (out.disk, s.vfs.disk.2) node out.resource solid steady inode
    exact ⟨setInfoApart h other kept (throughApart h.linked h.bits h.secluded through
      (h.apart node inside other onDisk)), kept.count, kept.fileSystem node inside⟩
  · obtain ⟨memory, rfl⟩ := nodeWriteDevice onDisk ok
    have kept := @setInfoKept s.vfs (s.vfs.disk.1, memory) node (s.vfs.nodes node).info.resource solid
      (.refl solid.fit) rfl
    exact ⟨setInfoApart h other kept ⟨h.bits, h.secluded, untouchedRefl h.linked⟩, kept.count,
      kept.fileSystem node inside⟩

theorem Queue.creates (h : Queue name s accepted got) {type : NodeType} {rest : Nat → BitVec 8} {parent id : Nat}
    {child : Chars} (valid : type ≠ .INVALID) (inside : parent < s.vfs.count) (other : parent ≠ s.stdout.fileNode)
    (ok : createIn (kernelFs fbSize) type rest s.vfs parent child = .ok (v', id)) :
    Queue name { s with vfs := v' } accepted got := by
  obtain ⟨kept, fileSystem, low, -⟩ := createInKept h.sturdy.solid valid inside ok
  obtain ⟨others, -⟩ := createInNodes inside ok
  have same := others s.stdout.fileNode h.sturdy.inside (Ne.symm other)
  have facts : Apart (fileInode s) s.vfs.disk.1 v'.disk.1 ∧ id = s.vfs.count ∧ v'.count = s.vfs.count + 1 ∧
      ((s.vfs.nodes parent).fileSystem = 0 → inodeOf v' id ≠ fileInode s) := by
    by_cases onDisk : (s.vfs.nodes parent).fileSystem = 0
    · obtain ⟨d, info, create, write, last, count, shown, -⟩ := createInDisk inside onDisk ok
      obtain ⟨free, first⟩ := Filesystem.RamDisk.createThrough h.linked.valid h.sturdy.solid.fit create
      have fit := (Filesystem.RamDisk.createSteady h.sturdy.solid.fit create).1.fit
      -- stdout's inode is in use, so it is not the one that create took
      have notNew : info.resource.inode ≠ fileInode s := by
        intro taken
        rw [taken] at free
        exact h.live.2 (Filesystem.RamDisk.freeINodeSpec free).2
      have one := throughApart h.linked h.bits h.secluded first notNew
      have second := Filesystem.RamDisk.writeDirThrough (first.super ▸ h.linked.valid) fit write
      have two := throughApart (one.untouched.linked h.linked) one.bits one.secluded second
        (h.apart parent inside other onDisk)
      refine ⟨⟨two.bits, two.secluded, untouchedTrans one.untouched two.untouched⟩, last, count, fun _ => ?_⟩
      rw [inodeOf, shown]
      exact notNew
    · obtain ⟨last, disk, info, mid, disk', info', created, rfl, wrote, rfl⟩ := createInCases ok
      simp only [kernelFs, withRamDisk, onDisk, if_false, framebufferDevice, Option.map_some, Option.some.injEq,
        Prod.mk.injEq] at created
      obtain ⟨rfl, rfl⟩ := created
      have device : (({ s.vfs with disk := (s.vfs.disk.1, s.vfs.disk.2) }.addNode parent child
          (s.vfs.nodes parent).fileSystem ⟨.INVALID, ⟨0, 0, 0⟩⟩).nodes parent).fileSystem ≠ 0 := by
        rw [(Open.addNodeOld _ _ _ inside inside).1]
        exact onDisk
      simp only [kernelFs, withRamDisk, device, if_false, framebufferDevice, Option.map_some, Option.some.injEq,
        Prod.mk.injEq] at wrote
      obtain ⟨rfl, rfl⟩ := wrote
      exact ⟨⟨h.bits, h.secluded, untouchedRefl h.linked⟩, last, rfl, fun mine => absurd mine onDisk⟩
  obtain ⟨apart, rfl, count, notNew⟩ := facts
  refine h.elsewhere kept (createInHangs inside ok).grows (congrArg _ same) (fun n here away onDisk => ?_) apart
  rcases Nat.lt_or_eq_of_le (Nat.lt_succ_iff.mp (count ▸ here)) with low | rfl
  · rw [kept.fileSystem n low] at onDisk
    rw [kept.inode n low]
    exact h.apart n low away onDisk
  · rw [fileSystem] at onDisk
    exact notNew onDisk

theorem echoBytesAppends (h : Queue name s accepted got) (size : Nat) (buffer : Buffer) :
    ∃ s' count, echoBytes fbSize s size buffer = .ok s' ∧ count ≤ size ∧
      (count < min size (MaxDataBlocks * BlockSize - accepted.length) → BlockSize ∣ accepted.length + count) ∧
      Queue name s' (accepted ++ taken buffer count) got := by
  have sturdy := h.sturdy
  obtain ⟨t, count, made, fifo, -, shape, bound, stuck⟩ := writeFifo h.fifo size buffer
  obtain ⟨s₁, echoed, sturdy₁, kept⟩ := @echoBytesGoes fbSize s sturdy size buffer
  obtain ⟨⟨w, bytes⟩, wrote, rfl⟩ := mapOk echoed
  obtain ⟨out, written, rfl, rfl⟩ := nodeWriteDisk sturdy.onDisk wrote
  have told : Process.call (session s accepted got) (.write size buffer) =
      some ⟨⟨s.stdout.readOffset, (s.stdout.writeOffset + out.bytes) % 2 ^ 32,
        { (s.vfs.nodes s.stdout.fileNode).info with resource := out.resource }⟩, out.disk,
        accepted ++ taken buffer out.bytes, got⟩ := by
    simp only [Process.call, Process.FileDescriptor.write, session, written]
  cases Option.some.inj (made.symm.trans told)
  have counted : out.bytes = count := by
    have lengths := congrArg List.length (List.append_cancel_left shape)
    rwa [Process.takenLength, Process.takenLength] at lengths
  have reach : s.stdout.writeOffset / BlockSize ≤ (s.vfs.disk.1.nodes (fileInode s)).blocksInUse :=
    (Nat.div_le_div_right sturdy.written).trans (sturdy.solid.fit (fileInode s)).tail
  have through := (Filesystem.RamDisk.writeThrough h.linked.valid sturdy.solid.fit reach written).1
  subst counted
  refine ⟨_, out.bytes, echoed, bound.trans (Nat.min_le_left _ _), stuck, ?_⟩
  generalize madeEq : ({ s.vfs with disk := (out.disk, s.vfs.disk.2) }.setInfo s.stdout.fileNode
    { (s.vfs.nodes s.stdout.fileNode).info with resource := out.resource }) = w at kept sturdy₁
  have info : (w.nodes s.stdout.fileNode).info =
      { (s.vfs.nodes s.stdout.fileNode).info with resource := out.resource } := by
    rw [← madeEq, VFS.setInfoInfo, if_pos rfl]
  have disk : w.disk.1 = out.disk := by
    rw [← madeEq]
    rfl
  have number : inodeOf w s.stdout.fileNode = fileInode s := kept.inode _ sturdy.inside
  refine ⟨sturdy₁, ?_, ?_, fun n here away onDisk => ?_, ?_, ?_, ?_⟩
  · refine h.screen.keeps sturdy.solid.hung ?_ kept.fileSystem
    rw [← madeEq]
    exact setInfoGrows _ _ _
  · show (w.nodes s.stdout.fileNode).name = name
    rw [← madeEq, VFS.setInfoName]
    exact h.named
  · have low : n < s.vfs.count := by
      rw [← madeEq] at here
      exact here
    show inodeOf w n ≠ inodeOf w s.stdout.fileNode
    rw [kept.fileSystem n low] at onDisk
    rw [kept.inode n low, number]
    exact h.apart n low away onDisk
  · show BitsSet _ w.disk.1
    rw [disk]
    exact through.bitsKept h.bits
  · show Secluded (inodeOf w s.stdout.fileNode) w.disk.1
    rw [disk, number]
    exact through.secludedOwn h.bits h.secluded
  · show Fifo (inodeOf w s.stdout.fileNode) _
    rw [number]
    unfold session
    dsimp only
    rw [info, disk]
    exact fifo

/- Two descriptors, stdout and another one, each a queue of its own. -/
structure Queues (name other : Chars) (s : State) (fd : Descriptor) (accepted got typed read : List (BitVec 8)) :
    Prop where
  own : Queue name s accepted got
  else' : Queue other (s.on fd) typed read
  apart : fd.fileNode ≠ s.stdout.fileNode

theorem Queues.swap (h : Queues name other s fd accepted got typed read) :
    Queues other name (s.on fd) s.stdout typed read accepted got := ⟨h.else', h.own, Ne.symm h.apart⟩

theorem echoBytesQueues (h : Queues name other s fd accepted got typed read) (size : Nat) (buffer : Buffer) :
    ∃ s' count, echoBytes fbSize s size buffer = .ok s' ∧ count ≤ size ∧
      (count < min size (MaxDataBlocks * BlockSize - accepted.length) → BlockSize ∣ accepted.length + count) ∧
      s'.currDir = s.currDir ∧ Queues name other s' fd (accepted ++ taken buffer count) got typed read := by
  obtain ⟨s', count, echoed, bound, stuck, own⟩ := @echoBytesAppends fbSize s name accepted got h.own size buffer
  refine ⟨s', count, echoed, bound, stuck, ?_⟩
  obtain ⟨⟨v, bytes⟩, wrote, rfl⟩ := mapOk echoed
  have sturdy := h.own.sturdy
  have reach : s.stdout.writeOffset / BlockSize ≤ (s.vfs.disk.1.nodes (fileInode s)).blocksInUse :=
    (Nat.div_le_div_right sturdy.written).trans (sturdy.solid.fit (fileInode s)).tail
  obtain ⟨kept, -⟩ := h.else'.writesElsewhere (show s.stdout.fileNode < (s.on fd).vfs.count from sturdy.inside)
    (Ne.symm h.apart) (fun _ => reach) wrote
  exact ⟨rfl, own, kept, h.apart⟩

def Prints (s s' : State) : Prop :=
  ∀ fd accepted got typed read, Queues stdoutName stdinName s fd accepted got typed read →
    ∃ more, Queues stdoutName stdinName s' fd (accepted ++ more) got typed read

theorem Prints.refl (s : State) : Prints s s := fun fd accepted _ _ _ h => ⟨[], by rwa [List.append_nil]⟩

theorem Prints.trans {t : State} (first : Prints s s') (second : Prints s' t) : Prints s t := by
  intro fd accepted got typed read h
  obtain ⟨one, h₁⟩ := first fd accepted got typed read h
  obtain ⟨two, h₂⟩ := second fd _ got typed read h₁
  exact ⟨one ++ two, by rwa [← List.append_assoc]⟩

theorem Prints.silent (keeps : ∀ fd accepted got typed read, Queues stdoutName stdinName s fd accepted got typed read →
    Queues stdoutName stdinName s' fd accepted got typed read) : Prints s s' :=
  fun fd accepted got typed read h => ⟨[], by rw [List.append_nil]; exact keeps fd accepted got typed read h⟩

theorem echoBytesAdds {size : Nat} {buffer : Buffer} (ok : echoBytes fbSize s size buffer = .ok s') : Prints s s' := by
  intro fd accepted got typed read h
  obtain ⟨s₁, count, echoed, -, -, -, queues⟩ :=
    @echoBytesQueues fbSize s stdoutName stdinName fd accepted got typed read h size buffer
  cases Except.ok.inj (ok.symm.trans echoed)
  exact ⟨_, queues⟩

theorem echoAdds {data : Chars} (ok : echo fbSize s data = .ok s') : Prints s s' := echoBytesAdds ok

theorem Queue.moves (h : Queue name s accepted got) (currDir : Chars) :
    Queue name { s with currDir := currDir } accepted got :=
  ⟨h.sturdy.moves (.refl h.sturdy.solid) currDir, h.screen, h.named, h.apart, h.bits, h.secluded, h.fifo⟩

def Spares (path : Chars) : Prop :=
  (split path slash).getLast? ≠ some stdoutName ∧ (split path slash).getLast? ≠ some stdinName

theorem Queue.aside (h : Queue name s accepted got) {path : Chars} {node : Nat}
    (spares : (split path slash).getLast? ≠ some name) (found : nodeAt s.vfs (split path slash) = some node) :
    node ≠ s.stdout.fileNode := by
  rintro rfl
  obtain ⟨names, shape, walked⟩ := nodeAtSpec found
  refine spares ?_
  rw [shape, walkName walked, h.named]

def SparesParent (path : Chars) : Prop := ∀ parentPath name, cut path = some (parentPath, name) → Spares parentPath

theorem Queue.makes {type : NodeType} {rest : Nat → BitVec 8} {path : Chars} {r : Option Nat}
    (h : Queue name s accepted got) (valid : type ≠ .INVALID)
    (spares : ∀ parentPath name', cut path = some (parentPath, name') → (split parentPath slash).getLast? ≠ some name)
    (ok : mkNode (kernelFs fbSize) type rest s.vfs path = .ok (v', r)) :
    Queue name { s with vfs := v' } accepted got := by
  obtain ⟨parentPath, name', v₁, shape, ⟨missing, rfl, -⟩ | ⟨parent, id, found, made, -⟩⟩ := mkNodeCases ok
  · obtain ⟨rfl, -⟩ := resolveStays missing
    exact h
  · obtain ⟨rfl, at'⟩ := resolveStays found
    exact h.creates valid (h.sturdy.solid.hung.linked (nodeAtLinked at'.symm))
      (h.aside (spares parentPath name' shape) at'.symm) made

theorem mkNodeAdds {type : NodeType} {rest : Nat → BitVec 8} {path : Chars} {r : Option Nat} (valid : type ≠ .INVALID)
    (spares : SparesParent path) (ok : mkNode (kernelFs fbSize) type rest s.vfs path = .ok (v', r)) :
    Prints s { s with vfs := v' } :=
  .silent fun _ _ _ _ _ h =>
    ⟨h.own.makes valid (fun parentPath name shape => (spares parentPath name shape).1) ok,
      h.else'.makes valid (fun parentPath name shape => (spares parentPath name shape).2) ok, h.apart⟩

theorem createAllAdds {type : NodeType} {report : String} {rest : Nat → Nat → BitVec 8} {args : List Chars}
    (valid : type ≠ .INVALID) (spares : ∀ arg ∈ args, SparesParent (formPath s.currDir arg))
    (ok : createAll fbSize type report rest args s = .ok s') : Prints s s' := by
  induction args generalizing s with
  | nil =>
    cases ok
    exact .refl _
  | cons arg args ih =>
    obtain ⟨⟨v, r⟩, made, ok⟩ := bindOk ok
    obtain ⟨s₁, echoed, ok⟩ := bindOk ok
    obtain ⟨here, later⟩ := List.forall_mem_cons.mp spares
    have place : s₁.currDir = s.currDir := (echoKeeps echoed).2
    have rest := ih (by rw [place]; exact later) ok
    exact (mkNodeAdds valid here (lookupOk made)).trans ((echoAdds echoed).trans rest)

theorem catLoopAdds {node rounds readOffset : Nat} {buffer : Buffer}
    (ok : catLoop fbSize node rounds readOffset buffer s = .ok s') : Prints s s' := by
  induction rounds generalizing s readOffset buffer with
  | zero =>
    cases ok
    exact .refl _
  | succ rounds ih =>
    rw [catLoop] at ok
    split at ok
    · obtain ⟨⟨buffer, bytesRead⟩, -, ok⟩ := bindOk ok
      obtain ⟨next, echoed, ok⟩ := bindOk ok
      exact (echoBytesAdds echoed).trans (ih ok)
    · cases ok
      exact .refl _

theorem lsLoopAdds {nodes : List Nat} (ok : lsLoop fbSize nodes s = .ok s') : Prints s s' := by
  induction nodes generalizing s with
  | nil =>
    cases ok
    exact .refl _
  | cons node nodes ih =>
    obtain ⟨one, first, ok⟩ := bindOk ok
    obtain ⟨two, second, ok⟩ := bindOk ok
    exact (echoAdds first).trans ((echoAdds second).trans (ih ok))

theorem echoAllAdds {texts : List Chars} (ok : echoAll fbSize texts s = .ok s') : Prints s s' := by
  induction texts generalizing s with
  | nil =>
    cases ok
    exact .refl _
  | cons data rest ih =>
    obtain ⟨next, echoed, ok⟩ := bindOk ok
    exact (echoAdds echoed).trans (ih ok)

theorem cdAdds {args : List Chars} {out : State × Option Nat} (ok : cd fbSize s args = .ok out) : Prints s out.1 := by
  unfold cd at ok
  split at ok
  · obtain ⟨s₁, echoed, rfl⟩ := mapOk ok
    exact echoAdds echoed
  · obtain ⟨arg, -, ok⟩ := bindOk ok
    obtain ⟨⟨v, node⟩, found, ok⟩ := bindOk ok
    obtain ⟨rfl, -⟩ := resolveStays (lookupOk found)
    cases node with
    | none =>
      obtain ⟨s₁, echoed, rfl⟩ := mapOk ok
      exact echoAdds echoed
    | some node =>
      dsimp only at ok
      split at ok
      · obtain ⟨s₁, echoed, rfl⟩ := mapOk ok
        exact echoAdds echoed
      · obtain ⟨s₁, echoed, rfl⟩ := mapOk ok
        refine Prints.trans (.silent fun _ _ _ _ _ h => ?_) (echoAdds echoed)
        exact ⟨h.own.moves _, h.else'.moves _, h.apart⟩

theorem catAdds {rounds : Nat} {args : List Chars} (ok : cat fbSize rounds s args = .ok s') : Prints s s' := by
  unfold cat at ok
  split at ok
  · exact echoAdds ok
  · obtain ⟨arg, -, ok⟩ := bindOk ok
    obtain ⟨⟨v, node⟩, found, ok⟩ := bindOk ok
    obtain ⟨rfl, -⟩ := resolveStays (lookupOk found)
    cases node with
    | none => cases ok
    | some node => exact catLoopAdds ok

theorem lsAdds (ok : ls fbSize s = .ok s') : Prints s s' := by
  obtain ⟨⟨v, nodes⟩, listed, ok⟩ := bindOk ok
  cases Filesystem.Vfs.Files.readDirStays (lookupOk listed)
  exact lsLoopAdds ok

theorem fprintAdds {args : List Chars} (spares : Spares (target s args)) (ok : fprint fbSize s args = .ok s') :
    Prints s s' := by
  unfold fprint at ok
  split at ok
  · exact echoAdds ok
  · obtain ⟨arg, given, ok⟩ := bindOk ok
    obtain ⟨⟨v, node⟩, found, ok⟩ := bindOk ok
    obtain ⟨rfl, at'⟩ := resolveStays (lookupOk found)
    cases node with
    | none => exact echoAdds ok
    | some node =>
      obtain ⟨⟨v', bytes⟩, wrote, ok⟩ := bindOk ok
      cases ok
      have path : target s args = formPath s.currDir arg := by
        unfold argument at given
        unfold target
        split at given
        · cases given
        · next here =>
          cases given
          rw [here]
          rfl
      rw [← path] at at'
      have first : ∀ blocks, 0 / BlockSize ≤ blocks := fun blocks => by
        rw [Nat.zero_div]
        exact Nat.zero_le _
      refine .silent fun _ _ _ _ _ h => ?_
      have inside := h.own.sturdy.solid.hung.linked (nodeAtLinked at'.symm)
      exact ⟨(h.own.writesElsewhere inside (h.own.aside spares.1 at'.symm) (fun _ => first _) wrote).1,
        (h.else'.writesElsewhere inside (h.else'.aside spares.2 at'.symm) (fun _ => first _) wrote).1, h.apart⟩

theorem statAdds {args : List Chars} (ok : stat fbSize s args = .ok s') : Prints s s' := by
  unfold stat at ok
  split at ok
  · exact echoAdds ok
  · obtain ⟨arg, -, ok⟩ := bindOk ok
    obtain ⟨⟨v, node⟩, found, ok⟩ := bindOk ok
    obtain ⟨rfl, -⟩ := resolveStays (lookupOk found)
    cases node with
    | none => exact echoAdds ok
    | some node => exact echoAllAdds ok

theorem helpAdds (ok : help fbSize s = .ok s') : Prints s s' := by
  obtain ⟨one, first, ok⟩ := bindOk ok
  obtain ⟨two, second, ok⟩ := bindOk ok
  exact (echoAdds first).trans ((echoAdds second).trans (echoAdds ok))

theorem echoCommandAdds {args : List Chars} (ok : echoCommand fbSize s args = .ok s') : Prints s s' := by
  obtain ⟨arg, -, ok⟩ := bindOk ok
  exact echoAdds ok

section drawing
variable {σ : Type} {write : Nat → Nat → Buffer → σ → Option σ} {P : σ → Prop}

def KeptBy (write : Nat → Nat → Buffer → σ → Option σ) (P : σ → Prop) : Prop :=
  ∀ offset size buffer s t, write offset size buffer s = some t → P s → P t

theorem KeptBy.row (kept : KeptBy write P) {count : Int} {col : Graphics.Color} {offset : Nat} {s t : σ}
    (ok : drawRow write count col offset s = some t) (h : P s) : P t := by
  unfold drawRow at ok
  split at ok
  · exact kept _ _ _ _ _ ok h
  · cases ok

theorem KeptBy.cleared (kept : KeptBy write P) {width height i : Int} {col : Graphics.Color} {left : Nat} {s t : σ}
    (ok : clearLoop write width height col left i s = some t) (h : P s) : P t := by
  induction left generalizing i s with
  | zero => cases ok
  | succ left ih =>
    rw [clearLoop] at ok
    split at ok
    · split at ok
      · split at ok
        · cases ok
        · split at ok
          · cases ok
          · next mid drawn =>
            split at ok
            · exact ih ok (kept.row drawn h)
            · cases ok
      · cases ok
    · cases ok
      exact h

theorem KeptBy.rows (kept : KeptBy write P) {width x1 x2 i : Int} {col : Graphics.Color} {left : Nat} {s t : σ}
    (ok : drawRows write width x1 x2 col left i s = some t) (h : P s) : P t := by
  induction left generalizing i s with
  | zero =>
    cases ok
    exact h
  | succ left ih =>
    rw [drawRows] at ok
    split at ok
    · split at ok
      · cases ok
      · split at ok
        · cases ok
        · next mid drawn =>
          split at ok
          · exact ih ok (kept.row drawn h)
          · cases ok
    · cases ok

theorem KeptBy.cell (kept : KeptBy write P) {pos : Graphics.Vec2} {col : Graphics.Color} {s t : σ}
    (ok : drawCell write pos col s = some t) (h : P s) : P t := by
  unfold drawCell at ok
  split at ok
  · exact kept.rows ok h
  · cases ok

theorem KeptBy.cells (kept : KeptBy write P) {cells : List Graphics.Vec2} {col : Graphics.Color} {s t : σ}
    (ok : drawCells write col cells s = some t) (h : P s) : P t := by
  induction cells generalizing s with
  | nil =>
    cases ok
    exact h
  | cons pos rest ih =>
    obtain ⟨mid, drawn, ok⟩ := Option.bind_eq_some_iff.mp ok
    exact ih ok (kept.cell drawn h)

theorem KeptBy.round (kept : KeptBy write P) {input : Devices.KeyCode} {game : Game} {s : σ} {out : Game × σ}
    (ok : playRound write input game s = some out) (h : P s) : P out.2 := by
  obtain ⟨s₁, cleared, ok⟩ := Option.bind_eq_some_iff.mp ok
  obtain ⟨game', -, ok⟩ := Option.bind_eq_some_iff.mp ok
  obtain ⟨s₂, rendered, rfl⟩ := Option.map_eq_some_iff.mp ok
  obtain ⟨s₃, apple, ok⟩ := Option.bind_eq_some_iff.mp rendered
  have first := kept.cell apple (kept.cleared cleared h)
  split at ok
  · cases ok
  · obtain ⟨s₄, head, ok⟩ := Option.bind_eq_some_iff.mp ok
    exact kept.cells ok (kept.cell head first)

end drawing

theorem snakeLoopKeeps {P : VFS (Disk × Buffer) → Prop} {node : Nat} (kept : KeptBy (fbFileWrite fbSize node) P)
    {keys : List Devices.KeyCode} {game : Game} (ok : snakeLoop fbSize node keys game v = some v') (h : P v) : P v' := by
  induction keys generalizing game v with
  | nil =>
    cases ok
    exact h
  | cons input keys ih =>
    rw [snakeLoop] at ok
    split at ok
    · cases ok
    · next game' v₁ played =>
      have next := kept.round played h
      split at ok
      · exact kept.cleared ok next
      · exact ih ok next

theorem fbFileWrote {node offset size : Nat} {buffer : Buffer} (ok : fbFileWrite fbSize node offset size buffer v = some v') :
    ∃ bytes, nodeWrite fbSize v node offset size buffer = .ok (v', bytes) := by
  unfold fbFileWrite at ok
  cases wrote : nodeWrite fbSize v node offset size buffer with
  | error crash =>
    rw [wrote] at ok
    cases ok
  | ok out =>
    rw [wrote] at ok
    cases ok
    exact ⟨out.2, rfl⟩

theorem Queue.draws (h : Queue name s accepted got) {node offset size bytes : Nat} {buffer : Buffer}
    (inside : node < s.vfs.count) (device : (s.vfs.nodes node).fileSystem ≠ 0)
    (ok : nodeWrite fbSize s.vfs node offset size buffer = .ok (v', bytes)) :
    Queue name { s with vfs := v' } accepted got ∧ s.vfs.count ≤ v'.count ∧
      (v'.nodes node).fileSystem = (s.vfs.nodes node).fileSystem := by
  have other : node ≠ s.stdout.fileNode := by
    rintro rfl
    exact device h.sturdy.onDisk
  exact h.writesElsewhere inside other (fun mine => absurd mine device) ok

theorem snakeAdds {keys : List Devices.KeyCode} (ok : snake fbSize keys s = .ok s') : Prints s s' := by
  unfold snake at ok
  obtain ⟨⟨v, fbFile⟩, found, ok⟩ := bindOk ok
  obtain ⟨rfl, at'⟩ := resolveStays (lookupOk found)
  cases fbFile with
  | none => cases ok
  | some node =>
    dsimp only at ok
    split at ok
    · cases ok
    · next v₁ played =>
      cases ok
      refine .silent fun fd accepted got typed read h => ?_
      obtain ⟨screen, path, device⟩ := h.own.screen
      obtain rfl : node = screen := Option.some.inj (at'.trans path)
      have kept : KeptBy (fbFileWrite fbSize node) fun v =>
          Queues stdoutName stdinName { s with vfs := v } fd accepted got typed read ∧
            node < v.count ∧ (v.nodes node).fileSystem ≠ 0 := by
        rintro offset size buffer w w' wrote ⟨queues, inside, device⟩
        obtain ⟨bytes, did⟩ := fbFileWrote wrote
        obtain ⟨own, more, same⟩ := queues.own.draws inside device did
        exact ⟨⟨own, (queues.else'.draws inside device did).1, queues.apart⟩, inside.trans_le more,
          by rw [same]; exact device⟩
      exact (snakeLoopKeeps kept played ⟨h, h.own.sturdy.solid.hung.linked (nodeAtLinked at'.symm), device⟩).1

end DimOS.Shell

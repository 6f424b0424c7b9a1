import DimOS.Filesystem.RamDiskFile

/-! A thread's file descriptor over a file of the RamDisk: two offsets that only grow, and the node
whose size the last write left there. Between them lie the accepted bytes that nobody has read. -/
namespace DimOS.Process
open Filesystem.RamDisk
open Cpp.Bitset (bitAt)
open Lib.Transition (run Guarded)

structure FileDescriptor where
  readOffset : Nat
  writeOffset : Nat
  fileNode : VfsNode

namespace FileDescriptor

def ofNode (fileNode : VfsNode) : FileDescriptor := ⟨0, 0, fileNode⟩

def canReadXbytes (fd : FileDescriptor) (x : Int) : Bool :=
  let remainingSize := (BitVec.ofNat 32 fd.fileNode.resource.size - BitVec.ofNat 32 fd.readOffset).toInt
  remainingSize ≥ x

def read (fd : FileDescriptor) (d : Disk) (limit : Nat) (buffer : Buffer) : Option (FileDescriptor × Buffer × Nat) :=
  match d.read fd.fileNode.resource fd.readOffset limit buffer with
  | none => none
  | some (buffer, bytesRead) =>
    some ({ fd with readOffset := (fd.readOffset + bytesRead) % 2 ^ 32 }, buffer, bytesRead)

def write (fd : FileDescriptor) (d : Disk) (limit : Nat) (buffer : Buffer) : Option (FileDescriptor × Disk × Nat) :=
  match d.write fd.fileNode.resource fd.writeOffset limit buffer with
  | none => none
  | some out =>
    some (⟨fd.readOffset, (fd.writeOffset + out.bytes) % 2 ^ 32, { fd.fileNode with resource := out.resource }⟩,
      out.disk, out.bytes)

end FileDescriptor

inductive Call where
  | write (limit : Nat) (buffer : Buffer)
  | read (limit : Nat) (buffer : Buffer)
  | elsewhere (disk : Disk)

/- The descriptor and the disk, with what the writes accepted and what the reads delivered. -/
structure Session where
  fd : FileDescriptor
  disk : Disk
  accepted : List (BitVec 8)
  got : List (BitVec 8)

def call (s : Session) : Call → Option Session
  | .write limit buffer =>
    match s.fd.write s.disk limit buffer with
    | none => none
    | some (fd, disk, bytesWritten) => some ⟨fd, disk, s.accepted ++ taken buffer bytesWritten, s.got⟩
  | .read limit buffer =>
    match s.fd.read s.disk limit buffer with
    | none => none
    | some (fd, out) => some ⟨fd, s.disk, s.accepted, s.got ++ delivered out⟩
  | .elsewhere disk => some { s with disk := disk }

/- Whatever else happens on the disk, nobody else writes the file: its inode stays, its blocks stay
taken, and so do their bytes. -/
structure Untouched (inode : Nat) (d d' : Disk) : Prop where
  super : d'.super = d.super
  node : d'.nodes inode = d.nodes inode
  bytes : ∀ k b, Refers d inode k b → ∀ o, o < BlockSize →
    d'.data (d.blockAddr b + o) = d.data (d.blockAddr b + o)
  marked : ∀ k b, Refers d inode k b → bitAt d'.data b = true

def Alone (s : Session) : Call → Prop
  | .elsewhere disk => Untouched s.fd.fileNode.resource.inode s.disk disk
  | .write _ _ => True
  | .read _ _ => True

/- The file holds the accepted bytes, and the bytes that were read are the first of them. -/
structure Fifo (inode : Nat) (s : Session) : Prop where
  linked : Linked (fun i => i = inode) s.disk
  live : Live s.disk inode
  here : s.fd.fileNode.resource.inode = inode
  file : fileBytes s.disk inode = s.accepted
  size : (s.disk.nodes inode).size = s.accepted.length
  room : s.accepted.length ≤ BlockSize * (s.disk.nodes inode).blocksInUse
  shown : s.fd.fileNode.resource.size = s.accepted.length
  writeOffset : s.fd.writeOffset = s.accepted.length
  readOffset : s.fd.readOffset = s.got.length
  got : s.got <+: s.accepted

theorem Fifo.short {inode : Nat} {s : Session} (h : Fifo inode s) : s.accepted.length ≤ MaxDataBlocks * BlockSize := by
  have cap := h.linked.cap inode rfl h.live
  have room := h.room
  unfold BlockSize at *
  omega

theorem takenLength (buffer : Buffer) (count : Nat) : (taken buffer count).length = count := by
  simp [taken]

theorem writeFifo {inode : Nat} {s : Session} (h : Fifo inode s) (limit : Nat) (buffer : Buffer) :
    ∃ t count, call s (.write limit buffer) = some t ∧ Fifo inode t ∧ t.got = s.got ∧
      t.accepted = s.accepted ++ taken buffer count ∧
      count ≤ min limit (MaxDataBlocks * BlockSize - s.accepted.length) ∧
      (count < min limit (MaxDataBlocks * BlockSize - s.accepted.length) →
        BlockSize ∣ s.accepted.length + count) := by
  have short := h.short
  have size := h.size
  have room := h.room
  obtain ⟨out, wrote, file⟩ := writeFile limit buffer h.linked h.here (h.here ▸ h.live)
    (show s.fd.writeOffset ≤ MaxDataBlocks * BlockSize by rw [h.writeOffset]; exact short)
    (by rw [h.writeOffset, h.here]; unfold BlockSize at *; omega)
  rw [h.here, h.writeOffset] at file
  have inside : s.accepted.length ≤ (s.disk.nodes inode).size := Nat.le_of_eq size.symm
  have sized : (s.disk.nodes inode).size ≤ BlockSize * (s.disk.nodes inode).blocksInUse := by omega
  have bytes := file.bytes sized inside
  rw [h.file, Lib.Splice.overwriteEnd] at bytes
  have bound := file.bound
  have reach := file.reach
  have grows := Nat.mul_le_mul_left BlockSize file.grows
  have after : (s.accepted ++ taken buffer out.bytes).length = s.accepted.length + out.bytes := by
    rw [List.length_append, takenLength]
  have made : call s (.write limit buffer) = some ⟨⟨s.fd.readOffset, (s.fd.writeOffset + out.bytes) % 2 ^ 32,
      { s.fd.fileNode with resource := out.resource }⟩, out.disk, s.accepted ++ taken buffer out.bytes, s.got⟩ := by
    simp only [call, FileDescriptor.write, wrote]
  refine ⟨_, out.bytes, made, ?_, rfl, rfl, bound, ?_⟩
  · refine ⟨file.linked, file.shape.live.mpr h.live, file.shown.1, bytes, ?_, ?_, ?_, ?_, h.readOffset, ?_⟩
    · rw [file.sized, after]
      omega
    · rw [after]
      dsimp only
      omega
    · rw [after]
      exact file.shown.2.trans (by rw [file.sized]; omega)
    · rw [after]
      dsimp only
      rw [h.writeOffset]
      unfold MaxDataBlocks BlockSize at *
      omega
    · exact h.got.trans (List.prefix_append _ _)
  · intro less
    have past := (file.stuck less).1
    rcases reach with none | some
    · exact ⟨(s.disk.nodes inode).blocksInUse, by omega⟩
    · exact ⟨(out.disk.nodes inode).blocksInUse, by omega⟩

theorem readFifo {inode : Nat} {s : Session} (h : Fifo inode s) (limit : Nat) (buffer : Buffer) :
    ∃ t, call s (.read limit buffer) = some t ∧ Fifo inode t ∧ t.accepted = s.accepted ∧
      t.got = s.accepted.take (s.got.length + limit) := by
  obtain ⟨out, ran, slice, -⟩ := deliveredSlice h.linked h.here (h.here ▸ h.live) s.fd.readOffset limit buffer
  rw [h.here, h.file, h.readOffset] at slice
  have short := h.short
  have less := h.got.length_le
  have joined : s.got ++ delivered out = s.accepted.take (s.got.length + limit) := by
    obtain ⟨rest, whole⟩ := h.got
    rw [slice, ← whole, List.take_length_add_append, List.drop_left]
  have count : (s.got ++ delivered out).length = s.got.length + out.2 := by
    rw [List.length_append, delivered, List.length_map, List.length_range]
  have made : call s (.read limit buffer) = some ⟨{ s.fd with readOffset := (s.fd.readOffset + out.2) % 2 ^ 32 },
      s.disk, s.accepted, s.got ++ delivered out⟩ := by
    simp only [call, FileDescriptor.read, ran]
  refine ⟨_, made, ?_, rfl, joined⟩
  refine ⟨h.linked, h.live, h.here, h.file, h.size, h.room, h.shown, h.writeOffset, ?_, ?_⟩
  · rw [count]
    dsimp only
    rw [h.readOffset]
    rw [joined, List.length_take] at count
    unfold MaxDataBlocks BlockSize at *
    omega
  · rw [joined]
    exact List.take_prefix _ _

theorem Untouched.linked {inode : Nat} {d d' : Disk} (untouched : Untouched inode d d')
    (h : Linked (fun i => i = inode) d) : Linked (fun i => i = inode) d' := by
  have refers : ∀ k b, Refers d' inode k b ↔ Refers d inode k b := by
    intro k b
    unfold Refers Live
    rw [untouched.super, untouched.node]
  have live : Live d' inode → Live d inode := by
    unfold Live
    rw [untouched.super, untouched.node]
    exact id
  refine ⟨untouched.super ▸ h.valid, ?_, ?_, ?_, ?_⟩
  · rintro i rfl alive
    rw [untouched.node]
    exact h.cap i rfl (live alive)
  · rintro i k rfl alive low
    rw [untouched.node] at low ⊢
    rw [untouched.super]
    exact h.slots i k rfl (live alive) low
  · rintro i k i' k' b rfl rfl one two
    exact h.unique i' k i' k' b rfl rfl ((refers k b).mp one) ((refers k' b).mp two)
  · rintro i k b rfl ref
    exact untouched.marked k b ((refers k b).mp ref)

theorem Untouched.file {inode : Nat} {d d' : Disk} (untouched : Untouched inode d d')
    (h : Linked (fun i => i = inode) d) (live : Live d inode) : fileBytes d' inode = fileBytes d inode := by
  simp only [fileBytes, readable, untouched.node]
  apply List.map_congr_left
  intro pos low
  rw [List.mem_range] at low
  have used : pos / BlockSize < (d.nodes inode).blocksInUse := by
    unfold BlockSize at *
    omega
  obtain ⟨b, -, slot⟩ := h.slots inode _ rfl live used
  simp only [byteAt, untouched.node, slot, Disk.blockAddr, untouched.super]
  exact untouched.bytes _ b ⟨live, used, slot⟩ _ (Nat.mod_lt _ (by unfold BlockSize; omega))

theorem elsewhereFifo {inode : Nat} {s : Session} {disk : Disk} (h : Fifo inode s)
    (untouched : Untouched inode s.disk disk) : Fifo inode { s with disk := disk } where
  linked := untouched.linked h.linked
  live := by
    unfold Live
    rw [untouched.super, untouched.node]
    exact h.live
  here := h.here
  file := (untouched.file h.linked h.live).trans h.file
  size := by rw [untouched.node]; exact h.size
  room := by rw [untouched.node]; exact h.room
  shown := h.shown
  writeOffset := h.writeOffset
  readOffset := h.readOffset
  got := h.got

theorem callFifo {inode : Nat} {s : Session} {c : Call} (h : Fifo inode s) (alone : Alone s c) :
    ∃ t, call s c = some t ∧ Fifo inode t := by
  cases c with
  | write limit buffer =>
    obtain ⟨t, count, made, kept, -⟩ := writeFifo h limit buffer
    exact ⟨t, made, kept⟩
  | read limit buffer =>
    obtain ⟨t, made, kept, -⟩ := readFifo h limit buffer
    exact ⟨t, made, kept⟩
  | elsewhere disk => exact ⟨_, rfl, elsewhereFifo h (h.here ▸ alone)⟩

theorem smallInt {n : Nat} (small : n < 2 ^ 31) : (BitVec.ofNat 32 n).toInt = n := by
  rw [BitVec.toInt_eq_toNat_of_lt (by rw [BitVec.toNat_ofNat]; omega), BitVec.toNat_ofNat,
    Nat.mod_eq_of_lt (by omega)]

theorem canReadFifo {inode : Nat} {s : Session} (h : Fifo inode s) {x : Int} :
    s.fd.canReadXbytes x = true ↔ x ≤ (s.accepted.length - s.got.length : Int) := by
  have short := h.short
  have less := h.got.length_le
  have difference : (BitVec.ofNat 32 s.fd.fileNode.resource.size - BitVec.ofNat 32 s.fd.readOffset).toInt =
      (s.accepted.length - s.got.length : Int) := by
    unfold MaxDataBlocks BlockSize at short
    have size := smallInt (show s.accepted.length < 2 ^ 31 by omega)
    have offset := smallInt (show s.got.length < 2 ^ 31 by omega)
    rw [h.shown, h.readOffset, BitVec.toInt_sub, size, offset]
    exact Int.bmod_eq_of_le (by omega) (by omega)
  simp only [FileDescriptor.canReadXbytes, difference, ge_iff_le, decide_eq_true_eq]

def KeyCodes : Call → Prop
  | .write limit _ => limit = 4
  | .read _ _ => True
  | .elsewhere _ => True

theorem keyCodeWhole {inode : Nat} {s : Session} (h : Fifo inode s) (whole : 4 ∣ s.accepted.length)
    (buffer : Buffer) :
    ∃ t, call s (.write 4 buffer) = some t ∧
      (t.accepted = s.accepted ++ taken buffer 4 ∨ t.accepted = s.accepted) := by
  obtain ⟨t, count, made, -, -, accepted, bound, stuck⟩ := writeFifo h 4 buffer
  refine ⟨t, made, ?_⟩
  have short := h.short
  have all : count = 4 ∨ count = 0 := by
    unfold MaxDataBlocks BlockSize at *
    omega
  rcases all with rfl | rfl
  · exact .inl accepted
  · exact .inr (by simpa [taken] using accepted)

theorem keyCodeStep {inode : Nat} {s t : Session} {c : Call} (h : Fifo inode s ∧ 4 ∣ s.accepted.length)
    (fine : Alone s c ∧ KeyCodes c) (made : call s c = some t) : Fifo inode t ∧ 4 ∣ t.accepted.length := by
  obtain ⟨t', made', fifo⟩ := callFifo h.1 fine.1
  cases Option.some.inj (made.symm.trans made')
  refine ⟨fifo, ?_⟩
  cases c with
  | write limit buffer =>
    cases fine.2
    obtain ⟨t', made', accepted⟩ := keyCodeWhole h.1 h.2 buffer
    cases Option.some.inj (made.symm.trans made')
    rcases accepted with whole | none
    · rw [whole, List.length_append, takenLength]
      exact Nat.dvd_add h.2 (Nat.dvd_refl 4)
    · rw [none]
      exact h.2
  | read limit buffer =>
    obtain ⟨t', made', -, accepted, -⟩ := readFifo h.1 limit buffer
    cases Option.some.inj (made.symm.trans made')
    rw [accepted]
    exact h.2
  | elsewhere disk =>
    cases Option.some.inj made
    exact h.2

theorem startFifo (deviceID : Int) {d out : Disk} {node : VfsNode} (valid : d.super.Valid)
    (made : d.create deviceID .FILE = some (out, node)) :
    ∃ inode, Fifo inode ⟨.ofNode node, out, [], []⟩ := by
  cases free : d.getFreeINode with
  | none =>
    simp only [Disk.create, free] at made
    cases made
  | some inode =>
    have dead : ¬ Live d inode := fun live => live.2 (freeINodeSpec free).2
    have linked : Linked (fun i => i = inode) d := by
      refine ⟨valid, ?_, ?_, ?_, ?_⟩
      · rintro i rfl live
        exact absurd live dead
      · rintro i k rfl live
        exact absurd live dead
      · rintro i k i' k' b rfl - ref
        exact absurd ref.1 dead
      · rintro i k b rfl ref
        exact absurd ref.1 dead
    obtain ⟨out', node', made', created⟩ := createFile deviceID linked rfl free
      (show NodeType.FILE ≠ .INVALID by simp)
    cases Option.some.inj (made.symm.trans made')
    have empty : (out.nodes inode).size = 0 := created.size
    refine ⟨inode, created.linked, created.live, created.shown.1, ?_, empty, Nat.zero_le _, created.shown.2, rfl,
      rfl, List.nil_prefix⟩
    simp [fileBytes, readable, empty]

/-- A descriptor over a file that was just created is a queue of bytes. After any calls, and whatever
else happened on the disk while nobody else wrote the file: what was
read is the first part of what was accepted; the next read delivers the bytes behind it, as many
as there are up to its limit; canReadXbytes tells how many there are; and as long as key codes of
four bytes are written, the next one is accepted whole or not at all. -/
theorem fileDescriptorFifo (deviceID : Int) {d out : Disk} {node : VfsNode} (valid : d.super.Valid)
    (made : d.create deviceID .FILE = some (out, node)) (calls : List Call)
    (alone : Guarded call Alone ⟨.ofNode node, out, [], []⟩ calls) :
    ∃ s, run call ⟨.ofNode node, out, [], []⟩ calls = some s ∧
      s.got <+: s.accepted ∧
      (∀ limit buffer, ∃ t, call s (.read limit buffer) = some t ∧ t.accepted = s.accepted ∧
        t.got = s.accepted.take (s.got.length + limit)) ∧
      (∀ x : Int, 0 ≤ x → (s.fd.canReadXbytes x = true ↔ x ≤ (s.accepted.length - s.got.length : Int))) ∧
      ((∀ c ∈ calls, KeyCodes c) → ∀ buffer, ∃ t, call s (.write 4 buffer) = some t ∧
        (t.accepted = s.accepted ++ taken buffer 4 ∨ t.accepted = s.accepted)) := by
  obtain ⟨inode, start⟩ := startFifo deviceID valid made
  obtain ⟨s, ran, fifo⟩ := Lib.Transition.invariantRunTotal (Fifo inode) (fun _ _ => callFifo) start alone
  refine ⟨s, ran, fifo.got, ?_, fun x _ => canReadFifo fifo, ?_⟩
  · intro limit buffer
    obtain ⟨t, done, -, accepted, got⟩ := readFifo fifo limit buffer
    exact ⟨t, done, accepted, got⟩
  · intro keys buffer
    have guarded : Guarded call (fun s c => Alone s c ∧ KeyCodes c) ⟨.ofNode node, out, [], []⟩ calls :=
      fun pre c post mid shape reached =>
        ⟨alone pre c post mid shape reached, keys c (by rw [shape]; simp)⟩
    have whole := Lib.Transition.invariantRun (fun s => Fifo inode s ∧ 4 ∣ s.accepted.length)
      (fun _ _ _ => keyCodeStep) ⟨start, ⟨0, rfl⟩⟩ guarded ran
    exact keyCodeWhole fifo whole.2 buffer

/- A key code and two of its bytes, on a disk of one inode and one block. -/
theorem fileDescriptorFifoKey : ∃ out node s, (zeroed ⟨1, 1, 1⟩).create 0 .FILE = some (out, node) ∧
    run call ⟨.ofNode node, out, [], []⟩ [.write 4 (fun _ => 7#8), .read 2 (fun _ => 0#8)] = some s ∧
      s.got <+: s.accepted := by
  have valid : (⟨1, 1, 1⟩ : Super).Valid := by simp [Super.Valid]
  obtain ⟨out, node, made, -⟩ := createSpec 0 (zeroedOwned valid) (show (zeroed ⟨1, 1, 1⟩).getFreeINode = some 0 from rfl)
    (show NodeType.FILE ≠ .INVALID by simp)
  have alone : Guarded call Alone ⟨.ofNode node, out, [], []⟩ [.write 4 (fun _ => 7#8), .read 2 (fun _ => 0#8)] := by
    refine Lib.Transition.guardedConsIff.mpr ⟨trivial, fun mid _ => ?_⟩
    refine Lib.Transition.guardedConsIff.mpr ⟨trivial, fun last _ => ?_⟩
    exact Lib.Transition.guardedNil call Alone last
  obtain ⟨s, ran, order, -⟩ := fileDescriptorFifo 0 valid made _ alone
  exact ⟨out, node, s, made, ran, order⟩

end DimOS.Process

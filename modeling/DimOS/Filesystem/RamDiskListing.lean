import DimOS.Filesystem.RamDiskDirectory

/-! readDir against the history of its directory. The vector that it fills in is never returned, so
what it says about a directory is right as long as nothing was ever appended to it. -/
namespace DimOS.Filesystem.RamDisk
open Lib.ByteMemory
open Lib.Transition (run Guarded)

theorem writeLoopInside {size offset : Nat} {buffer : Buffer} {inode left : Nat} {d out : Disk}
    {i prevDone written done : Nat} (h : Linked (· = inode) d) (live : Live d inode) (within : prevDone < BlockSize)
    (place : written < size → offset + written = BlockSize * i + prevDone)
    (inside : offset + size ≤ BlockSize * (d.nodes inode).blocksInUse)
    (ok : Disk.writeLoop inode size buffer left d i prevDone written = some (out, done)) :
    (out.nodes inode).blocksInUse = (d.nodes inode).blocksInUse := by
  induction left generalizing d i prevDone written with
  | zero =>
    cases Option.some.inj ok
    rfl
  | succ left ih =>
    simp only [Disk.writeLoop] at ok
    split at ok
    · next more =>
      have here := place more
      have used : i < (d.nodes inode).blocksInUse := by
        unfold BlockSize at *
        omega
      have claimed : d.claimBlock inode i = some d := by
        rw [Disk.claimBlock, if_neg (by omega)]
      obtain ⟨b, -, slot⟩ := h.slots inode i rfl live used
      rcases filled : Disk.fill buffer size (BlockSize - prevDone) d.data (d.blockAddr b + prevDone) written with ⟨m, total⟩
      simp only [claimed, slot, filled] at ok
      obtain ⟨-, -, next, -, linked, -⟩ := fillWrote buffer h rfl ⟨live, used, slot⟩ within here more filled
      exact @ih { d with data := m } (i + 1) 0 total linked live (by unfold BlockSize; omega) next inside ok
    · cases Option.some.inj ok
      rfl

theorem writeInside {size : Nat} {buffer : Buffer} {d : Disk} {resource : Resource} {offset : Nat} {out : Disk.Written}
    (h : Linked (· = resource.inode) d) (live : Live d resource.inode)
    (inside : offset + size ≤ BlockSize * (d.nodes resource.inode).blocksInUse)
    (ok : d.write resource offset size buffer = some out) :
    (out.disk.nodes resource.inode).blocksInUse = (d.nodes resource.inode).blocksInUse := by
  unfold Disk.write at ok
  split at ok
  · cases Option.some.inj ok
    rfl
  · simp only at ok
    split at ok
    · cases ok
    · next mid done looped =>
      cases Option.some.inj ok
      rw [sizeNode]
      have start : 0 < min size (MaxDataBlocks * BlockSize - offset) →
          offset + 0 = BlockSize * (offset / BlockSize) + offset % BlockSize :=
        fun _ => (Nat.div_add_mod offset BlockSize).symm
      exact writeLoopInside h live (Nat.mod_lt _ (by unfold BlockSize; omega)) start (by omega) looped

theorem writeDirNone {d out : Disk} {n : Nat} {vfsNode : VfsNode} (h : Header d vfsNode.resource.inode n)
    (ok : d.writeDir vfsNode [] = some out) :
    (out.nodes vfsNode.resource.inode).blocksInUse = (d.nodes vfsNode.resource.inode).blocksInUse := by
  unfold Disk.writeDir at ok
  have size := h.size
  have block := h.block
  have cap := h.linked.cap vfsNode.resource.inode rfl h.live
  obtain ⟨mid, wrote, file⟩ := writeFile (([] : List DirEntry).length * sizeofDirEntry % 2 ^ 32) (entryBytes [])
    h.linked rfl h.live (show (d.nodes vfsNode.resource.inode).size ≤ MaxDataBlocks * BlockSize by
      unfold MaxDataBlocks BlockSize at *; omega) (by unfold BlockSize at *; omega)
  have inode := file.shown.1
  have same := writeInside h.linked h.live (by simpa using block) wrote
  simp only [wrote] at ok
  split at ok
  · cases ok
  · obtain ⟨last, wrote', rfl⟩ := Option.map_eq_some_iff.mp ok
    have live' : Live mid.disk mid.resource.inode := by
      rw [inode]
      exact file.shape.live.mpr h.live
    have again := writeInside (by rw [inode]; exact file.linked) live' (by
      rw [inode, same]
      unfold sizeofDirHeader at *
      omega) wrote'
    rw [inode, same] at again
    exact again

inductive DirOp where
  | writeDir (entries : List DirEntry)
  | removeDirEntry (entry : DirEntry)

/- The disk, all entries that were appended, and those of them that were not removed since. -/
structure DirHistory where
  disk : Disk
  appended : List DirEntry
  kept : List DirEntry

def dirStep (vfsNode : VfsNode) (s : DirHistory) : DirOp → Option DirHistory
  | .writeDir entries => (s.disk.writeDir vfsNode entries).map
      (fun disk => ⟨disk, s.appended ++ entries, s.kept ++ entries⟩)
  | .removeDirEntry entry => (s.disk.removeDirEntry vfsNode entry).map
      (fun disk => ⟨disk, s.appended, s.kept.filter (fun e => e.inode ≠ entry.inode)⟩)

/- An append finds space. A removal is one that scans the entries and nothing else. -/
def Served (vfsNode : VfsNode) (s : DirHistory) : DirOp → Prop
  | .writeDir entries => Room s.disk vfsNode.resource.inode entries
  | .removeDirEntry _ => s.appended = [] ∨ Fits s.disk vfsNode.resource.inode

theorem readDirBare {d : Disk} {vfsNode : VfsNode} (linked : Linked (· = vfsNode.resource.inode) d) (live : Live d vfsNode.resource.inode)
    (bare : (d.nodes vfsNode.resource.inode).blocksInUse = 0) : d.readDir vfsNode = none := by
  obtain ⟨⟨buffer, got⟩, ran, count, -⟩ := readSpec linked rfl live 0
    (d.nodes vfsNode.resource.inode).size (fun _ => 0#8)
  have nothing : got = 0 := by
    simp only [readable, bare] at count
    omega
  simp only [Disk.readDir, ran, nothing]
  rw [if_pos (show 0 < sizeofDirHeader by decide), ite_self]

theorem readDirHeader {d : Disk} {vfsNode : VfsNode} {n : Nat} (h : Header d vfsNode.resource.inode n) :
    d.readDir vfsNode = if n = 0 then some [] else none := by
  have size := h.size
  obtain ⟨⟨buffer, got⟩, ran, count, bytes⟩ := readSpec h.linked rfl h.live 0
    (d.nodes vfsNode.resource.inode).size (fun _ => 0#8)
  dsimp only at count bytes
  rw [readable, Nat.min_eq_left h.block, Nat.sub_zero, Nat.min_self] at count
  have loaded : loadInt buffer 0 = n := by
    rw [← h.counted]
    refine loadIntCongr (fun k _ past => ?_)
    rw [bytes k, if_pos (by unfold sizeofDirHeader at size; omega), Nat.zero_add]
  simp only [Disk.readDir, h.dir, ne_eq, not_true_eq_false, if_false, ran, loaded]
  rw [if_neg (by unfold sizeofDirHeader at *; omega)]
  simp only [Int.natCast_eq_zero]

theorem removeDirEntryHeader {d out : Disk} {vfsNode : VfsNode} {entry : DirEntry} {n : Nat}
    (h : Header d vfsNode.resource.inode n) (fits : Fits d vfsNode.resource.inode)
    (ok : d.removeDirEntry vfsNode entry = some out) :
    Header out vfsNode.resource.inode n ∧ out.nodes = d.nodes := by
  obtain ⟨shape, bits⟩ := removeDirEntryData h.linked.valid ok
  have linked : Linked (· = vfsNode.resource.inode) out := by
    rw [shape]
    exact h.linked.withData bits
  have super : out.super = d.super := by rw [shape]
  have nodes : out.nodes = d.nodes := by rw [shape]
  unfold Disk.removeDirEntry at ok
  have size := h.size
  have block := h.block
  have few := fits.block
  have one : (d.nodes vfsNode.resource.inode).blocksInUse = 1 := by
    unfold sizeofDirHeader BlockSize at *
    omega
  obtain ⟨b, -, slot⟩ := h.linked.slots _ 0 rfl h.live (by omega)
  refine ⟨⟨linked, by unfold Live; rw [super, nodes]; exact h.live, by rw [nodes]; exact h.dir, ?_,
    by rw [nodes]; exact size, by rw [nodes]; exact block⟩, nodes⟩
  simp only [one, Disk.dropInBlocks, slot, MaxDataBlocks, Nat.le_zero_eq, if_false, Option.map_some,
    OfNat.ofNat_ne_zero] at ok
  have data := congrArg Disk.data (Option.some.inj ok)
  have slot' : (out.nodes vfsNode.resource.inode).dataBlocks 0 = some b := by
    rw [nodes]
    exact slot
  rw [← h.counted, ← firstBlockCount slot', ← firstBlockCount slot, blockAddrCongr super b, ← data]
  refine loadIntCongr (fun k _ past => (dropEntriesMarked _ _ _ _).miss k (fun j _ _ => .inl ?_))
  unfold inodeField sizeofDirHeader
  omega

section law
variable {vfsNode : VfsNode} {s t : DirHistory} {op : DirOp}

/- The header counts what was appended; before that the directory has one block. -/
structure Kept (vfsNode : VfsNode) (s : DirHistory) : Prop where
  header : Header s.disk vfsNode.resource.inode s.appended.length
  small : s.appended = [] → (s.disk.nodes vfsNode.resource.inode).blocksInUse ≤ 1
  none : s.appended = [] → s.kept = []

theorem Kept.fits (h : Kept vfsNode s) (empty : s.appended = []) : Fits s.disk vfsNode.resource.inode := by
  refine ⟨h.small empty, ?_⟩
  rw [h.header.counted, empty]
  decide

theorem stepKept (h : Kept vfsNode s) (served : Served vfsNode s op) (ok : dirStep vfsNode s op = some t) :
    Kept vfsNode t := by
  cases op with
  | writeDir entries =>
    obtain ⟨out, wrote, rfl⟩ := Option.map_eq_some_iff.mp ok
    obtain ⟨out', bytes, wrote', made⟩ := writeDirAppended h.header entries
    cases Option.some.inj (wrote.symm.trans wrote')
    refine ⟨?_, ?_, ?_⟩
    · rw [List.length_append]
      exact made.header h.header served
    · intro empty
      obtain ⟨before, rfl⟩ := List.append_eq_nil_iff.mp empty
      rw [writeDirNone h.header wrote]
      exact h.small before
    · intro empty
      obtain ⟨before, none⟩ := List.append_eq_nil_iff.mp empty
      rw [h.none before, none]
      rfl
  | removeDirEntry entry =>
    obtain ⟨out, dropped, rfl⟩ := Option.map_eq_some_iff.mp ok
    have fits : Fits s.disk vfsNode.resource.inode := by
      rcases served with empty | fits
      · exact h.fits empty
      · exact fits
    obtain ⟨header, nodes⟩ := removeDirEntryHeader h.header fits dropped
    refine ⟨header, fun empty => by rw [nodes]; exact h.small empty, fun empty => ?_⟩
    simp only
    rw [h.none empty]
    rfl

/- A directory that was created on a full disk: no call finds space. -/
structure Bare (vfsNode : VfsNode) (s : DirHistory) : Prop where
  linked : Linked (· = vfsNode.resource.inode) s.disk
  live : Live s.disk vfsNode.resource.inode
  size : (s.disk.nodes vfsNode.resource.inode).size = sizeofDirHeader
  total : total s.disk vfsNode.resource.inode = 0

theorem Bare.bare (h : Bare vfsNode s) : (s.disk.nodes vfsNode.resource.inode).blocksInUse = 0 :=
  Nat.eq_zero_of_add_eq_zero_right h.total

theorem stepBare (h : Bare vfsNode s) (served : Served vfsNode s op) (ok : dirStep vfsNode s op = some t) :
    Bare vfsNode t := by
  cases op with
  | writeDir entries =>
    simp only [Served, Room, capacity, h.size, h.total] at served
    unfold sizeofDirHeader BlockSize at served
    omega
  | removeDirEntry entry =>
    obtain ⟨out, dropped, rfl⟩ := Option.map_eq_some_iff.mp ok
    simp only [Disk.removeDirEntry, h.bare, Disk.dropInBlocks] at dropped
    cases Option.some.inj dropped
    exact ⟨h.linked, h.live, h.size, h.total⟩

/-- On a directory that create made, after appends that found space and removals: readDir returns
the entries that were appended and not removed exactly when none was ever appended, and create had a
block for the directory. -/
theorem directoryLawIff {d d₁ : Disk} {deviceID : Int} {ops : List DirOp} (valid : d.super.Valid)
    (made : d.create deviceID .DIRECTORY = some (d₁, vfsNode))
    (served : Guarded (dirStep vfsNode) (Served vfsNode) ⟨d₁, [], []⟩ ops)
    (reached : run (dirStep vfsNode) ⟨d₁, [], []⟩ ops = some s) :
    s.disk.readDir vfsNode = some s.kept ↔ s.appended = [] ∧ d.getFreeDataBlock.isSome := by
  obtain ⟨inode, free⟩ : ∃ inode, d.getFreeINode = some inode := by
    cases free : d.getFreeINode with
    | none =>
      simp only [Disk.create, free] at made
      cases made
    | some inode => exact ⟨inode, rfl⟩
  obtain ⟨d₂, vfsNode', made', created⟩ := createFile deviceID (freeLinked valid free) rfl free
    (show NodeType.DIRECTORY ≠ .INVALID by decide)
  cases Option.some.inj (made.symm.trans made')
  have number := created.shown.1
  cases block : d.getFreeDataBlock with
  | some b =>
    obtain ⟨d₃, vfsNode'', made'', -, used, dir⟩ := createdDirectory deviceID valid free (by rw [block]; rfl)
    cases Option.some.inj (made.symm.trans made'')
    have start : Kept vfsNode ⟨d₁, [], []⟩ := by
      refine ⟨?_, fun _ => ?_, fun _ => rfl⟩
      · rw [number]
        exact dir.toHeader
      · rw [number]
        exact Nat.le_of_eq used
    have kept := Lib.Transition.invariantRun (Kept vfsNode) (fun _ _ _ h served ok => stepKept h served ok)
      start served reached
    rw [readDirHeader kept.header]
    constructor
    · intro listed
      refine ⟨?_, rfl⟩
      by_contra some
      rw [if_neg (by rw [List.length_eq_zero_iff]; exact some)] at listed
      cases listed
    · rintro ⟨empty, -⟩
      rw [if_pos (by rw [empty]; rfl), kept.none empty]
  | none =>
    obtain ⟨d₃, vfsNode'', made'', -, used, full⟩ := createTakes deviceID .DIRECTORY free block
    cases Option.some.inj (made.symm.trans made'')
    have start : Bare vfsNode ⟨d₁, [], []⟩ := by
      refine ⟨by rw [number]; exact created.linked, by rw [number]; exact created.live, by rw [number]; exact created.size, ?_⟩
      rw [number, RamDisk.total, used, spareNone full]
    have bare := Lib.Transition.invariantRun (Bare vfsNode) (fun _ _ _ h served ok => stepBare h served ok)
      start served reached
    rw [readDirBare bare.linked bare.live bare.bare]
    simp

end law

/- A directory from which something is removed before anything was appended. -/
theorem directoryLawEmpty : ∃ d vfsNode s, (zeroed ⟨2, 1, 2⟩).create 0 .DIRECTORY = some (d, vfsNode) ∧
    run (dirStep vfsNode) ⟨d, [], []⟩ [.removeDirEntry someEntry] = some s ∧ s.disk.readDir vfsNode = some s.kept := by
  have facts : ((zeroed ⟨2, 1, 2⟩).create 0 .DIRECTORY).bind (fun made =>
      (run (dirStep made.2) ⟨made.1, [], []⟩ [.removeDirEntry someEntry]).map (fun s => s.appended.length)) =
      some 0 := by
    decide +kernel
  obtain ⟨⟨d, vfsNode⟩, made, facts⟩ := Option.bind_eq_some_iff.mp facts
  obtain ⟨s, reached, empty⟩ := Option.map_eq_some_iff.mp facts
  have served : Guarded (dirStep vfsNode) (Served vfsNode) ⟨d, [], []⟩ [.removeDirEntry someEntry] :=
    Lib.Transition.guardedConsIff.mpr ⟨.inl rfl, fun t _ => Lib.Transition.guardedNil _ _ t⟩
  exact ⟨d, vfsNode, s, made, reached,
    (directoryLawIff twoOwned.valid made served reached).mpr ⟨List.length_eq_zero_iff.mp empty, rfl⟩⟩

/- One entry is appended, and readDir ends without a return. -/
theorem readDirLosesEntries : ∃ d vfsNode s, (zeroed ⟨2, 1, 2⟩).create 0 .DIRECTORY = some (d, vfsNode) ∧
    Room d vfsNode.resource.inode [someEntry] ∧
    run (dirStep vfsNode) ⟨d, [], []⟩ [.writeDir [someEntry]] = some s ∧ s.kept = [someEntry] ∧
    s.disk.readDir vfsNode ≠ some s.kept := by
  have facts : ((zeroed ⟨2, 1, 2⟩).create 0 .DIRECTORY).bind (fun made =>
      (run (dirStep made.2) ⟨made.1, [], []⟩ [.writeDir [someEntry]]).map (fun s =>
        (decide ((made.1.nodes made.2.resource.inode).size + 20 ≤ capacity made.1 made.2.resource.inode),
          (s.disk.readDir made.2).isSome))) = some (true, false) := by
    decide +kernel
  obtain ⟨⟨d, vfsNode⟩, made, facts⟩ := Option.bind_eq_some_iff.mp facts
  obtain ⟨s, reached, facts⟩ := Option.map_eq_some_iff.mp facts
  obtain ⟨room, lost⟩ := Prod.mk.inj facts
  have kept : s.kept = [someEntry] := by
    rw [Lib.Transition.runSingle] at reached
    obtain ⟨out, -, rfl⟩ := Option.map_eq_some_iff.mp reached
    rfl
  have room := of_decide_eq_true room
  refine ⟨d, vfsNode, s, made, room, reached, kept, ?_⟩
  intro listed
  rw [listed] at lost
  cases lost

end DimOS.Filesystem.RamDisk

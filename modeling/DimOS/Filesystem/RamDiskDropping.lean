import DimOS.Filesystem.RamDiskDirectory
import DimOS.Filesystem.RamDiskPlaced

/-! What removeDirEntry writes, over all the blocks of a directory. It takes each block for a header
with entries behind it, and the count of the header is no bound for the block: the scan of the first
block goes on through the blocks that follow it in memory, and the others count with what their first
bytes happen to be. All the words it looks at lie at multiples of four from the first block on. -/
namespace DimOS.Filesystem.RamDisk
open Lib.ByteMemory

def entryAddr (d : Disk) (i j : Nat) : Nat :=
  match (d.nodes i).dataBlocks (inodeField 0 j / BlockSize) with
  | none => 0
  | some b => d.blockAddr b + inodeField 0 j % BlockSize

def Names (d : Disk) (i : Nat) (inode : Int) (j : Nat) : Prop := Entry d i j ∧ entryInode d i j = inode

/- The address is one of a word, counted from the first data block. -/
def Word (d : Disk) (a : Nat) : Prop := ∃ w, a = d.super.dataBitsetSize + 4 * w

theorem wordBlock (d : Disk) (b : Nat) : Word d (d.blockAddr b) :=
  ⟨128 * b, by unfold Disk.blockAddr BlockSize; omega⟩

theorem wordField (d : Disk) (b t : Nat) : Word d (inodeField (d.blockAddr b) t) :=
  ⟨128 * b + 5 * t + 5, by unfold inodeField Disk.blockAddr BlockSize sizeofDirHeader sizeofDirEntry; omega⟩

theorem Word.same {d : Disk} {x y o o' : Nat} (wx : Word d x) (wy : Word d y) (low : o < 4) (low' : o' < 4)
    (meet : x + o = y + o') : x = y := by
  obtain ⟨w, rfl⟩ := wx
  obtain ⟨w', rfl⟩ := wy
  omega

/- The slots of the inode hold blocks of the disk, and its size reaches no further than they do. Two of
them may hold the same block, as on a disk that was mounted again. -/
structure Seated (d : Disk) (i : Nat) : Prop where
  cap : (d.nodes i).blocksInUse ≤ MaxDataBlocks
  slots : ∀ k, k < (d.nodes i).blocksInUse → ∃ b, b < d.super.blockCnt ∧ (d.nodes i).dataBlocks k = some b
  sized : (d.nodes i).size ≤ BlockSize * (d.nodes i).blocksInUse ∨ (d.nodes i).size ≤ sizeofDirHeader

theorem Header.seated {d : Disk} {i n : Nat} (h : Header d i n) : Seated d i :=
  ⟨h.linked.cap i rfl h.live, fun k => h.linked.slots i k rfl h.live, .inl h.block⟩

theorem Owned.seated {d : Disk} {i : Nat} (h : Owned d) (live : Live d i) : Seated d i :=
  ⟨h.cap i, fun k => h.slots i k live, (h.sized i live).imp_right And.left⟩

theorem entryLoad {d : Disk} {i j b : Nat} (slot : (d.nodes i).dataBlocks (inodeField 0 j / BlockSize) = some b) :
    entryAddr d i j = d.blockAddr b + inodeField 0 j % BlockSize ∧ Word d (entryAddr d i j) ∧
      entryInode d i j = loadInt d.data (entryAddr d i j) := by
  have addr : entryAddr d i j = d.blockAddr b + inodeField 0 j % BlockSize := by
    simp only [entryAddr, slot]
  have byte : ∀ o, o < 4 → byteAt d i (inodeField 0 j + o) = d.data (entryAddr d i j + o) := by
    intro o low
    have block : (inodeField 0 j + o) / BlockSize = inodeField 0 j / BlockSize := by
      unfold inodeField BlockSize sizeofDirHeader sizeofDirEntry
      omega
    have place : (inodeField 0 j + o) % BlockSize = inodeField 0 j % BlockSize + o := by
      unfold inodeField BlockSize sizeofDirHeader sizeofDirEntry
      omega
    simp only [byteAt, block, place, slot, addr, Nat.add_assoc]
  have first := byte 0 (by omega)
  rw [Nat.add_zero, Nat.add_zero] at first
  refine ⟨addr, ?_, by rw [entryInode, loadInt, loadInt, byte 3 (by omega), byte 2 (by omega), byte 1 (by omega), first]⟩
  rw [addr]
  refine ⟨128 * b + inodeField 0 j % 512 / 4, ?_⟩
  unfold inodeField Disk.blockAddr BlockSize sizeofDirHeader sizeofDirEntry
  omega

section
variable {d : Disk} {i j : Nat} {inode : Int}

theorem Names.place (h : Seated d i) (names : Names d i inode j) :
    ∃ b, b < d.super.blockCnt ∧ (d.nodes i).dataBlocks (inodeField 0 j / BlockSize) = some b ∧
      entryAddr d i j = d.blockAddr b + inodeField 0 j % BlockSize := by
  have inside := names.1.inside
  have used : inodeField 0 j / BlockSize < (d.nodes i).blocksInUse := by
    rcases h.sized with sized | small
    · unfold inodeField BlockSize sizeofDirHeader sizeofDirEntry at *
      omega
    · unfold sizeofDirHeader sizeofDirEntry at *
      omega
  obtain ⟨b, low, slot⟩ := h.slots _ used
  exact ⟨b, low, slot, by simp only [entryAddr, slot]⟩

theorem Names.word (h : Seated d i) (names : Names d i inode j) : Word d (entryAddr d i j) := by
  obtain ⟨b, -, slot, -⟩ := names.place h
  exact (entryLoad slot).2.1

theorem Names.inside (h : Seated d i) (names : Names d i inode j) :
    entryAddr d i j + 4 ≤ d.blockAddr d.super.blockCnt := by
  obtain ⟨b, low, -, addr⟩ := names.place h
  rw [addr]
  unfold inodeField Disk.blockAddr BlockSize sizeofDirHeader sizeofDirEntry
  omega

theorem Names.load (h : Seated d i) (names : Names d i inode j) {out : Disk} (super : out.super = d.super)
    (nodes : out.nodes = d.nodes) : entryInode out i j = loadInt out.data (entryAddr d i j) := by
  obtain ⟨b, -, slot, addr⟩ := names.place h
  have slot' : (out.nodes i).dataBlocks (inodeField 0 j / BlockSize) = some b := by rw [nodes, slot]
  obtain ⟨addr', -, load⟩ := entryLoad slot'
  rw [load, addr', addr, blockAddrCongr super]

theorem Names.header (h : Seated d i) (names : Names d i inode j) {b : Nat}
    (meet : entryAddr d i j = d.blockAddr b) : (d.nodes i).dataBlocks 5 = some b := by
  obtain ⟨b', -, slot, addr⟩ := names.place h
  have rem := Nat.mod_lt (inodeField 0 j) (show 0 < BlockSize by decide)
  have same : b' = b ∧ inodeField 0 j % BlockSize = 0 := by
    rw [addr] at meet
    unfold Disk.blockAddr BlockSize at *
    omega
  have sixth : inodeField 0 j / BlockSize = 5 := by
    have inside := names.1.inside
    have cap := h.cap
    have sized := h.sized
    unfold inodeField sizeofDirHeader sizeofDirEntry BlockSize MaxDataBlocks at *
    omega
  rw [← sixth, slot, same.1]

end

def scanData (d : Disk) (dataBlocks : Nat → Option Nat) (inode : Int) : Nat → Memory
  | 0 => d.data
  | k + 1 =>
    match dataBlocks k with
    | none => scanData d dataBlocks inode k
    | some b => Disk.dropEntries (d.blockAddr b) inode
        (loadInt (scanData d dataBlocks inode k) (d.blockAddr b)).toNat (scanData d dataBlocks inode k)

theorem dropInBlocksScan {d : Disk} {dataBlocks : Nat → Option Nat} {inode : Int} {count : Nat}
    (cap : count ≤ MaxDataBlocks) (slots : ∀ k, k < count → ∃ b, dataBlocks k = some b) :
    Disk.dropInBlocks dataBlocks inode count d = some { d with data := scanData d dataBlocks inode count } := by
  induction count with
  | zero => rfl
  | succ count ih =>
    obtain ⟨b, slot⟩ := slots count (Nat.lt_succ_self _)
    simp only [Disk.dropInBlocks, ih (by omega) (fun k low => slots k (by omega)), slot, Option.map_some, scanData]
    rw [if_neg (by omega)]
    rfl

section scan
variable {d : Disk} {dataBlocks : Nat → Option Nat} {inode : Int}

def VisitedAt (d : Disk) (dataBlocks : Nat → Option Nat) (inode : Int) (k x : Nat) : Prop :=
  ∃ b t, dataBlocks k = some b ∧ t < (loadInt (scanData d dataBlocks inode k) (d.blockAddr b)).toNat ∧
    x = inodeField (d.blockAddr b) t

def StoredBefore (d : Disk) (dataBlocks : Nat → Option Nat) (inode : Int) (k x : Nat) : Prop :=
  loadInt d.data x = inode ∧ ∃ k', k' < k ∧ VisitedAt d dataBlocks inode k' x

theorem StoredBefore.word {k x : Nat} (stored : StoredBefore d dataBlocks inode k x) : Word d x := by
  obtain ⟨-, k', -, b, t, -, -, rfl⟩ := stored
  exact wordField d b t

theorem StoredBefore.later {k k' x : Nat} (stored : StoredBefore d dataBlocks inode k x) (after : k ≤ k') :
    StoredBefore d dataBlocks inode k' x := by
  obtain ⟨holds, j, before, seen⟩ := stored
  exact ⟨holds, j, by omega, seen⟩

theorem Marked.either {dirData count : Nat} {m out : Memory} (marked : Marked dirData inode count m out) (a : Nat) :
    (∃ x, loadInt m x = inode ∧ x ≤ a ∧ a < x + 4 ∧ out a = 255#8) ∨ out a = m a := by
  by_cases inside : ∃ j, j < count ∧ loadInt m (inodeField dirData j) = inode ∧
      inodeField dirData j ≤ a ∧ a < inodeField dirData j + 4
  · obtain ⟨j, low, holds, first, last⟩ := inside
    exact .inl ⟨_, holds, first, last, marked.hit j low holds a first last⟩
  · refine .inr (marked.miss a (fun j low holds => ?_))
    by_contra apart
    exact inside ⟨j, low, holds, by omega, by omega⟩

structure ScanAt (d : Disk) (dataBlocks : Nat → Option Nat) (inode : Int) (k : Nat) (m : Memory) : Prop where
  hit : ∀ x, StoredBefore d dataBlocks inode k x → ∀ a, x ≤ a → a < x + 4 → m a = 255#8
  miss : ∀ a, (∀ x, StoredBefore d dataBlocks inode k x → a < x ∨ x + 4 ≤ a) → m a = d.data a

theorem ScanAt.stored {k x : Nat} {m : Memory} (scan : ScanAt d dataBlocks inode k m)
    (stored : StoredBefore d dataBlocks inode k x) : loadInt m x = -1 :=
  loadMinusOneIff.mpr (scan.hit x stored)

theorem ScanAt.kept {k x : Nat} {m : Memory} (scan : ScanAt d dataBlocks inode k m) (word : Word d x)
    (other : ¬ StoredBefore d dataBlocks inode k x) : loadInt m x = loadInt d.data x := by
  refine loadIntCongr (fun a low high => scan.miss a (fun y stored => ?_))
  by_contra meet
  have same := @Word.same d x y (a - x) (a - y) word stored.word (by omega) (by omega) (by omega)
  exact other (same ▸ stored)

theorem scanDataAt (real : inode ≠ -1) (k : Nat) : ScanAt d dataBlocks inode k (scanData d dataBlocks inode k) := by
  induction k with
  | zero => exact ⟨fun x stored => absurd stored.2 (by rintro ⟨k', low, -⟩; omega), fun a _ => rfl⟩
  | succ k ih =>
    simp only [scanData]
    cases slot : dataBlocks k with
    | none =>
      have same : ∀ x, StoredBefore d dataBlocks inode (k + 1) x ↔ StoredBefore d dataBlocks inode k x := by
        intro x
        refine ⟨?_, fun stored => stored.later (Nat.le_succ k)⟩
        rintro ⟨holds, k', low, seen⟩
        by_cases here : k' = k
        · obtain ⟨b, t, found, -⟩ := seen
          rw [here, slot] at found
          cases found
        · exact ⟨holds, k', by omega, seen⟩
      exact ⟨fun x stored => ih.hit x ((same x).mp stored), fun a apart => ih.miss a (fun x stored => apart x ((same x).mpr stored))⟩
    | some b =>
      have marked := dropEntriesMarked (d.blockAddr b) inode
        (loadInt (scanData d dataBlocks inode k) (d.blockAddr b)).toNat (scanData d dataBlocks inode k)
      refine ⟨fun x stored a low high => ?_, fun a apart => ?_⟩
      · by_cases before : StoredBefore d dataBlocks inode k x
        · rcases marked.either a with ⟨-, -, -, -, new⟩ | old
          · exact new
          · exact old.trans (ih.hit x before a low high)
        · obtain ⟨holds, k', inside, seen⟩ := stored
          have here : k' = k := by
            by_contra other
            exact before ⟨holds, k', by omega, seen⟩
          obtain ⟨b', t, found, counted, rfl⟩ := seen
          rw [here] at found counted
          cases Option.some.inj (slot.symm.trans found)
          exact marked.hit t counted ((ih.kept (wordField d b t) before).trans holds) a low high
      · refine (marked.miss a (fun t counted holds => ?_)).trans
          (ih.miss a (fun x stored => apart x (stored.later (Nat.le_succ k))))
        have fresh : ¬ StoredBefore d dataBlocks inode k (inodeField (d.blockAddr b) t) := by
          intro stored
          rw [ih.stored stored] at holds
          exact real holds.symm
        rw [ih.kept (wordField d b t) fresh] at holds
        exact apart _ ⟨holds, k, Nat.lt_succ_self _, b, t, slot, counted, rfl⟩

theorem scanDataSame (k : Nat) : scanData d dataBlocks (-1) k = d.data := by
  induction k with
  | zero => rfl
  | succ k ih =>
    simp only [scanData, ih]
    cases dataBlocks k with
    | none => rfl
    | some b =>
      funext a
      rcases (dropEntriesMarked (d.blockAddr b) (-1) (loadInt d.data (d.blockAddr b)).toNat d.data).either a with
        ⟨x, holds, first, last, new⟩ | old
      · exact new.trans (loadMinusOneIff.mp holds a first last).symm
      · exact old

end scan

section frame
variable {d : Disk} {i : Nat} {inode : Int}

/- With the counts that stand in the first words of its blocks before the call, the scan of block k
takes the word at x for the inode of an entry. -/
def Looks (d : Disk) (i k x : Nat) : Prop :=
  ∃ b t, k < (d.nodes i).blocksInUse ∧ (d.nodes i).dataBlocks k = some b ∧
    t < (loadInt d.data (d.blockAddr b)).toNat ∧ x = inodeField (d.blockAddr b) t

/- The count of the sixth block is the inode of entry 127, and the scan of an earlier block drops that
entry. -/
def Muted (d : Disk) (i : Nat) (inode : Int) (k : Nat) : Prop :=
  ∃ b, (d.nodes i).dataBlocks k = some b ∧ (d.nodes i).dataBlocks 5 = some b ∧
    loadInt d.data (d.blockAddr b) = inode ∧ ∃ k', k' < k ∧ Looks d i k' (d.blockAddr b)

theorem Looks.behind {k x b : Nat} (looks : Looks d i k x) (slot : (d.nodes i).dataBlocks k = some b) :
    d.blockAddr b < x := by
  obtain ⟨b', t, -, found, -, rfl⟩ := looks
  cases Option.some.inj (slot.symm.trans found)
  unfold inodeField
  omega

def Drops (d : Disk) (i : Nat) (inode : Int) (x : Nat) : Prop :=
  loadInt d.data x = inode ∧ ∃ k, Looks d i k x ∧ ¬ Muted d i inode k

/- The words of the data blocks that hold the inode and that the scan takes for an entry are those
of the stored entries that name it. -/
def Hits (d : Disk) (i : Nat) (inode : Int) : Prop :=
  ∀ x, Word d x → x < d.blockAddr d.super.blockCnt →
    (Drops d i inode x ↔ ∃ j, Names d i inode j ∧ entryAddr d i j = x)

structure DropFrame (d out : Disk) (i : Nat) (inode : Int) : Prop where
  dropped : ∀ j, Names d i inode j → entryInode out i j = -1
  rest : ∀ a, a < d.blockAddr d.super.blockCnt →
    (∀ j, Names d i inode j → a < entryAddr d i j ∨ entryAddr d i j + 4 ≤ a) → out.data a = d.data a

def Overwritten (d : Disk) (i : Nat) (inode : Int) (x : Nat) : Prop :=
  StoredBefore d (d.nodes i).dataBlocks inode (d.nodes i).blocksInUse x

theorem dropFrameIff (h : Seated d i) (real : inode ≠ -1) {out : Disk} (super : out.super = d.super)
    (nodes : out.nodes = d.nodes)
    (data : out.data = scanData d (d.nodes i).dataBlocks inode (d.nodes i).blocksInUse) :
    DropFrame d out i inode ↔ ∀ x, Word d x → x < d.blockAddr d.super.blockCnt →
      (Overwritten d i inode x ↔ ∃ j, Names d i inode j ∧ entryAddr d i j = x) := by
  have scan := @scanDataAt d (d.nodes i).dataBlocks inode real (d.nodes i).blocksInUse
  rw [← data] at scan
  constructor
  · intro frame x word inside
    have whole : x + 4 ≤ d.blockAddr d.super.blockCnt := by
      obtain ⟨w, rfl⟩ := word
      unfold Disk.blockAddr BlockSize at *
      omega
    constructor
    · intro stored
      by_contra other
      have same : loadInt out.data x = loadInt d.data x := by
        refine loadIntCongr (fun a low high => frame.rest a (by omega) (fun j names => ?_))
        by_contra meet
        have equal := @Word.same d (entryAddr d i j) x (a - entryAddr d i j) (a - x) (names.word h) word
          (by omega) (by omega) (by omega)
        exact other ⟨j, names, equal⟩
      rw [scan.stored stored, stored.1] at same
      exact real same.symm
    · rintro ⟨j, names, rfl⟩
      by_contra other
      have now := frame.dropped j names
      rw [names.load h super nodes, scan.kept word other, ← names.load h rfl rfl, names.2] at now
      exact real now
  · intro hits
    refine ⟨fun j names => ?_, fun a inside apart => ?_⟩
    · have low := names.inside h
      rw [names.load h super nodes]
      exact scan.stored ((hits _ (names.word h) (by omega)).mpr ⟨j, names, rfl⟩)
    · refine scan.miss a (fun x stored => ?_)
      by_contra meet
      obtain ⟨j, names, rfl⟩ := (hits x stored.word (by omega)).mp stored
      exact meet (apart j names)

theorem visitedIff (h : Seated d i) (real : inode ≠ -1) {k : Nat} (low : k < (d.nodes i).blocksInUse)
    (before : ∀ k', k' < k → ∀ x, VisitedAt d (d.nodes i).dataBlocks inode k' x ↔
      Looks d i k' x ∧ ¬ Muted d i inode k')
    (sixth : ∀ b, (d.nodes i).dataBlocks k = some b →
      StoredBefore d (d.nodes i).dataBlocks inode k (d.blockAddr b) → (d.nodes i).dataBlocks 5 = some b) (x : Nat) :
    VisitedAt d (d.nodes i).dataBlocks inode k x ↔ Looks d i k x ∧ ¬ Muted d i inode k := by
  have scan := @scanDataAt d (d.nodes i).dataBlocks inode real k
  obtain ⟨b, -, slot⟩ := h.slots k low
  by_cases stored : StoredBefore d (d.nodes i).dataBlocks inode k (d.blockAddr b)
  · -- its first word is -1 by now: nothing is counted
    have muted : Muted d i inode k := by
      obtain ⟨holds, k', earlier, seen⟩ := stored
      exact ⟨b, slot, sixth b slot ⟨holds, k', earlier, seen⟩, holds, k', earlier, ((before k' earlier _).mp seen).1⟩
    constructor
    · rintro ⟨b', t, found, counted, -⟩
      cases Option.some.inj (slot.symm.trans found)
      rw [scan.stored stored] at counted
      exact absurd counted (Nat.not_lt_zero t)
    · rintro ⟨-, heard⟩
      exact absurd muted heard
  · have kept := scan.kept (wordBlock d b) stored
    have heard : ¬ Muted d i inode k := by
      rintro ⟨b', found, last, holds, k', earlier, looks⟩
      cases Option.some.inj (slot.symm.trans found)
      refine stored ⟨holds, k', earlier, (before k' earlier _).mpr ⟨looks, ?_⟩⟩
      -- a block that looks there is another one, and its own count is no entry
      rintro ⟨b', found', last', -⟩
      cases Option.some.inj (last.symm.trans last')
      exact absurd (looks.behind found') (Nat.lt_irrefl _)
    constructor
    · rintro ⟨b', t, found, counted, rfl⟩
      cases Option.some.inj (slot.symm.trans found)
      rw [kept] at counted
      exact ⟨⟨b, t, low, slot, counted, rfl⟩, heard⟩
    · rintro ⟨⟨b', t, -, found, counted, rfl⟩, -⟩
      cases Option.some.inj (slot.symm.trans found)
      rw [← kept] at counted
      exact ⟨b, t, slot, counted, rfl⟩

theorem overwrittenIff (h : Seated d i) (real : inode ≠ -1)
    (sixth : ∀ k b, k < (d.nodes i).blocksInUse → (d.nodes i).dataBlocks k = some b →
      (∀ k', k' < k → ∀ x, VisitedAt d (d.nodes i).dataBlocks inode k' x ↔ Looks d i k' x ∧ ¬ Muted d i inode k') →
      StoredBefore d (d.nodes i).dataBlocks inode k (d.blockAddr b) → (d.nodes i).dataBlocks 5 = some b) (x : Nat) :
    Overwritten d i inode x ↔ Drops d i inode x := by
  have visited : ∀ k, k < (d.nodes i).blocksInUse → ∀ x, VisitedAt d (d.nodes i).dataBlocks inode k x ↔
      Looks d i k x ∧ ¬ Muted d i inode k := by
    intro k
    induction k using Nat.strongRecOn with
    | ind k ih =>
      intro low
      have before := fun k' earlier => ih k' earlier (by omega)
      exact visitedIff h real low before (fun b slot => sixth k b low slot before)
  refine and_congr_right (fun _ => ⟨?_, ?_⟩)
  · rintro ⟨k, low, seen⟩
    exact ⟨k, (visited k low x).mp seen⟩
  · rintro ⟨k, looks, heard⟩
    obtain ⟨b, t, low, rest⟩ := looks
    exact ⟨k, low, (visited k low x).mpr ⟨⟨b, t, low, rest⟩, heard⟩⟩

theorem overwrittenHits (h : Seated d i) (real : inode ≠ -1) :
    (∀ x, Word d x → x < d.blockAddr d.super.blockCnt →
      (Overwritten d i inode x ↔ ∃ j, Names d i inode j ∧ entryAddr d i j = x)) ↔ Hits d i inode := by
  have header : ∀ k b, k < (d.nodes i).blocksInUse → (d.nodes i).dataBlocks k = some b →
      d.blockAddr b < d.blockAddr d.super.blockCnt := by
    intro k b low slot
    obtain ⟨b', inside, found⟩ := h.slots k low
    cases Option.some.inj (slot.symm.trans found)
    unfold Disk.blockAddr BlockSize
    omega
  constructor
  · intro words x word inside
    rw [← overwrittenIff h real ?_ x]
    · exact words x word inside
    · intro k b low slot _ stored
      obtain ⟨j, names, addr⟩ := (words _ (wordBlock d b) (header k b low slot)).mp (stored.later (Nat.le_of_lt low))
      exact names.header h addr
  · intro hits x word inside
    rw [overwrittenIff h real ?_ x]
    · exact hits x word inside
    · intro k b low slot before stored
      obtain ⟨holds, k', earlier, seen⟩ := stored
      obtain ⟨j, names, addr⟩ := (hits _ (wordBlock d b) (header k b low slot)).mp
        ⟨holds, k', (before k' earlier _).mp seen⟩
      exact names.header h addr

theorem dropRuns (h : Seated d i) (inode : Int) :
    ∃ out, Disk.dropInBlocks (d.nodes i).dataBlocks inode (d.nodes i).blocksInUse d = some out ∧
      out.super = d.super ∧ out.nodes = d.nodes ∧
      out.data = scanData d (d.nodes i).dataBlocks inode (d.nodes i).blocksInUse := by
  refine ⟨_, dropInBlocksScan h.cap (fun k low => ?_), rfl, rfl, rfl⟩
  obtain ⟨b, -, slot⟩ := h.slots k low
  exact ⟨b, slot⟩

theorem Header.hits {n : Nat} (h : Header d i n) (one : (d.nodes i).blocksInUse = 1) : Hits d i inode := by
  obtain ⟨b, -, slot⟩ := h.seated.slots 0 (by omega)
  have size := h.size
  have block := h.block
  have bound : ∀ j, j < n → inodeField 0 j + 4 ≤ BlockSize := by
    intro j low
    unfold inodeField sizeofDirHeader sizeofDirEntry BlockSize at *
    omega
  have addr : ∀ j, j < n → entryAddr d i j = inodeField (d.blockAddr b) j := by
    intro j low
    have inside := bound j low
    simp only [entryAddr, Nat.div_eq_of_lt (show inodeField 0 j < BlockSize by omega), slot,
      Nat.mod_eq_of_lt (show inodeField 0 j < BlockSize by omega), fieldShift]
  have named : ∀ j, j < n → entryInode d i j = loadInt d.data (inodeField (d.blockAddr b) j) := by
    intro j low
    rw [entryInode, firstBlockInt slot (bound j low), fieldShift]
  have count : loadInt d.data (d.blockAddr b) = n := (firstBlockCount slot).trans h.counted
  intro x _ _
  constructor
  · rintro ⟨holds, k, ⟨b', t, low, found, counted, rfl⟩, -⟩
    have first : k = 0 := by omega
    subst first
    cases Option.some.inj (slot.symm.trans found)
    have low : t < n := by
      rw [count] at counted
      omega
    refine ⟨t, ⟨⟨h.live, h.dir, ?_, ?_⟩, ?_⟩, addr t low⟩
    · rw [h.counted]
      omega
    · unfold sizeofDirHeader sizeofDirEntry at *
      omega
    · rw [named t low, holds]
  · rintro ⟨j, names, rfl⟩
    have counted := names.1.counted
    rw [h.counted] at counted
    have low : j < n := by omega
    refine ⟨?_, 0, ⟨b, j, by omega, slot, ?_, addr j low⟩, ?_⟩
    · rw [addr j low, ← named j low, names.2]
    · rw [count]
      omega
    · rintro ⟨-, -, -, -, k', earlier, -⟩
      omega

/-- removeDirEntry marks the stored entries that name the inode and changes no other byte of the data
blocks exactly when it looks for -1, or finds the inode at these entries and nowhere else. -/
theorem removeDirEntryFrameIff (vfsNode : VfsNode) (entry : DirEntry) (h : Seated d vfsNode.resource.inode) :
    ∃ out, d.removeDirEntry vfsNode entry = some out ∧
      (DropFrame d out vfsNode.resource.inode entry.inode ↔
        entry.inode = -1 ∨ Hits d vfsNode.resource.inode entry.inode) := by
  generalize number : vfsNode.resource.inode = i at h
  obtain ⟨out, ran, super, nodes, data⟩ := dropRuns h entry.inode
  refine ⟨out, by rw [Disk.removeDirEntry, number]; exact ran, ?_⟩
  by_cases minus : entry.inode = -1
  · rw [minus, scanDataSame] at data
    refine ⟨fun _ => .inl minus, fun _ => ⟨fun j names => ?_, fun a _ _ => by rw [data]⟩⟩
    rw [names.load h super nodes, data, ← names.load h rfl rfl, names.2, minus]
  · rw [dropFrameIff h minus super nodes data, overwrittenHits h minus, or_iff_right minus]

/- The scans of the first k blocks come by the word at x, with the counts that stand in the blocks before the
call. A block whose first word one of them overwrites counts no entries. -/
def Swept (d : Disk) (i : Nat) (inode : Int) : Nat → Nat → Prop
  | 0, _ => False
  | k + 1, x => Swept d i inode k x ∨ Looks d i k x ∧ ¬ ∃ b, (d.nodes i).dataBlocks k = some b ∧
      loadInt d.data (d.blockAddr b) = inode ∧ Swept d i inode k (d.blockAddr b)

theorem sweptIff (real : inode ≠ -1) {k : Nat} (low : k ≤ (d.nodes i).blocksInUse) (x : Nat) :
    (∃ k', k' < k ∧ VisitedAt d (d.nodes i).dataBlocks inode k' x) ↔ Swept d i inode k x := by
  induction k generalizing x with
  | zero => simp [Swept]
  | succ k ih =>
    have before := ih (by omega)
    have scan := @scanDataAt d (d.nodes i).dataBlocks inode real k
    have here : VisitedAt d (d.nodes i).dataBlocks inode k x ↔ Looks d i k x ∧
        ¬ ∃ b, (d.nodes i).dataBlocks k = some b ∧ loadInt d.data (d.blockAddr b) = inode ∧
          Swept d i inode k (d.blockAddr b) := by
      constructor
      · rintro ⟨b, t, slot, counted, rfl⟩
        have fresh : ¬ StoredBefore d (d.nodes i).dataBlocks inode k (d.blockAddr b) := by
          intro stored
          rw [scan.stored stored] at counted
          exact absurd counted (Nat.not_lt_zero t)
        rw [scan.kept (wordBlock d b) fresh] at counted
        refine ⟨⟨b, t, by omega, slot, counted, rfl⟩, ?_⟩
        rintro ⟨b', slot', holds, swept⟩
        cases Option.some.inj (slot.symm.trans slot')
        exact fresh ⟨holds, (before _).mpr swept⟩
      · rintro ⟨⟨b, t, -, slot, counted, rfl⟩, heard⟩
        refine ⟨b, t, slot, ?_, rfl⟩
        rw [scan.kept (wordBlock d b) (fun stored => heard ⟨b, slot, stored.1, (before _).mp stored.2⟩)]
        exact counted
    rw [Swept, ← before x, ← here]
    constructor
    · rintro ⟨k', inside, seen⟩
      by_cases last : k' = k
      · exact .inr (last ▸ seen)
      · exact .inl ⟨k', by omega, seen⟩
    · rintro (⟨k', inside, seen⟩ | seen)
      · exact ⟨k', by omega, seen⟩
      · exact ⟨k, Nat.lt_succ_self k, seen⟩

theorem dropInBlocksData {dataBlocks : Nat → Option Nat} {count : Nat} {out : Disk}
    (ok : Disk.dropInBlocks dataBlocks inode count d = some out) :
    out = { d with data := scanData d dataBlocks inode count } := by
  induction count generalizing out with
  | zero =>
    cases Option.some.inj ok
    rfl
  | succ count ih =>
    simp only [Disk.dropInBlocks] at ok
    split at ok
    · contradiction
    · next mid before =>
      cases ih before
      split at ok
      · contradiction
      · obtain ⟨b, slot, rfl⟩ := Option.map_eq_some_iff.mp ok
        simp only [scanData, slot]
        rfl

theorem removeDirEntryKeepsIff (real : inode ≠ -1) {out : Disk} {vfsNode : VfsNode} {name : Nat → BitVec 8}
    (ok : d.removeDirEntry vfsNode ⟨name, inode⟩ = some out) (i j : Nat) :
    entryInode out i j = entryInode d i j ↔ ¬ (entryInode d i j = inode ∧ Swept d vfsNode.resource.inode inode
      (d.nodes vfsNode.resource.inode).blocksInUse (entryAddr d i j)) := by
  unfold Disk.removeDirEntry at ok
  generalize vfsNode.resource.inode = parent at *
  have shape := dropInBlocksData ok
  have scan := @scanDataAt d (d.nodes parent).dataBlocks inode real (d.nodes parent).blocksInUse
  subst shape
  have stored : ∀ x, StoredBefore d (d.nodes parent).dataBlocks inode (d.nodes parent).blocksInUse x ↔
      loadInt d.data x = inode ∧ Swept d parent inode (d.nodes parent).blocksInUse x :=
    fun x => and_congr_right (fun _ => sweptIff real (Nat.le_refl _) x)
  cases slot : (d.nodes i).dataBlocks (inodeField 0 j / BlockSize) with
  | none =>
    have null : ∀ m, entryInode { d with data := m } i j = 0 := by
      intro m
      have byte : ∀ o, o < 4 → byteAt { d with data := m } i (inodeField 0 j + o) = 0#8 := by
        intro o low
        have block : (inodeField 0 j + o) / BlockSize = inodeField 0 j / BlockSize := by
          unfold inodeField BlockSize sizeofDirHeader sizeofDirEntry
          omega
        simp only [byteAt, block, slot]
      have first := byte 0 (by omega)
      rw [Nat.add_zero] at first
      rw [entryInode, loadInt, byte 3 (by omega), byte 2 (by omega), byte 1 (by omega), first]
      decide
    refine iff_of_true ((null _).trans (null d.data).symm) ?_
    rintro ⟨-, swept⟩
    have addr : entryAddr d i j = 0 := by simp only [entryAddr, slot]
    obtain ⟨k, -, b, t, -, -, place⟩ := (sweptIff real (Nat.le_refl _) _).mpr swept
    rw [addr] at place
    unfold inodeField at place
    omega
  | some b =>
    obtain ⟨-, word, before⟩ := entryLoad slot
    generalize scanData d (d.nodes parent).dataBlocks inode (d.nodes parent).blocksInUse = m at scan ⊢
    obtain ⟨-, -, after⟩ := @entryLoad { d with data := m } i j b slot
    rw [after, before, ← stored]
    change loadInt m (entryAddr d i j) = _ ↔ _
    constructor
    · intro same hit
      rw [scan.stored hit, hit.1] at same
      exact real same.symm
    · exact scan.kept word

end frame

/- A removal leaves all entries and all that the scan reads. -/
section removed
variable {d out : Disk} (removed : Removed d out)
include removed

theorem Removed.entryInode (i j : Nat) : entryInode out i j = RamDisk.entryInode d i j :=
  loadIntCongr (fun pos _ _ => removed.byteAt i pos)

theorem Removed.entryAddr (i j : Nat) : entryAddr out i j = RamDisk.entryAddr d i j := by
  simp only [RamDisk.entryAddr, removed.blocks, Disk.blockAddr, removed.super]

theorem Removed.swept (i : Nat) (inode : Int) (k x : Nat) : Swept out i inode k x ↔ Swept d i inode k x := by
  have count : ∀ b, loadInt out.data (d.blockAddr b) = loadInt d.data (d.blockAddr b) := by
    intro b
    exact loadIntCongr (fun a low _ => removed.bytes a (by unfold Disk.blockAddr at low; omega))
  have looks : ∀ k x, Looks out i k x ↔ Looks d i k x := by
    intro k x
    simp only [Looks, removed.blocks, removed.used, blockAddrCongr removed.super, count]
  induction k generalizing x with
  | zero => exact Iff.rfl
  | succ k ih => simp only [Swept, ih, looks, removed.blocks, blockAddrCongr removed.super, count]

end removed

/- The entry of a directory of one. -/
theorem removeDirEntryFrameOne : ∃ made d out, (zeroed ⟨2, 1, 2⟩).create 0 .DIRECTORY = some made ∧
    made.1.writeDir made.2 [someEntry] = some d ∧ d.removeDirEntry made.2 someEntry = some out ∧
    DropFrame d out made.2.resource.inode 1 := by
  obtain ⟨d₁, vfsNode, made, number, used, dir⟩ := createdDirectory 0 twoOwned.valid (show _ = some 0 from rfl) rfl
  rw [← number] at dir used
  obtain ⟨d, bytes, wrote, appended⟩ := writeDirAppended dir.toHeader [someEntry]
  have room : Room d₁ vfsNode.resource.inode [someEntry] := by
    have size := dir.size
    simp only [Room, capacity, total, used, size, sizeofDirHeader, sizeofDirEntry, BlockSize, MaxDataBlocks,
      List.length_nil, List.length_singleton]
    omega
  have header := appended.header dir.toHeader room
  have one : (d.nodes vfsNode.resource.inode).blocksInUse = 1 := by
    have facts : ((zeroed ⟨2, 1, 2⟩).create 0 .DIRECTORY).bind (fun made =>
        (made.1.writeDir made.2 [someEntry]).map (fun d => (d.nodes made.2.resource.inode).blocksInUse)) = some 1 := by
      decide +kernel
    rw [made, Option.bind_some, wrote, Option.map_some] at facts
    exact Option.some.inj facts
  obtain ⟨out, dropped, frame⟩ := removeDirEntryFrameIff vfsNode someEntry header.seated
  exact ⟨(d₁, vfsNode), d, out, made, wrote, dropped, frame.mpr (.inr (header.hits one))⟩

def shortNames : List DirEntry :=
  (List.range 26).map (fun k => ⟨fun o => if o = 0 then BitVec.ofNat 8 (0x61 + k) else 0#8, k + 1⟩)

/- The second block of the directory lies behind the block of a file, and the last entry in it: the
first four bytes of that block are a piece of a name, and count no entries. -/
theorem lastEntryStays : ∃ made d₁ vfsNode d out, (zeroed ⟨2, 1, 3⟩).create 0 .DIRECTORY = some made ∧
    made.1.create 0 .FILE = some (d₁, vfsNode) ∧ d₁.writeDir made.2 shortNames = some d ∧
    Names d 0 26 25 ∧ d.removeDirEntry made.2 ⟨fun _ => 0#8, 26⟩ = some out ∧ ¬ DropFrame d out 0 26 := by
  have facts : ((zeroed ⟨2, 1, 3⟩).create 0 .DIRECTORY).bind (fun made =>
      (made.1.create 0 .FILE).bind (fun file => (file.1.writeDir made.2 shortNames).map (fun d =>
        ([made.2.resource.inode, (d.nodes 0).size, (d.nodes 0).blocksInUse, d.super.iNodeCnt, file.1.super.iNodeCnt],
          [(d.nodes 0).dataBlocks 0, (d.nodes 0).dataBlocks 1], [(d.nodes 0).type, (file.1.nodes 0).type],
          [loadInt d.data (d.blockAddr 2), entryCnt d 0, entryInode d 0 25])))) =
      some ([0, 524, 2, 2, 2], [some 0, some 2], [.DIRECTORY, .DIRECTORY], [0, 26, 26]) := by
    decide +kernel
  obtain ⟨⟨d₀, dirNode⟩, made, facts⟩ := Option.bind_eq_some_iff.mp facts
  obtain ⟨⟨d₁, vfsNode⟩, filed, facts⟩ := Option.bind_eq_some_iff.mp facts
  obtain ⟨d, wrote, facts⟩ := Option.map_eq_some_iff.mp facts
  simp only [Prod.mk.injEq, List.cons.injEq, and_true] at facts
  obtain ⟨⟨number, size, used, inodes, inodes₁⟩, ⟨slot₀, slot₁⟩, ⟨dir, dir₁⟩, second, count, named⟩ := facts
  have owned : Owned d := by
    obtain ⟨-, -, owned₀, -⟩ := createKeeps (zeroedOwned (by simp [Super.Valid])) (by decide) made
    obtain ⟨-, -, owned₁, -⟩ := createKeeps owned₀ (by decide) filed
    have live₁ : Live d₁ dirNode.resource.inode := ⟨by omega, by rw [number, dir₁]; decide⟩
    obtain ⟨d', wrote', owned, -⟩ := writeDirSpec shortNames owned₁ live₁
    cases Option.some.inj (wrote.symm.trans wrote')
    exact owned
  have live : Live d 0 := ⟨by omega, by rw [dir]; decide⟩
  have seated := owned.seated live
  have names : Names d 0 26 25 := by
    refine ⟨⟨live, dir, ?_, ?_⟩, named⟩
    · rw [count]
      decide
    · rw [size]
      decide
  have addr : entryAddr d 0 25 = d.blockAddr 2 + 8 := by
    simp only [entryAddr]
    rw [show inodeField 0 25 / BlockSize = 1 from rfl, slot₁]
    rfl
  obtain ⟨out, ran, super, nodes, data⟩ := dropRuns seated 26
  refine ⟨(d₀, dirNode), d₁, vfsNode, d, out, made, filed, wrote, names, ?_, ?_⟩
  · rw [Disk.removeDirEntry, number]
    exact ran
  · rw [dropFrameIff seated (by decide) super nodes data, overwrittenHits seated (by decide)]
    intro hits
    have inside := names.inside seated
    obtain ⟨-, k, ⟨b, t, low, slot, counted, place⟩, -⟩ :=
      (hits _ (names.word seated) (by omega)).mpr ⟨25, names, rfl⟩
    rw [addr] at place
    rw [used] at low
    interval_cases k
    · -- from the first block on the fields lie elsewhere
      cases Option.some.inj (slot₀.symm.trans slot)
      unfold inodeField Disk.blockAddr BlockSize sizeofDirHeader sizeofDirEntry at place
      omega
    · cases Option.some.inj (slot₁.symm.trans slot)
      rw [second] at counted
      exact absurd counted (Nat.not_lt_zero t)

end DimOS.Filesystem.RamDisk

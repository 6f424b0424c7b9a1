import DimOS.Lib.Count
import DimOS.Filesystem.RamDiskEntries

/-! A directory as it grows: writeDir appends the bytes of its entries and then counts them in the
header, whether they were stored or not. How many bytes a write stores is told beforehand, from the
blocks the inode has and those that are free. -/
namespace DimOS.Filesystem.RamDisk
open Lib.ByteMemory
open Lib.Count (count countCongr countLower)
open Lib.Transition (run Guarded Visits)
open Cpp
open Cpp.Bitset (bitAt)

def spareBlocks (d : Disk) : Nat := count (fun b => !bitAt d.data b) d.super.blockCnt

theorem spareCongr {d d' : Disk} (super : d'.super = d.super)
    (same : ∀ b, b < d.super.blockCnt → bitAt d'.data b = bitAt d.data b) : spareBlocks d' = spareBlocks d := by
  unfold spareBlocks
  rw [super]
  exact countCongr (fun b inside => by rw [same b inside])

theorem spareAttach {d : Disk} {b : Nat} (inode : Nat) (free : d.getFreeDataBlock = some b) :
    spareBlocks (d.attach inode b) + 1 = spareBlocks d := by
  obtain ⟨inside, clear⟩ := freeBlockSpec free
  refine countLower inside (by rw [clear]; rfl) ?_ ?_
  · show (!bitAt (Bitset.set d.data b true) b) = false
    rw [Bitset.setBit, if_pos rfl]
    rfl
  · intro j other
    show (!bitAt (Bitset.set d.data b true) j) = !bitAt d.data j
    rw [Bitset.setBit, if_neg other]

theorem spareNone {d : Disk} (full : d.getFreeDataBlock = none) : spareBlocks d = 0 := by
  by_contra some
  obtain ⟨b, inside, clear⟩ : ∃ b, b < d.super.blockCnt ∧ bitAt d.data b = false := by
    by_contra none
    refine some ?_
    have all : spareBlocks d = count (fun _ => false) d.super.blockCnt := by
      refine countCongr (fun b inside => ?_)
      cases set : bitAt d.data b with
      | true => rfl
      | false => exact absurd ⟨b, inside, set⟩ none
    rw [all]
    simp [count]
  have found := List.find?_eq_none.mp full b (List.mem_range.mpr inside)
  rw [Bitset.getEq, clear] at found
  exact found rfl

def total (d : Disk) (inode : Nat) : Nat := (d.nodes inode).blocksInUse + spareBlocks d

theorem totalData {d : Disk} {m : Memory} (inode : Nat)
    (same : ∀ b, b < d.super.blockCnt → bitAt m b = bitAt d.data b) :
    total { d with data := m } inode = total d inode := by
  unfold total
  rw [@spareCongr d { d with data := m } rfl same]

theorem claimTotal {d out : Disk} {inode i : Nat} (ok : d.claimBlock inode i = some out) :
    total out inode = total d inode := by
  unfold Disk.claimBlock at ok
  split at ok
  · obtain ⟨b, free, rfl⟩ := Option.map_eq_some_iff.mp ok
    have fewer := spareAttach inode free
    have more : ((d.attach inode b).nodes inode).blocksInUse = (d.nodes inode).blocksInUse + 1 := by
      simp [Disk.attach, Disk.setNode]
    unfold total
    omega
  · cases Option.some.inj ok
    rfl

theorem writeLoopTotal {size : Nat} {buffer : Buffer} {inode left : Nat} {d out : Disk}
    {i prevDone written done : Nat} (h : Linked (· = inode) d) (live : Live d inode) (blocks : i + left = MaxDataBlocks)
    (reach : i ≤ (d.nodes inode).blocksInUse) (within : prevDone < BlockSize)
    (ok : Disk.writeLoop inode size buffer left d i prevDone written = some (out, done)) :
    total out inode = total d inode := by
  induction left generalizing d i prevDone written with
  | zero =>
    cases Option.some.inj ok
    rfl
  | succ left ih =>
    simp only [Disk.writeLoop] at ok
    split at ok
    · split at ok
      · cases Option.some.inj ok
        rfl
      · next mid claimed =>
        have claim := claimClaimed h rfl live reach (by omega) claimed
        have live' := claim.shape.live.mpr live
        obtain ⟨b, -, slot⟩ := claim.linked.slots inode i rfl live' claim.used
        simp only [slot] at ok
        have below := (fillSpec buffer size (BlockSize - prevDone) mid.data
          (mid.blockAddr b + prevDone) written).1
        have bits := blockBits claim.linked.valid below
        have rest := ih (claim.linked.withData bits) live' (by omega) claim.used (by unfold BlockSize; omega) ok
        exact (rest.trans (totalData inode bits)).trans (claimTotal claimed)
    · cases Option.some.inj ok
      rfl

theorem writeTotal {size : Nat} {buffer : Buffer} {d : Disk} {resource : Resource} {offset : Nat} {out : Disk.Written}
    (h : Linked (· = resource.inode) d) (live : Live d resource.inode)
    (reach : offset / BlockSize ≤ (d.nodes resource.inode).blocksInUse)
    (ok : d.write resource offset size buffer = some out) :
    total out.disk resource.inode = total d resource.inode := by
  unfold Disk.write at ok
  split at ok
  · cases Option.some.inj ok
    rfl
  · next small =>
    have cap := h.cap resource.inode rfl live
    simp only at ok
    split at ok
    · cases ok
    · next mid done looped =>
      cases Option.some.inj ok
      have loop := writeLoopTotal h live (by omega) reach (Nat.mod_lt _ (by unfold BlockSize; omega)) looped
      rw [← loop]
      unfold total
      rw [sizeNode]
      rfl

theorem loadStoreInt (m : Memory) (a : Nat) (v : Int) :
    loadInt (storeInt m a v) a = (BitVec.ofInt 32 v).toInt := by
  have byte : ∀ i, i < 4 → storeInt m a v (a + i) = (BitVec.ofInt 32 v).extractLsb' (8 * i) 8 := by
    intro i low
    rw [storeInt, if_pos (by omega), Nat.add_sub_cancel_left]
  have first : storeInt m a v a = (BitVec.ofInt 32 v).extractLsb' 0 8 := byte 0 (by omega)
  unfold loadInt
  rw [byte 3 (by omega), byte 2 (by omega), byte 1 (by omega), first]
  generalize BitVec.ofInt 32 v = word
  congr 1
  apply BitVec.eq_of_getLsbD_eq
  intro i low
  simp only [BitVec.getLsbD_append, BitVec.getLsbD_extractLsb']
  split
  · simp [show i < 8 by omega]
  · split
    · simp [show i - 8 < 8 by omega, show 8 + (i - 8) = i by omega]
    · split
      · simp [show i - 8 - 8 < 8 by omega, show 16 + (i - 8 - 8) = i by omega]
      · simp [show i - 8 - 8 - 8 < 8 by omega, show 24 + (i - 8 - 8 - 8) = i by omega]

/- A directory whose header counts n entries and whose size is theirs. -/
structure Header (d : Disk) (i n : Nat) : Prop where
  linked : Linked (· = i) d
  live : Live d i
  dir : (d.nodes i).type = .DIRECTORY
  counted : entryCnt d i = n
  size : (d.nodes i).size = sizeofDirHeader + sizeofDirEntry * n
  block : (d.nodes i).size ≤ BlockSize * (d.nodes i).blocksInUse

def capacity (d : Disk) (i : Nat) : Nat := min (MaxDataBlocks * BlockSize) (BlockSize * total d i)

/- One writeDir of which `bytes` bytes were stored. -/
structure Appended (d out : Disk) (i n : Nat) (entries : List DirEntry) (bytes : Nat) : Prop where
  linked : Linked (· = i) out
  shape : SameShape d out
  size : (out.nodes i).size = (d.nodes i).size + bytes
  block : (out.nodes i).size ≤ BlockSize * (out.nodes i).blocksInUse
  total : total out i = total d i
  counted : entryCnt out i = (BitVec.ofInt 32 ((n : Int) + entries.length)).toInt
  bound : bytes ≤ entries.length * sizeofDirEntry ∧ (d.nodes i).size + bytes ≤ capacity d i
  whole : (d.nodes i).size + entries.length * sizeofDirEntry ≤ capacity d i →
    bytes = entries.length * sizeofDirEntry
  fresh : ∀ k, k < bytes → byteAt out i ((d.nodes i).size + k) = entryBytes entries k
  old : ∀ pos, sizeofDirHeader ≤ pos → pos < (d.nodes i).size → byteAt out i pos = byteAt d i pos

/- The second half of writeDir: the header is read, counted up and written back. -/
structure Recounted (d out : Disk) (i : Nat) (more : Int) : Prop where
  linked : Linked (· = i) out
  shape : SameShape d out
  size : (out.nodes i).size = (d.nodes i).size
  grows : (d.nodes i).blocksInUse ≤ (out.nodes i).blocksInUse
  total : total out i = total d i
  counted : entryCnt out i = (BitVec.ofInt 32 (entryCnt d i + more)).toInt
  old : ∀ pos, sizeofDirHeader ≤ pos → pos < (d.nodes i).size → byteAt out i pos = byteAt d i pos

theorem headerRecounted {d : Disk} {resource : Resource} (linked : Linked (· = resource.inode) d) (live : Live d resource.inode)
    (large : sizeofDirHeader ≤ (d.nodes resource.inode).size)
    (block : (d.nodes resource.inode).size ≤ BlockSize * (d.nodes resource.inode).blocksInUse) (more : Int) :
    ∃ header got out, d.read resource 0 sizeofDirHeader (fun _ => 0#8) = some (header, got) ∧
      d.write resource 0 sizeofDirHeader (storeInt header 0 (loadInt header 0 + more)) = some out ∧
      Recounted d out.disk resource.inode more := by
  obtain ⟨⟨header, got⟩, ran, count, bytes⟩ := readSpec linked rfl live 0 sizeofDirHeader (fun _ => 0#8)
  have four : got = sizeofDirHeader := by
    unfold readable at count
    dsimp only at count
    omega
  have loaded : loadInt header 0 = entryCnt d resource.inode := by
    refine loadIntCongr (fun k _ past => ?_)
    have byte := bytes k
    dsimp only at byte
    rw [byte, four, if_pos (by unfold sizeofDirHeader; omega), Nat.zero_add]
  obtain ⟨out, wrote, file⟩ := writeFile sizeofDirHeader (storeInt header 0 (loadInt header 0 + more)) linked rfl live
    (Nat.zero_le _) (by rw [Nat.zero_div]; exact Nat.zero_le _)
  have whole : out.bytes = sizeofDirHeader := by
    by_contra short
    have bound := file.bound
    have stuck := (file.stuck (by unfold sizeofDirHeader MaxDataBlocks BlockSize at *; omega)).1
    have grows := file.grows
    unfold sizeofDirHeader MaxDataBlocks BlockSize at *
    omega
  refine ⟨header, got, out, ran, wrote, file.linked, file.shape, ?_, file.grows,
    writeTotal linked live (by rw [Nat.zero_div]; exact Nat.zero_le _) wrote, ?_, ?_⟩
  · rw [file.sized, whole]
    omega
  · have same : entryCnt out.disk resource.inode = loadInt (storeInt header 0 (loadInt header 0 + more)) 0 := by
      refine loadIntCongr (fun k _ past => ?_)
      rw [file.fresh k (Nat.zero_le _) (by rw [whole]; unfold sizeofDirHeader; omega), Nat.sub_zero]
    rw [same, loadStoreInt, loaded]
  · intro pos low high
    exact file.old pos (by omega) (.inr (by rw [whole]; omega))

theorem writeDirAppended {d : Disk} {n : Nat} {vfsNode : VfsNode} (h : Header d vfsNode.resource.inode n)
    (entries : List DirEntry) :
    ∃ out bytes, d.writeDir vfsNode entries = some out ∧ Appended d out vfsNode.resource.inode n entries bytes := by
  have cap := h.linked.cap vfsNode.resource.inode rfl h.live
  have sized := h.size
  have block := h.block
  have start : (d.nodes vfsNode.resource.inode).size / BlockSize ≤ (d.nodes vfsNode.resource.inode).blocksInUse := by
    unfold BlockSize at *
    omega
  unfold Disk.writeDir
  obtain ⟨mid, wrote, file⟩ := writeFile (entries.length * sizeofDirEntry % 2 ^ 32) (entryBytes entries) h.linked rfl
    h.live (show (d.nodes vfsNode.resource.inode).size ≤ MaxDataBlocks * BlockSize by
      unfold MaxDataBlocks BlockSize at *; omega) start
  have taken := writeTotal h.linked h.live start wrote
  simp only [wrote]
  have number := file.shown.1
  have grown : (mid.disk.nodes vfsNode.resource.inode).size = (d.nodes vfsNode.resource.inode).size + mid.bytes := by
    rw [file.sized]
    omega
  have more := Nat.mul_le_mul_left BlockSize file.grows
  have block' : (mid.disk.nodes vfsNode.resource.inode).size ≤
      BlockSize * (mid.disk.nodes vfsNode.resource.inode).blocksInUse := by
    rw [grown]
    rcases file.reach with none | reach <;> omega
  have large : sizeofDirHeader ≤ (mid.disk.nodes vfsNode.resource.inode).size := by omega
  obtain ⟨header, got, last, ran, again, recount⟩ := @headerRecounted mid.disk mid.resource
    (by rw [number]; exact file.linked)
    (by rw [number]; exact file.shape.live.mpr h.live) (by rw [number]; exact large) (by rw [number]; exact block')
    entries.length
  rw [number] at recount
  simp only [ran, again, Option.map_some]
  have kept : entryCnt mid.disk vfsNode.resource.inode = n := by
    rw [← h.counted]
    refine loadIntCongr (fun k _ past => file.old k ?_ (.inl ?_)) <;> unfold sizeofDirHeader at * <;> omega
  refine ⟨last.disk, mid.bytes, rfl, recount.linked, ?_, recount.size.trans grown, ?_, recount.total.trans taken, ?_, ?_, ?_, ?_, ?_⟩
  · exact ⟨recount.shape.super.trans file.shape.super, fun j => (recount.shape.types j).trans (file.shape.types j)⟩
  · rw [recount.size]
    exact block'.trans (Nat.mul_le_mul_left BlockSize recount.grows)
  · rw [recount.counted, kept]
  · have bound := file.bound
    have mod := Nat.mod_le (entries.length * sizeofDirEntry) (2 ^ 32)
    refine ⟨by omega, Nat.le_min.mpr ⟨by unfold MaxDataBlocks BlockSize at *; omega, ?_⟩⟩
    rw [← grown, ← taken]
    exact block'.trans (Nat.mul_le_mul_left BlockSize (Nat.le_add_right _ _))
  · intro room
    obtain ⟨low, high⟩ := Nat.le_min.mp room
    have small : entries.length * sizeofDirEntry % 2 ^ 32 = entries.length * sizeofDirEntry :=
      Nat.mod_eq_of_lt (by unfold MaxDataBlocks BlockSize at low; omega)
    have bound := file.bound
    have stuck := file.stuck
    rw [small] at bound stuck
    by_contra short
    obtain ⟨past, none⟩ := stuck (by omega)
    rw [← taken, total, spareNone none, Nat.add_zero] at high
    omega
  · intro k low
    rw [recount.old _ (by omega) (by omega), file.fresh _ (by omega) (by omega), Nat.add_sub_cancel_left]
  · intro pos low high
    rw [recount.old pos low (by omega), file.old pos (by omega) (.inl high)]

theorem entryBytesLeft {a b : List DirEntry} {k : Nat} (low : k < sizeofDirEntry * a.length) :
    entryBytes (a ++ b) k = entryBytes a k := by
  have inside : k / sizeofDirEntry < a.length := by
    unfold sizeofDirEntry at *
    omega
  unfold entryBytes
  rw [List.getElem?_append_left inside]

theorem entryBytesRight (a b : List DirEntry) (k : Nat) :
    entryBytes (a ++ b) (sizeofDirEntry * a.length + k) = entryBytes b k := by
  have place : (sizeofDirEntry * a.length + k) / sizeofDirEntry = a.length + k / sizeofDirEntry ∧
      (sizeofDirEntry * a.length + k) % sizeofDirEntry = k % sizeofDirEntry := by
    unfold sizeofDirEntry
    omega
  unfold entryBytes
  rw [place.1, place.2, List.getElem?_append_right (Nat.le_add_right _ _), Nat.add_sub_cancel_left]

structure Directory (d : Disk) (i : Nat) (entries : List DirEntry) : Prop extends Header d i entries.length where
  bytes : ∀ k, k < sizeofDirEntry * entries.length → byteAt d i (sizeofDirHeader + k) = entryBytes entries k

def Room (d : Disk) (i : Nat) (entries : List DirEntry) : Prop :=
  (d.nodes i).size + entries.length * sizeofDirEntry ≤ capacity d i

theorem Directory.few {d : Disk} {i : Nat} {entries : List DirEntry} (h : Directory d i entries) :
    entries.length ≤ 255 := by
  have cap := h.linked.cap i rfl h.live
  have size := h.size
  have block := h.block
  unfold sizeofDirHeader sizeofDirEntry BlockSize MaxDataBlocks at *
  omega

theorem smallInt {x : Int} (low : 0 ≤ x) (high : x < 2 ^ 31) : (BitVec.ofInt 32 x).toInt = x := by
  rw [BitVec.toInt_ofInt]
  exact Int.bmod_eq_of_le (by omega) (by omega)

theorem Appended.header {d out : Disk} {i n bytes : Nat} {more : List DirEntry} (h : Header d i n)
    (made : Appended d out i n more bytes) (room : Room d i more) : Header out i (n + more.length) := by
  have all := made.whole room
  have size := h.size
  have most : n + more.length ≤ 256 := by
    unfold Room capacity at room
    unfold sizeofDirHeader sizeofDirEntry MaxDataBlocks BlockSize at *
    omega
  refine ⟨made.linked, made.shape.live.mpr h.live, (made.shape.types i).trans h.dir, ?_, ?_, made.block⟩
  · rw [made.counted, smallInt (by omega) (by omega)]
    push_cast
    rfl
  · rw [made.size, all, size]
    unfold sizeofDirEntry
    omega

theorem Appended.directory {d out : Disk} {i bytes : Nat} {entries more : List DirEntry} (h : Directory d i entries)
    (made : Appended d out i entries.length more bytes) (room : Room d i more) :
    Directory out i (entries ++ more) := by
  have all := made.whole room
  have size := h.size
  refine ⟨?_, ?_⟩
  · rw [List.length_append]
    exact made.header h.toHeader room
  · intro k low
    rw [List.length_append] at low
    by_cases old : k < sizeofDirEntry * entries.length
    · rw [made.old _ (by omega) (by omega), h.bytes k old, entryBytesLeft old]
    · obtain ⟨j, rfl⟩ : ∃ j, k = sizeofDirEntry * entries.length + j := ⟨k - sizeofDirEntry * entries.length, by omega⟩
      have place : sizeofDirHeader + (sizeofDirEntry * entries.length + j) = (d.nodes i).size + j := by omega
      rw [place, made.fresh j (by unfold sizeofDirEntry at *; omega), entryBytesRight]

/- A disk, and the entries that were handed to writeDir for one directory so far. -/
structure Growth where
  disk : Disk
  entries : List DirEntry

def grow (vfsNode : VfsNode) (s : Growth) (more : List DirEntry) : Option Growth :=
  (s.disk.writeDir vfsNode more).map (fun disk => ⟨disk, s.entries ++ more⟩)

/- The header counts no entry that is not stored completely: readDir stays within what it loads. -/
structure Intact (i : Nat) (s : Growth) : Prop where
  size : (sizeofDirHeader : Int) + sizeofDirEntry * entryCnt s.disk i ≤ (s.disk.nodes i).size
  loaded : (sizeofDirHeader : Int) + sizeofDirEntry * entryCnt s.disk i ≤ readable s.disk i
  stored : ∀ k, k < sizeofDirEntry * (entryCnt s.disk i).toNat →
    byteAt s.disk i (sizeofDirHeader + k) = entryBytes s.entries k

theorem Directory.intact {i : Nat} {s : Growth} (h : Directory s.disk i s.entries) : Intact i s := by
  have size := h.size
  have block := h.block
  refine ⟨?_, ?_, ?_⟩
  · rw [h.counted, size]
    push_cast
    omega
  · rw [h.counted, readable, Nat.min_eq_left block, size]
    push_cast
    omega
  · rw [h.counted]
    exact h.bytes

theorem Appended.notIntact {d : Disk} {i bytes : Nat} {s : Growth} {more : List DirEntry} (h : Directory d i s.entries)
    {out : Disk} (made : Appended d out i s.entries.length more bytes) (small : more.length < 2 ^ 30)
    (full : ¬ Room d i more) : ¬ Intact i ⟨out, s.entries ++ more⟩ := by
  intro intact
  have few := h.few
  have size := intact.size
  have bound := made.bound.2
  have before := h.size
  unfold Room at full
  simp only [made.counted, made.size] at size
  rw [smallInt (by omega) (by omega)] at size
  unfold sizeofDirHeader sizeofDirEntry at *
  push_cast at size
  omega

theorem freeLinked {d : Disk} {inode : Nat} (valid : d.super.Valid) (free : d.getFreeINode = some inode) :
    Linked (· = inode) d := by
  have dead : ∀ i, i = inode → ¬ Live d i := by
    rintro i rfl live
    exact live.2 (freeINodeSpec free).2
  exact ⟨valid, fun i mine live => absurd live (dead i mine), fun i k mine live => absurd live (dead i mine),
    fun i k _ _ b mine _ ref => absurd ref.1 (dead i mine), fun i k b mine ref => absurd ref.1 (dead i mine)⟩

theorem createdDirectory (deviceID : Int) {d : Disk} {inode : Nat} (valid : d.super.Valid) (free : d.getFreeINode = some inode)
    (block : d.getFreeDataBlock.isSome) :
    ∃ out vfsNode, d.create deviceID .DIRECTORY = some (out, vfsNode) ∧ vfsNode.resource.inode = inode ∧
      (out.nodes inode).blocksInUse = 1 ∧ Directory out inode [] := by
  obtain ⟨b, block⟩ := Option.isSome_iff_exists.mp block
  obtain ⟨out, vfsNode, made, created⟩ := createFile deviceID (freeLinked valid free) rfl free
    (show NodeType.DIRECTORY ≠ .INVALID by decide)
  obtain ⟨out', vfsNode', made', dir, used, -⟩ := createServed deviceID .DIRECTORY free block
  cases Option.some.inj (made.symm.trans made')
  have four : startSize .DIRECTORY = 4 := rfl
  refine ⟨out, vfsNode, made, created.shown.1, used, ⟨⟨created.linked, created.live, dir, ?_, created.size, ?_⟩, ?_⟩⟩
  · have zero : entryCnt out inode = loadInt (fun _ => 0#8) 0 :=
      loadIntCongr (fun k _ past => created.zero k (by rw [used]; unfold BlockSize; omega))
    rw [zero]
    decide
  · rw [created.size, used, four]
    decide
  · intro k low
    exact absurd low (Nat.not_lt_zero k)

section runs
variable {vfsNode : VfsNode}

def RoomFor (vfsNode : VfsNode) (s : Growth) (more : List DirEntry) : Prop :=
  Room s.disk vfsNode.resource.inode more

theorem growDirectory {s t : Growth} {more : List DirEntry}
    (h : Directory s.disk vfsNode.resource.inode s.entries) (room : RoomFor vfsNode s more)
    (ok : grow vfsNode s more = some t) : Directory t.disk vfsNode.resource.inode t.entries := by
  obtain ⟨out, bytes, wrote, made⟩ := writeDirAppended h.toHeader more
  simp only [grow, wrote, Option.map_some, Option.some.injEq] at ok
  subst ok
  exact made.directory h room

/-- In every run of writeDir calls on a directory in which each call finds space for all its
entries, the header is right in every state. And the first call that does not find it spoils the
header, unless its entries are too many to be counted in an int. -/
theorem headerConsistent {s : Growth} (start : Directory s.disk vfsNode.resource.inode s.entries)
    (calls : List (List DirEntry)) :
    (Guarded (grow vfsNode) (RoomFor vfsNode) s calls →
      (∃ t, run (grow vfsNode) s calls = some t) ∧
        ∀ t, Visits (grow vfsNode) s calls t → Intact vfsNode.resource.inode t) ∧
    ((∀ more ∈ calls, more.length < 2 ^ 30) →
      (∀ t, Visits (grow vfsNode) s calls t → Intact vfsNode.resource.inode t) →
        Guarded (grow vfsNode) (RoomFor vfsNode) s calls) := by
  refine ⟨fun guarded => ⟨?_, fun t visited => ?_⟩, ?_⟩
  · obtain ⟨t, reached, -⟩ := Lib.Transition.invariantRunTotal
      (fun s => Directory s.disk vfsNode.resource.inode s.entries) (fun s more h room => by
        obtain ⟨out, bytes, wrote, made⟩ := writeDirAppended h.toHeader more
        exact ⟨⟨out, s.entries ++ more⟩, by simp only [grow, wrote, Option.map_some], made.directory h room⟩)
      start guarded
    exact ⟨t, reached⟩
  · exact (Lib.Transition.invariantVisits (fun s => Directory s.disk vfsNode.resource.inode s.entries)
      (fun s more t h room ok => growDirectory h room ok) start guarded visited).intact
  · intro small intact
    induction calls generalizing s with
    | nil => exact Lib.Transition.guardedNil _ _ _
    | cons more calls ih =>
      obtain ⟨out, bytes, wrote, made⟩ := writeDirAppended start.toHeader more
      have taken : grow vfsNode s more = some ⟨out, s.entries ++ more⟩ := by
        simp only [grow, wrote, Option.map_some]
      have room : RoomFor vfsNode s more := by
        by_contra full
        refine made.notIntact start (small more (by simp)) full (intact _ ⟨[more], calls, rfl, ?_⟩)
        rw [Lib.Transition.runSingle, taken]
      refine Lib.Transition.guardedConsIff.mpr ⟨room, fun t ok => ?_⟩
      refine ih (growDirectory start room ok) (fun es mem => small es (by simp [mem])) ?_
      rintro u ⟨pre, post, rfl, reached⟩
      exact intact u ⟨more :: pre, post, rfl, by simp only [run, ok, Option.bind_some, reached]⟩

end runs

def someEntry : DirEntry := ⟨fun _ => 0x61#8, 1⟩

theorem twoOwned : Owned (zeroed ⟨2, 1, 2⟩) := zeroedOwned (by simp [Super.Valid])

theorem headerConsistentOne : ∃ d vfsNode t, (zeroed ⟨2, 1, 2⟩).create 0 .DIRECTORY = some (d, vfsNode) ∧
    run (grow vfsNode) ⟨d, []⟩ [[someEntry]] = some t ∧ Intact vfsNode.resource.inode t := by
  obtain ⟨d, vfsNode, made, number, -, dir⟩ := createdDirectory 0 twoOwned.valid (show _ = some 0 from rfl) rfl
  have start : Directory d vfsNode.resource.inode [] := by
    rw [number]
    exact dir
  have room : RoomFor vfsNode ⟨d, []⟩ [someEntry] := by
    have size := start.size
    have block := start.block
    simp only [RoomFor, Room, capacity, total, sizeofDirHeader, sizeofDirEntry, BlockSize, MaxDataBlocks,
      List.length_nil, List.length_singleton] at size block ⊢
    omega
  have guarded : Guarded (grow vfsNode) (RoomFor vfsNode) ⟨d, []⟩ [[someEntry]] :=
    Lib.Transition.guardedConsIff.mpr ⟨room, fun t _ => Lib.Transition.guardedNil _ _ t⟩
  obtain ⟨⟨t, reached⟩, intact⟩ := (@headerConsistent vfsNode ⟨d, []⟩ start [[someEntry]]).1 guarded
  exact ⟨d, vfsNode, t, made, reached, intact t ⟨[[someEntry]], [], rfl, reached⟩⟩

/- The root of a disk of one block takes 26 entries in one call: 25 of them and a part of the last fit. -/
theorem headerCountsMore : ∃ d vfsNode out, (zeroed ⟨1, 1, 1⟩).create 0 .DIRECTORY = some (d, vfsNode) ∧
    d.writeDir vfsNode (List.replicate 26 someEntry) = some out ∧
    entryCnt out 0 = 26 ∧ (out.nodes 0).size = 512 ∧ ¬ Intact 0 ⟨out, List.replicate 26 someEntry⟩ := by
  have facts : ((zeroed ⟨1, 1, 1⟩).create 0 .DIRECTORY).bind (fun made =>
      (made.1.writeDir made.2 (List.replicate 26 someEntry)).map (fun out =>
        (entryCnt out 0, (out.nodes 0).size))) = some (26, 512) := by
    decide +kernel
  obtain ⟨⟨d, vfsNode⟩, made, facts⟩ := Option.bind_eq_some_iff.mp facts
  obtain ⟨out, wrote, facts⟩ := Option.map_eq_some_iff.mp facts
  obtain ⟨count, size⟩ := Prod.mk.inj facts
  refine ⟨d, vfsNode, out, made, wrote, count, size, ?_⟩
  intro intact
  have fits := intact.size
  simp only [count, size] at fits
  exact absurd fits (by decide)

end DimOS.Filesystem.RamDisk

import DimOS.Filesystem.RamDiskStands

/-! The entries that a directory shows: those that its header counts, that lie in its blocks and whose inode
is not -1. What a creation, a removal and a write of the VFS do to them on a disk in any state, told from the
bytes that the calls reach. -/
namespace DimOS.Filesystem.RamDisk
open Lib.ByteMemory

def shownCnt (d : Disk) (i : Nat) : Nat :=
  min (entryCnt d i).toNat ((readable d i - sizeofDirHeader) / sizeofDirEntry)

def entryAt (d : Disk) (i j : Nat) : DirEntry :=
  ⟨fun k => if k < 16 then byteAt d i (sizeofDirHeader + j * sizeofDirEntry + k) else 0#8, entryInode d i j⟩

def liveEntries (d : Disk) (i : Nat) : List DirEntry :=
  ((List.range (shownCnt d i)).filter (fun j => entryInode d i j ≠ -1)).map (entryAt d i)

/- A readDir that returns what it has filled in. -/
def Disk.listDir (d : Disk) (vfsNode : VfsNode) : Option (List DirEntry) :=
  if (d.nodes vfsNode.resource.inode).type ≠ .DIRECTORY then none else some (liveEntries d vfsNode.resource.inode)

theorem readDirListed {d : Disk} {vfsNode : VfsNode} {es : List DirEntry} (slots : Slots (d.nodes vfsNode.resource.inode))
    (ok : d.readDir vfsNode = some es) : d.listDir vfsNode = some es := by
  unfold Disk.readDir at ok
  simp only at ok
  obtain ⟨out, ran, count, bytes⟩ := readBytes slots.cap slots.slots 0 (d.nodes vfsNode.resource.inode).size (fun _ => 0#8)
  split at ok
  · contradiction
  · next dir =>
    rw [ran] at ok
    dsimp only at ok
    split at ok
    · contradiction
    · next long =>
      split at ok
      · next zero =>
        have none : entryCnt d vfsNode.resource.inode = 0 := by
          rw [← zero]
          refine loadIntCongr (fun k _ past => ?_)
          rw [bytes k, if_pos (by unfold sizeofDirHeader at long; omega), Nat.zero_add]
        rw [Disk.listDir, if_neg dir, ← Option.some.inj ok, liveEntries, shownCnt, none]
        simp
      · contradiction

theorem shownInside {d : Disk} {i j : Nat} (shown : j < shownCnt d i) :
    j < (entryCnt d i).toNat ∧ sizeofDirHeader + (j + 1) * sizeofDirEntry ≤ readable d i := by
  unfold shownCnt sizeofDirHeader sizeofDirEntry at *
  omega

section congr
variable {d out : Disk} {i : Nat}

theorem entryInodeCongr {j : Nat}
    (same : ∀ k, k < 4 → byteAt out i (inodeField 0 j + k) = byteAt d i (inodeField 0 j + k)) :
    entryInode out i j = entryInode d i j := by
  refine loadIntCongr (fun pos low high => ?_)
  obtain ⟨k, rfl⟩ := Nat.exists_eq_add_of_le low
  exact same k (by omega)

theorem entryAtCongr {j : Nat} (same : ∀ k, k < sizeofDirEntry →
      byteAt out i (sizeofDirHeader + j * sizeofDirEntry + k) = byteAt d i (sizeofDirHeader + j * sizeofDirEntry + k)) :
    entryAt out i j = entryAt d i j := by
  have number : entryInode out i j = entryInode d i j := by
    refine entryInodeCongr (fun k low => ?_)
    have byte := same (16 + k) (by unfold sizeofDirEntry; omega)
    rw [← Nat.add_assoc] at byte
    simpa only [inodeField, Nat.zero_add] using byte
  unfold entryAt
  rw [number]
  congr 1
  funext k
  split
  · exact same k (by unfold sizeofDirEntry; omega)
  · rfl

theorem liveCongr (count : shownCnt out i = shownCnt d i)
    (same : ∀ j, j < shownCnt d i → entryAt out i j = entryAt d i j) : liveEntries out i = liveEntries d i := by
  unfold liveEntries
  have numbers : ∀ j ∈ List.range (shownCnt d i), entryInode out i j = entryInode d i j :=
    fun j mem => congrArg DirEntry.inode (same j (List.mem_range.mp mem))
  rw [count, List.filter_congr (fun j mem => by rw [numbers j mem])]
  exact List.map_congr_left (fun j mem => same j (List.mem_range.mp (List.mem_filter.mp mem).1))

theorem liveBytes (room : readable out i = readable d i)
    (bytes : ∀ pos, pos < readable d i → byteAt out i pos = byteAt d i pos) : liveEntries out i = liveEntries d i := by
  have count : shownCnt out i = shownCnt d i := by
    unfold shownCnt
    rw [room]
    by_cases long : sizeofDirHeader ≤ readable d i
    · rw [show entryCnt out i = entryCnt d i from
        loadIntCongr (fun k _ past => bytes k (by unfold sizeofDirHeader at long; omega))]
    · rw [Nat.sub_eq_zero_of_le (by omega)]
      simp
  refine liveCongr count (fun j low => entryAtCongr (fun k inside => bytes _ ?_))
  have fits := (shownInside low).2
  unfold sizeofDirEntry at *
  omega

end congr

/- The byte at an address is the one that is read from a directory at a position. -/
structure Shows (d : Disk) (i pos a : Nat) : Prop where
  live : Live d i
  dir : (d.nodes i).type = .DIRECTORY
  inside : pos < readable d i
  place : ∃ b, (d.nodes i).dataBlocks (pos / BlockSize) = some b ∧ a = d.blockAddr b + pos % BlockSize

theorem liveFrame {d out : Disk} {i : Nat} (live : Live d i) (dir : (d.nodes i).type = .DIRECTORY)
    (super : out.super = d.super) (used : (out.nodes i).blocksInUse = (d.nodes i).blocksInUse)
    (size : (out.nodes i).size = (d.nodes i).size) (slots : (out.nodes i).dataBlocks = (d.nodes i).dataBlocks)
    (bytes : ∀ pos a, Shows d i pos a → out.data a = d.data a) : liveEntries out i = liveEntries d i := by
  refine liveBytes (by unfold readable; rw [used, size]) (fun pos inside => ?_)
  simp only [byteAt, slots]
  cases slot : (d.nodes i).dataBlocks (pos / BlockSize) with
  | none => rfl
  | some b =>
    simp only [blockAddrCongr super]
    exact bytes pos _ ⟨live, dir, inside, b, slot, rfl⟩

/- No byte that a directory shows is reached. -/
theorem writeShown {d : Disk} {resource : Resource} {offset size : Nat} {buffer : Buffer} {out : Disk.Written}
    (valid : d.super.Valid) (file : (d.nodes resource.inode).type ≠ .DIRECTORY)
    (misses : ∀ i pos a, Shows d i pos a → ¬ Reached d (d.nodes resource.inode) (clearBlocks d) offset size a)
    (ok : d.write resource offset size buffer = some out) {i : Nat} (live : Live d i)
    (dir : (d.nodes i).type = .DIRECTORY) : liveEntries out.disk i = liveEntries d i := by
  obtain ⟨grew, -, frame⟩ := writeReach valid ok
  have other : i ≠ resource.inode := fun same => file (same ▸ dir)
  have node := grew.others i other
  refine liveFrame live dir grew.super (by rw [node]) (by rw [node]) (by rw [node]) (fun pos a shows => ?_)
  refine frame a ?_ (misses i pos a shows)
  obtain ⟨b, -, rfl⟩ := shows.place
  unfold Disk.blockAddr
  omega

section enters
variable {d : Disk}

/- A creation below the directory p: its header and its size tell the same number of entries, there is room for
one more beside the block that create takes, create fills no byte that a directory shows unless it is zero, and
of these bytes writeDir reaches those of the header of p alone. -/
structure Takes (d : Disk) (p : Nat) : Prop where
  counted : ((d.nodes p).size : Int) = sizeofDirHeader + sizeofDirEntry * entryCnt d p
  covered : (d.nodes p).size ≤ BlockSize * (d.nodes p).blocksInUse
  room : Suffices (d.nodes p) (clearBlocks d).tail (d.nodes p).size sizeofDirEntry
  zero : ∀ i pos b o, (clearBlocks d).head? = some b → o < BlockSize → Shows d i pos (d.blockAddr b + o) →
    d.data (d.blockAddr b + o) = 0#8
  entry : ∀ i pos a, Shows d i pos a →
    ¬ Reached d (d.nodes p) (clearBlocks d).tail (d.nodes p).size sizeofDirEntry a
  header : ∀ i pos a, Shows d i pos a → Reached d (d.nodes p) (clearBlocks d).tail 0 sizeofDirHeader a →
    i = p ∧ pos < sizeofDirHeader

/- The only directory, in one block that it does not fill. -/
theorem takesAlone {p b₀ : Nat} (one : (d.nodes p).blocksInUse = 1) (slot : (d.nodes p).dataBlocks 0 = some b₀)
    (counted : ((d.nodes p).size : Int) = sizeofDirHeader + sizeofDirEntry * entryCnt d p)
    (room : (d.nodes p).size + sizeofDirEntry ≤ BlockSize) (alone : ∀ i, (d.nodes i).type = .DIRECTORY → i = p)
    (zero : (clearBlocks d).head? = some b₀ → ∀ o, o < (d.nodes p).size → d.data (d.blockAddr b₀ + o) = 0#8) :
    Takes d p := by
  have shown : ∀ i pos a, Shows d i pos a → i = p ∧ pos < (d.nodes p).size ∧ a = d.blockAddr b₀ + pos := by
    intro i pos a shows
    have here := alone i shows.dir
    subst here
    have inside := shows.inside
    obtain ⟨b, found, addr⟩ := shows.place
    unfold readable at inside
    have place : pos / BlockSize = 0 ∧ pos % BlockSize = pos := by
      unfold BlockSize at *
      omega
    rw [place.1, slot] at found
    cases found
    exact ⟨rfl, by omega, by rw [addr, place.2]⟩
  have hit : ∀ offset length a, offset + length ≤ BlockSize →
      Reached d (d.nodes p) (clearBlocks d).tail offset length a →
      ∃ pos, offset ≤ pos ∧ pos < offset + length ∧ a = d.blockAddr b₀ + pos := by
    rintro offset length a short ⟨pos, b, low, high, -, through, addr⟩
    have place : pos / BlockSize = 0 ∧ pos % BlockSize = pos := by
      unfold BlockSize at *
      omega
    rw [slotThrough, one, place.1, if_neg (by omega), slot] at through
    cases through
    exact ⟨pos, low, high, by rw [addr, place.2]⟩
  refine ⟨counted, by rw [one]; omega, ⟨?_, ?_⟩, fun i pos b o head low shows => ?_, fun i pos a shows reached => ?_,
    fun i pos a shows reached => ?_⟩
  · unfold BlockSize sizeofDirEntry at *
    omega
  · rw [one]
    unfold MaxDataBlocks BlockSize at *
    omega
  · obtain ⟨-, inside, addr⟩ := shown i pos _ shows
    have same : b = b₀ ∧ o = pos := by
      unfold Disk.blockAddr BlockSize sizeofDirEntry at *
      omega
    rw [same.1] at head ⊢
    exact zero head o (by omega)
  · obtain ⟨-, inside, addr⟩ := shown i pos a shows
    obtain ⟨pos', low, -, addr'⟩ := hit _ _ a room reached
    omega
  · obtain ⟨here, -, addr⟩ := shown i pos a shows
    obtain ⟨pos', -, high, addr'⟩ := hit _ _ a (by unfold sizeofDirHeader BlockSize; omega) reached
    exact ⟨here, by omega⟩

theorem writeDirCounts (valid : d.super.Valid) (h : Slotted d) {vfsNode : VfsNode} {entry : DirEntry} {out : Disk}
    (room : Suffices (d.nodes vfsNode.resource.inode) (clearBlocks d) (d.nodes vfsNode.resource.inode).size sizeofDirEntry)
    (used : 0 < (d.nodes vfsNode.resource.inode).blocksInUse)
    (clear : ∀ k b, k < sizeofDirHeader → (d.nodes vfsNode.resource.inode).dataBlocks 0 = some b →
      ¬ Reached d (d.nodes vfsNode.resource.inode) (clearBlocks d) (d.nodes vfsNode.resource.inode).size sizeofDirEntry
        (d.blockAddr b + k))
    (ok : d.writeDir vfsNode [entry] = some out) : entryCnt out vfsNode.resource.inode =
      (BitVec.ofInt 32 (entryCnt d vfsNode.resource.inode + 1)).toInt := by
  obtain ⟨first, header, last, wrote, -, -, -, read, -, -, stored, done⟩ := writeDirStages valid h vfsNode entry room
  cases Option.some.inj (ok.symm.trans done)
  obtain ⟨grew, -, frame⟩ := writeReach valid wrote
  obtain ⟨b, slot⟩ := Option.ne_none_iff_exists'.mp ((h vfsNode.resource.inode).slots 0 used)
  have kept : ∀ k, k < sizeofDirHeader → byteAt first.disk vfsNode.resource.inode k = byteAt d vfsNode.resource.inode k := by
    intro k low
    have place : k / BlockSize = 0 ∧ k % BlockSize = k := by
      unfold sizeofDirHeader BlockSize at *
      omega
    have slot' : (first.disk.nodes vfsNode.resource.inode).dataBlocks 0 = some b := by
      rw [grew.slots, if_neg (by omega), slot]
    simp only [byteAt, place.1, place.2, slot, slot', blockAddrCongr grew.super]
    exact frame _ (by unfold Disk.blockAddr; omega) (clear k b low slot)
  have before : loadInt header 0 = entryCnt d vfsNode.resource.inode := by
    refine loadIntCongr (fun k _ past => ?_)
    have low : k < sizeofDirHeader := by
      unfold sizeofDirHeader
      omega
    rw [read k low, kept k low]
  rw [← before, ← loadStoreInt header 0]
  refine loadIntCongr (fun k _ past => ?_)
  have byte := (stored k (by unfold sizeofDirHeader; omega)).2
  rwa [Nat.zero_add] at byte

theorem createZeroes (valid : d.super.Valid) {deviceID : Int} {type : NodeType} (real : type ≠ .INVALID)
    {out : Disk × VfsNode} (ok : d.create deviceID type = some out) {b o : Nat} (head : (clearBlocks d).head? = some b)
    (low : o < BlockSize) : out.1.data (d.blockAddr b + o) = 0#8 := by
  obtain ⟨inode, free, -, -, -, used, -⟩ := createMakes valid ok
  obtain ⟨super, -, -, opened, -⟩ := createReach valid ok
  obtain ⟨out', vfsNode, made, created⟩ := createFile deviceID (freeLinked valid free) rfl free real
  cases Option.some.inj (ok.symm.trans made)
  obtain ⟨rest, shape⟩ := List.head?_eq_some_iff.mp head
  have one : (out'.nodes inode).blocksInUse = 1 := by
    rw [used, shape]
    simp
  have slot : (out'.nodes inode).dataBlocks 0 = some b := by
    rw [(opened inode).2.2, openedNode, if_pos free, shape]
    simp
  have zero := created.zero o (by rw [one]; omega)
  have place : o / BlockSize = 0 ∧ o % BlockSize = o := by
    unfold BlockSize at *
    omega
  simp only [byteAt, place.1, place.2, slot, blockAddrCongr super] at zero
  exact zero

theorem createSpares (valid : d.super.Valid) {deviceID : Int} {type : NodeType} (real : type ≠ .INVALID)
    {out : Disk × VfsNode} (ok : d.create deviceID type = some out) {a : Nat} (above : d.super.dataBitsetSize ≤ a)
    (zero : ∀ b o, (clearBlocks d).head? = some b → o < BlockSize → a = d.blockAddr b + o → d.data a = 0#8) :
    out.1.data a = d.data a := by
  by_cases filled : ∃ b o, (clearBlocks d).head? = some b ∧ o < BlockSize ∧ a = d.blockAddr b + o
  · obtain ⟨b, o, head, low, rfl⟩ := filled
    rw [zero b o head low rfl]
    exact createZeroes valid real ok head low
  · refine (createReach valid ok).2.2.2.2 a above (fun b o head low same => ?_)
    exact filled ⟨b, o, head, low, same⟩

def plainEntry (entry : DirEntry) : DirEntry := ⟨fun k => if k < 16 then entry.fileName k else 0#8, entry.inode⟩

theorem liveSnoc {d out : Disk} {i n : Nat} {entry : DirEntry} (count : shownCnt d i = n) (more : shownCnt out i = n + 1)
    (same : ∀ j, j < n → entryAt out i j = entryAt d i j) (last : entryAt out i n = entry) (real : entry.inode ≠ -1) :
    liveEntries out i = liveEntries d i ++ [entry] := by
  have numbers : ∀ j ∈ List.range n, entryInode out i j = entryInode d i j :=
    fun j mem => congrArg DirEntry.inode (same j (List.mem_range.mp mem))
  have newest : entryInode out i n ≠ -1 := by
    rw [show entryInode out i n = entry.inode from congrArg DirEntry.inode last]
    exact real
  rw [liveEntries, liveEntries, more, count, List.range_succ, List.filter_append, List.map_append,
    List.filter_congr (fun j mem => by rw [numbers j mem])]
  congr 1
  · exact List.map_congr_left (fun j mem => same j (List.mem_range.mp (List.mem_filter.mp mem).1))
  · rw [List.filter_cons_of_pos (by simpa using newest)]
    simp [last]

/- The place behind the last entry holds the new one, whose bytes were stored there. -/
theorem entryStored {out : Disk} {i n : Nat} {entry : DirEntry} (positive : 0 ≤ entry.inode) (small : entry.inode < 2 ^ 31)
    (stored : ∀ k, k < sizeofDirEntry →
      byteAt out i (sizeofDirHeader + n * sizeofDirEntry + k) = entryBytes [entry] k) : entryAt out i n = plainEntry entry := by
  have bytes : ∀ k, k < sizeofDirEntry → entryBytes [entry] k =
      if k < 16 then entry.fileName k else storeInt (fun _ => 0#8) 16 entry.inode k := by
    intro k low
    have place : k / sizeofDirEntry = 0 ∧ k % sizeofDirEntry = k := by
      unfold sizeofDirEntry at *
      omega
    simp only [entryBytes, place.1, place.2, List.getElem?_cons_zero]
  have number : entryInode out i n = entry.inode := by
    rw [← smallInt positive small, ← loadStoreInt (fun _ => 0#8) 16]
    unfold entryInode loadInt
    have byte : ∀ o, o < 4 → byteAt out i (inodeField 0 n + o) = storeInt (fun _ => 0#8) 16 entry.inode (16 + o) := by
      intro o low
      have here := stored (16 + o) (by unfold sizeofDirEntry; omega)
      rw [bytes (16 + o) (by unfold sizeofDirEntry; omega), if_neg (by omega), ← Nat.add_assoc] at here
      simpa only [inodeField, Nat.zero_add] using here
    have first := byte 0 (by omega)
    rw [Nat.add_zero, Nat.add_zero] at first
    rw [byte 3 (by omega), byte 2 (by omega), byte 1 (by omega), first]
  unfold entryAt plainEntry
  rw [number]
  congr 1
  funext k
  split
  · next low =>
    rw [stored k (by unfold sizeofDirEntry; omega), bytes k (by unfold sizeofDirEntry; omega), if_pos low]
  · rfl

/- The numbers of a directory p that takes an entry: n entries told by header and size, all of them in its blocks. -/
structure Rows (d : Disk) (p n : Nat) : Prop where
  count : entryCnt d p = n
  size : (d.nodes p).size = sizeofDirHeader + sizeofDirEntry * n
  whole : readable d p = (d.nodes p).size
  used : 0 < (d.nodes p).blocksInUse
  few : n ≤ 255

theorem Takes.rows {p : Nat} (takes : Takes d p) : ∃ n, Rows d p n := by
  have sized := takes.counted
  have covered := takes.covered
  obtain ⟨reach, limit⟩ := takes.room
  obtain ⟨n, count⟩ : ∃ n : Nat, entryCnt d p = n := Int.eq_ofNat_of_zero_le (by
    unfold sizeofDirHeader sizeofDirEntry at sized
    omega)
  rw [count] at sized
  have length : (d.nodes p).size = sizeofDirHeader + sizeofDirEntry * n := by
    exact_mod_cast sized
  refine ⟨n, count, length, Nat.min_eq_left covered, ?_, ?_⟩
  · unfold sizeofDirHeader BlockSize at *
    omega
  · unfold sizeofDirHeader sizeofDirEntry MaxDataBlocks BlockSize at *
    omega

section entering
variable (valid : d.super.Valid) (h : Slotted d) {p : Nat} (live : Live d p) (dir : (d.nodes p).type = .DIRECTORY)
  (takes : Takes d p) {deviceID : Int} {type : NodeType} (real : type ≠ .INVALID) {made : Disk × VfsNode}
  (created : d.create deviceID type = some made)
include valid created

theorem createOthers {i : Nat} (alive : Live d i) : made.1.nodes i = d.nodes i := by
  obtain ⟨inode, free, -, -, -, -, others, -⟩ := createMakes valid created
  refine others i ?_
  rintro rfl
  exact alive.2 (freeINodeSpec free).2

include takes real

theorem createStays {i pos a : Nat} (shows : Shows d i pos a) : made.1.data a = d.data a := by
  obtain ⟨b, -, addr⟩ := shows.place
  refine createSpares valid real created (by rw [addr]; unfold Disk.blockAddr; omega) (fun b o head low same => ?_)
  subst same
  exact takes.zero i pos b o head low shows

include h live dir

/- The first bytes of the header, in the directory's first block, before and after create. -/
theorem createHeader {n : Nat} (rows : Rows d p n) : ∃ b, (d.nodes p).dataBlocks 0 = some b ∧
    (∀ k, k < sizeofDirHeader → Shows d p k (d.blockAddr b + k)) ∧ entryCnt made.1 p = n := by
  have length := rows.size
  obtain ⟨b, slot⟩ := Option.ne_none_iff_exists'.mp ((h p).slots 0 rows.used)
  have place : ∀ k, k < sizeofDirHeader → k / BlockSize = 0 ∧ k % BlockSize = k := by
    intro k low
    unfold sizeofDirHeader BlockSize at *
    omega
  have atHeader : ∀ k, k < sizeofDirHeader → Shows d p k (d.blockAddr b + k) := by
    intro k low
    obtain ⟨quotient, remainder⟩ := place k low
    exact ⟨live, dir, by rw [rows.whole]; omega, b, by rw [quotient]; exact slot, by rw [remainder]⟩
  refine ⟨b, slot, atHeader, ?_⟩
  rw [← rows.count]
  refine loadIntCongr (fun k _ past => ?_)
  have low : k < sizeofDirHeader := by
    unfold sizeofDirHeader
    omega
  obtain ⟨quotient, remainder⟩ := place k low
  simp only [byteAt, createOthers valid created live, quotient, remainder, slot,
    blockAddrCongr (createReach valid created).1]
  exact createStays valid takes real created (atHeader k low)

variable {vfsNode : VfsNode} (number : vfsNode.resource.inode = p) {entry : DirEntry} {out : Disk}
  (ok : made.1.writeDir vfsNode [entry] = some out)
include number ok

omit h dir in
theorem enteringKeeps {i pos a : Nat} (shows : Shows d i pos a)
    (behind : ¬ (i = p ∧ pos < sizeofDirHeader)) : out.data a = d.data a := by
  obtain ⟨-, -, -, -, -, -, -, clear, super⟩ := createMakes valid created
  obtain ⟨-, frame⟩ := writeDirReach (super ▸ valid) ok
  rw [number, createOthers valid created live, clear, super] at frame
  have reached : ∀ offset length, Reached made.1 (d.nodes p) (clearBlocks d).tail offset length a ↔
      Reached d (d.nodes p) (clearBlocks d).tail offset length a :=
    fun offset length => reachedCongr super rfl rfl
  obtain ⟨b, -, addr⟩ := shows.place
  rw [frame a (by rw [addr]; unfold Disk.blockAddr; omega) (mt (reached _ _).mp (takes.entry i pos a shows))
    (fun hit => behind (takes.header i pos a shows ((reached _ _).mp hit)))]
  exact createStays valid takes real created shows

theorem enteringCounts {n : Nat} (rows : Rows d p n) : entryCnt out p = (n : Int) + 1 := by
  obtain ⟨b, slot, atHeader, count⟩ := createHeader valid h live dir takes real created rows
  obtain ⟨-, -, -, -, -, -, -, clear, super⟩ := createMakes valid created
  have same := createOthers valid created live
  have apart : ∀ pos a, Shows d p pos a → ¬ Reached made.1 (made.1.nodes p) (clearBlocks made.1)
      (made.1.nodes p).size sizeofDirEntry a := by
    intro pos a shown hit
    rw [same, clear, reachedCongr super rfl rfl] at hit
    exact takes.entry p pos a shown hit
  have grown := @writeDirCounts made.1 (super ▸ valid) (createSlotted h created) vfsNode entry out
    (by rw [number, same, clear]; exact takes.room) (by rw [number, same]; exact rows.used) (fun k b' low slot' => by
      rw [number] at slot' ⊢
      rw [same, slot] at slot'
      cases slot'
      rw [blockAddrCongr super]
      exact apart k _ (atHeader k low)) ok
  have few := rows.few
  rw [number, count, smallInt (by omega) (by omega)] at grown
  exact grown

theorem enteringStores {n : Nat} (rows : Rows d p n) : Entered out p (d.nodes p).size entry := by
  obtain ⟨b, slot, atHeader, -⟩ := createHeader valid h live dir takes real created rows
  obtain ⟨-, -, -, -, -, -, -, clear, super⟩ := createMakes valid created
  have same := createOthers valid created live
  have used := rows.used
  obtain ⟨reach, limit⟩ := takes.room
  obtain ⟨out', again, entered⟩ := writeDirEnters (super ▸ valid) (createSlotted h created) vfsNode entry
    (by rw [number, same, clear]; exact takes.room) (by
      rw [number]
      intro k low begins meet
      rw [same] at begins
      rw [same, clear, slotThrough, slotThrough, if_neg (show ¬ (_ ∧ (d.nodes p).blocksInUse ≤ 0) by omega), slot] at meet
      refine takes.entry p _ _ (atHeader _ begins) ⟨(d.nodes p).size + k, b, by omega, by omega, ?_, ?_, rfl⟩
      · unfold MaxDataBlocks BlockSize at *
        omega
      · rw [slotThrough]
        exact meet)
  cases Option.some.inj (ok.symm.trans again)
  rw [number, same] at entered
  exact entered

/- A creation below a directory adds its entry at the end, and the other directories stay. -/
theorem createShown (positive : 0 ≤ entry.inode) (small : entry.inode < 2 ^ 31) :
    liveEntries out p = liveEntries d p ++ [plainEntry entry] ∧
      ∀ i, Live d i → (d.nodes i).type = .DIRECTORY → i ≠ p → liveEntries out i = liveEntries d i := by
  obtain ⟨n, rows⟩ := takes.rows
  obtain ⟨-, -, -, -, -, -, -, -, super⟩ := createMakes valid created
  obtain ⟨grew, -⟩ := writeDirReach (super ▸ valid) ok
  rw [number] at grew
  refine ⟨?_, fun i alive isDir other => ?_⟩
  · have covered := takes.covered
    have length := rows.size
    have same := createOthers valid created live
    have grown := enteringCounts valid h live dir takes real created number ok rows
    have entered := enteringStores valid h live dir takes real created number ok rows
    have last := (entered.stored (sizeofDirEntry - 1) (by unfold sizeofDirEntry; omega)).1
    have size := entered.size
    refine liveSnoc (n := n) ?_ ?_ (fun j low => entryAtCongr (fun k inside => ?_)) ?_ (show entry.inode ≠ -1 by omega)
    · unfold shownCnt
      rw [rows.whole, rows.count, length]
      unfold sizeofDirEntry
      omega
    · unfold readable at last
      unfold shownCnt readable
      rw [grown]
      unfold sizeofDirHeader sizeofDirEntry at *
      omega
    · have past : sizeofDirHeader + j * sizeofDirEntry + k < (d.nodes p).size := by
        unfold sizeofDirEntry at *
        omega
      have below : (sizeofDirHeader + j * sizeofDirEntry + k) / BlockSize < (d.nodes p).blocksInUse := by
        unfold BlockSize at *
        omega
      obtain ⟨b, slot⟩ := Option.ne_none_iff_exists'.mp ((h p).slots _ below)
      have slot' : (out.nodes p).dataBlocks ((sizeofDirHeader + j * sizeofDirEntry + k) / BlockSize) = some b := by
        rw [grew.slots, same, if_neg (by omega), slot]
      simp only [byteAt, slot, slot', blockAddrCongr (grew.super.trans super)]
      refine enteringKeeps valid live takes real created number ok
        ⟨live, dir, by rw [rows.whole]; exact past, b, slot, rfl⟩ (by unfold sizeofDirHeader; omega)
    · refine entryStored positive small (fun k low => ?_)
      rw [← (entered.stored k low).2, length, Nat.mul_comm]
  · have same : out.nodes i = d.nodes i := (grew.others i other).trans (createOthers valid created alive)
    exact liveFrame alive isDir (grew.super.trans super) (by rw [same]) (by rw [same]) (by rw [same])
      (fun pos a shows => enteringKeeps valid live takes real created number ok shows (fun both => other both.1))

end entering

theorem rootBare {nodeCount blockCount : Nat} (made : createRoot nodeCount blockCount = some d) {i : Nat}
    (dir : (d.nodes i).type = .DIRECTORY) : (d.nodes i).size ≤ sizeofDirHeader := by
  obtain ⟨out, created, rfl⟩ := Option.map_eq_some_iff.mp made
  have valid : (zeroed (createSuper nodeCount blockCount)).mount.super.Valid := by
    show (createSuper nodeCount blockCount).Valid
    unfold Super.Valid createSuper
    dsimp only
    omega
  obtain ⟨inode, free, -, -, -, -, others, -⟩ := createMakes valid created
  obtain ⟨-, -, -, opened, -⟩ := createReach valid created
  by_cases own : i = inode
  · have size := (opened i).1
    rw [openedNode, own, if_pos free] at size
    rw [own, size]
    exact Nat.le_refl _
  · rw [others i own] at dir
    cases dir

theorem liveShort {i : Nat} (short : readable d i ≤ sizeofDirHeader) : liveEntries d i = [] := by
  unfold liveEntries shownCnt
  rw [Nat.sub_eq_zero_of_le short]
  simp

end enters

section drops
variable {d mid out : Disk} {p : Nat} {inode : Int}

/- The scan of removeDirEntry comes by every entry of the directory that names the inode, and where it comes by a
word that holds the inode, no byte of the word is shown but by one of these entries. -/
structure Clears (d : Disk) (p : Nat) (inode : Int) : Prop where
  met : ∀ j, j < shownCnt d p → entryInode d p j = inode →
    Swept d p inode (d.nodes p).blocksInUse (entryAddr d p j)
  spared : ∀ x, loadInt d.data x = inode → Swept d p inode (d.nodes p).blocksInUse x →
    ∀ i pos a, Shows d i pos a → x ≤ a → a < x + 4 →
      i = p ∧ ∃ j, j < shownCnt d p ∧ entryInode d p j = inode ∧ inodeField 0 j ≤ pos ∧ pos < inodeField 0 j + 4

theorem liveDrop {i n : Nat} (before : shownCnt d i = n) (after : shownCnt out i = n)
    (hit : ∀ j, j < n → entryInode d i j = inode → entryInode out i j = -1)
    (miss : ∀ j, j < n → entryInode d i j ≠ inode → entryAt out i j = entryAt d i j) :
    liveEntries out i = (liveEntries d i).filter (fun e => e.inode ≠ inode) := by
  have number : ∀ j, j < n → (entryInode out i j ≠ -1 ↔ entryInode d i j ≠ inode ∧ entryInode d i j ≠ -1) := by
    intro j low
    by_cases match' : entryInode d i j = inode
    · simp [hit j low match', match']
    · rw [show entryInode out i j = entryInode d i j from congrArg DirEntry.inode (miss j low match')]
      simp [match']
  rw [liveEntries, liveEntries, before, after, List.filter_map, List.filter_filter]
  have same : (List.range n).filter (fun j => entryInode out i j ≠ -1) =
      (List.range n).filter (fun j => ((fun e : DirEntry => decide (e.inode ≠ inode)) ∘ entryAt d i) j &&
        decide (entryInode d i j ≠ -1)) := by
    refine List.filter_congr (fun j mem => Bool.eq_iff_iff.mpr ?_)
    have both := number j (List.mem_range.mp mem)
    rw [Bool.and_eq_true]
    exact ⟨fun live => ⟨decide_eq_true (both.mp (of_decide_eq_true live)).1,
      decide_eq_true (both.mp (of_decide_eq_true live)).2⟩,
      fun live => decide_eq_true (both.mpr ⟨of_decide_eq_true live.1, of_decide_eq_true live.2⟩)⟩
  rw [same]
  refine List.map_congr_left (fun j mem => ?_)
  obtain ⟨low, kept⟩ := List.mem_filter.mp mem
  refine miss j (List.mem_range.mp low) ?_
  simp only [Function.comp_apply, entryAt, Bool.and_eq_true] at kept
  exact of_decide_eq_true kept.1

theorem storedRemoved (gone : Removed d mid) (real : inode ≠ -1) (x : Nat) :
    StoredBefore mid (mid.nodes p).dataBlocks inode (mid.nodes p).blocksInUse x ↔
      loadInt d.data x = inode ∧ Swept d p inode (d.nodes p).blocksInUse x := by
  have swept := @sweptIff mid p inode real (mid.nodes p).blocksInUse (Nat.le_refl _) x
  rw [gone.swept, gone.used] at swept
  have word : (∃ k', k' < (d.nodes p).blocksInUse ∧ VisitedAt mid (mid.nodes p).dataBlocks inode k' x) →
      loadInt mid.data x = loadInt d.data x := by
    rintro ⟨k, -, b, t, -, -, rfl⟩
    refine loadIntCongr (fun a low _ => gone.bytes a ?_)
    unfold inodeField Disk.blockAddr at low
    rw [gone.super] at low
    omega
  rw [StoredBefore, gone.used]
  constructor
  · rintro ⟨holds, seen⟩
    exact ⟨(word seen).symm.trans holds, swept.mp seen⟩
  · rintro ⟨holds, seen⟩
    have visited := swept.mpr seen
    exact ⟨(word visited).trans holds, visited⟩

/- A removal takes the entries that name the inode out of the directory, and the other directories stay. -/
theorem removeShown (placed : Placed d) (h : Slotted d) (live : Live d p) (dir : (d.nodes p).type = .DIRECTORY)
    {node up : VfsNode} {name : Nat → BitVec 8} (other : node.resource.inode ≠ p) (above : up.resource.inode = p)
    (clears : Clears d p node.resource.inode) (removed : d.remove node = some mid)
    (dropped : mid.removeDirEntry up ⟨name, node.resource.inode⟩ = some out) :
    liveEntries out p = (liveEntries d p).filter (fun e => e.inode ≠ (node.resource.inode : Int)) ∧
      ∀ i, Live d i → (d.nodes i).type = .DIRECTORY → i ≠ p → i ≠ node.resource.inode →
        liveEntries out i = liveEntries d i := by
  have gone := removeRemoved placed removed
  obtain ⟨super, others⟩ := removeOthers removed
  have real : ((node.resource.inode : Nat) : Int) ≠ -1 := by omega
  have shape := dropInBlocksData dropped
  rw [above] at shape
  have scan := @scanDataAt mid (mid.nodes p).dataBlocks node.resource.inode real (mid.nodes p).blocksInUse
  have stored := fun x => @storedRemoved d mid p node.resource.inode gone real x
  have nodes : ∀ i, i ≠ node.resource.inode → out.nodes i = d.nodes i := by
    intro i apart
    rw [shape]
    exact others i apart
  have super' : out.super = d.super := by
    rw [shape]
    exact super
  have data : out.data = scanData mid (mid.nodes p).dataBlocks node.resource.inode (mid.nodes p).blocksInUse := by
    rw [shape]
  rw [← data] at scan
  have kept : ∀ i pos a, Shows d i pos a → (i = p → ∀ j, j < shownCnt d p → entryInode d p j = node.resource.inode →
      ¬ (inodeField 0 j ≤ pos ∧ pos < inodeField 0 j + 4)) → out.data a = d.data a := by
    intro i pos a shows apart
    obtain ⟨b, -, addr⟩ := shows.place
    rw [scan.miss a (fun x seen => ?_)]
    · exact gone.bytes a (by rw [addr]; unfold Disk.blockAddr; omega)
    · by_contra inside
      obtain ⟨holds, swept⟩ := (stored x).mp seen
      obtain ⟨here, j, low, names, field⟩ := clears.spared x holds swept i pos a shows (by omega) (by omega)
      exact apart here j low names field
  refine ⟨?_, fun i alive isDir apart mine => ?_⟩
  · have same := nodes p (Ne.symm other)
    have bytes : ∀ pos, pos < readable d p → (∀ j, j < shownCnt d p → entryInode d p j = node.resource.inode →
        ¬ (inodeField 0 j ≤ pos ∧ pos < inodeField 0 j + 4)) → byteAt out p pos = byteAt d p pos := by
      intro pos inside apart
      simp only [byteAt, same]
      cases slot : (d.nodes p).dataBlocks (pos / BlockSize) with
      | none => rfl
      | some b =>
        simp only [blockAddrCongr super']
        exact kept p pos _ ⟨live, dir, inside, b, slot, rfl⟩ (fun _ => apart)
    have count : shownCnt out p = shownCnt d p := by
      have room : readable out p = readable d p := by
        unfold readable
        rw [same]
      unfold shownCnt
      rw [room]
      by_cases long : sizeofDirHeader ≤ readable d p
      · have header : entryCnt out p = entryCnt d p := by
          refine loadIntCongr (fun k _ past => bytes k (by unfold sizeofDirHeader at long; omega) (fun j _ _ => ?_))
          unfold inodeField
          omega
        rw [header]
      · rw [Nat.sub_eq_zero_of_le (by omega)]
        simp
    refine liveDrop rfl count (fun j low names => ?_) (fun j low names => entryAtCongr (fun k inside => ?_))
    · have fits := (shownInside low).2
      have below : inodeField 0 j / BlockSize < (d.nodes p).blocksInUse := by
        unfold readable at fits
        unfold inodeField sizeofDirHeader sizeofDirEntry BlockSize at *
        omega
      obtain ⟨b, slot⟩ := Option.ne_none_iff_exists'.mp ((h p).slots _ below)
      obtain ⟨addr, -, -⟩ := entryLoad slot
      obtain ⟨addr', -, load⟩ := @entryLoad out p j b (by rw [same]; exact slot)
      rw [load, addr', blockAddrCongr super', ← addr]
      exact scan.stored ((stored _).mpr ⟨by rw [← names]; exact (entryLoad slot).2.2.symm, clears.met j low names⟩)
    · have fits := (shownInside low).2
      refine bytes _ (by unfold sizeofDirEntry at *; omega) (fun j' low' names' field => names ?_)
      have equal : j' = j := by
        unfold inodeField sizeofDirEntry at *
        omega
      exact equal ▸ names'
  · have same := nodes i mine
    exact liveFrame alive isDir super' (by rw [same]) (by rw [same]) (by rw [same])
      (fun pos a shows => kept i pos a shows (fun here => absurd here apart))

end drops

/- Inodes in use lie within the table and carry their number. -/
structure Indexed (d : Disk) : Prop where
  placed : Placed d
  slotted : Slotted d
  numbered : ∀ i, (d.nodes i).type ≠ .INVALID → (d.nodes i).inode = i ∧ i < d.super.iNodeCnt

section indexed
variable {d out : Disk} (h : Indexed d)
include h

theorem Indexed.live {i : Nat} (dir : (d.nodes i).type = .DIRECTORY) : Live d i := by
  have real : (d.nodes i).type ≠ .INVALID := by
    rw [dir]
    decide
  exact ⟨(h.numbered i real).2, real⟩

theorem writeIndexed {resource : Resource} {offset size : Nat} {buffer : Buffer} {wrote : Disk.Written}
    (ok : d.write resource offset size buffer = some wrote) : Indexed wrote.disk := by
  refine ⟨(writeSlots ok).placed h.placed, writeSlotted h.slotted ok, fun i real => ?_⟩
  obtain ⟨number, type⟩ := writeKind ok i
  rw [type] at real
  rw [number, (writeSlots ok).super]
  exact h.numbered i real

theorem writeDirIndexed {vfsNode : VfsNode} {entries : List DirEntry} (ok : d.writeDir vfsNode entries = some out) :
    Indexed out := by
  refine ⟨(writeDirSlots ok).placed h.placed, writeDirSlotted h.slotted ok, fun i real => ?_⟩
  obtain ⟨number, type⟩ := writeDirKind ok i
  rw [type] at real
  rw [number, (writeDirSlots ok).super]
  exact h.numbered i real

theorem createIndexed {deviceID : Int} {type : NodeType} {made : Disk × VfsNode}
    (ok : d.create deviceID type = some made) : Indexed made.1 := by
  refine ⟨(createSlots ok).placed h.placed, createSlotted h.slotted ok, fun i real => ?_⟩
  obtain ⟨inode, free, -, -, -, -, others, -, super⟩ := createMakes h.placed.valid ok
  rw [super]
  by_cases own : i = inode
  · subst own
    refine ⟨?_, (freeINodeSpec free).1⟩
    have here := freshNode d i type i
    rw [if_pos rfl] at here
    simp only [Disk.create, free] at ok
    generalize d.setNode i { d.nodes i with blocksInUse := 0, inode := i, size := 0, type := type } = opened at ok here
    split at ok
    · cases ok
    · next wrote done =>
      cases Option.some.inj ok
      simp only [Disk.setNode, Function.update_self]
      rw [(writeKind done i).1, here]
  · rw [others i own] at real ⊢
    exact h.numbered i real

theorem removeIndexed {vfsNode : VfsNode} (ok : d.remove vfsNode = some out) : Indexed out := by
  obtain ⟨super, others⟩ := removeOthers ok
  refine ⟨(removeSlots ok).placed h.placed, removeSlotted h.slotted ok, fun i real => ?_⟩
  by_cases own : i = vfsNode.resource.inode
  · subst own
    obtain ⟨out', again, invalid, -⟩ := removeReturns h.slotted vfsNode
    cases Option.some.inj (ok.symm.trans again)
    exact absurd invalid real
  · rw [others i own] at real ⊢
    rw [super]
    exact h.numbered i real

theorem removeDirEntryIndexed {vfsNode : VfsNode} {entry : DirEntry} (ok : d.removeDirEntry vfsNode entry = some out) :
    Indexed out := by
  obtain ⟨super, nodes, -⟩ := dropInBlocksKeeps ok
  refine ⟨(removeDirEntrySlots ok).placed h.placed, removeDirEntrySlotted h.slotted ok, fun i real => ?_⟩
  rw [nodes] at real ⊢
  rw [super]
  exact h.numbered i real

end indexed

theorem rootIndexed {nodeCount blockCount : Nat} {d : Disk} (made : createRoot nodeCount blockCount = some d) :
    Indexed d ∧ Indexed d.mount := by
  obtain ⟨out, created, rfl⟩ := Option.map_eq_some_iff.mp made
  have valid : (createSuper nodeCount blockCount).Valid := by
    unfold Super.Valid createSuper
    dsimp only
    omega
  have start : Indexed (zeroed (createSuper nodeCount blockCount)).mount :=
    ⟨⟨valid, fun i k b slot => by cases slot⟩, fun i => ⟨Nat.zero_le _, fun k low => absurd low (Nat.not_lt_zero k)⟩,
      fun i real => absurd rfl real⟩
  have indexed := createIndexed start created
  exact ⟨indexed, ⟨indexed.placed.valid, indexed.placed.slots⟩, indexed.slotted, indexed.numbered⟩

end DimOS.Filesystem.RamDisk

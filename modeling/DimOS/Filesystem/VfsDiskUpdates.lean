import DimOS.Filesystem.VfsDisk

/-! What the calls that change the disk do to the agreement of cache and disk: a creation and
a mount add one node to a loaded directory, a removal takes one away with its entry. -/
namespace DimOS.Filesystem.Vfs.OnDisk
open Cpp.Containers
open RamDisk (NodeType VfsNode DirEntry)
open Open (Tree Planted plantedAdd)

section plant
variable {σ : Type} {F : FileSystem σ} {D : Directories F} {mounts mounts' : List Mount} {v v' : VFS σ}

def Loaded (D : Directories F) (v : VFS σ) (n : Nat) : Prop :=
  (v.nodes n).children = [] → D.entries v.disk (loc v n) = []

theorem Loaded.complete {n : Nat} (loaded : Loaded D v n) (h : Agree D mounts v) (linked : Linked v n) :
    Complete D mounts v n := by
  by_cases empty : (v.nodes n).children = []
  · refine ⟨?_, ?_⟩
    · rw [loaded empty]
      simp [own, empty]
    · intro c mem
      rw [empty] at mem
      cases mem
  · exact h.cache n linked empty

theorem plantChild {parent : Nat} {name : Chars} (plant : Planted v v' parent name) (h : Agree D mounts v)
    {p m : Nat} : m ∈ (v'.nodes p).children ↔ m ∈ (v.nodes p).children ∨ (p = parent ∧ m = v.count) := by
  rw [plant.children]
  by_cases isNew : p = v.count
  · subst isNew
    have unlinked : ¬ Linked v v.count := fun linked => Nat.lt_irrefl _ (h.inside linked)
    rw [if_pos rfl, h.dead _ unlinked]
    simp [Nat.ne_of_gt plant.inside]
  · rw [if_neg isNew]
    by_cases isParent : p = parent
    · subst isParent
      simp
    · simp [isParent]

theorem ownPlant {parent : Nat} {name : Chars} (plant : Planted v v' parent name) (h : Agree D mounts v)
    (views : ∀ m, m < v.count → view v' m = view v m) :
    own v' parent = own v parent ++ if (v'.nodes v.count).fileSystem = (v.nodes parent).fileSystem then
      [(name, (v'.nodes v.count).info.resource.inode)] else [] := by
  unfold own
  rw [viewFs (views parent plant.inside), plant.children, if_neg (Nat.ne_of_lt plant.inside), if_pos rfl,
    List.filter_append, List.map_append]
  have kids : ∀ c ∈ (v.nodes parent).children, view v' c = view v c :=
    fun c mem => views c (h.child mem).2.2
  congr 1
  · rw [List.filter_congr (fun c mem => by rw [viewFs (kids c mem)])]
    apply List.map_congr_left
    intro c mem
    have same := kids c (List.mem_filter.mp mem).1
    rw [viewName same, viewInode same]
  · have newName : (v'.nodes v.count).name = name := by
      rw [plant.names, if_pos rfl]
    by_cases same : (v'.nodes v.count).fileSystem = (v.nodes parent).fileSystem
    · simp [same, newName]
    · simp [same]

theorem plantAgree {parent : Nat} {name : Chars} (h : Agree D mounts v) (plant : Planted v v' parent name)
    (linked : Linked v parent) (views : ∀ m, m < v.count → view v' m = view v m)
    (disk : WellFormed D v'.disk) (good : D.Good v'.disk)
    (kindOld : ∀ m, Linked v m → D.kind v'.disk (loc v m) = D.kind v.disk (loc v m))
    (kindNew : D.kind v'.disk (loc v' v.count) = (v'.nodes v.count).info.type ∧
      (v'.nodes v.count).info.type ≠ .INVALID)
    (unseen : ∀ m, Linked v m → loc v m ≠ loc v' v.count)
    (entriesOld : ∀ m, Linked v m → m ≠ parent → D.entries v'.disk (loc v m) = D.entries v.disk (loc v m))
    (complete : Complete D mounts' v' parent)
    (topOld : ∀ m, Top v m → ∀ i, ∀ e ∈ D.entries v'.disk ((v.nodes m).fileSystem, i),
      e.2 ≠ (v.nodes m).info.resource.inode)
    (topNew : (v'.nodes v.count).fileSystem ≠ (v.nodes parent).fileSystem →
      ∀ i, ∀ e ∈ D.entries v'.disk ((v'.nodes v.count).fileSystem, i),
        e.2 ≠ (v'.nodes v.count).info.resource.inode)
    (more : mounts ⊆ mounts')
    (only : ∀ m ∈ mounts', m ∈ mounts ∨ (m = ⟨loc v parent, name, loc v' v.count⟩ ∧
      (v'.nodes v.count).fileSystem ≠ (v.nodes parent).fileSystem)) : Agree D mounts' v' := by
  have linkedIff : ∀ m, Linked v' m ↔ Linked v m ∨ m = v.count := by
    intro m
    unfold Linked
    simp only [plantChild plant h]
    constructor
    · rintro (isRoot | ⟨p, mem | ⟨-, new⟩⟩)
      · exact .inl (.inl isRoot)
      · exact .inl (.inr ⟨p, mem⟩)
      · exact .inr new
    · rintro ((isRoot | ⟨p, mem⟩) | new)
      · exact .inl isRoot
      · exact .inr ⟨p, .inl mem⟩
      · exact .inr ⟨parent, .inr ⟨rfl, new⟩⟩
  have selfView := views parent plant.inside
  refine ⟨plant.tree h.tree, disk, ?_, ?_, ?_, ?_, ?_, ?_, good⟩
  · intro m linkedM
    rcases (linkedIff m).mp linkedM with old | rfl
    · have same := views m (h.inside old)
      rw [viewLoc same, viewType same, kindOld m old]
      exact h.kind m old
    · exact kindNew
  · intro a b linkedA linkedB same
    rcases (linkedIff a).mp linkedA with oldA | rfl
    · rw [viewLoc (views a (h.inside oldA))] at same
      rcases (linkedIff b).mp linkedB with oldB | rfl
      · rw [viewLoc (views b (h.inside oldB))] at same
        exact h.inj a b oldA oldB same
      · exact absurd same (unseen a oldA)
    · rcases (linkedIff b).mp linkedB with oldB | rfl
      · rw [viewLoc (views b (h.inside oldB))] at same
        exact absurd same.symm (unseen b oldB)
      · rfl
  · intro m linkedM some
    by_cases isParent : m = parent
    · exact isParent ▸ complete
    · rw [plant.children, if_neg isParent] at some
      rcases (linkedIff m).mp linkedM with old | rfl
      · have inside := h.inside old
        have same : (v'.nodes m).children = (v.nodes m).children := by
          rw [plant.children, if_neg (Nat.ne_of_lt inside), if_neg isParent]
        rw [if_neg (Nat.ne_of_lt inside)] at some
        exact (h.cache m old some).congr same (views m inside) (fun c mem => views c (h.child mem).2.2)
          (entriesOld m old isParent) more
      · rw [if_pos rfl] at some
        exact absurd rfl some
  · intro m unlinked
    apply List.eq_nil_iff_forall_not_mem.mpr
    intro c mem
    apply unlinked
    apply (linkedIff m).mpr
    rcases (plantChild plant h).mp mem with old | ⟨rfl, -⟩
    · exact .inl (h.child old).1
    · exact .inl linked
  · intro m isTop
    rcases isTop with rfl | ⟨p, isChild, other⟩
    · have same := views root h.tree.apart.begun
      rw [viewFs same, viewInode same]
      exact topOld root (.inl rfl)
    · rcases (plantChild plant h).mp isChild with old | ⟨rfl, rfl⟩
      · obtain ⟨linkedP, -, inside⟩ := h.child old
        have same := views m inside
        rw [viewFs (views p (h.inside linkedP)), viewFs same] at other
        rw [viewFs same, viewInode same]
        exact topOld m (.inr ⟨p, old, other⟩)
      · rw [viewFs selfView] at other
        exact topNew (Ne.symm other)
  · intro m mem
    rcases only m mem with old | ⟨rfl, other⟩
    · obtain ⟨p, linkedP, place, c, isChild, other, named, target⟩ := h.mounts m old
      have sameP := views p (h.inside linkedP)
      have sameC := views c (h.child isChild).2.2
      refine ⟨p, (linkedIff p).mpr (.inl linkedP), by rw [viewLoc sameP]; exact place, c,
        (plantChild plant h).mpr (.inl isChild), by rw [viewFs sameC, viewFs sameP]; exact other,
        by rw [viewName sameC]; exact named, by rw [viewLoc sameC]; exact target⟩
    · refine ⟨parent, (linkedIff parent).mpr (.inl linked), viewLoc selfView, v.count,
        (plantChild plant h).mpr (.inr ⟨rfl, rfl⟩), by rw [viewFs selfView]; exact other, ?_, rfl⟩
      rw [plant.names, if_pos rfl]

theorem createWellFormed {s s' : σ} {fs i inode : Nat} {name : Chars} {type : NodeType} (h : WellFormed D s)
    (dir : D.kind s (fs, i) = .DIRECTORY) (invalid : D.kind s (fs, inode) = .INVALID) (valid : type ≠ .INVALID)
    (new : ∀ e ∈ D.entries s (fs, i), e.1 ≠ name)
    (kind : D.kind s' = Function.update (D.kind s) (fs, inode) type)
    (entries : D.entries s' = Function.update (Function.update (D.entries s) (fs, inode) []) (fs, i)
      (D.entries s (fs, i) ++ [(name, inode)])) : WellFormed D s' := by
  have differ : i ≠ inode := by
    rintro rfl
    rw [invalid] at dir
    cases dir
  have unaimed : ∀ j, ∀ e ∈ D.entries s (fs, j), e.2 ≠ inode := by
    intro j e mem same
    exact h.valid fs j e mem (same ▸ invalid)
  -- the entries of a directory are the old ones, and the new one in its place
  have cases' : ∀ fs' j e, e ∈ D.entries s' (fs', j) →
      e ∈ D.entries s (fs', j) ∨ (fs' = fs ∧ j = i ∧ e = (name, inode)) := by
    intro fs' j e mem
    rw [entries, Function.update_apply] at mem
    split at mem
    · next same =>
      cases same
      rcases List.mem_append.mp mem with old | new
      · exact .inl old
      · exact .inr ⟨rfl, rfl, List.mem_singleton.mp new⟩
    · rw [Function.update_apply] at mem
      split at mem
      · cases mem
      · exact .inl mem
  refine ⟨?_, ?_, ?_, ?_⟩
  · intro l other
    rw [kind, Function.update_apply] at other
    rw [entries, Function.update_apply, Function.update_apply]
    by_cases isNew : l = (fs, inode)
    · rw [if_neg (fun same => differ (congrArg Prod.snd (isNew.symm.trans same)).symm), if_pos isNew]
    · rw [if_neg isNew] at other
      rw [if_neg (show l ≠ (fs, i) from fun same => other (same ▸ dir)), if_neg isNew]
      exact h.files l other
  · intro l
    rw [entries, Function.update_apply, Function.update_apply]
    split
    · rw [List.map_append]
      apply List.nodup_append.mpr
      refine ⟨h.names _, by simp, ?_⟩
      intro a memA b memB same
      obtain ⟨e, mem, rfl⟩ := List.mem_map.mp memA
      have isName : b = name := by simpa using memB
      exact new e mem (same.trans isName)
    · split
      · exact List.nodup_nil
      · exact h.names l
  · intro fs' j e mem
    rw [kind, Function.update_apply]
    split
    · exact valid
    · next other =>
      rcases cases' fs' j e mem with old | ⟨rfl, -, rfl⟩
      · exact h.valid fs' j e old
      · exact absurd rfl other
  · intro fs' a b e memA e' memB same
    rcases cases' fs' a e memA with oldA | ⟨rfl, rfl, rfl⟩
    · rcases cases' fs' b e' memB with oldB | ⟨rfl, rfl, rfl⟩
      · exact h.once fs' a b e oldA e' oldB same
      · exact absurd same (unaimed a e oldA)
    · rcases cases' _ b e' memB with oldB | ⟨-, rfl, rfl⟩
      · exact absurd same.symm (unaimed b e' oldB)
      · exact ⟨rfl, rfl⟩

theorem createAgree {type : NodeType} {rest : Nat → BitVec 8} {parent id : Nat} {name : Chars}
    (h : Agree D mounts v) (linked : Linked v parent) (valid : type ≠ .INVALID)
    (dir : (v.nodes parent).info.type = .DIRECTORY) (loaded : Loaded D v parent)
    (takes : D.Takes v.disk (loc v parent)) (new : name ∉ childNames v parent)
    (exact' : ∀ inode, cString (fromStringName rest name inode).fileName = some name)
    (ok : createIn F type rest v parent name = .ok (v', id)) : Agree D mounts v' := by
  obtain ⟨-, disk, info, mid, disk', info', created, shape, wrote, rfl⟩ := createInCases ok
  have inside := h.inside linked
  have complete := loaded.complete h linked
  have plant : Planted v mid parent name := by
    rw [shape]
    exact plantedAdd _ _ _ inside new
  have node := VFS.addNodeNode { v with disk := disk } name (v.nodes parent).fileSystem info inside
  have oldNode : ∀ m, m < v.count → (mid.nodes m).name = (v.nodes m).name ∧
      (mid.nodes m).fileSystem = (v.nodes m).fileSystem ∧ (mid.nodes m).info = (v.nodes m).info := by
    intro m old
    rw [shape, node, if_neg (Nat.ne_of_lt old)]
    split
    · next same => rw [same]; exact ⟨rfl, rfl, rfl⟩
    · exact ⟨rfl, rfl, rfl⟩
  have newNode : (mid.nodes v.count).fileSystem = (v.nodes parent).fileSystem ∧ (mid.nodes v.count).info = info := by
    rw [shape, node, if_pos rfl]
    exact ⟨rfl, rfl⟩
  have midDisk : mid.disk = disk := by
    rw [shape]
    rfl
  rw [(oldNode parent inside).2.1, (oldNode parent inside).2.2, midDisk] at wrote
  have directory : D.kind v.disk (loc v parent) = .DIRECTORY := (h.kind parent linked).1.trans dir
  obtain ⟨good, invalid, infoType, type₂, inode₂, kindEnd, entriesEnd⟩ := D.creates _ _ _ _ _ _ _ name _ _ h.good
    directory takes valid created rfl (exact' _) wrote
  change D.entries disk' = Function.update (Function.update (D.entries v.disk) _ []) (loc v parent)
    (D.entries v.disk (loc v parent) ++ _) at entriesEnd
  have plant' := plant.withInfo disk' parent info'
  have views : ∀ m, m < v.count → view ({ mid with disk := disk' }.setInfo parent info') m = view v m := by
    intro m old
    obtain ⟨name', fs', info''⟩ := oldNode m old
    unfold view loc
    rw [VFS.setInfoName, VFS.setInfoFileSystem, VFS.setInfoInfo]
    dsimp only
    split
    · next same =>
      subst same
      rw [name', fs', type₂, inode₂]
    · rw [name', fs', info'']
  have newInfo : (({ mid with disk := disk' }.setInfo parent info').nodes v.count).info = info := by
    rw [VFS.setInfoInfo, if_neg (Nat.ne_of_gt inside)]
    exact newNode.2
  have newFs : (({ mid with disk := disk' }.setInfo parent info').nodes v.count).fileSystem =
      (v.nodes parent).fileSystem := by
    rw [VFS.setInfoFileSystem]
    exact newNode.1
  have newLoc : loc ({ mid with disk := disk' }.setInfo parent info') v.count =
      ((v.nodes parent).fileSystem, info.resource.inode) := by
    unfold loc
    rw [newFs, newInfo]
  have unseen : ∀ m, Linked v m → loc v m ≠ ((v.nodes parent).fileSystem, info.resource.inode) := by
    intro m linkedM same
    obtain ⟨kind, some⟩ := h.kind m linkedM
    rw [same, invalid] at kind
    exact some kind.symm
  refine plantAgree h plant' linked views ?_ good ?_ ?_ ?_ ?_ ?_ ?_ ?_ (List.Subset.refl _) (fun m mem => .inl mem)
  · refine createWellFormed h.disk (i := (v.nodes parent).info.resource.inode) ?_ invalid valid ?_ kindEnd entriesEnd
    · rw [show ((v.nodes parent).fileSystem, (v.nodes parent).info.resource.inode) = loc v parent from rfl,
        (h.kind parent linked).1]
      exact dir
    · intro e mem same
      obtain ⟨c, isChild, -, named, -⟩ := ownMem.mp (complete.own.mem_iff.mpr mem)
      exact new (List.mem_map.mpr ⟨c, isChild, named.trans same⟩)
  · intro m linkedM
    show D.kind disk' _ = _
    rw [kindEnd, Function.update_of_ne (unseen m linkedM)]
  · rw [newLoc, newInfo]
    show D.kind disk' _ = _ ∧ _
    rw [kindEnd, Function.update_self, infoType]
    exact ⟨rfl, valid⟩
  · rw [newLoc]
    exact unseen
  · intro m linkedM other
    show D.entries disk' _ = _
    rw [entriesEnd, Function.update_of_ne (fun same => other (h.inj m parent linkedM linked same)),
      Function.update_of_ne (unseen m linkedM)]
  · refine ⟨?_, ?_⟩
    · rw [ownPlant plant' h views, newFs, if_pos rfl, newInfo, viewLoc (views parent inside)]
      show (_ : List _).Perm (D.entries disk' _)
      rw [entriesEnd, Function.update_self]
      exact complete.own.append_right _
    · intro c mem other
      rcases (plantChild plant' h).mp mem with old | ⟨-, rfl⟩
      · have same := views c (h.child old).2.2
        rw [viewFs same, viewFs (views parent inside)] at other
        rw [viewLoc (views parent inside), viewName same, viewLoc same]
        exact complete.mounted c old other
      · exact absurd (newFs.trans (viewFs (views parent inside)).symm) other
  · intro m isTop i e mem
    change e ∈ D.entries disk' _ at mem
    have linkedM : Linked v m := by
      rcases isTop with isRoot | ⟨p, isChild, -⟩
      · exact .inl isRoot
      · exact .inr ⟨p, isChild⟩
    rw [entriesEnd, Function.update_apply] at mem
    split at mem
    · next same =>
      rcases List.mem_append.mp mem with old | new'
      · rw [← same] at old
        exact h.top m isTop i e old
      · cases List.mem_singleton.mp new'
        intro same'
        apply unseen m linkedM
        have sameFs : (v.nodes m).fileSystem = (v.nodes parent).fileSystem := congrArg Prod.fst same
        unfold loc
        rw [sameFs, ← same']
    · rw [Function.update_apply] at mem
      split at mem
      · cases mem
      · exact h.top m isTop i e mem
  · intro other
    exact absurd newFs other

theorem mountAgree {parent fs inode : Nat} {name : Chars} (h : Agree D mounts v) (linked : Linked v parent)
    (loaded : Loaded D v parent) (new : name ∉ childNames v parent)
    (unused : ∀ m, Linked v m → (v.nodes m).fileSystem ≠ fs) (valid : D.kind v.disk (fs, inode) ≠ .INVALID)
    (unaimed : ∀ i, ∀ e ∈ D.entries v.disk (fs, i), e.2 ≠ inode) :
    Agree D (mounts ++ [⟨loc v parent, name, (fs, inode)⟩])
      (v.addNode parent name fs (F.populateVFSNode v.disk fs inode)) := by
  have inside := h.inside linked
  have complete := loaded.complete h linked
  have plant := plantedAdd v.disk fs (F.populateVFSNode v.disk fs inode) inside new
  have node := VFS.addNodeNode v name fs (F.populateVFSNode v.disk fs inode) inside
  obtain ⟨type, number⟩ := D.populates v.disk fs inode h.good valid
  have views : ∀ m, m < v.count → view (v.addNode parent name fs (F.populateVFSNode v.disk fs inode)) m =
      view v m := by
    intro m old
    unfold view loc
    rw [node, if_neg (Nat.ne_of_lt old)]
    split
    · next same => rw [same]
    · rfl
  have newNode := node v.count
  rw [if_pos rfl] at newNode
  have newLoc : loc (v.addNode parent name fs (F.populateVFSNode v.disk fs inode)) v.count = (fs, inode) := by
    unfold loc
    rw [newNode, number]
  have newFs : ((v.addNode parent name fs (F.populateVFSNode v.disk fs inode)).nodes v.count).fileSystem = fs := by
    rw [newNode]
  refine plantAgree h plant linked views h.disk h.good (fun _ _ => rfl) ?_ ?_ (fun _ _ _ => rfl) ⟨?_, ?_⟩
    (fun m isTop => h.top m isTop) ?_ (List.subset_append_left _ _) ?_
  · rw [newLoc, newNode]
    exact ⟨type.symm, type ▸ valid⟩
  · intro m linkedM same
    rw [newLoc] at same
    exact unused m linkedM (congrArg Prod.fst same)
  · rw [ownPlant plant h views, newFs, if_neg (Ne.symm (unused parent linked)), List.append_nil,
      viewLoc (views parent inside)]
    exact complete.own
  · intro c mem other
    rcases (plantChild plant h).mp mem with old | ⟨-, rfl⟩
    · have same := views c (h.child old).2.2
      rw [viewFs same, viewFs (views parent inside)] at other
      rw [viewLoc (views parent inside), viewName same, viewLoc same]
      exact List.mem_append_left _ (complete.mounted c old other)
    · have newName : ((v.addNode parent name fs (F.populateVFSNode v.disk fs inode)).nodes v.count).name = name := by
        rw [newNode]
      rw [viewLoc (views parent inside), newLoc, newName]
      simp
  · intro _ i e mem
    rw [newNode, number]
    rw [newFs] at mem
    exact unaimed i e mem
  · intro m mem
    rcases List.mem_append.mp mem with old | last
    · exact .inl old
    · rw [newLoc, newFs]
      exact .inr ⟨List.mem_singleton.mp last, Ne.symm (unused parent linked)⟩

end plant

section remove
variable {σ : Type} {F : FileSystem σ} {D : Directories F} {mounts : List Mount} {v v' : VFS σ}

theorem removeWellFormed {s s' : σ} {fs i inode : Nat} {name : Chars} (h : WellFormed D s)
    (entry : (name, inode) ∈ D.entries s (fs, i))
    (kind : D.kind s' = Function.update (D.kind s) (fs, inode) .INVALID)
    (entries : D.entries s' = Function.update (Function.update (D.entries s) (fs, inode) []) (fs, i)
      ((Function.update (D.entries s) (fs, inode) [] (fs, i)).filter (fun x => (x.2 : Int) ≠ inode))) :
    WellFormed D s' := by
  have fewer : ∀ l e, e ∈ D.entries s' l → e ∈ D.entries s l ∧ (l = (fs, i) → e.2 ≠ inode) := by
    intro l e mem
    rw [entries, Function.update_apply] at mem
    split at mem
    · next same =>
      obtain ⟨mem, other⟩ := List.mem_filter.mp mem
      rw [Function.update_apply] at mem
      split at mem
      · cases mem
      · exact ⟨same ▸ mem, fun _ => by simpa using other⟩
    · next other =>
      rw [Function.update_apply] at mem
      split at mem
      · cases mem
      · exact ⟨mem, fun same => absurd same other⟩
  have sub : ∀ l, (D.entries s' l).Sublist (D.entries s l) := by
    intro l
    have inner : ∀ l, (Function.update (D.entries s) (fs, inode) [] l).Sublist (D.entries s l) := by
      intro l
      rw [Function.update_apply]
      split
      · exact List.nil_sublist _
      · exact List.Sublist.refl _
    rw [entries, Function.update_apply]
    split
    · next same =>
      subst same
      exact List.filter_sublist.trans (inner _)
    · exact inner l
  refine ⟨?_, ?_, ?_, ?_⟩
  · intro l other
    apply List.eq_nil_iff_forall_not_mem.mpr
    intro e mem
    obtain ⟨old, -⟩ := fewer l e mem
    rw [kind, Function.update_apply] at other
    split at other
    · next same =>
      rw [entries, Function.update_apply] at mem
      split at mem
      · next here =>
        have inner := (List.mem_filter.mp mem).1
        rw [← here, same, Function.update_self] at inner
        cases inner
      · rw [same, Function.update_self] at mem
        cases mem
    · rw [h.files l other] at old
      cases old
  · intro l
    exact (h.names l).sublist ((sub l).map _)
  · intro fs' j e mem
    obtain ⟨old, other⟩ := fewer (fs', j) e mem
    rw [kind, Function.update_apply]
    split
    · next same =>
      cases same
      have place := (h.once fs j i e old _ entry rfl).1
      exact absurd rfl (other (by rw [place]))
    · exact h.valid fs' j e old
  · intro fs' a b e memA e' memB same
    exact h.once fs' a b e (fewer _ e memA).1 e' (fewer _ e' memB).1 same

theorem ownErase {p n : Nat} (h : Agree D mounts v) (isChild : n ∈ (v.nodes p).children)
    (sameFs : (v.nodes p).fileSystem = (v.nodes n).fileSystem)
    (perm : (v'.nodes p).children.Perm ((v.nodes p).children.erase n)) (views : ∀ m, view v' m = view v m) :
    (own v' p).Perm ((own v p).filter (fun x => (x.2 : Int) ≠ (v.nodes n).info.resource.inode)) := by
  have renamed : own v' p = ((v'.nodes p).children.filter (fun c =>
      (v.nodes c).fileSystem == (v.nodes p).fileSystem)).map
        (fun c => ((v.nodes c).name, (v.nodes c).info.resource.inode)) := by
    unfold own
    simp only [viewFs (views _), viewName (views _), viewInode (views _)]
  rw [renamed, own, List.filter_map, List.filter_filter]
  refine ((perm.filter _).map _).trans (List.Perm.of_eq ?_)
  rw [(h.tree.apart.siblings p).of_map.erase_eq_filter, List.filter_filter]
  congr 1
  apply List.filter_congr
  intro c mem
  have unique : (v.nodes c).fileSystem = (v.nodes p).fileSystem →
      ((v.nodes c).info.resource.inode = (v.nodes n).info.resource.inode ↔ c = n) := by
    intro same
    refine ⟨fun inode => ?_, fun equal => by rw [equal]⟩
    refine h.inj c n (h.child mem).2.1 (h.child isChild).2.1 ?_
    unfold loc
    rw [inode, same, sameFs]
  by_cases same : (v.nodes c).fileSystem = (v.nodes p).fileSystem
  · by_cases equal : c = n
    · simp [equal]
    · have other : (v.nodes c).info.resource.inode ≠ (v.nodes n).info.resource.inode :=
        fun inode => equal ((unique same).mp inode)
      simp [same, equal, other]
  · simp [beq_eq_false_iff_ne.mpr same]

theorem removeAgree {n : Nat} (h : Agree D mounts v) (linked : Linked v n)
    (bare : (v.nodes n).children = []) (sameFs : ∀ p, n ∈ (v.nodes p).children →
      (v.nodes p).fileSystem = (v.nodes n).fileSystem)
    (gives : ∀ p, (v.nodes n).parent = some p → D.Gives v.disk (loc v p) (v.nodes n).info.resource.inode)
    (ok : removeNode F v n = .ok v') : Agree D mounts v' := by
  obtain ⟨p, disk, disk', up, removed, dropped, rfl⟩ := removeNodeCases ok
  have isChild : n ∈ (v.nodes p).children := by
    rcases linked with rfl | ⟨q, mem⟩
    · rw [h.tree.top] at up
      cases up
    · have := h.tree.parents q n mem
      rw [up] at this
      cases Option.some.inj this
      exact mem
  obtain ⟨linkedP, -, -⟩ := h.child isChild
  have differ : p ≠ n := by
    rintro rfl
    rw [bare] at isChild
    cases isChild
  have fsP := sameFs p isChild
  have apartLoc : loc v p ≠ loc v n := fun same => differ (h.inj p n linkedP linked same)
  have placeP : loc v p = ((v.nodes n).fileSystem, (v.nodes p).info.resource.inode) := by
    unfold loc
    rw [fsP]
  have entry : ((v.nodes n).name, (v.nodes n).info.resource.inode) ∈ D.entries v.disk (loc v p) :=
    (h.cache p linkedP (List.ne_nil_of_mem isChild)).own.mem_iff.mp
      (ownMem.mpr ⟨n, isChild, fsP.symm, rfl, rfl⟩)
  have directory : D.kind v.disk (loc v p) = .DIRECTORY := by
    by_contra other
    rw [h.disk.files _ other] at entry
    cases entry
  obtain ⟨good, kindEnd, entriesEnd⟩ := D.removes v.disk (v.nodes n).fileSystem (v.nodes n).info disk (v.nodes p).info
    _ disk' h.good (placeP ▸ directory) (fun same => apartLoc (placeP.trans (congrArg _ same)))
    (placeP ▸ gives p up) removed rfl (fsP ▸ dropped)
  rw [← placeP] at entriesEnd
  change D.kind disk' = Function.update (D.kind v.disk) (loc v n) .INVALID at kindEnd
  change D.entries disk' = Function.update (Function.update (D.entries v.disk) (loc v n) []) (loc v p)
    ((D.entries v.disk (loc v p)).filter _) at entriesEnd
  generalize childrenEq : fastErase (v.nodes p).children (find (v.nodes p).children n) = left
  have perm : left.Perm ((v.nodes p).children.erase n) := childrenEq ▸ fastEraseFind _ n
  have idsNodup : (v.nodes p).children.Nodup := (h.tree.apart.siblings p).of_map
  have leftMem : ∀ c, c ∈ left ↔ c ∈ (v.nodes p).children ∧ c ≠ n := by
    intro c
    rw [perm.mem_iff, idsNodup.mem_erase_iff, and_comm]
  have node := VFS.setChildrenNode { v with disk := disk' } p left
  have views : ∀ m, view ({ v with disk := disk' }.setChildren p left) m = view v m := by
    intro m
    unfold view loc
    rw [node]
    split
    · next same => rw [same]
    · rfl
  have child : ∀ q c, c ∈ (({ v with disk := disk' }.setChildren p left).nodes q).children ↔
      c ∈ (v.nodes q).children ∧ c ≠ n := by
    intro q c
    rw [node]
    split
    · next same =>
      subst same
      exact leftMem c
    · next other =>
      refine ⟨fun mem => ⟨mem, ?_⟩, fun both => both.1⟩
      rintro rfl
      have up' := h.tree.parents q c mem
      rw [up] at up'
      exact other (Option.some.inj up').symm
  have linkedIff : ∀ m, Linked ({ v with disk := disk' }.setChildren p left) m ↔ Linked v m ∧ m ≠ n := by
    intro m
    unfold Linked
    simp only [child]
    constructor
    · rintro (rfl | ⟨q, mem, other⟩)
      · refine ⟨.inl rfl, ?_⟩
        rintro rfl
        rw [h.tree.top] at up
        cases up
      · exact ⟨.inr ⟨q, mem⟩, other⟩
    · rintro ⟨isRoot | ⟨q, mem⟩, other⟩
      · exact .inl isRoot
      · exact .inr ⟨q, mem, other⟩
  refine ⟨⟨h.tree.apart.prune rfl (fun m => viewName (views m)) (fun m => ?_), ?_, ?_⟩, ?_, ?_, ?_, ?_, ?_, ?_, ?_, good⟩
  · rw [node]
    split
    · next same =>
      subst same
      exact perm.subperm.trans (List.erase_subperm n _)
    · exact List.Subperm.refl _
  · intro q c mem
    have old := h.tree.parents q c ((child q c).mp mem).1
    rw [node]
    split
    · next same => rw [← same]; exact old
    · exact old
  · rw [node]
    split
    · next same => rw [← same]; exact h.tree.top
    · exact h.tree.top
  · have here : _ ∈ D.entries v.disk ((v.nodes n).fileSystem, (v.nodes p).info.resource.inode) :=
      placeP ▸ entry
    refine removeWellFormed h.disk here kindEnd ?_
    show D.entries disk' = _
    rw [entriesEnd, ← placeP]
    show _ = Function.update (Function.update (D.entries v.disk) (loc v n) []) (loc v p)
      ((Function.update (D.entries v.disk) (loc v n) [] (loc v p)).filter _)
    rw [Function.update_of_ne apartLoc]
  · intro m linkedM
    obtain ⟨old, other⟩ := (linkedIff m).mp linkedM
    rw [viewLoc (views m), viewType (views m)]
    show D.kind disk' _ = _ ∧ _
    rw [kindEnd, Function.update_of_ne (fun same => other (h.inj m n old linked same))]
    exact h.kind m old
  · intro a b linkedA linkedB same
    rw [viewLoc (views a), viewLoc (views b)] at same
    exact h.inj a b ((linkedIff a).mp linkedA).1 ((linkedIff b).mp linkedB).1 same
  · intro m linkedM some
    obtain ⟨old, other⟩ := (linkedIff m).mp linkedM
    by_cases isP : m = p
    · subst isP
      have complete := h.cache m old (List.ne_nil_of_mem isChild)
      refine ⟨?_, ?_⟩
      · rw [viewLoc (views m)]
        show (own _ m).Perm (D.entries disk' _)
        rw [entriesEnd, Function.update_self]
        refine List.Perm.trans ?_ (complete.own.filter _)
        refine ownErase h isChild fsP ?_ views
        rw [node, if_pos rfl]
        exact perm
      · intro c mem other'
        obtain ⟨isChild', -⟩ := (child m c).mp mem
        rw [viewFs (views c), viewFs (views m)] at other'
        rw [viewLoc (views m), viewName (views c), viewLoc (views c)]
        exact complete.mounted c isChild' other'
    · have same : (({ v with disk := disk' }.setChildren p left).nodes m).children = (v.nodes m).children := by
        rw [node, if_neg isP]
      refine (h.cache m old (same ▸ some)).congr same (views m) (fun c _ => views c) ?_ (List.Subset.refl _)
      show D.entries disk' _ = _
      rw [entriesEnd, Function.update_of_ne (fun equal => isP (h.inj m p old linkedP equal)),
        Function.update_of_ne (fun equal => other (h.inj m n old linked equal))]
  · intro m unlinked
    apply List.eq_nil_iff_forall_not_mem.mpr
    intro c mem
    obtain ⟨isChild', -⟩ := (child m c).mp mem
    refine unlinked ((linkedIff m).mpr ⟨(h.child isChild').1, ?_⟩)
    rintro rfl
    rw [bare] at isChild'
    cases isChild'
  · intro m isTop i e mem
    have was : Top v m := by
      rcases isTop with isRoot | ⟨q, isChild', other⟩
      · exact .inl isRoot
      · rw [viewFs (views q), viewFs (views m)] at other
        exact .inr ⟨q, ((child q m).mp isChild').1, other⟩
    rw [viewFs (views m)] at mem
    rw [viewInode (views m)]
    change e ∈ D.entries disk' _ at mem
    apply h.top m was i e
    rw [entriesEnd, Function.update_apply] at mem
    split at mem
    · next same => rw [same]; exact (List.mem_filter.mp mem).1
    · rw [Function.update_apply] at mem
      split at mem
      · cases mem
      · exact mem
  · intro m mem
    obtain ⟨q, linkedQ, place, c, isChild', other, named, target⟩ := h.mounts m mem
    have notN : c ≠ n := by
      rintro rfl
      have up' := h.tree.parents q c isChild'
      rw [up] at up'
      cases Option.some.inj up'
      exact other fsP.symm
    have notQ : q ≠ n := by
      rintro rfl
      rw [bare] at isChild'
      cases isChild'
    exact ⟨q, (linkedIff q).mpr ⟨linkedQ, notQ⟩, by rw [viewLoc (views q)]; exact place, c,
      (child q c).mpr ⟨isChild', notN⟩, by rw [viewFs (views c), viewFs (views q)]; exact other,
      by rw [viewName (views c)]; exact named, by rw [viewLoc (views c)]; exact target⟩

theorem Agree.congr (h : Agree D mounts v) (count : v'.count = v.count) (views : ∀ m, view v' m = view v m)
    (children : ∀ m, (v'.nodes m).children = (v.nodes m).children)
    (parents : ∀ m, (v'.nodes m).parent = (v.nodes m).parent)
    (good : D.Good v'.disk) (kind : D.kind v'.disk = D.kind v.disk) (entries : D.entries v'.disk = D.entries v.disk) :
    Agree D mounts v' := by
  have linkedIff : ∀ m, Linked v' m ↔ Linked v m := fun m => by simp only [Linked, children]
  refine ⟨⟨h.tree.apart.prune count (fun m => viewName (views m)) (fun m => ?_), ?_, ?_⟩, ?_, ?_, ?_, ?_, ?_, ?_, ?_, good⟩
  · rw [children]
  · intro p c mem
    rw [children] at mem
    rw [parents]
    exact h.tree.parents p c mem
  · rw [parents]
    exact h.tree.top
  · refine ⟨?_, ?_, ?_, ?_⟩
    · rw [kind, entries]
      exact h.disk.files
    · rw [entries]
      exact h.disk.names
    · rw [kind, entries]
      exact h.disk.valid
    · rw [entries]
      exact h.disk.once
  · intro m linked
    rw [kind, viewLoc (views m), viewType (views m)]
    exact h.kind m ((linkedIff m).mp linked)
  · intro a b linkedA linkedB same
    rw [viewLoc (views a), viewLoc (views b)] at same
    exact h.inj a b ((linkedIff a).mp linkedA) ((linkedIff b).mp linkedB) same
  · intro m linked some
    refine (h.cache m ((linkedIff m).mp linked) (children m ▸ some)).congr (children m) (views m)
      (fun c _ => views c) (by rw [entries]) (List.Subset.refl _)
  · intro m unlinked
    rw [children]
    exact h.dead m (fun linked => unlinked ((linkedIff m).mpr linked))
  · intro m isTop
    rw [entries, viewFs (views m), viewInode (views m)]
    apply h.top m
    simpa only [Top, children, viewFs (views _)] using isTop
  · intro m mem
    obtain ⟨p, linked, place, c, isChild, other, named, target⟩ := h.mounts m mem
    exact ⟨p, (linkedIff p).mpr linked, by rw [viewLoc (views p)]; exact place, c, by rw [children]; exact isChild,
      by rw [viewFs (views c), viewFs (views p)]; exact other, by rw [viewName (views c)]; exact named,
      by rw [viewLoc (views c)]; exact target⟩

end remove

end DimOS.Filesystem.Vfs.OnDisk

import Mathlib
import DimOS.Process.ReadLoop
import DimOS.Shell.Execute

/-! The rounds of cat. Once its loop is over more rounds change nothing, and it does come to its end where
every read of the loop brings something. -/
namespace DimOS.Shell
open Cpp.Containers
open Filesystem.Vfs
open Filesystem.Vfs.Files (AllSized Shows mapOk writeServes)
open Filesystem.Vfs.Open (inodeOf)
open Filesystem.RamDisk (Disk Buffer Sized BlockSize MaxDataBlocks NoGap)
open Process (showsBrings)

variable {fbSize : Nat} {s s' : State}

/- Then the rounds that were given do not show in what cat leaves. -/
theorem catLoopMore {node rounds readOffset : Nat} {buffer : Buffer} (more : Nat)
    (done : catLoopOver fbSize node rounds readOffset buffer s = true) :
    catLoop fbSize node (rounds + more) readOffset buffer s = catLoop fbSize node rounds readOffset buffer s := by
  induction rounds generalizing readOffset buffer s with
  | zero => cases done
  | succ rounds ih =>
    rw [Nat.succ_add_eq_add_succ, Nat.add_succ, catLoop, catLoop]
    rw [catLoopOver] at done
    split
    · next goes =>
      rw [if_pos goes] at done
      cases got : nodeRead fbSize s.vfs node readOffset chunkSize buffer with
      | error crash => rfl
      | ok out =>
        rw [got] at done
        simp only [bind, Except.bind]
        cases echoed : echoBytes fbSize s out.2 out.1 with
        | error crash => rfl
        | ok mid =>
          dsimp only at done
          rw [echoed] at done
          exact ih done
    · rfl

theorem catMore {rounds : Nat} {args : List Chars} (more : Nat) (done : catOver fbSize rounds s args = true) :
    cat fbSize (rounds + more) s args = cat fbSize rounds s args := by
  unfold cat
  split
  · rfl
  · next usage =>
    have two : args.length = 2 := by omega
    have given : argument args 1 = .ok ((args[1]?).getD []) := by
      rw [argument, List.getElem?_eq_getElem (by omega)]
      rfl
    simp only [given, bind, Except.bind]
    unfold catOver at done
    cases opened : openNode (kernelFs fbSize) s.vfs (formPath s.currDir ((args[1]?).getD [])) with
    | error fault => rfl
    | ok out =>
      obtain ⟨v, node⟩ := out
      cases node with
      | none => rfl
      | some node =>
        rw [opened] at done
        simp only [two, ne_eq, not_true_eq_false, decide_false, Bool.false_or] at done
        exact catLoopMore more done

theorem runLineMore {line : Chars} {around : Surroundings} (more : Nat)
    (done : (split line blank).headD [] = text "cat" →
      catOver fbSize around.rounds s (split line blank) = true) :
    runLine fbSize s line { around with rounds := around.rounds + more } = runLine fbSize s line around := by
  rw [runLineEq, runLineEq]
  unfold execute
  by_cases own : (split line blank).headD [] = text "cat"
  · rw [catMore more (done own)]
  · simp only [if_neg own]

/- As long as it lasts, cat finds its node, stdout and all inodes covered by blocks. -/
structure Covered (fbSize : Nat) (s : State) (node : Nat) : Prop where
  sturdy : Sturdy s
  sized : AllSized s.vfs.disk.1
  own : Shows fbSize s.vfs.disk.1 (s.vfs.nodes s.stdout.fileNode).fileSystem (s.vfs.nodes s.stdout.fileNode).info
  shown : Shows fbSize s.vfs.disk.1 (s.vfs.nodes node).fileSystem (s.vfs.nodes node).info

theorem Covered.echo {node size : Nat} {buffer : Buffer} (h : Covered fbSize s node)
    (ok : echoBytes fbSize s size buffer = .ok s') : Covered fbSize s' node := by
  obtain ⟨last, echoed, sturdy, -⟩ := @echoBytesGoes fbSize s h.sturdy size buffer
  cases echoed.symm.trans ok
  obtain ⟨⟨v, bytes⟩, wrote, rfl⟩ := mapOk ok
  simp only [nodeWrite] at wrote
  split at wrote
  · cases wrote
  next disk resource bytes' write =>
    cases wrote
    have onDisk := h.sturdy.onDisk
    have own := h.own
    unfold Shows at own
    rw [if_pos onDisk] at own
    have noGap : NoGap s.vfs.disk.1 (inodeOf s.vfs s.stdout.fileNode) s.stdout.writeOffset size :=
      .inl (h.sturdy.written.trans (h.sized _ own.1).covered)
    obtain ⟨serves, after⟩ := writeServes h.sized h.own (fun _ => noGap) write
    refine ⟨sturdy, serves.sized, ?_, ?_⟩
    · rw [VFS.setInfoDisk, VFS.setInfoFileSystem, VFS.setInfoInfo, if_pos rfl]
      exact after
    · rw [VFS.setInfoDisk, VFS.setInfoFileSystem, VFS.setInfoInfo]
      split
      · next here =>
        rw [here]
        exact after
      · exact serves.shows _ _ h.shown

theorem Covered.most {node : Nat} (h : Covered fbSize s node) :
    (s.vfs.nodes node).info.resource.size ≤ max (MaxDataBlocks * BlockSize) fbSize := by
  have shown := h.shown
  unfold Shows at shown
  split at shown
  · have sized := h.sized _ shown.1
    have covered := sized.covered
    have cap := sized.cap
    unfold MaxDataBlocks BlockSize at *
    omega
  · omega

theorem Covered.ends {node readOffset : Nat} (buffer : Buffer) (small : fbSize + chunkSize ≤ 2 ^ 31) (h : Covered fbSize s node)
    (low : readOffset < 2 ^ 31) : ∃ rounds, catLoopOver fbSize node rounds readOffset buffer s = true := by
  induction left : max (MaxDataBlocks * BlockSize) fbSize - readOffset using Nat.strong_induction_on
    generalizing readOffset buffer s with
  | _ left ih =>
    by_cases goes : canRead (s.vfs.nodes node).info.resource.size readOffset = true
    · have most := h.most
      have range := Process.canReadIff.mp (show (⟨readOffset, 0, (s.vfs.nodes node).info⟩ :
        Process.FileDescriptor).canReadXbytes 1 = true from goes)
      dsimp only at range
      have wide : fbSize < 2 ^ 64 := by omega
      obtain ⟨out, got, brings, less⟩ := showsBrings h.sized h.shown wide (show 1 ≤ chunkSize by decide) (by decide)
        readOffset 0 low goes buffer
      have read : nodeRead fbSize s.vfs node readOffset chunkSize buffer = .ok out := by rw [nodeRead, got]
      obtain ⟨mid, echoed, -⟩ := @echoBytesGoes fbSize s h.sturdy out.2 out.1
      unfold MaxDataBlocks BlockSize chunkSize at *
      have next : (readOffset + out.2) % 2 ^ 32 = readOffset + out.2 := Nat.mod_eq_of_lt (by omega)
      obtain ⟨rounds, done⟩ := @ih (max (10 * 512) fbSize - (readOffset + out.2)) (by omega) mid (readOffset + out.2)
        out.1 (h.echo echoed) (by omega) rfl
      refine ⟨rounds + 1, ?_⟩
      rw [catLoopOver, if_pos goes, chunkSize, read]
      dsimp only
      rw [echoed, next]
      exact done
    · exact ⟨1, by rw [catLoopOver, if_neg goes]⟩

end DimOS.Shell

import Mathlib
import DimOS.Devices.Keyboard
import DimOS.Graphics.FillRect
import DimOS.Shell.Commands

/-! The snake command. Its FrameBuffer writes every row through the node of /dev/fb; the drawing is over
any such writer, and with the memory of the device as the writer it is clscr and fillRect. -/
namespace DimOS.Shell
open Devices (KeyCode KEY_W KEY_A KEY_S KEY_D KEY_ESCAPE)
open Filesystem.Vfs
open Filesystem.RamDisk (Disk Buffer)
open Graphics (Color Vec2 fitsInt grid getOffset rowBytes fbWrite)

section drawing
variable {σ : Type} (write : Nat → Nat → Buffer → σ → Option σ)

def drawRow (count : Int) (col : Color) (offset : Nat) (s : σ) : Option σ :=
  if 0 ≤ count then write offset (count.toNat * 4 % 2 ^ 32) (rowBytes col) s else none

def clearLoop (width height : Int) (col : Color) : Nat → Int → σ → Option σ
  | 0, _, _ => none
  | left + 1, i, s =>
    if i < height then
      if fitsInt (width * grid) then
        match getOffset width ⟨0, i⟩ with
        | none => none
        | some offset =>
          match drawRow write (width * grid) col offset s with
          | none => none
          | some s => if fitsInt (i + grid) then clearLoop width height col left (i + grid) s else none
      else none
    else some s

def drawRows (width : Int) (x1 x2 : Int) (col : Color) : Nat → Int → σ → Option σ
  | 0, _, s => some s
  | left + 1, i, s =>
    if fitsInt (x2 - x1) && fitsInt (x2 - x1 + 1) then
      match getOffset width ⟨x1, i⟩ with
      | none => none
      | some offset =>
        match drawRow write (x2 - x1 + 1) col offset s with
        | none => none
        | some s => if fitsInt (i + 1) then drawRows width x1 x2 col left (i + 1) s else none
    else none

theorem clearLoopDevice (width height : Int) (fbSize : Nat) (col : Color) (left : Nat) (i : Int)
    (s : Devices.Framebuffer.Copied) : clearLoop (fbWrite fbSize) width height col left i s =
      Graphics.clscrLoop width height fbSize col left i s := by
  induction left generalizing i s with
  | zero => rfl
  | succ left ih =>
    have row : drawRow (fbWrite fbSize) (width * grid) col = Graphics.writeRow fbSize (width * grid) col := rfl
    rw [clearLoop, Graphics.clscrLoop, row]
    cases getOffset width ⟨0, i⟩ with
    | none => rfl
    | some offset =>
      dsimp only
      cases Graphics.writeRow fbSize (width * grid) col offset s with
      | none => rfl
      | some s => simp only [ih]

theorem drawRowsDevice (width x1 x2 : Int) (fbSize : Nat) (col : Color) (left : Nat) (i : Int)
    (s : Devices.Framebuffer.Copied) : drawRows (fbWrite fbSize) width x1 x2 col left i s =
      Graphics.fillRows width fbSize x1 x2 col left i s := by
  induction left generalizing i s with
  | zero => rfl
  | succ left ih =>
    have row : drawRow (fbWrite fbSize) (x2 - x1 + 1) col = Graphics.writeRow fbSize (x2 - x1 + 1) col := rfl
    rw [drawRows, Graphics.fillRows, row]
    cases getOffset width ⟨x1, i⟩ with
    | none => rfl
    | some offset =>
      dsimp only
      cases Graphics.writeRow fbSize (x2 - x1 + 1) col offset s with
      | none => rfl
      | some s => simp only [ih]

/- `gfx::FrameBuffer graphics(1280, 800)` -/
def screenWidth : Int := 1280
def screenHeight : Int := 800

def clear (col : Color) (s : σ) : Option σ :=
  clearLoop write screenWidth screenHeight col (screenHeight.toNat + 1) 0 s

def gridSize : Int := 40

def drawCell (pos : Vec2) (col : Color) (s : σ) : Option σ :=
  if fitsInt (pos.y + gridSize) && fitsInt (pos.y + gridSize - 1) && fitsInt (pos.x + gridSize) &&
      fitsInt (pos.x + gridSize - 1) then
    let y2 := min (pos.y + gridSize - 1) (screenHeight - 1)
    let x2 := min (pos.x + gridSize - 1) (screenWidth - 1)
    drawRows write screenWidth pos.x x2 col (y2 - pos.y + 1).toNat pos.y s
  else none

theorem clearDevice (fbSize : Nat) (col : Color) (fb : Buffer) :
    clear (fbWrite fbSize) col ⟨fb, []⟩ = Graphics.clscr screenWidth screenHeight fbSize col fb :=
  clearLoopDevice screenWidth screenHeight fbSize col _ 0 _

theorem drawCellDevice (fbSize : Nat) (pos : Vec2) (col : Color) (fb : Buffer) :
    drawCell (fbWrite fbSize) pos col ⟨fb, []⟩ =
      Graphics.fillRect screenWidth screenHeight fbSize pos ⟨gridSize, gridSize⟩ col fb := by
  have width : fitsInt (screenWidth - 1) = true := by decide
  have height : fitsInt (screenHeight - 1) = true := by decide
  simp only [drawCell, Graphics.fillRect, drawRowsDevice, width, height, Bool.and_true]

def drawCells (col : Color) : List Vec2 → σ → Option σ
  | [], s => some s
  | pos :: rest, s => (drawCell write pos col s).bind (drawCells col rest)

structure Game where
  body : List Vec2
  apple : Vec2
  vel : Vec2

def render (game : Game) (s : σ) : Option σ :=
  (drawCell write game.apple ⟨0, 0, 255, 255⟩ s).bind fun s =>
    match game.body with
    | [] => none
    | head :: tail => (drawCell write head ⟨0, 165, 255, 0⟩ s).bind (drawCells write ⟨0, 255, 0, 255⟩ tail)

end drawing

def steer (vel : Vec2) (input : KeyCode) : Vec2 :=
  if input = KEY_W then ⟨0, -gridSize⟩
  else if input = KEY_S then ⟨0, gridSize⟩
  else if input = KEY_A then ⟨-gridSize, 0⟩
  else if input = KEY_D then ⟨gridSize, 0⟩
  else vel

def moveApple (size : Nat) (apple : Vec2) : Vec2 :=
  ⟨((apple.x + size * 500) % 2 ^ 64 % 1280).tdiv gridSize * gridSize,
   ((apple.y + size * 500) % 2 ^ 64 % 800).tdiv gridSize * gridSize⟩

/- The Vector is reversed, the new head pushed, and the Vector reversed again. -/
def tick (game : Game) (input : KeyCode) : Option Game :=
  let vel := steer game.vel input
  match game.body with
  | [] => none
  | old :: _ =>
    if fitsInt (old.x + vel.x) && fitsInt (old.y + vel.y) then
      let head : Vec2 := ⟨old.x + vel.x, old.y + vel.y⟩
      let body := head :: game.body
      if head.x = game.apple.x ∧ head.y = game.apple.y then
        some ⟨body, moveApple body.length game.apple, vel⟩
      else some ⟨body.dropLast, game.apple, vel⟩
    else none

/- One round of the game loop, in which getchNoWait returns `input`. -/
def playRound {σ : Type} (write : Nat → Nat → Buffer → σ → Option σ) (input : KeyCode) (game : Game) (s : σ) :
    Option (Game × σ) :=
  (clear write ⟨255, 255, 255, 255⟩ s).bind fun s =>
    (tick game input).bind fun game => (render write game s).map fun s => (game, s)

section
variable (fbSize : Nat)

/- `fbFile->write`. -/
def fbFileWrite (node offset size : Nat) (buffer : Buffer) (v : VFS (Disk × Buffer)) : Option (VFS (Disk × Buffer)) :=
  (nodeWrite fbSize v node offset size buffer).toOption.map Prod.fst

def snakeLoop (node : Nat) : List KeyCode → Game → VFS (Disk × Buffer) → Option (VFS (Disk × Buffer))
  | [], _, v => some v
  | input :: keys, game, v =>
    match playRound (fbFileWrite fbSize node) input game v with
    | none => none
    | some (game, v) =>
      if input = KEY_ESCAPE then clear (fbFileWrite fbSize node) ⟨0, 0, 0, 255⟩ v else snakeLoop node keys game v

def startGame : Game := ⟨[⟨80, 80⟩], ⟨200, 200⟩, ⟨0, 0⟩⟩

def snake (keys : List KeyCode) (s : State) : Except Crash State := do
  let (v, fbFile) ← lookup (openNode (kernelFs fbSize) s.vfs (text "/dev/fb"))
  match fbFile with
  | none => .error .nullNode
  | some node =>
    match snakeLoop fbSize node keys startGame v with
    | none => .error .drawing
    | some v => .ok { s with vfs := v }

end

section screen
variable {σ τ : Type} {write : Nat → Nat → Buffer → σ → Option σ} {write' : Nat → Nat → Buffer → τ → Option τ}
  {f : σ → τ}

/- What the one writer does to a state, the other does to its image. -/
def Follows (write : Nat → Nat → Buffer → σ → Option σ) (write' : Nat → Nat → Buffer → τ → Option τ) (f : σ → τ) :
    Prop :=
  ∀ offset size buffer s, offset < 2 ^ 32 → size < 2 ^ 32 →
    write' offset size buffer (f s) = (write offset size buffer s).map f

theorem Follows.row (h : Follows write write' f) {offset : Nat} (low : offset < 2 ^ 32) (count : Int) (col : Color)
    (s : σ) : drawRow write' count col offset (f s) = (drawRow write count col offset s).map f := by
  unfold drawRow
  split
  · exact h _ _ _ _ low (Nat.mod_lt _ (by decide))
  · rfl

theorem getOffsetLow {width : Int} {pos : Vec2} {offset : Nat} (found : getOffset width pos = some offset) :
    offset < 2 ^ 32 := by
  unfold getOffset at found
  split at found
  · cases found
    omega
  · cases found

theorem Follows.cleared (h : Follows write write' f) (width height : Int) (col : Color) (left : Nat) (i : Int)
    (s : σ) : clearLoop write' width height col left i (f s) = (clearLoop write width height col left i s).map f := by
  induction left generalizing i s with
  | zero => rfl
  | succ left ih =>
    rw [clearLoop, clearLoop]
    split
    · split
      · cases found : getOffset width ⟨0, i⟩ with
        | none => rfl
        | some offset =>
          dsimp only
          rw [h.row (getOffsetLow found)]
          cases drawRow write (width * grid) col offset s with
          | none => rfl
          | some s =>
            dsimp only [Option.map_some]
            split
            · exact ih _ s
            · rfl
      · rfl
    · rfl

theorem Follows.rows (h : Follows write write' f) (width x1 x2 : Int) (col : Color) (left : Nat) (i : Int) (s : σ) :
    drawRows write' width x1 x2 col left i (f s) = (drawRows write width x1 x2 col left i s).map f := by
  induction left generalizing i s with
  | zero => rfl
  | succ left ih =>
    rw [drawRows, drawRows]
    split
    · cases found : getOffset width ⟨x1, i⟩ with
      | none => rfl
      | some offset =>
        dsimp only
        rw [h.row (getOffsetLow found)]
        cases drawRow write (x2 - x1 + 1) col offset s with
        | none => rfl
        | some s =>
          dsimp only [Option.map_some]
          split
          · exact ih _ s
          · rfl
    · rfl

theorem fbFileFollows {fbSize node : Nat} {v : VFS (Disk × Buffer)} (device : (v.nodes node).fileSystem ≠ 0) :
    Follows (fbWrite fbSize) (fbFileWrite fbSize node) fun s => { v with disk := (v.disk.1, s.target) } := by
  intro offset size buffer s low few
  unfold fbFileWrite nodeWrite fbWrite
  simp only [kernelFs, withRamDisk, device, if_false, Devices.Framebuffer.deviceWrites _ _ _ _ _ low few]
  cases Devices.Framebuffer.write (2 ^ 32) fbSize s.target offset size buffer with
  | none => rfl
  | some out => simp [Except.toOption, VFS.setInfo, VFS.setNode]

/-- On the node of the device the game clears the screen as gfx::FrameBuffer does, -/
theorem clearScreen {fbSize node : Nat} {v : VFS (Disk × Buffer)} (device : (v.nodes node).fileSystem ≠ 0)
    (col : Color) : clear (fbFileWrite fbSize node) col v =
      (Graphics.clscr screenWidth screenHeight fbSize col v.disk.2).map fun s =>
        { v with disk := (v.disk.1, s.target) } := by
  rw [← clearDevice]
  exact (fbFileFollows device).cleared screenWidth screenHeight col _ 0 ⟨v.disk.2, []⟩

/-- and draws its cells with fillRect. -/
theorem drawCellScreen {fbSize node : Nat} {v : VFS (Disk × Buffer)} (device : (v.nodes node).fileSystem ≠ 0)
    (pos : Vec2) (col : Color) : drawCell (fbFileWrite fbSize node) pos col v =
      (Graphics.fillRect screenWidth screenHeight fbSize pos ⟨gridSize, gridSize⟩ col v.disk.2).map fun s =>
        { v with disk := (v.disk.1, s.target) } := by
  rw [← drawCellDevice]
  unfold drawCell
  split
  · exact (fbFileFollows device).rows screenWidth pos.x _ col _ pos.y ⟨v.disk.2, []⟩
  · rfl

end screen

theorem drawCellOutside {σ : Type} (write : Nat → Nat → Buffer → σ → Option σ) (col : Color) (s : σ) :
    drawCell write ⟨1320, 80⟩ col s = none := rfl

theorem tickRight {x : Int} {vel : Vec2} (left : 80 ≤ x) (right : x ≤ 1280) :
    tick ⟨[⟨x, 80⟩], ⟨200, 200⟩, vel⟩ KEY_D = some ⟨[⟨x + 40, 80⟩], ⟨200, 200⟩, ⟨40, 0⟩⟩ := by
  have turned : steer vel KEY_D = ⟨40, 0⟩ := by simp [steer, KEY_D, KEY_W, KEY_S, KEY_A, gridSize]
  have fits : fitsInt (x + 40) = true := (Graphics.fitsIntIff _).mpr (by omega)
  have level : fitsInt 80 = true := by decide
  simp [tick, turned, fits, level]

theorem roundRight {σ : Type} {write : Nat → Nat → Buffer → σ → Option σ} {x : Int} {vel : Vec2} {s : σ}
    (left : 80 ≤ x) (right : x ≤ 1280) {out : Game × σ}
    (played : playRound write KEY_D ⟨[⟨x, 80⟩], ⟨200, 200⟩, vel⟩ s = some out) :
    x ≠ 1280 ∧ out.1 = ⟨[⟨x + 40, 80⟩], ⟨200, 200⟩, ⟨40, 0⟩⟩ := by
  obtain ⟨s₁, -, played⟩ := Option.bind_eq_some_iff.mp played
  rw [tickRight left right, Option.bind_some] at played
  obtain ⟨s₂, rendered, rfl⟩ := Option.map_eq_some_iff.mp played
  refine ⟨?_, rfl⟩
  rintro rfl
  obtain ⟨s₃, -, drawn⟩ := Option.bind_eq_some_iff.mp rendered
  obtain ⟨s₄, outside, -⟩ := Option.bind_eq_some_iff.mp drawn
  have none := drawCellOutside write ⟨0, 165, 255, 0⟩ s₃
  simp only [show (1280 : Int) + 40 = 1320 by omega] at outside
  rw [none] at outside
  cases outside

theorem snakeRight {fbSize node rounds : Nat} {x : Int} {vel : Vec2} {v : VFS (Disk × Buffer)} (left : 80 ≤ x)
    (way : x + 40 * rounds = 1280) :
    snakeLoop fbSize node (List.replicate (rounds + 1) KEY_D) ⟨[⟨x, 80⟩], ⟨200, 200⟩, vel⟩ v = none := by
  induction rounds generalizing x vel v with
  | zero =>
    rw [List.replicate_succ, snakeLoop]
    split
    · rfl
    · next game v₁ played =>
      exact absurd (by omega) (roundRight left (by omega) played).1
  | succ rounds ih =>
    rw [List.replicate_succ, snakeLoop]
    split
    · rfl
    · next game v₁ played =>
      have moved := (roundRight left (by omega) played).2
      dsimp only at moved
      have going : KEY_D ≠ KEY_ESCAPE := by decide
      rw [if_neg going, moved]
      exact ih (by omega) (by push_cast at way ⊢; omega)

theorem snakeCrashes (fbSize : Nat) (s s' : State) : snake fbSize (List.replicate 31 KEY_D) s ≠ .ok s' := by
  intro ok
  unfold snake at ok
  cases found : lookup (openNode (kernelFs fbSize) s.vfs (text "/dev/fb")) with
  | error crash =>
    rw [found] at ok
    cases ok
  | ok out =>
    obtain ⟨v, fbFile⟩ := out
    rw [found] at ok
    cases fbFile with
    | none => cases ok
    | some node =>
      have lost := @snakeRight fbSize node 30 80 ⟨0, 0⟩ v (by omega) (by omega)
      simp only [Nat.reduceAdd] at lost
      dsimp only [bind, Except.bind] at ok
      rw [startGame, lost] at ok
      cases ok

end DimOS.Shell

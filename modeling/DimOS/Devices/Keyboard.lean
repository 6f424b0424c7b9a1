import Mathlib

/-! The keyboard driver: scan codes from the controller, the table that makes key codes of them,
the modifier flags, and the characters of the key codes. A lookup outside the table is none. -/
namespace DimOS.Devices

abbrev KeyCode := BitVec 32

def KEY_SPACE : KeyCode := 0x20#32
def KEY_0 : KeyCode := 0x30#32
def KEY_1 : KeyCode := 0x31#32
def KEY_2 : KeyCode := 0x32#32
def KEY_3 : KeyCode := 0x33#32
def KEY_4 : KeyCode := 0x34#32
def KEY_5 : KeyCode := 0x35#32
def KEY_6 : KeyCode := 0x36#32
def KEY_7 : KeyCode := 0x37#32
def KEY_8 : KeyCode := 0x38#32
def KEY_9 : KeyCode := 0x39#32
def KEY_A : KeyCode := 0x61#32
def KEY_B : KeyCode := 0x62#32
def KEY_C : KeyCode := 0x63#32
def KEY_D : KeyCode := 0x64#32
def KEY_E : KeyCode := 0x65#32
def KEY_F : KeyCode := 0x66#32
def KEY_G : KeyCode := 0x67#32
def KEY_H : KeyCode := 0x68#32
def KEY_I : KeyCode := 0x69#32
def KEY_J : KeyCode := 0x6a#32
def KEY_K : KeyCode := 0x6b#32
def KEY_L : KeyCode := 0x6c#32
def KEY_M : KeyCode := 0x6d#32
def KEY_N : KeyCode := 0x6e#32
def KEY_O : KeyCode := 0x6f#32
def KEY_P : KeyCode := 0x70#32
def KEY_Q : KeyCode := 0x71#32
def KEY_R : KeyCode := 0x72#32
def KEY_S : KeyCode := 0x73#32
def KEY_T : KeyCode := 0x74#32
def KEY_U : KeyCode := 0x75#32
def KEY_V : KeyCode := 0x76#32
def KEY_W : KeyCode := 0x77#32
def KEY_X : KeyCode := 0x78#32
def KEY_Y : KeyCode := 0x79#32
def KEY_Z : KeyCode := 0x7a#32
def KEY_RETURN : KeyCode := 0xd#32
def KEY_ESCAPE : KeyCode := 0x1001#32
def KEY_BACKSPACE : KeyCode := 0x8#32
def KEY_F1 : KeyCode := 0x1201#32
def KEY_F2 : KeyCode := 0x1202#32
def KEY_F3 : KeyCode := 0x1203#32
def KEY_F4 : KeyCode := 0x1204#32
def KEY_F5 : KeyCode := 0x1205#32
def KEY_F6 : KeyCode := 0x1206#32
def KEY_F7 : KeyCode := 0x1207#32
def KEY_F8 : KeyCode := 0x1208#32
def KEY_F9 : KeyCode := 0x1209#32
def KEY_F10 : KeyCode := 0x120a#32
def KEY_F11 : KeyCode := 0x120b#32
def KEY_F12 : KeyCode := 0x120b#32
def KEY_DOT : KeyCode := 0x2e#32
def KEY_COMMA : KeyCode := 0x2c#32
def KEY_COLON : KeyCode := 0x3a#32
def KEY_SEMICOLON : KeyCode := 0x3b#32
def KEY_SLASH : KeyCode := 0x2f#32
def KEY_BACKSLASH : KeyCode := 0x5c#32
def KEY_PLUS : KeyCode := 0x2b#32
def KEY_MINUS : KeyCode := 0x2d#32
def KEY_ASTERISK : KeyCode := 0x2a#32
def KEY_EXCLAMATION : KeyCode := 0x21#32
def KEY_QUESTION : KeyCode := 0x3f#32
def KEY_QUOTEDOUBLE : KeyCode := 0x22#32
def KEY_QUOTE : KeyCode := 0x27#32
def KEY_EQUAL : KeyCode := 0x3d#32
def KEY_HASH : KeyCode := 0x23#32
def KEY_PERCENT : KeyCode := 0x25#32
def KEY_AMPERSAND : KeyCode := 0x26#32
def KEY_UNDERSCORE : KeyCode := 0x5f#32
def KEY_LEFTPARENTHESIS : KeyCode := 0x28#32
def KEY_RIGHTPARENTHESIS : KeyCode := 0x29#32
def KEY_LEFTBRACKET : KeyCode := 0x5b#32
def KEY_RIGHTBRACKET : KeyCode := 0x5d#32
def KEY_LEFTCURL : KeyCode := 0x7b#32
def KEY_RIGHTCURL : KeyCode := 0x7d#32
def KEY_LESS : KeyCode := 0x3c#32
def KEY_GREATER : KeyCode := 0x3e#32
def KEY_BAR : KeyCode := 0x7c#32
def KEY_GRAVE : KeyCode := 0x60#32
def KEY_TILDE : KeyCode := 0x7e#32
def KEY_AT : KeyCode := 0x40#32
def KEY_CARRET : KeyCode := 0x5e#32
def KEY_KP_0 : KeyCode := 0x30#32
def KEY_KP_2 : KeyCode := 0x32#32
def KEY_KP_3 : KeyCode := 0x33#32
def KEY_KP_8 : KeyCode := 0x38#32
def KEY_KP_DECIMAL : KeyCode := 0x2e#32
def KEY_KP_ASTERISK : KeyCode := 0x2a#32
def KEY_KP_NUMLOCK : KeyCode := 0x300f#32
def KEY_TAB : KeyCode := 0x4000#32
def KEY_CAPSLOCK : KeyCode := 0x4001#32
def KEY_LSHIFT : KeyCode := 0x4002#32
def KEY_LCTRL : KeyCode := 0x4003#32
def KEY_LALT : KeyCode := 0x4004#32
def KEY_RSHIFT : KeyCode := 0x4006#32
def KEY_RCTRL : KeyCode := 0x4007#32
def KEY_RALT : KeyCode := 0x4008#32
def KEY_HOME : KeyCode := 0x400c#32
def KEY_PAGEUP : KeyCode := 0x400e#32
def KEY_SCROLLLOCK : KeyCode := 0x4010#32
def KEY_UNKNOWN : KeyCode := 0x4012#32

def scancodeToKeyCode : List KeyCode := [
  KEY_UNKNOWN, KEY_ESCAPE, KEY_1, KEY_2, KEY_3, KEY_4, KEY_5, KEY_6,
  KEY_7, KEY_8, KEY_9, KEY_0, KEY_MINUS, KEY_EQUAL, KEY_BACKSPACE, KEY_TAB,
  KEY_Q, KEY_W, KEY_E, KEY_R, KEY_T, KEY_Y, KEY_U, KEY_I,
  KEY_O, KEY_P, KEY_LEFTBRACKET, KEY_RIGHTBRACKET, KEY_RETURN, KEY_LCTRL, KEY_A, KEY_S,
  KEY_D, KEY_F, KEY_G, KEY_H, KEY_J, KEY_K, KEY_L, KEY_SEMICOLON,
  KEY_QUOTE, KEY_GRAVE, KEY_LSHIFT, KEY_BACKSLASH, KEY_Z, KEY_X, KEY_C, KEY_V,
  KEY_B, KEY_N, KEY_M, KEY_COMMA, KEY_DOT, KEY_SLASH, KEY_RSHIFT, KEY_KP_ASTERISK,
  KEY_RALT, KEY_SPACE, KEY_CAPSLOCK, KEY_F1, KEY_F2, KEY_F3, KEY_F4, KEY_F5,
  KEY_F6, KEY_F7, KEY_F8, KEY_F9, KEY_F10, KEY_KP_NUMLOCK, KEY_SCROLLLOCK, KEY_HOME,
  KEY_KP_8, KEY_PAGEUP, KEY_KP_2, KEY_KP_3, KEY_KP_0, KEY_KP_DECIMAL, KEY_UNKNOWN, KEY_UNKNOWN,
  KEY_UNKNOWN, KEY_F11, KEY_F12]

def INVALID_SCANCODE : BitVec 8 := 0#8

/- The bit of the status register that says that a byte is waiting. -/
def CTRL_STATS_MASK_OUT_BUF : BitVec 8 := 1#8

def ERR_BAT_FAILED : BitVec 8 := 0xfc#8
def ERR_DIAG_FAILED : BitVec 8 := 0xfd#8
def ERR_RESEND_CMD : BitVec 8 := 0xfe#8

inductive Modifier where
  | shift
  | alt
  | ctrl
  deriving DecidableEq

/- The members of the device, and the flag that isrHandler keeps between its calls. -/
structure Keyboard where
  scancode : BitVec 8
  numLock : Bool
  scrollLock : Bool
  capsLock : Bool
  shift : Bool
  alt : Bool
  ctrl : Bool
  error : BitVec 8
  extended : Bool
  deriving DecidableEq

def Keyboard.initial : Keyboard := ⟨INVALID_SCANCODE, false, false, false, false, false, false, 0#8, false⟩

def Keyboard.modifier (device : Keyboard) : Modifier → Bool
  | .shift => device.shift
  | .alt => device.alt
  | .ctrl => device.ctrl

def Keyboard.setModifier (device : Keyboard) (m : Modifier) (down : Bool) : Keyboard :=
  match m with
  | .shift => { device with shift := down }
  | .alt => { device with alt := down }
  | .ctrl => { device with ctrl := down }

def modifierOf (key : KeyCode) : Option Modifier :=
  if key = KEY_LCTRL ∨ key = KEY_RCTRL then some .ctrl
  else if key = KEY_LSHIFT ∨ key = KEY_RSHIFT then some .shift
  else if key = KEY_LALT ∨ key = KEY_RALT then some .alt
  else none

def Keyboard.released (device : Keyboard) (key : KeyCode) : Keyboard :=
  match modifierOf key with
  | some m => device.setModifier m false
  | none => device

def Keyboard.pressed (device : Keyboard) (key : KeyCode) : Keyboard :=
  match modifierOf key with
  | some m => device.setModifier m true
  | none =>
    if key = KEY_CAPSLOCK then { device with capsLock := !device.capsLock }
    else if key = KEY_KP_NUMLOCK then { device with numLock := !device.numLock }
    else if key = KEY_SCROLLLOCK then { device with scrollLock := !device.scrollLock }
    else device

def Keyboard.getLastKeyCode (device : Keyboard) : Option KeyCode :=
  if device.scancode = INVALID_SCANCODE then some KEY_UNKNOWN
  else if device.scancode.msb then none
  else scancodeToKeyCode[device.scancode.toNat]?

def Keyboard.discardLastKeyCode (device : Keyboard) : Keyboard := { device with scancode := INVALID_SCANCODE }

def Keyboard.watchErrors (device : Keyboard) (code : BitVec 8) : Keyboard :=
  if code = ERR_BAT_FAILED ∨ code = ERR_DIAG_FAILED ∨ code = ERR_RESEND_CMD then { device with error := code }
  else { device with error := 0#8 }

/- What isrHandler does with the byte it read. A break code is turned into its make code first. -/
def Keyboard.scan (device : Keyboard) (code : BitVec 8) : Option Keyboard :=
  if code = 0xe0#8 ∨ code = 0xe1#8 then some ({ device with extended := true }.watchErrors code)
  else
    let device := { device with extended := false }
    if code &&& 0x80#8 ≠ 0#8 then
      let code := code - 0x80#8
      match scancodeToKeyCode[code.toNat]? with
      | none => none
      | some key => some ((device.released key).watchErrors code)
    else
      let device := { device with scancode := code }
      match scancodeToKeyCode[code.toNat]? with
      | none => none
      | some key => some ((device.pressed key).watchErrors code)

/- The key code that the handler writes to the stdin of the current thread, if it writes one. -/
def isrHandler (status data : BitVec 8) (device : Keyboard) : Option (Keyboard × Option KeyCode) :=
  match (if status &&& CTRL_STATS_MASK_OUT_BUF ≠ 0#8 then device.scan data else some device) with
  | none => none
  | some device =>
    match device.getLastKeyCode with
    | none => none
    | some key => some (device.discardLastKeyCode, if key ≠ KEY_UNKNOWN then some key else none)

def isascii (c : BitVec 8) : Bool := c.signExtend 32 ≤ 0x7f#32

/- The low byte of a key code with value `code`. -/
def lowByte (code : KeyCode) : BitVec 8 := code.setWidth 8

def shiftedDigit (key : BitVec 8) : BitVec 8 :=
  if key = 0x30#8 then lowByte KEY_RIGHTPARENTHESIS
  else if key = 0x31#8 then lowByte KEY_EXCLAMATION
  else if key = 0x32#8 then lowByte KEY_AT
  else if key = 0x33#8 then lowByte KEY_EXCLAMATION
  else if key = 0x34#8 then lowByte KEY_HASH
  else if key = 0x35#8 then lowByte KEY_PERCENT
  else if key = 0x36#8 then lowByte KEY_CARRET
  else if key = 0x37#8 then lowByte KEY_AMPERSAND
  else if key = 0x38#8 then lowByte KEY_ASTERISK
  else if key = 0x39#8 then lowByte KEY_LEFTPARENTHESIS
  else key

def shiftedSign (key : BitVec 8) : BitVec 8 :=
  if key = lowByte KEY_COMMA then lowByte KEY_LESS
  else if key = lowByte KEY_DOT then lowByte KEY_GREATER
  else if key = lowByte KEY_SLASH then lowByte KEY_QUESTION
  else if key = lowByte KEY_SEMICOLON then lowByte KEY_COLON
  else if key = lowByte KEY_QUOTE then lowByte KEY_QUOTEDOUBLE
  else if key = lowByte KEY_LEFTBRACKET then lowByte KEY_LEFTCURL
  else if key = lowByte KEY_RIGHTBRACKET then lowByte KEY_RIGHTCURL
  else if key = lowByte KEY_GRAVE then lowByte KEY_TILDE
  else if key = lowByte KEY_MINUS then lowByte KEY_UNDERSCORE
  else if key = lowByte KEY_PLUS then lowByte KEY_EQUAL
  else if key = lowByte KEY_BACKSLASH then lowByte KEY_BAR
  else key

def Keyboard.keyCodeToASCII (keyboard : Keyboard) (code : KeyCode) : BitVec 8 :=
  let key := lowByte code
  if isascii key then
    let key :=
      if keyboard.shift || keyboard.capsLock then
        if 0x61#8 ≤ key ∧ key ≤ 0x7a#8 then key - 32#8 else key
      else key
    if keyboard.shift && !keyboard.capsLock then
      if 0x30#8 ≤ key ∧ key ≤ 0x39#8 then shiftedDigit key else shiftedSign key
    else key
  else 0#8

theorem backspaceASCII (keyboard : Keyboard) : keyboard.keyCodeToASCII KEY_BACKSPACE = 0x08#8 := by
  cases shift : keyboard.shift <;> cases capsLock : keyboard.capsLock <;>
    simp only [Keyboard.keyCodeToASCII, shift, capsLock] <;> decide

theorem returnASCII (keyboard : Keyboard) : keyboard.keyCodeToASCII KEY_RETURN = 0x0d#8 := by
  cases shift : keyboard.shift <;> cases capsLock : keyboard.capsLock <;>
    simp only [Keyboard.keyCodeToASCII, shift, capsLock] <;> decide

def isPrefix (data : BitVec 8) : Bool := data == 0xe0#8 || data == 0xe1#8

def InTable (data : BitVec 8) : Prop :=
  isPrefix data = true ∨ (data &&& 0x7f#8).toNat < scancodeToKeyCode.length

instance (data : BitVec 8) : Decidable (InTable data) := inferInstanceAs (Decidable (_ ∨ _))

def makeKey (data : BitVec 8) : Option KeyCode :=
  if data ≠ 0#8 ∧ data.toNat < 0x80 then
    (scancodeToKeyCode[data.toNat]?).filter fun key => key ≠ KEY_UNKNOWN
  else none

/- What a byte says about a modifier: pressed, released or nothing. -/
def mark (m : Modifier) (data : BitVec 8) : Option Bool :=
  if isPrefix data then none
  else match scancodeToKeyCode[(data &&& 0x7f#8).toNat]? with
    | none => none
    | some key => if modifierOf key = some m then some (data &&& 0x80#8 == 0#8) else none

def Keyboard.Idle (device : Keyboard) : Prop := device.scancode = INVALID_SCANCODE

@[simp] theorem setModifierModifier (device : Keyboard) (m n : Modifier) (down : Bool) :
    (device.setModifier m down).modifier n = if n = m then down else device.modifier n := by
  cases m <;> cases n <;> rfl

@[simp] theorem setModifierScancode (device : Keyboard) (m : Modifier) (down : Bool) :
    (device.setModifier m down).scancode = device.scancode := by
  cases m <;> rfl

@[simp] theorem watchErrorsModifier (device : Keyboard) (code : BitVec 8) (m : Modifier) :
    (device.watchErrors code).modifier m = device.modifier m := by
  unfold Keyboard.watchErrors
  split <;> cases m <;> rfl

@[simp] theorem watchErrorsScancode (device : Keyboard) (code : BitVec 8) :
    (device.watchErrors code).scancode = device.scancode := by
  unfold Keyboard.watchErrors
  split <;> rfl

@[simp] theorem discardModifier (device : Keyboard) (m : Modifier) :
    device.discardLastKeyCode.modifier m = device.modifier m := by
  cases m <;> rfl

@[simp] theorem releasedScancode (device : Keyboard) (key : KeyCode) :
    (device.released key).scancode = device.scancode := by
  unfold Keyboard.released
  split <;> simp

@[simp] theorem pressedScancode (device : Keyboard) (key : KeyCode) :
    (device.pressed key).scancode = device.scancode := by
  unfold Keyboard.pressed
  split
  · simp
  · split
    · rfl
    · split
      · rfl
      · split <;> rfl

@[simp] theorem releasedModifier (device : Keyboard) (key : KeyCode) (m : Modifier) :
    (device.released key).modifier m = if modifierOf key = some m then false else device.modifier m := by
  unfold Keyboard.released
  cases modifierOf key with
  | none => rfl
  | some n => simp [eq_comm]

@[simp] theorem pressedModifier (device : Keyboard) (key : KeyCode) (m : Modifier) :
    (device.pressed key).modifier m = if modifierOf key = some m then true else device.modifier m := by
  unfold Keyboard.pressed
  cases modifierOf key with
  | some n => simp [eq_comm]
  | none =>
    simp only [reduceCtorEq, if_false]
    split
    · cases m <;> rfl
    · split
      · cases m <;> rfl
      · split <;> cases m <;> rfl

theorem breakCode : ∀ code : BitVec 8, code &&& 0x80#8 ≠ 0#8 → code - 0x80#8 = code &&& 0x7f#8 := by decide

theorem makeCode : ∀ code : BitVec 8, code &&& 0x80#8 = 0#8 →
    code &&& 0x7f#8 = code ∧ code.msb = false ∧ code.toNat < 0x80 ∧ isPrefix code = false := by decide

theorem highCode : ∀ code : BitVec 8, code &&& 0x80#8 ≠ 0#8 → ¬ code.toNat < 0x80 := by decide

/- What the handler does with a byte when no scan code waits: a lookup that fails, or a keyboard
in which again none waits, the modifiers as the byte marks them, and the key of a make code. -/
structure Handled (device device' : Keyboard) (data : BitVec 8) (key : Option KeyCode) : Prop where
  idle : device'.Idle
  modifiers : ∀ m, device'.modifier m = (mark m data).getD (device.modifier m)
  key : key = makeKey data

theorem handlerQuiet {status : BitVec 8} (empty : status &&& CTRL_STATS_MASK_OUT_BUF = 0#8) (data : BitVec 8)
    {device : Keyboard} (idle : device.Idle) : isrHandler status data device = some (device, none) := by
  have same : device.discardLastKeyCode = device := by
    rw [Keyboard.discardLastKeyCode, ← idle]
  simp [isrHandler, empty, Keyboard.getLastKeyCode, show device.scancode = INVALID_SCANCODE from idle, same]

theorem handlerPrefix {status data : BitVec 8} (full : status &&& CTRL_STATS_MASK_OUT_BUF ≠ 0#8)
    (announces : isPrefix data = true) {device : Keyboard} (idle : device.Idle) :
    ∃ device', isrHandler status data device = some (device', none) ∧ Handled device device' data none := by
  have which : data = 0xe0#8 ∨ data = 0xe1#8 := by simpa [isPrefix] using announces
  have scanned : device.scan data = some ({ device with extended := true }.watchErrors data) := by
    rw [Keyboard.scan, if_pos which]
  have ran : isrHandler status data device =
      some (({ device with extended := true }.watchErrors data).discardLastKeyCode, none) := by
    rw [isrHandler, if_pos full, scanned]
    simp only [Keyboard.getLastKeyCode, watchErrorsScancode, show device.scancode = INVALID_SCANCODE from idle,
      if_true, ne_eq, not_true_eq_false, if_false]
  refine ⟨_, ran, rfl, ?_, ?_⟩
  · intro m
    rw [mark, if_pos announces, Option.getD_none, discardModifier, watchErrorsModifier]
    cases m <;> rfl
  · rcases which with rfl | rfl <;> rfl

theorem handlerOutside {status data : BitVec 8} (full : status &&& CTRL_STATS_MASK_OUT_BUF ≠ 0#8)
    (outside : ¬ InTable data) (device : Keyboard) : isrHandler status data device = none := by
  unfold InTable at outside
  push Not at outside
  obtain ⟨announces, far⟩ := outside
  have which : ¬ (data = 0xe0#8 ∨ data = 0xe1#8) := by simpa [isPrefix] using announces
  have scanned : device.scan data = none := by
    rw [Keyboard.scan, if_neg which]
    dsimp only
    split
    · next high => rw [breakCode data high, List.getElem?_eq_none far]
    · next flat =>
      rw [(makeCode data (not_not.mp flat)).1] at far
      rw [List.getElem?_eq_none far]
  rw [isrHandler, if_pos full, scanned]

theorem handlerInside {status data : BitVec 8} (full : status &&& CTRL_STATS_MASK_OUT_BUF ≠ 0#8)
    (plain : isPrefix data = false) (inside : (data &&& 0x7f#8).toNat < scancodeToKeyCode.length)
    {device : Keyboard} (idle : device.Idle) :
    ∃ device' key, isrHandler status data device = some (device', key) ∧ Handled device device' data key := by
  have which : ¬ (data = 0xe0#8 ∨ data = 0xe1#8) := by simpa [isPrefix] using plain
  have found := List.getElem?_eq_getElem inside
  generalize scancodeToKeyCode[(data &&& 0x7f#8).toNat] = key at found
  have marks : ∀ m, mark m data = if modifierOf key = some m then some (data &&& 0x80#8 == 0#8) else none := by
    intro m
    simp only [mark, plain, Bool.false_eq_true, if_false, found]
  have extension : ∀ m, Keyboard.modifier { device with extended := false } m = device.modifier m := by
    intro m
    cases m <;> rfl
  by_cases high : data &&& 0x80#8 ≠ 0#8
  · have scanned : device.scan data =
        some (({ device with extended := false }.released key).watchErrors (data &&& 0x7f#8)) := by
      rw [Keyboard.scan, if_neg which]
      dsimp only
      rw [if_pos high, breakCode data high, found]
    have ran : isrHandler status data device =
        some ((({ device with extended := false }.released key).watchErrors (data &&& 0x7f#8)).discardLastKeyCode,
          none) := by
      rw [isrHandler, if_pos full, scanned]
      simp only [Keyboard.getLastKeyCode, watchErrorsScancode, releasedScancode,
        show device.scancode = INVALID_SCANCODE from idle, if_true, ne_eq, not_true_eq_false, if_false]
    refine ⟨_, none, ran, rfl, ?_, ?_⟩
    · intro m
      have flag : (data &&& 0x80#8 == 0#8) = false := by simpa using high
      rw [marks, flag]
      simp only [discardModifier, watchErrorsModifier, releasedModifier, extension]
      split <;> rfl
    · rw [makeKey, if_neg (fun make => highCode data high make.2)]
  · have flat : data &&& 0x80#8 = 0#8 := not_not.mp high
    obtain ⟨same, sign, small, -⟩ := makeCode data flat
    rw [same] at found
    have scanned : device.scan data =
        some (({ device with extended := false, scancode := data }.pressed key).watchErrors data) := by
      rw [Keyboard.scan, if_neg which]
      dsimp only
      rw [if_neg high, found]
    have last : ((({ device with extended := false, scancode := data } : Keyboard).pressed key).watchErrors
        data).getLastKeyCode = some key := by
      simp only [Keyboard.getLastKeyCode, watchErrorsScancode, pressedScancode]
      split
      · next zero =>
        have first : scancodeToKeyCode[data.toNat]? = some KEY_UNKNOWN := by rw [zero]; rfl
        rw [← found, first]
      · simp [sign, found]
    have extension' : ∀ m, Keyboard.modifier { device with extended := false, scancode := data } m =
        device.modifier m := by
      intro m
      cases m <;> rfl
    have ran : isrHandler status data device =
        some ((({ device with extended := false, scancode := data }.pressed key).watchErrors data).discardLastKeyCode,
          if key ≠ KEY_UNKNOWN then some key else none) := by
      rw [isrHandler, if_pos full, scanned]
      dsimp only
      rw [last]
    refine ⟨_, _, ran, rfl, ?_, ?_⟩
    · intro m
      have flag : (data &&& 0x80#8 == 0#8) = true := by simpa using flat
      rw [marks, flag]
      simp only [discardModifier, watchErrorsModifier, pressedModifier, extension']
      split <;> rfl
    · rw [makeKey, found]
      by_cases zero : data = 0#8
      · have first : some key = some KEY_UNKNOWN := by rw [← found, zero]; rfl
        simp [zero, Option.some.inj first]
      · simp [zero, small, Option.filter]

/- The handler in one statement. -/
theorem handlerSpec {status : BitVec 8} (full : status &&& CTRL_STATS_MASK_OUT_BUF ≠ 0#8) (data : BitVec 8)
    {device : Keyboard} (idle : device.Idle) :
    (¬ InTable data ∧ isrHandler status data device = none) ∨
      (InTable data ∧ ∃ device' key, isrHandler status data device = some (device', key) ∧
        Handled device device' data key) := by
  by_cases inside : InTable data
  · right
    refine ⟨inside, ?_⟩
    cases plain : isPrefix data with
    | true =>
      obtain ⟨device', made, handled⟩ := handlerPrefix full plain idle
      exact ⟨device', none, made, handled⟩
    | false =>
      rcases inside with announces | small
      · rw [plain] at announces
        cases announces
      · exact handlerInside full plain small idle
  · exact .inl ⟨inside, handlerOutside full inside device⟩

end DimOS.Devices

import Mathlib
import DimOS.Lib.Numerals
import DimOS.Cpp.StringNumbers

/-! printf of the C library and the functions that print numbers. A format is the list of its
characters up to the zero. none is undefined: a store outside the local buffer, a read of a byte
that was not written, an argument that is missing or of another type, a negation that overflows. -/
namespace DimOS.Libc.Printf
open Cpp.Containers (Chars)
open Cpp.StringNumbers (digitChar decimalDigit decimalGlyphs)
open Lib.Numerals

def INT_MAX : Nat := 2 ^ 31 - 1

def percent : BitVec 8 := 0x25#8
def minus : BitVec 8 := 0x2d#8

abbrev Buffer := List (Option (BitVec 8))

def store (str : Buffer) (pos : Int) (c : BitVec 8) : Option Buffer :=
  if 0 ≤ pos ∧ pos < str.length then some (str.set pos.toNat (some c)) else none

def cString : Buffer → Option Chars
  | [] => none
  | none :: _ => none
  | some c :: rest => if c = 0#8 then some [] else (cString rest).map (c :: ·)

/- `str + pos`. -/
def cStringAt (str : Buffer) (pos : Int) : Option Chars :=
  if 0 ≤ pos then cString (str.drop pos.toNat) else none

/- `char str[length]; str[length - 1] = 0;` -/
def terminated (length : Nat) : Buffer := List.replicate (length - 1) none ++ [some 0#8]

/- `while (pos >= 0)` with pos one less than the first argument. The digits go in from the right. -/
def digitLoop (base : Int) (digit : Int → BitVec 8) : Nat → Int → Buffer → Option (Int × Buffer)
  | 0, _, str => some (-1, str)
  | pos + 1, val, str =>
    match store str pos (digit (val.tmod base)) with
    | none => none
    | some str =>
      let val := val.tdiv base
      if val = 0 then some (pos, str) else digitLoop base digit pos val str

/- `'0' + x`. -/
def decimalChar (x : Int) : BitVec 8 := BitVec.ofInt 8 (0x30 + x)

def hexChar (x : Int) : BitVec 8 :=
  if x ≤ 9 then BitVec.ofInt 8 (0x30 + x) else BitVec.ofInt 8 (0x61 + (x - 10))

/- `if (val < 0) val *= -1;` in a signed type of so many bits. -/
def absolute (bits : Nat) (val : Int) : Option Int :=
  if val < 0 then if -val < 2 ^ (bits - 1) then some (-val) else none else some val

/- The string that the signed functions build in a buffer of that length. -/
def signedText (bits length : Nat) (val : Int) : Option Chars :=
  match absolute bits val with
  | none => none
  | some magnitude =>
    match digitLoop 10 decimalChar (length - 1) magnitude (terminated length) with
    | none => none
    | some (pos, str) =>
      if val < 0 then (store str (pos - 1) minus).bind fun str => cStringAt str (pos - 1)
      else cStringAt str pos

def unsignedText (length : Nat) (val : Int) : Option Chars :=
  match digitLoop 10 decimalChar (length - 1) val (terminated length) with
  | none => none
  | some (pos, str) => cStringAt str pos

def hexText (length : Nat) (val : Int) : Option Chars :=
  match digitLoop 16 hexChar (length - 1) val (terminated length) with
  | none => none
  | some (pos, str) =>
    (store str (pos - 1) 0x78#8).bind fun str =>
      (store str (pos - 2) 0x30#8).bind fun str => cStringAt str (pos - 2)

/- `int res = printf(str + pos); return res != -1;` with what was printed. -/
def printText (printf : Chars → Option (Chars × Int)) (text : Option Chars) : Option (Chars × Bool) :=
  text.bind fun text => (printf text).map fun (out, res) => (out, decide (res ≠ -1))

def print_decimal (printf : Chars → Option (Chars × Int)) (val : BitVec 32) : Option (Chars × Bool) :=
  printText printf (signedText 32 13 val.toInt)

def print_decimal_64 (printf : Chars → Option (Chars × Int)) (val : BitVec 64) : Option (Chars × Bool) :=
  printText printf (signedText 64 22 val.toInt)

def print_unsigned_decimal_64 (printf : Chars → Option (Chars × Int)) (val : BitVec 64) : Option (Chars × Bool) :=
  printText printf (unsignedText 22 val.toNat)

def print_hex_64 (printf : Chars → Option (Chars × Int)) (val : BitVec 64) : Option (Chars × Bool) :=
  printText printf (hexText 22 val.toNat)

inductive Arg where
  | int (value : BitVec 32)
  | longLong (value : BitVec 64)
  | string (value : Chars)

/- The characters up to the next percent sign, the first one in any case. -/
def amount : Chars → Chars
  | [] => []
  | c :: rest => c :: rest.takeWhile (· ≠ percent)

/- `if (!maxrem) return -1;` in front of the call that prints. -/
def unlessFull (maxrem : Nat) (printed : Option (Chars × Bool)) : Option (Chars × Bool) :=
  if maxrem = 0 then some ([], false) else printed

/- What is printed for the conversion `spec`, and the arguments behind it. -/
def convert (printf : Chars → Option (Chars × Int)) (maxrem : Nat) (spec : BitVec 8) (args : List Arg) :
    Option ((Chars × Bool) × List Arg) :=
  if spec = 0x63#8 then
    match args with
    | .int c :: args => (unlessFull maxrem (some ([c.setWidth 8], true))).map (·, args)
    | _ => none
  else if spec = 0x64#8 then
    match args with
    | .int d :: args => (unlessFull maxrem (print_decimal printf d)).map (·, args)
    | _ => none
  else
    match args with
    | .longLong d :: args =>
      (unlessFull maxrem
        (if spec = 0x6c#8 then print_decimal_64 printf d
         else if spec = 0x75#8 then print_unsigned_decimal_64 printf d
         else print_hex_64 printf d)).map (·, args)
    | _ => none

def counted (spec : BitVec 8) : Bool :=
  spec == 0x63#8 || spec == 0x64#8 || spec == 0x6c#8 || spec == 0x75#8 || spec == 0x78#8

/- The loop of printf: the rest of the format, the arguments, `written` and what was printed. Every
round reads a character, so `left` is the length of the format and one more. -/
def printfLoop (printf : Chars → Option (Chars × Int)) :
    Nat → Chars → List Arg → Nat → Chars → Option (Chars × Int)
  | 0, _, _, _, _ => none
  | left + 1, format, args, written, out =>
    let maxrem := INT_MAX - written
    match format with
    | [] => some (out, written)
    | c :: rest =>
      if c ≠ percent ∨ rest.head? = some percent then
        let format := if c = percent then rest else c :: rest
        let text := amount format
        if maxrem < text.length then some (out, -1)
        else printfLoop printf left (format.drop text.length) args (written + text.length) (out ++ text)
      else
        match rest with
        | [] =>
          if maxrem < 1 then some (out, -1) else printfLoop printf left [] args (written + 1) (out ++ [percent])
        | spec :: format =>
          if spec = 0x73#8 then
            match args with
            | .string str :: args =>
              if maxrem < str.length then some (out, -1)
              else printfLoop printf left format args (written + str.length) (out ++ str)
            | _ => none
          else if counted spec then
            match convert printf maxrem spec args with
            | none => none
            | some ((text, ok), args) =>
              if ok then printfLoop printf left format args (written + 1) (out ++ text)
              else some (out ++ text, -1)
          else
            let text := percent :: spec :: format
            if maxrem < text.length then some (out, -1)
            else printfLoop printf left [] args (written + text.length) (out ++ text)

/- The call without arguments that the number functions make. A conversion in its format would read
an argument that is not there, so it makes no such call again. -/
def printfPlain (format : Chars) : Option (Chars × Int) :=
  printfLoop (fun _ => none) (format.length + 1) format [] 0 []

def printf (format : Chars) (args : List Arg) : Option (Chars × Int) :=
  printfLoop printfPlain (format.length + 1) format args 0 []

/- A buffer with the text in front of its terminator, and nothing written before it. -/
def filled (pos : Nat) (text : Chars) : Buffer := List.replicate pos none ++ text.map some ++ [some 0#8]

theorem terminatedEq (length : Nat) : terminated length = filled (length - 1) [] := by simp [terminated, filled]

theorem storeFilled (pos : Nat) (text : Chars) (c : BitVec 8) :
    store (filled (pos + 1) text) pos c = some (filled pos (c :: text)) := by
  have inside : 0 ≤ (pos : Int) ∧ (pos : Int) < (filled (pos + 1) text).length := by
    simp [filled]
    omega
  rw [store, if_pos inside, Int.toNat_natCast, filled, List.replicate_succ']
  simp [filled]

theorem cStringText {text : Chars} (plain : 0#8 ∉ text) : cString (text.map some ++ [some 0#8]) = some text := by
  induction text with
  | nil => rfl
  | cons c rest ih =>
    rw [List.mem_cons, not_or] at plain
    simp only [List.map_cons, List.cons_append, cString, if_neg (Ne.symm plain.1), ih plain.2, Option.map_some]

theorem cStringFilled {pos : Nat} {text : Chars} (plain : 0#8 ∉ text) : cStringAt (filled pos text) pos = some text := by
  rw [cStringAt, if_pos (by omega), Int.toNat_natCast, filled, List.append_assoc,
    List.drop_left' List.length_replicate, cStringText plain]

theorem digitLoopEq {base : Nat} (large : 1 < base) {digit : Int → BitVec 8} {glyph : Nat → BitVec 8}
    (same : ∀ d : Nat, d < base → digit d = glyph d) {pos n : Nat} {text : Chars}
    (fits : (numeral glyph base n).length ≤ pos) :
    digitLoop base digit pos n (filled pos text) =
      some (((pos - (numeral glyph base n).length : Nat) : Int),
        filled (pos - (numeral glyph base n).length) (numeral glyph base n ++ text)) := by
  induction pos generalizing n text with
  | zero =>
    rw [numeralStep glyph large] at fits
    simp at fits
  | succ pos ih =>
    have step := numeralStep glyph large n
    have digitEq : digit ((n : Int).tmod base) = glyph (n % base) := by
      rw [Int.tmod_eq_emod_of_nonneg (by omega), ← Int.natCast_mod]
      exact same _ (Nat.mod_lt n (by omega))
    have next : (n : Int).tdiv base = ((n / base : Nat) : Int) := by
      rw [Int.tdiv_eq_ediv_of_nonneg (by omega), ← Int.natCast_div]
    rw [digitLoop, digitEq, storeFilled]
    dsimp only
    rw [next]
    by_cases last : n / base = 0
    · rw [if_pos last] at step
      rw [if_pos (by omega), step]
      simp
    · rw [if_neg last] at step
      rw [step, List.length_append] at fits
      simp only [List.length_cons, List.length_nil] at fits
      rw [if_neg (by omega), ih (by omega), step]
      simp

theorem decimalSame : ∀ d : Nat, d < 10 → decimalChar d = digitChar d := by decide

def hexGlyph (d : Nat) : BitVec 8 := hexChar d

def hexDigit (c : BitVec 8) : Option Nat :=
  if 0x30 ≤ c.toNat ∧ c.toNat ≤ 0x39 then some (c.toNat - 0x30)
  else if 0x61 ≤ c.toNat ∧ c.toNat ≤ 0x66 then some (c.toNat - 0x61 + 10)
  else none

theorem hexGlyphs : Glyphs hexDigit 16 hexGlyph := by
  unfold Glyphs
  decide

def Literal (text : Chars) : Prop := ∀ c ∈ text, c ≠ percent ∧ c ≠ 0#8

theorem decimalLiteral (n : Nat) : Literal (numeral digitChar 10 n) := by
  intro c mem
  obtain ⟨d, small, rfl⟩ := numeralMem (by decide) mem
  have all : ∀ d < 10, digitChar d ≠ percent ∧ digitChar d ≠ 0#8 := by decide
  exact all d small

theorem hexLiteral (n : Nat) : Literal (numeral hexGlyph 16 n) := by
  intro c mem
  obtain ⟨d, small, rfl⟩ := numeralMem (by decide) mem
  have all : ∀ d < 16, hexGlyph d ≠ percent ∧ hexGlyph d ≠ 0#8 := by decide
  exact all d small

theorem literalCons {c : BitVec 8} {text : Chars} (literal : Literal text) (here : c ≠ percent ∧ c ≠ 0#8) :
    Literal (c :: text) := by
  intro x mem
  rcases List.mem_cons.mp mem with rfl | mem
  · exact here
  · exact literal x mem

theorem literalPlain {text : Chars} (literal : Literal text) : 0#8 ∉ text :=
  fun mem => (literal _ mem).2 rfl

def signedNumeral (val : Int) : Chars :=
  if val < 0 then minus :: numeral digitChar 10 val.natAbs else numeral digitChar 10 val.natAbs

theorem signedLiteral (val : Int) : Literal (signedNumeral val) := by
  unfold signedNumeral
  split
  · exact literalCons (decimalLiteral _) (by decide)
  · exact decimalLiteral _

theorem signedTextEq {bits length : Nat} {val : Int}
    (room : (numeral digitChar 10 val.natAbs).length + 2 ≤ length) :
    signedText bits length val = if val < 0 ∧ 2 ^ (bits - 1) ≤ -val then none else some (signedNumeral val) := by
  have digits := @digitLoopEq 10 (by decide) _ _ decimalSame (length - 1) val.natAbs [] (by omega)
  have plain := literalPlain (decimalLiteral val.natAbs)
  rw [List.append_nil, ← terminatedEq] at digits
  unfold signedText absolute signedNumeral
  by_cases negative : val < 0
  · simp only [negative, if_true, true_and]
    by_cases small : -val < 2 ^ (bits - 1)
    · have magnitude : -val = (val.natAbs : Int) := by omega
      obtain ⟨pos, place⟩ : ∃ pos, length - 1 - (numeral digitChar 10 val.natAbs).length = pos + 1 :=
        ⟨length - 1 - (numeral digitChar 10 val.natAbs).length - 1, by omega⟩
      rw [place] at digits
      rw [if_pos small, if_neg (by omega), magnitude]
      simp only [Nat.cast_ofNat] at digits
      dsimp only
      rw [digits]
      have before : ((pos + 1 : Nat) : Int) - 1 = pos := by omega
      dsimp only
      rw [before, storeFilled, Option.bind_some,
        cStringFilled (literalPlain (literalCons (decimalLiteral _) (by decide)))]
    · rw [if_neg small, if_pos (by omega)]
  · have magnitude : val = (val.natAbs : Int) := by omega
    simp only [negative, if_false, false_and]
    generalize val.natAbs = n at *
    subst magnitude
    simp only [Nat.cast_ofNat] at digits
    rw [digits]
    exact cStringFilled plain

theorem unsignedTextEq {length n : Nat} (room : (numeral digitChar 10 n).length + 1 ≤ length) :
    unsignedText length n = some (numeral digitChar 10 n) := by
  have digits := @digitLoopEq 10 (by decide) _ _ decimalSame (length - 1) n [] (by omega)
  rw [List.append_nil, ← terminatedEq] at digits
  simp only [Nat.cast_ofNat] at digits
  rw [unsignedText, digits]
  exact cStringFilled (literalPlain (decimalLiteral n))

def hexNumeral (n : Nat) : Chars := 0x30#8 :: 0x78#8 :: numeral hexGlyph 16 n

theorem hexNumeralLiteral (n : Nat) : Literal (hexNumeral n) :=
  literalCons (literalCons (hexLiteral n) (by decide)) (by decide)

theorem hexTextEq {length n : Nat} (room : (numeral hexGlyph 16 n).length + 3 ≤ length) :
    hexText length n = some (hexNumeral n) := by
  have digits := @digitLoopEq 16 (by decide) hexChar hexGlyph (fun _ _ => rfl) (length - 1) n [] (by omega)
  rw [List.append_nil, ← terminatedEq] at digits
  obtain ⟨pos, place⟩ : ∃ pos, length - 1 - (numeral hexGlyph 16 n).length = pos + 2 :=
    ⟨length - 1 - (numeral hexGlyph 16 n).length - 2, by omega⟩
  rw [place] at digits
  simp only [Nat.cast_ofNat] at digits
  have first : ((pos + 2 : Nat) : Int) - 1 = (pos + 1 : Nat) := by omega
  have second : ((pos + 2 : Nat) : Int) - 2 = (pos : Nat) := by omega
  rw [hexText, digits]
  dsimp only
  rw [first, second, storeFilled, Option.bind_some, storeFilled, Option.bind_some]
  exact cStringFilled (literalPlain (hexNumeralLiteral n))

theorem amountLiteral {text : Chars} (literal : Literal text) : amount text = text := by
  cases text with
  | nil => rfl
  | cons c rest =>
    have all : ∀ x ∈ rest, x ≠ percent := fun x mem => (literal x (List.mem_cons_of_mem _ mem)).1
    rw [amount, List.takeWhile_eq_self_iff.mpr (by simpa using all)]

theorem printfLiteral {text : Chars} (literal : Literal text) (filled : text ≠ []) (short : text.length ≤ INT_MAX) :
    printfPlain text = some (text, (text.length : Int)) := by
  obtain ⟨c, rest, rfl⟩ := List.exists_cons_of_ne_nil filled
  have notPercent : c ≠ percent := (literal c (by simp)).1
  have whole := amountLiteral literal
  rw [printfPlain, List.length_cons]
  conv_lhs => unfold printfLoop
  simp only [notPercent, ne_eq, not_false_eq_true, true_or, if_true, if_false, whole, Nat.sub_zero,
    List.drop_length, Nat.zero_add, List.nil_append]
  rw [if_neg (by omega)]
  simp [printfLoop]

theorem printTextLiteral {text : Chars} (literal : Literal text) (filled : text ≠ []) (short : text.length ≤ INT_MAX) :
    printText printfPlain (some text) = some (text, true) := by
  have fine : (text.length : Int) ≠ -1 := by omega
  simp [printText, printfLiteral literal filled short, fine]

inductive Value where
  | d (value : BitVec 32)
  | l (value : BitVec 64)
  | u (value : BitVec 64)
  | x (value : BitVec 64)

def Value.spec : Value → BitVec 8
  | .d _ => 0x64#8
  | .l _ => 0x6c#8
  | .u _ => 0x75#8
  | .x _ => 0x78#8

def Value.arg : Value → Arg
  | .d value => .int value
  | .l value => .longLong value
  | .u value => .longLong value
  | .x value => .longLong value

def Signed (text : Chars) (val : Int) : Prop :=
  if val < 0 then ∃ digits, text = minus :: digits ∧ Shortest decimalDigit 10 digits val.natAbs
  else Shortest decimalDigit 10 text val.natAbs

def Value.Numeral (v : Value) (text : Chars) : Prop :=
  match v with
  | .d value => Signed text value.toInt
  | .l value => Signed text value.toInt
  | .u value => Shortest decimalDigit 10 text value.toNat
  | .x value => ∃ digits, text = 0x30#8 :: 0x78#8 :: digits ∧ Shortest hexDigit 16 digits value.toNat

def Value.text : Value → Chars
  | .d value => signedNumeral value.toInt
  | .l value => signedNumeral value.toInt
  | .u value => numeral digitChar 10 value.toNat
  | .x value => hexNumeral value.toNat

/- Wherever its conversion stands in a format, with room for one more character, the numeral of the
value is printed and printf goes on behind the conversion. -/
def Prints (v : Value) : Prop :=
  ∃ text, v.Numeral text ∧ ∀ left format args written out, written < INT_MAX →
    printfLoop printfPlain (left + 1) (percent :: v.spec :: format) (v.arg :: args) written out =
      printfLoop printfPlain left format args (written + 1) (out ++ text)

def Negatable : Value → Prop
  | .d value => value ≠ BitVec.intMin 32
  | .l value => value ≠ BitVec.intMin 64
  | .u _ => True
  | .x _ => True

theorem signedSigned (val : Int) : Signed (signedNumeral val) val := by
  have shortest := numeralShortest decimalGlyphs (by decide) val.natAbs
  unfold Signed signedNumeral
  split
  · exact ⟨_, rfl, shortest⟩
  · exact shortest

theorem signedFilled (val : Int) : signedNumeral val ≠ [] := by
  have filled := readNonempty (numeralShortest decimalGlyphs (by decide) val.natAbs).reads
  unfold signedNumeral
  split
  · simp
  · exact filled

theorem signedShort {val : Int} (below : val.natAbs < 10 ^ 19) :
    (signedNumeral val).length ≤ INT_MAX := by
  have length := numeralLength digitChar (by decide) below (by decide)
  have limit : INT_MAX = 2 ^ 31 - 1 := rfl
  unfold signedNumeral
  split <;> simp <;> omega

theorem textNumeral (v : Value) : v.Numeral v.text := by
  cases v with
  | d value => exact signedSigned _
  | l value => exact signedSigned _
  | u value => exact numeralShortest decimalGlyphs (by decide) _
  | x value => exact ⟨_, rfl, numeralShortest hexGlyphs (by decide) _⟩

theorem printSigned {bits length digits : Nat} {val : Int} (below : val.natAbs < 10 ^ digits) (filled : 0 < digits)
    (few : digits ≤ 19) (room : digits + 2 ≤ length) :
    printText printfPlain (signedText bits length val) =
      if val < 0 ∧ 2 ^ (bits - 1) ≤ -val then none else some (signedNumeral val, true) := by
  have count := numeralLength digitChar (by decide) below filled
  have small : val.natAbs < 10 ^ 19 := Nat.lt_of_lt_of_le below (Nat.pow_le_pow_right (by decide) few)
  rw [signedTextEq (by omega)]
  split
  · rfl
  · exact printTextLiteral (signedLiteral _) (signedFilled _) (signedShort small)

theorem leastInt {w : Nat} (wide : 0 < w) (value : BitVec w) :
    value = BitVec.intMin w ↔ value.toInt < 0 ∧ 2 ^ (w - 1) ≤ -value.toInt := by
  have range' := BitVec.le_toInt (x := value)
  have positive : (0 : Int) < 2 ^ (w - 1) := by positivity
  rw [← BitVec.toInt_inj, BitVec.toInt_intMin_of_pos wide]
  omega

theorem convertValue (v : Value) {maxrem : Nat} (room : maxrem ≠ 0) (args : List Arg) :
    (Negatable v → convert printfPlain maxrem v.spec (v.arg :: args) = some ((v.text, true), args)) ∧
      (¬ Negatable v → convert printfPlain maxrem v.spec (v.arg :: args) = none) := by
  cases v with
  | d value =>
    have range := BitVec.toInt_lt (x := value)
    have range' := BitVec.le_toInt (x := value)
    have small : value.toInt.natAbs < 10 ^ 10 := by omega
    have printed := @printSigned 32 13 _ _ small (by decide) (by decide) (by decide)
    have least := leastInt (by decide) value
    constructor
    · intro fine
      rw [if_neg (fun edge => fine (least.mpr edge))] at printed
      simp [convert, Value.spec, Value.arg, unlessFull, room, print_decimal, printed, Value.text]
    · intro edge
      rw [if_pos (least.mp (not_not.mp edge))] at printed
      simp [convert, Value.spec, Value.arg, unlessFull, room, print_decimal, printed]
  | l value =>
    have range := BitVec.toInt_lt (x := value)
    have range' := BitVec.le_toInt (x := value)
    have small : value.toInt.natAbs < 10 ^ 19 := by omega
    have printed := @printSigned 64 22 _ _ small (by decide) (by decide) (by decide)
    have least := leastInt (by decide) value
    constructor
    · intro fine
      rw [if_neg (fun edge => fine (least.mpr edge))] at printed
      simp [convert, Value.spec, Value.arg, unlessFull, room, print_decimal_64, printed, Value.text]
    · intro edge
      rw [if_pos (least.mp (not_not.mp edge))] at printed
      simp [convert, Value.spec, Value.arg, unlessFull, room, print_decimal_64, printed]
  | u value =>
    have below := value.isLt
    have small : value.toNat < 10 ^ 20 := by omega
    have length := numeralLength digitChar (by decide) small (by decide)
    have limit : INT_MAX = 2 ^ 31 - 1 := rfl
    have shortest := numeralShortest decimalGlyphs (by decide) value.toNat
    have printed := printTextLiteral (decimalLiteral value.toNat) (readNonempty shortest.reads) (by omega)
    have text := @unsignedTextEq 22 value.toNat (by omega)
    refine ⟨fun _ => ?_, fun edge => absurd trivial edge⟩
    simp [convert, Value.spec, Value.arg, unlessFull, room, print_unsigned_decimal_64, text, printed, Value.text]
  | x value =>
    have below := value.isLt
    have small : value.toNat < 16 ^ 16 := by omega
    have length := numeralLength hexGlyph (by decide) small (by decide)
    have limit : INT_MAX = 2 ^ 31 - 1 := rfl
    have printed := printTextLiteral (hexNumeralLiteral value.toNat) (by simp [hexNumeral])
      (by simp [hexNumeral]; omega)
    have text := @hexTextEq 22 value.toNat (by omega)
    refine ⟨fun _ => ?_, fun edge => absurd trivial edge⟩
    simp [convert, Value.spec, Value.arg, unlessFull, room, print_hex_64, text, printed, Value.text]

theorem specCases (v : Value) : v.spec ≠ percent ∧ v.spec ≠ 0x73#8 ∧ counted v.spec = true := by
  cases v <;> simp only [Value.spec] <;> decide

theorem loopAtValue (v : Value) (left : Nat) (format : Chars) (args : List Arg) (written : Nat) (out : Chars) :
    printfLoop printfPlain (left + 1) (percent :: v.spec :: format) (v.arg :: args) written out =
      match convert printfPlain (INT_MAX - written) v.spec (v.arg :: args) with
      | none => none
      | some ((text, ok), args) =>
        if ok then printfLoop printfPlain left format args (written + 1) (out ++ text) else some (out ++ text, -1) := by
  obtain ⟨plain, notString, isCounted⟩ := specCases v
  conv_lhs => unfold printfLoop
  simp [plain, notString, isCounted]

/-- A value prints as its shortest numeral, inside the local buffers, exactly when it is not the least
number of its signed type. -/
theorem printsIff (v : Value) : Prints v ↔ Negatable v := by
  constructor
  · rintro ⟨text, -, loop⟩
    by_contra edge
    have goes := loop 1 [] [] 0 [] (by decide)
    rw [loopAtValue, (convertValue v (by decide) []).2 edge] at goes
    cases goes
  · intro fine
    refine ⟨v.text, textNumeral v, fun left format args written out room => ?_⟩
    rw [loopAtValue, (convertValue v (by omega) args).1 fine]
    rfl

/- `printf("%d", INT_MIN)`. -/
theorem printsLeastInt : printf [percent, 0x64#8] [.int 0x80000000#32] = none ∧ ¬ Prints (.d 0x80000000#32) := by
  refine ⟨by decide, ?_⟩
  rintro ⟨text, -, loop⟩
  have goes := loop 1 [] [] 0 [] (by decide)
  have stuck : printfLoop printfPlain 2 [percent, 0x64#8] [.int 0x80000000#32] 0 [] = none := by decide
  rw [Value.spec, Value.arg, stuck] at goes
  cases goes

end DimOS.Libc.Printf

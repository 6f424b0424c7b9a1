import DimOS.Libc.Printf

/-! The whole of printf: a format is a list of tokens, characters that print as they stand and conversions with
their arguments, and behind them nothing or a percent sign that begins no conversion. The loop, which prints runs
of characters at once, prints the text of the tokens one after the other. -/
namespace DimOS.Libc.Printf
open Cpp.Containers (Chars)

inductive Token where
  | plain (c : BitVec 8)
  | escape
  | char (c : BitVec 32)
  | string (str : Chars)
  | number (v : Value)

namespace Token

def source : Token → Chars
  | plain c => [c]
  | escape => [percent, percent]
  | char _ => [percent, 0x63#8]
  | string _ => [percent, 0x73#8]
  | number v => [percent, v.spec]

def args : Token → List Arg
  | plain _ => []
  | escape => []
  | char c => [.int c]
  | string str => [.string str]
  | number v => [v.arg]

def text : Token → Chars
  | plain c => [c]
  | escape => [percent]
  | char c => [c.setWidth 8]
  | string str => str
  | number v => v.text

/- What it adds to the value that printf returns: a number counts as one character. -/
def count : Token → Nat
  | string str => str.length
  | _ => 1

def Plain : Token → Prop
  | plain c => c ≠ percent
  | _ => True

def Printable : Token → Prop
  | number v => Negatable v
  | _ => True

end Token

def Unknown : Chars → Prop
  | [] => True
  | c :: rest => c = percent ∧ ∀ spec, rest.head? = some spec → spec ≠ percent ∧ spec ≠ 0x73#8 ∧ counted spec = false

def total (tokens : List Token) : Nat := (tokens.map Token.count).sum

theorem totalAppend (before tokens : List Token) : total (before ++ tokens) = total before + total tokens := by
  rw [total, List.map_append, List.sum_append, total, total]

theorem amountRun (c : BitVec 8) {run behind : Chars} (plain : ∀ x ∈ run, x ≠ percent)
    (stop : ∀ x, behind.head? = some x → x = percent) : amount (c :: (run ++ behind)) = c :: run := by
  rw [amount, List.takeWhile_append_of_pos (by simpa using plain)]
  cases behind with
  | nil => simp
  | cons x rest =>
    rw [stop x rfl]
    simp

section loop
variable {printed : Chars → Option (Chars × Int)} {left written : Nat} {format out : Chars} {args : List Arg}

theorem loopRun {c : BitVec 8} {run behind : Chars} (shape : format = c :: (run ++ behind) ∧ c ≠ percent ∨
      format = percent :: c :: (run ++ behind) ∧ c = percent)
    (plain : ∀ x ∈ run, x ≠ percent) (stop : ∀ x, behind.head? = some x → x = percent)
    (room : written + (run.length + 1) ≤ INT_MAX) :
    printfLoop printed (left + 1) format args written out =
      printfLoop printed left behind args (written + (run.length + 1)) (out ++ c :: run) := by
  have amounts := amountRun c plain stop
  have fits : ¬ INT_MAX - written < run.length + 1 := by omega
  have dropped : (c :: (run ++ behind)).drop (run.length + 1) = behind := by
    rw [List.drop_succ_cons, List.drop_left]
  rcases shape with ⟨rfl, other⟩ | ⟨rfl, rfl⟩
  · conv_lhs => unfold printfLoop
    simp only [ne_eq, other, not_false_eq_true, true_or, if_true, if_false, amounts, List.length_cons, fits, dropped]
  · conv_lhs => unfold printfLoop
    simp only [ne_eq, not_true_eq_false, List.head?_cons, or_true, if_true, amounts, List.length_cons, fits, if_false,
      dropped]

theorem loopChar (c : BitVec 32) (room : written < INT_MAX) :
    printfLoop printed (left + 1) (percent :: 0x63#8 :: format) (.int c :: args) written out =
      printfLoop printed left format args (written + 1) (out ++ [c.setWidth 8]) := by
  have spec : (0x63#8 : BitVec 8) ≠ percent ∧ (0x63#8 : BitVec 8) ≠ 0x73#8 ∧ counted 0x63#8 = true := by decide
  conv_lhs => unfold printfLoop
  simp [spec, convert, unlessFull, show INT_MAX - written ≠ 0 by omega]

theorem loopString (str : Chars) (room : written + str.length ≤ INT_MAX) :
    printfLoop printed (left + 1) (percent :: 0x73#8 :: format) (.string str :: args) written out =
      printfLoop printed left format args (written + str.length) (out ++ str) := by
  have spec : (0x73#8 : BitVec 8) ≠ percent := by decide
  conv_lhs => unfold printfLoop
  simp [spec, show ¬ INT_MAX - written < str.length by omega]

theorem loopUnknown {rest : Chars} (unknown : Unknown rest) (fuel : rest.length < left)
    (room : written + rest.length ≤ INT_MAX) :
    printfLoop printed left rest args written out = some (out ++ rest, ((written + rest.length : Nat) : Int)) := by
  obtain ⟨left, rfl⟩ : ∃ more, left = more + 1 := ⟨left - 1, by omega⟩
  have ended : ∀ {w o}, 0 < left → printfLoop printed left [] args w o = some (o, (w : Int)) := by
    intro w o some'
    obtain ⟨more, rfl⟩ : ∃ more, left = more + 1 := ⟨left - 1, by omega⟩
    rfl
  cases rest with
  | nil => simp [printfLoop]
  | cons c rest =>
    obtain ⟨rfl, specs⟩ := unknown
    rw [List.length_cons] at fuel room
    cases rest with
    | nil =>
      rw [List.length_nil] at fuel room
      conv_lhs => unfold printfLoop
      simp [show ¬ INT_MAX - written < 1 by omega, ended (show 0 < left by omega)]
    | cons spec rest =>
      obtain ⟨plain, notString, isUnknown⟩ := specs spec rfl
      rw [List.length_cons] at fuel room
      conv_lhs => unfold printfLoop
      simp [plain, notString, isUnknown, show ¬ INT_MAX - written < rest.length + 1 + 1 by omega,
        ended (show 0 < left by omega)]

end loop

/- What the loop makes of the tokens that are left, and of what is behind them. -/
def Outcome (tokens : List Token) (behind : Chars) (written : Nat) (out : Chars) (result : Option (Chars × Int)) : Prop :=
  ((∀ t ∈ tokens, t.Printable) → result =
      some (out ++ (tokens.flatMap Token.text ++ behind), ((written + (total tokens + behind.length) : Nat) : Int))) ∧
    (¬ (∀ t ∈ tokens, t.Printable) → result = none)

theorem Outcome.append {before tokens : List Token} {behind out : Chars} {written : Nat} {result : Option (Chars × Int)}
    (printable : ∀ t ∈ before, t.Printable)
    (h : Outcome tokens behind (written + total before) (out ++ before.flatMap Token.text) result) :
    Outcome (before ++ tokens) behind written out result := by
  have sum := totalAppend before tokens
  have all : (∀ t ∈ before ++ tokens, t.Printable) ↔ ∀ t ∈ tokens, t.Printable := by
    rw [List.forall_mem_append]
    exact and_iff_right printable
  unfold Outcome at h ⊢
  rw [all, sum, List.flatMap_append, ← Nat.add_assoc, ← Nat.add_assoc, Nat.add_assoc _ (total tokens)]
  simpa only [List.append_assoc] using h

theorem leading (tokens : List Token) :
    ∃ (run : Chars) (rest : List Token), tokens = run.map Token.plain ++ rest ∧ ∀ c, rest.head? ≠ some (.plain c) := by
  induction tokens with
  | nil => exact ⟨[], [], rfl, fun c => by simp⟩
  | cons t tokens ih =>
    obtain ⟨run, rest, shape, stop⟩ := ih
    cases t with
    | plain c => exact ⟨c :: run, rest, by rw [shape]; rfl, stop⟩
    | escape => exact ⟨[], _, rfl, fun c => by simp⟩
    | char value => exact ⟨[], _, rfl, fun c => by simp⟩
    | string str => exact ⟨[], _, rfl, fun c => by simp⟩
    | number v => exact ⟨[], _, rfl, fun c => by simp⟩

theorem stopsRun {tokens : List Token} {behind : Chars} (stop : ∀ c, tokens.head? ≠ some (.plain c))
    (unknown : Unknown behind) : ∀ x, (tokens.flatMap Token.source ++ behind).head? = some x → x = percent := by
  intro x head
  cases tokens with
  | nil =>
    cases behind with
    | nil => cases head
    | cons c rest =>
      cases head
      exact unknown.1
  | cons t tokens =>
    cases t with
    | plain c => exact absurd rfl (stop c)
    | escape => exact (Option.some.inj head).symm
    | char value => exact (Option.some.inj head).symm
    | string str => exact (Option.some.inj head).symm
    | number v => exact (Option.some.inj head).symm

theorem runFacts (run : Chars) :
    total (run.map Token.plain) = run.length ∧ (run.map Token.plain).flatMap Token.text = run ∧
      (run.map Token.plain).flatMap Token.source = run ∧ (run.map Token.plain).flatMap Token.args = [] := by
  induction run with
  | nil => exact ⟨rfl, rfl, rfl, rfl⟩
  | cons c run ih =>
    obtain ⟨count, text, source, args⟩ := ih
    refine ⟨?_, congrArg (c :: ·) text, congrArg (c :: ·) source, args⟩
    unfold total at *
    simp only [List.map_cons, List.sum_cons, count, List.length_cons, Token.count]
    omega

theorem loopTokens {tokens : List Token} {behind : Chars} (plain : ∀ t ∈ tokens, t.Plain) (unknown : Unknown behind)
    {left written : Nat} (out : Chars) (more : List Arg)
    (fuel : (tokens.flatMap Token.source ++ behind).length < left)
    (room : written + (total tokens + behind.length) ≤ INT_MAX) :
    Outcome tokens behind written out (printfLoop printfPlain left (tokens.flatMap Token.source ++ behind)
      (tokens.flatMap Token.args ++ more) written out) := by
  induction size : tokens.length using Nat.strong_induction_on generalizing tokens left written out with
  | h n ih =>
  -- a round of the loop that prints the first tokens
  have round : ∀ before rest : List Token, tokens = before ++ rest → before ≠ [] → (∀ t ∈ before, t.Printable) →
      (∀ l, printfLoop printfPlain (l + 1) (before.flatMap Token.source ++ (rest.flatMap Token.source ++ behind))
          (before.flatMap Token.args ++ (rest.flatMap Token.args ++ more)) written out =
        printfLoop printfPlain l (rest.flatMap Token.source ++ behind) (rest.flatMap Token.args ++ more)
          (written + total before) (out ++ before.flatMap Token.text)) →
      Outcome tokens behind written out (printfLoop printfPlain left (tokens.flatMap Token.source ++ behind)
        (tokens.flatMap Token.args ++ more) written out) := by
    rintro before rest rfl some' printable goes
    obtain ⟨l, rfl⟩ : ∃ l, left = l + 1 := ⟨left - 1, by omega⟩
    obtain ⟨t, before', rfl⟩ := List.exists_cons_of_ne_nil some'
    have filled : 0 < ((t :: before').flatMap Token.source).length := by
      cases t <;> simp [Token.source]
    have sum := totalAppend (t :: before') rest
    rw [List.flatMap_append, List.append_assoc, List.length_append] at fuel
    rw [List.length_append, List.length_cons] at size
    rw [List.flatMap_append, List.flatMap_append, List.append_assoc, List.append_assoc, goes l]
    apply Outcome.append printable
    refine ih rest.length (by omega) (fun t mem => plain t (List.mem_append_right _ mem)) _ ?_ ?_ rfl
    · omega
    · omega
  cases tokens with
  | nil =>
    have tail := @loopUnknown printfPlain left written out more behind unknown fuel (by simpa [total] using room)
    refine ⟨fun _ => ?_, fun none => absurd (by simp) none⟩
    simpa [total] using tail
  | cons t tokens =>
    obtain ⟨run, rest, shape, stop⟩ := leading tokens
    obtain ⟨count, text, source, args⟩ := runFacts run
    have ends := stopsRun stop unknown
    have inRun : ∀ x ∈ run, x ≠ percent := fun x mem => plain (.plain x) (by rw [shape]; simp [mem])
    have easy : ∀ t ∈ run.map Token.plain, t.Printable := by
      intro t mem
      obtain ⟨x, -, rfl⟩ := List.mem_map.mp mem
      exact trivial
    have length : total (t :: tokens) = t.count + total tokens := rfl
    have short : total tokens = run.length + total rest := by
      rw [shape, totalAppend, count]
    have mine : total [t] = t.count := by simp [total]
    -- the run is printed with the token in front of it
    have runs : ∀ c, t.text = [c] → t.count = 1 → t.args = [] → (t.source = [c] ∧ c ≠ percent ∨
        t.source = [percent, c] ∧ c = percent) → t.Printable →
        Outcome (t :: tokens) behind written out (printfLoop printfPlain left
          ((t :: tokens).flatMap Token.source ++ behind) ((t :: tokens).flatMap Token.args ++ more) written out) := by
      intro c shown one none spelled printable
      refine round (t :: run.map Token.plain) rest (by rw [shape]; rfl) (by simp)
        (List.forall_mem_cons.mpr ⟨printable, easy⟩) (fun l => ?_)
      have together : total (t :: run.map Token.plain) = run.length + 1 := by
        rw [show total (t :: run.map Token.plain) = t.count + total (run.map Token.plain) from rfl, count, one,
          Nat.add_comm]
      rw [together, List.flatMap_cons, List.flatMap_cons, List.flatMap_cons, text, source, args, shown, none]
      refine loopRun (c := c) ?_ inRun ends (by omega)
      rcases spelled with ⟨spelled, other⟩ | ⟨spelled, same⟩
      · exact .inl ⟨by rw [spelled]; simp, other⟩
      · exact .inr ⟨by rw [spelled]; simp, same⟩
    cases t with
    | plain c => exact runs c rfl rfl rfl (.inl ⟨rfl, plain (.plain c) (by simp)⟩) trivial
    | escape => exact runs percent rfl rfl rfl (.inr ⟨rfl, rfl⟩) trivial
    | char value =>
      refine round [.char value] tokens rfl (by simp) (by simp [Token.Printable]) (fun l => ?_)
      have one : (Token.char value).count = 1 := rfl
      rw [mine, one]
      exact loopChar value (by omega)
    | string str =>
      refine round [.string str] tokens rfl (by simp) (by simp [Token.Printable]) (fun l => ?_)
      have chars : (Token.string str).count = str.length := rfl
      have goes := @loopString printfPlain l written (tokens.flatMap Token.source ++ behind) out
        (tokens.flatMap Token.args ++ more) str (by omega)
      rw [mine, chars]
      simpa [Token.source, Token.args, Token.text] using goes
    | number v =>
      have one : (Token.number v).count = 1 := rfl
      have inside : INT_MAX - written ≠ 0 := by omega
      by_cases fine : Negatable v
      · refine round [.number v] tokens rfl (by simp) (by simpa [Token.Printable] using fine) (fun l => ?_)
        rw [mine, one]
        have goes := loopAtValue v l (tokens.flatMap Token.source ++ behind) (tokens.flatMap Token.args ++ more) written out
        rw [(convertValue v inside _).1 fine] at goes
        simpa [Token.source, Token.args, Token.text] using goes
      · obtain ⟨l, rfl⟩ : ∃ l, left = l + 1 := ⟨left - 1, by omega⟩
        have goes := loopAtValue v l (tokens.flatMap Token.source ++ behind) (tokens.flatMap Token.args ++ more) written out
        rw [(convertValue v inside _).2 fine] at goes
        exact ⟨fun all => absurd (all (.number v) (by simp)) fine, fun _ => goes⟩

structure Reads (format : Chars) (tokens : List Token) (behind : Chars) : Prop where
  source : format = tokens.flatMap Token.source ++ behind
  plain : ∀ t ∈ tokens, t.Plain
  unknown : Unknown behind

theorem everyFormat (format : Chars) : ∃ tokens behind, Reads format tokens behind := by
  induction size : format.length using Nat.strong_induction_on generalizing format with
  | h n ih =>
  have follows : ∀ (t : Token) (rest : Chars), format = t.source ++ rest → t.Plain →
      ∃ tokens behind, Reads format tokens behind := by
    rintro t rest rfl plain
    have shorter : rest.length < n := by
      rw [← size]
      cases t <;> simp [Token.source]
    obtain ⟨tokens, behind, shape, plains, unknown⟩ := ih rest.length shorter rest rfl
    refine ⟨t :: tokens, behind, ⟨?_, List.forall_mem_cons.mpr ⟨plain, plains⟩, unknown⟩⟩
    rw [List.flatMap_cons, List.append_assoc, ← shape]
  cases format with
  | nil => exact ⟨[], [], ⟨rfl, by simp, trivial⟩⟩
  | cons c rest =>
    by_cases isPercent : c = percent
    · subst isPercent
      cases rest with
      | nil => exact ⟨[], [percent], ⟨rfl, by simp, rfl, by simp⟩⟩
      | cons spec rest =>
        by_cases escaped : spec = percent
        · exact follows .escape rest (by rw [escaped]; rfl) trivial
        by_cases isString : spec = 0x73#8
        · exact follows (.string []) rest (by rw [isString]; rfl) trivial
        by_cases known : counted spec = true
        · simp only [counted, Bool.or_eq_true, beq_iff_eq] at known
          rcases known with (((rfl | rfl) | rfl) | rfl) | rfl
          · exact follows (.char 0#32) rest rfl trivial
          · exact follows (.number (.d 0#32)) rest rfl trivial
          · exact follows (.number (.l 0#64)) rest rfl trivial
          · exact follows (.number (.u 0#64)) rest rfl trivial
          · exact follows (.number (.x 0#64)) rest rfl trivial
        refine ⟨[], percent :: spec :: rest, ⟨rfl, by simp, rfl, ?_⟩⟩
        rintro spec' head
        cases head
        exact ⟨escaped, isString, by simpa using known⟩
    · exact follows (.plain c) rest rfl isPercent

/-- Every format is read as tokens, and behind them nothing or a percent sign without a conversion. With the
arguments of the tokens, whatever others come behind, printf prints the texts of the tokens and the rest of the
format as it stands, and returns how many characters that is, each number taken for one, unless that is more than
an int holds. It is undefined exactly when a number is the least one of its signed type. -/
theorem printfFormats (format : Chars) :
    (∃ tokens behind, Reads format tokens behind) ∧
      ∀ tokens behind more, Reads format tokens behind → total tokens + behind.length ≤ INT_MAX →
        Outcome tokens behind 0 [] (printf format (tokens.flatMap Token.args ++ more)) := by
  refine ⟨everyFormat format, ?_⟩
  rintro tokens behind more ⟨rfl, plain, unknown⟩ room
  exact loopTokens plain unknown [] more (Nat.lt_succ_self _) (by rwa [Nat.zero_add])

/- `printf("n=%d%%%q", 42)`: seven characters, and six is returned. -/
theorem printfFormatsSample :
    printf ("n=%d%%%q".toList.map fun c => BitVec.ofNat 8 c.toNat) [.int 42#32] =
      some ("n=42%%q".toList.map fun c => BitVec.ofNat 8 c.toNat, 6) := by
  have goes := ((printfFormats ("n=%d%%%q".toList.map fun c => BitVec.ofNat 8 c.toNat)).2
    [.plain 0x6e#8, .plain 0x3d#8, .number (.d 42#32), .escape] [percent, 0x71#8] []
    ⟨by decide, by simp [Token.Plain, percent], by simp [Unknown, percent, counted]⟩ (by decide)).1
    (by simp [Token.Printable, Negatable]; decide)
  exact goes.trans (by decide)

end DimOS.Libc.Printf

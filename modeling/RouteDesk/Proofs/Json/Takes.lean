import RouteDesk.Json.Reader
import RouteDesk.Json.Printer
import Mathlib.Tactic

/-! Reading what was written. An action takes some bytes if it reads exactly them, whatever its
cursor has counted so far; actions in a row take their bytes in a row.
-/

namespace RouteDesk.Json

/-- The feed of some bytes with another feed behind them. -/
def Feed.after (bytes : Bytes) (rest : Feed) : Feed :=
  bytes.foldr .byte rest

@[simp]
theorem Feed.after_nil (rest : Feed) : Feed.after [] rest = rest := rfl

@[simp]
theorem Feed.after_cons (byte : UInt8) (bytes : Bytes) (rest : Feed)
    : Feed.after (byte :: bytes) rest = .byte byte (Feed.after bytes rest) := rfl

theorem Feed.after_append (front back : Bytes) (rest : Feed)
    : Feed.after (front ++ back) rest = Feed.after front (Feed.after back rest) := by
  simp [Feed.after]

theorem Feed.size_after (bytes : Bytes) (rest : Feed)
    : (Feed.after bytes rest).size = bytes.length + rest.size := by
  induction bytes with
  | nil => simp
  | cons byte bytes ih =>
      simp only [Feed.after_cons, Feed.size, ih, List.length_cons]
      omega

namespace Reading

/-- The action reads exactly the bytes in front of the rest, and answers the value. -/
def Takes {α : Type} (action : Reading α) (bytes : Bytes) (value : α) (rest : Feed) : Prop :=
  ∀ taken peeked, ∃ count looked,
    action ⟨Feed.after bytes rest, taken, peeked⟩ = .ok value ⟨rest, count, looked⟩

-----------------------------------------------------------------------------------------
-- Single steps
-----------------------------------------------------------------------------------------

namespace Takes

variable {α β : Type} {action : Reading α} {next : α → Reading β} {front back : Bytes}
  {middle : α} {value : β} {rest : Feed}

theorem pure (value : α) (rest : Feed)
    : Takes (Pure.pure value) [] value rest :=
  fun taken peeked => ⟨taken, peeked, rfl⟩

theorem bind (first : Takes action front middle (Feed.after back rest))
    (second : Takes (next middle) back value rest)
    : Takes (action >>= next) (front ++ back) value rest := by
  intro taken peeked
  obtain ⟨count, looked, reached⟩ := first taken peeked
  obtain ⟨total, seen, finished⟩ := second count looked
  refine ⟨total, seen, ?_⟩
  change EStateM.bind action next _ = _
  rw [EStateM.bind, Feed.after_append, reached]
  exact finished

/-- A last action whose answer is passed on. -/
theorem returning (finish : α → β) (first : Takes action front middle rest)
    : Takes (action >>= fun answer => Pure.pure (finish answer)) front (finish middle) rest := by
  intro taken peeked
  obtain ⟨count, looked, reached⟩ := first taken peeked
  refine ⟨count, looked, ?_⟩
  change EStateM.bind action _ _ = _
  rw [EStateM.bind, reached]
  rfl

/-- A first action that reads one byte. -/
theorem step {byte : UInt8} (first : Takes action [byte] middle (Feed.after back rest))
    (second : Takes (next middle) back value rest)
    : Takes (action >>= next) (byte :: back) value rest :=
  bind first second

/-- A first action that only looks. -/
theorem look (first : Takes action [] middle (Feed.after back rest))
    (second : Takes (next middle) back value rest)
    : Takes (action >>= next) back value rest :=
  bind first second

end Takes

theorem takes_peek (byte : UInt8) (rest : Feed)
    : Takes peek [] (some byte) (.byte byte rest) :=
  fun taken _ => ⟨taken, true, rfl⟩

theorem takes_skip (byte : UInt8) (rest : Feed)
    : Takes skip [byte] () rest :=
  fun taken _ => ⟨taken + 1, false, rfl⟩

theorem takes_takeOr (refusal : Refusal) (byte : UInt8) (rest : Feed)
    : Takes (takeOr refusal) [byte] byte rest :=
  fun taken _ => ⟨taken + 1, false, rfl⟩

theorem takes_bound (rest : Feed)
    : Takes bound [] (rest.size + 1) rest :=
  fun taken peeked => ⟨taken, peeked, rfl⟩

/-- Blanks are passed over, by induction on them. -/
theorem takes_peekToken {blanks : Bytes} (blank : ∀ byte ∈ blanks, isBlank byte = true)
    {next : UInt8} (token : isBlank next = false) (rest : Feed)
    : Takes peekToken blanks (some next) (.byte next rest) := by
  have hgo (taken : Nat) : ∃ count looked,
      peekToken.go (Feed.after blanks (.byte next rest)) taken
        = .ok (some next) ⟨.byte next rest, count, looked⟩ := by
    induction blanks generalizing taken with
    | nil =>
        refine ⟨taken, true, ?_⟩
        rw [Feed.after_nil, peekToken.go, token]
        rfl
    | cons byte blanks ih =>
        obtain ⟨first, later⟩ := List.forall_mem_cons.mp blank
        obtain ⟨count, looked, reached⟩ := ih later (taken + 1)
        refine ⟨count, looked, ?_⟩
        rw [Feed.after_cons, peekToken.go, if_pos first, reached]
  exact fun taken _ => hgo taken

/-- Where no blanks are expected. -/
theorem takes_peekToken_nil {next : UInt8} (token : isBlank next = false) (rest : Feed)
    : Takes peekToken [] (some next) (.byte next rest) :=
  takes_peekToken (by simp) token rest

theorem takes_word (bytes : Bytes) (rest : Feed)
    : Takes (word bytes) bytes () rest := by
  induction bytes with
  | nil => exact .pure () rest
  | cons byte bytes ih =>
      rw [word]
      refine .step (takes_takeOr _ _ _) ?_
      rw [if_pos rfl]
      exact ih

-----------------------------------------------------------------------------------------
-- Whole numbers
-----------------------------------------------------------------------------------------

/-- The byte of an ASCII character. -/
def byteOf (char : Char) : UInt8 :=
  char.toNat.toUInt8

theorem toNat_byteOf {char : Char} (digit : char.isDigit = true)
    : (byteOf char).toNat = char.toNat ∧ 48 ≤ char.toNat ∧ char.toNat ≤ 57 := by
  simp only [Char.isDigit, Bool.and_eq_true, decide_eq_true_eq, ge_iff_le,
    UInt32.le_iff_toNat_le] at digit
  have lower : 48 ≤ char.toNat := digit.1
  have upper : char.toNat ≤ 57 := digit.2
  refine ⟨?_, lower, upper⟩
  simp only [byteOf, Nat.toUInt8, UInt8.toNat_ofNat']
  omega

theorem isDigit_byteOf {char : Char} (digit : char.isDigit = true)
    : isDigit (byteOf char) = true := by
  obtain ⟨same, lower, upper⟩ := toNat_byteOf digit
  simp only [isDigit, Bool.and_eq_true, decide_eq_true_eq, UInt8.le_iff_toNat_le, same]
  exact ⟨lower, upper⟩

theorem le_ofDigitChars (chars : List Char) (start : Nat)
    : start ≤ Nat.ofDigitChars 10 chars start := by
  rw [Nat.ofDigitChars_eq_ofDigitChars_zero]
  have : 0 < 10 ^ chars.length := by positivity
  nlinarith

/-- A run of digits is read as its number if that is below the limit, by induction on the
digits.
-/
theorem takes_digits {limit start : Nat} {chars : List Char}
    (digit : ∀ char ∈ chars, char.isDigit = true)
    (below : Nat.ofDigitChars 10 chars start < limit)
    {next : UInt8} (ended : isDigit next = false) (rest : Feed)
    : Takes (digits limit start) (chars.map byteOf)
        ⟨Nat.ofDigitChars 10 chars start, chars.length, false⟩ (.byte next rest) := by
  have hgo (value taken count : Nat) (small : Nat.ofDigitChars 10 chars value < limit)
      : ∃ total looked,
          digits.go limit (Feed.after (chars.map byteOf) (.byte next rest)) taken value count
            = .ok ⟨Nat.ofDigitChars 10 chars value, count + chars.length, false⟩
                ⟨.byte next rest, total, looked⟩ := by
    clear below
    induction chars generalizing value taken count with
    | nil =>
        refine ⟨taken, true, ?_⟩
        rw [List.map_nil, Feed.after_nil, digits.go, ended]
        simp
    | cons char chars ih =>
        obtain ⟨first, later⟩ := List.forall_mem_cons.mp digit
        rw [Nat.ofDigitChars_cons] at small ⊢
        have hnext : value * 10 + ((byteOf char).toNat - 0x30)
            = 10 * value + (char.toNat - '0'.toNat) := by
          rw [(toNat_byteOf first).1, Nat.mul_comm]
          rfl
        have hsmall := lt_of_le_of_lt (le_ofDigitChars chars _) small
        obtain ⟨total, looked, reached⟩ := ih later _ (taken + 1) (count + 1) small
        refine ⟨total, looked, ?_⟩
        rw [List.map_cons, Feed.after_cons, digits.go, if_pos (isDigit_byteOf first)]
        dsimp only
        rw [hnext, if_pos hsmall, reached, List.length_cons, Nat.add_assoc, Nat.add_comm 1]
  intro taken peeked
  obtain ⟨total, looked, reached⟩ := hgo start taken 0 below
  exact ⟨total, looked, by rw [← Nat.zero_add chars.length]; exact reached⟩

theorem writeNat_eq (number : Nat)
    : writeNat number = (Nat.toDigits 10 number).map byteOf := rfl

/-- Only zero is written with a zero in front, by induction on the number. -/
theorem toDigits_eq_cons {number : Nat} (positive : 0 < number)
    : ∃ first chars, Nat.toDigits 10 number = first :: chars ∧ first ≠ '0' := by
  induction number using Nat.strong_induction_on with
  | _ number ih =>
      by_cases small : number < 10
      · refine ⟨number.digitChar, [], Nat.toDigits_of_lt_base small, ?_⟩
        interval_cases number <;> decide
      · obtain ⟨first, chars, split, nonzero⟩ := ih (number / 10) (by omega) (by omega)
        refine ⟨first, chars ++ Nat.toDigits 10 (number % 10), ?_, nonzero⟩
        rw [Nat.toDigits_of_base_le (by decide) (by omega), split]
        simp [Nat.toDigits_of_lt_base (Nat.mod_lt number (by decide : 0 < 10))]

theorem isDigit_toDigits {number : Nat} {char : Char} (member : char ∈ Nat.toDigits 10 number)
    : char.isDigit = true :=
  Nat.isDigit_of_mem_toDigits (by decide) (by decide) member

theorem begins_writeNat (number : Nat)
    : ∃ first tail, writeNat number = first :: tail ∧ isDigit first = true := by
  cases split : Nat.toDigits 10 number with
  | nil => exact absurd split Nat.toDigits_ne_nil
  | cons first chars =>
      have digit : first.isDigit = true := isDigit_toDigits (split ▸ List.mem_cons_self)
      exact ⟨_, _, by rw [writeNat_eq, split, List.map_cons], isDigit_byteOf digit⟩

/-- What may follow a value: a comma or a line break. -/
def Closing (byte : UInt8) : Prop :=
  byte = 0x2C ∨ byte = 0x0A

theorem Closing.isDigit_eq_false {byte : UInt8} (closing : Closing byte)
    : isDigit byte = false := by
  rcases closing with rfl | rfl <;> decide

/-- What the digits of a whole number become. -/
def wholeOf (positive : Bool) (number : Nat) : Json :=
  .integer (if positive then number else -number)

theorem takes_afterWhole {positive : Bool} {number : Nat} {byte : UInt8}
    (closing : Closing byte) (fits : positive = true ∨ 0 < number ∧ number ≤ 2 ^ 63)
    (rest : Feed)
    : Takes (afterWhole positive number) [] (wholeOf positive number) (.byte byte rest) := by
  refine .look (takes_peek _ _) ?_
  have plain : Takes
      (if positive then Pure.pure (.integer number)
        else if number = 0 then Pure.pure (.real (-0.0))
        else if number ≤ 0x8000000000000000 then Pure.pure (.integer (-number))
        else Pure.pure (.real (-number.toUInt64.toFloat)))
      [] (wholeOf positive number) (.byte byte rest) := by
    rcases fits with rfl | ⟨nonzero, fits⟩
    · exact .pure _ _
    · cases positive with
      | true => exact .pure _ _
      | false =>
          rw [if_neg (by decide), if_neg (Nat.pos_iff_ne_zero.mp nonzero),
            if_pos (by simpa using fits)]
          exact .pure _ _
  rcases closing with rfl | rfl <;> exact plain

/-- The digits of a whole part are read as a number; what follows them is read after it. -/
theorem takes_whole {positive : Bool} {whole : List Char} {back : Bytes} {value : Json}
    {rest : Feed} (digit : ∀ char ∈ whole, char.isDigit = true)
    (lead : ∃ first chars, whole = first :: chars ∧ (first = '0' → chars = []))
    (small : Nat.ofDigitChars 10 whole 0 < wordLimit)
    (ended : ∃ next more, Feed.after back rest = .byte next more ∧ isDigit next = false)
    (goesOn : Takes (afterWhole positive (Nat.ofDigitChars 10 whole 0)) back value rest)
    : Takes (Reading.number positive) (whole.map byteOf ++ back) value rest := by
  obtain ⟨first, chars, rfl, zero⟩ := lead
  obtain ⟨hfirst, hchars⟩ := List.forall_mem_cons.mp digit
  obtain ⟨same, -, -⟩ := toNat_byteOf hfirst
  obtain ⟨next, more, follows, notDigit⟩ := ended
  rw [Nat.ofDigitChars_cons, Nat.mul_zero, Nat.zero_add] at small goesOn
  by_cases isZero : first = '0'
  · obtain rfl := isZero
    obtain rfl := zero rfl
    refine .step (takes_takeOr _ _ _) ?_
    rw [if_pos (by decide)]
    have looks := takes_peek next more
    rw [← follows] at looks
    refine .look looks ?_
    simp only [notDigit]
    exact goesOn
  · have hstart : (byteOf first).toNat - 0x30 = first.toNat - '0'.toNat := by
      rw [same]
      rfl
    have notZero : byteOf first ≠ 0x30 := by
      intro same'
      refine isZero (Char.toNat_inj.mp ?_)
      rw [← same, same']
      rfl
    rw [List.map_cons]
    refine .step (takes_takeOr _ _ _) ?_
    rw [if_neg notZero, if_pos (isDigit_byteOf hfirst), hstart]
    have reads := takes_digits hchars small notDigit more
    rw [← follows] at reads
    exact .bind reads goesOn

/-- The digits of a number begin with a zero only if they are nothing else. -/
theorem toDigits_lead (number : Nat)
    : ∃ first chars, Nat.toDigits 10 number = first :: chars ∧ (first = '0' → chars = []) := by
  by_cases zero : number = 0
  · subst zero
    exact ⟨'0', [], rfl, fun _ => rfl⟩
  · obtain ⟨first, chars, split, nonzero⟩ := toDigits_eq_cons (Nat.pos_of_ne_zero zero)
    exact ⟨first, chars, split, fun same => absurd same nonzero⟩

/-- A whole number is read as it was written. -/
theorem takes_number {positive : Bool} {number : Nat} {byte : UInt8}
    (closing : Closing byte) (small : number < wordLimit)
    (fits : positive = true ∨ 0 < number ∧ number ≤ 2 ^ 63) (rest : Feed)
    : Takes (Reading.number positive) (writeNat number) (wholeOf positive number)
        (.byte byte rest) := by
  have same : Nat.ofDigitChars 10 (Nat.toDigits 10 number) 0 = number :=
    Nat.ofDigitChars_ten_toDigits
  rw [writeNat_eq, ← List.append_nil (List.map _ _)]
  refine takes_whole (fun _ => isDigit_toDigits) (toDigits_lead number) (by rwa [same])
    ⟨byte, rest, rfl, closing.isDigit_eq_false⟩ ?_
  rw [same]
  exact takes_afterWhole closing fits rest

-----------------------------------------------------------------------------------------
-- Strings
-----------------------------------------------------------------------------------------

/-- The bytes below a blank, which are written by their code points. -/
theorem codePoint_control
    : ∀ code < 32,
        hexValue? (hexDigit (code.toUInt8 / 16)) = some (code / 16)
        ∧ hexValue? (hexDigit (code.toUInt8 % 16)) = some (code % 16)
        ∧ encoded code = [code.toUInt8] := by
  decide +kernel

theorem takes_hexUnit {first second third fourth : UInt8} {a b c d : Nat}
    (h1 : hexValue? first = some a) (h2 : hexValue? second = some b)
    (h3 : hexValue? third = some c) (h4 : hexValue? fourth = some d) (rest : Feed)
    : Takes hexUnit [first, second, third, fourth] (((a * 16 + b) * 16 + c) * 16 + d) rest := by
  refine .step (takes_takeOr _ _ _) (.step (takes_takeOr _ _ _) ?_)
  refine .step (takes_takeOr _ _ _) (.step (takes_takeOr _ _ _) ?_)
  rw [h1, h2, h3, h4]
  exact .pure _ rest

/-- A byte is written as it is, unless it is a quote, a backslash or a control character, or
behind a backslash so that its escape is read as that byte.
-/
theorem escapeByte_spec (byte : UInt8)
    : escapeByte byte = [byte] ∧ byte ≠ 0x22 ∧ byte ≠ 0x5C ∧ ¬ byte < 0x20
      ∨ ∃ code, escapeByte byte = 0x5C :: code ∧ ∀ rest, Takes escape code [byte] rest := by
  unfold escapeByte
  split
  case h_1 => exact .inr ⟨_, rfl, fun rest => .step (takes_takeOr _ _ _) (.pure _ rest)⟩
  case h_2 => exact .inr ⟨_, rfl, fun rest => .step (takes_takeOr _ _ _) (.pure _ rest)⟩
  case h_3 => exact .inr ⟨_, rfl, fun rest => .step (takes_takeOr _ _ _) (.pure _ rest)⟩
  case h_4 => exact .inr ⟨_, rfl, fun rest => .step (takes_takeOr _ _ _) (.pure _ rest)⟩
  case h_5 => exact .inr ⟨_, rfl, fun rest => .step (takes_takeOr _ _ _) (.pure _ rest)⟩
  case h_6 => exact .inr ⟨_, rfl, fun rest => .step (takes_takeOr _ _ _) (.pure _ rest)⟩
  case h_7 => exact .inr ⟨_, rfl, fun rest => .step (takes_takeOr _ _ _) (.pure _ rest)⟩
  case h_8 notQuote notBackslash _ _ _ _ _ =>
    split
    case isTrue control =>
      have small : byte.toNat < 32 := UInt8.lt_iff_toNat_lt.mp control
      obtain ⟨high, low, meant⟩ := codePoint_control _ small
      have same : byte.toNat.toUInt8 = byte := UInt8.ofNat_toNat
      rw [same] at high low meant
      refine .inr ⟨_, rfl, fun rest => .step (takes_takeOr _ _ _) ?_⟩
      change Takes codePoint _ _ _
      have zero : hexValue? 0x30 = some 0 := by decide
      have unit : ((0 * 16 + 0) * 16 + byte.toNat / 16) * 16 + byte.toNat % 16 = byte.toNat := by
        omega
      have read := takes_hexUnit zero zero high low rest
      rw [unit] at read
      refine @Takes.bind _ _ _ _ _ [] _ _ _ read ?_
      rw [if_neg (by omega), if_pos (by omega), meant]
      exact .pure _ rest
    case isFalse plain => exact .inl ⟨rfl, notQuote, notBackslash, plain⟩

/-- A string body is read as it was written, by induction on its bytes; every byte takes one
step.
-/
theorem takes_stringBody {limit : Nat} {bytes : Bytes} (enough : bytes.length < limit)
    (front : Bytes) (rest : Feed)
    : Takes (stringBody limit front) (bytes.flatMap escapeByte ++ [0x22])
        (front.reverse ++ bytes) rest := by
  obtain ⟨limit, rfl⟩ := Nat.exists_eq_add_one.mpr (Nat.zero_lt_of_lt enough)
  induction bytes generalizing limit front with
  | nil =>
      rw [stringBody, List.append_nil]
      refine .step (takes_takeOr _ _ _) ?_
      rw [if_pos rfl]
      exact .pure _ rest
  | cons byte bytes ih =>
      rw [List.length_cons] at enough
      obtain ⟨limit, rfl⟩ := Nat.exists_eq_add_one.mpr (show 0 < limit by omega)
      have later := ih (byte :: front) limit (by omega)
      rw [List.reverse_cons, List.append_assoc] at later
      rw [stringBody, List.flatMap_cons, List.append_assoc]
      rcases escapeByte_spec byte with
        ⟨written, notQuote, notBackslash, plain⟩ | ⟨code, written, read⟩
      · rw [written]
        refine .step (takes_takeOr _ _ _) ?_
        rw [if_neg notQuote, if_neg notBackslash, if_neg plain]
        exact later
      · rw [written]
        refine .step (takes_takeOr _ _ _) ?_
        rw [if_neg (by decide), if_pos rfl]
        exact .bind (read _) later

theorem length_le_flatMap_escapeByte (bytes : Bytes)
    : bytes.length ≤ (bytes.flatMap escapeByte).length := by
  induction bytes with
  | nil => exact Nat.le_refl _
  | cons byte bytes ih =>
      have one : 1 ≤ (escapeByte byte).length := by
        rcases escapeByte_spec byte with ⟨written, -⟩ | ⟨code, written, -⟩ <;> simp [written]
      rw [List.flatMap_cons, List.length_append, List.length_cons]
      omega

/-- A string is read as it was written, from behind its opening quote. -/
theorem takes_string (text : String) (rest : Feed)
    : Takes string ((Bytes.ofText text).flatMap escapeByte ++ [0x22]) text rest := by
  refine .look (takes_bound _) ?_
  rw [← List.append_nil (List.flatMap _ _ ++ [0x22])]
  refine .bind (takes_stringBody ?_ [] _) ?_
  · have := length_le_flatMap_escapeByte (Bytes.ofText text)
    rw [Feed.size_after]
    simp only [List.append_nil, List.length_append, List.length_singleton]
    omega
  · rw [List.reverse_nil, List.nil_append, Bytes.toText?_ofText]
    exact .pure _ rest

end Reading

end RouteDesk.Json

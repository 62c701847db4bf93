import RouteDesk.Json.Reader

/-! The reader counts what it reads. At every place that it comes to, the bytes it has read and
the bytes ahead of it make up the text, so a refusal notes a number of bytes that the text has.
This holds both for all the bytes of a text and for those before the first read that fails; the
latter are what a refusal that is no failed read is about.
-/

namespace RouteDesk.Json

/-- The number of bytes ahead: all of them, or only those before the next failed read. -/
def Feed.ahead (unbroken : Bool) : Feed → Nat
  | .done => 0
  | .cut => 0
  | .byte _ rest => rest.ahead unbroken + 1
  | .fault rest => if unbroken then 0 else rest.ahead unbroken

theorem Feed.ahead_false (feed : Feed)
    : feed.ahead false = feed.bytes.length := by
  induction feed with
  | done => rfl
  | cut => rfl
  | byte value rest ih => simp [ahead, bytes, ih]
  | fault rest ih => simp [ahead, bytes, ih]

/-- Reading a byte moves it from what is ahead to what was read. -/
theorem Feed.counted_next {unbroken : Bool} {value : UInt8} {rest : Feed} {taken total : Nat}
    (counted : taken + (Feed.byte value rest).ahead unbroken = total)
    : taken + 1 + rest.ahead unbroken = total := by
  rw [Feed.ahead] at counted
  omega

namespace Reading

variable {α β : Type} {unbroken : Bool} {total : Nat} {cursor next : Cursor}

/-- What was read and what is ahead make up the text, and a byte that was looked at is there. -/
structure Stands (unbroken : Bool) (total : Nat) (cursor : Cursor) : Prop where
  counted : cursor.taken + cursor.feed.ahead unbroken = total
  looked : cursor.peeked = true → 0 < cursor.feed.ahead unbroken

theorem Stands.given_le (stands : Stands unbroken total cursor)
    : cursor.given ≤ total := by
  have counted := stands.counted
  have looked := stands.looked
  unfold Cursor.given
  cases h : cursor.peeked with
  | true => have := looked h; simp only [Bool.toNat_true]; omega
  | false => simp only [Bool.toNat_false]; omega

/-- What holds when the text was refused: only a failed read may leave its place unnoted, and a
place that was noted is one in the text. When only the bytes before the next failed read are
counted, nothing is said of failed reads.
-/
structure Lapsed (unbroken : Bool) (total : Nat) (fault : Fault) (next : Cursor) : Prop where
  noted : fault.refusal ≠ .unreadable → ∃ given, fault.given = some given
  within : unbroken = false ∨ fault.refusal ≠ .unreadable →
    ∀ given, fault.given = some given → given ≤ total
  stands : unbroken = false → Stands unbroken total next

/-- What holds of an outcome. -/
def Counted (unbroken : Bool) (total : Nat) : EStateM.Result Fault Cursor α → Prop
  | .ok _ next => Stands unbroken total next
  | .error fault next => Lapsed unbroken total fault next

/-- The action keeps the count, whether it succeeds or refuses the text. -/
def Keeps (unbroken : Bool) (action : Reading α) : Prop :=
  ∀ ⦃total : Nat⦄ ⦃cursor : Cursor⦄, Stands unbroken total cursor →
    Counted unbroken total (action cursor)

-----------------------------------------------------------------------------------------
-- Single steps
-----------------------------------------------------------------------------------------

namespace Keeps

theorem pure (value : α)
    : Keeps unbroken (Pure.pure value) :=
  fun _ _ stands => stands

theorem refuse (refusal : Refusal)
    : Keeps unbroken (Reading.refuse refusal : Reading α) := by
  intro total cursor stands
  refine ⟨fun _ => ⟨_, rfl⟩, fun _ given noted => ?_, fun _ => stands⟩
  obtain rfl := Option.some.inj noted
  exact stands.given_le

theorem bind {action : Reading α} {next : α → Reading β} (first : Keeps unbroken action)
    (second : ∀ value, Keeps unbroken (next value))
    : Keeps unbroken (action >>= next) := by
  intro total cursor stands
  have reached := first stands
  change Counted unbroken total (EStateM.bind action next cursor)
  unfold EStateM.bind
  cases h : action cursor with
  | ok value place => rw [h] at reached; exact second value reached
  | error fault place => rw [h] at reached; exact reached

/-- A failed read within the action is passed over, so the place it leaves has to count. -/
theorem tryCatch {action : Reading α} {handler : Fault → Reading α} (first : Keeps false action)
    (second : ∀ fault, Keeps false (handler fault))
    : Keeps false (MonadExcept.tryCatch action handler) := by
  intro total cursor stands
  have reached := first stands
  change Counted false total (EStateM.tryCatch action handler cursor)
  unfold EStateM.tryCatch
  cases h : action cursor with
  | ok value place => rw [h] at reached; exact reached
  | error fault place => rw [h] at reached; exact second fault (reached.stands rfl)

end Keeps

/-- A read fails: nothing is noted, and nothing but the failed read is passed over. -/
theorem lapsed_unreadable {feed rest : Feed} {taken : Nat}
    (counted : taken + feed.ahead unbroken = total)
    (whole : unbroken = false → rest.ahead unbroken = feed.ahead unbroken)
    : Lapsed unbroken total ⟨.unreadable, none⟩ ⟨rest, taken, false⟩ where
  noted excluded := absurd rfl excluded
  within _ _ noted := nomatch noted
  stands loose := ⟨by rw [whole loose]; exact counted, nofun⟩

theorem keeps_peek
    : Keeps unbroken peek := by
  rintro total ⟨feed, taken, peeked⟩ ⟨counted, looked⟩
  cases feed with
  | done => exact ⟨counted, nofun⟩
  | cut => exact lapsed_unreadable counted fun _ => rfl
  | byte value rest => exact ⟨counted, fun _ => Nat.succ_pos _⟩
  | fault rest => exact lapsed_unreadable counted (by rintro rfl; rfl)

theorem keeps_take
    : Keeps unbroken take := by
  rintro total ⟨feed, taken, peeked⟩ ⟨counted, looked⟩
  cases feed with
  | done => exact ⟨counted, nofun⟩
  | cut => exact lapsed_unreadable counted fun _ => rfl
  | byte value rest => exact ⟨Feed.counted_next counted, nofun⟩
  | fault rest => exact lapsed_unreadable counted (by rintro rfl; rfl)

theorem keeps_skip
    : Keeps unbroken skip :=
  .bind keeps_take fun _ => .pure _

theorem keeps_takeOr (refusal : Refusal)
    : Keeps unbroken (takeOr refusal) := by
  refine .bind keeps_take fun value => ?_
  cases value with
  | some value => exact .pure _
  | none => exact .refuse _

theorem keeps_bound
    : Keeps unbroken bound :=
  fun _ _ stands => stands

/-- Blanks are counted one by one, by induction on the feed. -/
theorem keeps_peekToken
    : Keeps unbroken peekToken := by
  rintro total ⟨feed, taken, peeked⟩ ⟨counted, looked⟩
  clear looked
  change Counted unbroken total (peekToken.go feed taken)
  induction feed generalizing taken with
  | done => exact ⟨counted, nofun⟩
  | cut => exact lapsed_unreadable counted fun _ => rfl
  | byte value rest ih =>
      rw [peekToken.go]
      split
      case isTrue => exact ih _ (Feed.counted_next counted)
      case isFalse => exact ⟨counted, fun _ => Nat.succ_pos _⟩
  | fault rest => exact lapsed_unreadable counted (by rintro rfl; rfl)

-----------------------------------------------------------------------------------------
-- Words and strings
-----------------------------------------------------------------------------------------

theorem keeps_word (bytes : Bytes)
    : Keeps unbroken (word bytes) := by
  induction bytes with
  | nil => exact .pure _
  | cons expected rest ih =>
      refine .bind (keeps_takeOr _) fun value => ?_
      split
      case isTrue => exact ih
      case isFalse => exact .refuse _

theorem keeps_hexUnit
    : Keeps unbroken hexUnit := by
  refine .bind (keeps_takeOr _) fun first => .bind (keeps_takeOr _) fun second => ?_
  refine .bind (keeps_takeOr _) fun third => .bind (keeps_takeOr _) fun fourth => ?_
  split
  case h_1 => exact .pure _
  case h_2 => exact .refuse _

theorem keeps_pairByte (expected : UInt8)
    : Keeps unbroken (pairByte expected) := by
  refine .bind keeps_peek fun value => ?_
  split
  case h_1 => exact .refuse _
  case h_2 =>
    refine .bind keeps_skip fun _ => ?_
    split
    case isTrue => exact .pure _
    case isFalse => exact .refuse _

theorem keeps_codePoint
    : Keeps unbroken codePoint := by
  refine .bind keeps_hexUnit fun unit => ?_
  split
  case isTrue => exact .refuse _
  case isFalse =>
    split
    case isTrue => exact .pure _
    case isFalse =>
      refine .bind (keeps_pairByte _) fun _ => .bind (keeps_pairByte _) fun _ => ?_
      refine .bind keeps_hexUnit fun low => ?_
      split
      case isTrue => exact .refuse _
      case isFalse => exact .pure _

theorem keeps_escape
    : Keeps unbroken escape := by
  refine .bind (keeps_takeOr _) fun value => ?_
  split
  case h_9 => exact keeps_codePoint
  case h_10 => exact .refuse _
  all_goals exact .pure _

theorem keeps_stringBody (limit : Nat) (front : Bytes)
    : Keeps unbroken (stringBody limit front) := by
  induction limit generalizing front with
  | zero => exact .refuse _
  | succ limit ih =>
      refine .bind (keeps_takeOr _) fun value => ?_
      split
      case isTrue => exact .pure _
      case isFalse =>
        split
        case isTrue => exact .bind keeps_escape fun meant => ih _
        case isFalse =>
          split
          case isTrue => exact .refuse _
          case isFalse => exact ih _

theorem keeps_string
    : Keeps unbroken string := by
  refine .bind keeps_bound fun limit => .bind (keeps_stringBody _ _) fun bytes => ?_
  split
  case h_1 => exact .pure _
  case h_2 => exact .refuse _

-----------------------------------------------------------------------------------------
-- Numbers
-----------------------------------------------------------------------------------------

/-- Digits are counted one by one, by induction on the feed. -/
theorem keeps_digits (limit start : Nat)
    : Keeps unbroken (digits limit start) := by
  rintro total ⟨feed, taken, peeked⟩ ⟨counted, looked⟩
  clear looked
  change Counted unbroken total (digits.go limit feed taken start 0)
  generalize 0 = count
  induction feed generalizing taken start count with
  | done => exact ⟨counted, nofun⟩
  | cut => exact lapsed_unreadable counted fun _ => rfl
  | byte value rest ih =>
      rw [digits.go]
      split
      case isTrue =>
        dsimp only
        split
        case isTrue => exact ih _ _ (Feed.counted_next counted) _
        case isFalse => exact ⟨counted, fun _ => Nat.succ_pos _⟩
      case isFalse => exact ⟨counted, fun _ => Nat.succ_pos _⟩
  | fault rest => exact lapsed_unreadable counted (by rintro rfl; rfl)

theorem keeps_skipDigits
    : Keeps unbroken skipDigits := by
  rintro total ⟨feed, taken, peeked⟩ ⟨counted, looked⟩
  clear looked
  change Counted unbroken total (skipDigits.go feed taken 0)
  generalize 0 = count
  induction feed generalizing taken count with
  | done => exact ⟨counted, nofun⟩
  | cut => exact lapsed_unreadable counted fun _ => rfl
  | byte value rest ih =>
      rw [skipDigits.go]
      split
      case isTrue => exact ih _ (Feed.counted_next counted) _
      case isFalse => exact ⟨counted, fun _ => Nat.succ_pos _⟩
  | fault rest => exact lapsed_unreadable counted (by rintro rfl; rfl)

theorem keeps_real (positive : Bool) (significand : Nat) (exponent : Int)
    : Keeps unbroken (real positive significand exponent) := by
  unfold real
  split
  case h_1 => exact .pure _
  case h_2 => exact .refuse _

theorem keeps_exponentSign
    : Keeps unbroken exponentSign := by
  refine .bind keeps_peek fun next => ?_
  split
  case h_1 => exact .bind keeps_skip fun _ => .pure _
  case h_2 => exact .bind keeps_skip fun _ => .pure _
  case h_3 => exact .pure _

theorem keeps_exponentPart (positive : Bool) (significand : Nat) (start : Int)
    : Keeps unbroken (exponentPart positive significand start) := by
  refine .bind keeps_skip fun _ => .bind keeps_exponentSign fun raising => ?_
  refine .bind (keeps_takeOr _) fun first => ?_
  split
  case isTrue =>
    refine .bind (keeps_digits _ _) fun run => ?_
    split
    case isTrue =>
      split
      case isTrue => exact .bind keeps_skip fun _ => .refuse _
      case isFalse => exact .bind keeps_skipDigits fun _ => .pure _
    case isFalse => exact keeps_real _ _ _
  case isFalse => exact .refuse _

theorem keeps_afterDigits (positive : Bool) (significand : Nat) (exponent : Int)
    : Keeps unbroken (afterDigits positive significand exponent) := by
  refine .bind keeps_peek fun next => ?_
  split
  case isTrue => exact keeps_exponentPart _ _ _
  case isFalse => exact keeps_real _ _ _

theorem keeps_fractionPart (positive : Bool) (significand : Nat) (exponent : Int)
    : Keeps unbroken (fractionPart positive significand exponent) := by
  refine .bind keeps_skip fun _ => .bind (keeps_digits _ _) fun run => ?_
  split
  case isTrue => exact .bind keeps_skipDigits fun _ => keeps_afterDigits _ _ _
  case isFalse =>
    split
    case isTrue =>
      refine .bind keeps_peek fun next => ?_
      split <;> exact .refuse _
    case isFalse => exact keeps_afterDigits _ _ _

theorem keeps_afterWhole (positive : Bool) (significand : Nat)
    : Keeps unbroken (afterWhole positive significand) := by
  refine .bind keeps_peek fun next => ?_
  split
  case h_1 => exact keeps_fractionPart _ _ _
  case h_2 =>
    split
    case isTrue => exact keeps_exponentPart _ _ _
    case isFalse =>
      split
      case isTrue => exact .pure _
      case isFalse =>
        split
        case isTrue => exact .pure _
        case isFalse => split <;> exact .pure _

theorem keeps_longWhole (positive : Bool) (significand : Nat)
    : Keeps unbroken (longWhole positive significand) := by
  refine .bind keeps_skipDigits fun more => .bind keeps_peek fun next => ?_
  split
  case h_1 => exact keeps_fractionPart _ _ _
  case h_2 =>
    split
    case isTrue => exact keeps_exponentPart _ _ _
    case isFalse => exact keeps_real _ _ _

theorem keeps_number (positive : Bool)
    : Keeps unbroken (number positive) := by
  refine .bind (keeps_takeOr _) fun first => ?_
  split
  case isTrue =>
    refine .bind keeps_peek fun next => ?_
    split
    case h_1 =>
      split
      case isTrue => exact .refuse _
      case isFalse => exact keeps_afterWhole _ _
    case h_2 => exact keeps_afterWhole _ _
  case isFalse =>
    split
    case isTrue =>
      refine .bind (keeps_digits _ _) fun run => ?_
      split
      case isTrue => exact keeps_longWhole _ _
      case isFalse => exact keeps_afterWhole _ _
    case isFalse => exact .refuse _

-----------------------------------------------------------------------------------------
-- Lists and objects
-----------------------------------------------------------------------------------------

theorem keeps_items {item : Reading Json} (each : Keeps unbroken item) (limit : Nat)
    (front : List Json)
    : Keeps unbroken (items item limit front) := by
  induction limit generalizing front with
  | zero => exact .refuse _
  | succ limit ih =>
      have hnext : Keeps unbroken (do let value ← item; items item limit (value :: front)) :=
        .bind each fun value => ih _
      refine .bind keeps_peekToken fun next => ?_
      split
      case h_1 => exact .refuse _
      case h_2 => exact .pure _
      case h_3 =>
        split
        case isTrue => exact hnext
        case isFalse =>
          split
          case isTrue =>
            refine .bind keeps_skip fun _ => .bind keeps_peekToken fun next => ?_
            split
            case h_1 => exact .refuse _
            case h_2 => exact .refuse _
            case h_3 => exact hnext
          case isFalse => exact .refuse _

/-- The end of a list may pass over a failed read, to look for one more closing bracket. -/
theorem keeps_listEnd
    : Keeps false listEnd := by
  refine .bind keeps_peekToken fun next => ?_
  split
  case h_1 => exact .refuse _
  case h_2 => exact keeps_skip
  case h_3 =>
    refine .bind keeps_skip fun _ => .bind (.tryCatch ?_ fun _ => .pure _) fun ended => ?_
    · exact .bind keeps_peekToken fun next => .pure _
    · split <;> exact .refuse _
  case h_4 => exact .refuse _

theorem keeps_keyStart (next : Option UInt8)
    : Keeps unbroken (keyStart next) := by
  unfold keyStart
  split
  case h_1 => exact .refuse _
  case h_2 => exact .pure _
  case h_3 => exact .refuse _
  case h_4 => exact .refuse _

theorem keeps_field {value : Reading Json} (each : Keeps unbroken value)
    : Keeps unbroken (field value) := by
  refine .bind keeps_skip fun _ => .bind keeps_string fun name => ?_
  refine .bind keeps_peekToken fun next => ?_
  split
  case h_1 => exact .refuse _
  case h_2 => exact .bind keeps_skip fun _ => .bind each fun held => .pure _
  case h_3 => exact .refuse _

theorem keeps_fields {value : Reading Json} (each : Keeps unbroken value) (limit : Nat)
    (first : Bool) (held : Fields)
    : Keeps unbroken (fields value limit first held) := by
  induction limit generalizing first held with
  | zero => exact .refuse _
  | succ limit ih =>
      have hnext : Keeps unbroken
          (field value >>= fun read => fields value limit false (Fields.put read.1 read.2 held)) :=
        .bind (keeps_field each) fun read => ih _ _
      refine .bind keeps_peekToken fun next => ?_
      split
      case h_1 => exact .refuse _
      case h_2 => exact .pure _
      case h_3 =>
        split
        case isTrue => exact .bind (keeps_keyStart _) fun _ => hnext
        case isFalse =>
          split
          case isTrue =>
            refine .bind keeps_skip fun _ => .bind keeps_peekToken fun next => ?_
            exact .bind (keeps_keyStart _) fun _ => hnext
          case isFalse => exact .refuse _

theorem keeps_objectEnd
    : Keeps unbroken objectEnd := by
  refine .bind keeps_peekToken fun next => ?_
  split
  case h_1 => exact .refuse _
  case h_2 => exact keeps_skip
  case h_3 => exact .refuse _
  case h_4 => exact .refuse _

-----------------------------------------------------------------------------------------
-- Containers and documents
-----------------------------------------------------------------------------------------

/-- Whenever the action succeeds, the byte ahead is the given one. -/
def EndsAt (action : Reading α) (byte : UInt8) : Prop :=
  ∀ ⦃cursor : Cursor⦄ ⦃value : α⦄ ⦃next : Cursor⦄, action cursor = .ok value next →
    ∃ rest, next.feed = .byte byte rest

/-- A token that was found is ahead, by induction on the feed. -/
theorem ahead_of_peekToken {byte : UInt8}
    (found : peekToken cursor = .ok (some byte) next)
    : ∃ rest, next.feed = .byte byte rest := by
  have hgo (feed : Feed) : ∀ taken, peekToken.go feed taken = .ok (some byte) next →
      ∃ rest, next.feed = .byte byte rest := by
    induction feed with
    | done => nofun
    | cut => nofun
    | byte value rest ih =>
        intro taken found
        rw [peekToken.go] at found
        split at found
        case isTrue => exact ih _ found
        case isFalse =>
          obtain ⟨same, rfl⟩ := EStateM.Result.ok.inj found
          obtain rfl := Option.some.inj same
          exact ⟨rest, rfl⟩
    | fault rest => nofun
  exact hgo _ _ found

namespace EndsAt

variable {byte : UInt8} {action : Reading α} {following : α → Reading β}

theorem refuse {refusal : Refusal}
    : EndsAt (Reading.refuse refusal : Reading α) byte :=
  nofun

theorem andThen (last : ∀ value, EndsAt (following value) byte)
    : EndsAt (action >>= following) byte := by
  intro cursor answer place reached
  change EStateM.bind action following cursor = _ at reached
  unfold EStateM.bind at reached
  split at reached
  case h_1 value _ _ => exact last value reached
  case h_2 => cases reached

/-- The action stops at the byte as its token, or ends at such a byte later. -/
theorem peekToken {following : Option UInt8 → Reading β} {value : β}
    (stops : following (some byte) = pure value)
    (last : ∀ token, token ≠ some byte → EndsAt (following token) byte)
    : EndsAt (Reading.peekToken >>= following) byte := by
  intro cursor answer place reached
  change EStateM.bind Reading.peekToken following cursor = _ at reached
  unfold EStateM.bind at reached
  split at reached
  case h_2 => cases reached
  case h_1 token middle found =>
    by_cases same : token = some byte
    case neg => exact last token same reached
    case pos =>
      subst same
      rw [stops] at reached
      obtain ⟨rfl, rfl⟩ := EStateM.Result.ok.inj reached
      exact ahead_of_peekToken found

end EndsAt

/-- A list has been read when its closing bracket is ahead. -/
theorem endsAt_items (item : Reading Json) (limit : Nat) (front : List Json)
    : EndsAt (items item limit front) 0x5D := by
  induction limit generalizing front with
  | zero => exact .refuse
  | succ limit ih =>
      have hnext : EndsAt (do let value ← item; items item limit (value :: front)) 0x5D :=
        .andThen fun value => ih _
      refine .peekToken rfl fun token other => ?_
      split
      case h_1 => exact .refuse
      case h_2 => exact absurd rfl other
      case h_3 =>
        split
        case isTrue => exact hnext
        case isFalse =>
          split
          case isTrue =>
            refine .andThen fun _ => .andThen fun next => ?_
            split
            case h_1 => exact .refuse
            case h_2 => exact .refuse
            case h_3 => exact hnext
          case isFalse => exact .refuse

/-- An object has been read when its closing brace is ahead. -/
theorem endsAt_fields (value : Reading Json) (limit : Nat) (first : Bool) (held : Fields)
    : EndsAt (fields value limit first held) 0x7D := by
  induction limit generalizing first held with
  | zero => exact .refuse
  | succ limit ih =>
      have hnext : EndsAt
          (field value >>= fun read => fields value limit false (Fields.put read.1 read.2 held))
          0x7D :=
        .andThen fun read => ih _ _
      refine .peekToken rfl fun token other => ?_
      split
      case h_1 => exact .refuse
      case h_2 => exact absurd rfl other
      case h_3 =>
        split
        case isTrue => exact .andThen fun _ => hnext
        case isFalse =>
          split
          case isTrue => exact .andThen fun _ => .andThen fun _ => .andThen fun _ => hnext
          case isFalse => exact .refuse

/-- The ending reads the closing byte when it is ahead. -/
def Closes (ending : Reading Unit) (byte : UInt8) : Prop :=
  ∀ rest taken peeked, ending ⟨.byte byte rest, taken, peeked⟩ = .ok () ⟨rest, taken + 1, false⟩

/-- An inside that was read is followed by its end, so the end is refused only after the inside
was, and then the fault is the inside's.
-/
theorem keeps_enclosed {inside : Reading α} {ending : Reading Unit} {byte : UInt8}
    (kept : Keeps unbroken inside) (ends : EndsAt inside byte) (closes : Closes ending byte)
    (after : Keeps false ending)
    : Keeps unbroken (enclosed inside ending) := by
  intro total cursor stands
  have reached := kept stands
  unfold enclosed
  cases h : inside cursor with
  | ok value next =>
      rw [h] at reached
      obtain ⟨rest, ahead⟩ := ends h
      obtain ⟨feed, taken, peeked⟩ := next
      obtain rfl : feed = .byte byte rest := ahead
      simp only [closes rest taken peeked]
      exact ⟨Feed.counted_next reached.counted, nofun⟩
  | error fault next =>
      rw [h] at reached
      -- Only a failed read leaves its place unnoted; then the place counts that the end reached.
      have hnoted (last : Cursor) (stands : unbroken = false → Stands unbroken total last)
          : Lapsed unbroken total { fault with given := fault.given.or (some last.given) }
              last := by
        refine ⟨fun _ => ?_, fun counts given noted => ?_, stands⟩
        · cases fault.given <;> exact ⟨_, rfl⟩
        · cases hgiven : fault.given with
          | some before =>
              rw [hgiven] at noted
              obtain rfl := Option.some.inj noted
              exact reached.within counts before hgiven
          | none =>
              rw [hgiven] at noted
              obtain rfl := Option.some.inj noted
              rcases counts with loose | readable
              · exact (stands loose).given_le
              · obtain ⟨before, hbefore⟩ := reached.noted readable
                rw [hgiven] at hbefore
                cases hbefore
      have hlast : unbroken = false → Counted false total (ending next) := by
        rintro rfl
        exact after (reached.stands rfl)
      cases hend : ending next with
      | ok value last =>
          simp only [hend]
          exact hnoted last (by rintro rfl; rw [hend] at hlast; exact hlast rfl)
      | error later last =>
          simp only [hend]
          exact hnoted last (by rintro rfl; rw [hend] at hlast; exact (hlast rfl).stands rfl)

theorem keeps_valueWith {inner : Option (Reading Json)}
    (each : ∀ item, inner = some item → Keeps unbroken item)
    : Keeps unbroken (valueWith inner) := by
  refine .bind keeps_peekToken fun next => ?_
  split
  case h_1 => exact .refuse _
  case h_2 => exact .bind keeps_skip fun _ => .bind (keeps_word _) fun _ => .pure _
  case h_3 => exact .bind keeps_skip fun _ => .bind (keeps_word _) fun _ => .pure _
  case h_4 => exact .bind keeps_skip fun _ => .bind (keeps_word _) fun _ => .pure _
  case h_5 => exact .bind keeps_skip fun _ => keeps_number _
  case h_6 => exact .bind keeps_skip fun _ => .bind keeps_string fun _ => .pure _
  case h_7 =>
    split
    case h_1 => exact .refuse _
    case h_2 item =>
      refine .bind keeps_skip fun _ => .bind keeps_bound fun limit => ?_
      refine .bind ?_ fun values => .pure _
      exact keeps_enclosed (keeps_items (each item rfl) _ _) (endsAt_items _ _ _)
        (fun _ _ _ => rfl) keeps_listEnd
  case h_8 =>
    split
    case h_1 => exact .refuse _
    case h_2 value =>
      refine .bind keeps_skip fun _ => .bind keeps_bound fun limit => ?_
      refine .bind ?_ fun read => .pure _
      exact keeps_enclosed (keeps_fields (each value rfl) _ _ _) (endsAt_fields _ _ _ _)
        (fun _ _ _ => rfl) keeps_objectEnd
  case h_9 =>
    split
    case isTrue => exact keeps_number _
    case isFalse => exact .refuse _

theorem keeps_value (depth : Nat)
    : Keeps unbroken (value depth) := by
  induction depth with
  | zero => exact keeps_valueWith nofun
  | succ depth ih => exact keeps_valueWith fun item same => Option.some.inj same ▸ ih

theorem keeps_document
    : Keeps unbroken document := by
  refine .bind (keeps_value _) fun held => .bind keeps_peekToken fun next => ?_
  split
  case h_1 => exact .pure _
  case h_2 => exact .refuse _

/-- A reader that refuses a feed notes no more bytes than the feed has, and unless a read failed,
no more than it has before the first failed read.
-/
theorem given_le_of_refused {feed : Feed} {fault : Fault} {reached : Cursor} {given : Nat}
    (refused : document ⟨feed, 0, false⟩ = .error fault reached)
    (noted : fault.given = some given)
    : given ≤ feed.bytes.length ∧ (fault.refusal ≠ .unreadable → given ≤ feed.ahead true) := by
  have hlapsed (unbroken : Bool) : Lapsed unbroken (feed.ahead unbroken) fault reached := by
    have start : Stands unbroken (feed.ahead unbroken) ⟨feed, 0, false⟩ := ⟨Nat.zero_add _, nofun⟩
    have counted := keeps_document start
    rw [refused] at counted
    exact counted
  refine ⟨?_, fun readable => (hlapsed true).within (.inr readable) given noted⟩
  rw [← Feed.ahead_false]
  exact (hlapsed false).within (.inl rfl) given noted

end Reading

end RouteDesk.Json

/-
**JSON texts as a streaming reader reports them, and the text of a string.**

A reader walks a text once and calls a handler: one event for every value, key and bracket, in the order
of the document, and an error as the last one where the text stops being strict JSON. A handler may refuse
an event; then nothing more is read.

* `Utf8.valid` — well-formed UTF-8, byte by byte; `Utf8.valid_encode` — of every code point.
* `scan` — the next token; `scanString` and `scanNumber` are byte machines.
* `events`, `sax` — **what is reported, and what a handler makes of it.**
* `sound_of_mem_events` — **every string and key reported is UTF-8.**
* `Value` — a document; `Value.events` — what is reported of it, and of no other (`events_injective`).
* `quoted` — the text of a string, which exists for UTF-8 only; `quoted_length` bounds it.
-/

import Mathlib.Data.List.Basic
import Mathlib.Tactic

namespace Json

abbrev Octets := List UInt8

/-! ### UTF-8 -/

namespace Utf8

/-- The ranges the bytes still owed to a character must be in. -/
abbrev Owed := List (UInt8 × UInt8)

abbrev tail : UInt8 × UInt8 := (0x80, 0xbf)

/-- What the first byte of a character owes. -/
def lead (b : UInt8) : Option Owed :=
  if b < 0x80 then some []
  else if 0xc2 ≤ b ∧ b ≤ 0xdf then some [tail]
  else if b = 0xe0 then some [(0xa0, 0xbf), tail]
  else if b = 0xed then some [(0x80, 0x9f), tail]
  else if 0xe1 ≤ b ∧ b ≤ 0xef then some [tail, tail]
  else if b = 0xf0 then some [(0x90, 0xbf), tail, tail]
  else if 0xf1 ≤ b ∧ b ≤ 0xf3 then some [tail, tail, tail]
  else if b = 0xf4 then some [(0x80, 0x8f), tail, tail]
  else none

def step : Owed → UInt8 → Option Owed
  | [], b => lead b
  | (low, high) :: owed, b => if low ≤ b ∧ b ≤ high then some owed else none

/-- What is owed after some bytes. -/
def run (owed : Owed) (bytes : Octets) : Option Owed := bytes.foldlM step owed

def valid (bytes : Octets) : Bool := run [] bytes = some []

/-- The bytes of a code point. -/
def encode (point : Nat) : Octets :=
  if point < 0x80 then [point.toUInt8]
  else if point ≤ 0x7ff then [(0xc0 + point / 64).toUInt8, (0x80 + point % 64).toUInt8]
  else if point ≤ 0xffff then
    [(0xe0 + point / 4096).toUInt8, (0x80 + point / 64 % 64).toUInt8, (0x80 + point % 64).toUInt8]
  else
    [(0xf0 + point / 262144).toUInt8, (0x80 + point / 4096 % 64).toUInt8,
      (0x80 + point / 64 % 64).toUInt8, (0x80 + point % 64).toUInt8]

/-- A code point that is no half of a surrogate pair. -/
def Scalar (point : Nat) : Prop := point < 0xd800 ∨ 0xe000 ≤ point ∧ point < 0x110000

theorem run_append (owed : Owed) (first second : Octets) :
    run owed (first ++ second) = (run owed first).bind fun next => run next second := by
  unfold run
  rw [List.foldlM_append]
  rfl

theorem toNat_toUInt8 {n : Nat} (small : n < 256) : n.toUInt8.toNat = n := by
  rw [Nat.toUInt8, UInt8.toNat_ofNat']
  omega

theorem step_within {low high : UInt8} {owed : Owed} {n : Nat} (small : n < 256)
    (above : low.toNat ≤ n) (below : n ≤ high.toNat) :
    step ((low, high) :: owed) n.toUInt8 = some owed := by
  refine if_pos ⟨?_, ?_⟩
  · rw [UInt8.le_iff_toNat_le, toNat_toUInt8 small]
    exact above
  · rw [UInt8.le_iff_toNat_le, toNat_toUInt8 small]
    exact below

theorem step_tail {owed : Owed} {n : Nat} (small : n < 64) :
    step (tail :: owed) (0x80 + n).toUInt8 = some owed :=
  step_within (by omega) (Nat.le_add_right _ _) (show 0x80 + n ≤ 0xbf by omega)

/-- `lead` read on numbers. -/
theorem lead_toUInt8 {n : Nat} (small : n < 256) :
    lead n.toUInt8 =
      if n < 0x80 then some []
      else if 0xc2 ≤ n ∧ n ≤ 0xdf then some [tail]
      else if n = 0xe0 then some [(0xa0, 0xbf), tail]
      else if n = 0xed then some [(0x80, 0x9f), tail]
      else if 0xe1 ≤ n ∧ n ≤ 0xef then some [tail, tail]
      else if n = 0xf0 then some [(0x90, 0xbf), tail, tail]
      else if 0xf1 ≤ n ∧ n ≤ 0xf3 then some [tail, tail, tail]
      else if n = 0xf4 then some [(0x80, 0x8f), tail, tail]
      else none := by
  unfold lead
  simp only [UInt8.lt_iff_toNat_lt, UInt8.le_iff_toNat_le, ← UInt8.toNat_inj, toNat_toUInt8 small]
  rfl

theorem run_cons {owed next : Owed} {b : UInt8} (taken : step owed b = some next) (rest : Octets) :
    run owed (b :: rest) = run next rest := by
  unfold run
  rw [List.foldlM_cons, taken]
  rfl

theorem run_lead {next : Owed} {b : UInt8} (taken : lead b = some next) (rest : Octets) :
    run [] (b :: rest) = run next rest :=
  run_cons (show step [] b = some next from taken) rest

theorem run_tails {owed : Owed} {n : Nat} (small : n < 64) (rest : Octets) :
    run (tail :: owed) ((0x80 + n).toUInt8 :: rest) = run owed rest :=
  run_cons (step_tail small) rest

theorem run_encode_three {point : Nat} (above : 0x800 ≤ point) (below : point ≤ 0xffff)
    (scalar : Scalar point) :
    run [] [(0xe0 + point / 4096).toUInt8, (0x80 + point / 64 % 64).toUInt8, (0x80 + point % 64).toUInt8]
      = some [] := by
  have first := lead_toUInt8 (n := 0xe0 + point / 4096) (by omega)
  rw [if_neg (by omega), if_neg (by omega)] at first
  -- the second byte has a range of its own after `e0` and after `ed`
  by_cases low : point / 4096 = 0
  · rw [if_pos (by omega)] at first
    rw [run_lead first, run_cons (step_within (by omega) _ _), run_tails (by omega)]
    · rfl
    · show 0xa0 ≤ _
      omega
    · show _ ≤ 0xbf
      omega
  by_cases surrogates : point / 4096 = 13
  · unfold Scalar at scalar
    rw [if_neg (by omega), if_pos (by omega)] at first
    rw [run_lead first, run_cons (step_within (by omega) _ _), run_tails (by omega)]
    · rfl
    · show 0x80 ≤ _
      omega
    · show _ ≤ 0x9f
      omega
  · rw [if_neg (by omega), if_neg (by omega), if_pos (by omega)] at first
    rw [run_lead first, run_tails (by omega), run_tails (by omega)]
    rfl

theorem run_encode_four {point : Nat} (above : 0x10000 ≤ point) (below : point < 0x110000) :
    run [] [(0xf0 + point / 262144).toUInt8, (0x80 + point / 4096 % 64).toUInt8,
      (0x80 + point / 64 % 64).toUInt8, (0x80 + point % 64).toUInt8] = some [] := by
  have first := lead_toUInt8 (n := 0xf0 + point / 262144) (by omega)
  rw [if_neg (by omega), if_neg (by omega), if_neg (by omega), if_neg (by omega), if_neg (by omega)]
    at first
  by_cases low : point / 262144 = 0
  · rw [if_pos (by omega)] at first
    rw [run_lead first, run_cons (step_within (by omega) _ _), run_tails (by omega), run_tails (by omega)]
    · rfl
    · show 0x90 ≤ _
      omega
    · show _ ≤ 0xbf
      omega
  by_cases top : point / 262144 = 4
  · rw [if_neg (by omega), if_neg (by omega), if_pos (by omega)] at first
    rw [run_lead first, run_cons (step_within (by omega) _ _), run_tails (by omega), run_tails (by omega)]
    · rfl
    · show 0x80 ≤ _
      omega
    · show _ ≤ 0x8f
      omega
  · rw [if_neg (by omega), if_pos (by omega)] at first
    rw [run_lead first, run_tails (by omega), run_tails (by omega), run_tails (by omega)]
    rfl

/-- **A code point is written as one character.** -/
theorem run_encode {point : Nat} (scalar : Scalar point) : run [] (encode point) = some [] := by
  unfold encode
  split
  case isTrue ascii =>
    have first : lead point.toUInt8 = some [] := by rw [lead_toUInt8 (by omega), if_pos ascii]
    rw [run_lead first]
    rfl
  split
  case isTrue two =>
    have first : lead (0xc0 + point / 64).toUInt8 = some [tail] := by
      rw [lead_toUInt8 (by omega), if_neg (by omega), if_pos (by omega)]
    rw [run_lead first, run_tails (by omega)]
    rfl
  split
  case isTrue three => exact run_encode_three (by omega) three scalar
  case isFalse four =>
    unfold Scalar at scalar
    exact run_encode_four (by omega) (by omega)

theorem run_ascii {bytes : Octets} (small : ∀ b ∈ bytes, b < 0x80) : run [] bytes = some [] := by
  induction bytes with
  | nil => rfl
  | cons b bytes ih =>
    have first : lead b = some [] := if_pos (small b List.mem_cons_self)
    rw [run_lead first]
    exact ih fun c member => small c (List.mem_cons_of_mem _ member)

/-- ASCII is UTF-8. -/
theorem valid_of_ascii {bytes : Octets} (small : ∀ b ∈ bytes, b < 0x80) : valid bytes :=
  decide_eq_true (run_ascii small)

end Utf8

/-! ### Tokens -/

abbrev quote : UInt8 := 0x22
abbrev backslash : UInt8 := 0x5c

def ascii (c : Char) : UInt8 := c.toNat.toUInt8

def isDigit (b : UInt8) : Bool := ascii '0' ≤ b && b ≤ ascii '9'

def hexValue (b : UInt8) : Option Nat :=
  if isDigit b then some (b.toNat - 0x30)
  else if ascii 'A' ≤ b ∧ b ≤ ascii 'F' then some (b.toNat - 0x37)
  else if ascii 'a' ≤ b ∧ b ≤ ascii 'f' then some (b.toNat - 0x57)
  else none

/-- The byte a one-letter escape stands for. -/
def escaped (b : UInt8) : Option UInt8 :=
  if b = quote ∨ b = backslash ∨ b = ascii '/' then some b
  else if b = ascii 'b' then some 0x08
  else if b = ascii 'f' then some 0x0c
  else if b = ascii 'n' then some 0x0a
  else if b = ascii 'r' then some 0x0d
  else if b = ascii 't' then some 0x09
  else none

/-- Where the scanner of a string is: in the text, with what a character still owes; after a backslash;
in the digits of a code unit, perhaps the second of a pair; or before the second of a pair. -/
inductive StringMode where
  | plain (owed : Utf8.Owed)
  | escape
  | unit (high : Option Nat) (digits : Nat) (value : Nat)
  | pairBackslash (high : Nat)
  | pairU (high : Nat)
  deriving DecidableEq, Repr

namespace StringMode

/-- A code unit is complete. -/
def finish (high : Option Nat) (value : Nat) : Option (StringMode × Octets) :=
  match high with
  | none =>
    if 0xd800 ≤ value ∧ value ≤ 0xdbff then some (pairBackslash value, [])
    else if 0xdc00 ≤ value ∧ value ≤ 0xdfff then none
    else some (plain [], Utf8.encode value)
  | some high =>
    if 0xdc00 ≤ value ∧ value ≤ 0xdfff then
      some (plain [], Utf8.encode (high * 1024 + value - 0x35fdc00))
    else none

/-- The next byte of a string that does not end it: the mode after it, and what it adds. -/
def step : StringMode → UInt8 → Option (StringMode × Octets)
  | plain [], b =>
    if b = backslash then some (escape, [])
    else if b < 0x20 then none
    else (Utf8.lead b).map fun owed => (plain owed, [b])
  | plain owed, b => (Utf8.step owed b).map fun owed => (plain owed, [b])
  | escape, b =>
    if b = ascii 'u' then some (unit none 0 0, []) else (escaped b).map fun c => (plain [], [c])
  | unit high digits value, b =>
    match hexValue b with
    | none => none
    | some digit =>
      if digits < 3 then some (unit high (digits + 1) (value * 16 + digit), [])
      else finish high (value * 16 + digit)
  | pairBackslash high, b => if b = backslash then some (pairU high, []) else none
  | pairU high, b => if b = ascii 'u' then some (unit (some high) 0 0, []) else none

end StringMode

/-- The rest of a string: its bytes, and what is behind the closing quote. -/
def scanString : StringMode → Octets → Octets → Option (Octets × Octets)
  | _, _, [] => none
  | mode, decoded, b :: rest =>
    if mode = .plain [] ∧ b = quote then some (decoded, rest)
    else
      match mode.step b with
      | none => none
      | some (next, added) => scanString next (decoded ++ added) rest

inductive NumberState where
  | minus | zero | whole | point | fraction | exponent | sign | power
  deriving DecidableEq, Repr

namespace NumberState

def accepts : NumberState → Bool
  | zero | whole | fraction | power => true
  | minus | point | exponent | sign => false

def isExponent (b : UInt8) : Bool := b = ascii 'e' || b = ascii 'E'

def next : NumberState → UInt8 → Option NumberState
  | minus, b => if b = ascii '0' then some zero else if isDigit b then some whole else none
  | zero, b => if b = ascii '.' then some point else if isExponent b then some exponent else none
  | whole, b =>
    if isDigit b then some whole
    else if b = ascii '.' then some point
    else if isExponent b then some exponent
    else none
  | point, b => if isDigit b then some fraction else none
  | fraction, b => if isDigit b then some fraction else if isExponent b then some exponent else none
  | exponent, b =>
    if b = ascii '+' || b = ascii '-' then some sign else if isDigit b then some power else none
  | sign, b => if isDigit b then some power else none
  | power, b => if isDigit b then some power else none

end NumberState

/-- The rest of a number: its text, and what is behind it. -/
def scanNumber : NumberState → Octets → Octets → Option (Octets × Octets)
  | state, lexeme, [] => if state.accepts then some (lexeme, []) else none
  | state, lexeme, b :: rest =>
    match state.next b with
    | some next => scanNumber next (lexeme ++ [b]) rest
    | none => if state.accepts then some (lexeme, b :: rest) else none

/-- What a reader reports. Of a number it reports the text. -/
inductive Event where
  | null
  | boolean (value : Bool)
  | number (lexeme : Octets)
  | string (value : Octets)
  | key (value : Octets)
  | startObject
  | endObject
  | startArray
  | endArray
  | error
  deriving DecidableEq, Repr

/-- A scalar token is the event it will be reported as. -/
inductive Token where
  | beginArray
  | endArray
  | beginObject
  | endObject
  | colon
  | comma
  | scalar (event : Event)
  | endOfInput
  | invalid
  deriving DecidableEq, Repr

def isSpace (b : UInt8) : Bool := b = 0x20 || b = 0x09 || b = 0x0a || b = 0x0d

def literal (word : String) : Octets := word.toList.map ascii

/-- A literal whose first letter has been read. -/
def scanLiteral (others : Octets) (event : Event) (rest : Octets) : Token × Octets :=
  if others.isPrefixOf rest then (.scalar event, rest.drop others.length) else (.invalid, rest)

/-- A string whose opening quote has been read. -/
def stringToken (rest : Octets) : Token × Octets :=
  match scanString (.plain []) [] rest with
  | some (value, rest) => (.scalar (.string value), rest)
  | none => (.invalid, rest)

/-- A number whose first byte has been read. -/
def numberToken (state : NumberState) (b : UInt8) (rest : Octets) : Token × Octets :=
  match scanNumber state [b] rest with
  | some (lexeme, rest) => (.scalar (.number lexeme), rest)
  | none => (.invalid, rest)

/-- The token that starts with `b`. A NUL ends the input. -/
def scanAt (b : UInt8) (rest : Octets) : Token × Octets :=
  if b = ascii '[' then (.beginArray, rest)
  else if b = ascii ']' then (.endArray, rest)
  else if b = 0x7b then (.beginObject, rest)
  else if b = 0x7d then (.endObject, rest)
  else if b = ascii ':' then (.colon, rest)
  else if b = ascii ',' then (.comma, rest)
  else if b = ascii 't' then scanLiteral (literal "rue") (.boolean true) rest
  else if b = ascii 'f' then scanLiteral (literal "alse") (.boolean false) rest
  else if b = ascii 'n' then scanLiteral (literal "ull") .null rest
  else if b = quote then stringToken rest
  else if b = ascii '-' then numberToken .minus b rest
  else if b = ascii '0' then numberToken .zero b rest
  else if isDigit b then numberToken .whole b rest
  else if b = 0 then (.endOfInput, rest)
  else (.invalid, rest)

/-- The next token. -/
def scan (input : Octets) : Token × Octets :=
  match input.dropWhile isSpace with
  | [] => (.endOfInput, [])
  | b :: rest => scanAt b rest

/-! ### The reader -/

/-- A value starts with the token read last, or one has ended. -/
inductive Mode where
  | value (token : Token)
  | evaluate

/-- A member: its key is the token given, its value is read by `values`. -/
def keyed (values : Token → Octets → List Event) : Token × Octets → List Event
  | (.scalar (.string key), rest) =>
    .key key ::
      match scan rest with
      | (.colon, rest) => values (scan rest).1 (scan rest).2
      | _ => [.error]
  | _ => [.error]

/-- What is still reported, inside `states` (`true` for an array). Every turn reads a byte, so that fuel
for one turn a byte and two more is enough. -/
def read : Nat → List Bool → Mode → Octets → List Event
  | 0, _, _, _ => [.error]
  | fuel + 1, states, .value token, input =>
    match token with
    | .beginObject =>
      .startObject ::
        match scan input with
        | (.endObject, rest) => .endObject :: read fuel states .evaluate rest
        | next => keyed (fun token rest => read fuel (false :: states) (.value token) rest) next
    | .beginArray =>
      .startArray ::
        match scan input with
        | (.endArray, rest) => .endArray :: read fuel states .evaluate rest
        | next => read fuel (true :: states) (.value next.1) next.2
    | .scalar event => event :: read fuel states .evaluate input
    | _ => [.error]
  | _ + 1, [], .evaluate, input =>
    match (scan input).1 with
    | .endOfInput => []
    | _ => [.error]
  | fuel + 1, true :: states, .evaluate, input =>
    match scan input with
    | (.comma, rest) => read fuel (true :: states) (.value (scan rest).1) (scan rest).2
    | (.endArray, rest) => .endArray :: read fuel states .evaluate rest
    | _ => [.error]
  | fuel + 1, false :: states, .evaluate, input =>
    match scan input with
    | (.comma, rest) =>
      keyed (fun token rest => read fuel (false :: states) (.value token) rest) (scan rest)
    | (.endObject, rest) => .endObject :: read fuel states .evaluate rest
    | _ => [.error]

/-- Everything reported of a text. A byte order mark before it is skipped. -/
def events (input : Octets) : List Event :=
  let fuel := input.length + 2
  match input with
  | 0xef :: 0xbb :: 0xbf :: rest => read fuel [] (.value (scan rest).1) (scan rest).2
  | 0xef :: _ => [.error]
  | _ => read fuel [] (.value (scan input).1) (scan input).2

/-- What a handler makes of a text; nothing if it refuses an event. -/
def sax {σ : Type} (handle : σ → Event → Option σ) (start : σ) (input : Octets) : Option σ :=
  (events input).foldlM handle start

/-! ### Every string reported is UTF-8 -/

theorem hexValue_lt {b : UInt8} {digit : Nat} (read : hexValue b = some digit) : digit < 16 := by
  unfold hexValue at read
  split at read
  case isTrue decimal =>
    simp only [isDigit, Bool.and_eq_true, decide_eq_true_eq, UInt8.le_iff_toNat_le] at decimal
    have bound : b.toNat ≤ 0x39 := decimal.2
    cases read
    omega
  split at read
  case isTrue upper =>
    simp only [UInt8.le_iff_toNat_le] at upper
    have bound : b.toNat ≤ 0x46 := upper.2
    cases read
    omega
  split at read
  case isTrue lower =>
    simp only [UInt8.le_iff_toNat_le] at lower
    have bound : b.toNat ≤ 0x66 := lower.2
    cases read
    omega
  case isFalse => cases read

namespace StringMode

/-- What the character at hand still owes. -/
def owed : StringMode → Utf8.Owed
  | plain owed => owed
  | _ => []

def Surrogate (high : Nat) : Prop := 0xd800 ≤ high ∧ high ≤ 0xdbff

/-- The numbers of a mode are in their ranges. -/
def Sound : StringMode → Prop
  | plain _ | escape => True
  | unit high digits value => digits ≤ 3 ∧ value < 16 ^ digits ∧ ∀ h, high = some h → Surrogate h
  | pairBackslash high | pairU high => Surrogate high

theorem finish_sound {high : Option Nat} {value : Nat} {next : StringMode} {added : Octets}
    (bound : value < 0x10000) (surrogate : ∀ h, high = some h → Surrogate h)
    (done : finish high value = some (next, added)) : next.Sound ∧ Utf8.run [] added = some next.owed := by
  unfold finish at done
  cases high with
  | none =>
    dsimp only at done
    split at done
    case isTrue pair =>
      cases done
      exact ⟨pair, rfl⟩
    split at done
    case isTrue => cases done
    case isFalse single low =>
      cases done
      refine ⟨trivial, Utf8.run_encode ?_⟩
      unfold Utf8.Scalar
      omega
  | some h =>
    dsimp only at done
    split at done
    case isTrue low =>
      cases done
      obtain ⟨above, below⟩ := surrogate h rfl
      refine ⟨trivial, Utf8.run_encode ?_⟩
      unfold Utf8.Scalar
      omega
    case isFalse => cases done

theorem escaped_ascii {b c : UInt8} (read : escaped b = some c) : Utf8.run [] [c] = some [] := by
  unfold escaped at read
  split at read
  case isTrue same =>
    cases read
    rcases same with rfl | rfl | rfl <;> decide
  repeat' split at read
  all_goals cases read
  all_goals decide

/-- **A byte of a string leaves what was scanned UTF-8 up to the character at hand.** -/
theorem step_sound {mode next : StringMode} {b : UInt8} {added : Octets} (sound : mode.Sound)
    (taken : mode.step b = some (next, added)) :
    next.Sound ∧ Utf8.run mode.owed added = some next.owed := by
  cases mode with
  | plain owed =>
    cases owed with
    | nil =>
      dsimp only [step] at taken
      split at taken
      case isTrue =>
        cases taken
        exact ⟨trivial, rfl⟩
      split at taken
      case isTrue => cases taken
      case isFalse =>
        obtain ⟨owed, first, same⟩ := Option.map_eq_some_iff.mp taken
        cases same
        exact ⟨trivial, Utf8.run_lead first []⟩
    | cons range owed =>
      obtain ⟨later, first, same⟩ := Option.map_eq_some_iff.mp taken
      cases same
      exact ⟨trivial, Utf8.run_cons first []⟩
  | escape =>
    dsimp only [step] at taken
    split at taken
    case isTrue =>
      cases taken
      exact ⟨⟨Nat.zero_le _, Nat.one_pos, fun _ none => nomatch none⟩, rfl⟩
    case isFalse =>
      obtain ⟨c, read, same⟩ := Option.map_eq_some_iff.mp taken
      cases same
      exact ⟨trivial, escaped_ascii read⟩
  | unit high digits value =>
    obtain ⟨few, bound, surrogate⟩ := sound
    dsimp only [step] at taken
    cases read : hexValue b with
    | none =>
      rw [read] at taken
      cases taken
    | some digit =>
      have small := hexValue_lt read
      rw [read] at taken
      dsimp only at taken
      split at taken
      case isTrue more =>
        cases taken
        refine ⟨⟨more, ?_, surrogate⟩, rfl⟩
        rw [Nat.pow_succ]
        omega
      case isFalse last =>
        have three : digits = 3 := by omega
        subst three
        exact finish_sound (by omega) surrogate taken
  | pairBackslash high =>
    dsimp only [step] at taken
    split at taken
    case isTrue =>
      cases taken
      exact ⟨sound, rfl⟩
    case isFalse => cases taken
  | pairU high =>
    dsimp only [step] at taken
    split at taken
    case isTrue =>
      cases taken
      refine ⟨⟨Nat.zero_le _, Nat.one_pos, ?_⟩, rfl⟩
      rintro h ⟨⟩
      exact sound
    case isFalse => cases taken

end StringMode

theorem scanString_valid {mode : StringMode} {decoded input value rest : Octets} (sound : mode.Sound)
    (before : Utf8.run [] decoded = some mode.owed)
    (scanned : scanString mode decoded input = some (value, rest)) : Utf8.valid value := by
  induction input generalizing mode decoded with
  | nil => cases scanned
  | cons b input ih =>
    rw [scanString] at scanned
    split at scanned
    case isTrue closed =>
      cases scanned
      rw [closed.1] at before
      exact decide_eq_true before
    case isFalse =>
      split at scanned
      case h_1 => cases scanned
      case h_2 next added taken =>
        obtain ⟨later, extended⟩ := StringMode.step_sound sound taken
        refine ih later ?_ scanned
        rw [Utf8.run_append, before]
        exact extended

/-- A string or key that is reported is UTF-8. -/
def Event.Sound : Event → Prop
  | .string value | .key value => Utf8.valid value
  | _ => True

def Token.Sound : Token → Prop
  | .scalar event => event.Sound
  | _ => True

theorem stringToken_sound (rest : Octets) : (stringToken rest).1.Sound := by
  unfold stringToken
  split
  case h_1 value after scanned =>
    have start : (StringMode.plain []).Sound := trivial
    exact scanString_valid start rfl scanned
  case h_2 => trivial

theorem numberToken_sound (state : NumberState) (b : UInt8) (rest : Octets) :
    (numberToken state b rest).1.Sound := by
  unfold numberToken
  split <;> trivial

theorem ite_sound {condition : Prop} [Decidable condition] {first second : Token × Octets}
    (yes : first.1.Sound) (no : second.1.Sound) : (if condition then first else second).1.Sound := by
  split
  · exact yes
  · exact no

theorem scanAt_sound (b : UInt8) (rest : Octets) : (scanAt b rest).1.Sound := by
  unfold scanAt
  repeat' apply ite_sound
  all_goals first
    | trivial
    | exact scanLiteral_sound trivial
    | exact stringToken_sound rest
    | exact numberToken_sound _ b rest

theorem scan_sound (input : Octets) : (scan input).1.Sound := by
  unfold scan
  split
  · trivial
  · exact scanAt_sound _ _

theorem keyed_sound {values : Token → Octets → List Event} {first : Token × Octets}
    (sound : first.1.Sound) (later : ∀ token rest, token.Sound → ∀ e ∈ values token rest, e.Sound) :
    ∀ e ∈ keyed values first, e.Sound := by
  unfold keyed
  split
  case h_1 key rest =>
    refine List.forall_mem_cons.mpr ⟨sound, ?_⟩
    split
    · exact later _ _ (scan_sound _)
    · exact List.forall_mem_singleton.mpr trivial
  case h_2 => exact List.forall_mem_singleton.mpr trivial

def Mode.Sound : Mode → Prop
  | .value token => token.Sound
  | .evaluate => True

theorem read_sound (fuel : Nat) : ∀ (states : List Bool) (mode : Mode) (input : Octets), mode.Sound →
    ∀ e ∈ read fuel states mode input, e.Sound := by
  have error : ∀ e ∈ [Event.error], e.Sound := List.forall_mem_singleton.mpr trivial
  induction fuel with
  | zero => exact fun _ _ _ _ => error
  | succ fuel ih =>
    intro states mode input sound
    have member : ∀ token : Token × Octets, token.1.Sound → ∀ e ∈ keyed
        (fun token rest => read fuel (false :: states) (.value token) rest) token, e.Sound :=
      fun token first => keyed_sound first fun token rest next => ih _ (.value token) _ next
    cases mode with
    | value token =>
      unfold read
      split
      case h_1 =>
        refine List.forall_mem_cons.mpr ⟨trivial, ?_⟩
        split
        · exact List.forall_mem_cons.mpr ⟨trivial, ih _ .evaluate _ trivial⟩
        · exact member _ (scan_sound _)
      case h_2 =>
        refine List.forall_mem_cons.mpr ⟨trivial, ?_⟩
        split
        · exact List.forall_mem_cons.mpr ⟨trivial, ih _ .evaluate _ trivial⟩
        · exact ih _ (.value _) _ (scan_sound _)
      case h_3 event => exact List.forall_mem_cons.mpr ⟨sound, ih _ .evaluate _ trivial⟩
      case h_4 => exact error
    | evaluate =>
      match states with
      | [] =>
        unfold read
        split
        · exact fun _ none => nomatch none
        · exact error
      | true :: states =>
        unfold read
        split
        · exact ih _ (.value _) _ (scan_sound _)
        · exact List.forall_mem_cons.mpr ⟨trivial, ih _ .evaluate _ trivial⟩
        · exact error
      | false :: states =>
        unfold read
        split
        · exact keyed_sound (scan_sound _) fun token rest next => ih _ (.value token) _ next
        · exact List.forall_mem_cons.mpr ⟨trivial, ih _ .evaluate _ trivial⟩
        · exact error

/-- **Every string and every key that is reported is UTF-8.** -/
theorem sound_of_mem_events (input : Octets) : ∀ e ∈ events input, e.Sound := by
  unfold events
  dsimp only
  split
  · exact read_sound _ _ (.value _) _ (scan_sound _)
  · exact List.forall_mem_singleton.mpr trivial
  · exact read_sound _ _ (.value _) _ (scan_sound _)

/-! ### Documents -/

/-- A document. Its members stand in their order, and a key may stand twice. -/
inductive Value where
  | null
  | boolean (value : Bool)
  | number (lexeme : Octets)
  | string (value : Octets)
  | array (items : List Value)
  | object (members : List (Octets × Value))

mutual

/-- **What a reader reports of a document.** -/
def Value.events : Value → List Event
  | .null => [.null]
  | .boolean value => [.boolean value]
  | .number lexeme => [.number lexeme]
  | .string value => [.string value]
  | .array items => .startArray :: itemEvents items
  | .object members => .startObject :: memberEvents members

def itemEvents : List Value → List Event
  | [] => [.endArray]
  | item :: rest => item.events ++ itemEvents rest

def memberEvents : List (Octets × Value) → List Event
  | [] => [.endObject]
  | (key, value) :: rest => .key key :: (value.events ++ memberEvents rest)

end

mutual

/-- The events of a document show where it ends. -/
theorem events_cancel : ∀ (v w : Value) (r s : List Event), v.events ++ r = w.events ++ s → v = w ∧ r = s
  | .null, w, r, s, same => by
    cases w <;> simp [Value.events] at same
    exact ⟨rfl, same⟩
  | .boolean a, w, r, s, same => by
    cases w <;> simp [Value.events] at same
    exact ⟨by rw [same.1], same.2⟩
  | .number a, w, r, s, same => by
    cases w <;> simp [Value.events] at same
    exact ⟨by rw [same.1], same.2⟩
  | .string a, w, r, s, same => by
    cases w <;> simp [Value.events] at same
    exact ⟨by rw [same.1], same.2⟩
  | .array items, w, r, s, same => by
    cases w <;> simp [Value.events] at same
    obtain ⟨rfl, rest⟩ := itemEvents_cancel items _ _ _ same
    exact ⟨rfl, rest⟩
  | .object members, w, r, s, same => by
    cases w <;> simp [Value.events] at same
    obtain ⟨rfl, rest⟩ := memberEvents_cancel members _ _ _ same
    exact ⟨rfl, rest⟩

theorem itemEvents_cancel : ∀ (v w : List Value) (r s : List Event),
    itemEvents v ++ r = itemEvents w ++ s → v = w ∧ r = s
  | [], [], r, s, same => by simpa [itemEvents] using same
  | [], item :: w, r, s, same => by cases item <;> simp [itemEvents, Value.events] at same
  | item :: v, [], r, s, same => by cases item <;> simp [itemEvents, Value.events] at same
  | item :: v, other :: w, r, s, same => by
    simp only [itemEvents, List.append_assoc] at same
    obtain ⟨rfl, later⟩ := events_cancel item other _ _ same
    obtain ⟨rfl, rest⟩ := itemEvents_cancel v w r s later
    exact ⟨rfl, rest⟩

theorem memberEvents_cancel : ∀ (v w : List (Octets × Value)) (r s : List Event),
    memberEvents v ++ r = memberEvents w ++ s → v = w ∧ r = s
  | [], [], r, s, same => by simpa [memberEvents] using same
  | [], (_, _) :: w, r, s, same => by simp [memberEvents] at same
  | (_, _) :: v, [], r, s, same => by simp [memberEvents] at same
  | (key, value) :: v, (key', other) :: w, r, s, same => by
    simp only [memberEvents, List.append_assoc, List.cons_append, List.cons.injEq, Event.key.injEq] at same
    obtain ⟨rfl, same⟩ := same
    obtain ⟨rfl, later⟩ := events_cancel value other _ _ same
    obtain ⟨rfl, rest⟩ := memberEvents_cancel v w r s later
    exact ⟨rfl, rest⟩

end

/-- **A reader reports different documents differently.** -/
theorem events_injective {v w : Value} (same : v.events = w.events) : v = w :=
  (events_cancel v w [] [] (by rw [same])).1

/-! ### Writing -/

/-- A byte inside a quoted text. Control bytes without a letter are written in hexadecimal. -/
def escapeByte (b : UInt8) : Octets :=
  if b = quote || b = backslash then [backslash, b]
  else if b = 0x08 then [backslash, ascii 'b']
  else if b = 0x09 then [backslash, ascii 't']
  else if b = 0x0a then [backslash, ascii 'n']
  else if b = 0x0c then [backslash, ascii 'f']
  else if b = 0x0d then [backslash, ascii 'r']
  else if b < 0x20 then backslash :: literal "u00" ++ [hexDigit (b / 16), hexDigit (b % 16)]
  else [b]
where
  hexDigit (n : UInt8) : UInt8 := if n < 10 then ascii '0' + n else ascii 'a' + (n - 10)

/-- The text of a string. There is none for bytes that are not UTF-8. -/
def quoted (value : Octets) : Option Octets :=
  if Utf8.valid value then some (quote :: value.flatMap escapeByte ++ [quote]) else none

/-- The text of an array of values given by their texts. -/
def array (items : List Octets) : Octets := ascii '[' :: [ascii ','].intercalate items ++ [ascii ']']

/-- The text of an object; the names are given as texts too. -/
def object (members : List (Octets × Octets)) : Octets :=
  0x7b :: [ascii ','].intercalate (members.map fun m => m.1 ++ ascii ':' :: m.2) ++ [0x7d]

theorem escapeByte_length {b : UInt8} (printable : 0x20 ≤ b) : (escapeByte b).length ≤ 2 := by
  have text : ¬ b < 0x20 := fun control => UInt8.lt_irrefl _ (UInt8.lt_of_lt_of_le control printable)
  unfold escapeByte
  rw [if_neg text]
  repeat' split
  all_goals exact Nat.le_of_ble_eq_true rfl

theorem quoted_of_valid {value : Octets} (utf8 : Utf8.valid value) :
    quoted value = some (quote :: value.flatMap escapeByte ++ [quote]) :=
  if_pos utf8

/-- **A string without control bytes is quoted in at most two bytes for one.** -/
theorem quoted_length {value written : Octets} (printable : ∀ b ∈ value, 0x20 ≤ b)
    (done : quoted value = some written) : written.length ≤ 2 * value.length + 2 := by
  have bound : (value.flatMap escapeByte).length ≤ 2 * value.length := by
    clear done
    induction value with
    | nil => exact Nat.zero_le _
    | cons b value ih =>
      rw [List.flatMap_cons, List.length_append, List.length_cons]
      have first := escapeByte_length (printable b List.mem_cons_self)
      have rest := ih fun c member => printable c (List.mem_cons_of_mem _ member)
      omega
  unfold quoted at done
  split at done
  case isTrue =>
    cases done
    simp only [List.cons_append, List.length_cons, List.length_append, List.length_nil]
    omega
  case isFalse => cases done

theorem intercalate_length (separator : UInt8) (items : List Octets) :
    ([separator].intercalate items).length ≤ (items.map fun item => item.length + 1).sum := by
  induction items with
  | nil => exact Nat.zero_le _
  | cons item items ih =>
    rw [List.map_cons, List.sum_cons]
    cases items with
    | nil =>
      rw [List.intercalate_singleton]
      exact Nat.le_add_right_of_le (Nat.le_succ _)
    | cons next items =>
      rw [List.intercalate_cons_cons]
      simp only [List.length_append, List.length_singleton]
      omega

/-- An object takes two bytes beside the texts of a member, and two more. -/
theorem object_length (members : List (Octets × Octets)) :
    (object members).length ≤ (members.map fun m => m.1.length + m.2.length + 2).sum + 2 := by
  have inside := intercalate_length (ascii ',') (members.map fun m => m.1 ++ ascii ':' :: m.2)
  have same : (members.map fun m => m.1 ++ ascii ':' :: m.2).map (fun item => item.length + 1)
      = members.map fun m => m.1.length + m.2.length + 2 := by
    rw [List.map_map]
    refine List.map_congr_left fun m _ => ?_
    simp only [Function.comp_apply, List.length_append, List.length_cons]
    omega
  rw [same] at inside
  simp only [object, List.cons_append, List.length_cons, List.length_append, List.length_nil]
  omega

/-- An array is as long as its items and one byte for each. -/
theorem array_length {items : List Octets} {bound : Nat} (short : ∀ item ∈ items, item.length ≤ bound) :
    (array items).length ≤ (bound + 1) * items.length + 2 := by
  have inside := intercalate_length (ascii ',') items
  have total := List.sum_le_card_nsmul (items.map fun item => item.length + 1) (bound + 1) (by
    intro n member
    obtain ⟨item, found, rfl⟩ := List.mem_map.mp member
    exact Nat.succ_le_succ (short item found))
  rw [List.length_map, smul_eq_mul, Nat.mul_comm] at total
  simp only [array, List.cons_append, List.length_cons, List.length_append, List.length_nil]
  omega

end Json

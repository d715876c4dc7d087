import NnetText.Json
import NnetText.Proofs.Decimals

/-!
# Reading documents back

A document that has been written down can be read again, and is the same document then
(`Json.decode_pretty`). Reading follows the standard for such texts and knows nothing of how
documents are laid out here: blanks may stand anywhere between tokens, a string may hold every
escape there is, also two units that make up one character, and a number may have any of its
forms. What is no document is refused.

Reading is done in two passes, and neither looks ahead. An automaton turns characters into tokens,
one character at a time (`Json.step`); then tokens are put together to values, with a stack of what
is still open (`Json.value` and `Json.behind`). Accordingly there are two things to prove:

| pass | what it makes of a document | theorem |
|---|---|---|
| characters | its tokens, whatever follows | `Json.hasTokens_pretty` |
| tokens | the document, whatever is open | `Json.value_tokens` |

The first of them has one condition on what follows: a word, that is a number or a name, must not
go on there, since nothing else tells where it ends. The numerals of a document are up to whoever
made it, and have to be numerals (`Json.Sound`).
-/

namespace NnetText.Json

/-! ### Words -/

/-- One digit or more, up to the end. -/
def isDigits (cs : List Char) : Bool := !cs.isEmpty && cs.all Char.isDigit

/-- The digits of a power of ten, behind its sign if it has one. -/
def behindSign : List Char → List Char
  | '+' :: cs => cs
  | '-' :: cs => cs
  | cs => cs

/-- The power of ten behind a number: nothing, or a letter, a sign if need be and digits. -/
def isPower : List Char → Bool
  | [] => true
  | e :: cs => (e == 'e' || e == 'E') && isDigits (behindSign cs)

/-- What may stand behind the whole part of a number: a point with digits, and a power of ten. -/
def isScale : List Char → Bool
  | '.' :: cs => !(cs.takeWhile Char.isDigit).isEmpty && isPower (cs.dropWhile Char.isDigit)
  | cs => isPower cs

/-- A number without its sign. The whole part starts with a zero only if it is one. A whole number
is an integer, and any other number is kept as it is written. -/
def unsigned? (negative : Bool) (cs : List Char) : Option Json :=
  let whole := cs.takeWhile Char.isDigit
  let rest := cs.dropWhile Char.isDigit
  if whole.isEmpty || (whole.head? == some '0' && whole.length != 1) then none
  else if rest.isEmpty then
    some (.int (if negative then -Nat.ofDigitChars 10 whole 0 else Nat.ofDigitChars 10 whole 0))
  else if isScale rest then
    some (.numeral (String.ofList (if negative then '-' :: cs else cs)))
  else none

/-- **A number.** -/
def number? : List Char → Option Json
  | '-' :: cs => unsigned? true cs
  | cs => unsigned? false cs

/-- **What a word stands for.** -/
def scalar? (word : List Char) : Option Json :=
  if word = ['n', 'u', 'l', 'l'] then some .null
  else if word = ['t', 'r', 'u', 'e'] then some (.bool true)
  else if word = ['f', 'a', 'l', 's', 'e'] then some (.bool false)
  else number? word

/-! ### Tokens -/

/-- The tokens of a document. -/
inductive Token where
  | arrayStart
  | arrayEnd
  | objectStart
  | objectEnd
  | colon
  | comma
  | string (s : String)
  | scalar (j : Json)

/-- The tokens of one character. -/
def mark? (c : Char) : Option Token :=
  if c = '[' then some .arrayStart
  else if c = ']' then some .arrayEnd
  else if c = '\x7b' then some .objectStart
  else if c = '\x7d' then some .objectEnd
  else if c = ':' then some .colon
  else if c = ',' then some .comma
  else none

/-- The blanks between tokens. -/
def isSpace (c : Char) : Bool := c == ' ' || c == '\t' || c == '\n' || c == '\r'

/-- The characters of numbers and names. -/
def isWordChar (c : Char) : Bool := c.isAlphanum || c == '+' || c == '-' || c == '.'

/-- The character that a letter behind a backslash stands for. -/
def unescape? (c : Char) : Option Char :=
  if c = '"' || c = '\\' || c = '/' then some c
  else if c = 'b' then some '\x08'
  else if c = 'f' then some '\x0c'
  else if c = 'n' then some '\n'
  else if c = 'r' then some '\r'
  else if c = 't' then some '\t'
  else none

/-- The value of a hexadecimal digit. -/
def hexValue? (c : Char) : Option Nat :=
  if c.isDigit then some (c.toNat - '0'.toNat)
  else if 'a' ≤ c ∧ c ≤ 'f' then some (c.toNat - 'a'.toNat + 10)
  else if 'A' ≤ c ∧ c ≤ 'F' then some (c.toNat - 'A'.toNat + 10)
  else none

/-- Where a reader of characters stands. What has been read of a word or a string is kept newest
first; inside a string, the first half of a pair of units may be waiting for the second. -/
inductive Mode where
  | gap
  | word (read : List Char)
  | text (half : Option Nat) (read : List Char)
  | escape (half : Option Nat) (read : List Char)
  | unit (half : Option Nat) (read : List Char) (places value : Nat)

/-- A unit of four hexadecimal digits inside a string: a character, or half of one. -/
def takeUnit (half : Option Nat) (unit : Nat) (read : List Char) : Option Mode :=
  match half with
  | none =>
    if unit < 0xD800 || 0xE000 ≤ unit then some (.text none (Char.ofNat unit :: read))
    else if unit < 0xDC00 then some (.text (some unit) read)
    else none
  | some first =>
    if 0xDC00 ≤ unit && unit < 0xE000 then
      let c := Char.ofNat (0x10000 + (first - 0xD800) * 0x400 + (unit - 0xDC00))
      some (.text none (c :: read))
    else none

/-- One character between tokens. -/
def stepGap (c : Char) : Option (Mode × List Token) :=
  if isSpace c then some (.gap, [])
  else if c = '"' then some (.text none [], [])
  else if isWordChar c then some (.word [c], [])
  else (mark? c).map (fun t => (.gap, [t]))

/-- **One character**: where it leads, and the tokens that are complete with it. -/
def step : Mode → Char → Option (Mode × List Token)
  | .gap, c => stepGap c
  | .word read, c =>
    if isWordChar c then some (.word (c :: read), [])
    else
      (scalar? read.reverse).bind fun j =>
        (stepGap c).map (fun next => (next.1, .scalar j :: next.2))
  | .text half read, c =>
    if c = '\\' then some (.escape half read, [])
    else if half.isSome then none
    else if c = '"' then some (.gap, [.string (String.ofList read.reverse)])
    else if c.toNat < 0x20 then none
    else some (.text none (c :: read), [])
  | .escape half read, c =>
    if c = 'u' then some (.unit half read 3 0, [])
    else if half.isSome then none
    else (unescape? c).map (fun d => (.text none (d :: read), []))
  | .unit half read places value, c =>
    (hexValue? c).bind fun d =>
      match places with
      | 0 => (takeUnit half (16 * value + d) read).map (·, [])
      | places + 1 => some (.unit half read places (16 * value + d), [])

/-- The tokens that are complete with the end of the text. -/
def finishTokens : Mode → Option (List Token)
  | .gap => some []
  | .word read => (scalar? read.reverse).map ([.scalar ·])
  | .text _ _ | .escape _ _ | .unit _ _ _ _ => none

/-- **The tokens of a text**, from a mode on. -/
def tokensFrom : Mode → List Char → Option (List Token)
  | m, [] => finishTokens m
  | m, c :: cs => (step m c).bind fun next => (tokensFrom next.1 cs).map (next.2 ++ ·)

/-! ### Values -/

/-- What a value is part of: an array or an object, with the elements or members in front of it,
newest first, and in an object with its key. -/
inductive Frame where
  | array (before : List Json)
  | object (before : List (String × Json)) (key : String)

mutual

/-- **The value that stands next**, and all it is part of. -/
def value : List Frame → List Token → Option Json
  | frames, .scalar j :: ts => behind frames j ts
  | frames, .string s :: ts => behind frames (.string s) ts
  | frames, .arrayStart :: .arrayEnd :: ts => behind frames (.array []) ts
  | frames, .arrayStart :: ts => value (.array [] :: frames) ts
  | frames, .objectStart :: .objectEnd :: ts => behind frames (.object []) ts
  | frames, .objectStart :: .string key :: .colon :: ts => value (.object [] key :: frames) ts
  | _, _ => none

/-- What is behind a value. -/
def behind : List Frame → Json → List Token → Option Json
  | [], j, [] => some j
  | .array before :: frames, j, .comma :: ts => value (.array (j :: before) :: frames) ts
  | .array before :: frames, j, .arrayEnd :: ts =>
    behind frames (.array (j :: before).reverse) ts
  | .object before key :: frames, j, .comma :: .string next :: .colon :: ts =>
    value (.object ((key, j) :: before) next :: frames) ts
  | .object before key :: frames, j, .objectEnd :: ts =>
    behind frames (.object ((key, j) :: before).reverse) ts
  | _, _, _ => none

end

/-- **The document that a text is.** -/
def decode (text : String) : Option Json := (tokensFrom .gap text.toList).bind (value [])

/-! ### The tokens of what is written -/

mutual

/-- The tokens of a document. -/
def tokens : Json → List Token
  | array [] => [.arrayStart, .arrayEnd]
  | array (j :: js) => .arrayStart :: (tokens j ++ laterElements js ++ [.arrayEnd])
  | object [] => [.objectStart, .objectEnd]
  | object ((k, j) :: ms) =>
    .objectStart :: .string k :: .colon :: (tokens j ++ laterMembers ms ++ [.objectEnd])
  | string s => [.string s]
  | null => [.scalar .null]
  | bool b => [.scalar (.bool b)]
  | int n => [.scalar (.int n)]
  | numeral text => [.scalar (.numeral text)]

/-- The tokens of the elements behind another. -/
def laterElements : List Json → List Token
  | [] => []
  | j :: js => .comma :: (tokens j ++ laterElements js)

/-- The tokens of the members behind another. -/
def laterMembers : List (String × Json) → List Token
  | [] => []
  | (k, j) :: ms => .comma :: .string k :: .colon :: (tokens j ++ laterMembers ms)

end

/-- The tokens of elements, without brackets. -/
def elementTokens : List Json → List Token
  | [] => []
  | j :: js => tokens j ++ laterElements js

/-- The tokens of members, without brackets. -/
def memberTokens : List (String × Json) → List Token
  | [] => []
  | (k, j) :: ms => .string k :: .colon :: (tokens j ++ laterMembers ms)

theorem tokensFrom_cons {m m' : Mode} {c : Char} {ts : List Token} (h : step m c = some (m', ts))
    (cs : List Char) : tokensFrom m (c :: cs) = (tokensFrom m' cs).map (ts ++ ·) := by
  rw [tokensFrom, h, Option.bind_some]

/-- A character that completes no token. -/
theorem tokensFrom_cons_nil {m m' : Mode} {c : Char} (h : step m c = some (m', []))
    (cs : List Char) : tokensFrom m (c :: cs) = tokensFrom m' cs := by
  rw [tokensFrom_cons h]
  exact Option.map_id'

/-- A text has some tokens, whatever follows it, as long as no word goes on there. -/
def HasTokens (text : List Char) (ts : List Token) : Prop :=
  ∀ rest, (∀ c ∈ rest.head?, isWordChar c = false) →
    tokensFrom .gap (text ++ rest) = (tokensFrom .gap rest).map (ts ++ ·)

theorem toList_indent (depth : Nat) :
    (indent depth).toList = '\n' :: List.replicate (2 * depth) ' ' :=
  String.toList_ofList

section HasTokens

variable {text text' : List Char} {ts ts' : List Token} {c : Char}

theorem hasTokens_nil : HasTokens [] [] := by
  intro rest _
  simp

theorem HasTokens.append (h : HasTokens text ts) (h' : HasTokens (c :: text') ts')
    (hc : isWordChar c = false) : HasTokens (text ++ c :: text') (ts ++ ts') := by
  intro rest hrest
  have hhead : ∀ d ∈ (c :: text' ++ rest).head?, isWordChar d = false := by
    intro d hd
    obtain rfl : c = d := Option.some.inj hd
    exact hc
  rw [List.append_assoc, h _ hhead, h' rest hrest, Option.map_map]
  congr 1
  funext more
  exact (List.append_assoc ts ts' more).symm

/-- A blank makes no difference. -/
theorem HasTokens.space (h : HasTokens text ts) (hc : isSpace c = true) :
    HasTokens (c :: text) ts := by
  intro rest hrest
  have hstep : step .gap c = some (.gap, []) := if_pos hc
  rw [List.cons_append, tokensFrom_cons_nil hstep, h rest hrest]

theorem HasTokens.mark {t : Token} (h : HasTokens text ts) (hc : step .gap c = some (.gap, [t])) :
    HasTokens (c :: text) (t :: ts) := by
  intro rest hrest
  rw [List.cons_append, tokensFrom_cons hc, h rest hrest, Option.map_map]
  rfl

theorem HasTokens.indent (h : HasTokens text ts) (depth : Nat) :
    HasTokens ((Json.indent depth).toList ++ text) ts := by
  have hspaces : ∀ n, HasTokens (List.replicate n ' ' ++ text) ts := by
    intro n
    induction n with
    | zero => exact h
    | succ n ih => exact ih.space rfl
  rw [toList_indent]
  exact (hspaces _).space rfl

/-- What starts a new line may follow anything. -/
theorem HasTokens.append_indent {depth : Nat} (h : HasTokens text ts)
    (h' : HasTokens ((Json.indent depth).toList ++ text') ts') :
    HasTokens (text ++ ((Json.indent depth).toList ++ text')) (ts ++ ts') := by
  rw [toList_indent] at h' ⊢
  exact h.append h' (by decide)

end HasTokens

/-- A character of a word is no blank and no quote. -/
theorem step_gap_of_isWordChar {c : Char} (h : isWordChar c = true) :
    step .gap c = some (.word [c], []) := by
  have hspace : ¬isSpace c = true := by
    intro hspace
    simp only [isSpace, Bool.or_eq_true, beq_iff_eq] at hspace
    rcases hspace with ((rfl | rfl) | rfl) | rfl <;> cases h
  have hquote : c ≠ '"' := by
    rintro rfl
    cases h
  rw [step, stepGap, if_neg hspace, if_neg hquote, if_pos h]

/-- Inside a word, the characters of it are gathered. -/
theorem tokensFrom_word {word : List Char} (h : ∀ c ∈ word, isWordChar c = true)
    (read rest : List Char) :
    tokensFrom (.word read) (word ++ rest) = tokensFrom (.word (word.reverse ++ read)) rest := by
  induction word generalizing read with
  | nil => rfl
  | cons c word ih =>
    obtain ⟨hc, hword⟩ := List.forall_mem_cons.mp h
    have hstep : step (.word read) c = some (.word (c :: read), []) := if_pos hc
    rw [List.cons_append, tokensFrom_cons_nil hstep, ih hword, List.reverse_cons,
      List.append_assoc, List.singleton_append]

/-- A word ends where no word goes on. -/
theorem tokensFrom_word_end {read rest : List Char} {j : Json} (h : scalar? read.reverse = some j)
    (hrest : ∀ c ∈ rest.head?, isWordChar c = false) :
    tokensFrom (.word read) rest = (tokensFrom .gap rest).map (.scalar j :: ·) := by
  cases rest with
  | nil =>
    rw [tokensFrom, finishTokens, h, tokensFrom, finishTokens, Option.map_some, Option.map_some]
  | cons c rest =>
    have hc : isWordChar c = false := hrest c rfl
    rw [tokensFrom, tokensFrom, step, step, if_neg (by rw [hc]; decide), h, Option.bind_some]
    rcases stepGap c with _ | ⟨m, ts⟩
    · rfl
    · rw [Option.map_some, Option.bind_some, Option.bind_some, Option.map_map]
      rfl

/-- **A word is one token.** -/
theorem hasTokens_word {word : List Char} {j : Json} (hne : word ≠ [])
    (hword : word.all isWordChar = true) (h : scalar? word = some j) :
    HasTokens word [.scalar j] := by
  intro rest hrest
  obtain ⟨c, word, rfl⟩ := List.exists_cons_of_ne_nil hne
  obtain ⟨hc, hword⟩ := List.forall_mem_cons.mp (List.all_eq_true.mp hword)
  rw [List.cons_append, tokensFrom_cons_nil (step_gap_of_isWordChar hc), tokensFrom_word hword]
  refine tokensFrom_word_end ?_ hrest
  rw [List.reverse_append, List.reverse_reverse]
  exact h

/-! ### Strings -/

theorem hexValue?_hexDigit : ∀ n < 16, hexValue? (hexDigit n) = some n := by decide

/-- A letter behind a backslash. -/
theorem tokensFrom_letter {c d : Char} (h : unescape? d = some c) (read rest : List Char) :
    tokensFrom (.text none read) ('\\' :: d :: rest) =
      tokensFrom (.text none (c :: read)) rest := by
  have hstart : step (.text none read) '\\' = some (.escape none read, []) := rfl
  have hletter : step (.escape none read) d = some (.text none (c :: read), []) := by
    have hd : d ≠ 'u' := by
      rintro rfl
      cases h
    rw [step, if_neg hd, h]
    rfl
  rw [tokensFrom_cons_nil hstart, tokensFrom_cons_nil hletter]

/-- A control behind a backslash, by its number. -/
theorem tokensFrom_unit {n : Nat} (h : n < 0x20) (read rest : List Char) :
    tokensFrom (.text none read)
        ('\\' :: 'u' :: '0' :: '0' :: hexDigit (n / 16) :: hexDigit (n % 16) :: rest) =
      tokensFrom (.text none (Char.ofNat n :: read)) rest := by
  have hstart : step (.text none read) '\\' = some (.escape none read, []) := rfl
  have hunit : step (.escape none read) 'u' = some (.unit none read 3 0, []) := rfl
  have hfirst : step (.unit none read 3 0) '0' = some (.unit none read 2 0, []) := rfl
  have hsecond : step (.unit none read 2 0) '0' = some (.unit none read 1 0, []) := rfl
  have hthird : step (.unit none read 1 0) (hexDigit (n / 16)) =
      some (.unit none read 0 (n / 16), []) := by
    rw [step, hexValue?_hexDigit _ (by omega), Option.bind_some, Nat.mul_zero, Nat.zero_add]
  have hfourth : step (.unit none read 0 (n / 16)) (hexDigit (n % 16)) =
      some (.text none (Char.ofNat n :: read), []) := by
    have hvalue : 16 * (n / 16) + n % 16 = n := by omega
    have hlow : (n < 0xD800 || 0xE000 ≤ n : Bool) = true := by
      rw [decide_eq_true (by omega : n < 0xD800), Bool.true_or]
    rw [step, hexValue?_hexDigit _ (by omega), Option.bind_some, hvalue, takeUnit, if_pos hlow]
    rfl
  rw [tokensFrom_cons_nil hstart, tokensFrom_cons_nil hunit, tokensFrom_cons_nil hfirst,
    tokensFrom_cons_nil hsecond, tokensFrom_cons_nil hthird, tokensFrom_cons_nil hfourth]

/-- **An escaped character is read as itself.** -/
theorem tokensFrom_escapeChar (c : Char) (read rest : List Char) :
    tokensFrom (.text none read) (escapeChar c ++ rest) =
      tokensFrom (.text none (c :: read)) rest := by
  unfold escapeChar
  split_ifs with hquote hslash hfeed htab hreturn hback hform hcontrol
  · subst hquote
    exact tokensFrom_letter rfl read rest
  · subst hslash
    exact tokensFrom_letter rfl read rest
  · subst hfeed
    exact tokensFrom_letter rfl read rest
  · subst htab
    exact tokensFrom_letter rfl read rest
  · subst hreturn
    exact tokensFrom_letter rfl read rest
  · obtain rfl : c = '\x08' := Char.toNat_inj.mp hback
    exact tokensFrom_letter rfl read rest
  · obtain rfl : c = '\x0c' := Char.toNat_inj.mp hform
    exact tokensFrom_letter rfl read rest
  · have hunit := tokensFrom_unit hcontrol read rest
    rwa [Char.ofNat_toNat] at hunit
  · have hplain : step (.text none read) c = some (.text none (c :: read), []) := by
      rw [step, if_neg hslash, if_neg (by simp), if_neg hquote, if_neg hcontrol]
    exact tokensFrom_cons_nil hplain rest

theorem tokensFrom_escaped (cs read rest : List Char) :
    tokensFrom (.text none read) (cs.flatMap escapeChar ++ rest) =
      tokensFrom (.text none (cs.reverse ++ read)) rest := by
  induction cs generalizing read with
  | nil => rfl
  | cons c cs ih =>
    rw [List.flatMap_cons, List.append_assoc, tokensFrom_escapeChar, ih, List.reverse_cons,
      List.append_assoc, List.singleton_append]

/-- **A string in quotes is one token.** -/
theorem hasTokens_quote (s : String) : HasTokens (quote s).toList [.string s] := by
  intro rest _
  have hopen : step .gap '"' = some (.text none [], []) := rfl
  have hclose : step (.text none (s.toList.reverse ++ [])) '"' = some (.gap, [.string s]) := by
    rw [List.append_nil]
    change some (Mode.gap, [Token.string (String.ofList s.toList.reverse.reverse)]) = _
    rw [List.reverse_reverse, String.ofList_toList]
  rw [quote, String.toList_ofList, List.cons_append, List.append_assoc, tokensFrom_cons_nil hopen,
    tokensFrom_escaped, List.singleton_append, tokensFrom_cons hclose]

/-! ### Integers -/

/-- What starts with a digit or a sign is a number, if it is anything. -/
theorem scalar?_eq_number? {c : Char} (h : c.isDigit = true ∨ c = '-') (cs : List Char) :
    scalar? (c :: cs) = number? (c :: cs) := by
  have hne : ∀ d ds, d.isDigit = false → d ≠ '-' → c :: cs ≠ d :: ds := by
    rintro d ds hd hsign heq
    obtain ⟨rfl, -⟩ := List.cons.inj heq
    rcases h with h | h
    · cases hd.symm.trans h
    · exact hsign h
  rw [scalar?, if_neg (hne 'n' _ (by decide) (by decide)),
    if_neg (hne 't' _ (by decide) (by decide)), if_neg (hne 'f' _ (by decide) (by decide))]

theorem number?_of_isDigit {c : Char} (h : c.isDigit = true) (cs : List Char) :
    number? (c :: cs) = unsigned? false (c :: cs) := by
  unfold number?
  split
  · rename_i heq
    obtain ⟨rfl, -⟩ := List.cons.inj heq
    cases h
  · rfl

/-- The whole part of a number: digits, without a zero in front of others. -/
structure IsWhole (whole : List Char) : Prop where
  ne_nil : whole ≠ []
  digits : ∀ c ∈ whole, c.isDigit = true
  zero : whole.head? = some '0' → whole.length = 1

/-- Digits are taken up to where they end. -/
theorem takeWhile_isDigit_append {ds rest : List Char} (h : ∀ c ∈ ds, c.isDigit = true)
    (hrest : ∀ c ∈ rest.head?, c.isDigit = false) :
    (ds ++ rest).takeWhile Char.isDigit = ds ∧ (ds ++ rest).dropWhile Char.isDigit = rest := by
  rw [List.takeWhile_append_of_pos h, List.dropWhile_append_of_pos h]
  cases rest with
  | nil => simp
  | cons c rest =>
    have hc : c.isDigit = false := hrest c rfl
    simp [hc]

/-- A number is taken apart at the end of its whole part. -/
theorem unsigned?_append {whole : List Char} (h : IsWhole whole) (negative : Bool)
    (rest : List Char) (hrest : ∀ c ∈ rest.head?, c.isDigit = false) :
    unsigned? negative (whole ++ rest) =
      if rest.isEmpty then
        some (.int (if negative then -Nat.ofDigitChars 10 whole 0 else Nat.ofDigitChars 10 whole 0))
      else if isScale rest then
        some (.numeral (String.ofList (if negative then '-' :: (whole ++ rest) else whole ++ rest)))
      else none := by
  obtain ⟨htake, hdrop⟩ := takeWhile_isDigit_append h.digits hrest
  have hwhole : ¬(whole.isEmpty || (whole.head? == some '0' && whole.length != 1)) = true := by
    intro hbad
    simp only [Bool.or_eq_true, List.isEmpty_iff, Bool.and_eq_true, beq_iff_eq, bne_iff_ne] at hbad
    rcases hbad with hbad | ⟨hzero, hlength⟩
    · exact h.ne_nil hbad
    · exact hlength (h.zero hzero)
  rw [unsigned?, htake, hdrop, if_neg hwhole]

theorem isWhole_toDigits (n : Nat) : IsWhole (Nat.toDigits 10 n) := by
  refine ⟨Nat.toDigits_ne_nil, fun _ => isDigit_of_mem_toDigits, fun hzero => ?_⟩
  rcases Nat.eq_zero_or_pos n with rfl | hpos
  · decide
  · exact absurd hzero (head?_toDigits_ne_zero hpos)

/-- **An integer in decimal is read as itself.** -/
theorem scalar?_toString (n : Int) : scalar? (toString n).toList = some (.int n) := by
  rw [toList_toString_int]
  split
  · rename_i hn
    obtain ⟨c, cs, hcs⟩ := List.exists_cons_of_ne_nil (isWhole_toDigits n.toNat).ne_nil
    have hc : c.isDigit = true := isDigit_of_mem_toDigits (hcs ▸ List.mem_cons_self)
    have hunsigned := unsigned?_append (isWhole_toDigits n.toNat) false [] (by simp)
    rw [List.append_nil, Nat.ofDigitChars_ten_toDigits] at hunsigned
    rw [hcs, scalar?_eq_number? (Or.inl hc), number?_of_isDigit hc, ← hcs, hunsigned]
    exact congrArg (fun k => some (Json.int k)) (Int.toNat_of_nonneg hn)
  · rename_i hn
    have hunsigned := unsigned?_append (isWhole_toDigits (-n).toNat) true [] (by simp)
    rw [List.append_nil, Nat.ofDigitChars_ten_toDigits] at hunsigned
    have hmagnitude : -((-n).toNat : Int) = n := by omega
    rw [scalar?_eq_number? (Or.inr rfl), number?, hunsigned]
    exact congrArg (fun k => some (Json.int k)) hmagnitude

theorem isWordChar_of_isDigit {c : Char} (h : c.isDigit = true) : isWordChar c = true := by
  simp [isWordChar, Char.isAlphanum, h]

theorem isWordChar_of_mem_toString {n : Int} {c : Char} (h : c ∈ (toString n).toList) :
    isWordChar c = true := by
  rcases isDigit_or_minus_of_mem_toString h with hdigit | rfl
  · exact isWordChar_of_isDigit hdigit
  · decide

/-! ### Documents -/

/-- **A part of a document**: the document itself, or a part of an element or a member. -/
inductive IsPart (i : Json) : Json → Prop
  | self : IsPart i i
  | element {j : Json} {js : List Json} (h : j ∈ js) (part : IsPart i j) : IsPart i (.array js)
  | member {m : String × Json} {ms : List (String × Json)} (h : m ∈ ms) (part : IsPart i m.2) :
      IsPart i (.object ms)

/-- **A numeral that is read as itself.** -/
structure IsNumeral (text : String) : Prop where
  ne_nil : text.toList ≠ []
  word : text.toList.all isWordChar = true
  scalar : scalar? text.toList = some (.numeral text)

/-- All numerals of a document are read as themselves. -/
def Sound (j : Json) : Prop := ∀ text, IsPart (.numeral text) j → IsNumeral text

theorem Sound.element {js : List Json} (h : Sound (.array js)) : ∀ j ∈ js, Sound j :=
  fun _ hj text part => h text (.element hj part)

theorem Sound.member {ms : List (String × Json)} (h : Sound (.object ms)) : ∀ m ∈ ms, Sound m.2 :=
  fun _ hm text part => h text (.member hm part)

mutual

/-- **The tokens of a document that is written down.** -/
theorem hasTokens_pretty (depth : Nat) :
    ∀ j : Json, Sound j → HasTokens (prettyAt depth j).toList (tokens j)
  | .null, _ => by
    rw [prettyAt]
    exact hasTokens_word (by decide) (by decide) rfl
  | .bool true, _ => by
    rw [prettyAt]
    exact hasTokens_word (by decide) (by decide) rfl
  | .bool false, _ => by
    rw [prettyAt]
    exact hasTokens_word (by decide) (by decide) rfl
  | .int n, _ => by
    rw [prettyAt]
    have hscalar := scalar?_toString n
    refine hasTokens_word (fun hnil => ?_)
      (List.all_eq_true.mpr fun _ => isWordChar_of_mem_toString) hscalar
    rw [hnil] at hscalar
    cases hscalar
  | .numeral text, h => by
    rw [prettyAt]
    obtain ⟨hne, hword, hscalar⟩ := h text .self
    exact hasTokens_word hne hword hscalar
  | .string s, _ => by
    rw [prettyAt]
    exact hasTokens_quote s
  | .array [], _ => by
    rw [prettyAt]
    exact (hasTokens_nil.mark rfl).mark rfl
  | .array (j :: js), h => by
    have helements := hasTokens_prettyElements (depth + 1) (j :: js) h.element
    have hclose : HasTokens [']'] [.arrayEnd] := hasTokens_nil.mark rfl
    simp only [prettyAt, String.toList_append, List.append_assoc]
    exact (helements.append_indent (hclose.indent depth)).mark rfl
  | .object [], _ => by
    rw [prettyAt]
    exact (hasTokens_nil.mark rfl).mark rfl
  | .object (m :: ms), h => by
    have hmembers := hasTokens_prettyMembers (depth + 1) (m :: ms) h.member
    have hclose : HasTokens ['\x7d'] [.objectEnd] := hasTokens_nil.mark rfl
    simp only [prettyAt, String.toList_append, List.append_assoc]
    exact (hmembers.append_indent (hclose.indent depth)).mark rfl

theorem hasTokens_prettyElements (depth : Nat) :
    ∀ js : List Json, (∀ j ∈ js, Sound j) →
      HasTokens (prettyElements depth js).toList (elementTokens js)
  | [], _ => hasTokens_nil
  | [j], h => by
    have hj := hasTokens_pretty depth j (h j List.mem_cons_self)
    rw [prettyElements, String.toList_append, elementTokens, laterElements, List.append_nil]
    exact hj.indent depth
  | j :: j' :: js, h => by
    have hj := hasTokens_pretty depth j (h j List.mem_cons_self)
    have hjs := hasTokens_prettyElements depth (j' :: js)
      fun i hi => h i (List.mem_cons_of_mem _ hi)
    simp only [prettyElements, String.toList_append, List.append_assoc]
    exact (hj.append (hjs.mark rfl) (by decide)).indent depth

theorem hasTokens_prettyMembers (depth : Nat) :
    ∀ ms : List (String × Json), (∀ m ∈ ms, Sound m.2) →
      HasTokens (prettyMembers depth ms).toList (memberTokens ms)
  | [], _ => hasTokens_nil
  | [(k, j)], h => by
    have hj := hasTokens_pretty depth j (h (k, j) List.mem_cons_self)
    have hvalue : HasTokens (": ".toList ++ (prettyAt depth j).toList) (.colon :: tokens j) :=
      (hj.space rfl).mark rfl
    simp only [prettyMembers, String.toList_append, List.append_assoc, memberTokens, laterMembers,
      List.append_nil]
    exact ((hasTokens_quote k).append hvalue (by decide)).indent depth
  | (k, j) :: m :: ms, h => by
    have hj := hasTokens_pretty depth j (h (k, j) List.mem_cons_self)
    have hms := hasTokens_prettyMembers depth (m :: ms) fun i hi => h i (List.mem_cons_of_mem _ hi)
    have hvalue : HasTokens (": ".toList ++ ((prettyAt depth j).toList ++
        (",".toList ++ (prettyMembers depth (m :: ms)).toList)))
        (.colon :: (tokens j ++ .comma :: memberTokens (m :: ms))) :=
      ((hj.append (hms.mark rfl) (by decide)).space rfl).mark rfl
    simp only [prettyMembers, String.toList_append, List.append_assoc]
    exact ((hasTokens_quote k).append hvalue (by decide)).indent depth

end

/-! ### Values read back -/

/-- Behind the start of an array, a value is its first element. -/
theorem value_arrayStart (frames : List Frame) (j : Json) (ts : List Token) :
    value frames (.arrayStart :: (tokens j ++ ts)) =
      value (.array [] :: frames) (tokens j ++ ts) := by
  -- no value starts with the token that ends an array
  cases j with
  | array js => cases js <;> rfl
  | object ms => cases ms <;> rfl
  | null | bool | int | numeral | string => rfl

mutual

/-- **The value that stands next is the one written there.** -/
theorem value_tokens (frames : List Frame) (ts : List Token) :
    ∀ j : Json, value frames (tokens j ++ ts) = behind frames j ts
  | .null => rfl
  | .bool _ => rfl
  | .int _ => rfl
  | .numeral _ => rfl
  | .string _ => rfl
  | .array [] => rfl
  | .array (j :: js) => by
    rw [tokens, List.cons_append, List.append_assoc, List.append_assoc, value_arrayStart,
      value_tokens _ _ j, List.singleton_append, behind_laterElements frames [] j ts js]
    rfl
  | .object [] => rfl
  | .object ((k, j) :: ms) => by
    rw [tokens, List.cons_append, List.cons_append, List.cons_append, List.append_assoc,
      List.append_assoc, value, value_tokens _ _ j, List.singleton_append,
      behind_laterMembers frames [] (k, j) ts ms]
    rfl

theorem behind_laterElements (frames : List Frame) (before : List Json) (j : Json)
    (ts : List Token) : ∀ js : List Json,
      behind (.array before :: frames) j (laterElements js ++ .arrayEnd :: ts) =
        behind frames (.array (before.reverse ++ j :: js)) ts
  | [] => by
    rw [laterElements, List.nil_append, behind, List.reverse_cons]
  | i :: js => by
    rw [laterElements, List.cons_append, List.append_assoc, behind, value_tokens _ _ i,
      behind_laterElements frames (j :: before) i ts js, List.reverse_cons, List.append_assoc,
      List.singleton_append]

theorem behind_laterMembers (frames : List Frame) (before : List (String × Json))
    (m : String × Json) (ts : List Token) : ∀ ms : List (String × Json),
      behind (.object before m.1 :: frames) m.2 (laterMembers ms ++ .objectEnd :: ts) =
        behind frames (.object (before.reverse ++ m :: ms)) ts
  | [] => by
    rw [laterMembers, List.nil_append, behind, List.reverse_cons]
  | (k, i) :: ms => by
    rw [laterMembers, List.cons_append, List.cons_append, List.cons_append, List.append_assoc,
      behind, value_tokens _ _ i, behind_laterMembers frames (m :: before) (k, i) ts ms,
      List.reverse_cons, List.append_assoc, List.singleton_append]

end

/-- **A document is read back** from what is written, if its numerals are. -/
theorem decode_pretty {j : Json} (h : Sound j) : decode j.pretty = some j := by
  have htokens := hasTokens_pretty 0 j h [] (by simp)
  have hvalue := value_tokens [] [] j
  rw [List.append_nil] at htokens hvalue
  rw [decode, pretty, htokens, tokensFrom, finishTokens, Option.map_some, Option.bind_some,
    List.append_nil, hvalue, behind]

example : decode " [\"\\ud83d\\ude00\\/\", -0.5E+3,\r\tnull ]" =
    some (.array [.string "😀/", .numeral "-0.5E+3", .null]) := rfl

example : (decode "[1,]").isNone ∧ (decode "[01]").isNone ∧ (decode "1 2").isNone ∧
    (decode "\"\\ud83d\"").isNone ∧ (decode "\"\n\"").isNone := by decide

end NnetText.Json

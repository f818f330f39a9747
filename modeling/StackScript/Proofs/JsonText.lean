import Mathlib.Tactic
import StackScript.Json.Printer
import StackScript.Json.Reader

set_option autoImplicit false

/-!
# Reading compact text back

The compact text of a value is scanned into the tokens of the value, and these are read as the value
(`Json.parse?_compact`). Values with a garbled part or with a number that has a fraction or an
exponent are left out: the former are written as null, and the text of the latter is arbitrary.

Scanner and reader are machines, and both are treated alike. A stretch of input is described by what
it does to the machine whatever comes behind it (`Token.Scans`, `Reader.Reads`), and stretches are
put together in the way the printer does it.

The nesting of a text is counted on its characters. For the compact text of a value it is the depth
of the value (`Json.nesting_compact`).
-/

namespace StackScript.Json

/-- A value that its compact text determines: no part of it is garbled, and its numbers have neither
a fraction nor an exponent. -/
inductive Plain : Json → Prop
  | null : Plain .null
  | bool (b : Bool) : Plain (.bool b)
  | integer (negative : Bool) (n : Nat) : Plain (.number (.integer negative n))
  | string (s : String) : Plain (.string s)
  | array {elements : List Json} (h : ∀ v ∈ elements, Plain v) : Plain (.array elements)
  | object {fields : List (String × Json)} (h : ∀ entry ∈ fields, Plain entry.2) :
      Plain (.object fields)

mutual

/-- The tokens of a value's compact text. -/
def tokens : Json → List Token
  | null | garbled => [.null]
  | bool b => [.bool b]
  | number n => [.number n]
  | string s => [.string (some s)]
  | array elements => .openBracket :: elementTokens elements ++ [.closeBracket]
  | object fields => .openBrace :: fieldTokens fields ++ [.closeBrace]

/-- The tokens of elements with commas between them. -/
def elementTokens : List Json → List Token
  | [] => []
  | [v] => v.tokens
  | v :: rest => v.tokens ++ .comma :: elementTokens rest

/-- The tokens of fields with commas between them. -/
def fieldTokens : List (String × Json) → List Token
  | [] => []
  | [(key, v)] => .string (some key) :: .colon :: v.tokens
  | (key, v) :: rest => .string (some key) :: .colon :: (v.tokens ++ .comma :: fieldTokens rest)

end

/-! ## Decimal digits -/

/-- The digits of a positive number begin with one that is not zero. -/
theorem exists_toDigits_eq_cons {n : Nat} (hpos : 0 < n) :
    ∃ c rest, Nat.toDigits 10 n = c :: rest ∧ c ≠ '0' := by
  induction n using Nat.strongRecOn with
  | ind n ih =>
    by_cases hlt : n < 10
    · refine ⟨n.digitChar, [], Nat.toDigits_of_lt_base hlt, ?_⟩
      interval_cases n <;> decide
    · obtain ⟨c, rest, hdigits, hc⟩ := ih (n / 10) (by omega) (by omega)
      refine ⟨c, rest ++ [Nat.digitChar (n % 10)], ?_, hc⟩
      rw [Nat.toDigits_of_base_le (by decide) (by omega), hdigits]
      rfl

theorem value_toDigits (n : Nat) : Decimal.value (Nat.toDigits 10 n) = n :=
  Nat.ofDigitChars_ten_toDigits

theorem ne_of_isDigit {c c' : Char} (hc : c.isDigit) (hc' : c'.isDigit = false) : c ≠ c' := by
  rintro rfl
  rw [hc] at hc'
  cases hc'

/-! ## Characters of strings -/

/-- What the printer can write for a character of a string. -/
inductive Escapes : Char → List Char → Prop
  | letter {c letter : Char} (h : Token.escape? letter = some c) : Escapes c ['\\', letter]
  | control {c : Char} (h : c.toNat < 32) :
      Escapes c ['\\', 'u', '0', '0', hexDigit (c.toNat / 16), hexDigit c.toNat]
  | plain {c : Char} (hquote : c ≠ '\x22') (hbackslash : c ≠ '\\') (hc : ¬ c.toNat < 32) :
      Escapes c [c]

/-- One test of the printer: for a character that a letter escapes. -/
theorem escapes_ite {c special letter : Char} {chars : List Char}
    (hletter : Token.escape? letter = some special) (h : c ≠ special → Escapes c chars) :
    Escapes c (if c = special then ['\\', letter] else chars) := by
  split
  · next heq =>
    subst heq
    exact .letter hletter
  · next hne => exact h hne

theorem escapes_escaped (c : Char) : Escapes c (escaped c) := by
  apply escapes_ite rfl
  intro hquote
  apply escapes_ite rfl
  intro hbackslash
  -- backspace, form feed, line feed, carriage return and tab
  iterate 5
    apply escapes_ite rfl
    intro _
  split
  · next hcontrol => exact .control hcontrol
  · next hcontrol => exact .plain hquote hbackslash hcontrol

namespace Token

/-! ## Scanning -/

/-- Nothing, or a sign that cannot belong to a number in front. -/
def Stops (rest : List Char) : Prop := ∀ c ∈ rest.head?, c ∈ [',', ':', ']', '\x7d']

/-- Characters that are scanned into given tokens, whatever was scanned before, if such a sign or
the end of the text follows. -/
def Scans (chars : List Char) (tokens : List Token) : Prop :=
  ∀ before rest, Stops rest →
    scanFrom? .between before (chars ++ rest) = scanFrom? .between (tokens.reverse ++ before) rest

theorem stops_cons {c : Char} (hc : c ∈ [',', ':', ']', '\x7d']) (rest : List Char) :
    Stops (c :: rest) := by
  intro c' hc'
  cases hc'
  exact hc

theorem Scans.nil : Scans [] [] := fun _ _ _ => rfl

theorem Scans.cons {c : Char} {token : Token} {chars : List Char} {tokens : List Token}
    (hc : begin? c = some (.between, [token])) (h : Scans chars tokens) :
    Scans (c :: chars) (token :: tokens) := by
  intro before rest hrest
  simp only [List.cons_append, scanFrom?, advance, hc]
  rw [h _ rest hrest]
  simp

theorem Scans.append_cons {c : Char} {token : Token} {left right : List Char}
    {tokens more : List Token} (hleft : Scans left tokens) (hc : c ∈ [',', ':', ']', '\x7d'])
    (htoken : begin? c = some (.between, [token])) (hright : Scans right more) :
    Scans (left ++ c :: right) (tokens ++ token :: more) := by
  intro before rest hrest
  rw [List.append_assoc, hleft before (c :: right ++ rest) (stops_cons hc _),
    hright.cons htoken _ rest hrest]
  simp

/-! ### Strings -/

/-- The part that a character of a string is scanned into. -/
inductive Part.Writes : Part → Char → Prop
  | plain (c : Char) : Writes (.plain c) c
  | control {c : Char} (h : c.toNat < 32) : Writes (.unit c.toNat) c

/-- A unit outside the range of halves stands for itself, whatever follows. -/
theorem text?_unit_cons {n : Nat} (hn : n < 32) (rest : List Part) :
    text? (.unit n :: rest) = (text? rest).map (Char.ofNat n :: ·) := by
  have hhigh : isHigh n = false := by simp [isHigh]; omega
  have hlow : isLow n = false := by simp [isLow]; omega
  match rest with
  | [] | .plain _ :: _ | .unit _ :: _ => simp [text?, hhigh, hlow]

theorem text?_of_writes {parts : List Part} {chars : List Char}
    (h : List.Forall₂ Part.Writes parts chars) : text? parts = some chars := by
  induction h with
  | nil => rfl
  | cons hpart _ ih =>
    cases hpart with
    | plain c => simp [text?, ih]
    | control hc => simp [text?_unit_cons hc, ih]

theorem hexValue?_hexDigit (n : Nat) : hexValue? (hexDigit n) = some (n % 16) := by
  have hall : ∀ k < 16, hexValue? (Nat.digitChar k) = some k := by decide
  exact hall (n % 16) (Nat.mod_lt n (by decide))

/-- What the printer writes for a character of a string is one part for the scanner. -/
theorem exists_part_of_escapes {c : Char} {chars : List Char} (h : Escapes c chars) :
    ∃ part : Part, part.Writes c ∧ ∀ parts before rest,
      scanFrom? (.quote parts) before (chars ++ rest) =
        scanFrom? (.quote (part :: parts)) before rest := by
  cases h with
  | letter hletter =>
    refine ⟨.plain c, .plain c, ?_⟩
    intro parts before rest
    next letter =>
    have hu : letter ≠ 'u' := by
      rintro rfl
      cases hletter
    simp [scanFrom?, advance, hu, hletter]
  | control hc =>
    refine ⟨.unit c.toNat, .control hc, ?_⟩
    intro parts before rest
    have hzero : hexValue? '0' = some 0 := by decide
    have hvalue : 16 * (c.toNat / 16 % 16) + c.toNat % 16 = c.toNat := by omega
    simp [scanFrom?, advance, hzero, hexValue?_hexDigit, hvalue]
  | plain hquote hbackslash hc =>
    refine ⟨.plain c, .plain c, ?_⟩
    intro parts before rest
    simp [scanFrom?, advance, hquote, hbackslash, hc]

theorem exists_parts_of_escaped (chars : List Char) :
    ∃ parts, List.Forall₂ Part.Writes parts chars ∧ ∀ read before rest,
      scanFrom? (.quote read) before (chars.flatMap escaped ++ rest) =
        scanFrom? (.quote (parts.reverse ++ read)) before rest := by
  induction chars with
  | nil => exact ⟨[], .nil, fun _ _ _ => rfl⟩
  | cons c chars ih =>
    obtain ⟨part, hpart, hfirst⟩ := exists_part_of_escapes (escapes_escaped c)
    obtain ⟨parts, hparts, hrest⟩ := ih
    refine ⟨part :: parts, .cons hpart hparts, ?_⟩
    intro read before rest
    rw [List.flatMap_cons, List.append_assoc, hfirst, hrest]
    simp

theorem scans_quoted (s : String) : Scans (quoted s) [.string (some s)] := by
  intro before rest _
  obtain ⟨parts, hparts, hscan⟩ := exists_parts_of_escaped s.toList
  have hopen : scanFrom? .between before (quoted s ++ rest) =
      scanFrom? (.quote []) before (s.toList.flatMap escaped ++ '\x22' :: rest) := by
    simp [quoted, scanFrom?, advance, begin?, isBlank]
  rw [hopen, hscan]
  simp [scanFrom?, advance, text?_of_writes hparts]

/-! ### Numbers -/

theorem scanFrom?_digits {digits : List Char} (h : ∀ c ∈ digits, c.isDigit)
    (read : List Char) (before : List Token) (rest : List Char) :
    scanFrom? (.number .digits read) before (digits ++ rest) =
      scanFrom? (.number .digits (digits.reverse ++ read)) before rest := by
  induction digits generalizing read with
  | nil => rfl
  | cons c digits ih =>
    have hc : c.isDigit := h c List.mem_cons_self
    have hdigits := ih fun c' hc' => h c' (List.mem_cons_of_mem c hc')
    simp [scanFrom?, advance, Phase.next?, hc, hdigits]

/-- A number ends where such a sign or the end of the text follows. -/
theorem scanFrom?_number {phase : Phase} (hphase : phase = .zero ∨ phase = .digits)
    {read : List Char} {n : Number} (hn : phase.number? read = some n) {rest : List Char}
    (hrest : Stops rest) (before : List Token) :
    scanFrom? (.number phase read) before rest = scanFrom? .between (.number n :: before) rest := by
  cases rest with
  | nil => simp [scanFrom?, Mode.ending?, hn]
  | cons c rest =>
    have hnext : phase.next? c = none := by
      have hc := hrest c rfl
      simp only [List.mem_cons, List.not_mem_nil, or_false] at hc
      rcases hphase with rfl | rfl <;> rcases hc with rfl | rfl | rfl | rfl <;> decide
    simp only [scanFrom?, advance, hnext, hn]
    cases begin? c <;> simp

/-- The digits of a number behind its sign, last one first, are read as the number. -/
theorem number?_toDigits {phase : Phase} (hphase : phase = .zero ∨ phase = .digits)
    (negative : Bool) (n : Nat) :
    phase.number? ((Nat.toDigits 10 n).reverse ++ if negative then ['-'] else []) =
      some (.integer negative n) := by
  have hnumber : ∀ read, phase.number? read = Phase.digits.number? read := by
    rcases hphase with rfl | rfl <;> exact fun _ => rfl
  rw [hnumber]
  cases negative with
  | true => simp [Phase.number?, value_toDigits]
  | false =>
    have hsign : ∀ rest, Nat.toDigits 10 n ≠ '-' :: rest := by
      intro rest hdigits
      have hmem : '-' ∈ Nat.toDigits 10 n := by simp [hdigits]
      have hdigit : '-'.isDigit := Nat.isDigit_of_mem_toDigits (by decide) (by decide) hmem
      exact absurd hdigit (by decide)
    simp [Phase.number?, value_toDigits]

theorem begin?_of_isDigit {c : Char} (hc : c.isDigit) (hzero : c ≠ '0') :
    begin? c = some (.number .digits [c], []) := by
  simp (disch := decide) [begin?, isBlank, ne_of_isDigit hc, hzero, hc]

/-- Digits are scanned alike behind a minus sign and without one: what counts is how the first of
them is taken. -/
theorem scanFrom?_toDigits {mode : Mode} {negative : Bool} {signs : List Char}
    (hsigns : signs = if negative then ['-'] else [])
    (hzero : advance '0' mode = some (.number .zero ('0' :: signs), []))
    (hdigit : ∀ c : Char, c.isDigit → c ≠ '0' →
      advance c mode = some (.number .digits (c :: signs), []))
    (n : Nat) (before : List Token) {rest : List Char} (hrest : Stops rest) :
    scanFrom? mode before (Nat.toDigits 10 n ++ rest) =
      scanFrom? .between (.number (.integer negative n) :: before) rest := by
  obtain ⟨phase, hphase, hscan⟩ : ∃ phase : Phase, (phase = .zero ∨ phase = .digits) ∧
      scanFrom? mode before (Nat.toDigits 10 n ++ rest) =
        scanFrom? (.number phase ((Nat.toDigits 10 n).reverse ++ signs)) before rest := by
    rcases Nat.eq_zero_or_pos n with rfl | hpos
    · exact ⟨.zero, .inl rfl, by simp [scanFrom?, hzero]⟩
    · refine ⟨.digits, .inr rfl, ?_⟩
      have hdigits : ∀ c ∈ Nat.toDigits 10 n, c.isDigit :=
        fun _ => Nat.isDigit_of_mem_toDigits (by decide) (by decide)
      obtain ⟨c, digits, heq, hc⟩ := exists_toDigits_eq_cons hpos
      rw [heq] at hdigits ⊢
      have hmore := scanFrom?_digits fun c' hc' => hdigits c' (List.mem_cons_of_mem c hc')
      simp [scanFrom?, hdigit c (hdigits c List.mem_cons_self) hc, hmore]
  rw [hscan, hsigns]
  exact scanFrom?_number hphase (number?_toDigits hphase negative n) hrest before

theorem scans_integer (negative : Bool) (n : Nat) :
    Scans (Number.integer negative n).chars [.number (.integer negative n)] := by
  intro before rest hrest
  cases negative with
  | false => exact scanFrom?_toDigits rfl rfl (fun _ => begin?_of_isDigit) n before hrest
  | true =>
    have hdigit : ∀ c : Char, c.isDigit → c ≠ '0' →
        advance c (.number .sign ['-']) = some (.number .digits [c, '-'], []) := by
      intro c hc hzero
      simp [advance, Phase.next?, hc, hzero]
    exact scanFrom?_toDigits rfl rfl hdigit n before hrest

/-! ### Values -/

theorem scans_elements {elements : List Json} (h : ∀ v ∈ elements, Scans v.chars v.tokens) :
    Scans (elementChars elements) (elementTokens elements) := by
  induction elements with
  | nil => exact .nil
  | cons v rest ih =>
    have hv : Scans v.chars v.tokens := h v List.mem_cons_self
    have hrest := ih fun v' hv' => h v' (List.mem_cons_of_mem v hv')
    cases rest with
    | nil => exact hv
    | cons w rest => exact hv.append_cons (by decide) rfl hrest

theorem scans_field {key : String} {chars : List Char} {tokens : List Token}
    (h : Scans chars tokens) :
    Scans (quoted key ++ ':' :: chars) (.string (some key) :: .colon :: tokens) :=
  (scans_quoted key).append_cons (by decide) rfl h

theorem scans_fields {fields : List (String × Json)}
    (h : ∀ entry ∈ fields, Scans entry.2.chars entry.2.tokens) :
    Scans (fieldChars fields) (fieldTokens fields) := by
  induction fields with
  | nil => exact .nil
  | cons entry rest ih =>
    have hv : Scans entry.2.chars entry.2.tokens := h entry List.mem_cons_self
    have hrest := ih fun entry' hentry' => h entry' (List.mem_cons_of_mem entry hentry')
    cases rest with
    | nil => exact scans_field hv
    | cons _ rest => exact scans_field (hv.append_cons (by decide) rfl hrest)

end Token

open Token in
/-- The compact text of a plain value is scanned into its tokens. -/
theorem Plain.scans {v : Json} (h : v.Plain) : Scans v.chars v.tokens := by
  induction h with
  | null => exact fun _ _ _ => rfl
  | bool b => cases b <;> exact fun _ _ _ => rfl
  | integer negative n => exact scans_integer negative n
  | string s => exact scans_quoted s
  | array _ ih => exact ((scans_elements ih).append_cons (by decide) rfl .nil).cons rfl
  | object _ ih => exact ((scans_fields ih).append_cons (by decide) rfl .nil).cons rfl

/-! ## Reading tokens -/

namespace Reader

/-- Tokens that are read as a given value, whatever is open and whatever comes behind them. -/
def Reads (tokens : List Token) (v : Json) : Prop :=
  ∀ stack rest, feed? (.value stack) (tokens ++ rest) = feed? (.after v stack) rest

/-- A value does not begin with the end of an array. -/
theorem exists_tokens_eq_cons (v : Json) :
    ∃ token rest, v.tokens = token :: rest ∧ token ≠ .closeBracket := by
  cases v with
  | null | garbled | bool _ | number _ | string _ | array _ | object _ =>
    exact ⟨_, _, rfl, Token.noConfusion⟩

/-- The first element of an array is read as any other. -/
theorem feed?_elementOrEnd (v : Json) (elements : List Json) (stack : List Open)
    (rest : List Token) :
    feed? (.elementOrEnd stack) (elementTokens (v :: elements) ++ rest) =
      feed? (.value (.array [] :: stack)) (elementTokens (v :: elements) ++ rest) := by
  obtain ⟨token, tokens, htokens, hne⟩ := exists_tokens_eq_cons v
  have hstart : ∃ more, elementTokens (v :: elements) = token :: more := by
    cases elements with
    | nil => exact ⟨tokens, htokens⟩
    | cons w elements => exact ⟨_, congrArg (· ++ .comma :: elementTokens (w :: elements)) htokens⟩
  obtain ⟨more, hmore⟩ := hstart
  rw [hmore]
  cases token with
  | closeBracket => exact absurd rfl hne
  | _ => rfl

/-- Elements up to the end of their array, behind those that have been read. -/
theorem feed?_elements {v : Json} {elements : List Json}
    (h : ∀ w ∈ v :: elements, Reads w.tokens w) (read : List Json) (stack : List Open)
    (rest : List Token) :
    feed? (.value (.array read :: stack))
        (elementTokens (v :: elements) ++ .closeBracket :: rest) =
      feed? (.after (.array (read.reverse ++ v :: elements)) stack) rest := by
  induction elements generalizing v read with
  | nil =>
    simp only [elementTokens]
    rw [h v List.mem_cons_self]
    simp [feed?, advance]
  | cons w elements ih =>
    have hrest := ih fun w' hw' => h w' (List.mem_cons_of_mem v hw')
    simp only [elementTokens, List.append_assoc, List.cons_append]
    rw [h v List.mem_cons_self]
    simp [feed?, advance, hrest]

/-- Fields up to the end of their object, behind those that have been read. -/
theorem feed?_fields {entry : String × Json} {fields : List (String × Json)}
    (h : ∀ e ∈ entry :: fields, Reads e.2.tokens e.2) (read : List (Option String × Json))
    (stack : List Open) (rest : List Token) :
    feed? (.key read stack) (fieldTokens (entry :: fields) ++ .closeBrace :: rest) =
      feed? (.after
        (close (((entry :: fields).map fun e => (some e.1, e.2)).reverse ++ read)) stack) rest := by
  induction fields generalizing entry read with
  | nil =>
    simp only [fieldTokens, List.cons_append, feed?, advance]
    rw [h entry List.mem_cons_self]
    simp [feed?, advance]
  | cons next fields ih =>
    have hrest := ih fun e he => h e (List.mem_cons_of_mem entry he)
    simp only [fieldTokens, List.cons_append, List.append_assoc, feed?, advance]
    rw [h entry List.mem_cons_self]
    simp [feed?, advance, hrest]

theorem close_of_keys (fields : List (String × Json)) :
    close ((fields.map fun entry => (some entry.1, entry.2)).reverse) = .object fields := by
  have hfields : (fields.map fun entry => (some entry.1, entry.2)).mapM field? = some fields := by
    induction fields with
    | nil => rfl
    | cons entry fields ih => simp [field?, ih]
  simp [close, hfields]

theorem reads_array {elements : List Json} (h : ∀ v ∈ elements, Reads v.tokens v) :
    Reads (Json.array elements).tokens (.array elements) := by
  intro stack rest
  cases elements with
  | nil => rfl
  | cons v elements =>
    calc feed? (.value stack) ((Json.array (v :: elements)).tokens ++ rest)
      _ = feed? (.elementOrEnd stack) (elementTokens (v :: elements) ++ .closeBracket :: rest) := by
        simp [tokens, feed?, advance, begin?]
      _ = feed? (.value (.array [] :: stack))
            (elementTokens (v :: elements) ++ .closeBracket :: rest) :=
        feed?_elementOrEnd v elements stack _
      _ = feed? (.after (.array (v :: elements)) stack) rest := feed?_elements h [] stack rest

theorem reads_object {fields : List (String × Json)}
    (h : ∀ entry ∈ fields, Reads entry.2.tokens entry.2) :
    Reads (Json.object fields).tokens (.object fields) := by
  intro stack rest
  cases fields with
  | nil => rfl
  | cons entry fields =>
    calc feed? (.value stack) ((Json.object (entry :: fields)).tokens ++ rest)
      _ = feed? (.keyOrEnd stack) (fieldTokens (entry :: fields) ++ .closeBrace :: rest) := by
        simp [tokens, feed?, advance, begin?]
      _ = feed? (.key [] stack) (fieldTokens (entry :: fields) ++ .closeBrace :: rest) := by
        cases fields <;> rfl
      _ = feed? (.after (.object (entry :: fields)) stack) rest := by
        rw [feed?_fields h [] stack rest, List.append_nil, close_of_keys]

end Reader

open Reader in
/-- The tokens of a plain value are read as the value. -/
theorem Plain.reads {v : Json} (h : v.Plain) : Reads v.tokens v := by
  induction h with
  | null | bool _ | integer _ _ | string _ => exact fun _ _ => rfl
  | array _ ih => exact reads_array ih
  | object _ ih => exact reads_object ih

/-- **Compact text reads back.** The compact text of a plain value is read as the value. -/
theorem parse?_compact {v : Json} (h : v.Plain) : parse? v.compact = some v := by
  have hscan : Token.scan? v.compact.toList = some v.tokens := by
    have hscans := h.scans [] [] (fun _ hc => by cases hc)
    simpa [Token.scan?, compact, Token.scanFrom?, Token.Mode.ending?] using hscans
  have hread : Reader.feed? (.value []) v.tokens = some (.after v []) := by
    simpa [Reader.feed?] using h.reads [] []
  simp [parse?, hscan, ofTokens?, hread, Reader.State.result?]

/-! ## Nesting -/

/-- Where a character of a text stands. -/
inductive Place
  | outside
  | inString
  | behindBackslash

/-- The greatest number of brackets and braces that are open at once in the rest of a text, with a
given number of them open before it. Those in strings do not count. -/
def nestingFrom : Place → Nat → List Char → Nat
  | _, opened, [] => opened
  | .outside, opened, c :: rest =>
    if c = '\x22' then nestingFrom .inString opened rest
    else if c = '[' || c = '\x7b' then nestingFrom .outside (opened + 1) rest
    else if c = ']' || c = '\x7d' then max opened (nestingFrom .outside (opened - 1) rest)
    else nestingFrom .outside opened rest
  | .inString, opened, c :: rest =>
    if c = '\x22' then nestingFrom .outside opened rest
    else if c = '\\' then nestingFrom .behindBackslash opened rest
    else nestingFrom .inString opened rest
  | .behindBackslash, opened, _ :: rest => nestingFrom .inString opened rest

/-- How deep the arrays and objects in a text are nested. -/
def nesting (text : String) : Nat := nestingFrom .outside 0 text.toList

theorem le_nestingFrom (place : Place) (opened : Nat) (chars : List Char) :
    opened ≤ nestingFrom place opened chars := by
  fun_induction nestingFrom place opened chars with
  | case1 => exact le_rfl
  | case3 _ _ _ _ _ ih => exact (Nat.le_succ _).trans ih
  | case4 => exact Nat.le_max_left _ _
  | _ => assumption

/-- Characters outside strings that close what they open, and are nested to a given depth. -/
def Nests (chars : List Char) (depth : Nat) : Prop :=
  ∀ opened rest, nestingFrom .outside opened (chars ++ rest) =
    max (opened + depth) (nestingFrom .outside opened rest)

theorem Nests.nil : Nests [] 0 := by
  intro opened rest
  exact (Nat.max_eq_right (le_nestingFrom .outside opened rest)).symm

theorem Nests.append {left right : List Char} {d e : Nat} (hleft : Nests left d)
    (hright : Nests right e) : Nests (left ++ right) (max d e) := by
  intro opened rest
  rw [List.append_assoc, hleft, hright, ← Nat.add_max_add_left, Nat.max_assoc]

/-- A character that is neither a quote nor opens or closes anything. -/
def isOrdinary (c : Char) : Bool := c ∉ ['\x22', '[', '\x7b', ']', '\x7d']

theorem Nests.cons {c : Char} {chars : List Char} {d : Nat} (hc : isOrdinary c)
    (h : Nests chars d) : Nests (c :: chars) d := by
  intro opened rest
  simp [isOrdinary] at hc
  simp [nestingFrom, hc, h opened rest]

theorem nests_of_ordinary {chars : List Char} (h : chars.all isOrdinary) : Nests chars 0 := by
  induction chars with
  | nil => exact .nil
  | cons c chars ih =>
    rw [List.all_cons, Bool.and_eq_true] at h
    exact (ih h.2).cons h.1

/-- Brackets or braces around characters. -/
theorem Nests.enclosed {left right : Char} {chars : List Char} {d : Nat}
    (hleft : left = '[' ∨ left = '\x7b') (hright : right = ']' ∨ right = '\x7d')
    (h : Nests chars d) : Nests (left :: chars ++ [right]) (d + 1) := by
  intro opened rest
  have hopen : nestingFrom .outside opened (left :: chars ++ [right] ++ rest) =
      nestingFrom .outside (opened + 1) (chars ++ right :: rest) := by
    rcases hleft with rfl | rfl <;> simp [nestingFrom]
  have hclose : nestingFrom .outside (opened + 1) (right :: rest) =
      max (opened + 1) (nestingFrom .outside opened rest) := by
    rcases hright with rfl | rfl <;> simp [nestingFrom]
  rw [hopen, h, hclose]
  omega

/-- What the printer writes for a character of a string stays in the string. -/
theorem nestingFrom_escapes {c : Char} {chars : List Char} (h : Escapes c chars) (opened : Nat)
    (rest : List Char) :
    nestingFrom .inString opened (chars ++ rest) = nestingFrom .inString opened rest := by
  cases h with
  | letter _ => simp [nestingFrom]
  | plain hquote hbackslash _ => simp [nestingFrom, hquote, hbackslash]
  | control _ =>
    have hdigits : ∀ k < 16, Nat.digitChar k ≠ '\x22' ∧ Nat.digitChar k ≠ '\\' := by decide
    have hhex : ∀ n, hexDigit n ≠ '\x22' ∧ hexDigit n ≠ '\\' := fun n =>
      hdigits (n % 16) (Nat.mod_lt n (by decide))
    simp [nestingFrom, hhex]

theorem nests_quoted (s : String) : Nests (quoted s) 0 := by
  intro opened rest
  have hchars : ∀ chars : List Char, nestingFrom .inString opened
      (chars.flatMap escaped ++ '\x22' :: rest) = nestingFrom .outside opened rest := by
    intro chars
    induction chars with
    | nil => simp [nestingFrom]
    | cons c chars ih =>
      rw [List.flatMap_cons, List.append_assoc, nestingFrom_escapes (escapes_escaped c), ih]
  rw [← Nests.nil opened rest]
  simp [quoted, nestingFrom, hchars]

theorem nests_integer (negative : Bool) (n : Nat) :
    Nests (Number.integer negative n).chars 0 := by
  have hdigits : (Nat.toDigits 10 n).all isOrdinary := by
    rw [List.all_eq_true]
    intro c hc
    have hdigit : c.isDigit := Nat.isDigit_of_mem_toDigits (by decide) (by decide) hc
    simp (disch := decide) [isOrdinary, ne_of_isDigit hdigit]
  cases negative with
  | false => exact nests_of_ordinary hdigits
  | true => exact (nests_of_ordinary hdigits).cons (by decide)

theorem nests_elements {elements : List Json} (h : ∀ v ∈ elements, Nests v.chars v.depth) :
    Nests (elementChars elements) (depthOfElements elements) := by
  induction elements with
  | nil => exact .nil
  | cons v rest ih =>
    have hv : Nests v.chars v.depth := h v List.mem_cons_self
    have hrest := ih fun v' hv' => h v' (List.mem_cons_of_mem v hv')
    cases rest with
    | nil => simpa [elementChars, depthOfElements] using hv
    | cons w rest => exact hv.append (hrest.cons (by decide))

theorem nests_fields {fields : List (String × Json)}
    (h : ∀ entry ∈ fields, Nests entry.2.chars entry.2.depth) :
    Nests (fieldChars fields) (depthOfFields fields) := by
  induction fields with
  | nil => exact .nil
  | cons entry rest ih =>
    have hv : Nests entry.2.chars entry.2.depth := h entry List.mem_cons_self
    have hrest := ih fun entry' hentry' => h entry' (List.mem_cons_of_mem entry hentry')
    have hfield : ∀ {chars : List Char} {d : Nat}, Nests chars d →
        Nests (quoted entry.1 ++ ':' :: chars) d := by
      intro chars d hchars
      simpa using (nests_quoted entry.1).append (hchars.cons (by decide))
    cases rest with
    | nil => simpa [fieldChars, depthOfFields] using hfield hv
    | cons _ rest => exact hfield (hv.append (hrest.cons (by decide)))

theorem Plain.nests {v : Json} (h : v.Plain) : Nests v.chars v.depth := by
  induction h with
  | null => exact nests_of_ordinary (by decide)
  | bool b => cases b <;> exact nests_of_ordinary (by decide)
  | integer negative n => exact nests_integer negative n
  | string s => exact nests_quoted s
  | array _ ih => exact (nests_elements ih).enclosed (.inl rfl) (.inl rfl)
  | object _ ih => exact (nests_fields ih).enclosed (.inr rfl) (.inr rfl)

/-- The nesting of the compact text of a plain value is the depth of the value. -/
theorem nesting_compact {v : Json} (h : v.Plain) : nesting v.compact = v.depth := by
  simpa [nesting, compact, nestingFrom] using h.nests 0 []

-- brackets in a string, behind an escaped quote too, are not counted
example : nesting "[\"[\\\"[\",[1],[]]" = 2 := by cbv

end StackScript.Json

import ToneGraph.Token.Scan
/-!
# Words and how they are spelled

A word is spelled by the characters that its token keeps, with one exception: a string is spelled
between two quotes, and a backslash takes the character behind it with it.  So what a string stands
for does not say how it is spelled, but the spelling says what it stands for.

The reader of words takes the longest word it finds.  In front of a blank there is nothing longer,
so there every word is read as itself, whatever stood behind it where it was found.

## Main definitions

* `NumberSpelling.WellFormed`, `Spells`: spellings of numbers and of strings.
* `IsWord`: a kind, what the token keeps, and a spelling.
* `OpenString`: a string that is never closed.

## Main statements

* `isWord_readLexeme`: what is read is a word, unless it is a string that is never closed.
* `IsWord.readLexeme_append`: a word in front of a blank is read.
-/

namespace ToneGraph

open Text Number

/-! ## Numbers -/

/-- One digit or more. -/
def Digits (digits : List Char) : Prop :=
  digits ≠ [] ∧ ∀ c ∈ digits, c.isDigit

/-- Digits with a point among them or in front of them, and a power of ten behind them. -/
structure NumberSpelling.WellFormed (n : NumberSpelling) : Prop where
  whole : ∀ c ∈ n.whole, c.isDigit
  fraction : n.fraction = [] ∨ ∃ digits, Digits digits ∧ n.fraction = '.' :: digits
  exponent : n.exponent = [] ∨ ∃ letter sign digits, (letter = 'e' ∨ letter = 'E') ∧
    (sign = [] ∨ sign = ['+'] ∨ sign = ['-']) ∧ Digits digits ∧
    n.exponent = letter :: (sign ++ digits)
  nonempty : n.whole ≠ [] ∨ n.fraction ≠ []

theorem isDigit_of_mem_spanDigits (text : List Char) : ∀ c ∈ (spanDigits text).1, c.isDigit :=
  fun c hc => List.all_eq_true.1 List.all_takeWhile c hc

/-- Digits are taken to their end. -/
theorem spanDigits_append_of_head {digits rest : List Char} (h : ∀ c ∈ digits, c.isDigit)
    (hrest : ∀ c ∈ rest.head?, c.isDigit = false) :
    spanDigits (digits ++ rest) = (digits, rest) := by
  rw [spanDigits, List.takeWhile_append_of_pos h, List.dropWhile_append_of_pos h]
  cases rest with
  | nil => simp
  | cons c rest => simp [hrest c rfl]

theorem fraction_spanFraction (text : List Char) :
    (spanFraction text).1 = [] ∨
      ∃ digits, Digits digits ∧ (spanFraction text).1 = '.' :: digits := by
  unfold spanFraction
  split
  · next c rest =>
      split
      · next hc =>
          refine .inr ⟨_, ⟨?_, isDigit_of_mem_spanDigits (c :: rest)⟩, rfl⟩
          simp [spanDigits, hc]
      · exact .inl rfl
  · exact .inl rfl

theorem takeSign_cases (text : List Char) :
    takeSign text = [] ∨ takeSign text = ['+'] ∨ takeSign text = ['-'] := by
  unfold takeSign
  split
  · split
    · next hsign =>
        rcases hsign with rfl | rfl
        · exact .inr (.inl rfl)
        · exact .inr (.inr rfl)
    · exact .inl rfl
  · exact .inl rfl

theorem exponent_spanExponent (text : List Char) :
    (spanExponent text).1 = [] ∨ ∃ letter sign digits, (letter = 'e' ∨ letter = 'E') ∧
      (sign = [] ∨ sign = ['+'] ∨ sign = ['-']) ∧ Digits digits ∧
      (spanExponent text).1 = letter :: (sign ++ digits) := by
  cases text with
  | nil => exact .inl rfl
  | cons e rest =>
      simp only [spanExponent]
      split
      · next h =>
          obtain ⟨hletter, hpower⟩ := h
          exact .inr ⟨e, takeSign rest, _, hletter, takeSign_cases rest,
            ⟨hpower, isDigit_of_mem_spanDigits _⟩, rfl⟩
      · exact .inl rfl

theorem nonempty_of_startsNumber {c : Char} {rest : List Char} (h : startsNumber c rest) :
    (spanNumber (c :: rest)).1.whole ≠ [] ∨ (spanNumber (c :: rest)).1.fraction ≠ [] := by
  rw [startsNumber, Bool.or_eq_true, Bool.and_eq_true, beq_iff_eq] at h
  rcases h with hdigit | ⟨rfl, hnext⟩
  · left
    simp [spanNumber, spanDigits, hdigit]
  · right
    cases rest with
    | nil => simp at hnext
    | cons d rest =>
        have hd : d.isDigit = true := by simpa using hnext
        have hdot : Char.isDigit '.' = false := rfl
        simp [spanNumber, spanDigits, hdot, spanFraction, hd]

/-- What is read as a number has the form of one. -/
theorem wellFormed_spanNumber {c : Char} {rest : List Char} (h : startsNumber c rest) :
    (spanNumber (c :: rest)).1.WellFormed where
  whole := isDigit_of_mem_spanDigits _
  fraction := fraction_spanFraction _
  exponent := exponent_spanExponent _
  nonempty := nonempty_of_startsNumber h

/-! ## Blanks end words -/

/-- A text that does not go on with the characters of a word: it is empty or begins with a blank. -/
def AtBlank (text : List Char) : Prop :=
  ∀ c ∈ text.head?, isBlank c

/-- Letters stand in two ranges. -/
theorem code_of_isAlpha {c : Char} (h : c.isAlpha) :
    65 ≤ c.toNat ∧ c.toNat ≤ 90 ∨ 97 ≤ c.toNat ∧ c.toNat ≤ 122 := by
  rcases (Bool.or_eq_true _ _).mp h with hupper | hlower
  · obtain ⟨hfirst, hlast⟩ := of_decide_eq_true hupper
    exact .inl ⟨UInt32.le_iff_toNat_le.1 hfirst, UInt32.le_iff_toNat_le.1 hlast⟩
  · obtain ⟨hfirst, hlast⟩ := (Bool.and_eq_true _ _).mp hlower
    exact .inr ⟨UInt32.le_iff_toNat_le.1 (of_decide_eq_true hfirst),
      UInt32.le_iff_toNat_le.1 (of_decide_eq_true hlast)⟩

/-- Digits stand in one. -/
theorem code_of_isDigit {c : Char} (h : c.isDigit) : 48 ≤ c.toNat ∧ c.toNat ≤ 57 := by
  obtain ⟨hfirst, hlast⟩ := (Bool.and_eq_true _ _).mp h
  exact ⟨UInt32.le_iff_toNat_le.1 (of_decide_eq_true hfirst),
    UInt32.le_iff_toNat_le.1 (of_decide_eq_true hlast)⟩

theorem isIdentifierChar_of_isBlank {c : Char} (h : isBlank c) : isIdentifierChar c = false := by
  have hcode : c.toNat < 48 ∨ 128 ≤ c.toNat := by
    simp only [isBlank, Bool.or_eq_true, Bool.and_eq_true, decide_eq_true_eq, beq_iff_eq] at h
    omega
  refine eq_false_of_ne_true fun hc => ?_
  rw [isIdentifierChar, Char.isAlphanum, Bool.or_eq_true, Bool.or_eq_true, beq_iff_eq] at hc
  rcases hc with (hletter | hdigit) | rfl
  · have := code_of_isAlpha hletter
    omega
  · have := code_of_isDigit hdigit
    omega
  · rcases hcode with hlow | hhigh
    · exact absurd hlow (by decide)
    · exact absurd hhigh (by decide)

theorem isDigit_of_isBlank {c : Char} (h : isBlank c) : c.isDigit = false := by
  have hname := isIdentifierChar_of_isBlank h
  simp only [isIdentifierChar, Char.isAlphanum, Bool.or_eq_false_iff] at hname
  exact hname.1.2

theorem AtBlank.isDigit_head {text : List Char} (h : AtBlank text) :
    ∀ c ∈ text.head?, c.isDigit = false :=
  fun c hc => isDigit_of_isBlank (h c hc)

/-! ## Numbers in front of a blank -/

/-- A text that begins with a fraction is taken up to its last digit. -/
theorem spanFraction_append_of_fraction {fraction rest : List Char}
    (h : fraction = [] ∨ ∃ digits, Digits digits ∧ fraction = '.' :: digits)
    (hdot : rest.head? ≠ some '.') (hrest : ∀ c ∈ rest.head?, c.isDigit = false) :
    spanFraction (fraction ++ rest) = (fraction, rest) := by
  rcases h with rfl | ⟨digits, ⟨hne, hdigits⟩, rfl⟩
  · rw [List.nil_append, spanFraction.eq_def]
    split
    · exact absurd rfl hdot
    · rfl
  · obtain ⟨c, more, rfl⟩ := List.exists_cons_of_ne_nil hne
    have hc : c.isDigit = true := hdigits c (List.mem_cons_self)
    rw [List.cons_append, List.cons_append, spanFraction, if_pos hc, ← List.cons_append,
      spanDigits_append_of_head hdigits hrest]

theorem takeSign_append {sign digits : List Char} (h : sign = [] ∨ sign = ['+'] ∨ sign = ['-'])
    (hdigits : Digits digits) (rest : List Char) :
    takeSign (sign ++ (digits ++ rest)) = sign := by
  rcases h with rfl | rfl | rfl
  · obtain ⟨c, more, rfl⟩ := List.exists_cons_of_ne_nil hdigits.1
    have hc : c.isDigit = true := hdigits.2 c List.mem_cons_self
    refine if_neg ?_
    rintro (rfl | rfl) <;> contradiction
  · rfl
  · rfl

/-- A text that begins with a power of ten is taken up to its last digit. -/
theorem spanExponent_append_of_exponent {exponent rest : List Char}
    (h : exponent = [] ∨ ∃ letter sign digits, (letter = 'e' ∨ letter = 'E') ∧
      (sign = [] ∨ sign = ['+'] ∨ sign = ['-']) ∧ Digits digits ∧
      exponent = letter :: (sign ++ digits)) (hrest : AtBlank rest) :
    spanExponent (exponent ++ rest) = (exponent, rest) := by
  rcases h with rfl | ⟨letter, sign, digits, hletter, hsign, hdigits, rfl⟩
  · cases rest with
    | nil => rfl
    | cons c rest =>
        refine if_neg fun h => ?_
        have hc := isIdentifierChar_of_isBlank (hrest c rfl)
        rcases h.1 with rfl | rfl <;> contradiction
  · have hpower := spanDigits_append_of_head hdigits.2 hrest.isDigit_head
    rw [List.cons_append, List.append_assoc, spanExponent, takeSign_append hsign hdigits,
      List.drop_left, hpower]
    exact if_pos ⟨hletter, hdigits.1⟩

theorem head?_fraction_append {n : NumberSpelling} (h : n.WellFormed) {rest : List Char}
    (hrest : ∀ c ∈ rest.head?, c.isDigit = false) :
    ∀ c ∈ (n.fraction ++ rest).head?, c.isDigit = false := by
  rcases h.fraction with hnil | ⟨digits, -, hcons⟩
  · rwa [hnil, List.nil_append]
  · rw [hcons]
    rintro c ⟨rfl⟩
    rfl

theorem head?_exponent_append {n : NumberSpelling} (h : n.WellFormed) {rest : List Char}
    (hrest : AtBlank rest) :
    ∀ c ∈ (n.exponent ++ rest).head?, c ≠ '.' ∧ c.isDigit = false := by
  rcases h.exponent with hnil | ⟨letter, sign, digits, hletter, -, -, hcons⟩
  · rw [hnil, List.nil_append]
    intro c hc
    refine ⟨?_, hrest.isDigit_head c hc⟩
    rintro rfl
    exact absurd (hrest '.' hc) (by decide)
  · rw [hcons]
    rintro c ⟨rfl⟩
    rcases hletter with rfl | rfl <;> decide

/-- A number in front of a blank is read to its end. -/
theorem NumberSpelling.WellFormed.spanNumber_append {n : NumberSpelling} (h : n.WellFormed)
    {rest : List Char} (hrest : AtBlank rest) : spanNumber (n.chars ++ rest) = (n, rest) := by
  have hexp := head?_exponent_append h hrest
  have hwhole := spanDigits_append_of_head h.whole
    (head?_fraction_append h fun c hc => (hexp c hc).2)
  have hfraction := spanFraction_append_of_fraction h.fraction
    (fun hdot => (hexp '.' hdot).1 rfl) fun c hc => (hexp c hc).2
  have hexponent := spanExponent_append_of_exponent h.exponent hrest
  simp only [spanNumber, chars, List.append_assoc, hwhole, hfraction, hexponent]

/-! ## Strings -/

/-- What a string stands for and how it is spelled between two quotes, with no quote that is not
escaped. -/
inductive Spells (quote : Char) : (spelling value : List Char) → Prop
  | nil : Spells quote [] []
  | plain {c spelling value} : c ≠ quote → c ≠ '\\' → Spells quote spelling value →
      Spells quote (c :: spelling) (c :: value)
  | escaped {c spelling value} : Spells quote spelling value →
      Spells quote ('\\' :: c :: spelling) (unescape c :: value)

/-- What a string stands for that runs to the end of the source, where a backslash may escape
nothing. -/
inductive OpenSpells (quote : Char) : (spelling value : List Char) → Prop
  | whole {spelling value} : Spells quote spelling value → OpenSpells quote spelling value
  | backslash {spelling value} : Spells quote spelling value →
      OpenSpells quote (spelling ++ ['\\']) value

theorem OpenSpells.plain {quote c : Char} {spelling value : List Char} (hquote : c ≠ quote)
    (hescape : c ≠ '\\') : OpenSpells quote spelling value →
    OpenSpells quote (c :: spelling) (c :: value)
  | whole h => .whole (.plain hquote hescape h)
  | backslash h => .backslash (.plain hquote hescape h)

theorem OpenSpells.escaped {quote c : Char} {spelling value : List Char} :
    OpenSpells quote spelling value →
    OpenSpells quote ('\\' :: c :: spelling) (unescape c :: value)
  | whole h => .whole h.escaped
  | backslash h => .backslash h.escaped

/-- A string is read up to its first quote that is not escaped, or to the end if there is none. -/
theorem spells_spanString (quote : Char) (text : List Char) :
    (spanString quote text).closed = true ∧
        (∃ inside, (spanString quote text).spelling = inside ++ [quote] ∧
          Spells quote inside (spanString quote text).value) ∨
      (spanString quote text).closed = false ∧ (spanString quote text).rest = [] ∧
        OpenSpells quote (spanString quote text).spelling (spanString quote text).value := by
  fun_induction spanString quote text with
  | case1 => exact .inr ⟨rfl, rfl, .whole .nil⟩
  | case2 text => exact .inl ⟨rfl, [], rfl, .nil⟩
  | case3 => exact .inr ⟨rfl, rfl, .backslash .nil⟩
  | case4 c _ _ s ih =>
      rcases ih with ⟨hclosed, inside, hinside, hspells⟩ | ⟨hopen, hrest, hspells⟩
      · exact .inl ⟨hclosed, _, congrArg (_ :: _ :: ·) hinside, .escaped hspells⟩
      · exact .inr ⟨hopen, hrest, .escaped hspells⟩
  | case5 c text hquote hescape s ih =>
      rcases ih with ⟨hclosed, inside, hinside, hspells⟩ | ⟨hopen, hrest, hspells⟩
      · exact .inl ⟨hclosed, _, congrArg (_ :: ·) hinside, .plain hquote hescape hspells⟩
      · exact .inr ⟨hopen, hrest, .plain hquote hescape hspells⟩

/-- A string is read up to its closing quote. -/
theorem Spells.spanString_append {quote : Char} (hquote : quote ≠ '\\')
    {spelling value : List Char} (h : Spells quote spelling value) (rest : List Char) :
    spanString quote (spelling ++ quote :: rest) = ⟨value, spelling ++ [quote], rest, true⟩ := by
  induction h with
  | nil =>
      rw [List.nil_append, spanString.eq_def]
      exact if_pos rfl
  | plain hc hescape _ ih =>
      rw [List.cons_append, spanString.eq_def]
      dsimp only
      rw [if_neg hc, if_neg hescape, ih]
      rfl
  | escaped _ ih =>
      rw [List.cons_append, List.cons_append, spanString.eq_def]
      dsimp only
      rw [if_neg hquote.symm, if_pos rfl, ih]
      rfl

/-! ## Words -/

/-- A kind, what a token of that kind keeps of a word, and how the word is spelled. -/
inductive IsWord : TokenKind → (text spelling : List Char) → Prop
  | number {n : NumberSpelling} : n.WellFormed → IsWord (.number n.value) n.chars n.chars
  | string {quote spelling value} : quote = '"' ∨ quote = '\'' → Spells quote spelling value →
      IsWord (.string (String.ofList value)) value (quote :: (spelling ++ [quote]))
  | name {c rest} : isIdentifierStart c → (∀ d ∈ rest, isIdentifierChar d) →
      IsWord .identifier (c :: rest) (c :: rest)
  | single {c} : isBlank c = false → c.isDigit = false → ¬ (c = '"' ∨ c = '\'') →
      isIdentifierStart c = false → IsWord (singleKind c) [c] [c]

/-- What is read as a word is one, unless it is a string that nothing closes. -/
theorem isWord_readLexeme {c : Char} {rest : List Char} (hblank : isBlank c = false) :
    IsWord (readLexeme c rest).kind (readLexeme c rest).text (readLexeme c rest).spelling ∨
      (c = '"' ∨ c = '\'') ∧ (readLexeme c rest).kind = .invalid .unterminatedString ∧
        (readLexeme c rest).rest = [] ∧
        ∃ spelling, (readLexeme c rest).spelling = c :: spelling ∧
          OpenSpells c spelling (readLexeme c rest).text := by
  unfold readLexeme
  split
  · next hnumber => exact .inl (.number (wellFormed_spanNumber hnumber))
  split
  · next hquote =>
      dsimp only
      rcases spells_spanString c rest with
        ⟨hclosed, inside, hinside, hspells⟩ | ⟨hopen, hrest, hspells⟩
      · rw [if_pos hclosed, hinside]
        exact .inl (.string hquote hspells)
      · rw [if_neg (by rw [hopen]; nofun)]
        exact .inr ⟨hquote, rfl, hrest, _, rfl, hspells⟩
  split
  · next hstart =>
      exact .inl (.name hstart fun d hd => List.all_eq_true.1 List.all_takeWhile d hd)
  · next hnumber hquote hstart =>
      rw [startsNumber, Bool.or_eq_true, not_or] at hnumber
      exact .inl (.single hblank (eq_false_of_ne_true hnumber.1) hquote
        (eq_false_of_ne_true hstart))

/-- A single character that begins nothing longer. -/
theorem startsNumber_single {c : Char} (hdigit : c.isDigit = false) {rest : List Char}
    (hrest : AtBlank rest) : startsNumber c rest = false := by
  cases rest with
  | nil => simp [startsNumber, hdigit]
  | cons d rest => simp [startsNumber, hdigit, isDigit_of_isBlank (hrest d rfl)]

theorem isBlank_of_isDigit {c : Char} (h : c.isDigit = true) : isBlank c = false := by
  refine eq_false_of_ne_true fun hblank => ?_
  rw [isDigit_of_isBlank hblank] at h
  contradiction

/-- A number begins with a digit or with a point and a digit. -/
theorem NumberSpelling.WellFormed.exists_startsNumber {n : NumberSpelling} (h : n.WellFormed)
    (rest : List Char) :
    ∃ c more, n.chars = c :: more ∧ isBlank c = false ∧ startsNumber c (more ++ rest) := by
  cases hwhole : n.whole with
  | cons c more =>
      have hdigit := h.whole c (by rw [hwhole]; exact List.mem_cons_self)
      refine ⟨c, more ++ n.fraction ++ n.exponent, ?_, isBlank_of_isDigit hdigit, ?_⟩
      · rw [chars, hwhole, List.cons_append, List.cons_append]
      · simp [startsNumber, hdigit]
  | nil =>
      have hfraction := h.nonempty.resolve_left (fun hne => hne hwhole)
      obtain ⟨digits, ⟨hne, hdigits⟩, hcons⟩ := h.fraction.resolve_left hfraction
      obtain ⟨d, more, rfl⟩ := List.exists_cons_of_ne_nil hne
      have hdigit := hdigits d List.mem_cons_self
      refine ⟨'.', d :: more ++ n.exponent, ?_, rfl, ?_⟩
      · rw [chars, hwhole, hcons, List.nil_append, List.cons_append]
      · simp [startsNumber, hdigit]

/-- No name begins like a number, and none begins with a blank. -/
theorem startsNumber_of_isIdentifierStart {c : Char} (h : isIdentifierStart c) (rest : List Char) :
    isBlank c = false ∧ startsNumber c rest = false := by
  have hchar : isIdentifierChar c = true := by
    rw [isIdentifierStart, Bool.or_eq_true] at h
    rw [isIdentifierChar, Char.isAlphanum, Bool.or_eq_true, Bool.or_eq_true]
    exact h.imp_left .inl
  have hdigit : c.isDigit = false := by
    refine eq_false_of_ne_true fun hd => ?_
    have hcode := code_of_isDigit hd
    rw [isIdentifierStart, Bool.or_eq_true, beq_iff_eq] at h
    rcases h with hletter | rfl
    · have := code_of_isAlpha hletter
      omega
    · exact absurd hcode (by decide)
  have hdot : c ≠ '.' := by
    rintro rfl
    contradiction
  constructor
  · refine eq_false_of_ne_true fun hblank => ?_
    rw [isIdentifierChar_of_isBlank hblank] at hchar
    contradiction
  · simp [startsNumber, hdigit, hdot]

theorem AtBlank.takeWhile_append {name rest : List Char} (hrest : AtBlank rest)
    (hname : ∀ d ∈ name, isIdentifierChar d) :
    (name ++ rest).takeWhile isIdentifierChar = name ∧
      (name ++ rest).dropWhile isIdentifierChar = rest := by
  rw [List.takeWhile_append_of_pos hname, List.dropWhile_append_of_pos hname]
  cases rest with
  | nil => simp
  | cons d rest => simp [isIdentifierChar_of_isBlank (hrest d rfl)]

/-- A word in front of a blank is read as it is. -/
theorem IsWord.readLexeme_append {kind : TokenKind} {text spelling rest : List Char}
    (h : IsWord kind text spelling) (hrest : AtBlank rest) :
    ∃ c more, spelling = c :: more ∧ isBlank c = false ∧
      readLexeme c (more ++ rest) = ⟨kind, text, spelling, rest⟩ := by
  cases h with
  | @number n hn =>
      obtain ⟨c, chars, hchars, hblank, hstarts⟩ := hn.exists_startsNumber rest
      refine ⟨c, chars, hchars, hblank, ?_⟩
      rw [readLexeme, if_pos hstarts, ← List.cons_append, ← hchars, hn.spanNumber_append hrest]
  | @string quote inside value hquote hspells =>
      have hescape : quote ≠ '\\' := by rcases hquote with rfl | rfl <;> decide
      refine ⟨quote, inside ++ [quote], rfl, by rcases hquote with rfl | rfl <;> rfl, ?_⟩
      have hstarts : startsNumber quote (inside ++ [quote] ++ rest) = false := by
        rcases hquote with rfl | rfl <;> rfl
      rw [readLexeme, hstarts, if_neg nofun, if_pos hquote, List.append_assoc,
        List.singleton_append, hspells.spanString_append hescape]
      rfl
  | @name c more hstart hmore =>
      obtain ⟨hblank, hnumber⟩ := startsNumber_of_isIdentifierStart hstart (more ++ rest)
      have hquote : ¬ (c = '"' ∨ c = '\'') := by
        rintro (rfl | rfl) <;> contradiction
      obtain ⟨htake, hdrop⟩ := hrest.takeWhile_append hmore
      refine ⟨c, more, rfl, hblank, ?_⟩
      rw [readLexeme, hnumber, if_neg nofun, if_neg hquote, if_pos hstart, htake, hdrop]
  | @single c hblank hdigit hquote hstart =>
      refine ⟨c, [], rfl, hblank, ?_⟩
      rw [List.nil_append, readLexeme, startsNumber_single hdigit hrest, if_neg nofun,
        if_neg hquote, hstart, if_neg nofun]

/-- A single character is no word if it opens a comment, and in front of a blank none does. -/
theorem IsWord.slash {kind : TokenKind} {text more : List Char}
    (h : IsWord kind text ('/' :: more)) : more = [] := by
  generalize hspelling : '/' :: more = spelling at h
  cases h with
  | @number n hn =>
      obtain ⟨c, chars, hchars, -, hstarts⟩ := hn.exists_startsNumber []
      rw [hchars, List.cons.injEq] at hspelling
      rw [← hspelling.1] at hstarts
      simp [startsNumber] at hstarts
  | string hquote _ =>
      rw [List.cons.injEq] at hspelling
      rw [← hspelling.1] at hquote
      simp at hquote
  | name hstart _ =>
      rw [List.cons.injEq] at hspelling
      rw [← hspelling.1] at hstart
      contradiction
  | single =>
      rw [List.cons.injEq] at hspelling
      exact hspelling.2

end ToneGraph

import ToneGraph.Proofs.Synth.Encoding
import ToneGraph.Proofs.Token.Word
/-!
# The form of a number

A number is digits with a point among them or in front of them, and perhaps a power of ten.  The
reader of numbers goes from part to part and looks one or two characters ahead: a point or a letter
that is not followed by what its part needs is left alone.  Nothing is lost by that.  No beginning
of the text that has the form of a number is longer than the one that is read.

What has the form of a number is a decimal numeral, so the value of a number is always a value.

## Main definitions

* `IsNumber`: the form of a number, as a grammar.
* `LongestNumber`: the longest beginning of a text with that form.

## Main statements

* `isNumber_iff_wellFormed`: the grammar and the spelling in three parts are the same thing.
* `longestNumber_spanNumber`: the longest number is read.
* `float?_spanNumber`: what is read is a float on its own, and its value is that float.
-/

namespace ToneGraph

open Text Number
open Float.Model (Format)
open Float.Model.UnpackedFloat

/-! ## A grammar of numbers -/

/-- Digits, digits with a point among them, or digits behind a point. -/
inductive Mantissa : List Char → Prop
  | whole {digits} : Digits digits → Mantissa digits
  | pointed {digits places} : Digits digits → Digits places → Mantissa (digits ++ '.' :: places)
  | point {places} : Digits places → Mantissa ('.' :: places)

/-- A letter and digits, with a sign between them if wanted. -/
inductive Power : List Char → Prop
  | plain {letter digits} : letter = 'e' ∨ letter = 'E' → Digits digits → Power (letter :: digits)
  | signed {letter sign digits} : letter = 'e' ∨ letter = 'E' → sign = '+' ∨ sign = '-' →
      Digits digits → Power (letter :: sign :: digits)

/-- A mantissa, with a power of ten behind it if wanted. -/
inductive IsNumber : List Char → Prop
  | plain {mantissa} : Mantissa mantissa → IsNumber mantissa
  | scaled {mantissa power} : Mantissa mantissa → Power power → IsNumber (mantissa ++ power)

/-- The second of the three parts of a spelling, which may be missing. -/
def IsFraction (fraction : List Char) : Prop :=
  fraction = [] ∨ ∃ digits, Digits digits ∧ fraction = '.' :: digits

/-- The third of the three parts of a spelling, which may be missing. -/
def IsExponent (exponent : List Char) : Prop :=
  exponent = [] ∨ ∃ letter sign digits, (letter = 'e' ∨ letter = 'E') ∧
    (sign = [] ∨ sign = ['+'] ∨ sign = ['-']) ∧ Digits digits ∧
    exponent = letter :: (sign ++ digits)

theorem Power.isExponent {power : List Char} (h : Power power) : IsExponent power := by
  cases h with
  | plain hletter hdigits => exact .inr ⟨_, [], _, hletter, .inl rfl, hdigits, rfl⟩
  | @signed letter sign digits hletter hsign hdigits =>
      refine .inr ⟨letter, [sign], digits, hletter, .inr ?_, hdigits, rfl⟩
      exact hsign.imp (congrArg ([·])) (congrArg ([·]))

theorem IsExponent.eq_nil_or_power {exponent : List Char} (h : IsExponent exponent) :
    exponent = [] ∨ Power exponent := by
  obtain rfl | ⟨letter, sign, digits, hletter, hsign, hdigits, rfl⟩ := h
  · exact .inl rfl
  · obtain rfl | rfl | rfl := hsign
    · exact .inr (.plain hletter hdigits)
    · exact .inr (.signed hletter (.inl rfl) hdigits)
    · exact .inr (.signed hletter (.inr rfl) hdigits)

theorem Mantissa.exists_parts {mantissa : List Char} (h : Mantissa mantissa) :
    ∃ whole fraction, (∀ c ∈ whole, c.isDigit) ∧ IsFraction fraction ∧
      (whole ≠ [] ∨ fraction ≠ []) ∧ mantissa = whole ++ fraction := by
  cases h with
  | whole hdigits => exact ⟨_, [], hdigits.2, .inl rfl, .inl hdigits.1, (List.append_nil _).symm⟩
  | pointed hdigits hplaces =>
      exact ⟨_, _, hdigits.2, .inr ⟨_, hplaces, rfl⟩, .inl hdigits.1, rfl⟩
  | point hplaces => exact ⟨[], _, nofun, .inr ⟨_, hplaces, rfl⟩, .inr nofun, rfl⟩

theorem mantissa_of_parts {whole fraction : List Char} (hwhole : ∀ c ∈ whole, c.isDigit)
    (hfraction : IsFraction fraction) (hne : whole ≠ [] ∨ fraction ≠ []) :
    Mantissa (whole ++ fraction) := by
  obtain rfl | ⟨places, hplaces, rfl⟩ := hfraction
  · rw [List.append_nil]
    exact .whole ⟨hne.resolve_right (fun h => h rfl), hwhole⟩
  · by_cases hnil : whole = []
    · rw [hnil]
      exact .point hplaces
    · exact .pointed ⟨hnil, hwhole⟩ hplaces

/-- A number is what can be spelled in three parts. -/
theorem isNumber_iff_wellFormed {text : List Char} :
    IsNumber text ↔ ∃ n : NumberSpelling, n.WellFormed ∧ n.chars = text := by
  constructor
  · intro h
    cases h with
    | plain hmantissa =>
        obtain ⟨whole, fraction, hwhole, hfraction, hne, rfl⟩ := hmantissa.exists_parts
        exact ⟨⟨whole, fraction, []⟩, ⟨hwhole, hfraction, .inl rfl, hne⟩, List.append_nil _⟩
    | scaled hmantissa hpower =>
        obtain ⟨whole, fraction, hwhole, hfraction, hne, rfl⟩ := hmantissa.exists_parts
        exact ⟨⟨whole, fraction, _⟩, ⟨hwhole, hfraction, hpower.isExponent, hne⟩, rfl⟩
  · rintro ⟨⟨whole, fraction, exponent⟩, ⟨hwhole, hfraction, hexponent, hne⟩, rfl⟩
    have hmantissa := mantissa_of_parts hwhole hfraction hne
    obtain rfl | hpower := IsExponent.eq_nil_or_power hexponent
    · rw [NumberSpelling.chars, List.append_nil]
      exact .plain hmantissa
    · exact .scaled hmantissa hpower

/-! ## The longest number -/

/-- The longest of the beginnings of a text that have the form of a number. -/
structure LongestNumber (lexeme text : List Char) : Prop where
  form : IsNumber lexeme
  begins : lexeme <+: text
  longest : ∀ other, IsNumber other → other <+: text → other.length ≤ lexeme.length

/-- Digits are not cut off before their end. -/
theorem prefix_spanDigits {digits : List Char} (h : ∀ c ∈ digits, c.isDigit) (rest : List Char) :
    digits <+: (spanDigits (digits ++ rest)).1 := by
  rw [spanDigits, List.takeWhile_append_of_pos h]
  exact List.prefix_append _ _

/-- A power of ten is not cut off before its end. -/
theorem prefix_spanExponent {exponent : List Char} (h : IsExponent exponent) (rest : List Char) :
    exponent <+: (spanExponent (exponent ++ rest)).1 := by
  obtain rfl | ⟨letter, sign, digits, hletter, hsign, hdigits, rfl⟩ := h
  · exact List.nil_prefix
  · have hpower := prefix_spanDigits hdigits.2 rest
    have hne : (spanDigits (digits ++ rest)).1 ≠ [] := fun hnil =>
      hdigits.1 (List.prefix_nil.1 (hnil ▸ hpower))
    rw [List.cons_append, List.append_assoc, spanExponent, takeSign_append hsign hdigits,
      List.drop_left]
    rw [if_pos ⟨hletter, hne⟩]
    exact List.cons_prefix_cons.2 ⟨rfl, (List.prefix_append_right_inj sign).2 hpower⟩

/-- Where a power of ten is, no digit and no point stands. -/
theorem IsExponent.head?_append {exponent : List Char} (h : IsExponent exponent)
    (hne : exponent ≠ []) (rest : List Char) :
    ∀ c ∈ (exponent ++ rest).head?, c ≠ '.' ∧ c.isDigit = false := by
  obtain rfl | ⟨letter, sign, digits, hletter, -, -, rfl⟩ := h
  · contradiction
  · rintro c ⟨rfl⟩
    rcases hletter with rfl | rfl <;> decide

/-- Neither a fraction nor the power of ten behind it is cut off before its end. -/
theorem prefix_spanFraction {fraction exponent : List Char} (hfraction : IsFraction fraction)
    (hexponent : IsExponent exponent) (hne : fraction ≠ [] ∨ exponent ≠ []) (rest : List Char) :
    let tail := spanFraction (fraction ++ (exponent ++ rest))
    fraction ++ exponent <+: tail.1 ++ (spanExponent tail.2).1 := by
  intro tail
  by_cases hnil : exponent = []
  · -- the digits of the fraction may go on in the rest
    obtain ⟨digits, hdigits, rfl⟩ := hfraction.resolve_left (hne.resolve_right (fun h => h hnil))
    obtain ⟨c, more, rfl⟩ := List.exists_cons_of_ne_nil hdigits.1
    have hc : c.isDigit = true := hdigits.2 c List.mem_cons_self
    have htail : tail.1 = '.' :: (spanDigits (c :: more ++ rest)).1 := by
      simp only [tail, hnil, List.nil_append, List.cons_append, spanFraction, if_pos hc]
    rw [hnil, List.append_nil, htail]
    exact (List.cons_prefix_cons.2 ⟨rfl, prefix_spanDigits hdigits.2 rest⟩).trans
      (List.prefix_append _ _)
  · -- the letter ends the fraction
    have hhead := hexponent.head?_append hnil rest
    have htail : tail = (fraction, exponent ++ rest) :=
      spanFraction_append_of_fraction hfraction (fun hdot => (hhead '.' hdot).1 rfl)
        fun c hc => (hhead c hc).2
    rw [htail]
    exact (List.prefix_append_right_inj fraction).2 (prefix_spanExponent hexponent rest)

/-- No number at the start of a text is longer than the one that is read. -/
theorem NumberSpelling.WellFormed.prefix_spanNumber {n : NumberSpelling} (h : n.WellFormed)
    (rest : List Char) : n.chars <+: (spanNumber (n.chars ++ rest)).1.chars := by
  obtain ⟨whole, fraction, exponent⟩ := n
  obtain ⟨hwhole, hfraction, hexponent, hne⟩ := h
  simp only [chars, List.append_assoc, spanNumber] at *
  by_cases htail : fraction = [] ∧ exponent = []
  · obtain ⟨rfl, rfl⟩ := htail
    rw [List.nil_append, List.append_nil]
    exact (prefix_spanDigits hwhole rest).trans (List.prefix_append _ _)
  · have hends : ∀ c ∈ (fraction ++ (exponent ++ rest)).head?, c.isDigit = false := by
      by_cases hnil : fraction = []
      · rw [hnil, List.nil_append]
        exact fun c hc =>
          (IsExponent.head?_append hexponent (fun h => htail ⟨hnil, h⟩) rest c hc).2
      · obtain ⟨digits, -, rfl⟩ := hfraction.resolve_left hnil
        rintro c ⟨rfl⟩
        rfl
    rw [spanDigits_append_of_head hwhole hends, List.prefix_append_right_inj]
    exact prefix_spanFraction hfraction hexponent (not_and_or.1 htail) rest

/-- The longest number is read. -/
theorem longestNumber_spanNumber {c : Char} {rest : List Char} (h : startsNumber c rest) :
    LongestNumber (spanNumber (c :: rest)).1.chars (c :: rest) where
  form := isNumber_iff_wellFormed.2 ⟨_, wellFormed_spanNumber h, rfl⟩
  begins := ⟨_, spanNumber_append (c :: rest)⟩
  longest := by
    intro other hother hbegins
    obtain ⟨n, hn, rfl⟩ := isNumber_iff_wellFormed.1 hother
    obtain ⟨behind, hbehind⟩ := hbegins
    rw [← hbehind]
    exact (hn.prefix_spanNumber behind).length_le

example : ["1.", "1.e5", "2e", "1e+", "1.5.5", ".5e-"].map
    (fun text => String.ofList (spanNumber text.toList).1.chars) =
      ["1", "1", "2", "1", "1.5", ".5"] := by
  decide

/-! ## What a number stands for -/

/-- The power of ten of a spelling is one. -/
theorem IsExponent.exponent?_isSome {exponent : List Char} (h : IsExponent exponent) :
    (Number.exponent? exponent).isSome := by
  obtain rfl | ⟨letter, sign, digits, hletter, hsign, hdigits, rfl⟩ := h
  · rfl
  · have hall : digits.all Char.isDigit = true := List.all_eq_true.2 hdigits.2
    have hempty : digits.isEmpty = false := List.isEmpty_eq_false_iff.2 hdigits.1
    have hspan : (spanSign (sign ++ digits)).2 = digits := by
      obtain rfl | rfl | rfl := hsign
      · obtain ⟨c, more, rfl⟩ := List.exists_cons_of_ne_nil hdigits.1
        have hc : c.isDigit = true := hdigits.2 c List.mem_cons_self
        rw [List.nil_append, spanSign.eq_def]
        split
        · next heq => cases heq; contradiction
        · next heq => cases heq; contradiction
        · rfl
      · rfl
      · rfl
    simp [Number.exponent?, hletter, hspan, hall, hempty]

/-- What is spelled in three parts is a numeral. -/
theorem NumberSpelling.WellFormed.numeral?_isSome {n : NumberSpelling} (h : n.WellFormed) :
    (numeral? n.chars).isSome := by
  obtain ⟨whole, fraction, exponent⟩ := n
  obtain ⟨hwhole, hfraction, hexponent, hne⟩ := h
  have hends : ∀ c ∈ exponent.head?, c ≠ '.' ∧ c.isDigit = false := by
    by_cases hnil : exponent = []
    · rw [hnil]
      nofun
    · have hhead := IsExponent.head?_append hexponent hnil []
      rwa [List.append_nil] at hhead
  have hpower := IsExponent.exponent?_isSome hexponent
  dsimp only at hwhole hfraction hne
  simp only [chars, List.append_assoc, numeral?]
  obtain rfl | ⟨digits, hdigits, rfl⟩ := hfraction
  · have hspan := spanDigits_append_of_head hwhole (fun c hc => (hends c hc).2)
    have hwholene : whole.isEmpty = false :=
      List.isEmpty_eq_false_iff.2 (hne.resolve_right fun h => h rfl)
    simp only [List.nil_append, hspan]
    split
    · exact absurd rfl (hends _ (by simp_all)).1
    · simpa [hwholene] using hpower
  · have hpoint : ∀ c ∈ ('.' :: (digits ++ exponent)).head?, c.isDigit = false := by
      rintro c ⟨rfl⟩
      rfl
    have hspan := spanDigits_append_of_head hwhole hpoint
    have hplaces := spanDigits_append_of_head hdigits.2 (fun c hc => (hends c hc).2)
    have hdigitsne : digits.isEmpty = false := List.isEmpty_eq_false_iff.2 hdigits.1
    simpa [hspan, hplaces, hdigitsne] using hpower

/-- The value of a spelling is that of its numeral. -/
theorem NumberSpelling.WellFormed.exists_numeral {n : NumberSpelling} (h : n.WellFormed) :
    ∃ numeral, numeral? n.chars = some numeral ∧ n.value = numeral.toFloat := by
  obtain ⟨numeral, hnumeral⟩ := Option.isSome_iff_exists.1 h.numeral?_isSome
  exact ⟨numeral, hnumeral, by rw [value, hnumeral]; rfl⟩

/-- A digit and a point are no signs and no letters. -/
theorem startsNumber_cases {c : Char} {rest : List Char} (h : startsNumber c rest) :
    c ≠ '+' ∧ c ≠ '-' ∧ c.toLower = c ∧ c ≠ 'i' ∧ c ≠ 'n' := by
  rw [startsNumber, Bool.or_eq_true, Bool.and_eq_true, beq_iff_eq] at h
  obtain hdigit | ⟨rfl, -⟩ := h
  · have hcode := code_of_isDigit hdigit
    have hlower : c.toLower = c := by
      refine dif_neg fun hupper => ?_
      have hfirst : 'A'.toNat ≤ c.toNat := UInt32.le_iff_toNat_le.1 hupper.1
      exact absurd (hfirst.trans hcode.2) (by decide)
    refine ⟨?_, ?_, hlower, ?_, ?_⟩ <;>
      · rintro rfl
        contradiction
  · decide

/-- A text that begins like a number is a float only if it is a numeral. -/
theorem float?_of_startsNumber {text : String} {c : Char} {rest : List Char}
    (htext : text.toList = c :: rest) (h : startsNumber c rest) :
    Number.float? text = (numeral? text.toList).map Numeral.toFloat := by
  obtain ⟨hplus, hminus, hlower, hi, hn⟩ := startsNumber_cases h
  have hsign : spanSign (c :: rest) = (false, c :: rest) := by
    rw [spanSign.eq_def]
    split
    · next heq => exact absurd (List.cons.inj heq).1 hminus
    · next heq => exact absurd (List.cons.inj heq).1 hplus
    · rfl
  have hword : ∀ word : String, word.toList.head? = some 'i' ∨ word.toList.head? = some 'n' →
      String.ofList ((c :: rest).map Char.toLower) ≠ word := by
    rintro word hhead rfl
    rw [String.toList_ofList, List.map_cons, List.head?_cons, hlower, Option.some_inj,
      Option.some_inj] at hhead
    exact hhead.elim hi hn
  simp only [Number.float?, htext, hsign]
  rw [if_neg (not_or.2 ⟨hword "inf" (.inl rfl), hword "infinity" (.inl rfl)⟩),
    if_neg (hword "nan" (.inr rfl))]
  simp [Function.comp_def]

/-- The words up to infinity are numbers. -/
theorem isNaN_ofBits {n : Nat} (h : n ≤ Width.double.infinity) :
    (Float.ofBits (UInt64.ofNat n)).isNaN = false := by
  refine Synth.isNaN_unpack_pack Format.binary64 ?_
  have hinfinity : Width.double.infinity = 2047 * 2 ^ 52 := rfl
  have hword : (UInt64.ofNat n).toBitVec.toNat = n := by
    rw [UInt64.toNat_toBitVec, UInt64.toNat_ofNat']
    omega
  generalize (UInt64.ofNat n).toBitVec = bits at hword
  have hexponent : (@unpackExponent Format.binary64 bits).toNat =
      n / 2 ^ 52 % 2 ^ 11 := by
    rw [unpackExponent, BitVec.toNat_cast, BitVec.extractLsb_toNat, Nat.shiftRight_eq_div_pow]
    exact congrArg (· / 2 ^ 52 % 2 ^ 11) hword
  have hmantissa : (@unpackMantissa Format.binary64 bits).toNat = n % 2 ^ 52 := by
    rw [unpackMantissa, BitVec.toNat_cast, BitVec.extractLsb_toNat, Nat.shiftRight_zero]
    exact congrArg (· % 2 ^ 52) hword
  unfold unpack
  dsimp only
  split
  · next hall =>
      -- with all exponent bits set, nothing is left for the fraction
      rw [hall] at hexponent
      have hgreatest : 2047 = n / 2 ^ 52 % 2 ^ 11 := hexponent
      have hfraction : n % 2 ^ 52 = 0 := by omega
      have hzero : @unpackMantissa Format.binary64 bits = 0#_ :=
        BitVec.eq_of_toNat_eq (hmantissa.trans hfraction)
      rw [if_pos hzero]
      rfl
  · split
    · split <;> rfl
    · rfl

/-- The word of a numeral is that of infinity or one below it. -/
theorem toBits_le (w : Width) (n : Numeral) : n.toBits w ≤ w.infinity := by
  have hencode : ∀ num den, w.encode num den ≤ w.infinity := by
    intro num den
    unfold Width.encode
    split
    · exact Nat.zero_le _
    · exact Nat.min_le_right _ _
  unfold Numeral.toBits
  dsimp only
  split
  · exact Nat.zero_le _
  split
  · exact Nat.le_refl _
  split
  · exact Nat.zero_le _
  · exact hencode _ _

/-- A number that is read has a value, which is the one that its text is read as on its own. -/
theorem float?_spanNumber {c : Char} {rest : List Char} (h : startsNumber c rest) :
    let n := (spanNumber (c :: rest)).1
    Number.float? (String.ofList n.chars) = some n.value ∧ n.value.isNaN = false := by
  intro n
  have hn : n.WellFormed := wellFormed_spanNumber h
  obtain ⟨numeral, hnumeral, hvalue⟩ := hn.exists_numeral
  obtain ⟨d, more, hchars, -, hstarts⟩ := hn.exists_startsNumber []
  rw [List.append_nil] at hstarts
  have htext : (String.ofList n.chars).toList = d :: more := by rw [String.toList_ofList, hchars]
  rw [float?_of_startsNumber htext hstarts, String.toList_ofList, hnumeral, hvalue]
  exact ⟨rfl, isNaN_ofBits (toBits_le _ numeral)⟩

end ToneGraph

import Mathlib.Data.List.Induction
import Mathlib.Data.Prod.Lex
import Mathlib.Order.Bounds.Basic
import Mathlib.Order.Monotone.Basic
import ToneGraph.Proofs.Token.Layout
/-!
# Lines and columns are faithful

A report points at a byte, and people read a line and a column.  Nothing is lost on the way: at the
boundaries of characters, line and column tell any two offsets apart and keep their order.  An
offset that is no boundary is read as the last boundary before it.

A boundary is the end of some first characters of the source.  Each further character moves the
place on: a newline to the next line, any other character to the next column.  Order is therefore a
matter of one character, and an induction over the characters between two boundaries.

Looking for a boundary goes down byte by byte and asks at each one.  It could only run below zero at
the first byte, and there every source has a boundary.

## Main definitions

* `boundaries`: the offsets between characters.
* `boundaryBelow?`: the search for a boundary.
* `placeAfter`: line and column behind some first characters.
* `IsLastLine`: the characters since the last newline.

## Main statements

* `boundaryBelow?_isGreatest`: the search ends at the greatest boundary.
* `placeAfter_lt_append`: characters move the place on.
* `lineColumn_faithful`: both together.
-/

namespace ToneGraph.Text

/-! ## Boundaries -/

/-- The offsets between characters, those of the start and of the end included. -/
def boundaries (source : String) : Set Nat :=
  {b | String.Pos.Raw.IsValid source ⟨b⟩}

/-- Goes down from an offset to a boundary, byte by byte.  There is none if the search would go
below zero. -/
def boundaryBelow? (source : String) : Nat → Option Nat
  | 0 => if String.Pos.Raw.IsValid source ⟨0⟩ then some 0 else none
  | b + 1 =>
    if String.Pos.Raw.IsValid source ⟨b + 1⟩ then some (b + 1) else boundaryBelow? source b

/-- A boundary is the end of some first characters. -/
theorem mem_boundaries_iff {source : String} {b : Nat} :
    b ∈ boundaries source ↔
      ∃ before after, source.toList = before ++ after ∧ byteLength before = b := by
  constructor
  · intro h
    obtain ⟨before, after, rfl, hb⟩ := String.Pos.Raw.isValid_iff_exists_append.1 h
    refine ⟨before.toList, after.toList, String.toList_append, ?_⟩
    rw [byteLength_toList]
    exact (congrArg String.Pos.Raw.byteIdx hb).symm
  · rintro ⟨before, after, hsource, rfl⟩
    exact isValid_byteLength hsource

/-- The search ends, and it ends at the greatest boundary that is not above its start. -/
theorem boundaryBelow?_isGreatest (source : String) (stop : Nat) :
    ∃ b, boundaryBelow? source stop = some b ∧ IsGreatest {b ∈ boundaries source | b ≤ stop} b := by
  induction stop with
  | zero =>
      have hzero : String.Pos.Raw.IsValid source ⟨0⟩ := String.Pos.Raw.isValid_zero
      exact ⟨0, if_pos hzero, ⟨hzero, Nat.le_refl 0⟩, fun b h => h.2⟩
  | succ stop ih =>
      by_cases hnext : String.Pos.Raw.IsValid source ⟨stop + 1⟩
      · exact ⟨stop + 1, if_pos hnext, ⟨hnext, Nat.le_refl _⟩, fun b h => h.2⟩
      · obtain ⟨b, hfound, hb, hgreatest⟩ := ih
        refine ⟨b, (if_neg hnext).trans hfound, ⟨hb.1, Nat.le_succ_of_le hb.2⟩, ?_⟩
        rintro c ⟨hc, hle⟩
        have hne : c ≠ stop + 1 := fun heq => hnext (heq ▸ hc)
        exact hgreatest ⟨hc, by omega⟩

/-! ## Characters before an offset -/

theorem charsBefore_prefix (text : List Char) (offset : Nat) :
    charsBefore text offset <+: text := by
  induction text generalizing offset with
  | nil => exact List.nil_prefix
  | cons c text ih =>
      unfold charsBefore
      split
      · exact List.cons_prefix_cons.2 ⟨rfl, ih _⟩
      · exact List.nil_prefix

/-- First characters that take no more bytes than the offset says are before the offset. -/
theorem prefix_charsBefore {before text : List Char} {offset : Nat} (hbegins : before <+: text)
    (hle : byteLength before ≤ offset) : before <+: charsBefore text offset := by
  induction before generalizing text offset with
  | nil => exact List.nil_prefix
  | cons c before ih =>
      obtain ⟨after, rfl⟩ := hbegins
      rw [byteLength_cons] at hle
      rw [List.cons_append, charsBefore, if_pos (by omega)]
      exact List.cons_prefix_cons.2 ⟨rfl, ih ⟨after, rfl⟩ (by omega)⟩

/-- Further characters take further bytes. -/
theorem byteLength_lt_append (before : List Char) (c : Char) (rest : List Char) :
    byteLength before < byteLength (before ++ c :: rest) := by
  rw [byteLength_append, byteLength_cons]
  have hpos := c.utf8Size_pos
  omega

/-- The characters before an offset are those before the greatest boundary that is not above it. -/
theorem charsBefore_eq {source : String} {before after : List Char} {offset : Nat}
    (hsource : source.toList = before ++ after)
    (hgreatest : IsGreatest {b ∈ boundaries source | b ≤ offset} (byteLength before)) :
    charsBefore source.toList offset = before := by
  obtain ⟨rest, hrest⟩ : before <+: charsBefore source.toList offset :=
    prefix_charsBefore ⟨after, hsource.symm⟩ hgreatest.1.2
  obtain ⟨above, habove⟩ := charsBefore_prefix source.toList offset
  cases rest with
  | nil => rw [← hrest, List.append_nil]
  | cons c rest =>
      have hle : byteLength (charsBefore source.toList offset) ≤ byteLength before :=
        hgreatest.2 ⟨mem_boundaries_iff.2 ⟨_, above, habove.symm, rfl⟩,
          byteLength_charsBefore_le _ _⟩
      rw [← hrest] at hle
      exact absurd hle (Nat.not_le_of_lt (byteLength_lt_append before c rest))

/-! ## Places -/

/-- The characters behind the last newline, or all of them if there is none. -/
def IsLastLine (before line : List Char) : Prop :=
  '\n' ∉ line ∧ (before = line ∨ ∃ above, before = above ++ '\n' :: line)

/-- Line and column behind some first characters. -/
def placeAfter (before : List Char) : Nat × Nat :=
  (before.count '\n' + 1, (lastLine before).length + 1)

theorem lastLine_concat (before : List Char) (c : Char) :
    lastLine (before ++ [c]) = if c = '\n' then [] else lastLine before ++ [c] := by
  unfold lastLine
  rw [List.reverse_append, List.reverse_singleton, List.singleton_append, List.takeWhile_cons]
  by_cases hc : c = '\n'
  · rw [if_pos hc, if_neg (by simp [hc])]
    rfl
  · rw [if_neg hc, if_pos (by simp [hc]), List.reverse_cons]

theorem isLastLine_lastLine (before : List Char) : IsLastLine before (lastLine before) := by
  induction before using List.reverseRecOn with
  | nil => exact ⟨List.not_mem_nil, .inl rfl⟩
  | append_singleton before c ih =>
      rw [lastLine_concat]
      by_cases hc : c = '\n'
      · rw [if_pos hc]
        exact ⟨List.not_mem_nil, .inr ⟨before, by rw [hc]⟩⟩
      · rw [if_neg hc]
        refine ⟨?_, ?_⟩
        · rw [List.mem_append, List.mem_singleton]
          exact fun h => h.elim ih.1 fun heq => hc heq.symm
        · obtain heq | ⟨above, heq⟩ := ih.2
          · exact .inl (by rw [← heq])
          · refine .inr ⟨above, ?_⟩
            rw [← List.cons_append, ← List.append_assoc, ← heq]

/-- A newline goes to the next line, and any other character to the next column. -/
theorem placeAfter_lt_concat (before : List Char) (c : Char) :
    toLex (placeAfter before) < toLex (placeAfter (before ++ [c])) := by
  rw [Prod.Lex.toLex_lt_toLex]
  unfold placeAfter
  rw [List.count_append, lastLine_concat]
  by_cases hc : c = '\n'
  · subst hc
    rw [List.count_singleton_self]
    exact .inl (Nat.lt_succ_self _)
  · rw [List.count_singleton, if_neg (by simpa using hc), if_neg hc, List.length_append]
    exact .inr ⟨rfl, Nat.lt_succ_self _⟩

/-- Characters move the place on. -/
theorem placeAfter_lt_append (before : List Char) (c : Char) (rest : List Char) :
    toLex (placeAfter before) < toLex (placeAfter (before ++ c :: rest)) := by
  induction rest generalizing before c with
  | nil => exact placeAfter_lt_concat before c
  | cons d rest ih =>
      have hrest := ih (before ++ [c]) d
      rw [List.append_assoc, List.singleton_append] at hrest
      exact (placeAfter_lt_concat before c).trans hrest

/-! ## Lines and columns -/

/-- A boundary has the place behind the characters before it. -/
theorem lineColumn_byteLength {source : String} {before after : List Char}
    (hsource : source.toList = before ++ after) :
    lineColumn source (byteLength before) = placeAfter before := by
  have hgreatest : IsGreatest {b ∈ boundaries source | b ≤ byteLength before}
      (byteLength before) :=
    ⟨⟨isValid_byteLength hsource, Nat.le_refl _⟩, fun b h => h.2⟩
  rw [lineColumn, charsBefore_eq hsource hgreatest]
  rfl

theorem strictMonoOn_lineColumn (source : String) :
    StrictMonoOn (fun b => toLex (lineColumn source b)) (boundaries source) := by
  intro i hi j hj hlt
  obtain ⟨before, after, hbefore, rfl⟩ := mem_boundaries_iff.1 hi
  obtain ⟨before', after', hbefore', rfl⟩ := mem_boundaries_iff.1 hj
  dsimp only
  rw [lineColumn_byteLength hbefore, lineColumn_byteLength hbefore']
  -- Of two beginnings of the source the one with fewer bytes begins the other one.
  have happend := hbefore.symm.trans hbefore'
  obtain ⟨rest, rfl, -⟩ | ⟨rest, rfl, -⟩ := List.append_eq_append_iff.1 happend
  · cases rest with
    | nil => rw [List.append_nil] at hlt; exact absurd hlt (Nat.lt_irrefl _)
    | cons c rest => exact placeAfter_lt_append before c rest
  · rw [byteLength_append] at hlt
    omega

/-- No boundary lies behind the end. -/
theorem boundaries_le_min (source : String) (offset : Nat) :
    {b ∈ boundaries source | b ≤ min offset source.utf8ByteSize} =
      {b ∈ boundaries source | b ≤ offset} := by
  ext b
  refine ⟨fun h => ⟨h.1, h.2.trans (min_le_left _ _)⟩, fun h => ⟨h.1, le_min h.2 ?_⟩⟩
  exact String.Pos.Raw.IsValid.le_rawEndPos h.1

/-- An offset has the line and the column of the greatest boundary that is neither above it nor
behind the end, and the search finds that boundary.  The line counts the newlines before the
boundary, and the column the characters since the last one.  Among boundaries, line and column keep
the order of offsets, and tell any two of them apart. -/
theorem lineColumn_faithful (source : String) :
    (∀ offset, ∃ before after line,
      source.toList = before ++ after ∧ IsLastLine before line ∧
      boundaryBelow? source (min offset source.utf8ByteSize) = some (byteLength before) ∧
      IsGreatest {b ∈ boundaries source | b ≤ min offset source.utf8ByteSize}
        (byteLength before) ∧
      lineColumn source offset = lineColumn source (byteLength before) ∧
      lineColumn source offset = (before.count '\n' + 1, line.length + 1)) ∧
    StrictMonoOn (fun b => toLex (lineColumn source b)) (boundaries source) ∧
    Set.InjOn (lineColumn source) (boundaries source) := by
  refine ⟨fun offset => ?_, strictMonoOn_lineColumn source, ?_⟩
  · obtain ⟨b, hfound, hgreatest⟩ :=
      boundaryBelow?_isGreatest source (min offset source.utf8ByteSize)
    obtain ⟨before, after, hsource, rfl⟩ := mem_boundaries_iff.1 hgreatest.1.1
    have hplace : lineColumn source offset = placeAfter before := by
      rw [lineColumn, charsBefore_eq hsource (boundaries_le_min source offset ▸ hgreatest)]
      rfl
    exact ⟨before, after, lastLine before, hsource, isLastLine_lastLine before, hfound, hgreatest,
      hplace.trans (lineColumn_byteLength hsource).symm, hplace⟩
  · exact fun i hi j hj heq => (strictMonoOn_lineColumn source).injOn hi hj (congrArg toLex heq)

/-- An offset inside a character of two bytes has the column of that character. -/
example : lineColumn "// é\nfoo(" 4 = (1, 4) := by decide

end ToneGraph.Text

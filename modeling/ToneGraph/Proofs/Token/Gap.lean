import ToneGraph.Token.Scan
/-!
# What is skipped between words

Between two words stand blanks, line comments and block comments.  This module says which runs of
characters these are without saying how they are skipped, and shows that skipping takes such a run,
to its end and no further.

A comment that nothing ends takes the rest of the source.  For a line comment that is as good as a
newline at the end; for a block comment it is an error, which remembers where the comment opens.

## Main definitions

* `Trivia`: blanks and comments that are closed.
* `AtWord`: a text that begins with a word, if with anything.
* `Skipped`: a text that begins with a gap, and what lies behind that gap.

## Main statements

* `Trivia.skipGap_append`: blanks and closed comments are skipped, whatever follows.
* `skipped_skipGap`: nothing else is skipped, apart from a comment that runs to the end.
-/

namespace ToneGraph

open Text

/-! ## Comments -/

/-- A text in which no block comment ends. -/
def NoClosing (body : List Char) : Prop :=
  ¬ ['*', '/'] <:+: body

theorem noClosing_cons_cons {c d : Char} {rest : List Char} :
    NoClosing (c :: d :: rest) ↔ ¬ (c = '*' ∧ d = '/') ∧ NoClosing (d :: rest) := by
  unfold NoClosing
  rw [List.infix_cons_iff, List.cons_prefix_cons, List.cons_prefix_cons, not_or]
  simp [eq_comm]

theorem noClosing_of_length_le {body : List Char} (h : body.length ≤ 1) : NoClosing body := by
  intro hinfix
  have hle := hinfix.length_le
  simp only [List.length_cons, List.length_nil] at hle
  omega

/-- A block comment ends where its closing mark stands for the first time. -/
theorem spanComment_append_of_noClosing {body : List Char} (h : NoClosing body)
    (rest : List Char) :
    spanComment (body ++ '*' :: '/' :: rest) = some (body ++ ['*', '/'], rest) := by
  induction body with
  | nil => simp [spanComment]
  | cons c body ih =>
      cases body with
      | nil => simp [spanComment]
      | cons d body =>
          obtain ⟨hc, hrest⟩ := noClosing_cons_cons.1 h
          have hnext := ih hrest
          rw [List.cons_append] at hnext
          rw [List.cons_append, List.cons_append, spanComment, if_neg hc, hnext]
          rfl

theorem eq_append_of_spanComment {text body rest : List Char}
    (h : spanComment text = some (body, rest)) :
    ∃ inside, NoClosing inside ∧ body = inside ++ ['*', '/'] := by
  fun_induction spanComment text generalizing body rest with
  | case1 => contradiction
  | case2 => contradiction
  | case3 c d behind hc =>
      obtain ⟨rfl, rfl⟩ := hc
      cases h
      exact ⟨[], noClosing_of_length_le (Nat.zero_le _), rfl⟩
  | case4 c d behind hc ih =>
      obtain ⟨⟨body', rest'⟩, hspan, heq⟩ := Option.map_eq_some_iff.1 h
      cases heq
      obtain ⟨inside, hinside, rfl⟩ := ih hspan
      refine ⟨c :: inside, ?_, rfl⟩
      cases inside with
      | nil => exact noClosing_of_length_le (Nat.le_refl _)
      | cons e inside =>
          have happ := spanComment_append hspan
          rw [List.append_assoc, List.cons_append, List.cons.injEq] at happ
          rw [noClosing_cons_cons, happ.1]
          exact ⟨hc, happ.1 ▸ hinside⟩

theorem noClosing_of_spanComment {text : List Char} (h : spanComment text = none) :
    NoClosing text := by
  fun_induction spanComment text with
  | case1 => exact noClosing_of_length_le (Nat.zero_le _)
  | case2 => exact noClosing_of_length_le (Nat.le_refl _)
  | case3 => contradiction
  | case4 c d behind hc ih =>
      rw [Option.map_eq_none_iff] at h
      exact noClosing_cons_cons.2 ⟨hc, ih h⟩

/-! ## Gaps that are skipped -/

/-- Blanks, line comments up to a newline, and block comments up to their first closing mark. -/
inductive Trivia : List Char → Prop
  | nil : Trivia []
  | blank {c rest} : isBlank c → Trivia rest → Trivia (c :: rest)
  | line {body rest} : '\n' ∉ body → Trivia rest → Trivia ('/' :: '/' :: (body ++ '\n' :: rest))
  | block {body rest} : NoClosing body → Trivia rest →
      Trivia ('/' :: '*' :: (body ++ '*' :: '/' :: rest))

/-- A text that begins with a word, if with anything. -/
def AtWord : List Char → Prop
  | [] => True
  | c :: rest => isBlank c = false ∧ (c = '/' → rest.head? ≠ some '/' ∧ rest.head? ≠ some '*')

theorem atWord_nil : AtWord [] := True.intro

theorem atWord_cons {c : Char} {rest : List Char} : AtWord (c :: rest) ↔
    isBlank c = false ∧ (c = '/' → rest.head? ≠ some '/' ∧ rest.head? ≠ some '*') :=
  Iff.rfl

section

variable (offset : Nat)

theorem skipGap_blank {c : Char} (hc : isBlank c) (rest : List Char) :
    skipGap (c :: rest) offset = skipGap rest (offset + c.utf8Size) := by
  rw [skipGap.eq_def]
  exact if_pos hc

theorem skipGap_line (line : List Char) :
    skipGap ('/' :: '/' :: line) offset = skipGap (line.dropWhile (· != '\n'))
      (offset + 2 + byteLength (line.takeWhile (· != '\n'))) := by
  rw [skipGap.eq_def]
  rfl

theorem skipGap_comment (inside : List Char) :
    skipGap ('/' :: '*' :: inside) offset =
      match spanComment inside with
      | some (body, behind) => skipGap behind (offset + 2 + byteLength body)
      | none => ⟨[], offset + 2 + byteLength inside, some offset⟩ := by
  rw [skipGap.eq_def]
  dsimp only
  rw [if_neg (by decide), if_pos rfl]
  split
  · next hline => cases hline
  · next hcons =>
      cases hcons
      split <;> next hspan => rw [hspan]
  · next hother => exact absurd rfl (hother inside)

theorem skipGap_block {inside body behind : List Char}
    (h : spanComment inside = some (body, behind)) :
    skipGap ('/' :: '*' :: inside) offset = skipGap behind (offset + 2 + byteLength body) := by
  rw [skipGap_comment, h]

theorem skipGap_unclosed {inside : List Char} (h : spanComment inside = none) :
    skipGap ('/' :: '*' :: inside) offset =
      ⟨[], offset + 2 + byteLength inside, some offset⟩ := by
  rw [skipGap_comment, h]

/-- Nothing is skipped in front of a word. -/
theorem AtWord.skipGap_eq {text : List Char} (h : AtWord text) :
    skipGap text offset = ⟨text, offset, none⟩ := by
  rw [skipGap.eq_def]
  cases text with
  | nil => rfl
  | cons c rest =>
      obtain ⟨hblank, hslash⟩ := h
      show (if _ then _ else if _ then _ else _) = _
      rw [if_neg (by rw [hblank]; nofun)]
      split
      · next hc =>
          obtain ⟨hline, hblock⟩ := hslash hc
          split
          · exact absurd rfl hline
          · exact absurd rfl hblock
          · rfl
      · rfl

end

theorem bne_newline {body : List Char} (h : '\n' ∉ body) : ∀ c ∈ body, (c != '\n') = true := by
  intro c hc
  rw [bne_iff_ne]
  rintro rfl
  exact h hc

theorem takeWhile_line {body : List Char} (h : '\n' ∉ body) (rest : List Char) :
    (body ++ '\n' :: rest).takeWhile (· != '\n') = body := by
  rw [List.takeWhile_append_of_pos (bne_newline h)]
  simp

theorem dropWhile_line {body : List Char} (h : '\n' ∉ body) (rest : List Char) :
    (body ++ '\n' :: rest).dropWhile (· != '\n') = '\n' :: rest := by
  rw [List.dropWhile_append_of_pos (bne_newline h)]
  rfl

theorem byteLength_comment {c d : Char} (hc : c.utf8Size = 1) (hd : d.utf8Size = 1)
    (offset : Nat) (body : List Char) :
    offset + byteLength (c :: d :: body) = offset + 2 + byteLength body := by
  simp only [byteLength_cons, hc, hd]
  omega

/-- Blanks and closed comments are skipped, whatever follows them. -/
theorem Trivia.skipGap_append {gap : List Char} (h : Trivia gap) (rest : List Char)
    (offset : Nat) : skipGap (gap ++ rest) offset = skipGap rest (offset + byteLength gap) := by
  induction h generalizing offset with
  | nil => rfl
  | blank hc _ ih =>
      rw [List.cons_append, skipGap_blank offset hc, ih, byteLength_cons, Nat.add_assoc]
  | @line body behind hbody _ ih =>
      rw [List.cons_append, List.cons_append, List.append_assoc, List.cons_append, skipGap_line,
        takeWhile_line hbody, dropWhile_line hbody, skipGap_blank _ isBlank_newline, ih,
        byteLength_comment rfl rfl, byteLength_append, byteLength_cons, Nat.add_assoc,
        Nat.add_assoc]
  | @block body behind hbody _ ih =>
      have hspan := spanComment_append_of_noClosing hbody (behind ++ rest)
      rw [List.cons_append, List.cons_append, List.append_assoc, List.cons_append,
        List.cons_append, skipGap_block offset hspan, ih, byteLength_comment rfl rfl]
      simp only [byteLength_append, byteLength_cons, byteLength_nil]
      congr 1
      omega

/-! ## Nothing else is skipped -/

/-- A text that begins with a gap, of which the first character stands at `offset`, and what lies
behind the gap. -/
inductive Skipped (offset : Nat) : List Char → Gap → Prop
  | word {gap rest} : Trivia gap → AtWord rest →
      Skipped offset (gap ++ rest) ⟨rest, offset + byteLength gap, none⟩
  | line {gap body} : Trivia gap → '\n' ∉ body →
      Skipped offset (gap ++ '/' :: '/' :: body)
        ⟨[], offset + byteLength (gap ++ '/' :: '/' :: body), none⟩
  | block {gap body} : Trivia gap → NoClosing body →
      Skipped offset (gap ++ '/' :: '*' :: body)
        ⟨[], offset + byteLength (gap ++ '/' :: '*' :: body), some (offset + byteLength gap)⟩

/-- A gap may begin with more blanks and closed comments. -/
theorem Skipped.prepend {front text : List Char} {offset : Nat} {g : Gap}
    (hfront : ∀ gap, Trivia gap → Trivia (front ++ gap))
    (h : Skipped (offset + byteLength front) text g) : Skipped offset (front ++ text) g := by
  cases h with
  | @word gap rest hgap hrest =>
      have hword : Skipped offset _ _ := .word (hfront gap hgap) hrest
      rwa [byteLength_append, ← Nat.add_assoc, List.append_assoc] at hword
  | @line gap body hgap hbody =>
      have hline : Skipped offset _ _ := .line (hfront gap hgap) hbody
      rwa [List.append_assoc, byteLength_append, ← Nat.add_assoc] at hline
  | @block gap body hgap hbody =>
      have hblock : Skipped offset _ _ := .block (hfront gap hgap) hbody
      rwa [List.append_assoc, byteLength_append front (gap ++ _), byteLength_append front gap,
        ← Nat.add_assoc, ← Nat.add_assoc] at hblock

theorem skipped_of_atWord {text : List Char} (h : AtWord text) (offset : Nat) :
    Skipped offset text (skipGap text offset) := by
  rw [h.skipGap_eq]
  exact .word .nil h

/-- A line ends with a newline or runs to the end. -/
theorem line_eq_append (line : List Char) :
    ∃ body, '\n' ∉ body ∧ (line = body ∨ ∃ behind, line = body ++ '\n' :: behind) := by
  refine ⟨line.takeWhile (· != '\n'), ?_, ?_⟩
  · intro hmem
    simpa using List.all_eq_true.1 List.all_takeWhile _ hmem
  · have hsplit := List.takeWhile_append_dropWhile (p := (· != '\n')) (l := line)
    cases hdrop : line.dropWhile (· != '\n') with
    | nil =>
        rw [hdrop, List.append_nil] at hsplit
        exact .inl hsplit.symm
    | cons d behind =>
        have hd : d = '\n' := by
          have hhead := List.head_dropWhile_not (· != '\n') (by rw [hdrop]; nofun)
          simpa [hdrop] using hhead
        rw [hdrop, hd] at hsplit
        exact .inr ⟨behind, hsplit.symm⟩

section

variable {n : Nat} (hskip : ∀ (text : List Char) (offset : Nat), text.length < n →
  Skipped offset text (skipGap text offset))

include hskip

theorem skipped_line_comment {line : List Char} (hlen : line.length < n) (offset : Nat) :
    Skipped offset ('/' :: '/' :: line) (skipGap ('/' :: '/' :: line) offset) := by
  obtain ⟨body, hbody, rfl | ⟨behind, rfl⟩⟩ := line_eq_append line
  · have htake : (line ++ []).takeWhile (· != '\n') = _ :=
      List.takeWhile_append_of_pos (bne_newline hbody)
    have hdrop : (line ++ []).dropWhile (· != '\n') = _ :=
      List.dropWhile_append_of_pos (bne_newline hbody)
    rw [List.append_nil, List.takeWhile_nil, List.append_nil] at htake
    rw [List.append_nil, List.dropWhile_nil] at hdrop
    have hline : Skipped offset _ _ := .line .nil hbody
    rw [List.nil_append, byteLength_comment rfl rfl] at hline
    rwa [skipGap_line, htake, hdrop, atWord_nil.skipGap_eq]
  · have hclosed : Trivia ('/' :: '/' :: (body ++ ['\n'])) := .line hbody .nil
    have happ := hclosed.skipGap_append behind offset
    have hbehind := hskip behind (offset + byteLength ('/' :: '/' :: (body ++ ['\n'])))
      (by rw [List.length_append, List.length_cons] at hlen; omega)
    rw [← happ] at hbehind
    have hall := hbehind.prepend fun gap hgap => by
      rw [List.cons_append, List.cons_append, List.append_assoc]
      exact .line hbody hgap
    rwa [List.cons_append, List.cons_append, List.append_assoc] at hall

theorem skipped_block_comment {inside : List Char} (hlen : inside.length < n) (offset : Nat) :
    Skipped offset ('/' :: '*' :: inside) (skipGap ('/' :: '*' :: inside) offset) := by
  cases hspan : spanComment inside with
  | none =>
      have hblock : Skipped offset _ _ := .block .nil (noClosing_of_spanComment hspan)
      rw [List.nil_append, byteLength_comment rfl rfl] at hblock
      rwa [skipGap_unclosed offset hspan]
  | some span =>
      obtain ⟨comment, behind⟩ := span
      obtain ⟨body, hbody, rfl⟩ := eq_append_of_spanComment hspan
      obtain rfl := spanComment_append hspan
      have hclosed : Trivia ('/' :: '*' :: (body ++ ['*', '/'])) := .block hbody .nil
      have happ := hclosed.skipGap_append behind offset
      have hbehind := hskip behind (offset + byteLength ('/' :: '*' :: (body ++ ['*', '/'])))
        (by rw [List.length_append, List.length_append] at hlen; simp at hlen; omega)
      rw [← happ] at hbehind
      have hall := hbehind.prepend fun gap hgap => by
        rw [List.cons_append, List.cons_append, List.append_assoc]
        exact .block hbody hgap
      exact hall

end

/-- What is skipped is a gap, and what is left begins with a word. -/
theorem skipped_skipGap (text : List Char) (offset : Nat) :
    Skipped offset text (skipGap text offset) := by
  induction hcount : text.length using Nat.strongRecOn generalizing text offset with
  | _ count ih =>
      subst hcount
      have hskip : ∀ behind offset, behind.length < text.length →
          Skipped offset behind (skipGap behind offset) :=
        fun behind offset hlen => ih behind.length hlen behind offset rfl
      cases text with
      | nil => exact skipped_of_atWord atWord_nil offset
      | cons c rest =>
          by_cases hblank : isBlank c
          · have hrest := hskip rest (offset + c.utf8Size) (Nat.lt_succ_self _)
            rw [skipGap_blank offset hblank]
            have hfront : ∀ gap, Trivia gap → Trivia ([c] ++ gap) := fun _ => .blank hblank
            exact hrest.prepend hfront
          by_cases hslash : c = '/' ∧ (rest.head? = some '/' ∨ rest.head? = some '*')
          · obtain ⟨rfl, hhead⟩ := hslash
            cases rest with
            | nil => simp at hhead
            | cons d inside =>
                have hlen : inside.length < (d :: inside).length + 1 := by
                  rw [List.length_cons]
                  omega
                rw [List.head?_cons, Option.some.injEq, Option.some.injEq] at hhead
                obtain rfl | rfl := hhead
                · exact skipped_line_comment hskip hlen offset
                · exact skipped_block_comment hskip hlen offset
          · refine skipped_of_atWord (atWord_cons.2 ⟨eq_false_of_ne_true hblank, ?_⟩) offset
            rintro rfl
            exact not_or.1 fun hhead => hslash ⟨rfl, hhead⟩

end ToneGraph

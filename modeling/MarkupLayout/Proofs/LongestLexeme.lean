import Mathlib.Computability.Language
import Mathlib.Data.List.TakeWhile
import MarkupLayout.Proofs.StepShape
/-!
# Lexemes are longest matches

Each class of lexemes has a pattern, a regular language of texts.  A text starts with a lexeme of
the class whose pattern matches the longest prefix, no two patterns match the same text, and where
no pattern matches, the lexeme is one character of no class.  Cutting lexeme after lexeme divides a
text into consecutive ranges, none of them empty.
-/

namespace MarkupLayout

open Computability

/-! ## Texts over classes of characters -/

namespace Text

def oneOf (p : Char → Bool) : Language Char :=
  {t | ∃ c, p c = true ∧ t = [c]}

def someOf (p : Char → Bool) : Language Char :=
  oneOf p * (oneOf p)∗

variable {p : Char → Bool} {s t : Text} {c : Char}

theorem mem_oneOf_iff : t ∈ oneOf p ↔ ∃ c, p c = true ∧ t = [c] :=
  Iff.rfl

theorem mem_kstar_oneOf_iff : t ∈ (oneOf p)∗ ↔ ∀ c ∈ t, p c = true := by
  constructor
  · rintro ⟨parts, rfl, hparts⟩ c hc
    obtain ⟨part, hpart, hmem⟩ := List.mem_flatten.mp hc
    obtain ⟨d, hd, rfl⟩ := hparts part hpart
    rwa [List.mem_singleton.mp hmem]
  · intro h
    have hsplit : t = (t.map fun c => [c]).flatten := by
      rw [← List.flatMap_def, List.flatMap_singleton']
    refine ⟨t.map fun c => [c], hsplit, fun part hpart => ?_⟩
    obtain ⟨c, hc, rfl⟩ := List.mem_map.mp hpart
    exact ⟨c, h c hc, rfl⟩

theorem mem_someOf_iff :
    t ∈ someOf p ↔ ∃ c rest, t = c :: rest ∧ p c = true ∧ ∀ d ∈ rest, p d = true := by
  rw [someOf, Language.mem_mul]
  constructor
  · rintro ⟨_, ⟨c, hc, rfl⟩, rest, hrest, rfl⟩
    exact ⟨c, rest, rfl, hc, mem_kstar_oneOf_iff.mp hrest⟩
  · rintro ⟨c, rest, rfl, hc, hrest⟩
    exact ⟨[c], ⟨c, hc, rfl⟩, rest, mem_kstar_oneOf_iff.mpr hrest, rfl⟩

theorem cons_mem_someOf (hc : p c = true) (h : t ∈ someOf p) : c :: t ∈ someOf p := by
  obtain ⟨d, rest, rfl, hd, hrest⟩ := mem_someOf_iff.mp h
  exact mem_someOf_iff.mpr ⟨c, d :: rest, rfl, hc, List.forall_mem_cons.mpr ⟨hd, hrest⟩⟩

theorem mem_optional_iff {l : Language Char} : t ∈ 1 + l ↔ t = [] ∨ t ∈ l := by
  rw [Language.mem_add, Language.mem_one]

theorem length_le_takeWhile (hs : ∀ c ∈ s, p c = true) (h : s <+: t) :
    s.length ≤ (t.takeWhile p).length := by
  obtain ⟨behind, rfl⟩ := h
  rw [List.takeWhile_append_of_pos hs, List.length_append]
  omega

end Text

open Text

def LexemeKind.pattern : LexemeKind → Language Char
  | .whitespace => someOf isIndentChar
  | .newline => (1 + oneOf (· == '\r')) * oneOf (· == '\n')
  | .word =>
    someOf isWordLetter * (oneOf isApostrophe * someOf isWordLetter)∗ * (1 + oneOf isWordMark)
  | .operator => someOf isOperatorChar
  | .hashes => someOf (· == '#')
  | .dots => someOf (· == '.')
  | .colons => someOf (· == ':')
  | .comma => oneOf (· == ',')
  | .backticks => someOf (· == '\x60')
  | .other => 0

/-! ## Words -/

/-- What may follow the first letter of a word. -/
inductive WordRest : Text → Prop
  | stop : WordRest []
  | mark {m : Char} (hm : isWordMark m = true) : WordRest [m]
  | letter {c : Char} {t : Text} (hc : isWordLetter c = true) (more : WordRest t) :
      WordRest (c :: t)
  | joined {a c : Char} {t : Text} (ha : isApostrophe a = true) (hc : isWordLetter c = true)
      (more : WordRest t) : WordRest (a :: c :: t)

theorem WordRest.append {s t : Text} (hs : ∀ c ∈ s, isWordLetter c = true) (h : WordRest t) :
    WordRest (s ++ t) := by
  induction s with
  | nil => exact h
  | cons c s ih =>
      obtain ⟨hc, hs⟩ := List.forall_mem_cons.mp hs
      exact .letter hc (ih hs)

theorem wordRest_of_mem {parts : List Text} {mark : Text}
    (hparts : ∀ part ∈ parts, part ∈ oneOf isApostrophe * someOf isWordLetter)
    (hmark : mark ∈ 1 + oneOf isWordMark) : WordRest (parts.flatten ++ mark) := by
  induction parts with
  | nil =>
      rcases mem_optional_iff.mp hmark with rfl | ⟨m, hm, rfl⟩
      · exact .stop
      · exact .mark hm
  | cons part parts ih =>
      obtain ⟨hpart, hmore⟩ := List.forall_mem_cons.mp hparts
      obtain ⟨_, ⟨a, ha, rfl⟩, letters, hletters, rfl⟩ := Language.mem_mul.mp hpart
      obtain ⟨c, rest, rfl, hc, hrest⟩ := mem_someOf_iff.mp hletters
      have hmore := (ih hmore).append hrest
      simpa using WordRest.joined ha hc hmore

theorem cons_mem_word {c d : Char} {rest : Text} (hc : isWordLetter c = true)
    (h : d :: rest ∈ LexemeKind.word.pattern) :
    c :: d :: rest ∈ LexemeKind.word.pattern ∧
      ∀ a, isApostrophe a = true → c :: a :: d :: rest ∈ LexemeKind.word.pattern := by
  obtain ⟨_, ⟨letters, hletters, inner, hinner, rfl⟩, mark, hmark, hword⟩ := h
  rw [← hword]
  constructor
  · exact Language.append_mem_mul (Language.append_mem_mul (cons_mem_someOf hc hletters) hinner)
      hmark
  · intro a ha
    obtain ⟨parts, rfl, hparts⟩ := hinner
    have hfirst : [c] ∈ someOf isWordLetter := mem_someOf_iff.mpr ⟨c, [], rfl, hc, by simp⟩
    have hjoined : a :: letters ∈ oneOf isApostrophe * someOf isWordLetter :=
      Language.append_mem_mul (show [a] ∈ oneOf isApostrophe from ⟨a, ha, rfl⟩) hletters
    have hinner : ((a :: letters) :: parts).flatten ∈
        (oneOf isApostrophe * someOf isWordLetter)∗ :=
      Language.join_mem_kstar (List.forall_mem_cons.mpr ⟨hjoined, hparts⟩)
    have hall : ([c] ++ ((a :: letters) :: parts).flatten) ++ mark ∈ LexemeKind.word.pattern :=
      Language.append_mem_mul (Language.append_mem_mul hfirst hinner) hmark
    simpa using hall

theorem mem_word_iff {s : Text} : s ∈ LexemeKind.word.pattern ↔
    ∃ c rest, s = c :: rest ∧ isWordLetter c = true ∧ WordRest rest := by
  constructor
  · rintro ⟨_, ⟨letters, hletters, _, ⟨parts, rfl, hparts⟩, rfl⟩, mark, hmark, rfl⟩
    obtain ⟨c, rest, rfl, hc, hrest⟩ := mem_someOf_iff.mp hletters
    refine ⟨c, rest ++ (parts.flatten ++ mark), by simp, hc, ?_⟩
    exact (wordRest_of_mem hparts hmark).append hrest
  · rintro ⟨c, rest, rfl, hc, hrest⟩
    have hfirst {c : Char} (hc : isWordLetter c = true) : [c] ∈ someOf isWordLetter :=
      mem_someOf_iff.mpr ⟨c, [], rfl, hc, by simp⟩
    have hnone := Language.nil_mem_kstar (oneOf isApostrophe * someOf isWordLetter)
    induction hrest generalizing c with
    | stop =>
        exact Language.append_mem_mul (Language.append_mem_mul (hfirst hc) hnone)
          (mem_optional_iff.mpr (.inl rfl))
    | @mark m hm =>
        exact Language.append_mem_mul (Language.append_mem_mul (hfirst hc) hnone)
          (mem_optional_iff.mpr (.inr (mem_oneOf_iff.mpr ⟨m, hm, rfl⟩)))
    | letter hd _ ih => exact (cons_mem_word hc (ih _ hd)).1
    | joined ha hd _ ih => exact (cons_mem_word hc (ih _ hd)).2 _ ha

theorem isWordLetter_of_isApostrophe {c : Char} (h : isApostrophe c = true) :
    isWordLetter c = false ∧ isWordMark c = false := by
  simp only [isApostrophe, Bool.or_eq_true, beq_iff_eq] at h
  rcases h with rfl | rfl <;> decide +kernel

theorem WordRest.cases_of_not_letter {s t : Text} {c : Char} (hs : WordRest s) (h : s <+: c :: t)
    (hc : ¬isWordLetter c = true) :
    s = [] ∨ s = [c] ∧ isWordMark c = true ∨
      ∃ d more, s = c :: d :: more ∧ isApostrophe c = true ∧ isWordLetter d = true ∧
        WordRest more := by
  cases hs with
  | stop => exact .inl rfl
  | mark hm =>
      obtain ⟨rfl, -⟩ := List.cons_prefix_cons.mp h
      exact .inr (.inl ⟨rfl, hm⟩)
  | letter hletter =>
      obtain ⟨rfl, -⟩ := List.cons_prefix_cons.mp h
      exact absurd hletter hc
  | joined ha hd more =>
      obtain ⟨rfl, -⟩ := List.cons_prefix_cons.mp h
      exact .inr (.inr ⟨_, _, rfl, ha, hd, more⟩)

namespace Lexeme

theorem wordRest_wordRest (t : Text) : WordRest (wordRest t).1 := by
  fun_induction wordRest t with
  | case1 => exact .stop
  | case2 _ _ hc _ ih => exact .letter hc ih
  | case3 _ _ _ hc => exact .mark hc
  | case4 => exact .stop
  | case5 _ _ _ _ _ hcd _ ih =>
      rw [Bool.and_eq_true] at hcd
      exact .joined hcd.1 hcd.2 ih
  | case6 => exact .stop

/-- Nothing that may follow the first letter goes further than what is taken. -/
theorem length_le_wordRest {s t : Text} (hs : WordRest s) (h : s <+: t) :
    s.length ≤ (wordRest t).1.length := by
  fun_induction wordRest t generalizing s with
  | case1 => simp [List.prefix_nil.mp h]
  | case2 c rest hc parts =>
      rename_i ih
      cases hs with
      | stop => simp
      | mark => simp
      | letter _ more =>
          have hlength := ih more (List.cons_prefix_cons.mp h).2
          simpa [parts] using hlength
      | joined ha =>
          obtain ⟨rfl, -⟩ := List.cons_prefix_cons.mp h
          simp [(isWordLetter_of_isApostrophe ha).1] at hc
  | case3 c rest hletter hmark =>
      rcases hs.cases_of_not_letter h hletter with rfl | ⟨rfl, -⟩ | ⟨d, more, rfl, ha, -⟩
      · simp
      · simp
      · simp [(isWordLetter_of_isApostrophe ha).2] at hmark
  | case4 c hletter hmark =>
      rcases hs.cases_of_not_letter h hletter with rfl | ⟨rfl, hm⟩ | ⟨d, more, rfl, -⟩
      · simp
      · exact absurd hm hmark
      · simpa using h.length_le
  | case5 c hletter hmark d rest hcd parts =>
      rename_i ih
      rcases hs.cases_of_not_letter h hletter with rfl | ⟨rfl, -⟩ | ⟨e, more, rfl, -, -, hmore⟩
      · simp
      · simp
      · have hlength := ih hmore (List.cons_prefix_cons.mp (List.cons_prefix_cons.mp h).2).2
        simpa [parts] using hlength
  | case6 c hletter hmark d rest hcd =>
      rcases hs.cases_of_not_letter h hletter with rfl | ⟨rfl, hm⟩ | ⟨e, more, rfl, ha, he, -⟩
      · simp
      · exact absurd hm hmark
      · obtain ⟨rfl, -⟩ := List.cons_prefix_cons.mp (List.cons_prefix_cons.mp h).2
        exact absurd (Bool.and_eq_true _ _ ▸ ⟨ha, he⟩) hcd

end Lexeme

/-! ## The class of a match -/

namespace Lexeme

theorem startKind_eq_of_ne_return {c : Char} (hc : c ≠ '\r') (rest : Text) :
    startKind c rest = startKind c [] := by
  simp [startKind, hc]

theorem startKind_of_isWordLetter {c : Char} (hc : isWordLetter c = true) (rest : Text) :
    startKind c rest = .word := by
  have hne (d : Char) (hd : isWordLetter d = false) : c ≠ d := by
    rintro rfl
    simp [hd] at hc
  have hspace := hne ' ' (by decide +kernel)
  have htab := hne '\t' (by decide +kernel)
  have hfeed := hne '\n' isWordLetter_lineFeed
  have hreturn := hne '\r' (by decide +kernel)
  simp [startKind, isIndentChar, hspace, htab, hfeed, hreturn, hc]

theorem isWordLetter_of_isOperatorChar {c : Char} (hc : isOperatorChar c = true) :
    isWordLetter c = false := by
  have hall : ("+-*/%=<>&|^~\\@$;".toList.all fun d => !isWordLetter d) = true := by
    decide +kernel
  simpa using List.all_eq_true.mp hall c (List.contains_iff_mem.mp hc)

theorem startKind_of_isOperatorChar {c : Char} (hc : isOperatorChar c = true) (rest : Text) :
    startKind c rest = .operator := by
  have hne (d : Char) (hd : isOperatorChar d = false) : c ≠ d := by
    rintro rfl
    simp [hd] at hc
  have hspace := hne ' ' (by decide)
  have htab := hne '\t' (by decide)
  have hfeed := hne '\n' isOperatorChar_lineFeed
  have hreturn := hne '\r' (by decide)
  have hletter := isWordLetter_of_isOperatorChar hc
  simp [startKind, isIndentChar, hspace, htab, hfeed, hreturn, hletter, hc]

end Lexeme

namespace LexemeKind

theorem startKind_of_mem_pattern {kind : LexemeKind} {s rest : Text} {c : Char}
    (hs : s ∈ kind.pattern) (h : s <+: c :: rest) : Lexeme.startKind c rest = kind := by
  have hsome {p : Char → Bool} (hp : s ∈ someOf p) : p c = true := by
    obtain ⟨d, _, rfl, hd, -⟩ := mem_someOf_iff.mp hp
    rwa [← (List.cons_prefix_cons.mp h).1]
  have hmark {d : Char} (hd : d ≠ '\r') (hkind : Lexeme.startKind d [] = kind)
      (hp : s ∈ someOf (· == d)) : Lexeme.startKind c rest = kind := by
    obtain rfl : c = d := by simpa using hsome hp
    rw [Lexeme.startKind_eq_of_ne_return hd, hkind]
  cases kind with
  | whitespace => rw [Lexeme.startKind, if_pos (hsome hs)]
  | newline =>
      obtain ⟨before, hbefore, _, ⟨d, hd, rfl⟩, rfl⟩ := hs
      obtain rfl : d = '\n' := by simpa using hd
      rcases mem_optional_iff.mp hbefore with rfl | ⟨e, he, rfl⟩
      · obtain ⟨rfl, -⟩ := List.cons_prefix_cons.mp h
        simp [Lexeme.startKind, isIndentChar]
      · obtain rfl : e = '\r' := by simpa using he
        obtain ⟨rfl, more, rfl⟩ := List.cons_prefix_cons.mp h
        simp [Lexeme.startKind, isIndentChar]
  | word =>
      obtain ⟨d, _, rfl, hd, -⟩ := mem_word_iff.mp hs
      obtain ⟨rfl, -⟩ := List.cons_prefix_cons.mp h
      exact Lexeme.startKind_of_isWordLetter hd rest
  | operator => exact Lexeme.startKind_of_isOperatorChar (hsome hs) rest
  | hashes => exact hmark (by decide) (by decide +kernel) hs
  | dots => exact hmark (by decide) (by decide +kernel) hs
  | colons => exact hmark (by decide) (by decide +kernel) hs
  | comma =>
      obtain ⟨d, hd, rfl⟩ := hs
      have hsingle : [d] ∈ someOf (· == ',') := mem_someOf_iff.mpr ⟨d, [], rfl, hd, by simp⟩
      exact hmark (by decide) (by decide +kernel) hsingle
  | backticks => exact hmark (by decide) (by decide +kernel) hs
  | other => exact absurd hs (Language.notMem_zero _)

theorem ne_nil_of_mem_pattern {kind : LexemeKind} {s : Text} (hs : s ∈ kind.pattern) : s ≠ [] := by
  rintro rfl
  -- The empty text starts every text, so its class could not be told.
  have hword := startKind_of_mem_pattern hs (List.nil_prefix (l := ['a']))
  have hspace := startKind_of_mem_pattern hs (List.nil_prefix (l := [' ']))
  have hdiffer : Lexeme.startKind 'a' [] ≠ Lexeme.startKind ' ' [] := by decide +kernel
  exact hdiffer (hword.trans hspace.symm)

end LexemeKind

/-! ## The first lexeme -/

def LexemeKind.runOf? : LexemeKind → Option (Char → Bool)
  | .whitespace => some isIndentChar
  | .operator => some isOperatorChar
  | .hashes => some (· == '#')
  | .dots => some (· == '.')
  | .colons => some (· == ':')
  | .backticks => some (· == '\x60')
  | .newline | .word | .comma | .other => none

theorem LexemeKind.pattern_of_runOf? {kind : LexemeKind} {p : Char → Bool}
    (h : kind.runOf? = some p) : kind.pattern = someOf p := by
  cases kind <;> simp only [runOf?, Option.some.injEq, reduceCtorEq] at h <;> subst h <;> rfl

namespace Lexeme

/-- The lexeme is a match of its class, no class matches a longer prefix of the text, and no other
class matches one as long. -/
structure IsLongest (lexeme : Lexeme) (t : Text) : Prop where
  starts : lexeme.text <+: t
  matched : lexeme.text ∈ lexeme.kind.pattern
  longest : ∀ kind s, s ∈ LexemeKind.pattern kind → s <+: t → s.length ≤ lexeme.text.length
  unrivalled : ∀ kind, lexeme.text ∈ LexemeKind.pattern kind → kind = lexeme.kind

/-- A prefix of the text that is not empty matches some pattern. -/
def HasMatch (t : Text) : Prop :=
  ∃ kind s, s ∈ LexemeKind.pattern kind ∧ s ≠ [] ∧ s <+: t

theorem ofRun_mem_someOf (kind : LexemeKind) {p : Char → Bool} {c : Char} (hc : p c = true)
    (rest : Text) : (ofRun kind p c rest).1.text ∈ someOf p :=
  mem_someOf_iff.mpr ⟨c, _, rfl, hc, fun _ hd => List.mem_takeWhile_imp hd⟩

theorem first_of_runOf? {p : Char → Bool} {c : Char} {rest : Text}
    (h : (startKind c rest).runOf? = some p) :
    first c rest = ofRun (startKind c rest) p c rest ∧ p c = true := by
  have hstarts := starts_startKind c rest
  unfold first
  generalize startKind c rest = kind at h hstarts ⊢
  cases kind <;> simp only [LexemeKind.runOf?, Option.some.injEq, reduceCtorEq] at h <;> subst h
  all_goals exact ⟨rfl, by simpa [LexemeKind.Starts] using hstarts⟩

theorem first_mem_pattern {c : Char} {rest : Text} (h : startKind c rest ≠ .other) :
    (first c rest).1.text ∈ (startKind c rest).pattern := by
  cases hrun : (startKind c rest).runOf? with
  | some p =>
      obtain ⟨hfirst, hc⟩ := first_of_runOf? hrun
      rw [LexemeKind.pattern_of_runOf? hrun, hfirst]
      exact ofRun_mem_someOf _ hc rest
  | none =>
      cases hkind : startKind c rest with
      | newline =>
          have hfeed : ['\n'] ∈ oneOf (· == '\n') := ⟨'\n', rfl, rfl⟩
          rcases text_first_of_newline hkind with htext | htext <;> rw [htext]
          · exact Language.append_mem_mul (mem_optional_iff.mpr (.inl rfl)) hfeed
          · have hreturn : ['\r'] ∈ oneOf (· == '\r') := ⟨'\r', rfl, rfl⟩
            exact Language.append_mem_mul (mem_optional_iff.mpr (.inr hreturn)) hfeed
      | word =>
          have hword := wordRest_wordRest rest
          simp only [first, hkind]
          exact mem_word_iff.mpr ⟨c, _, rfl, isWordLetter_of_startKind hkind, hword⟩
      | comma =>
          obtain rfl : c = ',' := starts_of_startKind hkind
          simp only [first, hkind]
          exact ⟨',', rfl, rfl⟩
      | other => exact absurd hkind h
      | _ => simp [hkind, LexemeKind.runOf?] at hrun

theorem length_le_first {c : Char} {rest s : Text} (hs : s ∈ (startKind c rest).pattern)
    (h : s <+: c :: rest) : s.length ≤ (first c rest).1.text.length := by
  obtain ⟨taken, htext, -⟩ := text_first_eq_cons c rest
  cases hrun : (startKind c rest).runOf? with
  | some p =>
      obtain ⟨hfirst, hc⟩ := first_of_runOf? hrun
      rw [LexemeKind.pattern_of_runOf? hrun] at hs
      obtain ⟨d, more, rfl, hd, hmore⟩ := mem_someOf_iff.mp hs
      rw [hfirst]
      simpa [ofRun] using length_le_takeWhile hmore (List.cons_prefix_cons.mp h).2
  | none =>
      cases hkind : startKind c rest with
      | newline =>
          rw [hkind] at hs
          obtain ⟨before, hbefore, _, ⟨d, -, rfl⟩, rfl⟩ := hs
          rcases mem_optional_iff.mp hbefore with rfl | ⟨e, he, rfl⟩
          · simp [htext]
          · -- A match with a carriage return starts with it, and so does the lexeme.
            obtain rfl : e = '\r' := by simpa using he
            obtain ⟨rfl, -⟩ := List.cons_prefix_cons.mp h
            rcases text_first_of_newline hkind with hbreak | hbreak
            · simp [hbreak] at htext
            · simp [hbreak]
      | word =>
          rw [hkind] at hs
          obtain ⟨d, more, rfl, hd, hmore⟩ := mem_word_iff.mp hs
          simp only [first, hkind, List.length_cons]
          have hlength := length_le_wordRest hmore (List.cons_prefix_cons.mp h).2
          omega
      | comma =>
          rw [hkind] at hs
          obtain ⟨d, -, rfl⟩ := hs
          simp [htext]
      | other =>
          rw [hkind] at hs
          exact absurd hs (Language.notMem_zero _)
      | _ => simp [hkind, LexemeKind.runOf?] at hrun

theorem isLongest_first {c : Char} {rest : Text} (h : startKind c rest ≠ .other) :
    (first c rest).1.IsLongest (c :: rest) := by
  have hinit : (first c rest).1.text <+: c :: rest := ⟨_, first_append c rest⟩
  refine ⟨hinit, ?_, fun kind s hs hstarts => ?_, fun kind hmatch => ?_⟩
  · rw [kind_first]
    exact first_mem_pattern h
  · obtain rfl := LexemeKind.startKind_of_mem_pattern hs hstarts
    exact length_le_first hs hstarts
  · rw [kind_first]
    exact (LexemeKind.startKind_of_mem_pattern hmatch hinit).symm

theorem startKind_eq_other_iff (c : Char) (rest : Text) :
    startKind c rest = .other ↔ ¬HasMatch (c :: rest) := by
  constructor
  · rintro hother ⟨kind, s, hs, -, hinit⟩
    obtain rfl := LexemeKind.startKind_of_mem_pattern hs hinit
    rw [hother] at hs
    exact absurd hs (Language.notMem_zero _)
  · intro hnone
    by_contra hother
    have hlongest := isLongest_first hother
    exact hnone ⟨_, _, hlongest.matched, LexemeKind.ne_nil_of_mem_pattern hlongest.matched,
      hlongest.starts⟩

/-! ## Lexeme after lexeme -/

theorem all_cons (c : Char) (rest : Text) :
    all (c :: rest) = (first c rest).1 :: all (first c rest).2 := by
  rw [all]

theorem exists_first_of_all {t : Text} {before behind : List Lexeme} {lexeme : Lexeme}
    (h : all t = before ++ lexeme :: behind) :
    ∃ c rest, t = before.flatMap text ++ c :: rest ∧ lexeme = (first c rest).1 ∧
      behind = all (first c rest).2 := by
  induction before generalizing t with
  | nil =>
      cases t with
      | nil => simp [all] at h
      | cons c rest =>
          rw [all_cons] at h
          obtain ⟨rfl, rfl⟩ := List.cons.inj h
          exact ⟨c, rest, rfl, rfl, rfl⟩
  | cons first' before ih =>
      cases t with
      | nil => simp [all] at h
      | cons d more =>
          rw [all_cons] at h
          obtain ⟨rfl, hmore⟩ := List.cons.inj h
          obtain ⟨c, rest, hsplit, hlexeme⟩ := ih hmore
          refine ⟨c, rest, ?_, hlexeme⟩
          rw [List.flatMap_cons, List.append_assoc, ← hsplit, first_append]

theorem flatMap_text_all (t : Text) : (all t).flatMap text = t := by
  fun_induction all t with
  | case1 => rfl
  | case2 c rest ih => rw [List.flatMap_cons, ih, first_append]

theorem spans_append (start : Nat) (before behind : List Lexeme) :
    spans start (before ++ behind) =
      spans start before ++ spans (start + Text.byteSize (before.flatMap text)) behind := by
  induction before generalizing start with
  | nil => rfl
  | cons lexeme before ih => simp [spans, ih, Nat.add_assoc]

/-- The lexer is longest match.  The first lexeme of a text stands at its start.  As soon as some
pattern matches there, the lexeme is the longest match, rivalled by no other class; it is of no
class exactly if none matches, and then it is the first character.  Lexeme after lexeme, a text is
divided without loss: each of them is the first one of the text that is left, is not empty, and its
range starts where the ranges before it stop and is as long as its text. -/
theorem lexemes_longest_match :
    (∀ c rest, (first c rest).1.text ++ (first c rest).2 = c :: rest ∧
      (HasMatch (c :: rest) → (first c rest).1.IsLongest (c :: rest)) ∧
      ((first c rest).1.kind = .other ↔ ¬HasMatch (c :: rest)) ∧
      ((first c rest).1.kind = .other → (first c rest).1.text = [c])) ∧
    ∀ t, (all t).flatMap text = t ∧
      ∀ before lexeme behind, all t = before ++ lexeme :: behind →
        lexeme.text ≠ [] ∧
        (∃ c rest, t = before.flatMap text ++ c :: rest ∧ lexeme = (first c rest).1 ∧
          behind = all (first c rest).2) ∧
        spans 0 (all t) = spans 0 before ++
          (lexeme.kind, Text.byteSize (before.flatMap text),
            Text.byteSize (before.flatMap text) + lexeme.text.byteSize) ::
          spans (Text.byteSize (before.flatMap text) + lexeme.text.byteSize) behind := by
  constructor
  · intro c rest
    have hiff := startKind_eq_other_iff c rest
    refine ⟨first_append c rest, fun hmatch => ?_, ?_, fun hother => ?_⟩
    · apply isLongest_first
      intro hother
      exact hiff.mp hother hmatch
    · rwa [kind_first]
    · rw [kind_first] at hother
      simp only [first, hother]
  · intro t
    refine ⟨flatMap_text_all t, fun before lexeme behind h => ?_⟩
    obtain ⟨c, rest, hsplit, hlexeme, hbehind⟩ := exists_first_of_all h
    refine ⟨?_, ⟨c, rest, hsplit, hlexeme, hbehind⟩, ?_⟩
    · obtain ⟨taken, htext, -⟩ := text_first_eq_cons c rest
      rw [hlexeme, htext]
      exact List.cons_ne_nil c taken
    · rw [h, spans_append, Nat.zero_add]
      rfl

example : (all "dogs\x27 don\x27t\r".toList).map text =
    ["dogs".toList, ['\x27'], [' '], "don\x27t".toList, ['\r']] := by
  decide +kernel

end Lexeme

end MarkupLayout

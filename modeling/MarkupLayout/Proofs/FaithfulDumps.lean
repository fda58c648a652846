import Mathlib.Data.List.Nodup
import MarkupLayout.Command
import MarkupLayout.Proofs.TokenCoverage
/-!
# Written tokens can be told apart

Both formats separate the fields of a token, and the tokens, by characters that the texts of tokens
hold as well.  A dump still determines its tokens: what is written for a number, a kind or a quoted
text is never the beginning of what is written for another one.  And since no text is lost in
tokens, a dump determines the text that was cut into them.
-/

namespace MarkupLayout

/-- No value is written as the beginning of another one. -/
def PrefixCode {α : Type} (write : α → Text) : Prop :=
  ∀ a b, write a <+: write b → a = b

namespace PrefixCode

variable {α : Type} {write : α → Text}

theorem append_inj (h : PrefixCode write) {a b : α} {u v : Text}
    (heq : write a ++ u = write b ++ v) : a = b ∧ u = v := by
  have hprefix : write a <+: write b ++ v := ⟨u, heq⟩
  obtain rfl : a = b := by
    rcases List.prefix_or_prefix_of_prefix hprefix (List.prefix_append _ _) with hab | hba
    · exact h a b hab
    · exact (h b a hba).symm
  exact ⟨rfl, List.append_cancel_left heq⟩

theorem of_append_inj (h : ∀ a b u v, write a ++ u = write b ++ v → a = b) :
    PrefixCode write := by
  rintro a b ⟨u, hu⟩
  exact h a b u [] (by rw [hu, List.append_nil])

theorem of_read (read : Text → Option (α × Text))
    (h : ∀ a u, read (write a ++ u) = some (a, u)) : PrefixCode write := by
  refine of_append_inj fun a b u v heq => ?_
  have hread := h a u
  rw [heq, h b v] at hread
  exact (Prod.mk.inj (Option.some.inj hread)).1.symm

theorem of_stop (hinj : Function.Injective write) {stop : Char} (hstop : ∀ a, stop ∉ write a) :
    PrefixCode fun a => write a ++ [stop] := by
  have hread (a : α) (u : Text) : (write a ++ [stop] ++ u).takeWhile (· != stop) = write a := by
    rw [List.append_assoc, Text.takeWhile_append_of_notMem (hstop a)]
    simp
  refine of_append_inj fun a b u v heq => hinj ?_
  rw [← hread a u, heq, hread b v]

theorem around (h : PrefixCode write) (left right : Text) :
    PrefixCode fun a => left ++ (write a ++ right) := by
  refine of_append_inj fun a b u v heq => ?_
  simp only [List.append_assoc, List.append_cancel_left_eq] at heq
  exact (h.append_inj heq).1

/-- A row of values can be told from what follows it, if that does not start like a value. -/
theorem flatMap_append_inj (h : PrefixCode write) {l m : List α} {u v : Text}
    (hu : ∀ a, ¬write a <+: u) (hv : ∀ a, ¬write a <+: v)
    (heq : l.flatMap write ++ u = m.flatMap write ++ v) : l = m ∧ u = v := by
  induction l generalizing m with
  | nil =>
      cases m with
      | nil => exact ⟨rfl, heq⟩
      | cons b m =>
          rw [List.flatMap_nil, List.nil_append, List.flatMap_cons, List.append_assoc] at heq
          exact absurd ⟨_, heq.symm⟩ (hu b)
  | cons a l ih =>
      cases m with
      | nil =>
          rw [List.flatMap_nil, List.nil_append, List.flatMap_cons, List.append_assoc] at heq
          exact absurd ⟨_, heq⟩ (hv a)
      | cons b m =>
          rw [List.flatMap_cons, List.flatMap_cons, List.append_assoc, List.append_assoc] at heq
          obtain ⟨rfl, hrest⟩ := h.append_inj heq
          obtain ⟨rfl, hend⟩ := ih hrest
          exact ⟨rfl, hend⟩

end PrefixCode

/-! ## Numbers and quoted texts -/

namespace Text

theorem ofNat_injective : Function.Injective ofNat :=
  Function.LeftInverse.injective numberIn_ofNat

theorem prefixCode_ofNat {stop : Char} (hstop : stop.isDigit = false) :
    PrefixCode fun n => ofNat n ++ [stop] := by
  refine .of_stop ofNat_injective fun n hmem => ?_
  have hdigit := Nat.isDigit_of_mem_toDigits (by decide) (by decide) hmem
  simp [hstop] at hdigit

theorem closingBrace_notMem_ofNatHex (n : Nat) : '\x7d' ∉ ofNatHex n := by
  induction n using Nat.strongRecOn with
  | ind n ih =>
      rw [ofNatHex, Nat.toDigits_eq_if (by decide)]
      split
      · simp
      · have hrest : '\x7d' ∉ Nat.toDigits 16 (n / 16) := ih (n / 16) (by omega)
        simpa using hrest

def plainUnescape? : Text → Option (Char × Text)
  | [] => none
  | '\\' :: 'u' :: '\x7b' :: t =>
    some (Char.ofNat (numberIn 16 (t.takeWhile (· != '\x7d'))), (t.dropWhile (· != '\x7d')).drop 1)
  | '\\' :: 'n' :: t => some ('\n', t)
  | '\\' :: 't' :: t => some ('\t', t)
  | '\\' :: 'r' :: t => some ('\r', t)
  | '\\' :: '0' :: t => some ('\x00', t)
  | '\\' :: c :: t => some (c, t)
  | c :: t => some (c, t)

theorem plainUnescape?_of_ne {c : Char} (h : c ≠ '\\') (t : Text) :
    plainUnescape? (c :: t) = some (c, t) := by
  unfold plainUnescape?
  split <;> simp_all

theorem plainUnescape?_plainEscape (c : Char) (t : Text) :
    plainUnescape? (plainEscape c ++ t) = some (c, t) := by
  rcases eq_or_ne c '\x22' with rfl | hquote
  · rfl
  rcases eq_or_ne c '\\' with rfl | hslash
  · rfl
  rcases eq_or_ne c '\n' with rfl | hfeed
  · rfl
  rcases eq_or_ne c '\t' with rfl | htab
  · rfl
  rcases eq_or_ne c '\r' with rfl | hreturn
  · rfl
  rcases eq_or_ne c '\x00' with rfl | hnul
  · rfl
  rw [plainEscape, if_neg hquote, if_neg hslash, if_neg hfeed, if_neg htab, if_neg hreturn,
    if_neg hnul]
  split
  · have hall := bne_of_notMem (closingBrace_notMem_ofNatHex c.toNat)
    simp only [List.cons_append, List.nil_append, List.append_assoc, plainUnescape?]
    rw [List.takeWhile_append_of_pos hall, List.dropWhile_append_of_pos hall]
    simp [numberIn_ofNatHex]
  · exact plainUnescape?_of_ne hslash t

def jsonUnescape? : Text → Option (Char × Text)
  | [] => none
  | '\\' :: 'u' :: a :: b :: c :: d :: t => some (Char.ofNat (numberIn 16 [a, b, c, d]), t)
  | '\\' :: 'n' :: t => some ('\n', t)
  | '\\' :: 't' :: t => some ('\t', t)
  | '\\' :: 'r' :: t => some ('\r', t)
  | '\\' :: 'b' :: t => some ('\x08', t)
  | '\\' :: 'f' :: t => some ('\x0c', t)
  | '\\' :: c :: t => some (c, t)
  | c :: t => some (c, t)

theorem exists_ofNatHex_of_lt {n : Nat} (h : n < 0x20) :
    ∃ a b, numberIn 16 ['0', '0', a, b] = n ∧
      (n < 0x10 → ofNatHex n = [b] ∧ a = '0') ∧ (¬n < 0x10 → ofNatHex n = [a, b]) := by
  refine ⟨(n / 16).digitChar, (n % 16).digitChar, ?_, fun hlow => ?_, fun hhigh => ?_⟩
  · have hhigh := digitValue?_digitChar (show n / 16 < 16 by omega)
    have hlow := digitValue?_digitChar (show n % 16 < 16 by omega)
    have hzero : digitValue? '0' = some 0 := by decide
    simp only [numberIn, List.foldl_cons, List.foldl_nil, hhigh, hlow, hzero, Option.getD_some]
    omega
  · have hquotient : n / 16 = 0 := by omega
    rw [ofNatHex, Nat.toDigits_of_lt_base hlow, Nat.mod_eq_of_lt hlow, hquotient]
    exact ⟨rfl, rfl⟩
  · rw [ofNatHex, Nat.toDigits_of_base_le (by decide) (by omega),
      Nat.toDigits_of_lt_base (show n / 16 < 16 by omega)]
    rfl

theorem jsonUnescape?_digits (a b c d : Char) (t : Text) :
    jsonUnescape? ('\\' :: 'u' :: a :: b :: c :: d :: t) =
      some (Char.ofNat (numberIn 16 [a, b, c, d]), t) :=
  rfl

theorem jsonUnescape?_of_ne {c : Char} (h : c ≠ '\\') (t : Text) :
    jsonUnescape? (c :: t) = some (c, t) := by
  unfold jsonUnescape?
  split <;> simp_all

theorem jsonUnescape?_jsonEscape (c : Char) (t : Text) :
    jsonUnescape? (jsonEscape c ++ t) = some (c, t) := by
  rcases eq_or_ne c '\x22' with rfl | hquote
  · rfl
  rcases eq_or_ne c '\\' with rfl | hslash
  · rfl
  rcases eq_or_ne c '\n' with rfl | hfeed
  · rfl
  rcases eq_or_ne c '\t' with rfl | htab
  · rfl
  rcases eq_or_ne c '\r' with rfl | hreturn
  · rfl
  rcases eq_or_ne c '\x08' with rfl | hback
  · rfl
  rcases eq_or_ne c '\x0c' with rfl | hpage
  · rfl
  rw [jsonEscape, if_neg hquote, if_neg hslash, if_neg hfeed, if_neg htab, if_neg hreturn,
    if_neg hback, if_neg hpage]
  by_cases hlow : c.toNat < 0x10
  · obtain ⟨a, b, hvalue, hone, -⟩ := exists_ofNatHex_of_lt (show c.toNat < 0x20 by omega)
    obtain ⟨htext, rfl⟩ := hone hlow
    have hread := jsonUnescape?_digits '0' '0' '0' b t
    rw [hvalue, Char.ofNat_toNat] at hread
    rw [if_pos hlow, htext]
    exact hread
  by_cases hhigh : c.toNat < 0x20
  · obtain ⟨a, b, hvalue, -, htwo⟩ := exists_ofNatHex_of_lt hhigh
    have hread := jsonUnescape?_digits '0' '0' a b t
    rw [hvalue, Char.ofNat_toNat] at hread
    rw [if_neg hlow, if_pos hhigh, htwo hlow]
    exact hread
  · rw [if_neg hlow, if_neg hhigh]
    exact jsonUnescape?_of_ne hslash t

/-- Between quotes, characters that can be read make a prefix code, if a quote that is not escaped
stands for itself. -/
theorem prefixCode_quotedWith {escape : Char → Text} {read : Text → Option (Char × Text)}
    (hread : ∀ c t, read (escape c ++ t) = some (c, t))
    (hplain : ∀ t, read ('\x22' :: t) = some ('\x22', t))
    (hescape : escape '\x22' = ['\\', '\x22']) : PrefixCode (quotedWith escape) := by
  refine .of_append_inj fun s t u v heq => ?_
  have hstop (rest : Text) (c : Char) : ¬escape c <+: '\x22' :: rest := by
    rintro ⟨more, hmore⟩
    have hc := hread c more
    rw [hmore, hplain, Option.some.injEq, Prod.mk.injEq] at hc
    obtain ⟨rfl, -⟩ := hc
    rw [hescape] at hmore
    exact absurd (List.cons.inj hmore).1 (by decide)
  have hrow : s.flatMap escape ++ '\x22' :: u = t.flatMap escape ++ '\x22' :: v := by
    simpa [quotedWith] using heq
  exact ((PrefixCode.of_read read hread).flatMap_append_inj (hstop u) (hstop v) hrow).1

theorem prefixCode_quotedPlain : PrefixCode quotedPlain :=
  prefixCode_quotedWith plainUnescape?_plainEscape (plainUnescape?_of_ne (by decide)) rfl

theorem prefixCode_quotedJson : PrefixCode quotedJson :=
  prefixCode_quotedWith jsonUnescape?_jsonEscape (jsonUnescape?_of_ne (by decide)) rfl

end Text

/-! ## Tokens -/

namespace TokenKind

def all : List TokenKind :=
  [.keyword .blockSigil, .keyword .closer, .keyword .connective, .keyword .other, .operator,
    .openBracket .paren, .openBracket .bracket, .openBracket .brace, .openBracket .lambdaBegin,
    .openBracket .interpolationBegin, .closeBracket .paren, .closeBracket .bracket,
    .closeBracket .brace, .closeBracket .interpolationEnd, .comma, .period, .label,
    .literalBegin .quote, .literalBegin .fence, .literalBegin .codeSpan, .literalEnd .quote,
    .literalEnd .fence, .literalEnd .codeSpan, .literalContent, .newline, .ignoredNewline, .space,
    .symbolBegin, .text]

theorem mem_all (kind : TokenKind) : kind ∈ all := by
  rcases kind with (role | _ | opened | closed | _ | _ | _ | begun | ended | _ | _ | _ | _ | _ | _)
  case keyword => cases role <;> decide
  case openBracket => cases opened <;> decide
  case closeBracket => cases closed <;> decide
  case literalBegin => cases begun <;> decide
  case literalEnd => cases ended <;> decide
  all_goals decide

theorem name_injective : Function.Injective name := by
  have hnodup : (all.map name).Nodup := by decide +kernel
  intro kind kind' h
  exact List.inj_on_of_nodup_map hnodup (mem_all kind) (mem_all kind') h

theorem space_notMem_name (kind : TokenKind) : ' ' ∉ kind.name.toList := by
  have hall : ∀ kind ∈ all, ' ' ∉ kind.name.toList := by decide +kernel
  exact hall kind (mem_all kind)

theorem names_injective : Function.Injective names := by
  intro kind kind' h
  apply name_injective
  rw [name, name, h]

end TokenKind

namespace Token

theorem prefixCode_kindJson : PrefixCode kindJson := by
  refine .of_append_inj fun kind kind' u v heq => TokenKind.names_injective ?_
  have hquoted (name : String) (t : Text) :
      (Text.quotedJson name.toList ++ t).head? = some '\x22' := rfl
  -- An object starts with a brace, a name alone with a quote.
  have hobject : "\x7b\n      ".toList = '\x7b' :: "\n      ".toList := by decide +kernel
  rcases hnames : kind.names with ⟨name, _ | variant⟩ <;>
    rcases hnames' : kind'.names with ⟨name', _ | variant'⟩ <;>
    simp only [kindJson, hnames, hnames'] at heq
  · obtain ⟨hname, -⟩ := Text.prefixCode_quotedJson.append_inj heq
    rw [String.toList_inj.mp hname]
  · have hhead := congrArg List.head? heq
    simp [hquoted, hobject] at hhead
  · have hhead := congrArg List.head? heq
    simp [hquoted, hobject] at hhead
  · simp only [List.append_assoc, List.append_cancel_left_eq] at heq
    obtain ⟨hname, heq⟩ := Text.prefixCode_quotedJson.append_inj heq
    rw [List.append_cancel_left_eq] at heq
    obtain ⟨hvariant, -⟩ := Text.prefixCode_quotedJson.append_inj heq
    rw [String.toList_inj.mp hname, String.toList_inj.mp hvariant]

theorem prefixCode_fields {line column : Nat → Text} {kind : TokenKind → Text} {text : Text → Text}
    (hline : PrefixCode line) (hcolumn : PrefixCode column) (hkind : PrefixCode kind)
    (htext : PrefixCode text) :
    PrefixCode fun t : Token =>
      line t.line ++ (column t.column ++ (kind t.kind ++ text t.text)) := by
  refine .of_append_inj fun s t u v heq => ?_
  simp only [List.append_assoc] at heq
  obtain ⟨hlines, heq⟩ := hline.append_inj heq
  obtain ⟨hcolumns, heq⟩ := hcolumn.append_inj heq
  obtain ⟨hkinds, heq⟩ := hkind.append_inj heq
  obtain ⟨htexts, -⟩ := htext.append_inj heq
  cases s
  cases t
  simp_all

theorem prefixCode_describe : PrefixCode fun t : Token => t.describe ++ ['\n'] := by
  have hline : PrefixCode fun n => Text.ofNat n ++ [':'] := Text.prefixCode_ofNat (by decide)
  have hcolumn : PrefixCode fun n => Text.ofNat n ++ [' '] := Text.prefixCode_ofNat (by decide)
  have hname : Function.Injective fun kind : TokenKind => kind.name.toList :=
    fun _ _ h => TokenKind.name_injective (String.toList_inj.mp h)
  have hkind := PrefixCode.of_stop hname TokenKind.space_notMem_name
  have hfields := prefixCode_fields hline hcolumn hkind
    (Text.prefixCode_quotedPlain.around [] ['\n'])
  simpa [describe] using hfields

theorem prefixCode_json : PrefixCode json := by
  have hnumber : PrefixCode fun n => Text.ofNat n ++ [','] := Text.prefixCode_ofNat (by decide)
  have hline := hnumber.around "  \x7b\n    \x22line\x22: ".toList []
  have hcolumn := hnumber.around "\n    \x22column\x22: ".toList []
  have hkind := prefixCode_kindJson.around "\n    \x22kind\x22: ".toList []
  have htext := Text.prefixCode_quotedJson.around ",\n    \x22text\x22: ".toList "\n  \x7d".toList
  have hfields := prefixCode_fields hline hcolumn hkind htext
  have hcomma : ",\n    \x22column\x22: ".toList = ',' :: "\n    \x22column\x22: ".toList := by
    decide +kernel
  have hcomma' : ",\n    \x22kind\x22: ".toList = ',' :: "\n    \x22kind\x22: ".toList := by
    decide +kernel
  refine .of_append_inj fun s t u v heq => (hfields.append_inj (u := u) (v := v) ?_).1
  unfold json at heq
  rw [hcomma, hcomma'] at heq
  simp only [List.append_assoc, List.cons_append, List.nil_append] at heq ⊢
  exact heq

/-! ## Dumps -/

theorem dumpSimple_injective : Function.Injective dumpSimple := by
  intro tokens tokens' h
  have hnone (t : Token) : ¬t.describe ++ ['\n'] <+: [] := by simp
  unfold dumpSimple at h
  have hrow := prefixCode_describe.flatMap_append_inj (l := tokens) (m := tokens')
    (u := []) (v := []) hnone hnone (by rw [List.append_nil, List.append_nil, h])
  exact hrow.1

theorem intercalate_cons_map {α : Type} (separator : Text) (write : α → Text) (a : α)
    (more : List α) : separator.intercalate ((a :: more).map write) =
      write a ++ more.flatMap fun b => separator ++ write b := by
  induction more generalizing a with
  | nil => simp
  | cons b more ih =>
      rw [List.map_cons, List.intercalate_cons_of_ne_nil (by simp), ih, List.flatMap_cons]
      simp only [List.append_assoc]

theorem dumpJson_cons (t : Token) (more : List Token) :
    dumpJson (t :: more) = "[\n".toList ++ (t.json ++
      (more.flatMap (fun t => ",\n".toList ++ t.json) ++ "\n]\n".toList)) := by
  change "[\n".toList ++ ",\n".toList.intercalate ((t :: more).map json) ++ "\n]\n".toList = _
  rw [intercalate_cons_map]
  simp only [List.append_assoc]

theorem dumpJson_injective : Function.Injective dumpJson := by
  have hopen : "[\n".toList = ['[', '\n'] := by decide +kernel
  have hclose : "\n]\n".toList = ['\n', ']', '\n'] := by decide +kernel
  have hcomma : ",\n".toList = [',', '\n'] := by decide +kernel
  have hempty : dumpJson [] = ['[', ']', '\n'] := by decide +kernel
  have hitem : PrefixCode fun t : Token => ",\n".toList ++ t.json := by
    simpa only [List.append_nil] using prefixCode_json.around ",\n".toList []
  have hend (t : Token) : ¬",\n".toList ++ t.json <+: "\n]\n".toList := by
    rw [hcomma, hclose]
    simp
  intro tokens tokens' h
  cases tokens with
  | nil =>
      cases tokens' with
      | nil => rfl
      | cons t more => simp [hempty, dumpJson_cons, hopen] at h
  | cons s more =>
      cases tokens' with
      | nil => simp [hempty, dumpJson_cons, hopen] at h
      | cons t more' =>
          rw [dumpJson_cons, dumpJson_cons, List.append_cancel_left_eq] at h
          obtain ⟨rfl, hrows⟩ := prefixCode_json.append_inj h
          obtain ⟨rfl, -⟩ := hitem.flatMap_append_inj hend hend hrows
          rfl

end Token

theorem tokenize_injective (g : Grammar) (firstLine : Nat) :
    Function.Injective fun t => tokenize g t firstLine := by
  intro s t h
  rw [← flatMap_text_tokenize g s firstLine, ← flatMap_text_tokenize g t firstLine]
  exact congrArg _ h

theorem DumpFormat.dump_injective (format : DumpFormat) : Function.Injective format.dump := by
  cases format with
  | json => exact Token.dumpJson_injective
  | simple => exact Token.dumpSimple_injective

/-- Dumps are faithful.  In each of the formats every text has a dump, and two texts with the same
dump are equal.  Any token lists, also such as no text has, are told apart by what is written for
them. -/
theorem Command.tokens_faithful (g : Grammar) :
    (∀ format ∈ ["simple", "json"], ∀ s t,
      (∃ out, Command.tokens g s format = .ok out) ∧
      (Command.tokens g s format = Command.tokens g t format → s = t)) ∧
    Function.Injective Token.dumpSimple ∧ Function.Injective Token.dumpJson := by
  refine ⟨fun format hformat s t => ?_, Token.dumpSimple_injective, Token.dumpJson_injective⟩
  obtain ⟨known, hknown⟩ : ∃ known, DumpFormat.ofName? format = some known := by
    simp only [List.mem_cons, List.not_mem_nil, or_false] at hformat
    rcases hformat with rfl | rfl
    · exact ⟨.simple, by decide +kernel⟩
    · exact ⟨.json, by decide +kernel⟩
  simp only [Command.tokens, hknown, Except.ok.injEq, exists_eq', true_and]
  exact fun h => tokenize_injective g 1 (known.dump_injective h)

end MarkupLayout

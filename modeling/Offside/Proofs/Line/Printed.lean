import Offside.Line.Kind
import Offside.Proofs.Tag.Written

/-!
# Lines as they are printed

Every kind of line but the tag line has a printed form (`LineKind.print`), and a printed line is
read back as the kind it was printed from, with the same texts in it (`LineKind.ofContent_print`). A
line is read by the first rule that accepts it, so there are two things to show. The rules before
the right one refuse the line: a rule accepts only lines that start with one of a few characters
(`LineKind.openings`), which leaves three pairs of rules to tell apart by more than that. And the
right rule cuts the line where its parts were put together.
-/

set_option autoImplicit false

namespace Offside

open List Text

/-- The word that opens the branch. -/
def Condition.word : Condition → String
  | .ifThen => "if"
  | .ifNot => "unless"
  | .elseIf => "else if"
  | .otherwise => "else"

namespace LineKind

/-! ## Printed lines -/

/-- A text behind a keyword, with a space in between. -/
def spaced (words : String) : String :=
  " " ++ words

/-- A condition behind its keyword; the keyword can stand alone. -/
def printExpr (expr : String) : String :=
  if expr = "" then "" else spaced expr

/-- Arguments in parentheses, if there are any. -/
def printArgs : Option String → String
  | none => ""
  | some args => "(" ++ args ++ ")"

/-- A line of the kind. -/
@[simp] def print : LineKind → String
  | .comment words true => "//" ++ words
  | .comment words false => "//-" ++ words
  | .text words => "|" ++ spaced words
  | .literal markup => markup
  | .code expr true true => "=" ++ spaced expr
  | .code expr true false => "!=" ++ spaced expr
  | .code expr false _ => "-" ++ spaced expr
  | .condition word expr => word.word ++ printExpr expr
  | .each header => "each" ++ spaced header
  | .caseOf expr => "case" ++ spaced expr
  | .when expr => "when" ++ spaced expr
  | .whenDefault => "default"
  | .block name args => "block" ++ (name.elim "" spaced ++ printArgs args)
  | .subBlock name args => "@" ++ (name ++ printArgs args)
  | .yield name args => "yield" ++ (name.elim "" spaced ++ printArgs args)
  | .mixin name args true => "+" ++ (name ++ printArgs args)
  | .mixin name args false => "mixin" ++ (spaced name ++ printArgs args)
  | .doctype words => "doctype" ++ words.elim "" spaced
  | .filter name rest => ":" ++ (name ++ rest)
  | .tag => ""

/-- The texts that the line is printed with. -/
@[simp] def texts : LineKind → List String
  | .comment words _ | .text words | .literal words | .code words _ _ | .condition _ words
  | .each words | .caseOf words | .when words => [words]
  | .block name args | .yield name args => name.toList ++ args.toList
  | .subBlock name args | .mixin name args _ => name :: args.toList
  | .doctype words => words.toList
  | .filter name rest => [name, rest]
  | .whenDefault | .tag => []

/-- There is no white space around the text. -/
def IsTrimmed (text : String) : Prop :=
  trim text.toList = text.toList

/-- The text starts with the word, and white space follows. -/
def LeadsWith (word text : String) : Prop :=
  ∃ rest, text.toList = word.toList ++ rest ∧ startsWithSpace rest = true

/-- The text is a name made of the characters `p`. -/
def IsName (p : Char → Bool) (text : String) : Prop :=
  text ≠ "" ∧ ∀ c ∈ text.toList, p c = true

/-- The texts can be told apart from the rest of the line, and the line from lines of another
kind. -/
def Fits : LineKind → Prop
  | .comment words buffer => buffer = true → words.toList.head? ≠ some '-'
  | .text _ | .whenDefault => True
  | .literal markup => markup.toList.head? = some '<'
  | .code expr true _ => IsTrimmed expr
  | .code expr false escape =>
    IsTrimmed expr ∧ escape = false ∧ ∀ word ∈ ["each", "for", "repeat"], ¬LeadsWith word expr
  | .condition word expr =>
    IsTrimmed expr ∧ (word = .otherwise → expr ≠ "if" ∧ ¬LeadsWith "if" expr)
  | .each words | .caseOf words | .when words => IsTrimmed words ∧ words ≠ ""
  | .block name args => (∀ n ∈ name, IsName isBlockName n) ∧ (name = none → args = none)
  | .subBlock name _ => IsName (fun c => isNameChar c || c == '$') name
  | .yield name _ => ∀ n ∈ name, IsName isBlockName n
  | .mixin name _ _ => IsName isNameChar name
  | .doctype words => ∀ w ∈ words, IsTrimmed w
  | .filter name rest => IsName isNameChar name ∧ rest.toList.head?.any isNameChar = false
  | .tag => False

/-- The kind can be printed so that it is read back. -/
structure Printable (k : LineKind) : Prop where
  fits : k.Fits
  /-- What is printed stays on its line. -/
  line : ∀ text ∈ k.texts, '\n' ∉ text.toList

/-! ## What follows a keyword -/

section Arguments

variable {words : String}

theorem toList_spaced (words : String) : (spaced words).toList = ' ' :: words.toList := by
  simp [spaced]

theorem trimStart_space (h : IsTrimmed words) : trimStart (' ' :: words.toList) = words.toList := by
  have hspace : trimStart (' ' :: words.toList) = trimStart words.toList := rfl
  rw [hspace, ← h, trimStart_trim]

theorem trimmed_toList (h : IsTrimmed words) : trimmed words.toList = words := by
  rw [trimmed, h, String.ofList_toList]

theorem argumentOrEnd?_space (h : IsTrimmed words) (hline : '\n' ∉ words.toList) :
    argumentOrEnd? (' ' :: words.toList) = some (some words) := by
  have hstarts : startsWithSpace (' ' :: words.toList) = true := rfl
  simp only [argumentOrEnd?, trimStart_space h, trimmed_toList h, hstarts]
  simp [hline]

theorem argument?_space (h : IsTrimmed words) (hne : words ≠ "") (hline : '\n' ∉ words.toList) :
    argument? (' ' :: words.toList) = some words := by
  have hstarts : startsWithSpace (' ' :: words.toList) = true := rfl
  have hbody : words.toList.isEmpty = false := by simpa using hne
  simp only [argument?, trimStart_space h, trimmed_toList h, hstarts, hbody]
  simp [hline]

/-- A condition is read back behind its word, and so is the lack of one. -/
theorem argumentOrEnd?_printExpr (word : Condition) (h : IsTrimmed words)
    (hline : '\n' ∉ words.toList) :
    (argumentOrEnd? (printExpr words).toList).map (fun e => condition word (e.getD "")) =
      some (.condition word words) := by
  by_cases hempty : words = ""
  · rw [printExpr, if_pos hempty, hempty]
    rfl
  · rw [printExpr, if_neg hempty, toList_spaced, argumentOrEnd?_space h hline]
    rfl

end Arguments

/-! ## Names and arguments -/

section Names

variable {p : Char → Bool} {name : String} {args : Option String}

theorem toList_printArgs_some (a : String) :
    (printArgs (some a)).toList = '(' :: (a.toList ++ [')']) := by
  simp [printArgs]

theorem parenthesised?_printArgs (hline : ∀ a ∈ args, '\n' ∉ a.toList) :
    parenthesised? (printArgs args).toList = some args := by
  cases args with
  | none => rfl
  | some a =>
    have hclose : trimEnd (a.toList ++ [')']) = a.toList ++ [')'] := trimEnd_concat rfl
    have hopen : trimStart ('(' :: (a.toList ++ [')'])) = '(' :: (a.toList ++ [')']) := rfl
    have ha : '\n' ∉ a.toList := hline a rfl
    rw [toList_printArgs_some]
    simp only [parenthesised?, hopen, hclose]
    simp [ha]

theorem head?_printArgs (args : Option String) (hp : p '(' = false) :
    (printArgs args).toList.head?.any p = false := by
  cases args with
  | none => rfl
  | some a =>
    rw [toList_printArgs_some]
    exact hp

/-- A name with its arguments is cut behind the name. -/
theorem named?_print (hname : IsName p name) (hp : p '(' = false)
    (hline : ∀ a ∈ args, '\n' ∉ a.toList) :
    named? p (name.toList ++ (printArgs args).toList) = some (name, args) := by
  obtain ⟨hne, hchars⟩ := hname
  obtain ⟨htake, hdrop⟩ := span_run hchars (head?_printArgs args hp)
  have hempty : name.toList.isEmpty = false := by simpa using hne
  simp only [named?, htake, hdrop, hempty, parenthesised?_printArgs hline, String.ofList_toList]
  rfl

/-- Behind a keyword, the space in front of a name is dropped and nothing of the name is. -/
theorem trimStart_name (hname : IsName p name) (hp : ∀ c, p c = true → isSpace c = false)
    (s : List Char) : trimStart (' ' :: (name.toList ++ s)) = name.toList ++ s := by
  obtain ⟨hne, hchars⟩ := hname
  obtain ⟨c, more, hmore⟩ := exists_cons_of_ne_nil (show name.toList ≠ [] by simpa using hne)
  have hc : isSpace c = false := hp c (hchars c (hmore ▸ mem_cons_self))
  have hspace : trimStart (' ' :: (name.toList ++ s)) = trimStart (name.toList ++ s) := rfl
  rw [hspace, hmore, cons_append]
  exact dropWhile_cons_of_neg (by simp [hc])

end Names

/-! ## Telling the rules apart -/

/-- The rules in their order, with the characters that a line they accept can start with. -/
def openings : List ((List Char → Option LineKind) × List Char) :=
  [(comment?, ['/']), (text?, ['|']), (literal?, ['<']), (bufferedCode?, ['!', '=']),
    (each?, ['-', 'e', 'f', 'r']), (code?, ['-']), (condition?, ['i', 'u', 'e']), (caseOf?, ['c']),
    (whenDefault?, ['d']), (when?, ['w']), (block?, ['b']), (subBlock?, ['@']), (yield?, ['y']),
    (mixin?, ['+', 'm']), (doctype?, ['d', '!']), (filter?, [':'])]

theorem rules_eq_openings : rules = openings.map Prod.fst := rfl

section Rules

variable {s : List Char}

theorem after?_eq_none {word : String} {c : Char} (hword : word.toList.head? = some c)
    (h : s.head? ≠ some c) : after? word s = none := by
  cases hafter : after? word s with
  | none => rfl
  | some rest =>
    have hhead : s.head? = some c := by rw [eq_append_of_after? hafter, head?_append, hword]; rfl
    exact absurd hhead h

/-- Without a hyphen in front, a loop starts with its keyword. -/
theorem each?_of_head? (h : s.head? ≠ some '-') :
    each? s = (["each", "for", "repeat"].findSome? fun word =>
      (after? word s).bind argument?).map .each := by
  delta each?
  dsimp only
  split
  · exact absurd rfl h
  · rfl

/-- A rule refuses a line that starts with none of its characters. -/
theorem refuses : ∀ r ∈ openings, (∀ c ∈ r.2, s.head? ≠ some c) → r.1 s = none := by
  simp only [openings, forall_mem_cons, not_mem_nil, false_imp_iff, implies_true, and_true]
  -- One goal for each rule. A rule for a keyword refuses since the keyword cannot stand at the
  -- start, any other rule since it asks for the character itself.
  refine ⟨?comment, ?text, ?literal, ?buffered, ?each, ?code, ?condition, ?caseOf, ?default,
    ?when, ?block, ?subBlock, ?yield, ?mixin, ?doctype, ?filter⟩
  case comment =>
    intro h
    unfold comment?
    split
    · exact absurd rfl h
    · exact absurd rfl h
    · rfl
  case text =>
    intro h
    unfold text?
    split
    · exact absurd rfl h
    · exact absurd rfl h
    · rfl
  case literal =>
    intro h
    unfold literal?
    split
    · exact absurd rfl h
    · rfl
  case buffered =>
    rintro ⟨hbang, hequals⟩
    unfold bufferedCode?
    split
    · exact absurd rfl hbang
    · exact absurd rfl hequals
    · rfl
  case each =>
    rintro ⟨hhyphen, he, hf, hr⟩
    have heach : after? "each" s = none := after?_eq_none (by simp) he
    have hfor : after? "for" s = none := after?_eq_none (by simp) hf
    have hrepeat : after? "repeat" s = none := after?_eq_none (by simp) hr
    simp [each?_of_head? hhyphen, heach, hfor, hrepeat]
  case code =>
    intro h
    unfold code?
    split
    · exact absurd rfl h
    · rfl
  case condition =>
    rintro ⟨hi, hu, he⟩
    have hif : after? "if" s = none := after?_eq_none (by simp) hi
    have hunless : after? "unless" s = none := after?_eq_none (by simp) hu
    have helse : after? "else" s = none := after?_eq_none (by simp) he
    simp [condition?, elseIf?, hif, hunless, helse]
  case caseOf =>
    intro h
    rw [caseOf?, after?_eq_none (by simp) h]
    rfl
  case default =>
    intro h
    rw [whenDefault?, if_neg]
    rintro rfl
    simp at h
  case when =>
    intro h
    rw [when?, after?_eq_none (by simp) h]
    rfl
  case block =>
    intro h
    rw [block?, after?_eq_none (by simp) h]
    rfl
  case subBlock =>
    intro h
    unfold subBlock?
    split
    · exact absurd rfl h
    · rfl
  case yield =>
    intro h
    rw [yield?, after?_eq_none (by simp) h]
    rfl
  case mixin =>
    rintro ⟨hplus, hm⟩
    unfold mixin?
    split
    · exact absurd rfl hplus
    · rw [after?_eq_none (by simp) hm]
      rfl
  case doctype =>
    rintro ⟨hd, hbang⟩
    have hword : after? "doctype" s = none := after?_eq_none (by simp) hd
    have hbangs : after? "!!!" s = none := after?_eq_none (by simp) hbang
    simp [doctype?, hword, hbangs]
  case filter =>
    intro h
    unfold filter?
    split
    · exact absurd rfl h
    · rfl

/-- A line has the kind that a rule gives it, if the rules before it that could accept its first
character do not accept the line. -/
theorem ofContent_of_rule (i : Nat) {c : Char} {k : LineKind} {rule : List Char → Option LineKind}
    {cs : List Char} (hr : openings[i]? = some (rule, cs)) (hhead : s.head? = some c)
    (hk : rule s = some k)
    (hbefore : ∀ r ∈ openings.take i, c ∈ r.2 → r.1 s = none) : ofContent s = k := by
  -- A rule in front refuses the line by its first character, or by assumption.
  have hnone : ∀ r ∈ openings.take i, r.1 s = none := by
    intro r hmem
    by_cases hc : c ∈ r.2
    · exact hbefore r hmem hc
    · refine refuses r (mem_of_mem_take hmem) fun d hd heq => hc ?_
      exact Option.some.inj (hhead.symm.trans heq) ▸ hd
  have hsplit : openings = openings.take i ++ (rule, cs) :: openings.drop (i + 1) := by
    obtain ⟨hi, hget⟩ := List.getElem?_eq_some_iff.mp hr
    rw [← hget, ← drop_eq_getElem_cons hi, take_append_drop]
  have hfirst : (openings.take i).findSome? (fun r => r.1 s) = none :=
    findSome?_eq_none_iff.mpr hnone
  have hfind : rules.findSome? (fun rule => rule s) = some k := by
    rw [rules_eq_openings, findSome?_map, hsplit, findSome?_append, Function.comp_def, hfirst,
      findSome?_cons, show (rule, cs).1 s = some k from hk]
    rfl
  rw [ofContent, hfind]
  rfl

end Rules

/-! ## The rules on their own lines -/

section Accepted

variable {words expr : String} {args : Option String}

theorem comment?_print {buffer : Bool} (h : Printable (.comment words buffer)) :
    comment? (print (.comment words buffer)).toList = some (.comment words buffer) := by
  cases buffer with
  | false =>
    have hprint : (print (.comment words false)).toList = '/' :: '/' :: '-' :: words.toList := by
      simp
    rw [hprint, comment?, String.ofList_toList]
  | true =>
    have hhyphen : ∀ rest, words.toList ≠ '-' :: rest := by
      intro rest heq
      exact h.fits rfl (by rw [heq]; rfl)
    have hprint : (print (.comment words true)).toList = '/' :: '/' :: words.toList := by
      simp
    rw [hprint, comment?, String.ofList_toList]
    exact hhyphen

theorem text?_print (words : String) : text? (print (.text words)).toList = some (.text words) := by
  have hprint : (print (.text words)).toList = '|' :: ' ' :: words.toList := by
    simp [toList_spaced]
  rw [hprint, text?, String.ofList_toList]

theorem literal?_print {markup : String} (h : Printable (.literal markup)) :
    literal? (print (.literal markup)).toList = some (.literal markup) := by
  obtain ⟨rest, hmarkup⟩ := head?_eq_some_iff.mp h.fits
  rw [print, hmarkup, literal?, ← hmarkup, String.ofList_toList]

theorem bufferedCode?_print {escape : Bool} (h : Printable (.code expr true escape)) :
    bufferedCode? (print (.code expr true escape)).toList = some (.code expr true escape) := by
  cases escape with
  | true =>
    have hprint : (print (.code expr true true)).toList = '=' :: ' ' :: expr.toList := by
      simp [toList_spaced]
    rw [hprint, bufferedCode?, trimmed_space h.fits]
  | false =>
    have hprint : (print (.code expr true false)).toList = '!' :: '=' :: ' ' :: expr.toList := by
      simp [toList_spaced]
    rw [hprint, bufferedCode?, trimmed_space h.fits]

theorem toList_print_code (expr : String) :
    (print (.code expr false false)).toList = '-' :: ' ' :: expr.toList := by
  simp [toList_spaced]

theorem code?_print (h : IsTrimmed expr) :
    code? (print (.code expr false false)).toList = some (.code expr false false) := by
  rw [toList_print_code, code?, trimmed_space h]

/-- Code that is no loop is left to the rule for code. -/
theorem each?_print_code (h : IsTrimmed expr)
    (hleads : ∀ word ∈ ["each", "for", "repeat"], ¬LeadsWith word expr) :
    each? (print (.code expr false false)).toList = none := by
  -- A word at the start of the expression is no keyword without white space behind it.
  have hrefuses : ∀ word ∈ ["each", "for", "repeat"],
      (after? word expr.toList).bind argument? = none := by
    intro word hword
    cases hafter : after? word expr.toList with
    | none => rfl
    | some rest =>
      refine argument?_none ?_
      rw [← Bool.not_eq_true]
      exact fun hspace => hleads word hword ⟨rest, eq_append_of_after? hafter, hspace⟩
  have hstart : each? ('-' :: ' ' :: expr.toList) =
      (["each", "for", "repeat"].findSome? fun word =>
        (after? word (trimStart (' ' :: expr.toList))).bind argument?).map .each := rfl
  rw [toList_print_code, hstart, trimStart_space h, findSome?_eq_none_iff.mpr hrefuses]
  rfl

theorem elseIf?_elseIf (rest : List Char) :
    elseIf? ("else if".toList ++ rest) = argumentOrEnd? rest := by
  have hwords : "else if".toList ++ rest = "else".toList ++ (' ' :: ("if".toList ++ rest)) := by
    simp
  have hstarts : startsWithSpace (' ' :: ("if".toList ++ rest)) = true := rfl
  have htrim : trimStart (' ' :: ("if".toList ++ rest)) = "if".toList ++ rest := rfl
  rw [elseIf?, hwords, after?_append]
  dsimp only
  rw [if_pos hstarts, htrim, after?_append, Option.bind_some]

/-- What follows `else` is no `if`. -/
theorem elseIf?_otherwise (h : IsTrimmed expr) (hif : expr ≠ "if")
    (hleads : ¬LeadsWith "if" expr) :
    elseIf? ("else".toList ++ (printExpr expr).toList) = none := by
  rw [elseIf?, after?_append]
  dsimp only
  by_cases hempty : expr = ""
  · rw [printExpr, if_pos hempty]
    rfl
  · have hstarts : startsWithSpace (' ' :: expr.toList) = true := rfl
    rw [printExpr, if_neg hempty, toList_spaced, trimStart_space h, if_pos hstarts]
    -- An `if` can still be the start of a longer word, and then there is no white space behind it.
    cases hafter : after? "if" expr.toList with
    | none => rfl
    | some rest =>
      have hexpr := eq_append_of_after? hafter
      refine argumentOrEnd?_none ?_ ?_
      · rw [← Bool.not_eq_true]
        exact fun hspace => hleads ⟨rest, hexpr, hspace⟩
      · rintro rfl
        exact hif (String.toList_inj.mp (by simpa using hexpr))

theorem condition?_print {word : Condition} (h : Printable (.condition word expr)) :
    condition? (print (.condition word expr)).toList = some (.condition word expr) := by
  obtain ⟨htrim, hother⟩ := h.fits
  have haccepts := argumentOrEnd?_printExpr word htrim (h.line expr (by simp))
  rw [print, String.toList_append]
  cases word with
  | ifThen =>
    rw [Condition.word, condition?, after?_append, Option.bind_some, haccepts]
    rfl
  | ifNot =>
    rw [Condition.word, condition?, after?_append, Option.bind_some, haccepts]
    rfl
  | elseIf =>
    rw [Condition.word, condition?, elseIf?_elseIf, haccepts]
    rfl
  | otherwise =>
    obtain ⟨hif, hleads⟩ := hother rfl
    rw [Condition.word, condition?, elseIf?_otherwise htrim hif hleads, after?_append,
      Option.bind_some, haccepts]
    rfl

/-- No branch is taken for a loop, also not one that starts with the same letter. -/
theorem each?_print_condition (word : Condition) (expr : String) :
    each? (print (.condition word expr)).toList = none := by
  rw [print, String.toList_append]
  cases word with
  | ifThen => rfl
  | ifNot => rfl
  | elseIf => rfl
  | otherwise => rfl

/-- What a keyword needs is read back behind it. -/
theorem argument?_after_word (word : String) (h : IsTrimmed words ∧ words ≠ "")
    (hline : '\n' ∉ words.toList) :
    (after? word (word ++ spaced words).toList).bind argument? = some words := by
  rw [String.toList_append, toList_spaced, after?_append, Option.bind_some,
    argument?_space h.1 h.2 hline]

theorem each?_print (h : Printable (.each words)) :
    each? (print (.each words)).toList = some (.each words) := by
  have hword := argument?_after_word "each" h.fits (h.line words (by simp))
  have hhead : (print (.each words)).toList.head? ≠ some '-' := by simp
  rw [each?_of_head? hhead, print, findSome?_cons, hword]
  rfl

theorem caseOf?_print (h : Printable (.caseOf expr)) :
    caseOf? (print (.caseOf expr)).toList = some (.caseOf expr) := by
  rw [print, caseOf?, argument?_after_word "case" h.fits (h.line expr (by simp))]
  rfl

theorem when?_print (h : Printable (.when expr)) :
    when? (print (.when expr)).toList = some (.when expr) := by
  rw [print, when?, argument?_after_word "when" h.fits (h.line expr (by simp))]
  rfl

theorem isSpace_of_isBlockName {c : Char} (hc : isBlockName c = true) : isSpace c = false := by
  simp only [isBlockName, Bool.and_eq_true, Bool.not_eq_true'] at hc
  exact hc.1

theorem block?_print {name : Option String} (h : Printable (.block name args)) :
    block? (print (.block name args)).toList = some (.block name args) := by
  obtain ⟨hname, hargs⟩ := h.fits
  rw [print, String.toList_append, block?, after?_append, Option.bind_some]
  cases name with
  | none =>
    rw [hargs rfl]
    rfl
  | some n =>
    have hn := hname n rfl
    have hline : ∀ a ∈ args, '\n' ∉ a.toList := fun a ha =>
      h.line a (by simp [Option.mem_def.mp ha])
    have hstarts : startsWithSpace (' ' :: (n.toList ++ (printArgs args).toList)) = true := rfl
    have hspaces : (' ' :: (n.toList ++ (printArgs args).toList)).all isSpace ≠ true := by
      obtain ⟨c, more, hmore⟩ := exists_cons_of_ne_nil (show n.toList ≠ [] by simpa using hn.1)
      have hc := isSpace_of_isBlockName (hn.2 c (hmore ▸ mem_cons_self))
      simp [hmore, hc]
    rw [Option.elim_some, String.toList_append, toList_spaced, cons_append, if_neg hspaces,
      if_pos hstarts, trimStart_name hn fun _ => isSpace_of_isBlockName, named?_print hn rfl hline]
    rfl

theorem subBlock?_print {name : String} (h : Printable (.subBlock name args)) :
    subBlock? (print (.subBlock name args)).toList = some (.subBlock name args) := by
  have hprint : (print (.subBlock name args)).toList =
      '@' :: (name.toList ++ (printArgs args).toList) := by simp
  have hline : ∀ a ∈ args, '\n' ∉ a.toList := fun a ha =>
    h.line a (by simp [Option.mem_def.mp ha])
  rw [hprint, subBlock?, named?_print h.fits rfl hline]
  rfl

theorem yield?_print {name : Option String} (h : Printable (.yield name args)) :
    yield? (print (.yield name args)).toList = some (.yield name args) := by
  have hline : ∀ a ∈ args, '\n' ∉ a.toList := fun a ha =>
    h.line a (by simp [Option.mem_def.mp ha])
  rw [print, String.toList_append, yield?, after?_append, Option.bind_some, String.toList_append]
  cases name with
  | none =>
    have hstarts : startsWithSpace (printArgs args).toList ≠ true := by
      cases args with
      | none => exact Bool.false_ne_true
      | some a =>
        rw [toList_printArgs_some]
        exact Bool.false_ne_true
    have hnone : (Option.elim none "" spaced).toList ++ (printArgs args).toList =
        (printArgs args).toList := rfl
    rw [hnone, if_neg hstarts, parenthesised?_printArgs hline]
    rfl
  | some n =>
    have hn := h.fits n rfl
    have hstarts : startsWithSpace (' ' :: (n.toList ++ (printArgs args).toList)) = true := rfl
    rw [Option.elim_some, toList_spaced, cons_append, if_pos hstarts,
      trimStart_name hn fun _ => isSpace_of_isBlockName, named?_print hn rfl hline]
    rfl

theorem mixin?_print {name : String} {call : Bool} (h : Printable (.mixin name args call)) :
    mixin? (print (.mixin name args call)).toList = some (.mixin name args call) := by
  have hline : ∀ a ∈ args, '\n' ∉ a.toList := fun a ha =>
    h.line a (by simp [Option.mem_def.mp ha])
  have hname : IsName isNameChar name := h.fits
  cases call with
  | true =>
    have hprint : (print (.mixin name args true)).toList =
        '+' :: (name.toList ++ (printArgs args).toList) := by simp
    rw [hprint, mixin?, named?_print hname rfl hline]
    rfl
  | false =>
    have hstarts : startsWithSpace (' ' :: (name.toList ++ (printArgs args).toList)) = true := rfl
    have hprint : (print (.mixin name args false)).toList =
        "mixin".toList ++ (' ' :: (name.toList ++ (printArgs args).toList)) := by
      simp [toList_spaced]
    have hplus : ∀ rest, "mixin".toList ++ (' ' :: (name.toList ++ (printArgs args).toList)) ≠
        '+' :: rest := by simp
    rw [hprint, mixin?, after?_append, Option.bind_some, if_pos hstarts,
      trimStart_name hname fun _ => isSpace_of_isNameChar, named?_print hname rfl hline]
    · rfl
    · exact hplus

theorem doctype?_print {words : Option String} (h : Printable (.doctype words)) :
    doctype? (print (.doctype words)).toList = some (.doctype words) := by
  rw [print, String.toList_append, doctype?, after?_append]
  cases words with
  | none => rfl
  | some w =>
    have hw : argumentOrEnd? (' ' :: w.toList) = some (some w) :=
      argumentOrEnd?_space (h.fits w rfl) (h.line w (by simp))
    rw [Option.elim_some, toList_spaced]
    exact congrArg (Option.map doctype) hw

/-- The word is no `default`, though it starts with the same letter. -/
theorem whenDefault?_print_doctype (words : Option String) :
    whenDefault? (print (.doctype words)).toList = none := by
  rw [whenDefault?, if_neg (by simp)]

/-- A line that starts with a colon and a name is a filter line. -/
theorem ofContent_filter (name rest : String) (h : (filter name rest).Fits)
    (hline : '\n' ∉ rest.toList) :
    ofContent (':' :: (name.toList ++ rest.toList)) = .filter name rest := by
  obtain ⟨⟨hne, hchars⟩, hrest⟩ := h
  obtain ⟨htake, hdrop⟩ := span_run hchars hrest
  refine ofContent_of_rule 15 rfl rfl ?_ (by simp [openings])
  simp [filter?, htake, hdrop, hne, hline]

end Accepted

/-! ## Lines are read back -/

/-- A printed line is read as the kind it was printed from, with the texts it was printed with. -/
theorem ofContent_print {k : LineKind} (h : Printable k) : ofContent k.print.toList = k := by
  -- The rule of the kind by its number, a character that opens it, and the rules before it that
  -- the character opens as well.
  cases k with
  | comment words buffer =>
    refine ofContent_of_rule 0 (c := '/') rfl ?_ (comment?_print h) (by simp)
    cases buffer with
    | true => simp
    | false => simp
  | text words =>
    exact ofContent_of_rule 1 (c := '|') rfl (by simp) (text?_print words)
      (by simp [openings])
  | literal markup =>
    exact ofContent_of_rule 2 rfl h.fits (literal?_print h) (by simp [openings])
  | code expr buffer escape =>
    cases buffer with
    | true =>
      have hrule := bufferedCode?_print h
      cases escape with
      | true =>
        exact ofContent_of_rule 3 (c := '=') rfl (by simp) hrule (by simp [openings])
      | false =>
        exact ofContent_of_rule 3 (c := '!') rfl (by simp) hrule (by simp [openings])
    | false =>
      obtain ⟨htrim, rfl, hleads⟩ := h.fits
      exact ofContent_of_rule 5 (c := '-') rfl (by simp) (code?_print htrim)
        (by simp [openings, each?_print_code htrim hleads, -print])
  | condition word expr =>
    have hrule := condition?_print h
    have heach := each?_print_condition word expr
    cases word with
    | ifThen =>
      exact ofContent_of_rule 6 (c := 'i') rfl (by simp [Condition.word]) hrule
        (by simp [openings])
    | ifNot =>
      exact ofContent_of_rule 6 (c := 'u') rfl (by simp [Condition.word]) hrule
        (by simp [openings])
    | elseIf | otherwise =>
      exact ofContent_of_rule 6 (c := 'e') rfl (by simp [Condition.word]) hrule
        (by simp [openings, heach, -print])
  | each header =>
    exact ofContent_of_rule 4 (c := 'e') rfl (by simp) (each?_print h) (by simp [openings])
  | caseOf expr =>
    exact ofContent_of_rule 7 (c := 'c') rfl (by simp) (caseOf?_print h)
      (by simp [openings])
  | when expr =>
    exact ofContent_of_rule 9 (c := 'w') rfl (by simp) (when?_print h) (by simp [openings])
  | whenDefault =>
    exact ofContent_of_rule 8 (c := 'd') rfl (by simp) rfl (by simp [openings])
  | block name args =>
    exact ofContent_of_rule 10 (c := 'b') rfl (by simp) (block?_print h)
      (by simp [openings])
  | subBlock name args =>
    exact ofContent_of_rule 11 (c := '@') rfl (by simp) (subBlock?_print h)
      (by simp [openings])
  | yield name args =>
    exact ofContent_of_rule 12 (c := 'y') rfl (by simp) (yield?_print h)
      (by simp [openings])
  | mixin name args call =>
    have hrule := mixin?_print h
    cases call with
    | true =>
      exact ofContent_of_rule 13 (c := '+') rfl (by simp) hrule (by simp [openings])
    | false =>
      exact ofContent_of_rule 13 (c := 'm') rfl (by simp) hrule (by simp [openings])
  | doctype words =>
    exact ofContent_of_rule 14 (c := 'd') rfl (by simp) (doctype?_print h)
      (by simp [openings, whenDefault?_print_doctype, -print])
  | filter name rest =>
    have hprint : (print (.filter name rest)).toList = ':' :: (name.toList ++ rest.toList) := by
      simp
    rw [hprint]
    exact ofContent_filter name rest h.fits (h.line rest (by simp))
  | tag => exact h.fits.elim

theorem ofContent_print_iffy :
    Printable (.condition .otherwise "iffy") ∧
    ofContent "else iffy".toList = .condition .otherwise "iffy" ∧
    Printable (.yield (some "side.left") (some "a, (b)")) ∧
    ofContent "yield side.left(a, (b))".toList = .yield (some "side.left") (some "a, (b)") := by
  have hiffy : Printable (.condition .otherwise "iffy") := by
    refine ⟨⟨rfl, fun _ => ⟨by decide, ?_⟩⟩, by simp⟩
    rintro ⟨rest, hrest, hspace⟩
    obtain rfl : ['f', 'y'] = rest := by simpa using hrest
    cases hspace
  have hyield : Printable (.yield (some "side.left") (some "a, (b)")) := by
    refine ⟨?_, by simp⟩
    rintro n ⟨⟩
    exact ⟨by decide, all_eq_true.mp rfl⟩
  have hprint : print (.condition .otherwise "iffy") = "else iffy" := by decide
  have hprint' : print (.yield (some "side.left") (some "a, (b)")) = "yield side.left(a, (b))" := by
    decide
  exact ⟨hiffy, hprint ▸ ofContent_print hiffy, hyield, hprint' ▸ ofContent_print hyield⟩

end LineKind

end Offside

import Mathlib.Data.List.TakeWhile
import Offside.Proofs.Text.Bytes
import Offside.Source.Token

/-!
# How a source text falls into tokens

A token has no text of its own, only a span of bytes. `TokenKind.Reads` says what the text under the
span has to be, between what stands before it and behind it: a line break with its carriage return,
or a run that cannot be made longer on either side.

The scan works from the end of the text and joins characters to the run behind them. Seen from the
front it takes one token after the other (`Scanned`), and all that is said here of the tokens of a
text follows from that: they come in order, every token reads what it should, and a character is in
one of them unless it is a carriage return with no line feed behind it.
-/

set_option autoImplicit false

namespace Offside

open List Text

/-! ## What tokens read -/

/-- The characters that make up a run of this kind; line breaks are no runs. -/
def TokenKind.runs : TokenKind → Char → Bool
  | .newline, _ => false
  | .blank, c => isIndent c
  | .text, c => !isIndent c && c != '\r' && c != '\n'

/-- Between `pre` and `post`, the text `mid` is a run of characters with the property `p` that goes
on to neither side. -/
structure MaximalRun (p : Char → Bool) (pre mid post : List Char) : Prop where
  ne_nil : mid ≠ []
  all : ∀ c ∈ mid, p c = true
  before : ∀ c ∈ pre.getLast?, p c = false
  after : ∀ c ∈ post.head?, p c = false

/-- A token of this kind reads `mid` where it stands between `pre` and `post`. A line feed takes the
carriage return in front of it with it. -/
def TokenKind.Reads (pre mid post : List Char) : TokenKind → Prop
  | .newline => mid = ['\r', '\n'] ∨ mid = ['\n'] ∧ pre.getLast? ≠ some '\r'
  | .blank => MaximalRun TokenKind.blank.runs pre mid post
  | .text => MaximalRun TokenKind.text.runs pre mid post

/-- A carriage return that no line feed follows. -/
def IsStray (c : Char) (post : List Char) : Prop :=
  c = '\r' ∧ post.head? ≠ some '\n'

/-- The span of the token has all bytes of the character `c` that stands behind `pre`. -/
def Token.Holds (t : Token) (pre : List Char) (c : Char) : Prop :=
  t.start ≤ bytes pre ∧ bytes (pre ++ [c]) ≤ t.stop

namespace TokenKind

variable {kind kind' : TokenKind} {c : Char} {pre mid post : List Char}

@[simp] theorem runs_return (kind : TokenKind) : kind.runs '\r' = false := by
  cases kind <;> rfl

@[simp] theorem runs_newline (kind : TokenKind) : kind.runs '\n' = false := by
  cases kind <;> rfl

theorem ne_of_runs (h : kind.runs c = true) : c ≠ '\r' ∧ c ≠ '\n' := by
  constructor
  · rintro rfl
    simp at h
  · rintro rfl
    simp at h

/-- No character is in runs of two kinds. -/
theorem eq_of_runs (h : kind.runs c = true) (h' : kind'.runs c = true) : kind = kind' := by
  cases kind <;> cases kind' <;> simp_all [runs]

/-- The scan finds the kind of run that a character is in. -/
theorem ite_isIndent_eq (h : kind.runs c = true) :
    (if isIndent c = true then TokenKind.blank else .text) = kind := by
  cases kind <;> simp_all [runs]

theorem runs_ite_isIndent (hreturn : c ≠ '\r') (hnewline : c ≠ '\n') :
    (if isIndent c = true then TokenKind.blank else .text).runs c = true := by
  by_cases h : isIndent c = true
  · rw [if_pos h]
    exact h
  · simp [runs, h, hreturn, hnewline]

theorem reads_of_runs (hc : kind.runs c = true) (h : MaximalRun kind.runs pre mid post) :
    kind.Reads pre mid post := by
  cases kind with
  | newline => cases hc
  | blank | text => exact h

namespace Reads

theorem newline_not_mem (h : kind.Reads pre mid post) (hkind : kind ≠ .newline) : '\n' ∉ mid := by
  intro hmem
  cases kind with
  | newline => exact hkind rfl
  | blank | text =>
    have hruns := h.all '\n' hmem
    simp at hruns

/-- No carriage return in a token is stray. -/
theorem not_isStray {a b : List Char} (h : kind.Reads pre (a ++ c :: b) post) :
    ¬ IsStray c (b ++ post) := by
  rintro ⟨rfl, hpost⟩
  cases kind with
  | newline =>
    rcases h with h | ⟨h, -⟩
    · rcases append_eq_cons_iff.mp h with ⟨rfl, hb⟩ | ⟨a', rfl, hb⟩
      · obtain rfl := (cons.inj hb).2
        exact hpost rfl
      · have hmem : '\r' ∈ ['\n'] := hb ▸ mem_append_right a' mem_cons_self
        simp at hmem
    · have hmem : '\r' ∈ ['\n'] := h ▸ mem_append_right a mem_cons_self
      simp at hmem
  | blank | text =>
    have hruns := h.all '\r' (mem_append_right a mem_cons_self)
    simp at hruns

end Reads

end TokenKind

/-! ## The scan, run by run -/

namespace Token

variable {kind : TokenKind} {pos : Nat} {c : Char} {s rest : List Char} {t : Token}

theorem scanFrom_cons (hc : kind.runs c = true) (pos : Nat) (rest : List Char) :
    scanFrom pos (c :: rest) =
      joinFront kind pos (pos + c.utf8Size) (scanFrom (pos + c.utf8Size) rest) := by
  obtain ⟨hreturn, hnewline⟩ := TokenKind.ne_of_runs hc
  rw [scanFrom.eq_5 pos c rest hnewline (fun _ h => absurd h hreturn) hreturn,
    TokenKind.ite_isIndent_eq hc]

theorem start_eq_or_mem_of_mem_joinFront {start stop : Nat} {tokens : List Token}
    (h : t ∈ joinFront kind start stop tokens) : t.start = start ∨ t ∈ tokens := by
  cases tokens with
  | nil => exact .inl (by rw [mem_singleton.mp h])
  | cons u tokens =>
    rw [joinFront] at h
    split at h
    · rcases mem_cons.mp h with rfl | h
      · exact .inl rfl
      · exact .inr (mem_cons_of_mem _ h)
    · rcases mem_cons.mp h with rfl | h
      · exact .inl rfl
      · exact .inr h

/-- No token starts before the text that is scanned. -/
theorem le_start_of_mem_scanFrom (h : t ∈ scanFrom pos s) : pos ≤ t.start := by
  fun_induction scanFrom pos s with
  | case1 => cases h
  | case2 pos rest ih =>
    rcases mem_cons.mp h with rfl | h
    · exact Nat.le_refl _
    · exact Nat.le_of_succ_le (ih h)
  | case3 pos rest ih =>
    rcases mem_cons.mp h with rfl | h
    · exact Nat.le_refl _
    · exact Nat.le_of_add_right_le (ih h)
  | case4 pos rest _ ih => exact Nat.le_of_succ_le (ih h)
  | case5 pos c rest _ _ _ next ih =>
    rcases start_eq_or_mem_of_mem_joinFront h with h | h
    · exact Nat.le_of_eq h.symm
    · exact Nat.le_of_add_right_le (ih h)

theorem kind_of_mem_head?_joinFront {start stop : Nat} {tokens : List Token}
    (h : t ∈ (joinFront kind start stop tokens).head?) : t.kind = kind := by
  cases tokens with
  | nil =>
    cases h
    rfl
  | cons u tokens =>
    rw [joinFront] at h
    split at h
    · cases h
      rfl
    · cases h
      rfl

/-- Where no run of this kind begins, no token of the kind starts. -/
theorem not_of_mem_head?_scanFrom (hs : ∀ d ∈ s.head?, kind.runs d = false)
    (hkind : kind ≠ .newline) (h : t ∈ (scanFrom pos s).head?) :
    ¬ (t.kind = kind ∧ t.start = pos) := by
  rintro ⟨hk, hstart⟩
  revert h
  fun_cases scanFrom pos s with
  | case1 => simp
  | case2 rest | case3 rest =>
    rintro ⟨⟩
    exact hkind hk.symm
  | case4 rest _ =>
    -- Behind a stray carriage return everything starts further on.
    intro h
    have hle := le_start_of_mem_scanFrom (mem_of_mem_head? h)
    omega
  | case5 c rest hnewline _ hreturn next =>
    intro h
    have hruns := TokenKind.runs_ite_isIndent hreturn hnewline
    rw [← kind_of_mem_head?_joinFront h, hk, hs c rfl] at hruns
    cases hruns

/-- A character that no run of its kind follows is a token of its own. -/
theorem joinFront_scanFrom (hs : ∀ d ∈ s.head?, kind.runs d = false) (hkind : kind ≠ .newline)
    (start : Nat) :
    joinFront kind start pos (scanFrom pos s) = ⟨kind, start, pos⟩ :: scanFrom pos s := by
  cases hscan : scanFrom pos s with
  | nil => rfl
  | cons t tokens =>
    have hfirst := not_of_mem_head?_scanFrom (t := t) hs hkind (by rw [hscan]; rfl)
    rw [joinFront, if_neg hfirst]

/-- A run that ends is one token. -/
theorem scanFrom_run {run : List Char} (hne : run ≠ []) (hrun : ∀ c ∈ run, kind.runs c = true)
    (hrest : ∀ d ∈ rest.head?, kind.runs d = false) (pos : Nat) :
    scanFrom pos (run ++ rest) =
      ⟨kind, pos, pos + bytes run⟩ :: scanFrom (pos + bytes run) rest := by
  induction run generalizing pos with
  | nil => exact absurd rfl hne
  | cons c run ih =>
    obtain ⟨hc, hrun⟩ := forall_mem_cons.mp hrun
    rw [cons_append, scanFrom_cons hc]
    -- The last character of the run starts the token, and the ones before it join in.
    cases run with
    | nil =>
      have hkind : kind ≠ .newline := by
        rintro rfl
        cases hc
      rw [nil_append, joinFront_scanFrom hrest hkind]
      rfl
    | cons d run =>
      rw [ih (cons_ne_nil d run) hrun, joinFront, if_pos ⟨rfl, rfl⟩, Nat.add_assoc]
      rfl

end Token

/-! ## The scan from the front -/

/-- Behind `pre` the text falls into these tokens, one after the other; stray carriage returns are
left out. -/
inductive Scanned : List Char → List Char → List Token → Prop
  | nil (pre : List Char) : Scanned pre [] []
  | token {pre mid post : List Char} {tokens : List Token} {kind : TokenKind}
      (hreads : kind.Reads pre mid post) (hrest : Scanned (pre ++ mid) post tokens) :
      Scanned pre (mid ++ post) (⟨kind, bytes pre, bytes (pre ++ mid)⟩ :: tokens)
  | stray {pre post : List Char} {tokens : List Token} (hpost : post.head? ≠ some '\n')
      (hrest : Scanned (pre ++ ['\r']) post tokens) : Scanned pre ('\r' :: post) tokens

/-- A token may end between the texts: no run goes on from one to the other, and no line feed is cut
off from its carriage return. -/
structure Separate (pre post : List Char) : Prop where
  run : ∀ c ∈ pre.getLast?, ∀ d ∈ post.head?, ∀ kind : TokenKind,
    kind.runs c = true → kind.runs d = false
  newline : pre.getLast? = some '\r' → post.head? ≠ some '\n'

namespace Separate

variable {pre post : List Char}

theorem nil (post : List Char) : Separate [] post :=
  ⟨by simp, by simp⟩

theorem of_newline (pre post : List Char) : Separate (pre ++ ['\n']) post := by
  constructor
  · intro c hc d _ kind hruns
    obtain rfl : '\n' = c := by simpa using hc
    simp at hruns
  · simp

theorem of_stray (pre : List Char) (hpost : post.head? ≠ some '\n') :
    Separate (pre ++ ['\r']) post := by
  constructor
  · intro c hc d _ kind hruns
    obtain rfl : '\r' = c := by simpa using hc
    simp at hruns
  · exact fun _ => hpost

/-- At the end of a run. -/
theorem of_run {mid : List Char} {kind : TokenKind} (h : MaximalRun kind.runs pre mid post) :
    Separate (pre ++ mid) post := by
  have hlast : ∀ c ∈ (pre ++ mid).getLast?, kind.runs c = true := by
    intro c hc
    rw [getLast?_append, getLast?_eq_some_getLast h.ne_nil] at hc
    obtain rfl : mid.getLast h.ne_nil = c := Option.some.inj hc
    exact h.all _ (getLast_mem h.ne_nil)
  constructor
  · intro c hc d hd kind' hruns
    rw [← TokenKind.eq_of_runs (hlast c hc) hruns]
    exact h.after d hd
  · intro hreturn
    have hruns := hlast '\r' hreturn
    simp at hruns

end Separate

/-- Where a token may start, the longest run is a maximal one. -/
theorem Separate.maximalRun {kind : TokenKind} {pre rest : List Char} {c : Char}
    (h : Separate pre (c :: rest)) (hc : kind.runs c = true) :
    MaximalRun kind.runs pre ((c :: rest).takeWhile kind.runs)
      ((c :: rest).dropWhile kind.runs) where
  ne_nil := by
    rw [takeWhile_cons_of_pos hc]
    exact cons_ne_nil _ _
  all := fun d hd => mem_takeWhile_imp hd
  before := by
    intro d hd
    by_contra hruns
    have hnot := h.run d hd c rfl kind (Bool.not_eq_false _ ▸ hruns)
    rw [hc] at hnot
    cases hnot
  after := by
    intro d hd
    have hnot := head?_dropWhile_not kind.runs (c :: rest)
    rw [Option.mem_def.mp hd] at hnot
    exact hnot

/-- The scan takes the tokens from the front. -/
theorem scanned_scanFrom {pre s : List Char} (h : Separate pre s) :
    Scanned pre s (Token.scanFrom (bytes pre) s) := by
  -- A token can take many characters at once, so the induction is on the length that is left.
  induction hn : s.length using Nat.strongRecOn generalizing pre s with
  | ind n ih =>
  subst hn
  fun_cases Token.scanFrom (bytes pre) s with
  | case1 => exact .nil pre
  | case2 rest =>
    have hsize : bytes (pre ++ ['\n']) = bytes pre + 1 := bytes_append pre _
    have hreads : TokenKind.newline.Reads pre ['\n'] rest :=
      .inr ⟨rfl, fun hreturn => h.newline hreturn rfl⟩
    rw [← hsize, ← singleton_append]
    exact .token hreads (ih rest.length (by simp) (.of_newline pre rest) rfl)
  | case3 rest =>
    have hsize : bytes (pre ++ ['\r', '\n']) = bytes pre + 2 := bytes_append pre _
    have hreads : TokenKind.newline.Reads pre ['\r', '\n'] rest := .inl rfl
    have hsep : Separate (pre ++ ['\r', '\n']) rest := by
      rw [append_cons]
      exact .of_newline _ rest
    rw [← hsize, ← nil_append rest, ← cons_append, ← cons_append]
    exact .token hreads (ih rest.length (by simp only [length_cons]; omega) hsep rfl)
  | case4 rest hpost =>
    have hsize : bytes (pre ++ ['\r']) = bytes pre + 1 := bytes_append pre _
    have hnext : rest.head? ≠ some '\n' := by
      intro hhead
      obtain ⟨rest', rfl⟩ := head?_eq_some_iff.mp hhead
      exact hpost rest' rfl
    rw [← hsize]
    exact .stray hnext (ih rest.length (by simp) (.of_stray pre hnext) rfl)
  | case5 c rest hnewline _ hreturn next =>
    -- The whole run that starts here is one token.
    have hruns := TokenKind.runs_ite_isIndent hreturn hnewline
    rw [← Token.scanFrom_cons hruns]
    generalize (if isIndent c = true then TokenKind.blank else .text) = kind at hruns
    have hrun := h.maximalRun hruns
    have hshort : ((c :: rest).dropWhile kind.runs).length < (c :: rest).length := by
      rw [dropWhile_cons_of_pos hruns]
      exact Nat.lt_succ_of_le (dropWhile_sublist _).length_le
    have hscanned := ih _ hshort (.of_run hrun) rfl
    have htoken := Scanned.token (TokenKind.reads_of_runs hruns hrun) hscanned
    rwa [bytes_append, ← Token.scanFrom_run hrun.ne_nil hrun.all hrun.after,
      takeWhile_append_dropWhile] at htoken

theorem scanned_scan (source : String) : Scanned [] source.toList (Token.scan source) :=
  scanned_scanFrom (.nil _)

/-! ## What follows from it -/

namespace Scanned

variable {pre s : List Char} {tokens : List Token} {t : Token}

/-- Every token reads what a token of its kind should. -/
theorem reads (h : Scanned pre s tokens) (ht : t ∈ tokens) :
    ∃ a mid post, pre ++ s = a ++ mid ++ post ∧ t.start = bytes a ∧ t.stop = bytes (a ++ mid) ∧
      t.kind.Reads a mid post := by
  induction h with
  | nil pre => cases ht
  | @token pre mid post tokens kind hreads _ ih =>
    rcases mem_cons.mp ht with rfl | ht
    · exact ⟨pre, mid, post, (append_assoc ..).symm, rfl, rfl, hreads⟩
    · rw [← append_assoc]
      exact ih ht
  | stray _ _ ih =>
    rw [append_cons]
    exact ih ht

theorem le_start (h : Scanned pre s tokens) (ht : t ∈ tokens) : bytes pre ≤ t.start := by
  induction h with
  | nil pre => cases ht
  | token _ _ ih =>
    rcases mem_cons.mp ht with rfl | ht
    · exact Nat.le_refl _
    · have hle := ih ht
      rw [bytes_append] at hle
      exact Nat.le_of_add_right_le hle
  | stray _ _ ih =>
    have hle := ih ht
    rw [bytes_append] at hle
    exact Nat.le_of_add_right_le hle

/-- The spans come in order, and none begins before the one in front of it has ended. -/
theorem pairwise (h : Scanned pre s tokens) : tokens.Pairwise fun t u => t.stop ≤ u.start := by
  induction h with
  | nil pre => exact Pairwise.nil
  | token _ hrest ih => exact Pairwise.cons (fun u hu => hrest.le_start hu) ih
  | stray _ _ ih => exact ih

/-- A character is in a span unless it is a stray carriage return. -/
theorem exists_holds_iff (h : Scanned pre s tokens) {a b : List Char} {c : Char}
    (hs : s = a ++ c :: b) : (∃ t ∈ tokens, t.Holds (pre ++ a) c) ↔ ¬ IsStray c b := by
  induction h generalizing a with
  | nil pre => simp at hs
  | @token pre mid post tokens kind hreads hrest ih =>
    -- A character behind the first token is not in it.
    have hbehind (a' : List Char) (hpost : post = a' ++ c :: b) :
        (∃ t ∈ ⟨kind, bytes pre, bytes (pre ++ mid)⟩ :: tokens, t.Holds (pre ++ (mid ++ a')) c) ↔
          ¬ IsStray c b := by
      have hnot : ¬ Token.Holds ⟨kind, bytes pre, bytes (pre ++ mid)⟩ (pre ++ (mid ++ a')) c := by
        rintro ⟨-, hstop⟩
        have hpos := c.utf8Size_pos
        simp only [bytes_append, bytes] at hstop
        omega
      simp only [mem_cons, exists_eq_or_imp]
      rw [or_iff_right hnot, ← append_assoc]
      exact ih hpost
    rcases append_eq_append_iff.mp hs with ⟨a', rfl, hpost⟩ | ⟨b', rfl, hb⟩
    · exact hbehind a' hpost
    · cases b' with
      | nil =>
        rw [append_nil] at hbehind
        simpa using hbehind [] hb.symm
      | cons d b' =>
        obtain ⟨rfl, rfl⟩ := cons.inj hb
        refine iff_of_true ⟨_, mem_cons_self, ?_, ?_⟩ hreads.not_isStray
        · simp only [bytes_append]
          omega
        · simp only [bytes_append, bytes]
          omega
  | @stray pre post tokens hpost hrest ih =>
    cases a with
    | nil =>
      obtain ⟨rfl, rfl⟩ := cons.inj hs
      refine iff_of_false ?_ (not_not_intro ⟨rfl, hpost⟩)
      rintro ⟨t, ht, hstart, -⟩
      have hle := hrest.le_start ht
      have hsize : bytes ['\r'] = 1 := rfl
      rw [bytes_append, hsize] at hle
      rw [append_nil] at hstart
      omega
    | cons d a =>
      obtain ⟨rfl, hpost⟩ := cons.inj hs
      rw [append_cons]
      exact ih hpost

/-- No character is in two spans. -/
theorem eq_of_holds (h : Scanned pre s tokens) {u : Token} {a : List Char} {c : Char}
    (ht : t ∈ tokens) (hu : u ∈ tokens) (hta : t.Holds a c) (hua : u.Holds a c) : t = u := by
  have hpos := c.utf8Size_pos
  obtain ⟨hstart, hstop⟩ := hta
  obtain ⟨hstart', hstop'⟩ := hua
  rw [bytes_append, bytes, bytes] at hstop hstop'
  obtain ⟨i, hi, rfl⟩ := mem_iff_getElem.mp ht
  obtain ⟨j, hj, rfl⟩ := mem_iff_getElem.mp hu
  -- Of two different tokens one ends before the other starts, and the character cannot be in both.
  rcases Nat.lt_trichotomy i j with hij | rfl | hij
  · have hle := pairwise_iff_getElem.mp h.pairwise i j hi hj hij
    omega
  · rfl
  · have hle := pairwise_iff_getElem.mp h.pairwise j i hj hi hij
    omega

end Scanned

end Offside

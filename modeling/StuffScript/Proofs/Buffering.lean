import StuffScript.Proofs.Joining
import StuffScript.Repl

/-!
# When gathered lines are run

Lines are gathered while a bracket is open in them, and brackets are counted line by line, each line from
outside of any string literal. The tokens of the gathered text say whether that count is right. It is
right as long as no string literal runs over the end of a line that is gathered: then every line can be
lexed by itself, and the count over a line is that over its tokens.

The main statements are `Repl.openAfter_counts_tokens`, about one line, and `Repl.gathers_while_open`, about
lines that are gathered. Where a string literal runs over a line end the count goes wrong, as
`Repl.string_over_line_end_miscounted` shows.
-/

namespace StuffScript

section Counting

/-- Whether a token opens a bracket. -/
def opensBracket (t : TokenKind × String) : Bool := t = (.punctuation, "[") || t = (.punctuation, "(")

/-- Whether a token closes a bracket. -/
def closesBracket (t : TokenKind × String) : Bool := t = (.punctuation, "]") || t = (.punctuation, ")")

/-- How many more brackets some tokens open than they close. -/
def balance (tokens : List (TokenKind × String)) : Int :=
  tokens.countP opensBracket - tokens.countP closesBracket

/-- The balance of tokens one after another is the sum. -/
theorem balance_append (tokens tokens' : List (TokenKind × String)) :
    balance (tokens ++ tokens') = balance tokens + balance tokens' := by
  simp only [balance, List.countP_append]
  omega

/-- The first token counts for itself. -/
theorem balance_cons (t : TokenKind × String) (tokens : List (TokenKind × String)) :
    balance (t :: tokens) = balance [t] + balance tokens := balance_append [t] tokens

/-- Tokens that are no signs do not count. -/
theorem balance_eq_zero {kind : TokenKind} (h : kind ≠ .punctuation) (lexeme : String) :
    balance [(kind, lexeme)] = 0 := by
  simp [balance, opensBracket, closesBracket, h]

/-- A text in which a line end can only stand last. -/
def OneLine (cs : List Char) : Prop := ∀ before after, cs = before ++ '\n' :: after → after = []

/-- A line and its end are one line. -/
theorem OneLine.of_line {line : List Char} (h : '\n' ∉ line) : OneLine (line ++ ['\n']) := by
  induction line with
  | nil =>
    intro before after heq
    cases before with
    | nil => exact (List.cons.inj heq).2.symm
    | cons c before => simp at heq
  | cons c line ih =>
    simp only [List.mem_cons, not_or] at h
    intro before after heq
    cases before with
    | nil => exact absurd (List.cons.inj heq).1.symm h.1
    | cons c' before => exact ih h.2 before after (List.cons.inj heq).2

/-- A text without line ends is one line. -/
theorem OneLine.of_not_mem {line : List Char} (h : '\n' ∉ line) : OneLine line := by
  intro before after heq
  rw [heq] at h
  simp at h

/-- The end of one line is one line. -/
theorem OneLine.of_append (cs : List Char) {ds : List Char} (h : OneLine (cs ++ ds)) : OneLine ds := by
  intro before after hds
  apply h (cs ++ before) after
  rw [hds, List.append_assoc]

open Repl (countBrackets LineState)

/-- Nothing in a line counts but brackets, quotes and comments, which only signs and literals hold. -/
theorem countBrackets_append {kind : TokenKind} (hkind : kind ≠ .punctuation) {raw : List Char}
    (h : ∀ c ∈ raw, kind.holds c) (depth : Int) (rest : List Char) :
    countBrackets .code depth (raw ++ rest) = countBrackets .code depth rest := by
  induction raw with
  | nil => rfl
  | cons c raw ih =>
    have hc := h c List.mem_cons_self
    have hne {x : Char} (hx : kind.holds x = false) : c ≠ x := by
      intro heq
      rw [heq, hx] at hc
      cases hc
    have hplain : c ≠ '~' ∧ c ≠ '"' ∧ c ≠ '[' ∧ c ≠ '(' ∧ c ≠ ']' ∧ c ≠ ')' := by
      cases kind with
      | punctuation => exact absurd rfl hkind
      | _ => exact ⟨hne rfl, hne rfl, hne rfl, hne rfl, hne rfl, hne rfl⟩
    have hraw := ih fun x hx => h x (List.mem_cons_of_mem _ hx)
    simp [countBrackets, hplain, hraw]

/-- Spaces do not count. -/
theorem countBrackets_space {c : Char} (h : isSpace c) (depth : Int) (rest : List Char) :
    countBrackets .code depth (c :: rest) = countBrackets .code depth rest := by
  simp only [isSpace, Bool.or_eq_true, decide_eq_true_eq] at h
  obtain ((rfl | rfl) | rfl) | rfl := h <;> rfl

/-- A gap counts nothing, since a comment reaches to the end of the line. -/
theorem countBrackets_gap {gap rest : List Char} (h : Gap gap rest) (hline : OneLine (gap ++ rest))
    (depth : Int) : countBrackets .code depth (gap ++ rest) = countBrackets .code depth rest := by
  induction h with
  | none => rfl
  | @space c gap rest hc _ ih =>
    rw [List.cons_append, countBrackets_space hc]
    exact ih (OneLine.of_append [c] hline)
  | @comment text gap rest htext hend hgap ih =>
    rw [← ih (OneLine.of_append ('~' :: text) (by simpa using hline))]
    -- At most the line end is left, which counts nothing.
    have hleft : gap ++ rest = [] ∨ gap ++ rest = ['\n'] := by
      cases hcs : gap ++ rest with
      | nil => exact .inl rfl
      | cons c cs =>
        obtain rfl := hend c (by rw [hcs]; rfl)
        have hcs' : cs = [] := hline ('~' :: text) cs (by simp [hcs])
        exact .inr (by rw [hcs'])
    obtain hleft | hleft := hleft <;> simp [countBrackets, hleft]

/-- The content of a string literal does not count. -/
theorem countBrackets_content {raw body : List Char} (h : Content raw body) (depth : Int)
    (rest : List Char) :
    countBrackets .inString depth (raw ++ rest) = countBrackets .inString depth rest := by
  induction h with
  | nil => rfl
  | plain hquote hslash _ ih => simp [countBrackets, hquote, hslash, ih]
  | escaped c _ ih => simp [countBrackets, ih]

/-- A token counts as what it is. -/
theorem Spelled.countBrackets_append {kind : TokenKind} {lexeme : String} {raw rest : List Char}
    (h : Spelled kind lexeme raw rest) (depth : Int) :
    countBrackets .code depth (raw ++ rest) =
      countBrackets .code (depth + balance [(kind, lexeme)]) rest := by
  cases h with
  | plain longest =>
    by_cases hkind : kind = .punctuation
    · subst hkind
      obtain ⟨c, rfl, hc⟩ := longest.1
      simp only [isPunctuationSign, List.mem_cons, List.not_mem_nil, or_false, decide_eq_true_eq] at hc
      obtain rfl | rfl | rfl | rfl | rfl | rfl := hc <;>
        simp [countBrackets, balance, opensBracket, closesBracket, Int.sub_eq_add_neg]
    · rw [balance_eq_zero hkind, Int.add_zero]
      exact StuffScript.countBrackets_append hkind longest.1.holds depth rest
  | closed rest hcontent =>
    simp [countBrackets, countBrackets_content hcontent, balance_eq_zero]
  | unclosed hcontent =>
    have hin := countBrackets_content hcontent depth []
    simp only [List.append_nil] at hin
    simp [countBrackets, hin, balance_eq_zero]
  | unclosedEscape hcontent =>
    simp [countBrackets, countBrackets_content hcontent, balance_eq_zero]

/-- The count over a line is that over its tokens. -/
theorem Layout.countBrackets_eq {cs : List Char} {tokens : List (TokenKind × String)}
    (h : Layout cs tokens []) (hline : OneLine cs) (depth : Int) :
    countBrackets .code depth cs = depth + balance tokens := by
  generalize hlast : ([] : List Char) = last at h
  induction h generalizing depth with
  | stop hgap =>
    subst hlast
    rw [countBrackets_gap hgap hline]
    simp [countBrackets, balance]
  | @token gap raw rest _ kind lexeme more hgap hraw _ ih =>
    have hmore := ih ((hline.of_append gap).of_append raw) (depth + balance [(kind, lexeme)]) hlast
    rw [countBrackets_gap hgap hline, hraw.countBrackets_append, hmore, balance_cons _ more]
    omega

/-- The end of a line counts nothing. -/
theorem countBrackets_newline (state : LineState) (depth : Int) (line : List Char) :
    countBrackets state depth (line ++ ['\n']) = countBrackets state depth line := by
  induction line generalizing state depth with
  | nil => cases state <;> simp [countBrackets]
  | cons c line ih => cases state <;> simp [countBrackets, ih]

end Counting

namespace Repl

/-- **The count over a line is that over its tokens.** Where a line can be lexed by itself, the brackets open
after it are those open before it and those among its tokens, closing ones taken off; never less than none. -/
theorem openAfter_counts_tokens {line : String} (hline : '\n' ∉ line.toList)
    (hlexes : (Stream.ofString line).error? = none) (depth : Int) :
    openAfter depth line =
      max 0 (depth + (tokensOf line).countP opensBracket - (tokensOf line).countP closesBracket) := by
  obtain ⟨tokens, unread, hlayout⟩ := exists_layout line.toList
  obtain rfl : unread = [] := hlayout.ofString.2.mp hlexes
  have htokens : tokensOf line = tokens := hlayout.ofString.1
  have hcount := hlayout.countBrackets_eq (.of_not_mem hline) depth
  rw [openAfter, hcount, htokens, balance]
  omega

/-- Brackets in string literals, after a quote that a backslash keeps, and before a backslash that ends the
line. -/
theorem openAfter_counts_tokens_strings :
    let line := ")[( \"\\\"~]\" \"(\\"
    (tokensOf line).countP opensBracket = 2 ∧ (tokensOf line).countP closesBracket = 1 ∧
      openAfter 3 line = 4 ∧ openAfter (-2) line = 0 := by
  intro line
  have hline : '\n' ∉ line.toList := by decide
  have hlexes : (Stream.ofString line).error? = none := by decide +kernel
  have hopening : (tokensOf line).countP opensBracket = 2 := by decide +kernel
  have hclosing : (tokensOf line).countP closesBracket = 1 := by decide +kernel
  refine ⟨hopening, hclosing, ?_, ?_⟩
  · rw [openAfter_counts_tokens hline hlexes, hopening, hclosing]
    rfl
  · rw [openAfter_counts_tokens hline hlexes, hopening, hclosing]
    rfl

/-- Lines as one text, each with its line end. -/
def textOf (lines : List String) : String := lines.foldl (fun text line => text ++ line ++ "\n") ""

/-- One more line is written at the end. -/
theorem textOf_append (lines : List String) (line : String) :
    textOf (lines ++ [line]) = textOf lines ++ line ++ "\n" := List.foldl_append

/-- One more line adds its characters and a line end. -/
theorem toList_textOf_append (lines : List String) (line : String) :
    (textOf (lines ++ [line])).toList = (textOf lines).toList ++ (line.toList ++ ['\n']) := by
  rw [textOf_append, String.toList_append, String.toList_append, List.append_assoc]
  rfl

/-- Run a text as one chunk unless it is blank, with nothing gathered any more. -/
def submit (r : Repl) (text : String) : Transcript × Repl :=
  if Text.allBlank text then ([], { r with buffer := "", depth := 0 })
  else ({ r with buffer := "", depth := 0 } : Repl).runChunk text

/-- Submitting a chunk leaves no lines waiting and the mode as it is. -/
theorem submit_idle (r : Repl) (text : String) : (r.submit text).2.pasting = r.pasting ∧
    (r.submit text).2.buffer = "" ∧ (r.submit text).2.depth = 0 := by
  unfold submit
  split <;> exact ⟨rfl, rfl, rfl⟩

/-- What a line leads to, in whatever way files are read. -/
def Feeds (r : Repl) (line : String) (said : Transcript) (after : Repl) : Prop :=
  ∀ (m : Type → Type) [Monad m] (read : String → m FileResult), r.feed read line = pure (said, after)

/-- A line of code is fed without a look at files. -/
theorem feeds_iff {r : Repl} {line : String} (hpasting : r.pasting = false)
    (hcommand : r.commandOf? line = none) {said : Transcript} {after : Repl} :
    r.Feeds line said after ↔ r.feedCode line = (said, after) := by
  have hfeed (m : Type → Type) [Monad m] (read : String → m FileResult) :
      r.feed read line = pure (r.feedCode line) := by
    simp [feed, hcommand, hpasting]
  constructor
  · intro h
    have hid := h Id fun _ => default
    rw [hfeed] at hid
    exact hid
  · intro h m _ read
    rw [hfeed, h]

/-- No string literal of a text holds a line end. -/
def StringsWithinLines (text : String) : Prop :=
  ∀ t ∈ (Stream.ofString text).words, t.kind = .string → '\n' ∉ t.lexeme.toList

/-- The states that lines lead to from an idle state, with the lines gathered since the state was last
idle. While lines are gathered, their text has no lexical error and no string literal over a line end. -/
inductive Fed : List String → Repl → Prop
  | idle {r : Repl} (hpasting : r.pasting = false) (hbuffer : r.buffer = "") (hdepth : r.depth = 0) :
    Fed [] r
  | line {lines : List String} {r after : Repl} {line : String} {said : Transcript} (h : Fed lines r)
    (hline : '\n' ∉ line.toList) (hcommand : lines = [] → r.commandOf? line = none)
    (hfeed : r.Feeds line said after)
    (hlexes : (Stream.ofString (textOf (lines ++ [line]))).error? = none)
    (hstrings : 0 < after.depth → StringsWithinLines (textOf (lines ++ [line]))) :
    Fed (if 0 < after.depth then lines ++ [line] else []) after

/-- A state that has gathered lines with some tokens in them. -/
structure Gathering (lines : List String) (tokens : List (TokenKind × String)) (r : Repl) : Prop where
  pasting : r.pasting = false
  buffer : r.buffer = textOf lines
  depth : r.depth = balance tokens
  pending : lines ≠ [] → 0 < r.depth
  layout : Layout (textOf lines).toList tokens []
  endsLine : EndsLine (textOf lines).toList
  strings : ∀ t ∈ tokens, t.1 = .string → '\n' ∉ t.2.toList

namespace Gathering

variable {lines : List String} {tokens : List (TokenKind × String)} {r : Repl} {line : String}

/-- Where no lines wait, none are gathered. -/
theorem idle (hpasting : r.pasting = false) (hbuffer : r.buffer = "") (hdepth : r.depth = 0) :
    Gathering [] [] r where
  pasting := hpasting
  buffer := hbuffer
  depth := hdepth
  pending := by simp
  layout := .stop (.none []) (by simp [PastGap]) (by simp)
  endsLine := by simp [textOf, EndsLine]
  strings := by simp

/-- With something gathered a line is no command. -/
theorem commandOf?_eq_none (h : Gathering lines tokens r)
    (hcommand : lines = [] → r.commandOf? line = none) : r.commandOf? line = none := by
  by_cases hlines : lines = []
  · exact hcommand hlines
  · have hdepth : r.depth ≠ 0 := Int.ne_of_gt (h.pending hlines)
    simp [commandOf?, hdepth]

/-- The count goes on over one more line as the tokens of the text do. -/
theorem openAfter_eq (h : Gathering lines tokens r) (hline : '\n' ∉ line.toList)
    (hlexes : (Stream.ofString (textOf (lines ++ [line]))).error? = none) :
    ∃ tokens', Layout (textOf (lines ++ [line])).toList tokens' [] ∧
      openAfter r.depth line = max (balance tokens') 0 := by
  obtain ⟨added, unread, hadded⟩ := exists_layout (line.toList ++ ['\n'])
  have hboth := h.layout.append h.endsLine h.strings hadded
  rw [← toList_textOf_append] at hboth
  obtain rfl : unread = [] := hboth.ofString.2.mp hlexes
  refine ⟨_, hboth, ?_⟩
  rw [openAfter, ← countBrackets_newline, hadded.countBrackets_eq (.of_line hline), h.depth,
    balance_append]

/-- A line is kept while a bracket is open in the text, and otherwise the text is run. -/
theorem feedCode_eq (h : Gathering lines tokens r) (hline : '\n' ∉ line.toList)
    (hlexes : (Stream.ofString (textOf (lines ++ [line]))).error? = none) :
    ∃ tokens', Layout (textOf (lines ++ [line])).toList tokens' [] ∧
      r.feedCode line =
        if 0 < balance tokens' then
          ([], { r with buffer := textOf (lines ++ [line]), depth := balance tokens' })
        else r.submit (textOf (lines ++ [line])) := by
  obtain ⟨tokens', hlayout, hopen⟩ := h.openAfter_eq hline hlexes
  refine ⟨tokens', hlayout, ?_⟩
  simp only [feedCode, h.buffer, ← textOf_append, hopen]
  by_cases hbalance : 0 < balance tokens'
  · have hmax : max (balance tokens') 0 = balance tokens' := by omega
    simp only [hmax, hbalance, if_true]
  · have hmax : max (balance tokens') 0 = 0 := by omega
    simp only [hmax, hbalance, Int.lt_irrefl, if_false, submit]

end Gathering

/-- Every state that lines lead to has gathered them. -/
theorem Fed.gathering {lines : List String} {r : Repl} (h : Fed lines r) :
    ∃ tokens, Gathering lines tokens r := by
  induction h with
  | idle hpasting hbuffer hdepth => exact ⟨[], .idle hpasting hbuffer hdepth⟩
  | @line lines r after line said _ hline hcommand hfeed hlexes hstrings ih =>
    obtain ⟨tokens, hr⟩ := ih
    obtain ⟨tokens', hlayout, hcode⟩ := hr.feedCode_eq hline hlexes
    rw [(feeds_iff hr.pasting (hr.commandOf?_eq_none hcommand)).mp hfeed] at hcode
    by_cases hbalance : 0 < balance tokens'
    · rw [if_pos hbalance] at hcode
      obtain ⟨-, rfl⟩ := Prod.mk.inj hcode
      rw [if_pos hbalance]
      refine ⟨tokens', hr.pasting, rfl, rfl, fun _ => hbalance, hlayout, ?_, ?_⟩
      · rw [toList_textOf_append, ← List.append_assoc]
        simp [EndsLine]
      · rw [← hlayout.ofString.1]
        intro t ht
        obtain ⟨word, hword, rfl⟩ := List.mem_map.mp ht
        exact hstrings hbalance word hword
    · rw [if_neg hbalance] at hcode
      obtain ⟨hpasting, hbuffer, hdepth⟩ := r.submit_idle (textOf (lines ++ [line]))
      rw [← hcode] at hpasting hbuffer hdepth
      rw [hdepth, if_neg (Int.lt_irrefl 0)]
      exact ⟨[], .idle (hpasting.trans hr.pasting) hbuffer hdepth⟩

/-- Lines are gathered exactly while their text opens more brackets than it closes, and then run as one
chunk unless they are blank. Nothing else changes while they are gathered. -/
theorem gathers_while_open {lines : List String} {r : Repl} {line : String} (hfed : Fed lines r)
    (hline : '\n' ∉ line.toList) (hcommand : lines = [] → r.commandOf? line = none)
    (hlexes : (Stream.ofString (textOf (lines ++ [line]))).error? = none) :
    ∃ said after, r.Feeds line said after ∧
      (0 < after.depth ↔ (tokensOf (textOf (lines ++ [line]))).countP closesBracket <
        (tokensOf (textOf (lines ++ [line]))).countP opensBracket) ∧
      (0 < after.depth → said = [] ∧
        after = { r with buffer := textOf (lines ++ [line]), depth := after.depth }) ∧
      (¬ 0 < after.depth → (said, after) = r.submit (textOf (lines ++ [line])) ∧
        after.buffer = "" ∧ after.depth = 0) := by
  obtain ⟨tokens, hr⟩ := hfed.gathering
  obtain ⟨tokens', hlayout, hcode⟩ := hr.feedCode_eq hline hlexes
  have htokens : tokensOf (textOf (lines ++ [line])) = tokens' := hlayout.ofString.1
  have hfeeds := (feeds_iff hr.pasting (hr.commandOf?_eq_none hcommand)).mpr (Prod.eta _).symm
  refine ⟨_, _, hfeeds, ?_⟩
  rw [htokens, hcode]
  by_cases hbalance : 0 < balance tokens'
  · rw [if_pos hbalance]
    refine ⟨⟨fun _ => ?_, fun _ => hbalance⟩, fun _ => ⟨rfl, rfl⟩, fun hnot => absurd hbalance hnot⟩
    simp only [balance] at hbalance
    omega
  · obtain ⟨-, hbuffer, hdepth⟩ := r.submit_idle (textOf (lines ++ [line]))
    rw [if_neg hbalance, hdepth]
    refine ⟨⟨fun hlt => absurd hlt (Int.lt_irrefl 0), fun hlt => absurd ?_ hbalance⟩,
      fun hlt => absurd hlt (Int.lt_irrefl 0), fun _ => ⟨rfl, hbuffer, rfl⟩⟩
    simp only [balance]
    omega

/-- A list over two lines, with brackets in a string literal and in a comment. -/
theorem gathers_while_open_list : ∃ r said after, Fed ["[\"]\", ~ ("] r ∧ 0 < r.depth ∧
    r.Feeds "2]" said after ∧ ¬ 0 < after.depth ∧
    (said, after) = r.submit "[\"]\", ~ (\n2]\n" := by
  have hfeed : (Repl.new {}).Feeds "[\"]\", ~ (" []
      { Repl.new {} with buffer := "[\"]\", ~ (\n", depth := 1 } :=
    (feeds_iff rfl (by decide +kernel)).mpr rfl
  have hstrings : StringsWithinLines "[\"]\", ~ (\n" := by
    unfold StringsWithinLines
    decide +kernel
  have hfed : Fed ["[\"]\", ~ ("] { Repl.new {} with buffer := "[\"]\", ~ (\n", depth := 1 } :=
    .line (.idle rfl rfl rfl) (by decide) (fun _ => by decide +kernel) hfeed (by decide +kernel)
      fun _ => hstrings
  have hline : '\n' ∉ "2]".toList := by decide
  obtain ⟨said, after, hfeeds, hopen, -, hdone⟩ :=
    gathers_while_open hfed hline (by simp) (by decide +kernel)
  have hnot : ¬ 0 < after.depth := by
    rw [hopen]
    decide +kernel
  exact ⟨_, said, after, hfed, by decide, hfeeds, hnot, (hdone hnot).1⟩

/-- A string literal over a line end is miscounted: the second line starts inside of it, and its bracket
counts all the same. -/
theorem string_over_line_end_miscounted : ∃ said said' after after',
    (Repl.new {}).Feeds "[\"a" said after ∧ after.Feeds "]\"" said' after' ∧
    (Stream.ofString (textOf ["[\"a", "]\""])).error? = none ∧
    (tokensOf (textOf ["[\"a", "]\""])).countP closesBracket <
      (tokensOf (textOf ["[\"a", "]\""])).countP opensBracket ∧
    after'.depth = 0 ∧ after'.buffer = "" ∧ after'.chunk = 1 := by
  have hfirst : (Repl.new {}).Feeds "[\"a" [] { Repl.new {} with buffer := "[\"a\n", depth := 1 } :=
    (feeds_iff rfl (by decide +kernel)).mpr rfl
  exact ⟨_, _, _, _, hfirst, (feeds_iff rfl (by decide +kernel)).mpr (Prod.eta _).symm,
    by decide +kernel, by decide +kernel, rfl, rfl, rfl⟩

end Repl

end StuffScript

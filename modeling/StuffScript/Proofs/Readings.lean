import StuffScript.Proofs.ParserSteps
import StuffScript.Proofs.Pulling

/-!
# What the procedures of the parser come to on a stream

For every procedure there is a function of streams that says what it comes to: a value and the stream after
it, or a complaint. They are the parsing functions without the proofs that their results carry, and without
those proofs they can be compared. Each is stated here by what the others come to, so that later proofs do
not open the functions.

The main statements are these equations, and `Procedure.reading_shorter`: what a procedure leaves is shorter.
-/

namespace StuffScript

/-- What reading a stream comes to: a value and the stream after it, or a complaint. -/
inductive Reading (α : Type) where
  | found (a : α) (rest : Stream)
  | refused (d : Diagnostic)

/-- Go on reading behind what was found. -/
def Reading.andThen {α β : Type} : Reading α → (α → Stream → Reading β) → Reading β
  | .found a rest, k => k a rest
  | .refused d, _ => .refused d

section Forgetting

variable {α β : Type} {m n : Nat}

/-- A parsing step without its proof that tokens were taken. -/
def reading : Except Diagnostic (Parsed α n) → Reading α
  | .ok p => .found p.value p.rest
  | .error d => .refused d

/-- One step after another: the second depends on what the first gives and leaves. -/
theorem reading_bind {x : Except Diagnostic (Parsed α m)}
    {f : Parsed α m → Except Diagnostic (Parsed β n)} {k : α → Stream → Reading β}
    (h : ∀ p, reading (f p) = k p.value p.rest) : reading (x >>= f) = (reading x).andThen k := by
  cases x with
  | error d => rfl
  | ok p => exact h p

/-- A last step that only weakens the bound. -/
theorem reading_widen (x : Except Diagnostic (Parsed α m)) (h : ∀ _ : Parsed α m, m ≤ n) :
    reading (x >>= fun p => pure (p.widen (h p))) = reading x := by
  cases x <;> rfl

/-- What is left behind something found is shorter. -/
theorem shorter_of_reading {x : Except Diagnostic (Parsed α n)} {a : α} {s : Stream}
    (h : reading x = .found a s) : s.size < n := by
  cases x with
  | error d => cases h
  | ok p =>
    cases h
    exact p.shorter

end Forgetting

/-- Take a token of the kind that is wanted, for what it stands for, or complain. -/
def takeToken {α : Type} (wanted : Token → Bool) (value : Token → α) (complaint : Complaint) :
    Stream → Reading α
  | .broken d => .refused d
  | .finish last => .refused (complaint.located last.position)
  | .token t rest => if wanted t then .found (value t) rest else .refused (complaint.located t.position)

/-- Take the given reserved word. -/
def takeWord (text : String) : Stream → Reading Token :=
  takeToken (·.isKeyword text) (fun t => t) (.wantKeyword text)

/-- Take the name of a parameter. -/
def takeName : Stream → Reading String :=
  takeToken (fun t => decide (t.kind = .identifier)) (·.lexeme) .wantParameter

/-- The rest of a list of expressions behind its opening bracket, with the items so far, the last first. -/
def itemsRest (close : String) : List Expr → Stream → Reading (List Expr)
  | [], s => reading (parseItems close s)
  | e :: items, s => reading (parseMoreItems close (e :: items) s)

/-- The rest of the parameters of a function behind their opening bracket, with the names so far. -/
def namesRest : List String → Stream → Reading (List String)
  | [], .broken d => .refused d
  | [], .finish last => .refused ((Complaint.wantPunctuation "]").located last.position)
  | [], .token t s =>
    if t.isPunctuation "]" then .found [] s
    else (takeName (.token t s)).andThen fun name s => reading (parseMoreNames [name] s)
  | name :: names, s => reading (parseMoreNames (name :: names) s)

/-- The rest of a list behind its opening bracket, with the items so far, the last of them first. -/
def Listing.rest : {α : Type} → Listing α → List α → Stream → Reading (List α)
  | _, .arguments => itemsRest ")"
  | _, .entries => itemsRest "]"
  | _, .parameters => namesRest

/-- What an item of a list comes to. -/
def Listing.item : {α : Type} → Listing α → Stream → Reading α
  | _, .arguments, s => reading (parseExpr s)
  | _, .entries, s => reading (parseExpr s)
  | _, .parameters, s => takeName s

/-- What each procedure comes to. A form with a first token of its own is a primary expression that starts
with that token. -/
def Procedure.reading : {α : Type} → Procedure α → Stream → Reading α
  | _, .expression, s => StuffScript.reading (parseExpr s)
  | _, .operations left floor, s => StuffScript.reading (parseInfix floor left s)
  | _, .part, s => StuffScript.reading (parsePart s)
  | _, .primary, s => StuffScript.reading (parsePrimary s)
  | _, .block, s =>
    (StuffScript.reading (takePunctuation "[" s)).andThen fun _ _ => StuffScript.reading (parsePrimary s)
  | _, .conditional, s => (takeWord "if" s).andThen fun _ _ => StuffScript.reading (parsePrimary s)
  | _, .loop, s => (takeWord "loop" s).andThen fun _ _ => StuffScript.reading (parsePrimary s)
  | _, .stuff, s => (takeWord "stuff" s).andThen fun _ _ => StuffScript.reading (parsePrimary s)
  | _, .unstuff, s => (takeWord "unstuff" s).andThen fun _ _ => StuffScript.reading (parsePrimary s)
  | _, .function, s => (takeWord "fun" s).andThen fun _ _ => StuffScript.reading (parsePrimary s)
  | _, .list kind, s =>
    (StuffScript.reading (takePunctuation kind.opening s)).andThen fun _ s => kind.rest [] s
  | _, .item kind, s => kind.item s
  | _, .sign text, s => StuffScript.reading (takePunctuation text s)
  | _, .word text, s => takeWord text s

/-- Whether a procedure takes a token whenever it returns. Only there may be no operations. -/
def Procedure.Consuming {α : Type} : Procedure α → Prop
  | .operations _ _ => False
  | _ => True

section Equations

variable {t : Token} {s : Stream}

/-- A punctuation sign is taken as tokens are. -/
theorem reading_takePunctuation_eq (sign : String) (s : Stream) : reading (takePunctuation sign s) =
    takeToken (·.isPunctuation sign) (fun _ => ()) (.wantPunctuation sign) s := by
  cases s with
  | broken d => rfl
  | finish last => rfl
  | token t s =>
    rw [takePunctuation, takeToken]
    split <;> rfl

/-- The sign that is wanted is taken. -/
theorem reading_takePunctuation {sign : String} (ht : t.isPunctuation sign) :
    reading (takePunctuation sign (.token t s)) = .found () s := by
  rw [reading_takePunctuation_eq, takeToken, if_pos ht]

/-- Another token than the sign that is wanted is refused. -/
theorem reading_takePunctuation_other {sign : String} (ht : ¬ t.isPunctuation sign) :
    reading (takePunctuation sign (.token t s)) =
      .refused ((Complaint.wantPunctuation sign).located t.position) := by
  rw [reading_takePunctuation_eq, takeToken, if_neg ht]

/-- Reading an expression is reading a part and then the operators behind it. -/
theorem reading_parseExpr (s : Stream) : reading (parseExpr s) =
    (reading (parsePart s)).andThen fun left s => reading (parseInfix 0 left s) := by
  rw [parseExpr]
  exact reading_bind fun p => reading_widen _ _

/-- Reading a part is reading a primary and then the calls behind it. -/
theorem reading_parsePart (s : Stream) : reading (parsePart s) =
    (reading (parsePrimary s)).andThen fun callee s => reading (parseCalls callee s) := by
  rw [parsePart]
  exact reading_bind fun p => reading_widen _ _

/-- An opening parenthesis behind a callee begins the arguments of a call. -/
theorem reading_parseCalls_open (ht : t.isPunctuation "(") (callee : Expr) :
    reading (parseCalls callee (.token t s)) =
      (reading (parseItems ")" s)).andThen fun args s =>
        reading (parseCalls (.call callee.span callee args) s) := by
  rw [parseCalls, if_pos ht]
  exact reading_bind fun p => reading_widen _ _

/-- Any other token leaves the callee as it is. -/
theorem reading_parseCalls_stop (ht : ¬ t.isPunctuation "(") (callee : Expr) :
    reading (parseCalls callee (.token t s)) = .found callee (.token t s) := by
  rw [parseCalls, if_neg ht]
  rfl

/-- An operator above the floor is read with its right operand, and then the climb goes on. -/
theorem reading_parseInfix_above {floor power : Nat} (hpower : t.infixPower? = some power)
    (hfloor : ¬ power ≤ floor) (left : Expr) :
    reading (parseInfix floor left (.token t s)) =
      (reading (parsePart s)).andThen fun next s =>
        (reading (parseInfix (t.rightFloor power) next s)).andThen fun right s =>
          reading (parseInfix floor (left.joined t.lexeme right) s) := by
  rw [parseInfix]
  simp only [hpower, if_neg hfloor]
  exact reading_bind fun p => reading_bind fun q => reading_widen _ _

/-- A token that is no operator above the floor leaves the operand as it is. -/
theorem reading_parseInfix_stop {floor : Nat} (h : ∀ power, t.infixPower? = some power → power ≤ floor)
    (left : Expr) : reading (parseInfix floor left (.token t s)) = .found left (.token t s) := by
  rw [parseInfix]
  cases hpower : t.infixPower? with
  | none => rfl
  | some power =>
    simp only [if_pos (h power hpower)]
    rfl

/-- Where the scanner has failed, reading an expression ends with its complaint. -/
theorem reading_parseExpr_broken (d : Diagnostic) : reading (parseExpr (.broken d)) = .refused d := by
  rw [reading_parseExpr, reading_parsePart, parsePrimary]
  rfl

/-- At the end of the tokens an expression is missing. -/
theorem reading_parseExpr_finish (last : Token) :
    reading (parseExpr (.finish last)) = .refused (Complaint.unexpectedEnd.located last.position) := by
  rw [reading_parseExpr, reading_parsePart, parsePrimary]
  rfl

end Equations

section Lists

variable {t : Token} {s : Stream}

section Steps

variable {α : Type} (close : String) (item : Stream → Reading α) (rest : List α → Stream → Reading (List α))
  (items : List α)

/-- A list from where an item may stand, which may be its end instead, given how it goes on. -/
def listEntry : Stream → Reading (List α)
  | .broken d => (item (.broken d)).andThen fun a s => rest (a :: items) s
  | .finish last => (item (.finish last)).andThen fun a s => rest (a :: items) s
  | .token t s =>
    if t.isPunctuation close then .found items.reverse s
    else (item (.token t s)).andThen fun a s => rest (a :: items) s

/-- The rest of a list, given how it goes on behind one more item. A comma stands before each item but the
first. -/
def listStep : Stream → Reading (List α)
  | .broken d => .refused d
  | .finish last => .refused ((Complaint.wantPunctuation close).located last.position)
  | .token t s =>
    if t.isPunctuation close then .found items.reverse s
    else if items.isEmpty then listEntry close item rest items (.token t s)
    else if t.isPunctuation "," then listEntry close item rest items s
    else .refused ((Complaint.wantPunctuation ",").located t.position)

end Steps

/-- Lists of expressions go on step by step. -/
theorem itemsRest_eq (close : String) (items : List Expr) (s : Stream) : itemsRest close items s =
    listStep close (fun s => reading (parseExpr s)) (itemsRest close) items s := by
  cases items with
  | nil =>
    rw [itemsRest, parseItems.eq_def]
    cases s with
    | broken d => rfl
    | finish last => rfl
    | token t s =>
      by_cases hclose : t.isPunctuation close
      · simp only [listStep, if_pos hclose]
        rfl
      · simp only [listStep, listEntry, List.isEmpty_nil, if_true, if_neg hclose]
        exact reading_bind fun p => reading_widen _ _
  | cons first items =>
    rw [itemsRest, parseMoreItems.eq_def]
    cases s with
    | broken d => rfl
    | finish last => rfl
    | token t s =>
      by_cases hclose : t.isPunctuation close
      · simp only [listStep, if_pos hclose]
        rfl
      · by_cases ht : t.isPunctuation ","
        · simp only [listStep, List.isEmpty_cons, if_neg hclose, if_pos ht, Bool.false_eq_true, if_false]
          cases s with
          | broken d =>
            simp only [listEntry, reading_parseExpr_broken]
            rfl
          | finish last =>
            simp only [listEntry, reading_parseExpr_finish]
            rfl
          | token u s =>
            by_cases hu : u.isPunctuation close
            · simp only [listEntry, if_pos hu]
              rfl
            · simp only [listEntry, if_neg hu]
              exact reading_bind fun p => reading_widen _ _
        · simp only [listStep, List.isEmpty_cons, if_neg hclose, if_neg ht, Bool.false_eq_true, if_false]
          rfl

/-- Parameter names go on in the same steps. -/
theorem namesRest_eq (names : List String) (s : Stream) :
    namesRest names s = listStep "]" takeName namesRest names s := by
  cases names with
  | nil =>
    cases s with
    | broken d => rfl
    | finish last => rfl
    | token t s =>
      by_cases hclose : t.isPunctuation "]"
      · simp only [namesRest, listStep, if_pos hclose]
        rfl
      · simp only [namesRest, listStep, listEntry, List.isEmpty_nil, if_true, if_neg hclose]
  | cons first names =>
    rw [namesRest, parseMoreNames.eq_def]
    cases s with
    | broken d => rfl
    | finish last => rfl
    | token t s =>
      by_cases hclose : t.isPunctuation "]"
      · simp only [listStep, if_pos hclose]
        rfl
      · by_cases ht : t.isPunctuation ","
        · simp only [listStep, List.isEmpty_cons, if_neg hclose, if_pos ht, Bool.false_eq_true, if_false]
          cases s with
          | broken d => rfl
          | finish last => rfl
          | token u s =>
            by_cases hu : u.isPunctuation "]"
            · simp only [listEntry, if_pos hu]
              rfl
            · by_cases hname : u.kind = .identifier
              · simp only [listEntry, takeName, takeToken, decide_eq_true_eq, if_neg hu, if_pos hname]
                exact reading_widen _ _
              · simp only [listEntry, takeName, takeToken, decide_eq_true_eq, if_neg hu, if_neg hname]
                rfl
        · simp only [listStep, List.isEmpty_cons, if_neg hclose, if_neg ht, Bool.false_eq_true, if_false]
          rfl

/-- Both kinds of lists are read by the same step, over and over. -/
theorem Listing.rest_eq {α : Type} (kind : Listing α) (items : List α) (s : Stream) :
    kind.rest items s = listStep kind.closing kind.item kind.rest items s := by
  cases kind with
  | arguments => exact itemsRest_eq ")" items s
  | entries => exact itemsRest_eq "]" items s
  | parameters => exact namesRest_eq items s

/-- Where the scanner has failed, reading an item ends with its complaint. -/
theorem Listing.item_broken {α : Type} (kind : Listing α) (d : Diagnostic) :
    kind.item (.broken d) = .refused d := by
  cases kind with
  | arguments => exact reading_parseExpr_broken d
  | entries => exact reading_parseExpr_broken d
  | parameters => rfl

/-- Reading parameters is taking the opening bracket and then reading the rest of the list. -/
theorem reading_parseNames (s : Stream) : reading (parseNames s) =
    (reading (takePunctuation "[" s)).andThen fun _ s => namesRest [] s := by
  rw [parseNames]
  refine reading_bind fun p => ?_
  obtain ⟨_, s, h⟩ := p
  cases s with
  | broken d => rfl
  | finish last => rfl
  | token t s =>
    by_cases ht : t.isPunctuation "]"
    · simp only [namesRest, if_pos ht]
      rfl
    · by_cases hname : t.kind = .identifier
      · simp only [namesRest, takeName, takeToken, decide_eq_true_eq, if_neg ht, if_pos hname]
        exact reading_widen _ _
      · simp only [namesRest, takeName, takeToken, decide_eq_true_eq, if_neg ht, if_neg hname]
        rfl

end Lists

section Primaries

variable {t : Token} {s : Stream}

/-- Reading in parentheses is reading an expression and then taking the closing parenthesis. -/
theorem reading_parsePrimary_parens (ht : t.isPunctuation "(") :
    reading (parsePrimary (.token t s)) = (reading (parseExpr s)).andThen fun e s =>
      (reading (takePunctuation ")" s)).andThen fun _ s => .found e s := by
  rw [parsePrimary, if_pos ht]
  exact reading_bind fun p => reading_bind fun q => rfl

/-- Reading a block is reading the rest of a list of entries. -/
theorem reading_parsePrimary_block (ht : t.isPunctuation "[") :
    reading (parsePrimary (.token t s)) =
      (Listing.entries.rest [] s).andThen fun items s => .found (.block t.position items) s := by
  have hparen : ¬ t.isPunctuation "(" :=
    Token.not_isPunctuation_of_ne ht (by decide) (by decide) (by decide)
  rw [parsePrimary, if_neg hparen, if_pos ht]
  exact reading_bind fun p => rfl

/-- What follows the body of a conditional: perhaps an alternative. -/
def alternativeReading (p : Span) (c e : Expr) : Stream → Reading Expr
  | .broken d => .refused d
  | .finish last => .found (.ifThen p c e) (.finish last)
  | .token u s =>
    if u.isKeyword "else" then (reading (parseExpr s)).andThen fun o s => .found (.ifElse p c e o) s
    else .found (.ifThen p c e) (.token u s)

/-- Reading a conditional is reading two expressions and then, where there is one, the alternative. -/
theorem reading_parsePrimary_if (ht : t.isKeyword "if") :
    reading (parsePrimary (.token t s)) = (reading (parseExpr s)).andThen fun c s =>
      (reading (parseExpr s)).andThen fun e s => alternativeReading t.position c e s := by
  obtain ⟨hsign, _⟩ := Token.tests_of_isKeyword ht (by decide)
  rw [parsePrimary, if_neg (hsign _), if_neg (hsign _), if_pos ht]
  refine reading_bind fun p => reading_bind fun q => ?_
  obtain ⟨e, rest, _⟩ := q
  cases rest with
  | broken d => rfl
  | finish last => rfl
  | token u s =>
    rw [alternativeReading]
    by_cases hu : u.isKeyword "else"
    · simp only [if_pos hu]
      exact reading_bind fun r => rfl
    · simp only [if_neg hu]
      rfl

/-- A form that a reserved word starts is read as its two parts, one after the other. -/
theorem WordForm.reading_parsePrimary {α : Type} {word : String}
    {first : (s : Stream) → Except Diagnostic (Parsed α s.size)} {form : Span → α → Expr → Expr}
    (hform : WordForm word first form) (ht : t.isKeyword word) :
    reading (parsePrimary (.token t s)) = (reading (first s)).andThen fun a s =>
      (reading (parseExpr s)).andThen fun e s => .found (form t.position a e) s := by
  obtain ⟨_, heq⟩ := hform.parsePrimary_eq ht s
  rw [heq]
  exact reading_bind fun p => reading_bind fun q => rfl

/-- Reading an `unstuff` is reading its base. -/
theorem reading_parsePrimary_unstuff (ht : t.isKeyword "unstuff") :
    reading (parsePrimary (.token t s)) =
      (reading (parseExpr s)).andThen fun b s => .found (.unstuff t.position b) s := by
  obtain ⟨hsign, hwords⟩ := Token.tests_of_isKeyword ht (by decide)
  rw [parsePrimary]
  simp only [hsign, hwords, ne_eq, String.reduceEq, not_false_eq_true, if_false, if_true]
  exact reading_bind fun p => rfl

/-- A truth value is read from its word alone. -/
theorem reading_parsePrimary_bool (ht : t.isKeyword "true" ∨ t.isKeyword "false") :
    reading (parsePrimary (.token t s)) = .found (.bool t.position (t.lexeme = "true")) s := by
  obtain ht | ht := ht
  · rw [parsePrimary_bool true ht, ((Token.isKeyword_iff (by decide)).mp ht).2]
    rfl
  · rw [parsePrimary_bool false ht, ((Token.isKeyword_iff (by decide)).mp ht).2]
    rfl

/-- What a token that starts no other form is by itself. -/
def literalReading (t : Token) (s : Stream) : Reading Expr :=
  match t.kind with
  | .number =>
    match Number.read? t.lexeme with
    | some value => .found (.number t.position t.lexeme value) s
    | none => .refused ((Complaint.badNumber t.lexeme).located t.position)
  | .string => .found (.string t.position t.lexeme) s
  | .identifier => .found (.ident t.position t.lexeme) s
  | kind => .refused ((Complaint.unexpectedToken kind t.lexeme).located t.position)

/-- A token that starts no form with a first token of its own. -/
def Token.Plain (t : Token) : Prop :=
  (∀ sign ∈ ["(", "["], ¬ t.isPunctuation sign) ∧
  ∀ word ∈ ["if", "loop", "stuff", "unstuff", "true", "false", "fun"], ¬ t.isKeyword word

/-- A token that begins no form is read as a literal or a name, or refused. -/
theorem reading_parsePrimary_literal (ht : t.Plain) :
    reading (parsePrimary (.token t s)) = literalReading t s := by
  obtain ⟨hsigns, hwords⟩ := ht
  simp only [List.forall_mem_cons, List.not_mem_nil, false_implies, implies_true, and_true] at hsigns hwords
  rw [parsePrimary]
  simp only [hsigns, hwords, literalReading]
  cases hkind : t.kind with
  | number => cases Number.read? t.lexeme <;> rfl
  | _ => rfl

end Primaries

section Forms

variable {s : Stream}

/-- Taking a reserved word that is there goes on behind it. -/
theorem takeWord_andThen {β : Type} {text : String} {t : Token} (ht : t.isKeyword text)
    (k : Token → Stream → Reading β) : (takeWord text (.token t s)).andThen k = k t s := by
  rw [takeWord, takeToken, if_pos ht]
  rfl

/-- What follows a reserved word may be told from the word. -/
theorem takeWord_congr {β : Type} {text : String} {k k' : Token → Stream → Reading β}
    (h : ∀ t rest, s = .token t rest → t.isKeyword text → k t rest = k' t rest) :
    (takeWord text s).andThen k = (takeWord text s).andThen k' := by
  cases s with
  | broken d => rfl
  | finish last => rfl
  | token t rest =>
    by_cases ht : t.isKeyword text
    · rw [takeWord_andThen ht, takeWord_andThen ht]
      exact h t rest rfl ht
    · simp only [takeWord, takeToken, if_neg ht, Reading.andThen]

/-- A conditional is read as its word, two expressions and the alternative. -/
theorem Procedure.reading_conditional (s : Stream) : Procedure.conditional.reading s =
    (takeWord "if" s).andThen fun t s => (expression.reading s).andThen fun c s =>
      (expression.reading s).andThen fun e s => alternativeReading t.position c e s :=
  takeWord_congr fun _ _ hs ht => hs ▸ reading_parsePrimary_if ht

/-- A loop is read as its word, the condition and the body. -/
theorem Procedure.reading_loop (s : Stream) : Procedure.loop.reading s =
    (takeWord "loop" s).andThen fun t s => (expression.reading s).andThen fun c s =>
      (expression.reading s).andThen fun e s => .found (.loop t.position c e) s :=
  takeWord_congr fun _ _ hs ht => hs ▸ WordForm.loop.reading_parsePrimary ht

/-- A `stuff` is read as its word, the base and the value. -/
theorem Procedure.reading_stuff (s : Stream) : Procedure.stuff.reading s =
    (takeWord "stuff" s).andThen fun t s => (expression.reading s).andThen fun b s =>
      (expression.reading s).andThen fun v s => .found (.stuff t.position b v) s :=
  takeWord_congr fun _ _ hs ht => hs ▸ WordForm.stuff.reading_parsePrimary ht

/-- An `unstuff` is read as its word and the base. -/
theorem Procedure.reading_unstuff (s : Stream) : Procedure.unstuff.reading s =
    (takeWord "unstuff" s).andThen fun t s =>
      (expression.reading s).andThen fun b s => .found (.unstuff t.position b) s :=
  takeWord_congr fun _ _ hs ht => hs ▸ reading_parsePrimary_unstuff ht

/-- A function is read as its word, the parameters and the body. -/
theorem Procedure.reading_function (s : Stream) : Procedure.function.reading s =
    (takeWord "fun" s).andThen fun t s => ((list .parameters).reading s).andThen fun names s =>
      (expression.reading s).andThen fun e s => .found (.function t.position names e) s := by
  refine takeWord_congr fun t s hs ht => ?_
  have hnames : (list .parameters).reading s = StuffScript.reading (parseNames s) :=
    (reading_parseNames s).symm
  rw [hs, hnames]
  exact WordForm.function.reading_parsePrimary ht

/-- Reading a sign that is there goes on behind it. -/
theorem Procedure.reading_sign {text : String} {t : Token} (ht : t.isPunctuation text) :
    (sign text).reading (.token t s) = .found () s := reading_takePunctuation ht

/-- A list goes on behind its opening bracket. -/
theorem Procedure.reading_list {α : Type} (kind : Listing α) {t : Token} (ht : t.isPunctuation kind.opening) :
    (list kind).reading (.token t s) = kind.rest [] s := by
  simp only [Procedure.reading, reading_takePunctuation ht, Reading.andThen]

/-- A block is its list, and starts at the token that the stream starts with. -/
theorem Procedure.reading_block {t : Token} (h : ∀ u rest, s = .token u rest → u = t) :
    Procedure.block.reading s =
      ((list .entries).reading s).andThen fun items s => .found (.block t.position items) s := by
  cases s with
  | broken d => rfl
  | finish last => rfl
  | token u rest =>
    cases h u rest rfl
    by_cases ht : t.isPunctuation "["
    · simp only [Procedure.reading, Listing.opening, reading_takePunctuation ht, Reading.andThen]
      exact reading_parsePrimary_block ht
    · simp only [Procedure.reading, Listing.opening, reading_takePunctuation_other ht, Reading.andThen]

end Forms

section Programs

variable {t : Token} {s : Stream} {items : List Expr}

/-- A program is refused with the first of its expressions that is refused. -/
theorem parseProgram_refused {d : Diagnostic} (h : reading (parseExpr (.token t s)) = .refused d) :
    parseProgram items (.token t s) = .error d := by
  rw [parseProgram]
  cases hexpr : parseExpr (.token t s) with
  | error d' =>
    rw [hexpr] at h
    cases h
    rfl
  | ok p =>
    rw [hexpr] at h
    cases h

/-- An expression that is found is one more of the program, which goes on behind it. -/
theorem parseProgram_found {e : Expr} {rest : Stream} (h : reading (parseExpr (.token t s)) = .found e rest) :
    parseProgram items (.token t s) = parseProgram (e :: items) rest := by
  rw [parseProgram]
  cases hexpr : parseExpr (.token t s) with
  | error d =>
    rw [hexpr] at h
    cases h
  | ok p =>
    rw [hexpr] at h
    cases h
    rfl

end Programs

section Progress

/-- Where one reading after another finds something, both do. -/
theorem Reading.exists_of_andThen {α β : Type} {x : Reading α} {k : α → Stream → Reading β} {b : β}
    {rest : Stream} (h : x.andThen k = .found b rest) : ∃ a s, x = .found a s ∧ k a s = .found b rest := by
  cases x with
  | found a s => exact ⟨a, s, rfl, h⟩
  | refused d => cases h

/-- A token that is taken is not left. -/
theorem takeToken_shorter {α : Type} {wanted : Token → Bool} {value : Token → α} {complaint : Complaint}
    {s rest : Stream} {a : α} (h : takeToken wanted value complaint s = .found a rest) :
    rest.size < s.size := by
  cases s with
  | broken d => cases h
  | finish last => cases h
  | token t s =>
    rw [takeToken] at h
    split at h
    · cases h
      exact Nat.lt_succ_self _
    · cases h

/-- What a procedure leaves is shorter than what it was given, but that there may be no operations. -/
theorem Procedure.reading_shorter {α : Type} {p : Procedure α} (hp : p.Consuming) {s rest : Stream} {a : α}
    (h : p.reading s = .found a rest) : rest.size < s.size := by
  -- A form is read as a primary expression once its first token is seen.
  have hform {β : Type} {x : Reading β} {e : Expr}
      (h : (x.andThen fun _ _ => StuffScript.reading (parsePrimary s)) = .found e rest) :
      rest.size < s.size := by
    obtain ⟨_, _, _, hprimary⟩ := Reading.exists_of_andThen h
    exact shorter_of_reading hprimary
  have hitems {sign close : String} {items : List Expr}
      (h : ((StuffScript.reading (takePunctuation sign s)).andThen fun _ s => itemsRest close [] s) =
        .found items rest) : rest.size < s.size := by
    obtain ⟨_, s₁, hopen, hrest⟩ := Reading.exists_of_andThen h
    exact Nat.lt_trans (shorter_of_reading hrest) (shorter_of_reading hopen)
  cases p with
  | expression => exact shorter_of_reading h
  | operations left floor => exact hp.elim
  | part => exact shorter_of_reading h
  | primary => exact shorter_of_reading h
  | block => exact hform h
  | conditional => exact hform h
  | loop => exact hform h
  | stuff => exact hform h
  | unstuff => exact hform h
  | function => exact hform h
  | list kind =>
    cases kind with
    | arguments => exact hitems h
    | entries => exact hitems h
    | parameters => exact shorter_of_reading ((reading_parseNames s).trans h)
  | item kind =>
    cases kind with
    | arguments => exact shorter_of_reading h
    | entries => exact shorter_of_reading h
    | parameters => exact takeToken_shorter h
  | sign text => exact shorter_of_reading h
  | word text => exact takeToken_shorter h

end Progress

end StuffScript

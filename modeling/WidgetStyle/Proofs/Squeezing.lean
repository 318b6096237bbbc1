import WidgetStyle.Proofs.Collapse
import WidgetStyle.Proofs.GrammarCompleteness

/-!
# Readers and the texts of blanks

What a blank token consists of makes no difference to any reader: with single spaces for all blank
tokens it finds the same, or it is refused for the same fault. Only places are counted anew, and
the tokens of values are those with spaces.
-/

namespace WidgetStyle.Sheet

/-- The row with a single space for each blank token. -/
def squeeze (tokens : List Token) : List Token :=
  tokens.map Token.squeezed

/-- Two readings are both refused for the same fault, or what they give is related. -/
inductive Alike {α β : Type} (R : α → β → Prop) : Except Refusal α → Except Refusal β → Prop
  | refused {refusal refusal' : Refusal} (hfault : refusal'.fault = refusal.fault) :
      Alike R (.error refusal) (.error refusal')
  | found {a : α} {b : β} (hfound : R a b) : Alike R (.ok a) (.ok b)

/-- What is read is related, and what stands behind it is squeezed. -/
structure Squeezed {α : Type} (R : α → α → Prop) (found found' : α × List Token) : Prop where
  read : R found.1 found'.1
  behind : found'.2 = squeeze found.2

theorem Alike.exists_ok {α β : Type} {R : α → β → Prop} {a : α} {reading : Except Refusal β}
    (halike : Alike R (.ok a) reading) : ∃ b, reading = .ok b ∧ R a b := by
  cases halike with
  | found hfound => exact ⟨_, rfl, hfound⟩

theorem Alike.exists_error {α β : Type} {R : α → β → Prop} {refusal : Refusal}
    {reading : Except Refusal β} (halike : Alike R (.error refusal) reading) :
    ∃ refusal', reading = .error refusal' ∧ refusal'.fault = refusal.fault := by
  cases halike with
  | refused hfault => exact ⟨_, rfl, hfault⟩

theorem Alike.map {α β γ δ : Type} {R : α → β → Prop} {S : γ → δ → Prop} {f : α → γ} {g : β → δ}
    {reading : Except Refusal α} {reading' : Except Refusal β} (halike : Alike R reading reading')
    (hmap : ∀ a b, R a b → S (f a) (g b)) : Alike S (reading.map f) (reading'.map g) := by
  cases halike with
  | refused hfault => exact .refused hfault
  | found hfound => exact .found (hmap _ _ hfound)

theorem Alike.eq_ok {α : Type} {found : α × List Token}
    {reading : Except Refusal (α × List Token)}
    (halike : Alike (Squeezed Eq) (.ok found) reading) :
    reading = .ok (found.1, squeeze found.2) := by
  obtain ⟨⟨a, rest⟩, hreading, rfl, rfl⟩ := halike.exists_ok
  exact hreading

/-! ### Selectors -/

theorem skipBlanks_squeeze (tokens : List Token) :
    skipBlanks (squeeze tokens) = squeeze (skipBlanks tokens) :=
  List.dropWhile_map

/-- No kind of token comes to stand at the front. -/
theorem squeeze_ne_cons {tokens : List Token} {kind : TokenKind}
    (hfront : ∀ text rest, tokens ≠ ⟨kind, text⟩ :: rest) (text : List Char)
    (rest : List Token) : squeeze tokens ≠ ⟨kind, text⟩ :: rest := by
  intro hsqueezed
  obtain ⟨⟨kind', text'⟩, rest', rfl, htoken, -⟩ := List.map_eq_cons_iff.mp hsqueezed
  obtain rfl : kind' = kind := congrArg Token.kind htoken
  exact hfront text' rest' rfl

/-- Behind the blanks of a squeezed row stands a token of the kind that stood there. -/
theorem exists_skipBlanks_squeeze {tokens rest : List Token} {kind : TokenKind} {text : List Char}
    (hfront : skipBlanks tokens = ⟨kind, text⟩ :: rest) :
    ∃ text', skipBlanks (squeeze tokens) = ⟨kind, text'⟩ :: squeeze rest := by
  rw [skipBlanks_squeeze, hfront]
  exact ⟨_, rfl⟩

theorem readParts_squeeze (selector : SimpleSelector) (tokens : List Token) :
    Alike (Squeezed Eq) (readParts selector tokens) (readParts selector (squeeze tokens)) := by
  fun_induction readParts selector tokens with
  | case1 selector dot name text rest ih => exact ih
  | case2 selector dot rest hword =>
    change Alike _ _ (readParts selector (⟨.dot, _⟩ :: squeeze rest))
    rw [readParts]
    · exact .refused rfl
    · intro name
      exact squeeze_ne_cons (hword name)
  | case3 selector name text rest ih => exact ih
  | case4 selector tokens hclass hdot hid =>
    rw [readParts]
    · exact .found ⟨rfl, rfl⟩
    · intro dot name text rest
      exact squeeze_ne_cons hdot dot _
    · exact squeeze_ne_cons hdot
    · intro name
      exact squeeze_ne_cons (hid name)

theorem readSelector_squeeze (tokens : List Token) :
    Alike (Squeezed Eq) (readSelector tokens) (readSelector (squeeze tokens)) := by
  cases tokens with
  | nil => exact .refused rfl
  | cons token rest =>
    obtain ⟨kind, text⟩ := token
    cases kind with
    | word name => exact readParts_squeeze _ rest
    | star => exact readParts_squeeze _ rest
    | dot => exact readParts_squeeze _ (⟨.dot, text⟩ :: rest)
    | hash name => exact readParts_squeeze _ (⟨.hash name, text⟩ :: rest)
    | _ => exact .refused rfl

theorem startsSelector_squeeze (tokens : List Token) :
    startsSelector (squeeze tokens) = startsSelector tokens := by
  cases tokens with
  | nil => rfl
  | cons token rest =>
    obtain ⟨kind, text⟩ := token
    cases kind <;> rfl

theorem length_squeeze (tokens : List Token) : (squeeze tokens).length = tokens.length :=
  List.length_map _

theorem readCombinator_squeeze (tokens : List Token) :
    readCombinator (squeeze tokens) =
      (readCombinator tokens).map fun found => (found.1, squeeze found.2) := by
  have hlength (rest : List Token) :
      (squeeze rest).length < (squeeze tokens).length ↔ rest.length < tokens.length := by
    rw [length_squeeze, length_squeeze]
  unfold readCombinator
  rw [skipBlanks_squeeze]
  cases skipBlanks tokens with
  | nil => simp [squeeze, startsSelector]
  | cons token rest =>
    have hbehind := hlength (token :: rest)
    have hstarts := startsSelector_squeeze (token :: rest)
    obtain ⟨kind, text⟩ := token
    cases kind with
    | greater =>
      exact congrArg (fun behind => some (Combinator.child, behind)) (skipBlanks_squeeze rest)
    | _ =>
      simp only [squeeze, List.map_cons, Token.squeezed] at hbehind hstarts ⊢
      simp only [hbehind, hstarts]
      split <;> rfl

theorem readLinks_squeeze (chain : Chain) (tokens : List Token) :
    Alike (Squeezed Eq) (readLinks chain tokens) (readLinks chain (squeeze tokens)) := by
  -- the squeezed row has the same combinators, so the cases of the first reading are those of both
  fun_induction readLinks chain tokens with
  | case1 chain tokens hjoined =>
    rw [readLinks_eq, readCombinator_squeeze, hjoined, skipBlanks_squeeze]
    exact .found ⟨rfl, rfl⟩
  | case2 chain tokens combinator behind hjoined refusal hread =>
    obtain ⟨refusal', hread', hfault⟩ := (hread ▸ readSelector_squeeze behind).exists_error
    rw [readLinks_eq, readCombinator_squeeze, hjoined]
    simp only [Option.map_some, hread']
    exact .refused hfault
  | case3 chain tokens combinator behind hjoined selector rest hread hshorter hsmaller ih =>
    have hread' := (hread ▸ readSelector_squeeze behind).eq_ok
    rw [readLinks_eq chain (squeeze tokens), readCombinator_squeeze, hjoined]
    simp only [Option.map_some, hread']
    exact ih

theorem readChain_squeeze (tokens : List Token) :
    Alike (Squeezed Eq) (readChain tokens) (readChain (squeeze tokens)) := by
  unfold readChain
  cases hread : readSelector tokens with
  | error refusal =>
    obtain ⟨refusal', hread', hfault⟩ := (hread ▸ readSelector_squeeze tokens).exists_error
    rw [hread']
    exact .refused hfault
  | ok found =>
    have hread' := (hread ▸ readSelector_squeeze tokens).eq_ok
    rw [hread']
    exact readLinks_squeeze _ found.2

theorem readChains_squeeze (tokens : List Token) :
    Alike (Squeezed Eq) (readChains tokens) (readChains (squeeze tokens)) := by
  fun_induction readChains tokens with
  | case1 tokens refusal hread =>
    obtain ⟨refusal', hread', hfault⟩ := (hread ▸ readChain_squeeze tokens).exists_error
    rw [readChains_of_error hread']
    exact .refused hfault
  | case2 tokens chain behind hread text next hfront hshorter refusal hmore ih =>
    have hread' := (hread ▸ readChain_squeeze tokens).eq_ok
    obtain ⟨text', hfront'⟩ := exists_skipBlanks_squeeze hfront
    obtain ⟨refusal', hmore', hfault⟩ := (hmore ▸ ih).exists_error
    rw [readChains_of_comma hread' hfront', skipBlanks_squeeze, hmore']
    exact .refused hfault
  | case3 tokens chain behind hread text next hfront hshorter chains rest hmore ih =>
    have hread' := (hread ▸ readChain_squeeze tokens).eq_ok
    obtain ⟨text', hfront'⟩ := exists_skipBlanks_squeeze hfront
    have hmore' := (hmore ▸ ih).eq_ok
    rw [readChains_of_comma hread' hfront', skipBlanks_squeeze, hmore']
    exact .found ⟨rfl, rfl⟩
  | case4 tokens chain behind hread hcomma =>
    have hread' := (hread ▸ readChain_squeeze tokens).eq_ok
    rw [readChains_of_ne_comma hread', skipBlanks_squeeze]
    · exact .found ⟨rfl, rfl⟩
    · rw [skipBlanks_squeeze]
      exact squeeze_ne_cons hcomma

/-! ### Blocks -/

/-- The declarations have the same name, and the value of the second one is squeezed. -/
structure SameDeclaration (written written' : WrittenDeclaration) : Prop where
  name : written'.name = written.name
  value : written'.value = squeeze written.value

theorem dropWhile_squeeze (tokens : List Token) :
    (squeeze tokens).dropWhile (!endsValue ·) = squeeze (tokens.dropWhile (!endsValue ·)) :=
  List.dropWhile_map

theorem takeWhile_squeeze (tokens : List Token) :
    (squeeze tokens).takeWhile (!endsValue ·) = squeeze (tokens.takeWhile (!endsValue ·)) :=
  List.takeWhile_map

theorem ne_openBrace_squeeze {value : List Token}
    (hopen : ∀ text rest, value.dropWhile (!endsValue ·) ≠ ⟨.openBrace, text⟩ :: rest) :
    ∀ text rest, (squeeze value).dropWhile (!endsValue ·) ≠ ⟨.openBrace, text⟩ :: rest := by
  rw [dropWhile_squeeze]
  exact squeeze_ne_cons hopen

/-- Where the opening brace stands matters to the place of a fault only. -/
theorem readBlock_squeeze (opening opening' : Nat) (tokens : List Token) :
    Alike (Squeezed (List.Forall₂ SameDeclaration)) (readBlock opening tokens)
      (readBlock opening' (squeeze tokens)) := by
  fun_induction readBlock opening tokens with
  | case1 =>
    rw [squeeze, List.map_nil, readBlock]
    exact .refused rfl
  | case2 text rest ih =>
    change Alike _ _ (readBlock opening' (⟨.blank, _⟩ :: squeeze rest))
    rw [readBlock]
    exact ih
  | case3 text rest ih =>
    change Alike _ _ (readBlock opening' (⟨.semicolon, _⟩ :: squeeze rest))
    rw [readBlock]
    exact ih
  | case4 text rest =>
    change Alike _ _ (readBlock opening' (⟨.closeBrace, _⟩ :: squeeze rest))
    rw [readBlock]
    exact .found ⟨.nil, rfl⟩
  | case5 name text behind colon value hfront brace rest hopen =>
    obtain ⟨colon', hfront'⟩ := exists_skipBlanks_squeeze hfront
    have hopen' := dropWhile_squeeze value
    rw [hopen] at hopen'
    change Alike _ _ (readBlock opening' (⟨.word name, _⟩ :: squeeze behind))
    rw [readBlock_of_openBrace hfront' hopen']
    exact .refused rfl
  | case6 name text behind colon value hfront refusal hopen hshorter hmore ih =>
    obtain ⟨colon', hfront'⟩ := exists_skipBlanks_squeeze hfront
    have hopen' := ne_openBrace_squeeze hopen
    obtain ⟨refusal', hmore', hfault⟩ := (hmore ▸ ih).exists_error
    change Alike _ _ (readBlock opening' (⟨.word name, _⟩ :: squeeze behind))
    rw [readBlock_of_colon hfront' hopen', dropWhile_squeeze, hmore']
    exact .refused hfault
  | case7 name text behind colon value hfront declarations rest hopen hshorter hmore ih =>
    obtain ⟨colon', hfront'⟩ := exists_skipBlanks_squeeze hfront
    have hopen' := ne_openBrace_squeeze hopen
    obtain ⟨⟨declarations', rest'⟩, hmore', hblock, hrest⟩ := (hmore ▸ ih).exists_ok
    change Alike _ _ (readBlock opening' (⟨.word name, _⟩ :: squeeze behind))
    rw [readBlock_of_colon hfront' hopen', dropWhile_squeeze, hmore']
    exact .found ⟨.cons ⟨rfl, takeWhile_squeeze value⟩ hblock, hrest⟩
  | case8 name text behind hcolon =>
    have hcolon' : ∀ text value, skipBlanks (squeeze behind) ≠ ⟨.colon, text⟩ :: value := by
      rw [skipBlanks_squeeze]
      exact squeeze_ne_cons hcolon
    change Alike _ _ (readBlock opening' (⟨.word name, _⟩ :: squeeze behind))
    rw [readBlock_of_ne_colon hcolon']
    exact .refused rfl
  | case9 tokens hnil hblank hsemicolon hbrace hword =>
    rw [readBlock]
    · exact .refused rfl
    · intro hsqueezed
      exact hnil (List.map_eq_nil_iff.mp hsqueezed)
    · exact squeeze_ne_cons hblank
    · exact squeeze_ne_cons hsemicolon
    · exact squeeze_ne_cons hbrace
    · intro name
      exact squeeze_ne_cons (hword name)

/-! ### Rules -/

/-- The rules have the same selectors, and their blocks the same declarations. -/
structure SameRule (written written' : WrittenRule) : Prop where
  selectors : written'.selectors = written.selectors
  block : List.Forall₂ SameDeclaration written.block written'.block

theorem readRule_squeeze (tokens : List Token) :
    Alike (Squeezed SameRule) (readRule tokens) (readRule (squeeze tokens)) := by
  cases hchains : readChains tokens with
  | error refusal =>
    obtain ⟨refusal', hchains', hfault⟩ := (hchains ▸ readChains_squeeze tokens).exists_error
    rw [readRule, readRule, hchains, hchains']
    exact .refused hfault
  | ok found =>
    obtain ⟨selectors, behind⟩ := found
    have hchains' := (hchains ▸ readChains_squeeze tokens).eq_ok
    by_cases hopen : ∃ text inside, behind = ⟨.openBrace, text⟩ :: inside
    · obtain ⟨text, inside, rfl⟩ := hopen
      rw [readRule_of_openBrace hchains, readRule_of_openBrace hchains']
      refine (readBlock_squeeze _ _ inside).map ?_
      rintro ⟨block, rest⟩ ⟨block', rest'⟩ ⟨hblock, hrest⟩
      exact ⟨⟨rfl, hblock⟩, hrest⟩
    · have hopen' : ∀ text inside, behind ≠ ⟨.openBrace, text⟩ :: inside :=
        fun text inside hbehind => hopen ⟨text, inside, hbehind⟩
      rw [readRule_of_ne_openBrace hchains hopen',
        readRule_of_ne_openBrace hchains' (squeeze_ne_cons hopen')]
      exact .refused rfl

theorem readRules_squeeze_of_cons {tokens more : List Token} {token : Token}
    (hfront : skipBlanks tokens = token :: more) :
    readRules (squeeze tokens) = (readRule (squeeze (token :: more))).bind fun (rule, rest) =>
      (readRules rest).map (rule :: ·) := by
  rw [readRules_eq, skipBlanks_squeeze, hfront, if_neg]
  exact List.cons_ne_nil _ _

/-- **Readers and blanks.** From a squeezed row the same rules are read, or the same fault. -/
theorem readRules_squeeze (tokens : List Token) :
    Alike (List.Forall₂ SameRule) (readRules tokens) (readRules (squeeze tokens)) := by
  fun_induction readRules tokens with
  | case1 tokens hfront =>
    rw [readRules_eq, skipBlanks_squeeze, hfront, if_pos (by rfl)]
    exact .found .nil
  | case2 tokens token more hfront refusal hread =>
    obtain ⟨refusal', hread', hfault⟩ := (hread ▸ readRule_squeeze (token :: more)).exists_error
    rw [readRules_squeeze_of_cons hfront, hread']
    exact .refused hfault
  | case3 tokens token more hfront rule rest hread hshorter refusal hmore ih =>
    obtain ⟨⟨rule', rest'⟩, hread', -, rfl⟩ :=
      (hread ▸ readRule_squeeze (token :: more)).exists_ok
    obtain ⟨refusal', hmore', hfault⟩ := (hmore ▸ ih).exists_error
    rw [readRules_squeeze_of_cons hfront, hread']
    simp only [Except.bind, hmore']
    exact .refused hfault
  | case4 tokens token more hfront rule rest hread hshorter rules hmore ih =>
    obtain ⟨⟨rule', rest'⟩, hread', hrule, rfl⟩ :=
      (hread ▸ readRule_squeeze (token :: more)).exists_ok
    obtain ⟨rules', hmore', hrules⟩ := (hmore ▸ ih).exists_ok
    rw [readRules_squeeze_of_cons hfront, hread']
    simp only [Except.bind, hmore']
    exact .found (.cons hrule hrules)

end WidgetStyle.Sheet

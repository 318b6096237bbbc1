import WidgetStyle.Json.Reading
import WidgetStyle.Proofs.SameStart
import WidgetStyle.Proofs.Numerals

/-!
# Reading written JSON back

A written value is read in two steps. Its text has the tokens of the value, whatever stands behind
it, if a number in it ends there: behind a value stands a comma or a closing mark, or nothing. Read
with these tokens the progress is as if the value had come in one piece.

This is said of proper values: their numbers have a digit before the point and no superfluous zeros,
and what stands for half of a pair in their strings is the code of one.
-/

namespace WidgetStyle

namespace Json

open Number (Numeral Digit isDigit)

/-- What may stand behind a value. -/
def Closes (rest : List Char) : Prop :=
  rest.head?.all fun c => c == ',' || c == ']' || c == '}'

theorem Closes.any_head {rest : List Char} (hcloses : Closes rest) {p : Char → Bool}
    (hcomma : p ',' = false) (harray : p ']' = false) (hobject : p '}' = false) :
    rest.head?.any p = false := by
  cases rest with
  | nil => rfl
  | cons c rest =>
    have hmark : (c = ',' ∨ c = ']') ∨ c = '}' := by simpa [Closes] using hcloses
    rcases hmark with (rfl | rfl) | rfl
    · exact hcomma
    · exact harray
    · exact hobject

theorem readExponentDigits_chars (negative : Bool) (n : Nat) {rest : List Char}
    (hstop : rest.head?.any isDigit = false) :
    readExponentDigits negative ((Digit.ofNat n).map Digit.char ++ rest) =
      some (if negative then -(n : Int) else n, rest) := by
  rw [readExponentDigits, Digit.readAll_chars _ hstop]
  split
  · next hnone =>
    exact absurd (congrArg Prod.fst hnone) (Digit.ofNat_ne_nil n)
  · next hread =>
    cases hread
    rw [Digit.value_ofNat]

theorem readExponent_chars (exponent : Int) {rest : List Char}
    (hstop : rest.head?.any isDigit = false) :
    readExponent (Numeral.exponentText exponent ++ rest) = some (exponent, rest) := by
  have hsigned : ∀ sign ∈ ['-', '+'], readExponent ('e' :: sign ::
      ((Digit.ofNat exponent.natAbs).map Digit.char ++ rest)) =
      some (if sign = '-' then -(exponent.natAbs : Int) else exponent.natAbs, rest) := by
    intro sign hsign
    rcases List.mem_pair.mp hsign with rfl | rfl
    · exact readExponentDigits_chars true _ hstop
    · exact readExponentDigits_chars false _ hstop
  rw [Numeral.exponentText]
  split
  · next hneg =>
    refine (hsigned '-' (by decide)).trans ?_
    rw [if_pos rfl, show -(exponent.natAbs : Int) = exponent by omega]
  · next hneg =>
    refine (hsigned '+' (by decide)).trans ?_
    rw [if_neg (by decide), show (exponent.natAbs : Int) = exponent by omega]

theorem readExponent_of_closes {rest : List Char} (hcloses : Closes rest) :
    readExponent rest = none := by
  have hmark := hcloses.any_head (p := fun c => c == 'e' || c == 'E') rfl rfl rfl
  cases rest with
  | nil => rfl
  | cons c rest =>
    have hc : ¬(c = 'e' ∨ c = 'E') := by simpa using hmark
    simp only [readExponent, if_neg hc]

/-- A number that has been read up to its exponent. -/
theorem readNumber_of_plain {cs rest : List Char} {plain : Numeral}
    (hread : Numeral.readPlain cs = (plain, rest)) (hproper : plain.Proper) :
    readNumber cs = match readExponent rest with
      | some (exponent, rest) => some ({ plain with exponent := some exponent }, rest)
      | none => some (plain, rest) := by
  simp only [readNumber, hread]
  split
  · next hnone => exact absurd hnone hproper.whole_ne_nil
  · next first more hwhole =>
    apply if_neg
    rintro ⟨rfl, hmore⟩
    exact hmore (hproper.leading more hwhole)

/-- A proper numeral is read, if the number ends there. -/
theorem readNumber_chars {numeral : Numeral} (hproper : numeral.Proper) {rest : List Char}
    (hcloses : Closes rest) : readNumber (numeral.text ++ rest) = some (numeral, rest) := by
  obtain ⟨negative, whole, fraction, exponent⟩ := numeral
  have hplain : Numeral.Proper ⟨negative, whole, fraction, none⟩ :=
    ⟨hproper.whole_ne_nil, hproper.leading⟩
  have hdigits : Numeral.digits ⟨negative, whole, fraction, none⟩ ≠ [] :=
    List.append_ne_nil_of_left_ne_nil hproper.whole_ne_nil _
  have hdigit := hcloses.any_head (p := isDigit) (by decide) (by decide) (by decide)
  have hpoint : rest.head? ≠ some '.' := by
    have hmark := hcloses.any_head (p := (· == '.')) rfl rfl rfl
    intro hhead
    rw [hhead] at hmark
    cases hmark
  rw [Numeral.text, List.append_assoc, List.append_assoc, List.append_assoc]
  cases exponent with
  | none =>
    have hread := Numeral.readPlain_chars ⟨negative, whole, fraction, none⟩ hdigits hdigit hpoint
    refine (readNumber_of_plain hread hplain).trans ?_
    rw [readExponent_of_closes hcloses]
  | some exponent =>
    have hdigit' : (Numeral.exponentText exponent ++ rest).head?.any isDigit = false := rfl
    have hpoint' : (Numeral.exponentText exponent ++ rest).head? ≠ some '.' := by
      simp [Numeral.exponentText]
    have hread := Numeral.readPlain_chars ⟨negative, whole, fraction, none⟩ hdigits hdigit' hpoint'
    refine (readNumber_of_plain hread hplain).trans ?_
    rw [readExponent_chars exponent hdigit]

/-! ### Strings -/

theorem hexValue?_hexDigit : ∀ n < 16, hexValue? (hexDigit n) = some n := by
  decide

theorem code?_hexDigit {code : Nat} (hcode : code < 0x10000) :
    code? (hexDigit (code / 4096 % 16)) (hexDigit (code / 256 % 16)) (hexDigit (code / 16 % 16))
      (hexDigit (code % 16)) = some code := by
  have hdigit (n : Nat) : hexValue? (hexDigit (n % 16)) = some (n % 16) :=
    hexValue?_hexDigit _ (Nat.mod_lt _ (by decide))
  simp only [code?, hdigit]
  congr 1
  omega

/-- What stands for half of a pair is the code of one. -/
inductive Part.Proper : Part → Prop
  | char (c : Char) : Proper (.char c)
  | half {code : UInt16} (hlow : 0xD800 ≤ code.toNat) (hhigh : code.toNat < 0xE000) :
    Proper (.half code)

theorem readString_escape {code : Nat} (hcode : code < 0x10000) (cs : List Char) :
    readString (escape code ++ cs) =
      (readString cs).map fun (parts, rest) => (partOfCode code :: parts, rest) := by
  change readString ('\\' :: 'u' :: _ :: _ :: _ :: _ :: cs) = _
  rw [readString, code?_hexDigit hcode]
  cases readString cs <;> rfl

theorem readString_letter {letter c : Char} (hletter : letter ≠ 'u')
    (hescape : ofEscape? letter = some c) (cs : List Char) :
    readString ('\\' :: letter :: cs) =
      (readString cs).map fun (parts, rest) => (.char c :: parts, rest) := by
  rw [readString]
  · rw [hescape]
    cases readString cs <;> rfl
  · intro a b c d cs hu
    exact absurd hu hletter

theorem readString_plain {c : Char} (hquote : c ≠ '"') (hslash : c ≠ '\\')
    (hcontrol : 0x20 ≤ c.toNat) (cs : List Char) :
    readString (c :: cs) =
      (readString cs).map fun (parts, rest) => (.char c :: parts, rest) := by
  rw [readString]
  · rw [if_neg]
    rintro (hc | hc)
    · exact hslash hc
    · omega
  · exact fun hc => absurd hc hquote
  · exact fun _ _ _ _ _ hc => absurd hc hslash
  · exact fun _ _ hc => absurd hc hslash

theorem readString_part {part : Part} (hproper : part.Proper) (cs : List Char) :
    readString (part.chars ++ cs) =
      (readString cs).map fun (parts, rest) => (part :: parts, rest) := by
  cases hproper with
  | half hlow hhigh =>
    rw [Part.chars, readString_escape (by omega), partOfCode, if_pos ⟨hlow, hhigh⟩]
    rw [UInt16.ofNat_toNat]
  | char c =>
    simp only [Part.chars]
    split
    · exact readString_letter (by decide) rfl cs
    · exact readString_letter (by decide) rfl cs
    · exact readString_letter (by decide) rfl cs
    · exact readString_letter (by decide) rfl cs
    · exact readString_letter (by decide) rfl cs
    · exact readString_letter (by decide) rfl cs
    · exact readString_letter (by decide) rfl cs
    · next hquote hslash _ _ _ _ _ =>
      split
      · next hcontrol =>
        rw [readString_escape (by omega), partOfCode, if_neg (by omega), Char.ofNat_toNat]
      · next hplain => exact readString_plain hquote hslash (by omega) cs

theorem readString_parts {parts : List Part} (hproper : ∀ part ∈ parts, part.Proper)
    (rest : List Char) :
    readString (parts.flatMap Part.chars ++ '"' :: rest) = some (parts, rest) := by
  induction parts with
  | nil => rfl
  | cons part parts ih =>
    rw [List.forall_mem_cons] at hproper
    rw [List.flatMap_cons, List.append_assoc, readString_part hproper.1, ih hproper.2,
      Option.map_some]

/-! ### Tokens -/

/-- Values whose text can be read. -/
inductive Proper : Json → Prop
  | null : Proper .null
  | bool (value : Bool) : Proper (.bool value)
  | number {numeral : Numeral} (hnumeral : numeral.Proper) : Proper (.number numeral)
  | string {parts : List Part} (hparts : ∀ part ∈ parts, part.Proper) : Proper (.string parts)
  | array {items : List Json} (hitems : ∀ item ∈ items, Proper item) : Proper (.array items)
  | object {members : List (List Part × Json)}
    (hkeys : ∀ member ∈ members, ∀ part ∈ member.1, part.Proper)
    (hvalues : ∀ member ∈ members, Proper member.2) : Proper (.object members)

mutual

/-- The tokens of a written value. -/
def spelled : Json → List Token
  | array items => .openArray :: spelledItems items ++ [.closeArray]
  | object members => .openObject :: spelledMembers members ++ [.closeObject]
  | null => [.scalar null]
  | bool value => [.scalar (bool value)]
  | number numeral => [.scalar (number numeral)]
  | string parts => [.scalar (string parts)]

def spelledItems : List Json → List Token
  | [] => []
  | [item] => spelled item
  | item :: items => spelled item ++ .comma :: spelledItems items

def spelledMembers : List (List Part × Json) → List Token
  | [] => []
  | [(key, value)] => .scalar (string key) :: .colon :: spelled value
  | (key, value) :: members =>
    .scalar (string key) :: .colon :: spelled value ++ .comma :: spelledMembers members

end

/-- What a text has in front of the rest: these tokens. -/
def SpelledBefore (text : List Char) (spelling : List Token) (rest : List Char) : Prop :=
  tokens (text ++ rest) = (tokens rest).map (spelling ++ ·)

theorem tokens_mark {c : Char} {token : Token} (hmark : mark? c = some token) (cs : List Char) :
    tokens (c :: cs) = (tokens cs).map (token :: ·) := by
  have hblank : isBlank c = false := by
    unfold mark? at hmark
    split at hmark
    all_goals first | rfl | cases hmark
  rw [tokens, hblank, if_neg Bool.false_ne_true, hmark]

theorem tokens_scalar {cs rest : List Char} {value : Json}
    (hread : readScalar cs = some (value, rest))
    (hstart : cs.head?.any (fun c => isBlank c || (mark? c).isSome) = false) :
    tokens cs = (tokens rest).map (.scalar value :: ·) := by
  cases cs with
  | nil => cases hread
  | cons c cs =>
    have hstart' : isBlank c = false ∧ mark? c = none := by simpa using hstart
    rw [tokens, hstart'.1, if_neg Bool.false_ne_true, hstart'.2]
    dsimp only
    split
    · next hnone => rw [hread] at hnone; cases hnone
    · next hsome => rw [hread] at hsome; cases hsome; rfl

theorem any_head_numeral {numeral : Numeral} (hproper : numeral.Proper) {p : Char → Bool}
    (hminus : p '-' = false) (hdigits : ∀ d : Digit, p d.char = false) (rest : List Char) :
    (numeral.text ++ rest).head?.any p = false := by
  rw [Numeral.text, List.append_assoc, List.append_assoc, List.append_assoc]
  split
  · exact hminus
  · exact Number.Digit.any_head_chars hproper.whole_ne_nil hdigits _

theorem readScalar_of_number {cs rest : List Char} {numeral : Numeral}
    (hnumber : readNumber cs = some (numeral, rest))
    (hstart : cs.head?.any (fun c => c == '"' || c == 'n' || c == 't' || c == 'f') = false) :
    readScalar cs = some (.number numeral, rest) := by
  cases cs with
  | nil => cases hnumber
  | cons c cs =>
    have hstart' : ((c ≠ '"' ∧ c ≠ 'n') ∧ c ≠ 't') ∧ c ≠ 'f' := by simpa using hstart
    have hword : readWord (c :: cs) = none := by
      simp [readWord, hstart']
    unfold readScalar
    split
    · next hcons => exact absurd (List.cons.inj hcons).1 hstart'.1.1.1
    · rw [hword, hnumber]
      rfl

theorem spelledBefore_number {numeral : Numeral} (hproper : numeral.Proper) {rest : List Char}
    (hcloses : Closes rest) :
    SpelledBefore numeral.text [.scalar (.number numeral)] rest := by
  have hread := readScalar_of_number (readNumber_chars hproper hcloses)
    (any_head_numeral hproper rfl (by decide) rest)
  exact tokens_scalar hread (any_head_numeral hproper rfl (by decide) rest)

theorem spelledBefore_string {parts : List Part} (hproper : ∀ part ∈ parts, part.Proper)
    (rest : List Char) : SpelledBefore (charsOfString parts) [.scalar (.string parts)] rest := by
  refine tokens_scalar ?_ rfl
  rw [charsOfString, List.cons_append, List.cons_append, List.append_assoc, readScalar]
  change (readString (parts.flatMap Part.chars ++ '"' :: rest)).map _ = _
  rw [readString_parts hproper]
  rfl

/-- Chunks of a text one behind the other. -/
theorem SpelledBefore.append {front back rest : List Char} {spelling spelling' : List Token}
    (hfront : SpelledBefore front spelling (back ++ rest))
    (hback : SpelledBefore back spelling' rest) :
    SpelledBefore (front ++ back) (spelling ++ spelling') rest := by
  rw [SpelledBefore, List.append_assoc, hfront, hback, Option.map_map]
  simp only [Function.comp_def, List.append_assoc]

theorem spelledBefore_mark {c : Char} {token : Token} (hmark : mark? c = some token)
    (rest : List Char) : SpelledBefore [c] [token] rest :=
  tokens_mark hmark rest

theorem closes_cons {c : Char} (hc : (c == ',' || c == ']' || c == '}') = true)
    (rest : List Char) : Closes (c :: rest) :=
  hc

theorem spelledBefore_items {items : List Json}
    (hitems : ∀ item ∈ items, ∀ rest, Closes rest → SpelledBefore item.chars item.spelled rest)
    {rest : List Char} (hcloses : Closes rest) :
    SpelledBefore (charsOfItems items) (spelledItems items) rest := by
  induction items with
  | nil => simp [SpelledBefore, charsOfItems, spelledItems]
  | cons item items ih =>
    rw [List.forall_mem_cons] at hitems
    cases items with
    | nil => exact hitems.1 rest hcloses
    | cons next items =>
      rw [charsOfItems, spelledItems]
      · refine (hitems.1 _ (closes_cons rfl _)).append ?_
        exact (spelledBefore_mark rfl _).append (ih hitems.2)
      · exact fun hnil => List.cons_ne_nil _ _ hnil
      · exact fun hnil => List.cons_ne_nil _ _ hnil

theorem spelledBefore_member {key : List Part} {value : Json}
    (hkey : ∀ part ∈ key, part.Proper) {rest : List Char}
    (hvalue : SpelledBefore value.chars value.spelled rest) :
    SpelledBefore (charsOfString key ++ ':' :: value.chars)
      (.scalar (.string key) :: .colon :: value.spelled) rest := by
  refine (spelledBefore_string hkey _).append ?_
  exact (spelledBefore_mark rfl _).append hvalue

theorem spelledBefore_members {members : List (List Part × Json)}
    (hkeys : ∀ member ∈ members, ∀ part ∈ member.1, part.Proper)
    (hvalues : ∀ member ∈ members, ∀ rest, Closes rest →
      SpelledBefore member.2.chars member.2.spelled rest)
    {rest : List Char} (hcloses : Closes rest) :
    SpelledBefore (charsOfMembers members) (spelledMembers members) rest := by
  induction members with
  | nil => simp [SpelledBefore, charsOfMembers, spelledMembers]
  | cons member members ih =>
    rw [List.forall_mem_cons] at hkeys hvalues
    obtain ⟨key, value⟩ := member
    cases members with
    | nil => exact spelledBefore_member hkeys.1 (hvalues.1 rest hcloses)
    | cons next members =>
      rw [charsOfMembers, spelledMembers]
      · refine (spelledBefore_member hkeys.1 (hvalues.1 _ (closes_cons rfl _))).append ?_
        exact (spelledBefore_mark rfl _).append (ih hkeys.2 hvalues.2)
      · exact fun hnil => List.cons_ne_nil _ _ hnil
      · exact fun hnil => List.cons_ne_nil _ _ hnil

/-- **The text of a proper value has its tokens.** -/
theorem Proper.spelledBefore {json : Json} (hproper : json.Proper) :
    ∀ rest, Closes rest → SpelledBefore json.chars json.spelled rest := by
  induction hproper with
  | null =>
    intro rest hcloses
    exact tokens_scalar rfl rfl
  | bool value =>
    intro rest hcloses
    cases value with
    | false => exact tokens_scalar rfl rfl
    | true => exact tokens_scalar rfl rfl
  | number hnumeral =>
    intro rest hcloses
    exact spelledBefore_number hnumeral hcloses
  | string hparts =>
    intro rest hcloses
    exact spelledBefore_string hparts rest
  | array hitems ih =>
    intro rest hcloses
    rw [chars, spelled]
    refine (spelledBefore_mark rfl _).append ?_
    exact (spelledBefore_items ih (closes_cons rfl _)).append (spelledBefore_mark rfl _)
  | object hkeys hvalues ih =>
    intro rest hcloses
    rw [chars, spelled]
    refine (spelledBefore_mark rfl _).append ?_
    exact (spelledBefore_members hkeys ih (closes_cons rfl _)).append (spelledBefore_mark rfl _)

/-! ### Progress -/

namespace Progress

theorem readAll_cons {progress progress' : Progress} {token : Token}
    (hread : progress.read token = some progress') (tokens : List Token) :
    progress.readAll (token :: tokens) = progress'.readAll tokens := by
  rw [readAll, hread]

/-- What reading the tokens of a value does wherever a value may come. -/
def Takes (json : Json) : Prop :=
  ∀ (waiting : List Waiting) (first : Bool) (tokens : List Token),
    (value waiting first).readAll (json.spelled ++ tokens) = (complete waiting json).readAll tokens

theorem readAll_items {items : List Json} (hitems : ∀ item ∈ items, Takes item)
    (hsome : items ≠ []) (waiting : List Waiting) (before : List Json) (first : Bool)
    (tokens : List Token) :
    (value (.array before :: waiting) first).readAll
        (spelledItems items ++ .closeArray :: tokens) =
      (complete waiting (.array (before ++ items))).readAll tokens := by
  induction items generalizing before first with
  | nil => exact absurd rfl hsome
  | cons item items ih =>
    rw [List.forall_mem_cons] at hitems
    cases items with
    | nil =>
      rw [spelledItems, hitems.1]
      exact readAll_cons rfl _
    | cons next items =>
      rw [spelledItems]
      · rw [List.append_assoc, hitems.1, List.cons_append, complete, readAll_cons rfl,
          ih hitems.2 (List.cons_ne_nil _ _), List.append_assoc, List.singleton_append]
      · exact fun hnil => List.cons_ne_nil _ _ hnil

theorem readAll_member {key : List Part} {json : Json} (hvalue : Takes json)
    (waiting : List Waiting) (before : List (List Part × Json)) (first : Bool)
    (tokens : List Token) :
    (Progress.key waiting before first).readAll
        (.scalar (.string key) :: .colon :: json.spelled ++ tokens) =
      (behindMember waiting (before ++ [(key, json)])).readAll tokens := by
  rw [List.cons_append, List.cons_append, readAll_cons rfl, readAll_cons rfl, hvalue]
  rfl

theorem readAll_members {members : List (List Part × Json)}
    (hvalues : ∀ member ∈ members, Takes member.2) (hsome : members ≠ []) (waiting : List Waiting)
    (before : List (List Part × Json)) (first : Bool) (tokens : List Token) :
    (Progress.key waiting before first).readAll
        (spelledMembers members ++ .closeObject :: tokens) =
      (complete waiting (.object (before ++ members))).readAll tokens := by
  induction members generalizing before first with
  | nil => exact absurd rfl hsome
  | cons member members ih =>
    rw [List.forall_mem_cons] at hvalues
    obtain ⟨key, value⟩ := member
    cases members with
    | nil =>
      rw [spelledMembers, readAll_member hvalues.1]
      exact readAll_cons rfl _
    | cons next members =>
      rw [spelledMembers]
      · rw [List.append_assoc, readAll_member hvalues.1, List.cons_append, readAll_cons rfl,
          ih hvalues.2 (List.cons_ne_nil _ _), List.append_assoc, List.singleton_append]
      · exact fun hnil => List.cons_ne_nil _ _ hnil

/-- **Reading the tokens of a value completes it.** -/
theorem takes_of_proper {json : Json} (hproper : json.Proper) : Takes json := by
  induction hproper with
  | null => exact fun _ _ _ => rfl
  | bool value => exact fun _ _ _ => rfl
  | number hnumeral => exact fun _ _ _ => rfl
  | string hparts => exact fun _ _ _ => rfl
  | @array items hitems ih =>
    intro waiting first tokens
    rw [spelled, List.append_assoc, List.singleton_append, List.cons_append, readAll_cons rfl]
    by_cases hnil : items = []
    · subst hnil
      exact readAll_cons rfl _
    · exact readAll_items ih hnil waiting [] true tokens
  | @object members hkeys hvalues ih =>
    intro waiting first tokens
    rw [spelled, List.append_assoc, List.singleton_append, List.cons_append, readAll_cons rfl]
    by_cases hnil : members = []
    · subst hnil
      exact readAll_cons rfl _
    · exact readAll_members ih hnil waiting [] true tokens

end Progress

/-- **Written values are read back.** -/
theorem ofText?_text {json : Json} (hproper : json.Proper) : ofText? json.text = some json := by
  have htokens : tokens json.chars = some json.spelled := by
    have hspelled := hproper.spelledBefore [] rfl
    rwa [SpelledBefore, List.append_nil, tokens, Option.map_some, List.append_nil] at hspelled
  have hread : Progress.readAll (.value [] false) json.spelled = some (.done json) := by
    have htakes := Progress.takes_of_proper hproper [] false []
    rwa [List.append_nil] at htakes
  rw [ofText?, text, String.toList_ofList, htokens, Option.bind_some, ofTokens?, hread]

end Json

end WidgetStyle

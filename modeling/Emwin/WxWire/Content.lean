import Emwin.WxWire.Transport

/-! Well-formed content as the server sends it: elements, the tokens they are written with,
and where a read can cut them.
-/

namespace Emwin.WxWire
open Library

inductive Token where
  | text (chars : Text)
  | markup (piece : Markup)
  deriving DecidableEq, Repr

namespace Token

def render : Token → Text
  | .text chars => chars
  | .markup piece => piece.render

def Valid : Token → Prop
  | .text chars => ∀ c ∈ chars, isTextChar c = true
  | .markup piece => piece.Valid

/-- The elements that are open after a token, if it may stand there. -/
def apply (opened : List Text) : Token → Option (List Text)
  | .text chars => if opened = [] ∧ ¬ chars.all isAsciiWhitespace then none else some opened
  | .markup (.start name _) =>
      if opened = [] ∧ name = streamTag then none else some (name :: opened)
  | .markup (.empty name _) => if opened = [] ∧ name = streamTag then none else some opened
  | .markup (.close name _) => if opened.head? = some name then some opened.tail else none
  | .markup _ => if opened = [] then none else some opened

/-- The token is the last one of a top-level element. -/
def completes (opened : List Text) : Token → Bool
  | .markup (.empty _ _) => opened.isEmpty
  | .markup (.close _ _) => opened.length = 1
  | _ => false

theorem apply_of_completes {opened next : List Text} {token : Token}
    (completes : token.completes opened = true) (applied : token.apply opened = some next)
    : next = [] := by
  unfold Token.completes at completes
  split at completes
  · obtain rfl := List.isEmpty_iff.mp completes
    simp only [apply] at applied
    split_ifs at applied
    exact (Option.some.inj applied).symm
  · obtain ⟨name, rfl⟩ := List.length_eq_one_iff.mp (by simpa using completes)
    simp only [apply] at applied
    split_ifs at applied
    exact (Option.some.inj applied).symm
  · exact absurd completes (by simp)

end Token

def renderAll (tokens : List Token) : Text := tokens.flatMap Token.render

@[simp] theorem renderAll_nil : renderAll [] = [] := rfl

@[simp] theorem renderAll_cons (token : Token) (tokens : List Token)
    : renderAll (token :: tokens) = token.render ++ renderAll tokens := rfl

@[simp] theorem renderAll_append (left right : List Token)
    : renderAll (left ++ right) = renderAll left ++ renderAll right :=
  List.flatMap_append

/-- The elements that are open after some tokens. -/
def flow : List Text → List Token → Option (List Text)
  | opened, [] => some opened
  | opened, token :: tokens => (token.apply opened).bind fun next => flow next tokens

/-- The same if none of them completes a top-level element. -/
def quietly : List Text → List Token → Option (List Text)
  | opened, [] => some opened
  | opened, token :: tokens =>
      if token.completes opened then none
      else (token.apply opened).bind fun next => quietly next tokens

theorem flow_append (opened : List Text) (left right : List Token)
    : flow opened (left ++ right) = (flow opened left).bind fun next => flow next right := by
  induction left generalizing opened with
  | nil => rfl
  | cons token left ih =>
      rw [List.cons_append, flow, flow, Option.bind_assoc]
      congr 1
      funext next
      exact ih next

theorem flow_of_quietly {opened last : List Text} {tokens : List Token}
    (quiet : quietly opened tokens = some last)
    : flow opened tokens = some last := by
  induction tokens generalizing opened with
  | nil => exact quiet
  | cons token tokens ih =>
      rw [quietly] at quiet
      split_ifs at quiet
      obtain ⟨next, applied, later⟩ := Option.bind_eq_some_iff.mp quiet
      rw [flow, applied]
      exact ih later

/-- Tokens up to the first that completes a top-level element, by induction on them. -/
theorem flow_cases {opened last : List Text} {tokens : List Token}
    (flows : flow opened tokens = some last)
    : quietly opened tokens = some last
      ∨ ∃ before token after middle,
          tokens = before ++ token :: after ∧ quietly opened before = some middle
          ∧ token.completes middle = true ∧ token.apply middle = some []
          ∧ flow [] after = some last := by
  induction tokens generalizing opened with
  | nil => exact .inl flows
  | cons token tokens ih =>
      obtain ⟨next, applied, later⟩ := Option.bind_eq_some_iff.mp flows
      cases completes : token.completes opened with
      | true =>
          obtain rfl := Token.apply_of_completes completes applied
          exact .inr ⟨[], token, tokens, opened, rfl, rfl, completes, applied, later⟩
      | false =>
          have first {tokens : List Token}
              : quietly opened (token :: tokens) = quietly next tokens := by
            rw [quietly, if_neg (by simp [completes]), applied, Option.bind_some]
          rcases ih later with quiet | ⟨before, found, after, middle, rfl, quiet, rest⟩
          · exact .inl (first.trans quiet)
          · exact .inr ⟨token :: before, found, after, middle, rfl, first.trans quiet, rest⟩

-----------------------------------------------------------------------------------------
-- Elements
-----------------------------------------------------------------------------------------

/-- What stands between the tags of an element. -/
inductive Content where
  | nil
  | text (chars : Text) (rest : Content)
  | other (piece : Markup) (rest : Content)
  | empty (name attributes : Text) (rest : Content)
  | element (name attributes : Text) (content : Content) (space : Text) (rest : Content)
  deriving DecidableEq, Repr

def isTag : Markup → Bool
  | .start _ _ | .empty _ _ | .close _ _ => true
  | _ => false

namespace Content

def tokens : Content → List Token
  | .nil => []
  | .text chars rest => .text chars :: rest.tokens
  | .other piece rest => .markup piece :: rest.tokens
  | .empty name attributes rest => .markup (.empty name attributes) :: rest.tokens
  | .element name attributes content space rest =>
      .markup (.start name attributes)
        :: (content.tokens ++ .markup (.close name space) :: rest.tokens)

def Valid : Content → Prop
  | .nil => True
  | .text chars rest => (Token.text chars).Valid ∧ rest.Valid
  | .other piece rest => piece.Valid ∧ isTag piece = false ∧ rest.Valid
  | .empty name attributes rest => (Markup.empty name attributes).Valid ∧ rest.Valid
  | .element name attributes content space rest =>
      (Markup.start name attributes).Valid ∧ (Markup.close name space).Valid ∧ content.Valid
      ∧ rest.Valid

/-- The tokens of valid content are valid, by induction on it. -/
theorem tokens_valid {content : Content} (valid : content.Valid)
    : ∀ token ∈ content.tokens, token.Valid := by
  induction content with
  | nil => simp [tokens]
  | text chars rest ih =>
      rintro _ (_ | ⟨_, member⟩)
      · exact valid.1
      · exact ih valid.2 _ member
  | other piece rest ih =>
      rintro _ (_ | ⟨_, member⟩)
      · exact valid.1
      · exact ih valid.2.2 _ member
  | empty name attributes rest ih =>
      rintro _ (_ | ⟨_, member⟩)
      · exact valid.1
      · exact ih valid.2 _ member
  | element name attributes content space rest ihContent ihRest =>
      obtain ⟨start, close, inner, later⟩ := valid
      rintro _ (_ | ⟨_, member⟩)
      · exact start
      · rcases List.mem_append.mp member with member | (_ | ⟨_, member⟩)
        · exact ihContent inner _ member
        · exact close
        · exact ihRest later _ member

/-- Content leaves the elements around it open, by induction on it. -/
theorem quietly_tokens {content : Content} (valid : content.Valid) {opened : List Text}
    (inside : opened ≠ []) (later : List Token)
    : quietly opened (content.tokens ++ later) = quietly opened later := by
  induction content generalizing opened later with
  | nil => rfl
  | text chars rest ih =>
      rw [tokens, List.cons_append, quietly]
      simpa [Token.completes, Token.apply, inside] using ih valid.2 inside later
  | other piece rest ih =>
      obtain ⟨-, noTag, validRest⟩ := valid
      rw [tokens, List.cons_append, quietly]
      cases piece with
      | start | empty | close => exact absurd noTag (by simp [isTag])
      | reference | comment | cdata | instruction =>
          simpa [Token.completes, Token.apply, inside] using ih validRest inside later
  | empty name attributes rest ih =>
      rw [tokens, List.cons_append, quietly]
      simpa [Token.completes, Token.apply, inside] using ih valid.2 inside later
  | element name attributes content space rest ihContent ihRest =>
      obtain ⟨-, -, validInner, validRest⟩ := valid
      have deeper : (name :: opened).length ≠ 1 := by simp [inside]
      rw [tokens, List.cons_append, quietly, List.append_assoc]
      simp only [Token.completes, Token.apply, inside, false_and, if_false,
        Bool.false_eq_true, Option.bind_some]
      rw [ihContent validInner (List.cons_ne_nil _ _), List.cons_append, quietly]
      simpa [Token.completes, Token.apply, inside] using ihRest validRest inside later

end Content

/-- A top-level element. -/
inductive Element where
  | empty (name attributes : Text)
  | element (name attributes : Text) (content : Content) (space : Text)
  deriving DecidableEq, Repr

namespace Element

def name : Element → Text
  | .empty name _ | .element name _ _ _ => name

def tokens : Element → List Token
  | .empty name attributes => [.markup (.empty name attributes)]
  | .element name attributes content space =>
      .markup (.start name attributes) :: (content.tokens ++ [.markup (.close name space)])

def render (element : Element) : Text := renderAll element.tokens

/-- Well-formed, and not the stream itself. -/
def Valid : Element → Prop
  | .empty name attributes => (Markup.empty name attributes).Valid ∧ name ≠ streamTag
  | .element name attributes content space =>
      (Markup.start name attributes).Valid ∧ (Markup.close name space).Valid ∧ content.Valid
      ∧ name ≠ streamTag

theorem tokens_valid {element : Element} (valid : element.Valid)
    : ∀ token ∈ element.tokens, token.Valid := by
  cases element with
  | empty name attributes =>
      intro token member
      obtain rfl := List.mem_singleton.mp member
      exact valid.1
  | element name attributes content space =>
      obtain ⟨start, close, inner, -⟩ := valid
      rintro _ (_ | ⟨_, member⟩)
      · exact start
      · rcases List.mem_append.mp member with member | member
        · exact Content.tokens_valid inner _ member
        · obtain rfl := List.mem_singleton.mp member
          exact close

/-- The last token of an element, and only that one, completes it. -/
theorem completed {element : Element} (valid : element.Valid)
    : ∃ before token middle,
        element.tokens = before ++ [token] ∧ quietly [] before = some middle
        ∧ token.completes middle = true ∧ token.apply middle = some [] := by
  cases element with
  | empty name attributes =>
      refine ⟨[], .markup (.empty name attributes), [], rfl, rfl, rfl, ?_⟩
      simp [Token.apply, valid.2]
  | element name attributes content space =>
      obtain ⟨-, -, inner, noStream⟩ := valid
      refine ⟨.markup (.start name attributes) :: content.tokens, .markup (.close name space),
        [name], rfl, ?_, rfl, ?_⟩
      · have content := Content.quietly_tokens inner (List.cons_ne_nil name []) []
        rw [List.append_nil] at content
        rw [quietly]
        simpa [Token.completes, Token.apply, noStream, quietly] using content
      · simp [Token.apply]

theorem flow_tokens {element : Element} (valid : element.Valid)
    : flow [] element.tokens = some [] := by
  obtain ⟨before, token, middle, tokens, quiet, -, applied⟩ := completed valid
  rw [tokens, flow_append, flow_of_quietly quiet, Option.bind_some, flow, applied]
  rfl

end Element

/-- What a server sends: top-level elements, with white space before each of them and behind
the last.
-/
structure Sent where
  elements : List (Text × Element)
  last : Text
  valid : ∀ item ∈ elements, item.2.Valid
  spaces : ∀ item ∈ elements, item.1.all isAsciiWhitespace = true
  lastSpaces : last.all isAsciiWhitespace = true

namespace Sent

def itemTokens (item : Text × Element) : List Token := .text item.1 :: item.2.tokens

def tokens (sent : Sent) : List Token :=
  sent.elements.flatMap itemTokens ++ [.text sent.last]

def wire (sent : Sent) : Text := renderAll sent.tokens

/-- The top-level elements as they were written. -/
def stanzas (sent : Sent) : List Text := sent.elements.map fun item => item.2.render

theorem isTextChar_of_whitespace {text : Text} (spaces : text.all isAsciiWhitespace = true)
    : (Token.text text).Valid := by
  intro c member
  have space := List.all_eq_true.mp spaces c member
  unfold isAsciiWhitespace at space
  unfold isTextChar
  simp only [Bool.or_eq_true, decide_eq_true_eq] at space
  rcases space with (((rfl | rfl) | rfl) | rfl) | rfl <;> decide

theorem tokens_valid (sent : Sent) : ∀ token ∈ sent.tokens, token.Valid := by
  intro token member
  rcases List.mem_append.mp member with member | member
  · obtain ⟨item, listed, inside⟩ := List.mem_flatMap.mp member
    rcases List.mem_cons.mp inside with rfl | inside
    · exact isTextChar_of_whitespace (sent.spaces item listed)
    · exact Element.tokens_valid (sent.valid item listed) token inside
  · obtain rfl := List.mem_singleton.mp member
    exact isTextChar_of_whitespace sent.lastSpaces

theorem flow_tokens (sent : Sent) : flow [] sent.tokens = some [] := by
  obtain ⟨elements, last, valid, spaces, lastSpaces⟩ := sent
  induction elements with
  | nil => simp [tokens, flow, Token.apply, lastSpaces]
  | cons item elements ih =>
      have later := ih (fun other member => valid other (by simp [member]))
        fun other member => spaces other (by simp [member])
      have space : (Token.text item.1).apply [] = some [] := by
        simp [Token.apply, spaces item (by simp)]
      simp only [tokens] at later ⊢
      rw [List.flatMap_cons, List.append_assoc, itemTokens, List.cons_append, flow, space,
        Option.bind_some, flow_append, Element.flow_tokens (valid item (by simp)),
        Option.bind_some]
      exact later

end Sent

-----------------------------------------------------------------------------------------
-- Where reads end
-----------------------------------------------------------------------------------------

/-- The bytes end between two tokens, or inside a run of text between two characters. -/
def Clean (tokens : List Token) (bytes : Bytes) : Prop :=
  ∃ done rest piece,
    tokens = done ++ rest ∧ bytes = toUtf8 (renderAll done ++ piece)
    ∧ (piece = [] ∨ ∃ chars later, rest = .text chars :: later ∧ piece <+: chars)

theorem Clean.cons {tokens : List Token} {bytes : Bytes} (clean : Clean tokens bytes)
    (token : Token)
    : Clean (token :: tokens) (toUtf8 token.render ++ bytes) := by
  obtain ⟨done, rest, piece, rfl, rfl, inText⟩ := clean
  refine ⟨token :: done, rest, piece, rfl, ?_, inText⟩
  rw [renderAll_cons, List.append_assoc, toUtf8_append token.render]

/-- The two ways a read can end: in text, possibly inside a character of an element's text, or
inside markup.
-/
inductive Cut (opened last : List Text) (tokens : List Token) (before after : Bytes) : Prop
  | soft (done later : List Token) (middle : List Text) (part rest : Bytes)
    (doneFlow : flow opened done = some middle) (laterFlow : flow middle later = some last)
    (doneValid : ∀ token ∈ done, token.Valid) (laterValid : ∀ token ∈ later, token.Valid)
    (front : before = toUtf8 (renderAll done) ++ part)
    (back : after = rest ++ toUtf8 (renderAll later))
    (high : ∀ byte ∈ part, ¬ byte < 0x80)
    (continues : ∀ byte ∈ rest, isContinuation byte = true)
    (inElement : part ≠ [] ∨ rest ≠ [] → middle ≠ [])
    (clean : rest = [] → Clean tokens before)
  | hard (done : List Token) (middle : List Text) (start : Text) (part : Bytes)
    (doneFlow : flow opened done = some middle) (doneValid : ∀ token ∈ done, token.Valid)
    (front : before = toUtf8 (renderAll done ++ start) ++ part)
    (high : ∀ byte ∈ part, ¬ byte < 0x80)
    (unclosed : ∀ more : Text, (∀ c ∈ more, ¬ c.toNat < 0x80) → Unclosed (start ++ more))
    (lost : start.head? = some '<' ∨ middle ≠ [])

theorem isAsciiWhitespace_ascii (c : Char) (space : isAsciiWhitespace c = true)
    : c.toNat < 0x80 := by
  unfold isAsciiWhitespace at space
  simp only [Bool.or_eq_true, decide_eq_true_eq] at space
  rcases space with (((rfl | rfl) | rfl) | rfl) | rfl <;> decide

/-- A cut inside a text, or at its ends: the two parts of it are texts too. -/
theorem cut_text {opened next last : List Text} {chars : Text} {tokens : List Token}
    {before more : Bytes} (applied : (Token.text chars).apply opened = some next)
    (flows : flow next tokens = some last) (tokenValid : (Token.text chars).Valid)
    (valid : ∀ token ∈ tokens, token.Valid) (whole : toUtf8 chars = before ++ more)
    : Cut opened last (.text chars :: tokens) before (more ++ toUtf8 (renderAll tokens)) := by
  have stays : next = opened ∧ (opened = [] → chars.all isAsciiWhitespace = true) := by
    simp only [Token.apply] at applied
    split_ifs at applied with top
    exact ⟨(Option.some.inj applied).symm, by simpa using top⟩
  obtain ⟨rfl, spaces⟩ := stays
  have applies {part : Text} (inside : part ⊆ chars)
      : (Token.text part).apply next = some next := by
    refine if_neg fun top => top.2 (List.all_eq_true.mpr fun c member => ?_)
    exact List.all_eq_true.mp (spaces top.1) c (inside member)
  have validPart {part : Text} (inside : part ⊆ chars) : (Token.text part).Valid :=
    fun c member => tokenValid c (inside member)
  have laterValid {part : Text} (inside : part ⊆ chars)
      : ∀ token ∈ Token.text part :: tokens, token.Valid := by
    rintro _ (_ | ⟨_, member⟩)
    · exact validPart inside
    · exact valid _ member
  cases utf8Cut whole with
  | @between left right split =>
      have insideLeft : left ⊆ chars := by simp [split]
      have insideRight : right ⊆ chars := by simp [split]
      refine .soft [.text left] (.text right :: tokens) next [] [] ?_ ?_ ?_
        (laterValid insideRight) (by simp [Token.render])
        (by simp [Token.render, toUtf8_append])
        (by simp) (by simp) (by simp) ?_
      · simp [flow, applies insideLeft]
      · simp [flow, applies insideRight, flows]
      · simpa using validPart insideLeft
      · intro _
        refine ⟨[], .text chars :: tokens, left, rfl, rfl, .inr ⟨chars, tokens, rfl, ?_⟩⟩
        exact ⟨right, split.symm⟩
  | @inside left right c part rest split started unfinished outside high continues =>
      have insideLeft : left ⊆ chars := by simp [split]
      have insideRight : right ⊆ chars := by
        rw [split]
        exact fun other member => by simp [member]
      refine .soft [.text left] (.text right :: tokens) next part rest ?_ ?_ ?_
        (laterValid insideRight) (by simp [Token.render])
        (by simp [Token.render, toUtf8_append])
        high continues ?_ (fun none => absurd none unfinished)
      · simp [flow, applies insideLeft]
      · simp [flow, applies insideRight, flows]
      · simpa using validPart insideLeft
      · -- between elements there is only white space
        rintro - rfl
        have space := List.all_eq_true.mp (spaces rfl) c (by simp [split])
        exact outside (isAsciiWhitespace_ascii c space)

/-- A cut inside markup, which is lost. -/
theorem cut_inside_markup {opened last : List Text} {piece : Markup} {tokens : List Token}
    (inElement : piece.lead.1 = '<' ∨ opened ≠ []) (valid : piece.Valid) {start rest : Text}
    (part : Bytes) (nonempty : start ≠ []) (proper : rest ≠ [])
    (split : piece.render = start ++ rest) (high : ∀ byte ∈ part, ¬ byte < 0x80) (after : Bytes)
    : Cut opened last (.markup piece :: tokens) (toUtf8 start ++ part) after := by
  have lost : start.head? = some '<' ∨ opened ≠ [] := by
    refine inElement.imp_left fun first => ?_
    obtain ⟨c, start, rfl⟩ := List.exists_cons_of_ne_nil nonempty
    obtain ⟨same, -⟩ := List.cons.inj split
    rw [← same, first]
    rfl
  refine .hard [] opened start part rfl (by simp) rfl high ?_ lost
  intro more outside
  exact Markup.unclosed_of_part valid nonempty proper split outside

/-- A cut inside markup, or at its ends. -/
theorem cut_markup {opened next last : List Text} {piece : Markup} {tokens : List Token}
    {before more : Bytes} (applied : (Token.markup piece).apply opened = some next)
    (flows : flow next tokens = some last) (pieceValid : piece.Valid)
    (valid : ∀ token ∈ tokens, token.Valid) (whole : toUtf8 piece.render = before ++ more)
    : Cut opened last (.markup piece :: tokens) before (more ++ toUtf8 (renderAll tokens)) := by
  have inElement : piece.lead.1 = '<' ∨ opened ≠ [] := by
    cases piece with
    | reference =>
        simp only [Token.apply] at applied
        split_ifs at applied with top
        exact .inr top
    | _ => exact .inl rfl
  cases utf8Cut whole with
  | @between left right split =>
      by_cases first : left = []
      · subst first
        refine .soft [] (.markup piece :: tokens) opened [] [] rfl ?_ (by simp) ?_ rfl ?_
          (by simp) (by simp) (by simp) ?_
        · rw [flow, applied]
          exact flows
        · rintro _ (_ | ⟨_, member⟩)
          · exact pieceValid
          · exact valid _ member
        · rw [← List.nil_append right, ← split, renderAll_cons, toUtf8_append]
          rfl
        · exact fun _ => ⟨[], .markup piece :: tokens, [], rfl, rfl, .inl rfl⟩
      · by_cases final : right = []
        · subst final
          rw [List.append_nil] at split
          refine .soft [.markup piece] tokens next [] [] ?_ flows ?_ valid ?_ rfl
            (by simp) (by simp) (by simp) ?_
          · simp [flow, applied]
          · intro token member
            obtain rfl := List.mem_singleton.mp member
            exact pieceValid
          · simp [Token.render, split]
          · intro _
            refine ⟨[.markup piece], tokens, [], rfl, ?_, .inl rfl⟩
            simp [Token.render, split]
        · have cut := @cut_inside_markup opened last piece tokens inElement pieceValid _ _ []
            first final split (by simp) (toUtf8 right ++ toUtf8 (renderAll tokens))
          rwa [List.append_nil] at cut
  | @inside left right c part rest split started unfinished outside high continues =>
      refine cut_inside_markup inElement pieceValid part ?_ (List.cons_ne_nil _ _) split high _
      -- the first character of markup is in ASCII
      rintro rfl
      obtain ⟨same, -⟩ := List.cons.inj split
      refine outside ?_
      rw [← same]
      cases piece <;> simp only [Markup.lead] <;> decide

/-- A cut inside one token, or at its ends. -/
theorem cut_token {opened next last : List Text} {token : Token} {tokens : List Token}
    {before more : Bytes} (applied : token.apply opened = some next)
    (flows : flow next tokens = some last) (tokenValid : token.Valid)
    (valid : ∀ token ∈ tokens, token.Valid) (whole : toUtf8 token.render = before ++ more)
    : Cut opened last (token :: tokens) before (more ++ toUtf8 (renderAll tokens)) := by
  cases token with
  | text chars => exact cut_text applied flows tokenValid valid whole
  | markup piece => exact cut_markup applied flows tokenValid valid whole

/-- Every read ends in one of the two ways, by induction on the tokens. -/
theorem cut {opened last : List Text} {tokens : List Token} {before after : Bytes}
    (flows : flow opened tokens = some last) (valid : ∀ token ∈ tokens, token.Valid)
    (whole : toUtf8 (renderAll tokens) = before ++ after)
    : Cut opened last tokens before after := by
  induction tokens generalizing opened before with
  | nil =>
      obtain ⟨rfl, rfl⟩ := List.append_eq_nil_iff.mp whole.symm
      exact .soft [] [] opened [] [] rfl flows (by simp) (by simp) rfl rfl (by simp) (by simp)
        (by simp) fun _ => ⟨[], [], [], rfl, rfl, .inl rfl⟩
  | cons token tokens ih =>
      obtain ⟨next, applied, flows⟩ := Option.bind_eq_some_iff.mp flows
      have tokenValid := valid token (by simp)
      have valid : ∀ token ∈ tokens, token.Valid :=
        fun other member => valid other (by simp [member])
      rw [renderAll_cons, toUtf8_append] at whole
      rcases List.append_eq_append_iff.mp whole with ⟨more, rfl, back⟩ | ⟨more, front, rfl⟩
      · have starts {done : List Token} {middle : List Text}
            (doneFlow : flow next done = some middle)
            : flow opened (token :: done) = some middle := by
          rw [flow, applied]
          exact doneFlow
        have validDone {done : List Token} (doneValid : ∀ token ∈ done, token.Valid)
            : ∀ other ∈ token :: done, other.Valid := by
          rintro _ (_ | ⟨_, member⟩)
          · exact tokenValid
          · exact doneValid _ member
        cases ih flows valid back with
        | soft done later middle part rest doneFlow laterFlow doneValid laterValid front back high
            continues inElement clean =>
            refine .soft (token :: done) later middle part rest (starts doneFlow) laterFlow
              (validDone doneValid) laterValid ?_ back high continues inElement
              fun none => (clean none).cons token
            rw [front, renderAll_cons, toUtf8_append, List.append_assoc]
        | hard done middle start part doneFlow doneValid front high unclosed lost =>
            refine .hard (token :: done) middle start part (starts doneFlow)
              (validDone doneValid) ?_ high unclosed lost
            rw [front, renderAll_cons, List.append_assoc, toUtf8_append token.render,
              List.append_assoc]
      · exact cut_token applied flows tokenValid valid front

end Emwin.WxWire

import Emwin.Library.Utf8

/-! How XML markup is cut out of a text: a small automaton that says where a piece of markup
is closed, and the pieces of well-formed content.
-/

namespace Library

/-- White space between the parts of a tag. -/
def isXmlSpace (c : Char) : Bool := c = ' ' || c = '\t' || c = '\n' || c = '\r'

/-- Inside a piece of markup, after its first character. -/
inductive Lexing where
  | opened
  | tag (quote : Option Char)
  | plain
  | bang
  | dash
  | comment (dashes : Nat)
  | cdata (brackets : Nat)
  | instruction (mark : Bool)
  | reference
  deriving DecidableEq, Repr

namespace Lexing

/-- The next character of a tag: a quote starts a value that ends with the same quote. -/
def stepTag (quote : Option Char) (c : Char) : Option Lexing :=
  match quote with
  | some q => some (.tag (if c = q then none else some q))
  | none =>
      if c = '>' then none
      else some (.tag (if c = '\'' || c = '"' then some c else none))

/-- The next character; no state if it closes the markup. -/
def step : Lexing → Char → Option Lexing
  | .opened, c =>
      if c = '!' then some .bang
      else if c = '?' then some (.instruction false)
      else if c = '/' then some .plain
      else stepTag none c
  | .tag quote, c => stepTag quote c
  | .plain, c => if c = '>' then none else some .plain
  | .bang, c =>
      if c = '-' then some .dash
      else if c = '[' then some (.cdata 0)
      else if c = '>' then none
      else some .plain
  | .dash, c => some (if c = '-' then .comment 0 else .plain)
  | .comment dashes, c =>
      if c = '-' then some (.comment (min 2 (dashes + 1)))
      else if c = '>' ∧ dashes = 2 then none
      else some (.comment 0)
  | .cdata brackets, c =>
      if c = ']' then some (.cdata (min 2 (brackets + 1)))
      else if c = '>' ∧ brackets = 2 then none
      else some (.cdata 0)
  | .instruction mark, c =>
      if c = '>' ∧ mark then none else some (.instruction (c = '?'))
  | .reference, c => if c = ';' then none else some .reference

/-- After some characters that do not close the markup. -/
def after : Lexing → Text → Option Lexing
  | state, [] => some state
  | state, c :: rest => (state.step c).bind fun next => next.after rest

/-- The number of characters up to the one that closes the markup. -/
def closesAt : Lexing → Text → Option Nat
  | _, [] => none
  | state, c :: rest =>
      match state.step c with
      | none => some 1
      | some next => (next.closesAt rest).map (· + 1)

variable {state last : Lexing} {front : Text}

attribute [local simp] after closesAt step stepTag in
theorem closesAt_le {text : Text} {count : Nat} (closes : state.closesAt text = some count)
    : 0 < count ∧ count ≤ text.length := by
  induction text generalizing state count with
  | nil => exact absurd closes (by simp [closesAt])
  | cons c rest ih =>
      rw [closesAt] at closes
      split at closes
      · obtain rfl := Option.some.inj closes
        simp
      · obtain ⟨later, inside, rfl⟩ := Option.map_eq_some_iff.mp closes
        have bounds := ih inside
        simp only [List.length_cons]
        omega

theorem after_append (state : Lexing) (front back : Text)
    : state.after (front ++ back) = (state.after front).bind fun next => next.after back := by
  induction front generalizing state with
  | nil => rfl
  | cons c front ih =>
      rw [List.cons_append, after, after, Option.bind_assoc]
      congr 1
      funext next
      exact ih next

/-- Markup that is still open closes in what follows, by induction on the front. -/
theorem closesAt_append (still : state.after front = some last) (back : Text)
    : state.closesAt (front ++ back) = (last.closesAt back).map (· + front.length) := by
  induction front generalizing state with
  | nil =>
      obtain rfl := Option.some.inj still
      simp
  | cons c front ih =>
      obtain ⟨next, stepped, still⟩ := Option.bind_eq_some_iff.mp still
      rw [List.cons_append, closesAt, stepped]
      simp only [ih still, Option.map_map]
      congr 1

/-- Markup is open after a text exactly if it does not close in it, by induction on the text. -/
theorem after_isSome_iff (state : Lexing) (text : Text)
    : (state.after text).isSome = true ↔ state.closesAt text = none := by
  induction text generalizing state with
  | nil => simp [after, closesAt]
  | cons c rest ih =>
      rw [after, closesAt]
      cases state.step c with
      | none => simp
      | some next => simpa using ih next

/-- Only certain ASCII characters close markup. -/
theorem step_isSome {c : Char} (high : ¬ c.toNat < 0x80) : (state.step c).isSome = true := by
  have greater : c ≠ '>' := fun same => high (by rw [same]; decide)
  have semicolon : c ≠ ';' := fun same => high (by rw [same]; decide)
  cases state with
  | tag quote => cases quote <;> simp [step, stepTag, greater]
  | opened => simp only [step, stepTag, greater, if_false]; split_ifs <;> rfl
  | plain => simp [step, greater]
  | bang => simp only [step, greater, if_false]; split_ifs <;> rfl
  | dash => rfl
  | comment dashes => simp only [step, greater]; split_ifs <;> simp_all
  | cdata brackets => simp only [step, greater]; split_ifs <;> simp_all
  | instruction mark => simp [step, greater]
  | reference => simp [step, semicolon]

theorem after_isSome_of_high {text : Text} (high : ∀ c ∈ text, ¬ c.toNat < 0x80)
    : (state.after text).isSome = true := by
  induction text generalizing state with
  | nil => rfl
  | cons c rest ih =>
      obtain ⟨next, stepped⟩ := Option.isSome_iff_exists.mp (step_isSome (high c (by simp)))
      rw [after, stepped]
      exact ih fun other member => high other (by simp [member])

end Lexing

-----------------------------------------------------------------------------------------
-- Pieces of markup
-----------------------------------------------------------------------------------------

inductive Markup where
  | start (name attributes : Text)
  | empty (name attributes : Text)
  | close (name space : Text)
  | reference (body : Text)
  | comment (body : Text)
  | cdata (body : Text)
  | instruction (body : Text)
  deriving DecidableEq, Repr

namespace Markup

/-- The first character, and how the markup goes on. -/
def lead : Markup → Char × Lexing
  | .reference _ => ('&', .reference)
  | _ => ('<', .opened)

/-- What stands between the first character and the last. -/
def body : Markup → Text
  | .start name attributes => name ++ attributes
  | .empty name attributes => name ++ (attributes ++ ['/'])
  | .close name space => '/' :: (name ++ space)
  | .reference body => body
  | .comment body => '!' :: '-' :: '-' :: (body ++ ['-', '-'])
  | .cdata body => '!' :: '[' :: 'C' :: 'D' :: 'A' :: 'T' :: 'A' :: '[' :: (body ++ [']', ']'])
  | .instruction body => '?' :: (body ++ ['?'])

def last : Markup → Char
  | .reference _ => ';'
  | _ => '>'

def render (markup : Markup) : Text := markup.lead.1 :: (markup.body ++ [markup.last])

/-- A character that can stand in a name. -/
def nameChar (c : Char) : Bool :=
  !isXmlSpace c && c ∉ ['<', '>', '/', '=', '\'', '"', '&']

structure ValidName (name : Text) : Prop where
  nonempty : name ≠ []
  chars : ∀ c ∈ name, nameChar c = true
  first : ∀ c, name.head? = some c → c ≠ '!' ∧ c ≠ '?'

/-- The attributes of a tag with the space before and behind them: quotes are closed, and the
tag is not.
-/
structure ValidAttributes (attributes : Text) : Prop where
  space : ∀ c, attributes.head? = some c → isXmlSpace c = true
  quoted : (Lexing.tag none).after attributes = some (.tag none)

/-- Markup as well-formed content has it. -/
def Valid : Markup → Prop
  | .start name attributes =>
      ValidName name ∧ ValidAttributes attributes ∧ attributes.getLast? ≠ some '/'
  | .empty name attributes => ValidName name ∧ ValidAttributes attributes
  | .close name space => ValidName name ∧ ∀ c ∈ space, isXmlSpace c = true
  | .reference body => body ≠ [] ∧ ∀ c ∈ body, c ∉ [';', '&', '<']
  | .comment body => (Lexing.comment 0).closesAt body = none
  | .cdata body => (Lexing.cdata 0).closesAt body = none
  | .instruction body => (Lexing.instruction false).closesAt body = none

theorem step_tag_nameChar {c : Char} (name : nameChar c = true)
    : (Lexing.tag none).step c = some (.tag none) := by
  have others : c ≠ '>' ∧ c ≠ '\'' ∧ c ≠ '"' := by
    refine ⟨?_, ?_, ?_⟩ <;> rintro rfl <;> exact absurd name (by decide)
  simp [Lexing.step, Lexing.stepTag, others]

theorem after_tag_name {name : Text} (chars : ∀ c ∈ name, nameChar c = true)
    : (Lexing.tag none).after name = some (.tag none) := by
  induction name with
  | nil => rfl
  | cons c name ih =>
      rw [Lexing.after, step_tag_nameChar (chars c (by simp))]
      exact ih fun other member => chars other (by simp [member])

/-- A name right behind the first character makes a tag. -/
theorem after_opened_name {name : Text} (valid : ValidName name)
    : Lexing.opened.after name = some (.tag none) := by
  cases name with
  | nil => exact absurd rfl valid.nonempty
  | cons c name =>
      have nameC := valid.chars c (by simp)
      have slash : c ≠ '/' := by rintro rfl; exact absurd nameC (by decide)
      have stepped : Lexing.opened.step c = some (.tag none) := by
        have first := valid.first c rfl
        rw [← step_tag_nameChar nameC]
        simp [Lexing.step, first, slash]
      rw [Lexing.after, stepped]
      exact after_tag_name fun other member => valid.chars other (by simp [member])

theorem after_plain {text : Text} (chars : ∀ c ∈ text, c ≠ '>')
    : Lexing.plain.after text = some .plain := by
  induction text with
  | nil => rfl
  | cons c text ih =>
      have stepped : Lexing.plain.step c = some .plain := if_neg (chars c (by simp))
      rw [Lexing.after, stepped]
      exact ih fun other member => chars other (by simp [member])

theorem after_reference {text : Text} (chars : ∀ c ∈ text, c ≠ ';')
    : Lexing.reference.after text = some .reference := by
  induction text with
  | nil => rfl
  | cons c text ih =>
      have stepped : Lexing.reference.step c = some .reference := if_neg (chars c (by simp))
      rw [Lexing.after, stepped]
      exact ih fun other member => chars other (by simp [member])

/-- A comment stays one until it closes, by induction on the text. -/
theorem after_comment {dashes : Nat} {text : Text}
    (still : (Lexing.comment dashes).closesAt text = none) (few : dashes ≤ 2)
    : ∃ now ≤ 2, (Lexing.comment dashes).after text = some (.comment now) := by
  induction text generalizing dashes with
  | nil => exact ⟨dashes, few, rfl⟩
  | cons c text ih =>
      rw [Lexing.closesAt] at still
      rw [Lexing.after]
      simp only [Lexing.step] at still ⊢
      split_ifs at still ⊢ with dash closes
      · exact ih (by simpa using still) (by omega)
      · exact ih (by simpa using still) (by omega)

theorem after_cdata {brackets : Nat} {text : Text}
    (still : (Lexing.cdata brackets).closesAt text = none) (few : brackets ≤ 2)
    : ∃ now ≤ 2, (Lexing.cdata brackets).after text = some (.cdata now) := by
  induction text generalizing brackets with
  | nil => exact ⟨brackets, few, rfl⟩
  | cons c text ih =>
      rw [Lexing.closesAt] at still
      rw [Lexing.after]
      simp only [Lexing.step] at still ⊢
      split_ifs at still ⊢ with bracket closes
      · exact ih (by simpa using still) (by omega)
      · exact ih (by simpa using still) (by omega)

theorem after_instruction {mark : Bool} {text : Text}
    (still : (Lexing.instruction mark).closesAt text = none)
    : ∃ now, (Lexing.instruction mark).after text = some (.instruction now) := by
  induction text generalizing mark with
  | nil => exact ⟨mark, rfl⟩
  | cons c text ih =>
      rw [Lexing.closesAt] at still
      rw [Lexing.after]
      simp only [Lexing.step] at still ⊢
      split_ifs at still ⊢ with closes
      exact ih (by simpa using still)

/-- Valid markup is open up to its last character, which closes it. By cases on the markup. -/
theorem after_body {markup : Markup} (valid : markup.Valid)
    : ∃ state, markup.lead.2.after markup.body = some state ∧ state.step markup.last = none := by
  cases markup with
  | start name attributes =>
      obtain ⟨named, listed, -⟩ := valid
      refine ⟨.tag none, ?_, rfl⟩
      change Lexing.opened.after (name ++ attributes) = _
      rw [Lexing.after_append, after_opened_name named]
      exact listed.quoted
  | empty name attributes =>
      obtain ⟨named, listed⟩ := valid
      refine ⟨.tag none, ?_, rfl⟩
      change Lexing.opened.after (name ++ (attributes ++ ['/'])) = _
      rw [Lexing.after_append, after_opened_name named, Option.bind_some, Lexing.after_append,
        listed.quoted]
      rfl
  | close name space =>
      obtain ⟨named, spaced⟩ := valid
      refine ⟨.plain, ?_, rfl⟩
      change Lexing.plain.after (name ++ space) = _
      refine after_plain ?_
      rintro c member rfl
      rcases List.mem_append.mp member with inName | inSpace
      · exact absurd (named.chars _ inName) (by decide)
      · exact absurd (spaced _ inSpace) (by decide)
  | reference content =>
      refine ⟨.reference, after_reference ?_, rfl⟩
      rintro c member rfl
      exact absurd (valid.2 _ member) (by decide)
  | comment content =>
      obtain ⟨now, few, still⟩ := after_comment valid (by decide)
      refine ⟨.comment 2, ?_, rfl⟩
      change (Lexing.comment 0).after (content ++ ['-', '-']) = _
      rw [Lexing.after_append, still]
      have two : min 2 (min 2 (now + 1) + 1) = 2 := by omega
      exact congrArg (some ∘ Lexing.comment) two
  | cdata content =>
      obtain ⟨now, few, still⟩ := after_cdata valid (by decide)
      refine ⟨.cdata 2, ?_, rfl⟩
      change (Lexing.cdata 0).after (content ++ [']', ']']) = _
      rw [Lexing.after_append, still]
      have two : min 2 (min 2 (now + 1) + 1) = 2 := by omega
      exact congrArg (some ∘ Lexing.cdata) two
  | instruction content =>
      obtain ⟨now, still⟩ := after_instruction valid
      refine ⟨.instruction true, ?_, rfl⟩
      change (Lexing.instruction false).after (content ++ ['?']) = _
      rw [Lexing.after_append, still]
      simp [Lexing.after, Lexing.step]

theorem render_ne_nil (markup : Markup) : markup.render ≠ [] := by simp [render]

end Markup

/-- A character of text; the other two start markup. -/
def isTextChar (c : Char) : Bool := c ≠ '<' && c ≠ '&'

/-- The text at the start, up to the next markup. -/
def textSpan (text : Text) : Text := text.takeWhile isTextChar

/-- Markup that is not closed before the end. -/
def Unclosed (text : Text) : Prop :=
  ∃ rest,
    text = '<' :: rest ∧ Lexing.opened.closesAt rest = none
    ∨ text = '&' :: rest ∧ Lexing.reference.closesAt rest = none

/-- The markup that starts with a character, up to where it closes. -/
def markupLength (text : Text) : Option Nat :=
  match text with
  | '<' :: rest => (Lexing.opened.closesAt rest).map (· + 1)
  | '&' :: rest => (Lexing.reference.closesAt rest).map (· + 1)
  | _ => none

theorem markupLength_le {text : Text} {length : Nat} (closes : markupLength text = some length)
    : 0 < length ∧ length ≤ text.length := by
  unfold markupLength at closes
  split at closes
  · obtain ⟨count, inside, rfl⟩ := Option.map_eq_some_iff.mp closes
    have bounds := Lexing.closesAt_le inside
    simp only [List.length_cons]
    omega
  · obtain ⟨count, inside, rfl⟩ := Option.map_eq_some_iff.mp closes
    have bounds := Lexing.closesAt_le inside
    simp only [List.length_cons]
    omega
  · exact absurd closes (by simp)

namespace Markup

variable {markup : Markup}

/-- Valid markup closes with its last character, whatever follows. -/
theorem markupLength_render (valid : markup.Valid) (rest : Text)
    : markupLength (markup.render ++ rest) = some markup.render.length := by
  obtain ⟨state, still, closes⟩ := after_body valid
  have closed : markup.lead.2.closesAt (markup.body ++ (markup.last :: rest))
      = some (markup.body.length + 1) := by
    rw [Lexing.closesAt_append still, Lexing.closesAt, closes]
    simp [Nat.add_comm]
  have split : markup.render ++ rest
      = markup.lead.1 :: (markup.body ++ (markup.last :: rest)) := by
    simp [render]
  rw [split]
  cases markup <;> simp_all [markupLength, lead, render]

/-- A proper part of valid markup, possibly with characters outside ASCII behind it, is not
closed.
-/
theorem unclosed_of_part (valid : markup.Valid) {part rest more : Text} (nonempty : part ≠ [])
    (proper : rest ≠ []) (split : markup.render = part ++ rest)
    (high : ∀ c ∈ more, ¬ c.toNat < 0x80)
    : Unclosed (part ++ more) := by
  obtain ⟨state, still, -⟩ := after_body valid
  rcases part with _ | ⟨first, part⟩
  · exact absurd rfl nonempty
  · obtain ⟨rfl, body⟩ := List.cons.inj split
    -- without the last character the part lies in the body
    obtain ⟨back, inside⟩ : ∃ back, markup.body = part ++ back := by
      rcases List.eq_nil_or_concat rest with none | ⟨front, final, rfl⟩
      · exact absurd none proper
      · have regrouped : markup.body ++ [markup.last] = (part ++ front) ++ [final] := by
          simpa using body
        exact ⟨front, (List.append_inj' regrouped rfl).1⟩
    have isOpen : (markup.lead.2.after (part ++ more)).isSome = true := by
      rw [inside, Lexing.after_append] at still
      obtain ⟨now, here, -⟩ := Option.bind_eq_some_iff.mp still
      rw [Lexing.after_append, here]
      exact Lexing.after_isSome_of_high high
    have open' := (Lexing.after_isSome_iff _ _).mp isOpen
    refine ⟨part ++ more, ?_⟩
    cases markup <;> simp_all [lead]

end Markup

end Library

import Emwin.Library.Markup
import Emwin.Library.Utf8Pieces

/-! The XML reader that the transport builds on, as a parameter: what one call returns, and
what is relied on of it.
-/

namespace Emwin.WxWire
open Library

/-- The events that the transport tells apart. Names are bytes, as the reader gives them. -/
inductive XmlEvent where
  | start (name : Bytes)
  | empty (name : Bytes)
  | close
  | text (chars : Text)
  | other
  deriving DecidableEq, Repr

/-- What a call of `read_event` gives: an event with the length of what it covers, the end of
the input, or an error with its text.
-/
inductive XmlStep where
  | event (event : XmlEvent) (length : Nat)
  | eof
  | error (message : Text)
  deriving DecidableEq, Repr

/-- A reader over a string, from the elements open so far and the text ahead of it. Lengths
count characters; the positions of the source stand at the same places.
-/
structure XmlReader where
  next : List Text → Text → XmlStep
  progress
    : ∀ opened text event length,
        next opened text = .event event length → 0 < length ∧ length ≤ text.length

/-- The event that a piece of markup gives. -/
def eventOf : Markup → XmlEvent
  | .start name _ => .start (toUtf8 name)
  | .empty name _ => .empty (toUtf8 name)
  | .close _ _ => .close
  | .reference _ | .comment _ | .cdata _ | .instruction _ => .other

/-- An end tag names the element that was opened last. -/
def ClosesLast (opened : List Text) : Markup → Prop
  | .close name _ => opened.head? = some name
  | _ => True

/-- The text of an error that the transport takes for an incomplete input. -/
def unexpectedEof : Text := "Unexpected EOF".toList

/-- What is relied on: events and lengths of well-formed content, and that markup which is not
closed before the end of the input is an error with another text.
-/
structure XmlReader.Lawful (reader : XmlReader) : Prop where
  eof : ∀ opened, reader.next opened [] = .eof
  text
    : ∀ opened text c,
        text.head? = some c
        → isTextChar c = true
        → reader.next opened text = .event (.text (textSpan text)) (textSpan text).length
  markup
    : ∀ opened (markup : Markup) rest,
        markup.Valid
        → ClosesLast opened markup
        → reader.next opened (markup.render ++ rest)
          = .event (eventOf markup) markup.render.length
  unclosed
    : ∀ opened text,
        Unclosed text
        → ∃ message, reader.next opened text = .error message ∧ ¬ unexpectedEof <:+: message

-----------------------------------------------------------------------------------------
-- A plain reader
-----------------------------------------------------------------------------------------

/-- The event of a piece of markup, by its first characters and whether it closes itself. -/
def plainEvent : Text → XmlEvent
  | '<' :: rest =>
      if rest.head? = some '!' ∨ rest.head? = some '?' then .other
      else if rest.head? = some '/' then .close
      else
        let name := toUtf8 (rest.takeWhile Markup.nameChar)
        if ['/', '>'].isSuffixOf rest then .empty name else .start name
  | _ => .other

def notClosed : Text := "markup not closed before the end of input".toList

def plainStep (text : Text) : XmlStep :=
  match text with
  | [] => .eof
  | c :: _ =>
      if isTextChar c then .event (.text (textSpan text)) (textSpan text).length
      else
        match markupLength text with
        | none => .error notClosed
        | some length => .event (plainEvent (text.take length)) length

/-- A reader that cuts markup as the automaton does, and does not check end tags. -/
def plainReader : XmlReader where
  next _ := plainStep
  progress := by
    intro _ text event length found
    unfold plainStep at found
    split at found
    · exact absurd found (by simp)
    · next c rest =>
        split_ifs at found with chars
        · obtain ⟨-, rfl⟩ := XmlStep.event.inj found
          constructor
          · simp [textSpan, chars]
          · exact (List.takeWhile_sublist _).length_le
        · split at found
          · exact absurd found (by simp)
          · next count closes =>
              obtain ⟨-, rfl⟩ := XmlStep.event.inj found
              exact markupLength_le closes

theorem takeWhile_name {name rest : Text} (chars : ∀ c ∈ name, Markup.nameChar c = true)
    (ends : ∀ c, rest.head? = some c → Markup.nameChar c = false)
    : (name ++ rest).takeWhile Markup.nameChar = name := by
  rw [List.takeWhile_append_of_pos chars]
  cases rest with
  | nil => simp
  | cons c rest => simp [ends c rfl]

theorem nameChar_of_space {c : Char} (space : isXmlSpace c = true)
    : Markup.nameChar c = false := by
  simp [Markup.nameChar, space]

/-- What stands behind a name in a tag is no part of it. -/
theorem ends_name {attributes rest : Text} (valid : Markup.ValidAttributes attributes)
    (ends : ∀ c, rest.head? = some c → Markup.nameChar c = false)
    : ∀ c, (attributes ++ rest).head? = some c → Markup.nameChar c = false := by
  intro c first
  cases attributes with
  | nil => exact ends c first
  | cons space attributes => exact nameChar_of_space (valid.space c first)

/-- The event of a tag with a valid name. -/
theorem plainEvent_tag {name rest : Text} (valid : Markup.ValidName name)
    (ends : ∀ c, rest.head? = some c → Markup.nameChar c = false)
    : plainEvent ('<' :: (name ++ rest))
      = if ['/', '>'].isSuffixOf (name ++ rest) then .empty (toUtf8 name)
        else .start (toUtf8 name) := by
  obtain ⟨c, later, rfl⟩ := List.exists_cons_of_ne_nil valid.nonempty
  have first := valid.first c rfl
  have slash : c ≠ '/' := by
    rintro rfl
    exact absurd (valid.chars '/' (by simp)) (by decide)
  have whole := takeWhile_name valid.chars ends
  rw [List.cons_append] at whole ⊢
  simp only [plainEvent, whole, List.head?_cons, Option.some.injEq, first, slash, or_self,
    if_false]

/-- The event of valid markup, by cases on it. -/
theorem plainEvent_render {markup : Markup} (valid : markup.Valid)
    : plainEvent markup.render = eventOf markup := by
  cases markup with
  | start name attributes =>
      obtain ⟨named, listed, slash⟩ := valid
      have isStart : ['/', '>'].isSuffixOf (name ++ (attributes ++ ['>'])) = false := by
        rw [← Bool.not_eq_true, List.isSuffixOf_iff_suffix]
        rintro ⟨front, same⟩
        have regrouped : (front ++ ['/']) ++ ['>'] = (name ++ attributes) ++ ['>'] := by
          simpa using same
        have last := congrArg List.getLast? (List.append_inj' regrouped rfl).1
        rw [List.getLast?_concat, List.getLast?_append] at last
        cases inner : attributes.getLast? with
        | some c => exact slash (by rw [inner] at last; simpa [inner] using last.symm)
        | none =>
            rw [inner, Option.none_or] at last
            exact absurd (named.chars '/' (List.mem_of_getLast? last.symm)) (by decide)
      have ends : ∀ c, (['>'] : Text).head? = some c → Markup.nameChar c = false := by
        rintro _ ⟨rfl⟩
        rfl
      have event := plainEvent_tag named (ends_name listed ends)
      rw [isStart] at event
      simpa [Markup.render, Markup.lead, Markup.body, Markup.last, eventOf] using event
  | empty name attributes =>
      obtain ⟨named, listed⟩ := valid
      have isEmpty : ['/', '>'].isSuffixOf (name ++ (attributes ++ ['/', '>'])) = true := by
        rw [List.isSuffixOf_iff_suffix]
        exact ⟨name ++ attributes, by simp⟩
      have ends : ∀ c, (['/', '>'] : Text).head? = some c → Markup.nameChar c = false := by
        rintro _ ⟨rfl⟩
        rfl
      have event := plainEvent_tag named (ends_name listed ends)
      rw [isEmpty] at event
      simpa [Markup.render, Markup.lead, Markup.body, Markup.last, eventOf] using event
  | close name space => rfl
  | reference body => rfl
  | comment body => rfl
  | cdata body => rfl
  | instruction body => rfl

theorem plainReader_lawful : plainReader.Lawful where
  eof _ := rfl
  text := by
    intro _ text c first chars
    cases text with
    | nil => exact absurd first (by simp)
    | cons head rest =>
        obtain rfl := Option.some.inj first
        change plainStep (head :: rest) = _
        simp only [plainStep, chars, if_true]
  markup := by
    intro _ markup rest valid _
    have length := Markup.markupLength_render valid rest
    have first : isTextChar markup.lead.1 = false := by cases markup <;> rfl
    have whole : (markup.render ++ rest).take markup.render.length = markup.render :=
      List.take_left
    have step : plainStep (markup.render ++ rest)
        = .event (plainEvent ((markup.render ++ rest).take markup.render.length))
            markup.render.length := by
      change plainStep (markup.lead.1 :: (markup.body ++ [markup.last] ++ rest)) = _
      change markupLength (markup.lead.1 :: (markup.body ++ [markup.last] ++ rest)) = _ at length
      simp only [plainStep, first, Bool.false_eq_true, if_false, length]
      rfl
    rw [whole, plainEvent_render valid] at step
    exact step
  unclosed := by
    intro _ text unclosed
    have other : ¬ unexpectedEof <:+: notClosed := by
      intro inside
      exact absurd (inside.subset (by decide : 'U' ∈ unexpectedEof)) (by decide)
    refine ⟨notClosed, ?_, other⟩
    obtain ⟨rest, ⟨rfl, never⟩ | ⟨rfl, never⟩⟩ := unclosed
    · change plainStep ('<' :: rest) = _
      simp only [plainStep, markupLength, never]
      rfl
    · change plainStep ('&' :: rest) = _
      simp only [plainStep, markupLength, never]
      rfl

end Emwin.WxWire

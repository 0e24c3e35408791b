import Emwin.WxWire.Content

/-! Taking top-level elements out of the stream as it arrives, and what the places where reads
end have to do with it.
-/

namespace Emwin.WxWire
open Library

-----------------------------------------------------------------------------------------
-- Scanning tokens
-----------------------------------------------------------------------------------------

section Scanning

variable {reader : XmlReader} {buf : Text} {opened : List Text} {depth : Nat}
variable {rootStart : Option Nat} {start length : Nat}

theorem scan_text_event {chars : Text}
    (found : reader.next opened (buf.drop start) = .event (.text chars) length)
    : scan reader buf opened depth rootStart start
      = if depth = 0 ∧ ¬ chars.all isAsciiWhitespace then .again (buf.drop (start + length))
        else scan reader buf opened depth rootStart (start + length) := by
  rw [scan]
  split <;> simp_all

theorem scan_other_event
    (found : reader.next opened (buf.drop start) = .event .other length)
    : scan reader buf opened depth rootStart start
      = scan reader buf opened depth rootStart (start + length) := by
  rw [scan]
  split <;> simp_all

theorem scan_close_event (depth root : Nat)
    (found : reader.next opened (buf.drop start) = .event .close length)
    : scan reader buf opened (depth + 1) (some root) start
      = if depth = 0 then
          .stanza ((buf.take (start + length)).drop root) (buf.drop (start + length))
        else scan reader buf opened.tail depth (some root) (start + length) := by
  rw [scan]
  split <;> simp_all
  cases depth <;> simp

theorem scan_start_event (rootStart : Option Nat) {name : Text}
    (found : reader.next opened (buf.drop start) = .event (.start (toUtf8 name)) length)
    (other : ¬ (depth = 0 ∧ name = streamTag))
    : scan reader buf opened depth rootStart start
      = scan reader buf (name :: opened) (depth + 1)
          (if depth = 0 then some start else rootStart) (start + length) := by
  rw [scan]
  split <;> simp_all [fromUtf8_toUtf8]

theorem scan_empty_event (rootStart : Option Nat) {name : Text}
    (found : reader.next opened (buf.drop start) = .event (.empty (toUtf8 name)) length)
    (other : ¬ (depth = 0 ∧ name = streamTag))
    : scan reader buf opened depth rootStart start
      = if depth = 0 then
          .stanza ((buf.take (start + length)).drop start) (buf.drop (start + length))
        else scan reader buf opened depth rootStart (start + length) := by
  rw [scan]
  split <;> simp_all [fromUtf8_toUtf8]

theorem scan_eof (found : reader.next opened (buf.drop start) = .eof)
    : scan reader buf opened depth rootStart start = .nothing buf := by
  rw [scan]
  split <;> simp_all

theorem scan_error {message : Text}
    (found : reader.next opened (buf.drop start) = .error message)
    (other : ¬ unexpectedEof <:+: message)
    : scan reader buf opened depth rootStart start = .nothing (recover buf start) := by
  rw [scan]
  split <;> simp_all

end Scanning

theorem drop_front (front rest : Text) : (front ++ rest).drop front.length = rest :=
  List.drop_left

theorem textSpan_append {chars : Text} (valid : ∀ c ∈ chars, isTextChar c = true) (rest : Text)
    : textSpan (chars ++ rest) = chars ++ textSpan rest :=
  List.takeWhile_append_of_pos valid

section Lawful

variable {reader : XmlReader} (lawful : reader.Lawful)

include lawful in
/-- Text may be skipped: what follows decides where the event ends, from both places. -/
theorem scan_text {chars rest front : Text} {opened : List Text} {depth : Nat}
    {rootStart : Option Nat} (valid : ∀ c ∈ chars, isTextChar c = true)
    (spaces : depth = 0 → chars.all isAsciiWhitespace = true)
    : scan reader (front ++ (chars ++ rest)) opened depth rootStart front.length
      = scan reader (front ++ (chars ++ rest)) opened depth rootStart
          (front ++ chars).length := by
  have event (front text : Text) (c : Char) (first : text.head? = some c)
      (isText : isTextChar c = true)
      : scan reader (front ++ text) opened depth rootStart front.length
        = if depth = 0 ∧ ¬ (textSpan text).all isAsciiWhitespace then
            .again ((front ++ text).drop (front.length + (textSpan text).length))
          else
            scan reader (front ++ text) opened depth rootStart
              (front.length + (textSpan text).length) := by
    refine scan_text_event ?_
    rw [drop_front]
    exact lawful.text opened text c first isText
  cases chars with
  | nil => simp
  | cons c chars =>
      have here := event front (c :: chars ++ rest) c rfl (valid c (by simp))
      have blank : (depth = 0 ∧ ¬ (c :: chars ++ textSpan rest).all isAsciiWhitespace)
          = (depth = 0 ∧ ¬ (textSpan rest).all isAsciiWhitespace) := by
        by_cases top : depth = 0
        · rw [List.all_append, spaces top, Bool.true_and]
        · simp [top]
      rw [textSpan_append valid, ← List.append_assoc, List.length_append, ← Nat.add_assoc,
        ← List.length_append] at here
      simp only [blank] at here
      rw [← List.append_assoc, here]
      by_cases next : ∃ other, rest.head? = some other ∧ isTextChar other = true
      · obtain ⟨other, first, isText⟩ := next
        exact (event (front ++ (c :: chars)) rest other first isText).symm
      · have ends : textSpan rest = [] := by
          cases rest with
          | nil => rfl
          | cons other rest =>
              exact List.takeWhile_cons_of_neg fun found => next ⟨other, rfl, found⟩
        simp [ends]

include lawful in
theorem next_markup {piece : Markup} (valid : piece.Valid) {opened : List Text}
    (closes : ClosesLast opened piece) (front rest : Text)
    : reader.next opened ((front ++ (piece.render ++ rest)).drop front.length)
      = .event (eventOf piece) piece.render.length := by
  rw [drop_front]
  exact lawful.markup opened piece rest valid closes

include lawful in
/-- A token inside an element that does not complete it. -/
theorem scan_token {token : Token} {opened next : List Text} (root : Nat) (valid : token.Valid)
    (inside : opened ≠ []) (applied : token.apply opened = some next)
    (quiet : token.completes opened = false) (front rest : Text)
    : next ≠ []
      ∧ scan reader (front ++ (token.render ++ rest)) opened opened.length (some root)
          front.length
        = scan reader (front ++ (token.render ++ rest)) next next.length (some root)
            (front ++ token.render).length := by
  have deep : opened.length ≠ 0 := by simpa using inside
  rw [List.length_append]
  cases token with
  | text chars =>
      simp only [Token.apply, inside, false_and, if_false, Option.some.injEq] at applied
      subst applied
      refine ⟨inside, ?_⟩
      rw [← List.length_append]
      exact scan_text lawful valid fun top => absurd top deep
  | markup piece =>
      have found (closes : ClosesLast opened piece) :=
        next_markup lawful valid closes front rest
      cases piece with
      | start name attributes =>
          simp only [Token.apply, inside, false_and, if_false, Option.some.injEq] at applied
          subst applied
          refine ⟨List.cons_ne_nil _ _, ?_⟩
          have step := scan_start_event (some root) (found trivial)
            (fun both => deep both.1)
          rwa [if_neg deep] at step
      | empty name attributes =>
          simp only [Token.apply, inside, false_and, if_false, Option.some.injEq] at applied
          subst applied
          refine ⟨inside, ?_⟩
          have step := scan_empty_event (some root) (found trivial)
            (fun both => deep both.1)
          rwa [if_neg deep] at step
      | close name space =>
          simp only [Token.apply] at applied
          split_ifs at applied with first
          obtain rfl := Option.some.inj applied
          obtain ⟨_, opened, rfl⟩ := List.exists_cons_of_ne_nil inside
          have more : opened ≠ [] := by simpa [Token.completes] using quiet
          refine ⟨more, ?_⟩
          have step := scan_close_event opened.length root (found first)
          rwa [if_neg (by simpa using more)] at step
      | reference | comment | cdata | instruction =>
          simp only [Token.apply, inside, if_false, Option.some.injEq] at applied
          subst applied
          exact ⟨inside, scan_other_event (found trivial)⟩

include lawful in
/-- Tokens inside an element that do not complete it, by induction on them. -/
theorem scan_inside {tokens : List Token} {opened last : List Text} (root : Nat)
    (valid : ∀ token ∈ tokens, token.Valid) (inside : opened ≠ [])
    (quiet : quietly opened tokens = some last) (front rest : Text)
    : last ≠ []
      ∧ scan reader (front ++ (renderAll tokens ++ rest)) opened opened.length (some root)
          front.length
        = scan reader (front ++ (renderAll tokens ++ rest)) last last.length (some root)
            (front ++ renderAll tokens).length := by
  induction tokens generalizing opened front with
  | nil =>
      obtain rfl := Option.some.inj quiet
      simpa using inside
  | cons token tokens ih =>
      rw [quietly] at quiet
      split_ifs at quiet with completes
      obtain ⟨next, applied, later⟩ := Option.bind_eq_some_iff.mp quiet
      have step := scan_token lawful root (valid token (by simp)) inside applied
        (by simpa using completes) front (renderAll tokens ++ rest)
      have others := ih (fun other member => valid other (by simp [member])) step.1 later
        (front ++ token.render)
      refine ⟨others.1, ?_⟩
      rw [renderAll_cons, List.append_assoc token.render, step.2, ← List.append_assoc front,
        others.2, List.append_assoc front, List.append_assoc front]

/-- Tokens before the first top-level element is complete: white space, and then possibly the
start of an element. By induction on the tokens.
-/
theorem quietly_top {tokens : List Token} {last : List Text}
    (quiet : quietly [] tokens = some last)
    : last = [] ∧ (renderAll tokens).all isAsciiWhitespace = true
      ∨ ∃ gap name attributes inner,
          tokens = gap ++ .markup (.start name attributes) :: inner
          ∧ (renderAll gap).all isAsciiWhitespace = true ∧ name ≠ streamTag
          ∧ quietly [name] inner = some last := by
  induction tokens with
  | nil => exact .inl ⟨(Option.some.inj quiet).symm, rfl⟩
  | cons token tokens ih =>
      rw [quietly] at quiet
      split_ifs at quiet with completes
      obtain ⟨next, applied, later⟩ := Option.bind_eq_some_iff.mp quiet
      cases token with
      | text chars =>
          simp only [Token.apply] at applied
          split_ifs at applied with other
          obtain rfl := Option.some.inj applied
          have spaces : chars.all isAsciiWhitespace = true := by simpa using other
          rcases ih later with ⟨top, blank⟩ | ⟨gap, name, attributes, inner, rfl, blank, rest⟩
          · refine .inl ⟨top, ?_⟩
            rw [renderAll_cons, List.all_append, blank, Bool.and_true]
            exact spaces
          · refine .inr ⟨.text chars :: gap, name, attributes, inner, rfl, ?_, rest⟩
            rw [renderAll_cons, List.all_append, blank, Bool.and_true]
            exact spaces
      | markup piece =>
          cases piece with
          | start name attributes =>
              simp only [Token.apply, true_and] at applied
              split_ifs at applied with stream
              obtain rfl := Option.some.inj applied
              exact .inr ⟨[], name, attributes, tokens, rfl, rfl, stream, later⟩
          | empty => exact absurd rfl completes
          | close | reference | comment | cdata | instruction =>
              exact absurd applied (by simp [Token.apply])

include lawful in
/-- The scan of such tokens, whatever follows them. -/
theorem scan_quietly {tokens : List Token} {last : List Text}
    (valid : ∀ token ∈ tokens, token.Valid) (quiet : quietly [] tokens = some last)
    : ∃ gap inner,
        renderAll tokens = gap ++ inner ∧ gap.all isAsciiWhitespace = true
        ∧ (last = [] ∧ inner = [] ∨ last ≠ [] ∧ inner.head? = some '<')
        ∧ ∀ rest,
            scan reader (renderAll tokens ++ rest) [] 0 none 0
            = scan reader (renderAll tokens ++ rest) last last.length
                (if inner = [] then none else some gap.length) (renderAll tokens).length := by
  have skipped {gap : Text} (blank : gap.all isAsciiWhitespace = true) (rest : Text)
      : scan reader ([] ++ (gap ++ rest)) [] 0 none 0
        = scan reader (gap ++ rest) [] 0 none gap.length :=
    scan_text lawful (Sent.isTextChar_of_whitespace blank) fun _ => blank
  rcases quietly_top quiet with
    ⟨rfl, blank⟩ | ⟨gap, name, attributes, inner, rfl, blank, other, later⟩
  · exact ⟨renderAll tokens, [], by simp, blank, .inl ⟨rfl, rfl⟩, skipped blank⟩
  · have startValid : (Markup.start name attributes).Valid :=
      valid (.markup (.start name attributes)) (by simp)
    have inside (rest : Text) := scan_inside lawful (renderAll gap).length
      (fun token member => valid token (by simp [member])) (List.cons_ne_nil name []) later
      (renderAll gap ++ (Markup.start name attributes).render) rest
    refine ⟨renderAll gap, (Markup.start name attributes).render ++ renderAll inner, ?_, blank,
      .inr ⟨(inside []).1, rfl⟩, fun rest => ?_⟩
    · simp [Token.render]
    · have anywhere : ClosesLast [] (.start name attributes) := trivial
      have found := next_markup lawful startValid anywhere (renderAll gap)
        (renderAll inner ++ rest)
      rw [renderAll_append, renderAll_cons, List.append_assoc, List.append_assoc]
      change scan reader ([] ++ (renderAll gap ++ _)) [] 0 none 0 = _
      rw [skipped blank, if_neg (by simp [Markup.render])]
      calc
        scan reader
            (renderAll gap ++ ((Markup.start name attributes).render ++ (renderAll inner ++ rest)))
            [] 0 none (renderAll gap).length
        _ = scan reader
              (renderAll gap ++ (Markup.start name attributes).render ++ (renderAll inner ++ rest))
              [name] 1 (some (renderAll gap).length)
              (renderAll gap ++ (Markup.start name attributes).render).length := by
          rw [scan_start_event none found fun both => other both.2, List.append_assoc,
            List.length_append]
          rfl
        _ = _ := by
          rw [← List.append_assoc (renderAll gap), ← List.append_assoc (renderAll gap)]
          exact (inside rest).2

theorem pop_of_nothing {buf rest : Text} (nonempty : buf ≠ [])
    (scans : scan reader buf [] 0 none 0 = .nothing rest)
    : popNextTopLevelElement reader buf = (none, rest) := by
  rw [popNextTopLevelElement, if_neg nonempty]
  split <;> simp_all

theorem pop_of_stanza {buf stanza rest : Text} (nonempty : buf ≠ [])
    (scans : scan reader buf [] 0 none 0 = .stanza stanza rest)
    : popNextTopLevelElement reader buf = (some stanza, rest) := by
  rw [popNextTopLevelElement, if_neg nonempty]
  split <;> simp_all

theorem pop_of_again {buf rest : Text} (nonempty : buf ≠ [])
    (scans : scan reader buf [] 0 none 0 = .again rest)
    : popNextTopLevelElement reader buf = popNextTopLevelElement reader rest := by
  rw [popNextTopLevelElement, if_neg nonempty]
  split <;> simp_all

theorem pop_nil : popNextTopLevelElement reader [] = (none, []) := by
  rw [popNextTopLevelElement, if_pos rfl]

include lawful in
/-- Text between elements is dropped unless it is white space. -/
theorem pop_dark_text {chars : Text} (valid : ∀ c ∈ chars, isTextChar c = true)
    (dark : chars.all isAsciiWhitespace = false)
    : popNextTopLevelElement reader chars = (none, []) := by
  cases chars with
  | nil => exact pop_nil
  | cons c chars =>
      have span : textSpan (c :: chars) = c :: chars := by
        simpa [textSpan] using textSpan_append valid []
      have found := lawful.text [] (c :: chars) c rfl (valid c (by simp))
      rw [span] at found
      rw [pop_of_again (List.cons_ne_nil _ _) ?_]
      · exact pop_nil
      · rw [scan_text_event found, if_pos ⟨rfl, by simp [dark]⟩]
        simp

include lawful in
/-- An element that is not complete stays in the buffer. -/
theorem pop_quietly {tokens : List Token} {last : List Text}
    (valid : ∀ token ∈ tokens, token.Valid) (quiet : quietly [] tokens = some last)
    : popNextTopLevelElement reader (renderAll tokens) = (none, renderAll tokens) := by
  obtain ⟨gap, inner, -, -, -, scans⟩ := scan_quietly lawful valid quiet
  by_cases empty : renderAll tokens = []
  · rw [empty, pop_nil]
  · refine pop_of_nothing empty ?_
    have whole := scans []
    rw [List.append_nil] at whole
    rw [whole, scan_eof]
    rw [List.drop_length]
    exact lawful.eof last

include lawful in
/-- Markup that is not closed takes everything before it along, up to the next `<` in it. -/
theorem pop_unclosed {tokens : List Token} {last : List Text} {start : Text}
    (valid : ∀ token ∈ tokens, token.Valid) (quiet : quietly [] tokens = some last)
    (unclosed : Unclosed start)
    : popNextTopLevelElement reader (renderAll tokens ++ start)
      = (none, (start.drop 1).dropWhile (· ≠ '<')) := by
  obtain ⟨gap, inner, -, -, -, scans⟩ := scan_quietly lawful valid quiet
  obtain ⟨message, fails, other⟩ := lawful.unclosed last start unclosed
  have nonempty : start ≠ [] := by
    obtain ⟨rest, ⟨rfl, -⟩ | ⟨rfl, -⟩⟩ := unclosed <;> simp
  refine pop_of_nothing (by simp [nonempty]) ?_
  rw [scans, scan_error (by rw [drop_front]; exact fails) other, recover, ← List.drop_drop,
    drop_front]

theorem dropWhile_gap {gap text : Text} (blank : gap.all isAsciiWhitespace = true)
    (first : text.head? = some '<')
    : (gap ++ text).dropWhile isAsciiWhitespace = text := by
  rw [List.dropWhile_append_of_pos (List.all_eq_true.mp blank)]
  cases text with
  | nil => rfl
  | cons c text =>
      obtain rfl := Option.some.inj first
      rfl

include lawful in
/-- A complete element is taken out, with the white space before it. -/
theorem pop_completed {before : List Token} {token : Token} {middle : List Text}
    (valid : ∀ token ∈ before, token.Valid) (tokenValid : token.Valid)
    (quiet : quietly [] before = some middle) (completes : token.completes middle = true)
    (applied : token.apply middle = some []) (rest : Text)
    : popNextTopLevelElement reader ((renderAll before ++ token.render) ++ rest)
      = (some ((renderAll before ++ token.render).dropWhile isAsciiWhitespace), rest) := by
  obtain ⟨gap, inner, split, blank, ends, scans⟩ := scan_quietly lawful valid quiet
  rw [List.append_assoc]
  have bounds : ((renderAll before ++ (token.render ++ rest)).take
        ((renderAll before).length + token.render.length))
      = renderAll before ++ token.render := by
    rw [← List.append_assoc, ← List.length_append, List.take_left]
  have left : (renderAll before ++ (token.render ++ rest)).drop
      ((renderAll before).length + token.render.length) = rest := by
    rw [← List.append_assoc, ← List.length_append, List.drop_left]
  cases token with
  | text => exact absurd completes (by simp [Token.completes])
  | markup piece =>
      have pieceValid : piece.Valid := tokenValid
      simp only [Token.render] at bounds left ⊢
      have nonempty : renderAll before ++ (piece.render ++ rest) ≠ [] := by
        simp [Markup.render_ne_nil]
      refine pop_of_stanza nonempty ?_
      cases piece with
      | start | reference | comment | cdata | instruction =>
          exact absurd completes (by simp [Token.completes])
      | empty name attributes =>
          obtain rfl := List.isEmpty_iff.mp completes
          have noStream : ¬ (([] : List Text).length = 0 ∧ name = streamTag) := by
            simp only [Token.apply, true_and] at applied
            split_ifs at applied with stream
            exact fun both => stream both.2
          have anywhere : ClosesLast [] (.empty name attributes) := trivial
          have found := next_markup lawful pieceValid anywhere (renderAll before) rest
          obtain rfl : inner = [] := by simpa using ends
          rw [List.append_nil] at split
          rw [scans, scan_empty_event _ found noStream, if_pos List.length_nil, bounds, left,
            List.drop_left, split, dropWhile_gap blank rfl]
      | close name space =>
          have one : middle.length = 1 := by simpa [Token.completes] using completes
          obtain ⟨only, rfl⟩ := List.length_eq_one_iff.mp one
          have closes : ClosesLast [only] (.close name space) := by
            simp only [Token.apply] at applied
            split_ifs at applied with same
            exact same
          have found := next_markup lawful pieceValid closes (renderAll before) rest
          have first : inner.head? = some '<' := by simpa using ends
          have started : inner ≠ [] := by
            rintro rfl
            exact absurd first (by simp)
          rw [scans, if_neg started]
          change scan reader _ _ (0 + 1) _ _ = _
          rw [scan_close_event 0 gap.length found, if_pos rfl, bounds, left, split,
            List.append_assoc, List.drop_left, dropWhile_gap blank (by simp [first])]

end Lawful

-----------------------------------------------------------------------------------------
-- Buffers made of whole tokens
-----------------------------------------------------------------------------------------

/-- A text made of whole tokens, with some elements open at its end. -/
def Built (text : Text) (opened : List Text) : Prop :=
  ∃ tokens, (∀ token ∈ tokens, token.Valid) ∧ flow [] tokens = some opened
    ∧ text = renderAll tokens

theorem built_nil : Built [] [] := ⟨[], by simp, rfl, rfl⟩

theorem Built.append {text : Text} {opened last : List Text} {tokens : List Token}
    (built : Built text opened) (valid : ∀ token ∈ tokens, token.Valid)
    (flows : flow opened tokens = some last)
    : Built (text ++ renderAll tokens) last := by
  obtain ⟨before, beforeValid, beforeFlow, rfl⟩ := built
  refine ⟨before ++ tokens, ?_, ?_, by simp⟩
  · intro token member
    exact (List.mem_append.mp member).elim (beforeValid token) (valid token)
  · rw [flow_append, beforeFlow]
    exact flows

/-- Characters of a kind that white space is not. -/
def Dark (p : Char → Bool) : Prop := ∀ c, isAsciiWhitespace c = true → p c = false

theorem countP_spaces {p : Char → Bool} (dark : Dark p) {text : Text}
    (spaces : text.all isAsciiWhitespace = true)
    : text.countP p = 0 := by
  refine List.countP_eq_zero.mpr fun c member => ?_
  simp [dark c (List.all_eq_true.mp spaces c member)]

theorem countP_dropWhile_space {p : Char → Bool} (dark : Dark p) (text : Text)
    : (text.dropWhile isAsciiWhitespace).countP p = text.countP p := by
  induction text with
  | nil => rfl
  | cons c text ih =>
      cases space : isAsciiWhitespace c with
      | false => simp [space]
      | true => simpa [space, dark c space] using ih

section Built

variable {reader : XmlReader} (lawful : reader.Lawful)

include lawful in
/-- A buffer of whole tokens: its first element is taken out, whatever follows, or it stays as
it is.
-/
theorem built_cases {buf : Text} {opened : List Text} (built : Built buf opened)
    : (∃ tokens,
        (∀ token ∈ tokens, token.Valid) ∧ quietly [] tokens = some opened
        ∧ buf = renderAll tokens
        ∧ popNextTopLevelElement reader buf = (none, buf))
      ∨ ∃ front rest,
          buf = front ++ rest ∧ Built rest opened
          ∧ ∀ more,
              popNextTopLevelElement reader (buf ++ more)
              = (some (front.dropWhile isAsciiWhitespace), rest ++ more) := by
  obtain ⟨tokens, valid, flows, rfl⟩ := built
  rcases flow_cases flows with
    quiet | ⟨before, token, after, middle, rfl, quiet, done, applied, later⟩
  · exact .inl ⟨tokens, valid, quiet, rfl, pop_quietly lawful valid quiet⟩
  · refine .inr ⟨renderAll before ++ token.render, renderAll after, by simp, ?_, fun more => ?_⟩
    · exact ⟨after, fun other member => valid other (by simp [member]), later, rfl⟩
    · rw [renderAll_append, renderAll_cons, ← List.append_assoc, List.append_assoc _ _ more]
      exact pop_completed lawful (fun other member => valid other (by simp [member]))
        (valid token (by simp)) quiet done applied _

include lawful in
/-- Such a buffer may be popped before more arrives. -/
theorem built_absorbs (buf more : Text) (built : ∃ opened, Built buf opened)
    : (popAll reader).run (buf ++ more)
      = prepend ((popAll reader).step buf).events
          ((popAll reader).run (((popAll reader).step buf).state ++ more)) := by
  obtain ⟨opened, built⟩ := built
  rcases built_cases lawful built with ⟨tokens, -, -, -, stays⟩ | ⟨front, rest, -, -, pops⟩
  · rw [popAll_step_none stays, prepend_nil]
  · have alone := pops []
    rw [List.append_nil, List.append_nil] at alone
    rw [popAll_step_some alone, popAll_run_some (pops more)]

include lawful in
theorem built_step (buf : Text) (built : ∃ opened, Built buf opened)
    : ∃ opened, Built ((popAll reader).step buf).state opened := by
  obtain ⟨opened, built⟩ := built
  rcases built_cases lawful built with ⟨tokens, -, -, -, stays⟩ | ⟨front, rest, -, later, pops⟩
  · rw [popAll_step_none stays]
    exact ⟨opened, built⟩
  · have alone := pops []
    rw [List.append_nil, List.append_nil] at alone
    rw [popAll_step_some alone]
    exact ⟨opened, later⟩

include lawful in
/-- Popping such a buffer loses only white space and leaves no complete element behind. By
induction on the length.
-/
theorem built_run {buf : Text} {opened : List Text} (built : Built buf opened)
    : ∃ tokens,
        (∀ token ∈ tokens, token.Valid) ∧ quietly [] tokens = some opened
        ∧ ((popAll reader).run buf).2 = renderAll tokens
        ∧ ∀ p,
            Dark p
            → ((popAll reader).run buf).1.flatten.countP p + (renderAll tokens).countP p
              = buf.countP p := by
  induction size : buf.length using Nat.strongRecOn generalizing buf with
  | _ bound ih =>
      rcases built_cases lawful built with
        ⟨tokens, valid, quiet, rfl, stays⟩ | ⟨front, rest, rfl, later, pops⟩
      · refine ⟨tokens, valid, quiet, ?_, ?_⟩
        · rw [popAll_run_none stays]
        · simp [popAll_run_none stays]
      · have alone := pops []
        rw [List.append_nil, List.append_nil] at alone
        have smaller := pop_shrinks alone
        obtain ⟨tokens, valid, quiet, left, count⟩ := ih rest.length (size ▸ smaller) later rfl
        refine ⟨tokens, valid, quiet, ?_, ?_⟩
        · rw [popAll_run_some alone]
          exact left
        · intro p dark
          rw [popAll_run_some alone, prepend, List.flatten_append, List.flatten_singleton,
            List.countP_append, countP_dropWhile_space dark, List.countP_append, ← count p dark]
          omega

/-- The text ends with markup that is not closed, and this costs a `<`. -/
def Broken (text : Text) : Prop :=
  ∃ front start opened,
    text = front ++ start ∧ Built front opened ∧ Unclosed start
    ∧ (start.head? = some '<' ∨ opened ≠ [])

def isAngle (c : Char) : Bool := c = '<'

theorem dark_isAngle : Dark isAngle := by
  intro c space
  refine decide_eq_false ?_
  rintro rfl
  exact absurd space (by decide)

include lawful in
/-- Popping such a text loses at least one `<`. -/
theorem broken_loses {text : Text} (broken : Broken text)
    : ((popAll reader).run text).1.flatten.countP isAngle
        + ((popAll reader).run text).2.countP isAngle
      < text.countP isAngle := by
  obtain ⟨front, start, opened, rfl, built, unclosed, lost⟩ := broken
  obtain ⟨tokens, valid, quiet, left, count⟩ := built_run lawful built
  have split := (popAll reader).run_extend_of_absorbs (built_step lawful) (built_absorbs lawful)
    front start ⟨opened, built⟩
  have kept := count isAngle dark_isAngle
  have one (rest : Text) : ('<' :: rest).countP isAngle = rest.countP isAngle + 1 :=
    List.countP_cons_of_pos rfl
  have after : ((start.drop 1).dropWhile (· ≠ '<')).countP isAngle
      < (renderAll tokens).countP isAngle + start.countP isAngle := by
    have fewer : ((start.drop 1).dropWhile (· ≠ '<')).countP isAngle
        ≤ (start.drop 1).countP isAngle :=
      (List.dropWhile_sublist _).countP_le
    rcases lost with first | inside
    · obtain ⟨rest, rfl⟩ := List.head?_eq_some_iff.mp first
      rw [one rest]
      rw [List.drop_one, List.tail_cons] at fewer ⊢
      omega
    · have fewest := countP_drop_le isAngle 1 start
      obtain ⟨gap, inner, split, -, ends, -⟩ := scan_quietly lawful valid quiet
      obtain ⟨rest, rfl⟩ := List.head?_eq_some_iff.mp
        (ends.resolve_left fun top => inside top.1).2
      rw [split, List.countP_append, one]
      omega
  rw [split, left, popAll_run_none (pop_unclosed lawful valid quiet unclosed)]
  simp only [prepend, List.append_nil, List.countP_append]
  omega

end Built

end Emwin.WxWire

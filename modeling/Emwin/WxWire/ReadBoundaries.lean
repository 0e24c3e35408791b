import Emwin.WxWire.StanzaExtraction

/-! Whether a run of reads gives the elements that were sent, by where the reads end. -/

namespace Emwin.WxWire
open Library

/-- What a run of reads appends. -/
def decoded (reads : List Bytes) : Text := (reads.map fromUtf8Lossy).flatten

@[simp] theorem decoded_cons (read : Bytes) (reads : List Bytes)
    : decoded (read :: reads) = fromUtf8Lossy read ++ decoded reads := rfl

-----------------------------------------------------------------------------------------
-- From one read to the next
-----------------------------------------------------------------------------------------

/-- Bytes outside ASCII in an element's text leave the tokens whole. -/
theorem Built.append_high {text : Text} {opened : List Text} (built : Built text opened)
    {bytes : Bytes} (high : ∀ byte ∈ bytes, ¬ byte < 0x80) (inElement : bytes ≠ [] → opened ≠ [])
    : Built (text ++ fromUtf8Lossy bytes) opened := by
  have outside := lossy_high high
  have valid : (Token.text (fromUtf8Lossy bytes)).Valid := by
    intro c inside
    have notAscii := outside c inside
    unfold isTextChar
    simp only [Bool.and_eq_true, decide_eq_true_eq]
    constructor <;> rintro rfl <;> exact notAscii (by decide)
  have applied : (Token.text (fromUtf8Lossy bytes)).apply opened = some opened := by
    refine if_neg ?_
    rintro ⟨rfl, blank⟩
    refine blank ?_
    have none : bytes = [] := by
      by_contra nonempty
      exact inElement nonempty rfl
    rw [none]
    rfl
  have flows : flow opened [.text (fromUtf8Lossy bytes)] = some opened := by
    rw [flow, applied]
    rfl
  simpa [Token.render] using built.append (by simpa using valid) flows

/-- All that is read leaves the text made of whole tokens. -/
def Stays (text : Text) (reads : List Bytes) : Prop :=
  ∀ before, before <+: reads → ∃ opened, Built (text ++ decoded before) opened

/-- Some read is the first to end inside markup. -/
def Breaks (text : Text) (reads : List Bytes) : Prop :=
  ∃ before,
    before <+: reads ∧ Broken (text ++ decoded before)
    ∧ ∀ earlier read,
        earlier ++ [read] <+: before → ∃ opened, Built (text ++ decoded earlier) opened

theorem stays_or_breaks_cons {text : Text} {opened : List Text} (built : Built text opened)
    {read : Bytes} {reads : List Bytes}
    (later : Stays (text ++ fromUtf8Lossy read) reads ∨ Breaks (text ++ fromUtf8Lossy read) reads)
    : Stays text (read :: reads) ∨ Breaks text (read :: reads) := by
  refine later.imp ?_ ?_
  · intro stays before inside
    cases before with
    | nil => exact ⟨opened, by simpa [decoded] using built⟩
    | cons first before =>
        obtain ⟨rfl, shorter⟩ := List.cons_prefix_cons.mp inside
        simpa using stays before shorter
  · rintro ⟨before, inside, broken, earlierBuilt⟩
    refine ⟨read :: before, by simpa using inside, by simpa using broken, ?_⟩
    intro earlier other within
    cases earlier with
    | nil => exact ⟨opened, by simpa [decoded] using built⟩
    | cons first earlier =>
        obtain ⟨rfl, shorter⟩ := List.cons_prefix_cons.mp within
        simpa using earlierBuilt earlier other shorter

/-- A run of reads through what lies ahead, by induction on the reads; a part of a character
that was cut may lie before the tokens ahead.
-/
theorem stays_or_breaks {text : Text} {opened : List Text} {part : Bytes} {rest : List Token}
    {reads : List Bytes} (built : Built text opened) (flows : flow opened rest = some [])
    (valid : ∀ token ∈ rest, token.Valid)
    (ahead : reads.flatten = part ++ toUtf8 (renderAll rest))
    (continues : ∀ byte ∈ part, isContinuation byte = true)
    (inElement : part ≠ [] → opened ≠ [])
    : Stays text reads ∨ Breaks text reads := by
  induction reads generalizing text opened part rest with
  | nil =>
      refine .inl fun before inside => ⟨opened, ?_⟩
      obtain rfl := List.prefix_nil.mp inside
      simpa [decoded] using built
  | cons read reads ih =>
      have high : ∀ byte ∈ part, ¬ byte < 0x80 :=
        fun byte member => not_ascii_of_continuation (continues byte member)
      rw [List.flatten_cons] at ahead
      rcases List.append_eq_append_iff.mp ahead with ⟨more, rfl, back⟩ | ⟨more, rfl, back⟩
      · -- the read ends inside the character that was cut
        refine stays_or_breaks_cons built (ih ?_ flows valid back ?_ ?_)
        · refine built.append_high (fun byte member => high byte (by simp [member])) ?_
          exact fun nonempty => inElement (by simp [nonempty])
        · exact fun byte member => continues byte (by simp [member])
        · exact fun nonempty => inElement (by simp [nonempty])
      · have whole : fromUtf8Lossy (part ++ more) = fromUtf8Lossy part ++ fromUtf8Lossy more :=
          fromUtf8Lossy_append part (toUtf8_fresh back)
        have started := built.append_high high inElement
        cases cut flows valid back with
        | soft done later middle tail next doneFlow laterFlow doneValid laterValid front behind
            tailHigh nextContinues nextInElement =>
            refine stays_or_breaks_cons built (ih ?_ laterFlow laterValid behind nextContinues ?_)
            · have read := (started.append doneValid doneFlow).append_high tailHigh
                fun nonempty => nextInElement (.inl nonempty)
              rw [whole, front, fromUtf8Lossy_toUtf8_append]
              simpa using read
            · exact fun nonempty => nextInElement (.inr nonempty)
        | hard done middle start tail doneFlow doneValid front tailHigh unclosed lost =>
            refine .inr ⟨[part ++ more], by simp, ?_, ?_⟩
            · refine ⟨text ++ fromUtf8Lossy part ++ renderAll done, start ++ fromUtf8Lossy tail,
                middle, ?_, started.append doneValid doneFlow, unclosed _ (lossy_high tailHigh),
                ?_⟩
              · rw [decoded_cons, whole, front, fromUtf8Lossy_toUtf8_append]
                simp [decoded]
              · refine lost.imp_left fun first => ?_
                rw [List.head?_append, first]
                rfl
            · intro earlier other within
              have none : earlier = [] := by
                have short := within.length_le
                simpa using short
              exact ⟨opened, by simpa [none, decoded] using built⟩

-----------------------------------------------------------------------------------------
-- Whole runs
-----------------------------------------------------------------------------------------

/-- The counterpart of `pop_count` for a run of reads, by induction on them. -/
theorem feedAll_count (reader : XmlReader) (readBuf : Text) (chunks : List Text)
    (p : Char → Bool)
    : ((popAll reader).feedAll (· ++ ·) readBuf chunks).1.flatten.countP p
      ≤ readBuf.countP p + chunks.flatten.countP p := by
  induction chunks generalizing readBuf with
  | nil => simp [DrainLoop.feedAll]
  | cons chunk chunks ih =>
      have first := popAll_count reader (readBuf ++ chunk) p
      have later := ih ((popAll reader).run (readBuf ++ chunk)).2
      rw [List.countP_append] at first
      simp only [DrainLoop.feedAll, DrainLoop.feed, prepend, List.flatten_append,
        List.flatten_cons, List.countP_append]
      omega

theorem Element.head_render (element : Element) : element.render.head? = some '<' := by
  cases element <;> rfl

namespace Sent

theorem renderAll_items (item : Text × Element) (elements : List (Text × Element)) (last : Text)
    : renderAll ((item :: elements).flatMap itemTokens ++ [.text last])
      = item.1 ++ (item.2.render
        ++ renderAll (elements.flatMap itemTokens ++ [.text last])) := by
  simp [itemTokens, Element.render, Token.render]

/-- Everything dark on the wire is in an element, by induction on the elements. -/
theorem countP_stanzas (sent : Sent) {p : Char → Bool} (dark : Dark p)
    : sent.stanzas.flatten.countP p = sent.wire.countP p := by
  obtain ⟨elements, last, valid, spaces, lastSpaces⟩ := sent
  induction elements with
  | nil => simp [stanzas, wire, tokens, Token.render, countP_spaces dark lastSpaces]
  | cons item elements ih =>
      have later := ih (fun other member => valid other (by simp [member]))
        fun other member => spaces other (by simp [member])
      have gap := countP_spaces dark (spaces item (by simp))
      simp only [stanzas, wire, tokens] at later ⊢
      rw [List.map_cons, List.flatten_cons, List.countP_append, later, renderAll_items,
        List.countP_append, List.countP_append, gap, Nat.zero_add]

end Sent

section Lawful

variable {reader : XmlReader} (lawful : reader.Lawful)

include lawful in
theorem pop_element {element : Element} (valid : element.Valid) {gap : Text}
    (spaces : gap.all isAsciiWhitespace = true) (rest : Text)
    : popNextTopLevelElement reader (gap ++ (element.render ++ rest))
      = (some element.render, rest) := by
  obtain ⟨before, token, middle, split, quiet, completes, applied⟩ := Element.completed valid
  have tokensValid := Element.tokens_valid valid
  have gapApplied : (Token.text gap).apply [] = some [] := by simp [Token.apply, spaces]
  have spaced : quietly [] (.text gap :: before) = some middle := by
    rw [quietly, gapApplied]
    exact quiet
  have written : renderAll (.text gap :: before) ++ token.render = gap ++ element.render := by
    rw [Element.render, split]
    simp [Token.render]
  have pops := pop_completed lawful ?_ (tokensValid token (by simp [split])) spaced completes
    applied rest
  · rwa [written, dropWhile_gap spaces element.head_render, List.append_assoc] at pops
  · intro other member
    rcases List.mem_cons.mp member with rfl | member
    · exact Sent.isTextChar_of_whitespace spaces
    · exact tokensValid other (by simp [split, member])

include lawful in
/-- The whole wire at once gives the elements, by induction on them. -/
theorem popAll_wire (sent : Sent)
    : (popAll reader).run sent.wire = (sent.stanzas, sent.last) := by
  obtain ⟨elements, last, valid, spaces, lastSpaces⟩ := sent
  induction elements with
  | nil =>
      have quiet : quietly [] [.text last] = some [] := by
        simp [quietly, Token.completes, Token.apply, lastSpaces]
      have stays := pop_quietly lawful
        (by simpa using Sent.isTextChar_of_whitespace lastSpaces) quiet
      exact (popAll_run_none stays).trans (by simp [Sent.stanzas, Token.render])
  | cons item elements ih =>
      have later := ih (fun other member => valid other (by simp [member]))
        fun other member => spaces other (by simp [member])
      have pops := pop_element lawful (valid item (by simp)) (spaces item (by simp))
        (renderAll (elements.flatMap Sent.itemTokens ++ [.text last]))
      simp only [Sent.wire, Sent.tokens] at later ⊢
      rw [Sent.renderAll_items, popAll_run_some pops, later]
      rfl

include lawful in
/-- Reads that leave whole tokens, except possibly the last one, give what all of them give at
once.
-/
theorem feedAll_of_built {reads : List Bytes}
    (built
      : ∀ earlier read,
          earlier ++ [read] <+: reads → ∃ opened, Built (decoded earlier) opened)
    : (popAll reader).feedAll (· ++ ·) [] (reads.map fromUtf8Lossy)
      = (popAll reader).run (decoded reads) := by
  have start : (popAll reader).run [] = ([], []) := popAll_run_none pop_nil
  have fed := (popAll reader).prepend_feedAll (built_step lawful) (built_absorbs lawful)
    (fun state left right => List.append_assoc state left right) [] []
    (reads.map fromUtf8Lossy) ?_
  · rw [List.append_nil, start] at fed
    simpa [decoded, prepend] using fed
  · intro before chunk inside
    obtain ⟨after, whole⟩ := inside
    obtain ⟨front, later, rfl, frontMap, -⟩ := List.map_eq_append_iff.mp whole.symm
    obtain ⟨earlier, final, rfl, rfl, one⟩ := List.map_eq_append_iff.mp frontMap
    obtain ⟨read, -, rfl⟩ : ∃ read, fromUtf8Lossy read = chunk ∧ final = [read] := by
      simpa [List.map_eq_singleton_iff, and_comm] using one
    exact built earlier read ⟨later, rfl⟩

/-- A clean end leaves whole tokens. -/
theorem Clean.built {tokens : List Token} {text : Text} {last : List Text}
    (valid : ∀ token ∈ tokens, token.Valid) (flows : flow [] tokens = some last)
    (clean : Clean tokens (toUtf8 text))
    : ∃ opened, Built text opened := by
  obtain ⟨done, rest, piece, rfl, same, inText⟩ := clean
  obtain rfl := toUtf8_injective same
  rw [flow_append] at flows
  obtain ⟨middle, doneFlow, restFlow⟩ := Option.bind_eq_some_iff.mp flows
  have built : Built (renderAll done) middle :=
    ⟨done, fun token member => valid token (by simp [member]), doneFlow, rfl⟩
  refine ⟨middle, ?_⟩
  rcases inText with rfl | ⟨chars, later, rfl, inside⟩
  · rwa [List.append_nil]
  · obtain ⟨next, applied, -⟩ := Option.bind_eq_some_iff.mp restFlow
    simp only [Token.apply] at applied
    split_ifs at applied with other
    have pieceApplied : (Token.text piece).apply middle = some middle := by
      refine if_neg fun top => top.2 (List.all_eq_true.mpr fun c member => ?_)
      have spaces : chars.all isAsciiWhitespace = true := by
        by_contra dark
        exact other ⟨top.1, by simpa using dark⟩
      exact List.all_eq_true.mp spaces c (inside.subset member)
    have pieceFlow : flow middle [.text piece] = some middle := by
      rw [flow, pieceApplied]
      rfl
    have pieceValid : ∀ token ∈ [Token.text piece], token.Valid := by
      intro token member
      obtain rfl := List.mem_singleton.mp member
      exact fun c inPiece => valid (.text chars) (by simp) c (inside.subset inPiece)
    simpa [Token.render] using built.append pieceValid pieceFlow

section Runs

variable {sent : Sent} {reads : List Bytes} (whole : reads.flatten = toUtf8 sent.wire)
variable (nonempty : [] ∉ reads)

include whole in
theorem fresh_of_clean (clean : ∀ before, before <+: reads → Clean sent.tokens before.flatten)
    : ∀ read ∈ reads, read.head?.any isContinuation = false := by
  intro read member
  obtain ⟨before, after, rfl⟩ := List.append_of_mem member
  obtain ⟨done, -, piece, -, front, -⟩ := clean before ⟨read :: after, rfl⟩
  rw [List.flatten_append, front, List.flatten_cons] at whole
  have rest := toUtf8_rest whole.symm
  cases read with
  | nil => rfl
  | cons lead read => simpa using toUtf8_fresh rest.symm lead rfl

include nonempty in
theorem decoded_fresh (fresh : ∀ read ∈ reads, read.head?.any isContinuation = false)
    {before : List Bytes} (inside : before <+: reads)
    : decoded before = fromUtf8Lossy before.flatten :=
  lossy_fresh_reads (fun member => nonempty (inside.subset member))
    fun read member => fresh read (inside.subset member)

include lawful whole nonempty in
/-- Reads that end cleanly give the elements. -/
theorem receive_of_clean (fits : (toUtf8 sent.wire).length ≤ maxReadBufferBytes)
    (clean : ∀ before, before <+: reads → Clean sent.tokens before.flatten)
    : receive reader [] reads = .ok sent.stanzas := by
  have fresh := fresh_of_clean whole clean
  have all : decoded reads = sent.wire := by
    rw [decoded_fresh nonempty fresh List.prefix_rfl, whole, fromUtf8Lossy_toUtf8]
  have built : ∀ earlier read,
      earlier ++ [read] <+: reads → ∃ opened, Built (decoded earlier) opened := by
    intro earlier read inside
    have within : earlier <+: reads := (List.prefix_append _ _).trans inside
    refine Clean.built sent.tokens_valid sent.flow_tokens ?_
    obtain ⟨done, rest, piece, split, front, inText⟩ := clean earlier within
    rw [decoded_fresh nonempty fresh within, front, fromUtf8Lossy_toUtf8]
    exact ⟨done, rest, piece, split, rfl, inText⟩
  rw [receive_within nonempty, feedAll_of_built lawful built, all, popAll_wire lawful]
  rw [length_toUtf8] at fits
  change utf8Len [] + utf8Len (decoded reads) ≤ _
  rw [all]
  simpa [utf8Len] using fits

include lawful in
/-- A text made of whole tokens does not end inside markup. -/
theorem not_broken {text : Text} {opened : List Text} (built : Built text opened)
    : ¬ Broken text := by
  intro broken
  have loses := broken_loses lawful broken
  obtain ⟨tokens, -, -, left, count⟩ := built_run lawful built
  have kept := count isAngle dark_isAngle
  rw [left] at loses
  omega

theorem isAngle_ascii (c : Char) (angle : isAngle c = true) : c.toNat < 0x80 := by
  rw [of_decide_eq_true angle]
  decide

include lawful whole in
/-- No read ends inside markup if the elements come out: it would cost a `<`. -/
theorem stays_of_received (received : receive reader [] reads = .ok sent.stanzas)
    : Stays [] reads := by
  have ahead : reads.flatten = [] ++ toUtf8 (renderAll sent.tokens) := whole
  refine (stays_or_breaks built_nil sent.flow_tokens sent.tokens_valid ahead (by simp)
    (by simp)).resolve_right ?_
  rintro ⟨before, ⟨after, rfl⟩, broken, earlier⟩
  have loses := broken_loses lawful broken
  have angles := countP_ascii_reads whole isAngle_ascii
  have sentAngles := sent.countP_stanzas dark_isAngle
  have later := feedAll_count reader ((popAll reader).run (decoded before)).2
    (after.map fromUtf8Lossy) isAngle
  rw [receive_ok received, List.map_append, DrainLoop.feedAll_append,
    feedAll_of_built lawful earlier] at sentAngles
  rw [List.map_append, List.flatten_append, List.countP_append] at angles
  simp only [prepend, List.flatten_append, List.countP_append] at sentAngles
  simp only [List.nil_append, decoded] at loses later sentAngles
  omega

include lawful whole in
/-- No read ends inside a character either: it would add a character to an element. -/
theorem fresh_of_received (received : receive reader [] reads = .ok sent.stanzas)
    : ∀ read ∈ reads, read.head?.any isContinuation = false := by
  have stays := stays_of_received lawful whole received
  obtain ⟨opened, built⟩ := stays reads List.prefix_rfl
  rw [List.nil_append] at built
  obtain ⟨tokens, valid, quiet, -, count⟩ := built_run lawful built
  have outs : sent.stanzas = ((popAll reader).run (decoded reads)).1 := by
    rw [receive_ok received, feedAll_of_built lawful]
    exact fun earlier read inside => stays earlier ((List.prefix_append _ _).trans inside)
  rw [← outs] at count
  -- nothing but white space stays in the buffer
  have blank : (renderAll tokens).all isAsciiWhitespace = true := by
    have angles := countP_ascii_reads whole isAngle_ascii
    have none : (renderAll tokens).countP isAngle = 0 := by
      have kept := count isAngle dark_isAngle
      rw [sent.countP_stanzas dark_isAngle, ← angles] at kept
      simpa [decoded] using kept
    obtain ⟨gap, inner, split, gapBlank, ends, -⟩ := scan_quietly lawful valid quiet
    rcases ends with ⟨-, rfl⟩ | ⟨-, first⟩
    · rwa [split, List.append_nil]
    · have angle : '<' ∈ renderAll tokens := by
        rw [split]
        exact List.mem_append_right _ (List.mem_of_head? first)
      exact absurd rfl (List.countP_eq_zero.mp none '<' angle)
  refine reads_fresh whole ?_
  change (decoded reads).length ≤ _
  have dark : Dark fun c => ¬ isAsciiWhitespace c = true := by
    intro c space
    simp [space]
  have kept := count _ dark
  rw [countP_spaces dark blank, sent.countP_stanzas dark] at kept
  have spaces := countP_ascii_reads whole isAsciiWhitespace_ascii
  rw [List.length_eq_countP_add_countP isAsciiWhitespace (l := decoded reads),
    List.length_eq_countP_add_countP isAsciiWhitespace (l := sent.wire)]
  change (decoded reads).countP isAsciiWhitespace = _ at spaces
  omega

include lawful whole nonempty in
/-- Reads that give the elements end cleanly. -/
theorem clean_of_received (received : receive reader [] reads = .ok sent.stanzas)
    : ∀ before, before <+: reads → Clean sent.tokens before.flatten := by
  have fresh := fresh_of_received lawful whole received
  intro before inside
  obtain ⟨opened, built⟩ := stays_of_received lawful whole received before inside
  have text := decoded_fresh nonempty fresh inside
  obtain ⟨after, rfl⟩ := inside
  rw [List.flatten_append] at whole
  cases cut sent.flow_tokens sent.tokens_valid whole.symm with
  | soft done later middle part rest doneFlow laterFlow doneValid laterValid front back high
      continues inElement clean =>
      refine clean ?_
      cases rest with
      | nil => rfl
      | cons byte rest =>
          have afterNonempty : [] ∉ after := fun member => nonempty (by simp [member])
          have afterFresh : ∀ read ∈ after, read.head?.any isContinuation = false :=
            fun read member => fresh read (by simp [member])
          have starts := head_flatten_fresh afterNonempty afterFresh byte (by rw [back]; rfl)
          rw [continues byte (by simp)] at starts
          exact absurd starts (by simp)
  | hard done middle start part doneFlow doneValid front high unclosed lost =>
      refine absurd ?_ (not_broken lawful built)
      refine ⟨renderAll done, start ++ fromUtf8Lossy part, middle, ?_,
        ⟨done, doneValid, doneFlow, rfl⟩, unclosed _ (lossy_high high), ?_⟩
      · rw [text, front, fromUtf8Lossy_toUtf8_append]
        simp
      · refine lost.imp_left fun first => ?_
        rw [List.head?_append, first]
        rfl

end Runs

end Lawful

/-- Reads give exactly the elements that were sent, each once and unchanged, if and only if
each of them ends between two tokens or inside a run of text between two characters.
-/
theorem received_iff_clean {reader : XmlReader} (lawful : reader.Lawful) (sent : Sent)
    {reads : List Bytes} (nonempty : [] ∉ reads) (whole : reads.flatten = toUtf8 sent.wire)
    (fits : (toUtf8 sent.wire).length ≤ maxReadBufferBytes)
    : receive reader [] reads = .ok sent.stanzas
      ↔ ∀ before, before <+: reads → Clean sent.tokens before.flatten :=
  ⟨clean_of_received lawful whole nonempty, receive_of_clean lawful whole nonempty fits⟩

/-- A message with some text, and white space behind it. -/
def greeting : Sent where
  elements := [([], .element "m".toList [] (.text "h\u00e9".toList .nil) [])]
  last := [' ']
  valid := by
    intro item member
    obtain rfl := List.mem_singleton.mp member
    have named : Markup.ValidName "m".toList := ⟨by decide, by decide, by decide⟩
    have plain : Markup.ValidAttributes [] := ⟨by decide, rfl⟩
    refine ⟨⟨named, plain, by decide⟩, ⟨named, by decide⟩, ⟨?_, trivial⟩, by decide⟩
    change ∀ c ∈ "h\u00e9".toList, isTextChar c = true
    decide
  spaces := by decide
  lastSpaces := rfl

theorem received_when_cut_in_text
    : receive plainReader [] [toUtf8 "<m>h".toList, toUtf8 "\u00e9</m> ".toList]
      = .ok greeting.stanzas := by
  refine (received_iff_clean plainReader_lawful greeting (by decide) (by decide)
    (by decide)).mpr ?_
  intro before inside
  match before, inside with
  | [], _ => exact ⟨[], greeting.tokens, [], rfl, by decide, .inl rfl⟩
  | [first], inside =>
      obtain ⟨rfl, -⟩ := List.cons_prefix_cons.mp inside
      refine ⟨[.text [], .markup (.start "m".toList [])], _, "h".toList, rfl, by decide,
        .inr ⟨"h\u00e9".toList, _, rfl, by decide⟩⟩
  | first :: second :: others, inside =>
      obtain ⟨rfl, later⟩ := List.cons_prefix_cons.mp inside
      obtain ⟨rfl, last⟩ := List.cons_prefix_cons.mp later
      obtain rfl := List.prefix_nil.mp last
      exact ⟨greeting.tokens, [], [], by simp, by decide, .inl rfl⟩

/-- An empty element alone. -/
def ping : Sent where
  elements := [([], .empty "iq".toList [])]
  last := []
  valid := by
    intro item member
    obtain rfl := List.mem_singleton.mp member
    exact ⟨⟨⟨by decide, by decide, by decide⟩, ⟨by decide, rfl⟩⟩, by decide⟩
  spaces := by decide
  lastSpaces := rfl

theorem ping_lost_in_two_reads
    : [] ∉ [toUtf8 "<i".toList, toUtf8 "q/>".toList]
      ∧ [toUtf8 "<i".toList, toUtf8 "q/>".toList].flatten = toUtf8 ping.wire
      ∧ (toUtf8 ping.wire).length ≤ maxReadBufferBytes
      ∧ ping.stanzas = ["<iq/>".toList]
      ∧ ∀ reader : XmlReader,
          reader.Lawful
          → receive reader [] [toUtf8 "<i".toList, toUtf8 "q/>".toList] = .ok [] := by
  refine ⟨by decide, by decide, by decide, by decide, fun reader lawful => ?_⟩
  have tag : popNextTopLevelElement reader "<i".toList = (none, []) := by
    have unclosed : Unclosed "<i".toList := ⟨['i'], .inl ⟨by decide, by decide⟩⟩
    have none : ∀ token ∈ ([] : List Token), token.Valid := by simp
    exact pop_unclosed lawful none rfl unclosed
  have text : popNextTopLevelElement reader "q/>".toList = (none, []) :=
    pop_dark_text lawful (by decide) (by decide)
  have first : (popAll reader).run ([] ++ "<i".toList) = ([], []) := popAll_run_none tag
  have second : (popAll reader).run ([] ++ "q/>".toList) = ([], []) := popAll_run_none text
  rw [receive_within (by decide) (by simp only [List.map_cons, fromUtf8Lossy_toUtf8]; decide)]
  simp only [DrainLoop.feedAll, DrainLoop.feed, List.map_cons, List.map_nil,
    fromUtf8Lossy_toUtf8, first, second, prepend, List.append_nil]

end Emwin.WxWire

import Emwin.WxWire.Content

/-! What the client makes of a top-level element: the name of its root, its parsed form, and
whether it confirms the room join.
-/

namespace Emwin.WxWire
open Library

def clientNs : Text := "jabber:client".toList

def sm3Ns : Text := "urn:xmpp:sm:3".toList

-----------------------------------------------------------------------------------------
-- The root tag
-----------------------------------------------------------------------------------------

/-- The loop of `stanza_root_tag_name`: the first tag, past everything else. -/
def rootTagFrom (reader : XmlReader) (stanza : Text) (start : Nat) : Option Text :=
  match _ : reader.next [] (stanza.drop start) with
  | .event (.start name) _ | .event (.empty name) _ => (fromUtf8 name).toOption
  | .event (.text _) length => rootTagFrom reader stanza (start + length)
  | .event .other length => rootTagFrom reader stanza (start + length)
  | .event .close _ | .eof | .error _ => none
termination_by stanza.length - start
decreasing_by
  all_goals
    have moves := reader.progress _ _ _ _ ‹_›
    rw [List.length_drop] at moves
    omega

def stanzaRootTagName (reader : XmlReader) (stanza : Text) : Option Text :=
  rootTagFrom reader stanza 0

def isSupportedTopLevelStanza (reader : XmlReader) (stanza : Text) : Bool :=
  match stanzaRootTagName reader stanza with
  | some name => name ∈ ["message".toList, "presence".toList, "iq".toList, "r".toList, "a".toList]
  | none => false

theorem rootTagFrom_tag {reader : XmlReader} {stanza name : Text} {start length : Nat}
    (found
      : reader.next [] (stanza.drop start) = .event (.start (toUtf8 name)) length
        ∨ reader.next [] (stanza.drop start) = .event (.empty (toUtf8 name)) length)
    : rootTagFrom reader stanza start = some name := by
  have decoded : (fromUtf8 (toUtf8 name)).toOption = some name := by
    rw [fromUtf8_toUtf8]
    rfl
  rw [rootTagFrom]
  rcases found with found | found
  · split <;> simp_all
  · split <;> simp_all

/-- The root tag of a well-formed element. -/
theorem stanzaRootTagName_render {reader : XmlReader} (lawful : reader.Lawful)
    {element : Element} (valid : element.Valid)
    : stanzaRootTagName reader element.render = some element.name := by
  cases element with
  | empty name attributes =>
      have found := lawful.markup [] (.empty name attributes) [] valid.1 trivial
      exact rootTagFrom_tag (.inr found)
  | element name attributes content space =>
      have found := lawful.markup [] (.start name attributes)
        (renderAll (content.tokens ++ [.markup (.close name space)])) valid.1 trivial
      exact rootTagFrom_tag (.inl found)

-----------------------------------------------------------------------------------------
-- Parsed elements
-----------------------------------------------------------------------------------------

/-- What is used of `minidom::Element`. -/
structure DomElement where
  name : Text
  ns : Text
  attrs : List (Text × Text) := []
  deriving DecidableEq, Repr

def DomElement.attr (element : DomElement) (name : Text) : Option Text :=
  (element.attrs.find? fun pair => pair.1 = name).map (·.2)

/-- The XML with a default namespace on its first tag, if it declares none. Positions count
characters; all of them stand at ASCII characters.
-/
def addDefaultClientNs (xml : Text) : Text :=
  match xml.findIdx? (· = '<') with
  | none => xml
  | some openStart =>
      match (xml.drop openStart).findIdx? (· = '>') with
      | none => xml
      | some openEndRel =>
          let openEnd := openStart + openEndRel
          let openTag := (xml.take (openEnd + 1)).drop openStart
          if "</".toList <+: openTag ∨ "<?".toList <+: openTag ∨ "<!".toList <+: openTag then xml
          else if "xmlns=".toList <:+: openTag ∨ "xmlns:".toList <:+: openTag then xml
          else
            let insertAt := if "/>".toList <:+ openTag then openEnd - 1 else openEnd
            xml.take insertAt ++ " xmlns='".toList ++ clientNs ++ ['\''] ++ xml.drop insertAt

/-- A parser of elements from text, with the text of its error. -/
abbrev DomParser := Text → Except Text DomElement

def parseElementWithDefaultNs (parse : DomParser) (xml : Text) : Except Text DomElement :=
  match parse xml with
  | .ok element => .ok element
  | .error _ => parse (addDefaultClientNs xml)

/-- Whether a presence is the room's answer to the join. -/
def isRoomJoinPresence (parse : DomParser) (roomBare nick stanza : Text)
    : Except WxWireTransportError Bool :=
  match parseElementWithDefaultNs parse stanza with
  | .error error => .error (.invalidJoinPresence error)
  | .ok element =>
      if element.name ≠ "presence".toList then .ok false
      else if element.attr "type".toList = some "error".toList
          ∨ element.attr "type".toList = some "unavailable".toList then
        .ok false
      else
        match element.attr "from".toList with
        | none => .ok false
        | some sender =>
            match splitOnce '/' sender with
            | none => .ok false
            | some (bare, resource) => .ok (bare = roomBare && resource = nick)

/-- The part of a tag's name behind its namespace. -/
def localName (name : Text) : Text :=
  match splitOnce ':' name with
  | none => name
  | some (_, rest) => rest

/-- What is relied on of the parser: it names an element after its tag. -/
def NamesByTag (parse : DomParser) : Prop :=
  ∀ name rest element,
    Markup.ValidName name
    → (∀ c, rest.head? = some c → Markup.nameChar c = false)
    → parse ('<' :: (name ++ rest)) = .ok element
    → element.name = localName name

theorem length_le_of_getElem? {c : Char} {front back : Text} (other : c ∉ front) {index : Nat}
    (here : (front ++ back)[index]? = some c)
    : front.length ≤ index := by
  by_contra less
  rw [List.getElem?_append_left (by omega)] at here
  exact other (List.mem_of_getElem? here)

/-- The default namespace leaves the tag's name alone. -/
theorem addDefaultClientNs_name {name rest : Text} (valid : Markup.ValidName name)
    (ends : ∀ c, rest.head? = some c → Markup.nameChar c = false)
    : ∃ patched,
        addDefaultClientNs ('<' :: (name ++ rest)) = '<' :: (name ++ patched)
        ∧ ∀ c, patched.head? = some c → Markup.nameChar c = false := by
  have unchanged : ∃ patched,
      '<' :: (name ++ rest) = '<' :: (name ++ patched)
      ∧ ∀ c, patched.head? = some c → Markup.nameChar c = false :=
    ⟨rest, rfl, ends⟩
  have absent {c : Char} (notName : Markup.nameChar c = false) (other : c ≠ '<')
      : c ∉ '<' :: name := by
    intro member
    rcases List.mem_cons.mp member with same | member
    · exact other same
    · rw [valid.chars c member] at notName
      exact absurd notName (by simp)
  have behind (c : Char) {index : Nat} (notName : Markup.nameChar c = false) (other : c ≠ '<')
      (here : ('<' :: (name ++ rest))[index]? = some c)
      : ('<' :: name).length ≤ index :=
    length_le_of_getElem? (absent notName other) here
  -- an insertion behind the name
  have inserted {index : Nat} (far : ('<' :: name).length ≤ index)
      : ∃ patched,
          ('<' :: (name ++ rest)).take index ++ " xmlns='".toList ++ clientNs ++ ['\'']
            ++ ('<' :: (name ++ rest)).drop index
          = '<' :: (name ++ patched)
          ∧ ∀ c, patched.head? = some c → Markup.nameChar c = false := by
    obtain ⟨more, rfl⟩ := Nat.exists_eq_add_of_le far
    refine ⟨rest.take more ++ " xmlns='".toList ++ clientNs ++ ['\''] ++ rest.drop more, ?_, ?_⟩
    · change ((('<' :: name) ++ rest).take _ ++ _ ++ _ ++ _) ++ (('<' :: name) ++ rest).drop _ = _
      rw [List.take_length_add_append, List.drop_length_add_append]
      simp
    · intro c head
      cases rest with
      | nil =>
          obtain rfl : ' ' = c := by simpa using head
          rfl
      | cons first rest =>
          cases more with
          | zero =>
              obtain rfl : ' ' = c := by simpa using head
              rfl
          | succ more => exact ends c (by simpa using head)
  have first : ('<' :: (name ++ rest)).findIdx? (· = '<') = some 0 := rfl
  unfold addDefaultClientNs
  simp only [first, List.drop_zero, Nat.zero_add]
  split
  · exact unchanged
  · next openEnd closes =>
      obtain ⟨inside, angle, -⟩ := List.findIdx?_eq_some_iff_getElem.mp closes
      split_ifs with special declared selfClosing
      · exact unchanged
      · exact unchanged
      · refine inserted (behind '/' rfl (by decide) ?_)
        obtain ⟨front, split⟩ := selfClosing
        have long : front.length + 2 = openEnd + 1 := by
          have lengths := congrArg List.length split
          rw [List.length_append, List.length_take] at lengths
          simp only [String.reduceToList, List.length_cons, List.length_nil] at lengths inside
          omega
        have slash := congrArg (·[front.length]?) split
        simp only [List.getElem?_append_right (Nat.le_refl _), Nat.sub_self] at slash
        rw [List.getElem?_take_of_lt (by omega)] at slash
        rw [show openEnd - 1 = front.length by omega, ← slash]
        rfl
      · refine inserted (behind '>' rfl (by decide) ?_)
        rw [List.getElem?_eq_getElem inside]
        simpa using angle

/-- A well-formed element starts with its tag's name. -/
theorem Element.render_name {element : Element} (valid : element.Valid)
    : ∃ rest,
        element.render = '<' :: (element.name ++ rest)
        ∧ Markup.ValidName element.name
        ∧ ∀ c, rest.head? = some c → Markup.nameChar c = false := by
  cases element with
  | empty name attributes =>
      obtain ⟨⟨named, listed⟩, -⟩ := valid
      refine ⟨attributes ++ ['/', '>'], ?_, named, ends_name listed ?_⟩
      · simp [Element.render, Element.tokens, Token.render, Markup.render, Markup.lead,
          Markup.body, Markup.last, Element.name]
      · rintro _ ⟨rfl⟩
        rfl
  | element name attributes content space =>
      obtain ⟨⟨named, listed, -⟩, -⟩ := valid
      refine ⟨attributes ++ ('>' :: renderAll (content.tokens ++ [.markup (.close name space)])),
        ?_, named, ends_name listed ?_⟩
      · simp [Element.render, Element.tokens, Token.render, Markup.render, Markup.lead,
          Markup.body, Markup.last, Element.name]
      · rintro _ ⟨rfl⟩
        rfl

/-- A well-formed element that is parsed is named after its tag, with and without the default
namespace.
-/
theorem parse_name {parse : DomParser} (names : NamesByTag parse) {element : Element}
    (valid : element.Valid) {dom : DomElement}
    (parsed : parseElementWithDefaultNs parse element.render = .ok dom)
    : dom.name = localName element.name := by
  obtain ⟨rest, written, named, ends⟩ := Element.render_name valid
  rw [written] at parsed
  unfold parseElementWithDefaultNs at parsed
  split at parsed
  · next first =>
      obtain rfl := Except.ok.inj parsed
      exact names _ _ _ named ends first
  · obtain ⟨patched, same, patchedEnds⟩ := addDefaultClientNs_name named ends
    rw [same] at parsed
    exact names _ _ _ named patchedEnds parsed

end Emwin.WxWire

import Emwin.WxWire.XmlReader
import Emwin.Library.StreamLoop

/-! The XMPP transport: its read buffer, and the top-level elements that it takes out of it. -/

namespace Emwin.WxWire
open Library

def maxReadBufferBytes : Nat := 1024 * 1024

inductive WxWireTransportError where
  | streamEnded
  | bufferOverflow (message : Text)
  | invalidJoinPresence (message : Text)
  | joinRejected (stanza : Text)
  deriving DecidableEq, Repr

/-- The result with the buffer after it, which an overflow clears. -/
def appendWithReadLimit (readBuf chunk overflowMessage : Text)
    : Except WxWireTransportError Unit × Text :=
  if utf8Len readBuf + utf8Len chunk > maxReadBufferBytes then
    (.error (.bufferOverflow overflowMessage), [])
  else (.ok (), readBuf ++ chunk)

/-- What the loop over the events comes to: it returns, or starts over with what is left. -/
inductive Scan where
  | nothing (buf : Text)
  | stanza (stanza buf : Text)
  | again (buf : Text)
  deriving DecidableEq, Repr

/-- The buffer after an error at a position: from the next `<` on. -/
def recover (buf : Text) (start : Nat) : Text := (buf.drop (start + 1)).dropWhile (· ≠ '<')

def streamTag : Text := "stream:stream".toList

def isAsciiWhitespace (c : Char) : Bool :=
  c = ' ' || c = '\t' || c = '\n' || c = '\x0c' || c = '\r'

/-- The loop of `pop_next_top_level_element`, from the position of the last event on. The
elements that are open are the reader's own state.
-/
def scan (reader : XmlReader) (buf : Text) (opened : List Text) (depth : Nat)
    (rootStart : Option Nat) (start : Nat)
    : Scan :=
  match _ : reader.next opened (buf.drop start) with
  | .eof => .nothing buf
  | .error message =>
      if unexpectedEof <:+: message then .nothing buf else .nothing (recover buf start)
  | .event (.start name) length =>
      match fromUtf8 name with
      | .error _ => .nothing (buf.drop (start + length))
      | .ok name =>
          if depth = 0 ∧ name = streamTag then .again (buf.drop (start + length))
          else
            scan reader buf (name :: opened) (depth + 1)
              (if depth = 0 then some start else rootStart) (start + length)
  | .event (.empty name) length =>
      match fromUtf8 name with
      | .error _ => .nothing (buf.drop (start + length))
      | .ok name =>
          if depth = 0 ∧ name = streamTag then .again (buf.drop (start + length))
          else if depth = 0 then
            .stanza ((buf.take (start + length)).drop start) (buf.drop (start + length))
          else scan reader buf opened depth rootStart (start + length)
  | .event .close length =>
      if depth = 0 then .nothing (buf.drop (start + length))
      else
        match depth - 1, rootStart with
        | 0, some root =>
            .stanza ((buf.take (start + length)).drop root) (buf.drop (start + length))
        | left, _ => scan reader buf opened.tail left rootStart (start + length)
  | .event (.text chars) length =>
      if depth = 0 ∧ ¬ chars.all isAsciiWhitespace then .again (buf.drop (start + length))
      else scan reader buf opened depth rootStart (start + length)
  | .event .other length => scan reader buf opened depth rootStart (start + length)
termination_by buf.length - start
decreasing_by
  all_goals
    have moves := reader.progress _ _ _ _ ‹_›
    rw [List.length_drop] at moves
    omega

/-- All that the loop can come to. -/
inductive Scanned (buf : Text) : Scan → Prop
  | waits : Scanned buf (.nothing buf)
  | recovers (start : Nat) : Scanned buf (.nothing (recover buf start))
  | drops (stop : Nat) : Scanned buf (.nothing (buf.drop stop))
  | takes {stop : Nat} (root : Nat) (moved : 0 < stop) (inside : stop ≤ buf.length)
    : Scanned buf (.stanza ((buf.take stop).drop root) (buf.drop stop))
  | restarts {stop : Nat} (moved : 0 < stop) (inside : stop ≤ buf.length)
    : Scanned buf (.again (buf.drop stop))

theorem scanned (reader : XmlReader) (buf : Text) (opened : List Text) (depth : Nat)
    (rootStart : Option Nat) (start : Nat)
    : Scanned buf (scan reader buf opened depth rootStart start) := by
  have bounds {opened : List Text} {start : Nat} {event : XmlEvent} {length : Nat}
      (step : reader.next opened (buf.drop start) = .event event length)
      : 0 < start + length ∧ start + length ≤ buf.length := by
    have moves := reader.progress _ _ _ _ step
    rw [List.length_drop] at moves
    omega
  fun_induction scan reader buf opened depth rootStart start with
  | case1 => exact .waits
  | case2 => exact .waits
  | case3 => exact .recovers _
  | case4 => exact .drops _
  | case5 _ _ _ _ _ _ step => exact .restarts (bounds step).1 (bounds step).2
  | case6 _ _ _ _ _ _ _ _ _ _ ih => exact ih
  | case7 => exact .drops _
  | case8 _ _ _ _ _ _ step => exact .restarts (bounds step).1 (bounds step).2
  | case9 _ _ _ _ _ step => exact .takes _ (bounds step).1 (bounds step).2
  | case10 _ _ _ _ _ _ _ _ _ _ _ ih => exact ih
  | case11 => exact .drops _
  | case12 _ _ _ _ step => exact .takes _ (bounds step).1 (bounds step).2
  | case13 _ _ _ _ _ _ _ _ ih => exact ih
  | case14 _ _ _ _ _ _ step => exact .restarts (bounds step).1 (bounds step).2
  | case15 _ _ _ _ _ _ _ _ ih => exact ih
  | case16 _ _ _ _ _ _ ih => exact ih

theorem again_shrinks {reader : XmlReader} {buf rest : Text}
    (starts : scan reader buf [] 0 none 0 = .again rest)
    : rest.length < buf.length := by
  have cases := scanned reader buf [] 0 none 0
  rw [starts] at cases
  cases cases with
  | restarts moved inside =>
      rw [List.length_drop]
      omega

/-- The next top-level element and the buffer without it. -/
def popNextTopLevelElement (reader : XmlReader) (buf : Text) : Option Text × Text :=
  if buf = [] then (none, buf)
  else
    match _ : scan reader buf [] 0 none 0 with
    | .nothing rest => (none, rest)
    | .stanza stanza rest => (some stanza, rest)
    | .again rest => popNextTopLevelElement reader rest
termination_by buf.length
decreasing_by exact again_shrinks ‹_›

theorem countP_drop_le (p : Char → Bool) (count : Nat) (text : Text)
    : (text.drop count).countP p ≤ text.countP p :=
  (List.drop_sublist count text).countP_le

/-- What a call takes out it does not leave behind. By induction on the calls. -/
theorem pop_count (reader : XmlReader) (buf : Text) (p : Char → Bool)
    : ((popNextTopLevelElement reader buf).1.getD []).countP p
        + (popNextTopLevelElement reader buf).2.countP p
      ≤ buf.countP p := by
  fun_induction popNextTopLevelElement reader buf with
  | case1 => simp
  | case2 buf _ rest scans =>
      have cases := scanned reader buf [] 0 none 0
      rw [scans] at cases
      simp only [Option.getD_none, List.countP_nil, Nat.zero_add]
      cases cases with
      | waits => exact Nat.le_refl _
      | recovers start =>
          exact ((List.dropWhile_sublist _).trans (List.drop_sublist _ _)).countP_le
      | drops stop => exact countP_drop_le p stop buf
  | case3 buf _ stanza rest scans =>
      have cases := scanned reader buf [] 0 none 0
      rw [scans] at cases
      cases cases with
      | @takes stop root moved inside =>
          have taken := countP_drop_le p root (buf.take stop)
          calc
            ((buf.take stop).drop root).countP p + (buf.drop stop).countP p
            _ ≤ (buf.take stop).countP p + (buf.drop stop).countP p := by omega
            _ = buf.countP p := by rw [← List.countP_append, List.take_append_drop]
  | case4 buf _ rest scans ih =>
      have cases := scanned reader buf [] 0 none 0
      rw [scans] at cases
      cases cases with
      | restarts => exact Nat.le_trans ih (countP_drop_le p _ buf)

theorem pop_shrinks {reader : XmlReader} {buf stanza rest : Text}
    (pops : popNextTopLevelElement reader buf = (some stanza, rest))
    : rest.length < buf.length := by
  fun_induction popNextTopLevelElement reader buf with
  | case1 => simp at pops
  | case2 => simp at pops
  | case3 buf _ found left scans =>
      obtain ⟨-, rfl⟩ := Prod.mk.inj pops
      have cases := scanned reader buf [] 0 none 0
      rw [scans] at cases
      cases cases with
      | takes root moved inside =>
          rw [List.length_drop]
          omega
  | case4 buf _ rest scans ih => exact Nat.lt_trans (ih pops) (again_shrinks scans)

/-- Popping until nothing is found. -/
def popAll (reader : XmlReader) : DrainLoop Text Text where
  step buf :=
    match popNextTopLevelElement reader buf with
    | (some stanza, rest) => ⟨[stanza], rest, true⟩
    | (none, rest) => ⟨[], rest, false⟩
  size := List.length
  shrinks buf progressed := by
    split at progressed
    · next stanza rest pops => simpa [pops] using pop_shrinks pops
    · exact absurd progressed (by simp)

/-- A read of the socket, appended to the buffer; nothing read is the end of the stream. -/
def readMore (readBuf : Text) (read : Bytes) : Except WxWireTransportError Unit × Text :=
  if read = [] then (.error .streamEnded, readBuf)
  else appendWithReadLimit readBuf (fromUtf8Lossy read) "xmpp read buffer exceeded limit".toList

/-- The elements taken out over a whole run, with everything popped between two reads. -/
def receive (reader : XmlReader) : Text → List Bytes → Except WxWireTransportError (List Text)
  | _, [] => .ok []
  | readBuf, read :: reads =>
      match readMore readBuf read with
      | (.error error, _) => .error error
      | (.ok (), buf) =>
          let popped := (popAll reader).run buf
          (receive reader popped.2 reads).map (popped.1 ++ ·)

/-- A call only takes from the front of the buffer. By induction on the calls. -/
theorem pop_suffix (reader : XmlReader) (buf : Text)
    : (popNextTopLevelElement reader buf).2 <:+ buf := by
  fun_induction popNextTopLevelElement reader buf with
  | case1 => exact List.suffix_rfl
  | case2 buf _ rest scans =>
      have cases := scanned reader buf [] 0 none 0
      rw [scans] at cases
      cases cases with
      | waits => exact List.suffix_rfl
      | recovers start => exact (List.dropWhile_suffix _).trans (List.drop_suffix _ _)
      | drops stop => exact List.drop_suffix _ _
  | case3 buf _ stanza rest scans =>
      have cases := scanned reader buf [] 0 none 0
      rw [scans] at cases
      cases cases with
      | takes => exact List.drop_suffix _ _
  | case4 buf _ rest scans ih =>
      have cases := scanned reader buf [] 0 none 0
      rw [scans] at cases
      cases cases with
      | restarts => exact ih.trans (List.drop_suffix _ _)

section Popping

variable {reader : XmlReader} {buf stanza rest : Text}

theorem popAll_step_some (pops : popNextTopLevelElement reader buf = (some stanza, rest))
    : (popAll reader).step buf = ⟨[stanza], rest, true⟩ := by
  simp [popAll, pops]

theorem popAll_step_none (stays : popNextTopLevelElement reader buf = (none, rest))
    : (popAll reader).step buf = ⟨[], rest, false⟩ := by
  simp [popAll, stays]

theorem popAll_run_some (pops : popNextTopLevelElement reader buf = (some stanza, rest))
    : (popAll reader).run buf = prepend [stanza] ((popAll reader).run rest) := by
  have step := popAll_step_some pops
  rw [DrainLoop.run_of_progressed _ (by rw [step]), step]

theorem popAll_run_none (stays : popNextTopLevelElement reader buf = (none, rest))
    : (popAll reader).run buf = ([], rest) := by
  have step := popAll_step_none stays
  rw [DrainLoop.run_of_stopped _ (by rw [step]), step]

end Popping

/-- The two ways a pass can go. -/
theorem popAll_step_cases (reader : XmlReader) (buf : Text)
    : (∃ stanza rest,
        popNextTopLevelElement reader buf = (some stanza, rest)
        ∧ (popAll reader).step buf = ⟨[stanza], rest, true⟩)
      ∨ ∃ rest,
        popNextTopLevelElement reader buf = (none, rest)
        ∧ (popAll reader).step buf = ⟨[], rest, false⟩ := by
  rcases pops : popNextTopLevelElement reader buf with ⟨_ | stanza, rest⟩
  · exact .inr ⟨rest, rfl, popAll_step_none pops⟩
  · exact .inl ⟨stanza, rest, rfl, popAll_step_some pops⟩

theorem popAll_suffix (reader : XmlReader) (buf : Text)
    : ((popAll reader).run buf).2 <:+ buf := by
  refine (popAll reader).run_invariant (motive := fun _ rest => rest <:+ buf) ?_ [] buf
    List.suffix_rfl
  intro _ state inside
  have suffix := pop_suffix reader state
  rcases popAll_step_cases reader state with ⟨stanza, rest, pops, step⟩ | ⟨rest, pops, step⟩
  · rw [pops] at suffix
    rw [step]
    exact suffix.trans inside
  · rw [pops] at suffix
    rw [step]
    exact suffix.trans inside

/-- The counterpart of `pop_count` for a whole run. -/
theorem popAll_count (reader : XmlReader) (buf : Text) (p : Char → Bool)
    : ((popAll reader).run buf).1.flatten.countP p + ((popAll reader).run buf).2.countP p
      ≤ buf.countP p := by
  refine (popAll reader).run_invariant
    (motive := fun stanzas rest => stanzas.flatten.countP p + rest.countP p ≤ buf.countP p)
    ?_ [] buf (by simp)
  intro before state bound
  have count := pop_count reader state p
  rcases popAll_step_cases reader state with ⟨stanza, rest, pops, step⟩ | ⟨rest, pops, step⟩
  · rw [pops] at count
    simp only [Option.getD_some] at count
    rw [step]
    simp only [List.flatten_append, List.flatten_singleton, List.countP_append]
    omega
  · rw [pops] at count
    simp only [Option.getD_none, List.countP_nil, Nat.zero_add] at count
    rw [step]
    simp only [List.append_nil]
    omega

/-- What a run gives if it does not fail, by induction on the reads. -/
theorem receive_ok {reader : XmlReader} {readBuf : Text} {reads : List Bytes}
    {stanzas : List Text} (received : receive reader readBuf reads = .ok stanzas)
    : stanzas
      = ((popAll reader).feedAll (· ++ ·) readBuf (reads.map fromUtf8Lossy)).1 := by
  induction reads generalizing readBuf stanzas with
  | nil => exact (Except.ok.inj received).symm
  | cons read reads ih =>
      rw [receive] at received
      split at received
      · exact absurd received (by simp)
      · next buf more =>
          have appended : buf = readBuf ++ fromUtf8Lossy read := by
            unfold readMore appendWithReadLimit at more
            split_ifs at more <;> simp_all
          subst appended
          simp only at received
          cases later : receive reader
              ((popAll reader).run (readBuf ++ fromUtf8Lossy read)).2 reads with
          | error error =>
              rw [later] at received
              exact absurd received (by simp [Except.map])
          | ok others =>
              rw [later] at received
              obtain rfl := Except.ok.inj received
              rw [ih later]
              rfl

/-- A run within the limit does not fail, by induction on the reads. -/
theorem receive_within {reader : XmlReader} {readBuf : Text} {reads : List Bytes}
    (nonempty : [] ∉ reads)
    (fits : utf8Len readBuf + utf8Len (reads.map fromUtf8Lossy).flatten ≤ maxReadBufferBytes)
    : receive reader readBuf reads
      = .ok ((popAll reader).feedAll (· ++ ·) readBuf (reads.map fromUtf8Lossy)).1 := by
  induction reads generalizing readBuf with
  | nil => rfl
  | cons read reads ih =>
      rw [List.map_cons, List.flatten_cons, utf8Len_append] at fits
      have more : readMore readBuf read = (.ok (), readBuf ++ fromUtf8Lossy read) := by
        have some : read ≠ [] := fun none => nonempty (by simp [none])
        unfold readMore appendWithReadLimit
        rw [if_neg some, if_neg (by omega)]
      have smaller := utf8Len_suffix (popAll_suffix reader (readBuf ++ fromUtf8Lossy read))
      rw [utf8Len_append] at smaller
      rw [receive, more]
      simp only
      rw [ih (fun member => nonempty (by simp [member])) (by omega)]
      rfl

end Emwin.WxWire

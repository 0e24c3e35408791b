import Emwin.Qbt.Protocol.CodecRuns

/-! The decoder cannot see how its input is cut into chunks. -/

namespace Emwin.Qbt.QbtProtocolDecoder
open Library

/-- A decoder that waits for a body, or has just read one, holds its header. -/
def PendingHeld (decoder : QbtProtocolDecoder) : Prop :=
  decoder.state = .blockBody ∨ decoder.state = .validate → decoder.pending.isSome

/-- Decoders that calls of `feed` and `reset` lead to from a new one. -/
inductive Reachable (externals : Externals) (config : QbtDecodeConfig)
    : QbtProtocolDecoder → Prop
  | new : Reachable externals config (.new config)
  | feed {decoder} (before : Reachable externals config decoder) (chunk : Bytes)
    : Reachable externals config (decoder.feed externals chunk).2
  | reset {decoder} (before : Reachable externals config decoder)
    : Reachable externals config decoder.reset

/-- Feed the chunks one after another and collect their events. -/
def feedAll (externals : Externals) (decoder : QbtProtocolDecoder) (chunks : List Bytes)
    : List QbtFrameEvent × QbtProtocolDecoder :=
  match chunks with
  | [] => ([], decoder)
  | chunk :: rest =>
      let fed := decoder.feed externals chunk
      prepend fed.1 (feedAll externals fed.2 rest)

variable {externals : Externals} {config : QbtDecodeConfig} {pending : Option PendingSegment}

/-- Dropping all but five searched bytes is invisible to the sync search.
Witness: no marker starts in the dropped part, so the search finds the same marker or keeps
the same five bytes.
-/
theorem run_resync_overlap {buffer : Bytes} (more : Bytes)
    (missing : windowPosition syncBytes buffer = none)
    : run externals ⟨config, buffer ++ more, .resync, pending⟩
      = run externals
          ⟨config, buffer.drop (buffer.length - 5) ++ more, .resync, pending⟩ := by
  by_cases short : buffer.length ≤ 5
  · rw [show buffer.length - 5 = 0 by omega, List.drop_zero]
  have kept : (buffer.drop (buffer.length - 5)).length = 5 := by simp; omega
  have cut := List.take_append_drop (buffer.length - 5) buffer
  generalize buffer.take (buffer.length - 5) = searched at cut
  generalize buffer.drop (buffer.length - 5) = overlap at cut kept ⊢
  subst cut
  have search := windowPosition_overlap more missing (by simp [syncBytes, kept])
  cases found : windowPosition syncBytes (overlap ++ more) with
  | none =>
      rw [found, Option.map_none] at search
      have tail : (searched ++ overlap ++ more).length - 5
          = searched.length + ((overlap ++ more).length - 5) := by
        simp only [List.length_append]
        omega
      rw [run_resync_missing search, run_resync_missing found, tail, List.append_assoc,
        List.drop_length_add_append]
  | some idx =>
      rw [found, Option.map_some] at search
      rw [run_resync_found search, run_resync_found found,
        show idx + searched.length + 6 = searched.length + (idx + 6) by omega,
        List.append_assoc, List.drop_length_add_append]

/-- More input may arrive before or after any pass.
Witness: one case per move. Most moves repeat themselves on the longer buffer; the sync
search and padding are the two that drop bytes while they wait.
-/
theorem run_extend_step (decoder : QbtProtocolDecoder) (more : Bytes)
    (held : decoder.PendingHeld)
    : run externals (decoder.extend more)
      = prepend (decoder.step externals).events
          (run externals ((decoder.step externals).state.extend more)) := by
  have move := move_step externals decoder
  generalize decoder.step externals = pass at move ⊢
  cases move with
  | @syncFound config buffer pending idx found =>
      have bound := (windowPosition_split found).2
      have later : run externals ⟨config, buffer ++ more, .resync, pending⟩ = _ :=
        run_resync_found (windowPosition_append more found)
      rwa [List.drop_append_of_le_length (by simpa [syncBytes] using bound)] at later
  | syncMissing missing => exact run_resync_overlap more missing
  | @paddingSkipped config buffer pending first rest skipped =>
      have skipped' : (buffer ++ more).dropWhile (· == 0) = first :: (rest ++ more) := by
        rw [List.dropWhile_append, skipped]
        rfl
      exact (Move.paddingSkipped skipped').run_eq
  | paddingOnly zeros => exact run_startFrame_zeros more zeros
  | typeWaits | listWaits | headerWaits | bodyWaits => rfl
  | @typeUnknown config first rest pending unknown =>
      have unknown' : first ≠ 0x2F
          ∨ (2 ≤ (rest ++ more).length ∧ ¬ pfBytes <+: first :: (rest ++ more)
              ∧ ¬ seBytes <+: first :: (rest ++ more)) := by
        refine unknown.imp_right ?_
        rintro ⟨long, notPf, notSe⟩
        refine ⟨by simp only [List.length_append]; omega, ?_, ?_⟩
        · rwa [← List.cons_append, prefix_append_iff more (by simpa [pfBytes] using long)]
        · rwa [← List.cons_append, prefix_append_iff more (by simpa [seBytes] using long)]
      exact (Move.typeUnknown unknown').run_eq
  | typeBlock marked => exact (Move.typeBlock (marked.trans (List.prefix_append _ _))).run_eq
  | typeServerList marked =>
      exact (Move.typeServerList (marked.trans (List.prefix_append _ _))).run_eq
  | listRead body decoded =>
      simp only [extend, List.append_assoc, List.cons_append]
      exact (Move.listRead body decoded).run_eq
  | listRefused body refused =>
      simp only [extend, List.append_assoc, List.cons_append]
      exact (Move.listRefused body refused).run_recovers
  | headerRead size parsed =>
      simp only [extend, List.append_assoc]
      exact (Move.headerRead size parsed).run_eq
  | headerRefused size refused =>
      simp only [extend, List.append_assoc]
      exact (Move.headerRefused size refused).run_recovers
  | bodyRead size =>
      simp only [extend, List.append_assoc]
      exact (Move.bodyRead size).run_eq
  | emitted => exact Move.emitted.run_eq
  | bodyMissing late => exact absurd (held late) (by simp)

/-- A pass keeps the header of an unfinished body, by cases on the moves. -/
theorem step_pendingHeld (decoder : QbtProtocolDecoder) (held : decoder.PendingHeld)
    : (decoder.step externals).state.PendingHeld := by
  have move := move_step externals decoder
  generalize decoder.step externals = pass at move ⊢
  cases move with
  | headerRead | bodyRead | bodyWaits => intro; rfl
  | _ => intro late; simp at late

theorem extend_pendingHeld (decoder : QbtProtocolDecoder) (more : Bytes)
    (held : decoder.PendingHeld)
    : (decoder.extend more).PendingHeld :=
  held

/-- The feed loop is insensitive to chunk boundaries. -/
theorem streamLaws (externals : Externals)
    : StreamLaws (feedLoop externals) extend PendingHeld where
  extend_nil decoder := by simp [extend]
  extend_append decoder left right := by simp [extend]
  inv_extend := extend_pendingHeld
  inv_step := step_pendingHeld
  absorbs := run_extend_step

/-- A decoder between two calls: it holds what it needs and another pass changes nothing. -/
structure AtRest (externals : Externals) (decoder : QbtProtocolDecoder) : Prop where
  held : decoder.PendingHeld
  idle : decoder.run externals = ([], decoder)

theorem atRest_resync (externals : Externals) (config : QbtDecodeConfig)
    : AtRest externals ⟨config, [], .resync, none⟩ where
  held := by simp [PendingHeld]
  idle := run_resync_short (by simp)

/-- Feeding always ends at rest, because draining twice is draining once. -/
theorem AtRest.of_feed {decoder : QbtProtocolDecoder} (held : decoder.PendingHeld)
    (chunk : Bytes)
    : AtRest externals (decoder.feed externals chunk).2 where
  held := (streamLaws externals).inv_run (extend_pendingHeld decoder _ held)
  idle := (streamLaws externals).run_idle (extend_pendingHeld decoder _ held)

/-- Every reachable decoder is at rest, by induction on the calls. -/
theorem Reachable.atRest {decoder : QbtProtocolDecoder}
    (reachable : Reachable externals config decoder)
    : AtRest externals decoder := by
  induction reachable with
  | new => exact atRest_resync externals config
  | feed before chunk ih => exact .of_feed ih.held chunk
  | reset before ih => exact atRest_resync externals _

/-- The decoder's `feedAll` is the library's, on decoded bytes. -/
theorem feedAll_eq_library (externals : Externals) (decoder : QbtProtocolDecoder)
    (chunks : List Bytes)
    : feedAll externals decoder chunks
      = (feedLoop externals).feedAll extend decoder (chunks.map xorFf) := by
  induction chunks generalizing decoder with
  | nil => rfl
  | cons chunk rest ih => simp only [feedAll, ih, List.map_cons, DrainLoop.feedAll, feed]

theorem xorFf_flatten (chunks : List Bytes)
    : xorFf chunks.flatten = (chunks.map xorFf).flatten := by
  exact List.map_flatten

/-- From a decoder at rest, any cutting of the input gives the events and the final decoder
of one single feed.
-/
theorem AtRest.feedAll_eq {decoder : QbtProtocolDecoder} (rest : AtRest externals decoder)
    (chunks : List Bytes)
    : feedAll externals decoder chunks = decoder.feed externals chunks.flatten := by
  rw [feedAll_eq_library, feed, xorFf_flatten]
  exact (streamLaws externals).feedAll_eq_feed rest.held rest.idle (chunks.map xorFf)

/-- Chunking invariance: from every reachable decoder, feeding the chunks of any cutting of
the input emits the concatenated events of one single feed and leaves the same buffer,
state and pending segment.
-/
theorem feed_chunking_invariant (externals : Externals) (config : QbtDecodeConfig)
    (decoder : QbtProtocolDecoder) (reachable : Reachable externals config decoder)
    (chunks : List Bytes)
    : feedAll externals decoder chunks = decoder.feed externals chunks.flatten :=
  reachable.atRest.feedAll_eq chunks

/-- A server-list frame cut inside its sync marker and inside its name. -/
theorem feed_chunking_invariant_serverList
    : Reachable sampleExternals {} (.new {})
      ∧ feedAll sampleExternals (.new {})
          [xorFf [0, 0, 0], xorFf ([0, 0, 0] ++ toUtf8 "/ServerL".toList), [],
            xorFf (toUtf8 "ist/a:1".toList ++ [0])]
        = ([.serverListUpdate { servers := [("a".toList, 1)] }],
            ⟨{}, [], .startFrame, none⟩) := by
  refine ⟨.new, ?_⟩
  rw [feed_chunking_invariant sampleExternals {} (.new {}) .new]
  decide +kernel

end Emwin.Qbt.QbtProtocolDecoder

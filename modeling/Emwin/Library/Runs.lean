import Mathlib.Data.List.DropRight
import Mathlib.Data.List.Infix

/-! A list cut at its stops: the runs that a stop has closed, and the one still open. A reader
of a stream sees the closed runs chunk by chunk, as far as its window reaches back.
-/

namespace Library

variable {α β : Type} {stop : α → Bool}

/-- Each stop with the run before it. -/
def closedRuns (stop : α → Bool) : List α → List (List α × α)
  | [] => []
  | first :: rest =>
      if stop first then ([], first) :: closedRuns stop rest
      else
        match closedRuns stop rest with
        | [] => []
        | (run, last) :: later => (first :: run, last) :: later

/-- What stands behind the last stop. -/
def openRun (stop : α → Bool) : List α → List α
  | [] => []
  | first :: rest => if rest.all (!stop ·) && !stop first then first :: rest else openRun stop rest

/-- No stop in the list. -/
def Free (stop : α → Bool) (list : List α) : Prop := ∀ a ∈ list, stop a = false

/-- The list is empty or ends with a stop. -/
def Closed (stop : α → Bool) (list : List α) : Prop :=
  list = [] ∨ ∃ front last, list = front ++ [last] ∧ stop last = true

theorem Free.nil : Free stop [] := nofun

theorem Free.of_suffix {list part : List α} (free : Free stop list) (inside : part <:+ list)
    : Free stop part :=
  fun a member => free a (inside.mem member)

theorem Free.append {left right : List α} (free : Free stop left) (later : Free stop right)
    : Free stop (left ++ right) := by
  intro a member
  rcases List.mem_append.mp member with old | new
  · exact free a old
  · exact later a new

theorem Closed.of_suffix {list part : List α} (closed : Closed stop list)
    (inside : part <:+ list)
    : Closed stop part := by
  rcases closed with rfl | ⟨front, last, rfl, stops⟩
  · exact .inl (List.suffix_nil.mp inside)
  · rcases List.suffix_concat_iff.mp inside with empty | ⟨before, rfl, -⟩
    · exact .inl empty
    · exact .inr ⟨before, last, rfl, stops⟩

theorem Closed.append {left right : List α} (closed : Closed stop left)
    (later : Closed stop right)
    : Closed stop (left ++ right) := by
  rcases later with rfl | ⟨front, last, rfl, stops⟩
  · rwa [List.append_nil]
  · exact .inr ⟨left ++ front, last, (List.append_assoc ..).symm, stops⟩

attribute [local simp] closedRuns openRun in
theorem closedRuns_free {run : List α} (free : Free stop run)
    : closedRuns stop run = [] ∧ openRun stop run = run := by
  induction run with
  | nil => exact ⟨rfl, rfl⟩
  | cons first run ih =>
      have rest : Free stop run := free.of_suffix (List.suffix_cons first run)
      have here : stop first = false := free first (by simp)
      refine ⟨by simp [closedRuns, here, (ih rest).1], ?_⟩
      have all : run.all (!stop ·) = true := by
        simp only [List.all_eq_true, Bool.not_eq_true']
        exact rest
      simp [openRun, all, here]

theorem closedRuns_stop {run : List α} {last : α} (free : Free stop run)
    (stops : stop last = true) (rest : List α)
    : closedRuns stop (run ++ last :: rest) = (run, last) :: closedRuns stop rest
      ∧ openRun stop (run ++ last :: rest) = openRun stop rest := by
  induction run with
  | nil => simp [closedRuns, openRun, stops]
  | cons first run ih =>
      have here : stop first = false := free first (by simp)
      obtain ⟨closed, last⟩ := ih (free.of_suffix (List.suffix_cons first run))
      refine ⟨by simp [closedRuns, here, closed], ?_⟩
      rw [List.cons_append, openRun, last]
      simp [stops]

/-- A list is free of stops, or a run up to its first stop comes before the rest of it. -/
theorem runs_induction {motive : List α → Prop} (stop : α → Bool)
    (free : ∀ run, Free stop run → motive run)
    (stopped
      : ∀ run last rest,
          Free stop run → stop last = true → motive rest → motive (run ++ last :: rest))
    (list : List α)
    : motive list := by
  induction length : list.length using Nat.strongRecOn generalizing list with
  | _ size ih =>
      by_cases none : Free stop list
      · exact free list none
      · obtain ⟨last, found⟩ : ∃ last, list.find? stop = some last := by
          rw [← Option.isSome_iff_exists, List.find?_isSome]
          simpa [Free] using none
        obtain ⟨stops, run, rest, rfl, before⟩ := List.find?_eq_some_iff_append.mp found
        have free : Free stop run := fun a member => by simpa using before a member
        refine stopped run last rest free stops (ih rest.length ?_ rest rfl)
        simp only [List.length_append, List.length_cons] at length
        omega

/-- The runs of a list in two parts: the open run of the first goes on in the second. -/
theorem closedRuns_append (left right : List α)
    : closedRuns stop (left ++ right)
        = closedRuns stop left ++ closedRuns stop (openRun stop left ++ right)
      ∧ openRun stop (left ++ right) = openRun stop (openRun stop left ++ right) := by
  induction left using runs_induction stop with
  | free run free =>
      rw [(closedRuns_free free).1, (closedRuns_free free).2]
      exact ⟨rfl, rfl⟩
  | stopped run last rest free stops ih =>
      rw [List.append_assoc, List.cons_append, (closedRuns_stop free stops _).1,
        (closedRuns_stop free stops _).1, (closedRuns_stop free stops _).2,
        (closedRuns_stop free stops _).2, ih.1, ih.2]
      exact ⟨rfl, rfl⟩

/-- A list is what its stops have closed, and its open run. -/
theorem openRun_split (stop : α → Bool) (list : List α)
    : ∃ closed, list = closed ++ openRun stop list ∧ Closed stop closed
        ∧ Free stop (openRun stop list) := by
  induction list using runs_induction stop with
  | free run free =>
      rw [(closedRuns_free free).2]
      exact ⟨[], rfl, .inl rfl, free⟩
  | stopped run last rest free stops ih =>
      obtain ⟨closed, split, ends, opens⟩ := ih
      rw [(closedRuns_stop free stops rest).2]
      refine ⟨run ++ last :: closed, ?_, ?_, opens⟩
      · rw [List.append_assoc, List.cons_append, ← split]
      · rw [← List.singleton_append, ← List.append_assoc]
        exact Closed.append (.inr ⟨run, last, rfl, stops⟩) ends

theorem openRun_of_closed {list : List α} (closed : Closed stop list)
    : openRun stop list = [] := by
  obtain ⟨before, split, -, free⟩ := openRun_split stop list
  rcases closed.of_suffix ⟨before, split.symm⟩ with empty | ⟨front, last, same, stops⟩
  · exact empty
  · rw [free last (by simp [same])] at stops
    cases stops

/-- The stops of a list are its stopping elements, in order. -/
theorem map_snd_closedRuns (list : List α)
    : (closedRuns stop list).map Prod.snd = list.filter stop := by
  induction list using runs_induction stop with
  | free run free =>
      rw [(closedRuns_free free).1]
      exact (List.filter_eq_nil_iff.mpr fun a member => by simp [free a member]).symm
  | stopped run last rest free stops ih =>
      have skipped : run.filter stop = [] :=
        List.filter_eq_nil_iff.mpr fun a member => by simp [free a member]
      rw [(closedRuns_stop free stops rest).1, List.filter_append, skipped,
        List.filter_cons_of_pos stops, List.map_cons, ih]
      rfl

theorem closedRuns_map (f : α → β) (stop : β → Bool) (list : List α)
    : closedRuns stop (list.map f)
        = (closedRuns (stop ∘ f) list).map (Prod.map (List.map f) f)
      ∧ openRun stop (list.map f) = (openRun (stop ∘ f) list).map f := by
  have free_map : ∀ run, Free (stop ∘ f) run → Free stop (run.map f) := by
    intro run free b member
    obtain ⟨a, inside, rfl⟩ := List.mem_map.mp member
    exact free a inside
  induction list using runs_induction (stop ∘ f) with
  | free run free =>
      rw [(closedRuns_free free).1, (closedRuns_free free).2,
        (closedRuns_free (free_map run free)).1, (closedRuns_free (free_map run free)).2]
      exact ⟨rfl, rfl⟩
  | stopped run last rest free stops ih =>
      rw [(closedRuns_stop free stops rest).1, (closedRuns_stop free stops rest).2,
        List.map_append, List.map_cons, (closedRuns_stop (free_map run free) stops _).1,
        (closedRuns_stop (free_map run free) stops _).2, ih.1, ih.2]
      exact ⟨rfl, rfl⟩

/-- A closed run of a list stands behind a closed part of it. -/
theorem mem_closedRuns_of_split {before run rest : List α} {last : α}
    (closed : Closed stop before) (free : Free stop run) (stops : stop last = true)
    : (run, last) ∈ closedRuns stop (before ++ (run ++ last :: rest)) := by
  rw [(closedRuns_append before _).1, openRun_of_closed closed, List.nil_append,
    (closedRuns_stop free stops rest).1]
  simp

/-- The first stop of a list is in one place only. -/
theorem free_stop_unique {run other rest tail : List α} {last final : α}
    (free : Free stop run) (free' : Free stop other) (stops : stop last = true)
    (stops' : stop final = true) (same : run ++ last :: rest = other ++ final :: tail)
    : run = other ∧ last = final := by
  have runs := (closedRuns_stop free stops rest).1
  rw [same, (closedRuns_stop free' stops' tail).1] at runs
  have heads := (List.cons.inj runs).1
  exact ⟨(congrArg Prod.fst heads).symm, (congrArg Prod.snd heads).symm⟩

-----------------------------------------------------------------------------------------
-- Closed runs in a window
-----------------------------------------------------------------------------------------

/-- The runs without the first elements of the list; a run that is gone is empty. -/
def cutRuns : Nat → List (List α × α) → List (List α × α)
  | _, [] => []
  | count, (run, last) :: later =>
      (run.drop count, last) :: cutRuns (count - (run.length + 1)) later

attribute [local simp] cutRuns in
theorem cutRuns_zero (runs : List (List α × α)) : cutRuns 0 runs = runs := by
  induction runs with
  | nil => rfl
  | cons first later ih => simp [cutRuns, ih]

theorem map_snd_cutRuns (count : Nat) (runs : List (List α × α))
    : (cutRuns count runs).map Prod.snd = runs.map Prod.snd := by
  induction runs generalizing count with
  | nil => rfl
  | cons first later ih => simp [cutRuns, ih]

theorem cutRuns_map (f : α → β) (count : Nat) (runs : List (List α × α))
    : cutRuns count (runs.map (Prod.map (List.map f) f))
      = (cutRuns count runs).map (Prod.map (List.map f) f) := by
  induction runs generalizing count with
  | nil => rfl
  | cons first later ih => simp [cutRuns, ih]

/-- Runs that are cut and runs of a list that is cut give the same, for a choice that takes
nothing from an empty run.
-/
theorem filterMap_closedRuns_drop {pick : List α → Option β} (empty : pick [] = none)
    (count : Nat) (list : List α)
    : (closedRuns stop (list.drop count)).filterMap (fun run => pick run.1)
      = (cutRuns count (closedRuns stop list)).filterMap (fun run => pick run.1) := by
  induction list using runs_induction stop generalizing count with
  | free run free =>
      rw [(closedRuns_free free).1,
        (closedRuns_free (free.of_suffix (List.drop_suffix count run))).1]
      rfl
  | stopped run last rest free stops ih =>
      rw [(closedRuns_stop free stops rest).1, cutRuns, List.filterMap_cons]
      by_cases inside : count ≤ run.length
      · rw [List.drop_append_of_le_length inside,
          (closedRuns_stop (free.of_suffix (List.drop_suffix count run)) stops rest).1,
          Nat.sub_eq_zero_of_le (Nat.le_succ_of_le inside), cutRuns_zero,
          List.filterMap_cons]
      · have gone : (run ++ last :: rest).drop count = rest.drop (count - (run.length + 1)) := by
          obtain ⟨more, rfl⟩ := Nat.exists_eq_add_of_lt (Nat.lt_of_not_le inside)
          rw [List.drop_append, List.drop_eq_nil_of_le (by omega)]
          rw [show run.length + more + 1 - run.length = more + 1 by omega,
            show run.length + more + 1 - (run.length + 1) = more by omega]
          rfl
        rw [gone, ih, List.drop_eq_nil_of_le (by omega), empty]

/-- Where a run that was cut stands in the list. -/
theorem mem_cutRuns {count : Nat} {list part : List α} {last : α}
    (member : (part, last) ∈ cutRuns count (closedRuns stop list))
    : ∃ before run rest,
        list = before ++ (run ++ last :: rest)
        ∧ Closed stop before
        ∧ Free stop run
        ∧ stop last = true
        ∧ part = run.drop (count - before.length) := by
  induction list using runs_induction stop generalizing count with
  | free run free =>
      rw [(closedRuns_free free).1] at member
      cases member
  | stopped run final rest free stops ih =>
      rw [(closedRuns_stop free stops rest).1, cutRuns] at member
      rcases List.mem_cons.mp member with here | later
      · obtain ⟨rfl, rfl⟩ := Prod.mk.inj here
        exact ⟨[], run, rest, rfl, .inl rfl, free, stops, rfl⟩
      · obtain ⟨before, inner, tail, rfl, closed, inside, ends, same⟩ := ih later
        refine ⟨run ++ final :: before, inner, tail, by simp, ?_, inside, ends, ?_⟩
        · rw [← List.singleton_append, ← List.append_assoc]
          exact Closed.append (.inr ⟨run, final, rfl, stops⟩) closed
        · rw [same]
          congr 1
          simp only [List.length_append, List.length_cons]
          omega

/-- What stands before a stop, without a stop in it and behind the cut, is the end of a run.
-/
theorem suffix_cutRuns {count : Nat} {list before part rest : List α} {last : α}
    (split : list = before ++ (part ++ last :: rest)) (free : Free stop part)
    (stops : stop last = true) (reach : count ≤ before.length)
    : ∃ run, (run, last) ∈ cutRuns count (closedRuns stop list) ∧ part <:+ run := by
  induction list using runs_induction stop generalizing count before with
  | free run whole =>
      have clash := whole last (by simp [split])
      rw [stops] at clash
      cases clash
  | stopped run final tail whole ends ih =>
      rw [(closedRuns_stop whole ends tail).1, cutRuns]
      rcases List.append_eq_append_iff.mp split with ⟨more, rfl, same⟩ | ⟨more, rfl, same⟩
      · cases more with
        | nil =>
            -- the part is empty: its stop is the first one
            obtain ⟨rfl, rfl⟩ := free_stop_unique free .nil stops ends same.symm
            exact ⟨_, List.mem_cons_self .., List.nil_suffix⟩
        | cons first more =>
            obtain ⟨rfl, behind⟩ := List.cons.inj same
            rw [List.length_append, List.length_cons] at reach
            obtain ⟨inner, member, inside⟩ :=
              @ih (count - (run.length + 1)) more behind (by omega)
            exact ⟨inner, List.mem_cons_of_mem _ member, inside⟩
      · have behind : Free stop more := whole.of_suffix (List.suffix_append before more)
        obtain ⟨rfl, rfl⟩ := free_stop_unique free behind stops ends same
        refine ⟨_, List.mem_cons_self .., ?_⟩
        rw [List.drop_append_of_le_length reach]
        exact List.suffix_append ..

-----------------------------------------------------------------------------------------
-- A stream in chunks
-----------------------------------------------------------------------------------------

/-- The runs closed by each chunk, as a window of the given size shows them when the chunk
has come. The first argument is the run that is still open.
-/
def views (stop : α → Bool) (limit : Nat) : List α → List (List α) → List (List α × α)
  | _, [] => []
  | before, chunk :: later =>
      cutRuns ((before ++ chunk).length - limit) (closedRuns stop (before ++ chunk))
        ++ views stop limit (openRun stop (before ++ chunk)) later

attribute [local simp] views in
theorem map_snd_views (limit : Nat) {before : List α} (free : Free stop before)
    (chunks : List (List α))
    : (views stop limit before chunks).map Prod.snd = (before ++ chunks.flatten).filter stop := by
  induction chunks generalizing before with
  | nil =>
      simp only [views, List.flatten_nil, List.append_nil, List.map_nil]
      exact (List.filter_eq_nil_iff.mpr fun a member => by simp [free a member]).symm
  | cons chunk later ih =>
      obtain ⟨closed, split, -, opens⟩ := openRun_split stop (before ++ chunk)
      rw [views, List.map_append, map_snd_cutRuns, ih opens, map_snd_closedRuns,
        List.flatten_cons, ← List.append_assoc, List.filter_append (openRun _ _),
        List.filter_append (before ++ chunk)]
      have none : (openRun stop (before ++ chunk)).filter stop = [] :=
        List.filter_eq_nil_iff.mpr fun a member => by simp [opens a member]
      rw [none, List.nil_append]

theorem views_map (f : α → β) (stop : β → Bool) (limit : Nat) (before : List α)
    (chunks : List (List α))
    : views stop limit (before.map f) (chunks.map (List.map f))
      = (views (stop ∘ f) limit before chunks).map (Prod.map (List.map f) f) := by
  induction chunks generalizing before with
  | nil => rfl
  | cons chunk later ih =>
      rw [List.map_cons, views, ← List.map_append, (closedRuns_map f stop _).1,
        (closedRuns_map f stop _).2, cutRuns_map, List.length_map, ih, views, List.map_append]

/-- A stop is not among elements that are free of stops. -/
theorem length_le_of_free {before chunk front run rest : List α} {last : α}
    (free : Free stop before) (stops : stop last = true)
    (split : before ++ chunk = front ++ (run ++ last :: rest))
    : before.length ≤ (front ++ run).length := by
  by_contra early
  rw [Nat.not_le] at early
  rw [← List.append_assoc] at split
  have inBefore : before[(front ++ run).length]? = some last := by
    have found := congrArg (·[(front ++ run).length]?) split
    simp only [List.getElem?_append_left early, List.getElem?_append_right le_rfl,
      Nat.sub_self, List.getElem?_cons_zero] at found
    exact found
  have clash := free last (List.mem_of_getElem? inBefore)
  rw [stops] at clash
  cases clash

/-- Where a view stands in the stream. -/
theorem mem_views {limit : Nat} {before : List α} {chunks : List (List α)} {part : List α}
    {last : α} (free : Free stop before)
    (member : (part, last) ∈ views stop limit before chunks)
    : ∃ past chunk later front run rest,
        chunks = past ++ chunk :: later
        ∧ before ++ (past.flatten ++ chunk) = front ++ (run ++ last :: rest)
        ∧ Closed stop front
        ∧ Free stop run
        ∧ stop last = true
        ∧ (before ++ past.flatten).length ≤ (front ++ run).length
        ∧ part = run.drop (run.length + 1 + rest.length - limit) := by
  induction chunks generalizing before with
  | nil => cases member
  | cons chunk later ih =>
      rcases List.mem_append.mp member with here | next
      · obtain ⟨front, run, rest, split, closed, inside, stops, same⟩ := mem_cutRuns here
        refine ⟨[], chunk, later, front, run, rest, rfl, split, closed, inside, stops, ?_, ?_⟩
        · rw [List.flatten_nil, List.append_nil]
          exact length_le_of_free free stops split
        · rw [same]
          congr 1
          have length := congrArg List.length split
          simp only [List.length_append, List.length_cons] at length ⊢
          omega
      · obtain ⟨closed, split, ends, opens⟩ := openRun_split stop (before ++ chunk)
        obtain ⟨past, chunk', later', front, run, rest, rfl, same, shut, inside, stops, bound,
          view⟩ := ih opens next
        refine ⟨chunk :: past, chunk', later', closed ++ front, run, rest, rfl, ?_,
          ends.append shut, inside, stops, ?_, view⟩
        · rw [List.flatten_cons, List.append_assoc, ← List.append_assoc, split,
            List.append_assoc, same, List.append_assoc]
        · have length := congrArg List.length split
          simp only [List.length_append, List.flatten_cons] at length bound ⊢
          omega

/-- What stands before a stop within the window, without a stop in it, is the end of a view.
-/
theorem suffix_views {limit : Nat} {before : List α} {past later : List (List α)}
    {chunk front part rest : List α} {last : α} (free : Free stop part)
    (split : before ++ (past.flatten ++ chunk) = front ++ (part ++ last :: rest))
    (stops : stop last = true)
    (bound : (before ++ past.flatten).length ≤ (front ++ part).length)
    (near : part.length + 1 + rest.length ≤ limit)
    : ∃ run, (run, last) ∈ views stop limit before (past ++ chunk :: later) ∧ part <:+ run := by
  induction past generalizing before front with
  | nil =>
      rw [List.flatten_nil, List.nil_append] at split
      have reach : (before ++ chunk).length - limit ≤ front.length := by
        have length := congrArg List.length split
        simp only [List.length_append, List.length_cons] at length ⊢
        omega
      obtain ⟨run, member, inside⟩ := suffix_cutRuns split free stops reach
      exact ⟨run, List.mem_append_left _ member, inside⟩
  | cons first past ih =>
      obtain ⟨closed, cut, ends, opens⟩ := openRun_split stop (before ++ first)
      have whole
          : closed ++ (openRun stop (before ++ first) ++ (past.flatten ++ chunk))
            = front ++ (part ++ last :: rest) := by
        rw [← List.append_assoc, ← cut, ← split, List.flatten_cons]
        simp only [List.append_assoc]
      have lengths := congrArg List.length cut
      -- a stop that is already closed stands before the part
      obtain ⟨front', rfl⟩ : closed <+: front := by
        rcases List.append_eq_append_iff.mp whole with ⟨more, same, -⟩ | ⟨more, same, tail⟩
        · exact ⟨more, same.symm⟩
        · rcases ends with rfl | ⟨shut, final, rfl, stopped⟩
          · exact List.nil_prefix
          · rcases List.eq_nil_or_concat more with rfl | ⟨more, final', rfl⟩
            · exact ⟨[], by rw [same, List.append_nil, List.append_nil]⟩
            · rw [List.concat_eq_append, ← List.append_assoc] at same
              rw [List.concat_eq_append] at tail
              obtain ⟨rfl, lasts⟩ := List.append_inj' same rfl
              obtain rfl := (List.cons.inj lasts).1
              have early : (more ++ [final]).length ≤ part.length := by
                simp only [List.length_append, List.flatten_cons] at bound lengths ⊢
                omega
              have inside := List.prefix_of_prefix_length_le
                (tail ▸ List.prefix_append (more ++ [final]) _)
                (List.prefix_append part (last :: rest)) early
              have clash := free final (inside.mem (by simp))
              rw [stopped] at clash
              cases clash
      rw [List.append_assoc] at whole
      have same := List.append_cancel_left whole
      obtain ⟨run, member, inside⟩ := ih same (by
        simp only [List.length_append, List.flatten_cons] at bound lengths ⊢
        omega)
      exact ⟨run, List.mem_append_right _ member, inside⟩

/-- An element of a concatenation stands in one of its pieces, by induction on the pieces. -/
theorem flatMap_eq_append_cons {f : β → List α} {pieces : List β} {before after : List α}
    {a : α} (split : pieces.flatMap f = before ++ a :: after)
    : ∃ earlier piece later front back,
        pieces = earlier ++ piece :: later
        ∧ f piece = front ++ a :: back
        ∧ before = earlier.flatMap f ++ front := by
  induction pieces generalizing before with
  | nil => simp at split
  | cons first pieces ih =>
      rw [List.flatMap_cons] at split
      rcases List.append_eq_append_iff.mp split with ⟨more, rfl, tail⟩ | ⟨more, same, tail⟩
      · obtain ⟨earlier, piece, later, front, back, rfl, inside, rfl⟩ := ih tail
        refine ⟨first :: earlier, piece, later, front, back, rfl, inside, ?_⟩
        rw [List.flatMap_cons, List.append_assoc]
      · cases more with
        | nil =>
            -- the element is the first one behind this piece
            rw [List.nil_append] at tail
            obtain ⟨earlier, piece, later, front, back, rfl, inside, none⟩ :=
              @ih [] tail.symm
            refine ⟨first :: earlier, piece, later, front, back, rfl, inside, ?_⟩
            rw [List.flatMap_cons, List.append_assoc, ← none, same, List.append_nil,
              List.append_nil]
        | cons head more =>
            obtain ⟨rfl, -⟩ := List.cons.inj tail
            exact ⟨[], first, pieces, before, more, rfl, same, rfl⟩

/-- A position of a stream lies in one of its chunks only. -/
theorem chunk_unique {past past' later later' : List (List α)} {chunk chunk' : List α}
    {position : Nat} (same : past ++ chunk :: later = past' ++ chunk' :: later')
    (lower : past.flatten.length ≤ position)
    (upper : position < (past.flatten ++ chunk).length)
    (lower' : past'.flatten.length ≤ position)
    (upper' : position < (past'.flatten ++ chunk').length)
    : past.flatten ++ chunk = past'.flatten ++ chunk' := by
  rcases List.append_eq_append_iff.mp same with ⟨more, rfl, tail⟩ | ⟨more, rfl, tail⟩
  · cases more with
    | nil => rw [List.append_nil, (List.cons.inj tail).1]
    | cons first more =>
        obtain ⟨rfl, -⟩ := List.cons.inj tail
        simp only [List.flatten_append, List.flatten_cons, List.length_append] at lower' upper
        omega
  · cases more with
    | nil => rw [List.append_nil, (List.cons.inj tail).1]
    | cons first more =>
        obtain ⟨rfl, -⟩ := List.cons.inj tail
        simp only [List.flatten_append, List.flatten_cons, List.length_append] at lower upper'
        omega

/-- When the chunk with the second position has come, a window of the given size still
reaches back to the first one.
-/
def InView (limit : Nat) (chunks : List (List α)) (start stop : Nat) : Prop :=
  ∃ past chunk later,
    chunks = past ++ chunk :: later
    ∧ past.flatten.length ≤ stop
    ∧ stop < (past.flatten ++ chunk).length
    ∧ (past.flatten ++ chunk).length ≤ start + limit

theorem inView_map {limit : Nat} {chunks : List (List α)} {start stop : Nat} (f : α → β)
    : InView limit (chunks.map (List.map f)) start stop ↔ InView limit chunks start stop := by
  constructor
  · rintro ⟨past, chunk, later, same, lower, upper, near⟩
    obtain ⟨before, rest, rfl, rfl, tail⟩ := List.map_eq_append_iff.mp same
    obtain ⟨piece, after, rfl, rfl, -⟩ := List.map_eq_cons_iff.mp tail
    simp only [← List.map_flatten, ← List.map_append, List.length_map] at lower upper near
    exact ⟨before, piece, after, rfl, lower, upper, near⟩
  · rintro ⟨past, chunk, later, rfl, lower, upper, near⟩
    refine ⟨past.map (List.map f), chunk.map f, later.map (List.map f), by simp, ?_⟩
    simp only [← List.map_flatten, ← List.map_append, List.length_map]
    exact ⟨lower, upper, near⟩

/-- A list is cut as its image is, by induction on the chunks. -/
theorem exists_pieces {f : α → β} {list : List α} {chunks : List (List β)}
    (same : list.map f = chunks.flatten)
    : ∃ pieces : List (List α), pieces.flatten = list ∧ pieces.map (List.map f) = chunks := by
  induction chunks generalizing list with
  | nil => exact ⟨[], (List.map_eq_nil_iff.mp same).symm, rfl⟩
  | cons chunk chunks ih =>
      obtain ⟨piece, rest, rfl, rfl, later⟩ := List.map_eq_append_iff.mp same
      obtain ⟨pieces, rfl, rfl⟩ := ih later
      exact ⟨piece :: pieces, rfl, rfl⟩

/-- Two choices from a list agree on the whole when they agree everywhere, if one of them
takes an element wherever the other does; by induction on the list.
-/
theorem filterMap_eq_iff {γ : Type} {f g : α → Option γ} {list : List α}
    (more : ∀ a ∈ list, (g a).isSome → (f a).isSome)
    : list.filterMap f = list.filterMap g ↔ ∀ a ∈ list, f a = g a := by
  constructor
  · intro same
    induction list with
    | nil => exact nofun
    | cons first rest ih =>
        have later : ∀ a ∈ rest, (g a).isSome → (f a).isSome :=
          fun a member => more a (List.mem_cons_of_mem _ member)
        have counts : (rest.filterMap g).length ≤ (rest.filterMap f).length := by
          rw [List.length_filterMap_eq_countP, List.length_filterMap_eq_countP]
          exact List.countP_mono_left later
        have here := more first (List.mem_cons_self ..)
        rw [List.filterMap_cons, List.filterMap_cons] at same
        intro a member
        cases left : f first with
        | none =>
            cases right : g first with
            | none =>
                rw [left, right] at same
                rcases List.mem_cons.mp member with rfl | inside
                · rw [left, right]
                · exact ih later same a inside
            | some value => simp [left, right] at here
        | some value =>
            cases right : g first with
            | none =>
                rw [left, right] at same
                have length := congrArg List.length same
                simp only [List.length_cons] at length
                omega
            | some other =>
                rw [left, right] at same
                obtain ⟨rfl, tails⟩ := List.cons.inj same
                rcases List.mem_cons.mp member with rfl | inside
                · rw [left, right]
                · exact ih later tails a inside
  · intro same
    exact List.filterMap_congr same

/-- Runs that are cut give what whole runs do if the choice does not see the cuts, by induction on
the runs.
-/
theorem filterMap_cutRuns {pick : List α → Option β} {count : Nat} {list : List α}
    (unseen
      : ∀ before run last rest,
          list = before ++ (run ++ last :: rest) → Closed stop before → Free stop run
          → stop last = true → pick (run.drop (count - before.length)) = pick run)
    : (cutRuns count (closedRuns stop list)).filterMap (fun run => pick run.1)
      = (closedRuns stop list).filterMap fun run => pick run.1 := by
  induction list using runs_induction stop generalizing count with
  | free run free => rw [(closedRuns_free free).1, cutRuns]
  | stopped run last rest free stops ih =>
      rw [(closedRuns_stop free stops rest).1, cutRuns, List.filterMap_cons, List.filterMap_cons]
      have first : pick (run.drop count) = pick run :=
        unseen [] run last rest rfl (.inl rfl) free stops
      have later := @ih (count - (run.length + 1)) (by
        intro before inner final tail split closed inside ends
        have shut : Closed stop (run ++ last :: before) := by
          rw [← List.singleton_append, ← List.append_assoc]
          exact Closed.append (.inr ⟨run, last, rfl, stops⟩) closed
        rw [← unseen (run ++ last :: before) inner final tail (by simp [split]) shut inside ends]
        congr 2
        simp only [List.length_append, List.length_cons]
        omega)
      dsimp only
      rw [first, later]

/-- A stream in small chunks shows what the whole stream does, if the choice does not see cuts that
leave the window without one chunk. By induction on the chunks.
-/
theorem filterMap_views {pick : List α → Option β} {limit size : Nat} {before : List α}
    {chunks : List (List α)} (free : Free stop before)
    (small : ∀ chunk ∈ chunks, chunk.length ≤ size)
    (unseen
      : ∀ run ∈ closedRuns stop (before ++ chunks.flatten),
          ∀ count ≤ run.1.length + 1 + size - limit, pick (run.1.drop count) = pick run.1)
    : (views stop limit before chunks).filterMap (fun run => pick run.1)
      = (closedRuns stop (before ++ chunks.flatten)).filterMap fun run => pick run.1 := by
  induction chunks generalizing before with
  | nil =>
      rw [List.flatten_nil, List.append_nil, (closedRuns_free free).1]
      rfl
  | cons chunk later ih =>
      obtain ⟨closed, split, ends, opens⟩ := openRun_split stop (before ++ chunk)
      have runs : closedRuns stop (before ++ (chunk :: later).flatten)
          = closedRuns stop (before ++ chunk)
            ++ closedRuns stop (openRun stop (before ++ chunk) ++ later.flatten) := by
        rw [List.flatten_cons, ← List.append_assoc]
        exact (closedRuns_append (before ++ chunk) later.flatten).1
      rw [runs] at unseen ⊢
      have first := @filterMap_cutRuns α β stop pick ((before ++ chunk).length - limit)
        (before ++ chunk) (by
          intro front run last rest cut shut inside stopped
          refine unseen (run, last) (List.mem_append_left _ ?_) _ ?_
          · rw [cut]
            exact mem_closedRuns_of_split shut inside stopped
          · have length := congrArg List.length cut
            have bound := small chunk (by simp)
            have reach := length_le_of_free free stopped cut
            simp only [List.length_append, List.length_cons] at length reach ⊢
            omega)
      rw [views, List.filterMap_append, List.filterMap_append, first,
        ih opens (fun other member => small other (by simp [member]))
          fun run member => unseen run (List.mem_append_right _ member)]

end Library

import Emwin.Library.Double
import Emwin.Library.Recent
import Emwin.Library.Ring
import Emwin.Qbt.Relay.State

/-! The relay's quality window: what its ratio is and which intervals it is taken over. -/

namespace Emwin.Qbt
open Library

/-- The quotient of two byte counts as doubles; one if nothing was attempted. -/
def qualityRatio (attempted forwarded : UInt64) : ℚ :=
  if attempted = 0 then 1
  else roundDouble (roundDouble forwarded.toNat / roundDouble attempted.toNat)

/-- The ratio in thousandths, rounded half up and cast to 64 bits. -/
def qualityMilli (ratio : ℚ) : UInt64 := saturated ⌊roundDouble (ratio * 1000) + 1 / 2⌋₊

namespace QualityWindow

def attemptedSum (window : QualityWindow) : UInt64 :=
  window.buckets.foldl (fun sum bucket => saturatingAdd sum bucket.attempted) 0

def forwardedSum (window : QualityWindow) : UInt64 :=
  window.buckets.foldl (fun sum bucket => saturatingAdd sum bucket.forwarded) 0

def ratio (window : QualityWindow) : ℚ :=
  qualityRatio window.attemptedSum window.forwardedSum

/-- The buckets from the oldest to the current one. -/
def contents (window : QualityWindow) : List QualityBucket :=
  ringContents window.buckets window.index

-----------------------------------------------------------------------------------------
-- The buckets as a ring
-----------------------------------------------------------------------------------------

theorem contents_perm (window : QualityWindow) : window.contents.Perm window.buckets :=
  ringContents_perm window.buckets window.index

theorem length_contents (window : QualityWindow)
    : window.contents.length = window.buckets.length :=
  window.contents_perm.length_eq

theorem contents_new (size : Nat)
    : (new size).contents = List.replicate (max size 1) ({} : QualityBucket) :=
  List.rotate_replicate ({} : QualityBucket) (max size 1) 1

theorem contents_rotate (window : QualityWindow)
    : window.rotate.contents = window.contents.tail ++ [({} : QualityBucket)] :=
  ringContents_advance window.inRange {}

theorem exists_contents_eq (window : QualityWindow)
    : ∃ older current, window.contents = older ++ [current] := by
  obtain ⟨older, current, split, -⟩ := ringContents_modify window.inRange id
  exact ⟨older, current, split⟩

/-- The current bucket is the last one. -/
theorem contents_updateCurrent {window : QualityWindow} {older : List QualityBucket}
    {current : QualityBucket} (split : window.contents = older ++ [current])
    (change : QualityBucket → QualityBucket)
    : (window.updateCurrent change).contents = older ++ [change current] := by
  obtain ⟨others, last, same, changed⟩ := ringContents_modify window.inRange change
  obtain ⟨rfl, rfl⟩ := List.append_singleton_inj.mp (split.symm.trans same)
  exact changed

theorem attemptedSum_eq (window : QualityWindow)
    : window.attemptedSum
      = saturated (window.contents.map fun bucket => bucket.attempted.toNat).sum := by
  have sum := foldl_saturatingAdd QualityBucket.attempted window.buckets 0
  rw [Nat.zero_add] at sum
  rw [(window.contents_perm.map _).sum_eq]
  exact sum

theorem forwardedSum_eq (window : QualityWindow)
    : window.forwardedSum
      = saturated (window.contents.map fun bucket => bucket.forwarded.toNat).sum := by
  have sum := foldl_saturatingAdd QualityBucket.forwarded window.buckets 0
  rw [Nat.zero_add] at sum
  rw [(window.contents_perm.map _).sum_eq]
  exact sum

end QualityWindow

-----------------------------------------------------------------------------------------
-- Intervals between ticks
-----------------------------------------------------------------------------------------

/-- A call between two ticks of the monitor. -/
inductive QualityCall where
  | attempted (bytes : UInt64)
  | forwarded (bytes : UInt64)
  deriving DecidableEq, Repr

namespace QualityCall

def attemptedBytes : QualityCall → Nat
  | .attempted bytes => bytes.toNat
  | .forwarded _ => 0

def forwardedBytes : QualityCall → Nat
  | .attempted _ => 0
  | .forwarded bytes => bytes.toNat

end QualityCall

/-- The calls of one interval. -/
abbrev QualityInterval := List QualityCall

namespace QualityInterval

def attemptedBytes (interval : QualityInterval) : Nat :=
  (interval.map QualityCall.attemptedBytes).sum

def forwardedBytes (interval : QualityInterval) : Nat :=
  (interval.map QualityCall.forwardedBytes).sum

/-- Something was attempted and nothing forwarded. -/
def Stalled (interval : QualityInterval) : Prop :=
  0 < interval.attemptedBytes ∧ interval.forwardedBytes = 0

end QualityInterval

/-- A bucket that counted the given bytes. -/
def QualityBucket.counting (attempted forwarded : Nat) : QualityBucket :=
  { attempted := saturated attempted, forwarded := saturated forwarded }

namespace QualityWindow

def call (window : QualityWindow) : QualityCall → QualityWindow
  | .attempted bytes => window.addAttempted bytes
  | .forwarded bytes => window.addForwarded bytes

/-- The calls of an interval and the tick that ends it. -/
def pass (window : QualityWindow) (interval : QualityInterval) : QualityWindow :=
  (interval.foldl call window).rotate

/-- The window right after the tick that ends the last interval. -/
def passAll (size : Nat) (history : List QualityInterval) : QualityWindow :=
  history.foldl pass (new size)

section
variable {window : QualityWindow} {older : List QualityBucket} {attempted forwarded : Nat}

theorem contents_call (split : window.contents = older ++ [.counting attempted forwarded])
    (call : QualityCall)
    : (window.call call).contents
      = older ++ [.counting (attempted + call.attemptedBytes)
          (forwarded + call.forwardedBytes)] := by
  cases call with
  | attempted bytes =>
      rw [QualityWindow.call, addAttempted, contents_updateCurrent split]
      simp [QualityBucket.counting, saturatingAdd_saturated, QualityCall.attemptedBytes,
        QualityCall.forwardedBytes]
  | forwarded bytes =>
      rw [QualityWindow.call, addForwarded, contents_updateCurrent split]
      simp [QualityBucket.counting, saturatingAdd_saturated, QualityCall.attemptedBytes,
        QualityCall.forwardedBytes]

/-- The calls of an interval add up in the current bucket, by induction on the calls. -/
theorem contents_calls (split : window.contents = older ++ [.counting attempted forwarded])
    (interval : QualityInterval)
    : (interval.foldl call window).contents
      = older ++ [.counting (attempted + interval.attemptedBytes)
          (forwarded + interval.forwardedBytes)] := by
  induction interval generalizing window attempted forwarded with
  | nil => exact split
  | cons first rest ih =>
      rw [List.foldl_cons, ih (contents_call split first)]
      simp only [QualityInterval.attemptedBytes, QualityInterval.forwardedBytes,
        List.map_cons, List.sum_cons, Nat.add_assoc]

end

/-- The bucket that an interval leaves behind. -/
def bucketOf (interval : QualityInterval) : QualityBucket :=
  .counting interval.attemptedBytes interval.forwardedBytes

/-- After a tick the window holds the buckets of all but one of its last intervals, and an
empty one; by induction on the history.
-/
theorem contents_passAll {size : Nat} (positive : 1 ≤ size) (history : List QualityInterval)
    : (passAll size history).contents
      = ((List.replicate (size - 1) [] ++ history).rtake (size - 1)).map bucketOf
        ++ [bucketOf []] := by
  induction history using List.reverseRecOn with
  | nil =>
      have count : max size 1 = size - 1 + 1 := by omega
      have all : (List.replicate (size - 1) ([] : QualityInterval)).rtake (size - 1)
          = List.replicate (size - 1) [] := by simp [List.rtake]
      rw [passAll, List.foldl_nil, contents_new, count, List.replicate_succ', List.append_nil,
        all, List.map_replicate]
      rfl
  | append_singleton earlier latest ih =>
      generalize padded : List.replicate (size - 1) [] ++ earlier = before at ih
      have length : (before.rtake (size - 1) ++ [latest]).length - 1 = size - 1 := by
        rw [← padded]
        simp only [List.rtake, List.length_append, List.length_drop, List.length_replicate,
          List.length_singleton]
        omega
      have kept : ((before.rtake (size - 1)).map bucketOf ++ [bucketOf latest]).tail
          = ((before ++ [latest]).rtake (size - 1)).map bucketOf := by
        rw [← List.map_singleton, ← List.map_append, ← List.map_tail, tail_eq_rtake, length,
          rtake_concat_rtake]
      have calls : (latest.foldl call (passAll size earlier)).contents
          = (before.rtake (size - 1)).map bucketOf ++ [bucketOf latest] := by
        rw [contents_calls ih]
        simp only [Nat.zero_add, bucketOf, QualityInterval.attemptedBytes,
          QualityInterval.forwardedBytes, List.map_nil, List.sum_nil]
      rw [passAll, List.foldl_append, List.foldl_cons, List.foldl_nil, ← passAll, pass,
        contents_rotate, calls, kept, ← List.append_assoc, padded]
      rfl

/-- What a tick adds up: all but one of the window's last intervals. -/
theorem sum_passAll {size : Nat} (positive : 1 ≤ size) (history : List QualityInterval)
    {field : QualityBucket → UInt64} {amount : QualityInterval → Nat}
    (counts : ∀ interval, field (bucketOf interval) = saturated (amount interval))
    (idle : amount [] = 0)
    : saturated ((passAll size history).contents.map fun bucket => (field bucket).toNat).sum
      = saturated ((history.rtake (size - 1)).map amount).sum := by
  rw [contents_passAll positive, rtake_replicate_append, ← List.map_singleton,
    ← List.map_append, List.map_map]
  have parts : (fun bucket => (field bucket).toNat) ∘ bucketOf
      = fun interval => (saturated (amount interval)).toNat :=
    funext fun interval => congrArg UInt64.toNat (counts interval)
  rw [parts, saturated_sum]
  simp [idle]

theorem attemptedSum_passAll {size : Nat} (positive : 1 ≤ size)
    (history : List QualityInterval)
    : (passAll size history).attemptedSum
      = saturated ((history.rtake (size - 1)).map QualityInterval.attemptedBytes).sum := by
  rw [attemptedSum_eq]
  exact sum_passAll positive history (fun _ => rfl) rfl

theorem forwardedSum_passAll {size : Nat} (positive : 1 ≤ size)
    (history : List QualityInterval)
    : (passAll size history).forwardedSum
      = saturated ((history.rtake (size - 1)).map QualityInterval.forwardedBytes).sum := by
  rw [forwardedSum_eq]
  exact sum_passAll positive history (fun _ => rfl) rfl

-----------------------------------------------------------------------------------------
-- The configured window
-----------------------------------------------------------------------------------------

/-- The first of the last intervals of a window; without traffic if there are fewer. -/
def oldest (size : Nat) (history : List QualityInterval) : QualityInterval :=
  if size ≤ history.length then (history.rtake size).headD [] else []

theorem sum_rtake {size : Nat} (positive : 1 ≤ size) (history : List QualityInterval)
    {amount : QualityInterval → Nat} (idle : amount [] = 0)
    : ((history.rtake size).map amount).sum
      = amount (oldest size history) + ((history.rtake (size - 1)).map amount).sum := by
  unfold oldest List.rtake
  by_cases full : size ≤ history.length
  · have inside : history.length - size < history.length := by omega
    have later : history.length - size + 1 = history.length - (size - 1) := by omega
    rw [if_pos full, List.drop_eq_getElem_cons inside, later, List.map_cons, List.sum_cons,
      List.headD_cons]
  · have all : history.length - size = 0 := by omega
    have most : history.length - (size - 1) = 0 := by omega
    rw [if_neg full, all, most, idle, Nat.zero_add]

/-- The bytes attempted in the last intervals. -/
def attemptedIn (count : Nat) (history : List QualityInterval) : Nat :=
  ((history.rtake count).map QualityInterval.attemptedBytes).sum

/-- The bytes forwarded in the last intervals. -/
def forwardedIn (count : Nat) (history : List QualityInterval) : Nat :=
  ((history.rtake count).map QualityInterval.forwardedBytes).sum

/-- The ratio of the last intervals. -/
def ratioIn (count : Nat) (history : List QualityInterval) : ℚ :=
  qualityRatio (saturated (attemptedIn count history)) (saturated (forwardedIn count history))

/-- The tick's ratio is the one of the window's last intervals, and it shows that the latest
interval stalled.
-/
structure Measures (size : Nat) (history : List QualityInterval) : Prop where
  ratio : (passAll size history).ratio = ratioIn size history
  stall : (history.getLastD []).Stalled → (passAll size history).ratio < 1

/-- The quotient that the two numbers have as doubles. -/
def doubleQuotient (forwarded attempted : Nat) : ℚ :=
  roundDouble
    (roundDouble (saturated forwarded).toNat / roundDouble (saturated attempted).toNat)

/-- As doubles, less was forwarded than attempted. -/
def FewerAsDoubles (forwarded attempted : Nat) : Prop :=
  roundDouble (saturated forwarded).toNat < roundDouble (saturated attempted).toNat

/-- The oldest interval leaves the ratio where the others have it: nothing was attempted at all;
or nothing in the others, and what was forwarded is what the oldest attempted; or both have the
same quotient. When the latest interval stalled, less was forwarded than attempted.
-/
structure OldestInStep (size : Nat) (history : List QualityInterval) : Prop where
  ratio
    : attemptedIn size history = 0
      ∨ (attemptedIn (size - 1) history = 0
        ∧ roundDouble (saturated (forwardedIn size history)).toNat
          = roundDouble (saturated (attemptedIn size history)).toNat)
      ∨ (0 < attemptedIn (size - 1) history
        ∧ doubleQuotient (forwardedIn (size - 1) history) (attemptedIn (size - 1) history)
          = doubleQuotient (forwardedIn size history) (attemptedIn size history))
  stall
    : (history.getLastD []).Stalled
      → FewerAsDoubles (forwardedIn size history) (attemptedIn size history)

/-- The window's bytes are few enough for the quotients of all their parts to differ as doubles
if they differ.
-/
structure Few (size : Nat) (history : List QualityInterval) : Prop where
  attempted : attemptedIn size history < 2 ^ 26
  forwarded : forwardedIn size history < 2 ^ 26

/-- The oldest interval forwarded the same share of its bytes as the others together. When the
latest interval stalled, less was forwarded than attempted.
-/
structure SameShare (size : Nat) (history : List QualityInterval) : Prop where
  share
    : if attemptedIn (size - 1) history = 0 then
        (oldest size history).attemptedBytes = 0
        ∨ forwardedIn size history = (oldest size history).attemptedBytes
      else
        (oldest size history).forwardedBytes * attemptedIn (size - 1) history
        = forwardedIn (size - 1) history * (oldest size history).attemptedBytes
  stall
    : (history.getLastD []).Stalled → forwardedIn size history < attemptedIn size history

end QualityWindow

/-- A ratio is below one exactly if something was attempted and less was forwarded, as
doubles.
-/
theorem qualityRatio_lt_one_iff (attempted forwarded : UInt64)
    : qualityRatio attempted forwarded < 1
      ↔ roundDouble forwarded.toNat < roundDouble attempted.toNat := by
  unfold qualityRatio
  split_ifs with idle
  · have nonneg : 0 ≤ roundDouble (forwarded.toNat : ℚ) := roundDouble_nonneg (by positivity)
    rw [idle]
    simpa using nonneg
  · have positive : (0 : ℚ) < attempted.toNat := by
      have nonzero : attempted.toNat ≠ 0 := fun zero => idle (UInt64.toNat.inj zero)
      exact_mod_cast Nat.pos_of_ne_zero nonzero
    exact roundDouble_div_lt_one_iff (by positivity) positive

/-- Two ratios agree if nothing was attempted for the second; if only for the first nothing was
attempted and the second is one; or if their quotients agree.
-/
theorem qualityRatio_eq_iff {attempted allAttempted : Nat} (part : attempted ≤ allAttempted)
    (forwarded allForwarded : Nat)
    : qualityRatio (saturated attempted) (saturated forwarded)
        = qualityRatio (saturated allAttempted) (saturated allForwarded)
      ↔ allAttempted = 0
        ∨ (attempted = 0
          ∧ roundDouble (saturated allForwarded).toNat
            = roundDouble (saturated allAttempted).toNat)
        ∨ (0 < attempted
          ∧ QualityWindow.doubleQuotient forwarded attempted
            = QualityWindow.doubleQuotient allForwarded allAttempted) := by
  unfold qualityRatio QualityWindow.doubleQuotient
  simp only [saturated_eq_zero_iff]
  by_cases idle : allAttempted = 0
  · obtain rfl : attempted = 0 := by omega
    simp [idle]
  have positive : (0 : ℚ) < (saturated allAttempted).toNat := by
    have nonzero : saturated allAttempted ≠ 0 := mt (saturated_eq_zero_iff _).mp idle
    exact_mod_cast Nat.pos_of_ne_zero fun zero => nonzero (UInt64.toNat.inj zero)
  rw [if_neg idle]
  by_cases none : attempted = 0
  · rw [if_pos none, eq_comm, roundDouble_div_eq_one_iff (by positivity) positive]
    simp [idle, none]
  · rw [if_neg none]
    simp [idle, none, Nat.pos_of_ne_zero none]

/-- Small counts are doubles, and so the quotient is theirs. -/
theorem doubleQuotient_small {forwarded attempted : Nat} (fewForwarded : forwarded < 2 ^ 26)
    (fewAttempted : attempted < 2 ^ 26)
    : QualityWindow.doubleQuotient forwarded attempted
      = roundDouble (forwarded / attempted) := by
  have size : UInt64.size = 2 ^ 64 := rfl
  rw [QualityWindow.doubleQuotient, saturated_toNat, saturated_toNat,
    Nat.min_eq_left (by omega), Nat.min_eq_left (by omega), roundDouble_natCast (by omega),
    roundDouble_natCast (by omega)]

theorem roundDouble_small {count : Nat} (few : count < 2 ^ 26)
    : roundDouble (saturated count).toNat = count := by
  have size : UInt64.size = 2 ^ 64 := rfl
  rw [saturated_toNat, Nat.min_eq_left (by omega), roundDouble_natCast (by omega)]

namespace QualityWindow

theorem attemptedIn_eq {size : Nat} (positive : 1 ≤ size) (history : List QualityInterval)
    : attemptedIn size history
      = (oldest size history).attemptedBytes + attemptedIn (size - 1) history :=
  sum_rtake positive history rfl

theorem forwardedIn_eq {size : Nat} (positive : 1 ≤ size) (history : List QualityInterval)
    : forwardedIn size history
      = (oldest size history).forwardedBytes + forwardedIn (size - 1) history :=
  sum_rtake positive history rfl

/-- The tick's ratio leaves the oldest interval out. -/
theorem ratio_passAll {size : Nat} (positive : 1 ≤ size) (history : List QualityInterval)
    : (passAll size history).ratio = ratioIn (size - 1) history := by
  rw [QualityWindow.ratio, attemptedSum_passAll positive, forwardedSum_passAll positive]
  rfl

theorem measures_iff {size : Nat} (positive : 1 ≤ size) (history : List QualityInterval)
    : Measures size history ↔ OldestInStep size history := by
  have part : attemptedIn (size - 1) history ≤ attemptedIn size history := by
    rw [attemptedIn_eq positive]
    exact Nat.le_add_left ..
  have ratios := qualityRatio_eq_iff part (forwardedIn (size - 1) history)
    (forwardedIn size history)
  have below := qualityRatio_lt_one_iff (saturated (attemptedIn size history))
    (saturated (forwardedIn size history))
  constructor
  · rintro ⟨ratio, stall⟩
    refine ⟨ratios.mp ((ratio_passAll positive history).symm.trans ratio), fun stalled => ?_⟩
    have seen := stall stalled
    rw [ratio] at seen
    exact below.mp seen
  · rintro ⟨step, stall⟩
    have ratio := (ratio_passAll positive history).trans (ratios.mpr step)
    refine ⟨ratio, fun stalled => ?_⟩
    rw [ratio]
    exact below.mpr (stall stalled)

/-- For few bytes the condition is one about their numbers. -/
theorem oldestInStep_iff {size : Nat} (positive : 1 ≤ size) {history : List QualityInterval}
    (few : Few size history)
    : OldestInStep size history ↔ SameShare size history := by
  obtain ⟨fewAttempted, fewForwarded⟩ := few
  have attempted := attemptedIn_eq positive history
  have forwarded := forwardedIn_eq positive history
  have fewer : FewerAsDoubles (forwardedIn size history) (attemptedIn size history)
      ↔ forwardedIn size history < attemptedIn size history := by
    rw [FewerAsDoubles, roundDouble_small fewForwarded, roundDouble_small fewAttempted]
    exact Nat.cast_lt
  have quotients
      : (attemptedIn size history = 0
          ∨ (attemptedIn (size - 1) history = 0
            ∧ roundDouble (saturated (forwardedIn size history)).toNat
              = roundDouble (saturated (attemptedIn size history)).toNat)
          ∨ (0 < attemptedIn (size - 1) history
            ∧ doubleQuotient (forwardedIn (size - 1) history) (attemptedIn (size - 1) history)
              = doubleQuotient (forwardedIn size history) (attemptedIn size history)))
        ↔ if attemptedIn (size - 1) history = 0 then
            (oldest size history).attemptedBytes = 0
            ∨ forwardedIn size history = (oldest size history).attemptedBytes
          else
            (oldest size history).forwardedBytes * attemptedIn (size - 1) history
            = forwardedIn (size - 1) history * (oldest size history).attemptedBytes := by
    rw [roundDouble_small fewForwarded, roundDouble_small fewAttempted, Nat.cast_inj]
    split_ifs with idle
    · rw [idle] at attempted ⊢
      simp only [attempted, Nat.add_zero, true_and, Nat.lt_irrefl, false_and, or_false]
    · have some : 0 < attemptedIn (size - 1) history := Nat.pos_of_ne_zero idle
      have products (left right limit : Nat) (low : left < limit) (high : right < limit)
          : left * right < limit * limit :=
        Nat.mul_lt_mul'' low high
      have square : (2 ^ 26) * (2 ^ 26) = 2 ^ 52 := by norm_num
      rw [doubleQuotient_small (by omega) (by omega),
        doubleQuotient_small fewForwarded fewAttempted,
        roundDouble_quotient_inj some (by omega)
          (square ▸ products _ _ (2 ^ 26) (by omega) fewForwarded)
          (square ▸ products _ _ (2 ^ 26) fewAttempted (by omega)), attempted, forwarded]
      simp only [idle, some, false_and, false_or, true_and, Nat.add_eq_zero_iff, and_false]
      rw [Nat.mul_add, Nat.add_mul]
      omega
  exact ⟨fun ⟨ratio, stall⟩ => ⟨quotients.mp ratio, fun stalled => fewer.mp (stall stalled)⟩,
    fun ⟨share, stall⟩ => ⟨quotients.mpr share, fun stalled => fewer.mpr (stall stalled)⟩⟩

/-- No more was forwarded than attempted in any interval, and the doubles hold the window's
bytes exactly.
-/
structure Plain (size : Nat) (history : List QualityInterval) : Prop where
  covered : ∀ interval ∈ history, interval.forwardedBytes ≤ interval.attemptedBytes
  small : ((history.rtake size).map QualityInterval.attemptedBytes).sum < 2 ^ 53

/-- A window of at least two intervals sees that the latest one stalled. -/
theorem ratio_lt_one_of_stalled {size : Nat} (several : 2 ≤ size)
    {history : List QualityInterval} (plain : Plain size history)
    (stalled : (history.getLastD []).Stalled)
    : (passAll size history).ratio < 1 := by
  rw [QualityWindow.ratio, qualityRatio_lt_one_iff, attemptedSum_passAll (by omega),
    forwardedSum_passAll (by omega), saturated_toNat, saturated_toNat]
  have small : ((history.rtake (size - 1)).map QualityInterval.attemptedBytes).sum < 2 ^ 53 := by
    have whole := plain.small
    rw [sum_rtake (by omega) history rfl] at whole
    omega
  have fewer : ((history.rtake (size - 1)).map QualityInterval.forwardedBytes).sum
      < ((history.rtake (size - 1)).map QualityInterval.attemptedBytes).sum := by
    obtain ⟨before, rfl⟩ : ∃ before, size = before + 2 := ⟨size - 2, by omega⟩
    rcases history.eq_nil_or_concat with rfl | ⟨earlier, latest, rfl⟩
    · exact absurd stalled.1 (Nat.lt_irrefl 0)
    · rw [List.concat_eq_append, List.getLastD_concat] at stalled
      have others : ((earlier.rtake before).map QualityInterval.forwardedBytes).sum
          ≤ ((earlier.rtake before).map QualityInterval.attemptedBytes).sum := by
        refine List.sum_le_sum fun interval inside => plain.covered interval ?_
        rw [List.concat_eq_append]
        exact List.mem_append_left _ (List.mem_of_mem_drop inside)
      have started := stalled.1
      have nothing := stalled.2
      rw [List.concat_eq_append, show before + 2 - 1 = before + 1 from rfl,
        List.rtake_concat_succ, List.map_append, List.map_append, List.sum_append,
        List.sum_append]
      simp only [List.map_singleton, List.sum_singleton]
      omega
  have size_eq : UInt64.size = 2 ^ 64 := rfl
  rw [Nat.min_eq_left (by omega), Nat.min_eq_left (by omega),
    roundDouble_natCast (by omega), roundDouble_natCast (by omega)]
  exact_mod_cast fewer

/-- A window of one interval forgets it before it looks. -/
theorem ratio_passAll_one (history : List QualityInterval) : (passAll 1 history).ratio = 1 := by
  have nothing : (passAll 1 history).attemptedSum = 0 := by
    rw [attemptedSum_passAll le_rfl]
    simp [List.rtake, saturated]
  rw [QualityWindow.ratio, qualityRatio, if_pos nothing]

/-- For every window the tick measures it exactly if the oldest interval leaves the ratio where
the others have it, which for few bytes is that all have the same share forwarded; and a stalled
interval shows exactly if the window is larger than one interval.
-/
theorem window_measured {size : Nat} (positive : 1 ≤ size)
    : (∀ history, Measures size history ↔ OldestInStep size history)
      ∧ (∀ history, Few size history → (Measures size history ↔ SameShare size history))
      ∧ ((∀ history,
            Plain size history
            → (history.getLastD []).Stalled
            → (passAll size history).ratio < 1)
          ↔ 2 ≤ size) := by
  refine ⟨measures_iff positive,
    fun history few => (measures_iff positive history).trans (oldestInStep_iff positive few), ?_,
    fun several _ => ratio_lt_one_of_stalled several⟩
  intro seen
  by_contra single
  obtain rfl : size = 1 := by omega
  have below := seen [[.attempted 1]] ⟨by decide, by decide⟩ ⟨by decide, by decide⟩
  rw [ratio_passAll_one] at below
  exact lt_irrefl 1 below

/-- A window of two intervals that both forwarded all their bytes. -/
theorem window_measured_two
    : 1 ≤ 2
      ∧ Measures 2 [[.attempted 10, .forwarded 10], [.attempted 10, .forwarded 10]] := by
  refine ⟨by decide, ((window_measured (by decide)).2.1 _ ⟨by decide, by decide⟩).mpr ?_⟩
  exact ⟨by decide, fun stalled => absurd stalled.2 (by decide)⟩

/-- A window of one interval, in which ten bytes were attempted and none forwarded: the ratio
is one.
-/
theorem single_interval_unseen
    : ¬ Measures 1 [[.attempted 10]]
      ∧ (passAll 1 [[.attempted 10]]).ratio = 1
      ∧ QualityInterval.Stalled [.attempted 10] := by
  have stalled : QualityInterval.Stalled [.attempted 10] := ⟨by decide, by decide⟩
  have one := ratio_passAll_one [[.attempted 10]]
  refine ⟨fun measures => ?_, one, stalled⟩
  have below := measures.stall stalled
  rw [one] at below
  exact lt_irrefl 1 below

end QualityWindow

end Emwin.Qbt

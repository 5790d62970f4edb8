import Hardhat.Network.BlockchainData
import Mathlib.Data.List.Dedup
import Mathlib.Data.List.Pairwise

namespace Hardhat.Network

namespace EmptyBlockRange

/-- `range.first.lte(blockNumber) && range.last.gte(blockNumber)`. -/
def Contains (range : EmptyBlockRange) (blockNumber : Int) : Prop :=
  range.first ≤ blockNumber ∧ blockNumber ≤ range.last

instance (range : EmptyBlockRange) (blockNumber : Int) : Decidable (range.Contains blockNumber) :=
  inferInstanceAs (Decidable (_ ∧ _))

/-- The ranges that replace `oldRange` once `blockNumber` is taken out of it. -/
def splitAround (oldRange : EmptyBlockRange) (blockNumber : Int) : List EmptyBlockRange :=
  (if blockNumber ≠ oldRange.first then
    [{ first := oldRange.first, last := blockNumber - 1,
       intervalInSeconds := oldRange.intervalInSeconds }] else []) ++
  (if blockNumber ≠ oldRange.last then
    [{ first := blockNumber + 1, last := oldRange.last,
       intervalInSeconds := oldRange.intervalInSeconds }] else [])

end EmptyBlockRange

namespace BlockchainData

variable {Block TypedTransaction RpcReceiptOutput : Type}

def splitAnyEmptyBlockRangesFor (data : BlockchainData Block TypedTransaction RpcReceiptOutput)
    (blockNumber : Int) : Bool × BlockchainData Block TypedTransaction RpcReceiptOutput :=
  match found : data.emptyBlockRanges.findIdx? (fun range => decide (range.Contains blockNumber)) with
  | none => (false, data)
  | some rangeIndex =>
      have bound : rangeIndex < data.emptyBlockRanges.length :=
        (List.findIdx?_eq_some_iff_findIdx_eq.mp found).1
      let oldRange := data.emptyBlockRanges[rangeIndex]
      let emptyBlockRanges := data.emptyBlockRanges.eraseIdx rangeIndex
      let emptyBlockRanges :=
        if blockNumber ≠ oldRange.first then
          emptyBlockRanges ++
            [{ first := oldRange.first, last := blockNumber - 1,
               intervalInSeconds := oldRange.intervalInSeconds }]
        else emptyBlockRanges
      let emptyBlockRanges :=
        if blockNumber ≠ oldRange.last then
          emptyBlockRanges ++
            [{ first := blockNumber + 1, last := oldRange.last,
               intervalInSeconds := oldRange.intervalInSeconds }]
        else emptyBlockRanges
      (true, { data with emptyBlockRanges := emptyBlockRanges })

private theorem findIdx?_eq_some_split {α : Type} {p : α → Bool} {l : List α} {index : Nat}
    (found : l.findIdx? p = some index) :
    ∃ before x after, l = before ++ x :: after ∧ before.length = index ∧
      (∀ y ∈ before, p y = false) ∧ p x = true := by
  induction l generalizing index with
  | nil => simp at found
  | cons y rest ih =>
      by_cases here : p y
      · simp only [List.findIdx?_cons, here, ite_true, Option.some.injEq] at found
        exact ⟨[], y, rest, rfl, found, by simp, here⟩
      · simp only [List.findIdx?_cons, here, Bool.false_eq_true, ite_false,
          List.findIdx?_start_succ, Option.map_eq_some'] at found
        obtain ⟨later, laterFound, rfl⟩ := found
        obtain ⟨before, x, after, rfl, length, skipped, hit⟩ := ih laterFound
        refine ⟨y :: before, x, after, rfl, by simp [length], ?_, hit⟩
        simpa [here] using skipped

/-- What one call of `splitAnyEmptyBlockRangesFor` does: either no range contains the
block number and nothing changes, or the first range that does is replaced by the
ranges around the block number. -/
theorem splitAnyEmptyBlockRangesFor_cases
    (data : BlockchainData Block TypedTransaction RpcReceiptOutput) (blockNumber : Int) :
    ((∀ range ∈ data.emptyBlockRanges, ¬ range.Contains blockNumber) ∧
      data.splitAnyEmptyBlockRangesFor blockNumber = (false, data)) ∨
    (∃ before oldRange after, data.emptyBlockRanges = before ++ oldRange :: after ∧
      (∀ range ∈ before, ¬ range.Contains blockNumber) ∧ oldRange.Contains blockNumber ∧
      data.splitAnyEmptyBlockRangesFor blockNumber =
        (true, { data with emptyBlockRanges :=
          before ++ after ++ oldRange.splitAround blockNumber })) := by
  unfold splitAnyEmptyBlockRangesFor
  split
  · rename_i missing
    exact .inl ⟨fun range member => by simpa using List.findIdx?_eq_none_iff.mp missing range member,
      rfl⟩
  · rename_i rangeIndex found
    obtain ⟨before, oldRange, after, split, rfl, skipped, hit⟩ := findIdx?_eq_some_split found
    refine .inr ⟨before, oldRange, after, split, fun range member => by
      simpa using skipped range member, by simpa using hit, ?_⟩
    simp only [List.getElem_of_append split rfl]
    simp only [split, List.eraseIdx_append_of_length_le (Nat.le_refl _), Nat.sub_self,
      List.eraseIdx_cons_zero, EmptyBlockRange.splitAround, ← List.append_assoc]
    split <;> split <;> simp

/-- Splitting touches only the list of empty block ranges. -/
theorem splitAnyEmptyBlockRangesFor_snd
    (data : BlockchainData Block TypedTransaction RpcReceiptOutput) (blockNumber : Int) :
    ∃ emptyBlockRanges, (data.splitAnyEmptyBlockRangesFor blockNumber).2 =
      { data with emptyBlockRanges := emptyBlockRanges } := by
  rcases data.splitAnyEmptyBlockRangesFor_cases blockNumber with
    ⟨-, result⟩ | ⟨_, _, _, -, -, -, result⟩ <;> rw [result]
  · exact ⟨data.emptyBlockRanges, rfl⟩
  · exact ⟨_, rfl⟩

/-- `splitAnyEmptyBlockRangesFor` called on each block number in turn, with the value
each call returns. -/
def splitEach (data : BlockchainData Block TypedTransaction RpcReceiptOutput) :
    List Int → List Bool × BlockchainData Block TypedTransaction RpcReceiptOutput
  | [] => ([], data)
  | blockNumber :: rest =>
      let step := data.splitAnyEmptyBlockRangesFor blockNumber
      let later := splitEach step.2 rest
      (step.1 :: later.1, later.2)

end BlockchainData

namespace EmptyBlockRange

theorem contains_iff {range : EmptyBlockRange} {blockNumber : Int} :
    range.Contains blockNumber ↔ range.first ≤ blockNumber ∧ blockNumber ≤ range.last :=
  Iff.rfl

/-- No block number lies in both ranges. -/
def Disjoint (range other : EmptyBlockRange) : Prop :=
  range.last < other.first ∨ other.last < range.first

instance (range other : EmptyBlockRange) : Decidable (range.Disjoint other) :=
  inferInstanceAs (Decidable (_ ∨ _))

/-- `gap` is one of the maximal intervals of `[range.first, range.last]` that contain none
of `points`, and it carries the interval of `range`. -/
structure IsMaximalGap (range : EmptyBlockRange) (points : List Int)
    (gap : EmptyBlockRange) : Prop where
  interval : gap.intervalInSeconds = range.intervalInSeconds
  lower : range.first ≤ gap.first
  wellFormed : gap.first ≤ gap.last
  upper : gap.last ≤ range.last
  avoids : ∀ point ∈ points, ¬ gap.Contains point
  leftMaximal : gap.first = range.first ∨ gap.first - 1 ∈ points
  rightMaximal : gap.last = range.last ∨ gap.last + 1 ∈ points

instance (range : EmptyBlockRange) (points : List Int) (gap : EmptyBlockRange) :
    Decidable (range.IsMaximalGap points gap) :=
  decidable_of_iff (gap.intervalInSeconds = range.intervalInSeconds ∧
      range.first ≤ gap.first ∧ gap.first ≤ gap.last ∧ gap.last ≤ range.last ∧
      (∀ point ∈ points, ¬ gap.Contains point) ∧
      (gap.first = range.first ∨ gap.first - 1 ∈ points) ∧
      (gap.last = range.last ∨ gap.last + 1 ∈ points))
    ⟨fun ⟨a, b, c, d, e, f, g⟩ => ⟨a, b, c, d, e, f, g⟩,
      fun ⟨a, b, c, d, e, f, g⟩ => ⟨a, b, c, d, e, f, g⟩⟩

/-- The maximal intervals of `[range.first, range.last]` without `points`: every such
interval starts at `range.first` or just after a point and ends at `range.last` or just
before one, so it is among these candidates. -/
def maximalGaps (range : EmptyBlockRange) (points : List Int) : List EmptyBlockRange :=
  (((range.first :: points.map (· + 1)).flatMap fun first =>
    (range.last :: points.map (· - 1)).map fun last =>
      { first, last, intervalInSeconds := range.intervalInSeconds }).filter
    fun gap => decide (range.IsMaximalGap points gap)).dedup

variable {range gap other : EmptyBlockRange} {points : List Int} {blockNumber : Int}

theorem IsMaximalGap.contains (isGap : range.IsMaximalGap points gap)
    (inside : gap.Contains blockNumber) : range.Contains blockNumber := by
  have := isGap.lower; have := isGap.upper
  rw [contains_iff] at *; omega

theorem IsMaximalGap.extend (isGap : range.IsMaximalGap points gap)
    (outside : ¬ gap.Contains blockNumber) : range.IsMaximalGap (points ++ [blockNumber]) gap where
  interval := isGap.interval
  lower := isGap.lower
  wellFormed := isGap.wellFormed
  upper := isGap.upper
  avoids point member := by
    rcases List.mem_append.mp member with old | new
    · exact isGap.avoids point old
    · rwa [List.mem_singleton.mp new]
  leftMaximal := isGap.leftMaximal.imp_right (List.mem_append_left _)
  rightMaximal := isGap.rightMaximal.imp_right (List.mem_append_left _)

theorem eq_of_fields {first last : Int} {intervalInSeconds : Nat} (gap : EmptyBlockRange)
    (sameFirst : gap.first = first) (sameLast : gap.last = last)
    (sameInterval : gap.intervalInSeconds = intervalInSeconds) :
    gap = { first, last, intervalInSeconds } := by
  cases gap; simp_all

/-- Two maximal gaps of one range that share a block number are the same gap. -/
theorem IsMaximalGap.eq_of_contains (isGap : range.IsMaximalGap points gap)
    (isOther : range.IsMaximalGap points other)
    (inGap : gap.Contains blockNumber) (inOther : other.Contains blockNumber) : gap = other := by
  have firstEq : gap.first = other.first := by
    have := isGap.lower; have := isOther.lower
    rw [contains_iff] at inGap inOther
    rcases isGap.leftMaximal with atStart | afterPoint <;>
      rcases isOther.leftMaximal with atStart' | afterPoint'
    · omega
    · have := isGap.avoids _ afterPoint'; rw [contains_iff] at this; omega
    · have := isOther.avoids _ afterPoint; rw [contains_iff] at this; omega
    · have := isGap.avoids _ afterPoint'; have := isOther.avoids _ afterPoint
      rw [contains_iff] at *; omega
  have lastEq : gap.last = other.last := by
    have := isGap.upper; have := isOther.upper
    rw [contains_iff] at inGap inOther
    rcases isGap.rightMaximal with atEnd | beforePoint <;>
      rcases isOther.rightMaximal with atEnd' | beforePoint'
    · omega
    · have := isGap.avoids _ beforePoint'; rw [contains_iff] at this; omega
    · have := isOther.avoids _ beforePoint; rw [contains_iff] at this; omega
    · have := isGap.avoids _ beforePoint'; have := isOther.avoids _ beforePoint
      rw [contains_iff] at *; omega
  rw [eq_of_fields other rfl rfl rfl]
  exact eq_of_fields gap firstEq lastEq (isGap.interval.trans isOther.interval.symm)

theorem mem_splitAround {piece oldRange : EmptyBlockRange} :
    piece ∈ oldRange.splitAround blockNumber ↔
      (blockNumber ≠ oldRange.first ∧
        piece = { first := oldRange.first, last := blockNumber - 1,
                  intervalInSeconds := oldRange.intervalInSeconds }) ∨
      (blockNumber ≠ oldRange.last ∧
        piece = { first := blockNumber + 1, last := oldRange.last,
                  intervalInSeconds := oldRange.intervalInSeconds }) := by
  unfold splitAround
  by_cases atFirst : blockNumber = oldRange.first <;>
    by_cases atLast : blockNumber = oldRange.last <;> simp [atFirst, atLast]

theorem exists_mem_splitAround {oldRange : EmptyBlockRange} {other : Int} (inOld : oldRange.Contains other)
    (different : other ≠ blockNumber) :
    ∃ piece ∈ oldRange.splitAround blockNumber, piece.Contains other := by
  rw [contains_iff] at *
  rcases Int.lt_or_gt_of_ne different with below | above
  · exact ⟨_, mem_splitAround.mpr (.inl ⟨by omega, rfl⟩), by rw [contains_iff]; simp only; omega⟩
  · exact ⟨_, mem_splitAround.mpr (.inr ⟨by omega, rfl⟩), by rw [contains_iff]; simp only; omega⟩

section Split

variable {oldRange piece : EmptyBlockRange} (inside : oldRange.Contains blockNumber)
include inside

/-- Each range that `splitAround` leaves is a maximal gap once the block number is added
to the points. -/
theorem IsMaximalGap.splitAround (isGap : range.IsMaximalGap points oldRange)
    (member : piece ∈ oldRange.splitAround blockNumber) :
    range.IsMaximalGap (points ++ [blockNumber]) piece := by
  have := isGap.lower; have := isGap.upper
  rw [contains_iff] at inside
  rcases mem_splitAround.mp member with ⟨notFirst, rfl⟩ | ⟨notLast, rfl⟩
  · refine ⟨isGap.interval, ‹_›, by simp only; omega, by simp only; omega, ?_,
      isGap.leftMaximal.imp_right (List.mem_append_left _), .inr (by simp)⟩
    intro point member
    rcases List.mem_append.mp member with old | new
    · have := isGap.avoids point old; rw [contains_iff] at *; simp only at *; omega
    · rw [List.mem_singleton.mp new, contains_iff]; simp only; omega
  · refine ⟨isGap.interval, by simp only; omega, by simp only; omega, ‹_›, ?_,
      .inr (by simp), isGap.rightMaximal.imp_right (List.mem_append_left _)⟩
    intro point member
    rcases List.mem_append.mp member with old | new
    · have := isGap.avoids point old; rw [contains_iff] at *; simp only at *; omega
    · rw [List.mem_singleton.mp new, contains_iff]; simp only; omega

theorem contains_of_mem_splitAround (member : piece ∈ oldRange.splitAround blockNumber)
    {other : Int} (inPiece : piece.Contains other) : oldRange.Contains other ∧ other ≠ blockNumber := by
  rw [contains_iff] at *
  rcases mem_splitAround.mp member with ⟨_, rfl⟩ | ⟨_, rfl⟩ <;> simp only at inPiece <;> omega

theorem nodup_splitAround : (oldRange.splitAround blockNumber).Nodup := by
  unfold splitAround
  split <;> split <;> simp
  intro sameFirst
  rw [contains_iff] at inside
  omega

end Split

end EmptyBlockRange

open EmptyBlockRange

/-- What holds of the empty block ranges once `initial` has been split at `points`: each
range is a maximal gap of an initial range, every block number of an initial range that
is not a point lies in some range, and no range is listed twice. -/
structure SplitInvariant (initial : List EmptyBlockRange) (points : List Int)
    (ranges : List EmptyBlockRange) : Prop where
  gaps : ∀ gap ∈ ranges, ∃ range ∈ initial, range.IsMaximalGap points gap
  covers : ∀ range ∈ initial, ∀ blockNumber, range.Contains blockNumber →
    blockNumber ∉ points → ∃ gap ∈ ranges, gap.Contains blockNumber
  nodup : ranges.Nodup

namespace SplitInvariant

variable {Block TypedTransaction RpcReceiptOutput : Type}
  {initial : List EmptyBlockRange} {points : List Int} {gap other : EmptyBlockRange}
  {blockNumber : Int} (disjoint : initial.Pairwise EmptyBlockRange.Disjoint)
include disjoint

/-- Maximal gaps of pairwise disjoint ranges that share a block number are equal. -/
theorem gap_eq_of_contains (isGap : ∃ range ∈ initial, range.IsMaximalGap points gap)
    (isOther : ∃ range ∈ initial, range.IsMaximalGap points other)
    (inGap : gap.Contains blockNumber) (inOther : other.Contains blockNumber) : gap = other := by
  obtain ⟨range, member, isGap⟩ := isGap
  obtain ⟨range', member', isOther⟩ := isOther
  have sameRange : range = range' := by
    by_contra different
    have apart := disjoint.forall (fun _ _ apart => Or.symm apart) member member' different
    have := isGap.contains inGap; have := isOther.contains inOther
    unfold EmptyBlockRange.Disjoint at apart; rw [contains_iff] at *; omega
  subst sameRange
  exact isGap.eq_of_contains isOther inGap inOther

theorem start (wellFormed : ∀ range ∈ initial, range.first ≤ range.last) :
    SplitInvariant initial [] initial where
  gaps range member :=
    ⟨range, member, ⟨rfl, le_refl _, wellFormed range member, le_refl _, by simp, .inl rfl, .inl rfl⟩⟩
  covers range member _ inside _ := ⟨range, member, inside⟩
  nodup := disjoint.imp_of_mem fun {range _} member _ apart same => by
    subst same; have := wellFormed range member; unfold EmptyBlockRange.Disjoint at apart; omega

/-- One call of `splitAnyEmptyBlockRangesFor` keeps the invariant with the block number
added to the points, and returns whether the block number was in an initial range and
not split at before. -/
theorem split {data : BlockchainData Block TypedTransaction RpcReceiptOutput}
    (invariant : SplitInvariant initial points data.emptyBlockRanges) (blockNumber : Int) :
    SplitInvariant initial (points ++ [blockNumber])
        (data.splitAnyEmptyBlockRangesFor blockNumber).2.emptyBlockRanges ∧
      (data.splitAnyEmptyBlockRangesFor blockNumber).1 =
        decide ((∃ range ∈ initial, range.Contains blockNumber) ∧ blockNumber ∉ points) := by
  rcases data.splitAnyEmptyBlockRangesFor_cases blockNumber with
    ⟨missing, result⟩ | ⟨before, oldRange, after, split, -, inside, result⟩
  · rw [result]
    refine ⟨⟨fun gap member => ?_, fun range member other inRange notPoint => ?_,
      invariant.nodup⟩, (decide_eq_false ?_).symm⟩
    · obtain ⟨range, rangeMember, isGap⟩ := invariant.gaps gap member
      exact ⟨range, rangeMember, isGap.extend (missing gap member)⟩
    · exact invariant.covers range member other inRange
        fun old => notPoint (List.mem_append_left _ old)
    · rintro ⟨⟨range, member, inRange⟩, notPoint⟩
      obtain ⟨gap, gapMember, inGap⟩ := invariant.covers range member blockNumber inRange notPoint
      exact missing gap gapMember inGap
  · rw [result]
    have rangesNodup := invariant.nodup
    rw [split] at rangesNodup
    obtain ⟨oldNotRest, restNodup⟩ := List.nodup_cons.mp (List.nodup_middle.mp rangesNodup)
    have inRanges : ∀ gap ∈ before ++ after, gap ∈ data.emptyBlockRanges := fun gap member => by
      rw [split]; simp only [List.mem_append, List.mem_cons] at member ⊢; tauto
    have oldGap := invariant.gaps oldRange (by rw [split]; simp)
    obtain ⟨oldInitial, oldMember, isOld⟩ := oldGap
    have restOutside : ∀ gap ∈ before ++ after, ¬ gap.Contains blockNumber :=
      fun gap member inGap => oldNotRest <| gap_eq_of_contains disjoint
        (invariant.gaps gap (inRanges gap member)) ⟨_, oldMember, isOld⟩ inGap inside ▸ member
    refine ⟨⟨fun gap member => ?_, fun range member other inRange notPoint => ?_, ?_⟩,
      (decide_eq_true ⟨⟨oldInitial, oldMember, isOld.contains inside⟩,
        fun point => isOld.avoids _ point inside⟩).symm⟩
    · rcases List.mem_append.mp member with rest | piece
      · obtain ⟨range, rangeMember, isGap⟩ := invariant.gaps gap (inRanges gap rest)
        exact ⟨range, rangeMember, isGap.extend (restOutside gap rest)⟩
      · exact ⟨oldInitial, oldMember, isOld.splitAround inside piece⟩
    · obtain ⟨gap, gapMember, inGap⟩ := invariant.covers range member other inRange
        fun old => notPoint (List.mem_append_left _ old)
      rw [split] at gapMember
      rcases List.mem_append.mp gapMember with early | oldOrLate
      · exact ⟨gap, List.mem_append_left _ (List.mem_append_left _ early), inGap⟩
      rcases List.mem_cons.mp oldOrLate with rfl | late
      · obtain ⟨piece, pieceMember, inPiece⟩ := exists_mem_splitAround inGap
          fun same : other = blockNumber => notPoint (by simp [same])
        exact ⟨piece, List.mem_append_right _ pieceMember, inPiece⟩
      · exact ⟨gap, List.mem_append_left _ (List.mem_append_right _ late), inGap⟩
    · refine List.nodup_append.mpr ⟨restNodup, nodup_splitAround inside, fun piece rest pieceMember => ?_⟩
      have isPiece := isOld.splitAround inside pieceMember
      have inPiece : piece.Contains piece.first := ⟨le_refl _, isPiece.wellFormed⟩
      exact oldNotRest <| gap_eq_of_contains disjoint (invariant.gaps piece (inRanges piece rest))
        ⟨_, oldMember, isOld⟩ inPiece (contains_of_mem_splitAround inside pieceMember inPiece).1 ▸ rest

/-- Splitting at each block number of a list in turn keeps the invariant, and the `i`-th
call returns whether its block number was in an initial range and not split at before. -/
theorem splitEach (data : BlockchainData Block TypedTransaction RpcReceiptOutput)
    (invariant : SplitInvariant initial points data.emptyBlockRanges) (blockNumbers : List Int) :
    SplitInvariant initial (points ++ blockNumbers) (data.splitEach blockNumbers).2.emptyBlockRanges ∧
      (data.splitEach blockNumbers).1.length = blockNumbers.length ∧
      ∀ i blockNumber, blockNumbers[i]? = some blockNumber →
        (data.splitEach blockNumbers).1[i]? = some (decide ((∃ range ∈ initial,
          range.Contains blockNumber) ∧ blockNumber ∉ points ++ blockNumbers.take i)) := by
  induction blockNumbers generalizing points data with
  | nil => simpa [BlockchainData.splitEach] using invariant
  | cons blockNumber rest ih =>
      obtain ⟨next, found⟩ := invariant.split disjoint blockNumber
      obtain ⟨final, length, returns⟩ := ih _ next
      refine ⟨by simpa using final, by simp [BlockchainData.splitEach, length], ?_⟩
      rintro (_ | i) number listed
      · simp only [List.getElem?_cons_zero, Option.some.injEq] at listed
        subst listed
        simp [BlockchainData.splitEach, found]
      · simpa [BlockchainData.splitEach] using returns i number (by simpa using listed)

/-- Under the invariant, the ranges are exactly the maximal gaps of the initial ranges. -/
theorem mem_iff {ranges : List EmptyBlockRange}
    (invariant : SplitInvariant initial points ranges) :
    gap ∈ ranges ↔ ∃ range ∈ initial, range.IsMaximalGap points gap := by
  refine ⟨invariant.gaps gap, fun isGap => ?_⟩
  obtain ⟨range, member, isMaximal⟩ := isGap
  have inGap : gap.Contains gap.first := ⟨le_refl _, isMaximal.wellFormed⟩
  obtain ⟨found, foundMember, inFound⟩ := invariant.covers range member gap.first
    (isMaximal.contains inGap) fun point => isMaximal.avoids _ point inGap
  rwa [gap_eq_of_contains disjoint (invariant.gaps found foundMember) ⟨range, member, isMaximal⟩
    inFound inGap] at foundMember

theorem pairwise_disjoint {ranges : List EmptyBlockRange}
    (invariant : SplitInvariant initial points ranges) :
    ranges.Pairwise EmptyBlockRange.Disjoint :=
  invariant.nodup.imp_of_mem fun {gap other} member otherMember different => by
    by_contra overlap
    unfold EmptyBlockRange.Disjoint at overlap
    obtain ⟨_, _, isGap⟩ := invariant.gaps gap member
    obtain ⟨_, _, isOther⟩ := invariant.gaps other otherMember
    have := isGap.wellFormed; have := isOther.wellFormed
    have inGap : gap.Contains (max gap.first other.first) := ⟨le_max_left _ _, by omega⟩
    exact different <| gap_eq_of_contains disjoint (invariant.gaps gap member)
      (invariant.gaps other otherMember) inGap ⟨le_max_right _ _, by omega⟩

end SplitInvariant

namespace EmptyBlockRange

theorem mem_maximalGaps {range gap : EmptyBlockRange} {points : List Int} :
    gap ∈ range.maximalGaps points ↔ range.IsMaximalGap points gap := by
  simp only [maximalGaps, List.mem_dedup, List.mem_filter, List.mem_flatMap, List.mem_map,
    List.mem_cons, decide_eq_true_eq]
  refine ⟨And.right, fun isGap => ⟨⟨gap.first, ?_, gap.last, ?_, ?_⟩, isGap⟩⟩
  · rcases isGap.leftMaximal with atStart | afterPoint
    · exact .inl atStart
    · exact .inr ⟨_, afterPoint, by omega⟩
  · rcases isGap.rightMaximal with atEnd | beforePoint
    · exact .inl atEnd
    · exact .inr ⟨_, beforePoint, by omega⟩
  · exact (eq_of_fields gap rfl rfl isGap.interval).symm

theorem nodup_flatMap_maximalGaps {initial : List EmptyBlockRange} {points : List Int}
    (disjoint : initial.Pairwise EmptyBlockRange.Disjoint) :
    (initial.flatMap (·.maximalGaps points)).Nodup := by
  refine List.nodup_flatMap.mpr ⟨fun _ _ => List.nodup_dedup _, disjoint.imp fun apart => ?_⟩
  intro gap inFirst inSecond
  have isFirst := mem_maximalGaps.mp inFirst
  have isSecond := mem_maximalGaps.mp inSecond
  have := isFirst.lower; have := isFirst.upper; have := isSecond.lower; have := isSecond.upper
  have := isFirst.wellFormed
  unfold EmptyBlockRange.Disjoint at apart
  omega

end EmptyBlockRange

namespace BlockchainData

variable {Block TypedTransaction RpcReceiptOutput : Type}

/-- Splitting well formed, pairwise disjoint empty block ranges at any block numbers, in
turn, leaves exactly the maximal gaps of the initial ranges around those numbers, each
once, and the `i`-th call returns whether its number lay in an initial range and had not
been split at before.  The ranges left are well formed and pairwise disjoint. -/
theorem splitEach_emptyBlockRanges (data : BlockchainData Block TypedTransaction RpcReceiptOutput)
    (blockNumbers : List Int)
    (wellFormed : ∀ range ∈ data.emptyBlockRanges, range.first ≤ range.last)
    (disjoint : data.emptyBlockRanges.Pairwise EmptyBlockRange.Disjoint) :
    (data.splitEach blockNumbers).2.emptyBlockRanges.Perm
        (data.emptyBlockRanges.flatMap (·.maximalGaps blockNumbers)) ∧
      (data.splitEach blockNumbers).1.length = blockNumbers.length ∧
      (∀ i blockNumber, blockNumbers[i]? = some blockNumber →
        (data.splitEach blockNumbers).1[i]? = some (decide ((∃ range ∈ data.emptyBlockRanges,
          range.Contains blockNumber) ∧ blockNumber ∉ blockNumbers.take i))) ∧
      (∀ range ∈ (data.splitEach blockNumbers).2.emptyBlockRanges, range.first ≤ range.last) ∧
      (data.splitEach blockNumbers).2.emptyBlockRanges.Pairwise EmptyBlockRange.Disjoint := by
  obtain ⟨final, length, returns⟩ :=
    SplitInvariant.splitEach disjoint data (SplitInvariant.start disjoint wellFormed) blockNumbers
  simp only [List.nil_append] at final returns
  refine ⟨(List.perm_ext_iff_of_nodup final.nodup
      (EmptyBlockRange.nodup_flatMap_maximalGaps disjoint)).mpr fun gap => ?_,
    length, returns, fun range member => ?_, final.pairwise_disjoint disjoint⟩
  · rw [final.mem_iff disjoint, List.mem_flatMap]
    simp only [EmptyBlockRange.mem_maximalGaps]
  · obtain ⟨_, _, isGap⟩ := final.gaps range member
    exact isGap.wellFormed

theorem splitEach_emptyBlockRanges_twice_at_three :
    let data : BlockchainData Unit Unit Unit :=
      { empty with emptyBlockRanges := [⟨0, 10, 5⟩] }
    let blockNumbers : List Int := [3, 3, 0]
    ((∀ range ∈ data.emptyBlockRanges, range.first ≤ range.last) ∧
      data.emptyBlockRanges.Pairwise EmptyBlockRange.Disjoint) ∧
    (data.splitEach blockNumbers).2.emptyBlockRanges.Perm
        (data.emptyBlockRanges.flatMap (·.maximalGaps blockNumbers)) ∧
      (data.splitEach blockNumbers).1.length = blockNumbers.length ∧
      (∀ i blockNumber, blockNumbers[i]? = some blockNumber →
        (data.splitEach blockNumbers).1[i]? = some (decide ((∃ range ∈ data.emptyBlockRanges,
          range.Contains blockNumber) ∧ blockNumber ∉ blockNumbers.take i))) ∧
      (∀ range ∈ (data.splitEach blockNumbers).2.emptyBlockRanges, range.first ≤ range.last) ∧
      (data.splitEach blockNumbers).2.emptyBlockRanges.Pairwise EmptyBlockRange.Disjoint := by
  intro data blockNumbers
  exact ⟨⟨by decide, by decide⟩, splitEach_emptyBlockRanges data blockNumbers (by decide) (by decide)⟩


end BlockchainData

end Hardhat.Network

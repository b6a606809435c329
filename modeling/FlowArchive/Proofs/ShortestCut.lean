import FlowArchive.Proofs.RowOrder
import Mathlib.Algebra.GroupWithZero.Nat

/-!
# The shortest cut

The cut by coverage reads the rows from the largest down and keeps the shortest part at the front that carries the share
of the traffic, one row at least. It keeps all rows where no part carries the share, and where there is no traffic. What
carries the share is asked of the sum of the traffic alone, so the cut is the shortest whatever the answers are.
-/

namespace FlowArchive.Ranking

variable {r : Ranking} {l : List (Key × Counters)} {rows kept : List Row} {α : Type}

/-- The shortest nonempty part at the front of a list that passes a test; the whole list if there is none. -/
structure IsShortestFront (passes : List α → Prop) (all kept : List α) : Prop where
  front : kept <+: all
  filled : kept ≠ []
  least : ∀ part, part <+: all → part ≠ [] → passes part → passes kept ∧ kept <+: part
  whole : (∀ part, part <+: all → part ≠ [] → ¬ passes part) → kept = all

/-- The traffic of some rows together, which no word bounds. -/
def volume (r : Ranking) (rows : List Row) : Nat := (rows.map fun row => (r.traffic row).toNat).sum

/-- Whether some of the rows carry the share of the traffic of all. -/
def Carries (r : Ranking) (rows part : List Row) : Prop := reaches r.coverage (r.volume rows) (r.volume part) = true

/-- Rows in order, read from the largest down. -/
def readDown (r : Ranking) (rows : List Row) : List Row := if r.ascending then rows.reverse else rows

/-! ## Counting from the front -/

section

variable {passes : List α → Prop} {x : α} {rest part kept : List α}

/-- A nonempty part at the front begins with the first element. -/
theorem front_of_cons (front : part <+: x :: rest) (some : part ≠ []) : ∃ behind, part = x :: behind ∧ behind <+: rest := by
  rcases List.prefix_cons_iff.1 front with none | ⟨behind, rfl, inner⟩
  · exact absurd none some
  · exact ⟨behind, rfl, inner⟩

theorem isShortestFront_first (first : passes [x]) : IsShortestFront passes (x :: rest) [x] := by
  constructor
  case front => simp
  case filled => simp
  case least =>
    intro part front some _
    obtain ⟨behind, rfl, -⟩ := front_of_cons front some
    exact ⟨first, by simp⟩
  case whole =>
    intro none
    exact absurd first (none [x] (by simp) (by simp))

theorem isShortestFront_single (first : ¬ passes [x]) : IsShortestFront passes [x] [x] := by
  constructor
  case front => simp
  case filled => simp
  case least =>
    intro part front some enough
    obtain ⟨behind, rfl, inner⟩ := front_of_cons front some
    obtain rfl := List.prefix_nil.1 inner
    exact absurd enough first
  case whole => simp

/-- Where the first element alone does not pass, the rest is counted on top of it. -/
theorem IsShortestFront.cons (first : ¬ passes [x]) (behind : IsShortestFront (fun part => passes (x :: part)) rest kept) :
    IsShortestFront passes (x :: rest) (x :: kept) := by
  constructor
  case front => exact List.cons_prefix_cons.2 ⟨rfl, behind.front⟩
  case filled => simp
  case least =>
    intro part front some enough
    obtain ⟨inner, rfl, below⟩ := front_of_cons front some
    have longer : inner ≠ [] := by
      rintro rfl
      exact first enough
    obtain ⟨kept, shorter⟩ := behind.least inner below longer enough
    exact ⟨kept, List.cons_prefix_cons.2 ⟨rfl, shorter⟩⟩
  case whole =>
    intro none
    rw [behind.whole]
    exact fun inner below some => none (x :: inner) (List.cons_prefix_cons.2 ⟨rfl, below⟩) (by simp)

end

/-- The length that is counted is that of the shortest front. -/
theorem isShortestFront_take (enough : Nat → Bool) (count : α → Nat) (sum : Nat) {all : List α} (filled : all ≠ []) :
    IsShortestFront (fun part => enough (sum + (part.map count).sum) = true) all
      (all.take (shortestCover enough sum (all.map count))) := by
  induction all generalizing sum with
  | nil => exact absurd rfl filled
  | cons x rest ih =>
    rw [List.map_cons, shortestCover]
    by_cases first : enough (sum + count x) = true
    · rw [if_pos first, List.take_succ_cons, List.take_zero]
      exact isShortestFront_first (by simpa using first)
    · rw [if_neg first, List.take_succ_cons]
      cases rest with
      | nil => exact isShortestFront_single (by simpa using first)
      | cons y others =>
        refine .cons (by simpa using first) ?_
        simpa only [List.map_cons, List.sum_cons, Nat.add_assoc] using ih (sum + count x) (by simp)

/-! ## The cut -/

theorem volume_eq_zero_iff : r.volume rows = 0 ↔ ∀ row ∈ rows, r.traffic row = 0 := by
  simp [volume, List.sum_eq_zero_iff_forall_eq_nat, ← UInt64.toNat_inj]

theorem coverLength_eq (r : Ranking) (rows : List Row) : r.coverLength rows =
    if r.volume rows = 0 then rows.length
    else shortestCover (reaches r.coverage (r.volume rows)) 0 (rows.map fun row => (r.traffic row).toNat) := by
  have total : (rows.map fun row => (r.traffic row).toNat).foldl (· + ·) 0 = r.volume rows :=
    (List.sum_eq_foldl ..).symm
  rw [← total]
  rfl

theorem readDown_cover (r : Ranking) (rows : List Row) :
    r.readDown (r.cover rows) = (r.readDown rows).take (r.coverLength (r.readDown rows)) := by
  unfold readDown cover
  cases r.ascending with
  | true => exact List.reverse_reverse _
  | false => rfl

/-- From the largest down, no row has more traffic than one before it. -/
theorem IsOrdered.pairwise_readDown (byTraffic : r.sortKey ≠ .time) (ordered : r.IsOrdered false l rows) :
    (r.readDown rows).Pairwise fun x y => r.traffic y ≤ r.traffic x := by
  have order := ordered.ordered.imp (StandsBefore.traffic_le byTraffic)
  unfold readDown
  cases direction : r.ascending with
  | true => exact List.pairwise_reverse.2 (by simpa [direction] using order)
  | false => simpa [direction] using order

/-- Without a limit, a ranking by traffic keeps the shortest part from the largest row down that carries the share, or all
rows if none does or there is no traffic. -/
theorem keeps_shortest_cover {t : Tally} (listed : l.Perm t.entries) (byTraffic : r.sortKey ≠ .time)
    (unlimited : r.limit = none) :
    ∃ rows, (∀ others, r.IsOrdered false t.entries others ↔ others = rows) ∧
      let all := r.readDown rows
      let kept := r.readDown (r.apply false l)
      all.Pairwise (fun x y => r.traffic y ≤ r.traffic x) ∧
      ((∀ row ∈ all, r.traffic row = 0) → kept = all) ∧
      ((∃ row ∈ all, r.traffic row ≠ 0) → IsShortestFront (r.Carries all) all kept) := by
  have distinct : (t.entries.map (·.1)).Nodup := Table.nodup_keys t
  have distinct' : (l.map (·.1)).Nodup := (listed.map _).nodup_iff.2 distinct
  refine ⟨r.sorted false t.entries, fun others => isOrdered_iff distinct, ?_⟩
  intro all kept
  have cut : kept = all.take (r.coverLength all) := by
    rw [← readDown_cover, ← apply_eq_cover unlimited byTraffic, ← apply_congr distinct' listed]
  refine ⟨(sorted_isOrdered distinct).pairwise_readDown byTraffic, fun quiet => ?_, fun loud => ?_⟩
  · rw [cut, coverLength_eq, if_pos (volume_eq_zero_iff.2 quiet), List.take_length]
  · have some : r.volume all ≠ 0 := fun none => by
      obtain ⟨row, member, moved⟩ := loud
      exact moved (volume_eq_zero_iff.1 none row member)
    have filled : all ≠ [] := by
      obtain ⟨row, member, -⟩ := loud
      exact List.ne_nil_of_mem member
    have test : r.Carries all = fun part =>
        reaches r.coverage (r.volume all) (0 + (part.map fun row => (r.traffic row).toNat).sum) = true := by
      funext part
      rw [Carries, Nat.zero_add]
      rfl
    rw [cut, coverLength_eq, if_neg some, test]
    exact isShortestFront_take _ _ 0 filled

theorem keeps_shortest_cover_tied :
    let ranking := halfOfBytes.directed true
    tiedEntries.reverse.Perm tiedTally.entries ∧ ranking.sortKey ≠ .time ∧
      ranking.limit = none ∧
      ∃ rows, (∀ others, ranking.IsOrdered false tiedTally.entries others ↔ others = rows) ∧
        let all := ranking.readDown rows
        let kept := ranking.readDown (ranking.apply false tiedEntries.reverse)
        all.Pairwise (fun x y => ranking.traffic y ≤ ranking.traffic x) ∧
        ((∀ row ∈ all, ranking.traffic row = 0) → kept = all) ∧
        ((∃ row ∈ all, ranking.traffic row ≠ 0) → IsShortestFront (ranking.Carries all) all kept) :=
  ⟨List.reverse_perm _, by decide, rfl, keeps_shortest_cover (List.reverse_perm _) (by decide) rfl⟩

end FlowArchive.Ranking

import FlowArchive.Archive.Cleaning
import Mathlib.Data.List.Perm.Basic

/-!
# Summaries that agree with blocks

The summary of an interface agrees with a list of blocks if it states the sums of their flows and traffic and the
earliest of their times. A block that is added and blocks that are taken away keep it so, as long as the true
sums fit a word: below that, sums that stop at the greatest word are exact.
-/

namespace FlowArchive

/-- A sum stops at the greatest word. -/
def greatestWord : Nat := 18446744073709551615

theorem toNat_le_greatestWord (n : UInt64) : n.toNat ≤ greatestWord := Nat.le_of_lt_succ n.toNat_lt

theorem addCapped_toNat_eq_min (a b : UInt64) : (addCapped a b).toNat = min (a.toNat + b.toNat) greatestWord := by
  unfold addCapped UInt64.ofNatClamp greatestWord
  split
  next small =>
    simp only [UInt64.size] at small
    rw [UInt64.toNat_ofNatLT]
    omega
  next great =>
    simp only [UInt64.size] at great
    rw [UInt64.toNat_ofNatLT]
    simp only [UInt64.size]
    omega

theorem addCapped_toNat {a b : UInt64} (fits : a.toNat + b.toNat < 18446744073709551616) :
    (addCapped a b).toNat = a.toNat + b.toNat := by
  rw [addCapped_toNat_eq_min, greatestWord]
  omega

theorem subCapped_toNat (a b : UInt64) : (subCapped a b).toNat = a.toNat - b.toNat := by
  have bound := a.toNat_lt
  rw [subCapped, UInt64.toNat_ofNat_of_lt' (by simp only [UInt64.size]; omega)]

namespace Index

/-- A count of each block, added up without a bound. -/
def sumBy (count : Descriptor → UInt64) (ds : List Descriptor) : Nat := ds.foldr (fun x n => (count x).toNat + n) 0

theorem sumBy_append (count : Descriptor → UInt64) (ds es : List Descriptor) :
    sumBy count (ds ++ es) = sumBy count ds + sumBy count es := by
  induction ds with
  | nil => simp [sumBy]
  | cons x rest ih =>
    simp only [sumBy, List.cons_append, List.foldr_cons] at *
    omega

theorem sumBy_perm {count : Descriptor → UInt64} {ds es : List Descriptor} (same : ds.Perm es) :
    sumBy count ds = sumBy count es :=
  same.foldr_eq' (fun x _ y _ n => by omega) 0

def flowSum (ds : List Descriptor) : Nat := sumBy Descriptor.flows ds

def trafficSum (ds : List Descriptor) : Nat := sumBy Descriptor.traffic ds

def Fits (ds : List Descriptor) : Prop :=
  flowSum ds < 18446744073709551616 ∧ trafficSum ds < 18446744073709551616

@[simp] theorem flowSum_append (ds es : List Descriptor) : flowSum (ds ++ es) = flowSum ds + flowSum es :=
  sumBy_append _ ds es

@[simp] theorem trafficSum_append (ds es : List Descriptor) :
    trafficSum (ds ++ es) = trafficSum ds + trafficSum es :=
  sumBy_append _ ds es

theorem flowSum_perm {ds es : List Descriptor} (same : ds.Perm es) : flowSum ds = flowSum es := sumBy_perm same

theorem trafficSum_perm {ds es : List Descriptor} (same : ds.Perm es) : trafficSum ds = trafficSum es := sumBy_perm same

theorem Fits.perm {ds es : List Descriptor} (fits : Fits ds) (same : ds.Perm es) : Fits es := by
  rwa [Fits, ← flowSum_perm same, ← trafficSum_perm same]

theorem Fits.left {ds es : List Descriptor} (fits : Fits (ds ++ es)) : Fits ds := by
  simp only [Fits, flowSum_append, trafficSum_append] at *
  omega

theorem Fits.right {ds es : List Descriptor} (fits : Fits (ds ++ es)) : Fits es := by
  simp only [Fits, flowSum_append, trafficSum_append] at *
  omega

theorem totals_toNat_eq_min (ds : List Descriptor) :
    (totals ds).1.toNat = min (flowSum ds) greatestWord ∧ (totals ds).2.toNat = min (trafficSum ds) greatestWord := by
  have go : ∀ (es : List Descriptor) (t : UInt64 × UInt64),
      (es.foldl (fun t d => (addCapped t.1 d.flows, addCapped t.2 d.traffic)) t).1.toNat =
        min (t.1.toNat + flowSum es) greatestWord ∧
      (es.foldl (fun t d => (addCapped t.1 d.flows, addCapped t.2 d.traffic)) t).2.toNat =
        min (t.2.toNat + trafficSum es) greatestWord := by
    intro es
    induction es with
    | nil =>
      intro t
      exact ⟨(Nat.min_eq_left (toNat_le_greatestWord t.1)).symm, (Nat.min_eq_left (toNat_le_greatestWord t.2)).symm⟩
    | cons d rest ih =>
      intro t
      have flowSum_cons : flowSum (d :: rest) = d.flows.toNat + flowSum rest := rfl
      have trafficSum_cons : trafficSum (d :: rest) = d.traffic.toNat + trafficSum rest := rfl
      obtain ⟨left, right⟩ := ih (addCapped t.1 d.flows, addCapped t.2 d.traffic)
      rw [addCapped_toNat_eq_min] at left right
      rw [List.foldl_cons, left, right, flowSum_cons, trafficSum_cons]
      constructor <;> omega
  simpa [totals] using go ds (0, 0)

def IsFirst (t : Timestamp) (ds : List Descriptor) : Prop := (∃ x ∈ ds, x.time = t) ∧ ∀ x ∈ ds, t ≤ x.time

/-- A time is the earliest of blocks, or there are none. -/
def IsFirst? : Option Timestamp → List Descriptor → Prop
  | none, ds => ds = []
  | some t, ds => IsFirst t ds

theorem IsFirst.perm {t : Timestamp} {ds es : List Descriptor} (first : IsFirst t ds) (same : ds.Perm es) :
    IsFirst t es := by
  obtain ⟨⟨x, member, time⟩, least⟩ := first
  exact ⟨⟨x, same.mem_iff.1 member, time⟩, fun y listed => least y (same.mem_iff.2 listed)⟩

theorem IsFirst?.perm {t : Option Timestamp} {ds es : List Descriptor} (first : IsFirst? t ds) (same : ds.Perm es) :
    IsFirst? t es := by
  cases t with
  | none =>
    obtain rfl : ds = [] := first
    exact List.nil_perm.1 same
  | some t => exact IsFirst.perm first same

theorem IsFirst?.eq_none_iff {t : Option Timestamp} {ds : List Descriptor} (first : IsFirst? t ds) :
    t = none ↔ ds = [] := by
  cases t with
  | none => exact iff_of_true rfl first
  | some t =>
    obtain ⟨⟨x, member, -⟩, -⟩ := first
    exact iff_of_false (Option.some_ne_none t) (List.ne_nil_of_mem member)

theorem IsFirst.unique {t u : Timestamp} {ds : List Descriptor} (first : IsFirst t ds) (second : IsFirst u ds) :
    t = u := by
  obtain ⟨⟨x, member, rfl⟩, least⟩ := first
  obtain ⟨⟨y, member', rfl⟩, least'⟩ := second
  exact Int64.le_antisymm (least y member') (least' x member)

theorem min_le_iff (a b t : Timestamp) : t ≤ min a b ↔ t ≤ a ∧ t ≤ b := by
  simp only [Std.le_min_iff]

/-- The earlier of two first times is the first of all. -/
theorem IsFirst.append {t u : Timestamp} {ds es : List Descriptor} (first : IsFirst t ds) (second : IsFirst u es) :
    IsFirst (min t u) (ds ++ es) := by
  obtain ⟨⟨x, member, time⟩, least⟩ := first
  obtain ⟨⟨y, member', time'⟩, least'⟩ := second
  have below : min t u ≤ t ∧ min t u ≤ u := (min_le_iff t u _).1 (Int64.le_refl _)
  refine ⟨?_, fun z listed => ?_⟩
  · rcases Std.min_eq_or (a := t) (b := u) with same | same
    · exact ⟨x, List.mem_append_left _ member, time.trans same.symm⟩
    · exact ⟨y, List.mem_append_right _ member', time'.trans same.symm⟩
  · rcases List.mem_append.1 listed with left | right
    · exact Int64.le_trans below.1 (least z left)
    · exact Int64.le_trans below.2 (least' z right)

theorem isFirst_single (x : Descriptor) : IsFirst x.time [x] :=
  ⟨⟨x, List.mem_singleton_self x, rfl⟩, fun y listed => by
    obtain rfl := List.mem_singleton.1 listed
    exact Int64.le_refl _⟩

theorem isFirst?_firstTime (ds : List Descriptor) : IsFirst? (firstTime? ds) ds := by
  have go : ∀ (es ds : List Descriptor) (t : Option Timestamp), IsFirst? t ds →
      IsFirst? (es.foldl (fun first d => some (first.elim d.time (min · d.time))) t) (ds ++ es) := by
    intro es
    induction es with
    | nil => intro ds t first; simpa using first
    | cons x rest ih =>
      intro ds t first
      have next : IsFirst? (some (t.elim x.time (min · x.time))) (ds ++ [x]) := by
        cases t with
        | none =>
          obtain rfl : ds = [] := first
          exact isFirst_single x
        | some t => exact IsFirst.append first (isFirst_single x)
      simpa using ih (ds ++ [x]) _ next
  exact go ds [] none rfl

end Index

/-! ## Summaries of interfaces -/

namespace InterfaceSummary

open Index

/-- An entry of the summary states what some blocks come to; no entry stands for no block. -/
def Agrees : Option InterfaceSummary → List Descriptor → Prop
  | none, ds => ds = []
  | some s, ds => s.flows.toNat = flowSum ds ∧ s.traffic.toNat = trafficSum ds ∧ IsFirst s.first ds

variable {s : InterfaceSummary} {old : Option InterfaceSummary} {ds gone rest : List Descriptor}

theorem Agrees.perm {es : List Descriptor} (agrees : Agrees old ds) (same : ds.Perm es) : Agrees old es := by
  cases old with
  | none =>
    obtain rfl : ds = [] := agrees
    exact List.nil_perm.1 same
  | some s =>
    obtain ⟨flows, traffic, first⟩ := agrees
    exact ⟨flows.trans (flowSum_perm same), traffic.trans (trafficSum_perm same), first.perm same⟩

theorem Agrees.isSome_iff (agrees : Agrees old ds) : old.isSome = true ↔ ds ≠ [] := by
  cases old with
  | none =>
    obtain rfl : ds = [] := agrees
    simp
  | some s =>
    obtain ⟨-, -, ⟨x, member, -⟩, -⟩ := agrees
    simp [List.ne_nil_of_mem member]

theorem Agrees.eq_none_iff (agrees : Agrees old ds) : old = none ↔ ds = [] := by
  rw [← Option.not_isSome_iff_eq_none, agrees.isSome_iff, not_not]

/-- A block that is written is added to the entry. -/
theorem Agrees.add (agrees : Agrees old ds) (x : Descriptor) (fits : Fits (ds ++ [x])) :
    Agrees (some (add old x)) (ds ++ [x]) := by
  have single : flowSum [x] = x.flows.toNat ∧ trafficSum [x] = x.traffic.toNat := ⟨rfl, rfl⟩
  obtain ⟨flowsFit, trafficFits⟩ := fits
  rw [flowSum_append, single.1] at flowsFit
  rw [trafficSum_append, single.2] at trafficFits
  simp only [Agrees, flowSum_append, trafficSum_append, single.1, single.2]
  cases old with
  | none =>
    obtain rfl : ds = [] := agrees
    refine ⟨?_, ?_, ?_⟩
    · exact addCapped_toNat (a := 0) flowsFit
    · exact addCapped_toNat (a := 0) trafficFits
    · have same : min x.time x.time = x.time := by
        rcases Std.min_eq_or (a := x.time) (b := x.time) with same | same <;> exact same
      show IsFirst (min x.time x.time) [x]
      rw [same]
      exact isFirst_single x
  | some s =>
    obtain ⟨flows, traffic, first⟩ := agrees
    rw [← flows] at flowsFit ⊢
    rw [← traffic] at trafficFits ⊢
    exact ⟨addCapped_toNat flowsFit, addCapped_toNat trafficFits, first.append (isFirst_single x)⟩

/-- Blocks that are removed are taken from the entry, which then starts with the first that remains. -/
theorem Agrees.reduce (agrees : Agrees (some s) (gone ++ rest)) {flows traffic : UInt64} {t : Timestamp}
    (flowsGone : flows.toNat = flowSum gone) (trafficGone : traffic.toNat = trafficSum gone)
    (first : IsFirst t rest) : Agrees (some (s.reduce flows traffic t)) rest := by
  obtain ⟨sameFlows, sameTraffic, -⟩ := agrees
  rw [flowSum_append] at sameFlows
  rw [trafficSum_append] at sameTraffic
  refine ⟨?_, ?_, first⟩
  · rw [InterfaceSummary.reduce, subCapped_toNat, sameFlows, flowsGone]
    omega
  · rw [InterfaceSummary.reduce, subCapped_toNat, sameTraffic, trafficGone]
    omega

end InterfaceSummary

/-! ## Sweeps -/

namespace Sweep

open Index

variable {s : Sweep} {gone rest : List Descriptor}

/-- A sweep has removed some blocks and met some that remain. -/
structure Counts (s : Sweep) (gone rest : List Descriptor) : Prop where
  flows : s.flows.toNat = min (flowSum gone) greatestWord
  traffic : s.traffic.toNat = min (trafficSum gone) greatestWord
  first : IsFirst? s.first rest

theorem start_counts : start.Counts [] [] := ⟨rfl, rfl, rfl⟩

theorem Counts.flows_of_fits (counts : s.Counts gone rest) (fits : Fits gone) : s.flows.toNat = flowSum gone := by
  rw [counts.flows]
  exact Nat.min_eq_left (Nat.le_of_lt_succ fits.1)

theorem Counts.traffic_of_fits (counts : s.Counts gone rest) (fits : Fits gone) :
    s.traffic.toNat = trafficSum gone := by
  rw [counts.traffic]
  exact Nat.min_eq_left (Nat.le_of_lt_succ fits.2)

theorem Counts.perm {gone' rest' : List Descriptor} (counts : s.Counts gone rest) (same : gone.Perm gone')
    (same' : rest.Perm rest') : s.Counts gone' rest' := by
  refine ⟨?_, ?_, counts.first.perm same'⟩
  · rw [← flowSum_perm same]
    exact counts.flows
  · rw [← trafficSum_perm same]
    exact counts.traffic

theorem Counts.keep (counts : s.Counts gone rest) : s.keep.Counts gone rest :=
  ⟨counts.flows, counts.traffic, counts.first⟩

theorem Counts.retain (counts : s.Counts gone rest) (ds : List Descriptor) :
    (s.retain ds).Counts gone (rest ++ ds) := by
  refine ⟨counts.flows, counts.traffic, ?_⟩
  have own := isFirst?_firstTime ds
  have old := counts.first
  unfold Sweep.retain
  cases found : firstTime? ds with
  | none =>
    rw [found] at own
    obtain rfl : ds = [] := own
    simpa using old
  | some t =>
    rw [found] at own
    cases before : s.first with
    | none =>
      rw [before] at old
      obtain rfl : rest = [] := old
      exact own
    | some u =>
      rw [before] at old
      exact IsFirst.append old own

theorem Counts.remove (counts : s.Counts gone rest) (ds : List Descriptor) :
    (s.remove ds).Counts (gone ++ ds) rest := by
  obtain ⟨flows, traffic⟩ := totals_toNat_eq_min ds
  refine ⟨?_, ?_, counts.first⟩
  · rw [Sweep.remove, addCapped_toNat_eq_min, counts.flows, flows, flowSum_append]
    omega
  · rw [Sweep.remove, addCapped_toNat_eq_min, counts.traffic, traffic, trafficSum_append]
    omega

/-- The summary of an interface after its sweep. -/
def reduced (s : Sweep) (old : Option InterfaceSummary) : Option InterfaceSummary :=
  match s.first with
  | none => none
  | some first => old.map fun v => v.reduce s.flows s.traffic first

/-- A sweep leaves no entry if and only if there was none or no block is retained. -/
theorem Counts.reduced_eq_none_iff {old : Option InterfaceSummary} (counts : s.Counts gone rest) :
    s.reduced old = none ↔ old = none ∨ rest = [] := by
  rw [← counts.first.eq_none_iff, reduced]
  cases s.first with
  | none => simp
  | some t => simp

/-- An entry that agrees with all blocks before a sweep agrees with those that remain after it. -/
theorem Counts.agrees {old : Option InterfaceSummary} (counts : s.Counts gone rest)
    (agrees : InterfaceSummary.Agrees old (gone ++ rest)) : InterfaceSummary.Agrees (s.reduced old) rest := by
  have first := counts.first
  unfold reduced
  cases found : s.first with
  | none =>
    rw [found] at first
    exact first
  | some t =>
    rw [found] at first
    cases old with
    | none =>
      obtain ⟨-, rfl⟩ := List.append_eq_nil_iff.1 agrees
      obtain ⟨⟨x, member, -⟩, -⟩ := first
      cases member
    | some v =>
      have fits : Fits gone := by
        obtain ⟨flows, traffic, -⟩ := agrees
        exact (show Fits (gone ++ rest) from ⟨flows ▸ v.flows.toNat_lt, traffic ▸ v.traffic.toNat_lt⟩).left
      exact agrees.reduce (counts.flows_of_fits fits) (counts.traffic_of_fits fits) first

end Sweep

end FlowArchive

import FlowArchive.Proofs.FailedWrite
import FlowArchive.Proofs.Retention
import FlowArchive.Proofs.TakingTurns

/-!
# A write and a cleaning that meet

While a block is written, a cleaning may go on on the same disk. What the disk can be between two of their requests is
told against the disk that they both began with: the cleaning has taken away some of what is stale, the write has added
to the partition of its day, and the summary counts what the two have told it. Each of the two has something that the
other leaves alone: the write has the partition, the cleaning has what is stale, and who holds the lock has the ledger.
-/

namespace FlowArchive

open FlowArchive.Path (IsName)
open Disk (Edits Extends Loses)
open InterfaceSummary (Agrees)

namespace Disk

variable {d : Disk} {p : Path} {l : Location}

/-- A path leads to a directory, whatever is in the directory. -/
def LeadsFirmly (d : Disk) (p : Path) (l : Location) : Prop :=
  ∀ e : Disk, e.home = d.home → (∀ m, ¬ (l <+: m ∧ m ≠ l) → e.at? m = d.at? m) → e.LeadsTo p l

/-- A way that never turns back depends on nothing but the directories down to where it ends. -/
theorem walk_down {here m : Location} {names : List String} (down : ".." ∉ names) (walked : d.walk here names = .ok m) :
    here <+: m ∧ ∀ e : Disk, (∀ k, k <+: m → e.at? k = d.at? k) → e.walk here names = .ok m := by
  induction names generalizing here with
  | nil =>
    cases walked
    exact ⟨List.prefix_rfl, fun _ _ => rfl⟩
  | cons name rest ih =>
    obtain ⟨turns, later⟩ : ".." ≠ name ∧ ".." ∉ rest := by simpa using down
    rw [walk] at walked
    split at walked
    · cases walked
    · cases walked
    next there =>
      split at walked
      next stays =>
        obtain ⟨front, on⟩ := ih later walked
        refine ⟨front, fun e same => ?_⟩
        rw [walk, same here front, there, ← on e same]
        exact if_pos stays
      next goes =>
        rw [if_neg (Ne.symm turns)] at walked
        split at walked
        · cases walked
        next short =>
          obtain ⟨front, on⟩ := ih later walked
          have above : here <+: m := (List.prefix_append _ _).trans front
          refine ⟨above, fun e same => ?_⟩
          rw [walk, same here above, there, ← on e same]
          simp only [goes, Ne.symm turns, short, if_false]

/-- Where a path that never turns back leads does not depend on what is there. -/
theorem LeadsTo.firmly (leads : d.LeadsTo p l) (down : ".." ∉ (d.start p).2) : d.LeadsFirmly p l := by
  intro e home same
  refine ⟨?_, by rw [same l (by simp), leads.directory]⟩
  rw [start_congr home]
  refine (walk_down down leads.walked).2 e fun k front => same k fun below => below.2 ?_
  exact front.eq_of_length_le below.1.length_le

theorem Loses.at?_of_not {e : Disk} {gone doomed : Location → Prop} (loses : Loses d e gone)
    (within : ∀ m, gone m → d.at? m ≠ none → doomed m) (m : Location) (kept : ¬ doomed m) : e.at? m = d.at? m := by
  by_cases lost : gone m
  · rw [loses.away m lost]
    by_contra present
    exact kept (within m lost (Ne.symm present))
  · exact loses.rest m lost

end Disk

namespace Archive

inductive Party where
  | writer
  | cleaner
deriving DecidableEq

def Party.other : Party → Party
  | writer => cleaner
  | cleaner => writer

/-- A write and a cleaning that meet on a disk, and what is known of the disk before. -/
structure Meeting (a : Archive) where
  place : Location
  before : Disk
  interface : String
  time : Timestamp
  flows : List Flow
  day : Timestamp
  consistent : a.Consistent place before
  firm : before.LeadsFirmly a.root place
  free : ∀ x ∈ ledgerNames, before.at? (place ++ [x]) ≠ some .directory
  /-- The block is not of an earlier day. -/
  late : day ≤ time.startOfDay
  /-- The directory of the interface holds something that is not stale. -/
  kept : ∃ n, before.at? (place ++ [interface, n]) ≠ none ∧ ¬ before.IsStale place day interface n
  fits : Index.Fits (before.listed place interface ++ [describe time flows])

namespace Meeting

variable {a : Archive} {g : a.Meeting} {j n : String} {m : Location} {p : Party}

def partition (g : a.Meeting) : Location := g.place ++ [g.interface, partitionName g.time.startOfDay]

def index (g : a.Meeting) : Location := g.partition ++ [indexName]

def block (g : a.Meeting) : Descriptor := describe g.time g.flows

/-- What is at a location is stale. -/
def IsDoomed (g : a.Meeting) (m : Location) : Prop := ∃ j, g.before.IsSwept g.place g.day j m

/-- What is of one party and is left alone by the other. -/
def Owns (g : a.Meeting) : Party → Location → Prop
  | .writer, m => g.partition <+: m
  | .cleaner, m => g.IsDoomed m

/-- The blocks of an interface that are stale, and those that are not. -/
def removed (g : a.Meeting) (j : String) : List Descriptor :=
  ((g.before.partitionNames g.place j).filter (isEarlier g.day)).flatMap (g.before.indexAt g.place j)

def retained (g : a.Meeting) (j : String) : List Descriptor :=
  ((g.before.partitionNames g.place j).filter fun n => !isEarlier g.day n).flatMap (g.before.indexAt g.place j)

/-- A block that is not stale is as early as the one that is written. -/
def Early (g : a.Meeting) : Prop := ∃ y ∈ g.retained g.interface, y.time ≤ g.time

/-- The blocks of an interface that the summary counts when some parties have told it what they did. -/
def counted (g : a.Meeting) (told : Party → Bool) (j : String) : List Descriptor :=
  (if told .cleaner then g.retained j else g.removed j ++ g.retained j) ++
    if told .writer ∧ j = g.interface then [g.block] else []

theorem listed_perm (g : a.Meeting) (j : String) :
    (g.before.listed g.place j).Perm (g.removed j ++ g.retained j) := by
  have parts := Disk.listed_filter g.before g.place j fun n => !isEarlier g.day n
  simp only [Bool.not_not] at parts
  exact parts

theorem interface_there (g : a.Meeting) : g.before.at? (g.place ++ [g.interface]) = some .directory := by
  obtain ⟨n, present, -⟩ := g.kept
  exact g.consistent.tree.parent present

theorem isName (g : a.Meeting) : IsName g.interface := g.consistent.tree.isName g.interface_there

theorem isEarlier_own (g : a.Meeting) : isEarlier g.day (partitionName g.time.startOfDay) = false := by
  rw [isEarlier_partitionName]
  exact decide_eq_false (Int64.not_lt.2 g.late)

theorem not_isDoomed (inside : g.partition <+: m) : ¬ g.IsDoomed m := by
  rintro ⟨j, ⟨n, stale, below⟩ | ⟨-, rfl⟩⟩
  · have same := List.prefix_of_prefix_length_le inside below (by simp [partition])
    simp only [partition, List.prefix_append_right_inj, List.cons_prefix_cons, List.nil_prefix, and_true] at same
    obtain ⟨rfl, rfl⟩ := same
    exact absurd stale.2 (by rw [g.isEarlier_own]; simp)
  · have longer := inside.length_le
    simp [partition] at longer

theorem index_own (g : a.Meeting) : g.partition <+: g.index := List.prefix_append _ _

theorem index_eq (g : a.Meeting) : g.index = g.place ++ [g.interface, partitionName g.time.startOfDay, indexName] := by
  simp [index, partition]

theorem not_isLedgerFile_own (inside : g.partition <+: m) : ¬ IsLedgerFile g.place m := by
  rintro ⟨x, -, rfl⟩
  have longer := inside.length_le
  simp [partition] at longer

theorem IsDoomed.not_isLedgerFile (doomed : g.IsDoomed m) : ¬ IsLedgerFile g.place m := by
  rintro ⟨x, listed, rfl⟩
  exact g.free x listed (Disk.exists_isSwept_interface_iff.1 doomed).1

theorem Owns.not_isLedgerFile (owns : g.Owns p m) : ¬ IsLedgerFile g.place m := by
  cases p with
  | writer => exact not_isLedgerFile_own owns
  | cleaner => exact IsDoomed.not_isLedgerFile owns

theorem partition_apart (g : a.Meeting) (j : String) : ¬ g.partition <+: g.place ++ [j] := by
  intro inside
  have longer := inside.length_le
  simp [partition] at longer

end Meeting

/-- What a disk can be between two requests of a write and a cleaning that meet. -/
structure Moment {a : Archive} (g : a.Meeting) where
  disk : Disk
  holder : Option Party
  /-- Who has told the summary what it did. -/
  told : Party → Bool
  home : disk.home = g.before.home
  tree : disk.IsTree g.place
  /-- Apart from the ledger and the partition of the block, everything is as before, or it was stale and is gone. -/
  rest : ∀ m, ¬ IsLedgerFile g.place m → ¬ g.partition <+: m →
    disk.at? m = g.before.at? m ∨ disk.at? m = none ∧ g.IsDoomed m
  partition : disk.at? g.partition = g.before.at? g.partition ∨ disk.at? g.partition = some .directory
  index : disk.content? g.index = g.before.content? g.index ∨
    disk.content? g.index = some ((g.before.content? g.index).getD [] ++ Index.writeEntry g.block)
  readable : disk.content? g.index ≠ none → a.Readable g.interface (partitionName g.time.startOfDay)
  ledger : ∀ x ∈ ledgerNames, disk.at? (g.place ++ [x]) ≠ some .directory
  lock : holder ≠ none → disk.content? (g.place ++ [lockName]) ≠ none
  /-- The summary counts what it has been told. The earliest time may be wrong for the interface of the block. -/
  agrees : ∀ j, (j = g.interface → g.Early) → Agrees (entryAt disk g.place j) (g.counted told j)

namespace Moment

variable {a : Archive} {g : a.Meeting} {s t : Moment g} {e : Disk} {j n : String} {m : Location} {p : Party}

/-! ## What is the same at all moments -/

theorem at?_apart (s : Moment g) (ledger : ¬ IsLedgerFile g.place m) (outside : ¬ g.partition <+: m)
    (fresh : ¬ g.IsDoomed m) : s.disk.at? m = g.before.at? m :=
  (s.rest m ledger outside).resolve_right fun lost => fresh lost.2

theorem at?_outside (s : Moment g) (outside : ¬ (g.place <+: m ∧ m ≠ g.place)) : s.disk.at? m = g.before.at? m := by
  refine s.at?_apart ?_ ?_ ?_
  · rintro ⟨x, -, rfl⟩
    exact outside ⟨List.prefix_append _ _, by simp⟩
  · rintro ⟨rest, rfl⟩
    exact outside ⟨⟨_, (List.append_assoc _ _ _).symm⟩, by simp [Meeting.partition]⟩
  · rintro ⟨j, swept⟩
    obtain ⟨rest, rfl⟩ := swept.below
    exact outside ⟨⟨_, (List.append_assoc _ _ _).symm⟩, by simp⟩

theorem leads (s : Moment g) : s.disk.LeadsTo a.root g.place := g.firm s.disk s.home fun _ => s.at?_outside

theorem not_isLedgerFile_interface (s : Moment g) (there : s.disk.at? (g.place ++ [j]) = some .directory) :
    ¬ IsLedgerFile g.place (g.place ++ [j]) := by
  rintro ⟨x, listed, same⟩
  exact s.ledger x listed (same ▸ there)

/-- The directory of the interface stays, since not all in it is stale. -/
theorem interface_there (s : Moment g) : s.disk.at? (g.place ++ [g.interface]) = some .directory := by
  rw [s.at?_apart _ (g.partition_apart _), g.interface_there]
  · intro doomed
    obtain ⟨n, present, fresh⟩ := g.kept
    exact fresh ((Disk.exists_isSwept_interface_iff.1 doomed).2 n present)
  · rintro ⟨x, listed, same⟩
    exact g.free x listed (same ▸ g.interface_there)

theorem partition_kept (s : Moment g) (there : g.before.at? g.partition = some .directory) :
    s.disk.at? g.partition = some .directory := by
  rcases s.partition with same | now
  · rw [same, there]
  · exact now

/-- An index that the block was entered in lists it after what it listed before. -/
theorem indexAt_of_entered
    (entered : s.disk.content? g.index = some ((g.before.content? g.index).getD [] ++ Index.writeEntry g.block)) :
    s.disk.indexAt g.place g.interface (partitionName g.time.startOfDay) =
      g.before.indexAt g.place g.interface (partitionName g.time.startOfDay) ++ [g.block] := by
  have whole : (Index.writeEntry g.block).take 32 = Index.writeEntry g.block := List.take_of_length_le (by simp)
  rw [g.index_eq] at entered
  exact indexAt_of_append (k := 32) (fun s => g.consistent.flawless _ _ s) (by rw [whole]; exact entered)

/-! ## What the parties leave alone -/

/-- What is of one party is the same at two moments. -/
structure Spares (p : Party) (s t : Moment g) : Prop where
  owned : ∀ m, g.Owns p m → t.disk.at? m = s.disk.at? m
  told : t.told p = s.told p
  /-- While the party holds the lock, the ledger is of the party. -/
  held : s.holder = some p →
    t.holder = some p ∧ t.told = s.told ∧ ∀ x ∈ ledgerNames, t.disk.at? (g.place ++ [x]) = s.disk.at? (g.place ++ [x])

theorem spares_refl (p : Party) (s : Moment g) : Spares p s s :=
  ⟨fun _ _ => rfl, rfl, fun held => ⟨held, rfl, fun _ _ => rfl⟩⟩

theorem Spares.trans {u : Moment g} (first : Spares p s t) (second : Spares p t u) : Spares p s u := by
  refine ⟨fun m owns => (second.owned m owns).trans (first.owned m owns), second.told.trans first.told, fun held => ?_⟩
  obtain ⟨held', told, ledger⟩ := first.held held
  obtain ⟨held'', told', ledger'⟩ := second.held held'
  exact ⟨held'', told'.trans told, fun x listed => (ledger' x listed).trans (ledger x listed)⟩

/-- Each party leaves alone what is of the other. -/
def terms (g : a.Meeting) (p : Party) : Terms (Moment g) where
  disk := disk
  others := Spares p
  own := Spares p.other
  refl := spares_refl p
  trans _ _ _ := Spares.trans
  idle := spares_refl p.other

theorem stable_owned (owns : g.Owns p m) (entry : Option Entry) : (terms g p).Stable fun s => s.disk.at? m = entry :=
  fun _ _ turn same => (turn.owned m owns).trans same

theorem stable_content (owns : g.Owns p m) (content : Option Bytes) :
    (terms g p).Stable fun s => s.disk.content? m = content :=
  fun _ _ turn same => (Disk.content?_congr (turn.owned m owns)).trans same

theorem stable_told (b : Bool) : (terms g p).Stable fun s => s.told p = b :=
  fun _ _ turn same => turn.told.trans same

def OfOwn (p : Party) (P : Moment g → Prop) : Prop :=
  ∀ s t : Moment g, (∀ m, g.Owns p m → t.disk.at? m = s.disk.at? m) → P s → P t

theorem OfOwn.stable {P : Moment g → Prop} (own : OfOwn p P) : (terms g p).Stable P :=
  fun s t turn => own s t turn.owned

/-- While a party holds the lock, what depends on the ledger stays so, too. -/
theorem stable_held {P : Moment g → Prop} (own : ∀ s t : Moment g, (∀ m, g.Owns p m → t.disk.at? m = s.disk.at? m) →
    t.told = s.told → (∀ x ∈ ledgerNames, t.disk.at? (g.place ++ [x]) = s.disk.at? (g.place ++ [x])) → P s → P t) :
    (terms g p).Stable fun s => s.holder = some p ∧ P s := by
  rintro s t turn ⟨held, holds⟩
  obtain ⟨held', told, ledger⟩ := turn.held held
  exact ⟨held', own s t turn.owned told ledger holds⟩

/-! ## Moments after a request -/

/-- A moment after something in the partition of the block has changed. -/
def inPartition (s : Moment g) (e : Disk) (home : e.home = s.disk.home) (tree : e.IsTree g.place)
    (same : ∀ m, ¬ g.partition <+: m → e.at? m = s.disk.at? m)
    (partition : e.at? g.partition = s.disk.at? g.partition ∨ e.at? g.partition = some .directory)
    (index : e.content? g.index = s.disk.content? g.index ∨
      e.content? g.index = some ((g.before.content? g.index).getD [] ++ Index.writeEntry g.block))
    (readable : e.content? g.index ≠ none → a.Readable g.interface (partitionName g.time.startOfDay)) : Moment g where
  disk := e
  holder := s.holder
  told := s.told
  home := home.trans s.home
  tree := tree
  rest m ledger outside := by
    rw [same m outside]
    exact s.rest m ledger outside
  partition := by
    rcases partition with old | new
    · rw [old]
      exact s.partition
    · exact .inr new
  index := by
    rcases index with old | new
    · rw [old]
      exact s.index
    · exact .inr new
  readable := readable
  ledger x listed := by
    rw [same _ (g.partition_apart x)]
    exact s.ledger x listed
  lock held := by
    rw [Disk.content?_congr (same _ (g.partition_apart lockName))]
    exact s.lock held
  agrees j early := by
    rw [entryAt, Disk.summaryAt, Disk.content?_congr (same _ (g.partition_apart summaryName))]
    exact s.agrees j early

theorem spares_inPartition {home : e.home = s.disk.home} {tree : e.IsTree g.place}
    {same : ∀ m, ¬ g.partition <+: m → e.at? m = s.disk.at? m}
    {partition : e.at? g.partition = s.disk.at? g.partition ∨ e.at? g.partition = some .directory}
    {index : e.content? g.index = s.disk.content? g.index ∨
      e.content? g.index = some ((g.before.content? g.index).getD [] ++ Index.writeEntry g.block)}
    {readable : e.content? g.index ≠ none → a.Readable g.interface (partitionName g.time.startOfDay)} :
    Spares .cleaner s (s.inPartition e home tree same partition index readable) :=
  ⟨fun _ doomed => same _ fun inside => g.not_isDoomed inside doomed, rfl,
    fun held => ⟨held, rfl, fun x _ => same _ (g.partition_apart x)⟩⟩

/-- A moment after something stale was taken away. -/
def lose (s : Moment g) (e : Disk) {gone : Location → Prop} (loses : Loses s.disk e gone)
    (doomed : ∀ m, gone m → s.disk.at? m ≠ none → g.IsDoomed m)
    (below : ∀ m x, gone m → s.disk.at? (m ++ [x]) ≠ none → gone (m ++ [x])) : Moment g :=
  have same : ∀ m, ¬ g.IsDoomed m → e.at? m = s.disk.at? m := loses.at?_of_not doomed
  have apart : ∀ {m}, g.partition <+: m → e.at? m = s.disk.at? m := fun inside => same _ (g.not_isDoomed inside)
  have ledger : ∀ {x}, x ∈ ledgerNames → e.at? (g.place ++ [x]) = s.disk.at? (g.place ++ [x]) := fun listed =>
    same _ fun lost => lost.not_isLedgerFile ⟨_, listed, rfl⟩
  { disk := e
    holder := s.holder
    told := s.told
    home := loses.home.trans s.home
    tree := s.tree.loses loses below
    rest := by
      intro m other outside
      by_cases lost : g.IsDoomed m
      · by_cases now : gone m
        · exact .inr ⟨loses.away m now, lost⟩
        · rw [loses.rest m now]
          exact s.rest m other outside
      · rw [same m lost]
        exact s.rest m other outside
    partition := by
      rw [apart List.prefix_rfl]
      exact s.partition
    index := by
      rw [Disk.content?_congr (apart g.index_own)]
      exact s.index
    readable := by
      rw [Disk.content?_congr (apart g.index_own)]
      exact s.readable
    ledger := by
      intro x listed
      rw [ledger listed]
      exact s.ledger x listed
    lock := by
      rw [Disk.content?_congr (ledger (mem_ledgerNames.2 (.inr (.inr rfl))))]
      exact s.lock
    agrees := by
      intro j early
      rw [entryAt, Disk.summaryAt, Disk.content?_congr (ledger (mem_ledgerNames.2 (.inl rfl)))]
      exact s.agrees j early }

/-- A moment after the ledger has changed. -/
def inLedger (s : Moment g) (e : Disk) (edits : Edits (IsLedgerFile g.place) s.disk e) (holder : Option Party)
    (told : Party → Bool) (lock : holder ≠ none → e.content? (g.place ++ [lockName]) ≠ none)
    (agrees : ∀ j, (j = g.interface → g.Early) → Agrees (entryAt e g.place j) (g.counted told j)) : Moment g where
  disk := e
  holder := holder
  told := told
  home := edits.home.trans s.home
  tree := edits.isTree s.tree
  rest m other outside := by
    rw [edits.rest m other]
    exact s.rest m other outside
  partition := by
    rw [edits.rest _ (g.not_isLedgerFile_own List.prefix_rfl)]
    exact s.partition
  index := by
    rw [edits.content? (g.not_isLedgerFile_own g.index_own)]
    exact s.index
  readable := by
    rw [edits.content? (g.not_isLedgerFile_own g.index_own)]
    exact s.readable
  ledger x listed there := s.ledger x listed (edits.directory_iff.1 there)
  lock := lock
  agrees := agrees

/-- Who changes the ledger while the other does not hold the lock spares the other. -/
theorem spares_inLedger {edits : Edits (IsLedgerFile g.place) s.disk e} {holder : Option Party} {told : Party → Bool}
    {lock : holder ≠ none → e.content? (g.place ++ [lockName]) ≠ none}
    {agrees : ∀ j, (j = g.interface → g.Early) → Agrees (entryAt e g.place j) (g.counted told j)}
    (own : told p = s.told p) (free : s.holder ≠ some p) :
    Spares p s (s.inLedger e edits holder told lock agrees) :=
  ⟨fun m owns => edits.rest m owns.not_isLedgerFile, own, fun held => absurd held free⟩

theorem spares_lose {gone : Location → Prop} {loses : Loses s.disk e gone}
    {doomed : ∀ m, gone m → s.disk.at? m ≠ none → g.IsDoomed m}
    {below : ∀ m x, gone m → s.disk.at? (m ++ [x]) ≠ none → gone (m ++ [x])} :
    Spares .writer s (s.lose e loses doomed below) := by
  have same : ∀ m, ¬ g.IsDoomed m → e.at? m = s.disk.at? m := loses.at?_of_not doomed
  exact ⟨fun m inside => same m (g.not_isDoomed inside), rfl,
    fun held => ⟨held, rfl, fun x listed => same _ fun lost => lost.not_isLedgerFile ⟨x, listed, rfl⟩⟩⟩

end Moment

end Archive

end FlowArchive

import FlowArchive.Proofs.Days
import FlowArchive.Proofs.Selection

/-!
# Names of partitions

The name of a partition is the canonical text of its day. So a day has one name, other names are those of foreign
directories, and no two partitions of an interface are of the same day.
-/

namespace FlowArchive.Archive

variable {a : Archive} {i name : String} {t : Timestamp} {found : List (String × EntryKind)}

/-- The name of a partition is the canonical text of its day, and every canonical text of a word is a name. -/
theorem partitionDay?_eq_some_iff : partitionDay? name = some t ↔ Decimal.Canonical name.toList t.toInt := by
  have letters : (partitionName t).toList = Decimal.printInt t.toInt := String.toList_ofList
  rw [Decimal.canonical_iff, ← letters, String.toList_inj]
  constructor
  · exact fun found => (partitionName_of_partitionDay? found).symm
  · rintro rfl
    exact partitionDay?_partitionName t

/-- What can be wrong with the name of a partition: a plus sign, white space, a zero in front of something else, a minus
sign before zero, or an integer that is no word. -/
inductive IsIrregular (name : String) : Prop where
  | plus (member : '+' ∈ name.toList)
  | blank {c : Char} (member : c ∈ name.toList) (blank : Text.isBlank c = true)
  | spareZero {sign rest : List Char} (signs : sign ∈ [[], ['-'], ['+']]) (filled : rest ≠ [])
      (letters : name.toList = sign ++ '0' :: rest)
  | minusZero (letters : name = "-0")
  | outside {i : Int} (spells : Decimal.Spells name.toList i)
      (far : i < Timestamp.least.toInt ∨ Timestamp.greatest.toInt < i)

theorem IsIrregular.partitionDay?_eq_none (irregular : IsIrregular name) : partitionDay? name = none := by
  refine Option.eq_none_iff_forall_ne_some.2 fun t found => ?_
  have canonical := partitionDay?_eq_some_iff.1 found
  have letters : ∀ c ∈ name.toList, c = '-' ∨ Decimal.isDigit c = true := by
    rw [Decimal.canonical_iff.1 canonical]
    exact fun c => Decimal.mem_printInt
  have noPlus : '+' ∉ name.toList := fun member => absurd (letters _ member) (by decide)
  cases irregular with
  | plus member => exact noPlus member
  | blank member blank =>
    rcases letters _ member with rfl | digit
    · exact absurd blank (by decide)
    · rw [Decimal.not_isBlank_of_isDigit digit] at blank
      cases blank
  | @spareZero sign rest signs filled shown =>
    simp only [List.mem_cons, List.not_mem_nil, or_false] at signs
    rcases signs with rfl | rfl | rfl
    · exact filled (Decimal.Canonical.eq_nil (shown ▸ canonical))
    · exact Decimal.not_canonical_minus_zero (shown ▸ canonical)
    · exact noPlus (by simp [shown])
  | minusZero shown =>
    rw [shown] at canonical
    exact Decimal.not_canonical_minus_zero canonical
  | outside spells far =>
    obtain rfl := spells.unique canonical.spells
    have low := t.le_toInt
    have high := t.toInt_lt
    rw [Timestamp.toInt_least, Timestamp.toInt_greatest] at far
    omega

theorem IsIrregular.classify_eq_foreign (irregular : IsIrregular name) (a : Archive) (i : String) :
    a.classify i (name, .directory) = .foreign name := by
  rw [classify, irregular.partitionDay?_eq_none]

/-- Directories of the same day have the same name. -/
theorem eq_of_classify {m n : String} {p q : Path} (first : a.classify i (m, .directory) = .partition t p)
    (second : a.classify i (n, .directory) = .partition t q) : m = n := by
  obtain ⟨one, -⟩ := classify_eq_partition.1 first
  obtain ⟨other, -⟩ := classify_eq_partition.1 second
  exact congrArg Prod.fst (one.trans other.symm)

/-- Different directories are of different days, so that each partition is of a later day than those before it. -/
theorem ascending_partitionsAmong (distinct : (found.map (·.1)).Nodup) :
    (a.partitionsAmong i found).Pairwise fun x y => x.1 < y.1 := by
  have nodup := nodup_partitionsAmong (a := a) (i := i) distinct.of_map
  refine ((sorted_partitionsAmong a i found).and nodup).imp_of_mem ?_
  rintro ⟨t, p⟩ ⟨u, q⟩ first second ⟨before, different⟩
  refine Int64.lt_of_le_of_ne before fun same => different ?_
  obtain rfl : t = u := same
  rw [(mem_partitionsAmong.1 first).2, (mem_partitionsAmong.1 second).2]

theorem runOn_partitions_of_refused {d : Disk} {f : Fault} (refused : d.list (a.interfacePath i) = .error f) :
    (a.partitions i).runOn d = (.error (.fault f), d) := by
  have asked : (Action.ask (.list (a.interfacePath i))).runOn d = (.error (.fault f), d) :=
    Action.runOn_ask_of_error (Prod.ext refused rfl)
  exact Action.runOn_bind_of_error (Action.runOn_bind_of_error asked)

/-- The name of a day is read as the day, and a name that is read as a day is the name of that day: the canonical text
of an integer that is a word. So two directories of an interface with different names are never of the same day, and a
directory with an irregular name is foreign. If the directory of an interface can be listed, its partitions are the
directories in it that have names of days, and each is of a later day than those before it. -/
theorem names_tell_days :
    (∀ t, partitionDay? (partitionName t) = some t) ∧
    (∀ name t, partitionDay? name = some t → name = partitionName t) ∧
    (∀ name t, partitionDay? name = some t ↔ Decimal.Canonical name.toList t.toInt) ∧
    (∀ name, IsIrregular name → partitionDay? name = none) ∧
    ∀ (a : Archive) i,
      (∀ m n t p q, m ≠ n → a.classify i (m, .directory) = .partition t p →
        a.classify i (n, .directory) ≠ .partition t q) ∧
      (∀ name, IsIrregular name → a.classify i (name, .directory) = .foreign name) ∧
      (∀ d found, d.list (a.interfacePath i) = .ok found → ∃ ps, (a.partitions i).runOn d = (.ok ps, d) ∧
        (ps.Pairwise fun x y => x.1 < y.1) ∧
        ∀ t p, (t, p) ∈ ps ↔
          (partitionName t, .directory) ∈ found ∧ p = (a.interfacePath i).join (partitionName t)) ∧
      ∀ d f, d.list (a.interfacePath i) = .error f → (a.partitions i).runOn d = (.error (.fault f), d) := by
  refine ⟨partitionDay?_partitionName, fun name t found => (partitionName_of_partitionDay? found).symm,
    fun name t => partitionDay?_eq_some_iff, fun name irregular => irregular.partitionDay?_eq_none,
    fun a i => ⟨fun m n t p q other first second => other (eq_of_classify first second),
      fun name irregular => irregular.classify_eq_foreign a i, fun d found listed => ?_,
      fun d f => runOn_partitions_of_refused⟩⟩
  have distinct : (found.map (·.1)).Nodup := by
    obtain ⟨l, -, rfl⟩ := Disk.leadsTo_of_list listed
    exact Disk.nodup_children d l
  exact ⟨_, runOn_partitions listed, ascending_partitionsAmong distinct, fun t p => mem_partitionsAmong⟩

/-- A disk with one interface, which has partitions of the days before and after the first one, a file with the name of
that one, and a directory whose name begins with zeros. -/
def mixedDisk : Disk :=
  let interface := ((⟨[], .empty⟩ : Disk).put ["data"] .directory).put ["data", "eth0"] .directory
  let days := ["86400", "-86400", "007"].foldl (fun d n => d.put ["data", "eth0", n] .directory) interface
  days.put ["data", "eth0", "0"] (.file [])

theorem names_tell_days_mixed :
    let a : Archive := ⟨.ofText "/data", .ofSeconds 1⟩
    let found := [("-86400", .directory), ("0", .file), ("007", .directory), ("86400", .directory)]
    let earlier := (a.interfacePath "eth0").join "-86400"
    let later := (a.interfacePath "eth0").join "86400"
    (partitionDay? "-86400" = some (-86400) ∧ "-86400" = partitionName (-86400)) ∧
    (IsIrregular "-9223372036854775809" ∧ partitionDay? "-9223372036854775809" = none) ∧
    (IsIrregular "007" ∧ a.classify "eth0" ("007", .directory) = .foreign "007") ∧
    ("86400" ≠ "-86400" ∧ a.classify "eth0" ("86400", .directory) = .partition 86400 later ∧
      a.classify "eth0" ("-86400", .directory) ≠ .partition 86400 earlier) ∧
    (mixedDisk.list (a.interfacePath "eth0") = .ok found ∧
      ∃ ps, (a.partitions "eth0").runOn mixedDisk = (.ok ps, mixedDisk) ∧ (ps.Pairwise fun x y => x.1 < y.1) ∧
        (-86400, earlier) ∈ ps ∧ (86400, later) ∈ ps) ∧
    (mixedDisk.list (a.interfacePath "eth1") = .error .missing ∧
      (a.partitions "eth1").runOn mixedDisk = (.error (.fault .missing), mixedDisk)) := by
  intro a found earlier later
  obtain ⟨-, named, -, refused, listings⟩ := names_tell_days
  have day : partitionDay? "-86400" = some (-86400) := by decide +kernel
  have row : Decimal.IsRow "9223372036854775809".toList := ⟨by decide, List.all_eq_true.1 (by decide)⟩
  have far : IsIrregular "-9223372036854775809" := .outside (.minus row) (.inl (by decide))
  have zeros : IsIrregular "007" := @IsIrregular.spareZero "007" [] ['0', '7'] (by decide) (by decide) (by decide)
  have other : "86400" ≠ "-86400" := by decide
  have known : a.classify "eth0" ("86400", .directory) = .partition 86400 later := by decide +kernel
  have listed : mixedDisk.list (a.interfacePath "eth0") = .ok found := by decide +kernel
  have missing : mixedDisk.list (a.interfacePath "eth1") = .error .missing := by decide +kernel
  obtain ⟨apart, foreign, partitions, -⟩ := listings a "eth0"
  obtain ⟨-, -, -, failed⟩ := listings a "eth1"
  obtain ⟨ps, ran, ascending, members⟩ := partitions mixedDisk found listed
  exact ⟨⟨day, named _ _ day⟩, ⟨far, refused _ far⟩, ⟨zeros, foreign _ zeros⟩,
    ⟨other, known, apart _ _ _ _ _ other known⟩,
    ⟨listed, ps, ran, ascending, (members _ _).2 (by decide +kernel), (members _ _).2 (by decide +kernel)⟩,
    missing, failed _ _ missing⟩

end FlowArchive.Archive

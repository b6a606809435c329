import FlowArchive.Proofs.Requests

/-!
# Growing and shrinking trees

Below the directory of an archive, every entry has a name and stands in a directory. Requests keep it so. Making
directories leaves everything else as it is, and removing a tree takes away what is at a location or below it.
-/

namespace FlowArchive.Disk

open FlowArchive.Path (IsName)

variable {c d e : Disk} {p : Path} {x y : String} {k l m : Location} {s : Bytes}

/-! ## Trees below a location -/

/-- Below a location, every entry has a name and stands in a directory. -/
def IsTree (d : Disk) (l : Location) : Prop :=
  ∀ m x, d.at? (l ++ m ++ [x]) ≠ none → IsName x ∧ d.at? (l ++ m) = some .directory

/-- What is in the directory of a tree has a name. -/
theorem IsTree.isName (tree : d.IsTree l) (there : d.at? (l ++ [x]) = some .directory) : IsName x :=
  (tree [] x (by rw [List.append_nil, there]; simp)).1

theorem IsTree.parent (tree : d.IsTree l) (there : d.at? (l ++ [x, y]) ≠ none) :
    d.at? (l ++ [x]) = some .directory :=
  (tree [x] y (by rwa [← List.append_cons])).2

theorem snoc_inj : k ++ [x] = l ++ [y] ↔ k = l ∧ x = y := by
  constructor
  · exact fun same => ⟨List.append_inj_left' same rfl, by simpa using List.append_inj_right' same rfl⟩
  · rintro ⟨rfl, rfl⟩
    rfl

theorem IsTree.put (tree : d.IsTree l) (there : d.at? k = some .directory) (name : IsName x) {entry : Entry}
    (free : entry = .directory ∨ d.at? (k ++ [x]) ≠ some .directory) : (d.put (k ++ [x]) entry).IsTree l := by
  intro m y present
  rw [at?_put _ (snoc_ne_nil k x)] at present ⊢
  have parent : IsName y ∧ d.at? (l ++ m) = some .directory := by
    split at present
    next here =>
      obtain ⟨same, rfl⟩ := snoc_inj.1 here
      exact ⟨name, same ▸ there⟩
    · exact tree m y present
  refine ⟨parent.1, ?_⟩
  split
  next here =>
    rcases free with rfl | free
    · rfl
    · exact absurd (here ▸ parent.2) free
  · exact parent.2

theorem IsTree.erase (tree : d.IsTree l) (there : d.at? (k ++ [x]) ≠ some .directory) :
    ({ d with entries := d.entries.erase (k ++ [x]) } : Disk).IsTree l := by
  intro m y present
  rw [at?_erase _ (snoc_ne_nil k x)] at present ⊢
  split at present
  · exact absurd rfl present
  · obtain ⟨name, parent⟩ := tree m y present
    refine ⟨name, ?_⟩
    have apart : l ++ m ≠ k ++ [x] := fun here => there (here ▸ parent)
    rw [if_neg apart]
    exact parent

theorem IsTree.rename (tree : d.IsTree l) (there : d.at? k = some .directory) (name : IsName y)
    (source : d.at? (k ++ [x]) = some (.file s)) (free : d.at? (k ++ [y]) ≠ some .directory) :
    ({ d with entries := (d.entries.erase (k ++ [x])).insert (k ++ [y]) (.file s) } : Disk).IsTree l := by
  have erased := tree.erase (k := k) (x := x) (by rw [source]; simp)
  have there' : ({ d with entries := d.entries.erase (k ++ [x]) } : Disk).at? k = some .directory := by
    rw [at?_erase _ (snoc_ne_nil k x), if_neg (by simp)]
    exact there
  have free' : ({ d with entries := d.entries.erase (k ++ [x]) } : Disk).at? (k ++ [y]) ≠ some .directory := by
    rw [at?_erase _ (snoc_ne_nil k x)]
    split
    · simp
    · exact free
  exact IsTree.put erased there' name (.inr free')

/-! ## Changing files -/

theorem keepsDirectories_put (free : d.at? (k ++ [x]) ≠ some .directory) (entry : Entry) :
    KeepsDirectories d (d.put (k ++ [x]) entry) := by
  refine ⟨rfl, fun m there => ?_⟩
  have apart : m ≠ k ++ [x] := fun here => free (here ▸ there)
  rw [at?_put _ (snoc_ne_nil k x), if_neg apart]
  exact there

theorem keepsDirectories_erase (free : d.at? (k ++ [x]) ≠ some .directory) :
    KeepsDirectories d { d with entries := d.entries.erase (k ++ [x]) } := by
  refine ⟨rfl, fun m there => ?_⟩
  have apart : m ≠ k ++ [x] := fun here => free (here ▸ there)
  rw [at?_erase _ (snoc_ne_nil k x), if_neg apart]
  exact there

theorem keepsDirectories_rename (source : d.at? (k ++ [x]) = some (.file s))
    (free : d.at? (k ++ [y]) ≠ some .directory) :
    KeepsDirectories d { d with entries := (d.entries.erase (k ++ [x])).insert (k ++ [y]) (.file s) } := by
  refine (keepsDirectories_erase (k := k) (x := x) (by rw [source]; simp)).trans ?_
  refine keepsDirectories_put (k := k) (x := y) ?_ (.file s)
  rw [at?_erase _ (snoc_ne_nil k x)]
  split
  · simp
  · exact free

/-! ## Adding directories -/

/-- A disk has become another by nothing but new directories, each with a name and in a directory. -/
structure Extends (d e : Disk) : Prop where
  home : e.home = d.home
  added : ∀ m, e.at? m = d.at? m ∨ d.at? m = none ∧ e.at? m = some .directory ∧
    ∃ k x, m = k ++ [x] ∧ IsName x ∧ e.at? k = some .directory

theorem Extends.refl (d : Disk) : Extends d d := ⟨rfl, fun _ => .inl rfl⟩

theorem Extends.keepsDirectories (extends_ : Extends d e) : KeepsDirectories d e := by
  refine ⟨extends_.home, fun m there => ?_⟩
  rcases extends_.added m with same | ⟨-, new, -⟩
  · rw [same, there]
  · exact new

theorem Extends.trans (first : Extends c d) (second : Extends d e) : Extends c e := by
  refine ⟨second.home.trans first.home, fun m => ?_⟩
  rcases second.added m with same | ⟨absent, new, parent⟩
  · rcases first.added m with same' | ⟨absent, new, k, x, rfl, name, there⟩
    · exact .inl (same.trans same')
    · exact .inr ⟨absent, same.trans new, k, x, rfl, name, second.keepsDirectories.kept k there⟩
  · rcases first.added m with same' | ⟨-, new', -⟩
    · exact .inr ⟨same' ▸ absent, new, parent⟩
    · rw [absent] at new'
      cases new'

theorem Extends.isTree (extends_ : Extends d e) (tree : d.IsTree l) : e.IsTree l := by
  intro m x present
  rcases extends_.added (l ++ m ++ [x]) with same | ⟨-, -, k, y, here, name, there⟩
  · rw [same] at present
    obtain ⟨name, there⟩ := tree m x present
    exact ⟨name, extends_.keepsDirectories.kept _ there⟩
  · obtain ⟨rfl, rfl⟩ := snoc_inj.1 here
    exact ⟨name, there⟩

theorem Extends.content? (extends_ : Extends d e) (m : Location) : e.content? m = d.content? m := by
  rcases extends_.added m with same | ⟨absent, new, -⟩
  · exact content?_congr same
  · simp [Disk.content?, absent, new]

theorem extends_put (there : d.at? k = some .directory) (name : IsName x) (free : d.at? (k ++ [x]) = none) :
    Extends d (d.put (k ++ [x]) .directory) := by
  refine ⟨rfl, fun m => ?_⟩
  rw [at?_put _ (snoc_ne_nil k x)]
  split
  next here =>
    subst here
    refine .inr ⟨free, rfl, k, x, rfl, name, ?_⟩
    rw [at?_put _ (snoc_ne_nil k x), if_neg (by simp)]
    exact there
  · exact .inl rfl

/-- No name of a list holds a stroke. -/
def Strokeless (names : List String) : Prop := ∀ n ∈ names, '/' ∉ n.toList

theorem splitAtEach_absent {sep : Char → Bool} {s part : List Char} (member : part ∈ Text.splitAtEach sep s) :
    ∀ c ∈ part, sep c = false := by
  induction s generalizing part with
  | nil =>
    rw [Text.splitAtEach, List.mem_singleton] at member
    subst member
    simp
  | cons a rest ih =>
    rw [Text.splitAtEach] at member
    split at member
    · rw [List.mem_singleton] at member
      subst member
      simp
    next first more parts =>
      have front := ih (parts ▸ List.mem_cons_self : first ∈ Text.splitAtEach sep rest)
      have others : ∀ q ∈ more, ∀ c ∈ q, sep c = false := fun q later =>
        ih (parts ▸ List.mem_cons_of_mem _ later)
      split at member
      · rcases List.mem_cons.1 member with rfl | later
        · simp
        · rcases List.mem_cons.1 later with rfl | later
          · exact front
          · exact others part later
      next plain =>
        rcases List.mem_cons.1 member with rfl | later
        · intro c inside
          rcases List.mem_cons.1 inside with rfl | inside
          · simpa using plain
          · exact front c inside
        · exact others part later

theorem strokeless_split (s : String) : Strokeless (Text.split '/' s) := by
  intro n member stroke
  obtain ⟨part, listed, rfl⟩ := List.mem_map.1 member
  have absent := splitAtEach_absent listed '/' (by simpa using stroke)
  simp at absent

theorem strokeless_names {fromRoot : Bool} {before : List String} (parts : List String)
    (clean : Strokeless before) : Strokeless (Path.names fromRoot before parts).2 := by
  induction parts generalizing fromRoot before with
  | nil => exact clean
  | cons part rest ih =>
    rw [Path.names]
    split
    · exact ih (strokeless_split part)
    · refine ih fun n member => ?_
      rcases List.mem_append.1 member with old | new
      · exact clean n old
      · exact strokeless_split part n new

theorem enter_ok {start : Location} {names : List String} (entered : d.enter start names = .ok l) :
    d.walk start names = .ok l ∧ d.at? l = some .directory := by
  unfold enter at entered
  split at entered
  · cases entered
  next m walked =>
    split at entered
    next there => cases entered; exact ⟨walked, there⟩
    · cases entered
    · cases entered

theorem cutLast_some {names front : List String} {last : String} (cut : Path.cutLast names = some (front, last)) :
    last ≠ "" ∧ last ∈ names := by
  unfold Path.cutLast at cut
  split at cut
  · cases cut
  next name above dropped =>
    cases cut
    constructor
    · have first := List.head?_dropWhile_not (· == "") names.reverse
      rw [dropped] at first
      simpa using first
    · have member : last ∈ names.reverse.dropWhile (· == "") := dropped ▸ List.mem_cons_self
      exact List.mem_reverse.1 ((List.dropWhile_sublist _).subset member)

theorem makeDirectory_extends {start : Location} {names : List String} (clean : Strokeless names)
    (made : d.makeDirectory start names = .ok e) : Extends d e := by
  unfold makeDirectory enterAbove at made
  cases cut : Path.cutLast names with
  | none => rw [cut] at made; cases made
  | some parts =>
    obtain ⟨front, last⟩ := parts
    rw [cut] at made
    cases entered : d.enter start front with
    | error f => simp [entered, Except.map] at made
    | ok l =>
      obtain ⟨-, there⟩ := enter_ok entered
      obtain ⟨filled, member⟩ := cutLast_some cut
      by_cases dots : last = "." ∨ last = ".."
      · simp [entered, Except.map, dots] at made
      · simp only [entered, Except.map, dots, if_false] at made
        split at made
        · cases made
        · split at made
          · cases made
          next free =>
            cases made
            have name : IsName last := ⟨filled, fun h => dots (.inl h), fun h => dots (.inr h), clean last member⟩
            exact extends_put there name (by simpa using free)

theorem ensureDirectory_extends {start : Location} {names : List String} (clean : Strokeless names) :
    Extends d (d.ensureDirectory start names).2 := by
  unfold ensureDirectory
  split
  next made => exact makeDirectory_extends clean made
  · exact .refl d

theorem makeStages_extends {start : Location} {stages : List (List String)}
    (clean : ∀ names ∈ stages, Strokeless names) : Extends d (d.makeStages start stages).2 := by
  induction stages generalizing d with
  | nil => exact .refl d
  | cons names above ih =>
    have own : Strokeless names := clean names List.mem_cons_self
    have first := ih (d := d) fun ns later => clean ns (List.mem_cons_of_mem _ later)
    rw [makeStages]
    split
    · split
      next c made =>
        rw [made] at first
        exact first.trans (ensureDirectory_extends own)
      next c failed =>
        rw [failed] at first
        exact first
    · exact ensureDirectory_extends own

/-- Making directories adds directories and does nothing else. -/
theorem makeDirectories_extends (d : Disk) (p : Path) : Extends d (d.makeDirectories p).2 := by
  unfold makeDirectories
  split
  · exact .refl d
  · exact .refl d
  · refine makeStages_extends fun names listed => ?_
    have clean : Strokeless (Path.names false [] p.parts).2 :=
      strokeless_names p.parts fun n member => absurd member List.not_mem_nil
    rcases List.mem_cons.1 listed with rfl | above
    · exact clean
    · obtain ⟨n, -, rfl⟩ := List.mem_map.1 above
      exact fun x member => clean x (List.mem_of_mem_take member)

/-! ## Making the directory of a path -/

theorem enterAbove_snoc (name : IsName x) (d : Disk) (start : Location) (names : List String) :
    d.enterAbove start (names ++ [x]) = (d.enter start names).map fun l => (l, some x) := by
  have cut : Path.cutLast (names ++ [x]) = some (names, x) := by
    simp [Path.cutLast, name.1]
  simp only [enterAbove, cut, name.2.1, name.2.2.1, or_self, if_false]

theorem LeadsTo.enter (leads : d.LeadsTo p l) : d.enter (d.start p).1 (d.start p).2 = .ok l := by
  rw [Disk.enter, leads.walked]
  simp only [leads.directory]

/-- A directory that is there is not made again. -/
theorem makeDirectories_of_leadsTo (leads : d.LeadsTo p l) (name : IsName x) (fine : joinFault? p x = none)
    (there : d.at? (l ++ [x]) = some .directory) : d.makeDirectories (p.join x) = (.ok (), d) := by
  have text := (Option.or_eq_none_iff.1 fine).1
  have short : ¬ Path.longestName < x.utf8ByteSize := by
    have size := (Option.or_eq_none_iff.1 fine).2
    simpa using size
  have inside : d.LeadsTo (p.join x) (l ++ [x]) := leads.join name (by omega) there
  have entered : d.enter (d.start p).1 ((d.start p).2 ++ [x]) = .ok (l ++ [x]) := by
    have whole := inside.enter
    rwa [start_join name] at whole
  have made : d.makeDirectory (d.start p).1 ((d.start p).2 ++ [x]) = .error .present := by
    rw [makeDirectory, enterAbove_snoc name, leads.enter]
    simp [Except.map, short, there]
  have ensured : d.ensureDirectory (d.start p).1 ((d.start p).2 ++ [x]) = (.ok (), d) := by
    rw [ensureDirectory, made]
    simp [entered, Except.isOk, Except.toBool]
  have stages : d.makeDirectories (p.join x) = d.makeStages (d.start (p.join x)).1
      (Path.stages (Path.names false [] (p.join x).parts).1 (d.start (p.join x)).2) := by
    rw [makeDirectories, text]
    rfl
  rw [stages, start_join name, Path.stages, makeStages, made]
  exact ensured

/-- Of the stages of a path that ends in two names, the second leaves out the last. -/
theorem stages_names (fromRoot : Bool) (names : List String) (name : IsName x) (name' : IsName y) :
    ∃ rest, Path.stages fromRoot (names ++ [x, y]) = (names ++ [x, y]) :: (names ++ [x]) :: rest := by
  have step : ∀ {z : String} (n : Nat), IsName z → Path.isStep fromRoot n z = true := by
    intro z n is
    simp [Path.isStep, is.1, is.2.1]
  have steps : (List.range (names ++ [x, y]).length).filter
      (fun n => ((names ++ [x, y])[n]?).any (Path.isStep fromRoot n)) =
      (List.range names.length).filter (fun n => ((names ++ [x, y])[n]?).any (Path.isStep fromRoot n)) ++
        [names.length] ++ [names.length + 1] := by
    have length : (names ++ [x, y]).length = names.length + 1 + 1 := by simp
    rw [length, List.range_succ, List.range_succ, List.filter_append, List.filter_append]
    simp [step _ name, step _ name']
  rw [Path.stages, steps, List.dropLast_concat, List.reverse_append, List.reverse_singleton, List.singleton_append,
    List.map_cons]
  have front : (names ++ [x, y]).take (names.length + 1) = names ++ [x] := by
    rw [List.append_cons, List.take_left' (by simp)]
  exact ⟨_, by rw [front]⟩

theorem ensureDirectory_snoc (name : IsName x) (d : Disk) (start : Location) (names : List String) :
    (d.ensureDirectory start (names ++ [x])).2 = d ∨ ∃ k, d.enter start names = .ok k ∧
      (d.ensureDirectory start (names ++ [x])).2 = d.put (k ++ [x]) .directory := by
  unfold ensureDirectory makeDirectory
  rw [enterAbove_snoc name]
  cases d.enter start names with
  | error f => exact .inl rfl
  | ok k =>
    simp only [Except.map]
    split
    next made =>
      refine .inr ⟨k, rfl, ?_⟩
      split at made
      · cases made
      · split at made <;> cases made
        rfl
    · exact .inl rfl

/-- Where the directory above is there, no other stage is needed. -/
theorem makeStages_snoc {start : Location} {names : List String} (name : IsName x) (entered : d.enter start names = .ok k)
    (above : List (List String)) :
    d.makeStages start ((names ++ [x]) :: above) = d.ensureDirectory start (names ++ [x]) := by
  have made : d.makeDirectory start (names ++ [x]) ≠ .error .missing := by
    rw [makeDirectory, enterAbove_snoc name, entered]
    simp only [Except.map]
    split
    · simp
    · split <;> simp
  rw [makeStages]
  split
  next missing => exact absurd missing made
  · rfl

/-- Making the directory of a path that ends in two names makes no other than those of the two names. -/
theorem at?_makeDirectories (leads : d.LeadsTo p l) (name : IsName x) (name' : IsName y) (other : m ≠ l ++ [x])
    (other' : m ≠ l ++ [x, y]) : (d.makeDirectories ((p.join x).join y)).2.at? m = d.at? m := by
  -- One directory at a time: that of the first name, and that of the second wherever the path still leads.
  have first : KeepsDirectories d (d.ensureDirectory (d.start p).1 ((d.start p).2 ++ [x])).2 ∧
      (d.ensureDirectory (d.start p).1 ((d.start p).2 ++ [x])).2.at? m = d.at? m := by
    rcases ensureDirectory_snoc name d (d.start p).1 (d.start p).2 with same | ⟨k, entered, made⟩
    · rw [same]
      exact ⟨.refl d, rfl⟩
    · rw [leads.enter] at entered
      cases entered
      rw [made]
      refine ⟨⟨rfl, fun n there => ?_⟩, by rw [at?_put _ (snoc_ne_nil l x), if_neg other]⟩
      rw [at?_put _ (snoc_ne_nil l x), there, ite_self]
  have second : ∀ {c : Disk}, c.LeadsTo p l →
      (c.ensureDirectory (c.start p).1 ((c.start p).2 ++ [x, y])).2.at? m = c.at? m := by
    intro c leads
    rw [List.append_cons]
    rcases ensureDirectory_snoc name' c (c.start p).1 ((c.start p).2 ++ [x]) with same | ⟨k, entered, made⟩
    · rw [same]
    · obtain ⟨walked, there⟩ := enter_ok entered
      have longer : c.LeadsTo (p.join x) k := ⟨by rw [start_join name]; exact walked, there⟩
      obtain ⟨rfl, -⟩ := longer.of_join leads name
      rw [made, at?_put _ (snoc_ne_nil _ y), if_neg (by simpa using other')]
  unfold makeDirectories
  split
  · rfl
  · rfl
  · have start : (d.start ((p.join x).join y)) = ((d.start p).1, (d.start p).2 ++ [x, y]) := by
      rw [start_join name', start_join name]
      simp
    have names : (Path.names false [] ((p.join x).join y).parts).2 = (d.start p).2 ++ [x, y] := congrArg Prod.snd start
    obtain ⟨rest, stages⟩ := stages_names (Path.names false [] ((p.join x).join y).parts).1 (d.start p).2 name name'
    dsimp only
    rw [names, stages, start, makeStages]
    -- The directory of the first name is made only where it is missing.
    rw [makeStages_snoc name leads.enter]
    split
    · split
      next c made =>
        rw [made] at first
        have start : c.start p = d.start p := start_congr first.1.home p
        rw [← start, second (leads.mono first.1), first.2]
      next c f failed =>
        rw [failed] at first
        exact first.2
    · exact second leads

/-! ## Taking away -/

/-- What one disk holds, the other holds too, and both start at the same place. -/
structure Within (e d : Disk) : Prop where
  home : e.home = d.home
  held : ∀ m x, e.at? m = some x → d.at? m = some x

theorem Within.refl (d : Disk) : Within d d := ⟨rfl, fun _ _ => id⟩

theorem Within.trans (first : Within e d) (second : Within d c) : Within e c :=
  ⟨first.home.trans second.home, fun m x there => second.held m x (first.held m x there)⟩

theorem Within.keepsDirectories (within : Within e d) : KeepsDirectories e d :=
  ⟨within.home.symm, fun m => within.held m _⟩

theorem within_emptied (d : Disk) (l : Location) : Within (d.emptied l) d := by
  refine ⟨rfl, fun m x there => ?_⟩
  rw [at?_emptied] at there
  split at there
  · cases there
  · exact there

theorem within_without (d : Disk) (inside : l ≠ []) : Within (d.without l) d := by
  refine ⟨rfl, fun m x there => ?_⟩
  rw [at?_without d inside] at there
  split at there
  · cases there
  · exact there

theorem removeDirectory_within (d : Disk) (start : Location) (names : List String) :
    Within (d.removeDirectory start names).2 d := by
  unfold removeDirectory
  split
  · exact .refl d
  · exact .refl d
  · exact .refl d
  · exact within_without d (snoc_ne_nil _ _)

theorem removeTree_within (d : Disk) (p : Path) : Within (d.removeTree p).2 d := by
  unfold removeTree
  split
  · exact .refl d
  · exact .refl d
  · exact .refl d
  · exact (removeDirectory_within _ _ _).trans (within_emptied d _)

/-- A disk lost what is at some locations, and nothing else. -/
structure Loses (d e : Disk) (gone : Location → Prop) : Prop where
  home : e.home = d.home
  away : ∀ m, gone m → e.at? m = none
  rest : ∀ m, ¬ gone m → e.at? m = d.at? m

theorem Loses.within {gone : Location → Prop} (loses : Loses d e gone) : Within e d := by
  refine ⟨loses.home, fun m x there => ?_⟩
  by_cases lost : gone m
  · rw [loses.away m lost] at there
    cases there
  · rw [← loses.rest m lost]
    exact there

theorem Loses.refl (d : Disk) : Loses d d fun _ => False := ⟨rfl, fun _ => False.elim, fun _ _ => rfl⟩

theorem Loses.trans {gone gone' : Location → Prop} (first : Loses c d gone) (second : Loses d e gone') :
    Loses c e fun m => gone m ∨ gone' m := by
  refine ⟨second.home.trans first.home, fun m lost => ?_, fun m kept => ?_⟩
  · by_cases late : gone' m
    · exact second.away m late
    · rw [second.rest m late]
      exact first.away m (lost.resolve_right late)
  · rw [second.rest m fun late => kept (.inr late), first.rest m fun early => kept (.inl early)]

theorem Loses.congr {gone gone' : Location → Prop} (loses : Loses d e gone)
    (same : ∀ m, d.at? m ≠ none → (gone m ↔ gone' m)) : Loses d e gone' := by
  refine ⟨loses.home, fun m lost => ?_, fun m kept => ?_⟩
  · by_cases early : gone m
    · exact loses.away m early
    · rw [loses.rest m early]
      by_contra present
      exact early ((same m present).2 lost)
  · by_cases early : gone m
    · by_cases present : d.at? m = none
      · rw [loses.away m early, present]
      · exact absurd ((same m present).1 early) kept
    · exact loses.rest m early

/-- A tree from which whole directories are lost remains one. -/
theorem IsTree.loses {gone : Location → Prop} (tree : d.IsTree l) (loses : Loses d e gone)
    (below : ∀ m x, gone m → d.at? (m ++ [x]) ≠ none → gone (m ++ [x])) : e.IsTree l := by
  intro m x present
  have kept : ¬ gone (l ++ m ++ [x]) := fun lost => present (loses.away _ lost)
  rw [loses.rest _ kept] at present
  obtain ⟨name, parent⟩ := tree m x present
  refine ⟨name, ?_⟩
  rw [loses.rest _ fun lost => kept (below _ x lost present)]
  exact parent

/-- The directory that was emptied goes, if the path to its parent can still be walked. -/
theorem removeDirectory_join (leads : d.LeadsTo p l) (name : IsName x)
    (removed : (d.emptied (l ++ [x])).removeDirectory (d.start (p.join x)).1 (d.start (p.join x)).2 = (.ok (), e))
    (after : e.walk (e.start p).1 (e.start p).2 = .ok m) : e = (d.emptied (l ++ [x])).without (l ++ [x]) := by
  have fewer : Within (d.emptied (l ++ [x])) d := within_emptied d _
  rw [removeDirectory, start_join name, enterAbove_snoc name, enter] at removed
  cases walked : (d.emptied (l ++ [x])).walk (d.start p).1 (d.start p).2 with
  | error f =>
    -- Names that lead nowhere count as removed, but then the path would lead nowhere afterwards.
    have same : e = d.emptied (l ++ [x]) := by
      rw [walked] at removed
      cases f <;> cases removed
      rfl
    rw [same, start_congr fewer.home, walked] at after
    cases after
  | ok k =>
    obtain rfl : l = k := by
      have led := walk_mono fewer.keepsDirectories walked
      rw [leads.walked] at led
      cases led
      rfl
    have still : (d.emptied (l ++ [x])).at? l = some .directory := by
      rw [at?_emptied, if_neg]
      · exact leads.directory
      · rintro ⟨below, -⟩
        have longer := below.length_le
        rw [List.length_append, List.length_singleton] at longer
        omega
    simp only [walked, still] at removed
    cases removed
    rfl

/-- Removing an entry of a directory does nothing, or takes away what is there and below, if the path to the directory
does not lead through it. -/
theorem removeTree_apart {outcome : Except Fault Unit} (leads : d.LeadsTo p l) (name : IsName x)
    (apart : (d.emptied (l ++ [x])).LeadsTo p l) (removed : d.removeTree (p.join x) = (outcome, e)) :
    (∃ f, outcome = .error f) ∧ e = d ∨ outcome = .ok () ∧ Loses d e fun k => l ++ [x] <+: k := by
  unfold removeTree at removed
  rw [find_join leads name] at removed
  cases fine : joinFault? p x with
  | some f =>
    rw [fine] at removed
    cases removed
    exact .inl ⟨⟨f, rfl⟩, rfl⟩
  | none =>
    rw [fine] at removed
    cases there : d.at? (l ++ [x]) with
    | none =>
      rw [there] at removed
      cases removed
      exact .inl ⟨⟨_, rfl⟩, rfl⟩
    | some entry =>
      rw [there] at removed
      cases entry with
      | file s =>
        cases removed
        exact .inl ⟨⟨_, rfl⟩, rfl⟩
      | directory =>
        have entered := apart.enter
        rw [start_congr (within_emptied d (l ++ [x])).home] at entered
        simp only [removeDirectory, start_join name, enterAbove_snoc name, entered, Except.map] at removed
        cases removed
        refine .inr ⟨rfl, rfl, fun k lost => ?_, fun k kept => ?_⟩
        · rw [at?_without _ (snoc_ne_nil l x), if_pos lost]
        · rw [at?_without _ (snoc_ne_nil l x), if_neg kept, at?_emptied, if_neg fun below => kept below.1]

/-- Removing an entry of a directory takes away what is there and below, if the path to the directory can still
be walked. -/
theorem removeTree_join (leads : d.LeadsTo p l) (name : IsName x)
    (removed : d.removeTree (p.join x) = (.ok (), e)) (after : e.walk (e.start p).1 (e.start p).2 = .ok m) :
    joinFault? p x = none ∧ d.at? (l ++ [x]) = some .directory ∧ Loses d e fun k => l ++ [x] <+: k := by
  unfold removeTree at removed
  rw [find_join leads name] at removed
  cases fine : joinFault? p x with
  | some f => rw [fine] at removed; cases removed
  | none =>
    rw [fine] at removed
    cases there : d.at? (l ++ [x]) with
    | none => rw [there] at removed; cases removed
    | some entry =>
      rw [there] at removed
      cases entry with
      | file s => cases removed
      | directory =>
        obtain rfl := removeDirectory_join leads name removed after
        refine ⟨rfl, rfl, rfl, fun k lost => ?_, fun k kept => ?_⟩
        · rw [at?_without _ (snoc_ne_nil l x), if_pos lost]
        · rw [at?_without _ (snoc_ne_nil l x), if_neg kept, at?_emptied, if_neg fun below => kept below.1]

end FlowArchive.Disk

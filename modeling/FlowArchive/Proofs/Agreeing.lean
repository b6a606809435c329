import FlowArchive.Proofs.Progress

/-!
# Requests on disks that agree

Two disks may hold the same in some places and differ in others. A script that asks for nothing outside of those places
ends alike on both, and they go on to agree. To make the directory of a path that ends in two names is among such
requests: it asks for the two directories and for nothing above.
-/

namespace FlowArchive

open FlowArchive.Path (IsName)
open Disk (snoc_ne_nil Edits)

namespace Disk

variable {b c d e : Disk} {p : Path} {x y : String} {k l m : Location} {start : Location} {names : List String}
  {f : Fault}

/-! ## Making the directories of two names -/

/-- Makes a directory in another, unless it is there. -/
def makeChild (d : Disk) (k : Location) (x : String) : Except Fault Unit × Disk :=
  if Path.longestName < x.utf8ByteSize then (.error .nameTooLong, d)
  else match d.at? (k ++ [x]) with
    | none => (.ok (), d.put (k ++ [x]) .directory)
    | some .directory => (.ok (), d)
    | some (.file _) => (.error .present, d)

/-- Makes a directory in a directory that may have to be made, too. -/
def makeGrandchild (d : Disk) (l : Location) (x y : String) : Except Fault Unit × Disk :=
  if Path.longestName < x.utf8ByteSize then (.error .nameTooLong, d)
  else match d.at? (l ++ [x]) with
    | none => (d.put (l ++ [x]) .directory).makeChild (l ++ [x]) y
    | some .directory => d.makeChild (l ++ [x]) y
    | some (.file _) => (.error .notDirectory, d)

theorem walk_of_enter (entered : d.enter start names = .ok k) (more : List String) :
    d.walk start (names ++ more) = d.walk k more := by
  rw [walk_append, (enter_ok entered).1]
  rfl

theorem enter_snoc (name : IsName x) (entered : d.enter start names = .ok k) :
    d.enter start (names ++ [x]) = if Path.longestName < x.utf8ByteSize then .error .nameTooLong else
      match d.at? (k ++ [x]) with
      | some .directory => .ok (k ++ [x])
      | some (.file _) => .error .notDirectory
      | none => .error .missing := by
  rw [enter, walk_of_enter entered, walk_name name (enter_ok entered).2]
  by_cases long : Path.longestName < x.utf8ByteSize
  · rw [if_pos long, if_pos long]
  · cases there : d.at? (k ++ [x]) with
    | none => simp only [if_neg long, there]
    | some entry => cases entry <;> simp only [if_neg long, there]

/-- What cannot be entered cannot be entered further. -/
theorem enter_snoc_error (failed : d.enter start names = .error f) (x : String) :
    ∃ g, d.enter start (names ++ [x]) = .error g := by
  cases walked : d.walk start names with
  | error g => exact ⟨g, by rw [enter, walk_append, walked]; rfl⟩
  | ok l =>
    rw [enter, walked] at failed
    have blocked : ∃ g, d.walk l [x] = .error g := by
      rw [walk]
      cases there : d.at? l with
      | none => exact ⟨_, rfl⟩
      | some entry =>
        cases entry with
        | file s => exact ⟨_, rfl⟩
        | directory => simp [there] at failed
    obtain ⟨g, blocked⟩ := blocked
    have onward : d.walk start (names ++ [x]) = .error g := by
      rw [walk_append, walked]
      exact blocked
    exact ⟨g, by rw [enter, onward]⟩

theorem ensureDirectory_of_enter (name : IsName x) (entered : d.enter start names = .ok k) :
    d.ensureDirectory start (names ++ [x]) = d.makeChild k x := by
  rw [ensureDirectory, makeDirectory, enterAbove_snoc name, entered, makeChild, enter_snoc name entered]
  simp only [Except.map]
  by_cases long : Path.longestName < x.utf8ByteSize
  · simp [long, Except.isOk, Except.toBool]
  · cases there : d.at? (k ++ [x]) with
    | none => simp [long]
    | some entry => cases entry <;> simp [long, Except.isOk, Except.toBool]

theorem ensureDirectory_of_error (name : IsName x) (failed : d.enter start names = .error f) :
    d.ensureDirectory start (names ++ [x]) = (.error f, d) := by
  obtain ⟨g, blocked⟩ := enter_snoc_error failed x
  rw [ensureDirectory, makeDirectory, enterAbove_snoc name, failed, blocked]
  rfl

theorem textFault?_join_ne_missing (p : Path) (name : IsName x) : textFault? (p.join x) ≠ some .missing := by
  unfold textFault?
  split
  · simp
  · split
    next empty => exact absurd (String.isEmpty_iff.1 empty) (text_join_ne_empty p name)
    next => split <;> simp

theorem joinFault?_ne_missing (p : Path) (name : IsName x) : joinFault? p x ≠ some .missing := by
  rw [joinFault?]
  have known := textFault?_join_ne_missing p name
  cases text : textFault? (p.join x) with
  | some f => rwa [Option.some_or, ← text]
  | none => split <;> simp

theorem makeDirectory_of_error (name : IsName x) (failed : d.enter start names = .error f) :
    d.makeDirectory start (names ++ [x]) = .error f := by
  rw [makeDirectory, enterAbove_snoc name, failed]
  rfl

theorem makeStages_snoc_snoc (name : IsName x) (name' : IsName y) (entered : d.enter start names = .ok l)
    (above : List (List String)) :
    d.makeStages start ((names ++ [x] ++ [y]) :: (names ++ [x]) :: above) = d.makeGrandchild l x y := by
  have inner := enter_snoc name entered
  rw [makeGrandchild]
  by_cases long : Path.longestName < x.utf8ByteSize
  · rw [if_pos long] at inner ⊢
    rw [makeStages, makeDirectory_of_error name' inner]
    exact ensureDirectory_of_error name' inner
  · rw [if_neg long] at inner ⊢
    cases there : d.at? (l ++ [x]) with
    | none =>
      -- The inner directory cannot be made before the outer one.
      rw [there] at inner
      have made : d.makeChild l x = (.ok (), d.put (l ++ [x]) .directory) := by rw [makeChild, if_neg long, there]
      have entered' : (d.put (l ++ [x]) .directory).enter start names = .ok l := by
        obtain ⟨walked, here⟩ := enter_ok entered
        have keeps := keepsDirectories_put (d := d) (k := l) (x := x) (by simp [there]) .directory
        rw [enter, walk_mono keeps walked]
        simp only [keeps.kept l here]
      have inner' := enter_snoc name entered'
      rw [if_neg long, at?_put _ (snoc_ne_nil l x), if_pos rfl] at inner'
      rw [makeStages, makeDirectory_of_error name' inner]
      dsimp only
      rw [makeStages_snoc name entered, ensureDirectory_of_enter name entered, made]
      exact ensureDirectory_of_enter name' inner'
    | some entry =>
      rw [there] at inner
      cases entry with
      | directory =>
        rw [makeStages_snoc name' inner]
        exact ensureDirectory_of_enter name' inner
      | file s =>
        rw [makeStages, makeDirectory_of_error name' inner]
        exact ensureDirectory_of_error name' inner

/-- Of the directories on the way, only those of the last two names are looked at. -/
theorem makeDirectories_join_join (leads : d.LeadsTo p l) (name : IsName x) (name' : IsName y) :
    d.makeDirectories ((p.join x).join y) = match textFault? ((p.join x).join y) with
      | some f => (.error f, d)
      | none => d.makeGrandchild l x y := by
  have known := textFault?_join_ne_missing (p.join x) name'
  rw [makeDirectories]
  cases text : textFault? ((p.join x).join y) with
  | some f =>
    rw [text] at known
    cases f <;> first | rfl | exact absurd rfl known
  | none =>
    have begins : d.start ((p.join x).join y) = ((d.start p).1, (d.start p).2 ++ [x, y]) := by
      rw [start_join name', start_join name]
      simp
    have whole : (Path.names false [] ((p.join x).join y).parts).2 = (d.start p).2 ++ [x, y] := congrArg Prod.snd begins
    obtain ⟨rest, stages⟩ := stages_names (Path.names false [] ((p.join x).join y).parts).1 (d.start p).2 name name'
    have twice : (d.start p).2 ++ [x, y] = (d.start p).2 ++ [x] ++ [y] := by simp
    dsimp only
    rw [whole, stages, begins, twice]
    exact makeStages_snoc_snoc name name' leads.enter rest

theorem makeChild_ok (made : d.makeChild k x = (.ok (), c)) :
    x.utf8ByteSize ≤ Path.longestName ∧ c.at? (k ++ [x]) = some .directory ∧ KeepsDirectories d c := by
  unfold makeChild at made
  split at made
  · cases made
  next short =>
    refine ⟨Nat.le_of_not_lt short, ?_⟩
    split at made
    next absent =>
      cases made
      exact ⟨by rw [at?_put _ (snoc_ne_nil k x), if_pos rfl], keepsDirectories_put (by simp [absent]) .directory⟩
    next there =>
      cases made
      exact ⟨there, .refl _⟩
    · cases made

/-- Directories that have been made can be entered. -/
theorem makeGrandchild_ok (made : d.makeGrandchild l x y = (.ok (), c)) :
    x.utf8ByteSize ≤ Path.longestName ∧ y.utf8ByteSize ≤ Path.longestName ∧ c.at? (l ++ [x]) = some .directory ∧
      c.at? (l ++ [x] ++ [y]) = some .directory := by
  unfold makeGrandchild at made
  split at made
  · cases made
  next short =>
    split at made
    · obtain ⟨short', there, keeps⟩ := makeChild_ok made
      refine ⟨Nat.le_of_not_lt short, short', keeps.kept _ ?_, there⟩
      rw [at?_put _ (snoc_ne_nil l x), if_pos rfl]
    next outer =>
      obtain ⟨short', there, keeps⟩ := makeChild_ok made
      exact ⟨Nat.le_of_not_lt short, short', keeps.kept _ outer, there⟩
    · cases made

theorem directory_makeChild (there : (d.makeChild k x).2.at? m = some .directory) :
    d.at? m = some .directory ∨ m = k ++ [x] ∧ x.utf8ByteSize ≤ Path.longestName := by
  unfold makeChild at there
  split at there
  · exact .inl there
  next short =>
    split at there
    · rw [at?_put _ (snoc_ne_nil k x)] at there
      split at there
      next here => exact .inr ⟨here, Nat.le_of_not_lt short⟩
      next => exact .inl there
    · exact .inl there
    · exact .inl there

/-- A directory was there before, or it is one of the two. -/
theorem directory_makeGrandchild (there : (d.makeGrandchild l x y).2.at? m = some .directory) :
    d.at? m = some .directory ∨ m = l ++ [x] ∧ x.utf8ByteSize ≤ Path.longestName ∨
      m = l ++ [x] ++ [y] ∧ y.utf8ByteSize ≤ Path.longestName := by
  unfold makeGrandchild at there
  split at there
  · exact .inl there
  next short =>
    split at there
    · rcases directory_makeChild there with before | inner
      · rw [at?_put _ (snoc_ne_nil l x)] at before
        split at before
        next here => exact .inr (.inl ⟨here, Nat.le_of_not_lt short⟩)
        next => exact .inl before
      · exact .inr (.inr inner)
    · exact (directory_makeChild there).imp_right .inr
    · exact .inl there

/-- The path of directories that have been made leads to them. -/
theorem leadsTo_of_makeDirectories (leads : d.LeadsTo p l) (name : IsName x) (name' : IsName y)
    (made : d.makeDirectories ((p.join x).join y) = (.ok (), c)) :
    c.LeadsTo ((p.join x).join y) (l ++ [x] ++ [y]) := by
  have extended := makeDirectories_extends d ((p.join x).join y)
  rw [made] at extended
  rw [makeDirectories_join_join leads name name'] at made
  split at made
  · cases made
  · obtain ⟨short, short', outer, inner⟩ := makeGrandchild_ok made
    exact ((leads.mono extended.keepsDirectories).join name short outer).join name' short' inner

/-- A name in a path that is not refused is not refused. -/
theorem joinFault?_of_text (name : IsName x) (name' : IsName y) (short : x.utf8ByteSize ≤ Path.longestName)
    (fine : textFault? ((p.join x).join y) = none) : joinFault? p x = none := by
  obtain ⟨clean, -, inside⟩ := textFault?_eq_none_iff.1 fine
  have longer := (utf8ByteSize_le_joinText (p.join x).text name').1
  rw [← text_join] at longer
  rw [joinFault?, if_neg (by omega), Option.or_none, textFault?_eq_none_iff]
  exact ⟨fun part member => clean part (List.mem_append_left _ member), text_join_ne_empty p name, by omega⟩

/-! ## Places where disks agree -/

/-- Two disks hold the same in some places. -/
structure AgreesOn (M : Location → Prop) (d e : Disk) : Prop where
  home : e.home = d.home
  same : ∀ m, M m → e.at? m = d.at? m

namespace AgreesOn

variable {M : Location → Prop} {q : Path}

theorem mono {N : Location → Prop} (agrees : AgreesOn M d e) (fewer : ∀ m, N m → M m) : AgreesOn N d e :=
  ⟨agrees.home, fun m inside => agrees.same m (fewer m inside)⟩

/-- Changes elsewhere do not matter. -/
theorem after (agrees : AgreesOn M b c) (first : AgreesOn M b d) (second : AgreesOn M c e) : AgreesOn M d e := by
  refine ⟨second.home.trans (agrees.home.trans first.home.symm), fun m inside => ?_⟩
  rw [second.same m inside, agrees.same m inside, first.same m inside]

theorem put (agrees : AgreesOn M d e) (k : Location) (x : String) (entry : Entry) :
    AgreesOn M (d.put (k ++ [x]) entry) (e.put (k ++ [x]) entry) := by
  refine ⟨agrees.home, fun m inside => ?_⟩
  rw [at?_put _ (snoc_ne_nil k x), at?_put _ (snoc_ne_nil k x), agrees.same m inside]

theorem erase (agrees : AgreesOn M d e) (k : Location) (x : String) :
    AgreesOn M { d with entries := d.entries.erase (k ++ [x]) } { e with entries := e.entries.erase (k ++ [x]) } := by
  refine ⟨agrees.home, fun m inside => ?_⟩
  rw [at?_erase _ (snoc_ne_nil k x), at?_erase _ (snoc_ne_nil k x), agrees.same m inside]

theorem makeChild (agrees : AgreesOn M d e) (inside : M (k ++ [x])) :
    (e.makeChild k x).1 = (d.makeChild k x).1 ∧ AgreesOn M (d.makeChild k x).2 (e.makeChild k x).2 := by
  unfold Disk.makeChild
  rw [agrees.same _ inside]
  split
  · exact ⟨rfl, agrees⟩
  · split
    · exact ⟨rfl, agrees.put k x .directory⟩
    · exact ⟨rfl, agrees⟩
    · exact ⟨rfl, agrees⟩

theorem makeGrandchild (agrees : AgreesOn M d e) (outer : M (l ++ [x])) (inner : M (l ++ [x] ++ [y])) :
    (e.makeGrandchild l x y).1 = (d.makeGrandchild l x y).1 ∧
      AgreesOn M (d.makeGrandchild l x y).2 (e.makeGrandchild l x y).2 := by
  unfold Disk.makeGrandchild
  rw [agrees.same _ outer]
  split
  · exact ⟨rfl, agrees⟩
  · split
    · exact (agrees.put l x .directory).makeChild inner
    · exact agrees.makeChild inner
    · exact ⟨rfl, agrees⟩

theorem makeDirectories (agrees : AgreesOn M d e) (leads : d.LeadsTo p l) (leads' : e.LeadsTo p l) (name : IsName x)
    (name' : IsName y) (outer : M (l ++ [x])) (inner : M (l ++ [x] ++ [y])) :
    (e.makeDirectories ((p.join x).join y)).1 = (d.makeDirectories ((p.join x).join y)).1 ∧
      AgreesOn M (d.makeDirectories ((p.join x).join y)).2 (e.makeDirectories ((p.join x).join y)).2 := by
  rw [makeDirectories_join_join leads name name', makeDirectories_join_join leads' name name']
  split
  · exact ⟨rfl, agrees⟩
  · exact agrees.makeGrandchild outer inner

theorem find (agrees : AgreesOn M d e) (leads : d.LeadsTo q k) (leads' : e.LeadsTo q k) (name : IsName y)
    (inside : M (k ++ [y])) : e.find (q.join y) = d.find (q.join y) := by
  rw [find_join leads name, find_join leads' name, agrees.same _ inside]

theorem change (agrees : AgreesOn M d e) (leads : d.LeadsTo q k) (leads' : e.LeadsTo q k) (name : IsName y)
    (inside : M (k ++ [y])) (f : Bytes → Bytes) : (e.change (q.join y) f).1 = (d.change (q.join y) f).1 ∧
      AgreesOn M (d.change (q.join y) f).2 (e.change (q.join y) f).2 := by
  rw [Disk.change, Disk.change, agrees.find leads leads' name inside, find_join leads name]
  cases joinFault? q y with
  | some g => exact ⟨rfl, agrees⟩
  | none =>
    cases there : d.at? (k ++ [y]) with
    | none =>
      simp only [leads.parentFault?, leads'.parentFault?]
      exact ⟨trivial, agrees.put k y _⟩
    | some entry =>
      cases entry with
      | directory => exact ⟨rfl, agrees⟩
      | file s => exact ⟨rfl, agrees.put k y _⟩

theorem rename (agrees : AgreesOn M d e) (leads : d.LeadsTo q k) (leads' : e.LeadsTo q k) (name : IsName x)
    (name' : IsName y) (inside : M (k ++ [x])) (inside' : M (k ++ [y])) :
    (e.rename (q.join x) (q.join y)).1 = (d.rename (q.join x) (q.join y)).1 ∧
      AgreesOn M (d.rename (q.join x) (q.join y)).2 (e.rename (q.join x) (q.join y)).2 := by
  rw [Disk.rename, Disk.rename, agrees.find leads leads' name inside, agrees.find leads leads' name' inside',
    find_join leads name, find_join leads name']
  cases joinFault? q x with
  | some g => exact ⟨rfl, agrees⟩
  | none =>
    cases joinFault? q y with
    | some g => exact ⟨rfl, agrees⟩
    | none =>
      cases there : d.at? (k ++ [x]) with
      | none => exact ⟨rfl, agrees⟩
      | some entry =>
        cases entry with
        | directory => exact ⟨rfl, agrees⟩
        | file s =>
          have moved := (agrees.erase k x).put k y (.file s)
          cases there' : d.at? (k ++ [y]) with
          | none =>
            simp only [leads.parentFault?, leads'.parentFault?]
            exact ⟨trivial, moved⟩
          | some entry =>
            cases entry with
            | directory => exact ⟨rfl, agrees⟩
            | file s' =>
              simp only [leads.parentFault?, leads'.parentFault?]
              exact ⟨trivial, moved⟩

end AgreesOn

end Disk

/-! ## Scripts in one directory -/

/-- A request to files in the directory of a path. -/
def Request.IsIn (q : Path) : Request → Prop
  | .write p _ | .append p _ | .sync p | .kind p => ∃ y, IsName y ∧ p = q.join y
  | .rename p p' => (∃ y, IsName y ∧ p = q.join y) ∧ ∃ y, IsName y ∧ p' = q.join y
  | _ => False

section

variable {α : Type} {M : Location → Prop} {b c d e : Disk} {k : Location} {q : Path} {r : Request}

/-- Such a request changes nothing but files in the directory. -/
theorem Request.IsIn.within (isIn : r.IsIn q) (leads : d.LeadsTo q k) : r.Within d fun m => ∃ y, m = k ++ [y] := by
  have into : ∀ y, IsName y → d.LeadsInto (fun m => ∃ y, m = k ++ [y]) (q.join y) := fun y name =>
    ⟨q, y, rfl, name, fun k' also => ⟨y, by rw [also.unique leads]⟩⟩
  cases r with
  | write p s =>
    obtain ⟨y, name, rfl⟩ := isIn
    exact into y name
  | append p s =>
    obtain ⟨y, name, rfl⟩ := isIn
    exact into y name
  | rename p p' =>
    obtain ⟨⟨y, name, rfl⟩, z, name', rfl⟩ := isIn
    exact ⟨into y name, into z name'⟩
  | sync p => trivial
  | kind p => trivial
  | _ => exact isIn.elim

theorem Disk.AgreesOn.perform (agrees : Disk.AgreesOn M d e) (leads : d.LeadsTo q k) (leads' : e.LeadsTo q k)
    (inside : ∀ y, M (k ++ [y])) (isIn : r.IsIn q) :
    (e.perform r).1 = (d.perform r).1 ∧ Disk.AgreesOn M (d.perform r).2 (e.perform r).2 := by
  cases r with
  | write p s =>
    obtain ⟨y, name, rfl⟩ := isIn
    exact agrees.change leads leads' name (inside y) _
  | append p s =>
    obtain ⟨y, name, rfl⟩ := isIn
    exact agrees.change leads leads' name (inside y) _
  | rename p p' =>
    obtain ⟨⟨y, name, rfl⟩, z, name', rfl⟩ := isIn
    exact agrees.rename leads leads' name name' (inside y) (inside z)
  | sync p =>
    obtain ⟨y, name, rfl⟩ := isIn
    exact ⟨by rw [Disk.perform, Disk.perform, Disk.sync, Disk.sync, agrees.find leads leads' name (inside y)], agrees⟩
  | kind p =>
    obtain ⟨y, name, rfl⟩ := isIn
    exact ⟨by rw [Disk.perform, Disk.perform, Disk.kind, Disk.kind, agrees.find leads leads' name (inside y)], agrees⟩
  | _ => exact isIn.elim

/-- A script that stays in one directory changes nothing else. -/
theorem Script.Asks.edits {s : Script α} (asks : s.Asks (·.IsIn q)) (leads : d.LeadsTo q k) :
    Disk.Edits (fun m => ∃ y, m = k ++ [y]) d (s.run d).2 := by
  induction s generalizing d with
  | done a => exact .refl d
  | ask r next ih =>
    have first := Disk.edits_perform (asks.1.within leads)
    exact first.trans (ih _ (asks.2 _) (leads.mono first.keepsDirectories))

/-- It ends alike on disks that agree on the directory. -/
theorem Script.Asks.agrees {s : Script α} (asks : s.Asks (·.IsIn q)) (agrees : Disk.AgreesOn M d e)
    (leads : d.LeadsTo q k) (leads' : e.LeadsTo q k) (inside : ∀ y, M (k ++ [y])) :
    (s.run e).1 = (s.run d).1 ∧ Disk.AgreesOn M (s.run d).2 (s.run e).2 := by
  induction s generalizing d e with
  | done a => exact ⟨rfl, agrees⟩
  | ask r next ih =>
    have first := agrees.perform leads leads' inside asks.1
    have on := leads.mono (Disk.edits_perform (asks.1.within leads)).keepsDirectories
    have on' := leads'.mono (Disk.edits_perform (asks.1.within leads')).keepsDirectories
    rw [Script.run, Script.run, first.1]
    exact ih _ (asks.2 _) first.2 on on'

end

end FlowArchive

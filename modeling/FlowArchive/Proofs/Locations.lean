import FlowArchive.Disk.Basic
import FlowArchive.Proofs.Table

/-!
# Where paths lead

Paths are followed through directories only, so a path leads to the same place on every disk that keeps the
directories. A path that goes on by one name leads to the entry of that name in the directory that the path
before leads to. With this, what a request does to a disk can be told by locations alone.
-/

namespace FlowArchive

namespace Path

theorem splitAtEach_of_absent {sep : Char → Bool} {s : List Char} (absent : ∀ c ∈ s, sep c = false) :
    Text.splitAtEach sep s = [s] := by
  induction s with
  | nil => rfl
  | cons c rest ih =>
    rw [Text.splitAtEach, ih fun b later => absent b (List.mem_cons_of_mem _ later)]
    simp [absent c List.mem_cons_self]

/-- A name is one part. -/
theorem IsName.split {x : String} (name : IsName x) : Text.split '/' x = [x] := by
  have absent : ∀ c ∈ x.toList, (c == '/') = false := by
    intro c member
    refine beq_eq_false_iff_ne.2 fun same => name.2.2.2 ?_
    rwa [← same]
  rw [Text.split, splitAtEach_of_absent absent]
  simp

theorem IsName.relative {x : String} (name : IsName x) : isAbsolute x = false := by
  unfold isAbsolute
  refine beq_eq_false_iff_ne.2 fun first => name.2.2.2 ?_
  exact List.mem_of_head? first

theorem names_join {x : String} (name : IsName x) (fromRoot : Bool) (before parts : List String) :
    names fromRoot before (parts ++ [x]) =
      ((names fromRoot before parts).1, (names fromRoot before parts).2 ++ [x]) := by
  induction parts generalizing fromRoot before with
  | nil => simp [names, name.relative, name.split]
  | cons part rest ih =>
    rw [List.cons_append, names, names]
    split
    · exact ih _ _
    · exact ih _ _

end Path

namespace Disk

open FlowArchive.Path (IsName)

variable {d e : Disk} {p : Path} {x : String} {l m : Location}

/-! ## Looking up after a change -/

@[simp] theorem at?_nil (d : Disk) : d.at? [] = some .directory := rfl

theorem at?_of_ne_nil (d : Disk) (inside : l ≠ []) : d.at? l = d.entries.get? l := if_neg inside

theorem at?_put (d : Disk) (inside : l ≠ []) (x : Entry) (m : Location) :
    (d.put l x).at? m = if m = l then some x else d.at? m := by
  by_cases top : m = []
  · subst top
    rw [if_neg (Ne.symm inside)]
    rfl
  · rw [at?_of_ne_nil _ top, at?_of_ne_nil _ top, put, Table.get?_insert]

theorem at?_erase (d : Disk) (inside : l ≠ []) (m : Location) :
    ({ d with entries := d.entries.erase l } : Disk).at? m = if m = l then none else d.at? m := by
  by_cases top : m = []
  · subst top
    rw [if_neg (Ne.symm inside)]
    rfl
  · rw [at?_of_ne_nil _ top, at?_of_ne_nil _ top, Table.get?_erase]

theorem at?_without (d : Disk) (inside : l ≠ []) (m : Location) :
    (d.without l).at? m = if l <+: m then none else d.at? m := by
  by_cases top : m = []
  · subst top
    rw [if_neg fun below => inside (List.prefix_nil.1 below)]
    rfl
  · rw [at?_of_ne_nil _ top, at?_of_ne_nil _ top, without, Table.get?_filter]
    by_cases below : l <+: m
    · simp [below]
    · have outside : l.isPrefixOf m = false :=
        Bool.eq_false_iff.2 fun front => below (List.isPrefixOf_iff_prefix.1 front)
      rw [if_neg below]
      cases d.entries.get? m <;> simp [outside]

theorem at?_emptied (d : Disk) (l m : Location) :
    (d.emptied l).at? m = if l <+: m ∧ m ≠ l then none else d.at? m := by
  by_cases top : m = []
  · subst top
    rw [if_neg fun below => below.2 (List.prefix_nil.1 below.1).symm]
    rfl
  · rw [at?_of_ne_nil _ top, at?_of_ne_nil _ top, emptied, Table.get?_filter]
    by_cases below : l <+: m ∧ m ≠ l
    · simp [below.1, below.2]
    · rw [if_neg below]
      cases d.entries.get? m with
      | none => rfl
      | some x =>
        by_cases here : m = l
        · simp [here]
        · have outside : l.isPrefixOf m = false :=
            Bool.eq_false_iff.2 fun front => below ⟨List.isPrefixOf_iff_prefix.1 front, here⟩
          simp [outside]

/-! ## Walking -/

/-- Every directory of one disk is one of the other, and both start at the same place. -/
structure KeepsDirectories (d e : Disk) : Prop where
  home : e.home = d.home
  kept : ∀ m, d.at? m = some .directory → e.at? m = some .directory

theorem KeepsDirectories.refl (d : Disk) : KeepsDirectories d d := ⟨rfl, fun _ => id⟩

theorem KeepsDirectories.trans {c : Disk} (first : KeepsDirectories c d) (second : KeepsDirectories d e) :
    KeepsDirectories c e :=
  ⟨second.home.trans first.home, fun m there => second.kept m (first.kept m there)⟩

theorem walk_mono (keeps : KeepsDirectories d e) {here : Location} {ns : List String}
    (led : d.walk here ns = .ok l) : e.walk here ns = .ok l := by
  induction ns generalizing here with
  | nil => exact led
  | cons name rest ih =>
    rw [walk] at led ⊢
    split at led
    · cases led
    · cases led
    next there =>
      rw [keeps.kept here there]
      dsimp only
      split at led
      next stays => rw [if_pos stays]; exact ih led
      next moves =>
        rw [if_neg moves]
        split at led
        next back => rw [if_pos back]; exact ih led
        next on =>
          rw [if_neg on]
          split at led
          · cases led
          next short => rw [if_neg short]; exact ih led

theorem walk_append (d : Disk) (here : Location) (ns ms : List String) :
    d.walk here (ns ++ ms) = (d.walk here ns).bind fun l => d.walk l ms := by
  induction ns generalizing here with
  | nil => rfl
  | cons name rest ih =>
    rw [List.cons_append, walk, walk]
    cases d.at? here with
    | none => rfl
    | some x =>
      cases x with
      | file s => rfl
      | directory =>
        dsimp only
        split
        · exact ih _
        · split
          · exact ih _
          · split
            · rfl
            · exact ih _

/-- A path leads to a directory. -/
structure LeadsTo (d : Disk) (p : Path) (l : Location) : Prop where
  walked : d.walk (d.start p).1 (d.start p).2 = .ok l
  directory : d.at? l = some .directory

/-- What a path is found to lead to is at the end of its walk. -/
theorem find_eq_ok {found : Option Entry} : d.find p = .ok (l, found) ↔
    textFault? p = none ∧ d.walk (d.start p).1 (d.start p).2 = .ok l ∧ found = d.at? l := by
  rw [find, locate]
  cases textFault? p with
  | some f => simp [Except.map]
  | none =>
    cases d.walk (d.start p).1 (d.start p).2 with
    | error f => simp [Except.map]
    | ok m =>
      simp only [Except.map, Except.ok.injEq, Prod.mk.injEq, true_and]
      constructor
      · rintro ⟨rfl, rfl⟩
        exact ⟨rfl, rfl⟩
      · rintro ⟨rfl, rfl⟩
        exact ⟨rfl, rfl⟩

theorem start_congr (home : e.home = d.home) (p : Path) : e.start p = d.start p := by
  simp only [start, home]

theorem LeadsTo.mono (leads : d.LeadsTo p l) (keeps : KeepsDirectories d e) : e.LeadsTo p l := by
  refine ⟨?_, keeps.kept l leads.directory⟩
  rw [start_congr keeps.home]
  exact walk_mono keeps leads.walked

/-- On disks where a path leads to the same directory, it is found alike. -/
theorem LeadsTo.find_congr (leads : d.LeadsTo p l) (also : e.LeadsTo p l) : e.find p = d.find p := by
  rw [find, find, locate, locate]
  cases textFault? p with
  | some f => rfl
  | none =>
    dsimp only
    rw [leads.walked, also.walked]
    simp only [Except.map, leads.directory, also.directory]

theorem LeadsTo.unique (first : d.LeadsTo p l) (second : d.LeadsTo p m) : l = m := by
  have same := first.walked.symm.trans second.walked
  cases same
  rfl

theorem start_join (name : IsName x) (d : Disk) (p : Path) :
    d.start (p.join x) = ((d.start p).1, (d.start p).2 ++ [x]) := by
  simp only [start, Path.join, Path.names_join name]

theorem walk_name (name : IsName x) (there : d.at? l = some .directory) :
    d.walk l [x] = if Path.longestName < x.utf8ByteSize then .error .nameTooLong else .ok (l ++ [x]) := by
  obtain ⟨filled, notDot, notDots, -⟩ := name
  rw [walk, there]
  simp only [filled, notDot, notDots, or_self, if_false]
  rfl

/-- Why a path that goes on by a name is refused whatever the tree. -/
def joinFault? (p : Path) (x : String) : Option Fault :=
  (textFault? (p.join x)).or (if Path.longestName < x.utf8ByteSize then some .nameTooLong else none)

/-- Where a path leads that goes on by a name, and what is there. -/
theorem find_join (leads : d.LeadsTo p l) (name : IsName x) : d.find (p.join x) =
    match joinFault? p x with
    | some f => .error f
    | none => .ok (l ++ [x], d.at? (l ++ [x])) := by
  have walked : d.walk (d.start (p.join x)).1 (d.start (p.join x)).2 = d.walk l [x] := by
    rw [start_join name, walk_append, leads.walked]
    rfl
  rw [find, locate, walked, walk_name name leads.directory, joinFault?]
  cases textFault? (p.join x) with
  | some f => rfl
  | none =>
    by_cases long : Path.longestName < x.utf8ByteSize
    · simp only [if_pos long]
      rfl
    · simp only [if_neg long]
      rfl

theorem find_join_ok (leads : d.LeadsTo p l) (name : IsName x) (fine : joinFault? p x = none) :
    d.find (p.join x) = .ok (l ++ [x], d.at? (l ++ [x])) := by
  rw [find_join leads name, fine]

/-- A path that goes on by a name and can be walked comes through a directory. -/
theorem leadsTo_of_walk (name : IsName x)
    (walked : d.walk (d.start (p.join x)).1 (d.start (p.join x)).2 = .ok m) : ∃ l, d.LeadsTo p l := by
  rw [start_join name, walk_append] at walked
  cases front : d.walk (d.start p).1 (d.start p).2 with
  | error f => rw [front] at walked; cases walked
  | ok l =>
    refine ⟨l, front, ?_⟩
    rw [front] at walked
    change d.walk l [x] = _ at walked
    rw [walk] at walked
    split at walked
    · cases walked
    · cases walked
    next there => exact there

/-- A path that can be followed comes through a directory. -/
theorem find_join_inv (name : IsName x) {r : Location × Option Entry} (found : d.find (p.join x) = .ok r) :
    ∃ l, d.LeadsTo p l ∧ joinFault? p x = none ∧ r = (l ++ [x], d.at? (l ++ [x])) := by
  obtain ⟨m, there⟩ := r
  obtain ⟨l, leads⟩ := leadsTo_of_walk name (find_eq_ok.1 found).2.1
  rw [find_join leads name] at found
  split at found
  · cases found
  next fine =>
    cases found
    exact ⟨l, leads, fine, rfl⟩

theorem LeadsTo.walk_join (leads : d.LeadsTo p l) (name : IsName x) (short : x.utf8ByteSize ≤ Path.longestName) :
    d.walk (d.start (p.join x)).1 (d.start (p.join x)).2 = .ok (l ++ [x]) := by
  rw [start_join name, walk_append, leads.walked]
  show d.walk l [x] = _
  rw [walk_name name leads.directory, if_neg (by omega)]

theorem LeadsTo.join (leads : d.LeadsTo p l) (name : IsName x) (short : x.utf8ByteSize ≤ Path.longestName)
    (there : d.at? (l ++ [x]) = some .directory) : d.LeadsTo (p.join x) (l ++ [x]) :=
  ⟨leads.walk_join name short, there⟩

theorem text_join (p : Path) (x : String) : (p.join x).text = Path.joinText p.text x := by
  rw [Path.join, Path.text, Path.text, List.foldl_append]
  rfl

theorem utf8ByteSize_le_joinText (front : String) (name : IsName x) :
    front.utf8ByteSize ≤ (Path.joinText front x).utf8ByteSize ∧ x.utf8ByteSize ≤ (Path.joinText front x).utf8ByteSize := by
  unfold Path.joinText
  rw [name.relative]
  split
  · contradiction
  · split <;> simp only [String.utf8ByteSize_append] <;> omega

theorem textFault?_eq_none_iff : textFault? p = none ↔
    (∀ part ∈ p.parts, '\x00' ∉ part.toList) ∧ p.text ≠ "" ∧ p.text.utf8ByteSize ≤ Path.longestText := by
  have clean : (p.parts.any fun part => part.toList.contains '\x00') = true ↔
      ¬ ∀ part ∈ p.parts, '\x00' ∉ part.toList := by simp
  unfold textFault?
  split
  next unclean => simp [clean.1 unclean]
  next free =>
    have all := not_not.1 fun unclean => free (clean.2 unclean)
    split
    next empty => simp [String.isEmpty_iff.1 empty]
    next filled =>
      have named : p.text ≠ "" := fun empty => filled (String.isEmpty_iff.2 empty)
      split
      next long => simp only [reduceCtorEq, false_iff, not_and, Nat.not_le]; exact fun _ _ => long
      next short => exact iff_of_true rfl ⟨all, named, Nat.le_of_not_lt short⟩

theorem text_join_ne_empty (p : Path) (name : IsName x) : (p.join x).text ≠ "" := by
  intro empty
  have size := (utf8ByteSize_le_joinText p.text name).2
  rw [← text_join, empty, String.utf8ByteSize_empty] at size
  exact name.1 (String.utf8ByteSize_eq_zero_iff.1 (Nat.le_zero.1 size))

theorem joinFault?_eq_none_iff (name : IsName x) : joinFault? p x = none ↔
    (∀ part ∈ p.parts, '\x00' ∉ part.toList) ∧ '\x00' ∉ x.toList ∧
      (Path.joinText p.text x).utf8ByteSize ≤ Path.longestText ∧ x.utf8ByteSize ≤ Path.longestName := by
  have short : (if Path.longestName < x.utf8ByteSize then some Fault.nameTooLong else none) = none ↔
      x.utf8ByteSize ≤ Path.longestName := by simp
  rw [joinFault?, Option.or_eq_none_iff, textFault?_eq_none_iff, short, text_join, ← text_join, Path.join]
  have named : (⟨p.parts ++ [x]⟩ : Path).text ≠ "" := text_join_ne_empty p name
  simp only [List.forall_mem_append, List.forall_mem_singleton, ne_eq, named, not_false_eq_true, true_and, and_assoc]

/-- A path that goes on by a name is not refused if it is not refused when it goes on further. -/
theorem joinFault?_of_join {y : String} (name : IsName x) (name' : IsName y)
    (short : x.utf8ByteSize ≤ Path.longestName) (fine : joinFault? (p.join x) y = none) : joinFault? p x = none := by
  obtain ⟨clean, -, inside, -⟩ := (joinFault?_eq_none_iff name').1 fine
  have longer := (utf8ByteSize_le_joinText (p.join x).text name').1
  rw [text_join] at longer inside
  refine (joinFault?_eq_none_iff name).2 ⟨fun part member => ?_, ?_, by omega, short⟩
  · exact clean part (List.mem_append_left _ member)
  · exact clean x (List.mem_append_right _ (List.mem_singleton_self x))

/-- A name that is no longer than another is not refused where the other is not. -/
theorem joinFault?_of_le {y : String} (name : IsName x) (name' : IsName y) (clean : '\x00' ∉ y.toList)
    (shorter : y.utf8ByteSize ≤ x.utf8ByteSize) (fine : joinFault? p x = none) : joinFault? p y = none := by
  obtain ⟨front, -, inside, short⟩ := (joinFault?_eq_none_iff name).1 fine
  have size : (Path.joinText p.text y).utf8ByteSize ≤ (Path.joinText p.text x).utf8ByteSize := by
    rw [Path.joinText, Path.joinText, name.relative, name'.relative]
    rw [if_neg Bool.false_ne_true, if_neg Bool.false_ne_true]
    split <;> simp only [String.utf8ByteSize_append] <;> omega
  exact (joinFault?_eq_none_iff name').2 ⟨front, clean, by omega, by omega⟩

/-- A longer path leads on from where the shorter one does. -/
theorem LeadsTo.of_join (longer : d.LeadsTo (p.join x) m) (leads : d.LeadsTo p l) (name : IsName x) :
    m = l ++ [x] ∧ x.utf8ByteSize ≤ Path.longestName := by
  have walked := longer.walked
  rw [start_join name, walk_append, leads.walked] at walked
  change d.walk l [x] = _ at walked
  rw [walk_name name leads.directory] at walked
  split at walked
  · cases walked
  next short =>
    cases walked
    exact ⟨rfl, by omega⟩

/-! ## Several names -/

/-- Disks that agree on the way lead to the same place. -/
theorem walk_congr {names : List String} (are : ∀ n ∈ names, IsName n)
    (same : ∀ k, k <+: names → e.at? (l ++ k) = d.at? (l ++ k)) : e.walk l names = d.walk l names := by
  induction names generalizing l with
  | nil => rfl
  | cons name rest ih =>
    have here : e.at? l = d.at? l := by simpa using same [] List.nil_prefix
    have on : e.walk (l ++ [name]) rest = d.walk (l ++ [name]) rest := by
      refine ih (fun n later => are n (List.mem_cons_of_mem _ later)) fun k front => ?_
      simpa using same (name :: k) (List.cons_prefix_cons.2 ⟨rfl, front⟩)
    obtain ⟨filled, notDot, notDots, -⟩ := are name List.mem_cons_self
    rw [walk, walk, here]
    cases d.at? l with
    | none => rfl
    | some entry =>
      cases entry with
      | file s => rfl
      | directory => simp only [filled, notDot, notDots, or_self, if_false, on]

/-- A path that goes on by some names. -/
def joins (p : Path) (names : List String) : Path := names.foldl Path.join p

theorem start_joins {names : List String} (are : ∀ n ∈ names, IsName n) (d : Disk) (p : Path) :
    d.start (joins p names) = ((d.start p).1, (d.start p).2 ++ names) := by
  induction names generalizing p with
  | nil => simp [joins]
  | cons name rest ih =>
    have on := ih (fun n later => are n (List.mem_cons_of_mem _ later)) (p.join name)
    rw [start_join (are name List.mem_cons_self)] at on
    rw [joins, List.foldl_cons, ← joins, on, List.append_assoc]
    rfl

theorem walk_joins (leads : d.LeadsTo p l) {names : List String} (are : ∀ n ∈ names, IsName n) :
    d.walk (d.start (joins p names)).1 (d.start (joins p names)).2 = d.walk l names := by
  rw [start_joins are, walk_append, leads.walked]
  rfl

/-- A path that can be walked to its end leads to the names one after the other. -/
theorem walk_names {names : List String} (are : ∀ n ∈ names, IsName n) (walked : d.walk l names = .ok m) :
    m = l ++ names := by
  induction names generalizing l with
  | nil => cases walked; simp
  | cons name rest ih =>
    obtain ⟨filled, notDot, notDots, -⟩ := are name List.mem_cons_self
    rw [walk] at walked
    split at walked
    · cases walked
    · cases walked
    · simp only [filled, notDot, notDots, or_self, if_false] at walked
      split at walked
      · cases walked
      · rw [ih (fun n later => are n (List.mem_cons_of_mem _ later)) walked]
        simp

/-- What is found behind some names depends on what is on the way. -/
theorem find_joins_congr (leads : d.LeadsTo p l) (also : e.LeadsTo p l) {names : List String}
    (are : ∀ n ∈ names, IsName n) (same : ∀ k, k <+: names → e.at? (l ++ k) = d.at? (l ++ k)) :
    e.find (joins p names) = d.find (joins p names) := by
  rw [find, find, locate, locate, walk_joins leads are, walk_joins also are, walk_congr are same]
  cases textFault? (joins p names) with
  | some f => rfl
  | none =>
    cases walked : d.walk l names with
    | error f => rfl
    | ok m =>
      obtain rfl := walk_names are walked
      simp only [Except.map, same names List.prefix_rfl]

end Disk

end FlowArchive

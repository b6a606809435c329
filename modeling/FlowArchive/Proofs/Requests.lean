import FlowArchive.Proofs.Locations

/-!
# What requests do

Each request to an entry of a directory, told by locations: what has to be there for it to be answered, and what
is there afterwards. Making directories only adds directories, and removing a tree only takes away.
-/

namespace FlowArchive.Disk

open FlowArchive.Path (IsName)

variable {d e : Disk} {p : Path} {x y : String} {l m : Location} {s : Bytes}

theorem snoc_ne_nil (l : Location) (x : String) : l ++ [x] ≠ [] := List.append_ne_nil_of_right_ne_nil _ (by simp)

/-! ## Directories -/

theorem mem_children {k : EntryKind} :
    (x, k) ∈ d.children l ↔ ∃ entry, d.at? (l ++ [x]) = some entry ∧ entry.kind = k := by
  rw [at?_of_ne_nil d (snoc_ne_nil l x)]
  simp only [children, List.mem_filterMap]
  constructor
  · rintro ⟨⟨at_, entry⟩, member, shown⟩
    split at shown
    next here =>
      obtain ⟨name, last, same⟩ := Option.map_eq_some_iff.1 shown
      cases same
      have whole : l ++ [x] = at_ := here ▸ List.dropLast_append_getLast? x last
      exact ⟨entry, whole ▸ Table.mem_entries_iff.1 member, rfl⟩
    · cases shown
  · rintro ⟨entry, found, rfl⟩
    exact ⟨(l ++ [x], entry), Table.mem_entries_iff.2 found, by simp⟩

theorem mem_children_directory : (x, .directory) ∈ d.children l ↔ d.at? (l ++ [x]) = some .directory := by
  rw [mem_children]
  constructor
  · rintro ⟨entry, there, directory⟩
    cases entry with
    | file s => cases directory
    | directory => exact there
  · exact fun there => ⟨.directory, there, rfl⟩

theorem nodup_children (d : Disk) (l : Location) : ((d.children l).map (·.1)).Nodup := by
  refine List.pairwise_map.2 (List.pairwise_filterMap.2 (d.entries.ascending.imp ?_))
  rintro ⟨at_, entry⟩ ⟨at', entry'⟩ below ⟨name, k⟩ shown ⟨name', k'⟩ shown' same
  obtain rfl : name = name' := same
  split at shown
  next here =>
    split at shown'
    next here' =>
      obtain ⟨last, found, equal⟩ := Option.map_eq_some_iff.1 shown
      obtain ⟨last', found', equal'⟩ := Option.map_eq_some_iff.1 shown'
      cases equal
      cases equal'
      have first : l ++ [name] = at_ := here ▸ List.dropLast_append_getLast? name found
      have second : l ++ [name] = at' := here' ▸ List.dropLast_append_getLast? name found'
      have equal : compare at_ at' = .eq := by rw [← first, ← second]; exact Std.ReflCmp.compare_self
      rw [equal] at below
      cases below
    · cases shown'
  · cases shown

/-- A path whose entries can be listed leads to a directory. -/
theorem leadsTo_of_list {entries : List (String × EntryKind)} (listed : d.list p = .ok entries) :
    ∃ l, d.LeadsTo p l ∧ entries = d.children l := by
  unfold list at listed
  split at listed
  · cases listed
  next l found =>
    obtain ⟨-, walked, there⟩ := find_eq_ok.1 found
    cases listed
    exact ⟨l, ⟨walked, there.symm⟩, rfl⟩
  · cases listed
  · cases listed

theorem list_of_leadsTo (leads : d.LeadsTo p l) {entries : List (String × EntryKind)}
    (listed : d.list p = .ok entries) : entries = d.children l := by
  obtain ⟨m, also, same⟩ := leadsTo_of_list listed
  rwa [leads.unique also]

/-- The entries of a directory are listed where its path is not refused. -/
theorem list_join_ok (leads : d.LeadsTo p l) (name : IsName x) (fine : joinFault? p x = none)
    (there : d.at? (l ++ [x]) = some .directory) : d.list (p.join x) = .ok (d.children (l ++ [x])) := by
  rw [list, find_join_ok leads name fine, there]

theorem LeadsTo.list_congr (leads : d.LeadsTo p l) (also : e.LeadsTo p l) (listed : d.list p = .ok (d.children l)) :
    e.list p = .ok (e.children l) := by
  unfold list at listed ⊢
  rw [leads.find_congr also]
  split at listed
  · cases listed
  next m found =>
    obtain ⟨-, walked, -⟩ := find_eq_ok.1 found
    rw [leads.walked] at walked
    cases walked
    rfl
  · cases listed
  · cases listed

theorem list_join (leads : d.LeadsTo p l) (name : IsName x) {entries : List (String × EntryKind)}
    (listed : d.list (p.join x) = .ok entries) :
    joinFault? p x = none ∧ d.LeadsTo (p.join x) (l ++ [x]) ∧ entries = d.children (l ++ [x]) := by
  obtain ⟨m, longer, -⟩ := leadsTo_of_list listed
  obtain ⟨rfl, -⟩ := longer.of_join leads name
  refine ⟨?_, longer, list_of_leadsTo longer listed⟩
  unfold list at listed
  rw [find_join leads name] at listed
  cases fine : joinFault? p x with
  | none => rfl
  | some f => rw [fine] at listed; cases listed

/-! ## Files -/

/-- The content of the file at a location. -/
def content? (d : Disk) (m : Location) : Option Bytes :=
  match d.at? m with
  | some (.file s) => some s
  | _ => none

theorem content?_eq_some : d.content? m = some s ↔ d.at? m = some (.file s) := by
  unfold content?
  split <;> simp_all

theorem content?_congr (same : e.at? m = d.at? m) : e.content? m = d.content? m := by
  rw [content?, content?, same]

theorem read_join (leads : d.LeadsTo p l) (name : IsName x) (fine : joinFault? p x = none)
    (there : d.at? (l ++ [x]) = some (.file s)) : d.read (p.join x) = .ok s := by
  rw [read, find_join_ok leads name fine, there]

/-- What reads the same where a path leads is read the same. -/
theorem read_congr {q : Path} (same : e.find q = d.find q) : e.read q = d.read q := by
  rw [read, read, same]

theorem kind_congr {q : Path} (same : e.find q = d.find q) : e.kind q = d.kind q := by
  rw [kind, kind, same]

/-- A file whose content is changed stands in a directory. -/
theorem leadsTo_of_change (name : IsName x) {f : Bytes → Bytes} (changed : d.change (p.join x) f = (.ok (), e)) :
    ∃ l, d.LeadsTo p l := by
  cases found : d.find (p.join x) with
  | ok r =>
    obtain ⟨l, leads, -, -⟩ := find_join_inv name found
    exact ⟨l, leads⟩
  | error f => simp [change, found] at changed

theorem change_join (leads : d.LeadsTo p l) (name : IsName x) {f : Bytes → Bytes}
    (changed : d.change (p.join x) f = (.ok (), e)) :
    joinFault? p x = none ∧ d.at? (l ++ [x]) ≠ some .directory ∧
      e = d.put (l ++ [x]) (.file (f ((d.content? (l ++ [x])).getD []))) := by
  unfold change at changed
  rw [find_join leads name] at changed
  cases fine : joinFault? p x with
  | some f => rw [fine] at changed; cases changed
  | none =>
    rw [fine] at changed
    cases there : d.at? (l ++ [x]) with
    | none =>
      rw [there] at changed
      dsimp only at changed
      split at changed
      · cases changed
      · cases changed
        exact ⟨rfl, by simp, by simp [content?, there]⟩
    | some entry =>
      rw [there] at changed
      cases entry with
      | directory => cases changed
      | file s =>
        cases changed
        exact ⟨rfl, by simp, by simp [content?, there]⟩

theorem create_join (leads : d.LeadsTo p l) (name : IsName x) (created : d.create (p.join x) = (.ok (), e)) :
    joinFault? p x = none ∧ d.at? (l ++ [x]) = none ∧ e = d.put (l ++ [x]) (.file []) := by
  unfold create at created
  rw [find_join leads name] at created
  cases fine : joinFault? p x with
  | some f => rw [fine] at created; cases created
  | none =>
    rw [fine] at created
    cases there : d.at? (l ++ [x]) with
    | some entry => rw [there] at created; cases created
    | none =>
      rw [there] at created
      dsimp only at created
      split at created
      · cases created
      · cases created
        exact ⟨rfl, rfl, rfl⟩

theorem rename_join (leads : d.LeadsTo p l) (name : IsName x) (name' : IsName y)
    (renamed : d.rename (p.join x) (p.join y) = (.ok (), e)) :
    joinFault? p y = none ∧ d.at? (l ++ [y]) ≠ some .directory ∧
      ∃ s, d.at? (l ++ [x]) = some (.file s) ∧
        e = { d with entries := (d.entries.erase (l ++ [x])).insert (l ++ [y]) (.file s) } := by
  unfold rename at renamed
  rw [find_join leads name, find_join leads name'] at renamed
  cases fine : joinFault? p x with
  | some f => rw [fine] at renamed; cases renamed
  | none =>
    cases fine' : joinFault? p y with
    | some f => rw [fine, fine'] at renamed; cases renamed
    | none =>
      rw [fine, fine'] at renamed
      cases there : d.at? (l ++ [x]) with
      | none => rw [there] at renamed; cases renamed
      | some entry =>
        cases entry with
        | directory => rw [there] at renamed; cases renamed
        | file s =>
          rw [there] at renamed
          have free : d.at? (l ++ [y]) ≠ some .directory := by
            intro occupied
            rw [occupied] at renamed
            cases renamed
          refine ⟨rfl, free, s, rfl, ?_⟩
          cases target : d.at? (l ++ [y]) with
          | none =>
            rw [target] at renamed
            dsimp only at renamed
            split at renamed
            · cases renamed
            · cases renamed
              rfl
          | some entry =>
            cases entry with
            | directory => exact absurd target free
            | file s' =>
              rw [target] at renamed
              dsimp only at renamed
              split at renamed
              · cases renamed
              · cases renamed
                rfl

theorem at?_renamed (d : Disk) (l : Location) (s : Bytes) (m : Location) :
    ({ d with entries := (d.entries.erase (l ++ [x])).insert (l ++ [y]) (.file s) } : Disk).at? m =
      if m = l ++ [y] then some (.file s) else if m = l ++ [x] then none else d.at? m := by
  have two : ({ d with entries := (d.entries.erase (l ++ [x])).insert (l ++ [y]) (.file s) } : Disk) =
      ({ d with entries := d.entries.erase (l ++ [x]) } : Disk).put (l ++ [y]) (.file s) := rfl
  rw [two, at?_put _ (snoc_ne_nil l y), at?_erase d (snoc_ne_nil l x)]

theorem remove_join (leads : d.LeadsTo p l) (name : IsName x) (fine : joinFault? p x = none)
    (there : d.at? (l ++ [x]) = some (.file s)) :
    d.remove (p.join x) = (.ok (), { d with entries := d.entries.erase (l ++ [x]) }) := by
  rw [remove, find_join_ok leads name fine, there]

end FlowArchive.Disk

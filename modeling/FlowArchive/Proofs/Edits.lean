import FlowArchive.Disk.Refusal
import FlowArchive.Proofs.Action
import FlowArchive.Proofs.Trees

/-!
# Scripts that change only some files

What a script may do to a disk can be told from its requests, whatever they are answered. If all of them are to some
files, then nothing else changes and no directory, also if requests are refused. Since directories stay, the paths of
the requests lead to the same files all along.
-/

namespace FlowArchive

open FlowArchive.Path (IsName)

namespace Disk

variable {M N : Location → Prop} {c d e : Disk} {p : Path} {x : String} {k l m : Location} {f : Bytes → Bytes}

/-- Some files of a disk may have changed, may be new or gone. Nothing else has changed, and no directory; what has
changed has a name and stands in a directory. -/
structure Edits (M : Location → Prop) (d e : Disk) : Prop where
  home : e.home = d.home
  rest : ∀ m, ¬ M m → e.at? m = d.at? m
  files : ∀ m, e.at? m = d.at? m ∨ d.at? m ≠ some .directory ∧ e.at? m ≠ some .directory ∧
    ∃ k x, m = k ++ [x] ∧ IsName x ∧ d.at? k = some .directory

theorem Edits.refl (d : Disk) : Edits M d d := ⟨rfl, fun _ _ => rfl, fun _ => .inl rfl⟩

theorem Edits.directory_iff (edits : Edits M d e) : e.at? m = some .directory ↔ d.at? m = some .directory := by
  rcases edits.files m with same | ⟨before, after, -⟩
  · rw [same]
  · exact iff_of_false after before

theorem Edits.trans (first : Edits M c d) (second : Edits M d e) : Edits M c e := by
  refine ⟨second.home.trans first.home, fun m outside => ?_, fun m => ?_⟩
  · rw [second.rest m outside, first.rest m outside]
  · rcases second.files m with same | ⟨before, after, k, x, here, name, there⟩
    · rcases first.files m with same' | ⟨before, after, place⟩
      · exact .inl (same.trans same')
      · exact .inr ⟨before, by rwa [same], place⟩
    · refine .inr ⟨fun there => before (first.directory_iff.2 there), after, k, x, here, name, ?_⟩
      exact first.directory_iff.1 there

theorem Edits.mono (edits : Edits M d e) (more : ∀ m, M m → N m) : Edits N d e :=
  ⟨edits.home, fun m outside => edits.rest m fun inside => outside (more m inside), edits.files⟩

theorem Edits.keepsDirectories (edits : Edits M d e) : KeepsDirectories d e :=
  ⟨edits.home, fun _ there => edits.directory_iff.2 there⟩

theorem Edits.keepsDirectories' (edits : Edits M d e) : KeepsDirectories e d :=
  ⟨edits.home.symm, fun _ there => edits.directory_iff.1 there⟩

theorem Edits.leadsTo_iff (edits : Edits M d e) : e.LeadsTo p l ↔ d.LeadsTo p l :=
  ⟨fun leads => leads.mono edits.keepsDirectories', fun leads => leads.mono edits.keepsDirectories⟩

theorem Edits.isTree (edits : Edits M d e) (tree : d.IsTree l) : e.IsTree l := by
  intro m x present
  rcases edits.files (l ++ m ++ [x]) with same | ⟨-, -, k, y, here, name, there⟩
  · rw [same] at present
    obtain ⟨name, there⟩ := tree m x present
    exact ⟨name, edits.directory_iff.2 there⟩
  · obtain ⟨rfl, rfl⟩ := snoc_inj.1 here
    exact ⟨name, edits.directory_iff.2 there⟩

theorem Edits.content? (edits : Edits M d e) (outside : ¬ M m) : e.content? m = d.content? m :=
  content?_congr (edits.rest m outside)

/-! ## Requests to files -/

/-- Wherever the directory of a path is, the path leads to one of some files. -/
def LeadsInto (d : Disk) (M : Location → Prop) (p : Path) : Prop :=
  ∃ q x, p = q.join x ∧ IsName x ∧ ∀ k, d.LeadsTo q k → M (k ++ [x])

theorem LeadsInto.found {entry : Option Entry} (into : d.LeadsInto M p) (found : d.find p = .ok (l, entry)) :
    M l ∧ entry = d.at? l ∧ ∃ k x, l = k ++ [x] ∧ IsName x ∧ d.at? k = some .directory := by
  obtain ⟨q, x, rfl, name, within⟩ := into
  obtain ⟨k, leads, -, same⟩ := find_join_inv name found
  cases same
  exact ⟨within k leads, rfl, k, x, rfl, name, leads.directory⟩

theorem LeadsInto.congr (into : c.LeadsInto M p) (edits : Edits N c d) : d.LeadsInto M p := by
  obtain ⟨q, x, same, name, within⟩ := into
  exact ⟨q, x, same, name, fun k leads => within k (edits.leadsTo_iff.1 leads)⟩

theorem edits_put (inside : M (k ++ [x])) (name : IsName x) (there : d.at? k = some .directory)
    (free : d.at? (k ++ [x]) ≠ some .directory) (s : Bytes) : Edits M d (d.put (k ++ [x]) (.file s)) := by
  refine ⟨rfl, fun m outside => ?_, fun m => ?_⟩
  · rw [at?_put _ (snoc_ne_nil k x), if_neg]
    rintro rfl
    exact outside inside
  · rw [at?_put _ (snoc_ne_nil k x)]
    split
    next here =>
      subst here
      exact .inr ⟨free, by simp, k, x, rfl, name, there⟩
    · exact .inl rfl

theorem edits_erase (inside : M (k ++ [x])) (name : IsName x) (there : d.at? k = some .directory)
    (free : d.at? (k ++ [x]) ≠ some .directory) :
    Edits M d { d with entries := d.entries.erase (k ++ [x]) } := by
  refine ⟨rfl, fun m outside => ?_, fun m => ?_⟩
  · rw [at?_erase _ (snoc_ne_nil k x), if_neg]
    rintro rfl
    exact outside inside
  · rw [at?_erase _ (snoc_ne_nil k x)]
    split
    next here =>
      subst here
      exact .inr ⟨free, by simp, k, x, rfl, name, there⟩
    · exact .inl rfl

theorem edits_change (into : d.LeadsInto M p) (f : Bytes → Bytes) : Edits M d (d.change p f).2 := by
  unfold change
  split
  · exact .refl d
  · exact .refl d
  next found =>
    obtain ⟨inside, present, k, x, rfl, name, there⟩ := into.found found
    exact edits_put inside name there (by rw [← present]; simp) _
  next found =>
    obtain ⟨inside, absent, k, x, rfl, name, there⟩ := into.found found
    split
    · exact .refl d
    · exact edits_put inside name there (by rw [← absent]; simp) _

theorem edits_create (into : d.LeadsInto M p) : Edits M d (d.create p).2 := by
  unfold create
  split
  · exact .refl d
  · exact .refl d
  next found =>
    obtain ⟨inside, absent, k, x, rfl, name, there⟩ := into.found found
    split
    · exact .refl d
    · exact edits_put inside name there (by rw [← absent]; simp) _

theorem edits_remove (into : d.LeadsInto M p) : Edits M d (d.remove p).2 := by
  unfold remove
  split
  · exact .refl d
  · exact .refl d
  · exact .refl d
  next found =>
    obtain ⟨inside, present, k, x, rfl, name, there⟩ := into.found found
    exact edits_erase inside name there (by rw [← present]; simp)

theorem edits_rename {q : Path} (source : d.LeadsInto M p) (target : d.LeadsInto M q) :
    Edits M d (d.rename p q).2 := by
  unfold rename
  split
  · exact .refl d
  · exact .refl d
  · exact .refl d
  · exact .refl d
  · exact .refl d
  next l s m entry free found found' =>
    obtain ⟨inside, present, k, x, rfl, name, there⟩ := source.found found
    obtain ⟨inside', absent, k', y, rfl, name', there'⟩ := target.found found'
    split
    · exact .refl d
    · have erased := edits_erase (M := M) inside name there (by rw [← present]; simp)
      refine erased.trans ?_
      refine edits_put (d := { d with entries := d.entries.erase (k ++ [x]) }) inside' name'
        (erased.directory_iff.2 there') (fun directory => ?_) s
      rw [erased.directory_iff, ← absent] at directory
      exact free directory

end Disk

/-- A request that can change nothing but some files. -/
def Request.Within (d : Disk) (M : Location → Prop) : Request → Prop
  | .write p _ | .append p _ | .create p | .remove p => d.LeadsInto M p
  | .rename p q => d.LeadsInto M p ∧ d.LeadsInto M q
  | .makeDirectories _ | .removeTree _ => False
  | .kind _ | .list _ | .read _ | .sync _ | .pause | .clock => True

namespace Disk

variable {M N : Location → Prop} {c d e : Disk} {r : Request}

theorem within_congr (within : r.Within c M) (edits : Edits N c d) : r.Within d M := by
  cases r with
  | write p s => exact LeadsInto.congr within edits
  | append p s => exact LeadsInto.congr within edits
  | create p => exact LeadsInto.congr within edits
  | remove p => exact LeadsInto.congr within edits
  | rename p q => exact ⟨within.1.congr edits, within.2.congr edits⟩
  | makeDirectories p => exact within.elim
  | removeTree p => exact within.elim
  | _ => trivial

/-- What is answered to a request to some files changes no others. -/
theorem edits_perform (within : r.Within d M) : Edits M d (d.perform r).2 := by
  cases r with
  | write p s => exact edits_change within _
  | append p s => exact edits_change within _
  | create p => exact edits_create within
  | remove p => exact edits_remove within
  | rename p q => exact edits_rename within.1 within.2
  | makeDirectories p => exact within.elim
  | removeTree p => exact within.elim
  | _ => exact .refl d

/-- Nor does what a refusal of the request leaves behind. -/
theorem Remains.edits (remains : d.Remains r e) (within : r.Within d M) : Edits M d e := by
  cases remains with
  | untouched => exact .refl d
  | torn p s n => exact edits_change within _
  | tornEnd p s n => exact edits_change within _

end Disk

/-! ## What a script asks -/

namespace Script

variable {α β : Type} {P Q : Request → Prop} {mayRefuse : Request → Prop}

/-- All requests of a script have a property, whatever they are answered. -/
def Asks (P : Request → Prop) : Script α → Prop
  | .done _ => True
  | .ask r next => P r ∧ ∀ answer, (next answer).Asks P

theorem Asks.bind {s : Script α} {f : α → Script β} (first : s.Asks P) (rest : ∀ a, (f a).Asks P) :
    (s >>= f).Asks P := by
  show (Script.bind s f).Asks P
  induction s with
  | done a => exact rest a
  | ask r next ih => exact ⟨first.1, fun answer => ih answer (first.2 answer)⟩

/-- A script that asks for nothing but changes of some files changes no others, whatever is refused. -/
theorem Ends.edits {M : Location → Prop} {s : Script α} {c d e : Disk} {a : α} (ended : s.Ends mayRefuse d a e)
    (asks : s.Asks (·.Within c M)) (before : Disk.Edits M c d) : Disk.Edits M c e := by
  induction ended with
  | done a d => exact before
  | answered rest ih =>
    exact ih (asks.2 _) (before.trans (Disk.edits_perform (Disk.within_congr asks.1 before)))
  | refused f allowed remains rest ih =>
    exact ih (asks.2 _) (before.trans (remains.edits (Disk.within_congr asks.1 before)))

/-- What a chain of scripts ends with, its parts end with one after the other. -/
theorem Ends.of_bind {s : Script α} {f : α → Script β} {d e : Disk} {b : β} (ended : (s >>= f).Ends mayRefuse d b e) :
    ∃ a c, s.Ends mayRefuse d a c ∧ (f a).Ends mayRefuse c b e := by
  change (Script.bind s f).Ends mayRefuse d b e at ended
  induction s generalizing d with
  | done a => exact ⟨a, d, .done a d, ended⟩
  | ask r next ih =>
    cases ended with
    | answered rest =>
      obtain ⟨a, c, first, last⟩ := ih _ rest
      exact ⟨a, c, .answered first, last⟩
    | refused fault allowed remains rest =>
      obtain ⟨a, c, first, last⟩ := ih _ rest
      exact ⟨a, c, .refused fault allowed remains first, last⟩

end Script

namespace Action

variable {α β : Type} {P : Request → Prop} {mayRefuse : Request → Prop} {d e : Disk}

/-- What an action can end with on a disk that may refuse some requests. -/
def Ends (mayRefuse : Request → Prop) (t : Action α) (d : Disk) (outcome : Except Failure α) (e : Disk) : Prop :=
  t.script.Ends mayRefuse d outcome e

/-- All requests of an action have a property, whatever they are answered. -/
def Asks (P : Request → Prop) (t : Action α) : Prop := t.script.Asks P

theorem asks_ask {r : Request} (own : P r) : (ask r).Asks P := by
  refine ⟨own, fun answer => ?_⟩
  cases answer <;> trivial

theorem asks_bind {t : Action α} {f : α → Action β} (first : t.Asks P) (rest : ∀ a, (f a).Asks P) :
    (t >>= f).Asks P := by
  refine Script.Asks.bind (f := ExceptT.bindCont f) first fun outcome => ?_
  cases outcome with
  | error x => trivial
  | ok a => exact rest a

theorem asks_ofScript {s : Script α} (asks : s.Asks P) : (ofScript s).Asks P :=
  Script.Asks.bind asks fun _ => trivial

theorem Asks.attempt {t : Action α} (asks : t.Asks P) : t.attempt.Asks P := asks_ofScript asks

/-- An action that asks for nothing but changes of some files changes no others, whatever is refused. -/
theorem Ends.edits {M : Location → Prop} {t : Action α} {c : Disk} {o : Except Failure α}
    (ended : t.Ends mayRefuse d o e) (asks : t.Asks (·.Within c M)) (before : Disk.Edits M c d) : Disk.Edits M c e :=
  Script.Ends.edits ended asks before

/-- An action that fails does so in its first part or in what follows. -/
theorem ends_bind_error {t : Action α} {f : α → Action β} {x : Failure}
    (failed : (t >>= f).Ends mayRefuse d (.error x) e) :
    t.Ends mayRefuse d (.error x) e ∨ ∃ a c, t.Ends mayRefuse d (.ok a) c ∧ (f a).Ends mayRefuse c (.error x) e := by
  obtain ⟨outcome, c, first, rest⟩ := Script.Ends.of_bind (s := t.script) (f := ExceptT.bindCont f) failed
  cases outcome with
  | error y =>
    cases rest
    exact .inl first
  | ok a => exact .inr ⟨a, c, first, rest⟩

theorem ends_bind_ok {t : Action α} {f : α → Action β} {b : β} (succeeded : (t >>= f).Ends mayRefuse d (.ok b) e) :
    ∃ a c, t.Ends mayRefuse d (.ok a) c ∧ (f a).Ends mayRefuse c (.ok b) e := by
  obtain ⟨outcome, c, first, rest⟩ := Script.Ends.of_bind (s := t.script) (f := ExceptT.bindCont f) succeeded
  cases outcome with
  | error y => cases rest
  | ok a => exact ⟨a, c, first, rest⟩

/-- A request that succeeds was answered. -/
theorem ends_ask_ok {r : Request} {b : r.Answer} (succeeded : (ask r).Ends mayRefuse d (.ok b) e) :
    d.perform r = (.ok b, e) := by
  cases succeeded with
  | answered rest =>
    cases answered : d.perform r with
    | mk outcome c =>
      rw [answered] at rest
      cases outcome <;> cases rest
      rfl
  | refused f allowed remains rest => cases rest

/-- A request that fails was answered with a fault, or refused. -/
theorem ends_ask_error {r : Request} {x : Failure} (failed : (ask r).Ends mayRefuse d (.error x) e) :
    (∃ f, x = .fault f) ∧ ((∃ f, d.perform r = (.error f, e)) ∨ d.Remains r e) := by
  cases failed with
  | answered rest =>
    cases answered : d.perform r with
    | mk outcome c =>
      rw [answered] at rest
      cases outcome <;> cases rest
      exact ⟨⟨_, rfl⟩, .inl ⟨_, rfl⟩⟩
  | refused f allowed remains rest =>
    cases rest
    exact ⟨⟨f, rfl⟩, .inr remains⟩

theorem ends_ofExcept {o o' : Except Failure α} (ended : (ofExcept o).Ends mayRefuse d o' e) : o' = o ∧ e = d := by
  cases ended
  exact ⟨rfl, rfl⟩

/-- What follows a request goes on from an answer, if the request may not be refused from that of the disk. -/
theorem ends_asked {r : Request} {next : Except Fault r.Answer → Script (Except Failure α)} {o : Except Failure α}
    (ended : Ends mayRefuse (ExceptT.mk ((Script.request r).bind next)) d o e) :
    ∃ answer c, (next answer).Ends mayRefuse c o e ∧ (¬ mayRefuse r → (answer, c) = d.perform r) := by
  cases ended with
  | answered rest => exact ⟨_, _, rest, fun _ => rfl⟩
  | refused f allowed remains rest => exact ⟨_, _, rest, fun never => absurd allowed never⟩

theorem ends_ofScript {s : Script α} {o : Except Failure α} (ended : (ofScript s).Ends mayRefuse d o e) :
    ∃ a, o = .ok a ∧ s.Ends mayRefuse d a e := by
  obtain ⟨a, c, first, last⟩ :=
    Script.Ends.of_bind (s := s) (f := fun a => (pure (.ok a) : Script (Except Failure α))) ended
  cases last
  exact ⟨a, rfl, first⟩

end Action

end FlowArchive

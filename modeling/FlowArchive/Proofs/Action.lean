import FlowArchive.Disk.Script

/-!
# Running actions

What an action comes to follows from what its parts come to. A part that fails ends the action, so an action
that succeeds is a chain of parts that do.
-/

namespace FlowArchive.Action

variable {α β : Type}

@[simp] theorem runOn_pure (a : α) (d : Disk) : (pure a : Action α).runOn d = (.ok a, d) := rfl

@[simp] theorem runOn_fail (f : Failure) (d : Disk) : (fail f : Action α).runOn d = (.error f, d) := rfl

@[simp] theorem runOn_ofExcept (e : Except Failure α) (d : Disk) : (ofExcept e).runOn d = (e, d) := rfl

/-- A part that fails ends the action. -/
theorem runOn_bind (t : Action α) (f : α → Action β) (d : Disk) :
    (t >>= f).runOn d =
      match t.runOn d with
      | (.ok a, e) => (f a).runOn e
      | (.error x, e) => (.error x, e) := by
  have parts := Script.run_bind t.script (ExceptT.bindCont f) d
  show (t.script >>= ExceptT.bindCont f).run d = _
  rw [parts]
  unfold runOn
  cases t.script.run d with
  | mk outcome e => cases outcome <;> rfl

theorem runOn_bind_of_ok {t : Action α} {f : α → Action β} {d e : Disk} {a : α} (first : t.runOn d = (.ok a, e)) :
    (t >>= f).runOn d = (f a).runOn e := by
  rw [runOn_bind, first]

theorem runOn_bind_of_error {t : Action α} {f : α → Action β} {d e : Disk} {x : Failure}
    (first : t.runOn d = (.error x, e)) : (t >>= f).runOn d = (.error x, e) := by
  rw [runOn_bind, first]

/-- An action that succeeds is a chain of parts that succeed. -/
theorem runOn_bind_ok_iff {t : Action α} {f : α → Action β} {d e : Disk} {b : β} :
    (t >>= f).runOn d = (.ok b, e) ↔ ∃ a c, t.runOn d = (.ok a, c) ∧ (f a).runOn c = (.ok b, e) := by
  rw [runOn_bind]
  cases run : t.runOn d with
  | mk outcome c =>
    cases outcome with
    | error x => simp
    | ok a => simp [and_assoc]

/-- An action that fails does so in its first part or in what follows. -/
theorem runOn_bind_error_iff {t : Action α} {f : α → Action β} {d e : Disk} {x : Failure} :
    (t >>= f).runOn d = (.error x, e) ↔
      t.runOn d = (.error x, e) ∨ ∃ a c, t.runOn d = (.ok a, c) ∧ (f a).runOn c = (.error x, e) := by
  rw [runOn_bind]
  cases run : t.runOn d with
  | mk outcome c => cases outcome <;> simp [and_assoc]

/-- What follows a part matters only by how it runs. -/
theorem runOn_bind_congr {t : Action α} {f g : α → Action β} (d : Disk) (same : ∀ a e, (f a).runOn e = (g a).runOn e) :
    (t >>= f).runOn d = (t >>= g).runOn d := by
  rw [runOn_bind, runOn_bind]
  cases t.runOn d with
  | mk outcome e =>
    cases outcome with
    | error x => rfl
    | ok a => exact same a e

theorem runOn_bind_assoc {γ : Type} (t : Action α) (f : α → Action β) (g : β → Action γ) (d : Disk) :
    (t >>= f >>= g).runOn d = (t >>= fun a => f a >>= g).runOn d := by
  rw [runOn_bind, runOn_bind, runOn_bind]
  cases t.runOn d with
  | mk outcome e =>
    cases outcome with
    | error x => rfl
    | ok a => exact (runOn_bind (f a) g e).symm

theorem runOn_asked (r : Request) (next : Except Fault r.Answer → Script (Except Failure α)) (d : Disk) :
    runOn (ExceptT.mk ((Script.request r).bind next)) d = (next (d.perform r).1).run (d.perform r).2 := rfl

theorem runOn_ask (r : Request) (d : Disk) :
    (ask r).runOn d = ((d.perform r).1.mapError .fault, (d.perform r).2) := by
  rw [ask, runOn_asked]
  cases (d.perform r).1 <;> rfl

theorem runOn_ask_ok_iff {r : Request} {d e : Disk} {a : r.Answer} :
    (ask r).runOn d = (.ok a, e) ↔ d.perform r = (.ok a, e) := by
  rw [runOn_ask]
  cases run : d.perform r with
  | mk outcome c =>
    cases outcome with
    | ok b => constructor <;> intro same <;> cases same <;> rfl
    | error f => constructor <;> intro same <;> cases same

theorem runOn_ask_of_error {r : Request} {d e : Disk} {f : Fault} (failed : d.perform r = (.error f, e)) :
    (ask r).runOn d = (.error (.fault f), e) := by
  rw [runOn_ask, failed]
  rfl

@[simp] theorem runOn_kind (p : Path) (d : Disk) : (kind p).runOn d = (.ok (d.kind p), d) := rfl

theorem runOn_ofScript (s : Script α) (d : Disk) : (ofScript s).runOn d = (.ok (s.run d).1, (s.run d).2) :=
  Script.run_bind s (fun a => (pure (.ok a) : Script (Except Failure α))) d

theorem runOn_attempt (t : Action α) (d : Disk) : t.attempt.runOn d = (.ok (t.runOn d).1, (t.runOn d).2) :=
  runOn_ofScript t.script d

theorem runOn_attempt_ok_iff {t : Action α} {d e : Disk} {outcome : Except Failure α} :
    t.attempt.runOn d = (.ok outcome, e) ↔ t.runOn d = (outcome, e) := by
  rw [runOn_attempt]
  cases t.runOn d with
  | mk came c => simp

/-- An outcome is told by its value if it has one. -/
theorem toOption_eq_some {ε α : Type} {r : Except ε α} {v : α} : r.toOption = some v ↔ r = .ok v := by
  cases r <;> simp [Except.toOption]

/-! ## Loops -/

@[simp] theorem forEach_nil (f : α → Action β) : forEach f [] = pure [] := rfl

/-- A loop of actions that succeed and change nothing collects their values. -/
theorem runOn_forEach {f : α → Action β} {g : α → β} {d : Disk} {l : List α}
    (each : ∀ a ∈ l, (f a).runOn d = (.ok (g a), d)) : (forEach f l).runOn d = (.ok (l.map g), d) := by
  induction l with
  | nil => rfl
  | cons a rest ih =>
    rw [forEach, runOn_bind_of_ok (each a (by simp)), runOn_bind_of_ok (ih fun b hb => each b (by simp [hb]))]
    rfl

/-! ## Actions that only read -/

/-- An action leaves every disk as it is. -/
def Reads (t : Action α) : Prop := ∀ d, (t.runOn d).2 = d

theorem Reads.runOn_eq {t : Action α} (reads : t.Reads) (d : Disk) : t.runOn d = ((t.runOn d).1, d) :=
  Prod.ext rfl (reads d)

theorem Reads.unchanged {t : Action α} (reads : t.Reads) {outcome : Except Failure α} {d e : Disk}
    (ran : t.runOn d = (outcome, e)) : e = d := by
  have same := reads d
  rwa [ran] at same

theorem reads_pure (a : α) : (pure a : Action α).Reads := fun _ => rfl

theorem reads_fail (f : Failure) : (fail f : Action α).Reads := fun _ => rfl

theorem reads_bind {t : Action α} {f : α → Action β} (first : t.Reads) (rest : ∀ a, (f a).Reads) :
    (t >>= f).Reads := by
  intro d
  rw [runOn_bind, first.runOn_eq d]
  cases (t.runOn d).1 with
  | error x => rfl
  | ok a => exact rest a d

theorem reads_kind (p : Path) : (kind p).Reads := fun _ => rfl

theorem reads_ask_list (p : Path) : (ask (.list p)).Reads := fun d => by rw [runOn_ask]; rfl

theorem reads_forEach {f : α → Action β} (each : ∀ a, (f a).Reads) (l : List α) : (forEach f l).Reads := by
  induction l with
  | nil => exact reads_pure []
  | cons a rest ih => exact reads_bind (each a) fun b => reads_bind ih fun bs => reads_pure (b :: bs)

/-! ## Actions that do not fail in some way -/

/-- An action never fails in a certain way. -/
def Avoids (bad : Failure → Prop) (t : Action α) : Prop := ∀ d x e, t.runOn d = (.error x, e) → ¬ bad x

variable {bad : Failure → Prop}

theorem avoids_pure (a : α) : (pure a : Action α).Avoids bad := by
  rintro d x e ⟨⟩

theorem avoids_ofExcept {outcome : Except Failure α} (good : ∀ x, outcome = .error x → ¬ bad x) :
    (ofExcept outcome).Avoids bad :=
  fun _ x _ failed => good x (congrArg Prod.fst failed)

theorem avoids_fail {f : Failure} (good : ¬ bad f) : (fail f : Action α).Avoids bad :=
  avoids_ofExcept fun _ same => Except.error.inj same ▸ good

theorem avoids_bind {t : Action α} {f : α → Action β} (first : t.Avoids bad) (rest : ∀ a, (f a).Avoids bad) :
    (t >>= f).Avoids bad := by
  intro d x e failed
  rcases runOn_bind_error_iff.1 failed with early | ⟨a, c, -, later⟩
  · exact first d x e early
  · exact rest a c x e later

theorem avoids_ask (faults : ∀ g, ¬ bad (.fault g)) (r : Request) : (ask r).Avoids bad := by
  intro d x e failed
  rw [runOn_ask] at failed
  cases answer : (d.perform r).1 with
  | ok a =>
    rw [answer] at failed
    cases failed
  | error g =>
    rw [answer] at failed
    cases failed
    exact faults g

theorem avoids_kind (p : Path) : (kind p).Avoids bad := by
  rintro d x e ⟨⟩

theorem avoids_ofScript (s : Script α) : (ofScript s).Avoids bad := by
  intro d x e failed
  rw [runOn_ofScript] at failed
  cases failed

theorem avoids_forEach {f : α → Action β} (each : ∀ a, (f a).Avoids bad) (l : List α) : (forEach f l).Avoids bad := by
  induction l with
  | nil => exact avoids_pure []
  | cons a rest ih => exact avoids_bind (each a) fun b => avoids_bind ih fun bs => avoids_pure (b :: bs)

/-! ## Outcomes on two disks -/

/-- An action comes to the same on two disks if each of its parts does. -/
theorem outcome_bind {t : Action α} {f : α → Action β} {d e : Disk} (reads : t.Reads)
    (same : (t.runOn e).1 = (t.runOn d).1)
    (rest : ∀ a, (t.runOn d).1 = .ok a → ((f a).runOn e).1 = ((f a).runOn d).1) :
    ((t >>= f).runOn e).1 = ((t >>= f).runOn d).1 := by
  rw [runOn_bind, runOn_bind, reads.runOn_eq d, reads.runOn_eq e, same]
  cases outcome : (t.runOn d).1 with
  | error x => rfl
  | ok a => exact rest a outcome

end FlowArchive.Action

import FlowArchive.Disk.Sharing
import FlowArchive.Proofs.Action

/-!
# Scripts that take turns

What scripts that share a disk come to, in whatever order they have their turns, is told script by script. Each of them
keeps to terms: the others may do no more between two of its requests than the terms allow them, and its own requests do
no more than its terms allow it. Where what one is allowed is what the other puts up with, they do not get in each
other's way.
-/

namespace FlowArchive

/-- The terms on which a script shares a disk. A moment is a disk and what is known of the scripts that share it. -/
structure Terms (S : Type) where
  disk : S → Disk
  /-- What the others may do between two requests of the script. -/
  others : S → S → Prop
  /-- What a request of the script may do. -/
  own : S → S → Prop
  refl : ∀ s, others s s
  trans : ∀ s t u, others s t → others t u → others s u
  idle : ∀ s, own s s

namespace Terms

variable {S : Type} {T : Terms S} {P Q : S → Prop}

/-- The others do not make a property fail. -/
def Stable (T : Terms S) (P : S → Prop) : Prop := ∀ s t, T.others s t → P s → P t

theorem stable_and (first : T.Stable P) (second : T.Stable Q) : T.Stable fun s => P s ∧ Q s :=
  fun s t turn both => ⟨first s t turn both.1, second s t turn both.2⟩

theorem stable_forall {α : Type} {P : α → S → Prop} (each : ∀ a, T.Stable (P a)) : T.Stable fun s => ∀ a, P a s :=
  fun s t turn all a => each a s t turn (all a)

theorem stable_imp {p : Prop} (stable : p → T.Stable P) : T.Stable fun s => p → P s :=
  fun s t turn before holds => stable holds s t turn (before holds)

end Terms

/-! ## What a script keeps to -/

namespace Script

variable {α β S : Type} {T : Terms S} {P Q : α → S → Prop}

/-- From some moment on, a script does no more than its terms allow, and what it ends with has a property, as long as
the others do no more than the terms allow them. -/
def Keeps (T : Terms S) (P : α → S → Prop) : Script α → S → Prop
  | .done a, s => ∀ t, T.others s t → P a t
  | .ask r next, s => ∀ t, T.others s t → ∃ u, T.disk u = ((T.disk t).perform r).2 ∧ T.own t u ∧
      (next ((T.disk t).perform r).1).Keeps T P u

theorem keeps_done {a : α} {s : S} (stable : T.Stable (P a)) (holds : P a s) : (done a).Keeps T P s :=
  fun t turn => stable s t turn holds

theorem Keeps.later {s : Script α} {m n : S} (keeps : s.Keeps T P m) (turn : T.others m n) : s.Keeps T P n := by
  cases s with
  | done a => exact fun t more => keeps t (T.trans m n t turn more)
  | ask r next => exact fun t more => keeps t (T.trans m n t turn more)

theorem Keeps.mono {s : Script α} {m : S} (keeps : s.Keeps T P m) (weaker : ∀ a t, P a t → Q a t) :
    s.Keeps T Q m := by
  induction s generalizing m with
  | done a => exact fun t turn => weaker a t (keeps t turn)
  | ask r next ih =>
    intro t turn
    obtain ⟨u, same, own, rest⟩ := keeps t turn
    exact ⟨u, same, own, ih _ rest⟩

theorem Keeps.bind {Q : β → S → Prop} {s : Script α} {f : α → Script β} {m : S} (first : s.Keeps T P m)
    (rest : ∀ a t, (∀ u, T.others t u → P a u) → (f a).Keeps T Q t) : (s >>= f).Keeps T Q m := by
  show (Script.bind s f).Keeps T Q m
  induction s generalizing m with
  | done a => exact rest a m first
  | ask r next ih =>
    intro t turn
    obtain ⟨u, same, own, more⟩ := first t turn
    exact ⟨u, same, own, ih _ more⟩

/-- A script looks once at the disk, and then ends. -/
def Looks : Script α → Prop
  | .done _ => False
  | .ask r next => (∀ d : Disk, (d.perform r).2 = d) ∧ ∀ answer, ∃ a, next answer = .done a

theorem Looks.bind {s : Script α} {f : α → Script β} (looks : s.Looks) (ends : ∀ a, ∃ b, f a = .done b) :
    (s >>= f).Looks := by
  cases s with
  | done a => exact looks.elim
  | ask r next =>
    refine ⟨looks.1, fun answer => ?_⟩
    obtain ⟨a, ended⟩ := looks.2 answer
    obtain ⟨b, ended'⟩ := ends a
    refine ⟨b, ?_⟩
    show (next answer).bind f = _
    rw [ended]
    exact ended'

/-- A script that looks once comes to what it comes to by itself, wherever the others leave what is known. -/
theorem keeps_of_looks {A : S → Prop} {s : Script α} {m : S} (looks : s.Looks) (stable : T.Stable A)
    (stable' : ∀ a, T.Stable (P a)) (holds : A m) (each : ∀ u, A u → P (s.run (T.disk u)).1 u) : s.Keeps T P m := by
  cases s with
  | done a => exact looks.elim
  | ask r next =>
    intro t turn
    obtain ⟨a, ended⟩ := looks.2 ((T.disk t).perform r).1
    have after := each t (stable m t turn holds)
    rw [run, ended, run_done] at after
    refine ⟨t, (looks.1 _).symm, T.idle t, ?_⟩
    rw [ended]
    exact keeps_done (stable' a) after

end Script

namespace Disk.Shared

variable {α S : Type} {T U : Terms S} {P Q : α → S → Prop}

theorem turn_two {d : Disk} {s t : Script α} {u : Shared α} (turn : Turn ⟨d, [s, t]⟩ u) :
    ∃ (r : Request) (next : Except Fault r.Answer → Script α),
      (s = .ask r next ∧ u = ⟨(d.perform r).2, [next (d.perform r).1, t]⟩) ∨
      (t = .ask r next ∧ u = ⟨(d.perform r).2, [s, next (d.perform r).1]⟩) := by
  cases turn with
  | @ask i r next here =>
    refine ⟨r, next, ?_⟩
    match i with
    | 0 => exact .inl ⟨Option.some.inj here, rfl⟩
    | 1 => exact .inr ⟨Option.some.inj here, rfl⟩
    | i + 2 => simp at here

/-- Two scripts that keep to terms under which each does no more than the other puts up with: in whatever order they
have their turns, both end with what their terms promise. -/
theorem ends_of_keeps {s t : Script α} {m : S} {e : Shared α} {a b : α} (disks : U.disk = T.disk)
    (first : ∀ m n, T.own m n → U.others m n) (second : ∀ m n, U.own m n → T.others m n) (left : s.Keeps T P m)
    (right : t.Keeps U Q m) (reaches : Reaches ⟨T.disk m, [s, t]⟩ e) (ended : e.EndsWith [a, b]) :
    ∃ n, T.disk n = e.disk ∧ P a n ∧ Q b n := by
  -- By induction on the turns: what is carried from one to the next is that both scripts keep to their terms from the
  -- present moment on. Who has the turn gives a new moment, and the other puts up with it.
  generalize begun : (⟨T.disk m, [s, t]⟩ : Shared α) = start at reaches
  induction reaches generalizing s t m with
  | refl e =>
    subst begun
    obtain ⟨rfl, rfl⟩ : s = .done a ∧ t = .done b := by simpa [EndsWith] using ended
    exact ⟨m, rfl, left m (T.refl m), right m (U.refl m)⟩
  | step turn rest ih =>
    subst begun
    obtain ⟨r, next, ⟨rfl, rfl⟩ | ⟨rfl, rfl⟩⟩ := turn_two turn
    · obtain ⟨n, same, own, more⟩ := left m (T.refl m)
      exact ih more (right.later (first m n own)) ended (by rw [same])
    · obtain ⟨n, same, own, more⟩ := right m (U.refl m)
      rw [disks] at same more
      exact ih (left.later (second m n own)) more ended (by rw [same])

/-! ### Orders of turns -/

/-- Where scripts come to if they have their turns in this order; nothing if one of them has ended before its turn. -/
def follow : List Nat → Shared α → Option (Shared α)
  | [], m => some m
  | i :: rest, m =>
    match m.scripts[i]? with
    | some (.ask r next) => follow rest ⟨(m.disk.perform r).2, m.scripts.set i (next (m.disk.perform r).1)⟩
    | _ => none

theorem reaches_follow {turns : List Nat} {m e : Shared α} (followed : m.follow turns = some e) : Reaches m e := by
  induction turns generalizing m with
  | nil =>
    cases followed
    exact .refl _
  | cons i rest ih =>
    rw [follow] at followed
    split at followed
    next here => exact .step (.ask here) (ih followed)
    · cases followed

def haveEnded [DecidableEq α] : List (Script α) → List α → Bool
  | [], [] => true
  | .done a :: scripts, b :: values => decide (a = b) && haveEnded scripts values
  | _, _ => false

theorem haveEnded_iff [DecidableEq α] {scripts : List (Script α)} {values : List α} :
    haveEnded scripts values = true ↔ scripts = values.map .done := by
  induction scripts generalizing values with
  | nil => cases values <;> simp [haveEnded]
  | cons s rest ih =>
    cases values with
    | nil => simp [haveEnded]
    | cons b values => cases s <;> simp [haveEnded, ih]

instance [DecidableEq α] (e : Shared α) (values : List α) : Decidable (e.EndsWith values) :=
  decidable_of_iff _ haveEnded_iff

/-- In some order of turns, the scripts end with some values and leave a disk with a property. -/
def MayEnd (m : Shared α) (values : List α) (P : Disk → Prop) : Prop :=
  ∃ e, Reaches m e ∧ e.EndsWith values ∧ P e.disk

theorem mayEnd_of_follow [DecidableEq α] {m : Shared α} {values : List α} {P : Disk → Prop} [DecidablePred P]
    (turns : List Nat) (followed : (m.follow turns).any (fun e => decide (e.EndsWith values ∧ P e.disk)) = true) :
    m.MayEnd values P := by
  obtain ⟨e, there, both⟩ := (Option.any_eq_true _ _).1 followed
  exact ⟨e, reaches_follow there, of_decide_eq_true both⟩

end Disk.Shared

/-! ## What an action keeps to -/

namespace Action

variable {α β S : Type} {T : Terms S} {s : S}

/-- What an action keeps to, told by its outcome. -/
def Keeps (T : Terms S) (P : Except Failure α → S → Prop) (t : Action α) (s : S) : Prop := t.script.Keeps T P s

/-- A property of the moments in which an action ends, if it succeeds. -/
def Success (P : α → S → Prop) (o : Except Failure α) (s : S) : Prop := ∀ a, o = .ok a → P a s

theorem success_ok {P : α → S → Prop} {a : α} : Success P (.ok a) s ↔ P a s := by
  simp [Success]

theorem success_error {P : α → S → Prop} (x : Failure) : Success P (.error x) s := by
  simp [Success]

theorem stable_success {P : α → S → Prop} (each : ∀ a, T.Stable (P a)) (o : Except Failure α) :
    T.Stable (Success P o) :=
  Terms.stable_forall fun a => Terms.stable_imp fun _ => each a

theorem keeps_ofExcept {P : Except Failure α → S → Prop} {o : Except Failure α} (stable : T.Stable (P o))
    (holds : P o s) : (ofExcept o).Keeps T P s := Script.keeps_done stable holds

theorem keeps_pure {P : α → S → Prop} {a : α} (stable : T.Stable (P a)) (holds : P a s) :
    (pure a : Action α).Keeps T (Success P) s :=
  keeps_ofExcept (fun s t turn before => success_ok.2 (stable s t turn (success_ok.1 before))) (success_ok.2 holds)

theorem keeps_fail {P : α → S → Prop} (x : Failure) : (fail x : Action α).Keeps T (Success P) s :=
  fun _ _ => success_error x

theorem Keeps.bind_outcome {P : Except Failure α → S → Prop} {Q : Except Failure β → S → Prop} {t : Action α}
    {f : α → Action β} (first : t.Keeps T P s) (rest : ∀ a u, P (.ok a) u → (f a).Keeps T Q u)
    (failed : ∀ x u, P (.error x) u → Q (.error x) u) : (t >>= f).Keeps T Q s := by
  refine Script.Keeps.bind (f := ExceptT.bindCont f) first fun o u holds => ?_
  cases o with
  | error x => exact fun v turn => failed x v (holds v turn)
  | ok a => exact rest a u (holds u (T.refl u))

theorem Keeps.bind {P : α → S → Prop} {Q : β → S → Prop} {t : Action α} {f : α → Action β}
    (first : t.Keeps T (Success P) s) (rest : ∀ a u, P a u → (f a).Keeps T (Success Q) u) :
    (t >>= f).Keeps T (Success Q) s :=
  first.bind_outcome (fun a u holds => rest a u (success_ok.1 holds)) fun x _ _ => success_error x

/-- A chain of actions keeps to terms and to what holds whether or not they succeed. -/
theorem Keeps.bind_always {H : S → Prop} {P : α → S → Prop} {Q : β → S → Prop} {t : Action α} {f : α → Action β}
    (first : t.Keeps T (fun o u => H u ∧ Success P o u) s)
    (rest : ∀ a u, H u → P a u → (f a).Keeps T (fun o u => H u ∧ Success Q o u) u) :
    (t >>= f).Keeps T (fun o u => H u ∧ Success Q o u) s :=
  first.bind_outcome (fun a u holds => rest a u holds.1 (success_ok.1 holds.2)) fun x _ holds =>
    ⟨holds.1, success_error x⟩

theorem keeps_ofScript {P : α → S → Prop} {t : Script α} (keeps : t.Keeps T P s) :
    (ofScript t).Keeps T (Success P) s :=
  Script.Keeps.bind keeps fun _ _ holds v turn => success_ok.2 (holds v turn)

theorem keeps_asked {P : Except Failure α → S → Prop} {r : Request}
    {next : Except Fault r.Answer → Script (Except Failure α)} :
    Keeps T P (ExceptT.mk ((Script.request r).bind next)) s ↔ ∀ t, T.others s t →
      ∃ u, T.disk u = ((T.disk t).perform r).2 ∧ T.own t u ∧ (next ((T.disk t).perform r).1).Keeps T P u := Iff.rfl

/-- A request keeps to terms if it does so wherever the others leave what is known. -/
theorem keeps_ask {r : Request} {A : S → Prop} {P : Except Failure r.Answer → S → Prop} (stable : T.Stable A)
    (stable' : ∀ o, T.Stable (P o)) (holds : A s)
    (each : ∀ u answer e, A u → (T.disk u).perform r = (answer, e) →
      ∃ v, T.disk v = e ∧ T.own u v ∧ P (answer.mapError .fault) v) : (ask r).Keeps T P s := by
  refine keeps_asked.2 fun t turn => ?_
  cases performed : (T.disk t).perform r with
  | mk answer e =>
    obtain ⟨v, same, own, after⟩ := each t answer e (stable s t turn holds) performed
    refine ⟨v, same, own, ?_⟩
    cases answer with
    | error f => exact keeps_ofExcept (o := .error (.fault f)) (stable' _) after
    | ok b => exact keeps_ofExcept (o := .ok b) (stable' _) after

theorem keeps_of_looks {A : S → Prop} {P : Except Failure α → S → Prop} {t : Action α} (looks : t.script.Looks)
    (stable : T.Stable A) (stable' : ∀ o, T.Stable (P o)) (holds : A s)
    (each : ∀ u, A u → P (t.runOn (T.disk u)).1 u) : t.Keeps T P s :=
  Script.keeps_of_looks looks stable stable' holds each

theorem keeps_looking {A : S → Prop} {t : Action α} (looks : t.script.Looks) (stable : T.Stable A) (holds : A s) :
    t.Keeps T (Success fun _ => A) s :=
  keeps_of_looks looks stable (stable_success fun _ => stable) holds fun _ known _ _ => known

theorem looks_ofScript {t : Script α} (looks : t.Looks) : (ofScript t).script.Looks :=
  looks.bind fun a => ⟨.ok a, rfl⟩

theorem looks_map {t : Action α} (looks : t.script.Looks) (f : α → β) :
    (do return f (← t) : Action β).script.Looks := by
  refine Script.Looks.bind (f := ExceptT.bindCont fun a => pure (f a)) looks fun o => ?_
  cases o <;> exact ⟨_, rfl⟩

theorem looks_kind (p : Path) : (kind p).script.Looks :=
  ⟨fun _ => rfl, fun answer => by cases answer <;> exact ⟨_, rfl⟩⟩

theorem looks_ask {r : Request} (reads : ∀ d : Disk, (d.perform r).2 = d) : (ask r).script.Looks := by
  refine ⟨reads, fun answer => ?_⟩
  cases answer <;> exact ⟨_, rfl⟩

/-- An action of which only is told whether it succeeded. -/
def quiet (t : Action α) : Action Unit := do
  let _ ← t
  return ()

theorem runOn_quiet (t : Action α) (d : Disk) :
    t.quiet.runOn d = ((t.runOn d).1.map fun _ => (), (t.runOn d).2) := by
  rw [quiet, runOn_bind]
  cases t.runOn d with
  | mk outcome e => cases outcome <;> rfl

theorem Keeps.quiet {P : S → Prop} {t : Action α} (keeps : t.Keeps T (Success fun _ => P) s) (stable : T.Stable P) :
    t.quiet.Keeps T (Success fun _ => P) s :=
  keeps.bind fun _ _ holds => keeps_pure stable holds

end Action

end FlowArchive

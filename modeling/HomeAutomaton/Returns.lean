import HomeAutomaton.Diagnostic

/-!
# How computations end

A computation returns with a property if it has a result and the result has the property. More can be
said at once where faults are of interest too: the result has one property, or the fault has another one.
Sequences of computations are taken apart step by step, each step handing a property on to the next.

* `Returns` and `Ends` are about results and faults alone, `Logged.Returns` and `Logged.Ends` about
  computations that also report.
* `Ends.bind`, `Ends.mapM` and `Ends.foldlM`, and the same for `Logged.Ends`, put steps together.
* `EndsLike` and `Logged.EndsLike` compare two computations; `EndsLike.bind` puts their steps together.
-/

namespace HomeAutomaton

variable {α β : Type}

/-- What follows a result starts from it. -/
@[simp] theorem ok_bind {ε : Type} (a : α) (f : α → Except ε β) : (Except.ok a >>= f) = f a := rfl

@[simp] theorem error_bind {ε : Type} (e : ε) (f : α → Except ε β) :
    (Except.error e >>= f) = .error e := rfl

/-- A sequence with a result has one at every step. -/
theorem bind_eq_ok {ε : Type} {x : Except ε α} {f : α → Except ε β} {b : β} :
    (x >>= f) = .ok b ↔ ∃ a, x = .ok a ∧ f a = .ok b := by
  cases x <;> simp [bind, Except.bind]

/-! ### Results that are changed -/

@[simp] theorem ok_map {ε : Type} (f : α → β) (a : α) : (Except.ok a : Except ε α).map f = .ok (f a) :=
  rfl

@[simp] theorem error_map {ε : Type} (f : α → β) (e : ε) : (Except.error e).map f = .error e := rfl

theorem ite_map {ε : Type} (f : α → β) (p : Prop) [Decidable p] (x y : Except ε α) :
    (if p then x else y).map f = if p then x.map f else y.map f := apply_ite _ _ _ _

/-- A change of what a sequence gives is one of what its last step gives. -/
theorem map_of_bind {ε γ : Type} (x : Except ε α) (f : α → Except ε β) (g : β → γ) :
    (x >>= f).map g = x >>= fun a => (f a).map g := by
  cases x <;> rfl

/-- What follows a changed result starts from the change. -/
theorem bind_of_map {ε γ : Type} (x : Except ε α) (g : α → β) (f : β → Except ε γ) :
    (x.map g >>= f) = x >>= fun a => f (g a) := by
  cases x <;> rfl

/-! ### What is known of a result -/

/-- A computation that passes a check has a result that passes it. -/
theorem exists_of_check {ε : Type} {x : Except ε α} {check : α → Bool}
    (h : x.toOption.map check = some true) : ∃ a, x = .ok a ∧ check a = true := by
  cases x with
  | ok a => exact ⟨a, rfl, Option.some.inj h⟩
  | error e => cases h

/-- The same for a check that decides a property. -/
theorem exists_of_decide {ε : Type} {x : Except ε α} {p : α → Prop} [DecidablePred p]
    (h : x.toOption.map (fun a => decide (p a)) = some true) : ∃ a, x = .ok a ∧ p a :=
  (exists_of_check h).imp fun _ ⟨hx, ha⟩ => ⟨hx, of_decide_eq_true ha⟩

/-- The fault of a computation, if it has no result. -/
def fault? {ε : Type} : Except ε α → Option ε
  | .ok _ => none
  | .error e => some e

theorem eq_error_of_fault? {ε : Type} {x : Except ε α} {e : ε} (h : fault? x = some e) : x = .error e := by
  cases x with
  | ok a => cases h
  | error e' => exact congrArg _ (Option.some.inj h)

/-- There is a result, and it has the property. -/
def Returns (x : Except Fault α) (post : α → Prop) : Prop := ∃ a, x = .ok a ∧ post a

namespace Returns

variable {x : Except Fault α} {post out : α → Prop}

theorem ok {a : α} (h : post a) : Returns (.ok a) post := ⟨a, rfl, h⟩

/-- A result that is computed and passes a check has what the check is about. -/
theorem of_check {check : α → Bool} (h : x.toOption.map check = some true) :
    Returns x fun a => check a = true := exists_of_check h

theorem mono (h : Returns x post) (himp : ∀ a, post a → out a) : Returns x out := by
  obtain ⟨a, rfl, ha⟩ := h
  exact ⟨a, rfl, himp a ha⟩

end Returns

/-- There is a result, and it has the property. -/
def Logged.Returns (x : Logged α) (post : α → Prop) : Prop := HomeAutomaton.Returns x.result post

/-! ### Results and faults -/

/-- The result has the one property, or the fault has the other. -/
def Ends {ε : Type} (blame : ε → Prop) (x : Except ε α) (post : α → Prop) : Prop :=
  match x with
  | .ok a => post a
  | .error e => blame e

namespace Ends

variable {ε : Type} {blame : ε → Prop} {x : Except ε α} {post out : α → Prop}

theorem ok {a : α} (h : post a) : Ends blame (.ok a) post := h

theorem error {e : ε} (h : blame e) : Ends blame (.error e) post := h

theorem bind {f : α → Except ε β} {out : β → Prop} (h : Ends blame x post)
    (hf : ∀ a, post a → Ends blame (f a) out) : Ends blame (x >>= f) out := by
  cases x with
  | ok a => exact hf a h
  | error e => exact h

theorem mono (h : Ends blame x post) (himp : ∀ a, x = .ok a → post a → out a) :
    Ends blame x out := by
  cases x with
  | ok a => exact himp a rfl h
  | error e => exact h

theorem weaken {more : ε → Prop} (h : Ends blame x post) (himp : ∀ e, blame e → more e) :
    Ends more x post := by
  cases x with
  | ok a => exact h
  | error e => exact himp e h

theorem of_error (h : ∀ e, x = .error e → blame e) : Ends blame x fun _ => True := by
  cases x with
  | ok a => exact trivial
  | error e => exact h e rfl

/-- What is known of a failed computation is known of its failure. -/
theorem blame_of_error {e : ε} (h : Ends blame x post) (hx : x = .error e) : blame e := by
  rw [hx] at h
  exact h

theorem mapM {f : α → Except ε β} {as : List α} {out : β → Prop}
    (h : ∀ a ∈ as, Ends blame (f a) out) : Ends blame (as.mapM f) fun bs => ∀ b ∈ bs, out b := by
  induction as with
  | nil => exact fun b hb => absurd hb List.not_mem_nil
  | cons a as ih =>
    rw [List.mapM_cons]
    refine (h a List.mem_cons_self).bind fun b hb => ?_
    refine (ih fun a ha => h a (List.mem_cons_of_mem _ ha)).bind fun bs hbs => ?_
    exact List.forall_mem_cons.mpr ⟨hb, hbs⟩

/-- What every step of a fold keeps up holds at its end. -/
theorem foldlM {f : β → α → Except ε β} {as : List α} (inv : β → Prop) {b : β} (hb : inv b)
    (h : ∀ a ∈ as, ∀ b, inv b → Ends blame (f b a) inv) : Ends blame (as.foldlM f b) inv := by
  induction as generalizing b with
  | nil => exact hb
  | cons a as ih =>
    rw [List.foldlM_cons]
    exact (h a List.mem_cons_self b hb).bind fun b hb =>
      ih hb fun a ha => h a (List.mem_cons_of_mem _ ha)

end Ends

namespace Logged

/-- The result has the one property, or the fault has the other. -/
def Ends (blame : Fault → Prop) (x : Logged α) (post : α → Prop) : Prop :=
  HomeAutomaton.Ends blame x.result post

namespace Ends

variable {blame : Fault → Prop} {x : Logged α} {post out : α → Prop}

theorem pure {a : α} (h : post a) : Ends blame (Pure.pure a) post := h

theorem fail {e : Fault} (h : blame e) : Ends blame (Logged.fail e) post := h

theorem mono (h : Ends blame x post) (himp : ∀ a, x.result = .ok a → post a → out a) :
    Ends blame x out :=
  HomeAutomaton.Ends.mono h himp

theorem weaken {more : Fault → Prop} (h : Ends blame x post) (himp : ∀ e, blame e → more e) :
    Ends more x post :=
  HomeAutomaton.Ends.weaken h himp

theorem lift {x : Except Fault α} (h : HomeAutomaton.Ends blame x post) :
    Ends blame (liftM x : Logged α) post := h

theorem bind {f : α → Logged β} {out : β → Prop} (h : Ends blame x post)
    (hf : ∀ a, post a → Ends blame (f a) out) : Ends blame (x >>= f) out := by
  cases hx : x.result with
  | ok a =>
    rw [bind_of_ok hx]
    refine hf a ?_
    rwa [Ends, hx] at h
  | error e =>
    rw [bind_of_error hx]
    rwa [Ends, hx] at h

/-- A report comes before what follows it. -/
theorem report_bind {d : Diagnostic} {y : Unit → Logged α} (h : Ends blame (y ()) post) :
    Ends blame (report d >>= y) post := h

theorem reports_bind {ds : List Diagnostic} {y : Unit → Logged α} (h : Ends blame (y ()) post) :
    Ends blame (reports ds >>= y) post := h

theorem mapM {f : α → Logged β} {as : List α} {out : β → Prop}
    (h : ∀ a ∈ as, Ends blame (f a) out) : Ends blame (as.mapM f) fun bs => ∀ b ∈ bs, out b := by
  induction as with
  | nil => exact pure fun b hb => absurd hb List.not_mem_nil
  | cons a as ih =>
    rw [List.mapM_cons]
    refine (h a List.mem_cons_self).bind fun b hb => ?_
    refine (ih fun a ha => h a (List.mem_cons_of_mem _ ha)).bind fun bs hbs => ?_
    exact pure (List.forall_mem_cons.mpr ⟨hb, hbs⟩)

end Ends

end Logged

/-! ### Two computations -/

/-- The two computations have results that are related, or the same fault. -/
def EndsLike {ε α β : Type} (related : α → β → Prop) : Except ε α → Except ε β → Prop
  | .ok a, .ok b => related a b
  | .error e, .error e' => e = e'
  | _, _ => False

namespace EndsLike

variable {ε α β γ δ : Type} {related : α → β → Prop} {out : γ → δ → Prop} {x : Except ε α}
  {y : Except ε β}

theorem of_eq {x y : Except ε α} (h : x = y) : EndsLike (fun a b => a = b) x y := by
  subst h
  cases x <;> exact rfl

theorem eq {x y : Except ε α} (h : EndsLike (fun a b => a = b) x y) : x = y := by
  cases x <;> cases y <;> first | exact congrArg _ h | exact absurd h not_false

theorem bind (h : EndsLike related x y) {f : α → Except ε γ} {f' : β → Except ε δ}
    (hf : ∀ a b, related a b → EndsLike out (f a) (f' b)) : EndsLike out (x >>= f) (y >>= f') := by
  cases x with
  | ok a =>
    cases y with
    | ok b => exact hf a b h
    | error e => exact absurd h not_false
  | error e =>
    cases y with
    | ok b => exact absurd h not_false
    | error e' => exact h

theorem mono (h : EndsLike related x y) {weaker : α → β → Prop}
    (himp : ∀ a b, related a b → weaker a b) : EndsLike weaker x y := by
  cases x with
  | ok a =>
    cases y with
    | ok b => exact himp a b h
    | error e => exact absurd h not_false
  | error e =>
    cases y with
    | ok b => exact absurd h not_false
    | error e' => exact h

/-- What the first gives is known of its result. -/
theorem keep (h : EndsLike related x y) : EndsLike (fun a b => x = .ok a ∧ related a b) x y := by
  cases x with
  | ok a =>
    cases y with
    | ok b => exact ⟨rfl, h⟩
    | error e => exact absurd h not_false
  | error e =>
    cases y with
    | ok b => exact absurd h not_false
    | error e' => exact h

/-- Where the first has a result, so has the second. -/
theorem of_ok {a : α} (h : EndsLike related (.ok a) y) : ∃ b, y = .ok b ∧ related a b := by
  cases y with
  | ok b => exact ⟨b, rfl, h⟩
  | error e => exact absurd h not_false

theorem of_ok' {b : β} (h : EndsLike related x (.ok b)) : ∃ a, x = .ok a ∧ related a b := by
  cases x with
  | ok a => exact ⟨a, rfl, h⟩
  | error e => exact absurd h not_false

/-- Where the first has a fault, the second has the same. -/
theorem of_error {e : ε} (h : EndsLike related (.error e) y) : y = .error e := by
  cases y with
  | ok b => exact absurd h not_false
  | error e' => exact congrArg _ h.symm

end EndsLike

/-- The two computations have results that are related or the same fault, whatever they report. -/
def Logged.EndsLike {α β : Type} (related : α → β → Prop) (x : Logged α) (y : Logged β) : Prop :=
  HomeAutomaton.EndsLike related x.result y.result

theorem Logged.EndsLike.refl {α : Type} (x : Logged α) : x.EndsLike (fun a b => a = b) x :=
  HomeAutomaton.EndsLike.of_eq rfl

theorem Logged.EndsLike.lift {α β : Type} {related : α → β → Prop} {x : Except Fault α}
    {y : Except Fault β} (h : HomeAutomaton.EndsLike related x y) :
    (liftM x : Logged α).EndsLike related (liftM y) := h

theorem Logged.EndsLike.bind {α β γ δ : Type} {related : α → β → Prop} {out : γ → δ → Prop}
    {x : Logged α} {y : Logged β} (h : x.EndsLike related y) {f : α → Logged γ} {f' : β → Logged δ}
    (hf : ∀ a b, related a b → (f a).EndsLike out (f' b)) : (x >>= f).EndsLike out (y >>= f') := by
  cases hx : x.result with
  | ok a =>
    rw [Logged.EndsLike, hx] at h
    obtain ⟨b, hy, hab⟩ := h.of_ok
    rw [bind_of_ok hx, bind_of_ok hy]
    exact hf a b hab
  | error e =>
    rw [Logged.EndsLike, hx] at h
    rw [bind_of_error hx, bind_of_error h.of_error]
    exact rfl

end HomeAutomaton

import Mathlib.Data.Nat.Notation
import Mathlib.Logic.Basic

set_option autoImplicit false

/-!
# Programs that call a device

A program issues calls and continues with the replies. A machine says which
replies and next states a call may have; it is a relation, so what other
parties do between two calls is part of it. `wp` is the weakest precondition
for a guard on every call and a condition on the result, and `wp_sound`
connects it to the executions themselves.
-/
namespace Stm32NetworkStack.InteractivePrograms

/-- `spin` has not returned: a polling loop cut off after the rounds it was
given. Nothing runs after it. -/
inductive Prog (E : Type) (R : E → Type) (α : Type) : Type
  | ret (a : α)
  | call (e : E) (k : R e → Prog E R α)
  | spin

section
variable {E : Type} {R : E → Type} {α β : Type}

def Prog.bind : Prog E R α → (α → Prog E R β) → Prog E R β
  | .ret a, f => f a
  | .call e k, f => .call e fun r => (k r).bind f
  | .spin, _ => .spin

instance : Monad (Prog E R) where
  pure := .ret
  bind := .bind

@[simp] theorem pure_eq (a : α) : (pure a : Prog E R α) = .ret a := rfl
@[simp] theorem bind_eq (p : Prog E R α) (f : α → Prog E R β) : p >>= f = p.bind f := rfl
@[simp] theorem ret_bind (a : α) (f : α → Prog E R β) : (Prog.ret a).bind f = f a := rfl
@[simp] theorem call_bind (e : E) (k : R e → Prog E R α) (f : α → Prog E R β) :
    (Prog.call e k).bind f = .call e fun r => (k r).bind f := rfl

theorem bind_ret (p : Prog E R α) : p.bind .ret = p := by
  induction p with
  | ret a => rfl
  | spin => rfl
  | call e k ih => exact congrArg (Prog.call e) (funext ih)

theorem bind_assoc {γ : Type} (p : Prog E R α) (f : α → Prog E R β) (g : β → Prog E R γ) :
    (p.bind f).bind g = p.bind fun a => (f a).bind g := by
  induction p with
  | ret a => rfl
  | spin => rfl
  | call e k ih => exact congrArg (Prog.call e) (funext ih)

end

/-- `M e s r s'`: in state `s` the call `e` may be answered by `r`, leaving `s'`. -/
abbrev Machine (E : Type) (R : E → Type) (σ : Type) := (e : E) → σ → R e → σ → Prop

section
variable {E : Type} {R : E → Type} {σ α β : Type}

/-- One execution, with the state in which each call was made. The result is
`none` when the program was cut off. -/
inductive Exec (M : Machine E R σ) :
    Prog E R α → σ → List (E × σ) → Option α → σ → Prop
  | ret (a : α) (s : σ) : Exec M (.ret a) s [] (some a) s
  | spin (s : σ) : Exec M .spin s [] none s
  | call {e : E} {k : R e → Prog E R α} {s u v : σ} {r : R e} {t : List (E × σ)} {o : Option α}
      (step : M e s r u) (tail : Exec M (k r) u t o v) : Exec M (.call e k) s ((e, s) :: t) o v

/-- The guard `G` holds at every call and `Q` at the end. -/
def wp (M : Machine E R σ) (G : E → σ → Prop) :
    Prog E R α → (Option α → σ → Prop) → σ → Prop
  | .ret a, Q, s => Q (some a) s
  | .spin, Q, s => Q none s
  | .call e k, Q, s => G e s ∧ ∀ r u, M e s r u → wp M G (k r) Q u

/-- What follows a first part: its result, or nothing if it was cut off. -/
def andThen (M : Machine E R σ) (G : E → σ → Prop) (f : α → Prog E R β)
    (Q : Option β → σ → Prop) : Option α → σ → Prop
  | some a, s => wp M G (f a) Q s
  | none, s => Q none s

variable {M : Machine E R σ} {G : E → σ → Prop}

@[simp] theorem wp_ret (a : α) (Q : Option α → σ → Prop) (s : σ) :
    wp M G (.ret a) Q s ↔ Q (some a) s := Iff.rfl

@[simp] theorem andThen_some (f : α → Prog E R β) (Q : Option β → σ → Prop) (a : α) (s : σ) :
    andThen M G f Q (some a) s ↔ wp M G (f a) Q s := Iff.rfl

theorem wp_call (e : E) (k : R e → Prog E R α) (Q : Option α → σ → Prop) (s : σ) :
    wp M G (.call e k) Q s ↔ G e s ∧ ∀ r u, M e s r u → wp M G (k r) Q u := Iff.rfl

theorem wp_mono {p : Prog E R α} {P Q : Option α → σ → Prop}
    (h : ∀ o s, P o s → Q o s) {s : σ} (hp : wp M G p P s) : wp M G p Q s := by
  induction p generalizing s with
  | ret a => exact h _ _ hp
  | spin => exact h _ _ hp
  | call e k ih => exact ⟨hp.1, fun r u hs => ih r (hp.2 r u hs)⟩

theorem wp_bind (p : Prog E R α) (f : α → Prog E R β) (Q : Option β → σ → Prop) (s : σ) :
    wp M G (p.bind f) Q s ↔ wp M G p (andThen M G f Q) s := by
  induction p generalizing s with
  | ret a => rfl
  | spin => rfl
  | call e k ih =>
    simp only [call_bind, wp_call]
    exact and_congr_right fun _ => forall_congr' fun r => forall_congr' fun u =>
      imp_congr_right fun _ => ih r u

theorem wp_seq {p : Prog E R α} {f : α → Prog E R β} {P : Option α → σ → Prop}
    {Q : Option β → σ → Prop} {s : σ} (hp : wp M G p P s)
    (hn : ∀ u, P none u → Q none u) (hf : ∀ a u, P (some a) u → wp M G (f a) Q u) :
    wp M G (p.bind f) Q s := by
  rw [wp_bind]
  refine wp_mono (fun o u h => ?_) hp
  cases o with
  | none => exact hn u h
  | some a => exact hf a u h

theorem wp_sound {p : Prog E R α} {Q : Option α → σ → Prop} {s v : σ} {t : List (E × σ)}
    {o : Option α} (h : wp M G p Q s) (run : Exec M p s t o v) :
    (∀ x ∈ t, G x.1 x.2) ∧ Q o v := by
  induction run with
  | ret a s => exact ⟨fun x hx => absurd hx List.not_mem_nil, h⟩
  | spin s => exact ⟨fun x hx => absurd hx List.not_mem_nil, h⟩
  | call step tail ih =>
    obtain ⟨ht, ho⟩ := ih (h.2 _ _ step)
    refine ⟨fun x hx => ?_, ho⟩
    rcases List.mem_cons.mp hx with rfl | hx
    · exact h.1
    · exact ht x hx

theorem Exec.of_call {e : E} {k : R e → Prog E R α} {s v : σ} {t : List (E × σ)} {o : Option α}
    (h : Exec M (.call e k) s t o v) :
    ∃ r u t', M e s r u ∧ Exec M (k r) u t' o v ∧ t = (e, s) :: t' := by
  cases h with
  | call step tail => exact ⟨_, _, _, step, tail, rfl⟩

/-- A machine that answers every call in every state. -/
def Total (M : Machine E R σ) : Prop := ∀ e s, ∃ r u, M e s r u

theorem Total.exec (total : Total M) (p : Prog E R α) (s : σ) : ∃ t o v, Exec M p s t o v := by
  induction p generalizing s with
  | ret a => exact ⟨_, _, _, .ret a s⟩
  | spin => exact ⟨_, _, _, .spin s⟩
  | call e k ih =>
    obtain ⟨r, u, hs⟩ := total e s
    obtain ⟨t, o, v, ht⟩ := ih r u
    exact ⟨_, _, _, .call hs ht⟩

/-- On such a machine a guard that no execution breaks is a precondition. -/
theorem wp_of_execs (total : Total M) {p : Prog E R α} {s : σ}
    (h : ∀ t o v, Exec M p s t o v → ∀ x ∈ t, G x.1 x.2) : wp M G p (fun _ _ => True) s := by
  induction p generalizing s with
  | ret a => exact trivial
  | spin => exact trivial
  | call e k ih =>
    constructor
    · obtain ⟨t, o, v, ht⟩ := total.exec (.call e k) s
      obtain ⟨r, u, t', -, -, rfl⟩ := ht.of_call
      exact h _ o v ht (e, s) List.mem_cons_self
    · exact fun r u hs => ih r fun t o v ht x hx => h _ o v (.call hs ht) x (List.mem_cons_of_mem _ hx)

/-- A run of two parts is cut off in the first, or goes through both. -/
theorem Exec.split {p : Prog E R α} {f : α → Prog E R β} {s v : σ} {t : List (E × σ)} {o : Option β}
    (h : Exec M (p.bind f) s t o v) :
    (o = none ∧ Exec M p s t none v) ∨
      ∃ a u t₁ t₂, Exec M p s t₁ (some a) u ∧ Exec M (f a) u t₂ o v ∧ t = t₁ ++ t₂ := by
  induction p generalizing s t with
  | ret a => exact Or.inr ⟨a, s, [], t, .ret a s, h, rfl⟩
  | spin =>
    cases h
    exact Or.inl ⟨rfl, .spin _⟩
  | call e k ih =>
    cases h with
    | call step tail =>
      rcases ih _ tail with ⟨ho, hcut⟩ | ⟨a, u, t₁, t₂, h₁, h₂, ht⟩
      · exact Or.inl ⟨ho, .call step hcut⟩
      · exact Or.inr ⟨a, u, (e, s) :: t₁, t₂, .call step h₁, h₂, by rw [ht, List.cons_append]⟩

theorem Exec.of_bind {p : Prog E R α} {f : α → Prog E R β} {s v : σ} {t : List (E × σ)} {b : β}
    (h : Exec M (p.bind f) s t (some b) v) :
    ∃ a u t₁ t₂, Exec M p s t₁ (some a) u ∧ Exec M (f a) u t₂ (some b) v ∧ t = t₁ ++ t₂ := by
  rcases h.split with ⟨ho, -⟩ | hboth
  · cases ho
  · exact hboth

theorem Exec.bind {p : Prog E R α} {f : α → Prog E R β} {s u v : σ} {t₁ t₂ : List (E × σ)} {a : α}
    {o : Option β} (hp : Exec M p s t₁ (some a) u) (hf : Exec M (f a) u t₂ o v) :
    Exec M (p.bind f) s (t₁ ++ t₂) o v := by
  induction p generalizing s t₁ with
  | ret b =>
    cases hp
    exact hf
  | spin => cases hp
  | call e k ih =>
    cases hp with
    | call step tail => exact .call step (ih _ tail)

theorem Exec.of_map {p : Prog E R α} {f : α → β} {s v : σ} {t : List (E × σ)} {b : β}
    (h : Exec M (p.bind fun a => .ret (f a)) s t (some b) v) :
    ∃ a, Exec M p s t (some a) v ∧ f a = b := by
  obtain ⟨a, u, t₁, t₂, h₁, h₂, rfl⟩ := h.of_bind
  cases h₂
  exact ⟨a, by simpa using h₁, rfl⟩

/-- What holds at the end: `B a` after the result `a`, `X` if there is none. -/
def ends (B : α → σ → Prop) (X : σ → Prop) : Option α → σ → Prop
  | some a, s => B a s
  | none, s => X s

/-- From `P` the program returns `a` in `B a`, or is cut off in `X`, and keeps
to the guard on the way. -/
def Triple (M : Machine E R σ) (G : E → σ → Prop) (P : σ → Prop) (p : Prog E R α)
    (B : α → σ → Prop) (X : σ → Prop) : Prop :=
  ∀ s, P s → wp M G p (ends B X) s

theorem Triple.ret {P X : σ → Prop} {B : α → σ → Prop} {a : α} (h : ∀ s, P s → B a s) :
    Triple M G P (.ret a) B X :=
  h

theorem Triple.bind {P X : σ → Prop} {B : α → σ → Prop} {D : β → σ → Prop} {p : Prog E R α}
    {f : α → Prog E R β} (hp : Triple M G P p B X) (hf : ∀ a, Triple M G (B a) (f a) D X) :
    Triple M G P (p.bind f) D X :=
  fun s hs => wp_seq (hp s hs) (fun _ hu => hu) fun a u hu => hf a u hu

theorem Triple.conseq {P P' X X' : σ → Prop} {B B' : α → σ → Prop} {p : Prog E R α}
    (h : Triple M G P p B X) (hP : ∀ s, P' s → P s) (hB : ∀ a s, B a s → B' a s)
    (hX : ∀ s, X s → X' s) : Triple M G P' p B' X' := by
  intro s hs
  refine wp_mono (fun o u hu => ?_) (h s (hP s hs))
  cases o with
  | none => exact hX u hu
  | some a => exact hB a u hu

theorem Triple.sound {P X : σ → Prop} {B : α → σ → Prop} {p : Prog E R α} {s v : σ}
    {t : List (E × σ)} {o : Option α} (h : Triple M G P p B X) (hs : P s)
    (run : Exec M p s t o v) : (∀ x ∈ t, G x.1 x.2) ∧ ends B X o v :=
  wp_sound (h s hs) run

/-- Whatever the replies, a result is in `Q`. -/
def Prog.Returns (Q : α → Prop) : Prog E R α → Prop
  | .ret a => Q a
  | .spin => True
  | .call _ k => ∀ r, (k r).Returns Q

theorem returns_bind {P : α → Prop} {Q : β → Prop} {p : Prog E R α} {f : α → Prog E R β}
    (hp : p.Returns P) (hf : ∀ a, P a → (f a).Returns Q) : (p.bind f).Returns Q := by
  induction p with
  | ret a => exact hf a hp
  | spin => exact trivial
  | call e k ih => exact fun r => ih r (hp r)

theorem returns_mono {P Q : α → Prop} {p : Prog E R α} (hp : p.Returns P) (h : ∀ a, P a → Q a) :
    p.Returns Q := by
  induction p with
  | ret a => exact h a hp
  | spin => exact trivial
  | call e k ih => exact fun r => ih r (hp r)

theorem returns_any (p : Prog E R α) : p.Returns fun _ => True := by
  induction p with
  | ret a => exact trivial
  | spin => exact trivial
  | call e k ih => exact ih

theorem returns_rest {Q : β → Prop} (p : Prog E R α) {f : α → Prog E R β}
    (hf : ∀ a, (f a).Returns Q) : (p.bind f).Returns Q :=
  returns_bind (returns_any p) fun a _ => hf a

theorem Exec.returns {Q : α → Prop} {p : Prog E R α} {s v : σ} {t : List (E × σ)} {a : α}
    (run : Exec M p s t (some a) v) (h : p.Returns Q) : Q a := by
  induction p generalizing s t with
  | ret b =>
    cases run
    exact h
  | spin => cases run
  | call e k ih =>
    cases run with
    | call step tail => exact ih _ tail (h _)

/-- Whatever the replies, each call is in `A`. -/
def Prog.Issues (A : E → Prop) : Prog E R α → Prop
  | .ret _ => True
  | .spin => True
  | .call e k => A e ∧ ∀ r, (k r).Issues A

theorem issues_bind {A : E → Prop} {P : α → Prop} {p : Prog E R α} {f : α → Prog E R β}
    (hp : p.Issues A) (hr : p.Returns P) (hf : ∀ a, P a → (f a).Issues A) : (p.bind f).Issues A := by
  induction p with
  | ret a => exact hf a hr
  | spin => exact trivial
  | call e k ih => exact ⟨hp.1, fun r => ih r (hp.2 r) (hr r)⟩

theorem issues_seq {A : E → Prop} {p : Prog E R α} {f : α → Prog E R β} (hp : p.Issues A)
    (hf : ∀ a, (f a).Issues A) : (p.bind f).Issues A :=
  issues_bind hp (returns_any p) fun a _ => hf a

theorem Prog.Issues.mono {A B : E → Prop} {p : Prog E R α} (h : p.Issues A) (hAB : ∀ e, A e → B e) :
    p.Issues B := by
  induction p with
  | ret a => exact trivial
  | spin => exact trivial
  | call e k ih => exact ⟨hAB e h.1, fun r => ih r (h.2 r)⟩

theorem Exec.issues {A : E → Prop} {p : Prog E R α} {s v : σ} {t : List (E × σ)} {o : Option α}
    (run : Exec M p s t o v) (h : p.Issues A) : ∀ x ∈ t, A x.1 := by
  induction run with
  | ret a s => exact fun x hx => absurd hx List.not_mem_nil
  | spin s => exact fun x hx => absurd hx List.not_mem_nil
  | call step tail ih =>
    intro x hx
    rcases List.mem_cons.mp hx with rfl | hx
    · exact h.1
    · exact ih (h.2 _) x hx

/-- A finished run of `p` has a result in `Bad`, or is a run of `q`. -/
def Degrades (M : Machine E R σ) (Bad : α → Prop) (p q : Prog E R α) : Prop :=
  ∀ s t a v, Exec M p s t (some a) v → Bad a ∨ Exec M q s t (some a) v

theorem Degrades.refl {Bad : α → Prop} (p : Prog E R α) : Degrades M Bad p p :=
  fun _ _ _ _ run => Or.inr run

theorem Degrades.of_returns {Bad : α → Prop} {p : Prog E R α} (h : p.Returns Bad) (q : Prog E R α) :
    Degrades M Bad p q :=
  fun _ _ _ _ run => Or.inl (run.returns h)

theorem Degrades.rest {Bad : β → Prop} (p : Prog E R α) {f g : α → Prog E R β}
    (h : ∀ a, Degrades M Bad (f a) (g a)) : Degrades M Bad (p.bind f) (p.bind g) := by
  intro s t b v run
  obtain ⟨a, u, t₁, t₂, hp, hf, rfl⟩ := run.of_bind
  exact (h a _ _ _ _ hf).imp_right fun hg => hp.bind hg

theorem Degrades.map {Bad : α → Prop} {Bad' : β → Prop} {p q : Prog E R α} {f : α → β}
    (h : Degrades M Bad p q) (hf : ∀ a, Bad a → Bad' (f a)) :
    Degrades M Bad' (p.bind fun a => .ret (f a)) (q.bind fun a => .ret (f a)) := by
  intro s t b v run
  obtain ⟨a, u, t₁, t₂, hp, hr, rfl⟩ := run.of_bind
  cases hr
  rcases h _ _ _ _ hp with hb | hq
  · exact Or.inl (hf a hb)
  · exact Or.inr (hq.bind (.ret _ _))

/-- An executable device resolves every choice of the machine. -/
def Prog.run (device : (e : E) → σ → R e × σ) : Prog E R α → σ → Option α × σ
  | .ret a, s => (some a, s)
  | .spin, s => (none, s)
  | .call e k, s => (k (device e s).1).run device (device e s).2

/-- The calls that the program makes of the device. -/
def Prog.calls (device : (e : E) → σ → R e × σ) : Prog E R α → σ → List (E × σ)
  | .ret _, _ => []
  | .spin, _ => []
  | .call e k, s => (e, s) :: (k (device e s).1).calls device (device e s).2

theorem run_calls {device : (e : E) → σ → R e × σ}
    (h : ∀ e s, M e s (device e s).1 (device e s).2) (p : Prog E R α) (s : σ) :
    Exec M p s (p.calls device s) (p.run device s).1 (p.run device s).2 := by
  induction p generalizing s with
  | ret a => exact .ret a s
  | spin => exact .spin s
  | call e k ih => exact .call (h e s) (ih _ _)

theorem run_exec {device : (e : E) → σ → R e × σ}
    (h : ∀ e s, M e s (device e s).1 (device e s).2) (p : Prog E R α) (s : σ) :
    ∃ t, Exec M p s t (p.run device s).1 (p.run device s).2 :=
  ⟨_, run_calls h p s⟩

end

section
variable {E : Type} {R : E → Type} {σ ι ρ : Type}

structure CallRecord (E : Type) (σ ι ρ : Type) where
  op : ι
  before : σ
  trace : List (E × σ)
  result : ρ
  after : σ

/-- Calls made one after another, each returning before the next begins. -/
inductive Session (M : Machine E R σ) (prog : ι → Prog E R ρ) (s : σ) :
    List (CallRecord E σ ι ρ) → σ → Prop
  | nil : Session M prog s [] s
  | snoc {rs : List (CallRecord E σ ι ρ)} {u v : σ} {i : ι} {t : List (E × σ)} {a : ρ}
      (init : Session M prog s rs u) (last : Exec M (prog i) u t (some a) v) :
      Session M prog s (rs ++ [⟨i, u, t, a, v⟩]) v

variable {M : Machine E R σ} {prog : ι → Prog E R ρ}

/-- What every call preserves, under a condition `C` on the call and the state
it is made in, holds after every session whose calls meet the condition. -/
theorem Session.invariant {C : ι → σ → Prop} {I : List (CallRecord E σ ι ρ) → σ → Prop} {s u : σ}
    {rs : List (CallRecord E σ ι ρ)} (h : Session M prog s rs u)
    (hC : ∀ r ∈ rs, C r.op r.before) (h0 : I [] s)
    (step : ∀ rs u i t a v, I rs u → C i u → Exec M (prog i) u t (some a) v →
      I (rs ++ [⟨i, u, t, a, v⟩]) v) : I rs u := by
  induction h with
  | nil => exact h0
  | snoc init last ih =>
    have hi := ih fun r hr => hC r (List.mem_append_left _ hr)
    exact step _ _ _ _ _ _ hi (hC _ (List.mem_append_right _ (List.mem_singleton.mpr rfl))) last

theorem Session.mem {s u : σ} {rs : List (CallRecord E σ ι ρ)} (h : Session M prog s rs u)
    {r : CallRecord E σ ι ρ} (hr : r ∈ rs) :
    ∃ before, Session M prog s before r.before ∧ before ++ [r] <+: rs ∧
      Exec M (prog r.op) r.before r.trace (some r.result) r.after := by
  induction h with
  | nil => exact absurd hr List.not_mem_nil
  | @snoc rs u v i t a init last ih =>
    rcases List.mem_append.mp hr with hr | hr
    · obtain ⟨before, hb, hp, he⟩ := ih hr
      exact ⟨before, hb, hp.trans (List.prefix_append _ _), he⟩
    · obtain rfl := List.mem_singleton.mp hr
      exact ⟨rs, init, List.prefix_refl _, last⟩

theorem Session.last_mem {s u : σ} {rs : List (CallRecord E σ ι ρ)} (h : Session M prog s rs u)
    (hne : rs ≠ []) : ∃ r ∈ rs, r.after = u := by
  cases h with
  | nil => exact absurd rfl hne
  | snoc init last => exact ⟨_, List.mem_append_right _ (List.mem_singleton.mpr rfl), rfl⟩

/-- Two properties of records that agree wherever the state before the call is
good, and whose second one keeps it good, agree over whole sessions. -/
theorem Session.forall_iff {A P Q : CallRecord E σ ι ρ → Prop} {I : σ → Prop} {s u : σ}
    {rs : List (CallRecord E σ ι ρ)} (h : Session M prog s rs u) (hA : ∀ r ∈ rs, A r) (h0 : I s)
    (step : ∀ r, A r → I r.before → Exec M (prog r.op) r.before r.trace (some r.result) r.after →
      (P r ↔ Q r) ∧ (Q r → I r.after)) :
    ((∀ r ∈ rs, P r) ↔ ∀ r ∈ rs, Q r) ∧ ((∀ r ∈ rs, Q r) → I u) := by
  induction h with
  | nil => exact ⟨by simp, fun _ => h0⟩
  | @snoc rs u v i t a init last ih =>
    obtain ⟨hiff, hI⟩ := ih fun r hr => hA r (List.mem_append_left _ hr)
    have hr := step ⟨i, u, t, a, v⟩ (hA _ (List.mem_append_right _ (List.mem_singleton.mpr rfl)))
    simp only [List.forall_mem_append, List.forall_mem_singleton]
    refine ⟨⟨fun hp => ?_, fun hq => ?_⟩, fun hq => (hr (hI hq.1) last).2 hq.2⟩
    · exact ⟨hiff.1 hp.1, (hr (hI (hiff.1 hp.1)) last).1.1 hp.2⟩
    · exact ⟨hiff.2 hq.1, (hr (hI hq.1) last).1.2 hq.2⟩

/-- What one call preserves, and what it shows of its record, in whole sessions. -/
theorem Session.all {A P : CallRecord E σ ι ρ → Prop} {I : σ → Prop} {s u : σ}
    {rs : List (CallRecord E σ ι ρ)} (h : Session M prog s rs u) (hA : ∀ r ∈ rs, A r) (h0 : I s)
    (step : ∀ r, A r → I r.before → Exec M (prog r.op) r.before r.trace (some r.result) r.after →
      P r ∧ I r.after) : (∀ r ∈ rs, P r) ∧ I u := by
  obtain ⟨hiff, hI⟩ := h.forall_iff (P := P) (Q := fun _ => True) hA h0 fun r ha hr last =>
    ⟨iff_of_true (step r ha hr last).1 trivial, fun _ => (step r ha hr last).2⟩
  exact ⟨hiff.2 fun _ _ => trivial, hI fun _ _ => trivial⟩

/-- The answers of a deterministic specification to a list of calls, and its last state. -/
def specRun {τ : Type} (spec : ι → τ → ρ × τ) (x : τ) (calls : List ι) : List ρ × τ :=
  calls.foldl (fun y i => (y.1 ++ [(spec i y.2).1], (spec i y.2).2)) ([], x)

theorem specRun_snoc {τ : Type} (spec : ι → τ → ρ × τ) (x : τ) (calls : List ι) (i : ι) :
    specRun spec x (calls ++ [i]) = ((specRun spec x calls).1 ++ [(spec i (specRun spec x calls).2).1],
      (spec i (specRun spec x calls).2).2) := by
  simp only [specRun, List.foldl_append, List.foldl_cons, List.foldl_nil]

/-- If each call answers what the specification answers and keeps the relation `S`
between the two states, then so does a whole session. -/
theorem Session.refines {τ : Type} {spec : ι → τ → ρ × τ} {S : τ → σ → Prop} {C : ι → σ → Prop} {x : τ}
    {s u : σ} {rs : List (CallRecord E σ ι ρ)} (h : Session M prog s rs u)
    (hC : ∀ r ∈ rs, C r.op r.before) (h0 : S x s)
    (step : ∀ x u i t a v, S x u → C i u → Exec M (prog i) u t (some a) v →
      a = (spec i x).1 ∧ S (spec i x).2 v) :
    rs.map (·.result) = (specRun spec x (rs.map (·.op))).1 ∧ S (specRun spec x (rs.map (·.op))).2 u := by
  let I : List (CallRecord E σ ι ρ) → σ → Prop := fun rs u =>
    rs.map (·.result) = (specRun spec x (rs.map (·.op))).1 ∧ S (specRun spec x (rs.map (·.op))).2 u
  refine Session.invariant (I := I) h hC ⟨rfl, h0⟩ fun rs u i t a v hu hc last => ?_
  obtain ⟨ha, hv⟩ := step _ u i t a v hu.2 hc last
  simp only [I, List.map_append, List.map_cons, List.map_nil]
  rw [specRun_snoc]
  exact ⟨by rw [hu.1, ha], hv⟩

/-- Runs calls one after another, each against a device of its own. -/
def runCalls (prog : ι → Prog E R ρ) :
    List (ι × ((e : E) → σ → R e × σ)) → σ → Option (List (CallRecord E σ ι ρ) × σ)
  | [], s => some ([], s)
  | (i, device) :: rest, s =>
    match (prog i).run device s with
    | (some a, u) => (runCalls prog rest u).map fun x => (⟨i, s, (prog i).calls device s, a, u⟩ :: x.1, x.2)
    | (none, _) => none

theorem runCalls_session {s u v : σ} {rs : List (CallRecord E σ ι ρ)}
    {calls : List (ι × ((e : E) → σ → R e × σ))} {out : List (CallRecord E σ ι ρ)}
    (h : Session M prog s rs u) (hd : ∀ x ∈ calls, ∀ e w, M e w (x.2 e w).1 (x.2 e w).2)
    (run : runCalls prog calls u = some (out, v)) : Session M prog s (rs ++ out) v := by
  induction calls generalizing u rs out with
  | nil =>
    obtain ⟨rfl, rfl⟩ := Prod.mk.inj (Option.some.inj run)
    simpa using h
  | cons x calls ih =>
    have ht := run_calls (hd x List.mem_cons_self) (prog x.1) u
    unfold runCalls at run
    split at run
    · next a u' hx =>
      rw [hx] at ht
      obtain ⟨⟨out', v'⟩, hrun, hout⟩ := Option.map_eq_some_iff.mp run
      obtain ⟨rfl, rfl⟩ := Prod.mk.inj hout
      simpa using ih (h.snoc ht) (fun y hy => hd y (List.mem_cons_of_mem _ hy)) hrun
    · cases run

/-- What an evaluation shows of its records and its last state is shown by a session. -/
theorem runCalls_shows {γ : Type} {f : List (CallRecord E σ ι ρ) × σ → γ} {s : σ} {c : γ}
    {calls : List (ι × ((e : E) → σ → R e × σ))}
    (hd : ∀ x ∈ calls, ∀ e w, M e w (x.2 e w).1 (x.2 e w).2)
    (run : (runCalls prog calls s).map f = some c) :
    ∃ rs v, Session M prog s rs v ∧ f (rs, v) = c := by
  obtain ⟨⟨out, v⟩, hrun, hf⟩ := Option.map_eq_some_iff.mp run
  exact ⟨out, v, runCalls_session Session.nil hd hrun, hf⟩

end

end Stm32NetworkStack.InteractivePrograms

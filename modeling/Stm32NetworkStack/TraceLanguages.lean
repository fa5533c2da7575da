import Stm32NetworkStack.InteractivePrograms

set_option autoImplicit false

/-!
# Languages of call traces

`traced` is a condition on the calls of every execution, in order, together
with its result and last state. `Emits` is its use with a language of blocks:
a program all of whose executions are concatenations of blocks, so that a
sequence of such programs is one too.
-/
namespace Stm32NetworkStack.TraceLanguages
open InteractivePrograms

/-- A concatenation of lists of calls, each of them in `T`. -/
inductive Blocks {E : Type} (T : List E → Prop) : List E → Prop
  | nil : Blocks T []
  | cons {block rest : List E} (head : T block) (tail : Blocks T rest) : Blocks T (block ++ rest)

section
variable {E : Type} {T U : List E → Prop} {t u : List E}

theorem Blocks.single (h : T t) : Blocks T t :=
  List.append_nil t ▸ Blocks.cons h Blocks.nil

theorem Blocks.append (ht : Blocks T t) (hu : Blocks T u) : Blocks T (t ++ u) := by
  induction ht with
  | nil => exact hu
  | cons head tail ih =>
    rw [List.append_assoc]
    exact Blocks.cons head ih

theorem Blocks.flatMap {α : Type} {l : List α} {f : α → List E} (h : ∀ x ∈ l, Blocks T (f x)) :
    Blocks T (l.flatMap f) := by
  induction l with
  | nil => exact Blocks.nil
  | cons x l ih =>
    rw [List.flatMap_cons]
    exact (h x List.mem_cons_self).append (ih fun y hy => h y (List.mem_cons_of_mem x hy))

/-- What holds of the calls of every block holds of all calls. -/
theorem Blocks.forall_mem {A : E → Prop} (h : Blocks T t) (hA : ∀ b, T b → ∀ e ∈ b, A e) :
    ∀ e ∈ t, A e := by
  induction h with
  | nil => exact fun e he => absurd he List.not_mem_nil
  | cons head tail ih =>
    intro e he
    rcases List.mem_append.mp he with he | he
    · exact hA _ head e he
    · exact ih e he

/-- Blocks of which some calls are not looked at; a block may disappear. -/
theorem Blocks.filter {seen : E → Bool} (h : Blocks T t)
    (hb : ∀ b, T b → b.filter seen = [] ∨ U (b.filter seen)) : Blocks U (t.filter seen) := by
  induction h with
  | nil => exact Blocks.nil
  | cons head tail ih =>
    rw [List.filter_append]
    rcases hb _ head with he | hu
    · rw [he]
      exact ih
    · exact Blocks.cons hu ih

end

section
variable {E : Type} {R : E → Type} {σ α β : Type}

/-- `Q` holds of the calls, the result and the last state of every execution. -/
def traced (M : Machine E R σ) : Prog E R α → (List E → Option α → σ → Prop) → σ → Prop
  | .ret a, Q, s => Q [] (some a) s
  | .spin, Q, s => Q [] none s
  | .call e k, Q, s => ∀ r u, M e s r u → traced M (k r) (fun t => Q (e :: t)) u

variable {M : Machine E R σ}

theorem traced_mono {p : Prog E R α} {P Q : List E → Option α → σ → Prop}
    (h : ∀ t o s, P t o s → Q t o s) {s : σ} (hp : traced M p P s) : traced M p Q s := by
  induction p generalizing s P Q with
  | ret a => exact h _ _ _ hp
  | spin => exact h _ _ _ hp
  | call e k ih => exact fun r u hs => ih r (fun t => h (e :: t)) (hp r u hs)

/-- What follows a first part whose calls were `t`. -/
def continues (M : Machine E R σ) (f : α → Prog E R β) (Q : List E → Option β → σ → Prop)
    (t : List E) : Option α → σ → Prop
  | some a, s => traced M (f a) (fun u => Q (t ++ u)) s
  | none, s => Q t none s

theorem traced_bind {p : Prog E R α} {f : α → Prog E R β} {Q : List E → Option β → σ → Prop} {s : σ}
    (h : traced M p (continues M f Q) s) : traced M (p.bind f) Q s := by
  induction p generalizing s Q with
  | ret a => exact h
  | spin => exact h
  | call e k ih =>
    intro r u hs
    refine ih r (traced_mono (fun t o v ht => ?_) (h r u hs))
    cases o with
    | none => exact ht
    | some a => exact ht

theorem traced_sound {p : Prog E R α} {Q : List E → Option α → σ → Prop} {s v : σ}
    {t : List (E × σ)} {o : Option α} (h : traced M p Q s) (run : Exec M p s t o v) :
    Q (t.map Prod.fst) o v := by
  induction run generalizing Q with
  | ret a s => exact h
  | spin s => exact h
  | call step tail ih => exact ih (h _ _ step)

/-- Every execution from `P` is a concatenation of blocks; a result `a` is
returned in `B a`. -/
def Emits (M : Machine E R σ) (T : List E → Prop) (P : σ → Prop) (p : Prog E R α)
    (B : α → σ → Prop) : Prop :=
  ∀ s, P s → traced M p (fun t o v => Blocks T t ∧ ends B (fun _ => True) o v) s

variable {T : List E → Prop} {P : σ → Prop} {B : α → σ → Prop} {D : β → σ → Prop}

theorem Emits.ret {a : α} (h : ∀ s, P s → B a s) : Emits M T P (.ret a) B :=
  fun s hs => ⟨Blocks.nil, h s hs⟩

theorem Emits.spin : Emits M T P (.spin : Prog E R α) B :=
  fun _ _ => ⟨Blocks.nil, trivial⟩

theorem Emits.conseq {P' : σ → Prop} {B' : α → σ → Prop} {p : Prog E R α} (h : Emits M T P p B)
    (hP : ∀ s, P' s → P s) (hB : ∀ a s, B a s → B' a s) : Emits M T P' p B' := by
  refine fun s hs => traced_mono (fun t o v ht => ⟨ht.1, ?_⟩) (h s (hP s hs))
  cases o with
  | none => exact trivial
  | some a => exact hB a v ht.2

theorem Emits.bind {p : Prog E R α} {f : α → Prog E R β} (hp : Emits M T P p B)
    (hf : ∀ a, Emits M T (B a) (f a) D) : Emits M T P (p.bind f) D := by
  refine fun s hs => traced_bind (traced_mono (fun t o u h => ?_) (hp s hs))
  cases o with
  | none => exact ⟨h.1, trivial⟩
  | some a => exact traced_mono (fun t' o v h' => ⟨h.1.append h'.1, h'.2⟩) (hf a u h.2)

theorem Emits.sound {p : Prog E R α} {s v : σ} {t : List (E × σ)} {o : Option α}
    (h : Emits M T P p B) (hs : P s) (run : Exec M p s t o v) :
    Blocks T (t.map Prod.fst) ∧ ends B (fun _ => True) o v :=
  traced_sound (h s hs) run

end

end Stm32NetworkStack.TraceLanguages

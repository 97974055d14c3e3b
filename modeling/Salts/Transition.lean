import Mathlib.Logic.Relation

/-!
Labelled transition systems given by a partial step function.  A label is one atomic action (a
locked region, one iteration of a loop, one callback), so a list of labels is an interleaving, and
a statement about every reachable state is a statement about every interleaving.
-/

namespace Transition

variable {σ ι : Type*}

/-- Runs the actions of a list one after the other; `none` when one of them is not enabled. -/
def exec (step : σ → ι → Option σ) : σ → List ι → Option σ
  | s, [] => some s
  | s, a :: as => (step s a).bind fun t => exec step t as

/-- The states reached from an initial one by actions that each meet `ok` where they are taken. -/
inductive Reach (step : σ → ι → Option σ) (init : σ → Prop) (ok : σ → ι → Prop) : σ → Prop
  | start {s : σ} : init s → Reach step init ok s
  | next {s t : σ} {a : ι} :
      Reach step init ok s → ok s a → step s a = some t → Reach step init ok t

def anyAction (_ : σ) (_ : ι) : Prop := True

variable {step : σ → ι → Option σ} {init : σ → Prop} {ok ok' : σ → ι → Prop}

@[simp] theorem exec_nil (s : σ) : exec step s [] = some s := rfl

@[simp] theorem exec_cons (s : σ) (a : ι) (as : List ι) :
    exec step s (a :: as) = (step s a).bind fun t => exec step t as := rfl

theorem exec_append (s : σ) (as bs : List ι) :
    exec step s (as ++ bs) = (exec step s as).bind fun t => exec step t bs := by
  induction as generalizing s with
  | nil => rfl
  | cons a as ih =>
    cases hs : step s a with
    | none => simp [hs]
    | some t => simp [hs, ih]

variable {s t : σ}

/-- What holds initially and is kept by every admitted action holds in every reachable state. -/
theorem Reach.invariant {I : σ → Prop} (h0 : ∀ s, init s → I s)
    (hstep : ∀ s a t, I s → ok s a → step s a = some t → I t)
    (hs : Reach step init ok s) : I s := by
  induction hs with
  | start h => exact h0 _ h
  | next _ hok ha ih => exact hstep _ _ _ ih hok ha

theorem Reach.mono (h : ∀ s a, ok s a → ok' s a) (hs : Reach step init ok s) :
    Reach step init ok' s := by
  induction hs with
  | start h0 => exact .start h0
  | next _ hok ha ih => exact .next ih (h _ _ hok) ha

theorem Reach.mono_init {init' : σ → Prop} (h : ∀ s, init s → init' s)
    (hs : Reach step init ok s) : Reach step init' ok s := by
  induction hs with
  | start h0 => exact .start (h _ h0)
  | next _ hok ha ih => exact .next ih hok ha

variable {as : List ι}

theorem Reach.exec (hs : Reach step init ok s)
    (hok : ∀ a ∈ as, ∀ u, ok u a) (he : exec step s as = some t) : Reach step init ok t := by
  induction as generalizing s with
  | nil => simpa [← Option.some.inj he] using hs
  | cons a as ih =>
    rw [exec_cons, Option.bind_eq_some_iff] at he
    obtain ⟨u,hu,he⟩ := he
    exact ih (.next hs (hok a (by simp) s) hu) (fun b hb => hok b (by simp [hb])) he

/-- Evaluates a run of given actions: a property of its last state that is decided there, together
with one that follows from the run. -/
theorem exec_shows {P Q : σ → Prop} [DecidablePred Q] (step : σ → ι → Option σ) (s : σ)
    (as : List ι) (h : (exec step s as).any (fun t => decide (Q t)) = true)
    (hP : ∀ t, exec step s as = some t → P t) : ∃ t, P t ∧ Q t := by
  obtain ⟨t,ht,hQ⟩ := (Option.any_eq_true _ _).1 h
  exact ⟨t,hP t ht,of_decide_eq_true hQ⟩

theorem exec_shows_and {Q R : σ → Prop} [DecidablePred Q]
    (h : (exec step s as).any (fun t => decide (Q t)) = true)
    (hR : ∀ t, exec step s as = some t → Q t → R t) : ∃ t, exec step s as = some t ∧ Q t ∧ R t := by
  obtain ⟨t,ht,hQ⟩ := exec_shows (P := fun t => exec step s as = some t) step s as h fun _ ht => ht
  exact ⟨t,ht,hQ,hR t ht hQ⟩

def admits (step : σ → ι → Option σ) (ok : σ → ι → Prop) [∀ s a, Decidable (ok s a)] :
    σ → List ι → Bool
  | _, [] => true
  | s, a :: as => decide (ok s a) && (step s a).all fun t => admits step ok t as

theorem Reach.exec_admits [∀ s a, Decidable (ok s a)]
    (hs : Reach step init ok s) (hok : admits step ok s as = true)
    (he : Transition.exec step s as = some t) : Reach step init ok t := by
  induction as generalizing s with
  | nil => simpa [← Option.some.inj he] using hs
  | cons a as ih =>
    rw [exec_cons, Option.bind_eq_some_iff] at he
    obtain ⟨u,hu,he⟩ := he
    simp only [admits, hu, Bool.and_eq_true, decide_eq_true_eq] at hok
    exact ih (.next hs hok.1 hu) hok.2 he

end Transition

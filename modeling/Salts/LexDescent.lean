import Mathlib.Data.DFinsupp.WellFounded

/-!
Descent along a vector of counters.  A step lowers the counter at one place, may only lower those
before it, and does what it likes with those behind it; there is no endless run of such steps.
-/

namespace LexDescent

/-- `f` lies below `g`: lower at a place up to `n`, and nowhere higher before it. -/
def Below (n : Nat) (f g : Nat → Nat) : Prop :=
  ∃ k ≤ n, (∀ i < k, f i ≤ g i) ∧ f k < g k

theorem Below.lex {n : Nat} {f g : Nat → Nat} (h : Below n f g) :
    Pi.Lex (· < ·) (fun {_} => (· < ·)) (fun i : Fin (n + 1) => f i) fun i => g i := by
  obtain ⟨k,hk,hle,hlt⟩ := h
  -- the least place where `f` is below `g`
  have hex : ∃ i, f i < g i := ⟨k,hlt⟩
  have hfirst := Nat.find_min' hex hlt
  refine ⟨⟨Nat.find hex,by omega⟩,fun j hj => ?_,Nat.find_spec hex⟩
  have hjlt : (j) < Nat.find hex := hj
  exact Nat.le_antisymm (hle j (by omega)) (Nat.le_of_not_lt (Nat.find_min hex hjlt))

theorem below_wellFounded (n : Nat) : WellFounded (Below n) :=
  Subrelation.wf Below.lex
    (InvImage.wf _ (Pi.Lex.wellFounded (· < ·) fun _ => Nat.lt_wfRel.wf))

end LexDescent

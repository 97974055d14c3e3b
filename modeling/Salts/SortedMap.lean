import Mathlib.Data.List.Pairwise
import Mathlib.Data.Nat.Basic
import Mathlib.Order.Compare

/-! The binary search for the first index at which a predicate no longer holds. -/

namespace BinarySearch

def lowerBound (before : Nat → Bool) (left right : Nat) : Nat :=
  if left < right then
    let middle := left + (right - left) / 2
    if before middle then lowerBound before (middle + 1) right
    else lowerBound before left middle
  else left
termination_by right - left

/-- The search finds the end of the indices at which the predicate holds. -/
theorem lowerBound_eq {before : Nat → Bool} {left right k : Nat} (hl : left ≤ k) (hr : k ≤ right)
    (hbefore : ∀ i < k, before i = true) (hafter : ∀ i, k ≤ i → i < right → before i = false) :
    lowerBound before left right = k := by
  induction left, right using lowerBound.induct before with
  | case1 left right hlt middle hmiddle ih =>
    rw [lowerBound, if_pos hlt]
    simp only [show left+(right-left) / 2 = middle from rfl, hmiddle]
    refine ih ?_ hr hafter
    by_contra hgt
    rw [hafter middle (by omega) (by omega)] at hmiddle
    cases hmiddle
  | case2 left right hlt middle hmiddle ih =>
    rw [lowerBound, if_pos hlt]
    simp only [show left+(right-left) / 2 = middle from rfl, hmiddle]
    refine ih hl ?_ fun i hk hi => hafter i hk (by omega)
    by_contra hgt
    exact hmiddle (hbefore middle (by omega))
  | case3 left right hge =>
    rw [lowerBound, if_neg hge]
    omega

end BinarySearch

/-! ### Sorted association lists -/

namespace SortedMap

open Std

section Places

variable {α : Type}

variable {A l : List α} {n : Nat}

section

variable (h : A.length = n)

include h

theorem getElem?_mid (x : α) (B : List α) : (A ++ x :: B)[n]? = some x := by
  rw [List.getElem?_append_right h.le, h, Nat.sub_self, List.getElem?_cons_zero]

theorem set_mid (x y : α) (B : List α) : (A ++ x :: B).set n y = A ++ y :: B := by
  rw [List.set_append_right _ _ h.le, h, Nat.sub_self, List.set_cons_zero]

theorem insertIdx_mid (x : α) (B : List α) : (A ++ B).insertIdx n x = A ++ x :: B := by
  subst h
  induction A with
  | nil => cases B <;> rfl
  | cons a A ih => exact congrArg (a :: ·) ih

theorem eraseIdx_mid (x : α) (B : List α) : (A ++ x :: B).eraseIdx n = A ++ B := by
  rw [List.eraseIdx_append_of_length_le h.le, h, Nat.sub_self, List.eraseIdx_cons_zero]

theorem getElem?_mid_succ (x y : α) (B : List α) : (A ++ x :: y :: B)[n + 1]? = some y := by
  rw [List.append_cons]
  exact getElem?_mid (by simp [h]) y B

theorem set_mid_succ (x y z : α) (B : List α) :
    (A ++ x :: y :: B).set (n + 1) z = A ++ x :: z :: B := by
  rw [List.append_cons, set_mid (by simp [h]), ← List.append_cons]

theorem insertIdx_mid_succ (x y : α) (B : List α) :
    (A ++ x :: B).insertIdx (n + 1) y = A ++ x :: y :: B := by
  rw [List.append_cons, insertIdx_mid (by simp [h]), ← List.append_cons]

theorem eraseIdx_mid_succ (x y : α) (B : List α) :
    (A ++ x :: y :: B).eraseIdx (n + 1) = A ++ x :: B := by
  rw [List.append_cons, eraseIdx_mid (by simp [h]), ← List.append_cons]

end

theorem exists_append_of_le (h : n ≤ l.length) : ∃ A B, l = A ++ B ∧ A.length = n :=
  ⟨l.take n,l.drop n,(List.take_append_drop n l).symm,List.length_take_of_le h⟩

theorem exists_mid_of_lt (h : n < l.length) : ∃ A x B, l = A ++ x :: B ∧ A.length = n := by
  obtain ⟨A,B,rfl,hA⟩ := exists_append_of_le h.le
  cases B with
  | nil =>
    rw [List.append_nil] at h
    omega
  | cons x B => exact ⟨A,x,B,rfl,hA⟩

end Places

variable {α K V : Type} {key : α → K} {cmp : K → K → Ordering}

def Ordered (key : α → K) (cmp : K → K → Ordering) (l : List α) : Prop :=
  l.Pairwise fun a b => cmp (key a) (key b) = .lt

def Before (key : α → K) (cmp : K → K → Ordering) (l : List α) (k : K) : Prop :=
  ∀ a ∈ l, cmp (key a) k = .lt

def After (key : α → K) (cmp : K → K → Ordering) (k : K) (l : List α) : Prop :=
  ∀ a ∈ l, cmp k (key a) = .lt

variable {A B l : List α} {k k' : K} {a : α}

theorem ordered_mid [TransCmp cmp] :
    Ordered key cmp (A ++ a :: B) ↔ Ordered key cmp A ∧ Ordered key cmp B ∧
      Before key cmp A (key a) ∧ After key cmp (key a) B := by
  unfold Ordered Before After
  rw [List.pairwise_append, List.pairwise_cons]
  constructor
  · intro ⟨hA,⟨haB,hB⟩,hAB⟩
    exact ⟨hA,hB,fun x hx => hAB x hx a List.mem_cons_self,haB⟩
  · intro ⟨hA,hB,hAa,haB⟩
    refine ⟨hA,⟨haB,hB⟩,fun x hx y hy => ?_⟩
    rcases List.mem_cons.1 hy with rfl | hy
    · exact hAa x hx
    · exact TransCmp.lt_trans (hAa x hx) (haB y hy)

theorem Ordered.append (h : Ordered key cmp (A ++ B)) : Ordered key cmp A ∧ Ordered key cmp B :=
  ⟨(List.pairwise_append.1 h).1,(List.pairwise_append.1 h).2.1⟩

theorem Ordered.drop_mid (h : Ordered key cmp (A ++ a :: B)) : Ordered key cmp (A ++ B) :=
  h.sublist ((List.sublist_cons_self a B).append_left A)

theorem Ordered.insert_mid [TransCmp cmp] (h : Ordered key cmp (A ++ B))
    (hA : Before key cmp A (key a)) (hB : After key cmp (key a) B) :
    Ordered key cmp (A ++ a :: B) :=
  ordered_mid.2 ⟨h.append.1,h.append.2,hA,hB⟩

theorem Ordered.split_unique {A' B' : List α} {a a' : α} [TransCmp cmp]
    (h : Ordered key cmp (A ++ a :: B)) (heq : A ++ a :: B = A' ++ a' :: B')
    (hkey : cmp (key a) (key a') = .eq) : A = A' ∧ a = a' ∧ B = B' := by
  induction A generalizing A' with
  | nil =>
    cases A' with
    | nil => exact ⟨rfl,List.cons.inj heq⟩
    | cons x A' =>
      obtain ⟨rfl,htail⟩ := List.cons.inj heq
      have hlt : cmp (key a) (key a') = .lt :=
        (List.pairwise_cons.1 h).1 a' (htail ▸ List.mem_append_right A' List.mem_cons_self)
      rw [hkey] at hlt
      cases hlt
  | cons x A ih =>
    cases A' with
    | nil =>
      obtain ⟨rfl,htail⟩ := List.cons.inj heq
      have hlt : cmp (key x) (key a) = .lt :=
        (List.pairwise_cons.1 h).1 a (List.mem_append_right A List.mem_cons_self)
      rw [OrientedCmp.eq_symm hkey] at hlt
      cases hlt
    | cons y A' =>
      obtain ⟨rfl,htail⟩ := List.cons.inj heq
      obtain ⟨hA,ha,hB⟩ := ih (List.pairwise_cons.1 h).2 htail
      exact ⟨congrArg (x :: ·) hA,ha,hB⟩

theorem Before.of_eq [TransCmp cmp] (h : Before key cmp l k)
    (heq : cmp k k' = .eq) : Before key cmp l k' :=
  fun a ha => TransCmp.lt_of_lt_of_eq (h a ha) heq

theorem After.of_eq [TransCmp cmp] (h : After key cmp k l)
    (heq : cmp k' k = .eq) : After key cmp k' l :=
  fun a ha => TransCmp.lt_of_eq_of_lt heq (h a ha)

theorem Before.ne (h : Before key cmp l k) : ∀ a ∈ l, cmp (key a) k ≠ .eq :=
  fun a ha heq => by rw [h a ha] at heq; cases heq

theorem After.ne [TransCmp cmp] (h : After key cmp k l) : ∀ a ∈ l, cmp (key a) k ≠ .eq :=
  fun a ha heq => by rw [OrientedCmp.gt_of_lt (h a ha)] at heq; cases heq

def lowerBound (key : α → K) (cmp : K → K → Ordering) (l : List α) (k : K) : Nat :=
  BinarySearch.lowerBound (fun i => (l[i]?.map fun a => cmp (key a) k == .lt).getD false) 0 l.length

theorem lowerBound_append (hA : Before key cmp A k)
    (hB : ∀ b ∈ B, cmp (key b) k ≠ .lt) : lowerBound key cmp (A ++ B) k = A.length := by
  apply BinarySearch.lowerBound_eq (Nat.zero_le _) (by rw [List.length_append]; omega)
  · intro i hi
    rw [List.getElem?_append_left hi, List.getElem?_eq_getElem hi]
    simp [hA _ (List.getElem_mem hi)]
  · intro i hge hlt
    rw [List.length_append] at hlt
    rw [List.getElem?_append_right hge, List.getElem?_eq_getElem (by omega)]
    simpa using hB _ (List.getElem_mem (by omega))

theorem After.not_lt [TransCmp cmp] (h : After key cmp k l) : ∀ a ∈ l, cmp (key a) k ≠ .lt :=
  fun a ha heq => by rw [OrientedCmp.gt_of_lt (h a ha)] at heq; cases heq

theorem Ordered.cut [TransCmp cmp] (h : Ordered key cmp l) (k : K) :
    ∃ A B, l = A ++ B ∧ Before key cmp A k ∧
      (After key cmp k B ∨ ∃ b B', B = b :: B' ∧ cmp (key b) k = .eq ∧ After key cmp k B') := by
  induction l with
  | nil => exact ⟨[],[],rfl,nofun,.inl nofun⟩
  | cons a l ih =>
    obtain ⟨hhead,htail⟩ := List.pairwise_cons.1 h
    cases hcmp : cmp (key a) k with
    | lt =>
      obtain ⟨A,B,rfl,hA,hB⟩ := ih htail
      exact ⟨a :: A,B,rfl,List.forall_mem_cons.2 ⟨hcmp,hA⟩,hB⟩
    | eq =>
      exact ⟨[],a :: l,rfl,nofun,.inr ⟨a,l,rfl,hcmp,fun b hb =>
        TransCmp.lt_of_eq_of_lt (OrientedCmp.eq_symm hcmp) (hhead b hb)⟩⟩
    | gt =>
      have hlt := OrientedCmp.lt_of_gt hcmp
      exact ⟨[],a :: l,rfl,nofun,.inl (List.forall_mem_cons.2
        ⟨hlt,fun b hb => TransCmp.lt_trans hlt (hhead b hb)⟩)⟩

def put (cmp : K → K → Ordering) (k : K) (v : V) : List (K × V) → List (K × V)
  | [] => [(k, v)]
  | p :: rest =>
    match cmp p.1 k with
    | .lt => p :: put cmp k v rest
    | .eq => (p.1, v) :: rest
    | .gt => (k, v) :: p :: rest

def remove (cmp : K → K → Ordering) (k : K) (l : List (K × V)) : List (K × V) :=
  l.filter fun p => cmp p.1 k != .eq

variable {A B : List (K × V)}

theorem put_new (v : V) [TransCmp cmp]
    (hA : Before Prod.fst cmp A k) (hB : After Prod.fst cmp k B) :
    put cmp k v (A ++ B) = A ++ (k, v) :: B := by
  induction A with
  | nil =>
    cases B with
    | nil => rfl
    | cons b B =>
      have hgt := OrientedCmp.gt_of_lt (hB b List.mem_cons_self)
      simp [put, hgt]
  | cons a A ih =>
    obtain ⟨ha,hA⟩ := List.forall_mem_cons.1 hA
    simp [put, ha, ih hA]

theorem put_found (v v' : V) (hA : Before Prod.fst cmp A k) (heq : cmp k' k = .eq) :
    put cmp k v (A ++ (k', v') :: B) = A ++ (k', v) :: B := by
  induction A with
  | nil => simp [put, heq]
  | cons a A ih =>
    obtain ⟨ha,hA⟩ := List.forall_mem_cons.1 hA
    simp [put, ha, ih hA]

theorem remove_absent {l : List (K × V)} (h : ∀ p ∈ l, cmp p.1 k ≠ .eq) : remove cmp k l = l :=
  List.filter_eq_self.2 fun p hp => by simpa using h p hp

theorem remove_found {p : K × V} (heq : cmp p.1 k = .eq) (hA : ∀ q ∈ A, cmp q.1 k ≠ .eq)
    (hB : ∀ q ∈ B, cmp q.1 k ≠ .eq) : remove cmp k (A ++ p :: B) = A ++ B := by
  have hp : (cmp p.1 k != .eq) = false := by simp [heq]
  rw [remove, List.filter_append, List.filter_cons, hp]
  exact congrArg₂ _ (remove_absent hA) (remove_absent hB)

end SortedMap

import Mathlib.Data.List.Basic

/-!
Left folds with an operation that may fail, and their evaluation in chunks.  For an operation that is
associative, failures included, folding every chunk on its own and then folding the results in the
order of the chunks gives the left fold of the whole list, and fails exactly when that one does.
-/

namespace AssocFold

variable {α : Type*} (op : α → α → Option α)

def foldFrom : α → List α → Option α
  | a, [] => some a
  | a, v :: vs => (op a v).bind fun b => foldFrom b vs

def fold : List α → Option α
  | [] => none
  | v :: vs => foldFrom op v vs

def mergeFrom : α → List (Option α) → Option α
  | a, [] => some a
  | a, c :: cs => c.bind fun v => (op a v).bind fun b => mergeFrom b cs

/-- Both ways of combining three values agree, also on whether they fail. -/
def Assoc : Prop := ∀ a b c, (op a b).bind (fun x => op x c) = (op b c).bind fun y => op a y

variable {op}

theorem bind_comm {β γ δ : Type*} (x : Option β) (y : Option γ) (f : β → γ → Option δ) :
    (x.bind fun b => y.bind fun c => f b c) = y.bind fun c => x.bind fun b => f b c := by
  cases x <;> cases y <;> rfl

theorem foldFrom_cons (h : Assoc op) (a v : α) (vs : List α) :
    foldFrom op a (v :: vs) = (foldFrom op v vs).bind fun c => op a c := by
  induction vs generalizing a v with
  | nil => simp [foldFrom]
  | cons w vs ih =>
    calc foldFrom op a (v :: w :: vs)
        = (op a v).bind fun x => (foldFrom op w vs).bind fun c => op x c := by
          exact Option.bind_congr fun x _ => ih x w
      _ = (foldFrom op w vs).bind fun c => (op a v).bind fun x => op x c := bind_comm _ _ _
      _ = (foldFrom op w vs).bind fun c => (op v c).bind fun y => op a y :=
          Option.bind_congr fun c _ => h a v c
      _ = ((foldFrom op w vs).bind fun c => op v c).bind fun y => op a y := by
          rw [Option.bind_assoc]
      _ = (foldFrom op v (w :: vs)).bind fun y => op a y := by rw [ih v w]

theorem foldFrom_append (a : α) (xs ys : List α) :
    foldFrom op a (xs ++ ys) = (foldFrom op a xs).bind fun b => foldFrom op b ys := by
  induction xs generalizing a with
  | nil => rfl
  | cons v xs ih =>
    rw [List.cons_append, foldFrom, foldFrom, Option.bind_assoc]
    exact Option.bind_congr fun b _ => ih b

theorem foldFrom_chunk (h : Assoc op) (b : α) {ys : List α} (hys : ys ≠ []) :
    foldFrom op b ys = (fold op ys).bind fun v => op b v := by
  cases ys with
  | nil => exact absurd rfl hys
  | cons v ys => exact foldFrom_cons h b v ys

theorem foldFrom_flatten (h : Assoc op) (a : α) (chunks : List (List α))
    (hne : ∀ c ∈ chunks, c ≠ []) :
    foldFrom op a chunks.flatten = mergeFrom op a (chunks.map (fold op)) := by
  induction chunks generalizing a with
  | nil => rfl
  | cons c chunks ih =>
    have hc : c ≠ [] := hne c (by simp)
    rw [List.flatten_cons, foldFrom_append, foldFrom_chunk h a hc, Option.bind_assoc]
    refine Option.bind_congr fun v _ => Option.bind_congr fun b _ => ?_
    exact ih b fun d hd => hne d (by simp [hd])

theorem fold_flatten (h : Assoc op) (c : List α) (chunks : List (List α))
    (hc : c ≠ []) (hne : ∀ d ∈ chunks, d ≠ []) :
    fold op (c :: chunks).flatten =
      (fold op c).bind fun a => mergeFrom op a (chunks.map (fold op)) := by
  cases c with
  | nil => exact absurd rfl hc
  | cons v vs =>
    rw [List.flatten_cons, List.cons_append, fold, foldFrom_append]
    exact Option.bind_congr fun b _ => foldFrom_flatten h b chunks hne

theorem mergeFrom_none (a : α) {results : List (Option α)} (h : none ∈ results) :
    mergeFrom op a results = none := by
  induction results generalizing a with
  | nil => cases h
  | cons c results ih =>
    rcases List.mem_cons.1 h with hc | hc
    · rw [← hc]
      rfl
    · rw [mergeFrom]
      simp [ih _ hc]

theorem fold_flatten_none (h : Assoc op) {chunks : List (List α)} (hne : ∀ d ∈ chunks, d ≠ [])
    {d : List α} (hd : d ∈ chunks) (hnone : fold op d = none) : fold op chunks.flatten = none := by
  cases chunks with
  | nil => cases hd
  | cons c chunks =>
    rw [fold_flatten h c chunks (hne c (by simp)) fun e he => hne e (by simp [he])]
    rcases List.mem_cons.1 hd with rfl | hd
    · rw [hnone]
      rfl
    · have hm : none ∈ chunks.map (fold op) := List.mem_map.2 ⟨d,hd,hnone⟩
      simp [mergeFrom_none _ hm]

end AssocFold

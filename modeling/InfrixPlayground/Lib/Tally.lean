import Mathlib.Data.List.Basic

/-!
# `Lib.Tally` — counters that are incremented by threads

A thread increments a counter at a step of its own, so the counter is right only against the point each
thread has come to. `tally f l name` is the number of threads that have counted under `name`, where `f`
reads off a thread what it has counted under so far; a step of one thread leaves it, or adds one under one
name.
-/

variable {α ν : Type*} [DecidableEq ν] {f : α → List ν}

/-- The number of threads that have counted under a name. -/
def tally (f : α → List ν) (l : List α) (name : ν) : Nat := l.countP fun a => decide (name ∈ f a)

@[simp] theorem tally_nil (name : ν) : tally f [] name = 0 := rfl

/-- A thread that has counted nothing yet does not count. -/
theorem tally_concat {l : List α} {a : α} (h : f a = []) (name : ν) : tally f (l ++ [a]) name = tally f l name := by
  rw [tally, List.countP_append, List.countP_singleton, h]
  rfl

theorem tally_set_eq {l : List α} {i : Nat} {a b : α} (ha : l[i]? = some a) (name : ν) :
    tally f (l.set i b) name + (decide (name ∈ f a)).toNat = tally f l name + (decide (name ∈ f b)).toNat := by
  obtain ⟨hlt, rfl⟩ := List.getElem?_eq_some_iff.mp ha
  have hle : (if decide (name ∈ f l[i]) = true then 1 else 0) ≤ tally f l name :=
    List.boole_getElem_le_countP (p := fun a => decide (name ∈ f a)) hlt
  rw [tally, List.countP_set hlt, ← tally]
  by_cases hold : name ∈ f l[i] <;> by_cases hnew : name ∈ f b <;>
    simp only [hold, hnew, decide_true, decide_false, Bool.toNat_true, Bool.toNat_false, if_true,
      Bool.false_eq_true, if_false] at hle ⊢ <;> omega

/-- A step that counts nothing. -/
theorem tally_set_same {l : List α} {i : Nat} {a b : α} (ha : l[i]? = some a) (h : f b = f a) (name : ν) :
    tally f (l.set i b) name = tally f l name := by
  have hset := tally_set_eq (f := f) (b := b) ha name
  rw [h] at hset
  exact Nat.add_right_cancel hset

/-- A step that counts under a name for the first time. -/
theorem tally_set_gain {l : List α} {i : Nat} {a b : α} (ha : l[i]? = some a) {n : ν} (hnew : n ∉ f a)
    (h : f b = f a ++ [n]) (name : ν) :
    tally f (l.set i b) name = tally f l name + (decide (name = n)).toNat := by
  have hset := tally_set_eq (f := f) (b := b) ha name
  rw [h] at hset
  by_cases hname : name = n
  · subst hname
    simp only [hnew, List.mem_append, List.mem_singleton, or_true, decide_true, decide_false, Bool.toNat_true,
      Bool.toNat_false] at hset ⊢
    exact hset
  · simp only [List.mem_append, List.mem_singleton, hname, or_false, decide_false, Bool.toNat_false] at hset ⊢
    exact Nat.add_right_cancel hset

/-- Threads that count at two points, and never at both. -/
theorem tally_append {g h : α → List ν} (hf : ∀ a, f a = g a ++ h a) (honce : ∀ a, g a = [] ∨ h a = [])
    (l : List α) (name : ν) : tally f l name = tally g l name + tally h l name := by
  induction l with
  | nil => rfl
  | cons a l ih =>
      unfold tally at ih ⊢
      rw [List.countP_cons, List.countP_cons, List.countP_cons, ih, hf a]
      rcases honce a with hnone | hnone <;> rw [hnone] <;> simp <;> omega

theorem tally_eq_countP {l : List α} {name : ν} {p : α → Bool} (h : ∀ a, name ∈ f a ↔ p a = true) :
    tally f l name = l.countP p :=
  List.countP_congr fun a _ => by rw [decide_eq_true_eq]; exact h a

theorem tally_eq_zero {l : List α} {name : ν} (h : ∀ a, name ∉ f a) : tally f l name = 0 :=
  List.countP_eq_zero.mpr fun a _ => by rw [decide_eq_true_eq]; exact h a

/-! ## What threads leave behind -/

/-- A step that leaves nothing new. -/
theorem filterMap_set_same {β : Type*} {f : α → Option β} {l : List α} {i : Nat} {a b : α} (ha : l[i]? = some a)
    (h : f b = f a) : (l.set i b).filterMap f = l.filterMap f := by
  obtain ⟨hlt, rfl⟩ := List.getElem?_eq_some_iff.mp ha
  calc (l.set i b).filterMap f
      = (l.take i).filterMap f ++ (b :: l.drop (i + 1)).filterMap f := by
        rw [List.set_eq_take_append_cons_drop, if_pos hlt, List.filterMap_append]
    _ = (l.take i).filterMap f ++ (l[i] :: l.drop (i + 1)).filterMap f := by
        rw [List.filterMap_cons, List.filterMap_cons, h]
    _ = l.filterMap f := by
        rw [← List.filterMap_append, List.getElem_cons_drop, List.take_append_drop]

/-- A step that leaves its first thing. -/
theorem filterMap_set_new {β : Type*} {f : α → Option β} {l : List α} {i : Nat} {a b : α} {v : β}
    (ha : l[i]? = some a) (hnone : f a = none) (h : f b = some v) :
    ((l.set i b).filterMap f).Perm (l.filterMap f ++ [v]) := by
  obtain ⟨hlt, rfl⟩ := List.getElem?_eq_some_iff.mp ha
  have hbefore : l.filterMap f = (l.take i).filterMap f ++ (l.drop (i + 1)).filterMap f := by
    conv_lhs => rw [← List.take_append_drop i l, ← List.getElem_cons_drop hlt]
    rw [List.filterMap_append, List.filterMap_cons, hnone]
  have hafter : (l.set i b).filterMap f = (l.take i).filterMap f ++ v :: (l.drop (i + 1)).filterMap f := by
    rw [List.set_eq_take_append_cons_drop, if_pos hlt, List.filterMap_append, List.filterMap_cons, h]
  rw [hbefore, hafter]
  exact List.perm_middle.trans (List.perm_append_singleton v _).symm

import Cmm.Node.Basic

/-!
# Heights

The height of an expression is the length of the longest chain of expressions nested in one
another, and an expression within another one is no higher.
-/

namespace Cmm.Node

/-! ## Chains -/

/-- An expression right below a tree, or in a list of expressions right below it. -/
inductive SubExpression (m : Node) : Node → Prop
  | slot {n : Node} {slot : String} (h : (slot, m) ∈ n.slots) (hm : m.isExpression = true) :
    SubExpression m n
  | list {n : Node} {slot : String} {items : List Node} {p : Position}
      (h : (slot, .list .expressions items p) ∈ n.slots)
      (hm : SubExpression m (.list .expressions items p)) : SubExpression m n

/-- Expressions from one down, each of them a part of the one before, and their number. -/
inductive Chain : Node → Nat → Prop
  | one {n : Node} (h : n.isExpression = true) : Chain n 1
  | cons {n m : Node} {k : Nat} (h : n.isExpression = true) (hsub : m.SubExpression n)
      (hrest : Chain m k) : Chain n (k + 1)

variable {m n child : Node} {slot : String} {items : List Node} {p : Position}

theorem mem_of_mem_slots_list {cls : ListClass} (h : (slot, child) ∈ (list cls items p).slots) :
    child ∈ items := by
  simp only [slots, List.mem_map, Prod.mk.injEq, Prod.exists] at h
  obtain ⟨item, i, hi, -, rfl⟩ := h
  have hitem := List.mem_zipIdx hi
  simp_all

theorem exists_mem_slots_list (cls : ListClass) (p : Position) (h : child ∈ items) :
    ∃ slot, (slot, child) ∈ (list cls items p).slots := by
  obtain ⟨i, hi, rfl⟩ := List.getElem_of_mem h
  refine ⟨_, List.mem_map.2 ⟨(items[i], i), ?_, rfl⟩⟩
  simp [List.mem_zipIdx_iff_getElem?, hi]

theorem height_le_greatestHeight (h : child ∈ items) : child.height ≤ greatestHeight items := by
  induction items with
  | nil => cases h
  | cons item rest ih =>
      rw [greatestHeight]
      rcases List.mem_cons.1 h with rfl | h
      · exact Nat.le_max_left _ _
      · exact Nat.le_trans (ih h) (Nat.le_max_right _ _)

theorem height_lt_of_mem_slots (hn : n.isExpression = true) (h : (slot, child) ∈ n.slots) :
    child.height < n.height := by
  cases n with
  | dot | assign | call | unary | binary =>
      simp only [slots, List.mem_cons, List.not_mem_nil, Prod.mk.injEq, or_false] at h
      simp only [height]
      grind
  | base | number | string | truth | name => cases h
  | _ => cases hn

theorem SubExpression.height_le_of_list (h : m.SubExpression n) (hn : n = .list .expressions items p) :
    m.height ≤ greatestHeight items := by
  induction h generalizing items p with
  | slot h _ =>
      subst hn
      exact height_le_greatestHeight (mem_of_mem_slots_list h)
  | @list n slot items' p' h _ ih =>
      subst hn
      have hitem := height_le_greatestHeight (mem_of_mem_slots_list h)
      simp only [height] at hitem
      exact Nat.le_trans (ih rfl) hitem

theorem SubExpression.height_lt (h : m.SubExpression n) (hn : n.isExpression = true) :
    m.height < n.height := by
  cases h with
  | slot h _ => exact height_lt_of_mem_slots hn h
  | list h hm =>
      have hlist := height_lt_of_mem_slots hn h
      simp only [height] at hlist
      exact Nat.lt_of_le_of_lt (hm.height_le_of_list rfl) hlist

theorem one_le_height (h : n.isExpression = true) : 1 ≤ n.height := by
  cases n with
  | base cls p =>
      cases cls with
      | expression => exact Nat.le_refl 1
      | _ => cases h
  | number | string | truth | name => exact Nat.le_refl 1
  | dot | assign | call | unary | binary => exact Nat.le_add_right 1 _
  | _ => cases h

/-- No chain is longer than the height. -/
theorem Chain.le_height {k : Nat} (h : Chain n k) : k ≤ n.height := by
  induction h with
  | one h => exact one_le_height h
  | cons h hsub _ ih => exact Nat.lt_of_le_of_lt ih (hsub.height_lt h)

def ChainBelow (n : Node) (k : Nat) : Prop := k = 0 ∨ ∃ m, SubExpression m n ∧ Chain m k

namespace ChainBelow

variable {k l : Nat}

theorem max (hk : ChainBelow n k) (hl : ChainBelow n l) : ChainBelow n (max k l) := by
  rcases Nat.le_total k l with h | h
  · rwa [Nat.max_eq_right h]
  · rwa [Nat.max_eq_left h]

theorem chain (h : ChainBelow n k) (hn : n.isExpression = true) : Chain n (1 + k) := by
  rw [Nat.add_comm]
  rcases h with rfl | ⟨m, hm, hchain⟩
  · exact .one hn
  · exact .cons hn hm hchain

end ChainBelow

/-- An expression begins a chain of the length of its height, if the chains below it are as long as
what stands in its slots is high. -/
theorem chain_of_forall_slots (hn : n.isExpression = true)
    (h : ∀ slot child, (slot, child) ∈ n.slots → ChainBelow n child.height) :
    Chain n n.height := by
  cases n with
  | base cls p =>
      cases cls with
      | expression => exact .one hn
      | _ => cases hn
  | number | string | truth | name => exact .one hn
  | dot a b p => exact ((h "loc" a (by simp [slots])).max (h "id" b (by simp [slots]))).chain hn
  | assign a b p => exact ((h "lhs" a (by simp [slots])).max (h "exp" b (by simp [slots]))).chain hn
  | call a b p => exact ((h "id" a (by simp [slots])).max (h "exp_list" b (by simp [slots]))).chain hn
  | unary op a p => exact (h "operand" a (by simp [slots])).chain hn
  | binary op a b p =>
      exact ((h "left" a (by simp [slots])).max (h "right" b (by simp [slots]))).chain hn
  | _ => cases hn

theorem chainBelow_greatestHeight (h : ∀ child ∈ items, ChainBelow n child.height) :
    ChainBelow n (greatestHeight items) := by
  induction items with
  | nil => exact .inl rfl
  | cons item rest ih =>
      rw [List.forall_mem_cons] at h
      exact h.1.max (ih h.2)

theorem chainBelow_of_mem_slots {n child : Node} {slot : String} (h : (slot, child) ∈ n.slots) :
    ChainBelow n child.height := by
  have hbelow : ∀ slot' inner, (slot', inner) ∈ child.slots → ChainBelow child inner.height :=
    fun _ _ hinner => chainBelow_of_mem_slots hinner
  by_cases hchild : child.isExpression = true
  · exact .inr ⟨child, .slot h hchild, chain_of_forall_slots hchild hbelow⟩
  · cases child with
    | list cls items p =>
        cases cls with
        | expressions =>
            have hitems : ∀ item ∈ items,
                ChainBelow (.list .expressions items p) item.height := by
              intro item hitem
              obtain ⟨slot', hslot⟩ := exists_mem_slots_list .expressions p hitem
              exact hbelow slot' item hslot
            rcases chainBelow_greatestHeight hitems with hzero | ⟨m, hm, hchain⟩
            · exact .inl hzero
            · exact .inr ⟨m, .list h hm, hchain⟩
        | _ => exact .inl rfl
    | base cls p =>
        cases cls with
        | expression => exact absurd rfl hchild
        | _ => exact .inl rfl
    | number | string | truth | name | dot | assign | call | unary | binary =>
        exact absurd rfl hchild
    | _ => exact .inl rfl
termination_by sizeOf child
decreasing_by exact sizeOf_lt_of_mem_slots hinner

/-- An expression begins a chain of the length of its height. -/
theorem chain_height (h : n.isExpression = true) : Chain n n.height :=
  chain_of_forall_slots h fun _ _ => chainBelow_of_mem_slots

end Cmm.Node

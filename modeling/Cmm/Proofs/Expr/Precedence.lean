import Cmm.Proofs.Expr.Shallower

/-!
# Splitting at the loosest operator

Binary operators are read by climbing: an operator takes as its right operand what binds tighter than
itself, and what was read so far is its left operand.  The outcome is the tree that splitting gives:
at the root is the last one of those operators that bind loosest, and the parts before and after it
are split in turn.
-/

namespace Cmm

/-- A binary operator and the operand behind it, with the tokens that they are read from. -/
structure Link where
  op : BinaryOp
  sign : Token
  operand : Expr
  operandTokens : List Token

namespace Link

def precedence (l : Link) : Int := l.op.precedence

def tokens (l : Link) : List Token := l.sign :: l.operandTokens

/-! ## Trees of links -/

/-- The last one of those links whose operators bind loosest, between the links before it and those
after it. -/
def loosest : List Link → Option (List Link × Link × List Link)
  | [] => none
  | l :: rest =>
    match loosest rest with
    | none => some ([], l, [])
    | some (front, root, back) =>
      if l.precedence < root.precedence then some ([], l, rest) else some (l :: front, root, back)

variable {links front back : List Link} {root : Link}

theorem loosest_eq_none (h : loosest links = none) : links = [] := by
  cases links with
  | nil => rfl
  | cons l rest =>
      simp only [loosest] at h
      split at h
      · cases h
      · split at h <;> cases h

theorem loosest_spec (h : loosest links = some (front, root, back)) :
    links = front ++ root :: back ∧ (∀ l ∈ front, root.precedence ≤ l.precedence) ∧
      ∀ l ∈ back, root.precedence < l.precedence := by
  induction links generalizing front root back with
  | nil => cases h
  | cons l rest ih =>
      simp only [loosest] at h
      split at h
      · rename_i hrest
        cases h
        exact ⟨by rw [loosest_eq_none hrest]; rfl, List.forall_mem_nil _, List.forall_mem_nil _⟩
      · rename_i front' root' back' hrest
        obtain ⟨rfl, hfront, hback⟩ := ih hrest
        split at h
        · rename_i hlt
          cases h
          refine ⟨rfl, List.forall_mem_nil _, ?_⟩
          rw [List.forall_mem_append, List.forall_mem_cons]
          refine ⟨fun l' hl' => ?_, hlt, fun l' hl' => ?_⟩
          · exact Int.lt_of_lt_of_le hlt (hfront l' hl')
          · exact Int.lt_trans hlt (hback l' hl')
        · rename_i hle
          cases h
          refine ⟨rfl, ?_, hback⟩
          rw [List.forall_mem_cons]
          exact ⟨Int.not_lt.1 hle, hfront⟩

theorem loosest_append (hfront : ∀ l ∈ front, root.precedence ≤ l.precedence)
    (hback : ∀ l ∈ back, root.precedence < l.precedence) :
    loosest (front ++ root :: back) = some (front, root, back) := by
  induction front with
  | nil =>
      rw [List.nil_append, loosest]
      cases h : loosest back with
      | none => rw [loosest_eq_none h]
      | some parts =>
          obtain ⟨front', root', back'⟩ := parts
          obtain ⟨rfl, -, -⟩ := loosest_spec h
          exact if_pos (hback root' (by simp))
  | cons l front ih =>
      rw [List.forall_mem_cons] at hfront
      rw [List.cons_append, loosest, ih hfront.2]
      exact if_neg (Int.not_lt.2 hfront.1)

theorem le_of_le_root {p : Int} (hroot : p ≤ root.precedence)
    (hfront : ∀ l ∈ front, root.precedence ≤ l.precedence)
    (hback : ∀ l ∈ back, root.precedence < l.precedence) :
    ∀ l ∈ front ++ root :: back, p ≤ l.precedence := by
  rw [List.forall_mem_append, List.forall_mem_cons]
  refine ⟨fun l hl => ?_, hroot, fun l hl => ?_⟩
  · have := hfront l hl
    omega
  · have := hback l hl
    omega

/-- The tree of an operand and the links behind it.  With no link it is the operand; otherwise the last
one of the loosest operators is the root, and left and right of it are the trees of what comes
before and after. -/
def tree (first : Expr) (links : List Link) : Expr :=
  match _hlinks : loosest links with
  | none => first
  | some (front, root, back) =>
    .binary root.op (tree first front) (tree root.operand back) root.sign.position
termination_by links.length
decreasing_by
  all_goals
    obtain ⟨rfl, -, -⟩ := loosest_spec _hlinks
    simp only [List.length_append, List.length_cons]
    omega

@[simp] theorem tree_nil (first : Expr) : tree first [] = first := by
  rw [tree]
  rfl

theorem tree_append (first : Expr) (hfront : ∀ l ∈ front, root.precedence ≤ l.precedence)
    (hback : ∀ l ∈ back, root.precedence < l.precedence) :
    tree first (front ++ root :: back) =
      .binary root.op (tree first front) (tree root.operand back) root.sign.position := by
  have hroot := loosest_append hfront hback
  rw [tree]
  split
  · rename_i h
    cases hroot.symm.trans h
  · rename_i h
    cases hroot.symm.trans h
    rfl

example : tree (.truth true ⟨1, 1⟩) [
    ⟨.or, ⟨.symbol .or "||", ⟨1, 2⟩⟩, .truth false ⟨1, 4⟩, []⟩,
    ⟨.and, ⟨.symbol .and "&&", ⟨1, 5⟩⟩, .truth true ⟨1, 7⟩, []⟩] =
    .binary .or (.truth true ⟨1, 1⟩)
      (.binary .and (.truth false ⟨1, 4⟩) (.truth true ⟨1, 7⟩) ⟨1, 5⟩) ⟨1, 2⟩ := by
  cbv

end Link

/-! ## Reading links -/

/-- No operator of a precedence, or a higher one, comes next. -/
def Cursor.Below (minimum : Int) (c : Cursor) : Prop :=
  ∀ op, BinaryOp.ofKind? c.current.kind = some op → op.precedence < minimum

/-- From one cursor to another there are operators, and behind each of them what is read there as an
operand. -/
inductive Links (limits : Limits) : Cursor → List Link → Cursor → Prop
  | nil (c : Cursor) : Links limits c [] c
  | cons {c d e : Cursor} {l : Link} {links : List Link}
    (hop : BinaryOp.ofKind? c.current.kind = some l.op) (hsign : l.sign = c.current)
    (hoperand : Parser.unary limits c.advance = .ok l.operand d)
    (htokens : c.advance.Reads l.operandTokens d) (hlinks : Links limits d links e) :
    Links limits c (l :: links) e

namespace Links

variable {limits : Limits} {c d e : Cursor} {links more : List Link}

theorem append (h : Links limits c links d) (hmore : Links limits d more e) :
    Links limits c (links ++ more) e := by
  induction h with
  | nil c => exact hmore
  | cons hop hsign hoperand htokens _ ih => exact .cons hop hsign hoperand htokens (ih hmore)

theorem reads (h : Links limits c links d) (hc : c.Closed) :
    c.Reads (links.flatMap Link.tokens) d := by
  induction h with
  | nil c => exact .refl c
  | @cons c d e l links hop hsign hoperand htokens hlinks ih =>
      have hk : c.current.kind ≠ .endOfInput := by simp [BinaryOp.eq_symbol_of_ofKind? hop]
      have hadvance := Cursor.reads_advance hc hk
      have hoperand := hadvance.trans htokens
      rw [List.flatMap_cons, Link.tokens, hsign]
      exact hoperand.trans (ih (hoperand.closed hc))

end Links

namespace Parser

variable {limits : Limits} {steps k : Nat} {minimum : Int} {c d : Cursor} {e : Expr}

theorem exists_reads_unary (hc : c.Closed) (hrun : unary limits c = .ok e d) :
    ∃ u, c.Reads u d := by
  obtain ⟨u, hu, -⟩ := (guided_operand limits c hc).of_ok hrun
  exact ⟨u, hu⟩

theorem exists_of_nested_ok {α : Type} {p : Parser α} {a : α} (h : nested limits p c = .ok a d) :
    ∃ d', p c.deeper = .ok a d' ∧ d = leave d' := by
  by_cases hdeep : limits.depth < c.depth + 1
  · rw [nested_of_lt hdeep] at h
    cases h
  · rw [nested_of_not_lt hdeep] at h
    split at h
    · cases h
      exact ⟨_, by assumption, rfl⟩
    · cases h

theorem eq_of_checkHeight_ok {height : Nat} {t : Token}
    (h : checkHeight limits height t c = .ok () d) : d = c := by
  unfold checkHeight at h
  split at h <;> cases h
  rfl

/-- What the operators behind an expression come to: there is none, or one is taken with its right
operand and others may follow. -/
theorem cases_of_operators_ok {left : Expr}
    (hrun : operatorsIn limits (steps + 1) minimum left c = .ok e d) :
    (c.Below minimum ∧ e = left ∧ d = c) ∨
      ∃ op right c', BinaryOp.ofKind? c.current.kind = some op ∧ minimum ≤ op.precedence ∧
        binaryIn limits steps (op.precedence + 1) c.advance = .ok right c' ∧
        operatorsIn limits steps minimum (.binary op left right c.current.position) c' = .ok e d := by
  obtain ⟨t, c₁, ht, hrun⟩ := exists_of_bind_ok hrun
  cases ht
  unfold Cursor.Below
  cases hop : BinaryOp.ofKind? c.current.kind with
  | none =>
      simp only [hop] at hrun
      cases hrun
      exact .inl ⟨nofun, rfl, rfl⟩
  | some op =>
      simp only [hop] at hrun
      split at hrun
      · rename_i hlt
        cases hrun
        exact .inl ⟨fun op' hop' => Option.some.inj hop' ▸ hlt, rfl, rfl⟩
      · rename_i hle
        obtain ⟨_, c₁, hadvance, hrun⟩ := exists_of_bind_ok hrun
        cases hadvance
        obtain ⟨right, c₂, hright, hrun⟩ := exists_of_bind_ok hrun
        obtain ⟨_, c₃, hheight, hrun⟩ := exists_of_bind_ok hrun
        rw [eq_of_checkHeight_ok hheight] at hrun
        exact .inr ⟨op, right, c₂, rfl, Int.not_lt.1 hle, hright, hrun⟩

/-- Links from one cursor to another, all of some precedence or a higher one, where no such operator
goes on. -/
structure Chain (limits : Limits) (minimum : Int) (c : Cursor) (links : List Link) (d : Cursor) :
    Prop where
  toLinks : Links limits c links d
  minimum_le : ∀ l ∈ links, minimum ≤ l.precedence
  below : d.Below minimum

namespace Chain

variable {links more : List Link} {c' : Cursor}

theorem nil (h : c.Below minimum) : Chain limits minimum c [] c :=
  ⟨.nil c, List.forall_mem_nil _, h⟩

theorem append (hlinks : Links limits c links c') (hle : ∀ l ∈ links, minimum ≤ l.precedence)
    (h : Chain limits minimum c' more d) : Chain limits minimum c (links ++ more) d where
  toLinks := hlinks.append h.toLinks
  minimum_le := List.forall_mem_append.2 ⟨hle, h.minimum_le⟩
  below := h.below

end Chain

/-- Climbing gives the tree of the links that it reads, and would read at any smaller depth.  The
operators in front of those to come bind at least as tightly as the next one, so that it may become
the root. -/
structure Climbs (limits : Limits) (steps : Nat) : Prop where
  binary : ∀ {c d : Cursor} {minimum : Int} {e : Expr} {k : Nat}, c.Closed → k ≤ c.depth →
    binaryIn limits steps minimum c = .ok e d →
      ∃ first c₁ links, unary limits (c.atDepth k) = .ok first c₁ ∧
        Chain limits minimum c₁ links (d.atDepth k) ∧ e = Link.tree first links
  operators : ∀ {c d : Cursor} {minimum : Int} {first e : Expr} {front : List Link} {k : Nat},
    c.Closed → k ≤ c.depth →
    (∀ op, BinaryOp.ofKind? c.current.kind = some op → ∀ l ∈ front, op.precedence ≤ l.precedence) →
    operatorsIn limits steps minimum (Link.tree first front) c = .ok e d →
      ∃ links, Chain limits minimum (c.atDepth k) links (d.atDepth k) ∧
        e = Link.tree first (front ++ links)

namespace Climbs

variable (h : Climbs limits steps)

theorem zero : Climbs limits 0 where
  binary _ _ hrun := nomatch hrun
  operators _ _ _ hrun := nomatch hrun

include h

theorem climb_binary (hc : c.Closed) (hk : k ≤ c.depth)
    (hrun : binaryIn limits (steps + 1) minimum c = .ok e d) :
    ∃ first c₁ links, unary limits (c.atDepth k) = .ok first c₁ ∧
      Chain limits minimum c₁ links (d.atDepth k) ∧ e = Link.tree first links := by
  obtain ⟨d', hinner, rfl⟩ := exists_of_nested_ok hrun
  obtain ⟨first, c₁, hfirst, hoperators⟩ := exists_of_bind_ok hinner
  have hk' : k ≤ c.deeper.depth := Nat.le_succ_of_le hk
  have hdepth := ((exprCarries limits steps).unary steps (Nat.le_refl _)).depth hfirst
  have hunary : unary limits (c.atDepth k) = .ok first (c₁.atDepth k) :=
    unary_atDepth (c := c.deeper) hc hfirst hk'
  obtain ⟨u, hu⟩ := exists_reads_unary (c := c.atDepth k) hc hunary
  have hclosed : c₁.Closed := hu.closed hc
  rw [← Link.tree_nil first] at hoperators
  obtain ⟨links, hchain, he⟩ :=
    h.operators hclosed (hdepth ▸ hk') (fun _ _ => List.forall_mem_nil _) hoperators
  exact ⟨first, _, links, hunary, hchain, he⟩

theorem climb_operators {first : Expr} {front : List Link} (hc : c.Closed) (hk : k ≤ c.depth)
    (hnext : ∀ op, BinaryOp.ofKind? c.current.kind = some op →
      ∀ l ∈ front, op.precedence ≤ l.precedence)
    (hrun : operatorsIn limits (steps + 1) minimum (Link.tree first front) c = .ok e d) :
    ∃ links, Chain limits minimum (c.atDepth k) links (d.atDepth k) ∧
      e = Link.tree first (front ++ links) := by
  rcases cases_of_operators_ok hrun with ⟨hbelow, rfl, rfl⟩ | ⟨op, right, c₂, hop, hle, hright, hmore⟩
  · exact ⟨[], .nil hbelow, by rw [List.append_nil]⟩
  · have hk' : k ≤ c.advance.depth := c.depth_advance ▸ hk
    have hkind : c.current.kind ≠ .endOfInput := by simp [BinaryOp.eq_symbol_of_ofKind? hop]
    have hc' := (Cursor.reads_advance hc hkind).closed hc
    obtain ⟨operand, c₁, inner, hoperand, hchain, rfl⟩ := h.binary hc' hk' hright
    obtain ⟨u, hu⟩ := exists_reads_unary (c := c.advance.atDepth k) hc' hoperand
    have hc₁ := hu.closed hc'
    have hc₂ : c₂.Closed := (hchain.toLinks.reads hc₁).closed hc₁
    have hdepth := ((exprCarries limits steps).binary steps _ (Nat.le_refl _)).depth hright
    -- the operator takes what binds tighter, and becomes the root of all that was read so far
    let l : Link := ⟨op, c.current, operand, u⟩
    have hfront : ∀ l' ∈ front, l.precedence ≤ l'.precedence := hnext op hop
    have hinner : ∀ l' ∈ inner, l.precedence < l'.precedence := hchain.minimum_le
    have hwhole : Link.tree first (front ++ l :: inner) =
        .binary op (Link.tree first front) (Link.tree operand inner) c.current.position :=
      Link.tree_append first hfront hinner
    have hnext' : ∀ op', BinaryOp.ofKind? c₂.current.kind = some op' →
        ∀ l' ∈ front ++ l :: inner, op'.precedence ≤ l'.precedence := fun op' hop' =>
      Link.le_of_le_root (Int.lt_add_one_iff.1 (hchain.below op' hop')) hfront hinner
    rw [← hwhole] at hmore
    obtain ⟨more, hmore', rfl⟩ := h.operators (c := c₂) hc₂ (hdepth ▸ hk') hnext' hmore
    have hlinks : Links limits (c.atDepth k) (l :: inner) (c₂.atDepth k) := by
      rw [← c.advance_atDepth] at hoperand hu
      exact .cons hop rfl hoperand hu hchain.toLinks
    have hmin : ∀ l' ∈ l :: inner, minimum ≤ l'.precedence :=
      Link.le_of_le_root hle (List.forall_mem_nil _) hinner
    exact ⟨(l :: inner) ++ more, hmore'.append hlinks hmin, by rw [List.append_assoc]⟩

theorem succ : Climbs limits (steps + 1) :=
  ⟨h.climb_binary, h.climb_operators⟩

end Climbs

theorem climbs (limits : Limits) (steps : Nat) : Climbs limits steps := by
  induction steps with
  | zero => exact .zero
  | succ steps ih => exact ih.succ

/-- Whenever an expression is read whose operators are to have at least some precedence, the tokens
taken are those of an operand and of links behind it: each operand is what is read there as an
operand, each operator has that precedence or a higher one, and the next token is no such operator.
The expression is the tree that is split at the last one of the loosest operators. -/
theorem binary_splits (limits : Limits) (minimum : Int) {c d : Cursor} {e : Expr} (hc : c.Closed)
    (hrun : binary limits minimum c = .ok e d) :
    ∃ first tokens c₁ links,
      unary limits c = .ok first c₁ ∧ c.Reads tokens c₁ ∧ Links limits c₁ links d ∧
      c.Reads (tokens ++ links.flatMap Link.tokens) d ∧
      (∀ l ∈ links, minimum ≤ l.op.precedence) ∧
      (∀ op, BinaryOp.ofKind? d.current.kind = some op → op.precedence < minimum) ∧
      e = Link.tree first links := by
  have hdepth : d.depth = c.depth :=
    ((exprCarries limits _).binary _ minimum (Nat.le_refl _)).depth hrun
  obtain ⟨first, c₁, links, hfirst, hchain, he⟩ :=
    (climbs limits _).binary hc (Nat.le_refl c.depth) hrun
  rw [← hdepth, Cursor.atDepth_self] at hchain
  obtain ⟨u, hu⟩ := exists_reads_unary hc hfirst
  have hlinks := hchain.toLinks.reads (hu.closed hc)
  exact ⟨first, u, c₁, links, hfirst, hu, hchain.toLinks, hu.trans hlinks, hchain.minimum_le,
    hchain.below, he⟩

private def differences : Cursor :=
  .ofTokens [⟨.name "a", ⟨1, 1⟩⟩, ⟨.symbol .minus "-", ⟨1, 3⟩⟩, ⟨.name "b", ⟨1, 5⟩⟩,
    ⟨.symbol .times "*", ⟨1, 7⟩⟩, ⟨.name "c", ⟨1, 9⟩⟩, ⟨.symbol .minus "-", ⟨1, 11⟩⟩,
    ⟨.name "d", ⟨1, 13⟩⟩, ⟨.symbol .less "<", ⟨1, 15⟩⟩, ⟨.name "e", ⟨1, 17⟩⟩]

private def differenceTree : Expr :=
  let name text column := Expr.loc (.name ⟨text, ⟨1, column⟩⟩)
  .binary .minus
    (.binary .minus (name "a" 1) (.binary .times (name "b" 5) (name "c" 9) ⟨1, 7⟩) ⟨1, 3⟩)
    (name "d" 13) ⟨1, 11⟩

theorem binary_splits_of_differences : ∃ d first tokens c₁ links,
    binary {} 5 differences = .ok differenceTree d ∧ d.current.kind = .symbol .less ∧
    unary {} differences = .ok first c₁ ∧ Links {} c₁ links d ∧
    differences.Reads (tokens ++ links.flatMap Link.tokens) d ∧
    (∀ l ∈ links, 5 ≤ l.op.precedence) ∧ differenceTree = Link.tree first links := by
  obtain ⟨d, hrun, hnext⟩ : ∃ d, binary {} 5 differences = .ok differenceTree d ∧
      d.current.kind = .symbol .less := ⟨_, rfl, rfl⟩
  obtain ⟨first, tokens, c₁, links, hfirst, -, hlinks, hreads, hle, -, htree⟩ :=
    binary_splits {} 5 (Cursor.closed_ofTokens _) hrun
  exact ⟨d, first, tokens, c₁, links, hrun, hnext, hfirst, hlinks, hreads, hle, htree⟩

end Parser

end Cmm

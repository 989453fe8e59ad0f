import Cmm.Proofs.Node.Composite
import Cmm.Proofs.Token.Order
import Cmm.Proofs.Token.Plain

/-!
# Trees on their tokens

Every class of nodes is made of parts in a row: tokens, other nodes, and the places where the node
and the lists that belong to it stand.  A tree is placed on tokens if these spell its parts, and
every place is that of the token that comes next.

Where the tokens stand in the order of a text, so do the nodes on them.
-/

namespace Cmm

/-! ## Parts -/

/-- A part of a node, in the order of the text. -/
inductive Component where
  /-- The next token, spelled in whatever way, is a lexeme. -/
  | lexeme (l : Lexeme)
  /-- The next token stands at a position. -/
  | here (p : Position)
  /-- The next tokens are those of a node. -/
  | node (n : Node)

namespace Component

def sign (s : Symbol) : Component := .lexeme (.ofSymbol s)

def word (w : Keyword) : Component := .lexeme (.ofKeyword w)

def withCommas : List Node → List Component
  | [] => []
  | [n] => [.node n]
  | n :: rest => .node n :: sign .comma :: withCommas rest

def condition (e : Node) : List Component := [sign .leftParen, .node e, sign .rightParen]

/-- Declarations and statements in braces.  The declarations stand where the first token behind the
brace does, the statements where the first token behind the declarations does, whether there are any
or not. -/
def block (decls : List Node) (p : Position) (stmts : List Node) (q : Position) : List Component :=
  sign .leftCurly :: here p :: (decls.map node ++ here q :: (stmts.map node ++ [sign .rightCurly]))

end Component

open Component in
/-- The parts of the nodes of each class, and where they stand. -/
inductive Node.Form : Node → List Component → Prop
  | number {value : Int} {p : Position} :
    Form (.number value p) [here p, .lexeme (.number value)]
  | string {raw : String} {p : Position} :
    Form (.string raw p) [here p, .lexeme (.string raw)]
  | truth {value : Bool} {p : Position} :
    Form (.truth value p) [here p, word (if value then .trueWord else .falseWord)]
  | name {text : String} {p : Position} :
    Form (.name text p) [here p, .lexeme (.name text)]
  /-- Parentheses leave no trace in a tree. -/
  | parens {e : Node} (he : e.isExpression = true) :
    Form e [sign .leftParen, node e, sign .rightParen]
  | dot {loc id : Node} {p : Position} :
    Form (.dot loc id p) [node loc, here p, sign .dot, node id]
  | assign {lhs exp : Node} {p : Position} :
    Form (.assign lhs exp p) [node lhs, here p, sign .assign, node exp]
  | call {callee : String} {args : Node} {p : Position} :
    Form (.call (.name callee p) args p) [here p, node (.name callee p), node args]
  | unary {op : UnaryOp} {operand : Node} {p : Position} :
    Form (.unary (some op) operand p) [here p, sign op.symbol, node operand]
  | binary {op : BinaryOp} {left right : Node} {p : Position} :
    Form (.binary (some op) left right p) [node left, here p, sign op.symbol, node right]
  | expressions {items : List Node} {p : Position} :
    Form (.list .expressions items p)
      (here p :: sign .leftParen :: (withCommas items ++ [sign .rightParen]))
  | primitive {type : Primitive} {p : Position} :
    Form (.primitive type p) [here p, word type.keyword]
  | structType {id : Node} {p : Position} :
    Form (.structType id p) [here p, word .struct, node id]
  | variableDecl {type id : Node} {size : Int} {p : Position} :
    Form (.variableDecl type id size p) [here p, node type, node id, sign .semicolon]
  | formal {type id : Node} {p : Position} :
    Form (.formal type id p) [here p, node type, node id]
  | formals {items : List Node} {p : Position} :
    Form (.list .formals items p)
      (here p :: sign .leftParen :: (withCommas items ++ [sign .rightParen]))
  | functionDecl {type id formals body : Node} {p : Position} :
    Form (.functionDecl type id formals body p)
      [here p, node type, node id, node formals, node body]
  | functionBody {decls stmts : List Node} {p q r : Position} :
    Form (.functionBody (.list .declarations decls q) (.list .statements stmts r) p)
      (here p :: block decls q stmts r)
  | structDecl {id : Node} {fields : List Node} {p q : Position} :
    Form (.structDecl id (.list .declarations fields q) p)
      (here p :: word .struct :: node id :: here q :: sign .leftCurly ::
        (fields.map node ++ [sign .rightCurly, sign .semicolon]))
  | assignment {assign : Node} {p : Position} :
    Form (.assignment assign p) [here p, node assign, sign .semicolon]
  | increment {loc : Node} {p : Position} :
    Form (.increment loc p) [here p, node loc, sign .plusPlus, sign .semicolon]
  | decrement {loc : Node} {p : Position} :
    Form (.decrement loc p) [here p, node loc, sign .minusMinus, sign .semicolon]
  | read {loc : Node} {p : Position} :
    Form (.read loc p) [here p, word .cin, sign .read, node loc, sign .semicolon]
  | write {exp : Node} {p : Position} :
    Form (.write exp p) [here p, word .cout, sign .write, node exp, sign .semicolon]
  | ifThen {exp : Node} {decls stmts : List Node} {p q r : Position} :
    Form (.ifThen exp (.list .declarations decls q) (.list .statements stmts r) p)
      (here p :: word .ifWord :: (condition exp ++ block decls q stmts r))
  | ifElse {exp : Node} {decls stmts decls' stmts' : List Node} {p q r q' r' : Position} :
    Form (.ifElse exp (.list .declarations decls q) (.list .statements stmts r)
        (.list .declarations decls' q') (.list .statements stmts' r') p)
      (here p :: word .ifWord :: (condition exp ++ (block decls q stmts r ++
        word .elseWord :: block decls' q' stmts' r')))
  | whileLoop {exp : Node} {decls stmts : List Node} {p q r : Position} :
    Form (.whileLoop exp (.list .declarations decls q) (.list .statements stmts r) p)
      (here p :: word .whileWord :: (condition exp ++ block decls q stmts r))
  | repeatLoop {exp : Node} {decls stmts : List Node} {p q r : Position} :
    Form (.repeatLoop exp (.list .declarations decls q) (.list .statements stmts r) p)
      (here p :: word .repeatWord :: (condition exp ++ block decls q stmts r))
  | callStatement {call : Node} {p : Position} :
    Form (.callStatement call p) [here p, node call, sign .semicolon]
  | returnNothing {p : Position} :
    Form (.returnStatement .absent p) [here p, word .returnWord, sign .semicolon]
  | returnValue {exp : Node} {p : Position} :
    Form (.returnStatement exp p) [here p, word .returnWord, node exp, sign .semicolon]
  | program {decls : List Node} {p : Position} :
    Form (.program (.list .declarations decls p) p)
      (here p :: (decls.map node ++ [.lexeme .endOfInput]))

/-- Tokens that spell some parts, with every place that of the token that comes next. -/
inductive Placed : List Component → List Token → Prop
  | nil : Placed [] []
  | lexeme {l : Lexeme} {t : Token} {parts : List Component} {tokens : List Token}
      (ht : t.plain = l) (h : Placed parts tokens) : Placed (.lexeme l :: parts) (t :: tokens)
  | here {t : Token} {parts : List Component} {tokens : List Token}
      (h : Placed parts (t :: tokens)) : Placed (.here t.position :: parts) (t :: tokens)
  | node {n : Node} {own parts : List Component} {u v : List Token} (hform : n.Form own)
      (hown : Placed own u) (h : Placed parts v) : Placed (.node n :: parts) (u ++ v)

abbrev Node.PlacedOn (n : Node) (tokens : List Token) : Prop := Placed [.node n] tokens

theorem Node.Form.ne_nil {n : Node} {parts : List Component} (h : n.Form parts) : parts ≠ [] := by
  cases h <;> simp

namespace Placed

variable {parts others : List Component} {u v : List Token}

theorem append (h : Placed parts u) (h' : Placed others v) : Placed (parts ++ others) (u ++ v) := by
  induction h with
  | nil => exact h'
  | lexeme ht _ ih => exact .lexeme ht ih
  | here _ ih => exact .here ih
  | node hform hown _ _ ih =>
      rw [List.append_assoc]
      exact .node hform hown ih

theorem ne_nil (h : Placed parts u) (hparts : parts ≠ []) : u ≠ [] := by
  induction h with
  | nil => exact absurd rfl hparts
  | lexeme => simp
  | here => simp
  | node hform _ _ ihown => simp [ihown hform.ne_nil]

end Placed

theorem Node.Form.placedOn {n : Node} {parts : List Component} {tokens : List Token}
    (h : n.Form parts) (hplaced : Placed parts tokens) : n.PlacedOn tokens := by
  simpa using Placed.node h hplaced .nil

/-! ## The positions in a tree -/

namespace Node

variable {n : Node} {q : Position}

def HasPosition (n : Node) (q : Position) : Prop :=
  ∃ m : Node, m.Within n ∧ m.position? = some q

theorem hasPosition_iff :
    n.HasPosition q ↔ n.position? = some q ∨ ∃ x ∈ n.slots, x.2.HasPosition q := by
  constructor
  · rintro ⟨m, hm, hq⟩
    rcases within_iff.1 hm with rfl | ⟨x, hx, hm⟩
    · exact .inl hq
    · exact .inr ⟨x, hx, m, hm, hq⟩
  · rintro (hq | ⟨x, hx, m, hm, hq⟩)
    · exact ⟨n, .self, hq⟩
    · exact ⟨m, .slot hx hm, hq⟩

/-- Everywhere in one tree stands in front of everywhere in another. -/
def Precedes (n m : Node) : Prop :=
  ∀ p q, n.HasPosition p → m.HasPosition q → p.Before q

/-- An operator stands between its operands, and the nodes of a list stand one behind the other. -/
def InOrder : Node → Prop
  | .dot left right p | .assign left right p | .binary _ left right p =>
    (∀ q, left.HasPosition q → q.Before p) ∧ ∀ q, right.HasPosition q → p.Before q
  | .unary _ operand p => ∀ q, operand.HasPosition q → p.Before q
  | .list _ items _ => items.Pairwise Precedes
  | _ => True

def Ordered (n : Node) : Prop := ∀ m : Node, m.Within n → m.InOrder

theorem ordered_iff : n.Ordered ↔ n.InOrder ∧ ∀ x ∈ n.slots, x.2.Ordered := by
  constructor
  · exact fun h => ⟨h n .self, fun x hx m hm => h m (.slot hx hm)⟩
  · rintro ⟨hn, hslots⟩ m hm
    rcases within_iff.1 hm with rfl | ⟨x, hx, hm⟩
    · exact hn
    · exact hslots x hx m hm

end Node

namespace Component

variable {q : Position} {parts : List Component}

def HasPosition (q : Position) : Component → Prop
  | .lexeme _ => False
  | .here p => p = q
  | .node n => n.HasPosition q

def AnyAt (q : Position) (parts : List Component) : Prop := ∃ part ∈ parts, part.HasPosition q

theorem anyAt_cons {part : Component} :
    AnyAt q (part :: parts) ↔ part.HasPosition q ∨ AnyAt q parts := by
  simp [AnyAt]

def node? : Component → Option Node
  | .node n => some n
  | _ => none

theorem sublist_withCommas : ∀ nodes : List Node, (nodes.map node).Sublist (withCommas nodes)
  | [] => .slnil
  | [_] => .refl _
  | _ :: n :: rest => .cons_cons _ (.cons _ (sublist_withCommas (n :: rest)))

/-- What stands in a slot is nothing, one of the parts, or a list that has no tokens of its own, but
a place and nodes among the parts. -/
def Holds (parts : List Component) (child : Node) : Prop :=
  child = .absent ∨ node child ∈ parts ∨ ∃ cls items p, child = .list cls items p ∧
    here p ∈ parts ∧ (items.map node).Sublist parts

theorem holds_node {child : Node} (h : node child ∈ parts) : Holds parts child := .inr (.inl h)

theorem holds_list {cls : ListClass} {items : List Node} {p : Position} (hp : here p ∈ parts)
    (hitems : (items.map node).Sublist parts) : Holds parts (.list cls items p) :=
  .inr (.inr ⟨cls, items, p, rfl, hp, hitems⟩)

theorem holds_of_block {decls stmts : List Node} {p q : Position} {parts : List Component}
    (h : (block decls p stmts q).Sublist parts) :
    Holds parts (.list .declarations decls p) ∧ Holds parts (.list .statements stmts q) := by
  have hdecls : (decls.map node).Sublist (block decls p stmts q) :=
    .cons _ (.cons _ (List.sublist_append_left ..))
  have hstmts : (stmts.map node).Sublist (block decls p stmts q) :=
    .cons _ (.cons _
      (.trans (.cons _ (List.sublist_append_left ..)) (List.sublist_append_right ..)))
  constructor
  · exact holds_list (h.subset (by simp [block])) (hdecls.trans h)
  · exact holds_list (h.subset (by simp [block])) (hstmts.trans h)

theorem mem_withCommas {items : List Node} {n : Node} (h : n ∈ items) :
    node n ∈ withCommas items :=
  (sublist_withCommas items).subset (List.mem_map_of_mem h)

end Component

/-- Where a node stands and what it holds is found among its parts, unless it has parentheses around
it. -/
theorem Node.Form.holds {n : Node} {parts : List Component} (h : n.Form parts) :
    .node n ∈ parts ∨
      (∃ p, n.position? = some p ∧ .here p ∈ parts) ∧ ∀ x ∈ n.slots, Component.Holds parts x.2 := by
  cases h with
  | parens => simp
  | expressions | formals =>
      refine .inr ⟨⟨_, rfl, by simp⟩, fun x hx => Component.holds_node ?_⟩
      simp [Component.mem_withCommas (mem_of_mem_slots_list hx)]
  | @functionBody decls stmts p q r =>
      obtain ⟨hdecls, hstmts⟩ :=
        Component.holds_of_block
          (List.sublist_cons_self (.here p) (Component.block decls q stmts r))
      refine .inr ⟨⟨_, rfl, by simp⟩, ?_⟩
      simp only [Node.slots, List.forall_mem_cons]
      exact ⟨hdecls, hstmts, List.forall_mem_nil _⟩
  | @ifThen exp decls stmts p q r | @whileLoop exp decls stmts p q r
  | @repeatLoop exp decls stmts p q r =>
      have hblock :=
        List.sublist_append_right (Component.condition exp) (Component.block decls q stmts r)
      obtain ⟨hdecls, hstmts⟩ := Component.holds_of_block (.cons _ (.cons _ hblock))
      refine .inr ⟨⟨_, rfl, by simp⟩, ?_⟩
      simp only [Node.slots, List.forall_mem_cons]
      exact ⟨Component.holds_node (by simp [Component.condition]), hdecls, hstmts,
        List.forall_mem_nil _⟩
  | @ifElse exp decls stmts decls' stmts' p q r q' r' =>
      have hblocks := List.sublist_append_right (Component.condition exp)
        (Component.block decls q stmts r ++ .word .elseWord :: Component.block decls' q' stmts' r')
      obtain ⟨hdecls, hstmts⟩ := Component.holds_of_block
        (.cons _ (.cons _ ((List.sublist_append_left ..).trans hblocks)))
      obtain ⟨hdecls', hstmts'⟩ := Component.holds_of_block (.cons _ (.cons _
        (.trans (.trans (List.sublist_cons_self ..) (List.sublist_append_right ..)) hblocks)))
      refine .inr ⟨⟨_, rfl, by simp⟩, ?_⟩
      simp only [Node.slots, List.forall_mem_cons]
      exact ⟨Component.holds_node (by simp [Component.condition]), hdecls, hstmts, hdecls', hstmts',
        List.forall_mem_nil _⟩
  | @structDecl id fields =>
      refine .inr ⟨⟨_, rfl, by simp⟩, ?_⟩
      simp only [Node.slots, List.forall_mem_cons]
      have hfields := List.sublist_append_left (fields.map Component.node)
        [.sign .rightCurly, .sign .semicolon]
      refine ⟨Component.holds_node (by simp), Component.holds_list (by simp) ?_,
        List.forall_mem_nil _⟩
      exact .cons _ (.cons _ (.cons _ (.cons _ (.cons _ hfields))))
  | program =>
      refine .inr ⟨⟨_, rfl, by simp⟩, ?_⟩
      simp only [Node.slots, List.forall_mem_cons]
      refine ⟨Component.holds_list (by simp) ?_, List.forall_mem_nil _⟩
      exact .cons _ (List.sublist_append_left ..)
  | _ =>
      refine .inr ⟨⟨_, rfl, by simp⟩, ?_⟩
      simp [Node.slots, Component.Holds]

/-- Every position in a tree is one of its parts. -/
theorem Node.Form.anyAt {n : Node} {parts : List Component} {q : Position} (h : n.Form parts)
    (hq : n.HasPosition q) : Component.AnyAt q parts := by
  obtain hn | ⟨⟨p, hp, hhere⟩, hslots⟩ := h.holds
  · exact ⟨_, hn, hq⟩
  rcases Node.hasPosition_iff.1 hq with hown | ⟨x, hx, hq⟩
  · exact ⟨_, hhere, Option.some.inj (hp.symm.trans hown)⟩
  obtain habsent | hchild | ⟨cls, items, p', hlist, hp', hitems⟩ := hslots x hx
  · rw [habsent, Node.hasPosition_iff] at hq
    simp [Node.position?, Node.slots] at hq
  · exact ⟨_, hchild, hq⟩
  · rw [hlist, Node.hasPosition_iff] at hq
    rcases hq with hq | ⟨y, hy, hq⟩
    · exact ⟨_, hp', Option.some.inj hq⟩
    · exact ⟨_, hitems.subset (List.mem_map_of_mem (Node.mem_of_mem_slots_list hy)), hq⟩

/-! ## The order of the parts -/

namespace Placed

variable {parts rest : List Component} {u : List Token} {n : Node} {l : Lexeme} {p q : Position}

theorem exists_placedOn (h : Placed (.node n :: rest) u) :
    ∃ v w, u = v ++ w ∧ n.PlacedOn v ∧ Placed rest w := by
  cases h with
  | node hform hown h => exact ⟨_, _, rfl, hform.placedOn hown, h⟩

theorem exists_token (h : Placed parts u) (hq : Component.AnyAt q parts) :
    ∃ t ∈ u, t.position = q := by
  induction h with
  | nil => simp [Component.AnyAt] at hq
  | lexeme _ _ ih =>
      rcases Component.anyAt_cons.1 hq with hq | hq
      · exact hq.elim
      · obtain ⟨t, ht, hposition⟩ := ih hq
        exact ⟨t, List.mem_cons_of_mem _ ht, hposition⟩
  | @here t _ _ _ ih =>
      rcases Component.anyAt_cons.1 hq with hq | hq
      · exact ⟨t, List.mem_cons_self .., hq⟩
      · exact ih hq
  | node hform _ _ ihown ih =>
      rcases Component.anyAt_cons.1 hq with hq | hq
      · obtain ⟨t, ht, hposition⟩ := ihown (hform.anyAt hq)
        exact ⟨t, List.mem_append_left _ ht, hposition⟩
      · obtain ⟨t, ht, hposition⟩ := ih hq
        exact ⟨t, List.mem_append_right _ ht, hposition⟩

theorem before_of_here (h : Placed (.here p :: .lexeme l :: rest) u) (hu : Increasing u)
    (hq : Component.AnyAt q rest) : p.Before q := by
  cases h with
  | here h =>
      cases h with
      | lexeme _ h =>
          obtain ⟨t, ht, rfl⟩ := h.exists_token hq
          exact List.rel_of_pairwise_cons hu ht

theorem before_of_node (h : Placed (.node n :: rest) u) (hu : Increasing u)
    (hp : n.HasPosition p) (hq : Component.AnyAt q rest) : p.Before q := by
  obtain ⟨v, w, rfl, hn, hrest⟩ := h.exists_placedOn
  obtain ⟨s, hs, rfl⟩ := hn.exists_token ⟨_, List.mem_singleton_self _, hp⟩
  obtain ⟨t, ht, rfl⟩ := hrest.exists_token hq
  exact (List.pairwise_append.1 hu).2.2 s hs t ht

theorem increasing_of_node (h : Placed (.node n :: rest) u) (hu : Increasing u) :
    ∃ v, Placed rest v ∧ Increasing v := by
  obtain ⟨v, w, rfl, -, hrest⟩ := h.exists_placedOn
  exact ⟨w, hrest, (List.pairwise_append.1 hu).2.1⟩

/-- The nodes among the parts precede one another. -/
theorem pairwise_nodes (h : Placed parts u) (hu : Increasing u) :
    (parts.filterMap Component.node?).Pairwise Node.Precedes := by
  induction h with
  | nil => exact .nil
  | lexeme _ _ ih => exact ih (List.Pairwise.of_cons hu)
  | here _ ih => exact ih hu
  | node hform hown h _ ih =>
      refine .cons (fun m hm p q hp hq => ?_) (ih (List.pairwise_append.1 hu).2.1)
      obtain ⟨part, hpart, hm⟩ := List.mem_filterMap.1 hm
      refine before_of_node (.node hform hown h) hu hp ⟨part, hpart, ?_⟩
      cases part <;> cases hm
      exact hq

theorem pairwise_of_sublist (h : Placed parts u) (hu : Increasing u) {nodes : List Node}
    (hnodes : (nodes.map Component.node).Sublist parts) : nodes.Pairwise Node.Precedes := by
  have hsub := hnodes.filterMap Component.node?
  rw [List.filterMap_map] at hsub
  have hall : nodes.filterMap (Component.node? ∘ Component.node) = nodes := List.filterMap_some
  rw [hall] at hsub
  exact (h.pairwise_nodes hu).sublist hsub

end Placed

/-- The parts of a node put it in order. -/
theorem Node.Form.inOrder {n : Node} {parts : List Component} {u : List Token} (h : n.Form parts)
    (hplaced : Placed parts u) (hu : Increasing u) : .node n ∈ parts ∨ n.InOrder := by
  have operands : ∀ {left right : Node} {p : Position} {l : Lexeme},
      Placed [.node left, .here p, .lexeme l, .node right] u →
      (∀ q, left.HasPosition q → q.Before p) ∧ ∀ q, right.HasPosition q → p.Before q := by
    intro left right p l hplaced
    refine ⟨fun q hq => hplaced.before_of_node hu hq ⟨_, List.mem_cons_self .., rfl⟩, ?_⟩
    intro q hq
    obtain ⟨v, hrest, hv⟩ := hplaced.increasing_of_node hu
    exact hrest.before_of_here hv ⟨_, List.mem_singleton_self _, hq⟩
  cases h with
  | parens => simp
  | dot | assign | binary => exact .inr (operands hplaced)
  | unary => exact .inr fun q hq => hplaced.before_of_here hu ⟨_, List.mem_singleton_self _, hq⟩
  | expressions | formals =>
      refine .inr (hplaced.pairwise_of_sublist hu ?_)
      exact .cons _ (.cons _ ((Component.sublist_withCommas _).trans (List.sublist_append_left ..)))
  | _ => exact .inr trivial

/-- Every tree that is placed on tokens in the order of a text is in order. -/
theorem Placed.ordered {parts : List Component} {u : List Token} (h : Placed parts u)
    (hu : Increasing u) : ∀ n, .node n ∈ parts → n.Ordered := by
  induction h with
  | nil => nofun
  | lexeme _ _ ih => simpa using ih (List.Pairwise.of_cons hu)
  | here _ ih => simpa using ih hu
  | @node n own parts u v hform hown _ ihown ih =>
      obtain ⟨hleft, hright, -⟩ := List.pairwise_append.1 hu
      intro m hm
      rcases List.mem_cons.1 hm with hm | hm
      · obtain rfl : m = n := by simpa using hm
        obtain hself | ⟨-, hslots⟩ := hform.holds
        · exact ihown hleft m hself
        obtain hself | horder := hform.inOrder hown hleft
        · exact ihown hleft m hself
        refine Node.ordered_iff.2 ⟨horder, fun x hx => ?_⟩
        obtain habsent | hchild | ⟨cls, items, p, hlist, -, hitems⟩ := hslots x hx
        · rw [habsent, Node.ordered_iff]
          exact ⟨trivial, nofun⟩
        · exact ihown hleft _ hchild
        · rw [hlist, Node.ordered_iff]
          refine ⟨hown.pairwise_of_sublist hleft hitems, fun y hy => ihown hleft _ ?_⟩
          exact hitems.subset (List.mem_map_of_mem (Node.mem_of_mem_slots_list hy))
      · exact ih hright m hm

end Cmm
